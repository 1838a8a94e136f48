import CalxMill.Nvidia.Ptxas
import CalxMill.Rust.Text

/-!
# The lines of a report

How the parser reads each kind of line when the line is printed from given
figures: the clauses of a `Used` line and of a properties block, the entry
line and the block header.
-/

namespace CalxMill.Nvidia

open Rust

/-! ## The figures of a report -/

structure Properties where
  stackFrame : UInt32
  spillStores : UInt32
  spillLoads : UInt32
  deriving DecidableEq

inductive UsedFigure where
  | registers
  | barriers
  | smem
  | lmem
  deriving DecidableEq

inductive UsedClause where
  | figure (f : UsedFigure) (n : UInt32)
  | cmem (bank n : UInt32)
  deriving DecidableEq

namespace KernelUsage

def properties (k : KernelUsage) : Properties := ⟨k.stackFrame, k.spillStores, k.spillLoads⟩

def withProperties (k : KernelUsage) (p : Properties) : KernelUsage :=
  { k with stackFrame := p.stackFrame, spillStores := p.spillStores, spillLoads := p.spillLoads }

def figure (k : KernelUsage) : UsedFigure → UInt32
  | .registers => k.registers
  | .barriers => k.barriers
  | .smem => k.smemBytes
  | .lmem => k.lmemBytes

def withClause (k : KernelUsage) : UsedClause → KernelUsage
  | .figure .registers n => { k with registers := n }
  | .figure .barriers n => { k with barriers := n }
  | .figure .smem n => { k with smemBytes := n }
  | .figure .lmem n => { k with lmemBytes := n }
  | .cmem bank n => { k with cmemBytes := k.cmemBytes ++ [(bank, n)] }

@[simp] theorem properties_withProperties (k : KernelUsage) (p : Properties) :
    (k.withProperties p).properties = p := rfl

@[simp] theorem withProperties_properties (k : KernelUsage) : k.withProperties k.properties = k :=
  rfl

@[simp] theorem withProperties_withProperties (k : KernelUsage) (p q : Properties) :
    (k.withProperties p).withProperties q = k.withProperties q := rfl

theorem ext_figures {k k' : KernelUsage} (hname : k.name = k'.name) (harch : k.arch = k'.arch)
    (hcmem : k.cmemBytes = k'.cmemBytes) (hprops : k.properties = k'.properties)
    (hfigure : ∀ f, k.figure f = k'.figure f) : k = k' := by
  have hregisters : k.registers = k'.registers := hfigure .registers
  have hbarriers : k.barriers = k'.barriers := hfigure .barriers
  have hsmem : k.smemBytes = k'.smemBytes := hfigure .smem
  have hlmem : k.lmemBytes = k'.lmemBytes := hfigure .lmem
  obtain ⟨hstack, hstores, hloads⟩ := Properties.mk.inj hprops
  cases k
  cases k'
  simp_all

theorem withClause_withProperties (k : KernelUsage) (p : Properties) (c : UsedClause) :
    (k.withProperties p).withClause c = (k.withClause c).withProperties p := by
  rcases c with ⟨_ | _ | _ | _, n⟩ | ⟨bank, n⟩ <;> rfl

theorem foldl_withClause_withProperties (k : KernelUsage) (p : Properties)
    (cs : List UsedClause) :
    cs.foldl withClause (k.withProperties p) = (cs.foldl withClause k).withProperties p := by
  induction cs generalizing k with
  | nil => rfl
  | cons c cs ih => rw [List.foldl_cons, List.foldl_cons, withClause_withProperties, ih]

end KernelUsage

/-! ## Clauses -/

theorem leadingU32_natStr (n : UInt32) {c : Char} (s : Str) (hc : c.isDigit = false) :
    leadingU32 (natStr n.toNat ++ c :: s) = some n := by
  have hstart : trimStart (natStr n.toNat ++ c :: s) = natStr n.toNat ++ c :: s :=
    trimStart_eq_self fun d hd ↦
      isWhitespace_of_isDigit (isDigit_of_mem_head?_natStr_append d hd)
  have hdigits : (natStr n.toNat ++ c :: s).takeWhile Char.isDigit = natStr n.toNat := by
    rw [List.takeWhile_append_of_pos fun d hd ↦ isDigit_of_mem_natStr hd,
      List.takeWhile_cons_of_neg (by simp [hc]), List.append_nil]
  rw [leadingU32, hstart, hdigits, if_neg (natStr_ne_nil _), parseU32_natStr]

namespace UsedClause

def count : UsedClause → UInt32
  | figure _ n => n
  | cmem _ n => n

def unit : UsedClause → Str
  | figure .registers _ => " registers"
  | figure .barriers _ => " barriers"
  | figure .smem _ => " bytes smem"
  | figure .lmem _ => " bytes lmem"
  | cmem bank _ => " bytes cmem[" ++ (natStr bank.toNat ++ "]")

/-- The word that is printed in front of the barriers alone. -/
def word : UsedClause → Str
  | figure .barriers _ => "used "
  | _ => []

def text (c : UsedClause) : Str := c.word ++ (natStr c.count.toNat ++ c.unit)

theorem word_eq (c : UsedClause) : c.word = [] ∨ c.word = lit "used " := by
  rcases c with ⟨_ | _ | _ | _, n⟩ | ⟨bank, n⟩
  · exact Or.inl rfl
  · exact Or.inr rfl
  all_goals exact Or.inl rfl

theorem exists_unit_eq_cons (c : UsedClause) : ∃ u, c.unit = ' ' :: u := by
  rcases c with ⟨_ | _ | _ | _, n⟩ | ⟨bank, n⟩ <;> exact ⟨_, rfl⟩

theorem getLast?_unit (c : UsedClause) : ∃ d, c.unit.getLast? = some d ∧ isWhitespace d = false := by
  rcases c with ⟨_ | _ | _ | _, n⟩ | ⟨bank, n⟩
  · exact ⟨'s', rfl, by decide⟩
  · exact ⟨'s', rfl, by decide⟩
  · exact ⟨'m', rfl, by decide⟩
  · exact ⟨'m', rfl, by decide⟩
  · refine ⟨']', ?_, by decide⟩
    rw [unit, ← List.append_assoc]
    exact List.getLast?_append_of_ne_nil _ (by decide)

theorem getLast?_text (c : UsedClause) :
    ∃ d, c.text.getLast? = some d ∧ isWhitespace d = false := by
  obtain ⟨d, hd, hwhite⟩ := c.getLast?_unit
  have hne : c.unit ≠ [] := List.getLast?_isSome.mp (Option.isSome_of_eq_some hd)
  exact ⟨d, by rw [text, ← List.append_assoc, List.getLast?_append_of_ne_nil _ hne, hd], hwhite⟩

theorem trim_text (c : UsedClause) : trim c.text = c.text := by
  obtain ⟨d, hd, hwhite⟩ := c.getLast?_unit
  rcases c.word_eq with hword | hword
  · rw [text, hword, List.nil_append, trim_natStr_append _ hd hwhite]
  · rw [text, hword, ← List.append_assoc]
    apply trim_append_eq_self _ hd hwhite
    intro e he
    obtain rfl := Option.some.inj he
    decide

theorem trimStartMatches_text (c : UsedClause) :
    trimStartMatches "used " c.text = natStr c.count.toNat ++ c.unit := by
  rcases c.word_eq with hword | hword
  · rw [text, hword, List.nil_append, trimStartMatches_of_not_prefix (not_prefix_natStr_append (by decide) _ _)]
  · rw [text, hword, trimStartMatches_append (by decide) (not_prefix_natStr_append (by decide) _ _)]

theorem not_mem_text (c : UsedClause) : ',' ∉ c.text := by
  have hnat : ∀ n : ℕ, ',' ∉ natStr n := fun n ↦ not_mem_natStr (by decide)
  rcases c with ⟨_ | _ | _ | _, n⟩ | ⟨bank, n⟩ <;>
    simp [text, word, unit, lit, hnat]

end UsedClause

namespace KernelUsage

theorem cmemBank_cmem (bank n : UInt32) :
    cmemBank (natStr n.toNat ++ (" bytes cmem[" ++ (natStr bank.toNat ++ "]"))) = some bank := by
  have hb : 'b' ∉ natStr n.toNat ++ " " := by
    rw [List.mem_append, not_or]
    exact ⟨not_mem_natStr (by decide), by decide⟩
  have hsplit := splitOnce_append (p := lit "ytes cmem[") (natStr bank.toNat ++ "]") hb
  have htext : natStr n.toNat ++ (" bytes cmem[" ++ (natStr bank.toNat ++ "]")) =
      natStr n.toNat ++ " " ++ 'b' :: lit "ytes cmem[" ++ (natStr bank.toNat ++ "]") := by
    simp [lit]
  have hsuffix : (natStr bank.toNat ++ "]").dropSuffix? ("]" : Str) = some (natStr bank.toNat) :=
    List.dropSuffix?_eq_some_iff.mpr ⟨lit "]", rfl, by decide⟩
  rw [cmemBank, htext]
  change ((splitOnce ('b' :: lit "ytes cmem[") _).bind _).bind _ = _
  rw [hsplit, Option.bind_some, hsuffix, Option.bind_some, parseU32_natStr]

theorem not_suffix_cmem {a : Str} (n bank : ℕ) (ha : a ≠ []) (hlast : a.getLast? ≠ some ']') :
    ¬ a <:+ natStr n ++ (" bytes cmem[" ++ (natStr bank ++ "]")) := by
  apply not_suffix_of_getLast?_ne ha
  rwa [← List.append_assoc, ← List.append_assoc, List.getLast?_append_of_ne_nil _ (by decide)]

theorem usedClause_text (k : KernelUsage) (c : UsedClause) :
    k.usedClause c.text = k.withClause c := by
  obtain ⟨u, hu⟩ := c.exists_unit_eq_cons
  have hcount : leadingU32 (natStr c.count.toNat ++ c.unit) = some c.count := by
    rw [hu]
    exact leadingU32_natStr _ _ (by decide)
  rw [usedClause, UsedClause.trim_text, UsedClause.trimStartMatches_text, hcount]
  dsimp only
  have hpos : ∀ {a b : Str}, a <:+ b → a <:+ natStr c.count.toNat ++ b :=
    List.suffix_append_of_suffix
  have hneg : ∀ {a b : Str}, a.length ≤ b.length → ¬ a <:+ b →
      ¬ a <:+ natStr c.count.toNat ++ b := fun hlen ↦ mt (suffix_append_iff hlen).mp
  rcases c with ⟨_ | _ | _ | _, n⟩ | ⟨bank, n⟩
  · rw [UsedClause.unit, if_pos (hpos (by decide))]
    rfl
  · rw [UsedClause.unit, if_neg (hneg (by decide) (by decide)), if_pos (hpos (by decide))]
    rfl
  · rw [UsedClause.unit, if_neg (hneg (by decide) (by decide)),
      if_neg (hneg (by decide) (by decide)), if_pos (hpos (by decide))]
    rfl
  · rw [UsedClause.unit, if_neg (hneg (by decide) (by decide)),
      if_neg (hneg (by decide) (by decide)), if_neg (hneg (by decide) (by decide)),
      if_pos (hpos (by decide))]
    rfl
  · rw [UsedClause.unit, if_neg (not_suffix_cmem _ _ (by decide) (by decide)),
      if_neg (not_suffix_cmem _ _ (by decide) (by decide)),
      if_neg (not_suffix_cmem _ _ (by decide) (by decide)),
      if_neg (not_suffix_cmem _ _ (by decide) (by decide)), UsedClause.count, cmemBank_cmem]
    rfl

/-- A counted property, read off the words behind the count. -/
theorem propertiesClause_count (k : KernelUsage) (n : UInt32) {u : Str}
    (hu : u.head? = some ' ') (hlen : 12 ≤ u.length) :
    k.propertiesClause (natStr n.toNat ++ u) =
      if lit "stack frame" <:+ u then { k with stackFrame := n } else
      if lit "spill stores" <:+ u then { k with spillStores := n } else
      if lit "spill loads" <:+ u then { k with spillLoads := n } else k := by
  obtain ⟨s, rfl⟩ := List.head?_eq_some_iff.mp hu
  have hsuffix : ∀ {a : Str}, a.length ≤ 12 →
      (a <:+ natStr n.toNat ++ ' ' :: s ↔ a <:+ ' ' :: s) :=
    fun ha ↦ suffix_append_iff (ha.trans hlen)
  rw [propertiesClause, leadingU32_natStr _ _ (by decide)]
  simp only [hsuffix (a := lit "stack frame") (by decide),
    hsuffix (a := lit "spill stores") (by decide), hsuffix (a := lit "spill loads") (by decide)]

end KernelUsage

/-! ## Lines -/

namespace Properties

def clauses (p : Properties) : List Str :=
  [natStr p.stackFrame.toNat ++ " bytes stack frame",
    natStr p.spillStores.toNat ++ " bytes spill stores",
    natStr p.spillLoads.toNat ++ " bytes spill loads"]

def line (p : Properties) : Str := "    " ++ join ", " p.clauses

theorem foldl_clauses (p : Properties) (k : KernelUsage) :
    p.clauses.foldl KernelUsage.propertiesClause k = k.withProperties p := by
  rw [clauses, List.foldl_cons, KernelUsage.propertiesClause_count k p.stackFrame rfl (by decide),
    if_pos (by decide), List.foldl_cons,
    KernelUsage.propertiesClause_count _ p.spillStores rfl (by decide), if_neg (by decide),
    if_pos (by decide), List.foldl_cons,
    KernelUsage.propertiesClause_count _ p.spillLoads rfl (by decide), if_neg (by decide),
    if_neg (by decide), if_pos (by decide)]
  rfl

theorem clauses_ne_nil (p : Properties) : p.clauses ≠ [] := List.cons_ne_nil _ _

theorem not_mem_of_mem_clauses (p : Properties) : ∀ c ∈ p.clauses, ',' ∉ c := by
  have hnat : ∀ n : ℕ, ',' ∉ natStr n := fun n ↦ not_mem_natStr (by decide)
  simp [clauses, lit, hnat]

theorem exists_join_clauses (p : Properties) :
    ∃ s, join ", " p.clauses = natStr p.stackFrame.toNat ++ s ∧ s.getLast? = some 's' := by
  refine ⟨" bytes stack frame, " ++ (natStr p.spillStores.toNat ++ (" bytes spill stores, " ++
    (natStr p.spillLoads.toNat ++ " bytes spill loads"))), by simp [clauses, join, lit], ?_⟩
  rw [← List.append_assoc, ← List.append_assoc, ← List.append_assoc]
  exact List.getLast?_append_of_ne_nil _ (by decide)

theorem trimStart_line (p : Properties) : trimStart p.line = join ", " p.clauses := by
  obtain ⟨s, hs, -⟩ := p.exists_join_clauses
  rw [line, trimStart_append rfl, hs]
  exact trimStart_eq_self fun c hc ↦
    isWhitespace_of_isDigit (isDigit_of_mem_head?_natStr_append c hc)

theorem trim_line (p : Properties) : trim p.line = join ", " p.clauses := by
  obtain ⟨s, hs, hlast⟩ := p.exists_join_clauses
  rw [line, trim_append rfl, hs, trim_natStr_append _ hlast (by decide)]

theorem infoText_line (p : Properties) : infoText p.line = none := by
  obtain ⟨s, hs, -⟩ := p.exists_join_clauses
  have hprefix : ¬ lit "ptxas info" <+: join ", " p.clauses := by
    rw [hs]
    exact not_prefix_natStr_append (by decide) _ _
  rw [infoText, trimStart_line, dropPrefix?_eq_none.mpr hprefix, Option.map_none]

end Properties

def infoLine (body : Str) : Str := "ptxas info    : " ++ body

def entryBody (name arch : Str) : Str :=
  "Compiling entry function '" ++ (name ++ ("' for '" ++ (arch ++ "'")))

def headerBody (function : Str) : Str := "Function properties for " ++ function

def usedBody (cs : List UsedClause) : Str := "Used " ++ join ", " (cs.map UsedClause.text)

theorem trim_entryBody (name arch : Str) : trim (entryBody name arch) = entryBody name arch := by
  rw [entryBody, ← List.append_assoc, ← List.append_assoc, ← List.append_assoc]
  apply trim_append_eq_self (c := '\'') _ rfl (by decide)
  intro d hd
  obtain rfl := Option.some.inj hd
  decide

theorem trim_usedBody {cs : List UsedClause} (hne : cs.map UsedClause.text ≠ []) :
    trim (usedBody cs) = usedBody cs := by
  have hends : ∀ t ∈ cs.map UsedClause.text, ∃ d, t.getLast? = some d ∧ isWhitespace d = false := by
    intro t ht
    obtain ⟨c, -, rfl⟩ := List.mem_map.mp ht
    exact c.getLast?_text
  obtain ⟨d, hd, hwhite⟩ := getLast?_join (s := ", ") hne hends
  apply trim_append_eq_self _ hd hwhite
  intro e he
  obtain rfl := Option.some.inj he
  decide

theorem infoText_infoLine {body : Str}
    (h : body.head?.any fun c ↦ !(c = ' ' || c = ':')) : infoText (infoLine body) = some (trim body) := by
  obtain ⟨c, hc, hbare⟩ := (Option.any_eq_true _ _).mp h
  obtain ⟨s, rfl⟩ := List.head?_eq_some_iff.mp hc
  have hdrop : (infoLine (c :: s)).dropPrefix? ("ptxas info" : Str) = some ("    : " ++ c :: s) :=
    dropPrefix?_eq_some.mpr rfl
  have hstart : trimStart (infoLine (c :: s)) = infoLine (c :: s) :=
    trimStart_eq_self fun d hd ↦ by
      obtain rfl := Option.some.inj hd
      decide
  have hbody : ((lit "    : " ++ c :: s).dropWhile fun c ↦ c = ' ' || c = ':') = c :: s := by
    rw [List.dropWhile_append_of_pos (List.all_eq_true.mp rfl),
      List.dropWhile_cons_of_neg (by simpa using hbare)]
  rw [infoText, hstart, hdrop, Option.map_some, hbody]

theorem modifyLast_id {α : Type*} (l : List α) : l.modifyLast (fun a ↦ a) = l := by
  rcases l.eq_nil_or_concat with rfl | ⟨l, a, rfl⟩
  · rfl
  · rw [List.concat_eq_append, List.modifyLast_concat]

theorem modifyLast_modifyLast {α : Type*} (f g : α → α) (l : List α) :
    (l.modifyLast f).modifyLast g = l.modifyLast fun a ↦ g (f a) := by
  rcases l.eq_nil_or_concat with rfl | ⟨l, a, rfl⟩
  · rfl
  · rw [List.concat_eq_append, List.modifyLast_concat, List.modifyLast_concat,
      List.modifyLast_concat]

namespace PtxasParser

variable (p : PtxasParser)

theorem step_entry {name arch : Str} (hname : '\'' ∉ name) (harch : '\'' ∉ arch) :
    p.step (infoLine (entryBody name arch)) = ⟨p.out ++ [.opened name arch], false⟩ := by
  have hdrop : (entryBody name arch).dropPrefix? ("Compiling entry function '" : Str) =
      some (name ++ ("' for '" ++ (arch ++ "'"))) := dropPrefix?_eq_some.mpr rfl
  have hsplit : splitOnce "'" (name ++ ("' for '" ++ (arch ++ "'"))) =
      some (name, " for '" ++ (arch ++ "'")) := by
    have h := splitOnce_append (p := []) (" for '" ++ (arch ++ "'")) hname
    rw [List.append_assoc] at h
    exact h
  have harchPiece : ((lit " for '" ++ (arch ++ "'")).splitOn '\'')[1]? = some arch := by
    have hfor : lit " for '" ++ (arch ++ "'") = lit " for " ++ '\'' :: (arch ++ '\'' :: []) := rfl
    rw [hfor, List.splitOn_append_cons_self_of_not_mem (by decide),
      List.splitOn_append_cons_self_of_not_mem harch]
    rfl
  rw [step, infoText_infoLine rfl, trim_entryBody]
  dsimp only
  rw [info, hdrop]
  dsimp only
  rw [hsplit]
  dsimp only
  rw [harchPiece, Option.getD_some]

/-- A function name that the header line keeps when its end is trimmed. -/
def named (function : Str) : Bool := !function.all isWhitespace

theorem trim_headerBody (function : Str) : trim (headerBody function) =
    if named function then headerBody (function.rdropWhile isWhitespace)
    else "Function properties for" := by
  have hstart : trimStart (headerBody function) = headerBody function :=
    trimStart_eq_self fun c hc ↦ by
      obtain rfl := Option.some.inj hc
      decide
  rw [trim, hstart, headerBody, List.rdropWhile, List.reverse_append, List.dropWhile_append]
  by_cases hall : function.all isWhitespace
  · have hempty : (function.reverse.dropWhile isWhitespace).isEmpty := by
      simpa using hall
    rw [if_pos hempty, named, hall]
    rfl
  · have hempty : ¬ (function.reverse.dropWhile isWhitespace).isEmpty := by
      simpa using hall
    rw [if_neg hempty, List.reverse_append, List.reverse_reverse, if_pos (by simpa [named] using hall)]
    rfl

theorem step_header (function : Str) :
    p.step (infoLine (headerBody function)) = ⟨p.out, named function⟩ := by
  rw [step, infoText_infoLine rfl, trim_headerBody]
  dsimp only
  by_cases hnamed : named function
  · rw [if_pos hnamed, hnamed, info]
    have hdrop : (headerBody (function.rdropWhile isWhitespace)).dropPrefix?
        ("Compiling entry function '" : Str) = none := rfl
    rw [hdrop]
    dsimp only
    rw [if_pos (by exact List.prefix_append _ _)]
  · have hfalse : named function = false := by simpa using hnamed
    rw [if_neg hnamed, hfalse]
    rfl

theorem step_line (out : List KernelUsage) (b : Bool) (q : Properties) :
    (PtxasParser.mk out b).step q.line =
      ⟨if b then out.modifyLast fun k ↦ k.withProperties q else out, false⟩ := by
  rw [step, q.infoText_line]
  dsimp only
  cases b with
  | false => rfl
  | true =>
      have hfold : ∀ k : KernelUsage, (splitCommaSpace (trim q.line)).foldl
          KernelUsage.propertiesClause k = k.withProperties q := by
        intro k
        rw [q.trim_line, splitCommaSpace_join q.clauses_ne_nil q.not_mem_of_mem_clauses,
          q.foldl_clauses]
      simp only [hfold, if_true]

theorem step_used (cs : List UsedClause) :
    p.step (infoLine (usedBody cs)) =
      ⟨p.out.modifyLast fun k ↦ cs.foldl KernelUsage.withClause k, false⟩ := by
  rw [step, infoText_infoLine rfl]
  dsimp only
  rcases cs.eq_nil_or_concat with rfl | hne
  · change _ = PtxasParser.mk (p.out.modifyLast fun k ↦ k) false
    rw [modifyLast_id]
    rfl
  · have hne : cs.map UsedClause.text ≠ [] := by
      obtain ⟨l, c, rfl⟩ := hne
      simp
    have hclauses : ∀ t ∈ cs.map UsedClause.text, ',' ∉ t := by
      intro t ht
      obtain ⟨c, -, rfl⟩ := List.mem_map.mp ht
      exact c.not_mem_text
    have hentry : (usedBody cs).dropPrefix? ("Compiling entry function '" : Str) = none := rfl
    have hheader : ¬ lit "Function properties for " <+: usedBody cs :=
      dropPrefix?_eq_none.mp rfl
    have hused : (usedBody cs).dropPrefix? ("Used " : Str) =
        some (join ", " (cs.map UsedClause.text)) := dropPrefix?_eq_some.mpr rfl
    rw [trim_usedBody hne, info, hentry]
    dsimp only
    rw [if_neg hheader, hused]
    dsimp only
    rw [splitCommaSpace_join hne hclauses]
    simp only [List.foldl_map, KernelUsage.usedClause_text]

end PtxasParser

end CalxMill.Nvidia
