import CalxMill.Nvidia.CensusFile

/-!
# The census of a disassembly

A disassembly as it is printed: functions of instruction lines, with other
lines between them.  The scanner refuses an instruction that waits for a
uniform predicate, and the census reports how many there were.  It refuses one
under the constant predicate as well, and nothing reports that one.  Every
other instruction is counted under its mnemonic.
-/

namespace CalxMill.Nvidia

open Lib Rust

/-! ## The size of a census -/

theorem total_addAll (c : Census) (ops : List Str) :
    (addAll c ops).total = c.total + ops.length := by
  induction ops generalizing c with
  | nil => rfl
  | cons op ops ih =>
      rw [addAll, List.foldl_cons, ← addAll, ih, total_add, List.length_cons]
      omega

theorem sum_total_alter (name : Str) (ops : List Str) (counts : List (Str × Census)) :
    ((Assoc.alter (fun c ↦ addAll (c.getD .empty) ops) name counts).map (·.2.total)).sum =
      (counts.map (·.2.total)).sum + ops.length := by
  induction counts with
  | nil =>
      rw [Assoc.alter, List.map_singleton, List.sum_singleton, Option.getD_none, total_addAll]
      rfl
  | cons k counts ih =>
      rw [Assoc.alter]
      split
      · rw [List.map_cons, List.sum_cons, Option.getD_some, total_addAll, List.map_cons,
          List.sum_cons]
        omega
      · rw [List.map_cons, List.sum_cons, ih, List.map_cons, List.sum_cons]
        omega

/-- The census holds every line that was scanned in the functions it selects. -/
theorem sum_total_counts (kernel : Pattern) (full : Bool) (secs : List (Str × List Scan)) :
    ((censusState kernel full secs).counts.map (·.2.total)).sum =
      ((secs.filter fun s ↦ kernel.isMatch s.1).map (·.2.length)).sum := by
  induction secs using List.reverseRecOn with
  | nil => rfl
  | append_singleton secs s ih =>
      rw [counts_append, List.filter_append, List.map_append, List.sum_append, ← ih]
      split
      · next hmatch =>
          rw [sum_total_alter, List.length_map, List.filter_singleton, hmatch]
          rfl
      · next hmatch =>
          rw [List.filter_singleton, Bool.eq_false_of_not_eq_true hmatch]
          rfl

/-! ## Instruction lines -/

/-- No address comment opens in the text. -/
def NoAddress (s : Str) : Prop := ∀ t, Opens t s → comment t = none

/-- What an instruction waits for: a numbered predicate or nothing, a predicate
of the uniform datapath, or the constant predicate. -/
inductive Guard where
  | scalar (predicate : Str) (h : IsPredicate predicate)
  | uniform (negated : Bool) (rest : Str) (h : '/' ∉ rest)
  | constant (negated : Bool) (rest : Str) (h : '/' ∉ rest)

namespace Guard

def text : Guard → Str
  | scalar predicate _ => predicate
  | uniform negated rest _ => '@' :: (lit (if negated then "!U" else "U") ++ 'P' :: rest)
  | constant negated rest _ => '@' :: (lit (if negated then "!PT" else "PT") ++ rest)

/-- The census counts the instruction. -/
def isScalar : Guard → Bool
  | scalar .. => true
  | uniform .. => false
  | constant .. => false

/-- The instruction is reported as dropped. -/
def isUniform : Guard → Bool
  | scalar .. => false
  | uniform .. => true
  | constant .. => false

/-- The instruction is neither counted nor reported. -/
def isConstant : Guard → Bool
  | scalar .. => false
  | uniform .. => false
  | constant .. => true

end Guard

/-- An instruction, with its address in a comment in front of it. -/
structure ListedInstr where
  indent : Str
  hex : Str
  gap : Str
  guard : Guard
  mnemonic : Str
  operands : Str
  isIndent : ∀ c ∈ indent, isBlank c = true
  isHex : Run isHexDigit hex
  fits : hex.length ≤ 16
  isGap : Run isBlank gap
  isMnemonic : IsMnemonic mnemonic
  stops : Stops isMnemonicChar operands
  noAddress : NoAddress operands

namespace ListedInstr

/-- The text behind the address. -/
def body (x : ListedInstr) : Str := x.gap ++ (x.guard.text ++ (x.mnemonic ++ x.operands))

def line (x : ListedInstr) : Str := x.indent ++ (lit "/*" ++ (x.hex ++ (lit "*/" ++ x.body)))

/-- What the scanner is to find in the line. -/
def scan? (x : ListedInstr) : Option Scan :=
  match x.guard with
  | .scalar predicate _ =>
      some ⟨hexValue x.hex, predicate ++ (x.mnemonic ++ x.operands), predicate ++ x.mnemonic⟩
  | .uniform .. => none
  | .constant .. => none

/-- The op that the census counts. -/
def op (full : Bool) (x : ListedInstr) : Str := if full then x.mnemonic else baseOf x.mnemonic

end ListedInstr

/-! ## Address comments -/

theorem opens_append {a s t : Str} (h : '/' ∉ a) : Opens t (a ++ s) ↔ Opens t s := by
  induction a with
  | nil => rfl
  | cons c a ih =>
      obtain ⟨hc, ha⟩ := not_or.mp (mt List.mem_cons.mpr h)
      rw [← ih ha, List.cons_append]
      apply opens_cons
      intro u hu
      exact hc (List.cons.inj hu).1.symm

theorem noAddress_append {a s : Str} (h : '/' ∉ a) : NoAddress (a ++ s) ↔ NoAddress s :=
  forall_congr' fun _ ↦ imp_congr_left (opens_append h)

theorem scan_append {a s : Str} (h : '/' ∉ a) : scan (a ++ s) = scan s := by
  induction a with
  | nil => rfl
  | cons c a ih =>
      obtain ⟨hc, ha⟩ := not_or.mp (mt List.mem_cons.mpr h)
      rw [← ih ha, List.cons_append]
      exact scan.eq_2 _ _ fun u hu _ ↦ hc hu.symm

theorem NoAddress.scan_eq_none {s : Str} (h : NoAddress s) : scan s = none := by
  rw [scan_eq_none_iff]
  intro before t hs
  cases hhere : scanHere t with
  | none => rfl
  | some x =>
      obtain ⟨hex, gap, predicate, mnemonic, after, hhex, -, -, -, -, rfl, -⟩ :=
        scanHere_eq_some_iff.mp hhere
      have hcomment := comment_eq_some_iff.mpr
        ⟨hhex, Eq.refl (hex ++ (lit "*/" ++ (gap ++ (predicate ++ (mnemonic ++ after)))))⟩
      have hnone := (h _ ⟨before, hs.symm⟩).symm.trans hcomment
      cases hnone

theorem NoAddress.not_overlongAddress {s : Str} (h : NoAddress s) : ¬ OverlongAddress s := by
  rintro ⟨t, hex, body, hopens, hcomment, -⟩
  rw [h t hopens] at hcomment
  cases hcomment

theorem noAddress_of_not_mem {s : Str} (h : '*' ∉ s) : NoAddress s := by
  rintro t ⟨before, rfl⟩
  exact absurd (List.mem_append_right before (List.mem_cons_of_mem '/' List.mem_cons_self)) h

theorem not_isBlank_slash {a : Str} (h : ∀ c ∈ a, isBlank c = true) : '/' ∉ a :=
  fun hc ↦ absurd (h _ hc) (by decide)

theorem IsPredicate.slash_not_mem {predicate : Str} (h : IsPredicate predicate) :
    '/' ∉ predicate := by
  cases h with
  | absent => exact List.not_mem_nil
  | @present negation digits gap hneg hdigits hgap =>
      have hdigit : '/' ∉ digits := fun hc ↦ absurd (hdigits.all _ hc) (by decide)
      have hblank : '/' ∉ gap := not_isBlank_slash hgap.all
      rcases hneg with rfl | rfl
      · simp [hdigit, hblank]
      · simp [hdigit, hblank]

theorem IsMnemonic.slash_not_mem {mnemonic : Str} (h : IsMnemonic mnemonic) : '/' ∉ mnemonic :=
  fun hc ↦ absurd (h.all _ hc) (by decide)

theorem Guard.slash_not_mem : ∀ g : Guard, '/' ∉ g.text
  | .scalar _ h => h.slash_not_mem
  | .uniform false _ h => by simp [Guard.text, h, (by decide : '/' ∉ lit "U")]
  | .uniform true _ h => by simp [Guard.text, h, (by decide : '/' ∉ lit "!U")]
  | .constant false _ h => by simp [Guard.text, h, (by decide : '/' ∉ lit "PT")]
  | .constant true _ h => by simp [Guard.text, h, (by decide : '/' ∉ lit "!PT")]

/-- A guard that is a word begins with its own sign. -/
theorem Guard.head?_text {g : Guard} (h : g.isScalar = false) (t : Str) :
    (g.text ++ t).head? = some '@' := by
  cases g with
  | scalar predicate hp => cases h
  | uniform negated rest h => rfl
  | constant negated rest h => rfl

/-- The scanner does not read past a uniform predicate or the constant one. -/
theorem Guard.skipPredicate_eq_none {g : Guard} (h : g.isScalar = false) (t : Str) :
    skipPredicate (g.text ++ t) = none := by
  cases g with
  | scalar predicate hp => cases h
  | uniform negated rest h => cases negated <;> rfl
  | constant negated rest h => cases negated <;> rfl

namespace ListedInstr

variable (x : ListedInstr)

theorem noAddress_body : NoAddress x.body := by
  rw [body, noAddress_append (not_isBlank_slash x.isGap.all),
    noAddress_append x.guard.slash_not_mem, noAddress_append x.isMnemonic.slash_not_mem]
  exact x.noAddress

/-- Behind the opening of the address comment no other one opens. -/
theorem noAddress_rest : NoAddress (x.hex ++ (lit "*/" ++ x.body)) := by
  have hhex : '/' ∉ x.hex := fun hc ↦ absurd (x.isHex.all _ hc) (by decide)
  have hslash : ∀ t, '/' :: x.body ≠ '/' :: '*' :: t := by
    intro t ht
    have hbody := (List.cons.inj ht).2
    rw [body] at hbody
    cases hgap : x.gap with
    | nil => exact x.isGap.ne_nil hgap
    | cons c gap =>
        rw [hgap] at hbody
        have hblank := x.isGap.all c (hgap ▸ List.mem_cons_self)
        rw [(List.cons.inj hbody).1] at hblank
        exact absurd hblank (by decide)
  have hclose : NoAddress (['*'] ++ '/' :: x.body) := by
    rw [noAddress_append (by decide)]
    exact fun t ht ↦ x.noAddress_body t ((opens_cons hslash).mp ht)
  exact (noAddress_append hhex).mpr hclose

theorem comment_rest : comment (x.hex ++ (lit "*/" ++ x.body)) = some (x.hex, x.body) :=
  comment_eq_some_iff.mpr ⟨x.isHex, rfl⟩

theorem not_overlongAddress : ¬ OverlongAddress x.line := by
  rintro ⟨t, hex, body, hopens, hcomment, hlong, -⟩
  rw [line, opens_append (not_isBlank_slash x.isIndent)] at hopens
  rcases opens_comment.mp hopens with rfl | hopens
  · obtain ⟨rfl, -⟩ := Prod.mk.inj (Option.some.inj (x.comment_rest.symm.trans hcomment))
    exact absurd (hexValue_lt_word x.isHex.all x.fits) (Nat.not_lt_of_le hlong)
  · rw [x.noAddress_rest t hopens] at hcomment
    cases hcomment

theorem scanOp_eq_none (hguard : x.guard.isScalar = false) : scanOp x.body = none := by
  have hstop : Stops isBlank (x.guard.text ++ (x.mnemonic ++ x.operands)) := by
    intro c hc
    rw [Guard.head?_text hguard] at hc
    obtain rfl := Option.some.inj hc
    rfl
  rw [scanOp, body, skipSome_eq_some_iff.mpr ⟨x.gap, x.isGap, hstop, rfl⟩]
  simp only [Option.bind_eq_bind, Option.bind_some, Guard.skipPredicate_eq_none hguard,
    Option.bind_none]

theorem scanHere_eq_none (hguard : x.guard.isScalar = false) :
    scanHere (lit "/*" ++ (x.hex ++ (lit "*/" ++ x.body))) = none := by
  have hop := x.scanOp_eq_none hguard
  have hcomment := x.comment_rest
  change scanHere ('/' :: '*' :: (x.hex ++ (lit "*/" ++ x.body))) = none
  simp only [scanHere, hcomment, bind, Option.bind, hop]

theorem scan_line : scan x.line = x.scan? := by
  have hopen : scan x.line = (scanHere (lit "/*" ++ (x.hex ++ (lit "*/" ++ x.body)))).or
      (scan (['*'] ++ (x.hex ++ (lit "*/" ++ x.body)))) := by
    rw [line, scan_append (not_isBlank_slash x.isIndent)]
    exact scan_cons '/' _
  rw [hopen, scan_append (by decide), x.noAddress_rest.scan_eq_none, Option.or_none, scan?]
  cases hguard : x.guard with
  | scalar predicate hp =>
      apply scanHere_eq_some_iff.mpr
      refine ⟨x.hex, x.gap, predicate, x.mnemonic, x.operands, x.isHex, x.isGap, hp, x.isMnemonic,
        x.stops, ?_, rfl⟩
      rw [body, hguard]
      rfl
  | uniform negated rest h => exact x.scanHere_eq_none (by rw [hguard]; rfl)
  | constant negated rest h => exact x.scanHere_eq_none (by rw [hguard]; rfl)

theorem functionName_line : functionName x.line = none := by
  have hblank : x.indent.all isWhitespace :=
    List.all_eq_true.mpr fun c hc ↦ isWhitespace_of_isBlank (x.isIndent c hc)
  have htrim : trimStart x.line = lit "/*" ++ (x.hex ++ (lit "*/" ++ x.body)) := by
    rw [line, trimStart_append hblank]
    apply trimStart_eq_self
    rintro c ⟨⟩
    rfl
  rw [functionName, htrim]
  rfl

end ListedInstr

/-! ## Reported lines -/

/-- Whether a line is reported as dropped, whatever the size of its address. -/
def dropped (line : Str) : Bool :=
  (scan line).isNone && (splitOnce "*/" line).any fun p ↦
    lit "@UP" <+: trimStart p.2 || lit "@!UP" <+: trimStart p.2

theorem uniformDrop_eq_ok {line : Str} (h : ¬ OverlongAddress line) :
    uniformDrop line = .ok (dropped line) := by
  rw [uniformDrop, (scanInstr_spec line).2 h, dropped]
  cases scan line with
  | none => rfl
  | some x => rfl

section

variable {c : Char} {a s pat : Str} {q : Str → Bool}

theorem any_splitOnce_cons (h : (c :: s).dropPrefix? pat = none) :
    ((splitOnce pat (c :: s)).any fun p ↦ q p.2) = (splitOnce pat s).any fun p ↦ q p.2 := by
  rw [splitOnce, h]
  cases splitOnce pat s with
  | none => rfl
  | some p => rfl

theorem any_splitOnce_append (h : '*' ∉ a) :
    ((splitOnce "*/" (a ++ s)).any fun p ↦ q p.2) = (splitOnce "*/" s).any fun p ↦ q p.2 := by
  induction a with
  | nil => rfl
  | cons c a ih =>
      obtain ⟨hc, ha⟩ := not_or.mp (mt List.mem_cons.mpr h)
      rw [← ih ha, List.cons_append]
      apply any_splitOnce_cons
      cases hdrop : (c :: (a ++ s)).dropPrefix? (lit "*/") with
      | none => rfl
      | some t => exact absurd (List.cons.inj (dropPrefix?_eq_some.mp hdrop)).1.symm hc

theorem suffix_of_splitOnce {p : Str × Str} (h : splitOnce pat s = some p) : p.2 <:+ s := by
  induction s generalizing p with
  | nil =>
      rw [splitOnce] at h
      split at h
      · obtain rfl := Option.some.inj h
        exact List.suffix_rfl
      · cases h
  | cons c s ih =>
      rw [splitOnce] at h
      split at h
      · next rest hdrop =>
          obtain rfl := Option.some.inj h
          exact ⟨pat, (dropPrefix?_eq_some.mp hdrop).symm⟩
      · obtain ⟨p', hp', rfl⟩ := Option.map_eq_some_iff.mp h
        exact (ih hp').trans (List.suffix_cons c s)

end

theorem dropped_of_not_mem {line : Str} (h : '*' ∉ line) : dropped line = false := by
  have hnone := any_splitOnce_append (s := []) (q := fun t ↦
    lit "@UP" <+: trimStart t || lit "@!UP" <+: trimStart t) h
  rw [List.append_nil] at hnone
  rw [dropped, (noAddress_of_not_mem h).scan_eq_none]
  exact hnone

/-- Behind the blanks a refused guard is reported when it is a uniform one. -/
theorem prefix_trimStart_guard {g : Guard} {gap t : Str} (hguard : g.isScalar = false)
    (hgap : Run isBlank gap) :
    (lit "@UP" <+: trimStart (gap ++ (g.text ++ t)) ||
      lit "@!UP" <+: trimStart (gap ++ (g.text ++ t))) = g.isUniform := by
  have hblank : gap.all isWhitespace :=
    List.all_eq_true.mpr fun c hc ↦ isWhitespace_of_isBlank (hgap.all c hc)
  have htrim : trimStart (gap ++ (g.text ++ t)) = g.text ++ t := by
    rw [trimStart_append hblank]
    apply trimStart_eq_self
    intro c hc
    rw [Guard.head?_text hguard] at hc
    obtain rfl := Option.some.inj hc
    rfl
  rw [htrim]
  cases g with
  | scalar predicate hp => cases hguard
  | uniform negated rest h =>
      rw [Guard.isUniform, Bool.or_eq_true, decide_eq_true_eq, decide_eq_true_eq]
      cases negated with
      | false => exact .inl ⟨rest ++ t, rfl⟩
      | true => exact .inr ⟨rest ++ t, rfl⟩
  | constant negated rest h =>
      rw [Guard.isUniform, Bool.or_eq_false_iff, decide_eq_false_iff_not, decide_eq_false_iff_not]
      cases negated with
      | false => simp [Guard.text, lit]
      | true => simp [Guard.text, lit]

namespace ListedInstr

variable (x : ListedInstr)

/-- The first comment that closes in the line is the one of the address. -/
theorem any_splitOnce_line (q : Str → Bool) :
    ((splitOnce "*/" x.line).any fun p ↦ q p.2) = q x.body := by
  have hindent : '*' ∉ x.indent ++ ['/'] := by
    have hblank : '*' ∉ x.indent := fun hc ↦ absurd (x.isIndent _ hc) (by decide)
    simp [hblank]
  have hhex : '*' ∉ x.hex := fun hc ↦ absurd (x.isHex.all _ hc) (by decide)
  have hopen : ('*' :: (x.hex ++ (lit "*/" ++ x.body))).dropPrefix? (lit "*/") = none := by
    cases hdrop : ('*' :: (x.hex ++ (lit "*/" ++ x.body))).dropPrefix? (lit "*/") with
    | none => rfl
    | some t =>
        have htext := (List.cons.inj (dropPrefix?_eq_some.mp hdrop)).2
        cases hrun : x.hex with
        | nil => exact absurd hrun x.isHex.ne_nil
        | cons c hex =>
            rw [hrun] at htext
            have hdigit := x.isHex.all c (hrun ▸ List.mem_cons_self)
            rw [(List.cons.inj htext).1] at hdigit
            exact absurd hdigit (by decide)
  have hclose : splitOnce "*/" (lit "*/" ++ x.body) = some ([], x.body) :=
    splitOnce_append x.body List.not_mem_nil
  have hline : x.line = (x.indent ++ ['/']) ++ '*' :: (x.hex ++ (lit "*/" ++ x.body)) := by
    rw [List.append_assoc]
    rfl
  rw [hline, any_splitOnce_append hindent, any_splitOnce_cons hopen, any_splitOnce_append hhex,
    hclose]
  rfl

theorem dropped_line : dropped x.line = x.guard.isUniform := by
  rw [dropped, x.scan_line, scan?, x.any_splitOnce_line fun t ↦
    lit "@UP" <+: trimStart t || lit "@!UP" <+: trimStart t, body]
  cases x.guard with
  | scalar predicate hp => rfl
  | uniform negated rest h => exact prefix_trimStart_guard rfl x.isGap
  | constant negated rest h => exact prefix_trimStart_guard rfl x.isGap

end ListedInstr

/-! ## Disassemblies -/

/-- A line that is neither a header nor an instruction. -/
structure Silent (line : Str) : Prop where
  noHeader : functionName line = none
  noAddress : NoAddress line
  noGuard : '*' ∉ line ∨ '@' ∉ line

theorem Silent.dropped_eq_false {line : Str} (h : Silent line) : dropped line = false := by
  rcases h.noGuard with hstar | hat
  · exact dropped_of_not_mem hstar
  · rw [dropped, h.noAddress.scan_eq_none, Option.isNone_none, Bool.true_and, Option.any_eq_false]
    intro p hp
    have hsuffix := (List.dropWhile_suffix isWhitespace).trans (suffix_of_splitOnce hp)
    -- No guard begins the text behind the comment: the line has no '@' at all.
    have hnot : ∀ u : Str, '@' ∈ u → ¬ u <+: trimStart p.2 := by
      intro u hu hbefore
      apply hat
      exact hsuffix.subset (hbefore.subset hu)
    simp [hnot (lit "@UP") (by decide), hnot (lit "@!UP") (by decide)]

inductive ListedLine where
  | instr (x : ListedInstr)
  | other (line : Str) (h : Silent line)

namespace ListedLine

def text : ListedLine → Str
  | instr x => x.line
  | other line _ => line

def instr? : ListedLine → Option ListedInstr
  | instr x => some x
  | other .. => none

end ListedLine

structure ListedFunction where
  header : Str
  name : Str
  lines : List ListedLine
  isHeader : functionName header = some name
  noComment : '*' ∉ header

namespace ListedFunction

def text (f : ListedFunction) : List Str := f.header :: f.lines.map ListedLine.text

def instrs (f : ListedFunction) : List ListedInstr := f.lines.filterMap ListedLine.instr?

end ListedFunction

/-- The lines in front of the functions, and the functions. -/
structure Disassembly where
  preamble : List Str
  functions : List ListedFunction
  silent : ∀ line ∈ preamble, Silent line
  whole : ∀ line ∈ preamble ++ functions.flatMap ListedFunction.text,
    '\n' ∉ line ∧ line.getLast? ≠ some '\r'

namespace Disassembly

variable (d : Disassembly)

def lines : List Str := d.preamble ++ d.functions.flatMap ListedFunction.text

def text : Str := d.lines.flatMap (· ++ ['\n'])

def instrs : List ListedInstr := d.functions.flatMap ListedFunction.instrs

theorem lines_text : Rust.lines d.text = d.lines := by
  have hlines := lines_flatMap_append (fun line hline ↦ (d.whole line hline).1) []
  have hstrip : d.lines.map stripCr = d.lines := by
    refine (List.map_congr_left fun line hline ↦ ?_).trans (List.map_id _)
    exact if_neg (d.whole line hline).2
  have hnil : Rust.lines [] = [] := rfl
  rw [List.append_nil, hnil, List.append_nil] at hlines
  exact hlines.trans hstrip

end Disassembly

theorem ListedLine.functionName_text : ∀ l : ListedLine, functionName l.text = none
  | .instr x => x.functionName_line
  | .other _ h => h.noHeader

theorem ListedLine.not_overlongAddress : ∀ l : ListedLine, ¬ OverlongAddress l.text
  | .instr x => x.not_overlongAddress
  | .other _ h => h.noAddress.not_overlongAddress

theorem ListedLine.scan_text : ∀ l : ListedLine, scan l.text = l.instr?.bind ListedInstr.scan?
  | .instr x => x.scan_line
  | .other _ h => h.noAddress.scan_eq_none

theorem ListedLine.dropped_text :
    ∀ l : ListedLine, dropped l.text = l.instr?.any fun x ↦ x.guard.isUniform
  | .instr x => x.dropped_line
  | .other _ h => h.dropped_eq_false

/-! ## The sections of a disassembly -/

namespace ListedFunction

variable (f : ListedFunction)

/-- The instructions that the scanner finds. -/
def scans : List Scan := f.instrs.filterMap ListedInstr.scan?

theorem foldl_feedScan_lines (secs : List (Str × List Scan)) (name : Str) (ls : List ListedLine) :
    ∀ xs, (ls.map ListedLine.text).foldl feedScan (secs ++ [(name, xs)]) =
      secs ++ [(name, xs ++ (ls.filterMap ListedLine.instr?).filterMap ListedInstr.scan?)] := by
  induction ls with
  | nil => simp
  | cons l ls ih =>
      intro xs
      have hfeed : feedScan (secs ++ [(name, xs)]) l.text =
          secs ++ [(name, xs ++ (l.instr?.bind ListedInstr.scan?).toList)] := by
        rw [feedScan, l.functionName_text, l.scan_text]
        cases l.instr?.bind ListedInstr.scan? with
        | none => simp
        | some x => simp [pushScan_append]
      rw [List.map_cons, List.foldl_cons, hfeed, ih, List.append_assoc]
      cases hinstr : l.instr? with
      | none => simp [hinstr]
      | some x =>
          cases hscan : x.scan? with
          | none => simp [hinstr, hscan]
          | some y => simp [hinstr, hscan]

theorem foldl_feedScan_text (secs : List (Str × List Scan)) :
    f.text.foldl feedScan secs = secs ++ [(f.name, f.scans)] := by
  have hheader : feedScan secs f.header = secs ++ [(f.name, [])] := by
    rw [feedScan, f.isHeader]
  rw [text, List.foldl_cons, hheader, foldl_feedScan_lines]
  rfl

end ListedFunction

/-- Lines in front of the first header open no section. -/
theorem sections_eq (sass : Str) : sections sass = (Rust.lines sass).foldl feedScan [] := by
  rw [sections, bodyLines]
  induction Rust.lines sass with
  | nil => rfl
  | cons line ls ih =>
      cases hname : functionName line with
      | none =>
          have hfeed : feedScan [] line = [] := by simp [feedScan, hname]
          simpa [hname, hfeed] using ih
      | some name => simp [hname]

namespace Disassembly

variable (d : Disassembly)

theorem sections_text : sections d.text = d.functions.map fun f ↦ (f.name, f.scans) := by
  have hpreamble : ∀ ls : List Str, (∀ line ∈ ls, Silent line) → ls.foldl feedScan [] = [] := by
    intro ls hls
    induction ls with
    | nil => rfl
    | cons line ls ih =>
        obtain ⟨hline, hls⟩ := List.forall_mem_cons.mp hls
        have hfeed : feedScan [] line = [] := by simp [feedScan, hline.noHeader]
        rw [List.foldl_cons, hfeed, ih hls]
  have hfunctions : ∀ (fs : List ListedFunction) (secs : List (Str × List Scan)),
      (fs.flatMap ListedFunction.text).foldl feedScan secs =
        secs ++ fs.map fun f ↦ (f.name, f.scans) := by
    intro fs
    induction fs with
    | nil => simp
    | cons f fs ih =>
        intro secs
        rw [List.flatMap_cons, List.foldl_append, f.foldl_feedScan_text, ih, List.map_cons,
          List.append_assoc, List.singleton_append]
  rw [sections_eq, lines_text, lines, List.foldl_append, hpreamble _ d.silent, hfunctions,
    List.nil_append]

theorem not_overlongAddress {line : Str} (h : line ∈ d.lines) : ¬ OverlongAddress line := by
  rcases List.mem_append.mp h with h | h
  · exact (d.silent line h).noAddress.not_overlongAddress
  · obtain ⟨f, -, h⟩ := List.mem_flatMap.mp h
    rcases List.mem_cons.mp h with rfl | h
    · exact (noAddress_of_not_mem f.noComment).not_overlongAddress
    · obtain ⟨l, -, rfl⟩ := List.mem_map.mp h
      exact l.not_overlongAddress

theorem addressesFit_text : AddressesFit d.text := by
  intro line hline _
  have hmem := (List.dropWhile_suffix _).subset hline
  rw [lines_text] at hmem
  exact d.not_overlongAddress hmem

/-! ## Every instruction -/

theorem countP_dropped (f : ListedFunction) :
    f.text.countP dropped = f.instrs.countP (·.guard.isUniform) := by
  rw [ListedFunction.text, List.countP_cons, dropped_of_not_mem f.noComment, List.countP_map,
    ListedFunction.instrs, List.countP_filterMap]
  apply List.countP_congr
  intro l _
  rw [Function.comp_apply, l.dropped_text]
  cases l.instr? with
  | none => rfl
  | some x => rfl

theorem uniformPredicatedDrops_text :
    uniformPredicatedDrops d.text = .ok (d.instrs.countP (·.guard.isUniform)) := by
  have hlines : d.lines.mapM uniformDrop = .ok (d.lines.map dropped) :=
    Exec.mapM_eq_map fun line hline ↦ uniformDrop_eq_ok (d.not_overlongAddress hline)
  have hpreamble : d.preamble.countP dropped = 0 := by
    rw [List.countP_eq_zero]
    intro line hline
    rw [(d.silent line hline).dropped_eq_false]
    exact Bool.false_ne_true
  have hcount : d.lines.countP dropped = d.instrs.countP (·.guard.isUniform) := by
    rw [lines, List.countP_append, hpreamble, Nat.zero_add, instrs, List.countP_flatMap,
      List.countP_flatMap]
    congr 1
    apply List.map_congr_left
    intro f _
    exact countP_dropped f
  rw [uniformPredicatedDrops, lines_text, hlines, ← hcount]
  exact congrArg Except.ok List.countP_map

end Disassembly

theorem ListedInstr.scan?_op (x : ListedInstr) (full : Bool) :
    x.scan?.map (opOf full) = if x.guard.isScalar then some (x.op full) else none := by
  rw [scan?]
  cases x.guard with
  | scalar predicate hp => exact congrArg some (opOf_eq hp x.isMnemonic full _ _)
  | uniform negated rest h => rfl
  | constant negated rest h => rfl

/-- Each instruction is in one of the three classes. -/
theorem length_eq_countP_guards (l : List ListedInstr) :
    l.length = l.countP (·.guard.isScalar) + l.countP (·.guard.isUniform) +
      l.countP (·.guard.isConstant) := by
  induction l with
  | nil => rfl
  | cons x l ih =>
      simp only [List.length_cons, List.countP_cons, ih]
      cases x.guard with
      | scalar predicate hp =>
          simp only [Guard.isScalar, Guard.isUniform, Guard.isConstant, if_true, if_false,
            Bool.false_eq_true]
          omega
      | uniform negated rest h =>
          simp only [Guard.isScalar, Guard.isUniform, Guard.isConstant, if_true, if_false,
            Bool.false_eq_true]
          omega
      | constant negated rest h =>
          simp only [Guard.isScalar, Guard.isUniform, Guard.isConstant, if_true, if_false,
            Bool.false_eq_true]
          omega

namespace Disassembly

variable (d : Disassembly)

/-- The instructions of the functions of a name that the scanner finds. -/
def found (name : Str) : List ListedInstr :=
  ((d.functions.filter (·.name = name)).flatMap ListedFunction.instrs).filter (·.guard.isScalar)

theorem count_opsOf (full : Bool) (name op : Str) :
    (opsOf full (sections d.text) name).count op = (d.found name).countP (·.op full = op) := by
  have hscans : (((sections d.text).filter (·.1 = name)).flatMap (·.2)) =
      ((d.functions.filter (·.name = name)).flatMap ListedFunction.instrs).filterMap
        ListedInstr.scan? := by
    rw [sections_text, List.filter_map, List.flatMap_map, List.filterMap_flatMap]
    rfl
  rw [opsOf, hscans, List.map_filterMap, List.count_eq_countP, List.countP_filterMap, found,
    List.countP_filter]
  apply List.countP_congr
  intro x _
  rw [x.scan?_op full]
  cases x.guard.isScalar with
  | false => simp
  | true => simp

theorem length_scans (f : ListedFunction) :
    f.scans.length = f.instrs.countP (·.guard.isScalar) := by
  rw [ListedFunction.scans, List.length_filterMap_eq_countP]
  apply List.countP_congr
  intro x _
  rw [ListedInstr.scan?]
  cases x.guard with
  | scalar predicate hp => simp [Guard.isScalar]
  | uniform negated rest h => simp [Guard.isScalar]
  | constant negated rest h => simp [Guard.isScalar]

/-- Every instruction of a disassembly is in the census, under its op in the
entry of its function, or it waits for a uniform predicate and is reported, or
it stands under the constant predicate and is lost. -/
theorem census_accounts (kernel : Pattern) (full : Bool) :
    ∃ counts drops, censusPerKernel d.text kernel full = .ok counts ∧
      uniformPredicatedDrops d.text = .ok drops ∧
      (∀ name, kernel.isMatch name = true → ∀ op,
        ((counts.lookup name).getD .empty).count op =
          (d.found name).countP (·.op full = op)) ∧
      drops = d.instrs.countP (·.guard.isUniform) ∧
      ((∀ f ∈ d.functions, kernel.isMatch f.name = true) →
        (counts.map (·.2.total)).sum + drops + d.instrs.countP (·.guard.isConstant) =
          d.instrs.length) := by
  refine ⟨_, _, censusPerKernel_eq_ok d.addressesFit_text, d.uniformPredicatedDrops_text,
    fun name hmatch op ↦ ?_, rfl, fun hall ↦ ?_⟩
  · rw [getD_lookup_counts hmatch, count_addAll, d.count_opsOf]
    exact Nat.zero_add _
  · have hfilter : (sections d.text).filter (fun s ↦ kernel.isMatch s.1) = sections d.text := by
      rw [List.filter_eq_self, sections_text]
      exact List.forall_mem_map.mpr hall
    have hscanned : ((sections d.text).map (·.2.length)).sum =
        d.instrs.countP (·.guard.isScalar) := by
      rw [sections_text, List.map_map, instrs, List.countP_flatMap]
      congr 1
      exact List.map_congr_left fun f _ ↦ length_scans f
    rw [sum_total_counts, hfilter, hscanned, ← length_eq_countP_guards]

end Disassembly

/-! ## One listing -/

theorem noAddress_of_opens {s : Str} (h : '/' ∉ s) : NoAddress s := by
  rintro t ⟨before, rfl⟩
  exact absurd (List.mem_append_right before List.mem_cons_self) h

theorem negatedP0 : IsPredicate ('@' :: (['!'] ++ 'P' :: (['0'] ++ [' ']))) :=
  .present (.inr rfl) ⟨List.cons_ne_nil _ _, List.all_eq_true.mp (by decide)⟩
    ⟨List.cons_ne_nil _ _, List.all_eq_true.mp (by decide)⟩

theorem isMnemonic_of_all {s : Str}
    (h : (s.head?.any Char.isUpper && s.tail.all isMnemonicChar) = true) : IsMnemonic s := by
  cases s with
  | nil => cases h
  | cons c s =>
      obtain ⟨hc, hs⟩ := Bool.and_eq_true_iff.mp h
      exact .mk hc (List.all_eq_true.mp hs)

/-- An instruction of the listing, without operands. -/
def bareInstr (guard : Guard) (mnemonic : Str)
    (h : (mnemonic.head?.any Char.isUpper && mnemonic.tail.all isMnemonicChar) = true) :
    ListedInstr where
  indent := lit "  "
  hex := lit "0010"
  gap := [' ']
  guard := guard
  mnemonic := mnemonic
  operands := lit " ;"
  isIndent := List.all_eq_true.mp (by decide)
  isHex := ⟨List.cons_ne_nil _ _, List.all_eq_true.mp (by decide)⟩
  fits := by decide
  isGap := ⟨List.cons_ne_nil _ _, List.all_eq_true.mp (by decide)⟩
  isMnemonic := isMnemonic_of_all h
  stops := by
    rintro c ⟨⟩
    rfl
  noAddress := noAddress_of_opens (by decide +kernel)

/-- An instruction without a predicate, one with a numbered predicate, one that
waits for a uniform predicate, and two under the constant predicate. -/
def guardedInstrs : List ListedInstr :=
  [bareInstr (.scalar [] .absent) (lit "FFMA") (by decide +kernel),
    bareInstr (.scalar _ negatedP0) (lit "FADD") (by decide +kernel),
    bareInstr (.uniform false (lit "1 ") (by decide +kernel)) (lit "UMOV") (by decide +kernel),
    bareInstr (.constant true [' '] (by decide +kernel)) (lit "SHFL.IDX") (by decide +kernel),
    bareInstr (.constant false [' '] (by decide +kernel)) (lit "NOP") (by decide +kernel)]

def guardedListing : Disassembly where
  preamble := [lit "Fatbin"]
  functions := [{
    header := lit "Function : k"
    name := ['k']
    lines := guardedInstrs.map .instr
    isHeader := by decide +kernel
    noComment := by decide +kernel }]
  silent := by
    intro line hline
    obtain rfl := List.mem_singleton.mp hline
    exact ⟨by decide +kernel, noAddress_of_opens (by decide +kernel), .inl (by decide +kernel)⟩
  whole := by decide +kernel

theorem census_accounts_guarded : guardedListing.lines =
      [lit "Fatbin", lit "Function : k", lit "  /*0010*/ FFMA ;", lit "  /*0010*/ @!P0 FADD ;",
        lit "  /*0010*/ @UP1 UMOV ;", lit "  /*0010*/ @!PT SHFL.IDX ;",
        lit "  /*0010*/ @PT NOP ;"] ∧
    ∃ counts, censusPerKernel guardedListing.text (Pattern.new "k") true = .ok counts ∧
      uniformPredicatedDrops guardedListing.text = .ok 1 ∧
      ((counts.lookup ['k']).getD .empty).count "FADD" = 1 ∧
      ((counts.lookup ['k']).getD .empty).count "SHFL.IDX" = 0 ∧
      (counts.map (·.2.total)).sum + 1 + 2 = 5 := by
  obtain ⟨counts, drops, hcounts, hdrops, hcount, rfl, htotal⟩ :=
    Disassembly.census_accounts guardedListing (Pattern.new "k") true
  refine ⟨by decide +kernel, counts, hcounts, hdrops, ?_, ?_, ?_⟩
  · exact (hcount ['k'] (by decide +kernel) "FADD").trans (by decide +kernel)
  · exact (hcount ['k'] (by decide +kernel) "SHFL.IDX").trans (by decide +kernel)
  · exact htotal (by decide +kernel)

end CalxMill.Nvidia
