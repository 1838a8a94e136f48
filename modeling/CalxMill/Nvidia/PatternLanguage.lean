import CalxMill.Lib.Search
import CalxMill.Nvidia.Pattern

/-!
# The language of a pattern

A pattern is a sequence of classes of bytes, each taken once, any number of
times, or at least once.  The matcher finds a pattern in a text exactly when
the text contains a word of its language, and the parser reads a sequence back
from every spelling of it.
-/

namespace CalxMill.Nvidia

open Lib Rust

/-! ## Matching -/

def Atom.language (a : Atom) : Language UInt8 := letter fun b ↦ atomOk a b

def Quant.language {α : Type*} (q : Quant) (l : Language α) : Language α :=
  match q with
  | .one => l
  | .star => KStar.kstar l
  | .plus => l * KStar.kstar l

/-- The words of a sequence: one word of every factor, in order. -/
def Pattern.language (p : Pattern) : Language UInt8 :=
  (p.atoms.map fun e ↦ e.2.language e.1.language).prod

theorem mem_backOffs {a : Atom} {text t : List UInt8} :
    t ∈ backOffs a text ↔ ∃ u, text = u ++ t ∧ ∀ b ∈ u, atomOk a b := by
  induction text with
  | nil =>
      constructor
      · intro h
        obtain rfl := List.mem_singleton.mp h
        exact ⟨[], rfl, List.forall_mem_nil _⟩
      · rintro ⟨u, hu, -⟩
        exact List.mem_singleton.mpr (List.append_eq_nil_iff.mp hu.symm).2
  | cons b text ih =>
      rw [backOffs]
      constructor
      · intro h
        split at h
        next hb =>
          rcases List.mem_append.mp h with h | h
          · obtain ⟨u, rfl, hu⟩ := ih.mp h
            exact ⟨b :: u, rfl, List.forall_mem_cons.mpr ⟨hb, hu⟩⟩
          · exact ⟨[], (List.mem_singleton.mp h).symm, List.forall_mem_nil _⟩
        next => exact ⟨[], (List.mem_singleton.mp h).symm, List.forall_mem_nil _⟩
      · rintro ⟨u, hu, hall⟩
        cases u with
        | nil =>
            rw [List.nil_append] at hu
            subst hu
            split <;> simp
        | cons c u =>
            obtain ⟨rfl, rfl⟩ := List.cons.inj hu
            obtain ⟨hb, hrest⟩ := List.forall_mem_cons.mp hall
            rw [if_pos hb]
            exact List.mem_append_left _ (ih.mpr ⟨u, rfl, hrest⟩)

/-- Taking as much as the atom allows and backing off finds every run of it. -/
theorem any_backOffs {a : Atom} {text : List UInt8} {m : Language UInt8}
    {matches? : List UInt8 → Bool} (hm : ∀ t, matches? t = true ↔ StartsWith m t) :
    (backOffs a text).any matches? = true ↔
      StartsWith (KStar.kstar a.language * m) text := by
  rw [List.any_eq_true, startsWith_mul]
  constructor
  · rintro ⟨t, ht, hmatch⟩
    obtain ⟨u, hu, hall⟩ := mem_backOffs.mp ht
    exact ⟨u, t, hu, mem_kstar_letter.mpr hall, (hm t).mp hmatch⟩
  · rintro ⟨u, t, hu, hword, hmatch⟩
    exact ⟨t, mem_backOffs.mpr ⟨u, hu, mem_kstar_letter.mp hword⟩, (hm t).mpr hmatch⟩

theorem matchHere_iff (atoms : List (Atom × Quant)) (text : List UInt8) :
    matchHere atoms text = true ↔ StartsWith (Pattern.language ⟨atoms⟩) text := by
  induction atoms generalizing text with
  | nil => exact iff_of_true rfl (startsWith_one text)
  | cons e atoms ih =>
      have hprod : Pattern.language ⟨e :: atoms⟩ =
          e.2.language e.1.language * Pattern.language ⟨atoms⟩ := List.prod_cons
      obtain ⟨a, q⟩ := e
      rw [hprod]
      cases q with
      | one =>
          cases text with
          | nil => exact iff_of_false Bool.false_ne_true startsWith_letter_mul_nil
          | cons b text =>
              rw [matchHere, Bool.and_eq_true, ih]
              exact (startsWith_letter_mul_cons (p := fun b ↦ atomOk a b)).symm
      | plus =>
          rw [Quant.language, mul_assoc]
          cases text with
          | nil => exact iff_of_false Bool.false_ne_true startsWith_letter_mul_nil
          | cons b text =>
              rw [matchHere, Bool.and_eq_true, any_backOffs ih]
              exact (startsWith_letter_mul_cons (p := fun b ↦ atomOk a b)).symm
      | star =>
          rw [matchHere]
          exact any_backOffs ih

theorem Pattern.isMatch_iff (p : Pattern) (text : Str) :
    p.isMatch text = true ↔ Contains p.language (asBytes text) := by
  rw [isMatch, List.any_eq_true, contains_iff]
  simp only [List.mem_tails, matchHere_iff]

/-! ## Spellings -/

namespace Pattern

/-- The spellings that the parser reads as an atom. -/
inductive Spells : List UInt8 → Atom → Prop
  | any : Spells [byte '.'] .any
  | digit : Spells [byte '\\', byte 'd'] .digit
  | bare {b : UInt8} (h : b ∉ [byte '\\', byte '.', byte '*', byte '+']) : Spells [b] (.lit b)
  | escaped {b : UInt8} (h : b ≠ byte 'd') : Spells [byte '\\', b] (.lit b)

def suffix : Quant → List UInt8
  | .one => []
  | .star => [byte '*']
  | .plus => [byte '+']

inductive Reads : List UInt8 → List (Atom × Quant) → Prop
  | nil : Reads [] []
  | cons {w rest : List UInt8} {a : Atom} {q : Quant} {atoms : List (Atom × Quant)}
      (hw : Spells w a) (hrest : Reads rest atoms) :
      Reads (w ++ (suffix q ++ rest)) ((a, q) :: atoms)

theorem Spells.parse_append {w : List UInt8} {a : Atom} (h : Spells w a) (rest : List UInt8) :
    parse .start (w ++ rest) = parse (.atom a) rest := by
  cases h with
  | any => rfl
  | digit => rfl
  | @bare b h =>
      have hb : b ≠ byte '\\' ∧ b ≠ byte '.' := by
        constructor <;> rintro rfl <;> simp at h
      rw [List.singleton_append, parse, opens, if_neg hb.1, if_neg hb.2]
  | @escaped b h =>
      have hopen : parse .start ([byte '\\', b] ++ rest) = parse (.atom (Pattern.escaped b)) rest := rfl
      rw [hopen, Pattern.escaped, if_neg h]

/-- No spelling starts with a quantifier. -/
theorem Spells.head_ne {w : List UInt8} {a : Atom} (h : Spells w a) :
    ∀ b ∈ w.head?, b ≠ byte '*' ∧ b ≠ byte '+' := by
  intro c hc
  cases h with
  | any =>
      obtain rfl := Option.some.inj hc
      decide
  | digit =>
      obtain rfl := Option.some.inj hc
      decide
  | @bare b h =>
      obtain rfl := Option.some.inj hc
      constructor <;> rintro rfl <;> simp at h
  | @escaped b h =>
      obtain rfl := Option.some.inj hc
      decide

theorem Spells.ne_nil {w : List UInt8} {a : Atom} (h : Spells w a) : w ≠ [] := by
  cases h <;> exact List.cons_ne_nil _ _

theorem Reads.head_ne {bytes : List UInt8} {atoms : List (Atom × Quant)} (h : Reads bytes atoms) :
    ∀ b ∈ bytes.head?, b ≠ byte '*' ∧ b ≠ byte '+' := by
  cases h with
  | nil =>
      intro b hb
      cases hb
  | @cons w rest a q atoms hw hrest =>
      intro b hb
      apply hw.head_ne b
      rwa [List.head?_append_of_ne_nil w hw.ne_nil] at hb

theorem parse_atom_append (a : Atom) (q : Quant) {rest : List UInt8}
    (hrest : ∀ b ∈ rest.head?, b ≠ byte '*' ∧ b ≠ byte '+') :
    parse (.atom a) (suffix q ++ rest) = (a, q) :: parse .start rest := by
  cases q with
  | one =>
      cases rest with
      | nil => rfl
      | cons b rest =>
          obtain ⟨hstar, hplus⟩ := hrest b rfl
          change (if b = byte '*' then _ else if b = byte '+' then _ else _) = _
          rw [if_neg hstar, if_neg hplus]
          rfl
  | star => rfl
  | plus => rfl

/-- The parser reads a sequence back from its spelling. -/
theorem Reads.parse_eq {bytes : List UInt8} {atoms : List (Atom × Quant)} (h : Reads bytes atoms) :
    parse .start bytes = atoms := by
  induction h with
  | nil => rfl
  | cons hw hrest ih => rw [hw.parse_append, parse_atom_append _ _ hrest.head_ne, ih]

end Pattern

/-! ## The written form -/

/-- The four characters that are written behind a backslash. -/
def special : List UInt8 := [byte '\\', byte '.', byte '*', byte '+']

def Atom.written : Atom → Str
  | .lit b => if b ∈ special then ['\\', Char.ofUInt8 b] else [Char.ofUInt8 b]
  | .any => "."
  | .digit => "\\d"

def Quant.written : Quant → Str
  | .one => []
  | .star => "*"
  | .plus => "+"

def Atom.Ascii : Atom → Prop
  | .lit b => b.toNat < 128
  | .any => True
  | .digit => True

namespace Pattern

def written (p : Pattern) : Str := p.atoms.flatMap fun e ↦ e.1.written ++ e.2.written

def Ascii (p : Pattern) : Prop := ∀ e ∈ p.atoms, e.1.Ascii

end Pattern

theorem asBytes_append (s t : Str) : asBytes (s ++ t) = asBytes s ++ asBytes t :=
  List.flatMap_append

theorem asBytes_ofUInt8 {b : UInt8} (hb : b.toNat < 128) : asBytes [Char.ofUInt8 b] = [b] := by
  have hsize : (Char.ofUInt8 b).utf8Size = 1 := by
    rw [Char.utf8Size_eq_one_iff, UInt32.le_iff_toNat_le]
    exact Nat.le_of_lt_succ hb
  have hchar : String.utf8EncodeChar (Char.ofUInt8 b) = [b] :=
    (String.utf8EncodeChar_eq_singleton hsize).trans (congrArg (fun b ↦ [b]) b.toUInt8_toUInt32)
  rw [asBytes, List.flatMap_cons, List.flatMap_nil, List.append_nil, hchar]

theorem Atom.spells_written {a : Atom} (ha : a.Ascii) : Pattern.Spells (asBytes a.written) a := by
  cases a with
  | any => exact .any
  | digit => exact .digit
  | lit b =>
      have hb : asBytes [Char.ofUInt8 b] = [b] := asBytes_ofUInt8 ha
      rw [written]
      split
      next hspecial =>
        have hbytes : asBytes ['\\', Char.ofUInt8 b] = [byte '\\', b] :=
          congrArg (byte '\\' :: ·) hb
        have hd : b ≠ byte 'd' := by
          rintro rfl
          exact absurd hspecial (by decide)
        rw [hbytes]
        exact .escaped hd
      next hspecial =>
        rw [hb]
        exact .bare hspecial

theorem Quant.asBytes_written (q : Quant) : asBytes q.written = Pattern.suffix q := by
  cases q <;> rfl

theorem Pattern.reads_written {p : Pattern} (hp : p.Ascii) : Reads (asBytes p.written) p.atoms := by
  obtain ⟨atoms⟩ := p
  induction atoms with
  | nil => exact .nil
  | cons e atoms ih =>
      obtain ⟨he, hatoms⟩ := List.forall_mem_cons.mp hp
      have hwritten : asBytes (written ⟨e :: atoms⟩) =
          asBytes e.1.written ++ (suffix e.2 ++ asBytes (written ⟨atoms⟩)) := by
        rw [written, List.flatMap_cons, asBytes_append, asBytes_append, e.2.asBytes_written,
          List.append_assoc]
        rfl
      rw [hwritten]
      exact .cons (Atom.spells_written he) (ih hatoms)

/-- The written form is read back, and the matcher finds exactly the texts that
contain a word of the language. -/
theorem Pattern.new_written_isMatch_iff {p : Pattern} (hp : p.Ascii) :
    new p.written = p ∧
      ∀ text : Str, (new p.written).isMatch text = true ↔ Contains p.language (asBytes text) := by
  have hnew : new p.written = p := congrArg Pattern.mk (reads_written hp).parse_eq
  refine ⟨hnew, fun text ↦ ?_⟩
  rw [hnew, isMatch_iff]

theorem Pattern.new_written_isMatch_iff_digits :
    new "a\\d+b" = ⟨[(.lit (byte 'a'), .one), (.digit, .plus), (.lit (byte 'b'), .one)]⟩ ∧
      Contains (new "a\\d+b").language (asBytes "xxa12byy") ∧
      ¬ Contains (new "a\\d+b").language (asBytes "xxabyy") := by
  have hascii : Pattern.Ascii ⟨[(.lit (byte 'a'), .one), (.digit, .plus),
      (.lit (byte 'b'), .one)]⟩ := by
    simp only [Ascii, List.forall_mem_cons]
    exact ⟨(by decide : (byte 'a').toNat < 128), trivial, (by decide : (byte 'b').toNat < 128),
      List.forall_mem_nil _⟩
  obtain ⟨hnew, hmatch⟩ := new_written_isMatch_iff hascii
  have hread : new "a\\d+b" = ⟨[(.lit (byte 'a'), .one), (.digit, .plus),
      (.lit (byte 'b'), .one)]⟩ := hnew
  rw [hread]
  exact ⟨rfl, (hmatch "xxa12byy").mp (by decide +kernel),
    mt (hmatch "xxabyy").mpr (by decide +kernel)⟩

end CalxMill.Nvidia
