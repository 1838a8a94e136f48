import CalxMill.Nvidia.PatternLanguage
import Mathlib.Data.List.Chain

/-!
# Patterns as Python reads them

The part of Python's regular expressions that the matcher implements: bare
characters, `.`, `\d`, and a backslash in front of a character that is neither
a letter nor a digit, each with at most one quantifier.  The scan for
unsupported constructs accepts more than that; the tokens of a pattern decide
which of the accepted patterns mean what they mean in Python.
-/

namespace CalxMill.Nvidia

open Lib Rust

/-! ## ASCII strings -/

def IsAscii (s : Str) : Prop := ∀ c ∈ s, c.toNat < 128

theorem byte_inj {c d : Char} (hc : c.toNat < 128) (hd : d.toNat < 128) :
    byte c = byte d ↔ c = d := by
  constructor
  · intro h
    have hnat : c.toNat % 256 = d.toNat % 256 := congrArg UInt8.toNat h
    apply Char.toNat_inj.mp
    omega
  · intro h
    rw [h]

theorem isAscii_of_all {s : Str} (h : s.all fun c ↦ c.toNat < 128) : IsAscii s :=
  fun c hc ↦ of_decide_eq_true (List.all_eq_true.mp h c hc)

theorem byte_mem_map {c : Char} {l : Str} (hc : c.toNat < 128) (hl : IsAscii l) :
    byte c ∈ l.map byte ↔ c ∈ l := by
  rw [List.mem_map]
  constructor
  · rintro ⟨d, hd, hdc⟩
    rwa [← (byte_inj (hl d hd) hc).mp hdc]
  · intro h
    exact ⟨c, h, rfl⟩

theorem asBytes_eq_map {s : Str} (hs : IsAscii s) : asBytes s = s.map byte := by
  induction s with
  | nil => rfl
  | cons c s ih =>
      obtain ⟨hc, hs⟩ := List.forall_mem_cons.mp hs
      have hsize : c.utf8Size = 1 := by
        rw [Char.utf8Size_eq_one_iff, UInt32.le_iff_toNat_le]
        exact Nat.le_of_lt_succ hc
      have hchar : String.utf8EncodeChar c = [byte c] := String.utf8EncodeChar_eq_singleton hsize
      have hrest : s.flatMap String.utf8EncodeChar = s.map byte := ih hs
      rw [asBytes, List.flatMap_cons, hchar, hrest]
      rfl

namespace Pattern

/-! ## The reference -/

/-- The spellings of one character class, with the class. -/
inductive PyAtom : Str → (Char → Prop) → Prop
  | any : PyAtom "." fun c ↦ c ≠ '\n'
  | digit : PyAtom "\\d" fun c ↦ c.isDigit
  | bare {c : Char} (h : c ∉ lit "\\.^$*+?\x7b[|()") : PyAtom [c] fun a ↦ a = c
  | escaped {c : Char} (h : c.isAlphanum = false) : PyAtom ['\\', c] fun a ↦ a = c

/-- The patterns of the implemented part, with their languages. -/
inductive PyReads : Str → Language Char → Prop
  | nil : PyReads [] 1
  | cons {w rest : Str} {p : Char → Prop} {q : Quant} {l : Language Char}
      (hw : PyAtom w p) (hrest : PyReads rest l) :
      PyReads (w ++ (q.written ++ rest)) (q.language (letter p) * l)

/-- An accepted pattern belongs to the implemented part and finds what Python's
`re.search` finds. -/
def ReadAsPython (p : Str) : Prop :=
  ∀ q, tryNew p = .ok q → (∃ l, PyReads p l) ∧
    ∀ l, PyReads p l → ∀ text, IsAscii text → (q.isMatch text = true ↔ Contains l text)

/-! ## Tokens -/

/-- A pattern is cut into characters and escaped characters; a last backslash
escapes nothing. -/
inductive Token where
  | bare (c : Char)
  | escaped (c : Char)
  | backslash
  deriving DecidableEq

/-- The flag says that the next character is escaped. -/
def tokens : Bool → Str → List Token
  | false, [] => []
  | true, [] => [.backslash]
  | true, c :: cs => .escaped c :: tokens false cs
  | false, c :: cs => if c = '\\' then tokens true cs else .bare c :: tokens false cs

namespace Token

def text : Token → Str
  | .bare c => [c]
  | .escaped c => ['\\', c]
  | .backslash => ['\\']

def Known : Token → Prop
  | .bare _ => True
  | .escaped c => c = 'd' ∨ c.isAlphanum = false
  | .backslash => False

def IsQuantifier (t : Token) : Prop := t = .bare '*' ∨ t = .bare '+'

def Rejected : Token → Prop
  | .bare c => c ∈ lit "[](){}|?^$"
  | _ => False

end Token

/-- Every escape is `\d` or of a character that is neither a letter nor a
digit, and every quantifier follows a token that is none. -/
structure Understood (ts : List Token) : Prop where
  known : ∀ t ∈ ts, t.Known
  first : ∀ t ∈ ts.head?, ¬ t.IsQuantifier
  apart : ts.IsChain fun t u ↦ ¬ (t.IsQuantifier ∧ u.IsQuantifier)

theorem flatMap_text_tokens (b : Bool) (s : Str) :
    (tokens b s).flatMap Token.text = if b then '\\' :: s else s := by
  induction s generalizing b with
  | nil => cases b <;> rfl
  | cons c s ih =>
      cases b with
      | true => simp [tokens, Token.text, ih]
      | false =>
          by_cases hc : c = '\\'
          · simp [tokens, hc, ih]
          · simp [tokens, hc, ih, Token.text]

/-! ## What is accepted -/

theorem mem_constructs {c : Char} (hc : c.toNat < 128) :
    byte c ∈ constructs ↔ c ∈ lit "[](){}|?^$" :=
  byte_mem_map hc (isAscii_of_all rfl)

theorem unsupported_eq_none {b : Bool} {s : Str} (hs : IsAscii s) :
    unsupported b (s.map byte) = none ↔ ∀ t ∈ tokens b s, ¬ t.Rejected := by
  induction s generalizing b with
  | nil => cases b <;> simp [unsupported, tokens, Token.Rejected]
  | cons c s ih =>
      obtain ⟨hc, hs⟩ := List.forall_mem_cons.mp hs
      have hslash : byte c = byte '\\' ↔ c = '\\' := byte_inj hc (by decide)
      rw [List.map_cons]
      cases b with
      | true => simp [unsupported, tokens, Token.Rejected, ih hs]
      | false =>
          rw [unsupported, tokens]
          simp only [hslash, mem_constructs hc]
          split
          next => exact ih hs
          next =>
            rw [List.forall_mem_cons, ← ih hs]
            split
            next h => simp [Token.Rejected, h]
            next h => simp [Token.Rejected, h]

theorem tryNew_eq_ok {p : Str} (hp : IsAscii p) {q : Pattern} :
    tryNew p = .ok q ↔ (∀ t ∈ tokens false p, ¬ t.Rejected) ∧ new p = q := by
  rw [← unsupported_eq_none hp, tryNew, asBytes_eq_map hp]
  split
  next c h => simp [h]
  next h => simp [h]

/-! ## From Python's reading to the parser's -/

theorem PyAtom.spells {w : Str} {p : Char → Prop} (h : PyAtom w p) (hw : IsAscii w) :
    ∃ a, Spells (w.map byte) a ∧ ∀ c : Char, c.toNat < 128 → (p c ↔ atomOk a (byte c)) := by
  cases h with
  | any =>
      refine ⟨.any, .any, ?_⟩
      intro c hc
      simp [atomOk, byte_inj hc (by decide : '\n'.toNat < 128)]
  | digit =>
      refine ⟨.digit, .digit, ?_⟩
      intro c hc
      have hbyte : (byte c).toNat = c.toNat := Nat.mod_eq_of_lt (by omega)
      simp only [atomOk, Bool.and_eq_true, decide_eq_true_eq, UInt8.le_iff_toNat_le, hbyte]
      exact Char.isDigit_iff_toNat
  | @bare c h =>
      have hc : c.toNat < 128 := hw c List.mem_cons_self
      refine ⟨.lit (byte c), .bare ?_, ?_⟩
      · have hspecial : (lit "\\.*+").all fun d ↦ d ∈ lit "\\.^$*+?\x7b[|()" := rfl
        have hbytes : byte c ∉ (lit "\\.*+").map byte := by
          rw [byte_mem_map hc (isAscii_of_all rfl)]
          intro hmem
          exact h (of_decide_eq_true (List.all_eq_true.mp hspecial c hmem))
        exact hbytes
      · intro a ha
        simp [atomOk, byte_inj ha hc]
  | @escaped c h =>
      have hc : c.toNat < 128 := hw c (by simp)
      refine ⟨.lit (byte c), .escaped ?_, ?_⟩
      · rw [Ne, byte_inj hc (by decide)]
        rintro rfl
        cases h
      · intro a ha
        simp [atomOk, byte_inj ha hc]

theorem agree_language (q : Quant) {p : Char → Prop} {a : Atom}
    (h : ∀ c : Char, c.toNat < 128 → (p c ↔ atomOk a (byte c))) :
    Agree byte (fun c ↦ c.toNat < 128) (q.language (letter p)) (q.language a.language) := by
  cases q with
  | one => exact Agree.letter h
  | star => exact Agree.kstar_letter h
  | plus => exact (Agree.letter h).mul (Agree.kstar_letter h)

theorem PyReads.reads {p : Str} {l : Language Char} (h : PyReads p l) (hp : IsAscii p) :
    ∃ atoms, Reads (p.map byte) atoms ∧
      Agree byte (fun c ↦ c.toNat < 128) l (Pattern.language ⟨atoms⟩) := by
  induction h with
  | nil => exact ⟨[], .nil, Agree.one⟩
  | @cons w rest p q l hw hrest ih =>
      obtain ⟨hascii, hp⟩ := List.forall_mem_append.mp hp
      obtain ⟨-, hp⟩ := List.forall_mem_append.mp hp
      obtain ⟨atoms, hreads, hagree⟩ := ih hp
      obtain ⟨a, hspells, hclass⟩ := hw.spells hascii
      refine ⟨(a, q) :: atoms, ?_, ?_⟩
      · have hquant : q.written.map byte = suffix q := by cases q <;> rfl
        rw [List.map_append, List.map_append, hquant]
        exact .cons hspells hreads
      · have hprod : Pattern.language ⟨(a, q) :: atoms⟩ =
            q.language a.language * Pattern.language ⟨atoms⟩ := List.prod_cons
        rw [hprod]
        exact (agree_language q hclass).mul hagree

/-- Where Python has a reading, the matcher finds what it finds. -/
theorem PyReads.isMatch_new {p : Str} {l : Language Char} (h : PyReads p l) (hp : IsAscii p)
    {text : Str} (htext : IsAscii text) :
    (new p).isMatch text = true ↔ Contains l text := by
  obtain ⟨atoms, hreads, hagree⟩ := h.reads hp
  have hnew : new p = ⟨atoms⟩ := by
    rw [new, asBytes_eq_map hp, hreads.parse_eq]
  rw [isMatch_iff, hnew, asBytes_eq_map htext]
  exact (hagree.contains htext).symm

/-! ## The patterns that Python reads -/

theorem PyAtom.tokens_append {w : Str} {p : Char → Prop} (h : PyAtom w p) (rest : Str) :
    ∃ t : Token, t.Known ∧ ¬ t.IsQuantifier ∧ tokens false (w ++ rest) = t :: tokens false rest := by
  cases h with
  | any => exact ⟨.bare '.', trivial, by simp [Token.IsQuantifier], by simp [tokens, lit]⟩
  | digit => exact ⟨.escaped 'd', Or.inl rfl, by simp [Token.IsQuantifier], by simp [tokens, lit]⟩
  | @bare c h =>
      have hc : c ≠ '\\' ∧ c ≠ '*' ∧ c ≠ '+' := by
        simp only [lit] at h
        refine ⟨?_, ?_, ?_⟩ <;> rintro rfl <;> simp at h
      exact ⟨.bare c, trivial, by simp [Token.IsQuantifier, hc], by simp [tokens, hc]⟩
  | @escaped c h =>
      exact ⟨.escaped c, Or.inr h, by simp [Token.IsQuantifier], by simp [tokens]⟩

theorem PyReads.understood {p : Str} {l : Language Char} (h : PyReads p l) :
    Understood (tokens false p) := by
  induction h with
  | nil => exact ⟨by simp [tokens], by simp [tokens], .nil⟩
  | @cons w rest p q l hw hrest ih =>
      obtain ⟨t, hknown, hquant, htokens⟩ := hw.tokens_append (q.written ++ rest)
      rw [htokens]
      have htail : ∀ u ∈ tokens false (q.written ++ rest), u.Known := by
        cases q with
        | one => exact ih.known
        | star => exact List.forall_mem_cons.mpr ⟨trivial, ih.known⟩
        | plus => exact List.forall_mem_cons.mpr ⟨trivial, ih.known⟩
      have hchain : (tokens false (q.written ++ rest)).IsChain
          fun t u ↦ ¬ (t.IsQuantifier ∧ u.IsQuantifier) := by
        have hfirst : ∀ t : Token, ∀ u ∈ (tokens false rest).head?,
            ¬ (t.IsQuantifier ∧ u.IsQuantifier) := by
          intro t u hu htu
          exact ih.first u hu htu.2
        cases q with
        | one => exact ih.apart
        | star => exact List.isChain_cons.mpr ⟨hfirst _, ih.apart⟩
        | plus => exact List.isChain_cons.mpr ⟨hfirst _, ih.apart⟩
      constructor
      · exact List.forall_mem_cons.mpr ⟨hknown, htail⟩
      · intro u hu
        obtain rfl := Option.some.inj hu
        exact hquant
      · apply List.isChain_cons.mpr
        refine ⟨?_, hchain⟩
        intro u hu htu
        exact hquant htu.1

theorem bare_backslash_not_mem (b : Bool) (s : Str) : Token.bare '\\' ∉ tokens b s := by
  induction s generalizing b with
  | nil => cases b <;> simp [tokens]
  | cons c s ih =>
      cases b with
      | true => simp [tokens, ih]
      | false =>
          rw [tokens]
          split
          next => exact ih true
          next hc => simp [ih, Ne.symm hc]

/-- A token that is no quantifier spells an atom. -/
theorem isQuantifier_or_pyAtom {b : Bool} {s : Str} {t : Token} (ht : t ∈ tokens b s)
    (hknown : t.Known) (hrejected : ¬ t.Rejected) :
    t.IsQuantifier ∨ ∃ p, PyAtom t.text p := by
  cases t with
  | backslash => exact hknown.elim
  | escaped c =>
      right
      rcases hknown with rfl | hc
      · exact ⟨_, .digit⟩
      · exact ⟨_, .escaped hc⟩
  | bare c =>
      by_cases hq : Token.IsQuantifier (.bare c)
      · exact Or.inl hq
      · right
        by_cases hdot : c = '.'
        · subst hdot
          exact ⟨_, .any⟩
        · refine ⟨_, .bare ?_⟩
          intro hmeta
          have hkinds : (lit "\\.^$*+?\x7b[|()").all fun d ↦
              d = '\\' ∨ d = '.' ∨ d = '*' ∨ d = '+' ∨ d ∈ lit "[](){}|?^$" := rfl
          rcases of_decide_eq_true (List.all_eq_true.mp hkinds c hmeta) with
            rfl | rfl | rfl | rfl | hc
          · exact bare_backslash_not_mem b s ht
          · exact hdot rfl
          · exact hq (Or.inl rfl)
          · exact hq (Or.inr rfl)
          · exact hrejected hc

/-- Tokens with no quantifier behind another are an optional quantifier and a
pattern that Python reads. -/
theorem exists_pyReads {ts : List Token} (hts : ∀ t ∈ ts, t.IsQuantifier ∨ ∃ p, PyAtom t.text p)
    (hapart : ts.IsChain fun t u ↦ ¬ (t.IsQuantifier ∧ u.IsQuantifier)) :
    ∃ q rest l, ts.flatMap Token.text = Quant.written q ++ rest ∧ PyReads rest l ∧
      (q = .one ∨ ∃ t ∈ ts.head?, t.IsQuantifier) := by
  induction ts with
  | nil => exact ⟨.one, [], 1, rfl, .nil, Or.inl rfl⟩
  | cons t ts ih =>
      obtain ⟨ht, hts⟩ := List.forall_mem_cons.mp hts
      obtain ⟨hhead, hapart⟩ := List.isChain_cons.mp hapart
      obtain ⟨q, rest, l, hflat, hreads, hq⟩ := ih hts hapart
      rw [List.flatMap_cons, hflat]
      rcases ht with hquant | ⟨p, hp⟩
      · have hone : q = .one := by
          rcases hq with hq | ⟨u, hu, huq⟩
          · exact hq
          · exact absurd ⟨hquant, huq⟩ (hhead u hu)
        subst hone
        rcases hquant with rfl | rfl
        · exact ⟨.star, rest, l, rfl, hreads, Or.inr ⟨_, rfl, Or.inl rfl⟩⟩
        · exact ⟨.plus, rest, l, rfl, hreads, Or.inr ⟨_, rfl, Or.inr rfl⟩⟩
      · exact ⟨.one, t.text ++ (q.written ++ rest), _, rfl, .cons hp hreads, Or.inl rfl⟩

/-- Python reads exactly the patterns whose tokens are understood, among those
that the scan accepts. -/
theorem exists_pyReads_iff {p : Str} (hp : ∀ t ∈ tokens false p, ¬ t.Rejected) :
    (∃ l, PyReads p l) ↔ Understood (tokens false p) := by
  constructor
  · rintro ⟨l, hl⟩
    exact hl.understood
  · intro h
    have hts : ∀ t ∈ tokens false p, t.IsQuantifier ∨ ∃ p, PyAtom t.text p := fun t ht ↦
      isQuantifier_or_pyAtom ht (h.known t ht) (hp t ht)
    obtain ⟨q, rest, l, hflat, hreads, hq⟩ := exists_pyReads hts h.apart
    have hone : q = .one := by
      rcases hq with hq | ⟨t, ht, htq⟩
      · exact hq
      · exact absurd htq (h.first t ht)
    subst hone
    rw [flatMap_text_tokens] at hflat
    have hrest : p = rest := hflat
    exact ⟨l, hrest ▸ hreads⟩

/-- An operator's pattern is read as Python reads it exactly when the scan
rejects one of its characters or its tokens are understood. -/
theorem readAsPython_iff {p : Str} (hp : IsAscii p) :
    ReadAsPython p ↔ (∃ t ∈ tokens false p, t.Rejected) ∨ Understood (tokens false p) := by
  by_cases hrej : ∃ t ∈ tokens false p, t.Rejected
  · apply iff_of_true _ (Or.inl hrej)
    intro q hq
    obtain ⟨t, ht, htr⟩ := hrej
    exact absurd htr ((tryNew_eq_ok hp).mp hq |>.1 t ht)
  · have haccept : ∀ t ∈ tokens false p, ¬ t.Rejected := fun t ht h ↦ hrej ⟨t, ht, h⟩
    rw [or_iff_right hrej, ← exists_pyReads_iff haccept]
    constructor
    · intro h
      exact (h (new p) ((tryNew_eq_ok hp).mpr ⟨haccept, rfl⟩)).1
    · intro h q hq
      obtain ⟨-, rfl⟩ := (tryNew_eq_ok hp).mp hq
      refine ⟨h, ?_⟩
      intro l hl text htext
      exact hl.isMatch_new hp htext

theorem readAsPython_digits : ReadAsPython "a\\d+\\." := by
  apply (readAsPython_iff (isAscii_of_all rfl)).mpr
  apply Or.inr
  constructor
  · simp [tokens, lit, Token.Known]
  · simp [tokens, lit, Token.IsQuantifier]
  · simp [tokens, lit, Token.IsQuantifier]

/-- A second star and the class `\w` are accepted as the characters `*` and `w`. -/
theorem not_readAsPython :
    (¬ ReadAsPython "a**" ∧
      tryNew "a**" = .ok ⟨[(.lit (byte 'a'), .star), (.lit (byte '*'), .one)]⟩ ∧
      isMatch ⟨[(.lit (byte 'a'), .star), (.lit (byte '*'), .one)]⟩ "aa" = false) ∧
    (¬ ReadAsPython "\\w" ∧ tryNew "\\w" = .ok ⟨[(.lit (byte 'w'), .one)]⟩ ∧
      isMatch ⟨[(.lit (byte 'w'), .one)]⟩ "a" = false) := by
  refine ⟨⟨?_, rfl, rfl⟩, ?_, rfl, rfl⟩
  · intro h
    obtain ⟨⟨l, hl⟩, -⟩ := h _ rfl
    have hapart := hl.understood.apart
    simp [tokens, lit, Token.IsQuantifier] at hapart
  · intro h
    obtain ⟨⟨l, hl⟩, -⟩ := h _ rfl
    have hknown : Token.Known (.escaped 'w') := hl.understood.known _ (by simp [tokens, lit])
    exact hknown.elim (by decide) (by decide)

end Pattern

end CalxMill.Nvidia
