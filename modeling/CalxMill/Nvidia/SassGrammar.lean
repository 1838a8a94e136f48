import CalxMill.Lib.Munch
import CalxMill.Lib.Search
import CalxMill.Nvidia.SassTotal

/-!
# The grammar of an instruction line

The scanner searches a line for `/*` HEX+ `*/` WS+ (`@` `!`? `P` DIGIT+ WS+)?
[A-Z][A-Z0-9.]*.  It returns the leftmost match with its mnemonic as long as
possible, and nothing exactly when the line has no match.
-/

namespace CalxMill.Nvidia

open Lib Rust

/-! ## The pattern -/

/-- `@`, a negation or not, `P`, digits and white space; or nothing. -/
inductive IsPredicate : Str → Prop
  | absent : IsPredicate []
  | present {negation digits gap : Str} : negation = [] ∨ negation = ['!'] →
      Run Char.isDigit digits → Run isBlank gap →
      IsPredicate ('@' :: (negation ++ 'P' :: (digits ++ gap)))

inductive IsMnemonic : Str → Prop
  | mk {c : Char} {s : Str} : c.isUpper = true → (∀ d ∈ s, isMnemonicChar d = true) →
      IsMnemonic (c :: s)

/-- A place in a line at which the pattern matches. -/
structure InstrMatch (line : Str) where
  before : Str
  hex : Str
  gap : Str
  predicate : Str
  mnemonic : Str
  after : Str
  spelled : line =
    before ++ (lit "/*" ++ (hex ++ (lit "*/" ++ (gap ++ (predicate ++ (mnemonic ++ after))))))
  isHex : Run isHexDigit hex
  isGap : Run isBlank gap
  isPredicate : IsPredicate predicate
  isMnemonic : IsMnemonic mnemonic

namespace InstrMatch

variable {line : Str}

def Leftmost (m : InstrMatch line) : Prop :=
  ∀ m' : InstrMatch line, m.before.length ≤ m'.before.length

/-- The mnemonic does not go on. -/
def Longest (m : InstrMatch line) : Prop := Stops isMnemonicChar m.after

end InstrMatch

/-- The length in bytes. -/
def byteLen (s : Str) : ℕ := (s.map Char.utf8Size).sum

@[simp] theorem byteLen_append (s t : Str) : byteLen (s ++ t) = byteLen s + byteLen t := by
  rw [byteLen, List.map_append, List.sum_append, byteLen, byteLen]

/-- The result of the source: the address, the offset of the predicate or
mnemonic, and the offset behind the mnemonic. -/
def offsets (line : Str) (x : Scan) : ℕ × ℕ × ℕ :=
  (x.addr, byteLen line - byteLen x.tail, byteLen line - byteLen x.tail + byteLen x.span)

def InstrMatch.offsets {line : Str} (m : InstrMatch line) : ℕ × ℕ × ℕ :=
  let start := byteLen m.before + byteLen "/*" + byteLen m.hex + byteLen "*/" + byteLen m.gap
  (hexValue m.hex, start, start + byteLen m.predicate + byteLen m.mnemonic)

/-! ## The parts -/

section Parts

variable {s t : Str}

theorem skipSome_eq_some_iff {p : Char → Bool} :
    skipSome p s = some t ↔ ∃ run, Run p run ∧ Stops p t ∧ s = run ++ t := by
  constructor
  · intro h
    cases s with
    | nil => cases h
    | cons c s =>
        simp only [skipSome, Option.ite_none_right_eq_some, Option.some.injEq] at h
        obtain ⟨hc, rfl⟩ := h
        refine ⟨c :: s.takeWhile p, run_cons_takeWhile hc s, stops_dropWhile p s, ?_⟩
        rw [List.cons_append, List.takeWhile_append_dropWhile]
  · rintro ⟨run, hrun, hstop, rfl⟩
    cases run with
    | nil => exact absurd rfl hrun.ne_nil
    | cons c run =>
        have hall : ∀ d ∈ run, p d = true := fun d hd ↦ hrun.all d (List.mem_cons_of_mem c hd)
        rw [List.cons_append, skipSome, if_pos (hrun.all c List.mem_cons_self),
          (munch_append hall hstop).2]

theorem comment_eq_some_iff {hex body : Str} :
    comment s = some (hex, body) ↔ Run isHexDigit hex ∧ s = hex ++ (lit "*/" ++ body) := by
  rw [comment]
  constructor
  · intro h
    split at h
    · cases h
    · next hne =>
        obtain ⟨body', hbody, heq⟩ := Option.map_eq_some_iff.mp h
        obtain ⟨rfl, rfl⟩ := Prod.mk.inj heq
        refine ⟨⟨hne, fun c hc ↦ List.mem_takeWhile_imp hc⟩, ?_⟩
        rw [← dropPrefix?_eq_some.mp hbody, List.takeWhile_append_dropWhile]
  · rintro ⟨hhex, rfl⟩
    have hstop : Stops isHexDigit (lit "*/" ++ body) := by
      rintro c ⟨⟩
      rfl
    obtain ⟨htake, hdrop⟩ := munch_append hhex.all hstop
    rw [htake, hdrop, if_neg hhex.ne_nil, dropPrefix?_eq_some.mpr rfl]
    rfl

theorem skipMnemonic_eq_some_iff :
    skipMnemonic s = some t ↔ ∃ mnemonic, IsMnemonic mnemonic ∧ Stops isMnemonicChar t ∧
      s = mnemonic ++ t := by
  constructor
  · intro h
    cases s with
    | nil => cases h
    | cons c s =>
        simp only [skipMnemonic, Option.ite_none_right_eq_some, Option.some.injEq] at h
        obtain ⟨hc, rfl⟩ := h
        refine ⟨c :: s.takeWhile isMnemonicChar, ?_, stops_dropWhile _ s, ?_⟩
        · exact .mk hc fun d hd ↦ List.mem_takeWhile_imp hd
        · rw [List.cons_append, List.takeWhile_append_dropWhile]
  · rintro ⟨mnemonic, ⟨hc, hall⟩, hstop, rfl⟩
    rw [List.cons_append, skipMnemonic, if_pos hc, (munch_append hall hstop).2]

theorem isUpper_bounds {c : Char} (h : c.isUpper = true) : 65 ≤ c.toNat ∧ c.toNat ≤ 90 :=
  of_decide_eq_true (p := c.val ≥ 'A'.val ∧ c.val ≤ 'Z'.val) h

theorem not_isBlank_of_isUpper {c : Char} (h : c.isUpper = true) : isBlank c = false := by
  have hle := (isUpper_bounds h).1
  have hne : c ≠ ' ' := by
    rintro rfl
    exact absurd hle (by decide)
  simp [isBlank, hne]
  omega

theorem not_isDigit_of_isBlank {c : Char} (h : isBlank c = true) : c.isDigit = false := by
  by_contra hdigit
  rw [Bool.not_eq_false] at hdigit
  simp only [Char.isDigit, Bool.and_eq_true, decide_eq_true_eq] at hdigit
  have hle : 48 ≤ c.toNat := hdigit.1
  simp only [isBlank, Bool.or_eq_true, Bool.and_eq_true, decide_eq_true_eq] at h
  rcases h with rfl | h
  · exact absurd hle (by decide)
  · omega

theorem IsMnemonic.stops_append {mnemonic : Str} (h : IsMnemonic mnemonic) (after : Str) :
    Stops isBlank (mnemonic ++ after) := by
  obtain ⟨hc, -⟩ := h
  rintro d ⟨⟩
  exact not_isBlank_of_isUpper hc

theorem IsMnemonic.head?_ne_at {mnemonic : Str} (h : IsMnemonic mnemonic) (after u : Str) :
    mnemonic ++ after ≠ '@' :: u := by
  obtain ⟨hc, -⟩ := h
  intro heq
  obtain ⟨rfl, -⟩ := List.cons.inj heq
  exact absurd hc (by decide)

/-- What is behind an optional `!`. -/
theorem negation_iff : (s.dropPrefix? ['!']).getD s = 'P' :: t ↔
    ∃ negation, (negation = [] ∨ negation = ['!']) ∧ s = negation ++ 'P' :: t := by
  cases hdrop : s.dropPrefix? ['!'] with
  | some u =>
      obtain rfl := dropPrefix?_eq_some.mp hdrop
      constructor
      · rintro rfl
        exact ⟨['!'], Or.inr rfl, rfl⟩
      · rintro ⟨negation, rfl | rfl, h⟩
        · cases h
        · exact List.append_cancel_left h
  | none =>
      constructor
      · intro h
        exact ⟨[], Or.inl rfl, h⟩
      · rintro ⟨negation, rfl | rfl, rfl⟩
        · rfl
        · rw [dropPrefix?_eq_some.mpr rfl] at hdrop
          cases hdrop

theorem skipPredicate_at_eq_some_iff : skipPredicate ('@' :: s) = some t ↔
    ∃ negation u, (negation = [] ∨ negation = ['!']) ∧ s = negation ++ 'P' :: u ∧
      (skipSome Char.isDigit u).bind (skipSome isBlank) = some t := by
  rw [skipPredicate]
  constructor
  · intro h
    split at h
    · next u hu =>
        obtain ⟨negation, hneg, hs⟩ := negation_iff.mp hu
        exact ⟨negation, u, hneg, hs, h⟩
    · cases h
  · rintro ⟨negation, u, hneg, hs, h⟩
    rw [negation_iff.mpr ⟨negation, hneg, hs⟩]
    exact h

theorem IsMnemonic.exists_longest {mnemonic : Str} (h : IsMnemonic mnemonic) (after : Str) :
    ∃ mnemonic' after', mnemonic ++ after = mnemonic' ++ after' ∧ IsMnemonic mnemonic' ∧
      Stops isMnemonicChar after' := by
  obtain @⟨c, s, hc, hall⟩ := h
  refine ⟨c :: (s ++ after.takeWhile isMnemonicChar), after.dropWhile isMnemonicChar, ?_, .mk hc ?_,
    stops_dropWhile _ after⟩
  · rw [List.cons_append, List.cons_append, List.append_assoc, List.takeWhile_append_dropWhile]
  · intro d hd
    rcases List.mem_append.mp hd with hd | hd
    · exact hall d hd
    · exact List.mem_takeWhile_imp hd

/-- The predicate of an instruction, read up to the mnemonic behind it. -/
theorem skipPredicate_eq_some_iff {mnemonic after : Str} (h : IsMnemonic mnemonic) :
    skipPredicate s = some (mnemonic ++ after) ↔
      ∃ predicate, IsPredicate predicate ∧ s = predicate ++ (mnemonic ++ after) := by
  constructor
  · intro hskip
    by_cases hat : ∃ u, s = '@' :: u
    · obtain ⟨u, rfl⟩ := hat
      obtain ⟨negation, v, hneg, rfl, hbind⟩ := skipPredicate_at_eq_some_iff.mp hskip
      obtain ⟨w, hw, hrest⟩ := Option.bind_eq_some_iff.mp hbind
      obtain ⟨digits, hdigits, -, rfl⟩ := skipSome_eq_some_iff.mp hw
      obtain ⟨gap, hgap, -, rfl⟩ := skipSome_eq_some_iff.mp hrest
      exact ⟨_, .present hneg hdigits hgap, by simp⟩
    · rw [skipPredicate.eq_2 s fun u hu ↦ hat ⟨u, hu⟩] at hskip
      exact ⟨[], .absent, Option.some.inj hskip⟩
  · rintro ⟨predicate, hpred, rfl⟩
    cases hpred with
    | absent => exact skipPredicate.eq_2 _ (h.head?_ne_at after)
    | @present negation digits gap hneg hdigits hgap =>
        rw [List.cons_append, skipPredicate_at_eq_some_iff]
        refine ⟨negation, digits ++ (gap ++ (mnemonic ++ after)), hneg, by simp, ?_⟩
        have hblank : Stops Char.isDigit (gap ++ (mnemonic ++ after)) :=
          hgap.stops_append (fun c ↦ not_isDigit_of_isBlank) _
        rw [skipSome_eq_some_iff.mpr ⟨digits, hdigits, hblank, rfl⟩]
        exact skipSome_eq_some_iff.mpr ⟨gap, hgap, h.stops_append after, rfl⟩

theorem scanOp_eq_some_iff {tail span : Str} : scanOp s = some (tail, span) ↔
    ∃ gap predicate mnemonic after, Run isBlank gap ∧ IsPredicate predicate ∧
      IsMnemonic mnemonic ∧ Stops isMnemonicChar after ∧ s = gap ++ tail ∧
        tail = predicate ++ (mnemonic ++ after) ∧ span = predicate ++ mnemonic := by
  have hspan (predicate mnemonic after : Str) :
      (predicate ++ (mnemonic ++ after)).take
        ((predicate ++ (mnemonic ++ after)).length - after.length) = predicate ++ mnemonic := by
    rw [← List.append_assoc, List.length_append, Nat.add_sub_cancel, List.take_left']
    rfl
  constructor
  · intro h
    obtain ⟨body, hgap, h⟩ := Option.bind_eq_some_iff.mp h
    obtain ⟨rest, hpred, h⟩ := Option.bind_eq_some_iff.mp h
    obtain ⟨after, hmnemonic, h⟩ := Option.bind_eq_some_iff.mp h
    obtain ⟨rfl, rfl⟩ := Prod.mk.inj (Option.some.inj h)
    obtain ⟨mnemonic, hm, hstop, rfl⟩ := skipMnemonic_eq_some_iff.mp hmnemonic
    obtain ⟨predicate, hp, rfl⟩ := (skipPredicate_eq_some_iff hm).mp hpred
    obtain ⟨gap, hg, -, rfl⟩ := skipSome_eq_some_iff.mp hgap
    exact ⟨gap, predicate, mnemonic, after, hg, hp, hm, hstop, rfl, rfl, hspan _ _ _⟩
  · rintro ⟨gap, predicate, mnemonic, after, hg, hp, hm, hstop, rfl, rfl, rfl⟩
    have hblank : Stops isBlank (predicate ++ (mnemonic ++ after)) := by
      cases hp with
      | absent => exact hm.stops_append after
      | present =>
          rintro c ⟨⟩
          rfl
    have hpred : skipPredicate (predicate ++ (mnemonic ++ after)) = some (mnemonic ++ after) :=
      (skipPredicate_eq_some_iff hm).mpr ⟨predicate, hp, rfl⟩
    have hmnemonic := skipMnemonic_eq_some_iff.mpr ⟨mnemonic, hm, hstop, rfl⟩
    rw [scanOp, skipSome_eq_some_iff.mpr ⟨gap, hg, hblank, rfl⟩]
    simp only [bind, Option.bind, hpred, hmnemonic, hspan]
    rfl

end Parts

/-! ## The search -/

/-- The instruction whose address comment opens here. -/
def scanHere : Str → Option Scan
  | '/' :: '*' :: s => do
      let (hex, body) ← comment s
      let (tail, span) ← scanOp body
      pure ⟨hexValue hex, tail, span⟩
  | _ => none

theorem scan_cons (c : Char) (s : Str) : scan (c :: s) = (scanHere (c :: s)).or (scan s) := by
  by_cases hopen : ∃ t, c :: s = '/' :: '*' :: t
  · obtain ⟨t, ht⟩ := hopen
    obtain ⟨rfl, rfl⟩ := List.cons.inj ht
    have hstar : scan ('*' :: t) = scan t := scan.eq_2 _ _ fun u h ↦ absurd h (by decide)
    rw [scan, hstar, scanHere]
    cases comment t with
    | none => rfl
    | some p =>
        obtain ⟨hex, body⟩ := p
        cases hop : scanOp body with
        | none => simp [hop]
        | some r => simp [hop]
  · have hskip : scan (c :: s) = scan s := scan.eq_2 _ _ fun u hc hs ↦ hopen ⟨u, by rw [hc, hs]⟩
    have hhere : scanHere (c :: s) = none := scanHere.eq_2 _ fun u h ↦ hopen ⟨u, h⟩
    rw [hskip, hhere, Option.none_or]

/-- The scanner tries every place of the line. -/
theorem scan_eq_findSome? (line : Str) : scan line = line.tails.findSome? scanHere := by
  induction line with
  | nil => rfl
  | cons c line ih =>
      rw [scan_cons, List.tails_cons, List.findSome?_cons, ih]
      cases scanHere (c :: line) with
      | none => rfl
      | some x => rfl

section Search

variable {line s : Str} {x : Scan}

/-- The search stops at the leftmost place that has an instruction. -/
theorem scan_eq_some_iff : scan line = some x ↔
    ∃ before s, line = before ++ s ∧ scanHere s = some x ∧
      ∀ before' s', line = before' ++ s' → before'.length < before.length →
        scanHere s' = none := by
  rw [scan_eq_findSome?, findSome?_tails_eq_some_iff]

theorem scan_eq_none_iff : scan line = none ↔
    ∀ before s, line = before ++ s → scanHere s = none := by
  rw [scan_eq_findSome?, findSome?_tails_eq_none_iff]

theorem scanHere_eq_some_iff : scanHere s = some x ↔
    ∃ hex gap predicate mnemonic after, Run isHexDigit hex ∧ Run isBlank gap ∧
      IsPredicate predicate ∧ IsMnemonic mnemonic ∧ Stops isMnemonicChar after ∧
      s = lit "/*" ++ (hex ++ (lit "*/" ++ (gap ++ (predicate ++ (mnemonic ++ after))))) ∧
      x = ⟨hexValue hex, predicate ++ (mnemonic ++ after), predicate ++ mnemonic⟩ := by
  constructor
  · intro h
    unfold scanHere at h
    split at h
    · next s =>
        obtain ⟨⟨hex, body⟩, hcomment, h⟩ := Option.bind_eq_some_iff.mp h
        obtain ⟨⟨tail, span⟩, hop, h⟩ := Option.bind_eq_some_iff.mp h
        obtain ⟨hhex, rfl⟩ := comment_eq_some_iff.mp hcomment
        obtain ⟨gap, predicate, mnemonic, after, hg, hp, hm, hstop, rfl, rfl, rfl⟩ :=
          scanOp_eq_some_iff.mp hop
        exact ⟨hex, gap, predicate, mnemonic, after, hhex, hg, hp, hm, hstop, rfl,
          (Option.some.inj h).symm⟩
    · cases h
  · rintro ⟨hex, gap, predicate, mnemonic, after, hhex, hg, hp, hm, hstop, rfl, rfl⟩
    have hcomment := comment_eq_some_iff.mpr
      ⟨hhex, Eq.refl (hex ++ (lit "*/" ++ (gap ++ (predicate ++ (mnemonic ++ after)))))⟩
    have hop := scanOp_eq_some_iff.mpr
      ⟨gap, predicate, mnemonic, after, hg, hp, hm, hstop, rfl, rfl, rfl⟩
    exact Option.bind_eq_some_iff.mpr ⟨_, hcomment, Option.bind_eq_some_iff.mpr ⟨_, hop, rfl⟩⟩

end Search

/-! ## Matches -/

/-- The hexadecimal runs between comment brackets have at most sixteen digits. -/
def ShortRuns (line : Str) : Prop :=
  ∀ before hex after, line = before ++ (lit "/*" ++ (hex ++ (lit "*/" ++ after))) →
    (∀ c ∈ hex, isHexDigit c = true) → hex.length ≤ 16

/-- The scanner's results are the leftmost matches. -/
structure ScansPattern (line : Str) : Prop where
  found : ∀ r, (∃ x, scanInstr line = .ok (some x) ∧ offsets line x = r) ↔
    ∃ m : InstrMatch line, m.Leftmost ∧ m.Longest ∧ m.offsets = r
  missed : scanInstr line = .ok none ↔ IsEmpty (InstrMatch line)

theorem ShortRuns.not_overlongAddress {line : Str} (h : ShortRuns line) :
    ¬ OverlongAddress line := by
  rintro ⟨s, hex, body, ⟨before, hline⟩, hcomment, hlong, -⟩
  obtain ⟨hhex, rfl⟩ := comment_eq_some_iff.mp hcomment
  have hlt := hexValue_lt_word hhex.all (h before hex body hline.symm hhex.all)
  omega

namespace InstrMatch

variable {line : Str}

/-- The text from the match on. -/
def here (m : InstrMatch line) : Str :=
  lit "/*" ++ (m.hex ++ (lit "*/" ++ (m.gap ++ (m.predicate ++ (m.mnemonic ++ m.after)))))

def scan (m : InstrMatch line) : Scan :=
  ⟨hexValue m.hex, m.predicate ++ (m.mnemonic ++ m.after), m.predicate ++ m.mnemonic⟩

theorem offsets_scan (m : InstrMatch line) : Nvidia.offsets line m.scan = m.offsets := by
  have hline : byteLen line = byteLen (m.before ++ m.here) := congrArg byteLen m.spelled
  simp only [Nvidia.offsets, offsets, scan, hline, here, byteLen_append]
  have hstart : byteLen m.before + (byteLen (lit "/*") + (byteLen m.hex + (byteLen (lit "*/") +
      (byteLen m.gap + (byteLen m.predicate + (byteLen m.mnemonic + byteLen m.after)))))) -
        (byteLen m.predicate + (byteLen m.mnemonic + byteLen m.after)) =
      byteLen m.before + byteLen (lit "/*") + byteLen m.hex + byteLen (lit "*/") +
        byteLen m.gap := by
    omega
  rw [hstart, Nat.add_assoc _ (byteLen m.predicate)]

theorem scanHere_of_longest (m : InstrMatch line) (h : m.Longest) : scanHere m.here = some m.scan :=
  scanHere_eq_some_iff.mpr ⟨m.hex, m.gap, m.predicate, m.mnemonic, m.after, m.isHex, m.isGap,
    m.isPredicate, m.isMnemonic, h, rfl, rfl⟩

/-- A match has an instruction at its place, with the longest mnemonic. -/
theorem scanHere_ne_none (m : InstrMatch line) : scanHere m.here ≠ none := by
  obtain ⟨mnemonic, after, heq, hm, hstop⟩ := m.isMnemonic.exists_longest m.after
  have hhere := scanHere_eq_some_iff.mpr ⟨m.hex, m.gap, m.predicate, mnemonic, after, m.isHex,
    m.isGap, m.isPredicate, hm, hstop, rfl, rfl⟩
  rw [here, heq, hhere]
  exact Option.some_ne_none _

theorem exists_of_scanHere {before s : Str} {x : Scan} (hline : line = before ++ s)
    (hs : scanHere s = some x) :
    ∃ m : InstrMatch line, m.before = before ∧ m.Longest ∧ m.scan = x := by
  obtain ⟨hex, gap, predicate, mnemonic, after, hhex, hg, hp, hm, hstop, rfl, rfl⟩ :=
    scanHere_eq_some_iff.mp hs
  exact ⟨⟨before, hex, gap, predicate, mnemonic, after, hline, hhex, hg, hp, hm⟩, rfl, hstop, rfl⟩

end InstrMatch

/-- The scanner finds the leftmost match of the pattern, with the longest
mnemonic, and reports none only when no place of the line matches. -/
theorem scanInstr_pattern (line : Str) (h : ShortRuns line) : ScansPattern line := by
  have hscan : scanInstr line = .ok (scan line) := (scanInstr_spec line).2 h.not_overlongAddress
  constructor
  · intro r
    simp only [hscan, Except.ok.injEq]
    constructor
    · rintro ⟨x, hx, rfl⟩
      obtain ⟨before, s, hline, hs, hfirst⟩ := scan_eq_some_iff.mp hx
      obtain ⟨m, rfl, hlongest, rfl⟩ := InstrMatch.exists_of_scanHere hline hs
      refine ⟨m, fun m' ↦ ?_, hlongest, m.offsets_scan.symm⟩
      by_contra hlt
      exact m'.scanHere_ne_none (hfirst m'.before m'.here m'.spelled (Nat.lt_of_not_le hlt))
    · rintro ⟨m, hleft, hlongest, rfl⟩
      refine ⟨m.scan, scan_eq_some_iff.mpr ⟨m.before, m.here, m.spelled, ?_, ?_⟩, m.offsets_scan⟩
      · exact m.scanHere_of_longest hlongest
      · intro before s hline hlt
        by_contra hsome
        obtain ⟨x, hx⟩ := Option.ne_none_iff_exists'.mp hsome
        obtain ⟨m', rfl, -⟩ := InstrMatch.exists_of_scanHere hline hx
        exact Nat.not_le_of_lt hlt (hleft m')
  · rw [hscan, Except.ok.injEq, scan_eq_none_iff]
    constructor
    · intro hnone
      exact ⟨fun m ↦ m.scanHere_ne_none (hnone m.before m.here m.spelled)⟩
    · rintro hempty before s hline
      by_contra hsome
      obtain ⟨x, hx⟩ := Option.ne_none_iff_exists'.mp hsome
      obtain ⟨m, -⟩ := InstrMatch.exists_of_scanHere hline hx
      exact hempty.false m

/-- A line of at most twenty characters has no longer run. -/
theorem shortRuns_of_length_le {line : Str} (h : line.length ≤ 20) : ShortRuns line := by
  rintro before hex after rfl -
  have hopen : (lit "/*").length = 2 := rfl
  have hclose : (lit "*/").length = 2 := rfl
  simp only [List.length_append, hopen, hclose] at h
  omega

theorem scanInstr_pattern_negated : ScansPattern "/*0010*/ @!P0 FADD;" :=
  scanInstr_pattern "/*0010*/ @!P0 FADD;" (shortRuns_of_length_le (by decide))

example : scanInstr "/*0010*/ @UP0 MOV; /* 0x2 */ /*0020*/FMUL; /*0030*/ FADD R1;" =
    .ok (some ⟨0x30, "FADD R1;", "FADD"⟩) := by decide +kernel

end CalxMill.Nvidia
