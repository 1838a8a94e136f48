import CalxMill.Rust.Str

/-!
# Reading printed text back

What the string operations give on text of a known shape: a printed number is
parsed to itself, and joined pieces are split into the same pieces.
-/

namespace CalxMill.Rust

/-! ## White space at the ends -/

theorem isWhitespace_of_isDigit {c : Char} (h : c.isDigit) : isWhitespace c = false := by
  have hrange : 48 ≤ c.toNat ∧ c.toNat ≤ 57 := by
    simpa [Char.isDigit, UInt32.le_iff_toNat_le] using h
  simp only [isWhitespace]
  grind

theorem trimStart_eq_self {s : Str} (h : ∀ c ∈ s.head?, isWhitespace c = false) :
    trimStart s = s := by
  cases s with
  | nil => rfl
  | cons c s => exact List.dropWhile_cons_of_neg (by simp [h c rfl])

theorem trimStart_append {w : Str} (hw : w.all isWhitespace) (s : Str) :
    trimStart (w ++ s) = trimStart s :=
  List.dropWhile_append_of_pos (List.all_eq_true.mp hw)

theorem trim_eq_self {s : Str} (hhead : ∀ c ∈ s.head?, isWhitespace c = false)
    (hlast : ∀ c ∈ s.getLast?, isWhitespace c = false) : trim s = s := by
  rw [trim, trimStart_eq_self hhead, List.rdropWhile_eq_self_iff]
  intro hne
  rw [hlast _ (List.getLast?_eq_some_getLast hne)]
  exact Bool.false_ne_true

/-- The end of a text is the end of its last piece. -/
theorem trim_append_eq_self {s t : Str} {c : Char}
    (hhead : ∀ d ∈ (s ++ t).head?, isWhitespace d = false) (hlast : t.getLast? = some c)
    (hc : isWhitespace c = false) : trim (s ++ t) = s ++ t := by
  have hne : t ≠ [] := List.getLast?_isSome.mp (Option.isSome_of_eq_some hlast)
  apply trim_eq_self hhead
  intro d hd
  rw [List.getLast?_append_of_ne_nil _ hne, hlast, Option.mem_some_iff] at hd
  exact hd ▸ hc

theorem trim_append {w : Str} (hw : w.all isWhitespace) (s : Str) : trim (w ++ s) = trim s := by
  rw [trim, trimStart_append hw, trim]

/-- A trimmed text starts as the text does. -/
theorem head?_trim {s : Str} (h : ∀ c ∈ s.head?, isWhitespace c = false) :
    (trim s).head? = s.head? := by
  rw [trim, trimStart_eq_self h]
  cases s with
  | nil => rfl
  | cons c s =>
      have hprefix := List.rdropWhile_prefix isWhitespace (c :: s)
      cases hdrop : (c :: s).rdropWhile isWhitespace with
      | nil =>
          have hall := List.rdropWhile_eq_nil_iff.mp hdrop c List.mem_cons_self
          rw [h c rfl] at hall
          cases hall
      | cons d t =>
          rw [hdrop] at hprefix
          obtain ⟨u, hu⟩ := hprefix
          exact congrArg some (List.cons.inj hu).1

/-- White space around a text that neither starts nor ends with some. -/
theorem trim_append_append {w s w' : Str} (hw : w.all isWhitespace) (hw' : w'.all isWhitespace)
    (hne : s ≠ []) (hhead : ∀ c ∈ s.head?, isWhitespace c = false)
    (hlast : ∀ c ∈ s.getLast?, isWhitespace c = false) : trim (w ++ (s ++ w')) = s := by
  have hstart : ∀ c ∈ (s ++ w').head?, isWhitespace c = false := by
    rw [List.head?_append_of_ne_nil _ hne]
    exact hhead
  have hdrop : (s ++ w').rdropWhile isWhitespace = s.rdropWhile isWhitespace := by
    have hall : ∀ c ∈ w'.reverse, isWhitespace c = true := by
      intro c hc
      exact List.all_eq_true.mp hw' c (List.mem_reverse.mp hc)
    rw [List.rdropWhile, List.reverse_append, List.dropWhile_append_of_pos hall, List.rdropWhile]
  have hself := trim_eq_self hhead hlast
  rw [trim, trimStart_eq_self hhead] at hself
  rw [trim_append hw, trim, trimStart_eq_self hstart, hdrop, hself]

/-! ## Words -/

/-- A white space character separates the words on its sides. -/
theorem splitWhitespace_append_cons {c : Char} (hc : isWhitespace c = true) (s t : Str) :
    splitWhitespace (s ++ c :: t) = splitWhitespace s ++ splitWhitespace t := by
  rw [splitWhitespace, List.splitOnP_append_cons s t hc, List.filter_append]
  rfl

theorem splitWhitespace_eq_nil {w : Str} (h : ∀ c ∈ w, isWhitespace c = true) :
    splitWhitespace w = [] := by
  induction w with
  | nil => rfl
  | cons c w ih =>
      have hc := splitWhitespace_append_cons (h c List.mem_cons_self) [] w
      rw [List.nil_append] at hc
      rw [hc, ih fun d hd ↦ h d (List.mem_cons_of_mem c hd)]
      rfl

theorem splitWhitespace_word {w : Str} (hne : w ≠ []) (h : ∀ c ∈ w, isWhitespace c = false) :
    splitWhitespace w = [w] := by
  rw [splitWhitespace, List.splitOnP_eq_singleton h]
  simp [hne]

/-- White space between two texts separates their words. -/
theorem splitWhitespace_append_gap {w : Str} (hne : w ≠ [])
    (h : ∀ c ∈ w, isWhitespace c = true) (s t : Str) :
    splitWhitespace (s ++ (w ++ t)) = splitWhitespace s ++ splitWhitespace t := by
  induction w generalizing s with
  | nil => exact absurd rfl hne
  | cons c w ih =>
      have hc := h c List.mem_cons_self
      by_cases hw : w = []
      · subst hw
        exact splitWhitespace_append_cons hc s t
      · have hrest := ih hw (fun d hd ↦ h d (List.mem_cons_of_mem c hd)) (s ++ [c])
        have hempty : splitWhitespace (s ++ [c]) = splitWhitespace s := by
          rw [splitWhitespace_append_cons hc, splitWhitespace_eq_nil (w := []) (by simp),
            List.append_nil]
        rwa [hempty, List.append_assoc] at hrest

theorem splitWhitespace_append_whitespace {w : Str} (h : ∀ c ∈ w, isWhitespace c = true)
    (s : Str) : splitWhitespace (s ++ w) = splitWhitespace s := by
  by_cases hw : w = []
  · rw [hw, List.append_nil]
  · have hgap := splitWhitespace_append_gap hw h s []
    have hempty : splitWhitespace [] = [] := rfl
    rwa [hempty, List.append_nil, List.append_nil] at hgap

/-- A text that starts with a word. -/
theorem splitWhitespace_cons {c : Char} (hc : isWhitespace c = false) (s : Str) :
    splitWhitespace (c :: s) = (c :: s.takeWhile (!isWhitespace ·)) ::
      splitWhitespace (s.dropWhile (!isWhitespace ·)) := by
  have hword : splitWhitespace (c :: s.takeWhile (!isWhitespace ·)) =
      [c :: s.takeWhile (!isWhitespace ·)] := by
    apply splitWhitespace_word (List.cons_ne_nil _ _)
    intro d hd
    rcases List.mem_cons.mp hd with rfl | hd
    · exact hc
    · simpa using List.mem_takeWhile_imp hd
  have hsplit : c :: s = (c :: s.takeWhile (!isWhitespace ·)) ++ s.dropWhile (!isWhitespace ·) := by
    rw [List.cons_append, List.takeWhile_append_dropWhile]
  cases hdrop : s.dropWhile (!isWhitespace ·) with
  | nil =>
      rw [hdrop, List.append_nil] at hsplit
      rw [hsplit, hword]
      rfl
  | cons d t =>
      have hd : isWhitespace d = true := by
        have hhead := List.head?_dropWhile_not (!isWhitespace ·) s
        rw [hdrop] at hhead
        simpa using hhead
      have hgap := splitWhitespace_append_cons hd [] t
      rw [List.nil_append, splitWhitespace_eq_nil (w := []) (by simp), List.nil_append] at hgap
      rw [hsplit, hdrop, splitWhitespace_append_cons hd, hword, hgap]
      rfl

/-- No piece of a split holds a separator. -/
theorem not_of_mem_splitOnP {α : Type*} {p : α → Bool} {s w : List α} (h : w ∈ s.splitOnP p) :
    ∀ a ∈ w, p a = false := by
  induction s generalizing w with
  | nil =>
      rw [List.splitOnP_nil, List.mem_singleton] at h
      simp [h]
  | cons b s ih =>
      rw [List.splitOnP_cons_eq_if_modifyHead] at h
      split at h
      · rcases List.mem_cons.mp h with rfl | h
        · simp
        · exact ih h
      · next hb =>
          obtain ⟨u, us, hsplit⟩ := List.exists_cons_of_ne_nil (List.splitOnP_ne_nil p s)
          rw [hsplit] at h ih
          rw [List.modifyHead_cons] at h
          rcases List.mem_cons.mp h with rfl | h
          · intro a ha
            rcases List.mem_cons.mp ha with rfl | ha
            · simpa using hb
            · exact ih List.mem_cons_self a ha
          · exact ih (List.mem_cons_of_mem _ h)

theorem not_isWhitespace_of_mem_word {s w : Str} (h : w ∈ splitWhitespace s) {c : Char}
    (hc : c ∈ w) : isWhitespace c = false :=
  not_of_mem_splitOnP (List.mem_filter.mp h).1 c hc

theorem splitWhitespace_trim {s : Str} (h : ∀ c ∈ s.head?, isWhitespace c = false) :
    splitWhitespace (trim s) = splitWhitespace s := by
  have hend := List.rdropWhile_append_rtakeWhile (p := isWhitespace) (l := s)
  rw [trim, trimStart_eq_self h]
  nth_rewrite 2 [← hend]
  rw [splitWhitespace_append_whitespace]
  exact fun c hc ↦ List.mem_rtakeWhile_imp hc

/-! ## Numbers -/

theorem natStr_ne_nil (n : ℕ) : natStr n ≠ [] := Nat.toDigits_ne_nil

theorem isDigit_of_mem_natStr {n : ℕ} {c : Char} (h : c ∈ natStr n) : c.isDigit :=
  Nat.isDigit_of_mem_toDigits (by decide) (by decide) h

theorem not_mem_natStr {n : ℕ} {c : Char} (h : c.isDigit = false) : c ∉ natStr n := by
  intro hc
  rw [isDigit_of_mem_natStr hc] at h
  cases h

theorem isDigit_of_mem_head?_natStr_append {n : ℕ} {s : Str} :
    ∀ c ∈ (natStr n ++ s).head?, c.isDigit := by
  intro c hc
  obtain ⟨d, ds, hds⟩ := List.exists_cons_of_ne_nil (natStr_ne_nil n)
  rw [hds, List.cons_append, List.head?_cons, Option.mem_some_iff] at hc
  subst hc
  exact isDigit_of_mem_natStr (hds ▸ List.mem_cons_self)

theorem not_prefix_natStr_append {pat : Str} (hpat : pat.head?.any fun c ↦ !c.isDigit) (n : ℕ)
    (s : Str) : ¬ pat <+: natStr n ++ s := by
  rintro ⟨t, ht⟩
  obtain ⟨c, hc, hdigit⟩ := (Option.any_eq_true _ _).mp hpat
  have hhead : c ∈ (natStr n ++ s).head? := by
    rw [← ht, List.head?_append, hc]
    rfl
  rw [isDigit_of_mem_head?_natStr_append c hhead] at hdigit
  cases hdigit

theorem parseU64_natStr {n : ℕ} (h : n < 2 ^ 64) : parseU64 (natStr n) = some n := by
  have hplus : (natStr n).head? ≠ some '+' := fun h ↦
    not_mem_natStr (by decide) (List.mem_of_mem_head? h)
  have hvalue : Nat.ofDigitChars 10 (natStr n) 0 = n := Nat.ofDigitChars_ten_toDigits
  have hdigits : (natStr n).all Char.isDigit :=
    List.all_eq_true.mpr fun c hc ↦ isDigit_of_mem_natStr hc
  rw [parseU64, if_neg hplus, hvalue, if_pos ⟨natStr_ne_nil _, hdigits, h⟩]

theorem parseU32_natStr (n : UInt32) : parseU32 (natStr n.toNat) = some n := by
  have hplus : (natStr n.toNat).head? ≠ some '+' := fun h ↦
    not_mem_natStr (by decide) (List.mem_of_mem_head? h)
  have hvalue : Nat.ofDigitChars 10 (natStr n.toNat) 0 = n.toNat := Nat.ofDigitChars_ten_toDigits
  have hdigits : (natStr n.toNat).all Char.isDigit :=
    List.all_eq_true.mpr fun c hc ↦ isDigit_of_mem_natStr hc
  rw [parseU32, if_neg hplus, hvalue, if_pos ⟨natStr_ne_nil _, hdigits, n.toNat_lt⟩, UInt32.ofNat_toNat]

theorem trim_natStr_append (n : ℕ) {s : Str} {c : Char} (hs : s.getLast? = some c)
    (hc : isWhitespace c = false) : trim (natStr n ++ s) = natStr n ++ s := by
  apply trim_append_eq_self _ hs hc
  intro d hd
  exact isWhitespace_of_isDigit (isDigit_of_mem_head?_natStr_append d hd)

/-! ## Pieces -/

theorem splitOnce_append {c : Char} {p s : Str} (t : Str) (h : c ∉ s) :
    splitOnce (c :: p) (s ++ c :: p ++ t) = some (s, t) := by
  induction s with
  | nil =>
      have hdrop : (c :: p ++ t).dropPrefix? (c :: p) = some t := dropPrefix?_eq_some.mpr rfl
      rw [List.nil_append, List.cons_append, splitOnce, ← List.cons_append, hdrop]
  | cons x s ih =>
      have hne : ¬ (x == c) = true := fun hx ↦ h (eq_of_beq hx ▸ List.mem_cons_self)
      have hdrop : (x :: (s ++ c :: p ++ t)).dropPrefix? (c :: p) = none := by
        rw [List.dropPrefix?, if_neg hne]
      rw [List.cons_append, List.cons_append, splitOnce, hdrop,
        ih fun hs ↦ h (List.mem_cons_of_mem x hs), Option.map_some]

theorem splitCommaSpace_append {p : Str} (s : Str) (h : ',' ∉ p) :
    splitCommaSpace (p ++ ", " ++ s) = p :: splitCommaSpace s := by
  induction p with
  | nil => rfl
  | cons c p ih =>
      obtain ⟨hc, hp⟩ := not_or.mp (mt List.mem_cons.mpr h)
      rw [List.cons_append, List.cons_append, splitCommaSpace, ih hp, List.modifyHead_cons]
      rintro _ rfl
      exact absurd rfl hc

theorem splitCommaSpace_of_not_mem {p : Str} (h : ',' ∉ p) : splitCommaSpace p = [p] := by
  induction p with
  | nil => rfl
  | cons c p ih =>
      obtain ⟨hc, hp⟩ := not_or.mp (mt List.mem_cons.mpr h)
      rw [splitCommaSpace, ih hp, List.modifyHead_cons]
      rintro _ rfl
      exact absurd rfl hc

theorem splitCommaSpace_join {parts : List Str} (hne : parts ≠ []) (h : ∀ p ∈ parts, ',' ∉ p) :
    splitCommaSpace (join ", " parts) = parts := by
  induction parts with
  | nil => exact absurd rfl hne
  | cons p parts ih =>
      obtain ⟨hp, hparts⟩ := List.forall_mem_cons.mp h
      cases parts with
      | nil =>
          have hjoin : join ", " [p] = p := by simp [join]
          rw [hjoin, splitCommaSpace_of_not_mem hp]
      | cons q parts =>
          have hjoin : join ", " (p :: q :: parts) = p ++ ", " ++ join ", " (q :: parts) := by
            simp [join, List.intercalate]
          rw [hjoin, splitCommaSpace_append _ hp, ih (List.cons_ne_nil q parts) hparts]

theorem join_cons_cons (sep p q : Str) (parts : List Str) :
    join sep (p :: q :: parts) = p ++ (sep ++ join sep (q :: parts)) := by
  simp [join, List.intercalate]

theorem mem_join {sep : Str} {parts : List Str} {c : Char} (h : c ∈ join sep parts) :
    c ∈ sep ∨ ∃ p ∈ parts, c ∈ p := by
  induction parts with
  | nil => cases h
  | cons p parts ih =>
      cases parts with
      | nil =>
          have hone : join sep [p] = p := by simp [join]
          exact Or.inr ⟨p, List.mem_cons_self, hone ▸ h⟩
      | cons q parts =>
          rw [join_cons_cons] at h
          rcases List.mem_append.mp h with h | h
          · exact Or.inr ⟨p, List.mem_cons_self, h⟩
          · rcases List.mem_append.mp h with h | h
            · exact Or.inl h
            · rcases ih h with h | ⟨p', hp', h⟩
              · exact Or.inl h
              · exact Or.inr ⟨p', List.mem_cons_of_mem p hp', h⟩

theorem head?_join {sep p : Str} (hp : p ≠ []) (parts : List Str) :
    (join sep (p :: parts)).head? = p.head? := by
  cases parts with
  | nil => simp [join]
  | cons q parts => rw [join_cons_cons, List.head?_append_of_ne_nil _ hp]

theorem getLast?_join_append {sep p : Str} (hp : p ≠ []) (parts : List Str) :
    (join sep (parts ++ [p])).getLast? = p.getLast? := by
  induction parts with
  | nil => simp [join]
  | cons q parts ih =>
      obtain ⟨q', parts', hparts⟩ := List.exists_cons_of_ne_nil (l := parts ++ [p]) (by simp)
      have hne : join sep (parts ++ [p]) ≠ [] := by
        rw [← List.getLast?_isSome, ih]
        exact List.getLast?_isSome.mpr hp
      rw [List.cons_append]
      rw [hparts] at hne ih ⊢
      rw [join_cons_cons, ← List.append_assoc, List.getLast?_append_of_ne_nil _ hne, ih]

theorem mem_join_of_mem {sep p : Str} {parts : List Str} {c : Char} (hp : p ∈ parts) (hc : c ∈ p) :
    c ∈ join sep parts := by
  induction parts with
  | nil => cases hp
  | cons q parts ih =>
      cases parts with
      | nil =>
          rw [List.mem_singleton] at hp
          simpa [join, ← hp] using hc
      | cons q' parts =>
          rw [join_cons_cons]
          rcases List.mem_cons.mp hp with rfl | hp
          · exact List.mem_append_left _ hc
          · exact List.mem_append_right _ (List.mem_append_right _ (ih hp))

theorem getLast?_join {s : Str} {P : Char → Prop} {parts : List Str} (hne : parts ≠ [])
    (h : ∀ p ∈ parts, ∃ d, p.getLast? = some d ∧ P d) :
    ∃ d, (join s parts).getLast? = some d ∧ P d := by
  induction parts with
  | nil => exact absurd rfl hne
  | cons p parts ih =>
      obtain ⟨hp, hparts⟩ := List.forall_mem_cons.mp h
      cases parts with
      | nil =>
          have hjoin : join s [p] = p := by simp [join]
          rwa [hjoin]
      | cons q parts =>
          obtain ⟨d, hd, hP⟩ := ih (List.cons_ne_nil q parts) hparts
          have hjoin : join s (p :: q :: parts) = p ++ s ++ join s (q :: parts) := by
            simp [join, List.intercalate]
          have hrest : join s (q :: parts) ≠ [] :=
            List.getLast?_isSome.mp (Option.isSome_of_eq_some hd)
          exact ⟨d, by rw [hjoin, List.getLast?_append_of_ne_nil _ hrest, hd], hP⟩

theorem dropPrefix?_eq_none {pat s : Str} : s.dropPrefix? pat = none ↔ ¬ pat <+: s := by
  rw [Option.eq_none_iff_forall_ne_some]
  constructor
  · rintro h ⟨t, ht⟩
    exact h t (dropPrefix?_eq_some.mpr ht.symm)
  · exact fun h t ht ↦ h ⟨t, (dropPrefix?_eq_some.mp ht).symm⟩

theorem trimStartMatches_of_not_prefix {pat s : Str} (h : ¬ pat <+: s) :
    trimStartMatches pat s = s := by
  apply Function.iterate_fixed
  rw [dropPrefix?_eq_none.mpr h, Option.getD_none]

theorem trimStartMatches_append {pat s : Str} (hpat : pat ≠ []) (h : ¬ pat <+: s) :
    trimStartMatches pat (pat ++ s) = s := by
  obtain ⟨c, p, rfl⟩ := List.exists_cons_of_ne_nil hpat
  have hdrop : (c :: p ++ s).dropPrefix? (c :: p) = some s := dropPrefix?_eq_some.mpr rfl
  rw [trimStartMatches, List.cons_append, List.length_cons, Function.iterate_succ_apply,
    ← List.cons_append, hdrop, Option.getD_some]
  apply Function.iterate_fixed
  rw [dropPrefix?_eq_none.mpr h, Option.getD_none]

theorem suffix_append_iff {α : Type*} {a s t : List α} (h : a.length ≤ t.length) :
    a <:+ s ++ t ↔ a <:+ t :=
  ⟨fun hs ↦ List.suffix_of_suffix_length_le hs (List.suffix_append s t) h,
    List.suffix_append_of_suffix⟩

theorem not_suffix_of_getLast?_ne {α : Type*} {a s : List α} (ha : a ≠ [])
    (h : a.getLast? ≠ s.getLast?) : ¬ a <:+ s := by
  rintro ⟨t, rfl⟩
  exact h (List.getLast?_append_of_ne_nil t ha).symm

/-! ## Lines -/

/-- A line without the carriage return in front of its line feed. -/
def stripCr (l : Str) : Str := if l.getLast? = some '\r' then l.dropLast else l

theorem lines_append {a : Str} (h : '\n' ∉ a) (t : Str) :
    lines (a ++ '\n' :: t) = stripCr a :: lines t := by
  have hne : t.splitOn '\n' ≠ [] := List.splitOn_ne_nil _ _
  have hlast : (a :: t.splitOn '\n').getLastD [] = (t.splitOn '\n').getLastD [] := by
    obtain ⟨b, bs, hb⟩ := List.exists_cons_of_ne_nil hne
    rw [hb, List.getLastD_cons, List.getLastD_cons, List.getLastD_cons]
  simp only [lines]
  rw [List.splitOn_append_cons_self_of_not_mem h, List.dropLast_cons_of_ne_nil hne, hlast]
  rfl

theorem mem_stripCr {l : Str} {c : Char} (h : c ∈ stripCr l) : c ∈ l := by
  rw [stripCr] at h
  split at h
  · exact List.mem_of_mem_dropLast h
  · exact h

/-- No piece of a split at a character holds it. -/
theorem not_mem_of_mem_splitOn {c : Char} {s w : Str} (h : w ∈ s.splitOn c) : c ∉ w := by
  rw [List.splitOn_eq_splitOnP] at h
  intro hc
  exact absurd (not_of_mem_splitOnP h c hc) (by simp)

theorem not_mem_of_mem_lines {s l : Str} (h : l ∈ lines s) : '\n' ∉ l := by
  simp only [lines] at h
  rcases List.mem_append.mp h with h | h
  · obtain ⟨p, hp, rfl⟩ := List.mem_map.mp h
    exact fun hc ↦ not_mem_of_mem_splitOn (List.mem_of_mem_dropLast hp) (mem_stripCr hc)
  · split at h
    · cases h
    · obtain rfl := List.mem_singleton.mp h
      have hne : s.splitOn '\n' ≠ [] := List.splitOn_ne_nil _ _
      rw [List.getLastD_eq_getLast?, List.getLast?_eq_some_getLast hne]
      exact not_mem_of_mem_splitOn (List.getLast_mem hne)

/-- The text with a line feed for every carriage return and line feed. -/
def crlfToLf : Str → Str
  | '\r' :: '\n' :: s => '\n' :: crlfToLf s
  | c :: s => c :: crlfToLf s
  | [] => []

theorem crlfToLf_crlf (s : Str) : crlfToLf ('\r' :: '\n' :: s) = '\n' :: crlfToLf s := by
  rw [crlfToLf]

theorem crlfToLf_cons {c : Char} {s : Str} (h : c ≠ '\r' ∨ s.head? ≠ some '\n') :
    crlfToLf (c :: s) = c :: crlfToLf s := by
  rw [crlfToLf]
  rintro t rfl rfl
  simp at h

theorem crlfToLf_append {a b : Str} (h : b.head? ≠ some '\n') :
    crlfToLf (a ++ b) = crlfToLf a ++ crlfToLf b := by
  fun_induction crlfToLf a with
  | case1 s ih => rw [List.cons_append, List.cons_append, crlfToLf_crlf, ih, List.cons_append]
  | case2 c s hs ih =>
      have hhead : c ≠ '\r' ∨ (s ++ b).head? ≠ some '\n' := by
        cases s with
        | nil => exact Or.inr h
        | cons d s =>
            by_contra hboth
            obtain ⟨hc, hd⟩ := not_or.mp hboth
            exact hs s (not_not.mp hc) (by simpa using hd)
      rw [List.cons_append, crlfToLf_cons hhead, ih, List.cons_append]
  | case3 => rfl

theorem crlfToLf_of_not_mem {s : Str} (h : '\n' ∉ s) : crlfToLf s = s := by
  induction s with
  | nil => rfl
  | cons c s ih =>
      have hs : '\n' ∉ s := List.not_mem_of_not_mem_cons h
      have hhead : s.head? ≠ some '\n' := fun hmem ↦ hs (List.mem_of_mem_head? hmem)
      rw [crlfToLf_cons (Or.inr hhead), ih hs]

theorem crlfToLf_append_lf {a : Str} (h : '\n' ∉ a) (t : Str) :
    crlfToLf (a ++ '\n' :: t) = stripCr a ++ '\n' :: crlfToLf t := by
  rw [stripCr]
  split
  next hcr =>
    obtain ⟨b, rfl⟩ := List.getLast?_eq_some_iff.mp hcr
    have hb : '\n' ∉ b := fun hmem ↦ h (List.mem_append_left _ hmem)
    have hrest : b ++ ['\r'] ++ '\n' :: t = b ++ '\r' :: '\n' :: t := by simp
    rw [hrest, crlfToLf_append (by simp), crlfToLf_of_not_mem hb, crlfToLf_crlf, List.dropLast_concat]
  next hcr =>
    induction a with
    | nil => exact crlfToLf_cons (Or.inl (by decide))
    | cons c a ih =>
        have ha : '\n' ∉ a := List.not_mem_of_not_mem_cons h
        have hhead : c ≠ '\r' ∨ (a ++ '\n' :: t).head? ≠ some '\n' := by
          cases a with
          | nil => exact Or.inl fun hc ↦ hcr (hc ▸ rfl)
          | cons d a => exact Or.inr fun hd ↦ ha (Option.some.inj hd ▸ List.mem_cons_self)
        have hlast : a.getLast? ≠ some '\r' := by
          intro hlast
          exact hcr (by rw [List.getLast?_cons, hlast, Option.getD_some])
        rw [List.cons_append, crlfToLf_cons hhead, ih ha hlast, List.cons_append]

/-- Each line of a text that ends with a line feed, with a line feed behind it. -/
theorem flatMap_lines {s : Str} (h : s = [] ∨ s.getLast? = some '\n') :
    (lines s).flatMap (· ++ ['\n']) = crlfToLf s := by
  induction hn : s.length using Nat.strong_induction_on generalizing s with
  | h n ih =>
    subst hn
    rcases h with rfl | h
    · rfl
    · obtain ⟨a, t, rfl, ha⟩ := List.eq_append_cons_of_mem (List.mem_of_getLast? h)
      have hrest : t = [] ∨ t.getLast? = some '\n' := by
        cases t with
        | nil => exact Or.inl rfl
        | cons c t => exact Or.inr (by simpa using h)
      have hlength : t.length < (a ++ '\n' :: t).length := by
        rw [List.length_append, List.length_cons]
        omega
      rw [lines_append ha, crlfToLf_append_lf ha, List.flatMap_cons, ih _ hlength hrest rfl]
      simp

theorem join_append (sep : Str) {parts : List Str} (h : parts ≠ []) :
    join sep parts ++ sep = parts.flatMap (· ++ sep) := by
  induction parts with
  | nil => exact absurd rfl h
  | cons p parts ih =>
      cases parts with
      | nil => simp [join]
      | cons q parts =>
          rw [join_cons_cons, List.flatMap_cons, ← ih (List.cons_ne_nil q parts)]
          simp

/-- Lines written one behind another, in front of a text. -/
theorem lines_flatMap_append {ls : List Str} (h : ∀ l ∈ ls, '\n' ∉ l) (t : Str) :
    lines (ls.flatMap (· ++ ['\n']) ++ t) = ls.map stripCr ++ lines t := by
  induction ls with
  | nil => rfl
  | cons l ls ih =>
      obtain ⟨hl, hls⟩ := List.forall_mem_cons.mp h
      have hsplit : (l :: ls).flatMap (· ++ ['\n']) ++ t =
          l ++ '\n' :: (ls.flatMap (· ++ ['\n']) ++ t) := by
        simp
      rw [hsplit, lines_append hl, ih hls, List.map_cons, List.cons_append]

/-- A text of whole lines in front of another. -/
theorem lines_append_wholeLines {a : Str} (h : a = [] ∨ a.getLast? = some '\n') (b : Str) :
    lines (a ++ b) = lines a ++ lines b := by
  induction hn : a.length using Nat.strong_induction_on generalizing a with
  | h n ih =>
    subst hn
    rcases h with rfl | h
    · rfl
    · obtain ⟨l, t, rfl, hl⟩ := List.eq_append_cons_of_mem (List.mem_of_getLast? h)
      have hrest : t = [] ∨ t.getLast? = some '\n' := by
        cases t with
        | nil => exact Or.inl rfl
        | cons c t => exact Or.inr (by simpa using h)
      have hlength : t.length < (l ++ '\n' :: t).length := by
        rw [List.length_append, List.length_cons]
        omega
      have hsplit : (l ++ '\n' :: t) ++ b = l ++ '\n' :: (t ++ b) := by simp
      rw [hsplit, lines_append hl, lines_append hl, ih _ hlength hrest rfl, List.cons_append]

theorem mem_of_mem_trim {s : Str} {c : Char} (h : c ∈ trim s) : c ∈ s :=
  (List.dropWhile_suffix _).subset ((List.rdropWhile_prefix _ _).subset h)

end CalxMill.Rust
