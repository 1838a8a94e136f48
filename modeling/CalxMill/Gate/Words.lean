import CalxMill.Gate.Outcomes

/-!
# Gate command lines

The splitter hands out the words of a command line in one pass.  `editWords`
walks a line the same way and rewrites or drops the value flags, so that two
runs on related lines can be compared; `WellFormed` is the shape of line that
the usage text documents.
-/

namespace CalxMill.Gate

open Lib Rust

/-- The flag that the splitter opens at a word, if that flag takes a value. -/
def valueFlag (a : Str) : Option Str :=
  match a.dropPrefix? (lit "--") with
  | some name => if name ∈ gateFlags then some name else none
  | none => if a = lit "-o" then some (lit "o") else none

/-- What the splitter makes of any other word. -/
def bareWord (a : Str) (args : Args) : Args :=
  match a.dropPrefix? (lit "--") with
  | some name => args.consFlag name none
  | none => args.consPositional a

def missingValue (a : Str) : Str :=
  match a.dropPrefix? (lit "--") with
  | some name => "--" ++ name ++ " needs a value"
  | none => "-o needs a value"

theorem parse_cons_bare {a : Str} (h : valueFlag a = none) (rest : List Str) :
    Args.parse gateFlags (a :: rest) = (Args.parse gateFlags rest).map (bareWord a) := by
  rw [valueFlag] at h
  rw [Args.parse.eq_def]
  cases hd : a.dropPrefix? (lit "--") with
  | some name =>
      have hn : name ∉ gateFlags := by simpa [hd] using h
      have hw : bareWord a = Args.consFlag name none := by
        funext args
        simp [bareWord, hd]
      simp only [hd, hn, if_false, hw]
  | none =>
      have ho : a ≠ lit "-o" := by simpa [hd] using h
      have hw : bareWord a = Args.consPositional a := by
        funext args
        simp [bareWord, hd]
      simp only [hd, ho, if_false, hw]

theorem parse_cons_value {a k : Str} (h : valueFlag a = some k) (v : Str) (rest : List Str) :
    Args.parse gateFlags (a :: v :: rest) =
      (Args.parse gateFlags rest).map (Args.consFlag k (some v)) := by
  rw [valueFlag] at h
  cases hd : a.dropPrefix? (lit "--") with
  | some name =>
      obtain ⟨hn, rfl⟩ : name ∈ gateFlags ∧ name = k := by simpa [hd] using h
      simp [Args.parse, hd, hn]
  | none =>
      obtain ⟨rfl, rfl⟩ : a = lit "-o" ∧ lit "o" = k := by simpa [hd] using h
      simp [Args.parse, hd]

theorem parse_singleton_value {a k : Str} (h : valueFlag a = some k) :
    Args.parse gateFlags [a] = Exec.err (missingValue a) := by
  rw [valueFlag] at h
  cases hd : a.dropPrefix? (lit "--") with
  | some name =>
      obtain ⟨hn, rfl⟩ : name ∈ gateFlags ∧ name = k := by simpa [hd] using h
      simp [Args.parse, missingValue, hd, hn]
  | none =>
      obtain ⟨rfl, rfl⟩ : a = lit "-o" ∧ lit "o" = k := by simpa [hd] using h
      simp [Args.parse, missingValue, hd]

/-- A flag is still waiting for its value when the words run out. -/
def dangling : List Str → Bool
  | [] => false
  | a :: rest =>
      if (valueFlag a).isSome then
        match rest with
        | [] => true
        | _ :: rest => dangling rest
      else dangling rest

/-- A word that opens a flag where the splitter looks for one. -/
def isFlag (a : Str) : Bool := lit "--" <+: a ∨ a = lit "-o"

/-- A flag took another flag for its value. -/
def swallows : List Str → Bool
  | [] => false
  | a :: rest =>
      if (valueFlag a).isSome then
        match rest with
        | [] => false
        | v :: rest => isFlag v || swallows rest
      else swallows rest

/-- A flag was given without its value: behind it comes another flag, or
nothing. -/
def MissingValue (rest : List Str) : Prop := dangling rest = true ∨ swallows rest = true

/-- The documented shape of a command line: known flags, each followed by
its value, which is no flag. -/
inductive WellFormed : List Str → Prop where
  | nil : WellFormed []
  | cons {name v : Str} {rest : List Str} (hname : name ∈ gateFlags) (hv : isFlag v = false)
      (hrest : WellFormed rest) : WellFormed ((lit "--" ++ name) :: v :: rest)

theorem swallows_cons_value {a k : Str} (h : valueFlag a = some k) (v : Str) (rest : List Str) :
    swallows (a :: v :: rest) = (isFlag v || swallows rest) := by
  rw [swallows.eq_def]
  simp [h]

/-- Replace the value of each value flag, or drop the flag with its value. -/
def editWords (g : Str → Str → Option Str) : List Str → List Str
  | [] => []
  | a :: rest =>
      match valueFlag a with
      | some k =>
          match rest with
          | [] => [a]
          | v :: rest =>
              match g k v with
              | some v' => a :: v' :: editWords g rest
              | none => editWords g rest
      | none => a :: editWords g rest

def editFlag (g : Str → Str → Option Str) : Str × Option Str → Option (Str × Option Str)
  | (k, none) => some (k, none)
  | (k, some v) => (g k v).map fun v' ↦ (k, some v')

def editArgs (g : Str → Str → Option Str) (args : Args) : Args :=
  { args with flags := args.flags.filterMap (editFlag g) }

theorem parse_fails_iff (rest : List Str) :
    (Args.parse gateFlags rest).Fails ↔ dangling rest = true := by
  fun_induction dangling rest with
  | case1 => simp [Args.parse]
  | case2 a ha =>
      obtain ⟨k, hk⟩ := Option.isSome_iff_exists.mp ha
      simp [parse_singleton_value hk]
  | case3 a ha v rest ih =>
      obtain ⟨k, hk⟩ := Option.isSome_iff_exists.mp ha
      rw [parse_cons_value hk, ← ih]
      exact Exec.fails_map
  | case4 a rest ha ih =>
      rw [parse_cons_bare (by simpa using ha), ← ih]
      exact Exec.fails_map

theorem valueFlag_eq_some {a k : Str} :
    valueFlag a = some k ↔
      (k ∈ gateFlags ∧ a = lit "--" ++ k) ∨ (a = lit "-o" ∧ k = lit "o") := by
  have hdash (name : Str) : lit "-o" ≠ lit "--" ++ name := by simp [lit]
  rw [valueFlag]
  cases hd : a.dropPrefix? (lit "--") with
  | some name =>
      obtain rfl := dropPrefix?_eq_some.mp hd
      have ho : lit "--" ++ name ≠ lit "-o" := (hdash name).symm
      by_cases hn : name ∈ gateFlags
      · simp only [hn, if_true, Option.some.injEq, List.append_cancel_left_eq, ho, false_and,
          or_false]
        exact ⟨fun h ↦ ⟨h ▸ hn, h⟩, fun h ↦ h.2⟩
      · simp only [hn, if_false, reduceCtorEq, List.append_cancel_left_eq, ho, false_and,
          or_false, false_iff, not_and]
        exact fun hk h ↦ hn (h ▸ hk)
  | none =>
      have ha : a ≠ lit "--" ++ k := by
        intro h
        rw [dropPrefix?_eq_some.mpr h] at hd
        cases hd
      simp only [ha, and_false, false_or]
      split
      · next h => simp [h, eq_comm]
      · next h => simp [h]

/-- A split line has the documented shape when every flag has a value, none is
`-o`, no word is left over, and no value is a flag. -/
theorem wellFormed_iff {rest : List Str} : ∀ {args : Args},
    Args.parse gateFlags rest = .ok args →
    (WellFormed rest ↔
      ((∀ f ∈ args.flags, f.2 ≠ none ∧ f.1 ≠ lit "o") ∧ args.positional = []) ∧
        swallows rest = false) := by
  have hcons {name v : Str} {rest : List Str} :
      WellFormed ((lit "--" ++ name) :: v :: rest) ↔
        name ∈ gateFlags ∧ isFlag v = false ∧ WellFormed rest := by
    constructor
    · intro h
      generalize hw : lit "--" ++ name = w at h
      cases h with
      | cons hname hv hrest =>
          obtain rfl := List.append_cancel_left hw
          exact ⟨hname, hv, hrest⟩
    · exact fun h ↦ .cons h.1 h.2.1 h.2.2
  have hno : lit "o" ∉ gateFlags := by decide
  fun_induction dangling rest with
  | case1 =>
      intro args h
      cases h
      simp [WellFormed.nil, Args.nil, swallows]
  | case2 a ha =>
      intro args h
      obtain ⟨k, hk⟩ := Option.isSome_iff_exists.mp ha
      rw [parse_singleton_value hk] at h
      cases h
  | case3 a ha v rest ih =>
      intro args h
      obtain ⟨k, hk⟩ := Option.isSome_iff_exists.mp ha
      rw [parse_cons_value hk] at h
      obtain ⟨args', hargs', rfl⟩ := Exec.map_eq_ok.mp h
      rw [swallows_cons_value hk]
      rcases valueFlag_eq_some.mp hk with ⟨hname, rfl⟩ | ⟨rfl, rfl⟩
      · have hk : k ≠ lit "o" := fun h ↦ hno (h ▸ hname)
        rw [hcons, ih hargs', Bool.or_eq_false_iff]
        simp only [Args.consFlag, List.forall_mem_cons, ne_eq, reduceCtorEq, not_false_eq_true,
          hk, hname, and_self, true_and]
        exact and_left_comm
      · simp only [Args.consFlag, List.forall_mem_cons, ne_eq, not_true, and_false, false_and,
          iff_false]
        intro h
        cases h
  | case4 a rest ha ih =>
      intro args h
      rw [parse_cons_bare (by simpa using ha)] at h
      obtain ⟨args', hargs', rfl⟩ := Exec.map_eq_ok.mp h
      constructor
      · intro h
        cases h with
        | cons hname hv hrest =>
            exact absurd (valueFlag_eq_some.mpr (Or.inl ⟨hname, rfl⟩)) (by simp_all)
      · intro h
        rw [bareWord] at h
        cases hd : a.dropPrefix? (lit "--") with
        | some name => simp [hd, Args.consFlag] at h
        | none => simp [hd, Args.consPositional] at h

theorem WellFormed.not_missingValue {rest : List Str} (h : WellFormed rest) :
    ¬ MissingValue rest := by
  rintro (hdangling | hswallows)
  · induction h with
    | nil => cases hdangling
    | @cons name v rest hname hv _ ih =>
        have hflag := valueFlag_eq_some.mpr (Or.inl ⟨hname, rfl⟩)
        apply ih
        simpa [dangling, hflag] using hdangling
  · induction h with
    | nil => cases hswallows
    | @cons name v rest hname hv _ ih =>
        rw [swallows_cons_value (valueFlag_eq_some.mpr (Or.inl ⟨hname, rfl⟩)), hv,
          Bool.false_or] at hswallows
        exact ih hswallows

/-- Editing the line edits the split flags and nothing else. -/
theorem parse_editWords (g : Str → Str → Option Str) (rest : List Str) :
    Args.parse gateFlags (editWords g rest) = (Args.parse gateFlags rest).map (editArgs g) := by
  fun_induction editWords g rest with
  | case1 => rfl
  | case2 a k hk =>
      rw [parse_singleton_value hk]
      rfl
  | case3 a k hk v rest v' hg ih =>
      rw [parse_cons_value hk, parse_cons_value hk, ih]
      cases Args.parse gateFlags rest with
      | error e => rfl
      | ok args => simp [Except.map, editArgs, Args.consFlag, editFlag, hg]
  | case4 a k hk v rest hg ih =>
      rw [parse_cons_value hk, ih]
      cases Args.parse gateFlags rest with
      | error e => rfl
      | ok args => simp [Except.map, editArgs, Args.consFlag, editFlag, hg]
  | case5 a rest hk ih =>
      rw [parse_cons_bare hk, parse_cons_bare hk, ih]
      cases Args.parse gateFlags rest with
      | error e => rfl
      | ok args =>
          simp only [Except.map, bareWord]
          cases a.dropPrefix? (lit "--") <;>
            simp [editArgs, Args.consFlag, Args.consPositional, editFlag]

/-! ## Lookups after an edit -/

section Lookup

variable {g : Str → Str → Option Str} {name : Str}

theorem find?_editFlag (hg : ∀ v, g name v = some v) (flags : List (Str × Option Str)) :
    (flags.filterMap (editFlag g)).find? (·.1 = name) = flags.find? (·.1 = name) := by
  induction flags with
  | nil => rfl
  | cons f flags ih =>
      obtain ⟨k, v⟩ := f
      by_cases hk : k = name
      · subst hk
        cases v <;> simp [editFlag, hg]
      · cases v with
        | none => simp [editFlag, hk, ih]
        | some v => cases hv : g k v <;> simp [editFlag, hk, hv, ih]

/-- A flag the edit leaves alone is read as before. -/
theorem value_editArgs (hg : ∀ v, g name v = some v) (args : Args) :
    (editArgs g args).value name = args.value name := by
  simp only [Args.value, editArgs, find?_editFlag hg]

theorem has_editArgs (hg : ∀ v, g name v = some v) (args : Args) :
    (editArgs g args).has name = args.has name := by
  have hany (a : Args) : a.has name = (a.flags.find? (·.1 = name)).isSome := by
    rw [Args.has, Bool.eq_iff_iff]
    simp
  rw [hany, hany]
  simp only [editArgs, find?_editFlag hg]

theorem checkShape_editArgs (args : Args) : checkShape (editArgs g args) = checkShape args := by
  have hfind (flags : List (Str × Option Str)) :
      (flags.filterMap (editFlag g)).find? (·.2.isNone) = flags.find? (·.2.isNone) := by
    induction flags with
    | nil => rfl
    | cons f flags ih =>
        obtain ⟨k, v⟩ := f
        cases v with
        | none => simp [editFlag]
        | some v => cases hv : g k v <;> simp [editFlag, hv, ih]
  simp only [checkShape, editArgs, hfind]

end Lookup

/-! ## Editing one flag -/

/-- Every occurrence of the flag gets the value `v`, or goes away. -/
def setFlag (name : Str) (v : Option Str) : Str → Str → Option Str :=
  fun k w ↦ if k = name then v else some w

theorem setFlag_of_ne {name k : Str} (h : k ≠ name) (v : Option Str) (w : Str) :
    setFlag name v k w = some w := if_neg h

/-- What the edited flag reads afterwards. -/
theorem value_setFlag (name : Str) (v : Option Str) (args : Args) :
    (editArgs (setFlag name v) args).value name = (args.value name).bind fun _ ↦ v := by
  obtain ⟨positional, flags⟩ := args
  simp only [Args.value, editArgs]
  induction flags with
  | nil => rfl
  | cons f flags ih =>
      obtain ⟨k, w⟩ := f
      by_cases hk : k = name
      · subst hk
        cases w with
        | none => simp [editFlag]
        | some w =>
            cases v with
            | none => simpa [editFlag, setFlag] using ih
            | some v => simp [editFlag, setFlag]
      · cases w with
        | none => simpa [editFlag, hk] using ih
        | some w => simpa [editFlag, setFlag, hk] using ih

end CalxMill.Gate
