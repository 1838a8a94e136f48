import CalxMill.Gate.Outcomes

/-!
# Operator errors

The mistakes that stop the arbiter before it adjudicates, listed as the
operator sees them.  Each list is complete: its stage fails exactly when one
of its mistakes was made.
-/

namespace CalxMill.Gate

open Lib Rust

/-- An `--at` text with a part that is not `key=value`, or with no part. -/
def MalformedQuery (at' : Str) : Prop :=
  (∃ part ∈ at'.splitOn ',', part ≠ [] ∧ '=' ∉ part) ∨ ∀ part ∈ at'.splitOn ',', part = []

inductive RegistryError (fs : FileSystem) (args : Args) : Prop where
  | conflict (flag : Str) (hflag : flag ∈ conflicting) (hhas : args.has flag = true)
  | missing (flag : Str) (hflag : flag ∈ [lit "registry", lit "anchor-id", lit "at"])
      (hvalue : args.value flag = none)
  | unreadable (file e : Str) (hfile : args.value "registry" = some file)
      (hread : fs file = .error e)
  | malformed (file text : Str) (hfile : args.value "registry" = some file)
      (hread : fs file = .ok text) (hrows : (parseRegistry text).Fails)
  | unknownId (file text id : Str) (rows : List AnchorRow)
      (hfile : args.value "registry" = some file) (hread : fs file = .ok text)
      (hrows : parseRegistry text = .ok rows) (hid : args.value "anchor-id" = some id)
      (hnone : ∀ row ∈ rows, row.id ≠ id)
  | badQuery (at' : Str) (hat : args.value "at" = some at') (hquery : MalformedQuery at')
  | badFit (s : Str) (hs : args.value "fit-override" = some s) (hfit : parseFit s = none)

/-- A tolerance text that is not a number, or a negative one. -/
def BadTol (t : Str) : Prop := ∀ x, F64.parse t = some x → x < 0

inductive ManualError (args : Args) : Prop where
  | anchor (h : (args.value "anchor").bind F64.parse = none)
  | noTol (h : args.value "tol" = none) (h' : args.value "tol-rel" = none)
  | twoTols (h : args.value "tol" ≠ none) (h' : args.value "tol-rel" ≠ none)
  | badTol (flag t : Str) (hflag : flag ∈ [lit "tol", lit "tol-rel"])
      (ht : args.value flag = some t) (hbad : BadTol t)
  | fit (h : (args.value "fit-override").bind parseFit = none)

inductive ReadingError (args : Args) : Prop where
  | value (h : (args.value "value").bind F64.parse = none)
  | atAnchor (s : Str) (hs : args.value "at-anchor" = some s) (hbad : F64.parse s = none)

inductive SpecError (spec : Str) : Prop where
  | noComma (h : ',' ∉ spec)
  | verdict (sa sb : Str) (hspec : splitOnce "," spec = some (sa, sb))
      (hbad : parseVerdict (trim sa) = none ∨ parseVerdict (trim sb) = none)

inductive OperatorError (fs : FileSystem) (args : Args) : Prop where
  | unknownFlag (name : Str) (h : (name, none) ∈ args.flags)
  | stray (word : Str) (h : word ∈ args.positional)
  | registry (hmode : registryMode args = true) (h : RegistryError fs args)
  | manual (hmode : registryMode args = false) (hany : anyManual args = true)
      (h : ManualError args)
  | noSource (hmode : registryMode args = false) (hany : anyManual args = false)
      (hcompose : args.value "compose" = none)
  | reading (hany : registryMode args = true ∨ anyManual args = true) (h : ReadingError args)
  | spec (spec : Str) (hcompose : args.value "compose" = some spec) (h : SpecError spec)

/-! ## The lists are complete -/

/-- The loop over the parts of `--at` stops at a part without an equals sign. -/
theorem addPart_fails (query : List (Str × Str)) (part : Str) :
    (do
      let (k, v) ← Exec.ofOption ("--at: " ++ debug part ++ " is not key=value")
        (splitOnce "=" part)
      pure (query ++ [(trim k, trim v)]) : Exec Str _).Fails ↔ '=' ∉ part := by
  rw [Exec.fails_bind, Exec.fails_ofOption]
  simp only [Exec.fails_pure, and_false, exists_false, or_false]
  exact splitOnce_singleton_eq_none

theorem parseQuery_fails {at' : Str} : (parseQuery at').Fails ↔ MalformedQuery at' := by
  have hparts : (∀ part ∈ at'.splitOn ',', part = []) ↔
      (at'.splitOn ',').filter (· ≠ []) = [] := by
    simp [List.filter_eq_nil_iff]
  rw [parseQuery, MalformedQuery]
  rw [Exec.fails_bind, Exec.foldlM_fails (fun _ ↦ True) (fun query part _ _ ↦ addPart_fails query part)
    (fun _ _ _ _ _ _ ↦ trivial) [] trivial, hparts]
  simp only [List.mem_filter, decide_eq_true_eq, and_assoc]
  refine or_congr_right ⟨?_, ?_⟩
  · rintro ⟨query, hquery, hfails⟩
    by_contra hne
    -- a part that was read leaves an entry, and no later part removes it
    have hkept : query ≠ [] := by
      obtain ⟨part, parts, hp⟩ := List.exists_cons_of_ne_nil hne
      rw [hp, List.foldlM_cons] at hquery
      obtain ⟨q, hq, hquery⟩ := Exec.bind_eq_ok.mp hquery
      refine Exec.foldlM_invariant (· ≠ []) ?_ ?_ hquery
      · intro b c _ b' _ h
        obtain ⟨kv, -, h⟩ := Exec.bind_eq_ok.mp h
        rw [← Exec.pure_eq_ok.mp h]
        simp
      · obtain ⟨kv, -, h⟩ := Exec.bind_eq_ok.mp hq
        rw [← Exec.pure_eq_ok.mp h]
        simp
    simp [hkept] at hfails
  · intro hnil
    rw [hnil]
    exact ⟨[], rfl, by simp⟩

theorem chooseFit_fails {args : Args} {computed : DomainFit} :
    (chooseFit args computed).Fails ↔
      ∃ s, args.value "fit-override" = some s ∧ parseFit s = none := by
  rw [chooseFit]
  cases args.value "fit-override" <;> simp

theorem FromRegistry.not_registryError {fs : FileSystem} {args : Args} {g : GateAnchor}
    {row : AnchorRow} {query : List (Str × Str)} (hfrom : FromRegistry fs args g row query) :
    ¬ RegistryError fs args := by
  intro herr
  obtain ⟨file', text', rows', hfile', htext', hrows', id', hid', hrow'⟩ := hfrom.loaded
  obtain ⟨at'', hat', hquery'⟩ := hfrom.asked
  cases herr with
  | conflict flag hflag hhas => simp [hfrom.noConflict flag hflag] at hhas
  | missing flag hflag hvalue =>
      simp only [List.mem_cons, List.not_mem_nil, or_false] at hflag
      rcases hflag with rfl | rfl | rfl
      · simp [hfile'] at hvalue
      · simp [hid'] at hvalue
      · simp [hat'] at hvalue
  | unreadable file e hfile hread =>
      obtain rfl : file' = file := Option.some.inj (hfile'.symm.trans hfile)
      simp [htext'] at hread
  | malformed file text hfile hread hrows =>
      obtain rfl : file' = file := Option.some.inj (hfile'.symm.trans hfile)
      obtain rfl : text' = text := Except.ok.inj (htext'.symm.trans hread)
      simp [hrows'] at hrows
  | unknownId file text id rows hfile hread hrows hid hnone =>
      obtain rfl : file' = file := Option.some.inj (hfile'.symm.trans hfile)
      obtain rfl : text' = text := Except.ok.inj (htext'.symm.trans hread)
      obtain rfl : rows' = rows := Except.ok.inj (hrows'.symm.trans hrows)
      obtain rfl : id' = id := Option.some.inj (hid'.symm.trans hid)
      apply hnone row (List.mem_of_find?_eq_some hrow')
      simpa using List.find?_some hrow'
  | badQuery at' hat hquery =>
      obtain rfl : at'' = at' := Option.some.inj (hat'.symm.trans hat)
      rw [← parseQuery_fails, hquery'] at hquery
      exact Exec.fails_ok _ hquery
  | badFit s hs hfit =>
      have hfails : (chooseFit args (computedFit row query)).Fails :=
        chooseFit_fails.mpr ⟨s, hs, hfit⟩
      rw [hfrom.chosen] at hfails
      exact Exec.fails_ok _ hfails

theorem resolveRegistry_fails {fs : FileSystem} {args : Args} :
    (resolveRegistry fs args).Fails ↔ RegistryError fs args := by
  constructor
  · intro h
    rw [resolveRegistry] at h
    cases hconf : conflicting.find? (args.has ·) with
    | some flag =>
        have hhas : args.has flag = true := by simpa using List.find?_some hconf
        exact .conflict flag (List.mem_of_find?_eq_some hconf) hhas
    | none =>
        rw [hconf] at h
        cases hfile : args.value "registry" with
        | none => exact .missing "registry" (by simp) hfile
        | some file =>
        cases hid : args.value "anchor-id" with
        | none => exact .missing "anchor-id" (by simp) hid
        | some id =>
        cases hat : args.value "at" with
        | none => exact .missing "at" (by simp) hat
        | some at' =>
        rw [hfile, hid, hat] at h
        simp only [Exec.fails_bind, Exec.fails_ofOption, parseQuery_fails, chooseFit_fails,
          readToString_eq_ok, Exec.ofOption_eq_ok, Exec.fails_pure, and_false, exists_false,
          or_false] at h
        rcases h with h | ⟨text, htext, h | ⟨rows, hrows, h | ⟨row, hrow, h | ⟨q, -, h⟩⟩⟩⟩
        · obtain ⟨e, he⟩ := h
          rw [readToString] at he
          cases hread : fs file with
          | ok text => simp [hread] at he
          | error e => exact .unreadable file e hfile hread
        · exact .malformed file text hfile htext h
        · exact .unknownId file text id rows hfile htext hrows hid
            (by simpa using List.find?_eq_none.mp h)
        · exact .badQuery at' hat h
        · obtain ⟨s, hs, hbad⟩ := h
          exact .badFit s hs hbad
  · intro herr
    by_contra hok
    obtain ⟨g, hg⟩ := Exec.not_fails.mp hok
    obtain ⟨row, query, hfrom⟩ := resolveRegistry_eq_ok.mp hg
    exact hfrom.not_registryError herr

theorem parseTol_fails {flag t : Str} : (parseTol flag t).Fails ↔ BadTol t := by
  rw [parseTol, BadTol]
  rw [Exec.fails_bind, Exec.fails_ofOption]
  cases F64.parse t with
  | none => simp
  | some x =>
      simp only [reduceCtorEq, Exec.ofOption_some, false_or, Except.ok.injEq, exists_eq_left',
        Option.some.injEq, forall_eq']
      split
      · next hneg => simpa using hneg
      · next hneg => simpa using hneg

/-- Exactly one of the two tolerance forms is given, and it is a good one. -/
theorem manualTol_fails {args : Args} {measured : F64} :
    (manualTol args measured).Fails ↔
      (args.value "tol" = none ∧ args.value "tol-rel" = none) ∨
      (args.value "tol" ≠ none ∧ args.value "tol-rel" ≠ none) ∨
      ∃ flag ∈ [lit "tol", lit "tol-rel"], ∃ t, args.value flag = some t ∧ BadTol t := by
  rw [manualTol]
  cases ht : args.value "tol" with
  | none =>
      cases hp : args.value "tol-rel" with
      | none => simp
      | some p => simp [parseTol_fails, ht, hp]
  | some t =>
      cases hp : args.value "tol-rel" with
      | none => simp [parseTol_fails, ht, hp]
      | some p => simp

theorem resolveManual_fails {args : Args} : (resolveManual args).Fails ↔ ManualError args := by
  constructor
  · intro h
    simp only [resolveManual, Exec.fails_bind, Exec.fails_ofOption, Exec.ofOption_eq_ok,
      Exec.fails_pure, and_false, exists_false, or_false, manualTol_fails] at h
    rcases h with h | ⟨m, hm, h | ⟨measured, hmeasured, htol | ⟨tol, -, h | ⟨s, hs, h⟩⟩⟩⟩
    · exact .anchor (by simp [h])
    · exact .anchor (by simp [hm, h])
    · rcases htol with ⟨h, h'⟩ | ⟨h, h'⟩ | ⟨flag, hflag, t, ht, hbad⟩
      · exact .noTol h h'
      · exact .twoTols h h'
      · exact .badTol flag t hflag ht hbad
    · exact .fit (by simp [h])
    · exact .fit (by simp [hs, h])
  · intro herr
    by_contra hok
    obtain ⟨g, hg⟩ := Exec.not_fails.mp hok
    have hfrom := resolveManual_eq_ok.mp hg
    have htol : ¬ (manualTol args g.anchor.measured).Fails := by
      rw [hfrom.tol]
      exact Exec.fails_ok _
    rw [manualTol_fails] at htol
    cases herr with
    | anchor h => simp [hfrom.measured] at h
    | noTol h h' => exact htol (Or.inl ⟨h, h'⟩)
    | twoTols h h' => exact htol (Or.inr (Or.inl ⟨h, h'⟩))
    | badTol flag t hflag ht hbad => exact htol (Or.inr (Or.inr ⟨flag, hflag, t, ht, hbad⟩))
    | fit h => simp [hfrom.fit] at h

theorem parseReading_fails {missing : Str} {args : Args} :
    (parseReading missing args).Fails ↔ ReadingError args := by
  constructor
  · intro h
    rw [parseReading] at h
    cases hv : args.value "value" with
    | none => exact .value (by simp [hv])
    | some v =>
    cases hvalue : F64.parse v with
    | none => exact .value (by simp [hv, hvalue])
    | some value =>
    simp only [hv, hvalue, Exec.ofOption_some, bind, Except.bind] at h
    cases hat : args.value "at-anchor" with
    | none => simp [hat] at h
    | some s =>
        rw [hat] at h
        cases hx : F64.parse s with
        | none => exact .atAnchor s hat hx
        | some x => simp [hx] at h
  · intro herr
    by_contra hok
    obtain ⟨x, hx⟩ := Exec.not_fails.mp hok
    have hreads := parseReading_eq_ok.mp hx
    cases herr with
    | value h => simp [hreads.value] at h
    | atAnchor s hs hbad =>
        have hat := hreads.atAnchor
        simp [hs, hbad] at hat

theorem Reads.not_readingError {args : Args} {x : Reading} (h : Reads args x) :
    ¬ ReadingError args := by
  have hok : parseReading [] args = .ok x := parseReading_eq_ok.mpr h
  intro herr
  exact Exec.not_fails.mpr ⟨x, hok⟩ (parseReading_fails.mpr herr)

theorem parseSpec_fails {spec : Str} : (parseSpec spec).Fails ↔ SpecError spec := by
  rw [parseSpec]
  rw [Exec.fails_bind, Exec.fails_ofOption]
  constructor
  · rintro (h | ⟨⟨sa, sb⟩, hspec, h⟩)
    · exact .noComma (splitOnce_singleton_eq_none.mp h)
    · refine .verdict sa sb (Exec.ofOption_eq_ok.mp hspec) ?_
      cases ha : parseVerdict (trim sa) with
      | none => exact Or.inl rfl
      | some ta =>
          cases hb : parseVerdict (trim sb) with
          | none => exact Or.inr rfl
          | some tb => simp [ha, hb] at h
  · rintro (h | ⟨sa, sb, hspec, hbad⟩)
    · exact Or.inl (splitOnce_singleton_eq_none.mpr h)
    · refine Or.inr ⟨(sa, sb), by rw [hspec]; rfl, ?_⟩
      rcases hbad with hbad | hbad
      · simp [hbad]
      · cases parseVerdict (trim sa) <;> simp [hbad]

theorem checkShape_fails {args : Args} :
    (checkShape args).Fails ↔ (∃ name, (name, none) ∈ args.flags) ∨ args.positional ≠ [] := by
  rw [checkShape]
  cases hf : args.flags.find? (·.2.isNone) with
  | some f =>
      obtain ⟨name, v⟩ := f
      have hv : v = none := by simpa using List.find?_some hf
      have hmem := List.mem_of_find?_eq_some hf
      rw [hv] at hmem
      simpa using Or.inl ⟨name, hmem⟩
  | none =>
      have hnone : ¬ ∃ name, (name, none) ∈ args.flags := by
        rintro ⟨name, hmem⟩
        simpa using List.find?_eq_none.mp hf _ hmem
      cases args.positional with
      | nil => simpa using hnone
      | cons p ps => simp

theorem resolveGateAnchor_fails {fs : FileSystem} {args : Args} :
    (resolveGateAnchor fs args).Fails ↔
      (registryMode args = true ∧ RegistryError fs args) ∨
      (registryMode args = false ∧ anyManual args = true ∧ ManualError args) := by
  rw [resolveGateAnchor]
  cases registryMode args with
  | true => simp [resolveRegistry_fails]
  | false =>
      cases anyManual args with
      | true => simp [resolveManual_fails]
      | false => simp

/-- There is an anchor to judge against exactly when a flag asked for one. -/
theorem isSome_resolveGateAnchor {fs : FileSystem} {args : Args} {ga : Option GateAnchor}
    (h : resolveGateAnchor fs args = .ok ga) :
    ga.isSome = true ↔ registryMode args = true ∨ anyManual args = true := by
  rcases resolveGateAnchor_eq_ok.mp h with ⟨hm, g, -, rfl⟩ | ⟨-, hm, g, -, rfl⟩ | ⟨hm, hm', rfl⟩
  · simp [hm]
  · simp [hm]
  · simp [hm, hm']

/-- Both kinds of run read the numbers before they use an anchor. -/
theorem reads_of_adjudicate {fs : FileSystem} {args : Args} {out : Outcome} {g : GateAnchor}
    (hadj : adjudicate fs args = .ok out) (hg : resolveGateAnchor fs args = .ok (some g)) :
    ∃ x, Reads args x := by
  obtain ⟨-, ga, hga, hrun⟩ := adjudicate_eq_ok.mp hadj
  obtain rfl : some g = ga := Except.ok.inj (hg.symm.trans hga)
  cases hc : args.value "compose" with
  | some spec =>
      rw [hc] at hrun
      obtain ⟨_, _, _, _, hanch, _⟩ := composeRun_eq_ok.mp hrun
      obtain ⟨x, hx, -⟩ := compositeAnchored_some.mp hanch
      exact ⟨x, hx⟩
  | none =>
      rw [hc] at hrun
      obtain ⟨_, x, -, hx, -⟩ := singleRun_eq_ok.mp hrun
      exact ⟨x, hx⟩

theorem operatorError_of_fails {fs : FileSystem} {args : Args} (h : (adjudicate fs args).Fails) :
    OperatorError fs args := by
  simp only [adjudicate, Exec.fails_bind, checkShape_fails, resolveGateAnchor_fails] at h
  rcases h with (⟨name, h⟩ | h) | ⟨-, -, (⟨hm, h⟩ | ⟨hm, hm', h⟩) | ⟨ga, hga, h⟩⟩
  · exact .unknownFlag name h
  · obtain ⟨p, hp⟩ := List.exists_mem_of_ne_nil _ h
    exact .stray p hp
  · exact .registry hm h
  · exact .manual hm hm' h
  have hsome := isSome_resolveGateAnchor hga
  cases hc : args.value "compose" with
  | some spec =>
      simp only [hc, composeRun, Exec.fails_bind, parseSpec_fails, Exec.fails_pure, and_false,
        exists_false, or_false] at h
      rcases h with h | ⟨-, -, h⟩
      · exact .spec spec hc h
      · cases ga with
        | none => simp [compositeAnchored] at h
        | some g =>
            simp only [compositeAnchored, Exec.fails_bind, parseReading_fails, Exec.fails_pure,
              and_false, exists_false, or_false] at h
            exact .reading (hsome.mp rfl) h
  | none =>
      simp only [hc, singleRun, Exec.fails_bind, Exec.fails_ofOption, parseReading_fails,
        Exec.fails_pure, and_false, exists_false, or_false] at h
      rcases h with h | ⟨g, hg, h⟩
      · have hnone : ¬ (registryMode args = true ∨ anyManual args = true) := by
          simp [← hsome, h]
        simp only [not_or, Bool.not_eq_true] at hnone
        exact .noSource hnone.1 hnone.2 hc
      · obtain rfl := Exec.ofOption_eq_ok.mp hg
        exact .reading (hsome.mp rfl) h

theorem fails_of_operatorError {fs : FileSystem} {args : Args} (herr : OperatorError fs args) :
    (adjudicate fs args).Fails := by
  by_contra hok
  obtain ⟨out, hout⟩ := Exec.not_fails.mp hok
  obtain ⟨hshape, ga, hga, hrun⟩ := adjudicate_eq_ok.mp hout
  have hshape' : ¬ (checkShape args).Fails := by
    rw [hshape]
    exact Exec.fails_ok _
  have hga' : ¬ (resolveGateAnchor fs args).Fails := by
    rw [hga]
    exact Exec.fails_ok _
  rw [checkShape_fails] at hshape'
  rw [resolveGateAnchor_fails] at hga'
  have hsome := isSome_resolveGateAnchor hga
  cases herr with
  | unknownFlag name h => exact hshape' (Or.inl ⟨name, h⟩)
  | stray word h => exact hshape' (Or.inr (List.ne_nil_of_mem h))
  | registry hm h => exact hga' (Or.inl ⟨hm, h⟩)
  | manual hm hm' h => exact hga' (Or.inr ⟨hm, hm', h⟩)
  | noSource hm hm' hc =>
      rw [hc] at hrun
      obtain ⟨g, x, rfl, -⟩ := singleRun_eq_ok.mp hrun
      simp [hm, hm'] at hsome
  | reading hany h =>
      obtain ⟨g, rfl⟩ := Option.isSome_iff_exists.mp (hsome.mpr hany)
      obtain ⟨x, hx⟩ := reads_of_adjudicate hout hga
      exact hx.not_readingError h
  | spec spec hc h =>
      rw [hc] at hrun
      obtain ⟨ta, tb, -, hspec, -⟩ := composeRun_eq_ok.mp hrun
      exact Exec.not_fails.mpr ⟨_, hspec⟩ (parseSpec_fails.mpr h)

/-- The arbiter stops without a verdict exactly on an operator error. -/
theorem adjudicate_fails {fs : FileSystem} {args : Args} :
    (adjudicate fs args).Fails ↔ OperatorError fs args :=
  ⟨operatorError_of_fails, fails_of_operatorError⟩

/-! ## No panic -/

theorem parseQuery_safe (at' : Str) : (parseQuery at').Safe := by
  rw [parseQuery]
  refine Exec.Safe.bind (Exec.Safe.foldlM _ fun _ _ _ ↦ ?_) fun query _ ↦ ?_
  · exact (Exec.Safe.ofOption _ _).bind fun _ _ ↦ Exec.Safe.ok _
  · split
    · exact Exec.Safe.err _
    · exact Exec.Safe.ok _

theorem chooseFit_safe (args : Args) (computed : DomainFit) : (chooseFit args computed).Safe := by
  rw [chooseFit]
  split
  · exact (Exec.Safe.ofOption _ _).bind fun _ _ ↦ Exec.Safe.ok _
  · exact Exec.Safe.ok _

theorem resolveRegistry_safe (fs : FileSystem) (args : Args) : (resolveRegistry fs args).Safe := by
  rw [resolveRegistry]
  split
  · exact Exec.Safe.err _
  split
  · refine Exec.Safe.bind ?_ fun text _ ↦ ?_
    · rw [readToString]
      split
      · exact Exec.Safe.ok _
      · exact Exec.Safe.err _
    apply (parseRegistry_safe text).bind
    intro rows _
    apply (Exec.Safe.ofOption _ _).bind
    intro row _
    apply (parseQuery_safe _).bind
    intro query _
    exact (chooseFit_safe _ _).bind fun _ _ ↦ Exec.Safe.ok _
  · exact Exec.Safe.err _

theorem parseTol_safe (flag t : Str) : (parseTol flag t).Safe := by
  rw [parseTol]
  apply (Exec.Safe.ofOption _ _).bind
  intro x _
  split
  · exact Exec.Safe.err _
  · exact Exec.Safe.ok _

theorem resolveManual_safe (args : Args) : (resolveManual args).Safe := by
  rw [resolveManual]
  refine (Exec.Safe.ofOption _ _).bind fun m _ ↦ (Exec.Safe.ofOption _ _).bind fun measured _ ↦ ?_
  refine Exec.Safe.bind ?_ fun tol _ ↦ ?_
  · rw [manualTol]
    split
    · exact Exec.Safe.err _
    · exact Exec.Safe.err _
    · exact parseTol_safe _ _
    · exact (parseTol_safe _ _).bind fun _ _ ↦ Exec.Safe.ok _
  refine (Exec.Safe.ofOption _ _).bind fun s _ ↦ (Exec.Safe.ofOption _ _).bind fun fit _ ↦ ?_
  exact Exec.Safe.ok _

theorem parseReading_safe (missing : Str) (args : Args) : (parseReading missing args).Safe := by
  rw [parseReading]
  refine (Exec.Safe.ofOption _ _).bind fun v _ ↦ (Exec.Safe.ofOption _ _).bind fun x _ ↦ ?_
  split
  · exact Exec.Safe.ok _
  · exact (Exec.Safe.ofOption _ _).bind fun _ _ ↦ Exec.Safe.ok _

theorem composeRun_safe (args : Args) (ga : Option GateAnchor) (spec : Str) :
    (composeRun args ga spec).Safe := by
  rw [composeRun]
  refine Exec.Safe.bind ?_ fun tiers _ ↦ Exec.Safe.bind ?_ fun anchored _ ↦ Exec.Safe.ok _
  · rw [parseSpec]
    apply (Exec.Safe.ofOption _ _).bind
    intro s _
    dsimp only
    split
    · exact Exec.Safe.ok _
    · exact Exec.Safe.err _
  · cases ga with
    | none => exact Exec.Safe.ok _
    | some g => exact (parseReading_safe _ _).bind fun _ _ ↦ Exec.Safe.ok _

theorem adjudicate_safe (fs : FileSystem) (args : Args) : (adjudicate fs args).Safe := by
  rw [adjudicate]
  refine Exec.Safe.bind ?_ fun _ _ ↦ Exec.Safe.bind ?_ fun ga _ ↦ ?_
  · rw [checkShape]
    split
    · exact Exec.Safe.err _
    · split
      · exact Exec.Safe.err _
      · exact Exec.Safe.ok _
  · rw [resolveGateAnchor]
    split
    · exact Exec.Safe.map _ (resolveRegistry_safe fs args)
    · split
      · exact Exec.Safe.map _ (resolveManual_safe args)
      · exact Exec.Safe.ok _
  · split
    · exact composeRun_safe _ _ _
    · apply (Exec.Safe.ofOption _ _).bind
      intro g _
      exact (parseReading_safe _ _).bind fun _ _ ↦ Exec.Safe.ok _

end CalxMill.Gate
