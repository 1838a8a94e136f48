import Mathlib.Algebra.Ring.Nat
import Mathlib.Data.List.Forall2
import Mathlib.Data.List.Perm.Basic
import Mathlib.Tactic.Common

/-!
# Fallible runs

A run returns a value, reports an error to its caller, or panics.  The two
failures are kept apart: a caller may handle a reported error, while a panic
ends the whole run.  The rules below give the outcomes of a composed run from
those of its parts, and the two loop rules carry an invariant through a
monadic fold.
-/

namespace CalxMill.Lib

inductive Fail (ε : Type*) where
  | err (msg : ε)
  | panic (msg : ε)
  deriving DecidableEq

abbrev Exec (ε α : Type*) := Except (Fail ε) α

namespace Exec

universe u

variable {ε : Type u} {α β γ : Type u}

def err (msg : ε) : Exec ε α := .error (.err msg)

def panic (msg : ε) : Exec ε α := .error (.panic msg)

/-- A missing value is a reported error. -/
def ofOption (msg : ε) : Option α → Exec ε α
  | some a => .ok a
  | none => err msg

/-- A missing value is a panic. -/
def expect (msg : ε) : Option α → Exec ε α
  | some a => .ok a
  | none => panic msg

/-- `map_err`: only a reported error has a message to change. -/
def mapErr (f : ε → ε) : Exec ε α → Exec ε α
  | .error (.err e) => err (f e)
  | x => x

@[simp] theorem ofOption_some (msg : ε) (a : α) : ofOption msg (some a) = .ok a := rfl

@[simp] theorem expect_some (msg : ε) (a : α) : expect msg (some a) = .ok a := rfl

/-! ## Runs that return -/

theorem bind_eq_ok {x : Exec ε α} {f : α → Exec ε β} {b : β} :
    (x >>= f) = .ok b ↔ ∃ a, x = .ok a ∧ f a = .ok b := by
  cases x with
  | ok a => simp [bind, Except.bind]
  | error e => simp [bind, Except.bind]

theorem bind_eq_error {x : Exec ε α} {f : α → Exec ε β} {e : Fail ε} :
    (x >>= f) = .error e ↔ x = .error e ∨ ∃ a, x = .ok a ∧ f a = .error e := by
  cases x with
  | ok a => simp [bind, Except.bind]
  | error e => simp [bind, Except.bind]

theorem map_eq_ok {x : Exec ε α} {f : α → β} {b : β} :
    f <$> x = .ok b ↔ ∃ a, x = .ok a ∧ f a = b := by
  cases x with
  | ok a => simp [Functor.map, Except.map]
  | error e => simp [Functor.map, Except.map]

@[simp] theorem ofOption_eq_ok {msg : ε} {o : Option α} {a : α} :
    ofOption msg o = .ok a ↔ o = some a := by
  cases o <;> simp [ofOption, err]

@[simp] theorem expect_eq_ok {msg : ε} {o : Option α} {a : α} :
    expect msg o = .ok a ↔ o = some a := by
  cases o <;> simp [expect, panic]

@[simp] theorem mapErr_eq_ok {f : ε → ε} {x : Exec ε α} {a : α} :
    mapErr f x = .ok a ↔ x = .ok a := by
  rcases x with (e | e) | b <;> simp [mapErr, err]

theorem toOption_eq_some {x : Exec ε α} {a : α} : x.toOption = some a ↔ x = .ok a := by
  cases x <;> simp [Except.toOption]

@[simp] theorem err_ne_ok {msg : ε} {a : α} : (err msg : Exec ε α) ≠ .ok a := nofun

@[simp] theorem panic_ne_ok {msg : ε} {a : α} : (panic msg : Exec ε α) ≠ .ok a := nofun

@[simp] theorem pure_eq_ok {a b : α} : (pure a : Exec ε α) = .ok b ↔ a = b := by
  simp [pure, Except.pure]

theorem mapM_eq_ok {f : α → Exec ε β} {l : List α} {l' : List β} :
    l.mapM f = .ok l' ↔ List.Forall₂ (fun a b ↦ f a = .ok b) l l' := by
  induction l generalizing l' with
  | nil => simp [pure, Except.pure, eq_comm]
  | cons a l ih =>
      simp only [List.mapM_cons, bind_eq_ok, pure_eq_ok, ih, List.forall₂_cons_left_iff]
      constructor
      · rintro ⟨b, hb, bs, hbs, rfl⟩
        exact ⟨b, bs, hb, hbs, rfl⟩
      · rintro ⟨b, bs, hb, hbs, rfl⟩
        exact ⟨b, hb, bs, hbs, rfl⟩

theorem mapM_eq_map {f : α → Exec ε β} {g : α → β} {l : List α} (h : ∀ a ∈ l, f a = .ok (g a)) :
    l.mapM f = .ok (l.map g) :=
  mapM_eq_ok.mpr (List.forall₂_map_right_iff.mpr (List.forall₂_same.mpr h))

theorem exists_of_mapM_eq_error {f : α → Exec ε β} {l : List α} {e : Fail ε}
    (h : l.mapM f = .error e) : ∃ a ∈ l, f a = .error e := by
  induction l with
  | nil => cases h
  | cons a l ih =>
      rw [List.mapM_cons] at h
      rcases bind_eq_error.mp h with ha | ⟨b, -, hrest⟩
      · exact ⟨a, List.mem_cons_self, ha⟩
      · rcases bind_eq_error.mp hrest with hl | ⟨bs, -, hpure⟩
        · obtain ⟨a', ha', hf⟩ := ih hl
          exact ⟨a', List.mem_cons_of_mem a ha', hf⟩
        · cases hpure

theorem exists_of_mem_right {R : α → β → Prop} {l : List α} {l' : List β} {b : β}
    (h : List.Forall₂ R l l') (hb : b ∈ l') : ∃ a ∈ l, R a b := by
  induction h with
  | nil => cases hb
  | cons hab _ ih =>
      rcases List.mem_cons.mp hb with rfl | hb
      · exact ⟨_, List.mem_cons_self, hab⟩
      · obtain ⟨a, ha, hab⟩ := ih hb
        exact ⟨a, List.mem_cons_of_mem _ ha, hab⟩

theorem mem_of_mapM_eq_ok {f : α → Exec ε β} {l : List α} {l' : List β} {b : β}
    (h : l.mapM f = .ok l') (hb : b ∈ l') : ∃ a ∈ l, f a = .ok b :=
  exists_of_mem_right (R := fun a b ↦ f a = .ok b) (mapM_eq_ok.mp h) hb

theorem exists_of_mapM_eq_ok {f : α → Exec ε β} {l : List α} {l' : List β} {a : α}
    (h : l.mapM f = .ok l') (ha : a ∈ l) : ∃ b ∈ l', f a = .ok b :=
  exists_of_mem_right (R := fun b a ↦ f a = .ok b) (mapM_eq_ok.mp h).flip ha

/-- The results of a list do not depend on its order. -/
theorem mapM_perm {f : α → Exec ε β} {l l' : List α} {bs : List β} (h : l.Perm l')
    (hl : l.mapM f = .ok bs) : ∃ bs', l'.mapM f = .ok bs' ∧ bs.Perm bs' := by
  obtain ⟨bs', hbs', hperm⟩ := List.perm_comp_forall₂ h.symm (mapM_eq_ok.mp hl)
  exact ⟨bs', mapM_eq_ok.mpr hbs', hperm.symm⟩

theorem foldlM_congr {step step' : β → γ → Exec ε β} {l : List γ}
    (h : ∀ b, ∀ c ∈ l, step b c = step' b c) : ∀ b, l.foldlM step b = l.foldlM step' b := by
  induction l with
  | nil => exact fun _ ↦ rfl
  | cons c l ih =>
      intro b
      rw [List.foldlM_cons, List.foldlM_cons, h b c List.mem_cons_self]
      exact congrArg _ (funext (ih fun b c hc ↦ h b c (List.mem_cons_of_mem _ hc)))

/-- The loop rule: what every iteration keeps, the whole fold keeps. -/
theorem foldlM_invariant {step : β → γ → Exec ε β} (inv : β → Prop) {l : List γ}
    (hstep : ∀ b, ∀ c ∈ l, ∀ b', inv b → step b c = .ok b' → inv b') :
    ∀ {b b' : β}, inv b → l.foldlM step b = .ok b' → inv b' := by
  induction l with
  | nil =>
      intro b b' hb h
      cases h
      exact hb
  | cons c l ih =>
      intro b b' hb h
      rw [List.foldlM_cons] at h
      obtain ⟨b₁, h₁, h₂⟩ := bind_eq_ok.mp h
      have hb₁ : inv b₁ := hstep b c List.mem_cons_self b₁ hb h₁
      exact ih (fun b c hc ↦ hstep b c (List.mem_cons_of_mem _ hc)) hb₁ h₂

/-- A loop that appends one result for each entry relates the results to the entries. -/
theorem foldlM_forall₂ {step : List β → γ → Exec ε (List β)} {P : γ → β → Prop} {l : List γ}
    (hstep : ∀ out c out', step out c = .ok out' → ∃ b, out' = out ++ [b] ∧ P c b) :
    ∀ {out out' : List β}, l.foldlM step out = .ok out' →
      ∃ bs, out' = out ++ bs ∧ List.Forall₂ P l bs := by
  induction l with
  | nil =>
      intro out out' h
      exact ⟨[], by rw [List.append_nil, pure_eq_ok.mp h], .nil⟩
  | cons c l ih =>
      intro out out' h
      rw [List.foldlM_cons] at h
      obtain ⟨mid, hmid, h⟩ := bind_eq_ok.mp h
      obtain ⟨b, rfl, hb⟩ := hstep _ _ _ hmid
      obtain ⟨bs, rfl, hbs⟩ := ih h
      exact ⟨b :: bs, by rw [List.append_assoc, List.singleton_append], .cons hb hbs⟩

/-! ## Runs that fail -/

/-- The run does not return. -/
def Fails (x : Exec ε α) : Prop := ∃ e, x = .error e

theorem not_fails {x : Exec ε α} : ¬ x.Fails ↔ ∃ a, x = .ok a := by
  cases x with
  | ok a => simp [Fails]
  | error e => simp [Fails]

@[simp] theorem fails_ok (a : α) : ¬ Fails (.ok a : Exec ε α) := by simp [Fails]

@[simp] theorem fails_pure (a : α) : ¬ Fails (pure a : Exec ε α) := fails_ok a

@[simp] theorem fails_err (msg : ε) : Fails (err msg : Exec ε α) := ⟨_, rfl⟩

@[simp] theorem fails_bind {x : Exec ε α} {f : α → Exec ε β} :
    (x >>= f).Fails ↔ x.Fails ∨ ∃ a, x = .ok a ∧ (f a).Fails := by
  cases x with
  | ok a => simp [Fails, bind, Except.bind]
  | error e => simp [Fails, bind, Except.bind]

@[simp] theorem fails_map {x : Exec ε α} {f : α → β} : (f <$> x).Fails ↔ x.Fails := by
  cases x with
  | ok a => simp [Fails, Functor.map, Except.map]
  | error e => simp [Fails, Functor.map, Except.map]

@[simp] theorem fails_ofOption {msg : ε} {o : Option α} :
    (ofOption msg o).Fails ↔ o = none := by
  cases o <;> simp [ofOption]

@[simp] theorem fails_expect {msg : ε} {o : Option α} :
    (expect msg o).Fails ↔ o = none := by
  cases o <;> simp [expect, panic, Fails]

theorem mapM_fails {f : α → Exec ε β} {l : List α} :
    (l.mapM f).Fails ↔ ∃ a ∈ l, (f a).Fails := by
  induction l with
  | nil => simp
  | cons a l ih =>
      simp only [List.mapM_cons, fails_bind, fails_pure, and_false, exists_false, or_false, ih,
        List.mem_cons, exists_eq_or_imp]
      constructor
      · rintro (h | ⟨-, -, h⟩)
        · exact Or.inl h
        · exact Or.inr h
      · rintro (h | h)
        · exact Or.inl h
        · by_cases ha : (f a).Fails
          · exact Or.inl ha
          · obtain ⟨b, hb⟩ := not_fails.mp ha
            exact Or.inr ⟨b, hb, h⟩

/-- A fold fails when some element makes its step fail, whatever the state
within the invariant. -/
theorem foldlM_fails {step : β → γ → Exec ε β} {bad : γ → Prop} (inv : β → Prop) {l : List γ}
    (hstep : ∀ b, ∀ c ∈ l, inv b → ((step b c).Fails ↔ bad c))
    (hkeep : ∀ b, ∀ c ∈ l, ∀ b', inv b → step b c = .ok b' → inv b') :
    ∀ b : β, inv b → ((l.foldlM step b).Fails ↔ ∃ c ∈ l, bad c) := by
  induction l with
  | nil => simp
  | cons c l ih =>
      intro b hb
      have ih' := ih (fun b c hc ↦ hstep b c (List.mem_cons_of_mem _ hc))
        fun b c hc ↦ hkeep b c (List.mem_cons_of_mem _ hc)
      have hc := hstep b c List.mem_cons_self hb
      rw [List.foldlM_cons, fails_bind, hc]
      simp only [List.mem_cons, exists_eq_or_imp]
      constructor
      · rintro (h | ⟨b', hb', h⟩)
        · exact Or.inl h
        · exact Or.inr ((ih' b' (hkeep b c List.mem_cons_self b' hb hb')).mp h)
      · rintro (h | h)
        · exact Or.inl h
        · by_cases hbad : bad c
          · exact Or.inl hbad
          · obtain ⟨b', hb'⟩ := not_fails.mp (mt hc.mp hbad)
            exact Or.inr ⟨b', hb', (ih' b' (hkeep b c List.mem_cons_self b' hb hb')).mpr h⟩

/-- A fold that counts up to a limit fails on a bad element or past the limit. -/
theorem foldlM_fails_counted {step : β → γ → Exec ε β} {bad : γ → Prop} {limit : ℕ}
    (inv : β → Prop) (count : β → ℕ) (weight : γ → ℕ) {l : List γ}
    (hstep : ∀ b, ∀ c ∈ l, inv b → count b < limit →
      ((step b c).Fails ↔ bad c ∨ limit ≤ count b + weight c))
    (hkeep : ∀ b, ∀ c ∈ l, ∀ b', inv b → step b c = .ok b' →
      inv b' ∧ count b' = count b + weight c) :
    ∀ b, inv b → count b < limit →
      ((l.foldlM step b).Fails ↔ (∃ c ∈ l, bad c) ∨ limit ≤ count b + (l.map weight).sum) := by
  induction l with
  | nil =>
      intro b _ hb
      simpa using hb
  | cons c l ih =>
      intro b hinv hb
      have ih' := ih (fun b c hc ↦ hstep b c (List.mem_cons_of_mem _ hc))
        fun b c hc ↦ hkeep b c (List.mem_cons_of_mem _ hc)
      have hc := hstep b c List.mem_cons_self hinv hb
      rw [List.foldlM_cons, fails_bind, List.map_cons, List.sum_cons]
      simp only [List.mem_cons, exists_eq_or_imp]
      by_cases hfails : (step b c).Fails
      · rcases hc.mp hfails with hbad | hlimit
        · exact iff_of_true (Or.inl hfails) (Or.inl (Or.inl hbad))
        · exact iff_of_true (Or.inl hfails) (Or.inr (by omega))
      · obtain ⟨b', hb'⟩ := not_fails.mp hfails
        obtain ⟨hinv', hcount⟩ := hkeep b c List.mem_cons_self b' hinv hb'
        have hgood := not_or.mp (mt hc.mpr hfails)
        have hrest := ih' b' hinv' (hcount ▸ Nat.lt_of_not_le hgood.2)
        constructor
        · rintro (h | ⟨b'', hb'', h⟩)
          · exact absurd h hfails
          · obtain rfl := Except.ok.inj (hb'.symm.trans hb'')
            rcases hrest.mp h with h | h
            · exact Or.inl (Or.inr h)
            · apply Or.inr
              omega
        · rintro ((h | h) | h)
          · exact absurd h hgood.1
          · exact Or.inr ⟨b', hb', hrest.mpr (Or.inl h)⟩
          · exact Or.inr ⟨b', hb', hrest.mpr (Or.inr (by omega))⟩

/-- One step that fails in every state is enough. -/
theorem foldlM_fails_of_mem {step : β → γ → Exec ε β} {l : List γ} {c : γ} (hc : c ∈ l)
    (h : ∀ b, (step b c).Fails) : ∀ b : β, (l.foldlM step b).Fails := by
  induction l with
  | nil => cases hc
  | cons c' l ih =>
      intro b
      rw [List.foldlM_cons, fails_bind]
      rcases List.mem_cons.mp hc with rfl | hc
      · exact Or.inl (h b)
      · by_cases hfails : (step b c').Fails
        · exact Or.inl hfails
        · obtain ⟨b', hb'⟩ := not_fails.mp hfails
          exact Or.inr ⟨b', hb', ih hc b'⟩

/-- A fold whose steps all return computes the plain fold. -/
theorem foldlM_eq_foldl {step : β → γ → Exec ε β} {f : β → γ → β} (inv : β → Prop) {l : List γ}
    (hstep : ∀ b, ∀ c ∈ l, inv b → step b c = .ok (f b c) ∧ inv (f b c)) :
    ∀ b : β, inv b → l.foldlM step b = .ok (l.foldl f b) := by
  induction l with
  | nil => exact fun b _ ↦ rfl
  | cons c l ih =>
      intro b hb
      obtain ⟨hok, hinv⟩ := hstep b c List.mem_cons_self hb
      rw [List.foldlM_cons, hok, List.foldl_cons]
      exact ih (fun b c hc ↦ hstep b c (List.mem_cons_of_mem _ hc)) (f b c) hinv

/-- A fold that returns is the plain fold of what its steps return. -/
theorem eq_foldl_of_foldlM {step : β → γ → Exec ε β} {f : β → γ → β} {P : γ → Prop} {l : List γ}
    (hstep : ∀ b c b', step b c = .ok b' → b' = f b c ∧ P c) :
    ∀ {b b' : β}, l.foldlM step b = .ok b' → b' = l.foldl f b ∧ ∀ c ∈ l, P c := by
  induction l with
  | nil =>
      intro b b' h
      exact ⟨(pure_eq_ok.mp h).symm, List.forall_mem_nil _⟩
  | cons c l ih =>
      intro b b' h
      rw [List.foldlM_cons] at h
      obtain ⟨b₁, h₁, h⟩ := bind_eq_ok.mp h
      obtain ⟨rfl, hc⟩ := hstep _ _ _ h₁
      obtain ⟨hfold, hl⟩ := ih h
      exact ⟨hfold, List.forall_mem_cons.mpr ⟨hc, hl⟩⟩

/-- A run that cannot panic: it returns or it reports an error. -/
def Safe (x : Exec ε α) : Prop := ∀ msg, x ≠ .error (.panic msg)

theorem Safe.ok (a : α) : Safe (.ok a : Exec ε α) := nofun

theorem Safe.err (msg : ε) : Safe (Exec.err msg : Exec ε α) := nofun

theorem Safe.ofOption (msg : ε) (o : Option α) : Safe (Exec.ofOption msg o) := by
  cases o with
  | none => exact Safe.err msg
  | some a => exact Safe.ok a

theorem Safe.bind {x : Exec ε α} {f : α → Exec ε β} (hx : Safe x)
    (hf : ∀ a, x = .ok a → Safe (f a)) : Safe (x >>= f) := by
  intro msg h
  rcases bind_eq_error.mp h with h | ⟨a, ha, h⟩
  · exact hx msg h
  · exact hf a ha msg h

theorem Safe.map {x : Exec ε α} (f : α → β) (hx : Safe x) : Safe (f <$> x) := by
  cases x with
  | ok a => exact Safe.ok (f a)
  | error e => exact fun msg h ↦ hx msg (by simpa [Functor.map, Except.map] using h)

theorem Safe.mapM {f : α → Exec ε β} {l : List α} (h : ∀ a ∈ l, Safe (f a)) : Safe (l.mapM f) := by
  intro msg hmsg
  obtain ⟨a, ha, hf⟩ := exists_of_mapM_eq_error hmsg
  exact h a ha msg hf

theorem Safe.foldlM {step : β → γ → Exec ε β} {l : List γ} :
    ∀ b : β, (∀ b, ∀ c ∈ l, Safe (step b c)) → Safe (l.foldlM step b) := by
  induction l with
  | nil => exact fun b _ ↦ Safe.ok b
  | cons c l ih =>
      intro b h
      rw [List.foldlM_cons]
      apply (h b c List.mem_cons_self).bind
      intro b' _
      exact ih b' fun b c hc ↦ h b c (List.mem_cons_of_mem _ hc)

end Exec

end CalxMill.Lib
