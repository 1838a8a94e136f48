import Mathlib.Data.List.Basic

/-!
# Programs with effects

A program acts on a state as it goes and may fail on the way: what it did
before it failed stays done.  `Uses` bounds its effects by its text: the ways
in which it looks at the state, and the ways in which it changes it.  From the
bounds follow what one run keeps, and how two runs from related states agree.
-/

namespace CalxMill.Lib

universe u

abbrev Prog (ε σ : Type u) := ExceptT ε (StateM σ)

namespace Prog

variable {ε σ α β : Type u}

/-- How the program ends and the state that it leaves. -/
def exec (p : Prog ε σ α) (s : σ) : Except ε α × σ := p.run.run s

/-- A failure with nothing done. -/
def fail (e : ε) : Prog ε σ α := throw e

/-- A fallible computation that does not change the state. -/
def look (f : σ → Except ε α) : Prog ε σ α := do ExceptT.mk (pure (f (← get)))

/-- A change of the state. -/
def act (f : σ → σ) : Prog ε σ PUnit := modify f

/-! ## One run -/

section Runs

variable {s s' : σ}

@[simp] theorem exec_pure (a : α) : (pure a : Prog ε σ α).exec s = (.ok a, s) := rfl

@[simp] theorem exec_fail (e : ε) : (fail e : Prog ε σ α).exec s = (.error e, s) := rfl

@[simp] theorem exec_look (f : σ → Except ε α) : (look f).exec s = (f s, s) := rfl

theorem exec_bind (p : Prog ε σ α) (f : α → Prog ε σ β) :
    (p >>= f).exec s = match p.exec s with
      | (.ok a, s') => (f a).exec s'
      | (.error e, s') => (.error e, s') := by
  have hrun : (p >>= f).exec s = (ExceptT.bindCont f (p.exec s).1).run (p.exec s).2 := rfl
  rw [hrun]
  rcases p.exec s with ⟨e | a, s'⟩
  · rfl
  · rfl

theorem exec_bind_ok {p : Prog ε σ α} {f : α → Prog ε σ β} {a : α} (h : p.exec s = (.ok a, s')) :
    (p >>= f).exec s = (f a).exec s' := by
  rw [exec_bind, h]

theorem exec_bind_error {p : Prog ε σ α} {f : α → Prog ε σ β} {e : ε}
    (h : p.exec s = (.error e, s')) : (p >>= f).exec s = (.error e, s') := by
  rw [exec_bind, h]

/-- A sequence that returns is two programs that return. -/
theorem exec_bind_eq_ok {p : Prog ε σ α} {f : α → Prog ε σ β} {b : β} :
    (p >>= f).exec s = (.ok b, s') ↔ ∃ a t, p.exec s = (.ok a, t) ∧ (f a).exec t = (.ok b, s') := by
  constructor
  · intro h
    rcases hp : p.exec s with ⟨e | a, t⟩
    · rw [exec_bind_error hp] at h
      cases h
    · rw [exec_bind_ok hp] at h
      exact ⟨a, t, rfl, h⟩
  · rintro ⟨a, t, hp, hf⟩
    rw [exec_bind_ok hp, hf]

/-- Programs whose ends do not depend on the state end alike one after the other. -/
theorem exec_mapM {l : List α} {g : α → Prog ε σ β} {r : α → Except ε β}
    (h : ∀ a ∈ l, ∀ t, ((g a).exec t).1 = r a) : ((l.mapM g).exec s).1 = l.mapM r := by
  induction l generalizing s with
  | nil => rfl
  | cons a l ih =>
      rw [List.mapM_cons, List.mapM_cons, exec_bind]
      rcases hrun : (g a).exec s with ⟨e | b, t⟩
      · rw [← h a List.mem_cons_self s, hrun]
        rfl
      · have hrest := ih (s := t) fun a' ha' ↦ h a' (List.mem_cons_of_mem a ha')
        rw [← h a List.mem_cons_self s, hrun, ← hrest]
        dsimp only
        rw [exec_bind]
        rcases (l.mapM g).exec t with ⟨e | bs, t'⟩
        · rfl
        · rfl

end Runs

/-! ## Every run -/

/-- Wherever the program starts, it returns a value in `V` or fails with an
error in `E`. -/
structure Ends (E : ε → Prop) (V : α → Prop) (p : Prog ε σ α) : Prop where
  returns : ∀ s a, (p.exec s).1 = .ok a → V a
  fails : ∀ s e, (p.exec s).1 = .error e → E e

namespace Ends

variable {E : ε → Prop} {V : α → Prop} {p : Prog ε σ α}

theorem pure {a : α} (h : V a) : Ends E V (Pure.pure a : Prog ε σ α) where
  returns _ _ hb := Except.ok.inj hb ▸ h
  fails _ _ he := nomatch he

theorem look {f : σ → Except ε α} (hok : ∀ s a, f s = .ok a → V a)
    (herr : ∀ s e, f s = .error e → E e) : Ends E V (Prog.look f) :=
  ⟨hok, herr⟩

theorem act {f : σ → σ} : Ends E (fun _ ↦ True) (Prog.act f) where
  returns _ _ _ := trivial
  fails _ _ he := nomatch he

theorem bind {W : β → Prop} {f : α → Prog ε σ β} (hp : Ends E V p)
    (hf : ∀ a, V a → Ends E W (f a)) : Ends E W (p >>= f) where
  returns s b hb := by
    rcases hrun : p.exec s with ⟨e | a, t⟩
    · rw [exec_bind_error hrun] at hb
      cases hb
    · rw [exec_bind_ok hrun] at hb
      exact (hf a (hp.returns s a (by rw [hrun]))).returns t b hb
  fails s e he := by
    rcases hrun : p.exec s with ⟨e' | a, t⟩
    · rw [exec_bind_error hrun] at he
      obtain rfl := Except.error.inj he
      exact hp.fails s e' (by rw [hrun])
    · rw [exec_bind_ok hrun] at he
      exact (hf a (hp.returns s a (by rw [hrun]))).fails t e he

theorem forM {l : List α} {g : α → Prog ε σ PUnit} (h : ∀ a ∈ l, Ends E (fun _ ↦ True) (g a)) :
    Ends E (fun _ ↦ True) (l.forM g) := by
  induction l with
  | nil => exact pure trivial
  | cons a l ih =>
      apply bind (h a List.mem_cons_self)
      intro _ _
      exact ih fun b hb ↦ h b (List.mem_cons_of_mem a hb)

theorem any (p : Prog ε σ α) : Ends (fun _ ↦ True) (fun _ ↦ True) p :=
  ⟨fun _ _ _ ↦ trivial, fun _ _ _ ↦ trivial⟩

end Ends

/-! ## Two runs -/

/-- The computations return related values or fail with related errors. -/
inductive SameEnd {ε α β : Type u} (F : ε → ε → Prop) (V : α → β → Prop) :
    Except ε α → Except ε β → Prop
  | ok {a : α} {b : β} (h : V a b) : SameEnd F V (.ok a) (.ok b)
  | error {e e' : ε} (h : F e e') : SameEnd F V (.error e) (.error e')

theorem SameEnd.refl {F : ε → ε → Prop} (hF : ∀ e, F e e) (x : Except ε α) :
    SameEnd F Eq x x := by
  cases x with
  | ok a => exact .ok rfl
  | error e => exact .error (hF e)

/-- From related states the two programs end alike, in related states. -/
def Sim (R : σ → σ → Prop) (F : ε → ε → Prop) (V : α → β → Prop) (p : Prog ε σ α)
    (q : Prog ε σ β) : Prop :=
  ∀ s t, R s t → SameEnd F V (p.exec s).1 (q.exec t).1 ∧ R (p.exec s).2 (q.exec t).2

namespace Sim

variable {γ δ : Type u} {R : σ → σ → Prop} {F : ε → ε → Prop} {V : α → β → Prop}

theorem pure {a : α} {b : β} (h : V a b) :
    Sim R F V (Pure.pure a : Prog ε σ α) (Pure.pure b) :=
  fun _ _ hst ↦ ⟨.ok h, hst⟩

theorem look {f : σ → Except ε α} {g : σ → Except ε β}
    (h : ∀ s t, R s t → SameEnd F V (f s) (g t)) : Sim R F V (Prog.look f) (Prog.look g) :=
  fun s t hst ↦ ⟨h s t hst, hst⟩

theorem bind {W : γ → δ → Prop} {p : Prog ε σ α} {q : Prog ε σ β} {f : α → Prog ε σ γ}
    {g : β → Prog ε σ δ} (h : Sim R F V p q) (hf : ∀ a b, V a b → Sim R F W (f a) (g b)) :
    Sim R F W (p >>= f) (q >>= g) := by
  intro s t hst
  obtain ⟨hend, hstate⟩ := h s t hst
  rcases hp : p.exec s with ⟨x, s'⟩
  rcases hq : q.exec t with ⟨y, t'⟩
  rw [hp, hq] at hend hstate
  cases hend with
  | ok hab =>
      rw [exec_bind_ok hp, exec_bind_ok hq]
      exact hf _ _ hab s' t' hstate
  | error he =>
      rw [exec_bind_error hp, exec_bind_error hq]
      exact ⟨.error he, hstate⟩

end Sim

/-! ## The effects of a program -/

/-- The program looks at the state only by `look`s in `L`, and changes it only
by `act`s in `A`. -/
inductive Uses (L : ∀ α : Type u, (σ → Except ε α) → Prop) (A : (σ → σ) → Prop) :
    ∀ {α : Type u}, Prog ε σ α → Prop
  | pure {α : Type u} (a : α) : Uses L A (Pure.pure a)
  | fail {α : Type u} (e : ε) : Uses L A (Prog.fail e : Prog ε σ α)
  | look {α : Type u} {f : σ → Except ε α} (h : L α f) : Uses L A (Prog.look f)
  | act {f : σ → σ} (h : A f) : Uses L A (Prog.act f)
  | bind {α β : Type u} {p : Prog ε σ α} {f : α → Prog ε σ β} (hp : Uses L A p)
      (hf : ∀ a, Uses L A (f a)) : Uses L A (p >>= f)

namespace Uses

variable {L L' : ∀ α : Type u, (σ → Except ε α) → Prop} {A A' : (σ → σ) → Prop}
  {p : Prog ε σ α}

theorem mono (hL : ∀ α f, L α f → L' α f) (hA : ∀ f, A f → A' f) (h : Uses L A p) :
    Uses L' A' p := by
  induction h with
  | pure a => exact .pure a
  | fail e => exact .fail e
  | look h => exact .look (hL _ _ h)
  | act h => exact .act (hA _ h)
  | bind _ _ ihp ihf => exact .bind ihp ihf

theorem forM {l : List α} {g : α → Prog ε σ PUnit} (h : ∀ a ∈ l, Uses L A (g a)) :
    Uses L A (l.forM g) := by
  induction l with
  | nil => exact .pure _
  | cons a l ih =>
      apply bind (h a List.mem_cons_self)
      intro _
      exact ih fun b hb ↦ h b (List.mem_cons_of_mem _ hb)

theorem mapM {l : List α} {g : α → Prog ε σ β} (h : ∀ a ∈ l, Uses L A (g a)) :
    Uses L A (l.mapM g) := by
  induction l with
  | nil => exact .pure _
  | cons a l ih =>
      rw [List.mapM_cons]
      apply bind (h a List.mem_cons_self)
      intro b
      apply bind (ih fun b hb ↦ h b (List.mem_cons_of_mem _ hb))
      intro bs
      exact .pure _

theorem foldlM {l : List α} {g : β → α → Prog ε σ β} (h : ∀ b, ∀ a ∈ l, Uses L A (g b a)) :
    ∀ b, Uses L A (l.foldlM g b) := by
  induction l with
  | nil => exact fun _ ↦ .pure _
  | cons a l ih =>
      intro b
      rw [List.foldlM_cons]
      apply bind (h b a List.mem_cons_self)
      exact ih fun b c hc ↦ h b c (List.mem_cons_of_mem _ hc)

/-- What follows a computation may rely on its value. -/
theorem bind_const {x : Except ε α} {f : α → Prog ε σ β} (h : ∀ a, x = .ok a → Uses L A (f a)) :
    Uses L A (Prog.look (fun _ ↦ x) >>= f) := by
  cases x with
  | error e => exact .fail e
  | ok a => exact h a rfl

/-- A preorder that the allowed acts follow holds between the state before a
run and the state after it, whether the program returned or failed. -/
theorem keeps {R : σ → σ → Prop} (hrefl : ∀ s, R s s) (htrans : ∀ a b c, R a b → R b c → R a c)
    (hA : ∀ f, A f → ∀ s, R s (f s)) (h : Uses L A p) : ∀ s, R s (p.exec s).2 := by
  induction h with
  | pure a => exact hrefl
  | fail e => exact hrefl
  | look h => exact hrefl
  | act h => exact hA _ h
  | @bind _ _ p f _ _ ihp ihf =>
      intro s
      have hs := ihp s
      rcases hrun : p.exec s with ⟨e | a, s'⟩
      · rw [hrun] at hs
        rw [exec_bind_error hrun]
        exact hs
      · rw [hrun] at hs
        rw [exec_bind_ok hrun]
        exact htrans _ _ _ hs (ihf a s')

/-- Two runs from related states end alike, in related states, when related
states look alike and the allowed acts keep them related. -/
theorem agree {R : σ → σ → Prop}
    (hL : ∀ γ f, L γ f → ∀ s t, R s t → f s = f t)
    (hA : ∀ f, A f → ∀ s t, R s t → R (f s) (f t)) (h : Uses L A p) :
    ∀ s t, R s t → (p.exec s).1 = (p.exec t).1 ∧ R (p.exec s).2 (p.exec t).2 := by
  induction h with
  | pure a => exact fun s t hst ↦ ⟨rfl, hst⟩
  | fail e => exact fun s t hst ↦ ⟨rfl, hst⟩
  | look h => exact fun s t hst ↦ ⟨hL _ _ h s t hst, hst⟩
  | act h => exact fun s t hst ↦ ⟨rfl, hA _ h s t hst⟩
  | @bind _ _ p f _ _ ihp ihf =>
      intro s t hst
      obtain ⟨hend, hstate⟩ := ihp s t hst
      rcases hs : p.exec s with ⟨r, s'⟩
      rcases ht : p.exec t with ⟨r', t'⟩
      rw [hs, ht] at hend hstate
      obtain rfl : r = r' := hend
      cases r with
      | error e =>
          rw [exec_bind_error hs, exec_bind_error ht]
          exact ⟨rfl, hstate⟩
      | ok a =>
          rw [exec_bind_ok hs, exec_bind_ok ht]
          exact ihf a s' t' hstate

end Uses

end Prog

end CalxMill.Lib
