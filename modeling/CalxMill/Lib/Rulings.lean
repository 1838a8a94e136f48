import CalxMill.Lib.Exec
import Mathlib.Data.List.Count

/-!
# Gates over a list

A gate rules on its subjects in turn: each ruling adds its text to the report
and counts when it is a failure.  The report of the whole run is the texts in
order, and its count is the number of failures.
-/

namespace CalxMill.Lib

universe u

variable {ε α σ γ : Type u}

/-- Related elements that satisfy the predicates alike are counted alike. -/
theorem countP_eq_of_forall₂ {α β : Type*} {p : α → Bool} {q : β → Bool} {l : List α} {l' : List β}
    (h : List.Forall₂ (fun a b ↦ p a = q b) l l') : l.countP p = l'.countP q := by
  induction h with
  | nil => rfl
  | cons hab _ ih => rw [List.countP_cons, List.countP_cons, ih, hab]

namespace Exec

/-- The gate rule: what each step says of its own subject, the run says of all
of them. -/
theorem foldlM_rulings {step : σ → α → Exec ε σ} (out : σ → List γ) (failures : σ → ℕ)
    {R : α → Bool × List γ → Prop} {l : List α}
    (hstep : ∀ s, ∀ a ∈ l, ∀ s', step s a = .ok s' → ∃ r, R a r ∧ out s' = out s ++ r.2 ∧
      failures s' = failures s + r.1.toNat) :
    ∀ {s s' : σ}, l.foldlM step s = .ok s' →
      ∃ rs, List.Forall₂ R l rs ∧ out s' = out s ++ rs.flatMap (·.2) ∧
        failures s' = failures s + rs.countP (·.1) := by
  induction l with
  | nil =>
      intro s s' h
      obtain rfl := pure_eq_ok.mp h
      exact ⟨[], .nil, (List.append_nil _).symm, rfl⟩
  | cons a l ih =>
      intro s s' h
      rw [List.foldlM_cons] at h
      obtain ⟨s₁, h₁, h⟩ := bind_eq_ok.mp h
      obtain ⟨r, hr, hout, hfail⟩ := hstep s a List.mem_cons_self s₁ h₁
      obtain ⟨rs, hrs, hout', hfail'⟩ :=
        ih (fun s b hb ↦ hstep s b (List.mem_cons_of_mem _ hb)) h
      refine ⟨r :: rs, .cons hr hrs, ?_, ?_⟩
      · rw [hout', hout, List.flatMap_cons, List.append_assoc]
      · rw [hfail', hfail, List.countP_cons]
        cases r.1 with
        | false => simp
        | true =>
            simp only [Bool.toNat_true, if_true]
            omega

end Exec

end CalxMill.Lib
