import Mcpmesh.Lib.Run

/-!
# Mcpmesh.Lib.Purge

Labels whose steps leave no trace.

`run_purge` takes them out of a run: the rest of it runs as well, on the same
machine or another, and ends in a state that `R` relates to the end of the whole.
Which labels are hidden may depend on the end of the run, as long as what is said
of it (`J`) holds of every state before it too.
-/

namespace Mcpmesh.Lib

variable {σ ε : Type*} {step : σ → ε → Option σ}

/-- What a step cannot bring about holds all along a run that ends in it. -/
theorem run_back {J : σ → Prop} (hback : ∀ s e s', step s e = some s' → J s' → J s) {s s' : σ}
    {es : List ε} (hrun : run step s es = some s') (hJ : J s') : J s := by
  induction es generalizing s with
  | nil =>
      have h : s = s' := Option.some.inj hrun
      exact h ▸ hJ
  | cons e es ih =>
      obtain ⟨s₁, hse, hrun⟩ := run_cons_eq_some.mp hrun
      exact hback s e s₁ hse (ih hrun)

/-- A run of renamed labels. -/
theorem run_map {τ δ : Type*} {step' : τ → δ → Option τ} (f : ε → δ) (t : τ) (es : List ε) :
    run step' t (es.map f) = run (fun t e => step' t (f e)) t es := by
  induction es generalizing t with
  | nil => rfl
  | cons e es ih => simp only [List.map_cons, run_cons, ih]

/-- **The purge rule**: a run without its hidden labels, on another machine. -/
theorem run_purge {τ : Type*} {step' : τ → ε → Option τ} {J : σ → Prop} {R : σ → τ → Prop}
    {hidden : ε → Bool} (hback : ∀ s e s', step s e = some s' → J s' → J s)
    (hhidden : ∀ s e s' t, hidden e = true → step s e = some s' → J s' → R s t → R s' t)
    (hseen : ∀ s e s' t, hidden e = false → step s e = some s' → J s' → R s t →
      ∃ t', step' t e = some t' ∧ R s' t')
    {s s' : σ} {t : τ} {es : List ε} (hrun : run step s es = some s') (hJ : J s') (hR : R s t) :
    ∃ t', run step' t (es.filter fun e => !hidden e) = some t' ∧ R s' t' := by
  induction es generalizing s t with
  | nil =>
      have h : s = s' := Option.some.inj hrun
      exact ⟨t, rfl, h ▸ hR⟩
  | cons e es ih =>
      obtain ⟨s₁, hse, hrun⟩ := run_cons_eq_some.mp hrun
      have hJ₁ : J s₁ := run_back hback hrun hJ
      cases he : hidden e with
      | true =>
          obtain ⟨t', ht', hR'⟩ := ih hrun (hhidden s e s₁ t he hse hJ₁ hR)
          exact ⟨t', by rw [List.filter_cons_of_neg (by simp [he])]; exact ht', hR'⟩
      | false =>
          obtain ⟨t₁, hte, hR₁⟩ := hseen s e s₁ t he hse hJ₁ hR
          obtain ⟨t', ht', hR'⟩ := ih hrun hR₁
          refine ⟨t', ?_, hR'⟩
          rw [List.filter_cons_of_pos (by simp [he]), run_cons, hte]
          exact ht'

end Mcpmesh.Lib
