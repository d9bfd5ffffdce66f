import Mathlib.Data.List.Induction
import Mathlib.Logic.Relation
import Mathlib.Order.Bounds.Basic

/-!
# Mcpmesh.Lib.Run

Runs of two kinds of machines.

* A *partial* machine `step : σ → ε → Option σ` takes a label and either moves
  or does not allow it; `run` executes a list of labels.  An interleaving of
  concurrent parties is one such list.  `Along` says that a property holds at
  every state of a run, `Guarded` that one holds of every step it takes.
* A *total* machine `step : σ → ε → σ × ο` answers every call; `trace` records
  each call with the states around it, so that a property of "every call of
  every run" is a statement about the members of the trace.

Each induction over a run is packaged here once: a property of reachable
states is proved by a step lemma and `run_invariant` / `trace_invariant`.
-/

namespace Mcpmesh.Lib

/-! ## partial machines -/

section Partial

variable {σ ε : Type*} {step : σ → ε → Option σ}

/-- Execute the labels in order; `none` if one of them is not allowed where it
is taken. -/
def run (step : σ → ε → Option σ) : σ → List ε → Option σ
  | s, [] => some s
  | s, e :: es => (step s e).bind fun s' => run step s' es

theorem run_cons (s : σ) (e : ε) (es : List ε) :
    run step s (e :: es) = (step s e).bind fun s' => run step s' es := rfl

/-- A run begins with the step that its first label allows. -/
theorem run_cons_eq_some {s s' : σ} {e : ε} {es : List ε} :
    run step s (e :: es) = some s' ↔ ∃ s₁, step s e = some s₁ ∧ run step s₁ es = some s' := by
  rw [run_cons, Option.bind_eq_some_iff]

/-- **The run rule**: what every step preserves, every run preserves. -/
theorem run_invariant {I : σ → Prop} (hstep : ∀ s e s', I s → step s e = some s' → I s')
    {s s' : σ} {es : List ε} (hs : I s) (hrun : run step s es = some s') : I s' := by
  induction es generalizing s with
  | nil =>
      have h : s = s' := Option.some.inj hrun
      exact h ▸ hs
  | cons e es ih =>
      obtain ⟨s₁, hse, hrun⟩ := run_cons_eq_some.mp hrun
      exact ih (hstep s e s₁ hs hse) hrun

/-- Every state of the run, both ends included, satisfies `P`. -/
def Along (step : σ → ε → Option σ) (P : σ → Prop) : σ → List ε → Prop
  | s, [] => P s
  | s, e :: es => P s ∧ ∀ s', step s e = some s' → Along step P s' es

theorem Along.head {P : σ → Prop} {s : σ} {es : List ε} (h : Along step P s es) : P s := by
  cases es with
  | nil => exact h
  | cons e es => exact h.1

/-- What every step between two states that satisfy `P` preserves, every run
along `P` preserves. -/
theorem Along.invariant {P I : σ → Prop}
    (hstep : ∀ s e s', P s → P s' → I s → step s e = some s' → I s') {s s' : σ} {es : List ε}
    (halong : Along step P s es) (hs : I s) (hrun : run step s es = some s') : I s' := by
  induction es generalizing s with
  | nil =>
      have h : s = s' := Option.some.inj hrun
      exact h ▸ hs
  | cons e es ih =>
      obtain ⟨s₁, hse, hrun⟩ := run_cons_eq_some.mp hrun
      have halong₁ := halong.2 s₁ hse
      exact ih halong₁ (hstep s e s₁ halong.1 halong₁.head hs hse) hrun

/-- Every step the run takes is taken where `Q` allows its label. -/
def Guarded (step : σ → ε → Option σ) (Q : σ → ε → Prop) : σ → List ε → Prop
  | _, [] => True
  | s, e :: es => ∀ s', step s e = some s' → Q s e ∧ Guarded step Q s' es

instance Guarded.decidable {Q : σ → ε → Prop} [∀ s e, Decidable (Q s e)] :
    ∀ (s : σ) (es : List ε), Decidable (Guarded step Q s es)
  | _, [] => inferInstanceAs (Decidable True)
  | s, e :: es =>
      have : ∀ s', Decidable (Guarded step Q s' es) := fun s' => Guarded.decidable s' es
      inferInstanceAs (Decidable (∀ s' ∈ step s e, Q s e ∧ Guarded step Q s' es))

/-- What every guarded step preserves, a guarded run preserves. -/
theorem Guarded.invariant {I : σ → Prop} {Q : σ → ε → Prop}
    (hstep : ∀ s e s', Q s e → I s → step s e = some s' → I s') {s s' : σ} {es : List ε}
    (hguarded : Guarded step Q s es) (hs : I s) (hrun : run step s es = some s') : I s' := by
  induction es generalizing s with
  | nil =>
      have h : s = s' := Option.some.inj hrun
      exact h ▸ hs
  | cons e es ih =>
      obtain ⟨s₁, hse, hrun⟩ := run_cons_eq_some.mp hrun
      obtain ⟨hQ, hrest⟩ := hguarded s₁ hse
      exact ih hrest (hstep s e s₁ hQ hs hse) hrun

/-- A guard that another gives in every state of its runs guards them too. -/
theorem Guarded.imp {I : σ → Prop} {Q Q' : σ → ε → Prop}
    (hstep : ∀ s e s', Q s e → I s → step s e = some s' → I s')
    (himp : ∀ s e s', Q s e → I s → step s e = some s' → Q' s e) {s : σ} {es : List ε}
    (hguarded : Guarded step Q s es) (hs : I s) : Guarded step Q' s es := by
  induction es generalizing s with
  | nil => trivial
  | cons e es ih =>
      intro s' hse
      obtain ⟨hQ, hrest⟩ := hguarded s' hse
      exact ⟨himp s e s' hQ hs hse, ih hrest (hstep s e s' hQ hs hse)⟩

/-- **The guard rule**: where an invariant holds, a step leads to a state of `P`
exactly when its guard does, and `P` then carries the invariant on; so the runs
along `P` are the guarded ones. -/
theorem along_iff_guarded {I P : σ → Prop} {Q : σ → ε → Prop} (hI : ∀ s, I s → P s)
    (hguard : ∀ s e s', I s → step s e = some s' → (P s' ↔ Q s e))
    (hstep : ∀ s e s', I s → step s e = some s' → P s' → I s') {s : σ} {es : List ε} (hs : I s) :
    Along step P s es ↔ Guarded step Q s es := by
  induction es generalizing s with
  | nil => exact ⟨fun _ => trivial, fun _ => hI s hs⟩
  | cons e es ih =>
      constructor
      · intro halong s' hse
        have hP : P s' := (halong.2 s' hse).head
        exact ⟨(hguard s e s' hs hse).mp hP, (ih (hstep s e s' hs hse hP)).mp (halong.2 s' hse)⟩
      · intro hguarded
        refine ⟨hI s hs, fun s' hse => ?_⟩
        obtain ⟨hQ, hrest⟩ := hguarded s' hse
        exact (ih (hstep s e s' hs hse ((hguard s e s' hs hse).mpr hQ))).mpr hrest

theorem run_snoc (s : σ) (es : List ε) (e : ε) :
    run step s (es ++ [e]) = (run step s es).bind fun s' => step s' e := by
  induction es generalizing s with
  | nil => rw [List.nil_append, run_cons]; simp [run]
  | cons e' es ih => simp only [List.cons_append, run_cons, ih, Option.bind_assoc]

/-- **The history rule**: the run rule for a property of the labels so far and
the state they lead to. -/
theorem run_history {I : List ε → σ → Prop} {s₀ : σ} (h₀ : I [] s₀)
    (hstep : ∀ es s e s', run step s₀ es = some s → I es s → step s e = some s' →
      I (es ++ [e]) s')
    {es : List ε} {s : σ} (hrun : run step s₀ es = some s) : I es s := by
  induction es using List.reverseRecOn generalizing s with
  | nil =>
      have h : s₀ = s := Option.some.inj hrun
      exact h ▸ h₀
  | append_singleton es e ih =>
      rw [run_snoc] at hrun
      obtain ⟨s₁, hs₁, hse⟩ := Option.bind_eq_some_iff.mp hrun
      exact hstep es s₁ e s hs₁ (ih hs₁) hse

end Partial

/-! ## total machines -/

/-- One call of a run: the state it was made in, the call, its answer, and the
state it left. -/
structure Called (σ ε ο : Type*) where
  pre : σ
  call : ε
  out : ο
  post : σ

section Total

variable {σ ε ο : Type*} {step : σ → ε → σ × ο}

/-- The state after a list of calls. -/
def final (step : σ → ε → σ × ο) : σ → List ε → σ
  | s, [] => s
  | s, e :: es => final step (step s e).1 es

/-- The call `e` made in `s`. -/
def callAt (step : σ → ε → σ × ο) (s : σ) (e : ε) : Called σ ε ο :=
  ⟨s, e, (step s e).2, (step s e).1⟩

/-- Every call of a run, in order. -/
def trace (step : σ → ε → σ × ο) : σ → List ε → List (Called σ ε ο)
  | _, [] => []
  | s, e :: es => callAt step s e :: trace step (step s e).1 es

@[simp] theorem final_cons (s : σ) (e : ε) (es : List ε) :
    final step s (e :: es) = final step (step s e).1 es := rfl

@[simp] theorem trace_nil (s : σ) : trace step s [] = [] := rfl

@[simp] theorem trace_cons (s : σ) (e : ε) (es : List ε) :
    trace step s (e :: es) = callAt step s e :: trace step (step s e).1 es := rfl

theorem final_append (s : σ) (es fs : List ε) :
    final step s (es ++ fs) = final step (final step s es) fs := by
  induction es generalizing s with
  | nil => rfl
  | cons e es ih => exact ih (step s e).1

theorem trace_append (s : σ) (es fs : List ε) :
    trace step s (es ++ fs) = trace step s es ++ trace step (final step s es) fs := by
  induction es generalizing s with
  | nil => rfl
  | cons e es ih => exact congrArg (callAt step s e :: ·) (ih (step s e).1)

theorem last_mem_trace (s : σ) (es : List ε) (e : ε) :
    callAt step (final step s es) e ∈ trace step s (es ++ [e]) := by
  simp [trace_append]

/-- A call of a run splits it. -/
theorem split_of_mem_trace {s : σ} {es : List ε} {t : Called σ ε ο} (ht : t ∈ trace step s es) :
    ∃ before e after, es = before ++ e :: after ∧ t = callAt step (final step s before) e := by
  induction es generalizing s with
  | nil => exact absurd ht List.not_mem_nil
  | cons e es ih =>
      obtain rfl | ht := List.mem_cons.mp ht
      · exact ⟨[], e, es, rfl, rfl⟩
      · obtain ⟨before, e', after, rfl, rfl⟩ := ih ht
        exact ⟨e :: before, e', after, rfl, rfl⟩

/-- Each member of a trace is a step of the machine. -/
theorem step_of_mem_trace {s : σ} {es : List ε} {t : Called σ ε ο} (ht : t ∈ trace step s es) :
    step t.pre t.call = (t.post, t.out) ∧ t.call ∈ es := by
  induction es generalizing s with
  | nil => exact absurd ht List.not_mem_nil
  | cons e es ih =>
      obtain rfl | ht := List.mem_cons.mp ht
      · exact ⟨rfl, List.mem_cons_self⟩
      · exact ⟨(ih ht).1, List.mem_cons_of_mem e (ih ht).2⟩

theorem eq_callAt_of_mem_trace {s : σ} {es : List ε} {t : Called σ ε ο}
    (ht : t ∈ trace step s es) : t = callAt step t.pre t.call := by
  rw [callAt, (step_of_mem_trace ht).1]

/-- **The trace rule**: what every call preserves holds before and after every
call of a run. -/
theorem trace_invariant {I : σ → Prop} {es : List ε}
    (hstep : ∀ s e, e ∈ es → I s → I (step s e).1) {s : σ} (hs : I s)
    {t : Called σ ε ο} (ht : t ∈ trace step s es) : I t.pre ∧ I t.post := by
  induction es generalizing s with
  | nil => exact absurd ht List.not_mem_nil
  | cons e es ih =>
      have hs' : I (step s e).1 := hstep s e List.mem_cons_self hs
      obtain rfl | ht := List.mem_cons.mp ht
      · exact ⟨hs, hs'⟩
      · exact ih (fun s₁ e₁ he₁ => hstep s₁ e₁ (List.mem_cons_of_mem e he₁)) hs' ht

theorem final_invariant {I : σ → Prop} {es : List ε}
    (hstep : ∀ s e, e ∈ es → I s → I (step s e).1) {s : σ} (hs : I s) :
    I (final step s es) := by
  induction es generalizing s with
  | nil => exact hs
  | cons e es ih =>
      exact ih (fun s₁ e₁ he₁ => hstep s₁ e₁ (List.mem_cons_of_mem e he₁))
        (hstep s e List.mem_cons_self hs)

/-- **The guarded rule**: what every call that satisfies `Q` preserves, a run of
such calls preserves. -/
theorem trace_guarded {I : σ → Prop} {Q : Called σ ε ο → Prop} {es : List ε}
    (hstep : ∀ s e, Q (callAt step s e) → I s → I (step s e).1) {s : σ} (hs : I s)
    (htrace : ∀ t ∈ trace step s es, Q t) : I (final step s es) := by
  induction es generalizing s with
  | nil => exact hs
  | cons e es ih =>
      rw [trace_cons, List.forall_mem_cons] at htrace
      exact ih (hstep s e htrace.1 hs) htrace.2

/-- The same before every call of the run. -/
theorem trace_guarded_pre {I : σ → Prop} {Q : Called σ ε ο → Prop} {es : List ε}
    (hstep : ∀ s e, Q (callAt step s e) → I s → I (step s e).1) {s : σ} (hs : I s)
    (htrace : ∀ t ∈ trace step s es, Q t) {t : Called σ ε ο} (ht : t ∈ trace step s es) :
    I t.pre := by
  obtain ⟨before, e, after, rfl, rfl⟩ := split_of_mem_trace ht
  refine trace_guarded hstep hs fun t ht => htrace t ?_
  rw [trace_append]
  exact List.mem_append_left _ ht

/-- **The greatest rule**: where every call puts a value in place of a smaller
one, or none, what is there in the end is the greatest of all. -/
theorem trace_greatest {α : Type*} [PartialOrder α] (val : σ → Option α)
    (put : Called σ ε ο → Option α) {s : σ} {es : List ε}
    (hfrom : ∀ t ∈ trace step s es, ∀ a, val t.post = some a → val t.pre = some a ∨ put t = some a)
    (hkept : ∀ t ∈ trace step s es, ∀ a, val t.pre = some a ∨ put t = some a →
      ∃ b, a ≤ b ∧ val t.post = some b) (a : α) :
    val (final step s es) = some a ↔
      IsGreatest {b | val s = some b ∨ ∃ t ∈ trace step s es, put t = some b} a := by
  have hmem : ∀ b, val (final step s es) = some b →
      val s = some b ∨ ∃ t ∈ trace step s es, put t = some b := by
    clear hkept
    induction es generalizing s with
    | nil => exact fun b hb => .inl hb
    | cons e es ih =>
        intro b hb
        simp only [trace_cons, List.forall_mem_cons] at hfrom
        obtain hval | ⟨t, ht, hput⟩ := ih hfrom.2 b hb
        · obtain hval | hput := hfrom.1 b hval
          · exact .inl hval
          · exact .inr ⟨_, List.mem_cons_self, hput⟩
        · exact .inr ⟨t, List.mem_cons_of_mem _ ht, hput⟩
  have hupper : ∀ b, (val s = some b ∨ ∃ t ∈ trace step s es, put t = some b) →
      ∃ c, b ≤ c ∧ val (final step s es) = some c := by
    clear hfrom hmem
    induction es generalizing s with
    | nil =>
        intro b hb
        obtain hval | ⟨t, ht, -⟩ := hb
        · exact ⟨b, le_rfl, hval⟩
        · exact absurd ht List.not_mem_nil
    | cons e es ih =>
        intro b hb
        simp only [trace_cons, List.forall_mem_cons] at hkept
        simp only [trace_cons, List.mem_cons, exists_eq_or_imp] at hb
        have hlater : ∀ b, val (step s e).1 = some b → ∃ c, b ≤ c ∧
            val (final step s (e :: es)) = some c := fun b hval => ih hkept.2 b (.inl hval)
        obtain hval | hput | hput := hb
        · obtain ⟨c, hc, hval⟩ := hkept.1 b (.inl hval)
          obtain ⟨d, hd, hval⟩ := hlater c hval
          exact ⟨d, hc.trans hd, hval⟩
        · obtain ⟨c, hc, hval⟩ := hkept.1 b (.inr hput)
          obtain ⟨d, hd, hval⟩ := hlater c hval
          exact ⟨d, hc.trans hd, hval⟩
        · exact ih hkept.2 b (.inr hput)
  constructor
  · intro hval
    refine ⟨hmem a hval, fun b hb => ?_⟩
    obtain ⟨c, hc, hval'⟩ := hupper b hb
    have heq : a = c := Option.some.inj (hval.symm.trans hval')
    exact heq ▸ hc
  · intro hgreatest
    obtain ⟨c, hc, hval⟩ := hupper a hgreatest.1
    have heq : c = a := le_antisymm (hgreatest.2 (hmem c hval)) hc
    exact heq ▸ hval

/-- A reflexive, transitive relation that every call extends relates the two
ends of every run. -/
theorem final_rel {R : σ → σ → Prop} {es : List ε} (hrefl : ∀ s, R s s)
    (htrans : ∀ s₁ s₂ s₃, R s₁ s₂ → R s₂ s₃ → R s₁ s₃)
    (hstep : ∀ s e, e ∈ es → R s (step s e).1) (s : σ) : R s (final step s es) :=
  final_invariant (I := R s) (fun s₁ e he h => htrans s s₁ _ h (hstep s₁ e he)) (hrefl s)

/-- Two per-call properties that agree wherever an invariant holds, the first
of which keeps the invariant, hold of the same runs. -/
theorem trace_forall_congr {I : σ → Prop} {P Q : Called σ ε ο → Prop} {es : List ε}
    (hPQ : ∀ s e, e ∈ es → I s → (P (callAt step s e) ↔ Q (callAt step s e)))
    (hP : ∀ s e, e ∈ es → I s → P (callAt step s e) → I (step s e).1)
    {s : σ} (hs : I s) :
    (∀ t ∈ trace step s es, P t) ↔ (∀ t ∈ trace step s es, Q t) := by
  induction es generalizing s with
  | nil => simp
  | cons e es ih =>
      simp only [trace_cons, List.forall_mem_cons]
      rw [← hPQ s e List.mem_cons_self hs]
      refine and_congr_right fun hp => ?_
      exact ih (fun s₁ e₁ he₁ => hPQ s₁ e₁ (List.mem_cons_of_mem e he₁))
        (fun s₁ e₁ he₁ => hP s₁ e₁ (List.mem_cons_of_mem e he₁))
        (hP s e List.mem_cons_self hs hp)

end Total

end Mcpmesh.Lib
