import Mathlib.Logic.Basic

/-!
# Mcpmesh.Lib.Fallible

Early returns.

* In `Except`, `okOr` and `ensure` are `Option::ok_or` and `anyhow::ensure!`,
  and each comes with the equation that peels a successful `do` block apart one
  `?` at a time.
* An `Action` also edits a state, and an error keeps what was edited before it;
  `apply` runs one, and its equations execute a `do` block one statement at a
  time.  The `_ok` lemmas peel a successful one apart.
-/

namespace Mcpmesh.Lib

universe u v

variable {ε : Type u} {ε' : Type u} {α β : Type v}

/-- `Option::ok_or`. -/
def okOr (x : Option α) (e : ε) : Except ε α :=
  match x with
  | some a => .ok a
  | none => .error e

/-- `anyhow::ensure!`. -/
def ensure (c : Bool) (e : ε) : Except ε Unit := if c then .ok () else .error e

/-- A sequence succeeds when both halves do. -/
theorem bind_eq_ok {x : Except ε α} {f : α → Except ε β} {b : β} :
    (x >>= f) = .ok b ↔ ∃ a, x = .ok a ∧ f a = .ok b := by
  cases x with
  | error e => simp [bind, Except.bind]
  | ok a => simp [bind, Except.bind]

@[simp] theorem ok_bind (a : α) (f : α → Except ε β) : (Except.ok a >>= f) = f a := rfl

@[simp] theorem okOr_some (a : α) (e : ε) : okOr (some a) e = .ok a := rfl

/-- A lookup succeeds with what is there. -/
@[simp] theorem okOr_eq_ok {x : Option α} {e : ε} {a : α} : okOr x e = .ok a ↔ x = some a := by
  cases x <;> simp [okOr]

@[simp] theorem ensure_true (e : ε) : ensure true e = .ok () := rfl

/-- A check passes exactly when its condition holds. -/
@[simp] theorem ensure_eq_ok {c : Bool} {e : ε} {u : Unit} : ensure c e = .ok u ↔ c = true := by
  cases c <;> simp [ensure]

@[simp] theorem mapError_ok (a : α) (f : ε → ε') :
    (Except.ok a : Except ε α).mapError f = .ok a := rfl

@[simp] theorem mapError_error (e : ε) (f : ε → ε') :
    (Except.error e : Except ε α).mapError f = .error (f e) := rfl

/-- A mapped error does not touch a success. -/
@[simp] theorem mapError_eq_ok {x : Except ε α} {f : ε → ε'} {a : α} :
    x.mapError f = .ok a ↔ x = .ok a := by
  cases x <;> simp

/-- The option of a result is its success. -/
theorem toOption_eq_some {x : Except ε α} {a : α} : x.toOption = some a ↔ x = .ok a := by
  cases x <;> simp [Except.toOption]

/-- A result is a success if it has a value. -/
theorem isOk_iff {x : Except ε α} : x.isOk = true ↔ ∃ a, x = .ok a := by
  cases x <;> simp [Except.isOk, Except.toBool]

/-! ## actions on a state -/

/-- A fallible edit of a state in place: an error does not undo earlier edits. -/
abbrev Action (σ ε : Type) : Type → Type := ExceptT ε (StateM σ)

namespace Action

variable {σ ε α β : Type}

/-- The state an action leaves, and its result. -/
def apply (m : Action σ ε α) (s : σ) : σ × Except ε α := ((m.run.run s).2, (m.run.run s).1)

/-- A computation that reads no state. -/
def attempt (x : Except ε α) : Action σ ε α := ExceptT.mk (pure x)

/-- An action on a part of the state. -/
def zoom {τ ε' : Type} (part : σ → τ) (put : σ → τ → σ) (f : ε' → ε) (m : Action τ ε' α) :
    Action σ ε α :=
  ExceptT.mk fun s => ((m.apply (part s)).2.mapError f, put s (m.apply (part s)).1)

variable {s : σ}

/-- A sequence goes on from the state that its first part leaves. -/
theorem apply_bind (m : Action σ ε α) (f : α → Action σ ε β) :
    apply (m >>= f) s =
      match apply m s with
      | (s', .ok a) => apply (f a) s'
      | (s', .error e) => (s', .error e) := by
  simp only [apply, ExceptT.run_bind, StateT.run_bind]
  generalize m.run.run s = p
  obtain ⟨x, s'⟩ := p
  cases x with
  | ok a => rfl
  | error e => rfl

/-- A throw leaves the state as it is. -/
theorem apply_throw_bind (e : ε) (f : α → Action σ ε β) :
    apply (throw e >>= f) s = (s, .error e) := rfl

theorem apply_get (f : σ → Action σ ε α) : apply (get >>= f) s = apply (f s) s := rfl

theorem apply_modify_bind (g : σ → σ) (f : Unit → Action σ ε α) :
    apply (modify g >>= f) s = apply (f ()) (g s) := rfl

/-- A pure step that succeeds hands on its value, in the same state. -/
theorem apply_attempt_ok {x : Except ε α} {a : α} (h : x = .ok a) (f : α → Action σ ε β) :
    apply (attempt x >>= f) s = apply (f a) s := by
  rw [h]
  rfl

/-- A pure step that fails ends the sequence, in the same state. -/
theorem apply_attempt_error {x : Except ε α} {e : ε} (h : x = .error e) (f : α → Action σ ε β) :
    apply (attempt x >>= f) s = (s, .error e) := by
  rw [h]
  rfl

theorem apply_tryCatch (m : Action σ ε α) (handle : ε → Action σ ε α) :
    apply (tryCatch m handle) s =
      match apply m s with
      | (s', .ok a) => (s', .ok a)
      | (s', .error e) => apply (handle e) s' := by
  simp only [apply, ExceptT.run, tryCatch, tryCatchThe, MonadExceptOf.tryCatch, ExceptT.tryCatch,
    ExceptT.mk]
  rw [StateT.run_bind]
  generalize StateT.run m s = p
  obtain ⟨r, s'⟩ := p
  cases r with
  | ok a => rfl
  | error e => rfl

/-- **The frame rule**: a transitive relation that both halves extend, a
sequence extends. -/
theorem apply_bind_rel {R : σ → σ → Prop} (htrans : ∀ s₁ s₂ s₃, R s₁ s₂ → R s₂ s₃ → R s₁ s₃)
    {m : Action σ ε α} {f : α → Action σ ε β} (hm : ∀ s, R s (apply m s).1)
    (hf : ∀ a s, R s (apply (f a) s).1) (s : σ) : R s (apply (m >>= f) s).1 := by
  have hs := hm s
  rw [apply_bind]
  cases h : apply m s with
  | mk s' r =>
      rw [h] at hs
      cases r with
      | ok a => exact htrans _ _ _ hs (hf a s')
      | error e => exact hs

/-! ### actions that succeed -/

variable {s' : σ} {a : α} {b : β}

/-- A sequence succeeds when both halves do. -/
theorem bind_ok {m : Action σ ε α} {f : α → Action σ ε β} :
    apply (m >>= f) s = (s', .ok b) ↔
      ∃ s₁ a, apply m s = (s₁, .ok a) ∧ apply (f a) s₁ = (s', .ok b) := by
  rw [apply_bind]
  cases hm : apply m s with
  | mk s₁ r =>
      cases r with
      | error e => simp
      | ok a => simp [and_assoc]

/-- A sequence that succeeds succeeds in its pure first step. -/
theorem attempt_bind_ok {x : Except ε α} {f : α → Action σ ε β} :
    apply (attempt x >>= f) s = (s', .ok b) ↔ ∃ a, x = .ok a ∧ apply (f a) s = (s', .ok b) := by
  cases x with
  | error e => simp [apply_attempt_error]
  | ok a => simp [apply_attempt_ok]

/-- A return changes nothing. -/
theorem pure_ok {a' : α} : apply (pure a : Action σ ε α) s = (s', .ok a') ↔ s = s' ∧ a = a' := by
  rw [show apply (pure a : Action σ ε α) s = (s, .ok a) from rfl, Prod.mk.injEq, Except.ok.injEq]

/-- A pure step that succeeds changes nothing. -/
theorem attempt_ok {x : Except ε α} :
    apply (attempt x : Action σ ε α) s = (s', .ok a) ↔ s = s' ∧ x = .ok a := by
  rw [show apply (attempt x : Action σ ε α) s = (s, x) from rfl, Prod.mk.injEq]

theorem modify_ok {g : σ → σ} {u : Unit} :
    apply (modify g : Action σ ε Unit) s = (s', .ok u) ↔ g s = s' := by
  rw [show apply (modify g : Action σ ε Unit) s = (g s, .ok ()) from rfl, Prod.mk.injEq]
  simp

theorem modify_bind_ok {g : σ → σ} {f : Unit → Action σ ε α} :
    apply (modify g >>= f) s = (s', .ok a) ↔ apply (f ()) (g s) = (s', .ok a) :=
  Iff.rfl

/-- A handler that fails adds no success. -/
theorem tryCatch_ok {m : Action σ ε α} {handle : ε → Action σ ε α}
    (hfails : ∀ e s, ∃ s' e', apply (handle e) s = (s', .error e'))
    (h : apply (tryCatch m handle) s = (s', .ok a)) : apply m s = (s', .ok a) := by
  rw [apply_tryCatch] at h
  cases hm : apply m s with
  | mk s₁ r =>
      rw [hm] at h
      cases r with
      | ok a' => exact h
      | error e =>
          dsimp only at h
          obtain ⟨s₂, e', hhandle⟩ := hfails e s₁
          rw [hhandle] at h
          exact absurd (Prod.mk.inj h).2 (by simp)

/-- An action on a part succeeds with what it does to the part. -/
theorem zoom_ok {τ ε' : Type} {part : σ → τ} {put : σ → τ → σ} {f : ε' → ε}
    {m : Action τ ε' α} :
    apply (zoom part put f m) s = (s', .ok a) ↔
      ∃ t, m.apply (part s) = (t, .ok a) ∧ put s t = s' := by
  rw [show apply (zoom part put f m) s =
    (put s (m.apply (part s)).1, (m.apply (part s)).2.mapError f) from rfl]
  cases m.apply (part s) with
  | mk t r =>
      rw [Prod.mk.injEq, mapError_eq_ok]
      constructor
      · rintro ⟨hput, hr⟩
        exact ⟨t, congrArg _ hr, hput⟩
      · rintro ⟨t', heq, hput⟩
        obtain ⟨rfl, hr⟩ := Prod.mk.inj heq
        exact ⟨hput, hr⟩

end Action

end Mcpmesh.Lib
