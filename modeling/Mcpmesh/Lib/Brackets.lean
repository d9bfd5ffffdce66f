import Mathlib.Data.List.Nodup

/-!
# Mcpmesh.Lib.Brackets

A log in which each key is opened once and later closed once, and what a reader
makes of it who joins in the middle.

A reader that joins at a position reads the marks from there on, and knows
besides some keys from elsewhere.  Every close that it reads makes sense to it
exactly when it knows the keys that were open before its position and are closed
after it.
-/

namespace Mcpmesh.Lib

inductive Mark (κ : Type*) where
  | opened (k : κ)
  | closed (k : κ)
  deriving DecidableEq

variable {κ : Type*} {log : List (Mark κ)} {k : κ} {m : Mark κ} {n : Nat} {known : List κ}

/-- No mark is repeated, and a key is closed after it is opened. -/
structure Bracketed (log : List (Mark κ)) : Prop where
  nodup : log.Nodup
  order : ∀ before k after, log = before ++ .closed k :: after → .opened k ∈ before

/-- Every close in what is read is of a key that is known, or was read to open
before it. -/
def Explained (known : List κ) (read : List (Mark κ)) : Prop :=
  ∀ before k after, read = before ++ .closed k :: after → k ∈ known ∨ .opened k ∈ before

/-- Nothing was opened and nothing closed. -/
theorem bracketed_nil : Bracketed ([] : List (Mark κ)) :=
  ⟨List.nodup_nil, fun before k after h => by simp at h⟩

/-- A new mark keeps the log bracketed, if it closes what was opened before. -/
theorem Bracketed.snoc (h : Bracketed log) (hnew : m ∉ log)
    (horder : ∀ k, m = .closed k → .opened k ∈ log) : Bracketed (log ++ [m]) where
  nodup := by simpa [List.nodup_append, h.nodup] using fun a ha (heq : a = m) => hnew (heq ▸ ha)
  order before k after heq := by
    obtain rfl | ⟨rest, last, rfl⟩ := List.eq_nil_or_concat after
    · obtain ⟨rfl, hm⟩ := List.append_inj' heq rfl
      exact horder k (List.singleton_inj.mp hm)
    · have hlog : log ++ [m] = (before ++ .closed k :: rest) ++ [last] := by simpa using heq
      exact h.order before k rest (List.append_inj' hlog rfl).1

/-- A mark of the log is before the cut or after it. -/
theorem mem_take_or_mem_drop : m ∈ log.take n ∨ m ∈ log.drop n ↔ m ∈ log := by
  rw [← List.mem_append, List.take_append_drop]

/-- No mark is on both sides of a cut. -/
theorem Bracketed.not_mem_drop (h : Bracketed log) (hm : m ∈ log.take n) : m ∉ log.drop n := by
  have hnodup := h.nodup
  rw [← List.take_append_drop n log, List.nodup_append] at hnodup
  exact fun hdrop => hnodup.2.2 m hm m hdrop rfl

/-- **The reader's rule**: what is closed after the reader joined is opened
after it too, or known. -/
theorem Bracketed.explained_drop_iff (h : Bracketed log) : Explained known (log.drop n) ↔
    ∀ k, .opened k ∈ log.take n → .closed k ∈ log.drop n → k ∈ known := by
  constructor
  · intro hexplained k hopened hclosed
    obtain ⟨before, after, heq⟩ := List.append_of_mem hclosed
    obtain hknown | hbefore := hexplained before k after heq
    · exact hknown
    · exact absurd (heq ▸ List.mem_append_left _ hbefore) (h.not_mem_drop hopened)
  · intro hknown before k after heq
    have hopened : .opened k ∈ log.take n ++ before := by
      refine h.order _ k after ?_
      rw [List.append_assoc, ← heq, List.take_append_drop]
    obtain htake | hbefore := List.mem_append.mp hopened
    · exact .inl (hknown k htake (by simp [heq]))
    · exact .inr hbefore

end Mcpmesh.Lib
