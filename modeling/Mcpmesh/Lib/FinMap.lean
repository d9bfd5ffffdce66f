import Mathlib.Data.Finmap

/-!
# Mcpmesh.Lib.FinMap

What Mathlib's finite maps lack for a table: an edit of all the values, a test
whether some value passes, and one lookup lemma for `insert`.
-/

namespace Mcpmesh.Lib

variable {κ α β : Type*}

/-- Edit every value. -/
def mapValues (f : α → β) (m : Finmap fun _ : κ => α) : Finmap fun _ : κ => β :=
  ⟨m.entries.map fun e => ⟨e.1, f e.2⟩, by
    have hkeys : (m.entries.map fun e => (⟨e.1, f e.2⟩ : Sigma fun _ : κ => β)).keys =
        m.entries.keys := Multiset.map_map ..
    exact Multiset.nodup_keys.mp (hkeys ▸ Multiset.nodup_keys.mpr m.nodupKeys)⟩

variable [DecidableEq κ]

/-- Some value passes. -/
def anyValue (p : α → Bool) (m : Finmap fun _ : κ => α) : Bool :=
  ∃ k ∈ m.keys, (m.lookup k).any p = true

variable {m : Finmap fun _ : κ => α} {k k' : κ} {a : α}

/-- An edit of the values, looked up. -/
theorem lookup_mapValues (f : α → β) (m : Finmap fun _ : κ => α) (k : κ) :
    (mapValues f m).lookup k = (m.lookup k).map f := by
  refine Option.ext fun b => ?_
  rw [Finmap.lookup_eq_some_iff, Option.map_eq_some_iff, mapValues, Multiset.mem_map]
  constructor
  · rintro ⟨⟨k', a⟩, ha, heq⟩
    obtain ⟨rfl, rfl⟩ : k' = k ∧ f a = b := by simpa using heq
    exact ⟨a, Finmap.lookup_eq_some_iff.mpr ha, rfl⟩
  · rintro ⟨a, ha, rfl⟩
    exact ⟨⟨k, a⟩, Finmap.lookup_eq_some_iff.mp ha, rfl⟩

/-- Some value satisfies the test if that of some key does. -/
theorem anyValue_iff {p : α → Bool} :
    anyValue p m = true ↔ ∃ k a, m.lookup k = some a ∧ p a = true := by
  rw [anyValue, decide_eq_true_iff]
  refine exists_congr fun k => ?_
  rw [Option.any_eq_true, Finmap.mem_keys, ← Finmap.lookup_isSome, and_iff_right_of_imp]
  rintro ⟨a, ha, -⟩
  rw [ha, Option.isSome_some]

/-- An insert, looked up at any key. -/
theorem lookup_insert_eq_ite (m : Finmap fun _ : κ => α) :
    (m.insert k a).lookup k' = if k' = k then some a else m.lookup k' := by
  split
  · next h =>
    subst h
    exact Finmap.lookup_insert m
  · next h => exact Finmap.lookup_insert_of_ne m h

end Mcpmesh.Lib
