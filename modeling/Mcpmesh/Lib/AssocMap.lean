import Mathlib.Data.List.AList

/-!
# Mcpmesh.Lib.AssocMap

What Mathlib's association lists lack for a table that is rebuilt from another:
an edit of the values that may drop some, and one lookup lemma for each of
`insert`, `erase` and the union.
-/

namespace Mcpmesh.Lib

variable {κ α β : Type*}

/-- An edit that drops some values leaves the other keys in their order. -/
theorem keys_filterMap_sublist (g : α → Option β) (l : List (Sigma fun _ : κ => α)) :
    (l.filterMap fun e => (g e.2).map fun b => (⟨e.1, b⟩ : Sigma fun _ : κ => β)).keys.Sublist
      l.keys := by
  induction l with
  | nil => exact List.nil_sublist _
  | cons e l ih =>
      rw [List.filterMap_cons]
      cases g e.2 with
      | none => exact ih.cons e.1
      | some b => exact ih.cons_cons e.1

/-- Edit or drop every value. -/
def filterMapValues (g : α → Option β) (m : AList fun _ : κ => α) : AList fun _ : κ => β :=
  ⟨m.entries.filterMap fun e => (g e.2).map fun b => ⟨e.1, b⟩,
    List.Nodup.sublist (keys_filterMap_sublist g m.entries) m.nodupKeys⟩

variable [DecidableEq κ] {m m' : AList fun _ : κ => α} {k k' : κ} {a : α}

/-- An edit of the values, looked up. -/
theorem lookup_filterMapValues (g : α → Option β) :
    (filterMapValues g m).lookup k = (m.lookup k).bind g := by
  refine Option.ext fun b => ?_
  rw [← Option.mem_def, AList.mem_lookup_iff, filterMapValues, List.mem_filterMap,
    Option.bind_eq_some_iff]
  constructor
  · rintro ⟨⟨k', a⟩, ha, heq⟩
    obtain ⟨b', hb', heq⟩ := Option.map_eq_some_iff.mp heq
    obtain ⟨rfl, rfl⟩ : k' = k ∧ b' = b := by simpa using heq
    exact ⟨a, AList.mem_lookup_iff.mpr ha, hb'⟩
  · rintro ⟨a, ha, hb⟩
    exact ⟨⟨k, a⟩, AList.mem_lookup_iff.mp ha, by rw [hb]; rfl⟩

/-- The first map shadows the second. -/
theorem lookup_union_eq_or : (m ∪ m').lookup k = (m.lookup k).or (m'.lookup k) := by
  by_cases hk : k ∈ m
  · obtain ⟨a, ha⟩ := Option.isSome_iff_exists.mp (AList.lookup_isSome.mpr hk)
    rw [AList.lookup_union_left hk, ha, Option.some_or]
  · rw [AList.lookup_union_right hk, AList.lookup_eq_none.mpr hk, Option.none_or]

/-- An insert, looked up at any key. -/
theorem lookup_alist_insert :
    (m.insert k a).lookup k' = if k' = k then some a else m.lookup k' := by
  split
  · next h =>
    subst h
    exact AList.lookup_insert m
  · next h => exact AList.lookup_insert_ne h

/-- An erase, looked up at any key. -/
theorem lookup_alist_erase :
    (m.erase k).lookup k' = if k' = k then none else m.lookup k' := by
  split
  · next h =>
    subst h
    exact AList.lookup_erase k' m
  · next h => exact AList.lookup_erase_ne h

end Mcpmesh.Lib
