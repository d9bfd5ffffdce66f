import Mathlib.Data.List.Basic

/-!
# Mcpmesh.Lib.Entries

An object as the list of its entries.  `modifyEntry` edits the value a lookup
finds and nothing else; a lookup that succeeds splits the list at its entry.
-/

namespace Mcpmesh.Lib

variable {α : Type*}

/-- Edit the value stored under `key`. -/
def modifyEntry (key : String) (edit : α → α) : List (String × α) → List (String × α)
  | [] => []
  | e :: es => if key = e.1 then (e.1, edit e.2) :: es else e :: modifyEntry key edit es

variable {key : String} {edit : α → α} {es pre post : List (String × α)} {v : α}

/-- A lookup that succeeds splits the entries at the first of its key. -/
theorem split_of_lookup (h : es.lookup key = some v) :
    ∃ pre post, es = pre ++ (key, v) :: post ∧ key ∉ pre.map Prod.fst := by
  obtain ⟨pre, post, rfl, hpre⟩ := List.lookup_eq_some_iff.mp h
  refine ⟨pre, post, rfl, fun hmem => ?_⟩
  obtain ⟨e, he, heq⟩ := List.mem_map.mp hmem
  exact absurd heq.symm (bne_iff_ne.mp (hpre e he))

/-- The entry of a key is the first one. -/
@[simp] theorem lookup_split (h : key ∉ pre.map Prod.fst) :
    (pre ++ (key, v) :: post).lookup key = some v := by
  refine List.lookup_eq_some_iff.mpr ⟨pre, post, rfl, fun e he => bne_iff_ne.mpr ?_⟩
  exact fun heq => h (heq ▸ List.mem_map_of_mem he)

/-- An edit is of the first entry. -/
@[simp] theorem modifyEntry_split (h : key ∉ pre.map Prod.fst) :
    modifyEntry key edit (pre ++ (key, v) :: post) = pre ++ (key, edit v) :: post := by
  induction pre with
  | nil => rw [List.nil_append, modifyEntry, if_pos rfl, List.nil_append]
  | cons e pre ih =>
      rw [List.map_cons, List.mem_cons, not_or] at h
      rw [List.cons_append, modifyEntry, if_neg h.1, ih h.2, List.cons_append]

/-- An edit that leaves the value found as it is leaves the entries as they
are. -/
theorem modifyEntry_eq_self (h : ∀ v, es.lookup key = some v → edit v = v) :
    modifyEntry key edit es = es := by
  cases hfound : es.lookup key with
  | some v =>
      obtain ⟨pre, post, rfl, hpre⟩ := split_of_lookup hfound
      rw [modifyEntry_split hpre, h v hfound]
  | none =>
      have hne : ∀ e ∈ es, key ≠ e.1 := fun e he =>
        bne_iff_ne.mp (List.lookup_eq_none_iff.mp hfound e he)
      clear h hfound
      induction es with
      | nil => rfl
      | cons e es ih =>
          rw [modifyEntry, if_neg (hne e List.mem_cons_self),
            ih fun e' he' => hne e' (List.mem_cons_of_mem e he')]

/-- An edit leaves the keys. -/
theorem keys_modifyEntry : (modifyEntry key edit es).map Prod.fst = es.map Prod.fst := by
  induction es with
  | nil => rfl
  | cons e es ih =>
      rw [modifyEntry]
      split
      · rfl
      · rw [List.map_cons, List.map_cons, ih]

/-- An edit, looked up at its key. -/
theorem lookup_modifyEntry_self :
    (modifyEntry key edit es).lookup key = (es.lookup key).map edit := by
  induction es with
  | nil => rfl
  | cons e es ih =>
      rw [modifyEntry]
      by_cases h : key = e.1
      · rw [if_pos h, List.lookup_cons, List.lookup_cons, h, beq_self_eq_true]
        rfl
      · rw [if_neg h, List.lookup_cons, List.lookup_cons, beq_false_of_ne h]
        exact ih

/-- An edit, looked up at another. -/
theorem lookup_modifyEntry_of_ne {key' : String} (hne : key' ≠ key) :
    (modifyEntry key edit es).lookup key' = es.lookup key' := by
  induction es with
  | nil => rfl
  | cons e es ih =>
      rw [modifyEntry]
      split
      · next h => rw [List.lookup_cons, List.lookup_cons, beq_false_of_ne (h ▸ hne)]
      · rw [List.lookup_cons, List.lookup_cons, ih]

end Mcpmesh.Lib
