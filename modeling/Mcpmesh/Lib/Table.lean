import Mathlib.Data.List.Basic
import Mathlib.Data.List.Nodup

/-!
# Mcpmesh.Lib.Table

A table as its rows in key order.  `upsert` replaces the row of its key or puts
a new one where the order wants it; what a lookup finds afterwards does not
depend on the order.
-/

namespace Mcpmesh.Lib

variable {κ α : Type*} [DecidableEq κ]

/-- Insert or replace the row of `key`. -/
def upsert (before : κ → κ → Bool) (key : κ) (row : α) : List (κ × α) → List (κ × α)
  | [] => [(key, row)]
  | r :: rows =>
      if key = r.1 then (key, row) :: rows
      else if before key r.1 then (key, row) :: r :: rows
      else r :: upsert before key row rows

/-- The row of `key`. -/
def rowOf (key : κ) (rows : List (κ × α)) : Option α := (rows.find? (·.1 = key)).map (·.2)

theorem rowOf_cons (key : κ) (r : κ × α) (rows : List (κ × α)) :
    rowOf key (r :: rows) = if r.1 = key then some r.2 else rowOf key rows := by
  rw [rowOf, List.find?_cons]
  split
  · rename_i h
    rw [if_pos (of_decide_eq_true h), Option.map_some]
  · rename_i h
    rw [if_neg (of_decide_eq_false h)]
    rfl

variable (before : κ → κ → Bool) (key : κ) (row : α) (rows : List (κ × α))

@[simp] theorem rowOf_upsert_self : rowOf key (upsert before key row rows) = some row := by
  induction rows with
  | nil => rw [upsert, rowOf_cons, if_pos rfl]
  | cons r rows ih =>
      rw [upsert]
      split
      · rw [rowOf_cons, if_pos rfl]
      · rename_i hne
        split
        · rw [rowOf_cons, if_pos rfl]
        · rw [rowOf_cons, if_neg (Ne.symm hne), ih]

theorem rowOf_upsert_of_ne {key' : κ} (h : key' ≠ key) :
    rowOf key' (upsert before key row rows) = rowOf key' rows := by
  induction rows with
  | nil => rw [upsert, rowOf_cons, if_neg (Ne.symm h)]
  | cons r rows ih =>
      rw [upsert]
      split
      · rename_i heq
        rw [rowOf_cons, if_neg (Ne.symm h), rowOf_cons, if_neg (heq ▸ Ne.symm h)]
      · split
        · rw [rowOf_cons, if_neg (Ne.symm h)]
        · rw [rowOf_cons, rowOf_cons, ih]

theorem rowOf_eq_lookup [BEq κ] [LawfulBEq κ] (key : κ) (rows : List (κ × α)) :
    rowOf key rows = rows.lookup key := by
  induction rows with
  | nil => rfl
  | cons r rows ih =>
      rw [rowOf_cons, List.lookup_cons, ih]
      by_cases h : r.1 = key
      · rw [if_pos h, h, beq_self_eq_true]
      · rw [if_neg h, beq_false_of_ne (Ne.symm h)]

/-- The later write is the one that stays. -/
theorem upsert_upsert (row' : α) :
    upsert before key row' (upsert before key row rows) = upsert before key row' rows := by
  induction rows with
  | nil => simp [upsert]
  | cons r rows ih =>
      rw [upsert.eq_2 _ _ row, upsert.eq_2 _ _ row' r]
      split
      · rw [upsert, if_pos rfl]
      · next hkey =>
        split
        · rw [upsert, if_pos rfl]
        · next hbefore => rw [upsert, if_neg hkey, if_neg hbefore, ih]

/-! ## a table of what the rows say -/

section Map

variable {β : Type*} (f : α → β)

/-- A table read row by row. -/
def mapRows (rows : List (κ × α)) : List (κ × β) := rows.map fun r => (r.1, f r.2)

theorem rowOf_mapRows : rowOf key (mapRows f rows) = (rowOf key rows).map f := by
  induction rows with
  | nil => rfl
  | cons r rows ih =>
      rw [mapRows, List.map_cons, rowOf_cons, rowOf_cons]
      split
      · rfl
      · exact ih

theorem mapRows_upsert :
    mapRows f (upsert before key row rows) = upsert before key (f row) (mapRows f rows) := by
  induction rows with
  | nil => rfl
  | cons r rows ih =>
      rw [upsert, mapRows, mapRows, List.map_cons, upsert]
      split
      · rfl
      · split
        · rfl
        · exact congrArg (_ :: ·) ih

end Map

/-! ## the rows -/

/-- What is kept of the other keys does not change. -/
theorem filter_upsert {p : κ × α → Bool} (h : ∀ row, p (key, row) = false) :
    (upsert before key row rows).filter p = rows.filter p := by
  have hdrop : ∀ rows : List (κ × α), ((key, row) :: rows).filter p = rows.filter p :=
    fun rows => List.filter_cons_of_neg (by simp [h])
  induction rows with
  | nil => exact hdrop []
  | cons r rows ih =>
      rw [upsert]
      split
      · next hkey =>
        have hr : p r = false := by
          have hsame := h r.2
          rwa [hkey] at hsame
        rw [hdrop, List.filter_cons_of_neg (by simp [hr])]
      · split
        · exact hdrop (r :: rows)
        · rw [List.filter_cons, List.filter_cons, ih]

theorem mem_of_rowOf {key : κ} {row : α} {rows : List (κ × α)} (h : rowOf key rows = some row) :
    (key, row) ∈ rows := by
  obtain ⟨r, hfind, rfl⟩ := Option.map_eq_some_iff.mp h
  have hkey : r.1 = key := by simpa using List.find?_some hfind
  exact hkey ▸ List.mem_of_find?_eq_some hfind

theorem rowOf_ne_none {r : κ × α} {rows : List (κ × α)} (hr : r ∈ rows) :
    rowOf r.1 rows ≠ none := by
  simp only [rowOf, ne_eq, Option.map_eq_none_iff, List.find?_eq_none, not_forall]
  exact ⟨r, hr, by simp⟩

/-- A row that is kept is found. -/
theorem rowOf_filter {p : κ × α → Bool} {key : κ} {row : α} {rows : List (κ × α)}
    (h : rowOf key rows = some row) (hkept : p (key, row) = true) :
    rowOf key (rows.filter p) = some row := by
  induction rows with
  | nil => simp [rowOf] at h
  | cons r rows ih =>
      rw [rowOf_cons] at h
      split at h
      · next hkey =>
        have hr : r = (key, row) := Prod.ext hkey (Option.some.inj h)
        simp [hr, hkept, rowOf_cons]
      · next hkey =>
        rw [List.filter_cons]
        split
        · simp [rowOf_cons, hkey, ih h]
        · exact ih h

/-- A filter by the keys keeps the rows of a key, or none of them. -/
theorem rowOf_of_filter {p : κ → Bool} {key : κ} {row : α} {rows : List (κ × α)}
    (h : rowOf key (rows.filter fun r => p r.1) = some row) : rowOf key rows = some row := by
  have hkept : p key = true := by
    have hmem := mem_of_rowOf h
    simpa using (List.mem_filter.mp hmem).2
  induction rows with
  | nil => exact h
  | cons r rows ih =>
      rw [rowOf_cons]
      split
      · next hkey => simpa [List.filter_cons, hkey, hkept, rowOf_cons] using h
      · next hkey =>
        rw [List.filter_cons] at h
        split at h
        · rw [rowOf_cons, if_neg hkey] at h
          exact ih h
        · exact ih h

/-- The rows of other keys stay. -/
theorem mem_upsert_of_ne {r : κ × α} (hr : r ∈ rows) (h : r.1 ≠ key) :
    r ∈ upsert before key row rows := by
  induction rows with
  | nil => contradiction
  | cons r' rows ih =>
      rw [upsert]
      obtain rfl | hr := List.mem_cons.mp hr
      · rw [if_neg (Ne.symm h)]
        split
        · exact List.mem_cons_of_mem _ List.mem_cons_self
        · exact List.mem_cons_self
      · split
        · exact List.mem_cons_of_mem _ hr
        · split
          · exact List.mem_cons_of_mem _ (List.mem_cons_of_mem _ hr)
          · exact List.mem_cons_of_mem _ (ih hr)

/-- Nothing but the new row is added. -/
theorem mem_of_mem_upsert {r : κ × α} (hr : r ∈ upsert before key row rows) :
    r = (key, row) ∨ r ∈ rows := by
  induction rows with
  | nil => exact .inl (List.mem_singleton.mp hr)
  | cons r' rows ih =>
      rw [upsert] at hr
      split at hr
      · exact (List.mem_cons.mp hr).imp_right (List.mem_cons_of_mem r')
      · split at hr
        · exact List.mem_cons.mp hr
        · obtain rfl | hr := List.mem_cons.mp hr
          · exact .inr List.mem_cons_self
          · exact (ih hr).imp_right (List.mem_cons_of_mem r')

/-! ## the order -/

/-- A table in key order stays in key order. -/
theorem pairwise_upsert
    (htrans : ∀ a b c, before a b = true → before b c = true → before a c = true)
    (htotal : ∀ a b, a ≠ b → before a b = false → before b a = true)
    (h : rows.Pairwise fun r r' => before r.1 r'.1 = true) :
    (upsert before key row rows).Pairwise fun r r' => before r.1 r'.1 = true := by
  induction rows with
  | nil => simp [upsert]
  | cons r rows ih =>
      have hhead := (List.pairwise_cons.mp h).1
      have htail := (List.pairwise_cons.mp h).2
      rw [upsert]
      split
      · next hkey => exact List.pairwise_cons.mpr ⟨by rwa [hkey], htail⟩
      · next hkey =>
        split
        · next hbefore =>
          have hall : ∀ r' ∈ r :: rows, before key r'.1 = true := by
            intro r' hr'
            rcases List.mem_cons.mp hr' with rfl | hr'
            · exact hbefore
            · exact htrans key r.1 r'.1 hbefore (hhead r' hr')
          exact List.pairwise_cons.mpr ⟨hall, h⟩
        · next hbefore =>
          have hall : ∀ r' ∈ upsert before key row rows, before r.1 r'.1 = true := by
            intro r' hr'
            rcases mem_of_mem_upsert _ _ _ _ hr' with rfl | hr'
            · exact htotal key r.1 hkey (by simpa using hbefore)
            · exact hhead r' hr'
          exact List.pairwise_cons.mpr ⟨hall, ih htail⟩

/-- In key order, a row that is there is put where it is. -/
theorem upsert_eq_self (hasymm : ∀ a b, before a b = true → before b a = false)
    (h : rows.Pairwise fun r r' => before r.1 r'.1 = true) (hrow : rowOf key rows = some row) :
    upsert before key row rows = rows := by
  induction rows with
  | nil => simp [rowOf] at hrow
  | cons r rows ih =>
      have hhead := (List.pairwise_cons.mp h).1
      have htail := (List.pairwise_cons.mp h).2
      rw [rowOf_cons] at hrow
      rw [upsert]
      by_cases hkey : key = r.1
      · rw [if_pos hkey.symm] at hrow
        simp [hkey, ← Option.some.inj hrow]
      · rw [if_neg (Ne.symm hkey)] at hrow
        have hbefore : before key r.1 = false := hasymm _ _ (hhead _ (mem_of_rowOf hrow))
        simp [hkey, hbefore, ih htail hrow]

omit [DecidableEq κ] in
/-- A table in key order has one row for a key. -/
theorem eq_of_key_eq (hirrefl : ∀ a, before a a = false)
    (h : rows.Pairwise fun r r' => before r.1 r'.1 = true) {r r' : κ × α} (hr : r ∈ rows)
    (hr' : r' ∈ rows) (hkey : r.1 = r'.1) : r = r' := by
  have hnodup : (rows.map Prod.fst).Nodup := by
    refine List.pairwise_map.mpr (h.imp fun hbefore hsame => ?_)
    rw [hsame, hirrefl] at hbefore
    contradiction
  exact List.inj_on_of_nodup_map hnodup hr hr' hkey

end Mcpmesh.Lib
