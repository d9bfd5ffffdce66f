import Mathlib.Data.List.Perm.Basic
import Mcpmesh.Lib.Table

/-!
# Mcpmesh.Lib.Grouping

Items gathered under their keys: a table in key order in which each item edits
the row of its key (`entry(key).or_insert(fresh)`).

Where each key has a row, no row is made and each is edited by the items of its
key, in their order (`foldl_editEntry`); and the items of the keys are together
the items (`flatMap_filter_perm`).
-/

namespace Mcpmesh.Lib

variable {κ α ι : Type*} [DecidableEq κ]

/-- `entry(key).or_insert(fresh)`, edited. -/
def editEntry (before : κ → κ → Bool) (key : κ) (fresh : α) (edit : α → α)
    (rows : List (κ × α)) : List (κ × α) :=
  upsert before key (edit ((rowOf key rows).getD fresh)) rows

section Rows

variable {before : κ → κ → Bool} {key : κ} {row : α} {rows : List (κ × α)}

/-- A key without a row is given one. -/
theorem upsert_perm_cons (h : key ∉ rows.map Prod.fst) :
    (upsert before key row rows).Perm ((key, row) :: rows) := by
  induction rows with
  | nil => exact List.Perm.refl _
  | cons r rows ih =>
      obtain ⟨hne, hrest⟩ := not_or.mp fun hmem => h (List.mem_cons.mpr hmem)
      rw [upsert, if_neg hne]
      split
      · exact List.Perm.refl _
      · exact ((ih hrest).cons r).trans (List.Perm.swap (key, row) r rows)

/-- In key order, a row that is there is edited where it is. -/
theorem editEntry_eq_map {fresh : α} {edit : α → α}
    (hasymm : ∀ a b, before a b = true → before b a = false)
    (h : rows.Pairwise fun r r' => before r.1 r'.1 = true) (hkey : key ∈ rows.map Prod.fst) :
    editEntry before key fresh edit rows =
      rows.map fun r => if r.1 = key then (r.1, edit r.2) else r := by
  induction rows with
  | nil => contradiction
  | cons r rows ih =>
      obtain ⟨hhead, htail⟩ := List.pairwise_cons.mp h
      rw [editEntry, rowOf_cons, upsert, List.map_cons]
      by_cases hsame : r.1 = key
      · have hrest : rows.map (fun r => if r.1 = key then (r.1, edit r.2) else r) = rows := by
          refine (List.map_congr_left fun r' hr' => if_neg fun hr'key => ?_).trans
            (List.map_id rows)
          have hbefore := hhead r' hr'
          rw [hr'key, ← hsame] at hbefore
          exact Bool.false_ne_true ((hasymm _ _ hbefore).symm.trans hbefore)
        rw [if_pos hsame, if_pos hsame.symm, if_pos hsame, hrest, hsame, Option.getD_some]
      · have hlater := (List.mem_cons.mp hkey).resolve_left (Ne.symm hsame)
        obtain ⟨r', hr', hr'key⟩ := List.mem_map.mp hlater
        have hbefore : before key r.1 = false := hasymm _ _ (hr'key ▸ hhead r' hr')
        rw [if_neg hsame, if_neg (Ne.symm hsame), if_neg (Bool.eq_false_iff.mp hbefore),
          if_neg hsame]
        exact congrArg (r :: ·) (ih htail hlater)

end Rows

/-! ## the items of a key -/

section Items

variable {before : κ → κ → Bool} {rows : List (κ × α)} {items : List ι}
  (keyOf : ι → κ)

/-- The items of each key edit its row, in their order. -/
theorem foldl_editEntry (fresh : ι → α) (edit : ι → α → α)
    (hasymm : ∀ a b, before a b = true → before b a = false)
    (h : rows.Pairwise fun r r' => before r.1 r'.1 = true)
    (howned : ∀ i ∈ items, keyOf i ∈ rows.map Prod.fst) :
    items.foldl (fun rows i => editEntry before (keyOf i) (fresh i) (edit i) rows) rows =
      rows.map fun r =>
        (r.1, (items.filter (keyOf · = r.1)).foldl (fun row i => edit i row) r.2) := by
  induction items generalizing rows with
  | nil => exact (List.map_id rows).symm
  | cons i items ih =>
      obtain ⟨hi, hrest⟩ := List.forall_mem_cons.mp howned
      have hkeys : (rows.map fun r => if r.1 = keyOf i then (r.1, edit i r.2) else r).map Prod.fst =
          rows.map Prod.fst := by
        rw [List.map_map]
        refine List.map_congr_left fun r _ => ?_
        rw [Function.comp_apply]
        split
        · rfl
        · rfl
      have hordered : (rows.map fun r => if r.1 = keyOf i then (r.1, edit i r.2) else r).Pairwise
          fun r r' => before r.1 r'.1 = true := by
        have hfst : (rows.map Prod.fst).Pairwise fun a b => before a b = true :=
          List.pairwise_map.mpr h
        rw [← hkeys] at hfst
        exact List.pairwise_map.mp hfst
      rw [List.foldl_cons, editEntry_eq_map hasymm h hi, ih hordered (hkeys ▸ hrest), List.map_map]
      refine List.map_congr_left fun r _ => ?_
      rw [Function.comp_apply]
      by_cases hkey : r.1 = keyOf i
      · have hhead : (i :: items).filter (keyOf · = r.1) = i :: items.filter (keyOf · = r.1) :=
          List.filter_cons_of_pos (decide_eq_true hkey.symm)
        rw [if_pos hkey, hhead, List.foldl_cons]
      · have hhead : (i :: items).filter (keyOf · = r.1) = items.filter (keyOf · = r.1) :=
          List.filter_cons_of_neg (by simpa using Ne.symm hkey)
        rw [if_neg hkey, hhead]

theorem filter_or_perm {p q : ι → Bool} (hdisj : ∀ i, p i = true → q i = false) :
    (items.filter p ++ items.filter q).Perm (items.filter fun i => p i || q i) := by
  induction items with
  | nil => exact List.Perm.refl _
  | cons i items ih =>
      cases hp : p i with
      | true =>
          rw [List.filter_cons_of_pos hp, List.filter_cons_of_neg (by simp [hdisj i hp]),
            List.filter_cons_of_pos (by simp [hp])]
          exact ih.cons i
      | false =>
          rw [List.filter_cons_of_neg (by simp [hp])]
          cases hq : q i with
          | true =>
              rw [List.filter_cons_of_pos hq, List.filter_cons_of_pos (by simp [hq])]
              exact List.perm_middle.trans (ih.cons i)
          | false =>
              rw [List.filter_cons_of_neg (by simp [hq]),
                List.filter_cons_of_neg (by simp [hp, hq])]
              exact ih

/-- The items of some keys. -/
theorem flatMap_filter_keys {keys : List κ} (hkeys : keys.Nodup) :
    (keys.flatMap fun k => items.filter (keyOf · = k)).Perm
      (items.filter fun i => keyOf i ∈ keys) := by
  induction keys with
  | nil => simp
  | cons k keys ih =>
      obtain ⟨hk, hrest⟩ := List.nodup_cons.mp hkeys
      have hmem : (items.filter fun i => decide (keyOf i ∈ k :: keys)) =
          items.filter fun i => decide (keyOf i = k) || decide (keyOf i ∈ keys) :=
        List.filter_congr fun i _ => by simp only [List.mem_cons, Bool.decide_or]
      rw [List.flatMap_cons, hmem]
      refine ((ih hrest).append_left _).trans (filter_or_perm fun i hi => ?_)
      rw [of_decide_eq_true hi]
      exact decide_eq_false hk

/-- Each item is one of its key's. -/
theorem flatMap_filter_perm {keys : List κ} (hkeys : keys.Nodup)
    (howned : ∀ i ∈ items, keyOf i ∈ keys) :
    (keys.flatMap fun k => items.filter (keyOf · = k)).Perm items := by
  have hall : (items.filter fun i => decide (keyOf i ∈ keys)) = items :=
    List.filter_eq_self.mpr fun i hi => decide_eq_true (howned i hi)
  exact (flatMap_filter_keys keyOf hkeys).trans (List.Perm.of_eq hall)

end Items

end Mcpmesh.Lib
