import Mcpmesh.Lib.Table
import Mathlib.Data.Set.Basic

/-!
# Mcpmesh.Lib.Document

A document of nested tables.  A value is found by its path of keys, and a change
is described by the paths it is about (`ChangesAt`): what is not on one of them,
above or below, stays.
-/

namespace Mcpmesh.Lib

/-! ## tables -/

section Erase

variable {κ α : Type*} [DecidableEq κ]

def eraseRow (key : κ) (rows : List (κ × α)) : List (κ × α) := rows.filter (·.1 ≠ key)

variable {key key' : κ} {rows : List (κ × α)}

@[simp] theorem rowOf_nil : rowOf key ([] : List (κ × α)) = none := rfl

/-- An erased row is gone. -/
@[simp] theorem rowOf_eraseRow_self : rowOf key (eraseRow key rows) = none := by
  by_contra h
  obtain ⟨row, hrow⟩ := Option.ne_none_iff_exists'.mp h
  simpa using (List.mem_filter.mp (mem_of_rowOf hrow)).2

/-- An erasure leaves the other rows. -/
theorem rowOf_eraseRow_of_ne (h : key' ≠ key) :
    rowOf key' (eraseRow key rows) = rowOf key' rows := by
  induction rows with
  | nil => rfl
  | cons r rows ih =>
      rw [eraseRow, List.filter_cons, rowOf_cons key' r]
      split
      · rw [rowOf_cons]
        exact ite_congr rfl (fun _ => rfl) fun _ => ih
      · next hr =>
        have hkey : r.1 = key := by simpa using hr
        rw [if_neg (hkey ▸ Ne.symm h)]
        exact ih

end Erase

/-! ## documents -/

inductive Document (α : Type*) where
  | leaf (a : α)
  | table (rows : List (String × Document α))

namespace Document

variable {α : Type*}

/-- The value at a path. -/
def get : List String → Document α → Option (Document α)
  | [], n => some n
  | _ :: _, .leaf _ => none
  | k :: ks, .table rows => (rowOf k rows).bind (get ks)

/-- The two documents differ at most at the paths, below them, and in the tables
above them. -/
def ChangesAt (paths : Set (List String)) (n n' : Document α) : Prop :=
  ∀ path, (∀ p ∈ paths, ¬p <+: path ∧ ¬path <+: p) → n'.get path = n.get path

variable {paths paths' : Set (List String)} {n n' n'' : Document α}
  {rows rows' : List (String × Document α)} {key : String}

theorem ChangesAt.refl (paths : Set (List String)) (n : Document α) : ChangesAt paths n n :=
  fun _ _ => rfl

/-- Changes in turn are changes under the same paths. -/
theorem ChangesAt.trans (h : ChangesAt paths n n') (h' : ChangesAt paths n' n'') :
    ChangesAt paths n n'' := fun path hpath => (h' path hpath).trans (h path hpath)

/-- A change under some paths is one under more. -/
theorem ChangesAt.mono (h : ChangesAt paths n n') (hsub : paths ⊆ paths') :
    ChangesAt paths' n n' := fun path hpath => h path fun p hp => hpath p (hsub hp)

/-- A path off the paths below a key, from the key on. -/
theorem off_of_cons {p path : List String}
    (h : ¬(key :: p) <+: (key :: path) ∧ ¬(key :: path) <+: (key :: p)) :
    ¬p <+: path ∧ ¬path <+: p := by
  rwa [List.prefix_cons_inj, List.prefix_cons_inj] at h

/-- Rows that stay are not on the paths. -/
theorem changesAt_rows {keys : Set String} (hkeys : keys.Nonempty)
    (h : ∀ k ∉ keys, rowOf k rows' = rowOf k rows) :
    ChangesAt ((fun k => [k]) '' keys) (.table rows) (.table rows') := by
  intro path hpath
  cases path with
  | nil =>
      obtain ⟨k, hk⟩ := hkeys
      exact absurd List.nil_prefix (hpath [k] ⟨k, hk, rfl⟩).2
  | cons k ks =>
      have hne : k ∉ keys := fun hk => (hpath [k] ⟨k, hk, rfl⟩).1 (List.prefix_append [k] ks)
      rw [get, get, h k hne]

/-- A change within the table of a key, which may have to be made. -/
theorem changesAt_key (hpaths : paths.Nonempty)
    (hothers : ∀ k, k ≠ key → rowOf k rows' = rowOf k rows) (hkey : rowOf key rows' = some n')
    (h : ChangesAt paths ((rowOf key rows).getD (.table [])) n') :
    ChangesAt ((key :: ·) '' paths) (.table rows) (.table rows') := by
  intro path hpath
  obtain ⟨p, hp⟩ := hpaths
  cases path with
  | nil => exact absurd List.nil_prefix (hpath (key :: p) ⟨p, hp, rfl⟩).2
  | cons k ks =>
      rw [get, get]
      by_cases hk : k = key
      · subst hk
        have hks : ∀ p ∈ paths, ¬p <+: ks ∧ ¬ks <+: p :=
          fun p hp => off_of_cons (hpath (k :: p) ⟨p, hp, rfl⟩)
        rw [hkey, Option.bind_some, h ks hks]
        cases hrow : rowOf k rows with
        | some n => rfl
        | none =>
            cases ks with
            | nil => exact absurd List.nil_prefix (hks p hp).2
            | cons k' ks => rfl
      · rw [hothers k hk]

/-- A change within every row. -/
theorem changesAt_mapRows {f : Document α → Document α} (hpaths : paths.Nonempty)
    (h : ∀ n, ChangesAt paths n (f n)) :
    ChangesAt {path | ∃ k, ∃ p ∈ paths, path = k :: p} (.table rows)
      (.table (mapRows f rows)) := by
  intro path hpath
  obtain ⟨p, hp⟩ := hpaths
  cases path with
  | nil => exact absurd List.nil_prefix (hpath ("" :: p) ⟨"", p, hp, rfl⟩).2
  | cons k ks =>
      rw [get, get, rowOf_mapRows]
      cases hrow : rowOf k rows with
      | none => rfl
      | some n => exact h n ks fun p hp => off_of_cons (hpath (k :: p) ⟨k, p, hp, rfl⟩)

end Document

end Mcpmesh.Lib
