import Mathlib.Data.List.Nodup

/-!
# Mcpmesh.Lib.Keyed

A map whose values carry their own key, as a list of values with pairwise
different keys: the shape of a `HashMap<K, V>` filled by `insert(v.key, v)` and
saved as its values.  Every operation is described by the values it leaves.
-/

namespace Mcpmesh.Lib

/-- Values with pairwise different keys. -/
structure Keyed {α κ : Type*} (key : α → κ) where
  items : List α
  nodup : (items.map key).Nodup

namespace Keyed

variable {α κ : Type*} {key : α → κ}

def empty : Keyed key := ⟨[], List.nodup_nil⟩

/-- Keep the values that satisfy `p`. -/
def retain (m : Keyed key) (p : α → Bool) : Keyed key :=
  ⟨m.items.filter p, m.nodup.sublist (List.filter_sublist.map key)⟩

/-- What is kept is what the test keeps. -/
@[simp] theorem mem_retain {m : Keyed key} {p : α → Bool} {a : α} :
    a ∈ (m.retain p).items ↔ a ∈ m.items ∧ p a = true :=
  List.mem_filter

/-- A key stores one value. -/
theorem eq_of_key {m : Keyed key} {a b : α} (ha : a ∈ m.items) (hb : b ∈ m.items)
    (hkey : key a = key b) : a = b :=
  List.inj_on_of_nodup_map m.nodup ha hb hkey

variable [DecidableEq κ]

/-- The value stored under `k`. -/
def lookup (m : Keyed key) (k : κ) : Option α := m.items.find? (key · = k)

/-- Remove the value stored under `k`. -/
def remove (m : Keyed key) (k : κ) : Keyed key := m.retain (key · ≠ k)

/-- Store `a` under its key, in place of what was there. -/
def insert (m : Keyed key) (a : α) : Keyed key :=
  ⟨(m.remove (key a)).items ++ [a], by
    rw [List.map_append, List.nodup_append']
    refine ⟨(m.remove (key a)).nodup, List.nodup_singleton _, fun k hk hmem => ?_⟩
    obtain ⟨b, hb, rfl⟩ := List.mem_map.mp hk
    exact of_decide_eq_true (List.mem_filter.mp hb).2 (List.mem_singleton.mp hmem)⟩

/-- Store values one after the other. -/
def ofList (xs : List α) : Keyed key := xs.foldl insert empty

variable {m : Keyed key} {a b : α} {k : κ}

/-- A removal leaves what has another key. -/
@[simp] theorem mem_remove : a ∈ (m.remove k).items ↔ a ∈ m.items ∧ key a ≠ k := by
  simp [remove]

/-- An insert replaces what has its key. -/
@[simp] theorem mem_insert :
    a ∈ (m.insert b).items ↔ a ∈ m.items ∧ key a ≠ key b ∨ a = b := by
  simp [insert]

/-- What is found is there, and has the key. -/
theorem mem_of_lookup (h : m.lookup k = some a) : a ∈ m.items ∧ key a = k :=
  ⟨List.mem_of_find?_eq_some h, by simpa using List.find?_some h⟩

/-- Nothing is found if nothing has the key. -/
theorem lookup_eq_none : m.lookup k = none ↔ ∀ a ∈ m.items, key a ≠ k := by
  simp [lookup]

/-- Only listed values are stored. -/
theorem mem_of_mem_ofList {xs : List α} (h : a ∈ (ofList xs : Keyed key).items) : a ∈ xs := by
  have hfold : ∀ (ys : List α) (m : Keyed key), a ∈ (ys.foldl insert m).items →
      a ∈ m.items ∨ a ∈ ys := by
    intro ys
    induction ys with
    | nil => exact fun m h => .inl h
    | cons y ys ih =>
        intro m h
        obtain h | h := ih (m.insert y) h
        · obtain h | rfl := mem_insert.mp h
          · exact .inl h.1
          · exact .inr List.mem_cons_self
        · exact .inr (List.mem_cons_of_mem y h)
  exact (hfold xs empty h).resolve_left List.not_mem_nil

end Keyed

end Mcpmesh.Lib
