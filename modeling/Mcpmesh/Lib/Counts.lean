import Mathlib.Data.List.AList
import Mathlib.Data.List.Count

/-!
# Mcpmesh.Lib.Counts

A bag as a map from its members to how often each occurs, the shape of a
`HashMap<K, usize>` of which an entry is removed when it reaches zero.

`count_addAll` and `count_dropAll` say what the operations do to the counts;
`count_flatMap_set` says what a change of one element does to the counts of
what a list yields.
-/

namespace Mcpmesh.Lib

/-- Counts of occurrences; an entry is never zero. -/
structure Counts (κ : Type*) [DecidableEq κ] where
  map : AList fun _ : κ => Nat
  pos : ∀ k n, map.lookup k = some n → 0 < n

namespace Counts

variable {κ : Type*} [DecidableEq κ]

def empty : Counts κ := ⟨∅, fun k n h => by simp at h⟩

variable (c : Counts κ) (k k' : κ)

def count : Nat := (c.map.lookup k).getD 0

def keys : List κ := c.map.keys

/-- `*entry(k).or_insert(0) += 1`. -/
def add : Counts κ where
  map := c.map.insert k (c.count k + 1)
  pos k' n h := by
    by_cases hk : k' = k
    · subst hk
      rw [AList.lookup_insert] at h
      exact Option.some.inj h ▸ Nat.succ_pos _
    · rw [AList.lookup_insert_ne hk] at h
      exact c.pos k' n h

/-- Take one off the entry, if there is one, and remove it at zero. -/
def drop : Counts κ :=
  if h : 1 < c.count k then
    { map := c.map.insert k (c.count k - 1)
      pos := fun k' n hn => by
        by_cases hk : k' = k
        · subst hk
          rw [AList.lookup_insert] at hn
          exact Option.some.inj hn ▸ Nat.sub_pos_of_lt h
        · rw [AList.lookup_insert_ne hk] at hn
          exact c.pos k' n hn }
  else
    { map := c.map.erase k
      pos := fun k' n hn => by
        by_cases hk : k' = k
        · subst hk
          rw [AList.lookup_erase] at hn
          contradiction
        · rw [AList.lookup_erase_ne hk] at hn
          exact c.pos k' n hn }

def addAll (ks : List κ) : Counts κ := ks.foldl add c

def dropAll (ks : List κ) : Counts κ := ks.foldl drop c

variable {c k k'}

/-- Nothing is counted at first. -/
@[simp] theorem count_empty : (empty : Counts κ).count k = 0 := by simp [count, empty]

/-- A key is listed while it is counted. -/
theorem mem_keys : k ∈ c.keys ↔ 0 < c.count k := by
  rw [keys, ← AList.mem_keys, ← not_iff_not, ← AList.lookup_eq_none, count]
  cases h : c.map.lookup k with
  | none => simp
  | some n => simpa using Nat.pos_iff_ne_zero.mp (c.pos k n h)

/-- An add counts its key once more. -/
theorem count_add : (c.add k).count k' = c.count k' + if k' = k then 1 else 0 := by
  by_cases hk : k' = k
  · subst hk
    rw [if_pos rfl, count, add, AList.lookup_insert]
    rfl
  · rw [if_neg hk, count, add, AList.lookup_insert_ne hk]
    rfl

/-- A drop counts its key once less, down to none. -/
theorem count_drop : (c.drop k).count k' = c.count k' - if k' = k then 1 else 0 := by
  unfold drop
  split
  · by_cases hk : k' = k
    · subst hk
      rw [if_pos rfl, count, AList.lookup_insert]
      rfl
    · rw [if_neg hk, count, AList.lookup_insert_ne hk]
      rfl
  · rename_i hle
    by_cases hk : k' = k
    · subst hk
      rw [if_pos rfl, count, AList.lookup_erase, Option.getD_none]
      omega
    · rw [if_neg hk, count, AList.lookup_erase_ne hk]
      rfl

/-- Adds in a row count each key as often as it is among them. -/
theorem count_addAll (ks : List κ) (c : Counts κ) :
    (c.addAll ks).count k = c.count k + ks.count k := by
  induction ks generalizing c with
  | nil => rfl
  | cons k' ks ih =>
      rw [addAll, List.foldl_cons, ← addAll, ih, count_add, List.count_cons]
      simp only [beq_iff_eq, eq_comm (a := k')]
      omega

/-- Drops in a row, likewise. -/
theorem count_dropAll (ks : List κ) (c : Counts κ) :
    (c.dropAll ks).count k = c.count k - ks.count k := by
  induction ks generalizing c with
  | nil => rfl
  | cons k' ks ih =>
      rw [dropAll, List.foldl_cons, ← dropAll, ih, count_drop, List.count_cons]
      simp only [beq_iff_eq, eq_comm (a := k')]
      omega

end Counts

/-- What one element yields is exchanged for what its successor yields. -/
theorem count_flatMap_set {α κ : Type*} [DecidableEq κ] {f : α → List κ} {xs : List α} {i : Nat}
    {a : α} (h : xs[i]? = some a) (b : α) (k : κ) :
    ((xs.set i b).flatMap f).count k + (f a).count k =
      (xs.flatMap f).count k + (f b).count k := by
  induction xs generalizing i with
  | nil => simp at h
  | cons x xs ih =>
      cases i with
      | zero =>
          rw [List.getElem?_cons_zero] at h
          rw [← Option.some.inj h, List.set_cons_zero, List.flatMap_cons, List.flatMap_cons,
            List.count_append, List.count_append]
          omega
      | succ i =>
          rw [List.getElem?_cons_succ] at h
          rw [List.set_cons_succ, List.flatMap_cons, List.flatMap_cons, List.count_append,
            List.count_append, Nat.add_assoc, ih h, Nat.add_assoc]

end Mcpmesh.Lib
