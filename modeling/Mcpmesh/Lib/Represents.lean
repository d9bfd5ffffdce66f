import Mcpmesh.Lib.AssocMap
import Mcpmesh.Lib.Document

/-!
# Mcpmesh.Lib.Represents

Rows in key order that represent an association list: under each key the two find
values that a relation holds of, or nothing.  An edit of the rows is an edit of
the list, and of two fallible edits that go alike both succeed or neither does.
-/

namespace Mcpmesh.Lib

variable {κ α β : Type*} [DecidableEq κ]

structure Represents (before : κ → κ → Bool) (R : α → β → Prop) (rows : List (κ × α))
    (m : AList fun _ : κ => β) : Prop where
  ordered : rows.Pairwise fun r r' => before r.1 r'.1 = true
  values (k : κ) : Option.Rel R (rowOf k rows) (m.lookup k)

/-- Related options give related values, where the defaults are related. -/
theorem rel_getD {R : α → β → Prop} {x : Option α} {y : Option β} {a : α} {b : β}
    (h : Option.Rel R x y) (hab : R a b) : R (x.getD a) (y.getD b) := by
  cases h with
  | none => exact hab
  | some h => exact h

namespace Represents

variable {before : κ → κ → Bool} {R : α → β → Prop} {rows : List (κ × α)}
  {m : AList fun _ : κ => β} {k : κ} {a : α} {b : β}

/-- No rows represent the empty map. -/
theorem nil : Represents before R ([] : List (κ × α)) (∅ : AList fun _ : κ => β) where
  ordered := .nil
  values _ := .none

/-! ## what is found -/

/-- A key without a row is not in the map. -/
theorem lookup_none (h : Represents before R rows m) (hrow : rowOf k rows = none) :
    m.lookup k = none := by
  have hk := h.values k
  rw [hrow] at hk
  cases hlookup : m.lookup k with
  | none => rfl
  | some b => rw [hlookup] at hk; nomatch hk

/-- The row of a key is related to the value that the map has for it. -/
theorem lookup_some (h : Represents before R rows m) (hrow : rowOf k rows = some a) :
    ∃ b, m.lookup k = some b ∧ R a b := by
  have hk := h.values k
  rw [hrow] at hk
  cases hlookup : m.lookup k with
  | none => rw [hlookup] at hk; nomatch hk
  | some b =>
      rw [hlookup] at hk
      cases hk with
      | some hab => exact ⟨b, rfl, hab⟩

/-- A test of the values that the relation carries over finds one in both or in
neither. -/
theorem any_eq (p : α → Bool) (q : β → Bool) (hirrefl : ∀ a, before a a = false)
    (h : Represents before R rows m) (hpq : ∀ a b, R a b → p a = q b) :
    rows.any (fun r => p r.2) = m.entries.any fun e => q e.2 := by
  refine Bool.eq_iff_iff.mpr ?_
  rw [List.any_eq_true, List.any_eq_true]
  constructor
  · rintro ⟨r, hr, hp⟩
    obtain ⟨a, hrow⟩ := Option.ne_none_iff_exists'.mp (rowOf_ne_none hr)
    -- in key order the row that is found is this one
    have hsame : r = (r.1, a) := eq_of_key_eq before rows hirrefl h.ordered hr
      (mem_of_rowOf hrow) rfl
    obtain ⟨b, hlookup, hab⟩ := h.lookup_some hrow
    refine ⟨⟨r.1, b⟩, AList.mem_lookup_iff.mp hlookup, ?_⟩
    rw [hsame] at hp
    rwa [hpq a b hab] at hp
  · rintro ⟨e, he, hq⟩
    have hlookup : m.lookup e.1 = some e.2 := AList.mem_lookup_iff.mpr he
    cases hrow : rowOf e.1 rows with
    | none =>
        rw [h.lookup_none hrow] at hlookup
        contradiction
    | some a =>
        obtain ⟨b, hb, hab⟩ := h.lookup_some hrow
        rw [hlookup] at hb
        cases hb
        exact ⟨(e.1, a), mem_of_rowOf hrow, (hpq a e.2 hab).trans hq⟩

/-! ## edits -/

/-- An upsert of the rows is an insert into the map, where the rows are kept in a linear
order. -/
theorem upsert (htrans : ∀ a b c, before a b = true → before b c = true → before a c = true)
    (htotal : ∀ a b, a ≠ b → before a b = false → before b a = true)
    (h : Represents before R rows m) (hab : R a b) :
    Represents before R (Lib.upsert before k a rows) (m.insert k b) where
  ordered := pairwise_upsert before k a rows htrans htotal h.ordered
  values k' := by
    rw [lookup_alist_insert]
    split
    · next hk =>
      rw [hk, rowOf_upsert_self]
      exact .some hab
    · next hk =>
      rw [rowOf_upsert_of_ne before k a rows hk]
      exact h.values k'

/-- Dropping the row of a key is erasing the key. -/
theorem erase (h : Represents before R rows m) :
    Represents before R (eraseRow k rows) (m.erase k) where
  ordered := h.ordered.filter _
  values k' := by
    rw [lookup_alist_erase]
    split
    · next hk =>
      rw [hk, rowOf_eraseRow_self]
      exact .none
    · next hk =>
      rw [rowOf_eraseRow_of_ne hk]
      exact h.values k'

/-- An edit of every row is an edit of every value. -/
theorem map {f : α → α} {g : β → β} (h : Represents before R rows m)
    (hfg : ∀ a b, R a b → R (f a) (g b)) :
    Represents before R (mapRows f rows) (filterMapValues (fun b => some (g b)) m) where
  ordered := List.pairwise_map.mpr h.ordered
  values k := by
    rw [rowOf_mapRows, lookup_filterMapValues]
    cases hrow : rowOf k rows with
    | none =>
        rw [h.lookup_none hrow]
        exact .none
    | some a =>
        obtain ⟨b, hlookup, hab⟩ := h.lookup_some hrow
        rw [hlookup]
        exact .some (hfg a b hab)

end Represents

/-! ## fallible edits -/

/-- Both succeed with results that are related, or both fail with such errors. -/
inductive Alike {ε ε' α β : Type*} (E : ε → ε' → Prop) (R : α → β → Prop) :
    Except ε α → Except ε' β → Prop
  | ok {a : α} {b : β} (h : R a b) : Alike E R (.ok a) (.ok b)
  | error {e : ε} {e' : ε'} (h : E e e') : Alike E R (.error e) (.error e')

namespace Alike

universe u v

variable {ε ε' σ : Type*} {α α' : Type u} {β β' : Type v} {E : ε → ε' → Prop} {R : α → β → Prop}
  {R' : α' → β' → Prop} {x : Except ε α} {y : Except ε' β}

/-- Two computations in sequence are alike where their parts are. -/
theorem bind {f : α → Except ε α'} {g : β → Except ε' β'} (h : Alike E R x y)
    (hfg : ∀ a b, R a b → Alike E R' (f a) (g b)) : Alike E R' (x >>= f) (y >>= g) := by
  cases h with
  | ok h => exact hfg _ _ h
  | error h => exact .error h

/-- A pure step at the end keeps two computations alike. -/
theorem map {f : α → α'} {g : β → β'} (h : Alike E R x y) (hfg : ∀ a b, R a b → R' (f a) (g b)) :
    Alike E R' (x.map f) (y.map g) := by
  cases h with
  | ok h => exact .ok (hfg _ _ h)
  | error h => exact .error h

/-- Two folds are alike where each of their steps is; they fail together. -/
theorem foldlM {f : α → σ → Except ε α} {g : β → σ → Except ε' β} {a : α} {b : β} (l : List σ)
    (h : R a b) (hstep : ∀ a b s, R a b → Alike E R (f a s) (g b s)) :
    Alike E R (l.foldlM f a) (l.foldlM g b) := by
  induction l generalizing a b with
  | nil => exact .ok h
  | cons s l ih =>
      rw [List.foldlM_cons, List.foldlM_cons]
      exact (hstep a b s h).bind fun a b h => ih h

end Alike

end Mcpmesh.Lib
