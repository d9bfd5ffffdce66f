import Mathlib.Data.List.Basic

/-!
# Mcpmesh.Lib.Paging

The pages of a list, and the client that walks them: it moves its offset by the
rows it received, until a page says that nothing follows.
-/

namespace Mcpmesh.Lib

structure Page (α : Type*) where
  rows : List α
  total : Nat
  truncated : Bool
  deriving DecidableEq

variable {α : Type*}

namespace Page

/-- At most `limit` rows from `offset` on. -/
def cut (l : List α) (offset limit : Nat) : Page α :=
  let rows := (l.drop offset).take limit
  { rows, total := l.length, truncated := offset + rows.length < l.length }

variable {l : List α} {offset limit : Nat}

theorem rows_length_le : (cut l offset limit).rows.length ≤ limit := List.length_take_le ..

/-- The end of a page is within the list, if its start is. -/
theorem rows_end_le : offset + (cut l offset limit).rows.length ≤ max offset l.length := by
  simp only [cut, List.length_take, List.length_drop]
  omega

theorem truncated_iff : (cut l offset limit).truncated = true ↔
    l.drop (offset + (cut l offset limit).rows.length) ≠ [] := by
  rw [ne_eq, List.drop_eq_nil_iff, Nat.not_le, cut, decide_eq_true_iff]

/-- The rows of a page and what follows it are what followed its start. -/
theorem rows_append_drop :
    (cut l offset limit).rows ++ l.drop (offset + (cut l offset limit).rows.length) =
      l.drop offset := by
  rw [cut, ← List.drop_drop, List.length_take]
  rcases Nat.le_total limit (l.drop offset).length with h | h
  · rw [Nat.min_eq_left h, List.take_append_drop]
  · rw [Nat.min_eq_right h, List.take_of_length_le h, List.drop_length, List.append_nil]

theorem rows_ne_nil (hlimit : 1 ≤ limit) (htruncated : (cut l offset limit).truncated = true) :
    0 < (cut l offset limit).rows.length := by
  simp only [cut, decide_eq_true_eq, List.length_take, List.length_drop] at htruncated ⊢
  omega

end Page

/-! ## walking the pages -/

section Walk

variable {ι : Type*}

/-- Ask for a page with the next limit, until one is not truncated; `none` where
a page is refused, or the fuel ran out first. -/
def walk (fetch : Nat → ι → Option (Page α)) (limits : Nat → ι) :
    (fuel k offset : Nat) → Option (List (Page α))
  | 0, _, _ => none
  | fuel + 1, k, offset =>
      (fetch offset (limits k)).bind fun p =>
        if p.truncated then
          (walk fetch limits fuel (k + 1) (offset + p.rows.length)).map (p :: ·)
        else some [p]

/-- Walking a list gives it back, whatever the limits are as long as each lets a
row through. -/
theorem walk_cut {l : List α} {fetch : Nat → ι → Option (Page α)} {clamp : ι → Nat}
    {limits : Nat → ι}
    (hfetch : ∀ offset ≤ l.length, ∀ i, fetch offset i = some (.cut l offset (clamp i)))
    (hlimits : ∀ k, 1 ≤ clamp (limits k)) (fuel k offset : Nat) (hoffset : offset ≤ l.length)
    (hfuel : l.length < offset + fuel) :
    ∃ pages, walk fetch limits fuel k offset = some pages ∧
      pages.flatMap Page.rows = l.drop offset ∧ ∀ p ∈ pages, p.total = l.length := by
  induction fuel generalizing k offset with
  | zero => omega
  | succ fuel ih =>
      rw [walk, hfetch offset hoffset, Option.bind_some]
      have hend : offset + (Page.cut l offset (clamp (limits k))).rows.length ≤ l.length :=
        Nat.max_eq_right hoffset ▸ Page.rows_end_le
      have happend : _ ++ l.drop _ = l.drop offset :=
        @Page.rows_append_drop _ l offset (clamp (limits k))
      cases htruncated : (Page.cut l offset (clamp (limits k))).truncated with
      | true =>
          have hpos := Page.rows_ne_nil (hlimits k) htruncated
          obtain ⟨pages, hwalk, hrows, htotal⟩ := ih (k + 1) _ hend (by omega)
          refine ⟨_, by rw [if_pos rfl, hwalk, Option.map_some], ?_, ?_⟩
          · rw [List.flatMap_cons, hrows, happend]
          · rintro p (_ | ⟨_, hp⟩)
            · rfl
            · exact htotal p hp
      | false =>
          refine ⟨_, by rw [if_neg Bool.false_ne_true], ?_, ?_⟩
          · have hnil : l.drop _ = [] :=
              not_ne_iff.mp (mt Page.truncated_iff.mpr (Bool.not_eq_true _ ▸ htruncated))
            rw [List.flatMap_singleton, ← happend, hnil, List.append_nil]
          · rintro p hp
            rw [List.mem_singleton.mp hp]
            rfl

end Walk

end Mcpmesh.Lib
