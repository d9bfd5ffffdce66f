import Mathlib.Algebra.BigOperators.Group.Finset.Basic
import Mathlib.Algebra.Order.BigOperators.Group.Finset

/-!
# Mcpmesh.Lib.Thinning

A sequence of counts, thinned: of all counts only those are kept that are a
stride above the one kept before, where the stride may depend on how many were
kept.  What is kept grows, and the strides it took add up to no more than what
was counted.
-/

namespace Mcpmesh.Lib

variable (stride : Nat → Nat)

/-- The counts kept after `n` others, the last of them `anchor`. -/
def thin (n anchor : Nat) : List Nat → List Nat
  | [] => []
  | c :: cs =>
      if stride n ≤ c - anchor then c :: thin (n + 1) c cs else thin n anchor cs

variable {stride} {n anchor bound : Nat} {cs : List Nat}

theorem thin_append (ds : List Nat) : thin stride n anchor (cs ++ ds) =
    thin stride n anchor cs ++ thin stride (n + (thin stride n anchor cs).length)
      ((thin stride n anchor cs).getLastD anchor) ds := by
  induction cs generalizing n anchor with
  | nil => rfl
  | cons c cs ih =>
      rw [List.cons_append, thin, thin]
      split
      · rw [ih, List.cons_append, List.length_cons, List.getLastD_cons, Nat.add_assoc,
          Nat.add_comm 1]
      · exact ih

theorem thin_sublist : (thin stride n anchor cs).Sublist cs := by
  induction cs generalizing n anchor with
  | nil => exact .slnil
  | cons c cs ih =>
      rw [thin]
      split
      · exact ih.cons_cons c
      · exact ih.cons c

/-- What is kept grows from the anchor on. -/
theorem thin_pairwise (hstride : ∀ n, 0 < stride n) :
    (anchor :: thin stride n anchor cs).Pairwise (· ≤ ·) := by
  induction cs generalizing n anchor with
  | nil => exact List.pairwise_singleton ..
  | cons c cs ih =>
      rw [thin]
      split
      · next hkept =>
        have hpos := hstride n
        have hle : anchor ≤ c := by omega
        have hrest := @ih (n + 1) c
        refine List.pairwise_cons.mpr ⟨?_, hrest⟩
        rintro c' (_ | ⟨_, hc'⟩)
        · exact hle
        · exact hle.trans ((List.pairwise_cons.mp hrest).1 c' hc')
      · exact ih

/-- The strides that were taken fit under every bound of the counts. -/
theorem sum_stride_le (hstride : ∀ n, 0 < stride n) (hanchor : anchor ≤ bound)
    (h : ∀ c ∈ cs, c ≤ bound) :
    anchor + ∑ i ∈ Finset.range (thin stride n anchor cs).length, stride (n + i) ≤ bound := by
  induction cs generalizing n anchor with
  | nil => simpa [thin] using hanchor
  | cons c cs ih =>
      rw [List.forall_mem_cons] at h
      rw [thin]
      split
      · next hkept =>
        have hrest := ih (n := n + 1) h.1 h.2
        have hpos := hstride n
        rw [List.length_cons, Finset.sum_range_succ']
        have hshift : ∑ i ∈ Finset.range (thin stride (n + 1) c cs).length, stride (n + (i + 1)) =
            ∑ i ∈ Finset.range (thin stride (n + 1) c cs).length, stride (n + 1 + i) :=
          Finset.sum_congr rfl fun i _ => by rw [Nat.add_assoc, Nat.add_comm i]
        have hfirst : stride (n + 0) = stride n := rfl
        rw [hshift, hfirst]
        omega
      · exact ih hanchor h.2

end Mcpmesh.Lib
