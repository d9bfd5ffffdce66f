import Mathlib.Algebra.Group.Nat.Defs
import Mathlib.Data.List.Basic

/-!
# Mcpmesh.Lib.Tagged

Byte layouts without ambiguity.

* `leBytes` and `beBytes` write a number in a fixed number of bytes and are
  injective on the numbers that fit.
* `Tags` is a family of prefixes none of which begins another, so that the
  prefix of a buffer tells which member of the family it belongs to.
-/

namespace Mcpmesh.Lib

/-! ## fixed-width numbers -/

/-- The `w` low bytes of `n`, least significant first. -/
def leBytes : Nat → Nat → List UInt8
  | 0, _ => []
  | w + 1, n => UInt8.ofNat n :: leBytes w (n / 256)

/-- The `w` low bytes of `n`, most significant first. -/
def beBytes (w n : Nat) : List UInt8 := (leBytes w n).reverse

@[simp] theorem length_leBytes (w n : Nat) : (leBytes w n).length = w := by
  induction w generalizing n with
  | zero => rfl
  | succ w ih => simp [leBytes, ih]

/-- Numbers that fit are told apart by their bytes. -/
theorem leBytes_injective {w n m : Nat} (hn : n < 256 ^ w) (hm : m < 256 ^ w)
    (h : leBytes w n = leBytes w m) : n = m := by
  induction w generalizing n m with
  | zero => omega
  | succ w ih =>
      rw [leBytes, leBytes, List.cons.injEq] at h
      have hlow : n % 256 = m % 256 := by
        have hbyte := congrArg UInt8.toNat h.1
        rwa [UInt8.toNat_ofNat', UInt8.toNat_ofNat'] at hbyte
      have hhigh : n / 256 = m / 256 := by
        rw [Nat.pow_succ] at hn hm
        exact ih (by omega) (by omega) h.2
      omega

theorem beBytes_injective {w n m : Nat} (hn : n < 256 ^ w) (hm : m < 256 ^ w)
    (h : beBytes w n = beBytes w m) : n = m :=
  leBytes_injective hn hm (List.reverse_injective h)

/-! ## tags -/

/-- A family of tags none of which begins another. -/
structure Tags (κ : Type*) where
  tag : κ → List UInt8
  apart : ∀ k k', tag k <+: tag k' → k = k'

/-- A buffer carries one tag at most. -/
theorem Tags.eq_of_prefix {κ : Type*} (F : Tags κ) {k k' : κ} {m : List UInt8}
    (h : F.tag k <+: m) (h' : F.tag k' <+: m) : k = k' := by
  obtain hle | hle := Nat.le_total (F.tag k).length (F.tag k').length
  · exact F.apart k k' (List.prefix_of_prefix_length_le h h' hle)
  · exact (F.apart k' k (List.prefix_of_prefix_length_le h' h hle)).symm

end Mcpmesh.Lib
