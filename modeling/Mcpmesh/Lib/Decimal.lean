import Mathlib.Data.List.Lex
import Mathlib.Data.List.Induction
import Mathlib.Tactic.Common
import Mathlib.Algebra.Order.Group.Nat

/-!
# Mcpmesh.Lib.Decimal

Decimals of a fixed width.  `lastDigits w n` is the last `w` digits of `n`, and a
number of no more digits is what they say (`ofDigitChars_lastDigits`); numbers of
one width compare as their digits do, which compare lexicographically
(`lastDigits_lt_iff`).

Texts of one layout compare field by field (`append_lt_append_iff`).
-/

namespace Mcpmesh.Lib

/-! ## texts of one layout -/

section Append

variable {α : Type*} [LT α] {xs ys us vs : List α}

/-- The first field decides, and the rest where it is the same. -/
theorem append_lt_append_iff (h : xs.length = ys.length) :
    xs ++ us < ys ++ vs ↔ xs < ys ∨ xs = ys ∧ us < vs := by
  induction xs generalizing ys with
  | nil =>
      obtain rfl := List.eq_nil_of_length_eq_zero h.symm
      simp
  | cons x xs ih =>
      match ys with
      | y :: ys =>
          rw [List.cons_append, List.cons_append, List.cons_lt_cons_iff, List.cons_lt_cons_iff,
            ih (Nat.succ.inj h), List.cons.injEq]
          tauto

end Append

/-! ## the last digits -/

def lastDigits : Nat → Nat → List Char
  | 0, _ => []
  | w + 1, n => lastDigits w (n / 10) ++ [(n % 10).digitChar]

variable {w m n : Nat}

/-- As many digits as are asked for. -/
@[simp] theorem length_lastDigits : (lastDigits w n).length = w := by
  induction w generalizing n with
  | zero => rfl
  | succ w ih => rw [lastDigits, List.length_append, ih, List.length_singleton]

/-- Each of them is a digit. -/
theorem isDigit_of_mem_lastDigits {c : Char} (h : c ∈ lastDigits w n) : c.isDigit = true := by
  induction w generalizing n with
  | zero => cases h
  | succ w ih =>
      rcases List.mem_append.mp h with h | h
      · exact ih h
      · rw [List.mem_singleton.mp h, Nat.isDigit_digitChar]
        exact decide_eq_true (Nat.mod_lt n (by decide))

/-- Zero is written in zeros. -/
theorem lastDigits_zero : lastDigits w 0 = List.replicate w '0' := by
  induction w with
  | zero => rfl
  | succ w ih => rw [lastDigits, Nat.zero_div, ih, List.replicate_succ']; rfl

/-- Digits are read back, if there are enough of them for the number. -/
theorem ofDigitChars_lastDigits (h : n < 10 ^ w) : Nat.ofDigitChars 10 (lastDigits w n) 0 = n := by
  induction w generalizing n with
  | zero =>
      have hzero : n = 0 := by omega
      rw [hzero]
      rfl
  | succ w ih =>
      have hdiv : n / 10 < 10 ^ w := by
        rw [Nat.pow_succ] at h
        omega
      rw [lastDigits, Nat.ofDigitChars_append, ih hdiv,
        Nat.ofDigitChars_cons_digitChar_of_lt_ten (Nat.mod_lt n (by decide)), Nat.ofDigitChars_nil]
      omega

/-- A digit is read back. -/
theorem digitChar_toNat_sub {c : Char} (h : c.isDigit = true) :
    (c.toNat - '0'.toNat).digitChar = c := by
  obtain ⟨hlow, hhigh⟩ := Char.isDigit_iff_toNat.mp h
  have hlow : 48 ≤ c.toNat := hlow
  have hhigh : c.toNat ≤ 57 := hhigh
  have hval : c.toNat - '0'.toNat < 10 := by
    have hzero : '0'.toNat = 48 := rfl
    omega
  refine Char.toNat_inj.mp ?_
  rw [Nat.toNat_digitChar_of_lt_ten hval]
  have hzero : '0'.toNat = 48 := rfl
  omega

/-- Digits are the last digits of the number they say. -/
theorem lastDigits_ofDigitChars {cs : List Char} (h : ∀ c ∈ cs, c.isDigit = true) :
    lastDigits cs.length (Nat.ofDigitChars 10 cs 0) = cs ∧
      Nat.ofDigitChars 10 cs 0 < 10 ^ cs.length := by
  induction cs using List.reverseRecOn with
  | nil => exact ⟨rfl, by decide⟩
  | append_singleton cs c ih =>
      have hc : c.isDigit = true := h c (List.mem_append_right cs List.mem_cons_self)
      obtain ⟨hdigits, hlt⟩ := ih fun d hd => h d (List.mem_append_left [c] hd)
      obtain ⟨-, hnine⟩ := Char.isDigit_iff_toNat.mp hc
      have hval : c.toNat - '0'.toNat < 10 := by
        have hnine : c.toNat ≤ 57 := hnine
        have hzero : '0'.toNat = 48 := rfl
        omega
      have hsum : Nat.ofDigitChars 10 (cs ++ [c]) 0 =
          10 * Nat.ofDigitChars 10 cs 0 + (c.toNat - '0'.toNat) := by
        rw [Nat.ofDigitChars_append, Nat.ofDigitChars_cons, Nat.ofDigitChars_nil]
      rw [List.length_append, List.length_singleton, lastDigits, hsum]
      have hdiv : (10 * Nat.ofDigitChars 10 cs 0 + (c.toNat - '0'.toNat)) / 10 =
          Nat.ofDigitChars 10 cs 0 := by omega
      have hmod : (10 * Nat.ofDigitChars 10 cs 0 + (c.toNat - '0'.toNat)) % 10 =
          c.toNat - '0'.toNat := by omega
      rw [hdiv, hmod, hdigits, digitChar_toNat_sub hc]
      refine ⟨rfl, ?_⟩
      rw [Nat.pow_succ]
      omega

/-- Digits are ordered as the numbers they stand for. -/
theorem digitChar_lt_iff (hm : m < 10) (hn : n < 10) : m.digitChar < n.digitChar ↔ m < n := by
  have hval : m.digitChar < n.digitChar ↔ m.digitChar.toNat < n.digitChar.toNat :=
    UInt32.lt_iff_toNat_lt
  rw [hval, Nat.toNat_digitChar_of_lt_ten hm, Nat.toNat_digitChar_of_lt_ten hn]
  omega

/-- Two numbers with the same digits are the same, if the digits are enough. -/
theorem lastDigits_inj (hm : m < 10 ^ w) (hn : n < 10 ^ w) :
    lastDigits w m = lastDigits w n ↔ m = n := by
  constructor
  · intro h
    rw [← ofDigitChars_lastDigits hm, h, ofDigitChars_lastDigits hn]
  · exact congrArg (lastDigits w)

/-- Numbers of one width compare as their digits. -/
theorem lastDigits_lt_iff (hm : m < 10 ^ w) (hn : n < 10 ^ w) :
    lastDigits w m < lastDigits w n ↔ m < n := by
  induction w generalizing m n with
  | zero => simp [lastDigits, Nat.lt_one_iff.mp hm, Nat.lt_one_iff.mp hn]
  | succ w ih =>
      rw [Nat.pow_succ] at hm hn
      have hdivm : m / 10 < 10 ^ w := by omega
      have hdivn : n / 10 < 10 ^ w := by omega
      have hdigit : ∀ k : Nat, k % 10 < 10 := fun k => Nat.mod_lt k (by decide)
      rw [lastDigits, lastDigits, append_lt_append_iff (by simp), ih hdivm hdivn,
        lastDigits_inj hdivm hdivn, List.cons_lt_cons_iff,
        digitChar_lt_iff (hdigit m) (hdigit n)]
      simp only [List.not_lt_nil, and_false, or_false]
      omega

/-- A field of fixed width, before what follows it. -/
theorem field_lt_iff {c : Char} {us vs : List Char} (hm : m < 10 ^ w) (hn : n < 10 ^ w) :
    lastDigits w m ++ c :: us < lastDigits w n ++ c :: vs ↔ m < n ∨ m = n ∧ us < vs := by
  rw [append_lt_append_iff (by rw [length_lastDigits, length_lastDigits]), List.cons_lt_cons_iff,
    lastDigits_lt_iff hm hn, lastDigits_inj hm hn]
  simp

/-! ## zero padding -/

/-- `{:0w}`: at least `w` digits. -/
def zeroPadded (w n : Nat) : List Char := (Nat.toDigits 10 n).leftpad w '0'

/-- A number is padded to the digits asked for. -/
theorem zeroPadded_eq (hw : 0 < w) (h : n < 10 ^ w) : zeroPadded w n = lastDigits w n := by
  induction w generalizing n with
  | zero => cases hw
  | succ w ih =>
      rw [zeroPadded, Nat.toDigits_eq_if (by decide), lastDigits]
      split
      · next hlt =>
        rw [Nat.div_eq_of_lt hlt, Nat.mod_eq_of_lt hlt, lastDigits_zero]
        simp [List.leftpad]
      · next hge =>
        rw [Nat.pow_succ] at h
        have hdiv : n / 10 < 10 ^ w := by omega
        have hpos : 0 < w := by
          rcases w with - | w
          · omega
          · exact Nat.succ_pos w
        rw [← ih hpos hdiv, zeroPadded]
        simp [List.leftpad]

end Mcpmesh.Lib
