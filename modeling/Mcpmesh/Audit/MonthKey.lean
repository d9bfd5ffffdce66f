import Mcpmesh.Lib.Calendar
import Mcpmesh.Lib.Decimal
import Mathlib.Data.String.Basic

/-!
# Mcpmesh.Audit.MonthKey

The `YYYY-MM` keys that name the monthly audit files
(`node/src/audit/mod.rs`).

The keys that `valid_month_key` accepts are those of the months of the years 0 to
9999, and compare as strings as the months do (`monthText_lt_iff`).
-/

namespace Mcpmesh

open Lib

/-! ## the text of a month -/

/-- `{:04}-{:02}`, as characters. -/
def monthChars (year month : Nat) : List Char := zeroPadded 4 year ++ '-' :: zeroPadded 2 month

def monthText (year month : Nat) : String := .ofList (monthChars year month)

/-- Is `s` a well-formed zero-padded `YYYY-MM` month key? -/
def validMonthKey (s : String) : Bool :=
  match s.toList with
  | [a, b, c, d, '-', e, f] =>
      [a, b, c, d].all Char.isDigit && [e, f].all Char.isDigit &&
        ("01" ≤ String.ofList [e, f] && String.ofList [e, f] ≤ "12")
  | _ => false

/-- The months that a key can name. -/
def Lib.Month.HasKey (m : Month) : Prop := 0 ≤ m.year ∧ m.year < 10000

def Lib.Month.key (m : Month) : String := monthText m.year.toNat m.month

section Text

variable {year month year' month' : Nat}

/-- A month is written as four digits and two. -/
theorem monthChars_eq (hyear : year < 10000) (hmonth : month < 100) :
    monthChars year month = lastDigits 4 year ++ '-' :: lastDigits 2 month := by
  rw [monthChars, zeroPadded_eq (by decide) hyear, zeroPadded_eq (by decide) hmonth]

/-- The texts of two months are in the order of the months: that is what the digits are
padded for. -/
theorem monthText_lt_iff (hyear : year < 10000) (hmonth : month < 100) (hyear' : year' < 10000)
    (hmonth' : month' < 100) : monthText year month < monthText year' month' ↔
      year < year' ∨ year = year' ∧ month < month' := by
  rw [String.lt_iff_toList_lt, monthText, monthText, String.toList_ofList, String.toList_ofList,
    monthChars_eq hyear hmonth, monthChars_eq hyear' hmonth', field_lt_iff hyear hyear',
    lastDigits_lt_iff hmonth hmonth']

end Text

/-! ## well-formed keys -/

/-- The characters of a well-formed key: four digits and, behind the dash, two
from `01` to `12`. -/
structure KeyChars (s : String) (ys ms : List Char) : Prop where
  text : s.toList = ys ++ '-' :: ms
  year_length : ys.length = 4
  month_length : ms.length = 2
  year_digits : ∀ c ∈ ys, c.isDigit = true
  month_digits : ∀ c ∈ ms, c.isDigit = true
  january : ¬ ms < lastDigits 2 1
  december : ¬ lastDigits 2 12 < ms

/-- A text is a month key if it has four digits, a dash and two digits of a month. -/
theorem validMonthKey_iff {s : String} : validMonthKey s = true ↔ ∃ ys ms, KeyChars s ys ms := by
  have hjan : "01".toList = lastDigits 2 1 := by decide +kernel
  have hdec : "12".toList = lastDigits 2 12 := by decide +kernel
  constructor
  · intro h
    unfold validMonthKey at h
    split at h
    · next a b c d e f hs =>
      simp only [Bool.and_eq_true, decide_eq_true_eq, List.all_eq_true, ← String.not_lt,
        String.lt_iff_toList_lt, String.toList_ofList, hjan, hdec] at h
      obtain ⟨⟨hyears, hmonths⟩, hlow, hhigh⟩ := h
      exact ⟨[a, b, c, d], [e, f], hs, rfl, rfl, hyears, hmonths, hlow, hhigh⟩
    · cases h
  · rintro ⟨ys, ms, htext, hys, hms, hyears, hmonths, hlow, hhigh⟩
    match ys, ms with
    | [a, b, c, d], [e, f] =>
        unfold validMonthKey
        rw [htext]
        simp only [List.cons_append, List.nil_append, Bool.and_eq_true, decide_eq_true_eq,
          List.all_eq_true, ← String.not_lt, String.lt_iff_toList_lt, String.toList_ofList,
          hjan, hdec]
        exact ⟨⟨hyears, hmonths⟩, hlow, hhigh⟩

namespace KeyChars

variable {s : String} {ys ms : List Char}

/-- Four digits are a year below 10000. -/
theorem year_lt (h : KeyChars s ys ms) : Nat.ofDigitChars 10 ys 0 < 10000 := by
  have hlt := (lastDigits_ofDigitChars h.year_digits).2
  rwa [h.year_length] at hlt

theorem month_bounds (h : KeyChars s ys ms) :
    1 ≤ Nat.ofDigitChars 10 ms 0 ∧ Nat.ofDigitChars 10 ms 0 ≤ 12 := by
  obtain ⟨hdigits, hlt⟩ := lastDigits_ofDigitChars h.month_digits
  rw [h.month_length] at hdigits hlt
  have hlow := h.january
  have hhigh := h.december
  rw [← hdigits, lastDigits_lt_iff hlt (by decide)] at hlow
  rw [← hdigits, lastDigits_lt_iff (by decide) hlt] at hhigh
  omega

/-- A well-formed key is the text of its year and month. -/
theorem eq_monthText (h : KeyChars s ys ms) :
    s = monthText (Nat.ofDigitChars 10 ys 0) (Nat.ofDigitChars 10 ms 0) := by
  have hyear := (lastDigits_ofDigitChars h.year_digits).1
  obtain ⟨hmonth, hlt⟩ := lastDigits_ofDigitChars h.month_digits
  rw [h.year_length] at hyear
  rw [h.month_length] at hmonth hlt
  rw [monthText, monthChars_eq h.year_lt hlt, hyear, hmonth, ← h.text, String.ofList_toList]

end KeyChars

/-- The text of a year and a month is a well-formed key. -/
theorem keyChars_monthText {year month : Nat} (hyear : year < 10000) (hpos : 1 ≤ month)
    (hmonth : month ≤ 12) :
    KeyChars (monthText year month) (lastDigits 4 year) (lastDigits 2 month) where
  text := by rw [monthText, String.toList_ofList, monthChars_eq hyear (by omega)]
  year_length := length_lastDigits
  month_length := length_lastDigits
  year_digits _ := isDigit_of_mem_lastDigits
  month_digits _ := isDigit_of_mem_lastDigits
  january := by
    rw [lastDigits_lt_iff (by omega) (by decide)]
    omega
  december := by
    rw [lastDigits_lt_iff (by decide) (by omega)]
    omega

/-- A well-formed month key. -/
structure MonthKey where
  text : String
  valid : validMonthKey text = true

namespace MonthKey

def yearChars (k : MonthKey) : List Char := k.text.toList.take 4

def monthChars (k : MonthKey) : List Char := k.text.toList.drop 5

/-- What is written for a month key has the shape of one. -/
theorem keyChars (k : MonthKey) : KeyChars k.text k.yearChars k.monthChars := by
  obtain ⟨ys, ms, h⟩ := validMonthKey_iff.mp k.valid
  have hyears : k.yearChars = ys := by
    rw [yearChars, h.text, List.take_left' h.year_length]
  have hmonths : k.monthChars = ms := by
    have hdash : ys ++ '-' :: ms = (ys ++ ['-']) ++ ms := List.append_cons ys '-' ms
    rw [monthChars, h.text, hdash]
    exact List.drop_left' (by rw [List.length_append, h.year_length]; rfl)
  rwa [hyears, hmonths]

/-- The calendar month that a key names. -/
def month (k : MonthKey) : Month where
  year := Nat.ofDigitChars 10 k.yearChars 0
  month := Nat.ofDigitChars 10 k.monthChars 0
  one_le := k.keyChars.month_bounds.1
  le_twelve := k.keyChars.month_bounds.2

theorem key_month (k : MonthKey) : k.month.key = k.text := k.keyChars.eq_monthText.symm

/-- The month of a key has a key. -/
theorem hasKey_month (k : MonthKey) : k.month.HasKey :=
  ⟨Int.natCast_nonneg _, Int.ofNat_lt.mpr k.keyChars.year_lt⟩

end MonthKey

namespace Lib.Month

variable {m c : Month}

/-- The key of such a month is valid. -/
theorem HasKey.validMonthKey_key (h : m.HasKey) : validMonthKey m.key = true := by
  obtain ⟨hlow, hhigh⟩ := h
  exact validMonthKey_iff.mpr ⟨_, _, keyChars_monthText (by omega) m.one_le m.le_twelve⟩

/-- Keys compare as the months they name. -/
theorem HasKey.key_lt_iff (hm : m.HasKey) (hc : c.HasKey) : m.key < c.key ↔ m < c := by
  obtain ⟨hm, hm'⟩ := hm
  obtain ⟨hc, hc'⟩ := hc
  have hmonth := m.le_twelve
  have hmonth' := c.le_twelve
  rw [key, key, monthText_lt_iff (by omega) (by omega) (by omega) (by omega), lt_iff]
  omega

/-- Two such months with one key are one month. -/
theorem HasKey.key_inj (hm : m.HasKey) (hc : c.HasKey) (h : m.key = c.key) : m = c := by
  rcases lt_trichotomy m c with hlt | heq | hgt
  · exact absurd ((hm.key_lt_iff hc).mpr hlt) (h ▸ lt_irrefl _)
  · exact heq
  · exact absurd ((hc.key_lt_iff hm).mpr hgt) (h ▸ lt_irrefl _)

/-- The key of a month, as a well-formed key. -/
def HasKey.monthKey (h : m.HasKey) : MonthKey := ⟨m.key, h.validMonthKey_key⟩

/-- A month is the month of its key. -/
theorem HasKey.month_monthKey (h : m.HasKey) : h.monthKey.month = m :=
  h.monthKey.hasKey_month.key_inj h h.monthKey.key_month

end Lib.Month

end Mcpmesh
