import Mathlib.Algebra.Group.End
import Mathlib.Data.Prod.Lex
import Mathlib.Data.Int.Order.Basic
import Mathlib.Order.Monotone.Basic
import Mathlib.Tactic.Common
import Mathlib.Tactic.Ring

/-!
# Mcpmesh.Lib.Calendar

The proleptic Gregorian calendar: months, dates and the day after a date.

A year is leap by the 4/100/400 rule; a `Date` is a day of its month.  The day
after is a permutation of the dates, so that a date is some number of days from
any other, forwards or backwards.  `zpow_succ_ofMarch` says which date that is:
`ofMarch y r` is the `r`-th day of the year that begins on March 1 of `y`, and
`yearStart y` the number of days from March 1 of the year 0 to that day.
-/

namespace Mcpmesh.Lib

/-! ## months -/

@[ext]
structure Month where
  year : Int
  month : Nat
  one_le : 1 ≤ month
  le_twelve : month ≤ 12
  deriving DecidableEq

namespace Month

variable (m c : Month)

/-- Months from January of the year 0. -/
def index : Int := m.year * 12 + m.month - 1

/-- Two months with one index are one month. -/
theorem index_injective : Function.Injective index := by
  intro m c h
  have hm := m.one_le
  have hm' := m.le_twelve
  have hc := c.one_le
  have hc' := c.le_twelve
  simp only [index] at h
  exact Month.ext (by omega) (by omega)

instance : LinearOrder Month := LinearOrder.lift' index index_injective

variable {m c}

theorem lt_iff_index : m < c ↔ m.index < c.index := Iff.rfl

/-- Months are ordered by the year, then by the month in it. -/
theorem lt_iff : m < c ↔ m.year < c.year ∨ m.year = c.year ∧ m.month < c.month := by
  have hm := m.one_le
  have hm' := m.le_twelve
  have hc := c.one_le
  have hc' := c.le_twelve
  rw [lt_iff_index, index, index]
  omega

variable (m)

/-- The month after. -/
def next : Month :=
  if h : m.month < 12 then
    { m with month := m.month + 1, one_le := by omega, le_twelve := h }
  else { year := m.year + 1, month := 1, one_le := by decide, le_twelve := by decide }

/-- The month before. -/
def prev : Month :=
  if h : 1 < m.month then
    { m with month := m.month - 1, one_le := by omega, le_twelve := by have := m.le_twelve; omega }
  else { year := m.year - 1, month := 12, one_le := by decide, le_twelve := by decide }

/-- The months are numbered through. -/
@[simp] theorem index_next : m.next.index = m.index + 1 := by
  have hle := m.le_twelve
  unfold next
  split
  · simp only [index]
    omega
  · simp only [index]
    omega

@[simp] theorem index_prev : m.prev.index = m.index - 1 := by
  have hpos := m.one_le
  unfold prev
  split
  · simp only [index]
    omega
  · simp only [index]
    omega

/-- Forth and back. -/
@[simp] theorem prev_next : m.next.prev = m := index_injective (by simp)

/-- Back and forth. -/
@[simp] theorem next_prev : m.prev.next = m := index_injective (by simp)

/-- The month after is later. -/
theorem lt_next : m < m.next := by
  rw [lt_iff_index, index_next]
  omega

theorem index_iterate_next (k : Nat) : (next^[k] m).index = m.index + k := by
  induction k with
  | zero => simp
  | succ k ih =>
      rw [Function.iterate_succ_apply', index_next, ih]
      omega

/-- `c` comes `k` months after `m`. -/
theorem iterate_next_eq_iff {k : Nat} : next^[k] m = c ↔ c.index = m.index + k := by
  rw [← index_iterate_next]
  constructor
  · rintro rfl
    rfl
  · intro h
    exact index_injective h.symm

end Month

/-! ## leap years -/

def Leap (y : Int) : Prop := 4 ∣ y ∧ (¬ 100 ∣ y ∨ 400 ∣ y)

instance (y : Int) : Decidable (Leap y) := inferInstanceAs (Decidable (_ ∧ _))

/-- The days of a month, in a leap year or not. -/
def monthDays (leap : Bool) : Nat → Nat
  | 2 => if leap then 29 else 28
  | 4 | 6 | 9 | 11 => 30
  | _ => 31

def Month.days (m : Month) : Nat := monthDays (decide (Leap m.year)) m.month

/-- A month has at least one day. -/
theorem monthDays_pos (leap : Bool) (m : Nat) : 1 ≤ monthDays leap m := by
  unfold monthDays
  split
  · split <;> decide
  all_goals decide

/-- Only February knows leap years. -/
theorem monthDays_of_ne_two {m : Nat} (h : m ≠ 2) (leap leap' : Bool) :
    monthDays leap m = monthDays leap' m := by
  unfold monthDays
  split
  · exact absurd rfl h
  all_goals rfl

/-! ## dates -/

@[ext]
structure Date where
  month : Month
  day : Nat
  one_le : 1 ≤ day
  le_days : day ≤ month.days
  deriving DecidableEq

namespace Date

/-- The date of a year, a month and a day. -/
def ofCivil (y : Int) (m d : Nat)
    (h : 1 ≤ m ∧ m ≤ 12 ∧ 1 ≤ d ∧ d ≤ monthDays (decide (Leap y)) m) : Date where
  month := { year := y, month := m, one_le := h.1, le_twelve := h.2.1 }
  day := d
  one_le := h.2.2.1
  le_days := h.2.2.2

variable (d e : Date)

def key : Month ×ₗ Nat := toLex (d.month, d.day)

/-- Two dates with one key are one date. -/
theorem key_injective : Function.Injective key := by
  rintro ⟨m, k, _, _⟩ ⟨m', k', _, _⟩ h
  obtain ⟨rfl, rfl⟩ := Prod.mk.inj (toLex.injective h)
  rfl

instance : LinearOrder Date := LinearOrder.lift' key key_injective

variable {d e}

/-- Dates are ordered by the month, then by the day in it. -/
theorem lt_iff : d < e ↔ d.month < e.month ∨ d.month = e.month ∧ d.day < e.day :=
  Prod.Lex.toLex_lt_toLex

variable (d)

/-- The day after. -/
def next : Date :=
  if h : d.day < d.month.days then { d with day := d.day + 1, one_le := by omega, le_days := h }
  else { month := d.month.next, day := 1, one_le := by decide, le_days := monthDays_pos .. }

/-- The day before. -/
def prev : Date :=
  if h : 1 < d.day then
    { d with day := d.day - 1, one_le := by omega, le_days := (Nat.sub_le ..).trans d.le_days }
  else
    { month := d.month.prev, day := d.month.prev.days, one_le := monthDays_pos ..,
      le_days := by rfl }

/-- Forth and back, over the end of a month too. -/
theorem prev_next : d.next.prev = d := by
  obtain ⟨m, k, hk, hk'⟩ := d
  unfold next
  split
  · next h =>
    have hlt : 1 < k + 1 := by omega
    simp only [prev, dif_pos hlt, Nat.add_sub_cancel]
  · next h =>
    have hlast : k = m.days := by
      dsimp only at h
      omega
    simp only [prev, lt_self_iff_false, dite_false, Month.prev_next, hlast]

/-- Back and forth, over the first of a month too. -/
theorem next_prev : d.prev.next = d := by
  obtain ⟨m, k, hk, hk'⟩ := d
  unfold prev
  split
  · next h =>
    dsimp only at h
    have hlt : k - 1 < m.days := by omega
    have hk1 : k - 1 + 1 = k := by omega
    simp only [next, dif_pos hlt, hk1]
  · next h =>
    have hfirst : k = 1 := by
      dsimp only at h
      omega
    simp only [next, lt_self_iff_false, dite_false, Month.next_prev, hfirst]

/-- The day after, on all dates. -/
def succ : Equiv.Perm Date := ⟨next, prev, prev_next, next_prev⟩

@[simp] theorem succ_apply : succ d = d.next := rfl

/-- The day after is later. -/
theorem lt_next : d < d.next := by
  unfold next
  split
  · exact lt_iff.mpr (.inr ⟨rfl, Nat.lt_succ_self _⟩)
  · exact lt_iff.mpr (.inl (Month.lt_next _))

/-- One day more is the day after, before the epoch too. -/
theorem zpow_succ_add_one (z : Int) : (succ ^ (z + 1)) d = ((succ ^ z) d).next := by
  rw [add_comm, zpow_one_add, Equiv.Perm.mul_apply, succ_apply]

/-- Dates grow with the days. -/
theorem zpow_succ_lt {z w : Int} (h : z < w) : (succ ^ z) d < (succ ^ w) d := by
  refine @strictMono_int_of_lt_succ _ _ (fun z : Int => (succ ^ z) d) (fun z => ?_) z w h
  rw [zpow_succ_add_one]
  exact lt_next _

end Date

/-! ## years that begin in March -/

/-- Days from March 1 of the year 0 to March 1 of the year `y`. -/
def yearStart (y : Int) : Int := 365 * y + y / 4 - y / 100 + y / 400

/-- The days of a year that begins in March: the leap day is its last. -/
def marchYearDays (leap : Bool) : Nat := if leap then 366 else 365

/-- A year that starts in March is as long as the February at its end says. -/
theorem yearStart_add_one (y : Int) :
    yearStart (y + 1) = yearStart y + marchYearDays (decide (Leap (y + 1))) := by
  by_cases hleap : Leap (y + 1)
  · rw [decide_eq_true hleap]
    simp only [yearStart, marchYearDays, if_true]
    unfold Leap at hleap
    omega
  · rw [decide_eq_false hleap]
    simp only [yearStart, marchYearDays, Bool.false_eq_true, if_false]
    unfold Leap at hleap
    omega

/-- The months since March on day `r` of such a year. -/
def sinceMarch (r : Nat) : Nat := (5 * r + 2) / 153

def marchMonth (r : Nat) : Nat :=
  if sinceMarch r < 10 then sinceMarch r + 3 else sinceMarch r - 9

def marchDay (r : Nat) : Nat := r - (153 * sinceMarch r + 2) / 5 + 1

/-- The month of a day in the March year is one of the twelve. -/
theorem marchMonth_bounds {r : Nat} (h : r < 366) : 1 ≤ marchMonth r ∧ marchMonth r ≤ 12 := by
  have hmonths : sinceMarch r ≤ 11 := by
    unfold sinceMarch
    omega
  unfold marchMonth
  split
  · omega
  · omega

/-- The day in its month is within the month, in common and in leap years. -/
theorem marchDay_le : ∀ leap, ∀ r < marchYearDays leap,
    marchDay r ≤ monthDays leap (marchMonth r) := by
  decide +kernel

/-- The day after, within a year. -/
theorem march_succ : ∀ leap, ∀ r < marchYearDays leap - 1,
    if marchDay r < monthDays leap (marchMonth r) then
      marchMonth (r + 1) = marchMonth r ∧ marchDay (r + 1) = marchDay r + 1
    else
      marchMonth (r + 1) = marchMonth r % 12 + 1 ∧ marchDay (r + 1) = 1 ∧ marchMonth r ≠ 2 := by
  decide +kernel

theorem marchYearDays_le (leap : Bool) : marchYearDays leap ≤ 366 := by
  cases leap <;> decide

theorem marchYearDays_pos (leap : Bool) : 0 < marchYearDays leap := by
  cases leap <;> decide

/-- The last day is the last of February. -/
theorem march_last {leap : Bool} {r : Nat} (h : r + 1 = marchYearDays leap) :
    marchMonth r = 2 ∧ marchDay r = monthDays leap 2 := by
  obtain rfl : r = marchYearDays leap - 1 := by omega
  cases leap <;> decide

/-- The month of day `r` of the year that begins on March 1 of `y`. -/
def Month.ofMarch (y : Int) (r : Nat) (h : r < 366) : Month where
  year := if marchMonth r ≤ 2 then y + 1 else y
  month := marchMonth r
  one_le := (marchMonth_bounds h).1
  le_twelve := (marchMonth_bounds h).2

/-- The February of such a year is that of the next. -/
theorem Month.days_ofMarch {y : Int} {r : Nat} (h : r < 366) :
    (Month.ofMarch y r h).days = monthDays (decide (Leap (y + 1))) (marchMonth r) := by
  unfold Month.days Month.ofMarch
  dsimp only
  by_cases hfeb : marchMonth r = 2
  · rw [if_pos (by omega)]
  · exact monthDays_of_ne_two hfeb ..

/-- Within a March year the months follow each other, January after December. -/
theorem Month.next_ofMarch {y : Int} {r : Nat} (h : r + 1 < 366)
    (hnext : marchMonth (r + 1) = marchMonth r % 12 + 1) (hfeb : marchMonth r ≠ 2) :
    (Month.ofMarch y r (by omega)).next = Month.ofMarch y (r + 1) h := by
  obtain ⟨hpos, hle⟩ := marchMonth_bounds (Nat.lt_of_succ_lt h)
  refine Month.index_injective ?_
  rw [Month.index_next]
  simp only [Month.ofMarch, Month.index]
  omega

namespace Date

/-- Day `r` of the year that begins on March 1 of `y`. -/
def ofMarch (y : Int) (r : Nat) (h : r < marchYearDays (decide (Leap (y + 1)))) : Date where
  month := .ofMarch y r (h.trans_le (marchYearDays_le _))
  day := marchDay r
  one_le := Nat.le_add_left 1 _
  le_days := by
    rw [Month.days_ofMarch]
    exact marchDay_le _ r h

variable {y : Int} {r : Nat}

/-- Within a month the day goes up by one. -/
theorem next_of_lt {d : Date} (h : d.day < d.month.days) :
    d.next.month = d.month ∧ d.next.day = d.day + 1 := by
  rw [next, dif_pos h]
  exact ⟨rfl, rfl⟩

/-- After the last day of a month comes the first of the next. -/
theorem next_of_last {d : Date} (h : ¬ d.day < d.month.days) :
    d.next.month = d.month.next ∧ d.next.day = 1 := by
  rw [next, dif_neg h]
  exact ⟨rfl, rfl⟩

/-- The month of a day in the March year has the length that the year gives it. -/
theorem days_ofMarch (h : r < marchYearDays (decide (Leap (y + 1)))) :
    (ofMarch y r h).month.days = monthDays (decide (Leap (y + 1))) (marchMonth r) :=
  Month.days_ofMarch (h.trans_le (marchYearDays_le _))

/-- Within a March year the next ordinal is the next date. -/
theorem next_ofMarch (h : r + 1 < marchYearDays (decide (Leap (y + 1)))) :
    (ofMarch y r (Nat.lt_of_succ_lt h)).next = ofMarch y (r + 1) h := by
  have hstep := march_succ _ r (Nat.lt_sub_of_add_lt h)
  rw [← days_ofMarch (Nat.lt_of_succ_lt h)] at hstep
  split at hstep
  · next hday =>
    obtain ⟨hmonth, hnext⟩ := hstep
    obtain ⟨hmonth', hday'⟩ := @next_of_lt (ofMarch y r _) hday
    refine Date.ext (hmonth'.trans ?_) (hday'.trans hnext.symm)
    simp only [ofMarch, Month.ofMarch, hmonth]
  · next hday =>
    obtain ⟨hmonth, hfirst, hfeb⟩ := hstep
    obtain ⟨hmonth', hday'⟩ := @next_of_last (ofMarch y r _) hday
    have hbound : r + 1 < 366 := h.trans_le (marchYearDays_le _)
    exact Date.ext (hmonth'.trans (Month.next_ofMarch hbound hmonth hfeb))
      (hday'.trans hfirst.symm)

/-- After the last day, the next such year. -/
theorem next_ofMarch_last (h : r + 1 = marchYearDays (decide (Leap (y + 1)))) :
    (ofMarch y r (h ▸ Nat.lt_succ_self r)).next = ofMarch (y + 1) 0 (marchYearDays_pos _) := by
  obtain ⟨hfeb, hday⟩ := march_last h
  have hlast : ¬ (ofMarch y r (h ▸ Nat.lt_succ_self r)).day <
      (ofMarch y r (h ▸ Nat.lt_succ_self r)).month.days := by
    rw [days_ofMarch, hfeb, ← hday]
    exact lt_irrefl _
  obtain ⟨hmonth', hday'⟩ := next_of_last hlast
  refine Date.ext (hmonth'.trans (Month.index_injective ?_)) hday'
  have hmarch : marchMonth 0 = 3 := rfl
  rw [Month.index_next]
  simp only [ofMarch, Month.ofMarch, Month.index, hfeb, hmarch]
  omega

/-- The date `z` days from another, either way, by the days from March 1 of the
year 0. -/
theorem zpow_succ_ofMarch {y₀ : Int} {r₀ : Nat}
    (h₀ : r₀ < marchYearDays (decide (Leap (y₀ + 1)))) (z : Int) :
    ∃ y r, ∃ h : r < marchYearDays (decide (Leap (y + 1))),
      yearStart y + r = yearStart y₀ + r₀ + z ∧
      (succ ^ z) (ofMarch y₀ r₀ h₀) = ofMarch y r h := by
  induction z using Int.induction_on with
  | zero => exact ⟨y₀, r₀, h₀, (add_zero _).symm, rfl⟩
  | succ n ih =>
      obtain ⟨y, r, h, hstart, hdate⟩ := ih
      rcases Nat.lt_or_ge (r + 1) (marchYearDays (decide (Leap (y + 1)))) with hr | hr
      · refine ⟨y, r + 1, hr, ?_, ?_⟩
        · omega
        · rw [zpow_succ_add_one, hdate, next_ofMarch hr]
      · have hlast : r + 1 = marchYearDays (decide (Leap (y + 1))) := by omega
        refine ⟨y + 1, 0, marchYearDays_pos _, ?_, ?_⟩
        · rw [yearStart_add_one, ← hlast]
          omega
        · rw [zpow_succ_add_one, hdate, next_ofMarch_last hlast]
  | pred n ih =>
      obtain ⟨y, r, h, hstart, hdate⟩ := ih
      have hback : (succ ^ (-(n : Int) - 1)) (ofMarch y₀ r₀ h₀) = (ofMarch y r h).prev := by
        rw [← hdate, ← prev_next ((succ ^ (-(n : Int) - 1)) (ofMarch y₀ r₀ h₀)),
          ← zpow_succ_add_one, sub_add_cancel]
      cases r with
      | succ r =>
          refine ⟨y, r, Nat.lt_of_succ_lt h, ?_, ?_⟩
          · omega
          · rw [hback, ← next_ofMarch h, prev_next]
      | zero =>
          obtain ⟨y, rfl⟩ : ∃ y', y = y' + 1 := ⟨y - 1, (sub_add_cancel y 1).symm⟩
          have hlast : marchYearDays (decide (Leap (y + 1))) - 1 + 1 =
              marchYearDays (decide (Leap (y + 1))) := Nat.sub_add_cancel (marchYearDays_pos _)
          refine ⟨y, marchYearDays (decide (Leap (y + 1))) - 1, by omega, ?_, ?_⟩
          · rw [yearStart_add_one] at hstart
            omega
          · rw [hback, ← next_ofMarch_last hlast, prev_next]

end Date

end Mcpmesh.Lib
