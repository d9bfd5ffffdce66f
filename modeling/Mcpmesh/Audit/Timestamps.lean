import Mcpmesh.Audit.MonthKey

/-!
# Mcpmesh.Audit.Timestamps

The timestamps of audit records (`node/src/audit/record.rs`), and the monthly
file a record goes to (`node/src/audit/log.rs`).

`civil_from_days` is arithmetic on `i64` and `u64`, of which every step is
checked here: `none` is an overflow, or a subtraction below zero.
`civilFromDays_eq` says that it is the calendar, wherever its first sum does not
overflow.
-/

namespace Mcpmesh

open Lib

/-! ## machine integers -/

/-- A sum, difference or product in `i64`. -/
def inI64 (x : Int) : Option Int := if -2 ^ 63 ≤ x ∧ x < 2 ^ 63 then some x else none

/-- A sum, difference or product in `u64`. -/
def inU64 (x : Int) : Option Int := if 0 ≤ x ∧ x < 2 ^ 64 then some x else none

/-- `as i64`. -/
def wrapI64 (x : Int) : Int := Int.bmod x (2 ^ 64)

/-- `as u64`. -/
def wrapU64 (x : Int) : Int := x % 2 ^ 64

/-- `as u32`. -/
def wrapU32 (x : Int) : Nat := (x % 2 ^ 32).toNat

section Machine

variable {x : Int}

/-- A number in the range is itself. -/
theorem inI64_eq (h : -2 ^ 63 ≤ x) (h' : x < 2 ^ 63) : inI64 x = some x := if_pos ⟨h, h'⟩

theorem inU64_eq (h : 0 ≤ x) (h' : x < 2 ^ 64) : inU64 x = some x := if_pos ⟨h, h'⟩

theorem inI64_bind {α : Type} (h : -2 ^ 63 ≤ x) (h' : x < 2 ^ 63) (f : Int → Option α) :
    (inI64 x >>= f) = f x := by
  rw [inI64_eq h h']
  rfl

theorem inU64_bind {α : Type} (h : 0 ≤ x) (h' : x < 2 ^ 64) (f : Int → Option α) :
    (inU64 x >>= f) = f x := by
  rw [inU64_eq h h']
  rfl

/-- Within the range nothing wraps. -/
theorem wrapI64_eq (h : -2 ^ 63 ≤ x) (h' : x < 2 ^ 63) : wrapI64 x = x := by
  rw [wrapI64, Int.bmod_def]
  omega

theorem wrapU64_eq (h : 0 ≤ x) (h' : x < 2 ^ 64) : wrapU64 x = x := Int.emod_eq_of_lt h h'

theorem wrapU32_eq (h : 0 ≤ x) (h' : x < 2 ^ 32) : wrapU32 x = x.toNat := by
  rw [wrapU32, Int.emod_eq_of_lt h h']

end Machine

/-! ## the civil date -/

/-- `era`, of the days since 0000-03-01. -/
def eraOf (z : Int) : Option Int :=
  (if 0 ≤ z then some z else inI64 (z - 146096)).map (·.tdiv 146097)

/-- `yoe`: the year of a day of the era. -/
def yearOfEra (doe : Int) : Option Int := do
  let x ← inU64 (doe - doe / 1460)
  let x ← inU64 (x + doe / 36524)
  let x ← inU64 (x - doe / 146096)
  some (x / 365)

/-- `doy`: the day of that year. -/
def dayOfYear (doe yoe : Int) : Option Int := do
  let x ← inU64 (365 * yoe)
  let x ← inU64 (x + yoe / 4)
  let x ← inU64 (x - yoe / 100)
  inU64 (doe - x)

/-- `mp`: the month of a day of the year, from March. -/
def monthOfYear (doy : Int) : Option Int := do
  let x ← inU64 (5 * doy)
  let x ← inU64 (x + 2)
  some (x / 153)

/-- `d`: the day of that month. -/
def dayOfMonth (doy mp : Int) : Option Nat := do
  let x ← inU64 (153 * mp)
  let x ← inU64 (x + 2)
  let x ← inU64 (doy - x / 5)
  let x ← inU64 (x + 1)
  some (wrapU32 x)

/-- `m`: that month, from January. -/
def civilMonth (mp : Int) : Option Nat :=
  (if mp < 10 then inU64 (mp + 3) else inU64 (mp - 9)).map wrapU32

/-- Days since 1970-01-01 to year, month and day. -/
def civilFromDays (z : Int) : Option (Int × Nat × Nat) := do
  let z ← inI64 (z + 719468)
  let era ← eraOf z
  let x ← inI64 (era * 146097)
  let x ← inI64 (z - x)
  let doe := wrapU64 x
  let yoe ← yearOfEra doe
  let x ← inI64 (era * 400)
  let y ← inI64 (wrapI64 yoe + x)
  let doy ← dayOfYear doe yoe
  let mp ← monthOfYear doy
  let d ← dayOfMonth doy mp
  let m ← civilMonth mp
  (if m ≤ 2 then inI64 (y + 1) else some y).map (·, m, d)

/-- 1970-01-01. -/
def epoch : Date := .ofCivil 1970 1 1 (by decide)

/-- The date of a day, by the calendar. -/
def dateOfDay (z : Int) : Date := (Date.succ ^ z) epoch

def Lib.Date.civil (d : Date) : Int × Nat × Nat := (d.month.year, d.month.month, d.day)

/-! ## eras of 400 years -/

/-- Shifted down below zero, the truncating division is the floor. -/
theorem eraOf_eq {z : Int} (hlow : -2 ^ 63 + 719468 ≤ z) (hhigh : z < 2 ^ 63) :
    eraOf z = some (z / 146097) := by
  unfold eraOf
  split
  · next h => exact congrArg some (Int.tdiv_eq_ediv_of_nonneg h)
  · next h =>
    have hneg : z - 146096 = -(146096 - z) := by omega
    rw [inI64_eq (by omega) (by omega), hneg]
    refine congrArg some ?_
    dsimp only
    rw [Int.neg_tdiv, Int.tdiv_eq_ediv_of_nonneg (by omega)]
    omega

/-- The days of the era before the year `yoe`. -/
def eraStart (yoe : Nat) : Nat := 365 * yoe + yoe / 4 - yoe / 100

/-- What the year of the era is 365ths of. -/
def leapless (doe : Nat) : Nat := doe - doe / 1460 + doe / 36524 - doe / 146096

/-- There are no more leap days later in the era than earlier. -/
theorem leapless_le {m n : Nat} (h : m ≤ n) (hn : n ≤ 146096) : leapless m ≤ leapless n := by
  induction h with
  | refl => exact Nat.le_refl _
  | @step k h ih =>
      refine (ih (by omega)).trans ?_
      simp only [leapless, Nat.succ_eq_add_one]
      omega

/-- The first and the last day of each year of an era. -/
theorem leapless_ends : ∀ yoe < 400, 365 * yoe ≤ leapless (eraStart yoe) ∧
    leapless (eraStart yoe + marchYearDays (decide (Leap (yoe + 1))) - 1) < 365 * (yoe + 1) ∧
    eraStart yoe + marchYearDays (decide (Leap (yoe + 1))) ≤ 146097 := by
  decide +kernel

/-- Without its leap days, a day of the era falls into its year. -/
theorem leapless_div {yoe doy : Nat} (hyoe : yoe < 400)
    (hdoy : doy < marchYearDays (decide (Leap (yoe + 1)))) :
    leapless (eraStart yoe + doy) / 365 = yoe ∧ eraStart yoe + doy < 146097 := by
  obtain ⟨hfirst, hlast, hera⟩ := leapless_ends yoe hyoe
  have hlow := leapless_le (Nat.le_add_right (eraStart yoe) doy) (by omega)
  have hhigh := @leapless_le (eraStart yoe + doy)
    (eraStart yoe + marchYearDays (decide (Leap (yoe + 1))) - 1) (by omega) (by omega)
  omega

/-! ## the closed form, step by step -/

section Steps

variable {yoe doy : Nat}

/-- The year of the era, as it is computed. -/
theorem yearOfEra_eq (hyoe : yoe < 400)
    (hdoy : doy < marchYearDays (decide (Leap (yoe + 1)))) :
    yearOfEra ↑(eraStart yoe + doy) = some ↑yoe := by
  obtain ⟨hdiv, hera⟩ := leapless_div hyoe hdoy
  generalize eraStart yoe + doy = doe at hdiv hera ⊢
  simp only [leapless] at hdiv
  unfold yearOfEra
  rw [inU64_bind (by omega) (by omega),
    inU64_bind (by omega) (by omega),
    inU64_bind (by omega) (by omega)]
  refine congrArg some ?_
  omega

/-- The day of the year, as it is computed. -/
theorem dayOfYear_eq (hyoe : yoe < 400) (hera : eraStart yoe + doy < 146097) :
    dayOfYear ↑(eraStart yoe + doy) ↑yoe = some ↑doy := by
  simp only [eraStart] at hera ⊢
  unfold dayOfYear
  rw [inU64_bind (by omega) (by omega),
    inU64_bind (by omega) (by omega),
    inU64_bind (by omega) (by omega),
    inU64_eq (by omega) (by omega)]
  refine congrArg some ?_
  omega

/-- The month, counted from March. -/
theorem monthOfYear_eq (h : doy < 366) : monthOfYear ↑doy = some ↑(sinceMarch doy) := by
  unfold monthOfYear sinceMarch
  rw [inU64_bind (by omega) (by omega),
    inU64_bind (by omega) (by omega)]
  refine congrArg some ?_
  omega

/-- The day of the month. -/
theorem dayOfMonth_eq (h : doy < 366) :
    dayOfMonth ↑doy ↑(sinceMarch doy) = some (marchDay doy) := by
  have hmonth : sinceMarch doy = (5 * doy + 2) / 153 := rfl
  unfold dayOfMonth marchDay
  rw [inU64_bind (by omega) (by omega),
    inU64_bind (by omega) (by omega),
    inU64_bind (by omega) (by omega),
    inU64_bind (by omega) (by omega)]
  refine congrArg some ?_
  rw [wrapU32_eq (by omega) (by omega)]
  omega

/-- The month, counted from January. -/
theorem civilMonth_eq (h : doy < 366) : civilMonth ↑(sinceMarch doy) = some (marchMonth doy) := by
  have hmonth : sinceMarch doy = (5 * doy + 2) / 153 := rfl
  unfold civilMonth marchMonth
  by_cases hmarch : sinceMarch doy < 10
  · rw [if_pos (by omega), if_pos hmarch, inU64_eq (by omega) (by omega)]
    refine congrArg some ?_
    rw [wrapU32_eq (by omega) (by omega)]
    omega
  · rw [if_neg (by omega), if_neg hmarch, inU64_eq (by omega) (by omega)]
    refine congrArg some ?_
    rw [wrapU32_eq (by omega) (by omega)]
    omega

end Steps

/-! ## the closed form is the calendar -/

section Civil

variable {z y : Int} {r : Nat}

/-- A year starts in its era. -/
theorem yearStart_era (y : Int) :
    yearStart y = 146097 * (y / 400) + eraStart (y % 400).toNat := by
  simp only [yearStart, eraStart]
  omega

/-- Leap years are the same in every era. -/
theorem leap_era (y : Int) : Leap (((y % 400).toNat : Int) + 1) ↔ Leap (y + 1) := by
  unfold Leap
  omega

/-- The closed form, at day `r` of the year that begins on March 1 of `y`. -/
theorem civilFromDays_ofMarch (hlow : -2 ^ 63 ≤ z) (hhigh : z + 719468 < 2 ^ 63)
    (hr : r < marchYearDays (decide (Leap (y + 1)))) (hstart : yearStart y + r = 719468 + z) :
    civilFromDays z = some (Date.ofMarch y r hr).civil := by
  obtain ⟨yoe, hyoe⟩ : ∃ yoe : Nat, y % 400 = yoe := ⟨(y % 400).toNat, by omega⟩
  have hlt : yoe < 400 := by omega
  have hleap : decide (Leap ((yoe : Int) + 1)) = decide (Leap (y + 1)) := by
    have hera := leap_era y
    rw [hyoe, Int.toNat_natCast] at hera
    exact decide_eq_decide.mpr hera
  have hdoy : r < marchYearDays (decide (Leap ((yoe : Int) + 1))) := hleap ▸ hr
  have hyear : r < 366 := hr.trans_le (marchYearDays_le _)
  obtain ⟨-, hera⟩ := leapless_div hlt hdoy
  rw [yearStart_era, hyoe, Int.toNat_natCast] at hstart
  have hdiv : (z + 719468) / 146097 = y / 400 := by omega
  have hdoe : z + 719468 - y / 400 * 146097 = ↑(eraStart yoe + r) := by omega
  have hyear' : (yoe : Int) + y / 400 * 400 = y := by omega
  unfold civilFromDays
  rw [inI64_bind (by omega) hhigh, eraOf_eq (by omega) hhigh, hdiv]
  simp only [Option.bind_eq_bind, Option.bind_some]
  rw [inI64_eq (by omega) (by omega), Option.bind_some, inI64_eq (by omega) (by omega),
    Option.bind_some, hdoe, wrapU64_eq (by omega) (by omega), yearOfEra_eq hlt hdoy,
    Option.bind_some, inI64_eq (by omega) (by omega), Option.bind_some,
    wrapI64_eq (by omega) (by omega), hyear', inI64_eq (by omega) (by omega), Option.bind_some,
    dayOfYear_eq hlt hera, Option.bind_some, monthOfYear_eq hyear, Option.bind_some,
    dayOfMonth_eq hyear, Option.bind_some, civilMonth_eq hyear, Option.bind_some]
  unfold Date.civil Date.ofMarch Month.ofMarch
  by_cases hfeb : marchMonth r ≤ 2
  · rw [if_pos hfeb, inI64_eq (by omega) (by omega), Option.map_some]
    simp only [hfeb, if_true]
  · rw [if_neg hfeb, Option.map_some]
    simp only [hfeb, if_false]

/-- Wherever its first sum does not overflow, the closed form is the calendar, and
nothing on the way overflows or falls below zero. -/
theorem civilFromDays_eq (hlow : -2 ^ 63 ≤ z) (hhigh : z + 719468 < 2 ^ 63) :
    civilFromDays z = some (dateOfDay z).civil := by
  have hepoch : epoch = Date.ofMarch 1969 306 (by decide) := by decide +kernel
  obtain ⟨y, r, hr, hstart, hdate⟩ :=
    @Date.zpow_succ_ofMarch 1969 306 (by decide) z
  have horigin : yearStart 1969 + ↑(306 : Nat) = 719468 := by decide
  rw [horigin] at hstart
  rw [civilFromDays_ofMarch hlow hhigh hr hstart, dateOfDay, hepoch, hdate]

end Civil

/-! ## timestamps -/

/-- `{:0w}` of an `i64`: the sign counts. -/
def signedPadded (w : Nat) (x : Int) : List Char :=
  if x < 0 then '-' :: zeroPadded (w - 1) x.natAbs else zeroPadded w x.toNat

/-- Format Unix-epoch milliseconds as `YYYY-MM-DDTHH:MM:SS.mmmZ`. -/
def fmtRfc3339Millis (unixMillis : Nat) : Option String := do
  let secs := wrapI64 ↑(unixMillis / 1000)
  let millis := unixMillis % 1000
  let days := secs / 86400
  let secsOfDay := secs % 86400
  let h := secsOfDay / 3600
  let m := secsOfDay % 3600 / 60
  let s := secsOfDay % 60
  let civil ← civilFromDays days
  some (.ofList (signedPadded 4 civil.1 ++ '-' :: (zeroPadded 2 civil.2.1 ++ '-' ::
    (zeroPadded 2 civil.2.2 ++ 'T' :: (signedPadded 2 h ++ ':' :: (signedPadded 2 m ++ ':' ::
      (signedPadded 2 s ++ '.' :: (zeroPadded 3 millis ++ ['Z']))))))))

/-- `str::get(0..n)`: the characters of the first `n` bytes. -/
def getBytes : List Char → Nat → Option (List Char)
  | _, 0 => some []
  | [], _ + 1 => none
  | c :: cs, n + 1 =>
      if c.utf8Size ≤ n + 1 then (getBytes cs (n + 1 - c.utf8Size)).map (c :: ·) else none

/-- The monthly file that `append_record` appends to. -/
def auditMonth (ts : String) : String :=
  match getBytes ts.toList 7 with
  | some month => .ofList month
  | none => "0000-00"

/-- The date of an instant, by the calendar. -/
def dateOfMillis (ms : Nat) : Date := dateOfDay ↑(ms / 86400000)

/-! ## their layout -/

/-- The time of day, `t` milliseconds from midnight. -/
def clockChars (t : Nat) : List Char :=
  lastDigits 2 (t / 3600000) ++ ':' :: (lastDigits 2 (t / 60000 % 60) ++ ':' ::
    (lastDigits 2 (t / 1000 % 60) ++ '.' :: (lastDigits 3 (t % 1000) ++ ['Z'])))

def stampChars (d : Date) (t : Nat) : List Char :=
  lastDigits 4 d.month.year.toNat ++ '-' :: (lastDigits 2 d.month.month ++ '-' ::
    (lastDigits 2 d.day ++ 'T' :: clockChars t))

/-- Times of day compare as their texts. -/
theorem clockChars_lt_iff {t u : Nat} (ht : t < 86400000) (hu : u < 86400000) :
    clockChars t < clockChars u ↔ t < u := by
  unfold clockChars
  rw [field_lt_iff (by omega) (by omega), field_lt_iff (by omega) (by omega),
    field_lt_iff (by omega) (by omega), field_lt_iff (by omega) (by omega)]
  simp only [List.not_lt_nil, and_false, or_false]
  omega

/-- No month has more than 31 days. -/
theorem Lib.Date.day_le (d : Date) : d.day ≤ 31 := by
  refine d.le_days.trans ?_
  unfold Month.days monthDays
  split
  · split <;> decide
  all_goals decide

/-- Instants of the years that a key can name compare as their texts. -/
theorem stampChars_lt_iff {d e : Date} (hd : d.month.HasKey) (he : e.month.HasKey) {t u : Nat}
    (ht : t < 86400000) (hu : u < 86400000) :
    stampChars d t < stampChars e u ↔ d < e ∨ d = e ∧ t < u := by
  obtain ⟨hd, hd'⟩ := hd
  obtain ⟨he, he'⟩ := he
  have hdm := d.month.le_twelve
  have hem := e.month.le_twelve
  have hdd := d.day_le
  have hed := e.day_le
  unfold stampChars
  rw [field_lt_iff (by omega) (by omega), field_lt_iff (by omega) (by omega),
    field_lt_iff (by omega) (by omega), clockChars_lt_iff ht hu, Date.lt_iff, Month.lt_iff,
    Date.ext_iff, Month.ext_iff]
  omega

/-! ## from 1970 to 9999 -/

/-- A later day has a later date. -/
theorem dateOfDay_lt {z w : Int} (h : z < w) : dateOfDay z < dateOfDay w :=
  Date.zpow_succ_lt epoch h

/-- A later day is not in an earlier year. -/
theorem dateOfDay_year_mono {z w : Int} (h : z ≤ w) :
    (dateOfDay z).month.year ≤ (dateOfDay w).month.year := by
  rcases Int.lt_or_eq_of_le h with hlt | heq
  · have hdate := dateOfDay_lt hlt
    rw [Date.lt_iff, Month.lt_iff, Month.ext_iff] at hdate
    omega
  · rw [heq]

/-- No day from the epoch on is before 1970. -/
theorem year_dateOfDay_nonneg {z : Int} (h : 0 ≤ z) : 1970 ≤ (dateOfDay z).month.year :=
  dateOfDay_year_mono h

/-- The year of an earlier day, as it is computed, is not after that of a later one. -/
theorem year_le_of_civilFromDays {n z y : Int} {m d : Nat} (hlow : -2 ^ 63 ≤ n)
    (hhigh : n + 719468 < 2 ^ 63) (hcivil : civilFromDays n = some (y, m, d)) (h : n ≤ z) :
    y ≤ (dateOfDay z).month.year := by
  rw [civilFromDays_eq hlow hhigh, Option.some.injEq] at hcivil
  have hyear : (dateOfDay n).month.year = y := congrArg Prod.fst hcivil
  rw [← hyear]
  exact dateOfDay_year_mono h

/-- The year 10000 begins on day 2932897. -/
theorem day_lt_of_year_lt {z : Int} (h : (dateOfDay z).month.year < 10000) : z < 2932897 := by
  by_contra hge
  have hday : civilFromDays 2932897 = some (10000, 1, 1) := by decide +kernel
  have hyear := year_le_of_civilFromDays (by decide) (by decide) hday (not_lt.mp hge)
  exact absurd h (not_lt.mpr hyear)

/-- A moment before the year 10000 is in a month that has a key. -/
theorem hasKey_dateOfMillis {ms : Nat} (h : (dateOfMillis ms).month.year < 10000) :
    (dateOfMillis ms).month.HasKey :=
  ⟨(by decide : (0 : Int) ≤ 1970).trans (year_dateOfDay_nonneg (Int.natCast_nonneg _)), h⟩

/-- The text of an instant is its date and its time of day. -/
theorem fmtRfc3339Millis_eq {ms : Nat} (h : (dateOfMillis ms).month.year < 10000) :
    fmtRfc3339Millis ms = some (.ofList (stampChars (dateOfMillis ms) (ms % 86400000))) := by
  have hday := day_lt_of_year_lt h
  obtain ⟨hlow, hhigh⟩ := hasKey_dateOfMillis h
  have hmonth := (dateOfMillis ms).month.le_twelve
  have hdom := (dateOfMillis ms).day_le
  have hsecs : wrapI64 ↑(ms / 1000) = ↑(ms / 1000) := wrapI64_eq (by omega) (by omega)
  have hdays : ((ms / 1000 : Nat) : Int) / 86400 = ↑(ms / 86400000) := by omega
  have hcivil : civilFromDays ↑(ms / 86400000) = some (dateOfMillis ms).civil :=
    civilFromDays_eq (by omega) (by omega)
  have hsigned : ∀ {w : Nat} {x : Int} {n : Nat}, x = n → 0 < w → n < 10 ^ w →
      signedPadded w x = lastDigits w n := by
    rintro w _ n rfl hw hn
    rw [signedPadded, if_neg (by omega), Int.toNat_natCast, zeroPadded_eq hw hn]
  have hyear : (dateOfMillis ms).month.year = ↑(dateOfMillis ms).month.year.toNat := by omega
  have hhour : ((ms / 1000 : Nat) : Int) % 86400 / 3600 = ↑(ms % 86400000 / 3600000) := by omega
  have hminute : ((ms / 1000 : Nat) : Int) % 86400 % 3600 / 60 =
      ↑(ms % 86400000 / 60000 % 60) := by omega
  have hsecond : ((ms / 1000 : Nat) : Int) % 86400 % 60 = ↑(ms % 86400000 / 1000 % 60) := by omega
  have hmillis : ms % 1000 = ms % 86400000 % 1000 := by omega
  unfold fmtRfc3339Millis stampChars clockChars
  simp only [hsecs, hdays, hcivil, Option.bind_eq_bind, Option.bind_some, Date.civil]
  rw [hsigned hyear (by decide) (by omega), zeroPadded_eq (by decide) (by omega),
    zeroPadded_eq (by decide) (by omega), hsigned hhour (by decide) (by omega),
    hsigned hminute (by decide) (by omega), hsigned hsecond (by decide) (by omega),
    hmillis, zeroPadded_eq (by decide) (by omega)]

example : fmtRfc3339Millis 1700000000000 = some "2023-11-14T22:13:20.000Z" := by decide +kernel

/-- Instants compare as their dates and times of day. -/
theorem millis_lt {a b : Nat} (h : a < b) : dateOfMillis a < dateOfMillis b ∨
    dateOfMillis a = dateOfMillis b ∧ a % 86400000 < b % 86400000 := by
  have hdiv : a / 86400000 ≤ b / 86400000 := Nat.div_le_div_right h.le
  rcases eq_or_lt_of_le hdiv with heq | hlt
  · refine .inr ⟨?_, by omega⟩
    rw [dateOfMillis, heq, dateOfMillis]
  · exact .inl (dateOfDay_lt (Int.ofNat_lt.mpr hlt))

/-! ## the month of a record -/

/-- The bytes of a text in ASCII, up to a boundary. -/
theorem getBytes_append {xs ys : List Char} (h : ∀ c ∈ xs, c.utf8Size = 1) :
    getBytes (xs ++ ys) xs.length = some xs := by
  induction xs with
  | nil =>
      cases ys with
      | nil => rfl
      | cons y ys => rfl
  | cons x xs ih =>
      have hx : x.utf8Size = 1 := h x List.mem_cons_self
      rw [List.cons_append, List.length_cons, getBytes, hx, if_pos (Nat.le_add_left 1 _),
        Nat.add_sub_cancel, ih fun c hc => h c (List.mem_cons_of_mem x hc)]
      rfl

/-- A digit is one byte. -/
theorem utf8Size_of_isDigit {c : Char} (h : c.isDigit = true) : c.utf8Size = 1 := by
  obtain ⟨-, hnine⟩ := Char.isDigit_iff_toNat.mp h
  refine Char.utf8Size_eq_one_iff.mpr (UInt32.le_iff_toNat_le.mpr ?_)
  exact hnine.trans (by decide)

/-- The month key of a date, as it begins the text of an instant. -/
theorem keyText_stampChars {d : Date} (h : d.month.HasKey) (t : Nat) :
    ∃ rest, stampChars d t = d.month.key.toList ++ rest ∧ d.month.key.toList.length = 7 ∧
      ∀ c ∈ d.month.key.toList, c.utf8Size = 1 := by
  obtain ⟨hlow, hhigh⟩ := h
  have hmonth := d.month.le_twelve
  have hkey : d.month.key.toList =
      lastDigits 4 d.month.year.toNat ++ '-' :: lastDigits 2 d.month.month := by
    rw [Month.key, monthText, String.toList_ofList, monthChars_eq (by omega) (by omega)]
  refine ⟨'-' :: (lastDigits 2 d.day ++ 'T' :: clockChars t), ?_, ?_, ?_⟩
  · rw [hkey, stampChars, List.append_assoc, List.cons_append]
  · rw [hkey, List.length_append, List.length_cons, length_lastDigits, length_lastDigits]
  · rw [hkey]
    intro c hc
    rcases List.mem_append.mp hc with hc | hc
    · exact utf8Size_of_isDigit (isDigit_of_mem_lastDigits hc)
    · rcases List.mem_cons.mp hc with rfl | hc
      · rfl
      · exact utf8Size_of_isDigit (isDigit_of_mem_lastDigits hc)

/-- A record goes to the file of its month. -/
theorem auditMonth_stampChars {d : Date} (h : d.month.HasKey) (t : Nat) :
    auditMonth (.ofList (stampChars d t)) = d.month.key := by
  obtain ⟨rest, hstamp, hlength, hascii⟩ := keyText_stampChars h t
  have hbytes := @getBytes_append _ rest hascii
  rw [hlength] at hbytes
  unfold auditMonth
  rw [String.toList_ofList, hstamp, hbytes]
  exact String.ofList_toList

/-- `civil_from_days` is the calendar on all days it can be asked for, and texts of
instants compare as the instants, with the month key of their date in front: a
record never goes to an earlier month's file than one before it. -/
theorem timestamps_follow_calendar :
    (∀ z : Int, -2 ^ 63 ≤ z → z + 719468 < 2 ^ 63 →
      civilFromDays z = some (dateOfDay z).civil) ∧
    ∀ a b : Nat, a < b → (dateOfMillis b).month.year < 10000 →
      ∃ ta tb, fmtRfc3339Millis a = some ta ∧ fmtRfc3339Millis b = some tb ∧ ta < tb ∧
        (∃ k : MonthKey, k.text.toList = ta.toList.take 7 ∧ k.month = (dateOfMillis a).month ∧
          auditMonth ta = k.text) ∧
        auditMonth ta ≤ auditMonth tb := by
  refine ⟨fun z hlow hhigh => civilFromDays_eq hlow hhigh, ?_⟩
  intro a b hab hb
  have ha : (dateOfMillis a).month.year < 10000 :=
    (dateOfDay_year_mono (Int.ofNat_le.mpr (Nat.div_le_div_right hab.le))).trans_lt hb
  have hkeya := hasKey_dateOfMillis ha
  have hkeyb := hasKey_dateOfMillis hb
  have hday : ∀ ms : Nat, ms % 86400000 < 86400000 := fun ms => Nat.mod_lt ms (by decide)
  refine ⟨_, _, fmtRfc3339Millis_eq ha, fmtRfc3339Millis_eq hb, ?_, ?_, ?_⟩
  · rw [String.lt_iff_toList_lt, String.toList_ofList, String.toList_ofList,
      stampChars_lt_iff hkeya hkeyb (hday a) (hday b)]
    exact millis_lt hab
  · obtain ⟨rest, hstamp, hlength, -⟩ := keyText_stampChars hkeya (a % 86400000)
    refine ⟨hkeya.monthKey, ?_, hkeya.month_monthKey, auditMonth_stampChars hkeya _⟩
    rw [String.toList_ofList, hstamp, List.take_left' hlength]
    rfl
  · rw [auditMonth_stampChars hkeya, auditMonth_stampChars hkeyb, ← not_lt,
      hkeyb.key_lt_iff hkeya, not_lt]
    rcases millis_lt hab with hlt | ⟨heq, -⟩
    · rcases Date.lt_iff.mp hlt with hmonth | ⟨hmonth, -⟩
      · exact hmonth.le
      · exact hmonth.le
    · rw [heq]

end Mcpmesh
