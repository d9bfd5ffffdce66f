import Mcpmesh.Lib.Words
import Mcpmesh.Roster.Validate

/-!
# Mcpmesh.Roster.Degradation

The degraded state in `i64` (`state`, `effective_state`,
`trust/src/roster/validate.rs`), and the windows that a configuration gives it
(`parse_duration`, `node/src/config.rs`).

Both halves of the state ask how far an instant lies beyond a limit, within a
grace window or not.  The further it lies the worse the state, so the state is
monotone in all it reads; but the end of the window is a plain addition, and
`Fits` says when it stays in range.
-/

namespace Mcpmesh

open Lib

/-- `i64` -/
abbrev I64 : Type := { n : Int // -2 ^ 63 ≤ n ∧ n < 2 ^ 63 }

/-! ## durations -/

/-- What `parse_duration` returns: an `i64` from 0 up (`parseDuration_ok`). -/
abbrev Duration : Type := { n : Int // 0 ≤ n ∧ n < 2 ^ 63 }

/-- `str::trim`. -/
def trimWhitespace (s : List Char) : List Char := Words.trim (!Words.isWhitespace ·) s

/-- `u64::from_str`: an optional plus, then digits. -/
def parseU64 (s : List Char) : Option Nat :=
  let digits :=
    match s with
    | '+' :: rest => rest
    | s => s
  if digits ≠ [] ∧ digits.all Char.isDigit then
    let n := Nat.ofDigitChars 10 digits 0
    if n < 2 ^ 64 then some n else none
  else none

/-- Strip one unit suffix: the number and the seconds of the unit. -/
def stripUnit (s : List Char) : List Char × Nat :=
  match s.getLast? with
  | some 'd' => (s.dropLast, 24 * 3600)
  | some 'h' => (s.dropLast, 3600)
  | some 'm' => (s.dropLast, 60)
  | some 's' => (s.dropLast, 1)
  | _ => (s, 1)

/-- `parse_duration` -/
def parseDuration (s : String) : Except String Int :=
  let s := trimWhitespace s.toList
  let value := do
    let v ← parseU64 (trimWhitespace (stripUnit s).1)
    -- `checked_mul`, then `i64::try_from`
    let seconds := v * (stripUnit s).2
    if seconds < 2 ^ 64 ∧ seconds < 2 ^ 63 then some (seconds : Int) else none
  okOr value ("unparseable duration: " ++ .ofList s)

/-! ## the state in `i64` -/

/-- An addition that overflows has no value. -/
def checkedAdd (a b : Int) : Option Int :=
  if -2 ^ 63 ≤ a + b ∧ a + b < 2 ^ 63 then some (a + b) else none

/-- How far `x` lies beyond `limit`: not, within `grace`, or further. -/
def beyond (x limit grace : Int) : Option RosterState :=
  if x ≤ limit then some .approved
  else do
    let stop ← checkedAdd limit grace
    some (if x ≤ stop then .degradedGrace else .degradedStopped)

namespace RosterView

variable (v : RosterView)

/-- `state`; `none` where an addition overflows. -/
def state? (now grace : Int) : Option RosterState := beyond now v.expiresAtEpoch grace

/-- The freshness half of `effectiveState?`. -/
def staleness? (now grace : Int) (lastConfirmed : Option Int) (maxStaleness : Int) :
    Option RosterState :=
  match lastConfirmed with
  | none => some .approved
  | some lc => beyond (saturatingSub now lc) maxStaleness grace

/-- `effective_state`; `none` where an addition overflows. -/
def effectiveState? (now grace : Int) (lastConfirmed : Option Int) (maxStaleness : Int) :
    Option RosterState := do
  let expiry ← v.state? now grace
  let staleness ← staleness? now grace lastConfirmed maxStaleness
  some (if expiry.severity ≤ staleness.severity then staleness else expiry)

end RosterView

/-- A view with an expiry in `i64`. -/
structure DatedView extends RosterView where
  expires_i64 : -2 ^ 63 ≤ expiresAtEpoch ∧ expiresAtEpoch < 2 ^ 63

/-- The windows of a configuration. -/
structure Windows where
  grace : Duration
  maxStaleness : Duration

/-- No end of a window lies beyond `i64`: a limit that an instant can exceed
leaves room for the grace. -/
def Windows.Fits (w : Windows) (expires : Int) : Prop :=
  (expires < 2 ^ 63 - 1 → expires + w.grace < 2 ^ 63) ∧
    ((w.maxStaleness : Int) < 2 ^ 63 - 1 → (w.maxStaleness : Int) + w.grace < 2 ^ 63)

/-- `effective_state` under the windows. -/
def DatedView.stateUnder (v : DatedView) (w : Windows) (now : I64) (lastConfirmed : Option I64) :
    Option RosterState :=
  v.effectiveState? now w.grace (lastConfirmed.map (·.val)) w.maxStaleness

/-- The state is computed, and it is no better at a later instant, no worse
after a later confirmation and no worse under the longer windows `w'`. -/
def DatedView.Degrades (v : DatedView) (w w' : Windows) : Prop :=
  ∀ (now now' : I64) (lc lc' : Option I64), now ≤ now' → Option.Rel (· ≤ ·) lc lc' →
    ∃ s later confirmed longer,
      v.stateUnder w now lc = some s ∧ v.stateUnder w now' lc = some later ∧
      v.stateUnder w now lc' = some confirmed ∧ v.stateUnder w' now lc = some longer ∧
      s.severity ≤ later.severity ∧ confirmed.severity ≤ s.severity ∧
      longer.severity ≤ s.severity

/-! ## durations are the `i64` from 0 up -/

theorem parseDuration_ok {s : String} {d : Int} (h : parseDuration s = .ok d) :
    0 ≤ d ∧ d < 2 ^ 63 := by
  simp only [parseDuration, okOr_eq_ok, Option.bind_eq_bind, Option.bind_eq_some_iff] at h
  obtain ⟨v, -, h⟩ := h
  split at h
  · rename_i hlt
    obtain rfl := Option.some.inj h
    omega
  · contradiction

/-- Every one of them is written in digits. -/
theorem parseDuration_repr {n : Nat} (h : n < 2 ^ 63) : parseDuration n.repr = .ok n := by
  have hdigit : ∀ c ∈ Nat.toDigits 10 n, c.isDigit = true :=
    fun c hc => Nat.isDigit_of_mem_toDigits (by decide) (by decide) hc
  have htrim : trimWhitespace (Nat.toDigits 10 n) = Nat.toDigits 10 n := by
    apply Words.trim_of_letters
    intro c hc
    have hc := Char.isDigit_iff_toNat.mp (hdigit c hc)
    simp [Words.isWhitespace] at hc ⊢
    omega
  have hunit : stripUnit (Nat.toDigits 10 n) = (Nat.toDigits 10 n, 1) := by
    unfold stripUnit
    split
    case h_5 => rfl
    all_goals
      rename_i hlast
      have hletter := hdigit _ (List.mem_of_getLast? hlast)
      contradiction
  have hparse : parseU64 (Nat.toDigits 10 n) = some n := by
    unfold parseU64
    split
    · rename_i rest heq
      have hplus := hdigit '+' (by simp [heq])
      contradiction
    · simp only [List.all_eq_true, Nat.ofDigitChars_ten_toDigits]
      rw [if_pos ⟨Nat.toDigits_ne_nil, hdigit⟩, if_pos (by omega)]
  simp [parseDuration, htrim, hunit, hparse]
  omega

/-! ## one half of the state -/

section Beyond

variable {x x' limit limit' grace grace' : Int} {s s' : RosterState}

theorem checkedAdd_of_lt {a b : Int} (ha : -2 ^ 63 ≤ a) (hb : 0 ≤ b) (h : a + b < 2 ^ 63) :
    checkedAdd a b = some (a + b) := by
  have hge : -2 ^ 63 ≤ a + b := by omega
  rw [checkedAdd, if_pos ⟨hge, h⟩]

/-- The end of the window is asked for only beyond the limit. -/
theorem beyond_total (hlimit : -2 ^ 63 ≤ limit) (hgrace : 0 ≤ grace) (hx : x < 2 ^ 63)
    (hfits : limit < 2 ^ 63 - 1 → limit + grace < 2 ^ 63) :
    ∃ s, beyond x limit grace = some s := by
  rw [beyond]
  split
  · exact ⟨_, rfl⟩
  · rw [checkedAdd_of_lt hlimit hgrace (hfits (by omega))]
    exact ⟨_, rfl⟩

/-- The greatest instant needs the end of every window. -/
theorem fits_of_beyond (h : beyond (2 ^ 63 - 1) limit grace = some s) :
    limit < 2 ^ 63 - 1 → limit + grace < 2 ^ 63 := by
  intro hlt
  rw [beyond, if_neg (by omega), checkedAdd] at h
  split at h
  · omega
  · contradiction

/-- Where the addition is in range, its result is the sum. -/
theorem eq_of_beyond (h : beyond x limit grace = some s) :
    s = if x ≤ limit then .approved
      else if x ≤ limit + grace then .degradedGrace else .degradedStopped := by
  rw [beyond, checkedAdd] at h
  split at h
  · rename_i hle
    rw [if_pos hle]
    exact (Option.some.inj h).symm
  · rename_i hgt
    rw [if_neg hgt]
    split at h
    · exact (Option.some.inj h).symm
    · contradiction

/-- Further beyond a nearer limit, with a shorter grace, is no better. -/
theorem beyond_mono (hx : x ≤ x') (hlimit : limit' ≤ limit) (hgrace : grace' ≤ grace)
    (h : beyond x limit grace = some s) (h' : beyond x' limit' grace' = some s') :
    s.severity ≤ s'.severity := by
  have hs := eq_of_beyond h
  have hs' := eq_of_beyond h'
  grind [RosterState.severity]

end Beyond

/-! ## the whole state -/

section State

variable {v : DatedView} {w w' : Windows} {now now' : I64} {lc lc' : Option I64}
  {s s' : RosterState}

/-- The state is the worse of the two halves. -/
theorem severity_of_stateUnder (h : v.stateUnder w now lc = some s) :
    ∃ expiry stale, v.state? now w.grace = some expiry ∧
      RosterView.staleness? now w.grace (lc.map (·.val)) w.maxStaleness = some stale ∧
      s.severity = max expiry.severity stale.severity := by
  simp only [DatedView.stateUnder, RosterView.effectiveState?, Option.bind_eq_bind,
    Option.bind_eq_some_iff] at h
  obtain ⟨expiry, hexpiry, stale, hstale, h⟩ := h
  refine ⟨expiry, stale, hexpiry, hstale, ?_⟩
  obtain rfl := Option.some.inj h
  split <;> omega

theorem saturatingSub_mono {a b c d : Int} (hab : a ≤ b) (hdc : d ≤ c) :
    saturatingSub a c ≤ saturatingSub b d := by
  unfold saturatingSub
  omega

/-- Later, less recently confirmed and with shorter windows is no better. -/
theorem stateUnder_mono (hnow : now ≤ now') (hlc : Option.Rel (· ≤ ·) lc' lc)
    (hgrace : w'.grace ≤ w.grace) (hmax : w'.maxStaleness ≤ w.maxStaleness)
    (h : v.stateUnder w now lc = some s) (h' : v.stateUnder w' now' lc' = some s') :
    s.severity ≤ s'.severity := by
  obtain ⟨expiry, stale, hexpiry, hstale, hs⟩ := severity_of_stateUnder h
  obtain ⟨expiry', stale', hexpiry', hstale', hs'⟩ := severity_of_stateUnder h'
  have hexpired : expiry.severity ≤ expiry'.severity :=
    beyond_mono hnow (Int.le_refl _) hgrace hexpiry hexpiry'
  have hstaled : stale.severity ≤ stale'.severity := by
    cases hlc with
    | none =>
        obtain rfl := Option.some.inj hstale
        obtain rfl := Option.some.inj hstale'
        exact Nat.le_refl _
    | some hle => exact beyond_mono (saturatingSub_mono hnow hle) hmax hgrace hstale hstale'
  omega

theorem stateUnder_total (hfits : w.Fits v.expiresAtEpoch) (now : I64) (lc : Option I64) :
    ∃ s, v.stateUnder w now lc = some s := by
  obtain ⟨expiry, hexpiry⟩ :=
    beyond_total v.expires_i64.1 w.grace.property.1 now.property.2 hfits.1
  have hstaleness : ∃ stale,
      RosterView.staleness? now w.grace (lc.map (·.val)) w.maxStaleness = some stale := by
    cases lc with
    | none => exact ⟨_, rfl⟩
    | some l =>
        have hmax := w.maxStaleness.property
        apply beyond_total (by omega) w.grace.property.1 _ hfits.2
        unfold saturatingSub
        omega
  obtain ⟨stale, hstale⟩ := hstaleness
  have hstate : v.state? now w.grace = some expiry := hexpiry
  rw [DatedView.stateUnder, RosterView.effectiveState?, hstate, hstale]
  exact ⟨_, rfl⟩

theorem fits_of_total (h : ∀ (now : I64) (lc : Option I64), ∃ s, v.stateUnder w now lc = some s) :
    w.Fits v.expiresAtEpoch := by
  -- the greatest instant, and a confirmation at 0
  obtain ⟨s, hs⟩ := h ⟨2 ^ 63 - 1, by omega⟩ (some ⟨0, by omega⟩)
  obtain ⟨expiry, stale, hexpiry, hstale, -⟩ := severity_of_stateUnder hs
  have hsub : saturatingSub (2 ^ 63 - 1) 0 = 2 ^ 63 - 1 := by decide
  simp only [RosterView.staleness?, Option.map_some, hsub] at hstale
  exact ⟨fits_of_beyond hexpiry, fits_of_beyond hstale⟩

/-- **Degradation** is computed and monotone exactly when the ends of the
windows fit. -/
theorem degrades_iff_fits (v : DatedView) {w w' : Windows} (hgrace : w.grace ≤ w'.grace)
    (hmax : w.maxStaleness ≤ w'.maxStaleness) :
    v.Degrades w w' ↔ w.Fits v.expiresAtEpoch ∧ w'.Fits v.expiresAtEpoch := by
  have hrefl : ∀ lc : Option I64, Option.Rel (· ≤ ·) lc lc := by
    intro lc
    cases lc with
    | none => exact .none
    | some l => exact .some (Int.le_refl _)
  constructor
  · intro h
    have htotal : ∀ (now : I64) (lc : Option I64), ∃ s, v.stateUnder w now lc = some s := by
      intro now lc
      obtain ⟨s, -, -, -, hs, -⟩ := h now now lc lc (Int.le_refl _) (hrefl lc)
      exact ⟨s, hs⟩
    have htotal' : ∀ (now : I64) (lc : Option I64), ∃ s, v.stateUnder w' now lc = some s := by
      intro now lc
      obtain ⟨-, -, -, s, -, -, -, hs, -⟩ := h now now lc lc (Int.le_refl _) (hrefl lc)
      exact ⟨s, hs⟩
    exact ⟨fits_of_total htotal, fits_of_total htotal'⟩
  · intro ⟨hfits, hfits'⟩ now now' lc lc' hnow hlc
    obtain ⟨s, hs⟩ := stateUnder_total hfits now lc
    obtain ⟨later, hlater⟩ := stateUnder_total hfits now' lc
    obtain ⟨confirmed, hconfirmed⟩ := stateUnder_total hfits now lc'
    obtain ⟨longer, hlonger⟩ := stateUnder_total hfits' now lc
    have hsame : now ≤ now := Int.le_refl _
    exact ⟨s, later, confirmed, longer, hs, hlater, hconfirmed, hlonger,
      stateUnder_mono hnow (hrefl lc) (Int.le_refl _) (Int.le_refl _) hs hlater,
      stateUnder_mono hsame hlc (Int.le_refl _) (Int.le_refl _) hconfirmed hs,
      stateUnder_mono hsame (hrefl lc) hgrace hmax hlonger hs⟩

/-- Where no addition overflows, the state is the one over the integers. -/
theorem effectiveState_of_stateUnder (h : v.stateUnder w now lc = some s) :
    s = v.effectiveState now w.grace (lc.map (·.val)) w.maxStaleness := by
  simp only [DatedView.stateUnder, RosterView.effectiveState?, Option.bind_eq_bind,
    Option.bind_eq_some_iff] at h
  obtain ⟨expiry, hexpiry, stale, hstale, h⟩ := h
  have hstate : expiry = v.state now w.grace := eq_of_beyond hexpiry
  have hstaleness :
      stale = RosterView.staleness now w.grace (lc.map (·.val)) w.maxStaleness := by
    cases lc with
    | none => exact (Option.some.inj hstale).symm
    | some l => exact eq_of_beyond hstale
  rw [RosterView.effectiveState, ← hstate, ← hstaleness]
  exact (Option.some.inj h).symm

end State

/-! ### a long grace -/

namespace LongGrace

def view : DatedView where
  orgId := "acme"
  serial := 1
  expiresAtEpoch := 1000
  revoked := ∅
  devices := { map := ∅, not_revoked := by simp }
  groups := []
  users := []
  expires_i64 := by decide

/-- 72 hours and 24 hours. -/
def defaults : Windows := ⟨⟨259200, by decide⟩, ⟨86400, by decide⟩⟩

/-- Ten years and 24 hours. -/
def longer : Windows := ⟨⟨315360000, by decide⟩, ⟨86400, by decide⟩⟩

/-- The longest grace that parses, and 24 hours. -/
def longest : Windows := ⟨⟨9223372036854775807, by decide⟩, ⟨86400, by decide⟩⟩

end LongGrace

open LongGrace in
theorem degrades_iff_fits_example : view.Degrades defaults longer := by
  have hgrace : defaults.grace ≤ longer.grace := by decide
  have hmax : defaults.maxStaleness ≤ longer.maxStaleness := by decide
  have hfits : defaults.Fits 1000 ∧ longer.Fits 1000 := by
    simp only [Windows.Fits, defaults, longer]
    omega
  exact (degrades_iff_fits view hgrace hmax).mpr hfits

open LongGrace in
/-- One second after the expiry the end of the window overflows. -/
theorem longest_grace_overflows :
    parseDuration "9223372036854775807" = .ok longest.grace ∧
      parseDuration "24h" = .ok longest.maxStaleness ∧
      view.stateUnder longest ⟨1001, by decide⟩ none = none := by
  decide +kernel

end Mcpmesh
