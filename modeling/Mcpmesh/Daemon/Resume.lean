import Mcpmesh.Lib.Run
import Mcpmesh.Roster.Validate
import Mathlib.Algebra.GroupWithZero.Nat

/-!
# Mcpmesh.Daemon.Resume

The watcher that tells when the machine has slept (`node/src/daemon/resume.rs`).

It compares two clocks that are read one after the other: the monotonic clock
stands still while the machine sleeps, the wall clock does not.  The machine may
sleep, be busy, or have its clock set at any moment, between the two reads too;
time is in nanoseconds, and the watcher computes in seconds.
-/

namespace Mcpmesh

open Lib

/-! ## the rule -/

/-- `TICK`, in nanoseconds. -/
def resumeTick : Nat := 5000000000

/-- `RESUME_THRESHOLD_SECS`. -/
def resumeThresholdSecs : Int := 10

/-- A `u64` as an `i64`. -/
def asI64 (n : Nat) : Int := if n < 2 ^ 63 then n else n - 2 ^ 64

/-- `epoch_now_i64`: a clock before the epoch reads 0. -/
def epochNow (wall : Int) : Int := asI64 (wall / 1000000000).toNat

structure ClockDeltas where
  monoSecs : Int
  wallSecs : Int

/-- Both readings are of the monotonic clock and of the wall clock. -/
def deltas (last now : Nat × Int) : ClockDeltas where
  monoSecs := asI64 ((now.1 - last.1) / 1000000000)
  wallSecs := saturatingSub now.2 last.2

def detectSuspend (d : ClockDeltas) : Option Nat :=
  let skew := saturatingSub d.wallSecs d.monoSecs
  if resumeThresholdSecs ≤ skew then some skew.toNat else none

structure ResumeEvent where
  suspendedSecs : Nat
  atEpoch : Int

def tick (d : ClockDeltas) (nowWall : Int) : Option ResumeEvent :=
  (detectSuspend d).map fun suspendedSecs => { suspendedSecs, atEpoch := nowWall }

/-! ## the loop -/

/-- Where the loop is: in its sleep, or between its two reads. -/
inductive ResumePhase where
  | booting (nowMono : Nat)
  | sleeping (armed : Nat)
  | reading (nowMono : Nat)

/-- The watcher on its machine.  `seenMono` and `seenWall` are the clocks when
the wall clock was last read. -/
structure ResumeWatch where
  mono : Nat
  wall : Int
  phase : ResumePhase
  last : Nat × Int
  sent : List ResumeEvent
  seenMono : Nat
  seenWall : Int

inductive ClockEvent where
  | awake (nanos : Nat)
  | suspend (nanos : Nat)
  /-- the wall clock is set -/
  | setClock (change : Int)
  | readMono
  | readWall
  deriving DecidableEq

namespace ResumeWatch

/-- The watcher has read its first monotonic clock. -/
def start (mono : Nat) (wall : Int) : ResumeWatch :=
  { mono, wall, phase := .booting mono, last := (mono, 0), sent := [], seenMono := mono
    seenWall := wall }

/-- The clocks have been read. -/
def seen (s : ResumeWatch) (nowMono : Nat) : ResumeWatch :=
  { s with
    phase := .sleeping s.mono
    last := (nowMono, epochNow s.wall)
    seenMono := s.mono
    seenWall := s.wall }

def step (s : ResumeWatch) : ClockEvent → Option ResumeWatch
  | .awake nanos => some { s with mono := s.mono + nanos, wall := s.wall + nanos }
  | .suspend nanos => some { s with wall := s.wall + nanos }
  | .setClock change => some { s with wall := s.wall + change }
  | .readMono =>
      match s.phase with
      | .sleeping armed =>
          if armed + resumeTick ≤ s.mono then some { s with phase := .reading s.mono } else none
      | _ => none
  | .readWall =>
      match s.phase with
      | .booting nowMono => some (s.seen nowMono)
      | .reading nowMono =>
          let nowWall := epochNow s.wall
          let event := tick (deltas s.last (nowMono, nowWall)) nowWall
          some { s.seen nowMono with sent := s.sent ++ event.toList }
      | .sleeping _ => none

end ResumeWatch

/-! ## one tick -/

section Tick

variable {m m' : Nat} {w w' : Int} {r : Nat}

/-- The range of the clocks: the wall clock is past the epoch, and both fit. -/
def InRange (mono : Nat) (wall : Int) : Prop :=
  mono < 2 ^ 63 * 1000000000 ∧ 0 ≤ wall ∧ wall < 2 ^ 63 * 1000000000

/-- In range, the epoch is the wall clock in whole seconds. -/
theorem epochNow_of_inRange (h : InRange m w) : epochNow w = w / 1000000000 := by
  obtain ⟨-, hpos, hlt⟩ := h
  have hsecs : (w / 1000000000).toNat < 2 ^ 63 := by omega
  rw [epochNow, asI64, if_pos hsecs]
  omega

instance (mono : Nat) (wall : Int) : Decidable (InRange mono wall) :=
  inferInstanceAs (Decidable (_ ∧ _ ∧ _))

/-- What the rule computes: by how many seconds the wall clock has outrun the
monotonic clock. -/
theorem detectSuspend_deltas (h : InRange m w) (h' : InRange m' w') :
    detectSuspend (deltas (m, epochNow w) (m', epochNow w')) =
      let skew := w' / 1000000000 - w / 1000000000 - ((m' - m : Nat) / 1000000000 : Nat)
      if 10 ≤ skew then some skew.toNat else none := by
  rw [epochNow_of_inRange h, epochNow_of_inRange h']
  obtain ⟨hm, hpos, hlt⟩ := h
  obtain ⟨hm', hpos', hlt'⟩ := h'
  have hmono : (m' - m) / 1000000000 < 2 ^ 63 := by omega
  have hwall : saturatingSub (w' / 1000000000) (w / 1000000000) =
      w' / 1000000000 - w / 1000000000 := by
    unfold saturatingSub
    omega
  simp only [detectSuspend, deltas, hwall, asI64, if_pos hmono, resumeThresholdSecs]
  generalize hskew : w' / 1000000000 - w / 1000000000 - ((m' - m) / 1000000000 : Nat) = skew
  have hbound : skew < 2 ^ 63 := by omega
  have hcases : saturatingSub (w' / 1000000000 - w / 1000000000) ((m' - m) / 1000000000 : Nat) =
      max (-2 ^ 63) skew := by
    unfold saturatingSub
    omega
  rw [hcases]
  by_cases hfires : 10 ≤ skew
  · rw [if_pos hfires, if_pos (by omega), max_eq_right (by omega)]
  · rw [if_neg hfires, if_neg (by omega)]

/-- By how much the wall clock has outrun the monotonic one. -/
theorem of_detectSuspend (hm : m ≤ m') (h : InRange m w) (h' : InRange m' w')
    (hr : detectSuspend (deltas (m, epochNow w) (m', epochNow w')) = some r) :
    10 ≤ r ∧ r * 1000000000 < w' - w - (m' - m) + 2 * 1000000000 ∧
      w' - w - (m' - m) - 1000000000 < r * 1000000000 := by
  rw [detectSuspend_deltas h h'] at hr
  dsimp only at hr
  split at hr
  · next hfires =>
    have hr := Option.some.inj hr
    omega
  · contradiction

/-- A sleep of eleven seconds between two readings is detected. -/
theorem detectSuspend_of_sleep (hm : m ≤ m') (h : InRange m w) (h' : InRange m' w')
    (hsleep : 11 * 1000000000 ≤ w' - w - (m' - m)) :
    ∃ r, detectSuspend (deltas (m, epochNow w) (m', epochNow w')) = some r := by
  rw [detectSuspend_deltas h h']
  dsimp only
  rw [if_pos (by omega)]
  exact ⟨_, rfl⟩

end Tick

/-! ## runs -/

/-- How long the machine sleeps. -/
def ClockEvent.asleep : ClockEvent → Nat
  | .suspend nanos => nanos
  | _ => 0

namespace ResumeWatch

variable {s s' s₁ : ResumeWatch} {es : List ClockEvent} {e : ClockEvent} {mono : Nat} {wall : Int}

/-- By how much the wall clock is ahead of the monotonic one. -/
def drift (s : ResumeWatch) : Int := s.wall - s.mono

/-- The same, when the wall clock was last read. -/
def seenDrift (s : ResumeWatch) : Int := s.seenWall - s.seenMono

/-- The machine is not busy for a second between the two reads. -/
def Prompt (s : ResumeWatch) : Prop :=
  match s.phase with
  | .booting nowMono | .reading nowMono => s.mono < nowMono + 1000000000
  | .sleeping _ => True

/-- Nobody sets the wall clock; it is read in its range, and promptly. -/
def Fair (s : ResumeWatch) : ClockEvent → Prop
  | .setClock _ => False
  | .readWall => InRange s.mono s.wall ∧ s.Prompt
  | _ => True

instance (s : ResumeWatch) : Decidable s.Prompt :=
  match hphase : s.phase with
  | .booting nowMono => decidable_of_iff (s.mono < nowMono + 1000000000) (by rw [Prompt, hphase])
  | .reading nowMono => decidable_of_iff (s.mono < nowMono + 1000000000) (by rw [Prompt, hphase])
  | .sleeping _ => isTrue (by rw [Prompt, hphase]; trivial)

instance (s : ResumeWatch) (e : ClockEvent) : Decidable (s.Fair e) :=
  match e with
  | .setClock _ => isFalse id
  | .readWall => inferInstanceAs (Decidable (InRange s.mono s.wall ∧ s.Prompt))
  | .awake _ | .suspend _ | .readMono => isTrue trivial

/-- What the loop has kept of its last reads. -/
def Kept (s : ResumeWatch) : Prop :=
  ∃ lastMono, s.last = (lastMono, epochNow s.seenWall) ∧ lastMono ≤ s.seenMono ∧
    s.seenMono < lastMono + 1000000000 ∧ InRange s.seenMono s.seenWall

structure Inv (s : ResumeWatch) : Prop where
  mono : s.seenMono ≤ s.mono
  drift : s.seenDrift ≤ s.drift
  kept : match s.phase with
    | .booting nowMono => nowMono ≤ s.mono
    | .sleeping _ => s.Kept
    | .reading nowMono => s.seenMono ≤ nowMono ∧ nowMono ≤ s.mono ∧ s.Kept

/-- **One tick**: it tells how long the machine slept since the last one, two
seconds more or less. -/
theorem tick_spec (h : s.Inv) {nowMono : Nat} (hphase : s.phase = .reading nowMono)
    (hrange : InRange s.mono s.wall) (hprompt : s.mono < nowMono + 1000000000) :
    (∀ r, detectSuspend (deltas s.last (nowMono, epochNow s.wall)) = some r → 10 ≤ r ∧
      r * 1000000000 < s.drift - s.seenDrift + 3 * 1000000000 ∧
      s.drift - s.seenDrift < r * 1000000000 + 2 * 1000000000) ∧
    (12 * 1000000000 ≤ s.drift - s.seenDrift →
      ∃ r, detectSuspend (deltas s.last (nowMono, epochNow s.wall)) = some r) := by
  have hkept := h.kept
  rw [hphase] at hkept
  obtain ⟨hseen, hnow, lastMono, hlast, hle, hlt, hrange₀⟩ := hkept
  have h₀ : InRange lastMono s.seenWall := ⟨lt_of_le_of_lt hle hrange₀.1, hrange₀.2⟩
  have h₁ : InRange nowMono s.wall := ⟨lt_of_le_of_lt hnow hrange.1, hrange.2⟩
  have hm : lastMono ≤ nowMono := hle.trans hseen
  rw [hlast]
  unfold ResumeWatch.drift ResumeWatch.seenDrift
  refine ⟨fun r hr => ?_, fun hsleep => detectSuspend_of_sleep hm h₀ h₁ (by omega)⟩
  obtain ⟨hten, hlower, hupper⟩ := of_detectSuspend hm h₀ h₁ hr
  exact ⟨hten, by omega, by omega⟩

/-- The bounds hold when the watch starts. -/
theorem inv_start : (start mono wall).Inv := ⟨le_rfl, le_rfl, le_rfl⟩

/-- The reads are kept. -/
theorem inv_seen {nowMono : Nat} {sent : List ResumeEvent} (hnow : nowMono ≤ s.mono)
    (hprompt : s.mono < nowMono + 1000000000) (hrange : InRange s.mono s.wall) :
    ({ s.seen nowMono with sent := sent } : ResumeWatch).Inv :=
  ⟨le_rfl, le_rfl, nowMono, rfl, hnow, hprompt, hrange⟩

/-- A fair step keeps the bounds. -/
theorem inv_step (h : s.Inv) (hfair : s.Fair e) (hstep : s.step e = some s') : s'.Inv := by
  obtain ⟨hmono, hdrift, hkept⟩ := h
  unfold ResumeWatch.drift ResumeWatch.seenDrift at hdrift
  cases e with
  | awake nanos =>
      obtain rfl := Option.some.inj hstep
      refine ⟨hmono.trans (Nat.le_add_right ..), ?_, ?_⟩
      · simp only [ResumeWatch.drift, ResumeWatch.seenDrift]
        omega
      · cases hphase : s.phase with
        | booting nowMono =>
            rw [hphase] at hkept
            exact hkept.trans (Nat.le_add_right ..)
        | sleeping armed =>
            rw [hphase] at hkept
            exact hkept
        | reading nowMono =>
            rw [hphase] at hkept
            exact ⟨hkept.1, hkept.2.1.trans (Nat.le_add_right ..), hkept.2.2⟩
  | suspend nanos =>
      obtain rfl := Option.some.inj hstep
      refine ⟨hmono, ?_, hkept⟩
      simp only [ResumeWatch.drift, ResumeWatch.seenDrift]
      omega
  | setClock change => exact hfair.elim
  | readMono =>
      simp only [step] at hstep
      split at hstep
      · next armed hphase =>
        split_ifs at hstep
        obtain rfl := Option.some.inj hstep
        rw [hphase] at hkept
        exact ⟨hmono, hdrift, hmono, le_rfl, hkept⟩
      · contradiction
  | readWall =>
      obtain ⟨hrange, hprompt⟩ := hfair
      unfold Prompt at hprompt
      simp only [step] at hstep
      split at hstep
      · next nowMono hphase =>
        rw [hphase] at hkept hprompt
        obtain rfl := Option.some.inj hstep
        exact inv_seen hkept hprompt hrange
      · next nowMono hphase =>
        rw [hphase] at hkept hprompt
        obtain rfl := Option.some.inj hstep
        exact inv_seen hkept.2.1 hprompt hrange
      · contradiction

/-- The seconds that the events tell of. -/
def told (events : List ResumeEvent) : Nat := (events.map ResumeEvent.suspendedSecs).sum

/-- Each event tells of ten seconds at the least. -/
theorem ten_mul_le_told {events : List ResumeEvent}
    (h : ∀ event ∈ events, 10 ≤ event.suspendedSecs) : 10 * events.length ≤ told events := by
  induction events with
  | nil => exact le_rfl
  | cons event events ih =>
      have hrest := ih fun event hmem => h event (List.mem_cons_of_mem _ hmem)
      have hevent := h event List.mem_cons_self
      rw [told, List.map_cons, List.sum_cons, List.length_cons]
      unfold told at hrest
      omega

theorem asleep_eq_zero (h : ∀ nanos, ClockEvent.suspend nanos ∉ es) :
    (es.map ClockEvent.asleep).sum = 0 := by
  induction es with
  | nil => rfl
  | cons e es ih =>
      rw [List.map_cons, List.sum_cons, ih fun nanos hmem => h nanos (List.mem_cons_of_mem _ hmem)]
      cases e with
      | suspend nanos => exact absurd List.mem_cons_self (h nanos)
      | _ => rfl

/-- What a run has told when it goes on from `s` to `s'`, and `asleep` is how
long the machine slept on the way. -/
structure Tells (s s' : ResumeWatch) (asleep : Nat) (new : List ResumeEvent) : Prop where
  inv : s'.Inv
  drift : s'.drift = s.drift + asleep
  sent : s'.sent = s.sent ++ new
  long : ∀ event ∈ new, 10 ≤ event.suspendedSecs
  account : told new * 1000000000 ≤
    s'.seenDrift - s.seenDrift + 3 * 1000000000 * new.length

/-- A step that tells nothing. -/
theorem Tells.silent (hinv : s'.Inv) {asleep : Nat} (hdrift : s'.drift = s.drift + asleep)
    (hsent : s'.sent = s.sent) (hseen : s.seenDrift ≤ s'.seenDrift) : Tells s s' asleep [] where
  inv := hinv
  drift := hdrift
  sent := hsent.trans (List.append_nil _).symm
  long := nofun
  account := by
    rw [told, List.map_nil, List.sum_nil, List.length_nil]
    omega

/-- What is told over two stretches of a run adds up. -/
theorem Tells.trans {asleep asleep' : Nat} {new new' : List ResumeEvent}
    (h : Tells s s₁ asleep new) (h' : Tells s₁ s' asleep' new') :
    Tells s s' (asleep + asleep') (new ++ new') where
  inv := h'.inv
  drift := by
    rw [h'.drift, h.drift]
    omega
  sent := by rw [h'.sent, h.sent, List.append_assoc]
  long event hmem := (List.mem_append.mp hmem).elim (h.long event) (h'.long event)
  account := by
    have h₁ := h.account
    have h₂ := h'.account
    have htold : told (new ++ new') = told new + told new' := by
      rw [told, List.map_append, List.sum_append]
      rfl
    rw [htold, List.length_append]
    push_cast
    omega

/-- A fair step tells of what was slept in it, up to the slack. -/
theorem step_tells (h : s.Inv) (hfair : s.Fair e) (hstep : s.step e = some s') :
    ∃ new, Tells s s' e.asleep new := by
  have hinv := inv_step h hfair hstep
  cases e with
  | awake nanos =>
      obtain rfl := Option.some.inj hstep
      refine ⟨[], .silent hinv ?_ rfl le_rfl⟩
      simp only [ResumeWatch.drift, ClockEvent.asleep]
      omega
  | suspend nanos =>
      obtain rfl := Option.some.inj hstep
      refine ⟨[], .silent hinv ?_ rfl le_rfl⟩
      simp only [ResumeWatch.drift, ClockEvent.asleep]
      omega
  | setClock change => exact hfair.elim
  | readMono =>
      simp only [step] at hstep
      split at hstep
      · split_ifs at hstep
        obtain rfl := Option.some.inj hstep
        exact ⟨[], .silent hinv (by exact (add_zero _).symm) rfl le_rfl⟩
      · contradiction
  | readWall =>
      obtain ⟨hrange, hprompt⟩ := hfair
      unfold Prompt at hprompt
      simp only [step] at hstep
      split at hstep
      · obtain rfl := Option.some.inj hstep
        exact ⟨[], .silent hinv (by exact (add_zero _).symm) rfl h.drift⟩
      · next nowMono hphase =>
        rw [hphase] at hprompt
        have hspec := (tick_spec h hphase hrange hprompt).1
        obtain rfl := Option.some.inj hstep
        unfold tick at hinv ⊢
        cases hdetect : detectSuspend (deltas s.last (nowMono, epochNow s.wall)) with
        | none =>
            refine ⟨[], .silent ?_ (by exact (add_zero _).symm) ?_ h.drift⟩
            · rw [hdetect] at hinv
              exact hinv
            · exact List.append_nil _
        | some r =>
            obtain ⟨hlong, hlower, -⟩ := hspec r hdetect
            rw [hdetect] at hinv
            refine ⟨[⟨r, epochNow s.wall⟩], hinv, (add_zero _).symm, rfl, ?_, ?_⟩
            · rintro event hmem
              obtain rfl := List.mem_singleton.mp hmem
              exact hlong
            · have hseen : s.drift - s.seenDrift ≤ s.drift - s.seenDrift := le_rfl
              simp only [told, List.map_singleton, List.sum_singleton, List.length_singleton]
              exact (by omega : (r : Int) * 1000000000 ≤ s.drift - s.seenDrift + 3 * 1000000000 * 1)
      · contradiction

/-- A fair run tells of what was slept in it, up to the slack. -/
theorem run_tells (h : s.Inv) (hfair : Guarded step Fair s es) (hrun : run step s es = some s') :
    ∃ new, Tells s s' (es.map ClockEvent.asleep).sum new := by
  induction es generalizing s with
  | nil =>
      obtain rfl := Option.some.inj hrun
      exact ⟨[], .silent h (add_zero _).symm rfl le_rfl⟩
  | cons e es ih =>
      obtain ⟨s₁, hse, hrun⟩ := run_cons_eq_some.mp hrun
      obtain ⟨hfair₀, hrest⟩ := hfair s₁ hse
      obtain ⟨new, hnew⟩ := step_tells h hfair₀ hse
      obtain ⟨new', hnew'⟩ := ih hnew.inv hrest hrun
      exact ⟨new ++ new', hnew.trans hnew'⟩

/-- **No sleep is told twice**: the seconds told are seconds slept, to three for
each event; an awake machine tells nothing, however late the ticks are. -/
theorem told_is_slept (hfair : Guarded step Fair (start mono wall) es)
    (hrun : run step (start mono wall) es = some s) :
    told s.sent * 1000000000 ≤ (es.map ClockEvent.asleep).sum + 3 * 1000000000 * s.sent.length ∧
      ((∀ nanos, ClockEvent.suspend nanos ∉ es) → s.sent = []) := by
  obtain ⟨new, h⟩ := run_tells inv_start hfair hrun
  have hsent : s.sent = new := h.sent
  have haccount := h.account
  have hdrift := h.inv.drift
  have hstart : (start mono wall).seenDrift = (start mono wall).drift := rfl
  rw [h.drift] at hdrift
  have htold : told s.sent * 1000000000 ≤
      (es.map ClockEvent.asleep).sum + 3 * 1000000000 * s.sent.length := by
    rw [hsent]
    omega
  refine ⟨htold, fun hawake => ?_⟩
  have hten := ten_mul_le_told h.long
  rw [asleep_eq_zero hawake, hsent] at htold
  rw [hsent]
  exact List.eq_nil_of_length_eq_zero (by omega)

/-- The watcher is past its first reads. -/
def Booted (s : ResumeWatch) : Prop := ∀ nowMono, s.phase ≠ .booting nowMono

/-- The boot reading stays behind the watch. -/
theorem booted_step (h : s.Booted) (hstep : s.step e = some s') : s'.Booted := by
  cases e with
  | awake nanos => exact Option.some.inj hstep ▸ h
  | suspend nanos => exact Option.some.inj hstep ▸ h
  | setClock change => exact Option.some.inj hstep ▸ h
  | readMono =>
      simp only [step] at hstep
      split at hstep
      · split_ifs at hstep
        exact Option.some.inj hstep ▸ nofun
      · contradiction
  | readWall =>
      simp only [step] at hstep
      split at hstep
      · exact Option.some.inj hstep ▸ nofun
      · exact Option.some.inj hstep ▸ nofun
      · contradiction

/-- The seen drift moves with a read of the wall clock only. -/
theorem seenDrift_step (hread : e ≠ .readWall) (hstep : s.step e = some s') :
    s'.seenDrift = s.seenDrift ∧ s'.sent = s.sent := by
  cases e with
  | readWall => exact absurd rfl hread
  | readMono =>
      simp only [step] at hstep
      split at hstep
      · split_ifs at hstep
        exact Option.some.inj hstep ▸ ⟨rfl, rfl⟩
      · contradiction
  | _ => exact Option.some.inj hstep ▸ ⟨rfl, rfl⟩

/-- A sleep that is not told yet is told at the next read of the wall clock. -/
theorem told_of_pending {nanos : Nat} (h : s.Inv) (hbooted : s.Booted)
    (hlong : 12 * 1000000000 ≤ nanos) (hpending : s.seenDrift + nanos ≤ s.drift)
    (hfair : Guarded step Fair s es) (hrun : run step s es = some s')
    (hread : ClockEvent.readWall ∈ es) :
    ∃ event ∈ s'.sent.drop s.sent.length,
      nanos < event.suspendedSecs * 1000000000 + 2 * 1000000000 := by
  induction es generalizing s with
  | nil => contradiction
  | cons e es ih =>
      obtain ⟨s₁, hse, hrun₁⟩ := run_cons_eq_some.mp hrun
      obtain ⟨hfair₀, hrest⟩ := hfair s₁ hse
      by_cases he : e = .readWall
      · obtain rfl := he
        obtain ⟨new, hnew⟩ := run_tells (inv_step h hfair₀ hse) hrest hrun₁
        obtain ⟨hrange, hprompt⟩ := hfair₀
        unfold Prompt at hprompt
        simp only [step] at hse
        split at hse
        · next nowMono hphase => exact absurd hphase (hbooted nowMono)
        · next nowMono hphase =>
          rw [hphase] at hprompt
          obtain ⟨hspec, hfires⟩ := tick_spec h hphase hrange hprompt
          obtain ⟨r, hr⟩ := hfires (by omega)
          obtain ⟨-, -, hupper⟩ := hspec r hr
          have hsent : s₁.sent = s.sent ++ [⟨r, epochNow s.wall⟩] := by
            rw [← Option.some.inj hse, tick, hr]
            rfl
          rw [hnew.sent, hsent, List.append_assoc, List.drop_left]
          exact ⟨_, List.mem_cons_self, by dsimp only; omega⟩
        · contradiction
      · obtain ⟨hseen, hsent⟩ := seenDrift_step he hse
        obtain ⟨new, hnew⟩ := step_tells h hfair₀ hse
        have hdrift := hnew.drift
        rw [← hsent]
        refine ih (inv_step h hfair₀ hse) (booted_step hbooted hse) (by omega) hrest hrun₁ ?_
        exact (List.mem_cons.mp hread).resolve_left (Ne.symm he)

/-- **Every long sleep is told**, to two seconds: once the watcher is past its
first reads, a sleep of twelve seconds is told by the next tick. -/
theorem sleep_is_told {es₁ es₂ : List ClockEvent} {nanos : Nat}
    (hfair₁ : Guarded step Fair (start mono wall) es₁)
    (hrun₁ : run step (start mono wall) es₁ = some s₁) (hbooted : s₁.Booted)
    (hfair₂ : Guarded step Fair s₁ (.suspend nanos :: es₂))
    (hrun₂ : run step s₁ (.suspend nanos :: es₂) = some s)
    (hlong : 12 * 1000000000 ≤ nanos) (hread : ClockEvent.readWall ∈ es₂) :
    ∃ event ∈ s.sent.drop s₁.sent.length,
      nanos < event.suspendedSecs * 1000000000 + 2 * 1000000000 := by
  obtain ⟨new, h⟩ := run_tells inv_start hfair₁ hrun₁
  obtain ⟨s₂, hse, hrun⟩ := run_cons_eq_some.mp hrun₂
  obtain ⟨hfair, hrest⟩ := hfair₂ s₂ hse
  have hinv := inv_step h.inv hfair hse
  have hdrift := h.inv.drift
  obtain rfl := Option.some.inj hse
  refine told_of_pending (s := { s₁ with wall := s₁.wall + nanos }) hinv hbooted hlong ?_ hrest hrun
    hread
  simp only [ResumeWatch.drift, ResumeWatch.seenDrift] at hdrift ⊢
  omega

/-! ### a closed lid -/

namespace Example

/-- Two ticks of an idle machine. -/
def idle : List ClockEvent :=
  [.readWall, .awake 5000000000, .readMono, .readWall, .awake 5000000000, .readMono, .readWall]

/-- A tick after it has woken up. -/
def wake : List ClockEvent := [.awake 5000000000, .readMono, .readWall]

/-- The lid is closed for two hours, while the watcher sleeps. -/
def lid : List ClockEvent := idle ++ .suspend 7200000000000 :: wake

def booted : ResumeWatch where
  mono := 10000000000
  wall := 1700000010000000000
  phase := .sleeping 10000000000
  last := (10000000000, 1700000010)
  sent := []
  seenMono := 10000000000
  seenWall := 1700000010000000000

end Example

theorem told_is_slept_example : ∃ s,
    run step (start 0 1700000000000000000) Example.lid = some s ∧
      told s.sent = 7200 ∧ told s.sent * 1000000000 ≤ 7200000000000 + 3 * 1000000000 * 1 := by
  have hrun : run step (start 0 1700000000000000000) Example.lid = some _ := rfl
  have hfair : Guarded step Fair (start 0 1700000000000000000) Example.lid := by decide
  exact ⟨_, hrun, rfl, (told_is_slept hfair hrun).1⟩

theorem sleep_is_told_example : ∃ s,
    run step (start 0 1700000000000000000) Example.idle = some Example.booted ∧
      run step Example.booted (.suspend 7200000000000 :: Example.wake) = some s ∧
      ∃ event ∈ s.sent, 7200000000000 < event.suspendedSecs * 1000000000 + 2 * 1000000000 := by
  have hrun₁ : run step (start 0 1700000000000000000) Example.idle = some Example.booted := rfl
  have hfair₁ : Guarded step Fair (start 0 1700000000000000000) Example.idle := by decide
  have hrun₂ : run step Example.booted (.suspend 7200000000000 :: Example.wake) = some _ := rfl
  have hfair₂ : Guarded step Fair Example.booted (.suspend 7200000000000 :: Example.wake) := by
    decide
  exact ⟨_, hrun₁, hrun₂, sleep_is_told hfair₁ hrun₁ nofun hfair₂ hrun₂ (by decide) (by decide)⟩

end ResumeWatch

end Mcpmesh
