import Mcpmesh.Lib.Broadcast
import Mcpmesh.Lib.Run
import Mathlib.Logic.Function.Basic

/-!
# Mcpmesh.Control.Subscription

The stream of a `subscribe` (`run_subscription` of `node/src/control.rs`).

Five rings are merged into one stream of frames, each registered for before the
snapshot is taken.  A subscriber that falls behind one of them is sent a frame
that says by how much and not on which ring, and it is never dropped for that; a
ring whose sender is gone is left out from then on, and the stream ends with the
last of them.

What a frame carries is not looked at, so the rings share one type of values.
-/

namespace Mcpmesh

open Lib

/-! ## rings and frames -/

inductive Tap where
  | audit
  | reach
  | selfNet
  | blob
  | resume
  deriving DecidableEq

def Tap.all : List Tap := [.audit, .reach, .selfNet, .blob, .resume]

theorem Tap.mem_all (t : Tap) : t ∈ Tap.all := by
  cases t <;> decide

/-- `StreamFrame`, of which `σ` is a snapshot and `α` a value of a ring. -/
inductive StreamFrame (σ α : Type) where
  | snapshot (view : σ)
  | event (record : α)
  | reachability (transition : α)
  | selfNetwork (transition : α)
  | blobTransfer (transfer : α)
  | resumed (event : α)
  | lagged (dropped : Nat)

section Frames

variable {σ α : Type}

/-- The frame of a value, or of a lag. -/
def tapFrame (wrap : α → StreamFrame σ α) : Told α → StreamFrame σ α
  | .value a => wrap a
  | .lagged n => .lagged n

def auditFrame : Told α → StreamFrame σ α := tapFrame .event

def blobFrame : Told α → StreamFrame σ α := tapFrame .blobTransfer

def reachFrame : Told α → StreamFrame σ α := tapFrame .reachability

def selfNetFrame : Told α → StreamFrame σ α := tapFrame .selfNetwork

def resumeFrame : Told α → StreamFrame σ α := tapFrame .resumed

def frameOf : Tap × Told α → StreamFrame σ α
  | (.audit, t) => auditFrame t
  | (.reach, t) => reachFrame t
  | (.selfNet, t) => selfNetFrame t
  | (.blob, t) => blobFrame t
  | (.resume, t) => resumeFrame t

end Frames

/-! ## the stream -/

/-- A ring, and the subscriber's receiver.  A control-only daemon has no ring,
and one that does not audit lacks the first. -/
inductive TapState (α : Type) where
  | absent
  | waiting (b : Broadcast α)
  /-- registered where `start` values had been sent -/
  | live (b : Broadcast α) (start place : Nat)
  /-- the receiver found the ring closed -/
  | dropped (b : Broadcast α) (start : Nat)

inductive SubscribePhase where
  | registering
  | streaming
  | ended
  deriving DecidableEq

structure Subscription (σ α : Type) where
  taps : Tap → TapState α
  phase : SubscribePhase
  frames : List (StreamFrame σ α)
  /-- which ring said what, of the frames that were written -/
  told : List (Tap × Told α)

inductive StreamEvent (σ α : Type) where
  | send (t : Tap) (a : α)
  /-- the last sender of the ring goes -/
  | close (t : Tap)
  | register (t : Tap)
  | snapshot (view : σ) (written : Bool)
  /-- `select!` takes the ring -/
  | turn (t : Tap) (written : Bool)

/-- The client is gone. -/
def StreamEvent.Lost {σ α : Type} : StreamEvent σ α → Prop
  | .snapshot _ false | .turn _ false => True
  | _ => False

namespace TapState

variable {α : Type}

/-- Its receiver is still there. -/
def isLive : TapState α → Bool
  | .live .. => true
  | _ => false

def isWaiting : TapState α → Bool
  | .waiting _ => true
  | _ => false

def send (a : α) : TapState α → Option (TapState α)
  | .waiting b => if b.closed then none else some (.waiting (b.send a))
  | .live b start place => if b.closed then none else some (.live (b.send a) start place)
  | .absent | .dropped _ _ => none

def close : TapState α → Option (TapState α)
  | .waiting b => some (.waiting b.close)
  | .live b start place => some (.live b.close start place)
  | .absent | .dropped _ _ => none

def register : TapState α → Option (TapState α)
  | .waiting b => some (.live b b.sent.length b.sent.length)
  | _ => none

/-- Receive, where there is something to receive. -/
def recv : TapState α → Option (Option (Told α) × TapState α)
  | .live b start place =>
      match b.recv place with
      | (.told t, place') => some (some t, .live b start place')
      | (.closed, _) => some (none, .dropped b start)
      | (.pending, _) => none
  | _ => none

end TapState

namespace Subscription

variable {σ α : Type}

/-- The rings that the daemon has. -/
def init (rings : Tap → Option (Broadcast α)) : Subscription σ α :=
  ⟨fun t => (rings t).elim .absent .waiting, .registering, [], []⟩

def setTap (s : Subscription σ α) (t : Tap) (tap : TapState α) : Subscription σ α :=
  { s with taps := Function.update s.taps t tap }

/-- The top of the loop: no receiver is left. -/
def settle (s : Subscription σ α) : Subscription σ α :=
  if Tap.all.any fun t => (s.taps t).isLive then { s with phase := .streaming }
  else { s with phase := .ended }

def step (s : Subscription σ α) : StreamEvent σ α → Option (Subscription σ α)
  | .send t a => ((s.taps t).send a).map (s.setTap t)
  | .close t => (s.taps t).close.map (s.setTap t)
  | .register t =>
      match s.phase with
      | .registering => (s.taps t).register.map (s.setTap t)
      | _ => none
  | .snapshot view written =>
      match s.phase with
      | .registering =>
          if Tap.all.any fun t => (s.taps t).isWaiting then none
          else if written then some { s with frames := [.snapshot view] }.settle
          else some { s with phase := .ended }
      | _ => none
  | .turn t written =>
      match s.phase with
      | .streaming =>
          (s.taps t).recv.map fun r =>
            match r.1 with
            | none => (s.setTap t r.2).settle
            | some told =>
                if written then
                  { s.setTap t r.2 with
                    frames := s.frames ++ [frameOf (t, told)]
                    told := s.told ++ [(t, told)] }
                else { s with phase := .ended }
      | _ => none

end Subscription

/-! ## what a ring has told -/

/-- What was told of one ring. -/
def toldOn {α : Type} (t : Tap) (told : List (Tap × Told α)) : List (Told α) :=
  (told.filter fun e => e.1 = t).map Prod.snd

namespace TapState

variable {α : Type} {tap tap' : TapState α} {told : List (Told α)} {t : Told α}

/-- Everything since the registration has been told or counted, up to where the
receiver is; a ring that was dropped has been told to its end. -/
def Accounted (told : List (Told α)) : TapState α → Prop
  | .absent | .waiting _ => told = []
  | .live b start place => b.Follows start place told
  | .dropped b start => b.closed = true ∧ Accounts (b.sent.drop start) told

/-- What others do to a ring leaves the subscriber where it is. -/
structure Kept (tap tap' : TapState α) : Prop where
  accounted : ∀ told, tap.Accounted told → tap'.Accounted told
  isLive : tap'.isLive = tap.isLive
  isWaiting : tap'.isWaiting = tap.isWaiting

/-- A value sent on a ring keeps its account. -/
theorem kept_send {a : α} (h : tap.send a = some tap') : tap.Kept tap' := by
  cases tap with
  | absent => contradiction
  | dropped => contradiction
  | waiting b =>
      rw [send] at h
      split at h
      · contradiction
      · obtain rfl := Option.some.inj h
        exact ⟨fun _ => id, rfl, rfl⟩
  | live b start place =>
      rw [send] at h
      split at h
      · contradiction
      · obtain rfl := Option.some.inj h
        exact ⟨fun _ hfollows => hfollows.send a, rfl, rfl⟩

/-- A ring that closes keeps its account. -/
theorem kept_close (h : tap.close = some tap') : tap.Kept tap' := by
  cases tap with
  | absent => contradiction
  | dropped => contradiction
  | waiting b =>
      obtain rfl := Option.some.inj h
      exact ⟨fun _ => id, rfl, rfl⟩
  | live b start place =>
      obtain rfl := Option.some.inj h
      exact ⟨fun _ hfollows => hfollows.close, rfl, rfl⟩

/-- A receiver that registers was told nothing yet. -/
theorem accounted_register (h : tap.register = some tap') :
    tap'.Accounted [] ∧ tap'.isWaiting = false := by
  cases tap with
  | absent => contradiction
  | live => contradiction
  | dropped => contradiction
  | waiting b =>
      obtain rfl := Option.some.inj h
      exact ⟨b.follows_join, rfl⟩

/-- A receive tells the next value or the count of those missed. -/
theorem recv_told (h : tap.recv = some (some t, tap')) (htold : tap.Accounted told) :
    tap'.Accounted (told ++ [t]) ∧ tap'.isWaiting = false := by
  cases tap with
  | absent => contradiction
  | waiting => contradiction
  | dropped => contradiction
  | live b start place =>
      rw [recv] at h
      split at h
      · next hrecv =>
        obtain ⟨ht, rfl⟩ := Prod.mk.inj (Option.some.inj h)
        obtain rfl := Option.some.inj ht
        exact ⟨Broadcast.Follows.recv htold hrecv, rfl⟩
      · exact absurd (Prod.mk.inj (Option.some.inj h)).1 nofun
      · contradiction

/-- A receive that finds its ring closed tells nothing. -/
theorem recv_closed (h : tap.recv = some (none, tap')) (htold : tap.Accounted told) :
    tap'.Accounted told ∧ tap'.isWaiting = false := by
  cases tap with
  | absent => contradiction
  | waiting => contradiction
  | dropped => contradiction
  | live b start place =>
      rw [recv] at h
      split at h
      · exact absurd (Prod.mk.inj (Option.some.inj h)).1 nofun
      · next hrecv =>
        obtain ⟨-, rfl⟩ := Prod.mk.inj (Option.some.inj h)
        exact ⟨Broadcast.Follows.closed htold hrecv, rfl⟩
      · contradiction

end TapState

namespace Subscription

variable {σ α : Type} {s s' : Subscription σ α} {e : StreamEvent σ α}
  {events : List (StreamEvent σ α)} {t : Tap} {tap : TapState α}

/-- What was told on a ring after one more turn. -/
theorem toldOn_snoc (t t' : Tap) (told : List (Tap × Told α)) (x : Told α) :
    toldOn t (told ++ [(t', x)]) = if t' = t then toldOn t told ++ [x] else toldOn t told := by
  by_cases h : t' = t
  · simp [toldOn, h]
  · simp [toldOn, h]

/-- The subscription after the events. -/
structure Inv (events : List (StreamEvent σ α)) (s : Subscription σ α) : Prop where
  accounted : ∀ t, (s.taps t).Accounted (toldOn t s.told)
  frames : s.frames = [] ∧ s.told = [] ∨
    ∃ view, s.frames = .snapshot view :: s.told.map frameOf
  begun : s.phase = .streaming → s.frames ≠ []
  quiet : s.phase = .registering → s.told = []
  registered : s.phase ≠ .registering → ∀ t, (s.taps t).isWaiting = false
  greeted : s.frames ≠ [] → ∀ t, (s.taps t).isWaiting = false
  done : s.phase = .ended → (∃ e ∈ events, e.Lost) ∨ ∀ t, (s.taps t).isLive = false

/-- The accounts hold when the stream opens. -/
theorem inv_init (rings : Tap → Option (Broadcast α)) :
    Inv [] (init rings : Subscription σ α) where
  accounted t := by
    change ((rings t).elim TapState.absent TapState.waiting).Accounted []
    cases rings t <;> rfl
  frames := .inl ⟨rfl, rfl⟩
  begun := nofun
  quiet := fun _ => rfl
  registered := fun h => absurd rfl h
  greeted := fun h => absurd rfl h
  done := nofun

/-- A property of each ring, where one of them has changed. -/
theorem forall_setTap {p : Tap → TapState α → Prop} (hself : p t tap)
    (hothers : ∀ t' ≠ t, p t' (s.taps t')) : ∀ t', p t' ((s.setTap t tap).taps t') :=
  (Function.forall_update_iff s.taps p).mpr ⟨hself, hothers⟩

/-- The accounts stand when another event follows. -/
theorem Inv.snoc (h : Inv events s) (e : StreamEvent σ α) : Inv (events ++ [e]) s where
  accounted := h.accounted
  frames := h.frames
  begun := h.begun
  quiet := h.quiet
  registered := h.registered
  greeted := h.greeted
  done := fun hover => by
    obtain ⟨lost, hmem, hlost⟩ | hnone := h.done hover
    · exact .inl ⟨lost, List.mem_append_left _ hmem, hlost⟩
    · exact .inr hnone

/-- A ring that is kept keeps its account. -/
theorem Inv.kept (h : Inv events s) (hkept : (s.taps t).Kept tap) :
    Inv events (s.setTap t tap) where
  accounted := forall_setTap (p := fun t tap => tap.Accounted (toldOn t s.told))
    (hkept.accounted _ (h.accounted t)) fun t' _ => h.accounted t'
  frames := h.frames
  begun := h.begun
  quiet := h.quiet
  registered := fun hphase => forall_setTap (p := fun _ tap => tap.isWaiting = false)
    (hkept.isWaiting.trans (h.registered hphase t)) fun t' _ => h.registered hphase t'
  greeted := fun hframes => forall_setTap (p := fun _ tap => tap.isWaiting = false)
    (hkept.isWaiting.trans (h.greeted hframes t)) fun t' _ => h.greeted hframes t'
  done := fun hover => (h.done hover).imp_right fun hnone =>
    forall_setTap (p := fun _ tap => tap.isLive = false)
      (hkept.isLive.trans (hnone t)) fun t' _ => hnone t'

/-- A registration opens its account. -/
theorem Inv.register (h : Inv events s) (hphase : s.phase = .registering)
    (htap : (s.taps t).register = some tap) : Inv events (s.setTap t tap) where
  accounted := forall_setTap (p := fun t tap => tap.Accounted (toldOn t s.told))
    (by
      rw [h.quiet hphase]
      exact (TapState.accounted_register htap).1)
    fun t' _ => h.accounted t'
  frames := h.frames
  begun := h.begun
  quiet := h.quiet
  registered := fun hne => absurd hphase hne
  greeted := fun hframes => forall_setTap (p := fun _ tap => tap.isWaiting = false)
    (TapState.accounted_register htap).2 fun t' _ => h.greeted hframes t'
  done := fun hover => absurd (hphase.symm.trans hover) (by decide)

/-- The loop begins, or goes on without a ring. -/
theorem Inv.settle (h : Inv events s) (hframes : s.frames ≠ [])
    (hregistered : ∀ t, (s.taps t).isWaiting = false) : Inv events s.settle := by
  rw [Subscription.settle]
  split
  · exact {
      accounted := h.accounted
      frames := h.frames
      begun := fun _ => hframes
      quiet := nofun
      registered := fun _ => hregistered
      greeted := fun _ => hregistered
      done := nofun }
  · next hnone =>
    exact {
      accounted := h.accounted
      frames := h.frames
      begun := nofun
      quiet := nofun
      registered := fun _ => hregistered
      greeted := fun _ => hregistered
      done := fun _ => .inr fun t => by
        by_contra hlive
        exact hnone (List.any_eq_true.mpr ⟨t, Tap.mem_all t, Bool.of_not_eq_false hlive⟩) }

/-- A stream that is cut off for the client. -/
theorem Inv.lost (h : Inv events s) (hlost : e.Lost)
    (hregistered : ∀ t, (s.taps t).isWaiting = false) :
    Inv (events ++ [e]) { s with phase := .ended } where
  accounted := h.accounted
  frames := h.frames
  begun := nofun
  quiet := nofun
  registered := fun _ => hregistered
  greeted := fun _ => hregistered
  done := fun _ => .inl ⟨e, List.mem_append_right _ (List.mem_singleton_self e), hlost⟩

/-- The snapshot is the first frame. -/
theorem Inv.open (h : Inv events s) (hphase : s.phase = .registering)
    (hregistered : ∀ t, (s.taps t).isWaiting = false) (view : σ) :
    Inv events { s with frames := [.snapshot view] } where
  accounted := h.accounted
  frames := .inr ⟨view, by rw [h.quiet hphase]; rfl⟩
  begun := fun hstream => absurd (hphase.symm.trans hstream) (by decide)
  quiet := h.quiet
  registered := fun hne => absurd hphase hne
  greeted := fun _ => hregistered
  done := fun hover => absurd (hphase.symm.trans hover) (by decide)

/-- A frame of a ring is written. -/
theorem Inv.told (h : Inv events s) (hphase : s.phase = .streaming) {x : Told α}
    (hrecv : (s.taps t).recv = some (some x, tap)) :
    Inv events { s.setTap t tap with
      frames := s.frames ++ [frameOf (t, x)]
      told := s.told ++ [(t, x)] } where
  accounted := forall_setTap
    (p := fun t' tap => tap.Accounted (toldOn t' (s.told ++ [(t, x)])))
    (by
      rw [toldOn_snoc, if_pos rfl]
      exact (TapState.recv_told hrecv (h.accounted t)).1)
    fun t' hne => by
      rw [toldOn_snoc, if_neg hne.symm]
      exact h.accounted t'
  frames := by
    obtain ⟨hnone, -⟩ | ⟨view, hframes⟩ := h.frames
    · exact absurd hnone (h.begun hphase)
    · refine .inr ⟨view, ?_⟩
      rw [hframes, List.map_append, List.cons_append]
      rfl
  begun := fun _ => List.append_ne_nil_of_right_ne_nil _ (List.cons_ne_nil _ _)
  quiet := fun hreg => absurd (hphase.symm.trans hreg) (by decide)
  registered := fun hne => forall_setTap (p := fun _ tap => tap.isWaiting = false)
    (TapState.recv_told hrecv (h.accounted t)).2 fun t' _ => h.registered hne t'
  greeted := fun _ => forall_setTap (p := fun _ tap => tap.isWaiting = false)
    (TapState.recv_told hrecv (h.accounted t)).2 fun t' _ => h.greeted (h.begun hphase) t'
  done := fun hover => absurd (hphase.symm.trans hover) (by decide)

/-- A ring is found closed. -/
theorem Inv.drop (h : Inv events s) (hphase : s.phase = .streaming)
    (hrecv : (s.taps t).recv = some (none, tap)) : Inv events (s.setTap t tap) where
  accounted := forall_setTap (p := fun t tap => tap.Accounted (toldOn t s.told))
    (TapState.recv_closed hrecv (h.accounted t)).1 fun t' _ => h.accounted t'
  frames := h.frames
  begun := h.begun
  quiet := h.quiet
  registered := fun hne => forall_setTap (p := fun _ tap => tap.isWaiting = false)
    (TapState.recv_closed hrecv (h.accounted t)).2 fun t' _ => h.registered hne t'
  greeted := fun hframes => forall_setTap (p := fun _ tap => tap.isWaiting = false)
    (TapState.recv_closed hrecv (h.accounted t)).2 fun t' _ => h.greeted hframes t'
  done := fun hover => absurd (hphase.symm.trans hover) (by decide)

/-- A step keeps the accounts. -/
theorem Inv.step (h : Inv events s) (hstep : s.step e = some s') : Inv (events ++ [e]) s' := by
  cases e with
  | send t a =>
      obtain ⟨tap, htap, rfl⟩ := Option.map_eq_some_iff.mp hstep
      exact (h.kept (TapState.kept_send htap)).snoc _
  | close t =>
      obtain ⟨tap, htap, rfl⟩ := Option.map_eq_some_iff.mp hstep
      exact (h.kept (TapState.kept_close htap)).snoc _
  | register t =>
      unfold Subscription.step at hstep
      dsimp only at hstep
      split at hstep
      · next hphase =>
        obtain ⟨tap, htap, rfl⟩ := Option.map_eq_some_iff.mp hstep
        exact (h.register hphase htap).snoc _
      · contradiction
  | snapshot view written =>
      unfold Subscription.step at hstep
      dsimp only at hstep
      split at hstep
      · next hphase =>
        split at hstep
        · contradiction
        · next hnone =>
          have hregistered : ∀ t, (s.taps t).isWaiting = false := fun t => by
            by_contra hwaits
            exact hnone
              (List.any_eq_true.mpr ⟨t, Tap.mem_all t, Bool.of_not_eq_false hwaits⟩)
          split at hstep
          · obtain rfl := Option.some.inj hstep
            exact ((h.open hphase hregistered view).settle (List.cons_ne_nil _ _)
              hregistered).snoc _
          · next hlost =>
            obtain rfl := Option.some.inj hstep
            obtain rfl := Bool.eq_false_iff.mpr hlost
            exact h.lost trivial hregistered
      · contradiction
  | turn t written =>
      unfold Subscription.step at hstep
      dsimp only at hstep
      split at hstep
      · next hphase =>
        have hregistered := h.registered (by rw [hphase]; decide)
        obtain ⟨⟨out, tap⟩, hrecv, hout⟩ := Option.map_eq_some_iff.mp hstep
        cases out with
        | none =>
            obtain rfl := hout
            have hdrop := h.drop hphase hrecv
            exact (hdrop.settle (h.begun hphase)
              (hdrop.registered (by change s.phase ≠ _; rw [hphase]; decide))).snoc _
        | some x =>
            dsimp only at hout
            split at hout
            · obtain rfl := hout
              exact (h.told hphase hrecv).snoc _
            · next hlost =>
              obtain rfl := hout
              obtain rfl := Bool.eq_false_iff.mpr hlost
              exact h.lost trivial hregistered
      · contradiction

/-- A run keeps the accounts. -/
theorem inv_run {rings : Tap → Option (Broadcast α)}
    (hrun : run Subscription.step (init rings) events = some s) : Inv events s :=
  run_history (I := Inv) (inv_init rings) (fun _ _ _ _ _ h hstep => h.step hstep) hrun

/-! ## the stream as a whole -/

/-- A lag that was told is a frame. -/
theorem lagged_mem_frames {told : List (Tap × Told α)} {n : Nat}
    (h : .lagged n ∈ toldOn t told) : .lagged n ∈ (told.map frameOf : List (StreamFrame σ α)) := by
  obtain ⟨⟨t', x⟩, hmem, rfl⟩ := List.mem_map.mp h
  have hframe := List.mem_map_of_mem (f := (frameOf : _ → StreamFrame σ α))
    (List.mem_filter.mp hmem).1
  cases t' <;> exact hframe

/-- Where there was no lag, all that a ring carried was told. -/
theorem told_of_prompt {told : List (Tap × Told α)} {sent : List α}
    (hframes : s.frames = [] ∧ told = [] ∨ ∃ view, s.frames = .snapshot view :: told.map frameOf)
    (hprompt : ∀ n, .lagged n ∉ s.frames) (h : Accounts sent (toldOn t told)) :
    (toldOn t told).filterMap Told.value? = sent := by
  refine h.eq_of_prompt fun x hx => ?_
  cases x with
  | value a => rfl
  | lagged n =>
      obtain ⟨-, hnone⟩ | ⟨view, hframes⟩ := hframes
      · rw [hnone] at hx
        exact absurd hx List.not_mem_nil
      · exact absurd (hframes ▸ List.mem_cons_of_mem _ (lagged_mem_frames hx)) (hprompt n)

/-- **The subscriber's ledger.**  Each frame after the snapshot comes from one
ring, and what came from a ring accounts for all that the ring carried since the
registration, which was before the snapshot: told in its order, or counted in a
lag.  A subscriber that never saw a lag has seen everything. -/
theorem every_value_told_or_counted {rings : Tap → Option (Broadcast α)}
    (hrun : run Subscription.step (init rings) events = some s) :
    ∃ told : List (Tap × Told α),
      (s.frames = [] ∧ told = [] ∨ ∃ view, s.frames = .snapshot view :: told.map frameOf) ∧
      (s.frames ≠ [] → ∀ t b, s.taps t ≠ .waiting b) ∧
      (∀ t b start place, s.taps t = .live b start place →
        Accounts (b.between start place) (toldOn t told)) ∧
      (∀ t b start, s.taps t = .dropped b start → Accounts (b.sent.drop start) (toldOn t told)) ∧
      ((∀ n, .lagged n ∉ s.frames) →
        (∀ t b start place, s.taps t = .live b start place →
          (toldOn t told).filterMap Told.value? = b.between start place) ∧
        ∀ t b start, s.taps t = .dropped b start →
          (toldOn t told).filterMap Told.value? = b.sent.drop start) := by
  have hinv := inv_run hrun
  have hlive : ∀ t b start place, s.taps t = .live b start place →
      Accounts (b.between start place) (toldOn t s.told) := fun t b start place htap => by
    have haccounted := hinv.accounted t
    rw [htap] at haccounted
    exact haccounted.accounts
  have hdropped : ∀ t b start, s.taps t = .dropped b start →
      Accounts (b.sent.drop start) (toldOn t s.told) := fun t b start htap => by
    have haccounted := hinv.accounted t
    rw [htap] at haccounted
    exact haccounted.2
  refine ⟨s.told, hinv.frames, fun hframes t b htap => ?_, hlive, hdropped, fun hprompt =>
    ⟨fun t b start place htap => ?_, fun t b start htap => ?_⟩⟩
  · have hwaits := hinv.greeted hframes t
    rw [htap] at hwaits
    contradiction
  · exact told_of_prompt hinv.frames hprompt (hlive t b start place htap)
  · exact told_of_prompt hinv.frames hprompt (hdropped t b start htap)

/-- A daemon with one ring, which holds one value. -/
def onlyAudit : Tap → Option (Broadcast Nat)
  | .audit => some ⟨1, [], false⟩
  | _ => none

/-- The subscriber is too slow for two records. -/
def slow : List (StreamEvent Unit Nat) :=
  [.register .audit, .send .audit 7, .send .audit 8, .snapshot () true, .turn .audit true,
    .turn .audit true]

theorem every_value_told_or_counted_example :
    ∃ s : Subscription Unit Nat, run Subscription.step (init onlyAudit) slow = some s ∧
      s.frames = [.snapshot (), .lagged 1, .event 8] ∧
      ∃ told : List (Tap × Told Nat), Accounts [7, 8] (toldOn .audit told) := by
  have hrun : run Subscription.step (init onlyAudit) slow = some _ := rfl
  obtain ⟨told, -, -, haccounts, -⟩ := every_value_told_or_counted hrun
  exact ⟨_, hrun, rfl, told, haccounts .audit ⟨1, [7, 8], false⟩ 0 2 rfl⟩

/-- **No ring stops another.**  While the client is there, the stream ends only
when each ring has been told to its end; until then a ring with something unread
is a frame away from being told, whatever became of the others. -/
theorem rings_stand_alone {rings : Tap → Option (Broadcast α)}
    (hrun : run Subscription.step (init rings) events = some s)
    (hheard : ∀ e ∈ events, ¬ e.Lost) :
    (s.phase = .ended → ∀ t, s.taps t = .absent ∨ ∃ b start, s.taps t = .dropped b start ∧
      b.closed = true ∧ Accounts (b.sent.drop start) (toldOn t s.told)) ∧
    (∀ t b start place, s.taps t = .live b start place → place < b.sent.length →
      s.phase = .registering ∨ ∃ s' frame, s.step (.turn t true) = some s' ∧
        s'.frames = s.frames ++ [frame]) := by
  have hinv := inv_run hrun
  have hnobody : s.phase = .ended → ∀ t, (s.taps t).isLive = false := fun hover => by
    obtain ⟨e, he, hlost⟩ | hnone := hinv.done hover
    · exact absurd hlost (hheard e he)
    · exact hnone
  constructor
  · intro hover t
    have haccounted := hinv.accounted t
    have hwaits := hinv.registered (by rw [hover]; decide) t
    have hlive := hnobody hover t
    cases htap : s.taps t with
    | absent => exact .inl rfl
    | waiting b =>
        rw [htap] at hwaits
        contradiction
    | live b start place =>
        rw [htap] at hlive
        contradiction
    | dropped b start =>
        rw [htap] at haccounted
        exact .inr ⟨b, start, rfl, haccounted⟩
  · intro t b start place htap hunread
    cases hphase : s.phase with
    | registering => exact .inl rfl
    | ended =>
        have hlive := hnobody hphase t
        rw [htap] at hlive
        contradiction
    | streaming =>
        obtain ⟨x, place', hrecv⟩ : ∃ x place', b.recv place = (.told x, place') := by
          rw [Broadcast.recv]
          split
          · exact ⟨_, _, rfl⟩
          · rw [List.getElem?_eq_getElem hunread]
            exact ⟨_, _, rfl⟩
        refine .inr ⟨{ s.setTap t (.live b start place') with
          frames := s.frames ++ [frameOf (t, x)]
          told := s.told ++ [(t, x)] }, frameOf (t, x), ?_, rfl⟩
        unfold Subscription.step
        simp only [hphase, htap, TapState.recv, hrecv, Option.map_some, if_true]

theorem rings_stand_alone_example :
    ∃ s : Subscription Unit Nat,
      run Subscription.step (init onlyAudit) (slow ++ [.close .audit, .turn .audit true]) = some s ∧
      s.phase = .ended ∧ ∃ b start, s.taps .audit = .dropped b start ∧
        Accounts (b.sent.drop start) (toldOn .audit s.told) := by
  have hrun : run Subscription.step (init onlyAudit) (slow ++ [.close .audit, .turn .audit true]) =
    some _ := rfl
  have hheard : ∀ e ∈ slow ++ [.close .audit, .turn .audit true], ¬ e.Lost := by
    simp [slow, StreamEvent.Lost]
  refine ⟨_, hrun, rfl, ?_⟩
  obtain habsent | ⟨b, start, hdropped, -, haccounts⟩ :=
    (rings_stand_alone hrun hheard).1 rfl .audit
  · contradiction
  · exact ⟨b, start, hdropped, haccounts⟩

end Subscription

end Mcpmesh
