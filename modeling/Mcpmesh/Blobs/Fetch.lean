import Mcpmesh.Blobs.Progress
import Mcpmesh.Dial.Candidates
import Mcpmesh.Lib.Run

/-!
# Mcpmesh.Blobs.Fetch

The hedged fetch of a blob (`node/src/blobs/provider.rs`): `HedgePlan`,
`race_a_connection`, `transfer_from` and the loop of `fetch_from_sources` that
joins them, for a provider that has subscribers.

A fetch is a machine that waits for a dial or the hedge timer while it races,
and for the stream or its timeout while it transfers; the answers come in any
order.  `HedgePlan` counts the dials and the flight holds them: `FetchInv` keeps
the two together with what became of every source (`fetch_exhausts_sources`).
-/

namespace Mcpmesh

open Lib Dial

/-! ## the schedule -/

def maxInFlightDials : Nat := 3

structure HedgePlan where
  total : Nat
  next : Nat
  inFlight : Nat
  deriving DecidableEq

namespace HedgePlan

def new (total : Nat) : HedgePlan := { total, next := 0, inFlight := 0 }

def mayStart (p : HedgePlan) : Bool := p.next < p.total && p.inFlight < maxInFlightDials

/-- `HedgePlan::start`: the source it starts, if it may. -/
def start (p : HedgePlan) : Option (Nat × HedgePlan) :=
  if p.mayStart then some (p.next, { p with next := p.next + 1, inFlight := p.inFlight + 1 })
  else none

def finished (p : HedgePlan) : HedgePlan := { p with inFlight := p.inFlight - 1 }

def exhausted (p : HedgePlan) : Bool := p.total ≤ p.next && p.inFlight == 0

end HedgePlan

/-! ## the sources -/

/-- `BlobTicket`. -/
structure BlobTicket where
  addr : EndpointAddr
  hash : String

/-- The addresses whose endpoint is not among the seen, each endpoint once. -/
def unseen (seen : List EndpointId) : List EndpointAddr → List EndpointAddr
  | [] => []
  | a :: as => if a.id ∈ seen then unseen seen as else a :: unseen (a.id :: seen) as

/-- `AppBlobs::sources`: the publisher first, then the alternates. -/
def BlobTicket.sources (ticket : BlobTicket) (alternates : List EndpointAddr)
    (withPublisher : Bool) : List EndpointAddr :=
  (if withPublisher then [dialableOnly ticket.addr] else []) ++
    unseen [ticket.addr.id] alternates

/-- The alternates are each taken once, and none that was seen. -/
theorem unseen_spec {seen : List EndpointId} {alternates : List EndpointAddr} :
    ((unseen seen alternates).map (·.id)).Nodup ∧
      ∀ a ∈ unseen seen alternates, a.id ∉ seen := by
  induction alternates generalizing seen with
  | nil => exact ⟨List.nodup_nil, nofun⟩
  | cons a as ih =>
      rw [unseen]
      split
      · exact ih
      · next hnew =>
        obtain ⟨hnodup, hunseen⟩ := @ih (a.id :: seen)
        refine ⟨List.nodup_cons.mpr ⟨?_, hnodup⟩, ?_⟩
        · rintro hmem
          obtain ⟨b, hb, hid⟩ := List.mem_map.mp hmem
          exact hunseen b hb (hid ▸ List.mem_cons_self)
        · rintro b (_ | ⟨_, hb⟩)
          · exact hnew
          · exact fun h => hunseen b hb (List.mem_cons_of_mem _ h)

/-- The sources of a ticket have distinct ids. -/
theorem BlobTicket.nodup_sources (ticket : BlobTicket) (alternates : List EndpointAddr)
    (withPublisher : Bool) :
    ((ticket.sources alternates withPublisher).map (·.id)).Nodup := by
  obtain ⟨hnodup, hunseen⟩ := @unseen_spec [ticket.addr.id] alternates
  rw [sources]
  cases withPublisher with
  | false => exact hnodup
  | true =>
      refine List.nodup_cons.mpr ⟨?_, hnodup⟩
      rintro hmem
      obtain ⟨b, hb, hid⟩ := List.mem_map.mp hmem
      have hpublisher : b.id = ticket.addr.id := hid.trans (dialableOnly_id _)
      exact hunseen b hb (hpublisher ▸ List.mem_cons_self)

/-! ## the fetch -/

inductive FetchPhase where
  | racing
  /-- The transfer over the connection to a source, and its outcome so far. -/
  | transferring (source : Nat) (outcome : Except Anyhow Unit)
  | returned (result : Except Anyhow String)

/-- What a fetch did, in order. -/
inductive FetchAct where
  | dialled (source : Nat)
  | connected (source : Nat)
  | dialFailed (source : Nat)
  | transferred (source : Nat)
  | transferFailed (source : Nat)
  deriving DecidableEq

structure BlobFetch where
  hash : String
  plan : HedgePlan
  flight : List Nat
  last : Option Anyhow
  st : TransferProgressState
  phase : FetchPhase
  frames : List BlobTransfer
  acts : List FetchAct

/-- How a dial ends: the timeout is `DIAL_TIMEOUT`. -/
inductive DialEnd where
  | connected
  | timedOut
  | refused (e : Anyhow)

inductive FetchEvent where
  /-- A dial in flight ends. -/
  | dialDone (source : Nat) (ending : DialEnd)
  /-- `HEDGE_DELAY` passes without one. -/
  | hedge
  /-- An item of the stream. -/
  | progress (done : Nat)
  | done
  | error (e : String)
  | streamEnd
  /-- `SOURCE_TRANSFER_TIMEOUT` passes before the stream ends. -/
  | stalled

namespace BlobFetch

/-- Start the next source, if the plan allows it. -/
def startNext (f : BlobFetch) : BlobFetch :=
  match f.plan.start with
  | none => f
  | some (i, plan) =>
      { f with plan, flight := f.flight ++ [i], acts := f.acts ++ [.dialled i] }

/-- Every source has been tried: the one `Aborted` frame, and the last error. -/
def giveUp (f : BlobFetch) : BlobFetch :=
  { f with
    frames := f.frames ++ [emitFetch f.st .aborted]
    phase := .returned <| .error <|
      ("fetch app blob (tried " ++ toString f.plan.total ++ " source" ++
        (if f.plan.total = 1 then "" else "s") ++ ")") ::
        f.last.getD ["no source to try"] }

/-- The head of the racer's loop: give up when all is exhausted, or where the
`select!` has no branch to wait for. -/
def awaitDial (f : BlobFetch) : BlobFetch :=
  if f.plan.exhausted && f.flight.isEmpty then f.giveUp
  else if f.flight.isEmpty && !f.plan.mayStart then f.giveUp
  else { f with phase := .racing }

/-- `race_a_connection` up to its first wait. -/
def race (f : BlobFetch) : BlobFetch :=
  if f.flight.isEmpty then f.startNext.awaitDial else f.awaitDial

/-- `fetch_from_sources` up to its first wait. -/
def begin (hash : String) (sources : List EndpointAddr) : BlobFetch :=
  let st := TransferProgressState.start hash none none
  race {
    hash
    plan := .new sources.length
    flight := []
    last := none
    st
    phase := .racing
    frames := [emitFetch st .started]
    acts := [] }

def dialFailed (f : BlobFetch) (i : Nat) (e : Anyhow) : BlobFetch :=
  startNext { f with last := some e, acts := f.acts ++ [.dialFailed i] } |>.awaitDial

/-- What the racer does when a dial ends: a connection is transferred over, a
failure refills its slot. -/
def dialDone (f : BlobFetch) (i : Nat) (ending : DialEnd) : BlobFetch :=
  let f := { f with plan := f.plan.finished, flight := f.flight.erase i }
  match ending with
  | .connected =>
      { f with
        phase := .transferring i (.error ["fetch stream closed without a result"])
        acts := f.acts ++ [.connected i] }
  | .timedOut => f.dialFailed i ["dial timed out"]
  | .refused e => f.dialFailed i ("dial app-blob provider" :: e)

/-- What the loop does when the transfer from `i` is over: a failure resumes the
race. -/
def settle (f : BlobFetch) (i : Nat) : Except Anyhow Unit → BlobFetch
  | .ok () =>
      { f with
        frames := f.frames ++ [emitFetch f.st .completed]
        phase := .returned (.ok f.hash)
        acts := f.acts ++ [.transferred i] }
  | .error e => race { f with last := some e, acts := f.acts ++ [.transferFailed i] }

/-- A `Progress` item of the stream. -/
def report (f : BlobFetch) (done : Nat) : BlobFetch :=
  let (st, worth) := f.st.report done
  { f with st, frames := f.frames ++ if worth then [emitFetch st .progress] else [] }

def step (f : BlobFetch) (e : FetchEvent) : Option BlobFetch :=
  match f.phase, e with
  | .racing, .dialDone i ending => if i ∈ f.flight then some (f.dialDone i ending) else none
  | .racing, .hedge => if f.plan.mayStart then some f.startNext.awaitDial else none
  | .transferring _ _, .progress done => some (f.report done)
  | .transferring i _, .done => some { f with phase := .transferring i (.ok ()) }
  | .transferring i _, .error e => some { f with phase := .transferring i (.error [e]) }
  | .transferring i outcome, .streamEnd => some (f.settle i outcome)
  | .transferring i _, .stalled => some (f.settle i (.error ["transfer stalled"]))
  | _, _ => none

/-- The steps, one constructor for each place a fetch waits at and what it waits
for. -/
inductive Moves (f : BlobFetch) : FetchEvent → BlobFetch → Prop where
  | dialDone {i ending} (hphase : f.phase = .racing) (hi : i ∈ f.flight) :
      Moves f (.dialDone i ending) (f.dialDone i ending)
  | hedge (hphase : f.phase = .racing) (hstart : f.plan.mayStart) :
      Moves f .hedge f.startNext.awaitDial
  | progress {i outcome done} (hphase : f.phase = .transferring i outcome) :
      Moves f (.progress done) (f.report done)
  | done {i outcome} (hphase : f.phase = .transferring i outcome) :
      Moves f .done { f with phase := .transferring i (.ok ()) }
  | error {i outcome e} (hphase : f.phase = .transferring i outcome) :
      Moves f (.error e) { f with phase := .transferring i (.error [e]) }
  | streamEnd {i outcome} (hphase : f.phase = .transferring i outcome) :
      Moves f .streamEnd (f.settle i outcome)
  | stalled {i outcome} (hphase : f.phase = .transferring i outcome) :
      Moves f .stalled (f.settle i (.error ["transfer stalled"]))

/-- A step of a fetch is one of its moves. -/
theorem moves_of_step {f f' : BlobFetch} {e : FetchEvent} (h : f.step e = some f') :
    f.Moves e f' := by
  unfold step at h
  split at h
  · next hphase =>
    split at h
    · next hi => exact Option.some.inj h ▸ .dialDone hphase hi
    · contradiction
  · next hphase =>
    split at h
    · next hstart => exact Option.some.inj h ▸ .hedge hphase hstart
    · contradiction
  · next hphase => exact Option.some.inj h ▸ .progress hphase
  · next hphase => exact Option.some.inj h ▸ .done hphase
  · next hphase => exact Option.some.inj h ▸ .error hphase
  · next hphase => exact Option.some.inj h ▸ .streamEnd hphase
  · next hphase => exact Option.some.inj h ▸ .stalled hphase
  · contradiction

end BlobFetch

/-! ## the account of the sources -/

namespace FetchAct

/-- The source a dial was started to. -/
def dialled? : FetchAct → Option Nat
  | .dialled i => some i
  | _ => none

def begins : FetchAct → Bool
  | .connected _ => true
  | _ => false

def ends : FetchAct → Bool
  | .transferred _ | .transferFailed _ => true
  | _ => false

end FetchAct

/-- Of these acts no transfer began while another ran. -/
def OneAtATime (acts : List FetchAct) : Prop :=
  ∀ done, done <+: acts → done.countP FetchAct.begins ≤ done.countP FetchAct.ends + 1

/-- The plan, the flight and the dials of the acts agree. -/
structure FetchCounts (total : Nat) (f : BlobFetch) : Prop where
  total_eq : f.plan.total = total
  next_le : f.plan.next ≤ total
  inFlight_eq : f.plan.inFlight = f.flight.length
  cap : f.flight.length ≤ maxInFlightDials
  dialled : f.acts.filterMap FetchAct.dialled? = List.range f.plan.next
  oneAtATime : OneAtATime f.acts

/-- Every source that was started is in flight, has failed, or is the one being
transferred from. -/
structure Accounted (busy : Option Nat) (f : BlobFetch) : Prop where
  source : ∀ i < f.plan.next, i ∈ f.flight ∨ .dialFailed i ∈ f.acts ∨ .transferFailed i ∈ f.acts ∨
    busy = some i
  transfers : f.acts.countP FetchAct.begins = f.acts.countP FetchAct.ends + busy.toList.length

/-- What holds at every wait of a fetch, and when it has returned. -/
structure FetchInv (total : Nat) (f : BlobFetch) : Prop where
  counts : FetchCounts total f
  racing : f.phase = .racing → Accounted none f ∧ f.flight ≠ []
  transferring : ∀ i outcome, f.phase = .transferring i outcome → Accounted (some i) f
  failed : ∀ e, f.phase = .returned (.error e) →
    Accounted none f ∧ f.plan.next = total ∧ f.flight = []

/-- A stream begins when no other one is under way. -/
theorem OneAtATime.snoc {acts : List FetchAct} {a : FetchAct} (h : OneAtATime acts)
    (ha : a.begins → acts.countP FetchAct.begins ≤ acts.countP FetchAct.ends) :
    OneAtATime (acts ++ [a]) := by
  intro done hdone
  obtain hdone | rfl := List.prefix_concat_iff.mp hdone |>.symm
  · exact h done hdone
  · have hall := h acts (List.prefix_refl acts)
    rw [List.countP_append, List.countP_append, List.countP_singleton, List.countP_singleton]
    cases hb : a.begins with
    | true =>
        have hle := ha hb
        simp only [if_true]
        omega
    | false =>
        simp only [Bool.false_eq_true, if_false]
        omega

/-! ## what the parts of a step do -/

namespace BlobFetch

/-- The next dial starts, or there is none to start. -/
theorem startNext_cases (f : BlobFetch) :
    f.plan.mayStart = false ∧ f.startNext = f ∨
      f.plan.next < f.plan.total ∧ f.plan.inFlight < maxInFlightDials ∧
        f.startNext = { f with
          plan := { f.plan with next := f.plan.next + 1, inFlight := f.plan.inFlight + 1 }
          flight := f.flight ++ [f.plan.next]
          acts := f.acts ++ [.dialled f.plan.next] } := by
  cases hstart : f.plan.mayStart with
  | false => exact .inl ⟨rfl, by simp [startNext, HedgePlan.start, hstart]⟩
  | true =>
      obtain ⟨hnext, hroom⟩ : f.plan.next < f.plan.total ∧ f.plan.inFlight < maxInFlightDials := by
        simpa [HedgePlan.mayStart] using hstart
      exact .inr ⟨hnext, hroom, by simp [startNext, HedgePlan.start, hstart]⟩

/-- Nothing is waited for only where nothing can be started. -/
theorem startNext_waits (f : BlobFetch) (h : f.startNext.flight = []) :
    f.startNext.plan.mayStart = false := by
  obtain ⟨hstart, hf⟩ | ⟨_, _, hf⟩ := f.startNext_cases
  · rw [hf]
    exact hstart
  · rw [hf] at h
    exact absurd h (List.append_ne_nil_of_right_ne_nil _ (List.cons_ne_nil _ _))

/-- A fetch waits for a dial, or fails since there is none. -/
theorem awaitDial_cases {f : BlobFetch} (h : f.flight = [] → f.plan.mayStart = false) :
    f.flight ≠ [] ∧ f.awaitDial = { f with phase := .racing } ∨
      f.flight = [] ∧ f.plan.mayStart = false ∧ f.awaitDial = f.giveUp := by
  cases hflight : f.flight with
  | nil =>
      refine .inr ⟨rfl, h hflight, ?_⟩
      rw [awaitDial, hflight, h hflight]
      simp
  | cons i is =>
      refine .inl ⟨List.cons_ne_nil _ _, ?_⟩
      rw [awaitDial, hflight]
      simp

end BlobFetch

section Parts

variable {n : Nat} {busy : Option Nat} {f : BlobFetch}

/-- A start counts one source as dialled. -/
theorem FetchCounts.startNext (h : FetchCounts n f) : FetchCounts n f.startNext := by
  obtain ⟨_, hf⟩ | ⟨hnext, hroom, hf⟩ := f.startNext_cases
  · exact hf.symm ▸ h
  · rw [hf]
    constructor
    · exact h.total_eq
    · exact h.total_eq ▸ hnext
    · simp [h.inFlight_eq]
    · have hflight := h.inFlight_eq
      simp only [List.length_append, List.length_singleton]
      omega
    · rw [List.filterMap_append, h.dialled, List.range_succ]
      rfl
    · exact h.oneAtATime.snoc nofun

/-- One act more leaves every source where it is. -/
theorem Accounted.acted (h : Accounted busy f) (a : FetchAct) {i : Nat} (hi : i < f.plan.next) :
    i ∈ f.flight ∨ .dialFailed i ∈ f.acts ++ [a] ∨ .transferFailed i ∈ f.acts ++ [a] ∨
      busy = some i :=
  (h.source i hi).imp_right
    (Or.imp (List.mem_append_left [a]) (Or.imp_left (List.mem_append_left [a])))

/-- A start accounts for its source. -/
theorem Accounted.startNext (h : Accounted busy f) : Accounted busy f.startNext := by
  obtain ⟨_, hf⟩ | ⟨_, _, hf⟩ := f.startNext_cases
  · exact hf.symm ▸ h
  · rw [hf]
    constructor
    · intro i hi
      obtain hi | rfl := Nat.lt_succ_iff_lt_or_eq.mp hi
      · exact (h.acted _ hi).imp_left (List.mem_append_left _)
      · exact .inl (List.mem_append_right _ List.mem_cons_self)
    · simpa [List.countP_append, FetchAct.begins, FetchAct.ends] using h.transfers

/-- The racer waits for a dial or has tried every source. -/
theorem FetchCounts.awaitDial (h : FetchCounts n f) (hsources : Accounted none f)
    (hwaits : f.flight = [] → f.plan.mayStart = false) : FetchInv n f.awaitDial := by
  obtain ⟨hflight, hf⟩ | ⟨hflight, hstart, hf⟩ := BlobFetch.awaitDial_cases hwaits
  · rw [hf]
    exact ⟨⟨h.total_eq, h.next_le, h.inFlight_eq, h.cap, h.dialled, h.oneAtATime⟩,
      fun _ => ⟨⟨hsources.source, hsources.transfers⟩, hflight⟩, nofun, nofun⟩
  · rw [hf]
    have hnext : f.plan.next = n := by
      have hzero : f.plan.inFlight = 0 := by rw [h.inFlight_eq, hflight, List.length_nil]
      have hall : ¬f.plan.next < f.plan.total := by
        intro hlt
        simp [HedgePlan.mayStart, hlt, hzero, maxInFlightDials] at hstart
      have hle := h.next_le
      rw [h.total_eq] at hall
      omega
    exact ⟨⟨h.total_eq, h.next_le, h.inFlight_eq, h.cap, h.dialled, h.oneAtATime⟩, nofun, nofun,
      fun _ _ => ⟨⟨hsources.source, hsources.transfers⟩, hnext, hflight⟩⟩

/-- After a start the fetch waits, or fails. -/
theorem FetchCounts.startAndAwait (h : FetchCounts n f) (hsources : Accounted none f) :
    FetchInv n f.startNext.awaitDial :=
  h.startNext.awaitDial hsources.startNext f.startNext_waits

/-- A race that is through leaves the fetch waiting. -/
theorem FetchCounts.race (h : FetchCounts n f) (hsources : Accounted none f) :
    FetchInv n f.race := by
  rw [BlobFetch.race]
  split
  · exact h.startAndAwait hsources
  · next hflight =>
    exact h.awaitDial hsources fun hnil => absurd (List.isEmpty_iff.mpr hnil) hflight

/-- A dial that ended leaves the flight and its place in the plan. -/
theorem FetchCounts.landed (h : FetchCounts n f) {i : Nat} (hi : i ∈ f.flight) :
    FetchCounts n { f with plan := f.plan.finished, flight := f.flight.erase i } where
  total_eq := h.total_eq
  next_le := h.next_le
  inFlight_eq := by
    rw [List.length_erase_of_mem hi, HedgePlan.finished, h.inFlight_eq]
  cap := (List.length_erase_le ..).trans h.cap
  dialled := h.dialled
  oneAtATime := h.oneAtATime

/-- What is appended to the acts and is no dial keeps the counts. -/
theorem FetchCounts.act (h : FetchCounts n f) {a : FetchAct} {last : Option Anyhow}
    {phase : FetchPhase} {frames : List BlobTransfer} (hdial : a.dialled? = none)
    (ha : a.begins → f.acts.countP FetchAct.begins ≤ f.acts.countP FetchAct.ends) :
    FetchCounts n { f with last, phase, frames, acts := f.acts ++ [a] } where
  total_eq := h.total_eq
  next_le := h.next_le
  inFlight_eq := h.inFlight_eq
  cap := h.cap
  dialled := by rw [List.filterMap_append, List.filterMap_cons_none hdial, List.filterMap_nil,
    List.append_nil, h.dialled]
  oneAtATime := h.oneAtATime.snoc ha

/-- A dial that failed makes place for the next. -/
theorem FetchCounts.dialFailed (h : FetchCounts n f) (hsources : Accounted none f) {i : Nat}
    (hi : i ∈ f.flight) (e : Anyhow) :
    FetchInv n (BlobFetch.dialFailed
      { f with plan := f.plan.finished, flight := f.flight.erase i } i e) := by
  refine ((h.landed hi).act (a := .dialFailed i) rfl nofun).startAndAwait ⟨fun j hj => ?_, ?_⟩
  · by_cases hji : j = i
    · exact .inr (.inl (hji ▸ List.mem_append_right _ List.mem_cons_self))
    · exact (hsources.acted _ hj).imp_left (List.mem_erase_of_ne hji).mpr
  · simpa [List.countP_append, FetchAct.begins, FetchAct.ends] using hsources.transfers

/-- A source that is connected becomes the one that streams. -/
theorem FetchCounts.connected (h : FetchCounts n f) (hsources : Accounted none f) {i : Nat}
    (hi : i ∈ f.flight) : FetchInv n (f.dialDone i .connected) := by
  have htransfers := hsources.transfers
  refine ⟨(h.landed hi).act rfl fun _ => htransfers.le, nofun, ?_, nofun⟩
  rintro _ _ ⟨⟩
  refine ⟨fun j hj => ?_, ?_⟩
  · by_cases hji : j = i
    · exact .inr (.inr (.inr (congrArg some hji.symm)))
    · exact (hsources.acted _ hj).imp (List.mem_erase_of_ne hji).mpr
        (Or.imp_right (Or.imp_right nofun))
  · simpa [BlobFetch.dialDone, List.countP_append, FetchAct.begins, FetchAct.ends] using htransfers

/-- A source that is through ends the fetch, or makes place for the next. -/
theorem FetchCounts.settle (h : FetchCounts n f) {i : Nat} (hsources : Accounted (some i) f)
    (outcome : Except Anyhow Unit) : FetchInv n (f.settle i outcome) := by
  cases outcome with
  | ok _ => exact ⟨h.act rfl nofun, nofun, nofun, nofun⟩
  | error e =>
      refine (h.act (a := .transferFailed i) rfl nofun).race ⟨fun j hj => ?_, ?_⟩
      · obtain h | h | h | h := hsources.acted (.transferFailed i) hj
        · exact .inl h
        · exact .inr (.inl h)
        · exact .inr (.inr (.inl h))
        · refine .inr (.inr (.inl (List.mem_append_right _ ?_)))
          exact Option.some.inj h ▸ List.mem_cons_self
      · have htransfers := hsources.transfers
        simpa [List.countP_append, FetchAct.begins, FetchAct.ends] using htransfers

end Parts

/-- An item of the stream changes what the transfer will have come to. -/
theorem FetchInv.outcome {n : Nat} {f : BlobFetch} {i : Nat} {outcome : Except Anyhow Unit}
    {outcome' : Except Anyhow Unit} (h : FetchInv n f)
    (hphase : f.phase = .transferring i outcome) :
    FetchInv n { f with phase := .transferring i outcome' } := by
  have hsources := h.transferring i outcome hphase
  have hcounts := h.counts
  refine ⟨⟨hcounts.total_eq, hcounts.next_le, hcounts.inFlight_eq, hcounts.cap,
    hcounts.dialled, hcounts.oneAtATime⟩, nofun, ?_, nofun⟩
  rintro _ _ ⟨⟩
  exact ⟨hsources.source, hsources.transfers⟩

/-- **One step** of a fetch. -/
theorem FetchInv.step {n : Nat} {f f' : BlobFetch} {e : FetchEvent} (h : FetchInv n f)
    (hstep : f.step e = some f') : FetchInv n f' := by
  cases BlobFetch.moves_of_step hstep with
  | @dialDone i ending hphase hi =>
      obtain ⟨hsources, -⟩ := h.racing hphase
      cases ending with
      | connected => exact h.counts.connected hsources hi
      | timedOut => exact h.counts.dialFailed hsources hi _
      | refused e => exact h.counts.dialFailed hsources hi _
  | hedge hphase hstart => exact h.counts.startAndAwait (h.racing hphase).1
  | @progress i outcome done hphase =>
      have hsources := h.transferring i outcome hphase
      have hcounts := h.counts
      refine ⟨⟨hcounts.total_eq, hcounts.next_le, hcounts.inFlight_eq, hcounts.cap,
        hcounts.dialled, hcounts.oneAtATime⟩, ?_, ?_, ?_⟩
      · exact fun hracing => absurd (hphase.symm.trans hracing) nofun
      · intro j outcome' hphase'
        exact ⟨(h.transferring j outcome' hphase').source,
          (h.transferring j outcome' hphase').transfers⟩
      · exact fun e he => absurd (hphase.symm.trans he) nofun
  | @done i outcome hphase => exact h.outcome hphase
  | @error i outcome e hphase => exact h.outcome hphase
  | @streamEnd i outcome hphase => exact h.counts.settle (h.transferring i outcome hphase) _
  | @stalled i outcome hphase => exact h.counts.settle (h.transferring i outcome hphase) _

/-- Nothing was dialled yet. -/
theorem fetchInv_begin (hash : String) (sources : List EndpointAddr) :
    FetchInv sources.length (.begin hash sources) := by
  refine FetchCounts.race ⟨rfl, Nat.zero_le _, rfl, Nat.zero_le _, rfl, ?_⟩ ⟨nofun, rfl⟩
  intro done hdone
  rw [List.prefix_nil.mp hdone]
  decide

/-! ## termination -/

/-- The ends of dials and transfers, and the hedge: what is not an item of a
stream. -/
def FetchEvent.decisive : FetchEvent → Bool
  | .dialDone .. | .hedge | .streamEnd | .stalled => true
  | .progress _ | .done | .error _ => false

namespace BlobFetch

/-- The decisive events the dials to start and in flight still allow. -/
def load (f : BlobFetch) : Nat := 3 * (f.plan.total - f.plan.next) + 2 * f.flight.length

def weight (f : BlobFetch) : Nat :=
  f.load + match f.phase with
    | .transferring _ _ => 1
    | _ => 0

/-- A start takes from the load. -/
theorem load_startNext (f : BlobFetch) :
    f.startNext.load + (if f.plan.mayStart then 1 else 0) ≤ f.load := by
  obtain ⟨hstart, hf⟩ | ⟨hnext, hroom, hf⟩ := f.startNext_cases
  · rw [hf, hstart]
    exact Nat.le_refl _
  · rw [hf]
    simp only [load, List.length_append, List.length_singleton]
    split <;> omega

theorem weight_awaitDial (f : BlobFetch) : f.awaitDial.weight = f.load := by
  rw [awaitDial]
  split
  · rfl
  · split <;> rfl

/-- Going on to the next source takes no more than the load. -/
theorem weight_startAndAwait (f : BlobFetch) : f.startNext.awaitDial.weight ≤ f.load := by
  have h := f.load_startNext
  rw [weight_awaitDial]
  omega

theorem weight_race (f : BlobFetch) : f.race.weight ≤ f.load := by
  rw [race]
  split
  · exact f.weight_startAndAwait
  · exact f.weight_awaitDial.le

theorem weight_dialFailed {f : BlobFetch} (i : Nat) (e : Anyhow) :
    (f.dialFailed i e).weight ≤ f.load := weight_startAndAwait _

/-- A connection is worth one end of a transfer, a failure none. -/
theorem weight_dialDone {f : BlobFetch} {i : Nat} (hi : i ∈ f.flight) (ending : DialEnd) :
    (f.dialDone i ending).weight + 1 ≤ f.load := by
  have hlen := List.length_erase_of_mem hi
  have hpos := List.length_pos_of_mem hi
  have hfailed : ∀ e, (BlobFetch.dialFailed
      { f with plan := f.plan.finished, flight := f.flight.erase i } i e).weight ≤
        3 * (f.plan.total - f.plan.next) + 2 * (f.flight.erase i).length :=
    fun e => weight_dialFailed i e
  rw [load]
  cases ending with
  | connected =>
      show 3 * (f.plan.total - f.plan.next) + 2 * (f.flight.erase i).length + 1 + 1 ≤ _
      omega
  | timedOut =>
      have hle := hfailed ["dial timed out"]
      rw [dialDone]
      omega
  | refused e =>
      have hle := hfailed ("dial app-blob provider" :: e)
      rw [dialDone]
      omega

/-- A source that is through takes from the load. -/
theorem weight_settle {f : BlobFetch} {i : Nat} (outcome : Except Anyhow Unit) :
    (f.settle i outcome).weight ≤ f.load := by
  cases outcome with
  | ok _ => exact Nat.le_refl _
  | error e => exact weight_race _

/-- **The measure**: every decisive event uses up some of the weight. -/
theorem weight_step {f f' : BlobFetch} {e : FetchEvent} (hstep : f.step e = some f') :
    f'.weight + (if e.decisive then 1 else 0) ≤ f.weight := by
  have htransferring : ∀ {i outcome}, f.phase = .transferring i outcome → f.weight = f.load + 1 :=
    fun hphase => by rw [weight, hphase]
  have hracing : f.phase = .racing → f.weight = f.load := fun hphase => by rw [weight, hphase]; rfl
  cases moves_of_step hstep with
  | @dialDone i ending hphase hi =>
      rw [hracing hphase]
      exact weight_dialDone hi ending
  | hedge hphase hstart =>
      have hload := f.load_startNext
      rw [hracing hphase, weight_awaitDial]
      rw [hstart] at hload
      exact hload
  | progress hphase => exact Nat.le_refl _
  | done hphase => exact (htransferring hphase).ge
  | error hphase => exact (htransferring hphase).ge
  | @streamEnd i outcome hphase =>
      rw [htransferring hphase]
      exact Nat.succ_le_succ (weight_settle outcome)
  | stalled hphase =>
      rw [htransferring hphase]
      exact Nat.succ_le_succ (weight_settle _)

/-- What an unreturned fetch waits for: the end of a dial in flight, whichever it
is, or the end of its transfer. -/
inductive Waits (f : BlobFetch) : Prop where
  | dial (hflight : f.flight ≠ [])
      (hdone : ∀ i ∈ f.flight, ∀ ending, (f.step (.dialDone i ending)).isSome)
  | transfer (hend : (f.step .streamEnd).isSome) (hstalled : (f.step .stalled).isSome)

/-- The addresses that were dialled, in order. -/
def dialled (sources : List EndpointAddr) (f : BlobFetch) : List EndpointAddr :=
  (f.acts.filterMap FetchAct.dialled?).filterMap fun i => sources[i]?

end BlobFetch

/-- A fetch that has not returned waits for something that can happen. -/
theorem FetchInv.waits {n : Nat} {f : BlobFetch} (h : FetchInv n f)
    (hphase : ∀ result, f.phase ≠ .returned result) : f.Waits := by
  cases hwait : f.phase with
  | racing =>
      refine .dial (h.racing hwait).2 fun i hi ending => ?_
      simp [BlobFetch.step, hwait, hi]
  | transferring i outcome =>
      exact .transfer (by simp [BlobFetch.step, hwait]) (by simp [BlobFetch.step, hwait])
  | returned result => exact absurd hwait (hphase result)

theorem filterMap_range_getElem? {α : Type} (l : List α) (k : Nat) :
    (List.range k).filterMap (fun i => l[i]?) = l.take k := by
  induction k with
  | zero => rfl
  | succ k ih =>
      rw [List.range_succ, List.filterMap_append, ih, List.take_add_one, List.filterMap_cons]
      cases l[k]? <;> rfl

/-- The counts, in every run. -/
theorem fetchInv_run {hash : String} {sources : List EndpointAddr} {es : List FetchEvent}
    {f : BlobFetch} (hrun : run BlobFetch.step (.begin hash sources) es = some f) :
    FetchInv sources.length f :=
  run_invariant (fun _ _ _ h hstep => h.step hstep) (fetchInv_begin hash sources) hrun

/-- Every source allows one dial, one hedge or refill, and one transfer. -/
theorem decisive_le_run {hash : String} {sources : List EndpointAddr} {es : List FetchEvent}
    {f : BlobFetch} (hrun : run BlobFetch.step (.begin hash sources) es = some f) :
    es.countP FetchEvent.decisive + f.weight ≤ 3 * sources.length := by
  refine run_history (I := fun es f => es.countP FetchEvent.decisive + f.weight ≤
    3 * sources.length) ?_ ?_ hrun
  · show 0 + (BlobFetch.begin hash sources).weight ≤ _
    rw [Nat.zero_add]
    exact BlobFetch.weight_race _
  · intro es f e f' _ hle hstep
    have hweight := BlobFetch.weight_step hstep
    rw [List.countP_append, List.countP_singleton]
    omega

/-- **The hedged fetch**: sources are dialled in their order and once each, no
more than `MAX_IN_FLIGHT_DIALS` at a time, the plan's count is the flight's, one
transfer runs at a time, the fetch ends when its dials and transfers do, and it
fails only when every source has. -/
theorem fetch_exhausts_sources {hash : String} {sources : List EndpointAddr}
    (hdistinct : (sources.map (·.id)).Nodup) {es : List FetchEvent} {f : BlobFetch}
    (hrun : run BlobFetch.step (.begin hash sources) es = some f) :
    f.dialled sources = sources.take f.plan.next ∧
      ((f.dialled sources).map (·.id)).Nodup ∧
      f.flight.length ≤ maxInFlightDials ∧
      f.plan.inFlight = f.flight.length ∧
      OneAtATime f.acts ∧
      es.countP FetchEvent.decisive ≤ 3 * sources.length ∧
      ((∀ result, f.phase ≠ .returned result) → f.Waits) ∧
      ∀ e, f.phase = .returned (.error e) → f.dialled sources = sources ∧
        ∀ i < sources.length, .dialFailed i ∈ f.acts ∨ .transferFailed i ∈ f.acts := by
  have hinv := fetchInv_run hrun
  have hcounts := hinv.counts
  have hdialled : f.dialled sources = sources.take f.plan.next := by
    rw [BlobFetch.dialled, hcounts.dialled, filterMap_range_getElem?]
  have hdecisive := decisive_le_run hrun
  refine ⟨hdialled, ?_, hcounts.cap, hcounts.inFlight_eq, hcounts.oneAtATime, by omega,
    hinv.waits, fun e he => ?_⟩
  · rw [hdialled, List.map_take]
    exact hdistinct.sublist (List.take_sublist ..)
  · obtain ⟨hsources, hnext, hflight⟩ := hinv.failed e he
    refine ⟨by rw [hdialled, hnext, List.take_length], fun i hi => ?_⟩
    obtain h | h | h | h := hsources.source i (hnext ▸ hi)
    · exact absurd (hflight ▸ h) List.not_mem_nil
    · exact .inl h
    · exact .inr h
    · exact absurd h nofun

def twoSources : List EndpointAddr := [.bare (.replicate 32 1), .bare (.replicate 32 2)]

/-- The first source does not answer, the second stalls. -/
def silentThenStalling : List FetchEvent :=
  [.hedge, .dialDone 0 .timedOut, .dialDone 1 .connected, .progress 7, .stalled]

theorem fetch_exhausts_sources_of_two : ∃ f,
    run BlobFetch.step (.begin "h" twoSources) silentThenStalling = some f ∧
      f.phase = .returned (.error ["fetch app blob (tried 2 sources)", "transfer stalled"]) ∧
      ∀ i < 2, .dialFailed i ∈ f.acts ∨ .transferFailed i ∈ f.acts := by
  refine ⟨_, rfl, rfl, ?_⟩
  exact ((@fetch_exhausts_sources "h" twoSources (by decide) silentThenStalling _
    rfl).2.2.2.2.2.2.2 _ rfl).2

end Mcpmesh
