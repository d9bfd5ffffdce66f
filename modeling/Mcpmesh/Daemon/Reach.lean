import Mcpmesh.Gate.Principals
import Mcpmesh.Lib.Run

/-!
# Mcpmesh.Daemon.Reach

The reachability cache (`node/src/daemon/reach.rs`) and its two writers: probes,
and the path watchers of live sessions (`node/src/daemon/path_watch.rs`).

A probe draws a ticket when it starts and another when its outcome is known;
then it merges its row under the cache lock and, when that changed what a
subscriber believes, broadcasts the row after the lock is released.  A watcher
draws its second ticket under the lock.  Every one of these steps interleaves
with those of the others.
-/

namespace Mcpmesh

open Lib

/-! ## rows -/

inductive PeerPath where
  | direct
  | relay (url : Option String)
  | unknown
  deriving DecidableEq

/-- `ReachEntry`: `seq` is the ticket of the start, `observed` that of the
commit. -/
structure ReachEntry where
  reachable : Bool
  rttMs : Option Nat
  probedAt : Int
  metadata : String
  services : List String
  pongAt : Option Int
  seq : Nat
  observed : Nat
  path : PeerPath
  deriving DecidableEq

/-- What a pong carries, with the time it took. -/
structure Pong where
  metadata : String
  services : List String
  rttMs : Nat

/-- The row of a probe that got a pong and classified its path. -/
def ReachEntry.ofPong (pong : Pong) (path : PeerPath) (probedAt : Int) (seq observed : Nat) :
    ReachEntry :=
  { reachable := true, rttMs := some pong.rttMs, probedAt, metadata := pong.metadata
    services := pong.services, pongAt := some probedAt, seq, observed, path }

/-- The row of a probe that got none. -/
def ReachEntry.ofFailure (probedAt : Int) (seq observed : Nat) : ReachEntry :=
  { reachable := false, rttMs := none, probedAt, metadata := "", services := []
    pongAt := none, seq, observed, path := .unknown }

/-- `supersedes`. -/
def supersedes (seq : Nat) (existing : ReachEntry) : Bool := existing.seq ≤ seq

/-- `contradicted_by`. -/
def contradictedBy (ours : ReachEntry) (seq : Nat) (existing : ReachEntry) : Bool :=
  !ours.reachable && existing.reachable && seq < existing.observed

/-- `Outcome`. -/
inductive ProbeOutcome where
  | committed (previous : Option ReachEntry)
  | superseded (newer : ReachEntry)

/-- A pong that comes too late still leaves its payload in a row that has none. -/
def ReachEntry.keepPong (newer entry : ReachEntry) : ReachEntry :=
  if newer.reachable && newer.pongAt.isNone && entry.pongAt.isSome then
    { newer with metadata := entry.metadata, services := entry.services, pongAt := entry.pongAt }
  else newer

/-- The merge of `probe_peer`, with the row it leaves. -/
def commitProbe (row : Option ReachEntry) (entry : ReachEntry) : ReachEntry × ProbeOutcome :=
  match row with
  | none => (entry, .committed none)
  | some existing =>
      if !supersedes entry.seq existing then
        let newer := existing.keepPong entry
        (newer, .superseded newer)
      else if contradictedBy entry entry.seq existing then (existing, .superseded existing)
      else (entry, .committed (some existing))

/-- Two rows say the same of the peer, on the same evidence. -/
structure ReachEntry.SameVerdict (row existing : ReachEntry) : Prop where
  reachable : row.reachable = existing.reachable
  path : row.path = existing.path
  seq : row.seq = existing.seq
  observed : row.observed = existing.observed

/-- Keeping the pong of the old entry does not touch the verdict of the new one. -/
theorem ReachEntry.keepPong_sameVerdict (newer entry : ReachEntry) :
    (newer.keepPong entry).SameVerdict newer := by
  unfold keepPong
  split <;> exact ⟨rfl, rfl, rfl, rfl⟩

/-- What a merge does: the row is written over an older one whose answer came
before the probe started, or it is dropped. -/
inductive Merged (cached : Option ReachEntry) (entry : ReachEntry) :
    ReachEntry × ProbeOutcome → Prop where
  | committed (hcached : ∀ existing, cached = some existing →
        existing.seq ≤ entry.seq ∧
          (entry.reachable = false → existing.reachable = true →
            existing.observed ≤ entry.seq)) :
      Merged cached entry (entry, .committed cached)
  | superseded {existing row : ReachEntry} (hcached : cached = some existing)
      (hsame : row.SameVerdict existing)
      (hwhy : entry.seq < existing.seq ∨ entry.reachable = false) :
      Merged cached entry (row, .superseded row)

/-- A commit merges the entry with the cached one. -/
theorem merged_commitProbe (cached : Option ReachEntry) (entry : ReachEntry) :
    Merged cached entry (commitProbe cached entry) := by
  cases cached with
  | none => exact .committed nofun
  | some existing =>
      simp only [commitProbe]
      split
      · next hlate =>
        have hseq : entry.seq < existing.seq := by simpa [supersedes] using hlate
        exact .superseded rfl (existing.keepPong_sameVerdict entry) (.inl hseq)
      · next hseq =>
        have hseq : existing.seq ≤ entry.seq := by simpa [supersedes] using hseq
        split
        · next hcontra =>
          have hours : entry.reachable = false := by
            simp only [contradictedBy, Bool.and_eq_true, Bool.not_eq_true'] at hcontra
            exact hcontra.1.1
          exact .superseded rfl ⟨rfl, rfl, rfl, rfl⟩ (.inr hours)
        · next hcontra =>
          have hclear : entry.reachable = false → existing.reachable = true →
              existing.observed ≤ entry.seq := by simpa [contradictedBy] using hcontra
          refine .committed fun e he => ?_
          obtain rfl := Option.some.inj he
          exact ⟨hseq, hclear⟩

/-- `decide`: the path to commit, if it is known and new. -/
def decidePath (observed : PeerPath) (cached : Option PeerPath) : Option PeerPath :=
  if observed = .unknown then none
  else if cached = some observed then none
  else some observed

/-- The merge of `commit_observation`, `none` where it stays quiet. -/
def commitObservation (row : Option ReachEntry) (seq committedAt : Nat) (observed : PeerPath)
    (now : Int) : Option ReachEntry :=
  match row with
  | some existing =>
      if !supersedes seq existing then none
      else
        (decidePath observed (some existing.path)).map fun path =>
          { existing with path, seq, observed := committedAt }
  | none =>
      (decidePath observed none).map fun path =>
        { reachable := true, rttMs := none, probedAt := now, metadata := "", services := []
          pongAt := none, seq, observed := committedAt, path }

/-! ## frames -/

/-- `PeerReachability`. -/
structure PeerReachability where
  path : PeerPath
  name : String
  reachable : Bool
  rttMs : Option Nat
  ageSecs : Option Nat
  metadata : String
  principal : Option String
  deriving DecidableEq

/-- `reachability_row`: a peer without an entry is unreachable over no known
path. -/
def reachabilityRow (nickname : String) (endpoint : EndpointId) (entry : Option ReachEntry)
    (ageSecs : Option Nat) : PeerReachability :=
  { path := (entry.map ReachEntry.path).getD .unknown
    name := nickname
    reachable := entry.any ReachEntry.reachable
    rttMs := entry.bind ReachEntry.rttMs
    ageSecs
    metadata := (entry.map ReachEntry.metadata).getD ""
    principal := some (principal endpoint) }

inductive ReachabilitySource where
  | probe
  | session
  deriving DecidableEq

structure ReachTransition where
  peer : PeerReachability
  source : ReachabilitySource
  deriving DecidableEq

/-- `is_transition`. -/
def isTransition (previous : Option ReachEntry) (current : ReachEntry) : Bool :=
  match previous with
  | none => current.reachable
  | some prev => prev.reachable ≠ current.reachable || prev.path ≠ current.path

/-- The store of paired peers, as `reachability_of` lists it. -/
abbrev StoredPeers := List (EndpointId × String)

/-- `stored_row`. -/
def storedRow (stored : StoredPeers) (endpoint : EndpointId) (entry : ReachEntry) :
    Option PeerReachability :=
  (stored.lookup endpoint).map fun nickname =>
    reachabilityRow nickname endpoint (some entry) (some 0)

/-! ## the writers -/

/-- Where a writer is, with its tickets; `arrived` is a ghost: the tickets below
it were drawn before the pong arrived. -/
inductive ReachTask where
  | idle
  | probing (peer : EndpointId) (seq : Nat)
  /-- a pong arrived, its path is being classified -/
  | answered (peer : EndpointId) (seq arrived : Nat) (pong : Pong)
  | elapsed (peer : EndpointId) (seq : Nat)
  /-- the second ticket is drawn, the lock not yet taken -/
  | stamped (peer : EndpointId) (entry : ReachEntry) (arrived : Option Nat)
  | watching (peer : EndpointId) (seq : Nat)

/-- A commit step, for the log: of a pong, with what the row says right
afterwards; of a failed probe, which may be dropped; of a session's path. -/
inductive ReachCommit where
  | pong (peer : EndpointId) (arrived observed : Nat) (up : Bool)
  | failed (peer : EndpointId) (seq : Nat) (written : Bool)
  | session (peer : EndpointId) (committedAt : Nat)

/-- The log entry of a probe's commit step. -/
def ReachCommit.commitOf (peer : EndpointId) (entry row : ReachEntry) (written : Bool) :
    Option Nat → ReachCommit
  | some arrived => .pong peer arrived entry.observed row.reachable
  | none => .failed peer entry.seq written

/-- A subscriber: the frames it received since it registered, and its snapshot
once it has one. -/
structure Subscriber where
  frames : List ReachTransition
  snapshot : Option (List PeerReachability)

/-- The cache with its writers.  `outbox` holds the rows committed and not yet
broadcast, `log` is a ghost. -/
structure Reachability where
  probeSeq : Nat
  cache : EndpointId → Option ReachEntry
  tasks : Nat → ReachTask
  outbox : List ReachTransition
  subscriber : Option Subscriber
  log : List ReachCommit

inductive ReachEvent where
  | probe (task : Nat) (peer : EndpointId)
  | pong (task : Nat) (pong : Pong)
  | fail (task : Nat)
  | stamp (task : Nat) (path : PeerPath) (now : Int)
  | commit (task : Nat)
  | watch (task : Nat) (peer : EndpointId)
  | observe (task : Nat) (path : PeerPath) (now : Int)
  /-- a revoked or throttled peer, a session that is gone: nothing is committed -/
  | leave (task : Nat)
  /-- broadcast one of the rows that wait -/
  | announce (i : Nat)
  | subscribe
  | snapshot (now : Int)

namespace Reachability

def start : Reachability :=
  { probeSeq := 0, cache := fun _ => none, tasks := fun _ => .idle, outbox := []
    subscriber := none, log := [] }

def setTask (s : Reachability) (task : Nat) (phase : ReachTask) : Reachability :=
  { s with tasks := Function.update s.tasks task phase }

/-- What holds of every task holds still when one of them goes on. -/
theorem forall_setTask {Q : ReachTask → Prop} {s : Reachability} {task : Nat} {phase : ReachTask}
    (h : ∀ t, Q (s.tasks t)) (hphase : Q phase) (t : Nat) : Q ((s.setTask task phase).tasks t) := by
  by_cases ht : t = task
  · subst ht
    simpa [setTask] using hphase
  · simpa [setTask, ht] using h t

/-- Draw a ticket. -/
def draw (s : Reachability) : Reachability := { s with probeSeq := s.probeSeq + 1 }

def setRow (s : Reachability) (peer : EndpointId) (row : ReachEntry) : Reachability :=
  { s with cache := Function.update s.cache peer (some row) }

/-- Queue a row for its broadcast, where the store knows the peer. -/
def queue (s : Reachability) (stored : StoredPeers) (peer : EndpointId) (entry : ReachEntry)
    (source : ReachabilitySource) : Reachability :=
  match storedRow stored peer entry with
  | some row => { s with outbox := s.outbox ++ [⟨row, source⟩] }
  | none => s

/-- Queueing an event for the subscriber touches neither the probes nor the cache. -/
@[simp] theorem queue_probeSeq (s : Reachability) (stored : StoredPeers) (peer : EndpointId)
    (entry : ReachEntry) (source : ReachabilitySource) :
    (s.queue stored peer entry source).probeSeq = s.probeSeq := by
  unfold queue
  split <;> rfl

@[simp] theorem queue_cache (s : Reachability) (stored : StoredPeers) (peer : EndpointId)
    (entry : ReachEntry) (source : ReachabilitySource) :
    (s.queue stored peer entry source).cache = s.cache := by
  unfold queue
  split <;> rfl

@[simp] theorem queue_tasks (s : Reachability) (stored : StoredPeers) (peer : EndpointId)
    (entry : ReachEntry) (source : ReachabilitySource) :
    (s.queue stored peer entry source).tasks = s.tasks := by
  unfold queue
  split <;> rfl

@[simp] theorem queue_subscriber (s : Reachability) (stored : StoredPeers) (peer : EndpointId)
    (entry : ReachEntry) (source : ReachabilitySource) :
    (s.queue stored peer entry source).subscriber = s.subscriber := by
  unfold queue
  split <;> rfl

@[simp] theorem queue_log (s : Reachability) (stored : StoredPeers) (peer : EndpointId)
    (entry : ReachEntry) (source : ReachabilitySource) :
    (s.queue stored peer entry source).log = s.log := by
  unfold queue
  split <;> rfl

def record (s : Reachability) (commit : ReachCommit) : Reachability :=
  { s with log := s.log ++ [commit] }

/-- The commit step of `probe_peer`. -/
def commit (s : Reachability) (stored : StoredPeers) (peer : EndpointId) (entry : ReachEntry)
    (arrived : Option Nat) : Reachability :=
  match commitProbe (s.cache peer) entry with
  | (row, .superseded _) =>
      (s.setRow peer row).record (.commitOf peer entry row false arrived)
  | (row, .committed previous) =>
      let s := (s.setRow peer row).record (.commitOf peer entry row true arrived)
      if isTransition previous entry then s.queue stored peer entry .probe else s

/-- The commit step of `commit_observation`, which draws its ticket under the
lock. -/
def observe (s : Reachability) (stored : StoredPeers) (peer : EndpointId) (seq : Nat)
    (path : PeerPath) (now : Int) : Reachability :=
  match commitObservation (s.cache peer) seq s.probeSeq path now with
  | none => s
  | some row =>
      ((s.draw.setRow peer row).record (.session peer s.probeSeq)).queue stored peer row .session

/-- `reachability_of`. -/
def rows (s : Reachability) (stored : StoredPeers) (now : Int) : List PeerReachability :=
  stored.map fun (endpoint, nickname) =>
    let entry := s.cache endpoint
    reachabilityRow nickname endpoint entry
      (entry.map fun e => (now - e.probedAt).toNat)

/-- Broadcast the `i`th of the rows that wait. -/
def announce (s : Reachability) (i : Nat) : Option Reachability :=
  s.outbox[i]?.map fun frame =>
    { s with
      outbox := s.outbox.eraseIdx i
      subscriber := s.subscriber.map fun sub => { sub with frames := sub.frames ++ [frame] } }

end Reachability

/-- One step; `none` where it cannot be taken. -/
def reachStep (stored : StoredPeers) (s : Reachability) : ReachEvent → Option Reachability
  | .probe task peer =>
      match s.tasks task with
      | .idle => some (s.draw.setTask task (.probing peer s.probeSeq))
      | _ => none
  | .pong task pong =>
      match s.tasks task with
      | .probing peer seq => some (s.setTask task (.answered peer seq s.probeSeq pong))
      | _ => none
  | .fail task =>
      match s.tasks task with
      | .probing peer seq => some (s.setTask task (.elapsed peer seq))
      | _ => none
  | .stamp task path now =>
      match s.tasks task with
      | .answered peer seq arrived pong =>
          some (s.draw.setTask task
            (.stamped peer (.ofPong pong path now seq s.probeSeq) (some arrived)))
      | .elapsed peer seq =>
          some (s.draw.setTask task (.stamped peer (.ofFailure now seq s.probeSeq) none))
      | _ => none
  | .commit task =>
      match s.tasks task with
      | .stamped peer entry arrived =>
          some ((s.commit stored peer entry arrived).setTask task .idle)
      | _ => none
  | .watch task peer =>
      match s.tasks task with
      | .idle => some (s.draw.setTask task (.watching peer s.probeSeq))
      | _ => none
  | .observe task path now =>
      match s.tasks task with
      | .watching peer seq => some ((s.observe stored peer seq path now).setTask task .idle)
      | _ => none
  | .leave task =>
      match s.tasks task with
      | .probing _ _ | .watching _ _ => some (s.setTask task .idle)
      | _ => none
  | .announce i => s.announce i
  | .subscribe =>
      match s.subscriber with
      | none => some { s with subscriber := some ⟨[], none⟩ }
      | some _ => none
  | .snapshot now =>
      match s.subscriber with
      | some ⟨frames, none⟩ =>
          some { s with subscriber := some ⟨frames, some (s.rows stored now)⟩ }
      | _ => none

/-! ## what a step does -/

/-- The tickets of a writer are in the order it drew them, below the next one;
only a pong has a reachable row. -/
def ReachTask.Sound (next : Nat) : ReachTask → Prop
  | .idle => True
  | .probing _ seq | .elapsed _ seq | .watching _ seq => seq < next
  | .answered _ seq arrived _ => seq < arrived ∧ arrived ≤ next
  | .stamped _ entry arrived =>
      entry.seq < entry.observed ∧ entry.observed < next ∧
        match arrived with
        | some arrived => entry.reachable = true ∧ arrived ≤ entry.observed
        | none => entry.reachable = false ∧ entry.path = .unknown

/-- A task that was sound with fewer probes is sound with more. -/
theorem ReachTask.Sound.mono {phase : ReachTask} {n m : Nat} (h : phase.Sound n) (hnm : n ≤ m) :
    phase.Sound m := by
  cases phase with
  | idle => exact h
  | probing | elapsed | watching => exact Nat.lt_of_lt_of_le h hnm
  | answered => exact ⟨h.1, h.2.trans hnm⟩
  | stamped => exact ⟨h.1, Nat.lt_of_lt_of_le h.2.1 hnm, h.2.2⟩

section Steps

variable {stored : StoredPeers} {s s' : Reachability} {peer : EndpointId}

/-- What a probe's commit step does to the state. -/
inductive Committed (stored : StoredPeers) (s : Reachability) (peer : EndpointId)
    (entry : ReachEntry) (arrived : Option Nat) : Reachability → Prop where
  | written {s' : Reachability} (hcached : ∀ existing, s.cache peer = some existing →
        existing.seq ≤ entry.seq ∧
          (entry.reachable = false → existing.reachable = true →
            existing.observed ≤ entry.seq))
      (hs' : s' = (s.setRow peer entry).record (.commitOf peer entry entry true arrived)) :
      Committed stored s peer entry arrived
        (if isTransition (s.cache peer) entry then s'.queue stored peer entry .probe else s')
  | dropped {existing row : ReachEntry} (hcached : s.cache peer = some existing)
      (hsame : row.SameVerdict existing)
      (hwhy : entry.seq < existing.seq ∨ entry.reachable = false) :
      Committed stored s peer entry arrived
        ((s.setRow peer row).record (.commitOf peer entry row false arrived))

/-- A commit does what one is said to do, whether it is queued or was overtaken. -/
theorem committed_commit (stored : StoredPeers) (s : Reachability) (peer : EndpointId)
    (entry : ReachEntry) (arrived : Option Nat) :
    Committed stored s peer entry arrived (s.commit stored peer entry arrived) := by
  have hmerged := merged_commitProbe (s.cache peer) entry
  unfold Reachability.commit
  generalize commitProbe (s.cache peer) entry = outcome at hmerged ⊢
  cases hmerged with
  | committed hcached => exact .written hcached rfl
  | superseded hcached hsame hwhy => exact .dropped hcached hsame hwhy

/-- A step moves one writer between two commits, is a commit, or is about the
subscriber. -/
inductive ReachMoved (stored : StoredPeers) (s : Reachability) :
    ReachEvent → Reachability → Prop where
  | writer {event : ReachEvent} {task next : Nat} {phase : ReachTask} (hnext : s.probeSeq ≤ next)
      (hsound : (s.tasks task).Sound s.probeSeq → phase.Sound next) :
      ReachMoved stored s event
        { s with probeSeq := next, tasks := Function.update s.tasks task phase }
  | commit {task : Nat} {peer : EndpointId} {entry : ReachEntry} {arrived : Option Nat}
      (htask : s.tasks task = .stamped peer entry arrived) :
      ReachMoved stored s (.commit task) ((s.commit stored peer entry arrived).setTask task .idle)
  | observe {task seq : Nat} {peer : EndpointId} {path : PeerPath} {now : Int}
      (htask : s.tasks task = .watching peer seq) :
      ReachMoved stored s (.observe task path now)
        ((s.observe stored peer seq path now).setTask task .idle)
  | announce {i : Nat} {frame : ReachTransition} (hframe : s.outbox[i]? = some frame) :
      ReachMoved stored s (.announce i)
        { s with
          outbox := s.outbox.eraseIdx i
          subscriber := s.subscriber.map fun sub => { sub with frames := sub.frames ++ [frame] } }
  | subscribe (hnone : s.subscriber = none) :
      ReachMoved stored s .subscribe { s with subscriber := some ⟨[], none⟩ }
  | snapshot {frames : List ReachTransition} {now : Int}
      (hsub : s.subscriber = some ⟨frames, none⟩) :
      ReachMoved stored s (.snapshot now)
        { s with subscriber := some ⟨frames, some (s.rows stored now)⟩ }

/-- **The inversion of a step.** -/
theorem moved_of_reachStep {event : ReachEvent} (h : reachStep stored s event = some s') :
    ReachMoved stored s event s' := by
  cases event with
  | probe task peer | watch task peer =>
      simp only [reachStep] at h
      split at h
      · obtain rfl := Option.some.inj h
        exact .writer (Nat.le_succ _) fun _ => Nat.lt_succ_self _
      · contradiction
  | pong task pong =>
      simp only [reachStep] at h
      split at h
      · next peer seq htask =>
        obtain rfl := Option.some.inj h
        refine .writer le_rfl fun hsound => ?_
        rw [htask] at hsound
        exact ⟨hsound, le_rfl⟩
      · contradiction
  | fail task =>
      simp only [reachStep] at h
      split at h
      · next peer seq htask =>
        obtain rfl := Option.some.inj h
        refine .writer le_rfl fun hsound => ?_
        rw [htask] at hsound
        exact hsound
      · contradiction
  | stamp task path now =>
      simp only [reachStep] at h
      split at h
      · next peer seq arrived pong htask =>
        obtain rfl := Option.some.inj h
        refine .writer (Nat.le_succ _) fun hsound => ?_
        rw [htask] at hsound
        exact ⟨Nat.lt_of_lt_of_le hsound.1 hsound.2, Nat.lt_succ_self _, rfl, hsound.2⟩
      · next peer seq htask =>
        obtain rfl := Option.some.inj h
        refine .writer (Nat.le_succ _) fun hsound => ?_
        rw [htask] at hsound
        exact ⟨hsound, Nat.lt_succ_self _, rfl, rfl⟩
      · contradiction
  | commit task =>
      simp only [reachStep] at h
      split at h
      · next peer entry arrived htask =>
        obtain rfl := Option.some.inj h
        exact .commit htask
      · contradiction
  | observe task path now =>
      simp only [reachStep] at h
      split at h
      · next peer seq htask =>
        obtain rfl := Option.some.inj h
        exact .observe htask
      · contradiction
  | leave task =>
      simp only [reachStep] at h
      split at h
      · obtain rfl := Option.some.inj h
        exact .writer le_rfl fun _ => trivial
      · obtain rfl := Option.some.inj h
        exact .writer le_rfl fun _ => trivial
      · contradiction
  | announce i =>
      obtain ⟨frame, hframe, rfl⟩ := Option.map_eq_some_iff.mp h
      exact .announce hframe
  | subscribe =>
      simp only [reachStep] at h
      split at h
      · next hnone =>
        obtain rfl := Option.some.inj h
        exact .subscribe hnone
      · contradiction
  | snapshot now =>
      simp only [reachStep] at h
      split at h
      · next frames hsub =>
        obtain rfl := Option.some.inj h
        exact .snapshot hsub
      · contradiction

end Steps

end Mcpmesh
