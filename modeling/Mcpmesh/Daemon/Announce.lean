import Mcpmesh.Daemon.Reach
import Mcpmesh.Lib.LastWord

/-!
# Mcpmesh.Daemon.Announce

What a subscriber comes to believe of the peers (`run_subscription`,
`node/src/control.rs`).

It registers for the broadcast, reads the rows of every stored peer, and then
applies each frame.  A writer broadcasts its row after it has left the cache
lock, so two rows of one peer can be announced in the other order than they were
committed, and the subscriber is left with the older one.
-/

namespace Mcpmesh

open Lib

/-! ## beliefs -/

/-- What a consumer decides by: the flag and the path. -/
abbrev Belief := Bool × PeerPath

/-- What a row tells of a peer. -/
def rowWord (peer : EndpointId) (row : PeerReachability) : Option Belief :=
  if row.principal = some (principal peer) then some (row.reachable, row.path) else none

/-- A subscriber takes its snapshot, then each frame. -/
def Subscriber.believes (sub : Subscriber) (peer : EndpointId) : Option Belief :=
  lastWord (rowWord peer)
    (sub.snapshot.getD [] ++ sub.frames.map ReachTransition.peer)

def ReachEntry.belief (row : ReachEntry) : Belief := (row.reachable, row.path)

/-- What the cache says of a peer; a peer without a row is unreachable over no
known path. -/
def Reachability.belief (s : Reachability) (peer : EndpointId) : Belief :=
  ((s.cache peer).map ReachEntry.belief).getD (false, .unknown)

/-- The condition on a step: a row is announced after the rows of its peer that
were committed before it. -/
def Reachability.InOrder (s : Reachability) : ReachEvent → Prop
  | .announce i => ∀ frame ∈ s.outbox[i]?, ∀ earlier ∈ s.outbox.take i,
      earlier.peer.principal ≠ frame.peer.principal
  | _ => True

instance (s : Reachability) (event : ReachEvent) : Decidable (s.InOrder event) := by
  unfold Reachability.InOrder
  split <;> infer_instance

/-! ## rows -/

section Rows

variable {stored : StoredPeers} {s : Reachability} {peer p : EndpointId} {entry : ReachEntry}

/-- What a row of the snapshot says of a peer. -/
theorem rowWord_reachabilityRow (nickname : String) (row : Option ReachEntry) (age : Option Nat) :
    rowWord peer (reachabilityRow nickname p row age) =
      if p = peer then some ((row.map ReachEntry.belief).getD (false, .unknown)) else none := by
  have hprincipal : principal p = principal peer ↔ p = peer :=
    ⟨fun h => principal_injective h, fun h => h ▸ rfl⟩
  cases row <;> simp [rowWord, reachabilityRow, hprincipal, ReachEntry.belief]

/-- What a row that is told says of a peer. -/
theorem rowWord_storedRow {row : PeerReachability} (h : storedRow stored p entry = some row) :
    rowWord peer row = if p = peer then some entry.belief else none := by
  obtain ⟨nickname, -, rfl⟩ := Option.map_eq_some_iff.mp h
  rw [rowWord_reachabilityRow]
  rfl

/-- A peer that is stored has a row to tell. -/
theorem exists_storedRow (hstored : peer ∈ stored.map Prod.fst) (entry : ReachEntry) :
    ∃ row, storedRow stored peer entry = some row := by
  have hsome : (stored.lookup peer).isSome = true := by
    obtain ⟨row, hrow, rfl⟩ := List.mem_map.mp hstored
    rw [List.lookup_isSome_iff]
    exact ⟨row, hrow, beq_self_eq_true _⟩
  obtain ⟨nickname, hnickname⟩ := Option.isSome_iff_exists.mp hsome
  exact ⟨_, by rw [storedRow, hnickname]; rfl⟩

/-- The snapshot tells of every stored peer what the cache does. -/
theorem lastWord_rows (hstored : peer ∈ stored.map Prod.fst) (now : Int) :
    lastWord (rowWord peer) (s.rows stored now) = some (s.belief peer) := by
  refine lastWord_of_agree ?_ fun row hrow told htold => ?_
  · obtain ⟨known, hknown, rfl⟩ := List.mem_map.mp hstored
    refine ⟨_, List.mem_map.mpr ⟨known, hknown, rfl⟩, ?_⟩
    rw [rowWord_reachabilityRow, if_pos rfl]
    rfl
  · obtain ⟨known, -, rfl⟩ := List.mem_map.mp hrow
    rw [rowWord_reachabilityRow] at htold
    obtain ⟨rfl, hbelief⟩ := Option.ite_none_right_eq_some.mp htold
    exact (Option.some.inj hbelief).symm

/-- What is not announced does not change what the cache says. -/
theorem belief_of_not_isTransition {cached : Option ReachEntry}
    (h : isTransition cached entry = false)
    (hpath : entry.reachable = false → entry.path = .unknown) :
    entry.belief = (cached.map ReachEntry.belief).getD (false, .unknown) := by
  cases cached with
  | none =>
      have hdown : entry.reachable = false := h
      simp [ReachEntry.belief, hdown, hpath hdown]
  | some existing =>
      simp only [isTransition, Bool.or_eq_false_iff, decide_eq_false_iff_not, not_not] at h
      simp [ReachEntry.belief, h.1, h.2]

end Rows

/-! ## the invariant -/

/-- What a subscriber heard and what it has yet to hear. -/
def Reachability.told (s : Reachability) : List PeerReachability :=
  (match s.subscriber with
    | some sub => sub.snapshot.getD [] ++ sub.frames.map ReachTransition.peer
    | none => []) ++ s.outbox.map ReachTransition.peer

/-- The last thing told of a stored peer is what the cache says; a subscriber
with a snapshot was told something. -/
structure Reachability.Told (stored : StoredPeers) (s : Reachability) : Prop where
  tasks : ∀ task, (s.tasks task).Sound s.probeSeq
  current : ∀ peer ∈ stored.map Prod.fst, ∀ belief,
    lastWord (rowWord peer) s.told = some belief → belief = s.belief peer
  informed : ∀ frames rows, s.subscriber = some ⟨frames, some rows⟩ →
    ∀ peer ∈ stored.map Prod.fst, (lastWord (rowWord peer) rows).isSome = true

section Invariant

variable {stored : StoredPeers} {s s' : Reachability} {peer : EndpointId}

/-- A row that is put in the cache is what is believed of its peer. -/
@[simp] theorem belief_setRow_self (row : ReachEntry) :
    (s.setRow peer row).belief peer = row.belief := by
  simp [Reachability.belief, Reachability.setRow]

/-- It changes nothing of what is believed of others. -/
theorem belief_setRow_of_ne {p : EndpointId} (hp : p ≠ peer) (row : ReachEntry) :
    (s.setRow peer row).belief p = s.belief p := by
  simp [Reachability.belief, Reachability.setRow, hp]

/-- A row of a stored peer is put in the outbox. -/
theorem queue_of_storedRow {entry : ReachEntry} {source : ReachabilitySource}
    {row : PeerReachability} (h : storedRow stored peer entry = some row) :
    s.queue stored peer entry source = { s with outbox := s.outbox ++ [⟨row, source⟩] } := by
  rw [Reachability.queue, h]

/-- A row of a peer that is not stored is not told. -/
theorem queue_of_unstored {entry : ReachEntry} {source : ReachabilitySource}
    (h : storedRow stored peer entry = none) : s.queue stored peer entry source = s := by
  rw [Reachability.queue, h]

namespace Reachability.Told

/-- A row that says the same of the peer needs no frame. -/
theorem quiet (h : s.Told stored) {row : ReachEntry} (hrow : row.belief = s.belief peer)
    (commit : ReachCommit) : ((s.setRow peer row).record commit).Told stored where
  tasks := h.tasks
  current p hp belief hbelief := by
    have hcurrent := h.current p hp belief hbelief
    by_cases hpeer : p = peer
    · subst hpeer
      rw [hcurrent, ← hrow]
      exact (belief_setRow_self row).symm
    · rw [hcurrent]
      exact (belief_setRow_of_ne hpeer row).symm
  informed := h.informed

/-- A row that goes to the outbox is the last thing told of its peer. -/
theorem announced (h : s.Told stored) (row : ReachEntry) (commit : ReachCommit)
    (source : ReachabilitySource) :
    (((s.setRow peer row).record commit).queue stored peer row source).Told stored := by
  cases hstored : storedRow stored peer row with
  | none =>
      rw [queue_of_unstored hstored]
      refine ⟨h.tasks, fun p hp belief hbelief => ?_, h.informed⟩
      have hpeer : p ≠ peer := by
        rintro rfl
        obtain ⟨frame, hframe⟩ := exists_storedRow hp row
        simp [hstored] at hframe
      rw [h.current p hp belief hbelief]
      exact (belief_setRow_of_ne hpeer row).symm
  | some frame =>
      rw [queue_of_storedRow hstored]
      refine ⟨h.tasks, fun p hp belief hbelief => ?_, h.informed⟩
      have htold : lastWord (rowWord p) (s.told ++ [frame]) = some belief := by
        simpa [told, record, setRow] using hbelief
      have hword : rowWord p frame = if peer = p then some row.belief else none :=
        rowWord_storedRow hstored
      by_cases hpeer : p = peer
      · subst hpeer
        rw [lastWord_snoc_of_some (hword.trans (if_pos rfl))] at htold
        rw [← Option.some.inj htold]
        exact (belief_setRow_self row).symm
      · rw [lastWord_snoc_of_none (hword.trans (if_neg (Ne.symm hpeer)))] at htold
        rw [h.current p hp belief htold]
        exact (belief_setRow_of_ne hpeer row).symm

/-- A task that goes on tells nothing. -/
theorem setTask (h : s.Told stored) {task : Nat} {phase : ReachTask}
    (hphase : phase.Sound s.probeSeq) : (s.setTask task phase).Told stored where
  tasks := forall_setTask (Q := (·.Sound s.probeSeq)) h.tasks hphase
  current := h.current
  informed := h.informed

/-- A draw of a probe number tells nothing. -/
theorem draw (h : s.Told stored) : s.draw.Told stored where
  tasks task := (h.tasks task).mono (Nat.le_succ _)
  current := h.current
  informed := h.informed

/-- A commit tells what it changed of what is believed. -/
theorem committed (h : s.Told stored) {task : Nat} {entry : ReachEntry} {arrived : Option Nat}
    (htask : s.tasks task = .stamped peer entry arrived) :
    (s.commit stored peer entry arrived).Told stored := by
  have hsound := h.tasks task
  rw [htask] at hsound
  have hpath : entry.reachable = false → entry.path = .unknown := by
    intro hdown
    cases arrived with
    | none => exact hsound.2.2.2
    | some arrived =>
        rw [hsound.2.2.1] at hdown
        contradiction
  have hcommitted := committed_commit stored s peer entry arrived
  generalize s.commit stored peer entry arrived = s' at hcommitted ⊢
  cases hcommitted with
  | written hcached hs' =>
      subst hs'
      cases htransition : isTransition (s.cache peer) entry with
      | true => exact h.announced entry _ .probe
      | false => exact h.quiet (belief_of_not_isTransition htransition hpath) _
  | @dropped existing row hcached hsame hwhy =>
      refine h.quiet ?_ _
      rw [Reachability.belief, hcached]
      simp [ReachEntry.belief, hsame.reachable, hsame.path]

/-- An observation tells what it changed. -/
theorem observed (h : s.Told stored) {seq : Nat} {path : PeerPath} {now : Int} :
    (s.observe stored peer seq path now).Told stored := by
  unfold Reachability.observe
  split
  · exact h
  · next row hrow => exact h.draw.announced row _ .session

/-- The rows of a snapshot say what the cache does, and what is told after them
did already. -/
theorem snapshot (h : s.Told stored) {frames : List ReachTransition}
    (hsub : s.subscriber = some ⟨frames, none⟩) (now : Int) :
    ({ s with subscriber := some ⟨frames, some (s.rows stored now)⟩ } : Reachability).Told
      stored where
  tasks := h.tasks
  current p hp belief hbelief := by
    have htold : lastWord (rowWord p) (s.rows stored now ++ s.told) = some belief := by
      simpa [told, hsub] using hbelief
    rw [lastWord_append, lastWord_rows hp] at htold
    cases hlast : lastWord (rowWord p) s.told with
    | none =>
        rw [hlast, Option.none_or] at htold
        exact (Option.some.inj htold).symm
    | some last =>
        rw [hlast, Option.some_or] at htold
        rw [← Option.some.inj htold]
        exact h.current p hp last hlast
  informed frames' rows hsome p hp := by
    obtain ⟨-, rfl⟩ : frames = frames' ∧ s.rows stored now = rows := by simpa using hsome
    simp [lastWord_rows hp]

/-- A row that is announced in order changes nothing of what is told in the end. -/
theorem announce (h : s.Told stored) {i : Nat} {frame : ReachTransition}
    (hframe : s.outbox[i]? = some frame)
    (hinOrder : ∀ earlier ∈ s.outbox.take i, earlier.peer.principal ≠ frame.peer.principal) :
    ({ s with
        outbox := s.outbox.eraseIdx i
        subscriber := s.subscriber.map fun sub => { sub with frames := sub.frames ++ [frame] } } :
      Reachability).Told stored where
  tasks := h.tasks
  current p hp belief hbelief := by
    obtain ⟨hi, rfl⟩ := List.getElem?_eq_some_iff.mp hframe
    have hsplit : s.outbox.map ReachTransition.peer =
        (s.outbox.take i).map ReachTransition.peer ++
          s.outbox[i].peer :: (s.outbox.drop (i + 1)).map ReachTransition.peer := by
      rw [← List.map_cons, ← List.map_append, ← List.drop_eq_getElem_cons hi,
        List.take_append_drop]
    have hover : rowWord p s.outbox[i].peer = none ∨
        lastWord (rowWord p) ((s.outbox.take i).map ReachTransition.peer) = none := by
      by_cases hpeer : s.outbox[i].peer.principal = some (principal p)
      · refine .inr (lastWord_eq_none fun row hrow => ?_)
        obtain ⟨earlier, hearlier, rfl⟩ := List.mem_map.mp hrow
        exact if_neg fun heq => hinOrder earlier hearlier (heq.trans hpeer.symm)
      · exact .inl (if_neg hpeer)
    refine h.current p hp belief ?_
    cases hsub : s.subscriber with
    | none =>
        have hleft : lastWord (rowWord p) ((s.outbox.take i).map ReachTransition.peer ++
            (s.outbox.drop (i + 1)).map ReachTransition.peer) = some belief := by
          simpa [told, hsub, List.eraseIdx_eq_take_drop_succ] using hbelief
        have htold : s.told = (s.outbox.take i).map ReachTransition.peer ++
            s.outbox[i].peer :: (s.outbox.drop (i + 1)).map ReachTransition.peer := by
          rw [told, hsub, hsplit]
          rfl
        rw [htold]
        exact lastWord_insert hover hleft
    | some sub =>
        have hheard : lastWord (rowWord p)
            (sub.snapshot.getD [] ++ sub.frames.map ReachTransition.peer ++
              s.outbox[i].peer :: ((s.outbox.take i).map ReachTransition.peer ++
                (s.outbox.drop (i + 1)).map ReachTransition.peer)) = some belief := by
          simpa [told, hsub, List.eraseIdx_eq_take_drop_succ] using hbelief
        have htold : s.told = sub.snapshot.getD [] ++ sub.frames.map ReachTransition.peer ++
            ((s.outbox.take i).map ReachTransition.peer ++
              s.outbox[i].peer :: (s.outbox.drop (i + 1)).map ReachTransition.peer) := by
          rw [told, hsub, hsplit]
        rw [htold, ← lastWord_overtake hover]
        exact hheard
  informed frames rows hsome := by
    obtain ⟨sub, hsub, heq⟩ := Option.map_eq_some_iff.mp hsome
    obtain ⟨-, hsnapshot⟩ := Subscriber.mk.inj heq
    exact h.informed sub.frames rows (hsub.trans (by rw [← hsnapshot]))

/-- Each step that broadcasts in order tells the subscriber. -/
theorem step (h : s.Told stored) {event : ReachEvent} (hinOrder : s.InOrder event)
    (hstep : reachStep stored s event = some s') : s'.Told stored := by
  cases moved_of_reachStep hstep with
  | @writer _ task next phase hnext hsound =>
      refine ⟨fun t => ?_, h.current, h.informed⟩
      by_cases ht : t = task
      · subst ht
        simpa using hsound (h.tasks t)
      · simpa [ht] using (h.tasks t).mono hnext
  | commit htask => exact (h.committed htask).setTask trivial
  | observe htask => exact h.observed.setTask trivial
  | announce hframe => exact h.announce hframe (hinOrder _ hframe)
  | subscribe hnone =>
      refine ⟨h.tasks, fun p hp belief hbelief => h.current p hp belief ?_, nofun⟩
      simpa [told, hnone] using hbelief
  | snapshot hsub => exact h.snapshot hsub _

end Reachability.Told

/-- Nothing is believed at the start, and nothing told. -/
theorem told_start : Reachability.start.Told stored where
  tasks _ := trivial
  current _ _ _ h := by simp [Reachability.told, Reachability.start] at h
  informed := nofun

end Invariant

/-- **A subscriber converges to the cache** in a run that announces the rows of
each peer in the order of their commits: once no row waits for its broadcast, it
believes of every stored peer what the cache says. -/
theorem subscribers_converge (stored : StoredPeers) (events : List ReachEvent) (s : Reachability)
    (hinOrder : Guarded (reachStep stored) Reachability.InOrder .start events)
    (hrun : run (reachStep stored) .start events = some s) (frames : List ReachTransition)
    (rows : List PeerReachability) (hsub : s.subscriber = some ⟨frames, some rows⟩)
    (hpending : s.outbox = []) (peer : EndpointId) (hstored : peer ∈ stored.map Prod.fst) :
    Subscriber.believes ⟨frames, some rows⟩ peer = some (s.belief peer) := by
  have htold : s.Told stored :=
    hinOrder.invariant (fun _ _ _ hQ hI hstep => hI.step hQ hstep) told_start hrun
  have hheard : s.told = rows ++ frames.map ReachTransition.peer := by
    simp [Reachability.told, hsub, hpending]
  obtain ⟨first, hfirst⟩ :=
    Option.isSome_iff_exists.mp (htold.informed frames rows hsub peer hstored)
  have hlast : ∃ belief, lastWord (rowWord peer) s.told = some belief := by
    rw [hheard, lastWord_append, hfirst]
    cases lastWord (rowWord peer) (frames.map ReachTransition.peer) with
    | none => exact ⟨first, rfl⟩
    | some last => exact ⟨last, rfl⟩
  obtain ⟨belief, hbelief⟩ := hlast
  rw [← htold.current peer hstored belief hbelief, ← hbelief, hheard]
  rfl

namespace RacingBroadcasts

def carol : EndpointId := .replicate 32 9

/-- A subscriber watches carol answer a probe and fail the next. -/
def committed : List ReachEvent :=
  [.subscribe, .snapshot 100, .probe 0 carol, .pong 0 ⟨"", [], 12⟩, .stamp 0 .direct 100,
    .commit 0, .probe 1 carol, .fail 1, .stamp 1 .unknown 103, .commit 1]

def inOrder : List ReachEvent := committed ++ [.announce 0, .announce 0]

/-- The second probe broadcasts before the first. -/
def swapped : List ReachEvent := committed ++ [.announce 1, .announce 0]

end RacingBroadcasts

open RacingBroadcasts in
theorem subscribers_converge_example :
    ∃ s frames rows, run (reachStep [(carol, "carol")]) .start inOrder = some s ∧
      s.subscriber = some ⟨frames, some rows⟩ ∧
      Subscriber.believes ⟨frames, some rows⟩ carol = some (false, .unknown) := by
  have hend : (run (reachStep [(carol, "carol")]) .start inOrder).any (fun s =>
      s.subscriber.any (fun sub => sub.snapshot.isSome) && s.outbox.isEmpty &&
        s.belief carol == (false, .unknown)) = true := by decide +kernel
  obtain ⟨s, hrun, hs⟩ := (Option.any_eq_true ..).mp hend
  simp only [Bool.and_eq_true, Option.any_eq_true, List.isEmpty_iff, beq_iff_eq] at hs
  obtain ⟨⟨⟨⟨frames, snapshot⟩, hsub, hsnapshot⟩, hpending⟩, hbelief⟩ := hs
  obtain ⟨rows, rfl⟩ := Option.isSome_iff_exists.mp hsnapshot
  refine ⟨s, frames, rows, hrun, hsub, ?_⟩
  rw [← hbelief]
  exact subscribers_converge [(carol, "carol")] inOrder s (by decide +kernel) hrun frames rows hsub
    hpending carol (by decide +kernel)

open RacingBroadcasts in
theorem swapped_broadcasts_diverge :
    ∃ s sub, run (reachStep [(carol, "carol")]) .start swapped = some s ∧
      s.subscriber = some sub ∧ s.outbox = [] ∧
      s.belief carol = (false, .unknown) ∧ sub.believes carol = some (true, .direct) := by
  have hend : (run (reachStep [(carol, "carol")]) .start swapped).any (fun s =>
      s.outbox.isEmpty && s.belief carol == (false, .unknown) &&
        s.subscriber.any (fun sub => sub.believes carol == some (true, .direct))) = true := by
    decide +kernel
  obtain ⟨s, hrun, hs⟩ := (Option.any_eq_true ..).mp hend
  simp only [Bool.and_eq_true, Option.any_eq_true, List.isEmpty_iff, beq_iff_eq] at hs
  obtain ⟨⟨hpending, hbelief⟩, sub, hsub, hbelieves⟩ := hs
  exact ⟨s, sub, hrun, hsub, hpending, hbelief, hbelieves⟩

end Mcpmesh
