import Mcpmesh.Daemon.Reach
import Mcpmesh.Lib.LastWord

/-!
# Mcpmesh.Daemon.Evidence

What a timeout may say of a peer that answered.

A pong and the path of a live session are evidence of the peer at the ticket of
their commit; a failed probe is only evidence about the window that opened with
its start ticket.  `EvidenceKept` compares the two: no row says unreachable
against evidence from inside the window of the probe that wrote it.

`contradicted_by` compares the failed probe with the `observed` of the cached
row alone, so it needs that row to carry the latest ticket there is.  A commit
that leaves it behind (`Records`) hides a pong from the next timeout.
-/

namespace Mcpmesh

open Lib

/-! ## the law -/

/-- The ticket at which a commit step saw the peer answer. -/
def ReachCommit.evidence (peer : EndpointId) : ReachCommit → Option Nat
  | .pong p _ observed _ => if p = peer then some observed else none
  | .session p committedAt => if p = peer then some committedAt else none
  | .failed _ _ _ => none

/-- The start ticket of a failed probe that wrote the row of the peer. -/
def ReachCommit.wrote (peer : EndpointId) : ReachCommit → Option Nat
  | .failed p seq true => if p = peer then some seq else none
  | _ => none

/-- A peer answered at no ticket after `bound`. -/
def SilentAfter (log : List ReachCommit) (peer : EndpointId) (bound : Nat) : Prop :=
  ∀ commit ∈ log, ∀ ticket, commit.evidence peer = some ticket → ticket ≤ bound

/-- A commit step is allowed after the steps before it: where a pong leaves the
row unreachable, a probe that started after it arrived has failed. -/
def ReachCommit.Stands (before : List ReachCommit) : ReachCommit → Prop
  | .pong peer arrived _ up =>
      up = true ∨ ∃ seq written, .failed peer seq written ∈ before ∧ arrived ≤ seq
  | _ => True

structure Reachability.EvidenceKept (s : Reachability) : Prop where
  /-- the failed probe behind an unreachable row started after the last answer -/
  down : ∀ peer row, s.cache peer = some row → row.reachable = false →
    ∃ start, lastWord (ReachCommit.wrote peer) s.log = some start ∧ SilentAfter s.log peer start
  pongs : ∀ before commit after, s.log = before ++ commit :: after → commit.Stands before

/-! ## the condition -/

/-- A pong's commit step leaves the row with the latest ticket of an answer:
one that is written does not go back behind the row, and one that is dropped was
stamped before the row's answer, or before the failure that wrote it started. -/
def ReachEntry.Records (row entry : ReachEntry) : Prop :=
  if entry.seq < row.seq then
    if row.reachable = true then entry.observed ≤ row.observed else entry.observed ≤ row.seq
  else row.reachable = true → row.observed ≤ entry.observed

instance (row entry : ReachEntry) : Decidable (row.Records entry) := by
  unfold ReachEntry.Records
  infer_instance

/-- A session's path is committed to no row that says unreachable. -/
def ReachEntry.TakesPath (row : ReachEntry) (seq : Nat) (path : PeerPath) : Prop :=
  supersedes seq row = true → decidePath path (some row.path) ≠ none → row.reachable = true

/-- The condition on a step. -/
def Reachability.Records (s : Reachability) : ReachEvent → Prop
  | .commit task =>
      match s.tasks task with
      | .stamped peer entry (some _) => ∀ row ∈ s.cache peer, row.Records entry
      | _ => True
  | .observe task path _ =>
      match s.tasks task with
      | .watching peer seq => ∀ row ∈ s.cache peer, row.TakesPath seq path
      | _ => True
  | _ => True

instance (row : ReachEntry) (seq : Nat) (path : PeerPath) : Decidable (row.TakesPath seq path) := by
  unfold ReachEntry.TakesPath
  infer_instance

instance (s : Reachability) (event : ReachEvent) : Decidable (s.Records event) := by
  unfold Reachability.Records
  split
  · split <;> infer_instance
  · split <;> infer_instance
  · infer_instance

/-! ## the invariant -/

/-- The row of a peer carries what the log saw of it. -/
def Carries (log : List ReachCommit) (peer : EndpointId) (next : Nat) : Option ReachEntry → Prop
  | none => ∀ bound, SilentAfter log peer bound
  | some row =>
      row.observed < next ∧
        (row.reachable = true → SilentAfter log peer row.observed) ∧
        (row.reachable = false →
          lastWord (ReachCommit.wrote peer) log = some row.seq ∧ SilentAfter log peer row.seq)

structure Reachability.Inv (s : Reachability) : Prop where
  tasks : ∀ task, (s.tasks task).Sound s.probeSeq
  rows : ∀ peer, Carries s.log peer s.probeSeq (s.cache peer)
  pongs : ∀ before commit after, s.log = before ++ commit :: after → commit.Stands before

section Invariant

variable {stored : StoredPeers} {s s' : Reachability} {peer : EndpointId} {log : List ReachCommit}
  {commit : ReachCommit} {next bound : Nat}

/-- A peer that was silent after one ticket was silent after a later one. -/
theorem SilentAfter.mono (h : SilentAfter log peer bound) {bound' : Nat} (hle : bound ≤ bound') :
    SilentAfter log peer bound' :=
  fun c hc ticket ht => (h c hc ticket ht).trans hle

/-- A commit that brings no later evidence leaves the peer silent. -/
theorem SilentAfter.snoc (h : SilentAfter log peer bound)
    (hcommit : ∀ ticket, commit.evidence peer = some ticket → ticket ≤ bound) :
    SilentAfter (log ++ [commit]) peer bound := by
  intro c hc ticket ht
  rcases List.mem_append.mp hc with hc | hc
  · exact h c hc ticket ht
  · rw [List.mem_singleton.mp hc] at ht
    exact hcommit ticket ht

/-- A row that carries its evidence carries it still. -/
theorem Carries.mono {row : Option ReachEntry} (h : Carries log peer next row) {next' : Nat}
    (hle : next ≤ next') : Carries log peer next' row := by
  cases row with
  | none => exact h
  | some row => exact ⟨Nat.lt_of_lt_of_le h.1 hle, h.2⟩

/-- A commit step of another peer says nothing of this one. -/
theorem Carries.snoc {row : Option ReachEntry} (h : Carries log peer next row)
    (hevidence : commit.evidence peer = none) (hwrote : commit.wrote peer = none) :
    Carries (log ++ [commit]) peer next row := by
  have hsilent : ∀ bound, SilentAfter log peer bound → SilentAfter (log ++ [commit]) peer bound :=
    fun bound hb => hb.snoc fun ticket ht => by simp [hevidence] at ht
  cases row with
  | none => exact fun bound => hsilent bound (h bound)
  | some row =>
      obtain ⟨hnext, hup, hdown⟩ := h
      refine ⟨hnext, fun hr => hsilent _ (hup hr), fun hr => ⟨?_, hsilent _ (hdown hr).2⟩⟩
      rw [lastWord_snoc_of_none hwrote]
      exact (hdown hr).1

/-- What the log saw of a peer before a later row. -/
theorem Carries.silent {cached : Option ReachEntry} (h : Carries log peer next cached)
    (hup : ∀ row, cached = some row → row.reachable = true → row.observed ≤ bound)
    (hdown : ∀ row, cached = some row → row.reachable = false → row.seq ≤ bound) :
    SilentAfter log peer bound := by
  cases cached with
  | none => exact h bound
  | some row =>
      cases hr : row.reachable with
      | true => exact (h.2.1 hr).mono (hup row rfl hr)
      | false => exact (h.2.2 hr).2.mono (hdown row rfl hr)

/-- A row of the same verdict carries the same evidence. -/
theorem Carries.of_sameVerdict {row existing : ReachEntry} (hsame : row.SameVerdict existing)
    (h : Carries log peer next (some existing)) : Carries log peer next (some row) := by
  obtain ⟨hreachable, -, hseq, hobserved⟩ := hsame
  simp only [Carries, hreachable, hseq, hobserved]
  exact h

/-- A commit of one peer is no evidence of another. -/
theorem commitOf_other {p : EndpointId} (hp : p ≠ peer) (entry row : ReachEntry) (written : Bool)
    (arrived : Option Nat) :
    (ReachCommit.commitOf peer entry row written arrived).evidence p = none ∧
      (ReachCommit.commitOf peer entry row written arrived).wrote p = none := by
  have hp : peer ≠ p := Ne.symm hp
  cases arrived <;> cases written <;>
    simp [ReachCommit.commitOf, ReachCommit.evidence, ReachCommit.wrote, hp]

/-- A pong that is written carries the latest ticket. -/
theorem Carries.pong {cached : Option ReachEntry} {entry row : ReachEntry} {arrived : Nat}
    (h : Carries log peer next cached) (hentry : entry.seq < entry.observed)
    (hnext : entry.observed < next) (hreachable : entry.reachable = true)
    (hcached : ∀ existing, cached = some existing →
      existing.seq ≤ entry.seq ∧ (existing.reachable = true → existing.observed ≤ entry.observed)) :
    Carries (log ++ [.pong peer arrived entry.observed row.reachable]) peer next (some entry) := by
  have hsilent : SilentAfter log peer entry.observed :=
    h.silent (fun existing he => (hcached existing he).2)
      (fun existing he _ => (hcached existing he).1.trans hentry.le)
  refine ⟨hnext, fun _ => hsilent.snoc fun ticket ht => ?_, fun hdown => ?_⟩
  · simp only [ReachCommit.evidence, if_true, Option.some.injEq] at ht
    exact ht.ge
  · rw [hreachable] at hdown
    contradiction

/-- A failed probe is written over answers from before it started. -/
theorem Carries.failed {cached : Option ReachEntry} {entry : ReachEntry}
    (h : Carries log peer next cached) (hnext : entry.observed < next)
    (hreachable : entry.reachable = false)
    (hcached : ∀ existing, cached = some existing → existing.seq ≤ entry.seq ∧
      (entry.reachable = false → existing.reachable = true → existing.observed ≤ entry.seq)) :
    Carries (log ++ [.failed peer entry.seq true]) peer next (some entry) := by
  have hsilent : SilentAfter log peer entry.seq :=
    h.silent (fun existing he => (hcached existing he).2 hreachable)
      (fun existing he _ => (hcached existing he).1)
  refine ⟨hnext, fun hup => ?_, fun _ => ⟨?_, hsilent.snoc nofun⟩⟩
  · rw [hreachable] at hup
    contradiction
  · exact lastWord_snoc_of_some (by simp [ReachCommit.wrote])

/-- A dropped pong was stamped before what the row says of the peer. -/
theorem Carries.dropped {row : ReachEntry} {arrived observed : Nat}
    (h : Carries log peer next (some row)) (hup : row.reachable = true → observed ≤ row.observed)
    (hdown : row.reachable = false → observed ≤ row.seq) :
    Carries (log ++ [.pong peer arrived observed row.reachable]) peer next (some row) := by
  have hevidence : ∀ ticket,
      (ReachCommit.pong peer arrived observed row.reachable).evidence peer = some ticket →
        ticket = observed := by
    intro ticket ht
    simp only [ReachCommit.evidence, if_true, Option.some.injEq] at ht
    exact ht.symm
  refine ⟨h.1, fun hr => ?_, fun hr => ⟨?_, ?_⟩⟩
  · exact (h.2.1 hr).snoc fun ticket ht => hevidence ticket ht ▸ hup hr
  · rw [lastWord_snoc_of_none rfl]
    exact (h.2.2 hr).1
  · exact (h.2.2 hr).2.snoc fun ticket ht => hevidence ticket ht ▸ hdown hr

/-- An unreachable row comes from a failed probe. -/
theorem Carries.exists_failed {row : ReachEntry} (h : Carries log peer next (some row))
    (hdown : row.reachable = false) : ∃ written, .failed peer row.seq written ∈ log := by
  obtain ⟨c, hc, hwrote⟩ := exists_of_lastWord (h.2.2 hdown).1
  unfold ReachCommit.wrote at hwrote
  split at hwrote
  · next p seq =>
    obtain ⟨rfl, hseq⟩ := Option.ite_none_right_eq_some.mp hwrote
    obtain rfl := Option.some.inj hseq
    exact ⟨true, hc⟩
  · contradiction

namespace Reachability.Inv

/-- A draw of a probe number keeps the evidence. -/
theorem draw (h : s.Inv) : s.draw.Inv where
  tasks task := (h.tasks task).mono (Nat.le_succ _)
  rows peer := (h.rows peer).mono (Nat.le_succ _)
  pongs := h.pongs

/-- A task that goes on keeps it. -/
theorem setTask (h : s.Inv) {task : Nat} {phase : ReachTask} (hphase : phase.Sound s.probeSeq) :
    (s.setTask task phase).Inv where
  tasks := forall_setTask (Q := (·.Sound s.probeSeq)) h.tasks hphase
  rows := h.rows
  pongs := h.pongs

/-- An event that is queued keeps it. -/
theorem queue (h : s.Inv) (entry : ReachEntry) (source : ReachabilitySource) :
    (s.queue stored peer entry source).Inv where
  tasks := by simpa using h.tasks
  rows := by simpa using h.rows
  pongs := by simpa using h.pongs

/-- A row is written, and logged. -/
theorem write (h : s.Inv) {row : ReachEntry}
    (hother : ∀ p, p ≠ peer → commit.evidence p = none ∧ commit.wrote p = none)
    (hrow : Carries (s.log ++ [commit]) peer s.probeSeq (some row))
    (hstands : commit.Stands s.log) : ((s.setRow peer row).record commit).Inv where
  tasks := h.tasks
  rows p := by
    by_cases hp : p = peer
    · subst hp
      simpa [setRow, record] using hrow
    · simpa [setRow, record, hp] using (h.rows p).snoc (hother p hp).1 (hother p hp).2
  pongs := forall_split_snoc h.pongs hstands

/-- A commit keeps it, where what arrived was recorded. -/
theorem committed (h : s.Inv) {task : Nat} {entry : ReachEntry} {arrived : Option Nat}
    (htask : s.tasks task = .stamped peer entry arrived)
    (hrecords : arrived.isSome = true → ∀ row ∈ s.cache peer, row.Records entry) :
    (s.commit stored peer entry arrived).Inv := by
  have hsound := h.tasks task
  rw [htask] at hsound
  obtain ⟨hseq, hnext, hverdict⟩ := hsound
  have hcarries := h.rows peer
  have hcommitted := committed_commit stored s peer entry arrived
  generalize s.commit stored peer entry arrived = s' at hcommitted ⊢
  cases hcommitted with
  | written hcached hs' =>
      have hwritten : (s.setRow peer entry |>.record
          (.commitOf peer entry entry true arrived)).Inv := by
        refine h.write (fun p hp => commitOf_other hp entry entry true arrived) ?_ ?_
        · cases arrived with
          | none => exact hcarries.failed hnext hverdict.1 hcached
          | some arrived =>
              refine hcarries.pong hseq hnext hverdict.1 fun existing he => ?_
              have hle := (hcached existing he).1
              have hrec := hrecords rfl existing he
              simp only [ReachEntry.Records, Nat.not_lt.mpr hle, if_false] at hrec
              exact ⟨hle, hrec⟩
        · cases arrived with
          | none => trivial
          | some arrived => exact .inl hverdict.1
      subst hs'
      split
      · exact hwritten.queue entry .probe
      · exact hwritten
  | @dropped existing row hcached hsame hwhy =>
      rw [hcached] at hcarries
      have hrow := hcarries.of_sameVerdict hsame
      cases arrived with
      | none =>
          exact h.write (fun p hp => commitOf_other hp entry row false none)
            (hrow.snoc rfl rfl) trivial
      | some arrived =>
          have hlate : entry.seq < row.seq := by
            rw [hsame.seq]
            exact hwhy.resolve_right (by simp [hverdict.1])
          have hrec := hrecords rfl existing hcached
          simp only [ReachEntry.Records, ← hsame.reachable, ← hsame.seq, ← hsame.observed,
            hlate, if_true] at hrec
          have hup : row.reachable = true → entry.observed ≤ row.observed := by
            intro hr
            simpa [hr] using hrec
          have hdown : row.reachable = false → entry.observed ≤ row.seq := by
            intro hr
            simpa [hr] using hrec
          refine h.write (fun p hp => commitOf_other hp entry row false (some arrived))
            (hrow.dropped hup hdown) ?_
          cases hr : row.reachable with
          | true => exact .inl hr
          | false =>
              obtain ⟨written, hfailed⟩ := hrow.exists_failed hr
              exact .inr ⟨row.seq, written, hfailed, hverdict.2.trans (hdown hr)⟩

/-- An observation keeps it, where the row takes its path. -/
theorem observed (h : s.Inv) {seq : Nat} {path : PeerPath} {now : Int}
    (htakes : ∀ row ∈ s.cache peer, row.TakesPath seq path) :
    (s.observe stored peer seq path now).Inv := by
  have hcarries := h.rows peer
  unfold Reachability.observe
  cases hrow : commitObservation (s.cache peer) seq s.probeSeq path now with
  | none => exact h
  | some row =>
      have hlive : row.reachable = true ∧ row.observed = s.probeSeq ∧
          SilentAfter s.log peer s.probeSeq := by
        cases hcached : s.cache peer with
        | none =>
            rw [hcached] at hrow hcarries
            obtain ⟨path', -, rfl⟩ := Option.map_eq_some_iff.mp hrow
            exact ⟨rfl, rfl, hcarries s.probeSeq⟩
        | some existing =>
            rw [hcached] at hrow hcarries
            obtain ⟨hsup, hrow⟩ := Option.ite_none_left_eq_some.mp hrow
            obtain ⟨path', hpath, rfl⟩ := Option.map_eq_some_iff.mp hrow
            have hup := htakes existing hcached (by simpa using hsup) (by simp [hpath])
            exact ⟨hup, rfl, (hcarries.2.1 hup).mono hcarries.1.le⟩
      obtain ⟨hup, hobserved, hsilent⟩ := hlive
      have hwritten : (s.draw.setRow peer row |>.record (.session peer s.probeSeq)).Inv := by
        refine h.draw.write (fun p hp => ⟨if_neg (Ne.symm hp), rfl⟩) ⟨?_, fun _ => ?_, ?_⟩ trivial
        · rw [hobserved]
          exact Nat.lt_succ_self _
        · rw [hobserved]
          refine hsilent.snoc fun ticket ht => ?_
          simp only [ReachCommit.evidence, if_true, Option.some.injEq] at ht
          exact ht.ge
        · simp [hup]
      exact hwritten.queue row .session

/-- Each step that records what arrives keeps it. -/
theorem step (h : s.Inv) {event : ReachEvent} (hrecords : s.Records event)
    (hstep : reachStep stored s event = some s') : s'.Inv := by
  cases moved_of_reachStep hstep with
  | @writer _ task next phase hnext hsound =>
      refine ⟨fun t => ?_, fun peer => (h.rows peer).mono hnext, h.pongs⟩
      by_cases ht : t = task
      · subst ht
        simpa using hsound (h.tasks t)
      · simpa [ht] using (h.tasks t).mono hnext
  | commit htask =>
      refine (h.committed htask fun harrived => ?_).setTask trivial
      obtain ⟨arrived, rfl⟩ := Option.isSome_iff_exists.mp harrived
      simpa only [Reachability.Records, htask] using hrecords
  | observe htask =>
      refine (h.observed ?_).setTask trivial
      simpa only [Reachability.Records, htask] using hrecords
  | announce hframe => exact ⟨h.tasks, h.rows, h.pongs⟩
  | subscribe hnone => exact ⟨h.tasks, h.rows, h.pongs⟩
  | snapshot hsub => exact ⟨h.tasks, h.rows, h.pongs⟩

/-- Where it is kept no timeout hides an answer. -/
theorem evidenceKept (h : s.Inv) : s.EvidenceKept where
  down peer row hrow hdown := by
    have hcarries := h.rows peer
    rw [hrow] at hcarries
    exact ⟨row.seq, hcarries.2.2 hdown⟩
  pongs := h.pongs

end Reachability.Inv

theorem Reachability.inv_start : Reachability.start.Inv where
  tasks _ := trivial
  rows _ _ _ hc := absurd hc List.not_mem_nil
  pongs before commit after h := by simp [Reachability.start] at h

end Invariant

/-- **No timeout overrides an answer** in a run whose every commit leaves the
row with the latest ticket. -/
theorem timeouts_respect_answers (stored : StoredPeers) (events : List ReachEvent)
    (s : Reachability) (hrecords : Guarded (reachStep stored) Reachability.Records .start events)
    (hrun : run (reachStep stored) .start events = some s) : s.EvidenceKept := by
  have hinv : s.Inv :=
    hrecords.invariant (fun _ _ _ hQ hI hstep => hI.step hQ hstep) Reachability.inv_start hrun
  exact hinv.evidenceKept

namespace OverlappingProbes

def bob : EndpointId := .replicate 32 7

def pong : Pong := { metadata := "", services := ["notes"], rttMs := 12 }

/-- A probe is answered while another, which started later, times out. -/
def answered : List ReachEvent :=
  [.probe 0 bob, .probe 1 bob, .pong 0 pong, .stamp 0 .direct 100, .commit 0, .fail 1,
    .stamp 1 .unknown 103, .commit 1]

/-- The pong of the probe that started second is stamped first and committed
last: it takes the row's ticket back behind the start of the third. -/
def overtaken : List ReachEvent :=
  [.probe 0 bob, .probe 1 bob, .pong 1 pong, .stamp 1 .direct 100, .probe 2 bob, .pong 0 pong,
    .stamp 0 .direct 101, .commit 0, .commit 1, .fail 2, .stamp 2 .unknown 104, .commit 2]

end OverlappingProbes

open OverlappingProbes in
theorem timeouts_respect_answers_example :
    ∃ s, run (reachStep [(bob, "bob")]) .start answered = some s ∧
      (s.cache bob).any ReachEntry.reachable = true ∧ s.EvidenceKept := by
  have hend : (run (reachStep [(bob, "bob")]) .start answered).any
      (fun s => (s.cache bob).any ReachEntry.reachable) = true := by decide +kernel
  obtain ⟨s, hrun, hup⟩ := (Option.any_eq_true ..).mp hend
  have hrecords : Guarded (reachStep [(bob, "bob")]) Reachability.Records .start answered := by
    decide +kernel
  exact ⟨s, hrun, hup, timeouts_respect_answers [(bob, "bob")] answered s hrecords hrun⟩

open OverlappingProbes in
theorem pong_hidden_from_timeout :
    ∃ s, run (reachStep [(bob, "bob")]) .start overtaken = some s ∧ ¬ s.EvidenceKept := by
  -- the timeout of the third probe, ticket 3, is written over the pong at ticket 4
  have hend : (run (reachStep [(bob, "bob")]) .start overtaken).any (fun s =>
      (s.cache bob).any (fun row => !row.reachable) &&
        lastWord (ReachCommit.wrote bob) s.log == some 3 &&
        s.log.any fun c => c.evidence bob == some 4) = true := by
    decide +kernel
  obtain ⟨s, hrun, hs⟩ := (Option.any_eq_true ..).mp hend
  simp only [Bool.and_eq_true, Option.any_eq_true, Bool.not_eq_true', beq_iff_eq,
    List.any_eq_true] at hs
  obtain ⟨⟨⟨row, hrow, hdown⟩, hwrote⟩, c, hc, hevidence⟩ := hs
  refine ⟨s, hrun, fun h => ?_⟩
  obtain ⟨start, hstart, hsilent⟩ := h.down bob row hrow hdown
  rw [hwrote, Option.some.injEq] at hstart
  have hle : 4 ≤ start := hsilent c hc 4 hevidence
  omega

end Mcpmesh
