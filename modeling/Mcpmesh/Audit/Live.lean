import Mcpmesh.Lib.AssocMap
import Mcpmesh.Lib.Brackets
import Mcpmesh.Lib.Run

/-!
# Mcpmesh.Audit.Live

The sessions that a subscriber sees (`node/src/audit/log.rs`,
`run_subscription` of `node/src/control.rs`).

A session announces that it opens and then enters its row in the live table; at
its end it removes the row and then announces that it closed.  A subscription
registers its receiver and then reads the table.
-/

namespace Mcpmesh

open Lib

/-! ## the log -/

/-- A row of the live table. -/
structure ActiveSession where
  peer : String
  service : String
  openedAt : Int
  principal : Option String
  deriving DecidableEq

/-- How far the guard of a session has got. -/
inductive SessionStage where
  | started
  | announced
  | live
  | removed
  | closed
  deriving DecidableEq

/-- `AuditLog`, of which `ring` is all that the broadcast channel ever carried:
`session_open` and `session_close` with the peer, the service and the principal
of a session, for which its id stands here.

`sessions` are the guards, under the ids that `seq` gave them; `receiver` is the
place in the ring where the subscriber joined, and `snapshot` what it read. -/
structure AuditLog where
  ring : List (Mark Nat)
  live : AList fun _ : Nat => ActiveSession
  sessions : List (ActiveSession × SessionStage)
  receiver : Option Nat
  snapshot : Option (List (Nat × ActiveSession))

inductive SessionEvent where
  /-- `seq.fetch_add` -/
  | start (session : ActiveSession)
  | announce (id : Nat)
  | insert (id : Nat)
  | remove (id : Nat)
  | close (id : Nat)
  | subscribe
  | snapshot
  deriving DecidableEq

namespace AuditLog

def spawn : AuditLog :=
  { ring := [], live := ∅, sessions := [], receiver := none, snapshot := none }

variable (s : AuditLog)

/-- `active_sessions`: sorted by the time they opened. -/
def activeSessions : List (Nat × ActiveSession) :=
  (s.live.entries.map fun e => (e.1, e.2)).mergeSort fun a b => a.2.openedAt ≤ b.2.openedAt

/-- One step; one that cannot be taken leaves the log as it is. -/
def next : SessionEvent → AuditLog
  | .start session => { s with sessions := s.sessions ++ [(session, .started)] }
  | .announce id =>
      match s.sessions[id]? with
      | some (session, .started) =>
          { s with
            ring := s.ring ++ [.opened id]
            sessions := s.sessions.set id (session, .announced) }
      | _ => s
  | .insert id =>
      match s.sessions[id]? with
      | some (session, .announced) =>
          { s with
            live := s.live.insert id session
            sessions := s.sessions.set id (session, .live) }
      | _ => s
  | .remove id =>
      match s.sessions[id]? with
      | some (session, .live) =>
          { s with
            live := s.live.erase id
            sessions := s.sessions.set id (session, .removed) }
      | _ => s
  | .close id =>
      match s.sessions[id]? with
      | some (session, .removed) =>
          { s with
            ring := s.ring ++ [.closed id]
            sessions := s.sessions.set id (session, .closed) }
      | _ => s
  | .subscribe =>
      match s.receiver with
      | none => { s with receiver := some s.ring.length }
      | some _ => s
  | .snapshot =>
      match s.receiver, s.snapshot with
      | some _, none => { s with snapshot := some s.activeSessions }
      | _, _ => s

def step (s : AuditLog) (event : SessionEvent) : AuditLog × Unit := (s.next event, ())

/-! ## the law -/

/-- What the subscriber sees is complete: every live row is in its snapshot or
was announced to it, and so was, before it closed, every session that it hears
closed. -/
def Complete (s : AuditLog) : Prop :=
  ∀ pos snapshot, s.receiver = some pos → s.snapshot = some snapshot →
    (∀ id ∈ s.live, id ∈ snapshot.map Prod.fst ∨ .opened id ∈ s.ring.drop pos) ∧
      Explained (snapshot.map Prod.fst) (s.ring.drop pos)

/-- Every session that was announced before the receiver was registered, and
whose close was not, has its row in the table. -/
def Settled (s : AuditLog) : Prop :=
  ∀ pos, s.receiver = some pos → ∀ id, .opened id ∈ s.ring.take pos →
    .closed id ∉ s.ring.take pos → id ∈ s.live

/-! ## the books -/

def stage (id : Nat) : SessionStage := (s.sessions[id]?.map Prod.snd).getD .started

/-- The stage of a session says what is in the ring and in the table. -/
structure Books (s : AuditLog) : Prop where
  opened : ∀ id, .opened id ∈ s.ring ↔ s.stage id ≠ .started
  closed : ∀ id, .closed id ∈ s.ring ↔ s.stage id = .closed
  live : ∀ id, id ∈ s.live ↔ s.stage id = .live
  ring : Bracketed s.ring
  receiver : ∀ pos, s.receiver = some pos → pos ≤ s.ring.length

variable {s : AuditLog} {id : Nat}

/-- The books of a fresh log are in order. -/
theorem books_spawn : spawn.Books where
  opened id := by simp [spawn, stage]
  closed id := by simp [spawn, stage]
  live id := by simp [spawn, stage]
  ring := bracketed_nil
  receiver pos h := by simp [spawn] at h

/-- The stage of a session the map holds. -/
theorem stage_of_get {session : ActiveSession} {stage : SessionStage}
    (h : s.sessions[id]? = some (session, stage)) : s.stage id = stage := by
  simp [AuditLog.stage, h]

/-- What the books say of a session at its stage. -/
theorem Books.at_stage (h : s.Books) {session : ActiveSession} {stage : SessionStage}
    (hget : s.sessions[id]? = some (session, stage)) :
    (.opened id ∈ s.ring ↔ stage ≠ .started) ∧ (.closed id ∈ s.ring ↔ stage = .closed) ∧
      (id ∈ s.live ↔ stage = .live) := by
  rw [← stage_of_get hget]
  exact ⟨h.opened id, h.closed id, h.live id⟩

/-- One session moves on. -/
theorem Books.move (h : s.Books) {session : ActiveSession} {old new : SessionStage}
    {ring : List (Mark Nat)} {live : AList fun _ : Nat => ActiveSession}
    (hget : s.sessions[id]? = some (session, old))
    (hopened : ∀ id', .opened id' ∈ ring ↔
      if id' = id then new ≠ .started else .opened id' ∈ s.ring)
    (hclosed : ∀ id', .closed id' ∈ ring ↔
      if id' = id then new = .closed else .closed id' ∈ s.ring)
    (hlive : ∀ id', id' ∈ live ↔ if id' = id then new = .live else id' ∈ s.live)
    (hring : Bracketed ring) (hlength : s.ring.length ≤ ring.length) :
    ({ s with ring, live, sessions := s.sessions.set id (session, new) } : AuditLog).Books := by
  have hlt : id < s.sessions.length := (List.getElem?_eq_some_iff.mp hget).1
  have hstage : ∀ id', ({ s with ring, live, sessions := s.sessions.set id (session, new) } :
      AuditLog).stage id' = if id' = id then new else s.stage id' := by
    intro id'
    by_cases hid : id' = id
    · simp [stage, hid, hlt]
    · rw [stage, List.getElem?_set_ne (Ne.symm hid), if_neg hid, stage]
  constructor
  · intro id'
    rw [hstage, hopened]
    split
    · rfl
    · exact h.opened id'
  · intro id'
    rw [hstage, hclosed]
    split
    · rfl
    · exact h.closed id'
  · intro id'
    rw [hstage, hlive]
    split
    · rfl
    · exact h.live id'
  · exact hring
  · exact fun pos hpos => (h.receiver pos hpos).trans hlength

/-- **Step lemma**: every step keeps the books. -/
theorem Books.step (h : s.Books) (event : SessionEvent) : (AuditLog.step s event).1.Books := by
  cases event with
  | start session =>
      have hstage : ∀ id, ({ s with sessions := s.sessions ++ [(session, .started)] } :
          AuditLog).stage id = s.stage id := by
        intro id
        simp only [stage, List.getElem?_append]
        split
        · rfl
        · next hge =>
          rw [List.getElem?_eq_none (Nat.le_of_not_lt hge)]
          cases id - s.sessions.length <;> rfl
      exact ⟨fun id => hstage id ▸ h.opened id, fun id => hstage id ▸ h.closed id,
        fun id => hstage id ▸ h.live id, h.ring, h.receiver⟩
  | announce id =>
      simp only [AuditLog.step, next]
      split
      · next session hget =>
        obtain ⟨hopened, hclosed, hlive⟩ := h.at_stage hget
        simp only [ne_eq, not_true_eq_false, reduceCtorEq, iff_false]
          at hopened hclosed hlive
        refine h.move hget (fun id' => ?_) (fun id' => ?_) (fun id' => ?_)
          (h.ring.snoc hopened nofun) (by simp)
        · by_cases hid : id' = id <;> simp [hid]
        · by_cases hid : id' = id <;> simp [hid, hclosed]
        · by_cases hid : id' = id <;> simp [hid, hlive]
      · exact h
  | insert id =>
      simp only [AuditLog.step, next]
      split
      · next session hget =>
        obtain ⟨hopened, hclosed, -⟩ := h.at_stage hget
        simp only [ne_eq, reduceCtorEq, not_false_eq_true, iff_true, iff_false]
          at hopened hclosed
        refine h.move hget (fun id' => ?_) (fun id' => ?_) (fun id' => ?_) h.ring le_rfl
        · by_cases hid : id' = id <;> simp [hid, hopened]
        · by_cases hid : id' = id <;> simp [hid, hclosed]
        · by_cases hid : id' = id <;> simp [hid]
      · exact h
  | remove id =>
      simp only [AuditLog.step, next]
      split
      · next session hget =>
        obtain ⟨hopened, hclosed, -⟩ := h.at_stage hget
        simp only [ne_eq, reduceCtorEq, not_false_eq_true, iff_true, iff_false]
          at hopened hclosed
        refine h.move hget (fun id' => ?_) (fun id' => ?_) (fun id' => ?_) h.ring le_rfl
        · by_cases hid : id' = id <;> simp [hid, hopened]
        · by_cases hid : id' = id <;> simp [hid, hclosed]
        · by_cases hid : id' = id <;> simp [hid]
      · exact h
  | close id =>
      simp only [AuditLog.step, next]
      split
      · next session hget =>
        obtain ⟨hopened, hclosed, hlive⟩ := h.at_stage hget
        simp only [ne_eq, reduceCtorEq, not_false_eq_true, iff_true, iff_false]
          at hopened hclosed hlive
        refine h.move hget (fun id' => ?_) (fun id' => ?_) (fun id' => ?_)
          (h.ring.snoc hclosed fun k hk => Mark.closed.inj hk ▸ hopened) (by simp)
        · by_cases hid : id' = id <;> simp [hid, hopened]
        · by_cases hid : id' = id <;> simp [hid]
        · by_cases hid : id' = id <;> simp [hid, hlive]
      · exact h
  | subscribe =>
      simp only [AuditLog.step, next]
      split
      · exact { h with receiver := fun pos hpos => by simp_all }
      · exact h
  | snapshot =>
      simp only [AuditLog.step, next]
      split
      · exact ⟨h.opened, h.closed, h.live, h.ring, h.receiver⟩
      · exact h

/-- The books stay in order over any run. -/
theorem books_final (events : List SessionEvent) : (final AuditLog.step spawn events).Books :=
  final_invariant (fun _ event _ h => h.step event) books_spawn

/-! ## what a subscriber sees -/

/-- What the view shows is what is live. -/
theorem mem_activeSessions : id ∈ s.activeSessions.map Prod.fst ↔ id ∈ s.live := by
  simp [activeSessions, AList.mem_keys, AList.keys, List.keys]

/-- A session past its start is in the map. -/
theorem get_of_stage {stage : SessionStage} (h : s.stage id = stage) (hne : stage ≠ .started) :
    ∃ session, s.sessions[id]? = some (session, stage) := by
  simp only [AuditLog.stage] at h
  cases hget : s.sessions[id]? with
  | none => simp [hget, hne.symm] at h
  | some entry =>
      rw [hget, Option.map_some, Option.getD_some] at h
      exact ⟨entry.1, by rw [← h]⟩

/-- The view is complete where the snapshot has each session that was announced
before the receiver, and is live or was closed since. -/
theorem Books.complete_iff {pos : Nat} {snapshot : List (Nat × ActiveSession)} (h : s.Books)
    (hreceiver : s.receiver = some pos) (hsnapshot : s.snapshot = some snapshot) :
    s.Complete ↔ ∀ id, .opened id ∈ s.ring.take pos →
      (id ∈ s.live ∨ .closed id ∈ s.ring.drop pos) → id ∈ snapshot.map Prod.fst := by
  have hcomplete : s.Complete ↔
      (∀ id ∈ s.live, id ∈ snapshot.map Prod.fst ∨ .opened id ∈ s.ring.drop pos) ∧
        Explained (snapshot.map Prod.fst) (s.ring.drop pos) := by
    simp [Complete, hreceiver, hsnapshot]
  rw [hcomplete, h.ring.explained_drop_iff]
  constructor
  · rintro ⟨hrows, hcloses⟩ id hopened (hlive | hclosed)
    · obtain hmem | hlater := hrows id hlive
      · exact hmem
      · exact absurd hlater (h.ring.not_mem_drop hopened)
    · exact hcloses id hopened hclosed
  · intro hseen
    refine ⟨fun id hlive => ?_, fun id hopened hclosed => hseen id hopened (.inr hclosed)⟩
    have hring : .opened id ∈ s.ring := (h.opened id).mpr (by simp [(h.live id).mp hlive])
    obtain htake | hdrop := mem_take_or_mem_drop.mpr hring
    · exact .inl (hseen id htake (.inl hlive))
    · exact .inr hdrop

/-- After the snapshot only the ring, the table and the guards move. -/
structure Later (s s' : AuditLog) : Prop where
  receiver : s'.receiver = s.receiver
  snapshot : s'.snapshot = s.snapshot
  ring : s.ring <+: s'.ring

/-- One more event, and what the subscriber was told is still all of it. -/
theorem later_next {pos : Nat} {snapshot : List (Nat × ActiveSession)}
    (hreceiver : s.receiver = some pos) (hsnapshot : s.snapshot = some snapshot)
    (event : SessionEvent) : s.Later (s.next event) := by
  cases event with
  | start session => exact ⟨rfl, rfl, List.prefix_rfl⟩
  | subscribe | snapshot =>
      simp only [next, hreceiver, hsnapshot]
      exact ⟨rfl, rfl, List.prefix_rfl⟩
  | announce id | insert id | remove id | close id =>
      simp only [next]
      split
      · exact ⟨rfl, rfl, by simp⟩
      · exact ⟨rfl, rfl, List.prefix_rfl⟩

/-- Whatever comes after, what the subscriber was told is all of it. -/
theorem later_final {pos : Nat} {snapshot : List (Nat × ActiveSession)}
    (hreceiver : s.receiver = some pos) (hsnapshot : s.snapshot = some snapshot)
    (events : List SessionEvent) : s.Later (final AuditLog.step s events) := by
  refine final_invariant (fun s' event _ h => ?_) ⟨rfl, rfl, List.prefix_rfl⟩
  have hnext := later_next (h.receiver.trans hreceiver) (h.snapshot.trans hsnapshot) event
  exact ⟨hnext.receiver.trans h.receiver, hnext.snapshot.trans h.snapshot,
    h.ring.trans hnext.ring⟩

/-- The log that a snapshot leaves. -/
def snapshotted (s : AuditLog) : AuditLog := { s with snapshot := some s.activeSessions }

/-- A snapshot moves nothing in the books. -/
theorem Books.snapshotted (h : s.Books) : s.snapshotted.Books :=
  ⟨h.opened, h.closed, h.live, h.ring, h.receiver⟩

/-- A snapshot of a settled log is never missing a session. -/
theorem complete_of_settled {pos : Nat} (h : s.Books) (hreceiver : s.receiver = some pos)
    (hsettled : s.Settled) (more : List SessionEvent) :
    (final AuditLog.step s.snapshotted more).Complete := by
  have hbooks : (final AuditLog.step s.snapshotted more).Books :=
    final_invariant (fun _ event _ h => h.step event) h.snapshotted
  have hlater := later_final (s := s.snapshotted) hreceiver rfl more
  obtain ⟨extra, hring⟩ := hlater.ring
  have htake : (final AuditLog.step s.snapshotted more).ring.take pos = s.ring.take pos := by
    rw [← hring]
    exact List.take_append_of_le_length (h.receiver pos hreceiver)
  rw [hbooks.complete_iff (hlater.receiver.trans hreceiver) hlater.snapshot]
  intro id hopened hseen
  have hunclosed : .closed id ∉ s.ring.take pos := by
    rw [← htake]
    intro hclosed
    obtain hlive | hdrop := hseen
    · have hmem := (hbooks.closed id).mp (List.mem_of_mem_take hclosed)
      rw [(hbooks.live id).mp hlive] at hmem
      contradiction
    · exact hbooks.ring.not_mem_drop hclosed hdrop
  exact mem_activeSessions.mpr (hsettled pos hreceiver id (htake ▸ hopened) hunclosed)

/-- A snapshot of a log that is not settled can miss a session. -/
theorem settled_of_complete (h : s.Books)
    (hcomplete : ∀ more, (final AuditLog.step s.snapshotted more).Complete) : s.Settled := by
  intro pos hreceiver id hopened hunclosed
  by_contra habsent
  have hmissing : ∀ more, (final AuditLog.step s.snapshotted more).Books →
      .opened id ∈ (final AuditLog.step s.snapshotted more).ring.take pos →
      (id ∈ (final AuditLog.step s.snapshotted more).live ∨
        .closed id ∈ (final AuditLog.step s.snapshotted more).ring.drop pos) → False := by
    intro more hbooks hopened hseen
    have hlater := later_final (s := s.snapshotted) hreceiver rfl more
    have hiff := hbooks.complete_iff (hlater.receiver.trans hreceiver) hlater.snapshot
    exact habsent (mem_activeSessions.mp (hiff.mp (hcomplete more) id hopened hseen))
  have hlength : pos ≤ s.ring.length := h.receiver pos hreceiver
  cases hstage : s.stage id with
  | started => exact (h.opened id).mp (List.mem_of_mem_take hopened) hstage
  | live => exact habsent ((h.live id).mpr hstage)
  | announced =>
      -- its row enters the table after the snapshot
      obtain ⟨session, hget⟩ := get_of_stage hstage nofun
      have hnext : final AuditLog.step s.snapshotted [.insert id] =
          { s.snapshotted with
            live := s.live.insert id session
            sessions := s.sessions.set id (session, .live) } := by
        simp [final, AuditLog.step, next, snapshotted, hget]
      refine hmissing [.insert id] (h.snapshotted.step _) ?_ (.inl ?_)
      · rw [hnext]
        exact hopened
      · rw [hnext]
        simp
  | removed =>
      -- it is heard to close
      obtain ⟨session, hget⟩ := get_of_stage hstage nofun
      have hnext : final AuditLog.step s.snapshotted [.close id] =
          { s.snapshotted with
            ring := s.ring ++ [.closed id]
            sessions := s.sessions.set id (session, .closed) } := by
        simp [final, AuditLog.step, next, snapshotted, hget]
      refine hmissing [.close id] (h.snapshotted.step _) ?_ (.inr ?_)
      · rw [hnext, List.take_append_of_le_length hlength]
        exact hopened
      · rw [hnext, List.drop_append_of_le_length hlength]
        simp
  | closed =>
      -- it was heard to close between the registration and the snapshot
      have hclosed := (mem_take_or_mem_drop (n := pos)).mpr ((h.closed id).mpr hstage)
      exact hmissing [] h.snapshotted hopened (.inr (hclosed.resolve_left hunclosed))

end AuditLog

/-- **The view of a subscriber**: it is complete, whatever follows the snapshot,
exactly when the snapshot finds the row of every session that was announced, and
not closed, before the receiver was registered. -/
theorem session_view_complete_iff (events : List SessionEvent)
    (hreceiver : (final AuditLog.step .spawn events).receiver.isSome = true)
    (hsnapshot : (final AuditLog.step .spawn events).snapshot = none) :
    (∀ more, (final AuditLog.step .spawn (events ++ .snapshot :: more)).Complete) ↔
      (final AuditLog.step .spawn events).Settled := by
  obtain ⟨pos, hpos⟩ := Option.isSome_iff_exists.mp hreceiver
  have hbooks := AuditLog.books_final events
  have hnext : (AuditLog.step (final AuditLog.step .spawn events) .snapshot).1 =
      (final AuditLog.step .spawn events).snapshotted := by
    simp [AuditLog.step, AuditLog.next, AuditLog.snapshotted, hpos, hsnapshot]
  simp only [final_append, final_cons, hnext]
  exact ⟨AuditLog.settled_of_complete hbooks, AuditLog.complete_of_settled hbooks hpos⟩

namespace BobsSession

def bob : ActiveSession := ⟨"bob", "notes", 1720000000, some "b64u:BOB"⟩

/-- One session has its row, and one is announced after the receiver. -/
def joined : List SessionEvent :=
  [.start bob, .announce 0, .insert 0, .start bob, .subscribe, .announce 1]

/-- The receiver comes after the announcement, and the snapshot before the row. -/
def missed : List SessionEvent :=
  [.start bob, .announce 0, .subscribe, .snapshot, .insert 0]

end BobsSession

open BobsSession in
theorem session_view_complete_iff_example :
    (final AuditLog.step .spawn joined).receiver = some 1 ∧
      ∀ more, (final AuditLog.step .spawn (joined ++ .snapshot :: more)).Complete := by
  have hearlier : (final AuditLog.step .spawn joined).ring.take 1 = [.opened 0] := by
    decide +kernel
  have hsettled : (final AuditLog.step .spawn joined).Settled := by
    intro pos hpos id hopened _
    obtain rfl : 1 = pos := Option.some.inj hpos
    obtain rfl : id = 0 := by simpa [hearlier] using hopened
    decide +kernel
  exact ⟨rfl, (session_view_complete_iff joined rfl rfl).mpr hsettled⟩

open BobsSession in
/-- A session goes on that the subscriber never hears of. -/
theorem snapshot_misses_session : ¬ (final AuditLog.step .spawn missed).Complete := by
  intro hcomplete
  have hsnapshot : (final AuditLog.step .spawn missed).snapshot = some [] := by decide +kernel
  obtain hrow | hread := (hcomplete 1 [] rfl hsnapshot).1 0 (by decide +kernel)
  · contradiction
  · exact absurd hread (by decide +kernel)

end Mcpmesh
