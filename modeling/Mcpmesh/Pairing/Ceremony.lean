import Mathlib.Logic.Function.Basic
import Mcpmesh.Lib.Run
import Mcpmesh.Pairing.Instance

/-!
# Mcpmesh.Pairing.Ceremony

Redemptions that race (`handle_inviter_side`, `node/src/pairing/rendezvous.rs`).

`Pairing.Rows` takes an inviter's side in one piece.  The code gives way between
its transactions, so here a ceremony is cut where others may come between: the
peeks with the read of its row, the list of the pre-check, the burn, the record
of the burn, the second read, the second list, the revocation check and the row
write.  Ceremonies are by different endpoints, one at a time for each.

A ghost `log` has the rows written so far, and a ceremony remembers how long it
was when the authoritative collision check read the store.
-/

namespace Mcpmesh

open Lib

/-! ## ceremonies -/

/-- Where a ceremony is.  `since` is the number of rows that were written when
the collision check was made. -/
inductive Phase where
  | hello
  | prechecking (alias? : Option String) (existing : Option PeerEntry)
  | unburned
  | burning (outcome : Redeem)
  | redeemed (invite : Invite)
  | rechecking (invite : Invite) (existing : Option PeerEntry)
  | checked (invite : Invite) (existing : Option PeerEntry) (since : Nat)
  | granted (invite : Invite) (existing : Option PeerEntry) (observed : Option String)
      (since : Nat)
  | done

/-- A ceremony with the endpoint that TLS authenticated. -/
structure Ceremony (eid : EndpointId) where
  hello : Hello
  tls : hello.tlsId = eid
  secret : Secret
  now : Nat
  phase : Phase

/-- The inviter's node: its pair rows, its invites with the holder of their
`writes` lock, and the ceremonies. -/
structure Inviter where
  db : PairDb
  invites : InviteMap
  writing : Option EndpointId
  ceremonies : (eid : EndpointId) → Option (Ceremony eid)
  log : List PeerEntry

/-- A node on which no ceremony has begun. -/
def Inviter.start (db : PairDb) (invites : InviteMap) : Inviter :=
  { db, invites, writing := none, ceremonies := fun _ => none, log := [] }

/-- A step of the ceremony of an endpoint; `stored` is the outcome of a write. -/
inductive CeremonyEvent where
  | hello (hello : Hello) (secret : Secret) (now : Nat)
  | peek (eid : EndpointId)
  | precheck (eid : EndpointId)
  | tryRedeem (eid : EndpointId)
  | recorded (eid : EndpointId) (stored : Bool)
  | resolve (eid : EndpointId)
  | recheck (eid : EndpointId)
  | revocation (eid : EndpointId) (observed : Option String)
  | write (eid : EndpointId) (stored : Bool)

/-- The live invite of a secret. -/
def peekLive (invites : InviteMap) (secret : Secret) (now : Nat) : Option Invite :=
  (invites.lookup secret).filter fun inv => now ≤ inv.expiresAtEpoch

def peekLiveAlias (invites : InviteMap) (secret : Secret) (now : Nat) : Option (Option String) :=
  (peekLive invites secret now).map (·.peerNickname)

def peekIsSelf (invites : InviteMap) (secret : Secret) (now : Nat) : Bool :=
  (peekLive invites secret now).any (·.asSelf)

namespace Ceremony

variable {eid : EndpointId} (c : Ceremony eid)

/-- The name the inviter would store for a new peer. -/
def claimed (alias? : Option String) : String :=
  effectiveRedeemerNickname alias? c.hello.redeemerNickname

def side (invite : Invite) (observed : Option String) : InviterSide :=
  { invite, hello := c.hello, observed, now := toString c.now }

/-- The row the ceremony writes. -/
def entry (P : Primitives) (invite : Invite) (existing : Option PeerEntry)
    (observed : Option String) : PeerEntry :=
  inviterEntry P (c.side invite observed) existing

end Ceremony

/-! ## steps -/

section Steps

variable (P : Primitives) (J : PeerJson)

namespace Inviter

/-- The ceremony of `eid` goes on to `phase`. -/
def goto (s : Inviter) {eid : EndpointId} (c : Ceremony eid) (phase : Phase) : Inviter :=
  { s with ceremonies := Function.update s.ceremonies eid (some { c with phase }) }

/-- No ceremony of the endpoint is under way. -/
def idle (s : Inviter) (eid : EndpointId) : Bool :=
  match s.ceremonies eid with
  | none => true
  | some c =>
      match c.phase with
      | .done => true
      | _ => false

/-- The row is put, and the ceremony is over. -/
def paired (s : Inviter) {eid : EndpointId} (c : Ceremony eid) (entry : PeerEntry) : Inviter :=
  { s.goto c .done with db := s.db.add J entry, log := s.log ++ [entry] }

end Inviter

/-- One step of a ceremony that is under way; `none` where it cannot be taken.
A ceremony that refuses, or whose write fails, is over. -/
def ceremonyStepAt (s : Inviter) {eid : EndpointId} (c : Ceremony eid) :
    Phase → CeremonyEvent → Option Inviter
  -- a self-enrollment stores no name, and a secret that is not live learns nothing
  | .hello, .peek _ =>
      if peekIsSelf s.invites c.secret c.now then some (s.goto c .unburned)
      else
        match peekLiveAlias s.invites c.secret c.now with
        | none => some (s.goto c .unburned)
        | some alias? => some (s.goto c (.prechecking alias? (s.db.resolve J eid)))
  | .prechecking alias? existing, .precheck _ =>
      if existing.isNone && nicknameTaken J s.db (c.claimed alias?) eid then some (s.goto c .done)
      else some (s.goto c .unburned)
  | .unburned, .tryRedeem _ =>
      if s.writing.isSome then none
      else
        match redeemUnderLock s.invites c.secret c.now with
        | none => some (s.goto c .done)
        | some (outcome, invites) =>
            some { s.goto c (.burning outcome) with invites, writing := some eid }
  | .burning outcome, .recorded _ stored =>
      match outcome, stored with
      | .ok invite, true =>
          -- a self-enrollment ends in its own arm and writes no row
          if invite.asSelf then some { s.goto c .done with writing := none }
          else some { s.goto c (.redeemed invite) with writing := none }
      | .ok invite, false =>
          let restored := { invite with usesRemaining := invite.usesRemaining + 1 }
          some { s.goto c .done with invites := s.invites.insert restored, writing := none }
      | _, _ => some { s.goto c .done with writing := none }
  | .redeemed invite, .resolve _ => some (s.goto c (.rechecking invite (s.db.resolve J eid)))
  | .rechecking invite existing, .recheck _ =>
      if existing.isNone && nicknameTaken J s.db (c.claimed invite.peerNickname) eid then
        some (s.goto c .done)
      else some (s.goto c (.checked invite existing s.log.length))
  | .checked invite existing since, .revocation _ observed =>
      if userRevoked J s.db (c.entry P invite existing observed).userId then some (s.goto c .done)
      else some (s.goto c (.granted invite existing observed since))
  | .granted invite existing observed _, .write _ stored =>
      if stored then some (s.paired J c (c.entry P invite existing observed))
      else some (s.goto c .done)
  | _, _ => none

/-- The endpoint whose ceremony takes the step. -/
def CeremonyEvent.eid : CeremonyEvent → EndpointId
  | .hello h _ _ => h.tlsId
  | .peek eid | .precheck eid | .tryRedeem eid | .recorded eid _ | .resolve eid | .recheck eid
  | .revocation eid _ | .write eid _ => eid

def ceremonyStep (s : Inviter) (e : CeremonyEvent) : Option Inviter :=
  match e with
  | .hello hello secret now =>
      if s.idle hello.tlsId then some (s.goto ⟨hello, rfl, secret, now, .hello⟩ .hello) else none
  | e =>
      match s.ceremonies e.eid with
      | none => none
      | some c => ceremonyStepAt P J s c c.phase e

/-! ## names -/

/-- No two endpoints share a name. -/
def NamesUnique (db : PairDb) : Prop :=
  ∀ e ∈ db.list J, ∀ e' ∈ db.list J, e.nickname = e'.nickname → e.endpointId = e'.endpointId

/-- Every row is stored under its own endpoint, as `PeerStore::add` puts it. -/
def PairDb.WellKeyed (db : PairDb) : Prop :=
  ∀ r ∈ db.peers, ∀ e, J.fromSlice r.2 = .ok e → e.endpointId = r.1

/-- The ceremony's name was not written for another endpoint since its own
collision check. -/
def Ceremony.Unraced {eid : EndpointId} (c : Ceremony eid) (log : List PeerEntry) : Prop :=
  match c.phase with
  | .granted invite existing observed since => ∀ e ∈ log.drop since,
      e.nickname = (c.entry P invite existing observed).nickname → e.endpointId = eid
  | _ => True

/-- A row is written by a ceremony that was not raced to its name. -/
def Unraced (s : Inviter) : CeremonyEvent → Prop
  | .write eid true => ∀ c, s.ceremonies eid = some c → c.Unraced P s.log
  | _ => True

end Steps

/-! ## the store -/

section Store

variable {J : PeerJson} {db : PairDb} {entry e : PeerEntry} {eid : EndpointId}

/-- A row is listed if it can be read. -/
theorem PairDb.mem_list : e ∈ db.list J ↔ ∃ r ∈ db.peers, J.fromSlice r.2 = .ok e := by
  rw [PairDb.list, List.mem_filterMap]
  exact exists_congr fun r => and_congr_right fun _ => toOption_eq_some

/-- What resolves is listed. -/
theorem PairDb.mem_list_of_resolve (h : db.resolve J eid = some e) : e ∈ db.list J := by
  obtain ⟨raw, hrow, hraw⟩ := Option.bind_eq_some_iff.mp h
  refine List.mem_filterMap.mpr ⟨(eid, raw), mem_of_rowOf hrow, hraw⟩

/-- A row is of the endpoint it is kept under. -/
theorem PairDb.WellKeyed.endpointId_of_resolve (hkeyed : db.WellKeyed J)
    (h : db.resolve J eid = some e) : e.endpointId = eid := by
  obtain ⟨raw, hrow, hraw⟩ := Option.bind_eq_some_iff.mp h
  exact hkeyed (eid, raw) (mem_of_rowOf hrow) e (toOption_eq_some.mp hraw)

/-- A row that was added is listed. -/
theorem PairDb.mem_list_add_self : entry ∈ (db.add J entry).list J :=
  mem_list_of_resolve (resolve_add_self entry)

/-- A row of another endpoint stays listed. -/
theorem PairDb.mem_list_add_of_ne (hkeyed : db.WellKeyed J) (he : e ∈ db.list J)
    (hne : e.endpointId ≠ entry.endpointId) : e ∈ (db.add J entry).list J := by
  obtain ⟨r, hr, hread⟩ := mem_list.mp he
  have hkey : r.1 ≠ entry.endpointId := hkeyed r hr e hread ▸ hne
  exact mem_list.mpr ⟨r, mem_upsert_of_ne _ _ _ _ hr hkey, hread⟩

/-- What is listed after an add was listed before it, or was added. -/
theorem PairDb.mem_of_mem_list_add (he : e ∈ (db.add J entry).list J) :
    e = entry ∨ e ∈ db.list J := by
  obtain ⟨r, hr, hread⟩ := mem_list.mp he
  obtain rfl | hr := mem_of_mem_upsert _ _ _ _ hr
  · rw [J.fromSlice_toVec] at hread
    exact .inl (Except.ok.inj hread).symm
  · exact .inr (mem_list.mpr ⟨r, hr, hread⟩)

/-- An add keeps each row under its endpoint. -/
theorem PairDb.WellKeyed.add (hkeyed : db.WellKeyed J) (entry : PeerEntry) :
    (db.add J entry).WellKeyed J := by
  intro r hr e hread
  obtain rfl | hr := mem_of_mem_upsert _ _ _ _ hr
  · rw [J.fromSlice_toVec] at hread
    rw [Except.ok.inj hread]
  · exact hkeyed r hr e hread

/-- A name is free for an endpoint if no other one has it. -/
theorem nicknameTaken_eq_false {nickname : String} :
    nicknameTaken J db nickname eid = false ↔
      ∀ e ∈ db.list J, e.nickname = nickname → e.endpointId = eid := by
  simp [nicknameTaken]

end Store

/-! ## what a step does -/

section Race

variable {P : Primitives} {J : PeerJson} {s s' : Inviter} {event : CeremonyEvent}

/-- What the collision check found is still so: the endpoint's own row, which no
other ceremony writes, and that nobody else holds the name, but for the rows
written since. -/
structure CheckedSince (J : PeerJson) (s : Inviter) (eid : EndpointId) (name : String)
    (existing : Option PeerEntry) (since : Nat) : Prop where
  read : existing = s.db.resolve J eid
  since_le : since ≤ s.log.length
  free : existing = none → ∀ e ∈ s.db.list J, e.nickname = name →
    e.endpointId = eid ∨ e ∈ s.log.drop since

/-- What a ceremony has read of the store is still so. -/
def Phase.Current (J : PeerJson) (s : Inviter) {eid : EndpointId} (c : Ceremony eid) :
    Phase → Prop
  | .rechecking _ existing => existing = s.db.resolve J eid
  | .checked invite existing since | .granted invite existing _ since =>
      CheckedSince J s eid (c.claimed invite.peerNickname) existing since
  | _ => True

/-- A step writes the row of one ceremony, or moves one on and leaves the rows. -/
inductive Proceeds (P : Primitives) (J : PeerJson) (s : Inviter) :
    CeremonyEvent → Inviter → Prop where
  | goto {eid : EndpointId} (c : Ceremony eid) (phase : Phase) (invites : InviteMap)
      (writing : Option EndpointId) (event : CeremonyEvent)
      (hevent : ∀ eid, event ≠ .write eid true)
      (hcurrent : (∀ c, s.ceremonies eid = some c → c.phase.Current J s c) → phase.Current J s c) :
      Proceeds P J s event { s.goto c phase with invites, writing }
  | paired {eid : EndpointId} (c : Ceremony eid) (invite : Invite) (existing : Option PeerEntry)
      (observed : Option String) (since : Nat) (hc : s.ceremonies eid = some c)
      (hphase : c.phase = .granted invite existing observed since) :
      Proceeds P J s (.write eid true) (s.paired J c (c.entry P invite existing observed))

/-- The shape of a step that leaves invites alone. -/
theorem Proceeds.here {eid : EndpointId} (c : Ceremony eid) (phase : Phase) (event : CeremonyEvent)
    (hevent : ∀ eid, event ≠ .write eid true)
    (hcurrent : (∀ c, s.ceremonies eid = some c → c.phase.Current J s c) → phase.Current J s c) :
    Proceeds P J s event (s.goto c phase) :=
  .goto c phase s.invites s.writing event hevent hcurrent

/-- A step of a ceremony does what is said of its phase. -/
theorem proceeds_of_ceremonyStepAt {eid : EndpointId} {c : Ceremony eid} {phase : Phase}
    (hc : s.ceremonies eid = some c) (hphase : c.phase = phase) (heid : event.eid = eid)
    (h : ceremonyStepAt P J s c phase event = some s') : Proceeds P J s event s' := by
  have hread : (∀ c, s.ceremonies eid = some c → c.phase.Current J s c) → phase.Current J s c :=
    fun hcurrent => hphase ▸ hcurrent c hc
  unfold ceremonyStepAt at h
  split at h
  · -- peek
    split at h
    · obtain rfl := Option.some.inj h
      exact .here c _ _ (by simp) fun _ => trivial
    · split at h
      · obtain rfl := Option.some.inj h
        exact .here c _ _ (by simp) fun _ => trivial
      · obtain rfl := Option.some.inj h
        exact .here c _ _ (by simp) fun _ => trivial
  · -- precheck
    split at h
    · obtain rfl := Option.some.inj h
      exact .here c _ _ (by simp) fun _ => trivial
    · obtain rfl := Option.some.inj h
      exact .here c _ _ (by simp) fun _ => trivial
  · -- tryRedeem
    split at h
    · contradiction
    · split at h
      · obtain rfl := Option.some.inj h
        exact .here c _ _ (by simp) fun _ => trivial
      · obtain rfl := Option.some.inj h
        exact .goto c _ _ _ _ (by simp) fun _ => trivial
  · -- recorded
    split at h
    · split at h
      · obtain rfl := Option.some.inj h
        exact .goto c _ _ _ _ (by simp) fun _ => trivial
      · obtain rfl := Option.some.inj h
        exact .goto c _ _ _ _ (by simp) fun _ => trivial
    · obtain rfl := Option.some.inj h
      exact .goto c _ _ _ _ (by simp) fun _ => trivial
    · obtain rfl := Option.some.inj h
      exact .goto c _ _ _ _ (by simp) fun _ => trivial
  · -- resolve
    obtain rfl := Option.some.inj h
    exact .here c _ _ (by simp) fun _ => rfl
  · -- recheck
    rename_i invite existing _
    split at h
    · obtain rfl := Option.some.inj h
      exact .here c _ _ (by simp) fun _ => trivial
    · next hfree =>
      obtain rfl := Option.some.inj h
      refine .here c _ _ (by simp) fun hcurrent => ⟨hread hcurrent, Nat.le_refl _, ?_⟩
      rintro rfl e he hname
      rw [Option.isNone_none, Bool.true_and, Bool.not_eq_true, nicknameTaken_eq_false] at hfree
      exact .inl (hfree e he hname)
  · -- revocation
    split at h
    · obtain rfl := Option.some.inj h
      exact .here c _ _ (by simp) fun _ => trivial
    · obtain rfl := Option.some.inj h
      exact .here c _ _ (by simp) hread
  · -- write
    split at h
    · next hstored =>
      obtain rfl := Option.some.inj h
      obtain rfl : _ = eid := heid
      rw [hstored]
      exact .paired c _ _ _ _ hc hphase
    · next hstored =>
      obtain rfl := Option.some.inj h
      exact .here c _ _ (by simp [hstored]) fun _ => trivial
  · contradiction

/-- A step does what is said of it. -/
theorem proceeds_of_ceremonyStep (h : ceremonyStep P J s event = some s') :
    Proceeds P J s event s' := by
  unfold ceremonyStep at h
  split at h
  · obtain ⟨-, hs'⟩ := Option.ite_none_right_eq_some.mp h
    obtain rfl := Option.some.inj hs'
    exact .here _ _ _ (by simp) fun _ => trivial
  · split at h
    · contradiction
    · next c hc => exact proceeds_of_ceremonyStepAt hc rfl rfl h

/-! ## a ceremony alone -/

@[simp] theorem Inviter.goto_ceremonies_self {eid : EndpointId} (c : Ceremony eid) (phase : Phase) :
    (s.goto c phase).ceremonies eid = some { c with phase } := Function.update_self ..

@[simp] theorem Inviter.goto_db {eid : EndpointId} (c : Ceremony eid) (phase : Phase) :
    (s.goto c phase).db = s.db := rfl

@[simp] theorem Ceremony.claimed_phase {eid : EndpointId} (c : Ceremony eid) (phase : Phase) :
    { c with phase }.claimed = c.claimed := rfl

@[simp] theorem Ceremony.entry_phase {eid : EndpointId} (c : Ceremony eid) (phase : Phase) :
    { c with phase }.entry P = c.entry P := rfl

/-- The steps after a redemption, with the row write. -/
def grantSteps (eid : EndpointId) (observed : Option String) : List CeremonyEvent :=
  [.resolve eid, .recheck eid, .revocation eid observed, .write eid true]

/-- Nobody in between, the steps are the inviter's side in one piece. -/
theorem handleInviterSide_of_alone {eid : EndpointId} {c : Ceremony eid} {invite : Invite}
    (hc : s.ceremonies eid = some c) (hphase : c.phase = .redeemed invite)
    (observed : Option String) :
    (run (ceremonyStep P J) s (grantSteps eid observed)).map (·.db) =
      handleInviterSide P J s.db (c.side invite observed) := by
  have htls : (c.side invite observed).hello.tlsId = eid := c.tls
  have hside : effectiveRedeemerNickname (c.side invite observed).invite.peerNickname
      (c.side invite observed).hello.redeemerNickname = c.claimed invite.peerNickname := rfl
  have hentry : inviterEntry P (c.side invite observed) (s.db.resolve J eid) =
      c.entry P invite (s.db.resolve J eid) observed := rfl
  rw [handleInviterSide, htls, hside, hentry]
  by_cases hcollides : ((s.db.resolve J eid).isNone &&
      nicknameTaken J s.db (c.claimed invite.peerNickname) eid) = true
  · rw [if_pos hcollides]
    simp only [grantSteps, run, ceremonyStep, CeremonyEvent.eid, ceremonyStepAt, hc, hphase,
      Option.bind_some, Inviter.goto_ceremonies_self, Inviter.goto_db, Ceremony.claimed_phase,
      hcollides, reduceIte, Option.bind_none, Option.map_none]
  · rw [if_neg hcollides]
    by_cases hrevoked :
        userRevoked J s.db (c.entry P invite (s.db.resolve J eid) observed).userId = true
    · rw [if_pos hrevoked]
      simp only [grantSteps, run, ceremonyStep, CeremonyEvent.eid, ceremonyStepAt, hc, hphase,
        Option.bind_some, Inviter.goto_ceremonies_self, Inviter.goto_db, Ceremony.claimed_phase,
        Ceremony.entry_phase, hcollides, hrevoked, Bool.false_eq_true, reduceIte,
        Option.bind_none, Option.map_none]
    · rw [if_neg hrevoked]
      simp only [grantSteps, run, ceremonyStep, CeremonyEvent.eid, ceremonyStepAt, hc, hphase,
        Option.bind_some, Inviter.goto_ceremonies_self, Inviter.goto_db, Ceremony.claimed_phase,
        Ceremony.entry_phase, hcollides, hrevoked, Bool.false_eq_true, reduceIte, Inviter.paired,
        Option.map_some]

/-! ## the race -/

/-- The invariant of a node whose names are unique so far. -/
structure Inviter.Inv (J : PeerJson) (s : Inviter) : Prop where
  unique : NamesUnique J s.db
  keyed : s.db.WellKeyed J
  current : ∀ eid (c : Ceremony eid), s.ceremonies eid = some c → c.phase.Current J s c
  /-- a name once written stays, whoever pairs again -/
  kept : ∀ e ∈ s.log, ∃ e', s.db.resolve J e.endpointId = some e' ∧ e'.nickname = e.nickname

/-- A node starts with no ceremony and nothing read. -/
theorem Inviter.inv_start {db : PairDb} {invites : InviteMap} (hunique : NamesUnique J db)
    (hkeyed : db.WellKeyed J) : (Inviter.start db invites).Inv J where
  unique := hunique
  keyed := hkeyed
  current _ _ h := nomatch h
  kept _ h := nomatch h

/-- What a ceremony knows does not depend on the other ceremonies. -/
theorem Phase.Current.congr {eid : EndpointId} {c c' : Ceremony eid} {phase : Phase}
    (h : phase.Current J s c) (hhello : c'.hello = c.hello) (hdb : s'.db = s.db)
    (hlog : s'.log = s.log) : phase.Current J s' c' := by
  have hchecked : ∀ {invite : Invite} {existing since},
      CheckedSince J s eid (c.claimed invite.peerNickname) existing since →
        CheckedSince J s' eid (c'.claimed invite.peerNickname) existing since := by
    intro invite existing since h
    have hclaimed : c'.claimed invite.peerNickname = c.claimed invite.peerNickname := by
      rw [Ceremony.claimed, hhello, Ceremony.claimed]
    rw [hclaimed]
    exact ⟨hdb ▸ h.read, hlog ▸ h.since_le, hdb ▸ hlog ▸ h.free⟩
  cases phase with
  | rechecking invite existing =>
      have hread : existing = s.db.resolve J eid := h
      exact hread.trans (by rw [hdb])
  | checked invite existing since => exact hchecked h
  | granted invite existing observed since => exact hchecked h
  | _ => trivial

/-- A ceremony goes on without a write where what it knows is current. -/
theorem Inviter.Inv.goto (h : s.Inv J) {eid : EndpointId} {c : Ceremony eid} {phase : Phase}
    (hphase : phase.Current J s c) (invites : InviteMap) (writing : Option EndpointId) :
    Inviter.Inv J { s.goto c phase with invites, writing } where
  unique := h.unique
  keyed := h.keyed
  current := by
    intro eid' c' hc'
    dsimp only [Inviter.goto] at hc'
    by_cases heid : eid' = eid
    · subst heid
      rw [Function.update_self] at hc'
      obtain rfl := Option.some.inj hc'
      exact hphase.congr rfl rfl rfl
    · rw [Function.update_of_ne heid] at hc'
      exact (h.current eid' c' hc').congr rfl rfl rfl
  kept := h.kept

section Write

variable {eid : EndpointId} {c : Ceremony eid} {invite : Invite} {existing : Option PeerEntry}
  {observed : Option String} {since : Nat}

@[simp] theorem Ceremony.entry_endpointId :
    (c.entry P invite existing observed).endpointId = eid := c.tls

/-- Another endpoint's write leaves what a check found: the new row is one of
those written since. -/
theorem CheckedSince.paired {eid' : EndpointId} {name : String} {existing' : Option PeerEntry}
    {since' : Nat} (h : CheckedSince J s eid' name existing' since') (hne : eid' ≠ eid) :
    CheckedSince J (s.paired J c (c.entry P invite existing observed)) eid' name existing'
      since' where
  read := h.read.trans (PairDb.resolve_add_of_ne (by simpa using hne)).symm
  since_le := by
    have hsince := h.since_le
    dsimp only [Inviter.paired]
    rw [List.length_append]
    omega
  free hnone e he hname := by
    dsimp only [Inviter.paired]
    rw [List.drop_append_of_le_length h.since_le, List.mem_append]
    obtain rfl | he := PairDb.mem_of_mem_list_add he
    · exact .inr (.inr List.mem_cons_self)
    · exact (h.free hnone e he hname).imp_right .inl

/-- A pairing of another endpoint leaves what a ceremony knows of its own. -/
theorem Phase.Current.paired {eid' : EndpointId} {c' : Ceremony eid'} {phase : Phase}
    (h : phase.Current J s c') (hne : eid' ≠ eid) :
    phase.Current J (s.paired J c (c.entry P invite existing observed)) c' := by
  cases phase with
  | rechecking invite' existing' =>
      have hread : existing' = s.db.resolve J eid' := h
      exact hread.trans (PairDb.resolve_add_of_ne (by simpa using hne)).symm
  | checked invite' existing' since' => exact CheckedSince.paired h hne
  | granted invite' existing' observed' since' => exact CheckedSince.paired h hne
  | _ => trivial

/-- A write that keeps the names unique keeps the invariant. -/
theorem Inviter.Inv.paired (h : s.Inv J) (hc : s.ceremonies eid = some c)
    (hphase : c.phase = .granted invite existing observed since)
    (hunique : NamesUnique J (s.db.add J (c.entry P invite existing observed))) :
    (s.paired J c (c.entry P invite existing observed)).Inv J where
  unique := hunique
  keyed := h.keyed.add _
  current := by
    intro eid' c' hc'
    dsimp only [Inviter.paired, Inviter.goto] at hc'
    by_cases heid : eid' = eid
    · subst heid
      rw [Function.update_self] at hc'
      obtain rfl := Option.some.inj hc'
      trivial
    · rw [Function.update_of_ne heid] at hc'
      exact (h.current eid' c' hc').paired heid
  kept := by
    have hcurrent := h.current eid c hc
    rw [hphase] at hcurrent
    have hread : existing = s.db.resolve J eid := hcurrent.1
    intro e he
    obtain he | he := List.mem_append.mp he
    · obtain ⟨e', hresolve, hname⟩ := h.kept e he
      by_cases heid : e.endpointId = eid
      · -- the endpoint pairs again under the name it has
        rw [heid] at hresolve ⊢
        refine ⟨c.entry P invite existing observed, ?_, ?_⟩
        · have hself : (s.db.add J (c.entry P invite existing observed)).resolve J
              (c.entry P invite existing observed).endpointId = _ := PairDb.resolve_add_self _
          rwa [Ceremony.entry_endpointId] at hself
        · rw [hread, hresolve]
          exact hname
      · refine ⟨e', ?_, hname⟩
        exact (PairDb.resolve_add_of_ne (by simpa using heid)).trans hresolve
    · obtain rfl := List.mem_singleton.mp he
      exact ⟨_, PairDb.resolve_add_self _, rfl⟩

/-- A write keeps the names unique exactly when nobody came between the check
and the write. -/
theorem namesUnique_add_iff (h : s.Inv J) (hc : s.ceremonies eid = some c)
    (hphase : c.phase = .granted invite existing observed since) :
    NamesUnique J (s.db.add J (c.entry P invite existing observed)) ↔ c.Unraced P s.log := by
  have hcurrent := h.current eid c hc
  rw [hphase] at hcurrent
  obtain ⟨hread, hsince, hfree⟩ := hcurrent
  rw [Ceremony.Unraced, hphase]
  dsimp only
  constructor
  · intro hunique e he hname
    obtain ⟨e', hresolve, hname'⟩ := h.kept e (List.mem_of_mem_drop he)
    have heid : e'.endpointId = e.endpointId := h.keyed.endpointId_of_resolve hresolve
    by_contra hne
    have hmem : e' ∈ (s.db.add J (c.entry P invite existing observed)).list J := by
      refine PairDb.mem_list_add_of_ne h.keyed (PairDb.mem_list_of_resolve hresolve) ?_
      rw [Ceremony.entry_endpointId, heid]
      exact hne
    have hsame := hunique e' hmem _ PairDb.mem_list_add_self (hname'.trans hname)
    rw [Ceremony.entry_endpointId, heid] at hsame
    exact hne hsame
  · intro hunraced
    -- nobody else holds the name that is written
    have hown : ∀ e ∈ s.db.list J,
        e.nickname = (c.entry P invite existing observed).nickname → e.endpointId = eid := by
      intro e he hname
      cases hexisting : existing with
      | some own =>
          subst hexisting
          have hresolve : s.db.resolve J eid = some own := hread.symm
          have hsame := h.unique e he own (PairDb.mem_list_of_resolve hresolve) hname
          rw [hsame, h.keyed.endpointId_of_resolve hresolve]
      | none =>
          subst hexisting
          obtain heid | hlogged := hfree rfl e he hname
          · exact heid
          · exact hunraced e hlogged hname
    intro e he e' he' hname
    obtain rfl | he := PairDb.mem_of_mem_list_add he
    · obtain rfl | he' := PairDb.mem_of_mem_list_add he'
      · rfl
      · rw [hown e' he' hname.symm, Ceremony.entry_endpointId]
    · obtain rfl | he' := PairDb.mem_of_mem_list_add he'
      · rw [hown e he hname, Ceremony.entry_endpointId]
      · exact h.unique e he e' he' hname

end Write

end Race

/-- **Racing redemptions**: over any interleaving of ceremonies, the names stay
unique exactly as long as no row is written whose name was written for another
endpoint between the ceremony's own collision check and its write. -/
theorem names_unique_iff_unraced (P : Primitives) (J : PeerJson) {db : PairDb}
    (hunique : NamesUnique J db) (hkeyed : db.WellKeyed J) (invites : InviteMap)
    (events : List CeremonyEvent) :
    Along (ceremonyStep P J) (fun s => NamesUnique J s.db) (.start db invites) events ↔
      Guarded (ceremonyStep P J) (Unraced P) (.start db invites) events := by
  refine along_iff_guarded (I := Inviter.Inv J) (fun s h => h.unique) ?_ ?_
    (Inviter.inv_start hunique hkeyed)
  · intro s event s' h hstep
    cases proceeds_of_ceremonyStep hstep with
    | goto c phase invites writing _ hevent hcurrent =>
        refine iff_of_true h.unique ?_
        unfold Unraced
        split
        · next eid => exact absurd rfl (hevent eid)
        · trivial
    | paired c invite existing observed since hc hphase =>
        refine (namesUnique_add_iff h hc hphase).trans ⟨fun hunraced c' hc' => ?_, fun h => h c hc⟩
        obtain rfl := Option.some.inj (hc.symm.trans hc')
        exact hunraced
  · intro s event s' h hstep hunique'
    cases proceeds_of_ceremonyStep hstep with
    | goto c phase invites writing _ hevent hcurrent =>
        exact h.goto (hcurrent fun c hc => h.current _ c hc) invites writing
    | paired c invite existing observed since hc hphase => exact h.paired hc hphase hunique'

namespace Race

def primitives : Primitives := Instance.primitives [] []

def empty : PairDb := ⟨[], [], []⟩

def invites : InviteMap := .ofList [TwoUses.invite 7 2]

def eid (n : UInt8) : EndpointId := .replicate 32 n

/-- The ceremony of endpoint `n`, up to the row write. -/
def upToWrite (n : UInt8) : List CeremonyEvent :=
  [.hello ⟨eid n, "laptop", none, none⟩ (TwoUses.invite 7 2).secret 1, .peek (eid n),
    .precheck (eid n), .tryRedeem (eid n), .recorded (eid n) true, .resolve (eid n),
    .recheck (eid n), .revocation (eid n) none]

/-- Two machines of one name redeem one invite, and both check before either
writes. -/
def events : List CeremonyEvent :=
  upToWrite 2 ++ upToWrite 3 ++ [.write (eid 2) true, .write (eid 3) true]

theorem namesUnique_empty (J : PeerJson) : NamesUnique J empty :=
  fun _ h => absurd h List.not_mem_nil

theorem wellKeyed_empty (J : PeerJson) : empty.WellKeyed J := fun _ h => absurd h List.not_mem_nil

/-- The names the run leaves, with their endpoints. -/
def names (events : List CeremonyEvent) : Option (List (String × EndpointId)) :=
  (run (ceremonyStep primitives Instance.peerJson) (.start empty invites) events).map fun s =>
    (s.db.list Instance.peerJson).map fun e => (e.nickname, e.endpointId)

end Race

theorem names_unique_iff_unraced_example :
    Along (ceremonyStep Race.primitives Instance.peerJson)
        (fun s => NamesUnique Instance.peerJson s.db) (.start Race.empty Race.invites)
        Race.events ↔
      Guarded (ceremonyStep Race.primitives Instance.peerJson) (Unraced Race.primitives)
        (.start Race.empty Race.invites) Race.events :=
  names_unique_iff_unraced Race.primitives Instance.peerJson
    (Race.namesUnique_empty _) (Race.wellKeyed_empty _) Race.invites Race.events

/-- Two endpoints end up with one name. -/
theorem racing_redemptions_share_a_name :
    NamesUnique Instance.peerJson Race.empty ∧
      ∃ s, run (ceremonyStep Race.primitives Instance.peerJson) (.start Race.empty Race.invites)
          Race.events = some s ∧ ¬ NamesUnique Instance.peerJson s.db := by
  refine ⟨Race.namesUnique_empty _, ?_⟩
  have hnames : Race.names Race.events =
      some [("laptop", Race.eid 2), ("laptop", Race.eid 3)] := by decide +kernel
  obtain ⟨s, hrun, hlist⟩ := Option.map_eq_some_iff.mp hnames
  refine ⟨s, hrun, fun hunique => ?_⟩
  have hmem : ∀ n : UInt8,
      ("laptop", Race.eid n) ∈ [("laptop", Race.eid 2), ("laptop", Race.eid 3)] →
      ∃ e ∈ s.db.list Instance.peerJson, e.nickname = "laptop" ∧ e.endpointId = Race.eid n := by
    intro n hn
    obtain ⟨e, he, heq⟩ := List.mem_map.mp (hlist ▸ hn)
    exact ⟨e, he, congrArg Prod.fst heq, congrArg Prod.snd heq⟩
  obtain ⟨e₂, he₂, hname₂, heid₂⟩ := hmem 2 (by simp)
  obtain ⟨e₃, he₃, hname₃, heid₃⟩ := hmem 3 (by simp)
  have hsame := hunique e₂ he₂ e₃ he₃ (hname₂.trans hname₃.symm)
  rw [heid₂, heid₃] at hsame
  exact absurd hsame (by decide)

end Mcpmesh
