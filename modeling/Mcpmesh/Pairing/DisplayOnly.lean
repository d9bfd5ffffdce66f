import Mcpmesh.Pairing.Rename
import Mcpmesh.Pairing.Instance

/-!
# Mcpmesh.Pairing.DisplayOnly

A rename among the other writers of pair rows, each cut at its store
transactions.

`rename_peer` writes back the whole rows that it read, under a lock that no other
writer takes.  `alone` is a ghost: the store as the other writers alone leave it,
each of them deciding as it does here and reading what they alone have written.
-/

namespace Mcpmesh

open Lib

/-! ## what a name is not part of -/

/-- A row but for its endpoint and its name. -/
structure RowFields where
  services : List String
  pairedAt : Option String
  userId : Option String
  lastAddr : Option String
  deriving DecidableEq

def PeerEntry.fields (e : PeerEntry) : RowFields := ⟨e.services, e.pairedAt, e.userId, e.lastAddr⟩

/-! ## the writers -/

/-- `attest_to`, from the reply on: the row of the node that admitted us. -/
structure AttestTo where
  peerId : EndpointId
  nicknameForPeer : Option String
  peerNickname : String
  userPk : Option String
  bindingSig : Option String
  observed : Option String
  now : String

inductive RowWriter where
  | inviterSide (r : InviterSide)
  | redeemerSide (r : RedeemerSide)
  | attestation (a : Attestation)
  | attestTo (t : AttestTo)
  | introduce (i : Introduction)

section DisplayOnly

variable (P : Primitives) (J : PeerJson) (own : EndpointId)

/-- The stored name and directory stay, and a proven identity is not lost. -/
def attestToEntry (t : AttestTo) (existing : Option PeerEntry) : PeerEntry :=
  { endpointId := t.peerId
    nickname := (t.nicknameForPeer.or (existing.map (·.nickname))).getD t.peerNickname
    services := (existing.map (·.services)).getD []
    pairedAt := (existing.bind (·.pairedAt)).or (some t.now)
    userId := (verifiedUserId P t.userPk t.bindingSig t.peerId).or (existing.bind (·.userId))
    lastAddr := mergeHint t.observed (existing.bind (·.lastAddr)) }

/-- `PeerStore::clear_last_addr`; `none` when nothing is written. -/
def clearLastAddr (db : PairDb) (eid : EndpointId) : Option PairDb :=
  match rowOf eid db.peers with
  | none => none
  | some raw =>
      match J.fromSlice raw with
      | .error _ => none
      | .ok entry =>
          if entry.lastAddr.isNone then none
          else
            some { db with
              peers := upsert (fun a b => a.toList < b.toList) eid
                (J.toVec { entry with lastAddr := none }) db.peers }

/-- What a writer asks of the store before it merges, each in a transaction of
its own. -/
def RowWriter.checks : RowWriter → List (PairDb → Bool)
  | .inviterSide _ | .attestation _ => []
  | .redeemerSide r =>
      [fun db => !nicknameTaken J db r.localName r.invite.inviterId,
        fun db => !(db.store J).isRefused r.invite.inviterId,
        fun db => !userRevoked J db
          (verifiedUserId P r.userPk r.bindingSig r.invite.inviterId)]
  | .attestTo t => [fun db => !(db.store J).isRefused t.peerId]
  | .introduce i =>
      [fun db => (db.list J).any fun e => e.pairedAt.isSome && e.userId = some i.endorsedBy,
        fun db => !userRevoked J db (i.verifiedUserId P).toOption.join,
        fun db => !nicknameTaken J db i.nickname i.subject,
        fun db => !(db.resolve J i.subject).any (·.pairedAt.isSome)]

/-- A request that is refused whatever the store has. -/
def RowWriter.refused : RowWriter → Bool
  | .redeemerSide r => r.invite.asSelf
  | .introduce i =>
      i.subject = own ||
        (verifyEndorsement P i.endorsedBy i.evidence i.subject i.subjectUserId).toOption.isNone ||
        (i.verifiedUserId P).toOption.isNone
  | _ => false

/-! ## the calls -/

/-- How a writer merges: the endpoint whose row it reads, and the row that it
makes of it. -/
structure Merge where
  eid : EndpointId
  entry : Option PeerEntry → PeerEntry

/-- What a writer merges; an attestation reads the rows of its person for it. -/
def RowWriter.merge (db : PairDb) : RowWriter → Option Merge
  | .inviterSide r => some ⟨r.hello.tlsId, inviterEntry P r⟩
  | .redeemerSide r => some ⟨r.invite.inviterId, redeemerEntry P r⟩
  | .attestation a =>
      (attestationDecision P J db a).toOption.map fun plan => ⟨a.hello.tlsId, attestedEntry a plan⟩
  | .attestTo t => some ⟨t.peerId, attestToEntry P t⟩
  | .introduce i => some ⟨i.subject, fun _ => introducedEntry i (i.verifiedUserId P).toOption.join⟩

/-- What the inviter asks once it has read the row. -/
def RowWriter.lateChecks (existing : Option PeerEntry) : RowWriter → List (PairDb → Bool)
  | .inviterSide r =>
      [fun db => !(existing.isNone && nicknameTaken J db
          (effectiveRedeemerNickname r.invite.peerNickname r.hello.redeemerNickname)
          r.hello.tlsId),
        fun db => !userRevoked J db (inviterEntry P r existing).userId]
  | _ => []

inductive RowVerb where
  | writer (w : RowWriter)
  | rename (r : Rename)

/-- Where a call is.  The second of two merges, or of two entries, is the one of
the writers alone. -/
inductive RowPhase where
  | idle
  | started (verb : RowVerb)
  | checking (w : RowWriter) (todo : List (PairDb → Bool))
  | merging (w : RowWriter) (merge aloneMerge : Merge)
  | writing (todo : List (PairDb → Bool)) (entry aloneEntry : PeerEntry)
  | rewriting (toName : String) (todo : List PeerEntry)

/-- The store and its calls; `lock` is the call that has `reload_lock`. -/
structure RowNode where
  db : PairDb
  alone : PairDb
  calls : Nat → RowPhase
  lock : Option Nat

inductive RowEvent where
  | call (i : Nat) (verb : RowVerb)
  /-- the next transaction of the call -/
  | act (i : Nat)
  | fail (i : Nat)
  | setLastAddr (eid : EndpointId) (lastAddr : String)
  | clearLastAddr (eid : EndpointId)
  | remove (nickname : String)

namespace RowNode

variable (s : RowNode)

def goto (i : Nat) (phase : RowPhase) : RowNode :=
  { s with calls := Function.update s.calls i phase }

/-- The call ends, and frees the lock if it has it. -/
def finish (i : Nat) : RowNode :=
  { s.goto i .idle with lock := if s.lock = some i then none else s.lock }

def act (i : Nat) : RowPhase → RowNode
  | .idle => s
  | .started (.writer w) =>
      if w.refused P own then s.finish i else s.goto i (.checking w (w.checks P J))
  | .started (.rename r) =>
      if r.toName = "" || (r.userId.isNone && r.nickname.isNone) then s.finish i
      else if s.lock.isSome then s
      else
        match renamePlan (s.db.list J) r with
        | .ok (some targets) => { s with lock := some i }.goto i (.rewriting r.toName targets)
        | _ => s.finish i
  | .checking w (check :: todo) =>
      if check s.db then s.goto i (.checking w todo) else s.finish i
  | .checking w [] =>
      match w.merge P J s.db with
      | some merge => s.goto i (.merging w merge ((w.merge P J s.alone).getD merge))
      | none => s.finish i
  | .merging w merge aloneMerge =>
      let existing := s.db.resolve J merge.eid
      s.goto i (.writing (w.lateChecks P J existing) (merge.entry existing)
        (aloneMerge.entry (s.alone.resolve J aloneMerge.eid)))
  | .writing (check :: todo) entry aloneEntry =>
      if check s.db then s.goto i (.writing todo entry aloneEntry) else s.finish i
  | .writing [] entry aloneEntry =>
      { s with db := s.db.add J entry, alone := s.alone.add J aloneEntry }.finish i
  | .rewriting _ [] => s.finish i
  | .rewriting toName (e :: todo) =>
      { s with db := s.db.add J (renamedEntry toName e) }.goto i (.rewriting toName todo)

end RowNode

/-- The rows of the endpoints are dropped. -/
def PairDb.drop (db : PairDb) (eids : List EndpointId) : PairDb :=
  { db with peers := db.peers.filter fun r => r.1 ∉ eids }

def rowStep (s : RowNode) : RowEvent → RowNode × Unit
  | .call i verb =>
      match s.calls i with
      | .idle => (s.goto i (.started verb), ())
      | _ => (s, ())
  | .act i => (s.act P J own i (s.calls i), ())
  | .fail i => (s.finish i, ())
  | .setLastAddr eid lastAddr =>
      ({ s with
        db := (setLastAddr J s.db eid lastAddr).getD s.db
        alone := (setLastAddr J s.alone eid lastAddr).getD s.alone }, ())
  | .clearLastAddr eid =>
      ({ s with
        db := (clearLastAddr J s.db eid).getD s.db
        alone := (clearLastAddr J s.alone eid).getD s.alone }, ())
  | .remove nickname =>
      let removed := (s.db.peers.filter (named J nickname)).map (·.1)
      ({ s with db := (s.db.remove J nickname).1, alone := s.alone.drop removed }, ())

/-- A store without rows. -/
def RowNode.start (revoked : List (EndpointId × List UInt8))
    (revokedUsers : List (String × List UInt8)) : RowNode where
  db := ⟨[], revoked, revokedUsers⟩
  alone := ⟨[], revoked, revokedUsers⟩
  calls _ := .idle
  lock := none

/-! ## the law and the condition -/

/-- The rows, but for their names: of each endpoint, nothing where its row does
not read. -/
def PairDb.fields (db : PairDb) : List (EndpointId × Option RowFields) :=
  mapRows (fun raw => (J.fromSlice raw).toOption.map (·.fields)) db.peers

/-- The condition on a step: where a rename writes a row back, the row is, but for
its name, still the one that it read. -/
def RowNode.Fresh (s : RowNode) : RowEvent → Prop
  | .act i =>
      match s.calls i with
      | .rewriting _ (e :: _) =>
          rowOf e.endpointId (s.db.fields J) = some (some e.fields)
      | _ => True
  | _ => True

/-! ## rows without their names -/

section Fields

variable {P J} {db db' : PairDb} {eid : EndpointId} {e : PeerEntry}

/-- The fields of a row are those of what is stored, if it can be read. -/
theorem rowOf_fields (db : PairDb) (eid : EndpointId) :
    rowOf eid (db.fields J) =
      (rowOf eid db.peers).map fun raw => (J.fromSlice raw).toOption.map (·.fields) :=
  rowOf_mapRows eid _ _

/-- Who resolves, resolves with the fields. -/
theorem resolve_fields (db : PairDb) (eid : EndpointId) :
    (db.resolve J eid).map (·.fields) = (rowOf eid (db.fields J)).join := by
  rw [rowOf_fields, PairDb.resolve]
  cases rowOf eid db.peers <;> rfl

/-- The fields of the list are the list of the fields. -/
theorem list_fields (db : PairDb) :
    (db.list J).map (·.fields) = (db.fields J).filterMap (·.2) := by
  simp only [PairDb.list, PairDb.fields, mapRows, List.map_filterMap, List.filterMap_map]
  rfl

/-- An add edits the fields of one row. -/
theorem fields_add (db : PairDb) (e : PeerEntry) :
    (db.add J e).fields J =
      upsert (fun a b => a.toList < b.toList) e.endpointId (some e.fields) (db.fields J) := by
  rw [PairDb.fields, PairDb.add, mapRows_upsert, J.fromSlice_toVec]
  rfl

/-- What a dial-hint update does to a row that reads. -/
def hinted (edit : RowFields → Option RowFields) (eid : EndpointId)
    (rows : List (EndpointId × Option RowFields)) : List (EndpointId × Option RowFields) :=
  match (rowOf eid rows).join.bind edit with
  | some f => upsert (fun a b => a.toList < b.toList) eid (some f) rows
  | none => rows

/-- A hint sets one field of one row. -/
theorem fields_setLastAddr (db : PairDb) (eid : EndpointId) (lastAddr : String) :
    ((setLastAddr J db eid lastAddr).getD db).fields J =
      hinted (fun f => if f.lastAddr = some lastAddr then none
        else some { f with lastAddr := some lastAddr }) eid (db.fields J) := by
  rw [hinted, rowOf_fields, setLastAddr]
  cases hrow : rowOf eid db.peers with
  | none => rfl
  | some raw =>
      cases hread : J.fromSlice raw with
      | error err => simp [hread, Except.toOption, PairDb.fields]
      | ok entry =>
          by_cases hsame : entry.lastAddr = some lastAddr
          · simp [hread, Except.toOption, PeerEntry.fields, PairDb.fields, hsame]
          · simp [hread, Except.toOption, PeerEntry.fields, PairDb.fields, hsame, mapRows_upsert,
              J.fromSlice_toVec, hintedEntry]

/-- A cleared hint, likewise. -/
theorem fields_clearLastAddr (db : PairDb) (eid : EndpointId) :
    ((clearLastAddr J db eid).getD db).fields J =
      hinted (fun f => if f.lastAddr.isNone then none else some { f with lastAddr := none }) eid
        (db.fields J) := by
  rw [hinted, rowOf_fields, clearLastAddr]
  cases hrow : rowOf eid db.peers with
  | none => rfl
  | some raw =>
      cases hread : J.fromSlice raw with
      | error err => simp [hread, Except.toOption, PairDb.fields]
      | ok entry =>
          by_cases hnone : entry.lastAddr = none
          · simp [hread, Except.toOption, PeerEntry.fields, PairDb.fields, hnone]
          · simp [hread, Except.toOption, PeerEntry.fields, PairDb.fields, hnone, mapRows_upsert,
              J.fromSlice_toVec]

/-- A hint leaves the revocations. -/
theorem tables_setLastAddr (db : PairDb) (eid : EndpointId) (lastAddr : String) :
    ((setLastAddr J db eid lastAddr).getD db).revoked = db.revoked ∧
      ((setLastAddr J db eid lastAddr).getD db).revokedUsers = db.revokedUsers := by
  unfold setLastAddr
  split
  · simp
  split
  · simp
  split <;> simp

/-- A cleared hint leaves the revocations. -/
theorem tables_clearLastAddr (db : PairDb) (eid : EndpointId) :
    ((clearLastAddr J db eid).getD db).revoked = db.revoked ∧
      ((clearLastAddr J db eid).getD db).revokedUsers = db.revokedUsers := by
  unfold clearLastAddr
  split
  · simp
  split
  · simp
  split <;> simp

/-! ### merges do not read names -/

/-- The rows agree, but for their names. -/
def SameFields (x x' : Option PeerEntry) : Prop := x.map (·.fields) = x'.map (·.fields)

/-- Two merges that agree on rows that agree. -/
structure Merge.Same (m m' : Merge) : Prop where
  eid : m.eid = m'.eid
  entry : ∀ x x', SameFields x x' → (m.entry x).fields = (m'.entry x').fields ∧
    (m.entry x).endpointId = (m'.entry x').endpointId

/-- Two rows of one device are both absent or agree but for the names. -/
theorem SameFields.cases {x x' : Option PeerEntry} (h : SameFields x x') :
    x = none ∧ x' = none ∨ ∃ e e', x = some e ∧ x' = some e' ∧ e.services = e'.services ∧
      e.pairedAt = e'.pairedAt ∧ e.userId = e'.userId ∧ e.lastAddr = e'.lastAddr := by
  cases x with
  | none => exact .inl ⟨rfl, Option.map_eq_none_iff.mp h.symm⟩
  | some e =>
      obtain ⟨e', rfl, he'⟩ := Option.map_eq_some_iff.mp h.symm
      obtain ⟨hservices, hpairedAt, huserId, hlastAddr⟩ := RowFields.mk.inj he'
      exact .inr ⟨e, e', rfl, rfl, hservices.symm, hpairedAt.symm, huserId.symm, hlastAddr.symm⟩

/-- Two merges agree that agree on the absent row, and on rows that have all but
their names and identifiers in common. -/
theorem Merge.Same.of_cases {eid : EndpointId} {entry entry' : Option PeerEntry → PeerEntry}
    (hnone : (entry none).fields = (entry' none).fields ∧
      (entry none).endpointId = (entry' none).endpointId)
    (hsome : ∀ e e', e.services = e'.services → e.pairedAt = e'.pairedAt → e.userId = e'.userId →
      e.lastAddr = e'.lastAddr → (entry (some e)).fields = (entry' (some e')).fields ∧
        (entry (some e)).endpointId = (entry' (some e')).endpointId) :
    Merge.Same ⟨eid, entry⟩ ⟨eid, entry'⟩ where
  eid := rfl
  entry x x' h := by
    obtain ⟨rfl, rfl⟩ | ⟨e, e', rfl, rfl, hservices, hpairedAt, huserId, hlastAddr⟩ := h.cases
    · exact hnone
    · exact hsome e e' hservices hpairedAt huserId hlastAddr

/-- The inviter's row names the device in nothing but its name. -/
theorem inviterEntry_same (r : InviterSide) :
    Merge.Same ⟨r.hello.tlsId, inviterEntry P r⟩ ⟨r.hello.tlsId, inviterEntry P r⟩ := by
  refine .of_cases ⟨rfl, rfl⟩ fun e e' hservices hpairedAt huserId hlastAddr => ?_
  simp [inviterEntry, PeerEntry.fields, hservices, hpairedAt, huserId, hlastAddr]

/-- The redeemer's row, likewise. -/
theorem redeemerEntry_same (r : RedeemerSide) :
    Merge.Same ⟨r.invite.inviterId, redeemerEntry P r⟩
      ⟨r.invite.inviterId, redeemerEntry P r⟩ := by
  refine .of_cases ⟨rfl, rfl⟩ fun e e' hservices _ huserId hlastAddr => ?_
  simp [redeemerEntry, PeerEntry.fields, hservices, huserId, hlastAddr]

/-- The row of the side that attests, likewise. -/
theorem attestToEntry_same (t : AttestTo) :
    Merge.Same ⟨t.peerId, attestToEntry P t⟩ ⟨t.peerId, attestToEntry P t⟩ := by
  refine .of_cases ⟨rfl, rfl⟩ fun e e' hservices hpairedAt huserId hlastAddr => ?_
  simp [attestToEntry, PeerEntry.fields, hservices, hpairedAt, huserId, hlastAddr]

/-- The row of the side that is attested, likewise. -/
theorem attestedEntry_same (a : Attestation) {plan plan' : AdmitPlan}
    (huserId : plan.userId = plan'.userId) (hservices : plan.services = plan'.services) :
    Merge.Same ⟨a.hello.tlsId, attestedEntry a plan⟩ ⟨a.hello.tlsId, attestedEntry a plan'⟩ := by
  refine .of_cases ?_ fun e e' _ hpairedAt _ hlastAddr => ?_
  · simp [attestedEntry, PeerEntry.fields, huserId, hservices]
  · simp [attestedEntry, PeerEntry.fields, huserId, hservices, hpairedAt, hlastAddr]

/-! ### what an attestation reads -/

/-- The store of the writers alone agrees with this one. -/
structure Agrees (J : PeerJson) (db db' : PairDb) : Prop where
  fields : db.fields J = db'.fields J
  revoked : db.revoked = db'.revoked
  revokedUsers : db.revokedUsers = db'.revokedUsers

/-- What agrees resolves alike. -/
theorem Agrees.resolve (h : Agrees J db db') (eid : EndpointId) :
    SameFields (db.resolve J eid) (db'.resolve J eid) := by
  rw [SameFields, resolve_fields, resolve_fields, h.fields]

/-- What agrees has one list of a user's devices. -/
theorem Agrees.entriesForUser (h : Agrees J db db') (userId : String) :
    (db.entriesForUser J userId).map (·.fields) = (db'.entriesForUser J userId).map (·.fields) := by
  have hfilter : ∀ db : PairDb, (db.entriesForUser J userId).map (·.fields) =
      ((db.list J).map (·.fields)).filter fun f => f.userId = some userId := by
    intro db
    rw [List.filter_map]
    rfl
  rw [hfilter, hfilter, list_fields, list_fields, h.fields]

/-- The services that all rows of a person have. -/
theorem services_foldl (services : List String) (entries : List PeerEntry) :
    entries.foldl (fun services e => services.filter (· ∈ e.services)) services =
      (entries.map (·.fields)).foldl (fun services f => services.filter (· ∈ f.services))
        services := by
  rw [List.foldl_map]
  rfl

/-- An attestation that is decided in one store is decided alike in the other. -/
theorem Agrees.attestationDecision (h : Agrees J db db') {a : Attestation} {plan : AdmitPlan}
    (hplan : attestationDecision P J db a = .ok plan) :
    ∃ plan', attestationDecision P J db' a = .ok plan' ∧ plan.userId = plan'.userId ∧
      plan.services = plan'.services := by
  simp only [Mcpmesh.attestationDecision, bind_eq_ok] at hplan
  obtain ⟨_, henabled, hplan⟩ := hplan
  split at hplan
  · next pk sig hpk hsig =>
    simp only [bind_eq_ok] at hplan
    obtain ⟨userId, hpresented, _, hrevoked, _, huserRevoked, hrows⟩ := hplan
    have hentries := h.entriesForUser userId
    split at hrows
    · contradiction
    · next first rest hrow =>
      obtain rfl := Except.ok.inj hrows
      rw [hrow, List.map_cons] at hentries
      obtain ⟨first', rest', hrow', hfirst, hrest⟩ := List.map_eq_cons_iff.mp hentries.symm
      have hdecided : Mcpmesh.attestationDecision P J db' a = .ok
          { userId, nickname := first'.nickname
            services := sharedServices first' rest' } := by
        simp only [Mcpmesh.attestationDecision, bind_eq_ok, hpk, hsig]
        refine ⟨(), henabled, userId, hpresented, (), ?_, (), ?_, ?_⟩
        · simpa [PairDb.isRevoked, h.revoked] using hrevoked
        · simpa [PairDb.store, PeerStore.isUserRevoked, h.revokedUsers] using huserRevoked
        · rw [hrow']
      refine ⟨_, hdecided, rfl, ?_⟩
      have hservices : first.services = first'.services :=
        (congrArg RowFields.services hfirst).symm
      simp only [sharedServices, services_foldl, hservices, hrest]
  · contradiction

/-! ### rows in key order -/

/-- The rows are in key order. -/
def KeyOrdered {α : Type} (rows : List (EndpointId × α)) : Prop :=
  rows.Pairwise fun r r' => decide (r.1.toList < r'.1.toList) = true

/-- An upsert keeps the rows in the order of their keys. -/
theorem keyOrdered_upsert {α : Type} {rows : List (EndpointId × α)} (h : KeyOrdered rows)
    (row : α) : KeyOrdered (upsert (fun a b => a.toList < b.toList) eid row rows) :=
  PairDb.ordered_upsert h eid row

/-- A hint keeps them, too. -/
theorem keyOrdered_hinted {rows : List (EndpointId × Option RowFields)} (h : KeyOrdered rows)
    (edit : RowFields → Option RowFields) : KeyOrdered (hinted edit eid rows) := by
  unfold hinted
  split
  · exact keyOrdered_upsert h _
  · exact h

/-- The fields are in the order of the rows. -/
theorem keyOrdered_fields : KeyOrdered (db.fields J) ↔ KeyOrdered db.peers :=
  List.pairwise_map

/-- A removal by the name drops the rows of the endpoints that have it. -/
theorem fields_remove (h : KeyOrdered (db.fields J)) (nickname : String) :
    (db.remove J nickname).1.fields J =
      (db.fields J).filter fun r => r.1 ∉ (db.peers.filter (named J nickname)).map (·.1) := by
  have hvictim : ∀ r ∈ db.peers,
      (!named J nickname r) = decide (r.1 ∉ (db.peers.filter (named J nickname)).map (·.1)) := by
    intro r hr
    rw [Bool.eq_iff_iff, Bool.not_eq_true', ← Bool.not_eq_true, decide_eq_true_eq, not_iff_not]
    constructor
    · exact fun hnamed => List.mem_map.mpr ⟨r, List.mem_filter.mpr ⟨hr, hnamed⟩, rfl⟩
    · intro hmem
      obtain ⟨r', hr', hkey⟩ := List.mem_map.mp hmem
      obtain ⟨hr', hnamed⟩ := List.mem_filter.mp hr'
      obtain rfl : r' = r :=
        eq_of_key_eq (fun a b : EndpointId => decide (a.toList < b.toList)) db.peers
          (by simp [List.lt_irrefl]) (keyOrdered_fields.mp h) hr' hr hkey
      exact hnamed
  rw [PairDb.fields, PairDb.remove, List.filter_congr hvictim, PairDb.fields, mapRows, mapRows,
    List.filter_map]
  rfl

/-- A removal of rows removes their fields. -/
theorem fields_drop (db : PairDb) (eids : List EndpointId) :
    (db.drop eids).fields J = (db.fields J).filter fun r => r.1 ∉ eids := by
  rw [PairDb.fields, PairDb.drop, PairDb.fields, mapRows, mapRows, List.filter_map]
  rfl

/-- A rename of a row that is still there changes no field. -/
theorem fields_rename (h : KeyOrdered (db.fields J)) (toName : String)
    (hfresh : rowOf e.endpointId (db.fields J) = some (some e.fields)) :
    (db.add J (renamedEntry toName e)).fields J = db.fields J := by
  rw [fields_add]
  refine upsert_eq_self (fun a b : EndpointId => decide (a.toList < b.toList)) _ _ _ ?_ h hfresh
  intro a b hab
  simp only [decide_eq_true_eq, decide_eq_false_iff_not] at hab ⊢
  exact List.lt_asymm hab

end Fields

/-! ## the steps -/

namespace RowNode

variable {P J own} {s t : RowNode}

/-- What a call has read agrees with what the writers alone would have. -/
def PhaseInv : RowPhase → Prop
  | .merging _ merge aloneMerge => merge.Same aloneMerge
  | .writing _ entry aloneEntry =>
      entry.fields = aloneEntry.fields ∧ entry.endpointId = aloneEntry.endpointId
  | _ => True

structure Inv (J : PeerJson) (s : RowNode) : Prop where
  agrees : Agrees J s.db s.alone
  ordered : KeyOrdered (s.db.fields J)
  calls : ∀ i, PhaseInv (s.calls i)

/-- A writer goes on without touching a store. -/
theorem Inv.goto (h : s.Inv J) (i : Nat) (phase : RowPhase) (hphase : PhaseInv phase) :
    (s.goto i phase).Inv J where
  agrees := h.agrees
  ordered := h.ordered
  calls j := by
    by_cases hj : j = i
    · subst hj
      simpa [RowNode.goto] using hphase
    · simpa [RowNode.goto, hj] using h.calls j

/-- A writer that is through has nothing pending. -/
theorem Inv.finish (h : s.Inv J) (i : Nat) : (s.finish i).Inv J :=
  { h.goto i .idle trivial with }

/-- Both stores change, and agree. -/
theorem Inv.store (h : s.Inv J) {db alone : PairDb} (hagrees : Agrees J db alone)
    (hordered : KeyOrdered (db.fields J)) : ({ s with db, alone } : RowNode).Inv J where
  agrees := hagrees
  ordered := hordered
  calls := h.calls

/-- Both stores take a row that agrees. -/
theorem Inv.add (h : s.Inv J) {entry aloneEntry : PeerEntry}
    (hfields : entry.fields = aloneEntry.fields)
    (heid : entry.endpointId = aloneEntry.endpointId) :
    ({ s with db := s.db.add J entry, alone := s.alone.add J aloneEntry } : RowNode).Inv J := by
  refine h.store ⟨?_, h.agrees.revoked, h.agrees.revokedUsers⟩ ?_
  · rw [fields_add, fields_add, hfields, heid, h.agrees.fields]
  · rw [fields_add]
    exact keyOrdered_upsert h.ordered _

/-- What a writer merges now and what it would merge alone agree but for the names. -/
theorem merge_same (h : s.Inv J) (w : RowWriter) {merge : Merge}
    (hmerge : w.merge P J s.db = some merge) :
    merge.Same ((w.merge P J s.alone).getD merge) := by
  cases w with
  | inviterSide r => exact Option.some.inj hmerge ▸ inviterEntry_same r
  | redeemerSide r => exact Option.some.inj hmerge ▸ redeemerEntry_same r
  | attestation a =>
      obtain ⟨plan, hplan, rfl⟩ := Option.map_eq_some_iff.mp hmerge
      have hdecided := toOption_eq_some.mp hplan
      obtain ⟨plan', hplan', huserId, hservices⟩ := h.agrees.attestationDecision hdecided
      simpa [RowWriter.merge, hplan', Except.toOption] using
        attestedEntry_same a huserId hservices
  | attestTo t => exact Option.some.inj hmerge ▸ attestToEntry_same t
  | introduce i =>
      obtain rfl := Option.some.inj hmerge
      exact ⟨rfl, fun _ _ _ => ⟨rfl, rfl⟩⟩

/-- The next transaction of a call. -/
theorem Inv.act (h : s.Inv J) (i : Nat) (hfresh : s.Fresh J (.act i)) :
    (s.act P J own i (s.calls i)).Inv J := by
  have hphase := h.calls i
  cases hcall : s.calls i with
  | idle => exact h
  | started verb =>
      cases verb with
      | writer w =>
          simp only [RowNode.act]
          split
          · exact h.finish i
          · exact h.goto i _ trivial
      | rename r =>
          simp only [RowNode.act]
          split
          · exact h.finish i
          split
          · exact h
          split
          · exact { h.goto i (.rewriting r.toName _) trivial with }
          · exact h.finish i
  | checking w todo =>
      cases todo with
      | cons check todo =>
          simp only [RowNode.act]
          split
          · exact h.goto i _ trivial
          · exact h.finish i
      | nil =>
          simp only [RowNode.act]
          split
          · next merge hmerge => exact h.goto i _ (merge_same h w hmerge)
          · exact h.finish i
  | merging w merge aloneMerge =>
      rw [hcall] at hphase
      have hexisting := h.agrees.resolve merge.eid
      rw [hphase.eid] at hexisting
      refine h.goto i _ ?_
      rw [hphase.eid]
      exact hphase.entry _ _ hexisting
  | writing todo entry aloneEntry =>
      rw [hcall] at hphase
      cases todo with
      | cons check todo =>
          simp only [RowNode.act]
          split
          · exact h.goto i _ hphase
          · exact h.finish i
      | nil => exact (h.add hphase.1 hphase.2).finish i
  | rewriting toName todo =>
      cases todo with
      | nil => exact h.finish i
      | cons e todo =>
          simp only [Fresh, hcall] at hfresh
          have hfields := fields_rename h.ordered toName hfresh
          have hstore : ({ s with db := s.db.add J (renamedEntry toName e) } : RowNode).Inv J :=
            { h with
              agrees := { h.agrees with fields := hfields.trans h.agrees.fields }
              ordered := hfields ▸ h.ordered }
          exact hstore.goto i _ trivial

/-- **Step lemma**: every step that meets the condition keeps the stores in
agreement. -/
theorem Inv.step (h : s.Inv J) {event : RowEvent} (hfresh : s.Fresh J event) :
    (rowStep P J own s event).1.Inv J := by
  cases event with
  | call i verb =>
      simp only [rowStep]
      split
      · exact h.goto i _ trivial
      · exact h
  | act i => exact h.act i hfresh
  | fail i => exact h.finish i
  | setLastAddr eid lastAddr =>
      refine h.store ⟨?_, ?_, ?_⟩ ?_
      · rw [fields_setLastAddr, fields_setLastAddr, h.agrees.fields]
      · rw [(tables_setLastAddr ..).1, (tables_setLastAddr ..).1, h.agrees.revoked]
      · rw [(tables_setLastAddr ..).2, (tables_setLastAddr ..).2, h.agrees.revokedUsers]
      · rw [fields_setLastAddr]
        exact keyOrdered_hinted h.ordered _
  | clearLastAddr eid =>
      refine h.store ⟨?_, ?_, ?_⟩ ?_
      · rw [fields_clearLastAddr, fields_clearLastAddr, h.agrees.fields]
      · rw [(tables_clearLastAddr ..).1, (tables_clearLastAddr ..).1, h.agrees.revoked]
      · rw [(tables_clearLastAddr ..).2, (tables_clearLastAddr ..).2, h.agrees.revokedUsers]
      · rw [fields_clearLastAddr]
        exact keyOrdered_hinted h.ordered _
  | remove nickname =>
      refine h.store ⟨?_, h.agrees.revoked, h.agrees.revokedUsers⟩ ?_
      · rw [fields_remove h.ordered, fields_drop, h.agrees.fields]
      · rw [fields_remove h.ordered]
        exact h.ordered.filter _

variable (J) in
theorem inv_start (revoked : List (EndpointId × List UInt8))
    (revokedUsers : List (String × List UInt8)) : (start revoked revokedUsers).Inv J where
  agrees := ⟨rfl, rfl, rfl⟩
  ordered := List.Pairwise.nil
  calls _ := trivial

end RowNode

variable {P J own}

/-- **A rename is display-only**, in a run whose steps all meet the condition:
every row has the fields that the other writers alone leave, and the rows are
those that they leave. -/
theorem rename_is_display_only (revoked : List (EndpointId × List UInt8))
    (revokedUsers : List (String × List UInt8)) (events : List RowEvent)
    (hfresh : ∀ t ∈ trace (rowStep P J own) (.start revoked revokedUsers) events,
      t.pre.Fresh J t.call) :
    (final (rowStep P J own) (.start revoked revokedUsers) events).db.fields J =
      (final (rowStep P J own) (.start revoked revokedUsers) events).alone.fields J := by
  have hinv : (final (rowStep P J own) (.start revoked revokedUsers) events).Inv J :=
    trace_guarded (Q := fun t => t.pre.Fresh J t.call)
      (fun s event hfresh h => h.step hfresh) (RowNode.inv_start J revoked revokedUsers) hfresh
  exact hinv.agrees.fields

end DisplayOnly

/-! ### a contact that is renamed -/

namespace Robert

def primitives : Primitives := Instance.primitives [] []

def bob : EndpointId := .replicate 32 7

def carol : EndpointId := .replicate 32 9

def step : RowNode → RowEvent → RowNode × Unit := rowStep primitives Instance.peerJson bob

/-- A pairing on the inviter's side. -/
def pairs (eid : EndpointId) (name : String) : RowVerb :=
  .writer (.inviterSide
    { invite := TwoUses.invite 7 2, hello := ⟨eid, name, none, none⟩, observed := none
      now := "1" })

/-- `n` transactions of the call. -/
def acts (i n : Nat) : List RowEvent := List.replicate n (.act i)

/-- Bob is paired, and the plan of a rename has read his row. -/
def planned : List RowEvent :=
  .call 0 (pairs bob "bob") :: acts 0 6 ++
    [.setLastAddr bob "1.2.3.4:5", .call 1 (.rename ⟨none, some "bob", "robert"⟩), .act 1]

/-- Carol pairs meanwhile. -/
def renamed : List RowEvent :=
  planned ++ .call 0 (pairs carol "carol") :: acts 0 6 ++ acts 1 2

/-- Bob is unpaired meanwhile. -/
def unpaired : List RowEvent := planned ++ .remove "bob" :: acts 1 2

/-- The names of the rows. -/
def names (s : RowNode) : List String := (s.db.list Instance.peerJson).map (·.nickname)

/-- The condition, of a state and an event. -/
def fresh (s : RowNode) : RowEvent → Bool
  | .act i =>
      match s.calls i with
      | .rewriting _ (e :: _) =>
          rowOf e.endpointId (s.db.fields Instance.peerJson) = some (some e.fields)
      | _ => true
  | _ => true

theorem fresh_of {s : RowNode} {event : RowEvent} (h : fresh s event = true) :
    s.Fresh Instance.peerJson event := by
  cases event with
  | act i =>
      simp only [fresh, RowNode.Fresh] at h ⊢
      split at h <;> simp_all
  | _ => trivial

end Robert

open Robert in
theorem rename_is_display_only_example :
    names (final step (.start [] []) renamed) = ["robert", "carol"] ∧
      (final step (.start [] []) renamed).db.fields Instance.peerJson =
        (final step (.start [] []) renamed).alone.fields Instance.peerJson := by
  have hfresh : ∀ t ∈ trace step (.start [] []) renamed, fresh t.pre t.call = true := by
    decide +kernel
  exact ⟨by decide +kernel,
    rename_is_display_only [] [] renamed fun t ht => fresh_of (hfresh t ht)⟩

open Robert in
/-- Nobody else writes a row of his after the removal. -/
theorem rename_restores_unpaired_peer :
    names (final step (.start [] []) unpaired) = ["robert"] ∧
      (final step (.start [] []) unpaired).alone.peers = [] ∧
      (final step (.start [] []) unpaired).db.fields Instance.peerJson ≠
        (final step (.start [] []) unpaired).alone.fields Instance.peerJson := by
  decide +kernel

end Mcpmesh
