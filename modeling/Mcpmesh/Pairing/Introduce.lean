import Mcpmesh.Pairing.Ceremony

/-!
# Mcpmesh.Pairing.Introduce

A peer installed on the word of someone we are paired with (`introduce_peer`,
`node/src/daemon/handlers.rs`; `verify_endorsement`, `trust/src/binding.rs`), and
the removal of the rows of a name (`PeerStore::remove`, `node/src/allowlist.rs`).

An introduction stamps no pairing, and no writer stores an identity that its
device did not prove, so over any writes every identity in the store is a `b64u:`
key (`PairDb.Proven`).
-/

namespace Mcpmesh

open Lib

/-! ## introductions -/

/-- The parameters of `peer_introduce`: the subject as parsed, the name as
validated. -/
structure Introduction where
  subject : EndpointId
  endorsedBy : String
  evidence : String
  subjectUserId : Option String
  subjectBinding : Option String
  nickname : String

inductive IntroduceError where
  | ownEndpoint
  | unknownEndorser
  | badEndorsement (e : RosterError)
  | missingBinding
  | nothingToBind
  | badBinding (e : RosterError)
  | principalRevoked (userId : String)
  | nicknameTaken (nickname : String)
  | alreadyPaired

section Introduce

variable (P : Primitives) (J : PeerJson)

/-- `decode32` -/
def decode32 (b64u : String) : Except RosterError Bytes32 := do
  let bytes ← decodeB64u P b64u
  okOr (toArray 32 bytes) .badSignature

/-- `verify_endorsement` -/
def verifyEndorsement (endorserPk evidence : String) (subject : EndpointId)
    (subjectUserPk : Option String) : Except RosterError Unit := do
  let endorserPk ← decode32 P endorserPk
  let subjectPk ← subjectUserPk.mapM (decode32 P)
  let sig ← decodeB64u P evidence
  verifyIntroduction P endorserPk subject subjectPk sig

/-- The identity that the subject itself proves; the endorser's word is not
enough. -/
def Introduction.verifiedUserId (i : Introduction) : Except IntroduceError (Option String) :=
  match i.subjectUserId, i.subjectBinding with
  | none, none => .ok none
  | some _, none => .error .missingBinding
  | none, some _ => .error .nothingToBind
  | some userId, some sig =>
      ((verifyPresented P userId sig i.subject).mapError .badBinding).map some

/-- The row of an introduction: no service, no pairing stamp, no hint. -/
def introducedEntry (i : Introduction) (userId : Option String) : PeerEntry :=
  { endpointId := i.subject
    nickname := i.nickname
    services := []
    pairedAt := none
    userId
    lastAddr := none }

/-- A revoked identity is not installed. -/
def refuseRevoked (db : PairDb) : Option String → Except IntroduceError Unit
  | some userId => ensure (!(db.store J).isUserRevoked userId) (.principalRevoked userId)
  | none => .ok ()

/-- `introduce_peer`, on the node of the endpoint `own`. -/
def introducePeer (own : EndpointId) (db : PairDb) (i : Introduction) :
    Except IntroduceError PairDb := do
  ensure (i.subject ≠ own) .ownEndpoint
  -- the trust chain ends at a ceremony of ours
  ensure ((db.list J).any fun e => e.pairedAt.isSome && e.userId = some i.endorsedBy)
    .unknownEndorser
  (verifyEndorsement P i.endorsedBy i.evidence i.subject i.subjectUserId).mapError .badEndorsement
  let userId ← i.verifiedUserId P
  refuseRevoked J db userId
  ensure (!nicknameTaken J db i.nickname i.subject) (.nicknameTaken i.nickname)
  ensure (!(db.resolve J i.subject).any (·.pairedAt.isSome)) .alreadyPaired
  .ok (db.add J (introducedEntry i userId))

/-! ## removals -/

/-- The row reads, and has this name. -/
def named (nickname : String) (row : EndpointId × List UInt8) : Bool :=
  (J.fromSlice row.2).toOption.any (·.nickname = nickname)

/-- `PeerStore::remove`, and whether a row was removed; a corrupt row stays. -/
def PairDb.remove (db : PairDb) (nickname : String) : PairDb × Bool :=
  ({ db with peers := db.peers.filter (!named J nickname ·) }, db.peers.any (named J nickname))

/-! ## what the store keeps -/

/-- A user id that a device proved. -/
def IsUserId (userId : String) : Prop := ∃ bytes, userId = encodeB64u P bytes

/-- The rows are in key order, each under its own endpoint, and every identity is
a proven one. -/
structure PairDb.Proven (db : PairDb) : Prop where
  ordered : db.peers.Pairwise fun r r' => decide (r.1.toList < r'.1.toList) = true
  keyed : db.WellKeyed J
  userIds : ∀ e ∈ db.list J, ∀ userId, e.userId = some userId → IsUserId P userId

variable {P J} {db db' : PairDb} {entry e e' : PeerEntry} {userId nickname : String}

/-- A store without rows claims no identity. -/
theorem PairDb.proven_empty {db : PairDb} (h : db.peers = []) : db.Proven P J where
  ordered := by simp [h]
  keyed r hr := by simp [h] at hr
  userIds e he := by simp [PairDb.list, h] at he

/-- Two rows of one endpoint are one row. -/
theorem PairDb.Proven.eq_of_endpointId (h : db.Proven P J) (he : e ∈ db.list J)
    (he' : e' ∈ db.list J) (heid : e.endpointId = e'.endpointId) : e = e' := by
  obtain ⟨r, hr, hread⟩ := mem_list.mp he
  obtain ⟨r', hr', hread'⟩ := mem_list.mp he'
  have hkey : r.1 = r'.1 := by
    rw [← h.keyed r hr e hread, ← h.keyed r' hr' e' hread', heid]
  have hsame : r = r' :=
    eq_of_key_eq (fun a b : EndpointId => decide (a.toList < b.toList)) db.peers
      (by simp [List.lt_irrefl]) h.ordered hr hr' hkey
  rw [hsame, hread'] at hread
  exact (Except.ok.inj hread).symm

/-- A row that was resolved is the first of its endpoint. -/
theorem PairDb.Proven.resolve_of_mem (h : db.Proven P J) (he : e ∈ db.list J) :
    db.resolve J e.endpointId = some e := by
  obtain ⟨r, hr, hread⟩ := mem_list.mp he
  have hkey : e.endpointId = r.1 := h.keyed r hr e hread
  have hrow : rowOf r.1 db.peers = some r.2 := by
    cases hfound : rowOf r.1 db.peers with
    | none => exact absurd hfound (rowOf_ne_none hr)
    | some row =>
        have hsame : (r.1, row) = r :=
          eq_of_key_eq (fun a b : EndpointId => decide (a.toList < b.toList)) db.peers
            (by simp [List.lt_irrefl]) h.ordered (mem_of_rowOf hfound) hr rfl
        rw [← hsame]
  rw [resolve, hkey, hrow, Option.bind_some, hread]
  rfl

/-- A row that is added keeps the store proven, if its identity is a user id. -/
theorem PairDb.Proven.add (h : db.Proven P J)
    (hentry : ∀ userId, entry.userId = some userId → IsUserId P userId) :
    (db.add J entry).Proven P J where
  ordered := PairDb.ordered_upsert h.ordered entry.endpointId _
  keyed := h.keyed.add entry
  userIds e he := by
    rcases mem_of_mem_list_add he with rfl | he
    · exact hentry
    · exact h.userIds e he

/-- An attestation that verifies is of a user id. -/
theorem isUserId_of_verifyPresented {userPk sig : String} {eid : EndpointId}
    (h : verifyPresented P userPk sig eid = .ok userId) : IsUserId P userId := by
  obtain ⟨bytes, pk, raw, -, -, -, -, huserId⟩ := verifyPresented_ok h
  exact ⟨pk.toList, huserId⟩

/-- An identity that was verified, where one was presented, is a user id. -/
theorem isUserId_of_verifiedUserId {userPk sig : Option String} {eid : EndpointId}
    (h : verifiedUserId P userPk sig eid = some userId) : IsUserId P userId := by
  unfold verifiedUserId at h
  split at h
  · next pk sig =>
    exact isUserId_of_verifyPresented (toOption_eq_some.mp h)
  · contradiction

/-- A plan to admit is for a user id. -/
theorem isUserId_of_plan {a : Attestation} {plan : AdmitPlan}
    (h : attestationDecision P J db a = .ok plan) : IsUserId P plan.userId := by
  simp only [attestationDecision, bind_eq_ok] at h
  obtain ⟨-, -, h⟩ := h
  split at h
  · simp only [bind_eq_ok, mapError_eq_ok] at h
    obtain ⟨userId, hpresented, -, -, -, -, h⟩ := h
    split at h
    · contradiction
    · obtain rfl := Except.ok.inj h
      exact isUserId_of_verifyPresented hpresented
  · contradiction

/-- Whoever resolves to an identity resolves to a user id. -/
theorem PairDb.Proven.userId_of_resolve (h : db.Proven P J) {eid : EndpointId}
    (huserId : (db.resolve J eid).bind (·.userId) = some userId) : IsUserId P userId := by
  obtain ⟨e, hresolve, huserId⟩ := Option.bind_eq_some_iff.mp huserId
  exact h.userIds e (mem_list_of_resolve hresolve) userId huserId

/-- A call of `Pairing.Rows` writes an identity it verified, or the one that the
row had. -/
theorem PairDb.Proven.writeRow (h : db.Proven P J) {call : PairCall}
    (hwrite : writeRow P J db call = some db') : db'.Proven P J := by
  cases wrote_of_writeRow hwrite with
  | inviterSide r =>
      refine h.add fun userId huserId => ?_
      rcases Option.or_eq_some_iff.mp huserId with hverified | ⟨-, hkept⟩
      · exact isUserId_of_verifiedUserId hverified
      · exact h.userId_of_resolve hkept
  | redeemerSide r =>
      refine h.add fun userId huserId => ?_
      rcases Option.or_eq_some_iff.mp huserId with hverified | ⟨-, hkept⟩
      · exact isUserId_of_verifiedUserId hverified
      · exact h.userId_of_resolve hkept
  | attestation a hplan =>
      refine h.add fun userId huserId => ?_
      obtain rfl := Option.some.inj huserId
      exact isUserId_of_plan hplan
  | @setLastAddr eid lastAddr raw entry hrow hread =>
      have hmem : entry ∈ db.list J := mem_list.mpr ⟨(eid, raw), mem_of_rowOf hrow, hread⟩
      have heid : entry.endpointId = eid := h.keyed (eid, raw) (mem_of_rowOf hrow) entry hread
      subst heid
      have hadd : (db.add J (hintedEntry entry lastAddr)).Proven P J :=
        h.add (h.userIds entry hmem)
      exact hadd

/-- What an introduction that succeeds has checked, and the row it writes. -/
structure IntroducedRow (P : Primitives) (J : PeerJson) (db db' : PairDb) (i : Introduction)
    (userId : Option String) : Prop where
  known : ∃ e ∈ db.list J, e.pairedAt.isSome = true ∧ e.userId = some i.endorsedBy
  endorsed : verifyEndorsement P i.endorsedBy i.evidence i.subject i.subjectUserId = .ok ()
  verified : i.verifiedUserId P = .ok userId
  unrevoked : ∀ uid, userId = some uid → (db.store J).isUserRevoked uid = false
  unpaired : ∀ e, db.resolve J i.subject = some e → e.pairedAt = none
  added : db' = db.add J (introducedEntry i userId)

/-- An introduction that succeeds leaves the row that is said. -/
theorem introducePeer_ok {own : EndpointId} {i : Introduction}
    (h : introducePeer P J own db i = .ok db') : ∃ userId, IntroducedRow P J db db' i userId := by
  simp only [introducePeer, bind_eq_ok, ensure_eq_ok, mapError_eq_ok] at h
  obtain ⟨_, -, _, hknown, _, hendorsed, userId, hverified, _, hrevoked, _, -, _, hunpaired,
      hadded⟩ := h
  refine ⟨userId, ?_, hendorsed, hverified, ?_, ?_, (Except.ok.inj hadded).symm⟩
  · simpa using hknown
  · rintro uid rfl
    simpa [refuseRevoked] using hrevoked
  · intro e he
    simpa [he] using hunpaired

/-- A binding that the subject presents proves the identity of the row. -/
theorem Introduction.verifiedUserId_some {i : Introduction}
    (h : i.verifiedUserId P = .ok (some userId)) :
    ∃ userPk sig, i.subjectUserId = some userPk ∧ i.subjectBinding = some sig ∧
      verifyPresented P userPk sig i.subject = .ok userId := by
  unfold verifiedUserId at h
  split at h
  · simp at h
  · contradiction
  · contradiction
  · next userPk sig hpk hsig =>
    refine ⟨userPk, sig, hpk, hsig, ?_⟩
    cases hpresented : verifyPresented P userPk sig i.subject with
    | error err => simp [hpresented, Except.map] at h
    | ok proven => simpa [hpresented, Except.map] using h

/-- An introduction keeps the store proven. -/
theorem PairDb.Proven.introducePeer (h : db.Proven P J) {own : EndpointId} {i : Introduction}
    (hintroduce : introducePeer P J own db i = .ok db') : db'.Proven P J := by
  obtain ⟨userId, hrow⟩ := introducePeer_ok hintroduce
  rw [hrow.added]
  refine h.add fun uid huid => ?_
  obtain rfl : userId = some uid := huid
  obtain ⟨userPk, sig, -, -, hpresented⟩ := Introduction.verifiedUserId_some hrow.verified
  exact isUserId_of_verifyPresented hpresented

/-! ## what a removal leaves -/

/-- A removal leaves the rows of other names. -/
theorem PairDb.mem_list_remove :
    e ∈ (db.remove J nickname).1.list J ↔ e ∈ db.list J ∧ e.nickname ≠ nickname := by
  have hnamed : ∀ r, J.fromSlice r.2 = .ok e → (named J nickname r ↔ e.nickname = nickname) := by
    intro r hread
    simp [named, hread, Except.toOption]
  simp only [mem_list, remove, List.mem_filter, Bool.not_eq_true']
  constructor
  · rintro ⟨r, ⟨hr, hkept⟩, hread⟩
    refine ⟨⟨r, hr, hread⟩, fun hname => ?_⟩
    rw [(hnamed r hread).mpr hname] at hkept
    contradiction
  · rintro ⟨⟨r, hr, hread⟩, hname⟩
    refine ⟨r, ⟨hr, ?_⟩, hread⟩
    rw [← Bool.not_eq_true]
    exact fun hkept => hname ((hnamed r hread).mp hkept)

/-- A removal keeps the store proven. -/
theorem PairDb.Proven.remove (h : db.Proven P J) (nickname : String) :
    (db.remove J nickname).1.Proven P J where
  ordered := h.ordered.filter _
  keyed r hr := h.keyed r (List.mem_of_mem_filter hr)
  userIds e he := h.userIds e (mem_list_remove.mp he).1

end Introduce

end Mcpmesh
