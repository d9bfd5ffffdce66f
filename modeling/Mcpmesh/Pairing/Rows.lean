import Mcpmesh.Gate.Allowlist
import Mcpmesh.Lib.Table
import Mcpmesh.Pairing.Invites
import Mcpmesh.Trust.Statements

/-!
# Mcpmesh.Pairing.Rows

The writers of a pair row (`node/src/pairing/rendezvous.rs`,
`node/src/allowlist.rs`): the inviter's side and the redeemer's side of a
redemption, a device attestation, and the refresh of a dial hint.

Every writer reads the row, rebuilds the whole of it and puts it back, so what
it keeps is what its own merge rule says (`inviterEntry`, `redeemerEntry`,
`attestedEntry`, `hintedEntry`).  `RowKept` is what all of them keep.
-/

namespace Mcpmesh

open Lib

/-! ## the store -/

/-- The JSON of a pair row. -/
structure PeerJson where
  /-- `serde_json::to_vec`. -/
  toVec : PeerEntry → List UInt8
  /-- `serde_json::from_slice`. -/
  fromSlice : List UInt8 → Except String PeerEntry
  fromSlice_toVec : ∀ entry, fromSlice (toVec entry) = .ok entry

/-- The three tables of `state.redb`, their rows in key order. -/
structure PairDb where
  peers : List (EndpointId × List UInt8)
  revoked : List (EndpointId × List UInt8)
  revokedUsers : List (String × List UInt8)

namespace PairDb

variable (J : PeerJson) (db : PairDb)

/-- What the readers of the store see. -/
def store : PeerStore where
  revoked eid := .ok (rowOf eid db.revoked)
  peers eid := .ok (rowOf eid db.peers)
  revokedUsers userId := .ok (rowOf userId db.revokedUsers)
  fromSlice := J.fromSlice

/-- `PeerStore::resolve`: a corrupt row is no row. -/
def resolve (eid : EndpointId) : Option PeerEntry :=
  (rowOf eid db.peers).bind fun raw => (J.fromSlice raw).toOption

/-- `PeerStore::list`: corrupt rows are skipped. -/
def list : List PeerEntry := db.peers.filterMap fun r => (J.fromSlice r.2).toOption

def entriesForUser (userId : String) : List PeerEntry :=
  (db.list J).filter fun e => e.userId = some userId

def isRevoked (eid : EndpointId) : Bool := (rowOf eid db.revoked).isSome

/-- `PeerStore::add`: insert or replace the row of the entry's endpoint. -/
def add (entry : PeerEntry) : PairDb :=
  { db with
    peers := upsert (fun a b => a.toList < b.toList) entry.endpointId (J.toVec entry) db.peers }

/-- A write keeps rows in the order of their keys. -/
theorem ordered_upsert {α : Type} {rows : List (EndpointId × α)}
    (h : rows.Pairwise fun r r' => decide (r.1.toList < r'.1.toList) = true) (eid : EndpointId)
    (row : α) : (upsert (fun a b => a.toList < b.toList) eid row rows).Pairwise
      fun r r' => decide (r.1.toList < r'.1.toList) = true := by
  refine pairwise_upsert (fun a b : EndpointId => decide (a.toList < b.toList)) _ _ _ ?_ ?_ h
  · intro a b c hab hbc
    simp only [decide_eq_true_eq] at hab hbc ⊢
    exact List.lt_trans hab hbc
  · intro a b hne hnot
    simp only [decide_eq_false_iff_not, List.not_lt, decide_eq_true_eq] at hnot ⊢
    refine (List.le_iff_lt_or_eq.mp hnot).resolve_right fun heq => hne ?_
    exact (List.Vector.toList_injective heq).symm

variable {J db}

theorem resolve_add_self (entry : PeerEntry) :
    (db.add J entry).resolve J entry.endpointId = some entry := by
  simp [resolve, add, J.fromSlice_toVec, Except.toOption]

/-- An add leaves the rows of the other endpoints alone. -/
theorem resolve_add_of_ne {entry : PeerEntry} {eid : EndpointId} (h : eid ≠ entry.endpointId) :
    (db.add J entry).resolve J eid = db.resolve J eid := by
  rw [resolve, resolve, add, rowOf_upsert_of_ne _ _ _ _ h]

end PairDb

/-! ## the merge rules -/

/-- A fresh observation refreshes the hint, learning nothing preserves it. -/
def mergeHint (observed existing : Option String) : Option String := observed.or existing

/-- Our own name for a redeemer when the invite carries one, else its claim. -/
def effectiveRedeemerNickname (peerNickname : Option String) (claimed : String) : String :=
  peerNickname.getD claimed

section Rows

variable (P : Primitives) (J : PeerJson)

/-- `binding::verify_presented`: the user id that a presented binding of the
authenticated endpoint proves. -/
def verifyPresented (userPk bindingSig : String) (authenticated : EndpointId) :
    Except RosterError String := do
  let bytes ← decodeB64u P userPk
  let userPk ← okOr (toArray 32 bytes) .badSignature
  let sig ← decodeB64u P bindingSig
  verifyDeviceBinding P userPk authenticated sig
  .ok (encodeB64u P userPk.toList)

/-- What a presented binding that proves an identity went through. -/
theorem verifyPresented_ok {P : Primitives} {userPk bindingSig userId : String}
    {authenticated : EndpointId}
    (h : verifyPresented P userPk bindingSig authenticated = .ok userId) :
    ∃ bytes pk sig, decodeB64u P userPk = .ok bytes ∧
      okOr (toArray 32 bytes) RosterError.badSignature = .ok pk ∧
      decodeB64u P bindingSig = .ok sig ∧ verifyDeviceBinding P pk authenticated sig = .ok () ∧
      userId = encodeB64u P pk.toList := by
  simp only [verifyPresented, bind_eq_ok] at h
  obtain ⟨bytes, hbytes, pk, hpk, sig, hsig, _, hbinding, hdone⟩ := h
  exact ⟨bytes, pk, sig, hbytes, hpk, hsig, hbinding, (Except.ok.inj hdone).symm⟩

/-- An absent or invalid binding proves no identity. -/
def verifiedUserId (userPk bindingSig : Option String) (authenticated : EndpointId) :
    Option String :=
  match userPk, bindingSig with
  | some pk, some sig => (verifyPresented P pk sig authenticated).toOption
  | _, _ => none

/-- A hello on the pairing wire, with the endpoint TLS authenticated. -/
structure Hello where
  tlsId : EndpointId
  redeemerNickname : String
  userPk : Option String
  bindingSig : Option String

/-- A redeemed invite on the inviter's side: the hello, and the direct address
of the live connection. -/
structure InviterSide where
  invite : Invite
  hello : Hello
  observed : Option String
  now : String

/-- A redemption on the redeemer's side, from the inviter's reply on. -/
structure RedeemerSide where
  invite : Invite
  asNickname : Option String
  userPk : Option String
  bindingSig : Option String
  observed : Option String
  now : String

structure Attestation where
  admitAttested : Bool
  hello : Hello
  now : String

/-- The row that the inviter writes: an existing name, dial directory and
pairing stamp stay. -/
def inviterEntry (r : InviterSide) (existing : Option PeerEntry) : PeerEntry :=
  { endpointId := r.hello.tlsId
    nickname := (existing.map (·.nickname)).getD
      (effectiveRedeemerNickname r.invite.peerNickname r.hello.redeemerNickname)
    services := (existing.map (·.services)).getD []
    pairedAt := (existing.bind (·.pairedAt)).or (some r.now)
    userId := (verifiedUserId P r.hello.userPk r.hello.bindingSig r.hello.tlsId).or
      (existing.bind (·.userId))
    lastAddr := mergeHint r.observed (existing.bind (·.lastAddr)) }

/-- `for svc in granted { if !services.contains(&svc) { services.push(svc) } }`. -/
def unionServices (services granted : List String) : List String :=
  granted.foldl (fun services svc => if svc ∈ services then services else services ++ [svc])
    services

def RedeemerSide.localName (r : RedeemerSide) : String := r.asNickname.getD r.invite.nickname

/-- The row that the redeemer writes: the services accumulate, the name and the
stamp are new. -/
def redeemerEntry (r : RedeemerSide) (existing : Option PeerEntry) : PeerEntry :=
  { endpointId := r.invite.inviterId
    nickname := r.localName
    services := unionServices ((existing.map (·.services)).getD []) r.invite.services
    pairedAt := some r.now
    userId := (verifiedUserId P r.userPk r.bindingSig r.invite.inviterId).or
      (existing.bind (·.userId))
    lastAddr := mergeHint r.observed (existing.bind (·.lastAddr)) }

/-- What an accepted attestation will write. -/
structure AdmitPlan where
  userId : String
  nickname : String
  services : List String

def attestedEntry (a : Attestation) (plan : AdmitPlan) (prior : Option PeerEntry) : PeerEntry :=
  { endpointId := a.hello.tlsId
    nickname := plan.nickname
    services := plan.services
    pairedAt := (prior.bind (·.pairedAt)).or (some a.now)
    userId := some plan.userId
    lastAddr := prior.bind (·.lastAddr) }

def hintedEntry (entry : PeerEntry) (lastAddr : String) : PeerEntry :=
  { entry with lastAddr := some lastAddr }

/-! ## the writers -/

/-- Another peer already has this name. -/
def nicknameTaken (db : PairDb) (nickname : String) (eid : EndpointId) : Bool :=
  (db.list J).any fun e => e.nickname = nickname && e.endpointId ≠ eid

/-- The identity of the row is revoked. -/
def userRevoked (db : PairDb) (userId : Option String) : Bool :=
  userId.any ((db.store J).isUserRevoked ·)

/-- `handle_inviter_side` after the redemption; `none` when it refuses. -/
def handleInviterSide (db : PairDb) (r : InviterSide) : Option PairDb :=
  let claimed := effectiveRedeemerNickname r.invite.peerNickname r.hello.redeemerNickname
  let existing := db.resolve J r.hello.tlsId
  if existing.isNone && nicknameTaken J db claimed r.hello.tlsId then none
  else if userRevoked J db (inviterEntry P r existing).userId then none
  else some (db.add J (inviterEntry P r existing))

/-- `redeem_invite`; `none` when it refuses, and for a self-enrollment, which
writes no row. -/
def redeemInvite (db : PairDb) (r : RedeemerSide) : Option PairDb :=
  if r.invite.asSelf then none
  else if nicknameTaken J db r.localName r.invite.inviterId then none
  else if (db.store J).isRefused r.invite.inviterId then none
  else if userRevoked J db (verifiedUserId P r.userPk r.bindingSig r.invite.inviterId) then none
  else some (db.add J (redeemerEntry P r (db.resolve J r.invite.inviterId)))

/-- The `retain` loop over the other rows of the person. -/
def sharedServices (first : PeerEntry) (rest : List PeerEntry) : List String :=
  rest.foldl (fun services e => services.filter (· ∈ e.services)) first.services

/-- The loop keeps what every row has. -/
theorem mem_sharedServices {first : PeerEntry} {rest : List PeerEntry} {svc : String} :
    svc ∈ sharedServices first rest ↔ ∀ e ∈ first :: rest, svc ∈ e.services := by
  rw [sharedServices, List.forall_mem_cons]
  generalize first.services = services
  induction rest generalizing services with
  | nil => simp
  | cons e rest ih => simp [ih, and_assoc]

/-- The authorization of an attestation; the error is a reason for the log. -/
def attestationDecision (db : PairDb) (a : Attestation) : Except String AdmitPlan := do
  ensure a.admitAttested "not enabled on this node"
  match a.hello.userPk, a.hello.bindingSig with
  | some userPk, some sig =>
      let userId ← (verifyPresented P userPk sig a.hello.tlsId).mapError fun _ =>
        "binding does not verify against the authenticated endpoint"
      ensure (!db.isRevoked a.hello.tlsId) "endpoint is revoked"
      ensure (!(db.store J).isUserRevoked userId) "identity is revoked"
      match db.entriesForUser J userId with
      | [] => .error "no existing row for that identity"
      | first :: rest =>
          .ok { userId, nickname := first.nickname, services := sharedServices first rest }
  | _, _ => .error "no binding presented"

/-- `handle_attestation`; `none` when it refuses. -/
def handleAttestation (db : PairDb) (a : Attestation) : Option PairDb :=
  match attestationDecision P J db a with
  | .error _ => none
  | .ok plan => some (db.add J (attestedEntry a plan (db.resolve J a.hello.tlsId)))

/-- `PeerStore::set_last_addr`; `none` when nothing is written: no row, a row
that does not read, or the same hint. -/
def setLastAddr (db : PairDb) (eid : EndpointId) (lastAddr : String) : Option PairDb :=
  match rowOf eid db.peers with
  | none => none
  | some raw =>
      match J.fromSlice raw with
      | .error _ => none
      | .ok entry =>
          if entry.lastAddr = some lastAddr then none
          else
            some { db with
              peers := upsert (fun a b => a.toList < b.toList) eid
                (J.toVec (hintedEntry entry lastAddr)) db.peers }

/-! ## sequences -/

/-- What is done to the store. -/
inductive PairCall where
  | inviterSide (r : InviterSide)
  | redeemerSide (r : RedeemerSide)
  | attestation (a : Attestation)
  | setLastAddr (eid : EndpointId) (lastAddr : String)

/-- The call's row, or `none` when it wrote none. -/
def writeRow (db : PairDb) : PairCall → Option PairDb
  | .inviterSide r => handleInviterSide P J db r
  | .redeemerSide r => redeemInvite P J db r
  | .attestation a => handleAttestation P J db a
  | .setLastAddr eid lastAddr => setLastAddr J db eid lastAddr

/-- One call; the flag says whether it wrote. -/
def pairStep (db : PairDb) (call : PairCall) : PairDb × Bool :=
  match writeRow P J db call with
  | some db' => (db', true)
  | none => (db, false)

/-- What a call keeps of a row it finds: a proven identity and a dial hint are
never lost; the redeemer's side only adds services; the inviter's side leaves
the services, the name and the first pairing stamp. -/
structure RowKept (call : PairCall) (entry entry' : PeerEntry) : Prop where
  userId : entry.userId.isSome → entry'.userId.isSome
  lastAddr : entry.lastAddr.isSome → entry'.lastAddr.isSome
  redeemerSide : ∀ r, call = .redeemerSide r → entry.services ⊆ entry'.services
  inviterSide : ∀ r, call = .inviterSide r →
    entry'.services = entry.services ∧ entry'.nickname = entry.nickname ∧
      ∀ at?, entry.pairedAt = some at? → entry'.pairedAt = some at?

variable {P J} {db db' : PairDb} {call : PairCall} {entry : PeerEntry} {eid : EndpointId}

theorem RowKept.refl (call : PairCall) (entry : PeerEntry) : RowKept call entry entry :=
  ⟨id, id, fun _ _ => List.Subset.refl entry.services, fun _ _ => ⟨rfl, rfl, fun _ h => h⟩⟩

/-- Whichever of the two has it, the merge has it. -/
theorem isSome_or {α : Type*} (a : Option α) {b : Option α} (h : b.isSome) : (a.or b).isSome := by
  cases a with
  | none => exact h
  | some _ => rfl

/-- A union loses no service the row had. -/
theorem subset_unionServices (services granted : List String) :
    services ⊆ unionServices services granted := by
  rw [unionServices]
  induction granted generalizing services with
  | nil => exact List.Subset.refl services
  | cons svc granted ih =>
      rw [List.foldl_cons]
      split
      · exact ih services
      · exact List.Subset.trans (List.subset_append_left services [svc]) (ih _)

/-! ### the merge rules keep a row -/

/-- The inviter's merge keeps what the row had. -/
theorem inviterEntry_kept (r : InviterSide) (entry : PeerEntry) :
    RowKept (.inviterSide r) entry (inviterEntry P r (some entry)) where
  userId h := isSome_or _ h
  lastAddr h := isSome_or _ h
  redeemerSide _ h := nomatch h
  inviterSide _ _ := ⟨rfl, rfl, fun at? h => by simp [inviterEntry, h]⟩

/-- The redeemer's merge keeps what the row had. -/
theorem redeemerEntry_kept (r : RedeemerSide) (entry : PeerEntry) :
    RowKept (.redeemerSide r) entry (redeemerEntry P r (some entry)) where
  userId h := isSome_or _ h
  lastAddr h := isSome_or _ h
  redeemerSide _ _ := subset_unionServices entry.services r.invite.services
  inviterSide _ h := nomatch h

/-- An attestation keeps what the row had, as far as it may. -/
theorem attestedEntry_kept (a : Attestation) (plan : AdmitPlan) (entry : PeerEntry) :
    RowKept (.attestation a) entry (attestedEntry a plan (some entry)) where
  userId _ := rfl
  lastAddr h := h
  redeemerSide _ h := nomatch h
  inviterSide _ h := nomatch h

/-- A dial-back hint changes the address only. -/
theorem hintedEntry_kept (entry : PeerEntry) (eid : EndpointId) (lastAddr : String) :
    RowKept (.setLastAddr eid lastAddr) entry (hintedEntry entry lastAddr) where
  userId h := h
  lastAddr _ := rfl
  redeemerSide _ h := nomatch h
  inviterSide _ h := nomatch h

/-- A writer that rebuilds the row of `eid'` keeps every row, when its merge
rule does. -/
theorem kept_of_add {merge : Option PeerEntry → PeerEntry} {eid' : EndpointId}
    (hid : ∀ existing, (merge existing).endpointId = eid')
    (hkept : ∀ entry, RowKept call entry (merge (some entry)))
    (hentry : db.resolve J eid = some entry) :
    ∃ entry', (db.add J (merge (db.resolve J eid'))).resolve J eid = some entry' ∧
      RowKept call entry entry' := by
  by_cases heq : eid = eid'
  · subst heq
    refine ⟨merge (some entry), ?_, hkept entry⟩
    have hself : (db.add J (merge (some entry))).resolve J (merge (some entry)).endpointId =
        some (merge (some entry)) := PairDb.resolve_add_self (merge (some entry))
    rw [hentry]
    rwa [hid] at hself
  · refine ⟨entry, ?_, .refl call entry⟩
    rw [PairDb.resolve_add_of_ne (by rwa [hid]), hentry]

/-! ### what a call writes -/

/-- What a call that writes has checked, and the row it puts in. -/
inductive Wrote (P : Primitives) (J : PeerJson) (db : PairDb) : PairCall → PairDb → Prop
  | inviterSide (r : InviterSide)
      (hname : (db.resolve J r.hello.tlsId).isNone → nicknameTaken J db
        (effectiveRedeemerNickname r.invite.peerNickname r.hello.redeemerNickname)
        r.hello.tlsId = false)
      (hunrevoked : userRevoked J db
        (inviterEntry P r (db.resolve J r.hello.tlsId)).userId = false) :
      Wrote P J db (.inviterSide r) (db.add J (inviterEntry P r (db.resolve J r.hello.tlsId)))
  | redeemerSide (r : RedeemerSide) (hself : r.invite.asSelf = false)
      (hname : nicknameTaken J db r.localName r.invite.inviterId = false)
      (hlive : (db.store J).isRefused r.invite.inviterId = false)
      (hunrevoked : userRevoked J db
        (verifiedUserId P r.userPk r.bindingSig r.invite.inviterId) = false) :
      Wrote P J db (.redeemerSide r)
        (db.add J (redeemerEntry P r (db.resolve J r.invite.inviterId)))
  | attestation (a : Attestation) {plan : AdmitPlan}
      (hplan : attestationDecision P J db a = .ok plan) :
      Wrote P J db (.attestation a)
        (db.add J (attestedEntry a plan (db.resolve J a.hello.tlsId)))
  | setLastAddr (eid : EndpointId) (lastAddr : String) {raw : List UInt8} {entry : PeerEntry}
      (hrow : rowOf eid db.peers = some raw) (hread : J.fromSlice raw = .ok entry)
      (hnew : entry.lastAddr ≠ some lastAddr) :
      Wrote P J db (.setLastAddr eid lastAddr)
        { db with
          peers := upsert (fun a b => a.toList < b.toList) eid
            (J.toVec (hintedEntry entry lastAddr)) db.peers }

/-- A call that returns wrote one row, or none. -/
theorem wrote_of_writeRow (h : writeRow P J db call = some db') : Wrote P J db call db' := by
  cases call with
  | inviterSide r =>
      rw [writeRow, handleInviterSide] at h
      split at h
      · contradiction
      next hname =>
      split at h
      · contradiction
      next hunrevoked =>
      obtain rfl := Option.some.inj h
      refine .inviterSide r (fun hnone => ?_) (Bool.eq_false_iff.mpr hunrevoked)
      simpa [hnone] using hname
  | redeemerSide r =>
      rw [writeRow, redeemInvite] at h
      split at h
      · contradiction
      next hself =>
      split at h
      · contradiction
      next hname =>
      split at h
      · contradiction
      next hlive =>
      split at h
      · contradiction
      next hunrevoked =>
      obtain rfl := Option.some.inj h
      exact .redeemerSide r (Bool.eq_false_iff.mpr hself) (Bool.eq_false_iff.mpr hname)
        (Bool.eq_false_iff.mpr hlive) (Bool.eq_false_iff.mpr hunrevoked)
  | attestation a =>
      rw [writeRow, handleAttestation] at h
      split at h
      · contradiction
      next plan hplan =>
      obtain rfl := Option.some.inj h
      exact .attestation a hplan
  | setLastAddr eid lastAddr =>
      rw [writeRow, setLastAddr] at h
      split at h
      · contradiction
      next raw hrow =>
      split at h
      · contradiction
      next entry hread =>
      split at h
      · contradiction
      next hnew =>
      obtain rfl := Option.some.inj h
      exact .setLastAddr eid lastAddr hrow hread hnew

/-- **Step lemma**: a call that writes keeps every row it finds. -/
theorem kept_of_writeRow (h : writeRow P J db call = some db')
    (hentry : db.resolve J eid = some entry) :
    ∃ entry', db'.resolve J eid = some entry' ∧ RowKept call entry entry' := by
  cases wrote_of_writeRow h with
  | inviterSide r => exact kept_of_add (fun _ => rfl) (inviterEntry_kept r) hentry
  | redeemerSide r => exact kept_of_add (fun _ => rfl) (redeemerEntry_kept r) hentry
  | @attestation a plan => exact kept_of_add (fun _ => rfl) (attestedEntry_kept a plan) hentry
  | @setLastAddr eid' lastAddr raw stored hraw hstored =>
      rw [PairDb.resolve]
      by_cases heq : eid = eid'
      · subst heq
        have hsame : stored = entry := by
          rw [PairDb.resolve, hraw, Option.bind_some, hstored] at hentry
          exact Option.some.inj hentry
        refine ⟨hintedEntry stored lastAddr, ?_, hsame ▸ hintedEntry_kept stored eid lastAddr⟩
        simp [J.fromSlice_toVec, Except.toOption]
      · refine ⟨entry, ?_, .refl _ entry⟩
        rw [rowOf_upsert_of_ne _ _ _ _ heq]
        exact hentry

/-- The same of any call, written or refused. -/
theorem kept_of_pairStep (call : PairCall) (hentry : db.resolve J eid = some entry) :
    ∃ entry', (pairStep P J db call).1.resolve J eid = some entry' ∧ RowKept call entry entry' := by
  rw [pairStep]
  split
  · rename_i db' hwrite
    exact kept_of_writeRow hwrite hentry
  · exact ⟨entry, hentry, .refl call entry⟩

/-- Re-pairing never loses what was proven: over any sequence of calls a row
stays, with its identity and its dial hint once it has them, and each call
keeps of the row what `RowKept` says of its kind. -/
theorem pairing_keeps_what_was_proven (db : PairDb) (calls : List PairCall) (eid : EndpointId) :
    (∀ entry, db.resolve J eid = some entry →
      ∃ entry', (final (pairStep P J) db calls).resolve J eid = some entry' ∧
        (entry.userId.isSome → entry'.userId.isSome) ∧
        (entry.lastAddr.isSome → entry'.lastAddr.isSome)) ∧
    ∀ t ∈ trace (pairStep P J) db calls, ∀ before, t.pre.resolve J eid = some before →
      ∃ after, t.post.resolve J eid = some after ∧ RowKept t.call before after := by
  refine ⟨fun entry hentry => ?_, fun t ht before hbefore => ?_⟩
  · refine final_invariant (I := fun db : PairDb => ∃ entry', db.resolve J eid = some entry' ∧
      (entry.userId.isSome → entry'.userId.isSome) ∧
      (entry.lastAddr.isSome → entry'.lastAddr.isSome)) (fun db call _ hdb => ?_)
      ⟨entry, hentry, id, id⟩
    obtain ⟨entry₁, hentry₁, huser, haddr⟩ := hdb
    obtain ⟨entry₂, hentry₂, hkept⟩ := kept_of_pairStep (P := P) call hentry₁
    exact ⟨entry₂, hentry₂, fun h => hkept.userId (huser h), fun h => hkept.lastAddr (haddr h)⟩
  · rw [eq_callAt_of_mem_trace ht]
    exact kept_of_pairStep t.call hbefore

end Rows

end Mcpmesh
