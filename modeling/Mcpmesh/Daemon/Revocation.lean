import Mcpmesh.Daemon.Unpair
import Mcpmesh.Daemon.UserKey
import Mcpmesh.Lib.Wire
import Mcpmesh.Net.Admit

/-!
# Mcpmesh.Daemon.Revocation

The verbs that cut a peer off (`node/src/daemon/handlers.rs`): `remove_peer`,
`peer_revoke`, `device_revoke` and `device_revocation_import`, each cut at its
store transactions and at the two halves of its sever pass, among the handlers of
inbound connections (`gate_and_register`, `node/src/daemon/accept.rs`) and the
sessions of `Net.Admit`.

The roster and the clock of the gate stand still.  `cut`, `kept` and `unswept`
are ghosts: the endpoints that a verb which returned `Ok` has targeted, or one
that still runs, and that the gate has refused since; and those whose signed entry
was put in place with no sever pass over their connections since.
-/

namespace Mcpmesh

open Lib

/-! ## the revocation tables -/

structure RevokedEntry where
  endpointId : EndpointId
  revokedAt : UInt64
  reason : Option String
  source : String
  signerUserId : Option String
  issuedAt : Option UInt64
  deriving DecidableEq

/-- The JSON of a revocation row. -/
structure RevokedJson where
  toVec : RevokedEntry → List UInt8
  fromSlice : List UInt8 → Except String RevokedEntry
  fromSlice_toVec : ∀ entry, fromSlice (toVec entry) = .ok entry

/-- What a row that does not read stands for. -/
def unreadableRow (eid : EndpointId) : RevokedEntry :=
  { endpointId := eid, revokedAt := 0, reason := some "unreadable revocation row"
    source := "unknown", signerUserId := none, issuedAt := none }

namespace PairDb

variable (RJ : RevokedJson) (db : PairDb)

/-- `PeerStore::revoked_entry` -/
def revokedEntry (eid : EndpointId) : Option RevokedEntry :=
  (rowOf eid db.revoked).map fun raw =>
    match RJ.fromSlice raw with
    | .ok entry => entry
    | .error _ => unreadableRow eid

/-- `PeerStore::revoke` -/
def revoke (entry : RevokedEntry) : PairDb :=
  { db with
    revoked := upsert (fun a b => a.toList < b.toList) entry.endpointId (RJ.toVec entry)
      db.revoked }

/-- `PeerStore::unrevoke` -/
def unrevoke (eid : EndpointId) : PairDb :=
  { db with revoked := db.revoked.filter (·.1 ≠ eid) }

/-- `PeerStore::revoke_user` -/
def revokeUser (userId : String) (entry : RevokedEntry) : PairDb :=
  { db with
    revokedUsers := upsert (fun a b => decide (a < b)) userId (RJ.toVec entry) db.revokedUsers }

/-- `PeerStore::unrevoke_user` -/
def unrevokeUser (userId : String) : PairDb :=
  { db with revokedUsers := db.revokedUsers.filter (·.1 ≠ userId) }

end PairDb

section RevokedTable

variable {RJ : RevokedJson} {eid : EndpointId}

/-- A revocation is on record. -/
theorem revokedEntry_revoke_self {db : PairDb} (entry : RevokedEntry) :
    (db.revoke RJ entry).revokedEntry RJ entry.endpointId = some entry := by
  simp [PairDb.revokedEntry, PairDb.revoke, RJ.fromSlice_toVec]

/-- It leaves the record of other devices. -/
theorem revokedEntry_revoke_of_ne {db : PairDb} {entry : RevokedEntry}
    (h : eid ≠ entry.endpointId) :
    (db.revoke RJ entry).revokedEntry RJ eid = db.revokedEntry RJ eid := by
  rw [PairDb.revokedEntry, PairDb.revokedEntry, PairDb.revoke, rowOf_upsert_of_ne _ _ _ _ h]

/-- Lifting one adds none. -/
theorem revokedEntry_unrevoke {db : PairDb} {lifted : EndpointId} {entry : RevokedEntry}
    (h : (db.unrevoke lifted).revokedEntry RJ eid = some entry) :
    db.revokedEntry RJ eid = some entry := by
  obtain ⟨raw, hrow, hread⟩ := Option.map_eq_some_iff.mp h
  have hrow : rowOf eid (db.revoked.filter fun r => decide (r.1 ≠ lifted)) = some raw := hrow
  exact Option.map_eq_some_iff.mpr
    ⟨raw, rowOf_of_filter (p := fun key => decide (key ≠ lifted)) hrow, hread⟩

end RevokedTable

/-- An operator's own revocation. -/
def localEntry (eid : EndpointId) (now : UInt64) (reason : Option String) : RevokedEntry :=
  { endpointId := eid, revokedAt := now, reason, source := "local", signerUserId := none
    issuedAt := none }

/-- A token put in place. -/
def signedEntry (token : RevocationToken) (now : UInt64) : RevokedEntry :=
  { endpointId := token.endpoint, revokedAt := now, reason := token.reason, source := "signed"
    signerUserId := some token.userId, issuedAt := some token.issuedAt }

/-! ## principals and endpoints -/

/-- The endpoint of an `eid:` principal. -/
def principalToEndpoint (p : String) : Option EndpointId := do
  let hex ← stripPrefix eidPrefix p
  let bytes ← hexDecode hex
  toArray 32 bytes

section Revocation

variable (J : PeerJson) (roster : RosterGate)

/-- `endpoints_for_principal` -/
def endpointsForPrincipal (db : PairDb) (p : String) : List EndpointId :=
  ((db.list J).filter fun e => principal e.endpointId = p || e.userId = some p).map
      (·.endpointId) ++
    match roster.view with
    | some view =>
        (view.devices.map.entries.filter fun r =>
          principal r.1 = p || r.2.userId = p || p ∈ r.2.groups).map (·.1)
    | none => []

/-- `revocation_targets` -/
def revocationTargets (db : PairDb) (peer : String) : List EndpointId :=
  (endpointsForPrincipal J roster db peer ++
    ((db.list J).filter (·.nickname = peer)).map (·.endpointId)).dedup

/-- The endpoint's row carries the identity. -/
def rowCarries (db : PairDb) (eid : EndpointId) (userId : String) : Bool :=
  ((db.list J).find? (·.endpointId = eid)).any (·.userId = some userId)

/-! ## the calls -/

inductive RevokeVerb where
  | removePeer (nickname : String)
  | peerRevoke (peer : String) (reason : Option String)
  /-- with the token that it signed -/
  | deviceRevoke (token : RevocationToken)
  | deviceRevocationImport (token : RevocationToken)

/-- Where a call is: what its next transaction, or half of a sever pass, needs. -/
inductive RevokePhase where
  | idle
  | started (verb : RevokeVerb)
  | unpairSevering (nickname : String) (principals : List String) (rows : List EndpointId)
  | unpairClosing (nickname : String) (principals : List String) (rows targets : List EndpointId)
  | removing (nickname : String)
  | revokingUser (userId : String) (reason : Option String) (now : UInt64) (ids : List EndpointId)
  /-- `read` is what the loop found for the first of `todo` -/
  | revoking (userId : Option String) (reason : Option String) (now : UInt64)
      (todo ids : List EndpointId) (read : Option (Option RevokedEntry))
      (kept : EndpointId → Bool)
  | importing (token : RevocationToken) (theirs : Bool)
  | importWriting (token : RevocationToken) (prior : Option RevokedEntry)
  | severing (principals : List String) (kept : EndpointId → Bool)
  | closing (principals : List String) (targets : List EndpointId) (kept : EndpointId → Bool)

namespace RevokePhase

/-- The endpoints that the call has targeted so far. -/
def kept : RevokePhase → EndpointId → Bool
  | .revoking _ _ _ _ _ _ kept | .severing _ kept | .closing _ _ kept => kept
  | _ => fun _ => false

/-- Forget the endpoints that are not refused any more. -/
def restrict (refused : EndpointId → Bool) : RevokePhase → RevokePhase
  | .revoking userId reason now todo ids read kept =>
      .revoking userId reason now todo ids read fun e => kept e && refused e
  | .severing principals kept => .severing principals fun e => kept e && refused e
  | .closing principals targets kept => .closing principals targets fun e => kept e && refused e
  | phase => phase

end RevokePhase

/-! ## the node -/

/-- Where the handler of an inbound connection is. -/
inductive InboundPhase where
  | absent
  | accepted (eid : EndpointId)
  | resolved (eid : EndpointId)
  | captured (eid : EndpointId) (rosterUser : Option String)
  | done

structure CutOffNode where
  db : PairDb
  serve : Admit.ServeState
  inbound : Nat → InboundPhase
  calls : Nat → RevokePhase
  cut : EndpointId → Bool
  unswept : EndpointId → Bool

inductive CutOffEvent where
  | call (i : Nat) (verb : RevokeVerb)
  /-- the next transaction, or half of a sever pass, of the call -/
  | act (i : Nat) (now : UInt64)
  | fail (i : Nat)
  | accept (k : Nat) (eid : EndpointId)
  | gate (k : Nat)
  | capture (k : Nat)
  | register (k : Nat)
  | session (event : Admit.Event)
  /-- a row that another verb writes -/
  | add (entry : PeerEntry)
  | unrevoke (eid : EndpointId)
  | unrevokeUser (userId : String)

/-- A connection is tracked by a handler and closed by a sever pass only through
the steps for these. -/
def isTracking : Admit.Event → Bool
  | .accept _ | .sever _ _ => true
  | _ => false

namespace CutOffNode

variable (s : CutOffNode)

def gateOf : ComposedGate := ⟨roster, s.db.store J⟩

/-- The composed gate does not resolve the endpoint. -/
def refuses (now : Int) (eid : EndpointId) : Bool :=
  ((s.gateOf J roster).resolve now eid).isNone

/-- A connection of the endpoint is tracked and not closed. -/
def Live (c : Nat) (eid : EndpointId) : Prop :=
  ∃ t, s.serve.tracked c = some t ∧ t.endpoint = eid ∧ s.serve.closed c = false

def setCall (i : Nat) (phase : RevokePhase) : CutOffNode :=
  { s with calls := Function.update s.calls i phase }

def setInbound (k : Nat) (phase : InboundPhase) : CutOffNode :=
  { s with inbound := Function.update s.inbound k phase }

/-- The second half of `sever_principals`. -/
def sever (principals : List String) (targets : List EndpointId) : CutOffNode :=
  { s with
    serve := { s.serve with
      closed := fun c => s.serve.closed c || s.serve.severs (· ∈ targets) (· ∈ principals) c }
    unswept := fun e => s.unswept e && e ∉ targets }

/-- The verb returns `Ok`. -/
def returned (i : Nat) (targeted : EndpointId → Bool) : CutOffNode :=
  { s.setCall i .idle with cut := fun e => s.cut e || targeted e }

/-- Target one more endpoint. -/
def targeting (eid : EndpointId) (kept : EndpointId → Bool) (e : EndpointId) : Bool :=
  e = eid || kept e

variable (RJ : RevokedJson)

/-- The entry of a token is put in place. -/
def putSigned (token : RevocationToken) (now : UInt64) : CutOffNode :=
  { s with
    db := s.db.revoke RJ (signedEntry token now)
    unswept := targeting token.endpoint s.unswept }

/-- The next step of a call. -/
def act (i : Nat) (now : UInt64) : RevokePhase → CutOffNode
  | .idle => s
  | .started (.removePeer nickname) =>
      let (targets, others) := (s.db.list J).partition fun e => e.nickname = nickname
      let principals := accessPrincipals targets others
      if principals.isEmpty then s.setCall i (.removing nickname)
      else s.setCall i (.unpairSevering nickname principals (targets.map (·.endpointId)))
  | .unpairSevering nickname principals rows =>
      s.setCall i (.unpairClosing nickname principals rows
        (principals.flatMap (endpointsForPrincipal J roster s.db)))
  | .unpairClosing nickname principals _ targets =>
      (s.sever principals targets).setCall i (.removing nickname)
  | .removing nickname =>
      let removed := (s.db.list J).filter (·.nickname = nickname)
      { s with db := (s.db.remove J nickname).1 }.returned i
        fun e => removed.any (·.endpointId = e)
  | .started (.peerRevoke peer reason) =>
      match revocationTargets J roster s.db peer ++
          (if (revocationTargets J roster s.db peer).isEmpty
            then (principalToEndpoint peer).toList else []) with
      | [] => s.setCall i .idle
      | ids =>
          if b64uPrefix.toList.isPrefixOf peer.toList then
            s.setCall i (.revokingUser peer reason now ids)
          else s.setCall i (.revoking none reason now ids ids none fun _ => false)
  | .revokingUser userId reason now ids =>
      { s with db := s.db.revokeUser RJ userId (localEntry (.replicate 32 0) now reason) }.setCall
        i (.revoking (some userId) reason now ids ids none fun _ => false)
  | .revoking userId _ _ [] ids _ kept =>
      s.setCall i (.severing (ids.map principal ++ userId.toList) kept)
  | .revoking userId reason now (eid :: todo) ids none kept =>
      s.setCall i (.revoking userId reason now (eid :: todo) ids (some (s.db.revokedEntry RJ eid))
        kept)
  | .revoking userId reason now (eid :: todo) ids (some existing) kept =>
      let phase := .revoking userId reason now todo ids none (targeting eid kept)
      -- a signed revocation is not overwritten with a local one
      if existing.any (·.source = "signed") then s.setCall i phase
      else { s with db := s.db.revoke RJ (localEntry eid now reason) }.setCall i phase
  | .started (.deviceRevoke token) =>
      (s.putSigned RJ token token.issuedAt).setCall i
        (.severing [principal token.endpoint] (targeting token.endpoint fun _ => false))
  | .started (.deviceRevocationImport token) =>
      s.setCall i (.importing token (rowCarries J s.db token.endpoint token.userId))
  | .importing token theirs =>
      let prior := s.db.revokedEntry RJ token.endpoint
      if !theirs then s.setCall i .idle
      else if (prior.bind (·.issuedAt)).any (token.issuedAt ≤ ·) then
        -- `applied: false`
        s.returned i (targeting token.endpoint fun _ => false)
      else s.setCall i (.importWriting token prior)
  | .importWriting token _ =>
      (s.putSigned RJ token now).setCall i
        (.severing [principal token.endpoint] (targeting token.endpoint fun _ => false))
  | .severing principals kept =>
      let targets := principals.flatMap (endpointsForPrincipal J roster s.db)
      s.setCall i (.closing principals targets fun e => kept e || e ∈ targets)
  | .closing principals targets kept => (s.sever principals targets).returned i kept

/-- The gate, on a connection that was accepted; a refused one is closed by its
handler. -/
def gateInbound (now : Int) (k : Nat) : CutOffNode :=
  match s.inbound k with
  | .accepted eid =>
      if s.refuses J roster now eid then s.setInbound k .done else s.setInbound k (.resolved eid)
  | _ => s

def captureInbound (now : Int) (k : Nat) : CutOffNode :=
  match s.inbound k with
  | .resolved eid => s.setInbound k (.captured eid ((s.gateOf J roster).rosterUser now eid))
  | _ => s

/-- `register_checked` -/
def registerInbound (k : Nat) : CutOffNode :=
  match s.inbound k with
  | .captured eid rosterUser =>
      if (s.gateOf J roster).shouldSeverNow eid rosterUser then s.setInbound k .done
      else { s with serve := (s.serve.step (.accept eid)).getD s.serve }.setInbound k .done
  | _ => s

/-- Forget what the gate resolves. -/
def settle (now : Int) : CutOffNode :=
  { s with
    calls := fun i => (s.calls i).restrict (s.refuses J roster now)
    cut := fun e => s.cut e && s.refuses J roster now e }

end CutOffNode

variable (P : Primitives) (RJ : RevokedJson) (now : Int)

/-- The token's signature verifies under its own user id. -/
def RevocationToken.verified (token : RevocationToken) : Bool :=
  let result : Except RosterError Unit := do
    let userPk ← decode32 P token.userId
    let sig ← decodeB64u P token.sig
    verifyDeviceRevocation P userPk token.endpoint token.issuedAt sig
  result.toOption.isSome

/-- One step, before the ghosts are settled. -/
def cutOffMove (s : CutOffNode) : CutOffEvent → CutOffNode
  | .call i verb =>
      match s.calls i, verb with
      | .idle, .deviceRevocationImport token =>
          if token.verified P then s.setCall i (.started verb) else s
      | .idle, _ => s.setCall i (.started verb)
      | _, _ => s
  | .act i clock => s.act J roster RJ i clock (s.calls i)
  | .fail i => s.setCall i .idle
  | .accept k eid =>
      match s.inbound k with
      | .absent => s.setInbound k (.accepted eid)
      | _ => s
  | .gate k => s.gateInbound J roster now k
  | .capture k => s.captureInbound J roster now k
  | .register k => s.registerInbound J roster k
  | .session event =>
      if isTracking event then s else { s with serve := (s.serve.step event).getD s.serve }
  | .add entry => { s with db := s.db.add J entry }
  | .unrevoke eid => { s with db := s.db.unrevoke eid }
  | .unrevokeUser userId => { s with db := s.db.unrevokeUser userId }

def cutOffStep (s : CutOffNode) (event : CutOffEvent) : CutOffNode × Unit :=
  ((cutOffMove J roster P RJ now s event).settle J roster now, ())

/-- A node without rows and connections. -/
def CutOffNode.start (revoked : List (EndpointId × List UInt8))
    (revokedUsers : List (String × List UInt8)) (services : Admit.Services) : CutOffNode where
  db := { peers := [], revoked, revokedUsers }
  serve := .init services
  inbound _ := .absent
  calls _ := .idle
  cut _ := false
  unswept _ := false

/-! ## the calls and the handlers are apart -/

namespace CutOffEvent

/-- The call that the event is of. -/
def callOf : CutOffEvent → Option Nat
  | .call i _ | .act i _ | .fail i => some i
  | _ => none

end CutOffEvent

variable {J roster P RJ now} {s : CutOffNode} {event : CutOffEvent} {i j k : Nat}

namespace CutOffNode

theorem setCall_calls_of_ne {phase : RevokePhase} (h : i ≠ j) :
    (s.setCall j phase).calls i = s.calls i := Function.update_of_ne h ..

/-- A call steps alone. -/
theorem act_calls_of_ne {clock : UInt64} {phase : RevokePhase} (h : i ≠ j) :
    (s.act J roster RJ j clock phase).calls i = s.calls i := by
  cases phase with
  | idle => rfl
  | started verb =>
      cases verb with
      | removePeer nickname =>
          simp only [act]
          split <;> exact setCall_calls_of_ne h
      | peerRevoke peer reason =>
          simp only [act]
          split
          · exact setCall_calls_of_ne h
          · split <;> exact setCall_calls_of_ne h
      | deviceRevoke token => exact setCall_calls_of_ne h
      | deviceRevocationImport token => exact setCall_calls_of_ne h
  | revoking userId reason at_ todo ids read kept =>
      cases todo with
      | nil => exact setCall_calls_of_ne h
      | cons eid todo =>
          cases read with
          | none => exact setCall_calls_of_ne h
          | some existing =>
              simp only [act]
              split <;> exact setCall_calls_of_ne h
  | importing token theirs =>
      simp only [act]
      split
      · exact setCall_calls_of_ne h
      · split <;> exact setCall_calls_of_ne h
  | _ => exact setCall_calls_of_ne h

/-- A step of one call leaves the others where they are. -/
theorem move_calls_of_ne (h : event.callOf ≠ some i) :
    (cutOffMove J roster P RJ now s event).calls i = s.calls i := by
  cases event with
  | call j verb =>
      have hne : i ≠ j := fun heq => h (by rw [heq]; rfl)
      simp only [cutOffMove]
      split
      · split
        · exact setCall_calls_of_ne hne
        · rfl
      · exact setCall_calls_of_ne hne
      · rfl
  | act j clock => exact act_calls_of_ne fun heq => h (by rw [heq]; rfl)
  | fail j => exact setCall_calls_of_ne fun heq => h (by rw [heq]; rfl)
  | accept k eid =>
      simp only [cutOffMove]
      split <;> rfl
  | gate k =>
      simp only [cutOffMove, gateInbound]
      split
      · split <;> rfl
      · rfl
  | capture k =>
      simp only [cutOffMove, captureInbound]
      split <;> rfl
  | register k =>
      simp only [cutOffMove, registerInbound]
      split
      · split <;> rfl
      · rfl
  | session event =>
      simp only [cutOffMove]
      split <;> rfl
  | _ => rfl

/-- A call that is never made stays idle. -/
theorem idle_of_trace {events : List CutOffEvent} (hidle : s.calls i = .idle)
    (hother : ∀ event ∈ events, event.callOf ≠ some i) :
    ∀ t ∈ trace (cutOffStep J roster P RJ now) s events, t.pre.calls i = .idle := by
  intro t ht
  refine (trace_invariant (I := fun s : CutOffNode => s.calls i = .idle)
    (fun s event hevent h => ?_) hidle ht).1
  have hmove : (cutOffMove J roster P RJ now s event).calls i = .idle :=
    (move_calls_of_ne (hother event hevent)).trans h
  show ((cutOffMove J roster P RJ now s event).calls i).restrict _ = .idle
  rw [hmove]
  rfl

end CutOffNode

end Revocation

/-! ## a revocation row that computes -/

namespace Instance

/-- The fields of an entry, in their order. -/
def revokedWire : Wire RevokedEntry :=
  ((Wire.ofVector 32).pair (Wire.uint64.pair (Wire.string.option.pair
    (Wire.string.pair (Wire.string.option.pair Wire.uint64.option))))).map
    (fun f => ⟨f.1, f.2.1, f.2.2.1, f.2.2.2.1, f.2.2.2.2.1, f.2.2.2.2.2⟩)
    (fun e => (e.endpointId, e.revokedAt, e.reason, e.source, e.signerUserId, e.issuedAt))
    fun _ => rfl

def revokedJson : RevokedJson where
  toVec := revokedWire.put
  fromSlice raw :=
    match revokedWire.get raw with
    | some (entry, []) => .ok entry
    | _ => .error "malformed revocation"
  fromSlice_toVec entry := by
    have hget : revokedWire.get (revokedWire.put entry) = some (entry, []) := by
      simpa using revokedWire.get_put entry []
    rw [hget]

end Instance

end Mcpmesh
