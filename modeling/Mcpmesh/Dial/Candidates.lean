import Mcpmesh.Dial.Address
import Mcpmesh.Dial.Refusal
import Mcpmesh.Gate.Principals

/-!
# Mcpmesh.Dial.Candidates

Which endpoints an outbound call may dial (`node/src/daemon/dial.rs`):
`open_session` (`dialService`), `connect_protocol` (`connectCandidates`) and the
alternate sources of a blob fetch (`blobSourceAddrs`).

A call resolves a selector, asks `refusedBy` for what it found, and reads the
stored hints, each in a read of its own; the node may change in between
(`Moments`).  What is dialled was not refused when the filter asked
(`refused_of_mem_dialService` and its siblings); what was not refused stays.
-/

namespace Mcpmesh.Dial

open Lib

/-! ## what the calls read -/

/-- An `anyhow::Error`: its contexts, outermost first. -/
abbrev Anyhow := List String

/-- `Context::with_context`. -/
def withContext {α : Type} (context : String) (x : Except Anyhow α) : Except Anyhow α :=
  x.mapError (context :: ·)

/-- What the resolvers call of `iroh`. -/
structure Iroh where
  /-- `EndpointId::from_bytes`: whether the bytes are a point. -/
  fromBytes : EndpointId → Except String Unit
  /-- `serde_json::from_str` of an `EndpointAddr`. -/
  fromStr : String → Option EndpointAddr
  /-- `IdleTimeout::try_from`: whether QUIC can encode the milliseconds. -/
  idleTimeout : Nat → Except String Unit

structure PresenceEntry where
  userId : String
  ts : Int

/-- What a dial reads of the node.  `peerRows` is the pair table as a scan sees
it, in key order; a scan may fail, or a row of it. -/
structure MeshState where
  store : PeerStore
  peerRows : Except Anyhow (List (Except Anyhow (List UInt8)))
  view : Option RosterView
  presence : List (EndpointId × PresenceEntry)
  keepAliveSecs : Nat

/-- The states in which one call reads: when it resolves the selector, when the
filter asks about an endpoint, and when it looks for the endpoint's hint. -/
structure Moments where
  resolve : MeshState
  filter : EndpointId → MeshState
  hint : EndpointId → MeshState

/-- `PeerStore::resolve`: a corrupt row is no row. -/
def resolveRow (store : PeerStore) (id : EndpointId) : Except Anyhow (Option PeerEntry) :=
  match store.peers id with
  | .error e => .error [e]
  | .ok row => .ok (row.bind fun raw => (store.fromSlice raw).toOption)

namespace MeshState

variable (mesh : MeshState)

/-- `dial_refused`. -/
def dialRefused (id : EndpointId) : Bool := refusedBy mesh.store mesh.view id

/-- `PeerStore::list`: corrupt rows are skipped. -/
def list : Except Anyhow (List PeerEntry) := do
  let rows ← mesh.peerRows
  let raws ← rows.mapM id
  .ok (raws.filterMap fun raw => (mesh.store.fromSlice raw).toOption)

def entryFor (nickname : String) : Except Anyhow (Option PeerEntry) := do
  let entries ← mesh.list
  .ok (entries.find? (·.nickname = nickname))

def entriesForUser (userId : String) : Except Anyhow (List PeerEntry) := do
  let entries ← mesh.list
  .ok (entries.filter (·.userId = some userId))

/-- The roster's devices of a user; none without a roster. -/
def devicesForUser (userId : String) : List (EndpointId × String) :=
  match mesh.view with
  | some view => view.devicesForUser userId
  | none => []

/-- The endpoints advertising the user, most recent first. -/
def endpointsForUserByRecency (userId : String) : List EndpointId :=
  ((mesh.presence.filter (·.2.userId = userId)).insertionSort fun a b => b.2.ts ≤ a.2.ts).map (·.1)

end MeshState

/-- Whether the filter refused the endpoint. -/
def Moments.refused (m : Moments) (id : EndpointId) : Bool := (m.filter id).dialRefused id

/-- The stored hint of an endpoint; a failed read finds none. -/
def Moments.lastAddr (m : Moments) (id : EndpointId) : Option String :=
  ((resolveRow (m.hint id).store id).toOption.getD none).bind (·.lastAddr)

/-! ## resolving a selector -/

/-- The endpoint an `eid:` principal names, given what follows the prefix. -/
def resolveEid (hex : String) (wrongLength : String) : Except Anyhow EndpointId := do
  let bytes ← okOr (hexDecode hex) ["invalid eid principal: not lowercase hex"]
  okOr (toArray 32 bytes) [wrongLength]

/-- The unfiltered resolution of a selector: the device of an `eid:` principal,
else the roster's devices of a person, then the entry of the nickname and the
entries of the user id, without repetition. -/
def resolveCandidates (mesh : MeshState) (peer : String) : Except Anyhow (List EndpointId) :=
  match stripPrefix eidPrefix peer with
  | some hex => do
      let id ← resolveEid hex "invalid eid principal: expected 32 bytes"
      .ok [id]
  | none => do
      let named ← mesh.entryFor peer
      let entries ← mesh.entriesForUser peer
      let fromStore := (named.toList ++ entries).map (·.endpointId)
      .ok ((mesh.devicesForUser peer).map (·.1) ++ fromStore).eraseDups

/-- The endpoints that may be dialled, and how many were dropped as revoked. -/
structure Candidates where
  dialable : List EndpointId
  refused : Nat

def protocolCandidates (m : Moments) (peer : String) : Except Anyhow Candidates := do
  let resolved ← resolveCandidates m.resolve peer
  let dialable := resolved.filter fun id => !m.refused id
  .ok { dialable, refused := resolved.length - dialable.length }

def revokedRefusal (peer : String) : Anyhow :=
  [peer ++ " is REVOKED on this node — dialling it would hand the request to a device you " ++
    "declared compromised. Use `mcpmesh revoke undo` if that was a mistake"]

/-- `connect_candidates`, for `connect_protocol`. -/
def connectCandidates (m : Moments) (peer : String) : Except Anyhow (List EndpointId) := do
  let c ← protocolCandidates m peer
  if c.dialable.isEmpty then
    if 0 < c.refused then .error (revokedRefusal peer)
    else .error ["no peer '" ++ peer ++ "' — 'status' lists your peers and roster members"]
  else .ok c.dialable

/-! ## blob sources -/

def maxBlobSources : Nat := 32

/-- The scan of the named sources: the endpoints met, their addresses, and how
many names had every device revoked. -/
structure BlobScan where
  seen : List EndpointId
  addrs : List EndpointAddr
  skippedRevoked : Nat

structure BlobSources where
  addrs : List EndpointAddr
  skippedRevoked : Nat

/-- The inner loop: an endpoint met before, or one that is no point, is skipped. -/
def pushSources (I : Iroh) (m : Moments) : BlobScan → List EndpointId → Except Anyhow BlobScan
  | scan, [] => .ok scan
  | scan, id :: ids =>
      if id ∈ scan.seen then pushSources I m scan ids
      else
        match I.fromBytes id with
        | .error _ => pushSources I m { scan with seen := id :: scan.seen } ids
        | .ok () => do
            let entry ← resolveRow (m.hint id).store id
            let addr := storedDialAddr I.fromStr (entry.bind (·.lastAddr)) id
            pushSources I m
              { scan with seen := id :: scan.seen, addrs := scan.addrs ++ [addr] } ids

/-- The outer loop; the `i`th name reads in the moments `at i`. -/
def scanSources (I : Iroh) (moments : Nat → Moments) :
    Nat → BlobScan → List String → Except Anyhow BlobScan
  | _, scan, [] => .ok scan
  | i, scan, name :: names => do
      let c ← protocolCandidates (moments i) name
      ensure (!c.dialable.isEmpty || 0 < c.refused)
        ["no blob source '" ++ name ++ "' — it must be a paired peer, a roster member, or an " ++
          "`eid:`/`b64u:` principal"]
      let skipped := if c.dialable.isEmpty then scan.skippedRevoked + 1 else scan.skippedRevoked
      let scan ← pushSources I (moments i) { scan with skippedRevoked := skipped } c.dialable
      scanSources I moments (i + 1) scan names

def blobSourceAddrs (I : Iroh) (moments : Nat → Moments) (sources : List String) :
    Except Anyhow BlobSources := do
  ensure (sources.length ≤ maxBlobSources)
    ["too many blob sources: " ++ toString sources.length ++ " (the cap is " ++
      toString maxBlobSources ++ ")"]
  let scan ← scanSources I moments 0 { seen := [], addrs := [], skippedRevoked := 0 } sources
  .ok { addrs := scan.addrs, skippedRevoked := scan.skippedRevoked }

/-! ## open_session -/

/-- A session's own transport configuration: no idle timeout from this side, or
one in seconds, and the keepalive. -/
structure TransportConfig where
  maxIdleTimeout : Option Nat
  keepAliveInterval : Nat

/-- An idle timeout must exceed the keepalive and be one that QUIC can encode. -/
def perSessionTransportConfig (I : Iroh) (secs : Option Nat) (keepaliveSecs : Nat) :
    Except Anyhow (Option TransportConfig) :=
  match secs with
  | none => .ok none
  | some 0 => .ok (some { maxIdleTimeout := none, keepAliveInterval := keepaliveSecs })
  | some s => do
      ensure (keepaliveSecs < s)
        ["idle_timeout_secs (" ++ toString s ++ ") must be greater than this node's keepalive " ++
          "interval (" ++ toString keepaliveSecs ++ "s): a keepalive arriving after the idle " ++
          "timer has fired would sever the session on a clock, even against a peer that is " ++
          "alive and answering"]
      (I.idleTimeout (s * 1000)).mapError fun e =>
        ["idle_timeout_secs " ++ toString s ++ " is out of the range QUIC can encode: " ++ e]
      .ok (some { maxIdleTimeout := some s, keepAliveInterval := keepaliveSecs })

/-- What a session is opened over: one device, or the first of several. -/
inductive DialPlan where
  | single (addr : EndpointAddr) (perConn : Option TransportConfig)
  | race (addrs : List EndpointAddr)

/-- The addresses that a plan may dial. -/
def DialPlan.addrs : DialPlan → List EndpointAddr
  | .single addr _ => [addr]
  | .race addrs => addrs

/-- The position in the presence list, or `usize::MAX`. -/
def recencyRank (byRecency : List EndpointId) (id : EndpointId) : Nat :=
  (byRecency.idxOf? id).getD (2 ^ 64 - 1)

/-- The dial's own copy of the role rank of a view. -/
def dialRoleRank (role : String) : Nat :=
  if role = "primary" then 0 else if role = "mirror" then 1 else 2

/-- The order of a race: by role, and by presence within a role. -/
def candidateLe (byRecency : List EndpointId) (a b : EndpointId × String) : Prop :=
  dialRoleRank a.2 < dialRoleRank b.2 ∨
    dialRoleRank a.2 = dialRoleRank b.2 ∧
      recencyRank byRecency a.1 ≤ recencyRank byRecency b.1

instance (byRecency : List EndpointId) : DecidableRel (candidateLe byRecency) :=
  fun _ _ => inferInstanceAs (Decidable (_ ∨ _ ∧ _))

def orderDialCandidates (devices : List (EndpointId × String)) (mesh : MeshState)
    (userId : String) : List EndpointId :=
  (devices.insertionSort (candidateLe (mesh.endpointsForUserByRecency userId))).map (·.1)

def refuseIfRevoked (m : Moments) (id : EndpointId) (peer : String) : Except Anyhow Unit :=
  if m.refused id then .error (revokedRefusal peer) else .ok ()

section OpenSession

variable (I : Iroh) (m : Moments)

/-- The candidates that are not refused and are points, with their hints. -/
def hintedAddrs (candidates : List EndpointId) : Except Anyhow (List EndpointAddr) := do
  let candidates := candidates.filter fun id => !m.refused id
  ensure (!candidates.isEmpty) ["every device of that peer is REVOKED on this node"]
  .ok (candidates.filterMap fun id =>
    (I.fromBytes id).toOption.map fun _ => storedDialAddr I.fromStr (m.lastAddr id) id)

def raceOrReuse (candidates : List EndpointId) : Except Anyhow DialPlan := do
  let addrs ← hintedAddrs I m candidates
  .ok (.race addrs)

/-- Dial the exact endpoint that an `eid:` principal names. -/
def dialByEid (hex : String) (perConn : Option TransportConfig) : Except Anyhow DialPlan := do
  let id ← resolveEid hex "invalid eid principal: expected 32 bytes (64 hex chars)"
  (I.fromBytes id).mapError fun e => ["invalid eid principal: " ++ e]
  .ok (.single (storedDialAddr I.fromStr (m.lastAddr id) id) perConn)

/-- The entry of the nickname, else the one entry of the user id, else the
endpoints of its several entries. -/
def resolvePeer (mesh : MeshState) (peer : String) :
    Except Anyhow (Option PeerEntry × List EndpointId) := do
  match ← mesh.entryFor peer with
  | some e => .ok (some e, [])
  | none =>
      match ← mesh.entriesForUser peer with
      | [] => .ok (none, [])
      | [e] => .ok (some e, [])
      | entries => .ok (none, entries.map (·.endpointId))

/-- Dial the one entry that a selector resolves to. -/
def dialEntry (peer : String) (entry : PeerEntry) (perConn : Option TransportConfig) :
    Except Anyhow DialPlan := do
  refuseIfRevoked m entry.endpointId peer
  (I.fromBytes entry.endpointId).mapError fun e =>
    ["stored endpoint id for '" ++ peer ++ "' is invalid: " ++ e]
  .ok (.single (storedDialAddr I.fromStr entry.lastAddr entry.endpointId) perConn)

def dialServiceWithIdleTimeout (peer service : String) (idleTimeoutSecs : Option Nat) :
    Except Anyhow DialPlan := do
  let perConn ← perSessionTransportConfig I idleTimeoutSecs m.resolve.keepAliveSecs
  let context := "dial " ++ peer ++ "/" ++ service
  match stripPrefix eidPrefix peer with
  | some hex => do
      -- an explicit device is refused before anything else is said about it
      match (hexDecode hex).bind (toArray 32) with
      | some id => refuseIfRevoked m id peer
      | none => .ok ()
      dialByEid I m hex perConn
  | none =>
      match m.resolve.devicesForUser peer with
      | [] => do
          let (single, multi) ← resolvePeer m.resolve peer
          match multi with
          | [] => do
              let entry ← okOr single ["peer '" ++ peer ++ "' is not in the allowlist"]
              dialEntry I m peer entry perConn
          | multi => withContext context (raceOrReuse I m multi)
      | devices =>
          withContext context (raceOrReuse I m (orderDialCandidates devices m.resolve peer))

end OpenSession

/-! ## what a call may dial -/

section Dialled

variable {I : Iroh} {m : Moments} {peer : String} {id : EndpointId}

theorem refuseIfRevoked_eq_ok {u : Unit} :
    refuseIfRevoked m id peer = .ok u ↔ m.refused id = false := by
  unfold refuseIfRevoked
  cases m.refused id <;> simp

theorem mem_dialable {c : Candidates} (h : protocolCandidates m peer = .ok c) :
    id ∈ c.dialable ↔
      m.refused id = false ∧ ∃ ids, resolveCandidates m.resolve peer = .ok ids ∧ id ∈ ids := by
  obtain ⟨ids, hids, h⟩ := bind_eq_ok.mp h
  rw [← Except.ok.inj h, List.mem_filter, Bool.not_eq_true', hids, and_comm]
  simp

theorem connectCandidates_eq_ok {ids : List EndpointId} :
    connectCandidates m peer = .ok ids ↔
      ∃ c, protocolCandidates m peer = .ok c ∧ c.dialable = ids ∧ ids ≠ [] := by
  unfold connectCandidates
  rw [bind_eq_ok]
  refine exists_congr fun c => and_congr_right fun _ => ?_
  cases hc : c.dialable with
  | nil =>
      simp only [List.isEmpty_nil, if_true]
      split
      · simp [eq_comm]
      · simp [eq_comm]
  | cons x xs =>
      simp only [List.isEmpty_cons, Bool.false_eq_true, if_false, Except.ok.injEq]
      exact ⟨fun h => ⟨h, h ▸ List.cons_ne_nil x xs⟩, (·.1)⟩

/-- The addresses of a race are of the candidates that are points and not
refused. -/
theorem mem_hintedAddrs {candidates : List EndpointId} {addrs : List EndpointAddr}
    (h : hintedAddrs I m candidates = .ok addrs) :
    id ∈ addrs.map (·.id) ↔
      id ∈ candidates ∧ m.refused id = false ∧ I.fromBytes id = .ok () := by
  obtain ⟨_, -, h⟩ := bind_eq_ok.mp h
  rw [← Except.ok.inj h]
  simp only [List.mem_map, List.mem_filterMap, List.mem_filter, Bool.not_eq_true']
  constructor
  · rintro ⟨addr, ⟨x, ⟨hx, hrefused⟩, haddr⟩, rfl⟩
    obtain ⟨_, hpoint, rfl⟩ := Option.map_eq_some_iff.mp haddr
    rw [storedDialAddr_id]
    exact ⟨hx, hrefused, toOption_eq_some.mp hpoint⟩
  · rintro ⟨hx, hrefused, hpoint⟩
    exact ⟨_, ⟨id, ⟨hx, hrefused⟩, by rw [hpoint]; rfl⟩, storedDialAddr_id⟩

theorem hintedAddrs_ok {candidates : List EndpointId} (hmem : id ∈ candidates)
    (hrefused : m.refused id = false) : ∃ addrs, hintedAddrs I m candidates = .ok addrs := by
  have hne : (!(candidates.filter fun id => !m.refused id).isEmpty) = true := by
    rw [Bool.not_eq_true', List.isEmpty_eq_false_iff_exists_mem]
    exact ⟨id, List.mem_filter.mpr ⟨hmem, by rw [hrefused]; rfl⟩⟩
  exact ⟨_, by rw [hintedAddrs, hne, ensure_true, ok_bind]⟩

theorem refused_of_mem_raceOrReuse {candidates : List EndpointId} {plan : DialPlan}
    {addr : EndpointAddr} (h : raceOrReuse I m candidates = .ok plan) (haddr : addr ∈ plan.addrs) :
    m.refused addr.id = false := by
  obtain ⟨addrs, haddrs, h⟩ := bind_eq_ok.mp h
  rw [← Except.ok.inj h] at haddr
  exact ((mem_hintedAddrs haddrs).mp (List.mem_map_of_mem haddr)).2.1

/-- An explicit device is the one the principal decodes to. -/
theorem dialByEid_ok {hex : String} {perConn : Option TransportConfig} {plan : DialPlan}
    (h : dialByEid I m hex perConn = .ok plan) :
    ∃ id, (hexDecode hex).bind (toArray 32) = some id ∧
      ∀ addr ∈ plan.addrs, addr.id = id := by
  obtain ⟨id, hid, h⟩ := bind_eq_ok.mp h
  obtain ⟨_, -, h⟩ := bind_eq_ok.mp h
  obtain ⟨bytes, hbytes, hid⟩ := bind_eq_ok.mp hid
  refine ⟨id, ?_, fun addr haddr => ?_⟩
  · rw [okOr_eq_ok.mp hbytes, Option.bind_some, okOr_eq_ok.mp hid]
  · rw [← Except.ok.inj h, DialPlan.addrs, List.mem_singleton] at haddr
    rw [haddr, storedDialAddr_id]

/-- **`open_session` dials no endpoint the filter refused.** -/
theorem refused_of_mem_dialService {service : String} {secs : Option Nat} {plan : DialPlan}
    {addr : EndpointAddr} (h : dialServiceWithIdleTimeout I m peer service secs = .ok plan)
    (haddr : addr ∈ plan.addrs) : m.refused addr.id = false := by
  obtain ⟨perConn, -, h⟩ := bind_eq_ok.mp h
  dsimp only at h
  split at h
  · split at h
    · rename_i id hid
      obtain ⟨_, hrefuse, h⟩ := bind_eq_ok.mp h
      obtain ⟨id', hid', hplan⟩ := dialByEid_ok h
      rw [hid] at hid'
      rw [hplan addr haddr, ← Option.some.inj hid']
      exact refuseIfRevoked_eq_ok.mp hrefuse
    · -- what does not decode is not dialled either
      rename_i hnone
      obtain ⟨id, hid, -⟩ := dialByEid_ok (bind_eq_ok.mp h).choose_spec.2
      rw [hnone] at hid
      contradiction
  · split at h
    · obtain ⟨⟨single, multi⟩, -, h⟩ := bind_eq_ok.mp h
      dsimp only at h
      split at h
      · obtain ⟨entry, -, h⟩ := bind_eq_ok.mp h
        obtain ⟨_, hrefuse, h⟩ := bind_eq_ok.mp h
        obtain ⟨_, -, h⟩ := bind_eq_ok.mp h
        rw [← Except.ok.inj h, DialPlan.addrs, List.mem_singleton] at haddr
        rw [haddr, storedDialAddr_id]
        exact refuseIfRevoked_eq_ok.mp hrefuse
      · exact refused_of_mem_raceOrReuse (mapError_eq_ok.mp h) haddr
    · exact refused_of_mem_raceOrReuse (mapError_eq_ok.mp h) haddr

end Dialled

/-! ### the scan of the blob sources -/

section Scan

variable {I : Iroh} {m : Moments} {moments : Nat → Moments} {scan scan' : BlobScan}
  {ids : List EndpointId} {id : EndpointId}

/-- Every point met has its address. -/
def BlobScan.Covered (I : Iroh) (scan : BlobScan) : Prop :=
  ∀ id ∈ scan.seen, I.fromBytes id = .ok () → id ∈ scan.addrs.map (·.id)

/-- One turn of the inner loop: nothing for an endpoint met before, and else it
is met now, with an address unless it is no point. -/
theorem pushSources_cons (h : pushSources I m scan (id :: ids) = .ok scan') :
    ∃ scan₁, pushSources I m scan₁ ids = .ok scan' ∧
      (id ∈ scan.seen ∧ scan₁ = scan ∨
        scan₁.seen = id :: scan.seen ∧
          (I.fromBytes id ≠ .ok () ∧ scan₁.addrs = scan.addrs ∨
            ∃ addr, addr.id = id ∧ scan₁.addrs = scan.addrs ++ [addr])) := by
  rw [pushSources] at h
  split at h
  · rename_i hseen
    exact ⟨scan, h, .inl ⟨hseen, rfl⟩⟩
  · split at h
    · rename_i e he
      exact ⟨_, h, .inr ⟨rfl, .inl ⟨by rw [he]; simp, rfl⟩⟩⟩
    · obtain ⟨entry, -, h⟩ := bind_eq_ok.mp h
      exact ⟨_, h, .inr ⟨rfl, .inr ⟨_, storedDialAddr_id, rfl⟩⟩⟩

theorem mem_addrs_of_pushSources (h : pushSources I m scan ids = .ok scan') :
    ∀ addr ∈ scan'.addrs, addr ∈ scan.addrs ∨ addr.id ∈ ids := by
  induction ids generalizing scan with
  | nil =>
      rw [← Except.ok.inj h]
      exact fun addr haddr => .inl haddr
  | cons id ids ih =>
      obtain ⟨scan₁, hrest, hturn⟩ := pushSources_cons h
      intro addr haddr
      obtain haddr | haddr := ih hrest addr haddr
      · obtain ⟨-, rfl⟩ | ⟨-, ⟨-, heq⟩ | ⟨pushed, hid, heq⟩⟩ := hturn
        · exact .inl haddr
        · exact .inl (heq ▸ haddr)
        · rw [heq, List.mem_append, List.mem_singleton] at haddr
          obtain haddr | rfl := haddr
          · exact .inl haddr
          · exact .inr (hid ▸ List.mem_cons_self)
      · exact .inr (List.mem_cons_of_mem id haddr)

theorem covered_of_pushSources (h : pushSources I m scan ids = .ok scan') (hc : scan.Covered I) :
    scan'.Covered I ∧ (∀ x ∈ scan.seen, x ∈ scan'.seen) ∧ ∀ x ∈ ids, x ∈ scan'.seen := by
  induction ids generalizing scan with
  | nil =>
      rw [← Except.ok.inj h]
      exact ⟨hc, fun x hx => hx, fun x hx => absurd hx List.not_mem_nil⟩
  | cons id ids ih =>
      obtain ⟨scan₁, hrest, hturn⟩ := pushSources_cons h
      have hstep : scan₁.Covered I ∧ ∀ x ∈ id :: scan.seen, x ∈ scan₁.seen := by
        obtain ⟨hseen, rfl⟩ | ⟨hseen, hturn⟩ := hturn
        · exact ⟨hc, fun x hx => (List.mem_cons.mp hx).elim (fun heq => heq ▸ hseen) fun hx => hx⟩
        · refine ⟨fun x hx hpoint => ?_, fun x hx => hseen ▸ hx⟩
          rw [hseen, List.mem_cons] at hx
          obtain ⟨hno, heq⟩ | ⟨addr, hid, heq⟩ := hturn
          · obtain rfl | hx := hx
            · contradiction
            · exact heq ▸ hc x hx hpoint
          · rw [heq, List.map_append, List.mem_append]
            obtain rfl | hx := hx
            · exact .inr (hid ▸ List.mem_singleton_self _)
            · exact .inl (hc x hx hpoint)
      obtain ⟨hc', hold, hnew⟩ := ih hrest hstep.1
      refine ⟨hc', fun x hx => hold x (hstep.2 x (List.mem_cons_of_mem id hx)), fun x hx => ?_⟩
      obtain rfl | hx := List.mem_cons.mp hx
      · exact hold x (hstep.2 x List.mem_cons_self)
      · exact hnew x hx

/-- One turn of the outer loop. -/
theorem scanSources_cons {i : Nat} {name : String} {names : List String}
    (h : scanSources I moments i scan (name :: names) = .ok scan') :
    ∃ c skipped scan₁, protocolCandidates (moments i) name = .ok c ∧
      pushSources I (moments i) { scan with skippedRevoked := skipped } c.dialable = .ok scan₁ ∧
      scanSources I moments (i + 1) scan₁ names = .ok scan' := by
  obtain ⟨c, hc, h⟩ := bind_eq_ok.mp h
  obtain ⟨_, -, h⟩ := bind_eq_ok.mp h
  obtain ⟨scan₁, hpush, h⟩ := bind_eq_ok.mp h
  exact ⟨c, _, scan₁, hc, hpush, h⟩

/-- An address found by the scan is of an endpoint that was not refused for one
of the names. -/
theorem refused_of_scanSources {i : Nat} {names : List String}
    (h : scanSources I moments i scan names = .ok scan') :
    ∀ addr ∈ scan'.addrs, addr ∈ scan.addrs ∨
      ∃ k < names.length, (moments (i + k)).refused addr.id = false := by
  induction names generalizing i scan with
  | nil =>
      rw [← Except.ok.inj h]
      exact fun addr haddr => .inl haddr
  | cons name names ih =>
      obtain ⟨c, skipped, scan₁, hc, hpush, hrest⟩ := scanSources_cons h
      intro addr haddr
      obtain haddr | ⟨k, hk, hrefused⟩ := ih hrest addr haddr
      · refine (mem_addrs_of_pushSources hpush addr haddr).imp_right fun hmem => ?_
        exact ⟨0, by simp, ((mem_dialable hc).mp hmem).1⟩
      · refine .inr ⟨k + 1, by simpa using hk, ?_⟩
        rw [Nat.add_comm k 1, ← Nat.add_assoc]
        exact hrefused

/-- The scan meets every candidate of every name. -/
theorem covered_of_scanSources {i : Nat} {names : List String}
    (h : scanSources I moments i scan names = .ok scan') (hc : scan.Covered I) :
    scan'.Covered I ∧ (∀ x ∈ scan.seen, x ∈ scan'.seen) ∧
      ∀ k name, names[k]? = some name → ∃ c, protocolCandidates (moments (i + k)) name = .ok c ∧
        ∀ x ∈ c.dialable, x ∈ scan'.seen := by
  induction names generalizing i scan with
  | nil =>
      rw [← Except.ok.inj h]
      exact ⟨hc, fun x hx => hx, fun k name hk => by simp at hk⟩
  | cons name names ih =>
      obtain ⟨c, skipped, scan₁, hcand, hpush, hrest⟩ := scanSources_cons h
      obtain ⟨hc₁, hold₁, hnew₁⟩ := covered_of_pushSources hpush hc
      obtain ⟨hc', hold, hnew⟩ := ih hrest hc₁
      refine ⟨hc', fun x hx => hold x (hold₁ x hx), fun k name' hk => ?_⟩
      cases k with
      | zero =>
          rw [List.getElem?_cons_zero] at hk
          obtain rfl := Option.some.inj hk
          exact ⟨c, hcand, fun x hx => hold x (hnew₁ x hx)⟩
      | succ k =>
          rw [List.getElem?_cons_succ] at hk
          rw [Nat.add_comm k 1, ← Nat.add_assoc]
          exact hnew k name' hk

end Scan

end Mcpmesh.Dial
