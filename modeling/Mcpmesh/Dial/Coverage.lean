import Mcpmesh.Dial.Candidates

/-!
# Mcpmesh.Dial.Coverage

Outbound refusal against inbound refusal: what the composed gate refuses is
refused outbound, nothing that is refused is dialled, and an active device of a
named person that is not refused stays a candidate whatever the presence table
says (`outbound_covers_inbound`).

A device stays under the conditions the dials themselves put on it: an `eid:`
selector names one device and no person, an id that is no point has no address,
and `connect_protocol` and a blob fetch fail when a table read does.
-/

namespace Mcpmesh.Dial

open Lib

/-- The selector is not the principal of one device. -/
def NamesPerson (peer : String) : Prop := stripPrefix eidPrefix peer = none

/-- The installed roster gives the endpoint to the person as an active device. -/
def Rostered (mesh : MeshState) (peer : String) (id : EndpointId) : Prop :=
  ∃ view d, mesh.view = some view ∧ view.resolve id = some d ∧ d.userId = peer

section Kept

variable {I : Iroh} {m : Moments} {peer : String} {id : EndpointId}

/-- A rostered device is among those of its user. -/
theorem Rostered.mem_devicesForUser {mesh : MeshState} (h : Rostered mesh peer id) :
    id ∈ (mesh.devicesForUser peer).map (·.1) := by
  obtain ⟨view, d, hview, hd, huser⟩ := h
  rw [MeshState.devicesForUser, hview]
  exact List.mem_map_of_mem (RosterView.mem_devicesForUser.mpr ⟨d, hd, huser, rfl⟩)

/-- The presence table reorders a race and drops nobody. -/
theorem mem_orderDialCandidates {devices : List (EndpointId × String)} {mesh : MeshState} :
    id ∈ orderDialCandidates devices mesh peer ↔ id ∈ devices.map (·.1) := by
  simp only [orderDialCandidates, List.mem_map, List.mem_insertionSort]

/-- The selector of a person resolves when the pair table can be scanned, to
all the roster's devices of the person among others. -/
theorem resolveCandidates_of_list (hperson : NamesPerson peer) {entries : List PeerEntry}
    (h : m.resolve.list = .ok entries) : ∃ ids, resolveCandidates m.resolve peer = .ok ids := by
  rw [resolveCandidates, hperson, MeshState.entryFor, MeshState.entriesForUser, h]
  exact ⟨_, rfl⟩

/-- Naming a person resolves to each device on the roster. -/
theorem mem_resolveCandidates (hperson : NamesPerson peer) (hdev : Rostered m.resolve peer id)
    {ids : List EndpointId} (h : resolveCandidates m.resolve peer = .ok ids) : id ∈ ids := by
  rw [resolveCandidates, hperson] at h
  obtain ⟨named, -, h⟩ := bind_eq_ok.mp h
  obtain ⟨entries, -, h⟩ := bind_eq_ok.mp h
  rw [← Except.ok.inj h, List.mem_eraseDups, List.mem_append]
  exact .inl hdev.mem_devicesForUser

/-- A device named by its own principal is the one candidate. -/
theorem resolveCandidates_principal (mesh : MeshState) (id : EndpointId) :
    resolveCandidates mesh (principal id) = .ok [id] := by
  rw [resolveCandidates, principal, stripPrefix_append]
  simp only [resolveEid, hexDecode_hexLower, okOr_some, ok_bind, toArray_toList]

/-- A protocol dial tries each device that is not refused. -/
theorem mem_dialable_of_rostered (hperson : NamesPerson peer) (hdev : Rostered m.resolve peer id)
    (hkept : m.refused id = false) {c : Candidates} (h : protocolCandidates m peer = .ok c) :
    id ∈ c.dialable := by
  obtain ⟨ids, hids, -⟩ := bind_eq_ok.mp h
  exact (mem_dialable h).mpr ⟨hkept, ids, hids, mem_resolveCandidates hperson hdev hids⟩

/-- A connect tries each device that is not refused. -/
theorem connectCandidates_of_rostered (hperson : NamesPerson peer)
    (hdev : Rostered m.resolve peer id) (hkept : m.refused id = false) {entries : List PeerEntry}
    (hlist : m.resolve.list = .ok entries) :
    ∃ ids, connectCandidates m peer = .ok ids ∧ id ∈ ids := by
  obtain ⟨ids, hids⟩ := resolveCandidates_of_list hperson hlist
  have hc : ∃ c, protocolCandidates m peer = .ok c := ⟨_, by rw [protocolCandidates, hids]; rfl⟩
  obtain ⟨c, hc⟩ := hc
  have hmem := mem_dialable_of_rostered hperson hdev hkept hc
  exact ⟨c.dialable, connectCandidates_eq_ok.mpr ⟨c, hc, rfl, List.ne_nil_of_mem hmem⟩, hmem⟩

/-- A race among the roster's devices of a person reaches each of them that is a
point and not refused. -/
theorem dialService_of_rostered (hperson : NamesPerson peer) (hdev : Rostered m.resolve peer id)
    (hkept : m.refused id = false) (hpoint : I.fromBytes id = .ok ()) {service : String}
    {secs : Option Nat} {perConn : Option TransportConfig}
    (hconn : perSessionTransportConfig I secs m.resolve.keepAliveSecs = .ok perConn) :
    ∃ plan, dialServiceWithIdleTimeout I m peer service secs = .ok plan ∧
      ∃ addr ∈ plan.addrs, addr.id = id := by
  have hdevices := hdev.mem_devicesForUser
  rw [dialServiceWithIdleTimeout, hconn, ok_bind]
  dsimp only
  rw [hperson]
  dsimp only
  cases hds : m.resolve.devicesForUser peer with
  | nil =>
      rw [hds] at hdevices
      exact absurd hdevices List.not_mem_nil
  | cons d ds =>
      rw [hds] at hdevices
      have hmem : id ∈ orderDialCandidates (d :: ds) m.resolve peer :=
        mem_orderDialCandidates.mpr hdevices
      obtain ⟨addrs, haddrs⟩ := hintedAddrs_ok (I := I) hmem hkept
      have hrace : raceOrReuse I m (orderDialCandidates (d :: ds) m.resolve peer) =
          .ok (.race addrs) := by
        rw [raceOrReuse, haddrs]
        rfl
      refine ⟨.race addrs, ?_, ?_⟩
      · dsimp only
        rw [hrace]
        rfl
      · exact List.mem_map.mp ((mem_hintedAddrs haddrs).mpr ⟨hmem, hkept, hpoint⟩)

/-- A fetch from a person tries each device that is not refused at that source's turn.
-/
theorem blobSourceAddrs_of_rostered {moments : Nat → Moments} {sources : List String} {k : Nat}
    {found : BlobSources} (h : blobSourceAddrs I moments sources = .ok found)
    (hpeer : sources[k]? = some peer) (hperson : NamesPerson peer)
    (hdev : Rostered (moments k).resolve peer id) (hkept : (moments k).refused id = false)
    (hpoint : I.fromBytes id = .ok ()) : ∃ addr ∈ found.addrs, addr.id = id := by
  obtain ⟨_, -, h⟩ := bind_eq_ok.mp h
  obtain ⟨scan, hscan, h⟩ := bind_eq_ok.mp h
  rw [← Except.ok.inj h]
  have hempty : BlobScan.Covered I { seen := [], addrs := [], skippedRevoked := 0 } :=
    fun x hx => absurd hx List.not_mem_nil
  obtain ⟨hcovered, -, hmet⟩ := covered_of_scanSources hscan hempty
  obtain ⟨c, hc, hseen⟩ := hmet k peer hpeer
  rw [Nat.zero_add] at hc
  have hmem := hseen id (mem_dialable_of_rostered hperson hdev hkept hc)
  exact List.mem_map.mp (hcovered id hmem hpoint)

end Kept

/-- A connect dials nothing it refuses. -/
theorem refused_of_mem_connectCandidates {m : Moments} {peer : String} {ids : List EndpointId}
    (h : connectCandidates m peer = .ok ids) : ∀ id ∈ ids, m.refused id = false := by
  obtain ⟨c, hc, rfl, -⟩ := connectCandidates_eq_ok.mp h
  exact fun id hid => ((mem_dialable hc).mp hid).1

/-- What a fetch dials was let through at the turn of a source. -/
theorem refused_of_mem_blobSourceAddrs {I : Iroh} {moments : Nat → Moments}
    {sources : List String} {found : BlobSources}
    (h : blobSourceAddrs I moments sources = .ok found) :
    ∀ addr ∈ found.addrs, ∃ k < sources.length, (moments k).refused addr.id = false := by
  obtain ⟨_, -, h⟩ := bind_eq_ok.mp h
  obtain ⟨scan, hscan, h⟩ := bind_eq_ok.mp h
  rw [← Except.ok.inj h]
  intro addr haddr
  obtain hnil | hfound := refused_of_scanSources hscan addr haddr
  · exact absurd hnil List.not_mem_nil
  · simpa only [Nat.zero_add] using hfound

/-- **Outbound refusal covers inbound refusal**, nothing refused is dialled, and
every active device of a named person that is not refused stays a candidate. -/
theorem outbound_covers_inbound (I : Iroh) :
    (∀ (gate : ComposedGate) (now : Int) (id : EndpointId),
      gate.isRevoked now id = true ∨
        gate.resolve now id = none ∧ RevocationGround gate.pairs gate.roster.view id →
      refusedBy gate.pairs gate.roster.view id = true) ∧
    (∀ m peer service secs plan,
      dialServiceWithIdleTimeout I m peer service secs = .ok plan →
        ∀ addr ∈ plan.addrs, m.refused addr.id = false) ∧
    (∀ m peer ids, connectCandidates m peer = .ok ids → ∀ id ∈ ids, m.refused id = false) ∧
    (∀ moments sources found, blobSourceAddrs I moments sources = .ok found →
      ∀ addr ∈ found.addrs, ∃ k < sources.length, (moments k).refused addr.id = false) ∧
    ∀ (m : Moments) peer id, NamesPerson peer → Rostered m.resolve peer id →
      m.refused id = false →
        (∀ entries, m.resolve.list = .ok entries →
          ∃ ids, connectCandidates m peer = .ok ids ∧ id ∈ ids) ∧
        (I.fromBytes id = .ok () →
          (∀ service secs perConn,
            perSessionTransportConfig I secs m.resolve.keepAliveSecs = .ok perConn →
              ∃ plan, dialServiceWithIdleTimeout I m peer service secs = .ok plan ∧
                ∃ addr ∈ plan.addrs, addr.id = id) ∧
          ∀ moments sources (k : Nat) found, moments k = m → sources[k]? = some peer →
            blobSourceAddrs I moments sources = .ok found →
              ∃ addr ∈ found.addrs, addr.id = id) := by
  refine ⟨fun gate now id h => ?_, fun m peer service secs plan h addr haddr =>
    refused_of_mem_dialService h haddr, fun m peer ids h => refused_of_mem_connectCandidates h,
    fun moments sources found h => refused_of_mem_blobSourceAddrs h,
    fun m peer id hperson hdev hkept => ⟨fun entries hlist =>
      connectCandidates_of_rostered hperson hdev hkept hlist, fun hpoint =>
      ⟨fun service secs perConn hconn => dialService_of_rostered hperson hdev hkept hpoint hconn,
        fun moments sources k found hm hpeer h => ?_⟩⟩⟩
  · obtain h | ⟨-, h⟩ := h
    · exact refusedBy_of_isRevoked h
    · exact refusedBy_of_ground h
  · subst hm
    exact blobSourceAddrs_of_rostered h hpeer hperson hdev hkept hpoint

namespace OnePhone

/-- Bytes of which no curve point has the encoding. -/
def phone : EndpointId := .replicate 32 2

def iroh : Iroh where
  fromBytes id := if id = phone then .error "invalid key" else .ok ()
  fromStr _ := none
  idleTimeout ms :=
    if ms < 2 ^ 62 then .ok () else .error "value too large for varint encoding"

def device (userId : String) : ResolvedDevice :=
  { userId, displayName := "Alice", groups := [], role := "primary", label := "phone" }

def view (userId : String) : RosterView where
  orgId := "acme"
  serial := 1
  expiresAtEpoch := 1000
  revoked := ∅
  devices :=
    { map := AList.singleton phone (device userId)
      not_revoked := fun _ _ => Finset.notMem_empty _ }
  groups := []
  users := [{ userId, displayName := "Alice", groups := [] }]

/-- A node with a roster of one device, an empty pair table and what a scan of
it yields. -/
def moments (userId : String) (peerRows : Except Anyhow (List (Except Anyhow (List UInt8)))) :
    Moments :=
  let mesh : MeshState :=
    { store :=
        { revoked := fun _ => .ok none
          peers := fun _ => .ok none
          revokedUsers := fun _ => .ok none
          fromSlice := fun _ => .error "expected value" }
      peerRows
      view := some (view userId)
      presence := []
      keepAliveSecs := 5 }
  { resolve := mesh, filter := fun _ => mesh, hint := fun _ => mesh }

theorem rostered (userId : String) (rows : Except Anyhow (List (Except Anyhow (List UInt8)))) :
    Rostered (moments userId rows).resolve userId phone :=
  ⟨view userId, device userId, rfl, rfl, rfl⟩

end OnePhone

/-- An active device that is not refused is no candidate when its id is no
curve point, when the pair table cannot be scanned, or when the person is
spelled as a device. -/
theorem rostered_device_not_candidate :
    (¬ ∀ (I : Iroh) (m : Moments) (peer service : String) (id : EndpointId) (plan : DialPlan),
      Rostered m.resolve peer id → m.refused id = false →
        dialServiceWithIdleTimeout I m peer service none = .ok plan →
          ∃ addr ∈ plan.addrs, addr.id = id) ∧
    (¬ ∀ (m : Moments) (peer : String) (id : EndpointId), NamesPerson peer →
      Rostered m.resolve peer id → m.refused id = false →
        ∃ ids, connectCandidates m peer = .ok ids ∧ id ∈ ids) ∧
    ¬ ∀ (m : Moments) (peer : String) (id : EndpointId), m.resolve.list.isOk = true →
      Rostered m.resolve peer id → m.refused id = false →
        ∃ ids, connectCandidates m peer = .ok ids ∧ id ∈ ids := by
  refine ⟨fun h => ?_, fun h => ?_, fun h => ?_⟩
  · obtain ⟨addr, haddr, -⟩ := h OnePhone.iroh (OnePhone.moments "alice" (.ok [])) "alice" "echo"
      OnePhone.phone (.race []) (OnePhone.rostered _ _) (by rfl) (by rfl)
    exact absurd haddr List.not_mem_nil
  · obtain ⟨ids, hids, -⟩ := h (OnePhone.moments "alice" (.error ["Database I/O error"])) "alice"
      OnePhone.phone (by rfl) (OnePhone.rostered _ _) (by rfl)
    contradiction
  · obtain ⟨ids, hids, -⟩ := h (OnePhone.moments "eid:alice" (.ok [])) "eid:alice"
      OnePhone.phone (by rfl) (OnePhone.rostered _ _) (by rfl)
    contradiction

end Mcpmesh.Dial
