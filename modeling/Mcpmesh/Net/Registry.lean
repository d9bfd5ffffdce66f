import Mcpmesh.Gate.Composed
import Mcpmesh.Lib.Keyed
import Mathlib.Logic.Function.Basic
import Mathlib.Logic.Relation

/-!
# Mcpmesh.Net.Registry

The registry of live connections (`net/src/registry.rs`) and everything that
moves around it: the connection and session handlers (`net/src/endpoint.rs`,
`gate_and_register`) and roster installs (`install_roster_view_and_sever`).

The registry's operations are functions, each of which runs under its lock.
The system is a relation: a handler's code is cut at every point where another
handler or an install may come between, and `MeshStep` has one constructor for
each piece.
-/

namespace Mcpmesh

open Lib

/-! ## the registry -/

abbrev ConnId := Nat

/-- One tracked live connection. -/
structure Tracked where
  id : Nat
  endpointId : EndpointId
  rosterUser : Option String
  conn : ConnId
  deriving DecidableEq

structure ConnRegistry where
  inner : Keyed Tracked.id
  seq : Nat

/-- The sever decision: revoked, or roster-resolved and no longer active. -/
def shouldSever (endpointId : EndpointId) (rosterUser : Option String)
    (revoked : Finset EndpointId) (activeDevices : List EndpointId) : Bool :=
  endpointId ∈ revoked || (rosterUser.isSome && endpointId ∉ activeDevices)

def RosterView.revokedEndpoints (view : RosterView) : Finset EndpointId := view.revoked

namespace ConnRegistry

variable (reg : ConnRegistry)

/-- Insert the connection, unless the live gate already severs it. -/
def registerChecked (conn : ConnId) (endpointId : EndpointId) (rosterUser : Option String)
    (shouldSeverNow : EndpointId → Bool) : Option Nat × ConnRegistry :=
  if shouldSeverNow endpointId then (none, reg)
  else
    (some reg.seq,
      { inner := reg.inner.insert { id := reg.seq, endpointId, rosterUser, conn }
        seq := reg.seq + 1 })

/-- The guard's drop. -/
def deregister (id : Nat) : ConnRegistry := { reg with inner := reg.inner.remove id }

/-- The locked half of `admit_roster_user`: promote the entry, unless it is
gone or the live gate severs it. -/
def promote (id : Nat) (user : String) (shouldSeverNow : EndpointId → Bool) :
    Bool × ConnRegistry :=
  match reg.inner.lookup id with
  | none => (false, reg)
  | some tracked =>
      if shouldSeverNow tracked.endpointId then (false, reg)
      else (true, { reg with inner := reg.inner.insert { tracked with rosterUser := some user } })

/-- The connections that a sever pass closes. -/
def severMatching (shouldSever : EndpointId → Option String → Bool) : List ConnId :=
  (reg.inner.items.filter fun t => shouldSever t.endpointId t.rosterUser).map Tracked.conn

end ConnRegistry

/-! ## the system -/

/-- Where the handler of a connection is. -/
inductive Handler where
  | accepted
  | resolved
  | captured (rosterUser : Option String)
  | refused
  | registered (id : Nat)
  | returned
  deriving DecidableEq

/-- A connection, with its tracker's flag.  `mesh` tells `ALPN_MCP`, the one
that carries sessions, from the other gated ALPNs; `severed` is a ghost, set
when an install closes the connection. -/
structure Conn where
  endpoint : EndpointId
  mesh : Bool
  handler : Handler
  promoted : Bool
  closed : Bool
  severed : Bool
  deriving DecidableEq

/-- Where `resolve_session_principal` is for a session. -/
inductive StreamPhase where
  | initialized
  | before (rosterBefore : Option String)
  | resolved (rosterBefore : Option String) (identity : PeerIdentity)
  | read (rosterUser : Option String) (identity : PeerIdentity)
  | recheck (user : String) (identity : PeerIdentity)
  | admitted (rosterUser : Option String) (identity : PeerIdentity)
  | ended

/-- A session, with the registration id of its tracker. -/
structure Stream where
  conn : ConnId
  entry : Nat
  phase : StreamPhase

/-- A roster install from its swap on; `severed` when its pass is done. -/
structure RosterInstall where
  view : RosterView
  severed : Bool

structure Mesh where
  gate : ComposedGate
  registry : ConnRegistry
  conns : ConnId → Option Conn
  streams : Nat → Option Stream
  installs : List RosterInstall

namespace Mesh

variable (m : Mesh)

def setConn (c : ConnId) (conn : Conn) : Mesh :=
  { m with conns := Function.update m.conns c (some conn) }

def setStream (s : Nat) (stream : Stream) : Mesh :=
  { m with streams := Function.update m.streams s (some stream) }

/-- The connection-level gate. -/
def resolveConn (now : Int) (c : ConnId) (conn : Conn) : Mesh :=
  if (m.gate.resolve now conn.endpoint).isSome then m.setConn c { conn with handler := .resolved }
  else m.setConn c { conn with handler := .refused }

def registerConn (c : ConnId) (conn : Conn) (rosterUser : Option String) : Mesh :=
  match m.registry.registerChecked c conn.endpoint rosterUser
      fun eid => m.gate.shouldSeverNow eid rosterUser with
  | (none, _) => m.setConn c { conn with handler := .refused }
  | (some id, registry) =>
      { m with registry }.setConn c
        { conn with handler := .registered id, promoted := rosterUser.isSome }

def resolveStream (now : Int) (s : Nat) (stream : Stream) (conn : Conn)
    (rosterBefore : Option String) : Mesh :=
  match m.gate.resolve now conn.endpoint with
  | none => m.setStream s { stream with phase := .ended }
  | some identity => m.setStream s { stream with phase := .resolved rosterBefore identity }

/-- `admit_roster_user` up to its lock: a pairing-resolved session and one on a
promoted connection are admitted. -/
def loadPromoted (s : Nat) (stream : Stream) (conn : Conn) (rosterUser : Option String)
    (identity : PeerIdentity) : Mesh :=
  match rosterUser with
  | none => m.setStream s { stream with phase := .admitted none identity }
  | some user =>
      if conn.promoted then m.setStream s { stream with phase := .admitted (some user) identity }
      else m.setStream s { stream with phase := .recheck user identity }

/-- The locked half. -/
def promoteStream (s : Nat) (stream : Stream) (conn : Conn) (user : String)
    (identity : PeerIdentity) : Mesh :=
  match m.registry.promote stream.entry user fun eid => m.gate.shouldSeverNow eid (some user) with
  | (false, _) => m.setStream s { stream with phase := .ended }
  | (true, registry) =>
      ({ m with registry }.setConn stream.conn { conn with promoted := true }).setStream s
        { stream with phase := .admitted (some user) identity }

/-- An install's first half. -/
def swap (view : RosterView) : Mesh :=
  { m with
    gate := { m.gate with roster := { m.gate.roster with view := some view } }
    installs := m.installs ++ [{ view, severed := false }] }

/-- Its second half, with the sets of its own view. -/
def sever (i : Nat) (install : RosterInstall) : Mesh :=
  let closing := m.registry.severMatching fun eid rosterUser =>
    shouldSever eid rosterUser install.view.revokedEndpoints install.view.deviceEndpoints
  { m with
    conns := fun c => (m.conns c).map fun conn =>
      if c ∈ closing then { conn with closed := true, severed := true } else conn
    installs := m.installs.set i { install with severed := true } }

/-! ### the locked pieces -/

section Locked

variable {m} {c : ConnId} {conn : Conn} {rosterUser : Option String}

/-- A connection that the gate would sever now is refused instead. -/
theorem registerConn_of_severed (h : m.gate.shouldSeverNow conn.endpoint rosterUser = true) :
    m.registerConn c conn rosterUser = m.setConn c { conn with handler := .refused } := by
  simp [registerConn, ConnRegistry.registerChecked, h]

/-- A connection that the gate keeps is registered. -/
theorem registerConn_of_kept (h : m.gate.shouldSeverNow conn.endpoint rosterUser = false) :
    m.registerConn c conn rosterUser =
      { m with registry :=
          { inner := m.registry.inner.insert ⟨m.registry.seq, conn.endpoint, rosterUser, c⟩
            seq := m.registry.seq + 1 } }.setConn c
        { conn with handler := .registered m.registry.seq
                    promoted := rosterUser.isSome } := by
  simp [registerConn, ConnRegistry.registerChecked, h]

/-- A session is refused, or its entry is there and kept, and is promoted. -/
theorem promoteStream_cases (s : Nat) (stream : Stream) (conn : Conn) (user : String)
    (identity : PeerIdentity) :
    m.promoteStream s stream conn user identity = m.setStream s { stream with phase := .ended } ∨
      ∃ t ∈ m.registry.inner.items, t.id = stream.entry ∧
        m.gate.shouldSeverNow t.endpointId (some user) = false ∧
          m.promoteStream s stream conn user identity =
            ({ m with registry :=
                { m.registry with
                  inner := m.registry.inner.insert { t with rosterUser := some user } }
                    }.setConn stream.conn { conn with promoted := true }).setStream s
              { stream with phase := .admitted (some user) identity } := by
  unfold promoteStream ConnRegistry.promote
  cases hlookup : m.registry.inner.lookup stream.entry with
  | none => exact .inl rfl
  | some t =>
      obtain ⟨ht, hid⟩ := Keyed.mem_of_lookup hlookup
      cases hrecheck : m.gate.shouldSeverNow t.endpointId (some user) with
      | true => exact .inl (by simp [hrecheck])
      | false => exact .inr ⟨t, ht, hid, hrecheck, by simp [hrecheck]⟩

end Locked

end Mesh

/-- One piece of a handler, of an install, or of the world around them. -/
inductive MeshStep (m : Mesh) : Mesh → Prop where
  | accept (c : ConnId) (endpoint : EndpointId) (mesh : Bool) (hfree : m.conns c = none) :
      MeshStep m (m.setConn c
        { endpoint, mesh, handler := .accepted, promoted := false, closed := false,
          severed := false })
  | resolveConn (now : Int) (c : ConnId) (conn : Conn) (hconn : m.conns c = some conn)
      (hat : conn.handler = .accepted) : MeshStep m (m.resolveConn now c conn)
  | captureRosterUser (now : Int) (c : ConnId) (conn : Conn) (hconn : m.conns c = some conn)
      (hat : conn.handler = .resolved) :
      MeshStep m (m.setConn c
        { conn with handler := .captured (m.gate.rosterUser now conn.endpoint) })
  | registerConn (c : ConnId) (conn : Conn) (rosterUser : Option String)
      (hconn : m.conns c = some conn) (hat : conn.handler = .captured rosterUser) :
      MeshStep m (m.registerConn c conn rosterUser)
  | closeRefused (c : ConnId) (conn : Conn) (hconn : m.conns c = some conn)
      (hat : conn.handler = .refused) :
      MeshStep m (m.setConn c { conn with handler := .returned, closed := true })
  -- closed by the peer, or here by anything but an install
  | close (c : ConnId) (conn : Conn) (hconn : m.conns c = some conn) :
      MeshStep m (m.setConn c { conn with closed := true })
  -- `accept_bi` fails only on a closed connection; the other arms carry no session
  | deregister (c : ConnId) (conn : Conn) (id : Nat) (hconn : m.conns c = some conn)
      (hat : conn.handler = .registered id) (hdone : conn.closed = true ∨ conn.mesh = false) :
      MeshStep m ({ m with registry := m.registry.deregister id }.setConn c
        { conn with handler := .returned })
  | openStream (s : Nat) (c : ConnId) (conn : Conn) (id : Nat) (hfree : m.streams s = none)
      (hconn : m.conns c = some conn) (hat : conn.handler = .registered id)
      (hmesh : conn.mesh = true) (hopen : conn.closed = false) :
      MeshStep m (m.setStream s { conn := c, entry := id, phase := .initialized })
  | rosterBefore (now : Int) (s : Nat) (stream : Stream) (conn : Conn)
      (hstream : m.streams s = some stream) (hconn : m.conns stream.conn = some conn)
      (hat : stream.phase = .initialized) :
      MeshStep m (m.setStream s
        { stream with phase := .before (m.gate.rosterUser now conn.endpoint) })
  | resolveStream (now : Int) (s : Nat) (stream : Stream) (conn : Conn)
      (rosterBefore : Option String) (hstream : m.streams s = some stream)
      (hconn : m.conns stream.conn = some conn) (hat : stream.phase = .before rosterBefore) :
      MeshStep m (m.resolveStream now s stream conn rosterBefore)
  | rosterAfter (now : Int) (s : Nat) (stream : Stream) (conn : Conn)
      (rosterBefore : Option String) (identity : PeerIdentity)
      (hstream : m.streams s = some stream) (hconn : m.conns stream.conn = some conn)
      (hat : stream.phase = .resolved rosterBefore identity) :
      MeshStep m (m.setStream s
        { stream with
          phase := .read (rosterBefore.orElse fun _ => m.gate.rosterUser now conn.endpoint)
            identity })
  | loadPromoted (s : Nat) (stream : Stream) (conn : Conn) (rosterUser : Option String)
      (identity : PeerIdentity) (hstream : m.streams s = some stream)
      (hconn : m.conns stream.conn = some conn) (hat : stream.phase = .read rosterUser identity) :
      MeshStep m (m.loadPromoted s stream conn rosterUser identity)
  | promoteStream (s : Nat) (stream : Stream) (conn : Conn) (user : String)
      (identity : PeerIdentity) (hstream : m.streams s = some stream)
      (hconn : m.conns stream.conn = some conn) (hat : stream.phase = .recheck user identity) :
      MeshStep m (m.promoteStream s stream conn user identity)
  | endStream (s : Nat) (stream : Stream) (hstream : m.streams s = some stream) :
      MeshStep m (m.setStream s { stream with phase := .ended })
  | swap (view : RosterView) : MeshStep m (m.swap view)
  | sever (i : Nat) (install : RosterInstall) (hinstall : m.installs[i]? = some install) :
      MeshStep m (m.sever i install)
  | pairs (pairs : PeerStore) : MeshStep m { m with gate := { m.gate with pairs } }
  | confirm (lastConfirmed : Option Int) :
      MeshStep m
        { m with gate := { m.gate with roster := { m.gate.roster with lastConfirmed } } }

end Mcpmesh
