import Mcpmesh.Roster.Schema

/-!
# Mcpmesh.Dial.Address

The addresses an outbound dial goes to (`node/src/daemon/dial.rs`): which
transport addresses can be a peer at all, and what becomes of the dial hint
stored with a pair row.

A hint never names the peer.  It is attached when it is recorded for the very
endpoint that is dialled, and loses every address that cannot be a peer
(`storedDialAddr_id`, `isDialableAddr_of_mem_storedDialAddr`).
-/

namespace Mcpmesh.Dial

/-! ## transport addresses -/

inductive IpAddr where
  | v4 (octets : List.Vector UInt8 4)
  | v6 (segments : List.Vector UInt16 8)
  deriving DecidableEq

structure SocketAddr where
  ip : IpAddr
  port : UInt16
  deriving DecidableEq

inductive TransportAddr where
  | ip (addr : SocketAddr)
  | relay (url : String)
  | custom (transport : Nat) (data : List UInt8)
  deriving DecidableEq

/-- The octets of a segment, high octet first. -/
def segmentOctets (s : UInt16) : List UInt8 := [.ofNat (s.toNat / 256), .ofNat s.toNat]

/-- `IpAddr::to_canonical`: an IPv4-mapped address is the IPv4 address it maps. -/
def IpAddr.toCanonical : IpAddr → IpAddr
  | .v4 octets => .v4 octets
  | .v6 segments =>
      match segments with
      | ⟨[0, 0, 0, 0, 0, 0xffff, high, low], _⟩ =>
          .v4 ⟨segmentOctets high ++ segmentOctets low, rfl⟩
      | segments => .v6 segments

namespace Ipv4

variable (octets : List.Vector UInt8 4)

def isUnspecified : Bool := octets.toList = [0, 0, 0, 0]

def isMulticast : Bool := 224 ≤ octets.head && octets.head ≤ 239

def isBroadcast : Bool := octets.toList = [255, 255, 255, 255]

end Ipv4

namespace Ipv6

variable (segments : List.Vector UInt16 8)

def isUnspecified : Bool := segments.toList = [0, 0, 0, 0, 0, 0, 0, 0]

def isMulticast : Bool := segments.head &&& 0xff00 == 0xff00

end Ipv6

/-- Whether this address can be a QUIC peer at all.  Relay and custom addresses
are not filtered. -/
def isDialableAddr : TransportAddr → Bool
  | .relay _ | .custom _ _ => true
  | .ip addr =>
      if addr.port = 0 then false
      else
        match addr.ip.toCanonical with
        | .v4 octets =>
            !Ipv4.isUnspecified octets && !Ipv4.isMulticast octets && !Ipv4.isBroadcast octets &&
              octets.head < 240
        | .v6 segments => !Ipv6.isUnspecified segments && !Ipv6.isMulticast segments

/-! ## endpoint addresses -/

/-- An `iroh::EndpointAddr`. -/
structure EndpointAddr where
  id : EndpointId
  addrs : List TransportAddr
  deriving DecidableEq

/-- `EndpointAddr::from` an id: discovery only. -/
def EndpointAddr.bare (id : EndpointId) : EndpointAddr := { id, addrs := [] }

/-- Strip a remote-supplied address of everything that cannot be a peer. -/
def dialableOnly (addr : EndpointAddr) : EndpointAddr :=
  let kept := addr.addrs.filter isDialableAddr
  if kept.isEmpty then .bare addr.id else { id := addr.id, addrs := kept }

/-- The address of an endpoint with its stored hint, which `fromStr` reads; a
hint that claims another id is ignored. -/
def storedDialAddr (fromStr : String → Option EndpointAddr) (lastAddr : Option String)
    (endpointId : EndpointId) : EndpointAddr :=
  match lastAddr.bind fromStr with
  | some addr => if addr.id = endpointId then dialableOnly addr else .bare endpointId
  | none => .bare endpointId

/-- What is left out of an address is never the endpoint id. -/
theorem dialableOnly_id (addr : EndpointAddr) : (dialableOnly addr).id = addr.id := by
  unfold dialableOnly
  dsimp only
  split
  · rfl
  · rfl

/-- Every address that is left may be dialled. -/
theorem isDialableAddr_of_mem_dialableOnly {addr : EndpointAddr} {a : TransportAddr}
    (h : a ∈ (dialableOnly addr).addrs) : isDialableAddr a = true := by
  unfold dialableOnly at h
  dsimp only at h
  split at h
  · exact absurd h List.not_mem_nil
  · exact (List.mem_filter.mp h).2

section Stored

variable {fromStr : String → Option EndpointAddr} {lastAddr : Option String}
  {endpointId : EndpointId}

/-- A stored address is one of the endpoint that it is stored for. -/
@[simp] theorem storedDialAddr_id :
    (storedDialAddr fromStr lastAddr endpointId).id = endpointId := by
  unfold storedDialAddr
  split
  · split
    · rename_i addr _ hid
      rw [dialableOnly_id, hid]
    · rfl
  · rfl

/-- A stored address has only what may be dialled. -/
theorem isDialableAddr_of_mem_storedDialAddr {a : TransportAddr}
    (h : a ∈ (storedDialAddr fromStr lastAddr endpointId).addrs) : isDialableAddr a = true := by
  unfold storedDialAddr at h
  split at h
  · split at h
    · exact isDialableAddr_of_mem_dialableOnly h
    · exact absurd h List.not_mem_nil
  · exact absurd h List.not_mem_nil

end Stored

end Mcpmesh.Dial
