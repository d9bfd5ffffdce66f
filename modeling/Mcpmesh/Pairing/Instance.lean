import Mcpmesh.Lib.Wire
import Mcpmesh.Pairing.Rows

/-!
# Mcpmesh.Pairing.Instance

A `PeerJson` that computes.  Nothing rests on the text of a stored row, only on
its being read back, so the rows are in the byte format of `Lib.Wire`.
-/

namespace Mcpmesh.Instance

open Lib

/-- The fields of an entry, in their order. -/
def peerWire : Wire PeerEntry :=
  ((Wire.ofVector 32).pair (Wire.string.pair (Wire.string.list.pair
    (Wire.string.option.pair (Wire.string.option.pair Wire.string.option))))).map
    (fun f => ⟨f.1, f.2.1, f.2.2.1, f.2.2.2.1, f.2.2.2.2.1, f.2.2.2.2.2⟩)
    (fun e => (e.endpointId, e.nickname, e.services, e.pairedAt, e.userId, e.lastAddr))
    fun _ => rfl

def peerJson : PeerJson where
  toVec := peerWire.put
  fromSlice raw :=
    match peerWire.get raw with
    | some (entry, []) => .ok entry
    | _ => .error "malformed row"
  fromSlice_toVec entry := by
    have hget : peerWire.get (peerWire.put entry) = some (entry, []) := by
      simpa using peerWire.get_put entry []
    rw [hget]

end Mcpmesh.Instance
