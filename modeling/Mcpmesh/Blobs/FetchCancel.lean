import Mcpmesh.Blobs.FetchProgress
import Mcpmesh.Blobs.FetchSlots
import Mcpmesh.Blobs.ListPage

/-!
# Mcpmesh.Blobs.FetchCancel

The cancellation of fetches (`node/src/daemon/handlers.rs`): `blob_fetch` with
its `FetchGuard`, and `blob_fetch_cancel`, for a provider that has subscribers.

The calls interleave between their lock sections and their waits.  A call of
`blob_fetch` runs `fetch_from_sources` as the machine `BlobFetch`, and may be
dropped wherever it waits; its guard leaves the map first and then sends the
frame that is owed.
-/

namespace Mcpmesh

open Lib Dial

/-! ## `blob_fetch` -/

/-- What the work of a fetch waits at. -/
inductive FetchWork where
  /-- the alternates and the publisher are looked up -/
  | resolving
  | transferring (f : BlobFetch) (skippedRevoked : Nat)
  /-- the pin and the export -/
  | exporting (hash : String)

inductive FetchStage where
  | working (w : FetchWork)
  /-- The `select!` is over; the work that it dropped, or none where the fetch is
  `finished`. -/
  | ended (dropped : Option FetchWork)
  /-- The guard has left the map. -/
  | deregistered (dropped : Option FetchWork)
  | gone

/-- What `blob_fetch` returns. -/
inductive FetchAnswer where
  | fetched (hash : String) (bytesLen : Nat)
  | failed (e : Anyhow)
  | cancelled (hash : String)

/-- A call of `blob_fetch` from where it has registered. -/
structure BlobFetchCall where
  ticket : BlobTicket
  token : Nat
  stage : FetchStage
  answer : Option FetchAnswer
  frames : List BlobTransfer

inductive FetchCallEvent where
  | resolved (addrs : List EndpointAddr) (skippedRevoked : Nat) (publisherRefused : Bool)
  | unresolved (e : Anyhow)
  | transfer (e : FetchEvent)
  | exported (result : Except Anyhow Nat)
  /-- The other arm of the `select!`. -/
  | cancelled
  /-- The task is aborted: its connection has closed. -/
  | aborted
  | deregister
  | drop

/-- `AppBlobs::emit_fetch_aborted` -/
def fetchAborted (hash : String) : BlobTransfer where
  direction := .fetch
  hash := hash
  bytesDone := 0
  bytesTotal := none
  state := .aborted
  peer := none

namespace BlobFetchCall

/-- The guard is in the map. -/
def registered (c : BlobFetchCall) : Bool :=
  match c.stage with
  | .working _ | .ended _ => true
  | .deregistered _ | .gone => false

/-- The arm of the work: the fetch is `finished`. -/
def finish (c : BlobFetchCall) (answer : FetchAnswer) : BlobFetchCall :=
  { c with stage := .ended none, answer := some answer }

/-- The error of a failed fetch, with why the named sources were not tried. -/
def fetchError (skippedRevoked : Nat) (e : Anyhow) : Anyhow :=
  "fetch blob" ::
    if skippedRevoked = 0 then e
    else
      (toString skippedRevoked ++ " named source" ++ (if skippedRevoked = 1 then "" else "s") ++
        " skipped: revoked on this node") :: e

/-- Take over what `fetch_from_sources` has come to. -/
def follow (c : BlobFetchCall) (f : BlobFetch) (skippedRevoked : Nat) : BlobFetchCall :=
  let c := { c with frames := f.frames }
  match f.phase with
  | .returned (.ok hash) => { c with stage := .working (.exporting hash) }
  | .returned (.error e) => c.finish (.failed (fetchError skippedRevoked e))
  | _ => { c with stage := .working (.transferring f skippedRevoked) }

/-- One step of a call; whether its token is cancelled decides the other arm. -/
def step (c : BlobFetchCall) (isCancelled : Bool) (e : FetchCallEvent) : Option BlobFetchCall :=
  match c.stage, e with
  | .working .resolving, .resolved addrs skippedRevoked publisherRefused =>
      some (c.follow (.begin c.ticket.hash (c.ticket.sources addrs !publisherRefused))
        skippedRevoked)
  | .working .resolving, .unresolved e => some (c.finish (.failed e))
  | .working (.transferring f skippedRevoked), .transfer e =>
      (f.step e).map fun f => c.follow f skippedRevoked
  | .working (.exporting hash), .exported (.ok bytesLen) =>
      some (c.finish (.fetched hash bytesLen))
  | .working (.exporting _), .exported (.error e) => some (c.finish (.failed e))
  | .working w, .cancelled =>
      if isCancelled then
        some { c with stage := .ended (some w), answer := some (.cancelled c.ticket.hash) }
      else none
  | .working w, .aborted => some { c with stage := .ended (some w) }
  | .ended dropped, .deregister => some { c with stage := .deregistered dropped }
  | .deregistered none, .drop => some { c with stage := .gone }
  | .deregistered (some _), .drop =>
      some { c with stage := .gone, frames := c.frames ++ [fetchAborted c.ticket.hash] }
  | _, _ => none

end BlobFetchCall

/-! ## `blob_fetch_cancel` -/

/-- A call of `blob_fetch_cancel` from where it has looked its slot up. -/
inductive CancelCall where
  | malformed (e : ListError)
  /-- `cancelled: false` -/
  | missed
  /-- The token is to be tripped, outside the lock. -/
  | holding (token : Nat)
  /-- `cancelled: true` -/
  | tripped (token : Nat)
  deriving DecidableEq

/-! ## all together -/

structure FetchWorld where
  table : FetchTable
  calls : List BlobFetchCall
  cancels : List CancelCall

inductive FetchLabel where
  | blobFetch (ticket : BlobTicket)
  | call (i : Nat) (e : FetchCallEvent)
  | lookUp (hash : String)
  | trip (i : Nat)

namespace FetchWorld

/-- No fetch yet. -/
def start : FetchWorld := ⟨⟨∅, 0, []⟩, [], []⟩

/-- A new call of `blob_fetch`, up to its first wait. -/
def enter (s : FetchWorld) (ticket : BlobTicket) : FetchWorld :=
  let (token, table) := s.table.register ticket.hash
  let call : BlobFetchCall :=
    { ticket, token, stage := .working .resolving, answer := none, frames := [] }
  { s with table, calls := s.calls ++ [call] }

/-- A new call of `blob_fetch_cancel`; `fromStr` is `s.parse::<iroh_blobs::Hash>`. -/
def lookUp (fromStr : String → Option String) (s : FetchWorld) (hash : String) : CancelCall :=
  match parseBlobHash fromStr hash with
  | .error e => .malformed e
  | .ok key =>
      match s.table.slots.lookup key with
      | some slot => .holding slot.token
      | none => .missed

/-- A call of `blob_fetch` makes a step. -/
def advance (s : FetchWorld) (i : Nat) (e : FetchCallEvent) : Option FetchWorld :=
  (s.calls[i]?).bind fun c =>
    (c.step (c.token ∈ s.table.cancelled) e).map fun c' =>
      { s with
        table := match e with
          | .deregister => s.table.deregister c.ticket.hash
          | _ => s.table
        calls := s.calls.set i c' }

def step (fromStr : String → Option String) (s : FetchWorld) : FetchLabel → Option FetchWorld
  | .blobFetch ticket => some (s.enter ticket)
  | .call i e => s.advance i e
  | .lookUp hash => some { s with cancels := s.cancels ++ [s.lookUp fromStr hash] }
  | .trip i =>
      match s.cancels[i]? with
      | some (.holding token) =>
          some { s with table := s.table.cancel token, cancels := s.cancels.set i (.tripped token) }
      | _ => none

end FetchWorld

end Mcpmesh
