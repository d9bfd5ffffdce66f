import Mcpmesh.Backends.Pump
import Mcpmesh.Net.Transport

/-!
# Mcpmesh.Backends.Duplex

The pump of a session, byte by byte (`pump`, `node/src/backends/mod.rs`).

The caller and the server each have a pipe to the pump and one from it.  After
the first frame the two directions run concurrently: `to_server` reads the
caller's frames, and writes them to the server or answers them itself;
`to_transport` reads the server's frames and sends them.  Both send through the
transport's one locked writer.  A step is a read or a byte of a write, in any
order, so a run is an interleaving of the directions, the caller and the server.
-/

namespace Mcpmesh

open Lib

/-! ## the parties -/

/-- What a pump is set up with, byte by byte. -/
structure PumpSession (σ : Type) extends ProxySession σ where
  /-- `serde_json::from_slice`. -/
  fromSlice : List UInt8 → Except String Json
  /-- The cap of the transport's reader. -/
  maxFrame : Nat

/-- `MAX_FRAME_BYTES`. -/
def maxFrameBytes : Nat := 16 * 1024 * 1024

namespace PumpSession

variable {σ : Type} (S : PumpSession σ)

def serde : Serde Json := ⟨fun v => .ok (S.text v).toUTF8.data.toList, S.fromSlice⟩

/-- What `write_frame` writes. -/
def line (frame : Json) : List UInt8 := (S.text frame).toUTF8.data.toList ++ [10]

example (w : List UInt8) (frame : Json) :
    writeFrame S.serde w frame = .ok (w ++ S.line frame) := rfl

end PumpSession

/-- What is sent to the caller: a throttle reply, or a frame of the server. -/
inductive Outgoing where
  | reply (v : Json)
  | frame (v : Json)

namespace Outgoing

def value : Outgoing → Json
  | .reply v | .frame v => v

def reply? : Outgoing → Option Json
  | .reply v => some v
  | .frame _ => none

def frame? : Outgoing → Option Json
  | .frame v => some v
  | .reply _ => none

/-- What of the stream is a reply and what is a frame. -/
@[simp] theorem reply?_reply (v : Json) : (reply v).reply? = some v := rfl

@[simp] theorem reply?_frame (v : Json) : (frame v).reply? = none := rfl

@[simp] theorem frame?_frame (v : Json) : (frame v).frame? = some v := rfl

@[simp] theorem frame?_reply (v : Json) : (reply v).frame? = none := rfl

end Outgoing

/-- A frame that direction `to_server` read: as it came, as it was cleaned, and
the wait that the limiter asked for where it refused it. -/
structure Heard where
  raw : Json
  clean : Json
  limited : Option Nat

namespace Heard

/-- What the server gets of it. -/
def forwarded (h : Heard) : Option Json :=
  match h.limited with
  | none => some h.clean
  | some _ => none

/-- What the caller is answered. -/
def reply (h : Heard) : Option Json :=
  h.limited.bind fun ms => h.clean.idOf.map fun id => synthesizedLimited id ms

end Heard

/-- Why a direction ended: the end of its input, a violation, an error of its
input, or the other side gone. -/
inductive Ending where
  | eof
  | violation (v : Violation)
  | failed
  | gone
  deriving DecidableEq

/-- Where direction `to_server` is. -/
inductive ToServer where
  | receiving
  /-- a throttle reply waits for the transport's writer -/
  | queued (reply : Json)
  | replying
  | forwarding
  | parked (why : Ending)

/-- Where direction `to_transport` is. -/
inductive ToTransport where
  | receiving
  | queued (frame : Json)
  | sending
  | ended (why : Ending)

/-- Where `pump` is: at the first frame, in the two loops, or back, with an error
or without. -/
inductive Stage where
  | first
  | loops
  | failed
  | ended
  deriving DecidableEq

/-- A session with its four pipes.  `heard` and `served` are ghosts: the frames
that either direction read. -/
structure Duplex (σ : Type) where
  limiter : σ
  audit : AuditState
  warned : Bool
  fromCaller : Inlet
  toCaller : Outlet Outgoing UInt8
  fromServer : Inlet
  serverWrite : Outlet Json UInt8
  stage : Stage
  toServer : ToServer
  toTransport : ToTransport
  heard : List Heard
  served : List Json

/-- The capacities of the pipes. -/
structure Capacities where
  fromCaller : ℕ+
  toCaller : ℕ+
  fromServer : ℕ+
  serverWrite : ℕ+

/-- A step of a party. -/
inductive DuplexMove (σ : Type) where
  /-- the write of the first frame goes on -/
  | first
  /-- a direction goes on; if it reads its pipe, by `n` bytes -/
  | toServer (n now : Nat)
  | toTransport (n now : Nat)
  | callerWrites (b : UInt8)
  | callerStops (how : WriteEnd)
  | callerReads (n : Nat)
  | callerLeaves
  | serverWrites (b : UInt8)
  | serverStops (how : WriteEnd)
  | serverReads (n : Nat)
  | serverLeaves
  /-- other sessions use the limiter -/
  | elsewhere (limiter : σ)

namespace Duplex

variable {σ : Type} (S : PumpSession σ)

/-- The transport has read the first frame, and `ahead` with it. -/
def start (caps : Capacities) (limiter : σ) (first : Json) (ahead : List UInt8) : Duplex σ :=
  { limiter, audit := ⟨.empty, false, []⟩, warned := false
    fromCaller := .new caps.fromCaller S.maxFrame ahead
    toCaller := .new caps.toCaller
    fromServer := .new caps.fromServer maxFrameBytes []
    serverWrite := (Outlet.new caps.serverWrite).start S.line first
    stage := .first, toServer := .receiving, toTransport := .receiving, heard := [], served := [] }

/-- The halves of the server are dropped. -/
def dropServer (s : Duplex σ) : Duplex σ :=
  { s with
    serverWrite := { s.serverWrite with pipe := s.serverWrite.pipe.finish .closed }
    fromServer := { s.fromServer with pipe := s.fromServer.pipe.leave } }

/-- Direction `to_transport` has ended, and the session with it: the other
direction is dropped, and the transport shut down. -/
def finish (s : Duplex σ) (why : Ending) : Duplex σ :=
  { s.dropServer with
    toCaller := { s.toCaller with pipe := s.toCaller.pipe.finish .closed }
    toTransport := .ended why
    stage := .ended }

/-- Direction `to_server` ends the server's input, and waits. -/
def park (s : Duplex σ) (why : Ending) : Duplex σ :=
  { s with
    serverWrite := { s.serverWrite with pipe := s.serverWrite.pipe.finish .closed }
    toServer := .parked why }

/-! ### the first frame -/

def stepFirst (s : Duplex σ) : Option (Duplex σ) :=
  if s.stage = .first then
    s.serverWrite.poll.map fun polled =>
      let s := { s with serverWrite := polled.2 }
      match polled.1 with
      | .more => s
      | .all => { s with stage := .loops }
      | .failed => { s.dropServer with stage := .failed }
  else none

/-! ### direction `to_server` -/

/-- An over-limit request is answered, an over-limit notification recorded. -/
def throttle (s : Duplex σ) (now : Nat) (raw clean : Json) (ms : Nat) : Duplex σ :=
  let heard := s.heard ++ [Heard.mk raw clean (some ms)]
  match clean.idOf with
  | some id => { s with heard, toServer := .queued (synthesizedLimited id ms) }
  | none => { s with heard, audit := S.onDropped s.audit now clean }

def forward (s : Duplex σ) (now : Nat) (raw clean : Json) : Duplex σ :=
  { s with
    heard := s.heard ++ [Heard.mk raw clean none]
    audit := S.onRequest s.audit now clean
    serverWrite := s.serverWrite.start S.line clean
    toServer := .forwarding }

def onCallerFrame (s : Duplex σ) (now : Nat) (raw : Json) : Option (Duplex σ) :=
  (sanitizeCallerFrame raw S.peerMeta).map fun cleaned =>
    let s := { s with warned := s.warned || cleaned.2 }
    if cleaned.1.hasMethod then
      match S.admitFrame s.limiter now with
      | (.error ms, limiter) => { s with limiter }.throttle S now raw cleaned.1 ms
      | (.ok (), limiter) => { s with limiter }.forward S now raw cleaned.1
    else s.forward S now raw cleaned.1

def stepToServer (s : Duplex σ) (n now : Nat) : Option (Duplex σ) :=
  if s.stage = .loops then
    match s.toServer with
    | .receiving => do
        let (polled, fromCaller) ← s.fromCaller.next S.serde n
        let s := { s with fromCaller }
        match polled with
        | .pending => some s
        | .ready (.ok (some (.frame raw))) => s.onCallerFrame S now raw
        | .ready (.ok (some (.violation v))) => some (s.park (.violation v))
        | .ready (.ok none) => some (s.park .eof)
        | .ready (.error _) => some (s.park .failed)
    | .queued reply =>
        (s.toCaller.lock (S.line ∘ Outgoing.value) (.reply reply)).map fun toCaller =>
          { s with toCaller, toServer := .replying }
    | .replying =>
        s.toCaller.poll.map fun polled =>
          let s := { s with toCaller := polled.2 }
          match polled.1 with
          | .more => s
          -- a reply that cannot be sent is let go
          | .all | .failed => { s with toServer := .receiving }
    | .forwarding =>
        s.serverWrite.poll.map fun polled =>
          let s := { s with serverWrite := polled.2 }
          match polled.1 with
          | .more => s
          | .all => { s with toServer := .receiving }
          | .failed => s.park .gone
    | .parked _ => none
  else none

/-! ### direction `to_transport` -/

def onServerFrame (s : Duplex σ) (now : Nat) (frame : Json) : Duplex σ :=
  { s with
    served := s.served ++ [frame]
    audit := S.onResponse s.audit now frame (S.text frame).utf8ByteSize
    toTransport := .queued frame }

def stepToTransport (s : Duplex σ) (n now : Nat) : Option (Duplex σ) :=
  if s.stage = .loops then
    match s.toTransport with
    | .receiving => do
        let (polled, fromServer) ← s.fromServer.next S.serde n
        let s := { s with fromServer }
        match polled with
        | .pending => some s
        | .ready (.ok (some (.frame frame))) => some (s.onServerFrame S now frame)
        | .ready (.ok (some (.violation v))) => some (s.finish (.violation v))
        | .ready (.ok none) => some (s.finish .eof)
        | .ready (.error _) => some (s.finish .failed)
    | .queued frame =>
        (s.toCaller.lock (S.line ∘ Outgoing.value) (.frame frame)).map fun toCaller =>
          { s with toCaller, toTransport := .sending }
    | .sending =>
        s.toCaller.poll.map fun polled =>
          let s := { s with toCaller := polled.2 }
          match polled.1 with
          | .more => s
          | .all => { s with toTransport := .receiving }
          | .failed => s.finish .gone
    | .ended _ => none
  else none

/-! ### the other sides -/

def withFromCaller (s : Duplex σ) (pipe : Pipe UInt8) : Duplex σ :=
  { s with fromCaller := { s.fromCaller with pipe } }

def withToCaller (s : Duplex σ) (pipe : Pipe UInt8) : Duplex σ :=
  { s with toCaller := { s.toCaller with pipe } }

def withFromServer (s : Duplex σ) (pipe : Pipe UInt8) : Duplex σ :=
  { s with fromServer := { s.fromServer with pipe } }

def withServerWrite (s : Duplex σ) (pipe : Pipe UInt8) : Duplex σ :=
  { s with serverWrite := { s.serverWrite with pipe } }

end Duplex

/-- A step of a session; `none` where it cannot be taken. -/
def duplexStep {σ : Type} (S : PumpSession σ) (s : Duplex σ) : DuplexMove σ → Option (Duplex σ)
  | .first => s.stepFirst
  | .toServer n now => s.stepToServer S n now
  | .toTransport n now => s.stepToTransport S n now
  | .callerWrites b => (s.fromCaller.pipe.put b).map s.withFromCaller
  | .callerStops how => some (s.withFromCaller (s.fromCaller.pipe.finish how))
  | .callerReads n =>
      if s.toCaller.pipe.attended then
        (s.toCaller.pipe.take n).map fun read => s.withToCaller read.2
      else none
  | .callerLeaves => some (s.withToCaller s.toCaller.pipe.leave)
  | .serverWrites b =>
      if s.fromServer.pipe.attended then (s.fromServer.pipe.put b).map s.withFromServer else none
  | .serverStops how => some (s.withFromServer (s.fromServer.pipe.finish how))
  | .serverReads n =>
      if s.serverWrite.pipe.attended then
        (s.serverWrite.pipe.take n).map fun read => s.withServerWrite read.2
      else none
  | .serverLeaves => some (s.withServerWrite s.serverWrite.pipe.leave)
  | .elsewhere limiter => some { s with limiter }

end Mcpmesh
