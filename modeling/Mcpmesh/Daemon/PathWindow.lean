import Mcpmesh.Daemon.Reach
import Mcpmesh.Dial.Address

/-!
# Mcpmesh.Daemon.PathWindow

What one measurement window tells of where application frames went
(`node/src/daemon/reach.rs`): the samples at its edges, the path events between
them, and `classify_window` over both.

A window marks the kind of every path it saw move (`windowMarks`).  It loses
sight of frames when its events are not to be trusted or a path is neither in
the last sample nor closed (`LostSight`).
-/

namespace Mcpmesh

open Dial (TransportAddr)

/-! ## paths and events -/

/-- The frame counts of an `iroh` path that are application frames. -/
structure PathStats where
  streamTx : Nat
  datagramTx : Nat
  streamRx : Nat
  datagramRx : Nat
  deriving DecidableEq

/-- `AppFrames::of`. -/
def PathStats.appFrames (s : PathStats) : Nat :=
  s.streamTx + s.datagramTx + s.streamRx + s.datagramRx

abbrev PathId := Nat

/-- `path_kind`; `sanitize` is `sanitize_relay_url`. -/
def pathKind (sanitize : String → String) : TransportAddr → PeerPath
  | .relay url => .relay (some (sanitize url))
  | .ip _ => .direct
  | .custom _ _ => .unknown

/-- `ObservedEvent`. -/
inductive ObservedEvent where
  | opened (id : PathId)
  | closed (id : PathId) (remoteAddr : TransportAddr) (lastStats : PathStats)
  | selected
  | lagged
  | unrecognised
  deriving DecidableEq

/-- `WindowEvent`. -/
inductive WindowEvent where
  | opened (id : PathId)
  | closed (id : PathId) (kind : PeerPath) (frames : Nat)
  | lagged
  | unrecognised
  deriving DecidableEq

/-- `WindowEvent::from_observed`: only a selection is dropped. -/
def WindowEvent.fromObserved (sanitize : String → String) : ObservedEvent → Option WindowEvent
  | .opened id => some (.opened id)
  | .closed id remoteAddr lastStats =>
      some (.closed id (pathKind sanitize remoteAddr) lastStats.appFrames)
  | .selected => none
  | .lagged => some .lagged
  | .unrecognised => some .unrecognised

structure PathSample where
  id : PathId
  kind : PeerPath
  frames : Nat
  deriving DecidableEq

/-- `classify_paths`: the selected path, or the only one. -/
def classifyPaths (paths : List (PeerPath × Bool)) : PeerPath :=
  match paths.find? (·.2) with
  | some (kind, _) => kind
  | none =>
      match paths with
      | [(kind, _)] => kind
      | _ => .unknown

/-! ## one window -/

inductive WindowReading where
  | moved (path : PeerPath)
  | idle (path : PeerPath)
  | unobservable
  deriving DecidableEq

section Window

variable (before after : List PathSample) (events : List WindowEvent)

def baseline (id : PathId) : Option Nat := (before.find? (·.id = id)).map (·.frames)

def openedIds : List PathId :=
  events.filterMap fun
    | .opened id => some id
    | _ => none

def closedIds : List PathId :=
  events.filterMap fun
    | .closed id _ _ => some id
    | _ => none

/-- The kind a `Closed` event marks: a path without a baseline counts whole if it
opened in the window, and not at all if it did not. -/
def closedMark : WindowEvent → Option PeerPath
  | .closed id kind frames =>
      match baseline before id with
      | some base => if 0 < frames - base then some kind else none
      | none => if id ∈ openedIds events ∧ 0 < frames then some kind else none
  | _ => none

/-- The kind a path of the last sample marks. -/
def sampleMark (s : PathSample) : Option PeerPath :=
  if 0 < s.frames - (baseline before s.id).getD 0 then some s.kind else none

/-- The kinds of the paths that moved, in the order they are found. -/
def windowMarks : List PeerPath :=
  events.filterMap (closedMark before events) ++ after.filterMap (sampleMark before)

def accounted (id : PathId) : Bool := after.any (·.id = id) || id ∈ closedIds events

/-- A path that was there is neither in the last sample nor closed. -/
def disappeared : Bool :=
  before.any (!accounted after events ·.id) || (openedIds events).any (!accounted after events ·)

def untrustedStream : Bool := .lagged ∈ events || .unrecognised ∈ events

def PeerPath.isRelay : PeerPath → Bool
  | .relay _ => true
  | _ => false

/-- `classify_window`. -/
def classifyWindow (fallback : PeerPath) : WindowReading :=
  match (windowMarks before after events).find? PeerPath.isRelay with
  | some relay => .moved relay
  | none =>
      if .unknown ∈ windowMarks before after events ∨ untrustedStream events ∨
          disappeared before after events then .unobservable
      else if .direct ∈ windowMarks before after events then .moved .direct
      else .idle fallback

end Window

/-- What `combine_windows` answers after a reading; an idle window that knows no
path is retried. -/
def WindowReading.answer : WindowReading → Option PeerPath
  | .moved path => some path
  | .unobservable => some .unknown
  | .idle .unknown => none
  | .idle path => some path

/-- The reading owns up to a relay, or to having lost sight. -/
def WindowReading.Guarded (r : WindowReading) : Prop :=
  r = .unobservable ∨ ∃ url, r = .moved (.relay url)

/-! ## what a window reads -/

section Reading

variable {before after : List PathSample} {events : List WindowEvent} {fallback : PeerPath}

theorem PeerPath.isRelay_iff {p : PeerPath} : p.isRelay ↔ ∃ url, p = .relay url := by
  cases p <;> simp [PeerPath.isRelay]

/-- A relay path among the marks of a window guards its reading. -/
theorem guarded_of_relay_mark {url : Option String}
    (h : .relay url ∈ windowMarks before after events) :
    (classifyWindow before after events fallback).Guarded := by
  rw [classifyWindow]
  split
  · next relay hfound =>
    have hrelay := List.find?_some hfound
    obtain ⟨url', rfl⟩ := PeerPath.isRelay_iff.mp hrelay
    exact .inr ⟨url', rfl⟩
  · next hfound => exact absurd rfl (List.find?_eq_none.mp hfound _ h)

/-- A window that may have lost something is guarded. -/
theorem guarded_of_lost (h : untrustedStream events ∨ disappeared before after events) :
    (classifyWindow before after events fallback).Guarded := by
  rw [classifyWindow]
  split
  · next relay hfound =>
    have hrelay := List.find?_some hfound
    obtain ⟨url, rfl⟩ := PeerPath.isRelay_iff.mp hrelay
    exact .inr ⟨url, rfl⟩
  · rw [if_pos (.inr h)]
    exact .inl rfl

/-- A window in which nothing moved or was lost is idle. -/
theorem classifyWindow_idle (hmarks : windowMarks before after events = [])
    (htrusted : untrustedStream events = false)
    (hthere : disappeared before after events = false) :
    classifyWindow before after events fallback = .idle fallback := by
  simp [classifyWindow, hmarks, htrusted, hthere]

/-- A guarded reading does not answer `Direct`. -/
theorem WindowReading.Guarded.answer {r : WindowReading} (h : r.Guarded) :
    ∃ path, r.answer = some path ∧ path ≠ .direct := by
  obtain rfl | ⟨url, rfl⟩ := h
  · exact ⟨.unknown, rfl, nofun⟩
  · exact ⟨.relay url, rfl, nofun⟩

end Reading

end Mcpmesh
