import Mcpmesh.Daemon.PathWindow
import Mcpmesh.Lib.Run

/-!
# Mcpmesh.Daemon.PathRun

A path measurement while the paths change (`node/src/daemon/reach.rs`):
`measure_window` and `combine_windows` on a connection whose list of paths, with
its events, is another party's.

A path is put on the list, announced, taken off and reported closed, one after
the other; everything else may come in between.  A window is judged by what the
paths were at its two samples and by the events sent since its subscription
(`PathWindow.Faithful`).  A relay is not hidden, and an idle window is read as
the structure of the paths, where the events are in step with the samples
(`PathWindow.InStep`, `measured_path_sound`).
-/

namespace Mcpmesh

open Lib
open Dial (TransportAddr)

/-! ## the paths of a connection -/

inductive PathStage where
  | listed
  /-- off the list, not yet reported closed -/
  | leaving
  | closed
  deriving DecidableEq

structure PathRow where
  addr : TransportAddr
  stats : PathStats
  selected : Bool
  announced : Bool
  stage : PathStage
  deriving DecidableEq

/-- Every path a connection had, those that closed too. -/
structure PathWorld where
  ids : List PathId
  row : PathId → Option PathRow
  known : ∀ id r, row id = some r → id ∈ ids

inductive PathChange where
  | add (id : PathId) (addr : TransportAddr) (stats : PathStats)
  /-- send its `Opened` -/
  | announce (id : PathId)
  | move (id : PathId) (stats : PathStats)
  | remove (id : PathId)
  /-- send its `Closed` -/
  | close (id : PathId)
  | select (ids : List PathId)
  /-- an event this build does not know -/
  | unknown

namespace PathWorld

def empty : PathWorld := { ids := [], row := fun _ => none, known := nofun }

/-- The row of a path on the list. -/
def listed (w : PathWorld) (id : PathId) : Option PathRow :=
  (w.row id).filter (·.stage = .listed)

/-- The application frames of a path so far. -/
def frames (w : PathWorld) (id : PathId) : Nat := ((w.row id).map (·.stats.appFrames)).getD 0

def put (w : PathWorld) (id : PathId) (r : PathRow) : PathWorld where
  ids := if id ∈ w.ids then w.ids else w.ids ++ [id]
  row := fun id' => if id' = id then some r else w.row id'
  known := by
    intro id' r' h
    by_cases hid : id' = id
    · split
      · rwa [hid]
      · exact List.mem_append_right _ (hid ▸ List.mem_cons_self)
    · rw [if_neg hid] at h
      have hmem := w.known id' r' h
      split
      · exact hmem
      · exact List.mem_append_left _ hmem

def withSelected (w : PathWorld) (ids : List PathId) : PathWorld where
  ids := w.ids
  row := fun id => (w.row id).map fun r => { r with selected := id ∈ ids }
  known := by
    intro id r h
    obtain ⟨r', hr', -⟩ := Option.map_eq_some_iff.mp h
    exact w.known id r' hr'

/-- What a change makes of the paths, and the events it sends. -/
def change (w : PathWorld) : PathChange → Option (PathWorld × List ObservedEvent)
  | .add id addr stats =>
      if w.row id = none then
        some (w.put id { addr, stats, selected := false, announced := false, stage := .listed }, [])
      else none
  | .announce id =>
      (w.row id).bind fun r =>
        if r.announced = false ∧ r.stage ≠ .closed then
          some (w.put id { r with announced := true }, [.opened id])
        else none
  | .move id stats =>
      (w.row id).bind fun r =>
        if r.stage ≠ .closed ∧ r.stats.appFrames ≤ stats.appFrames then
          some (w.put id { r with stats }, [])
        else none
  | .remove id =>
      (w.row id).bind fun r =>
        if r.stage = .listed then some (w.put id { r with stage := .leaving }, []) else none
  | .close id =>
      (w.row id).bind fun r =>
        if r.stage = .leaving ∧ r.announced then
          some (w.put id { r with stage := .closed }, [.closed id r.addr r.stats])
        else none
  | .select ids => some (w.withSelected ids, [.selected])
  | .unknown => some (w, [.unrecognised])

variable (sanitize : String → String)

/-- `WindowSource::sample`. -/
def sample (w : PathWorld) : List PathSample :=
  w.ids.filterMap fun id => (w.listed id).map fun r =>
    { id, kind := pathKind sanitize r.addr, frames := r.stats.appFrames }

/-- `selected_path`. -/
def selectedPath (w : PathWorld) : PeerPath :=
  classifyPaths <| w.ids.filterMap fun id => (w.listed id).map fun r =>
    (pathKind sanitize r.addr, r.selected)

end PathWorld

/-! ## the measurement -/

/-- A window that took both samples: the paths at these and when it was read, the
events sent since its subscription and those it saw. -/
structure PathWindow where
  before : PathWorld
  after : PathWorld
  last : PathWorld
  sent : List ObservedEvent
  seen : List WindowEvent
  /-- the stream ended before the window had drained it -/
  ended : Bool
  reading : WindowReading

inductive MeasurePhase where
  | opening
  | subscribing
  | subscribed
  | draining (before : PathWorld)
  | elapsed (before : PathWorld)
  | sampling (before : PathWorld)
  | finishing (before after : PathWorld)
  | answered (path : PeerPath)

structure PathMeasurement where
  world : PathWorld
  /-- the connection has a close reason -/
  isClosed : Bool
  left : Nat
  phase : MeasurePhase
  queue : List ObservedEvent
  /-- the stream ends once the queue is empty -/
  ended : Bool
  sent : List ObservedEvent
  seen : List WindowEvent
  windows : List PathWindow

inductive MeasureEvent where
  | change (c : PathChange)
  /-- the subscriber misses its oldest events, and is told -/
  | lag (missed : Nat)
  | closeConn
  | endStream
  /-- the measurement takes an event -/
  | recv
  /-- the measurement goes on to its next step -/
  | turn

def pathMeasureWindows : Nat := 3

namespace PathMeasurement

def start (world : PathWorld) : PathMeasurement where
  world := world
  isClosed := false
  left := pathMeasureWindows
  phase := .opening
  queue := []
  ended := false
  sent := []
  seen := []
  windows := []

/-- `combine_windows`, when a window is read. -/
def conclude (m : PathMeasurement) (r : WindowReading) : PathMeasurement :=
  match r.answer with
  | some path => { m with phase := .answered path }
  | none =>
      if m.left ≤ 1 then { m with left := 0, phase := .answered .unknown }
      else { m with left := m.left - 1, phase := .opening }

variable (sanitize : String → String)

/-- The window that ends, as it was. -/
def window (m : PathMeasurement) (before after : PathWorld) (ended : Bool)
    (reading : WindowReading) : PathWindow :=
  { before, after, last := m.world, sent := m.sent, seen := m.seen, ended, reading }

/-- The reading of the window that ends. -/
def classify (m : PathMeasurement) (before after : PathWorld) : PathMeasurement :=
  let reading := classifyWindow (before.sample sanitize) (after.sample sanitize) m.seen
    (m.world.selectedPath sanitize)
  conclude { m with windows := m.windows ++ [m.window before after false reading] } reading

/-- The stream ended first: what was left of the window is unobserved. -/
def cutShort (m : PathMeasurement) : PathMeasurement :=
  match m.phase with
  | .finishing before after =>
      conclude { m with windows := m.windows ++ [m.window before after true .unobservable] }
        .unobservable
  | _ => m.conclude .unobservable

/-- `measure_window`, from one of its steps to the next. -/
def turn (m : PathMeasurement) : Option PathMeasurement :=
  match m.phase with
  | .opening =>
      some (if m.isClosed then m.conclude .unobservable else { m with phase := .subscribing })
  | .subscribing =>
      some { m with phase := .subscribed, queue := [], ended := false, sent := [], seen := [] }
  | .subscribed => some { m with phase := .draining m.world }
  | .draining before => some { m with phase := .elapsed before }
  | .elapsed before =>
      some (if m.isClosed then m.conclude .unobservable else { m with phase := .sampling before })
  | .sampling before => some { m with phase := .finishing before m.world }
  | .finishing before after =>
      if m.queue = [] ∧ m.ended = false then some (m.classify sanitize before after) else none
  | .answered _ => none

def recv (m : PathMeasurement) : Option PathMeasurement :=
  match m.queue with
  | e :: queue =>
      some { m with queue, seen := m.seen ++ (WindowEvent.fromObserved sanitize e).toList }
  | [] => if m.ended then some m.cutShort else none

def step (m : PathMeasurement) : MeasureEvent → Option PathMeasurement
  | .change c =>
      (m.world.change c).map fun (world, events) =>
        { m with world, queue := m.queue ++ events, sent := m.sent ++ events }
  | .lag missed =>
      if 0 < missed ∧ missed ≤ m.queue.length then
        some { m with queue := .lagged :: m.queue.drop missed }
      else none
  | .closeConn => some { m with isClosed := true }
  | .endStream => some { m with ended := true }
  | .recv =>
      match m.phase with
      | .draining _ | .finishing _ _ => m.recv sanitize
      | _ => none
  | .turn => m.turn sanitize

end PathMeasurement

/-! ## the paths only go on -/

/-- A path may move and go through its stages, and stays as it was once closed. -/
structure PathRow.Grows (r r' : PathRow) : Prop where
  addr : r'.addr = r.addr
  frames : r.stats.appFrames ≤ r'.stats.appFrames
  unlisted : r.stage ≠ .listed → r'.stage ≠ .listed
  closed : r.stage = .closed → r'.stage = .closed ∧ r'.stats = r.stats

/-- A row grows when its counts do and its stage goes on. -/
theorem PathRow.Grows.refl (r : PathRow) : r.Grows r := ⟨rfl, Nat.le_refl _, id, fun h => ⟨h, rfl⟩⟩

theorem PathRow.Grows.trans {r r' r'' : PathRow} (h : r.Grows r') (h' : r'.Grows r'') :
    r.Grows r'' where
  addr := h'.addr.trans h.addr
  frames := h.frames.trans h'.frames
  unlisted := fun hr => h'.unlisted (h.unlisted hr)
  closed := fun hr => by
    obtain ⟨hstage, hstats⟩ := h.closed hr
    obtain ⟨hstage', hstats'⟩ := h'.closed hstage
    exact ⟨hstage', hstats'.trans hstats⟩

namespace PathWorld

def Grows (w w' : PathWorld) : Prop :=
  ∀ id r, w.row id = some r → ∃ r', w'.row id = some r' ∧ r.Grows r'

theorem Grows.refl (w : PathWorld) : w.Grows w := fun _ r h => ⟨r, h, .refl r⟩

theorem Grows.trans {w w' w'' : PathWorld} (h : w.Grows w') (h' : w'.Grows w'') :
    w.Grows w'' := by
  intro id r hr
  obtain ⟨r', hr', hgrows⟩ := h id r hr
  obtain ⟨r'', hr'', hgrows'⟩ := h' id r' hr'
  exact ⟨r'', hr'', hgrows.trans hgrows'⟩

variable {w w' : PathWorld} {id : PathId} {r r' : PathRow} {events : List ObservedEvent}

/-- A row that was put is there. -/
@[simp] theorem row_put_self : (w.put id r).row id = some r := if_pos rfl

/-- A new row is growth. -/
theorem grows_put_new (h : w.row id = none) : w.Grows (w.put id r) := by
  intro id' r' hr'
  have hne : id' ≠ id := by
    rintro rfl
    rw [h] at hr'
    contradiction
  exact ⟨r', (if_neg hne).trans hr', .refl r'⟩

/-- A row that grew is growth. -/
theorem grows_put (h : w.row id = some r) (hr : r.Grows r') : w.Grows (w.put id r') := by
  intro id' r'' hr''
  by_cases hid : id' = id
  · subst hid
    obtain rfl := Option.some.inj (h.symm.trans hr'')
    exact ⟨r', if_pos rfl, hr⟩
  · exact ⟨r'', (if_neg hid).trans hr'', .refl r''⟩

/-- The `Closed` events tell what the closed paths are. -/
def Reports (w : PathWorld) (events : List ObservedEvent) : Prop :=
  ∀ id addr stats, .closed id addr stats ∈ events →
    ∃ r, w.row id = some r ∧ r.stage = .closed ∧ r.addr = addr ∧ r.stats = stats

/-- What an event reports of the world is true of a later one. -/
theorem Reports.grows (h : w.Reports events) (hgrows : w.Grows w') : w'.Reports events := by
  intro id addr stats hmem
  obtain ⟨r, hr, hstage, rfl, rfl⟩ := h id addr stats hmem
  obtain ⟨r', hr', hrow⟩ := hgrows id r hr
  obtain ⟨hstage', hstats⟩ := hrow.closed hstage
  exact ⟨r', hr', hstage', hrow.addr, hstats⟩

/-- **One change**: the paths go on, and what is sent is so. -/
theorem change_spec {c : PathChange} (h : w.change c = some (w', events)) :
    w.Grows w' ∧ w'.Reports events ∧ .lagged ∉ events := by
  cases c with
  | add id addr stats =>
      rw [change] at h
      split at h
      · next hnew =>
        obtain ⟨rfl, rfl⟩ := Prod.mk.inj (Option.some.inj h)
        exact ⟨grows_put_new hnew, nofun, nofun⟩
      · contradiction
  | announce id =>
      obtain ⟨r, hr, h⟩ := Option.bind_eq_some_iff.mp h
      split at h
      · obtain ⟨rfl, rfl⟩ := Prod.mk.inj (Option.some.inj h)
        exact ⟨grows_put hr ⟨rfl, Nat.le_refl _, fun h => h, fun h => ⟨h, rfl⟩⟩, by simp [Reports],
          by simp⟩
      · contradiction
  | move id stats =>
      obtain ⟨r, hr, h⟩ := Option.bind_eq_some_iff.mp h
      split at h
      · next hmove =>
        obtain ⟨rfl, rfl⟩ := Prod.mk.inj (Option.some.inj h)
        exact ⟨grows_put hr ⟨rfl, hmove.2, fun h => h, fun h => absurd h hmove.1⟩, nofun, nofun⟩
      · contradiction
  | remove id =>
      obtain ⟨r, hr, h⟩ := Option.bind_eq_some_iff.mp h
      split at h
      · next hlisted =>
        obtain ⟨rfl, rfl⟩ := Prod.mk.inj (Option.some.inj h)
        refine ⟨grows_put hr ⟨rfl, Nat.le_refl _, nofun, fun h => ?_⟩, nofun, nofun⟩
        exact absurd (hlisted.symm.trans h) nofun
      · contradiction
  | close id =>
      obtain ⟨r, hr, h⟩ := Option.bind_eq_some_iff.mp h
      split at h
      · obtain ⟨rfl, rfl⟩ := Prod.mk.inj (Option.some.inj h)
        refine ⟨grows_put hr ⟨rfl, Nat.le_refl _, nofun, fun _ => ⟨rfl, rfl⟩⟩, ?_, by simp⟩
        rintro id' addr stats hmem
        obtain ⟨rfl, rfl, rfl⟩ := ObservedEvent.closed.inj (List.mem_singleton.mp hmem)
        exact ⟨_, row_put_self, rfl, rfl, rfl⟩
      · contradiction
  | select ids =>
      obtain ⟨rfl, rfl⟩ := Prod.mk.inj (Option.some.inj h)
      refine ⟨fun id r hr => ?_, by simp [Reports], by simp⟩
      exact ⟨{ r with selected := id ∈ ids }, congrArg (Option.map _) hr, rfl, Nat.le_refl _,
        fun h => h, fun h => ⟨h, rfl⟩⟩
  | unknown =>
      obtain ⟨rfl, rfl⟩ := Prod.mk.inj (Option.some.inj h)
      exact ⟨.refl _, by simp [Reports], by simp⟩

/-! ### what a sample holds -/

section Sample

variable {sanitize : String → String}

/-- A path is listed while its row says so. -/
theorem listed_eq_some : w.listed id = some r ↔ w.row id = some r ∧ r.stage = .listed := by
  simp [listed, Option.filter_eq_some_iff]

/-- A sample has a line for each path that is listed. -/
theorem mem_sample {s : PathSample} : s ∈ w.sample sanitize ↔ ∃ r, w.listed s.id = some r ∧
    s.kind = pathKind sanitize r.addr ∧ s.frames = r.stats.appFrames := by
  rw [sample, List.mem_filterMap]
  constructor
  · rintro ⟨id, -, hs⟩
    obtain ⟨r, hr, rfl⟩ := Option.map_eq_some_iff.mp hs
    exact ⟨r, hr, rfl, rfl⟩
  · rintro ⟨r, hr, hkind, hframes⟩
    refine ⟨s.id, w.known _ r (listed_eq_some.mp hr).1, ?_⟩
    rw [hr, Option.map_some, ← hkind, ← hframes]

/-- The baseline of a path is what the first sample counts of it. -/
theorem baseline_sample : baseline (w.sample sanitize) id =
    (w.listed id).map (·.stats.appFrames) := by
  cases hfound : (w.sample sanitize).find? (·.id = id) with
  | none =>
      have hnone : w.listed id = none := by
        by_contra hsome
        obtain ⟨r, hr⟩ := Option.ne_none_iff_exists'.mp hsome
        have hmem : ⟨id, pathKind sanitize r.addr, r.stats.appFrames⟩ ∈ w.sample sanitize :=
          mem_sample.mpr ⟨r, hr, rfl, rfl⟩
        simpa using List.find?_eq_none.mp hfound _ hmem
      rw [baseline, hfound, hnone]
      rfl
  | some s =>
      obtain ⟨r, hr, -, hframes⟩ := mem_sample.mp (List.mem_of_find?_eq_some hfound)
      have hid : s.id = id := by simpa using List.find?_some hfound
      rw [baseline, hfound, ← hid, hr, Option.map_some, Option.map_some, hframes]

/-- What a path has carried is in its row. -/
theorem frames_of_row (h : w.row id = some r) : w.frames id = r.stats.appFrames := by
  rw [frames, h]
  rfl

end Sample

end PathWorld

/-! ## what a window is judged by -/

namespace PathWindow

variable (sanitize : String → String) (w : PathWindow)

/-- The path was on the list at some time from one sample to the other. -/
def ListedDuring (id : PathId) : Prop :=
  w.before.listed id ≠ none ∨ w.before.row id = none ∧ w.after.row id ≠ none

/-- A relay path's count went up from one sample to the other. -/
def RelayMoved : Prop :=
  ∃ id r, w.after.row id = some r ∧ (pathKind sanitize r.addr).isRelay ∧
    w.before.frames id < w.after.frames id

/-- No path that was on the list moved. -/
def StoodStill : Prop := ∀ id, w.ListedDuring id → w.after.frames id = w.before.frames id

/-- The window saw its events to the end, was told that it missed nothing, and of
every path that left. -/
structure NothingLost : Prop where
  drained : w.ended = false
  lagged : .lagged ∉ w.seen
  unrecognised : .unrecognised ∉ w.seen
  closed : ∀ id, w.ListedDuring id → w.after.listed id = none →
    ∃ addr stats, .closed id addr stats ∈ w.sent

/-- The events sent since the subscription are in step with the samples. -/
structure InStep : Prop where
  /-- An `Opened` is of a path on the list between the samples, or of one that
  reported closing without a frame. -/
  opened : ∀ id, .opened id ∈ w.sent → w.ListedDuring id ∨
    ∃ addr stats, .closed id addr stats ∈ w.sent ∧ stats.appFrames = 0
  /-- A `Closed` of a path on the list between the samples carries its count at
  the second. -/
  closed : ∀ id addr stats, .closed id addr stats ∈ w.sent → w.ListedDuring id →
    stats.appFrames = w.after.frames id
  /-- A relay path off the list at both samples did not move unannounced. -/
  hidden : ∀ id r, w.after.row id = some r → (pathKind sanitize r.addr).isRelay →
    w.before.listed id = none → w.after.listed id = none → .opened id ∉ w.sent →
    w.after.frames id ≤ w.before.frames id

/-- The window is what its paths, its events and its reading make it. -/
structure Faithful : Prop where
  grows : w.before.Grows w.after
  goesOn : w.after.Grows w.last
  reports : w.last.Reports w.sent
  told : .lagged ∈ w.seen ∨ w.seen = w.sent.filterMap (WindowEvent.fromObserved sanitize)
  reading : w.reading =
    if w.ended then .unobservable
    else classifyWindow (w.before.sample sanitize) (w.after.sample sanitize) w.seen
      (w.last.selectedPath sanitize)

end PathWindow

/-! ## what a window saw -/

section Seen

variable {sanitize : String → String} {id : PathId} {events : List WindowEvent}
  {sent : List ObservedEvent}

/-- A path is among the opened if an event says so. -/
theorem mem_openedIds : id ∈ openedIds events ↔ .opened id ∈ events := by
  rw [openedIds, List.mem_filterMap]
  constructor
  · rintro ⟨e, he, hid⟩
    cases e with
    | opened => exact Option.some.inj hid ▸ he
    | closed | lagged | unrecognised => contradiction
  · exact fun h => ⟨_, h, rfl⟩

/-- A path is among the closed if an event says so. -/
theorem mem_closedIds : id ∈ closedIds events ↔ ∃ kind frames, .closed id kind frames ∈ events := by
  rw [closedIds, List.mem_filterMap]
  constructor
  · rintro ⟨e, he, hid⟩
    cases e with
    | closed _ kind frames => exact ⟨kind, frames, Option.some.inj hid ▸ he⟩
    | opened | lagged | unrecognised => contradiction
  · exact fun ⟨_, _, h⟩ => ⟨_, h, rfl⟩

/-- An opening is seen as it was sent. -/
theorem opened_mem_seen :
    .opened id ∈ sent.filterMap (WindowEvent.fromObserved sanitize) ↔ .opened id ∈ sent := by
  rw [List.mem_filterMap]
  constructor
  · rintro ⟨e, he, hid⟩
    cases e with
    | opened => exact WindowEvent.opened.inj (Option.some.inj hid) ▸ he
    | closed | selected | lagged | unrecognised => exact absurd hid nofun
  · exact fun h => ⟨_, h, rfl⟩

/-- A close is seen with the kind and the count it was sent with. -/
theorem closed_mem_seen {kind : PeerPath} {frames : Nat} :
    .closed id kind frames ∈ sent.filterMap (WindowEvent.fromObserved sanitize) ↔
      ∃ addr stats, .closed id addr stats ∈ sent ∧ pathKind sanitize addr = kind ∧
        stats.appFrames = frames := by
  rw [List.mem_filterMap]
  constructor
  · rintro ⟨e, he, hid⟩
    cases e with
    | closed _ addr stats =>
        obtain ⟨rfl, hkind, hframes⟩ := WindowEvent.closed.inj (Option.some.inj hid)
        exact ⟨addr, stats, he, hkind, hframes⟩
    | opened | selected | lagged | unrecognised => exact absurd hid nofun
  · rintro ⟨addr, stats, h, rfl, rfl⟩
    exact ⟨_, h, rfl⟩

/-- A path is accounted for if it is listed at the end or was closed. -/
theorem accounted_sample {after : PathWorld} : accounted (after.sample sanitize) events id = true ↔
    after.listed id ≠ none ∨ id ∈ closedIds events := by
  rw [accounted, Bool.or_eq_true, decide_eq_true_eq, List.any_eq_true]
  refine or_congr ⟨?_, ?_⟩ Iff.rfl
  · rintro ⟨s, hs, hid⟩
    obtain ⟨r, hr, -⟩ := PathWorld.mem_sample.mp hs
    rw [decide_eq_true_eq] at hid
    rw [← hid, hr]
    exact nofun
  · intro hlisted
    obtain ⟨r, hr⟩ := Option.ne_none_iff_exists'.mp hlisted
    exact ⟨⟨id, pathKind sanitize r.addr, r.stats.appFrames⟩,
      PathWorld.mem_sample.mpr ⟨r, hr, rfl, rfl⟩, decide_eq_true rfl⟩

/-- A path disappeared if it was there and is neither listed nor closed at the end. -/
theorem disappeared_sample {before after : PathWorld} :
    disappeared (before.sample sanitize) (after.sample sanitize) events = true ↔
      ∃ id, (before.listed id ≠ none ∨ .opened id ∈ events) ∧
        after.listed id = none ∧ id ∉ closedIds events := by
  have hmissing : ∀ id, (!accounted (after.sample sanitize) events id) = true ↔
      after.listed id = none ∧ id ∉ closedIds events := by
    intro id
    rw [Bool.not_eq_true', ← Bool.not_eq_true, accounted_sample, not_or, not_not]
  rw [disappeared, Bool.or_eq_true, List.any_eq_true, List.any_eq_true]
  constructor
  · rintro (⟨s, hs, hgone⟩ | ⟨id, hid, hgone⟩)
    · obtain ⟨r, hr, -⟩ := PathWorld.mem_sample.mp hs
      exact ⟨s.id, .inl (hr ▸ nofun), (hmissing s.id).mp hgone⟩
    · exact ⟨id, .inr (mem_openedIds.mp hid), (hmissing id).mp hgone⟩
  · rintro ⟨id, hlisted | hopened, hgone⟩
    · obtain ⟨r, hr⟩ := Option.ne_none_iff_exists'.mp hlisted
      exact .inl ⟨⟨id, pathKind sanitize r.addr, r.stats.appFrames⟩,
        PathWorld.mem_sample.mpr ⟨r, hr, rfl, rfl⟩, (hmissing id).mpr hgone⟩
    · exact .inr ⟨id, mem_openedIds.mpr hopened, (hmissing id).mpr hgone⟩

/-- A path that closed moved in the window. -/
structure ClosedMoved (before : PathWorld) (events : List WindowEvent) (id : PathId)
    (frames : Nat) : Prop where
  based : ∀ r, before.listed id = some r → r.stats.appFrames < frames
  unbased : before.listed id = none → .opened id ∈ events ∧ 0 < frames

/-- The frames of a path at the first sample, as a window takes them. -/
def baseFrames (before : PathWorld) (id : PathId) : Nat :=
  ((before.listed id).map (·.stats.appFrames)).getD 0

/-- A close leaves a mark if it moved from the baseline on. -/
theorem closedMark_sample {before : PathWorld} {kind kind' : PeerPath} {frames : Nat} :
    closedMark (before.sample sanitize) events (.closed id kind' frames) = some kind ↔
      kind' = kind ∧ ClosedMoved before events id frames := by
  rw [closedMark, PathWorld.baseline_sample]
  cases hlisted : before.listed id with
  | some r =>
      have hiff : ClosedMoved before events id frames ↔ r.stats.appFrames < frames :=
        ⟨fun h => h.based r hlisted, fun h =>
          ⟨fun r' hr' => Option.some.inj (hlisted.symm.trans hr') ▸ h,
            fun hnone => absurd (hlisted.symm.trans hnone) nofun⟩⟩
      have hpos : 0 < frames - r.stats.appFrames ↔ r.stats.appFrames < frames :=
        Nat.sub_pos_iff_lt
      rw [hiff.trans hpos.symm, Option.map_some]
      simp [and_comm]
  | none =>
      have hiff : ClosedMoved before events id frames ↔ .opened id ∈ events ∧ 0 < frames :=
        ⟨fun h => h.unbased hlisted, fun h =>
          ⟨fun r' hr' => absurd (hlisted.symm.trans hr') nofun, fun _ => h⟩⟩
      rw [hiff, Option.map_none, ← mem_openedIds]
      simp [and_comm]

/-- The marks are the paths that closed with a move and the listed ones that moved. -/
theorem mem_windowMarks {before after : PathWorld} {kind : PeerPath} :
    kind ∈ windowMarks (before.sample sanitize) (after.sample sanitize) events ↔
      (∃ id frames, .closed id kind frames ∈ events ∧ ClosedMoved before events id frames) ∨
        ∃ id r, after.listed id = some r ∧ pathKind sanitize r.addr = kind ∧
          baseFrames before id < r.stats.appFrames := by
  rw [windowMarks, List.mem_append, List.mem_filterMap, List.mem_filterMap]
  refine or_congr ⟨?_, ?_⟩ ⟨?_, ?_⟩
  · rintro ⟨e, he, hmark⟩
    cases e with
    | closed id kind' frames =>
        obtain ⟨rfl, hmoved⟩ := closedMark_sample.mp hmark
        exact ⟨id, frames, he, hmoved⟩
    | opened | lagged | unrecognised => contradiction
  · rintro ⟨id, frames, he, hmoved⟩
    exact ⟨_, he, closedMark_sample.mpr ⟨rfl, hmoved⟩⟩
  · rintro ⟨s, hs, hmark⟩
    obtain ⟨r, hr, hkind, hframes⟩ := PathWorld.mem_sample.mp hs
    rw [sampleMark, PathWorld.baseline_sample, Option.ite_none_right_eq_some] at hmark
    obtain ⟨hpos, hmark⟩ := hmark
    refine ⟨s.id, r, hr, ?_, ?_⟩
    · rw [← hkind]
      exact Option.some.inj hmark
    · rw [← hframes]
      exact Nat.sub_pos_iff_lt.mp hpos
  · rintro ⟨id, r, hr, rfl, hlt⟩
    refine ⟨⟨id, pathKind sanitize r.addr, r.stats.appFrames⟩,
      PathWorld.mem_sample.mpr ⟨r, hr, rfl, rfl⟩, ?_⟩
    rw [sampleMark, PathWorld.baseline_sample]
    exact if_pos (Nat.sub_pos_iff_lt.mpr hlt)

end Seen

namespace PathWindow

variable {sanitize : String → String} {w : PathWindow}

/-- What was closed since the subscription stopped at what its `Closed` carries,
if it was there at the second sample. -/
theorem Faithful.closed_spec (h : w.Faithful sanitize) {id : PathId} {addr : TransportAddr}
    {stats : PathStats} (hclosed : .closed id addr stats ∈ w.sent) {r : PathRow}
    (hr : w.after.row id = some r) : r.addr = addr ∧ r.stats.appFrames ≤ stats.appFrames := by
  obtain ⟨r', hr', -, rfl, rfl⟩ := h.reports id addr stats hclosed
  obtain ⟨r'', hr'', hrow⟩ := h.goesOn id r hr
  obtain rfl := Option.some.inj (hr'.symm.trans hr'')
  exact ⟨hrow.addr.symm, hrow.frames⟩

/-- A path is closed once. -/
theorem Faithful.closed_once (h : w.Faithful sanitize) {id : PathId} {addr addr' : TransportAddr}
    {stats stats' : PathStats} (hclosed : .closed id addr stats ∈ w.sent)
    (hclosed' : .closed id addr' stats' ∈ w.sent) : stats = stats' := by
  obtain ⟨r, hr, -, -, rfl⟩ := h.reports id addr stats hclosed
  obtain ⟨r', hr', -, -, rfl⟩ := h.reports id addr' stats' hclosed'
  rw [Option.some.inj (hr.symm.trans hr')]

/-- A path listed at the second sample was listed between the two. -/
theorem Faithful.listedDuring (h : w.Faithful sanitize) {id : PathId} {r : PathRow}
    (hr : w.after.listed id = some r) : w.ListedDuring id := by
  obtain ⟨hrow, hstage⟩ := PathWorld.listed_eq_some.mp hr
  cases hbefore : w.before.row id with
  | none => exact .inr ⟨hbefore, hrow ▸ nofun⟩
  | some r₀ =>
      obtain ⟨r', hr', hgrows⟩ := h.grows id r₀ hbefore
      obtain rfl := Option.some.inj (hrow.symm.trans hr')
      have hlisted : r₀.stage = .listed := by
        by_contra hne
        exact hgrows.unlisted hne hstage
      exact .inl (PathWorld.listed_eq_some.mpr ⟨hbefore, hlisted⟩ ▸ nofun)

/-- The baseline of a listed path is what it had carried. -/
theorem baseFrames_of_listed {id : PathId} (hlisted : w.before.listed id ≠ none) :
    baseFrames w.before id = w.before.frames id := by
  obtain ⟨r, hr⟩ := Option.ne_none_iff_exists'.mp hlisted
  rw [baseFrames, hr, PathWorld.frames_of_row (PathWorld.listed_eq_some.mp hr).1]
  rfl

/-- For a path between the samples the baseline a window takes is its count at the
first. -/
theorem ListedDuring.baseFrames {id : PathId} (h : w.ListedDuring id) :
    baseFrames w.before id = w.before.frames id := by
  obtain hlisted | ⟨hrow, -⟩ := h
  · exact baseFrames_of_listed hlisted
  · rw [Mcpmesh.baseFrames, PathWorld.frames, PathWorld.listed, hrow]
    rfl

/-- **A relay is not hidden.** -/
theorem Faithful.guarded (h : w.Faithful sanitize)
    (hhidden : w.ended = false → ∀ id r, w.after.row id = some r →
      (pathKind sanitize r.addr).isRelay → w.before.listed id = none →
      w.after.listed id = none → .opened id ∉ w.sent →
      w.after.frames id ≤ w.before.frames id)
    (hmoved : w.RelayMoved sanitize) : w.reading.Guarded := by
  obtain ⟨id, r, hr, hrelay, hlt⟩ := hmoved
  obtain ⟨url, hurl⟩ := PeerPath.isRelay_iff.mp hrelay
  have hframes := PathWorld.frames_of_row hr
  rw [h.reading]
  split
  · exact .inl rfl
  next hended =>
  obtain hlagged | hseen := h.told
  · exact guarded_of_lost (.inl (by simp [untrustedStream, hlagged]))
  -- a relay path that is still listed is marked by the sample
  cases hlisted : w.after.listed id with
  | some r' =>
      obtain rfl := Option.some.inj (hr.symm.trans (PathWorld.listed_eq_some.mp hlisted).1)
      refine guarded_of_relay_mark (mem_windowMarks.mpr (.inr ⟨id, r, hlisted, hurl, ?_⟩))
      rw [(h.listedDuring hlisted).baseFrames]
      exact hframes ▸ hlt
  | none =>
      have hknown : w.before.listed id ≠ none ∨ .opened id ∈ w.seen := by
        by_cases hbefore : w.before.listed id = none
        · refine .inr (hseen ▸ opened_mem_seen.mpr ?_)
          by_contra hopened
          have hstill := hhidden (by simpa using hended) id r hr hrelay hbefore hlisted hopened
          omega
        · exact .inl hbefore
      by_cases hclosed : id ∈ closedIds w.seen
      · -- its `Closed` marks it
        obtain ⟨kind, frames, hmem⟩ := mem_closedIds.mp hclosed
        obtain ⟨addr, stats, hsent, hkind, hcount⟩ := closed_mem_seen.mp (hseen ▸ hmem)
        obtain ⟨haddr, hle⟩ := h.closed_spec hsent hr
        have hkind' : kind = .relay url := by rw [← hkind, ← haddr, hurl]
        refine guarded_of_relay_mark (mem_windowMarks.mpr (.inl ⟨id, frames, hkind' ▸ hmem, ?_⟩))
        constructor
        · intro r₀ hr₀
          have hbase := PathWorld.frames_of_row (PathWorld.listed_eq_some.mp hr₀).1
          omega
        · intro hnone
          exact ⟨hknown.resolve_left (· hnone), by omega⟩
      · exact guarded_of_lost (.inr (disappeared_sample.mpr ⟨id, hknown, hlisted, hclosed⟩))

/-- **An idle window reads the structure.** -/
theorem Faithful.idle (h : w.Faithful sanitize) (hstep : w.InStep sanitize)
    (hstill : w.StoodStill) (hlost : w.NothingLost) :
    w.reading = .idle (w.last.selectedPath sanitize) := by
  have hseen := h.told.resolve_left hlost.lagged
  -- a path that was between the samples is told of by its `Closed` without a frame more
  have hcount : ∀ id kind frames, .closed id kind frames ∈ w.seen → w.ListedDuring id →
      frames = w.before.frames id := by
    intro id kind frames hmem hduring
    obtain ⟨addr, stats, hsent, -, rfl⟩ := closed_mem_seen.mp (hseen ▸ hmem)
    exact (hstep.closed id addr stats hsent hduring).trans (hstill id hduring)
  have hmarks : windowMarks (w.before.sample sanitize) (w.after.sample sanitize) w.seen = [] := by
    refine List.eq_nil_iff_forall_not_mem.mpr fun kind hkind => ?_
    obtain ⟨id, frames, hmem, hmoved⟩ | ⟨id, r, hr, -, hlt⟩ := mem_windowMarks.mp hkind
    · cases hbefore : w.before.listed id with
      | some r =>
          have hduring : w.ListedDuring id := .inl (hbefore ▸ nofun)
          have heq := hcount id kind frames hmem hduring
          have hbase := PathWorld.frames_of_row (PathWorld.listed_eq_some.mp hbefore).1
          have hlt := hmoved.based r hbefore
          omega
      | none =>
          obtain ⟨hopened, hpos⟩ := hmoved.unbased hbefore
          obtain hduring | ⟨addr, stats, hsent, hzero⟩ :=
            hstep.opened id (opened_mem_seen.mp (hseen ▸ hopened))
          · have heq := hcount id kind frames hmem hduring
            have hbase := hduring.baseFrames
            rw [Mcpmesh.baseFrames, hbefore] at hbase
            rw [← hbase, Option.map_none, Option.getD_none] at heq
            omega
          · obtain ⟨addr', stats', hsent', -, rfl⟩ := closed_mem_seen.mp (hseen ▸ hmem)
            rw [h.closed_once hsent hsent'] at hzero
            omega
    · have hduring := h.listedDuring hr
      rw [hduring.baseFrames, ← hstill id hduring,
        PathWorld.frames_of_row (PathWorld.listed_eq_some.mp hr).1] at hlt
      exact Nat.lt_irrefl _ hlt
  have htrusted : untrustedStream w.seen = false := by
    simp [untrustedStream, hlost.lagged, hlost.unrecognised]
  have hthere :
      disappeared (w.before.sample sanitize) (w.after.sample sanitize) w.seen = false := by
    rw [← Bool.not_eq_true, disappeared_sample]
    rintro ⟨id, hknown, hgone, hclosed⟩
    have hreported : ∃ addr stats, .closed id addr stats ∈ w.sent := by
      obtain hlisted | hopened := hknown
      · exact hlost.closed id (.inl hlisted) hgone
      · obtain hduring | ⟨addr, stats, hsent, -⟩ :=
          hstep.opened id (opened_mem_seen.mp (hseen ▸ hopened))
        · exact hlost.closed id hduring hgone
        · exact ⟨addr, stats, hsent⟩
    obtain ⟨addr, stats, hsent⟩ := hreported
    have hmem : .closed id (pathKind sanitize addr) stats.appFrames ∈ w.seen :=
      hseen ▸ closed_mem_seen.mpr ⟨addr, stats, hsent, rfl, rfl⟩
    exact hclosed (mem_closedIds.mpr ⟨_, _, hmem⟩)
  rw [h.reading, hlost.drained, if_neg (by simp), classifyWindow_idle hmarks htrusted hthere]

end PathWindow

/-! ## runs -/

namespace PathMeasurement

/-- The samples that were taken are of the paths as they were. -/
def Sampled (world : PathWorld) : MeasurePhase → Prop
  | .draining before | .elapsed before | .sampling before => before.Grows world
  | .finishing before after => before.Grows after ∧ after.Grows world
  | _ => True

/-- What was sent since the subscription was seen or is queued, or the subscriber
is told that it is not. -/
def Told (sanitize : String → String) (m : PathMeasurement) : Prop :=
  .lagged ∈ m.seen ∨ .lagged ∈ m.queue ∨
    m.seen ++ m.queue.filterMap (WindowEvent.fromObserved sanitize) =
      m.sent.filterMap (WindowEvent.fromObserved sanitize)

/-- The measurement answers with the first window that has an answer. -/
def Answers (m : PathMeasurement) : Prop :=
  match m.phase with
  | .answered path =>
      m.windows.length ≤ pathMeasureWindows ∧
        ∀ w ∈ m.windows, ∀ p, w.reading.answer = some p → p = path
  | _ =>
      m.windows.length + m.left ≤ pathMeasureWindows ∧ 1 ≤ m.left ∧
        ∀ w ∈ m.windows, w.reading.answer = none

structure Inv (sanitize : String → String) (m : PathMeasurement) : Prop where
  reports : m.world.Reports m.sent
  told : m.Told sanitize
  sampled : Sampled m.world m.phase
  windows : ∀ w ∈ m.windows, w.Faithful sanitize
  answers : m.Answers

variable {sanitize : String → String} {m m' : PathMeasurement}

/-- What was sampled is true of a later world. -/
theorem Sampled.grows {world world' : PathWorld} {phase : MeasurePhase}
    (h : Sampled world phase) (hgrows : world.Grows world') : Sampled world' phase := by
  cases phase with
  | opening | subscribing | subscribed | answered => trivial
  | draining | elapsed | sampling => exact PathWorld.Grows.trans h hgrows
  | finishing => exact ⟨h.1, h.2.trans hgrows⟩

/-- The phases with an answer to come. -/
theorem Answers.pending (h : m.Answers) (hphase : ∀ path, m.phase ≠ .answered path) :
    m.windows.length + m.left ≤ pathMeasureWindows ∧ 1 ≤ m.left ∧
      ∀ w ∈ m.windows, w.reading.answer = none := by
  rw [Answers] at h
  split at h
  · next path hpath => exact absurd hpath (hphase path)
  · exact h

/-- A turn that answers nothing leaves a window more and a turn less. -/
theorem Answers.turn {windows : List PathWindow} {left : Nat} (phase : MeasurePhase)
    (h : windows.length + left ≤ pathMeasureWindows ∧ 1 ≤ left ∧
      ∀ w ∈ windows, w.reading.answer = none)
    (hphase : ∀ path, phase ≠ .answered path) :
    Answers { m with windows, left, phase } := by
  rw [Answers]
  split
  · next path hpath => exact absurd hpath (hphase path)
  · exact h

/-- After a reading: the answer, or the next window. -/
theorem Answers.conclude {windows : List PathWindow} {r : WindowReading}
    (hm : m.windows.length + m.left ≤ pathMeasureWindows ∧ 1 ≤ m.left ∧
      ∀ w ∈ m.windows, w.reading.answer = none)
    (hread : windows = m.windows ∨ ∃ w, windows = m.windows ++ [w] ∧ w.reading = r) :
    Answers (PathMeasurement.conclude { m with windows } r) := by
  obtain ⟨hlen, hleft, hnone⟩ := hm
  have hlen' : windows.length ≤ m.windows.length + 1 := by
    obtain rfl | ⟨w, rfl, -⟩ := hread
    · omega
    · simp
  have hanswer : ∀ w ∈ windows, w.reading.answer = none ∨ w.reading = r := by
    obtain rfl | ⟨w', rfl, hr⟩ := hread
    · exact fun w hw => .inl (hnone w hw)
    · intro w hw
      obtain hw | hw := List.mem_append.mp hw
      · exact .inl (hnone w hw)
      · exact .inr (List.mem_singleton.mp hw ▸ hr)
  rw [PathMeasurement.conclude]
  cases hr : r.answer with
  | some path =>
      refine ⟨?_, fun w hw p hp => ?_⟩
      · show windows.length ≤ pathMeasureWindows
        omega
      · obtain h | h := hanswer w hw
        · exact absurd (h.symm.trans hp) nofun
        · exact Option.some.inj (hp.symm.trans (h ▸ hr))
  | none =>
      have hall : ∀ w ∈ windows, w.reading.answer = none := fun w hw =>
        (hanswer w hw).elim id fun h => h ▸ hr
      dsimp only
      split
      · refine ⟨?_, fun w hw p hp => absurd ((hall w hw).symm.trans hp) nofun⟩
        show windows.length ≤ pathMeasureWindows
        omega
      · refine ⟨?_, ?_, hall⟩
        · show windows.length + (m.left - 1) ≤ pathMeasureWindows
          omega
        · show 1 ≤ m.left - 1
          omega

/-- A window that ends leaves everything but the phase and its count. -/
theorem conclude_eq (m : PathMeasurement) (r : WindowReading) : ∃ left phase,
    m.conclude r = { m with left, phase } ∧ Sampled m.world phase := by
  rw [conclude]
  cases r.answer with
  | some path => exact ⟨m.left, _, rfl, trivial⟩
  | none =>
      dsimp only
      split
      · exact ⟨_, _, rfl, trivial⟩
      · exact ⟨_, _, rfl, trivial⟩

/-- A window that is read keeps the account, whatever it reads. -/
theorem Inv.conclude {windows : List PathWindow} {r : WindowReading} (h : m.Inv sanitize)
    (hphase : ∀ path, m.phase ≠ .answered path)
    (hread : windows = m.windows ∨ ∃ w, windows = m.windows ++ [w] ∧ w.reading = r)
    (hwindows : ∀ w ∈ windows, w.Faithful sanitize) :
    Inv sanitize (PathMeasurement.conclude { m with windows } r) := by
  have hanswers := Answers.conclude (h.answers.pending hphase) hread
  obtain ⟨left, phase, heq, hsampled⟩ := conclude_eq { m with windows } r
  rw [heq] at hanswers ⊢
  exact ⟨h.reports, h.told, hsampled, hwindows, hanswers⟩

/-- The measurement goes on within its window. -/
theorem Inv.goOn {phase : MeasurePhase} (h : m.Inv sanitize)
    (hphase : ∀ path, m.phase ≠ .answered path) (hnext : ∀ path, phase ≠ .answered path)
    (hsampled : Sampled m.world phase) : Inv sanitize { m with phase } :=
  ⟨h.reports, h.told, hsampled, h.windows, Answers.turn _ (h.answers.pending hphase) hnext⟩

/-- A change of the world keeps the account. -/
theorem Inv.change {c : PathChange} {world : PathWorld} {events : List ObservedEvent}
    (h : m.Inv sanitize) (hchange : m.world.change c = some (world, events)) :
    Inv sanitize { m with world, queue := m.queue ++ events, sent := m.sent ++ events } := by
  obtain ⟨hgrows, hreports, hlagged⟩ := PathWorld.change_spec hchange
  refine ⟨?_, ?_, h.sampled.grows hgrows, h.windows, h.answers⟩
  · intro id addr stats hmem
    obtain hmem | hmem := List.mem_append.mp hmem
    · exact h.reports.grows hgrows id addr stats hmem
    · exact hreports id addr stats hmem
  · obtain hseen | hqueue | heq := h.told
    · exact .inl hseen
    · exact .inr (.inl (List.mem_append_left _ hqueue))
    · refine .inr (.inr ?_)
      rw [List.filterMap_append, List.filterMap_append, ← heq, List.append_assoc]

/-- A lag keeps the account: it is in the queue, behind what it made the receiver miss.
-/
theorem Inv.lag {missed : Nat} (h : m.Inv sanitize) :
    Inv sanitize { m with queue := .lagged :: m.queue.drop missed } :=
  ⟨h.reports, .inr (.inl List.mem_cons_self), h.sampled, h.windows, h.answers⟩

/-- Once the queue is empty, a window was told of all that was sent. -/
theorem Told.drained (h : m.Told sanitize) (hqueue : m.queue = []) :
    .lagged ∈ m.seen ∨ m.seen = m.sent.filterMap (WindowEvent.fromObserved sanitize) := by
  obtain hseen | hlagged | heq := h
  · exact .inl hseen
  · exact absurd (hqueue ▸ hlagged) List.not_mem_nil
  · rw [hqueue, List.filterMap_nil, List.append_nil] at heq
    exact .inr heq

/-- The window that ends is added to those that the measurement has. -/
theorem Inv.record {before after : PathWorld} {ended : Bool} {r : WindowReading}
    (h : m.Inv sanitize) (hphase : m.phase = .finishing before after) (hqueue : m.queue = [])
    (hread : r = if ended then .unobservable
      else classifyWindow (before.sample sanitize) (after.sample sanitize) m.seen
        (m.world.selectedPath sanitize)) :
    Inv sanitize
      (PathMeasurement.conclude { m with windows := m.windows ++ [m.window before after ended r] }
        r) := by
  have hsampled := h.sampled
  rw [hphase] at hsampled
  refine h.conclude (hphase ▸ nofun) (.inr ⟨_, rfl, rfl⟩) fun w hw => ?_
  obtain hw | hw := List.mem_append.mp hw
  · exact h.windows w hw
  · obtain rfl := List.mem_singleton.mp hw
    exact ⟨hsampled.1, hsampled.2, h.reports, h.told.drained hqueue, hread⟩

/-- A window whose stream has ended keeps the account. -/
theorem Inv.cutShort (h : m.Inv sanitize) (hphase : ∀ path, m.phase ≠ .answered path)
    (hqueue : m.queue = []) : m.cutShort.Inv sanitize := by
  rw [PathMeasurement.cutShort]
  split
  · next before after hfinishing => exact h.record hfinishing hqueue rfl
  · exact h.conclude hphase (.inl rfl) h.windows

/-- A drain keeps the account. -/
theorem Inv.recv (h : m.Inv sanitize) (hphase : ∀ path, m.phase ≠ .answered path)
    (hrecv : m.recv sanitize = some m') : m'.Inv sanitize := by
  rw [PathMeasurement.recv] at hrecv
  split at hrecv
  · next e queue hqueue =>
    obtain rfl := Option.some.inj hrecv
    refine ⟨h.reports, ?_, h.sampled, h.windows, h.answers⟩
    obtain hseen | hlagged | heq := h.told
    · exact .inl (List.mem_append_left _ hseen)
    · rw [hqueue] at hlagged
      obtain rfl | hlagged := List.mem_cons.mp hlagged
      · exact .inl (List.mem_append_right _ List.mem_cons_self)
      · exact .inr (.inl hlagged)
    · refine .inr (.inr ?_)
      rw [← heq, hqueue, List.append_assoc]
      congr 1
      cases hevent : WindowEvent.fromObserved sanitize e with
      | none => rw [List.filterMap_cons_none hevent]; rfl
      | some e' => rw [List.filterMap_cons_some hevent]; rfl
  · next hqueue =>
    split at hrecv
    · exact Option.some.inj hrecv ▸ h.cutShort hphase hqueue
    · contradiction

/-- **One step of the measurement.** -/
theorem Inv.turn (h : m.Inv sanitize) (hturn : m.turn sanitize = some m') : m'.Inv sanitize := by
  have hsampled := h.sampled
  rw [PathMeasurement.turn] at hturn
  split at hturn
  case h_1 hphase =>
    obtain rfl := Option.some.inj hturn
    split
    · exact h.conclude (hphase ▸ nofun) (.inl rfl) h.windows
    · exact h.goOn (hphase ▸ nofun) nofun trivial
  case h_2 hphase =>
    obtain rfl := Option.some.inj hturn
    refine ⟨nofun, .inr (.inr rfl), trivial, h.windows, ?_⟩
    exact Answers.turn (m := { m with queue := [], ended := false, sent := [], seen := [] })
      .subscribed (h.answers.pending (hphase ▸ nofun)) nofun
  case h_3 hphase =>
    exact Option.some.inj hturn ▸ h.goOn (hphase ▸ nofun) nofun (PathWorld.Grows.refl _)
  case h_4 before hphase =>
    rw [hphase] at hsampled
    exact Option.some.inj hturn ▸ h.goOn (hphase ▸ nofun) nofun hsampled
  case h_5 before hphase =>
    rw [hphase] at hsampled
    obtain rfl := Option.some.inj hturn
    split
    · exact h.conclude (hphase ▸ nofun) (.inl rfl) h.windows
    · exact h.goOn (hphase ▸ nofun) nofun hsampled
  case h_6 before hphase =>
    rw [hphase] at hsampled
    exact Option.some.inj hturn ▸ h.goOn (hphase ▸ nofun) nofun ⟨hsampled, .refl _⟩
  case h_7 before after hphase =>
    split at hturn
    · next hquiet => exact Option.some.inj hturn ▸ h.record hphase hquiet.1 rfl
    · contradiction
  case h_8 => contradiction

/-- Each step keeps the account. -/
theorem Inv.step {e : MeasureEvent} (h : m.Inv sanitize) (hstep : m.step sanitize e = some m') :
    m'.Inv sanitize := by
  cases e with
  | change c =>
      obtain ⟨⟨world, events⟩, hchange, rfl⟩ := Option.map_eq_some_iff.mp hstep
      exact h.change hchange
  | lag missed =>
      rw [PathMeasurement.step] at hstep
      split at hstep
      · exact Option.some.inj hstep ▸ h.lag
      · contradiction
  | closeConn =>
      exact Option.some.inj hstep ▸ ⟨h.reports, h.told, h.sampled, h.windows, h.answers⟩
  | endStream =>
      exact Option.some.inj hstep ▸ ⟨h.reports, h.told, h.sampled, h.windows, h.answers⟩
  | recv =>
      rw [PathMeasurement.step] at hstep
      split at hstep
      · next hphase => exact h.recv (hphase ▸ nofun) hstep
      · next hphase => exact h.recv (hphase ▸ nofun) hstep
      · contradiction
  | turn => exact h.turn hstep

theorem inv_start (sanitize : String → String) (world : PathWorld) :
    (start world).Inv sanitize :=
  ⟨nofun, .inr (.inr rfl), trivial, nofun, Nat.le_refl 3, Nat.succ_pos 2, nofun⟩

end PathMeasurement

/-- **The path measurement**: where the events are in step with the samples, a
relay that moved is never read as anything but itself or as lost sight of, the
answer is then not `Direct`, and an idle window is read as the structure of the
paths. -/
theorem measured_path_sound {sanitize : String → String} {world : PathWorld}
    {es : List MeasureEvent} {m : PathMeasurement}
    (hrun : run (PathMeasurement.step sanitize) (.start world) es = some m)
    (hstep : ∀ w ∈ m.windows, w.ended = false → w.InStep sanitize) :
    m.windows.length ≤ pathMeasureWindows ∧
      (∀ w ∈ m.windows, w.RelayMoved sanitize → w.reading.Guarded) ∧
      (∀ w ∈ m.windows, w.StoodStill → w.NothingLost →
        w.reading = .idle (w.last.selectedPath sanitize)) ∧
      ∀ path, m.phase = .answered path → (∃ w ∈ m.windows, w.RelayMoved sanitize) →
        path ≠ .direct := by
  have hinv : m.Inv sanitize :=
    run_invariant (fun _ _ _ h hs => h.step hs) (PathMeasurement.inv_start sanitize world) hrun
  have hguarded : ∀ w ∈ m.windows, w.RelayMoved sanitize → w.reading.Guarded :=
    fun w hw => (hinv.windows w hw).guarded fun hended => (hstep w hw hended).hidden
  refine ⟨?_, hguarded, fun w hw hstill hlost => ?_, ?_⟩
  · have hanswers := hinv.answers
    rw [PathMeasurement.Answers] at hanswers
    split at hanswers
    · exact hanswers.1
    · omega
  · exact (hinv.windows w hw).idle (hstep w hw hlost.drained) hstill hlost
  · rintro path hpath ⟨w, hw, hmoved⟩
    have hanswers := hinv.answers
    rw [PathMeasurement.Answers, hpath] at hanswers
    obtain ⟨p, hp, hne⟩ := (hguarded w hw hmoved).answer
    exact hanswers.2 w hw p hp ▸ hne

namespace TwoPaths

def frames (n : Nat) : PathStats where
  streamTx := n
  datagramTx := 0
  streamRx := 0
  datagramRx := 0

def directRow : PathRow where
  addr := .ip { ip := .v4 ⟨[10, 0, 0, 1], rfl⟩, port := 1 }
  stats := frames 5
  selected := true
  announced := true
  stage := .listed

def relayRow : PathRow := { directRow with addr := .relay "r", selected := false }

/-- A direct path, selected, and a standby relay path. -/
def world : PathWorld := (PathWorld.empty.put 0 directRow).put 1 relayRow

/-- The relay path leaves the list before the baseline and moves after it, before
its `Closed` is sent. -/
def relayLeaves : List MeasureEvent :=
  [.turn, .change (.remove 1), .turn, .turn, .change (.move 1 (frames 6)),
    .change (.move 0 (frames 6)), .change (.close 1), .recv, .turn, .turn, .turn, .turn]

/-- A path opens between the second sample and the last look at the events. -/
def pathOpensLate : List MeasureEvent :=
  [.turn, .turn, .turn, .turn, .turn, .turn, .change (.add 2 directRow.addr (frames 0)),
    .change (.announce 2), .recv, .turn]

/-- Both paths move. -/
def bothMove : List MeasureEvent :=
  [.turn, .turn, .turn, .change (.move 1 (frames 6)), .change (.move 0 (frames 6)), .turn, .turn,
    .turn, .turn]

def moved : PathWorld :=
  (world.put 1 { relayRow with stats := frames 6 }).put 0 { directRow with stats := frames 6 }

/-- The window in which both move. -/
def bothMoved : PathWindow where
  before := world
  after := moved
  last := moved
  sent := []
  seen := []
  ended := false
  reading := .moved (.relay (some "r"))

theorem inStep_bothMoved : bothMoved.InStep id where
  opened := nofun
  closed := nofun
  hidden := by
    intro id r hr _ _ hgone _
    have hid : id ∈ [0, 1] := moved.known id r hr
    have hlisted : ∀ id ∈ [0, 1], moved.listed id ≠ none := by decide
    exact absurd hgone (hlisted id hid)

end TwoPaths

open TwoPaths in
/-- A window reads `Direct` although a relay path moved, and another sees nothing
idle although no path moved and nothing was lost. -/
theorem measured_path_unsound :
    (∃ m w, run (PathMeasurement.step id) (.start world) relayLeaves = some m ∧
      m.windows = [w] ∧ w.RelayMoved id ∧ w.reading = .moved .direct ∧
      m.phase = .answered .direct) ∧
    ∃ m w, run (PathMeasurement.step id) (.start world) pathOpensLate = some m ∧
      m.windows = [w] ∧ w.StoodStill ∧ w.NothingLost ∧ w.reading = .unobservable := by
  refine ⟨⟨_, _, rfl, rfl, ?_, rfl, rfl⟩, _, _, rfl, rfl, fun _ _ => rfl,
    ⟨rfl, ?_, ?_, ?_⟩, rfl⟩
  · exact ⟨1, _, rfl, rfl, by decide⟩
  · decide
  · decide
  · rintro id (hlisted | ⟨hnone, hsome⟩) hgone
    · exact absurd hgone hlisted
    · exact absurd hnone hsome

open TwoPaths in
theorem measured_path_sound_of_both :
    ∃ m, run (PathMeasurement.step id) (.start world) bothMove = some m ∧
      m.phase = .answered (.relay (some "r")) ∧ (PeerPath.relay (some "r")) ≠ .direct := by
  refine ⟨_, rfl, rfl, (@measured_path_sound id world bothMove _ rfl fun w hw _ => ?_).2.2.2 _ rfl
    ⟨bothMoved, List.mem_cons_self, 1, _, rfl, rfl, by decide⟩⟩
  have hboth : w = bothMoved := List.mem_singleton.mp hw
  exact hboth ▸ inStep_bothMoved

end Mcpmesh
