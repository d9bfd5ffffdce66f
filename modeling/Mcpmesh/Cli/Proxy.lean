import Mcpmesh.Dial.OpenSession

/-!
# Mcpmesh.Cli.Proxy

`mcpmesh connect`, end to end: the proxy between an AI client's stdio and the
control socket (`pump_stdio` of `cli/src/proxy.rs`), and behind the socket the
daemon's `open_session` (`node/src/daemon/handlers.rs`) with the pipe to the peer.

Each of the two relays half-closes what is ahead of it when its own input ends,
and goes on with the other direction.  So a client that writes its requests and
closes its stdin is still given every answer.
-/

namespace Mcpmesh

open Lib MeshError

/-- `Value::as_i64`. -/
def Json.asI64 : Json → Option Int
  | .num m 0 => if -2 ^ 63 ≤ m ∧ m < 2 ^ 63 then some m else none
  | _ => none

/-- `ERR_UNREACHABLE`. -/
def errUnreachable : Int := -32055

/-- What `open_session` answers when the dial fails. -/
def unreachableFrame : Json := synthesized .null errUnreachable "peer unreachable"

/-- The code of a refusal that mcpmesh itself made. -/
def meshErrorCode (frame : Json) : Option Int := do
  let error ← frame.get "error"
  let data ← error.get "data"
  let source ← data.get "source"
  let marker ← source.asStr
  if marker = "mcpmesh" then
    let value ← error.get "code"
    let code ← value.asI64
    if code = errUnreachable ∨ code = errService then some code else none
  else none

/-! ## the chain -/

/-- `pump_stdio`.  `endedOn` is the refusal that the last frame was, if it was
one. -/
structure ProxyPump where
  done : Bool
  parked : Bool
  toStdout : List Json
  endedOn : Option Int

/-- `open_session`. -/
inductive DaemonEnd where
  | dialing
  /-- the dial failed -/
  | failed
  | piping (p : PipeSession)

/-- `up` is what the proxy has written and the daemon not read, `down` the other
way. -/
structure ConnectChain where
  proxy : ProxyPump
  up : List (Inbound Json)
  daemon : DaemonEnd
  down : List Json

inductive ChainEvent where
  | stdin (line : Inbound Json) (written : Bool)
  | stdinEnd
  | dialed (ok : Bool)
  /-- the daemon reads from the proxy, or its end; `sent` is of a frame it read -/
  | upRead (sent : Bool)
  | peer (frame : Json) (written : Bool)
  | peerEnd
  /-- the proxy reads from the daemon, or its end; `written` is of a frame it read -/
  | downRead (written : Bool)

namespace DaemonEnd

def ended : DaemonEnd → Bool
  | .dialing => false
  | .failed => true
  | .piping p => p.phase = .ended

/-- What it has written to the proxy. -/
def written : DaemonEnd → List Json
  | .dialing => []
  | .failed => [unreachableFrame]
  | .piping p => p.toClient

/-- The session at the far end of the socket; a failed dial leaves one that is
over. -/
def session : DaemonEnd → PipeSession
  | .dialing => .init
  | .failed => PipeSession.init.finish
  | .piping p => p

/-- An event of the pipe. -/
def pipe (service : String) (e : PipeEvent) : DaemonEnd → Option DaemonEnd
  | .piping p => (p.step service e).map .piping
  | .dialing | .failed => none

end DaemonEnd

namespace ConnectChain

variable (carries : Json → Inbound Json) (service : String)

def init : ConnectChain := ⟨⟨false, false, [], none⟩, [], .dialing, []⟩

/-- `to_stdout`, on what it reads. -/
def relay (s : ConnectChain) (written : Bool) : Inbound Json → ProxyPump
  | .frame v =>
      if written then
        { s.proxy with
          toStdout := s.proxy.toStdout ++ [v]
          endedOn := meshErrorCode v }
      else
        { s.proxy with
          done := true
          endedOn := meshErrorCode v }
  | .violation _ => { s.proxy with done := true }

def step (s : ConnectChain) : ChainEvent → Option ConnectChain
  | .stdin line written =>
      if s.proxy.done || s.proxy.parked then none
      else
        match line, written with
        | .frame v, true => some { s with up := s.up ++ [carries v] }
        | _, _ => some { s with proxy := { s.proxy with parked := true } }
  | .stdinEnd =>
      if s.proxy.done || s.proxy.parked then none
      else some { s with proxy := { s.proxy with parked := true } }
  | .dialed ok =>
      match s.daemon with
      | .dialing =>
          if ok then some { s with daemon := .piping .init }
          else some { s with daemon := .failed, down := s.down ++ [unreachableFrame] }
      | _ => none
  | .upRead sent =>
      match s.up with
      | line :: up =>
          (s.daemon.pipe service (.client line sent)).map fun daemon => { s with daemon, up }
      | [] =>
          if s.proxy.done || s.proxy.parked then
            (s.daemon.pipe service .clientEnd).map fun daemon => { s with daemon }
          else none
  | .peer frame written =>
      -- a write fails when the proxy has gone
      if written then
        (s.daemon.pipe service (.peer frame true)).map fun daemon =>
          { s with daemon, down := s.down ++ [frame] }
      else if s.proxy.done then
        (s.daemon.pipe service (.peer frame false)).map fun daemon => { s with daemon }
      else none
  | .peerEnd => (s.daemon.pipe service .peerEnd).map fun daemon => { s with daemon }
  | .downRead written =>
      if s.proxy.done then none
      else
        match s.down with
        | v :: down => some { s with proxy := s.relay written (carries v), down }
        | [] =>
            if s.daemon.ended then some { s with proxy := { s.proxy with done := true } } else none

end ConnectChain

/-- The frames that the client's stdin had written to the socket. -/
def stdinFrames (events : List ChainEvent) : List Json :=
  events.filterMap fun
    | .stdin (.frame v) true => some v
    | _ => none

/-- All that the daemon wrote to the socket: the peer's frames, or the answer to
a dial that failed. -/
def daemonFrames (events : List ChainEvent) : List Json :=
  events.filterMap fun
    | .peer v true => some v
    | .dialed false => some unreachableFrame
    | _ => none

theorem stdinFrames_snoc (events : List ChainEvent) (e : ChainEvent) :
    stdinFrames (events ++ [e]) = stdinFrames events ++ stdinFrames [e] :=
  List.filterMap_append

theorem daemonFrames_snoc (events : List ChainEvent) (e : ChainEvent) :
    daemonFrames (events ++ [e]) = daemonFrames events ++ daemonFrames [e] :=
  List.filterMap_append

namespace DaemonEnd

variable {service : String} {d d' : DaemonEnd} {e : PipeEvent}

/-- The daemon has ended when its session has. -/
theorem ended_iff : d.ended = true ↔ d.session.phase = .ended := by
  cases d with
  | dialing => exact ⟨nofun, nofun⟩
  | failed => exact ⟨fun _ => rfl, fun _ => rfl⟩
  | piping p => exact decide_eq_true_iff

/-- A step of the daemon is a step of its session. -/
theorem piped_of_pipe (h : d.pipe service e = some d') :
    ∃ p p', d = .piping p ∧ d' = .piping p' ∧ p.Stepped service e p' := by
  cases d with
  | dialing | failed => exact nomatch h
  | piping p =>
      obtain ⟨p', hstep, rfl⟩ := Option.map_eq_some_iff.mp h
      exact ⟨p, p', rfl, rfl, PipeSession.stepped_of_step hstep⟩

/-- A session that has ended does nothing more. -/
theorem live_of_pipe (h : d.pipe service e = some d') : d.session.phase ≠ .ended := by
  obtain ⟨p, p', rfl, rfl, hstep⟩ := piped_of_pipe h
  cases hstep with
  | dial hphase | stillborn hphase | request hphase | park hphase | response hphase
  | finish hphase => exact fun hover => absurd (hphase.symm.trans hover) (by decide)

/-- What comes from the client writes nothing back, and ends a session only
before its first frame. -/
theorem pipe_client (h : d.pipe service e = some d') (hends : ¬ e.Ends)
    (hnone : peerFrames [e] = []) :
    d'.written = d.written ∧
      (d'.session.phase = .ended → d.session.phase = .opening ∧
        d'.session.toPeer = d.session.toPeer) ∧
      d'.session.phase ≠ .opening := by
  obtain ⟨p, p', rfl, rfl, hstep⟩ := piped_of_pipe h
  cases hstep with
  | dial hphase => exact ⟨rfl, nofun, nofun⟩
  | stillborn hphase => exact ⟨rfl, fun _ => ⟨hphase, rfl⟩, nofun⟩
  | request hphase =>
      refine ⟨rfl, fun hover => ?_, fun hopen => ?_⟩
      · exact absurd (hphase.symm.trans hover) (by decide)
      · exact absurd (hphase.symm.trans hopen) (by decide)
  | park hphase =>
      refine ⟨rfl, fun hover => ?_, fun hopen => ?_⟩
      · exact absurd (hphase.symm.trans hover) (by decide)
      · exact absurd (hphase.symm.trans hopen) (by decide)
  | response => exact absurd hnone (List.cons_ne_nil _ _)
  | finish _ _ _ hends' => exact absurd hends' hends

/-- A frame of the peer that is written goes to the socket, and the session goes on. -/
theorem pipe_peer {v : Json} (h : d.pipe service (.peer v true) = some d') :
    d'.written = d.written ++ [v] ∧ d'.session.phase = .piping := by
  obtain ⟨p, p', rfl, rfl, hstep⟩ := piped_of_pipe h
  cases hstep with
  | stillborn _ _ hnone => exact absurd hnone (List.cons_ne_nil _ _)
  | park _ _ _ hnone => exact absurd hnone (List.cons_ne_nil _ _)
  | response hphase => exact ⟨rfl, hphase⟩
  | finish _ _ hnone => exact absurd hnone (List.cons_ne_nil _ _)

/-- A step that ends the session writes nothing. -/
theorem pipe_ends (h : d.pipe service e = some d') (hends : e.Ends) :
    d.session.phase = .piping ∧ d'.written = d.written ∧ d'.session.phase = .ended := by
  obtain ⟨p, p', rfl, rfl, hstep⟩ := piped_of_pipe h
  cases hstep with
  | dial | request | response => exact hends.elim
  | stillborn _ _ _ hgoes => exact absurd hends hgoes
  | park _ _ _ _ hgoes => exact absurd hends hgoes
  | finish hphase => exact ⟨hphase, rfl, rfl⟩

end DaemonEnd

namespace ConnectChain

variable {carries : Json → Inbound Json} {service : String} {events : List ChainEvent}
  {s s' : ConnectChain} {e : ChainEvent}

/-! ## what comes down -/

/-- No write to stdout failed, and each frame of the daemon was one that the
proxy reads back. -/
def Whole (carries : Json → Inbound Json) (events : List ChainEvent) : Prop :=
  .downRead false ∉ events ∧ ∀ v ∈ daemonFrames events, carries v = .frame v

theorem whole_of_snoc (h : Whole carries (events ++ [e])) : Whole carries events := by
  refine ⟨fun hmem => h.1 (List.mem_append_left _ hmem), fun v hv => h.2 v ?_⟩
  rw [daemonFrames_snoc]
  exact List.mem_append_left _ hv

/-- What the daemon wrote is on stdout or on its way there, and the proxy stops
only after all of it. -/
structure Answered (events : List ChainEvent) (s : ConnectChain) : Prop where
  written : s.daemon.written = daemonFrames events
  fresh : s.daemon.session.phase = .opening → s.daemon.session.toPeer = []
  stream : s.proxy.done = false → s.proxy.toStdout ++ s.down = daemonFrames events
  drained : s.proxy.done = true →
    s.daemon.session.phase = .ended ∧ s.proxy.toStdout = daemonFrames events
  hint : s.proxy.endedOn = s.proxy.toStdout.getLast?.bind meshErrorCode
  closed : s.daemon.session.phase = .ended → s.daemon.session.toPeer ≠ [] → .peerEnd ∈ events

theorem answered_init : Answered [] init where
  written := rfl
  fresh := fun _ => rfl
  stream := fun _ => rfl
  drained := nofun
  hint := rfl
  closed := nofun

/-- The events that leave the pipe and what comes down where they are. -/
theorem answered_idle (h : Answered events s) (hdaemon : s'.daemon = s.daemon)
    (hdown : s'.down = s.down) (hover : s'.proxy.done = s.proxy.done)
    (hstdout : s'.proxy.toStdout = s.proxy.toStdout) (hended : s'.proxy.endedOn = s.proxy.endedOn)
    (hnone : daemonFrames [e] = []) : Answered (events ++ [e]) s' := by
  have hframes : daemonFrames (events ++ [e]) = daemonFrames events := by
    rw [daemonFrames_snoc, hnone, List.append_nil]
  exact {
    written := by rw [hdaemon, hframes, h.written]
    fresh := by rw [hdaemon]; exact h.fresh
    stream := by rw [hover, hstdout, hdown, hframes]; exact h.stream
    drained := by rw [hover, hdaemon, hstdout, hframes]; exact h.drained
    hint := by rw [hended, hstdout, h.hint]
    closed := by
      rw [hdaemon]
      exact fun hphase hne => List.mem_append_left _ (h.closed hphase hne) }

/-- What comes from the client. -/
theorem answered_up {d : DaemonEnd} {up : List (Inbound Json)} {pe : PipeEvent}
    (h : Answered events s) (hpipe : s.daemon.pipe service pe = some d) (hends : ¬ pe.Ends)
    (hframes : peerFrames [pe] = []) (hnone : daemonFrames [e] = []) :
    Answered (events ++ [e]) { s with daemon := d, up } := by
  obtain ⟨hwritten, hover, hopened⟩ := DaemonEnd.pipe_client hpipe hends hframes
  have hsame : daemonFrames (events ++ [e]) = daemonFrames events := by
    rw [daemonFrames_snoc, hnone, List.append_nil]
  have hlive := DaemonEnd.live_of_pipe hpipe
  exact {
    written := by rw [hsame, ← h.written]; exact hwritten
    fresh := fun hphase => absurd hphase hopened
    stream := by rw [hsame]; exact h.stream
    drained := fun hdone => absurd (h.drained hdone).1 hlive
    hint := h.hint
    closed := fun hphase hne => by
      obtain ⟨hfresh, htoPeer⟩ := hover hphase
      exact absurd (htoPeer.trans (h.fresh hfresh)) hne }

/-- A dial that fails is answered with the one frame about it. -/
theorem answered_dialed {ok : Bool} (h : Answered events s)
    (hstep : step carries service s (.dialed ok) = some s') :
    Answered (events ++ [.dialed ok]) s' := by
  have hwritten := h.written
  have hdrained := h.drained
  unfold step at hstep
  dsimp only at hstep
  split at hstep
  · next hdial =>
    rw [hdial] at hwritten hdrained
    have hrunning : s.proxy.done = false := Bool.eq_false_iff.mpr fun hover =>
      absurd (hdrained hover).1 nofun
    have hstream := h.stream hrunning
    split at hstep
    · next hok =>
      obtain rfl := Option.some.inj hstep
      have hsame : daemonFrames (events ++ [.dialed ok]) = daemonFrames events := by
        rw [daemonFrames_snoc, hok]
        exact List.append_nil _
      exact {
        written := by rw [hsame]; exact hwritten
        fresh := fun _ => rfl
        stream := fun _ => by rw [hsame]; exact hstream
        drained := fun hover => absurd (hrunning.symm.trans hover) Bool.false_ne_true
        hint := h.hint
        closed := nofun }
    · next hfail =>
      obtain rfl := Option.some.inj hstep
      have hone : daemonFrames (events ++ [.dialed ok]) =
          daemonFrames events ++ [unreachableFrame] := by
        rw [daemonFrames_snoc, Bool.eq_false_iff.mpr hfail]
        rfl
      exact {
        written := by rw [hone, ← hwritten]; rfl
        fresh := nofun
        stream := fun _ => by rw [hone, ← hstream]; exact (List.append_assoc _ _ _).symm
        drained := fun hover => absurd (hrunning.symm.trans hover) Bool.false_ne_true
        hint := h.hint
        closed := fun _ hne => absurd rfl hne }
  · contradiction

/-- The proxy never stops before the daemon. -/
theorem running_of_pipe {d : DaemonEnd} {pe : PipeEvent} (h : Answered events s)
    (hpipe : s.daemon.pipe service pe = some d) : s.proxy.done = false :=
  Bool.eq_false_iff.mpr fun hover => DaemonEnd.live_of_pipe hpipe (h.drained hover).1

/-- A frame that comes down goes to stdout; the hint is about the last. -/
theorem answered_downRead {written : Bool} (h : Answered events s)
    (hstep : step carries service s (.downRead written) = some s')
    (hwhole : Whole carries (events ++ [.downRead written])) :
    Answered (events ++ [.downRead written]) s' := by
  have hsame : daemonFrames (events ++ [.downRead written]) = daemonFrames events := by
    rw [daemonFrames_snoc]
    exact List.append_nil _
  have hdone : written = true := by
    cases written with
    | true => rfl
    | false => exact absurd (List.mem_append_right _ (List.mem_singleton_self _)) hwhole.1
  unfold step at hstep
  dsimp only at hstep
  split at hstep
  · contradiction
  · next hover =>
    have hrunning := Bool.eq_false_iff.mpr hover
    have hstream := h.stream hrunning
    split at hstep
    · next v down hdown =>
      obtain rfl := Option.some.inj hstep
      have hv : carries v = .frame v := by
        refine hwhole.2 v ?_
        rw [hsame, ← hstream, hdown]
        exact List.mem_append_right _ List.mem_cons_self
      have hproxy : s.relay written (carries v) =
          { s.proxy with
            toStdout := s.proxy.toStdout ++ [v]
            endedOn := meshErrorCode v } := by
        rw [hv, hdone]
        rfl
      rw [hproxy]
      exact {
        written := by rw [hsame]; exact h.written
        fresh := h.fresh
        stream := fun _ => by
          rw [hsame, ← hstream, hdown]
          exact List.append_assoc _ _ _
        drained := fun hover' => absurd hover' hover
        hint := by
          dsimp only
          rw [List.getLast?_concat]
          rfl
        closed := fun hphase hne => List.mem_append_left _ (h.closed hphase hne) }
    · next hdown =>
      split at hstep
      · next hended =>
        obtain rfl := Option.some.inj hstep
        exact {
          written := by rw [hsame]; exact h.written
          fresh := h.fresh
          stream := nofun
          drained := fun _ => by
            refine ⟨DaemonEnd.ended_iff.mp hended, ?_⟩
            rw [hsame, ← hstream, hdown]
            exact (List.append_nil _).symm
          hint := h.hint
          closed := fun hphase hne => List.mem_append_left _ (h.closed hphase hne) }
      · contradiction

/-- What comes from stdin changes nothing of what comes down. -/
theorem answered_stdin {line : Inbound Json} {written : Bool} (h : Answered events s)
    (hstep : step carries service s (.stdin line written) = some s') :
    Answered (events ++ [.stdin line written]) s' := by
  unfold step at hstep
  dsimp only at hstep
  split at hstep
  · contradiction
  · split at hstep
    all_goals
      obtain rfl := Option.some.inj hstep
      exact answered_idle h rfl rfl rfl rfl rfl rfl

/-- The end of stdin ends nothing that comes down. -/
theorem answered_stdinEnd (h : Answered events s)
    (hstep : step carries service s .stdinEnd = some s') :
    Answered (events ++ [.stdinEnd]) s' := by
  unfold step at hstep
  dsimp only at hstep
  split at hstep
  · contradiction
  · obtain rfl := Option.some.inj hstep
    exact answered_idle h rfl rfl rfl rfl rfl rfl

/-- A frame that goes up writes nothing down. -/
theorem answered_upRead {sent : Bool} (h : Answered events s)
    (hstep : step carries service s (.upRead sent) = some s') :
    Answered (events ++ [.upRead sent]) s' := by
  unfold step at hstep
  dsimp only at hstep
  split at hstep
  · next line up hup =>
    obtain ⟨d, hpipe, rfl⟩ := Option.map_eq_some_iff.mp hstep
    exact answered_up h hpipe not_false rfl rfl
  · split at hstep
    · obtain ⟨d, hpipe, rfl⟩ := Option.map_eq_some_iff.mp hstep
      exact answered_up h hpipe not_false rfl rfl
    · contradiction

/-- A frame of the peer comes down behind the others, unless its write fails. -/
theorem answered_peer {v : Json} {written : Bool} (h : Answered events s)
    (hstep : step carries service s (.peer v written) = some s') :
    Answered (events ++ [.peer v written]) s' := by
  unfold step at hstep
  dsimp only at hstep
  split at hstep
  · next hdone =>
    obtain ⟨d, hpipe, rfl⟩ := Option.map_eq_some_iff.mp hstep
    obtain ⟨hwritten, hphase⟩ := DaemonEnd.pipe_peer hpipe
    have hrunning := running_of_pipe h hpipe
    have hone : daemonFrames (events ++ [.peer v written]) = daemonFrames events ++ [v] := by
      rw [daemonFrames_snoc, hdone]
      rfl
    exact {
      written := by rw [hone, ← h.written]; exact hwritten
      fresh := fun hopen => absurd (hphase.symm.trans hopen) (by decide)
      stream := fun _ => by
        rw [hone, ← h.stream hrunning]
        exact (List.append_assoc _ _ _).symm
      drained := fun hover => absurd (hrunning.symm.trans hover) Bool.false_ne_true
      hint := h.hint
      closed := fun hover => absurd (hphase.symm.trans hover) (by decide) }
  · split at hstep
    · next hover =>
      obtain ⟨d, hpipe, -⟩ := Option.map_eq_some_iff.mp hstep
      exact absurd ((running_of_pipe h hpipe).symm.trans hover) Bool.false_ne_true
    · contradiction

/-- The end of the peer ends the session. -/
theorem answered_peerEnd (h : Answered events s)
    (hstep : step carries service s .peerEnd = some s') : Answered (events ++ [.peerEnd]) s' := by
  obtain ⟨d, hpipe, rfl⟩ := Option.map_eq_some_iff.mp hstep
  obtain ⟨-, hwritten, hphase⟩ := DaemonEnd.pipe_ends hpipe trivial
  have hrunning := running_of_pipe h hpipe
  have hsame : daemonFrames (events ++ [.peerEnd]) = daemonFrames events := by
    rw [daemonFrames_snoc]
    exact List.append_nil _
  exact {
    written := by rw [hsame, ← h.written]; exact hwritten
    fresh := fun hopen => absurd (hphase.symm.trans hopen) (by decide)
    stream := by rw [hsame]; exact h.stream
    drained := fun hover => absurd (hrunning.symm.trans hover) Bool.false_ne_true
    hint := h.hint
    closed := fun _ _ => List.mem_append_right _ (List.mem_singleton_self _) }

/-- Whatever happens, what the daemon wrote is on stdout or on its way there. -/
theorem answered_step (h : Answered events s) (hstep : step carries service s e = some s')
    (hwhole : Whole carries (events ++ [e])) : Answered (events ++ [e]) s' := by
  cases e with
  | stdin line written => exact answered_stdin h hstep
  | stdinEnd => exact answered_stdinEnd h hstep
  | dialed ok => exact answered_dialed h hstep
  | upRead sent => exact answered_upRead h hstep
  | peer v written => exact answered_peer h hstep
  | peerEnd => exact answered_peerEnd h hstep
  | downRead written => exact answered_downRead h hstep hwhole

/-- The account of what comes down, in every run in which stdout takes it. -/
theorem answered_run (hrun : run (step carries service) init events = some s)
    (hwhole : Whole carries events) : Answered events s :=
  run_history (I := fun events s => Whole carries events → Answered events s)
    (fun _ => answered_init)
    (fun _ _ _ _ _ h hstep hwhole => answered_step (h (whole_of_snoc hwhole)) hstep hwhole)
    hrun hwhole

/-- A client may write its requests and close its stdin: when the proxy is done,
stdout holds all that was answered, either the one frame about a dial that
failed or each frame that the daemon took from the peer; and a session that had
begun was ended by the peer.  The hint that follows is about the last frame. -/
theorem one_shot_loses_nothing (hrun : run (step carries service) init events = some s)
    (hwhole : Whole carries events) (hover : s.proxy.done = true) :
    s.proxy.toStdout = daemonFrames events ∧
      s.proxy.endedOn = (daemonFrames events).getLast?.bind meshErrorCode ∧
      (s.daemon = .failed →
        s.proxy.toStdout = [unreachableFrame] ∧ s.proxy.endedOn = some errUnreachable) ∧
      (s.daemon.session.toPeer ≠ [] → .peerEnd ∈ events) := by
  have h := answered_run hrun hwhole
  obtain ⟨hphase, hall⟩ := h.drained hover
  refine ⟨hall, by rw [h.hint, hall], fun hfailed => ?_, h.closed hphase⟩
  have hone : s.proxy.toStdout = [unreachableFrame] := by
    rw [hall, ← h.written, hfailed]
    rfl
  refine ⟨hone, ?_⟩
  rw [h.hint, hone]
  decide

/-- A request and the end of stdin before the dial is through; the answer comes
when the client has long gone quiet. -/
def oneShot : List ChainEvent :=
  [.stdin (.frame (.obj PipeSession.redirects)) true, .stdinEnd, .dialed true, .upRead true,
    .upRead true, .peer (.str "answer") true, .peerEnd, .downRead true, .downRead true]

theorem one_shot_loses_nothing_example :
    ∃ s, run (step Inbound.frame "notes") init oneShot = some s ∧
      s.proxy.toStdout = [.str "answer"] ∧ s.proxy.endedOn = none := by
  have hrun : run (step Inbound.frame "notes") init oneShot = some _ := rfl
  have hwhole : Whole Inbound.frame oneShot := by
    refine ⟨fun hmem => ?_, fun _ _ => rfl⟩
    simp only [oneShot, List.mem_cons, List.not_mem_nil, or_false, reduceCtorEq,
      ChainEvent.downRead.injEq, Bool.false_eq_true] at hmem
  obtain ⟨hstdout, hhint, -, -⟩ := one_shot_loses_nothing hrun hwhole rfl
  exact ⟨_, hrun, hstdout, hhint⟩

/-! ## what goes up -/

/-- What is read back from the socket is what was written to it. -/
def Faithful (carries : Json → Inbound Json) : Prop := ∀ v w, carries v = .frame w → w = v

/-- Each frame that was written was one that the daemon reads back, and the
stream to the peer took it. -/
def Intact (carries : Json → Inbound Json) (events : List ChainEvent) : Prop :=
  .upRead false ∉ events ∧ ∀ v ∈ stdinFrames events, carries v = .frame v

theorem intact_of_snoc (h : Intact carries (events ++ [e])) : Intact carries events := by
  refine ⟨fun hmem => h.1 (List.mem_append_left _ hmem), fun v hv => h.2 v ?_⟩
  rw [stdinFrames_snoc]
  exact List.mem_append_left _ hv

/-- No more comes from stdin. -/
def drying (s : ConnectChain) : Bool := s.proxy.done || s.proxy.parked

/-- The daemon still takes frames. -/
def Takes (s : ConnectChain) : Prop :=
  s.daemon.session.phase = .opening ∨
    (s.daemon.session.phase = .piping ∧ s.daemon.session.parked = false)

/-- Of the frames of stdin, `sent` went to the peer and `rest` is on its way, or
nothing reads it any more. -/
structure Requested (carries : Json → Inbound Json) (service : String)
    (events : List ChainEvent) (s : ConnectChain) (sent rest : List Json) : Prop where
  frames : stdinFrames events = sent ++ rest
  toPeer : s.daemon.session.toPeer = PipeSession.forwarded service sent
  opening : s.daemon.session.phase = .opening → sent = []
  begun : s.daemon.session.phase = .piping → sent ≠ []
  queued : s.Takes → s.up = rest.map carries
  closing : s.daemon.session.parked = true → Intact carries events →
    rest = [] ∧ s.drying = true

variable {sent rest : List Json}

theorem requested_init : Requested carries service [] init [] [] where
  frames := rfl
  toPeer := rfl
  opening := fun _ => rfl
  begun := nofun
  queued := fun _ => rfl
  closing := nofun

/-- The events that send the peer nothing, and at most end the session. -/
theorem requested_keep (h : Requested carries service events s sent rest)
    (htoPeer : s'.daemon.session.toPeer = s.daemon.session.toPeer)
    (hparked : s'.daemon.session.parked = s.daemon.session.parked)
    (hphase : s'.daemon.session.phase = .ended ∨
      s'.daemon.session.phase = s.daemon.session.phase ∧ s'.up = s.up)
    (hdrying : s.drying = true → s'.drying = true) (hnone : stdinFrames [e] = []) :
    Requested carries service (events ++ [e]) s' sent rest where
  frames := by rw [stdinFrames_snoc, hnone, List.append_nil]; exact h.frames
  toPeer := htoPeer.trans h.toPeer
  opening := fun hopen => by
    obtain hover | ⟨hsame, -⟩ := hphase
    · exact absurd (hover.symm.trans hopen) (by decide)
    · exact h.opening (hsame.symm.trans hopen)
  begun := fun hpiping => by
    obtain hover | ⟨hsame, -⟩ := hphase
    · exact absurd (hover.symm.trans hpiping) (by decide)
    · exact h.begun (hsame.symm.trans hpiping)
  queued := fun htakes => by
    obtain hover | ⟨hsame, hup⟩ := hphase
    · rw [Takes, hover] at htakes
      obtain hopen | ⟨hpiping, -⟩ := htakes
      · exact absurd hopen (by decide)
      · exact absurd hpiping (by decide)
    · rw [Takes, hsame, hparked] at htakes
      rw [hup]
      exact h.queued htakes
  closing := fun hpark hintact => by
    obtain ⟨hrest, hdry⟩ := h.closing (hparked.symm.trans hpark) (intact_of_snoc hintact)
    exact ⟨hrest, hdrying hdry⟩

/-- A frame from stdin goes up behind the others. -/
theorem requested_stdin {line : Inbound Json} {written : Bool}
    (h : Requested carries service events s sent rest)
    (hstep : step carries service s (.stdin line written) = some s') :
    ∃ rest', Requested carries service (events ++ [.stdin line written]) s' sent rest' := by
  unfold step at hstep
  dsimp only at hstep
  split at hstep
  · contradiction
  · next hrunning =>
    split at hstep
    · next v =>
      obtain rfl := Option.some.inj hstep
      refine ⟨rest ++ [v], ?_⟩
      exact {
        frames := by
          rw [stdinFrames_snoc, h.frames]
          exact List.append_assoc _ _ _
        toPeer := h.toPeer
        opening := h.opening
        begun := h.begun
        queued := fun htakes => by
          rw [List.map_append, ← h.queued htakes]
          rfl
        closing := fun hpark hintact =>
          absurd (h.closing hpark (intact_of_snoc hintact)).2 hrunning }
    · next hfail =>
      obtain rfl := Option.some.inj hstep
      refine ⟨rest, requested_keep h rfl rfl (.inr ⟨rfl, rfl⟩) (fun _ => Bool.or_true _) ?_⟩
      cases line with
      | violation => rfl
      | frame v =>
          cases written with
          | false => rfl
          | true => exact (hfail v rfl rfl).elim

/-- A frame leaves the socket: it is the next of the client's. -/
theorem requested_line {line : Inbound Json} {up : List (Inbound Json)} {d : DaemonEnd}
    {taken : Bool} (hfaithful : Faithful carries)
    (h : Requested carries service events s sent rest) (hup : s.up = line :: up)
    (hpipe : s.daemon.pipe service (.client line taken) = some d) :
    ∃ sent' rest', Requested carries service (events ++ [.upRead taken])
      { s with daemon := d, up } sent' rest' := by
  obtain ⟨p, p', hp, rfl, hstep⟩ := DaemonEnd.piped_of_pipe hpipe
  have hnone : stdinFrames (events ++ [.upRead taken]) = stdinFrames events := by
    rw [stdinFrames_snoc]
    exact List.append_nil _
  have hnext : s.Takes → ∃ v rest', rest = v :: rest' ∧ carries v = line ∧
      rest'.map carries = up := fun htakes =>
    List.map_eq_cons_iff.mp ((h.queued htakes).symm.trans hup)
  have htoPeer := h.toPeer
  have hopening := h.opening
  have hbegun := h.begun
  have hclosing := h.closing
  rw [Takes, hp] at hnext
  rw [hp] at htoPeer hopening hbegun hclosing
  cases hstep with
  | @dial w hphase =>
      obtain ⟨v, rest', rfl, hline, hrest⟩ := hnext (.inl hphase)
      obtain rfl := hfaithful v w hline
      obtain rfl := hopening hphase
      refine ⟨[w], rest', ?_⟩
      exact {
        frames := hnone.trans h.frames
        toPeer := rfl
        opening := nofun
        begun := fun _ => List.cons_ne_nil _ _
        queued := fun _ => hrest.symm
        closing := fun hpark hintact =>
          absurd (hclosing hpark (intact_of_snoc hintact)).1 (List.cons_ne_nil _ _) }
  | stillborn hphase =>
      refine ⟨sent, rest, requested_keep h ?_ ?_ (.inl rfl) id rfl⟩
      · rw [hp]
        rfl
      · rw [hp]
        rfl
  | @request w hphase hrunning =>
      obtain ⟨v, rest', rfl, hline, hrest⟩ := hnext (.inr ⟨hphase, hrunning⟩)
      obtain rfl := hfaithful v w hline
      refine ⟨sent ++ [w], rest', ?_⟩
      exact {
        frames := by
          rw [hnone, h.frames]
          exact (List.append_assoc sent [w] rest').symm
        toPeer := by
          rw [PipeSession.forwarded_append w sent (hbegun hphase), ← htoPeer]
          rfl
        opening := fun hopen => absurd (hphase.symm.trans hopen) (by decide)
        begun := fun _ => List.append_ne_nil_of_right_ne_nil _ (List.cons_ne_nil _ _)
        queued := fun _ => hrest.symm
        closing := fun hpark => absurd (hrunning.symm.trans hpark) Bool.false_ne_true }
  | park hphase hrunning hframes =>
      obtain ⟨v, rest', rfl, hline, hrest⟩ := hnext (.inr ⟨hphase, hrunning⟩)
      refine ⟨sent, v :: rest', ?_⟩
      exact {
        frames := hnone.trans h.frames
        toPeer := htoPeer
        opening := fun hopen => absurd (hphase.symm.trans hopen) (by decide)
        begun := fun _ => hbegun hphase
        queued := fun htakes => by
          obtain hopen | ⟨-, hpark⟩ := htakes
          · exact absurd (hphase.symm.trans hopen) (by decide)
          · exact absurd hpark.symm Bool.false_ne_true
        closing := fun _ hintact => by
          -- the frame was lost, on the way or by the stream
          have hv : carries v = .frame v := hintact.2 v (by
            rw [hnone, h.frames]
            exact List.mem_append_right _ List.mem_cons_self)
          obtain rfl := hline.symm.trans hv
          cases taken with
          | true => exact absurd hframes (List.cons_ne_nil _ _)
          | false => exact absurd (List.mem_append_right _ (List.mem_singleton_self _)) hintact.1 }
  | finish _ _ _ hends => exact hends.elim

/-- The end of what the proxy writes, which comes after all of it. -/
theorem requested_end {d : DaemonEnd} {taken : Bool}
    (h : Requested carries service events s sent rest) (hup : s.up = [])
    (hdrying : s.drying = true) (hpipe : s.daemon.pipe service .clientEnd = some d) :
    Requested carries service (events ++ [.upRead taken]) { s with daemon := d } sent rest := by
  obtain ⟨p, p', hp, rfl, hstep⟩ := DaemonEnd.piped_of_pipe hpipe
  have hqueued := h.queued
  have htoPeer := h.toPeer
  have hbegun := h.begun
  rw [Takes, hp, hup] at hqueued
  rw [hp] at htoPeer hbegun
  cases hstep with
  | stillborn hphase =>
      refine requested_keep h ?_ ?_ (.inl rfl) id rfl
      · rw [hp]
        rfl
      · rw [hp]
        rfl
  | park hphase hrunning =>
      have hrest : rest = [] := List.map_eq_nil_iff.mp (hqueued (.inr ⟨hphase, hrunning⟩)).symm
      exact {
        frames := by
          rw [stdinFrames_snoc]
          exact (List.append_nil _).trans h.frames
        toPeer := htoPeer
        opening := fun hopen => absurd (hphase.symm.trans hopen) (by decide)
        begun := fun _ => hbegun hphase
        queued := fun htakes => by
          obtain hopen | ⟨-, hpark⟩ := htakes
          · exact absurd (hphase.symm.trans hopen) (by decide)
          · exact absurd hpark.symm Bool.false_ne_true
        closing := fun _ _ => ⟨hrest, hdrying⟩ }
  | finish _ _ _ hends => exact hends.elim

/-- A frame that is read from the socket goes to the peer, if the daemon reads it back
and the peer takes it. -/
theorem requested_upRead {taken : Bool} (hfaithful : Faithful carries)
    (h : Requested carries service events s sent rest)
    (hstep : step carries service s (.upRead taken) = some s') :
    ∃ sent' rest', Requested carries service (events ++ [.upRead taken]) s' sent' rest' := by
  unfold step at hstep
  dsimp only at hstep
  split at hstep
  · next line up hup =>
    obtain ⟨d, hpipe, rfl⟩ := Option.map_eq_some_iff.mp hstep
    exact requested_line hfaithful h hup hpipe
  · next hup =>
    split at hstep
    · next hdrying =>
      obtain ⟨d, hpipe, rfl⟩ := Option.map_eq_some_iff.mp hstep
      exact ⟨sent, rest, requested_end h hup hdrying hpipe⟩
    · contradiction

/-- What comes from the peer. -/
theorem requested_down {d : DaemonEnd} {down : List Json} {pe : PipeEvent}
    (h : Requested carries service events s sent rest)
    (hpipe : s.daemon.pipe service pe = some d) (hpeer : peerFrames [pe] ≠ [] ∨ pe.Ends)
    (hnone : stdinFrames [e] = []) :
    Requested carries service (events ++ [e]) { s with daemon := d, down } sent rest := by
  obtain ⟨p, p', hp, rfl, hstep⟩ := DaemonEnd.piped_of_pipe hpipe
  cases hstep with
  | dial | request => exact absurd rfl (hpeer.resolve_right not_false)
  | stillborn _ _ hframes hends | park _ _ _ hframes hends =>
      obtain hne | hends' := hpeer
      · exact absurd hframes hne
      · exact absurd hends' hends
  | response =>
      refine requested_keep h ?_ ?_ (.inr ⟨?_, rfl⟩) id hnone
      all_goals
        rw [hp]
        rfl
  | finish =>
      refine requested_keep h ?_ ?_ (.inl rfl) id hnone
      all_goals
        rw [hp]
        rfl

/-- A dial changes nothing of what goes up. -/
theorem requested_dialed {ok : Bool} (h : Requested carries service events s sent rest)
    (hstep : step carries service s (.dialed ok) = some s') :
    Requested carries service (events ++ [.dialed ok]) s' sent rest := by
  unfold step at hstep
  dsimp only at hstep
  split at hstep
  · next hdial =>
    split at hstep
    · obtain rfl := Option.some.inj hstep
      refine requested_keep h ?_ ?_ (.inr ⟨?_, rfl⟩) id rfl
      all_goals
        rw [hdial]
        rfl
    · obtain rfl := Option.some.inj hstep
      refine requested_keep h ?_ ?_ (.inl rfl) id rfl
      all_goals
        rw [hdial]
        rfl
  · contradiction

/-- What comes down changes nothing of what goes up. -/
theorem requested_downRead {written : Bool} (h : Requested carries service events s sent rest)
    (hstep : step carries service s (.downRead written) = some s') :
    Requested carries service (events ++ [.downRead written]) s' sent rest := by
  unfold step at hstep
  dsimp only at hstep
  split at hstep
  · contradiction
  · split at hstep
    · next v down hdown =>
      obtain rfl := Option.some.inj hstep
      refine requested_keep h rfl rfl (.inr ⟨rfl, rfl⟩) (fun hdrying => ?_) rfl
      unfold drying relay
      split
      · split
        · exact hdrying
        · rfl
      · rfl
    · split at hstep
      · obtain rfl := Option.some.inj hstep
        exact requested_keep h rfl rfl (.inr ⟨rfl, rfl⟩) (fun _ => rfl) rfl
      · contradiction

/-- Whatever happens, what was read from stdin was sent, is on the socket, or is lost
with it. -/
theorem requested_step (hfaithful : Faithful carries)
    (h : Requested carries service events s sent rest)
    (hstep : step carries service s e = some s') :
    ∃ sent' rest', Requested carries service (events ++ [e]) s' sent' rest' := by
  cases e with
  | stdin line written =>
      obtain ⟨rest', hnext⟩ := requested_stdin h hstep
      exact ⟨sent, rest', hnext⟩
  | stdinEnd =>
      unfold step at hstep
      dsimp only at hstep
      split at hstep
      · contradiction
      · obtain rfl := Option.some.inj hstep
        exact ⟨sent, rest,
          requested_keep h rfl rfl (.inr ⟨rfl, rfl⟩) (fun _ => Bool.or_true _) rfl⟩
  | dialed ok => exact ⟨sent, rest, requested_dialed h hstep⟩
  | upRead taken => exact requested_upRead hfaithful h hstep
  | peer v written =>
      unfold step at hstep
      dsimp only at hstep
      split at hstep
      · next hdone =>
        obtain ⟨d, hpipe, rfl⟩ := Option.map_eq_some_iff.mp hstep
        exact ⟨sent, rest, requested_down h hpipe (.inl (List.cons_ne_nil _ _)) rfl⟩
      · split at hstep
        · obtain ⟨d, hpipe, rfl⟩ := Option.map_eq_some_iff.mp hstep
          exact ⟨sent, rest, requested_down h hpipe (.inr trivial) rfl⟩
        · contradiction
  | peerEnd =>
      obtain ⟨d, hpipe, rfl⟩ := Option.map_eq_some_iff.mp hstep
      exact ⟨sent, rest, requested_down h hpipe (.inr trivial) rfl⟩
  | downRead written => exact ⟨sent, rest, requested_downRead h hstep⟩

/-- The account of what goes up, in every run. -/
theorem requested_run (hfaithful : Faithful carries)
    (hrun : run (step carries service) init events = some s) :
    ∃ sent rest, Requested carries service events s sent rest :=
  run_history (I := fun events s => ∃ sent rest, Requested carries service events s sent rest)
    ⟨[], [], requested_init⟩
    (fun _ _ _ _ _ h hstep => by
      obtain ⟨sent, rest, h⟩ := h
      exact requested_step hfaithful h hstep)
    hrun

/-- The peer is sent the frames of stdin in their order, the first of them
naming the dialled service and the others as they came, whatever else the two
relays do meanwhile.  A stream to the peer that was half-closed with nothing
lost was half-closed after the last of them. -/
theorem stdin_reaches_the_peer (hfaithful : Faithful carries)
    (hrun : run (step carries service) init events = some s) :
    ∃ sent, sent <+: stdinFrames events ∧
      s.daemon.session.toPeer = PipeSession.forwarded service sent ∧
      (s.daemon.session.parked = true → Intact carries events → sent = stdinFrames events) := by
  obtain ⟨sent, rest, h⟩ := requested_run hfaithful hrun
  refine ⟨sent, ⟨rest, h.frames.symm⟩, h.toPeer, fun hpark hintact => ?_⟩
  obtain ⟨rfl, -⟩ := h.closing hpark hintact
  rw [h.frames, List.append_nil]

theorem stdin_reaches_the_peer_example :
    ∃ s, run (step Inbound.frame "notes") init oneShot = some s ∧
      ∃ sent, sent <+: [.obj PipeSession.redirects] ∧
        s.daemon.session.toPeer = PipeSession.forwarded "notes" sent ∧
        sent = [.obj PipeSession.redirects] := by
  have hrun : run (step Inbound.frame "notes") init oneShot = some _ := rfl
  have hintact : Intact Inbound.frame oneShot := by
    refine ⟨fun hmem => ?_, fun _ _ => rfl⟩
    simp only [oneShot, List.mem_cons, List.not_mem_nil, or_false, reduceCtorEq,
      ChainEvent.upRead.injEq, Bool.false_eq_true] at hmem
  obtain ⟨sent, hsent, htoPeer, hall⟩ :=
    stdin_reaches_the_peer (fun _ _ h => (Inbound.frame.inj h).symm) hrun
  exact ⟨_, hrun, sent, hsent, htoPeer, hall rfl hintact⟩

end ConnectChain

end Mcpmesh
