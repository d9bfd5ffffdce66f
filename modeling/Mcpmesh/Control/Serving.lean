import Mcpmesh.Codec
import Mcpmesh.Lib.Run
import Mcpmesh.Net.Service
import Mathlib.Algebra.GroupWithZero.Nat
import Mathlib.Data.List.Perm.Basic

/-!
# Mcpmesh.Control.Serving

One connection of the control socket (`node/src/control.rs`).

The loop reads a frame at a time and hands each request to a task of its own, so
the answers come in the order in which the tasks end.  A request over the cap is
refused at once.  `open_session` and `subscribe` turn the connection into a
stream: the loop reads no more, waits for its tasks, and gives the writer away.

Tasks and loop write whole frames under one lock, so a write is one event here.
-/

namespace Mcpmesh

open Lib

/-! ## JSON-RPC -/

namespace ControlApi

/-- `MAX_INFLIGHT`. -/
def maxInflight : Nat := 32

/-- `ERR_TOO_MANY_INFLIGHT`. -/
def errTooManyInflight : Int := -32051

def ok (id result : Json) : Json :=
  .obj [("id", id), ("jsonrpc", .str "2.0"), ("result", result)]

def error (id : Json) (code : Int) (message : String) : Json :=
  .obj [("error", .obj [("code", .num code 0), ("message", .str message)]), ("id", id),
    ("jsonrpc", .str "2.0")]

/-- `method_of`. -/
def methodOf (v : Json) : Option String := (v.get "method").bind (·.asStr)

/-- `req.get("id").cloned().unwrap_or(Value::Null)`, which every answer carries. -/
def requestId (frame : Json) : Json := (frame.get "id").getD .null

@[simp] theorem requestId_ok (id result : Json) : requestId (ok id result) = id := rfl

@[simp] theorem requestId_error (id : Json) (code : Int) (message : String) :
    requestId (error id code message) = id := rfl

/-- `{v:?}`. -/
def debugViolation : Violation → String
  | .tooLarge => "TooLarge"
  | .invalidJson => "InvalidJson"

/-- A frame that is no request. -/
def badFrame (v : Violation) : Json :=
  error .null (-32700) ("invalid request frame: " ++ debugViolation v)

/-- A request over the cap. -/
def refusal (req : Json) : Json :=
  error (requestId req) errTooManyInflight
    ("connection already has " ++ toString maxInflight ++ " requests in flight; retry after one " ++
      "completes, or use a second control connection")

/-- How a handler ends: `respond` writes the first two down, `catch_unwind` the third. -/
inductive Outcome where
  | ok (result : Json)
  | error (code : Int) (message : String)
  | panicked

/-- `handle_request`, under `catch_unwind`. -/
def respond (req : Json) : Outcome → Json
  | .ok result => ok (requestId req) result
  | .error code message => error (requestId req) code message
  | .panicked =>
      error (requestId req) (-32603)
        "internal error: the request handler panicked (see the daemon log)"

/-- A response carries the id of its request. -/
@[simp] theorem requestId_respond (req : Json) (outcome : Outcome) :
    requestId (respond req outcome) = requestId req := by
  cases outcome <;> rfl

end ControlApi

open ControlApi

/-! ## the connection -/

structure OpenSessionParams where
  peer : String
  service : String
  idleTimeoutSecs : Option Nat

/-- What the loop calls. -/
structure ControlIo where
  hello : Json
  /-- `params_of::<OpenSessionParams>`, with the text of `serde_json`'s error -/
  openSession : Json → Except String OpenSessionParams

inductive Upgrade where
  | openSession (p : OpenSessionParams)
  | subscribe

inductive ServePhase where
  | serving
  /-- the loop waits for the writer, to return after it if it is the `last` -/
  | answering (resp : Json) (last : Bool)
  /-- `reclaim_writer` joins the tasks -/
  | draining (u : Upgrade)
  /-- the stream owns the writer -/
  | upgraded (u : Upgrade)
  | ended

/-- A request in flight, with its outcome once the handler has returned. -/
structure RequestTask where
  req : Json
  outcome : Option Outcome

/-- `permits` are those that `inflight` has left, `wire` is what the client is
sent.  `owed` and `lost` are ghosts: the ids of the frames that ask for an
answer, and of those among them that will have none. -/
structure ControlServer where
  phase : ServePhase
  tasks : List RequestTask
  permits : Nat
  wire : List Json
  stopping : Bool
  owed : List Json
  lost : List Json

/-- The flag of a write says whether it succeeds. -/
inductive ServeEvent where
  | recv (inbound : Inbound Json)
  | answered (written : Bool)
  /-- the client has closed, or the read fails -/
  | eof
  | handled (i : Nat) (outcome : Outcome)
  | reply (i : Nat) (written : Bool)
  | reclaim
  /-- of the stream -/
  | push (frame : Json) (written : Bool)
  | streamEnd
  /-- `abort_control_tasks` -/
  | abort

/-- No write fails. -/
def ServeEvent.written : ServeEvent → Bool
  | .answered written | .reply _ written | .push _ written => written
  | _ => true

def ServeEvent.isAbort : ServeEvent → Bool
  | .abort => true
  | _ => false

/-- The id of the answer that the loop holds. -/
def ServePhase.held : ServePhase → List Json
  | .answering resp _ => [requestId resp]
  | _ => []

namespace ControlServer

variable (io : ControlIo) (s : ControlServer)

/-- A connection that was greeted. -/
def start : ControlServer :=
  { phase := .serving, tasks := [], permits := maxInflight, wire := [io.hello], stopping := false
    owed := [], lost := [] }

/-- The ids that wait for their answer. -/
def pending : List Json := s.phase.held ++ s.tasks.map fun t => requestId t.req

/-- The loop returns: its tasks are dropped. -/
def close : ControlServer :=
  { s with phase := .ended, tasks := [], permits := s.permits + s.tasks.length
           lost := s.lost ++ s.pending }

/-- A frame that asks for an answer under `id`, which the loop gives. -/
def answer (id resp : Json) (last : Bool) : ControlServer :=
  { s with phase := .answering resp last, owed := s.owed ++ [id] }

/-- A request for a task of its own. -/
def spawn (req : Json) : ControlServer :=
  match s.permits with
  | 0 => s.answer (requestId req) (refusal req) false
  | permits + 1 =>
      { s with permits, tasks := s.tasks ++ [⟨req, none⟩], owed := s.owed ++ [requestId req] }

def onRequest (req : Json) : ControlServer :=
  match methodOf req with
  | some "shutdown" =>
      { s with stopping := true }.answer (requestId req) (ok (requestId req) (.obj [])) true
  | some "open_session" =>
      match io.openSession ((req.get "params").getD .null) with
      | .ok p => { s with phase := .draining (.openSession p) }
      | .error e =>
          s.answer (requestId req)
            (error (requestId req) (-32602) ("open_session failed: invalid params: " ++ e)) false
  | some "subscribe" => { s with phase := .draining .subscribe }
  | _ => s.spawn req

/-- The loop has the writer; a write that fails ends it. -/
def onAnswered (resp : Json) (last written : Bool) : ControlServer :=
  if written then
    let s := { s with phase := .serving, wire := s.wire ++ [resp] }
    if last then s.close else s
  else s.close

/-- A task that has its response writes it, and ends. -/
def onReply (i : Nat) (req : Json) (outcome : Outcome) (written : Bool) : ControlServer :=
  let s := { s with tasks := s.tasks.eraseIdx i, permits := s.permits + 1 }
  if written then { s with wire := s.wire ++ [respond req outcome] }
  else { s with lost := s.lost ++ [requestId req] }

/-- `serve_control_io` from the greeting on. -/
def step (s : ControlServer) (event : ServeEvent) : Option ControlServer :=
  match s.phase, event with
  | .serving, .recv (.frame req) => some (s.onRequest io req)
  | .serving, .recv (.violation v) => some (s.answer .null (badFrame v) false)
  | .serving, .eof => some s.close
  | .answering resp last, .answered written => some (s.onAnswered resp last written)
  | .draining u, .reclaim => if s.tasks.isEmpty then some { s with phase := .upgraded u } else none
  | .upgraded _, .push frame written =>
      some (if written then { s with wire := s.wire ++ [frame] } else s.close)
  | .upgraded _, .streamEnd => some s.close
  | _, .handled i outcome =>
      match s.tasks[i]? with
      | some ⟨req, none⟩ => some { s with tasks := s.tasks.set i ⟨req, some outcome⟩ }
      | _ => none
  | _, .reply i written =>
      match s.tasks[i]? with
      | some ⟨req, some outcome⟩ => some (s.onReply i req outcome written)
      | _ => none
  | .ended, .abort => none
  | _, .abort => some s.close
  | _, _ => none

end ControlServer

/-! ## the books of a connection -/

/-- The loop has returned, or has given the writer away. -/
def ServePhase.pastLoop : ServePhase → Bool
  | .upgraded _ | .ended => true
  | _ => false

/-- What was sent, what is owed and who is still at work: `answers` were sent
before the writer was given away, `pushed` after it. -/
structure ControlServer.Served (io : ControlIo) (s : ControlServer) (answers pushed : List Json) :
    Prop where
  wire : s.wire = io.hello :: (answers ++ pushed)
  balance : (answers.map requestId ++ s.lost ++ s.pending).Perm s.owed
  loop : s.phase.pastLoop = false → pushed = []
  quiet : s.phase.pastLoop = true → s.pending = [] ∧ s.tasks = []
  cap : s.permits + s.tasks.length = maxInflight

namespace ControlServer

variable {io : ControlIo} {s s' : ControlServer} {answers pushed : List Json} {event : ServeEvent}

/-- The account of a new connection is empty. -/
theorem served_start (io : ControlIo) : (start io).Served io [] [] where
  wire := rfl
  balance := .nil
  loop _ := rfl
  quiet := nofun
  cap := rfl

/-- A close leaves the account. -/
theorem Served.close (h : s.Served io answers pushed) : s.close.Served io answers pushed where
  wire := h.wire
  balance := by
    simpa only [ControlServer.close, pending, ServePhase.held, List.map_nil, List.append_nil,
      List.append_assoc] using h.balance
  loop := nofun
  quiet _ := ⟨rfl, rfl⟩
  cap := h.cap

/-- An answer of the loop carries the id that asked for it. -/
theorem Served.answer (h : s.Served io answers pushed) (hphase : s.phase = .serving)
    {id resp : Json} (hid : requestId resp = id) (last : Bool) :
    (s.answer id resp last).Served io answers pushed where
  wire := h.wire
  balance := by
    refine .trans ?_ (h.balance.append_right [id])
    simp only [ControlServer.answer, pending, hphase, ServePhase.held, hid, List.nil_append,
      List.append_assoc]
    exact (List.perm_append_comm.append_left _).append_left _
  loop _ := h.loop (by rw [hphase]; rfl)
  quiet := nofun
  cap := h.cap

/-- A spawned request is owed its answer. -/
theorem Served.spawn (h : s.Served io answers pushed) (hphase : s.phase = .serving) (req : Json) :
    (s.spawn req).Served io answers pushed := by
  unfold ControlServer.spawn
  split
  · exact h.answer hphase rfl _
  · next permits hpermits =>
    refine ⟨h.wire, ?_, fun _ => h.loop (by rw [hphase]; rfl), fun hpast => ?_, ?_⟩
    · simpa only [pending, List.map_append, List.map_cons, List.map_nil, List.append_assoc]
        using h.balance.append_right [requestId req]
    · rw [hphase] at hpast
      contradiction
    · have hcap := h.cap
      simp only [List.length_append, List.length_singleton]
      omega

/-- A request keeps the account, whatever it asks. -/
theorem Served.onRequest (h : s.Served io answers pushed) (hphase : s.phase = .serving)
    (req : Json) : (s.onRequest io req).Served io answers pushed := by
  have hloop : pushed = [] := h.loop (by rw [hphase]; rfl)
  have hdrain (u : Upgrade) :
      ({ s with phase := .draining u } : ControlServer).Served io answers pushed :=
    ⟨h.wire, by simpa only [pending, hphase, ServePhase.held] using h.balance, fun _ => hloop,
      nofun,
      h.cap⟩
  unfold ControlServer.onRequest
  split
  · have hstop : ({ s with stopping := true } : ControlServer).Served io answers pushed :=
      ⟨h.wire, h.balance, h.loop, h.quiet, h.cap⟩
    exact hstop.answer hphase rfl _
  · split
    · exact hdrain _
    · exact h.answer hphase rfl _
  · exact hdrain _
  · exact h.spawn hphase req

/-- A frame sent by the loop, or by a task. -/
theorem Served.sent (h : s.Served io answers []) {resp : Json}
    (hwire : s'.wire = s.wire ++ [resp]) (howed : s'.owed = s.owed) (hlost : s'.lost = s.lost)
    (hpending : (requestId resp :: s'.pending).Perm s.pending)
    (hphase : s'.phase.pastLoop = false) (hcap : s'.permits + s'.tasks.length = maxInflight) :
    s'.Served io (answers ++ [resp]) [] where
  wire := by rw [hwire, h.wire]; simp
  balance := by
    rw [howed, hlost]
    refine .trans ?_ h.balance
    simp only [List.map_append, List.map_cons, List.map_nil, List.append_assoc,
      List.singleton_append]
    exact (List.perm_middle.symm.trans (hpending.append_left _)).append_left _
  loop _ := rfl
  quiet hpast := by rw [hphase] at hpast; contradiction
  cap := hcap

/-- The end of a response keeps the account. -/
theorem Served.onAnswered (h : s.Served io answers pushed) {resp : Json} {last : Bool}
    (hphase : s.phase = .answering resp last) (written : Bool) :
    ∃ answers', (s.onAnswered resp last written).Served io answers' pushed := by
  obtain rfl : pushed = [] := h.loop (by rw [hphase]; rfl)
  cases written with
  | false => exact ⟨answers, h.close⟩
  | true =>
      have hsent :
          ({ s with phase := .serving, wire := s.wire ++ [resp] } : ControlServer).Served io
            (answers ++ [resp]) [] := by
        refine h.sent rfl rfl rfl ?_ rfl h.cap
        simp only [pending, hphase, ServePhase.held, List.nil_append, List.singleton_append]
        exact .refl _
      cases last with
      | false => exact ⟨_, hsent⟩
      | true => exact ⟨_, hsent.close⟩

/-- The tasks without the one that ends. -/
theorem perm_pending_eraseIdx {tasks : List RequestTask} {i : Nat} {t : RequestTask}
    (ht : tasks[i]? = some t) :
    (requestId t.req :: (tasks.eraseIdx i).map fun t => requestId t.req).Perm
      (tasks.map fun t => requestId t.req) := by
  obtain ⟨hi, rfl⟩ := List.getElem?_eq_some_iff.mp ht
  exact (List.getElem_cons_eraseIdx_perm hi).map fun t => requestId t.req

/-- The end of a task's response keeps the account. -/
theorem Served.onReply (h : s.Served io answers pushed) {i : Nat} {req : Json}
    {outcome : Outcome} (ht : s.tasks[i]? = some ⟨req, some outcome⟩) (written : Bool) :
    ∃ answers', (s.onReply i req outcome written).Served io answers' pushed := by
  obtain ⟨hi, -⟩ := List.getElem?_eq_some_iff.mp ht
  have hphase : s.phase.pastLoop = false := by
    refine Bool.eq_false_iff.mpr fun hpast => ?_
    rw [(h.quiet hpast).2] at ht
    contradiction
  obtain rfl : pushed = [] := h.loop hphase
  have hcap : s.permits + 1 + (s.tasks.eraseIdx i).length = maxInflight := by
    have hcap := h.cap
    rw [List.length_eraseIdx_of_lt hi]
    omega
  have hpending : (requestId req :: (s.phase.held ++
      (s.tasks.eraseIdx i).map fun t => requestId t.req)).Perm s.pending :=
    List.perm_middle.symm.trans ((perm_pending_eraseIdx ht).append_left _)
  cases written with
  | true =>
      refine ⟨_, h.sent rfl rfl rfl ?_ hphase hcap⟩
      rw [requestId_respond]
      exact hpending
  | false =>
      refine ⟨answers, h.wire, ?_, fun _ => rfl, fun hpast => ?_, hcap⟩
      · refine .trans ?_ h.balance
        simp only [ControlServer.onReply, pending, List.append_assoc, List.singleton_append,
          Bool.false_eq_true, if_false]
        exact (hpending.append_left _).append_left _
      · exact absurd hpast (Bool.eq_false_iff.mp hphase)

/-- A handler that comes or goes leaves the account. -/
theorem Served.handled (h : s.Served io answers pushed) {i : Nat} {req : Json} {o : Option Outcome}
    (ht : s.tasks[i]? = some ⟨req, o⟩) (o' : Option Outcome) :
    ({ s with tasks := s.tasks.set i ⟨req, o'⟩ } : ControlServer).Served io answers pushed := by
  obtain ⟨hi, hti⟩ := List.getElem?_eq_some_iff.mp ht
  have hmap : (s.tasks.set i ⟨req, o'⟩).map (fun t => requestId t.req) =
      s.tasks.map fun t => requestId t.req := by
    rw [List.map_set]
    refine List.ext_getElem (by simp) fun n hn hn' => ?_
    rw [List.getElem_set]
    split
    · next heq =>
      subst heq
      rw [List.getElem_map, hti]
    · rfl
  refine ⟨h.wire, ?_, h.loop, fun hpast => ?_, ?_⟩
  · simpa only [pending, hmap] using h.balance
  · have hquiet := (h.quiet hpast).2
    rw [hquiet] at ht
    contradiction
  · rw [List.length_set]
    exact h.cap

/-- **The step rule**: every event keeps the books. -/
theorem Served.step (h : s.Served io answers pushed) (hstep : step io s event = some s') :
    ∃ answers' pushed', s'.Served io answers' pushed' := by
  unfold ControlServer.step at hstep
  split at hstep
  · next hphase => exact Option.some.inj hstep ▸ ⟨_, _, h.onRequest hphase _⟩
  · next hphase => exact Option.some.inj hstep ▸ ⟨_, _, h.answer hphase rfl _⟩
  · exact Option.some.inj hstep ▸ ⟨_, _, h.close⟩
  · next hphase =>
    obtain ⟨answers', h'⟩ := h.onAnswered hphase _
    exact Option.some.inj hstep ▸ ⟨_, _, h'⟩
  · next u hphase =>
    split at hstep
    · next htasks =>
      have htasks : s.tasks = [] := List.isEmpty_iff.mp htasks
      have hloop : pushed = [] := h.loop (by rw [hphase]; rfl)
      refine Option.some.inj hstep ▸ ⟨answers, pushed, h.wire, ?_, fun _ => hloop, fun _ => ?_,
        h.cap⟩
      · simpa only [pending, hphase, ServePhase.held] using h.balance
      · simp [pending, ServePhase.held, htasks]
    · contradiction
  · next frame written hphase =>
    have hpast : s.phase.pastLoop = true := by rw [hphase]; rfl
    cases written with
    | true =>
        refine Option.some.inj hstep ▸ ⟨answers, pushed ++ [frame], ?_, h.balance, fun hloop => ?_,
          h.quiet, h.cap⟩
        · simp [h.wire]
        · exact absurd (hpast.symm.trans hloop) nofun
    | false => exact Option.some.inj hstep ▸ ⟨_, _, h.close⟩
  · exact Option.some.inj hstep ▸ ⟨_, _, h.close⟩
  · split at hstep
    · next ht => exact Option.some.inj hstep ▸ ⟨_, _, h.handled ht _⟩
    · contradiction
  · split at hstep
    · next ht =>
      obtain ⟨answers', h'⟩ := h.onReply ht _
      exact Option.some.inj hstep ▸ ⟨_, _, h'⟩
    · contradiction
  · contradiction
  · exact Option.some.inj hstep ▸ ⟨_, _, h.close⟩
  · contradiction

/-- Every run has its account. -/
theorem served_of_run {events : List ServeEvent} (hrun : run (step io) (start io) events = some s) :
    ∃ answers pushed, s.Served io answers pushed :=
  run_invariant (I := fun s => ∃ answers pushed, s.Served io answers pushed)
    (fun _ _ _ ⟨_, _, h⟩ hstep => h.step hstep) ⟨_, _, served_start io⟩ hrun

namespace Example

def daemon : ControlIo where
  hello := .obj [("api", .str "mcpmesh-local/1")]
  openSession _ := .error "missing field"

def request (id : Int) (method : String) : Json := .obj [("id", .num id 0), ("method", .str method)]

/-- Two requests, the second of which is answered before the first; a stream is
asked for between them. -/
def asked : List ServeEvent :=
  [.recv (.frame (request 1 "status")), .recv (.frame (request 2 "status")),
    .handled 1 (.ok (.obj [])), .recv (.frame (request 3 "subscribe"))]

end Example

/-- A request for a task of its own. -/
def Ordinary (req : Json) : Prop :=
  methodOf req ≠ some "shutdown" ∧ methodOf req ≠ some "open_session" ∧
    methodOf req ≠ some "subscribe"

/-- What is neither a subscription nor a session is spawned. -/
theorem onRequest_of_ordinary {req : Json} (h : Ordinary req) :
    s.onRequest io req = s.spawn req := by
  unfold onRequest
  split
  · exact absurd ‹_› h.1
  · exact absurd ‹_› h.2.1
  · exact absurd ‹_› h.2.2
  · rfl

/-- **The cap is exact.**  Never do more than `maxInflight` requests run, a
request is refused when that many do, and any other starts at once, whatever the
tasks are at. -/
theorem refused_iff_full (io : ControlIo) {events : List ServeEvent}
    (hrun : run (step io) (start io) events = some s) (hserving : s.phase = .serving) {req : Json}
    (hreq : Ordinary req) :
    s.tasks.length ≤ maxInflight ∧ ∃ s', step io s (.recv (.frame req)) = some s' ∧
      if s.tasks.length = maxInflight then
        s'.phase = .answering (refusal req) false ∧ s'.tasks = s.tasks
      else s'.phase = .serving ∧ s'.tasks = s.tasks ++ [⟨req, none⟩] := by
  obtain ⟨answers, pushed, h⟩ := served_of_run hrun
  have hcap := h.cap
  refine ⟨by omega, s.spawn req, by simp only [step, hserving, onRequest_of_ordinary hreq], ?_⟩
  cases hpermits : s.permits with
  | zero =>
      rw [if_pos (by omega), spawn, hpermits]
      exact ⟨rfl, rfl⟩
  | succ permits =>
      rw [if_neg (by omega), spawn, hpermits]
      exact ⟨hserving, rfl⟩

theorem refused_iff_full_example :
    ∃ s, run (step Example.daemon) (start Example.daemon) (Example.asked.take 2) = some s ∧
      s.tasks.length ≤ maxInflight ∧
      ∃ s', step Example.daemon s (.recv (.frame (Example.request 3 "status"))) = some s' ∧
        if s.tasks.length = maxInflight then
          s'.phase = .answering (refusal (Example.request 3 "status")) false ∧ s'.tasks = s.tasks
        else s'.phase = .serving ∧
          s'.tasks = s.tasks ++ [⟨Example.request 3 "status", none⟩] := by
  have hrun : run (step Example.daemon) (start Example.daemon) (Example.asked.take 2) = some _ :=
    rfl
  exact ⟨_, hrun, refused_iff_full Example.daemon hrun rfl ⟨by decide, by decide, by decide⟩⟩

/-! ## the upgrade -/

/-- The events that the tasks have before them. -/
def work (s : ControlServer) : Nat := (s.tasks.map fun t => if t.outcome.isNone then 2 else 1).sum

/-- The work without one task. -/
theorem work_eraseIdx {tasks : List RequestTask} {i : Nat} {t : RequestTask}
    (ht : tasks[i]? = some t) (f : RequestTask → Nat) :
    f t + ((tasks.eraseIdx i).map f).sum = (tasks.map f).sum := by
  obtain ⟨hi, rfl⟩ := List.getElem?_eq_some_iff.mp ht
  rw [← List.sum_cons, ← List.map_cons]
  exact ((List.getElem_cons_eraseIdx_perm hi).map f).sum_eq

/-- The work with one task replaced. -/
theorem work_set {tasks : List RequestTask} {i : Nat} {t : RequestTask} (ht : tasks[i]? = some t)
    (t' : RequestTask) (f : RequestTask → Nat) :
    f t + ((tasks.set i t').map f).sum = f t' + (tasks.map f).sum := by
  obtain ⟨hi, -⟩ := List.getElem?_eq_some_iff.mp ht
  have hset : (tasks.set i t')[i]? = some t' := List.getElem?_set_self hi
  have h := work_eraseIdx hset f
  rw [List.eraseIdx_set_eq] at h
  rw [← h, ← work_eraseIdx ht f]
  omega

/-- A step towards the stream, or onto it. -/
theorem step_of_draining {u : Upgrade} (hphase : s.phase = .draining u)
    (hstep : step io s event = some s') (habort : event.isAbort = false) :
    (s'.phase = .draining u ∧ s'.work + 1 = s.work) ∨ (s.work = 0 ∧ s'.phase = .upgraded u) := by
  cases event with
  | recv inbound => simp [step, hphase] at hstep
  | answered written => simp [step, hphase] at hstep
  | eof => simp [step, hphase] at hstep
  | push frame written => simp [step, hphase] at hstep
  | streamEnd => simp [step, hphase] at hstep
  | abort => contradiction
  | handled i outcome =>
      simp only [step, hphase] at hstep
      split at hstep
      · next req ht =>
        obtain rfl := Option.some.inj hstep
        have h := work_set ht ⟨req, some outcome⟩ fun t => if t.outcome.isNone then 2 else 1
        simp only [Option.isNone_none, Option.isNone_some, if_true, Bool.false_eq_true,
          if_false] at h
        refine .inl ⟨rfl, ?_⟩
        simp only [work]
        omega
      · contradiction
  | reply i written =>
      simp only [step, hphase] at hstep
      split at hstep
      · next req outcome ht =>
        obtain rfl := Option.some.inj hstep
        have h := work_eraseIdx ht fun t => if t.outcome.isNone then 2 else 1
        simp only [Option.isNone_some, Bool.false_eq_true, if_false] at h
        have hafter : (s.onReply i req outcome written).phase = s.phase ∧
            (s.onReply i req outcome written).tasks = s.tasks.eraseIdx i := by
          cases written <;> exact ⟨rfl, rfl⟩
        refine .inl ⟨hafter.1.trans hphase, ?_⟩
        rw [work, hafter.2, work]
        omega
      · contradiction
  | reclaim =>
      simp only [step, hphase] at hstep
      split at hstep
      · next htasks =>
        obtain rfl := Option.some.inj hstep
        refine .inr ⟨?_, rfl⟩
        rw [work, List.isEmpty_iff.mp htasks]
        rfl
      · contradiction

/-- The tasks never block the way to the stream. -/
theorem exists_step_of_draining {u : Upgrade} (hphase : s.phase = .draining u) (io : ControlIo) :
    ∃ event s', event.isAbort = false ∧ step io s event = some s' := by
  cases htasks : s.tasks with
  | nil => exact ⟨.reclaim, { s with phase := .upgraded u }, rfl, by simp [step, hphase, htasks]⟩
  | cons t tasks =>
      obtain ⟨req, outcome⟩ := t
      cases outcome with
      | none => exact ⟨.handled 0 .panicked, _, rfl, by simp only [step, hphase, htasks]; rfl⟩
      | some outcome => exact ⟨.reply 0 true, _, rfl, by simp only [step, hphase, htasks]; rfl⟩

/-- **An upgrade waits for the requests in flight, and for nothing else.**  A run
from there to the stream exists, and every run that is not cut off by an abort
is on the stream after one event for each that the tasks had before them. -/
theorem upgrade_drains (io : ControlIo) {u : Upgrade} (hphase : s.phase = .draining u) :
    (∃ more s', run (step io) s more = some s' ∧ more.length = s.work + 1 ∧
      ∀ e ∈ more, e.isAbort = false) ∧
    ∀ more s', run (step io) s more = some s' → more.length = s.work + 1 →
      (∀ e ∈ more, e.isAbort = false) → s'.phase = .upgraded u := by
  generalize hwork : s.work = n
  induction n generalizing s with
  | zero =>
      constructor
      · obtain ⟨event, s', habort, hstep⟩ := exists_step_of_draining hphase io
        refine ⟨[event], s', ?_, rfl, by simpa using habort⟩
        rw [run_cons, hstep]
        rfl
      · intro more s' hrun hlen habort
        obtain ⟨event, rfl⟩ := List.length_eq_one_iff.mp hlen
        obtain ⟨s₁, hstep, hrun⟩ := run_cons_eq_some.mp hrun
        obtain rfl : s₁ = s' := Option.some.inj hrun
        obtain ⟨-, hless⟩ | ⟨-, hup⟩ :=
          step_of_draining hphase hstep (habort event List.mem_cons_self)
        · omega
        · exact hup
  | succ n ih =>
      constructor
      · obtain ⟨event, s₁, habort, hstep⟩ := exists_step_of_draining hphase io
        obtain ⟨hphase₁, hless⟩ | ⟨hzero, -⟩ := step_of_draining hphase hstep habort
        · obtain ⟨⟨more, s', hrun, hlen, hmore⟩, -⟩ := ih hphase₁ (by omega)
          refine ⟨event :: more, s', ?_, by rw [List.length_cons, hlen], ?_⟩
          · rw [run_cons, hstep]
            exact hrun
          · exact List.forall_mem_cons.mpr ⟨habort, hmore⟩
        · omega
      · intro more s' hrun hlen habort
        cases more with
        | nil => simp at hlen
        | cons event more =>
            obtain ⟨s₁, hstep, hrun⟩ := run_cons_eq_some.mp hrun
            rw [List.forall_mem_cons] at habort
            obtain ⟨hphase₁, hless⟩ | ⟨hzero, -⟩ := step_of_draining hphase hstep habort.1
            · refine (ih hphase₁ (by omega)).2 more s' hrun ?_ habort.2
              rw [List.length_cons] at hlen
              omega
            · omega

/-- The run to the stream from where the two tasks are at work. -/
theorem upgrade_drains_example :
    ∃ s, run (step Example.daemon) (start Example.daemon) Example.asked = some s ∧ s.work = 3 ∧
      ∀ more s', run (step Example.daemon) s more = some s' → more.length = s.work + 1 →
        (∀ e ∈ more, e.isAbort = false) → s'.phase = .upgraded .subscribe :=
  ⟨_, rfl, rfl, (upgrade_drains Example.daemon rfl).2⟩

end ControlServer

end Mcpmesh
