import Mcpmesh.Control.Serving

/-!
# Mcpmesh.Control.Exchange

A client that asks one thing at a time (`local-api/src/client.rs`), against one
connection of the control socket.

`request_value` writes a frame and takes the next frame it reads for the answer:
no id is compared.  That the answers of the server come in any order is
therefore harmless only because such a client never has two requests with it.
The calls are those of `request_value`: `open_session` and `open_stream` write
their frame and give the connection away, so they are no part of the exchange.
-/

namespace Mcpmesh

open Lib ControlApi

/-! ## the client -/

/-- `ClientError`, of a request. -/
inductive ClientError where
  | io
  | closed
  | malformed
  | api (err : Json)

/-- What `request_value` makes of what it reads; an I/O error comes first. -/
def clientResult : Except Unit (Option (Inbound Json)) → Except ClientError Json
  | .error _ => .error .io
  | .ok (some (.frame resp)) =>
      match resp.get "error" with
      | some err => .error (.api err)
      | none => .ok ((resp.get "result").getD .null)
  | .ok (some (.violation _)) => .error .malformed
  | .ok none => .error .closed

/-! ## the two parties -/

/-- What connects them, and what runs behind the server. -/
structure ControlLink extends ControlIo where
  /-- what the reader at the other end makes of a frame -/
  carries : Json → Inbound Json
  /-- how a handler may end -/
  handles : Json → Outcome → Prop

/-- `waiting` is the request that the client waits for the answer to, and `heard`
how many frames it has read. -/
structure Exchange where
  server : ControlServer
  toServer : List (Inbound Json)
  heard : Nat
  waiting : Option Json
  log : List (Json × Except ClientError Json)

inductive ExchangeEvent where
  | call (req : Json)
  | deliver
  | server (event : ServeEvent)
  /-- the client reads a frame -/
  | hear
  /-- the client reads the end of the stream, or its write or its read fails -/
  | hangup (failed : Bool)

namespace ControlLink

variable (link : ControlLink)

/-- A frame that the loop answers, by itself or in a task. -/
def Answered (req : Json) : Prop :=
  ∀ r, link.carries req = .frame r → methodOf r ≠ some "open_session" ∧
    methodOf r ≠ some "subscribe"

/-- The frames that answer a request: never a refusal. -/
inductive Gives (req : Json) : Json → Prop where
  | bad {v : Violation} : link.carries req = .violation v → Gives req (badFrame v)
  | stop {r : Json} : link.carries req = .frame r → methodOf r = some "shutdown" →
      Gives req (ok (requestId r) (.obj []))
  | task {r : Json} {outcome : Outcome} : link.carries req = .frame r → link.handles r outcome →
      Gives req (respond r outcome)

end ControlLink

namespace Exchange

variable (link : ControlLink) (x : Exchange)

/-- A client that has read the greeting. -/
def start : Exchange :=
  { server := .start link.toControlIo, toServer := [], heard := 1, waiting := none, log := [] }

/-- The call returns. -/
def done (req : Json) (read : Except Unit (Option (Inbound Json))) : Exchange :=
  { x with waiting := none, log := x.log ++ [(req, clientResult read)] }

/-- What a step of the server asks of the handlers. -/
def Allowed : ServeEvent → Prop
  | .recv _ => False
  | .handled i outcome => ∀ t, x.server.tasks[i]? = some t → link.handles t.req outcome
  | _ => True

/-- A step of one of the parties, as a relation: the handlers are not ours. -/
inductive Step : Exchange → ExchangeEvent → Exchange → Prop where
  | call {x : Exchange} {req : Json} : x.waiting = none → link.Answered req →
      Step x (.call req)
        { x with toServer := x.toServer ++ [link.carries req], waiting := some req }
  | deliver {x : Exchange} {inbound : Inbound Json} {rest : List (Inbound Json)}
      {server : ControlServer} : x.toServer = inbound :: rest →
      x.server.step link.toControlIo (.recv inbound) = some server →
      Step x .deliver { x with toServer := rest, server }
  | server {x : Exchange} {event : ServeEvent} {server : ControlServer} :
      x.Allowed link event → x.server.step link.toControlIo event = some server →
      Step x (.server event) { x with server }
  | hear {x : Exchange} {req frame : Json} : x.waiting = some req →
      x.server.wire[x.heard]? = some frame →
      Step x .hear { x.done req (.ok (some (link.carries frame))) with heard := x.heard + 1 }
  | hangup {x : Exchange} {req : Json} {failed : Bool} : x.waiting = some req →
      x.server.phase = .ended → x.server.wire[x.heard]? = none →
      Step x (.hangup failed) (x.done req (if failed then .error () else .ok none))

/-- The exchanges that a client can have, whatever the order of the steps. -/
inductive Reachable : Exchange → Prop where
  | start : Reachable (start link)
  | step {x x' : Exchange} {event : ExchangeEvent} : Reachable x → Step link x event x' →
      Reachable x'

/-! ## where the request is -/

/-- The one request of the client is in one place. -/
inductive Place (x : Exchange) : Option Json → Prop where
  | idle : x.server.phase = .serving → x.server.tasks = [] → x.toServer = [] →
      x.server.wire.length = x.heard → Place x none
  | sent {req : Json} : link.Answered req → x.server.phase = .serving → x.server.tasks = [] →
      x.toServer = [link.carries req] → x.server.wire.length = x.heard → Place x (some req)
  | running {req r : Json} {outcome : Option Outcome} : link.carries req = .frame r →
      (∀ o, outcome = some o → link.handles r o) → x.server.phase = .serving →
      x.server.tasks = [⟨r, outcome⟩] → x.toServer = [] → x.server.wire.length = x.heard →
      Place x (some req)
  | answering {req resp : Json} {last : Bool} : link.Gives req resp →
      x.server.phase = .answering resp last → x.server.tasks = [] → x.toServer = [] →
      x.server.wire.length = x.heard → Place x (some req)
  /-- the answer is on the wire -/
  | arrived {req resp : Json} : link.Gives req resp → x.server.tasks = [] →
      (x.server.phase = .serving ∧ x.toServer = [] ∨ x.server.phase = .ended) →
      x.server.wire[x.heard]? = some resp → x.server.wire.length = x.heard + 1 → Place x (some req)
  /-- the task could not write its answer -/
  | lost {req : Json} : x.server.phase = .serving → x.server.tasks = [] → x.toServer = [] →
      x.server.wire.length = x.heard → Place x (some req)
  | ended {waiting : Option Json} : x.server.phase = .ended → x.server.wire.length = x.heard →
      Place x waiting

end Exchange

/-! ## the steps of the server -/

namespace ControlServer

variable {io : ControlIo} {s s' : ControlServer} {event : ServeEvent}

/-- Without a task, a loop that reads nothing can only end. -/
theorem step_of_empty (hphase : s.phase = .serving) (htasks : s.tasks = [])
    (hrecv : ∀ inbound, event ≠ .recv inbound) (hstep : step io s event = some s') :
    s' = s.close := by
  cases event with
  | recv inbound => exact absurd rfl (hrecv inbound)
  | eof => simpa [step, hphase] using hstep.symm
  | abort => simpa [step, hphase] using hstep.symm
  | _ => simp [step, hphase, htasks] at hstep

/-- An ended connection takes no step. -/
theorem step_of_ended (hphase : s.phase = .ended) (htasks : s.tasks = []) :
    step io s event ≠ some s' := by
  cases event <;> simp [step, hphase, htasks]

/-- While its response goes out, a connection closes or has written it. -/
theorem step_of_answering {resp : Json} {last : Bool} (hphase : s.phase = .answering resp last)
    (htasks : s.tasks = []) (hstep : step io s event = some s') :
    s' = s.close ∨ s' = s.onAnswered resp last true := by
  cases event with
  | answered written =>
      obtain rfl : s.onAnswered resp last written = s' := by simpa [step, hphase] using hstep
      cases written with
      | true => exact .inr rfl
      | false => exact .inl rfl
  | abort => exact .inl (by simpa [step, hphase] using hstep.symm)
  | _ => simp [step, hphase, htasks] at hstep

/-- A connection with one request in hand finishes it. -/
theorem step_of_single {r : Json} {outcome : Option Outcome} (hphase : s.phase = .serving)
    (htasks : s.tasks = [⟨r, outcome⟩]) (hrecv : ∀ inbound, event ≠ .recv inbound)
    (hstep : step io s event = some s') :
    s' = s.close ∨
      (∃ o, event = .handled 0 o ∧ s' = { s with tasks := [⟨r, some o⟩] }) ∨
      ∃ o written, outcome = some o ∧ s' = s.onReply 0 r o written := by
  cases event with
  | recv inbound => exact absurd rfl (hrecv inbound)
  | eof => exact .inl (by simpa [step, hphase] using hstep.symm)
  | abort => exact .inl (by simpa [step, hphase] using hstep.symm)
  | handled i o =>
      simp only [step, hphase, htasks] at hstep
      cases i with
      | zero =>
          cases outcome with
          | none =>
              refine .inr (.inl ⟨o, rfl, ?_⟩)
              rw [← Option.some.inj hstep, hphase]
              rfl
          | some outcome => simp at hstep
      | succ i => simp at hstep
  | reply i written =>
      simp only [step, hphase, htasks] at hstep
      cases i with
      | zero =>
          cases outcome with
          | none => simp at hstep
          | some outcome => exact .inr (.inr ⟨outcome, written, rfl, (Option.some.inj hstep).symm⟩)
      | succ i => simp at hstep
  | _ => simp [step, hphase] at hstep

end ControlServer

/-! ## the exchange -/

namespace Exchange

variable {link : ControlLink} {x x' : Exchange} {event : ExchangeEvent}

/-- What the log says of a call that has returned. -/
def Matched (link : ControlLink) (call : Json × Except ClientError Json) : Prop :=
  (call.2 = .error .closed ∨ call.2 = .error .io) ∨
    ∃ resp, link.Gives call.1 resp ∧ call.2 = clientResult (.ok (some (link.carries resp)))

structure Inv (link : ControlLink) (x : Exchange) : Prop where
  served : ∃ answers pushed, x.server.Served link.toControlIo answers pushed
  place : x.Place link x.waiting
  log : ∀ call ∈ x.log, Matched link call

/-- The client and its connection begin in step. -/
theorem inv_start (link : ControlLink) : (start link).Inv link where
  served := ⟨_, _, ControlServer.served_start link.toControlIo⟩
  place := .idle rfl rfl rfl rfl
  log := nofun

/-- Where the request is after a step of the server. -/
theorem place_server {server : ControlServer} {e : ServeEvent} (hplace : x.Place link x.waiting)
    (htasks : x.server.phase = .ended → x.server.tasks = []) (hallowed : x.Allowed link e)
    (hstep : x.server.step link.toControlIo e = some server) :
    ({ x with server } : Exchange).Place link x.waiting := by
  have hrecv : ∀ inbound, e ≠ .recv inbound := by
    rintro inbound rfl
    exact hallowed
  generalize x.waiting = waiting at hplace ⊢
  cases hplace with
  | idle hphase hnone hsent hwire =>
      obtain rfl := ControlServer.step_of_empty hphase hnone hrecv hstep
      exact .ended rfl hwire
  | sent hanswered hphase hnone hsent hwire =>
      obtain rfl := ControlServer.step_of_empty hphase hnone hrecv hstep
      exact .ended rfl hwire
  | lost hphase hnone hsent hwire =>
      obtain rfl := ControlServer.step_of_empty hphase hnone hrecv hstep
      exact .ended rfl hwire
  | ended hphase hwire => exact absurd hstep (ControlServer.step_of_ended hphase (htasks hphase))
  | arrived hgives hnone hphase hframe hwire =>
      obtain ⟨hphase, -⟩ | hphase := hphase
      · obtain rfl := ControlServer.step_of_empty hphase hnone hrecv hstep
        exact .arrived hgives rfl (.inr rfl) hframe hwire
      · exact absurd hstep (ControlServer.step_of_ended hphase hnone)
  | @answering req resp last hgives hphase hnone hsent hwire =>
      obtain rfl | rfl := ControlServer.step_of_answering hphase hnone hstep
      · exact .ended rfl hwire
      · cases last with
        | false =>
            refine .arrived hgives hnone (.inl ⟨rfl, hsent⟩) ?_ ?_
            · exact (congrArg _ hwire.symm).trans List.getElem?_concat_length
            · exact (List.length_append ..).trans (congrArg (· + 1) hwire)
        | true =>
            refine .arrived hgives rfl (.inr rfl) ?_ ?_
            · exact (congrArg _ hwire.symm).trans List.getElem?_concat_length
            · exact (List.length_append ..).trans (congrArg (· + 1) hwire)
  | @running req r outcome hcarries hhandles hphase hone hsent hwire =>
      obtain rfl | ⟨o, rfl, rfl⟩ | ⟨o, written, rfl, rfl⟩ :=
        ControlServer.step_of_single hphase hone hrecv hstep
      · exact .ended rfl hwire
      · have ho : link.handles r o := hallowed ⟨r, outcome⟩ (by rw [hone]; rfl)
        exact .running hcarries (fun o' heq => Option.some.inj heq ▸ ho) hphase rfl hsent hwire
      · have hnone : x.server.tasks.eraseIdx 0 = [] := by rw [hone]; rfl
        cases written with
        | true =>
            refine .arrived (.task hcarries (hhandles o rfl)) hnone (.inl ⟨hphase, hsent⟩) ?_ ?_
            · exact (congrArg _ hwire.symm).trans List.getElem?_concat_length
            · exact (List.length_append ..).trans (congrArg (· + 1) hwire)
        | false => exact .lost hphase hnone hsent hwire

/-- Where the request is once the loop has read it. -/
theorem place_deliver {server : ControlServer} {inbound : Inbound Json}
    {rest : List (Inbound Json)} (hplace : x.Place link x.waiting)
    (hcap : x.server.permits + x.server.tasks.length = maxInflight)
    (hsent : x.toServer = inbound :: rest)
    (hstep : x.server.step link.toControlIo (.recv inbound) = some server) :
    ({ x with toServer := rest, server } : Exchange).Place link x.waiting := by
  have hserving : x.server.phase = .serving := by
    unfold ControlServer.step at hstep
    split at hstep <;> first | assumption | contradiction
  generalize x.waiting = waiting at hplace ⊢
  cases hplace with
  | idle _ _ hnil _ | running _ _ _ _ hnil _ | answering _ _ _ hnil _ | lost _ _ hnil _ =>
      rw [hnil] at hsent
      contradiction
  | ended hphase _ => exact absurd (hserving.symm.trans hphase) nofun
  | arrived _ _ hphase _ _ =>
      obtain ⟨-, hnil⟩ | hphase := hphase
      · rw [hnil] at hsent
        contradiction
      · exact absurd (hserving.symm.trans hphase) nofun
  | @sent req hanswered hphase hnone hcarries hwire =>
      obtain ⟨hinbound, rfl⟩ := List.cons.inj (hcarries.symm.trans hsent)
      cases inbound with
      | violation v =>
          obtain rfl : x.server.answer .null (badFrame v) false = server := by
            simpa [ControlServer.step, hserving] using hstep
          exact .answering (.bad hinbound) rfl hnone rfl hwire
      | frame r =>
          obtain rfl : x.server.onRequest link.toControlIo r = server := by
            simpa [ControlServer.step, hserving] using hstep
          obtain ⟨hopen, hsubscribe⟩ := hanswered r hinbound
          unfold ControlServer.onRequest
          split
          · next hmethod => exact .answering (.stop hinbound hmethod) rfl hnone rfl hwire
          · contradiction
          · contradiction
          · have hpermits : x.server.permits = 31 + 1 := by rw [hnone] at hcap; exact hcap
            rw [ControlServer.spawn, hpermits]
            refine .running hinbound ?_ hserving (congrArg (· ++ [⟨r, none⟩]) hnone) rfl hwire
            intro outcome hanswer
            contradiction

/-- A step keeps the client and its connection in step. -/
theorem Inv.step (h : x.Inv link) (hstep : Step link x event x') : x'.Inv link := by
  obtain ⟨answers, pushed, hserved⟩ := h.served
  have hplace := h.place
  cases hstep with
  | @call req hidle hanswered =>
      refine ⟨h.served, ?_, h.log⟩
      rw [hidle] at hplace
      cases hplace with
      | idle hphase hnone hnil hwire =>
          exact .sent hanswered hphase hnone (congrArg (· ++ _) hnil) hwire
      | ended hphase hwire => exact .ended hphase hwire
  | deliver hsent hserver =>
      obtain ⟨answers', pushed', hserved'⟩ := hserved.step hserver
      exact ⟨⟨_, _, hserved'⟩, place_deliver hplace hserved.cap hsent hserver, h.log⟩
  | server hallowed hserver =>
      obtain ⟨answers', pushed', hserved'⟩ := hserved.step hserver
      have htasks : x.server.phase = .ended → x.server.tasks = [] := fun hphase =>
        (hserved.quiet (by rw [hphase]; rfl)).2
      exact ⟨⟨_, _, hserved'⟩, place_server hplace htasks hallowed hserver, h.log⟩
  | @hear req frame hwaiting hframe =>
      rw [hwaiting] at hplace
      have hlt : x.heard < x.server.wire.length := (List.getElem?_eq_some_iff.mp hframe).1
      cases hplace with
      | sent _ _ _ _ hwire => omega
      | running _ _ _ _ _ hwire => omega
      | answering _ _ _ _ hwire => omega
      | lost _ _ _ hwire => omega
      | ended _ hwire => omega
      | @arrived req' resp hgives hnone hphase hresp hwire =>
          obtain rfl : frame = resp := Option.some.inj (hframe.symm.trans hresp)
          refine ⟨h.served, ?_, fun call hcall => ?_⟩
          · obtain ⟨hphase, hnil⟩ | hphase := hphase
            · exact .idle hphase hnone hnil hwire
            · exact .ended hphase hwire
          · obtain hcall | hcall := List.mem_append.mp hcall
            · exact h.log call hcall
            · obtain rfl := List.mem_singleton.mp hcall
              exact .inr ⟨frame, hgives, rfl⟩
  | @hangup req failed hwaiting hended hnone =>
      refine ⟨h.served, ?_, fun call hcall => ?_⟩
      · rw [hwaiting] at hplace
        have hle : x.server.wire.length ≤ x.heard := List.getElem?_eq_none_iff.mp hnone
        cases hplace with
        | ended hphase hwire => exact .ended hphase hwire
        | arrived _ _ _ _ hwire => omega
        | sent _ hphase _ _ _ => exact absurd (hended.symm.trans hphase) nofun
        | running _ _ hphase _ _ _ => exact absurd (hended.symm.trans hphase) nofun
        | answering _ hphase _ _ _ => exact absurd (hended.symm.trans hphase) nofun
        | lost hphase _ _ _ => exact absurd (hended.symm.trans hphase) nofun
      · obtain hcall | hcall := List.mem_append.mp hcall
        · exact h.log call hcall
        · obtain rfl := List.mem_singleton.mp hcall
          cases failed with
          | false => exact .inl (.inl rfl)
          | true => exact .inl (.inr rfl)

/-- **A client that asks one thing at a time gets the answer to what it asked.**
Every call that has returned was answered by the server from that very request,
or the connection was closed under it; none was refused for the cap. -/
theorem serial_client_is_matched (link : ControlLink) (h : Reachable link x) :
    x.server.tasks.length ≤ 1 ∧ ∀ call ∈ x.log,
      (call.2 = .error .closed ∨ call.2 = .error .io) ∨
        ∃ resp, link.Gives call.1 resp ∧
          call.2 = clientResult (.ok (some (link.carries resp))) := by
  have hinv : x.Inv link := by
    induction h with
    | start => exact inv_start link
    | step _ hstep ih => exact ih.step hstep
  refine ⟨?_, hinv.log⟩
  have hplace := hinv.place
  generalize x.waiting = waiting at hplace
  cases hplace with
  | ended hphase _ =>
      obtain ⟨answers, pushed, hserved⟩ := hinv.served
      rw [(hserved.quiet (by rw [hphase]; rfl)).2]
      exact Nat.zero_le 1
  | running _ _ _ hone _ _ => rw [hone]; exact le_rfl
  | idle _ hnone _ _ | lost _ hnone _ _ | arrived _ hnone _ _ _ | answering _ _ hnone _ _
  | sent _ _ hnone _ _ => rw [hnone]; exact Nat.zero_le 1

namespace Example

def direct : ControlLink :=
  { ControlServer.Example.daemon with carries := .frame, handles := fun _ o => o = .ok (.obj []) }

def asking : Json := ControlServer.Example.request 1 "status"

/-- A call that is answered. -/
theorem answered : ∃ x, Reachable direct x ∧ x.log.length = 1 := by
  have hanswered : direct.Answered asking := by
    rintro r ⟨⟩
    exact ⟨by decide, by decide⟩
  have hcall : Reachable direct _ := .step .start (.call rfl hanswered)
  have hread : Reachable direct _ := .step hcall (.deliver rfl rfl)
  have hhandled : Reachable direct _ :=
    @Reachable.step _ _ _ (.server (.handled 0 (.ok (.obj [])))) hread
      (.server (by rintro t ⟨⟩; rfl) rfl)
  have hreply : Reachable direct _ :=
    @Reachable.step _ _ _ (.server (.reply 0 true)) hhandled (.server trivial rfl)
  exact ⟨_, .step hreply (.hear rfl rfl), rfl⟩

end Example

theorem serial_client_is_matched_example :
    ∃ x, Reachable Example.direct x ∧ x.log.length = 1 ∧ x.server.tasks.length ≤ 1 ∧
      ∀ call ∈ x.log, (call.2 = .error .closed ∨ call.2 = .error .io) ∨
        ∃ resp, Example.direct.Gives call.1 resp ∧
          call.2 = clientResult (.ok (some (Example.direct.carries resp))) := by
  obtain ⟨x, hx, hlog⟩ := Example.answered
  exact ⟨x, hx, hlog, serial_client_is_matched Example.direct hx⟩

end Exchange

end Mcpmesh
