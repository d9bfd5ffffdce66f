import Mcpmesh.Backends.Identity
import Mcpmesh.Lib.Keyed
import Mcpmesh.Lib.Run

/-!
# Mcpmesh.Backends.Pump

One proxied session between a caller and a local server (`pump`,
`node/src/backends/mod.rs`), with its rate gate (`node/src/limits.rs`) and its
request auditor (`node/src/audit/log.rs`).

The first frame is written before the two directions start.  From then on a
caller's frame is cleaned, metered, audited and written; a server's frame is
audited and sent.  The directions run concurrently, so a session is a step
machine whose steps are the frames as they arrive.

What a bucket answers is floating point and shared with other sessions; here it
is whatever `check` says, on a state that others may change at any time.
-/

namespace Mcpmesh

open Lib

/-! ## records -/

/-- A record of the kind `request`, with the fields it can have. -/
structure AuditRecord where
  ts : String
  peer : Option String
  service : String
  method : String
  tool : Option String
  argsHash : String
  bytesOut : Option Nat
  status : Option String
  latencyMs : Option Nat
  principal : Option String
  deriving DecidableEq

/-- A request that waits for its answer. -/
structure PendingRequest where
  method : String
  tool : Option String
  argsHash : String
  started : Nat
  deriving DecidableEq

/-- The state of a `RequestAuditor`: what waits, by the text of its id; whether a
dropped notification was reported since the last line; what was recorded. -/
structure AuditState where
  pending : Keyed (Prod.fst : String × PendingRequest → String)
  dropReported : Bool
  records : List AuditRecord

/-- What a session is set up with. -/
structure ProxySession (σ : Type) where
  /-- `RateLimiter::check`. -/
  check : σ → EndpointId → Nat → Except Nat Unit × σ
  /-- The text `serde_json` writes. -/
  text : Json → String
  /-- `blake3::hash`, in hex. -/
  blake3 : List UInt8 → String
  /-- `now_ts`. -/
  ts : Nat → String
  endpoint : Option EndpointId
  peerMeta : Option Json
  peer : Option String
  service : String
  principal : Option String

def Json.hasMethod (frame : Json) : Bool := (frame.get "method").isSome

/-- `frame.get("id").filter(|v| !v.is_null())`. -/
def Json.idOf (frame : Json) : Option Json :=
  match frame.get "id" with
  | some .null => none
  | id => id

/-- The name of the tool a `tools/call` names. -/
def toolOf (method : String) (frame : Json) : Option String :=
  if method = "tools/call" then ((frame.get "params").bind (·.get "name")).bind Json.asStr
  else none

namespace ProxySession

variable {σ : Type} (S : ProxySession σ)

/-- `RateGate::admit`. -/
def admitFrame (limiter : σ) (now : Nat) : Except Nat Unit × σ :=
  match S.endpoint with
  | some eid => S.check limiter eid now
  | none => (.ok (), limiter)

/-- The arguments without what the daemon wrote into their `_meta`. -/
def ownArgs (params : Json) : Json :=
  match (params.get "_meta").bind Json.asObject with
  | some entries =>
      if entries.any fun e => reserved e.1 then
        if (retainUnreserved entries).isEmpty then
          params.mapObject fun ps => ps.filter fun e => e.1 ≠ "_meta"
        else params.mapObject (modifyEntry "_meta" (.mapObject retainUnreserved))
      else params
  | none => params

/-- `args_hash`. -/
def argsHash (params : Json) : String :=
  "blake3:" ++ S.blake3 (S.text (ownArgs params)).toUTF8.data.toList

def proxiedNotification (now : Nat) (method : String) (tool : Option String) (argsHash : String) :
    AuditRecord :=
  { ts := S.ts now, peer := S.peer, service := S.service, method, tool, argsHash
    bytesOut := none, status := none, latencyMs := none, principal := S.principal }

def proxiedRequest (now : Nat) (p : PendingRequest) (bytesOut : Nat) (status : String) :
    AuditRecord :=
  { ts := S.ts now, peer := S.peer, service := S.service, method := p.method, tool := p.tool
    argsHash := p.argsHash, bytesOut := some bytesOut, status := some status
    latencyMs := some (now - p.started), principal := S.principal }

/-! ## the auditor -/

/-- `RequestAuditor::on_dropped`: once until a line gets through. -/
def onDropped (a : AuditState) (now : Nat) (frame : Json) : AuditState :=
  if a.dropReported then a
  else
    let a := { a with dropReported := true }
    match (frame.get "method").bind Json.asStr with
    | none => a
    | some method =>
        let record := S.proxiedNotification now method (toolOf method frame)
          (S.argsHash ((frame.get "params").getD .null))
        { a with records := a.records ++ [{ record with status := some "rate_limited" }] }

/-- `RequestAuditor::on_request`: a request waits for its answer, a notification
is recorded. -/
def onRequest (a : AuditState) (now : Nat) (frame : Json) : AuditState :=
  let a := { a with dropReported := false }
  match (frame.get "method").bind Json.asStr with
  | none => a
  | some method =>
      let tool := toolOf method frame
      let argsHash := S.argsHash ((frame.get "params").getD .null)
      match frame.idOf with
      | some id =>
          { a with pending := a.pending.insert (S.text id, ⟨method, tool, argsHash, now⟩) }
      | none =>
          { a with records := a.records ++ [S.proxiedNotification now method tool argsHash] }

/-- The status of an answer. -/
def statusOf (frame : Json) : String := if (frame.get "error").isSome then "error" else "ok"

/-- `RequestAuditor::on_response`: an answer completes the request that waits
under its id. -/
def onResponse (a : AuditState) (now : Nat) (frame : Json) (bytesOut : Nat) : AuditState :=
  if frame.hasMethod then a
  else
    match frame.idOf with
    | none => a
    | some id =>
        match a.pending.lookup (S.text id) with
        | none => a
        | some (_, p) =>
            { a with
              pending := a.pending.remove (S.text id)
              records := a.records ++ [S.proxiedRequest now p bytesOut (statusOf frame)] }

end ProxySession

/-! ## the session -/

/-- What became of a caller's frame. -/
inductive Fate where
  | throttled
  | forwarded
  /-- the write failed: the server is gone -/
  | cut
  deriving DecidableEq

/-- A frame of the caller after the first, as it was cleaned, with the answer of
its own `admit` call and its fate. -/
structure Handled where
  frame : Json
  verdict : Option (Except Nat Unit)
  fate : Fate

/-- A session under way: `reading` while the caller's direction reads, `ended`
once the server's output has.  `handled` and `served` are ghosts: the frames of
the caller and of the server so far. -/
structure Pump (σ : Type) where
  limiter : σ
  audit : AuditState
  warned : Bool
  toServer : List Json
  toCaller : List Json
  reading : Bool
  ended : Bool
  handled : List Handled
  served : List Json

inductive PumpEvent (σ : Type) where
  | caller (frame : Json) (now : Nat) (written : Bool)
  | callerEnd
  | server (frame : Json) (now : Nat) (sent : Bool)
  | serverEnd
  /-- other sessions use the limiter -/
  | elsewhere (limiter : σ)

/-- `synthesized_limited`. -/
def synthesizedLimited (id : Json) (retryAfterMs : Nat) : Json :=
  .obj [("error", .obj [("code", .num (-32053) 0),
      ("data", .obj [("retry_after_ms", .num retryAfterMs 0), ("source", .str "mcpmesh")]),
      ("message", .str "rate limited")]),
    ("id", id), ("jsonrpc", .str "2.0")]

namespace Pump

variable {σ : Type} (S : ProxySession σ)

/-- The first frame is written before anything is metered or audited. -/
def start (limiter : σ) (init : Json) : Pump σ :=
  { limiter, audit := ⟨.empty, false, []⟩, warned := false, toServer := [init]
    toCaller := [], reading := true, ended := false, handled := [], served := [] }

/-- An over-limit request is answered, an over-limit notification recorded. -/
def throttle (s : Pump σ) (now : Nat) (frame : Json) (retryAfterMs : Nat) : Pump σ :=
  let handled := s.handled ++ [Handled.mk frame (some (.error retryAfterMs)) .throttled]
  match frame.idOf with
  | some id =>
      { s with handled, toCaller := s.toCaller ++ [synthesizedLimited id retryAfterMs] }
  | none => { s with handled, audit := S.onDropped s.audit now frame }

/-- Audit, then write; a failed write ends the direction. -/
def forward (s : Pump σ) (now : Nat) (frame : Json) (verdict : Option (Except Nat Unit))
    (written : Bool) : Pump σ :=
  let audit := S.onRequest s.audit now frame
  if written then
    { s with
      audit, toServer := s.toServer ++ [frame]
      handled := s.handled ++ [⟨frame, verdict, .forwarded⟩] }
  else { s with audit, reading := false, handled := s.handled ++ [⟨frame, verdict, .cut⟩] }

/-- A cleaned frame of the caller. -/
def onCaller (s : Pump σ) (now : Nat) (frame : Json) (written : Bool) : Pump σ :=
  if frame.hasMethod then
    match S.admitFrame s.limiter now with
    | (.error retryAfterMs, limiter) => throttle S { s with limiter } now frame retryAfterMs
    | (.ok (), limiter) => forward S { s with limiter } now frame (some (.ok ())) written
  else forward S s now frame none written

/-- A frame of the server: counted and audited, then sent; a failed send ends
the session. -/
def onServer (s : Pump σ) (now : Nat) (frame : Json) (sent : Bool) : Pump σ :=
  { s with
    audit := S.onResponse s.audit now frame (S.text frame).utf8ByteSize
    toCaller := if sent then s.toCaller ++ [frame] else s.toCaller
    ended := !sent
    served := s.served ++ [frame] }

end Pump

/-- One step of a session; `none` where it cannot be taken. -/
def pumpStep {σ : Type} (S : ProxySession σ) (s : Pump σ) : PumpEvent σ → Option (Pump σ)
  | .caller frame now written =>
      if s.reading && !s.ended then do
        let (frame, impersonating) ← sanitizeCallerFrame frame S.peerMeta
        -- one warning for the session
        some (Pump.onCaller S { s with warned := s.warned || impersonating } now frame written)
      else none
  | .callerEnd => if s.reading && !s.ended then some { s with reading := false } else none
  | .server frame now sent => if s.ended then none else some (Pump.onServer S s now frame sent)
  | .serverEnd => if s.ended then none else some { s with ended := true }
  | .elsewhere limiter => some { s with limiter }

/-! ## what a step does -/

section Steps

variable {σ : Type} {S : ProxySession σ} {s s' : Pump σ} {event : PumpEvent σ}

/-- What a gate answered for a frame, and the limiter it left: only a frame with
a method asks. -/
inductive Gated (S : ProxySession σ) (s : Pump σ) (now : Nat) (frame : Json) :
    Option (Except Nat Unit) → σ → Prop where
  | asked {answer : Except Nat Unit} {limiter : σ} (hmethod : frame.hasMethod = true)
      (hverdict : S.admitFrame s.limiter now = (answer, limiter)) :
      Gated S s now frame (some answer) limiter
  | exempt (hmethod : frame.hasMethod = false) : Gated S s now frame none s.limiter

/-- What a step does. -/
inductive Pumped (S : ProxySession σ) (s : Pump σ) : PumpEvent σ → Pump σ → Prop where
  | throttle {frame clean : Json} {warned written : Bool} {now ms : Nat} {limiter : σ}
      (hclean : (sanitizeCallerFrame frame S.peerMeta).map Prod.fst = some clean)
      (hgate : Gated S s now clean (some (.error ms)) limiter) :
      Pumped S s (.caller frame now written) (.throttle S { s with warned, limiter } now clean ms)
  | forward {frame clean : Json} {warned written : Bool} {now : Nat} {limiter : σ}
      {verdict : Option (Except Nat Unit)}
      (hclean : (sanitizeCallerFrame frame S.peerMeta).map Prod.fst = some clean)
      (hgate : Gated S s now clean verdict limiter) (hpassed : ∀ ms, verdict ≠ some (.error ms))
      (hreading : s.reading = true) :
      Pumped S s (.caller frame now written)
        (.forward S { s with warned, limiter } now clean verdict written)
  | server (frame : Json) (now : Nat) (sent : Bool) :
      Pumped S s (.server frame now sent) (.onServer S s now frame sent)
  | quiet {event : PumpEvent σ} {reading : Bool} (limiter : σ) (ended : Bool)
      (hreading : reading = true → s.reading = true) :
      Pumped S s event { s with limiter, reading, ended }

/-- Each step of the pump is one of the listed ones. -/
theorem pumped_of_pumpStep (h : pumpStep S s event = some s') : Pumped S s event s' := by
  cases event with
  | caller frame now written =>
      obtain ⟨hopen, hs'⟩ := Option.ite_none_right_eq_some.mp h
      have hreading : s.reading = true := (Bool.and_eq_true_iff.mp hopen).1
      obtain ⟨⟨clean, impersonating⟩, hclean, hs'⟩ := Option.bind_eq_some_iff.mp hs'
      obtain rfl := Option.some.inj hs'
      have hclean' : (sanitizeCallerFrame frame S.peerMeta).map Prod.fst = some clean := by
        rw [hclean, Option.map_some]
      unfold Pump.onCaller
      split
      · next hmethod =>
        dsimp only
        split
        · next ms limiter hverdict => exact .throttle hclean' (.asked hmethod hverdict)
        · next limiter hverdict =>
          exact .forward hclean' (.asked hmethod hverdict) (by simp) hreading
      · next hmethod =>
        exact .forward hclean' (.exempt (by simpa using hmethod)) (by simp) hreading
  | callerEnd =>
      obtain ⟨-, hs'⟩ := Option.ite_none_right_eq_some.mp h
      obtain rfl := Option.some.inj hs'
      exact .quiet s.limiter s.ended (fun h => absurd h Bool.false_ne_true)
  | server frame now sent =>
      obtain ⟨-, hs'⟩ := Option.ite_none_left_eq_some.mp h
      obtain rfl := Option.some.inj hs'
      exact .server frame now sent
  | serverEnd =>
      obtain ⟨-, hs'⟩ := Option.ite_none_left_eq_some.mp h
      obtain rfl := Option.some.inj hs'
      exact .quiet s.limiter true id
  | elsewhere limiter =>
      obtain rfl := Option.some.inj h
      exact .quiet limiter s.ended id

end Steps

/-! ## metering -/

mutual

/-- The messages with a method in a frame, as deep as the strip descends. -/
def messagesIn : Json → Nat → List Json
  | .arr batch, depth => if depth < maxBatchDepth then messagesInElements batch (depth + 1) else []
  | frame, _ => if frame.hasMethod then [frame] else []

def messagesInElements : List Json → Nat → List Json
  | [], _ => []
  | element :: batch, depth => messagesIn element depth ++ messagesInElements batch depth

end

def messages (frame : Json) : List Json := messagesIn frame 0

namespace Handled

/-- Its own `admit` call answered that it may pass. -/
def admitted (h : Handled) : Bool :=
  match h.verdict with
  | some (.ok ()) => true
  | _ => false

/-- Not a batch. -/
def single (h : Handled) : Bool :=
  match h.frame with
  | .arr _ => false
  | _ => true

def forwarded (h : Handled) : Bool := h.fate = .forwarded

/-- A frame with a method passes by its own `admit` call, and only then. -/
structure Metered (h : Handled) : Prop where
  asked : h.verdict.isSome = h.frame.hasMethod
  throttled : h.fate = .throttled ↔ ∃ ms, h.verdict = some (.error ms)

/-- A metered call that was not throttled was admitted. -/
theorem Metered.admitted {h : Handled} (hm : h.Metered) (hmethod : h.frame.hasMethod = true)
    (hfate : h.fate ≠ .throttled) : h.admitted = true := by
  have hsome : h.verdict.isSome = true := hm.asked.trans hmethod
  obtain ⟨answer, hverdict⟩ := Option.isSome_iff_exists.mp hsome
  cases answer with
  | error ms => exact absurd (hm.throttled.mpr ⟨ms, hverdict⟩) hfate
  | ok u =>
      rw [Handled.admitted, hverdict]

/-- A frame that is no batch is its one message. -/
theorem messages_of_single {h : Handled} (hsingle : h.single = true) :
    messages h.frame = if h.frame.hasMethod then [h.frame] else [] := by
  unfold single at hsingle
  split at hsingle
  · contradiction
  · next hframe =>
    cases hf : h.frame with
    | arr xs => exact absurd hf (hframe xs)
    | null | bool | num | str | obj => rfl

end Handled

/-- The invariant of the caller's direction. -/
structure Pump.Metered {σ : Type} (init : Json) (s : Pump σ) : Prop where
  toServer : s.toServer = init :: (s.handled.filter Handled.forwarded).map Handled.frame
  handled : ∀ h ∈ s.handled, h.Metered

section Metering

variable {σ : Type} {S : ProxySession σ} {s s' : Pump σ} {event : PumpEvent σ} {init : Json}

/-- The gate is asked of a call, and of nothing else. -/
theorem Gated.asked_eq {now : Nat} {frame : Json} {verdict : Option (Except Nat Unit)} {limiter : σ}
    (h : Gated S s now frame verdict limiter) : verdict.isSome = frame.hasMethod := by
  cases h with
  | asked hmethod _ => exact hmethod.symm
  | exempt hmethod => exact hmethod.symm

/-- One more frame that passed, or was refused, by its own call. -/
theorem Pump.Metered.snoc (hs : s.Metered init) {h : Handled} (hm : h.Metered)
    (hhandled : s'.handled = s.handled ++ [h])
    (htoServer : s'.toServer = s.toServer ++ if h.forwarded then [h.frame] else []) :
    s'.Metered init where
  toServer := by
    rw [htoServer, hs.toServer, hhandled, List.filter_append, List.map_append, List.cons_append,
      List.filter_cons]
    split <;> rfl
  handled h' hh' := by
    rw [hhandled] at hh'
    obtain hh' | hh' := List.mem_append.mp hh'
    · exact hs.handled h' hh'
    · obtain rfl := List.mem_singleton.mp hh'
      exact hm

/-- A step of the pump keeps the meter's account. -/
theorem Pump.Metered.pumped (hs : s.Metered init) (h : Pumped S s event s') :
    s'.Metered init := by
  cases h with
  | @throttle frame clean warned written now ms limiter hclean hgate =>
      have hm : Handled.Metered ⟨clean, some (.error ms), .throttled⟩ :=
        ⟨hgate.asked_eq, iff_of_true rfl ⟨ms, rfl⟩⟩
      refine hs.snoc hm ?_ ?_
      · unfold Pump.throttle
        cases clean.idOf <;> rfl
      · unfold Pump.throttle
        cases clean.idOf <;> exact (List.append_nil s.toServer).symm
  | @forward frame clean warned written now limiter verdict hclean hgate hpassed hreading =>
      unfold Pump.forward
      dsimp only
      have hm : ∀ fate, fate ≠ .throttled → Handled.Metered ⟨clean, verdict, fate⟩ :=
        fun fate hfate => ⟨hgate.asked_eq, iff_of_false hfate fun ⟨ms, h⟩ => hpassed ms h⟩
      split
      · exact hs.snoc (hm .forwarded (by decide)) rfl rfl
      · exact hs.snoc (hm .cut (by decide)) rfl (List.append_nil s.toServer).symm
  | server frame now sent => exact ⟨hs.toServer, hs.handled⟩
  | quiet limiter ended hreading => exact ⟨hs.toServer, hs.handled⟩

/-- As many messages are forwarded as calls admitted them, at most. -/
theorem length_messages_le {hs : List Handled} (hm : ∀ h ∈ hs, h.Metered) :
    ((hs.filter fun h => h.forwarded && h.single).flatMap fun h => messages h.frame).length ≤
      hs.countP Handled.admitted := by
  induction hs with
  | nil => exact Nat.le_refl 0
  | cons h hs ih =>
      rw [List.forall_mem_cons] at hm
      have hrest := ih hm.2
      rw [List.filter_cons, List.countP_cons]
      split
      · next hpassed =>
        rw [Bool.and_eq_true] at hpassed
        have hfate : h.fate ≠ .throttled := by
          rw [of_decide_eq_true hpassed.1]
          decide
        rw [List.flatMap_cons, List.length_append, Handled.messages_of_single hpassed.2]
        split
        · next hmethod =>
          rw [if_pos (hm.1.admitted hmethod hfate), List.length_singleton]
          omega
        · rw [List.length_nil]
          omega
      · omega

end Metering

/-- **The rate gate**: after the first frame, which is written before the loop,
each frame of the caller with a method is forwarded by its own `admit` call and
dropped when that call refuses; so no more single messages are forwarded than
calls admitted. -/
theorem proxied_frames_metered {σ : Type} (S : ProxySession σ) {limiter : σ} {init : Json}
    {events : List (PumpEvent σ)} {s : Pump σ}
    (hrun : run (pumpStep S) (.start limiter init) events = some s) :
    s.toServer = init :: (s.handled.filter Handled.forwarded).map Handled.frame ∧
      (∀ h ∈ s.handled, h.frame.hasMethod = true → h.forwarded = true → h.admitted = true) ∧
      (∀ h ∈ s.handled, ∀ ms, h.verdict = some (.error ms) → h.forwarded = false) ∧
      ((s.handled.filter fun h => h.forwarded && h.single).flatMap fun h =>
        messages h.frame).length ≤ s.handled.countP Handled.admitted := by
  have hmetered : s.Metered init :=
    run_invariant (fun s e s' hs hstep => hs.pumped (pumped_of_pumpStep hstep))
      ⟨rfl, fun _ h => absurd h List.not_mem_nil⟩ hrun
  refine ⟨hmetered.toServer, fun h hh hmethod hforwarded => ?_, fun h hh ms hverdict => ?_,
    length_messages_le hmetered.handled⟩
  · refine (hmetered.handled h hh).admitted hmethod ?_
    rw [of_decide_eq_true hforwarded]
    decide
  · rw [Handled.forwarded, ((hmetered.handled h hh).throttled.mpr ⟨ms, hverdict⟩)]
    rfl

namespace OneToken

/-- A bucket that is not refilled within the run. -/
def check (tokens : Nat) (_ : EndpointId) (_ : Nat) : Except Nat Unit × Nat :=
  match tokens with
  | 0 => (.error 1000, 0)
  | tokens + 1 => (.ok (), tokens)

def text (j : Json) : String :=
  match Instance.canonical j with
  | .ok cs => .ofList cs
  | .error _ => ""

/-- A session of a `run` service; its digests are the bytes in hex. -/
def session : ProxySession Nat where
  check := check
  text := text
  blake3 := hexLower
  ts now := Instance.toRfc3339 now
  endpoint := some Instance.ownId
  peerMeta := none
  peer := some "bob"
  service := "notes"
  principal := some (principal Instance.ownId)

def request (id : Int) (method : String) : Json :=
  .obj [("id", .num id 0), ("method", .str method)]

/-- Two calls at one instant. -/
def twoCalls : List (PumpEvent Nat) :=
  [.caller (request 2 "tools/call") 0 true, .caller (request 3 "tools/call") 0 true]

end OneToken

theorem proxied_frames_metered_example :
    ∃ s, run (pumpStep OneToken.session) (.start 1 (OneToken.request 1 "initialize"))
        OneToken.twoCalls = some s ∧
      s.handled.map Handled.forwarded = [true, false] ∧
      ((s.handled.filter fun h => h.forwarded && h.single).flatMap fun h =>
        messages h.frame).length ≤ s.handled.countP Handled.admitted := by
  have hfates : (run (pumpStep OneToken.session) (.start 1 (OneToken.request 1 "initialize"))
      OneToken.twoCalls).map (fun s => s.handled.map Handled.forwarded) = some [true, false] := by
    decide +kernel
  obtain ⟨s, hrun, hforwarded⟩ := Option.map_eq_some_iff.mp hfates
  exact ⟨s, hrun, hforwarded, (proxied_frames_metered OneToken.session hrun).2.2.2⟩

/-- A session without budget forwards its first frame: one message, and no call
that admitted it. -/
theorem first_frame_unmetered :
    ∃ s, run (pumpStep OneToken.session) (.start 0 (OneToken.request 1 "initialize")) [] = some s ∧
      (s.toServer.flatMap messages).length = 1 ∧ s.handled.countP Handled.admitted = 0 :=
  ⟨_, rfl, rfl, rfl⟩

end Mcpmesh
