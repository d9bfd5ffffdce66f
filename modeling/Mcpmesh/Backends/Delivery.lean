import Mcpmesh.Backends.Bookkeeping

/-!
# Mcpmesh.Backends.Delivery

What a session delivers (`pump`, `node/src/backends/mod.rs`).

`Delivers` is what the pump is for: the frames of either side reach the other,
in order, whole and once, and the server is told when there are no more.  Where
a direction stops, it is through or waits for another party.
-/

namespace Mcpmesh

open Lib

namespace Inlet

variable {S : Serde Json} {i : Inlet} {frames : List Json} {why : Option Ending} {maxFrame : Nat}

/-- Frames that were read are the first of those that were sent. -/
theorem HasRead.frames_eq {rest : List (Inbound Json)}
    (h : i.HasRead S (frames.map .frame ++ rest)) :
    ∃ more, i.frames S i.reader.maxFrame = frames ++ leadingFrames (rest ++ more) := by
  obtain ⟨more, hmore⟩ := h.prefix_lines
  exact ⟨more, by rw [Inlet.frames, ← hmore, List.append_assoc, leadingFrames_append]⟩

/-- What was read is the beginning of what was written. -/
theorem Stands.prefix_frames (h : i.Stands S maxFrame frames why) :
    frames <+: i.frames S maxFrame := by
  obtain ⟨rfl, hanswered⟩ := h
  have hread : ∀ rest, i.HasRead S (frames.map .frame ++ rest) →
      frames <+: i.frames S i.reader.maxFrame := by
    intro rest hread
    obtain ⟨more, hmore⟩ := hread.frames_eq
    exact ⟨_, hmore.symm⟩
  have hdrained : ∀ rest, i.Drained S (frames.map .frame ++ rest) →
      frames <+: i.frames S i.reader.maxFrame := by
    intro rest hdrained
    rw [Inlet.frames, hdrained.2, leadingFrames_append]
    exact List.prefix_append _ _
  cases why with
  | none => exact hread [] (by simpa [Answered] using hanswered)
  | some why =>
      cases why with
      | eof => exact hdrained [] (by simpa [Answered] using hanswered)
      | violation v => exact hanswered.elim (hread _) (hdrained _)
      | failed => exact hread [] (by simpa using hanswered.1)
      | gone => exact hread [] (by simpa [Answered] using hanswered)

/-- At the end, or at a violation, all frames were read. -/
theorem Stands.all_frames (h : i.Stands S maxFrame frames why)
    (hwhy : why = some .eof ∨ ∃ v, why = some (.violation v)) : frames = i.frames S maxFrame := by
  obtain ⟨rfl, hanswered⟩ := h
  obtain rfl | ⟨v, rfl⟩ := hwhy
  · rw [Inlet.frames, hanswered.2, ← List.append_nil (frames.map _), leadingFrames_append]
    simp [leadingFrames]
  · obtain hread | hdrained := hanswered
    · obtain ⟨more, hmore⟩ := hread.frames_eq
      simpa [leadingFrames] using hmore.symm
    · rw [Inlet.frames, hdrained.2, leadingFrames_append]
      simp [leadingFrames]

end Inlet

namespace Duplex

variable {σ : Type}

/-- The frames that were sent to the caller, the throttle replies left out. -/
def delivered (s : Duplex σ) : List Json := s.toCaller.sent.filterMap Outgoing.frame?

/-- The throttle replies that were sent. -/
def replied (s : Duplex σ) : List Json := s.toCaller.sent.filterMap Outgoing.reply?

/-- The frames for the server: the first, and then the cleaned frames of the
caller that were not rate-limited. -/
def passed (first : Json) (s : Duplex σ) : List Json := first :: s.heard.filterMap Heard.forwarded

/-- **What a session delivers**, in every state that it reaches. -/
structure Delivers (S : PumpSession σ) (first : Json) (s : Duplex σ) : Prop where
  /-- No two lines interleave on the caller's stream: there are the whole ones, then
  at most the beginning of the next one that was begun. -/
  caller_lines : ∃ part, s.toCaller.pipe.written =
      s.toCaller.sent.flatMap (S.line ∘ Outgoing.value) ++ part ∧
    (part = [] ∨ ∃ m, s.toCaller.sent ++ [m] <+: s.toCaller.begun ∧ part <+: S.line m.value)
  delivered_in_order : s.delivered <+: s.fromServer.frames S.serde maxFrameBytes
  /-- All of them, unless a write to the caller failed or the server's stream did. -/
  delivered_all : s.stage = .ended → s.toCaller.failed = true ∨
    s.fromServer.pipe.writer = .reset ∨ s.delivered = s.fromServer.frames S.serde maxFrameBytes
  heard_in_order : s.heard.map Heard.raw <+: s.fromCaller.frames S.serde S.maxFrame
  heard_clean : ∀ h ∈ s.heard, (sanitizeCallerFrame h.raw S.peerMeta).map Prod.fst = some h.clean
  server_lines : ∃ sent part, s.serverWrite.pipe.written = sent.flatMap S.line ++ part ∧
    sent <+: s.passed first ∧
    (part = [] ∨ ∃ m, sent ++ [m] <+: s.passed first ∧ part <+: S.line m)
  /-- The server's input ends after all of them, unless the session ended first, the
  server left, or the caller's stream failed. -/
  passed_all : s.serverWrite.pipe.writer = .closed →
    (s.stage ≠ .loops ∧ ∀ why, s.toServer ≠ .parked why) ∨
      s.serverWrite.pipe.attended = false ∨ s.fromCaller.pipe.writer = .reset ∨
      s.heard.map Heard.raw = s.fromCaller.frames S.serde S.maxFrame ∧
        s.serverWrite.pipe.written = (s.passed first).flatMap S.line
  replied_in_order : s.replied <+: s.heard.filterMap Heard.reply
  /-- One reply each, the last of which may be under way, unless a write failed. -/
  replied_once : s.toCaller.failed = true ∨
    s.heard.filterMap Heard.reply = s.replied ∨
    ∃ reply, s.heard.filterMap Heard.reply = s.replied ++ [reply] ∧
      (s.toServer = .queued reply ∨ s.toServer = .replying)
  /-- Where direction `to_server` stops, it has ended the server's input, or waits. -/
  to_server_waits : s.stage = .loops → (∀ n now, s.stepToServer S n now = none) →
    s.serverWrite.pipe.writer = .closed ∨
      s.fromCaller.pipe.buffered = [] ∧ s.fromCaller.pipe.writer = .live ∨
      s.toTransport = .sending ∨ s.toCaller.pipe.Full ∨ s.serverWrite.pipe.Full
  /-- Where direction `to_transport` stops, it waits. -/
  to_transport_waits : s.stage = .loops → (∀ n now, s.stepToTransport S n now = none) →
    s.fromServer.pipe.buffered = [] ∧ s.fromServer.pipe.writer = .live ∨
      s.toServer = .replying ∨ s.toCaller.pipe.Full

variable {S : PumpSession σ} {first : Json} {cap : ℕ+} {s : Duplex σ}

/-- What was delivered is what was served, in order. -/
theorem Inv.delivered_prefix (h : s.Inv S first cap) : s.delivered <+: s.served := by
  rw [h.frames]
  exact (h.toCaller.sent_prefix.filterMap _).trans (List.prefix_append _ _)

/-- What was replied is what was decided, in order. -/
theorem Inv.replied_prefix (h : s.Inv S first cap) :
    s.replied <+: s.heard.filterMap Heard.reply := by
  rw [h.replies]
  exact (h.toCaller.sent_prefix.filterMap _).trans (List.prefix_append _ _)

/-- What is under way is the holder's. -/
theorem Inv.under_way (h : s.Inv S first cap) (hfailed : s.toCaller.failed = false) :
    s.toCaller.begun = s.toCaller.sent ∧ s.toServer ≠ .replying ∧ s.toTransport ≠ .sending ∨
      (∃ v, s.toCaller.begun = s.toCaller.sent ++ [.reply v]) ∧ s.toServer = .replying ∧
        s.toTransport ≠ .sending ∨
      (∃ v, s.toCaller.begun = s.toCaller.sent ++ [.frame v]) ∧ s.toServer ≠ .replying ∧
        s.toTransport = .sending := by
  have hholder := h.holder
  unfold Holder at hholder
  split at hholder
  · next hfree => exact .inl ⟨(h.toCaller.all_sent hfailed hfree).1, hholder⟩
  · next rest hcurrent =>
    obtain ⟨m, hbegun⟩ := h.toCaller.begun_of_current hfailed hcurrent
    rw [hbegun] at hholder ⊢
    obtain ⟨hserver, htransport, before, v, heq⟩ | ⟨hserver, htransport, before, v, heq⟩ := hholder
    · obtain ⟨-, hm⟩ := List.append_inj' heq rfl
      obtain rfl := List.singleton_inj.mp hm
      exact .inr (.inl ⟨⟨v, rfl⟩, hserver, htransport⟩)
    · obtain ⟨-, hm⟩ := List.append_inj' heq rfl
      obtain rfl := List.singleton_inj.mp hm
      exact .inr (.inr ⟨⟨v, rfl⟩, hserver, htransport⟩)

/-- When the session is over, no frame is under way. -/
theorem Inv.delivered_of_ended {why : Ending} (h : s.Inv S first cap)
    (hended : s.toTransport = .ended why) (hfailed : s.toCaller.failed = false) :
    s.delivered = s.served := by
  rw [h.frames, hended, delivered]
  obtain ⟨hbegun, -⟩ | ⟨⟨v, hbegun⟩, -⟩ | ⟨-, -, hsending⟩ := h.under_way hfailed
  · simp [hbegun, ToTransport.waiting]
  · simp [hbegun, ToTransport.waiting, List.filterMap_cons]
  · simp [hended] at hsending

/-- At the end all that the server wrote is delivered, unless a pipe broke. -/
theorem Inv.delivered_all (h : s.Inv S first cap) (hstage : s.stage = .ended) :
    s.toCaller.failed = true ∨ s.fromServer.pipe.writer = .reset ∨
      s.delivered = s.fromServer.frames S.serde maxFrameBytes := by
  have hstands := h.fromServer
  have hsome := h.ended.mp hstage
  cases hwhere : s.toTransport with
  | receiving => simp [hwhere, ToTransport.ending] at hsome
  | queued frame => simp [hwhere, ToTransport.ending] at hsome
  | sending => simp [hwhere, ToTransport.ending] at hsome
  | ended why =>
      rw [hwhere] at hstands
      cases hfailed : s.toCaller.failed with
      | true => exact .inl rfl
      | false =>
          have hserved := h.delivered_of_ended hwhere hfailed
          cases why with
          | eof => exact .inr (.inr (hserved.trans (hstands.all_frames (.inl rfl))))
          | violation v => exact .inr (.inr (hserved.trans (hstands.all_frames (.inr ⟨v, rfl⟩))))
          | failed => exact .inr (.inl hstands.answered.2)
          | gone => simp [h.unsent hwhere] at hfailed

/-- A direction that parked has passed on all that it read. -/
theorem Inv.passed_of_parked {why : Ending} (h : s.Inv S first cap)
    (hparked : s.toServer = .parked why) :
    s.serverWrite.pipe.attended = false ∨ s.fromCaller.pipe.writer = .reset ∨
      s.heard.map Heard.raw = s.fromCaller.frames S.serde S.maxFrame ∧
        s.serverWrite.pipe.written = (s.passed first).flatMap S.line := by
  have hstands := h.fromCaller
  have hopening := h.opening
  have hwriting := h.writing
  have hunwritten := h.unwritten
  rw [hparked] at hstands hopening hwriting hunwritten
  simp only [reduceCtorEq, false_and, imp_false, not_or] at hopening
  have hfree : s.serverWrite.current = none := by simpa [hopening] using hwriting
  have hall : why ≠ .gone → s.serverWrite.pipe.written = (s.passed first).flatMap S.line := by
    intro hwhy
    have hfailed : s.serverWrite.failed = false := by simpa [hwhy, hopening] using hunwritten
    obtain ⟨hbegun, hwritten⟩ := h.serverWrite.all_sent hfailed hfree
    rw [hwritten, ← hbegun, h.forwards, passed]
  cases why with
  | eof => exact .inr (.inr ⟨hstands.all_frames (.inl rfl), hall (by simp)⟩)
  | violation v => exact .inr (.inr ⟨hstands.all_frames (.inr ⟨v, rfl⟩), hall (by simp)⟩)
  | failed => exact .inr (.inl hstands.answered.2)
  | gone => exact .inl (h.serverWrite.unattended (by simpa using hunwritten))

/-- Once the server's stdin is shut all that the caller wrote was heard, unless the
session was over or a pipe broke. -/
theorem Inv.passed_all (h : s.Inv S first cap) (hclosed : s.serverWrite.pipe.writer = .closed) :
    (s.stage ≠ .loops ∧ ∀ why, s.toServer ≠ .parked why) ∨
      s.serverWrite.pipe.attended = false ∨ s.fromCaller.pipe.writer = .reset ∨
      s.heard.map Heard.raw = s.fromCaller.frames S.serde S.maxFrame ∧
        s.serverWrite.pipe.written = (s.passed first).flatMap S.line := by
  have hwriter := h.closed
  cases hwhere : s.toServer with
  | parked why => exact .inr (h.passed_of_parked hwhere)
  | receiving | queued | replying | forwarding =>
      refine .inl ⟨fun hstage => ?_, by simp⟩
      simp [hclosed, hstage, hwhere, ToServer.ending] at hwriter

/-- All decided replies are written, but for the one in hand. -/
theorem Inv.replied_once (h : s.Inv S first cap) : s.toCaller.failed = true ∨
    s.heard.filterMap Heard.reply = s.replied ∨
    ∃ reply, s.heard.filterMap Heard.reply = s.replied ++ [reply] ∧
      (s.toServer = .queued reply ∨ s.toServer = .replying) := by
  rw [h.replies, replied]
  cases hfailed : s.toCaller.failed with
  | true => exact .inl rfl
  | false =>
      right
      obtain ⟨hsame, hreplying⟩ | ⟨⟨v, hbegun⟩, hreplying, -⟩ :
          s.toCaller.begun.filterMap Outgoing.reply? = s.toCaller.sent.filterMap Outgoing.reply? ∧
            s.toServer ≠ .replying ∨
          (∃ v, s.toCaller.begun = s.toCaller.sent ++ [.reply v]) ∧ s.toServer = .replying ∧
            s.toTransport ≠ .sending := by
        obtain ⟨hbegun, hreplying, -⟩ | hreply | ⟨⟨v, hbegun⟩, hreplying, -⟩ := h.under_way hfailed
        · exact .inl ⟨by rw [hbegun], hreplying⟩
        · exact .inr hreply
        · exact .inl ⟨by simp [hbegun, List.filterMap_cons], hreplying⟩
      · rw [hsame]
        cases hwhere : s.toServer with
        | queued reply => exact .inr ⟨reply, rfl, .inl rfl⟩
        | receiving => exact .inl (List.append_nil _)
        | replying => exact absurd hwhere hreplying
        | forwarding => exact .inl (List.append_nil _)
        | parked why => exact .inl (List.append_nil _)
      · refine .inr ⟨v, ?_, .inr hreplying⟩
        simp [hbegun, hreplying, ToServer.waiting]

/-- A step of `to_server` that reads is taken whenever its read is. -/
theorem next_of_stepToServer (hstage : s.stage = .loops) (hreceiving : s.toServer = .receiving)
    {n now : Nat} (hstep : s.stepToServer S n now = none) :
    s.fromCaller.next S.serde n = none := by
  by_contra hnext
  obtain ⟨⟨polled, fromCaller⟩, hnext⟩ := Option.ne_none_iff_exists'.mp hnext
  simp only [Duplex.stepToServer, hstage, if_true, hreceiving, hnext, Option.bind_eq_bind,
    Option.bind_some] at hstep
  split at hstep
  · contradiction
  · next raw =>
    have hsome := sanitizeCallerFrame_isSome raw S.peerMeta
    rw [Duplex.onCallerFrame, Option.map_eq_none_iff] at hstep
    simp [hstep] at hsome
  all_goals contradiction

/-- A loop that is receiving and cannot go on has no frame to read. -/
theorem next_of_stepToTransport (hstage : s.stage = .loops)
    (hreceiving : s.toTransport = .receiving) {n now : Nat}
    (hstep : s.stepToTransport S n now = none) : s.fromServer.next S.serde n = none := by
  by_contra hnext
  obtain ⟨⟨polled, fromServer⟩, hnext⟩ := Option.ne_none_iff_exists'.mp hnext
  simp only [Duplex.stepToTransport, hstage, if_true, hreceiving, hnext, Option.bind_eq_bind,
    Option.bind_some] at hstep
  split at hstep <;> contradiction

/-- The writer is held by the other direction, or a message of this one is under way. -/
theorem Inv.current_of_holds (h : s.Inv S first cap)
    (hholds : s.toServer = .replying ∨ s.toTransport = .sending) :
    s.toCaller.current.isSome = true := by
  have hholder := h.holder
  unfold Holder at hholder
  split at hholder
  · obtain hreplying | hsending := hholds
    · exact absurd hreplying hholder.1
    · exact absurd hsending hholder.2
  · next hcurrent => rw [hcurrent, Option.isSome_some]

/-- What the loop to the server waits for. -/
theorem Inv.to_server_waits (h : s.Inv S first cap) (hstage : s.stage = .loops)
    (hstuck : ∀ n now, s.stepToServer S n now = none) :
    s.serverWrite.pipe.writer = .closed ∨
      s.fromCaller.pipe.buffered = [] ∧ s.fromCaller.pipe.writer = .live ∨
      s.toTransport = .sending ∨ s.toCaller.pipe.Full ∨ s.serverWrite.pipe.Full := by
  have hwriter := h.closed
  have hwriting := h.writing
  have hlive := h.sendable (by simp [hstage])
  have hstep := hstuck 0 0
  cases hwhere : s.toServer with
  | receiving =>
      have hwaits := Inlet.waits_of_next fun n => next_of_stepToServer hstage hwhere (hstuck n 0)
      exact .inr (.inl hwaits.2)
  | queued reply =>
      simp only [Duplex.stepToServer, hstage, if_true, hwhere, Option.map_eq_none_iff] at hstep
      have hholder := h.holder
      unfold Holder at hholder
      split at hholder
      · next hfree => simp [Outlet.lock, hfree] at hstep
      · simp only [hwhere, reduceCtorEq, false_and, false_or] at hholder
        exact .inr (.inr (.inl hholder.2.1))
  | replying =>
      simp only [Duplex.stepToServer, hstage, if_true, hwhere, Option.map_eq_none_iff] at hstep
      have hcurrent := h.current_of_holds (.inl hwhere)
      exact .inr (.inr (.inr (.inl (Outlet.full_of_poll hstep hlive hcurrent).1)))
  | forwarding =>
      simp only [Duplex.stepToServer, hstage, if_true, hwhere, Option.map_eq_none_iff] at hstep
      simp only [hwhere, hstage, ToServer.ending, Option.isSome_none] at hwriter
      have hcurrent := hwriting.mpr (.inr hwhere)
      have hfull := (Outlet.full_of_poll hstep (by simpa using hwriter) hcurrent).1
      exact .inr (.inr (.inr (.inr hfull)))
  | parked why => exact .inl (by simpa [hwhere, ToServer.ending] using hwriter)

/-- What the loop to the transport waits for. -/
theorem Inv.to_transport_waits (h : s.Inv S first cap) (hstage : s.stage = .loops)
    (hstuck : ∀ n now, s.stepToTransport S n now = none) :
    s.fromServer.pipe.buffered = [] ∧ s.fromServer.pipe.writer = .live ∨
      s.toServer = .replying ∨ s.toCaller.pipe.Full := by
  have hended := h.ended
  have hlive := h.sendable (by simp [hstage])
  have hstep := hstuck 0 0
  cases hwhere : s.toTransport with
  | receiving =>
      have hwaits := Inlet.waits_of_next fun n => next_of_stepToTransport hstage hwhere (hstuck n 0)
      exact .inl hwaits.2
  | queued frame =>
      simp only [Duplex.stepToTransport, hstage, if_true, hwhere, Option.map_eq_none_iff] at hstep
      have hholder := h.holder
      unfold Holder at hholder
      split at hholder
      · next hfree => simp [Outlet.lock, hfree] at hstep
      · simp only [hwhere, reduceCtorEq, false_and, and_false, or_false] at hholder
        exact .inr (.inl hholder.1)
  | sending =>
      simp only [Duplex.stepToTransport, hstage, if_true, hwhere, Option.map_eq_none_iff] at hstep
      have hcurrent := h.current_of_holds (.inr hwhere)
      exact .inr (.inr (Outlet.full_of_poll hstep hlive hcurrent).1)
  | ended why => simp [hstage, hwhere, ToTransport.ending] at hended

/-- The parts of the invariant make the delivery. -/
theorem Inv.delivers (h : s.Inv S first cap) : s.Delivers S first where
  caller_lines := by
    obtain ⟨part, hwritten, hpart, -⟩ := h.toCaller.lines
    exact ⟨part, hwritten, hpart⟩
  delivered_in_order := h.delivered_prefix.trans h.fromServer.prefix_frames
  delivered_all := h.delivered_all
  heard_in_order := h.fromCaller.prefix_frames
  heard_clean := h.cleaned
  server_lines := by
    obtain ⟨part, hwritten, hpart, -⟩ := h.serverWrite.lines
    rw [passed, ← h.forwards]
    exact ⟨s.serverWrite.sent, part, hwritten, h.serverWrite.sent_prefix, hpart⟩
  passed_all := h.passed_all
  replied_in_order := h.replied_prefix
  replied_once := h.replied_once
  to_server_waits := h.to_server_waits
  to_transport_waits := h.to_transport_waits

end Duplex

/-- **The pump loses, repeats and reorders nothing**: in every order of steps,
whatever fails and whoever leaves. -/
theorem pump_delivers {σ : Type} (S : PumpSession σ) {caps : Capacities} {limiter : σ}
    {first : Json} {ahead : List UInt8} {moves : List (DuplexMove σ)} {s : Duplex σ}
    (hrun : run (duplexStep S) (.start S caps limiter first ahead) moves = some s) :
    s.Delivers S first :=
  (run_invariant (I := Duplex.Inv S first caps.serverWrite) (fun _ _ _ h hstep => h.step hstep)
    (Duplex.inv_start caps limiter ahead) hrun).delivers

/-! ### two sessions -/

namespace ByteByByte

open OneToken

/-- A first frame without a method, and a call. -/
def opening : Json := .obj []

def call : Json := request 2 "ping"

def bytes (j : Json) : List UInt8 := (text j).toUTF8.data.toList

/-- A session in which these two are the only frames. -/
def session : PumpSession Nat where
  toProxySession := OneToken.session
  fromSlice raw :=
    if raw = bytes opening then .ok opening
    else if raw = bytes call then .ok call
    else .error "expected value"
  maxFrame := 64

def start : Duplex Nat := .start session ⟨64, 256, 64, 64⟩ 0 opening []

def opened : List (DuplexMove Nat) := .replicate 4 .first

/-- A party writes a line, and a direction reads it. -/
def callerSends (raw : List UInt8) : List (DuplexMove Nat) :=
  (raw ++ [10]).map .callerWrites ++ .toServer (raw.length + 1) 0 ::
    .replicate (raw.length + 1) (.toServer 0 0)

def serverSends (raw : List UInt8) : List (DuplexMove Nat) :=
  (raw ++ [10]).map .serverWrites ++ .toTransport (raw.length + 1) 0 ::
    .replicate (raw.length + 1) (.toTransport 0 0)

/-- A call beyond the limit is answered; the caller ends its input, and then the
server answers and ends its output. -/
def whole : List (DuplexMove Nat) :=
  opened ++ callerSends (bytes call) ++ .replicate 126 (.toServer 0 0) ++
    [.callerStops .closed, .toServer 0 0] ++ serverSends (bytes opening) ++
    .replicate 5 (.toTransport 0 0) ++ [.serverStops .closed, .toTransport 0 0]

/-- The server writes a malformed line while a frame of the caller is unread. -/
def cutShort : List (DuplexMove Nat) :=
  opened ++ (bytes opening ++ [10]).map .callerWrites ++ [.callerStops .closed] ++ serverSends [120]

/-- The caller leaves before it is answered. -/
def unanswered : List (DuplexMove Nat) :=
  opened ++ callerSends (bytes call) ++ [.callerLeaves, .toServer 0 0, .toServer 0 0]

end ByteByByte

open ByteByByte in
theorem pump_delivers_example : ∃ s, run (duplexStep session) start whole = some s ∧
    s.stage = .ended ∧ s.delivered.length = 1 ∧ s.replied.length = 1 ∧
      s.Delivers session opening := by
  have hcounts : (run (duplexStep session) start whole).map (fun s =>
      (s.stage, s.delivered.length, s.replied.length)) = some (.ended, 1, 1) := by
    decide +kernel
  obtain ⟨s, hrun, heq⟩ := Option.map_eq_some_iff.mp hcounts
  simp only [Prod.mk.injEq] at heq
  exact ⟨s, hrun, heq.1, heq.2.1, heq.2.2, pump_delivers session hrun⟩

open ByteByByte in
/-- A malformed line of the server ends its input before a frame that the caller
sent, though the server closed nothing; and a call beyond the limit stays without
a reply in a session that lasts. -/
theorem frame_and_reply_lost :
    (run (duplexStep session) start cutShort).map (fun s =>
      (s.serverWrite.pipe.writer, s.serverWrite.pipe.attended, s.fromServer.pipe.writer,
        (s.fromCaller.frames session.serde session.maxFrame).length, s.serverWrite.sent.length)) =
      some (.closed, true, .live, 1, 1) ∧
    (run (duplexStep session) start unanswered).map (fun s =>
      (s.stage, (s.heard.filterMap Heard.reply).length, s.replied.length,
        s.toServer.waiting.length, s.toCaller.current.isSome)) = some (.loops, 1, 0, 0, false) := by
  decide +kernel

end Mcpmesh
