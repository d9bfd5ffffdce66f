import Mcpmesh.Backends.Delivery

/-!
# Mcpmesh.Backends.Wedge

A server that waits to write (`pump`, `node/src/backends/mod.rs`).

Once the two directions run, a full pipe from the server is always drained:
`to_transport` reads it, or waits for a write that the caller's reads let go on.
The first frame is written before, with nobody at the server's output; so a
server that writes before it reads blocks the pump, and the pump the server,
exactly when the frame's line is longer than the pipe to the server holds.
-/

namespace Mcpmesh

open Lib

/-- A step of the pump, or a read of the caller. -/
def DuplexMove.pumps {σ : Type} : DuplexMove σ → Bool
  | .first | .toServer .. | .toTransport .. | .callerReads _ => true
  | _ => false

namespace Duplex

variable {σ : Type}

/-- The server waits to write to its full pipe. -/
def ServerBlocked (s : Duplex σ) : Prop :=
  s.fromServer.pipe.Full ∧ s.fromServer.pipe.attended = true

/-- Steps of the pump and reads of the caller take from the server's pipe, or end
the session. -/
inductive Drains (S : PumpSession σ) : Duplex σ → Prop where
  | now {s s' : Duplex σ} {move : DuplexMove σ} (hpumps : move.pumps = true)
      (hstep : duplexStep S s move = some s')
      (hdrained : s.fromServer.pipe.taken.length < s'.fromServer.pipe.taken.length ∨
        s'.fromServer.pipe.attended = false) : Drains S s
  | later {s s' : Duplex σ} {move : DuplexMove σ} (hpumps : move.pumps = true)
      (hstep : duplexStep S s move = some s') (h : Drains S s') : Drains S s

variable {S : PumpSession σ} {first : Json} {cap : ℕ+} {s : Duplex σ}
  {wrote : Wrote} {toCaller : Outlet Outgoing UInt8}

/-! ## the two directions -/

theorem step_replying (hstage : s.stage = .loops) (hreplying : s.toServer = .replying)
    (hpoll : s.toCaller.poll = some (wrote, toCaller)) :
    duplexStep S s (.toServer 0 0) = some (match wrote with
      | .more => { s with toCaller }
      | .all | .failed => { s with toCaller, toServer := .receiving }) := by
  simp only [duplexStep, stepToServer, hstage, if_true, hreplying, hpoll, Option.map_some]
  cases wrote <;> rfl

theorem step_sending (hstage : s.stage = .loops) (hsending : s.toTransport = .sending)
    (hpoll : s.toCaller.poll = some (wrote, toCaller)) :
    duplexStep S s (.toTransport 0 0) = some (match wrote with
      | .more => { s with toCaller }
      | .all => { s with toCaller, toTransport := .receiving }
      | .failed => finish { s with toCaller } .gone) := by
  simp only [duplexStep, stepToTransport, hstage, if_true, hsending, hpoll, Option.map_some]
  cases wrote <;> rfl

/-- A write to the caller goes on, if not at once then when the caller has read. -/
theorem Inv.drains_of_poll (h : s.Inv S first cap) (hstage : s.stage = .loops)
    (hcurrent : s.toCaller.current.isSome = true)
    (hpolled : ∀ pipe wrote toCaller, (s.withToCaller pipe).Inv S first cap →
      (s.withToCaller pipe).toCaller.poll = some (wrote, toCaller) →
        (s.withToCaller pipe).Drains S) : s.Drains S := by
  have hlive := h.sendable (by simp [hstage])
  cases hpoll : s.toCaller.poll with
  | some polled => exact hpolled s.toCaller.pipe polled.1 polled.2 h hpoll
  | none =>
      obtain ⟨hfull, hattended⟩ := Outlet.full_of_poll hpoll hlive hcurrent
      have hpos := s.toCaller.pipe.capacity.pos
      rw [Pipe.Full] at hfull
      obtain ⟨⟨bs, pipe⟩, htake⟩ : ∃ taken, s.toCaller.pipe.take 1 = some taken := by
        simp [Pipe.take, hfull]
        omega
      have hstep : duplexStep S s (.callerReads 1) = some (s.withToCaller pipe) := by
        simp [duplexStep, hattended, htake]
      have h' := h.step hstep
      refine .later rfl hstep ?_
      cases hpoll' : (s.withToCaller pipe).toCaller.poll with
      | some polled => exact hpolled pipe polled.1 polled.2 h' hpoll'
      | none =>
          obtain ⟨-, hbuffered, hwriter, -, hcapacity, hone, -⟩ := Pipe.take_eq_some htake
          have hfull' : pipe.buffered.length = pipe.capacity :=
            (Outlet.full_of_poll hpoll' (hwriter.trans hlive) hcurrent).1
          have hlength := congrArg List.length hbuffered
          rw [hcapacity] at hfull'
          rw [List.length_append] at hlength
          omega

/-- The writer is let go by a reply that is under way. -/
theorem Inv.drains_of_replying (h : s.Inv S first cap) (hstage : s.stage = .loops)
    (hreplying : s.toServer = .replying) {rest : List UInt8}
    (hcurrent : s.toCaller.current = some rest)
    (hfree : ∀ s' : Duplex σ, s'.Inv S first cap → s'.stage = .loops →
      s'.toTransport = s.toTransport → s'.fromServer = s.fromServer →
        s'.toCaller.current = none → s'.Drains S) : s.Drains S := by
  induction hlength : rest.length using Nat.strong_induction_on generalizing s rest with
  | _ n ih =>
      refine h.drains_of_poll hstage (by simp [hcurrent]) fun pipe wrote toCaller h' hpoll => ?_
      have hstep := step_replying (S := S) (s := s.withToCaller pipe) hstage hreplying hpoll
      have h'' := h'.step hstep
      obtain ⟨-, -, -, -, hcurrent', -⟩ := Outlet.poll_spec hpoll
      cases wrote with
      | more =>
          obtain ⟨a, rest', rfl, hrest'⟩ := Outlet.current_of_more hpoll hcurrent
          exact .later rfl hstep
            (ih rest'.length (by simp [← hlength]) h'' hstage hreplying hrest' hfree rfl)
      | all => exact .later rfl hstep (hfree _ h'' hstage rfl rfl (by simpa using hcurrent'))
      | failed => exact .later rfl hstep (hfree _ h'' hstage rfl rfl (by simpa using hcurrent'))

/-- A frame that is under way is sent, or the session ends. -/
theorem Inv.drains_of_sending (h : s.Inv S first cap) (hstage : s.stage = .loops)
    (hsending : s.toTransport = .sending) {rest : List UInt8}
    (hcurrent : s.toCaller.current = some rest)
    (hsent : ∀ s' : Duplex σ, s'.Inv S first cap → s'.stage = .loops → s'.toTransport = .receiving →
      s'.fromServer = s.fromServer → s'.Drains S) : s.Drains S := by
  induction hlength : rest.length using Nat.strong_induction_on generalizing s rest with
  | _ n ih =>
      refine h.drains_of_poll hstage (by simp [hcurrent]) fun pipe wrote toCaller h' hpoll => ?_
      have hstep := step_sending (S := S) (s := s.withToCaller pipe) hstage hsending hpoll
      have h'' := h'.step hstep
      cases wrote with
      | more =>
          obtain ⟨a, rest', rfl, hrest'⟩ := Outlet.current_of_more hpoll hcurrent
          exact .later rfl hstep
            (ih rest'.length (by simp [← hlength]) h'' hstage hsending hrest' hsent rfl)
      | all => exact .later rfl hstep (hsent _ h'' hstage rfl rfl)
      | failed => exact .now rfl hstep (.inr rfl)

/-- A frame that waits for the writer gets it. -/
theorem Inv.drains_of_queued (h : s.Inv S first cap) (hstage : s.stage = .loops) {frame : Json}
    (hqueued : s.toTransport = .queued frame)
    (hsent : ∀ s' : Duplex σ, s'.Inv S first cap → s'.stage = .loops → s'.toTransport = .receiving →
      s'.fromServer = s.fromServer → s'.Drains S) : s.Drains S := by
  have hlocks : ∀ s' : Duplex σ, s'.Inv S first cap → s'.stage = .loops →
      s'.toTransport = s.toTransport → s'.fromServer = s.fromServer →
        s'.toCaller.current = none → s'.Drains S := by
    intro s' h' hstage' htransport hserver hfree
    have hstep : duplexStep S s' (.toTransport 0 0) = some { s' with
        toCaller := s'.toCaller.start (S.line ∘ Outgoing.value) (.frame frame)
        toTransport := .sending } := by
      simp [duplexStep, Duplex.stepToTransport, hstage', htransport, hqueued, Outlet.lock, hfree]
    have h'' := h'.step hstep
    refine .later rfl hstep (h''.drains_of_sending hstage' rfl rfl ?_)
    intro s₂ h₂ hstage₂ hreceiving hsame
    exact hsent s₂ h₂ hstage₂ hreceiving (hsame.trans hserver)
  have hholder := h.holder
  unfold Holder at hholder
  split at hholder
  · next hfree => exact hlocks s h hstage rfl rfl hfree
  · next rest hcurrent =>
    simp only [hqueued, reduceCtorEq, false_and, and_false, or_false] at hholder
    exact h.drains_of_replying hstage hholder.1 hcurrent hlocks

/-- A byte that was read ahead is used up, and what it ends is sent. -/
theorem Inv.drains_of_ahead (h : s.Inv S first cap) (hstage : s.stage = .loops)
    (hreceiving : s.toTransport = .receiving) {b : UInt8} {bs : List UInt8}
    (hahead : s.fromServer.reader.reader.buffered = b :: bs)
    (hused : ∀ s' : Duplex σ, s'.Inv S first cap → s'.stage = .loops → s'.toTransport = .receiving →
      s'.fromServer.pipe = s.fromServer.pipe → s'.fromServer.reader.reader.buffered = bs →
        s'.Drains S) : s.Drains S := by
  cases hturn : FrameReader.turn S.serde { s.fromServer.reader with reader := ⟨bs, []⟩ } b with
  | mk out reader =>
      have hbuffered := reader_turn hturn
      cases out with
      | none =>
          have hstep : duplexStep S s (.toTransport 0 0) =
              some { s with fromServer := { s.fromServer with reader } } := by
            simp [duplexStep, Duplex.stepToTransport, hstage, hreceiving, Inlet.next, hahead, hturn]
          have h' := h.step hstep
          exact .later rfl hstep (hused _ h' hstage hreceiving rfl (by simp [hbuffered]))
      | some inbound =>
          cases inbound with
          | frame frame =>
              have hstep : duplexStep S s (.toTransport 0 0) = some
                  (Duplex.onServerFrame S { s with fromServer := { s.fromServer with reader } }
                    0 frame) := by
                simp [duplexStep, Duplex.stepToTransport, hstage, hreceiving, Inlet.next, hahead,
                  hturn]
              have h' := h.step hstep
              refine .later rfl hstep (h'.drains_of_queued hstage rfl ?_)
              intro s₂ h₂ hstage₂ hreceiving₂ hsame
              exact hused s₂ h₂ hstage₂ hreceiving₂ (by simp [hsame, Duplex.onServerFrame])
                (by simp [hsame, Duplex.onServerFrame, hbuffered])
          | violation v =>
              have hstep : duplexStep S s (.toTransport 0 0) = some
                  (Duplex.finish { s with fromServer := { s.fromServer with reader } }
                    (.violation v)) := by
                simp [duplexStep, Duplex.stepToTransport, hstage, hreceiving, Inlet.next, hahead,
                  hturn]
              exact .now rfl hstep (.inr rfl)

/-- Direction `to_transport` takes from a pipe that is not empty, once it has
used what it had read ahead. -/
theorem Inv.drains_of_receiving (h : s.Inv S first cap) (hstage : s.stage = .loops)
    (hreceiving : s.toTransport = .receiving) (hpipe : s.fromServer.pipe.buffered ≠ []) :
    s.Drains S := by
  induction hahead : s.fromServer.reader.reader.buffered generalizing s with
  | nil =>
      have hlength := List.length_pos_of_ne_nil hpipe
      obtain ⟨⟨bs, pipe⟩, htake⟩ : ∃ taken, s.fromServer.pipe.take 1 = some taken := by
        simp [Pipe.take]
        omega
      have hstep : duplexStep S s (.toTransport 1 0) = some
          { s with fromServer := ⟨pipe, { s.fromServer.reader with reader := ⟨bs, []⟩ }⟩ } := by
        simp [duplexStep, Duplex.stepToTransport, hstage, hreceiving, Inlet.next, hahead, htake]
      obtain ⟨htaken, -, -, -, -, hone, -⟩ := Pipe.take_eq_some htake
      exact .now rfl hstep (.inl (by simp [htaken, hone]))
  | cons b bs ih =>
      refine h.drains_of_ahead hstage hreceiving hahead ?_
      intro s₂ h₂ hstage₂ hreceiving₂ hpipe₂ hbuffered
      exact ih h₂ hstage₂ hreceiving₂ (hpipe₂ ▸ hpipe) hbuffered

/-- **While the loops run a full pipe from the server is drained.** -/
theorem Inv.drains_of_loops (h : s.Inv S first cap) (hstage : s.stage = .loops)
    (hblocked : s.ServerBlocked) : s.Drains S := by
  have hpos := s.fromServer.pipe.capacity.pos
  have hfull : s.fromServer.pipe.buffered.length = s.fromServer.pipe.capacity := hblocked.1
  have hpipe : s.fromServer.pipe.buffered ≠ [] := by
    intro hempty
    simp [hempty] at hfull
    omega
  have hsent : ∀ s' : Duplex σ, s'.Inv S first cap → s'.stage = .loops →
      s'.toTransport = .receiving → s'.fromServer = s.fromServer → s'.Drains S := by
    intro s' h' hstage' hreceiving hsame
    exact h'.drains_of_receiving hstage' hreceiving (hsame ▸ hpipe)
  cases hwhere : s.toTransport with
  | receiving => exact hsent s h hstage hwhere rfl
  | queued frame => exact h.drains_of_queued hstage hwhere hsent
  | sending =>
      obtain ⟨rest, hcurrent⟩ := Option.isSome_iff_exists.mp (h.current_of_holds (.inr hwhere))
      exact h.drains_of_sending hstage hwhere hcurrent hsent
  | ended why =>
      have hended := h.ended
      simp [hstage, hwhere, ToTransport.ending] at hended

/-! ## the first frame -/

theorem step_first (hstage : s.stage = .first) {serverWrite : Outlet Json UInt8}
    (hpoll : s.serverWrite.poll = some (wrote, serverWrite)) :
    duplexStep S s .first = some (match wrote with
      | .more => { s with serverWrite }
      | .all => { s with serverWrite, stage := .loops }
      | .failed => { dropServer { s with serverWrite } with stage := .failed }) := by
  simp only [duplexStep, stepFirst, hstage, if_true, hpoll, Option.map_some]
  cases wrote <;> simp [dropServer]

/-- What is written of the first frame, and what is not. -/
theorem Inv.line_of_first (h : s.Inv S first cap) (hstage : s.stage = .first) {rest : List UInt8}
    (hcurrent : s.serverWrite.current = some rest) :
    S.line first = s.serverWrite.pipe.written ++ rest := by
  obtain ⟨hreceiving, hheard⟩ := h.opening (.inl hstage)
  have hunwritten := h.unwritten
  have hforwards := h.forwards
  have hfailed : s.serverWrite.failed = false := by simpa [hreceiving, hstage] using hunwritten
  obtain ⟨part, hwritten, -, hstrong⟩ := h.serverWrite.lines
  obtain ⟨m, hbegun, hline⟩ :
      ∃ m, s.serverWrite.begun = s.serverWrite.sent ++ [m] ∧ S.line m = part ++ rest := by
    simpa [hcurrent] using hstrong hfailed
  rw [hforwards, hheard] at hbegun
  obtain ⟨hsent, hm⟩ := List.append_inj' (show [] ++ [first] = _ from hbegun) rfl
  obtain rfl := List.singleton_inj.mp hm
  rw [hline, hwritten, ← hsent, List.flatMap_nil, List.nil_append]

/-- The write of a first frame that fits goes on. -/
theorem Inv.poll_of_fits (h : s.Inv S first cap) (hstage : s.stage = .first)
    (hfits : (S.line first).length ≤ cap) : s.serverWrite.poll ≠ none := by
  intro hpoll
  obtain ⟨rest, hcurrent⟩ := Option.isSome_iff_exists.mp (h.writing.mpr (.inl hstage))
  have hline := congrArg List.length (h.line_of_first hstage hcurrent)
  have hclosed := h.closed
  obtain ⟨hreceiving, -⟩ := h.opening (.inl hstage)
  have hlive : s.serverWrite.pipe.writer = .live := by
    simpa [hreceiving, hstage, ToServer.ending] using hclosed
  obtain ⟨hfull, hattended⟩ := Outlet.full_of_poll hpoll hlive (by simp [hcurrent])
  rw [Pipe.Full, h.capacity] at hfull
  rw [List.length_append, Pipe.written, List.length_append] at hline
  have hrest : rest = [] := List.eq_nil_of_length_eq_zero (by omega)
  simp [Outlet.poll, hcurrent, hrest, hattended] at hpoll

/-- A first frame that fits is written, and then the loops drain the pipe. -/
theorem Inv.drains_of_first (h : s.Inv S first cap) (hstage : s.stage = .first)
    (hfits : (S.line first).length ≤ cap) (hblocked : s.ServerBlocked) : s.Drains S := by
  obtain ⟨rest, hcurrent⟩ := Option.isSome_iff_exists.mp (h.writing.mpr (.inl hstage))
  induction hlength : rest.length using Nat.strong_induction_on generalizing s rest with
  | _ n ih =>
      obtain ⟨⟨wrote, serverWrite⟩, hpoll⟩ :=
        Option.ne_none_iff_exists'.mp (h.poll_of_fits hstage hfits)
      have hstep := step_first (S := S) hstage hpoll
      have h' := h.step hstep
      cases wrote with
      | more =>
          obtain ⟨a, rest', rfl, hrest'⟩ := Outlet.current_of_more hpoll hcurrent
          exact .later rfl hstep
            (ih rest'.length (by simp [← hlength]) h' hstage hblocked rest' hrest' rfl)
      | all => exact .later rfl hstep (h'.drains_of_loops rfl hblocked)
      | failed => exact .now rfl hstep (.inr rfl)

/-- The pump waits for the server to read, and the server for the pump. -/
structure Wedged (s : Duplex σ) : Prop where
  first : s.stage = .first
  more : ∃ a rest, s.serverWrite.current = some (a :: rest)
  full : s.serverWrite.pipe.Full
  attended : s.serverWrite.pipe.attended = true
  blocked : s.ServerBlocked

theorem Wedged.poll (h : s.Wedged) : s.serverWrite.poll = none := by
  obtain ⟨a, rest, hcurrent⟩ := h.more
  have hfull : s.serverWrite.pipe.buffered.length = s.serverWrite.pipe.capacity := h.full
  simp [Outlet.poll, hcurrent, h.attended, Pipe.put, hfull]

/-- Only the caller moves, and for nothing. -/
theorem Wedged.step {s' : Duplex σ} {move : DuplexMove σ} (h : s.Wedged)
    (hpumps : move.pumps = true) (hstep : duplexStep S s move = some s') :
    s'.Wedged ∧ s'.fromServer = s.fromServer := by
  cases move with
  | first => simp [duplexStep, stepFirst, h.first, h.poll] at hstep
  | toServer n now => simp [duplexStep, stepToServer, h.first] at hstep
  | toTransport n now => simp [duplexStep, stepToTransport, h.first] at hstep
  | callerReads n =>
      obtain ⟨-, hstep⟩ := Option.ite_none_right_eq_some.mp hstep
      obtain ⟨⟨bs, pipe⟩, -, rfl⟩ := Option.map_eq_some_iff.mp hstep
      exact ⟨⟨h.first, h.more, h.full, h.attended, h.blocked⟩, rfl⟩
  | callerWrites | callerStops | callerLeaves | serverWrites | serverStops | serverReads
  | serverLeaves | elsewhere => simp [DuplexMove.pumps] at hpumps

theorem Wedged.not_drains (h : s.Wedged) : ¬ s.Drains S := by
  intro hdrains
  induction hdrains with
  | now hpumps hstep hdrained =>
      obtain ⟨-, hsame⟩ := h.step hpumps hstep
      simp [hsame, h.blocked.2] at hdrained
  | later hpumps hstep _ ih => exact ih (h.step hpumps hstep).1

/-- The first frame is under way, with this many bytes in the pipe to the server
and in the pipe from it, and none taken from either. -/
structure Filled (caps : Capacities) (toServer fromServer : Nat) (s : Duplex σ) : Prop where
  first : s.stage = .first
  attended : s.serverWrite.pipe.attended = true
  untaken : s.serverWrite.pipe.taken = []
  buffered : s.serverWrite.pipe.buffered.length = toServer
  live : s.fromServer.pipe.writer = .live
  read : s.fromServer.pipe.attended = true
  capacity : s.fromServer.pipe.capacity = caps.fromServer
  produced : s.fromServer.pipe.buffered.length = fromServer

variable {caps : Capacities} {m n : Nat}

theorem Inv.current_of_filled (h : s.Inv S first cap) (hfilled : s.Filled caps m n)
    (hlong : m < (S.line first).length) :
    ∃ a rest, s.serverWrite.current = some (a :: rest) := by
  obtain ⟨rest, hcurrent⟩ := Option.isSome_iff_exists.mp (h.writing.mpr (.inl hfilled.first))
  have hline := congrArg List.length (h.line_of_first hfilled.first hcurrent)
  cases rest with
  | nil =>
      simp [Pipe.written, hfilled.untaken, hfilled.buffered] at hline
      omega
  | cons a rest => exact ⟨a, rest, hcurrent⟩

/-- The pump writes a byte of the first frame. -/
theorem Inv.filled_first (h : s.Inv S first cap) (hfilled : s.Filled caps m n) (hroom : m < cap)
    (hlong : m < (S.line first).length) :
    ∃ s', duplexStep S s .first = some s' ∧ s'.Filled caps (m + 1) n := by
  obtain ⟨a, rest, hcurrent⟩ := h.current_of_filled hfilled hlong
  have hclosed := h.closed
  obtain ⟨hreceiving, -⟩ := h.opening (.inl hfilled.first)
  have hlive : s.serverWrite.pipe.writer = .live := by
    simpa [hreceiving, hfilled.first, ToServer.ending] using hclosed
  obtain ⟨pipe, hput⟩ := Pipe.exists_put hlive (by rw [hfilled.buffered, h.capacity]; exact hroom) a
  have hpoll : s.serverWrite.poll =
      some (.more, { s.serverWrite with pipe, current := some rest }) := by
    simp [Outlet.poll, hcurrent, hfilled.attended, hput]
  obtain ⟨htaken, hbuffered, -, hattended, -⟩ := Pipe.put_eq_some hput
  exact ⟨_, step_first hfilled.first hpoll,
    { hfilled with
      attended := hattended.trans hfilled.attended
      untaken := htaken.trans hfilled.untaken
      buffered := by simp [hbuffered, hfilled.buffered] }⟩

/-- The server writes a byte. -/
theorem Filled.produce (hfilled : s.Filled caps m n) (hroom : n < caps.fromServer) :
    ∃ s', duplexStep S s (.serverWrites 0) = some s' ∧ s'.Filled caps m (n + 1) := by
  obtain ⟨pipe, hput⟩ := Pipe.exists_put hfilled.live
    (by rw [hfilled.produced, hfilled.capacity]; exact hroom) 0
  obtain ⟨-, hbuffered, hwriter, hattended, hcapacity⟩ := Pipe.put_eq_some hput
  have hstep : duplexStep S s (.serverWrites 0) = some (s.withFromServer pipe) := by
    simp [duplexStep, hfilled.read, hput]
  exact ⟨_, hstep,
    { hfilled with
      live := hwriter.trans hfilled.live
      read := hattended.trans hfilled.read
      capacity := hcapacity.trans hfilled.capacity
      produced := by simp [withFromServer, hbuffered, hfilled.produced] }⟩

/-- A first frame that does not fit fills the pipe to the server, and a server
that writes first the pipe from it. -/
theorem reaches_filled (limiter : σ) (ahead : List UInt8)
    (hlong : (caps.serverWrite : Nat) < (S.line first).length) (hm : m ≤ caps.serverWrite)
    (hn : n ≤ caps.fromServer) :
    ∃ moves s, run (duplexStep S) (start S caps limiter first ahead) moves = some s ∧
      s.Filled caps m n := by
  induction n with
  | zero =>
      induction m with
      | zero => exact ⟨[], _, rfl, rfl, rfl, rfl, rfl, rfl, rfl, rfl, rfl⟩
      | succ m ih =>
          obtain ⟨moves, s, hrun, hfilled⟩ := ih (by omega)
          have h : s.Inv S first caps.serverWrite :=
            run_invariant (fun _ _ _ h hstep => Inv.step h hstep) (inv_start caps limiter ahead)
              hrun
          obtain ⟨s', hstep, hfilled'⟩ := h.filled_first hfilled (by omega) (by omega)
          exact ⟨moves ++ [.first], s', by rw [run_snoc, hrun]; exact hstep, hfilled'⟩
  | succ n ih =>
      obtain ⟨moves, s, hrun, hfilled⟩ := ih (by omega)
      obtain ⟨s', hstep, hfilled'⟩ := hfilled.produce (S := S) (by omega)
      exact ⟨moves ++ [.serverWrites 0], s', by rw [run_snoc, hrun]; exact hstep, hfilled'⟩

theorem Inv.wedged_of_filled (h : s.Inv S first cap) (hlong : (cap : Nat) < (S.line first).length)
    (hfilled : s.Filled caps cap caps.fromServer) : s.Wedged where
  first := hfilled.first
  more := h.current_of_filled hfilled hlong
  full := by rw [Pipe.Full, hfilled.buffered, h.capacity]
  attended := hfilled.attended
  blocked := ⟨by rw [Pipe.Full, hfilled.produced, hfilled.capacity], hfilled.read⟩

end Duplex

open Duplex in
/-- **A full pipe never wedges a session** whose first frame fits into the pipe to
the server, and only of those is it true: whatever the other capacities are. -/
theorem full_pipe_drains_iff {σ : Type} (S : PumpSession σ) (caps : Capacities) (limiter : σ)
    (first : Json) (ahead : List UInt8) :
    (∀ moves s, run (duplexStep S) (.start S caps limiter first ahead) moves = some s →
      s.ServerBlocked → s.Drains S) ↔ (S.line first).length ≤ caps.serverWrite := by
  have hinv : ∀ moves s, run (duplexStep S) (.start S caps limiter first ahead) moves = some s →
      s.Inv S first caps.serverWrite := fun moves s hrun =>
    run_invariant (fun _ _ _ h hstep => Inv.step h hstep) (inv_start caps limiter ahead) hrun
  constructor
  · intro hdrains
    by_contra hlong
    rw [not_le] at hlong
    obtain ⟨moves, s, hrun, hfilled⟩ := reaches_filled limiter ahead hlong le_rfl le_rfl
    have hwedged := (hinv moves s hrun).wedged_of_filled hlong hfilled
    exact hwedged.not_drains (hdrains moves s hrun hwedged.blocked)
  · intro hfits moves s hrun hblocked
    have h := hinv moves s hrun
    cases hstage : s.stage with
    | first => exact h.drains_of_first hstage hfits hblocked
    | loops => exact h.drains_of_loops hstage hblocked
    | failed => simp [ServerBlocked, h.dropped (.inl hstage)] at hblocked
    | ended => simp [ServerBlocked, h.dropped (.inr hstage)] at hblocked

/-! ### a first frame that is too long -/

namespace LongFirstFrame

open ByteByByte (session opening)

/-- The pipe to the server holds two bytes, and the first line has three. -/
def start : Duplex Nat := .start session ⟨32, 16, 4, 2⟩ 0 opening []

/-- The server writes before it reads. -/
def moves : List (DuplexMove Nat) := .replicate 2 .first ++ .replicate 4 (.serverWrites 120)

def blocked : Duplex Nat := (run (duplexStep session) start moves).getD start

theorem wedged : blocked.Wedged where
  first := by decide +kernel
  more := ⟨10, [], by decide +kernel⟩
  full := by decide +kernel
  attended := by decide +kernel
  blocked := ⟨by decide +kernel, by decide +kernel⟩

end LongFirstFrame

open LongFirstFrame in
/-- Nobody reads what the server writes while the first frame is written. -/
theorem long_first_frame_wedges :
    run (duplexStep ByteByByte.session) start moves = some blocked ∧ blocked.ServerBlocked ∧
      ¬ blocked.Drains ByteByByte.session :=
  ⟨rfl, wedged.blocked, wedged.not_drains⟩

end Mcpmesh
