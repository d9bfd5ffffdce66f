import Mcpmesh.Backends.Duplex

/-!
# Mcpmesh.Backends.Bookkeeping

What holds of a session in every state that it reaches (`pump`,
`node/src/backends/mod.rs`).

Of each direction: what it has read and why it ended, what it has begun to
write, and what waits to be written; and which of the two holds the transport's
writer.  A step lemma for each direction, and one for the session.
-/

namespace Mcpmesh

open Lib

def ToServer.ending : ToServer → Option Ending
  | .parked why => some why
  | _ => none

/-- The reply that is not yet begun. -/
def ToServer.waiting : ToServer → List Json
  | .queued reply => [reply]
  | _ => []

def ToTransport.ending : ToTransport → Option Ending
  | .ended why => some why
  | _ => none

def ToTransport.waiting : ToTransport → List Json
  | .queued frame => [frame]
  | _ => []

/-- What a direction has read when it ended for this reason, or did not. -/
def Inlet.Answered (S : Serde Json) (i : Inlet) (frames : List Json) : Option Ending → Prop
  | none | some .gone => i.HasRead S (frames.map .frame)
  | some .failed => i.HasRead S (frames.map .frame) ∧ i.pipe.writer = .reset
  | some .eof => i.Drained S (frames.map .frame)
  | some (.violation v) =>
      i.HasRead S (frames.map .frame ++ [.violation v]) ∨
        i.Drained S (frames.map .frame ++ [.violation v])

/-- A direction with a reader of this cap has read these frames. -/
structure Inlet.Stands (S : Serde Json) (maxFrame : Nat) (i : Inlet) (frames : List Json)
    (why : Option Ending) : Prop where
  cap : i.reader.maxFrame = maxFrame
  answered : i.Answered S frames why

namespace Duplex

variable {σ : Type}

/-- Whose message is under way: a reply is `to_server`'s, a frame `to_transport`'s. -/
def Holder (s : Duplex σ) : Prop :=
  match s.toCaller.current with
  | none => s.toServer ≠ .replying ∧ s.toTransport ≠ .sending
  | some _ =>
      (s.toServer = .replying ∧ s.toTransport ≠ .sending ∧
        ∃ before v, s.toCaller.begun = before ++ [.reply v]) ∨
      (s.toServer ≠ .replying ∧ s.toTransport = .sending ∧
        ∃ before v, s.toCaller.begun = before ++ [.frame v])

/-- What holds in every reachable state. -/
structure Inv (S : PumpSession σ) (first : Json) (cap : ℕ+) (s : Duplex σ) : Prop where
  fromCaller : s.fromCaller.Stands S.serde S.maxFrame (s.heard.map Heard.raw) s.toServer.ending
  fromServer : s.fromServer.Stands S.serde maxFrameBytes s.served s.toTransport.ending
  cleaned : ∀ h ∈ s.heard, (sanitizeCallerFrame h.raw S.peerMeta).map Prod.fst = some h.clean
  serverWrite : s.serverWrite.Lined S.line
  toCaller : s.toCaller.Lined (S.line ∘ Outgoing.value)
  forwards : s.serverWrite.begun = first :: s.heard.filterMap Heard.forwarded
  replies : s.heard.filterMap Heard.reply =
    s.toCaller.begun.filterMap Outgoing.reply? ++ s.toServer.waiting
  frames : s.served = s.toCaller.begun.filterMap Outgoing.frame? ++ s.toTransport.waiting
  opening : s.stage = .first ∨ s.stage = .failed → s.toServer = .receiving ∧ s.heard = []
  writing : s.serverWrite.current.isSome = true ↔ s.stage = .first ∨ s.toServer = .forwarding
  unwritten : s.serverWrite.failed = true ↔ s.toServer = .parked .gone ∨ s.stage = .failed
  closed : s.serverWrite.pipe.writer =
    if s.toServer.ending.isSome = true ∨ s.stage = .failed ∨ s.stage = .ended then .closed
    else .live
  holder : s.Holder
  ended : s.stage = .ended ↔ s.toTransport.ending.isSome = true
  unsent : s.toTransport = .ended .gone → s.toCaller.failed = true
  sendable : s.stage ≠ .ended → s.toCaller.pipe.writer = .live
  dropped : s.stage = .failed ∨ s.stage = .ended → s.fromServer.pipe.attended = false
  capacity : s.serverWrite.pipe.capacity = cap

end Duplex

namespace Inlet

variable {S : Serde Json} {i i' : Inlet} {frames : List Json} {why : Option Ending}
  {maxFrame n : Nat} {polled : Poll (Except Unit (Option (Inbound Json)))} {pipe : Pipe UInt8}

/-- A direction whose write failed has read what it had. -/
theorem Stands.gone (h : i.Stands S maxFrame frames none) :
    i.Stands S maxFrame frames (some .gone) :=
  ⟨h.cap, h.answered⟩

/-- What was read stands as the pipe is fed. -/
theorem Stands.fed (h : i.Stands S maxFrame frames why) (hfed : i.pipe.Fed pipe) :
    Stands S maxFrame { i with pipe } frames why := by
  obtain ⟨hcap, hanswered⟩ := h
  refine ⟨hcap, ?_⟩
  cases why with
  | none => exact HasRead.of_taken hanswered hfed.taken
  | some why =>
      cases why with
      | eof => exact Drained.fed hanswered hfed
      | violation v => exact hanswered.imp (·.of_taken hfed.taken) (·.fed hfed)
      | failed =>
          obtain ⟨hread, hreset⟩ := hanswered
          obtain ⟨hwriter, -⟩ := hfed.ended (by simp [hreset])
          exact ⟨hread.of_taken hfed.taken, hwriter.trans hreset⟩
      | gone => exact HasRead.of_taken hanswered hfed.taken

/-- **Step lemma** of a direction's reads. -/
theorem Stands.next (h : i.Stands S maxFrame frames none) (hnext : i.next S n = some (polled, i')) :
    match polled with
    | .pending => i'.Stands S maxFrame frames none
    | .ready (.ok (some (.frame v))) => i'.Stands S maxFrame (frames ++ [v]) none
    | .ready (.ok (some (.violation v))) => i'.Stands S maxFrame frames (some (.violation v))
    | .ready (.ok none) => i'.Stands S maxFrame frames (some .eof)
    | .ready (.error _) => i'.Stands S maxFrame frames (some .failed) := by
  have hstep := HasRead.next h.answered hnext
  obtain ⟨-, -, hmax⟩ := kept_next hnext
  have hcap := hmax.trans h.cap
  cases polled with
  | pending => exact ⟨hcap, hstep⟩
  | ready out =>
      cases out with
      | error e => exact ⟨hcap, hstep⟩
      | ok inbound =>
          cases inbound with
          | none => exact ⟨hcap, hstep⟩
          | some inbound =>
              cases inbound with
              | frame v =>
                  obtain hread | ⟨⟨_, hviolation⟩, -⟩ := hstep
                  · exact ⟨hcap, by simpa [Answered] using hread⟩
                  · contradiction
              | violation v => exact ⟨hcap, hstep.imp_right And.right⟩

end Inlet

namespace Duplex

variable {σ : Type} {S : PumpSession σ} {first : Json} {cap : ℕ+} {s s' : Duplex σ}
  {n now : Nat}

/-- What the caller does to its stream. -/
theorem Inv.withFromCaller {pipe : Pipe UInt8} (h : s.Inv S first cap)
    (hfed : s.fromCaller.pipe.Fed pipe) : (s.withFromCaller pipe).Inv S first cap :=
  { h with fromCaller := h.fromCaller.fed hfed }

/-- More from the server. -/
theorem Inv.withFromServer {pipe : Pipe UInt8} (h : s.Inv S first cap)
    (hfed : s.fromServer.pipe.Fed pipe) (hattended : pipe.attended = s.fromServer.pipe.attended) :
    (s.withFromServer pipe).Inv S first cap :=
  { h with
    fromServer := h.fromServer.fed hfed
    dropped := fun hstage => hattended.trans (h.dropped hstage) }

/-- More taken by the caller. -/
theorem Inv.withToCaller {pipe : Pipe UInt8} (h : s.Inv S first cap)
    (hkept : s.toCaller.pipe.Kept pipe) (hwriter : pipe.writer = s.toCaller.pipe.writer) :
    (s.withToCaller pipe).Inv S first cap :=
  { h with
    toCaller := h.toCaller.kept hkept
    sendable := fun hstage => hwriter.trans (h.sendable hstage) }

/-- More taken by the server. -/
theorem Inv.withServerWrite {pipe : Pipe UInt8} (h : s.Inv S first cap)
    (hkept : s.serverWrite.pipe.Kept pipe) (hwriter : pipe.writer = s.serverWrite.pipe.writer) :
    (s.withServerWrite pipe).Inv S first cap :=
  { h with
    serverWrite := h.serverWrite.kept hkept
    closed := hwriter.trans h.closed
    capacity := hkept.capacity.trans h.capacity }

/-- A session that starts has delivered nothing. -/
theorem inv_start (caps : Capacities) (limiter : σ) (ahead : List UInt8) :
    (start S caps limiter first ahead).Inv S first caps.serverWrite where
  fromCaller := ⟨rfl, Inlet.hasRead_new caps.fromCaller S.maxFrame ahead⟩
  fromServer := ⟨rfl, Inlet.hasRead_new caps.fromServer maxFrameBytes []⟩
  cleaned := by simp [start]
  serverWrite := (Outlet.lined_new caps.serverWrite).start rfl first
  toCaller := Outlet.lined_new caps.toCaller
  forwards := rfl
  replies := rfl
  frames := rfl
  opening _ := ⟨rfl, rfl⟩
  writing := by simp [start, Outlet.start]
  unwritten := by simp [start, Outlet.start, Outlet.new]
  closed := rfl
  holder := by simp [Holder, start, Outlet.new]
  ended := by simp [start, ToTransport.ending]
  unsent := by simp [start]
  sendable _ := rfl
  dropped := by simp [start]
  capacity := rfl

/-- Nobody resets the server's stdin. -/
theorem Inv.writer_ne_reset (h : s.Inv S first cap) : s.serverWrite.pipe.writer ≠ .reset := by
  rw [h.closed]
  split <;> simp

/-- The first frame goes to the server, or the session ends. -/
theorem Inv.stepFirst (h : s.Inv S first cap) (hstep : s.stepFirst = some s') :
    s'.Inv S first cap := by
  unfold Duplex.stepFirst at hstep
  split at hstep
  · next hstage =>
    have hopening := h.opening (.inl hstage)
    have hreceiving := hopening.1
    obtain ⟨⟨wrote, serverWrite⟩, hpoll, rfl⟩ := Option.map_eq_some_iff.mp hstep
    obtain ⟨hbegun, hwriter, hcapacity, hcurrent, hcurrent', hfailed⟩ := Outlet.poll_spec hpoll
    have hlined := h.serverWrite.poll hpoll
    have hended := h.ended
    have hclosed := h.closed
    have hunwritten := h.unwritten
    cases wrote with
    | more =>
        exact { h with
          serverWrite := hlined
          forwards := hbegun.trans h.forwards
          writing := by simp [hcurrent', hstage]
          unwritten := by simpa [hfailed] using hunwritten
          closed := by simpa [hwriter] using hclosed
          capacity := hcapacity.trans h.capacity }
    | all =>
        exact { h with
          serverWrite := hlined
          forwards := hbegun.trans h.forwards
          opening := by simp
          writing := by simp [hcurrent', hreceiving]
          unwritten := by simpa [hfailed, hstage] using hunwritten
          closed := by simpa [hwriter, hstage] using hclosed
          ended := by simpa [hstage] using hended
          sendable := fun _ => h.sendable (by simp [hstage])
          dropped := by simp
          capacity := hcapacity.trans h.capacity }
    | failed =>
        exact { h with
          fromServer := h.fromServer.fed (Pipe.fed_leave _)
          serverWrite := hlined.kept (Pipe.kept_finish _ _)
          forwards := hbegun.trans h.forwards
          opening := fun _ => hopening
          writing := by simp [dropServer, hcurrent', hreceiving]
          unwritten := by simp [dropServer, hfailed]
          closed := by simpa [dropServer] using
            Pipe.writer_finish_closed (hwriter ▸ h.writer_ne_reset)
          ended := by simpa [dropServer, hstage] using hended
          sendable := fun _ => h.sendable (by simp [hstage])
          dropped := fun _ => rfl
          capacity := (Pipe.kept_finish _ _).capacity.trans (hcapacity.trans h.capacity) }
  · contradiction

/-- Who holds the writer is seen from the two directions. -/
theorem Holder.congr (h : s.Holder)
    (hcurrent : s'.toCaller.current.isSome = s.toCaller.current.isSome)
    (hbegun : s'.toCaller.begun = s.toCaller.begun)
    (hreplying : s'.toServer = .replying ↔ s.toServer = .replying)
    (hsending : s'.toTransport = .sending ↔ s.toTransport = .sending) : s'.Holder := by
  unfold Holder at h ⊢
  simp only [ne_eq, hreplying, hsending, hbegun]
  cases hs : s.toCaller.current <;> cases hs' : s'.toCaller.current <;> simp_all

/-! ### direction `to_server` -/

/-- A frame beyond the limit is answered by the session itself. -/
theorem Inv.throttle {fromCaller : Inlet} {raw clean : Json} {warned : Bool} {limiter : σ}
    {ms : Nat} (h : s.Inv S first cap) (hstage : s.stage = .loops)
    (hreceiving : s.toServer = .receiving)
    (hstands : fromCaller.Stands S.serde S.maxFrame (s.heard.map Heard.raw ++ [raw]) none)
    (hclean : (sanitizeCallerFrame raw S.peerMeta).map Prod.fst = some clean) :
    (Duplex.throttle S { s with fromCaller, warned, limiter } now raw clean ms).Inv S first
      cap := by
  have hcleaned : ∀ h ∈ s.heard ++ [⟨raw, clean, some ms⟩],
      (sanitizeCallerFrame h.raw S.peerMeta).map Prod.fst = some h.clean := by
    exact List.forall_mem_append.mpr ⟨h.cleaned, List.forall_mem_singleton.mpr hclean⟩
  have hforwarded : Heard.forwarded ⟨raw, clean, some ms⟩ = none := rfl
  have hforwards := h.forwards
  have hreplies := h.replies
  have hwriting := h.writing
  have hunwritten := h.unwritten
  have hclosed := h.closed
  rw [hreceiving] at hreplies hwriting hunwritten hclosed
  unfold Duplex.throttle
  cases hid : clean.idOf with
  | some id =>
      exact { h with
        fromCaller := by simpa [ToServer.ending] using hstands
        cleaned := hcleaned
        forwards := by simpa [hforwarded] using hforwards
        replies := by simpa [Heard.reply, hid, ToServer.waiting] using hreplies
        opening := by simp [hstage]
        writing := by simpa using hwriting
        unwritten := by simpa using hunwritten
        closed := by simpa [ToServer.ending] using hclosed
        holder := h.holder.congr rfl rfl (by simp [hreceiving]) .rfl }
  | none =>
      exact { h with
        fromCaller := by simpa [ToServer.ending, hreceiving] using hstands
        cleaned := hcleaned
        forwards := by simpa [hforwarded] using hforwards
        replies := by simpa [Heard.reply, hid, hreceiving] using hreplies
        opening := by simp [hstage]
        holder := h.holder.congr rfl rfl .rfl .rfl }

/-- A frame within the limit goes to the server. -/
theorem Inv.forward {fromCaller : Inlet} {raw clean : Json} {warned : Bool} {limiter : σ}
    (h : s.Inv S first cap) (hstage : s.stage = .loops) (hreceiving : s.toServer = .receiving)
    (hstands : fromCaller.Stands S.serde S.maxFrame (s.heard.map Heard.raw ++ [raw]) none)
    (hclean : (sanitizeCallerFrame raw S.peerMeta).map Prod.fst = some clean) :
    (Duplex.forward S { s with fromCaller, warned, limiter } now raw clean).Inv S first cap := by
  have hcleaned : ∀ h ∈ s.heard ++ [⟨raw, clean, none⟩],
      (sanitizeCallerFrame h.raw S.peerMeta).map Prod.fst = some h.clean := by
    exact List.forall_mem_append.mpr ⟨h.cleaned, List.forall_mem_singleton.mpr hclean⟩
  have hfree : s.serverWrite.current = none := by
    have hwriting := h.writing
    simpa [hstage, hreceiving] using hwriting
  have hforwards := h.forwards
  have hreplies := h.replies
  have hunwritten := h.unwritten
  have hclosed := h.closed
  rw [hreceiving] at hreplies hunwritten hclosed
  exact { h with
    fromCaller := by simpa [Duplex.forward, ToServer.ending] using hstands
    cleaned := hcleaned
    serverWrite := h.serverWrite.start hfree clean
    forwards := by simp [Duplex.forward, Outlet.start, Heard.forwarded, hforwards]
    replies := by simpa [Duplex.forward, Heard.reply, ToServer.waiting] using hreplies
    opening := by simp [Duplex.forward, hstage]
    writing := by simp [Duplex.forward, Outlet.start]
    unwritten := by simpa [Duplex.forward, Outlet.start] using hunwritten
    closed := by simpa [Duplex.forward, Outlet.start, ToServer.ending] using hclosed
    holder := h.holder.congr rfl rfl (by simp [Duplex.forward, hreceiving]) .rfl }

/-- A frame of the caller is forwarded or throttled. -/
theorem Inv.onCallerFrame {fromCaller : Inlet} {raw : Json} (h : s.Inv S first cap)
    (hstage : s.stage = .loops) (hreceiving : s.toServer = .receiving)
    (hstands : fromCaller.Stands S.serde S.maxFrame (s.heard.map Heard.raw ++ [raw]) none)
    (hstep : Duplex.onCallerFrame S { s with fromCaller } now raw = some s') :
    s'.Inv S first cap := by
  unfold Duplex.onCallerFrame at hstep
  obtain ⟨⟨clean, impersonating⟩, hcleaned, rfl⟩ := Option.map_eq_some_iff.mp hstep
  have hclean : (sanitizeCallerFrame raw S.peerMeta).map Prod.fst = some clean := by
    rw [hcleaned, Option.map_some]
  dsimp only
  split
  · split
    · exact h.throttle hstage hreceiving hstands hclean
    · exact h.forward hstage hreceiving hstands hclean
  · exact h.forward hstage hreceiving hstands hclean

/-- The direction reads no more, and nothing waits. -/
theorem Inv.parkReading {fromCaller : Inlet} {why : Ending} (h : s.Inv S first cap)
    (hstage : s.stage = .loops) (hreceiving : s.toServer = .receiving)
    (hstands : fromCaller.Stands S.serde S.maxFrame (s.heard.map Heard.raw) (some why))
    (hwhy : why ≠ .gone) : (Duplex.park { s with fromCaller } why).Inv S first cap := by
  have hreplies := h.replies
  have hwriting := h.writing
  have hunwritten := h.unwritten
  rw [hreceiving] at hreplies hwriting hunwritten
  exact { h with
    fromCaller := hstands
    serverWrite := h.serverWrite.kept (Pipe.kept_finish _ _)
    replies := by simpa [park, ToServer.waiting] using hreplies
    opening := by simp [park, hstage]
    writing := by simpa [park] using hwriting
    unwritten := by simpa [park, hwhy] using hunwritten
    closed := by simpa [park, ToServer.ending] using Pipe.writer_finish_closed h.writer_ne_reset
    holder := h.holder.congr rfl rfl (by simp [park, hreceiving]) .rfl
    capacity := (Pipe.kept_finish _ _).capacity.trans h.capacity }

/-- The server's input is closed: the frame under way is cut. -/
theorem Inv.parkGone {serverWrite : Outlet Json UInt8} (h : s.Inv S first cap)
    (hstage : s.stage = .loops) (hforwarding : s.toServer = .forwarding)
    (hpoll : s.serverWrite.poll = some (.failed, serverWrite)) :
    (Duplex.park { s with serverWrite } .gone).Inv S first cap := by
  obtain ⟨hbegun, hwriter, hcapacity, -, hcurrent, hfailed⟩ := Outlet.poll_spec hpoll
  have hstands := h.fromCaller
  have hreplies := h.replies
  rw [hforwarding] at hstands hreplies
  exact { h with
    fromCaller := hstands.gone
    serverWrite := (h.serverWrite.poll hpoll).kept (Pipe.kept_finish _ _)
    forwards := hbegun.trans h.forwards
    replies := by simpa [park, ToServer.waiting] using hreplies
    opening := by simp [park, hstage]
    writing := by simp [park, hcurrent, hstage]
    unwritten := by simp [park, hfailed]
    closed := by simpa [park, ToServer.ending] using
      Pipe.writer_finish_closed (hwriter ▸ h.writer_ne_reset)
    holder := h.holder.congr rfl rfl (by simp [park, hforwarding]) .rfl
    capacity := (Pipe.kept_finish _ _).capacity.trans (hcapacity.trans h.capacity) }

/-- A reply takes the writer when it is free. -/
theorem Inv.lockReply {reply : Json} {toCaller : Outlet Outgoing UInt8} (h : s.Inv S first cap)
    (hstage : s.stage = .loops) (hqueued : s.toServer = .queued reply)
    (hlock : s.toCaller.lock (S.line ∘ Outgoing.value) (.reply reply) = some toCaller) :
    Inv S first cap { s with toCaller, toServer := .replying } := by
  obtain ⟨hfree, rfl⟩ := Outlet.lock_eq_some.mp hlock
  have hstands := h.fromCaller
  have hreplies := h.replies
  have hframes := h.frames
  have hwriting := h.writing
  have hunwritten := h.unwritten
  have hclosed := h.closed
  have hholder := h.holder
  rw [hqueued] at hstands hreplies hwriting hunwritten hclosed
  simp only [Holder, hfree] at hholder
  exact { h with
    fromCaller := hstands
    toCaller := h.toCaller.start hfree (.reply reply)
    replies := by
      simpa [Outlet.start, ToServer.waiting] using hreplies
    frames := by simpa [Outlet.start, List.filterMap_cons] using hframes
    opening := by simp [hstage]
    writing := by simpa using hwriting
    unwritten := by simpa using hunwritten
    closed := hclosed
    holder := .inl ⟨rfl, hholder.2, _, _, rfl⟩ }

/-- Only the holder of the writer polls it. -/
theorem Inv.not_sending (h : s.Inv S first cap) (hreplying : s.toServer = .replying) :
    s.toTransport ≠ .sending := by
  have hholder := h.holder
  unfold Holder at hholder
  split at hholder
  · exact absurd hreplying hholder.1
  · obtain ⟨-, hsending, -⟩ | ⟨hother, -⟩ := hholder
    · exact hsending
    · exact absurd hreplying hother

/-- A reply is written on. -/
theorem Inv.pollReply {wrote : Wrote} {toCaller : Outlet Outgoing UInt8} (h : s.Inv S first cap)
    (hreplying : s.toServer = .replying) (hpoll : s.toCaller.poll = some (wrote, toCaller)) :
    Inv S first cap
      (match wrote with
      | .more => { s with toCaller }
      | .all | .failed => { s with toCaller, toServer := .receiving }) := by
  obtain ⟨hbegun, hwriter, hcapacity, hcurrent, hcurrent', hfailed⟩ := Outlet.poll_spec hpoll
  have hlined := h.toCaller.poll hpoll
  have hsendable := fun hstage => hwriter.trans (h.sendable hstage)
  have hstands := h.fromCaller
  have hreplies := h.replies
  have hframes := h.frames
  have hopening := h.opening
  have hwriting := h.writing
  have hunwritten := h.unwritten
  have hclosed := h.closed
  have hunsent := h.unsent
  rw [← hbegun] at hframes hreplies
  rw [hreplying] at hstands hreplies hopening hwriting hunwritten hclosed
  have hdone : wrote ≠ .more → Inv S first cap { s with toCaller, toServer := .receiving } := by
    intro hwrote
    have hfree : toCaller.current = none := by simpa [hwrote] using hcurrent'
    exact { h with
      fromCaller := hstands
      toCaller := hlined
      replies := hreplies
      frames := hframes
      opening := fun hstage => ⟨rfl, (hopening hstage).2⟩
      writing := by simpa using hwriting
      unwritten := by simpa using hunwritten
      closed := hclosed
      holder := by simp [Holder, hfree, h.not_sending hreplying]
      unsent := fun hended => by simp [hfailed, hunsent hended]
      sendable := hsendable }
  cases wrote with
  | more =>
      exact { h with
        toCaller := hlined
        replies := by simpa [hreplying] using hreplies
        frames := hframes
        holder := h.holder.congr (by simp [hcurrent, hcurrent']) hbegun .rfl .rfl
        unsent := fun hended => by simp [hfailed, hunsent hended]
        sendable := hsendable }
  | all => exact hdone (by simp)
  | failed => exact hdone (by simp)

/-- A frame is written on, to the server. -/
theorem Inv.pollForward {wrote : Wrote} {serverWrite : Outlet Json UInt8} (h : s.Inv S first cap)
    (hstage : s.stage = .loops) (hforwarding : s.toServer = .forwarding)
    (hpoll : s.serverWrite.poll = some (wrote, serverWrite)) :
    Inv S first cap
      (match wrote with
      | .more => { s with serverWrite }
      | .all => { s with serverWrite, toServer := .receiving }
      | .failed => park { s with serverWrite } .gone) := by
  obtain ⟨hbegun, hwriter, hcapacity, -, hcurrent', hfailed⟩ := Outlet.poll_spec hpoll
  have hlined := h.serverWrite.poll hpoll
  have hforwards := hbegun.trans h.forwards
  have hstands := h.fromCaller
  have hreplies := h.replies
  have hunwritten := h.unwritten
  have hclosed := h.closed
  rw [hforwarding] at hstands hreplies hunwritten hclosed
  cases wrote with
  | more =>
      exact { h with
        serverWrite := hlined
        forwards := hforwards
        writing := by simp [hcurrent', hforwarding]
        unwritten := by simpa [hfailed, hforwarding] using hunwritten
        closed := by simpa [hwriter, hforwarding] using hclosed
        capacity := hcapacity.trans h.capacity }
  | all =>
      exact { h with
        fromCaller := hstands
        serverWrite := hlined
        forwards := hforwards
        replies := hreplies
        opening := by simp [hstage]
        writing := by simp [hcurrent', hstage]
        unwritten := by simpa [hfailed] using hunwritten
        closed := by simpa [hwriter, ToServer.ending] using hclosed
        holder := h.holder.congr rfl rfl (by simp [hforwarding]) .rfl
        capacity := hcapacity.trans h.capacity }
  | failed => exact h.parkGone hstage hforwarding hpoll

/-- Each step of the request direction keeps the account. -/
theorem Inv.stepToServer (h : s.Inv S first cap) (hstep : s.stepToServer S n now = some s') :
    s'.Inv S first cap := by
  unfold Duplex.stepToServer at hstep
  split at hstep
  · next hstage =>
    split at hstep
    · next hreceiving =>
      have hstands := h.fromCaller
      rw [hreceiving] at hstands
      obtain ⟨⟨polled, fromCaller⟩, hnext, hstep⟩ := Option.bind_eq_some_iff.mp hstep
      have hstands' := Inlet.Stands.next hstands hnext
      dsimp only at hstep
      split at hstep
      · obtain rfl := Option.some.inj hstep
        exact { h with fromCaller := by simpa [hreceiving, ToServer.ending] using hstands' }
      · exact h.onCallerFrame hstage hreceiving hstands' hstep
      · obtain rfl := Option.some.inj hstep
        exact h.parkReading hstage hreceiving hstands' (by simp)
      · obtain rfl := Option.some.inj hstep
        exact h.parkReading hstage hreceiving hstands' (by simp)
      · obtain rfl := Option.some.inj hstep
        exact h.parkReading hstage hreceiving hstands' (by simp)
    · next reply hqueued =>
      obtain ⟨toCaller, hlock, rfl⟩ := Option.map_eq_some_iff.mp hstep
      exact h.lockReply hstage hqueued hlock
    · next hreplying =>
      obtain ⟨⟨wrote, toCaller⟩, hpoll, rfl⟩ := Option.map_eq_some_iff.mp hstep
      have hstep := h.pollReply hreplying hpoll
      cases wrote <;> exact hstep
    · next hforwarding =>
      obtain ⟨⟨wrote, serverWrite⟩, hpoll, rfl⟩ := Option.map_eq_some_iff.mp hstep
      have hstep := h.pollForward hstage hforwarding hpoll
      cases wrote <;> exact hstep
    · contradiction
  · contradiction

/-! ### direction `to_transport` -/

/-- The direction ends, and the session with it. -/
theorem Inv.finish {fromServer : Inlet} {toCaller : Outlet Outgoing UInt8} {why : Ending}
    (h : s.Inv S first cap) (hstage : s.stage = .loops) (hwaiting : s.toTransport.waiting = [])
    (hstands : fromServer.Stands S.serde maxFrameBytes s.served (some why))
    (hlined : toCaller.Lined (S.line ∘ Outgoing.value))
    (hbegun : toCaller.begun = s.toCaller.begun)
    (hholder : Holder { s with toCaller, toTransport := .ended why })
    (hunsent : why = .gone → toCaller.failed = true) :
    (Duplex.finish { s with fromServer, toCaller } why).Inv S first cap := by
  have hreplies := h.replies
  have hframes := h.frames
  have hwriting := h.writing
  have hunwritten := h.unwritten
  rw [← hbegun] at hreplies hframes
  rw [hwaiting] at hframes
  exact { h with
    fromServer := hstands.fed (Pipe.fed_leave _)
    serverWrite := h.serverWrite.kept (Pipe.kept_finish _ _)
    toCaller := hlined.kept (Pipe.kept_finish _ _)
    replies := hreplies
    frames := hframes
    opening := by simp [Duplex.finish]
    writing := by simpa [Duplex.finish, dropServer, hstage] using hwriting
    unwritten := by simpa [Duplex.finish, dropServer, hstage] using hunwritten
    closed := by simpa [Duplex.finish, dropServer] using
      Pipe.writer_finish_closed h.writer_ne_reset
    holder := hholder.congr rfl rfl .rfl .rfl
    ended := by simp [Duplex.finish, ToTransport.ending]
    unsent := by simpa [Duplex.finish] using hunsent
    sendable := by simp [Duplex.finish]
    dropped := fun _ => rfl
    capacity := (Pipe.kept_finish _ _).capacity.trans h.capacity }

/-- The direction reads no more. -/
theorem Inv.finishReading {fromServer : Inlet} {why : Ending} (h : s.Inv S first cap)
    (hstage : s.stage = .loops) (hreceiving : s.toTransport = .receiving)
    (hstands : fromServer.Stands S.serde maxFrameBytes s.served (some why)) (hwhy : why ≠ .gone) :
    (Duplex.finish { s with fromServer } why).Inv S first cap :=
  h.finish hstage (by simp [hreceiving, ToTransport.waiting]) hstands h.toCaller rfl
    (h.holder.congr rfl rfl .rfl (by simp [hreceiving])) fun hgone => absurd hgone hwhy

/-- A frame of the server is for the caller. -/
theorem Inv.onServerFrame {fromServer : Inlet} {frame : Json} (h : s.Inv S first cap)
    (hstage : s.stage = .loops) (hreceiving : s.toTransport = .receiving)
    (hstands : fromServer.Stands S.serde maxFrameBytes (s.served ++ [frame]) none) :
    (Duplex.onServerFrame S { s with fromServer } now frame).Inv S first cap := by
  have hframes := h.frames
  have hended := h.ended
  rw [hreceiving] at hframes hended
  exact { h with
    fromServer := hstands
    frames := by simpa [Duplex.onServerFrame, ToTransport.waiting] using hframes
    ended := hended
    holder := h.holder.congr rfl rfl .rfl (by simp [Duplex.onServerFrame, hreceiving])
    unsent := by simp [Duplex.onServerFrame]
    dropped := by simp [Duplex.onServerFrame, hstage] }

/-- A frame takes the writer when it is free. -/
theorem Inv.lockFrame {frame : Json} {toCaller : Outlet Outgoing UInt8} (h : s.Inv S first cap)
    (hqueued : s.toTransport = .queued frame)
    (hlock : s.toCaller.lock (S.line ∘ Outgoing.value) (.frame frame) = some toCaller) :
    Inv S first cap { s with toCaller, toTransport := .sending } := by
  obtain ⟨hfree, rfl⟩ := Outlet.lock_eq_some.mp hlock
  have hstands := h.fromServer
  have hreplies := h.replies
  have hframes := h.frames
  have hended := h.ended
  have hholder := h.holder
  rw [hqueued] at hstands hframes hended
  simp only [Holder, hfree] at hholder
  exact { h with
    fromServer := hstands
    toCaller := h.toCaller.start hfree (.frame frame)
    replies := by simpa [Outlet.start, List.filterMap_cons] using hreplies
    frames := by simpa [Outlet.start, ToTransport.waiting] using hframes
    holder := .inr ⟨hholder.1, rfl, _, _, rfl⟩
    ended := hended
    unsent := by simp }

/-- A frame on the writer keeps the replies waiting. -/
theorem Inv.not_replying (h : s.Inv S first cap) (hsending : s.toTransport = .sending) :
    s.toServer ≠ .replying := by
  intro hreplying
  exact h.not_sending hreplying hsending

/-- A frame is written on, to the caller. -/
theorem Inv.pollFrame {wrote : Wrote} {toCaller : Outlet Outgoing UInt8} (h : s.Inv S first cap)
    (hstage : s.stage = .loops) (hsending : s.toTransport = .sending)
    (hpoll : s.toCaller.poll = some (wrote, toCaller)) :
    Inv S first cap
      (match wrote with
      | .more => { s with toCaller }
      | .all => { s with toCaller, toTransport := .receiving }
      | .failed => Duplex.finish { s with toCaller } .gone) := by
  obtain ⟨hbegun, hwriter, hcapacity, hcurrent, hcurrent', hfailed⟩ := Outlet.poll_spec hpoll
  have hlined := h.toCaller.poll hpoll
  have hsendable := fun hstage => hwriter.trans (h.sendable hstage)
  have hstands := h.fromServer
  have hreplies := h.replies
  have hframes := h.frames
  have hended := h.ended
  rw [← hbegun] at hframes hreplies
  rw [hsending] at hstands hframes hended
  cases wrote with
  | more =>
      exact { h with
        toCaller := hlined
        replies := hreplies
        frames := by simpa [hsending] using hframes
        holder := h.holder.congr (by simp [hcurrent, hcurrent']) hbegun .rfl .rfl
        unsent := by simp [hsending]
        sendable := hsendable }
  | all =>
      have hfree : toCaller.current = none := by simpa using hcurrent'
      exact { h with
        fromServer := hstands
        toCaller := hlined
        replies := hreplies
        frames := hframes
        holder := by simp [Holder, hfree, h.not_replying hsending]
        ended := hended
        unsent := by simp
        sendable := hsendable }
  | failed =>
      have hfree : toCaller.current = none := by simpa using hcurrent'
      have hholder : Holder { s with toCaller, toTransport := .ended .gone } := by
        simp [Holder, hfree, h.not_replying hsending]
      exact h.finish hstage (by simp [hsending, ToTransport.waiting]) hstands.gone hlined hbegun
        hholder fun _ => by simp [hfailed]

/-- Each step of the response direction keeps the account. -/
theorem Inv.stepToTransport (h : s.Inv S first cap) (hstep : s.stepToTransport S n now = some s') :
    s'.Inv S first cap := by
  unfold Duplex.stepToTransport at hstep
  split at hstep
  · next hstage =>
    split at hstep
    · next hreceiving =>
      have hstands := h.fromServer
      rw [hreceiving] at hstands
      obtain ⟨⟨polled, fromServer⟩, hnext, hstep⟩ := Option.bind_eq_some_iff.mp hstep
      have hstands' := Inlet.Stands.next hstands hnext
      dsimp only at hstep
      split at hstep
      · obtain rfl := Option.some.inj hstep
        exact { h with
          fromServer := by simpa [hreceiving, ToTransport.ending] using hstands'
          dropped := by simp [hstage] }
      · obtain rfl := Option.some.inj hstep
        exact h.onServerFrame hstage hreceiving hstands'
      · obtain rfl := Option.some.inj hstep
        exact h.finishReading hstage hreceiving hstands' (by simp)
      · obtain rfl := Option.some.inj hstep
        exact h.finishReading hstage hreceiving hstands' (by simp)
      · obtain rfl := Option.some.inj hstep
        exact h.finishReading hstage hreceiving hstands' (by simp)
    · next frame hqueued =>
      obtain ⟨toCaller, hlock, rfl⟩ := Option.map_eq_some_iff.mp hstep
      exact h.lockFrame hqueued hlock
    · next hsending =>
      obtain ⟨⟨wrote, toCaller⟩, hpoll, rfl⟩ := Option.map_eq_some_iff.mp hstep
      have hstep := h.pollFrame hstage hsending hpoll
      cases wrote <;> exact hstep
    · contradiction
  · contradiction

/-- **Step lemma** of a session. -/
theorem Inv.step {move : DuplexMove σ} (h : s.Inv S first cap)
    (hstep : duplexStep S s move = some s') :
    s'.Inv S first cap := by
  cases move with
  | first => exact h.stepFirst hstep
  | toServer n now => exact h.stepToServer hstep
  | toTransport n now => exact h.stepToTransport hstep
  | callerWrites b =>
      obtain ⟨pipe, hput, rfl⟩ := Option.map_eq_some_iff.mp hstep
      exact h.withFromCaller (Pipe.fed_put hput)
  | callerStops how =>
      obtain rfl := Option.some.inj hstep
      exact h.withFromCaller (Pipe.fed_finish _ _)
  | callerReads n =>
      obtain ⟨-, hstep⟩ := Option.ite_none_right_eq_some.mp hstep
      obtain ⟨⟨bs, pipe⟩, htake, rfl⟩ := Option.map_eq_some_iff.mp hstep
      obtain ⟨-, -, hwriter, -⟩ := Pipe.take_eq_some htake
      exact h.withToCaller (Pipe.kept_take htake) hwriter
  | callerLeaves =>
      obtain rfl := Option.some.inj hstep
      exact h.withToCaller (Pipe.kept_leave _) rfl
  | serverWrites b =>
      obtain ⟨-, hstep⟩ := Option.ite_none_right_eq_some.mp hstep
      obtain ⟨pipe, hput, rfl⟩ := Option.map_eq_some_iff.mp hstep
      obtain ⟨-, -, -, hattended, -⟩ := Pipe.put_eq_some hput
      exact h.withFromServer (Pipe.fed_put hput) hattended
  | serverStops how =>
      obtain rfl := Option.some.inj hstep
      exact h.withFromServer (Pipe.fed_finish _ _) (Pipe.attended_finish _ _)
  | serverReads n =>
      obtain ⟨-, hstep⟩ := Option.ite_none_right_eq_some.mp hstep
      obtain ⟨⟨bs, pipe⟩, htake, rfl⟩ := Option.map_eq_some_iff.mp hstep
      obtain ⟨-, -, hwriter, -⟩ := Pipe.take_eq_some htake
      exact h.withServerWrite (Pipe.kept_take htake) hwriter
  | serverLeaves =>
      obtain rfl := Option.some.inj hstep
      exact h.withServerWrite (Pipe.kept_leave _) rfl
  | elsewhere limiter =>
      obtain rfl := Option.some.inj hstep
      exact { h with }

end Duplex

end Mcpmesh
