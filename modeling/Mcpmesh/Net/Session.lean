import Mcpmesh.Codec
import Mcpmesh.Net.Admit

/-!
# Mcpmesh.Net.Session

One accepted session, up to its backend (`run_session` of `net/src/endpoint.rs`,
`net/src/framing.rs`, `net/src/errors.rs`).

The first frame is taken for `initialize`.  A malformed line before it is
answered and struck, and the third strike ends the session; then the frame
selects a service, or the session is refused.  `run_session` reads the services,
the principal and the answer of the registry once each, so they are arguments.
-/

namespace Mcpmesh

open Lib Admit

/-! ## errors -/

namespace MeshError

/-- `ERR_FRAMING`. -/
def errFraming : Int := -32051

/-- `ERR_SERVICE`. -/
def errService : Int := -32054

/-- `ERR_PARSE`. -/
def errParse : Int := -32700

/-- `MSG_SERVICE`. -/
def msgService : String := "unknown or unauthorized service"

def synthesized (id : Json) (code : Int) (message : String) : Json :=
  .obj [("error", .obj [("code", .num code 0), ("data", .obj [("source", .str "mcpmesh")]),
    ("message", .str message)]), ("id", id), ("jsonrpc", .str "2.0")]

/-- What `recv_frame` answers to a malformed line. -/
def violated : Violation → Json
  | .tooLarge => synthesized .null errFraming "frame exceeds max_frame_bytes"
  | .invalidJson => synthesized .null errParse "frame is not valid JSON"

/-- What `run_session` answers when there is no backend for a frame. -/
def unserved (init : Json) : Json := synthesized ((init.get "id").getD .null) errService msgService

end MeshError

open MeshError

/-! ## strikes -/

inductive StrikeOutcome where
  | goOn
  | close
  deriving DecidableEq

/-- `Strikes(u8)`. -/
structure Strikes where
  count : Nat := 0

def Strikes.register (s : Strikes) : StrikeOutcome × Strikes :=
  let count := min (s.count + 1) 255
  (if 3 ≤ count then .close else .goOn, ⟨count⟩)

/-- Violations that do not end a session. -/
def strikesLeft : Nat := 2

/-! ## the session -/

/-- What `recv_frame` returns, with what it leaves unread and what it sent. -/
structure Reading where
  frame : Option Json
  unread : List (Inbound Json)
  sent : List Json

/-- `recv_frame` on the lines of a stream that then ends. -/
def recvFrame : List (Inbound Json) → Strikes → Reading
  | [], _ => ⟨none, [], []⟩
  | .frame v :: lines, _ => ⟨some v, lines, []⟩
  | .violation v :: lines, strikes =>
      match strikes.register with
      | (.close, _) => ⟨none, lines, [violated v]⟩
      | (.goOn, strikes) =>
          let r := recvFrame lines strikes
          { r with sent := violated v :: r.sent }

inductive SessionOutcome where
  /-- there was no first frame -/
  | ended
  | refused
  /-- the backend has the frame and the rest of the stream -/
  | backend (service : String) (identity : PeerIdentity) (init : Json)
      (unread : List (Inbound Json))

structure SessionRun where
  sent : List Json
  outcome : SessionOutcome

/-- `run_session`.  `identity` is what the principal resolved to, and `admits`
the answer of `ConnTracker::admit_session`. -/
def runSession (services : Services) (identity : Option PeerIdentity)
    (admits : String → PeerIdentity → Bool) (lines : List (Inbound Json)) : SessionRun :=
  let r := recvFrame lines {}
  match r.frame with
  | none => ⟨r.sent, .ended⟩
  | some first =>
      let (init, decision) := selectService first (callerAllowed services identity)
      let refused := ⟨r.sent ++ [unserved init], .refused⟩
      match decision, identity with
      | .selected name, some identity =>
          if admits name identity then ⟨r.sent, .backend name identity init r.unread⟩ else refused
      | _, _ => refused

/-! ## reading -/

/-- The malformed lines before the first frame. -/
def leadingViolations : List (Inbound Json) → List Violation
  | .violation v :: lines => v :: leadingViolations lines
  | _ => []

variable {services : Services} {identity : Option PeerIdentity}
  {admits : String → PeerIdentity → Bool} {lines : List (Inbound Json)}

/-- A strike ends the session from the third on. -/
theorem register_eq (s : Strikes) : s.register =
    (if s.count < strikesLeft then .goOn else .close, ⟨min (s.count + 1) 255⟩) := by
  rw [Strikes.register, strikesLeft]
  congr 1
  by_cases h : s.count < 2
  · rw [if_pos h, if_neg (by omega)]
  · rw [if_neg h, if_pos (by omega)]

theorem register_goOn {s : Strikes} (h : s.count < strikesLeft) :
    s.register = (.goOn, ⟨s.count + 1⟩) := by
  rw [register_eq, if_pos h, Nat.min_eq_left (by rw [strikesLeft] at h; omega)]

theorem register_close {s : Strikes} (h : ¬ s.count < strikesLeft) :
    s.register = (.close, ⟨min (s.count + 1) 255⟩) := by
  rw [register_eq, if_neg h]

/-- What is sent answers the malformed lines in their order, up to the last
strike. -/
theorem sent_recvFrame (lines : List (Inbound Json)) (s : Strikes) :
    (recvFrame lines s).sent =
      ((leadingViolations lines).take (strikesLeft - s.count + 1)).map violated := by
  induction lines generalizing s with
  | nil => rfl
  | cons line lines ih =>
      cases line with
      | frame v => rfl
      | violation v =>
          rw [recvFrame, leadingViolations, List.take_succ_cons, List.map_cons]
          by_cases h : s.count < strikesLeft
          · have hleft : strikesLeft - s.count = strikesLeft - (s.count + 1) + 1 := by omega
            rw [register_goOn h, hleft]
            exact congrArg (violated v :: ·) (ih ⟨s.count + 1⟩)
          · have hleft : strikesLeft - s.count = 0 := by omega
            rw [register_close h, hleft]
            rfl

/-- A frame is returned when few enough malformed lines are before it. -/
theorem frame_recvFrame {first : Json} {unread : List (Inbound Json)} {s : Strikes} :
    ((recvFrame lines s).frame = some first ∧ (recvFrame lines s).unread = unread) ↔
      ∃ vs : List Violation, lines = vs.map .violation ++ .frame first :: unread ∧
        (vs = [] ∨ s.count + vs.length ≤ strikesLeft) := by
  induction lines generalizing s with
  | nil => simp [recvFrame]
  | cons line lines ih =>
      cases line with
      | frame v =>
          constructor
          · rintro ⟨hframe, hunread⟩
            obtain rfl := Option.some.inj hframe
            exact ⟨[], congrArg _ hunread, .inl rfl⟩
          · rintro ⟨vs, heq, -⟩
            cases vs with
            | nil =>
                obtain ⟨hv, rfl⟩ := List.cons.inj heq
                obtain rfl := Inbound.frame.inj hv
                exact ⟨rfl, rfl⟩
            | cons w vs => exact absurd (List.cons.inj heq).1 nofun
      | violation v =>
          rw [recvFrame]
          by_cases h : s.count < strikesLeft
          · rw [register_goOn h]
            dsimp only
            rw [ih]
            constructor
            · rintro ⟨vs, rfl, hfew⟩
              refine ⟨v :: vs, rfl, .inr ?_⟩
              obtain rfl | hfew := hfew
              · exact h
              · rw [List.length_cons]
                dsimp only at hfew
                omega
            · rintro ⟨vs, heq, hfew⟩
              cases vs with
              | nil => exact absurd (List.cons.inj heq).1 nofun
              | cons w vs =>
                  obtain ⟨-, hrest⟩ := List.cons.inj heq
                  obtain hnil | hfew := hfew
                  · contradiction
                  · rw [List.length_cons] at hfew
                    exact ⟨vs, hrest, .inr (by dsimp only; omega)⟩
          · rw [register_close h]
            constructor
            · rintro ⟨hframe, -⟩
              contradiction
            · rintro ⟨vs, heq, hfew⟩
              cases vs with
              | nil => exact absurd (List.cons.inj heq).1 nofun
              | cons w vs =>
                  obtain hnil | hfew := hfew
                  · contradiction
                  · rw [List.length_cons] at hfew
                    omega

/-! ## the decision -/

theorem mem_callerAllowed_iff {name : String} {who : PeerIdentity} :
    name ∈ callerAllowed services (some who) ↔
      (services.lookup name).any (callerAdmits who) = true := by
  rw [Option.any_eq_true]
  constructor
  · intro h
    obtain ⟨allow, hlookup, hadmits⟩ := mem_callerAllowed h
    exact ⟨allow, hlookup, hadmits⟩
  · rintro ⟨allow, hlookup, hadmits⟩
    exact List.mem_map.mpr
      ⟨⟨name, allow⟩, List.mem_filter.mpr ⟨AList.mem_lookup_iff.mp hlookup, hadmits⟩, rfl⟩

/-- `init` is what the backend is handed of the frame, whoever asks. -/
theorem init_selectService (first : Json) (allowed allowed' : List String) :
    (selectService first allowed).1 = (selectService first allowed').1 := by
  rw [selectService_frame, selectService_frame]

/-- What becomes of a session, by its first frame. -/
inductive Decided (services : Services) (identity : Option PeerIdentity)
    (admits : String → PeerIdentity → Bool) (r : Reading) : SessionRun → Prop where
  | ended : r.frame = none → Decided services identity admits r ⟨r.sent, .ended⟩
  | served {first : Json} {name : String} {who : PeerIdentity} : r.frame = some first →
      identity = some who →
      (selectService first (callerAllowed services identity)).2 = .selected name →
      admits name who = true →
      Decided services identity admits r
        ⟨r.sent, .backend name who (selectService first []).1 r.unread⟩
  | refused {first : Json} : r.frame = some first →
      (∀ name who, identity = some who →
        (selectService first (callerAllowed services identity)).2 = .selected name →
        admits name who = false) →
      Decided services identity admits r
        ⟨r.sent ++ [unserved (selectService first []).1], .refused⟩

theorem decided_runSession (services : Services) (identity : Option PeerIdentity)
    (admits : String → PeerIdentity → Bool) (lines : List (Inbound Json)) :
    Decided services identity admits (recvFrame lines {})
      (runSession services identity admits lines) := by
  rw [runSession]
  dsimp only
  split
  · next hframe => exact .ended hframe
  · next first hframe =>
    rw [init_selectService first (callerAllowed services identity) []]
    split
    · next name who hdecision =>
      split
      · next hadmits => exact .served hframe rfl hdecision hadmits
      · next hadmits =>
        refine .refused hframe fun name' who' hwho hdecision' => ?_
        obtain rfl := Option.some.inj hwho
        obtain rfl := ServiceDecision.selected.inj (hdecision.symm.trans hdecision')
        exact Bool.eq_false_iff.mpr hadmits
    · next hnone =>
      exact .refused hframe fun name who hwho hdecision => absurd hwho (hnone name who hdecision)

/-- A session has a backend when its first frame selects a service that then
admits the caller. -/
theorem backend_runSession {name : String} {who : PeerIdentity} {init : Json}
    {unread : List (Inbound Json)} :
    (runSession services identity admits lines).outcome = .backend name who init unread ↔
      ∃ first, ((recvFrame lines {}).frame = some first ∧ (recvFrame lines {}).unread = unread) ∧
        identity = some who ∧
        selectService first (callerAllowed services identity) = (init, .selected name) ∧
        admits name who = true := by
  have hdecided := decided_runSession services identity admits lines
  constructor
  · intro hback
    generalize runSession services identity admits lines = session at hdecided hback
    cases hdecided with
    | ended => contradiction
    | refused => contradiction
    | @served first _ _ hframe hwho hdecision hadmits =>
        obtain ⟨rfl, rfl, rfl, rfl⟩ := SessionOutcome.backend.inj hback
        have hinit := init_selectService first (callerAllowed services identity) []
        exact ⟨first, ⟨hframe, rfl⟩, hwho, Prod.ext hinit hdecision, hadmits⟩
  · rintro ⟨first, ⟨hframe, rfl⟩, rfl, hselect, hadmits⟩
    rw [runSession, hframe]
    dsimp only
    rw [hselect]
    dsimp only
    rw [if_pos hadmits]

/-- What a session sends before there is a backend: an answer to each malformed
line up to the last strike, and the refusal. -/
theorem sent_runSession :
    ∃ replies, (runSession services identity admits lines).sent =
        ((leadingViolations lines).take (strikesLeft + 1)).map violated ++ replies ∧
      replies.length ≤ 1 ∧
      (replies ≠ [] ↔ (runSession services identity admits lines).outcome = .refused) := by
  have hsent : (recvFrame lines {}).sent =
      ((leadingViolations lines).take (strikesLeft + 1)).map violated := sent_recvFrame lines {}
  rw [← hsent]
  have hdecided := decided_runSession services identity admits lines
  generalize runSession services identity admits lines = session at hdecided ⊢
  cases hdecided with
  | ended => exact ⟨[], (List.append_nil _).symm, Nat.zero_le 1, by simp⟩
  | served => exact ⟨[], (List.append_nil _).symm, Nat.zero_le 1, by simp⟩
  | @refused first =>
      exact ⟨[unserved (selectService first []).1], rfl, le_rfl, by simp⟩

/-- Two refused sessions with the same caller look the same to it, whatever the
services, the principal and the registry were. -/
theorem refused_runSession {services' : Services} {identity' : Option PeerIdentity}
    {admits' : String → PeerIdentity → Bool}
    (h : (runSession services identity admits lines).outcome = .refused)
    (h' : (runSession services' identity' admits' lines).outcome = .refused) :
    runSession services identity admits lines = runSession services' identity' admits' lines := by
  have hrefused : ∀ {services identity admits},
      (runSession services identity admits lines).outcome = .refused →
        ∃ first, (recvFrame lines {}).frame = some first ∧
          runSession services identity admits lines =
            ⟨(recvFrame lines {}).sent ++ [unserved (selectService first []).1], .refused⟩ := by
    intro services identity admits hout
    have hdecided := decided_runSession services identity admits lines
    generalize runSession services identity admits lines = session at hdecided hout ⊢
    cases hdecided with
    | ended => contradiction
    | served => contradiction
    | @refused first hframe _ => exact ⟨first, hframe, rfl⟩
  obtain ⟨first, hframe, hrun⟩ := hrefused h
  obtain ⟨first', hframe', hrun'⟩ := hrefused h'
  obtain rfl := Option.some.inj (hframe.symm.trans hframe')
  rw [hrun, hrun']

/-- **The first frame decides.**  A backend runs when at most two malformed
lines precede the first frame, that frame selects a service which admits the
caller, and the registry still does; the backend has the frame without its
reserved metadata, and all that follows it.  Before that, the caller is sent an
answer for each of these lines and at most one refusal, which does not tell why
it was refused. -/
theorem MeshSession.first_frame_decides (services : Services) (identity : Option PeerIdentity)
    (admits : String → PeerIdentity → Bool) (lines : List (Inbound Json)) :
    (∀ name who init unread,
      (runSession services identity admits lines).outcome = .backend name who init unread ↔
        ∃ (vs : List Violation) (first : Json), vs.length ≤ strikesLeft ∧
          lines = vs.map .violation ++ .frame first :: unread ∧ identity = some who ∧
          selectService first (callerAllowed services identity) = (init, .selected name) ∧
          admits name who = true) ∧
      (∃ replies, (runSession services identity admits lines).sent =
          ((leadingViolations lines).take (strikesLeft + 1)).map violated ++ replies ∧
        replies.length ≤ 1 ∧
        (replies ≠ [] ↔ (runSession services identity admits lines).outcome = .refused)) ∧
      ∀ services' identity' admits',
        (runSession services identity admits lines).outcome = .refused →
        (runSession services' identity' admits' lines).outcome = .refused →
          runSession services identity admits lines =
            runSession services' identity' admits' lines := by
  refine ⟨fun name who init unread => ?_, sent_runSession, fun _ _ _ h h' =>
    refused_runSession h h'⟩
  rw [backend_runSession]
  constructor
  · rintro ⟨first, hread, hwho, hselect, hadmits⟩
    obtain ⟨vs, hlines, hfew⟩ := frame_recvFrame.mp hread
    refine ⟨vs, first, ?_, hlines, hwho, hselect, hadmits⟩
    obtain rfl | hfew := hfew
    · exact Nat.zero_le _
    · exact (Nat.zero_add vs.length).symm.trans_le hfew
  · rintro ⟨vs, first, hfew, hlines, hwho, hselect, hadmits⟩
    have hread := frame_recvFrame.mpr ⟨vs, hlines, .inr ((Nat.zero_add vs.length).trans_le hfew)⟩
    exact ⟨first, hread, hwho, hselect, hadmits⟩

end Mcpmesh
