import Mcpmesh.Backends.AuditTrail

/-!
# Mcpmesh.Backends.DropReport

The report of a dropped notification (`RequestAuditor::on_dropped`,
`node/src/audit/log.rs`).

A throttled caller should be reported once until the limiter admits it again:
`Reporter` does this.  The auditor keeps one flag for it,
which two hooks move for frames that the reporter passes over: a frame without
a method clears it, and a notification whose method is no string sets it
without a record.  Where neither happens (`InTurn`) the auditor is the
reporter, and its records are bounded by what the limiter admitted.
-/

namespace Mcpmesh

open Lib

/-! ## the reporter -/

namespace Handled

/-- A notification with a string method that the limiter dropped. -/
def droppedNote (h : Handled) : Bool :=
  h.fate = .throttled && h.frame.idOf.isNone && h.frame.methodName.isSome

end Handled

/-- The reporter: the reports so far, and whether a drop was reported since the
last frame that the limiter admitted. -/
structure Reporter where
  reports : Nat
  reported : Bool

namespace Reporter

def see (r : Reporter) (h : Handled) : Reporter :=
  if h.admitted then { r with reported := false }
  else if h.droppedNote && !r.reported then ⟨r.reports + 1, true⟩
  else r

/-- The reporter after these frames. -/
def ofFrames (hs : List Handled) : Reporter := hs.foldl see ⟨0, false⟩

variable {hs stretch : List Handled} {h : Handled}

@[simp] theorem ofFrames_nil : ofFrames [] = ⟨0, false⟩ := rfl

@[simp] theorem ofFrames_snoc : ofFrames (hs ++ [h]) = (ofFrames hs).see h := by simp [ofFrames]

/-- A report stands for an admitted frame, but for one that waits for it. -/
theorem reports_ofFrames_le (hs : List Handled) :
    (ofFrames hs).reports ≤ hs.countP Handled.admitted + (ofFrames hs).reported.toNat := by
  induction hs using List.reverseRecOn with
  | nil => simp
  | append_singleton hs h ih =>
      have hbit := (ofFrames hs).reported.toNat_le
      rw [ofFrames_snoc, List.countP_append, List.countP_singleton, see]
      split
      · simp
        omega
      · split
        · simp_all
        · simpa using ih

/-- A stretch without an admitted frame is reported once, if a notification was
dropped in it. -/
theorem ofFrames_append (hstart : (ofFrames hs).reported = false)
    (hnone : ∀ h ∈ stretch, h.admitted = false) :
    ofFrames (hs ++ stretch) =
      ⟨(ofFrames hs).reports + (stretch.any Handled.droppedNote).toNat,
        stretch.any Handled.droppedNote⟩ := by
  induction stretch using List.reverseRecOn with
  | nil =>
      have hsame : ofFrames hs = ⟨(ofFrames hs).reports, (ofFrames hs).reported⟩ := rfl
      rw [hstart] at hsame
      simpa using hsame
  | append_singleton stretch h ih =>
      simp only [List.forall_mem_append, List.forall_mem_singleton] at hnone
      rw [← List.append_assoc, ofFrames_snoc, ih hnone.1, see, hnone.2, List.any_append]
      cases stretch.any Handled.droppedNote <;> cases hdrop : h.droppedNote <;> simp [hdrop]

end Reporter

/-! ## the auditor -/

/-- A report of a dropped notification. -/
def AuditRecord.dropReport (r : AuditRecord) : Bool := r.status = some "rate_limited"

namespace Pump

variable {σ : Type} (S : ProxySession σ) (s : Pump σ)

/-- What the auditor has of the reporter. -/
def reporter : Reporter := ⟨s.audit.records.countP AuditRecord.dropReport, s.audit.dropReported⟩

/-- The flag moves for no other frame than the reporter's: a frame without a
method comes only where nothing is reported, and a dropped notification whose
method is no string only where something is. -/
def InTurn : PumpEvent σ → Prop
  | .caller frame now _ =>
      ∀ clean ∈ (sanitizeCallerFrame frame S.peerMeta).map Prod.fst,
        (clean.hasMethod = false → s.audit.dropReported = false) ∧
        (s.refused S now clean = true → clean.idOf = none → clean.methodName = none →
          s.audit.dropReported = true)
  | _ => True

instance : (event : PumpEvent σ) → Decidable (s.InTurn S event)
  | .caller frame now _ => inferInstanceAs (Decidable (∀ clean ∈ (sanitizeCallerFrame frame
      S.peerMeta).map Prod.fst, (clean.hasMethod = false → s.audit.dropReported = false) ∧
        (s.refused S now clean = true → clean.idOf = none → clean.methodName = none →
          s.audit.dropReported = true)))
  | .callerEnd | .server .. | .serverEnd | .elsewhere _ => inferInstanceAs (Decidable True)

end Pump

section Auditor

variable {σ : Type} {S : ProxySession σ} {s s' : Pump σ} {a : AuditState} {now ms : Nat}
  {clean frame : Json} {verdict : Option (Except Nat Unit)} {limiter : σ} {event : PumpEvent σ}

/-- The first dropped notification of a stretch is recorded. -/
theorem onDropped_unreported (hflag : a.dropReported = false)
    (hmethod : clean.methodName.isSome = true) :
    (S.onDropped a now clean).dropReported = true ∧
      (S.onDropped a now clean).records.countP AuditRecord.dropReport =
        a.records.countP AuditRecord.dropReport + 1 := by
  obtain ⟨method, hmethod⟩ := Option.isSome_iff_exists.mp hmethod
  rw [Json.methodName] at hmethod
  simp [ProxySession.onDropped, hflag, hmethod, List.countP_append, AuditRecord.dropReport]

theorem onDropped_reported (hflag : a.dropReported = true) : S.onDropped a now clean = a := by
  simp [ProxySession.onDropped, hflag]

/-- A frame that passes is recorded, if it is, without a status. -/
theorem countP_onRequest : (S.onRequest a now clean).records.countP AuditRecord.dropReport =
    a.records.countP AuditRecord.dropReport := by
  unfold ProxySession.onRequest
  dsimp only
  split
  · rfl
  · split
    · rfl
    · simp [List.countP_append, AuditRecord.dropReport, ProxySession.proxiedNotification]

theorem dropReported_onRequest : (S.onRequest a now clean).dropReported = false := by
  unfold ProxySession.onRequest
  dsimp only
  split
  · rfl
  · split <;> rfl

/-- An answer moves neither the flag nor the reports. -/
theorem onResponse_reports (S : ProxySession σ) (a : AuditState) (now : Nat) (frame : Json)
    (bytesOut : Nat) :
    (S.onResponse a now frame bytesOut).dropReported = a.dropReported ∧
      (S.onResponse a now frame bytesOut).records.countP AuditRecord.dropReport =
        a.records.countP AuditRecord.dropReport := by
  unfold ProxySession.onResponse
  split
  · exact ⟨rfl, rfl⟩
  · split
    · exact ⟨rfl, rfl⟩
    · split
      · exact ⟨rfl, rfl⟩
      · simp [List.countP_append, AuditRecord.dropReport, ProxySession.proxiedRequest,
          statusOf_ne]

theorem throttle_audit : (s.throttle S now clean ms).audit =
    if clean.idOf.isNone then S.onDropped s.audit now clean else s.audit := by
  unfold Pump.throttle
  cases clean.idOf <;> rfl

/-- A refused frame: only a notification is reported, and only the first. -/
theorem reporter_throttle (hs : s.reporter = .ofFrames s.handled)
    (hstring : clean.idOf = none → clean.methodName = none → s.audit.dropReported = true) :
    (s.throttle S now clean ms).reporter = .ofFrames (s.throttle S now clean ms).handled := by
  have hdropped : Handled.droppedNote ⟨clean, some (.error ms), .throttled⟩ =
      (clean.idOf.isNone && clean.methodName.isSome) := by simp [Handled.droppedNote]
  have hrefused : Handled.admitted ⟨clean, some (.error ms), .throttled⟩ = false := rfl
  rw [Pump.reporter, throttle_audit, Pump.throttle_handled, Reporter.ofFrames_snoc, ← hs,
    Reporter.see, hrefused, hdropped, Pump.reporter]
  cases hid : clean.idOf with
  | some id => simp
  | none =>
      cases hflag : s.audit.dropReported with
      | true => simp [onDropped_reported hflag, hflag]
      | false =>
          have hmethod : clean.methodName.isSome = true := by
            by_contra hnone
            simp [hstring hid (by simpa using hnone)] at hflag
          simp [onDropped_unreported hflag hmethod, hmethod]

/-- A frame that passes: the flag is cleared, which only an admitted frame may. -/
theorem reporter_forward (hs : s.reporter = .ofFrames s.handled)
    (hexempt : verdict = none → s.audit.dropReported = false)
    (hpassed : ∀ ms, verdict ≠ some (.error ms)) (written : Bool) :
    (s.forward S now clean verdict written).reporter =
      .ofFrames (s.forward S now clean verdict written).handled := by
  rw [Pump.reporter, Pump.forward_audit, Pump.forward_handled, Reporter.ofFrames_snoc, ← hs,
    Reporter.see, countP_onRequest, dropReported_onRequest, Pump.reporter]
  cases verdict with
  | none =>
      have hnote : Handled.droppedNote ⟨clean, none, if written then .forwarded else .cut⟩ =
          false := by cases written <;> rfl
      simp [Handled.admitted, hnote, hexempt rfl]
  | some answer =>
      cases answer with
      | error ms => exact absurd rfl (hpassed ms)
      | ok u => simp [Handled.admitted]

theorem Gated.refused_eq_true (h : Gated S s now clean (some (.error ms)) limiter) :
    s.refused S now clean = true := by
  cases h with
  | asked hmethod hverdict => simp [Pump.refused, hmethod, hverdict, Except.isOk, Except.toBool]

theorem Gated.exempt_hasMethod (h : Gated S s now clean none limiter) :
    clean.hasMethod = false := by
  cases h with
  | exempt hmethod => exact hmethod

/-- **Step lemma**: in turn, the auditor does what the reporter does. -/
theorem reporter_pumpStep (hturn : s.InTurn S event) (hs : s.reporter = .ofFrames s.handled)
    (hstep : pumpStep S s event = some s') : s'.reporter = .ofFrames s'.handled := by
  cases pumped_of_pumpStep hstep with
  | throttle hclean hgate =>
      exact reporter_throttle hs ((hturn _ hclean).2 hgate.refused_eq_true)
  | @forward frame clean warned written now limiter verdict hclean hgate hpassed hreading =>
      have hexempt : verdict = none → s.audit.dropReported = false := by
        intro hnone
        rw [hnone] at hgate
        exact (hturn clean hclean).1 hgate.exempt_hasMethod
      have hsame : ({ s with warned, limiter } : Pump σ).reporter = .ofFrames s.handled := hs
      exact reporter_forward hsame hexempt hpassed written
  | server frame now sent =>
      have hreports := onResponse_reports S s.audit now frame (S.text frame).utf8ByteSize
      simpa [Pump.reporter, Pump.onServer, hreports] using hs
  | quiet limiter ended hreading => exact hs

/-- The flag is down where the last frame was admitted. -/
theorem reported_ofFrames_of_last {hs : List Handled}
    (hlast : ∀ a ∈ hs.getLast?, a.admitted = true) :
    (Reporter.ofFrames hs).reported = false := by
  induction hs using List.reverseRecOn with
  | nil => rfl
  | append_singleton hs a _ =>
      have hadmitted : a.admitted = true := hlast a (by simp)
      simp [Reporter.see, hadmitted]

/-- **A throttled caller is reported once**: in a session whose frames come in
turn, the reports are at most one more than the frames that the limiter
admitted; and the stretch after an admitted frame has exactly one until the
next, if a notification with a string method was dropped in it. -/
theorem drops_reported_once (S : ProxySession σ) {limiter : σ} {init : Json}
    {before after : List (PumpEvent σ)} {s t : Pump σ}
    (hbefore : run (pumpStep S) (.start limiter init) before = some s)
    (hafter : run (pumpStep S) s after = some t)
    (hturn : Guarded (pumpStep S) (Pump.InTurn S) (.start limiter init) before)
    (hturn' : Guarded (pumpStep S) (Pump.InTurn S) s after) :
    t.audit.records.countP AuditRecord.dropReport ≤ t.handled.countP Handled.admitted + 1 ∧
    ((∀ a ∈ s.handled.getLast?, a.admitted = true) →
      ∀ stretch, t.handled = s.handled ++ stretch → (∀ h ∈ stretch, h.admitted = false) →
        t.audit.records.countP AuditRecord.dropReport =
          s.audit.records.countP AuditRecord.dropReport +
            if stretch.any Handled.droppedNote then 1 else 0) := by
  have hs : s.reporter = .ofFrames s.handled :=
    hturn.invariant (I := fun u => u.reporter = .ofFrames u.handled)
      (fun _ _ _ hturn hu hstep => reporter_pumpStep hturn hu hstep) rfl hbefore
  have ht : t.reporter = .ofFrames t.handled :=
    hturn'.invariant (I := fun u => u.reporter = .ofFrames u.handled)
      (fun _ _ _ hturn hu hstep => reporter_pumpStep hturn hu hstep) hs hafter
  have hreports : t.audit.records.countP AuditRecord.dropReport =
      (Reporter.ofFrames t.handled).reports := congrArg Reporter.reports ht
  have hreports' : s.audit.records.countP AuditRecord.dropReport =
      (Reporter.ofFrames s.handled).reports := congrArg Reporter.reports hs
  constructor
  · have hle := Reporter.reports_ofFrames_le t.handled
    have hbit := (Reporter.ofFrames t.handled).reported.toNat_le
    omega
  · intro hlast stretch hstretch hnone
    have hdown := reported_ofFrames_of_last hlast
    rw [hreports, hreports', hstretch, Reporter.ofFrames_append hdown hnone]
    cases stretch.any Handled.droppedNote <;> rfl

end Auditor

/-! ### frames out of turn -/

namespace OddFrames

open OneToken

def progress : PumpEvent Nat := .caller (notification "notifications/progress") 0 true

/-- A frame without a method, which the limiter is not asked for. -/
def bare : PumpEvent Nat := .caller (.obj []) 0 true

/-- A notification whose method is a number. -/
def numbered : PumpEvent Nat := .caller (.obj [("method", .num 1 0)]) 0 true

def call : PumpEvent Nat := .caller (request 2 "tools/call") 0 true

def sessionOf (tokens : Nat) : Pump Nat := .start tokens (request 1 "initialize")

/-- The reports and the admitted frames of a run. -/
def counts (tokens : Nat) (events : List (PumpEvent Nat)) : Option (Nat × Nat) :=
  (run (pumpStep session) (sessionOf tokens) events).map fun s =>
    (s.audit.records.countP AuditRecord.dropReport, s.handled.countP Handled.admitted)

def afterCall : Pump Nat :=
  (run (pumpStep session) (sessionOf 1) [call]).getD (sessionOf 1)

def afterDrops : Pump Nat :=
  (run (pumpStep session) afterCall [progress, progress]).getD afterCall

end OddFrames

open OddFrames in
theorem drops_reported_once_example :
    run (pumpStep OneToken.session) (sessionOf 1) [call] = some afterCall ∧
      run (pumpStep OneToken.session) afterCall [progress, progress] = some afterDrops ∧
      afterDrops.audit.records.countP AuditRecord.dropReport =
        afterCall.audit.records.countP AuditRecord.dropReport + 1 := by
  have hbefore : run (pumpStep OneToken.session) (sessionOf 1) [call] = some afterCall := rfl
  have hafter : run (pumpStep OneToken.session) afterCall [progress, progress] =
      some afterDrops := rfl
  have honce := drops_reported_once OneToken.session hbefore hafter (by decide +kernel)
    (by decide +kernel)
  have hlast : ∀ a ∈ afterCall.handled.getLast?, a.admitted = true := by decide +kernel
  have hstretch : afterDrops.handled = afterCall.handled ++ afterDrops.handled.drop 1 := rfl
  exact ⟨hbefore, hafter, honce.2 hlast _ hstretch (by decide +kernel)⟩

open OddFrames in
/-- A frame without a method re-arms the report, and a method that is no string
uses it up. -/
theorem odd_frames_flood_and_silence :
    counts 0 [progress, bare, progress] = some (2, 0) ∧
      counts 1 [call, numbered, progress, .elsewhere 1, call] = some (0, 2) := by
  decide +kernel

end Mcpmesh
