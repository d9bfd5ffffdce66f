import Mcpmesh.Roster.Install
import Mcpmesh.Roster.Instance

/-!
# Mcpmesh.Roster.AllOrNothing

Whether an install is all-or-nothing across `roster.json`, the pins and the
live view.  The roster file is written before the pins, and a failed pin write
returns without the swap: the file is then one serial ahead of the gate, and a
retry of the same document is refused as stale.  `all_or_nothing_iff` says that
nothing else breaks the property, over every run of both pipelines.
-/

namespace Mcpmesh

open Lib

section AllOrNothing

variable {P : Primitives} {J : SerdeJson} {ownId : EndpointId} {node : Node J}
  {call : InstallCall J} {view : RosterView} {anchor : AnchorChange} {out : J.Bytes}

/-! ## an accepted document -/

/-- A judged file is a roster that passes every rule under the anchor. -/
theorem judge_eq_ok {env : Env} {installed : Option J.Bytes} {file : J.Bytes}
    {pk : VerifyingKey P} :
    judge P env installed file pk = .ok ((view, anchor), out) ↔
      env.fileRead = true ∧ ∃ roster serial, J.fromSlice file = .ok roster ∧
        installedSerial env installed = .ok serial ∧ checkFormat roster = .ok () ∧
        (∃ k, resolveVerifier P roster pk = .ok (k, anchor)) ∧
        checkFresh P roster serial env.now = .ok view ∧ J.toVecPretty roster = .ok out := by
  unfold judge
  constructor
  · intro h
    obtain ⟨_, hread, h⟩ := bind_eq_ok.mp h
    obtain ⟨roster, hroster, h⟩ := bind_eq_ok.mp h
    obtain ⟨serial, hserial, h⟩ := bind_eq_ok.mp h
    obtain ⟨accepted, hvalid, h⟩ := bind_eq_ok.mp h
    obtain ⟨out', hout, h⟩ := bind_eq_ok.mp h
    obtain ⟨rfl, rfl⟩ := Prod.mk.inj (Except.ok.inj h)
    obtain ⟨hformat, hverifier, hfresh⟩ :=
      validateForInstallWithAnchor_eq_ok.mp (mapError_eq_ok.mp hvalid)
    exact ⟨ensure_eq_ok.mp hread, roster, serial, mapError_eq_ok.mp hroster, hserial, hformat,
      hverifier, hfresh, mapError_eq_ok.mp hout⟩
  · rintro ⟨hread, roster, serial, hroster, hserial, hformat, hverifier, hfresh, hout⟩
    have hvalid := validateForInstallWithAnchor_eq_ok.mpr ⟨hformat, hverifier, hfresh⟩
    rw [hread, ensure_true, ok_bind, hroster]
    simp only [mapError_ok, ok_bind, hserial, hvalid, hout]

/-- What an accepted call validated: the offered document, newer than the one
on disk, under the anchor; what it persists is that document. -/
theorem Accepted.document (h : Accepted P node call view anchor out) :
    ∃ roster pkStr pk installed, J.fromSlice call.bytes = .ok roster ∧
      J.fromSlice out = .ok roster ∧
      resolveAnchor P call.env node call.orgRootPk = .ok (pkStr, pk) ∧
      installedSerial call.env node.rosterFile = .ok installed ∧
      (∃ k, resolveVerifier P roster pk = .ok (k, anchor)) ∧
      installed < roster.serial ∧ view.serial = roster.serial ∧ view.orgId = roster.orgId := by
  obtain ⟨pkStr, pk, hanchor, hjudge⟩ := h.judged
  obtain ⟨-, roster, installed, hroster, hinstalled, -, hverifier, hfresh, hout⟩ :=
    judge_eq_ok.mp hjudge
  obtain ⟨hlt, hserial, horg⟩ := checkFresh_ok hfresh
  exact ⟨roster, pkStr, pk, installed, hroster, J.fromSlice_toVecPretty roster _ hout, hanchor,
    hinstalled, hverifier, hlt, hserial, horg⟩

/-- A call accepts one document in one way. -/
theorem Accepted.unique {view' : RosterView} {anchor' : AnchorChange} {out' : J.Bytes}
    (h : Accepted P node call view anchor out) (h' : Accepted P node call view' anchor' out') :
    view = view' ∧ anchor = anchor' ∧ out = out' := by
  obtain ⟨pkStr, pk, hanchor, hjudge⟩ := h.judged
  obtain ⟨pkStr', pk', hanchor', hjudge'⟩ := h'.judged
  obtain ⟨-, rfl⟩ := Prod.mk.inj (Except.ok.inj (hanchor.symm.trans hanchor'))
  obtain ⟨haccepted, hout⟩ := Prod.mk.inj (Except.ok.inj (hjudge.symm.trans hjudge'))
  obtain ⟨hview, hchange⟩ := Prod.mk.inj haccepted
  exact ⟨hview, hchange, hout⟩

/-! ### the installed state -/

/-- Reconciling the user id writes nothing else of the node. -/
theorem reconcileUserId_eq (env : Env) (ownId : EndpointId) (node : Node J) :
    ∃ userId, reconcileUserId env ownId node =
      { node with identity := { node.identity with userId } } := by
  unfold reconcileUserId
  split
  · exact ⟨_, rfl⟩
  · dsimp only
    split_ifs <;> exact ⟨_, rfl⟩

/-- Going live swaps the gate; of the identity only the user id may move. -/
theorem goLive_eq (env : Env) (ownId : EndpointId) (view : RosterView) (node : Node J) :
    ∃ userId, goLive env ownId view node =
      { node with
        identity := { node.identity with userId }
        gate := { node.gate with view := some view, lastConfirmed := some env.now } } :=
  reconcileUserId_eq env ownId (swapView view (confirmRosterCurrent env.now node))

theorem installedNode_rosterFile :
    (installedNode ownId node call view anchor out).rosterFile = some out := by
  obtain ⟨userId, hlive⟩ := goLive_eq call.env ownId view _
  rw [installedNode, hlive]

theorem installedNode_view :
    (installedNode ownId node call view anchor out).gate.view = some view := by
  obtain ⟨userId, hlive⟩ := goLive_eq call.env ownId view _
  rw [installedNode, hlive]

theorem installedNode_orgRootPk :
    (installedNode ownId node call view anchor out).identity.orgRootPk =
    (newPin call anchor).orElse fun _ => node.identity.orgRootPk := by
  obtain ⟨userId, hlive⟩ := goLive_eq call.env ownId view _
  rw [installedNode, hlive]
  cases newPin call anchor <;> rfl

theorem installedNode_orgId : (installedNode ownId node call view anchor out).identity.orgId =
    if (newPin call anchor).isSome then some view.orgId else node.identity.orgId := by
  obtain ⟨userId, hlive⟩ := goLive_eq call.env ownId view _
  rw [installedNode, hlive]
  cases newPin call anchor <;> rfl

/-! ## the property -/

/-- The gate serves the roster on disk, or neither is there. -/
def InSync (node : Node J) : Prop :=
  match node.rosterFile, node.gate.view with
  | none, none => True
  | some bytes, some view => ∃ roster, J.fromSlice bytes = .ok roster ∧ roster.serial = view.serial
  | _, _ => False

/-- The same call under another clock and file system. -/
def InstallCall.retry (env : Env) : InstallCall J → InstallCall J
  | .converge _ bytes announced => .converge env bytes announced
  | .manual _ file orgRootPk => .manual env file orgRootPk

/-- All-or-nothing of one call of a run. -/
structure AllOrNothing (P : Primitives) (ownId : EndpointId)
    (t : Called (Node J) (InstallCall J) (Except InstallError InstallOk)) : Prop where
  in_sync : InSync t.post
  unchanged : ∀ e, t.out = .error e →
    t.post.rosterFile = t.pre.rosterFile ∧ t.post.gate.view = t.pre.gate.view ∧
      t.post.identity.orgRootPk = t.pre.identity.orgRootPk
  retry : ∀ e, t.out = .error e → ∀ env ok,
    (installStep P ownId t.pre (t.call.retry env)).2 = .ok ok →
      (installStep P ownId t.post (t.call.retry env)).2 = .ok ok

/-- The call's document is accepted and persisted, and the pin it calls for is
not written. -/
def PinWriteLost (P : Primitives) (node : Node J) (call : InstallCall J) : Prop :=
  ∃ view anchor out, Accepted P node call view anchor out ∧ PinLost call anchor

theorem inSync_installedNode (h : Accepted P node call view anchor out) :
    InSync (installedNode ownId node call view anchor out) := by
  obtain ⟨roster, _, _, _, _, hout, _, _, _, _, hserial, _⟩ := h.document
  rw [InSync, installedNode_rosterFile, installedNode_view]
  exact ⟨roster, hout, hserial.symm⟩

/-- The persisted document is newer than the one on disk. -/
theorem Accepted.rosterFile_ne (h : Accepted P node call view anchor out) :
    some out ≠ node.rosterFile := by
  obtain ⟨roster, _, _, installed, _, hout, _, hinstalled, _, hlt, _⟩ := h.document
  rintro heq
  obtain ⟨_, _, hinstalled⟩ := bind_eq_ok.mp hinstalled
  rw [← heq] at hinstalled
  simp only [hout, Except.ok.injEq] at hinstalled
  omega

/-- **The step lemma**: a call in sync is all-or-nothing unless its pin is lost. -/
theorem allOrNothing_step (hsync : InSync node) :
    AllOrNothing P ownId (callAt (installStep P ownId) node call) ↔
      ¬ PinWriteLost P node call := by
  unfold callAt
  obtain ⟨hnone, r, hstep, -⟩ | ⟨view, anchor, out, haccepted, hstep⟩ :=
      installStep_cases (P := P) ownId node call
  · rw [hstep]
    refine iff_of_true ⟨hsync, fun _ _ => ⟨rfl, rfl, rfl⟩, fun _ _ _ _ h => h⟩ ?_
    rintro ⟨view, anchor, out, haccepted, -⟩
    exact hnone view anchor out haccepted
  · by_cases hlost : PinLost call anchor
    · rw [hstep, acceptedStep_of_lost call hlost]
      refine iff_of_false (fun h => ?_) (not_not.mpr ⟨view, anchor, out, haccepted, hlost⟩)
      exact haccepted.rosterFile_ne (h.unchanged _ rfl).1
    · rw [hstep, acceptedStep_of_pinned call (pinWrite_of_not_pinLost hlost)]
      refine iff_of_true ⟨inSync_installedNode haccepted, fun _ h => by contradiction,
        fun _ h => by contradiction⟩ ?_
      rintro ⟨view', anchor', out', haccepted', hlost'⟩
      exact hlost ((haccepted.unique haccepted').2.1 ▸ hlost')

end AllOrNothing

/-- **When an install is all-or-nothing**: every call of a run is, exactly when
no call of it loses a pin write. -/
theorem all_or_nothing_iff (P : Primitives) (J : SerdeJson) (ownId : EndpointId) (node : Node J)
    (calls : List (InstallCall J)) (hsync : InSync node) :
    (∀ t ∈ trace (installStep P ownId) node calls, AllOrNothing P ownId t) ↔
      ∀ t ∈ trace (installStep P ownId) node calls, ¬ PinWriteLost P t.pre t.call :=
  trace_forall_congr (I := InSync) (fun _ _ _ h => allOrNothing_step h)
    (fun _ _ _ _ h => h.in_sync) hsync

/-! ## a lost pin -/

namespace Instance

/-- Roster files that hold a roster, or something that is none. -/
def serde : SerdeJson where
  Bytes := Option Roster
  fromSlice bytes := okOr bytes "expected value"
  toVecPretty roster := .ok (some roster)
  fromSlice_toVecPretty _ _ h := by rw [← Except.ok.inj h, okOr_some]

/-- A node with these pins, no roster and no freshness bound. -/
def node (orgRootPk orgId : Option String) : Node serde :=
  { identity := { orgRootPk, orgId, userId := none }
    rosterFile := none
    gate := { view := none, graceSecs := 259200, lastConfirmed := none,
              maxStaleness := 2 ^ 63 - 1 } }

end Instance

namespace LostPin

open Instance

def first : Roster := roster "acme" 1 1

def P : Primitives := primitives [rootKey] [bodySignature rootKey first 1]

/-- The first install of a joiner, whose config cannot be written. -/
def call : InstallCall serde :=
  .manual { Env.healthy now with pinWrite := false } (some first) (some (b64u rootKey.toList))

end LostPin

/-- A first install whose pin write fails: the call returns an error, the
document is on disk and nowhere else, and the retry is stale. -/
theorem lost_pin_wedges :
    ¬ ∀ (P : Primitives) (J : SerdeJson) (ownId : EndpointId) (node : Node J)
      (calls : List (InstallCall J)), InSync node →
        ∀ t ∈ trace (installStep P ownId) node calls, AllOrNothing P ownId t := by
  intro h
  have hwhole : AllOrNothing LostPin.P Instance.ownId
      (callAt (installStep LostPin.P Instance.ownId) (Instance.node none none) LostPin.call) :=
    h LostPin.P Instance.serde Instance.ownId (Instance.node none none) [LostPin.call] trivial _
      (last_mem_trace _ [] _)
  have herror : (callAt (installStep LostPin.P Instance.ownId) (Instance.node none none)
      LostPin.call).out = .error .pinWrite := by decide +kernel
  have hfresh : (installStep LostPin.P Instance.ownId (Instance.node none none)
      (LostPin.call.retry (.healthy Instance.now))).2 = .ok (.installed "acme" 1) := by
    decide +kernel
  have hstale : (installStep LostPin.P Instance.ownId
      (callAt (installStep LostPin.P Instance.ownId) (Instance.node none none) LostPin.call).post
      (LostPin.call.retry (.healthy Instance.now))).2 =
        .error (.validation (.staleSerial 1 1)) := by decide +kernel
  have hagain := hwhole.retry .pinWrite herror (.healthy Instance.now) (.installed "acme" 1) hfresh
  exact absurd (hstale.symm.trans hagain) (by decide)

theorem all_or_nothing_iff_example :
    AllOrNothing LostPin.P Instance.ownId (callAt (installStep LostPin.P Instance.ownId)
      (Instance.node none none) (LostPin.call.retry (.healthy Instance.now))) := by
  have hwhole := (all_or_nothing_iff LostPin.P Instance.serde Instance.ownId
    (Instance.node none none) [LostPin.call.retry (.healthy Instance.now)] trivial).mpr
  simp only [trace_cons, trace_nil, List.forall_mem_singleton] at hwhole
  refine hwhole ?_
  rintro ⟨view, anchor, out, -, -, hwrite⟩
  exact absurd hwrite (by decide)

end Mcpmesh
