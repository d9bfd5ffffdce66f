import Mcpmesh.Gate.Composed
import Mcpmesh.Lib.Run

/-!
# Mcpmesh.Roster.Install

Roster installs on one node: `RosterStore` (`node/src/roster/mod.rs`) and the
two install pipelines of the daemon (`node/src/daemon/roster_install.rs`),
`convergeRosterBytes` for the gossip and URL channels and `installRoster` for
the operator.

Three stores are written one after the other, under `reload_lock`: the file
`roster.json`, the pins in `config.toml` and the view of the live gate.  Which
of the file-system steps fail is part of a call (`Env`).  `installStep_cases`
lists what a call can do to the three stores; every result about runs of
installs starts from it.
-/

namespace Mcpmesh

open Lib

/-- `serde_json` on roster files, whose contents stay abstract: what it writes
for a roster it reads back as that roster. -/
structure SerdeJson where
  Bytes : Type
  fromSlice : Bytes → Except String Roster
  toVecPretty : Roster → Except String Bytes
  fromSlice_toVecPretty : ∀ r bytes, toVecPretty r = .ok bytes → fromSlice bytes = .ok r

/-- The `[identity]` table of `config.toml`, as far as an install reads or
writes it. -/
structure Identity where
  orgRootPk : Option String
  orgId : Option String
  userId : Option String
  deriving DecidableEq, Repr

/-- The node's state an install touches: the config, `roster.json`, the gate. -/
structure Node (J : SerdeJson) where
  identity : Identity
  rosterFile : Option J.Bytes
  gate : RosterGate

/-- What the clock and the file system do during one call: whether each step
succeeds. -/
structure Env where
  now : Int
  configRead : Bool
  staging : Bool
  fileRead : Bool
  installedRead : Bool
  persist : Bool
  pinWrite : Bool
  userIdWrite : Bool
  deriving DecidableEq, Repr

/-- Every step succeeds. -/
def Env.healthy (now : Int) : Env :=
  { now, configRead := true, staging := true, fileRead := true, installedRead := true,
    persist := true, pinWrite := true, userIdWrite := true }

inductive PinError where
  | undecodable (e : RosterError)
  | notThirtyTwoBytes
  | notAKey
  deriving DecidableEq, Repr

/-- Why a call returned `Err`. -/
inductive InstallError where
  | readConfig
  | noPinnedRoot
  | badOrgRootPk (e : PinError)
  | stage
  | readFile
  | parseFile (msg : String)
  | readInstalled
  | validation (e : RosterError)
  | serialize (msg : String)
  | persist
  | pinWrite
  deriving DecidableEq, Repr

section Install

variable (P : Primitives) (J : SerdeJson)

/-- Decode a pinned org root from its config string. -/
def parseOrgRootPk (b64u : String) : Except InstallError (VerifyingKey P) := do
  let bytes ← (decodeB64u P b64u).mapError fun e => .badOrgRootPk (.undecodable e)
  let arr ← okOr (toArray 32 bytes) (.badOrgRootPk .notThirtyTwoBytes)
  okOr (VerifyingKey.fromBytes arr) (.badOrgRootPk .notAKey)

variable {J}

abbrev Install (J : SerdeJson) : Type → Type := Action (Node J) InstallError

/-- The serial of `roster.json`: 0 when it is absent or not a roster. -/
def installedSerial (env : Env) (file : Option J.Bytes) : Except InstallError Nat := do
  ensure env.installedRead .readInstalled
  match file with
  | none => .ok 0
  | some bytes =>
      match J.fromSlice bytes with
      | .ok roster => .ok roster.serial
      | .error _ => .ok 0

/-- `install_from_file` up to the write: the accepted roster's view, the anchor
change and the bytes to persist. -/
def judge (env : Env) (installed : Option J.Bytes) (file : J.Bytes) (rootPk : VerifyingKey P) :
    Except InstallError ((RosterView × AnchorChange) × J.Bytes) := do
  ensure env.fileRead .readFile
  let roster ← (J.fromSlice file).mapError .parseFile
  let serial ← installedSerial env installed
  let accepted ←
    (validateForInstallWithAnchor P roster rootPk serial env.now).mapError .validation
  let out ← (J.toVecPretty roster).mapError .serialize
  .ok (accepted, out)

/-- `RosterStore::install_from_file`: judge the file, then persist the roster. -/
def installFromFile (env : Env) (file : J.Bytes) (rootPk : VerifyingKey P) :
    Install J (RosterView × AnchorChange) := do
  let node ← get
  let (accepted, out) ← Action.attempt (judge P env node.rosterFile file rootPk)
  Action.attempt (ensure env.persist .persist)
  modify fun node => { node with rosterFile := some out }
  pure accepted

/-- The pinned org root in config. -/
def configOrgRootPk (env : Env) (node : Node J) : Except InstallError (Option String) := do
  ensure env.configRead .readConfig
  .ok node.identity.orgRootPk

/-- Resolve the trust anchor: an explicit key, else the pinned one. -/
def resolveAnchor (env : Env) (node : Node J) (orgRootPk : Option String) :
    Except InstallError (String × VerifyingKey P) := do
  let pkStr ←
    match orgRootPk with
    | some s => .ok s
    | none => do
        let pinned ← configOrgRootPk env node
        okOr pinned .noPinnedRoot
  let pk ← parseOrgRootPk P pkStr
  .ok (pkStr, pk)

def writeIdentityPin (env : Env) (orgRootPk orgId : String) : Install J Unit := do
  Action.attempt (ensure env.pinWrite .pinWrite)
  modify fun node =>
    { node with
      identity := { node.identity with orgRootPk := some orgRootPk, orgId := some orgId } }

/-- Pin an adopted successor. -/
def adoptSuccessorRoot (env : Env) (anchor : AnchorChange) (orgId : String) : Install J Unit :=
  match anchor.adoptedRootPk with
  | none => pure ()
  | some newPk => writeIdentityPin env newPk orgId

/-- `confirm_roster_current`; the sidecar it also writes is best effort. -/
def confirmRosterCurrent (now : Int) (node : Node J) : Node J :=
  { node with gate := { node.gate with lastConfirmed := some now } }

/-- The hot swap of `install_roster_view_and_sever`. -/
def swapView (view : RosterView) (node : Node J) : Node J :=
  { node with gate := { node.gate with view := some view } }

/-- Take this device's `user_id` from the roster; a failed write is a warning. -/
def reconcileUserId (env : Env) (ownId : EndpointId) (node : Node J) : Node J :=
  match node.gate.view.bind fun view => (view.resolve ownId).map (·.userId) with
  | none => node
  | some rosterUserId =>
      let proposed := if env.configRead then node.identity.userId else none
      if proposed = some rosterUserId then node
      else if env.userIdWrite then
        { node with identity := { node.identity with userId := some rosterUserId } }
      else node

/-- The tail both pipelines share: confirm, swap, reconcile. -/
def goLive (env : Env) (ownId : EndpointId) (view : RosterView) (node : Node J) : Node J :=
  reconcileUserId env ownId (swapView view (confirmRosterCurrent env.now node))

/-- The gossip and URL channels: `announced` is the serial the caller fetched. -/
def convergeRosterBytes (ownId : EndpointId) (env : Env) (bytes : J.Bytes) (announced : Nat) :
    Install J Bool := do
  let node ← get
  if announced ≤ (node.gate.view.map (·.serial)).getD 0 then
    return false
  let (_, pk) ← Action.attempt (resolveAnchor P env node none)
  Action.attempt (ensure env.staging .stage)
  let (view, anchor) ← installFromFile P env bytes pk
  adoptSuccessorRoot env anchor view.orgId
  modify (goLive env ownId view)
  return true

/-- The operator's install: an explicit `orgRootPk` is the anchor of a first
install or a re-pin; an adopted successor wins over it. -/
def installRoster (ownId : EndpointId) (env : Env) (file : J.Bytes) (orgRootPk : Option String) :
    Install J (String × Nat) := do
  let node ← get
  let (pkStr, pk) ← Action.attempt (resolveAnchor P env node orgRootPk)
  let (view, anchor) ← installFromFile P env file pk
  let pkStr := anchor.adoptedRootPk.getD pkStr
  if orgRootPk.isSome || anchor.adoptedRootPk.isSome then
    writeIdentityPin env pkStr view.orgId
  modify (goLive env ownId view)
  return (view.orgId, view.serial)

/-! ## one call -/

/-- A call of either pipeline. -/
inductive InstallCall (J : SerdeJson) where
  | converge (env : Env) (bytes : J.Bytes) (announced : Nat)
  | manual (env : Env) (file : J.Bytes) (orgRootPk : Option String)

inductive InstallOk where
  | converged (installed : Bool)
  | installed (orgId : String) (serial : Nat)
  deriving DecidableEq, Repr

namespace InstallCall

def env : InstallCall J → Env
  | .converge env _ _ | .manual env _ _ => env

def bytes : InstallCall J → J.Bytes
  | .converge _ bytes _ | .manual _ bytes _ => bytes

/-- The explicit anchor of an operator's install. -/
def orgRootPk : InstallCall J → Option String
  | .converge .. => none
  | .manual _ _ orgRootPk => orgRootPk

/-- What a convergence checks before the file is judged. -/
def Fetched (node : Node J) : InstallCall J → Prop
  | .converge env _ announced =>
      (node.gate.view.map (·.serial)).getD 0 < announced ∧ env.staging = true
  | .manual .. => True

end InstallCall

/-- Run one call. -/
def installStep (ownId : EndpointId) (node : Node J) :
    InstallCall J → Node J × Except InstallError InstallOk
  | .converge env bytes announced =>
      let (node, result) := (convergeRosterBytes P ownId env bytes announced).apply node
      (node, result.map .converged)
  | .manual env file orgRootPk =>
      let (node, result) := (installRoster P ownId env file orgRootPk).apply node
      (node, result.map fun (orgId, serial) => .installed orgId serial)

/-- The call's document is accepted and persisted: what happens up to the pin. -/
structure Accepted (node : Node J) (call : InstallCall J) (view : RosterView)
    (anchor : AnchorChange) (out : J.Bytes) : Prop where
  fetched : call.Fetched node
  judged : ∃ pkStr pk, resolveAnchor P call.env node call.orgRootPk = .ok (pkStr, pk) ∧
    judge P call.env node.rosterFile call.bytes pk = .ok ((view, anchor), out)
  persisted : call.env.persist = true

/-- The key an accepted call pins, if it pins one. -/
def newPin (call : InstallCall J) (anchor : AnchorChange) : Option String :=
  anchor.adoptedRootPk <|> call.orgRootPk

/-- The state of an installed roster: all three stores move. -/
def installedNode (ownId : EndpointId) (node : Node J) (call : InstallCall J) (view : RosterView)
    (anchor : AnchorChange) (out : J.Bytes) : Node J :=
  goLive call.env ownId view
    { node with
      rosterFile := some out
      identity :=
        match newPin call anchor with
        | none => node.identity
        | some pk => { node.identity with orgRootPk := some pk, orgId := some view.orgId } }

/-- What a successful install answers. -/
def installedOk (call : InstallCall J) (view : RosterView) : InstallOk :=
  match call with
  | .converge .. => .converged true
  | .manual .. => .installed view.orgId view.serial

/-! ### what one call does -/

variable {P} {ownId : EndpointId} {node : Node J} {call : InstallCall J} {view : RosterView}
  {anchor : AnchorChange} {out : J.Bytes}

/-- The pin of an accepted call is due and its write fails. -/
def PinLost (call : InstallCall J) (anchor : AnchorChange) : Prop :=
  (newPin call anchor).isSome = true ∧ call.env.pinWrite = false

instance : Decidable (PinLost call anchor) := inferInstanceAs (Decidable (_ ∧ _))

/-- What an accepted call leaves and answers. -/
def acceptedStep (ownId : EndpointId) (node : Node J) (call : InstallCall J) (view : RosterView)
    (anchor : AnchorChange) (out : J.Bytes) : Node J × Except InstallError InstallOk :=
  if PinLost call anchor then ({ node with rosterFile := some out }, .error .pinWrite)
  else (installedNode ownId node call view anchor out, .ok (installedOk call view))

/-- An accepted document goes live, if the pin that it brings is written. -/
theorem acceptedStep_of_pinned (call : InstallCall J)
    (h : (newPin call anchor).isSome = true → call.env.pinWrite = true) :
    acceptedStep ownId node call view anchor out =
      (installedNode ownId node call view anchor out, .ok (installedOk call view)) :=
  if_neg fun hlost => absurd ((h hlost.1).symm.trans hlost.2) (by simp)

/-- A pin that is not lost is written. -/
theorem pinWrite_of_not_pinLost (hlost : ¬ PinLost call anchor)
    (hpin : (newPin call anchor).isSome = true) : call.env.pinWrite = true := by
  cases hwrite : call.env.pinWrite with
  | true => rfl
  | false => exact absurd ⟨hpin, hwrite⟩ hlost

/-- A pin that is lost leaves the file written and the view as it was. -/
theorem acceptedStep_of_lost (call : InstallCall J) (h : PinLost call anchor) :
    acceptedStep ownId node call view anchor out =
      ({ node with rosterFile := some out }, .error .pinWrite) :=
  if_pos h

/-- An install from the file fails and changes nothing, or does what its judgement says.
-/
theorem installFromFile_cases (node : Node J) (env : Env) (file : J.Bytes) (pk : VerifyingKey P) :
    (∃ e, (installFromFile P env file pk).apply node = (node, .error e) ∧
        ∀ view anchor out, judge P env node.rosterFile file pk = .ok ((view, anchor), out) →
          env.persist = false) ∨
      ∃ view anchor out, judge P env node.rosterFile file pk = .ok ((view, anchor), out) ∧
        env.persist = true ∧
        (installFromFile P env file pk).apply node =
          ({ node with rosterFile := some out }, .ok (view, anchor)) := by
  unfold installFromFile
  rw [Action.apply_get]
  cases hjudge : judge P env node.rosterFile file pk with
  | error e =>
      exact .inl ⟨e, by rw [Action.apply_attempt_error rfl], fun _ _ _ h => by contradiction⟩
  | ok accepted =>
      obtain ⟨⟨view, anchor⟩, out⟩ := accepted
      rw [Action.apply_attempt_ok rfl]
      cases hpersist : env.persist with
      | false => exact .inl ⟨.persist, rfl, fun _ _ _ _ => rfl⟩
      | true => exact .inr ⟨view, anchor, out, rfl, rfl, rfl⟩

/-- An anchor that is given is the one that is used. -/
theorem resolveAnchor_explicit {env : Env} {s pkStr : String} {pk : VerifyingKey P}
    (h : resolveAnchor P env node (some s) = .ok (pkStr, pk)) : pkStr = s := by
  obtain ⟨s', hs, h⟩ := bind_eq_ok.mp h
  obtain ⟨_, _, h⟩ := bind_eq_ok.mp h
  rw [Except.ok.inj hs, ← (Prod.mk.inj (Except.ok.inj h)).1]

/-- A pin is written, or nothing is. -/
theorem writeIdentityPin_apply {env : Env} {pk orgId : String} :
    (writeIdentityPin env pk orgId).apply node =
      if env.pinWrite then
        ({ node with
            identity := { node.identity with orgRootPk := some pk, orgId := some orgId } }, .ok ())
      else (node, .error .pinWrite) := by
  unfold writeIdentityPin
  cases env.pinWrite with
  | true => rfl
  | false => rfl

/-- The two ways a convergence goes: it is turned away before it writes
anything, or its document is accepted. -/
theorem installStep_converge (ownId : EndpointId) (node : Node J) (env : Env) (bytes : J.Bytes)
    (announced : Nat) :
    let call := InstallCall.converge env bytes announced
    ((∀ view anchor out, ¬ Accepted P node call view anchor out) ∧
        ∃ r, installStep P ownId node call = (node, r) ∧
          (r = .ok (.converged false) ∨ ∃ e, r = .error e)) ∨
      ∃ view anchor out, Accepted P node call view anchor out ∧
        installStep P ownId node call = acceptedStep ownId node call view anchor out := by
  simp only [installStep, convergeRosterBytes]
  rw [Action.apply_get]
  by_cases hskip : announced ≤ (node.gate.view.map (·.serial)).getD 0
  · rw [if_pos hskip]
    exact .inl ⟨fun _ _ _ h => absurd h.fetched.1 (Nat.not_lt.mpr hskip), _, rfl, .inl rfl⟩
  rw [if_neg hskip]
  cases hanchor : resolveAnchor P env node none with
  | error e =>
      rw [Action.apply_attempt_error rfl]
      refine .inl ⟨fun _ _ _ h => ?_, _, rfl, .inr ⟨e, rfl⟩⟩
      obtain ⟨pkStr, pk, hpk, -⟩ := h.judged
      exact absurd (hanchor.symm.trans hpk) (by simp)
  | ok key =>
      obtain ⟨pkStr, pk⟩ := key
      rw [Action.apply_attempt_ok rfl]
      dsimp only
      cases hstage : env.staging with
      | false =>
          refine .inl ⟨fun _ _ _ h => absurd (hstage.symm.trans h.fetched.2) (by simp), ?_⟩
          exact ⟨_, rfl, .inr ⟨.stage, rfl⟩⟩
      | true =>
          rw [Action.apply_attempt_ok (ensure_true _), Action.apply_bind]
          obtain ⟨e, happly, hreject⟩ | ⟨view, anchor, out, hjudge, hpersist, happly⟩ :=
              installFromFile_cases node env bytes pk
          · rw [happly]
            refine .inl ⟨fun view anchor out h => ?_, _, rfl, .inr ⟨e, rfl⟩⟩
            obtain ⟨pkStr', pk', hpk, hjudge⟩ := h.judged
            obtain ⟨-, rfl⟩ := Prod.mk.inj (Except.ok.inj (hanchor.symm.trans hpk))
            exact absurd ((hreject view anchor out hjudge).symm.trans h.persisted) (by simp)
          · rw [happly]
            refine .inr ⟨view, anchor, out,
              ⟨⟨Nat.not_le.mp hskip, hstage⟩, ⟨pkStr, pk, hanchor, hjudge⟩, hpersist⟩, ?_⟩
            dsimp only
            obtain ⟨adopted⟩ := anchor
            cases adopted with
            | none => rfl
            | some newPk =>
                rw [adoptSuccessorRoot, Action.apply_bind, writeIdentityPin_apply]
                cases hpin : env.pinWrite with
                | true =>
                    rw [acceptedStep_of_pinned (.converge env bytes announced) fun _ => hpin]
                    rfl
                | false =>
                    rw [acceptedStep_of_lost (.converge env bytes announced) ⟨rfl, hpin⟩]
                    rfl

/-- The same for an operator's install. -/
theorem installStep_manual (ownId : EndpointId) (node : Node J) (env : Env) (file : J.Bytes)
    (orgRootPk : Option String) :
    let call := InstallCall.manual env file orgRootPk
    ((∀ view anchor out, ¬ Accepted P node call view anchor out) ∧
        ∃ e, installStep P ownId node call = (node, .error e)) ∨
      ∃ view anchor out, Accepted P node call view anchor out ∧
        installStep P ownId node call = acceptedStep ownId node call view anchor out := by
  simp only [installStep, installRoster]
  rw [Action.apply_get]
  cases hanchor : resolveAnchor P env node orgRootPk with
  | error e =>
      rw [Action.apply_attempt_error rfl]
      refine .inl ⟨fun _ _ _ h => ?_, _, rfl⟩
      obtain ⟨pkStr, pk, hpk, -⟩ := h.judged
      exact absurd (hanchor.symm.trans hpk) (by simp)
  | ok key =>
      obtain ⟨pkStr, pk⟩ := key
      rw [Action.apply_attempt_ok rfl, Action.apply_bind]
      obtain ⟨e, happly, hreject⟩ | ⟨view, anchor, out, hjudge, hpersist, happly⟩ :=
          installFromFile_cases node env file pk
      · rw [happly]
        refine .inl ⟨fun view anchor out h => ?_, _, rfl⟩
        obtain ⟨pkStr', pk', hpk, hjudge⟩ := h.judged
        obtain ⟨-, rfl⟩ := Prod.mk.inj (Except.ok.inj (hanchor.symm.trans hpk))
        exact absurd ((hreject view anchor out hjudge).symm.trans h.persisted) (by simp)
      · rw [happly]
        refine .inr ⟨view, anchor, out, ⟨trivial, ⟨pkStr, pk, hanchor, hjudge⟩, hpersist⟩, ?_⟩
        dsimp only
        obtain ⟨adopted⟩ := anchor
        cases adopted with
        | some newPk =>
            simp only [Option.isSome_some, Bool.or_true, if_true, Option.getD_some]
            rw [Action.apply_bind, writeIdentityPin_apply]
            cases hpin : env.pinWrite with
            | true => rw [acceptedStep_of_pinned (.manual env file orgRootPk) fun _ => hpin]; rfl
            | false => rw [acceptedStep_of_lost (.manual env file orgRootPk) ⟨rfl, hpin⟩]; rfl
        | none =>
            cases orgRootPk with
            | none => rfl
            | some s =>
                obtain rfl : pkStr = s := resolveAnchor_explicit hanchor
                simp only [Option.isSome_some, Bool.true_or, if_true, Option.getD_none]
                rw [Action.apply_bind, writeIdentityPin_apply]
                cases hpin : env.pinWrite with
                | true =>
                    rw [acceptedStep_of_pinned (.manual env file (some pkStr)) fun _ => hpin]
                    rfl
                | false =>
                    rw [acceptedStep_of_lost (.manual env file (some pkStr)) ⟨rfl, hpin⟩]
                    rfl

/-- **What one call does**: it is turned away and writes nothing, or its
document is accepted. -/
theorem installStep_cases (ownId : EndpointId) (node : Node J) (call : InstallCall J) :
    ((∀ view anchor out, ¬ Accepted P node call view anchor out) ∧
        ∃ r, installStep P ownId node call = (node, r) ∧
          (r = .ok (.converged false) ∨ ∃ e, r = .error e)) ∨
      ∃ view anchor out, Accepted P node call view anchor out ∧
        installStep P ownId node call = acceptedStep ownId node call view anchor out := by
  cases call with
  | converge env bytes announced => exact installStep_converge ownId node env bytes announced
  | manual env file orgRootPk =>
      refine (installStep_manual ownId node env file orgRootPk).imp_left ?_
      rintro ⟨hnone, e, hstep⟩
      exact ⟨hnone, _, hstep, .inr ⟨e, rfl⟩⟩

end Install

end Mcpmesh
