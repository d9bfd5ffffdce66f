import Mcpmesh.Roster.Anchor

/-!
# Mcpmesh.Roster.Staleness

How long a superseded roster serves (`node/src/roster/distribute.rs`, and the
startup of the roster gate in `node/src/daemon/boot.rs`).

A roster reaches the node by a poll of its URL, by gossip or by the operator's
install.  `lastConfirmed` is the last instant one of them showed the installed
roster to be current, and an equal serial shows it as much as a newer one does:
a poll takes the installed document, served again, for a confirmation.

`arrivalStep_cases` lists what an arrival does to the gate;
`staleness_bounded` is the bound, from the last instant a document that is not
behind the gate's reached the node.
-/

namespace Mcpmesh

open Lib

section Arrivals

variable (P : Primitives) {J : SerdeJson}

/-! ## startup -/

/-- `RosterStore::load`. -/
def load (env : Env) (file : Option J.Bytes) (rootPk : VerifyingKey P) :
    Except InstallError (Option RosterView) := do
  ensure env.installedRead .readInstalled
  match file with
  | none => .ok none
  | some bytes =>
      let roster ← (J.fromSlice bytes).mapError .parseFile
      let view ← (loadInstalled P roster rootPk).mapError .validation
      .ok (some view)

/-- The view the gate starts with: any failure leaves it empty. -/
def startupView (env : Env) (orgRootPk : Option String) (file : Option J.Bytes) :
    Option RosterView :=
  match orgRootPk with
  | none => none
  | some pkStr =>
      match parseOrgRootPk P pkStr with
      | .error _ => none
      | .ok pk => (load P env file pk).toOption.join

/-- The `lastConfirmed` the gate starts with, from the sidecar: an unreadable one
arms nothing, an absent one counts as confirmed now when a roster is there. -/
def startupConfirmed (now : Int) (sidecar : Except String (Option Int))
    (view : Option RosterView) : Option Int :=
  match sidecar with
  | .ok (some lc) => some lc
  | .ok none => if view.isSome then some now else none
  | .error _ => none

/-- A node that starts; the two windows are in seconds. -/
def boot (env : Env) (identity : Identity) (file : Option J.Bytes)
    (sidecar : Except String (Option Int)) (grace maxStaleness : Nat) : Node J :=
  let view := startupView P env identity.orgRootPk file
  { identity
    rosterFile := file
    gate := { view, graceSecs := grace, lastConfirmed := startupConfirmed env.now sidecar view,
              maxStaleness } }

/-! ## the channels -/

/-- The serial of the view, 0 without one. -/
def servedSerial (node : Node J) : Nat := (node.gate.view.map (·.serial)).getD 0

def equalSerialBodyIsAuthentic (env : Env) (node : Node J) (roster : Roster) : Bool :=
  match configOrgRootPk env node with
  | .ok (some pkB64) =>
      match parseOrgRootPk P pkB64 with
      | .ok pk => (verify P roster pk).isOk
      | .error _ => false
  | .ok none | .error _ => false

/-- A poll whose body arrived. -/
def pollRosterUrlOnce (ownId : EndpointId) (env : Env) (body : J.Bytes) : Install J Unit := do
  let node ← get
  match J.fromSlice body with
  | .error _ => pure ()
  | .ok roster =>
      if servedSerial node < roster.serial then
        discard (convergeRosterBytes P ownId env body roster.serial)
      else if roster.serial = servedSerial node then
        if equalSerialBodyIsAuthentic P env node roster then
          modify (confirmRosterCurrent env.now)
      else pure ()

/-- An announce whose blob was fetched. -/
def onAnnounce (ownId : EndpointId) (env : Env) (announced : Nat) (bytes : J.Bytes) :
    Install J Unit := do
  let node ← get
  if announced ≤ servedSerial node then pure ()
  else discard (convergeRosterBytes P ownId env bytes announced)

/-- What brings a roster to a node; `env.now` is when it is looked at. -/
inductive Arrival (J : SerdeJson) where
  | poll (env : Env) (body : J.Bytes)
  | announce (env : Env) (announced : Nat) (bytes : J.Bytes)
  | install (env : Env) (file : J.Bytes) (orgRootPk : Option String)

namespace Arrival

def env : Arrival J → Env
  | .poll env _ | .announce env _ _ | .install env _ _ => env

def bytes : Arrival J → J.Bytes
  | .poll _ bytes | .announce _ _ bytes | .install _ bytes _ => bytes

def IsManual : Arrival J → Prop
  | .install .. => True
  | .poll .. | .announce .. => False

end Arrival

def arrivalStep (ownId : EndpointId) (node : Node J) :
    Arrival J → Node J × Except InstallError Unit
  | .poll env body => (pollRosterUrlOnce P ownId env body).apply node
  | .announce env announced bytes => (onAnnounce P ownId env announced bytes).apply node
  | .install env file orgRootPk =>
      (discard (installRoster P ownId env file orgRootPk) : Install J Unit).apply node

/-- The root the node pins signed the roster, or named the successor that did. -/
def Vouched (node : Node J) (roster : Roster) : Prop :=
  ∃ k r, Pinned P node k ∧ resolveVerifier P roster k = .ok r

/-- An arrival that is no replay of what the node is past: the operator's, or a
vouched roster with a serial not below the gate's. -/
def Current (node : Node J) (a : Arrival J) : Prop :=
  a.IsManual ∨ ∃ roster, J.fromSlice a.bytes = .ok roster ∧ Vouched P node roster ∧
    servedSerial node ≤ roster.serial

/-! ### what an arrival does -/

variable {P} {ownId : EndpointId} {node : Node J} {a : Arrival J}

theorem apply_discard {α : Type} (m : Install J α) :
    (discard m : Install J Unit).apply node =
      ((m.apply node).1, (m.apply node).2.map fun _ => ()) := by
  rw [show (discard m : Install J Unit) = (m >>= fun _ => pure ()) from rfl, Action.apply_bind]
  cases m.apply node with
  | mk s r => cases r <;> rfl

theorem verify_of_authentic {env : Env} {roster : Roster}
    (h : equalSerialBodyIsAuthentic P env node roster = true) : Vouched P node roster := by
  unfold equalSerialBodyIsAuthentic at h
  split at h
  · rename_i pkB64 hpin
    split at h
    · rename_i pk hpk
      obtain ⟨_, -, hpin⟩ := bind_eq_ok.mp hpin
      refine ⟨pk, (pk, ⟨none⟩), ⟨pkB64, Except.ok.inj hpin, hpk⟩, ?_⟩
      obtain ⟨u, hverify⟩ := isOk_iff.mp h
      rw [resolveVerifier, hverify]
    · contradiction
  · contradiction
  · contradiction

/-- **What an arrival does**: nothing, a confirmation of the served roster by an
equal serial, or what an install does. -/
theorem arrivalStep_cases (ownId : EndpointId) (node : Node J) (a : Arrival J) :
    (arrivalStep P ownId node a).1 = node ∨
      (∃ roster, J.fromSlice a.bytes = .ok roster ∧ Vouched P node roster ∧
        roster.serial = servedSerial node ∧
        (arrivalStep P ownId node a).1 = confirmRosterCurrent a.env.now node) ∨
      ∃ call : InstallCall J, call.env = a.env ∧ call.bytes = a.bytes ∧
        (call.orgRootPk = none ∨ a.IsManual) ∧
        (arrivalStep P ownId node a).1 = (installStep P ownId node call).1 := by
  cases a with
  | poll env body =>
      rw [arrivalStep, pollRosterUrlOnce, Action.apply_get]
      cases hroster : J.fromSlice body with
      | error e => exact .inl rfl
      | ok roster =>
          dsimp only
          split_ifs with hnewer hequal hauthentic
          · refine .inr (.inr ⟨.converge env body roster.serial, rfl, rfl, .inl rfl, ?_⟩)
            rw [apply_discard]
            rfl
          · exact .inr (.inl ⟨roster, hroster, verify_of_authentic hauthentic, hequal, rfl⟩)
          · exact .inl rfl
          · exact .inl rfl
  | announce env announced bytes =>
      rw [arrivalStep, onAnnounce, Action.apply_get]
      split_ifs with hstale
      · exact .inl rfl
      · refine .inr (.inr ⟨.converge env bytes announced, rfl, rfl, .inl rfl, ?_⟩)
        rw [apply_discard]
        rfl
  | install env file orgRootPk =>
      refine .inr (.inr ⟨.manual env file orgRootPk, rfl, rfl, .inr trivial, ?_⟩)
      rw [arrivalStep, apply_discard]
      rfl

/-! ### the invariant -/

/-- A gate with a view was confirmed, no later than `L`, and serves nothing the
file is behind. -/
structure ConfirmedBy (grace maxStaleness : Nat) (L : Int) (node : Node J) : Prop where
  windows : node.gate.graceSecs = grace ∧ node.gate.maxStaleness = maxStaleness
  armed : ∀ view, node.gate.view = some view →
    ∃ lc, node.gate.lastConfirmed = some lc ∧ lc ≤ L
  floor : servedSerial node ≤ serialFloor node.rosterFile

variable {grace maxStaleness : Nat} {L : Int}

/-- The startup view is the file's roster. -/
theorem serial_of_startupView {env : Env} {orgRootPk : Option String} {file : Option J.Bytes}
    {view : RosterView} (h : startupView P env orgRootPk file = some view) :
    view.serial = serialFloor file := by
  unfold startupView at h
  split at h
  · contradiction
  · split at h
    · contradiction
    · rename_i pk _
      cases hload : load P env file pk with
      | error e => rw [hload] at h; contradiction
      | ok loaded =>
          obtain rfl : loaded = some view := by
            rw [hload] at h
            simpa [Except.toOption] using h
          obtain ⟨_, -, hload⟩ := bind_eq_ok.mp hload
          cases file with
          | none => exact absurd (Except.ok.inj hload) (by simp)
          | some bytes =>
              obtain ⟨roster, hroster, hload⟩ := bind_eq_ok.mp hload
              obtain ⟨view', hview, hload⟩ := bind_eq_ok.mp hload
              obtain rfl := Option.some.inj (Except.ok.inj hload)
              obtain ⟨_, -, hview⟩ := bind_eq_ok.mp (mapError_eq_ok.mp hview)
              obtain ⟨_, -, hview⟩ := bind_eq_ok.mp hview
              obtain ⟨_, -, hview⟩ := bind_eq_ok.mp hview
              obtain ⟨-, hserial, -, -⟩ := buildView_eq_ok hview
              simp only [serialFloor, mapError_eq_ok.mp hroster, hserial]

theorem confirmedBy_boot {env : Env} {identity : Identity} {file : Option J.Bytes}
    {confirmed : Option Int} (hnow : env.now ≤ L)
    (hconfirmed : ∀ lc, confirmed = some lc → lc ≤ L) :
    ConfirmedBy grace maxStaleness L
      (boot P env identity file (.ok confirmed) grace maxStaleness) where
  windows := ⟨rfl, rfl⟩
  armed view hview := by
    have hstart : startupView P env identity.orgRootPk file = some view := hview
    cases confirmed with
    | some lc => exact ⟨lc, rfl, hconfirmed lc rfl⟩
    | none =>
        refine ⟨env.now, ?_, hnow⟩
        simp only [boot, startupConfirmed, hstart, Option.isSome_some, if_true]
  floor := by
    unfold servedSerial
    cases hview : startupView P env identity.orgRootPk file with
    | none => simp only [boot, hview, Option.map_none, Option.getD_none, Nat.zero_le]
    | some view =>
        simp only [boot, hview, Option.map_some, Option.getD_some]
        exact (serial_of_startupView hview).le

/-- What an accepted document of the automatic channels is. -/
theorem Accepted.vouched {call : InstallCall J} {view : RosterView} {anchor : AnchorChange}
    {out : J.Bytes} (h : Accepted P node call view anchor out) (hoffer : call.orgRootPk = none) :
    ∃ roster, J.fromSlice call.bytes = .ok roster ∧ Vouched P node roster ∧
      serialFloor node.rosterFile < roster.serial := by
  obtain ⟨roster, pkStr, pk, installed, hroster, -, hanchor, hinstalled, ⟨k, hverifier⟩, hlt,
    -, -⟩ := h.document
  rw [hoffer] at hanchor
  rw [← serialFloor_of_installedSerial hinstalled] at hlt
  exact ⟨roster, hroster, ⟨pk, _, (pinned_of_resolveAnchor hanchor).2, hverifier⟩, hlt⟩

/-- **The step lemma**: only a current arrival confirms, so that none after `L`
does. -/
theorem ConfirmedBy.step (ownId : EndpointId) (h : ConfirmedBy grace maxStaleness L node)
    (a : Arrival J) (hreplay : L < a.env.now → ¬ Current P node a) :
    ConfirmedBy grace maxStaleness L (arrivalStep P ownId node a).1 := by
  obtain hkept | ⟨roster, hroster, hvouched, hserial, hconfirm⟩ |
      ⟨call, henv, hbytes, hoffer, hinstall⟩ := arrivalStep_cases (P := P) ownId node a
  · rw [hkept]
    exact h
  · have hnow : a.env.now ≤ L := by
      by_contra hlate
      exact hreplay (not_le.mp hlate) (.inr ⟨roster, hroster, hvouched, hserial.ge⟩)
    rw [hconfirm]
    exact ⟨h.windows, fun view _ => ⟨a.env.now, rfl, hnow⟩, h.floor⟩
  · rw [hinstall]
    obtain ⟨-, r, hstep, -⟩ | ⟨view, anchor, out, haccepted, hstep⟩ :=
      installStep_cases (P := P) ownId node call
    · rw [hstep]
      exact h
    · have hfloor := (serialFloor_step (P := P) ownId node call).1
      by_cases hlost : PinLost call anchor
      · rw [hstep, acceptedStep_of_lost call hlost] at hfloor ⊢
        exact ⟨h.windows, h.armed, h.floor.trans hfloor⟩
      · have hnow : a.env.now ≤ L := by
          by_contra hlate
          refine hreplay (not_le.mp hlate) ?_
          obtain hoffer | hmanual := hoffer
          · obtain ⟨roster, hroster, hvouched, hlt⟩ := haccepted.vouched hoffer
            exact .inr ⟨roster, hbytes ▸ hroster, hvouched, h.floor.trans hlt.le⟩
          · exact .inl hmanual
        obtain ⟨roster, -, -, -, -, hout, -, -, -, -, hserial, -⟩ := haccepted.document
        obtain ⟨userId, hlive⟩ := goLive_eq call.env ownId view _
        rw [hstep, acceptedStep_of_pinned call (pinWrite_of_not_pinLost hlost), installedNode,
          hlive]
        refine ⟨h.windows, fun _ _ => ⟨call.env.now, rfl, henv ▸ hnow⟩, ?_⟩
        simp only [servedSerial, serialFloor, Option.map_some, Option.getD_some, hout, hserial,
          le_refl]

/-- Past both windows the state is stopped, whatever the expiry says. -/
theorem effectiveState_of_stale {view : RosterView} {now lc : Int} (hL : 0 ≤ L) (hlc : lc ≤ L)
    (hnow : now < 2 ^ 63) (hlate : L + maxStaleness + grace < now) :
    view.effectiveState now grace (some lc) maxStaleness = .degradedStopped := by
  have hstale : RosterView.staleness now grace (some lc) maxStaleness = .degradedStopped := by
    have hlong : (maxStaleness : Int) + grace < saturatingSub now lc := by
      unfold saturatingSub
      omega
    unfold RosterView.staleness
    dsimp only
    rw [if_neg (by omega), if_neg (by omega)]
  unfold RosterView.effectiveState
  rw [hstale]
  cases view.state now grace <;> rfl

theorem ConfirmedBy.stopped (h : ConfirmedBy grace maxStaleness L node) {now : Int} (hL : 0 ≤ L)
    (hnow : now < 2 ^ 63) (hlate : L + maxStaleness + grace < now) {view : RosterView}
    (hview : node.gate.view = some view) :
    node.gate.effectiveState now = some .degradedStopped := by
  obtain ⟨lc, hlast, hlc⟩ := h.armed view hview
  rw [RosterGate.effectiveState, hview, Option.map_some, hlast, h.windows.1, h.windows.2,
    effectiveState_of_stale hL hlc hnow hlate]

end Arrivals

/-- **The staleness bound**: when nothing after `L` is a current arrival, then
past `L` and both windows the state is stopped and the gate grants no roster
identity. -/
theorem staleness_bounded (P : Primitives) (J : SerdeJson) (ownId : EndpointId) (env : Env)
    (identity : Identity) (file : Option J.Bytes) (confirmed : Option Int)
    (grace maxStaleness L : Nat) (now : Int) (hboot : env.now ≤ L)
    (hconfirmed : ∀ lc, confirmed = some lc → lc ≤ L) (arrivals : List (Arrival J))
    (hreplay : ∀ t ∈ trace (arrivalStep P ownId)
      (boot P env identity file (.ok confirmed) grace maxStaleness) arrivals,
        L < t.call.env.now → ¬ Current P t.pre t.call)
    (hlate : L + maxStaleness + grace < now) (hnow : now < 2 ^ 63) :
    let gate := (final (arrivalStep P ownId)
      (boot P env identity file (.ok confirmed) grace maxStaleness) arrivals).gate
    (gate.view.isSome → gate.effectiveState now = some .degradedStopped) ∧
      ∀ endpoint, gate.resolve now endpoint = none := by
  intro gate
  have hfinal : ConfirmedBy grace maxStaleness L _ :=
    trace_guarded (fun node a hquiet h => h.step ownId a hquiet)
      (confirmedBy_boot hboot hconfirmed) hreplay
  have hstopped : ∀ view, gate.view = some view → gate.effectiveState now = some .degradedStopped :=
    fun view hview => hfinal.stopped (by omega) hnow hlate hview
  refine ⟨fun hsome => ?_, fun endpoint => ?_⟩
  · obtain ⟨view, hview⟩ := Option.isSome_iff_exists.mp hsome
    exact hstopped view hview
  · cases hview : gate.view with
    | none => rw [RosterGate.resolve, hview]; rfl
    | some view => exact RosterGate.resolve_of_stopped (hstopped view hview)

/-! ### a replay -/

namespace Replay

open Instance

def first : Roster := roster "acme" 1 1

def second : Roster := roster "acme" 2 2

def P : Primitives :=
  primitives [rootKey] [bodySignature rootKey first 1, bodySignature rootKey second 2]

def identity : Identity :=
  { orgRootPk := some (b64u rootKey.toList), orgId := some "acme", userId := none }

/-- 2026-01-15. -/
def T : Nat := 1768435200

/-- The host serves a document, `s` seconds after `T`. -/
def served (s : Nat) (document : Roster) : Arrival serde :=
  .poll (Env.healthy (T + s)) (some document)

end Replay

/-- The host serves the first roster once more after the second is out, and the
node stays approved. -/
theorem replayed_roster_confirms :
    ¬ ∀ (P : Primitives) (J : SerdeJson) (ownId : EndpointId) (env : Env) (identity : Identity)
      (file : Option J.Bytes) (confirmed : Option Int) (grace maxStaleness T n : Nat) (now : Int),
      env.now ≤ T → (∀ lc, confirmed = some lc → lc ≤ T) → ∀ arrivals : List (Arrival J),
        (∀ a ∈ arrivals, T < a.env.now →
          ¬ a.IsManual ∧ ∀ roster, J.fromSlice a.bytes = .ok roster → roster.serial ≤ n) →
        T + maxStaleness + grace < now → now < 2 ^ 63 →
          (final (arrivalStep P ownId)
            (boot P env identity file (.ok confirmed) grace maxStaleness)
              arrivals).gate.effectiveState now = some .degradedStopped := by
  intro h
  have hstopped := h Replay.P Instance.serde Instance.ownId (Env.healthy Replay.T) Replay.identity
    (some (some Replay.first)) none 20 40 Replay.T 1 (Replay.T + 61) (by decide)
    (fun lc hlc => by contradiction) [Replay.served 60 Replay.first] (fun a ha _ => ?_) (by decide)
    (by decide)
  · have happroved : (final (arrivalStep Replay.P Instance.ownId)
        (boot Replay.P (Env.healthy Replay.T) Replay.identity (some (some Replay.first)) (.ok none)
          20 40) [Replay.served 60 Replay.first]).gate.effectiveState (Replay.T + 61) =
            some .approved := by decide +kernel
    rw [happroved] at hstopped
    exact absurd hstopped (by decide)
  · obtain rfl := List.mem_singleton.mp ha
    refine ⟨fun hmanual => hmanual, fun roster hroster => ?_⟩
    obtain rfl := Except.ok.inj hroster
    decide

/-- Past the last confirmation only the first roster is served to a node at the
second. -/
theorem staleness_bounded_example :
    (final (arrivalStep Replay.P Instance.ownId)
      (boot Replay.P (Env.healthy Replay.T) Replay.identity (some (some Replay.second)) (.ok none)
        20 40) [Replay.served 60 Replay.second, Replay.served 90 Replay.first]).gate.effectiveState
          (Replay.T + 121) = some .degradedStopped := by
  refine (staleness_bounded Replay.P Instance.serde Instance.ownId (Env.healthy Replay.T)
    Replay.identity (some (some Replay.second)) none 20 40 (Replay.T + 60) (Replay.T + 121)
    (by decide) (fun lc hlc => by contradiction)
    [Replay.served 60 Replay.second, Replay.served 90 Replay.first] ?_ (by decide)
      (by decide)).1 (by decide +kernel)
  simp only [trace_cons, trace_nil, List.forall_mem_cons]
  refine ⟨fun hlate => absurd hlate (by decide), fun _ hcurrent => ?_,
    fun _ h => absurd h List.not_mem_nil⟩
  obtain hmanual | ⟨roster, hroster, -, hserial⟩ := hcurrent
  · exact hmanual
  · obtain rfl := Except.ok.inj hroster
    exact absurd hserial (by decide +kernel)

end Mcpmesh
