import Mcpmesh.Gate.Allowlist
import Mcpmesh.Roster.Validate

/-!
# Mcpmesh.Gate.Composed

The roster gate and the composed gate of the daemon (`node/src/roster/gate.rs`).
`ComposedGate` layers the roster over the pair allowlist: revocation first, then
the roster identity, then the pair row.

Each method is written out separately, as in the source, and reads the clock
`now` where the source does.  `resolve_cases` says what `resolve` can answer;
that the four answers agree (`composed_answers_agree`) and what becomes of a
refusal as the roster ages (`refused_iff_refused_later`) follow from it.
-/

namespace Mcpmesh

/-! ## the roster gate -/

/-- The installed roster, if any, and its liveness bounds. -/
structure RosterGate where
  view : Option RosterView
  graceSecs : Int
  lastConfirmed : Option Int
  maxStaleness : Int

namespace RosterGate

variable (gate : RosterGate)

def effectiveState (now : Int) : Option RosterState :=
  gate.view.map fun view =>
    view.effectiveState now gate.graceSecs gate.lastConfirmed gate.maxStaleness

/-- The roster identity of a device, which is its user's name. -/
def rosterIdentity (endpoint : EndpointId) (d : ResolvedDevice) : PeerIdentity :=
  { endpoint, name := d.userId, userId := some d.userId, groups := d.groups }

/-- Resolve a rostered device; nothing when absent, revoked or degraded-stopped. -/
def resolve (now : Int) (endpoint : EndpointId) : Option PeerIdentity := do
  let view ← gate.view
  if gate.effectiveState now = some .degradedStopped then none
  else if view.isRevoked endpoint then none
  else (view.resolve endpoint).map (rosterIdentity endpoint)

/-- Honored in every degraded state. -/
def isRevoked (endpoint : EndpointId) : Bool :=
  (gate.view.map (·.isRevoked endpoint)).getD false

def rosterUser (now : Int) (endpoint : EndpointId) : Option String :=
  (gate.resolve now endpoint).bind (·.userId)

end RosterGate

/-! ## the composed gate -/

structure ComposedGate where
  roster : RosterGate
  pairs : PeerStore

namespace ComposedGate

variable (gate : ComposedGate)

def rosterIdentityRevoked (rosterUserId : Option String) : Bool :=
  rosterUserId.any gate.pairs.isRosterUserRevoked

def rosterUser (now : Int) (endpoint : EndpointId) : Option String :=
  gate.roster.rosterUser now endpoint

def resolve (now : Int) (endpoint : EndpointId) : Option PeerIdentity :=
  if gate.roster.isRevoked endpoint then none
  else
    let pair := gate.pairs.admission endpoint
    match pair with
    | .refused => none
    | .unpaired | .admitted _ =>
        match gate.roster.resolve now endpoint with
        | some id => if gate.rosterIdentityRevoked id.userId then none else some id
        | none =>
            match pair with
            | .admitted e => some (identityOf endpoint e)
            | .refused | .unpaired => none

def isRevoked (now : Int) (endpoint : EndpointId) : Bool :=
  gate.roster.isRevoked endpoint || gate.pairs.isRefused endpoint ||
    gate.rosterIdentityRevoked (gate.roster.rosterUser now endpoint)

/-- The register-time recheck, which reads no clock. -/
def shouldSeverNow (endpoint : EndpointId) (rosterUser : Option String) : Bool :=
  gate.pairs.isRefused endpoint || gate.roster.isRevoked endpoint ||
    gate.rosterIdentityRevoked rosterUser ||
    rosterUser.isSome && gate.roster.view.any fun v => (v.resolve endpoint).isNone

end ComposedGate

/-! ## what the gates answer -/

section Answers

variable {now : Int} {endpoint : EndpointId} {id : PeerIdentity}

/-- A roster identity comes from an active device of the installed view. -/
theorem RosterGate.resolve_eq_some {gate : RosterGate} :
    gate.resolve now endpoint = some id ↔
      ∃ view d, gate.view = some view ∧ gate.effectiveState now ≠ some .degradedStopped ∧
        view.isRevoked endpoint = false ∧ view.resolve endpoint = some d ∧
        id = rosterIdentity endpoint d := by
  unfold RosterGate.resolve
  cases hview : gate.view with
  | none => simp
  | some view =>
      simp only [Option.bind_eq_bind, Option.bind_some]
      split
      · next hstopped => simp [hstopped]
      · next hlive =>
        split
        · next hrev => simp [hrev]
        · next hrev => simp [hlive, hrev, Option.map_eq_some_iff, eq_comm (a := id)]

/-- The user of a resolved device is that of its identity. -/
theorem RosterGate.rosterUser_of_resolve {gate : RosterGate}
    (h : gate.resolve now endpoint = some id) : gate.rosterUser now endpoint = id.userId := by
  rw [RosterGate.rosterUser, h, Option.bind_some]

/-- **The spec of `resolve`**: it answers when nothing revokes the endpoint,
with the roster identity if there is one and else with the pair row. -/
theorem ComposedGate.resolve_eq_some {gate : ComposedGate} :
    gate.resolve now endpoint = some id ↔
      gate.roster.isRevoked endpoint = false ∧ gate.pairs.isRefused endpoint = false ∧
        (gate.roster.resolve now endpoint = some id ∧ gate.rosterIdentityRevoked id.userId = false ∨
          gate.roster.resolve now endpoint = none ∧
            ∃ entry, gate.pairs.admission endpoint = .admitted entry ∧
              id = identityOf endpoint entry) := by
  unfold ComposedGate.resolve PeerStore.isRefused
  cases hrev : gate.roster.isRevoked endpoint with
  | true => simp
  | false =>
      have hmask : ∀ rid : PeerIdentity,
          (if gate.rosterIdentityRevoked rid.userId then none else some rid) = some id ↔
            rid = id ∧ gate.rosterIdentityRevoked id.userId = false := by
        intro rid
        cases hid : gate.rosterIdentityRevoked rid.userId with
        | true =>
            simp only [if_true, reduceCtorEq, false_iff]
            rintro ⟨rfl, h⟩
            exact absurd (hid.symm.trans h) (by decide)
        | false =>
            simp only [Bool.false_eq_true, if_false, Option.some.injEq]
            exact ⟨fun h => ⟨h, h ▸ hid⟩, (·.1)⟩
      cases hadm : gate.pairs.admission endpoint with
      | refused => simp
      | unpaired =>
          cases hroster : gate.roster.resolve now endpoint with
          | none => simp
          | some rid => simpa using hmask rid
      | admitted entry =>
          cases hroster : gate.roster.resolve now endpoint with
          | none => simp [eq_comm (a := id)]
          | some rid => simpa using hmask rid

/-- A device that does not resolve has no user. -/
theorem RosterGate.rosterUser_eq_none {gate : RosterGate}
    (h : gate.resolve now endpoint = none) : gate.rosterUser now endpoint = none := by
  rw [RosterGate.rosterUser, h, Option.bind_none]

/-- Two instants at which the roster is not degraded-stopped resolve alike. -/
theorem RosterGate.resolve_of_live {gate : RosterGate} {now' : Int}
    (h : gate.resolve now endpoint = some id)
    (hlive : gate.effectiveState now' ≠ some .degradedStopped) :
    gate.resolve now' endpoint = some id := by
  obtain ⟨view, d, hview, -, hrev, hd, hid⟩ := RosterGate.resolve_eq_some.mp h
  exact RosterGate.resolve_eq_some.mpr ⟨view, d, hview, hlive, hrev, hd, hid⟩

/-- A roster that has run out resolves nobody. -/
theorem RosterGate.resolve_of_stopped {gate : RosterGate}
    (h : gate.effectiveState now = some .degradedStopped) : gate.resolve now endpoint = none := by
  cases hres : gate.resolve now endpoint with
  | none => rfl
  | some id =>
      obtain ⟨view, d, -, hlive, -⟩ := RosterGate.resolve_eq_some.mp hres
      exact absurd h hlive

/-- An admitted endpoint is not revoked in any of the senses of the gate. -/
theorem ComposedGate.not_revoked_of_resolve {gate : ComposedGate}
    (h : gate.resolve now endpoint = some id) :
    gate.roster.isRevoked endpoint = false ∧ gate.pairs.isRefused endpoint = false ∧
      gate.rosterIdentityRevoked (gate.rosterUser now endpoint) = false := by
  obtain ⟨hrev, hlive, hid⟩ := ComposedGate.resolve_eq_some.mp h
  refine ⟨hrev, hlive, ?_⟩
  obtain ⟨hroster, hid⟩ | ⟨hroster, -⟩ := hid
  · rw [ComposedGate.rosterUser, RosterGate.rosterUser_of_resolve hroster, hid]
  · rw [ComposedGate.rosterUser, RosterGate.rosterUser_eq_none hroster]
    rfl

end Answers

/-! ## which document answers -/

namespace ComposedGate

section Documents

variable (gate : ComposedGate) (now : Int) (endpoint : EndpointId)

/-- The roster answers for the endpoint, as the device `d`. -/
structure RosterAnswers (d : ResolvedDevice) : Prop where
  listed : ∃ view, gate.roster.view = some view ∧ view.resolve endpoint = some d
  running : gate.roster.effectiveState now ≠ some .degradedStopped
  kept : gate.roster.isRevoked endpoint = false
  admissible : gate.pairs.isRefused endpoint = false
  unrevoked : gate.pairs.isRosterUserRevoked d.userId = false

/-- The pair row answers for the endpoint. -/
structure PairAnswers (entry : PeerEntry) : Prop where
  kept : gate.roster.isRevoked endpoint = false
  unlisted : gate.roster.effectiveState now = some .degradedStopped ∨
    ∀ view, gate.roster.view = some view → view.resolve endpoint = none
  admitted : gate.pairs.admission endpoint = .admitted entry

variable {gate now endpoint}

theorem isRevoked_eq_any : gate.roster.isRevoked endpoint =
    gate.roster.view.any (·.isRevoked endpoint) := by
  rw [RosterGate.isRevoked]
  cases gate.roster.view with
  | none => rfl
  | some view => rfl

/-- Where the roster answers, the gate answers with its identity. -/
theorem resolve_of_rosterAnswers {d : ResolvedDevice} (h : gate.RosterAnswers now endpoint d) :
    gate.resolve now endpoint = some (RosterGate.rosterIdentity endpoint d) := by
  obtain ⟨view, hview, hd⟩ := h.listed
  have hkept : view.isRevoked endpoint = false := by
    have hkept := h.kept
    rwa [isRevoked_eq_any, hview] at hkept
  exact ComposedGate.resolve_eq_some.mpr ⟨h.kept, h.admissible, .inl ⟨RosterGate.resolve_eq_some.mpr
    ⟨view, d, hview, h.running, hkept, hd, rfl⟩, h.unrevoked⟩⟩

/-- Where the pairing answers, the gate answers with the row's identity. -/
theorem resolve_of_pairAnswers {entry : PeerEntry} (h : gate.PairAnswers now endpoint entry) :
    gate.resolve now endpoint = some (identityOf endpoint entry) := by
  refine ComposedGate.resolve_eq_some.mpr
    ⟨h.kept, by rw [PeerStore.isRefused, h.admitted], .inr ⟨?_, entry, h.admitted, rfl⟩⟩
  obtain hstopped | hunlisted := h.unlisted
  · exact RosterGate.resolve_of_stopped hstopped
  · cases hroster : gate.roster.resolve now endpoint with
    | none => rfl
    | some id =>
        obtain ⟨view, d, hview, _, _, hd, _⟩ := RosterGate.resolve_eq_some.mp hroster
        rw [hunlisted view hview] at hd
        contradiction

/-- An answer of the gate is the roster's or the pairing's. -/
theorem answers_of_resolve {id : PeerIdentity} (h : gate.resolve now endpoint = some id) :
    (∃ d, gate.RosterAnswers now endpoint d ∧ id = RosterGate.rosterIdentity endpoint d) ∨
      ∃ entry, gate.PairAnswers now endpoint entry ∧ id = identityOf endpoint entry := by
  obtain ⟨hkept, hadmissible, hid⟩ := ComposedGate.resolve_eq_some.mp h
  obtain ⟨hroster, hunrevoked⟩ | ⟨hnone, entry, hadmitted, rfl⟩ := hid
  · obtain ⟨view, d, hview, hrunning, _, hd, rfl⟩ := RosterGate.resolve_eq_some.mp hroster
    exact .inl ⟨d, ⟨⟨view, hview, hd⟩, hrunning, hkept, hadmissible, hunrevoked⟩, rfl⟩
  · refine .inr ⟨entry, ⟨hkept, ?_, hadmitted⟩, rfl⟩
    by_cases hstopped : gate.roster.effectiveState now = some .degradedStopped
    · exact .inl hstopped
    · refine .inr fun view hview => ?_
      cases hd : view.resolve endpoint with
      | none => rfl
      | some d =>
          -- a listed device of a running roster would have had a roster identity
          rw [isRevoked_eq_any, hview] at hkept
          have hroster := RosterGate.resolve_eq_some.mpr
            ⟨view, d, hview, hstopped, hkept, hd, rfl⟩
          rw [hnone] at hroster
          contradiction

end Documents

end ComposedGate

/-- **The composed gate's four answers agree**: an admitted endpoint is neither
revoked nor severed, a revoked one is not admitted, and the identity is the
roster's exactly when `roster_user` names one and else the pair row's. -/
theorem composed_answers_agree (gate : ComposedGate) (now : Int) (endpoint : EndpointId) :
    (∀ id, gate.resolve now endpoint = some id →
      gate.isRevoked now endpoint = false ∧
        gate.shouldSeverNow endpoint (gate.rosterUser now endpoint) = false) ∧
      (gate.isRevoked now endpoint = true → gate.resolve now endpoint = none) ∧
      ∀ id, gate.resolve now endpoint = some id →
        id.endpoint = endpoint ∧
          ((gate.rosterUser now endpoint).isSome ∧ gate.roster.resolve now endpoint = some id ∨
            gate.rosterUser now endpoint = none ∧
              ∃ entry, gate.pairs.PairRow endpoint entry ∧ id = identityOf endpoint entry) := by
  have hagree : ∀ id, gate.resolve now endpoint = some id →
      gate.isRevoked now endpoint = false ∧
        gate.shouldSeverNow endpoint (gate.rosterUser now endpoint) = false := by
    intro id h
    obtain ⟨hrev, hrefused, hidentity⟩ := ComposedGate.not_revoked_of_resolve h
    refine ⟨?_, ?_⟩
    · rw [ComposedGate.isRevoked, hrev, hrefused]
      exact hidentity
    · rw [ComposedGate.shouldSeverNow, hrev, hrefused, hidentity]
      obtain ⟨hroster, -⟩ | ⟨hroster, -⟩ := (ComposedGate.resolve_eq_some.mp h).2.2
      · obtain ⟨view, d, hview, -, -, hd, -⟩ := RosterGate.resolve_eq_some.mp hroster
        simp [hview, hd]
      · rw [ComposedGate.rosterUser, RosterGate.rosterUser_eq_none hroster]
        rfl
  refine ⟨hagree, fun hrev => ?_, fun id h => ?_⟩
  · cases h : gate.resolve now endpoint with
    | none => rfl
    | some id => rw [(hagree id h).1] at hrev; contradiction
  · obtain ⟨-, -, ⟨hroster, -⟩ | ⟨hroster, entry, hadm, rfl⟩⟩ := ComposedGate.resolve_eq_some.mp h
    · obtain ⟨view, d, -, -, -, -, rfl⟩ := RosterGate.resolve_eq_some.mp hroster
      refine ⟨rfl, .inl ⟨?_, hroster⟩⟩
      rw [ComposedGate.rosterUser, RosterGate.rosterUser_of_resolve hroster]
      rfl
    · exact ⟨rfl,
        .inr ⟨RosterGate.rosterUser_eq_none hroster, entry, pairRow_of_admitted hadm, rfl⟩⟩

/-! ## a refusal as the roster ages -/

namespace ComposedGate

/-- The only ground for refusing the endpoint is that the live roster gives it
to a user spelled as a revoked identity. -/
def IdentityGroundOnly (gate : ComposedGate) (now : Int) (endpoint : EndpointId) : Prop :=
  gate.roster.isRevoked endpoint = false ∧ gate.pairs.isRefused endpoint = false ∧
    gate.rosterIdentityRevoked (gate.rosterUser now endpoint) = true

end ComposedGate

/-- A refusal of an endpoint with a live pair row holds at every instant, unless
its only ground is the roster identity and the roster no longer grants one. -/
theorem refused_iff_refused_later (gate : ComposedGate) (endpoint : EndpointId)
    (entry : PeerEntry) (t₁ t₂ : Int) (hrow : gate.pairs.PairRow endpoint entry)
    (hrefused : gate.resolve t₁ endpoint = none) :
    gate.resolve t₂ endpoint = none ↔
      ¬ (gate.IdentityGroundOnly t₁ endpoint ∧
        gate.roster.effectiveState t₂ = some .degradedStopped) := by
  constructor
  · rintro hnone ⟨⟨hrev, hlive, -⟩, hstopped⟩
    -- a stopped roster grants no identity, so the pair row answers
    have hsome := ComposedGate.resolve_eq_some.mpr ⟨hrev, hlive,
      .inr ⟨RosterGate.resolve_of_stopped hstopped, entry, admitted_of_pairRow hrow hlive, rfl⟩⟩
    rw [hnone] at hsome
    contradiction
  · intro hnot
    cases hsome : gate.resolve t₂ endpoint with
    | none => rfl
    | some id =>
        obtain ⟨hrev, hlive, hid₂⟩ := ComposedGate.not_revoked_of_resolve hsome
        cases hroster : gate.roster.resolve t₁ endpoint with
        | none =>
            have hpair := ComposedGate.resolve_eq_some.mpr
              ⟨hrev, hlive, .inr ⟨hroster, entry, admitted_of_pairRow hrow hlive, rfl⟩⟩
            rw [hrefused] at hpair
            contradiction
        | some rid =>
            have hground : gate.rosterIdentityRevoked rid.userId = true := by
              cases hrid : gate.rosterIdentityRevoked rid.userId with
              | true => rfl
              | false =>
                  have hmask := ComposedGate.resolve_eq_some.mpr
                    ⟨hrev, hlive, .inl ⟨hroster, hrid⟩⟩
                  rw [hrefused] at hmask
                  contradiction
            have huser : gate.rosterUser t₁ endpoint = rid.userId :=
              RosterGate.rosterUser_of_resolve hroster
            have hgrants : gate.roster.effectiveState t₂ ≠ some .degradedStopped := fun h =>
              hnot ⟨⟨hrev, hlive, by rw [huser, hground]⟩, h⟩
            have hlater := RosterGate.rosterUser_of_resolve
              (RosterGate.resolve_of_live hroster hgrants)
            rw [ComposedGate.rosterUser, hlater, hground] at hid₂
            contradiction

namespace LapsedRoster

/-- The endpoint of a device the roster gives to the user `b64u:x`. -/
def endpoint : EndpointId := .replicate 32 1

def row : List UInt8 :=
  ("\x7b\"endpoint_id\":[" ++ ",".intercalate (List.replicate 32 "1") ++
    "],\"nickname\":\"laptop\",\"services\":[]\x7d").toUTF8.data.toList

def entry : PeerEntry :=
  { endpointId := endpoint, nickname := "laptop", services := [], pairedAt := none,
    userId := none, lastAddr := none }

/-- A live pair row without an identity, and a revoked identity `b64u:x`. -/
def pairs : PeerStore where
  revoked _ := .ok none
  peers e := .ok (if e = endpoint then some row else none)
  revokedUsers u := .ok (if u = "b64u:x" then some [] else none)
  fromSlice raw := if raw = row then .ok entry else .error "expected value"

def view : RosterView where
  orgId := "acme"
  serial := 1
  expiresAtEpoch := 1000
  revoked := ∅
  devices :=
    { map := AList.singleton endpoint
        { userId := "b64u:x", displayName := "X", groups := [], role := "primary",
          label := "laptop" }
      not_revoked := fun _ _ => Finset.notMem_empty _ }
  groups := []
  users := [{ userId := "b64u:x", displayName := "X", groups := [] }]

/-- The roster expires at 1000 and is stopped after 2000. -/
def gate : ComposedGate :=
  { roster := { view := some view, graceSecs := 1000, lastConfirmed := none,
                maxStaleness := 2 ^ 63 - 1 }
    pairs }

end LapsedRoster

/-- The device is refused at 500, on its roster identity, and admitted at 3000
by its pair row. -/
theorem refusal_lapses_with_roster :
    ¬ ∀ (gate : ComposedGate) (endpoint : EndpointId) (entry : PeerEntry) (t₁ t₂ : Int),
      t₁ ≤ t₂ → gate.pairs.PairRow endpoint entry → gate.resolve t₁ endpoint = none →
        gate.resolve t₂ endpoint = none := by
  intro h
  have hlater := h LapsedRoster.gate LapsedRoster.endpoint LapsedRoster.entry 500 3000 (by decide)
    ⟨LapsedRoster.row, by rfl, by rfl⟩ (by rfl)
  have hadmitted : LapsedRoster.gate.resolve 3000 LapsedRoster.endpoint =
      some (identityOf LapsedRoster.endpoint LapsedRoster.entry) := by rfl
  rw [hadmitted] at hlater
  contradiction

theorem refused_iff_refused_later_example :
    LapsedRoster.gate.resolve 1500 LapsedRoster.endpoint = none :=
  (refused_iff_refused_later LapsedRoster.gate LapsedRoster.endpoint LapsedRoster.entry 500 1500
    ⟨LapsedRoster.row, by rfl, by rfl⟩ (by rfl)).mpr fun h => absurd h.2 (by decide)

end Mcpmesh
