import Mcpmesh.Roster.Sign
import Mathlib.Data.List.AList
import Mathlib.Data.Finset.Basic
import Mathlib.Data.List.Lex
import Mathlib.Data.List.Sort

/-!
# Mcpmesh.Roster.Validate

The validation rules of a roster and the resolvable `RosterView` a gate reads
(`trust/src/roster/validate.rs`).

* `buildView` runs rules 4 (duplicate endpoints, revocation wins) and 5 (one
  flat, declared namespace) and assembles the view;
* `resolveVerifier` picks the key that verifies the body, adopting a
  cross-signed successor when the pinned root does not sign directly;
* `validateForInstallWithAnchor` is the install path, `loadInstalled` the
  startup path.

A view carries the fact that revocation won while it was built: no active
device of it is revoked.
-/

namespace Mcpmesh

open Lib

/-! ## the view -/

/-- A rostered device's resolved identity. -/
structure ResolvedDevice where
  userId : String
  displayName : String
  groups : List String
  role : String
  label : String
  deriving DecidableEq, Repr

/-- One person in a view, with or without an active device. -/
structure RosterMemberEntry where
  userId : String
  displayName : String
  groups : List String
  deriving DecidableEq, Repr

/-- Roster liveness, from the expiry and a grace window. -/
inductive RosterState where
  | approved
  | degradedGrace
  | degradedStopped
  deriving DecidableEq, Repr

/-- Active devices by endpoint, none of them in `revoked`. -/
structure ActiveDevices (revoked : Finset EndpointId) where
  map : AList fun _ : EndpointId => ResolvedDevice
  not_revoked : ∀ e ∈ map, e ∉ revoked

/-- A validated, resolvable roster. -/
structure RosterView where
  orgId : String
  serial : Nat
  expiresAtEpoch : Int
  revoked : Finset EndpointId
  devices : ActiveDevices revoked
  groups : List String
  users : List RosterMemberEntry

/-- `i64::saturating_sub`. -/
def saturatingSub (a b : Int) : Int := max (-2 ^ 63) (min (2 ^ 63 - 1) (a - b))

/-- `i64::saturating_add`. -/
def saturatingAdd (a b : Int) : Int := max (-2 ^ 63) (min (2 ^ 63 - 1) (a + b))

/-- Degradation severity, for the effective-state fold. -/
def RosterState.severity : RosterState → Nat
  | .approved => 0
  | .degradedGrace => 1
  | .degradedStopped => 2

namespace RosterView

/-- Resolve an active rostered device. -/
def resolve (v : RosterView) (endpoint : EndpointId) : Option ResolvedDevice :=
  v.devices.map.lookup endpoint

def isRevoked (v : RosterView) (endpoint : EndpointId) : Bool := endpoint ∈ v.revoked

/-- All active device endpoints. -/
def deviceEndpoints (v : RosterView) : List EndpointId := v.devices.map.keys

/-- The expiry-driven degraded state. -/
def state (v : RosterView) (now grace : Int) : RosterState :=
  if now ≤ v.expiresAtEpoch then .approved
  else if now ≤ v.expiresAtEpoch + grace then .degradedGrace
  else .degradedStopped

/-- The freshness half of `effectiveState`: how stale the last confirmation is. -/
def staleness (now grace : Int) (lastConfirmed : Option Int) (maxStaleness : Int) : RosterState :=
  match lastConfirmed with
  | none => .approved
  | some lc =>
      let stale := saturatingSub now lc
      if stale ≤ maxStaleness then .approved
      else if stale ≤ maxStaleness + grace then .degradedGrace
      else .degradedStopped

/-- The more degraded of the expiry state and the freshness state. -/
def effectiveState (v : RosterView) (now grace : Int) (lastConfirmed : Option Int)
    (maxStaleness : Int) : RosterState :=
  let expiry := v.state now grace
  let staleness := staleness now grace lastConfirmed maxStaleness
  if expiry.severity ≤ staleness.severity then staleness else expiry

/-- Primary before mirror before any other role. -/
def roleRank (role : String) : Nat :=
  if role = "primary" then 0 else if role = "mirror" then 1 else 2

/-- Devices by role, then by endpoint bytes. -/
def deviceLe (a b : EndpointId × String) : Prop :=
  roleRank a.2 < roleRank b.2 ∨ roleRank a.2 = roleRank b.2 ∧ a.1.toList ≤ b.1.toList

instance : DecidableRel deviceLe := fun _ _ => inferInstanceAs (Decidable (_ ∨ _ ∧ _))

/-- The active devices of a user with their roles, in dial order. -/
def devicesForUser (v : RosterView) (userId : String) : List (EndpointId × String) :=
  ((v.devices.map.entries.filter fun e => e.2.userId = userId).map fun e =>
    (e.1, e.2.role)).insertionSort deviceLe

/-- A user's devices are those that resolve to the user. -/
theorem mem_devicesForUser {v : RosterView} {userId : String} {e : EndpointId} {role : String} :
    (e, role) ∈ v.devicesForUser userId ↔
      ∃ d, v.resolve e = some d ∧ d.userId = userId ∧ d.role = role := by
  simp only [devicesForUser, List.mem_insertionSort, List.mem_map, List.mem_filter,
    decide_eq_true_iff, Prod.mk.injEq]
  constructor
  · rintro ⟨⟨e', d⟩, ⟨hmem, huser⟩, rfl, hrole⟩
    exact ⟨d, AList.mem_lookup_iff.mpr hmem, huser, hrole⟩
  · rintro ⟨d, hd, huser, hrole⟩
    exact ⟨⟨e, d⟩, ⟨AList.mem_lookup_iff.mp hd, huser⟩, rfl, hrole⟩

/-- Revocation wins: a revoked endpoint resolves to nothing. -/
theorem resolve_of_isRevoked (v : RosterView) {e : EndpointId} (h : v.isRevoked e = true) :
    v.resolve e = none := by
  rw [resolve, AList.lookup_eq_none]
  exact fun hmem => v.devices.not_revoked e hmem (of_decide_eq_true h)

theorem mem_deviceEndpoints (v : RosterView) (e : EndpointId) :
    e ∈ v.deviceEndpoints ↔ v.resolve e ≠ none := by
  rw [deviceEndpoints, ← AList.mem_keys, resolve, ne_eq, AList.lookup_eq_none, not_not]

end RosterView

/-! ## building the view -/

section BuildView

variable (P : Primitives)

/-- Rule 5: no `user_id` twice, none of them a group, every user group
declared.  `seen` is the `seen_users` set. -/
def checkNamespace (groups : List String) : List String → List RosterUser → Except RosterError Unit
  | _, [] => .ok ()
  | seen, u :: us =>
      if u.userId ∈ seen then .error (.duplicateUser u.userId)
      else if u.userId ∈ groups then .error (.namespaceCollision u.userId)
      else
        match u.groups.find? (· ∉ groups) with
        | some g => .error (.undeclaredGroup g)
        | none => checkNamespace groups (u.userId :: seen) us

/-- Decode the revoked endpoints into a set. -/
def decodeRevoked : Finset EndpointId → List String → Except RosterError (Finset EndpointId)
  | revoked, [] => .ok revoked
  | revoked, e :: es => do
      let eid ← decodeEndpointId P e
      decodeRevoked (insert eid revoked) es

/-- What an active device resolves to. -/
def resolvedDevice (u : RosterUser) (d : RosterDevice) : ResolvedDevice :=
  { userId := u.userId, displayName := u.displayName, groups := u.groups, role := d.role,
    label := d.label }

/-- Rule 4 for the devices of one user: a revoked endpoint is skipped, an
endpoint already active is an error. -/
def addDevices {revoked : Finset EndpointId} (u : RosterUser) :
    ActiveDevices revoked → List RosterDevice → Except RosterError (ActiveDevices revoked)
  | devices, [] => .ok devices
  | devices, d :: ds => do
      let eid ← decodeEndpointId P d.endpointId
      if h : eid ∈ revoked then addDevices u devices ds
      else if eid ∈ devices.map then .error .duplicateEndpoint
      else
        addDevices u
          { map := devices.map.insert eid (resolvedDevice u d)
            not_revoked := fun e he =>
              (AList.mem_insert devices.map).mp he |>.elim (fun heq => heq ▸ h)
                (devices.not_revoked e) }
          ds

/-- Rule 4 over all users. -/
def addUsers {revoked : Finset EndpointId} :
    ActiveDevices revoked → List RosterUser → Except RosterError (ActiveDevices revoked)
  | devices, [] => .ok devices
  | devices, u :: us => do
      let devices ← addDevices P u devices u.devices
      addUsers devices us

def ActiveDevices.empty (revoked : Finset EndpointId) : ActiveDevices revoked :=
  ⟨∅, fun e h => absurd h (AList.notMem_empty e)⟩

def memberEntry (u : RosterUser) : RosterMemberEntry :=
  { userId := u.userId, displayName := u.displayName, groups := u.groups }

/-- Rules 4 and 5, then the view. -/
def buildView (roster : Roster) (expiresAtEpoch : Int) : Except RosterError RosterView := do
  checkNamespace roster.groups [] roster.users
  let revoked ← decodeRevoked P ∅ roster.revokedEndpoints
  let devices ← addUsers P (.empty revoked) roster.users
  .ok { orgId := roster.orgId, serial := roster.serial, expiresAtEpoch, revoked, devices,
        groups := roster.groups, users := roster.users.map memberEntry }

/-! ### what a built view holds -/

variable {P} {revoked : Finset EndpointId}

theorem mem_of_decodeRevoked {acc : Finset EndpointId} {es : List String}
    (h : decodeRevoked P acc es = .ok revoked) :
    (∀ x ∈ acc, x ∈ revoked) ∧ ∀ e ∈ es, ∃ x ∈ revoked, decodeEndpointId P e = .ok x := by
  induction es generalizing acc with
  | nil =>
      rw [← Except.ok.inj h]
      exact ⟨fun x hx => hx, fun e he => absurd he List.not_mem_nil⟩
  | cons e es ih =>
      obtain ⟨eid, heid, h⟩ := bind_eq_ok.mp h
      obtain ⟨hacc, hes⟩ := ih h
      refine ⟨fun x hx => hacc x (Finset.mem_insert_of_mem hx), fun e' he' => ?_⟩
      obtain rfl | he' := List.mem_cons.mp he'
      · exact ⟨eid, hacc eid (Finset.mem_insert_self eid acc), heid⟩
      · exact hes e' he'

/-- Decoding the revoked endpoints succeeds when each of them decodes, and
revokes nothing else. -/
theorem decodeRevoked_ok {f : String → EndpointId} {es : List String}
    (hdec : ∀ e ∈ es, decodeEndpointId P e = .ok (f e)) (acc : Finset EndpointId) :
    ∃ revoked, decodeRevoked P acc es = .ok revoked ∧
      ∀ x, x ∈ revoked ↔ x ∈ acc ∨ x ∈ es.map f := by
  induction es generalizing acc with
  | nil => exact ⟨acc, rfl, by simp⟩
  | cons e es ih =>
      obtain ⟨revoked, hrev, hmem⟩ :=
        ih (fun e' he' => hdec e' (List.mem_cons_of_mem e he')) (insert (f e) acc)
      refine ⟨revoked, ?_, fun x => ?_⟩
      · rw [decodeRevoked, hdec e List.mem_cons_self, ok_bind, hrev]
      · rw [hmem x, Finset.mem_insert, List.map_cons, List.mem_cons]
        tauto

/-- The devices of one user become active when they decode to fresh endpoints;
nothing else changes. -/
theorem addDevices_ok {f : RosterDevice → EndpointId} {u : RosterUser} {ds : List RosterDevice}
    (hdec : ∀ d ∈ ds, decodeEndpointId P d.endpointId = .ok (f d))
    (hrev : ∀ d ∈ ds, f d ∉ revoked) (hnodup : (ds.map f).Nodup)
    (devices : ActiveDevices revoked) (hnew : ∀ d ∈ ds, f d ∉ devices.map) :
    ∃ devices', addDevices P u devices ds = .ok devices' ∧
      (∀ e, e ∉ ds.map f → devices'.map.lookup e = devices.map.lookup e) ∧
      ∀ d ∈ ds, devices'.map.lookup (f d) = some (resolvedDevice u d) := by
  induction ds generalizing devices with
  | nil => exact ⟨devices, rfl, fun _ _ => rfl, fun d hd => absurd hd List.not_mem_nil⟩
  | cons d ds ih =>
      obtain ⟨hd, hnodup⟩ := List.nodup_cons.mp hnodup
      have hne : ∀ d' ∈ ds, f d' ≠ f d := fun d' hd' heq => hd (heq ▸ List.mem_map_of_mem hd')
      obtain ⟨devices', hok, hold, hadded⟩ :=
        ih (fun d' hd' => hdec d' (List.mem_cons_of_mem d hd'))
          (fun d' hd' => hrev d' (List.mem_cons_of_mem d hd')) hnodup
          ⟨devices.map.insert (f d) (resolvedDevice u d), fun e he =>
            (AList.mem_insert devices.map).mp he |>.elim
              (fun heq => heq ▸ hrev d List.mem_cons_self) (devices.not_revoked e)⟩
          (fun d' hd' hmem => (AList.mem_insert devices.map).mp hmem |>.elim (hne d' hd')
            (hnew d' (List.mem_cons_of_mem d hd')))
      refine ⟨devices', ?_, fun e he => ?_, fun d' hd' => ?_⟩
      · rw [addDevices, hdec d List.mem_cons_self, ok_bind,
          dif_neg (hrev d List.mem_cons_self), if_neg (hnew d List.mem_cons_self)]
        exact hok
      · rw [List.map_cons, List.mem_cons, not_or] at he
        rw [hold e he.2]
        exact AList.lookup_insert_ne he.1
      · obtain rfl | hd' := List.mem_cons.mp hd'
        · rw [hold _ hd]
          exact AList.lookup_insert devices.map
        · exact hadded d' hd'

/-- All users' devices become active when they decode to pairwise different
endpoints, none of them revoked. -/
theorem addUsers_ok {f : RosterDevice → EndpointId} {us : List RosterUser}
    (hdec : ∀ u ∈ us, ∀ d ∈ u.devices, decodeEndpointId P d.endpointId = .ok (f d))
    (hrev : ∀ u ∈ us, ∀ d ∈ u.devices, f d ∉ revoked)
    (hnodup : (us.flatMap fun u => u.devices.map f).Nodup)
    (devices : ActiveDevices revoked) (hnew : ∀ u ∈ us, ∀ d ∈ u.devices, f d ∉ devices.map) :
    ∃ devices', addUsers P devices us = .ok devices' ∧
      (∀ e, e ∉ (us.flatMap fun u => u.devices.map f) →
        devices'.map.lookup e = devices.map.lookup e) ∧
      ∀ u ∈ us, ∀ d ∈ u.devices, devices'.map.lookup (f d) = some (resolvedDevice u d) := by
  induction us generalizing devices with
  | nil => exact ⟨devices, rfl, fun _ _ => rfl, fun u hu => absurd hu List.not_mem_nil⟩
  | cons u us ih =>
      rw [List.flatMap_cons, List.nodup_append'] at hnodup
      obtain ⟨hu, hus, hdisj⟩ := hnodup
      obtain ⟨devices₁, hok₁, hold₁, hadded₁⟩ :=
        addDevices_ok (hdec u List.mem_cons_self) (hrev u List.mem_cons_self) hu devices
          (hnew u List.mem_cons_self)
      -- an endpoint of a later user is none of this user's, so it is still free
      have hlater : ∀ u' ∈ us, ∀ d ∈ u'.devices, f d ∉ u.devices.map f := fun u' hu' d hd hmem =>
        hdisj hmem (List.mem_flatMap.mpr ⟨u', hu', List.mem_map_of_mem hd⟩)
      obtain ⟨devices₂, hok₂, hold₂, hadded₂⟩ :=
        ih (fun u' hu' => hdec u' (List.mem_cons_of_mem u hu'))
          (fun u' hu' => hrev u' (List.mem_cons_of_mem u hu')) hus devices₁ (by
            intro u' hu' d hd
            have hfree := hnew u' (List.mem_cons_of_mem u hu') d hd
            rw [← AList.lookup_eq_none] at hfree ⊢
            rw [hold₁ _ (hlater u' hu' d hd)]
            exact hfree)
      refine ⟨devices₂, ?_, fun e he => ?_, fun u' hu' d hd => ?_⟩
      · rw [addUsers, hok₁, ok_bind, hok₂]
      · rw [List.flatMap_cons, List.mem_append, not_or] at he
        rw [hold₂ e he.2, hold₁ e he.1]
      · obtain rfl | hu' := List.mem_cons.mp hu'
        · rw [hold₂ _ fun hmem => hdisj (List.mem_map_of_mem hd) hmem]
          exact hadded₁ d hd
        · exact hadded₂ u' hu' d hd

/-- Rule 5 accepts distinct user ids that are no groups, with declared groups
only. -/
theorem checkNamespace_ok {groups : List String} {us : List RosterUser}
    (hnodup : (us.map (·.userId)).Nodup) (hdisj : ∀ u ∈ us, u.userId ∉ groups)
    (hdecl : ∀ u ∈ us, ∀ g ∈ u.groups, g ∈ groups)
    (seen : List String) (hseen : ∀ u ∈ us, u.userId ∉ seen) :
    checkNamespace groups seen us = .ok () := by
  induction us generalizing seen with
  | nil => rfl
  | cons u us ih =>
      obtain ⟨hu, hnodup⟩ := List.nodup_cons.mp hnodup
      have hfind : u.groups.find? (· ∉ groups) = none := by
        rw [List.find?_eq_none]
        exact fun g hg => by simpa using hdecl u List.mem_cons_self g hg
      rw [checkNamespace, if_neg (hseen u List.mem_cons_self), if_neg (hdisj u List.mem_cons_self),
        hfind]
      refine ih hnodup (fun u' hu' => hdisj u' (List.mem_cons_of_mem u hu'))
        (fun u' hu' => hdecl u' (List.mem_cons_of_mem u hu')) _ fun u' hu' hmem => ?_
      obtain heq | hmem := List.mem_cons.mp hmem
      · exact hu (List.mem_map.mpr ⟨u', hu', heq⟩)
      · exact hseen u' (List.mem_cons_of_mem u hu') hmem

/-- A built view is the document's, with every revoked endpoint in its revoked
set. -/
theorem buildView_eq_ok {roster : Roster} {expires : Int} {v : RosterView}
    (h : buildView P roster expires = .ok v) :
    v.orgId = roster.orgId ∧ v.serial = roster.serial ∧ v.expiresAtEpoch = expires ∧
      ∀ e ∈ roster.revokedEndpoints, ∃ x, decodeEndpointId P e = .ok x ∧ v.isRevoked x = true := by
  obtain ⟨_, _, h⟩ := bind_eq_ok.mp h
  obtain ⟨revoked, hrevoked, h⟩ := bind_eq_ok.mp h
  obtain ⟨devices, _, h⟩ := bind_eq_ok.mp h
  rw [← Except.ok.inj h]
  refine ⟨rfl, rfl, rfl, fun e he => ?_⟩
  obtain ⟨x, hx, hdec⟩ := (mem_of_decodeRevoked hrevoked).2 e he
  exact ⟨x, hdec, decide_eq_true hx⟩

/-- The revoked set is the decoded list. -/
theorem mem_decodeRevoked_iff {acc : Finset EndpointId} {es : List String}
    (h : decodeRevoked P acc es = .ok revoked) (x : EndpointId) :
    x ∈ revoked ↔ x ∈ acc ∨ ∃ e ∈ es, decodeEndpointId P e = .ok x := by
  induction es generalizing acc with
  | nil => simp [← Except.ok.inj h]
  | cons e es ih =>
      obtain ⟨eid, heid, h⟩ := bind_eq_ok.mp h
      rw [ih h, Finset.mem_insert]
      simp only [List.mem_cons, exists_eq_or_imp, heid, Except.ok.injEq]
      tauto

/-- The active devices after one user: those before, and the user's own that
are not revoked. -/
theorem lookup_addDevices {u : RosterUser} {ds : List RosterDevice}
    {devices devices' : ActiveDevices revoked} (h : addDevices P u devices ds = .ok devices')
    (x : EndpointId) (r : ResolvedDevice) :
    devices'.map.lookup x = some r ↔ devices.map.lookup x = some r ∨
      x ∉ revoked ∧ ∃ d ∈ ds, decodeEndpointId P d.endpointId = .ok x ∧ r = resolvedDevice u d := by
  induction ds generalizing devices with
  | nil => simp [← Except.ok.inj h]
  | cons d ds ih =>
      obtain ⟨eid, heid, h⟩ := bind_eq_ok.mp h
      simp only [List.mem_cons, exists_eq_or_imp, heid, Except.ok.injEq]
      split at h
      · rename_i hrev
        rw [ih h]
        constructor
        · rintro (hold | ⟨hx, hds⟩)
          · exact .inl hold
          · exact .inr ⟨hx, .inr hds⟩
        · rintro (hold | ⟨hx, ⟨rfl, -⟩ | hds⟩)
          · exact .inl hold
          · contradiction
          · exact .inr ⟨hx, hds⟩
      · rename_i hrev
        split at h
        · contradiction
        · rename_i hnew
          rw [ih h]
          obtain rfl | hne := eq_or_ne x eid
          · -- a later device cannot decode to the same endpoint, nor was it there before
            rw [AList.lookup_insert, AList.lookup_eq_none.mpr hnew]
            constructor
            · rintro (hr | ⟨hx, hds⟩)
              · exact .inr ⟨hrev, .inl ⟨rfl, (Option.some.inj hr).symm⟩⟩
              · exact .inr ⟨hx, .inr hds⟩
            · rintro (hold | ⟨hx, ⟨-, rfl⟩ | hds⟩)
              · contradiction
              · exact .inl rfl
              · exact .inr ⟨hx, hds⟩
          · rw [AList.lookup_insert_ne hne]
            simp only [Ne.symm hne, false_and, false_or]

/-- The active devices after all users. -/
theorem lookup_addUsers {us : List RosterUser} {devices devices' : ActiveDevices revoked}
    (h : addUsers P devices us = .ok devices') (x : EndpointId) (r : ResolvedDevice) :
    devices'.map.lookup x = some r ↔ devices.map.lookup x = some r ∨
      x ∉ revoked ∧ ∃ u ∈ us, ∃ d ∈ u.devices,
        decodeEndpointId P d.endpointId = .ok x ∧ r = resolvedDevice u d := by
  induction us generalizing devices with
  | nil => simp [← Except.ok.inj h]
  | cons u us ih =>
      obtain ⟨devices₁, hdevices, h⟩ := bind_eq_ok.mp h
      rw [ih h, lookup_addDevices hdevices, or_assoc, ← and_or_left]
      simp only [List.mem_cons, exists_eq_or_imp]

/-- A roster's document lists the endpoint as a device of the user. -/
def ListsDevice (P : Primitives) (roster : Roster) (u : RosterUser) (d : RosterDevice)
    (x : EndpointId) : Prop :=
  u ∈ roster.users ∧ d ∈ u.devices ∧ decodeEndpointId P d.endpointId = .ok x

/-- A roster's document revokes the endpoint. -/
def RevokesEndpoint (P : Primitives) (roster : Roster) (x : EndpointId) : Prop :=
  ∃ e ∈ roster.revokedEndpoints, decodeEndpointId P e = .ok x

/-- **What a built view answers**, read off the document. -/
theorem buildView_spec {roster : Roster} {expires : Int} {v : RosterView}
    (h : buildView P roster expires = .ok v) (x : EndpointId) :
    (v.isRevoked x = true ↔ RevokesEndpoint P roster x) ∧
      ∀ r, v.resolve x = some r ↔
        ¬ RevokesEndpoint P roster x ∧
          ∃ u d, ListsDevice P roster u d x ∧ r = resolvedDevice u d := by
  obtain ⟨_, _, h⟩ := bind_eq_ok.mp h
  obtain ⟨revoked, hrevoked, h⟩ := bind_eq_ok.mp h
  obtain ⟨devices, hdevices, h⟩ := bind_eq_ok.mp h
  have hmem : x ∈ revoked ↔ RevokesEndpoint P roster x := by
    simpa [RevokesEndpoint] using mem_decodeRevoked_iff hrevoked x
  rw [← Except.ok.inj h]
  refine ⟨by rw [RosterView.isRevoked, decide_eq_true_iff, hmem], fun r => ?_⟩
  have hempty : (ActiveDevices.empty revoked).map.lookup x = none :=
    AList.lookup_eq_none.mpr (AList.notMem_empty x)
  rw [RosterView.resolve, lookup_addUsers hdevices, hempty, hmem]
  simp only [reduceCtorEq, false_or, ListsDevice]
  constructor
  · rintro ⟨hx, u, hu, d, hd, hdec, hr⟩
    exact ⟨hx, u, d, ⟨hu, hd, hdec⟩, hr⟩
  · rintro ⟨hx, u, d, ⟨hu, hd, hdec⟩, hr⟩
    exact ⟨hx, u, hu, d, hd, hdec, hr⟩

end BuildView

/-! ## validation -/

/-- What a successful install did to this node's trust anchor: the successor
the caller must now pin, or `none` when the roster verified directly. -/
structure AnchorChange where
  adoptedRootPk : Option String
  deriving DecidableEq, Repr

section Validate

variable (P : Primitives)

/-- Parse an RFC 3339 timestamp to epoch seconds. -/
def parseRfc3339 (s : String) : Except RosterError Int :=
  (P.parseFromRfc3339 s).mapError fun e => .badTimestamp (reprStr s ++ ": " ++ e)

/-- Adopt the successor a roster names, on the pinned root's statement. -/
def adoptSuccessor (roster : Roster) (pinned : VerifyingKey P) (succPkB64u succSigB64u : String) :
    Except RosterError (VerifyingKey P × AnchorChange) := do
  let succPkBytes ← decodeB64u P succPkB64u
  let succPk ← okOr (toArray 32 succPkBytes) .badSignature
  let succSig ← decodeB64u P succSigB64u
  verifyOrgRotation P pinned.toBytes roster.orgId succPk succSig
  let succ ← okOr (VerifyingKey.fromBytes succPk) .badSignature
  -- the cross-signature says who may sign, not that this document is signed
  verify P roster succ
  .ok (succ, ⟨some succPkB64u⟩)

/-- Which key verifies this roster's body: the pinned root first, and only on
failure the successor. -/
def resolveVerifier (roster : Roster) (pinned : VerifyingKey P) :
    Except RosterError (VerifyingKey P × AnchorChange) :=
  match verify P roster pinned with
  | .ok () => .ok (pinned, ⟨none⟩)
  | .error _ =>
      match roster.successorRootPk, roster.successorSig with
      | some succPkB64u, some succSigB64u => adoptSuccessor P roster pinned succPkB64u succSigB64u
      | _, _ => .error .badSignature

/-- The `/2` format and the successor pair come together. -/
def checkFormat (roster : Roster) : Except RosterError Unit := do
  ensure (roster.format == rosterFormat || roster.format == rosterFormatRotation)
    (.badFormat roster.format)
  let hasRotation := roster.successorRootPk.isSome || roster.successorSig.isSome
  ensure (hasRotation == (roster.format == rosterFormatRotation)) (.badFormat roster.format)

/-- Rules 2 to 6, which do not depend on the key that verified the body. -/
def checkFresh (roster : Roster) (installedSerial : Nat) (now : Int) :
    Except RosterError RosterView := do
  ensure (installedSerial < roster.serial) (.staleSerial roster.serial installedSerial)
  let issued ← parseRfc3339 P roster.issuedAt
  let expires ← parseRfc3339 P roster.expiresAt
  ensure (issued - skewSecs ≤ now && now ≤ expires + skewSecs) .outOfValidity
  buildView P roster expires

/-- Full validation for installing a roster, reporting an adopted successor. -/
def validateForInstallWithAnchor (roster : Roster) (rootPk : VerifyingKey P)
    (installedSerial : Nat) (now : Int) : Except RosterError (RosterView × AnchorChange) := do
  checkFormat roster
  let (_, anchor) ← resolveVerifier P roster rootPk
  let view ← checkFresh P roster installedSerial now
  .ok (view, anchor)

/-- Re-verify and rebuild the view of an already installed roster: rules 1, 4
and 5, not expiry or serial. -/
def loadInstalled (roster : Roster) (rootPk : VerifyingKey P) : Except RosterError RosterView := do
  ensure (roster.format == rosterFormat || roster.format == rosterFormatRotation)
    (.badFormat roster.format)
  let _ ← resolveVerifier P roster rootPk
  let expires ← parseRfc3339 P roster.expiresAt
  buildView P roster expires

variable {P}

/-- The two ways a body verifies: directly, or under a successor the pinned
root named for this document's org. -/
theorem resolveVerifier_ok {roster : Roster} {pinned k : VerifyingKey P} {anchor : AnchorChange}
    (h : resolveVerifier P roster pinned = .ok (k, anchor)) :
    (verify P roster pinned = .ok () ∧ k = pinned ∧ anchor = ⟨none⟩) ∨
      (verify P roster pinned ≠ .ok () ∧
        ∃ pk sg, roster.successorRootPk = some pk ∧ roster.successorSig = some sg ∧
          adoptSuccessor P roster pinned pk sg = .ok (k, anchor)) := by
  unfold resolveVerifier at h
  cases hv : verify P roster pinned with
  | ok u =>
      rw [hv] at h
      have hpair := Prod.mk.inj (Except.ok.inj h)
      exact .inl ⟨rfl, hpair.1.symm, hpair.2.symm⟩
  | error e =>
      rw [hv] at h
      refine .inr ⟨by simp, ?_⟩
      dsimp only at h
      split at h
      · next pk sg hpk hsg => exact ⟨pk, sg, hpk, hsg, h⟩
      · contradiction

/-- A document's bridge in full: the successor pair decodes, the pinned root
signed the statement for the document's org, and the successor signed the
body. -/
theorem adoptSuccessor_ok {roster : Roster} {pinned k : VerifyingKey P} {anchor : AnchorChange}
    {pk sg : String} (h : adoptSuccessor P roster pinned pk sg = .ok (k, anchor)) :
    anchor = ⟨some pk⟩ ∧ decodeB64u P pk = .ok k.toBytes.toList ∧
      (∃ sig, decodeB64u P sg = .ok sig ∧
        verifyOrgRotation P pinned.toBytes roster.orgId k.toBytes sig = .ok ()) ∧
      verify P roster k = .ok () := by
  obtain ⟨pkBytes, hpk, h⟩ := bind_eq_ok.mp h
  obtain ⟨succPk, hsucc, h⟩ := bind_eq_ok.mp h
  obtain ⟨sig, hsig, h⟩ := bind_eq_ok.mp h
  obtain ⟨_, hrot, h⟩ := bind_eq_ok.mp h
  obtain ⟨succ, hkey, h⟩ := bind_eq_ok.mp h
  obtain ⟨_, hbody, h⟩ := bind_eq_ok.mp h
  obtain ⟨rfl, rfl⟩ := Prod.mk.inj (Except.ok.inj h)
  have hbytes : succ.toBytes = succPk := VerifyingKey.toBytes_of_fromBytes (okOr_eq_ok.mp hkey)
  have hlist : pkBytes = succPk.toList := toList_of_toArray (okOr_eq_ok.mp hsucc)
  refine ⟨rfl, ?_, ⟨sig, hsig, ?_⟩, hbody⟩
  · rw [hbytes, ← hlist, hpk]
  · rw [hbytes, hrot]

theorem validateForInstallWithAnchor_eq_ok {roster : Roster} {rootPk : VerifyingKey P}
    {installed : Nat} {now : Int} {view : RosterView} {anchor : AnchorChange} :
    validateForInstallWithAnchor P roster rootPk installed now = .ok (view, anchor) ↔
      checkFormat roster = .ok () ∧
        (∃ k, resolveVerifier P roster rootPk = .ok (k, anchor)) ∧
        checkFresh P roster installed now = .ok view := by
  unfold validateForInstallWithAnchor
  constructor
  · intro h
    obtain ⟨_, hformat, h⟩ := bind_eq_ok.mp h
    obtain ⟨⟨k, anchor'⟩, hresolve, h⟩ := bind_eq_ok.mp h
    obtain ⟨view', hfresh, h⟩ := bind_eq_ok.mp h
    obtain ⟨rfl, rfl⟩ := Prod.mk.inj (Except.ok.inj h)
    exact ⟨hformat, ⟨k, hresolve⟩, hfresh⟩
  · rintro ⟨hformat, ⟨k, hresolve⟩, hfresh⟩
    rw [hformat, ok_bind, hresolve, ok_bind, hfresh]
    rfl

/-- Rule 2 and the identity of the view. -/
theorem checkFresh_ok {roster : Roster} {installed : Nat} {now : Int} {view : RosterView}
    (h : checkFresh P roster installed now = .ok view) :
    installed < roster.serial ∧ view.serial = roster.serial ∧ view.orgId = roster.orgId := by
  obtain ⟨_, hserial, h⟩ := bind_eq_ok.mp h
  obtain ⟨_, _, h⟩ := bind_eq_ok.mp h
  obtain ⟨_, _, h⟩ := bind_eq_ok.mp h
  obtain ⟨_, _, h⟩ := bind_eq_ok.mp h
  obtain ⟨horg, hser, -, -⟩ := buildView_eq_ok h
  exact ⟨of_decide_eq_true (ensure_eq_ok.mp hserial), hser, horg⟩

end Validate

end Mcpmesh
