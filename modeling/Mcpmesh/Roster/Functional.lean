import Mcpmesh.Roster.Instance
import Mcpmesh.Roster.Mutate

/-!
# Mcpmesh.Roster.Functional

What every run of roster edits keeps.

* `WellFormed` is the edits' invariant: one flat namespace, declared groups,
  every listed endpoint listed once and not revoked.  It holds of `emptyRoster`,
  every edit keeps it, and it is enough for `buildView` to accept the roster
  and for every listed device to resolve to its user.
* `revoked_endpoints` only grows, so that a revoked endpoint resolves in no
  later view.

The invariant speaks of the users up to order: `WellFormed.perm` brings the
edited user to the front, where `wellFormed_cons` splits the roster into that
user (`UserFits`) and the others.
-/

namespace Mcpmesh

open Lib

/-! ## runs of edits -/

/-- One edit an operator makes. -/
inductive MutateCall where
  | upsertMember (userId displayName userPk : String) (groups : List String)
      (deviceEndpointId deviceLabel : String)
  | revokeDevice (userId deviceLabel : String)
  | removeUser (userId : String) (revokeEndpoints : Bool)
  deriving DecidableEq, Repr

/-- Run one edit. -/
def mutateStep (roster : Roster) : MutateCall → Roster × Except MutateError Unit
  | .upsertMember userId displayName userPk groups endpoint label =>
      (upsertMember userId displayName userPk groups endpoint label).apply roster
  | .revokeDevice userId label => (revokeDevice userId label).apply roster
  | .removeUser userId revokeEndpoints => (removeUser userId revokeEndpoints).apply roster

/-- A refused edit leaves the roster as it was. -/
theorem mutateStep_error {roster : Roster} {call : MutateCall} {e : MutateError}
    (h : (mutateStep roster call).2 = .error e) : (mutateStep roster call).1 = roster := by
  cases call with
  | upsertMember userId displayName userPk groups endpoint label =>
      obtain ⟨_, heq⟩ | ⟨_, _, _, _, heq⟩ :=
          upsertMember_cases userId displayName userPk groups endpoint label roster
      · rw [mutateStep, heq]
      · rw [mutateStep, heq] at h; contradiction
  | revokeDevice userId label =>
      obtain ⟨_, heq⟩ | ⟨_, _, huser, hdev⟩ := revokeDevice_cases userId label roster
      · rw [mutateStep, heq]
      · rw [mutateStep, revokeDevice_apply huser hdev] at h; contradiction
  | removeUser userId revokeEndpoints =>
      obtain ⟨_, heq⟩ | ⟨_, huser⟩ := removeUser_cases userId revokeEndpoints roster
      · rw [mutateStep, heq]
      · rw [mutateStep, removeUser_apply huser] at h; contradiction

/-! ## well-formed rosters -/

section WellFormed

variable (P : Primitives)

/-- The endpoint string `encode_b64u` gives for some 32 bytes. -/
def CanonicalEndpoint (s : String) : Prop := ∃ eid : EndpointId, s = encodeB64u P eid.toList

def endpointIds (u : RosterUser) : List String := u.devices.map (·.endpointId)

/-- The user fits a roster's groups and revocations on its own. -/
structure UserFits (groups revoked : List String) (u : RosterUser) : Prop where
  disjoint : u.userId ∉ groups
  declared : ∀ g ∈ u.groups, g ∈ groups
  nodup : (endpointIds u).Nodup
  live : ∀ e ∈ endpointIds u, e ∉ revoked
  canonical : ∀ e ∈ endpointIds u, CanonicalEndpoint P e

/-- A functional roster, given by its groups, users and revoked endpoints. -/
structure WellFormed (groups : List String) (users : List RosterUser) (revoked : List String) :
    Prop where
  fits : ∀ u ∈ users, UserFits P groups revoked u
  user_ids : (users.map (·.userId)).Nodup
  endpoints : (users.flatMap endpointIds).Nodup
  canonical_revoked : ∀ e ∈ revoked, CanonicalEndpoint P e

/-- An operator's edit names its device by a canonical endpoint string. -/
def MutateCall.Canonical : MutateCall → Prop
  | .upsertMember _ _ _ _ endpoint _ => CanonicalEndpoint P endpoint
  | _ => True

variable {P} {groups : List String} {u : RosterUser} {us us' : List RosterUser}
  {revoked : List String}

theorem WellFormed.perm (hperm : us.Perm us') (h : WellFormed P groups us revoked) :
    WellFormed P groups us' revoked :=
  { fits := fun u hu => h.fits u (hperm.mem_iff.mpr hu)
    user_ids := (hperm.map _).nodup_iff.mp h.user_ids
    endpoints := (hperm.flatMap_right _).nodup_iff.mp h.endpoints
    canonical_revoked := h.canonical_revoked }

/-- One user and the others: ids and endpoints do not meet. -/
theorem wellFormed_cons :
    WellFormed P groups (u :: us) revoked ↔
      UserFits P groups revoked u ∧ (∀ u' ∈ us, u'.userId ≠ u.userId) ∧
        (∀ u' ∈ us, ∀ e ∈ endpointIds u', e ∉ endpointIds u) ∧ WellFormed P groups us revoked := by
  constructor
  · intro h
    obtain ⟨hid, hids⟩ := List.nodup_cons.mp h.user_ids
    have hends := h.endpoints
    rw [List.flatMap_cons, List.nodup_append'] at hends
    have hother : ∀ u' ∈ us, u'.userId ≠ u.userId :=
      fun u' hu' heq => hid (List.mem_map.mpr ⟨u', hu', heq⟩)
    have hapart : ∀ u' ∈ us, ∀ e ∈ endpointIds u', e ∉ endpointIds u :=
      fun u' hu' e he hmem => hends.2.2 hmem (List.mem_flatMap.mpr ⟨u', hu', he⟩)
    have hrest : WellFormed P groups us revoked :=
      { fits := fun u' hu' => h.fits u' (List.mem_cons_of_mem u hu')
        user_ids := hids
        endpoints := hends.2.1
        canonical_revoked := h.canonical_revoked }
    exact ⟨h.fits u List.mem_cons_self, hother, hapart, hrest⟩
  · rintro ⟨hu, hids, hends, h⟩
    have hfits : ∀ u' ∈ u :: us, UserFits P groups revoked u' := by
      intro u' hu'
      obtain rfl | hu' := List.mem_cons.mp hu'
      · exact hu
      · exact h.fits u' hu'
    have hid : u.userId ∉ us.map (·.userId) := by
      intro hmem
      obtain ⟨u', hu', heq⟩ := List.mem_map.mp hmem
      exact hids u' hu' heq
    have hapart : (endpointIds u).Disjoint (us.flatMap endpointIds) := by
      intro e he hmem
      obtain ⟨u', hu', he'⟩ := List.mem_flatMap.mp hmem
      exact hends u' hu' e he' he
    have hendpoints : ((u :: us).flatMap endpointIds).Nodup := by
      rw [List.flatMap_cons, List.nodup_append']
      exact ⟨hu.nodup, h.endpoints, hapart⟩
    exact
      { fits := hfits
        user_ids := List.nodup_cons.mpr ⟨hid, h.user_ids⟩
        endpoints := hendpoints
        canonical_revoked := h.canonical_revoked }

/-- Declaring more groups keeps a user fitting when none of them is its id. -/
theorem UserFits.declare {groups' : List String} (h : UserFits P groups revoked u)
    (hsub : ∀ g ∈ groups, g ∈ groups') (hid : u.userId ∉ groups') :
    UserFits P groups' revoked u :=
  { h with disjoint := hid, declared := fun g hg => hsub g (h.declared g hg) }

/-- Revoking endpoints the user does not list keeps it fitting. -/
theorem UserFits.revoke {revoked' : List String} (h : UserFits P groups revoked u)
    (hlive : ∀ e ∈ endpointIds u, e ∉ revoked') : UserFits P groups revoked' u :=
  { h with live := hlive }

theorem WellFormed.declare {groups' : List String} (h : WellFormed P groups us revoked)
    (hsub : ∀ g ∈ groups, g ∈ groups') (hid : ∀ u ∈ us, u.userId ∉ groups') :
    WellFormed P groups' us revoked :=
  { h with fits := fun u hu => (h.fits u hu).declare hsub (hid u hu) }

/-- Revoking canonical endpoints nobody lists keeps a roster well formed. -/
theorem WellFormed.revoke {revoked' : List String} (h : WellFormed P groups us revoked)
    (hnew : ∀ e ∈ revoked', e ∈ revoked ∨
      CanonicalEndpoint P e ∧ ∀ u ∈ us, e ∉ endpointIds u) :
    WellFormed P groups us revoked' :=
  { h with
    fits := fun u hu => (h.fits u hu).revoke fun e he hmem =>
      (hnew e hmem).elim ((h.fits u hu).live e he) fun hnone => hnone.2 u hu he
    canonical_revoked := fun e he => (hnew e he).elim (h.canonical_revoked e) (·.1) }

/-- The user an edit looks up, in front of the others. -/
theorem WellFormed.front {p : RosterUser → Bool} (h : WellFormed P groups us revoked)
    (hfind : us.find? p = some u) :
    ∃ rest, us.Perm (u :: rest) ∧ WellFormed P groups (u :: rest) revoked ∧
      (us.eraseP p).Perm rest ∧ ∀ f, (modifyFirst p f us).Perm (f u :: rest) := by
  obtain ⟨pre, post, heq, herase, hmodify⟩ := exists_append_of_find? hfind
  have hperm : us.Perm (u :: (pre ++ post)) := heq ▸ List.perm_middle
  exact ⟨pre ++ post, hperm, h.perm hperm, herase ▸ .refl _, fun f =>
    hmodify f ▸ List.perm_middle⟩

/-! ## the edits keep it -/

theorem emptyRoster_wellFormed (orgId : String) (serial : Nat) (issued expires : Int) :
    WellFormed P (emptyRoster P orgId serial issued expires).groups
      (emptyRoster P orgId serial issued expires).users
      (emptyRoster P orgId serial issued expires).revokedEndpoints :=
  { fits := fun _ hu => absurd hu List.not_mem_nil
    user_ids := List.nodup_nil
    endpoints := List.nodup_nil
    canonical_revoked := fun _ he => absurd he List.not_mem_nil }

/-- A device nobody else lists and nobody revoked fits its new user. -/
theorem userFits_single {id name pk : String} {gs : List String} {endpoint label : String}
    (hid : id ∉ groups) (hgs : ∀ g ∈ gs, g ∈ groups) (hlive : endpoint ∉ revoked)
    (hcanon : CanonicalEndpoint P endpoint) :
    UserFits P groups revoked (newUser id name pk gs (newDevice endpoint label)) :=
  { disjoint := hid
    declared := hgs
    nodup := List.nodup_singleton endpoint
    live := fun _ he => List.mem_singleton.mp he ▸ hlive
    canonical := fun _ he => List.mem_singleton.mp he ▸ hcanon }

/-- The endpoints of an upserted user: those it had, if the key is the same,
and the new device's. -/
theorem mem_endpointIds_upsertUser {name pk : String} {gs : List String} {d : RosterDevice}
    {e : String} (h : e ∈ endpointIds (upsertUser name pk gs d u)) :
    e ∈ endpointIds u ∨ e = d.endpointId := by
  unfold upsertUser at h
  split at h
  · rw [endpointIds] at h
    dsimp only at h
    split at h
    · exact .inl h
    · simpa [endpointIds] using h
  · exact .inr (List.mem_singleton.mp h)

@[simp] theorem upsertUser_userId {name pk : String} {gs : List String} {d : RosterDevice} :
    (upsertUser name pk gs d u).userId = u.userId := by
  unfold upsertUser
  split <;> rfl

/-- Its groups are those it had, if the key is the same, and the new ones. -/
theorem mem_groups_upsertUser {name pk : String} {gs : List String} {d : RosterDevice} {g : String}
    (h : g ∈ (upsertUser name pk gs d u).groups) : g ∈ u.groups ∨ g ∈ gs := by
  unfold upsertUser at h
  split at h
  · exact mem_pushAllNew.mp h
  · exact .inr h

/-- A device the user already lists is not listed again. -/
theorem nodup_endpointIds_upsertUser {name pk : String} {gs : List String} {endpoint label : String}
    (h : (endpointIds u).Nodup) :
    (endpointIds (upsertUser name pk gs (newDevice endpoint label) u)).Nodup := by
  unfold upsertUser
  split
  · unfold endpointIds
    dsimp only
    split
    · exact h
    · next hnew =>
      have hfresh : ∀ e ∈ endpointIds u, e ≠ endpoint := by
        rintro e he rfl
        obtain ⟨d, hd, heq⟩ := List.mem_map.mp he
        exact hnew (List.any_eq_true.mpr ⟨d, hd, decide_eq_true heq⟩)
      rw [List.map_append, List.nodup_append']
      exact ⟨h, List.nodup_singleton _, fun e he hmem => hfresh e he (List.mem_singleton.mp hmem)⟩
  · exact List.nodup_singleton endpoint

theorem UserFits.upsert {name pk : String} {gs : List String} {endpoint label : String}
    (h : UserFits P groups revoked u) (hgs : ∀ g ∈ gs, g ∈ groups) (hlive : endpoint ∉ revoked)
    (hcanon : CanonicalEndpoint P endpoint) :
    UserFits P groups revoked (upsertUser name pk gs (newDevice endpoint label) u) := by
  have hdisjoint : (upsertUser name pk gs (newDevice endpoint label) u).userId ∉ groups := by
    rw [upsertUser_userId]
    exact h.disjoint
  exact
    { disjoint := hdisjoint
      declared := fun g hg => (mem_groups_upsertUser hg).elim (h.declared g) (hgs g)
      nodup := nodup_endpointIds_upsertUser h.nodup
      live := fun e he => (mem_endpointIds_upsertUser he).elim (h.live e) (· ▸ hlive)
      canonical := fun e he =>
        (mem_endpointIds_upsertUser he).elim (h.canonical e) (· ▸ hcanon) }

theorem wellFormed_upsertMember {id name pk : String} {gs : List String}
    {endpoint label : String} {r : Roster}
    (h : WellFormed P r.groups r.users r.revokedEndpoints)
    (hcanon : CanonicalEndpoint P endpoint) {r' : Roster} {res : Except MutateError Unit}
    (happly : (upsertMember id name pk gs endpoint label).apply r = (r', res)) :
    WellFormed P r'.groups r'.users r'.revokedEndpoints := by
  obtain ⟨e, heq⟩ | ⟨⟨hidg, hidgs⟩, hgroup, hother, hlive, heq⟩ :=
      upsertMember_cases id name pk gs endpoint label r
  · rw [heq] at happly
    exact (Prod.mk.inj happly).1 ▸ h
  rw [heq] at happly
  rw [← (Prod.mk.inj happly).1]
  dsimp only
  have hid : id ∉ pushAllNew r.groups gs := by simp [hidg, hidgs]
  have hgs : ∀ g ∈ gs, g ∈ pushAllNew r.groups gs := fun g hg => mem_pushAllNew.mpr (.inr hg)
  -- the groups are declared first; the guards keep them apart from every user id
  have hdeclared : WellFormed P (pushAllNew r.groups gs) r.users r.revokedEndpoints := by
    refine h.declare (fun g hg => mem_pushAllNew.mpr (.inl hg)) fun u hu hmem => ?_
    obtain hg | hg := mem_pushAllNew.mp hmem
    · exact (h.fits u hu).disjoint hg
    · by_cases heq : u.userId = id
      · exact hidgs (heq ▸ hg)
      · exact hgroup _ hg u hu heq rfl
  split
  · next hany =>
    obtain ⟨u, hfind⟩ : ∃ u, r.users.find? (·.userId = id) = some u := by
      simpa [← Option.isSome_iff_exists] using hany
    obtain ⟨rest, hperm, hfront, -, hmodify⟩ := hdeclared.front hfind
    obtain ⟨hfits, hids, hends, hrest⟩ := wellFormed_cons.mp hfront
    have huid : u.userId = id := by simpa using List.find?_some hfind
    refine WellFormed.perm (hmodify _).symm (wellFormed_cons.mpr ⟨?_, ?_, ?_, hrest⟩)
    · exact hfits.upsert hgs hlive hcanon
    · intro u' hu'
      rw [upsertUser_userId]
      exact hids u' hu'
    · intro u' hu' e he hmem
      obtain hmem | rfl := mem_endpointIds_upsertUser hmem
      · exact hends u' hu' e he hmem
      · obtain ⟨d, hd, heq⟩ := List.mem_map.mp he
        exact hother u' (hperm.mem_iff.mpr (List.mem_cons_of_mem u hu'))
          (fun heq => hids u' hu' (heq.trans huid.symm)) d hd heq
  · next hany =>
    have hne : ∀ u ∈ r.users, u.userId ≠ id := by simpa using hany
    refine WellFormed.perm (List.perm_append_singleton _ _).symm
      (wellFormed_cons.mpr ⟨userFits_single hid hgs hlive hcanon, hne, ?_, hdeclared⟩)
    intro u hu e he hmem
    obtain ⟨d, hd, heq⟩ := List.mem_map.mp he
    exact hother u hu (hne u hu) d hd (heq.trans (List.mem_singleton.mp hmem))

/-- Taking devices away keeps a user fitting. -/
theorem UserFits.unlist {ds : List RosterDevice} (h : UserFits P groups revoked u)
    (hsub : ds.Sublist u.devices) : UserFits P groups revoked { u with devices := ds } :=
  { disjoint := h.disjoint
    declared := h.declared
    nodup := h.nodup.sublist (hsub.map _)
    live := fun e he => h.live e ((hsub.map _).subset he)
    canonical := fun e he => h.canonical e ((hsub.map _).subset he) }

theorem wellFormed_revokeDevice {id label : String} {r : Roster}
    (h : WellFormed P r.groups r.users r.revokedEndpoints)
    {r' : Roster} {res : Except MutateError Unit}
    (happly : (revokeDevice id label).apply r = (r', res)) :
    WellFormed P r'.groups r'.users r'.revokedEndpoints := by
  obtain ⟨e, heq⟩ | ⟨user, dev, hfind, hdev⟩ := revokeDevice_cases id label r
  · rw [heq] at happly
    exact (Prod.mk.inj happly).1 ▸ h
  rw [revokeDevice_apply hfind hdev] at happly
  rw [← (Prod.mk.inj happly).1]
  dsimp only
  obtain ⟨rest, -, hfront, -, hmodify⟩ := h.front hfind
  obtain ⟨hfits, hids, hends, hrest⟩ := wellFormed_cons.mp hfront
  obtain ⟨pre, post, hdevices, herase, -⟩ := exists_append_of_find? hdev
  have hmem : dev.endpointId ∈ endpointIds user :=
    List.mem_map_of_mem (List.mem_of_find?_eq_some hdev)
  have hsub : (user.devices.eraseP (·.label = label)).Sublist user.devices :=
    List.eraseP_sublist
  refine WellFormed.perm (hmodify _).symm ?_
  have hunlisted : WellFormed P r.groups
      ({ user with devices := user.devices.eraseP (·.label = label) } :: rest)
      r.revokedEndpoints :=
    wellFormed_cons.mpr ⟨hfits.unlist hsub, hids,
      fun u' hu' e he hin => hends u' hu' e he ((hsub.map _).subset hin), hrest⟩
  refine hunlisted.revoke fun e he => ?_
  obtain he | rfl := mem_pushNew.mp he
  · exact .inl he
  refine .inr ⟨hfits.canonical _ hmem, fun u' hu' hin => ?_⟩
  obtain rfl | hu' := List.mem_cons.mp hu'
  -- the unlisted endpoint was listed once, so the user's other devices lack it
  · have hnodup := hfits.nodup
    rw [endpointIds, hdevices, (List.perm_middle.map _).nodup_iff, List.map_cons,
      List.nodup_cons, ← herase] at hnodup
    exact hnodup.1 hin
  · exact hends u' hu' _ hin hmem

theorem wellFormed_removeUser {id : String} {revokeEndpoints : Bool} {r : Roster}
    (h : WellFormed P r.groups r.users r.revokedEndpoints)
    {r' : Roster} {res : Except MutateError Unit}
    (happly : (removeUser id revokeEndpoints).apply r = (r', res)) :
    WellFormed P r'.groups r'.users r'.revokedEndpoints := by
  obtain ⟨e, heq⟩ | ⟨user, hfind⟩ := removeUser_cases id revokeEndpoints r
  · rw [heq] at happly
    exact (Prod.mk.inj happly).1 ▸ h
  rw [removeUser_apply hfind] at happly
  rw [← (Prod.mk.inj happly).1]
  dsimp only
  obtain ⟨rest, -, hfront, herase, -⟩ := h.front hfind
  obtain ⟨hfits, -, hends, hrest⟩ := wellFormed_cons.mp hfront
  refine WellFormed.perm herase.symm (hrest.revoke fun e he => ?_)
  split at he
  · obtain he | he := mem_pushAllNew.mp he
    · exact .inl he
    · exact .inr ⟨hfits.canonical e he, fun u' hu' hin => hends u' hu' e hin he⟩
  · exact .inl he

/-- **The step lemma**: every edit keeps the roster well formed. -/
theorem wellFormed_mutateStep {r : Roster} {call : MutateCall} (hcanon : call.Canonical P)
    (h : WellFormed P r.groups r.users r.revokedEndpoints) :
    WellFormed P (mutateStep r call).1.groups (mutateStep r call).1.users
      (mutateStep r call).1.revokedEndpoints := by
  cases call with
  | upsertMember => exact wellFormed_upsertMember h hcanon rfl
  | revokeDevice => exact wellFormed_revokeDevice h rfl
  | removeUser => exact wellFormed_removeUser h rfl

/-- Every run of edits of an empty roster keeps it well formed. -/
theorem wellFormed_final (orgId : String) (serial : Nat) (issued expires : Int)
    {calls : List MutateCall} (hcanon : ∀ call ∈ calls, call.Canonical P) :
    WellFormed P (final mutateStep (emptyRoster P orgId serial issued expires) calls).groups
      (final mutateStep (emptyRoster P orgId serial issued expires) calls).users
      (final mutateStep (emptyRoster P orgId serial issued expires) calls).revokedEndpoints :=
  final_invariant (I := fun r : Roster => WellFormed P r.groups r.users r.revokedEndpoints)
    (fun _ call hcall h => wellFormed_mutateStep (hcanon call hcall) h)
    (emptyRoster_wellFormed orgId serial issued expires)

/-! ## a well-formed roster is functional -/

/-- The endpoint a device string names, where it names one. -/
def endpointOf (P : Primitives) (s : String) : EndpointId :=
  (decodeEndpointId P s).toOption.getD (List.Vector.replicate 32 0)

theorem CanonicalEndpoint.decode {s : String} (h : CanonicalEndpoint P s) :
    decodeEndpointId P s = .ok (endpointOf P s) := by
  obtain ⟨eid, rfl⟩ := h
  simp [endpointOf, Except.toOption]

/-- Canonical strings that name one endpoint are one string. -/
theorem CanonicalEndpoint.eq_of_endpointOf {s t : String} (hs : CanonicalEndpoint P s)
    (ht : CanonicalEndpoint P t) (h : endpointOf P s = endpointOf P t) : s = t := by
  obtain ⟨e, rfl⟩ := hs
  obtain ⟨e', rfl⟩ := ht
  simp only [endpointOf, decodeEndpointId_encodeB64u, Except.toOption, Option.getD_some] at h
  rw [h]

/-- The view accepts a well-formed roster, and each listed device resolves to
its user. -/
theorem WellFormed.buildView {r : Roster} (h : WellFormed P r.groups r.users r.revokedEndpoints)
    (expires : Int) :
    ∃ view, buildView P r expires = .ok view ∧ ∀ u ∈ r.users, ∀ d ∈ u.devices,
      ∃ eid, decodeEndpointId P d.endpointId = .ok eid ∧
        view.resolve eid = some (resolvedDevice u d) := by
  have hdec : ∀ u ∈ r.users, ∀ d ∈ u.devices,
      decodeEndpointId P d.endpointId = .ok (endpointOf P d.endpointId) := fun u hu d hd =>
    ((h.fits u hu).canonical _ (List.mem_map_of_mem hd)).decode
  obtain ⟨revoked, hrevoked, hmem⟩ :=
    decodeRevoked_ok (fun e he => (h.canonical_revoked e he).decode) ∅
  have hlive : ∀ u ∈ r.users, ∀ d ∈ u.devices, endpointOf P d.endpointId ∉ revoked := by
    intro u hu d hd hrev
    obtain hempty | hrev := (hmem _).mp hrev
    · exact Finset.notMem_empty _ hempty
    obtain ⟨e, he, heq⟩ := List.mem_map.mp hrev
    have hlisted : d.endpointId ∈ endpointIds u := List.mem_map_of_mem hd
    have hsame := (h.canonical_revoked e he).eq_of_endpointOf
      ((h.fits u hu).canonical _ hlisted) heq
    exact (h.fits u hu).live _ hlisted (hsame ▸ he)
  have hnodup : (r.users.flatMap fun u => u.devices.map fun d => endpointOf P d.endpointId).Nodup
      := by
    have hmap : (r.users.flatMap fun u => u.devices.map fun d => endpointOf P d.endpointId) =
        (r.users.flatMap endpointIds).map (endpointOf P) := by
      simp [List.map_flatMap, endpointIds, Function.comp_def]
    rw [hmap]
    refine List.Nodup.map_on (fun s hs t ht heq => ?_) h.endpoints
    obtain ⟨u, hu, hs⟩ := List.mem_flatMap.mp hs
    obtain ⟨u', hu', ht⟩ := List.mem_flatMap.mp ht
    exact ((h.fits u hu).canonical s hs).eq_of_endpointOf ((h.fits u' hu').canonical t ht) heq
  obtain ⟨devices, hdevices, -, hadded⟩ :=
    addUsers_ok hdec hlive hnodup (.empty revoked) fun _ _ _ _ => AList.notMem_empty _
  have hnames : checkNamespace r.groups [] r.users = .ok () :=
    checkNamespace_ok h.user_ids (fun u hu => (h.fits u hu).disjoint)
      (fun u hu => (h.fits u hu).declared) [] fun _ _ => List.not_mem_nil
  refine ⟨_, by rw [Mcpmesh.buildView, hnames, ok_bind, hrevoked, ok_bind, hdevices, ok_bind],
    fun u hu d hd => ⟨_, hdec u hu d hd, ?_⟩⟩
  exact hadded u hu d hd

end WellFormed

/-- **Operator mutations keep a roster functional**: after any edits of an
empty roster, accepted or refused, the roster is well formed, its view is
built, and every listed device resolves to its user with the user's groups; and
each refused edit left the roster as it was. -/
theorem mutations_keep_roster_functional (P : Primitives) (orgId : String) (serial : Nat)
    (issued expires expiresAtEpoch : Int) (calls : List MutateCall)
    (hcanon : ∀ call ∈ calls, call.Canonical P) :
    let start := emptyRoster P orgId serial issued expires
    let roster := final mutateStep start calls
    WellFormed P roster.groups roster.users roster.revokedEndpoints ∧
      (∃ view, buildView P roster expiresAtEpoch = .ok view ∧
        ∀ u ∈ roster.users, ∀ d ∈ u.devices,
          ∃ eid resolved, decodeEndpointId P d.endpointId = .ok eid ∧
            view.resolve eid = some resolved ∧ resolved.userId = u.userId ∧
            resolved.groups = u.groups) ∧
      ∀ t ∈ trace mutateStep start calls, ∀ e, t.out = .error e → t.post = t.pre := by
  intro start roster
  have hwf : WellFormed P roster.groups roster.users roster.revokedEndpoints :=
    wellFormed_final orgId serial issued expires hcanon
  obtain ⟨view, hview, hresolve⟩ := hwf.buildView expiresAtEpoch
  refine ⟨hwf, ⟨view, hview, fun u hu d hd => ?_⟩, fun t ht e he => ?_⟩
  · obtain ⟨eid, hdec, hres⟩ := hresolve u hu d hd
    exact ⟨eid, resolvedDevice u d, hdec, hres, rfl, rfl⟩
  · have hstep := (step_of_mem_trace ht).1
    have herror : (mutateStep t.pre t.call).2 = .error e := by rw [hstep, he]
    have hpre := mutateStep_error herror
    rwa [hstep] at hpre

/-- Two people, a second device, a revocation and a departure. -/
def exampleCalls : List MutateCall :=
  let device (n : UInt8) := "b64u:" ++ Base64Url.encode (List.replicate 32 n)
  [.upsertMember "alice" "Alice" "b64u:AAAA" ["team-eng"] (device 1) "laptop",
    .upsertMember "bob" "Bob" "b64u:BBBB" ["team-eng"] (device 2) "laptop",
    .upsertMember "alice" "Alice" "b64u:AAAA" ["team-ops"] (device 3) "phone",
    .upsertMember "bob" "Bob" "b64u:BBBB" [] (device 1) "stolen",
    .revokeDevice "alice" "laptop",
    .removeUser "bob" true]

theorem mutations_keep_roster_functional_example :
    let P := Instance.primitives [] []
    (∀ call ∈ exampleCalls, call.Canonical P) ∧
      (final mutateStep (emptyRoster P "acme" 1 0 0) exampleCalls).users.map (·.userId) =
        ["alice"] ∧
      ∃ view, buildView P (final mutateStep (emptyRoster P "acme" 1 0 0) exampleCalls) 0 =
        .ok view := by
  intro P
  have hcanon : ∀ call ∈ exampleCalls, call.Canonical P := by
    simp only [exampleCalls, List.forall_mem_cons, MutateCall.Canonical, true_and]
    exact ⟨⟨.replicate 32 1, rfl⟩, ⟨.replicate 32 2, rfl⟩, ⟨.replicate 32 3, rfl⟩,
      ⟨.replicate 32 1, rfl⟩, fun _ h => absurd h List.not_mem_nil⟩
  refine ⟨hcanon, by decide +kernel, ?_⟩
  obtain ⟨view, hview, -⟩ :=
    (mutations_keep_roster_functional P "acme" 1 0 0 0 exampleCalls hcanon).2.1
  exact ⟨view, hview⟩

/-! ## revocation -/

/-- An edit never takes an endpoint out of `revoked_endpoints`. -/
theorem revoked_subset_mutateStep (roster : Roster) (call : MutateCall) :
    roster.revokedEndpoints ⊆ (mutateStep roster call).1.revokedEndpoints := by
  intro e he
  cases call with
  | upsertMember userId displayName userPk groups endpoint label =>
      obtain ⟨_, heq⟩ | ⟨_, _, _, _, heq⟩ :=
          upsertMember_cases userId displayName userPk groups endpoint label roster
      · rw [mutateStep, heq]; exact he
      · rw [mutateStep, heq]; exact he
  | revokeDevice userId label =>
      obtain ⟨_, heq⟩ | ⟨_, _, huser, hdev⟩ := revokeDevice_cases userId label roster
      · rw [mutateStep, heq]; exact he
      · rw [mutateStep, revokeDevice_apply huser hdev]
        exact mem_pushNew.mpr (.inl he)
  | removeUser userId revokeEndpoints =>
      obtain ⟨_, heq⟩ | ⟨_, huser⟩ := removeUser_cases userId revokeEndpoints roster
      · rw [mutateStep, heq]; exact he
      · rw [mutateStep, removeUser_apply huser]
        cases revokeEndpoints with
        | false => exact he
        | true => exact mem_pushAllNew.mpr (.inl he)

/-- The call revokes the endpoint string `e` of `roster`: it revokes the device,
or removes its departing user. -/
def Revokes (roster : Roster) (e : String) : MutateCall → Prop
  | .revokeDevice userId label => ∃ u d, roster.users.find? (·.userId = userId) = some u ∧
      u.devices.find? (·.label = label) = some d ∧ d.endpointId = e
  | .removeUser userId true => ∃ u, roster.users.find? (·.userId = userId) = some u ∧
      e ∈ endpointIds u
  | _ => False

/-- A revoking call enters the endpoint. -/
theorem mem_revoked_of_revokes {roster : Roster} {e : String} {call : MutateCall}
    (h : Revokes roster e call) : e ∈ (mutateStep roster call).1.revokedEndpoints := by
  match call, h with
  | .revokeDevice userId label, ⟨u, d, hu, hd, heq⟩ =>
      rw [mutateStep, revokeDevice_apply hu hd]
      exact mem_pushNew.mpr (.inr heq.symm)
  | .removeUser userId true, ⟨u, hu, he⟩ =>
      rw [mutateStep, removeUser_apply hu]
      exact mem_pushAllNew.mpr (.inr he)

/-- In a view of a roster that revokes `e`, the endpoint is revoked and
resolves to nothing. -/
theorem revoked_in_view {P : Primitives} {roster : Roster} {expires : Int} {view : RosterView}
    {e : String} (he : e ∈ roster.revokedEndpoints)
    (hview : buildView P roster expires = .ok view) :
    ∃ eid, decodeEndpointId P e = .ok eid ∧ view.isRevoked eid = true ∧
      view.resolve eid = none := by
  obtain ⟨eid, hdec, hrev⟩ := (buildView_eq_ok hview).2.2.2 e he
  exact ⟨eid, hdec, hrev, view.resolve_of_isRevoked hrev⟩

/-- **Revocation is irrevocable**: an endpoint that a call of a run revokes, or
that is revoked before it, stays in `revoked_endpoints` whatever edits follow,
and in no view built later does it resolve. -/
theorem revocation_is_irrevocable (P : Primitives) (roster : Roster)
    (before after : List MutateCall) (call : MutateCall) (e : String)
    (h : Revokes (final mutateStep roster before) e call ∨
      e ∈ (final mutateStep roster before).revokedEndpoints) :
    let later := final mutateStep roster (before ++ call :: after)
    e ∈ later.revokedEndpoints ∧
      ∀ expires view, buildView P later expires = .ok view →
        ∃ eid, decodeEndpointId P e = .ok eid ∧ view.isRevoked eid = true ∧
          view.resolve eid = none := by
  intro later
  have hentered :
      e ∈ (mutateStep (final mutateStep roster before) call).1.revokedEndpoints :=
    h.elim mem_revoked_of_revokes fun hmem => revoked_subset_mutateStep _ call hmem
  have hlater : e ∈ later.revokedEndpoints := by
    have hrun : later =
        final mutateStep (mutateStep (final mutateStep roster before) call).1 after := by
      rw [← final_cons, ← final_append]
    rw [hrun]
    exact final_rel (R := fun r r' : Roster => r.revokedEndpoints ⊆ r'.revokedEndpoints)
      (fun _ => List.Subset.refl _) (fun _ _ _ h₁ h₂ => List.Subset.trans h₁ h₂)
      (fun r c _ => revoked_subset_mutateStep r c) _ hentered
  exact ⟨hlater, fun _ _ hview => revoked_in_view hlater hview⟩

theorem revocation_is_irrevocable_example :
    let P := Instance.primitives [] []
    let device := "b64u:" ++ Base64Url.encode (List.replicate 32 1)
    let later := final mutateStep (emptyRoster P "acme" 1 0 0)
      (exampleCalls.take 4 ++ .revokeDevice "alice" "laptop" ::
        [.upsertMember "alice" "Alice" "b64u:AAAA" [] device "laptop"])
    device ∈ later.revokedEndpoints ∧
      ∀ expires view, buildView P later expires = .ok view →
        ∃ eid, decodeEndpointId P device = .ok eid ∧ view.isRevoked eid = true ∧
          view.resolve eid = none :=
  revocation_is_irrevocable _ _ _ _ _ _
    (.inl ⟨_, _, by rfl, by rfl, by decide +kernel⟩)

end Mcpmesh
