import Mcpmesh.Roster.Functional

/-!
# Mcpmesh.Roster.Labels

What a label addresses (`revoke_device`, `trust/src/roster/mutate.rs`).

An upsert keeps endpoints apart but not labels, so a user may list several
devices under one label.  A revocation takes the first of them: that one is
out of the view for good, the others stay.
-/

namespace Mcpmesh

open Lib

section Labels

variable {P : Primitives} {userId label : String} {r after : Roster} {user : RosterUser}
  {dev : RosterDevice} {ds : List RosterDevice}

/-- The first device of a label is its only one when it carries the label alone. -/
theorem countP_label_eq_one (hdev : ds.find? (·.label = label) = some dev)
    (hnodup : (ds.map (·.endpointId)).Nodup) :
    ds.countP (·.label = label) = 1 ↔ ∀ d ∈ ds, d.label = label → d = dev := by
  obtain ⟨pre, post, rfl, -, -⟩ := exists_append_of_find? hdev
  have hlabel : dev.label = label := by simpa using List.find?_some hdev
  have hother : ∀ d ∈ pre ++ post, d ≠ dev := by
    rintro d hd rfl
    rw [(List.perm_middle.map _).nodup_iff, List.map_cons, List.nodup_cons] at hnodup
    exact hnodup.1 (List.mem_map_of_mem hd)
  have hcount : (pre ++ dev :: post).countP (·.label = label) =
      (pre ++ post).countP (·.label = label) + 1 := by
    simp [hlabel]
    omega
  rw [hcount]
  constructor
  · intro hone d hd hd'
    have hzero : (pre ++ post).countP (·.label = label) = 0 := by omega
    simp only [List.countP_eq_zero, decide_eq_true_eq] at hzero
    by_contra hne
    have hmem : d ∈ pre ++ post := by
      simp only [List.mem_append, List.mem_cons] at hd ⊢
      tauto
    exact hzero d hmem hd'
  · intro hall
    have hzero : (pre ++ post).countP (·.label = label) = 0 := by
      simp only [List.countP_eq_zero, decide_eq_true_eq]
      intro d hd hd'
      have hmem : d ∈ pre ++ dev :: post := by
        simp only [List.mem_append, List.mem_cons] at hd ⊢
        tauto
      exact hother d hd (hall d hmem hd')
    omega

/-- The user of a revocation keeps every device but the first of the label. -/
theorem find?_users_revokeDevice (huser : r.users.find? (·.userId = userId) = some user)
    (hdev : user.devices.find? (·.label = label) = some dev)
    (hok : (revokeDevice userId label).apply r = (after, .ok ())) :
    ({ user with devices := user.devices.eraseP (·.label = label) } ∈ after.users) ∧
      dev.endpointId ∈ after.revokedEndpoints := by
  rw [revokeDevice_apply huser hdev] at hok
  obtain ⟨pre, post, -, -, hmodify⟩ := exists_append_of_find? huser
  rw [← (Prod.mk.inj hok).1]
  dsimp only
  rw [hmodify]
  simp

end Labels

/-- **A label cuts one device**: a revocation that succeeds takes the first
device under the label out of every later view and leaves the others of the
user as they were, so that the label resolves nowhere exactly when it named one
device. -/
theorem revoke_device_cuts_first (P : Primitives) (orgId : String) (serial : Nat)
    (issued expires expiresAtEpoch : Int) {calls : List MutateCall}
    (hcanon : ∀ call ∈ calls, call.Canonical P) {userId label : String} {after : Roster}
    (hok : (revokeDevice userId label).apply
      (final mutateStep (emptyRoster P orgId serial issued expires) calls) = (after, .ok ())) :
    ∃ user dev view,
      (final mutateStep (emptyRoster P orgId serial issued expires) calls).users.find?
        (·.userId = userId) = some user ∧
      user.devices.find? (·.label = label) = some dev ∧
      { user with devices := user.devices.eraseP (·.label = label) } ∈ after.users ∧
      buildView P after expiresAtEpoch = .ok view ∧
      (∀ d ∈ user.devices, ∃ eid, decodeEndpointId P d.endpointId = .ok eid ∧
        view.resolve eid = if d = dev then none else some (resolvedDevice user d)) ∧
      ((∀ d ∈ user.devices, d.label = label → ∀ eid, decodeEndpointId P d.endpointId = .ok eid →
        view.resolve eid = none) ↔ user.devices.countP (·.label = label) = 1) := by
  have hbefore := wellFormed_final orgId serial issued expires hcanon
  obtain ⟨view, hview, hlisted⟩ := (wellFormed_revokeDevice hbefore hok).buildView expiresAtEpoch
  obtain ⟨e, heq⟩ | ⟨user, dev, huser, hdev⟩ := revokeDevice_cases userId label
      (final mutateStep (emptyRoster P orgId serial issued expires) calls)
  · rw [heq] at hok
    simp at hok
  obtain ⟨hkept, hrevoked⟩ := find?_users_revokeDevice huser hdev hok
  have hnodup : (endpointIds user).Nodup :=
    (hbefore.fits user (List.mem_of_find?_eq_some huser)).nodup
  have hresolve : ∀ d ∈ user.devices, ∃ eid, decodeEndpointId P d.endpointId = .ok eid ∧
      view.resolve eid = if d = dev then none else some (resolvedDevice user d) := by
    intro d hd
    split
    · next heq =>
      obtain ⟨eid, hdec, -, hnone⟩ := revoked_in_view hrevoked hview
      exact ⟨eid, heq ▸ hdec, hnone⟩
    · next hne =>
      obtain ⟨pre, post, hdevices, herase, -⟩ := exists_append_of_find? hdev
      have hmem : d ∈ user.devices.eraseP (·.label = label) := by
        rw [hdevices] at hd
        rw [herase]
        simp only [List.mem_append, List.mem_cons] at hd ⊢
        tauto
      exact hlisted _ hkept d hmem
  refine ⟨user, dev, view, huser, hdev, hkept, hview, hresolve, ?_⟩
  rw [countP_label_eq_one hdev hnodup]
  constructor
  · intro hnone d hd hlabel
    obtain ⟨eid, hdec, hd'⟩ := hresolve d hd
    rw [hnone d hd hlabel eid hdec] at hd'
    by_contra hne
    rw [if_neg hne] at hd'
    contradiction
  · intro hone d hd hlabel eid hdec
    obtain ⟨eid', hdec', hd'⟩ := hresolve d hd
    obtain rfl : eid = eid' := by simpa [hdec] using hdec'
    rw [hd', if_pos (hone d hd hlabel)]

namespace Laptops

def device (n : UInt8) : String := "b64u:" ++ Base64Url.encode (List.replicate 32 n)

/-- Alice's laptop, her next laptop under the same label, and her phone. -/
def calls : List MutateCall :=
  [.upsertMember "alice" "Alice" "b64u:AAAA" ["team-eng"] (device 1) "laptop",
    .upsertMember "alice" "Alice" "b64u:AAAA" ["team-eng"] (device 2) "laptop",
    .upsertMember "alice" "Alice" "b64u:AAAA" ["team-eng"] (device 3) "phone"]

def roster : Roster := final mutateStep (emptyRoster (Instance.primitives [] []) "acme" 1 0 0) calls

/-- What the view after a revocation says of a device. -/
def resolved (label : String) (n : UInt8) : Option (Option ResolvedDevice) :=
  let view := buildView (Instance.primitives [] []) ((revokeDevice "alice" label).apply roster).1 0
  view.toOption.map (·.resolve (.replicate 32 n))

end Laptops

open Laptops in
theorem revoke_device_cuts_first_example :
    ∃ user dev view, user.devices.find? (·.label = "laptop") = some dev ∧
      buildView (Instance.primitives [] []) ((revokeDevice "alice" "laptop").apply roster).1 0 =
        .ok view ∧
      ∀ d ∈ user.devices, ∃ eid,
        decodeEndpointId (Instance.primitives [] []) d.endpointId = .ok eid ∧
        view.resolve eid = if d = dev then none else some (resolvedDevice user d) := by
  have hcanon : ∀ call ∈ calls, call.Canonical (Instance.primitives [] []) := by
    simp only [calls, List.forall_mem_cons, MutateCall.Canonical]
    exact ⟨⟨.replicate 32 1, rfl⟩, ⟨.replicate 32 2, rfl⟩, ⟨.replicate 32 3, rfl⟩,
      fun _ h => absurd h List.not_mem_nil⟩
  have hok : (revokeDevice "alice" "laptop").apply roster =
      (((revokeDevice "alice" "laptop").apply roster).1, .ok ()) := by rfl
  obtain ⟨user, dev, view, -, hdev, -, hview, hresolve, -⟩ :=
    revoke_device_cuts_first (Instance.primitives [] []) "acme" 1 0 0 0 hcanon hok
  exact ⟨user, dev, view, hdev, hview, hresolve⟩

open Laptops in
/-- The second laptop of the label goes on resolving. -/
theorem second_laptop_survives :
    ((revokeDevice "alice" "laptop").apply roster).2.isOk = true ∧
      resolved "laptop" 1 = some none ∧
      resolved "laptop" 2 = some (some ⟨"alice", "Alice", ["team-eng"], "primary", "laptop"⟩) := by
  decide +kernel

end Mcpmesh
