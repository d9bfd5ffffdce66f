import Mcpmesh.Lib.Run
import Mcpmesh.Roster.Validate

/-!
# Mcpmesh.Roster.Mutate

The operator's roster edits (`trust/src/roster/mutate.rs`): `upsertMember`,
`revokeDevice` and `removeUser`, applied before a roster is signed.

An edit runs in `Mutate`, where an error keeps whatever was edited before it,
as in the source: that a failed edit leaves the roster alone is a theorem.
Each edit is described once (`upsertMember_cases`, `revokeDevice_cases`,
`removeUser_cases`); what a run of edits keeps is in `Mcpmesh.Roster.Functional`.
-/

namespace Mcpmesh

open Lib

/-- An edit of a roster the guards refused. -/
inductive MutateError where
  | userIdIsGroup (userId : String)
  | groupIsUserId (group : String)
  | endpointBelongsToAnotherUser (endpoint : String)
  | endpointRevoked (endpoint : String)
  | noSuchPerson (userId : String)
  | noSuchDevice (userId deviceLabel : String)
  deriving DecidableEq, Repr

/-- An edit in place: an error does not undo what was edited before it. -/
abbrev Mutate := Action Roster MutateError Unit

/-! ## list edits -/

section Lists

variable {α : Type*} [DecidableEq α]

/-- `if !xs.iter().any(|x| x == y) { xs.push(y) }`. -/
def pushNew (xs : List α) (y : α) : List α := if y ∈ xs then xs else xs ++ [y]

/-- `pushNew` for each of `ys`. -/
def pushAllNew (xs ys : List α) : List α := ys.foldl pushNew xs

/-- `if let Some(x) = xs.iter_mut().find(p) { *x = f(x) }`. -/
def modifyFirst {β : Type*} (p : β → Bool) (f : β → β) : List β → List β
  | [] => []
  | x :: xs => if p x then f x :: xs else x :: modifyFirst p f xs

/-- A push adds its element, if it is not there yet. -/
@[simp] theorem mem_pushNew {xs : List α} {x y : α} : x ∈ pushNew xs y ↔ x ∈ xs ∨ x = y := by
  unfold pushNew
  split
  · next h => exact ⟨.inl, fun hx => hx.elim id fun heq => heq ▸ h⟩
  · simp

/-- Pushes in a row add their elements. -/
@[simp] theorem mem_pushAllNew {xs ys : List α} {x : α} :
    x ∈ pushAllNew xs ys ↔ x ∈ xs ∨ x ∈ ys := by
  unfold pushAllNew
  induction ys generalizing xs with
  | nil => simp
  | cons y ys ih => rw [List.foldl_cons, ih, mem_pushNew, List.mem_cons, or_assoc]

/-- The list around the first match: what an edit or a removal of it leaves. -/
theorem exists_append_of_find? {β : Type*} {p : β → Bool} {xs : List β} {x : β}
    (h : xs.find? p = some x) :
    ∃ pre post, xs = pre ++ x :: post ∧ xs.eraseP p = pre ++ post ∧
      ∀ f, modifyFirst p f xs = pre ++ f x :: post := by
  induction xs with
  | nil => simp at h
  | cons y ys ih =>
      by_cases hy : p y = true
      · rw [List.find?_cons_of_pos hy, Option.some.injEq] at h
        subst h
        exact ⟨[], ys, rfl, List.eraseP_cons_of_pos hy, fun f => by simp [modifyFirst, hy]⟩
      · rw [List.find?_cons_of_neg hy] at h
        obtain ⟨pre, post, heq, herase, hmodify⟩ := ih h
        refine ⟨y :: pre, post, ?_, ?_, fun f => ?_⟩
        · rw [heq, List.cons_append]
        · rw [List.eraseP_cons_of_neg hy, herase, List.cons_append]
        · rw [modifyFirst, if_neg hy, hmodify f, List.cons_append]

end Lists

/-! ## the edits -/

section Edits

variable (P : Primitives)

/-- A fresh empty roster, for `org create`. -/
def emptyRoster (orgId : String) (serial : Nat) (issuedEpoch expiresEpoch : Int) : Roster :=
  { format := rosterFormat, orgId, serial, issuedAt := P.toRfc3339 issuedEpoch,
    expiresAt := P.toRfc3339 expiresEpoch, groups := [], users := [], revokedEndpoints := [],
    successorRootPk := none, successorSig := none, sig := "" }

/-- The device an upsert lists. -/
def newDevice (endpointId label : String) : RosterDevice :=
  { endpointId, label, role := "primary" }

/-- Upsert an already enrolled person: the same key appends the device and
unions the groups, a different key replaces all of them. -/
def upsertUser (displayName userPk : String) (groups : List String) (device : RosterDevice)
    (u : RosterUser) : RosterUser :=
  if u.userPk = userPk then
    { u with
      devices := if u.devices.any (·.endpointId = device.endpointId) then u.devices
        else u.devices ++ [device]
      groups := pushAllNew u.groups groups }
  else { u with displayName, userPk, groups, devices := [device] }

/-- The entry an upsert adds for a new `userId`. -/
def newUser (userId displayName userPk : String) (groups : List String) (device : RosterDevice) :
    RosterUser :=
  { userId, displayName, userPk, groups, devices := [device] }

/-- Whether a user other than `userId` lists `endpoint`. -/
def belongsToAnother (roster : Roster) (userId endpoint : String) : Bool :=
  roster.users.any fun u => u.userId ≠ userId && u.devices.any (·.endpointId = endpoint)

/-- Upsert a member and a device, keyed by `userId`. -/
def upsertMember (userId displayName userPk : String) (groups : List String)
    (deviceEndpointId deviceLabel : String) : Mutate := do
  let roster ← get
  if userId ∈ roster.groups || userId ∈ groups then
    throw (.userIdIsGroup userId)
  if let some g := groups.find? fun g =>
      roster.users.any fun u => u.userId ≠ userId && u.userId = g then
    throw (.groupIsUserId g)
  if belongsToAnother roster userId deviceEndpointId then
    throw (.endpointBelongsToAnotherUser deviceEndpointId)
  if deviceEndpointId ∈ roster.revokedEndpoints then
    throw (.endpointRevoked deviceEndpointId)
  modify fun roster => { roster with groups := pushAllNew roster.groups groups }
  let device := newDevice deviceEndpointId deviceLabel
  if roster.users.any (·.userId = userId) then
    modify fun roster =>
      { roster with
        users := modifyFirst (·.userId = userId) (upsertUser displayName userPk groups device)
          roster.users }
  else
    modify fun roster =>
      { roster with
        users := roster.users ++ [newUser userId displayName userPk groups device] }
  modify fun roster => { roster with sig := "" }

/-- Revoke one device: unlist it and add its endpoint to `revoked_endpoints`. -/
def revokeDevice (userId deviceLabel : String) : Mutate := do
  match (← get).users.find? (·.userId = userId) with
  | none => throw (.noSuchPerson userId)
  | some user =>
      match user.devices.find? (·.label = deviceLabel) with
      | none => throw (.noSuchDevice userId deviceLabel)
      | some dev =>
          modify fun roster =>
            { roster with
              users := modifyFirst (·.userId = userId)
                (fun u => { u with devices := u.devices.eraseP (·.label = deviceLabel) })
                roster.users }
          modify fun roster =>
            { roster with revokedEndpoints := pushNew roster.revokedEndpoints dev.endpointId }
          modify fun roster => { roster with sig := "" }

/-- Remove a person; a departure also revokes the endpoints, a key rotation
leaves them free for re-enrollment. -/
def removeUser (userId : String) (revokeEndpoints : Bool) : Mutate := do
  match (← get).users.find? (·.userId = userId) with
  | none => throw (.noSuchPerson userId)
  | some user =>
      modify fun roster => { roster with users := roster.users.eraseP (·.userId = userId) }
      if revokeEndpoints then
        modify fun roster =>
          { roster with
            revokedEndpoints :=
              pushAllNew roster.revokedEndpoints (user.devices.map (·.endpointId)) }
      modify fun roster => { roster with sig := "" }

/-! ### what one edit does -/

/-- An upsert is refused and changes nothing, or passes its checks and leaves what is
said. -/
theorem upsertMember_cases (userId displayName userPk : String) (groups : List String)
    (endpoint label : String) (r : Roster) :
    (∃ e, (upsertMember userId displayName userPk groups endpoint label).apply r = (r, .error e)) ∨
      ((userId ∉ r.groups ∧ userId ∉ groups) ∧
        (∀ g ∈ groups, ∀ u ∈ r.users, u.userId ≠ userId → u.userId ≠ g) ∧
        (∀ u ∈ r.users, u.userId ≠ userId → ∀ d ∈ u.devices, d.endpointId ≠ endpoint) ∧
        endpoint ∉ r.revokedEndpoints ∧
        (upsertMember userId displayName userPk groups endpoint label).apply r =
          ({ r with
              groups := pushAllNew r.groups groups
              users :=
                if r.users.any (·.userId = userId) then
                  modifyFirst (·.userId = userId)
                    (upsertUser displayName userPk groups (newDevice endpoint label)) r.users
                else
                  r.users ++ [newUser userId displayName userPk groups (newDevice endpoint label)]
              sig := "" }, .ok ())) := by
  unfold upsertMember
  rw [Action.apply_get]
  by_cases hid : userId ∈ r.groups ∨ userId ∈ groups
  · exact .inl ⟨.userIdIsGroup userId, by
      rw [if_pos (by simpa using hid), Action.apply_throw_bind]⟩
  rw [if_neg (by simpa using hid)]
  cases hg : groups.find? fun g => r.users.any fun u => u.userId ≠ userId && u.userId = g with
  | some g => exact .inl ⟨.groupIsUserId g, rfl⟩
  | none =>
      dsimp only
      by_cases hother : belongsToAnother r userId endpoint = true
      · exact .inl ⟨.endpointBelongsToAnotherUser endpoint, by
          rw [if_pos hother, Action.apply_throw_bind]⟩
      by_cases hrev : endpoint ∈ r.revokedEndpoints
      · exact .inl ⟨.endpointRevoked endpoint, by
          rw [if_neg hother, if_pos hrev, Action.apply_throw_bind]⟩
      rw [if_neg hother, if_neg hrev, Action.apply_modify_bind]
      refine .inr ⟨not_or.mp hid, ?_, ?_, hrev, ?_⟩
      · intro g hg' u hu hne heq
        have hnone := List.find?_eq_none.mp hg g hg'
        simp only [List.any_eq_true, not_exists, not_and] at hnone
        exact hnone u hu (by rw [decide_eq_true hne, decide_eq_true heq]; rfl)
      · intro u hu hne d hd heq
        apply hother
        simp only [belongsToAnother, List.any_eq_true]
        exact ⟨u, hu, by simpa [hne] using ⟨d, hd, heq⟩⟩
      · split
        · rfl
        · rfl

/-- A revoked device loses its row, and its endpoint is on the revocation list. -/
theorem revokeDevice_apply {userId label : String} {r : Roster} {user : RosterUser}
    {dev : RosterDevice} (huser : r.users.find? (·.userId = userId) = some user)
    (hdev : user.devices.find? (·.label = label) = some dev) :
    (revokeDevice userId label).apply r =
      ({ r with
          users := modifyFirst (·.userId = userId)
            (fun u => { u with devices := u.devices.eraseP (·.label = label) }) r.users
          revokedEndpoints := pushNew r.revokedEndpoints dev.endpointId
          sig := "" }, .ok ()) := by
  rw [revokeDevice, Action.apply_get, huser]
  dsimp only
  rw [hdev]
  rfl

/-- A revoke of a device is refused, or its user has it. -/
theorem revokeDevice_cases (userId label : String) (r : Roster) :
    (∃ e, (revokeDevice userId label).apply r = (r, .error e)) ∨
      ∃ user dev, r.users.find? (·.userId = userId) = some user ∧
        user.devices.find? (·.label = label) = some dev := by
  cases huser : r.users.find? (·.userId = userId) with
  | none =>
      refine .inl ⟨.noSuchPerson userId, ?_⟩
      rw [revokeDevice, Action.apply_get, huser]
      rfl
  | some user =>
      cases hdev : user.devices.find? (·.label = label) with
      | none =>
          refine .inl ⟨.noSuchDevice userId label, ?_⟩
          rw [revokeDevice, Action.apply_get, huser]
          dsimp only
          rw [hdev]
          rfl
      | some dev => exact .inr ⟨user, dev, rfl, hdev⟩

/-- A user that is removed loses his row and leaves every group; his endpoints are
revoked where this is asked for. -/
theorem removeUser_apply {userId : String} {revokeEndpoints : Bool} {r : Roster}
    {user : RosterUser} (huser : r.users.find? (·.userId = userId) = some user) :
    (removeUser userId revokeEndpoints).apply r =
      ({ r with
          users := r.users.eraseP (·.userId = userId)
          revokedEndpoints :=
            if revokeEndpoints then
              pushAllNew r.revokedEndpoints (user.devices.map (·.endpointId))
            else r.revokedEndpoints
          sig := "" }, .ok ()) := by
  rw [removeUser, Action.apply_get, huser]
  cases revokeEndpoints with
  | false => rfl
  | true => rfl

/-- A removal is refused, or the user is there. -/
theorem removeUser_cases (userId : String) (revokeEndpoints : Bool) (r : Roster) :
    (∃ e, (removeUser userId revokeEndpoints).apply r = (r, .error e)) ∨
      ∃ user, r.users.find? (·.userId = userId) = some user := by
  cases huser : r.users.find? (·.userId = userId) with
  | none =>
      refine .inl ⟨.noSuchPerson userId, ?_⟩
      rw [removeUser, Action.apply_get, huser]
      rfl
  | some user => exact .inr ⟨user, rfl⟩

end Edits

end Mcpmesh
