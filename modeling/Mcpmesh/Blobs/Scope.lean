import Mcpmesh.Lib.FinMap
import Mathlib.Data.Finset.SDiff

/-!
# Mcpmesh.Blobs.Scope

The table of blob scopes (`Scope`, `BlobScopes` of `node/src/blobs/scope.rs`): a
scope lists hashes, grants principals, and remembers the hashes withdrawn from
it.

A scope that is not in the table lists, grants and withdraws nothing, so every
mutator is described by the scopes it leaves, absent ones read as empty
(`orDefault`).
-/

namespace Mcpmesh

open Lib

structure Scope where
  hashes : Finset String
  grants : Finset String
  withdrawn : Finset String
  deriving DecidableEq

namespace Scope

/-- `Scope::default`. -/
def empty : Scope := ⟨∅, ∅, ∅⟩

/-- A publication clears a withdrawal. -/
def publish (sc : Scope) (hash : String) : Scope :=
  { sc with withdrawn := sc.withdrawn.erase hash, hashes := insert hash sc.hashes }

/-- A withdrawal is recorded even of a hash that is not listed. -/
def unpublish (sc : Scope) (hash : String) : Scope :=
  { sc with withdrawn := insert hash sc.withdrawn, hashes := sc.hashes.erase hash }

/-- Remove the principals one after the other, and say whether one was there. -/
def revoke (sc : Scope) (principals : List String) : Bool × Scope :=
  principals.foldl
    (fun (changed, sc) p => (changed || p ∈ sc.grants, { sc with grants := sc.grants.erase p }))
    (false, sc)

/-- A revoke reports whether one of the principals was granted, and leaves none of them.
-/
theorem revoke_eq (sc : Scope) (principals : List String) :
    sc.revoke principals =
      (decide (∃ p ∈ principals, p ∈ sc.grants),
        { sc with grants := sc.grants \ principals.toFinset }) := by
  have hfold : ∀ (changed : Bool) (sc : Scope), principals.foldl
      (fun (changed, sc) p => (changed || p ∈ sc.grants, { sc with grants := sc.grants.erase p }))
      (changed, sc) = (changed || decide (∃ p ∈ principals, p ∈ sc.grants),
        { sc with grants := sc.grants \ principals.toFinset }) := by
    induction principals with
    | nil => simp
    | cons p ps ih =>
        intro changed sc
        rw [List.foldl_cons, ih, List.toFinset_cons, Finset.sdiff_insert]
        congr 1
        · by_cases hp : p ∈ sc.grants
          · simp [hp]
          · simp [hp]
        · rw [Finset.erase_sdiff_comm]
  rw [revoke, hfold, Bool.false_or]

end Scope

/-- The table, by the names of the scopes. -/
@[ext] structure BlobScopes where
  scopes : Finmap fun _ : String => Scope
  deriving DecidableEq

namespace BlobScopes

def empty : BlobScopes := ⟨∅⟩

def isEmpty (t : BlobScopes) : Bool := t.scopes = ∅

def get (t : BlobScopes) (scope : String) : Option Scope := t.scopes.lookup scope

def put (t : BlobScopes) (scope : String) (sc : Scope) : BlobScopes := ⟨t.scopes.insert scope sc⟩

def orDefault (t : BlobScopes) (scope : String) : Scope := (t.get scope).getD .empty

/-- `BlobScopes::publish_hash`. -/
def publishHash (t : BlobScopes) (scope hash : String) : BlobScopes :=
  t.put scope ((t.orDefault scope).publish hash)

/-- `BlobScopes::grant`. -/
def grant (t : BlobScopes) (scope principal : String) : BlobScopes :=
  let sc := t.orDefault scope
  t.put scope { sc with grants := insert principal sc.grants }

/-- `BlobScopes::revoke_principals`: from every scope. -/
def revokePrincipals (t : BlobScopes) (principals : List String) : Bool × BlobScopes :=
  (anyValue (fun sc => (sc.revoke principals).1) t.scopes,
    ⟨mapValues (fun sc => (sc.revoke principals).2) t.scopes⟩)

/-- `BlobScopes::revoke_from_scope`. -/
def revokeFromScope (t : BlobScopes) (scope : String) (principals : List String) :
    Bool × BlobScopes :=
  match t.get scope with
  | none => (false, t)
  | some sc =>
      let (changed, sc) := sc.revoke principals
      (changed, t.put scope sc)

/-- `BlobScopes::unpublish_hash`. -/
def unpublishHash (t : BlobScopes) (scope hash : String) : Bool × BlobScopes :=
  match t.get scope with
  | none => (false, t)
  | some sc => (hash ∈ sc.hashes, t.put scope (sc.unpublish hash))

/-- `BlobScopes::is_withdrawn`. -/
def isWithdrawn (t : BlobScopes) (scope hash : String) : Bool :=
  (t.get scope).any fun sc => hash ∈ sc.withdrawn

/-- `BlobScopes::has_scope`. -/
def hasScope (t : BlobScopes) (scope : String) : Bool := (t.get scope).isSome

/-- `BlobScopes::allows`: some scope lists the hash, has not withdrawn it, and
grants one of the principals. -/
def allows (t : BlobScopes) (hash : String) (principals : Finset String) : Bool :=
  anyValue (fun sc =>
    hash ∉ sc.withdrawn && hash ∈ sc.hashes && decide (∃ g ∈ sc.grants, g ∈ principals)) t.scopes

/-! ## what the mutators leave -/

section Leave

variable {t t' : BlobScopes} {scope hash principal s : String} {principals : List String}

/-- A table is what it has for each scope. -/
theorem ext_get (h : ∀ scope, t.get scope = t'.get scope) : t = t' :=
  BlobScopes.ext (Finmap.ext_lookup h)

/-- A put replaces one scope. -/
theorem get_put {sc : Scope} :
    (t.put scope sc).get s = if s = scope then some sc else t.get s :=
  lookup_insert_eq_ite t.scopes

/-- A put replaces one scope, those that are absent counted as empty. -/
theorem orDefault_put {sc : Scope} :
    (t.put scope sc).orDefault s = if s = scope then sc else t.orDefault s := by
  rw [orDefault, get_put]
  split <;> rfl

theorem orDefault_of_get {sc : Scope} (h : t.get s = some sc) : t.orDefault s = sc := by
  rw [orDefault, h, Option.getD_some]

/-- A scope that is absent counts as empty. -/
theorem orDefault_of_not_hasScope (h : t.hasScope s = false) : t.orDefault s = .empty := by
  rw [orDefault, Option.isSome_eq_false_iff.mp h |> Option.isNone_iff_eq_none.mp, Option.getD_none]

/-- A hash is withdrawn from a scope that is there and says so. -/
theorem isWithdrawn_iff : t.isWithdrawn s hash = true ↔ hash ∈ (t.orDefault s).withdrawn := by
  rw [isWithdrawn, orDefault]
  cases t.get s with
  | none => simp [Scope.empty]
  | some sc => simp

/-- A blob is served to whoever a scope grants that publishes it and has not withdrawn
it. -/
theorem allows_iff {principals : Finset String} : t.allows hash principals = true ↔
    ∃ s, hash ∉ (t.orDefault s).withdrawn ∧ hash ∈ (t.orDefault s).hashes ∧
      ∃ g ∈ (t.orDefault s).grants, g ∈ principals := by
  rw [allows, anyValue_iff]
  refine exists_congr fun s => ?_
  constructor
  · rintro ⟨sc, hget, h⟩
    rw [orDefault_of_get hget]
    simpa [and_assoc] using h
  · rintro ⟨hwithdrawn, hlisted, hgranted⟩
    cases hget : t.get s with
    | none => simp [orDefault, hget, Scope.empty] at hlisted
    | some sc =>
        rw [orDefault_of_get hget] at hwithdrawn hlisted hgranted
        exact ⟨sc, hget, by simp [hwithdrawn, hlisted, hgranted]⟩

/-- A publish adds the hash to its scope, and lifts its withdrawal there. -/
theorem orDefault_publishHash : (t.publishHash scope hash).orDefault s =
    if s = scope then (t.orDefault s).publish hash else t.orDefault s := by
  rw [publishHash, orDefault_put]
  split
  · next h => rw [h]
  · rfl

/-- A grant adds the principal to its scope. -/
theorem orDefault_grant : (t.grant scope principal).orDefault s =
    if s = scope then { t.orDefault s with grants := insert principal (t.orDefault s).grants }
    else t.orDefault s := by
  rw [grant, orDefault_put]
  split
  · next h => rw [h]
  · rfl

/-- A revoke takes the principals out of every scope. -/
theorem orDefault_revokePrincipals : (t.revokePrincipals principals).2.orDefault s =
    { t.orDefault s with grants := (t.orDefault s).grants \ principals.toFinset } := by
  rw [revokePrincipals, orDefault, get, lookup_mapValues, orDefault, get]
  cases t.scopes.lookup s with
  | none => rw [Option.map_none, Option.getD_none, Scope.empty, Finset.empty_sdiff]
  | some sc => rw [Option.map_some, Option.getD_some, Scope.revoke_eq, Option.getD_some]

/-- Something changes exactly when some scope grants one of the principals. -/
theorem revokePrincipals_changed : (t.revokePrincipals principals).1 = true ↔
    ∃ s, ∃ p ∈ principals, p ∈ (t.orDefault s).grants := by
  rw [revokePrincipals, anyValue_iff]
  refine exists_congr fun s => ?_
  rw [orDefault, get]
  cases t.scopes.lookup s with
  | none => simp [Scope.empty]
  | some sc => simp [Scope.revoke_eq]

/-- A revoke from one scope takes them out of this one. -/
theorem orDefault_revokeFromScope : (t.revokeFromScope scope principals).2.orDefault s =
    if s = scope then
      { t.orDefault s with grants := (t.orDefault s).grants \ principals.toFinset }
    else t.orDefault s := by
  rw [revokeFromScope]
  split
  · next hget =>
    split
    · next h =>
      rw [h, orDefault, hget, Option.getD_none, Scope.empty, Finset.empty_sdiff]
    · rfl
  · next sc hget =>
    rw [Scope.revoke_eq, orDefault_put]
    split
    · next h => rw [h, orDefault_of_get hget]
    · rfl

/-- A scope that is not there is not created, and remembers nothing. -/
theorem orDefault_unpublishHash : (t.unpublishHash scope hash).2.orDefault s =
    if s = scope ∧ t.hasScope scope = true then (t.orDefault s).unpublish hash
    else t.orDefault s := by
  rw [unpublishHash, hasScope]
  split
  · next hget =>
    rw [hget, Option.isSome_none, if_neg (fun h => Bool.false_ne_true h.2)]
  · next sc hget =>
    rw [hget, Option.isSome_some, orDefault_put]
    simp only [and_true]
    split
    · next h => rw [h, orDefault_of_get hget]
    · rfl

end Leave

/-! ## which scopes are there -/

section There

variable {t : BlobScopes} {scope hash principal s : String} {principals : List String}

/-- A scope that is there stays. -/
theorem hasScope_put {sc : Scope} (h : t.hasScope s = true) :
    (t.put scope sc).hasScope s = true := by
  rw [hasScope, get_put]
  split
  · rfl
  · exact h

theorem hasScope_revokePrincipals :
    (t.revokePrincipals principals).2.hasScope s = t.hasScope s := by
  rw [hasScope, get, revokePrincipals, lookup_mapValues, Option.isSome_map, hasScope, get]

theorem hasScope_revokeFromScope (h : t.hasScope s = true) :
    (t.revokeFromScope scope principals).2.hasScope s = true := by
  rw [revokeFromScope]
  split
  · exact h
  · exact hasScope_put h

theorem hasScope_unpublishHash (h : t.hasScope s = true) :
    (t.unpublishHash scope hash).2.hasScope s = true := by
  rw [unpublishHash]
  split
  · exact h
  · exact hasScope_put h

end There

end BlobScopes

end Mcpmesh
