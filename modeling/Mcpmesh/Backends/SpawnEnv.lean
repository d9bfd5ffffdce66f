import Mcpmesh.Backends.Identity
import Mcpmesh.Lib.ProcessEnv

/-!
# Mcpmesh.Backends.SpawnEnv

The caller's identity on the child of a run backend
(`node/src/backends/spawn.rs`).

A service definition may set variables for its child, but none that begins with
`MCPMESH_` in any case; the identity of the caller is set over what is left, and
what it lacks is removed.  `MCPMESH_PEER_GROUPS` joins the groups with commas,
and a roster may name a group with a comma: two callers whose groups join alike
are one caller to the child.
-/

namespace Mcpmesh

open Lib

/-! ## the environment of a child -/

/-- What a service definition may not set. -/
def reservedVar (name : String) : Bool := "MCPMESH_".toList.isPrefixOf (asciiCaps name)

/-- `run_over` sets the identity of the caller, or removes what may be there. -/
def injectIdentity (o : NameOrder) (identity : Option PeerIdentity) (command : CommandEnv) :
    CommandEnv :=
  match identity with
  | some id =>
      let command := command.env o "MCPMESH_PEER_NAME" id.name
      let command := match id.userId with
        | some user => command.env o "MCPMESH_PEER_USER" user
        | none => command.envRemove o "MCPMESH_PEER_USER"
      let command := command.env o "MCPMESH_PEER_GROUPS" (",".intercalate id.groups)
      command.env o "MCPMESH_PEER_EID" (principal id.endpoint)
  | none =>
      let command := command.envRemove o "MCPMESH_PEER_NAME"
      let command := command.envRemove o "MCPMESH_PEER_USER"
      let command := command.envRemove o "MCPMESH_PEER_GROUPS"
      command.envRemove o "MCPMESH_PEER_EID"

/-- The environment of `SpawnBackend::run_over`: that of the service, then the
identity. -/
def spawnEnv (o : NameOrder) (env : List (String × String)) (identity : Option PeerIdentity) :
    CommandEnv :=
  injectIdentity o identity (CommandEnv.new.envs o (env.filter fun var => !reservedVar var.1))

/-- A variable of the child, by the platform's comparison of names. -/
def childVar (o : NameOrder) (inherited : List Char → Option String) (env : List (String × String))
    (identity : Option PeerIdentity) (name : String) : Option String :=
  (spawnEnv o env identity).var o inherited name

def peerVars : List String :=
  ["MCPMESH_PEER_EID", "MCPMESH_PEER_NAME", "MCPMESH_PEER_USER", "MCPMESH_PEER_GROUPS"]

/-- What the identity says of its variable. -/
def peerVar (identity : Option PeerIdentity) (name : String) : Option String :=
  identity.bind fun id =>
    if name = "MCPMESH_PEER_EID" then some (principal id.endpoint)
    else if name = "MCPMESH_PEER_NAME" then some id.name
    else if name = "MCPMESH_PEER_USER" then id.userId
    else if name = "MCPMESH_PEER_GROUPS" then some (",".intercalate id.groups)
    else none

section Env

variable {o : NameOrder} {inherited : List Char → Option String} {env : List (String × String)}
  {identity : Option PeerIdentity} {name name' : String}

/-- The four names are their own keys on every platform. -/
theorem key_peerVars (h : name ∈ peerVars) : o.key name = name.toList := by
  have hall : ∀ name ∈ peerVars, name.toList.all (·.toNat < 128) = true ∧
      asciiCaps name = name.toList := by decide +kernel
  obtain ⟨hascii, hcaps⟩ := hall name h
  exact key_of_caps (fun c hc => of_decide_eq_true (List.all_eq_true.mp hascii c hc)) hcaps

/-- A name that the service may set is no reserved one, as the platform compares
them. -/
theorem key_ne_of_reserved (hname : reservedVar name = true) (hname' : reservedVar name' = false) :
    o.key name ≠ o.key name' := by
  intro hkey
  have hascii : "MCPMESH_".toList.all (·.toNat < 128) = true := by decide +kernel
  have hboth := asciiCaps_of_key_eq
    (fun c hc => of_decide_eq_true (List.all_eq_true.mp hascii c hc)) hkey
  rw [← List.isPrefixOf_iff_prefix, ← List.isPrefixOf_iff_prefix] at hboth
  have hsame : reservedVar name = reservedVar name' := Bool.eq_iff_iff.mpr hboth
  rw [hname, hname'] at hsame
  cases hsame

theorem envs_of_reserved (h : reservedVar name = true) :
    CommandEnv.new.envs o (env.filter fun var => !reservedVar var.1) (o.key name) = none := by
  refine CommandEnv.envs_of_ne fun var hvar => key_ne_of_reserved h ?_
  simpa using (List.mem_filter.mp hvar).2

/-- What the identity leaves of a variable depends on what was there. -/
theorem injectIdentity_congr {command command' : CommandEnv} {key : List Char}
    (h : command key = command' key) :
    injectIdentity o identity command key = injectIdentity o identity command' key := by
  cases identity with
  | none => simp [injectIdentity, CommandEnv.envRemove_apply, h]
  | some id =>
      cases huser : id.userId <;>
        simp [injectIdentity, CommandEnv.env_apply, CommandEnv.envRemove_apply, h, huser]

/-- No service definition changes a reserved variable. -/
theorem childVar_of_reserved (h : reservedVar name = true) (env env' : List (String × String)) :
    childVar o inherited env identity name = childVar o inherited env' identity name := by
  have hsame : spawnEnv o env identity (o.key name) = spawnEnv o env' identity (o.key name) :=
    injectIdentity_congr ((envs_of_reserved h).trans (envs_of_reserved h).symm)
  rw [childVar, childVar, CommandEnv.var, CommandEnv.var, hsame]

/-- The four variables are what the identity says of them, and removed where it
says nothing. -/
theorem injectIdentity_peer (command : CommandEnv) (h : name ∈ peerVars) :
    injectIdentity o identity command (o.key name) = some (peerVar identity name) := by
  have hkey : ∀ name ∈ peerVars, o.key name = name.toList := fun _ => key_peerVars
  simp only [peerVars, List.forall_mem_cons, List.not_mem_nil, false_implies, implies_true,
    and_true] at hkey
  obtain ⟨heid, hname, huser, hgroups⟩ := hkey
  simp only [peerVars, List.mem_cons, List.not_mem_nil, or_false] at h
  cases identity with
  | none =>
      rcases h with rfl | rfl | rfl | rfl <;>
        simp [injectIdentity, CommandEnv.envRemove_apply, heid, hname, huser, hgroups, peerVar]
  | some id =>
      cases huserId : id.userId <;> rcases h with rfl | rfl | rfl | rfl <;>
        simp [injectIdentity, CommandEnv.env_apply, CommandEnv.envRemove_apply, heid, hname, huser,
          hgroups, peerVar, huserId]

theorem childVar_peer (h : name ∈ peerVars) :
    childVar o inherited env identity name = peerVar identity name := by
  rw [childVar, CommandEnv.var, spawnEnv, injectIdentity_peer _ h, Option.getD_some]

end Env

/-! ## what the child can tell apart -/

/-- Groups that a join by commas keeps apart: no name has a comma, and they are
not the empty name alone, which joins as no group does. -/
structure PlainGroups (groups : List String) : Prop where
  noComma : ∀ g ∈ groups, ',' ∉ g.toList
  notEmptyName : groups ≠ [""]

theorem PlainGroups.intercalate_inj {gs gs' : List String} (h : PlainGroups gs)
    (h' : PlainGroups gs') (heq : ",".intercalate gs = ",".intercalate gs') : gs = gs' := by
  have hsplit := String.toList_split_intercalate h.noComma
  have hsplit' := String.toList_split_intercalate h'.noComma
  have hcomma : String.singleton ',' = "," := by decide
  rw [hcomma, heq, ← hcomma, hsplit'] at hsplit
  by_cases hnil : gs = []
  · by_cases hnil' : gs' = []
    · rw [hnil, hnil']
    · rw [if_neg hnil', if_pos hnil] at hsplit
      exact absurd hsplit h'.notEmptyName
  · by_cases hnil' : gs' = []
    · rw [if_pos hnil', if_neg hnil] at hsplit
      exact absurd hsplit.symm h.notEmptyName
    · rw [if_neg hnil', if_neg hnil] at hsplit
      exact hsplit.symm

/-- What two callers have in common whose variables are the same. -/
theorem same_peerVars {id id' : PeerIdentity}
    (h : ∀ name ∈ peerVars, peerVar (some id) name = peerVar (some id') name) :
    id.endpoint = id'.endpoint ∧ id.name = id'.name ∧ id.userId = id'.userId ∧
      ",".intercalate id.groups = ",".intercalate id'.groups := by
  simp only [peerVars, List.forall_mem_cons, List.not_mem_nil, false_implies, implies_true,
    and_true] at h
  obtain ⟨heid, hname, huser, hgroups⟩ := h
  refine ⟨principal_injective ?_, ?_, ?_, ?_⟩
  · simpa [peerVar] using heid
  · simpa [peerVar] using hname
  · simpa [peerVar] using huser
  · simpa [peerVar] using hgroups

/-- The identity of a run backend's child. -/
theorem child_identity (o : NameOrder) :
    (∀ inherited env identity, ∀ name ∈ peerVars,
      childVar o inherited env identity name = peerVar identity name) ∧
    (∀ inherited env env' identity name, reservedVar name = true →
      childVar o inherited env identity name = childVar o inherited env' identity name) ∧
    (∀ inherited env id, id.userId = none →
      childVar o inherited env (some id) "MCPMESH_PEER_USER" = none) ∧
    ∀ inherited inherited' env env' id id',
      (∀ name ∈ peerVars,
        childVar o inherited env (some id) name = childVar o inherited' env' (some id') name) →
      (id.endpoint = id'.endpoint ∧ id.userId = id'.userId) ∧
        (PlainGroups id.groups → PlainGroups id'.groups →
          id.groups = id'.groups ∧ peerMetaValue id = peerMetaValue id') := by
  have huser : "MCPMESH_PEER_USER" ∈ peerVars := by decide
  refine ⟨fun _ _ _ _ => childVar_peer, fun _ env env' _ _ h => childVar_of_reserved h env env',
    fun inherited env id hnone => ?_, fun inherited inherited' env env' id id' h => ?_⟩
  · rw [childVar_peer huser]
    simpa [peerVar] using hnone
  · have hsame : ∀ name ∈ peerVars, peerVar (some id) name = peerVar (some id') name := by
      intro name hmem
      have hchild := h name hmem
      rwa [childVar_peer hmem, childVar_peer hmem] at hchild
    obtain ⟨heid, hname, huserId, hjoined⟩ := same_peerVars hsame
    refine ⟨⟨heid, huserId⟩, fun hplain hplain' => ?_⟩
    have hgroups := hplain.intercalate_inj hplain' hjoined
    refine ⟨hgroups, ?_⟩
    rw [peerMetaValue, peerMetaValue, heid, hname, huserId, hgroups]

/-- A service definition that spells the name in another case, where the platform
ignores it. -/
theorem child_identity_example :
    childVar (.ignoreCase .asciiOnly) (fun _ => none)
      [("mcpmesh_peer_user", "root"), ("Mcpmesh_Peer_Name", "admin")] none "MCPMESH_PEER_USER" =
        none ∧
      childVar (.ignoreCase .asciiOnly) (fun _ => some "root")
        [("mcpmesh_peer_user", "root")] none "MCPMESH_PEER_USER" = none := by
  obtain ⟨hpeer, -⟩ := child_identity (.ignoreCase .asciiOnly)
  have hmem : "MCPMESH_PEER_USER" ∈ peerVars := by decide
  exact ⟨hpeer _ _ _ _ hmem, hpeer _ _ _ _ hmem⟩

/-! ## a group named with a comma -/

namespace CommaGroups

def user (groups : List String) : RosterUser :=
  { userId := "alice", displayName := "Alice", userPk := "", groups
    devices := [{ endpointId := Instance.b64u RosterNames.caller.toList, label := "laptop",
                  role := "primary" }] }

/-- An org with the groups `a`, `b` and `a,b`, and Alice in some of them. -/
def org (groups : List String) : Roster :=
  { Instance.roster "acme" 1 0 with groups := ["a", "b", "a,b"], users := [user groups] }

def alice (groups : List String) : PeerIdentity :=
  { endpoint := RosterNames.caller, name := "alice", userId := some "alice", groups }

theorem decides {groups : List String} {view : RosterView}
    (h : buildView RosterNames.P (org groups) 1000 = .ok view) :
    RosterDecides RosterNames.P (RosterNames.gate view) (org groups) 0 RosterNames.caller
      (user groups) where
  listed := ⟨_, List.mem_cons_self, List.mem_cons_self, decodeEndpointId_encodeB64u _ _⟩
  kept := fun ⟨_, he, _⟩ => absurd he List.not_mem_nil
  running := by
    have hexpires := (buildView_eq_ok h).2.2.1
    simp [RosterNames.gate, RosterGate.effectiveState, RosterView.effectiveState,
      RosterView.state, hexpires, RosterView.staleness, RosterState.severity]
  admissible := rfl
  unrevoked := by
    simp [ComposedGate.rosterIdentityRevoked, PeerStore.isRosterUserRevoked,
      PeerStore.isUserRevoked, RosterNames.gate, RosterNames.pairs]

/-- The gate of a roster that `build_view` accepts returns Alice. -/
theorem resolved {groups : List String}
    (hok : (buildView RosterNames.P (org groups) 1000).isOk = true) :
    ∃ view, buildView RosterNames.P (org groups) 1000 = .ok view ∧
      (RosterNames.gate view).resolve 0 RosterNames.caller = some (alice groups) := by
  obtain ⟨view, hbuilt⟩ := isOk_iff.mp hok
  exact ⟨view, hbuilt, resolve_of_rosterDecides rfl ⟨1000, hbuilt⟩ (decides hbuilt)⟩

end CommaGroups

/-- Alice in the groups `a` and `b` is Alice in the group `a,b` to every child,
and not to a socket backend. -/
theorem comma_group_is_two_groups :
    ∃ view view' id id',
      buildView RosterNames.P (CommaGroups.org ["a", "b"]) 1000 = .ok view ∧
      (RosterNames.gate view).resolve 0 RosterNames.caller = some id ∧
      buildView RosterNames.P (CommaGroups.org ["a,b"]) 1000 = .ok view' ∧
      (RosterNames.gate view').resolve 0 RosterNames.caller = some id' ∧
      id.groups.toFinset ≠ id'.groups.toFinset ∧ peerMetaValue id ≠ peerMetaValue id' ∧
      ∀ o inherited env, ∀ name ∈ peerVars,
        childVar o inherited env (some id) name = childVar o inherited env (some id') name := by
  obtain ⟨view, hbuilt, hresolve⟩ := @CommaGroups.resolved ["a", "b"] (by decide +kernel)
  obtain ⟨view', hbuilt', hresolve'⟩ := @CommaGroups.resolved ["a,b"] (by decide +kernel)
  refine ⟨view, view', _, _, hbuilt, hresolve, hbuilt', hresolve', by decide, ?_, ?_⟩
  · intro hsame
    simp [peerMetaValue, CommaGroups.alice] at hsame
  · intro o inherited env name hname
    have hvars : ∀ name ∈ peerVars, peerVar (some (CommaGroups.alice ["a", "b"])) name =
        peerVar (some (CommaGroups.alice ["a,b"])) name := by
      intro name _
      rfl
    rw [childVar_peer hname, childVar_peer hname, hvars name hname]

end Mcpmesh
