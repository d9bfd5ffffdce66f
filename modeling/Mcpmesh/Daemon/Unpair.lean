import Mcpmesh.Blobs.ScopeStore
import Mcpmesh.Daemon.Withdrawal
import Mcpmesh.Pairing.Introduce

/-!
# Mcpmesh.Daemon.Unpair

`remove_peer` (`node/src/daemon/handlers.rs`): the removal of every row of a
name, with what was granted to it.

A principal is granted in four places: the allow lists of the config file, of
the ephemeral overlay and of the live registry, and the grants of the blob
scopes.  The removal resolves what to strip twice.  For the services an identity
stays while a *paired* row of another name carries it, for the scopes while *any*
row does; and the services are stripped in the file, never in the overlay.
-/

namespace Mcpmesh

open Lib

/-! ## the node -/

/-- What pairing, the grants and the removal work on. -/
structure TrustNode where
  services : ServiceNode
  store : PairDb
  /-- the blob provider, of a node in roster mode -/
  appBlobs : Option ScopeStore

/-- A step of the service verbs, a write of the pair store, or a call of the blob
provider; `remove` is the last write of a removal. -/
inductive TrustEvent where
  | service (event : ServiceEvent)
  | pair (call : PairCall)
  | introduce (own : EndpointId) (i : Introduction)
  | openBlobs (provider : ScopeStore)
  | blob (call : ScopeCall) (committed : Bool)
  | remove (nickname : String)

/-- A node without a peer. -/
def TrustNode.start (file : ConfigFile) (revoked : List (EndpointId × List UInt8))
    (revokedUsers : List (String × List UInt8)) (appBlobs : Option ScopeStore) : TrustNode where
  services := .start file
  store := { peers := [], revoked, revokedUsers }
  appBlobs

section Unpair

variable (P : Primitives) (J : PeerJson)

/-- One step; `none` where it cannot be taken. -/
def trustStep (m : TrustNode) : TrustEvent → Option TrustNode
  | .service event => (serviceStep m.services event).map fun services => { m with services }
  | .pair call => some { m with store := (pairStep P J m.store call).1 }
  | .introduce own i =>
      match introducePeer P J own m.store i with
      | .ok store => some { m with store }
      | .error _ => none
  | .openBlobs provider =>
      match m.appBlobs with
      | none => some { m with appBlobs := some provider }
      | some _ => none
  | .blob call committed =>
      m.appBlobs.map fun provider =>
        { m with appBlobs := some (provider.call committed call).2 }
  | .remove nickname => some { m with store := (m.store.remove J nickname).1 }

/-! ## the removal -/

/-- The device of a target, and its identity unless another row `keeps` it. -/
def pushPrincipals (keeps : PeerEntry → Bool) (others : List PeerEntry) (principals : List String)
    (target : PeerEntry) : List String :=
  let principals := principals ++ [principal target.endpointId]
  match target.userId with
  | some userId =>
      if others.any (fun o => o.userId = some userId && keeps o) || userId ∈ principals then
        principals
      else principals ++ [userId]
  | none => principals

def resolvedPrincipals (keeps : PeerEntry → Bool) (targets others : List PeerEntry) :
    List String :=
  targets.foldl (pushPrincipals keeps others) []

/-- What `revoke_service_access` resolves: only a paired row shares an identity. -/
def accessPrincipals : List PeerEntry → List PeerEntry → List String :=
  resolvedPrincipals (·.pairedAt.isSome)

/-- What `remove_peer` resolves for the scopes: any row shares it. -/
def blobPrincipals : List PeerEntry → List PeerEntry → List String :=
  resolvedPrincipals fun _ => true

/-- `revoke_service_access`: the section of the call `i`, with no step failing. -/
def revokeServiceAccess (i : Nat) (principals : List String) (ptr : Option Nat)
    (endpoints : EndpointId → Bool) : List ServiceEvent :=
  [.call i (.revokeServiceAccess principals), .acquire i true none, .check i true] ++
    if principals.isEmpty then []
    else [.read i true, .write i true, .resume i ptr, .sever i true endpoints]

/-- `AppBlobs::revoke_principals`, where there is one to revoke. -/
def revokeBlobs (principals : List String) (provider : ScopeStore) : ScopeStore :=
  if principals.isEmpty then provider else (provider.revokePrincipals true principals).2

/-- `remove_peer`, with no step failing; `none` where its section cannot run. -/
def TrustNode.removePeer (m : TrustNode) (nickname : String) (i : Nat) (ptr : Option Nat)
    (endpoints : EndpointId → Bool) : Option (Except String TrustNode) :=
  let (targets, others) := (m.store.list J).partition fun e => e.nickname = nickname
  let principals := accessPrincipals targets others
  (run serviceStep m.services (revokeServiceAccess i principals ptr endpoints)).map
    fun services =>
      let revoked := (removeAllowFromConfig principals m.services.file).isSome
      let appBlobs := m.appBlobs.map (revokeBlobs (blobPrincipals targets others))
      let (store, removed) := m.store.remove J nickname
      if !revoked && !removed then
        .error ("no paired peer named '" ++ nickname ++ "' — 'mcpmesh status' lists your peers")
      else .ok { services, store, appBlobs }

/-! ## the law -/

/-- Where a principal is granted. -/
inductive Place where
  | file (service : String)
  | overlay (service : String)
  | live (service : String)
  | scope (name : String)

/-- A place of the node lists a principal. -/
def TrustNode.Lists (m : TrustNode) : Place → String → Prop
  | .file service, p => p ∈ m.services.file.allow service
  | .overlay service, p => p ∈ ephemeralAllow m.services.overlay service
  | .live service, p => m.services.serve.Grants service p
  | .scope name, p =>
      ∃ provider, m.appBlobs = some provider ∧ p ∈ (provider.inner.orDefault name).grants

/-- An allow entry in neither form of a principal: a group, or a roster user. -/
def Bare (entry : String) : Prop := principalPrefixes.any (startsWith entry) = false

variable (m m' : TrustNode) (nickname : String)

/-- The device of a row of the name. -/
def TrustNode.DeviceOf (p : String) : Prop :=
  ∃ e ∈ m.store.list J, e.nickname = nickname ∧ p = principal e.endpointId

/-- The identity of a row of the name. -/
def TrustNode.IdentityOf (p : String) : Prop :=
  ∃ e ∈ m.store.list J, e.nickname = nickname ∧ e.userId = some p

/-- A row of another name, which was paired, carries the identity. -/
def TrustNode.StillPaired (p : String) : Prop :=
  ∃ e ∈ m.store.list J, e.nickname ≠ nickname ∧ e.userId = some p ∧ e.pairedAt.isSome = true

/-- A row of another name has the principal, as its device or as its identity. -/
def TrustNode.PrincipalOfOther (p : String) : Prop :=
  ∃ e ∈ m.store.list J, e.nickname ≠ nickname ∧ (p = principal e.endpointId ∨ e.userId = some p)

/-- The principals that go with the rows of the name. -/
def TrustNode.Withdrawn (p : String) : Prop :=
  m.DeviceOf J nickname p ∨ m.IdentityOf J nickname p ∧ ¬ m.StillPaired J nickname p

/-- The principals that have to stay: what is bare, and what a row of another
name has, but for the identity that goes. -/
def TrustNode.Stays (p : String) : Prop :=
  Bare p ∨ m.PrincipalOfOther J nickname p ∧
    ¬ (m.IdentityOf J nickname p ∧ ¬ m.StillPaired J nickname p)

/-- **The removal is the inverse of the grants**: what goes with the rows is
listed nowhere, what has to stay is still listed wherever it was. -/
structure Unpaired : Prop where
  rows : ∀ e, e ∈ m'.store.list J ↔ e ∈ m.store.list J ∧ e.nickname ≠ nickname
  devices : ∀ p, m.DeviceOf J nickname p → ∀ place, ¬ m'.Lists place p
  identities : ∀ p, m.IdentityOf J nickname p → ¬ m.StillPaired J nickname p →
    ∀ place, ¬ m'.Lists place p
  shared : ∀ p, m.IdentityOf J nickname p → m.StillPaired J nickname p →
    ∀ place, m.Lists place p → m'.Lists place p
  stays : ∀ p, m.Stays J nickname p → ∀ place, m.Lists place p → m'.Lists place p

/-- The condition: the overlay lists nothing that goes; no scope grants an
identity that goes while a row that was not paired carries it; and the live
registry is not behind an earlier change: where the file lists something that
goes, so that the registry is rebuilt, it lists nothing that stays but what the
rebuilt one lists, and where the file does not, it lists nothing that goes. -/
structure TrustNode.Revocable : Prop where
  overlay : ∀ p, m.Withdrawn J nickname p → ∀ service, ¬ m.Lists (.overlay service) p
  scopes : ∀ p, m.IdentityOf J nickname p → ¬ m.StillPaired J nickname p →
    m.PrincipalOfOther J nickname p → ∀ name, ¬ m.Lists (.scope name) p
  rebuilt : (∃ p, m.Withdrawn J nickname p ∧ ∃ service, m.Lists (.file service) p) →
    ∀ p, m.Stays J nickname p → ∀ service, m.Lists (.live service) p →
      Offers m.services.file m.services.overlay service p
  served : ¬ (∃ p, m.Withdrawn J nickname p ∧ ∃ service, m.Lists (.file service) p) →
    ∀ p, m.Withdrawn J nickname p → ∀ service, ¬ m.Lists (.live service) p

end Unpair

/-! ## what the removal does -/

section Section

variable {s s' : ServiceNode} {i : Nat} {ptr : Option Nat} {endpoints : EndpointId → Bool}
  {principals : List String} {keeps : PeerEntry → Bool} {targets others : List PeerEntry}
  {p : String}

/-- What one row adds to the principals. -/
theorem mem_pushPrincipals (target : PeerEntry) :
    p ∈ pushPrincipals keeps others principals target ↔
      p ∈ principals ∨ p = principal target.endpointId ∨
        target.userId = some p ∧ ∀ o ∈ others, o.userId = some p → keeps o = false := by
  unfold pushPrincipals
  cases huserId : target.userId with
  | none => simp
  | some userId =>
      dsimp only
      split
      · next hkept =>
        simp only [Bool.or_eq_true, List.any_eq_true, Bool.and_eq_true, decide_eq_true_eq,
          List.mem_append, List.mem_singleton] at hkept ⊢
        grind
      · next hpushed =>
        simp only [Bool.or_eq_true, List.any_eq_true, Bool.and_eq_true, decide_eq_true_eq,
          List.mem_append, List.mem_singleton] at hpushed ⊢
        grind

/-- The principals are those of the rows, and the identities that no other row has. -/
theorem mem_resolvedPrincipals :
    p ∈ resolvedPrincipals keeps targets others ↔
      (∃ t ∈ targets, p = principal t.endpointId) ∨
        ∃ t ∈ targets, t.userId = some p ∧ ∀ o ∈ others, o.userId = some p → keeps o = false := by
  have hfold : ∀ principals, p ∈ targets.foldl (pushPrincipals keeps others) principals ↔
      p ∈ principals ∨ (∃ t ∈ targets, p = principal t.endpointId) ∨
        ∃ t ∈ targets, t.userId = some p ∧
          ∀ o ∈ others, o.userId = some p → keeps o = false := by
    induction targets with
    | nil => simp
    | cons t targets ih =>
        intro principals
        rw [List.foldl_cons, ih, mem_pushPrincipals]
        simp only [List.mem_cons, exists_eq_or_imp]
        grind
  rw [resolvedPrincipals, hfold]
  simp

/-- A reload that succeeds leaves what the file and the overlay offer. -/
theorem reload_spec (h : s.reloadServicesFromDisk ptr = some (s', true)) :
    ∃ serve, s' = { s with serve } ∧
      ∀ service p, serve.Grants service p ↔ Offers s.file s.overlay service p := by
  simp only [ServiceNode.reloadServicesFromDisk] at h
  split at h
  · next address cfg hload =>
    obtain ⟨s₁, hswap, heq⟩ := Option.map_eq_some_iff.mp h
    obtain ⟨rfl, -⟩ := Prod.mk.inj heq
    obtain ⟨serve, rfl, hlive, -⟩ := ServiceNode.frame_of_swap hswap
    refine ⟨serve, rfl, fun service p => ?_⟩
    simp [Admit.ServeState.Grants, hlive, Offers, hload]
  · simp at h

/-- What the section of a removal leaves. -/
structure AccessRevoked (s s' : ServiceNode) (principals : List String) : Prop where
  overlay : s'.overlay = s.overlay
  file : s'.file = (removeAllowFromConfig principals s.file).getD s.file
  reloaded : (removeAllowFromConfig principals s.file).isSome = true →
    ∀ service p, s'.serve.Grants service p ↔ Offers s'.file s.overlay service p
  kept : (removeAllowFromConfig principals s.file).isSome = false →
    ∀ service p, s'.serve.Grants service p ↔ s.serve.Grants service p

/-- The last phase under the lock counts. -/
@[simp] theorem hold_hold (phase phase' : CallPhase) :
    (s.hold i phase).hold i phase' = s.hold i phase' := by
  simp [ServiceNode.hold]

/-- The call takes the lock. -/
theorem run_of_enter {verb : ServiceVerb} {events : List ServiceEvent}
    (henter : ∀ s : ServiceNode, s.enter i true none verb = some (s.hold i (.checking verb)))
    (h : run serviceStep s (.call i verb :: .acquire i true none :: events) = some s') :
    run serviceStep (s.hold i (.checking verb)) events = some s' := by
  obtain ⟨s₁, hcall, h⟩ := run_cons_eq_some.mp h
  obtain ⟨s₂, hacquire, h⟩ := run_cons_eq_some.mp h
  simp only [serviceStep] at hcall
  split at hcall
  · obtain rfl := Option.some.inj hcall
    simp only [serviceStep, Function.update_self] at hacquire
    split at hacquire
    · next verb' _ hverb _ =>
      obtain rfl := CallPhase.waiting.inj hverb
      rw [henter, Option.some.injEq] at hacquire
      subst hacquire
      simpa [ServiceNode.hold] using h
    · contradiction
  · contradiction

/-- From the check on, where there is something to strip. -/
theorem run_section (hsome : principals.isEmpty = false) {verb : ServiceVerb}
    (hverb : verb = .revokeServiceAccess principals) {changed : Bool}
    (hchanged : (removeAllowFromConfig principals s.file).isSome = changed) :
    run serviceStep (s.hold i (.checking verb))
        [.check i true, .read i true, .write i true, .resume i ptr, .sever i true endpoints] =
      ((({ s with file := (removeAllowFromConfig principals s.file).getD s.file }.hold i
          (.edited verb none (some changed))).edited i ptr none changed verb).bind
        fun s₁ => serviceStep s₁ (.sever i true endpoints)) := by
  subst hverb hchanged
  cases hwritten : removeAllowFromConfig principals s.file <;>
    simp [run, serviceStep, ServiceNode.hold, ServiceNode.checked, hsome, ConfigEdit.write,
      ConfigEdit.run, hwritten]

/-- The sever at the end leaves the lists. -/
theorem grants_of_sever {verb : ServiceVerb}
    (h : serviceStep (s.hold i (.severing verb)) (.sever i true endpoints) = some s') :
    s'.overlay = s.overlay ∧ s'.file = s.file ∧
      ∀ service p, s'.serve.Grants service p ↔ s.serve.Grants service p := by
  simp only [serviceStep, ServiceNode.hold, Function.update_self, if_true] at h
  obtain ⟨serve, hsever, rfl⟩ := Option.map_eq_some_iff.mp h
  refine ⟨rfl, rfl, fun service p => ?_⟩
  have hlive : serve.allowNow service = s.serve.allowNow service :=
    ServiceNode.grants_of_session rfl hsever service
  simp [ServiceNode.finish, Admit.ServeState.Grants, hlive]

/-- A revoke of access strips the principals in all three places. -/
theorem accessRevoked_of_run
    (h : run serviceStep s (revokeServiceAccess i principals ptr endpoints) = some s') :
    AccessRevoked s s' principals := by
  have h := run_of_enter (fun _ => rfl) h
  cases hempty : principals.isEmpty with
  | true =>
      obtain rfl := List.isEmpty_iff.mp hempty
      have hnone : removeAllowFromConfig [] s.file = none := by
        rw [← Option.not_isSome_iff_eq_none, removeAllow_isSome]
        simp
      have hfinish : s.finish i (some (.revokeServiceAccess [])) = s' := by
        simpa [run, serviceStep, ServiceNode.hold, ServiceNode.checked, ServiceNode.finish] using h
      subst hfinish
      exact ⟨rfl, by simp [hnone, ServiceNode.finish], by simp [hnone], fun _ _ _ => Iff.rfl⟩
  | false =>
      simp only [hempty] at h
      cases hwritten : (removeAllowFromConfig principals s.file).isSome with
      | false =>
          have h := (run_section hempty rfl hwritten).symm.trans h
          simp only [ServiceNode.edited, Bool.false_eq_true, if_false, Option.bind_some,
            hold_hold] at h
          obtain ⟨hoverlay, hfile, hgrants⟩ := grants_of_sever h
          exact ⟨hoverlay, hfile, by simp [hwritten], fun _ => hgrants⟩
      | true =>
          have h := (run_section hempty rfl hwritten).symm.trans h
          simp only [ServiceNode.edited, if_true] at h
          obtain ⟨s₁, hedited, h⟩ := Option.bind_eq_some_iff.mp h
          obtain ⟨⟨s₂, ok⟩, hreload, rfl⟩ := Option.map_eq_some_iff.mp hedited
          cases ok with
          | false => simp [ServiceNode.toSever, serviceStep, ServiceNode.finish] at h
          | true =>
              obtain ⟨serve, rfl, hlive⟩ := reload_spec hreload
              obtain ⟨hoverlay, hfile, hgrants⟩ := grants_of_sever h
              refine ⟨hoverlay, hfile, fun _ service p => ?_, by simp [hwritten]⟩
              rw [hgrants, hfile]
              exact hlive service p

end Section

/-! ## what the removal leaves at each place -/

section Places

variable {P : Primitives} {J : PeerJson} {m m' : TrustNode} {nickname : String} {i : Nat}
  {ptr : Option Nat} {endpoints : EndpointId → Bool} {targets others : List PeerEntry}
  {p : String}

/-- The rows of the name, and the others. -/
theorem mem_targets (h : (m.store.list J).partition (fun e => e.nickname = nickname) =
    (targets, others)) :
    (∀ e, e ∈ targets ↔ e ∈ m.store.list J ∧ e.nickname = nickname) ∧
      ∀ e, e ∈ others ↔ e ∈ m.store.list J ∧ e.nickname ≠ nickname := by
  rw [List.partition_eq_filter_filter, Prod.mk.injEq] at h
  obtain ⟨rfl, rfl⟩ := h
  simp

/-- The principals of services are the withdrawn ones. -/
theorem mem_accessPrincipals (h : (m.store.list J).partition (fun e => e.nickname = nickname) =
    (targets, others)) :
    p ∈ accessPrincipals targets others ↔ m.Withdrawn J nickname p := by
  obtain ⟨htargets, hothers⟩ := mem_targets h
  simp only [accessPrincipals, mem_resolvedPrincipals, htargets, hothers,
    TrustNode.Withdrawn, TrustNode.DeviceOf, TrustNode.IdentityOf, TrustNode.StillPaired]
  grind

/-- A row of another name carries the identity, paired or not. -/
def TrustNode.Carried (J : PeerJson) (m : TrustNode) (nickname p : String) : Prop :=
  ∃ e ∈ m.store.list J, e.nickname ≠ nickname ∧ e.userId = some p

/-- The principals of blobs are the devices, and the identities. -/
theorem mem_blobPrincipals (h : (m.store.list J).partition (fun e => e.nickname = nickname) =
    (targets, others)) :
    p ∈ blobPrincipals targets others ↔
      m.DeviceOf J nickname p ∨ m.IdentityOf J nickname p ∧ ¬ m.Carried J nickname p := by
  obtain ⟨htargets, hothers⟩ := mem_targets h
  simp only [blobPrincipals, mem_resolvedPrincipals, htargets, hothers,
    TrustNode.DeviceOf, TrustNode.IdentityOf, TrustNode.Carried]
  grind

/-- A revoke of blobs strips every scope. -/
theorem mem_grants_revokeBlobs {principals : List String} {provider : ScopeStore} {name : String} :
    p ∈ ((revokeBlobs principals provider).inner.orDefault name).grants ↔
      p ∈ (provider.inner.orDefault name).grants ∧ p ∉ principals := by
  unfold revokeBlobs
  split
  · next hempty =>
    obtain rfl := List.isEmpty_iff.mp hempty
    simp
  · have hinner := (ScopeStore.called provider (.revokePrincipals principals) true).inner
    change (provider.revokePrincipals true principals).2.inner = _ at hinner
    rw [hinner]
    simp [ScopeCall.effect, BlobScopes.orDefault_revokePrincipals]

/-- What a removal that returned `Ok` leaves. -/
structure PeerRemoved (J : PeerJson) (m m' : TrustNode) (nickname : String) : Prop where
  rows : ∀ e, e ∈ m'.store.list J ↔ e ∈ m.store.list J ∧ e.nickname ≠ nickname
  file : ∀ service p, m'.Lists (.file service) p ↔
    m.Lists (.file service) p ∧ ¬ m.Withdrawn J nickname p
  overlay : ∀ service p, m'.Lists (.overlay service) p ↔ m.Lists (.overlay service) p
  /-- the registry is rebuilt where the file lost a line -/
  rebuilt : (∃ p, m.Withdrawn J nickname p ∧ ∃ service, m.Lists (.file service) p) →
    ∀ service p, m'.Lists (.live service) p ↔
      Offers m'.services.file m.services.overlay service p
  stripped : ∀ service p, ¬ m.Withdrawn J nickname p →
    (Offers m'.services.file m.services.overlay service p ↔
      Offers m.services.file m.services.overlay service p)
  served : ¬ (∃ p, m.Withdrawn J nickname p ∧ ∃ service, m.Lists (.file service) p) →
    ∀ service p, m'.Lists (.live service) p ↔ m.Lists (.live service) p
  scope : ∀ name p, m'.Lists (.scope name) p ↔ m.Lists (.scope name) p ∧
    ¬ (m.DeviceOf J nickname p ∨ m.IdentityOf J nickname p ∧ ¬ m.Carried J nickname p)

/-- A removal that succeeds does what is said of it. -/
theorem peerRemoved_of_removePeer
    (h : m.removePeer J nickname i ptr endpoints = some (.ok m')) :
    PeerRemoved J m m' nickname := by
  cases hpartition : (m.store.list J).partition fun e => e.nickname = nickname with
  | mk targets others =>
  simp only [TrustNode.removePeer, hpartition] at h
  obtain ⟨services, hrun, hdone⟩ := Option.map_eq_some_iff.mp h
  split at hdone
  · contradiction
  obtain rfl := Except.ok.inj hdone
  have haccess := accessRevoked_of_run hrun
  have hwritten : (removeAllowFromConfig (accessPrincipals targets others)
      m.services.file).isSome = true ↔
        ∃ p, m.Withdrawn J nickname p ∧ ∃ service, m.Lists (.file service) p := by
    rw [removeAllow_isSome]
    simp only [mem_accessPrincipals hpartition, TrustNode.Lists]
    grind
  exact
    { rows := fun e => PairDb.mem_list_remove
      file := fun service p => by
        change p ∈ services.file.allow service ↔ _
        rw [haccess.file, mem_allow_removeAllow, mem_accessPrincipals hpartition]
        rfl
      overlay := fun service p => by simp only [TrustNode.Lists, haccess.overlay]
      rebuilt := fun hlisted => haccess.reloaded (hwritten.mpr hlisted)
      stripped := fun service p hp => by
        change Offers services.file _ _ _ ↔ _
        rw [haccess.file]
        exact offers_removeAllow (mt (mem_accessPrincipals hpartition).mp hp)
      served := fun hlisted => haccess.kept (Bool.not_eq_true _ ▸ mt hwritten.mp hlisted)
      scope := fun name p => by
        simp only [TrustNode.Lists, Option.map_eq_some_iff, exists_exists_and_eq_and,
          mem_grants_revokeBlobs, mem_blobPrincipals hpartition]
        grind }

end Places

/-! ## the law and its condition -/

section Iff

variable {P : Primitives} {J : PeerJson} {m m' : TrustNode} {nickname : String}
  {event : TrustEvent} {p : String}

/-- Each step keeps the store proven. -/
theorem proven_of_step (h : m.store.Proven P J) (hstep : trustStep P J m event = some m') :
    m'.store.Proven P J := by
  cases event with
  | service event =>
      obtain ⟨services, -, rfl⟩ := Option.map_eq_some_iff.mp hstep
      exact h
  | pair call =>
      obtain rfl := Option.some.inj hstep
      simp only [pairStep]
      split
      · next store hwrite => exact h.writeRow hwrite
      · exact h
  | introduce own i =>
      simp only [trustStep] at hstep
      split at hstep
      · next store hintroduce =>
        obtain rfl := Option.some.inj hstep
        exact h.introducePeer hintroduce
      · contradiction
  | openBlobs provider =>
      simp only [trustStep] at hstep
      split at hstep
      · obtain rfl := Option.some.inj hstep
        exact h
      · contradiction
  | blob call committed =>
      obtain ⟨provider, -, rfl⟩ := Option.map_eq_some_iff.mp hstep
      exact h
  | remove nickname =>
      obtain rfl := Option.some.inj hstep
      exact h.remove nickname

/-- A device principal and a proven identity are not bare. -/
theorem not_bare_principal (eid : EndpointId) : ¬ Bare (principal eid) := by
  have hprefix : startsWith (principal eid) "eid:" = true := by
    simp [startsWith, principal, eidPrefix, String.toList_append]
  simp [Bare, principalPrefixes, hprefix]

/-- No user id is a bare endpoint. -/
theorem IsUserId.not_bare (h : IsUserId P p) : ¬ Bare p := by
  obtain ⟨bytes, rfl⟩ := h
  have hprefix : startsWith (encodeB64u P bytes) "b64u:" = true := by
    simp [startsWith, encodeB64u, b64uPrefix, String.toList_append]
  simp [Bare, principalPrefixes, hprefix]

/-- No user id is the principal of a device. -/
theorem IsUserId.ne_principal (h : IsUserId P p) (eid : EndpointId) : p ≠ principal eid := by
  obtain ⟨bytes, rfl⟩ := h
  exact (principal_ne_b64u eid _).symm

/-- An identity of a row is no device. -/
theorem not_deviceOf_of_userId (h : m.store.Proven P J) {e : PeerEntry} (he : e ∈ m.store.list J)
    (hp : e.userId = some p) : ¬ m.DeviceOf J nickname p := by
  rintro ⟨e', -, -, hdevice⟩
  exact (h.userIds e he p hp).ne_principal e'.endpointId hdevice

/-- What has to stay does not go. -/
theorem not_withdrawn_of_stays (h : m.store.Proven P J) (hstays : m.Stays J nickname p) :
    ¬ m.Withdrawn J nickname p := by
  rintro (⟨e, he, hname, rfl⟩ | ⟨hidentity, hgone⟩)
  · rcases hstays with hbare | ⟨⟨o, ho, hother, heid | huserId⟩, -⟩
    · exact not_bare_principal e.endpointId hbare
    · have hsame : e = o := h.eq_of_endpointId he ho (principal_injective heid)
      exact hother (hsame ▸ hname)
    · exact (h.userIds o ho _ huserId).ne_principal e.endpointId rfl
  · rcases hstays with hbare | ⟨-, hkept⟩
    · obtain ⟨e, he, -, huserId⟩ := hidentity
      exact (h.userIds e he p huserId).not_bare hbare
    · exact hkept ⟨hidentity, hgone⟩

/-- Who is still paired stays. -/
theorem stays_of_stillPaired (hpaired : m.StillPaired J nickname p) : m.Stays J nickname p := by
  have ⟨o, ho, hother, huserId, _⟩ := hpaired
  exact .inr ⟨⟨o, ho, hother, .inr huserId⟩, fun hgone => hgone.2 hpaired⟩

/-- Who is still paired is carried by a row. -/
theorem carried_of_stillPaired (hpaired : m.StillPaired J nickname p) :
    m.Carried J nickname p := by
  obtain ⟨o, ho, hother, huserId, -⟩ := hpaired
  exact ⟨o, ho, hother, huserId⟩

/-- Where the condition holds, what goes is listed nowhere. -/
theorem withdrawn_of_revocable (hremoved : PeerRemoved J m m' nickname)
    (hrevocable : m.Revocable J nickname) (hp : m.Withdrawn J nickname p) (place : Place) :
    ¬ m'.Lists place p := by
  intro hlists
  cases place with
  | file service => exact ((hremoved.file service p).mp hlists).2 hp
  | overlay service =>
      have hbefore := (hremoved.overlay service p).mp hlists
      exact hrevocable.overlay p hp service hbefore
  | live service =>
      by_cases hlisted : ∃ p, m.Withdrawn J nickname p ∧ ∃ service, m.Lists (.file service) p
      · have hoffers := (hremoved.rebuilt hlisted service p).mp hlists
        rcases listed_of_offers hoffers with hoverlay | hfile
        · exact hrevocable.overlay p hp service hoverlay
        · exact ((hremoved.file service p).mp hfile).2 hp
      · exact hrevocable.served hlisted p hp service ((hremoved.served hlisted service p).mp hlists)
  | scope name =>
      obtain ⟨hgranted, hkept⟩ := (hremoved.scope name p).mp hlists
      rcases hp with hdevice | ⟨hidentity, hgone⟩
      · exact hkept (.inl hdevice)
      · by_cases hcarried : m.Carried J nickname p
        · obtain ⟨o, ho, hother, huserId⟩ := hcarried
          exact hrevocable.scopes p hidentity hgone ⟨o, ho, hother, .inr huserId⟩ name hgranted
        · exact hkept (.inr ⟨hidentity, hcarried⟩)

/-- What does not go is still listed where it was. -/
theorem stays_of_revocable (hremoved : PeerRemoved J m m' nickname)
    (hrevocable : m.Revocable J nickname) (hstays : m.Stays J nickname p)
    (hp : ¬ m.Withdrawn J nickname p) (place : Place) (hlists : m.Lists place p) :
    m'.Lists place p := by
  cases place with
  | file service => exact (hremoved.file service p).mpr ⟨hlists, hp⟩
  | overlay service => exact (hremoved.overlay service p).mpr hlists
  | live service =>
      by_cases hlisted : ∃ p, m.Withdrawn J nickname p ∧ ∃ service, m.Lists (.file service) p
      · have hoffers := hrevocable.rebuilt hlisted p hstays service hlists
        have hstripped := (hremoved.stripped service p hp).mpr hoffers
        exact (hremoved.rebuilt hlisted service p).mpr hstripped
      · exact (hremoved.served hlisted service p).mpr hlists
  | scope name =>
      refine (hremoved.scope name p).mpr ⟨hlists, ?_⟩
      rintro (hdevice | ⟨hidentity, hcarried⟩)
      · exact hp (.inl hdevice)
      · exact hp (.inr ⟨hidentity, fun hpaired => hcarried (carried_of_stillPaired hpaired)⟩)

/-- An unpair inverts the grants exactly where all of them can be revoked. -/
theorem unpaired_iff_revocable (h : m.store.Proven P J) (hremoved : PeerRemoved J m m' nickname) :
    Unpaired J m m' nickname ↔ m.Revocable J nickname := by
  constructor
  · intro hunpaired
    have hgone : ∀ p, m.Withdrawn J nickname p → ∀ place, ¬ m'.Lists place p := by
      rintro p (hdevice | ⟨hidentity, hgone⟩)
      · exact hunpaired.devices p hdevice
      · exact hunpaired.identities p hidentity hgone
    constructor
    · intro p hp service hlists
      exact hgone p hp _ ((hremoved.overlay service p).mpr hlists)
    · rintro p hidentity hpaired ⟨o, ho, hother, hcarries⟩ name hlists
      obtain ⟨e, he, hname, huserId⟩ := hidentity
      refine hgone p (.inr ⟨⟨e, he, hname, huserId⟩, hpaired⟩) (.scope name) ?_
      have hproven := h.userIds e he p huserId
      have hcarried : m.Carried J nickname p :=
        ⟨o, ho, hother, hcarries.resolve_left (hproven.ne_principal o.endpointId)⟩
      refine (hremoved.scope name p).mpr ⟨hlists, ?_⟩
      rintro (hdevice | ⟨-, hkept⟩)
      · exact not_deviceOf_of_userId h he huserId hdevice
      · exact hkept hcarried
    · intro hlisted p hstays service hlists
      have hlive := hunpaired.stays p hstays (.live service) hlists
      have hp := not_withdrawn_of_stays h hstays
      exact (hremoved.stripped service p hp).mp ((hremoved.rebuilt hlisted service p).mp hlive)
    · intro hlisted p hp service hlists
      exact hgone p hp (.live service) ((hremoved.served hlisted service p).mpr hlists)
  · intro hrevocable
    have hstays : ∀ p, m.Stays J nickname p → ∀ place, m.Lists place p → m'.Lists place p := by
      intro p hstays
      have hp := not_withdrawn_of_stays h hstays
      exact stays_of_revocable hremoved hrevocable hstays hp
    exact
      { rows := hremoved.rows
        devices := fun p hp => withdrawn_of_revocable hremoved hrevocable (.inl hp)
        identities := fun p hp hgone =>
          withdrawn_of_revocable hremoved hrevocable (.inr ⟨hp, hgone⟩)
        shared := fun p _ hpaired => hstays p (stays_of_stillPaired hpaired)
        stays := hstays }

/-- Where every earlier change of the lists has reached the live registry, the
condition is about the overlay and the scopes alone. -/
theorem revocable_of_synced
    (hsynced : ∀ service p, m.Lists (.live service) p ↔
      Offers m.services.file m.services.overlay service p)
    (hoverlay : ∀ p, m.Withdrawn J nickname p → ∀ service, ¬ m.Lists (.overlay service) p)
    (hscopes : ∀ p, m.IdentityOf J nickname p → ¬ m.StillPaired J nickname p →
      m.PrincipalOfOther J nickname p → ∀ name, ¬ m.Lists (.scope name) p) :
    m.Revocable J nickname where
  overlay := hoverlay
  scopes := hscopes
  rebuilt _ p _ service hlists := (hsynced service p).mp hlists
  served hlisted p hp service hlists := by
    rcases listed_of_offers ((hsynced service p).mp hlists) with h | h
    · exact hoverlay p hp service h
    · exact hlisted ⟨p, hp, service, h⟩

end Iff

/-- **Unpairing is the inverse of the grants** of a name exactly where the
condition holds, in every state that is reached. -/
theorem unpair_inverts_grants (P : Primitives) (J : PeerJson) (file : ConfigFile)
    (revoked : List (EndpointId × List UInt8)) (revokedUsers : List (String × List UInt8))
    (appBlobs : Option ScopeStore) (events : List TrustEvent) (m m' : TrustNode)
    (hrun : run (trustStep P J) (.start file revoked revokedUsers appBlobs) events = some m)
    (nickname : String) (i : Nat) (ptr : Option Nat) (endpoints : EndpointId → Bool)
    (hremove : m.removePeer J nickname i ptr endpoints = some (.ok m')) :
    Unpaired J m m' nickname ↔ m.Revocable J nickname := by
  have hproven : m.store.Proven P J :=
    run_invariant (I := fun m : TrustNode => m.store.Proven P J)
      (fun _ _ _ h hstep => proven_of_step h hstep) (PairDb.proven_empty rfl) hrun
  exact unpaired_iff_revocable hproven (peerRemoved_of_removePeer hremove)

namespace UnpairBob

def primitives : Primitives := Instance.primitives [] []

def bob : EndpointId := .replicate 32 7

/-- He redeems an invite of ours. -/
def paired : TrustEvent :=
  .pair (.inviterSide
    { invite := TwoUses.invite 7 2, hello := ⟨bob, "bob", none, none⟩, observed := none
      now := "1" })

/-- `notes` lists no one. -/
def file : ConfigFile where
  services := .table ((∅ : ServiceEntries).insert "notes" (.table
    { run := none, socket := some "/run/notes.sock", env := [], cwd := none
      allow := .absent, rateLimitPerMin := none }))

def granted (ptr : Nat) : List TrustEvent :=
  [.call 0 (.grantServiceAccess (principal bob) ["notes"]), .acquire 0 true none, .read 0 true,
    .write 0 true, .resume 0 (some ptr)].map .service

/-- The node where `notes` is in the config file. -/
def configured : Option TrustNode :=
  run (trustStep primitives Instance.peerJson) (.start file [] [] none) (paired :: granted 1)

def registered : List TrustEvent :=
  [.call 0 (.registerService "notes" (.socket "/run/notes.sock") [] true none),
    .acquire 0 true (some 1)].map .service

/-- The node where an application registered `notes` for as long as it runs. -/
def ephemeral : Option TrustNode :=
  run (trustStep primitives Instance.peerJson) (.start ⟨.absent⟩ [] [] none)
    (paired :: registered ++ granted 2)

def remove (m : TrustNode) : Option (Except String TrustNode) :=
  m.removePeer Instance.peerJson "bob" 1 (some 3) fun _ => false

/-- The live registry is the one that the file and the overlay build. -/
def synced (m : TrustNode) : Bool :=
  (m.services.file.load.map fun cfg =>
    (buildServicesWithEphemeral cfg m.services.overlay).entries) = some m.services.services.entries

/-- In a synced node what is live is what is offered. -/
theorem lists_iff_offers_of_synced {m : TrustNode} (h : synced m = true) (service p : String) :
    m.Lists (.live service) p ↔ Offers m.services.file m.services.overlay service p := by
  obtain ⟨cfg, hload, hentries⟩ := Option.map_eq_some_iff.mp (of_decide_eq_true h)
  have hbuilt : buildServicesWithEphemeral cfg m.services.overlay = m.services.services :=
    AList.ext hentries
  have hlive : ∀ allow, m.services.serve.allowNow service = some allow ↔
      m.services.services.lookup service = some allow := by
    intro allow
    rw [Admit.ServeState.allowNow, ServiceNode.services]
    cases m.services.serve.heap m.services.serve.live <;> simp
  simp [TrustNode.Lists, Admit.ServeState.Grants, Offers, hload, hbuilt, hlive]

end UnpairBob

open UnpairBob in
theorem unpair_inverts_grants_example :
    ∃ m m', configured = some m ∧ remove m = some (.ok m') ∧
      m.Lists (.live "notes") (principal bob) ∧ Unpaired Instance.peerJson m m' "bob" := by
  have hend : configured.any (fun m => synced m && m.services.overlay.entries.isEmpty &&
      m.appBlobs.isNone && m.services.serve.allowNow "notes" == some [principal bob] &&
      (remove m).any fun result => result.toOption.isSome) = true := by decide +kernel
  obtain ⟨m, hrun, hm⟩ := (Option.any_eq_true ..).mp hend
  simp only [Bool.and_eq_true, beq_iff_eq] at hm
  obtain ⟨⟨⟨⟨hsynced, hoverlay⟩, hblobs⟩, hallow⟩, hremove⟩ := hm
  obtain ⟨result, hremove, hok⟩ := (Option.any_eq_true ..).mp hremove
  obtain ⟨m', hok⟩ := Option.isSome_iff_exists.mp hok
  obtain rfl := toOption_eq_some.mp hok
  refine ⟨m, m', hrun, hremove, ⟨_, hallow, List.mem_singleton_self _⟩, ?_⟩
  refine (unpair_inverts_grants primitives Instance.peerJson file [] [] none
    (paired :: granted 1) m m' hrun "bob" 1 (some 3) (fun _ => false) hremove).mpr ?_
  refine revocable_of_synced (lists_iff_offers_of_synced hsynced) ?_ ?_
  · intro p _ service hlists
    obtain ⟨entry, hentry, -⟩ := mem_ephemeralAllow.mp hlists
    have hmem := AList.mem_lookup_iff.mp hentry
    rw [List.isEmpty_iff.mp hoverlay] at hmem
    exact absurd hmem List.not_mem_nil
  · rintro p - - - name ⟨provider, hprovider, -⟩
    simp [hprovider] at hblobs

open UnpairBob in
theorem ephemeral_grant_outlives_unpair :
    ∃ m m', ephemeral = some m ∧ remove m = some (.ok m') ∧
      m'.Lists (.overlay "notes") (principal bob) ∧ m'.Lists (.live "notes") (principal bob) ∧
      ¬ Unpaired Instance.peerJson m m' "bob" := by
  have hend : ephemeral.any (fun m => (remove m).any fun result => result.toOption.any fun m' =>
      decide (principal bob ∈ ephemeralAllow m'.services.overlay "notes") &&
        m'.services.serve.allowNow "notes" == some [principal bob] &&
        (m.store.list Instance.peerJson).any fun e =>
          e.nickname = "bob" && principal bob = principal e.endpointId) = true := by
    decide +kernel
  obtain ⟨m, hrun, hremove⟩ := (Option.any_eq_true ..).mp hend
  obtain ⟨result, hremove, hm⟩ := (Option.any_eq_true ..).mp hremove
  obtain ⟨m', hok, hends⟩ := (Option.any_eq_true ..).mp hm
  obtain rfl := toOption_eq_some.mp hok
  simp only [Bool.and_eq_true, decide_eq_true_eq, beq_iff_eq, List.any_eq_true] at hends
  obtain ⟨⟨hoverlay, hallow⟩, e, he, hname, hdevice⟩ := hends
  refine ⟨m, m', hrun, hremove, hoverlay, ⟨_, hallow, List.mem_singleton_self _⟩, ?_⟩
  intro hunpaired
  exact hunpaired.devices _ ⟨e, he, hname, hdevice⟩ (.overlay "notes") hoverlay

end Mcpmesh
