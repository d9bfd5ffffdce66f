import Mcpmesh.Daemon.Services
import Mcpmesh.Lib.Fallible

/-!
# Mcpmesh.Daemon.Registry

The live registry with all that its entries hold (`net/src/endpoint.rs`,
`node/src/daemon.rs`), and the service verbs as whole calls under
`reload_lock` (`node/src/daemon/handlers.rs`).

A verb rebuilds the registry from the file and the overlay, replaces one allow
list in it, or leaves it as it is.
-/

namespace Mcpmesh

open Lib

/-! ## the registry -/

/-- `ServiceKind` -/
inductive ServiceKind where
  | run
  | socket
  deriving DecidableEq

/-- `mcpmesh_net::ServiceEntry`: `backend` is what a session is run on, and
`limit` the rate of its limiter, `none` for no limit. -/
structure LiveEntry where
  backend : BackendSpec
  limit : Option Nat
  allow : List String
  kind : ServiceKind
  ephemeral : Bool
  deriving DecidableEq

/-- `Services` -/
abbrev Registry := AList fun _ : String => LiveEntry

/-- `MeshLimiters::effective_rpm`: a service can only lower the ceiling. -/
def effectiveRpm (globalRpm configured : Option Nat) : Option Nat :=
  globalRpm.map fun global => configured.elim global (min · global)

/-- The entry of a configured service; one without a backend is skipped. -/
def ServiceCfg.live (globalRpm : Option Nat) (svc : ServiceCfg) : Option LiveEntry :=
  let entry (backend : BackendSpec) (kind : ServiceKind) : LiveEntry :=
    { backend, limit := effectiveRpm globalRpm svc.rateLimitPerMin, allow := svc.allow, kind
      ephemeral := false }
  match svc.backendResult with
  | .ok (.run cmd) => some (entry (.run cmd svc.env svc.cwd) .run)
  | .ok (.socket path) => some (entry (.socket path) .socket)
  | .error _ => none

/-- The entry of an ephemeral registration. -/
def EphemeralService.live (globalRpm : Option Nat) (eph : EphemeralService) : LiveEntry :=
  { backend := eph.backend
    limit := effectiveRpm globalRpm eph.rateLimitPerMin
    allow := eph.allow
    kind := match eph.backend with
      | .socket _ => .socket
      | .run .. => .run
    ephemeral := true }

namespace Registry

/-- `build_services_with_ephemeral`: the overlay shadows the config. -/
def buildServicesWithEphemeral (globalRpm : Option Nat) (cfg : AList fun _ : String => ServiceCfg)
    (ephemeral : EphemeralServices) : Registry :=
  filterMapValues (fun eph => some (eph.live globalRpm)) ephemeral ∪
    filterMapValues (ServiceCfg.live globalRpm) cfg

/-- `with_allow_replaced` -/
def withAllowReplaced (services : Registry) (name : String) (allow : List String) :
    Option Registry :=
  (services.lookup name).map fun entry => services.insert name { entry with allow }

/-- The allow lists, which are all that decides who is admitted. -/
def allows (services : Registry) : Admit.Services :=
  filterMapValues (fun entry => some entry.allow) services

/-- Two registries have the same names, and under each the same entry. -/
def Same (r r' : Registry) : Prop := ∀ name, r.lookup name = r'.lookup name

section

variable {globalRpm : Option Nat} {cfg : AList fun _ : String => ServiceCfg}
  {overlay : EphemeralServices} {r r' : Registry} {name s : String} {allow : List String}

/-- The overlay shadows the config. -/
theorem lookup_build : (buildServicesWithEphemeral globalRpm cfg overlay).lookup s =
    ((overlay.lookup s).map (EphemeralService.live globalRpm)).or
      ((cfg.lookup s).bind (ServiceCfg.live globalRpm)) := by
  simp only [buildServicesWithEphemeral, lookup_union_eq_or, lookup_filterMapValues]
  cases overlay.lookup s <;> rfl

/-- A replaced list changes the entry of its service in nothing else. -/
theorem lookup_withAllowReplaced (h : withAllowReplaced r name allow = some r') :
    r'.lookup s = if s = name then (r.lookup s).map ({ · with allow }) else r.lookup s := by
  obtain ⟨entry, hentry, rfl⟩ := Option.map_eq_some_iff.mp h
  rw [lookup_alist_insert]
  split
  · next hs =>
    rw [hs, hentry]
    rfl
  · rfl

/-- The allow list of a live entry. -/
theorem lookup_allows : r.allows.lookup s = (r.lookup s).map LiveEntry.allow := by
  rw [allows, lookup_filterMapValues]
  cases r.lookup s <;> rfl

/-- A configured service is live with what it offers. -/
theorem allow_live (svc : ServiceCfg) :
    (svc.live globalRpm).map LiveEntry.allow = svc.offer := by
  simp only [ServiceCfg.live, ServiceCfg.offer]
  cases svc.backendResult with
  | error e => rfl
  | ok backend => cases backend <;> rfl

/-- The registry admits by the allow lists of the admission model. -/
theorem lookup_allows_build :
    (buildServicesWithEphemeral globalRpm cfg overlay).allows.lookup s =
      (Mcpmesh.buildServicesWithEphemeral cfg overlay).lookup s := by
  simp only [lookup_allows, lookup_build, lookup_buildServices]
  cases overlay.lookup s with
  | some eph => rfl
  | none =>
      cases cfg.lookup s with
      | none => rfl
      | some svc => exact allow_live svc

/-- Only the overlay makes an entry ephemeral. -/
theorem overlay_of_ephemeral {entry : LiveEntry}
    (h : (buildServicesWithEphemeral globalRpm cfg overlay).lookup s = some entry)
    (heph : entry.ephemeral = true) : s ∈ overlay := by
  rw [lookup_build] at h
  cases hentry : overlay.lookup s with
  | some eph => exact AList.lookup_isSome.mp (by simp [hentry])
  | none =>
      simp only [hentry, Option.map_none, Option.none_or] at h
      obtain ⟨svc, -, hlive⟩ := Option.bind_eq_some_iff.mp h
      simp only [ServiceCfg.live] at hlive
      split at hlive <;> simp at hlive <;> simp [← hlive] at heph

end

end Registry

/-! ## the verbs -/

/-- What the verbs read and write under `reload_lock`. -/
structure ServiceStore where
  file : ConfigFile
  overlay : EphemeralServices
  live : Registry

inductive VerbError where
  | invalidParams (message : String)
  /-- `Config::load` failed. -/
  | loadConfig
  | writeConfig (error : ConfigError)
  | registeredPersistently (name : String)
  | registeredEphemerally (name : String)
  | noSuchService (name : String)
  | principalRevoked (principal : String)

namespace ServiceStore

/-- `Config::load` -/
def load : Action ServiceStore VerbError (AList fun _ : String => ServiceCfg) := do
  let s ← get
  Action.attempt (okOr s.file.load .loadConfig)

/-- The edit of the config file: whether it changed. -/
def editConfig (edit : ConfigEdit) : Action ServiceStore VerbError Bool := do
  let s ← get
  match ← Action.attempt ((edit.run s.file).mapError .writeConfig) with
  | some file =>
      modify ({ · with file })
      pure true
  | none => pure false

/-- `service_servable_in_config`, whose absence is an error. -/
def ensureServableInConfig (service : String) : Action ServiceStore VerbError Unit := do
  let cfg ← load
  Action.attempt (ensure ((cfg.lookup service).any fun svc => svc.offer.isSome)
    (.noSuchService service))

/-- What a registration checks of its parameters. -/
def checkRate (rateLimitPerMin : Option Nat) : Except VerbError Unit :=
  ensure (rateLimitPerMin ≠ some 0) (.invalidParams
    "rate_limit_per_min must be at least 1 (omit it to use [limits].rate_limit_per_min)")

/-- An ephemeral registration up to its reload: a name in the config is
refused, one in the overlay updated. -/
def insertEphemeral (name : String) (service : EphemeralService) :
    Action ServiceStore VerbError Unit := do
  let cfg ← load
  Action.attempt (ensure (name ∉ cfg) (.registeredPersistently name))
  modify fun s => { s with overlay := s.overlay.insert name service }

/-- `unregister_service` up to its edit: whether a registration was dropped. -/
def dropEphemeral (name : String) : Action ServiceStore VerbError Bool := do
  let s ← get
  modify fun s => { s with overlay := s.overlay.erase name }
  pure (decide (name ∈ s.overlay))

section

variable (globalRpm : Option Nat)

/-- `reload_services_from_disk` -/
def reloadServicesFromDisk : Action ServiceStore VerbError Unit := do
  let cfg ← load
  modify fun s =>
    { s with live := Registry.buildServicesWithEphemeral globalRpm cfg s.overlay }

/-- `apply_ephemeral_allow` -/
def applyEphemeralAllow (service : String) : Action ServiceStore VerbError Unit := do
  let s ← get
  match (s.overlay.lookup service).bind fun entry =>
      s.live.withAllowReplaced service entry.allow with
  | some live => modify ({ · with live })
  | none => reloadServicesFromDisk globalRpm

/-- The swap after an edit of one allow list: a rebuild where the file changed. -/
def swapMoved (service : String) (configMoved ephemeralMoved : Bool) :
    Action ServiceStore VerbError Unit :=
  if configMoved then reloadServicesFromDisk globalRpm
  else if ephemeralMoved then applyEphemeralAllow globalRpm service
  else pure ()

/-- `register_service` -/
def registerService (name : String) (backend : BackendSpec) (allow : List String)
    (ephemeral : Bool) (rateLimitPerMin : Option Nat) : Action ServiceStore VerbError Unit := do
  Action.attempt (checkRate rateLimitPerMin)
  if ephemeral then
    insertEphemeral name ⟨backend, allow, rateLimitPerMin⟩
    reloadServicesFromDisk globalRpm
  else
    let s ← get
    Action.attempt (ensure (name ∉ s.overlay) (.registeredEphemerally name))
    let _ ← editConfig (.writeService name backend allow rateLimitPerMin)
    reloadServicesFromDisk globalRpm

/-- `unregister_service` after its edit of the overlay. -/
def removeService (name : String) (dropped : Bool) : Action ServiceStore VerbError Unit := do
  let removed ← editConfig (.removeService name)
  if dropped || removed then reloadServicesFromDisk globalRpm

/-- `unregister_service` -/
def unregisterService (name : String) : Action ServiceStore VerbError Unit := do
  let dropped ← dropEphemeral name
  removeService globalRpm name dropped

/-- `unregister_ephemeral`: a failed reload is only logged. -/
def unregisterEphemeral (names : List String) : Action ServiceStore VerbError Unit :=
  if names.isEmpty then pure ()
  else do
    modify fun s =>
      { s with overlay := names.foldl (fun overlay name => overlay.erase name) s.overlay }
    tryCatch (reloadServicesFromDisk globalRpm) fun _ => pure ()

/-- `grant_service_access`: a name that neither source has is skipped. -/
def grantServiceAccess (principal : String) (services : List String) :
    Action ServiceStore VerbError Unit := do
  let changed ← editConfig (.appendAllow principal services)
  let s ← get
  let (moved, overlay) := ServiceNode.grantEphemerals principal services s.overlay
  modify ({ · with overlay })
  if changed || moved then reloadServicesFromDisk globalRpm

/-- `grant_service_allow`; `revoked` is what the peer store and the roster say
of the principal. -/
def grantServiceAllow (revoked : String → Bool) (service principal : String) :
    Action ServiceStore VerbError Unit := do
  Action.attempt (ensure (!revoked principal) (.principalRevoked principal))
  let s ← get
  if service ∉ s.overlay then ensureServableInConfig service
  let changed ← editConfig (.appendAllow principal [service])
  let s ← get
  let (moved, overlay) := grantEphemeral s.overlay service principal
  modify ({ · with overlay })
  swapMoved globalRpm service changed (moved.getD false)

/-- `revoke_service_allow`, up to the sever. -/
def revokeServiceAllow (service principal : String) : Action ServiceStore VerbError Unit := do
  let s ← get
  let (moved, overlay) := revokeEphemeral s.overlay service principal
  modify ({ · with overlay })
  let changed ← editConfig (.removePrincipal service principal)
  if moved.isNone && !changed then ensureServableInConfig service
  swapMoved globalRpm service changed (moved.getD false)

/-- `revoke_service_access` of the principals that its nickname resolves to, up
to the sever. -/
def revokeServiceAccess (principals : List String) : Action ServiceStore VerbError Unit :=
  if principals.isEmpty then pure ()
  else do
    let changed ← editConfig (.removeAllow principals)
    if changed then reloadServicesFromDisk globalRpm

def verb (revoked : String → Bool) : ServiceVerb → Action ServiceStore VerbError Unit
  | .registerService name backend allow ephemeral rate =>
      registerService globalRpm name backend allow ephemeral rate
  | .unregisterService name => unregisterService globalRpm name
  | .grantServiceAccess principal services => grantServiceAccess globalRpm principal services
  | .grantServiceAllow service principal => grantServiceAllow globalRpm revoked service principal
  | .revokeServiceAllow service principal => revokeServiceAllow globalRpm service principal
  | .revokeServiceAccess principals => revokeServiceAccess globalRpm principals
  | .unregisterEphemeral names => unregisterEphemeral globalRpm names

end

/-! ### where the config loads -/

section

variable {globalRpm : Option Nat} {cfg : AList fun _ : String => ServiceCfg}
  {s s' : ServiceStore} {names : List String}

/-- A load succeeds where the file does, and changes nothing. -/
theorem load_ok : load.apply s = (s', .ok cfg) ↔ s = s' ∧ s.file.load = some cfg := by
  simp only [load, Action.apply_get, Action.attempt_ok, okOr_eq_ok]

/-- A reload puts in place what the file and the overlay give. -/
theorem reload_of_load (h : s.file.load = some cfg) : (reloadServicesFromDisk globalRpm).apply s =
    ({ s with live := Registry.buildServicesWithEphemeral globalRpm cfg s.overlay }, .ok ()) :=
  Action.bind_ok.mpr ⟨s, cfg, load_ok.mpr ⟨rfl, h⟩, Action.modify_ok.mpr rfl⟩

/-- An unregistration takes the names out of the overlay and rebuilds. -/
theorem unregister_of_load (h : s.file.load = some cfg) (hnames : names ≠ []) :
    (unregisterEphemeral globalRpm names).apply s =
      ({ s with
          overlay := names.foldl (fun overlay name => overlay.erase name) s.overlay
          live := Registry.buildServicesWithEphemeral globalRpm cfg
            (names.foldl (fun overlay name => overlay.erase name) s.overlay) }, .ok ()) := by
  have hreload : ∀ overlay, (reloadServicesFromDisk globalRpm).apply { s with overlay } = _ :=
    fun overlay => reload_of_load h
  rw [unregisterEphemeral, if_neg (by simpa using hnames), Action.apply_modify_bind,
    Action.apply_tryCatch, hreload]

end

end ServiceStore

end Mcpmesh
