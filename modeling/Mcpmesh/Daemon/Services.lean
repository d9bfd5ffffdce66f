import Mcpmesh.Daemon.ConfigServices
import Mcpmesh.Lib.Run

/-!
# Mcpmesh.Daemon.Services

The verbs that change who may use a service (`node/src/daemon/handlers.rs`).

Each holds `reload_lock` over its whole section: it edits the overlay in memory
and the config file on a blocking thread, rebuilds the live registry, and a
revoke then severs.  The client may close its control connection at any await:
the call is dropped and its lock released, but an edit that already runs on the
blocking thread goes on.

A verb decides from what its own edit changed whether to rebuild and to sever.
-/

namespace Mcpmesh

open Lib

/-! ## the verbs -/

/-- The edit of the config file that a verb runs on the blocking thread. -/
inductive ConfigEdit where
  | writeService (name : String) (backend : BackendSpec) (allow : List String)
      (rateLimitPerMin : Option Nat)
  | removeService (name : String)
  | appendAllow (principal : String) (services : List String)
  | removePrincipal (service principal : String)
  | removeAllow (principals : List String)

/-- The file to write, if the edit changes it. -/
def ConfigEdit.run (file : ConfigFile) : ConfigEdit → Except ConfigError (Option ConfigFile)
  | .writeService name backend allow rate =>
      (writeServiceToConfig name backend allow rate file).map some
  | .removeService name => .ok (removeServiceFromConfig name file)
  | .appendAllow principal services => appendAllowToConfig principal services file
  | .removePrincipal service principal => .ok (removePrincipalFromService service principal file)
  | .removeAllow principals => .ok (removeAllowFromConfig principals file)

inductive ServiceVerb where
  | registerService (name : String) (backend : BackendSpec) (allow : List String)
      (ephemeral : Bool) (rateLimitPerMin : Option Nat)
  | unregisterService (name : String)
  | grantServiceAccess (principal : String) (services : List String)
  | grantServiceAllow (service principal : String)
  | revokeServiceAllow (service principal : String)
  /-- with the principals that its nickname resolves to -/
  | revokeServiceAccess (principals : List String)
  | unregisterEphemeral (names : List String)
  deriving DecidableEq

/-- Where a call is; every phase but the first two holds the lock. -/
inductive CallPhase where
  | idle
  | waiting (verb : ServiceVerb)
  /-- awaits what it checks before its first edit -/
  | checking (verb : ServiceVerb)
  /-- awaits its edit; `moved` is what the edit of the overlay reported, `base`
  the file once it is read -/
  | editing (verb : ServiceVerb) (moved : Option Bool) (edit : ConfigEdit)
      (base : Option ConfigFile)
  /-- the edit is done: whether it changed the file, `none` for an error -/
  | edited (verb : ServiceVerb) (moved changed : Option Bool)
  /-- awaits whether a service exists that a revoke found nothing in -/
  | confirming (verb : ServiceVerb)
  /-- awaits the devices to sever -/
  | severing (verb : ServiceVerb)

/-- `returned` is a ghost: the verb that returned `Ok` by the last step. -/
structure ServiceNode where
  file : ConfigFile
  overlay : EphemeralServices
  serve : Admit.ServeState
  lock : Option Nat
  calls : Nat → CallPhase
  orphans : List (ConfigEdit × Option ConfigFile)
  returned : Option ServiceVerb

/-- `ptr` is the address of a rebuilt registry, `none` where the load fails; an
`ok` flag is whether the file operation or the read of the store succeeds. -/
inductive ServiceEvent where
  | call (i : Nat) (verb : ServiceVerb)
  | acquire (i : Nat) (ok : Bool) (ptr : Option Nat)
  | check (i : Nat) (ok : Bool)
  | read (i : Nat) (ok : Bool)
  | write (i : Nat) (ok : Bool)
  | resume (i : Nat) (ptr : Option Nat)
  | confirm (i : Nat) (ok : Bool)
  | sever (i : Nat) (ok : Bool) (endpoints : EndpointId → Bool)
  | abort (i : Nat)
  | orphanRead (k : Nat)
  | orphanWrite (k : Nat) (ok : Bool)
  /-- a session, or a connection, goes on -/
  | session (event : Admit.Event)

/-- A registry is only stored by a verb. -/
def isSwap : Admit.Event → Bool
  | .alloc _ _ | .store _ => true
  | _ => false

namespace ServiceNode

/-- A node that starts on a config file. -/
def start (file : ConfigFile) : ServiceNode :=
  { file, overlay := ∅
    serve := .init (buildServicesWithEphemeral (file.load.getD ∅) ∅)
    lock := none, calls := fun _ => .idle, orphans := [], returned := none }

/-- Go on under the lock. -/
def hold (s : ServiceNode) (i : Nat) (phase : CallPhase) : ServiceNode :=
  { s with lock := some i, calls := Function.update s.calls i phase, returned := none }

/-- Return: `Ok` of the verb, or an error. -/
def finish (s : ServiceNode) (i : Nat) (result : Option ServiceVerb) : ServiceNode :=
  { s with lock := none, calls := Function.update s.calls i .idle, returned := result }

/-- `swap_services` -/
def swapServices (s : ServiceNode) (ptr : Nat) (services : Admit.Services) : Option ServiceNode :=
  ((s.serve.step (.alloc ptr services)).bind fun serve => serve.step (.store ptr)).map
    fun serve => { s with serve }

/-- `reload_services_from_disk`, and whether the load succeeded. -/
def reloadServicesFromDisk (s : ServiceNode) (ptr : Option Nat) : Option (ServiceNode × Bool) :=
  match ptr, s.file.load with
  | some ptr, some cfg =>
      (s.swapServices ptr (buildServicesWithEphemeral cfg s.overlay)).map (·, true)
  | _, _ => some (s, false)

/-- The live registry. -/
def services (s : ServiceNode) : Admit.Services := (s.serve.heap s.serve.live).getD ∅

/-- `apply_ephemeral_allow` -/
def applyEphemeralAllow (s : ServiceNode) (service : String) (ptr : Option Nat) :
    Option (ServiceNode × Bool) :=
  match (s.overlay.lookup service).bind fun entry =>
      withAllowReplaced s.services service entry.allow with
  | some services => ptr.bind fun ptr => (s.swapServices ptr services).map (·, true)
  | none => s.reloadServicesFromDisk ptr

/-- Return what the reload did. -/
def settle (i : Nat) (verb : ServiceVerb) (reloaded : ServiceNode × Bool) : ServiceNode :=
  reloaded.1.finish i (if reloaded.2 then some verb else none)

/-- Go on to the sever, unless the reload failed. -/
def toSever (i : Nat) (verb : ServiceVerb) (reloaded : ServiceNode × Bool) : ServiceNode :=
  if reloaded.2 then reloaded.1.hold i (.severing verb) else reloaded.1.finish i none

/-- `service_servable_in_config` -/
def servableInConfig (s : ServiceNode) (service : String) : Bool :=
  s.file.load.any fun cfg => (cfg.lookup service).any fun entry => entry.offer.isSome

/-- From the lock to the first await. -/
def enter (s : ServiceNode) (i : Nat) (ok : Bool) (ptr : Option Nat) (verb : ServiceVerb) :
    Option ServiceNode :=
  match verb with
  | .registerService name backend allow ephemeral rate =>
      if rate = some 0 then some (s.finish i none)
      else if ephemeral then
        match s.file.load with
        | some cfg =>
            if !ok || name ∈ cfg then some (s.finish i none)
            else
              let overlay := s.overlay.insert name ⟨backend, allow, rate⟩
              ({ s with overlay }.reloadServicesFromDisk ptr).map (settle i verb)
        | none => some (s.finish i none)
      else if name ∈ s.overlay then some (s.finish i none)
      else some (s.hold i (.editing verb none (.writeService name backend allow rate) none))
  | .unregisterService name =>
      let dropped := decide (name ∈ s.overlay)
      some ({ s with overlay := s.overlay.erase name }.hold i
        (.editing verb (some dropped) (.removeService name) none))
  | .grantServiceAccess principal services =>
      some (s.hold i (.editing verb none (.appendAllow principal services) none))
  | .grantServiceAllow _ _ | .revokeServiceAccess _ => some (s.hold i (.checking verb))
  | .revokeServiceAllow service principal =>
      let (moved, overlay) := revokeEphemeral s.overlay service principal
      some ({ s with overlay }.hold i
        (.editing verb moved (.removePrincipal service principal) none))
  | .unregisterEphemeral names =>
      if names.isEmpty then some (s.finish i (some verb))
      else
        let overlay := names.foldl (fun overlay name => overlay.erase name) s.overlay
        -- a failed reload is only logged
        ({ s with overlay }.reloadServicesFromDisk ptr).map
          fun (reloaded : ServiceNode × Bool) => reloaded.1.finish i (some verb)

/-- After the checks, which `ok` says passed. -/
def checked (s : ServiceNode) (i : Nat) (ok : Bool) (verb : ServiceVerb) : ServiceNode :=
  match verb with
  | .grantServiceAllow service principal =>
      if ok && (service ∈ s.overlay || s.servableInConfig service) then
        s.hold i (.editing verb none (.appendAllow principal [service]) none)
      else s.finish i none
  | .revokeServiceAccess principals =>
      if !ok then s.finish i none
      else if principals.isEmpty then s.finish i (some verb)
      else s.hold i (.editing verb none (.removeAllow principals) none)
  | _ => s.finish i none

/-- Grant in the overlay, for each service that it has. -/
def grantEphemerals (principal : String) (services : List String) (overlay : EphemeralServices) :
    Bool × EphemeralServices :=
  services.foldl (fun acc service =>
    let (moved, overlay) := grantEphemeral acc.2 service principal
    (acc.1 || moved.getD false, overlay)) (false, overlay)

/-- From the end of the edit to the next await, or to the end. -/
def edited (s : ServiceNode) (i : Nat) (ptr : Option Nat) (moved : Option Bool) (changed : Bool)
    (verb : ServiceVerb) : Option ServiceNode :=
  match verb with
  | .unregisterService _ =>
      if moved.getD false || changed then (s.reloadServicesFromDisk ptr).map (settle i verb)
      else some (s.finish i (some verb))
  | .grantServiceAccess principal services =>
      let (moved, overlay) := grantEphemerals principal services s.overlay
      let s := { s with overlay }
      if changed || moved then (s.reloadServicesFromDisk ptr).map (settle i verb)
      else some (s.finish i (some verb))
  | .grantServiceAllow service principal =>
      let (moved, overlay) := grantEphemeral s.overlay service principal
      let s := { s with overlay }
      if changed then (s.reloadServicesFromDisk ptr).map (settle i verb)
      else if moved.getD false then (s.applyEphemeralAllow service ptr).map (settle i verb)
      else some (s.finish i (some verb))
  | .revokeServiceAllow service _ =>
      if moved.isNone && !changed then some (s.hold i (.confirming verb))
      else if changed || moved.getD false then
        (if changed then s.reloadServicesFromDisk ptr
          else s.applyEphemeralAllow service ptr).map (toSever i verb)
      else some (s.finish i (some verb))
  | .revokeServiceAccess _ =>
      if changed then (s.reloadServicesFromDisk ptr).map (toSever i verb)
      else some (s.hold i (.severing verb))
  | _ => (s.reloadServicesFromDisk ptr).map (settle i verb)

/-- The principals that a verb severs. -/
def severed : ServiceVerb → List String
  | .revokeServiceAllow _ principal => [principal]
  | .revokeServiceAccess principals => principals
  | _ => []

/-- The call is dropped; an edit that runs goes on. -/
def abort (s : ServiceNode) (i : Nat) : Option ServiceNode :=
  match s.calls i with
  | .idle => none
  | .waiting _ => some { s with calls := Function.update s.calls i .idle, returned := none }
  | .editing _ _ edit base =>
      some { s.finish i none with orphans := s.orphans ++ [(edit, base)] }
  | _ => some (s.finish i none)

end ServiceNode

/-- What the write of an edit does: the file, and whether it changed; `none` for
an error. -/
def ConfigEdit.write (ok : Bool) (base file : ConfigFile) (edit : ConfigEdit) :
    ConfigFile × Option Bool :=
  match edit.run base with
  | .ok none => (file, some false)
  | .ok (some file') => if ok then (file', some true) else (file, none)
  | .error _ => (file, none)

/-- One step; `none` where it cannot be taken. -/
def serviceStep (s : ServiceNode) : ServiceEvent → Option ServiceNode
  | .call i verb =>
      match s.calls i with
      | .idle =>
          some { s with calls := Function.update s.calls i (.waiting verb), returned := none }
      | _ => none
  | .acquire i ok ptr =>
      match s.calls i, s.lock with
      | .waiting verb, none => s.enter i ok ptr verb
      | _, _ => none
  | .check i ok =>
      match s.calls i with
      | .checking verb => some (s.checked i ok verb)
      | _ => none
  | .read i ok =>
      match s.calls i with
      | .editing verb moved edit none =>
          some (s.hold i
            (if ok then .editing verb moved edit (some s.file) else .edited verb moved none))
      | _ => none
  | .write i ok =>
      match s.calls i with
      | .editing verb moved edit (some base) =>
          let (file, changed) := edit.write ok base s.file
          some ({ s with file }.hold i (.edited verb moved changed))
      | _ => none
  | .resume i ptr =>
      match s.calls i with
      | .edited verb moved (some changed) => s.edited i ptr moved changed verb
      | .edited _ _ none => some (s.finish i none)
      | _ => none
  | .confirm i ok =>
      match s.calls i with
      | .confirming (.revokeServiceAllow service principal) =>
          some (s.finish i (if ok && s.servableInConfig service
            then some (.revokeServiceAllow service principal) else none))
      | _ => none
  | .sever i ok endpoints =>
      match s.calls i with
      | .severing verb =>
          if ok then
            (s.serve.step (.sever endpoints (· ∈ ServiceNode.severed verb))).map fun serve =>
              { s with serve }.finish i (some verb)
          else some (s.finish i none)
      | _ => none
  | .abort i => s.abort i
  | .orphanRead k =>
      match s.orphans[k]? with
      | some (edit, none) =>
          some { s with orphans := s.orphans.set k (edit, some s.file), returned := none }
      | _ => none
  | .orphanWrite k ok =>
      match s.orphans[k]? with
      | some (edit, some base) =>
          some { s with
            file := (edit.write ok base s.file).1
            orphans := s.orphans.eraseIdx k
            returned := none }
      | _ => none
  | .session event =>
      if isSwap event then none
      else (s.serve.step event).map fun serve => { s with serve, returned := none }

end Mcpmesh
