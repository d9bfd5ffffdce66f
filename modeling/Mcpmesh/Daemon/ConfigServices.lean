import Mcpmesh.Lib.AssocMap
import Mcpmesh.Net.Admit

/-!
# Mcpmesh.Daemon.ConfigServices

The `[services.*]` tables of `config.toml`: the writers that edit them
(`node/src/daemon/config_write.rs`), the typed load (`node/src/config.rs`), the
overlay of ephemeral registrations and the registry built from both
(`node/src/daemon.rs`).

A writer reads the file, edits the tables and renames a new file into place, or
finds nothing to do and writes nothing.
-/

namespace Mcpmesh

open Lib

/-! ## the file -/

/-- The value under `allow`, as the writers look at it: the elements of an
array, `none` for one that is no string. -/
inductive AllowValue where
  | absent
  | malformed
  | array (elements : List (Option String))
  deriving DecidableEq

structure ServiceTable where
  run : Option (List String)
  socket : Option String
  env : List (String × String)
  cwd : Option String
  allow : AllowValue
  rateLimitPerMin : Option Nat
  deriving DecidableEq

/-- `[services.<name>]`; a value that is no table is malformed. -/
inductive ServiceEntry where
  | malformed
  | table (t : ServiceTable)
  deriving DecidableEq

abbrev ServiceEntries := AList fun _ : String => ServiceEntry

/-- `[services]` -/
inductive ServicesValue where
  | absent
  | malformed
  | table (entries : ServiceEntries)

/-- `config.toml`, of which the service verbs touch `[services]`. -/
structure ConfigFile where
  services : ServicesValue

/-- What an allow value lists. -/
def AllowValue.listed : AllowValue → List String
  | .array elements => elements.filterMap id
  | _ => []

def ServiceEntry.listed : ServiceEntry → List String
  | .malformed => []
  | .table t => t.allow.listed

def ServicesValue.entries : ServicesValue → ServiceEntries
  | .table entries => entries
  | _ => ∅

/-- The allow list of a service in the file. -/
def ConfigFile.allow (file : ConfigFile) (service : String) : List String :=
  ((file.services.entries.lookup service).map ServiceEntry.listed).getD []

/-! ## the writers -/

inductive ConfigError where
  | servicesNotTable
  | serviceNotTable (service : String)
  | allowNotArray (service : String)

/-- `BackendSpec` -/
inductive BackendSpec where
  | run (cmd : List String) (env : List (String × String)) (cwd : Option String)
  | socket (path : String)
  deriving DecidableEq

/-- The entry that a registration writes. -/
def BackendSpec.table (allow : AllowValue) (rateLimitPerMin : Option Nat) :
    BackendSpec → ServiceTable
  | .run cmd env cwd => { run := some cmd, socket := none, env, cwd, allow, rateLimitPerMin }
  | .socket path =>
      { run := none, socket := some path, env := [], cwd := none, allow, rateLimitPerMin }

/-- `merged_allow`: the grants on disk, then the names that are not among them. -/
def mergedAllow (allow : List String) (existing : List String) : List String :=
  allow.foldl (fun merged a => if a ∈ merged then merged else merged ++ [a]) existing

/-- `write_service_to_config`: the backend is replaced, the grants are kept and
the rate too where none is given. -/
def writeServiceToConfig (name : String) (backend : BackendSpec) (allow : List String)
    (rateLimitPerMin : Option Nat) (file : ConfigFile) : Except ConfigError ConfigFile :=
  let write (entries : ServiceEntries) : ConfigFile :=
    let existing := entries.lookup name
    let merged := mergedAllow allow ((existing.map ServiceEntry.listed).getD [])
    let preserved := rateLimitPerMin.or <| existing.bind fun
      | .table t => t.rateLimitPerMin
      | .malformed => none
    ⟨.table (entries.insert name (.table
      (backend.table (.array (merged.map some)) preserved)))⟩
  match file.services with
  | .malformed => .error .servicesNotTable
  | .absent => .ok (write ∅)
  | .table entries => .ok (write entries)

/-- `remove_service_from_config` -/
def removeServiceFromConfig (name : String) (file : ConfigFile) : Option ConfigFile :=
  match file.services with
  | .table entries => if name ∈ entries then some ⟨.table (entries.erase name)⟩ else none
  | _ => none

/-- The append of `append_allow_to_config` to one service; one that is not in
the file is skipped. -/
def appendAllow (principal : String) (acc : ServiceEntries × Bool) (service : String) :
    Except ConfigError (ServiceEntries × Bool) :=
  match acc.1.lookup service with
  | none => .ok acc
  | some .malformed => .error (.serviceNotTable service)
  | some (.table t) =>
      let push (elements : List (Option String)) : ServiceEntries × Bool :=
        if some principal ∈ elements then acc
        else
          (acc.1.insert service (.table { t with allow := .array (elements ++ [some principal]) }),
            true)
      match t.allow with
      | .malformed => .error (.allowNotArray service)
      | .absent => .ok (push [])
      | .array elements => .ok (push elements)

/-- `append_allow_to_config` -/
def appendAllowToConfig (principal : String) (services : List String) (file : ConfigFile) :
    Except ConfigError (Option ConfigFile) :=
  match file.services with
  | .table entries => do
      let (entries, changed) ← services.foldlM (appendAllow principal) (entries, false)
      pure (if changed then some ⟨.table entries⟩ else none)
  | _ => .ok none

/-- The elements that `allow.retain(..)` keeps: what is no string stays. -/
def kept (principals : List String) (elements : List (Option String)) : List (Option String) :=
  elements.filter fun e => !e.any (· ∈ principals)

/-- An entry without the principals, where it lists one; a malformed entry is
skipped. -/
def ServiceEntry.strip (principals : List String) : ServiceEntry → Option ServiceEntry
  | .malformed => none
  | .table t =>
      match t.allow with
      | .array elements =>
          if (kept principals elements).length = elements.length then none
          else some (.table { t with allow := .array (kept principals elements) })
      | _ => none

/-- `remove_principal_from_service` -/
def removePrincipalFromService (service principal : String) (file : ConfigFile) :
    Option ConfigFile :=
  match file.services with
  | .table entries =>
      ((entries.lookup service).bind (ServiceEntry.strip [principal])).map fun entry =>
        ⟨.table (entries.insert service entry)⟩
  | _ => none

/-- `remove_allow_from_config` -/
def removeAllowFromConfig (principals : List String) (file : ConfigFile) : Option ConfigFile :=
  match file.services with
  | .table entries =>
      if entries.entries.any fun e => (e.2.strip principals).isSome then
        some ⟨.table (filterMapValues (fun entry => some ((entry.strip principals).getD entry))
          entries)⟩
      else none
  | _ => none

/-! ## the load -/

/-- `ServiceCfg` -/
structure ServiceCfg where
  run : Option (List String)
  socket : Option String
  allow : List String
  env : List (String × String)
  cwd : Option String
  rateLimitPerMin : Option Nat

inductive Backend where
  | run (cmd : List String)
  | socket (path : String)

/-- `ServiceCfg::backend_result`: exactly one kind. -/
def ServiceCfg.backendResult (cfg : ServiceCfg) : Except String Backend :=
  match cfg.run, cfg.socket with
  | some cmd, none => .ok (.run cmd)
  | none, some path => .ok (.socket path)
  | some _, some _ => .error "service has both run and socket"
  | none, none => .error "service has neither run nor socket"

/-- The strings of an allow value; the typed load takes no other element. -/
def AllowValue.load : AllowValue → Option (List String)
  | .absent => some []
  | .malformed => none
  | .array elements => if elements.all Option.isSome then some (elements.filterMap id) else none

def ServiceEntry.load : ServiceEntry → Option ServiceCfg
  | .malformed => none
  | .table t => t.allow.load.map fun allow =>
      { run := t.run, socket := t.socket, allow, env := t.env, cwd := t.cwd
        rateLimitPerMin := t.rateLimitPerMin }

/-- `Config::load`, of the services: one malformed entry fails it. -/
def ConfigFile.load (file : ConfigFile) : Option (AList fun _ : String => ServiceCfg) :=
  match file.services with
  | .absent => some ∅
  | .malformed => none
  | .table entries =>
      if entries.entries.all fun e => e.2.load.isSome then
        some (filterMapValues ServiceEntry.load entries)
      else none

/-! ## the overlay -/

/-- `EphemeralService` -/
structure EphemeralService where
  backend : BackendSpec
  allow : List String
  rateLimitPerMin : Option Nat

abbrev EphemeralServices := AList fun _ : String => EphemeralService

/-- The allow list of a service in the overlay. -/
def ephemeralAllow (overlay : EphemeralServices) (service : String) : List String :=
  ((overlay.lookup service).map EphemeralService.allow).getD []

/-- `grant_ephemeral`: `none` where no registration has the name, else whether
its list changed. -/
def grantEphemeral (overlay : EphemeralServices) (service principal : String) :
    Option Bool × EphemeralServices :=
  match overlay.lookup service with
  | none => (none, overlay)
  | some entry =>
      if principal ∈ entry.allow then (some false, overlay)
      else
        (some true, overlay.insert service { entry with allow := entry.allow ++ [principal] })

/-- `revoke_ephemeral` -/
def revokeEphemeral (overlay : EphemeralServices) (service principal : String) :
    Option Bool × EphemeralServices :=
  match overlay.lookup service with
  | none => (none, overlay)
  | some entry =>
      let allow := entry.allow.filter (· ≠ principal)
      (some (allow.length ≠ entry.allow.length), overlay.insert service { entry with allow })

/-! ## the registry -/

/-- What a configured service offers; one without a backend is skipped. -/
def ServiceCfg.offer (cfg : ServiceCfg) : Option (List String) :=
  match cfg.backendResult with
  | .ok _ => some cfg.allow
  | .error _ => none

/-- `build_services_with_ephemeral`: the overlay shadows the config. -/
def buildServicesWithEphemeral (cfg : AList fun _ : String => ServiceCfg)
    (ephemeral : EphemeralServices) : Admit.Services :=
  filterMapValues (fun entry => some entry.allow) ephemeral ∪ filterMapValues ServiceCfg.offer cfg

/-- `with_allow_replaced` -/
def withAllowReplaced (services : Admit.Services) (name : String) (allow : List String) :
    Option Admit.Services :=
  if name ∈ services then some (services.insert name allow) else none

/-! ## what an edit leaves -/

section Edits

variable {file : ConfigFile} {principals : List String} {service s p q : String}

/-- A strip leaves the entry with what is kept of its list, changed or not. -/
theorem strip_array {t : ServiceTable} {elements : List (Option String)}
    (hallow : t.allow = .array elements) :
    ((ServiceEntry.table t).strip principals).getD (.table t) =
      .table { t with allow := .array (kept principals elements) } := by
  simp only [ServiceEntry.strip, hallow]
  split
  · next hlength =>
    have hsame : kept principals elements = elements :=
      List.filter_eq_self.mpr (List.length_filter_eq_length_iff.mp hlength)
    rw [hsame, ← hallow]
    rfl
  · rfl

/-- A strip takes the principals off a list, and nothing else. -/
theorem listed_strip (entry : ServiceEntry) :
    q ∈ ((entry.strip principals).getD entry).listed ↔ q ∈ entry.listed ∧ q ∉ principals := by
  cases entry with
  | malformed => simp [ServiceEntry.strip, ServiceEntry.listed]
  | table t =>
      cases hallow : t.allow with
      | absent | malformed =>
          simp [ServiceEntry.strip, ServiceEntry.listed, AllowValue.listed, hallow]
      | array elements =>
          have hkept : q ∈ (kept principals elements).filterMap id ↔
              q ∈ elements.filterMap id ∧ q ∉ principals := by
            simp [kept]
          rw [strip_array hallow]
          simpa [ServiceEntry.listed, AllowValue.listed, hallow] using hkept

/-- A file lists what its entry does. -/
theorem mem_allow : q ∈ file.allow s ↔
    ∃ entry, file.services.entries.lookup s = some entry ∧ q ∈ entry.listed := by
  rw [ConfigFile.allow]
  cases file.services.entries.lookup s <;> simp

/-- The edit takes one principal off one list. -/
theorem mem_allow_removePrincipal :
    q ∈ ((removePrincipalFromService service p file).getD file).allow s ↔
      q ∈ file.allow s ∧ ¬ (s = service ∧ q = p) := by
  cases hservices : file.services with
  | absent | malformed =>
      simp [removePrincipalFromService, hservices, mem_allow, ServicesValue.entries]
  | table entries =>
      cases hentry : entries.lookup service with
      | none =>
          have hother : q ∈ file.allow s → s ≠ service := by
            rintro hq rfl
            obtain ⟨entry, hlookup, -⟩ := mem_allow.mp hq
            simp [hservices, ServicesValue.entries, hentry] at hlookup
          simp only [removePrincipalFromService, hservices, hentry, Option.bind_none,
            Option.map_none, Option.getD_none]
          exact ⟨fun hq => ⟨hq, fun h => hother hq h.1⟩, And.left⟩
      | some entry =>
          have hlisted : q ∈ ((entry.strip [p]).getD entry).listed ↔ q ∈ entry.listed ∧ q ∉ [p] :=
            listed_strip entry
          by_cases hs : s = service
          · subst hs
            cases hstrip : entry.strip [p] with
            | none =>
                simpa [removePrincipalFromService, hservices, hentry, hstrip, mem_allow,
                  ServicesValue.entries] using hlisted
            | some stripped =>
                simpa [removePrincipalFromService, hservices, hentry, hstrip, mem_allow,
                  ServicesValue.entries] using hlisted
          · cases hstrip : entry.strip [p] with
            | none => simp [removePrincipalFromService, hservices, hentry, hstrip, hs]
            | some stripped =>
                simp [removePrincipalFromService, hservices, hentry, hstrip, mem_allow,
                  ServicesValue.entries, hs]

/-- An entry is stripped if it lists one of the principals. -/
theorem strip_isSome (entry : ServiceEntry) :
    (entry.strip principals).isSome = true ↔ ∃ q ∈ principals, q ∈ entry.listed := by
  cases entry with
  | malformed => simp [ServiceEntry.strip, ServiceEntry.listed]
  | table t =>
      cases hallow : t.allow with
      | absent | malformed =>
          simp [ServiceEntry.strip, ServiceEntry.listed, AllowValue.listed, hallow]
      | array elements =>
          have hkept : (kept principals elements).length = elements.length ↔
              ∀ q ∈ principals, q ∉ elements.filterMap id := by
            rw [kept, List.length_filter_eq_length_iff]
            simp only [List.mem_filterMap, id_eq, exists_eq_right, Bool.not_eq_true',
              Option.any_eq_false, decide_eq_false_iff_not]
            grind
          have hstrip : ((ServiceEntry.table t).strip principals).isSome = true ↔
              ¬ (kept principals elements).length = elements.length := by
            simp only [ServiceEntry.strip, hallow]
            split <;> simp_all
          rw [hstrip, hkept]
          simp [ServiceEntry.listed, AllowValue.listed, hallow]

/-- Every entry is stripped, where the file is written and where not. -/
theorem lookup_removeAllow :
    ((removeAllowFromConfig principals file).getD file).services.entries.lookup s =
      (file.services.entries.lookup s).map fun entry => (entry.strip principals).getD entry := by
  cases hservices : file.services with
  | absent | malformed =>
      simp [removeAllowFromConfig, hservices, ServicesValue.entries]
  | table entries =>
      simp only [removeAllowFromConfig, hservices]
      split
      · cases hentry : entries.lookup s <;>
          simp [ServicesValue.entries, lookup_filterMapValues, hentry]
      · next hnone =>
        simp only [List.any_eq_true, not_exists, not_and, Bool.not_eq_true,
          Option.isSome_eq_false_iff, Option.isNone_iff_eq_none] at hnone
        simp only [Option.getD_none, hservices, ServicesValue.entries]
        cases hentry : entries.lookup s with
        | none => rfl
        | some entry =>
            have hsame : entry.strip principals = none :=
              hnone ⟨s, entry⟩ (AList.mem_lookup_iff.mp hentry)
            rw [Option.map_some, hsame, Option.getD_none]

/-- The edit takes the principals off every list. -/
theorem mem_allow_removeAllow :
    q ∈ ((removeAllowFromConfig principals file).getD file).allow s ↔
      q ∈ file.allow s ∧ q ∉ principals := by
  rw [mem_allow, lookup_removeAllow, mem_allow]
  simp only [Option.map_eq_some_iff]
  constructor
  · rintro ⟨entry', ⟨entry, hentry, rfl⟩, hlisted⟩
    have hq := (listed_strip entry).mp hlisted
    exact ⟨⟨entry, hentry, hq.1⟩, hq.2⟩
  · rintro ⟨⟨entry, hentry, hlisted⟩, hq⟩
    exact ⟨_, ⟨entry, hentry, rfl⟩, (listed_strip entry).mpr ⟨hlisted, hq⟩⟩

/-- The file is written exactly when it lists one of the principals. -/
theorem removeAllow_isSome : (removeAllowFromConfig principals file).isSome = true ↔
    ∃ s, ∃ q ∈ principals, q ∈ file.allow s := by
  cases hservices : file.services with
  | absent | malformed =>
      simp [removeAllowFromConfig, hservices, mem_allow, ServicesValue.entries]
  | table entries =>
      have hwritten : (removeAllowFromConfig principals file).isSome = true ↔
          ∃ e ∈ entries.entries, (e.2.strip principals).isSome = true := by
        simp only [removeAllowFromConfig, hservices]
        split
        · next hsome => simpa using hsome
        · next hnone => simpa using hnone
      rw [hwritten]
      simp only [mem_allow, hservices, ServicesValue.entries, strip_isSome]
      constructor
      · rintro ⟨⟨s, entry⟩, hmem, q, hq, hlisted⟩
        exact ⟨s, q, hq, entry, AList.mem_lookup_iff.mpr hmem, hlisted⟩
      · rintro ⟨s, q, hq, entry, hentry, hlisted⟩
        exact ⟨⟨s, entry⟩, AList.mem_lookup_iff.mp hentry, q, hq, hlisted⟩

/-- The edit removes one service. -/
theorem lookup_removeService :
    ((removeServiceFromConfig service file).getD file).services.entries.lookup s =
      if s = service then none else file.services.entries.lookup s := by
  cases hservices : file.services with
  | absent | malformed =>
      simp [removeServiceFromConfig, hservices, ServicesValue.entries]
  | table entries =>
      simp only [removeServiceFromConfig, hservices]
      split
      · simp [ServicesValue.entries, lookup_alist_erase]
      · next habsent =>
        have hnone := AList.lookup_eq_none.mpr habsent
        simp only [Option.getD_none, hservices, ServicesValue.entries]
        split
        · next hs =>
          subst hs
          exact hnone
        · rfl

end Edits

/-! ## what a registry is built from -/

section Registry

variable {file : ConfigFile} {cfg : AList fun _ : String => ServiceCfg}
  {overlay : EphemeralServices} {service s p q : String} {allow : List String}

/-- A load is entry by entry. -/
theorem lookup_load (h : file.load = some cfg) :
    cfg.lookup s = (file.services.entries.lookup s).bind ServiceEntry.load := by
  cases hservices : file.services with
  | absent =>
      simp only [ConfigFile.load, hservices, Option.some.injEq] at h
      simp [← h, ServicesValue.entries]
  | malformed => simp [ConfigFile.load, hservices] at h
  | table entries =>
      simp only [ConfigFile.load, hservices] at h
      obtain ⟨-, h⟩ := Option.ite_none_right_eq_some.mp h
      rw [← Option.some.inj h, lookup_filterMapValues]
      rfl

/-- The overlay shadows the config. -/
theorem lookup_buildServices : (buildServicesWithEphemeral cfg overlay).lookup s =
    ((overlay.lookup s).map EphemeralService.allow).or ((cfg.lookup s).bind ServiceCfg.offer) := by
  rw [buildServicesWithEphemeral, lookup_union_eq_or, lookup_filterMapValues,
    lookup_filterMapValues]
  cases overlay.lookup s <;> rfl

/-- A configured service offers what its entry lists. -/
theorem allow_of_offer {entry : ServiceEntry} {loaded : ServiceCfg}
    (hload : entry.load = some loaded) (hoffer : loaded.offer = some allow) :
    allow = entry.listed := by
  cases entry with
  | malformed => contradiction
  | table t =>
      obtain ⟨listed, hlisted, rfl⟩ := Option.map_eq_some_iff.mp hload
      have hallow : allow = listed := by
        simp only [ServiceCfg.offer] at hoffer
        split at hoffer
        · exact (Option.some.inj hoffer).symm
        · contradiction
      rw [hallow, ServiceEntry.listed]
      cases hvalue : t.allow with
      | absent =>
          rw [hvalue] at hlisted
          exact (Option.some.inj hlisted).symm
      | malformed =>
          rw [hvalue] at hlisted
          contradiction
      | array elements =>
          rw [hvalue] at hlisted
          obtain ⟨-, hlisted⟩ := Option.ite_none_right_eq_some.mp hlisted
          exact (Option.some.inj hlisted).symm

/-- The overlay lists what its entry does. -/
theorem mem_ephemeralAllow : q ∈ ephemeralAllow overlay s ↔
    ∃ entry, overlay.lookup s = some entry ∧ q ∈ entry.allow := by
  rw [ephemeralAllow]
  cases overlay.lookup s <;> simp

/-- A registry lists only what the overlay or the file does. -/
theorem listed_of_build (hload : file.load = some cfg)
    (hlookup : (buildServicesWithEphemeral cfg overlay).lookup s = some allow) (hq : q ∈ allow) :
    q ∈ ephemeralAllow overlay s ∨ q ∈ file.allow s := by
  rw [lookup_buildServices] at hlookup
  cases hentry : overlay.lookup s with
  | some entry =>
      rw [hentry, Option.map_some, Option.some_or, Option.some.injEq] at hlookup
      exact .inl (mem_ephemeralAllow.mpr ⟨entry, hentry, hlookup ▸ hq⟩)
  | none =>
      rw [hentry, Option.map_none, Option.none_or, lookup_load hload] at hlookup
      obtain ⟨loaded, hloaded, hoffer⟩ := Option.bind_eq_some_iff.mp hlookup
      obtain ⟨entry, hentry, hloaded⟩ := Option.bind_eq_some_iff.mp hloaded
      exact .inr (mem_allow.mpr ⟨entry, hentry, allow_of_offer hloaded hoffer ▸ hq⟩)

/-- A registry offers no service that neither the overlay nor the file has. -/
theorem lookup_build_eq_none (hload : file.load = some cfg) (hoverlay : overlay.lookup s = none)
    (hfile : file.services.entries.lookup s = none) :
    (buildServicesWithEphemeral cfg overlay).lookup s = none := by
  rw [lookup_buildServices, lookup_load hload, hoverlay, hfile]
  rfl

/-- A revoke takes one principal off one list of the overlay. -/
theorem mem_ephemeralAllow_revoke :
    q ∈ ephemeralAllow (revokeEphemeral overlay service p).2 s ↔
      q ∈ ephemeralAllow overlay s ∧ ¬ (s = service ∧ q = p) := by
  cases hentry : overlay.lookup service with
  | none =>
      have hother : q ∈ ephemeralAllow overlay s → s ≠ service := by
        rintro hq rfl
        obtain ⟨entry, hlookup, -⟩ := mem_ephemeralAllow.mp hq
        simp [hentry] at hlookup
      simp only [revokeEphemeral, hentry]
      exact ⟨fun hq => ⟨hq, fun h => hother hq h.1⟩, And.left⟩
  | some entry =>
      by_cases hs : s = service
      · subst hs
        simp [revokeEphemeral, hentry, mem_ephemeralAllow]
      · simp [revokeEphemeral, hentry, mem_ephemeralAllow, hs]

/-- What the registry built from the file and the overlay lists. -/
def Offers (file : ConfigFile) (overlay : EphemeralServices) (service p : String) : Prop :=
  ∃ cfg, file.load = some cfg ∧
    ∃ allow, (buildServicesWithEphemeral cfg overlay).lookup service = some allow ∧ p ∈ allow

/-- What is offered is listed in the overlay or in the file. -/
theorem listed_of_offers (h : Offers file overlay service p) :
    p ∈ ephemeralAllow overlay service ∨ p ∈ file.allow service := by
  obtain ⟨cfg, hload, allow, hlookup, hp⟩ := h
  exact listed_of_build hload hlookup hp

end Registry

/-! ### the registry of a stripped file -/

section Stripped

variable {file : ConfigFile} {cfg cfg' : AList fun _ : String => ServiceCfg}
  {overlay : EphemeralServices} {principals : List String} {service s p : String}

/-- A strip leaves what is no string, so a list loads as before. -/
theorem all_kept (elements : List (Option String)) :
    (kept principals elements).all Option.isSome = elements.all Option.isSome := by
  induction elements with
  | nil => rfl
  | cons e elements ih =>
      rw [kept, List.filter_cons]
      cases e with
      | none => simp
      | some p =>
          split
          · simpa [kept] using ih
          · simpa [kept] using ih

/-- What is kept of a list, read as strings. -/
theorem filterMap_kept (elements : List (Option String)) :
    (kept principals elements).filterMap id =
      (elements.filterMap id).filter (· ∉ principals) := by
  induction elements with
  | nil => rfl
  | cons e elements ih =>
      rw [kept] at ih ⊢
      cases e with
      | none => simpa using ih
      | some p => by_cases hp : p ∈ principals <;> simpa [hp] using ih

/-- A stripped entry loads as the entry does, with what is kept of its list. -/
theorem load_strip (entry : ServiceEntry) :
    ((entry.strip principals).getD entry).load =
      entry.load.map fun cfg => { cfg with allow := cfg.allow.filter (· ∉ principals) } := by
  cases entry with
  | malformed => rfl
  | table t =>
      cases hallow : t.allow with
      | absent | malformed =>
          simp [ServiceEntry.strip, ServiceEntry.load, AllowValue.load, hallow]
      | array elements =>
          have hkept : (AllowValue.array (kept principals elements)).load =
              (AllowValue.array elements).load.map (List.filter (· ∉ principals)) := by
            simp only [AllowValue.load, all_kept, filterMap_kept]
            split <;> simp
          rw [strip_array hallow]
          simp only [ServiceEntry.load, hkept, hallow]
          cases (AllowValue.array elements).load <;> rfl

/-- A file loads if each of its entries does. -/
theorem load_isSome : file.load.isSome = true ↔ file.services ≠ .malformed ∧
    ∀ s entry, file.services.entries.lookup s = some entry → entry.load.isSome = true := by
  cases hservices : file.services with
  | absent => simp [ConfigFile.load, hservices, ServicesValue.entries]
  | malformed => simp [ConfigFile.load, hservices]
  | table entries =>
      have hall : file.load.isSome = true ↔
          ∀ e ∈ entries.entries, e.2.load.isSome = true := by
        simp only [ConfigFile.load, hservices]
        split
        · next hall => simpa using hall
        · next hall => simpa using hall
      rw [hall]
      simp only [ServicesValue.entries, ne_eq, reduceCtorEq, not_false_eq_true, true_and]
      constructor
      · intro h s entry hentry
        exact h ⟨s, entry⟩ (AList.mem_lookup_iff.mp hentry)
      · rintro h ⟨s, entry⟩ hmem
        exact h s entry (AList.mem_lookup_iff.mpr hmem)

/-- A stripped file loads where the file does. -/
theorem load_removeAllow_isSome :
    ((removeAllowFromConfig principals file).getD file).load.isSome = file.load.isSome := by
  have hmalformed : ((removeAllowFromConfig principals file).getD file).services = .malformed ↔
      file.services = .malformed := by
    cases hservices : file.services with
    | absent | malformed => simp [removeAllowFromConfig, hservices]
    | table entries =>
        simp only [removeAllowFromConfig, hservices]
        split <;> simp [hservices]
  rw [Bool.eq_iff_iff, load_isSome, load_isSome, ne_eq, hmalformed]
  refine and_congr_right fun _ => forall_congr' fun s => ?_
  rw [lookup_removeAllow]
  cases file.services.entries.lookup s with
  | none => simp
  | some entry => simp [load_strip]

/-- The strip withdraws its principals from what the file offers, and nothing
else. -/
theorem offer_removeAllow (hload : file.load = some cfg)
    (hload' : ((removeAllowFromConfig principals file).getD file).load = some cfg') :
    (cfg'.lookup s).bind ServiceCfg.offer =
      ((cfg.lookup s).bind ServiceCfg.offer).map (List.filter (· ∉ principals)) := by
  rw [lookup_load hload, lookup_load hload', lookup_removeAllow]
  cases file.services.entries.lookup s with
  | none => rfl
  | some entry =>
      simp only [Option.map_some, Option.bind_some, load_strip]
      cases entry.load with
      | none => rfl
      | some loaded =>
          simp only [Option.map_some, Option.bind_some, ServiceCfg.offer,
            ServiceCfg.backendResult]
          cases loaded.run <;> cases loaded.socket <;> rfl

/-- What the strip does not take off is offered as before. -/
theorem offers_removeAllow (hp : p ∉ principals) :
    Offers ((removeAllowFromConfig principals file).getD file) overlay service p ↔
      Offers file overlay service p := by
  have hlookup : ∀ cfg cfg', file.load = some cfg →
      ((removeAllowFromConfig principals file).getD file).load = some cfg' →
      ((∃ allow, (buildServicesWithEphemeral cfg' overlay).lookup service = some allow ∧
          p ∈ allow) ↔
        ∃ allow, (buildServicesWithEphemeral cfg overlay).lookup service = some allow ∧
          p ∈ allow) := by
    intro cfg cfg' hload hload'
    rw [lookup_buildServices, lookup_buildServices, offer_removeAllow hload hload']
    cases overlay.lookup service with
    | some entry => rfl
    | none =>
        cases (cfg.lookup service).bind ServiceCfg.offer with
        | none => simp
        | some allow => simp [hp]
  have hloads : ((removeAllowFromConfig principals file).getD file).load.isSome =
      file.load.isSome := load_removeAllow_isSome
  constructor
  · rintro ⟨cfg', hload', hlisted⟩
    have hsome : file.load.isSome = true := by
      simp [← hloads, hload']
    obtain ⟨cfg, hload⟩ := Option.isSome_iff_exists.mp hsome
    exact ⟨cfg, hload, (hlookup cfg cfg' hload hload').mp hlisted⟩
  · rintro ⟨cfg, hload, hlisted⟩
    have hsome : ((removeAllowFromConfig principals file).getD file).load.isSome = true := by
      simp [hloads, hload]
    obtain ⟨cfg', hload'⟩ := Option.isSome_iff_exists.mp hsome
    exact ⟨cfg', hload', (hlookup cfg cfg' hload hload').mpr hlisted⟩

end Stripped

end Mcpmesh
