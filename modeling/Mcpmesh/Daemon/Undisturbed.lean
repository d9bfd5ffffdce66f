import Mcpmesh.Daemon.FastSwap
import Mcpmesh.Daemon.Withdrawal

/-!
# Mcpmesh.Daemon.Undisturbed

Runs of the service verbs in which nothing is left half-way.

A withdrawal that removed nothing returns without a rebuild and without a sever,
and that is right in a settled state (`ServiceNode.Settled`).  Here this condition
on the state is derived from the history of the run: no call is dropped or fails
past its checks, and no session runs on a service whose registration is replaced
or dropped (`Undisturbed`).  For then the live registry is what the file and the
overlay give whenever no verb is between its edit and its swap, and what let a
session in is on the live list for as long as the session runs, but for what the
verb at its sever is about to cut.
-/

namespace Mcpmesh

open Lib

/-! ## the condition -/

/-- The services whose registration the verb replaces or drops. -/
def ServiceVerb.replaces : ServiceVerb → List String
  | .registerService name _ _ _ _ | .unregisterService name => [name]
  | .unregisterEphemeral names => names
  | _ => []

/-- The registrations that the call may be about to replace in the live registry. -/
def CallPhase.replaces : CallPhase → List String
  | .waiting verb | .edited verb _ _ => verb.replaces
  | _ => []

/-- No session runs on the service on an open connection. -/
def ServiceNode.Unused (s : ServiceNode) (service : String) : Prop :=
  ∀ session ∈ s.serve.sessions, s.serve.closed session.conn = false →
    session.admittedAs service = []

instance (s : ServiceNode) (service : String) : Decidable (s.Unused service) :=
  inferInstanceAs (Decidable (∀ session ∈ s.serve.sessions, _ → _))

/-- A rebuild goes through, and leaves no session behind on a service that it
replaces. -/
def ServiceNode.Rebuilds (s : ServiceNode) (i : Nat) (ptr : Option Nat) : Prop :=
  ptr.isSome = true ∧ s.file.load.isSome = true ∧ ∀ name ∈ (s.calls i).replaces, s.Unused name

instance (s : ServiceNode) (i : Nat) (ptr : Option Nat) : Decidable (s.Rebuilds i ptr) :=
  inferInstanceAs (Decidable (_ ∧ _ ∧ _))

/-- Whether the call is yet to get the lock. -/
def CallPhase.isWaiting : CallPhase → Bool
  | .waiting _ => true
  | _ => false

/-- The condition on a step: no call is dropped once it has the lock, and none
fails after its checks. -/
def ServiceNode.Undisturbed (s : ServiceNode) : ServiceEvent → Prop
  | .acquire i _ ptr | .resume i ptr => s.Rebuilds i ptr
  | .read _ ok | .write _ ok | .sever _ ok _ => ok = true
  | .abort i => (s.calls i).isWaiting = true
  | _ => True

instance (s : ServiceNode) : (event : ServiceEvent) → Decidable (s.Undisturbed event)
  | .acquire i _ ptr | .resume i ptr => inferInstanceAs (Decidable (s.Rebuilds i ptr))
  | .read _ ok | .write _ ok | .sever _ ok _ => inferInstanceAs (Decidable (ok = true))
  | .abort i => inferInstanceAs (Decidable ((s.calls i).isWaiting = true))
  | .call .. | .check .. | .confirm .. | .orphanRead .. | .orphanWrite .. | .session .. =>
      isTrue trivial

/-! ## what a file offers -/

/-- The edit that a verb runs on the file. -/
def ServiceVerb.edit : ServiceVerb → Option ConfigEdit
  | .registerService name backend allow _ rate => some (.writeService name backend allow rate)
  | .unregisterService name => some (.removeService name)
  | .grantServiceAccess principal services => some (.appendAllow principal services)
  | .grantServiceAllow service principal => some (.appendAllow principal [service])
  | .revokeServiceAllow service principal => some (.removePrincipal service principal)
  | .revokeServiceAccess principals => some (.removeAllow principals)
  | .unregisterEphemeral _ => none

/-- The file has a servable entry of the service, which lists the principal. -/
def ConfigFile.Lists (file : ConfigFile) (service p : String) : Prop :=
  ∃ t : ServiceTable, file.services.entries.lookup service = some (.table t) ∧
    (t.run.isSome ≠ t.socket.isSome) ∧ p ∈ t.allow.listed

section Offered

variable {file file' : ConfigFile} {overlay overlay' : EphemeralServices} {edit : ConfigEdit}
  {service name p q : String} {cfg : AList fun _ : String => ServiceCfg}

/-- An entry offers its list if it has one backend. -/
theorem offer_of_load {t : ServiceTable} {loaded : ServiceCfg}
    (h : (ServiceEntry.table t).load = some loaded) :
    loaded.offer = if t.run.isSome ≠ t.socket.isSome then some t.allow.listed else none := by
  have hlisted : loaded.offer.isSome = true → loaded.offer = some t.allow.listed := by
    intro hsome
    obtain ⟨allow, hallow⟩ := Option.isSome_iff_exists.mp hsome
    rw [hallow, allow_of_offer h hallow, ServiceEntry.listed]
  obtain ⟨allow, -, rfl⟩ := Option.map_eq_some_iff.mp h
  revert hlisted
  cases t.run <;> cases t.socket <;> simp [ServiceCfg.offer, ServiceCfg.backendResult]

/-- A registry lists what the overlay does, and what the file does of the services
that the overlay does not have. -/
theorem offers_iff (hload : file.load.isSome = true) :
    Offers file overlay service p ↔ p ∈ ephemeralAllow overlay service ∨
      overlay.lookup service = none ∧ file.Lists service p := by
  obtain ⟨cfg, hcfg⟩ := Option.isSome_iff_exists.mp hload
  have hoffers : Offers file overlay service p ↔ ∃ allow,
      (buildServicesWithEphemeral cfg overlay).lookup service = some allow ∧ p ∈ allow := by
    simp [Offers, hcfg]
  rw [hoffers, lookup_buildServices, lookup_load hcfg, mem_ephemeralAllow]
  cases hoverlay : overlay.lookup service with
  | some eph => simp
  | none =>
      cases hentry : file.services.entries.lookup service with
      | none => simp [ConfigFile.Lists, hentry]
      | some entry =>
          obtain ⟨loaded, hloaded⟩ :=
            Option.isSome_iff_exists.mp ((load_isSome.mp hload).2 service entry hentry)
          cases entry with
          | malformed => contradiction
          | table t =>
              simp [ConfigFile.Lists, hentry, hloaded, offer_of_load hloaded]

/-- A strip touches the list of an entry alone. -/
theorem strip_table (principals : List String) (t : ServiceTable) :
    ∃ allow, ((ServiceEntry.table t).strip principals).getD (.table t) =
      .table { t with allow } := by
  cases hallow : t.allow with
  | array elements => exact ⟨_, strip_array hallow⟩
  | absent | malformed =>
      have hnone : (ServiceEntry.table t).strip principals = none := by
        simp [ServiceEntry.strip, hallow]
      exact ⟨t.allow, by rw [hnone, Option.getD_none]⟩

/-- A file whose entry of the service is stripped of others lists the principal
still. -/
theorem lists_of_strip {principals : List String} (hp : p ∉ principals)
    (h : file.Lists service p)
    (hlookup : ∀ entry, file.services.entries.lookup service = some entry →
      file'.services.entries.lookup service = some ((entry.strip principals).getD entry)) :
    file'.Lists service p := by
  obtain ⟨t, hentry, hbackend, hlisted⟩ := h
  obtain ⟨allow, hstrip⟩ := strip_table principals t
  have hkept : p ∈ (((ServiceEntry.table t).strip principals).getD (.table t)).listed :=
    (listed_strip (.table t)).mpr ⟨hlisted, hp⟩
  rw [hstrip] at hkept
  exact ⟨{ t with allow }, hstrip ▸ hlookup _ hentry, hbackend, hkept⟩

/-- An insert under another name leaves what the service lists. -/
theorem lists_insert {entries : ServiceEntries} {entry : ServiceEntry} (hne : service ≠ name)
    (h : file.Lists service p) (hentries : file.services.entries = entries) :
    ConfigFile.Lists ⟨.table (entries.insert name entry)⟩ service p := by
  obtain ⟨t, hentry, hkept⟩ := h
  exact ⟨t, (AList.lookup_insert_ne hne).trans (hentries ▸ hentry), hkept⟩

/-- An append to one service takes nothing off a list. -/
theorem lists_appendAllow {entries : ServiceEntries} {changed : Bool}
    {acc : ServiceEntries × Bool} (h : ConfigFile.Lists ⟨.table entries⟩ service p)
    (happend : appendAllow q (entries, changed) name = .ok acc) :
    ConfigFile.Lists ⟨.table acc.1⟩ service p := by
  simp only [appendAllow] at happend
  split at happend
  · exact Except.ok.inj happend ▸ h
  · contradiction
  · next t' hname =>
    -- the entry as it was, or with one principal more
    have hpush : ∀ elements, (∀ p ∈ t'.allow.listed, p ∈ (AllowValue.array elements).listed) →
        (if some q ∈ elements then (entries, changed)
          else (entries.insert name (.table { t' with allow := .array (elements ++ [some q]) }),
            true)) = acc → ConfigFile.Lists ⟨.table acc.1⟩ service p := by
      rintro elements hsub rfl
      split
      · exact h
      · by_cases hs : service = name
        · subst hs
          obtain ⟨t, hentry, hbackend, hlisted⟩ := h
          obtain rfl : t' = t :=
            ServiceEntry.table.inj (Option.some.inj (hname.symm.trans hentry))
          refine ⟨_, AList.lookup_insert _, hbackend, ?_⟩
          simp only [AllowValue.listed, List.filterMap_append, List.mem_append]
          exact .inl (hsub p hlisted)
        · exact lists_insert hs h rfl
    split at happend
    · contradiction
    · next habsent =>
      refine hpush [] (fun p hp => ?_) (Except.ok.inj happend)
      rw [habsent] at hp
      exact absurd hp List.not_mem_nil
    · next elements harray =>
      exact hpush elements (harray ▸ fun _ => id) (Except.ok.inj happend)

/-- An append to several takes nothing off a list. -/
theorem lists_appendAllowToConfig {services : List String} {written : Option ConfigFile}
    (h : file.Lists service p) (hrun : appendAllowToConfig q services file = .ok written) :
    (written.getD file).Lists service p := by
  have hfold : ∀ acc acc' : ServiceEntries × Bool, ConfigFile.Lists ⟨.table acc.1⟩ service p →
      services.foldlM (appendAllow q) acc = .ok acc' →
        ConfigFile.Lists ⟨.table acc'.1⟩ service p := by
    intro acc acc' h hfold
    clear hrun
    induction services generalizing acc with
    | nil => exact Except.ok.inj hfold ▸ h
    | cons name services ih =>
        rw [List.foldlM_cons] at hfold
        cases happend : appendAllow q acc name with
        | error e =>
            rw [happend] at hfold
            contradiction
        | ok acc₁ =>
            rw [happend] at hfold
            exact ih acc₁ (lists_appendAllow h happend) hfold
  simp only [appendAllowToConfig] at hrun
  split at hrun
  · next entries hservices =>
    have hlists : ConfigFile.Lists ⟨.table entries⟩ service p := by
      obtain ⟨t, hentry, hkept⟩ := h
      rw [hservices] at hentry
      exact ⟨t, hentry, hkept⟩
    cases hdone : services.foldlM (appendAllow q) (entries, false) with
    | error e =>
        rw [hdone] at hrun
        contradiction
    | ok acc =>
        rw [hdone] at hrun
        obtain rfl := Except.ok.inj hrun
        split
        · exact hfold _ acc hlists hdone
        · exact h
  · exact Except.ok.inj hrun ▸ h

/-- An edit takes off a list what the verb severs, or all of a service that the
verb replaces. -/
theorem lists_of_run {verb : ServiceVerb} (hedit : verb.edit = some edit)
    {written : Option ConfigFile} (hrun : edit.run file = .ok written)
    (hservice : service ∉ verb.replaces) (hp : p ∉ ServiceNode.severed verb)
    (h : file.Lists service p) : (written.getD file).Lists service p := by
  cases verb with
  | registerService name backend allow ephemeral rate =>
      obtain rfl := Option.some.inj hedit
      have hne : service ≠ name := fun heq => hservice (heq ▸ List.mem_singleton_self _)
      simp only [ConfigEdit.run, writeServiceToConfig] at hrun
      split at hrun
      · contradiction
      · next habsent =>
        obtain rfl := Except.ok.inj hrun
        exact lists_insert hne h (by rw [habsent]; rfl)
      · next entries hentries =>
        obtain rfl := Except.ok.inj hrun
        exact lists_insert hne h (by rw [hentries]; rfl)
  | unregisterService name =>
      obtain rfl := Option.some.inj hedit
      obtain rfl := Except.ok.inj hrun
      have hne : service ≠ name := fun heq => hservice (heq ▸ List.mem_singleton_self _)
      obtain ⟨t, hentry, hkept⟩ := h
      exact ⟨t, (lookup_removeService.trans (if_neg hne)).trans hentry, hkept⟩
  | grantServiceAccess principal services =>
      obtain rfl := Option.some.inj hedit
      exact lists_appendAllowToConfig h hrun
  | grantServiceAllow service' principal =>
      obtain rfl := Option.some.inj hedit
      exact lists_appendAllowToConfig h hrun
  | revokeServiceAllow service' principal =>
      obtain rfl := Option.some.inj hedit
      obtain rfl := Except.ok.inj hrun
      simp only [removePrincipalFromService]
      split
      · next entries hservices =>
        cases hstrip : (entries.lookup service').bind (ServiceEntry.strip [principal]) with
        | none => exact h
        | some stripped =>
            obtain ⟨entry, hentry, hstrip⟩ := Option.bind_eq_some_iff.mp hstrip
            by_cases hs : service = service'
            · subst hs
              have hkept : p ∉ [principal] := hp
              refine lists_of_strip hkept h fun entry' hentry' => ?_
              obtain rfl : entry' = entry := by
                rw [hservices] at hentry'
                exact Option.some.inj (hentry'.symm.trans hentry)
              rw [hstrip]
              exact AList.lookup_insert _
            · exact lists_insert hs h (by rw [hservices]; rfl)
      · exact h
  | revokeServiceAccess principals =>
      obtain rfl := Option.some.inj hedit
      obtain rfl := Except.ok.inj hrun
      have hkept : p ∉ principals := hp
      refine lists_of_strip hkept h fun entry hentry => ?_
      rw [lookup_removeAllow, hentry, Option.map_some]
  | unregisterEphemeral names => contradiction

end Offered

/-! ## what an overlay offers -/

/-- The overlay that a verb leaves when it enters, from the one that it finds. -/
def ServiceVerb.Entered (overlay : EphemeralServices) (moved : Option Bool)
    (overlay' : EphemeralServices) : ServiceVerb → Prop
  | .unregisterService name =>
      moved = some (decide (name ∈ overlay)) ∧ overlay' = overlay.erase name
  | .revokeServiceAllow service principal =>
      revokeEphemeral overlay service principal = (moved, overlay')
  | _ => overlay' = overlay

/-- A list of the second overlay has the principal still, and shadows the file only
where one of the first does. -/
def Retains (overlay overlay' : EphemeralServices) (service p : String) : Prop :=
  (p ∈ ephemeralAllow overlay service → p ∈ ephemeralAllow overlay' service) ∧
    (overlay.lookup service = none → overlay'.lookup service = none)

section Retained

variable {file file' : ConfigFile} {overlay overlay' overlay'' : EphemeralServices}
  {service name p q : String} {moved : Option Bool} {verb : ServiceVerb}

theorem Retains.refl : Retains overlay overlay service p := ⟨id, id⟩

theorem Retains.trans (h : Retains overlay overlay' service p)
    (h' : Retains overlay' overlay'' service p) : Retains overlay overlay'' service p :=
  ⟨h'.1 ∘ h.1, h'.2 ∘ h.2⟩

/-- An overlay that has the same entry of the service retains its list. -/
theorem retains_of_lookup (h : overlay'.lookup service = overlay.lookup service) :
    Retains overlay overlay' service p := by
  rw [Retains, ephemeralAllow, ephemeralAllow, h]
  exact ⟨id, id⟩

/-- A revoke adds no entry to the overlay. -/
theorem lookup_revokeEphemeral_none (h : overlay.lookup service = none) :
    (revokeEphemeral overlay name q).2.lookup service = none := by
  simp only [revokeEphemeral]
  split
  · exact h
  · next eph heph =>
    have hne : service ≠ name := by
      rintro rfl
      rw [h] at heph
      contradiction
    exact (AList.lookup_insert_ne hne).trans h

/-- What a verb takes off when it enters it severs, or replaces. -/
theorem retains_of_entered (h : verb.Entered overlay moved overlay')
    (hservice : service ∉ verb.replaces) (hp : p ∉ ServiceNode.severed verb) :
    Retains overlay overlay' service p := by
  cases verb with
  | unregisterService name =>
      obtain ⟨-, rfl⟩ := h
      have hne : service ≠ name := fun heq => hservice (heq ▸ List.mem_singleton_self _)
      exact retains_of_lookup (AList.lookup_erase_ne hne)
  | revokeServiceAllow service' principal =>
      have hne : p ≠ principal := fun heq => hp (heq ▸ List.mem_singleton_self _)
      obtain rfl : (revokeEphemeral overlay service' principal).2 = overlay' := by rw [h]
      exact ⟨fun hlisted => mem_ephemeralAllow_revoke.mpr ⟨hlisted, fun heq => hne heq.2⟩,
        lookup_revokeEphemeral_none⟩
  | registerService | grantServiceAccess | grantServiceAllow | revokeServiceAccess
  | unregisterEphemeral =>
      obtain rfl : overlay' = overlay := h
      exact .refl

/-- A grant takes nothing off a list of the overlay. -/
theorem retains_grantEphemeral :
    Retains overlay (grantEphemeral overlay name q).2 service p := by
  simp only [grantEphemeral]
  split
  · exact .refl
  · next eph heph =>
    split
    · exact .refl
    · by_cases hs : service = name
      · subst hs
        rw [Retains, mem_ephemeralAllow, mem_ephemeralAllow, AList.lookup_insert, heph]
        simp only [Option.some.injEq, exists_eq_left', List.mem_append, reduceCtorEq, false_implies,
          and_true]
        exact .inl
      · exact retains_of_lookup (AList.lookup_insert_ne hs)

/-- Several grants take nothing off. -/
theorem retains_grantEphemerals {services : List String} :
    Retains overlay (ServiceNode.grantEphemerals q services overlay).2 service p := by
  have hfold : ∀ acc : Bool × EphemeralServices, Retains acc.2
      (services.foldl (fun acc service =>
        (acc.1 || (grantEphemeral acc.2 service q).1.getD false,
          (grantEphemeral acc.2 service q).2)) acc).2 service p := by
    induction services with
    | nil => exact fun acc => .refl
    | cons name services ih =>
        intro acc
        rw [List.foldl_cons]
        refine Retains.trans ?_ (ih _)
        exact retains_grantEphemeral
  exact hfold (false, overlay)

/-- What is offered is offered still, where the overlay retains it and the file lists
it. -/
theorem offers_mono (hload : file'.load.isSome = true)
    (hlists : file.Lists service p → file'.Lists service p)
    (hretains : Retains overlay overlay' service p) (h : Offers file overlay service p) :
    Offers file' overlay' service p := by
  have hbefore : file.load.isSome = true := by
    obtain ⟨cfg, hcfg, -⟩ := h
    rw [hcfg, Option.isSome_some]
  exact (offers_iff hload).mpr
    (((offers_iff hbefore).mp h).imp hretains.1 fun hfile => ⟨hretains.2 hfile.1, hlists hfile.2⟩)

/-- A write leaves what the edit does, or the file as it was. -/
theorem lists_of_write {edit : ConfigEdit} {changed : Option Bool} (hedit : verb.edit = some edit)
    (hwrite : edit.write true file file = (file', changed)) (hservice : service ∉ verb.replaces)
    (hp : p ∉ ServiceNode.severed verb) (h : file.Lists service p) : file'.Lists service p := by
  simp only [ConfigEdit.write] at hwrite
  cases hrun : edit.run file with
  | error e =>
      rw [hrun] at hwrite
      exact (Prod.mk.inj hwrite).1 ▸ h
  | ok written =>
      have hkept := lists_of_run hedit hrun hservice hp h
      rw [hrun] at hwrite
      cases written with
      | none => exact (Prod.mk.inj hwrite).1 ▸ h
      | some file₁ => exact (Prod.mk.inj hwrite).1 ▸ hkept

end Retained

/-! ## the invariant -/

namespace ServiceNode

/-- The live registry is what the file and the overlay give. -/
def Serves (s : ServiceNode) (file : ConfigFile) (overlay : EphemeralServices) : Prop :=
  ∃ cfg, file.load = some cfg ∧
    ∀ name, s.serve.allowNow name = (buildServicesWithEphemeral cfg overlay).lookup name

/-- What let in a session that runs on an open connection is on the live list, but
for these principals. -/
def Backed (s : ServiceNode) (but : List String) : Prop :=
  ∀ session ∈ s.serve.sessions, s.serve.closed session.conn = false →
    ∀ service, ∀ p ∈ session.admittedAs service,
      p ∈ (s.serve.allowNow service).getD [] ∨ p ∈ but

/-- What the live registry and the sessions owe to a call: from its edit to its swap
the registry is that of the file and the overlay before the edit, and from its swap
to its sever the sessions that it cuts are behind. -/
def Between (s : ServiceNode) : CallPhase → Prop
  | .idle | .waiting _ => True
  | .checking _ | .confirming _ => s.Serves s.file s.overlay ∧ s.Backed []
  | .editing verb moved edit _ =>
      s.Backed [] ∧ verb.edit = some edit ∧
        ∃ overlay, s.Serves s.file overlay ∧ verb.Entered overlay moved s.overlay
  | .edited verb moved changed =>
      s.Backed [] ∧ ∃ file overlay edit, s.Serves file overlay ∧
        verb.Entered overlay moved s.overlay ∧ verb.edit = some edit ∧
          edit.write true file file = (s.file, changed)
  | .severing verb => s.Serves s.file s.overlay ∧ s.Backed (severed verb)

/-- What an undisturbed run keeps. -/
structure Steady (s : ServiceNode) : Prop where
  orphans : s.orphans = []
  between : ∀ i, s.Between (s.calls i)
  /-- where no call holds the lock -/
  free : (∀ i, ¬ (s.calls i).Holds) → s.Serves s.file s.overlay ∧ s.Backed []

section Steady

variable {s s' : ServiceNode} {i : Nat} {verb : ServiceVerb} {phase : CallPhase}
  {file : ConfigFile} {overlay : EphemeralServices} {ptr : Option Nat} {service name p : String}
  {but names : List String} {serve : Admit.ServeState} {reloaded : ServiceNode × Bool}

/-- The live list is what the file and the overlay offer. -/
theorem Serves.listed (h : s.Serves file overlay) :
    p ∈ (s.serve.allowNow service).getD [] ↔ Offers file overlay service p := by
  obtain ⟨cfg, hload, hlive⟩ := h
  rw [hlive, Offers]
  simp only [hload, Option.some.injEq, exists_eq_left']
  cases (buildServicesWithEphemeral cfg overlay).lookup service <;> simp

/-- What a call in this phase is owed. -/
theorem Steady.owed (h : s.Steady) (hphase : s.calls i = phase) : s.Between phase :=
  hphase ▸ h.between i

/-- A call that does not hold the lock is owed nothing. -/
theorem between_of_not_holds (h : ¬ phase.Holds) : s.Between phase := by
  cases phase <;> first | trivial | exact absurd trivial h

/-- Where one call alone may hold the lock, what the others are owed is nothing. -/
theorem between_update (hothers : ∀ j, j ≠ i → ¬ (s.calls j).Holds) (hphase : s.Between phase)
    (j : Nat) : s.Between (Function.update s.calls i phase j) := by
  by_cases hj : j = i
  · rwa [hj, Function.update_self]
  · rw [Function.update_of_ne hj]
    exact between_of_not_holds (hothers j hj)

/-- To go on under the lock is to be in the next phase. -/
theorem steady_hold (hothers : ∀ j, j ≠ i → ¬ (s.calls j).Holds) (horphans : s.orphans = [])
    (hholds : phase.Holds) (hphase : s.Between phase) : (s.hold i phase).Steady where
  orphans := horphans
  between := between_update hothers hphase
  free hnone := by
    have hi : ¬ (Function.update s.calls i phase i).Holds := hnone i
    rw [Function.update_self] at hi
    contradiction

/-- To return is to leave nothing owed. -/
theorem steady_finish (hothers : ∀ j, j ≠ i → ¬ (s.calls j).Holds) (horphans : s.orphans = [])
    (hfree : s.Serves s.file s.overlay ∧ s.Backed []) (result : Option ServiceVerb) :
    (s.finish i result).Steady where
  orphans := horphans
  between := between_update hothers trivial
  free _ := hfree

/-! ### a rebuild -/

/-- The swap of a registry that the file and the overlay give. -/
def Rebuilt (s : ServiceNode) (serve : Admit.ServeState) : Prop :=
  ({ s with serve } : ServiceNode).Serves s.file s.overlay ∧
    serve.sessions = s.serve.sessions ∧ serve.closed = s.serve.closed

/-- A rebuild swaps the registry and nothing else. -/
theorem rebuilt_of_reload (hptr : ptr.isSome = true) (hload : s.file.load.isSome = true)
    (hreload : s.reloadServicesFromDisk ptr = some reloaded) :
    ∃ serve, reloaded = ({ s with serve }, true) ∧ s.Rebuilt serve := by
  obtain ⟨address, rfl⟩ := Option.isSome_iff_exists.mp hptr
  obtain ⟨cfg, hcfg⟩ := Option.isSome_iff_exists.mp hload
  simp only [reloadServicesFromDisk, hcfg] at hreload
  obtain ⟨s', hswap, rfl⟩ := Option.map_eq_some_iff.mp hreload
  obtain ⟨serve, rfl, hlive, hsessions, hclosed⟩ := frame_of_swap hswap
  exact ⟨serve, rfl, ⟨cfg, hcfg, hlive⟩, hsessions, hclosed⟩

/-- The live registry has the live list. -/
theorem lookup_services (s : ServiceNode) : s.services.lookup name = s.serve.allowNow name := by
  rw [services, Admit.ServeState.allowNow]
  cases s.serve.heap s.serve.live <;> rfl

/-- One list that the overlay moved is all that a rebuild would change. -/
theorem rebuilt_of_apply (hptr : ptr.isSome = true) (h : s.Serves s.file overlay)
    (hedit : ServiceStore.AllowEdit service overlay s.overlay true)
    (happly : s.applyEphemeralAllow service ptr = some reloaded) :
    ∃ serve, reloaded = ({ s with serve }, true) ∧ s.Rebuilt serve := by
  obtain ⟨cfg, hcfg, hlive⟩ := h
  simp only [applyEphemeralAllow] at happly
  split at happly
  · next services hupdated =>
    obtain ⟨address, rfl, happly⟩ := Option.bind_eq_some_iff.mp happly
    obtain ⟨s', hswap, rfl⟩ := Option.map_eq_some_iff.mp happly
    obtain ⟨serve, rfl, hswapped, hsessions, hclosed⟩ := frame_of_swap hswap
    refine ⟨serve, rfl, ⟨cfg, hcfg, fun name => (hswapped name).trans ?_⟩, hsessions, hclosed⟩
    obtain ⟨entry, hentry, hreplaced⟩ := Option.bind_eq_some_iff.mp hupdated
    obtain ⟨-, hreplaced⟩ := Option.ite_none_right_eq_some.mp hreplaced
    obtain rfl := Option.some.inj hreplaced
    obtain ⟨hfalse, -⟩ | ⟨-, eph, allow, heph, hoverlay⟩ := hedit
    · contradiction
    rw [lookup_alist_insert, lookup_services, hlive, lookup_buildServices, lookup_buildServices,
      hoverlay]
    by_cases hname : name = service
    · subst hname
      rw [if_pos rfl, ← hoverlay, hentry, Option.map_some, Option.some_or]
    · rw [if_neg hname, AList.lookup_insert_ne hname]
  · exact rebuilt_of_reload hptr (by rw [hcfg, Option.isSome_some]) happly

/-- A rebuild leaves what let in the sessions that run, but for what the verb severs,
where none runs on a service that it replaces. -/
theorem backed_of_rebuilt (hbacked : s.Backed []) (hserves : s.Serves file overlay)
    (hunused : ∀ name ∈ names, s.Unused name)
    (hkept : ∀ service ∉ names, ∀ p ∉ but,
      Offers file overlay service p → Offers s.file s.overlay service p)
    (h : s.Rebuilt serve) : ({ s with serve } : ServiceNode).Backed but := by
  obtain ⟨hafter, hsessions, hclosed⟩ := h
  intro session hsession hopen service p hp
  simp only [hsessions] at hsession
  simp only [hclosed] at hopen
  by_cases hp' : p ∈ but
  · exact .inr hp'
  have hnot : service ∉ names := by
    intro hmem
    rw [hunused service hmem session hsession hopen] at hp
    contradiction
  have hbefore : Offers file overlay service p :=
    hserves.listed.mp ((hbacked session hsession hopen service p hp).resolve_right List.not_mem_nil)
  exact .inl (hafter.listed.mpr (hkept service hnot p hp' hbefore))

/-! ### the steps -/

/-- What the entries are decides what is live. -/
theorem Serves.of_lookup (h : s.Serves file overlay) {overlay' : EphemeralServices}
    (hsame : ∀ name, overlay'.lookup name = overlay.lookup name) : s.Serves file overlay' := by
  obtain ⟨cfg, hcfg, hlive⟩ := h
  refine ⟨cfg, hcfg, fun name => (hlive name).trans ?_⟩
  rw [lookup_buildServices, lookup_buildServices, hsame]

/-- The overlay keeps what is not unregistered. -/
theorem lookup_eraseAll (hservice : service ∉ names) (overlay : EphemeralServices) :
    (names.foldl (fun overlay name => overlay.erase name) overlay).lookup service =
      overlay.lookup service := by
  induction names generalizing overlay with
  | nil => rfl
  | cons name names ih =>
      rw [List.mem_cons, not_or] at hservice
      obtain ⟨hne, hrest⟩ := hservice
      rw [List.foldl_cons, ih hrest, AList.lookup_erase_ne hne]

/-- From the lock to the first await. -/
theorem steady_enter (hothers : ∀ j, j ≠ i → ¬ (s.calls j).Holds) (horphans : s.orphans = [])
    (hfree : s.Serves s.file s.overlay ∧ s.Backed []) (hptr : ptr.isSome = true)
    (hload : s.file.load.isSome = true) (hunused : ∀ name ∈ verb.replaces, s.Unused name)
    {ok : Bool} (henter : s.enter i ok ptr verb = some s') : s'.Steady := by
  obtain ⟨hserves, hbacked⟩ := hfree
  -- a rebuild for an overlay that differs in what the verb replaces
  have hswap : ∀ overlay reloaded, (∀ service ∉ verb.replaces,
      overlay.lookup service = s.overlay.lookup service) →
      ({ s with overlay } : ServiceNode).reloadServicesFromDisk ptr = some reloaded →
        (reloaded.1.finish i (some verb)).Steady ∧ (settle i verb reloaded).Steady := by
    intro overlay reloaded hsame hreload
    obtain ⟨serve, rfl, hrebuilt⟩ := rebuilt_of_reload (by exact hptr) (by exact hload) hreload
    have hback : ({ s with overlay, serve } : ServiceNode).Backed [] :=
      backed_of_rebuilt (s := { s with overlay }) hbacked hserves hunused
        (fun service hservice p _ hoffers =>
          offers_mono hload id (retains_of_lookup (hsame service hservice)) hoffers) hrebuilt
    have hsteady := steady_finish (s := { s with overlay, serve }) hothers horphans
      ⟨hrebuilt.1, hback⟩ (some verb)
    exact ⟨hsteady, hsteady⟩
  cases verb with
  | registerService name backend allow ephemeral rate =>
      have hfail := steady_finish hothers horphans ⟨hserves, hbacked⟩ none
      simp only [enter] at henter
      split at henter
      · exact Option.some.inj henter ▸ hfail
      split at henter
      · split at henter
        · split at henter
          · exact Option.some.inj henter ▸ hfail
          · obtain ⟨reloaded, hreload, rfl⟩ := Option.map_eq_some_iff.mp henter
            refine (hswap _ reloaded (fun service hservice => ?_) hreload).2
            exact AList.lookup_insert_ne fun heq => hservice (heq ▸ List.mem_singleton_self _)
        · exact Option.some.inj henter ▸ hfail
      split at henter
      · exact Option.some.inj henter ▸ hfail
      · obtain rfl := Option.some.inj henter
        exact steady_hold hothers horphans trivial ⟨hbacked, rfl, s.overlay, hserves, rfl⟩
  | unregisterService name =>
      obtain rfl := Option.some.inj henter
      exact steady_hold (s := { s with overlay := s.overlay.erase name }) hothers horphans trivial
        ⟨hbacked, rfl, s.overlay, hserves, rfl, rfl⟩
  | grantServiceAccess principal services =>
      obtain rfl := Option.some.inj henter
      exact steady_hold hothers horphans trivial ⟨hbacked, rfl, s.overlay, hserves, rfl⟩
  | grantServiceAllow service principal | revokeServiceAccess principals =>
      obtain rfl := Option.some.inj henter
      exact steady_hold hothers horphans trivial ⟨hserves, hbacked⟩
  | revokeServiceAllow service principal =>
      obtain rfl := Option.some.inj henter
      exact steady_hold (s := { s with overlay := (revokeEphemeral s.overlay service principal).2 })
        hothers horphans trivial ⟨hbacked, rfl, s.overlay, hserves, rfl⟩
  | unregisterEphemeral names =>
      simp only [enter] at henter
      split at henter
      · exact Option.some.inj henter ▸ steady_finish hothers horphans ⟨hserves, hbacked⟩ _
      · obtain ⟨reloaded, hreload, rfl⟩ := Option.map_eq_some_iff.mp henter
        exact (hswap _ reloaded (fun service hservice => lookup_eraseAll hservice _) hreload).1

/-- From the checks to the edit, or to the end. -/
theorem steady_checked (hothers : ∀ j, j ≠ i → ¬ (s.calls j).Holds) (horphans : s.orphans = [])
    (hfree : s.Serves s.file s.overlay ∧ s.Backed []) (ok : Bool) :
    (s.checked i ok verb).Steady := by
  obtain ⟨hserves, hbacked⟩ := hfree
  have hfinish := steady_finish hothers horphans ⟨hserves, hbacked⟩
  cases verb with
  | grantServiceAllow service principal =>
      simp only [checked]
      split
      · exact steady_hold hothers horphans trivial ⟨hbacked, rfl, s.overlay, hserves, rfl⟩
      · exact hfinish none
  | revokeServiceAccess principals =>
      simp only [checked]
      split
      · exact hfinish none
      split
      · exact hfinish _
      · exact steady_hold hothers horphans trivial ⟨hbacked, rfl, s.overlay, hserves, rfl⟩
  | registerService | unregisterService | grantServiceAccess | revokeServiceAllow
  | unregisterEphemeral => exact hfinish none

/-- An overlay that a revoke did not move is as it was. -/
theorem lookup_of_unmoved {principal : String} {moved : Option Bool}
    (h : revokeEphemeral overlay service principal = (moved, s.overlay))
    (hmoved : moved.getD false = false) : s.overlay.lookup name = overlay.lookup name := by
  have hedit : ServiceStore.AllowEdit service overlay
      (revokeEphemeral overlay service principal).2
      ((revokeEphemeral overlay service principal).1.getD false) := ServiceStore.allowEdit_revoke
  rw [h, hmoved] at hedit
  obtain ⟨-, hsame⟩ | ⟨hmoved', -⟩ := hedit
  · exact hsame name
  · contradiction

/-- A write that reports no change made none. -/
theorem eq_of_write {edit : ConfigEdit} {file' : ConfigFile} {changed : Option Bool}
    (hwrite : edit.write true file file = (file', changed)) (hchanged : changed ≠ some true) :
    file' = file := by
  simp only [ConfigEdit.write] at hwrite
  split at hwrite
  · exact (Prod.mk.inj hwrite).1.symm
  · obtain ⟨-, rfl⟩ := Prod.mk.inj hwrite
    contradiction
  · exact (Prod.mk.inj hwrite).1.symm

/-- An edit that changed nothing has left the file, but not the overlay. -/
theorem serves_of_unchanged {moved changed : Option Bool}
    (h : s.Between (.edited verb moved changed)) (hchanged : changed ≠ some true) :
    ∃ overlay, s.Serves s.file overlay ∧ verb.Entered overlay moved s.overlay := by
  obtain ⟨-, file, overlay, edit, hserves, hentered, -, hwrite⟩ := h
  rw [← eq_of_write hwrite hchanged] at hserves
  exact ⟨overlay, hserves, hentered⟩

section Edited

variable {moved : Option Bool} {changed : Bool} {overlay' : EphemeralServices}
  {principal : String} (hothers : ∀ j, j ≠ i → ¬ (s.calls j).Holds) (horphans : s.orphans = [])
  (hptr : ptr.isSome = true) (hload : s.file.load.isSome = true)

include hothers horphans hload

/-- A rebuild after the edit, for the overlay or one that lists more. -/
theorem steady_swapped (hphase : s.Between (.edited verb moved (some changed)))
    (hunused : ∀ name ∈ verb.replaces, s.Unused name)
    (hretains : ∀ service p, Retains s.overlay overlay' service p)
    (h : ∃ serve, reloaded = (({ s with overlay := overlay', serve } : ServiceNode), true) ∧
      ({ s with overlay := overlay' } : ServiceNode).Rebuilt serve) :
    (severed verb = [] → (settle i verb reloaded).Steady) ∧ (toSever i verb reloaded).Steady := by
  obtain ⟨serve, rfl, hrebuilt⟩ := h
  obtain ⟨hbacked, file, overlay, edit, hserves, hentered, hedit, hwrite⟩ := hphase
  have hback : ({ s with overlay := overlay', serve } : ServiceNode).Backed (severed verb) :=
    backed_of_rebuilt (s := { s with overlay := overlay' }) hbacked hserves hunused
      (fun service hservice p hp hoffers =>
        offers_mono hload (lists_of_write hedit hwrite hservice hp)
          ((retains_of_entered hentered hservice hp).trans (hretains service p)) hoffers)
      hrebuilt
  refine ⟨fun hsevered => ?_, ?_⟩
  · exact steady_finish (s := { s with overlay := overlay', serve }) hothers horphans
      ⟨hrebuilt.1, hsevered ▸ hback⟩ _
  · exact steady_hold (s := { s with overlay := overlay', serve }) hothers horphans trivial
      ⟨hrebuilt.1, hback⟩

include hptr

/-- The same from the disk. -/
theorem steady_reloaded (hphase : s.Between (.edited verb moved (some changed)))
    (hunused : ∀ name ∈ verb.replaces, s.Unused name)
    (hretains : ∀ service p, Retains s.overlay overlay' service p)
    (h : ({ s with overlay := overlay' } : ServiceNode).reloadServicesFromDisk ptr =
      some reloaded) :
    (severed verb = [] → (settle i verb reloaded).Steady) ∧ (toSever i verb reloaded).Steady :=
  steady_swapped hothers horphans hload hphase hunused hretains
    (rebuilt_of_reload (by exact hptr) (by exact hload) h)

/-- A dropped registration is not live. -/
theorem steady_unregistered
    (hphase : s.Between (.edited (.unregisterService name) moved (some changed)))
    (hunused : s.Unused name)
    (hedited : s.edited i ptr moved changed (.unregisterService name) = some s') : s'.Steady := by
  have hunused : ∀ name' ∈ [name], s.Unused name' := fun _ hmem =>
    List.mem_singleton.mp hmem ▸ hunused
  simp only [ServiceNode.edited] at hedited
  split at hedited
  · obtain ⟨reloaded, h, rfl⟩ := Option.map_eq_some_iff.mp hedited
    exact (steady_reloaded hothers horphans hptr hload hphase hunused (fun _ _ => .refl) h).1 rfl
  · next hnothing =>
    obtain rfl := Option.some.inj hedited
    have hnothing := Bool.or_eq_false_iff.mp (Bool.not_eq_true _ ▸ hnothing)
    obtain ⟨overlay, hserves, rfl, hoverlay⟩ := serves_of_unchanged hphase (by simp [hnothing.2])
    have habsent : overlay.lookup name = none :=
      AList.lookup_eq_none.mpr (by simpa using hnothing.1)
    refine steady_finish hothers horphans ⟨hserves.of_lookup fun name' => ?_, hphase.1⟩ _
    rw [hoverlay, lookup_alist_erase]
    split
    · next heq => rw [heq, habsent]
    · rfl

/-- A grant of one service is live. -/
theorem steady_grantedAllow
    (hphase : s.Between (.edited (.grantServiceAllow service principal) moved (some changed)))
    (hedited : s.edited i ptr moved changed (.grantServiceAllow service principal) = some s') :
    s'.Steady := by
  have hunused : ∀ name ∈ [], s.Unused name := fun _ hmem => absurd hmem List.not_mem_nil
  have hretains : ∀ service' p, Retains s.overlay
      (grantEphemeral s.overlay service principal).2 service' p :=
    fun _ _ => retains_grantEphemeral
  simp only [ServiceNode.edited] at hedited
  split at hedited
  · obtain ⟨reloaded, h, rfl⟩ := Option.map_eq_some_iff.mp hedited
    exact (steady_reloaded hothers horphans hptr hload hphase hunused hretains h).1 rfl
  next hchanged =>
  obtain ⟨overlay, hserves, hentered⟩ := serves_of_unchanged hphase (by simp [hchanged])
  obtain rfl : s.overlay = overlay := hentered
  have hedit : ServiceStore.AllowEdit service s.overlay
      (grantEphemeral s.overlay service principal).2
      ((grantEphemeral s.overlay service principal).1.getD false) := ServiceStore.allowEdit_grant
  split at hedited
  · next hmoved =>
    obtain ⟨reloaded, h, rfl⟩ := Option.map_eq_some_iff.mp hedited
    exact (steady_swapped hothers horphans hload hphase hunused hretains
      (rebuilt_of_apply hptr (by exact hserves) (hmoved ▸ hedit) h)).1 rfl
  · next hmoved =>
    obtain rfl := Option.some.inj hedited
    rw [Bool.not_eq_true] at hmoved
    obtain ⟨-, hunmoved⟩ | ⟨hmoved', -⟩ := hedit
    · exact steady_finish
        (s := { s with overlay := (grantEphemeral s.overlay service principal).2 })
        hothers horphans ⟨hserves.of_lookup hunmoved, hphase.1⟩ _
    · rw [hmoved] at hmoved'
      contradiction

/-- A revoke of one service is live, and its sessions are behind. -/
theorem steady_revokedAllow
    (hphase : s.Between (.edited (.revokeServiceAllow service principal) moved (some changed)))
    (hedited : s.edited i ptr moved changed (.revokeServiceAllow service principal) = some s') :
    s'.Steady := by
  have hunused : ∀ name ∈ [], s.Unused name := fun _ hmem => absurd hmem List.not_mem_nil
  have hkept (hchanged : changed = false) (hunmoved : moved.getD false = false) :
      s.Serves s.file s.overlay := by
    obtain ⟨overlay, hserves, hentered⟩ := serves_of_unchanged hphase (by simp [hchanged])
    exact hserves.of_lookup fun name => lookup_of_unmoved hentered hunmoved
  simp only [ServiceNode.edited] at hedited
  split at hedited
  · next hnothing =>
    obtain rfl := Option.some.inj hedited
    rw [Bool.and_eq_true, Option.isNone_iff_eq_none, Bool.not_eq_true'] at hnothing
    obtain ⟨rfl, hunchanged⟩ := hnothing
    exact steady_hold hothers horphans trivial ⟨hkept hunchanged rfl, hphase.1⟩
  split at hedited
  · next hsomething =>
    obtain ⟨reloaded, h, rfl⟩ := Option.map_eq_some_iff.mp hedited
    refine (steady_swapped hothers horphans hload hphase hunused (fun _ _ => .refl) ?_).2
    split at h
    · exact rebuilt_of_reload hptr hload h
    · next hchanged =>
      rw [Bool.not_eq_true] at hchanged
      rw [hchanged, Bool.false_or] at hsomething
      obtain ⟨overlay, hserves, hentered⟩ := serves_of_unchanged hphase (by simp [hchanged])
      have hedit : ServiceStore.AllowEdit service overlay
          (revokeEphemeral overlay service principal).2
          ((revokeEphemeral overlay service principal).1.getD false) :=
        ServiceStore.allowEdit_revoke
      have hentered : revokeEphemeral overlay service principal = (moved, s.overlay) := hentered
      rw [hentered, hsomething] at hedit
      exact rebuilt_of_apply hptr hserves hedit h
  · next hnothing =>
    obtain rfl := Option.some.inj hedited
    obtain ⟨hunchanged, hunmoved⟩ := Bool.or_eq_false_iff.mp (Bool.not_eq_true _ ▸ hnothing)
    exact steady_finish hothers horphans ⟨hkept hunchanged hunmoved, hphase.1⟩ _

/-- From the end of the edit to the sever, or to the end. -/
theorem steady_edited (hphase : s.Between (.edited verb moved (some changed)))
    (hunused : ∀ name ∈ verb.replaces, s.Unused name)
    (hedited : s.edited i ptr moved changed verb = some s') : s'.Steady := by
  cases verb with
  | unregisterService name =>
      exact steady_unregistered hothers horphans hptr hload hphase
        (hunused name (List.mem_singleton_self _)) hedited
  | grantServiceAllow service principal =>
      exact steady_grantedAllow hothers horphans hptr hload hphase hedited
  | revokeServiceAllow service principal =>
      exact steady_revokedAllow hothers horphans hptr hload hphase hedited
  | grantServiceAccess principal services =>
      simp only [ServiceNode.edited] at hedited
      split at hedited
      · obtain ⟨reloaded, h, rfl⟩ := Option.map_eq_some_iff.mp hedited
        exact (steady_reloaded hothers horphans hptr hload hphase hunused
          (fun _ _ => retains_grantEphemerals) h).1 rfl
      · next hnothing =>
        obtain rfl := Option.some.inj hedited
        obtain ⟨hunchanged, hunmoved⟩ := Bool.or_eq_false_iff.mp (Bool.not_eq_true _ ▸ hnothing)
        obtain ⟨overlay, hserves, hentered⟩ := serves_of_unchanged hphase (by simp [hunchanged])
        obtain rfl : s.overlay = overlay := hentered
        exact steady_finish
          (s := { s with overlay := (grantEphemerals principal services s.overlay).2 })
          hothers horphans ⟨hserves.of_lookup fun name =>
            ServiceStore.grantEphemerals_of_unmoved hunmoved, hphase.1⟩ _
  | revokeServiceAccess principals =>
      simp only [ServiceNode.edited] at hedited
      split at hedited
      · obtain ⟨reloaded, h, rfl⟩ := Option.map_eq_some_iff.mp hedited
        exact (steady_reloaded hothers horphans hptr hload hphase hunused (fun _ _ => .refl) h).2
      · next hunchanged =>
        obtain rfl := Option.some.inj hedited
        obtain ⟨overlay, hserves, hentered⟩ := serves_of_unchanged hphase (by simp [hunchanged])
        obtain rfl : s.overlay = overlay := hentered
        refine steady_hold hothers horphans trivial ⟨hserves, ?_⟩
        intro session hsession hopen service p hp
        exact .inl ((hphase.1 session hsession hopen service p hp).resolve_right
          List.not_mem_nil)
  | registerService | unregisterEphemeral =>
      obtain ⟨reloaded, h, rfl⟩ := Option.map_eq_some_iff.mp hedited
      exact (steady_reloaded hothers horphans hptr hload hphase hunused (fun _ _ => .refl) h).1 rfl

end Edited

/-- A session that is let in is let in by the live list. -/
theorem backed_of_session {event : Admit.Event} (hswap : isSwap event = false)
    (hstep : s.serve.step event = some serve) (h : s.Backed but) :
    ({ s with serve } : ServiceNode).Backed but := by
  have hlive := grants_of_session hswap hstep
  -- a session that was not let in before is let in by the live list
  have hsessions : ∀ session ∈ serve.sessions, session ∈ s.serve.sessions ∨
      ∀ service, ∀ p ∈ session.admittedAs service, p ∈ (s.serve.allowNow service).getD [] := by
    have hset {k : Nat} {session' : Admit.Session}
        (hnew : ∀ service, ∀ p ∈ session'.admittedAs service,
          p ∈ (s.serve.allowNow service).getD []) :
        ∀ session ∈ s.serve.sessions.set k session', session ∈ s.serve.sessions ∨
          ∀ service, ∀ p ∈ session.admittedAs service, p ∈ (s.serve.allowNow service).getD [] := by
      intro session hsession
      obtain hold | rfl := List.mem_or_eq_of_mem_set hsession
      · exact .inl hold
      · exact .inr hnew
    have hidle {session' : Admit.Session} (hnot : ¬ session'.Runs) (service p : String)
        (hp : p ∈ session'.admittedAs service) : p ∈ (s.serve.allowNow service).getD [] := by
      unfold Admit.Session.admittedAs at hp
      split at hp
      · next name identity allow hphase => exact absurd ⟨name, identity, allow, hphase⟩ hnot
      · contradiction
    cases Admit.ServeState.stepped_of_step hstep with
    | alloc | store => contradiction
    | accept | close | deregister | sever => exact fun session => .inl
    | openSession =>
        intro session hsession
        refine (List.mem_append.mp hsession).imp_right fun hnew => ?_
        obtain rfl := List.mem_singleton.mp hnew
        exact hidle (Admit.ServeState.not_runs (by simp))
    | goOn _ _ _ _ hnot' => exact hset (hidle hnot')
    | admitted =>
        refine hset fun service' p hp => ?_
        unfold Admit.Session.admittedAs at hp
        dsimp only at hp
        split at hp
        · next heq => exact heq ▸ (List.mem_filter.mp hp).1
        · contradiction
    | ended | finished => exact hset (hidle (Admit.ServeState.not_runs (by simp)))
  intro session hsession hopen service p hp
  rw [hlive service]
  obtain hold | hnew := hsessions session hsession
  · refine h session hold ?_ service p hp
    rw [← Bool.not_eq_true]
    exact fun hclosed => Bool.false_ne_true
      (hopen.symm.trans (Admit.ServeState.closed_of_step hstep hclosed))
  · exact .inl (hnew service p hp)

/-- A session does not touch the registry. -/
theorem serves_of_session {event : Admit.Event} (hswap : isSwap event = false)
    (hstep : s.serve.step event = some serve) (h : s.Serves file overlay) :
    ({ s with serve } : ServiceNode).Serves file overlay := by
  obtain ⟨cfg, hcfg, hlive⟩ := h
  exact ⟨cfg, hcfg, fun name => (grants_of_session hswap hstep name).trans (hlive name)⟩

/-- A session takes nothing from a call. -/
theorem between_of_session {event : Admit.Event} (hswap : isSwap event = false)
    (hstep : s.serve.step event = some serve) (h : s.Between phase) :
    ({ s with serve, returned := none } : ServiceNode).Between phase := by
  have hserves : ∀ file overlay, s.Serves file overlay →
      ({ s with serve, returned := none } : ServiceNode).Serves file overlay :=
    fun _ _ => serves_of_session hswap hstep
  have hbacked : ∀ but, s.Backed but →
      ({ s with serve, returned := none } : ServiceNode).Backed but :=
    fun _ => backed_of_session hswap hstep
  cases phase with
  | idle | waiting => trivial
  | checking | confirming | severing => exact h.imp (hserves _ _) (hbacked _)
  | editing =>
      obtain ⟨hback, hedit, overlay, hserved, hentered⟩ := h
      exact ⟨hbacked _ hback, hedit, overlay, hserves _ _ hserved, hentered⟩
  | edited =>
      obtain ⟨hback, file, overlay, edit, hserved, hrest⟩ := h
      exact ⟨hbacked _ hback, file, overlay, edit, hserves _ _ hserved, hrest⟩

/-- A sever cuts the sessions that were behind. -/
theorem backed_of_sever {endpoints : EndpointId → Bool} (hinv : s.serve.Inv)
    (h : s.Backed (severed verb))
    (hsever : s.serve.step (.sever endpoints (· ∈ severed verb)) = some serve) :
    ({ s with serve } : ServiceNode).Backed [] := by
  intro session hsession hopen service p hp
  have hback := backed_of_session rfl hsever h session hsession hopen service p hp
  refine .inl (hback.resolve_right fun hsevered => ?_)
  have hclosed : serve.closed session.conn = true :=
    closed_of_admittedAs hinv (by simpa using hsevered) hsever session hsession hp
  exact Bool.false_ne_true (hopen.symm.trans hclosed)

/-! ### the run -/

/-- In a steady state nothing was left half-way. -/
theorem settled_of_steady {event : ServiceEvent} (h : s.Steady)
    (hstep : serviceStep s event = some s') : s.Settled event := by
  have hon {overlay : EphemeralServices} (hserves : s.Serves s.file overlay)
      (hbacked : s.Backed []) (hsame : ∀ name, s.overlay.lookup name = overlay.lookup name)
      (service : String) : s.SettledOn service :=
    ⟨fun p hp => listed_of_offers ((hserves.of_lookup hsame).listed.mp hp),
      fun session hsession hopen p hp =>
        (hbacked session hsession hopen service p hp).resolve_right List.not_mem_nil⟩
  cases event with
  | resume i ptr =>
      simp only [Settled]
      split
      · next service principal hcall =>
        have hphase := h.owed hcall
        obtain ⟨overlay, hserves, hentered⟩ := serves_of_unchanged hphase (by simp)
        exact hon hserves hphase.1 (fun name => lookup_of_unmoved hentered rfl) service
      · next name moved hcall =>
        obtain ⟨overlay, ⟨cfg, hcfg, hlive⟩, rfl, -⟩ :=
          serves_of_unchanged (h.owed hcall) (by simp)
        intro habsent hoffered
        by_contra hneither
        rw [not_or] at hneither
        have hnone := lookup_build_eq_none hcfg
          (AList.lookup_eq_none.mpr (by simpa using habsent))
          (AList.lookup_eq_none.mpr hneither.2)
        rw [hlive, hnone] at hoffered
        contradiction
      · trivial
  | confirm i ok =>
      simp only [Settled]
      split
      · next service principal hcall =>
        exact hon (h.owed hcall).1 (h.owed hcall).2 (fun _ => rfl) service
      · trivial
  | orphanWrite k ok =>
      rw [serviceStep, h.orphans] at hstep
      contradiction
  | _ => trivial

/-- A call that comes or goes without the lock leaves all as it is. -/
theorem Steady.of_calls (h : s.Steady) (hnow : ¬ (s.calls i).Holds) (hphase : ¬ phase.Holds) :
    ({ s with calls := Function.update s.calls i phase, returned := none } :
      ServiceNode).Steady where
  orphans := h.orphans
  between j := by
    change s.Between (Function.update s.calls i phase j)
    by_cases hj : j = i
    · rw [hj, Function.update_self]
      exact between_of_not_holds hphase
    · rw [Function.update_of_ne hj]
      exact h.between j
  free hnone := h.free fun j => by
    by_cases hj : j = i
    · rwa [hj]
    · have hj' : ¬ (Function.update s.calls i phase j).Holds := hnone j
      rwa [Function.update_of_ne hj] at hj'

/-- An edit that the file system did not fail is one that the file does not fit. -/
theorem error_of_write {edit : ConfigEdit} {file' : ConfigFile}
    (hwrite : edit.write true file file = (file', none)) : ∃ e, edit.run file = .error e := by
  simp only [ConfigEdit.write] at hwrite
  split at hwrite
  · exact absurd (Prod.mk.inj hwrite).2 (by simp)
  · exact absurd (Prod.mk.inj hwrite).2 (by simp)
  · next e hrun => exact ⟨e, hrun⟩

/-- A verb whose edit fails has left the overlay as it was. -/
theorem free_of_failed {moved : Option Bool} (h : s.Between (.edited verb moved none)) :
    s.Serves s.file s.overlay ∧ s.Backed [] := by
  obtain ⟨hbacked, file, overlay, edit, hserves, hentered, hedit, hwrite⟩ := h
  rw [← eq_of_write hwrite (by simp)] at hserves
  refine ⟨?_, hbacked⟩
  cases verb with
  | unregisterService | revokeServiceAllow =>
      obtain rfl := Option.some.inj hedit
      obtain ⟨e, hrun⟩ := error_of_write hwrite
      simp [ConfigEdit.run] at hrun
  | registerService | grantServiceAccess | grantServiceAllow | revokeServiceAccess
  | unregisterEphemeral =>
      obtain rfl : s.overlay = overlay := hentered
      exact hserves

/-- Each undisturbed step is steady. -/
theorem Steady.step (hinv : s.Inv) (h : s.Steady) {event : ServiceEvent}
    (hquiet : s.Undisturbed event) (hstep : serviceStep s event = some s') : s'.Steady := by
  have hothers {i : Nat} {phase : CallPhase} (hphase : s.calls i = phase) (hholds : phase.Holds) :
      ∀ j, j ≠ i → ¬ (s.calls j).Holds :=
    (hinv.owned (.inr (hinv.exclusive i (hphase ▸ hholds)))).others
  cases event with
  | call i verb =>
      simp only [serviceStep] at hstep
      split at hstep
      · next hidle =>
        obtain rfl := Option.some.inj hstep
        exact h.of_calls (by simp [hidle, CallPhase.Holds]) id
      · contradiction
  | acquire i ok ptr =>
      obtain ⟨hptr, hload, hunused⟩ := hquiet
      simp only [serviceStep] at hstep
      split at hstep
      · next verb hphase hlock =>
        have hnone : ∀ j, ¬ (s.calls j).Holds := fun j hj => by
          rw [hinv.exclusive j hj] at hlock
          contradiction
        rw [hphase] at hunused
        exact steady_enter (fun j _ => hnone j) h.orphans (h.free hnone) hptr hload hunused hstep
      · contradiction
  | check i ok =>
      simp only [serviceStep] at hstep
      split at hstep
      · next verb hphase =>
        obtain rfl := Option.some.inj hstep
        exact steady_checked (hothers hphase trivial) h.orphans (h.owed hphase) ok
      · contradiction
  | read i ok =>
      obtain rfl : ok = true := hquiet
      simp only [serviceStep] at hstep
      split at hstep
      · next verb moved edit hphase =>
        obtain rfl := Option.some.inj hstep
        have hbetween := h.owed hphase
        exact steady_hold (hothers hphase trivial) h.orphans trivial hbetween
      · contradiction
  | write i ok =>
      obtain rfl : ok = true := hquiet
      simp only [serviceStep] at hstep
      split at hstep
      · next verb moved edit base hphase =>
        obtain rfl := Option.some.inj hstep
        obtain ⟨hbacked, hedit, overlay, hserves, hentered⟩ := h.owed hphase
        have hstripped := hinv.stripped i
        rw [hphase] at hstripped
        obtain rfl := hstripped.2.2 base rfl
        exact steady_hold (s := { s with file := (edit.write true s.file s.file).1 })
          (hothers hphase trivial) h.orphans trivial
          ⟨hbacked, s.file, overlay, edit, hserves, hentered, hedit, rfl⟩
      · contradiction
  | resume i ptr =>
      obtain ⟨hptr, hload, hunused⟩ := hquiet
      simp only [serviceStep] at hstep
      split at hstep
      · next verb moved changed hphase =>
        rw [hphase] at hunused
        exact steady_edited (hothers hphase trivial) h.orphans hptr hload (h.owed hphase) hunused
          hstep
      · next verb moved hphase =>
        obtain rfl := Option.some.inj hstep
        exact steady_finish (hothers hphase trivial) h.orphans (free_of_failed (h.owed hphase)) none
      · contradiction
  | confirm i ok =>
      simp only [serviceStep] at hstep
      split at hstep
      · next service principal hphase =>
        obtain rfl := Option.some.inj hstep
        exact steady_finish (hothers hphase trivial) h.orphans (h.owed hphase) _
      · contradiction
  | sever i ok endpoints =>
      obtain rfl : ok = true := hquiet
      simp only [serviceStep, if_true] at hstep
      split at hstep
      · next verb hphase =>
        obtain ⟨serve, hsever, rfl⟩ := Option.map_eq_some_iff.mp hstep
        have hbetween := h.owed hphase
        exact steady_finish (s := { s with serve }) (hothers hphase trivial) h.orphans
          ⟨serves_of_session rfl hsever hbetween.1, backed_of_sever hinv.serve hbetween.2 hsever⟩ _
      · contradiction
  | abort i =>
      simp only [serviceStep, ServiceNode.abort] at hstep
      cases hphase : s.calls i with
      | waiting verb =>
          rw [hphase] at hstep
          obtain rfl := Option.some.inj hstep
          exact h.of_calls (by simp [hphase, CallPhase.Holds]) id
      | _ =>
          rw [Undisturbed, hphase] at hquiet
          contradiction
  | orphanRead k | orphanWrite k ok =>
      rw [serviceStep, h.orphans] at hstep
      contradiction
  | session event =>
      simp only [serviceStep] at hstep
      split at hstep
      · contradiction
      · next hswap =>
        obtain ⟨serve, hserve, rfl⟩ := Option.map_eq_some_iff.mp hstep
        rw [Bool.not_eq_true] at hswap
        exact {
          orphans := h.orphans
          between := fun i => between_of_session hswap hserve (h.between i)
          free := fun hnone => (h.free hnone).imp (serves_of_session hswap hserve)
            (backed_of_session hswap hserve) }

/-- A node that starts serves its file. -/
theorem steady_start (hload : file.load.isSome = true) : (ServiceNode.start file).Steady where
  orphans := rfl
  between _ := trivial
  free _ := by
    obtain ⟨cfg, hcfg⟩ := Option.isSome_iff_exists.mp hload
    refine ⟨⟨cfg, hcfg, fun name => ?_⟩, fun session hsession => absurd hsession List.not_mem_nil⟩
    simp [ServiceNode.start, Admit.ServeState.init, Admit.ServeState.allowNow, hcfg]

end Steady

end ServiceNode

/-- An undisturbed run leaves nothing half-way: each of its steps is settled. -/
theorem settled_of_undisturbed {file : ConfigFile} (hload : file.load.isSome = true)
    {events : List ServiceEvent}
    (hquiet : Guarded serviceStep ServiceNode.Undisturbed (.start file) events) :
    Guarded serviceStep ServiceNode.Settled (.start file) events := by
  refine hquiet.imp (I := fun s => s.Inv ∧ s.Steady) (fun s event s' hQ h hstep => ?_)
    (fun s event s' _ h hstep => ServiceNode.settled_of_steady h.2 hstep)
    ⟨ServiceNode.inv_start file, ServiceNode.steady_start hload⟩
  exact ⟨h.1.step (ServiceNode.settled_of_steady h.2 hstep) hstep, h.2.step h.1 hQ hstep⟩

/-- **A withdrawal that returned `Ok` is in force**, in a run in which no call is
dropped or fails past its checks and no session is left on a service by a verb that
replaces or drops it. -/
theorem in_force_of_undisturbed {file : ConfigFile} (hload : file.load.isSome = true)
    {events : List ServiceEvent} {s : ServiceNode}
    (hquiet : Guarded serviceStep ServiceNode.Undisturbed (.start file) events)
    (hrun : run serviceStep (.start file) events = some s) {verb : ServiceVerb}
    (hreturned : s.returned = some verb) : s.InForce verb := by
  have hinv : s.Inv := (settled_of_undisturbed hload hquiet).invariant
    (fun _ _ _ hsettled h hstep => h.step hsettled hstep) (ServiceNode.inv_start file) hrun
  exact hinv.returned verb hreturned

namespace RevokedNotes

/-- Once more, with nothing left to remove. -/
def revokedAgain : List ServiceEvent :=
  session ++ [.call 0 verb, .acquire 0 true (some 1), .read 0 true, .write 0 true,
    .resume 0 (some 1), .sever 0 true fun _ => false, .call 1 verb, .acquire 1 true (some 2),
    .read 1 true, .write 1 true, .resume 1 (some 2), .confirm 1 true]

end RevokedNotes

open RevokedNotes in
example : ∃ s, run serviceStep (.start file) revokedAgain = some s ∧ s.InForce verb := by
  have hend : (run serviceStep (.start file) revokedAgain).any
      (fun s => s.returned == some verb) = true := by decide +kernel
  obtain ⟨s, hrun, hreturned⟩ := (Option.any_eq_true ..).mp hend
  have hquiet : Guarded serviceStep ServiceNode.Undisturbed (.start file) revokedAgain := by
    decide +kernel
  exact ⟨s, hrun, in_force_of_undisturbed rfl hquiet hrun (by simpa using hreturned)⟩

end Mcpmesh
