import Mcpmesh.Daemon.Registry

/-!
# Mcpmesh.Daemon.FastSwap

The registry that a verb leaves is the one that a rebuild would give
(`node/src/daemon/handlers.rs`).

A verb that rebuilds is right whatever was live before.  One that skips the
rebuild has to be right about what it skipped: where it changed nothing, the
live registry still agrees, and where it changed one allow list of the overlay,
the list put in place is all that a rebuild would change.
-/

namespace Mcpmesh

open Lib

namespace ServiceStore

/-- The live registry is the one that the file and the overlay give. -/
def Agrees (globalRpm : Option Nat) (s : ServiceStore) : Prop :=
  ∃ cfg, s.file.load = some cfg ∧
    s.live.Same (Registry.buildServicesWithEphemeral globalRpm cfg s.overlay)

/-- A node that starts: the registry of the file, nothing in the overlay. -/
def start (globalRpm : Option Nat) (file : ConfigFile) (cfg : AList fun _ : String => ServiceCfg) :
    ServiceStore :=
  { file, overlay := ∅, live := Registry.buildServicesWithEphemeral globalRpm cfg ∅ }

section

variable {globalRpm : Option Nat} {file : ConfigFile} {cfg : AList fun _ : String => ServiceCfg}
  {s s' : ServiceStore} {service principal name : String} {overlay : EphemeralServices}
  {dropped changed : Bool}

/-- The store agrees with its file when it starts. -/
theorem agrees_start (h : file.load = some cfg) : (start globalRpm file cfg).Agrees globalRpm :=
  ⟨cfg, h, fun _ => rfl⟩

/-! ## what the parts of a verb do -/

/-- A rebuild agrees with the file. -/
theorem agrees_of_reload (h : (reloadServicesFromDisk globalRpm).apply s = (s', .ok ())) :
    s'.Agrees globalRpm := by
  obtain ⟨s₁, cfg, hloaded, h⟩ := Action.bind_ok.mp h
  obtain ⟨rfl, hload⟩ := load_ok.mp hloaded
  rw [← Action.modify_ok.mp h]
  exact ⟨cfg, hload, fun _ => rfl⟩

/-- An edit that reports no change made none, and no edit reaches the overlay. -/
theorem editConfig_ok {edit : ConfigEdit} (h : (editConfig edit).apply s = (s', .ok changed)) :
    s'.overlay = s.overlay ∧ (changed = false → s' = s) := by
  simp only [editConfig, Action.apply_get, Action.attempt_bind_ok] at h
  obtain ⟨written, -, h⟩ := h
  cases written with
  | none =>
      obtain ⟨rfl, rfl⟩ := Action.pure_ok.mp h
      exact ⟨rfl, fun _ => rfl⟩
  | some file =>
      simp only [Action.modify_bind_ok, Action.pure_ok] at h
      obtain ⟨rfl, rfl⟩ := h
      simp

/-- What is live depends on the overlay by its entries alone. -/
theorem Agrees.of_overlay (h : s.Agrees globalRpm)
    (hsame : ∀ name, overlay.lookup name = s.overlay.lookup name) :
    ({ s with overlay } : ServiceStore).Agrees globalRpm := by
  obtain ⟨cfg, hload, hlive⟩ := h
  refine ⟨cfg, hload, fun name => ?_⟩
  rw [hlive name, Registry.lookup_build, Registry.lookup_build, hsame]

/-! ## the overlay that an edit leaves -/

/-- An edit of one allow list in the overlay, that says whether it moved. -/
def AllowEdit (service : String) (overlay overlay' : EphemeralServices) (moved : Bool) : Prop :=
  (moved = false ∧ ∀ name, overlay'.lookup name = overlay.lookup name) ∨
    (moved = true ∧ ∃ eph allow, overlay.lookup service = some eph ∧
      overlay' = overlay.insert service { eph with allow })

/-- What a grant does to an overlay. -/
theorem allowEdit_grant : AllowEdit service overlay
    (grantEphemeral overlay service principal).2
    ((grantEphemeral overlay service principal).1.getD false) := by
  simp only [grantEphemeral]
  cases hentry : overlay.lookup service with
  | none => exact .inl ⟨rfl, fun _ => rfl⟩
  | some eph =>
      by_cases hold : principal ∈ eph.allow
      · exact .inl (by simp [hold])
      · refine .inr ?_
        simp only [hold, if_false]
        exact ⟨rfl, eph, _, hentry, rfl⟩

/-- What a revoke does to an overlay. -/
theorem allowEdit_revoke : AllowEdit service overlay
    (revokeEphemeral overlay service principal).2
    ((revokeEphemeral overlay service principal).1.getD false) := by
  simp only [revokeEphemeral]
  cases hentry : overlay.lookup service with
  | none => exact .inl ⟨rfl, fun _ => rfl⟩
  | some eph =>
      by_cases hkept : eph.allow.filter (· ≠ principal) = eph.allow
      · refine .inl ⟨by simp only [hkept]; simp, fun name => ?_⟩
        simp only [hkept, lookup_alist_insert]
        split
        · next hname => rw [hname, hentry]
        · rfl
      · refine .inr ⟨?_, eph, _, hentry, rfl⟩
        have hlength : (eph.allow.filter (· ≠ principal)).length ≠ eph.allow.length :=
          fun hlength => hkept (List.filter_eq_self.mpr
            (List.length_filter_eq_length_iff.mp hlength))
        simpa using hlength

/-- Grants that moved nothing left the overlay as it was. -/
theorem grantEphemerals_of_unmoved {services : List String}
    (h : (ServiceNode.grantEphemerals principal services overlay).1 = false) :
    (ServiceNode.grantEphemerals principal services overlay).2.lookup name =
      overlay.lookup name := by
  have hmoved : ∀ acc : Bool × EphemeralServices, ∀ acc', services.foldl (fun acc service =>
      (acc.1 || (grantEphemeral acc.2 service principal).1.getD false,
        (grantEphemeral acc.2 service principal).2)) acc = acc' → acc'.1 = false →
      acc.1 = false ∧ ∀ name, acc'.2.lookup name = acc.2.lookup name := by
    intro acc acc' hfold hfalse
    clear h
    induction services generalizing acc with
    | nil =>
        subst hfold
        exact ⟨hfalse, fun _ => rfl⟩
    | cons service services ih =>
        obtain ⟨hfalse, hrest⟩ := ih _ hfold
        simp only [Bool.or_eq_false_iff] at hfalse
        have hservice : AllowEdit service acc.2 (grantEphemeral acc.2 service principal).2 false :=
          hfalse.2 ▸ allowEdit_grant
        obtain ⟨-, hsame⟩ | ⟨hne, -⟩ := hservice
        · exact ⟨hfalse.1, fun name => (hrest name).trans (hsame name)⟩
        · contradiction
  exact (hmoved _ _ rfl h).2 name

/-- What an edit of one allow list in the overlay leaves for a rebuild. -/
theorem agrees_of_apply {eph : EphemeralService} {allow : List String} (h : s.Agrees globalRpm)
    (heph : s.overlay.lookup service = some eph)
    (happly : (applyEphemeralAllow globalRpm service).apply
      { s with overlay := s.overlay.insert service { eph with allow } } = (s', .ok ())) :
    s'.Agrees globalRpm := by
  simp only [applyEphemeralAllow, Action.apply_get, AList.lookup_insert, Option.bind_some]
    at happly
  split at happly
  · next live hlive =>
    obtain rfl := Action.modify_ok.mp happly
    obtain ⟨cfg, hload, hsame⟩ := h
    refine ⟨cfg, hload, fun name => ?_⟩
    have hbuilt := hsame name
    simp only [Registry.lookup_build] at hbuilt ⊢
    rw [Registry.lookup_withAllowReplaced hlive, lookup_alist_insert, hbuilt]
    split
    · next hname =>
      rw [hname, heph]
      rfl
    · rfl
  · exact agrees_of_reload happly

/-- The swap after an edit of one allow list, where the file is as it was. -/
theorem agrees_of_swap {moved : Bool} (h : s.Agrees globalRpm)
    (hedit : AllowEdit service s.overlay overlay moved)
    (hcall : (swapMoved globalRpm service false moved).apply { s with overlay } = (s', .ok ())) :
    s'.Agrees globalRpm := by
  obtain ⟨rfl, hsame⟩ | ⟨rfl, eph, allow, heph, rfl⟩ := hedit
  · obtain ⟨rfl, -⟩ := Action.pure_ok.mp hcall
    exact h.of_overlay hsame
  · exact agrees_of_apply h heph hcall

/-- A check that passes changes nothing. -/
theorem ensureServable_ok {c : Prop} [Decidable c] {f : Unit → Action ServiceStore VerbError Unit}
    (h : Action.apply (if c then ensureServableInConfig service >>= f else f ()) s =
      (s', .ok ())) : (f ()).apply s = (s', .ok ()) := by
  split at h
  · obtain ⟨s₁, u, hservable, h⟩ := Action.bind_ok.mp h
    obtain ⟨s₂, cfg, hload, hservable⟩ := Action.bind_ok.mp hservable
    obtain ⟨rfl, -⟩ := load_ok.mp hload
    obtain ⟨rfl, -⟩ := Action.attempt_ok.mp hservable
    exact h
  · exact h

/-! ## the verbs -/

/-- A registration leaves the registry a rebuild would make. -/
theorem agrees_registerService {backend : BackendSpec} {allow : List String} {ephemeral : Bool}
    {rate : Option Nat}
    (hcall : (registerService globalRpm name backend allow ephemeral rate).apply s =
      (s', .ok ())) : s'.Agrees globalRpm := by
  simp only [registerService, Action.attempt_bind_ok] at hcall
  obtain ⟨-, -, hcall⟩ := hcall
  cases ephemeral with
  | true =>
      obtain ⟨_, _, _, hreload⟩ := Action.bind_ok.mp hcall
      exact agrees_of_reload hreload
  | false =>
      simp only [Action.apply_get, Action.attempt_bind_ok, Bool.false_eq_true, if_false] at hcall
      obtain ⟨-, -, hcall⟩ := hcall
      obtain ⟨_, _, _, hreload⟩ := Action.bind_ok.mp hcall
      exact agrees_of_reload hreload

/-- An unregistration leaves the registry a rebuild would make. -/
theorem agrees_unregisterService (h : s.Agrees globalRpm)
    (hcall : (unregisterService globalRpm name).apply s = (s', .ok ())) :
    s'.Agrees globalRpm := by
  obtain ⟨s₁, dropped, hdrop, hcall⟩ := Action.bind_ok.mp hcall
  simp only [dropEphemeral, Action.apply_get, Action.modify_bind_ok, Action.pure_ok] at hdrop
  obtain ⟨rfl, rfl⟩ := hdrop
  obtain ⟨s₂, removed, hedit, hcall⟩ := Action.bind_ok.mp hcall
  split at hcall
  · exact agrees_of_reload hcall
  · next hskip =>
    simp only [Bool.or_eq_true, decide_eq_true_eq, not_or, Bool.not_eq_true] at hskip
    obtain ⟨rfl, -⟩ := Action.pure_ok.mp hcall
    obtain rfl := (editConfig_ok hedit).2 hskip.2
    refine h.of_overlay fun n => ?_
    rw [lookup_alist_erase]
    split
    · next hn => rw [hn, AList.lookup_eq_none.mpr hskip.1]
    · rfl

/-- A grant of access leaves the registry a rebuild would make. -/
theorem agrees_grantServiceAccess {services : List String} (h : s.Agrees globalRpm)
    (hcall : (grantServiceAccess globalRpm principal services).apply s = (s', .ok ())) :
    s'.Agrees globalRpm := by
  obtain ⟨s₁, changed, hedit, hcall⟩ := Action.bind_ok.mp hcall
  simp only [Action.apply_get, Action.modify_bind_ok] at hcall
  split at hcall
  · exact agrees_of_reload hcall
  · next hskip =>
    simp only [Bool.or_eq_true, not_or, Bool.not_eq_true] at hskip
    obtain ⟨rfl, -⟩ := Action.pure_ok.mp hcall
    obtain rfl := (editConfig_ok hedit).2 hskip.1
    exact h.of_overlay fun n => grantEphemerals_of_unmoved hskip.2

/-- A grant of one service leaves the registry a rebuild would make. -/
theorem agrees_grantServiceAllow {revoked : String → Bool} (h : s.Agrees globalRpm)
    (hcall : (grantServiceAllow globalRpm revoked service principal).apply s = (s', .ok ())) :
    s'.Agrees globalRpm := by
  simp only [grantServiceAllow, Action.attempt_bind_ok, Action.apply_get] at hcall
  obtain ⟨-, -, hcall⟩ := hcall
  obtain ⟨s₁, changed, hedit, hswap⟩ := Action.bind_ok.mp (ensureServable_ok hcall)
  simp only [Action.apply_get, Action.modify_bind_ok] at hswap
  cases changed with
  | true => exact agrees_of_reload hswap
  | false =>
      obtain rfl := (editConfig_ok hedit).2 rfl
      exact agrees_of_swap h allowEdit_grant hswap

/-- A revoke of one service leaves the registry a rebuild would make. -/
theorem agrees_revokeServiceAllow (h : s.Agrees globalRpm)
    (hcall : (revokeServiceAllow globalRpm service principal).apply s = (s', .ok ())) :
    s'.Agrees globalRpm := by
  simp only [revokeServiceAllow, Action.apply_get, Action.modify_bind_ok] at hcall
  obtain ⟨s₁, changed, hedit, hcall⟩ := Action.bind_ok.mp hcall
  have hswap := ensureServable_ok hcall
  cases changed with
  | true => exact agrees_of_reload hswap
  | false =>
      obtain rfl := (editConfig_ok hedit).2 rfl
      exact agrees_of_swap h allowEdit_revoke hswap

/-- A teardown leaves the registry a rebuild would make. -/
theorem agrees_unregisterEphemeral {names : List String} (h : s.Agrees globalRpm)
    (hcall : (unregisterEphemeral globalRpm names).apply s = (s', .ok ())) :
    s'.Agrees globalRpm := by
  by_cases hnames : names = []
  · subst hnames
    obtain ⟨rfl, -⟩ := Action.pure_ok.mp hcall
    exact h
  · obtain ⟨cfg, hload, -⟩ := h
    rw [unregister_of_load hload hnames] at hcall
    obtain ⟨rfl, -⟩ := Prod.mk.inj hcall
    exact ⟨cfg, hload, fun _ => rfl⟩

/-- A revoke of access leaves the registry a rebuild would make. -/
theorem agrees_revokeServiceAccess {principals : List String} (h : s.Agrees globalRpm)
    (hcall : (revokeServiceAccess globalRpm principals).apply s = (s', .ok ())) :
    s'.Agrees globalRpm := by
  simp only [revokeServiceAccess] at hcall
  split at hcall
  · obtain ⟨rfl, -⟩ := Action.pure_ok.mp hcall
    exact h
  · obtain ⟨s₁, changed, hedit, hcall⟩ := Action.bind_ok.mp hcall
    split at hcall
    · exact agrees_of_reload hcall
    · next hskip =>
      obtain ⟨rfl, -⟩ := Action.pure_ok.mp hcall
      obtain rfl := (editConfig_ok hedit).2 (by simpa using hskip)
      exact h

/-- **Step lemma**: every verb that returns `Ok` leaves the registry of a
rebuild. -/
theorem Agrees.verb {revoked : String → Bool} {v : ServiceVerb} (h : s.Agrees globalRpm)
    (hcall : (verb globalRpm revoked v).apply s = (s', .ok ())) : s'.Agrees globalRpm := by
  cases v with
  | registerService name backend allow ephemeral rate => exact agrees_registerService hcall
  | unregisterService name => exact agrees_unregisterService h hcall
  | grantServiceAccess principal services => exact agrees_grantServiceAccess h hcall
  | grantServiceAllow service principal => exact agrees_grantServiceAllow h hcall
  | revokeServiceAllow service principal => exact agrees_revokeServiceAllow h hcall
  | revokeServiceAccess principals => exact agrees_revokeServiceAccess h hcall
  | unregisterEphemeral names => exact agrees_unregisterEphemeral h hcall

end

end ServiceStore

/-! ## runs -/

/-- A call, with what the peer store and the roster then say of a principal. -/
structure ServiceCall where
  verb : ServiceVerb
  revoked : String → Bool

def callStep (globalRpm : Option Nat) (s : ServiceStore) (call : ServiceCall) :
    ServiceStore × Except VerbError Unit :=
  (ServiceStore.verb globalRpm call.revoked call.verb).apply s

/-- **Fast swaps**: after each call of a run in which every call returns `Ok`,
the live registry is the one that a rebuild from the file and the overlay gives. -/
theorem fast_swaps_equal_rebuild {globalRpm : Option Nat} {s : ServiceStore}
    (h : s.Agrees globalRpm) {calls : List ServiceCall}
    (hok : ∀ t ∈ trace (callStep globalRpm) s calls, t.out = .ok ()) :
    ∀ t ∈ trace (callStep globalRpm) s calls, t.post.Agrees globalRpm := by
  have hstep : ∀ s call, (callAt (callStep globalRpm) s call).out = .ok () →
      s.Agrees globalRpm → (callStep globalRpm s call).1.Agrees globalRpm := by
    intro s call hout hs
    exact hs.verb (Prod.ext rfl hout)
  intro t ht
  have hpre : t.pre.Agrees globalRpm := trace_guarded_pre hstep h hok ht
  have hout := hok t ht
  rw [eq_callAt_of_mem_trace ht] at hout ⊢
  exact hstep t.pre t.call hout hpre

namespace SharedRoom

/-- A room that both sources hold, and an entry that names no backend. -/
def file : ConfigFile :=
  ⟨.table ((AList.singleton "room" (.table
      (BackendSpec.table (.array [some "b64u:alice"]) (some 30) (.socket "/run/old.sock")))).insert
    "broken" (.table
      { run := none, socket := none, env := [], cwd := none, allow := .array []
        rateLimitPerMin := none }))⟩

def overlay : EphemeralServices :=
  AList.singleton "room" ⟨.socket "/run/room.sock", ["b64u:alice"], none⟩

def store : ServiceStore :=
  { file, overlay
    live := Registry.buildServicesWithEphemeral (some 120) (file.load.getD ∅) overlay }

def calls : List ServiceCall :=
  ([.registerService "notes" (.run ["notes"] [] none) [] true (some 500),
    .grantServiceAllow "notes" "b64u:bob",
    .grantServiceAllow "room" "b64u:bob",
    .grantServiceAccess "b64u:carol" ["broken", "notes"],
    .revokeServiceAllow "notes" "b64u:bob",
    .revokeServiceAllow "room" "b64u:nobody",
    .registerService "files" (.socket "/run/files.sock") ["b64u:bob"] false none,
    .revokeServiceAccess ["b64u:bob"],
    .unregisterService "room",
    .unregisterEphemeral ["notes"]] : List ServiceVerb).map (⟨·, fun _ => false⟩)

end SharedRoom

theorem fast_swaps_equal_rebuild_example :
    (trace (callStep (some 120)) SharedRoom.store SharedRoom.calls).all
        (fun t => t.out.isOk) = true ∧
      ∀ t ∈ trace (callStep (some 120)) SharedRoom.store SharedRoom.calls,
        t.post.Agrees (some 120) := by
  have hload : SharedRoom.file.load = some (SharedRoom.file.load.getD ∅) := rfl
  have hall : (trace (callStep (some 120)) SharedRoom.store SharedRoom.calls).all
      (fun t => t.out.isOk) = true := by decide +kernel
  refine ⟨hall, fast_swaps_equal_rebuild ⟨_, hload, fun _ => rfl⟩ fun t ht => ?_⟩
  obtain ⟨u, hout⟩ := isOk_iff.mp (List.all_eq_true.mp hall t ht)
  exact hout

end Mcpmesh
