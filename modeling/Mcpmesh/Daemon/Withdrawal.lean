import Mcpmesh.Daemon.Services

/-!
# Mcpmesh.Daemon.Withdrawal

What holds when a withdrawal returns `Ok`.

Under the lock a withdrawal clears the overlay, then the file, then the live
registry, and last cuts the sessions.  It skips the last two where its own edits
found nothing to remove.  That is right where no earlier attempt was left
half-way (`Settled`); a retry of one that failed, or was dropped, after its edit
finds nothing either, and returns `Ok` with the registry as it was.
-/

namespace Mcpmesh

open Lib

/-! ## the law -/

/-- The entries of the list that let a session in, while it runs on the
service. -/
def Admit.Session.admittedAs (session : Admit.Session) (service : String) : List String :=
  match session.phase with
  | .running name identity allow =>
      if name = service then allow.filter (entryAdmits identity) else []
  | _ => []

namespace ServiceVerb

/-- The overlay has nothing left of what the verb withdraws. -/
def OverlayClear (overlay : EphemeralServices) : ServiceVerb → Prop
  | .revokeServiceAllow service principal => principal ∉ ephemeralAllow overlay service
  | .unregisterService name => overlay.lookup name = none
  | _ => True

def FileClear (file : ConfigFile) : ServiceVerb → Prop
  | .revokeServiceAllow service principal => principal ∉ file.allow service
  | .unregisterService name => file.services.entries.lookup name = none
  | _ => True

def LiveClear (serve : Admit.ServeState) : ServiceVerb → Prop
  | .revokeServiceAllow service principal => ¬ serve.Grants service principal
  | .unregisterService name => serve.allowNow name = none
  | _ => True

/-- No session that was let in as the principal runs on an open connection. -/
def SessionsClear (serve : Admit.ServeState) : ServiceVerb → Prop
  | .revokeServiceAllow service principal =>
      ∀ session ∈ serve.sessions, principal ∈ session.admittedAs service →
        serve.closed session.conn = true
  | _ => True

end ServiceVerb

/-- What the verb withdraws is gone. -/
structure ServiceNode.InForce (s : ServiceNode) (verb : ServiceVerb) : Prop where
  overlay : verb.OverlayClear s.overlay
  file : verb.FileClear s.file
  live : verb.LiveClear s.serve
  sessions : verb.SessionsClear s.serve

/-! ## the condition -/

/-- No earlier withdrawal from the service was left half-way: no swap is owed,
since what the live registry lists the overlay or the file lists too, and no
sever, since every entry that let in a session which runs on an open connection
is still on the live list. -/
structure ServiceNode.SettledOn (s : ServiceNode) (service : String) : Prop where
  swapped : ∀ p ∈ (s.serve.allowNow service).getD [],
    p ∈ ephemeralAllow s.overlay service ∨ p ∈ s.file.allow service
  severed : ∀ session ∈ s.serve.sessions, s.serve.closed session.conn = false →
    ∀ p ∈ session.admittedAs service, p ∈ (s.serve.allowNow service).getD []

instance (s : ServiceNode) (service : String) : Decidable (s.SettledOn service) :=
  decidable_of_iff (_ ∧ _) ⟨fun h => ⟨h.1, h.2⟩, fun h => ⟨h.swapped, h.severed⟩⟩

/-- The live registry offers a service only if the overlay or the file has it. -/
def ServiceNode.SettledOffer (s : ServiceNode) (name : String) : Prop :=
  (s.serve.allowNow name).isSome = true → name ∈ s.overlay ∨ name ∈ s.file.services.entries

instance (s : ServiceNode) (name : String) : Decidable (s.SettledOffer name) := by
  unfold ServiceNode.SettledOffer
  infer_instance

/-- The condition on a step: a withdrawal that removed nothing returns where
nothing was left half-way, and the edit of a dropped call is not written into the
section of another. -/
def ServiceNode.Settled (s : ServiceNode) : ServiceEvent → Prop
  | .resume i _ =>
      match s.calls i with
      | .edited (.revokeServiceAllow service _) (some false) (some false) => s.SettledOn service
      | .edited (.unregisterService name) moved (some false) =>
          moved.getD false = false → s.SettledOffer name
      | _ => True
  | .confirm i _ =>
      match s.calls i with
      | .confirming (.revokeServiceAllow service _) => s.SettledOn service
      | _ => True
  | .orphanWrite _ _ => s.lock = none
  | _ => True

instance (s : ServiceNode) (event : ServiceEvent) : Decidable (s.Settled event) := by
  unfold ServiceNode.Settled
  split
  · split <;> infer_instance
  · split <;> infer_instance
  · infer_instance
  · infer_instance

/-! ## the invariant -/

/-- The call holds the lock. -/
def CallPhase.Holds : CallPhase → Prop
  | .idle | .waiting _ => False
  | _ => True

/-- The edit of a withdrawal is its own. -/
def ServiceVerb.Edits (edit : ConfigEdit) : ServiceVerb → Prop
  | .revokeServiceAllow service principal => edit = .removePrincipal service principal
  | .unregisterService name => edit = .removeService name
  | _ => True

/-- How far a withdrawal has come. -/
def ServiceNode.Stripped (s : ServiceNode) : CallPhase → Prop
  | .editing verb _ edit base =>
      verb.OverlayClear s.overlay ∧ verb.Edits edit ∧ ∀ b, base = some b → b = s.file
  | .edited verb _ changed =>
      verb.OverlayClear s.overlay ∧ (changed.isSome = true → verb.FileClear s.file)
  | .confirming verb => verb.OverlayClear s.overlay ∧ verb.FileClear s.file
  | .severing verb =>
      verb.OverlayClear s.overlay ∧ verb.FileClear s.file ∧ verb.LiveClear s.serve
  | _ => True

structure ServiceNode.Inv (s : ServiceNode) : Prop where
  serve : s.serve.Inv
  exclusive : ∀ i, (s.calls i).Holds → s.lock = some i
  stripped : ∀ i, s.Stripped (s.calls i)
  returned : ∀ verb, s.returned = some verb → s.InForce verb

/-- The others wait, so that only the call `i` can act. -/
structure ServiceNode.Owned (s : ServiceNode) (i : Nat) : Prop where
  serve : s.serve.Inv
  others : ∀ j, j ≠ i → ¬ (s.calls j).Holds

section Invariant

variable {s s' : ServiceNode} {i : Nat} {verb : ServiceVerb} {phase : CallPhase}
  {ptr : Option Nat} {service p : String}

/-- A call that does not hold the lock has stripped nothing. -/
theorem stripped_of_not_holds (h : ¬ phase.Holds) : s.Stripped phase := by
  cases phase <;> first | trivial | exact absurd trivial h

namespace ServiceNode

/-- Who has the lock, or finds it free, is alone. -/
theorem Inv.owned (h : s.Inv) (hlock : s.lock = none ∨ s.lock = some i) : s.Owned i where
  serve := h.serve
  others j hj hholds := by
    have hj' := h.exclusive j hholds
    rcases hlock with hlock | hlock <;> rw [hlock] at hj' <;> simp_all

/-- The others have stripped nothing. -/
theorem Owned.stripped (h : s.Owned i) (hphase : s.Stripped phase) (j : Nat) :
    s.Stripped (Function.update s.calls i phase j) := by
  by_cases hj : j = i
  · subst hj
    simpa using hphase
  · simpa [hj] using stripped_of_not_holds (h.others j hj)

/-- To go on under the lock is to have stripped what the next phase says. -/
theorem Owned.hold (h : s.Owned i) (hphase : s.Stripped phase) : (s.hold i phase).Inv where
  serve := h.serve
  exclusive j hj := by
    by_cases hij : j = i
    · rw [hij]
      rfl
    · simp [ServiceNode.hold, hij, h.others j hij] at hj
  stripped := h.stripped hphase
  returned := nofun

/-- To return is to have in force what is returned. -/
theorem Owned.finish (h : s.Owned i) {result : Option ServiceVerb}
    (hresult : ∀ verb, result = some verb → s.InForce verb) : (s.finish i result).Inv where
  serve := h.serve
  exclusive j hj := by
    by_cases hij : j = i
    · simp [ServiceNode.finish, hij, CallPhase.Holds] at hj
    · simp [ServiceNode.finish, hij, h.others j hij] at hj
  stripped := h.stripped trivial
  returned verb hverb :=
    have hforce := hresult verb hverb
    ⟨hforce.overlay, hforce.file, hforce.live, hforce.sessions⟩

/-- Return an error. -/
theorem Owned.fail (h : s.Owned i) : (s.finish i none).Inv := h.finish nofun

/-- To return Ok of a verb is to have it in force. -/
theorem Owned.finishOk (h : s.Owned i) (hforce : s.InForce verb) :
    (s.finish i (some verb)).Inv := by
  refine h.finish fun verb' hverb => ?_
  obtain rfl := Option.some.inj hverb
  exact hforce

/-- What a reload, or a swap of one list, leaves to the call that runs it. -/
structure Swept (s : ServiceNode) (i : Nat) (verb : ServiceVerb)
    (reloaded : ServiceNode × Bool) : Prop where
  owned : reloaded.1.Owned i
  overlay : reloaded.1.overlay = s.overlay
  file : reloaded.1.file = s.file
  live : reloaded.2 = true → verb.OverlayClear s.overlay → verb.FileClear s.file →
    verb.LiveClear reloaded.1.serve

/-- A swap changes the live registry and nothing else. -/
theorem frame_of_swap {address : Nat} {services : Admit.Services}
    (hswap : s.swapServices address services = some s') :
    ∃ serve, s' = { s with serve } ∧ (∀ name, serve.allowNow name = services.lookup name) ∧
      serve.sessions = s.serve.sessions ∧ serve.closed = s.serve.closed := by
  obtain ⟨serve₂, hserve, rfl⟩ := Option.map_eq_some_iff.mp hswap
  obtain ⟨serve₁, halloc, hstore⟩ := Option.bind_eq_some_iff.mp hserve
  refine ⟨serve₂, rfl, ?_⟩
  simp only [Admit.ServeState.step] at halloc hstore
  split at halloc
  · contradiction
  · obtain rfl := Option.some.inj halloc
    obtain ⟨-, hstore⟩ := Option.ite_none_right_eq_some.mp hstore
    obtain rfl := Option.some.inj hstore
    exact ⟨fun name => by simp [Admit.ServeState.allowNow], rfl, rfl⟩

/-- A swap leaves the lock. -/
theorem Owned.of_swap (h : s.Owned i) {address : Nat} {services : Admit.Services}
    (hswap : s.swapServices address services = some s') : s'.Owned i := by
  obtain ⟨serve₂, hserve, rfl⟩ := Option.map_eq_some_iff.mp hswap
  obtain ⟨serve₁, halloc, hstore⟩ := Option.bind_eq_some_iff.mp hserve
  exact ⟨(h.serve.step halloc).step hstore, h.others⟩

/-- A reload leaves live what the file and the overlay give, so nothing that they are
clear of. -/
theorem swept_reload (h : s.Owned i) {reloaded : ServiceNode × Bool}
    (hreload : s.reloadServicesFromDisk ptr = some reloaded) : Swept s i verb reloaded := by
  simp only [reloadServicesFromDisk] at hreload
  split at hreload
  · next address cfg hload =>
    obtain ⟨s', hswap, rfl⟩ := Option.map_eq_some_iff.mp hreload
    have howned := h.of_swap hswap
    obtain ⟨serve, rfl, hlive, -⟩ := frame_of_swap hswap
    refine ⟨howned, rfl, rfl, fun _ hover hclear => ?_⟩
    cases verb with
    | revokeServiceAllow service principal =>
        rintro ⟨allow, hallow, hp⟩
        rw [hlive] at hallow
        rcases listed_of_build hload hallow hp with hlisted | hlisted
        · exact hover hlisted
        · exact hclear hlisted
    | unregisterService name => exact (hlive name).trans (lookup_build_eq_none hload hover hclear)
    | registerService | grantServiceAccess | grantServiceAllow | revokeServiceAccess
    | unregisterEphemeral => trivial
  · obtain rfl := Option.some.inj hreload
    exact ⟨h, rfl, rfl, nofun⟩

/-- A list of the overlay that replaces the live one. -/
theorem swept_apply (h : s.Owned i) {reloaded : ServiceNode × Bool}
    (hverb : ∀ name, verb ≠ .unregisterService name)
    (hservice : ∀ service' p, verb = .revokeServiceAllow service' p → service' = service)
    (happly : s.applyEphemeralAllow service ptr = some reloaded) : Swept s i verb reloaded := by
  simp only [applyEphemeralAllow] at happly
  split at happly
  · next services hupdated =>
    obtain ⟨address, rfl, happly⟩ := Option.bind_eq_some_iff.mp happly
    obtain ⟨s', hswap, rfl⟩ := Option.map_eq_some_iff.mp happly
    have howned := h.of_swap hswap
    obtain ⟨serve, rfl, hlive, -⟩ := frame_of_swap hswap
    obtain ⟨entry, hentry, hreplaced⟩ := Option.bind_eq_some_iff.mp hupdated
    obtain ⟨-, hreplaced⟩ := Option.ite_none_right_eq_some.mp hreplaced
    obtain rfl := Option.some.inj hreplaced
    refine ⟨howned, rfl, rfl, fun _ hover hclear => ?_⟩
    cases verb with
    | revokeServiceAllow service' principal =>
        obtain rfl := hservice service' principal rfl
        rintro ⟨allow, hallow, hp⟩
        rw [hlive, AList.lookup_insert, Option.some.injEq] at hallow
        exact hover (mem_ephemeralAllow.mpr ⟨entry, hentry, hallow ▸ hp⟩)
    | unregisterService name => exact absurd rfl (hverb name)
    | registerService | grantServiceAccess | grantServiceAllow | revokeServiceAccess
    | unregisterEphemeral => trivial
  · exact swept_reload h happly

/-- A verb that severs nothing returns what the reload did. -/
theorem Swept.settle {reloaded : ServiceNode × Bool} (h : Swept s i verb reloaded)
    (hoverlay : verb.OverlayClear s.overlay) (hfile : verb.FileClear s.file)
    (hsessions : verb.SessionsClear reloaded.1.serve) :
    (ServiceNode.settle i verb reloaded).Inv := by
  refine h.owned.finish fun verb' hverb' => ?_
  obtain ⟨hok, heq⟩ := Option.ite_none_right_eq_some.mp hverb'
  obtain rfl := Option.some.inj heq
  exact ⟨h.overlay ▸ hoverlay, h.file ▸ hfile, h.live hok hoverlay hfile, hsessions⟩

/-- The sever comes once the live registry is clear. -/
theorem Swept.toSever {reloaded : ServiceNode × Bool} (h : Swept s i verb reloaded)
    (hoverlay : verb.OverlayClear s.overlay) (hfile : verb.FileClear s.file) :
    (ServiceNode.toSever i verb reloaded).Inv := by
  unfold ServiceNode.toSever
  split
  · next hok =>
    exact h.owned.hold ⟨h.overlay ▸ hoverlay, h.file ▸ hfile, h.live hok hoverlay hfile⟩
  · exact h.owned.fail

theorem Owned.of_overlay (h : s.Owned i) (overlay : EphemeralServices) :
    ({ s with overlay } : ServiceNode).Owned i :=
  ⟨h.serve, h.others⟩

/-- From the lock to the first await. -/
theorem enter_inv (h : s.Owned i) {ok : Bool} (henter : s.enter i ok ptr verb = some s') :
    s'.Inv := by
  cases verb with
  | registerService name backend allow ephemeral rate =>
      simp only [enter] at henter
      split at henter
      · obtain rfl := Option.some.inj henter
        exact h.fail
      split at henter
      · split at henter
        · split at henter
          · obtain rfl := Option.some.inj henter
            exact h.fail
          · obtain ⟨reloaded, hreload, rfl⟩ := Option.map_eq_some_iff.mp henter
            exact (swept_reload (h.of_overlay _) hreload).settle trivial trivial trivial
        · obtain rfl := Option.some.inj henter
          exact h.fail
      split at henter
      · obtain rfl := Option.some.inj henter
        exact h.fail
      · obtain rfl := Option.some.inj henter
        exact h.hold ⟨trivial, trivial, nofun⟩
  | unregisterService name =>
      obtain rfl := Option.some.inj henter
      exact (h.of_overlay _).hold ⟨AList.lookup_erase name s.overlay, rfl, nofun⟩
  | grantServiceAccess principal services =>
      obtain rfl := Option.some.inj henter
      exact h.hold ⟨trivial, trivial, nofun⟩
  | grantServiceAllow service principal | revokeServiceAccess principals =>
      obtain rfl := Option.some.inj henter
      exact h.hold trivial
  | revokeServiceAllow service principal =>
      obtain rfl := Option.some.inj henter
      refine (h.of_overlay _).hold ⟨fun hlisted => ?_, rfl, nofun⟩
      exact (mem_ephemeralAllow_revoke.mp hlisted).2 ⟨rfl, rfl⟩
  | unregisterEphemeral names =>
      simp only [enter] at henter
      split at henter
      · obtain rfl := Option.some.inj henter
        exact h.finishOk ⟨trivial, trivial, trivial, trivial⟩
      · obtain ⟨reloaded, hreload, rfl⟩ := Option.map_eq_some_iff.mp henter
        have hswept : Swept _ i (.unregisterEphemeral names) reloaded :=
          swept_reload (h.of_overlay _) hreload
        exact hswept.owned.finishOk ⟨trivial, trivial, trivial, trivial⟩

/-- From the checks to the edit, or to the end. -/
theorem checked_inv (h : s.Owned i) (ok : Bool) : (s.checked i ok verb).Inv := by
  cases verb with
  | grantServiceAllow service principal =>
      simp only [checked]
      split
      · exact h.hold ⟨trivial, trivial, nofun⟩
      · exact h.fail
  | revokeServiceAccess principals =>
      simp only [checked]
      split
      · exact h.fail
      split
      · exact h.finishOk ⟨trivial, trivial, trivial, trivial⟩
      · exact h.hold ⟨trivial, trivial, nofun⟩
  | registerService | unregisterService | grantServiceAccess | revokeServiceAllow
  | unregisterEphemeral => exact h.fail

/-- The edit of a withdrawal clears the file that it read. -/
theorem fileClear_of_run {edit : ConfigEdit} (hedit : verb.Edits edit) {base : ConfigFile}
    {written : Option ConfigFile} (hrun : edit.run base = .ok written) :
    verb.FileClear (written.getD base) := by
  cases verb with
  | revokeServiceAllow service principal =>
      obtain rfl : edit = .removePrincipal service principal := hedit
      obtain rfl := Except.ok.inj hrun
      exact fun hlisted => (mem_allow_removePrincipal.mp hlisted).2 ⟨rfl, rfl⟩
  | unregisterService name =>
      obtain rfl : edit = .removeService name := hedit
      obtain rfl := Except.ok.inj hrun
      exact lookup_removeService.trans (if_pos rfl)
  | registerService | grantServiceAccess | grantServiceAllow | revokeServiceAccess
  | unregisterEphemeral => trivial

/-- An edit that reports a result leaves the file cleared. -/
theorem fileClear_of_write {edit : ConfigEdit} (hedit : verb.Edits edit) {ok : Bool}
    {file : ConfigFile} (hdone : (edit.write ok file file).2.isSome = true) :
    verb.FileClear (edit.write ok file file).1 := by
  cases hrun : edit.run file with
  | error e => simp [ConfigEdit.write, hrun] at hdone
  | ok written =>
      have hclear := fileClear_of_run hedit hrun
      cases written with
      | none => simpa [ConfigEdit.write, hrun] using hclear
      | some file' =>
          cases ok with
          | true => simpa [ConfigEdit.write, hrun] using hclear
          | false => simp [ConfigEdit.write, hrun] at hdone

/-- A revoke that found nothing is in force where nothing was left half-way. -/
theorem inForce_of_settledOn (hoverlay : p ∉ ephemeralAllow s.overlay service)
    (hfile : p ∉ s.file.allow service) (hsettled : s.SettledOn service) :
    s.InForce (.revokeServiceAllow service p) := by
  have hlive : p ∉ (s.serve.allowNow service).getD [] := by
    intro hp
    rcases hsettled.swapped p hp with hlisted | hlisted
    · exact hoverlay hlisted
    · exact hfile hlisted
  refine ⟨hoverlay, hfile, ?_, fun session hsession hp => ?_⟩
  · rintro ⟨allow, hallow, hp⟩
    exact hlive (by rwa [hallow, Option.getD_some])
  · rw [← Bool.not_eq_false]
    exact fun hopen => hlive (hsettled.severed session hsession hopen p hp)

/-- An unregistration that found nothing is in force where nothing was left half-way. -/
theorem inForce_of_settledOffer {name : String} (hoverlay : s.overlay.lookup name = none)
    (hfile : s.file.services.entries.lookup name = none) (hsettled : s.SettledOffer name) :
    s.InForce (.unregisterService name) := by
  refine ⟨hoverlay, hfile, ?_, trivial⟩
  cases hlive : s.serve.allowNow name with
  | none => exact hlive
  | some allow =>
      rcases hsettled (by rw [hlive]; rfl) with hmem | hmem
      · exact absurd hmem (AList.lookup_eq_none.mp hoverlay)
      · exact absurd hmem (AList.lookup_eq_none.mp hfile)

/-- From the end of the edit to the sever, or to the end. -/
theorem edited_inv (h : s.Owned i) {moved : Option Bool} {changed : Bool}
    (hphase : s.calls i = .edited verb moved (some changed))
    (hoverlay : verb.OverlayClear s.overlay) (hfile : verb.FileClear s.file)
    (hsettled : s.Settled (.resume i ptr)) (hedited : s.edited i ptr moved changed verb = some s') :
    s'.Inv := by
  simp only [Settled, hphase] at hsettled
  cases verb with
  | unregisterService name =>
      simp only [edited] at hedited
      split at hedited
      · obtain ⟨reloaded, hreload, rfl⟩ := Option.map_eq_some_iff.mp hedited
        exact (swept_reload h hreload).settle hoverlay hfile trivial
      · next hnothing =>
        obtain rfl := Option.some.inj hedited
        obtain ⟨hmoved, rfl⟩ := Bool.or_eq_false_iff.mp (Bool.not_eq_true _ ▸ hnothing)
        exact h.finishOk (inForce_of_settledOffer hoverlay hfile (hsettled hmoved))
  | grantServiceAccess principal services =>
      simp only [edited] at hedited
      split at hedited
      · obtain ⟨reloaded, hreload, rfl⟩ := Option.map_eq_some_iff.mp hedited
        exact (swept_reload (h.of_overlay _) hreload).settle trivial trivial trivial
      · obtain rfl := Option.some.inj hedited
        exact (h.of_overlay _).finishOk ⟨trivial, trivial, trivial, trivial⟩
  | grantServiceAllow service principal =>
      simp only [edited] at hedited
      split at hedited
      · obtain ⟨reloaded, hreload, rfl⟩ := Option.map_eq_some_iff.mp hedited
        exact (swept_reload (h.of_overlay _) hreload).settle trivial trivial trivial
      split at hedited
      · obtain ⟨reloaded, happly, rfl⟩ := Option.map_eq_some_iff.mp hedited
        have hswept : Swept _ i (.grantServiceAllow service principal) reloaded :=
          swept_apply (h.of_overlay _) (by simp) (by simp) happly
        exact hswept.settle trivial trivial trivial
      · obtain rfl := Option.some.inj hedited
        exact (h.of_overlay _).finishOk ⟨trivial, trivial, trivial, trivial⟩
  | revokeServiceAllow service principal =>
      simp only [edited] at hedited
      split at hedited
      · obtain rfl := Option.some.inj hedited
        exact h.hold ⟨hoverlay, hfile⟩
      · next hsome =>
        split at hedited
        · obtain ⟨reloaded, hreload, rfl⟩ := Option.map_eq_some_iff.mp hedited
          refine Swept.toSever (s := s) ?_ hoverlay hfile
          split at hreload
          · exact swept_reload h hreload
          · refine swept_apply h nofun (fun service' p heq => ?_) hreload
            exact (ServiceVerb.revokeServiceAllow.inj heq).1.symm
        · next hnothing =>
          obtain rfl := Option.some.inj hedited
          obtain ⟨rfl, hmoved⟩ := Bool.or_eq_false_iff.mp (Bool.not_eq_true _ ▸ hnothing)
          have hmoved : moved = some false := by
            cases moved <;> simp_all
          subst hmoved
          exact h.finishOk (inForce_of_settledOn hoverlay hfile hsettled)
  | revokeServiceAccess principals =>
      simp only [edited] at hedited
      split at hedited
      · obtain ⟨reloaded, hreload, rfl⟩ := Option.map_eq_some_iff.mp hedited
        exact (swept_reload h hreload).toSever trivial trivial
      · obtain rfl := Option.some.inj hedited
        exact h.hold ⟨trivial, trivial, trivial⟩
  | registerService | unregisterEphemeral =>
      obtain ⟨reloaded, hreload, rfl⟩ := Option.map_eq_some_iff.mp hedited
      exact (swept_reload h hreload).settle trivial trivial trivial

/-- A session does not touch the registry. -/
theorem grants_of_session {serve : Admit.ServeState} {event : Admit.Event}
    (hswap : isSwap event = false) (hstep : s.serve.step event = some serve) (name : String) :
    serve.allowNow name = s.serve.allowNow name := by
  cases Admit.ServeState.stepped_of_step hstep with
  | alloc | store => contradiction
  | accept | close | deregister | sever | openSession | goOn | admitted | ended | finished => rfl

/-- A session does not undo what a withdrawal has done. -/
theorem stripped_of_session {serve : Admit.ServeState} {event : Admit.Event}
    (hswap : isSwap event = false) (hstep : s.serve.step event = some serve)
    (h : s.Stripped phase) : ({ s with serve, returned := none } : ServiceNode).Stripped phase := by
  have hlive := grants_of_session hswap hstep
  cases phase with
  | severing verb =>
      refine ⟨h.1, h.2.1, ?_⟩
      have hclear := h.2.2
      cases verb with
      | revokeServiceAllow service principal =>
          rintro ⟨allow, hallow, hp⟩
          exact hclear ⟨allow, hlive service ▸ hallow, hp⟩
      | unregisterService name => exact (hlive name).trans hclear
      | registerService | grantServiceAccess | grantServiceAllow | revokeServiceAccess
      | unregisterEphemeral => trivial
  | idle | waiting | checking | editing | edited | confirming => exact h

/-- A sever on a principal closes the connections of the sessions let in as it. -/
theorem closed_of_admittedAs {serve serve' : Admit.ServeState} (h : serve.Inv)
    {endpoints : EndpointId → Bool} {principals : String → Bool} (hp : principals p = true)
    (hsever : serve.step (.sever endpoints principals) = some serve') :
    ∀ session ∈ serve'.sessions, p ∈ session.admittedAs service →
      serve'.closed session.conn = true := by
  intro session hsession hadmitted
  unfold Admit.Session.admittedAs at hadmitted
  split at hadmitted
  · next name identity allow hphase =>
    split at hadmitted
    · have hadmits := (List.mem_filter.mp hadmitted).2
      exact Admit.ServeState.closed_of_sever h hp hsever hsession hphase
        (Admit.mem_principalsOf.mpr hadmits)
    · exact absurd hadmitted List.not_mem_nil
  · exact absurd hadmitted List.not_mem_nil

/-- A dropped call leaves the others what they had. -/
theorem Inv.of_calls (h : s.Inv) (hphase : ¬ phase.Holds) (hnow : ¬ (s.calls i).Holds)
    {orphans : List (ConfigEdit × Option ConfigFile)} :
    ({ s with calls := Function.update s.calls i phase, orphans, returned := none } :
      ServiceNode).Inv where
  serve := h.serve
  exclusive j hj := by
    by_cases hij : j = i
    · subst hij
      simp [hphase] at hj
    · exact h.exclusive j (by simpa [hij] using hj)
  stripped j := by
    by_cases hij : j = i
    · subst hij
      simpa using stripped_of_not_holds hphase
    · change ServiceNode.Stripped _ (Function.update s.calls i phase j)
      rw [Function.update_of_ne hij]
      exact h.stripped j
  returned := nofun

/-- Each settled step keeps the account. -/
theorem Inv.step (h : s.Inv) {event : ServiceEvent} (hsettled : s.Settled event)
    (hstep : serviceStep s event = some s') : s'.Inv := by
  have hown : ∀ i, (s.calls i).Holds → s.Owned i := fun i hi => h.owned (.inr (h.exclusive i hi))
  cases event with
  | call i verb =>
      simp only [serviceStep] at hstep
      split at hstep
      · next hphase =>
        obtain rfl := Option.some.inj hstep
        exact h.of_calls id (by simp [hphase, CallPhase.Holds])
      · contradiction
  | acquire i ok ptr =>
      simp only [serviceStep] at hstep
      split at hstep
      · next verb hphase hlock => exact enter_inv (h.owned (.inl hlock)) hstep
      · contradiction
  | check i ok =>
      simp only [serviceStep] at hstep
      split at hstep
      · next verb hphase =>
        obtain rfl := Option.some.inj hstep
        exact checked_inv (hown i (by simp [hphase, CallPhase.Holds])) ok
      · contradiction
  | read i ok =>
      simp only [serviceStep] at hstep
      split at hstep
      · next verb moved edit hphase =>
        obtain rfl := Option.some.inj hstep
        have hstripped := h.stripped i
        rw [hphase] at hstripped
        refine (hown i (by simp [hphase, CallPhase.Holds])).hold ?_
        split
        · exact ⟨hstripped.1, hstripped.2.1, fun b hb => (Option.some.inj hb).symm⟩
        · exact ⟨hstripped.1, by simp⟩
      · contradiction
  | write i ok =>
      simp only [serviceStep] at hstep
      split at hstep
      · next verb moved edit base hphase =>
        obtain rfl := Option.some.inj hstep
        have hstripped := h.stripped i
        rw [hphase] at hstripped
        obtain ⟨hoverlay, hedit, hbase⟩ := hstripped
        obtain rfl := hbase base rfl
        have howned := hown i (by simp [hphase, CallPhase.Holds])
        exact Owned.hold ⟨howned.serve, howned.others⟩
          ⟨hoverlay, fun hdone => fileClear_of_write hedit hdone⟩
      · contradiction
  | resume i ptr =>
      simp only [serviceStep] at hstep
      split at hstep
      · next verb moved changed hphase =>
        have hstripped := h.stripped i
        rw [hphase] at hstripped
        exact edited_inv (hown i (by simp [hphase, CallPhase.Holds])) hphase hstripped.1
          (hstripped.2 rfl) hsettled hstep
      · next verb moved hphase =>
        obtain rfl := Option.some.inj hstep
        exact (hown i (by simp [hphase, CallPhase.Holds])).fail
      · contradiction
  | confirm i ok =>
      simp only [serviceStep] at hstep
      split at hstep
      · next service principal hphase =>
        obtain rfl := Option.some.inj hstep
        have hstripped := h.stripped i
        rw [hphase] at hstripped
        simp only [Settled, hphase] at hsettled
        refine (hown i (by simp [hphase, CallPhase.Holds])).finish fun verb hverb => ?_
        obtain ⟨-, heq⟩ := Option.ite_none_right_eq_some.mp hverb
        obtain rfl := Option.some.inj heq
        exact inForce_of_settledOn hstripped.1 hstripped.2 hsettled
      · contradiction
  | sever i ok endpoints =>
      simp only [serviceStep] at hstep
      split at hstep
      · next verb hphase =>
        have howned := hown i (by simp [hphase, CallPhase.Holds])
        have hstripped := h.stripped i
        rw [hphase] at hstripped
        split at hstep
        · obtain ⟨serve, hsever, rfl⟩ := Option.map_eq_some_iff.mp hstep
          have howned' : ({ s with serve } : ServiceNode).Owned i :=
            ⟨howned.serve.step hsever, howned.others⟩
          refine howned'.finish fun verb' hverb => ?_
          obtain rfl := Option.some.inj hverb
          refine ⟨hstripped.1, hstripped.2.1, ?_, ?_⟩
          · exact (stripped_of_session rfl hsever hstripped).2.2
          · cases verb with
            | revokeServiceAllow service principal =>
                exact closed_of_admittedAs howned.serve (by simp [severed]) hsever
            | registerService | unregisterService | grantServiceAccess | grantServiceAllow
            | revokeServiceAccess | unregisterEphemeral => trivial
        · obtain rfl := Option.some.inj hstep
          exact howned.fail
      · contradiction
  | abort i =>
      simp only [serviceStep, abort] at hstep
      split at hstep
      · contradiction
      · next verb hphase =>
        obtain rfl := Option.some.inj hstep
        exact h.of_calls id (by simp [hphase, CallPhase.Holds])
      · next verb moved edit base hphase =>
        obtain rfl := Option.some.inj hstep
        have hdropped : (s.finish i none).Inv :=
          (hown i (by simp [hphase, CallPhase.Holds])).fail
        exact ⟨hdropped.serve, hdropped.exclusive, hdropped.stripped, by simp [finish]⟩
      · next hidle hwaiting hediting =>
        obtain rfl := Option.some.inj hstep
        refine (hown i ?_).fail
        cases hphase : s.calls i <;> simp_all [CallPhase.Holds]
  | orphanRead k =>
      simp only [serviceStep] at hstep
      split at hstep
      · obtain rfl := Option.some.inj hstep
        exact ⟨h.serve, h.exclusive, h.stripped, by simp⟩
      · contradiction
  | orphanWrite k ok =>
      simp only [serviceStep] at hstep
      split at hstep
      · obtain rfl := Option.some.inj hstep
        have hfree : s.lock = none := hsettled
        refine ⟨h.serve, h.exclusive, fun j => stripped_of_not_holds fun hholds => ?_, by simp⟩
        have hlock := h.exclusive j hholds
        rw [hfree] at hlock
        contradiction
      · contradiction
  | session event =>
      simp only [serviceStep] at hstep
      split at hstep
      · contradiction
      · next hswap =>
        obtain ⟨serve, hserve, rfl⟩ := Option.map_eq_some_iff.mp hstep
        have hswap : isSwap event = false := by simpa using hswap
        exact ⟨h.serve.step hserve, h.exclusive,
          fun j => stripped_of_session hswap hserve (h.stripped j), by simp⟩

end ServiceNode

/-- Nothing was returned yet. -/
theorem ServiceNode.inv_start (file : ConfigFile) : (ServiceNode.start file).Inv where
  serve := Admit.ServeState.inv_of_reachable ⟨_, [], rfl⟩
  exclusive _ h := h.elim
  stripped _ := trivial
  returned := nofun

end Invariant

/-- **A withdrawal that returned `Ok` is in force**, in a run whose steps all
meet the condition. -/
theorem withdrawals_in_force (file : ConfigFile) (events : List ServiceEvent) (s : ServiceNode)
    (hsettled : Guarded serviceStep ServiceNode.Settled (.start file) events)
    (hrun : run serviceStep (.start file) events = some s) (verb : ServiceVerb)
    (hreturned : s.returned = some verb) : s.InForce verb := by
  have hinv : s.Inv :=
    hsettled.invariant (fun _ _ _ hQ hI hstep => hI.step hQ hstep) (ServiceNode.inv_start file) hrun
  exact hinv.returned verb hreturned

namespace RevokedNotes

open Admit.ServeState (alicePhone notesInit)

/-- `notes` lists alice. -/
def file : ConfigFile where
  services := .table ((∅ : ServiceEntries).insert "notes" (.table
    { run := none, socket := some "/run/notes.sock", env := [], cwd := none
      allow := .array [some "b64u:ALICE"], rateLimitPerMin := none }))

/-- Her phone runs a session. -/
def session : List ServiceEvent :=
  [.session (.accept alicePhone.endpoint), .session (.openSession 0), .session (.snapshot 0),
    .session (.resolve 0 (some alicePhone)), .session (.select 0 notesInit),
    .session (.admitSession 0)]

def verb : ServiceVerb := .revokeServiceAllow "notes" "b64u:ALICE"

def revoke (i : Nat) : List ServiceEvent :=
  [.call i verb, .acquire i true none, .read i true, .write i true]

def revoked : List ServiceEvent :=
  session ++ revoke 0 ++ [.resume 0 (some 1), .sever 0 true fun _ => false]

/-- The client goes away once the file is written, and tries again. -/
def retried : List ServiceEvent :=
  session ++ revoke 0 ++ [.abort 0] ++ revoke 1 ++ [.resume 1 none, .confirm 1 true]

end RevokedNotes

open RevokedNotes in
theorem withdrawals_in_force_example :
    ∃ s, run serviceStep (.start file) revoked = some s ∧ s.returned = some verb ∧
      s.serve.closed 0 = true ∧ s.InForce verb := by
  have hend : (run serviceStep (.start file) revoked).any
      (fun s => s.returned == some verb && s.serve.sessions.any fun session =>
        session.conn == 0 && decide ("b64u:ALICE" ∈ session.admittedAs "notes")) = true := by
    decide +kernel
  obtain ⟨s, hrun, hs⟩ := (Option.any_eq_true ..).mp hend
  simp only [Bool.and_eq_true, beq_iff_eq, List.any_eq_true, decide_eq_true_eq] at hs
  obtain ⟨hreturned, session, hsession, hconn, hadmitted⟩ := hs
  have hsettled : Guarded serviceStep ServiceNode.Settled (.start file) revoked := by
    decide +kernel
  have hforce := withdrawals_in_force file revoked s hsettled hrun verb hreturned
  exact ⟨s, hrun, hreturned, hconn ▸ hforce.sessions session hsession hadmitted, hforce⟩

open RevokedNotes in
theorem retried_revoke_not_in_force :
    ∃ s, run serviceStep (.start file) retried = some s ∧ s.returned = some verb ∧
      s.serve.Grants "notes" "b64u:ALICE" ∧ s.serve.closed 0 = false ∧ ¬ s.InForce verb := by
  have hend : (run serviceStep (.start file) retried).any
      (fun s => s.returned == some verb && s.serve.allowNow "notes" == some ["b64u:ALICE"] &&
        !s.serve.closed 0) = true := by decide +kernel
  obtain ⟨s, hrun, hs⟩ := (Option.any_eq_true ..).mp hend
  simp only [Bool.and_eq_true, beq_iff_eq, Bool.not_eq_true'] at hs
  obtain ⟨⟨hreturned, hallow⟩, hopen⟩ := hs
  have hgrants : s.serve.Grants "notes" "b64u:ALICE" := ⟨_, hallow, List.mem_singleton_self _⟩
  exact ⟨s, hrun, hreturned, hgrants, hopen, fun hforce => hforce.live hgrants⟩

end Mcpmesh
