import Mcpmesh.Gate.Principals
import Mcpmesh.Lib.Counts
import Mcpmesh.Lib.Run
import Mcpmesh.Net.Service
import Mathlib.Data.Finset.Sort
import Mathlib.Data.String.Basic

/-!
# Mcpmesh.Net.Admit

Service authorization on open connections (`net/src/endpoint.rs`,
`net/src/registry.rs`): a session takes a snapshot of the live services,
resolves its principal, selects a service and is admitted under the registry
lock; a revoke swaps the services and then severs.

A tracked connection counts the principals of the sessions that run on it, and
that the counts are exact (`Inv.counts`) is what a sever finds a session by.
-/

namespace Mcpmesh.Admit

open Lib

/-! ## services and principals -/

/-- A service registry: the `allow` list of each service. -/
abbrev Services := AList fun _ : String => List String

/-- The principals a session is recorded under, in the order of the set. -/
def principalsOf (identity : PeerIdentity) : List String :=
  (principalSet (some (principal identity.endpoint)) identity.userId identity.groups).sort

/-- The services that admit a resolved caller. -/
def callerAllowed (services : Services) : Option PeerIdentity → List String
  | none => []
  | some identity => (services.entries.filter fun e => callerAdmits identity e.2).map (·.1)

/-- The principals of an identity are the entries that admit it. -/
theorem mem_principalsOf {identity : PeerIdentity} {entry : String} :
    entry ∈ principalsOf identity ↔ entryAdmits identity entry = true := by
  rw [principalsOf, Finset.mem_sort, entryAdmits, decide_eq_true_iff]

/-- A service allowed to a caller lists one of its principals. -/
theorem mem_callerAllowed {services : Services} {identity : PeerIdentity} {name : String}
    (h : name ∈ callerAllowed services (some identity)) :
    ∃ allow, services.lookup name = some allow ∧ callerAdmits identity allow = true := by
  obtain ⟨⟨name, allow⟩, hmem, rfl⟩ := List.mem_map.mp h
  obtain ⟨hmem, hadmits⟩ := List.mem_filter.mp hmem
  exact ⟨allow, AList.mem_lookup_iff.mpr hmem, hadmits⟩

/-- Of the caller's principals, `p` alone is on the list. -/
def OnlyBy (p : String) (identity : PeerIdentity) (allow : List String) : Prop :=
  ∀ entry ∈ allow, entryAdmits identity entry = true → entry = p

/-- A list that admits by one principal only names that principal. -/
theorem OnlyBy.mem {p : String} {identity : PeerIdentity} {allow : List String}
    (h : OnlyBy p identity allow) (hadmits : callerAdmits identity allow = true) :
    p ∈ allow ∧ p ∈ principalsOf identity := by
  obtain ⟨entry, hentry, hmatch⟩ := callerAdmits_iff.mp hadmits
  obtain rfl := h entry hentry hmatch
  exact ⟨hentry, mem_principalsOf.mpr hmatch⟩

/-! ## the system -/

/-- A registry entry, with the principals its sessions were admitted as. -/
structure TrackedConn where
  endpoint : EndpointId
  admitted : Counts String

/-- Where `run_session` is.  `allow` is the list of the live registry when the
session was admitted. -/
inductive SessionPhase where
  | opened
  | snapshotted (snapshot : Nat)
  | resolved (snapshot : Nat) (identity : Option PeerIdentity)
  | selected (snapshot : Nat) (service : String) (identity : PeerIdentity)
  | running (service : String) (identity : PeerIdentity) (allow : List String)
  | over

/-- A session on the connection that registered as `conn`. -/
structure Session where
  conn : Nat
  phase : SessionPhase

/-- The session is with its backend. -/
def Session.Runs (session : Session) : Prop :=
  ∃ service identity allow, session.phase = .running service identity allow

/-- The service registries by address, the live one's address, and the
connections by registration id. -/
structure ServeState where
  heap : Nat → Option Services
  live : Nat
  tracked : Nat → Option TrackedConn
  seq : Nat
  closed : Nat → Bool
  sessions : List Session

inductive Event where
  /-- A registry is built at a fresh address. -/
  | alloc (ptr : Nat) (services : Services)
  /-- `LiveServices::store`. -/
  | store (ptr : Nat)
  | accept (endpoint : EndpointId)
  /-- A connection closes on other grounds. -/
  | close (c : Nat)
  | deregister (c : Nat)
  | openSession (c : Nat)
  | snapshot (i : Nat)
  /-- `resolve_session_principal`, with the gate's answer. -/
  | resolve (i : Nat) (identity : Option PeerIdentity)
  | select (i : Nat) (init : Json)
  | admitSession (i : Nat)
  /-- The session ends, or its task is dropped. -/
  | finish (i : Nat)
  | sever (endpoints : EndpointId → Bool) (principals : String → Bool)

namespace ServeState

variable (s : ServeState)

/-- The live `allow` list of a service. -/
def allowNow (service : String) : Option (List String) :=
  (s.heap s.live).bind (·.lookup service)

/-- The live registry has the principal on the service's list. -/
def Grants (service p : String) : Prop := ∃ allow, s.allowNow service = some allow ∧ p ∈ allow

def stillAdmits (snapshot : Nat) (service : String) (identity : PeerIdentity) : Bool :=
  s.live = snapshot || (s.allowNow service).any (callerAdmits identity)

def setSession (i : Nat) (session : Session) : ServeState :=
  { s with sessions := s.sessions.set i session }

def setTracked (c : Nat) (t : TrackedConn) : ServeState :=
  { s with tracked := Function.update s.tracked c (some t) }

/-- `sever_matching_admitted`, of one entry. -/
def severs (endpoints : EndpointId → Bool) (principals : String → Bool) (c : Nat) : Bool :=
  (s.tracked c).any fun t => endpoints t.endpoint || t.admitted.keys.any principals

def step : Event → Option ServeState
  | .alloc ptr services =>
      match s.heap ptr with
      | some _ => none
      | none => some { s with heap := Function.update s.heap ptr (some services) }
  | .store ptr => if (s.heap ptr).isSome then some { s with live := ptr } else none
  | .accept endpoint =>
      some ({ s with seq := s.seq + 1 }.setTracked s.seq { endpoint, admitted := .empty })
  | .close c => some { s with closed := Function.update s.closed c true }
  | .deregister c =>
      if s.closed c then some { s with tracked := Function.update s.tracked c none } else none
  | .openSession c =>
      if (s.tracked c).isSome then some { s with sessions := s.sessions ++ [⟨c, .opened⟩] }
      else none
  | .snapshot i =>
      match s.sessions[i]? with
      | some ⟨c, .opened⟩ => some (s.setSession i ⟨c, .snapshotted s.live⟩)
      | _ => none
  | .resolve i identity =>
      match s.sessions[i]? with
      | some ⟨c, .snapshotted snapshot⟩ => some (s.setSession i ⟨c, .resolved snapshot identity⟩)
      | _ => none
  | .select i init =>
      match s.sessions[i]? with
      | some ⟨c, .resolved snapshot identity⟩ =>
          (s.heap snapshot).map fun services =>
            match (selectService init (callerAllowed services identity)).2, identity with
            | .selected service, some identity =>
                s.setSession i ⟨c, .selected snapshot service identity⟩
            | _, _ => s.setSession i ⟨c, .over⟩
      | _ => none
  | .admitSession i =>
      match s.sessions[i]? with
      | some ⟨c, .selected snapshot service identity⟩ =>
          match s.tracked c with
          | none => some (s.setSession i ⟨c, .over⟩)
          | some t =>
              if s.stillAdmits snapshot service identity then
                let t := { t with admitted := t.admitted.addAll (principalsOf identity) }
                let allow := (s.allowNow service).getD []
                some ((s.setTracked c t).setSession i ⟨c, .running service identity allow⟩)
              else some (s.setSession i ⟨c, .over⟩)
      | _ => none
  | .finish i =>
      match s.sessions[i]? with
      | some ⟨c, .running _ identity _⟩ =>
          match s.tracked c with
          | none => some (s.setSession i ⟨c, .over⟩)
          | some t =>
              let t := { t with admitted := t.admitted.dropAll (principalsOf identity) }
              some ((s.setTracked c t).setSession i ⟨c, .over⟩)
      | some ⟨c, _⟩ => some (s.setSession i ⟨c, .over⟩)
      | none => none
  | .sever endpoints principals =>
      some { s with closed := fun c => s.closed c || s.severs endpoints principals c }

/-- A node that serves `services`, nobody connected. -/
def init (services : Services) : ServeState :=
  { heap := fun ptr => if ptr = 0 then some services else none
    live := 0
    tracked := fun _ => none
    seq := 0
    closed := fun _ => false
    sessions := [] }

/-- A state of some interleaving of sessions, swaps and severs. -/
def Reachable (s : ServeState) : Prop := ∃ services events, run step (init services) events = some s

/-- The principals of a session that runs on the connection. -/
def held (c : Nat) (session : Session) : List String :=
  match session.phase with
  | .running _ identity _ => if session.conn = c then principalsOf identity else []
  | _ => []

/-! ### the invariant -/

/-- What a session was let through by. -/
def Justified (s : ServeState) (session : Session) : Prop :=
  match session.phase with
  | .selected snapshot service identity =>
      ∃ services allow, s.heap snapshot = some services ∧ services.lookup service = some allow ∧
        callerAdmits identity allow = true
  | .running _ identity allow => callerAdmits identity allow = true
  | _ => True

structure Inv (s : ServeState) : Prop where
  stored : ∃ services, s.heap s.live = some services
  fresh : ∀ c, s.seq ≤ c → s.tracked c = none
  justified : ∀ session ∈ s.sessions, s.Justified session
  /-- A session is on a connection that registered, and that is closed once it
  is no longer tracked. -/
  conns : ∀ session ∈ s.sessions, session.conn < s.seq ∧
    (s.tracked session.conn = none → s.closed session.conn = true)
  /-- The counts are those of the running sessions. -/
  counts : ∀ c t, s.tracked c = some t →
    ∀ p, t.admitted.count p = (s.sessions.flatMap (held c)).count p

/-- A step, by what it does to the sessions. -/
inductive Stepped (s : ServeState) : Event → ServeState → Prop where
  | alloc {ptr : Nat} {services : Services} (hfree : s.heap ptr = none) :
      Stepped s (.alloc ptr services) { s with heap := Function.update s.heap ptr (some services) }
  | store {ptr : Nat} (hsome : (s.heap ptr).isSome = true) :
      Stepped s (.store ptr) { s with live := ptr }
  | accept {endpoint : EndpointId} :
      Stepped s (.accept endpoint)
        ({ s with seq := s.seq + 1 }.setTracked s.seq { endpoint, admitted := .empty })
  | close {c : Nat} : Stepped s (.close c) { s with closed := Function.update s.closed c true }
  | deregister {c : Nat} (hclosed : s.closed c = true) :
      Stepped s (.deregister c) { s with tracked := Function.update s.tracked c none }
  | sever {endpoints : EndpointId → Bool} {principals : String → Bool} :
      Stepped s (.sever endpoints principals)
        { s with closed := fun c => s.closed c || s.severs endpoints principals c }
  | openSession {c : Nat} (hsome : (s.tracked c).isSome = true) :
      Stepped s (.openSession c) { s with sessions := s.sessions ++ [⟨c, .opened⟩] }
  | goOn {i : Nat} {e : Event} {session session' : Session} (hi : s.sessions[i]? = some session)
      (hconn : session'.conn = session.conn) (hjustified : s.Justified session')
      (hnot : ¬ session.Runs) (hnot' : ¬ session'.Runs) : Stepped s e (s.setSession i session')
  | admitted {i c snapshot : Nat} {service : String} {identity : PeerIdentity} {t : TrackedConn}
      (hi : s.sessions[i]? = some ⟨c, .selected snapshot service identity⟩)
      (ht : s.tracked c = some t) (hstill : s.stillAdmits snapshot service identity = true) :
      Stepped s (.admitSession i)
        ((s.setTracked c
          { t with admitted := t.admitted.addAll (principalsOf identity) }).setSession i
            ⟨c, .running service identity ((s.allowNow service).getD [])⟩)
  | ended {i c : Nat} {service : String} {identity : PeerIdentity} {allow : List String}
      (hi : s.sessions[i]? = some ⟨c, .running service identity allow⟩)
      (hnone : s.tracked c = none) : Stepped s (.finish i) (s.setSession i ⟨c, .over⟩)
  | finished {i c : Nat} {service : String} {identity : PeerIdentity} {allow : List String}
      {t : TrackedConn} (hi : s.sessions[i]? = some ⟨c, .running service identity allow⟩)
      (ht : s.tracked c = some t) :
      Stepped s (.finish i)
        ((s.setTracked c
          { t with admitted := t.admitted.dropAll (principalsOf identity) }).setSession i
            ⟨c, .over⟩)

section Steps

variable {s} {s' : ServeState} {i c : Nat} {session : Session}

/-- A phase that is not the running one is none that runs. -/
theorem not_runs {phase : SessionPhase}
    (h : ∀ service identity allow, phase ≠ .running service identity allow) :
    ¬ Session.Runs ⟨c, phase⟩ :=
  fun ⟨service, identity, allow, hphase⟩ => h service identity allow hphase

/-- Each step is one of the listed ones. -/
theorem stepped_of_step {e : Event} (h : ServeState.step s e = some s') : Stepped s e s' := by
  cases e with
  | alloc ptr services =>
      rw [ServeState.step] at h
      split at h
      · contradiction
      · rename_i hfree
        rw [← Option.some.inj h]
        exact .alloc hfree
  | store ptr =>
      rw [ServeState.step] at h
      split at h
      · rename_i hsome
        rw [← Option.some.inj h]
        exact .store hsome
      · contradiction
  | accept endpoint =>
      rw [← Option.some.inj h]
      exact .accept
  | close c =>
      rw [← Option.some.inj h]
      exact .close
  | deregister c =>
      rw [ServeState.step] at h
      split at h
      · rename_i hclosed
        rw [← Option.some.inj h]
        exact .deregister hclosed
      · contradiction
  | sever endpoints principals =>
      rw [← Option.some.inj h]
      exact .sever
  | openSession c =>
      rw [ServeState.step] at h
      split at h
      · rename_i hsome
        rw [← Option.some.inj h]
        exact .openSession hsome
      · contradiction
  | snapshot i =>
      rw [ServeState.step] at h
      split at h
      · rename_i c hi
        rw [← Option.some.inj h]
        exact .goOn hi rfl trivial (not_runs (by simp)) (not_runs (by simp))
      · contradiction
  | resolve i identity =>
      rw [ServeState.step] at h
      split at h
      · rename_i c snapshot hi
        rw [← Option.some.inj h]
        exact .goOn hi rfl trivial (not_runs (by simp)) (not_runs (by simp))
      · contradiction
  | select i init =>
      rw [ServeState.step] at h
      split at h
      · rename_i c snapshot identity hi
        obtain ⟨services, hsnap, rfl⟩ := Option.map_eq_some_iff.mp h
        split
        · rename_i service identity hselected
          obtain ⟨allow, hallow, hadmits⟩ := mem_callerAllowed (mem_of_selected hselected)
          exact .goOn hi rfl ⟨services, allow, hsnap, hallow, hadmits⟩ (not_runs (by simp))
            (not_runs (by simp))
        · exact .goOn hi rfl trivial (not_runs (by simp)) (not_runs (by simp))
      · contradiction
  | admitSession i =>
      rw [ServeState.step] at h
      split at h
      · rename_i c snapshot service identity hi
        split at h
        · rw [← Option.some.inj h]
          exact .goOn hi rfl trivial (not_runs (by simp)) (not_runs (by simp))
        · rename_i t ht
          split at h
          · rename_i hstill
            rw [← Option.some.inj h]
            exact .admitted hi ht hstill
          · rw [← Option.some.inj h]
            exact .goOn hi rfl trivial (not_runs (by simp)) (not_runs (by simp))
      · contradiction
  | finish i =>
      rw [ServeState.step] at h
      split at h
      · rename_i c service identity allow hi
        split at h
        · rename_i hnone
          rw [← Option.some.inj h]
          exact .ended hi hnone
        · rename_i t ht
          rw [← Option.some.inj h]
          exact .finished hi ht
      · rename_i c phase hnot hi
        rw [← Option.some.inj h]
        exact .goOn hi rfl trivial (not_runs hnot) (not_runs (by simp))
      · contradiction

@[simp] theorem tracked_setTracked {t : TrackedConn} {c' : Nat} :
    (s.setTracked c t).tracked c' = if c' = c then some t else s.tracked c' :=
  Function.update_apply s.tracked c (some t) c'

/-- A closed connection stays closed. -/
theorem closed_of_step {e : Event} (hstep : ServeState.step s e = some s')
    (hclosed : s.closed c = true) : s'.closed c = true := by
  cases stepped_of_step hstep with
  | close =>
      dsimp only
      rw [Function.update_apply, hclosed, ite_self]
  | sever =>
      dsimp only
      rw [hclosed, Bool.true_or]
  | alloc | store | accept | deregister | openSession | goOn | admitted | ended | finished =>
      exact hclosed

/-- A session stays justified while no registry is lost. -/
theorem Justified.of_heap (h : s.Justified session)
    (hheap : ∀ ptr services, s.heap ptr = some services → s'.heap ptr = some services) :
    s'.Justified session := by
  unfold Justified at h ⊢
  split
  · rename_i hphase
    rw [hphase] at h
    obtain ⟨services, allow, hsnap, hallow⟩ := h
    exact ⟨services, allow, hheap _ _ hsnap, hallow⟩
  · rename_i hphase
    rw [hphase] at h
    exact h
  · trivial

/-- A step that runs no session. -/
theorem Inv.of_sessions (h : s.Inv) (hsessions : s'.sessions = s.sessions)
    (hheap : ∀ ptr services, s.heap ptr = some services → s'.heap ptr = some services)
    (hlive : ∃ services, s'.heap s'.live = some services) (hseq : s.seq ≤ s'.seq)
    (hfresh : ∀ c, s'.seq ≤ c → s'.tracked c = none)
    (hclosed : ∀ c, s.closed c = true → s'.closed c = true)
    (htracked : ∀ c, c < s.seq → s'.tracked c = s.tracked c ∨
      s'.tracked c = none ∧ s'.closed c = true)
    (hnew : ∀ c t, s.seq ≤ c → s'.tracked c = some t → s.tracked c = some t ∨
      t.admitted = .empty) : s'.Inv where
  stored := hlive
  fresh := hfresh
  justified session hsession :=
    (h.justified session (hsessions ▸ hsession)).of_heap hheap
  conns session hsession := by
    obtain ⟨hlt, hgone⟩ := h.conns session (hsessions ▸ hsession)
    refine ⟨Nat.lt_of_lt_of_le hlt hseq, fun hnone => ?_⟩
    obtain heq | ⟨-, hcl⟩ := htracked _ hlt
    · exact hclosed _ (hgone (heq ▸ hnone))
    · exact hcl
  counts c t ht p := by
    rw [hsessions]
    by_cases hlt : c < s.seq
    · obtain heq | ⟨hnone, -⟩ := htracked c hlt
      · exact h.counts c t (heq ▸ ht) p
      · rw [hnone] at ht
        contradiction
    · obtain hold | hempty := hnew c t (Nat.le_of_not_lt hlt) ht
      · exact h.counts c t hold p
      · -- no session is on a connection that registers only now
        rw [hempty, Counts.count_empty, eq_comm, List.count_eq_zero]
        intro hmem
        obtain ⟨session, hsession, hheld⟩ := List.mem_flatMap.mp hmem
        have hother : session.conn ≠ c := fun heq => hlt (heq ▸ (h.conns session hsession).1)
        unfold held at hheld
        split at hheld
        · rw [if_neg hother] at hheld
          exact List.not_mem_nil hheld
        · exact List.not_mem_nil hheld

/-- A step of one session, with the counts of the connections that change. -/
theorem Inv.set (h : s.Inv) (hi : s.sessions[i]? = some session) (session' : Session)
    (hconn : session'.conn = session.conn) (hjustified : s.Justified session')
    (hsessions : s'.sessions = s.sessions.set i session')
    (hsame : s'.heap = s.heap ∧ s'.live = s.live ∧ s'.seq = s.seq ∧ s'.closed = s.closed)
    (hgone : ∀ c, s'.tracked c = none → s.tracked c = none)
    (hcounts : ∀ c t', s'.tracked c = some t' → ∃ t, s.tracked c = some t ∧ ∀ p,
      t'.admitted.count p + (held c session).count p =
        t.admitted.count p + (held c session').count p) : s'.Inv := by
  obtain ⟨hheap, hlive, hseq, hclosed⟩ := hsame
  have hmem : ∀ x ∈ s'.sessions, x ∈ s.sessions ∨ x = session' := fun x hx =>
    List.mem_or_eq_of_mem_set (hsessions ▸ hx)
  have hkeep : ∀ ptr services, s.heap ptr = some services → s'.heap ptr = some services :=
    fun ptr services hptr => hheap ▸ hptr
  have hconns := h.conns session (List.mem_of_getElem? hi)
  constructor
  case stored =>
    rw [hheap, hlive]
    exact h.stored
  case fresh =>
    intro c hc
    cases ht' : s'.tracked c with
    | none => rfl
    | some t' =>
        obtain ⟨t, ht, -⟩ := hcounts c t' ht'
        rw [h.fresh c (hseq ▸ hc)] at ht
        contradiction
  case justified =>
    intro x hx
    obtain hx | rfl := hmem x hx
    · exact (h.justified x hx).of_heap hkeep
    · exact hjustified.of_heap hkeep
  case conns =>
    intro x hx
    rw [hseq, hclosed]
    obtain hx | rfl := hmem x hx
    · exact ⟨(h.conns x hx).1, fun hnone => (h.conns x hx).2 (hgone _ hnone)⟩
    · rw [hconn]
      exact ⟨hconns.1, fun hnone => hconns.2 (hgone _ hnone)⟩
  case counts =>
    intro c t' ht' p
    obtain ⟨t, ht, hcount⟩ := hcounts c t' ht'
    have hset := count_flatMap_set (f := held c) hi session' p
    have hold := h.counts c t ht p
    have hnew := hcount p
    rw [hsessions]
    omega

/-- A session that does not run holds nothing. -/
theorem held_of_not_runs (h : ¬ session.Runs) : held c session = [] := by
  unfold held
  split
  · rename_i service identity allow hphase
    exact absurd ⟨service, identity, allow, hphase⟩ h
  · rfl

/-- A session goes on without having run, and does not run now. -/
theorem Inv.goOn (h : s.Inv) (hi : s.sessions[i]? = some session) (session' : Session)
    (hconn : session'.conn = session.conn) (hjustified : s.Justified session')
    (hnot : ¬ session.Runs) (hnot' : ¬ session'.Runs) : (s.setSession i session').Inv := by
  refine h.set hi session' hconn hjustified rfl ⟨rfl, rfl, rfl, rfl⟩ (fun c hnone => hnone)
    fun c t ht => ⟨t, ht, fun p => ?_⟩
  rw [held_of_not_runs hnot, held_of_not_runs hnot']

/-- A session that opens holds nothing yet. -/
theorem Inv.openSession (h : s.Inv) (hsome : (s.tracked c).isSome = true) :
    ({ s with sessions := s.sessions ++ [⟨c, .opened⟩] } : ServeState).Inv where
  stored := h.stored
  fresh := h.fresh
  justified x hx := by
    obtain hx | hx := List.mem_append.mp hx
    · exact h.justified x hx
    · rw [List.mem_singleton.mp hx]
      trivial
  conns x hx := by
    obtain hx | hx := List.mem_append.mp hx
    · exact h.conns x hx
    · rw [List.mem_singleton.mp hx]
      refine ⟨Nat.lt_of_not_le fun hle => ?_, fun hnone => ?_⟩
      · rw [h.fresh c hle] at hsome
        contradiction
      · rw [show s.tracked c = none from hnone] at hsome
        contradiction
  counts a t ht p := by
    rw [List.flatMap_append, List.count_append]
    exact h.counts a t ht p

/-- What the recheck lets through is on the live list. -/
theorem allowNow_of_stillAdmits {snapshot : Nat} {service : String} {identity : PeerIdentity}
    (hjustified : s.Justified ⟨c, .selected snapshot service identity⟩)
    (hstill : s.stillAdmits snapshot service identity = true) :
    ∃ allow, s.allowNow service = some allow ∧ callerAdmits identity allow = true := by
  obtain hsame | hnow := Bool.or_eq_true_iff.mp hstill
  · obtain ⟨services, allow, hsnap, hallow, hadmits⟩ := hjustified
    have hlive : s.live = snapshot := of_decide_eq_true hsame
    exact ⟨allow, by rw [allowNow, hlive, hsnap, Option.bind_some, hallow], hadmits⟩
  · exact (Option.any_eq_true _ _).mp hnow

theorem none_of_setTracked {t : TrackedConn} {a : Nat}
    (h : (s.setTracked c t).tracked a = none) : s.tracked a = none := by
  rw [tracked_setTracked] at h
  split at h
  · contradiction
  · exact h

/-- The counts of a connection are those of the sessions on it. -/
theorem counts_of_setTracked {session' : Session} {t t₁ t' : TrackedConn} {a : Nat}
    (ht : s.tracked c = some t) (ht' : (s.setTracked c t₁).tracked a = some t')
    (hself : ∀ p, t₁.admitted.count p + (held c session).count p =
      t.admitted.count p + (held c session').count p)
    (hother : a ≠ c → held a session = held a session') :
    ∃ t, s.tracked a = some t ∧ ∀ p,
      t'.admitted.count p + (held a session).count p =
        t.admitted.count p + (held a session').count p := by
  rw [tracked_setTracked] at ht'
  split at ht'
  · rename_i heq
    subst heq
    obtain rfl := Option.some.inj ht'
    exact ⟨t, ht, hself⟩
  · rename_i hne
    exact ⟨t', ht', fun p => by rw [hother hne]⟩

/-- A running session's principals are among those of its connection. -/
theorem le_count_of_running (h : s.Inv) (hi : s.sessions[i]? = some session) {t : TrackedConn}
    (ht : s.tracked c = some t) (p : String) :
    (held c session).count p ≤ t.admitted.count p := by
  have hset := count_flatMap_set (f := held c) hi ⟨c, .over⟩ p
  rw [h.counts c t ht p]
  have hover : (held c ⟨c, .over⟩).count p = 0 := rfl
  omega

/-- A session that the recheck lets through is counted from here on. -/
theorem Inv.admitted (h : s.Inv) {snapshot : Nat} {service : String} {identity : PeerIdentity}
    {t : TrackedConn} (hi : s.sessions[i]? = some ⟨c, .selected snapshot service identity⟩)
    (ht : s.tracked c = some t) (hstill : s.stillAdmits snapshot service identity = true) :
    ((s.setTracked c { t with admitted := t.admitted.addAll (principalsOf identity) }).setSession i
      ⟨c, .running service identity ((s.allowNow service).getD [])⟩).Inv := by
  obtain ⟨allow, hallow, hadmits⟩ :=
    allowNow_of_stillAdmits (h.justified _ (List.mem_of_getElem? hi)) hstill
  refine h.set hi ⟨c, .running service identity ((s.allowNow service).getD [])⟩ rfl ?_ rfl
    ⟨rfl, rfl, rfl, rfl⟩ (fun a hnone => none_of_setTracked hnone) fun a t' ht' => ?_
  · rw [hallow]
    exact hadmits
  · refine counts_of_setTracked ht ht' (fun p => ?_) fun hne => ?_
    · rw [Counts.count_addAll]
      simp [held]
    · simp [held, Ne.symm hne]

/-- A session that ran takes its own principals off the counts. -/
theorem Inv.finished (h : s.Inv) {service : String} {identity : PeerIdentity} {allow : List String}
    {t : TrackedConn} (hi : s.sessions[i]? = some ⟨c, .running service identity allow⟩)
    (ht : s.tracked c = some t) :
    ((s.setTracked c { t with admitted := t.admitted.dropAll (principalsOf identity) }).setSession i
      ⟨c, .over⟩).Inv := by
  refine h.set hi ⟨c, .over⟩ rfl trivial rfl
    ⟨rfl, rfl, rfl, rfl⟩ (fun a hnone => none_of_setTracked hnone) fun a t' ht' => ?_
  refine counts_of_setTracked ht ht' (fun p => ?_) fun hne => ?_
  · have hheld : held c ⟨c, .running service identity allow⟩ = principalsOf identity := if_pos rfl
    have hover : held c ⟨c, .over⟩ = [] := rfl
    have hle := le_count_of_running h hi ht p
    rw [hheld] at hle
    rw [hheld, hover, Counts.count_dropAll, List.count_nil]
    omega
  · simp [held, Ne.symm hne]

/-- A step keeps the invariant. -/
theorem Inv.step {e : Event} (h : s.Inv) (hstep : step s e = some s') : s'.Inv := by
  cases stepped_of_step hstep with
  | @alloc ptr services hfree =>
      have hkeep : ∀ a services', s.heap a = some services' →
          Function.update s.heap ptr (some services) a = some services' := by
        intro a services' ha
        have hne : a ≠ ptr := by
          rintro rfl
          rw [hfree] at ha
          contradiction
        rw [Function.update_of_ne hne, ha]
      obtain ⟨services', hlive⟩ := h.stored
      exact h.of_sessions rfl hkeep ⟨services', hkeep _ _ hlive⟩ (Nat.le_refl _) h.fresh
        (fun _ hc => hc) (fun _ _ => .inl rfl) fun _ _ _ ht => .inl ht
  | store hsome =>
      exact h.of_sessions rfl (fun _ _ ha => ha) (Option.isSome_iff_exists.mp hsome)
        (Nat.le_refl _) h.fresh (fun _ hc => hc) (fun _ _ => .inl rfl) fun _ _ _ ht => .inl ht
  | accept =>
      refine h.of_sessions rfl (fun _ _ ha => ha) h.stored (Nat.le_succ _) (fun c hc => ?_)
        (fun _ hc => hc) (fun c hc => .inl ?_) fun c t hc ht => ?_
      · rw [tracked_setTracked, if_neg (Nat.ne_of_gt (Nat.lt_of_succ_le hc))]
        exact h.fresh c (Nat.le_of_succ_le hc)
      · rw [tracked_setTracked, if_neg (Nat.ne_of_lt hc)]
      · rw [tracked_setTracked] at ht
        split at ht
        · exact .inr (Option.some.inj ht ▸ rfl)
        · exact .inl ht
  | close | sever =>
      exact h.of_sessions rfl (fun _ _ ha => ha) h.stored (Nat.le_refl _) h.fresh
        (fun _ hc => closed_of_step hstep hc) (fun _ _ => .inl rfl) fun _ _ _ ht => .inl ht
  | @deregister c hclosed =>
      refine h.of_sessions rfl (fun _ _ ha => ha) h.stored (Nat.le_refl _) (fun a ha => ?_)
        (fun _ hc => hc) (fun a _ => ?_) fun a t _ ht => ?_
      · dsimp only
        rw [Function.update_apply, h.fresh a ha, ite_self]
      · dsimp only
        rw [Function.update_apply]
        split
        · rename_i heq
          exact .inr ⟨rfl, heq ▸ hclosed⟩
        · exact .inl rfl
      · dsimp only at ht
        rw [Function.update_apply] at ht
        split at ht
        · contradiction
        · exact .inl ht
  | openSession hsome => exact h.openSession hsome
  | goOn hi hconn hjustified hnot hnot' => exact h.goOn hi _ hconn hjustified hnot hnot'
  | admitted hi ht hstill => exact h.admitted hi ht hstill
  | @ended i c service identity allow hi hnone =>
      refine h.set hi ⟨c, .over⟩ rfl trivial rfl ⟨rfl, rfl, rfl, rfl⟩ (fun a ha => ha)
        fun a t ht => ⟨t, ht, fun p => ?_⟩
      have hne : c ≠ a := by
        rintro rfl
        have hsome : s.tracked c = some t := ht
        rw [hnone] at hsome
        contradiction
      simp [held, hne]
  | finished hi ht => exact h.finished hi ht

/-- Every reachable state has the invariant. -/
theorem inv_of_reachable (h : Reachable s) : s.Inv := by
  obtain ⟨services, events, hrun⟩ := h
  refine run_invariant (I := Inv) (fun s e s' hs hstep => hs.step hstep) ⟨⟨services, rfl⟩,
    fun _ _ => rfl, fun x hx => absurd hx List.not_mem_nil, fun x hx => absurd hx List.not_mem_nil,
    fun c t ht => by contradiction⟩ hrun

/-! ### a revoke -/

/-- A session that runs after a step ran before it, or was admitted by the live
list just now. -/
theorem running_of_step {e : Event} (h : s.Inv) (hstep : ServeState.step s e = some s')
    (hsession : session ∈ s'.sessions) {service : String} {identity : PeerIdentity}
    {allow : List String} (hphase : session.phase = .running service identity allow) :
    session ∈ s.sessions ∨
      s.allowNow service = some allow ∧ callerAdmits identity allow = true := by
  have hover : ∀ c, session ≠ ⟨c, .over⟩ := by
    rintro c rfl
    contradiction
  cases stepped_of_step hstep with
  | alloc | store | accept | close | deregister | sever => exact .inl hsession
  | openSession =>
      obtain hmem | hmem := List.mem_append.mp hsession
      · exact .inl hmem
      · rw [List.mem_singleton.mp hmem] at hphase
        contradiction
  | goOn hi hconn hjustified hnot hnot' =>
      obtain hmem | rfl := List.mem_or_eq_of_mem_set hsession
      · exact .inl hmem
      · exact absurd ⟨service, identity, allow, hphase⟩ hnot'
  | admitted hi ht hstill =>
      obtain hmem | rfl := List.mem_or_eq_of_mem_set hsession
      · exact .inl hmem
      · obtain ⟨rfl, rfl, rfl⟩ := SessionPhase.running.inj hphase
        obtain ⟨allow, hallow, hadmits⟩ :=
          allowNow_of_stillAdmits (h.justified _ (List.mem_of_getElem? hi)) hstill
        rw [hallow]
        exact .inr ⟨rfl, hadmits⟩
  | ended | finished =>
      exact .inl ((List.mem_or_eq_of_mem_set hsession).resolve_right (hover _))

/-- No session that only `p` let through runs on an open connection. -/
def CutOff (service p : String) (s : ServeState) : Prop :=
  ∀ session ∈ s.sessions, ∀ identity allow, session.phase = .running service identity allow →
    s.closed session.conn = false → ¬ OnlyBy p identity allow

/-- The principals of a session that runs on a tracked connection are found on
its entry. -/
theorem mem_keys_of_running (h : s.Inv) (hsession : session ∈ s.sessions) {service p : String}
    {identity : PeerIdentity} {allow : List String}
    (hphase : session.phase = .running service identity allow) (hp : p ∈ principalsOf identity)
    {t : TrackedConn} (ht : s.tracked session.conn = some t) : p ∈ t.admitted.keys := by
  obtain ⟨i, hi⟩ := List.mem_iff_getElem?.mp hsession
  have hheld : held session.conn session = principalsOf identity := by
    rw [held, hphase]
    exact if_pos rfl
  have hle := le_count_of_running h hi ht p
  rw [hheld] at hle
  exact Counts.mem_keys.mpr (Nat.lt_of_lt_of_le (List.count_pos_iff.mpr hp) hle)

/-- A sever on a principal closes the connections of the sessions that hold it. -/
theorem closed_of_sever (h : s.Inv) {endpoints : EndpointId → Bool} {principals : String → Bool}
    {service p : String} (hp : principals p = true)
    (hstep : ServeState.step s (.sever endpoints principals) = some s')
    (hsession : session ∈ s'.sessions) {identity : PeerIdentity} {allow : List String}
    (hphase : session.phase = .running service identity allow)
    (hmem : p ∈ principalsOf identity) : s'.closed session.conn = true := by
  rw [← Bool.not_eq_false]
  intro hopen
  rw [← Option.some.inj hstep] at hsession hopen
  obtain ⟨hopen, hspared⟩ := Bool.or_eq_false_iff.mp hopen
  cases ht : s.tracked session.conn with
  | none => exact absurd ((h.conns session hsession).2 ht) (by rw [hopen]; decide)
  | some t =>
      have hkey := mem_keys_of_running h hsession hphase hmem ht
      rw [severs, ht] at hspared
      have hnone := (Bool.or_eq_false_iff.mp hspared).2
      exact absurd hp (by simpa using List.any_eq_false.mp hnone p hkey)

/-- A sever on a principal cuts off its sessions. -/
theorem cutOff_of_sever (h : s.Inv) {endpoints : EndpointId → Bool} {principals : String → Bool}
    {service p : String} (hp : principals p = true)
    (hstep : ServeState.step s (.sever endpoints principals) = some s') :
    s'.CutOff service p := by
  intro session hsession identity allow hphase hopen honly
  have hjustified := (h.step hstep).justified session hsession
  rw [Justified, hphase] at hjustified
  have hclosed := closed_of_sever h hp hstep hsession hphase (honly.mem hjustified).2
  rw [hopen] at hclosed
  contradiction

/-- Where the live registry does not grant `p`, no session comes to run by `p`
alone. -/
theorem CutOff.step {e : Event} {service p : String} (hcut : s.CutOff service p) (h : s.Inv)
    (hno : ¬ s.Grants service p) (hstep : ServeState.step s e = some s') :
    s'.CutOff service p := by
  intro session hsession identity allow hphase hopen honly
  have hwas : s.closed session.conn = false := by
    rw [← Bool.not_eq_true]
    intro hclosed
    rw [closed_of_step hstep hclosed] at hopen
    contradiction
  obtain hold | ⟨hallow, hadmits⟩ := running_of_step h hstep hsession hphase
  · exact hcut session hold identity allow hphase hwas honly
  · exact hno ⟨allow, hallow, (honly.mem hadmits).1⟩

/-- What a session holds is a principal that let it in. -/
theorem mem_held {p : String} (h : p ∈ held c session) : session.conn = c ∧
    ∃ service identity allow, session.phase = .running service identity allow ∧
      p ∈ principalsOf identity := by
  unfold held at h
  split at h
  · rename_i service identity allow hphase
    split at h
    · rename_i heq
      exact ⟨heq, service, identity, allow, hphase, h⟩
    · contradiction
  · contradiction

/-- What a sever finds an entry by. -/
theorem grounds_of_severs (h : s.Inv) {endpoints : EndpointId → Bool} {principals : String → Bool}
    (hsevers : s.severs endpoints principals c = true) : ∃ t, s.tracked c = some t ∧
      (endpoints t.endpoint = true ∨ ∃ session ∈ s.sessions, session.conn = c ∧
        ∃ service identity allow, session.phase = .running service identity allow ∧
          ∃ p ∈ principalsOf identity, principals p = true) := by
  obtain ⟨t, ht, hmatch⟩ := (Option.any_eq_true _ _).mp hsevers
  refine ⟨t, ht, (Bool.or_eq_true_iff.mp hmatch).imp_right fun hany => ?_⟩
  obtain ⟨p, hkey, hp⟩ := List.any_eq_true.mp hany
  rw [Counts.mem_keys, h.counts c t ht p, List.count_pos_iff] at hkey
  obtain ⟨session, hsession, hheld⟩ := List.mem_flatMap.mp hkey
  obtain ⟨hconn, service, identity, allow, hphase, hmem⟩ := mem_held hheld
  exact ⟨session, hsession, hconn, service, identity, allow, hphase, p, hmem, hp⟩

end Steps

/-- A revoke of `p` from a service swaps the registry and then severs on `p`:
from the end of the sever until a swap grants `p` again, no session that `p`
alone let through runs on an open connection.  The counts of a tracked
connection are those of the sessions that run on it, and a connection that a
sever closes is of an endpoint it was given or runs a session that holds a
principal it was given. -/
theorem service_revoke_complete :
    (∀ (s₁ s₂ s : ServeState) (endpoints : EndpointId → Bool) (principals : String → Bool)
      (events : List Event) (service p : String), Reachable s₁ → principals p = true →
        s₁.step (.sever endpoints principals) = some s₂ →
          Along step (fun s => ¬ s.Grants service p) s₂ events → run step s₂ events = some s →
            s.CutOff service p) ∧
    (∀ (s : ServeState) (c : Nat) (t : TrackedConn) (p : String), Reachable s →
      s.tracked c = some t → t.admitted.count p = (s.sessions.flatMap (held c)).count p) ∧
    ∀ (s s' : ServeState) (c : Nat) (endpoints : EndpointId → Bool) (principals : String → Bool),
      Reachable s → s.step (.sever endpoints principals) = some s' → s.closed c = false →
        s'.closed c = true → ∃ t, s.tracked c = some t ∧
          (endpoints t.endpoint = true ∨ ∃ session ∈ s.sessions, session.conn = c ∧
            ∃ service identity allow, session.phase = .running service identity allow ∧
              ∃ p ∈ principalsOf identity, principals p = true) := by
  refine ⟨fun s₁ s₂ s endpoints principals events service p hs₁ hp hsever halong hrun => ?_,
    fun s c t p hs ht => (inv_of_reachable hs).counts c t ht p,
    fun s s' c endpoints principals hs hsever hopen hclosed => ?_⟩
  · have hinv := inv_of_reachable hs₁
    -- the invariant and the cut go on together
    refine (halong.invariant (I := fun s => s.Inv ∧ s.CutOff service p) ?_
      ⟨hinv.step hsever, cutOff_of_sever hinv hp hsever⟩ hrun).2
    intro s e s' hno _ ⟨hinv, hcut⟩ hstep
    exact ⟨hinv.step hstep, hcut.step hinv hno hstep⟩
  · rw [← Option.some.inj hsever] at hclosed
    dsimp only at hclosed
    rw [hopen, Bool.false_or] at hclosed
    exact grounds_of_severs (inv_of_reachable hs) hclosed

/-! ### Alice's phone -/

def alicePhone : PeerIdentity := ⟨.replicate 32 7, "alice", some "b64u:ALICE", []⟩

def onlyAlice : Services := (∅ : Services).insert "notes" ["b64u:ALICE"]

def noOne : Services := (∅ : Services).insert "notes" []

def notesInit : Json :=
  .obj [("params", .obj [("_meta", .obj [("mcpmesh/service", .str "notes")])])]

/-- She runs a session when the registry without her is stored. -/
def aliceRuns : List Event :=
  [.accept alicePhone.endpoint, .openSession 0, .snapshot 0, .resolve 0 (some alicePhone),
    .select 0 notesInit, .admitSession 0, .alloc 1 noOne, .store 1]

theorem aliceRuns_runs : (run step (init onlyAlice) aliceRuns).map
    (fun s => (s.sessions, s.allowNow "notes")) =
      some ([⟨0, .running "notes" alicePhone ["b64u:ALICE"]⟩], some []) := rfl

/-- The sever on her principal alone closes her connection. -/
theorem alice_cut_off : ∃ s₁ s₂, run step (init onlyAlice) aliceRuns = some s₁ ∧
    s₁.step (.sever (fun _ => false) (· = "b64u:ALICE")) = some s₂ ∧ s₂.closed 0 = true := by
  obtain ⟨s₁, hrun, heq⟩ := Option.map_eq_some_iff.mp aliceRuns_runs
  obtain ⟨hsessions, hallow⟩ := Prod.mk.inj heq
  have hmem : ⟨0, .running "notes" alicePhone ["b64u:ALICE"]⟩ ∈ s₁.sessions :=
    hsessions ▸ List.mem_singleton_self _
  refine ⟨s₁, _, hrun, rfl, ?_⟩
  rw [← Bool.not_eq_false]
  intro hopen
  refine service_revoke_complete.1 s₁ _ _ (fun _ => false) (· = "b64u:ALICE") [] "notes"
    "b64u:ALICE" ⟨_, _, hrun⟩ (by decide) rfl ?_ rfl _ hmem alicePhone ["b64u:ALICE"] rfl hopen
    fun entry hentry _ => List.mem_singleton.mp hentry
  rintro ⟨allow, hsome, hmem⟩
  obtain rfl := Option.some.inj (hallow.symm.trans hsome)
  exact List.not_mem_nil hmem

/-- A sever by endpoint closes a connection that no session runs on. -/
theorem sever_closes_idle : ∃ s s' : ServeState, Reachable s ∧
    s.step (.sever (· = alicePhone.endpoint) (· = "b64u:ALICE")) = some s' ∧ s.sessions = [] ∧
      s.closed 0 = false ∧ s'.closed 0 = true :=
  ⟨_, _, ⟨onlyAlice, [.accept alicePhone.endpoint], rfl⟩, rfl, rfl, rfl, by decide⟩

end ServeState

end Mcpmesh.Admit
