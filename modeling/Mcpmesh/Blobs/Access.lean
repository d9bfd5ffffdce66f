import Mcpmesh.Blobs.ScopeStore
import Mcpmesh.Gate.Principals
import Mcpmesh.Lib.LastWord

/-!
# Mcpmesh.Blobs.Access

Who may fetch a blob (`AppBlobs`, `get_admission` and the GET arm of the gate
loop, `node/src/blobs/provider.rs`).

Publications, republications and unpublications take the `hash_membership` lock
and run in steps under it; grants and revocations are single steps that take no
such lock; a GET is decided by the table as it is.  All of them interleave.

The log of the acts that took effect decides every request: a hash is listed
where the last act on it published it, a principal is granted where the last act
on it granted it.
-/

namespace Mcpmesh

open Lib

/-! ## the calls under the lock -/

/-- Where a call is: called and waiting for the lock, or at a step under it. -/
inductive BlobTask where
  | idle
  /-- `publish_scope`: the file is imported -/
  | publishImported (scope hash : String)
  | publishLocked (scope hash : String)
  | republishCalled (scope hashHex : String)
  | republishLocked (scope hashHex : String)
  /-- the scope is there, the hash parsed and pinned -/
  | republishPinned (scope hash : String)
  /-- the store holds the whole blob -/
  | republishHeld (scope hash : String)
  /-- not withdrawn -/
  | republishChecked (scope hash : String)
  /-- the lock is released, the ticket waits for the relay -/
  | republishMinting (hash : String)
  | unpublishCalled (scope hash : String)
  | unpublishLocked (scope hash : String)

/-- Under the lock. -/
def BlobTask.locked : BlobTask → Bool
  | .publishLocked .. | .republishLocked .. | .republishPinned .. | .republishHeld ..
  | .republishChecked .. | .unpublishLocked .. => true
  | .idle | .publishImported .. | .republishCalled .. | .republishMinting ..
  | .unpublishCalled .. => false

/-- An act that took effect; an unpublication says whether its scope was there. -/
inductive BlobAct where
  | publish (scope hash : String)
  | republish (scope hash : String)
  | unpublish (scope hash : String) (found : Bool)
  | grant (scope principal : String)
  | revokeFromScope (scope : String) (principals : List String)
  | revokePrincipals (principals : List String)
  deriving DecidableEq

/-- The provider: its scopes, the `hash_membership` lock and who holds it, the
calls, the connections of the gate loop.  `acts` is a ghost: the acts so far. -/
structure AppBlobs where
  scopes : ScopeStore
  membership : Option Nat
  tasks : Nat → BlobTask
  conns : Nat → Option EndpointId
  acts : List BlobAct

inductive BlobEvent where
  | publishScope (task : Nat) (scope hash : String)
  | republish (task : Nat) (scope hashHex : String)
  | unpublish (task : Nat) (scope hashHex : String)
  | acquire (task : Nat)
  /-- the next step of the call; `held` is what the blob store answers -/
  | advance (task : Nat) (held : Bool)
  | grant (scope principal : String)
  | revokeFromScope (scope : String) (principals : List String)
  | revokePrincipals (principals : List String)
  | clientConnected (connection : Nat) (endpoint : Option EndpointId)
  | connectionClosed (connection : Nat)

namespace AppBlobs

/-- A provider over an empty table. -/
def start : AppBlobs :=
  { scopes := ⟨.empty, ⟨.empty, none⟩⟩, membership := none, tasks := fun _ => .idle
    conns := fun _ => none, acts := [] }

/-- A mutation that is persisted. -/
def mutate (s : AppBlobs) (c : ScopeCall) (act : BlobAct) : AppBlobs :=
  { s with scopes := (s.scopes.call true c).2, acts := s.acts ++ [act] }

def setTask (s : AppBlobs) (task : Nat) (phase : BlobTask) : AppBlobs :=
  { s with tasks := Function.update s.tasks task phase }

/-- The call ends its part under the lock. -/
def release (s : AppBlobs) (task : Nat) (phase : BlobTask) : AppBlobs :=
  { s with membership := none, tasks := Function.update s.tasks task phase }

/-- The next step of a call; `parse` is `parse_blob_hash`, rendered in hex. -/
def advance (parse : String → Option String) (s : AppBlobs) (task : Nat) (held : Bool) :
    Option AppBlobs :=
  match s.tasks task with
  | .publishLocked scope hash =>
      some ((s.mutate (.publishHash scope hash) (.publish scope hash)).release task .idle)
  | .republishLocked scope hashHex =>
      if !s.scopes.inner.hasScope scope then some (s.release task .idle)
      else
        match parse hashHex with
        | none => some (s.release task .idle)
        | some hash => some (s.setTask task (.republishPinned scope hash))
  | .republishPinned scope hash =>
      if !held then some (s.release task .idle)
      else some (s.setTask task (.republishHeld scope hash))
  | .republishHeld scope hash =>
      if s.scopes.inner.isWithdrawn scope hash then some (s.release task .idle)
      else some (s.setTask task (.republishChecked scope hash))
  | .republishChecked scope hash =>
      some ((s.mutate (.publishHash scope hash) (.republish scope hash)).release task
        (.republishMinting hash))
  | .republishMinting _ => some (s.setTask task .idle)
  | .unpublishLocked scope hash =>
      let found := s.scopes.inner.hasScope scope
      some ((s.mutate (.unpublishHash scope hash) (.unpublish scope hash found)).release task .idle)
  | .idle | .publishImported .. | .republishCalled .. | .unpublishCalled .. => none

/-- Take the lock. -/
def acquire (s : AppBlobs) (task : Nat) : Option AppBlobs :=
  if s.membership.isSome then none
  else
    let s' := { s with membership := some task }
    match s.tasks task with
    | .publishImported scope hash => some (s'.setTask task (.publishLocked scope hash))
    | .republishCalled scope hashHex => some (s'.setTask task (.republishLocked scope hashHex))
    | .unpublishCalled scope hash => some (s'.setTask task (.unpublishLocked scope hash))
    | _ => none

/-- A new call, on a task that has none. -/
def enter (s : AppBlobs) (task : Nat) (phase : BlobTask) : Option AppBlobs :=
  match s.tasks task with
  | .idle => some (s.setTask task phase)
  | _ => none

end AppBlobs

def blobStep (parse : String → Option String) (s : AppBlobs) : BlobEvent → Option AppBlobs
  | .publishScope task scope hash => s.enter task (.publishImported scope hash)
  | .republish task scope hashHex => s.enter task (.republishCalled scope hashHex)
  | .unpublish task scope hashHex =>
      match parse hashHex with
      | none => some s
      | some hash => s.enter task (.unpublishCalled scope hash)
  | .acquire task => s.acquire task
  | .advance task held => s.advance parse task held
  | .grant scope p => some (s.mutate (.grant scope p) (.grant scope p))
  | .revokeFromScope scope ps =>
      some (s.mutate (.revokeFromScope scope ps) (.revokeFromScope scope ps))
  | .revokePrincipals ps => some (s.mutate (.revokePrincipals ps) (.revokePrincipals ps))
  | .clientConnected connection endpoint =>
      match endpoint with
      | some eid => some { s with conns := Function.update s.conns connection (some eid) }
      | none => some s
  | .connectionClosed connection =>
      some { s with conns := Function.update s.conns connection none }

/-! ## the decision -/

inductive AbortReason where
  | permission
  | rateLimited
  deriving DecidableEq

/-- `request_budget_ok`: no endpoint, no budget. -/
def requestBudgetOk (endpoint : Option EndpointId) (budget : EndpointId → Bool) : Bool :=
  endpoint.any budget

/-- `get_admission`: authorization first, then the budget. -/
def getAdmission (allow : Bool) (endpoint : Option EndpointId) (budget : EndpointId → Bool) :
    Except AbortReason Unit :=
  if !allow then .error .permission
  else
    match endpoint with
    | none => .error .permission
    | some eid =>
        if !requestBudgetOk (some eid) budget then .error .rateLimited else .ok ()

structure GetRequest where
  connection : Nat
  hash : String
  /-- `ranges.is_blob()` -/
  isBlob : Bool

/-- The principals a caller is granted as. -/
def PeerIdentity.principals (identity : PeerIdentity) : Finset String :=
  principalSet (some (principal identity.endpoint)) identity.userId identity.groups

/-- The GET arm: `resolve` is the trust gate, `budget` what the byte budget of an
endpoint answers. -/
def AppBlobs.getDecision (s : AppBlobs) (resolve : EndpointId → Option PeerIdentity)
    (budget : EndpointId → Bool) (r : GetRequest) : Except AbortReason Unit :=
  let identity := (s.conns r.connection).bind resolve
  let allow := r.isBlob && identity.any fun identity =>
    s.scopes.inner.allows r.hash identity.principals
  getAdmission allow (s.conns r.connection) budget

/-! ## what the log says -/

/-- What an act says of a hash being listed. -/
def membershipWord (scope hash : String) : BlobAct → Option Bool
  | .publish s h | .republish s h => if s = scope ∧ h = hash then some true else none
  | .unpublish s h _ => if s = scope ∧ h = hash then some false else none
  | _ => none

/-- What an act says of a principal being granted. -/
def grantWord (scope principal : String) : BlobAct → Option Bool
  | .grant s p => if s = scope ∧ p = principal then some true else none
  | .revokeFromScope s ps => if s = scope ∧ principal ∈ ps then some false else none
  | .revokePrincipals ps => if principal ∈ ps then some false else none
  | _ => none

/-- What an act says of a hash being withdrawn: a republication says nothing. -/
def withdrawalWord (scope hash : String) : BlobAct → Option Bool
  | .publish s h => if s = scope ∧ h = hash then some false else none
  | .unpublish s h found => if found = true ∧ s = scope ∧ h = hash then some true else none
  | _ => none

/-- The call that an act of a table is. -/
inductive Performed (t : BlobScopes) : ScopeCall → BlobAct → Prop where
  | publish (scope hash : String) :
      Performed t (.publishHash scope hash) (.publish scope hash)
  | republish {scope hash : String} (hclear : hash ∉ (t.orDefault scope).withdrawn) :
      Performed t (.publishHash scope hash) (.republish scope hash)
  | unpublish (scope hash : String) :
      Performed t (.unpublishHash scope hash) (.unpublish scope hash (t.hasScope scope))
  | grant (scope p : String) : Performed t (.grant scope p) (.grant scope p)
  | revokeFromScope (scope : String) (ps : List String) :
      Performed t (.revokeFromScope scope ps) (.revokeFromScope scope ps)
  | revokePrincipals (ps : List String) :
      Performed t (.revokePrincipals ps) (.revokePrincipals ps)

/-- A table is what a log says of it. -/
structure LogOf (acts : List BlobAct) (t : BlobScopes) : Prop where
  listed : ∀ scope hash, hash ∈ (t.orDefault scope).hashes ↔
    lastWord (membershipWord scope hash) acts = some true
  granted : ∀ scope p, p ∈ (t.orDefault scope).grants ↔
    lastWord (grantWord scope p) acts = some true
  withdrawn : ∀ scope hash, hash ∈ (t.orDefault scope).withdrawn ↔
    lastWord (withdrawalWord scope hash) acts = some true
  disjoint : ∀ scope, Disjoint (t.orDefault scope).hashes (t.orDefault scope).withdrawn

section Log

variable {t : BlobScopes} {c : ScopeCall} {a : BlobAct} {acts : List BlobAct}
  {scope hash p : String}

/-- The hash is listed if the act says so, or says nothing and it was. -/
theorem Performed.listed (h : Performed t c a) :
    hash ∈ ((c.effect t).orDefault scope).hashes ↔
      membershipWord scope hash a = some true ∨
        membershipWord scope hash a = none ∧ hash ∈ (t.orDefault scope).hashes := by
  cases h with
  | publish s g | republish hclear =>
      grind [ScopeCall.effect, membershipWord, BlobScopes.orDefault_publishHash, Scope.publish]
  | unpublish s g =>
      -- an absent scope lists, grants and withdraws nothing
      grind [ScopeCall.effect, membershipWord, BlobScopes.orDefault_unpublishHash, Scope.unpublish,
        BlobScopes.orDefault_of_not_hasScope, Scope.empty]
  | grant s q =>
      grind [ScopeCall.effect, membershipWord, BlobScopes.orDefault_grant]
  | revokeFromScope s ps =>
      grind [ScopeCall.effect, membershipWord, BlobScopes.orDefault_revokeFromScope]
  | revokePrincipals ps =>
      grind [ScopeCall.effect, membershipWord, BlobScopes.orDefault_revokePrincipals]

/-- The principal is granted if the act says so, or says nothing and it was. -/
theorem Performed.granted (h : Performed t c a) :
    p ∈ ((c.effect t).orDefault scope).grants ↔
      grantWord scope p a = some true ∨
        grantWord scope p a = none ∧ p ∈ (t.orDefault scope).grants := by
  cases h with
  | publish s g | republish hclear =>
      grind [ScopeCall.effect, grantWord, BlobScopes.orDefault_publishHash, Scope.publish]
  | unpublish s g =>
      -- an absent scope lists, grants and withdraws nothing
      grind [ScopeCall.effect, grantWord, BlobScopes.orDefault_unpublishHash, Scope.unpublish,
        BlobScopes.orDefault_of_not_hasScope, Scope.empty]
  | grant s q =>
      grind [ScopeCall.effect, grantWord, BlobScopes.orDefault_grant]
  | revokeFromScope s ps =>
      grind [ScopeCall.effect, grantWord, BlobScopes.orDefault_revokeFromScope,
        List.mem_toFinset]
  | revokePrincipals ps =>
      grind [ScopeCall.effect, grantWord, BlobScopes.orDefault_revokePrincipals,
        List.mem_toFinset]

/-- The hash is withdrawn if the act says so, or says nothing and it was. -/
theorem Performed.withdrawn (h : Performed t c a) :
    hash ∈ ((c.effect t).orDefault scope).withdrawn ↔
      withdrawalWord scope hash a = some true ∨
        withdrawalWord scope hash a = none ∧ hash ∈ (t.orDefault scope).withdrawn := by
  cases h with
  | publish s g | republish hclear =>
      grind [ScopeCall.effect, withdrawalWord, BlobScopes.orDefault_publishHash, Scope.publish]
  | unpublish s g =>
      -- an absent scope lists, grants and withdraws nothing
      grind [ScopeCall.effect, withdrawalWord, BlobScopes.orDefault_unpublishHash, Scope.unpublish,
        BlobScopes.orDefault_of_not_hasScope, Scope.empty]
  | grant s q =>
      grind [ScopeCall.effect, withdrawalWord, BlobScopes.orDefault_grant]
  | revokeFromScope s ps =>
      grind [ScopeCall.effect, withdrawalWord, BlobScopes.orDefault_revokeFromScope]
  | revokePrincipals ps =>
      grind [ScopeCall.effect, withdrawalWord, BlobScopes.orDefault_revokePrincipals]

/-- No act leaves a hash listed and withdrawn. -/
theorem Performed.disjoint (h : Performed t c a)
    (hd : Disjoint (t.orDefault scope).hashes (t.orDefault scope).withdrawn) :
    Disjoint ((c.effect t).orDefault scope).hashes ((c.effect t).orDefault scope).withdrawn := by
  rw [Finset.disjoint_left] at hd ⊢
  cases h with
  | publish s g | republish hclear =>
      grind [ScopeCall.effect, BlobScopes.orDefault_publishHash, Scope.publish]
  | unpublish s g =>
      grind [ScopeCall.effect, BlobScopes.orDefault_unpublishHash, Scope.unpublish]
  | grant s q => grind [ScopeCall.effect, BlobScopes.orDefault_grant]
  | revokeFromScope s ps => grind [ScopeCall.effect, BlobScopes.orDefault_revokeFromScope]
  | revokePrincipals ps => grind [ScopeCall.effect, BlobScopes.orDefault_revokePrincipals]

/-- An act leaves the table what the longer log says of it. -/
theorem LogOf.performed (hlog : LogOf acts t) (h : Performed t c a) :
    LogOf (acts ++ [a]) (c.effect t) where
  listed scope hash := holds_iff_lastWord_snoc (hlog.listed scope hash) h.listed
  granted scope p := holds_iff_lastWord_snoc (hlog.granted scope p) h.granted
  withdrawn scope hash := holds_iff_lastWord_snoc (hlog.withdrawn scope hash) h.withdrawn
  disjoint scope := h.disjoint (hlog.disjoint scope)

end Log

/-! ## a step -/

section Steps

variable {parse : String → Option String} {s s' : AppBlobs} {event : BlobEvent}

/-- What a step does: an act under the lock, a grant or a revocation, a move of
one call, or something about a connection. -/
inductive Acted (s : AppBlobs) : AppBlobs → Prop where
  | member {c : ScopeCall} {a : BlobAct} {task : Nat} {phase : BlobTask}
      (hlocked : (s.tasks task).locked = true) (hphase : phase.locked = false)
      (hperformed : Performed s.scopes.inner c a) :
      Acted s ((s.mutate c a).release task phase)
  | shared {c : ScopeCall} {a : BlobAct} (hperformed : Performed s.scopes.inner c a)
      (hwithdrawn : ∀ scope hash, withdrawalWord scope hash a = none) : Acted s (s.mutate c a)
  | moved {task : Nat} {phase : BlobTask} {membership : Option Nat}
      (hlock : membership = s.membership ∨ s.membership = none ∨ (s.tasks task).locked = true)
      (hphase : phase.locked = true →
        membership = some task ∨ membership = s.membership ∧ (s.tasks task).locked = true)
      (hchecked : ∀ scope hash, phase = .republishChecked scope hash →
        hash ∉ (s.scopes.inner.orDefault scope).withdrawn) :
      Acted s { s with membership, tasks := Function.update s.tasks task phase }
  | quiet (conns : Nat → Option EndpointId) : Acted s { s with conns }

/-- A call that begins acts on nothing yet. -/
theorem acted_enter {task : Nat} {phase : BlobTask} (hphase : phase.locked = false)
    (h : s.enter task phase = some s') : Acted s s' := by
  unfold AppBlobs.enter at h
  split at h
  · obtain rfl := Option.some.inj h
    refine .moved (.inl rfl) (fun hl => ?_) (fun scope hash hc => ?_)
    · exact absurd (hphase.symm.trans hl) Bool.false_ne_true
    · subst hc
      contradiction
  · contradiction

/-- A call that gets the lock acts on nothing yet. -/
theorem acted_acquire {task : Nat} (h : s.acquire task = some s') : Acted s s' := by
  obtain ⟨hfree, h⟩ := Option.ite_none_left_eq_some.mp h
  rw [Bool.not_eq_true, Option.isSome_eq_false_iff, Option.isNone_iff_eq_none] at hfree
  dsimp only at h
  split at h
  · obtain rfl := Option.some.inj h
    exact .moved (.inr (.inl hfree)) (fun _ => .inl rfl) nofun
  · obtain rfl := Option.some.inj h
    exact .moved (.inr (.inl hfree)) (fun _ => .inl rfl) nofun
  · obtain rfl := Option.some.inj h
    exact .moved (.inr (.inl hfree)) (fun _ => .inl rfl) nofun
  · contradiction

/-- A call that fails gives the lock back. -/
theorem acted_release {task : Nat} (hlocked : (s.tasks task).locked = true) :
    Acted s (s.release task .idle) :=
  .moved (.inr (.inr hlocked)) nofun nofun

/-- A call that goes on under the lock keeps it. -/
theorem acted_setTask {task : Nat} {phase : BlobTask} (hlocked : (s.tasks task).locked = true)
    (hchecked : ∀ scope hash, phase = .republishChecked scope hash →
      hash ∉ (s.scopes.inner.orDefault scope).withdrawn) : Acted s (s.setTask task phase) :=
  .moved (.inl rfl) (fun _ => .inr ⟨rfl, hlocked⟩) hchecked

/-- A call that goes on performs what its verb says, or nothing. -/
theorem acted_advance {task : Nat} {held : Bool} (hchecked : ∀ scope hash,
      s.tasks task = .republishChecked scope hash →
        hash ∉ (s.scopes.inner.orDefault scope).withdrawn)
    (h : s.advance parse task held = some s') : Acted s s' := by
  have hlock : ∀ phase, s.tasks task = phase → phase.locked = true →
      (s.tasks task).locked = true := by
    rintro phase rfl h
    exact h
  unfold AppBlobs.advance at h
  split at h
  · next scope hash htask =>
    obtain rfl := Option.some.inj h
    exact .member (hlock _ htask rfl) rfl (.publish scope hash)
  · next scope hashHex htask =>
    split at h
    · obtain rfl := Option.some.inj h
      exact acted_release (hlock _ htask rfl)
    · split at h
      · obtain rfl := Option.some.inj h
        exact acted_release (hlock _ htask rfl)
      · obtain rfl := Option.some.inj h
        exact acted_setTask (hlock _ htask rfl) nofun
  · next scope hash htask =>
    split at h
    · obtain rfl := Option.some.inj h
      exact acted_release (hlock _ htask rfl)
    · obtain rfl := Option.some.inj h
      exact acted_setTask (hlock _ htask rfl) nofun
  · next scope hash htask =>
    split at h
    · obtain rfl := Option.some.inj h
      exact acted_release (hlock _ htask rfl)
    · next hclear =>
      obtain rfl := Option.some.inj h
      refine acted_setTask (hlock _ htask rfl) fun scope' hash' hphase => ?_
      obtain ⟨rfl, rfl⟩ := BlobTask.republishChecked.inj hphase
      exact fun hmem => hclear (BlobScopes.isWithdrawn_iff.mpr hmem)
  · next scope hash htask =>
    obtain rfl := Option.some.inj h
    exact .member (hlock _ htask rfl) rfl (.republish (hchecked scope hash htask))
  · next hash htask =>
    obtain rfl := Option.some.inj h
    exact .moved (.inl rfl) nofun nofun
  · next scope hash htask =>
    obtain rfl := Option.some.inj h
    exact .member (hlock _ htask rfl) rfl (.unpublish scope hash)
  all_goals contradiction

/-- Each step of the node performs one act, or none. -/
theorem acted_of_blobStep (hchecked : ∀ task scope hash,
      s.tasks task = .republishChecked scope hash →
        hash ∉ (s.scopes.inner.orDefault scope).withdrawn)
    (h : blobStep parse s event = some s') : Acted s s' := by
  cases event with
  | publishScope task scope hash => exact acted_enter rfl h
  | republish task scope hashHex => exact acted_enter rfl h
  | unpublish task scope hashHex =>
      dsimp only [blobStep] at h
      split at h
      · obtain rfl := Option.some.inj h
        exact .quiet s.conns
      · exact acted_enter rfl h
  | acquire task => exact acted_acquire h
  | advance task held => exact acted_advance (hchecked task) h
  | grant scope p =>
      obtain rfl := Option.some.inj h
      exact .shared (.grant scope p) (fun _ _ => rfl)
  | revokeFromScope scope ps =>
      obtain rfl := Option.some.inj h
      exact .shared (.revokeFromScope scope ps) (fun _ _ => rfl)
  | revokePrincipals ps =>
      obtain rfl := Option.some.inj h
      exact .shared (.revokePrincipals ps) (fun _ _ => rfl)
  | clientConnected connection endpoint =>
      dsimp only [blobStep] at h
      split at h
      all_goals
        obtain rfl := Option.some.inj h
        exact .quiet _
  | connectionClosed connection =>
      obtain rfl := Option.some.inj h
      exact .quiet _

end Steps

/-! ## the invariant -/

/-- Between an unpublication and a republication there was a publication. -/
def NeverRevived (acts : List BlobAct) : Prop :=
  ∀ before mid after scope hash,
    acts = before ++ .unpublish scope hash true :: (mid ++ .republish scope hash :: after) →
      .publish scope hash ∈ mid

/-- The table is what the log says, the lock is held by whoever is under it, and
what was found not withdrawn still is not. -/
structure AppBlobs.Inv (s : AppBlobs) : Prop where
  log : LogOf s.acts s.scopes.inner
  owner : ∀ task, (s.tasks task).locked = true → s.membership = some task
  checked : ∀ task scope hash, s.tasks task = .republishChecked scope hash →
    hash ∉ (s.scopes.inner.orDefault scope).withdrawn
  republished : NeverRevived s.acts

section Invariant

variable {parse : String → Option String} {s s' : AppBlobs} {event : BlobEvent}
  {t : BlobScopes} {c : ScopeCall} {a : BlobAct} {acts : List BlobAct}

/-- An act that is performed revives nothing that was withdrawn. -/
theorem NeverRevived.performed (h : NeverRevived acts) (hlog : LogOf acts t)
    (hperformed : Performed t c a) : NeverRevived (acts ++ [a]) := by
  intro before mid after scope hash heq
  obtain rfl | ⟨after, last, rfl⟩ := List.eq_nil_or_concat after
  · have heq : acts ++ [a] =
        (before ++ .unpublish scope hash true :: mid) ++ [.republish scope hash] := by
      rw [heq, List.append_assoc, List.cons_append]
    obtain ⟨rfl, hlast⟩ := List.append_inj' heq rfl
    obtain rfl := List.singleton_inj.mp hlast
    cases hperformed with
    | republish hclear =>
        rw [hlog.withdrawn scope hash] at hclear
        obtain ⟨d, hd, b, hword, hb⟩ := exists_later_word (by simp [withdrawalWord]) hclear
        cases d with
        | publish s g =>
            obtain ⟨⟨rfl, rfl⟩, -⟩ := Option.ite_none_right_eq_some.mp hword
            exact hd
        | unpublish s g found =>
            obtain ⟨-, hword⟩ := Option.ite_none_right_eq_some.mp hword
            exact absurd (Option.some.inj hword).symm hb
        | republish | grant | revokeFromScope | revokePrincipals => contradiction
  · refine h before mid after scope hash ?_
    rw [List.concat_eq_append, ← List.cons_append, ← List.append_assoc, ← List.cons_append,
      ← List.append_assoc] at heq
    rw [(List.append_inj' heq rfl).1, List.append_assoc, List.cons_append]

theorem AppBlobs.mutate_inner (s : AppBlobs) (c : ScopeCall) (a : BlobAct) :
    (s.mutate c a).scopes.inner = c.effect s.scopes.inner :=
  (s.scopes.called c true).inner

/-- Whatever a mutation does, the last words of the log say. -/
theorem AppBlobs.Inv.acted (hs : s.Inv) (h : Acted s s') : s'.Inv := by
  cases h with
  | @member c a task phase hlocked hphase hperformed =>
      have hmine := hs.owner task hlocked
      -- nobody else is under the lock
      have hothers : ∀ other, other ≠ task → (s.tasks other).locked = false := by
        intro other hne
        by_contra hlocked'
        rw [Bool.not_eq_false] at hlocked'
        exact hne (Option.some.inj ((hs.owner other hlocked').symm.trans hmine))
      have htask : ∀ other, (Function.update s.tasks task phase other).locked = false := by
        intro other
        obtain rfl | hne := eq_or_ne other task
        · rwa [Function.update_self]
        · rw [Function.update_of_ne hne]
          exact hothers other hne
      refine ⟨?_, fun other h => ?_, fun other scope hash h => ?_,
        hs.republished.performed hs.log hperformed⟩
      · change LogOf (s.acts ++ [a]) (s.mutate c a).scopes.inner
        rw [s.mutate_inner]
        exact hs.log.performed hperformed
      · exact absurd ((htask other).symm.trans h) Bool.false_ne_true
      · have hfree := htask other
        rw [show Function.update s.tasks task phase other = .republishChecked scope hash from h]
          at hfree
        contradiction
  | @shared c a hperformed hwithdrawn =>
      refine ⟨?_, hs.owner, fun task scope hash htask => ?_,
        hs.republished.performed hs.log hperformed⟩
      · change LogOf (s.acts ++ [a]) (s.mutate c a).scopes.inner
        rw [s.mutate_inner]
        exact hs.log.performed hperformed
      · rw [s.mutate_inner, hperformed.withdrawn, hwithdrawn]
        simpa using hs.checked task scope hash htask
  | @moved task phase membership hlock hphase hchecked =>
      refine ⟨hs.log, fun other h => ?_, fun other scope hash h => ?_, hs.republished⟩
      · change (Function.update s.tasks task phase other).locked = true at h
        obtain rfl | hne := eq_or_ne other task
        · rw [Function.update_self] at h
          obtain hmine | ⟨hsame, hlocked⟩ := hphase h
          · exact hmine
          · exact hsame.trans (hs.owner other hlocked)
        · rw [Function.update_of_ne hne] at h
          have howner := hs.owner other h
          obtain hsame | hfree | hlocked' := hlock
          · exact hsame.trans howner
          · rw [hfree] at howner
            contradiction
          · exact absurd (Option.some.inj (howner.symm.trans (hs.owner task hlocked'))) hne
      · obtain rfl | hne := eq_or_ne other task
        · exact hchecked scope hash ((Function.update_self ..).symm.trans h)
        · exact hs.checked other scope hash ((Function.update_of_ne hne ..).symm.trans h)
  | quiet conns => exact ⟨hs.log, hs.owner, hs.checked, hs.republished⟩

theorem BlobScopes.orDefault_empty (scope : String) : empty.orDefault scope = .empty := by
  rw [orDefault, get, empty, Finmap.lookup_empty, Option.getD_none]

/-- Nothing was said of the empty table. -/
theorem logOf_empty : LogOf [] .empty where
  listed scope hash := by simp [BlobScopes.orDefault_empty, Scope.empty]
  granted scope p := by simp [BlobScopes.orDefault_empty, Scope.empty]
  withdrawn scope hash := by simp [BlobScopes.orDefault_empty, Scope.empty]
  disjoint scope := by simp [BlobScopes.orDefault_empty, Scope.empty]

theorem AppBlobs.start_inv : AppBlobs.start.Inv where
  log := logOf_empty
  owner _ h := absurd h Bool.false_ne_true
  checked _ _ _ h := BlobTask.noConfusion h
  republished _ _ _ _ _ h := List.cons_ne_nil _ _ (List.append_eq_nil_iff.mp h.symm).2 |>.elim

end Invariant

/-! ## access -/

section Access

variable {s : AppBlobs} {resolve : EndpointId → Option PeerIdentity} {budget : EndpointId → Bool}
  {r : GetRequest} {eid : EndpointId} {identity : PeerIdentity}

theorem getAdmission_ok_iff {allow : Bool} :
    getAdmission allow (some eid) budget = .ok () ↔ allow = true ∧ budget eid = true := by
  unfold getAdmission requestBudgetOk
  cases allow with
  | false => simp
  | true => cases h : budget eid <;> simp [h]

/-- A resolved caller gets a plain blob that the table allows it, within budget. -/
theorem getDecision_ok_iff (hconn : s.conns r.connection = some eid)
    (hresolve : resolve eid = some identity) : s.getDecision resolve budget r = .ok () ↔
      r.isBlob = true ∧ budget eid = true ∧
        s.scopes.inner.allows r.hash identity.principals = true := by
  have hidentity : (s.conns r.connection).bind resolve = some identity := by
    rw [hconn, Option.bind_some, hresolve]
  rw [AppBlobs.getDecision, hidentity, hconn, getAdmission_ok_iff, Option.any_some,
    Bool.and_eq_true, and_assoc, and_comm (a := budget eid = true)]

/-- The table allows what the log says. -/
theorem LogOf.allows_iff {acts : List BlobAct} {t : BlobScopes} (hlog : LogOf acts t)
    {hash : String} {principals : Finset String} : t.allows hash principals = true ↔
      ∃ scope, lastWord (membershipWord scope hash) acts = some true ∧
        ∃ p ∈ principals, lastWord (grantWord scope p) acts = some true := by
  rw [BlobScopes.allows_iff]
  refine exists_congr fun scope => ?_
  rw [hlog.listed scope hash]
  constructor
  · rintro ⟨-, hlisted, p, hgranted, hp⟩
    exact ⟨hlisted, p, hp, (hlog.granted scope p).mp hgranted⟩
  · rintro ⟨hlisted, p, hp, hgranted⟩
    have hmem : hash ∈ (t.orDefault scope).hashes := (hlog.listed scope hash).mpr hlisted
    exact ⟨Finset.disjoint_left.mp (hlog.disjoint scope) hmem, hlisted, p,
      (hlog.granted scope p).mpr hgranted, hp⟩

/-- **Blob access is what the last acts say**: at every instant of every
interleaving a resolved caller may fetch a hash exactly when the request is a
plain one within budget and some scope last published the hash and last granted
one of the caller's principals; a republication never follows an unpublication
from a scope that was there without a publication in between; and no scope has a
hash both listed and withdrawn. -/
theorem blob_access_by_last_acts (parse : String → Option String) {events : List BlobEvent}
    (hrun : run (blobStep parse) .start events = some s) :
    (∀ resolve budget r eid identity, s.conns r.connection = some eid →
      resolve eid = some identity →
        (s.getDecision resolve budget r = .ok () ↔
          r.isBlob = true ∧ budget eid = true ∧
            ∃ scope, lastWord (membershipWord scope r.hash) s.acts = some true ∧
              ∃ p ∈ identity.principals, lastWord (grantWord scope p) s.acts = some true)) ∧
      NeverRevived s.acts ∧
      (∀ scope, Disjoint (s.scopes.inner.orDefault scope).hashes
        (s.scopes.inner.orDefault scope).withdrawn) := by
  have hinv : s.Inv :=
    run_invariant (fun s e s' hs hstep => hs.acted (acted_of_blobStep hs.checked hstep))
      AppBlobs.start_inv hrun
  refine ⟨fun resolve budget r eid identity hconn hresolve => ?_, hinv.republished,
    hinv.log.disjoint⟩
  rw [getDecision_ok_iff hconn hresolve, hinv.log.allows_iff]

end Access

namespace SharedNote

/-- A caller in the group `team`. -/
def caller : PeerIdentity :=
  { endpoint := Instance.ownId, name := "bob", userId := none, groups := ["team"] }

/-- A file is published and its scope granted to the group. -/
def shared : List BlobEvent :=
  [.publishScope 0 "notes" "aa", .acquire 0, .advance 0 true, .grant "notes" "team",
    .clientConnected 1 (some Instance.ownId)]

/-- The hash is unpublished from a scope that is not there, a grant makes the
scope, and the blob, which the store holds, is republished. -/
def early : List BlobEvent :=
  [.unpublish 0 "notes" "aa", .acquire 0, .advance 0 true, .grant "notes" "team",
    .republish 1 "notes" "aa", .acquire 1, .advance 1 true, .advance 1 true, .advance 1 true,
    .advance 1 true]

end SharedNote

theorem blob_access_by_last_acts_example :
    ∃ s, run (blobStep some) .start SharedNote.shared = some s ∧
      s.getDecision (fun _ => some SharedNote.caller) (fun _ => true) ⟨1, "aa", true⟩ = .ok () := by
  have hend : ∃ s ∈ run (blobStep some) .start SharedNote.shared,
      s.conns 1 = some Instance.ownId ∧
        lastWord (membershipWord "notes" "aa") s.acts = some true ∧
          ∃ p ∈ SharedNote.caller.principals,
            lastWord (grantWord "notes" p) s.acts = some true := by
    decide +kernel
  obtain ⟨s, hrun, hconn, hlisted, hgranted⟩ := hend
  refine ⟨s, hrun, ?_⟩
  exact ((blob_access_by_last_acts some hrun).1 _ _ _ _ SharedNote.caller hconn rfl).mpr
    ⟨rfl, rfl, "notes", hlisted, hgranted⟩

/-- The republication succeeds, and nothing was published in between. -/
theorem early_unpublication_forgotten :
    ∃ s, run (blobStep some) .start SharedNote.early = some s ∧
      s.acts = [.unpublish "notes" "aa" false, .grant "notes" "team", .republish "notes" "aa"] := by
  have hend : ∃ s ∈ run (blobStep some) .start SharedNote.early,
      s.acts = [.unpublish "notes" "aa" false, .grant "notes" "team", .republish "notes" "aa"] := by
    decide +kernel
  exact hend

end Mcpmesh
