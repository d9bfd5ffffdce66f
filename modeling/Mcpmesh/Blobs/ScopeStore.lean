import Mcpmesh.Blobs.Scope
import Mcpmesh.Lib.Run

/-!
# Mcpmesh.Blobs.ScopeStore

The scope table and its rows on disk (`ScopeStore`,
`node/src/blobs/scope.rs`).

A mutation changes the table in memory and then commits it: the row of its
scope, or, for `revoke_principals`, every row.  A commit that fails leaves the
rows as they were and the memory changed.  A restart reads the rows again, or
imports the sidecar of an older version into an empty table.

`revoke_principals` commits only when memory changed, so after a failed commit
its retry finds nothing to change and acknowledges what no row says.
-/

namespace Mcpmesh

open Lib

/-! ## the store -/

/-- What a restart finds: the rows, and the sidecar with what it parses to. -/
structure ScopeDisk where
  rows : BlobScopes
  sidecar : Option (Option BlobScopes)

structure ScopeStore where
  inner : BlobScopes
  disk : ScopeDisk

namespace ScopeStore

/-- Commit these rows, if the transaction succeeds. -/
def commit (s : ScopeStore) (committed : Bool) (rows : BlobScopes) : Bool × ScopeStore :=
  if committed then (true, { s with disk := { s.disk with rows } }) else (false, s)

/-- `ScopeStore::persist`: the rows that no scope has are dropped and the others
written, so the rows are the table. -/
def persist (s : ScopeStore) (committed : Bool) : Bool × ScopeStore := s.commit committed s.inner

/-- `ScopeStore::persist_scope`. -/
def persistScope (s : ScopeStore) (committed : Bool) (name : String) : Bool × ScopeStore :=
  s.commit committed <|
    match s.inner.get name with
    | some sc => s.disk.rows.put name sc
    | none => ⟨s.disk.rows.scopes.erase name⟩

/-- `ScopeStore::publish_hash`. -/
def publishHash (s : ScopeStore) (committed : Bool) (scope hash : String) : Bool × ScopeStore :=
  { s with inner := s.inner.publishHash scope hash }.persistScope committed scope

/-- `ScopeStore::grant`. -/
def grant (s : ScopeStore) (committed : Bool) (scope principal : String) : Bool × ScopeStore :=
  { s with inner := s.inner.grant scope principal }.persistScope committed scope

/-- `ScopeStore::revoke_from_scope`. -/
def revokeFromScope (s : ScopeStore) (committed : Bool) (scope : String)
    (principals : List String) : Option Bool × ScopeStore :=
  let (changed, inner) := s.inner.revokeFromScope scope principals
  let (written, s) := { s with inner }.persistScope committed scope
  (if written then some changed else none, s)

/-- `ScopeStore::unpublish_hash`. -/
def unpublishHash (s : ScopeStore) (committed : Bool) (scope hash : String) :
    Option Bool × ScopeStore :=
  let (changed, inner) := s.inner.unpublishHash scope hash
  let (written, s) := { s with inner }.persistScope committed scope
  (if written then some changed else none, s)

/-- `ScopeStore::revoke_principals`: nothing is written when nothing changed. -/
def revokePrincipals (s : ScopeStore) (committed : Bool) (principals : List String) :
    Option Bool × ScopeStore :=
  let (changed, inner) := s.inner.revokePrincipals principals
  let s := { s with inner }
  if changed then
    let (written, s) := s.persist committed
    (if written then some changed else none, s)
  else (some changed, s)

end ScopeStore

inductive ScopeCall where
  | publishHash (scope hash : String)
  | grant (scope principal : String)
  | revokeFromScope (scope : String) (principals : List String)
  | unpublishHash (scope hash : String)
  | revokePrincipals (principals : List String)

/-- What a call returns. -/
inductive ScopeReply where
  | ok
  | changed (changed : Bool)
  | failed
  deriving DecidableEq

def ScopeReply.ofWritten : Bool → ScopeReply
  | true => .ok
  | false => .failed

def ScopeReply.ofChanged : Option Bool → ScopeReply
  | some b => .changed b
  | none => .failed

def ScopeStore.call (s : ScopeStore) (committed : Bool) : ScopeCall → ScopeReply × ScopeStore
  | .publishHash scope hash => (s.publishHash committed scope hash).map .ofWritten id
  | .grant scope principal => (s.grant committed scope principal).map .ofWritten id
  | .revokeFromScope scope principals =>
      (s.revokeFromScope committed scope principals).map .ofChanged id
  | .unpublishHash scope hash => (s.unpublishHash committed scope hash).map .ofChanged id
  | .revokePrincipals principals => (s.revokePrincipals committed principals).map .ofChanged id

/-! ## restarts -/

/-- What can fail while a store is opened: the database itself, the import of
the sidecar, the rename after it. -/
inductive OpenFault where
  | database
  | sidecar
  | rename
  deriving DecidableEq

/-- A process with its store, or the disk between two processes. -/
inductive ScopeNode where
  | up (s : ScopeStore)
  | down (disk : ScopeDisk)

/-- `ScopeStore::open`: the sidecar counts only beside an empty table. -/
def ScopeDisk.opened (disk : ScopeDisk) (fault : Option OpenFault) : ScopeNode :=
  if fault = some .database then .down disk
  else if disk.rows.isEmpty then
    match disk.sidecar with
    | none => .up ⟨disk.rows, disk⟩
    | some none => .down disk
    | some (some scopes) =>
        if fault = some .sidecar then .down disk
        else if fault = some .rename then .down { disk with rows := scopes }
        else .up ⟨scopes, { rows := scopes, sidecar := none }⟩
  else .up ⟨disk.rows, disk⟩

inductive ScopeEvent where
  | call (c : ScopeCall) (committed : Bool)
  | restart (fault : Option OpenFault)

namespace ScopeNode

def disk : ScopeNode → ScopeDisk
  | up s => s.disk
  | down disk => disk

/-- The table that requests are decided by. -/
def table : ScopeNode → Option BlobScopes
  | up s => some s.inner
  | down _ => none

def step (n : ScopeNode) : ScopeEvent → ScopeNode × ScopeReply
  | .call c committed =>
      match n with
      | .up s => let (reply, s) := s.call committed c; (.up s, reply)
      | .down disk => (.down disk, .failed)
  | .restart fault =>
      match n.disk.opened fault with
      | .up s => (.up s, .ok)
      | .down disk => (.down disk, .failed)

end ScopeNode

/-! ## what a call does -/

/-- What a call makes of the table in memory. -/
def ScopeCall.effect (t : BlobScopes) : ScopeCall → BlobScopes
  | .publishHash scope hash => t.publishHash scope hash
  | .grant scope principal => t.grant scope principal
  | .revokeFromScope scope principals => (t.revokeFromScope scope principals).2
  | .unpublishHash scope hash => (t.unpublishHash scope hash).2
  | .revokePrincipals principals => (t.revokePrincipals principals).2

/-- The scopes whose rows a call writes. -/
def ScopeCall.Covers (scope : String) : ScopeCall → Prop
  | .publishHash s _ | .grant s _ | .revokeFromScope s _ | .unpublishHash s _ => scope = s
  | .revokePrincipals _ => True

/-- One principal is granted in some scope. -/
def BlobScopes.GrantsOneOf (t : BlobScopes) (principals : List String) : Prop :=
  ∃ s, ∃ p ∈ principals, p ∈ (t.orDefault s).grants

section Calls

variable {s : ScopeStore} {c : ScopeCall} {committed : Bool} {n : ScopeNode} {name : String}

/-- What a call does to the store: it fails after the change, writes the rows it
covers, or finds nothing to revoke. -/
inductive StoreCalled (s : ScopeStore) (c : ScopeCall) : Bool → ScopeReply × ScopeStore → Prop where
  | failed : StoreCalled s c false (.failed, { s with inner := c.effect s.inner })
  | wrote {reply : ScopeReply} {rows : BlobScopes} (hreply : reply ≠ .failed)
      (hcovered : ∀ name, c.Covers name → rows.get name = (c.effect s.inner).get name)
      (hrest : ∀ name, ¬ c.Covers name → rows.get name = s.disk.rows.get name) :
      StoreCalled s c true
        (reply, { s with inner := c.effect s.inner, disk := { s.disk with rows } })
  | idle {committed : Bool} (principals : List String) (hcall : c = .revokePrincipals principals)
      (hnone : ¬ s.inner.GrantsOneOf principals) :
      StoreCalled s c committed (.changed false, { s with inner := c.effect s.inner })

/-- A call that covers one scope persists this one. -/
theorem ScopeStore.persistScope_called (toReply : Bool → ScopeReply)
    (hcovers : ∀ n, c.Covers n ↔ n = name) (hfalse : toReply false = .failed)
    (htrue : toReply true ≠ .failed) :
    StoreCalled s c committed
      (({ s with inner := c.effect s.inner }.persistScope committed name).map toReply id) := by
  rw [persistScope, commit]
  cases committed with
  | false =>
      rw [if_neg Bool.false_ne_true, Prod.map_apply, hfalse]
      exact .failed
  | true =>
      rw [if_pos rfl, Prod.map_apply]
      refine .wrote htrue (fun n hn => ?_) (fun n hn => ?_)
      · obtain rfl := (hcovers n).mp hn
        dsimp only
        split
        · next sc hget => rw [BlobScopes.get_put, if_pos rfl, hget]
        · next hget => exact (Finmap.lookup_erase n _).trans hget.symm
      · have hne : n ≠ name := fun h => hn ((hcovers n).mpr h)
        dsimp only
        split
        · rw [BlobScopes.get_put, if_neg hne]
        · exact Finmap.lookup_erase_ne hne

/-- Nothing to revoke in memory: nothing is written, whatever the rows say. -/
theorem ScopeStore.call_revokePrincipals_idle {principals : List String}
    (hnone : ¬ s.inner.GrantsOneOf principals) :
    s.call committed (.revokePrincipals principals) =
      (.changed false, { s with inner := (s.inner.revokePrincipals principals).2 }) := by
  have hchanged : (s.inner.revokePrincipals principals).1 = false := by
    rw [← Bool.not_eq_true]
    exact fun h => hnone (BlobScopes.revokePrincipals_changed.mp h)
  rw [call, revokePrincipals]
  dsimp only
  rw [hchanged, if_neg Bool.false_ne_true]
  rfl

/-- Each call does what is said of it. -/
theorem ScopeStore.called (s : ScopeStore) (c : ScopeCall) (committed : Bool) :
    StoreCalled s c committed (s.call committed c) := by
  cases c with
  | publishHash scope hash =>
      exact persistScope_called .ofWritten (fun _ => Iff.rfl) rfl (by decide)
  | grant scope principal =>
      exact persistScope_called .ofWritten (fun _ => Iff.rfl) rfl (by decide)
  | revokeFromScope scope principals =>
      exact persistScope_called
        (fun written => .ofChanged
          (if written then some (s.inner.revokeFromScope scope principals).1 else none))
        (fun _ => Iff.rfl) rfl (by simp [ScopeReply.ofChanged])
  | unpublishHash scope hash =>
      exact persistScope_called
        (fun written => .ofChanged
          (if written then some (s.inner.unpublishHash scope hash).1 else none))
        (fun _ => Iff.rfl) rfl (by simp [ScopeReply.ofChanged])
  | revokePrincipals principals =>
      by_cases hnone : s.inner.GrantsOneOf principals
      · have hchanged := BlobScopes.revokePrincipals_changed.mpr hnone
        rw [call, revokePrincipals]
        dsimp only
        rw [if_pos hchanged]
        cases committed with
        | false => exact .failed
        | true =>
            exact .wrote (by simp [commit, persist, ScopeReply.ofChanged]) (fun _ _ => rfl)
              (fun _ hn => absurd trivial hn)
      · rw [call_revokePrincipals_idle hnone]
        exact .idle principals rfl hnone

/-- No call takes a scope away. -/
theorem ScopeCall.hasScope_effect {t : BlobScopes} (c : ScopeCall) (h : t.hasScope name = true) :
    (c.effect t).hasScope name = true := by
  cases c with
  | publishHash | grant => exact BlobScopes.hasScope_put h
  | revokeFromScope => exact BlobScopes.hasScope_revokeFromScope h
  | unpublishHash => exact BlobScopes.hasScope_unpublishHash h
  | revokePrincipals => exact BlobScopes.hasScope_revokePrincipals.trans h

end Calls

/-! ## what stays -/

section Stays

variable {s : ScopeStore} {c : ScopeCall} {committed : Bool} {n : ScopeNode} {name : String}
  {disk : ScopeDisk} {event : ScopeEvent} {P : Scope → Prop}

/-- No sidecar will be imported again. -/
def ScopeDisk.Settled (disk : ScopeDisk) : Prop :=
  disk.sidecar = none ∨ ∃ name, disk.rows.hasScope name = true

/-- A store is empty if it has no scope. -/
theorem BlobScopes.isEmpty_iff {t : BlobScopes} :
    t.isEmpty = true ↔ ¬ ∃ name, t.hasScope name = true := by
  rw [isEmpty, decide_eq_true_iff]
  constructor
  · rintro h ⟨name, hname⟩
    rw [hasScope, get, h, Finmap.lookup_empty] at hname
    contradiction
  · intro h
    refine Finmap.ext_lookup fun name => ?_
    rw [Finmap.lookup_empty, ← Option.isNone_iff_eq_none, ← Option.isSome_eq_false_iff,
      ← Bool.not_eq_true]
    exact fun hname => h ⟨name, hname⟩

/-- What opening does: nothing, an import, or a plain read. -/
inductive Opened (disk : ScopeDisk) : ScopeNode → Prop where
  | stays : Opened disk (.down disk)
  | halfway {scopes : BlobScopes} (hempty : disk.rows.isEmpty = true)
      (hsidecar : disk.sidecar = some (some scopes)) :
      Opened disk (.down { disk with rows := scopes })
  | imported {scopes : BlobScopes} (hempty : disk.rows.isEmpty = true)
      (hsidecar : disk.sidecar = some (some scopes)) : Opened disk (.up ⟨scopes, ⟨scopes, none⟩⟩)
  | read (hsettled : disk.Settled) : Opened disk (.up ⟨disk.rows, disk⟩)

/-- An open does what is said of it, whatever faults. -/
theorem ScopeDisk.opened_spec (disk : ScopeDisk) (fault : Option OpenFault) :
    Opened disk (disk.opened fault) := by
  unfold opened
  split
  · exact .stays
  · split
    · next hempty =>
      split
      · next hsidecar => exact .read (.inl hsidecar)
      · exact .stays
      · next scopes hsidecar =>
        split
        · exact .stays
        · split
          · exact .halfway hempty hsidecar
          · exact .imported hempty hsidecar
    · next hempty =>
      rw [BlobScopes.isEmpty_iff, not_not] at hempty
      exact .read (.inr hempty)

/-- A settled disk is read as it is. -/
theorem Opened.settled {n : ScopeNode} (h : Opened disk n) (hd : disk.Settled) :
    n = .down disk ∨ n = .up ⟨disk.rows, disk⟩ := by
  cases h with
  | stays => exact .inl rfl
  | read => exact .inr rfl
  | halfway hempty hsidecar | imported hempty hsidecar =>
      obtain hnone | hsome := hd
      · rw [hnone] at hsidecar
        contradiction
      · exact absurd hsome (BlobScopes.isEmpty_iff.mp hempty)

/-- Memory has a scope for every row, and no sidecar will be imported again. -/
structure ScopeStore.Sound (s : ScopeStore) : Prop where
  rows : ∀ name, s.disk.rows.hasScope name = true → s.inner.hasScope name = true
  settled : s.disk.Settled

def ScopeNode.Sound (n : ScopeNode) : Prop := ∀ s, n = .up s → s.Sound

/-- A call keeps the store sound. -/
theorem StoreCalled.sound {r : ScopeReply × ScopeStore} (h : StoreCalled s c committed r)
    (hs : s.Sound) : r.2.Sound := by
  cases h with
  | failed | idle =>
      exact ⟨fun name hname => c.hasScope_effect (hs.rows name hname), hs.settled⟩
  | wrote hreply hcovered hrest =>
      refine ⟨fun name hname => ?_, hs.settled.imp_right fun ⟨name, hname⟩ => ⟨name, ?_⟩⟩
      · by_cases hn : c.Covers name
        · rwa [BlobScopes.hasScope, hcovered name hn] at hname
        · rw [BlobScopes.hasScope, hrest name hn] at hname
          exact c.hasScope_effect (hs.rows name hname)
      · by_cases hn : c.Covers name
        · rw [BlobScopes.hasScope, hcovered name hn]
          exact c.hasScope_effect (hs.rows name hname)
        · rw [BlobScopes.hasScope, hrest name hn]
          exact hname

/-- What a step of a node does. -/
theorem ScopeNode.step_restart (n : ScopeNode) (fault : Option OpenFault) :
    (n.step (.restart fault)).1 = n.disk.opened fault := by
  rw [step]
  split <;> (next h => exact h.symm)

/-- An open gives a sound store. -/
theorem Opened.sound {n : ScopeNode} (h : Opened disk n) : n.Sound := by
  intro s hs
  cases h with
  | stays => contradiction
  | halfway => contradiction
  | imported => 
      obtain rfl := ScopeNode.up.inj hs
      exact ⟨fun _ h => h, .inl rfl⟩
  | read hsettled =>
      obtain rfl := ScopeNode.up.inj hs
      exact ⟨fun _ h => h, hsettled⟩

/-- Each step keeps the node sound. -/
theorem ScopeNode.Sound.step (hn : n.Sound) : (n.step event).1.Sound := by
  cases event with
  | restart fault =>
      rw [n.step_restart]
      exact (n.disk.opened_spec fault).sound
  | call c committed =>
      cases n with
      | down disk => exact hn
      | up s =>
          intro s' hs'
          obtain rfl := ScopeNode.up.inj hs'
          exact (s.called c committed).sound (hn s rfl)

/-- The rows say so of a scope, and memory says so. -/
structure ScopeNode.Holds (P : Scope → Prop) (name : String) (n : ScopeNode) : Prop where
  settled : n.disk.Settled
  rows : P (n.disk.rows.orDefault name)
  table : ∀ t ∈ n.table, P (t.orDefault name)

/-- Two tables that have the same of a scope agree on it. -/
theorem BlobScopes.orDefault_congr {t t' : BlobScopes} (h : t.get name = t'.get name) :
    t.orDefault name = t'.orDefault name := by
  rw [orDefault, h, orDefault]

/-- A call does to the memory what its effect is, committed or not. -/
theorem StoreCalled.inner {r : ScopeReply × ScopeStore} (h : StoreCalled s c committed r) :
    r.2.inner = c.effect s.inner := by
  cases h <;> rfl

/-- The row of a scope is the one that was there, or the one of the table. -/
theorem StoreCalled.rows {r : ScopeReply × ScopeStore} (h : StoreCalled s c committed r)
    (hrows : P (s.disk.rows.orDefault name)) (hinner : P ((c.effect s.inner).orDefault name)) :
    P (r.2.disk.rows.orDefault name) := by
  cases h with
  | failed | idle => exact hrows
  | wrote hreply hcovered hrest =>
      by_cases hname : c.Covers name
      · rwa [BlobScopes.orDefault_congr (hcovered name hname)]
      · rwa [BlobScopes.orDefault_congr (hrest name hname)]

/-- **The persistence rule**: what memory and rows say of a scope, and no call
takes back in memory, stays said over failures and restarts. -/
theorem ScopeNode.Holds.step (hn : n.Sound) (h : n.Holds P name)
    (heffect : ∀ c committed, event = .call c committed → ∀ t : BlobScopes,
      P (t.orDefault name) → P ((c.effect t).orDefault name)) :
    (n.step event).1.Holds P name := by
  cases event with
  | restart fault =>
      rw [n.step_restart]
      obtain hdown | hup := (n.disk.opened_spec fault).settled h.settled
      · rw [hdown]
        exact ⟨h.settled, h.rows, fun _ ht => absurd ht (Option.not_mem_none _)⟩
      · rw [hup]
        refine ⟨h.settled, h.rows, fun t ht => ?_⟩
        obtain rfl := Option.mem_some_iff.mp ht
        exact h.rows
  | call c committed =>
      cases n with
      | down disk => exact h
      | up s =>
          have heffect : P ((c.effect s.inner).orDefault name) :=
            heffect c committed rfl s.inner (h.table s.inner rfl)
          have hcalled : StoreCalled s c committed (s.call committed c) := s.called c committed
          refine ⟨(hcalled.sound (hn s rfl)).settled, hcalled.rows h.rows heffect, fun t ht => ?_⟩
          obtain rfl := Option.mem_some_iff.mp ht
          exact hcalled.inner ▸ heffect

end Stays

/-! ## durable acknowledgements -/

/-- A call takes a scope from a principal. -/
def ScopeCall.Revokes (scope principal : String) : ScopeCall → Prop
  | .revokeFromScope s principals => scope = s ∧ principal ∈ principals
  | .revokePrincipals principals => principal ∈ principals
  | _ => False

def ScopeEvent.Grants (scope principal : String) (event : ScopeEvent) : Prop :=
  ∃ committed, event = .call (.grant scope principal) committed

def ScopeEvent.Publishes (scope hash : String) (event : ScopeEvent) : Prop :=
  ∃ committed, event = .call (.publishHash scope hash) committed

/-- The node after these events on a disk. -/
def ScopeDisk.after (disk : ScopeDisk) (events : List ScopeEvent) : ScopeNode :=
  final ScopeNode.step (.down disk) events

/-- What a call was acknowledged for holds at the end of the run, unless it was
asked for again; and where every call was acknowledged, memory is what the rows
say. -/
structure ScopeDisk.Durable (disk : ScopeDisk) (events : List ScopeEvent) : Prop where
  revoked : ∀ before c committed after, events = before ++ .call c committed :: after →
    ((disk.after before).step (.call c committed)).2 ≠ .failed →
      ∀ scope principal, c.Revokes scope principal →
        (∀ e ∈ after, ¬ e.Grants scope principal) →
          ∀ t ∈ (disk.after events).table, principal ∉ (t.orDefault scope).grants
  withdrawn : ∀ before scope hash committed after,
    events = before ++ .call (.unpublishHash scope hash) committed :: after →
      ((disk.after before).step (.call (.unpublishHash scope hash) committed)).2 ≠ .failed →
        (∀ e ∈ after, ¬ e.Publishes scope hash) →
          ∀ t ∈ (disk.after events).table, t.isWithdrawn scope hash = true
  stored : (∀ t ∈ trace ScopeNode.step (.down disk) events, t.out = .failed →
      ∃ fault, t.call = .restart fault) →
    ∀ s, disk.after events = .up s → s.inner = s.disk.rows

/-- A revocation from every scope that the rows need is one that memory needs,
and a hash is withdrawn from a scope that is there. -/
def ScopeNode.Meets (n : ScopeNode) : ScopeEvent → Prop
  | .call (.revokePrincipals principals) _ => ∀ s, n = .up s →
      s.disk.rows.GrantsOneOf principals → s.inner.GrantsOneOf principals
  | .call (.unpublishHash scope _) committed => ∀ s, n = .up s →
      committed = true → s.inner.hasScope scope = true
  | _ => True

section Durable

variable {s : ScopeStore} {c : ScopeCall} {committed : Bool} {n : ScopeNode} {name : String}
  {disk : ScopeDisk} {event : ScopeEvent} {P : Scope → Prop}

/-- Nobody is granted but by a grant. -/
theorem ScopeCall.not_mem_grants_effect {t : BlobScopes} {scope principal : String}
    (h : principal ∉ (t.orDefault scope).grants) (hc : c ≠ .grant scope principal) :
    principal ∉ ((c.effect t).orDefault scope).grants := by
  cases c with
  | publishHash s hash =>
      rw [effect, BlobScopes.orDefault_publishHash]
      split <;> exact h
  | grant s p =>
      rw [effect, BlobScopes.orDefault_grant]
      split
      · next hs =>
        subst hs
        rw [Finset.mem_insert, not_or]
        exact ⟨fun hp => hc (hp ▸ rfl), h⟩
      · exact h
  | revokeFromScope s ps =>
      rw [effect, BlobScopes.orDefault_revokeFromScope]
      split
      · exact fun hmem => h (Finset.mem_sdiff.mp hmem).1
      · exact h
  | unpublishHash s hash =>
      rw [effect, BlobScopes.orDefault_unpublishHash]
      split <;> exact h
  | revokePrincipals ps =>
      rw [effect, BlobScopes.orDefault_revokePrincipals]
      exact fun hmem => h (Finset.mem_sdiff.mp hmem).1

/-- Who is revoked is not granted. -/
theorem ScopeCall.Revokes.not_mem {t : BlobScopes} {scope principal : String}
    (h : c.Revokes scope principal) : principal ∉ ((c.effect t).orDefault scope).grants := by
  cases c with
  | publishHash | grant | unpublishHash => exact absurd h id
  | revokeFromScope s ps =>
      rw [effect, BlobScopes.orDefault_revokeFromScope, if_pos h.1]
      exact fun hmem => (Finset.mem_sdiff.mp hmem).2 (List.mem_toFinset.mpr h.2)
  | revokePrincipals ps =>
      rw [effect, BlobScopes.orDefault_revokePrincipals]
      exact fun hmem => (Finset.mem_sdiff.mp hmem).2 (List.mem_toFinset.mpr h)

/-- A withdrawal is lifted by a publish alone. -/
theorem ScopeCall.mem_withdrawn_effect {t : BlobScopes} {scope hash : String}
    (h : hash ∈ (t.orDefault scope).withdrawn) (hc : c ≠ .publishHash scope hash) :
    hash ∈ ((c.effect t).orDefault scope).withdrawn := by
  cases c with
  | publishHash s g =>
      rw [effect, BlobScopes.orDefault_publishHash]
      split
      · next hs =>
        subst hs
        exact Finset.mem_erase.mpr ⟨fun hg => hc (hg ▸ rfl), h⟩
      · exact h
  | grant s p =>
      rw [effect, BlobScopes.orDefault_grant]
      split <;> exact h
  | revokeFromScope s ps =>
      rw [effect, BlobScopes.orDefault_revokeFromScope]
      split <;> exact h
  | unpublishHash s g =>
      rw [effect, BlobScopes.orDefault_unpublishHash]
      split
      · exact Finset.mem_insert_of_mem h
      · exact h
  | revokePrincipals ps =>
      rw [effect, BlobScopes.orDefault_revokePrincipals]
      exact h

/-- A revoke covers the scopes that it takes from. -/
theorem ScopeCall.Revokes.covers {scope principal : String} (h : c.Revokes scope principal) :
    c.Covers scope := by
  cases c with
  | publishHash | grant | unpublishHash => exact absurd h id
  | revokeFromScope s ps => exact h.1
  | revokePrincipals ps => trivial

/-- An acknowledged call leaves what memory says in the rows it covers. -/
theorem StoreCalled.acked {r : ScopeReply × ScopeStore} (h : StoreCalled s c committed r)
    (hreply : r.1 ≠ .failed) (hcovers : c.Covers name)
    (hP : P ((c.effect s.inner).orDefault name))
    (hidle : ∀ principals, c = .revokePrincipals principals → ¬ s.inner.GrantsOneOf principals →
      P (s.disk.rows.orDefault name)) : P (r.2.disk.rows.orDefault name) := by
  cases h with
  | failed => exact absurd rfl hreply
  | wrote _ hcovered _ => rwa [BlobScopes.orDefault_congr (hcovered name hcovers)]
  | idle principals hcall hnone => exact hidle principals hcall hnone

theorem ScopeDisk.after_append (disk : ScopeDisk) (es fs : List ScopeEvent) :
    disk.after (es ++ fs) = final ScopeNode.step (disk.after es) fs := final_append _ es fs

/-- A node is sound after every run. -/
theorem ScopeDisk.after_sound (disk : ScopeDisk) (es : List ScopeEvent) : (disk.after es).Sound :=
  final_invariant (fun _ _ _ hn => hn.step) (fun _ h => nomatch h)

/-- What an acknowledged call said stays said until it is taken back. -/
theorem ScopeDisk.acked_stays {before after : List ScopeEvent}
    (hreply : ((disk.after before).step (.call c committed)).2 ≠ .failed)
    (hcovers : c.Covers name)
    (hP : ∀ s, disk.after before = .up s → P ((c.effect s.inner).orDefault name))
    (hidle : ∀ s principals, disk.after before = .up s → c = .revokePrincipals principals →
      ¬ s.inner.GrantsOneOf principals → P (s.disk.rows.orDefault name))
    (hafter : ∀ c committed, .call c committed ∈ after → ∀ t : BlobScopes,
      P (t.orDefault name) → P ((c.effect t).orDefault name)) :
    ∀ t ∈ (disk.after (before ++ .call c committed :: after)).table, P (t.orDefault name) := by
  have hsound := disk.after_sound before
  rw [disk.after_append, final_cons]
  generalize disk.after before = n at *
  cases n with
  | down d => exact absurd rfl hreply
  | up s =>
      have hcalled : StoreCalled s c committed (s.call committed c) := s.called c committed
      have hinner : P ((c.effect s.inner).orDefault name) := hP s rfl
      have hstart : (ScopeNode.up (s.call committed c).2).Holds P name := by
        refine ⟨(hcalled.sound (hsound s rfl)).settled,
          hcalled.acked hreply hcovers hinner fun ps => hidle s ps rfl, fun t ht => ?_⟩
        obtain rfl := Option.mem_some_iff.mp ht
        exact hcalled.inner ▸ hinner
      have hend : (final ScopeNode.step (.up (s.call committed c).2) after).Sound ∧
          (final ScopeNode.step (.up (s.call committed c).2) after).Holds P name := by
        refine final_invariant (I := fun n : ScopeNode => n.Sound ∧ n.Holds P name)
          (fun n e he hn => ?_)
          ⟨fun s' hs' => ?_, hstart⟩
        · refine ⟨hn.1.step, hn.2.step hn.1 fun c committed hcall => ?_⟩
          exact hafter c committed (hcall ▸ he)
        · obtain rfl := ScopeNode.up.inj hs'
          exact hcalled.sound (hsound s rfl)
      exact hend.2.table

/-- A call leaves the scopes that it does not cover. -/
theorem ScopeCall.get_effect_of_not_covers {t : BlobScopes} (h : ¬ c.Covers name) :
    (c.effect t).get name = t.get name := by
  cases c with
  | publishHash | grant => exact BlobScopes.get_put.trans (if_neg h)
  | revokeFromScope s ps =>
      rw [effect, BlobScopes.revokeFromScope]
      split
      · rfl
      · exact BlobScopes.get_put.trans (if_neg h)
  | unpublishHash s hash =>
      rw [effect, BlobScopes.unpublishHash]
      split
      · rfl
      · exact BlobScopes.get_put.trans (if_neg h)
  | revokePrincipals ps => exact absurd trivial h

/-- A revocation that finds nothing changes nothing. -/
theorem BlobScopes.revokePrincipals_idle {t : BlobScopes} {principals : List String}
    (h : ¬ t.GrantsOneOf principals) : (t.revokePrincipals principals).2 = t := by
  refine ext_get fun s => ?_
  rw [get, revokePrincipals, lookup_mapValues]
  cases hget : t.scopes.lookup s with
  | none => exact hget.symm
  | some sc =>
      have hdisjoint : sc.grants \ principals.toFinset = sc.grants := by
        rw [Finset.sdiff_eq_self_iff_disjoint, Finset.disjoint_right]
        intro p hp hmem
        refine h ⟨s, p, List.mem_toFinset.mp hp, ?_⟩
        rwa [orDefault_of_get hget]
      rw [Option.map_some, Scope.revoke_eq, hdisjoint]
      exact hget.symm

/-- Where memory and disk agree, a call that does not fail leaves them so. -/
theorem StoreCalled.stored {r : ScopeReply × ScopeStore} (h : StoreCalled s c committed r)
    (hreply : r.1 ≠ .failed) (hs : s.inner = s.disk.rows) : r.2.inner = r.2.disk.rows := by
  cases h with
  | failed => exact absurd rfl hreply
  | wrote _ hcovered hrest =>
      refine BlobScopes.ext_get fun name => ?_
      by_cases hname : c.Covers name
      · exact (hcovered name hname).symm
      · exact (ScopeCall.get_effect_of_not_covers hname).trans (hs ▸ (hrest name hname).symm)
  | idle principals hcall hnone =>
      subst hcall
      exact (BlobScopes.revokePrincipals_idle hnone).trans hs

/-- After an open memory and disk agree. -/
theorem Opened.stored {n : ScopeNode} (h : Opened disk n) :
    ∀ s, n = .up s → s.inner = s.disk.rows := by
  intro s hs
  cases h with
  | stays | halfway => contradiction
  | imported | read =>
      obtain rfl := ScopeNode.up.inj hs
      rfl

/-- A run that meets the condition is durable. -/
theorem durable_of_meets {events : List ScopeEvent}
    (hmeets : ∀ t ∈ trace ScopeNode.step (.down disk) events, t.pre.Meets t.call) :
    disk.Durable events where
  revoked := by
    rintro before c committed after rfl hreply scope principal hrevokes hafter
    refine disk.acked_stays (P := fun sc => principal ∉ sc.grants) hreply hrevokes.covers
      (fun _ _ => hrevokes.not_mem) (fun s ps hs hc hnone => ?_) (fun c' committed' hc' t ht => ?_)
    · have hmeet : (disk.after before).Meets (.call c committed) := by
        refine hmeets (callAt ScopeNode.step (disk.after before) (.call c committed)) ?_
        rw [trace_append, trace_cons]
        exact List.mem_append_right _ List.mem_cons_self
      subst hc
      have hrows : ¬ s.disk.rows.GrantsOneOf ps := fun h => hnone (hmeet s hs h)
      exact fun hmem => hrows ⟨scope, principal, hrevokes, hmem⟩
    · refine c'.not_mem_grants_effect ht ?_
      rintro rfl
      exact hafter _ hc' ⟨committed', rfl⟩
  withdrawn := by
    rintro before scope hash committed after rfl hreply hafter t ht
    rw [BlobScopes.isWithdrawn_iff]
    refine disk.acked_stays (P := fun sc => hash ∈ sc.withdrawn) hreply rfl (fun s hs => ?_)
      (fun _ _ _ hc => nomatch hc) (fun c' committed' hc' t ht => ?_) t ht
    · have hmeet : (disk.after before).Meets (.call (.unpublishHash scope hash) committed) := by
        refine hmeets (callAt ScopeNode.step (disk.after before) _) ?_
        rw [trace_append, trace_cons]
        exact List.mem_append_right _ List.mem_cons_self
      cases committed with
      | false => exact absurd (by rw [hs]; rfl) hreply
      | true =>
          rw [ScopeCall.effect, BlobScopes.orDefault_unpublishHash, if_pos ⟨rfl, hmeet s hs rfl⟩]
          exact Finset.mem_insert_self hash _
    · refine c'.mem_withdrawn_effect ht ?_
      rintro rfl
      exact hafter _ hc' ⟨committed', rfl⟩
  stored hacked := by
    refine trace_guarded (I := fun n : ScopeNode => ∀ s, n = .up s → s.inner = s.disk.rows)
      (fun n e hq hn => ?_) (fun _ h => nomatch h) hacked
    cases e with
    | restart fault =>
        rw [n.step_restart]
        exact (n.disk.opened_spec fault).stored
    | call c committed =>
        cases n with
        | down d => exact hn
        | up s =>
            intro s' hs'
            obtain rfl := ScopeNode.up.inj hs'
            refine (s.called c committed).stored (fun hfailed => ?_) (hn s rfl)
            obtain ⟨fault, hcall⟩ := hq hfailed
            contradiction

/-- After a restart the rows decide. -/
theorem ScopeDisk.opened_of_row {scope : String} (h : disk.rows.hasScope scope = true) :
    disk.opened none = .up ⟨disk.rows, disk⟩ := by
  have hempty : ¬ disk.rows.isEmpty = true := fun he => BlobScopes.isEmpty_iff.mp he ⟨scope, h⟩
  rw [opened, if_neg (by decide), if_neg hempty]

/-- A step that does not meet the condition breaks the law, at once or after a
restart. -/
theorem meets_of_durable {before : List ScopeEvent}
    (hdurable : disk.Durable (before ++ [event]))
    (hrestart : disk.Durable (before ++ [event] ++ [.restart none])) :
    (disk.after before).Meets event := by
  cases event with
  | restart fault => trivial
  | call c committed =>
      cases c with
      | publishHash | grant | revokeFromScope => trivial
      | unpublishHash scope hash =>
          rintro s hs rfl
          by_contra habsent
          rw [Bool.not_eq_true] at habsent
          have hget : s.inner.get scope = none :=
            Option.isNone_iff_eq_none.mp (Option.isSome_eq_false_iff.mp habsent)
          have hinner : (s.inner.unpublishHash scope hash).2 = s.inner := by
            rw [BlobScopes.unpublishHash, hget]
          have hwithdrawn := hdurable.withdrawn before scope hash true [] rfl
            (by rw [hs]; simp [ScopeNode.step, ScopeStore.call, ScopeStore.unpublishHash,
              ScopeStore.persistScope, ScopeStore.commit, ScopeReply.ofChanged])
            (fun _ h => absurd h List.not_mem_nil) s.inner
            (by rw [disk.after_append, hs]; exact congrArg some hinner)
          rw [BlobScopes.isWithdrawn_iff, BlobScopes.orDefault_of_not_hasScope habsent]
            at hwithdrawn
          exact absurd hwithdrawn (Finset.notMem_empty hash)
      | revokePrincipals ps =>
          rintro s hs ⟨scope, p, hp, hmem⟩
          by_contra hnone
          have hcall : s.call committed (.revokePrincipals ps) =
              (.changed false, { s with inner := (s.inner.revokePrincipals ps).2 }) :=
            ScopeStore.call_revokePrincipals_idle hnone
          have hhas : s.disk.rows.hasScope scope = true := by
            by_contra habsent
            rw [Bool.not_eq_true] at habsent
            rw [BlobScopes.orDefault_of_not_hasScope habsent] at hmem
            exact absurd hmem (Finset.notMem_empty p)
          refine hrestart.revoked before (.revokePrincipals ps) committed [.restart none]
            (List.append_assoc ..) ?_ scope p hp ?_ s.disk.rows ?_ hmem
          · rw [hs, ScopeNode.step]
            dsimp only
            rw [hcall]
            intro hfailed
            contradiction
          · rintro e he ⟨committed', rfl⟩
            exact ScopeEvent.noConfusion (List.mem_singleton.mp he)
          · have hdisk : ((ScopeNode.up s).step (.call (.revokePrincipals ps) committed)).1.disk =
                s.disk := by
              rw [ScopeNode.step]
              dsimp only
              rw [hcall]
              rfl
            rw [disk.after_append, disk.after_append, hs, final_cons, ScopeNode.step_restart]
            change _ ∈ (ScopeDisk.opened (((ScopeNode.up s).step _).1.disk) none).table
            rw [hdisk, ScopeDisk.opened_of_row hhas]
            exact Option.mem_some_self s.disk.rows

/-- **Acknowledged revocations are durable** in exactly the runs whose steps all
meet the condition: in every state they reach, and after a restart from it. -/
theorem meets_iff_durable (disk : ScopeDisk) (events : List ScopeEvent) :
    (∀ t ∈ trace ScopeNode.step (.down disk) events, t.pre.Meets t.call) ↔
      ∀ es, es <+: events → disk.Durable es ∧ disk.Durable (es ++ [.restart none]) := by
  constructor
  · rintro hmeets es ⟨rest, rfl⟩
    rw [trace_append] at hmeets
    have hes := fun t ht => hmeets t (List.mem_append_left _ ht)
    refine ⟨durable_of_meets hes, durable_of_meets fun t ht => ?_⟩
    rw [trace_append] at ht
    obtain ht | ht := List.mem_append.mp ht
    · exact hes t ht
    · obtain rfl := List.mem_singleton.mp ht
      trivial
  · intro hdurable t ht
    obtain ⟨before, event, after, rfl, rfl⟩ := split_of_mem_trace ht
    have hprefix : before ++ [event] <+: before ++ event :: after :=
      ⟨after, by rw [List.append_assoc, List.singleton_append]⟩
    exact meets_of_durable (hdurable _ hprefix).1 (hdurable _ hprefix).2

end Durable

namespace FailedRevocation

def freshDisk : ScopeDisk := ⟨.empty, none⟩

/-- A revocation whose transaction fails. -/
def failed : List ScopeEvent :=
  [.restart none, .call (.grant "notes" "eid:bob") true,
    .call (.revokePrincipals ["eid:bob"]) false]

/-- Its retry is acknowledged, and undone by the restart. -/
def retried : List ScopeEvent :=
  failed ++ [.call (.revokePrincipals ["eid:bob"]) true, .restart none]

end FailedRevocation

theorem retried_revocation_undone :
    ¬ FailedRevocation.freshDisk.Durable FailedRevocation.retried := by
  intro hdurable
  have hrevoked := hdurable.revoked FailedRevocation.failed (.revokePrincipals ["eid:bob"]) true
    [.restart none] rfl (by decide +kernel) "notes" "eid:bob" List.mem_cons_self
    (fun e he ⟨committed, hcall⟩ => by
      rw [List.mem_singleton.mp he] at hcall
      contradiction)
  have hgranted : ¬ ∀ t ∈ (FailedRevocation.freshDisk.after FailedRevocation.retried).table,
      "eid:bob" ∉ (t.orDefault "notes").grants := by
    decide +kernel
  exact hgranted hrevoked

end Mcpmesh
