import Mcpmesh.Dial.Refusal
import Mcpmesh.Lib.Keyed
import Mcpmesh.Lib.Run

/-!
# Mcpmesh.Dial.Hooks

The endpoint hooks of outbound dials and the close pass of a revocation
(`node/src/daemon/hooks.rs`).

A dial is asked about before it connects, registers its connection after the
handshake, and is asked about once more; a revocation writes first and then
runs its pass: the registered ids, a refusal read of each, the close.  The code
of each is cut at its awaits and locks, and the steps of all interleave.

The two orders meet in `Covers`: from its snapshot on, a pass still holds the
device or no connection to it has passed its second check and is open.
-/

namespace Mcpmesh.Hooks

open Dial Lib

/-! ## the registry -/

/-- A registered connection, held weakly: the connection of the dial `dial`. -/
structure Entry where
  key : Nat
  id : EndpointId
  dial : Nat

/-- Every live non-pairing connection this endpoint dialled. -/
structure PeerConns where
  inner : Keyed Entry.key
  seq : Nat

namespace PeerConns

variable (conns : PeerConns)

/-- `insert`, whose key is the `seq` it found. -/
def insert (id : EndpointId) (dial : Nat) : PeerConns :=
  { inner := conns.inner.insert ⟨conns.seq, id, dial⟩, seq := conns.seq + 1 }

def remove (id : EndpointId) (key : Nat) : PeerConns :=
  { conns with inner := conns.inner.retain fun e => !(e.id = id && e.key = key) }

def remoteIds : List EndpointId := (conns.inner.items.map (·.id)).eraseDups

/-- The dials whose connections `close_ids` closes.  A handle that no longer
upgrades is of a connection that is closed already. -/
def closeIds (ids : List EndpointId) : List Nat :=
  (conns.inner.items.filter (·.id ∈ ids)).map (·.dial)

variable {conns}

/-- The tracked ids are those of the entries. -/
theorem mem_remoteIds {id : EndpointId} :
    id ∈ conns.remoteIds ↔ ∃ e ∈ conns.inner.items, e.id = id := by
  rw [remoteIds, List.mem_eraseDups, List.mem_map]

/-- What is closed are the dials of the named ids. -/
theorem mem_closeIds {ids : List EndpointId} {x : Nat} :
    x ∈ conns.closeIds ids ↔ ∃ e ∈ conns.inner.items, e.id ∈ ids ∧ e.dial = x := by
  simp only [closeIds, List.mem_map, List.mem_filter, decide_eq_true_iff, and_assoc]

/-- A removal takes out the entry of that id and key only. -/
theorem mem_remove {id : EndpointId} {key : Nat} {e : Entry} :
    e ∈ (conns.remove id key).inner.items ↔ e ∈ conns.inner.items ∧ (e.id = id → e.key ≠ key) := by
  simp only [remove, Keyed.mem_retain, Bool.not_eq_true', Bool.and_eq_false_imp,
    decide_eq_true_iff, decide_eq_false_iff_not, ne_eq]

end PeerConns

/-! ## dials and passes -/

def alpnPair : String := "mcpmesh/pair/1"

/-- Where the hooks are with a dial. -/
inductive Phase where
  | vetoed
  | connecting
  /-- Registered under `key`, not asked about again yet. -/
  | registered (key : Nat)
  /-- The second check has answered. -/
  | rechecked (key : Nat) (refused : Bool)
  /-- The answer is to reject, the entry is gone. -/
  | rejecting
  | rejected
  | handedBack (key : Option Nat)
  deriving DecidableEq

namespace Phase

/-- The registration of a dial that is not rejected. -/
def key : Phase → Option Nat
  | .registered key | .rechecked key _ => some key
  | .handedBack key => key
  | .vetoed | .connecting | .rejecting | .rejected => none

/-- The hooks registered the connection. -/
def WasRegistered : Phase → Prop
  | .registered _ | .rechecked _ _ | .rejecting | .rejected | .handedBack (some _) => True
  | .vetoed | .connecting | .handedBack none => False

/-- The second check let the connection through. -/
def Passed : Phase → Prop
  | .rechecked _ false | .handedBack (some _) => True
  | _ => False

/-- The second check is still to answer or has refused. -/
def PendingReject : Phase → Prop
  | .registered _ | .rechecked _ true | .rejecting => True
  | _ => False

/-- The second check has refused. -/
def Refused : Phase → Prop
  | .rechecked _ true | .rejecting => True
  | _ => False

/-- A dial that passed the hook has its key. -/
theorem key_of_passed {phase : Phase} (h : phase.Passed) : ∃ key, phase.key = some key := by
  cases phase with
  | rechecked key refused => exact ⟨key, rfl⟩
  | handedBack key =>
      cases key with
      | none => exact h.elim
      | some key => exact ⟨key, rfl⟩
  | vetoed | connecting | registered | rejecting | rejected => exact h.elim

end Phase

structure Outgoing where
  id : EndpointId
  alpn : String
  phase : Phase
  closed : Bool

/-- A close pass: the ids it has yet to read and those it found refused. -/
inductive Pass where
  | reading (todo refused : List EndpointId)
  | finished
  /-- The task that reads failed; nothing is closed. -/
  | failed

/-- The hooks with the gate they are armed with, the dials and the passes. -/
structure MeshHooks where
  armed : Bool
  store : PeerStore
  view : Option RosterView
  conns : PeerConns
  dials : Nat → Option Outgoing
  passes : Nat → Option Pass

inductive Event where
  /-- A dial starts and `before_connect` answers; `joined` says whether the task
  that reads came back. -/
  | beforeConnect (x : Nat) (id : EndpointId) (alpn : String) (joined : Bool)
  /-- The handshake is done and `after_handshake` has registered. -/
  | handshake (x : Nat)
  | recheck (x : Nat) (joined : Bool)
  /-- `after_handshake` answers. -/
  | answer (x : Nat)
  /-- The endpoint closes a connection it is told to reject. -/
  | reject (x : Nat)
  | watcher (x : Nat)
  /-- The connection closes on other grounds. -/
  | close (x : Nat)
  | arm
  /-- A revocation, its undoing, or any other change of what is refused. -/
  | write (store : PeerStore) (view : Option RosterView)
  | snapshot (p : Nat)
  | readRefusal (p : Nat) (id : EndpointId)
  | closePass (p : Nat)
  | failPass (p : Nat)

namespace MeshHooks

variable (s : MeshHooks)

/-- `MeshHooks::refuses`: unarmed refuses, and so does a task that failed. -/
def refuses (joined : Bool) (id : EndpointId) : Bool :=
  !joined || !s.armed || refusedBy s.store s.view id

def setDial (x : Nat) (dial : Outgoing) : MeshHooks :=
  { s with dials := Function.update s.dials x (some dial) }

def setPass (p : Nat) (pass : Pass) : MeshHooks :=
  { s with passes := Function.update s.passes p (some pass) }

/-- `close_ids` over the refused ids of a pass. -/
def closeRefused (refused : List EndpointId) : MeshHooks :=
  let closing := s.conns.closeIds refused
  { s with
    dials := fun x => (s.dials x).map fun dial =>
      if x ∈ closing then { dial with closed := true } else dial }

def step : Event → Option MeshHooks
  | .beforeConnect x id alpn joined =>
      match s.dials x with
      | some _ => none
      | none =>
          if alpn = alpnPair || !s.refuses joined id then
            some (s.setDial x { id, alpn, phase := .connecting, closed := false })
          else some (s.setDial x { id, alpn, phase := .vetoed, closed := false })
  | .handshake x =>
      match s.dials x with
      | some ⟨id, alpn, .connecting, closed⟩ =>
          if alpn = alpnPair then some (s.setDial x ⟨id, alpn, .handedBack none, closed⟩)
          else
            some ({ s with conns := s.conns.insert id x }.setDial x
              ⟨id, alpn, .registered s.conns.seq, closed⟩)
      | _ => none
  | .recheck x joined =>
      match s.dials x with
      | some ⟨id, alpn, .registered key, closed⟩ =>
          some (s.setDial x ⟨id, alpn, .rechecked key (s.refuses joined id), closed⟩)
      | _ => none
  | .answer x =>
      match s.dials x with
      | some ⟨id, alpn, .rechecked key true, closed⟩ =>
          some ({ s with conns := s.conns.remove id key }.setDial x ⟨id, alpn, .rejecting, closed⟩)
      | some ⟨id, alpn, .rechecked key false, closed⟩ =>
          some (s.setDial x ⟨id, alpn, .handedBack (some key), closed⟩)
      | _ => none
  | .reject x =>
      match s.dials x with
      | some ⟨id, alpn, .rejecting, _⟩ => some (s.setDial x ⟨id, alpn, .rejected, true⟩)
      | _ => none
  | .watcher x =>
      match s.dials x with
      | some ⟨id, _, phase, true⟩ =>
          phase.key.map fun key => { s with conns := s.conns.remove id key }
      | _ => none
  | .close x => (s.dials x).map fun dial => s.setDial x { dial with closed := true }
  | .arm => some { s with armed := true }
  | .write store view => some { s with store, view }
  | .snapshot p =>
      match s.passes p with
      | some _ => none
      | none =>
          match s.conns.remoteIds with
          | [] => some (s.setPass p .finished)
          | ids => some (s.setPass p (.reading ids []))
  | .readRefusal p id =>
      match s.passes p with
      | some (.reading todo refused) =>
          if id ∈ todo then
            if refusedBy s.store s.view id then
              some (s.setPass p (.reading (todo.erase id) (id :: refused)))
            else some (s.setPass p (.reading (todo.erase id) refused))
          else none
      | _ => none
  | .closePass p =>
      match s.passes p with
      | some (.reading [] refused) => some ((s.closeRefused refused).setPass p .finished)
      | _ => none
  | .failPass p =>
      match s.passes p with
      | some (.reading _ _) => some (s.setPass p .failed)
      | _ => none

/-- An endpoint without dials, its hooks not armed yet. -/
def init (store : PeerStore) (view : Option RosterView) : MeshHooks :=
  { armed := false, store, view, conns := { inner := .empty, seq := 0 }, dials := fun _ => none,
    passes := fun _ => none }

/-- A state of some interleaving of dials, writes and passes. -/
def Reachable (s : MeshHooks) : Prop :=
  ∃ store view events, run step (init store view) events = some s

variable {s}

/-- Setting one dial leaves the others. -/
@[simp] theorem dials_setDial {x y : Nat} {dial : Outgoing} :
    (s.setDial x dial).dials y = if y = x then some dial else s.dials y :=
  Function.update_apply s.dials x (some dial) y

/-- Setting one pass leaves the others. -/
@[simp] theorem passes_setPass {p q : Nat} {pass : Pass} :
    (s.setPass p pass).passes q = if q = p then some pass else s.passes q :=
  Function.update_apply s.passes p (some pass) q

/-! ### what a step does -/

/-- What a step does to the dial `y`, from its record before to its record
after. -/
inductive Went (s : MeshHooks) (y : Nat) : Event → Option Outgoing → Outgoing → Prop where
  | asked (id : EndpointId) (alpn : String) (joined : Bool) (phase : Phase)
      (hphase : phase = .connecting ∨ phase = .vetoed) :
      Went s y (.beforeConnect y id alpn joined) none ⟨id, alpn, phase, false⟩
  | paired (id : EndpointId) (alpn : String) (closed : Bool) :
      Went s y (.handshake y) (some ⟨id, alpn, .connecting, closed⟩)
        ⟨id, alpn, .handedBack none, closed⟩
  | registered (id : EndpointId) (alpn : String) (closed : Bool) :
      Went s y (.handshake y) (some ⟨id, alpn, .connecting, closed⟩)
        ⟨id, alpn, .registered s.conns.seq, closed⟩
  | rechecked (id : EndpointId) (alpn : String) (key : Nat) (closed joined : Bool) :
      Went s y (.recheck y joined) (some ⟨id, alpn, .registered key, closed⟩)
        ⟨id, alpn, .rechecked key (s.refuses joined id), closed⟩
  | rejecting (id : EndpointId) (alpn : String) (key : Nat) (closed : Bool) :
      Went s y (.answer y) (some ⟨id, alpn, .rechecked key true, closed⟩)
        ⟨id, alpn, .rejecting, closed⟩
  | rejected (id : EndpointId) (alpn : String) (closed : Bool) :
      Went s y (.reject y) (some ⟨id, alpn, .rejecting, closed⟩) ⟨id, alpn, .rejected, true⟩
  | handedBack (id : EndpointId) (alpn : String) (key : Nat) (closed : Bool) :
      Went s y (.answer y) (some ⟨id, alpn, .rechecked key false, closed⟩)
        ⟨id, alpn, .handedBack (some key), closed⟩
  | closed (dial : Outgoing) : Went s y (.close y) (some dial) { dial with closed := true }
  | cut (p : Nat) (refused : List EndpointId) (dial : Outgoing)
      (hpass : s.passes p = some (.reading [] refused)) (hcut : y ∈ s.conns.closeIds refused) :
      Went s y (.closePass p) (some dial) { dial with closed := true }

/-- What a step does to the pass `q`. -/
inductive PassWent (s : MeshHooks) (q : Nat) : Event → Option Pass → Pass → Prop where
  | nobody (h : s.conns.remoteIds = []) : PassWent s q (.snapshot q) none .finished
  | snapshot : PassWent s q (.snapshot q) none (.reading s.conns.remoteIds [])
  | refused (id : EndpointId) (todo refused : List EndpointId)
      (h : refusedBy s.store s.view id = true) :
      PassWent s q (.readRefusal q id) (some (.reading todo refused))
        (.reading (todo.erase id) (id :: refused))
  | kept (id : EndpointId) (todo refused : List EndpointId)
      (h : refusedBy s.store s.view id = false) :
      PassWent s q (.readRefusal q id) (some (.reading todo refused))
        (.reading (todo.erase id) refused)
  | closed (refused : List EndpointId) :
      PassWent s q (.closePass q) (some (.reading [] refused)) .finished
  | failed (todo refused : List EndpointId) :
      PassWent s q (.failPass q) (some (.reading todo refused)) .failed

/-- A step, by what it does to the registry. -/
inductive Stepped (s : MeshHooks) : Event → MeshHooks → Prop where
  | start {x : Nat} {e : Event} {dial : Outgoing} (went : Went s x e (s.dials x) dial)
      (hfree : s.dials x = none) (hkey : dial.phase.key = none)
      (hnot : dial.phase ≠ .rejected) : Stepped s e (s.setDial x dial)
  | keep {x : Nat} {e : Event} {old dial : Outgoing} (went : Went s x e (s.dials x) dial)
      (hx : s.dials x = some old) (hid : dial.id = old.id)
      (hkey : dial.phase.key = old.phase.key) (hopen : dial.closed = false → old.closed = false)
      (hrejected : dial.phase = .rejected → dial.closed = true) : Stepped s e (s.setDial x dial)
  | register {x : Nat} {id : EndpointId} {alpn : String} {closed : Bool}
      (hx : s.dials x = some ⟨id, alpn, .connecting, closed⟩) :
      Stepped s (.handshake x) ({ s with conns := s.conns.insert id x }.setDial x
        ⟨id, alpn, .registered s.conns.seq, closed⟩)
  | refuse {x : Nat} {id : EndpointId} {alpn : String} {key : Nat} {closed : Bool}
      (hx : s.dials x = some ⟨id, alpn, .rechecked key true, closed⟩) :
      Stepped s (.answer x) ({ s with conns := s.conns.remove id key }.setDial x
        ⟨id, alpn, .rejecting, closed⟩)
  | watcher {x : Nat} {dial : Outgoing} {key : Nat} (hx : s.dials x = some dial)
      (hkey : dial.phase.key = some key) (hclosed : dial.closed = true) :
      Stepped s (.watcher x) { s with conns := s.conns.remove dial.id key }
  | pass {p : Nat} {e : Event} {pass : Pass} (went : PassWent s p e (s.passes p) pass) :
      Stepped s e (s.setPass p pass)
  | closePass {p : Nat} {refused : List EndpointId}
      (hp : s.passes p = some (.reading [] refused)) :
      Stepped s (.closePass p) ((s.closeRefused refused).setPass p .finished)
  | arm : Stepped s .arm { s with armed := true }
  | write {store : PeerStore} {view : Option RosterView} :
      Stepped s (.write store view) { s with store, view }

section Inversion

variable {s' : MeshHooks} {e : Event}

/-- Each step is one of the listed ones. -/
theorem stepped_of_step (h : step s e = some s') : Stepped s e s' := by
  cases e with
  | beforeConnect x id alpn joined =>
      rw [step] at h
      split at h
      · contradiction
      · rename_i hx
        split at h
        · rw [← Option.some.inj h]
          exact .start (hx ▸ .asked id alpn joined .connecting (.inl rfl)) hx rfl (by simp)
        · rw [← Option.some.inj h]
          exact .start (hx ▸ .asked id alpn joined .vetoed (.inr rfl)) hx rfl (by simp)
  | handshake x =>
      rw [step] at h
      split at h
      · rename_i id alpn closed hx
        split at h
        · rw [← Option.some.inj h]
          exact .keep (hx ▸ .paired id alpn closed) hx rfl rfl (fun hc => hc) (by simp)
        · rw [← Option.some.inj h]
          exact .register hx
      · contradiction
  | recheck x joined =>
      rw [step] at h
      split at h
      · rename_i id alpn key closed hx
        rw [← Option.some.inj h]
        exact .keep (hx ▸ .rechecked id alpn key closed joined) hx rfl rfl (fun hc => hc) (by simp)
      · contradiction
  | answer x =>
      rw [step] at h
      split at h
      · rename_i id alpn key closed hx
        rw [← Option.some.inj h]
        exact .refuse hx
      · rename_i id alpn key closed hx
        rw [← Option.some.inj h]
        exact .keep (hx ▸ .handedBack id alpn key closed) hx rfl rfl (fun hc => hc) (by simp)
      · contradiction
  | reject x =>
      rw [step] at h
      split at h
      · rename_i id alpn closed hx
        rw [← Option.some.inj h]
        exact .keep (hx ▸ .rejected id alpn closed) hx rfl rfl (fun hc => by contradiction)
          (fun _ => rfl)
      · contradiction
  | watcher x =>
      rw [step] at h
      split at h
      · rename_i id alpn phase hx
        obtain ⟨key, hkey, rfl⟩ := Option.map_eq_some_iff.mp h
        exact .watcher hx hkey rfl
      · contradiction
  | close x =>
      obtain ⟨dial, hx, rfl⟩ := Option.map_eq_some_iff.mp h
      exact .keep (hx ▸ .closed dial) hx rfl rfl (fun hc => by contradiction) (fun _ => rfl)
  | arm =>
      rw [← Option.some.inj h]
      exact .arm
  | write store view =>
      rw [← Option.some.inj h]
      exact .write
  | snapshot p =>
      rw [step] at h
      split at h
      · contradiction
      · rename_i hp
        split at h
        · rename_i hids
          rw [← Option.some.inj h]
          exact .pass (hp ▸ .nobody hids)
        · rw [← Option.some.inj h]
          exact .pass (hp ▸ .snapshot)
  | readRefusal p id =>
      rw [step] at h
      split at h
      · rename_i todo refused hp
        split at h
        · split at h
          · rename_i hrefused
            rw [← Option.some.inj h]
            exact .pass (hp ▸ .refused id todo refused hrefused)
          · rename_i hkept
            rw [← Option.some.inj h]
            exact .pass (hp ▸ .kept id todo refused (Bool.not_eq_true _ ▸ hkept))
        · contradiction
      · contradiction
  | closePass p =>
      rw [step] at h
      split at h
      · rename_i refused hp
        rw [← Option.some.inj h]
        exact .closePass hp
      · contradiction
  | failPass p =>
      rw [step] at h
      split at h
      · rename_i todo refused hp
        rw [← Option.some.inj h]
        exact .pass (hp ▸ .failed todo refused)
      · contradiction

/-- The dial that is set went by the event; the others stood. -/
theorem went_setDial {x : Nat} {dial : Outgoing} (h : Went s x e (s.dials x) dial) (y : Nat) :
    (s.setDial x dial).dials y = s.dials y ∨
      ∃ dial', (s.setDial x dial).dials y = some dial' ∧ Went s y e (s.dials y) dial' := by
  rw [dials_setDial]
  split
  · rename_i heq
    subst heq
    exact .inr ⟨dial, rfl, h⟩
  · exact .inl rfl

/-- The pass that is set went by the event; the others stood. -/
theorem passWent_setPass {p : Nat} {pass : Pass} (h : PassWent s p e (s.passes p) pass) (q : Nat) :
    (s.setPass p pass).passes q = s.passes q ∨
      ∃ pass', (s.setPass p pass).passes q = some pass' ∧ PassWent s q e (s.passes q) pass' := by
  rw [passes_setPass]
  split
  · rename_i heq
    subst heq
    exact .inr ⟨pass, rfl, h⟩
  · exact .inl rfl

/-- In a step each dial stands or goes by the event. -/
theorem went_of_step (h : step s e = some s') (y : Nat) :
    s'.dials y = s.dials y ∨
      ∃ dial', s'.dials y = some dial' ∧ Went s y e (s.dials y) dial' := by
  cases stepped_of_step h with
  | start went | keep went => exact went_setDial went y
  | register hx => exact went_setDial (hx ▸ Went.registered _ _ _) y
  | refuse hx => exact went_setDial (hx ▸ Went.rejecting _ _ _ _) y
  | @closePass p refused hp =>
      cases hy : s.dials y with
      | none => exact .inl (by simp [setPass, closeRefused, hy])
      | some dial =>
          by_cases hcut : y ∈ s.conns.closeIds refused
          · exact .inr ⟨_, by simp [setPass, closeRefused, hy, hcut], .cut p refused dial hp hcut⟩
          · exact .inl (by simp [setPass, closeRefused, hy, hcut])
  | watcher | pass | arm | write => exact .inl rfl

/-- In a step each pass stands or goes by the event. -/
theorem passWent_of_step (h : step s e = some s') (q : Nat) :
    s'.passes q = s.passes q ∨
      ∃ pass', s'.passes q = some pass' ∧ PassWent s q e (s.passes q) pass' := by
  cases stepped_of_step h with
  | pass went => exact passWent_setPass went q
  | closePass hp => exact passWent_setPass (hp ▸ PassWent.closed _) q
  | start | keep | register | refuse | watcher | arm | write => exact .inl rfl

end Inversion

/-! ### what is registered -/

/-- Registrations are told apart by their keys, an open connection keeps its
entry until its dial is refused, and a rejected dial is closed. -/
structure Tracked (s : MeshHooks) : Prop where
  fresh : ∀ x dial key, s.dials x = some dial → dial.phase.key = some key → key < s.conns.seq
  distinct : ∀ x y dial dial' key, s.dials x = some dial → s.dials y = some dial' →
    dial.phase.key = some key → dial'.phase.key = some key → x = y
  held : ∀ x dial key, s.dials x = some dial → dial.phase.key = some key →
    dial.closed = false → ⟨key, dial.id, x⟩ ∈ s.conns.inner.items
  rejected : ∀ x dial, s.dials x = some dial → dial.phase = .rejected → dial.closed = true
  entries : ∀ e ∈ s.conns.inner.items, ∃ dial, s.dials e.dial = some dial ∧ dial.id = e.id

section Steps

variable {s' : MeshHooks} {x : Nat} {dial dial' : Outgoing}

/-- A key that is new or was the dial's own is not the key of another dial. -/
theorem Tracked.key_ne_other (h : s.Tracked) {key : Nat}
    (hkey : s.conns.seq ≤ key ∨ ∃ old, s.dials x = some old ∧ old.phase.key = some key) {y : Nat}
    (hne : y ≠ x) (hy : s.dials y = some dial) : dial.phase.key ≠ some key := by
  intro hk
  obtain hnew | ⟨old, hx, hold⟩ := hkey
  · exact absurd (h.fresh y dial key hy hk) (Nat.not_lt.mpr hnew)
  · exact hne (h.distinct y x dial old key hy hx hk hold)

/-- A step of one dial that loses no entry but its own, and whose key, if it
has one, is new or was its key before. -/
theorem Tracked.setDial (h : s.Tracked) (hdials : s'.dials = (s.setDial x dial').dials)
    (hid : ∀ dial, s.dials x = some dial → dial'.id = dial.id)
    (hseq : s.conns.seq ≤ s'.conns.seq)
    (hentries : ∀ e ∈ s'.conns.inner.items,
      e ∈ s.conns.inner.items ∨ e.dial = x ∧ e.id = dial'.id)
    (hitems : ∀ e ∈ s.conns.inner.items, e.key < s.conns.seq →
      (∀ dial, s.dials x = some dial → dial.phase.key ≠ some e.key) → e ∈ s'.conns.inner.items)
    (hkey : ∀ key, dial'.phase.key = some key →
      key < s'.conns.seq ∧
        (s.conns.seq ≤ key ∨ ∃ dial, s.dials x = some dial ∧ dial.phase.key = some key) ∧
          (dial'.closed = false → ⟨key, dial'.id, x⟩ ∈ s'.conns.inner.items))
    (hrejected : dial'.phase = .rejected → dial'.closed = true) : s'.Tracked where
  fresh y d key hy hk := by
    rw [hdials, dials_setDial] at hy
    split at hy
    · obtain rfl := Option.some.inj hy
      exact (hkey key hk).1
    · exact Nat.lt_of_lt_of_le (h.fresh y d key hy hk) hseq
  distinct y z d d' key hy hz hk hk' := by
    rw [hdials, dials_setDial] at hy hz
    split at hy
    · rename_i hyx
      obtain rfl := Option.some.inj hy
      split at hz
      · rename_i hzx
        rw [hyx, hzx]
      · rename_i hzx
        exact absurd hk' (h.key_ne_other (hkey key hk).2.1 hzx hz)
    · rename_i hyx
      split at hz
      · obtain rfl := Option.some.inj hz
        exact absurd hk (h.key_ne_other (hkey key hk').2.1 hyx hy)
      · exact h.distinct y z d d' key hy hz hk hk'
  held y d key hy hk hopen := by
    rw [hdials, dials_setDial] at hy
    split at hy
    · rename_i hyx
      obtain rfl := Option.some.inj hy
      exact hyx ▸ (hkey key hk).2.2 hopen
    · rename_i hyx
      have hown : ∀ old, s.dials x = some old → old.phase.key ≠ some key := fun old hx hold =>
        hyx (h.distinct y x d old key hy hx hk hold)
      exact hitems _ (h.held y d key hy hk hopen) (h.fresh y d key hy hk) hown
  rejected y d hy hr := by
    rw [hdials, dials_setDial] at hy
    split at hy
    · obtain rfl := Option.some.inj hy
      exact hrejected hr
    · exact h.rejected y d hy hr
  entries e he := by
    rw [hdials]
    simp only [dials_setDial]
    obtain he | ⟨hdial, heid⟩ := hentries e he
    · obtain ⟨d, hd, hdid⟩ := h.entries e he
      split
      · rename_i hex
        exact ⟨dial', rfl, (hid d (hex ▸ hd)).trans hdid⟩
      · exact ⟨d, hd, hdid⟩
    · rw [if_pos hdial]
      exact ⟨dial', rfl, heid.symm⟩

/-- A step of one dial that keeps its key and its entry. -/
theorem Tracked.keep (h : s.Tracked) (hdial : s.dials x = some dial) (hid : dial'.id = dial.id)
    (hkey : dial'.phase.key = dial.phase.key) (hopen : dial'.closed = false → dial.closed = false)
    (hrejected : dial'.phase = .rejected → dial'.closed = true) : (s.setDial x dial').Tracked := by
  refine h.setDial rfl (fun old hold => ?_) (Nat.le_refl _) (fun e he => .inl he)
    (fun e he _ _ => he) (fun key hk => ?_) hrejected
  · rw [hid, Option.some.inj (hdial.symm.trans hold)]
  rw [hkey] at hk
  exact ⟨h.fresh x dial key hdial hk, .inr ⟨dial, hdial, hk⟩, fun hc =>
    hid ▸ h.held x dial key hdial hk (hopen hc)⟩

/-- A new dial, not registered yet. -/
theorem Tracked.start (h : s.Tracked) (hfree : s.dials x = none) (hkey : dial'.phase.key = none)
    (hrejected : dial'.phase ≠ .rejected) : (s.setDial x dial').Tracked := by
  refine h.setDial rfl (fun old hold => ?_) (Nat.le_refl _) (fun e he => .inl he)
    (fun e he _ _ => he) (fun key hk => ?_) (fun hr => absurd hr hrejected)
  · rw [hfree] at hold
    contradiction
  · rw [hkey] at hk
    contradiction

/-- The watcher removes the entry of a closed connection. -/
theorem Tracked.remove (h : s.Tracked) (hdial : s.dials x = some dial) {key : Nat}
    (hkey : dial.phase.key = some key) (hclosed : dial.closed = true) :
    ({ s with conns := s.conns.remove dial.id key } : MeshHooks).Tracked where
  fresh := h.fresh
  distinct := h.distinct
  held y d k hy hk hopen := by
    refine PeerConns.mem_remove.mpr ⟨h.held y d k hy hk hopen, fun _ heq => ?_⟩
    obtain rfl : k = key := heq
    obtain rfl := h.distinct y x d dial k hy hdial hk hkey
    rw [hdial] at hy
    rw [← Option.some.inj hy, hclosed] at hopen
    contradiction
  rejected := h.rejected
  entries e he := h.entries e (PeerConns.mem_remove.mp he).1

/-- A close changes no more of a dial than its connection. -/
theorem dials_closeRefused {refused : List EndpointId} {y : Nat}
    (h : (s.closeRefused refused).dials y = some dial) : ∃ old, s.dials y = some old ∧
      dial.id = old.id ∧ dial.phase = old.phase ∧ (old.closed = true → dial.closed = true) := by
  obtain ⟨old, hold, rfl⟩ := Option.map_eq_some_iff.mp h
  refine ⟨old, hold, ?_⟩
  split
  · exact ⟨rfl, rfl, fun _ => rfl⟩
  · exact ⟨rfl, rfl, id⟩

/-- Closing the refused dials leaves the rest tracked. -/
theorem Tracked.closeRefused (h : s.Tracked) (refused : List EndpointId) :
    (s.closeRefused refused).Tracked where
  fresh y d key hy hk := by
    obtain ⟨old, hold, -, hphase, -⟩ := dials_closeRefused hy
    exact h.fresh y old key hold (hphase ▸ hk)
  distinct y z d d' key hy hz hk hk' := by
    obtain ⟨old, hold, -, hphase, -⟩ := dials_closeRefused hy
    obtain ⟨old', hold', -, hphase', -⟩ := dials_closeRefused hz
    exact h.distinct y z old old' key hold hold' (hphase ▸ hk) (hphase' ▸ hk')
  held y d key hy hk hopen := by
    obtain ⟨old, hold, hid, hphase, hclosed⟩ := dials_closeRefused hy
    have hwas : old.closed = false := by
      rw [← Bool.not_eq_true]
      intro hc
      rw [hclosed hc] at hopen
      contradiction
    rw [hid]
    exact h.held y old key hold (hphase ▸ hk) hwas
  rejected y d hy hr := by
    obtain ⟨old, hold, -, hphase, hclosed⟩ := dials_closeRefused hy
    exact hclosed (h.rejected y old hold (hphase ▸ hr))
  entries e he := by
    obtain ⟨old, hold, hid⟩ := h.entries e he
    refine ⟨_, congrArg (Option.map _) hold, ?_⟩
    split
    · exact hid
    · exact hid

theorem Tracked.setPass (h : s.Tracked) (p : Nat) (pass : Pass) : (s.setPass p pass).Tracked :=
  ⟨h.fresh, h.distinct, h.held, h.rejected, h.entries⟩

/-- The entry of a connection that registers has a new key. -/
theorem Tracked.register (h : s.Tracked) {id : EndpointId} {alpn : String} {closed : Bool}
    (hx : s.dials x = some ⟨id, alpn, .connecting, closed⟩) :
    ({ s with conns := s.conns.insert id x }.setDial x
      ⟨id, alpn, .registered s.conns.seq, closed⟩).Tracked := by
  refine h.setDial rfl (fun old hold => ?_) (Nat.le_succ _) (fun e he => ?_)
    (fun e he hlt _ => ?_) (fun key hk => ?_) (fun hr => by contradiction)
  · rw [← Option.some.inj (hx.symm.trans hold)]
  · obtain ⟨he, -⟩ | rfl := Keyed.mem_insert.mp he
    · exact .inl he
    · exact .inr ⟨rfl, rfl⟩
  · exact Keyed.mem_insert.mpr (.inl ⟨he, Nat.ne_of_lt hlt⟩)
  · obtain rfl := Option.some.inj hk
    exact ⟨Nat.lt_succ_self _, .inl (Nat.le_refl _), fun _ => Keyed.mem_insert.mpr (.inr rfl)⟩

/-- A refused dial loses its own entry. -/
theorem Tracked.refuse (h : s.Tracked) {id : EndpointId} {alpn : String} {key : Nat} {closed : Bool}
    (hx : s.dials x = some ⟨id, alpn, .rechecked key true, closed⟩) :
    ({ s with conns := s.conns.remove id key }.setDial x
      ⟨id, alpn, .rejecting, closed⟩).Tracked := by
  refine h.setDial rfl (fun old hold => ?_) (Nat.le_refl _)
    (fun e he => .inl (PeerConns.mem_remove.mp he).1) (fun e he _ hother => ?_)
    (fun key hk => by contradiction) (fun hr => by contradiction)
  · rw [← Option.some.inj (hx.symm.trans hold)]
  · exact PeerConns.mem_remove.mpr ⟨he, fun _ heq => hother _ hx (heq ▸ rfl)⟩

/-- A step keeps every open dial tracked. -/
theorem Tracked.step {e : Event} (h : s.Tracked) (hstep : step s e = some s') : s'.Tracked := by
  cases stepped_of_step hstep with
  | start _ hfree hkey hnot => exact h.start hfree hkey hnot
  | keep _ hx hid hkey hopen hrejected => exact h.keep hx hid hkey hopen hrejected
  | register hx => exact h.register hx
  | refuse hx => exact h.refuse hx
  | watcher hx hkey hclosed => exact h.remove hx hkey hclosed
  | pass => exact h.setPass _ _
  | closePass => exact (h.closeRefused _).setPass _ .finished
  | arm | write => exact ⟨h.fresh, h.distinct, h.held, h.rejected, h.entries⟩

/-- In every reachable state every open dial is tracked. -/
theorem tracked_of_reachable (h : Reachable s) : s.Tracked := by
  obtain ⟨store, view, events, hrun⟩ := h
  refine run_invariant (I := Tracked) (fun s e s' hs hstep => hs.step hstep)
    ⟨?_, ?_, ?_, ?_, fun e he => absurd he List.not_mem_nil⟩ hrun
  all_goals intros; contradiction

end Steps

/-! ### the pass of a revocation -/

/-- The device is refused now. -/
def Refuses (d : EndpointId) (s : MeshHooks) : Prop := refusedBy s.store s.view d = true

/-- A device that is refused is refused at the recheck. -/
theorem Refuses.recheck {d : EndpointId} (h : Refuses d s) (joined : Bool) :
    s.refuses joined d = true := by
  rw [refuses, show refusedBy s.store s.view d = true from h, Bool.or_true]

/-- No connection to the device has passed its second check and is open. -/
def NoneLoose (d : EndpointId) (s : MeshHooks) : Prop :=
  ∀ x dial, s.dials x = some dial → dial.id = d → dial.phase.Passed → dial.closed = true

/-- A pass yet to read the device, or that found it refused, or that has nothing
left to close. -/
def Covers (d : EndpointId) (p : Nat) (s : MeshHooks) : Prop :=
  ∀ pass, s.passes p = some pass →
    match pass with
    | .reading todo refused => d ∈ todo ∨ d ∈ refused ∨ NoneLoose d s
    | .finished => NoneLoose d s
    | .failed => True

section Passes

variable {s' : MeshHooks} {e : Event} {d : EndpointId} {p : Nat}

/-- An open connection that passed its second check is registered. -/
theorem mem_remoteIds_of_passed (h : s.Tracked) {x : Nat} {dial : Outgoing}
    (hx : s.dials x = some dial) (hpassed : dial.phase.Passed) (hopen : dial.closed = false) :
    ∃ entry ∈ s.conns.inner.items, entry.id = dial.id ∧ entry.dial = x := by
  obtain ⟨key, hkey⟩ := Phase.key_of_passed hpassed
  exact ⟨_, h.held x dial key hx hkey hopen, rfl, rfl⟩

/-- While the device is refused no second check lets a connection to it through. -/
theorem NoneLoose.step (h : NoneLoose d s) (hrefuses : Refuses d s) (hstep : step s e = some s') :
    NoneLoose d s' := by
  intro x dial hx hid hpassed
  obtain hsame | ⟨dial', hx', hwent⟩ := went_of_step hstep x
  · exact h x dial (hsame ▸ hx) hid hpassed
  · obtain rfl := Option.some.inj (hx.symm.trans hx')
    generalize hbefore : s.dials x = before at hwent
    cases hwent with
    | rechecked id alpn key closed joined =>
        obtain rfl : id = d := hid
        rw [hrefuses.recheck joined] at hpassed
        exact hpassed.elim
    | handedBack id alpn key closed =>
        have hclosed := h x ⟨id, alpn, .rechecked key false, closed⟩ hbefore hid trivial
        exact hclosed
    | asked id alpn joined phase hphase =>
        obtain rfl | rfl := hphase
        · exact hpassed.elim
        · exact hpassed.elim
    | paired | registered | rejecting => exact hpassed.elim
    | rejected | closed | cut => rfl

/-- The close of a pass that found the device refused leaves none loose. -/
theorem noneLoose_of_closePass (h : s.Tracked) {refused : List EndpointId}
    (hp : s.passes p = some (.reading [] refused)) (hd : d ∈ refused)
    (hstep : step s (.closePass p) = some s') : NoneLoose d s' := by
  rw [MeshHooks.step, hp] at hstep
  dsimp only at hstep
  rw [← Option.some.inj hstep]
  intro x dial hx hid hpassed
  obtain ⟨old, hold, rfl⟩ := Option.map_eq_some_iff.mp
    (show (s.dials x).map _ = some dial from hx)
  split at hid
  · rename_i hcut
    rw [if_pos hcut]
  · rename_i hcut
    rw [if_neg hcut] at hpassed ⊢
    cases hopen : old.closed with
    | true => rfl
    | false =>
        obtain ⟨entry, hentry, heid, hdial⟩ := mem_remoteIds_of_passed h hold hpassed hopen
        refine absurd (PeerConns.mem_closeIds.mpr ⟨entry, hentry, ?_, hdial⟩) hcut
        rw [heid, hid]
        exact hd

/-- **Step lemma**: while the device is refused, every step keeps a pass
covering it. -/
theorem Covers.step (h : Covers d p s) (htracked : s.Tracked) (hrefuses : Refuses d s)
    (hstep : step s e = some s') : Covers d p s' := by
  intro pass hpass
  obtain hsame | ⟨pass', hpass', hwent⟩ := passWent_of_step hstep p
  · have hold := h pass (hsame ▸ hpass)
    cases pass with
    | reading todo refused => exact hold.imp_right (·.imp_right (·.step hrefuses hstep))
    | finished => exact NoneLoose.step hold hrefuses hstep
    | failed => trivial
  · obtain rfl := Option.some.inj (hpass.symm.trans hpass')
    generalize hbefore : s.passes p = before at hwent
    have hloose : d ∉ s.conns.remoteIds → NoneLoose d s := by
      intro hno x dial hx hid hpassed
      cases hopen : dial.closed with
      | true => rfl
      | false =>
          obtain ⟨entry, hentry, heid, -⟩ := mem_remoteIds_of_passed htracked hx hpassed hopen
          exact absurd (PeerConns.mem_remoteIds.mpr ⟨entry, hentry, heid.trans hid⟩) hno
    cases hwent with
    | nobody hids => exact (hloose (hids ▸ List.not_mem_nil)).step hrefuses hstep
    | snapshot =>
        by_cases hmem : d ∈ s.conns.remoteIds
        · exact .inl hmem
        · exact .inr (.inr ((hloose hmem).step hrefuses hstep))
    | refused id todo refused hid =>
        obtain htodo | hrefused | hnone := h _ hbefore
        · by_cases heq : d = id
          · exact .inr (.inl (heq ▸ List.mem_cons_self))
          · exact .inl ((List.mem_erase_of_ne heq).mpr htodo)
        · exact .inr (.inl (List.mem_cons_of_mem id hrefused))
        · exact .inr (.inr (hnone.step hrefuses hstep))
    | kept id todo refused hid =>
        obtain htodo | hrefused | hnone := h _ hbefore
        · refine .inl ((List.mem_erase_of_ne fun heq => ?_).mpr htodo)
          rw [← heq, show refusedBy s.store s.view d = true from hrefuses] at hid
          contradiction
        · exact .inr (.inl hrefused)
        · exact .inr (.inr (hnone.step hrefuses hstep))
    | closed refused =>
        obtain htodo | hrefused | hnone := h _ hbefore
        · exact absurd htodo List.not_mem_nil
        · exact noneLoose_of_closePass htracked hbefore hrefused hstep
        · exact hnone.step hrefuses hstep
    | failed => trivial

end Passes

/-! ### what a close rests on -/

section Grounds

variable (store : PeerStore) (view : Option RosterView)

/-- The pass read the device as refused. -/
def ReadAsRefused (events : List Event) (p : Nat) (id : EndpointId) : Prop :=
  ∃ before after s, events = before ++ .readRefusal p id :: after ∧
    run step (init store view) before = some s ∧ refusedBy s.store s.view id = true

/-- The second check of the dial answered that the device is refused. -/
def RecheckedAsRefused (events : List Event) (x : Nat) (id : EndpointId) : Prop :=
  ∃ before joined after s, events = before ++ .recheck x joined :: after ∧
    run step (init store view) before = some s ∧ s.refuses joined id = true

/-- What passes and dials hold against a device comes from a read of theirs. -/
def Grounded (events : List Event) (s : MeshHooks) : Prop :=
  (∀ p todo refused, s.passes p = some (.reading todo refused) →
    ∀ id ∈ refused, ReadAsRefused store view events p id) ∧
  ∀ x dial, s.dials x = some dial → dial.phase.Refused →
    RecheckedAsRefused store view events x dial.id

variable {store view} {events : List Event} {s' : MeshHooks} {e : Event}

theorem ReadAsRefused.snoc {p : Nat} {id : EndpointId} (h : ReadAsRefused store view events p id) :
    ReadAsRefused store view (events ++ [e]) p id := by
  obtain ⟨before, after, s, rfl, hrun, hrefused⟩ := h
  exact ⟨before, after ++ [e], s, by simp, hrun, hrefused⟩

theorem RecheckedAsRefused.snoc {x : Nat} {id : EndpointId}
    (h : RecheckedAsRefused store view events x id) :
    RecheckedAsRefused store view (events ++ [e]) x id := by
  obtain ⟨before, joined, after, s, rfl, hrun, hrefused⟩ := h
  exact ⟨before, joined, after ++ [e], s, by simp, hrun, hrefused⟩

/-- A step keeps every refusal grounded in a reading. -/
theorem Grounded.step (h : Grounded store view events s)
    (hrun : run step (init store view) events = some s) (hstep : step s e = some s') :
    Grounded store view (events ++ [e]) s' := by
  refine ⟨fun p todo refused hp id hid => ?_, fun x dial hx hphase => ?_⟩
  · obtain hsame | ⟨pass', hp', hwent⟩ := passWent_of_step hstep p
    · exact (h.1 p todo refused (hsame ▸ hp) id hid).snoc
    · obtain rfl := Option.some.inj (hp.symm.trans hp')
      generalize hbefore : s.passes p = before at hwent
      cases hwent with
      | snapshot => exact absurd hid List.not_mem_nil
      | refused id' todo refused hrefused =>
          obtain rfl | hid := List.mem_cons.mp hid
          · exact ⟨events, [], s, rfl, hrun, hrefused⟩
          · exact (h.1 p _ _ hbefore id hid).snoc
      | kept id' todo refused hkept => exact (h.1 p _ _ hbefore id hid).snoc
  · obtain hsame | ⟨dial', hx', hwent⟩ := went_of_step hstep x
    · exact (h.2 x dial (hsame ▸ hx) hphase).snoc
    · obtain rfl := Option.some.inj (hx.symm.trans hx')
      generalize hbefore : s.dials x = before at hwent
      cases hwent with
      | rechecked id alpn key closed joined =>
          cases hrefused : s.refuses joined id with
          | true => exact ⟨events, joined, [], s, rfl, hrun, hrefused⟩
          | false => rw [hrefused] at hphase; exact hphase.elim
      | rejecting id alpn key closed => exact (h.2 x _ hbefore trivial).snoc
      | closed dial => exact (h.2 x dial hbefore hphase).snoc
      | cut p refused dial hpass hcut => exact (h.2 x dial hbefore hphase).snoc
      | asked id alpn joined phase hout =>
          obtain rfl | rfl := hout
          · exact hphase.elim
          · exact hphase.elim
      | paired | registered | rejected | handedBack => exact hphase.elim

/-- Apart from the world around it, a connection is closed by a pass that read
its device as refused or by its own second check. -/
theorem grounds_of_close (hrun : run step (init store view) events = some s)
    (hstep : step s e = some s') {x : Nat} {dial dial' : Outgoing} (hx : s.dials x = some dial)
    (hx' : s'.dials x = some dial') (hopen : dial.closed = false) (hclosed : dial'.closed = true) :
    e = .close x ∨ (∃ p, e = .closePass p ∧ ReadAsRefused store view events p dial.id) ∨
      e = .reject x ∧ RecheckedAsRefused store view events x dial.id := by
  have hgrounded : Grounded store view events s := by
    refine run_history ⟨?_, ?_⟩ (fun es s e s' hes h hse => h.step hes hse) hrun
    all_goals intros; contradiction
  have htracked := tracked_of_reachable ⟨store, view, events, hrun⟩
  obtain hsame | ⟨dial'', hx'', hwent⟩ := went_of_step hstep x
  · rw [hsame, hx] at hx'
    rw [← Option.some.inj hx', hopen] at hclosed
    contradiction
  · obtain rfl := Option.some.inj (hx'.symm.trans hx'')
    generalize hbefore : s.dials x = before at hwent
    rw [hx] at hbefore
    cases hwent with
    | closed dial => exact .inl rfl
    | cut p refused dial hpass hcut =>
        obtain rfl := Option.some.inj hbefore
        obtain ⟨entry, hentry, hmem, hdial⟩ := PeerConns.mem_closeIds.mp hcut
        obtain ⟨old, hold, hid⟩ := htracked.entries entry hentry
        rw [hdial, hx] at hold
        rw [← hid, ← Option.some.inj hold] at hmem
        exact .inr (.inl ⟨p, rfl, hgrounded.1 p [] refused hpass dial.id hmem⟩)
    | rejected id alpn closed =>
        obtain rfl := Option.some.inj hbefore
        exact .inr (.inr ⟨rfl, hgrounded.2 x _ hx trivial⟩)
    | asked => contradiction
    | paired | registered | rechecked | rejecting | handedBack =>
        obtain rfl := Option.some.inj hbefore
        rw [hopen] at hclosed
        contradiction

end Grounds

/-! ### a revocation -/

section Revocation

variable {s₀ s' : MeshHooks} {e : Event} {d : EndpointId} {p x : Nat} {events : List Event}

/-- The second check of the dial has refused or is still to answer, and nothing
else has been made of it. -/
def Barred (d : EndpointId) (x : Nat) (s : MeshHooks) : Prop :=
  ∃ dial, s.dials x = some dial ∧ dial.id = d ∧
    (dial.phase.PendingReject ∨ dial.phase = .rejected)

/-- While the device is refused, a second check yet to answer will refuse. -/
theorem Barred.step (h : Barred d x s) (hrefuses : Refuses d s) (hstep : step s e = some s') :
    Barred d x s' := by
  obtain ⟨dial, hx, hid, hphase⟩ := h
  obtain hsame | ⟨dial', hx', hwent⟩ := went_of_step hstep x
  · exact ⟨dial, hsame.trans hx, hid, hphase⟩
  · rw [hx] at hwent
    refine ⟨dial', hx', ?_⟩
    cases hwent with
    | rechecked id alpn key closed joined =>
        obtain rfl : id = d := hid
        refine ⟨rfl, .inl ?_⟩
        rw [hrefuses.recheck joined]
        trivial
    | rejecting => exact ⟨hid, .inl trivial⟩
    | rejected => exact ⟨hid, .inr rfl⟩
    | closed | cut => exact ⟨hid, hphase⟩
    | paired | registered | handedBack =>
        obtain hpending | hrejected := hphase
        · exact hpending.elim
        · contradiction

/-- Once a pass begun after the device was refused is over, no connection to it
that passed its second check is open. -/
theorem noneLoose_of_finished (h₀ : Reachable s₀) (hfresh : s₀.passes p = none)
    (hrefused : Along step (Refuses d) s₀ events) (hrun : run step s₀ events = some s)
    (hdone : s.passes p = some .finished) : s.Tracked ∧ NoneLoose d s := by
  have hinv := hrefused.invariant (I := fun s => s.Tracked ∧ Covers d p s)
    (fun s e s' hs _ h hse => ⟨h.1.step hse, h.2.step h.1 hs hse⟩)
    ⟨tracked_of_reachable h₀, fun pass hpass => by rw [hfresh] at hpass; contradiction⟩ hrun
  exact ⟨hinv.1, hinv.2 _ hdone⟩

end Revocation

/-- **Outbound revocation is complete.**  Once a pass begun after a device was
refused is over, while the device stays refused, every connection to it that
the hooks registered is closed or will be rejected by its own second check, so
none is handed back open; and a connection is closed only by the world around
it, by a pass that read its device as refused or by its own second check. -/
theorem outbound_revocation_complete :
    (∀ s₀ s d p events, Reachable s₀ → s₀.passes p = none → Along step (Refuses d) s₀ events →
      run step s₀ events = some s → s.passes p = some .finished →
        ∀ x dial, s.dials x = some dial → dial.id = d → dial.phase.WasRegistered →
          dial.closed = true ∨
            dial.phase.PendingReject ∧
              ∀ later s', Along step (Refuses d) s later → run step s later = some s' →
                Barred d x s') ∧
    ∀ store view events s e s', run step (init store view) events = some s →
      step s e = some s' → ∀ x dial dial', s.dials x = some dial → s'.dials x = some dial' →
        dial.closed = false → dial'.closed = true →
          e = .close x ∨ (∃ p, e = .closePass p ∧ ReadAsRefused store view events p dial.id) ∨
            e = .reject x ∧ RecheckedAsRefused store view events x dial.id := by
  refine ⟨fun s₀ s d p events h₀ hfresh hrefused hrun hdone x dial hx hid hwas => ?_,
    fun store view events s e s' hrun hstep x dial dial' hx hx' hopen hclosed =>
      grounds_of_close hrun hstep hx hx' hopen hclosed⟩
  obtain ⟨htracked, hnone⟩ := noneLoose_of_finished h₀ hfresh hrefused hrun hdone
  have hbarred : dial.phase.PendingReject → ∀ later s', Along step (Refuses d) s later →
      run step s later = some s' → Barred d x s' := fun hpending later s' halong hlater =>
    halong.invariant (fun s e s' hs _ h hse => h.step hs hse) ⟨dial, hx, hid, .inl hpending⟩ hlater
  cases hphase : dial.phase with
  | registered key => exact .inr ⟨trivial, hbarred (hphase ▸ trivial)⟩
  | rechecked key refused =>
      cases refused with
      | true => exact .inr ⟨trivial, hbarred (hphase ▸ trivial)⟩
      | false => exact .inl (hnone x dial hx hid (hphase ▸ trivial))
  | rejecting => exact .inr ⟨trivial, hbarred (hphase ▸ trivial)⟩
  | rejected => exact .inl (htracked.rejected x dial hx hphase)
  | handedBack key =>
      cases key with
      | none => rw [hphase] at hwas; exact hwas.elim
      | some key => exact .inl (hnone x dial hx hid (hphase ▸ trivial))
  | vetoed | connecting => rw [hphase] at hwas; exact hwas.elim

end MeshHooks

namespace LateHandBack

open MeshHooks

def device : EndpointId := .replicate 32 1

/-- A store that revokes the device, or nobody. -/
def store (revoked : Bool) : PeerStore where
  revoked _ := .ok (if revoked then some [] else none)
  peers _ := .ok none
  revokedUsers _ := .ok none
  fromSlice _ := .error "expected value"

/-- A dial whose second check reads before the revocation is written. -/
def dialling : List Event :=
  [.arm, .beforeConnect 0 device "mcpmesh/mcp/1" true, .handshake 0, .recheck 0 true,
    .write (store true) none]

/-- The pass, up to its close. -/
def reading : List Event := [.snapshot 0, .readRefusal 0 device]

def unwritten : MeshHooks := init (store false) none

def written : MeshHooks := (run step unwritten dialling).getD unwritten

def passRead : MeshHooks := (run step written reading).getD written

def passClosed : MeshHooks := (step passRead (.closePass 0)).getD passRead

theorem reachable_written : Reachable written := ⟨store false, none, dialling, rfl⟩

end LateHandBack

open LateHandBack MeshHooks in
/-- A dial that was asked before the revocation is handed back after the pass,
its connection closed; and a pass closes the connection to a device that was
let in again after its read. -/
theorem outbound_revocation_late :
    (¬ ∀ (s₀ s s' : MeshHooks) (d : EndpointId) (p x : Nat) (events later : List Event)
        (dial dial' : Outgoing) (key : Nat),
      Reachable s₀ → s₀.passes p = none →
        Along step (Refuses d) s₀ events → run step s₀ events = some s →
        s.passes p = some .finished → Along step (Refuses d) s later →
        run step s later = some s' → s.dials x = some dial → dial.id = d →
        dial.phase ≠ .handedBack (some key) → s'.dials x = some dial' →
          dial'.phase ≠ .handedBack (some key)) ∧
    ¬ ∀ (s s' : MeshHooks) (p x : Nat) (dial dial' : Outgoing), Reachable s →
      step s (.closePass p) = some s' → s.dials x = some dial →
        s'.dials x = some dial' → dial.closed = false → dial'.closed = true →
          Refuses dial.id s := by
  refine ⟨fun h => ?_, fun h => ?_⟩
  · have hrefused : ∀ s, s.store = store true → Refuses device s := by
      intro s hs
      rw [Refuses, hs]
      rfl
    refine h written passClosed _ device 0 0 (reading ++ [.closePass 0]) [.answer 0]
      ⟨device, "mcpmesh/mcp/1", .rechecked 0 false, true⟩
      ⟨device, "mcpmesh/mcp/1", .handedBack (some 0), true⟩ 0
      reachable_written rfl ?_ rfl rfl ?_ rfl rfl rfl (by simp) rfl rfl
    · refine ⟨hrefused _ rfl, fun s₁ h₁ => ?_⟩
      obtain rfl := Option.some.inj h₁
      refine ⟨hrefused _ rfl, fun s₂ h₂ => ?_⟩
      obtain rfl := Option.some.inj h₂
      refine ⟨hrefused _ rfl, fun s₃ h₃ => ?_⟩
      obtain rfl := Option.some.inj h₃
      exact hrefused _ rfl
    · refine ⟨hrefused _ rfl, fun s₁ h₁ => ?_⟩
      obtain rfl := Option.some.inj h₁
      exact hrefused _ rfl
  · have hcut := h ((step passRead (.write (store false) none)).getD passRead) _ 0 0
      ⟨device, "mcpmesh/mcp/1", .rechecked 0 false, false⟩
      ⟨device, "mcpmesh/mcp/1", .rechecked 0 false, true⟩
      ⟨store false, none, dialling ++ reading ++ [.write (store false) none], rfl⟩
      rfl rfl rfl rfl rfl
    contradiction

end Mcpmesh.Hooks
