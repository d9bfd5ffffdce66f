import Mathlib.Data.List.Chain
import Mcpmesh.Lib.Run

/-!
# Mcpmesh.Daemon.SelfNet

The watcher of this node's own network posture (`node/src/daemon/self_net.rs`).

It reads the relays through one watcher and waits on another, and the relays may
change between the two.  A change after the read still wakes it, so when it is
at rest the last frame shows the relays as they are.  Only a change of the
relays wakes it: a duplicate of this identity that the node observes is told
with the next one.
-/

namespace Mcpmesh

open Lib

structure RelayInfo where
  url : String
  connected : Bool
  deriving DecidableEq, Repr

structure SelfNetwork where
  online : Bool
  homeRelay : Option String
  relays : List RelayInfo
  directAddrs : List String
  lastChangeEpoch : Option Int
  identityConflictEpoch : Option Int
  presenceMode : Option String
  localDiscovery : Option String
  deriving DecidableEq, Repr

namespace SelfNetwork

def project (relays : List (String × Bool)) (directAddrs : List String)
    (lastChangeEpoch identityConflictEpoch : Option Int)
    (presenceMode localDiscovery : Option String) : SelfNetwork :=
  let relays : List RelayInfo := relays.map fun r => ⟨r.1, r.2⟩
  { online := relays.any (·.connected)
    homeRelay := (relays.find? (·.connected)).map (·.url)
    relays, directAddrs, lastChangeEpoch, identityConflictEpoch, presenceMode, localDiscovery }

/-- What counts as a transition. -/
def signature (net : SelfNetwork) : Bool × Option String × List (String × Bool) × Option Int :=
  (net.online, net.homeRelay, net.relays.map fun r => (r.url, r.connected),
    net.identityConflictEpoch)

/-- The offline-empty baseline. -/
def baseline : SelfNetwork := project [] [] none none none none

end SelfNetwork

open SelfNetwork

/-! ## the watcher -/

/-- Where the loop is; `holding` has read the relays and nothing else yet. -/
inductive WatchPhase (Url : Type) where
  | checking
  | holding (read : List (Url × Bool))
  | waiting

/-- `version` counts the changes of the relays, and `seen` is how far the watcher
that the loop waits on has come. -/
structure SelfNetWatch (Url : Type) where
  relays : List (Url × Bool)
  version : Nat
  directAddrs : List String
  conflict : Option Int
  presenceMode : String
  localDiscovery : String
  phase : WatchPhase Url
  seen : Nat
  previous : SelfNetwork
  lastChange : Option Int
  told : List SelfNetwork

inductive PostureEvent (Url : Type) where
  | relaysChange (relays : List (Url × Bool))
  | addrsChange (directAddrs : List String)
  /-- another node was seen under this identity -/
  | conflict (epoch : Int)
  | readRelays
  /-- the rest is read and compared; `now` is the clock -/
  | check (now : Int)
  /-- `updated` returns -/
  | wake

namespace SelfNetWatch

variable {Url : Type} (sanitize : Url → String)

def start (relays : List (Url × Bool)) (directAddrs : List String)
    (presenceMode localDiscovery : String) : SelfNetWatch Url :=
  { relays, version := 0, directAddrs, conflict := none, presenceMode, localDiscovery
    phase := .checking, seen := 0, previous := baseline, lastChange := none, told := [] }

/-- The relays as they are reported. -/
def reported (relays : List (Url × Bool)) : List (String × Bool) :=
  relays.map fun r => (sanitize r.1, r.2)

/-- `read_current`, from relays that were read before. -/
def current (s : SelfNetWatch Url) (read : List (Url × Bool)) : SelfNetwork :=
  project (reported sanitize read) s.directAddrs none s.conflict (some s.presenceMode)
    (some s.localDiscovery)

/-- A turn of the loop, up to its wait. -/
def turn (s : SelfNetWatch Url) (read : List (Url × Bool)) (now : Int) : SelfNetWatch Url :=
  let current := s.current sanitize read
  if current.signature = s.previous.signature then { s with phase := .waiting }
  else
    { s with
      phase := .waiting
      lastChange := some now
      told := s.told ++ [{ current with lastChangeEpoch := some now }]
      previous := current }

def step (s : SelfNetWatch Url) : PostureEvent Url → Option (SelfNetWatch Url)
  | .relaysChange relays => some { s with relays, version := s.version + 1 }
  | .addrsChange directAddrs => some { s with directAddrs }
  | .conflict epoch => some { s with conflict := some epoch }
  | .readRelays =>
      match s.phase with
      | .checking => some { s with phase := .holding s.relays }
      | _ => none
  | .check now =>
      match s.phase with
      | .holding read => some (s.turn sanitize read now)
      | _ => none
  | .wake =>
      match s.phase with
      | .waiting =>
          if s.seen < s.version then some { s with phase := .checking, seen := s.version } else none
      | _ => none

/-- The frame that a subscriber saw last. -/
def lastTold (s : SelfNetWatch Url) : SelfNetwork := s.told.getLast?.getD baseline

/-- Nothing is left to wake it. -/
def AtRest (s : SelfNetWatch Url) : Prop := s.phase = .waiting ∧ s.seen = s.version

/-! ### what the frames tell -/

/-- The frame shows these relays. -/
def Shows (net : SelfNetwork) (relays : List (Url × Bool)) : Prop :=
  ∃ conflict, net.signature =
    (project (reported sanitize relays) [] none conflict none none).signature

structure Watched (s : SelfNetWatch Url) : Prop where
  same : s.lastTold.signature = s.previous.signature
  distinct : (baseline :: s.told).IsChain fun a b => a.signature ≠ b.signature
  stamped : s.lastChange = s.told.getLast?.bind (·.lastChangeEpoch)
  behind : s.seen ≤ s.version
  holding : ∀ read, s.phase = .holding read → s.seen = s.version → read = s.relays
  waiting : s.AtRest → Shows sanitize s.lastTold s.relays

variable {sanitize} {s s' : SelfNetWatch Url} {e : PostureEvent Url}
  {events : List (PostureEvent Url)}

/-- The state that is told first is the one at the start. -/
theorem watched_start (relays : List (Url × Bool)) (directAddrs : List String)
    (presenceMode localDiscovery : String) :
    Watched sanitize (start relays directAddrs presenceMode localDiscovery) where
  same := rfl
  distinct := .singleton _
  stamped := rfl
  behind := Nat.le_refl 0
  holding := nofun
  waiting := fun h => nomatch h.1

/-- What is current shows what was read of the relays. -/
theorem shows_current (s : SelfNetWatch Url) (read : List (Url × Bool)) :
    Shows sanitize (s.current sanitize read) read := ⟨s.conflict, rfl⟩

/-- A turn tells what changed since the last one. -/
theorem watched_turn {read : List (Url × Bool)} {now : Int} (h : Watched sanitize s)
    (hphase : s.phase = .holding read) : Watched sanitize (s.turn sanitize read now) := by
  rw [turn]
  split
  · next hsame =>
    exact {
      same := h.same
      distinct := h.distinct
      stamped := h.stamped
      behind := h.behind
      holding := nofun
      waiting := fun hrest => by
        obtain ⟨conflict, hshows⟩ : Shows sanitize (s.current sanitize read) read :=
          shows_current s read
        obtain rfl := h.holding read hphase hrest.2
        exact ⟨conflict, h.same.trans (hsame.symm.trans hshows)⟩ }
  · next hnew =>
    have hlast :
        (s.told ++ [{ s.current sanitize read with lastChangeEpoch := some now }]).getLast? =
          some { s.current sanitize read with lastChangeEpoch := some now } :=
      List.getLast?_concat
    exact {
      same := by
        rw [lastTold, hlast]
        rfl
      distinct := by
        refine h.distinct.append (.singleton _) fun last hmem next hnext => ?_
        rw [List.getLast?_cons] at hmem
        obtain rfl := Option.some.inj hmem
        obtain rfl := Option.some.inj hnext
        exact fun hsame => hnew (hsame.symm.trans h.same)
      stamped := by
        dsimp only
        rw [hlast]
        rfl
      behind := h.behind
      holding := nofun
      waiting := fun hrest => by
        obtain rfl := h.holding read hphase hrest.2
        rw [lastTold, hlast]
        exact ⟨s.conflict, rfl⟩ }

/-- Each step keeps the account. -/
theorem watched_step (h : Watched sanitize s) (hstep : step sanitize s e = some s') :
    Watched sanitize s' := by
  cases e with
  | relaysChange relays =>
      obtain rfl := Option.some.inj hstep
      have hbehind : s.seen ≠ s.version + 1 := fun hsame => absurd h.behind (by omega)
      exact { h with
        behind := Nat.le_succ_of_le h.behind
        holding := fun _ _ hsame => absurd hsame hbehind
        waiting := fun hrest => absurd hrest.2 hbehind }
  | addrsChange directAddrs =>
      obtain rfl := Option.some.inj hstep
      exact { h with }
  | conflict epoch =>
      obtain rfl := Option.some.inj hstep
      exact { h with }
  | readRelays =>
      unfold step at hstep
      dsimp only at hstep
      split at hstep
      · obtain rfl := Option.some.inj hstep
        exact { h with
          holding := fun read hphase _ => (WatchPhase.holding.inj hphase).symm
          waiting := fun hrest => nomatch hrest.1 }
      · contradiction
  | check now =>
      unfold step at hstep
      dsimp only at hstep
      split at hstep
      · next read hphase =>
        obtain rfl := Option.some.inj hstep
        exact watched_turn h hphase
      · contradiction
  | wake =>
      unfold step at hstep
      dsimp only at hstep
      split at hstep
      · split at hstep
        · obtain rfl := Option.some.inj hstep
          exact { h with
            behind := Nat.le_refl _
            holding := nofun
            waiting := fun hrest => nomatch hrest.1 }
        · contradiction
      · contradiction

/-- Until the relays change, nothing wakes it and nothing is told. -/
theorem quiet_run (hrest : s.AtRest) (hrun : run (step sanitize) s events = some s')
    (hquiet : ∀ relays, .relaysChange relays ∉ events) : s'.told = s.told := by
  induction events generalizing s with
  | nil =>
      obtain rfl : s = s' := Option.some.inj hrun
      rfl
  | cons e events ih =>
      obtain ⟨s₁, hstep, hrun⟩ := run_cons_eq_some.mp hrun
      have hlater : ∀ relays, .relaysChange relays ∉ events := fun relays hmem =>
        hquiet relays (List.mem_cons_of_mem e hmem)
      obtain ⟨hphase, hseen⟩ := hrest
      cases e with
      | relaysChange relays => exact absurd List.mem_cons_self (hquiet relays)
      | addrsChange | conflict =>
          obtain rfl := Option.some.inj hstep
          have htold := ih (by exact ⟨hphase, hseen⟩) hrun hlater
          exact htold
      | readRelays | check =>
          unfold step at hstep
          dsimp only at hstep
          rw [hphase] at hstep
          contradiction
      | wake =>
          unfold step at hstep
          dsimp only at hstep
          rw [hphase] at hstep
          dsimp only at hstep
          rw [if_neg (by omega)] at hstep
          contradiction

/-- **The posture is told**: each frame differs from the one before, the first of
them from the offline baseline; the stamp kept for `status` is that of the last
one; and a watcher at rest has told the relays as they are, whatever changed
while it read, and tells nothing until they change again. -/
theorem posture_is_told {relays : List (Url × Bool)} {directAddrs : List String}
    {presenceMode localDiscovery : String}
    (hrun : run (step sanitize) (start relays directAddrs presenceMode localDiscovery) events =
      some s) :
    (baseline :: s.told).IsChain (fun a b => a.signature ≠ b.signature) ∧
      s.lastChange = s.told.getLast?.bind (·.lastChangeEpoch) ∧
      (s.AtRest → Shows sanitize s.lastTold s.relays ∧
        ∀ later s', run (step sanitize) s later = some s' →
          (∀ relays, .relaysChange relays ∉ later) → s'.told = s.told) := by
  have h := run_invariant (I := Watched sanitize) (fun _ _ _ => watched_step)
    (watched_start relays directAddrs presenceMode localDiscovery) hrun
  exact ⟨h.distinct, h.stamped, fun hrest =>
    ⟨h.waiting hrest, fun _ _ hlater hquiet => quiet_run hrest hlater hquiet⟩⟩

/-- The relay goes down between the two reads of the first turn. -/
def flap : List (PostureEvent String) :=
  [.readRelays, .relaysChange [("a", false)], .check 5, .wake, .readRelays, .check 7, .conflict 9]

theorem posture_is_told_example :
    ∃ s, run (step id) (start [("a", true)] [] "paired" "off") flap = some s ∧
      s.told.map (·.online) = [true, false] ∧ s.lastChange = some 7 ∧
      Shows id s.lastTold [("a", false)] := by
  have hrun : run (step id) (start [("a", true)] [] "paired" "off") flap = some _ := rfl
  obtain ⟨-, -, hrest⟩ := posture_is_told hrun
  exact ⟨_, hrun, rfl, rfl, (hrest ⟨rfl, rfl⟩).1⟩

end SelfNetWatch

end Mcpmesh
