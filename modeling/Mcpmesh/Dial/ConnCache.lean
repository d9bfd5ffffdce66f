import Mcpmesh.Lib.Ownership
import Mcpmesh.Lib.Run

/-!
# Mcpmesh.Dial.ConnCache

The per-peer cache of client connections and its single-flight dials
(`node/src/daemon/conn_cache.rs`).

`claim`, `forget`, `settle` and `dropLead` are the sections under the map's
lock.  The system runs any number of `session_on` callers: a caller's code is
cut at each of its awaits, and one step runs from an await to the next.  A leader
dials from the claim that makes it one to the section that ends its lead.

Seen from the `Dialing` slots alone, a leader is a party that takes its
candidates and gives them back (`Cache.ownership`); each step is a move of
`Lib.Ownership`, and the invariant is that library's.
-/

namespace Mcpmesh.Dial

open Lib

/-! ## the map -/

/-- What the map holds for a peer: a connection, or a dial in flight with the
leader whose outcome its waiters read. -/
inductive Slot (ι κ : Type*) where
  | live (conn : κ)
  | dialing (leader : ι)

inductive Claim (ι π κ : Type*) where
  | live (peer : π) (conn : κ)
  | wait (leader : ι)
  | lead

abbrev Slots (ι π κ : Type*) := π → Option (Slot ι κ)

section Map

variable {ι π κ : Type*} [DecidableEq π]

/-- The leader of a `Dialing` slot. -/
def Slot.leader : Slot ι κ → Option ι
  | .live _ => none
  | .dialing leader => some leader

/-- The first open connection to one of `peers`; closed ones on the way are
dropped. -/
def firstOpen (isOpen : κ → Bool) : List π → Slots ι π κ → Option (π × κ) × Slots ι π κ
  | [], map => (none, map)
  | peer :: peers, map =>
      match map peer with
      | some (.live conn) =>
          if isOpen conn then (some (peer, conn), map)
          else firstOpen isOpen peers (Function.update map peer none)
      | _ => firstOpen isOpen peers map

/-- A `Dialing` slot for every candidate. -/
def startDial (caller : ι) (peers : List π) (map : Slots ι π κ) : Slots ι π κ :=
  peers.foldl (fun map peer => Function.update map peer (some (.dialing caller))) map

/-- One look at `peers`: a live connection to any of them wins, else a dial in
flight to one of them is waited on, else the caller leads a dial to all. -/
def claim (isOpen : κ → Bool) (caller : ι) (peers : List π) (map : Slots ι π κ) :
    Claim ι π κ × Slots ι π κ :=
  match firstOpen isOpen peers map with
  | (some (peer, conn), map) => (.live peer conn, map)
  | (none, map) =>
      match peers.findSome? fun peer => (map peer).bind Slot.leader with
      | some leader => (.wait leader, map)
      | none => (.lead, startDial caller peers map)

/-- `open_on` on a connection that refused a stream: its entry goes, a newer
one stays. -/
def forget [DecidableEq κ] (peer : π) (conn : κ) (map : Slots ι π κ) : Slots ι π κ :=
  match map peer with
  | some (.live cached) => if cached = conn then Function.update map peer none else map
  | _ => map

/-- A slot with the dial in it removed. -/
def withoutDial : Option (Slot ι κ) → Option (Slot ι κ)
  | some (.dialing _) => none
  | slot => slot

/-- `DialLead::settle`: cache the winner, the other candidates' slots go. -/
def settle (remoteId : κ → π) (peers : List π) (conn : κ) (map : Slots ι π κ) : Slots ι π κ :=
  peers.foldl (fun map peer => Function.update map peer
    (if peer = remoteId conn then some (.live conn) else withoutDial (map peer))) map

/-- `DialLead::drop` of a lead that did not settle. -/
def dropLead (peers : List π) (map : Slots ι π κ) : Slots ι π κ :=
  peers.foldl (fun map peer => Function.update map peer (withoutDial (map peer))) map

/-! ### what the sections do to the `Dialing` slots -/

/-- Who dials each peer. -/
def dialers (map : Slots ι π κ) : π → Option ι := fun peer => (map peer).bind Slot.leader

/-- An edit of each of `peers`, when a second edit of the same slot does
nothing. -/
theorem foldl_update_apply {α : Type*} (edit : π → α → α)
    (hidem : ∀ p a, edit p (edit p a) = edit p a) (peers : List π) (map : π → α) (p : π) :
    (peers.foldl (fun map peer => Function.update map peer (edit peer (map peer))) map) p =
      if p ∈ peers then edit p (map p) else map p := by
  induction peers generalizing map with
  | nil => simp
  | cons q peers ih =>
      rw [List.foldl_cons, ih]
      obtain rfl | hne := eq_or_ne p q
      · simp [hidem]
      · simp [hne, Function.update_of_ne]

theorem leader_withoutDial (slot : Option (Slot ι κ)) :
    (withoutDial slot).bind Slot.leader = none := by
  cases slot with
  | none => rfl
  | some slot => cases slot <;> rfl

/-- A look for an open connection moves no dial. -/
theorem dialers_firstOpen (isOpen : κ → Bool) (peers : List π) (map : Slots ι π κ) :
    dialers (firstOpen isOpen peers map).2 = dialers map := by
  induction peers generalizing map with
  | nil => rfl
  | cons peer peers ih =>
      rw [firstOpen]
      split
      · rename_i conn hslot
        split
        · rfl
        · rw [ih]
          funext p
          obtain rfl | hne := eq_or_ne p peer
          · simp [dialers, hslot, Slot.leader]
          · simp [dialers, hne]
      · exact ih map

/-- A started dial is the caller's, for each peer it asks for. -/
theorem dialers_startDial (caller : ι) (peers : List π) (map : Slots ι π κ) :
    dialers (startDial caller peers map) =
      fun p => if p ∈ peers then some caller else dialers map p := by
  funext p
  rw [dialers, startDial, foldl_update_apply (fun _ _ => some (Slot.dialing caller))]
  · split
    · rfl
    · rfl
  · exact fun _ _ => rfl

/-- A claim changes nobody's dial; it leads only where nobody dials, and then
dials every candidate. -/
theorem dialers_claim (isOpen : κ → Bool) (caller : ι) (peers : List π) (map : Slots ι π κ) :
    ((claim isOpen caller peers map).1 = .lead ∧ (∀ p ∈ peers, dialers map p = none) ∧
      dialers (claim isOpen caller peers map).2 =
        fun p => if p ∈ peers then some caller else dialers map p) ∨
    ((∃ peer conn, (claim isOpen caller peers map).1 = .live peer conn) ∨
        ∃ leader, (claim isOpen caller peers map).1 = .wait leader) ∧
      dialers (claim isOpen caller peers map).2 = dialers map := by
  have hsame := dialers_firstOpen isOpen peers map
  rw [claim]
  split
  · rename_i peer conn map' hfirst
    rw [hfirst] at hsame
    exact .inr ⟨.inl ⟨peer, conn, rfl⟩, hsame⟩
  · rename_i map' hfirst
    rw [hfirst] at hsame
    split
    · rename_i leader _
      exact .inr ⟨.inr ⟨leader, rfl⟩, hsame⟩
    · rename_i hnone
      rw [← hsame]
      exact .inl ⟨rfl, List.findSome?_eq_none_iff.mp hnone, dialers_startDial caller peers map'⟩

/-- Forgetting a connection moves no dial. -/
theorem dialers_forget [DecidableEq κ] (peer : π) (conn : κ) (map : Slots ι π κ) :
    dialers (forget peer conn map) = dialers map := by
  rw [forget]
  split
  · rename_i cached hslot
    split
    · funext p
      obtain rfl | hne := eq_or_ne p peer
      · simp [dialers, hslot, Slot.leader]
      · simp [dialers, hne]
    · rfl
  · rfl

/-- A settled dial leads for none of its peers. -/
theorem dialers_settle (remoteId : κ → π) (peers : List π) (conn : κ) (map : Slots ι π κ) :
    dialers (settle remoteId peers conn map) =
      fun p => if p ∈ peers then none else dialers map p := by
  funext p
  rw [dialers, settle, foldl_update_apply
    (fun p slot => if p = remoteId conn then some (.live conn) else withoutDial slot)]
  · split
    · split
      · rfl
      · exact leader_withoutDial (map p)
    · rfl
  · intro p slot
    split
    · rfl
    · cases slot with
      | none => rfl
      | some slot => cases slot <;> rfl

/-- A dropped dial leads for none of its peers. -/
theorem dialers_dropLead (peers : List π) (map : Slots ι π κ) :
    dialers (dropLead peers map) = fun p => if p ∈ peers then none else dialers map p := by
  funext p
  rw [dialers, dropLead, foldl_update_apply (fun _ slot => withoutDial slot)]
  · split
    · exact leader_withoutDial (map p)
    · rfl
  · intro p slot
    cases slot with
    | none => rfl
    | some slot => cases slot <;> rfl

end Map

/-! ## the callers -/

/-- Where a `session_on` caller is. -/
inductive Caller (ι π κ : Type*) where
  | idle
  | looking (peers : List π)
  /-- Handed a cached connection, asking whether its device is refused. -/
  | checking (peers : List π) (peer : π) (conn : κ)
  /-- Opening a stream on it. -/
  | opening (peers : List π) (peer : π) (conn : κ)
  | waiting (peers : List π) (leader : ι)
  | leading (peers : List π)
  /-- Dialling a connection of its own, which is not cached. -/
  | alone
  | done

/-- The candidates a caller dials as a leader. -/
def Caller.lead {ι π κ : Type*} : Caller ι π κ → Option (List π)
  | .leading peers => some peers
  | _ => none

/-- The leads after one caller went on. -/
theorem lead_update {ι π κ : Type*} [DecidableEq ι] (callers : ι → Caller ι π κ) (i : ι)
    (caller : Caller ι π κ) :
    (fun j => (Function.update callers i caller j).lead) =
      Function.update (fun j => (callers j).lead) i caller.lead := by
  funext j
  obtain rfl | hne := eq_or_ne j i
  · rw [Function.update_self, Function.update_self]
  · rw [Function.update_of_ne hne, Function.update_of_ne hne]

/-- `peers.retain`, and whether any is left. -/
def withoutPeer {ι π κ : Type*} [DecidableEq π] (peers : List π) (peer : π) : Caller ι π κ :=
  match peers.filter (· ≠ peer) with
  | [] => .done
  | peers => .looking peers

theorem lead_withoutPeer {ι π κ : Type*} [DecidableEq π] (peers : List π) (peer : π) :
    (withoutPeer peers peer : Caller ι π κ).lead = none := by
  rw [withoutPeer]
  split
  · rfl
  · rfl

/-- How opening a stream on a cached connection went. -/
inductive StreamOutcome where
  | opened
  | stale
  | saturated

structure Cache (ι π κ : Type*) where
  map : Slots ι π κ
  callers : ι → Caller ι π κ
  closed : κ → Bool

/-- What happens next, and to which caller. -/
inductive Event (ι π κ : Type*) where
  | start (i : ι) (peers : List π)
  | look (i : ι)
  /-- The refusal check answers; `none` when it could not run. -/
  | checked (i : ι) (refused : Option Bool)
  | tried (i : ι) (outcome : StreamOutcome)
  | wake (i : ι)
  | dialed (i : ι) (conn : κ)
  | failed (i : ι)
  | dialedAlone (i : ι)
  /-- The caller's future is dropped, by its deadline or its own caller. -/
  | cancel (i : ι)
  | close (conn : κ)

section System

variable {ι π κ : Type*} [DecidableEq ι] [DecidableEq π] [DecidableEq κ]

def Event.caller : Event ι π κ → Option ι
  | .start i _ | .look i | .checked i _ | .tried i _ | .wake i | .dialed i _ | .failed i
  | .dialedAlone i | .cancel i => some i
  | .close _ => none

namespace Cache

def setCaller (s : Cache ι π κ) (i : ι) (caller : Caller ι π κ) : Cache ι π κ :=
  { s with callers := Function.update s.callers i caller }

/-- The caller `i` goes on from a change of the map. -/
def go (s : Cache ι π κ) (i : ι) (caller : Caller ι π κ) (map : Slots ι π κ) : Cache ι π κ :=
  { s.setCaller i caller with map }

/-- What a claim makes of its caller. -/
def claimed (peers : List π) : Claim ι π κ → Caller ι π κ
  | .live peer conn => .checking peers peer conn
  | .wait leader => .waiting peers leader
  | .lead => .leading peers

variable (remoteId : κ → π)

def step (s : Cache ι π κ) : Event ι π κ → Option (Cache ι π κ)
  | .start i peers =>
      match s.callers i with
      | .idle => some (s.setCaller i (.looking peers))
      | _ => none
  | .look i =>
      match s.callers i with
      | .looking peers =>
          let answer := claim (!s.closed ·) i peers s.map
          some (s.go i (claimed peers answer.1) answer.2)
      | _ => none
  | .checked i refused =>
      match s.callers i with
      | .checking peers peer conn =>
          match refused with
          | some false => some (s.setCaller i (.opening peers peer conn))
          | some true => some (s.setCaller i (withoutPeer peers peer))
          | none => some (s.setCaller i .done)
      | _ => none
  | .tried i outcome =>
      match s.callers i with
      | .opening peers peer conn =>
          match outcome with
          | .opened => some (s.setCaller i .done)
          | .stale => some (s.go i (.looking peers) (forget peer conn s.map))
          | .saturated => some (s.setCaller i .alone)
      | _ => none
  | .wake i =>
      match s.callers i with
      -- `fail` wakes its waiters before its slots go, so the leader may still be there
      | .waiting peers _ => some (s.setCaller i (.looking peers))
      | _ => none
  | .dialed i conn =>
      match s.callers i with
      | .leading peers => some (s.go i .done (settle remoteId peers conn s.map))
      | _ => none
  | .failed i =>
      match s.callers i with
      | .leading peers => some (s.go i .done (dropLead peers s.map))
      | _ => none
  | .dialedAlone i =>
      match s.callers i with
      | .alone => some (s.setCaller i .done)
      | _ => none
  | .cancel i =>
      match s.callers i with
      | .leading peers => some (s.go i .done (dropLead peers s.map))
      | .idle | .done => none
      | _ => some (s.setCaller i .done)
  | .close conn => some { s with closed := Function.update s.closed conn true }

/-- An empty cache, no caller yet. -/
def init : Cache ι π κ := ⟨fun _ => none, fun _ => .idle, fun _ => false⟩

/-- A state of some interleaving of callers. -/
def Reachable (s : Cache ι π κ) : Prop := ∃ events, run (step remoteId) init events = some s

/-! ### a step as a move of ownership -/

/-- Who dials each peer, and which peers each leader dials. -/
def ownership (s : Cache ι π κ) : Ownership ι π := ⟨dialers s.map, fun i => (s.callers i).lead⟩

variable {remoteId} {s s' : Cache ι π κ} {i : ι} {peers : List π}

omit [DecidableEq π] [DecidableEq κ] in
/-- The owners after a caller's step are those of the new slots. -/
theorem ownership_go (caller : Caller ι π κ) (map : Slots ι π κ) :
    (s.go i caller map).ownership =
      ⟨dialers map, Function.update s.ownership.held i caller.lead⟩ := by
  rw [ownership, ownership, go, setCaller, lead_update]

omit [DecidableEq κ] in
/-- A caller that neither led nor leads, on a map with the same dials. -/
theorem moves_quiet {caller : Caller ι π κ} {map : Slots ι π κ}
    (hbefore : (s.callers i).lead = none) (hafter : caller.lead = none)
    (hmap : dialers map = dialers s.map) :
    s.ownership.Moves (some i) (s.go i caller map).ownership := by
  have hheld : Function.update s.ownership.held i caller.lead = s.ownership.held := by
    rw [hafter, ← hbefore]
    exact Function.update_eq_self i s.ownership.held
  rw [ownership_go, hheld, hmap]
  exact .keep _

omit [DecidableEq κ] in
/-- A caller that led ends its lead, its candidates without a dial. -/
theorem moves_endLead {map : Slots ι π κ} (hlead : s.callers i = .leading peers)
    (hmap : dialers map = fun p => if p ∈ peers then none else dialers s.map p) :
    s.ownership.Moves (some i) (s.go i .done map).ownership := by
  rw [ownership_go, hmap]
  exact .release i peers (congrArg Caller.lead hlead)

/-- **Step lemma**: a step takes the candidates of a new leader, gives back
those of a leader that ends, or leaves every dial as it is. -/
theorem moves_of_step {e : Event ι π κ} (h : step remoteId s e = some s') :
    s.ownership.Moves e.caller s'.ownership := by
  cases e with
  | start i peers =>
      rw [step] at h
      split at h
      · rename_i hi
        rw [← Option.some.inj h]
        exact moves_quiet (congrArg Caller.lead hi) rfl rfl
      · contradiction
  | look i =>
      rw [step] at h
      split at h
      · rename_i peers hi
        rw [← Option.some.inj h]
        obtain ⟨hanswer, hfree, hmap⟩ | ⟨hanswer, hmap⟩ :=
          dialers_claim (!s.closed ·) i peers s.map
        · rw [ownership_go, hmap, hanswer]
          exact .take i peers (congrArg Caller.lead hi) hfree
        · refine moves_quiet (congrArg Caller.lead hi) ?_ hmap
          obtain ⟨peer, conn, hanswer⟩ | ⟨leader, hanswer⟩ := hanswer
          · rw [hanswer]; rfl
          · rw [hanswer]; rfl
      · contradiction
  | checked i refused =>
      rw [step] at h
      split at h
      · rename_i peers peer conn hi
        have hbefore := congrArg Caller.lead hi
        split at h
        · rw [← Option.some.inj h]
          exact moves_quiet hbefore rfl rfl
        · rw [← Option.some.inj h]
          exact moves_quiet hbefore (lead_withoutPeer peers peer) rfl
        · rw [← Option.some.inj h]
          exact moves_quiet hbefore rfl rfl
      · contradiction
  | tried i outcome =>
      rw [step] at h
      split at h
      · rename_i peers peer conn hi
        have hbefore := congrArg Caller.lead hi
        split at h
        · rw [← Option.some.inj h]
          exact moves_quiet hbefore rfl rfl
        · rw [← Option.some.inj h]
          exact moves_quiet hbefore rfl (dialers_forget peer conn s.map)
        · rw [← Option.some.inj h]
          exact moves_quiet hbefore rfl rfl
      · contradiction
  | wake i =>
      rw [step] at h
      split at h
      · rename_i peers leader hi
        rw [← Option.some.inj h]
        exact moves_quiet (congrArg Caller.lead hi) rfl rfl
      · contradiction
  | dialed i conn =>
      rw [step] at h
      split at h
      · rename_i peers hi
        rw [← Option.some.inj h]
        exact moves_endLead hi (dialers_settle remoteId peers conn s.map)
      · contradiction
  | failed i =>
      rw [step] at h
      split at h
      · rename_i peers hi
        rw [← Option.some.inj h]
        exact moves_endLead hi (dialers_dropLead peers s.map)
      · contradiction
  | dialedAlone i =>
      rw [step] at h
      split at h
      · rename_i hi
        rw [← Option.some.inj h]
        exact moves_quiet (congrArg Caller.lead hi) rfl rfl
      · contradiction
  | cancel i =>
      rw [step] at h
      split at h
      · rename_i peers hi
        rw [← Option.some.inj h]
        exact moves_endLead hi (dialers_dropLead peers s.map)
      · contradiction
      · contradiction
      · rename_i hlead _ _
        rw [← Option.some.inj h]
        refine moves_quiet ?_ rfl rfl
        cases hi : s.callers i with
        | leading peers => exact absurd hi (hlead peers)
        | idle | looking | checking | opening | waiting | alone | done => rfl
  | close conn =>
      rw [← Option.some.inj h]
      exact .keep none

/-- Every state of an interleaving keeps consistent books. -/
theorem consistent_of_reachable (h : Reachable remoteId s) : s.ownership.Consistent := by
  obtain ⟨events, hrun⟩ := h
  refine run_invariant (I := fun s => s.ownership.Consistent)
    (fun s e s' hs hstep => hs.moves (moves_of_step hstep)) (fun p i => ?_) hrun
  simp [ownership, dialers, init, Caller.lead]

omit [DecidableEq ι] [DecidableEq π] [DecidableEq κ] in
theorem leading_of_lead {caller : Caller ι π κ} (h : caller.lead = some peers) :
    caller = .leading peers := by
  cases caller with
  | leading peers' => rw [Option.some.inj h]
  | idle | looking | checking | opening | waiting | alone | done => contradiction

omit [DecidableEq ι] [DecidableEq π] [DecidableEq κ] in
/-- The owner of a peer is the one whose dial is in its slot. -/
theorem owner_eq_some {peer : π} :
    s.ownership.owner peer = some i ↔ s.map peer = some (.dialing i) := by
  refine ⟨fun h => ?_, fun h => congrArg (·.bind Slot.leader) h⟩
  obtain ⟨slot, hslot, hleader⟩ := Option.bind_eq_some_iff.mp h
  cases slot with
  | live conn => contradiction
  | dialing leader => rw [hslot, Option.some.inj hleader]

/-- Dials are single-flight.  A `Dialing` slot belongs to one leader, which is
still dialling and lists the peer; leaders that dial at the same time have no
candidate in common (a device found refused has left its caller's candidates);
a lead that ends leaves no slot behind; and no step takes a slot from another
leader. -/
theorem single_flight (h : Reachable remoteId s) :
    (∀ peer i, s.map peer = some (.dialing i) →
      ∃ peers, s.callers i = .leading peers ∧ peer ∈ peers ∧
        ∀ j peers', s.callers j = .leading peers' → peer ∈ peers' → j = i) ∧
    (∀ i j peers peers', s.callers i = .leading peers → s.callers j = .leading peers' → i ≠ j →
      ∀ peer ∈ peers, peer ∉ peers') ∧
    ∀ e s', step remoteId s e = some s' →
      (∀ i peers, s.callers i = .leading peers → (∀ peers', s'.callers i ≠ .leading peers') →
        ∀ peer, s'.map peer ≠ some (.dialing i)) ∧
      ∀ j peer, e.caller ≠ some j → s.map peer = some (.dialing j) →
        s'.map peer = some (.dialing j) := by
  have hcons := consistent_of_reachable h
  have hdisjoint : ∀ i j peers peers', s.callers i = .leading peers →
      s.callers j = .leading peers' → ∀ peer ∈ peers, peer ∈ peers' → i = j :=
    fun i j peers peers' hi hj peer hpeer hpeer' =>
      hcons.eq_of_mem (congrArg Caller.lead hi) (congrArg Caller.lead hj) hpeer hpeer'
  refine ⟨fun peer i hslot => ?_, fun i j peers peers' hi hj hne peer hpeer hpeer' =>
    hne (hdisjoint i j peers peers' hi hj peer hpeer hpeer'), fun e s' hstep => ?_⟩
  · obtain ⟨peers, hheld, hpeer⟩ := (hcons peer i).mp (owner_eq_some.mpr hslot)
    have hi := leading_of_lead hheld
    exact ⟨peers, hi, hpeer, fun j peers' hj hpeer' =>
      hdisjoint j i peers' peers hj hi peer hpeer' hpeer⟩
  · have hmove := moves_of_step hstep
    refine ⟨fun i peers _ hends peer hslot => ?_, fun j peer hother hslot => ?_⟩
    · obtain ⟨peers', hheld, _⟩ := (hcons.moves hmove peer i).mp (owner_eq_some.mpr hslot)
      exact hends peers' (leading_of_lead hheld)
    · exact owner_eq_some.mp (hcons.owner_of_other hmove hother (owner_eq_some.mpr hslot))

end Cache

end System

namespace Cache

def overlappingCalls : List (Event Nat Nat Nat) :=
  [.start 0 [1, 2], .look 0, .start 1 [2, 3], .look 1]

/-- Two callers with a common candidate: the first dials, the second waits. -/
def overlapping : Cache Nat Nat Nat := (run (step id) init overlappingCalls).getD init

theorem overlapping_single_flight :
    overlapping.callers 1 = .waiting [2, 3] 0 ∧
      ∃ peers, overlapping.callers 0 = .leading peers ∧ 2 ∈ peers ∧
        ∀ j peers', overlapping.callers j = .leading peers' → 2 ∈ peers' → j = 0 :=
  ⟨rfl, (single_flight ⟨overlappingCalls, (rfl : run (step id) init _ = _)⟩).1 2 0 rfl⟩

end Cache

end Mcpmesh.Dial
