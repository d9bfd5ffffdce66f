import Mcpmesh.Dial.Candidates
import Mcpmesh.Lib.Run
import Mathlib.Data.List.Chain

/-!
# Mcpmesh.Dial.Race

The staggered race of an outbound call (`race_dial` in `node/src/daemon/dial.rs`).

The loop is cut at its select: a step takes one of its branches, while the dials
of the join set end in any order and time passes between any two steps.  The
select is biased, so the stagger is taken only where there is nothing to join.
-/

namespace Mcpmesh.Dial

open Lib

/-- `DIAL_STAGGER`, in milliseconds. -/
def dialStagger : Nat := 500

/-- A dial of the race: the candidate it is of, when it was launched, and how
many had failed by then. -/
structure Launch where
  candidate : Nat
  time : Nat
  failed : Nat

/-- The state of the race; `launches` and `failed` are its history. -/
structure Race (T : Type) where
  next : Nat
  inFlight : List Nat
  ready : List (Nat × Except Anyhow T)
  lastErr : Option Anyhow
  armed : Nat
  now : Nat
  launches : List Launch
  failed : List (Nat × Anyhow)
  outcome : Option (Except Anyhow T)

inductive RaceEvent (T : Type) where
  /-- a dial ends, or its task does -/
  | finish (candidate : Nat) (result : Except Anyhow T)
  | elapse (ms : Nat)
  /-- `join_next` gives the result of a dial -/
  | join (candidate : Nat)
  /-- `join_next` finds the set empty -/
  | exhausted
  | stagger

/-- A turn of the loop. -/
def RaceEvent.turn {T : Type} : RaceEvent T → Bool
  | .finish _ _ | .elapse _ => false
  | .join _ | .exhausted | .stagger => true

namespace Race

section Model

variable {T : Type} (s : Race T)

/-- Launch the next candidate. -/
def launch : Race T :=
  { s with
    next := s.next + 1
    inFlight := s.inFlight ++ [s.next]
    armed := s.now
    launches := s.launches ++ [⟨s.next, s.now, s.failed.length⟩] }

/-- The race over `n` candidates, with the first of them launched. -/
def start (n : Nat) : Race T :=
  let empty : Race T :=
    { next := 0, inFlight := [], ready := [], lastErr := none, armed := 0, now := 0
      launches := [], failed := [], outcome := none }
  if n = 0 then { empty with outcome := some (.error ["no dial candidates to race"]) }
  else empty.launch

/-- Take the result of a dial out of the set; a success drops the set. -/
def onJoin (candidate : Nat) : Except Anyhow T → Race T
  | .ok transport => { s with inFlight := [], ready := [], outcome := some (.ok transport) }
  | .error e =>
      { s with
        ready := s.ready.eraseP (·.1 == candidate)
        lastErr := some e
        armed := s.now
        failed := s.failed ++ [(candidate, e)] }

/-- Every dial launched so far has failed. -/
def onExhausted (n : Nat) : Race T :=
  if s.next < n then s.launch
  else { s with outcome := some (.error (s.lastErr.getD ["all dial candidates failed"])) }

/-- A step of the race over `n` candidates. -/
def step (n : Nat) (s : Race T) : RaceEvent T → Option (Race T)
  | .elapse ms => some { s with now := s.now + ms }
  | .finish i result =>
      if s.outcome.isNone ∧ i ∈ s.inFlight then
        some { s with inFlight := s.inFlight.erase i, ready := s.ready ++ [(i, result)] }
      else none
  | .join i =>
      if s.outcome.isNone then (s.ready.lookup i).map (s.onJoin i) else none
  | .exhausted =>
      if s.outcome.isNone ∧ s.inFlight = [] ∧ s.ready = [] then some (s.onExhausted n) else none
  | .stagger =>
      if s.outcome.isNone ∧ s.inFlight ≠ [] ∧ s.ready = [] ∧ s.next < n ∧
          s.armed + dialStagger ≤ s.now then
        some s.launch
      else none

end Model

/-! ## what a run keeps -/

section Runs

variable {T : Type} {n : Nat} {s s' : Race T} {es : List (RaceEvent T)} {e : RaceEvent T}

/-- The dials that are launched and not given up. -/
def outstanding (s : Race T) : List Nat := s.inFlight ++ s.ready.map (·.1)

/-- Two launches in a row: the second waits for the stagger, or for the failure
of all before it. -/
def Spaced (a b : Launch) : Prop := a.time + dialStagger ≤ b.time ∨ b.failed = b.candidate

/-- What holds of the state that the events `es` lead to. -/
structure Inv (n : Nat) (es : List (RaceEvent T)) (s : Race T) : Prop where
  order : s.launches.map Launch.candidate = List.range s.next
  next_le : s.next ≤ n
  ready : ∀ p ∈ s.ready, RaceEvent.finish p.1 p.2 ∈ es
  failed : ∀ p ∈ s.failed, RaceEvent.finish p.1 (.error p.2) ∈ es
  lastErr : s.lastErr = s.failed.getLast?.map (·.2)
  pending : s.outcome = none →
    0 < s.next ∧ (s.outstanding ++ s.failed.map (·.1)).Perm (List.range s.next)
  won : ∀ t, s.outcome = some (.ok t) → ∃ i < s.next, RaceEvent.finish i (.ok t) ∈ es
  lost : ∀ e, s.outcome = some (.error e) → 0 < n →
    (s.failed.map (·.1)).Perm (List.range n) ∧ s.failed.getLast?.map (·.2) = some e
  armed : ∀ l ∈ s.launches.getLast?, l.time ≤ s.armed
  now : s.armed ≤ s.now
  spaced : s.launches.IsChain Spaced

/-- The next launch. -/
theorem Inv.launch (h : Inv n es s) (hnext : s.next < n) (hopen : s.outcome = none)
    (hspaced : ∀ l ∈ s.launches.getLast?, Spaced l ⟨s.next, s.now, s.failed.length⟩) :
    Inv n es s.launch where
  order := by
    simp only [Race.launch, List.map_append, h.order, List.range_succ, List.map_singleton]
  next_le := hnext
  ready := h.ready
  failed := h.failed
  lastErr := h.lastErr
  pending _ := by
    refine ⟨Nat.succ_pos _, ?_⟩
    have hperm := (h.pending hopen).2
    rw [outstanding] at hperm ⊢
    rw [Race.launch, List.range_succ]
    simp only [List.append_assoc]
    refine (List.perm_append_comm_assoc ..).trans ?_
    simp only [List.append_assoc] at hperm
    exact (List.perm_append_comm.trans (hperm.append_right _))
  won t ht := by
    have hnone : s.launch.outcome = none := hopen
    exact absurd (hnone.symm.trans ht) nofun
  lost e he := by
    have hnone : s.launch.outcome = none := hopen
    exact absurd (hnone.symm.trans he) nofun
  armed l hl := by
    rw [Race.launch, List.getLast?_concat] at hl
    obtain rfl := Option.some.inj hl
    exact le_rfl
  now := le_rfl
  spaced := List.isChain_append.mpr ⟨h.spaced, List.isChain_singleton _, fun l hl b hb => by
    obtain rfl := Option.some.inj hb
    exact hspaced l hl⟩

/-- A step of the environment, seen by the state. -/
theorem Inv.mono (h : Inv n es s) : Inv n (es ++ [e]) s where
  order := h.order
  next_le := h.next_le
  ready p hp := List.mem_append_left _ (h.ready p hp)
  failed p hp := List.mem_append_left _ (h.failed p hp)
  lastErr := h.lastErr
  pending := h.pending
  won t ht := by
    obtain ⟨i, hi, hmem⟩ := h.won t ht
    exact ⟨i, hi, List.mem_append_left _ hmem⟩
  lost := h.lost
  armed := h.armed
  now := h.now
  spaced := h.spaced

/-- Time goes by. -/
theorem Inv.elapse (h : Inv n es s) (ms : Nat) : Inv n es { s with now := s.now + ms } :=
  { h with now := h.now.trans (Nat.le_add_right ..) }

/-- Taking a result out of the set. -/
theorem perm_of_lookup {ready : List (Nat × Except Anyhow T)} {i : Nat} {result : Except Anyhow T}
    (h : ready.lookup i = some result) :
    ready.Perm ((i, result) :: ready.eraseP (·.1 == i)) := by
  induction ready with
  | nil => contradiction
  | cons p ready ih =>
      rw [List.lookup_cons] at h
      by_cases hp : p.1 = i
      · obtain rfl := hp
        rw [BEq.rfl] at h
        obtain rfl := Option.some.inj h
        rw [List.eraseP_cons_of_pos (by exact BEq.rfl)]
      · rw [show (i == p.1) = false from beq_false_of_ne (Ne.symm hp)] at h
        rw [List.eraseP_cons_of_neg (by simpa using hp)]
        exact ((ih h).cons p).trans (.swap ..)

/-- Nothing was launched yet. -/
theorem inv_start (n : Nat) : Inv (T := T) n [] (start n) := by
  rcases Nat.eq_zero_or_pos n with rfl | hn
  · exact ⟨rfl, le_rfl, nofun, nofun, rfl, nofun, nofun, fun _ _ h => absurd h (lt_irrefl 0), nofun,
      le_rfl, .nil⟩
  · rw [start, if_neg hn.ne']
    refine ⟨rfl, hn, nofun, nofun, rfl, fun _ => ⟨one_pos, .refl _⟩, nofun, nofun, ?_, le_rfl,
      List.isChain_singleton _⟩
    intro l hl
    obtain rfl := Option.some.inj hl
    exact le_rfl

/-- An attempt that ends is ready to be joined. -/
theorem Inv.finish {i : Nat} {result : Except Anyhow T} (h : Inv n es s) (hi : i ∈ s.inFlight) :
    Inv n (es ++ [.finish i result])
      { s with inFlight := s.inFlight.erase i, ready := s.ready ++ [(i, result)] } := by
  have hlater : Inv n (es ++ [.finish i result]) s := h.mono
  refine { hlater with ready := ?_, pending := ?_ }
  · intro p hp
    obtain hp | hp := List.mem_append.mp hp
    · exact hlater.ready p hp
    · obtain rfl := List.mem_singleton.mp hp
      exact List.mem_append_right _ (List.mem_singleton_self _)
  · intro hopen
    refine ⟨(h.pending hopen).1, ?_⟩
    have hperm : (s.inFlight.erase i ++ (s.ready ++ [(i, result)]).map (·.1)).Perm
        (s.inFlight ++ s.ready.map (·.1)) := by
      rw [List.map_append, ← List.append_assoc]
      refine List.perm_append_comm.trans ?_
      exact (List.perm_cons_erase hi).symm.append_right _
    exact (hperm.append_right _).trans (h.pending hopen).2

/-- An attempt that is joined wins the race, or is counted as failed. -/
theorem Inv.join {i : Nat} {result : Except Anyhow T} (h : Inv n es s) (hopen : s.outcome = none)
    (hi : s.ready.lookup i = some result) : Inv n es (s.onJoin i result) := by
  have hready := perm_of_lookup hi
  have hmem : (i, result) ∈ s.ready := hready.symm.subset List.mem_cons_self
  obtain ⟨hpos, hperm⟩ := h.pending hopen
  cases result with
  | ok transport =>
      have hnext : i < s.next := by
        have hmap : i ∈ s.ready.map (·.1) := List.mem_map_of_mem hmem
        exact List.mem_range.mp
          (hperm.subset (List.mem_append_left _ (List.mem_append_right _ hmap)))
      refine { h with ready := nofun, pending := nofun, won := ?_, lost := nofun }
      intro t ht
      obtain rfl := Except.ok.inj (Option.some.inj ht)
      exact ⟨i, hnext, h.ready _ hmem⟩
  | error e =>
      have herror : (s.onJoin i (.error e)).outcome = none := hopen
      exact
        { order := h.order
          next_le := h.next_le
          ready := fun p hp => h.ready p (List.mem_of_mem_eraseP hp)
          failed := fun p hp => by
            obtain hp | hp := List.mem_append.mp hp
            · exact h.failed p hp
            · obtain rfl := List.mem_singleton.mp hp
              exact h.ready _ hmem
          lastErr := by
            rw [onJoin, List.getLast?_concat]
            rfl
          pending := fun _ => by
            refine ⟨hpos, .trans ?_ hperm⟩
            simp only [onJoin, outstanding, List.map_append, List.map_singleton, List.append_assoc]
            refine List.Perm.append_left _ ?_
            refine .trans ?_ ((hready.map (·.1)).append_right _).symm
            rw [← List.append_assoc]
            exact List.perm_append_singleton ..
          won := fun t ht => absurd (herror.symm.trans ht) nofun
          lost := fun t ht => absurd (herror.symm.trans ht) nofun
          armed := fun l hl => (h.armed l hl).trans h.now
          now := le_rfl
          spaced := h.spaced }

/-- Where all have failed the last error is the answer. -/
theorem Inv.exhausted (h : Inv n es s) (hopen : s.outcome = none) (hflight : s.inFlight = [])
    (hready : s.ready = []) : Inv n es (s.onExhausted n) := by
  obtain ⟨hpos, hperm⟩ := h.pending hopen
  rw [outstanding, hflight, hready] at hperm
  have hlength : s.failed.length = s.next := by
    rw [← List.length_map (f := (·.1)), ← List.length_range (n := s.next)]
    exact hperm.length_eq
  unfold onExhausted
  split
  · next hnext => exact h.launch hnext hopen fun l _ => .inr hlength
  · next hnext =>
    have heq : s.next = n := le_antisymm h.next_le (not_lt.mp hnext)
    refine { h with pending := nofun, won := nofun, lost := ?_ }
    intro e he _
    refine ⟨heq ▸ hperm, ?_⟩
    obtain ⟨failed, last, hlast⟩ : ∃ failed last, s.failed = failed ++ [last] := by
      refine (List.eq_nil_or_concat' s.failed).resolve_left fun hnil => ?_
      rw [hnil] at hlength
      exact absurd hlength hpos.ne
    have herr : s.lastErr = some last.2 := by
      rw [h.lastErr, hlast, List.getLast?_concat]
      rfl
    rw [herr] at he
    obtain rfl := Except.error.inj (Option.some.inj he)
    rw [← h.lastErr, herr]
    rfl

/-- Each step keeps the account. -/
theorem inv_step (h : Inv n es s) (hstep : step n s e = some s') : Inv n (es ++ [e]) s' := by
  cases e with
  | elapse ms => exact Option.some.inj hstep ▸ h.mono.elapse ms
  | finish i result =>
      simp only [step] at hstep
      split_ifs at hstep with hguard
      exact Option.some.inj hstep ▸ h.finish hguard.2
  | join i =>
      simp only [step] at hstep
      split_ifs at hstep with hopen
      obtain ⟨result, hresult, rfl⟩ := Option.map_eq_some_iff.mp hstep
      exact h.mono.join (Option.isNone_iff_eq_none.mp hopen) hresult
  | exhausted =>
      simp only [step] at hstep
      split_ifs at hstep with hguard
      obtain ⟨hopen, hflight, hready⟩ := hguard
      exact Option.some.inj hstep ▸
        h.mono.exhausted (Option.isNone_iff_eq_none.mp hopen) hflight hready
  | stagger =>
      simp only [step] at hstep
      split_ifs at hstep with hguard
      obtain ⟨hopen, -, -, hnext, hstagger⟩ := hguard
      refine Option.some.inj hstep ▸
        h.mono.launch hnext (Option.isNone_iff_eq_none.mp hopen) fun l hl => .inl ?_
      exact (Nat.add_le_add_right (h.armed l hl) _).trans hstagger

/-- The account, in every run. -/
theorem inv_of_run (hrun : run (step n) (start n) es = some s) : Inv n es s :=
  run_history (inv_start n) (fun _ _ _ _ _ h hstep => inv_step h hstep) hrun

/-- How many turns are left at most. -/
def rank (n : Nat) (s : Race T) : Nat :=
  if s.outcome.isNone then 2 * (n - s.next) + s.outstanding.length + 1 else 0

theorem rank_open (hopen : s.outcome.isNone = true) :
    rank n s = 2 * (n - s.next) + s.outstanding.length + 1 := if_pos hopen

/-- A launch takes one turn. -/
theorem rank_launch (hopen : s.outcome.isNone = true) (hnext : s.next < n) :
    rank n s.launch < rank n s := by
  rw [rank_open hopen, rank_open (s := s.launch) hopen]
  simp only [Race.launch, outstanding, List.length_append, List.length_singleton]
  omega

/-- A turn brings the race nearer to its end; nothing else moves it. -/
theorem rank_step (hstep : step n s e = some s') :
    rank n s' + (if e.turn then 1 else 0) ≤ rank n s := by
  cases e with
  | elapse ms => exact Option.some.inj hstep ▸ le_rfl
  | finish i result =>
      simp only [step] at hstep
      split_ifs at hstep with hguard
      obtain ⟨hopen, hi⟩ := hguard
      obtain rfl := Option.some.inj hstep
      have hlength := List.length_erase_of_mem hi
      have hpos := List.length_pos_of_mem hi
      rw [rank_open hopen, rank_open (by exact hopen)]
      simp only [outstanding, List.length_append, List.length_map, List.length_singleton,
        RaceEvent.turn, Bool.false_eq_true, if_false]
      omega
  | join i =>
      simp only [step] at hstep
      split_ifs at hstep with hopen
      obtain ⟨result, hresult, rfl⟩ := Option.map_eq_some_iff.mp hstep
      have hlength := (perm_of_lookup hresult).length_eq
      rw [List.length_cons] at hlength
      rw [rank_open hopen]
      cases result with
      | ok transport => exact Nat.le_add_left ..
      | error e =>
          rw [rank_open (by exact hopen)]
          simp only [onJoin, outstanding, List.length_append, List.length_map, RaceEvent.turn,
            if_true]
          omega
  | exhausted =>
      simp only [step] at hstep
      split_ifs at hstep with hguard
      obtain rfl := Option.some.inj hstep
      unfold onExhausted
      split
      · next hnext => exact rank_launch hguard.1 hnext
      · rw [rank_open hguard.1]
        exact Nat.le_add_left ..
  | stagger =>
      simp only [step] at hstep
      split_ifs at hstep with hguard
      obtain ⟨hopen, -, -, hnext, -⟩ := hguard
      exact Option.some.inj hstep ▸ rank_launch hopen hnext

/-- Each turn lowers the rank, so there are no more of them than the rank at the start.
-/
theorem rank_run (hrun : run (step n) s es = some s') :
    rank n s' + es.countP RaceEvent.turn ≤ rank n s := by
  induction es generalizing s with
  | nil => exact Option.some.inj hrun ▸ le_rfl
  | cons e es ih =>
      obtain ⟨s₁, hse, hrun⟩ := run_cons_eq_some.mp hrun
      have h := ih hrun
      have h₁ := rank_step hse
      rw [List.countP_cons]
      omega

/-- **The race never hangs**: it takes no more than two turns for each candidate,
and while it is open, a dial is in flight or a turn is due. -/
theorem race_ends (n : Nat) (hrun : run (step n) (start n) es = some s) :
    es.countP RaceEvent.turn ≤ 2 * n ∧ (s.outcome = none → s.inFlight = [] →
      ∃ e : RaceEvent T, e.turn = true ∧ (step n s e).isSome) := by
  constructor
  · have h := rank_run hrun
    have hstart : rank n (start n : Race T) ≤ 2 * n := by
      rcases Nat.eq_zero_or_pos n with rfl | hn
      · exact le_rfl
      · rw [start, if_neg hn.ne', rank_open (by rfl)]
        simp only [Race.launch, outstanding, List.nil_append, List.map_nil, List.append_nil,
          List.length_singleton]
        omega
    omega
  · intro hopen hflight
    cases hready : s.ready with
    | nil => exact ⟨.exhausted, rfl, by simp only [step, hopen, hflight, hready]; rfl⟩
    | cons p ready =>
        exact ⟨.join p.1, rfl, by simp [step, hopen, hready]⟩

/-- **The race of an outbound call** over the devices of a peer: they are dialled
in their order, each once and none that is refused; a session is one that a dial
opened, and the call is given up only when every dial has failed, with the error
of the last. -/
theorem race_gives_up_last {I : Iroh} {m : Moments} {candidates : List EndpointId}
    {addrs : List EndpointAddr} (haddrs : hintedAddrs I m candidates = .ok addrs)
    (hrun : run (step addrs.length) (start addrs.length) es = some s) :
    s.launches.map Launch.candidate = List.range s.next ∧ s.launches.IsChain Spaced ∧
    (∀ l ∈ s.launches, ∃ addr, addrs[l.candidate]? = some addr ∧ m.refused addr.id = false) ∧
    (∀ t, s.outcome = some (.ok t) → ∃ i < s.next, RaceEvent.finish i (.ok t) ∈ es) ∧
    ∀ e, s.outcome = some (.error e) → ∀ id ∈ candidates, m.refused id = false →
      I.fromBytes id = .ok () → (∃ i addr e', addrs[i]? = some addr ∧ addr.id = id ∧
        RaceEvent.finish i (.error e') ∈ es) ∧
      ∃ i, s.failed.getLast? = some (i, e) ∧ RaceEvent.finish i (.error e) ∈ es := by
  have h := inv_of_run hrun
  refine ⟨h.order, h.spaced, fun l hl => ?_, h.won, fun e he id hid hrefused hpoint => ?_⟩
  · have hnext : l.candidate ∈ List.range s.next := h.order ▸ List.mem_map_of_mem hl
    have hlt : l.candidate < addrs.length := (List.mem_range.mp hnext).trans_le h.next_le
    refine ⟨addrs[l.candidate], List.getElem?_eq_getElem hlt, ?_⟩
    exact ((mem_hintedAddrs haddrs).mp (List.mem_map_of_mem (List.getElem_mem hlt))).2.1
  · have hmem : id ∈ addrs.map (·.id) := (mem_hintedAddrs haddrs).mpr ⟨hid, hrefused, hpoint⟩
    obtain ⟨addr, haddr, rfl⟩ := List.mem_map.mp hmem
    obtain ⟨i, hi, rfl⟩ := List.mem_iff_getElem.mp haddr
    obtain ⟨hperm, hlast⟩ := h.lost e he (Nat.zero_lt_of_lt hi)
    have hfailed : i ∈ s.failed.map (·.1) := hperm.symm.subset (List.mem_range.mpr hi)
    obtain ⟨p, hp, rfl⟩ := List.mem_map.mp hfailed
    obtain ⟨last, hread, rfl⟩ := Option.map_eq_some_iff.mp hlast
    exact ⟨⟨p.1, _, p.2, List.getElem?_eq_getElem hi, rfl, h.failed p hp⟩, last.1, hread,
      h.failed last (List.mem_of_getLast? hread)⟩

end Runs

/-! ## a stalled desktop -/

namespace Example

def desktop : EndpointId := .replicate 32 1

def laptop : EndpointId := .replicate 32 2

def iroh : Iroh where
  fromBytes _ := .ok ()
  fromStr _ := none
  idleTimeout ms :=
    if ms < 2 ^ 62 then .ok () else .error "value too large for varint encoding"

def node : MeshState where
  store :=
    { revoked := fun _ => .ok none
      peers := fun _ => .ok none
      revokedUsers := fun _ => .ok none
      fromSlice := fun _ => .error "expected value" }
  peerRows := .ok []
  view := none
  presence := []
  keepAliveSecs := 5

def moments : Moments := { resolve := node, filter := fun _ => node, hint := fun _ => node }

/-- The desktop answers nothing; the laptop is dialled after the stagger. -/
def stalled : List (RaceEvent String) :=
  [.elapse 500, .stagger, .elapse 40, .finish 1 (.ok "laptop"), .join 1]

/-- Both fail, the desktop at once. -/
def refused : List (RaceEvent String) :=
  [.finish 0 (.error ["refused"]), .join 0, .exhausted, .elapse 40,
    .finish 1 (.error ["timeout"]), .join 1, .exhausted]

end Example

theorem race_ends_example : ∃ s, run (step 2) (start 2) Example.stalled = some s ∧
    s.launches.map Launch.time = [0, 500] ∧ Example.stalled.countP RaceEvent.turn ≤ 4 := by
  have hrun : run (step 2) (start 2) Example.stalled = some _ := rfl
  exact ⟨_, hrun, rfl, (race_ends 2 hrun).1⟩

theorem race_gives_up_last_example : ∃ addrs s,
    hintedAddrs Example.iroh Example.moments [Example.desktop, Example.laptop] = .ok addrs ∧
      run (step addrs.length) (start addrs.length) Example.refused = some s ∧
      s.outcome = some (.error ["timeout"]) ∧
      ∃ i, s.failed.getLast? = some (i, ["timeout"]) ∧
        RaceEvent.finish i (.error ["timeout"]) ∈ Example.refused := by
  have haddrs : hintedAddrs Example.iroh Example.moments [Example.desktop, Example.laptop] =
    .ok [.bare Example.desktop, .bare Example.laptop] := rfl
  have hrun : run (step 2) (start 2) Example.refused = some _ := rfl
  exact ⟨_, _, haddrs, hrun, rfl, ((race_gives_up_last haddrs hrun).2.2.2.2 _ rfl Example.laptop
    (by decide) rfl rfl).2⟩

end Race

end Mcpmesh.Dial
