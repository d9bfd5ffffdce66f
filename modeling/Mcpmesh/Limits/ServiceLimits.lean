import Mcpmesh.Daemon.Registry
import Mcpmesh.Limits.RateLimiter

/-!
# Mcpmesh.Limits.ServiceLimits

The limiters of the services (`MeshLimiters` in `node/src/limits.rs`).

Each rebuild of the registry asks for the limiter of every service, and each
session keeps the one of the registry it was opened in; the limiters are told
apart by the allocation they live in.  Rebuilds and requests come in any order.
-/

namespace Mcpmesh

open Lib

/-- The limiter of a service, and the rate it was built for. -/
structure ServiceBucket where
  effectiveRpm : Option Nat
  limiter : Nat

/-- A request that asked a limiter. -/
structure Metered where
  limiter : Nat
  call : LimitCall
  out : Except Nat Unit

/-- The bundle and its limiters.  `made` and `handed` are ghosts: the rate that
each limiter was made for, and which services it was handed out for. -/
structure ServiceLimiters where
  globalRpm : Option Nat
  services : AList fun _ : String => ServiceBucket
  heap : Nat → Option RateLimiter
  next : Nat
  made : Nat → Option (Option Nat)
  handed : List (String × Nat)
  log : List Metered

inductive LimiterEvent where
  /-- `for_service`; the victim is the entry that is evicted where the map is full -/
  | forService (name : String) (configured : Option Nat) (victim : String)
  | check (limiter : Nat) (call : LimitCall)

/-- `MAX_TRACKED_SERVICES`. -/
def maxTrackedServices : Nat := 256

/-- The limiter of a rate: `RateLimiter::unlimited_shared` where there is none. -/
def limiterOf (effectiveRpm : Option Nat) : RateLimiter :=
  match effectiveRpm with
  | none => .perMinute (2 ^ 32 - 1) (2 ^ 32 - 1)
  | some rpm => .perMinute rpm rpm

namespace ServiceLimiters

section Model

variable (s : ServiceLimiters)

def start (globalRpm : Option Nat) : ServiceLimiters where
  globalRpm
  services := ∅
  heap _ := none
  next := 0
  made _ := none
  handed := []
  log := []

/-- Hand out a limiter. -/
def hand (name : String) (limiter : Nat) : ServiceLimiters :=
  { s with handed := s.handed ++ [(name, limiter)] }

/-- Build the limiter of a service. -/
def build (name : String) (effective : Option Nat) : ServiceLimiters :=
  { s with
    services := s.services.insert name ⟨effective, s.next⟩
    heap := Function.update s.heap s.next (some (limiterOf effective))
    made := Function.update s.made s.next (some effective)
    next := s.next + 1 }

def forService (name : String) (configured : Option Nat) (victim : String) :
    Option ServiceLimiters :=
  let effective := effectiveRpm s.globalRpm configured
  match s.services.lookup name with
  | some existing =>
      if existing.effectiveRpm = effective then some (s.hand name existing.limiter)
      else some ((s.build name effective).hand name s.next)
  | none =>
      if maxTrackedServices ≤ s.services.keys.length then
        if victim ∈ s.services then
          let s := { s with services := s.services.erase victim }
          some ((s.build name effective).hand name s.next)
        else none
      else some ((s.build name effective).hand name s.next)

def step (s : ServiceLimiters) : LimiterEvent → Option ServiceLimiters
  | .forService name configured victim => s.forService name configured victim
  | .check limiter call => do
      let rl ← s.heap limiter
      let out := limiterStep rl call
      pure { s with
        heap := Function.update s.heap limiter (some out.1)
        log := s.log ++ [⟨limiter, call, out.2⟩] }

/-- The requests that asked a limiter. -/
def callsOf (limiter : Nat) : List LimitCall :=
  (s.log.filter (·.limiter = limiter)).map Metered.call

/-- What it answered. -/
def outsOf (limiter : Nat) : List (Except Nat Unit) :=
  (s.log.filter (·.limiter = limiter)).map Metered.out

end Model

/-! ## what a run keeps -/

end ServiceLimiters

/-- A rebuild that asks for the service at its rate, and evicts another. -/
def LimiterEvent.Steady (globalRpm : Option Nat) (name : String) (effective : Option Nat) :
    LimiterEvent → Prop
  | .forService n configured victim =>
      (n = name → effectiveRpm globalRpm configured = effective) ∧ victim ≠ name
  | .check _ _ => True

namespace ServiceLimiters

variable {s s' : ServiceLimiters} {globalRpm : Option Nat} {es : List LimiterEvent}
  {e : LimiterEvent} {name : String}

/-- What holds of every state of a run. -/
structure Inv (globalRpm : Option Nat) (s : ServiceLimiters) : Prop where
  global : s.globalRpm = globalRpm
  calls : ∀ m ∈ s.log, m.limiter < s.next
  given : ∀ p ∈ s.handed, p.2 < s.next
  cell : ∀ h, h < s.next → ∃ effective rl, s.made h = some effective ∧ s.heap h = some rl ∧
    rl = final limiterStep (limiterOf effective) (s.callsOf h) ∧
    s.outsOf h = (trace limiterStep (limiterOf effective) (s.callsOf h)).map Called.out
  fresh : ∀ h, s.next ≤ h → s.heap h = none
  made : ∀ h effective, s.made h = some effective →
    ∃ configured, effective = effectiveRpm globalRpm configured
  tracked : ∀ n b, s.services.lookup n = some b →
    s.made b.limiter = some b.effectiveRpm ∧ (n, b.limiter) ∈ s.handed
  owner : ∀ n n' h, (n, h) ∈ s.handed → (n', h) ∈ s.handed → n = n'
  bound : s.services.keys.length ≤ maxTrackedServices

theorem inv_start (globalRpm : Option Nat) : Inv globalRpm (start globalRpm) where
  global := rfl
  calls := nofun
  given := nofun
  cell _ h := absurd h (Nat.not_lt_zero _)
  fresh _ _ := rfl
  made _ _ h := absurd h nofun
  tracked _ _ h := absurd h nofun
  owner _ _ _ h := absurd h List.not_mem_nil
  bound := Nat.zero_le _

/-- Without one of its services the map has room. -/
theorem Inv.room (h : Inv globalRpm s) (hmem : name ∈ s.services) :
    (s.services.keys.erase name).length < maxTrackedServices := by
  have hkey : name ∈ s.services.keys := AList.mem_keys.mp hmem
  rw [List.length_erase_of_mem hkey]
  exact lt_of_lt_of_le (Nat.sub_lt (List.length_pos_of_mem hkey) one_pos) h.bound

/-- What `for_service` does: it hands out the limiter of the service, or builds
one, after it may have evicted the victim. -/
theorem forService_cases {configured : Option Nat} {victim : String} (h : Inv globalRpm s)
    (hstep : s.forService name configured victim = some s') :
    (∃ existing, s.services.lookup name = some existing ∧
      existing.effectiveRpm = effectiveRpm s.globalRpm configured ∧
      s' = s.hand name existing.limiter) ∨
    ∃ services : AList fun _ : String => ServiceBucket,
      s' = ({ s with services }.build name (effectiveRpm s.globalRpm configured)).hand name s.next ∧
      (∀ n b, services.lookup n = some b → s.services.lookup n = some b) ∧
      (∀ n, n ≠ victim → services.lookup n = s.services.lookup n) ∧
      (∀ existing, s.services.lookup name = some existing →
        existing.effectiveRpm ≠ effectiveRpm s.globalRpm configured) ∧
      (services.keys.erase name).length < maxTrackedServices := by
  unfold forService at hstep
  dsimp only at hstep
  split at hstep
  · next existing hlookup =>
    split_ifs at hstep with heff
    · exact .inl ⟨existing, hlookup, heff, (Option.some.inj hstep).symm⟩
    · refine .inr ⟨s.services, (Option.some.inj hstep).symm, fun _ _ h => h, fun _ _ => rfl, ?_, ?_⟩
      · rintro other hother
        rw [hlookup] at hother
        exact Option.some.inj hother ▸ heff
      · exact h.room (AList.lookup_isSome.mp (by rw [hlookup]; rfl))
  · next hlookup =>
    have hnone (services : AList fun _ : String => ServiceBucket)
        (hsub : ∀ n b, services.lookup n = some b → s.services.lookup n = some b) :
        services.keys.erase name = services.keys := by
      refine List.erase_of_not_mem fun hmem => ?_
      have hsome := AList.lookup_isSome.mpr (AList.mem_keys.mpr hmem)
      obtain ⟨b, hb⟩ := Option.isSome_iff_exists.mp hsome
      rw [hsub name b hb] at hlookup
      contradiction
    split_ifs at hstep with hfull hvictim
    · have hsub (n : String) (b : ServiceBucket)
          (hb : (s.services.erase victim).lookup n = some b) : s.services.lookup n = some b := by
        rw [lookup_alist_erase] at hb
        split at hb
        · contradiction
        · exact hb
      refine .inr ⟨s.services.erase victim, (Option.some.inj hstep).symm, hsub, fun n hn => ?_, ?_,
        ?_⟩
      · exact AList.lookup_erase_ne hn
      · rw [hlookup]
        exact nofun
      · rw [hnone _ hsub, AList.keys_erase]
        exact h.room hvictim
    · refine .inr ⟨s.services, (Option.some.inj hstep).symm, fun _ _ h => h, fun _ _ => rfl, ?_, ?_⟩
      · rw [hlookup]
        exact nofun
      · rw [hnone _ fun _ _ h => h]
        exact not_le.mp hfull

/-- The calls of a limiter are its own. -/
theorem callsOf_snoc (log : List Metered) (m : Metered) (h : Nat) :
    ((log ++ [m]).filter (·.limiter = h)) =
      log.filter (·.limiter = h) ++ if m.limiter = h then [m] else [] := by
  rw [List.filter_append]
  by_cases hm : m.limiter = h <;> simp [hm]

/-- A limiter that is handed out again. -/
theorem Inv.hand {existing : ServiceBucket} (h : Inv globalRpm s)
    (hlookup : s.services.lookup name = some existing) :
    Inv globalRpm (s.hand name existing.limiter) := by
  have hold : (name, existing.limiter) ∈ s.handed := (h.tracked name existing hlookup).2
  have hmem (p : String × Nat) (hp : p ∈ s.handed ++ [(name, existing.limiter)]) :
      p ∈ s.handed := by
    obtain hp | hp := List.mem_append.mp hp
    · exact hp
    · exact List.mem_singleton.mp hp ▸ hold
  exact
    { global := h.global
      calls := h.calls
      given := fun p hp => h.given p (hmem p hp)
      cell := h.cell
      fresh := h.fresh
      made := h.made
      tracked := fun n b hb => ⟨(h.tracked n b hb).1, List.mem_append_left _ (h.tracked n b hb).2⟩
      owner := fun n n' l hn hn' => h.owner n n' l (hmem _ hn) (hmem _ hn')
      bound := h.bound }

/-- A limiter that is built. -/
theorem Inv.build {services : AList fun _ : String => ServiceBucket} {configured : Option Nat}
    (h : Inv globalRpm s)
    (hsub : ∀ n b, services.lookup n = some b → s.services.lookup n = some b)
    (hroom : (services.keys.erase name).length < maxTrackedServices) :
    Inv globalRpm (({ s with services }.build name
      (effectiveRpm s.globalRpm configured)).hand name s.next) := by
  have hempty : s.callsOf s.next = [] ∧ s.outsOf s.next = [] := by
    have hfilter : s.log.filter (·.limiter = s.next) = [] :=
      List.filter_eq_nil_iff.mpr fun m hm heq => (h.calls m hm).ne (of_decide_eq_true heq)
    exact ⟨by rw [callsOf, hfilter]; rfl, by rw [outsOf, hfilter]; rfl⟩
  have hgiven {n : String} {l : Nat} (hn : (n, l) ∈ s.handed ++ [(name, s.next)]) :
      (n, l) ∈ s.handed ∨ n = name ∧ l = s.next := by
    obtain hn | hn := List.mem_append.mp hn
    · exact .inl hn
    · exact .inr (Prod.mk.inj (List.mem_singleton.mp hn))
  have hnew : ∀ n, (n, s.next) ∉ s.handed := fun n hn => (h.given _ hn).ne rfl
  refine ⟨h.global, fun m hm => (h.calls m hm).trans (Nat.lt_succ_self _), fun p hp => ?_,
    fun l hl => ?_, fun l hl => ?_, fun l effective hl => ?_, fun n b hb => ?_,
    fun n n' l hn hn' => ?_, ?_⟩
  · obtain hp | ⟨-, hp⟩ := hgiven hp
    · exact (h.given p hp).trans (Nat.lt_succ_self _)
    · exact hp ▸ Nat.lt_succ_self _
  · obtain rfl | hne := eq_or_ne l s.next
    · refine ⟨_, _, Function.update_self .., Function.update_self .., ?_, ?_⟩
      · exact (congrArg (final limiterStep _) hempty.1).symm
      · exact hempty.2.trans
          (congrArg (fun calls => (trace limiterStep _ calls).map Called.out) hempty.1).symm
    · obtain ⟨effective, rl, hmade, hheap, hcell⟩ :=
        h.cell l (lt_of_le_of_ne (Nat.lt_succ_iff.mp hl) hne)
      exact ⟨effective, rl, (Function.update_of_ne hne ..).trans hmade,
        (Function.update_of_ne hne ..).trans hheap, hcell⟩
  · have hlt : s.next < l := hl
    exact (Function.update_of_ne hlt.ne' ..).trans (h.fresh l hlt.le)
  · obtain rfl | hne := eq_or_ne l s.next
    · have heff := (Function.update_self s.next _ s.made).symm.trans hl
      exact ⟨configured, by rw [← h.global]; exact (Option.some.inj heff).symm⟩
    · exact h.made l effective ((Function.update_of_ne hne ..).symm.trans hl)
  · have hb : (services.insert name ⟨effectiveRpm s.globalRpm configured, s.next⟩).lookup n =
      some b := hb
    rw [lookup_alist_insert] at hb
    split at hb
    · next hn =>
      obtain rfl := Option.some.inj hb
      exact ⟨Function.update_self .., List.mem_append_right _ (List.mem_singleton.mpr (by rw [hn]))⟩
    · obtain ⟨hmade, hhanded⟩ := h.tracked n b (hsub n b hb)
      exact ⟨(Function.update_of_ne (h.given _ hhanded).ne ..).trans hmade,
        List.mem_append_left _ hhanded⟩
  · obtain hn | ⟨rfl, rfl⟩ := hgiven hn
    · obtain hn' | ⟨-, rfl⟩ := hgiven hn'
      · exact h.owner n n' l hn hn'
      · exact absurd hn (hnew n)
    · obtain hn' | ⟨rfl, -⟩ := hgiven hn'
      · exact absurd hn' (hnew n')
      · rfl
  · have hkeys : (services.insert name ⟨effectiveRpm s.globalRpm configured, s.next⟩).keys =
      name :: services.keys.erase name := AList.keys_insert services
    exact (congrArg List.length hkeys).le.trans hroom

/-- A request. -/
theorem Inv.check {l : Nat} {rl : RateLimiter} (h : Inv globalRpm s) (hheap : s.heap l = some rl)
    (call : LimitCall) : Inv globalRpm
      { s with
        heap := Function.update s.heap l (some (limiterStep rl call).1)
        log := s.log ++ [⟨l, call, (limiterStep rl call).2⟩] } := by
  have hl : l < s.next := by
    by_contra hge
    rw [h.fresh l (not_lt.mp hge)] at hheap
    contradiction
  refine { h with calls := fun m hm => ?_, cell := fun l' hl' => ?_, fresh := fun l' hl' => ?_ }
  · obtain hm | hm := List.mem_append.mp hm
    · exact h.calls m hm
    · obtain rfl := List.mem_singleton.mp hm
      exact hl
  · obtain ⟨effective, rl', hmade, hheap', hfinal, houts⟩ := h.cell l' hl'
    obtain rfl | hne := eq_or_ne l' l
    · obtain rfl := Option.some.inj (hheap.symm.trans hheap')
      refine ⟨effective, _, hmade, Function.update_self .., ?_, ?_⟩
      · simp only [callsOf, callsOf_snoc, if_true, List.map_append, List.map_singleton]
        rw [final_append]
        rw [callsOf] at hfinal
        rw [← hfinal]
        rfl
      · simp only [callsOf, outsOf, callsOf_snoc, if_true, List.map_append, List.map_singleton]
        rw [trace_append, List.map_append]
        rw [callsOf] at hfinal
        rw [callsOf, outsOf] at houts
        rw [← hfinal, houts]
        rfl
    · refine ⟨effective, rl', hmade, (Function.update_of_ne hne ..).trans hheap', ?_, ?_⟩
      · simp only [callsOf, callsOf_snoc, if_neg (Ne.symm hne), List.append_nil]
        exact hfinal
      · simp only [callsOf, outsOf, callsOf_snoc, if_neg (Ne.symm hne), List.append_nil]
        exact houts
  · exact (Function.update_of_ne (hl.trans_le hl').ne' ..).trans (h.fresh l' hl')

theorem inv_step (h : Inv globalRpm s) (hstep : s.step e = some s') : Inv globalRpm s' := by
  cases e with
  | forService name configured victim =>
      obtain ⟨existing, hlookup, -, rfl⟩ | ⟨services, rfl, hsub, -, -, hroom⟩ :=
        forService_cases h hstep
      · exact h.hand hlookup
      · exact h.build hsub hroom
  | check l call =>
      obtain ⟨rl, hheap, hout⟩ := Option.bind_eq_some_iff.mp hstep
      exact Option.some.inj hout ▸ h.check hheap call

theorem inv_of_run (hrun : run step (start globalRpm) es = some s) : Inv globalRpm s :=
  run_invariant (fun _ _ _ => inv_step) (inv_start globalRpm) hrun

/-- All that was handed out for the service is its limiter, built for this rate. -/
def Single (name : String) (effective : Option Nat) (s : ServiceLimiters) : Prop :=
  ∀ l, (name, l) ∈ s.handed → s.services.lookup name = some ⟨effective, l⟩

theorem single_step {effective : Option Nat} (h : Inv globalRpm s) (hs : Single name effective s)
    (he : e.Steady globalRpm name effective) (hstep : s.step e = some s') :
    Single name effective s' := by
  cases e with
  | forService n configured victim =>
      obtain ⟨hrate, hvictim⟩ := he
      rw [← h.global] at hrate
      obtain ⟨existing, hlookup, -, rfl⟩ | ⟨services, rfl, -, hkept, hchanged, -⟩ :=
        forService_cases h hstep
      · intro l hl
        obtain hl | hl := List.mem_append.mp hl
        · exact hs l hl
        · obtain ⟨rfl, rfl⟩ := Prod.mk.inj (List.mem_singleton.mp hl)
          exact hs _ (h.tracked name existing hlookup).2
      · intro l hl
        have hlookup :
            (services.insert n ⟨effectiveRpm s.globalRpm configured, s.next⟩).lookup name =
              some ⟨effective, l⟩ := by
          rw [lookup_alist_insert]
          obtain rfl | hne := eq_or_ne name n
          · rw [if_pos rfl, hrate rfl]
            obtain hl | hl := List.mem_append.mp hl
            · -- what was handed out before was at this rate, and would have been kept
              exact absurd (hrate rfl).symm (hchanged _ (hs l hl))
            · rw [(Prod.mk.inj (List.mem_singleton.mp hl)).2]
          · rw [if_neg hne, hkept name (Ne.symm hvictim)]
            obtain hl | hl := List.mem_append.mp hl
            · exact hs l hl
            · exact absurd (Prod.mk.inj (List.mem_singleton.mp hl)).1 hne
        exact hlookup
  | check l call =>
      obtain ⟨rl, -, hout⟩ := Option.bind_eq_some_iff.mp hstep
      exact Option.some.inj hout ▸ hs

/-- **Nothing raises the ceiling**: whatever the services configure and however
often the registry is rebuilt, each limiter that is handed out answers as one
that allows no more than the global rate, and the map stays bounded. -/
theorem ceiling_holds (global : Nat) (hrun : run step (start (some global)) es = some s) :
    s.services.keys.length ≤ maxTrackedServices ∧
    ∀ name l, (name, l) ∈ s.handed → ∃ rpm ≤ global,
      s.outsOf l = (trace limiterStep (.perMinute rpm rpm) (s.callsOf l)).map Called.out := by
  have h := inv_of_run hrun
  refine ⟨h.bound, fun name l hl => ?_⟩
  obtain ⟨effective, rl, hmade, -, -, houts⟩ := h.cell l (h.given _ hl)
  obtain ⟨configured, rfl⟩ := h.made l effective hmade
  refine ⟨configured.elim global (min · global), ?_, houts⟩
  cases configured with
  | none => exact le_rfl
  | some rpm => exact min_le_right ..

/-- **A rebuild is invisible to the limits**: while the rate of a service stays
and it is not evicted, all sessions on it share one limiter, which is of no other
service and answers as if the registry had never been rebuilt. -/
theorem rebuild_is_invisible {effective : Option Nat}
    (hsteady : ∀ e ∈ es, e.Steady globalRpm name effective)
    (hrun : run step (start globalRpm) es = some s) (l : Nat) (hl : (name, l) ∈ s.handed) :
    (∀ l', (name, l') ∈ s.handed → l' = l) ∧ (∀ n, (n, l) ∈ s.handed → n = name) ∧
      s.outsOf l = (trace limiterStep (limiterOf effective) (s.callsOf l)).map Called.out := by
  have hall : Inv globalRpm s ∧
      ((∀ e ∈ es, e.Steady globalRpm name effective) → Single name effective s) := by
    refine run_history (I := fun es s => Inv globalRpm s ∧
      ((∀ e ∈ es, e.Steady globalRpm name effective) → Single name effective s)) ?_ ?_ hrun
    · exact ⟨inv_start globalRpm, fun _ _ h => absurd h List.not_mem_nil⟩
    · intro es s e s' _ ⟨h, hs⟩ hstep
      refine ⟨inv_step h hstep, fun hsteady => ?_⟩
      exact single_step h (hs fun e he => hsteady e (List.mem_append_left _ he))
        (hsteady e (List.mem_append_right _ (List.mem_singleton_self _))) hstep
  obtain ⟨h, hs⟩ := hall
  have hsingle := hs hsteady
  have hlookup := hsingle l hl
  refine ⟨fun l' hl' => ?_, fun n hn => h.owner n name l hn hl, ?_⟩
  · have heq := Option.some.inj ((hsingle l' hl').symm.trans hlookup)
    exact (ServiceBucket.mk.inj heq).2
  · obtain ⟨effective', rl, hmade, -, -, houts⟩ := h.cell l (h.given _ hl)
    obtain rfl := Option.some.inj (hmade.symm.trans (h.tracked name _ hlookup).1)
    exact houts

/-! ### a grant in between -/

namespace Example

def phone : EndpointId := .replicate 32 7

/-- A registry is rebuilt between two requests of one phone; the service allows
two a minute, under a ceiling of sixty. -/
def rebuilt : List LimiterEvent :=
  [.forService "notes" (some 2) "", .check 0 ⟨phone, 0⟩, .forService "notes" (some 2) "",
    .check 0 ⟨phone, 1⟩]

end Example

theorem ceiling_holds_example : ∃ s, run step (start (some 60)) Example.rebuilt = some s ∧
    ("notes", 0) ∈ s.handed ∧ ∃ rpm ≤ 60,
      s.outsOf 0 = (trace limiterStep (.perMinute rpm rpm) (s.callsOf 0)).map Called.out := by
  have hrun : run step (start (some 60)) Example.rebuilt = some _ := rfl
  have hmem : ("notes", 0) ∈ [("notes", 0), ("notes", 0)] := List.mem_cons_self
  exact ⟨_, hrun, hmem, (ceiling_holds 60 hrun).2 "notes" 0 hmem⟩

theorem rebuild_is_invisible_example : ∃ s, run step (start (some 60)) Example.rebuilt = some s ∧
    ("notes", 0) ∈ s.handed ∧
      s.outsOf 0 = (trace limiterStep (.perMinute 2 2) (s.callsOf 0)).map Called.out := by
  have hrun : run step (start (some 60)) Example.rebuilt = some _ := rfl
  have hmem : ("notes", 0) ∈ [("notes", 0), ("notes", 0)] := List.mem_cons_self
  have hsteady : ∀ e ∈ Example.rebuilt, e.Steady (some 60) "notes" (some 2) := by
    simp [Example.rebuilt, LimiterEvent.Steady, effectiveRpm]
  exact ⟨_, hrun, hmem, (rebuild_is_invisible hsteady hrun 0 hmem).2.2⟩

end ServiceLimiters

end Mcpmesh
