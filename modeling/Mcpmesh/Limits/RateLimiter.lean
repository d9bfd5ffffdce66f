import Mcpmesh.Lib.Keyed
import Mcpmesh.Limits.TokenBucket
import Mcpmesh.Roster.Instance
import Mathlib.Data.List.MinMax

/-!
# Mcpmesh.Limits.RateLimiter

The map of buckets by endpoint (`RateLimiter`, `node/src/limits.rs`).

A call from an endpoint without a bucket first drops the buckets that are idle,
and the least recently seen one if the map is still full.  A dropped idle
bucket would have refilled by now, so an endpoint that comes back cannot tell
the bucket it gets from the one it had: the limiter simulates one that keeps
every bucket forever.
-/

namespace Mcpmesh

open Lib

/-- `IDLE_TTL`, in seconds. -/
def idleTtl : ℚ := 600

/-- `MAX_BUCKETS`. -/
def maxBuckets : Nat := 4096

structure TrackedBucket where
  bucket : TokenBucket
  lastSeen : ℚ

abbrev Buckets := Keyed (Prod.fst : EndpointId × TrackedBucket → EndpointId)

structure RateLimiter where
  capacity : ℚ≥0
  refillPerSec : ℚ≥0
  buckets : Buckets

/-- The entry least recently seen. -/
def leastRecent (map : Buckets) : Option (EndpointId × TrackedBucket) :=
  map.items.argmin fun e => e.2.lastSeen

/-- `make_room`: drop what is idle, then one more if the map is still full. -/
def makeRoom (map : Buckets) (now : ℚ) : Buckets :=
  let map := map.retain fun e => saturatingDurationSince now e.2.lastSeen < idleTtl
  if maxBuckets ≤ map.items.length then
    match leastRecent map with
    | some oldest => map.remove oldest.1
    | none => map
  else map

namespace RateLimiter

/-- `per_minute`. -/
def perMinute (perMin burst : Nat) : RateLimiter :=
  { capacity := (max burst 1 : Nat), refillPerSec := (max perMin 1 : Nat) / 60
    buckets := .empty }

/-- A full bucket of this limiter. -/
def fresh (rl : RateLimiter) (now : ℚ) : TrackedBucket :=
  ⟨.new rl.capacity rl.refillPerSec now, now⟩

/-- `check_cost`. -/
def checkCost (rl : RateLimiter) (endpoint : EndpointId) (now : ℚ) (cost : ℚ≥0) :
    RateLimiter × Except Nat Unit :=
  let (map, t) :=
    match rl.buckets.lookup endpoint with
    | some (_, t) => (rl.buckets, t)
    | none =>
        let map := makeRoom rl.buckets now
        (map.insert (endpoint, rl.fresh now), rl.fresh now)
  let (bucket, out) := t.bucket.tryTakeCost now cost
  ({ rl with buckets := map.insert (endpoint, ⟨bucket, now⟩) }, out)

def check (rl : RateLimiter) (endpoint : EndpointId) (now : ℚ) : RateLimiter × Except Nat Unit :=
  rl.checkCost endpoint now 1

def tracked (rl : RateLimiter) : Nat := rl.buckets.items.length

end RateLimiter

structure LimitCall where
  endpoint : EndpointId
  now : ℚ

def limiterStep (rl : RateLimiter) (call : LimitCall) : RateLimiter × Except Nat Unit :=
  rl.check call.endpoint call.now

/-! ## a limiter that forgets nothing -/

/-- Every bucket there ever was, with what a new one is made of. -/
structure IdealLimiter where
  capacity : ℚ≥0
  refillPerSec : ℚ≥0
  bucket : EndpointId → Option TokenBucket

def idealStep (il : IdealLimiter) (call : LimitCall) : IdealLimiter × Except Nat Unit :=
  let bucket := (il.bucket call.endpoint).getD (.new il.capacity il.refillPerSec call.now)
  let (bucket, out) := bucket.tryTake call.now
  ({ il with bucket := fun e => if e = call.endpoint then some bucket else il.bucket e }, out)

/-! ## the bound on the map -/

section Bound

variable {map : Buckets} {rl : RateLimiter} {call : LimitCall} {e : EndpointId × TrackedBucket}

/-- What is left after making room was seen within the idle time. -/
theorem mem_of_mem_makeRoom {now : ℚ} (h : e ∈ (makeRoom map now).items) :
    e ∈ map.items ∧ saturatingDurationSince now e.2.lastSeen < idleTtl := by
  have hretained : e ∈ (map.retain fun e =>
      saturatingDurationSince now e.2.lastSeen < idleTtl).items := by
    unfold makeRoom at h
    dsimp only at h
    split at h
    · split at h
      · exact (Keyed.mem_remove.mp h).1
      · exact h
    · exact h
  simpa using hretained

/-- While the map is not full, only idle entries are dropped. -/
theorem mem_makeRoom_of_lt {now : ℚ} (hroom : map.items.length < maxBuckets) :
    e ∈ (makeRoom map now).items ↔
      e ∈ map.items ∧ saturatingDurationSince now e.2.lastSeen < idleTtl := by
  have hretain : (map.retain fun e =>
      saturatingDurationSince now e.2.lastSeen < idleTtl).items.length ≤ map.items.length :=
    List.length_filter_le _ _
  have hnot : ¬ maxBuckets ≤ (map.retain fun e =>
      saturatingDurationSince now e.2.lastSeen < idleTtl).items.length := by omega
  simp [makeRoom, hnot]

/-- Removing what is there makes a map smaller. -/
theorem length_remove_lt {α κ : Type*} {key : α → κ} [DecidableEq κ] {m : Keyed key} {a : α}
    (h : a ∈ m.items) : (m.remove (key a)).items.length < m.items.length := by
  refine List.length_filter_lt_length_iff_exists.mpr ⟨a, h, ?_⟩
  simp

/-- There is room for one more after making room. -/
theorem length_makeRoom_lt {now : ℚ} (h : map.items.length ≤ maxBuckets) :
    (makeRoom map now).items.length < maxBuckets := by
  have hretain : (map.retain fun e =>
      saturatingDurationSince now e.2.lastSeen < idleTtl).items.length ≤ map.items.length :=
    List.length_filter_le _ _
  unfold makeRoom
  dsimp only
  split
  · next hfull =>
    split
    · next oldest holdest =>
      have hmem := List.argmin_mem holdest
      have hremove := length_remove_lt hmem
      omega
    · next hnone =>
      rw [leastRecent, List.argmin_eq_none] at hnone
      rw [hnone] at hfull ⊢
      simp [maxBuckets] at hfull
  · omega

/-- An insertion adds one entry at the most. -/
theorem length_insert_le {α κ : Type*} {key : α → κ} [DecidableEq κ] {m : Keyed key} {a : α} :
    (m.insert a).items.length ≤ m.items.length + 1 := by
  have hremove : (m.remove (key a)).items.length ≤ m.items.length := List.length_filter_le _ _
  simp only [Keyed.insert, List.length_append, List.length_singleton]
  omega

/-- Replacing an entry adds none. -/
theorem length_insert_of_mem {α κ : Type*} {key : α → κ} [DecidableEq κ] {m : Keyed key}
    {a a' : α} (h : a' ∈ m.items) (hkey : key a' = key a) :
    (m.insert a).items.length ≤ m.items.length := by
  have hremove := length_remove_lt h
  rw [hkey] at hremove
  simp only [Keyed.insert, List.length_append, List.length_singleton]
  omega

end Bound

/-! ## a call -/

section Calls

variable {rl : RateLimiter} {il : IdealLimiter} {call : LimitCall} {last : ℚ}

/-- What a call does, from the bucket `t` that it finds or makes in `map`. -/
inductive Limited (rl : RateLimiter) (call : LimitCall) : Buckets → TrackedBucket → Prop where
  | found {t : TrackedBucket} (h : (call.endpoint, t) ∈ rl.buckets.items) :
      Limited rl call rl.buckets t
  | fresh (h : ∀ t, (call.endpoint, t) ∉ rl.buckets.items) :
      Limited rl call ((makeRoom rl.buckets call.now).insert (call.endpoint, rl.fresh call.now))
        (rl.fresh call.now)

/-- **The spec of a call.** -/
theorem limited_limiterStep (rl : RateLimiter) (call : LimitCall) :
    ∃ map t, Limited rl call map t ∧ limiterStep rl call =
      ({ rl with
          buckets := map.insert (call.endpoint, ⟨(t.bucket.tryTake call.now).1, call.now⟩) },
        (t.bucket.tryTake call.now).2) := by
  cases hlookup : rl.buckets.lookup call.endpoint with
  | some entry =>
      obtain ⟨hmem, hkey⟩ := Keyed.mem_of_lookup hlookup
      have hmem : (call.endpoint, entry.2) ∈ rl.buckets.items := by simpa [← hkey] using hmem
      refine ⟨_, entry.2, .found hmem, ?_⟩
      simp [limiterStep, RateLimiter.check, RateLimiter.checkCost, hlookup, TokenBucket.tryTake]
  | none =>
      have hnone : ∀ t, (call.endpoint, t) ∉ rl.buckets.items :=
        fun t ht => Keyed.lookup_eq_none.mp hlookup _ ht rfl
      refine ⟨_, _, .fresh hnone, ?_⟩
      simp [limiterStep, RateLimiter.check, RateLimiter.checkCost, hlookup, TokenBucket.tryTake]

/-- A limited call's bucket is in the map. -/
theorem Limited.mem {map : Buckets} {t : TrackedBucket} (h : Limited rl call map t) :
    (call.endpoint, t) ∈ map.items := by
  cases h with
  | found h => exact h
  | fresh h => simp

/-- A call leaves the capacity. -/
@[simp] theorem capacity_limiterStep : (limiterStep rl call).1.capacity = rl.capacity := by
  obtain ⟨map, t, -, heq⟩ := limited_limiterStep rl call
  rw [heq]

/-- A call leaves the refill rate. -/
@[simp] theorem refillPerSec_limiterStep :
    (limiterStep rl call).1.refillPerSec = rl.refillPerSec := by
  obtain ⟨map, t, -, heq⟩ := limited_limiterStep rl call
  rw [heq]

/-- The map never exceeds its cap. -/
theorem tracked_limiterStep_le (h : rl.tracked ≤ maxBuckets) :
    (limiterStep rl call).1.tracked ≤ maxBuckets := by
  obtain ⟨map, t, hlimited, heq⟩ := limited_limiterStep rl call
  have hmap : map.items.length ≤ maxBuckets := by
    cases hlimited with
    | found => exact h
    | fresh =>
        have hroom : (makeRoom rl.buckets call.now).items.length < maxBuckets :=
          length_makeRoom_lt h
        have hinsert := length_insert_le (m := makeRoom rl.buckets call.now)
          (a := (call.endpoint, rl.fresh call.now))
        omega
  have hlength := length_insert_of_mem
    (a := (call.endpoint, (⟨(t.bucket.tryTake call.now).1, call.now⟩ : TrackedBucket)))
    hlimited.mem rfl
  rw [heq]
  exact hlength.trans hmap

/-! ## the simulation -/

/-- The limiter against the one that keeps every bucket: what it tracks is the
same, and what it has dropped had been idle for long enough. -/
structure Simulates (rl : RateLimiter) (il : IdealLimiter) (last : ℚ) : Prop where
  capacity : il.capacity = rl.capacity
  refillPerSec : il.refillPerSec = rl.refillPerSec
  made : ∀ e b, il.bucket e = some b →
    b.capacity = rl.capacity ∧ b.refillPerSec = rl.refillPerSec
  kept : ∀ e t, (e, t) ∈ rl.buckets.items →
    il.bucket e = some t.bucket ∧ t.bucket.lastRefill = t.lastSeen
  dropped : ∀ e b, il.bucket e = some b → (∀ t, (e, t) ∉ rl.buckets.items) →
    b.lastRefill + idleTtl ≤ last

/-- The two limiters answer a call from the same bucket, or from two that the
refill makes the same. -/
theorem Simulates.tryTake_eq (h : Simulates rl il last) (hlast : last ≤ call.now)
    (hfills : (rl.capacity : ℚ) ≤ idleTtl * rl.refillPerSec) {map : Buckets} {t : TrackedBucket}
    (hlimited : Limited rl call map t) :
    ((il.bucket call.endpoint).getD (.new il.capacity il.refillPerSec call.now)).tryTake call.now =
      t.bucket.tryTake call.now := by
  cases hlimited with
  | found hmem => rw [(h.kept _ _ hmem).1, Option.getD_some]
  | fresh hnone =>
      cases hbucket : il.bucket call.endpoint with
      | none => rw [Option.getD_none, h.capacity, h.refillPerSec]; rfl
      | some b =>
          obtain ⟨hcapacity, hrefill⟩ := h.made _ _ hbucket
          have hidle := h.dropped _ _ hbucket hnone
          have hlong : idleTtl * rl.refillPerSec ≤ (call.now - b.lastRefill) * rl.refillPerSec :=
            mul_le_mul_of_nonneg_right (by linarith) rl.refillPerSec.property
          exact TokenBucket.tryTakeCost_congr
            (TokenBucket.refill_of_idle hcapacity hrefill (hfills.trans hlong))

/-- The bucket of a limited call has the limiter's own figures. -/
theorem Simulates.made_of_limited (h : Simulates rl il last) {map : Buckets} {t : TrackedBucket}
    (hlimited : Limited rl call map t) :
    t.bucket.capacity = rl.capacity ∧ t.bucket.refillPerSec = rl.refillPerSec := by
  cases hlimited with
  | found hmem => exact h.made _ _ (h.kept _ _ hmem).1
  | fresh => exact ⟨rfl, rfl⟩

/-- What another endpoint has in the map of a call, it had before. -/
theorem Limited.mem_of_ne {map : Buckets} {t t' : TrackedBucket} {e : EndpointId}
    (h : Limited rl call map t) (hne : e ≠ call.endpoint) (hmem : (e, t') ∈ map.items) :
    (e, t') ∈ rl.buckets.items := by
  cases h with
  | found => exact hmem
  | fresh =>
      obtain ⟨hroom, -⟩ | heq := Keyed.mem_insert.mp hmem
      · exact (mem_of_mem_makeRoom hroom).1
      · exact absurd (congrArg Prod.fst heq) hne

/-- What another endpoint loses by a call was idle. -/
theorem Limited.idle_of_not_mem {map : Buckets} {t t' : TrackedBucket} {e : EndpointId}
    (h : Limited rl call map t) (hroom : rl.tracked < maxBuckets) (hne : e ≠ call.endpoint)
    (hmem : (e, t') ∈ rl.buckets.items) (hnot : (e, t') ∉ map.items) :
    t'.lastSeen + idleTtl ≤ call.now := by
  cases h with
  | found => contradiction
  | fresh =>
      have hnot : (e, t') ∉ (makeRoom rl.buckets call.now).items :=
        fun hroom => hnot (Keyed.mem_insert.mpr (.inl ⟨hroom, hne⟩))
      rw [mem_makeRoom_of_lt hroom, not_and, not_lt] at hnot
      obtain hzero | hlong := le_max_iff.mp (hnot hmem)
      · simp [idleTtl] at hzero
        linarith
      · linarith

/-- **The step lemma**: both answer alike, and the simulation goes on. -/
theorem Simulates.step (h : Simulates rl il last) (hlast : last ≤ call.now)
    (hfills : (rl.capacity : ℚ) ≤ idleTtl * rl.refillPerSec) (hroom : rl.tracked < maxBuckets) :
    (limiterStep rl call).2 = (idealStep il call).2 ∧
      Simulates (limiterStep rl call).1 (idealStep il call).1 call.now := by
  obtain ⟨map, t, hlimited, heq⟩ := limited_limiterStep rl call
  have htake := h.tryTake_eq hlast hfills hlimited
  have hideal : idealStep il call =
      ({ il with bucket := fun e =>
          if e = call.endpoint then some (t.bucket.tryTake call.now).1 else il.bucket e },
        (t.bucket.tryTake call.now).2) := by
    simp only [idealStep, htake]
  obtain ⟨hcapacity, hrefill⟩ := h.made_of_limited hlimited
  rw [heq, hideal]
  refine ⟨rfl, h.capacity, h.refillPerSec, fun e b hb => ?_, fun e t' hmem => ?_,
    fun e b hb hnot => ?_⟩
  · dsimp only at hb
    split at hb
    · obtain rfl := Option.some.inj hb
      have hcapacity' := capacity_takeStep (b := t.bucket) ⟨call.now, 1⟩
      have hrefill' := refillPerSec_takeStep (b := t.bucket) ⟨call.now, 1⟩
      exact ⟨hcapacity'.trans hcapacity, hrefill'.trans hrefill⟩
    · exact h.made e b hb
  · obtain ⟨hmem, hne⟩ | heq := Keyed.mem_insert.mp hmem
    · have hkept := h.kept e t' (hlimited.mem_of_ne hne hmem)
      exact ⟨by simpa [hne] using hkept.1, hkept.2⟩
    · obtain ⟨rfl, rfl⟩ := Prod.mk.inj heq
      exact ⟨by simp, lastRefill_takeStep ⟨call.now, 1⟩⟩
  · dsimp only at hb hnot ⊢
    have hne : e ≠ call.endpoint := by
      rintro rfl
      exact hnot _ (Keyed.mem_insert.mpr (.inr rfl))
    rw [if_neg hne] at hb
    have hgone : ∀ t', (e, t') ∉ map.items :=
      fun t' hmem => hnot t' (Keyed.mem_insert.mpr (.inl ⟨hmem, hne⟩))
    by_cases hheld : ∃ t', (e, t') ∈ rl.buckets.items
    · obtain ⟨t', ht'⟩ := hheld
      obtain ⟨hbucket, hseen⟩ := h.kept e t' ht'
      obtain rfl := Option.some.inj (hb.symm.trans hbucket)
      rw [hseen]
      exact hlimited.idle_of_not_mem hroom hne ht' (hgone t')
    · rw [not_exists] at hheld
      exact (h.dropped e b hb hheld).trans hlast

/-- **The run lemma.** -/
theorem Simulates.outs_eq {calls : List LimitCall} (h : Simulates rl il last)
    (hordered : (last :: calls.map LimitCall.now).IsChain (· ≤ ·))
    (hfills : (rl.capacity : ℚ) ≤ idleTtl * rl.refillPerSec)
    (hroom : ∀ t ∈ trace limiterStep rl calls, t.pre.tracked < maxBuckets) :
    (trace limiterStep rl calls).map Called.out = (trace idealStep il calls).map Called.out := by
  induction calls generalizing rl il last with
  | nil => rfl
  | cons call calls ih =>
      rw [List.map_cons, List.isChain_cons_cons] at hordered
      rw [trace_cons, List.forall_mem_cons] at hroom
      obtain ⟨hout, hnext⟩ := h.step hordered.1 hfills hroom.1
      have hrest := ih hnext hordered.2 (by simpa using hfills) hroom.2
      simp only [trace_cons, List.map_cons, callAt, hout, hrest]

end Calls

/-- The limiter of `per_minute(n, n)` that keeps every bucket. -/
def IdealLimiter.perMinute (n : Nat) : IdealLimiter :=
  { capacity := (max n 1 : Nat), refillPerSec := (max n 1 : Nat) / 60, bucket := fun _ => none }

/-- A bucket of `per_minute(n, n)` is full again long before it is idle. -/
theorem fills_within_idleTtl (n : Nat) :
    ((RateLimiter.perMinute n n).capacity : ℚ) ≤
      idleTtl * (RateLimiter.perMinute n n).refillPerSec := by
  have hnonneg : (0 : ℚ) ≤ (max n 1 : Nat) := Nat.cast_nonneg _
  simp only [RateLimiter.perMinute, idleTtl, NNRat.cast_natCast, NNRat.cast_div,
    NNRat.cast_ofNat]
  linarith

/-- A new limiter simulates the ideal one. -/
theorem simulates_perMinute (n : Nat) (last : ℚ) :
    Simulates (.perMinute n n) (.perMinute n) last where
  capacity := rfl
  refillPerSec := rfl
  made _ _ h := by contradiction
  kept _ _ h := absurd h List.not_mem_nil
  dropped _ _ h := by contradiction

/-- **Pruning is invisible**: the map never tracks more than its cap, and while
it is below, calls in the order of their instants are answered as if every
bucket were kept. -/
theorem pruning_is_invisible (n : Nat) (calls : List LimitCall) :
    (∀ t ∈ trace limiterStep (.perMinute n n) calls, t.post.tracked ≤ maxBuckets) ∧
      ((calls.map LimitCall.now).IsChain (· ≤ ·) →
        (∀ t ∈ trace limiterStep (.perMinute n n) calls, t.pre.tracked < maxBuckets) →
        (trace limiterStep (.perMinute n n) calls).map Called.out =
          (trace idealStep (.perMinute n) calls).map Called.out) := by
  constructor
  · intro t ht
    have hstart : (RateLimiter.perMinute n n).tracked ≤ maxBuckets := Nat.zero_le _
    exact (trace_invariant (I := fun rl : RateLimiter => rl.tracked ≤ maxBuckets)
      (fun _ _ _ h => tracked_limiterStep_le h) hstart ht).2
  · intro hordered hroom
    cases calls with
    | nil => rfl
    | cons call calls =>
        have hordered : (call.now :: (call :: calls).map LimitCall.now).IsChain (· ≤ ·) :=
          List.isChain_cons_cons.mpr ⟨le_rfl, hordered⟩
        exact (simulates_perMinute n call.now).outs_eq hordered (fills_within_idleTtl n) hroom

namespace ComesBack

def other : EndpointId := .replicate 32 2

/-- Two calls a minute; an endpoint comes back after another made its bucket
idle. -/
def calls : List LimitCall :=
  [⟨Instance.ownId, 0⟩, ⟨Instance.ownId, 1⟩, ⟨Instance.ownId, 2⟩, ⟨other, 700⟩,
    ⟨Instance.ownId, 701⟩]

end ComesBack

open ComesBack in
theorem pruning_is_invisible_example :
    ((trace limiterStep (.perMinute 2 2) calls).map fun t => (t.out.isOk, t.post.tracked)) =
        [(true, 1), (true, 1), (false, 1), (true, 1), (true, 2)] ∧
      (trace limiterStep (.perMinute 2 2) calls).map Called.out =
        (trace idealStep (.perMinute 2) calls).map Called.out := by
  have hroom : (trace limiterStep (.perMinute 2 2) calls).all
      (fun t => t.pre.tracked < maxBuckets) = true := by decide +kernel
  refine ⟨by decide +kernel, (pruning_is_invisible 2 calls).2 (by decide +kernel) fun t ht => ?_⟩
  simpa using List.all_eq_true.mp hroom t ht

end Mcpmesh
