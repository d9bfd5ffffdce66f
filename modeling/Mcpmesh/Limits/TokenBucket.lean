import Mcpmesh.Lib.Run
import Mathlib.Data.List.Chain
import Mathlib.Data.NNRat.Defs
import Mathlib.Data.Rat.Floor
import Mathlib.Tactic.Linarith
import Mathlib.Tactic.Ring

/-!
# Mcpmesh.Limits.TokenBucket

The token bucket (`TokenBucket`, `node/src/limits.rs`), over the rationals.

A call refills lazily, from the time since `last_refill`, and takes its cost if
it is there.  Every call moves `last_refill` to its own instant, so the refills
of a run add up to its steps forward in time; these are the time that passed
only when no call carries an earlier instant than the one before.
-/

namespace Mcpmesh

open Lib

/-- `Instant::saturating_duration_since`, in seconds. -/
def saturatingDurationSince (now earlier : ℚ) : ℚ := max 0 (now - earlier)

/-- `as u64`, of a value that was rounded up. -/
def asU64 (x : Int) : Nat := min (2 ^ 64 - 1) x.toNat

/-- A bucket with at most `capacity` tokens; instants are in seconds. -/
@[ext]
structure TokenBucket where
  capacity : ℚ
  refillPerSec : ℚ
  tokens : ℚ
  lastRefill : ℚ
  refill_nonneg : 0 ≤ refillPerSec
  tokens_nonneg : 0 ≤ tokens
  tokens_le : tokens ≤ capacity

namespace TokenBucket

/-- A full bucket. -/
def new (capacity refillPerSec : ℚ≥0) (now : ℚ) : TokenBucket :=
  { capacity, refillPerSec, tokens := capacity, lastRefill := now
    refill_nonneg := refillPerSec.property
    tokens_nonneg := capacity.property
    tokens_le := le_rfl }

/-- The refill that a call starts with. -/
def refill (b : TokenBucket) (now : ℚ) : TokenBucket :=
  let elapsed := saturatingDurationSince now b.lastRefill
  { b with
    lastRefill := now
    tokens := min (b.tokens + elapsed * b.refillPerSec) b.capacity
    tokens_nonneg :=
      le_min (add_nonneg b.tokens_nonneg (mul_nonneg (le_max_left _ _) b.refill_nonneg))
        (b.tokens_nonneg.trans b.tokens_le)
    tokens_le := min_le_right _ _ }

/-- `try_take_cost`: the error is the wait in milliseconds. -/
def tryTakeCost (b : TokenBucket) (now : ℚ) (cost : ℚ≥0) : TokenBucket × Except Nat Unit :=
  let b := b.refill now
  if h : cost ≤ b.tokens then
    ({ b with
        tokens := b.tokens - cost
        tokens_nonneg := sub_nonneg.mpr h
        tokens_le := (sub_le_self _ cost.property).trans b.tokens_le }, .ok ())
  else
    let deficit := cost - b.tokens
    -- without a refill the wait is long and bounded
    let secs := if 0 < b.refillPerSec then deficit / b.refillPerSec else 2 ^ 32 - 1
    (b, .error (asU64 ⌈secs * 1000⌉))

def tryTake (b : TokenBucket) (now : ℚ) : TokenBucket × Except Nat Unit := b.tryTakeCost now 1

/-- A call sees the bucket as its refill leaves it. -/
theorem tryTakeCost_congr {b b' : TokenBucket} {now : ℚ} {cost : ℚ≥0}
    (h : b.refill now = b'.refill now) : b.tryTakeCost now cost = b'.tryTakeCost now cost := by
  simp only [tryTakeCost, h]

/-- A bucket that had the time to fill up is a new one. -/
theorem refill_of_idle {b : TokenBucket} {capacity refillPerSec : ℚ≥0} {now : ℚ}
    (hcapacity : b.capacity = capacity) (hrefill : b.refillPerSec = refillPerSec)
    (hidle : (capacity : ℚ) ≤ (now - b.lastRefill) * refillPerSec) :
    b.refill now = (new capacity refillPerSec now).refill now := by
  have helapsed : now - b.lastRefill ≤ saturatingDurationSince now b.lastRefill :=
    le_max_right _ _
  have hmul : (now - b.lastRefill) * refillPerSec ≤
      saturatingDurationSince now b.lastRefill * refillPerSec :=
    mul_le_mul_of_nonneg_right helapsed refillPerSec.property
  have hfull : (capacity : ℚ) ≤
      b.tokens + saturatingDurationSince now b.lastRefill * refillPerSec := by
    linarith [b.tokens_nonneg]
  ext
  · exact hcapacity
  · exact hrefill
  · simp only [refill, hcapacity, hrefill, new, min_eq_right hfull]
    simp [saturatingDurationSince]
  · rfl

end TokenBucket

/-! ## runs -/

structure TakeCall where
  now : ℚ
  cost : ℚ≥0

def takeStep (b : TokenBucket) (call : TakeCall) : TokenBucket × Except Nat Unit :=
  b.tryTakeCost call.now call.cost

/-- What the calls of a run took in all. -/
def admittedCost (b : TokenBucket) (calls : List TakeCall) : ℚ :=
  ((trace takeStep b calls).map fun t => if t.out.isOk then (t.call.cost : ℚ) else 0).sum

/-- The latest of an instant and those of the calls. -/
def latestInstant (start : ℚ) (calls : List TakeCall) : ℚ :=
  calls.foldl (fun t call => max t call.now) start

/-- The steps forward in time, from one call to the next. -/
def forward (start : ℚ) : List TakeCall → ℚ
  | [] => 0
  | call :: calls => saturatingDurationSince call.now start + forward call.now calls

section Runs

variable {b : TokenBucket} {calls : List TakeCall} {start : ℚ} (call : TakeCall)

@[simp] theorem lastRefill_takeStep : (takeStep b call).1.lastRefill = call.now := by
  unfold takeStep TokenBucket.tryTakeCost
  dsimp only
  split <;> rfl

@[simp] theorem refillPerSec_takeStep : (takeStep b call).1.refillPerSec = b.refillPerSec := by
  unfold takeStep TokenBucket.tryTakeCost
  dsimp only
  split <;> rfl

@[simp] theorem capacity_takeStep : (takeStep b call).1.capacity = b.capacity := by
  unfold takeStep TokenBucket.tryTakeCost
  dsimp only
  split <;> rfl

/-- **The step lemma**: what a call takes and what it leaves is at most what
was there and the refill. -/
theorem cost_add_tokens_le :
    (if (takeStep b call).2.isOk then (call.cost : ℚ) else 0) + (takeStep b call).1.tokens ≤
      b.tokens + b.refillPerSec * saturatingDurationSince call.now b.lastRefill := by
  have hrefill : (b.refill call.now).tokens ≤
      b.tokens + b.refillPerSec * saturatingDurationSince call.now b.lastRefill := by
    rw [mul_comm]
    exact min_le_left _ _
  unfold takeStep TokenBucket.tryTakeCost
  dsimp only
  split
  · simpa [Except.isOk, Except.toBool] using hrefill
  · simpa [Except.isOk, Except.toBool] using hrefill

@[simp] theorem admittedCost_cons :
    admittedCost b (call :: calls) = (if (takeStep b call).2.isOk then (call.cost : ℚ) else 0) +
      admittedCost (takeStep b call).1 calls := by
  simp [admittedCost, callAt]

/-- **The run lemma**, in any order of the instants. -/
theorem admittedCost_add_tokens_le :
    admittedCost b calls + (final takeStep b calls).tokens ≤
      b.tokens + b.refillPerSec * forward b.lastRefill calls := by
  induction calls generalizing b with
  | nil => simp [admittedCost, final, forward]
  | cons call calls ih =>
      have hstep := cost_add_tokens_le (b := b) call
      have hrest := ih (b := (takeStep b call).1)
      simp only [lastRefill_takeStep, refillPerSec_takeStep] at hrest
      simp only [admittedCost_cons, final_cons, forward, mul_add]
      linarith

/-- In order, the steps forward are the time that passed. -/
theorem forward_of_ordered (h : (start :: calls.map TakeCall.now).IsChain (· ≤ ·)) :
    forward start calls = latestInstant start calls - start := by
  induction calls generalizing start with
  | nil => simp [forward, latestInstant]
  | cons call calls ih =>
      rw [List.map_cons, List.isChain_cons_cons] at h
      have hrest := ih h.2
      have helapsed : saturatingDurationSince call.now start = call.now - start :=
        max_eq_right (sub_nonneg.mpr h.1)
      have hlatest : latestInstant start (call :: calls) = latestInstant call.now calls := by
        simp [latestInstant, max_eq_right h.1]
      rw [forward, hrest, helapsed, hlatest]
      ring

end Runs

/-- **The bucket's bound**, for calls in order of their instants: at no point of
a run has it taken more than the capacity and the refill of the time since the
bucket was made, and the tokens stay within the bucket. -/
theorem bucket_bounded_in_order (capacity refillPerSec : ℚ≥0) (created : ℚ)
    {calls : List TakeCall} (hordered : (created :: calls.map TakeCall.now).IsChain (· ≤ ·))
    {made : List TakeCall} (hmade : made <+: calls) :
    let b := TokenBucket.new capacity refillPerSec created
    admittedCost b made ≤ capacity + refillPerSec * (latestInstant created made - created) ∧
      0 ≤ (final takeStep b made).tokens ∧ (final takeStep b made).tokens ≤ capacity := by
  intro b
  have hordered : (created :: made.map TakeCall.now).IsChain (· ≤ ·) :=
    hordered.prefix (List.cons_prefix_cons.mpr ⟨rfl, hmade.map _⟩)
  have hrun : admittedCost b made + (final takeStep b made).tokens ≤
      capacity + refillPerSec * (latestInstant created made - created) := by
    rw [← forward_of_ordered hordered]
    exact admittedCost_add_tokens_le
  have hcapacity : (final takeStep b made).capacity = capacity :=
    final_invariant (I := fun b' : TokenBucket => b'.capacity = capacity)
      (fun _ call _ h => (capacity_takeStep call).trans h) rfl
  have hnonneg := (final takeStep b made).tokens_nonneg
  have hle := (final takeStep b made).tokens_le
  exact ⟨by linarith, hnonneg, hcapacity ▸ hle⟩

namespace TwoClocks

/-- Two seconds' worth of tokens at one token in ten seconds. -/
def bucket : TokenBucket := .new 2 (1 / 10) 0

/-- The instants of one clock. -/
def ordered : List TakeCall := [⟨0, 2⟩, ⟨5, 1⟩, ⟨20, 2⟩]

/-- A slow caller's instant comes after a fast one's, again and again. -/
def crossed : List TakeCall := [⟨20, 2⟩, ⟨0, 1⟩, ⟨20, 2⟩, ⟨0, 1⟩, ⟨20, 2⟩]

end TwoClocks

open TwoClocks in
theorem bucket_bounded_in_order_example :
    admittedCost bucket ordered = 4 ∧
      admittedCost bucket ordered ≤ 2 + 1 / 10 * (latestInstant 0 ordered - 0) := by
  have hordered : ((0 : ℚ) :: ordered.map TakeCall.now).IsChain (· ≤ ·) := by decide +kernel
  have h := bucket_bounded_in_order 2 (1 / 10) 0 hordered List.prefix_rfl
  exact ⟨by decide +kernel, by simpa [bucket] using h.1⟩

open TwoClocks in
/-- Six tokens in the time of four. -/
theorem crossed_clocks_exceed_bound :
    ¬ admittedCost bucket crossed ≤ 2 + 1 / 10 * (latestInstant 0 crossed - 0) := by
  decide +kernel

end Mcpmesh
