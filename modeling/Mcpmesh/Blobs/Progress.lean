import Mcpmesh.Lib.Thinning
import Mathlib.Algebra.BigOperators.Intervals
import Mathlib.Data.Nat.Log
import Mathlib.Tactic.Common

/-!
# Mcpmesh.Blobs.Progress

The progress frames of a blob transfer (`node/src/blobs/provider.rs`):
`TransferProgressState` with its stride, `apply_transfer_update` and the task
that drains the updates of a served request.

A count is worth a frame when it is a stride above the last one that was.  With
a known total the stride is one percent of it; without, it doubles every
`FRAMES_PER_EPOCH` frames.  `marks` are the counts a sequence of reports so
thins to, and `Tracks` says that the state is what that sequence left.
-/

namespace Mcpmesh

open Lib

/-! ## frames -/

inductive BlobTransferState where
  | started
  | progress
  | completed
  | aborted
  deriving DecidableEq

inductive BlobDirection where
  | fetch
  | serve
  deriving DecidableEq

structure BlobTransfer where
  direction : BlobDirection
  hash : String
  bytesDone : Nat
  bytesTotal : Option Nat
  state : BlobTransferState
  peer : Option String
  deriving DecidableEq

def progressStrideBytes : Nat := 1024 * 1024

def framesPerEpoch : Nat := 16

structure TransferProgressState where
  hash : String
  peer : Option String
  total : Option Nat
  done : Nat
  lastEmitted : Nat
  epochs : Nat
  inEpoch : Nat
  deriving DecidableEq

namespace TransferProgressState

/-- `TransferProgressState::stride`: the product saturates at the largest
`u64`. -/
def stride (st : TransferProgressState) : Nat :=
  match st.total with
  | some t => max (t / 100) progressStrideBytes
  | none =>
      max (min (2 ^ 64 - 1) (progressStrideBytes * 2 ^ min st.epochs 40)) progressStrideBytes

/-- `TransferProgressState::note_emitted`. -/
def noteEmitted (st : TransferProgressState) : TransferProgressState :=
  let st := { st with lastEmitted := st.done }
  match st.total with
  | some _ => st
  | none =>
      if framesPerEpoch ≤ st.inEpoch + 1 then
        { st with inEpoch := 0, epochs := min (2 ^ 32 - 1) (st.epochs + 1) }
      else
        { st with inEpoch := st.inEpoch + 1 }

/-- Take over a reported count: whether it is worth a `Progress` frame. -/
def report (st : TransferProgressState) (done : Nat) : TransferProgressState × Bool :=
  let st := { st with done }
  if st.stride ≤ st.done - st.lastEmitted then (st.noteEmitted, true) else (st, false)

def frame (direction : BlobDirection) (peer : Option String) (st : TransferProgressState)
    (state : BlobTransferState) : BlobTransfer where
  direction := direction
  hash := st.hash
  bytesDone := st.done
  bytesTotal := st.total
  state := state
  peer := peer

end TransferProgressState

/-- `emit_fetch`. -/
def emitFetch (st : TransferProgressState) (state : BlobTransferState) : BlobTransfer :=
  st.frame .fetch none state

/-- `emit_transfer`. -/
def emitTransfer (st : TransferProgressState) (state : BlobTransferState) : BlobTransfer :=
  st.frame .serve st.peer state

/-! ## served requests -/

/-- `RequestUpdate`. -/
inductive RequestUpdate where
  | started (hash : String) (size : Nat)
  | progress (endOffset : Nat)
  | completed
  | aborted

def TransferProgressState.start (hash : String) (peer : Option String) (total : Option Nat) :
    TransferProgressState where
  hash := hash
  peer := peer
  total := total
  done := 0
  lastEmitted := 0
  epochs := 0
  inEpoch := 0

/-- `apply_transfer_update`: the state it leaves, the frames it emits and whether
the transfer is over. -/
def applyTransferUpdate (peer : Option String) (st : Option TransferProgressState) :
    RequestUpdate → Option TransferProgressState × List BlobTransfer × Bool
  | .started hash size =>
      let cur := TransferProgressState.start hash peer (some size)
      (some cur, [emitTransfer cur .started], false)
  | .progress endOffset =>
      match st with
      | none => (none, [], false)
      | some cur =>
          let (cur, worth) := cur.report endOffset
          (some cur, if worth then [emitTransfer cur .progress] else [], false)
  | .completed =>
      match st with
      | none => (none, [], true)
      | some cur =>
          let cur := match cur.total with
            | some total => { cur with done := max cur.done total }
            | none => cur
          (some cur, [emitTransfer cur .completed], true)
  | .aborted =>
      match st with
      | none => (none, [], true)
      | some cur => (some cur, [emitTransfer cur .aborted], true)

/-- The task that drains the updates of a request: it stops at a terminal one,
and reports a transfer aborted whose updates end without. -/
def drainUpdates (peer : Option String) (st : Option TransferProgressState) :
    List RequestUpdate → List BlobTransfer
  | [] => (st.map fun cur => emitTransfer cur .aborted).toList
  | u :: us =>
      let (st, frames, terminal) := applyTransferUpdate peer st u
      if terminal then frames else frames ++ drainUpdates peer st us

/-! ## the counts that are worth a frame -/

/-- The stride after so many frames. -/
def strideAfter (total : Option Nat) (frames : Nat) : Nat :=
  match total with
  | some t => max (t / 100) progressStrideBytes
  | none => progressStrideBytes * 2 ^ min (frames / framesPerEpoch) 40

/-- Of the counts reported those that are worth a frame. -/
def marks (total : Option Nat) (counts : List Nat) : List Nat :=
  thin (strideAfter total) 0 0 counts

theorem strideAfter_pos {total : Option Nat} (n : Nat) : 0 < strideAfter total n := by
  cases total with
  | some t => exact Nat.lt_of_lt_of_le (by decide) (Nat.le_max_right ..)
  | none => exact Nat.mul_pos (by decide) (Nat.pow_pos (by decide))

/-- The state is what a sequence of reports leaves. -/
structure Tracks (counts : List Nat) (st : TransferProgressState) : Prop where
  done : st.done = counts.getLastD 0
  lastEmitted : st.lastEmitted = (marks st.total counts).getLastD 0
  epochs : st.total = none →
    st.epochs = min (2 ^ 32 - 1) ((marks st.total counts).length / framesPerEpoch)
  inEpoch : st.total = none → st.inEpoch = (marks st.total counts).length % framesPerEpoch

/-- The record of a started transfer tracks no count. -/
theorem tracks_start {hash : String} {peer : Option String} {total : Option Nat} :
    Tracks [] (.start hash peer total) where
  done := rfl
  lastEmitted := rfl
  epochs := fun _ => by simp [TransferProgressState.start, marks, thin]
  inEpoch := fun _ => rfl

/-- The stride of a state that tracks its reports: forty doublings of the least
one stay below `u64::MAX`, so neither bound is met. -/
theorem Tracks.stride_eq {counts : List Nat} {st : TransferProgressState} (h : Tracks counts st) :
    st.stride = strideAfter st.total (marks st.total counts).length := by
  rw [TransferProgressState.stride]
  cases htotal : st.total with
  | some t => rfl
  | none =>
      have hepochs := h.epochs htotal
      rw [htotal] at hepochs
      have hcap : min st.epochs 40 = min ((marks none counts).length / framesPerEpoch) 40 := by
        omega
      have hpow : 2 ^ min st.epochs 40 ≤ 2 ^ 40 :=
        Nat.pow_le_pow_right (by decide) (Nat.min_le_right ..)
      have hpos : 0 < 2 ^ min st.epochs 40 := Nat.pow_pos (by decide)
      simp only [strideAfter]
      rw [← hcap, progressStrideBytes]
      omega

/-- The marks after one more count. -/
theorem marks_snoc {total : Option Nat} {counts : List Nat} (c : Nat) :
    marks total (counts ++ [c]) = marks total counts ++
      if strideAfter total (marks total counts).length ≤ c - (marks total counts).getLastD 0
        then [c] else [] := by
  rw [marks, thin_append, ← marks, Nat.zero_add, thin]
  rfl

namespace TransferProgressState

variable {st : TransferProgressState} {c : Nat}

/-- A report changes what it counts, nothing else. -/
theorem report_eq : ∃ lastEmitted epochs inEpoch,
    (st.report c).1 = { st with done := c, lastEmitted, epochs, inEpoch } := by
  rw [report]
  split
  · rw [noteEmitted]
    dsimp only
    split
    · exact ⟨_, _, _, rfl⟩
    · split <;> exact ⟨_, _, _, rfl⟩
  · exact ⟨_, _, _, rfl⟩

@[simp] theorem report_total : (st.report c).1.total = st.total := by
  obtain ⟨_, _, _, h⟩ := @report_eq st c
  rw [h]

@[simp] theorem report_done : (st.report c).1.done = c := by
  obtain ⟨_, _, _, h⟩ := @report_eq st c
  rw [h]

end TransferProgressState

/-- A count that is worth a frame is a mark. -/
theorem marks_of_worth {total : Option Nat} {counts : List Nat} {c : Nat}
    (h : strideAfter total (marks total counts).length ≤ c - (marks total counts).getLastD 0) :
    marks total (counts ++ [c]) = marks total counts ++ [c] := by
  rw [marks_snoc, if_pos h]

/-- A count that is not worth a frame is none. -/
theorem marks_of_not_worth {total : Option Nat} {counts : List Nat} {c : Nat}
    (h : ¬strideAfter total (marks total counts).length ≤ c - (marks total counts).getLastD 0) :
    marks total (counts ++ [c]) = marks total counts := by
  rw [marks_snoc, if_neg h, List.append_nil]

/-- A full epoch ends and widens the stride; another frame fills it further. -/
theorem Tracks.noteEmitted {counts : List Nat} {st : TransferProgressState} {c : Nat}
    (h : Tracks counts st)
    (hmarks : marks st.total (counts ++ [c]) = marks st.total counts ++ [c]) :
    Tracks (counts ++ [c]) { st with done := c }.noteEmitted := by
  have hdone : c = (counts ++ [c]).getLastD 0 := List.getLastD_concat.symm
  have hlast : c = (marks st.total (counts ++ [c])).getLastD 0 := by
    rw [hmarks, List.getLastD_concat]
  rw [TransferProgressState.noteEmitted]
  cases htotal : st.total with
  | some t =>
      rw [htotal] at hlast
      exact ⟨hdone, hlast, nofun, nofun⟩
  | none =>
      have hepochs := h.epochs htotal
      have hinEpoch := h.inEpoch htotal
      rw [htotal] at hlast hmarks hepochs hinEpoch
      have hlen : (marks none (counts ++ [c])).length = (marks none counts).length + 1 := by
        rw [hmarks, List.length_append, List.length_singleton]
      rw [framesPerEpoch] at *
      dsimp only
      split
      · refine ⟨hdone, hlast, fun _ => ?_, fun _ => ?_⟩
        · show min (2 ^ 32 - 1) (st.epochs + 1) =
            min (2 ^ 32 - 1) ((marks none (counts ++ [c])).length / framesPerEpoch)
          rw [hlen, framesPerEpoch]
          omega
        · show 0 = (marks none (counts ++ [c])).length % framesPerEpoch
          rw [hlen, framesPerEpoch]
          omega
      · refine ⟨hdone, hlast, fun _ => ?_, fun _ => ?_⟩
        · show st.epochs =
            min (2 ^ 32 - 1) ((marks none (counts ++ [c])).length / framesPerEpoch)
          rw [hlen, framesPerEpoch]
          omega
        · show st.inEpoch + 1 = (marks none (counts ++ [c])).length % framesPerEpoch
          rw [hlen, framesPerEpoch]
          omega

/-- **One report**: the state goes on to track, and the count is worth a frame
exactly when it is a mark. -/
theorem Tracks.report {counts : List Nat} {st : TransferProgressState} {c : Nat}
    (h : Tracks counts st) : Tracks (counts ++ [c]) (st.report c).1 ∧
      marks st.total (counts ++ [c]) =
        marks st.total counts ++ if (st.report c).2 then [c] else [] := by
  have hstride : { st with done := c }.stride =
      strideAfter st.total (marks st.total counts).length := h.stride_eq
  have hworth : { st with done := c }.stride ≤ c - st.lastEmitted ↔
      strideAfter st.total (marks st.total counts).length ≤
        c - (marks st.total counts).getLastD 0 := by rw [hstride, h.lastEmitted]
  rw [TransferProgressState.report]
  dsimp only
  split
  · next hc =>
    have hmarks := marks_of_worth (hworth.mp hc)
    exact ⟨h.noteEmitted hmarks, hmarks⟩
  · next hc =>
    have hmarks := marks_of_not_worth (mt hworth.mpr hc)
    refine ⟨⟨List.getLastD_concat.symm, ?_, ?_, ?_⟩, hmarks.trans (List.append_nil _).symm⟩
    · exact h.lastEmitted.trans (congrArg (·.getLastD 0) hmarks.symm)
    · exact fun ht => (h.epochs ht).trans (congrArg (min _ <| ·.length / _) hmarks.symm)
    · exact fun ht => (h.inEpoch ht).trans (congrArg (·.length % _) hmarks.symm)

/-! ## how many there are -/

/-- What the marks of a sequence were apart fits under every bound of it. -/
theorem sum_marks_le {total : Option Nat} {bound : Nat} {counts : List Nat}
    (h : ∀ c ∈ counts, c ≤ bound) :
    ∑ i ∈ Finset.range (marks total counts).length, strideAfter total i ≤ bound := by
  have hsum : 0 + ∑ i ∈ Finset.range (marks total counts).length, strideAfter total (0 + i) ≤
      bound := sum_stride_le strideAfter_pos (Nat.zero_le bound) h
  simpa only [Nat.zero_add] using hsum

/-- A transfer of known size has a hundred marks at the most. -/
theorem length_marks_le_of_total {t : Nat} {counts : List Nat} (h : ∀ c ∈ counts, c ≤ t) :
    (marks (some t) counts).length ≤ 100 := by
  have hsum : ∑ i ∈ Finset.range (marks (some t) counts).length, strideAfter (some t) i ≤ t :=
    sum_marks_le h
  simp only [strideAfter, Finset.sum_const, Finset.card_range, Nat.nsmul_eq_mul] at hsum
  by_contra hmore
  have hleast : 101 * max (t / 100) progressStrideBytes ≤ t := by
    calc
      _ ≤ (marks (some t) counts).length * max (t / 100) progressStrideBytes :=
        Nat.mul_le_mul_right _ (by omega)
      _ ≤ t := hsum
  rw [progressStrideBytes] at hleast
  omega

/-- The first `k` epochs together: a geometric sum. -/
theorem sum_epochs {k : Nat} (hk : k ≤ 41) :
    ∑ i ∈ Finset.range (framesPerEpoch * k), strideAfter none i =
      framesPerEpoch * progressStrideBytes * (2 ^ k - 1) := by
  induction k with
  | zero => rfl
  | succ k ih =>
      have hepoch : ∀ j ∈ Finset.range framesPerEpoch,
          strideAfter none (framesPerEpoch * k + j) = progressStrideBytes * 2 ^ k := by
        intro j hj
        have hj : j < 16 := Finset.mem_range.mp hj
        have hindex : (framesPerEpoch * k + j) / framesPerEpoch = k := by
          rw [framesPerEpoch]
          omega
        rw [strideAfter, hindex, Nat.min_eq_left (by omega)]
      rw [Nat.mul_succ, Finset.sum_range_add, ih (by omega), Finset.sum_congr rfl hepoch,
        Finset.sum_const, Finset.card_range, Nat.nsmul_eq_mul, Nat.pow_succ]
      have hpos : 0 < 2 ^ k := Nat.pow_pos (by decide)
      have hsplit : 2 ^ k * 2 - 1 = (2 ^ k - 1) + 2 ^ k := by omega
      rw [hsplit, Nat.mul_add, Nat.mul_assoc _ _ (2 ^ k)]

/-- With no total known the frames of a transfer grow with the logarithm of its
size. -/
theorem length_marks_le_log {s : Nat} {counts : List Nat} (hs : s < 2 ^ 64)
    (h : ∀ c ∈ counts, c ≤ s) : (marks none counts).length ≤
      framesPerEpoch * (Nat.log2 (s / (framesPerEpoch * progressStrideBytes) + 1) + 1) := by
  have hsum : ∑ i ∈ Finset.range (marks none counts).length, strideAfter none i ≤ s :=
    sum_marks_le h
  by_contra hmore
  set k := Nat.log2 (s / (framesPerEpoch * progressStrideBytes) + 1) + 1 with hk
  have hlog : s / (framesPerEpoch * progressStrideBytes) + 1 < 2 ^ k := Nat.lt_log2_self
  have hcap : k ≤ 41 := by
    have hquot : s / (framesPerEpoch * progressStrideBytes) + 1 < 2 ^ 41 := by
      rw [framesPerEpoch, progressStrideBytes]
      omega
    have hlt : Nat.log2 (s / (framesPerEpoch * progressStrideBytes) + 1) < 41 :=
      (Nat.log2_lt (Nat.succ_ne_zero _)).mpr hquot
    omega
  have hepochs := sum_epochs hcap
  have hle : ∑ i ∈ Finset.range (framesPerEpoch * k), strideAfter none i ≤
      ∑ i ∈ Finset.range (marks none counts).length, strideAfter none i :=
    Finset.sum_le_sum_of_subset (Finset.range_subset_range.mpr (by omega))
  rw [hepochs, framesPerEpoch, progressStrideBytes] at hle
  rw [framesPerEpoch, progressStrideBytes] at hlog
  omega

/-! ## what a subscriber reads -/

/-- The state a frame reports and the count it carries. -/
def BlobTransfer.point (f : BlobTransfer) : BlobTransferState × Nat := (f.state, f.bytesDone)

/-- The frames of one transfer that is over: one `Started`, then `Progress`, then
one `Completed` or `Aborted`. -/
def OneTransfer (frames : List BlobTransfer) : Prop :=
  ∃ n last, (last = .completed ∨ last = .aborted) ∧
    frames.map (·.state) = .started :: List.replicate n .progress ++ [last]

def NeverBackwards (frames : List BlobTransfer) : Prop :=
  (frames.map (·.bytesDone)).Pairwise (· ≤ ·)

instance (frames : List BlobTransfer) : Decidable (NeverBackwards frames) :=
  inferInstanceAs (Decidable ((frames.map (·.bytesDone)).Pairwise (· ≤ ·)))

/-- The number of `Progress` frames. -/
def progressFrames (frames : List BlobTransfer) : Nat := frames.countP (·.state = .progress)

/-- The marks go up from zero. -/
theorem marks_pairwise {total : Option Nat} {counts : List Nat} :
    (0 :: marks total counts).Pairwise (· ≤ ·) := thin_pairwise strideAfter_pos

section Reading

variable {total : Option Nat} {counts : List Nat} {last : BlobTransferState} {d : Nat}
  {frames : List BlobTransfer}
  (hframes : frames.map (·.point) =
    (.started, 0) :: (marks total counts).map (.progress, ·) ++ [(last, d)])
include hframes

/-- The states of the frames are those of one transfer. -/
theorem states_of_points : frames.map (·.state) =
    .started :: List.replicate (marks total counts).length .progress ++ [last] := by
  have h := congrArg (List.map Prod.fst) hframes
  simpa [BlobTransfer.point, Function.comp_def] using h

/-- The counts of the frames are the marks. -/
theorem counts_of_points : frames.map (·.bytesDone) = 0 :: marks total counts ++ [d] := by
  have h := congrArg (List.map Prod.snd) hframes
  simpa [BlobTransfer.point, Function.comp_def] using h

/-- Frames in that order are one transfer. -/
theorem oneTransfer_of_points (hlast : last = .completed ∨ last = .aborted) :
    OneTransfer frames := ⟨_, last, hlast, states_of_points hframes⟩

/-- There are as many progress frames as marks. -/
theorem progressFrames_of_points (hlast : last = .completed ∨ last = .aborted) :
    progressFrames frames = (marks total counts).length := by
  have hcount : progressFrames frames = (frames.map (·.state)).countP (· = .progress) := by
    rw [List.countP_map]
    rfl
  have hends : last ≠ .progress := by rintro rfl; simp at hlast
  rw [hcount, states_of_points hframes]
  simp [List.countP_append, List.countP_replicate, hends]

/-- A completed frame is the last one. -/
theorem point_of_completed {f : BlobTransfer} (hf : f ∈ frames) (h : f.state = .completed) :
    (f.state, f.bytesDone) = (last, d) := by
  have hpoint : f.point ∈ frames.map (·.point) := List.mem_map_of_mem hf
  rw [hframes, BlobTransfer.point, h] at hpoint
  rw [h]
  simpa using hpoint

/-- The marks grow, so only the terminal frame can fall behind. -/
theorem neverBackwards_iff_of_points :
    NeverBackwards frames ↔ ∀ m ∈ marks total counts, m ≤ d := by
  rw [NeverBackwards, counts_of_points hframes, List.pairwise_append]
  constructor
  · rintro ⟨-, -, h⟩ m hm
    exact h m (List.mem_cons_of_mem _ hm) d List.mem_cons_self
  · intro h
    refine ⟨marks_pairwise, List.pairwise_singleton .., ?_⟩
    rintro m (_ | ⟨_, hm⟩) d' hd'
    · exact Nat.zero_le d'
    · exact List.mem_singleton.mp hd' ▸ h m hm

end Reading

/-! ## served transfers -/

/-- How the updates of a served transfer end: with the terminal one of the two, or
with none. -/
inductive TransferEnd where
  | completed
  | aborted
  | lost

def TransferEnd.updates : TransferEnd → List RequestUpdate
  | .completed => [.completed]
  | .aborted => [.aborted]
  | .lost => []

/-- The updates of a transfer of one blob. -/
def servedUpdates (hash : String) (size : Nat) (offsets : List Nat) (ending : TransferEnd) :
    List RequestUpdate :=
  .started hash size :: offsets.map .progress ++ ending.updates

/-- The frames while counts are reported are those of the marks. -/
theorem points_drainUpdates_progress {peer : Option String} {counts offsets : List Nat}
    {st : TransferProgressState} (h : Tracks counts st) (rest : List RequestUpdate) :
    ∃ st' new, Tracks (counts ++ offsets) st' ∧ st'.total = st.total ∧
      marks st.total (counts ++ offsets) = marks st.total counts ++ new ∧
      (drainUpdates peer (some st) (offsets.map .progress ++ rest)).map (·.point) =
        new.map (.progress, ·) ++ (drainUpdates peer (some st') rest).map (·.point) := by
  induction offsets generalizing counts st with
  | nil => exact ⟨st, [], by simpa using h, rfl, by simp, by simp⟩
  | cons c offsets ih =>
      obtain ⟨hnext, hmarks⟩ := h.report (c := c)
      obtain ⟨st', new, htracks, htotal, hnew, hframes⟩ := ih hnext
      rw [TransferProgressState.report_total] at htotal hnew
      rw [List.append_assoc, List.singleton_append] at htracks hnew
      refine ⟨st', (if (st.report c).2 then [c] else []) ++ new, htracks, htotal, ?_, ?_⟩
      · rw [hnew, hmarks, List.append_assoc]
      · rw [List.map_cons, List.cons_append, drainUpdates, applyTransferUpdate]
        dsimp only
        rw [if_neg Bool.false_ne_true, List.map_append, hframes, List.map_append,
          List.append_assoc]
        congr 1
        split
        · simp [emitTransfer, TransferProgressState.frame, BlobTransfer.point]
        · rfl

def servedFrames (peer : Option String) (hash : String) (size : Nat) (offsets : List Nat)
    (ending : TransferEnd) : List BlobTransfer :=
  drainUpdates peer none (servedUpdates hash size offsets ending)

/-- The terminal frame of a served transfer: `Completed` carries at least the
size. -/
def TransferEnd.point (ending : TransferEnd) (size done : Nat) : BlobTransferState × Nat :=
  match ending with
  | .completed => (.completed, max done size)
  | .aborted | .lost => (.aborted, done)

/-- The frames of a served transfer are its start, its marks and its end. -/
theorem points_servedFrames {peer : Option String} {hash : String} {size : Nat}
    {offsets : List Nat} {ending : TransferEnd} :
    (servedFrames peer hash size offsets ending).map (·.point) =
      (.started, 0) :: (marks (some size) offsets).map (.progress, ·) ++
        [ending.point size (offsets.getLastD 0)] := by
  obtain ⟨st, new, htracks, htotal, hnew, hframes⟩ :=
    @points_drainUpdates_progress peer [] offsets (.start hash peer (some size)) tracks_start
      ending.updates
  have hmarks : new = marks (some size) offsets := hnew.symm
  have hdone : st.done = offsets.getLastD 0 := htracks.done
  have hsize : st.total = some size := htotal
  rw [servedFrames, servedUpdates, List.cons_append, drainUpdates, applyTransferUpdate]
  dsimp only
  rw [if_neg Bool.false_ne_true, List.map_append, hframes, hmarks]
  simp only [emitTransfer, TransferProgressState.frame, BlobTransfer.point, List.map_cons,
    List.map_nil, TransferProgressState.start, List.cons_append, List.nil_append]
  congr 2
  cases ending with
  | completed =>
      simp [TransferEnd.updates, drainUpdates, applyTransferUpdate, hsize, TransferEnd.point,
        emitTransfer, TransferProgressState.frame, hdone]
  | aborted =>
      simp [TransferEnd.updates, drainUpdates, applyTransferUpdate, TransferEnd.point,
        emitTransfer, TransferProgressState.frame, hdone]
  | lost =>
      simp [TransferEnd.updates, drainUpdates, TransferEnd.point, emitTransfer,
        TransferProgressState.frame, hdone]

/-- Counts that never fall end with the largest. -/
theorem le_getLastD_of_mem {counts : List Nat} (hsorted : counts.Pairwise (· ≤ ·)) {c : Nat}
    (hc : c ∈ counts) : c ≤ counts.getLastD 0 := by
  obtain rfl | ⟨cs, d, rfl⟩ := List.eq_nil_or_concat' counts
  · exact absurd hc List.not_mem_nil
  · rw [List.getLastD_concat]
    obtain hc | hc := List.mem_append.mp hc
    · exact (List.pairwise_append.mp hsorted).2.2 c hc d List.mem_cons_self
    · exact (List.mem_singleton.mp hc).le

/-- **Served transfers**: their frames are those of one transfer, never go
backwards, are few, and a `Completed` one carries the size. -/
theorem servedFrames_spec {peer : Option String} {hash : String} {size : Nat}
    {offsets : List Nat} {ending : TransferEnd} (hsorted : offsets.Pairwise (· ≤ ·))
    (hwithin : ∀ o ∈ offsets, o ≤ size) :
    OneTransfer (servedFrames peer hash size offsets ending) ∧
      NeverBackwards (servedFrames peer hash size offsets ending) ∧
      progressFrames (servedFrames peer hash size offsets ending) ≤ 100 ∧
      ∀ f ∈ servedFrames peer hash size offsets ending, f.state = .completed →
        size ≤ f.bytesDone := by
  have hpoints := @points_servedFrames peer hash size offsets ending
  generalize servedFrames peer hash size offsets ending = frames at hpoints ⊢
  have hlast : (ending.point size (offsets.getLastD 0)).1 = .completed ∨
      (ending.point size (offsets.getLastD 0)).1 = .aborted := by
    cases ending with
    | completed => exact .inl rfl
    | aborted => exact .inr rfl
    | lost => exact .inr rfl
  have hdone : offsets.getLastD 0 ≤ (ending.point size (offsets.getLastD 0)).2 := by
    cases ending with
    | completed => exact Nat.le_max_left ..
    | aborted => exact Nat.le_refl _
    | lost => exact Nat.le_refl _
  refine ⟨oneTransfer_of_points hpoints hlast, ?_, ?_, ?_⟩
  · refine (neverBackwards_iff_of_points hpoints).mpr fun m hm => ?_
    exact (le_getLastD_of_mem hsorted (thin_sublist.subset hm)).trans hdone
  · rw [progressFrames_of_points hpoints hlast]
    exact length_marks_le_of_total hwithin
  · intro f hf hcompleted
    have hpoint := point_of_completed hpoints hf hcompleted
    cases ending with
    | completed =>
        have hdone : f.bytesDone = max (offsets.getLastD 0) size := congrArg Prod.snd hpoint
        exact hdone ▸ Nat.le_max_right ..
    | aborted => exact absurd (hcompleted.symm.trans (congrArg Prod.fst hpoint)) nofun
    | lost => exact absurd (hcompleted.symm.trans (congrArg Prod.fst hpoint)) nofun

end Mcpmesh
