import Mcpmesh.Blobs.Fetch

/-!
# Mcpmesh.Blobs.FetchProgress

The progress frames of a fetch (`node/src/blobs/provider.rs`).  Its sources
report into one `TransferProgressState`, so the frames of a fetch are the marks
of all that was reported, over every source it tried, and then the one terminal
frame (`FetchFrames`).

The terminal frame carries the last count, and a source that resumes reports
from where its own request starts: where that ends below a mark, the frames go
backwards (`transfer_progress_iff`).
-/

namespace Mcpmesh

open Lib Dial

/-! ## the counts a fetch was told -/

def FetchEvent.progress? : FetchEvent → Option Nat
  | .progress count => some count
  | _ => none

/-- The counts reported in a run, over all its sources. -/
def reported (es : List FetchEvent) : List Nat := es.filterMap FetchEvent.progress?

/-- The terminal frame a phase has emitted. -/
def FetchPhase.terminal (done : Nat) : FetchPhase → List (BlobTransferState × Nat)
  | .returned (.ok _) => [(.completed, done)]
  | .returned (.error _) => [(.aborted, done)]
  | _ => []

/-- The state tracks the counts, and the frames are those of their marks and an
ending. -/
structure Streamed (counts : List Nat) (ending : List (BlobTransferState × Nat))
    (f : BlobFetch) : Prop where
  tracks : Tracks counts f.st
  total : f.st.total = none
  points : f.frames.map (·.point) =
    (.started, 0) :: (marks none counts).map (.progress, ·) ++ ending

def FetchFrames (counts : List Nat) (f : BlobFetch) : Prop :=
  Streamed counts (f.phase.terminal f.st.done) f

section Parts

variable {counts : List Nat} {ending : List (BlobTransferState × Nat)} {f : BlobFetch}

/-- The next source starts without a frame. -/
theorem Streamed.startNext (h : Streamed counts ending f) :
    Streamed counts ending f.startNext := by
  obtain ⟨_, hf⟩ | ⟨_, _, hf⟩ := f.startNext_cases
  · exact hf.symm ▸ h
  · rw [hf]
    exact ⟨h.tracks, h.total, h.points⟩

/-- What a stream ends with follows its marks. -/
theorem Streamed.close (h : Streamed counts [] f) (state : BlobTransferState) :
    (f.frames ++ [emitFetch f.st state]).map (·.point) =
      (.started, 0) :: (marks none counts).map (.progress, ·) ++ [(state, f.st.done)] := by
  rw [List.map_append, h.points, List.append_nil]
  rfl

/-- Waiting for a dial sends nothing. -/
theorem Streamed.awaitDial (h : Streamed counts [] f) : FetchFrames counts f.awaitDial := by
  have hclosed := h.close .aborted
  rw [BlobFetch.awaitDial]
  split
  · exact ⟨h.tracks, h.total, hclosed⟩
  · split
    · exact ⟨h.tracks, h.total, hclosed⟩
    · exact ⟨h.tracks, h.total, h.points⟩

/-- A race is over without a frame, or ends the stream. -/
theorem Streamed.race (h : Streamed counts [] f) : FetchFrames counts f.race := by
  rw [BlobFetch.race]
  split
  · exact h.startNext.awaitDial
  · exact h.awaitDial

/-- The end of a dial sends nothing, or ends the stream. -/
theorem Streamed.dialDone (h : Streamed counts [] f) (i : Nat) (ending : DialEnd) :
    FetchFrames counts (f.dialDone i ending) := by
  cases ending with
  | connected => exact ⟨h.tracks, h.total, h.points⟩
  | timedOut => exact Streamed.awaitDial (.startNext ⟨h.tracks, h.total, h.points⟩)
  | refused e => exact Streamed.awaitDial (.startNext ⟨h.tracks, h.total, h.points⟩)

/-- The end of a source sends nothing, or ends the stream. -/
theorem Streamed.settle (h : Streamed counts [] f) (i : Nat) (outcome : Except Anyhow Unit) :
    FetchFrames counts (f.settle i outcome) := by
  cases outcome with
  | ok _ => exact ⟨h.tracks, h.total, h.close .completed⟩
  | error e => exact Streamed.race ⟨h.tracks, h.total, h.points⟩

/-- A count that is reported becomes a mark, if there is one to send. -/
theorem Streamed.report (h : Streamed counts [] f) (c : Nat) :
    Streamed (counts ++ [c]) [] (f.report c) := by
  obtain ⟨htracks, hmarks⟩ := h.tracks.report (c := c)
  rw [h.total] at hmarks
  refine ⟨htracks, TransferProgressState.report_total.trans h.total, ?_⟩
  show (f.frames ++ if (f.st.report c).2 then [emitFetch (f.st.report c).1 .progress]
    else []).map (·.point) = _
  rw [List.map_append, h.points, hmarks, List.append_nil, List.append_nil, List.map_append]
  rw [List.cons_append]
  congr 2
  split
  · simp [emitFetch, TransferProgressState.frame, BlobTransfer.point]
  · rfl

end Parts

/-- **One step** of a fetch, for its frames. -/
theorem FetchFrames.step {counts : List Nat} {f f' : BlobFetch} {e : FetchEvent}
    (h : FetchFrames counts f) (hstep : f.step e = some f') :
    FetchFrames (counts ++ e.progress?.toList) f' := by
  have hopen : ∀ {phase}, f.phase = phase → phase.terminal f.st.done = [] →
      Streamed counts [] f := by
    intro phase hphase hterminal
    rw [FetchFrames, hphase, hterminal] at h
    exact h
  have hquiet : e.progress? = none → FetchFrames counts f' →
      FetchFrames (counts ++ e.progress?.toList) f' := by
    intro hnone hf
    rw [hnone, Option.toList_none, List.append_nil]
    exact hf
  cases BlobFetch.moves_of_step hstep with
  | dialDone hphase _ => exact hquiet rfl ((hopen hphase rfl).dialDone _ _)
  | hedge hphase _ => exact hquiet rfl (hopen hphase rfl).startNext.awaitDial
  | @progress i outcome done hphase =>
      have hreport := (hopen hphase rfl).report done
      have hterminal : (f.report done).phase.terminal (f.report done).st.done = [] := by
        show f.phase.terminal _ = []
        rw [hphase, FetchPhase.terminal]
        · nofun
        · nofun
      rw [FetchFrames, hterminal, FetchEvent.progress?]
      exact hreport
  | done hphase =>
      have hopen := hopen hphase rfl
      exact hquiet rfl ⟨hopen.tracks, hopen.total, hopen.points⟩
  | error hphase =>
      have hopen := hopen hphase rfl
      exact hquiet rfl ⟨hopen.tracks, hopen.total, hopen.points⟩
  | streamEnd hphase => exact hquiet rfl ((hopen hphase rfl).settle _ _)
  | stalled hphase => exact hquiet rfl ((hopen hphase rfl).settle _ _)

/-- In every run the frames are the start, the marks of what was reported, and an end
once there is one. -/
theorem fetchFrames_run {hash : String} {sources : List EndpointAddr} {es : List FetchEvent}
    {f : BlobFetch} (hrun : run BlobFetch.step (.begin hash sources) es = some f) :
    FetchFrames (reported es) f := by
  refine run_history (I := fun es f => FetchFrames (reported es) f) ?_ ?_ hrun
  · exact Streamed.race ⟨tracks_start, rfl, rfl⟩
  · intro es f e f' _ h hstep
    have hnext := h.step hstep
    rw [reported, List.filterMap_append]
    cases e <;> exact hnext

/-! ## the frames of a fetch that returned -/

/-- What the frames of a fetch should be: those of one transfer, never backwards,
and logarithmically many in every bound of its counts. -/
structure FetchReports (counts : List Nat) (frames : List BlobTransfer) : Prop where
  oneTransfer : OneTransfer frames
  neverBackwards : NeverBackwards frames
  few : ∀ s < 2 ^ 64, (∀ c ∈ counts, c ≤ s) → progressFrames frames ≤
    framesPerEpoch * (Nat.log2 (s / (framesPerEpoch * progressStrideBytes) + 1) + 1)

/-- A fetch that returned has sent its points, the last of them terminal. -/
theorem points_of_returned {hash : String} {sources : List EndpointAddr} {es : List FetchEvent}
    {f : BlobFetch} {result : Except Anyhow String}
    (hrun : run BlobFetch.step (.begin hash sources) es = some f)
    (hreturned : f.phase = .returned result) :
    ∃ last, (last = .completed ∨ last = .aborted) ∧ f.frames.map (·.point) =
      (.started, 0) :: (marks none (reported es)).map (.progress, ·) ++
        [(last, (reported es).getLastD 0)] := by
  have hframes := fetchFrames_run hrun
  have hpoints := hframes.points
  rw [hreturned, hframes.tracks.done] at hpoints
  cases result with
  | ok _ => exact ⟨.completed, .inl rfl, hpoints⟩
  | error _ => exact ⟨.aborted, .inr rfl, hpoints⟩

/-- **Transfer progress**: served transfers report well; a fetch does exactly when
no mark is above the count that was reported last. -/
theorem transfer_progress_iff {hash : String} {sources : List EndpointAddr}
    {es : List FetchEvent} {f : BlobFetch} {result : Except Anyhow String}
    (hrun : run BlobFetch.step (.begin hash sources) es = some f)
    (hreturned : f.phase = .returned result) :
    (∀ peer hash size offsets ending, offsets.Pairwise (· ≤ ·) → (∀ o ∈ offsets, o ≤ size) →
      OneTransfer (servedFrames peer hash size offsets ending) ∧
        NeverBackwards (servedFrames peer hash size offsets ending) ∧
        progressFrames (servedFrames peer hash size offsets ending) ≤ 100 ∧
        ∀ f ∈ servedFrames peer hash size offsets ending, f.state = .completed →
          size ≤ f.bytesDone) ∧
      (FetchReports (reported es) f.frames ↔
        ∀ m ∈ marks none (reported es), m ≤ (reported es).getLastD 0) := by
  obtain ⟨last, hlast, hpoints⟩ := points_of_returned hrun hreturned
  have hforward := neverBackwards_iff_of_points hpoints
  refine ⟨fun _ _ _ _ _ => servedFrames_spec, fun h => hforward.mp h.neverBackwards, fun h => ?_⟩
  constructor
  · exact oneTransfer_of_points hpoints hlast
  · exact hforward.mpr h
  · intro s hs hwithin
    rw [progressFrames_of_points hpoints hlast]
    exact length_marks_le_log hs hwithin

/-- A source that reports two mebibytes and stalls, and one that has the rest. -/
def resumedFetch : List FetchEvent :=
  [.dialDone 0 .connected, .progress 2097152, .stalled, .dialDone 1 .connected, .progress 16384,
    .done, .streamEnd]

/-- One source that reports two mebibytes and the end. -/
def plainFetch : List FetchEvent :=
  [.dialDone 0 .connected, .progress 16384, .progress 2097152, .done, .streamEnd]

theorem transfer_progress_iff_of_plain : ∃ f,
    run BlobFetch.step (.begin "h" twoSources) plainFetch = some f ∧
      FetchReports [16384, 2097152] f.frames :=
  ⟨_, rfl, ((@transfer_progress_iff "h" twoSources plainFetch _ (.ok "h") rfl rfl).2).mpr
    (by decide)⟩

/-- The resumed fetch completes with fewer bytes than it had reported. -/
theorem resumed_fetch_goes_backwards : ∃ f,
    run BlobFetch.step (.begin "h" twoSources) resumedFetch = some f ∧
      f.phase = .returned (.ok "h") ∧
      f.frames.map (·.point) =
        [(.started, 0), (.progress, 2097152), (.completed, 16384)] ∧
      ¬NeverBackwards f.frames :=
  ⟨_, rfl, rfl, by decide, by decide⟩

end Mcpmesh
