import Mcpmesh.Codec
import Mcpmesh.Lib.Pipe

/-!
# Mcpmesh.Net.Transport

A framed byte stream (`NdjsonTransport`, `net/src/transport.rs`) between pipes.

The reading half is a frame reader at the end of a pipe: a turn of its loop
takes a byte that was read ahead (`reader_next`), and where there is none the
pipe is read.
The writing half is an `Outlet`, which `send_locked` holds for a line.
-/

namespace Mcpmesh

open Lib

section

variable {V ε : Type*} (S : Serde V)

/-- A turn of the loop of `next`, on a byte that was read. -/
def FrameReader.turn (r : FrameReader ε) (byte : UInt8) : Option (Inbound V) × FrameReader ε :=
  if byte = 10 then
    if r.discarding then (some (.violation .tooLarge), { r with discarding := false })
    else
      let inbound : Inbound V :=
        match S.fromSlice r.buf with
        | .ok v => .frame v
        | .error _ => .violation .invalidJson
      (some inbound, { r with buf := [] })
  else if r.discarding then (none, r)
  else if r.maxFrame ≤ r.buf.length then (none, { r with discarding := true, buf := [] })
  else (none, { r with buf := r.buf ++ [byte] })

/-- The frames before the first violation. -/
def leadingFrames : List (Inbound V) → List V
  | .frame v :: rest => v :: leadingFrames rest
  | _ => []

theorem leadingFrames_append (frames : List V) (rest : List (Inbound V)) :
    leadingFrames (frames.map .frame ++ rest) = frames ++ leadingFrames rest := by
  induction frames with
  | nil => rfl
  | cons v frames ih => exact congrArg (v :: ·) ih

/-- A frame reader at the end of a pipe. -/
structure Inlet where
  pipe : Pipe UInt8
  reader : FrameReader Unit

namespace Inlet

/-- A stream of which the bytes `ahead` were read with an earlier frame. -/
def new (capacity : ℕ+) (maxFrame : Nat) (ahead : List UInt8) : Inlet :=
  ⟨{ Pipe.empty capacity with taken := ahead }, ⟨⟨ahead, []⟩, maxFrame, [], false⟩⟩

/-- A poll of `next` goes on: by a byte that was read ahead, else by the `n`
bytes that the pipe hands over, or by its end. -/
def next (i : Inlet) (n : Nat) : Option (Poll (Except Unit (Option (Inbound V))) × Inlet) :=
  match i.reader.reader.buffered with
  | b :: bs =>
      match FrameReader.turn S { i.reader with reader := ⟨bs, []⟩ } b with
      | (some inbound, reader) => some (.ready (.ok (some inbound)), { i with reader })
      | (none, reader) => some (.pending, { i with reader })
  | [] =>
      match i.pipe.take n with
      | some (bs, pipe) => some (.pending, ⟨pipe, { i.reader with reader := ⟨bs, []⟩ }⟩)
      | none =>
          match i.pipe.writer, i.pipe.buffered with
          | .reset, _ => some (.ready (.error ()), i)
          | .closed, [] =>
              if i.reader.discarding then
                some (.ready (.ok (some (.violation .tooLarge))),
                  { i with reader := { i.reader with discarding := false } })
              else some (.ready (.ok none), i)
          | _, _ => none

/-- The reader has answered these lines of what it took. -/
def HasRead (i : Inlet) (answered : List (Inbound V)) : Prop :=
  ∃ pre, i.reader.Holds pre ∧ ∀ rest,
    lineResults S i.reader.maxFrame (i.pipe.taken ++ rest) =
      answered ++ lineResults S i.reader.maxFrame (pre ++ i.reader.reader.buffered ++ rest)

/-- The stream has ended, with these lines. -/
def Drained (i : Inlet) (answered : List (Inbound V)) : Prop :=
  i.pipe.writer = .closed ∧ lineResults S i.reader.maxFrame i.pipe.written = answered

/-- The frames that were written, before the first malformed line. -/
def frames (maxFrame : Nat) (i : Inlet) : List V :=
  leadingFrames (lineResults S maxFrame i.pipe.written)

end Inlet

end

section

variable {V ε : Type*} {S : Serde V} {r r' : FrameReader ε} {b : UInt8} {bs pre : List UInt8}
  {out : Option (Inbound V)}

/-- A poll of `next` is its turns. -/
theorem next_turn (fut : NextFuture) {source : List (Wake ε UInt8)}
    (hreader : r.reader = ⟨b :: bs, source⟩) :
    FrameReader.next S fut r =
      match FrameReader.turn S { r with reader := ⟨bs, source⟩ } b with
      | (some inbound, r') => (.ready (.ok (some inbound)), ⟨b⟩, r')
      | (none, r') => FrameReader.next S ⟨b⟩ r' := by
  have hread : r.reader.pollRead fut.byte = (.ready (.ok 1), b, ⟨bs, source⟩) := by
    rw [hreader]
    rfl
  rw [FrameReader.next]
  split
  · simp_all
  · simp_all
  · next n byte reader hread' =>
    rw [hread] at hread'
    simp only [Prod.mk.injEq, Poll.ready.injEq, Except.ok.injEq] at hread'
    obtain ⟨rfl, rfl, rfl⟩ := hread'
    rw [dif_neg Nat.one_ne_zero, FrameReader.turn]
    split_ifs <;> rfl

/-- What is unread does not show. -/
theorem FrameReader.Holds.unread (h : r.Holds pre) (reader : BufReader ε UInt8) :
    FrameReader.Holds { r with reader } pre :=
  ⟨h.one_line, h.discarding, h.buf⟩

theorem maxFrame_turn (hturn : r.turn S b = (out, r')) : r'.maxFrame = r.maxFrame := by
  unfold FrameReader.turn at hturn
  split_ifs at hturn <;> (obtain ⟨-, rfl⟩ := Prod.mk.inj hturn; rfl)

theorem reader_turn (hturn : r.turn S b = (out, r')) : r'.reader = r.reader := by
  unfold FrameReader.turn at hturn
  split_ifs at hturn <;> (obtain ⟨-, rfl⟩ := Prod.mk.inj hturn; rfl)

/-- What a turn does of a line: the byte ends it, or becomes its last. -/
theorem turn_spec (h : r.Holds pre) (hturn : r.turn S b = (out, r')) :
    r'.reader = r.reader ∧
      match out with
      | some inbound => b = 10 ∧ inbound = classify S r.maxFrame pre ∧ r'.Holds []
      | none => b ≠ 10 ∧ r'.Holds (pre ++ [b]) := by
  unfold FrameReader.turn at hturn
  split at hturn
  · next hb =>
    split at hturn
    · next hdiscard =>
      obtain ⟨rfl, rfl⟩ := Prod.mk.inj hturn
      obtain ⟨hlt, hbuf⟩ := h.beyond hdiscard
      exact ⟨rfl, hb, by rw [classify, if_pos hlt], FrameReader.holds_nil hbuf rfl⟩
    · next hkeep =>
      obtain ⟨rfl, rfl⟩ := Prod.mk.inj hturn
      have hkeep : r.discarding = false := by simpa using hkeep
      obtain ⟨hle, hbuf⟩ := h.within hkeep
      have hshort : ¬ r.maxFrame < r.buf.length := by
        rw [hbuf]
        exact Nat.not_lt_of_le hle
      refine ⟨rfl, hb, ?_, FrameReader.holds_nil rfl hkeep⟩
      rw [← hbuf]
      exact (if_neg hshort).symm
  · next hb =>
    split at hturn
    · next hdiscard =>
      obtain ⟨rfl, rfl⟩ := Prod.mk.inj hturn
      obtain ⟨hlt, hbuf⟩ := h.beyond hdiscard
      refine ⟨rfl, hb, h.snoc hb rfl ?_ ?_⟩
      · simpa [Nat.le_of_lt hlt] using hdiscard
      · simpa [Nat.le_of_lt hlt] using hbuf
    · next hkeep =>
      obtain ⟨hle, hbuf⟩ := h.within (by simpa using hkeep)
      split at hturn
      · next hfull =>
        obtain ⟨rfl, rfl⟩ := Prod.mk.inj hturn
        rw [hbuf] at hfull
        exact ⟨rfl, hb, h.snoc hb rfl (by simp [hfull]) (by simp [hfull])⟩
      · next hroom =>
        obtain ⟨rfl, rfl⟩ := Prod.mk.inj hturn
        rw [hbuf] at hroom
        refine ⟨rfl, hb, h.snoc hb rfl ?_ ?_⟩
        · simpa [hroom] using hkeep
        · simp [hroom, hbuf]

end

namespace Inlet

variable {V : Type*} {S : Serde V} {i i' : Inlet} {n : Nat} {answered : List (Inbound V)}
  {poll : Poll (Except Unit (Option (Inbound V)))} {pipe : Pipe UInt8}

theorem hasRead_new (capacity : ℕ+) (maxFrame : Nat) (ahead : List UInt8) :
    (new capacity maxFrame ahead).HasRead S [] :=
  ⟨[], FrameReader.holds_nil rfl rfl, fun _ => rfl⟩

/-- What is read is not touched by what is written. -/
theorem HasRead.of_taken (h : i.HasRead S answered) (htaken : pipe.taken = i.pipe.taken) :
    HasRead S { i with pipe } answered := by
  obtain ⟨pre, hholds, hlines⟩ := h
  exact ⟨pre, hholds, fun rest => by simpa [htaken] using hlines rest⟩

/-- What has ended is not written any more. -/
theorem Drained.fed (h : i.Drained S answered) (hfed : i.pipe.Fed pipe) :
    Drained S { i with pipe } answered := by
  obtain ⟨hclosed, hlines⟩ := h
  obtain ⟨hwriter, hwritten⟩ := hfed.ended (by simp [hclosed])
  exact ⟨hwriter.trans hclosed, by simpa [hwritten] using hlines⟩

/-- The lines that were answered are the first of those that were written. -/
theorem HasRead.prefix_lines (h : i.HasRead S answered) :
    answered <+: lineResults S i.reader.maxFrame i.pipe.written := by
  obtain ⟨pre, -, hlines⟩ := h
  exact ⟨_, (hlines i.pipe.buffered).symm⟩

/-- On bytes that were read ahead a poll goes on as the frame reader's own. -/
theorem reader_next (fut : NextFuture) {b : UInt8} {bs : List UInt8}
    (hreader : i.reader.reader = ⟨b :: bs, []⟩) (h : i.next S n = some (poll, i')) :
    FrameReader.next S fut i.reader =
      match poll with
      | .ready out => (.ready out, ⟨b⟩, i'.reader)
      | .pending => FrameReader.next S ⟨b⟩ i'.reader := by
  have hbuffered : i.reader.reader.buffered = b :: bs := by rw [hreader]
  rw [next_turn fut hreader]
  unfold next at h
  rw [hbuffered] at h
  dsimp only at h
  split at h
  · next hturn =>
    obtain ⟨rfl, rfl⟩ := Prod.mk.inj (Option.some.inj h)
    rw [hturn]
  · next hturn =>
    obtain ⟨rfl, rfl⟩ := Prod.mk.inj (Option.some.inj h)
    rw [hturn]

/-- What a step of a poll does. -/
inductive Nexted (S : Serde V) (i : Inlet) (n : Nat) :
    Poll (Except Unit (Option (Inbound V))) → Inlet → Prop where
  | filled {bs : List UInt8} {pipe : Pipe UInt8} (hempty : i.reader.reader.buffered = [])
      (htake : i.pipe.take n = some (bs, pipe)) :
      Nexted S i n .pending ⟨pipe, { i.reader with reader := ⟨bs, []⟩ }⟩
  | turned {b : UInt8} {bs : List UInt8} {reader : FrameReader Unit}
      (hbuffered : i.reader.reader.buffered = b :: bs)
      (hturn : FrameReader.turn S { i.reader with reader := ⟨bs, []⟩ } b = (none, reader)) :
      Nexted S i n .pending { i with reader }
  | line {b : UInt8} {bs : List UInt8} {inbound : Inbound V} {reader : FrameReader Unit}
      (hbuffered : i.reader.reader.buffered = b :: bs)
      (hturn : FrameReader.turn S { i.reader with reader := ⟨bs, []⟩ } b = (some inbound, reader)) :
      Nexted S i n (.ready (.ok (some inbound))) { i with reader }
  | torn (hreset : i.pipe.writer = .reset) : Nexted S i n (.ready (.error ())) i
  | cut (hempty : i.reader.reader.buffered = []) (hclosed : i.pipe.writer = .closed)
      (hdrained : i.pipe.buffered = []) (hdiscard : i.reader.discarding = true) :
      Nexted S i n (.ready (.ok (some (.violation .tooLarge))))
        { i with reader := { i.reader with discarding := false } }
  | ended (hempty : i.reader.reader.buffered = []) (hclosed : i.pipe.writer = .closed)
      (hdrained : i.pipe.buffered = []) (hkeep : i.reader.discarding = false) :
      Nexted S i n (.ready (.ok none)) i

theorem nexted_of_next (h : i.next S n = some (poll, i')) : Nexted S i n poll i' := by
  unfold next at h
  split at h
  · next b bs hbuffered =>
    split at h
    · next hturn =>
      obtain ⟨rfl, rfl⟩ := Prod.mk.inj (Option.some.inj h)
      exact .line hbuffered hturn
    · next hturn =>
      obtain ⟨rfl, rfl⟩ := Prod.mk.inj (Option.some.inj h)
      exact .turned hbuffered hturn
  · next hempty =>
    split at h
    · next htake =>
      obtain ⟨rfl, rfl⟩ := Prod.mk.inj (Option.some.inj h)
      exact .filled hempty htake
    · split at h
      · next hreset =>
        obtain ⟨rfl, rfl⟩ := Prod.mk.inj (Option.some.inj h)
        exact .torn hreset
      · next hclosed hdrained =>
        split at h
        · next hdiscard =>
          obtain ⟨rfl, rfl⟩ := Prod.mk.inj (Option.some.inj h)
          exact .cut hempty hclosed hdrained hdiscard
        · next hkeep =>
          obtain ⟨rfl, rfl⟩ := Prod.mk.inj (Option.some.inj h)
          exact .ended hempty hclosed hdrained (by simpa using hkeep)
      · contradiction

/-- A read that cannot go on waits for the writer. -/
theorem waits_of_next (h : ∀ n, i.next S n = none) :
    i.reader.reader.buffered = [] ∧ i.pipe.buffered = [] ∧ i.pipe.writer = .live := by
  have hnone := h 0
  have hone := h 1
  cases hbuffered : i.reader.reader.buffered with
  | cons b bs =>
      simp only [next, hbuffered] at hnone
      split at hnone <;> contradiction
  | nil =>
      cases hpipe : i.pipe.buffered with
      | cons b bs => simp [next, hbuffered, Pipe.take, hpipe] at hone
      | nil =>
          cases hwriter : i.pipe.writer with
          | live => exact ⟨rfl, rfl, rfl⟩
          | closed =>
              simp only [next, hbuffered, Pipe.take, hpipe, hwriter, lt_self_iff_false, false_and,
                if_false] at hnone
              split at hnone <;> contradiction
          | reset => simp [next, hbuffered, Pipe.take, hpipe, hwriter] at hnone

/-- What is left of an unfinished line when the stream ends. -/
theorem HasRead.drained (h : i.HasRead S answered) (hempty : i.reader.reader.buffered = [])
    (hdrained : i.pipe.buffered = []) :
    lineResults S i.reader.maxFrame i.pipe.written =
      answered ++ if i.reader.discarding then [.violation .tooLarge] else [] := by
  obtain ⟨pre, hholds, hlines⟩ := h
  have htail : lineResults S i.reader.maxFrame pre =
      if i.reader.discarding then [.violation .tooLarge] else [] := by
    rw [lineResults_tail hholds.one_line, hholds.discarding]
    simp
  have hall := hlines []
  simp only [hempty, List.append_nil, htail] at hall
  rw [Pipe.written, hdrained, List.append_nil, hall]

/-- **Step lemma** of a reader: it answers line by line, and ends with the
stream. -/
theorem HasRead.next (h : i.HasRead S answered) (hnext : i.next S n = some (poll, i')) :
    match poll with
    | .pending => i'.HasRead S answered
    | .ready (.ok (some inbound)) =>
        i'.HasRead S (answered ++ [inbound]) ∨
          (∃ v, inbound = .violation v) ∧ i'.Drained S (answered ++ [inbound])
    | .ready (.ok none) => i'.Drained S answered
    | .ready (.error _) => i'.HasRead S answered ∧ i'.pipe.writer = .reset := by
  cases nexted_of_next hnext with
  | @filled bs pipe hempty htake =>
      obtain ⟨pre, hholds, hlines⟩ := h
      obtain ⟨htaken, -⟩ := Pipe.take_eq_some htake
      refine ⟨pre, hholds.unread ⟨bs, []⟩, fun rest => ?_⟩
      have hall := hlines (bs ++ rest)
      simpa [htaken, hempty] using hall
  | @turned b bs reader hbuffered hturn =>
      obtain ⟨pre, hholds, hlines⟩ := h
      obtain ⟨hreader, -, hsnoc⟩ := turn_spec (hholds.unread ⟨bs, []⟩) hturn
      have hmax := maxFrame_turn hturn
      dsimp only at hreader hmax
      refine ⟨pre ++ [b], hsnoc, fun rest => ?_⟩
      have hall := hlines rest
      simpa [hreader, hmax, hbuffered] using hall
  | @line b bs inbound reader hbuffered hturn =>
      obtain ⟨pre, hholds, hlines⟩ := h
      obtain ⟨hreader, hb, hinbound, hnil⟩ := turn_spec (hholds.unread ⟨bs, []⟩) hturn
      have hmax := maxFrame_turn hturn
      dsimp only at hreader hmax hinbound
      refine .inl ⟨[], hnil, fun rest => ?_⟩
      have hall := hlines rest
      rw [hbuffered, hb, List.append_assoc, List.cons_append, lineResults_line hholds.one_line,
        ← hinbound] at hall
      simpa [hreader, hmax] using hall
  | torn hreset => exact ⟨h, hreset⟩
  | cut hempty hclosed hdrained hdiscard =>
      have hlines := h.drained hempty hdrained
      rw [if_pos hdiscard] at hlines
      exact .inr ⟨⟨_, rfl⟩, hclosed, hlines⟩
  | ended hempty hclosed hdrained hkeep =>
      have hlines := h.drained hempty hdrained
      rw [hkeep] at hlines
      exact ⟨hclosed, by simpa using hlines⟩

/-- A poll leaves the pipe as its writer sees it. -/
theorem kept_next (h : i.next S n = some (poll, i')) :
    i.pipe.Kept i'.pipe ∧ i'.pipe.writer = i.pipe.writer ∧
      i'.reader.maxFrame = i.reader.maxFrame := by
  cases nexted_of_next h with
  | filled hempty htake =>
      obtain ⟨-, -, hwriter, -⟩ := Pipe.take_eq_some htake
      exact ⟨Pipe.kept_take htake, hwriter, rfl⟩
  | turned hbuffered hturn =>
      have hmax := maxFrame_turn hturn
      exact ⟨.refl _, rfl, hmax⟩
  | line hbuffered hturn =>
      have hmax := maxFrame_turn hturn
      exact ⟨.refl _, rfl, hmax⟩
  | torn hreset => exact ⟨.refl _, rfl, rfl⟩
  | cut hempty hclosed hdrained hdiscard => exact ⟨.refl _, rfl, rfl⟩
  | ended hempty hclosed hdrained hkeep => exact ⟨.refl _, rfl, rfl⟩

end Inlet

end Mcpmesh
