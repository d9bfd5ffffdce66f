import Mcpmesh.Lib.AsyncRead
import Mathlib.Tactic.Common

/-!
# Mcpmesh.Codec

The wire codec (`codec/src/lib.rs`): one JSON frame a line, with a cap.

`FrameReader` is a byte-level machine; `lineResults` says what it is for, by
splitting the whole stream.  The two are connected by one relation, `Reads`:
the reader has read some bytes `pre` of an unfinished line, its buffer and its
flag are those of `pre`, and what it will answer is `lineResults` of `pre` and
all that is unread.  A poll keeps it, so neither the chunks, nor dropped
futures, nor errors of the underlying reader show in the answers.
-/

namespace Mcpmesh

open Lib

/-- `serde_json` at values of type `V`. -/
structure Serde (V : Type*) where
  toVec : V → Except String (List UInt8)
  fromSlice : List UInt8 → Except String V

/-- An encoding is one line, and decodes to what was encoded. -/
structure Serde.Faithful {V : Type*} (S : Serde V) : Prop where
  no_newline : ∀ v line, S.toVec v = .ok line → (10 : UInt8) ∉ line
  round_trip : ∀ v line, S.toVec v = .ok line → S.fromSlice line = .ok v

inductive Violation where
  | tooLarge
  | invalidJson
  deriving DecidableEq

inductive Inbound (V : Type*) where
  | frame (v : V)
  | violation (v : Violation)

section

variable {V ε : Type*} (S : Serde V)

/-! ## the reader -/

structure FrameReader (ε : Type*) where
  reader : BufReader ε UInt8
  maxFrame : Nat
  buf : List UInt8
  discarding : Bool

/-- A suspended call of `next`, with its one local. -/
structure NextFuture where
  byte : UInt8

namespace FrameReader

def new (source : List (Wake ε UInt8)) (maxFrame : Nat) : FrameReader ε :=
  { reader := .new source, maxFrame, buf := [], discarding := false }

def intoInner (r : FrameReader ε) : BufReader ε UInt8 := r.reader

/-- Poll a call of `next`: read a byte at a time until one decides. -/
def next (fut : NextFuture) (r : FrameReader ε) :
    Poll (Except ε (Option (Inbound V))) × NextFuture × FrameReader ε :=
  match _hread : r.reader.pollRead fut.byte with
  | (.pending, byte, reader) => (.pending, ⟨byte⟩, { r with reader })
  | (.ready (.error e), byte, reader) => (.ready (.error e), ⟨byte⟩, { r with reader })
  | (.ready (.ok n), byte, reader) =>
      if _hn : n = 0 then
        if r.discarding then
          (.ready (.ok (some (.violation .tooLarge))), ⟨byte⟩,
            { r with reader, discarding := false })
        else (.ready (.ok none), ⟨byte⟩, { r with reader })
      else if byte = 10 then
        if r.discarding then
          (.ready (.ok (some (.violation .tooLarge))), ⟨byte⟩,
            { r with reader, discarding := false })
        else
          let inbound : Inbound V :=
            match S.fromSlice r.buf with
            | .ok v => .frame v
            -- an empty line is invalid JSON too
            | .error _ => .violation .invalidJson
          (.ready (.ok (some inbound)), ⟨byte⟩, { r with reader, buf := [] })
      else if r.discarding then next ⟨byte⟩ { r with reader }
      else if r.maxFrame ≤ r.buf.length then
        next ⟨byte⟩ { r with reader, discarding := true, buf := [] }
      else next ⟨byte⟩ { r with reader, buf := r.buf ++ [byte] }
termination_by r.reader.unread.length
decreasing_by
  all_goals exact BufReader.unread_lt_of_pollRead _hread _hn

end FrameReader

/-! ## the writer -/

/-- `write_frame` to a sink that takes every byte. -/
def writeFrame (w : List UInt8) (frame : V) : Except String (List UInt8) := do
  let line ← S.toVec frame
  pure (w ++ (line ++ [10]))

def writeFrames (w : List UInt8) (frames : List V) : Except String (List UInt8) :=
  frames.foldlM (writeFrame S) w

/-! ## a caller -/

/-- What a caller does: poll its call of `next`, or a new one; or drop it. -/
inductive Use where
  | poll
  | drop
  deriving DecidableEq

structure Session (ε : Type*) where
  reader : FrameReader ε
  future : Option NextFuture

namespace Session

def new (source : List (Wake ε UInt8)) (maxFrame : Nat) : Session ε := ⟨.new source maxFrame, none⟩

def poll (s : Session ε) : Option (Except ε (Option (Inbound V))) × Session ε :=
  match FrameReader.next S (s.future.getD ⟨0⟩) s.reader with
  | (.pending, fut, reader) => (none, ⟨reader, some fut⟩)
  | (.ready out, _, reader) => (some out, ⟨reader, none⟩)

/-- What the calls of `next` return, in order. -/
def results : Session ε → List Use → List (Except ε (Option (Inbound V)))
  | _, [] => []
  | s, .drop :: uses => results { s with future := none } uses
  | s, .poll :: uses => (s.poll S).1.toList ++ results (s.poll S).2 uses

/-- The results that are no errors of the underlying reader. -/
def oks (s : Session ε) (uses : List Use) : List (Option (Inbound V)) :=
  (s.results S uses).filterMap Except.toOption

end Session

/-! ## what a stream says -/

/-- What a line of these bytes is. -/
def classify (maxFrame : Nat) (line : List UInt8) : Inbound V :=
  if maxFrame < line.length then .violation .tooLarge
  else
    match S.fromSlice line with
    | .ok v => .frame v
    | .error _ => .violation .invalidJson

/-- The terminated lines of a stream, then what its unfinished line is. -/
def lineResults (maxFrame : Nat) (bytes : List UInt8) : List (Inbound V) :=
  let segments := bytes.splitOn 10
  segments.dropLast.map (classify S maxFrame) ++
    if maxFrame < (segments.getLastD []).length then [.violation .tooLarge] else []

end

section

variable {V ε : Type*} {S : Serde V} {maxFrame : Nat} {pre rest : List UInt8}

/-- The results of a first line and of the rest. -/
theorem lineResults_line (h : (10 : UInt8) ∉ pre) :
    lineResults S maxFrame (pre ++ 10 :: rest) =
      classify S maxFrame pre :: lineResults S maxFrame rest := by
  have hne : rest.splitOn 10 ≠ [] := List.splitOn_ne_nil 10 rest
  obtain ⟨segment, segments, hsegments⟩ := List.exists_cons_of_ne_nil hne
  rw [lineResults, List.splitOn_append_cons_self_of_not_mem h, lineResults, hsegments]
  rfl

/-- A tail without a newline gives a result only where it is too long. -/
theorem lineResults_tail (h : (10 : UInt8) ∉ pre) :
    lineResults S maxFrame pre =
      if maxFrame < pre.length then [.violation .tooLarge] else [] := by
  rw [lineResults, List.splitOn_eq_singleton h]
  rfl

/-! ## a poll of the reader -/

/-- The reader holds what the bytes `pre` of an unfinished line leave. -/
structure FrameReader.Holds (r : FrameReader ε) (pre : List UInt8) : Prop where
  one_line : (10 : UInt8) ∉ pre
  discarding : r.discarding = decide (r.maxFrame < pre.length)
  buf : r.buf = if r.maxFrame < pre.length then [] else pre

/-- What the reader will answer before `Ok(None)`. -/
def FrameReader.Reads (S : Serde V) (r : FrameReader ε) (todo : List (Inbound V)) : Prop :=
  ∃ pre, r.Holds pre ∧ lineResults S r.maxFrame (pre ++ r.reader.unread) = todo

/-- What a poll does to what is to be answered: a result is the next one, and
leaves nothing of its line; anything else has used up a stall. -/
def Answers (todo : List (Inbound V)) (stalls : Nat) (r : FrameReader ε) (S : Serde V) :
    Poll (Except ε (Option (Inbound V))) → Prop
  | .ready (.ok inbound) =>
      inbound = todo.head? ∧ r.Reads S todo.tail ∧ r.reader.stalls = stalls ∧
        (inbound.isSome → r.Holds [])
  | _ => r.Reads S todo ∧ stalls = r.reader.stalls + 1

variable {r : FrameReader ε} {todo : List (Inbound V)}

/-- A reader that keeps has what it read of the line, within the limit. -/
theorem FrameReader.Holds.within (h : r.Holds pre) (hkeep : r.discarding = false) :
    pre.length ≤ r.maxFrame ∧ r.buf = pre := by
  have hle : ¬ r.maxFrame < pre.length := of_decide_eq_false (h.discarding.symm.trans hkeep)
  exact ⟨Nat.le_of_not_lt hle, h.buf.trans (if_neg hle)⟩

/-- A reader that discards has read past the limit. -/
theorem FrameReader.Holds.beyond (h : r.Holds pre) (hdiscard : r.discarding = true) :
    r.maxFrame < pre.length ∧ r.buf = [] := by
  have hlt : r.maxFrame < pre.length := of_decide_eq_true (h.discarding.symm.trans hdiscard)
  exact ⟨hlt, h.buf.trans (if_pos hlt)⟩

/-- Between two lines the reader holds nothing. -/
theorem FrameReader.holds_nil (hbuf : r.buf = []) (hkeep : r.discarding = false) : r.Holds [] :=
  ⟨List.not_mem_nil, hkeep.trans (by simp), hbuf.trans (by simp)⟩

/-- A byte that ends no line, and is neither skipped nor kept amiss. -/
theorem FrameReader.Holds.snoc {r' : FrameReader ε} {b : UInt8} (h : r.Holds pre) (hb : b ≠ 10)
    (hmax : r'.maxFrame = r.maxFrame)
    (hdiscarding : r'.discarding = decide (r.maxFrame ≤ pre.length))
    (hbuf : r'.buf = if r.maxFrame ≤ pre.length then [] else pre ++ [b]) :
    r'.Holds (pre ++ [b]) := by
  have hlength : r'.maxFrame < (pre ++ [b]).length ↔ r.maxFrame ≤ pre.length := by
    rw [hmax, List.length_append, List.length_singleton, Nat.lt_succ_iff]
  refine ⟨by simp [h.one_line, hb.symm], ?_, ?_⟩
  · rw [hdiscarding, decide_eq_decide]
    exact hlength.symm
  · rw [hbuf]
    exact if_congr hlength.symm rfl rfl

/-- One more byte of the line moves from the source to what is held. -/
theorem FrameReader.Reads.snoc {r' : FrameReader ε} {b : UInt8} (h : r'.Holds (pre ++ [b]))
    (hmax : r'.maxFrame = r.maxFrame) (hunread : r.reader.unread = b :: r'.reader.unread) :
    r'.Reads S (lineResults S r.maxFrame (pre ++ r.reader.unread)) := by
  refine ⟨pre ++ [b], h, ?_⟩
  rw [hmax, hunread, List.append_assoc, List.singleton_append]

/-- **The spec of a poll**, by the loop of `next`. -/
theorem next_spec (fut : NextFuture) (h : r.Reads S todo) :
    Answers todo r.reader.stalls (FrameReader.next S fut r).2.2 S (FrameReader.next S fut r).1 := by
  fun_induction FrameReader.next S fut r with
  | case1 fut r byte reader hread =>
      obtain ⟨hunread, hstalls⟩ := BufReader.pollRead_spec hread
      obtain ⟨pre, ⟨hline, hdiscarding, hbuf⟩, htodo⟩ := h
      exact ⟨⟨pre, ⟨hline, hdiscarding, hbuf⟩, hunread ▸ htodo⟩, hstalls⟩
  | case2 fut r e byte reader hread =>
      obtain ⟨hunread, hstalls⟩ := BufReader.pollRead_spec hread
      obtain ⟨pre, ⟨hline, hdiscarding, hbuf⟩, htodo⟩ := h
      exact ⟨⟨pre, ⟨hline, hdiscarding, hbuf⟩, hunread ▸ htodo⟩, hstalls⟩
  | case3 fut r byte reader hdiscard hread =>
      -- the end, while an oversized line is skipped
      obtain ⟨hstalls, hend, hend'⟩ := BufReader.pollRead_spec hread
      obtain ⟨pre, hholds, rfl⟩ := h
      obtain ⟨hlt, hbuf⟩ := hholds.beyond hdiscard
      rw [hend, List.append_nil, lineResults_tail hholds.one_line, if_pos hlt]
      have hholds' := FrameReader.holds_nil (r := { r with reader, discarding := false }) hbuf rfl
      refine ⟨rfl, ⟨[], hholds', ?_⟩, hstalls, fun _ => hholds'⟩
      dsimp only
      rw [hend']
      rfl
  | case4 fut r byte reader hkeep hread =>
      obtain ⟨hstalls, hend, hend'⟩ := BufReader.pollRead_spec hread
      obtain ⟨pre, ⟨hline, hdiscarding, hbuf⟩, rfl⟩ := h
      have hshort : ¬ r.maxFrame < pre.length := by simpa [hdiscarding] using hkeep
      rw [hend, List.append_nil, lineResults_tail hline, if_neg hshort]
      refine ⟨rfl, ⟨pre, ⟨hline, hdiscarding, hbuf⟩, ?_⟩, hstalls, fun hsome => by contradiction⟩
      dsimp only
      rw [hend', List.append_nil, lineResults_tail hline, if_neg hshort]
      rfl
  | case5 fut r n reader hn hdiscard hread =>
      obtain ⟨hstalls, hunread⟩ := BufReader.pollRead_spec hread
      rw [if_neg hn] at hunread
      obtain ⟨pre, hholds, rfl⟩ := h
      obtain ⟨hlt, hbuf⟩ := hholds.beyond hdiscard
      rw [hunread, lineResults_line hholds.one_line, classify, if_pos hlt]
      have hholds' := FrameReader.holds_nil (r := { r with reader, discarding := false }) hbuf rfl
      exact ⟨rfl, ⟨[], hholds', rfl⟩, hstalls, fun _ => hholds'⟩
  | case6 fut r n reader hn hkeep inbound hread =>
      obtain ⟨hstalls, hunread⟩ := BufReader.pollRead_spec hread
      rw [if_neg hn] at hunread
      obtain ⟨pre, hholds, rfl⟩ := h
      have hkeep : r.discarding = false := by simpa using hkeep
      obtain ⟨hle, hbuf⟩ := hholds.within hkeep
      rw [hunread, lineResults_line hholds.one_line, classify, if_neg (Nat.not_lt_of_le hle),
        ← hbuf]
      have hholds' := FrameReader.holds_nil (r := { r with reader, buf := [] }) rfl hkeep
      exact ⟨rfl, ⟨[], hholds', rfl⟩, hstalls, fun _ => hholds'⟩
  | case7 fut r n byte reader hread hn hbyte hdiscard ih =>
      obtain ⟨hstalls, hunread⟩ := BufReader.pollRead_spec hread
      rw [if_neg hn] at hunread
      obtain ⟨pre, hholds, rfl⟩ := h
      obtain ⟨hlt, hbuf⟩ := hholds.beyond hdiscard
      rw [← hstalls]
      refine ih (.snoc (r := r) (hholds.snoc hbyte rfl ?_ ?_) rfl hunread)
      · simpa [Nat.le_of_lt hlt] using hdiscard
      · simpa [Nat.le_of_lt hlt] using hbuf
  | case8 fut r n byte reader hread hn hbyte hkeep hfull ih =>
      obtain ⟨hstalls, hunread⟩ := BufReader.pollRead_spec hread
      rw [if_neg hn] at hunread
      obtain ⟨pre, hholds, rfl⟩ := h
      obtain ⟨hle, hbuf⟩ := hholds.within (by simpa using hkeep)
      rw [hbuf] at hfull
      rw [← hstalls]
      exact ih (.snoc (r := r) (hholds.snoc hbyte rfl (by simp [hfull]) (by simp [hfull])) rfl
        hunread)
  | case9 fut r n byte reader hread hn hbyte hkeep hroom ih =>
      obtain ⟨hstalls, hunread⟩ := BufReader.pollRead_spec hread
      rw [if_neg hn] at hunread
      obtain ⟨pre, hholds, rfl⟩ := h
      obtain ⟨hle, hbuf⟩ := hholds.within (by simpa using hkeep)
      rw [hbuf] at hroom
      rw [← hstalls]
      refine ih (.snoc (r := r) (hholds.snoc hbyte rfl ?_ ?_) rfl hunread)
      · simpa [hroom] using hkeep
      · simp [hroom, hbuf]

/-- **`into_inner` loses nothing** after an answer: a new reader over what it
returns goes on where this one stopped. -/
theorem reads_intoInner {fut fut' : NextFuture} {r' : FrameReader ε} {inbound : Inbound V}
    (h : r.Reads S todo)
    (hnext : FrameReader.next S fut r = (.ready (.ok (some inbound)), fut', r')) :
    (FrameReader.new r'.intoInner.asSource r'.maxFrame).Reads S todo.tail := by
  have hspec := next_spec fut h
  rw [hnext] at hspec
  obtain ⟨-, ⟨pre, hholds, htodo⟩, -, hempty⟩ := hspec
  have hkeep : r'.discarding = false := (hempty rfl).discarding.trans (by simp)
  have hpre : pre = [] := (hholds.within hkeep).2.symm.trans ((hempty rfl).within hkeep).2
  subst hpre
  refine ⟨[], FrameReader.holds_nil rfl rfl, ?_⟩
  rw [← htodo]
  exact congrArg (lineResults S r'.maxFrame) r'.reader.flatMap_asSource

/-! ## whole runs -/

/-- A new reader reads the results of the whole source. -/
theorem reads_new (source : List (Wake ε UInt8)) (maxFrame : Nat) :
    (FrameReader.new source maxFrame).Reads S
      (lineResults S maxFrame (source.flatMap Wake.data)) :=
  ⟨[], FrameReader.holds_nil rfl rfl, rfl⟩

/-- The answers of a reader are what it will answer, one after the other, and
then `Ok(None)`; all polls but the stalls of the source bring one. -/
theorem Session.oks_of_reads {s : Session ε} (h : s.reader.Reads S todo) (uses : List Use) :
    ∃ n, s.oks S uses = (List.range n).map (todo[·]?) ∧
      uses.count .poll ≤ n + s.reader.reader.stalls := by
  induction uses generalizing s todo with
  | nil => exact ⟨0, rfl, Nat.zero_le _⟩
  | cons use uses ih =>
      cases use with
      | drop =>
          obtain ⟨n, hoks, hcount⟩ := ih (s := { s with future := none }) h
          exact ⟨n, hoks, by simpa using hcount⟩
      | poll =>
          have hspec := next_spec (s.future.getD ⟨0⟩) h
          rw [List.count_cons_self]
          unfold oks results poll
          rcases hnext : FrameReader.next S (s.future.getD ⟨0⟩) s.reader with ⟨out, fut, r⟩
          rw [hnext] at hspec
          cases out with
          | pending =>
              obtain ⟨hreads, hstalls⟩ := hspec
              obtain ⟨n, hoks, hcount⟩ := ih (s := ⟨r, some fut⟩) hreads
              exact ⟨n, hoks, by dsimp only at hcount hstalls; omega⟩
          | ready out =>
              cases out with
              | error e =>
                  obtain ⟨hreads, hstalls⟩ := hspec
                  obtain ⟨n, hoks, hcount⟩ := ih (s := ⟨r, none⟩) hreads
                  exact ⟨n, hoks, by dsimp only at hcount hstalls; omega⟩
              | ok inbound =>
                  obtain ⟨rfl, hreads, hstalls, -⟩ := hspec
                  obtain ⟨n, hoks, hcount⟩ := ih (s := ⟨r, none⟩) hreads
                  refine ⟨n + 1, ?_, by dsimp only at hcount hstalls; omega⟩
                  rw [List.range_succ_eq_map, List.map_cons, List.map_map,
                    ← List.head?_eq_getElem?]
                  exact congrArg (todo.head? :: ·) (hoks.trans (List.map_congr_left fun i _ => by
                    simp [List.getElem?_tail]))

/-! ### frames that were written -/

/-- A run of writes is a first line and the run of the rest. -/
theorem writeFrames_cons {w wire : List UInt8} {frame : V} {frames : List V}
    (h : writeFrames S w (frame :: frames) = .ok wire) :
    ∃ line, S.toVec frame = .ok line ∧ writeFrames S (w ++ (line ++ [10])) frames = .ok wire := by
  cases hline : S.toVec frame with
  | error e =>
      rw [writeFrames, List.foldlM_cons, writeFrame, hline] at h
      contradiction
  | ok line =>
      rw [writeFrames, List.foldlM_cons, writeFrame, hline] at h
      exact ⟨line, rfl, h⟩

/-- What was written is read back, line by line. -/
theorem lineResults_writeFrames (hS : S.Faithful) {w wire : List UInt8} {frames : List V}
    (hwrite : writeFrames S w frames = .ok wire)
    (hfit : ∀ v ∈ frames, ∀ line, S.toVec v = .ok line → line.length ≤ maxFrame) :
    ∃ sent, wire = w ++ sent ∧ lineResults S maxFrame sent = frames.map .frame := by
  induction frames generalizing w with
  | nil => exact ⟨[], by simpa [writeFrames] using (Except.ok.inj hwrite).symm, rfl⟩
  | cons frame frames ih =>
      obtain ⟨line, hline, hrest⟩ := writeFrames_cons hwrite
      obtain ⟨sent, rfl, hsent⟩ := ih hrest fun v hv => hfit v (List.mem_cons_of_mem frame hv)
      have hle : line.length ≤ maxFrame := hfit frame List.mem_cons_self line hline
      refine ⟨line ++ 10 :: sent, by simp, ?_⟩
      rw [lineResults_line (hS.no_newline frame line hline), hsent, classify,
        if_neg (Nat.not_lt_of_le hle), hS.round_trip frame line hline]
      rfl

end

/-- **NDJSON framing is line splitting with a cap.**  However the bytes come in
and whichever calls are dropped, the `i`-th result of `next` is the `i`-th line
of the stream, and `Ok(None)` after the last; and frames that were written come
back as they were. -/
theorem framing_is_line_splitting {V ε : Type*} (S : Serde V) (maxFrame : Nat)
    (source : List (Wake ε UInt8)) (uses : List Use) :
    ∃ n, uses.count .poll ≤ n + source.countP Wake.stalls ∧
      (Session.new source maxFrame).oks S uses =
        (List.range n).map ((lineResults S maxFrame (source.flatMap Wake.data))[·]?) ∧
      (S.Faithful → ∀ frames, writeFrames S [] frames = .ok (source.flatMap Wake.data) →
        (∀ v ∈ frames, ∀ line, S.toVec v = .ok line → line.length ≤ maxFrame) →
          (Session.new source maxFrame).oks S uses =
            (List.range n).map ((frames.map Inbound.frame)[·]?)) := by
  obtain ⟨n, hoks, hcount⟩ :=
    Session.oks_of_reads (s := .new source maxFrame) (reads_new source maxFrame) uses
  refine ⟨n, hcount, hoks, fun hS frames hwrite hfit => ?_⟩
  obtain ⟨sent, hsent, hframes⟩ := lineResults_writeFrames hS hwrite hfit
  rw [hoks, hsent, List.nil_append, hframes]

namespace Digits

/-- Two values, each with an encoding of one byte. -/
def serde : Serde Bool where
  toVec v := .ok [if v then 49 else 48]
  fromSlice line :=
    if line = [49] then .ok true else if line = [48] then .ok false else .error "expected value"

theorem serde_faithful : serde.Faithful where
  no_newline := by
    rintro v line ⟨⟩
    cases v <;> decide
  round_trip := by
    rintro v line ⟨⟩
    cases v <;> rfl

/-- Two frames, cut inside the first, with a stall and an error on the way. -/
def source : List (Wake Unit UInt8) :=
  [.ready 49 [], .pending, .ready 10 [48], .failed (), .ready 10 []]

end Digits

theorem framing_is_line_splitting_example :
    ∃ n, 3 ≤ n ∧ (Session.new Digits.source 1).oks Digits.serde
        [.poll, .drop, .poll, .poll, .poll, .poll] =
      (List.range n).map (([true, false].map Inbound.frame)[·]?) := by
  obtain ⟨n, hcount, -, hframes⟩ := framing_is_line_splitting Digits.serde 1 Digits.source
    [.poll, .drop, .poll, .poll, .poll, .poll]
  have hstalls : Digits.source.countP Wake.stalls = 2 := rfl
  have hpolls : [Use.poll, .drop, .poll, .poll, .poll, .poll].count .poll = 5 := rfl
  refine ⟨n, by omega, hframes Digits.serde_faithful [true, false] rfl ?_⟩
  rintro v - line ⟨⟩
  exact Nat.le_refl 1

end Mcpmesh
