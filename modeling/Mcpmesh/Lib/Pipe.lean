import Mathlib.Data.List.Basic
import Mathlib.Data.PNat.Defs

/-!
# Mcpmesh.Lib.Pipe

A bounded byte stream between two parties, and a writer of whole messages that
several parties may share.

A `Pipe` is a queue with a capacity: a writer waits while it is full, and fails
when the reader is gone.  An `Outlet` writes messages onto a pipe, one at a time:
whoever starts a message holds it until its last symbol is in, or a write fails.
`Outlet.Lined` is what this leaves on the pipe: the encodings of whole messages
in the order in which they were begun, then at most the beginning of the next.
-/

namespace Mcpmesh.Lib

/-! ## pipes -/

/-- The writing end of a pipe: in use, ended, or torn off. -/
inductive WriteEnd where
  | live
  | closed
  | reset
  deriving DecidableEq

/-- A bounded queue with its two ends; `taken` is what was read from it. -/
structure Pipe (α : Type*) where
  capacity : ℕ+
  taken : List α
  buffered : List α
  bounded : buffered.length ≤ capacity
  writer : WriteEnd
  /-- The reader is there. -/
  attended : Bool

namespace Pipe

variable {α : Type*}

def empty (capacity : ℕ+) : Pipe α := ⟨capacity, [], [], Nat.zero_le _, .live, true⟩

/-- All that was written. -/
def written (p : Pipe α) : List α := p.taken ++ p.buffered

def Full (p : Pipe α) : Prop := p.buffered.length = p.capacity

instance (p : Pipe α) : Decidable p.Full :=
  inferInstanceAs (Decidable (p.buffered.length = p.capacity))

/-- Write a symbol: not while the pipe is full, nor past the end. -/
def put (p : Pipe α) (a : α) : Option (Pipe α) :=
  if h : p.writer = .live ∧ p.buffered.length < p.capacity then
    some { p with buffered := p.buffered ++ [a], bounded := by simp; omega }
  else none

/-- Read the next `n` symbols. -/
def take (p : Pipe α) (n : Nat) : Option (List α × Pipe α) :=
  if 0 < n ∧ n ≤ p.buffered.length then
    some (p.buffered.take n,
      { p with
        taken := p.taken ++ p.buffered.take n, buffered := p.buffered.drop n
        bounded := by simpa using Nat.le_add_right_of_le p.bounded })
  else none

/-- The writer ends the stream, or is torn off it. -/
def finish (p : Pipe α) (writer : WriteEnd) : Pipe α :=
  if p.writer = .live then { p with writer } else p

/-- The reader leaves. -/
def leave (p : Pipe α) : Pipe α := { p with attended := false }

variable {p p' : Pipe α} {a : α} {n : Nat} {bs : List α}

/-- What a step leaves of a pipe, as its writer and its reader see it. -/
structure Kept (p p' : Pipe α) : Prop where
  written : p'.written = p.written
  attended : p'.attended = true → p.attended = true
  capacity : p'.capacity = p.capacity

/-- What a step leaves of a pipe where nothing is read. -/
structure Fed (p p' : Pipe α) : Prop where
  taken : p'.taken = p.taken
  ended : p.writer ≠ .live → p'.writer = p.writer ∧ p'.written = p.written

theorem Kept.refl (p : Pipe α) : p.Kept p := ⟨rfl, id, rfl⟩

/-- A put adds one element to the buffer and changes nothing else. -/
theorem put_eq_some (h : p.put a = some p') :
    p'.taken = p.taken ∧ p'.buffered = p.buffered ++ [a] ∧ p'.writer = p.writer ∧
      p'.attended = p.attended ∧ p'.capacity = p.capacity := by
  unfold put at h
  split at h
  · obtain rfl := Option.some.inj h
    simp
  · contradiction

/-- There is room for a symbol. -/
theorem exists_put (hlive : p.writer = .live) (hroom : p.buffered.length < p.capacity) (a : α) :
    ∃ p', p.put a = some p' := by
  simp [put, hlive, hroom]

/-- A put writes its element behind the others. -/
theorem written_put (h : p.put a = some p') : p'.written = p.written ++ [a] := by
  obtain ⟨htaken, hbuffered, -⟩ := put_eq_some h
  rw [written, written, htaken, hbuffered, List.append_assoc]

/-- A put feeds the pipe. -/
theorem fed_put (h : p.put a = some p') : p.Fed p' := by
  refine ⟨(put_eq_some h).1, fun hended => ?_⟩
  unfold put at h
  simp [hended] at h

/-- A take moves elements from the buffer to the reader, and changes nothing else. -/
theorem take_eq_some (h : p.take n = some (bs, p')) :
    p'.taken = p.taken ++ bs ∧ p.buffered = bs ++ p'.buffered ∧ p'.writer = p.writer ∧
      p'.attended = p.attended ∧ p'.capacity = p.capacity ∧ bs.length = n ∧ 0 < n := by
  unfold take at h
  split at h
  · next hn =>
    obtain ⟨rfl, rfl⟩ := Prod.mk.inj (Option.some.inj h)
    simp [hn.1, hn.2]
  · contradiction

/-- A take keeps what was written. -/
theorem kept_take (h : p.take n = some (bs, p')) : p.Kept p' := by
  obtain ⟨htaken, hbuffered, -, hattended, hcapacity, -⟩ := take_eq_some h
  refine ⟨?_, fun h => hattended ▸ h, hcapacity⟩
  rw [written, written, htaken, hbuffered, List.append_assoc]

/-- An end of the writer keeps what was written and taken. -/
theorem kept_finish (p : Pipe α) (writer : WriteEnd) : p.Kept (p.finish writer) := by
  unfold finish
  split
  · exact ⟨rfl, id, rfl⟩
  · exact Kept.refl p

/-- A close closes, unless the writer was reset. -/
theorem writer_finish_closed (h : p.writer ≠ .reset) : (p.finish .closed).writer = .closed := by
  unfold finish
  split
  · rfl
  · next hlive =>
    cases hwriter : p.writer with
    | live => exact absurd hwriter hlive
    | closed => rfl
    | reset => exact absurd hwriter h

/-- An end of the writer feeds the pipe with nothing. -/
theorem fed_finish (p : Pipe α) (writer : WriteEnd) : p.Fed (p.finish writer) := by
  unfold finish
  split
  · next hlive => exact ⟨rfl, fun hended => absurd hlive hended⟩
  · exact ⟨rfl, fun _ => ⟨rfl, rfl⟩⟩

theorem attended_finish (p : Pipe α) (writer : WriteEnd) :
    (p.finish writer).attended = p.attended := by
  unfold finish
  split <;> rfl

/-- A reader that leaves writes nothing. -/
theorem fed_leave (p : Pipe α) : p.Fed p.leave := ⟨rfl, fun _ => ⟨rfl, rfl⟩⟩

/-- A reader that leaves keeps what was written. -/
theorem kept_leave (p : Pipe α) : p.Kept p.leave := ⟨rfl, fun h => by simp [leave] at h, rfl⟩

end Pipe

/-! ## whole messages -/

/-- What a poll of a write came to. -/
inductive Wrote where
  | more
  | all
  | failed
  deriving DecidableEq

/-- A writer of messages: what is left of the message under way, whose holder has
the writer to itself.  `begun`, `sent` and `failed` are ghosts: the messages that
were begun, those of them that were written, and whether a write failed. -/
structure Outlet (μ α : Type*) where
  pipe : Pipe α
  current : Option (List α)
  begun : List μ
  sent : List μ
  failed : Bool

namespace Outlet

variable {μ α : Type*} (encode : μ → List α)

def new (capacity : ℕ+) : Outlet μ α := ⟨.empty capacity, none, [], [], false⟩

/-- Start a message. -/
def start (o : Outlet μ α) (m : μ) : Outlet μ α :=
  { o with current := some (encode m), begun := o.begun ++ [m] }

/-- Begin a message when no other is under way. -/
def lock (o : Outlet μ α) (m : μ) : Option (Outlet μ α) :=
  if o.current.isNone then some (o.start encode m) else none

/-- The write of the message under way goes on by a symbol. -/
def poll (o : Outlet μ α) : Option (Wrote × Outlet μ α) :=
  match o.current with
  | none => none
  | some rest =>
      if o.pipe.attended then
        match rest with
        | [] => some (.all, { o with current := none, sent := o.begun })
        | a :: rest => (o.pipe.put a).map fun pipe => (.more, { o with pipe, current := some rest })
      else some (.failed, { o with current := none, failed := true })

/-- What is on the pipe. -/
structure Lined (o : Outlet μ α) : Prop where
  unattended : o.failed = true → o.pipe.attended = false
  sent_prefix : o.sent <+: o.begun
  lines : ∃ part, o.pipe.written = o.sent.flatMap encode ++ part ∧
    (part = [] ∨ ∃ m, o.sent ++ [m] <+: o.begun ∧ part <+: encode m) ∧
    (o.failed = false →
      match o.current with
      | some rest => ∃ m, o.begun = o.sent ++ [m] ∧ encode m = part ++ rest
      | none => part = [] ∧ o.begun = o.sent)

variable {encode} {o o' : Outlet μ α} {m : μ} {wrote : Wrote}

/-- A new outlet has written whole lines, none. -/
theorem lined_new (capacity : ℕ+) : Lined encode (new capacity) := by
  refine ⟨by simp [new], by simp [new], [], ?_⟩
  simp [new, Pipe.empty, Pipe.written]

/-- What the other side, or its own, does to the pipe. -/
theorem Lined.kept {pipe : Pipe α} (h : o.Lined encode) (hkept : o.pipe.Kept pipe) :
    Lined encode { o with pipe } := by
  refine ⟨fun hfailed => ?_, h.sent_prefix, ?_⟩
  · by_contra hattended
    have hbefore := hkept.attended (by simpa using hattended)
    simp [h.unattended hfailed] at hbefore
  · obtain ⟨part, hwritten, hrest⟩ := h.lines
    exact ⟨part, hkept.written.trans hwritten, hrest⟩

/-- A message that starts is the next line. -/
theorem Lined.start (h : o.Lined encode) (hfree : o.current = none) (m : μ) :
    (o.start encode m).Lined encode := by
  obtain ⟨part, hwritten, hpart, hstrong⟩ := h.lines
  refine ⟨h.unattended, h.sent_prefix.trans (List.prefix_append _ _), part, hwritten, ?_, ?_⟩
  · refine hpart.imp_right ?_
    rintro ⟨m', hm', hpre⟩
    exact ⟨m', hm'.trans (List.prefix_append _ _), hpre⟩
  · intro hfailed
    obtain ⟨rfl, hbegun⟩ : part = [] ∧ o.begun = o.sent := by
      simpa [hfree] using hstrong hfailed
    exact ⟨m, by simp [Outlet.start, hbegun], rfl⟩

/-- The outlet is locked by one message at a time. -/
theorem lock_eq_some : o.lock encode m = some o' ↔ o.current = none ∧ o' = o.start encode m := by
  unfold lock
  cases o.current <;> simp [eq_comm]

/-- What a poll does: it puts in a symbol, or ends the message, or fails because
the reader is gone. -/
inductive Polled (o : Outlet μ α) : Wrote → Outlet μ α → Prop where
  | more {a : α} {rest : List α} {pipe : Pipe α} (hcurrent : o.current = some (a :: rest))
      (hattended : o.pipe.attended = true) (hput : o.pipe.put a = some pipe) :
      Polled o .more { o with pipe, current := some rest }
  | all (hcurrent : o.current = some []) (hattended : o.pipe.attended = true) :
      Polled o .all { o with current := none, sent := o.begun }
  | failed {rest : List α} (hcurrent : o.current = some rest)
      (hattended : o.pipe.attended = false) :
      Polled o .failed { o with current := none, failed := true }

/-- A poll does what is said of it. -/
theorem polled_of_poll (h : o.poll = some (wrote, o')) : o.Polled wrote o' := by
  unfold poll at h
  split at h
  · contradiction
  · next rest hcurrent =>
    split at h
    · next hattended =>
      split at h
      · obtain ⟨rfl, rfl⟩ := Prod.mk.inj (Option.some.inj h)
        exact .all hcurrent hattended
      · obtain ⟨pipe, hput, heq⟩ := Option.map_eq_some_iff.mp h
        obtain ⟨rfl, rfl⟩ := Prod.mk.inj heq
        exact .more hcurrent hattended hput
    · next hattended =>
      obtain ⟨rfl, rfl⟩ := Prod.mk.inj (Option.some.inj h)
      exact .failed hcurrent (by simpa using hattended)

/-- A write that goes on has less to write. -/
theorem current_of_more {rest : List α} (h : o.poll = some (.more, o'))
    (hcurrent : o.current = some rest) :
    ∃ a, ∃ rest', rest = a :: rest' ∧ o'.current = some rest' := by
  cases polled_of_poll h with
  | @more a rest' pipe hcurrent' hattended hput =>
      exact ⟨a, rest', Option.some.inj (hcurrent.symm.trans hcurrent'), rfl⟩

/-- What a poll leaves of a writer. -/
theorem poll_spec (h : o.poll = some (wrote, o')) :
    o'.begun = o.begun ∧ o'.pipe.writer = o.pipe.writer ∧
      o'.pipe.capacity = o.pipe.capacity ∧ o.current.isSome = true ∧
      o'.current.isSome = decide (wrote = .more) ∧
      o'.failed = (o.failed || decide (wrote = .failed)) := by
  cases polled_of_poll h with
  | more hcurrent hattended hput =>
      obtain ⟨-, -, hwriter, -, hcapacity⟩ := Pipe.put_eq_some hput
      exact ⟨rfl, hwriter, hcapacity, by simp [hcurrent], rfl, by simp⟩
  | all hcurrent hattended => exact ⟨rfl, rfl, rfl, by simp [hcurrent], rfl, by simp⟩
  | failed hcurrent hattended => exact ⟨rfl, rfl, rfl, by simp [hcurrent], rfl, by simp⟩

/-- A write that cannot go on waits for its reader to make room. -/
theorem full_of_poll (h : o.poll = none) (hlive : o.pipe.writer = .live)
    (hcurrent : o.current.isSome = true) : o.pipe.Full ∧ o.pipe.attended = true := by
  have hbounded := o.pipe.bounded
  obtain ⟨rest, hrest⟩ := Option.isSome_iff_exists.mp hcurrent
  unfold Outlet.poll at h
  rw [hrest] at h
  dsimp only at h
  split at h
  · next hattended =>
    refine ⟨?_, hattended⟩
    cases rest with
    | nil => contradiction
    | cons a rest =>
        simp only [Pipe.put, hlive, true_and, Option.map_eq_none_iff, dite_eq_right_iff,
          reduceCtorEq, imp_false] at h
        rw [Pipe.Full]
        omega
  · contradiction

/-- A poll writes on the line that was begun, or ends it. -/
theorem Lined.poll (h : o.Lined encode) (hpoll : o.poll = some (wrote, o')) :
    o'.Lined encode := by
  obtain ⟨part, hwritten, hpart, hstrong⟩ := h.lines
  cases polled_of_poll hpoll with
  | @more a rest pipe hcurrent hattended hput =>
      have hfailed : o.failed = false := by
        by_contra hfailed
        simp [h.unattended (by simpa using hfailed)] at hattended
      obtain ⟨m, hbegun, hencode⟩ :
          ∃ m, o.begun = o.sent ++ [m] ∧ encode m = part ++ a :: rest := by
        simpa [hcurrent] using hstrong hfailed
      have hencode' : encode m = part ++ [a] ++ rest := by simp [hencode]
      refine ⟨fun hf => by simp [hfailed] at hf, h.sent_prefix, part ++ [a], ?_, ?_, ?_⟩
      · rw [Pipe.written_put hput, hwritten, List.append_assoc]
      · exact .inr ⟨m, hbegun ▸ List.prefix_rfl, hencode' ▸ List.prefix_append _ _⟩
      · exact fun _ => ⟨m, hbegun, hencode'⟩
  | all hcurrent hattended =>
      have hfailed : o.failed = false := by
        by_contra hfailed
        simp [h.unattended (by simpa using hfailed)] at hattended
      obtain ⟨m, hbegun, hencode⟩ : ∃ m, o.begun = o.sent ++ [m] ∧ encode m = part := by
        simpa [hcurrent] using hstrong hfailed
      refine ⟨h.unattended, List.prefix_rfl, [], ?_, .inl rfl, fun _ => ⟨rfl, rfl⟩⟩
      simp [hwritten, hbegun, hencode]
  | failed hcurrent hattended =>
      exact ⟨fun _ => hattended, h.sent_prefix, part, hwritten, hpart, fun hf => by simp at hf⟩

/-- Where no write failed and none is under way, all that was begun was sent. -/
theorem Lined.all_sent (h : o.Lined encode) (hfailed : o.failed = false)
    (hfree : o.current = none) :
    o.begun = o.sent ∧ o.pipe.written = o.sent.flatMap encode := by
  obtain ⟨part, hwritten, -, hstrong⟩ := h.lines
  obtain ⟨rfl, hbegun⟩ : part = [] ∧ o.begun = o.sent := by simpa [hfree] using hstrong hfailed
  exact ⟨hbegun, by simpa using hwritten⟩

/-- Where no write failed, at most the message under way is still to be sent. -/
theorem Lined.begun_of_current (h : o.Lined encode) (hfailed : o.failed = false)
    {rest : List α} (hcurrent : o.current = some rest) : ∃ m, o.begun = o.sent ++ [m] := by
  obtain ⟨part, -, -, hstrong⟩ := h.lines
  obtain ⟨m, hbegun, -⟩ : ∃ m, o.begun = o.sent ++ [m] ∧ encode m = part ++ rest := by
    simpa [hcurrent] using hstrong hfailed
  exact ⟨m, hbegun⟩

end Outlet

end Mcpmesh.Lib
