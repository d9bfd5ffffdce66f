import Mathlib.Data.List.Basic

/-!
# Mcpmesh.Lib.AsyncRead

A polled byte source and the buffered reader over it.

A source is the list of answers its polls will give: nothing yet, an error, or
a chunk.  After the last answer it is at its end for good.  A reader that asks
for one symbol at a time sees `unread`, whatever the chunks are; every poll that
brings neither a symbol nor the end uses up one of the source's `stalls`.
-/

namespace Mcpmesh.Lib

/-- An answer of a polled source before its end; a chunk is not empty. -/
inductive Wake (ε α : Type*) where
  | pending
  | failed (e : ε)
  | ready (b : α) (bs : List α)

/-- What the poll of a future answers. -/
inductive Poll (τ : Type*) where
  | pending
  | ready (out : τ)

/-- A source with what was read ahead of it. -/
structure BufReader (ε α : Type*) where
  buffered : List α
  source : List (Wake ε α)

section

variable {ε α : Type*}

def Wake.data : Wake ε α → List α
  | .ready b bs => b :: bs
  | _ => []

def Wake.stalls : Wake ε α → Bool
  | .ready _ _ => false
  | _ => true

namespace BufReader

def new (source : List (Wake ε α)) : BufReader ε α := ⟨[], source⟩

/-- Poll `read` on a buffer of one symbol: the number of symbols read, which is
0 at the end, and the buffer. -/
def pollRead (r : BufReader ε α) (byte : α) : Poll (Except ε Nat) × α × BufReader ε α :=
  match r.buffered, r.source with
  | b :: buffered, source => (.ready (.ok 1), b, ⟨buffered, source⟩)
  | [], .ready b buffered :: source => (.ready (.ok 1), b, ⟨buffered, source⟩)
  | [], .failed e :: source => (.ready (.error e), byte, ⟨[], source⟩)
  | [], .pending :: source => (.pending, byte, ⟨[], source⟩)
  | [], [] => (.ready (.ok 0), byte, r)

/-- The reader as the source of another: what was read ahead comes first. -/
def asSource (r : BufReader ε α) : List (Wake ε α) :=
  match r.buffered with
  | [] => r.source
  | b :: bs => .ready b bs :: r.source

/-- What is still to be read. -/
def unread (r : BufReader ε α) : List α := r.buffered ++ r.source.flatMap Wake.data

/-- How many polls will bring nothing. -/
def stalls (r : BufReader ε α) : Nat := r.source.countP Wake.stalls

variable {r : BufReader ε α}

/-- The bytes of a reader as a source are its unread ones. -/
theorem flatMap_asSource : r.asSource.flatMap Wake.data = r.unread := by
  unfold asSource unread
  split
  · next h => rw [h, List.nil_append]
  · next b bs h => rw [h, List.flatMap_cons, Wake.data]

/-- **The spec of a read**: it takes the first unread symbol, or finds the end,
or uses up a stall. -/
def ReadSpec (r : BufReader ε α) : Poll (Except ε Nat) → α → BufReader ε α → Prop
  | .ready (.ok n), byte, rest =>
      rest.stalls = r.stalls ∧
        if n = 0 then r.unread = [] ∧ rest.unread = [] else r.unread = byte :: rest.unread
  | _, _, rest => rest.unread = r.unread ∧ r.stalls = rest.stalls + 1

theorem pollRead_spec {byte byte' : α} {out : Poll (Except ε Nat)} {rest : BufReader ε α}
    (h : r.pollRead byte = (out, byte', rest)) : r.ReadSpec out byte' rest := by
  obtain ⟨buffered, source⟩ := r
  cases buffered with
  | cons b buffered =>
      obtain ⟨rfl, rfl, rfl⟩ := by simpa [pollRead] using h
      exact ⟨rfl, rfl⟩
  | nil =>
      cases source with
      | nil =>
          obtain ⟨rfl, rfl, rfl⟩ := by simpa [pollRead] using h
          exact ⟨rfl, rfl, rfl⟩
      | cons wake source =>
          cases wake with
          | pending =>
              obtain ⟨rfl, rfl, rfl⟩ := by simpa [pollRead] using h
              exact ⟨rfl, List.countP_cons_of_pos rfl⟩
          | failed e =>
              obtain ⟨rfl, rfl, rfl⟩ := by simpa [pollRead] using h
              exact ⟨rfl, List.countP_cons_of_pos rfl⟩
          | ready b buffered =>
              obtain ⟨rfl, rfl, rfl⟩ := by simpa [pollRead] using h
              exact ⟨(List.countP_cons_of_neg (by simp [Wake.stalls])).symm, rfl⟩

/-- A loop of reads ends. -/
theorem unread_lt_of_pollRead {byte byte' : α} {n : Nat} {rest : BufReader ε α}
    (h : r.pollRead byte = (.ready (.ok n), byte', rest)) (hn : n ≠ 0) :
    rest.unread.length < r.unread.length := by
  have hspec := (pollRead_spec h).2
  rw [if_neg hn] at hspec
  rw [hspec, List.length_cons]
  exact Nat.lt_succ_self _

end BufReader

end

end Mcpmesh.Lib
