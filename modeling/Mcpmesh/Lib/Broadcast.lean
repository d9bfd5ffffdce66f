import Mathlib.Algebra.BigOperators.Group.List.Basic
import Mathlib.Algebra.GroupWithZero.Nat

/-!
# Mcpmesh.Lib.Broadcast

A broadcast channel that holds its last values only, as `tokio::sync::broadcast`
is documented: a receiver joins where the next value will stand; one that lags
behind what is held gets `Lagged` with the number of values it missed and goes
on at the oldest that is held; and once the last sender is gone it gets what is
left, then `Closed`.  So what a receiver is told, `Told`, accounts for all that
was sent from where it joined (`Accounts`).
-/

namespace Mcpmesh.Lib

/-- A channel, with all that it ever carried. -/
structure Broadcast (α : Type*) where
  capacity : Nat
  sent : List α
  closed : Bool

/-- What a receiver is told. -/
inductive Told (α : Type*) where
  | value (a : α)
  | lagged (missed : Nat)
  deriving DecidableEq

inductive Recv (α : Type*) where
  | told (t : Told α)
  | closed
  | pending

namespace Broadcast

variable {α : Type*} (b : Broadcast α)

def send (a : α) : Broadcast α := { b with sent := b.sent ++ [a] }

def close : Broadcast α := { b with closed := true }

/-- The place of the oldest value that is held. -/
def oldest : Nat := b.sent.length - b.capacity

/-- Receive at a place; with the place after it. -/
def recv (place : Nat) : Recv α × Nat :=
  if place < b.oldest then (.told (.lagged (b.oldest - place)), b.oldest)
  else
    match b.sent[place]? with
    | some a => (.told (.value a), place + 1)
    | none => (if b.closed then .closed else .pending, place)

/-- What was sent between two places. -/
def between (start place : Nat) : List α := (b.sent.take place).drop start

end Broadcast

/-- What a receiver was told accounts for a stretch of the channel: every value
is told in its turn or counted as missed there. -/
inductive Accounts {α : Type*} : List α → List (Told α) → Prop where
  | nil : Accounts [] []
  | value {sent : List α} {told : List (Told α)} (a : α) : Accounts sent told →
      Accounts (sent ++ [a]) (told ++ [.value a])
  | lagged {sent : List α} {told : List (Told α)} (missed : List α) : Accounts sent told →
      Accounts (sent ++ missed) (told ++ [.lagged missed.length])

namespace Told

variable {α : Type*}

def value? : Told α → Option α
  | .value a => some a
  | .lagged _ => none

def missed : Told α → Nat
  | .value _ => 0
  | .lagged n => n

end Told

/-! ## accounts -/

section Accounts

variable {α : Type*} {sent : List α} {told : List (Told α)}

/-- The values are told in order, none twice and none made up. -/
theorem Accounts.values_sublist (h : Accounts sent told) :
    (told.filterMap Told.value?).Sublist sent := by
  induction h with
  | nil => exact List.Sublist.refl []
  | value a _ ih =>
      rw [List.filterMap_append]
      exact ih.append (List.Sublist.refl [a])
  | lagged missed _ ih =>
      rw [List.filterMap_append]
      exact ih.append (List.nil_sublist missed)

/-- What was not told was counted. -/
theorem Accounts.length (h : Accounts sent told) :
    (told.filterMap Told.value?).length + (told.map Told.missed).sum = sent.length := by
  induction h with
  | nil => rfl
  | value a _ ih =>
      rw [List.filterMap_append, List.map_append, List.sum_append, List.length_append,
        List.length_append, ← ih]
      simp only [List.filterMap, Told.value?, List.length_singleton, List.map_cons, List.map_nil,
        List.sum_singleton, Told.missed]
      omega
  | lagged missed _ ih =>
      rw [List.filterMap_append, List.map_append, List.sum_append, List.length_append,
        List.length_append, ← ih]
      simp only [List.filterMap, Told.value?, List.length_nil, List.map_cons, List.map_nil,
        List.sum_singleton, Told.missed]
      omega

/-- A receiver that nothing was counted against has been told everything. -/
theorem Accounts.eq_of_prompt (h : Accounts sent told) (hprompt : ∀ t ∈ told, t.missed = 0) :
    told.filterMap Told.value? = sent := by
  have hnone : (told.map Told.missed).sum = 0 := List.sum_eq_zero fun n hn => by
    obtain ⟨t, ht, rfl⟩ := List.mem_map.mp hn
    exact hprompt t ht
  have hlength := h.length
  rw [hnone, Nat.add_zero] at hlength
  exact h.values_sublist.eq_of_length hlength

end Accounts

/-! ## receiving -/

namespace Broadcast

variable {α : Type*} {b : Broadcast α} {start place place' : Nat} {told : List (Told α)}
  {t : Told α}

@[simp] theorem between_self (place : Nat) : b.between place place = [] := by
  rw [between, List.drop_eq_nil_iff, List.length_take]
  exact Nat.min_le_left _ _

/-- What was sent before is not changed by what is sent. -/
theorem between_send (a : α) (h : place ≤ b.sent.length) :
    (b.send a).between start place = b.between start place := by
  rw [between, send, List.take_append_of_le_length h, between]

/-- A stretch, and what follows it. -/
theorem between_append (hstart : start ≤ place) (hplace : place ≤ place')
    (hlength : place ≤ b.sent.length) :
    b.between start place' = b.between start place ++ b.between place place' := by
  have hsplit : b.sent.take place' = b.sent.take place ++ (b.sent.take place').drop place := by
    have htake := List.take_append_drop place (b.sent.take place')
    rw [List.take_take, Nat.min_eq_left hplace] at htake
    exact htake.symm
  rw [between, hsplit, List.drop_append_of_le_length (by rw [List.length_take]; omega)]
  rfl

/-- The receiver has been told what there was up to its place. -/
structure Follows (b : Broadcast α) (start place : Nat) (told : List (Told α)) : Prop where
  joined : start ≤ place
  sent : place ≤ b.sent.length
  accounts : Accounts (b.between start place) told

theorem follows_join (b : Broadcast α) : b.Follows b.sent.length b.sent.length [] where
  joined := Nat.le_refl _
  sent := Nat.le_refl _
  accounts := by
    rw [between_self]
    exact .nil

theorem Follows.send (h : b.Follows start place told) (a : α) :
    (b.send a).Follows start place told where
  joined := h.joined
  sent := by
    have hlength : (b.send a).sent.length = b.sent.length + 1 := List.length_append
    exact hlength ▸ Nat.le_succ_of_le h.sent
  accounts := by
    rw [between_send a h.sent]
    exact h.accounts

theorem Follows.close (h : b.Follows start place told) : b.close.Follows start place told :=
  ⟨h.joined, h.sent, h.accounts⟩

/-- What is received is accounted for. -/
theorem Follows.recv (h : b.Follows start place told)
    (hrecv : b.recv place = (.told t, place')) : b.Follows start place' (told ++ [t]) := by
  rw [Broadcast.recv] at hrecv
  split at hrecv
  · next hlag =>
    obtain ⟨ht, rfl⟩ := Prod.mk.inj hrecv
    obtain rfl := Recv.told.inj ht
    have holdest : b.oldest ≤ b.sent.length := Nat.sub_le _ _
    have hmissed : (b.between place b.oldest).length = b.oldest - place := by
      rw [between, List.length_drop, List.length_take, Nat.min_eq_left holdest]
    refine ⟨Nat.le_trans h.joined (Nat.le_of_lt hlag), holdest, ?_⟩
    rw [between_append h.joined (Nat.le_of_lt hlag) h.sent, ← hmissed]
    exact .lagged _ h.accounts
  · split at hrecv
    · next a ha =>
      obtain ⟨ht, rfl⟩ := Prod.mk.inj hrecv
      obtain rfl := Recv.told.inj ht
      have hlt := (List.getElem?_eq_some_iff.mp ha).1
      have hone : b.between place (place + 1) = [a] := by
        rw [between, List.take_add_one, ha, List.drop_append_of_le_length
          (by rw [List.length_take]; omega), List.drop_eq_nil_iff.mpr
          (by rw [List.length_take]; omega)]
        rfl
      refine ⟨Nat.le_succ_of_le h.joined, hlt, ?_⟩
      rw [between_append h.joined (Nat.le_succ _) h.sent, hone]
      exact .value a h.accounts
    · have hnone := (Prod.mk.inj hrecv).1
      split at hnone <;> contradiction

/-- The end of a channel comes after all that it carried. -/
theorem Follows.closed (h : b.Follows start place told)
    (hrecv : b.recv place = (.closed, place')) :
    b.closed = true ∧ Accounts (b.sent.drop start) told := by
  rw [Broadcast.recv] at hrecv
  split at hrecv
  · exact absurd (Prod.mk.inj hrecv).1 nofun
  · split at hrecv
    · exact absurd (Prod.mk.inj hrecv).1 nofun
    · next hnone =>
      have hend := (Prod.mk.inj hrecv).1
      split at hend
      · next hclosed =>
        have hplace := List.getElem?_eq_none_iff.mp hnone
        have hall := h.accounts
        rw [between, List.take_of_length_le hplace] at hall
        exact ⟨hclosed, hall⟩
      · contradiction

end Broadcast

end Mcpmesh.Lib
