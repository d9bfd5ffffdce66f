import Mcpmesh.Lib.AssocMap
import Mathlib.Data.List.Count
import Mathlib.Order.Basic
import Mathlib.Tactic.Common

/-!
# Mcpmesh.Blobs.FetchSlots

The slots of the fetches that can be cancelled: `MeshState::fetches` with its
tokens (`node/src/cancel.rs`) under `FetchGuard` (`node/src/daemon/handlers.rs`).

A slot counts the guards of its hash that are in the map, and holds the token
that the last of them watches; one that watches another watches a cancelled one
(`Watched`).
-/

namespace Mcpmesh

open Lib

/-! ## tokens and slots -/

/-- `FetchSlot`; a token is the number of its semaphore. -/
structure FetchSlot where
  token : Nat
  waiters : Nat
  deriving DecidableEq

abbrev FetchSlots := AList fun _ : String => FetchSlot

/-- `MeshState::fetches`, the tokens made and those that are cancelled. -/
structure FetchTable where
  slots : FetchSlots
  fresh : Nat
  cancelled : List Nat

namespace FetchTable

/-- `CancelToken::new` -/
def newToken (t : FetchTable) : Nat × FetchTable := (t.fresh, { t with fresh := t.fresh + 1 })

/-- `FetchGuard::register`, under the lock: the token to watch. -/
def register (t : FetchTable) (hash : String) : Nat × FetchTable :=
  let (slot, t) : FetchSlot × FetchTable := match t.slots.lookup hash with
    | some slot => (slot, t)
    | none => (⟨t.newToken.1, 0⟩, t.newToken.2)
  -- a cancelled token is not inherited: the retry gets one of its own
  let (token, t) := if slot.token ∈ t.cancelled then t.newToken else (slot.token, t)
  (token, { t with slots := t.slots.insert hash ⟨token, slot.waiters + 1⟩ })

/-- The guard's drop, under the lock: the last one removes the slot. -/
def deregister (t : FetchTable) (hash : String) : FetchTable :=
  match t.slots.lookup hash with
  | none => t
  | some slot =>
      let waiters := slot.waiters - 1
      if waiters = 0 then { t with slots := t.slots.erase hash }
      else { t with slots := t.slots.insert hash ⟨slot.token, waiters⟩ }

/-- `CancelToken::cancel` -/
def cancel (t : FetchTable) (token : Nat) : FetchTable :=
  { t with cancelled := token :: t.cancelled }

/-! ## the books -/

/-- The table keeps the books of its watchers, each a hash and a token. -/
structure Watched (t : FetchTable) (watchers : List (String × Nat)) : Prop where
  made : ∀ token ∈ t.cancelled, token < t.fresh
  slots : ∀ hash slot, t.slots.lookup hash = some slot → slot.token < t.fresh ∧
    0 < slot.waiters
  count : ∀ hash, ((t.slots.lookup hash).elim 0 (·.waiters)) = watchers.countP (·.1 = hash)
  watches : ∀ w ∈ watchers,
    (∃ slot, t.slots.lookup w.1 = some slot ∧ slot.token = w.2) ∨ w.2 ∈ t.cancelled

variable {t : FetchTable} {watchers watchers' : List (String × Nat)} {hash : String} {token : Nat}

/-- Nobody watches an empty table. -/
theorem watched_empty : (⟨∅, 0, []⟩ : FetchTable).Watched [] where
  made := nofun
  slots := fun _ _ h => by simp at h
  count := fun _ => by simp
  watches := nofun

/-- The order of the watchers is of no account. -/
theorem Watched.perm (h : t.Watched watchers) (hperm : watchers.Perm watchers') :
    t.Watched watchers' where
  made := h.made
  slots := h.slots
  count := fun hash => (h.count hash).trans (hperm.countP_eq _)
  watches := fun w hw => h.watches w (hperm.mem_iff.mpr hw)

/-- Whoever watches a fetch has a slot with its token. -/
theorem Watched.slot_of_watcher (h : t.Watched watchers) {w : String × Nat} (hw : w ∈ watchers) :
    ∃ slot, t.slots.lookup w.1 = some slot := by
  have hpos : 0 < watchers.countP (·.1 = w.1) := List.countP_pos_iff.mpr ⟨w, hw, by simp⟩
  rw [← h.count] at hpos
  cases hslot : t.slots.lookup w.1 with
  | none => rw [hslot] at hpos; contradiction
  | some slot => exact ⟨slot, rfl⟩

/-- The token that a registration watches is not cancelled: the slot's, or a new
one where that is. -/
theorem Watched.register_cases (h : t.Watched watchers) (hash : String) :
    ∃ token fresh, t.register hash =
        (token, { t with
          slots := t.slots.insert hash ⟨token, watchers.countP (·.1 = hash) + 1⟩
          fresh := fresh }) ∧
      token ∉ t.cancelled ∧ token < fresh ∧ t.fresh ≤ fresh ∧
      ∀ slot, t.slots.lookup hash = some slot → slot.token = token ∨ slot.token ∈ t.cancelled := by
  have hnew : t.fresh ∉ t.cancelled := fun hmem => (h.made t.fresh hmem).false
  have hcount := h.count hash
  rw [FetchTable.register]
  cases hslot : t.slots.lookup hash with
  | none =>
      rw [hslot, Option.elim_none] at hcount
      refine ⟨t.fresh, t.fresh + 1, ?_, hnew, Nat.lt_succ_self _, Nat.le_succ _, nofun⟩
      have hfirst : (⟨t.newToken.1, 0⟩ : FetchSlot).token ∉ t.newToken.2.cancelled := hnew
      simp only [if_neg hfirst, ← hcount]
      rfl
  | some slot =>
      rw [hslot, Option.elim_some] at hcount
      by_cases hcancelled : slot.token ∈ t.cancelled
      · refine ⟨t.fresh, t.fresh + 1, ?_, hnew, Nat.lt_succ_self _, Nat.le_succ _, ?_⟩
        · simp only [newToken, if_pos hcancelled, ← hcount]
        · rintro slot' hslot'
          exact .inr (Option.some.inj hslot' ▸ hcancelled)
      · refine ⟨slot.token, t.fresh, ?_, hcancelled, (h.slots hash slot hslot).1, le_rfl, ?_⟩
        · simp only [if_neg hcancelled, ← hcount]
        · rintro slot' hslot'
          exact .inl (Option.some.inj hslot' ▸ rfl)

/-- A fetch that registers becomes a watcher, of the slot that is there or of a new one.
-/
theorem Watched.register (h : t.Watched watchers) (hash : String) :
    (t.register hash).2.Watched ((hash, (t.register hash).1) :: watchers) := by
  obtain ⟨token, fresh, hregister, -, htoken, hfresh, hold⟩ := h.register_cases hash
  rw [hregister]
  constructor
  · exact fun token' htoken' => (h.made token' htoken').trans_le hfresh
  · intro hash' slot hslot
    rw [lookup_alist_insert] at hslot
    split at hslot
    · obtain rfl := Option.some.inj hslot
      exact ⟨htoken, Nat.succ_pos _⟩
    · obtain ⟨hlt, hpos⟩ := h.slots hash' slot hslot
      exact ⟨hlt.trans_le hfresh, hpos⟩
  · intro hash'
    rw [lookup_alist_insert, List.countP_cons]
    split
    · next heq => simp [heq]
    · next hne => simp [h.count hash', Ne.symm hne]
  · intro w hw
    rw [lookup_alist_insert]
    rcases List.mem_cons.mp hw with rfl | hw
    · exact .inl ⟨_, if_pos rfl, rfl⟩
    · split
      · next heq =>
        rcases h.watches w hw with ⟨slot, hslot, hsame⟩ | hcancelled
        · rw [heq] at hslot
          rcases hold slot hslot with heq' | hcancelled
          · exact .inl ⟨_, rfl, heq'.symm.trans hsame⟩
          · exact .inr (hsame ▸ hcancelled)
        · exact .inr hcancelled
      · exact h.watches w hw

/-- A fetch that leaves takes the slot along if it was the last of its hash. -/
theorem Watched.deregister (h : t.Watched ((hash, token) :: watchers)) :
    (t.deregister hash).Watched watchers := by
  obtain ⟨slot, hslot⟩ := h.slot_of_watcher List.mem_cons_self
  have hcount := h.count hash
  rw [hslot, Option.elim_some, List.countP_cons_of_pos (by simp)] at hcount
  have hleft : t.deregister hash = if watchers.countP (·.1 = hash) = 0 then
      { t with slots := t.slots.erase hash }
    else { t with slots := t.slots.insert hash ⟨slot.token, watchers.countP (·.1 = hash)⟩ } := by
    simp only [FetchTable.deregister, hslot, hcount, Nat.add_sub_cancel]
  rw [hleft]
  have hothers : ∀ hash', hash' ≠ hash →
      ((t.slots.lookup hash').elim 0 (·.waiters)) = watchers.countP (·.1 = hash') := by
    intro hash' hne
    rw [h.count, List.countP_cons_of_neg (by simpa using Ne.symm hne)]
  split
  · next hzero =>
    constructor
    · exact h.made
    · intro hash' slot' hslot'
      rw [lookup_alist_erase] at hslot'
      split at hslot'
      · contradiction
      · exact h.slots hash' slot' hslot'
    · intro hash'
      rw [lookup_alist_erase]
      split
      · next heq => rw [heq, hzero]; rfl
      · next hne => exact hothers hash' hne
    · intro w hw
      have hne : w.1 ≠ hash := by
        rintro rfl
        exact absurd hzero (List.countP_pos_iff.mpr ⟨w, hw, by simp⟩).ne'
      rw [lookup_alist_erase, if_neg hne]
      exact h.watches w (List.mem_cons_of_mem _ hw)
  · next hpos =>
    constructor
    · exact h.made
    · intro hash' slot' hslot'
      rw [lookup_alist_insert] at hslot'
      split at hslot'
      · obtain rfl := Option.some.inj hslot'
        exact ⟨(h.slots hash slot hslot).1, Nat.pos_of_ne_zero hpos⟩
      · exact h.slots hash' slot' hslot'
    · intro hash'
      rw [lookup_alist_insert]
      split
      · next heq => rw [heq]; rfl
      · next hne => exact hothers hash' hne
    · intro w hw
      rw [lookup_alist_insert]
      have hwatches := h.watches w (List.mem_cons_of_mem _ hw)
      split
      · next heq =>
        rw [heq, hslot] at hwatches
        refine hwatches.imp_left ?_
        rintro ⟨slot', hslot', hsame⟩
        exact ⟨_, rfl, Option.some.inj hslot' ▸ hsame⟩
      · exact hwatches

/-- A fetch that leaves makes no token fresh and cancels none. -/
@[simp] theorem deregister_fresh : (t.deregister hash).fresh = t.fresh := by
  rw [FetchTable.deregister]
  split
  · rfl
  · simp only []
    split <;> rfl

@[simp] theorem deregister_cancelled : (t.deregister hash).cancelled = t.cancelled := by
  rw [FetchTable.deregister]
  split
  · rfl
  · simp only []
    split <;> rfl

/-- A cancel marks the token and leaves the watchers. -/
theorem Watched.cancel (h : t.Watched watchers) (htoken : token < t.fresh) :
    (t.cancel token).Watched watchers where
  made := by
    intro token' htoken'
    rcases List.mem_cons.mp htoken' with rfl | htoken'
    · exact htoken
    · exact h.made token' htoken'
  slots := h.slots
  count := h.count
  watches := fun w hw => (h.watches w hw).imp_right (List.mem_cons_of_mem token)

end FetchTable

end Mcpmesh
