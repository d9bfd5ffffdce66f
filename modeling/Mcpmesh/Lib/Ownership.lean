import Mathlib.Logic.Function.Basic
import Mathlib.Data.List.Basic

/-!
# Mcpmesh.Lib.Ownership

Keys that parties take in sets and give back in sets: a party takes all the
keys of its set at once, when none of them is owned, and gives all of them
back.  `Consistent` says that a key is owned by exactly the party whose set
lists it; every move keeps it, so two parties' sets never meet.
-/

namespace Mcpmesh.Lib

/-- Who owns each key, and the set each party holds. -/
structure Ownership (ι π : Type*) where
  owner : π → Option ι
  held : ι → Option (List π)

namespace Ownership

variable {ι π : Type*}

/-- A key is owned by the party whose set lists it. -/
def Consistent (o : Ownership ι π) : Prop :=
  ∀ k i, o.owner k = some i ↔ ∃ keys, o.held i = some keys ∧ k ∈ keys

variable {o o' : Ownership ι π} {i j : ι} {k : π} {keys keys' : List π}

/-- Two parties that hold a common key are one party. -/
theorem Consistent.eq_of_mem (h : o.Consistent) (hi : o.held i = some keys)
    (hj : o.held j = some keys') (hk : k ∈ keys) (hk' : k ∈ keys') : i = j := by
  have howner := (h k i).mpr ⟨keys, hi, hk⟩
  rw [(h k j).mpr ⟨keys', hj, hk'⟩] at howner
  exact (Option.some.inj howner).symm

/-- A party without a set owns nothing. -/
theorem Consistent.owner_ne (h : o.Consistent) (hi : o.held i = none) (k : π) :
    o.owner k ≠ some i := by
  intro howner
  obtain ⟨keys, hheld, _⟩ := (h k i).mp howner
  rw [hi] at hheld
  contradiction

variable [DecidableEq ι] [DecidableEq π]

/-- A move, with the party that makes it. -/
inductive Moves (o : Ownership ι π) : Option ι → Ownership ι π → Prop where
  | keep (i : Option ι) : Moves o i o
  | take (i : ι) (keys : List π) : o.held i = none → (∀ k ∈ keys, o.owner k = none) →
      Moves o (some i)
        ⟨fun k => if k ∈ keys then some i else o.owner k, Function.update o.held i (some keys)⟩
  | release (i : ι) (keys : List π) : o.held i = some keys →
      Moves o (some i)
        ⟨fun k => if k ∈ keys then none else o.owner k, Function.update o.held i none⟩

/-- **The step rule**: every move keeps the books consistent. -/
theorem Consistent.moves {who : Option ι} (h : o.Consistent) (hmove : Moves o who o') :
    o'.Consistent := by
  cases hmove with
  | keep => exact h
  | take i keys hnone hfree =>
      intro k j
      obtain rfl | hne := eq_or_ne j i
      · simp only [Function.update_self, Option.some.injEq, exists_eq_left']
        split
        · simpa
        · rename_i hk
          exact ⟨fun howner => absurd howner (h.owner_ne hnone k), fun hmem => absurd hmem hk⟩
      · simp only [Function.update_of_ne hne]
        split
        · rename_i hk
          rw [← h k j, hfree k hk]
          simp [hne.symm]
        · exact h k j
  | release i keys hheld =>
      intro k j
      obtain rfl | hne := eq_or_ne j i
      · simp only [Function.update_self, reduceCtorEq, false_and, exists_false, iff_false]
        split
        · simp
        · rename_i hk
          intro howner
          obtain ⟨keys', hheld', hk'⟩ := (h k j).mp howner
          rw [hheld] at hheld'
          exact hk (Option.some.inj hheld' ▸ hk')
      · simp only [Function.update_of_ne hne]
        split
        · rename_i hk
          refine ⟨nofun, fun ⟨keys', hheld', hk'⟩ => ?_⟩
          exact absurd (h.eq_of_mem hheld' hheld hk' hk) hne
        · exact h k j

/-- **The frame rule**: what another party owns, it still owns. -/
theorem Consistent.owner_of_other {who : Option ι} (h : o.Consistent) (hmove : Moves o who o')
    (hother : who ≠ some j) (howner : o.owner k = some j) : o'.owner k = some j := by
  cases hmove with
  | keep => exact howner
  | take i keys hnone hfree =>
      have hk : k ∉ keys := fun hk => by
        rw [hfree k hk] at howner
        contradiction
      exact (if_neg hk).trans howner
  | release i keys hheld =>
      have hk : k ∉ keys := fun hk => by
        rw [(h k i).mpr ⟨keys, hheld, hk⟩] at howner
        exact hother howner
      exact (if_neg hk).trans howner

end Ownership

end Mcpmesh.Lib
