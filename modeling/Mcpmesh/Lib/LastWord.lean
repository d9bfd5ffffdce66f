import Mcpmesh.Lib.Run

/-!
# Mcpmesh.Lib.LastWord

What a log last said of a cell.  Every act of a log says something of the cell,
or nothing; the last word is what the latest act that said something said.  A
cell that each act sets to what it says holds the last word
(`holds_iff_lastWord_snoc`).
-/

namespace Mcpmesh.Lib

variable {α β : Type*}

/-- The latest of what the acts said. -/
def lastWord (word : α → Option β) (acts : List α) : Option β := acts.reverse.findSome? word

variable {word : α → Option β} {acts before after : List α} {a : α} {b : β}

@[simp] theorem lastWord_nil : lastWord word [] = none := rfl

/-- The last word of two runs is that of the later, where it has one. -/
theorem lastWord_append :
    lastWord word (before ++ after) = (lastWord word after).or (lastWord word before) := by
  rw [lastWord, List.reverse_append, List.findSome?_append]
  rfl

/-- Acts that say nothing have no last word. -/
theorem lastWord_eq_none (h : ∀ a ∈ acts, word a = none) : lastWord word acts = none :=
  List.findSome?_eq_none_iff.mpr fun a ha => h a (List.mem_reverse.mp ha)

/-- The last word after one more act. -/
theorem lastWord_snoc : lastWord word (acts ++ [a]) = (word a).or (lastWord word acts) := by
  rw [lastWord, List.reverse_append, List.reverse_singleton, List.singleton_append,
    List.findSome?_cons]
  cases word a <;> rfl

/-- An act that speaks has the last word. -/
theorem lastWord_snoc_of_some (h : word a = some b) :
    lastWord word (acts ++ [a]) = some b := by
  rw [lastWord_snoc, h, Option.some_or]

/-- An act that does not speak leaves the last word. -/
theorem lastWord_snoc_of_none (h : word a = none) :
    lastWord word (acts ++ [a]) = lastWord word acts := by
  rw [lastWord_snoc, h, Option.none_or]

/-- A last word was said by an act. -/
theorem exists_of_lastWord (h : lastWord word acts = some b) : ∃ a ∈ acts, word a = some b := by
  obtain ⟨a, ha, hword⟩ := List.exists_of_findSome?_eq_some h
  exact ⟨a, List.mem_reverse.mp ha, hword⟩

/-- Where all who speak say the same, that is the last word. -/
theorem lastWord_of_agree (h : ∃ a ∈ acts, word a = some b)
    (hagree : ∀ a ∈ acts, ∀ c, word a = some c → c = b) : lastWord word acts = some b := by
  obtain ⟨a, ha, hword⟩ := h
  cases hlast : lastWord word acts with
  | none =>
      have hnone := List.findSome?_eq_none_iff.mp hlast a (List.mem_reverse.mpr ha)
      rw [hword] at hnone
      contradiction
  | some c =>
      obtain ⟨d, hd, hc⟩ := exists_of_lastWord hlast
      rw [hagree d hd c hc]

theorem lastWord_cons : lastWord word (a :: acts) = (lastWord word acts).or (word a) := by
  rw [← List.singleton_append, lastWord_append, ← List.nil_append [a], lastWord_snoc, lastWord_nil,
    Option.or_none]

/-- An act overtakes those before it when it speaks of other cells than they do. -/
theorem lastWord_overtake {between : List α} (h : word a = none ∨ lastWord word between = none) :
    lastWord word (before ++ a :: (between ++ after)) =
      lastWord word (before ++ (between ++ a :: after)) := by
  rcases h with h | h <;> simp [lastWord_append, lastWord_cons, h]

/-- The last word stays when an act that speaks of other cells than those before
it is put in. -/
theorem lastWord_insert (h : word a = none ∨ lastWord word before = none)
    (hlast : lastWord word (before ++ after) = some b) :
    lastWord word (before ++ a :: after) = some b := by
  rw [lastWord_append] at hlast
  rw [lastWord_append, lastWord_cons]
  rcases h with h | h
  · rw [h, Option.or_none]
    exact hlast
  · rw [h, Option.or_none] at hlast ⊢
    rw [hlast, Option.some_or]

/-- A word that did not stay was followed by another. -/
theorem exists_later_word (h : word a = some b)
    (hlast : lastWord word (before ++ a :: after) ≠ some b) :
    ∃ c ∈ after, ∃ b', word c = some b' ∧ b' ≠ b := by
  induction after using List.reverseRecOn with
  | nil => exact absurd (lastWord_snoc_of_some h) hlast
  | append_singleton after c ih =>
      rw [← List.cons_append, ← List.append_assoc] at hlast
      cases hc : word c with
      | none =>
          rw [lastWord_snoc_of_none hc] at hlast
          obtain ⟨d, hd, hword⟩ := ih hlast
          exact ⟨d, List.mem_append_left [c] hd, hword⟩
      | some b' =>
          rw [lastWord_snoc_of_some hc] at hlast
          exact ⟨c, List.mem_append_right after List.mem_cons_self, b', hc,
            fun heq => hlast (heq ▸ rfl)⟩

/-- **The register rule**: a cell that an act sets to what it says, and leaves
alone when it says nothing, goes on holding the last word. -/
theorem holds_iff_lastWord_snoc {word : α → Option Bool} {cell cell' : Prop}
    (hcell : cell ↔ lastWord word acts = some true)
    (hset : cell' ↔ word a = some true ∨ word a = none ∧ cell) :
    cell' ↔ lastWord word (acts ++ [a]) = some true := by
  rw [hset, hcell, lastWord_snoc]
  cases word a <;> simp

/-- The register rule for a run of a machine whose state has the cell, and in
which it held something before. -/
theorem holds_iff_lastWord_trace {σ ε ο : Type*} {step : σ → ε → σ × ο} {cell : σ → Prop}
    {word : Called σ ε ο → Option Bool}
    (hset : ∀ s e, cell (step s e).1 ↔
      word (callAt step s e) = some true ∨ word (callAt step s e) = none ∧ cell s)
    (s : σ) (es : List ε) :
    cell (final step s es) ↔ lastWord word (trace step s es) = some true ∨
      lastWord word (trace step s es) = none ∧ cell s := by
  induction es generalizing s with
  | nil => simp [final]
  | cons e es ih =>
      rw [final_cons, trace_cons, lastWord_cons, ih, hset]
      cases lastWord word (trace step (step s e).1 es) <;> simp

/-- What stands at each act of a log, with the acts before it, stands when one
more act does. -/
theorem forall_split_snoc {P : List α → α → Prop}
    (h : ∀ before c after, acts = before ++ c :: after → P before c) (ha : P acts a)
    (before : List α) (c : α) (after : List α) (heq : acts ++ [a] = before ++ c :: after) :
    P before c := by
  cases after using List.reverseRecOn with
  | nil =>
      obtain ⟨rfl, rfl⟩ := List.append_inj' heq rfl |>.imp_right List.singleton_inj.mp
      exact ha
  | append_singleton after d =>
      rw [← List.cons_append, ← List.append_assoc] at heq
      exact h before c after (List.append_inj' heq rfl).1

end Mcpmesh.Lib
