import Mathlib.Data.List.DropRight

/-!
# Mcpmesh.Lib.Words

The words of a text over any alphabet: the maximal runs without a separator,
each stripped of what is no letter on either side, and the empty ones dropped.

`isWhitespace` is one separator, of Unicode texts.

`Copied` is the freedom a writer has (its words in order, anything that is no
letter around them, a separator somewhere between two) and `pieces_of_copied`
says that the words read back are the words written.
-/

namespace Mcpmesh.Lib.Words

/-- `char::is_whitespace`: the characters with the property White_Space. -/
def isWhitespace (c : Char) : Bool :=
  let n := c.toNat
  9 ≤ n && n ≤ 13 || n = 0x20 || n = 0x85 || n = 0xa0 || n = 0x1680 ||
    0x2000 ≤ n && n ≤ 0x200a || n = 0x2028 || n = 0x2029 || n = 0x202f || n = 0x205f || n = 0x3000

variable {α : Type*} (sep letter : α → Bool)

/-- Drop what is no letter from both ends. -/
def trim (w : List α) : List α := (w.dropWhile (!letter ·)).rdropWhile (!letter ·)

/-- The trimmed runs of a text. -/
def pieces (text : List α) : List (List α) :=
  ((text.splitOnP sep).map (trim letter)).filter (!·.isEmpty)

/-- A text in which `words` were written one after the other. -/
inductive Copied : List (List α) → List α → Prop
  | nil {gap} (hgap : ∀ c ∈ gap, letter c = false) : Copied [] gap
  | cons {w words lead gap rest} (hlead : ∀ c ∈ lead, letter c = false)
      (hne : w ≠ []) (hword : ∀ c ∈ w, letter c = true) (hgap : ∀ c ∈ gap, letter c = false)
      (hsep : words ≠ [] → ∃ c ∈ gap, sep c = true) (hrest : Copied words rest) :
      Copied (w :: words) (lead ++ w ++ gap ++ rest)

variable {sep letter} {c : α} {w gap text rest : List α} {words : List (List α)}

/-- The words of a copy are in its letters. -/
theorem Copied.letters (h : Copied sep letter words text) :
    ∀ w ∈ words, ∀ c ∈ w, letter c = true := by
  induction h with
  | nil => simp
  | cons _ _ hword _ _ _ ih => exact List.forall_mem_cons.mpr ⟨hword, ih⟩

/-- Words joined by one separator. -/
theorem copied_intercalate {s : α} (hs : sep s = true) (hs' : letter s = false)
    (hne : ∀ w ∈ words, w ≠ []) (hletters : ∀ w ∈ words, ∀ c ∈ w, letter c = true) :
    Copied sep letter words ([s].intercalate words) := by
  induction words with
  | nil => exact .nil (by simp)
  | cons w words ih =>
      rw [List.forall_mem_cons] at hne hletters
      cases words with
      | nil =>
          have hlast : Copied sep letter [w] ([] ++ w ++ [] ++ []) :=
            .cons (by simp) hne.1 hletters.1 (by simp) (by simp) (.nil (by simp))
          simpa using hlast
      | cons v words =>
          have hcons : Copied sep letter (w :: v :: words)
              ([] ++ w ++ [s] ++ [s].intercalate (v :: words)) :=
            .cons (by simp) hne.1 hletters.1 (by simp [hs']) (by simp [hs]) (ih hne.2 hletters.2)
          simpa using hcons

/-! ## trimming -/

@[simp] theorem trim_nil : trim letter [] = [] := by simp [trim]

theorem trim_cons (h : letter c = false) : trim letter (c :: w) = trim letter w := by
  simp [trim, h]

theorem trim_concat (h : letter c = false) : trim letter (w ++ [c]) = trim letter w := by
  rw [trim, trim, List.dropWhile_append]
  split
  · rename_i hnil
    simp [List.isEmpty_iff.mp hnil, h]
  · exact List.rdropWhile_concat_pos _ _ _ (by simp [h])

/-- A word has nothing to trim. -/
theorem trim_of_letters (h : ∀ c ∈ w, letter c = true) : trim letter w = w := by
  have hdrop : w.dropWhile (!letter ·) = w := by
    cases w with
    | nil => rfl
    | cons c w => simp [h c List.mem_cons_self]
  rw [trim, hdrop, List.rdropWhile_eq_self_iff]
  intro hne
  simp [h _ (List.getLast_mem hne)]

/-! ## splitting -/

/-- A separator ends a piece. -/
theorem pieces_append_cons (text rest : List α) (hsep : sep c = true) :
    pieces sep letter (text ++ c :: rest) = pieces sep letter text ++ pieces sep letter rest := by
  simp [pieces, List.splitOnP_append_cons text rest hsep]

/-- A text without a separator is one run. -/
theorem pieces_of_no_sep (hsep : ∀ c ∈ w, sep c = false) (hne : trim letter w ≠ []) :
    pieces sep letter w = [trim letter w] := by
  simp [pieces, List.splitOnP_eq_singleton hsep, hne]

@[simp] theorem pieces_nil : pieces sep letter [] = [] := by simp [pieces]

/-- What is no letter leaves no trace before a word. -/
theorem pieces_cons (hc : letter c = false) :
    pieces sep letter (c :: text) = pieces sep letter text := by
  rw [pieces, pieces, List.splitOnP_cons_eq_if_modifyHead]
  split
  · simp
  · obtain ⟨head, tail, heq⟩ := List.exists_cons_of_ne_nil (List.splitOnP_ne_nil sep text)
    simp [heq, trim_cons hc]

/-- What leads a text, and is no letter, is trimmed off. -/
theorem pieces_lead (hlead : ∀ c ∈ gap, letter c = false) :
    pieces sep letter (gap ++ text) = pieces sep letter text := by
  induction gap with
  | nil => rfl
  | cons c gap ih =>
      rw [List.forall_mem_cons] at hlead
      rw [List.cons_append, pieces_cons hlead.1, ih hlead.2]

/-- A word ends at the first separator after it, or with the text. -/
theorem pieces_word (rest : List α) (hno : ∀ c ∈ w, sep c = false)
    (hne : trim letter w ≠ []) (hgap : ∀ c ∈ gap, letter c = false)
    (hrest : rest = [] ∨ ∃ c ∈ gap, sep c = true) :
    pieces sep letter (w ++ gap ++ rest) = trim letter w :: pieces sep letter rest := by
  induction gap generalizing w with
  | nil =>
      obtain rfl : rest = [] := by simpa using hrest
      simp [pieces_of_no_sep hno hne]
  | cons c gap ih =>
      rw [List.forall_mem_cons] at hgap
      cases hc : sep c with
      | true =>
          have hsplit : pieces sep letter (w ++ c :: (gap ++ rest)) =
              pieces sep letter w ++ pieces sep letter (gap ++ rest) :=
            pieces_append_cons w (gap ++ rest) hc
          rw [List.append_assoc, List.cons_append, hsplit, pieces_of_no_sep hno hne,
            pieces_lead hgap.2, List.singleton_append]
      | false =>
          -- the character joins the run, and trimming takes it off again
          have hno' : ∀ d ∈ w ++ [c], sep d = false := by
            simpa [hc, or_imp, forall_and] using hno
          have htrim : trim letter (w ++ [c]) = trim letter w := trim_concat hgap.1
          have hrest' : rest = [] ∨ ∃ c ∈ gap, sep c = true := by simpa [hc] using hrest
          have h := ih hno' (by rwa [htrim]) hgap.2 hrest'
          rwa [htrim, List.append_assoc w [c], List.singleton_append] at h

/-- **The words read are the words written.** -/
theorem pieces_of_copied (hsep : ∀ c, sep c = true → letter c = false)
    (h : Copied sep letter words text) : pieces sep letter text = words := by
  induction h with
  | @nil gap hgap =>
      have hlead : pieces sep letter (gap ++ []) = pieces sep letter [] := pieces_lead hgap
      simpa using hlead
  | @cons w words lead gap rest hlead hne hword hgap hgapsep hrest ih =>
      have htrim : trim letter w = w := trim_of_letters hword
      have hno : ∀ c ∈ w, sep c = false := by
        intro c hc
        by_contra hs
        have hletter := hsep c (by simpa using hs)
        simp [hword c hc] at hletter
      have hwhole : pieces sep letter (w ++ gap ++ rest) = w :: pieces sep letter rest := by
        cases words with
        | cons v words =>
            have hsome := hgapsep (List.cons_ne_nil v words)
            have h := pieces_word rest hno (by rwa [htrim]) hgap (.inr hsome)
            rwa [htrim] at h
        | nil =>
            -- the rest of the text is a gap as well
            cases hrest with
            | nil hjunk =>
                have hboth : ∀ c ∈ gap ++ rest, letter c = false := by
                  simpa [or_imp, forall_and] using ⟨hgap, hjunk⟩
                have h := pieces_word [] hno (by rwa [htrim]) hboth (.inl rfl)
                simpa [htrim, ih] using h
      rw [List.append_assoc, List.append_assoc, pieces_lead hlead, ← List.append_assoc, hwhole, ih]

end Mcpmesh.Lib.Words
