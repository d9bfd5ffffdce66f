import Mathlib.Data.List.Forall2

/-!
# Mcpmesh.Lib.Lines

A sequence cut after each separator (`str::split_inclusive`), and texts in UTF-8:
cutting the bytes at newlines is cutting the text, and a file is valid UTF-8
exactly when each of its lines is.
-/

namespace Mcpmesh.Lib

/-! ## cutting after separators -/

section Cut

variable {α β : Type*} (sep : α → Bool)

/-- Each piece but the last ends with its separator. -/
def splitInclusive : List α → List (List α)
  | [] => []
  | a :: as =>
      if sep a then [a] :: splitInclusive as
      else
        match splitInclusive as with
        | [] => [[a]]
        | piece :: pieces => (a :: piece) :: pieces

variable {sep} {as : List α}

/-- The pieces of a split make up the whole. -/
theorem flatten_splitInclusive (as : List α) : (splitInclusive sep as).flatten = as := by
  induction as with
  | nil => rfl
  | cons a as ih =>
      rw [splitInclusive]
      split
      · rw [List.flatten_cons, ih, List.singleton_append]
      · split
        · next h =>
          rw [h] at ih
          rw [← ih]
          rfl
        · next piece pieces h =>
          rw [h, List.flatten_cons] at ih
          rw [List.flatten_cons, List.cons_append, ih]

/-- What contains no separator stays in one piece. -/
theorem splitInclusive_append {bs rest : List α} (hne : bs ≠ [])
    (h : ∀ b ∈ bs, sep b = false) : splitInclusive sep (bs ++ rest) =
      match splitInclusive sep rest with
      | [] => [bs]
      | piece :: pieces => (bs ++ piece) :: pieces := by
  induction bs with
  | nil => contradiction
  | cons b bs ih =>
      rw [List.forall_mem_cons] at h
      rw [List.cons_append, splitInclusive, if_neg (by rw [h.1]; exact Bool.false_ne_true)]
      cases bs with
      | nil => rfl
      | cons b' bs =>
          rw [ih (List.cons_ne_nil b' bs) h.2]
          cases splitInclusive sep rest <;> rfl

/-- An encoding that writes a separator as one, and nothing else with one, is cut
where the text is. -/
theorem splitInclusive_flatMap {enc : α → List β} {sep' : β → Bool}
    (hsep : ∀ a, sep a = true → ∃ b, enc a = [b] ∧ sep' b = true)
    (hother : ∀ a, sep a = false → enc a ≠ [] ∧ ∀ b ∈ enc a, sep' b = false) (as : List α) :
    splitInclusive sep' (as.flatMap enc) = (splitInclusive sep as).map (·.flatMap enc) := by
  induction as with
  | nil => rfl
  | cons a as ih =>
      rw [List.flatMap_cons, splitInclusive]
      cases ha : sep a with
      | true =>
          obtain ⟨b, henc, hb⟩ := hsep a ha
          rw [henc, List.singleton_append, splitInclusive, if_pos hb, if_pos rfl, ih,
            List.map_cons, List.flatMap_singleton, henc]
      | false =>
          obtain ⟨hne, hno⟩ := hother a ha
          rw [splitInclusive_append hne hno, ih, if_neg Bool.false_ne_true]
          cases splitInclusive sep as with
          | nil => rw [List.map_nil, List.map_singleton, List.flatMap_singleton]
          | cons piece pieces => rw [List.map_cons, List.map_cons, List.flatMap_cons]

end Cut

/-! ## UTF-8 -/

/-- `str::from_utf8`. -/
def decodeUtf8 (bytes : List UInt8) : Option (List Char) :=
  (String.fromUTF8? bytes.toByteArray).map String.toList

def encodeUtf8 (cs : List Char) : List UInt8 := cs.flatMap String.utf8EncodeChar

/-- Decoding is the inverse of encoding. -/
theorem decodeUtf8_eq_some {bytes : List UInt8} {cs : List Char} :
    decodeUtf8 bytes = some cs ↔ encodeUtf8 cs = bytes := by
  have hinj : ∀ {as bs : List UInt8}, as.toByteArray = bs.toByteArray → as = bs := by
    intro as bs h
    have hdata := congrArg (·.data.toList) h
    simpa using hdata
  rw [decodeUtf8, Option.map_eq_some_iff]
  constructor
  · rintro ⟨s, hs, rfl⟩
    rw [String.fromUTF8?] at hs
    split at hs
    · next hvalid =>
      obtain rfl := Option.some.inj hs
      exact hinj String.utf8Encode_toList
    · contradiction
  · rintro rfl
    have hvalid : (encodeUtf8 cs).toByteArray.IsValidUTF8 := ⟨cs, rfl⟩
    refine ⟨String.ofList cs, ?_, String.toList_ofList⟩
    rw [String.fromUTF8?, dif_pos hvalid]
    rfl

/-- What was encoded decodes to itself. -/
theorem decodeUtf8_encodeUtf8 (cs : List Char) : decodeUtf8 (encodeUtf8 cs) = some cs :=
  decodeUtf8_eq_some.mpr rfl

theorem encodeUtf8_injective {cs ds : List Char} (h : encodeUtf8 cs = encodeUtf8 ds) : cs = ds := by
  rw [← Option.some.injEq, ← decodeUtf8_encodeUtf8, h, decodeUtf8_encodeUtf8]

/-- The byte of a newline is in no other character. -/
theorem newline_mem_utf8EncodeChar {c : Char} (h : 10 ∈ String.utf8EncodeChar c) : c = '\n' := by
  have hofNat : ∀ n : Nat, (10 : UInt8) = UInt8.ofNat n → n % 256 = 10 := by
    intro n hn
    have hnat := congrArg UInt8.toNat hn
    rw [UInt8.toNat_ofNat'] at hnat
    exact hnat.symm
  have hten : c.val.toNat = 10 := by
    rw [String.utf8EncodeChar.eq_def] at h
    dsimp only at h
    split at h
    · have hbyte := hofNat _ (List.mem_singleton.mp h)
      omega
    · split at h
      · simp only [List.mem_cons, List.not_mem_nil, or_false] at h
        obtain h | h := h <;> have hbyte := hofNat _ h <;> omega
      · split at h
        · simp only [List.mem_cons, List.not_mem_nil, or_false] at h
          obtain h | h | h := h <;> have hbyte := hofNat _ h <;> omega
        · simp only [List.mem_cons, List.not_mem_nil, or_false] at h
          obtain h | h | h | h := h <;> have hbyte := hofNat _ h <;> omega
  exact Char.ext (UInt32.toNat_inj.mp hten)

/-- A character is at least one byte. -/
theorem utf8EncodeChar_ne_nil (c : Char) : String.utf8EncodeChar c ≠ [] := by
  rw [← List.length_pos_iff, String.length_utf8EncodeChar]
  exact c.utf8Size_pos

/-- The lines of the bytes are those of the text. -/
theorem splitInclusive_encodeUtf8 (cs : List Char) :
    splitInclusive (· = 10) (encodeUtf8 cs) =
      (splitInclusive (· = '\n') cs).map encodeUtf8 := by
  refine splitInclusive_flatMap (fun c hc => ?_) (fun c hc => ⟨utf8EncodeChar_ne_nil c, ?_⟩) cs
  · obtain rfl := of_decide_eq_true hc
    exact ⟨10, by decide, by decide⟩
  · intro b hb
    rw [decide_eq_false_iff_not]
    rintro rfl
    exact of_decide_eq_false hc (newline_mem_utf8EncodeChar hb)

/-- A partial map over a list answers where it does so at each place. -/
theorem mapM_eq_some {α β : Type*} {f : α → Option β} {as : List α} {bs : List β} :
    as.mapM f = some bs ↔ List.Forall₂ (fun a b => f a = some b) as bs := by
  induction as generalizing bs with
  | nil =>
      rw [List.mapM_nil]
      constructor
      · intro h
        obtain rfl := Option.some.inj h
        exact .nil
      · rintro ⟨⟩
        rfl
  | cons a as ih =>
      simp only [List.mapM_cons, Option.bind_eq_bind, Option.bind_eq_some_iff, Option.pure_def,
        Option.some.injEq]
      constructor
      · rintro ⟨b, hb, bs, hbs, rfl⟩
        exact .cons hb (ih.mp hbs)
      · rintro (_ | ⟨hb, hbs⟩)
        exact ⟨_, hb, _, ih.mpr hbs, rfl⟩

/-- **A text is read line by line or at once, to the same end**: the lines of a
file decode, each for itself, exactly when the file does, and to its lines. -/
theorem mapM_decodeUtf8 (bytes : List UInt8) :
    (splitInclusive (· = 10) bytes).mapM decodeUtf8 =
      (decodeUtf8 bytes).map (splitInclusive (· = '\n')) := by
  have hpieces : ∀ {css : List (List Char)}, css.map encodeUtf8 = splitInclusive (· = 10) bytes →
      encodeUtf8 css.flatten = bytes := by
    intro css h
    have hflat := congrArg List.flatten h
    rw [flatten_splitInclusive] at hflat
    rw [← hflat, encodeUtf8, List.flatMap_def, List.map_flatten, List.flatten_flatten,
      List.map_map]
    rfl
  refine Option.ext fun css => ?_
  rw [mapM_eq_some, Option.map_eq_some_iff]
  constructor
  · intro h
    have hmap : css.map encodeUtf8 = splitInclusive (· = 10) bytes := by
      rw [← List.forall₂_eq_eq_eq, List.forall₂_map_left_iff]
      exact h.flip.imp fun _ _ hdecode => decodeUtf8_eq_some.mp hdecode
    refine ⟨css.flatten, decodeUtf8_eq_some.mpr (hpieces hmap), ?_⟩
    have hsplit := splitInclusive_encodeUtf8 css.flatten
    rw [hpieces hmap, ← hmap] at hsplit
    exact (List.map_injective_iff.mpr (fun _ _ => encodeUtf8_injective) hsplit).symm
  · rintro ⟨cs, hcs, rfl⟩
    rw [← decodeUtf8_eq_some.mp hcs, splitInclusive_encodeUtf8, List.forall₂_map_left_iff,
      List.forall₂_same]
    exact fun piece _ => decodeUtf8_encodeUtf8 piece

end Mcpmesh.Lib
