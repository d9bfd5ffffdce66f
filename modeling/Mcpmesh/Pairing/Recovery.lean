import Mcpmesh.Lib.Fallible
import Mcpmesh.Lib.Words
import Mcpmesh.Roster.Schema
import Mathlib

/-!
# Mcpmesh.Pairing.Recovery

The recovery phrase (`node/src/pairing/recovery.rs`): the 32 bytes of the user
key and a checksum byte, one word each.

A text is read through its words alone (`wordsOf`), and the words of a key
determine it, so what is forgiven in a transcription never changes which key
comes out.  `toLowercase` is Unicode's and `blake3` any function.
-/

namespace Mcpmesh

open Lib

/-- `sas::WORDS`. -/
def Sas.words : List String :=
  ["abandon", "ability", "able", "about", "above", "absent", "absorb", "abstract", "absurd",
    "abuse", "access", "accident", "account", "accuse", "achieve", "acid", "acoustic", "acquire",
    "across", "act", "action", "actor", "actress", "actual", "adapt", "add", "addict", "address",
    "adjust", "admit", "adult", "advance", "advice", "aerobic", "affair", "afford", "afraid",
    "again", "age", "agent", "agree", "ahead", "aim", "air", "airport", "aisle", "alarm", "album",
    "alcohol", "alert", "alien", "all", "alley", "allow", "almost", "alone", "alpha", "already",
    "also", "alter", "always", "amateur", "amazing", "among", "amount", "amused", "analyst",
    "anchor", "ancient", "anger", "angle", "angry", "animal", "ankle", "announce", "annual",
    "another", "answer", "antenna", "antique", "anxiety", "any", "apart", "apology", "appear",
    "apple", "approve", "april", "arch", "arctic", "area", "arena", "argue", "arm", "armed",
    "armor", "army", "around", "arrange", "arrest", "arrive", "arrow", "art", "artefact",
    "artist", "artwork", "ask", "aspect", "assault", "asset", "assist", "assume", "asthma",
    "athlete", "atom", "attack", "attend", "attitude", "attract", "auction", "audit", "august",
    "aunt", "author", "auto", "autumn", "average", "avocado", "avoid", "awake", "aware", "away",
    "awesome", "awful", "awkward", "axis", "baby", "bachelor", "bacon", "badge", "bag", "balance",
    "balcony", "ball", "bamboo", "banana", "banner", "bar", "barely", "bargain", "barrel", "base",
    "basic", "basket", "battle", "beach", "bean", "beauty", "because", "become", "beef", "before",
    "begin", "behave", "behind", "believe", "below", "belt", "bench", "benefit", "best", "betray",
    "better", "between", "beyond", "bicycle", "bid", "bike", "bind", "biology", "bird", "birth",
    "bitter", "black", "blade", "blame", "blanket", "blast", "bleak", "bless", "blind", "blood",
    "blossom", "blouse", "blue", "blur", "blush", "board", "boat", "body", "boil", "bomb", "bone",
    "bonus", "book", "boost", "border", "boring", "borrow", "boss", "bottom", "bounce", "box",
    "boy", "bracket", "brain", "brand", "brass", "brave", "bread", "breeze", "brick", "bridge",
    "brief", "bright", "bring", "brisk", "broccoli", "broken", "bronze", "broom", "brother",
    "brown", "brush", "bubble", "buddy", "budget", "buffalo", "build", "bulb", "bulk", "bullet",
    "bundle", "bunker", "burden", "burger", "burst", "bus", "business", "busy", "butter", "buyer",
    "buzz", "cabbage", "cabin", "cable"]

/-- What the codec uses of the standard library's Unicode tables and of
`blake3`. -/
structure RecoveryPrimitives where
  blake3 : Bytes32 → Bytes32
  /-- `str::to_lowercase`. -/
  toLowercase : String → String
  toLowercase_ascii : ∀ s, (∀ c ∈ s.toList, c.toNat < 128) →
    toLowercase s = .ofList (s.toList.map Char.toLower)

namespace Recovery

/-- How many words carry key material. -/
abbrev keyWords : Nat := 32

abbrev phraseWords : Nat := keyWords + 1

theorem length_words : Sas.words.length = 256 := by decide +kernel

/-- `WORDS[b as usize]`. -/
def word (b : UInt8) : String :=
  Sas.words.get ⟨b.toNat, by rw [length_words]; exact b.toNat_lt⟩

/-- `str::split_whitespace`. -/
def splitWhitespace (phrase : String) : List String :=
  ((phrase.toList.splitOnP Words.isWhitespace).filter (!·.isEmpty)).map .ofList

/-- `trim_matches(|c: char| !c.is_ascii_alphabetic())`. -/
def trimMatches (w : String) : String := .ofList (Words.trim Char.isAlpha w.toList)

section Codec

variable (R : RecoveryPrimitives)

/-- The first byte of `blake3(key)`. -/
def checksum (key : Bytes32) : UInt8 := (R.blake3 key).head

/-- The words of a key: its bytes, then the checksum. -/
def words (key : Bytes32) : List String := key.toList.map word ++ [word (checksum R key)]

/-- `encode` -/
def encode (key : Bytes32) : String := " ".intercalate (words R key)

/-- The words of a text: its pieces, trimmed and in lower case. -/
def wordsOf (phrase : String) : List String :=
  ((splitWhitespace phrase).map fun w => R.toLowercase (trimMatches w)).filter (· ≠ "")

/-- The loop of `decode` from word `i` on, `key` so far. -/
def decodeWords (i : Nat) (key : Bytes32) : List String → Except String Bytes32
  | [] => .ok key
  | w :: rest => do
      let idx ← okOr (Sas.words.findIdx? (· = w)) <|
        "word " ++ toString (i + 1) ++ " ('" ++ w ++ "') is not a recovery word"
      if h : i < keyWords then decodeWords (i + 1) (key.set ⟨i, h⟩ (.ofNat idx)) rest
      else
        ensure (.ofNat idx = checksum R key) <|
          "the recovery phrase's checksum word does not match — a word is mistyped or out of " ++
          "order. Importing anyway would restore a DIFFERENT identity, which looks exactly " ++
          "like every peer having forgotten you"
        decodeWords (i + 1) key rest

/-- `decode` -/
def decode (phrase : String) : Except String Bytes32 := do
  let words := wordsOf R phrase
  ensure (words.length = phraseWords) <|
    "a recovery phrase is " ++ toString phraseWords ++ " words; got " ++ toString words.length
  decodeWords R 0 (.replicate 32 0) words

end Codec

/-! ## the word list -/

theorem nodup_words : Sas.words.Nodup := by
  have hsorted : (Sas.words.map String.toList).IsChain (· < ·) := by decide +kernel
  have hpairwise := List.isChain_iff_pairwise.mp hsorted
  have hnodup : (Sas.words.map String.toList).Nodup := by
    apply hpairwise.imp
    intro w w' hlt heq
    exact List.lt_irrefl w (heq ▸ hlt)
  exact hnodup.of_map

/-- A word is written in lower-case letters. -/
theorem letters_words : ∀ w ∈ Sas.words, w ≠ "" ∧ ∀ c ∈ w.toList, c.isLower = true := by
  have hall : (Sas.words.all fun w => w ≠ "" && w.toList.all Char.isLower) = true := by
    decide +kernel
  simpa using hall

/-- Every byte has a word of the list. -/
theorem word_mem (b : UInt8) : word b ∈ Sas.words := List.get_mem _ _

/-- A word is found at its byte. -/
theorem findIdx?_word (b : UInt8) : Sas.words.findIdx? (· = word b) = some b.toNat := by
  rw [List.findIdx?_eq_some_iff_getElem]
  have hlt : b.toNat < Sas.words.length := by
    rw [length_words]
    exact b.toNat_lt
  refine ⟨hlt, by simp [word], ?_⟩
  intro j hj
  have hne : Sas.words[j] ≠ Sas.words[b.toNat] := by
    intro heq
    have hsame := (nodup_words.getElem_inj_iff).mp heq
    omega
  rw [decide_eq_true_iff]
  exact hne

/-- A position of the list is a byte. -/
theorem word_of_findIdx? {w : String} {idx : Nat} (h : Sas.words.findIdx? (· = w) = some idx) :
    w = word (.ofNat idx) := by
  obtain ⟨hlt, heq, -⟩ := List.findIdx?_eq_some_iff_getElem.mp h
  have hbyte : (UInt8.ofNat idx).toNat = idx := by
    rw [length_words] at hlt
    simp [Nat.mod_eq_of_lt hlt]
  simpa [word, hbyte] using (of_decide_eq_true heq).symm

/-- Bytes with one word are one. -/
theorem word_injective {b b' : UInt8} (h : word b = word b') : b = b' := by
  have hfind := (findIdx?_word b).symm.trans (h ▸ findIdx?_word b')
  exact UInt8.toNat_inj.mp (Option.some.inj hfind)

/-! ## the loop -/

section Loop

variable {R : RecoveryPrimitives} {key k : Bytes32} {i : Nat}

/-- The bytes before `i` are the ones that were set. -/
theorem take_set_succ (h : i < keyWords) (b : UInt8) :
    (key.set ⟨i, h⟩ b).toList.take (i + 1) = key.toList.take i ++ [b] := by
  have hlen : i < key.toList.length := by simpa using h
  rw [List.Vector.toList_set, List.take_add_one, List.take_set_of_le (Nat.le_refl i),
    List.getElem?_set_self hlen, Option.toList_some]

/-- The loop reads the words of a key back. -/
theorem decodeWords_words (hi : i ≤ keyWords) (htake : k.toList.take i = key.toList.take i) :
    decodeWords R i key ((k.toList.drop i).map word ++ [word (checksum R k)]) = .ok k := by
  generalize hdrop : k.toList.drop i = bytes
  induction bytes generalizing i key with
  | nil =>
      have hlast : keyWords ≤ i := by simpa using hdrop
      obtain rfl : i = keyWords := Nat.le_antisymm hi hlast
      obtain rfl : k = key := by
        apply List.Vector.eq
        rwa [List.take_of_length_le (by simp), List.take_of_length_le (by simp)] at htake
      simp [decodeWords, findIdx?_word]
  | cons b bytes ih =>
      have hlt : i < k.toList.length := by
        by_contra hge
        simp [List.drop_eq_nil_of_le (Nat.not_lt.mp hge)] at hdrop
      have hlt' : i < keyWords := by simpa using hlt
      rw [List.drop_eq_getElem_cons hlt] at hdrop
      obtain ⟨hb, hbytes⟩ := List.cons.inj hdrop
      have htake' : k.toList.take (i + 1) = (key.set ⟨i, hlt'⟩ b).toList.take (i + 1) := by
        rw [take_set_succ hlt', ← htake, ← hb]
        simp
      have h := ih hlt' htake' hbytes
      simpa [decodeWords, findIdx?_word, hlt'] using h

/-- The words that the loop accepts are those of the key it returns. -/
theorem words_of_decodeWords {rest : List String} (hi : i ≤ keyWords)
    (hlen : i + rest.length = keyWords + 1) (h : decodeWords R i key rest = .ok k) :
    rest = (k.toList.drop i).map word ++ [word (checksum R k)] ∧
      k.toList.take i = key.toList.take i := by
  induction rest generalizing i key with
  | nil =>
      simp only [List.length_nil] at hlen
      omega
  | cons w rest ih =>
      simp only [decodeWords, bind_eq_ok, okOr_eq_ok] at h
      obtain ⟨idx, hidx, h⟩ := h
      obtain rfl := word_of_findIdx? hidx
      rw [List.length_cons] at hlen
      split at h
      · rename_i hlt
        obtain ⟨hrest, htake⟩ := ih hlt (by omega) h
        rw [take_set_succ hlt] at htake
        have hki : i < k.toList.length := by simpa using hlt
        rw [List.take_add_one] at htake
        obtain ⟨htake, hbyte⟩ := List.append_inj htake (by simp)
        rw [List.getElem?_eq_getElem hki, Option.toList_some] at hbyte
        have hbyte := List.head_eq_of_cons_eq hbyte
        rw [List.drop_eq_getElem_cons hki, hbyte, hrest]
        exact ⟨rfl, htake⟩
      · obtain rfl : i = keyWords := by omega
        obtain rfl : rest = [] := by
          apply List.length_eq_zero_iff.mp
          omega
        simp only [bind_eq_ok, ensure_eq_ok, decodeWords, decide_eq_true_eq] at h
        obtain ⟨_, hsum, hkey⟩ := h
        obtain rfl := Except.ok.inj hkey
        simp [hsum]

end Loop

/-! ## the text -/

section Text

variable {R : RecoveryPrimitives} {key key' : Bytes32} {phrase phrase' : String}

/-- A letter is no white space. -/
theorem isAlpha_of_isWhitespace (c : Char) (h : Words.isWhitespace c = true) :
    c.isAlpha = false := by
  have hle : ∀ d : Char, d.val.toNat = d.toNat := fun d => rfl
  simp only [Words.isWhitespace, Bool.or_eq_true, Bool.and_eq_true, decide_eq_true_eq] at h
  simp only [Char.isAlpha, Char.isUpper, Char.isLower, ge_iff_le, UInt32.le_iff_toNat_le, hle,
    Bool.or_eq_false_iff, Bool.and_eq_false_iff, decide_eq_false_iff_not]
  simp
  omega

/-- Words copied in any case, with non-letters around them and whitespace
between them. -/
def CopyOf (words : List String) (text : String) : Prop :=
  ∃ copies, Words.Copied Words.isWhitespace Char.isAlpha copies text.toList ∧
    copies.map (·.map Char.toLower) = words.map String.toList

/-- A letter is an ASCII character. -/
theorem toNat_lt_of_isAlpha {c : Char} (h : c.isAlpha = true) : c.toNat < 128 := by
  have hval : c.val.toNat = c.toNat := rfl
  simp only [Char.isAlpha, Char.isUpper, Char.isLower, ge_iff_le, UInt32.le_iff_toNat_le, hval,
    Bool.or_eq_true, Bool.and_eq_true, decide_eq_true_eq] at h
  simp at h
  omega

/-- Lower case on letters is letter by letter. -/
theorem toLowercase_letters {w : List Char} (h : ∀ c ∈ w, c.isAlpha = true) :
    R.toLowercase (.ofList w) = .ofList (w.map Char.toLower) := by
  have hascii : ∀ c ∈ (String.ofList w).toList, c.toNat < 128 := by
    intro c hc
    exact toNat_lt_of_isAlpha (h c (by simpa using hc))
  simpa using R.toLowercase_ascii _ hascii

/-- The words of a text are its pieces in lower case. -/
theorem wordsOf_eq : wordsOf R phrase =
    ((Words.pieces Words.isWhitespace Char.isAlpha phrase.toList).map fun w =>
      R.toLowercase (.ofList w)).filter (· ≠ "") := by
  have hempty : R.toLowercase "" = "" := toLowercase_letters (w := []) (by simp)
  rw [wordsOf, splitWhitespace, Words.pieces]
  generalize phrase.toList.splitOnP Words.isWhitespace = runs
  induction runs with
  | nil => rfl
  | cons w runs ih =>
      cases w with
      | nil => simpa using ih
      | cons c w =>
          -- a run without a letter is dropped on both sides
          by_cases htrim : Words.trim Char.isAlpha (c :: w) = []
          · simpa [trimMatches, htrim, hempty] using ih
          · simp_all [trimMatches, List.filter_cons]

/-- **The transcription is forgiving about shape.** -/
theorem wordsOf_of_copyOf {words : List String} (h : CopyOf words phrase)
    (hne : ∀ w ∈ words, w ≠ "") : wordsOf R phrase = words := by
  obtain ⟨copies, hcopied, hlower⟩ := h
  have hpieces := Words.pieces_of_copied isAlpha_of_isWhitespace hcopied
  have hmap : copies.map (fun w => R.toLowercase (.ofList w)) =
      (copies.map (·.map Char.toLower)).map String.ofList := by
    rw [List.map_map]
    apply List.map_congr_left
    intro w hw
    exact toLowercase_letters (hcopied.letters w hw)
  have hwords : copies.map (fun w => R.toLowercase (.ofList w)) = words := by
    rw [hmap, hlower]
    simp
  rw [wordsOf_eq, hpieces, hwords, List.filter_eq_self]
  simpa using hne

/-- The words of a key are of the list. -/
theorem mem_words_of_key : ∀ w ∈ words R key, w ∈ Sas.words := by
  intro w hw
  simp only [words, List.mem_append, List.mem_map, List.mem_singleton] at hw
  obtain ⟨b, -, rfl⟩ | rfl := hw
  · exact word_mem b
  · exact word_mem _

theorem length_words_key : (words R key).length = phraseWords := by simp [words]

/-- A text is accepted for its words alone. -/
theorem decode_eq_ok : decode R phrase = .ok key ↔ wordsOf R phrase = words R key := by
  simp only [decode, bind_eq_ok, ensure_eq_ok, decide_eq_true_eq]
  constructor
  · rintro ⟨_, hlen, hdecode⟩
    exact (words_of_decodeWords (Nat.zero_le _) (by rw [hlen, Nat.zero_add]) hdecode).1
  · intro h
    have hdecode : decodeWords R 0 (.replicate 32 0) (words R key) = .ok key :=
      decodeWords_words (Nat.zero_le _) rfl
    exact ⟨(), by rw [h, length_words_key], h ▸ hdecode⟩

/-- Keys with the same words are one. -/
theorem eq_of_map_word (h : key.toList.map word = key'.toList.map word) : key = key' := by
  have hword : Function.Injective word := fun _ _ => word_injective
  exact List.Vector.eq key key' (List.map_injective_iff.mpr hword h)

/-- The phrase of a key is a copy of its words. -/
theorem copyOf_encode : CopyOf (words R key) (encode R key) := by
  have hlower : ∀ w ∈ (words R key).map String.toList, w ≠ [] ∧ ∀ c ∈ w, c.isLower = true := by
    simp only [List.forall_mem_map]
    intro w hw
    obtain ⟨hne, hletters⟩ := letters_words w (mem_words_of_key w hw)
    exact ⟨by simpa using hne, hletters⟩
  refine ⟨(words R key).map String.toList, ?_, ?_⟩
  · have hletters : ∀ w ∈ (words R key).map String.toList, ∀ c ∈ w, c.isAlpha = true := by
      intro w hw c hc
      simp [Char.isAlpha, (hlower w hw).2 c hc]
    have hcopied : Words.Copied Words.isWhitespace Char.isAlpha ((words R key).map String.toList)
        ([' '].intercalate ((words R key).map String.toList)) :=
      Words.copied_intercalate (by decide) (by decide) (fun w hw => (hlower w hw).1) hletters
    simpa [encode] using hcopied
  · have hword : ∀ w ∈ (words R key).map String.toList, w.map Char.toLower = w := by
      intro w hw
      have hmap : w.map Char.toLower = w.map id :=
        List.map_congr_left fun c hc => Char.toLower_eq_of_not_isUpper
          (Char.not_isUpper_of_isLower ((hlower w hw).2 c hc))
      simpa using hmap
    have hmap : ((words R key).map String.toList).map (·.map Char.toLower) =
        ((words R key).map String.toList).map id :=
      List.map_congr_left hword
    simpa only [List.map_id] using hmap

/-- **The recovery phrase codec.**  A copy of the phrase decodes to its key,
however the words stand on the page; and what decodes has the words of the key
it decodes to, so no other words do, and no other checksum word. -/
theorem recovery_phrase_codec (R : RecoveryPrimitives) :
    (Sas.words.length = 256 ∧ Sas.words.Nodup) ∧
    (∀ key, decode R (encode R key) = .ok key) ∧
    (∀ key text, CopyOf (words R key) text → decode R text = .ok key) ∧
    (∀ text key, decode R text = .ok key → encode R key = " ".intercalate (wordsOf R text)) ∧
    (∀ text text' key, decode R text = .ok key → decode R text' = .ok key →
      wordsOf R text = wordsOf R text') ∧
    ∀ text text' key w, decode R text = .ok key →
      wordsOf R text' = (wordsOf R text).dropLast ++ [w] → wordsOf R text' ≠ wordsOf R text →
      ∃ e, decode R text' = .error e := by
  have hcopy : ∀ key text, CopyOf (words R key) text → decode R text = .ok key := by
    intro key text h
    rw [decode_eq_ok]
    exact wordsOf_of_copyOf h fun w hw => (letters_words w (mem_words_of_key w hw)).1
  refine ⟨⟨length_words, nodup_words⟩, fun key => hcopy key _ copyOf_encode, hcopy, ?_, ?_, ?_⟩
  · intro text key h
    rw [encode, decode_eq_ok.mp h]
  · intro text text' key h h'
    rw [decode_eq_ok.mp h, decode_eq_ok.mp h']
  · intro text text' key w h hlast hne
    cases h' : decode R text' with
    | error e => exact ⟨e, rfl⟩
    | ok key' =>
        rw [decode_eq_ok.mp h, decode_eq_ok.mp h'] at hlast hne
        rw [words, words, List.dropLast_concat] at hlast
        have hkey : key' = key := eq_of_map_word (List.append_inj' hlast rfl).1
        exact absurd (by rw [hkey]) hne

end Text

/-! ## a phrase that was typed off a page -/

namespace Retyped

/-- Lower case as it is on ASCII, which is all that the phrase of a key uses. -/
def primitives : RecoveryPrimitives where
  blake3 key := key
  toLowercase s := .ofList (s.toList.map Char.toLower)
  toLowercase_ascii _ _ := rfl

def key : Bytes32 := .replicate 32 7

def copies : List (List Char) := (words primitives key).map fun w => w.toList.map Char.toUpper

/-- In capitals, a word a line. -/
def text : String := .ofList (['\n'].intercalate copies)

/-- A word in capitals is read as the word. -/
theorem copied_word : ∀ w ∈ Sas.words, let copy := w.toList.map Char.toUpper
    copy ≠ [] ∧ (∀ c ∈ copy, c.isAlpha = true) ∧ copy.map Char.toLower = w.toList := by
  have hletters : (Sas.words.all fun w => w.toList.all fun c =>
      c.toUpper.isAlpha && c.toUpper.toLower == c) = true := by
    decide +kernel
  intro w hw
  have hcapital : ∀ c ∈ w.toList, c.toUpper.isAlpha = true ∧ c.toUpper.toLower = c := by
    simpa using List.all_eq_true.mp hletters w hw
  refine ⟨by simpa using (letters_words w hw).1, ?_, ?_⟩
  · exact List.forall_mem_map.mpr fun c hc => (hcapital c hc).1
  · rw [List.map_map]
    exact (List.map_congr_left fun c hc => (hcapital c hc).2).trans (List.map_id _)

theorem copyOf_text : CopyOf (words primitives key) text := by
  have hword : ∀ w ∈ words primitives key, w ∈ Sas.words := fun w => mem_words_of_key w
  refine ⟨copies, ?_, ?_⟩
  · rw [text, String.toList_ofList]
    refine Words.copied_intercalate (by decide) (by decide) ?_ ?_
    · exact List.forall_mem_map.mpr fun w hw => (copied_word w (hword w hw)).1
    · exact List.forall_mem_map.mpr fun w hw => (copied_word w (hword w hw)).2.1
  · rw [copies, List.map_map]
    exact List.map_congr_left fun w hw => (copied_word w (hword w hw)).2.2

end Retyped

open Retyped in
theorem recovery_phrase_codec_example :
    decode primitives text = .ok key ∧
      encode primitives key = " ".intercalate (wordsOf primitives text) := by
  obtain ⟨-, -, hcopy, hback, -⟩ := recovery_phrase_codec primitives
  have hread := hcopy key text copyOf_text
  exact ⟨hread, hback text key hread⟩

end Recovery

end Mcpmesh
