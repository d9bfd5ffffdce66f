import Mathlib.Data.List.Basic
import Mathlib.Data.Nat.Basic

/-!
# Mcpmesh.Lib.Base64Url

Unpadded base64url (RFC 4648, section 5): three bytes are four symbols of six
bits, and one or two trailing bytes are two or three symbols.  Decoding is
strict: the alphabet only, no impossible length, and zero trailing bits.

`decode_encode` is the roundtrip.
-/

namespace Mcpmesh.Lib.Base64Url

/-- The symbol of a six-bit value. -/
def toSymbol (n : Nat) : Char :=
  if n < 26 then .ofNat (n + 65)
  else if n < 52 then .ofNat (n + 71)
  else if n < 62 then .ofNat (n - 4)
  else if n = 62 then '-'
  else '_'

/-- The six-bit value of a symbol. -/
def ofSymbol (c : Char) : Option Nat :=
  if 65 ≤ c.toNat ∧ c.toNat ≤ 90 then some (c.toNat - 65)
  else if 97 ≤ c.toNat ∧ c.toNat ≤ 122 then some (c.toNat - 71)
  else if 48 ≤ c.toNat ∧ c.toNat ≤ 57 then some (c.toNat + 4)
  else if c.toNat = 45 then some 62
  else if c.toNat = 95 then some 63
  else none

/-- A symbol stands for the sextet it is written for. -/
theorem ofSymbol_toSymbol {n : Nat} (h : n < 64) : ofSymbol (toSymbol n) = some n := by
  have hall : ∀ i : Fin 64, ofSymbol (toSymbol i) = some i.val := by decide +kernel
  exact hall ⟨n, h⟩

/-! ## six-bit values -/

def toSextets : List UInt8 → List Nat
  | [] => []
  | [a] => [a.toNat / 4, a.toNat % 4 * 16]
  | [a, b] => [a.toNat / 4, a.toNat % 4 * 16 + b.toNat / 16, b.toNat % 16 * 4]
  | a :: b :: c :: rest =>
      a.toNat / 4 :: (a.toNat % 4 * 16 + b.toNat / 16) :: (b.toNat % 16 * 4 + c.toNat / 64) ::
        c.toNat % 64 :: toSextets rest

def ofSextets : List Nat → Option (List UInt8)
  | [] => some []
  | [_] => none
  | [w, x] => if x % 16 = 0 then some [UInt8.ofNat (w * 4 + x / 16)] else none
  | [w, x, y] =>
      if y % 4 = 0 then
        some [UInt8.ofNat (w * 4 + x / 16), UInt8.ofNat (x % 16 * 16 + y / 4)]
      else none
  | w :: x :: y :: z :: rest =>
      (ofSextets rest).map fun bytes =>
        UInt8.ofNat (w * 4 + x / 16) :: UInt8.ofNat (x % 16 * 16 + y / 4) ::
          UInt8.ofNat (y % 4 * 64 + z) :: bytes

/-- Every sextet that is written has a symbol. -/
theorem lt_of_mem_toSextets {bytes : List UInt8} : ∀ n ∈ toSextets bytes, n < 64 := by
  fun_induction toSextets bytes with
  | case1 => simp
  | case2 a =>
      have ha := a.toNat_lt
      simp only [List.mem_cons, List.not_mem_nil, or_false]
      omega
  | case3 a b =>
      have ha := a.toNat_lt
      have hb := b.toNat_lt
      simp only [List.mem_cons, List.not_mem_nil, or_false]
      omega
  | case4 a b c rest ih =>
      have ha := a.toNat_lt
      have hb := b.toNat_lt
      have hc := c.toNat_lt
      intro n hn
      simp only [List.mem_cons] at hn
      obtain h | h | h | h | h := hn
      · omega
      · omega
      · omega
      · omega
      · exact ih n h

private theorem ofNat_eq {a : UInt8} {n : Nat} (h : n = a.toNat) : UInt8.ofNat n = a := by
  rw [h, UInt8.ofNat_toNat]

/-- The sextets of some bytes are read back as these bytes. -/
theorem ofSextets_toSextets (bytes : List UInt8) : ofSextets (toSextets bytes) = some bytes := by
  fun_induction toSextets bytes with
  | case1 => rfl
  | case2 a =>
      have ha := a.toNat_lt
      rw [ofSextets, if_pos (by omega), ofNat_eq (a := a) (by omega)]
  | case3 a b =>
      have ha := a.toNat_lt
      have hb := b.toNat_lt
      rw [ofSextets, if_pos (by omega), ofNat_eq (a := a) (by omega), ofNat_eq (a := b) (by omega)]
  | case4 a b c rest ih =>
      have ha := a.toNat_lt
      have hb := b.toNat_lt
      have hc := c.toNat_lt
      rw [ofSextets, ih, Option.map_some, ofNat_eq (a := a) (by omega),
        ofNat_eq (a := b) (by omega), ofNat_eq (a := c) (by omega)]

/-! ## strings -/

def encode (bytes : List UInt8) : String := String.ofList ((toSextets bytes).map toSymbol)

def decode (s : String) : Option (List UInt8) := (s.toList.mapM ofSymbol).bind ofSextets

/-- What is encoded is decoded, whatever its length is modulo three. -/
theorem decode_encode (bytes : List UInt8) : decode (encode bytes) = some bytes := by
  have hsymbols : ∀ ns : List Nat, (∀ n ∈ ns, n < 64) →
      (ns.map toSymbol).mapM ofSymbol = some ns := by
    intro ns hns
    induction ns with
    | nil => rfl
    | cons n ns ih =>
        rw [List.map_cons, List.mapM_cons, ofSymbol_toSymbol (hns n List.mem_cons_self),
          ih fun m hm => hns m (List.mem_cons_of_mem n hm)]
        rfl
  rw [decode, encode, String.toList_ofList, hsymbols _ lt_of_mem_toSextets]
  exact ofSextets_toSextets bytes

end Mcpmesh.Lib.Base64Url
