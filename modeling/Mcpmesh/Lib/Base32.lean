import Mathlib.Data.List.Basic
import Mathlib.Data.Nat.Basic

/-!
# Mcpmesh.Lib.Base32

Unpadded base32 (RFC 4648, section 6): five bytes are eight symbols of five
bits, and one to four trailing bytes are two, four, five or seven symbols.
Decoding is strict: the upper-case alphabet only, no impossible length, and
zero trailing bits.

`decode_encode` is the roundtrip, `decode_alphabet` the strictness.
-/

namespace Mcpmesh.Lib.Base32

/-- The symbol of a five-bit value. -/
def toSymbol (n : Nat) : Char := if n < 26 then .ofNat (n + 65) else .ofNat (n + 24)

/-- The five-bit value of a symbol. -/
def ofSymbol (c : Char) : Option Nat :=
  if 65 ≤ c.toNat ∧ c.toNat ≤ 90 then some (c.toNat - 65)
  else if 50 ≤ c.toNat ∧ c.toNat ≤ 55 then some (c.toNat - 24)
  else none

/-- A symbol stands for the quintet it is written for. -/
theorem ofSymbol_toSymbol {n : Nat} (h : n < 32) : ofSymbol (toSymbol n) = some n := by
  have hall : ∀ i : Fin 32, ofSymbol (toSymbol i) = some i.val := by decide +kernel
  exact hall ⟨n, h⟩

/-! ## five-bit values -/

def toQuintets : List UInt8 → List Nat
  | [] => []
  | [a] => [a.toNat / 8, a.toNat % 8 * 4]
  | [a, b] => [a.toNat / 8, a.toNat % 8 * 4 + b.toNat / 64, b.toNat / 2 % 32, b.toNat % 2 * 16]
  | [a, b, c] =>
      [a.toNat / 8, a.toNat % 8 * 4 + b.toNat / 64, b.toNat / 2 % 32,
        b.toNat % 2 * 16 + c.toNat / 16, c.toNat % 16 * 2]
  | [a, b, c, d] =>
      [a.toNat / 8, a.toNat % 8 * 4 + b.toNat / 64, b.toNat / 2 % 32,
        b.toNat % 2 * 16 + c.toNat / 16, c.toNat % 16 * 2 + d.toNat / 128, d.toNat / 4 % 32,
        d.toNat % 4 * 8]
  | a :: b :: c :: d :: e :: rest =>
      [a.toNat / 8, a.toNat % 8 * 4 + b.toNat / 64, b.toNat / 2 % 32,
        b.toNat % 2 * 16 + c.toNat / 16, c.toNat % 16 * 2 + d.toNat / 128, d.toNat / 4 % 32,
        d.toNat % 4 * 8 + e.toNat / 32, e.toNat % 32] ++ toQuintets rest

def ofQuintets : List Nat → Option (List UInt8)
  | [] => some []
  | [p, q] => if q % 4 = 0 then some [UInt8.ofNat (p * 8 + q / 4)] else none
  | [p, q, r, s] =>
      if s % 16 = 0 then
        some [UInt8.ofNat (p * 8 + q / 4), UInt8.ofNat (q % 4 * 64 + r * 2 + s / 16)]
      else none
  | [p, q, r, s, t] =>
      if t % 2 = 0 then
        some [UInt8.ofNat (p * 8 + q / 4), UInt8.ofNat (q % 4 * 64 + r * 2 + s / 16),
          UInt8.ofNat (s % 16 * 16 + t / 2)]
      else none
  | [p, q, r, s, t, u, v] =>
      if v % 8 = 0 then
        some [UInt8.ofNat (p * 8 + q / 4), UInt8.ofNat (q % 4 * 64 + r * 2 + s / 16),
          UInt8.ofNat (s % 16 * 16 + t / 2), UInt8.ofNat (t % 2 * 128 + u * 4 + v / 8)]
      else none
  | p :: q :: r :: s :: t :: u :: v :: w :: rest =>
      (ofQuintets rest).map fun bytes =>
        UInt8.ofNat (p * 8 + q / 4) :: UInt8.ofNat (q % 4 * 64 + r * 2 + s / 16) ::
          UInt8.ofNat (s % 16 * 16 + t / 2) :: UInt8.ofNat (t % 2 * 128 + u * 4 + v / 8) ::
          UInt8.ofNat (v % 8 * 32 + w) :: bytes
  | _ => none

/-- Every quintet that is written has a symbol. -/
theorem lt_of_mem_toQuintets {bytes : List UInt8} : ∀ n ∈ toQuintets bytes, n < 32 := by
  have hlt : ∀ a : UInt8, a.toNat < 256 := fun a => a.toNat_lt
  fun_induction toQuintets bytes with
  | case1 => simp
  | case2 a => grind
  | case3 a b => grind
  | case4 a b c => grind
  | case5 a b c d => grind
  | case6 a b c d e rest ih =>
      have ha := hlt a
      have hb := hlt b
      have hc := hlt c
      have hd := hlt d
      have he := hlt e
      rw [List.forall_mem_append]
      refine ⟨?_, ih⟩
      simp
      omega

private theorem ofNat_eq_byte {a : UInt8} {n : Nat} (h : n = a.toNat) : UInt8.ofNat n = a := by
  rw [h, UInt8.ofNat_toNat]

/-- The quintets of some bytes are read back as these bytes. -/
theorem ofQuintets_toQuintets (bytes : List UInt8) :
    ofQuintets (toQuintets bytes) = some bytes := by
  have hlt : ∀ a : UInt8, a.toNat < 256 := fun a => a.toNat_lt
  fun_induction toQuintets bytes with
  | case1 => rfl
  | case2 a =>
      have ha := hlt a
      rw [ofQuintets, if_pos (by omega), ofNat_eq_byte (a := a) (by omega)]
  | case3 a b =>
      have ha := hlt a
      have hb := hlt b
      rw [ofQuintets, if_pos (by omega), ofNat_eq_byte (a := a) (by omega),
        ofNat_eq_byte (a := b) (by omega)]
  | case4 a b c =>
      have ha := hlt a
      have hb := hlt b
      have hc := hlt c
      rw [ofQuintets, if_pos (by omega), ofNat_eq_byte (a := a) (by omega),
        ofNat_eq_byte (a := b) (by omega), ofNat_eq_byte (a := c) (by omega)]
  | case5 a b c d =>
      have ha := hlt a
      have hb := hlt b
      have hc := hlt c
      have hd := hlt d
      rw [ofQuintets, if_pos (by omega), ofNat_eq_byte (a := a) (by omega),
        ofNat_eq_byte (a := b) (by omega), ofNat_eq_byte (a := c) (by omega),
        ofNat_eq_byte (a := d) (by omega)]
  | case6 a b c d e rest ih =>
      have ha := hlt a
      have hb := hlt b
      have hc := hlt c
      have hd := hlt d
      have he := hlt e
      simp only [List.cons_append, List.nil_append, ofQuintets, ih, Option.map_some]
      rw [ofNat_eq_byte (a := a) (by omega), ofNat_eq_byte (a := b) (by omega),
        ofNat_eq_byte (a := c) (by omega), ofNat_eq_byte (a := d) (by omega),
        ofNat_eq_byte (a := e) (by omega)]

/-! ## strings -/

def encode (bytes : List UInt8) : String := String.ofList ((toQuintets bytes).map toSymbol)

def decode (s : String) : Option (List UInt8) := (s.toList.mapM ofSymbol).bind ofQuintets

/-- What is encoded is decoded, whatever its length is modulo five. -/
theorem decode_encode (bytes : List UInt8) : decode (encode bytes) = some bytes := by
  have hsymbols : ∀ ns : List Nat, (∀ n ∈ ns, n < 32) →
      (ns.map toSymbol).mapM ofSymbol = some ns := by
    intro ns hns
    induction ns with
    | nil => rfl
    | cons n ns ih =>
        rw [List.forall_mem_cons] at hns
        simp [ofSymbol_toSymbol hns.1, ih hns.2]
  rw [decode, encode, String.toList_ofList, hsymbols _ lt_of_mem_toQuintets]
  exact ofQuintets_toQuintets bytes

/-- Every symbol of a text that decodes has a value. -/
theorem decode_alphabet {s : String} {bytes : List UInt8} (h : decode s = some bytes) :
    ∀ c ∈ s.toList, (ofSymbol c).isSome := by
  rw [decode, Option.bind_eq_some_iff] at h
  obtain ⟨ns, hns, -⟩ := h
  generalize s.toList = cs at hns
  induction cs generalizing ns with
  | nil => simp
  | cons c cs ih =>
      simp only [List.mapM_cons, Option.bind_eq_bind, Option.bind_eq_some_iff] at hns
      obtain ⟨n, hn, ms, hms, -⟩ := hns
      rw [List.forall_mem_cons]
      exact ⟨by simp [hn], ih ms hms⟩

end Mcpmesh.Lib.Base32
