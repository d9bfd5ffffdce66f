import Mathlib.Algebra.Order.Group.Nat
import Mathlib.Data.Vector.Basic

/-!
# Mcpmesh.Lib.Wire

Self-delimiting byte formats.  A `Wire` writes a value and reads it back from
the front of a longer buffer, so formats compose: options and lists carry a tag
byte before every item, a pair is one format after the other.
-/

namespace Mcpmesh.Lib

/-- A format that reads its own values back from the front of any buffer. -/
structure Wire (α : Type) where
  put : α → List UInt8
  get : List UInt8 → Option (α × List UInt8)
  get_put : ∀ a rest, get (put a ++ rest) = some (a, rest)

namespace Wire

variable {α β : Type}

/-! ## scalars -/

def ofVector (n : Nat) : Wire (List.Vector UInt8 n) where
  put v := v.toList
  get buf := if h : (buf.take n).length = n then some (⟨buf.take n, h⟩, buf.drop n) else none
  get_put v rest := by
    have htake : (v.toList ++ rest).take n = v.toList := by
      rw [List.take_append_of_le_length (by rw [v.toList_length]), List.take_of_length_le]
      rw [v.toList_length]
    have hdrop : (v.toList ++ rest).drop n = rest := List.drop_left' v.toList_length
    simp only [htake, hdrop]
    rw [dif_pos v.toList_length]
    rfl

def char : Wire Char where
  put c := [UInt8.ofNat (c.toNat / 65536), UInt8.ofNat (c.toNat / 256), UInt8.ofNat c.toNat]
  get
    | a :: b :: c :: rest =>
        some (Char.ofNat (a.toNat * 65536 + b.toNat * 256 + c.toNat), rest)
    | _ => none
  get_put c rest := by
    have hsmall : c.toNat < 1114112 := by
      have hvalid := c.valid
      simp only [UInt32.isValidChar, Nat.isValidChar] at hvalid
      have hval : c.toNat = c.val.toNat := rfl
      omega
    have hsum : c.toNat / 65536 % 256 * 65536 + c.toNat / 256 % 256 * 256 + c.toNat % 256 =
        c.toNat := by omega
    simp only [List.cons_append, List.nil_append, UInt8.toNat_ofNat', Nat.reducePow, hsum,
      Char.ofNat_toNat]

/-- Eight bytes, the lowest first. -/
def uint64 : Wire UInt64 where
  put n := [0, 1, 2, 3, 4, 5, 6, 7].map fun i => UInt8.ofNat (n.toNat / 256 ^ i)
  get
    | a :: b :: c :: d :: e :: f :: g :: h :: rest =>
        some (UInt64.ofNat (a.toNat + 256 * (b.toNat + 256 * (c.toNat + 256 * (d.toNat +
          256 * (e.toNat + 256 * (f.toNat + 256 * (g.toNat + 256 * h.toNat))))))), rest)
    | _ => none
  get_put n rest := by
    have hsmall : n.toNat < 18446744073709551616 := n.toNat_lt
    simp only [List.map_cons, List.map_nil, List.cons_append, List.nil_append,
      UInt8.toNat_ofNat', Nat.reducePow, Nat.div_one, Option.some.injEq, Prod.mk.injEq, and_true]
    rw [← UInt64.toNat_inj, UInt64.toNat_ofNat']
    omega

/-! ## composition -/

/-- A format of `α` read as one of `β`. -/
def map (w : Wire α) (read : α → β) (write : β → α)
    (hread : ∀ b, read (write b) = b) : Wire β where
  put b := w.put (write b)
  get buf := (w.get buf).map fun r => (read r.1, r.2)
  get_put b rest := by rw [w.get_put, Option.map_some, hread]

def pair (v : Wire α) (w : Wire β) : Wire (α × β) where
  put ab := v.put ab.1 ++ w.put ab.2
  get buf := do
    let (a, buf) ← v.get buf
    let (b, buf) ← w.get buf
    some ((a, b), buf)
  get_put ab rest := by
    simp only [List.append_assoc, v.get_put, Option.bind_eq_bind, Option.bind_some, w.get_put]

def option (w : Wire α) : Wire (Option α) where
  put
    | none => [0]
    | some a => 1 :: w.put a
  get
    | 0 :: rest => some (none, rest)
    | 1 :: rest => (w.get rest).map fun r => (some r.1, r.2)
    | _ => none
  get_put a? rest := by
    cases a? with
    | none => rfl
    | some a => simp only [List.cons_append, w.get_put, Option.map_some]

/-- Every item behind a tag, and a tag for the end. -/
def putItems (w : Wire α) : List α → List UInt8
  | [] => [0]
  | a :: as => 1 :: (w.put a ++ w.putItems as)

/-- Read items, at most as many as the fuel. -/
def getItems (w : Wire α) : Nat → List UInt8 → Option (List α × List UInt8)
  | _, 0 :: rest => some ([], rest)
  | fuel + 1, 1 :: rest => do
      let (a, rest) ← w.get rest
      let (as, rest) ← w.getItems fuel rest
      some (a :: as, rest)
  | _, _ => none

/-- Each item takes at least its tag, so the bytes are more than the items. -/
theorem length_lt_putItems (w : Wire α) (as : List α) : as.length < (w.putItems as).length := by
  induction as with
  | nil => exact Nat.zero_lt_one
  | cons a as ih =>
      rw [putItems, List.length_cons, List.length_cons, List.length_append]
      omega

/-- A list of items is read back from its bytes, and what comes after them is left. -/
theorem getItems_putItems (w : Wire α) (as : List α) (rest : List UInt8) {fuel : Nat}
    (hfuel : as.length ≤ fuel) : w.getItems fuel (w.putItems as ++ rest) = some (as, rest) := by
  induction as generalizing fuel with
  | nil => cases fuel <;> rfl
  | cons a as ih =>
      cases fuel with
      | zero => contradiction
      | succ fuel =>
          rw [List.length_cons] at hfuel
          simp only [putItems, List.cons_append, List.append_assoc, getItems, w.get_put,
            Option.bind_eq_bind, Option.bind_some, ih (Nat.le_of_succ_le_succ hfuel)]

/-- One byte of the buffer at least goes to each item. -/
def list (w : Wire α) : Wire (List α) where
  put := w.putItems
  get buf := w.getItems buf.length buf
  get_put as rest := by
    refine w.getItems_putItems as rest ?_
    have hlength := w.length_lt_putItems as
    rw [List.length_append]
    omega

def string : Wire String :=
  char.list.map String.ofList String.toList fun _ => String.ofList_toList

end Wire

end Mcpmesh.Lib
