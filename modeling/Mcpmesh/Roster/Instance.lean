import Mcpmesh.Lib.Base64Url
import Mcpmesh.Roster.Sign
import Mathlib.Data.Char
import Mathlib.Data.List.Lex
import Mathlib.Data.List.Sort

/-!
# Mcpmesh.Roster.Instance

`Primitives` that compute: base64url, JCS over integers, RFC 3339 instants in
UTC, and Ed25519 given by the table of the signatures made so far.  A table in
which no signature occurs twice is an ideal scheme (`ideal_of_table`), so that
what is proved under `IdealEd25519` can be run.
-/

namespace Mcpmesh.Instance

open Lib

/-! ## JCS -/

/-- The escapes JCS uses in a string. -/
def escape (c : Char) : List Char :=
  if c = '"' then ['\\', '"']
  else if c = '\\' then ['\\', '\\']
  else if c.toNat = 8 then ['\\', 'b']
  else if c.toNat = 9 then ['\\', 't']
  else if c.toNat = 10 then ['\\', 'n']
  else if c.toNat = 12 then ['\\', 'f']
  else if c.toNat = 13 then ['\\', 'r']
  else if c.toNat < 32 then
    ['\\', 'u', '0', '0', Nat.digitChar (c.toNat / 16), Nat.digitChar (c.toNat % 16)]
  else [c]

def quoted (s : String) : List Char := '"' :: s.toList.flatMap escape ++ ['"']

def separated (xs : List (List Char)) : List Char := (xs.intersperse [',']).flatten

/-- A member of an object with its key, for the sort by key. -/
def sortedMembers (members : List (String × List Char)) : List (List Char) :=
  (members.insertionSort fun a b => a.1.toList ≤ b.1.toList).map fun m => quoted m.1 ++ ':' :: m.2

mutual

/-- The canonical form; a number with a fraction or an exponent has none here. -/
def canonical : Json → Except String (List Char)
  | .null => .ok "null".toList
  | .bool b => .ok (if b then "true".toList else "false".toList)
  | .num m e =>
      if e = 0 then .ok (toString m).toList else .error "number is not an integer"
  | .str s => .ok (quoted s)
  | .arr xs => do
      let ys ← canonicalElements xs
      .ok ('[' :: separated ys ++ [']'])
  | .obj entries => do
      let members ← canonicalMembers entries
      .ok ('{' :: separated (sortedMembers members) ++ ['}'])

def canonicalElements : List Json → Except String (List (List Char))
  | [] => .ok []
  | x :: xs => do
      let y ← canonical x
      let ys ← canonicalElements xs
      .ok (y :: ys)

def canonicalMembers : List (String × Json) → Except String (List (String × List Char))
  | [] => .ok []
  | e :: entries => do
      let member ← canonicalMember e
      let members ← canonicalMembers entries
      .ok (member :: members)

def canonicalMember : String × Json → Except String (String × List Char)
  | (key, value) => do
      let text ← canonical value
      .ok (key, text)

end

def jcs (value : Json) : Except String (List UInt8) := do
  let text ← canonical value
  .ok (text.flatMap String.utf8EncodeChar)

/-! ## RFC 3339 -/

/-- Days from 1970-01-01 to a date of the Gregorian calendar, whose years are
counted from March so that the leap day is a year's last. -/
def daysFromCivil (y m d : Nat) : Int :=
  let y' := if m ≤ 2 then y - 1 else y
  let doy := (153 * (if m ≤ 2 then m + 9 else m - 3) + 2) / 5 + d - 1
  (y' * 365 + y' / 4 - y' / 100 + y' / 400 + doy : Nat) - 719468

/-- The date of a day number, the inverse of `daysFromCivil`. -/
def civilFromDays (days : Int) : Nat × Nat × Nat :=
  let z := (days + 719468).toNat
  let era := z / 146097
  let doe := z % 146097
  let yoe := (doe - doe / 1460 + doe / 36524 - doe / 146096) / 365
  let doy := doe - (365 * yoe + yoe / 4 - yoe / 100)
  let mp := (5 * doy + 2) / 153
  let d := doy - (153 * mp + 2) / 5 + 1
  let m := if mp < 10 then mp + 3 else mp - 9
  (yoe + era * 400 + (if m ≤ 2 then 1 else 0), m, d)

def digits (width n : Nat) : List Char :=
  let ds := (Nat.toDigits 10 n)
  List.replicate (width - ds.length) '0' ++ ds

def number (cs : List Char) : Option Nat :=
  if cs.all Char.isDigit then some (cs.foldl (fun n c => 10 * n + (c.toNat - 48)) 0) else none

/-- An instant in UTC with whole seconds, the form `toRfc3339` writes. -/
def parseInstant (cs : List Char) : Option Int := do
  let [y₁, y₂, y₃, y₄, '-', m₁, m₂, '-', d₁, d₂, 'T', h₁, h₂, ':', n₁, n₂, ':', s₁, s₂, 'Z'] := cs
    | none
  let y ← number [y₁, y₂, y₃, y₄]
  let m ← number [m₁, m₂]
  let d ← number [d₁, d₂]
  let h ← number [h₁, h₂]
  let n ← number [n₁, n₂]
  let s ← number [s₁, s₂]
  guard (1 ≤ m ∧ m ≤ 12 ∧ 1 ≤ d ∧ d ≤ 31 ∧ h < 24 ∧ n < 60 ∧ s < 60)
  -- a day the month does not have comes back as another date
  guard (civilFromDays (daysFromCivil y m d) = (y, m, d))
  some (daysFromCivil y m d * 86400 + h * 3600 + n * 60 + s)

def toRfc3339 (epoch : Int) : String :=
  let (y, m, d) := civilFromDays (epoch / 86400)
  let s := (epoch % 86400).toNat
  .ofList (digits 4 y ++ '-' :: digits 2 m ++ '-' :: digits 2 d ++ 'T' :: digits 2 (s / 3600) ++
    ':' :: digits 2 (s / 60 % 60) ++ ':' :: digits 2 (s % 60) ++ ['Z'])

/-! ## Ed25519 by table -/

/-- One signature made: the signer's public key, the message, the signature. -/
structure Signature where
  key : Bytes32
  message : List UInt8
  sig : Bytes64
  deriving DecidableEq

/-- The primitives over the keys and the signatures made so far. -/
def primitives (keys : List Bytes32) (made : List Signature) : Primitives where
  base64Encode := Base64Url.encode
  base64Decode s := okOr (Base64Url.decode s) "invalid base64url"
  base64Decode_encode bs := by rw [Base64Url.decode_encode, okOr_some]
  jcs := jcs
  parseFromRfc3339 s := okOr (parseInstant s.toList) "input contains invalid characters"
  toRfc3339 := toRfc3339
  isPoint k := k ∈ keys
  verifyStrict k m s := ⟨k, m, s⟩ ∈ made

/-- What the table says was signed. -/
def Signed (made : List Signature) (k : Bytes32) (m : List UInt8) : Prop :=
  ∃ s, ⟨k, m, s⟩ ∈ made

/-- Signatures that all differ sign one message each. -/
theorem ideal_of_table (keys : List Bytes32) {made : List Signature}
    (hnodup : (made.map (·.sig)).Nodup) :
    IdealEd25519 (primitives keys made) (Signed made) where
  unforgeable k m s h := ⟨s, of_decide_eq_true h⟩
  exact_bytes k m m' s h h' := by
    have heq := List.inj_on_of_nodup_map hnodup (of_decide_eq_true h) (of_decide_eq_true h') rfl
    exact congrArg Signature.message heq

/-! ## rosters -/

def b64u (bytes : List UInt8) : String := b64uPrefix ++ Base64Url.encode bytes

def sigOf (n : UInt8) : Bytes64 := .replicate 64 n

/-- A roster valid in January 2026, signed with the signature `n`. -/
def roster (orgId : String) (serial : Nat) (n : UInt8) : Roster :=
  { format := rosterFormat, orgId, serial, issuedAt := "2026-01-01T00:00:00Z",
    expiresAt := "2026-02-01T00:00:00Z", groups := [], users := [], revokedEndpoints := [],
    successorRootPk := none, successorSig := none, sig := b64u (sigOf n).toList }

/-- The same, carrying a successor root and the statement that names it. -/
def bridge (orgId : String) (serial : Nat) (succ : Bytes32) (statement n : UInt8) : Roster :=
  { roster orgId serial n with
    format := rosterFormatRotation
    successorRootPk := some (b64u succ.toList)
    successorSig := some (b64u (sigOf statement).toList) }

/-- The signature `n` of `key` over the body of a roster. -/
def bodySignature (key : Bytes32) (r : Roster) (n : UInt8) : Signature :=
  ⟨key, (canonicalBytes (primitives [] []) r).toOption.getD [], sigOf n⟩

/-- 2026-01-15. -/
def now : Int := 1768435200

def ownId : EndpointId := .replicate 32 1

def rootKey : Bytes32 := .replicate 32 9

def successorKey : Bytes32 := .replicate 32 10

end Mcpmesh.Instance
