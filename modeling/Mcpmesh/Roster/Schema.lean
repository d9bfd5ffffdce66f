import Mcpmesh.Lib.Fallible
import Mathlib.Data.Vector.Basic
import Mathlib.Data.List.Basic

/-!
# Mcpmesh.Roster.Schema

The `mcpmesh-roster/1` document (`trust/src/roster/mod.rs`): its schema types,
the `b64u:` codec and the typed `RosterError`.

The third-party code the roster modules call is a parameter, `Primitives`:
base64url, JCS, the RFC 3339 parser and Ed25519.  Of these the model relies on
one law only, that base64url decodes what it encodes; what a proof assumes of
the signature scheme is a hypothesis of that proof.
-/

namespace Mcpmesh

open Lib

/-- `[u8; 32]`: an endpoint id, or the bytes of an Ed25519 public key. -/
abbrev Bytes32 := List.Vector UInt8 32

/-- `[u8; 64]`: an Ed25519 signature. -/
abbrev Bytes64 := List.Vector UInt8 64

abbrev EndpointId := Bytes32

instance : LawfulBEq EndpointId := inferInstance

/-- A `serde_json::Value`.  A number is `mantissa * 10 ^ exponent`; an object
is its list of entries, as `serde_json::Map` iterates it. -/
inductive Json where
  | null
  | bool (b : Bool)
  | num (mantissa exponent : Int)
  | str (s : String)
  | arr (xs : List Json)
  | obj (entries : List (String × Json))

/-! ## the third-party primitives -/

/-- What the roster modules call outside the repository. -/
structure Primitives where
  /-- `data_encoding::BASE64URL_NOPAD.encode`. -/
  base64Encode : List UInt8 → String
  /-- `data_encoding::BASE64URL_NOPAD.decode`, with the error's text. -/
  base64Decode : String → Except String (List UInt8)
  base64Decode_encode : ∀ bs, base64Decode (base64Encode bs) = .ok bs
  /-- `serde_jcs::to_vec`. -/
  jcs : Json → Except String (List UInt8)
  /-- `chrono::DateTime::parse_from_rfc3339`, as epoch seconds. -/
  parseFromRfc3339 : String → Except String Int
  /-- `DateTime::from_timestamp(epoch, 0)`, or the default instant, in RFC 3339. -/
  toRfc3339 : Int → String
  /-- Whether `VerifyingKey::from_bytes` accepts these bytes as a point. -/
  isPoint : Bytes32 → Bool
  /-- `VerifyingKey::verify_strict` of a message and a signature. -/
  verifyStrict : Bytes32 → List UInt8 → Bytes64 → Bool

/-! ## constants -/

/-- The only `format` value an org that never rotated carries. -/
def rosterFormat : String := "mcpmesh-roster/1"

/-- The format a roster carrying a rotation bridge declares. -/
def rosterFormatRotation : String := "mcpmesh-roster/2"

/-- The scheme prefix on every key, id and signature string in the schema. -/
def b64uPrefix : String := "b64u:"

/-- Clock-skew tolerance for the validity window, in seconds. -/
def skewSecs : Int := 10 * 60

/-! ## the document -/

structure RosterDevice where
  endpointId : String
  label : String
  role : String
  deriving DecidableEq, Repr

structure RosterUser where
  userId : String
  displayName : String
  userPk : String
  groups : List String
  devices : List RosterDevice
  deriving DecidableEq, Repr

/-- A signed org roster. -/
structure Roster where
  format : String
  orgId : String
  serial : Nat
  issuedAt : String
  expiresAt : String
  groups : List String
  users : List RosterUser
  revokedEndpoints : List String
  successorRootPk : Option String
  successorSig : Option String
  sig : String
  deriving DecidableEq, Repr

/-- Typed roster failure: the rule a document violates.  The `Json` variant of
the source is the serializer's own failure on a roster, which has none. -/
inductive RosterError where
  | jcs (msg : String)
  | encoding (msg : String)
  | badTimestamp (msg : String)
  | badFormat (format : String)
  | badSignature
  | staleSerial (got installed : Nat)
  | outOfValidity
  | duplicateEndpoint
  | duplicateUser (userId : String)
  | namespaceCollision (name : String)
  | undeclaredGroup (group : String)
  deriving DecidableEq, Repr

/-! ## the `b64u:` codec -/

/-- `str::strip_prefix`. -/
def stripPrefix (pre s : String) : Option String :=
  (s.toList.dropPrefix? pre.toList).map String.ofList

/-- A prefix that was put before a text is taken off again. -/
theorem stripPrefix_append (pre s : String) : stripPrefix pre (pre ++ s) = some s := by
  have h : (pre.toList ++ s.toList).dropPrefix? pre.toList = some s.toList :=
    List.dropPrefix?_append_of_beq s.toList (by simp)
  simp [stripPrefix, String.toList_append, h]

/-- What was stripped off stood in front. -/
theorem append_of_stripPrefix {pre s rest : String} (h : stripPrefix pre s = some rest) :
    pre ++ rest = s := by
  rw [stripPrefix, Option.map_eq_some_iff] at h
  obtain ⟨cs, hcs, rfl⟩ := h
  obtain ⟨pre', heq, hpre⟩ := List.dropPrefix?_eq_some_iff.mp hcs
  rw [← String.toList_inj, String.toList_append, String.toList_ofList, heq, eq_of_beq hpre]

section Codec

variable (P : Primitives)

/-- `b64u:<base64url-nopad>` of `bytes`. -/
def encodeB64u (bytes : List UInt8) : String := b64uPrefix ++ P.base64Encode bytes

/-- Decode a `b64u:` string to bytes; a missing prefix or bad base64url is a
typed error. -/
def decodeB64u (s : String) : Except RosterError (List UInt8) := do
  let payload ← okOr (stripPrefix b64uPrefix s) (.encoding ("missing " ++ b64uPrefix ++ " prefix"))
  (P.base64Decode payload).mapError .encoding

/-- `slice.try_into::<[u8; n]>`. -/
def toArray (n : Nat) (bytes : List UInt8) : Option (List.Vector UInt8 n) :=
  if h : bytes.length = n then some ⟨bytes, h⟩ else none

/-- Decode a `b64u:` endpoint id; a payload that is not 32 bytes is an error. -/
def decodeEndpointId (s : String) : Except RosterError EndpointId := do
  let bytes ← decodeB64u P s
  okOr (toArray 32 bytes) (.encoding "endpoint_id is not 32 bytes")

/-- A vector is read back from its bytes. -/
@[simp] theorem toArray_toList {n : Nat} (v : List.Vector UInt8 n) :
    toArray n v.toList = some v := by
  rw [toArray, dif_pos v.toList_length]
  rfl

/-- Bytes that are read as a vector are the bytes of it. -/
theorem toList_of_toArray {n : Nat} {bytes : List UInt8} {v : List.Vector UInt8 n}
    (h : toArray n bytes = some v) : bytes = v.toList := by
  rw [toArray] at h
  split at h
  · rw [← Option.some.inj h]; rfl
  · contradiction

/-- What is encoded is decoded. -/
@[simp] theorem decodeB64u_encodeB64u (bytes : List UInt8) :
    decodeB64u P (encodeB64u P bytes) = .ok bytes := by
  simp [decodeB64u, encodeB64u, stripPrefix_append, P.base64Decode_encode]

/-- An endpoint id is read back from its text. -/
@[simp] theorem decodeEndpointId_encodeB64u (eid : EndpointId) :
    decodeEndpointId P (encodeB64u P eid.toList) = .ok eid := by
  simp [decodeEndpointId]

end Codec

end Mcpmesh
