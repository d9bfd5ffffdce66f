import Mcpmesh.Roster.Schema

/-!
# Mcpmesh.Roster.Sign

Canonicalization and org-root signatures (`trust/src/roster/sign.rs`): rule 1
of roster validation (`verify`, `sign`) and the rotation statement by which a
root names its successor (`orgRotationPreimage`, `verifyOrgRotation`,
`signOrgRotation`).

`IdealEd25519` is what "Ed25519 is ideal" means to a verifier: a signature
verifies under a key only over bytes the key's holder signed, and over no
other bytes.  `IdealSigning` is what it means to a signer: what it signs
verifies, under its key and no other.
-/

namespace Mcpmesh

open Lib

/-! ## serialization -/

/-- The UTF-8 bytes of a string. -/
def utf8 (s : String) : List UInt8 := s.toUTF8.data.toList

/-- Two texts with the same bytes are one. -/
theorem utf8_injective {s t : String} (h : utf8 s = utf8 t) : s = t := by
  apply String.toByteArray_inj.mp
  apply ByteArray.ext
  exact Array.toList_inj.mp h

def strings (xs : List String) : Json := .arr (xs.map .str)

def RosterDevice.toJson (d : RosterDevice) : Json :=
  .obj [("endpoint_id", .str d.endpointId), ("label", .str d.label), ("role", .str d.role)]

def RosterUser.toJson (u : RosterUser) : Json :=
  .obj [("user_id", .str u.userId), ("display_name", .str u.displayName),
    ("user_pk", .str u.userPk), ("groups", strings u.groups),
    ("devices", .arr (u.devices.map RosterDevice.toJson))]

/-- An optional field, with `skip_serializing_if = "Option::is_none"`. -/
def optionalField (name : String) : Option String → List (String × Json)
  | none => []
  | some v => [(name, .str v)]

/-- `serde_json::to_value` of a roster. -/
def Roster.toJson (r : Roster) : Json :=
  .obj ([("format", .str r.format), ("org_id", .str r.orgId), ("serial", .num r.serial 0),
      ("issued_at", .str r.issuedAt), ("expires_at", .str r.expiresAt),
      ("groups", strings r.groups), ("users", .arr (r.users.map RosterUser.toJson)),
      ("revoked_endpoints", strings r.revokedEndpoints)] ++
    optionalField "successor_root_pk" r.successorRootPk ++
    optionalField "successor_sig" r.successorSig ++ [("sig", .str r.sig)])

/-! ## keys -/

/-- An `ed25519_dalek::VerifyingKey`: 32 bytes that decode to a point. -/
def VerifyingKey (P : Primitives) : Type := { bytes : Bytes32 // P.isPoint bytes = true }

namespace VerifyingKey

variable {P : Primitives}

def toBytes (k : VerifyingKey P) : Bytes32 := k.val

def fromBytes (bytes : Bytes32) : Option (VerifyingKey P) :=
  if h : P.isPoint bytes = true then some ⟨bytes, h⟩ else none

/-- A key is read back from its bytes. -/
@[simp] theorem fromBytes_toBytes (k : VerifyingKey P) : fromBytes k.toBytes = some k := by
  rw [fromBytes, toBytes, dif_pos k.property]
  rfl

/-- Bytes that are read as a key are the bytes of it. -/
theorem toBytes_of_fromBytes {bytes : Bytes32} {k : VerifyingKey P}
    (h : fromBytes bytes = some k) : k.toBytes = bytes := by
  rw [fromBytes] at h
  split at h
  · rw [← Option.some.inj h]; rfl
  · contradiction

end VerifyingKey

/-! ## signing and verifying -/

section Verify

variable (P : Primitives)

/-- Canonical bytes of `value` with any top-level `"sig"` entry removed. -/
def canonicalBytesWithoutSig (value : Json) : Except RosterError (List UInt8) :=
  let v := match value with
    | .obj entries => .obj (entries.filter fun e => e.1 ≠ "sig")
    | v => v
  (P.jcs v).mapError .jcs

/-- The signing input for a roster. -/
def canonicalBytes (roster : Roster) : Except RosterError (List UInt8) :=
  canonicalBytesWithoutSig P roster.toJson

/-- Rule 1: `roster.sig` verifies against `rootPk` over the canonical form. -/
def verify (roster : Roster) (rootPk : VerifyingKey P) : Except RosterError Unit := do
  let canon ← canonicalBytes P roster
  let sigBytes ← decodeB64u P roster.sig
  let sig ← okOr (toArray 64 sigBytes) .badSignature
  ensure (P.verifyStrict rootPk.toBytes canon sig) .badSignature

/-- The domain the current org root signs its successor under. -/
def orgRotationDomain : List UInt8 := utf8 "mcpmesh/org-root-rotation/1"

/-- `(n as u32).to_be_bytes()`. -/
def u32BeBytes (n : Nat) : List UInt8 :=
  [UInt8.ofNat (n / 2 ^ 24), UInt8.ofNat (n / 2 ^ 16), UInt8.ofNat (n / 2 ^ 8), UInt8.ofNat n]

/-- The bytes the current org root signs to name its successor:
`domain ∥ len(org_id) as u32 BE ∥ org_id ∥ successor_pk`. -/
def orgRotationPreimage (orgId : String) (successorPk : Bytes32) : List UInt8 :=
  orgRotationDomain ++ u32BeBytes (utf8 orgId).length ++ utf8 orgId ++ successorPk.toList

/-- Verify a successor statement against the anchor a node currently pins. -/
def verifyOrgRotation (pinnedRootPk : Bytes32) (orgId : String) (successorPk : Bytes32)
    (sig : List UInt8) : Except RosterError Unit := do
  let vk ← okOr (VerifyingKey.fromBytes (P := P) pinnedRootPk) .badSignature
  let sig ← okOr (toArray 64 sig) .badSignature
  ensure (P.verifyStrict vk.toBytes (orgRotationPreimage orgId successorPk) sig) .badSignature

/-- A rotation statement determines its org and its successor, also for an
`org_id` whose length wraps in the prefix: the successor key has a fixed
width, so the total length already separates the two fields. -/
theorem orgRotationPreimage_injective {org org' : String} {pk pk' : Bytes32}
    (h : orgRotationPreimage org pk = orgRotationPreimage org' pk') : org = org' ∧ pk = pk' := by
  unfold orgRotationPreimage at h
  simp only [List.append_assoc] at h
  have hprefix := List.append_cancel_left h
  have hrest := (List.append_inj hprefix rfl).2
  have hsplit := List.append_inj' hrest (by rw [pk.toList_length, pk'.toList_length])
  exact ⟨utf8_injective hsplit.1, List.Vector.eq pk pk' hsplit.2⟩

/-- What an ideal Ed25519 gives, where `Signed k m` says that the holder of
`k` signed the bytes `m`. -/
structure IdealEd25519 (Signed : Bytes32 → List UInt8 → Prop) : Prop where
  /-- Only signed bytes verify. -/
  unforgeable : ∀ k m s, P.verifyStrict k m s = true → Signed k m
  /-- A signature verifies over one message only. -/
  exact_bytes : ∀ k m m' s, P.verifyStrict k m s = true → P.verifyStrict k m' s = true → m = m'

/-- The root `k` signed the body of `roster`. -/
def BodySigned (Signed : Bytes32 → List UInt8 → Prop) (k : VerifyingKey P) (roster : Roster) :
    Prop :=
  ∃ canon, canonicalBytes P roster = .ok canon ∧ Signed k.toBytes canon

variable {P} {Signed : Bytes32 → List UInt8 → Prop}

/-- A roster that verifies has a signed body. -/
theorem bodySigned_of_verify (ideal : IdealEd25519 P Signed) {roster : Roster}
    {k : VerifyingKey P} (h : verify P roster k = .ok ()) : BodySigned P Signed k roster := by
  obtain ⟨canon, hcanon, h⟩ := bind_eq_ok.mp h
  obtain ⟨sigBytes, _, h⟩ := bind_eq_ok.mp h
  obtain ⟨sig, _, h⟩ := bind_eq_ok.mp h
  exact ⟨canon, hcanon, ideal.unforgeable _ _ sig (ensure_eq_ok.mp h)⟩

/-- `verify_org_rotation` under a key a node holds: the statement's signature
is 64 bytes that verify over the statement. -/
theorem verifyOrgRotation_ok {k : VerifyingKey P} {orgId : String} {pk : Bytes32}
    {sig : List UInt8} (h : verifyOrgRotation P k.toBytes orgId pk sig = .ok ()) :
    ∃ s, toArray 64 sig = some s ∧
      P.verifyStrict k.toBytes (orgRotationPreimage orgId pk) s = true := by
  obtain ⟨vk, hvk, h⟩ := bind_eq_ok.mp h
  obtain ⟨s, hs, h⟩ := bind_eq_ok.mp h
  rw [VerifyingKey.fromBytes_toBytes, okOr_some] at hvk
  rw [← Except.ok.inj hvk] at h
  exact ⟨s, okOr_eq_ok.mp hs, ensure_eq_ok.mp h⟩

end Verify

/-! ## signing -/

section Sign

variable (P : Primitives)

/-- `ed25519_dalek::SigningKey`: the public half, and what `sign` makes of a
message. -/
structure SigningKeys where
  SigningKey : Type
  verifyingKey : SigningKey → VerifyingKey P
  sign : SigningKey → List UInt8 → Bytes64

/-- What an ideal Ed25519 gives its signers. -/
structure IdealSigning (K : SigningKeys P) : Prop where
  /-- A signature made verifies. -/
  verifies : ∀ key m, P.verifyStrict (K.verifyingKey key).toBytes m (K.sign key m) = true
  /-- A signature verifies under one key only. -/
  exclusive : ∀ k k' m s, P.verifyStrict k m s = true → P.verifyStrict k' m s = true → k = k'

variable (K : SigningKeys P)

/-- Sign a roster in place. -/
def sign (root : K.SigningKey) (roster : Roster) : Except RosterError Roster := do
  let canon ← canonicalBytes P roster
  .ok { roster with sig := encodeB64u P (K.sign root canon).toList }

/-- `sign`, with an `expect`. -/
def mintSigned (root : K.SigningKey) (body : Roster) : Except RosterError Roster :=
  sign P K root body

def signOrgRotation (currentRoot : K.SigningKey) (orgId : String) (successorPk : Bytes32) :
    Bytes64 :=
  K.sign currentRoot (orgRotationPreimage orgId successorPk)

variable {P K}

/-- The signature is no part of what is signed. -/
theorem canonicalBytes_sig (roster : Roster) (s : String) :
    canonicalBytes P { roster with sig := s } = canonicalBytes P roster := by
  have hlast : ∀ (entries : List (String × Json)) (v : Json),
      (entries ++ [("sig", v)]).filter (fun e => e.1 ≠ "sig") =
        entries.filter fun e => e.1 ≠ "sig" := by
    intro entries v
    rw [List.filter_append]
    simp
  simp only [canonicalBytes, canonicalBytesWithoutSig, Roster.toJson, hlast]

/-- A signature changes the roster in nothing but the signature. -/
theorem sign_ok {root : K.SigningKey} {roster signed : Roster}
    (h : sign P K root roster = .ok signed) : ∃ s, signed = { roster with sig := s } := by
  obtain ⟨canon, -, h⟩ := bind_eq_ok.mp h
  exact ⟨_, (Except.ok.inj h).symm⟩

/-- What the root signs verifies under it. -/
theorem verify_sign (ideal : IdealSigning P K) {root : K.SigningKey} {roster signed : Roster}
    (h : sign P K root roster = .ok signed) : verify P signed (K.verifyingKey root) = .ok () := by
  obtain ⟨canon, hcanon, h⟩ := bind_eq_ok.mp h
  obtain rfl := Except.ok.inj h
  simp only [verify, canonicalBytes_sig, hcanon, ok_bind, decodeB64u_encodeB64u, toArray_toList,
    okOr_some, ideal.verifies, ensure_true]

/-- A body verifies under one key only. -/
theorem verify_unique (ideal : IdealSigning P K) {roster : Roster} {k k' : VerifyingKey P}
    (h : verify P roster k = .ok ()) (h' : verify P roster k' = .ok ()) : k = k' := by
  obtain ⟨canon, hcanon, h⟩ := bind_eq_ok.mp h
  obtain ⟨bytes, hbytes, h⟩ := bind_eq_ok.mp h
  obtain ⟨s, hs, h⟩ := bind_eq_ok.mp h
  simp only [verify, hcanon, ok_bind, hbytes, hs] at h'
  exact Subtype.ext (ideal.exclusive _ _ canon s (ensure_eq_ok.mp h) (ensure_eq_ok.mp h'))

/-- A rotation that the key's bytes verify verifies under the key. -/
theorem verifyOrgRotation_of_verifies {k : VerifyingKey P} {orgId : String} {pk : Bytes32}
    {s : Bytes64} (h : P.verifyStrict k.toBytes (orgRotationPreimage orgId pk) s = true) :
    verifyOrgRotation P k.toBytes orgId pk s.toList = .ok () := by
  simp only [verifyOrgRotation, VerifyingKey.fromBytes_toBytes, okOr_some, ok_bind, toArray_toList,
    h, ensure_true]

end Sign

end Mcpmesh
