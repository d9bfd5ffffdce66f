import Mcpmesh.Lib.Tagged
import Mcpmesh.Roster.Instance
import Mcpmesh.Roster.Validate

/-!
# Mcpmesh.Trust.Statements

Every byte string the family signs (`trust/src/roster/sign.rs`,
`trust/src/app.rs`, `node/src/roster/presence.rs`), and the functions that
verify them.

`Statement` is the sum of the seven kinds.  Each kind opens with a tag of its
own (`statementTags`), so two kinds never share their signed bytes; inside a
kind the fields are fixed-width, or the one variable field is delimited by a
length or by the total length.  A heartbeat and a roster body are not claimed
to determine their fields.
-/

namespace Mcpmesh

open Lib

/-- A Rust slice: at most `isize::MAX` bytes. -/
abbrev Slice := { bs : List UInt8 // bs.length < 2 ^ 63 }

/-- `i64::saturating_abs`. -/
def saturatingAbs (a : Int) : Int := min (2 ^ 63 - 1) a.natAbs

/-! ## the preimages -/

/-- Domain of the device-to-user-key binding. -/
def deviceBindingDomain : List UInt8 := utf8 "mcpmesh/join/device-binding/1"

/-- Domain of a peer introduction. -/
def introduceDomain : List UInt8 := utf8 "mcpmesh/introduce/1"

/-- Domain a user key revokes one of its own devices under. -/
def deviceRevocationDomain : List UInt8 := utf8 "mcpmesh/device-revocation/1"

/-- Domain of a presence heartbeat. -/
def presenceDomain : List UInt8 := utf8 "mcpmesh/presence/1"

/-- The fixed prefix every app signature carries. -/
def appSigDomain : List UInt8 := utf8 "mcpmesh/app-sig/1"

/-- `domain ∥ user_pk ∥ endpoint_id`. -/
def deviceBindingPreimage (userPk : Bytes32) (deviceEndpointId : EndpointId) : List UInt8 :=
  deviceBindingDomain ++ userPk.toList ++ deviceEndpointId.toList

/-- `domain ∥ user_pk ∥ endpoint_id ∥ issued_at(8, big-endian)`. -/
def deviceRevocationPreimage (userPk : Bytes32) (deviceEndpointId : EndpointId)
    (issuedAt : UInt64) : List UInt8 :=
  deviceRevocationDomain ++ userPk.toList ++ deviceEndpointId.toList ++ beBytes 8 issuedAt.toNat

/-- The slot of an absent subject key. -/
def zeroKey : Bytes32 := .replicate 32 0

/-- `domain ∥ endorser_pk ∥ subject_endpoint_id ∥ subject_user_pk`, 32 zero
bytes when the subject key is absent. -/
def introducePreimage (endorserPk : Bytes32) (subjectEndpointId : EndpointId)
    (subjectUserPk : Option Bytes32) : List UInt8 :=
  introduceDomain ++ endorserPk.toList ++ subjectEndpointId.toList ++
    (subjectUserPk.getD zeroKey).toList

/-- `domain ∥ endpoint_id ∥ user_id ∥ ts ∥ serial ∥ meta`. -/
def presencePreimage (endpointId : EndpointId) (userId : String) (ts : Int) (serial : Nat)
    (metadata : String) : List UInt8 :=
  presenceDomain ++ endpointId.toList ++ utf8 userId ++ leBytes 8 (ts % 2 ^ 64).toNat ++
    leBytes 8 serial ++ utf8 metadata

/-- `APP_SIG_DOMAIN ∥ (domain.len() as u64 LE) ∥ domain ∥ msg`. -/
def appPreimage (domain msg : Slice) : List UInt8 :=
  appSigDomain ++ leBytes 8 domain.val.length ++ domain.val ++ msg.val

/-! ### what the bytes determine -/

theorem deviceBindingPreimage_injective {pk pk' : Bytes32} {eid eid' : EndpointId}
    (h : deviceBindingPreimage pk eid = deviceBindingPreimage pk' eid') :
    pk = pk' ∧ eid = eid' := by
  simp only [deviceBindingPreimage, List.append_assoc] at h
  obtain ⟨hpk, heid⟩ := List.append_inj (List.append_cancel_left h) (by simp)
  exact ⟨List.Vector.eq pk pk' hpk, List.Vector.eq eid eid' heid⟩

theorem deviceRevocationPreimage_injective {pk pk' : Bytes32} {eid eid' : EndpointId}
    {issuedAt issuedAt' : UInt64}
    (h : deviceRevocationPreimage pk eid issuedAt = deviceRevocationPreimage pk' eid' issuedAt') :
    pk = pk' ∧ eid = eid' ∧ issuedAt = issuedAt' := by
  simp only [deviceRevocationPreimage, List.append_assoc] at h
  obtain ⟨hpk, h⟩ := List.append_inj (List.append_cancel_left h) (by simp)
  obtain ⟨heid, hat⟩ := List.append_inj h (by simp)
  have hnat : issuedAt.toNat = issuedAt'.toNat :=
    beBytes_injective issuedAt.toNat_lt issuedAt'.toNat_lt hat
  exact ⟨List.Vector.eq pk pk' hpk, List.Vector.eq eid eid' heid, UInt64.toNat_inj.mp hnat⟩

/-- The subject key is determined up to the slot's reading of an absent one. -/
theorem introducePreimage_injective {pk pk' : Bytes32} {eid eid' : EndpointId}
    {upk upk' : Option Bytes32}
    (h : introducePreimage pk eid upk = introducePreimage pk' eid' upk') :
    pk = pk' ∧ eid = eid' ∧ upk.getD zeroKey = upk'.getD zeroKey := by
  simp only [introducePreimage, List.append_assoc] at h
  obtain ⟨hpk, h⟩ := List.append_inj (List.append_cancel_left h) (by simp)
  obtain ⟨heid, hupk⟩ := List.append_inj h (by simp)
  exact ⟨List.Vector.eq pk pk' hpk, List.Vector.eq eid eid' heid, List.Vector.eq _ _ hupk⟩

theorem appPreimage_injective {domain domain' msg msg' : Slice}
    (h : appPreimage domain msg = appPreimage domain' msg') : domain = domain' ∧ msg = msg' := by
  simp only [appPreimage, List.append_assoc] at h
  obtain ⟨hlen, h⟩ := List.append_inj (List.append_cancel_left h) (by simp)
  have hlen : domain.val.length = domain'.val.length :=
    leBytes_injective (Nat.lt_trans domain.property (by decide))
      (Nat.lt_trans domain'.property (by decide)) hlen
  obtain ⟨hdomain, hmsg⟩ := List.append_inj h hlen
  exact ⟨Subtype.ext hdomain, Subtype.ext hmsg⟩

/-! ## verifying -/

section Verify

variable (P : Primitives)

/-- The shape of the 32-byte-key verifiers: a point, a 64-byte signature, and
`verify_strict`. -/
def verifyStatement (key : Bytes32) (preimage sig : List UInt8) : Except RosterError Unit := do
  let vk ← okOr (VerifyingKey.fromBytes (P := P) key) .badSignature
  let sig ← okOr (toArray 64 sig) .badSignature
  ensure (P.verifyStrict vk.toBytes preimage sig) .badSignature

def verifyDeviceBinding (userPk : Bytes32) (deviceEndpointId : EndpointId) (sig : List UInt8) :
    Except RosterError Unit :=
  verifyStatement P userPk (deviceBindingPreimage userPk deviceEndpointId) sig

def verifyDeviceRevocation (userPk : Bytes32) (deviceEndpointId : EndpointId) (issuedAt : UInt64)
    (sig : List UInt8) : Except RosterError Unit :=
  verifyStatement P userPk (deviceRevocationPreimage userPk deviceEndpointId issuedAt) sig

def verifyIntroduction (endorserPk : Bytes32) (subjectEndpointId : EndpointId)
    (subjectUserPk : Option Bytes32) (sig : List UInt8) : Except RosterError Unit :=
  verifyStatement P endorserPk (introducePreimage endorserPk subjectEndpointId subjectUserPk) sig

/-- `verify_app`: a malformed key is no valid signature. -/
def verifyApp (endpointId : EndpointId) (domain msg : Slice) (sig : Bytes64) : Bool :=
  match VerifyingKey.fromBytes (P := P) endpointId with
  | none => false
  | some pk => P.verifyStrict pk.toBytes (appPreimage domain msg) sig

/-- A gossiped heartbeat. -/
structure Presence where
  t : String
  endpointId : String
  userId : String
  ts : Int
  rosterSerial : Nat
  metadata : String
  sig : String

def presenceSkewSecs : Int := 120

def appMetadataMaxBytes : Nat := 256

/-- The signature half of `Presence::verify`: the endpoint and the bytes that
verify under it. -/
def Presence.authenticated (beat : Presence) : Option (EndpointId × List UInt8) := do
  let eid ← (decodeEndpointId P beat.endpointId).toOption
  let vk ← VerifyingKey.fromBytes (P := P) eid
  let sigBytes ← (decodeB64u P beat.sig).toOption
  let sig ← toArray 64 sigBytes
  let preimage := presencePreimage eid beat.userId beat.ts beat.rosterSerial beat.metadata
  if P.verifyStrict vk.toBytes preimage sig then some (eid, sigBytes) else none

/-- Message-level verify: the skew and the size first, then the signature
against the endpoint as a public key. -/
def Presence.verify (beat : Presence) (now : Int) : Option EndpointId :=
  if beat.t ≠ "presence" || presenceSkewSecs ≤ saturatingAbs (saturatingSub now beat.ts) ||
      appMetadataMaxBytes < (utf8 beat.metadata).length then none
  else (beat.authenticated P).map (·.1)

end Verify

/-! ## the seven kinds -/

inductive StatementKind where
  | binding
  | revocation
  | introduction
  | rotation
  | body
  | presence
  | app
  deriving DecidableEq

/-- What the bytes of a statement of this kind open with: its domain, or the
brace of a JSON object. -/
def StatementKind.tag : StatementKind → List UInt8
  | .binding => deviceBindingDomain
  | .revocation => deviceRevocationDomain
  | .introduction => introduceDomain
  | .rotation => orgRotationDomain
  | .body => [0x7b]
  | .presence => presenceDomain
  | .app => appSigDomain

/-- The kinds whose bytes determine every field. -/
def StatementKind.determined : StatementKind → Bool
  | .body | .presence => false
  | _ => true

/-- No domain begins another, and none of them begins with a brace. -/
def statementTags : Tags StatementKind where
  tag := StatementKind.tag
  apart k k' h := by
    cases k <;> cases k' <;> first | rfl | exact absurd h (by decide)

/-- A statement somebody signs. -/
inductive Statement where
  | binding (userPk : Bytes32) (deviceEndpointId : EndpointId)
  | revocation (userPk : Bytes32) (deviceEndpointId : EndpointId) (issuedAt : UInt64)
  | introduction (endorserPk : Bytes32) (subjectEndpointId : EndpointId)
      (subjectUserPk : Option Bytes32)
  | rotation (orgId : String) (successorPk : Bytes32)
  | body (roster : Roster)
  | presence (endpointId : EndpointId) (userId : String) (ts : Int) (serial : Nat)
      (metadata : String)
  | app (domain msg : Slice)

namespace Statement

def kind : Statement → StatementKind
  | .binding .. => .binding
  | .revocation .. => .revocation
  | .introduction .. => .introduction
  | .rotation .. => .rotation
  | .body .. => .body
  | .presence .. => .presence
  | .app .. => .app

/-- The statement with an absent subject key written as the all-zero key. -/
def normal : Statement → Statement
  | .introduction endorserPk subjectEndpointId subjectUserPk =>
      .introduction endorserPk subjectEndpointId (some (subjectUserPk.getD zeroKey))
  | st => st

section Signed

variable (P : Primitives)

/-- The bytes the signer of a statement signs. -/
def signedBytes : Statement → Except RosterError (List UInt8)
  | .binding userPk eid => .ok (deviceBindingPreimage userPk eid)
  | .revocation userPk eid issuedAt => .ok (deviceRevocationPreimage userPk eid issuedAt)
  | .introduction endorserPk eid userPk => .ok (introducePreimage endorserPk eid userPk)
  | .rotation orgId successorPk => .ok (orgRotationPreimage orgId successorPk)
  | .body roster => canonicalBytes P roster
  | .presence eid userId ts serial metadata => .ok (presencePreimage eid userId ts serial metadata)
  | .app domain msg => .ok (appPreimage domain msg)

/-- The code accepts `sig` as `k`'s signature of the statement. -/
def Verifies (k : VerifyingKey P) (sig : Bytes64) : Statement → Prop
  | .binding userPk eid =>
      userPk = k.toBytes ∧ verifyDeviceBinding P userPk eid sig.toList = .ok ()
  | .revocation userPk eid issuedAt =>
      userPk = k.toBytes ∧ verifyDeviceRevocation P userPk eid issuedAt sig.toList = .ok ()
  | .introduction endorserPk eid userPk =>
      endorserPk = k.toBytes ∧ verifyIntroduction P endorserPk eid userPk sig.toList = .ok ()
  | .rotation orgId successorPk =>
      verifyOrgRotation P k.toBytes orgId successorPk sig.toList = .ok ()
  | .body roster => decodeB64u P roster.sig = .ok sig.toList ∧ verify P roster k = .ok ()
  | .presence eid userId ts serial metadata =>
      ∃ (beat : Presence) (now : Int), eid = k.toBytes ∧ beat.userId = userId ∧ beat.ts = ts ∧
        beat.rosterSerial = serial ∧ beat.metadata = metadata ∧
        decodeB64u P beat.sig = .ok sig.toList ∧ beat.verify P now = some eid
  | .app domain msg => verifyApp P k.toBytes domain msg sig = true

end Signed

end Statement

/-- `serde_jcs` of an object is the text of an object. -/
def JcsObjectText (P : Primitives) : Prop :=
  ∀ entries bytes, P.jcs (.obj entries) = .ok bytes → [0x7b] <+: bytes

/-- An ideal Ed25519, where `Made k m s` says that the holder of `k` made the
signature `s` of the bytes `m`. -/
structure IdealSignatures (P : Primitives) (Made : Bytes32 → List UInt8 → Bytes64 → Prop) :
    Prop where
  /-- Only a signature that was made verifies. -/
  unforgeable : ∀ k m s, P.verifyStrict k m s = true → Made k m s
  /-- A signature is made once, by one key over one message. -/
  made_once : ∀ k k' m m' s, Made k m s → Made k' m' s → k = k' ∧ m = m'

section Separation

variable {P : Primitives} {Made : Bytes32 → List UInt8 → Bytes64 → Prop}

theorem canonicalBytes_begins (hjcs : JcsObjectText P) {roster : Roster} {m : List UInt8}
    (h : canonicalBytes P roster = .ok m) : [0x7b] <+: m :=
  hjcs _ m (mapError_eq_ok.mp h)

/-- The bytes of a statement open with the tag of its kind. -/
theorem tag_begins (hjcs : JcsObjectText P) {st : Statement} {m : List UInt8}
    (h : st.signedBytes P = .ok m) : statementTags.tag st.kind <+: m := by
  cases st with
  | body roster => exact canonicalBytes_begins hjcs h
  | binding | revocation | introduction | rotation | presence | app =>
      rw [← Except.ok.inj h]
      simp only [deviceBindingPreimage, deviceRevocationPreimage, introducePreimage,
        orgRotationPreimage, presencePreimage, appPreimage, List.append_assoc]
      exact List.prefix_append _ _

/-- Statements of one determined kind with the same bytes have the same
fields. -/
theorem normal_eq_of_signedBytes {st st' : Statement} {m : List UInt8}
    (h : st.signedBytes P = .ok m) (h' : st'.signedBytes P = .ok m) (hkind : st.kind = st'.kind)
    (hdet : st.kind.determined = true) : st.normal = st'.normal := by
  have heq : st.signedBytes P = st'.signedBytes P := h.trans h'.symm
  cases st with
  | body | presence => contradiction
  | binding pk eid =>
      cases st' <;> try contradiction
      obtain ⟨rfl, rfl⟩ := deviceBindingPreimage_injective (Except.ok.inj heq)
      rfl
  | revocation pk eid issuedAt =>
      cases st' <;> try contradiction
      obtain ⟨rfl, rfl, rfl⟩ := deviceRevocationPreimage_injective (Except.ok.inj heq)
      rfl
  | introduction pk eid upk =>
      cases st' <;> try contradiction
      obtain ⟨rfl, rfl, hupk⟩ := introducePreimage_injective (Except.ok.inj heq)
      rw [Statement.normal, Statement.normal, hupk]
  | rotation orgId pk =>
      cases st' <;> try contradiction
      obtain ⟨rfl, rfl⟩ := orgRotationPreimage_injective (Except.ok.inj heq)
      rfl
  | app domain msg =>
      cases st' <;> try contradiction
      obtain ⟨rfl, rfl⟩ := appPreimage_injective (Except.ok.inj heq)
      rfl

/-- A verifier of the common shape ran `verify_strict` under the key it was
given. -/
theorem verifyStatement_ok {k : VerifyingKey P} {preimage : List UInt8} {sig : Bytes64}
    (h : verifyStatement P k.toBytes preimage sig.toList = .ok ()) :
    P.verifyStrict k.toBytes preimage sig = true := by
  obtain ⟨vk, hvk, h⟩ := bind_eq_ok.mp h
  obtain ⟨s, hs, h⟩ := bind_eq_ok.mp h
  rw [VerifyingKey.fromBytes_toBytes, okOr_some] at hvk
  rw [toArray_toList, okOr_some] at hs
  rw [← Except.ok.inj hvk, ← Except.ok.inj hs] at h
  exact ensure_eq_ok.mp h

/-- The statement that a strict verification accepted was signed. -/
theorem signed_of_verifyStatement {Signed : Bytes32 → List UInt8 → Prop}
    (ideal : IdealEd25519 P Signed) {key : Bytes32} {preimage sig : List UInt8}
    (h : verifyStatement P key preimage sig = .ok ()) : Signed key preimage := by
  simp only [verifyStatement, bind_eq_ok, okOr_eq_ok, ensure_eq_ok] at h
  obtain ⟨vk, hvk, s, -, hstrict⟩ := h
  rw [VerifyingKey.toBytes_of_fromBytes hvk] at hstrict
  exact ideal.unforgeable key preimage s hstrict

/-- An authenticated heartbeat ran `verify_strict` over its own bytes under its
own endpoint. -/
theorem Presence.authenticated_of_verify {beat : Presence} {now : Int} {eid : EndpointId}
    {sig : Bytes64} (hsig : decodeB64u P beat.sig = .ok sig.toList)
    (h : beat.verify P now = some eid) :
    P.verifyStrict eid
      (presencePreimage eid beat.userId beat.ts beat.rosterSerial beat.metadata) sig = true := by
  rw [Presence.verify] at h
  split at h
  · contradiction
  · obtain ⟨⟨eid', bytes⟩, hauth, rfl⟩ := Option.map_eq_some_iff.mp h
    rw [Presence.authenticated, hsig] at hauth
    simp only [Option.bind_eq_bind, Option.bind_eq_some_iff, Except.toOption] at hauth
    obtain ⟨e, _, vk, hvk, _, hbytes, s, hs, hauth⟩ := hauth
    rw [← Option.some.inj hbytes, toArray_toList] at hs
    rw [← Option.some.inj hs, VerifyingKey.toBytes_of_fromBytes hvk] at hauth
    split at hauth
    · rename_i hstrict
      rw [← congrArg Prod.fst (Option.some.inj hauth)]
      exact hstrict
    · contradiction

/-- Every verifier of the family checks the bytes of the very statement it is
asked about. -/
theorem verifyStrict_of_verifies {k : VerifyingKey P} {sig : Bytes64} {st : Statement}
    (h : st.Verifies P k sig) :
    ∃ m, st.signedBytes P = .ok m ∧ P.verifyStrict k.toBytes m sig = true := by
  cases st with
  | binding pk eid =>
      obtain ⟨rfl, h⟩ := h
      exact ⟨_, rfl, verifyStatement_ok h⟩
  | revocation pk eid issuedAt =>
      obtain ⟨rfl, h⟩ := h
      exact ⟨_, rfl, verifyStatement_ok h⟩
  | introduction pk eid upk =>
      obtain ⟨rfl, h⟩ := h
      exact ⟨_, rfl, verifyStatement_ok h⟩
  | rotation orgId pk =>
      obtain ⟨s, hs, h⟩ := verifyOrgRotation_ok h
      rw [toArray_toList] at hs
      rw [← Option.some.inj hs] at h
      exact ⟨_, rfl, h⟩
  | body roster =>
      obtain ⟨hsig, h⟩ := h
      obtain ⟨canon, hcanon, h⟩ := bind_eq_ok.mp h
      obtain ⟨bytes, hbytes, h⟩ := bind_eq_ok.mp h
      obtain ⟨s, hs, h⟩ := bind_eq_ok.mp h
      rw [hsig] at hbytes
      rw [← Except.ok.inj hbytes, toArray_toList, okOr_some] at hs
      rw [← Except.ok.inj hs] at h
      exact ⟨canon, hcanon, ensure_eq_ok.mp h⟩
  | presence eid userId ts serial metadata =>
      obtain ⟨beat, now, rfl, rfl, rfl, rfl, rfl, hsig, h⟩ := h
      exact ⟨_, rfl, Presence.authenticated_of_verify hsig h⟩
  | app domain msg =>
      rw [Statement.Verifies, verifyApp, VerifyingKey.fromBytes_toBytes] at h
      exact ⟨_, rfl, h⟩

/-- Statements are domain separated and injective: equal bytes are bytes of
one kind and, for the determined kinds, of one statement; so a signature made
for a statement verifies for that statement only. -/
theorem statements_separated (hjcs : JcsObjectText P) (ideal : IdealSignatures P Made) :
    (∀ (st st' : Statement) m, st.signedBytes P = .ok m → st'.signedBytes P = .ok m →
      st.kind = st'.kind ∧ (st.kind.determined = true → st.normal = st'.normal)) ∧
    ∀ k (st : Statement) sig m, st.signedBytes P = .ok m → Made k m sig →
      ∀ (k' : VerifyingKey P) (st' : Statement), st'.Verifies P k' sig →
        k = k'.toBytes ∧ st.kind = st'.kind ∧
          (st.kind.determined = true → st.normal = st'.normal) := by
  have hsep : ∀ (st st' : Statement) m, st.signedBytes P = .ok m → st'.signedBytes P = .ok m →
      st.kind = st'.kind ∧ (st.kind.determined = true → st.normal = st'.normal) := by
    intro st st' m h h'
    have hkind := statementTags.eq_of_prefix (tag_begins hjcs h) (tag_begins hjcs h')
    exact ⟨hkind, normal_eq_of_signedBytes h h' hkind⟩
  refine ⟨hsep, fun k st sig m hm hmade k' st' hver => ?_⟩
  obtain ⟨m', hm', hstrict⟩ := verifyStrict_of_verifies hver
  obtain ⟨rfl, rfl⟩ := ideal.made_once _ _ _ _ sig hmade (ideal.unforgeable _ _ _ hstrict)
  exact ⟨rfl, hsep st st' m hm hm'⟩

end Separation

/-! ### an introduction under the computing primitives -/

namespace Instance

theorem jcsObjectText (keys : List Bytes32) (made : List Signature) :
    JcsObjectText (primitives keys made) := by
  intro entries bytes h
  obtain ⟨text, htext, h⟩ := bind_eq_ok.mp h
  rw [canonical] at htext
  obtain ⟨members, _, htext⟩ := bind_eq_ok.mp htext
  rw [← Except.ok.inj h, ← Except.ok.inj htext]
  exact List.prefix_append [0x7b] _

/-- Signatures that all differ were made once each. -/
theorem idealSignatures_of_table (keys : List Bytes32) {made : List Signature}
    (hnodup : (made.map (·.sig)).Nodup) :
    IdealSignatures (primitives keys made) (fun k m s => ⟨k, m, s⟩ ∈ made) where
  unforgeable k m s h := of_decide_eq_true h
  made_once k k' m m' s h h' := by
    have heq := List.inj_on_of_nodup_map hnodup h h' rfl
    exact ⟨congrArg Signature.key heq, congrArg Signature.message heq⟩

/-- The root key introduced `ownId`, without a user key for it. -/
def introduced : List Signature := [⟨rootKey, introducePreimage rootKey ownId none, sigOf 1⟩]

/-- The introduction is no device binding. -/
theorem introduction_binds_nothing :
    ¬ (Statement.binding rootKey ownId).Verifies (primitives [rootKey] introduced)
      ⟨rootKey, by decide⟩ (sigOf 1) := by
  intro hver
  have hsep := (statements_separated (jcsObjectText [rootKey] introduced)
    (idealSignatures_of_table [rootKey] (by decide))).2 rootKey
      (.introduction rootKey ownId none) (sigOf 1) _ rfl List.mem_cons_self _ _ hver
  exact absurd hsep.2.1 (by decide)

end Instance

end Mcpmesh
