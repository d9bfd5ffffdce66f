import Mcpmesh.Lib.Base32
import Mcpmesh.Lib.Wire
import Mcpmesh.Pairing.Invites
import Mathlib

/-!
# Mcpmesh.Pairing.InviteLine

The one copyable line of an invite (`Invite::encode`, `Invite::decode`,
`is_enrollment_line`, `node/src/pairing/mod.rs`).

The scheme says which ceremony the line is for, and `decode` refuses a payload
that says otherwise, so the scheme alone answers for every line that decodes.
The base32 of the payload has one case only: a payload retyped in another case
is another text.
-/

namespace Mcpmesh

open Lib

/-- What the line codec uses: `data_encoding::BASE32_NOPAD`, and the JSON of an
invite. -/
structure InviteCodec where
  base32Encode : List UInt8 → String
  base32Decode : String → Option (List UInt8)
  base32Decode_encode : ∀ bytes, base32Decode (base32Encode bytes) = some bytes
  /-- A symbol outside `[A-Z2-7]` is an error. -/
  base32Decode_alphabet : ∀ s bytes, base32Decode s = some bytes →
    ∀ c ∈ s.toList, c.isUpper = true ∨ '2' ≤ c ∧ c ≤ '7'
  /-- `serde_json::to_vec`. -/
  toVec : Invite → List UInt8
  /-- `serde_json::from_slice`. -/
  fromSlice : List UInt8 → Except String Invite
  fromSlice_toVec : ∀ invite, fromSlice (toVec invite) = .ok invite

def inviteScheme : String := "mcpmesh-invite:"

def enrollScheme : String := "mcpmesh-enroll:"

/-- `line.starts_with(ENROLL_SCHEME)` -/
def isEnrollmentLine (line : String) : Bool := enrollScheme.toList.isPrefixOf line.toList

namespace Invite

/-- The invite as it travels: our name for the redeemer stays here. -/
def wire (i : Invite) : Invite := { i with peerNickname := none }

def scheme (i : Invite) : String := if i.asSelf then enrollScheme else inviteScheme

section Line

variable (C : InviteCodec)

/-- What follows the scheme. -/
def payload (i : Invite) : String := C.base32Encode (C.toVec i.wire)

/-- `Invite::encode` -/
def encode (i : Invite) : String := i.scheme ++ i.payload C

/-- `Invite::decode` -/
def decode (line : String) : Except String Invite := do
  let payload ← okOr ((stripPrefix inviteScheme line).or (stripPrefix enrollScheme line))
    ("not an mcpmesh invite (missing " ++ inviteScheme ++ " scheme)")
  let json ← okOr (C.base32Decode payload) "invite payload is not valid base32"
  let invite ← (C.fromSlice json).mapError fun _ => "invite payload is not a valid invite"
  let schemeSaysSelf := isEnrollmentLine line
  ensure (invite.asSelf = schemeSaysSelf) <|
    "invite scheme and as_self disagree — refusing rather than guessing which ceremony " ++
      "this line is for"
  .ok invite

end Line

/-- A payload typed in any case. -/
def Retyped (typed payload : String) : Prop :=
  typed.toList.map Char.toUpper = payload.toList

instance (typed payload : String) : Decidable (Retyped typed payload) :=
  inferInstanceAs (Decidable (typed.toList.map Char.toUpper = payload.toList))

variable {C : InviteCodec} {i : Invite} {line typed : String}

/-! ## the schemes -/

theorem not_both_schemes (line : String) :
    ¬ (inviteScheme.toList <+: line.toList ∧ enrollScheme.toList <+: line.toList) := by
  intro ⟨hinvite, henroll⟩
  have hsame := List.prefix_of_prefix_length_le hinvite henroll (by decide)
  exact absurd hsame (by decide)

theorem isEnrollmentLine_iff : isEnrollmentLine line = true ↔ enrollScheme.toList <+: line.toList :=
  List.isPrefixOf_iff_prefix

/-- The scheme of a line that was minted, whatever follows it. -/
theorem isEnrollmentLine_scheme (i : Invite) (rest : String) :
    isEnrollmentLine (i.scheme ++ rest) = i.asSelf := by
  rw [Bool.eq_iff_iff, isEnrollmentLine_iff, scheme]
  cases i.asSelf with
  | true => simp
  | false =>
      simp only [Bool.false_eq_true, if_false, iff_false]
      intro henroll
      exact not_both_schemes _ ⟨by simp, henroll⟩

/-- What was stripped off is a prefix. -/
theorem prefix_of_stripPrefix {pre s rest : String} (h : stripPrefix pre s = some rest) :
    pre.toList <+: s.toList := by
  rw [← append_of_stripPrefix h, String.toList_append]
  exact List.prefix_append _ _

/-- Either scheme is stripped off. -/
theorem payload_of_scheme (i : Invite) (rest : String) :
    (stripPrefix inviteScheme (i.scheme ++ rest)).or
      (stripPrefix enrollScheme (i.scheme ++ rest)) = some rest := by
  rw [scheme]
  cases i.asSelf with
  | true =>
      have hother : stripPrefix inviteScheme (enrollScheme ++ rest) = none := by
        by_contra hsome
        obtain ⟨_, hstrip⟩ := Option.ne_none_iff_exists'.mp hsome
        exact not_both_schemes _ ⟨prefix_of_stripPrefix hstrip, by simp⟩
      simp [hother, stripPrefix_append]
  | false => simp [stripPrefix_append]

/-! ## the payload -/

/-- Of a minted line with any payload after its scheme. -/
theorem decode_scheme {rest : String} : decode C (i.scheme ++ rest) = .ok i.wire ↔
    ∃ json, C.base32Decode rest = some json ∧ C.fromSlice json = .ok i.wire := by
  have hself : isEnrollmentLine (i.scheme ++ rest) = i.wire.asSelf := isEnrollmentLine_scheme i rest
  simp only [decode, payload_of_scheme, okOr_some, ok_bind, bind_eq_ok, okOr_eq_ok, mapError_eq_ok,
    ensure_eq_ok, decide_eq_true_eq, hself]
  constructor
  · rintro ⟨json, hjson, invite, hinvite, -, -, hdone⟩
    obtain rfl := Except.ok.inj hdone
    exact ⟨json, hjson, hinvite⟩
  · rintro ⟨json, hjson, hinvite⟩
    exact ⟨json, hjson, i.wire, hinvite, (), rfl, rfl⟩

theorem decode_encode (i : Invite) : decode C (i.encode C) = .ok i.wire := by
  rw [encode, decode_scheme]
  exact ⟨C.toVec i.wire, C.base32Decode_encode _, C.fromSlice_toVec i.wire⟩

/-- The alphabet has no lower-case letter. -/
theorem not_isLower_of_alphabet {c : Char} (h : c.isUpper = true ∨ '2' ≤ c ∧ c ≤ '7') :
    c.isLower = false := by
  have hval : ∀ d : Char, d.val.toNat = d.toNat := fun d => rfl
  simp only [Char.isUpper, Char.le_def, ge_iff_le, UInt32.le_iff_toNat_le, hval,
    decide_eq_true_eq] at h
  simp only [Char.isLower, ge_iff_le, UInt32.le_iff_toNat_le, hval, Bool.and_eq_false_iff,
    decide_eq_false_iff_not]
  simp at h ⊢
  omega

/-- Without a lower-case letter nothing was retyped. -/
theorem eq_of_retyped {payload : String} (h : Retyped typed payload)
    (hupper : ∀ c ∈ typed.toList, c.isLower = false) : typed = payload := by
  have hsame : ∀ c ∈ typed.toList, c.toUpper = id c :=
    fun c hc => Char.toUpper_eq_of_not_isLower (by simp [hupper c hc])
  have hmap := List.map_congr_left hsame
  rw [Retyped, hmap, List.map_id] at h
  exact String.toList_inj.mp h

/-- **The invite line codec.**  A minted line decodes to the invite as it
travels, retyped exactly when no letter of its payload is in lower case; and of
every line that decodes the scheme says which ceremony it is for. -/
theorem invite_line_codec (C : InviteCodec) :
    (∀ i : Invite, decode C (i.encode C) = .ok i.wire) ∧
    (∀ (i : Invite) (typed : String), Retyped typed (i.payload C) →
      (decode C (i.scheme ++ typed) = .ok i.wire ↔ ∀ c ∈ typed.toList, c.isLower = false)) ∧
    (∀ line i, decode C line = .ok i → isEnrollmentLine line = i.asSelf) ∧
    ∀ line : String,
      ¬ (inviteScheme.toList <+: line.toList ∧ enrollScheme.toList <+: line.toList) := by
  refine ⟨decode_encode, ?_, ?_, not_both_schemes⟩
  · intro i typed htyped
    constructor
    · intro h c hc
      obtain ⟨json, hjson, -⟩ := decode_scheme.mp h
      exact not_isLower_of_alphabet (C.base32Decode_alphabet typed json hjson c hc)
    · intro hupper
      rw [eq_of_retyped htyped hupper]
      exact decode_encode i
  · intro line i h
    simp only [decode, bind_eq_ok, ensure_eq_ok, decide_eq_true_eq] at h
    obtain ⟨_, -, _, -, invite, -, _, hself, hdone⟩ := h
    obtain rfl := Except.ok.inj hdone
    exact hself.symm

end Invite

/-! ### a line typed by hand -/

namespace TypedLine

/-- A number by its digits. -/
def natWire : Wire Nat :=
  Wire.string.map (fun s => Nat.ofDigitChars 10 s.toList 0) Nat.repr fun n => by
    simp [Nat.toList_repr]

def boolWire : Wire Bool :=
  Wire.char.map (· = '1') (fun b => if b then '1' else '0') fun b => by cases b <;> rfl

/-- The fields of an invite, in their order. -/
def inviteWire : Wire Invite :=
  ((Wire.ofVector 32).pair ((Wire.ofVector 32).pair (Wire.string.pair (Wire.string.pair
    (Wire.string.list.pair (natWire.pair (Wire.string.option.pair (Wire.string.option.pair
      (boolWire.pair natWire))))))))).map
    (fun f => ⟨f.1, f.2.1, f.2.2.1, f.2.2.2.1, f.2.2.2.2.1, f.2.2.2.2.2.1, f.2.2.2.2.2.2.1,
      f.2.2.2.2.2.2.2.1, f.2.2.2.2.2.2.2.2.1, f.2.2.2.2.2.2.2.2.2⟩)
    (fun i => (i.secret, i.inviterId, i.inviterAddrJson, i.nickname, i.services, i.expiresAtEpoch,
      i.appLabel, i.peerNickname, i.asSelf, i.usesRemaining))
    fun _ => rfl

theorem base32_alphabet {s : String} {bytes : List UInt8} (h : Base32.decode s = some bytes) :
    ∀ c ∈ s.toList, c.isUpper = true ∨ '2' ≤ c ∧ c ≤ '7' := by
  have hval : ∀ d : Char, d.val.toNat = d.toNat := fun d => rfl
  intro c hc
  have hsome := Base32.decode_alphabet h c hc
  simp only [Base32.ofSymbol] at hsome
  simp only [Char.isUpper, Char.le_def, ge_iff_le, UInt32.le_iff_toNat_le, hval,
    decide_eq_true_eq]
  simp
  grind

/-- The RFC's base32, and rows of bytes in place of the JSON. -/
def codec : InviteCodec where
  base32Encode := Base32.encode
  base32Decode := Base32.decode
  base32Decode_encode := Base32.decode_encode
  base32Decode_alphabet _ _ := base32_alphabet
  toVec := inviteWire.put
  fromSlice raw :=
    match inviteWire.get raw with
    | some (invite, []) => .ok invite
    | _ => .error "malformed invite"
  fromSlice_toVec invite := by
    have hget : inviteWire.get (inviteWire.put invite) = some (invite, []) := by
      simpa using inviteWire.get_put invite []
    rw [hget]

def invite : Invite := TwoUses.invite 7 1

/-- The payload in lower case. -/
def typed : String := .ofList ((invite.payload codec).toList.map Char.toLower)

end TypedLine

open TypedLine in
/-- The payload in lower case is no payload. -/
theorem lower_case_line_refused :
    Invite.decode codec (invite.encode codec) = .ok invite.wire ∧
      Invite.Retyped typed (invite.payload codec) ∧
      Invite.decode codec (invite.scheme ++ typed) =
        .error "invite payload is not valid base32" := by
  have hsymbols : (invite.payload codec).toList =
      (Base32.toQuintets (inviteWire.put invite.wire)).map Base32.toSymbol :=
    String.toList_ofList
  have htyped : typed.toList = (invite.payload codec).toList.map Char.toLower :=
    String.toList_ofList
  have hrefused : codec.base32Decode typed = none := by
    rw [show codec.base32Decode = Base32.decode from rfl, Base32.decode, htyped, hsymbols]
    decide +kernel
  refine ⟨Invite.decode_encode invite, ?_, ?_⟩
  · rw [Invite.Retyped, htyped, hsymbols]
    decide +kernel
  · rw [Invite.decode, Invite.payload_of_scheme, okOr_some, ok_bind, hrefused]
    rfl

end Mcpmesh
