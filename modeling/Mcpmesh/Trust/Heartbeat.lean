import Mcpmesh.Trust.Statements

/-!
# Mcpmesh.Trust.Heartbeat

What the signature of a presence heartbeat covers (`node/src/roster/presence.rs`).

The signed bytes end in `user_id ∥ ts ∥ serial ∥ meta` without a length, so
they may be cut in more than one place.  They are cut in one place only once
the length of the user id is known, and `accept` knows it: the roster names the
user of the endpoint.
-/

namespace Mcpmesh

open Lib

/-- A heartbeat as `serde` reads it, with a `ts` in `i64` and a serial in `u64`. -/
structure Heartbeat extends Presence where
  ts_i64 : -2 ^ 63 ≤ ts ∧ ts < 2 ^ 63
  serial_u64 : rosterSerial < 2 ^ 64

namespace Heartbeat

/-- The bytes that the device signs. -/
def preimage (eid : EndpointId) (beat : Heartbeat) : List UInt8 :=
  presencePreimage eid beat.userId beat.ts beat.rosterSerial beat.metadata

/-- What is read from a heartbeat. -/
def fields (beat : Heartbeat) : String × Int × Nat × String :=
  (beat.userId, beat.ts, beat.rosterSerial, beat.metadata)

section Accept

variable (P : Primitives)

/-- Track-side acceptance: message-valid, and the roster's user of the
endpoint is the claimed one. -/
def accept (beat : Heartbeat) (now : Int) (view : RosterView) : Option EndpointId := do
  let eid ← beat.verify P now
  let resolved ← view.resolve eid
  if resolved.userId = beat.userId then some eid else none

end Accept

variable {P : Primitives} {Signed : Bytes32 → List UInt8 → Prop} {eid : EndpointId}
  {beat beat' : Heartbeat} {view view' : RosterView} {now now' : Int}

/-- Once the user ids have one length, the bytes are cut in one place. -/
theorem fields_eq_of_preimage (hlen : (utf8 beat.userId).length = (utf8 beat'.userId).length)
    (h : beat.preimage eid = beat'.preimage eid) : beat.fields = beat'.fields := by
  simp only [preimage, presencePreimage, List.append_assoc] at h
  obtain ⟨huser, h⟩ := List.append_inj (List.append_cancel_left (List.append_cancel_left h)) hlen
  obtain ⟨hts, h⟩ := List.append_inj h (by simp)
  obtain ⟨hserial, hmetadata⟩ := List.append_inj h (by simp)
  have hts : (beat.ts % 2 ^ 64).toNat = (beat'.ts % 2 ^ 64).toNat :=
    leBytes_injective (by omega) (by omega) hts
  have hserial : beat.rosterSerial = beat'.rosterSerial :=
    leBytes_injective beat.serial_u64 beat'.serial_u64 hserial
  have hts : beat.ts = beat'.ts := by
    have hi64 := beat.ts_i64
    have hi64' := beat'.ts_i64
    omega
  simp [fields, utf8_injective huser, hts, hserial, utf8_injective hmetadata]

/-- An accepted heartbeat is signed, and names the roster's user. -/
theorem of_accept (h : beat.accept P now view = some eid) :
    beat.verify P now = some eid ∧ (view.resolve eid).map (·.userId) = some beat.userId := by
  simp only [accept, Option.bind_eq_bind, Option.bind_eq_some_iff] at h
  obtain ⟨eid', hverify, resolved, hresolve, h⟩ := h
  split at h
  · rename_i huser
    obtain rfl := Option.some.inj h
    simp [hverify, hresolve, huser]
  · contradiction

/-- **A heartbeat signature covers what is read**, given the user: heartbeats
of one endpoint whose user ids have one length have the same fields when they
have the same preimage; so what carries the signature of an accepted heartbeat
and is accepted as well, for the same user, is that heartbeat. -/
theorem heartbeat_signature_covers (ideal : IdealEd25519 P Signed) :
    (∀ (eid : EndpointId) (beat beat' : Heartbeat),
      (utf8 beat.userId).length = (utf8 beat'.userId).length →
      beat.preimage eid = beat'.preimage eid → beat.fields = beat'.fields) ∧
    ∀ (eid : EndpointId) (beat beat' : Heartbeat) (view view' : RosterView) (now now' : Int)
      (sig : Bytes64),
      beat.accept P now view = some eid → beat'.accept P now' view' = some eid →
      decodeB64u P beat.sig = .ok sig.toList → decodeB64u P beat'.sig = .ok sig.toList →
      (view.resolve eid).map (·.userId) = (view'.resolve eid).map (·.userId) →
      beat.fields = beat'.fields := by
  constructor
  · intro eid beat beat'
    exact fields_eq_of_preimage
  · intro eid beat beat' view view' now now' sig h h' hsig hsig' hviews
    obtain ⟨hverify, huser⟩ := of_accept h
    obtain ⟨hverify', huser'⟩ := of_accept h'
    have hsame : beat.userId = beat'.userId := by
      rw [huser, huser'] at hviews
      exact Option.some.inj hviews
    have hstrict := Presence.authenticated_of_verify hsig hverify
    have hstrict' := Presence.authenticated_of_verify hsig' hverify'
    have hpreimage : beat.preimage eid = beat'.preimage eid :=
      ideal.exact_bytes eid _ _ sig hstrict hstrict'
    exact fields_eq_of_preimage (by rw [hsame]) hpreimage

end Heartbeat

/-! ### two cuts -/

namespace TwoCuts

open Instance

def phone : EndpointId := .replicate 32 4

/-- Alice's heartbeat, with a time and a serial in its metadata. -/
def beat : Heartbeat where
  t := "presence"
  endpointId := b64u phone.toList
  userId := "alice"
  ts := now
  rosterSerial := 7
  metadata := "\x00.hi\x00\x00\x00\x00\x09\x00\x00\x00\x00\x00\x00\x00"
  sig := b64u (sigOf 1).toList
  ts_i64 := by decide
  serial_u64 := by decide

/-- The same bytes cut sixteen bytes later. -/
def relayed : Heartbeat where
  t := "presence"
  endpointId := b64u phone.toList
  userId := "alice\x00.hi\x00\x00\x00\x00\x07\x00\x00\x00\x00\x00\x00\x00"
  ts := now
  rosterSerial := 9
  metadata := ""
  sig := b64u (sigOf 1).toList
  ts_i64 := by decide
  serial_u64 := by decide

def made : List Signature := [⟨phone, beat.preimage phone, sigOf 1⟩]

def primitives : Primitives := Instance.primitives [phone] made

theorem ideal : IdealEd25519 primitives (Signed made) := ideal_of_table [phone] (by decide +kernel)

def view : RosterView where
  orgId := "acme"
  serial := 7
  expiresAtEpoch := 1800000000
  revoked := ∅
  devices :=
    { map := AList.singleton phone
        { userId := "alice", displayName := "Alice", groups := [], role := "primary"
          label := "phone" }
      not_revoked := by simp }
  groups := []
  users := []

end TwoCuts

open TwoCuts in
/-- The heartbeat is accepted, the other cut of its bytes is not. -/
theorem Heartbeat.heartbeat_signature_covers_example :
    beat.accept primitives Instance.now view = some phone ∧
      relayed.accept primitives Instance.now view ≠ some phone := by
  have hcovers := (heartbeat_signature_covers ideal).2 phone beat
  have haccept : beat.accept primitives Instance.now view = some phone := by decide +kernel
  have hsig : decodeB64u primitives beat.sig = .ok (Instance.sigOf 1).toList :=
    decodeB64u_encodeB64u _ _
  have hrefused : relayed.accept primitives Instance.now view ≠ some phone := by
    intro hrelayed
    have hsame := hcovers relayed view view _ _ (Instance.sigOf 1) haccept hrelayed hsig hsig rfl
    exact absurd hsame (by decide +kernel)
  exact ⟨haccept, hrefused⟩

open TwoCuts in
/-- The relayed heartbeat has the preimage of an accepted one, verifies under
its signature, and says something else. -/
theorem Heartbeat.two_cuts_of_one_preimage :
    beat.accept primitives Instance.now view = some phone ∧
      relayed.preimage phone = beat.preimage phone ∧ relayed.sig = beat.sig ∧
      relayed.verify primitives Instance.now = some phone ∧
      relayed.userId ≠ beat.userId ∧ relayed.rosterSerial ≠ beat.rosterSerial ∧
      relayed.metadata ≠ beat.metadata := by
  have haccept : beat.accept primitives Instance.now view = some phone := by decide +kernel
  have hpreimage : relayed.preimage phone = beat.preimage phone := by decide +kernel
  have hverify : relayed.verify primitives Instance.now = some phone := by decide +kernel
  exact ⟨haccept, hpreimage, rfl, hverify, by decide, by decide, by decide⟩

end Mcpmesh
