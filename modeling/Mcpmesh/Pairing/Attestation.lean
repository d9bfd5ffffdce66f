import Mcpmesh.Pairing.Instance

/-!
# Mcpmesh.Pairing.Attestation

The authorization of a device attestation (`attestation_decision`,
`node/src/pairing/rendezvous.rs`) over a store whose reads may fail.

An attestation admits another device of a person that some row already stands
for.  What it hands out is the intersection over all rows of the person, so it
widens no grant.  Where every read succeeds the decision is the one of
`Pairing.Rows` (`attestationDecision_tables`).
-/

namespace Mcpmesh

open Lib

/-- The store with the scan of its pair table, in key order: `table.iter()`
fails, or yields the raw rows. -/
structure PeerTables extends PeerStore where
  iter : Except String (List (List UInt8))

/-- The caller's only frame; `redeemerId` is what the caller claims. -/
structure RedeemerHello where
  secret : List.Vector UInt8 32
  redeemerId : EndpointId
  redeemerNickname : String
  userPk : Option String
  bindingSig : Option String
  attest : Bool

/-- `InviterCtx`, what the decision reads of it. -/
structure InviterCtx where
  store : PeerTables
  /-- `[identity].admit_attested_devices`. -/
  admitAttested : Bool

namespace PeerTables

variable (t : PeerTables)

/-- Whether an endpoint is revoked; an unreadable table answers yes. -/
def isRevoked (eid : EndpointId) : Bool :=
  match t.revoked eid with
  | .ok row => row.isSome
  | .error _ => true

/-- `PeerStore::list`: corrupt rows are skipped. -/
def list : Except String (List PeerEntry) := do
  let rows ← t.iter
  .ok (rows.filterMap fun raw => (t.fromSlice raw).toOption)

def entriesForUser (userId : String) : Except String (List PeerEntry) := do
  let entries ← t.list
  .ok (entries.filter fun e => e.userId = some userId)

/-- A row of the pair table that reads as this entry. -/
def Stored (e : PeerEntry) : Prop :=
  ∃ rows, t.iter = .ok rows ∧ ∃ raw ∈ rows, t.fromSlice raw = .ok e

end PeerTables

section Decision

variable (P : Primitives)

/-- `attestation_decision`; the error is a reason for the log. -/
def InviterCtx.attestationDecision (ctx : InviterCtx) (hello : RedeemerHello) (tlsId : EndpointId) :
    Except String AdmitPlan := do
  ensure ctx.admitAttested "not enabled on this node"
  match hello.userPk, hello.bindingSig with
  | some userPk, some sig =>
      let userId ← (verifyPresented P userPk sig tlsId).mapError fun _ =>
        "binding does not verify against the authenticated endpoint"
      ensure (!ctx.store.isRevoked tlsId) "endpoint is revoked"
      ensure (!ctx.store.isUserRevoked userId) "identity is revoked"
      let existing ← (ctx.store.entriesForUser userId).mapError fun _ => "peer store read failed"
      match existing with
      | [] => .error "no existing row for that identity"
      | first :: rest =>
          .ok { userId, nickname := first.nickname, services := sharedServices first rest }
  | _, _ => .error "no binding presented"

/-- What an attestation needs: the owner's leave, a binding of the TLS
endpoint that proves `userId`, neither of them revoked, and a row that
`userId` already has. -/
structure Attestable (ctx : InviterCtx) (hello : RedeemerHello) (tlsId : EndpointId)
    (userId : String) : Prop where
  enabled : ctx.admitAttested = true
  proven : ∃ userPk sig, hello.userPk = some userPk ∧ hello.bindingSig = some sig ∧
    verifyPresented P userPk sig tlsId = .ok userId
  endpoint : ctx.store.revoked tlsId = .ok none
  identity : ctx.store.revokedUsers userId = .ok none
  known : ∃ e, ctx.store.Stored e ∧ e.userId = some userId

end Decision

/-! ## the reads -/

section Reads

variable {t : PeerTables} {userId : String} {entries : List PeerEntry}

theorem PeerTables.isRevoked_eq_false {eid : EndpointId} :
    t.isRevoked eid = false ↔ t.revoked eid = .ok none := by
  rw [isRevoked]
  cases t.revoked eid <;> simp

theorem PeerStore.isUserRevoked_eq_false {store : PeerStore} :
    store.isUserRevoked userId = false ↔ store.revokedUsers userId = .ok none := by
  rw [isUserRevoked]
  cases store.revokedUsers userId <;> simp

/-- The rows of a person are the stored rows that carry the identity. -/
theorem PeerTables.mem_entriesForUser (h : t.entriesForUser userId = .ok entries)
    {e : PeerEntry} : e ∈ entries ↔ t.Stored e ∧ e.userId = some userId := by
  simp only [entriesForUser, list, bind_eq_ok] at h
  obtain ⟨_, ⟨rows, hiter, hlist⟩, hentries⟩ := h
  obtain rfl := Except.ok.inj hlist
  obtain rfl := Except.ok.inj hentries
  simp [Stored, hiter, toOption_eq_some]

/-- A row of the person shows that the scan succeeded. -/
theorem PeerTables.entriesForUser_of_stored {e : PeerEntry} (h : t.Stored e) :
    ∃ entries, t.entriesForUser userId = .ok entries := by
  obtain ⟨rows, hiter, -⟩ := h
  simp [entriesForUser, list, hiter]

end Reads

/-! ## the decision -/

section Attestation

variable {P : Primitives} {Signed : Bytes32 → List UInt8 → Prop} {ctx : InviterCtx}
  {hello : RedeemerHello} {tlsId : EndpointId}

/-- The holder of the user key signed for the endpoint that TLS authenticated. -/
theorem signed_of_verifyPresented (ideal : IdealEd25519 P Signed) {userPk sig userId : String}
    (h : verifyPresented P userPk sig tlsId = .ok userId) :
    ∃ pk, userId = encodeB64u P pk.toList ∧ Signed pk (deviceBindingPreimage pk tlsId) := by
  obtain ⟨bytes, pk, raw, -, -, -, hbinding, huserId⟩ := verifyPresented_ok h
  exact ⟨pk, huserId, signed_of_verifyStatement ideal hbinding⟩

/-- What a plan rests on, and what it hands out. -/
theorem attestable_of_plan {plan : AdmitPlan}
    (h : ctx.attestationDecision P hello tlsId = .ok plan) :
    Attestable P ctx hello tlsId plan.userId ∧
      ∀ svc, svc ∈ plan.services ↔
        ∀ e, ctx.store.Stored e → e.userId = some plan.userId → svc ∈ e.services := by
  simp only [InviterCtx.attestationDecision, bind_eq_ok, ensure_eq_ok] at h
  obtain ⟨-, henabled, h⟩ := h
  split at h
  · rename_i userPk sig hpk hsig
    simp only [bind_eq_ok, mapError_eq_ok, ensure_eq_ok, Bool.not_eq_true'] at h
    obtain ⟨userId, hproven, -, hendpoint, -, hidentity, existing, hentries, h⟩ := h
    split at h
    · contradiction
    · rename_i first rest
      obtain rfl := Except.ok.inj h
      have hmem : ∀ e, e ∈ first :: rest ↔ ctx.store.Stored e ∧ e.userId = some userId :=
        fun e => PeerTables.mem_entriesForUser hentries
      constructor
      · exact
          { enabled := henabled
            proven := ⟨userPk, sig, hpk, hsig, hproven⟩
            endpoint := PeerTables.isRevoked_eq_false.mp hendpoint
            identity := PeerStore.isUserRevoked_eq_false.mp hidentity
            known := ⟨first, (hmem first).mp List.mem_cons_self⟩ }
      · intro svc
        simp [mem_sharedServices, hmem]
  · contradiction

/-- Nothing else stands in the way of a plan. -/
theorem plan_of_attestable {userId : String} (h : Attestable P ctx hello tlsId userId) :
    ∃ plan, ctx.attestationDecision P hello tlsId = .ok plan := by
  obtain ⟨userPk, sig, hpk, hsig, hproven⟩ := h.proven
  obtain ⟨e, hstored, huser⟩ := h.known
  have hread : ∃ entries, ctx.store.entriesForUser userId = .ok entries :=
    PeerTables.entriesForUser_of_stored hstored
  obtain ⟨entries, hentries⟩ := hread
  have hmem : e ∈ entries := (PeerTables.mem_entriesForUser hentries).mpr ⟨hstored, huser⟩
  have hendpoint := PeerTables.isRevoked_eq_false.mpr h.endpoint
  have hidentity := PeerStore.isUserRevoked_eq_false.mpr h.identity
  cases entries with
  | nil => simp at hmem
  | cons first rest =>
      simp [InviterCtx.attestationDecision, h.enabled, hpk, hsig, hproven, hendpoint, hidentity,
        hentries]

/-- **Attestation never widens trust**: a plan stands for the person whom the
binding of the TLS endpoint proves, exists exactly when an attestation may
succeed, and grants only what every row of the person grants. -/
theorem attestation_never_widens (ideal : IdealEd25519 P Signed) (ctx : InviterCtx)
    (hello : RedeemerHello) (tlsId : EndpointId) :
    (∀ plan, ctx.attestationDecision P hello tlsId = .ok plan →
      Attestable P ctx hello tlsId plan.userId ∧
      (∃ pk, plan.userId = encodeB64u P pk.toList ∧ Signed pk (deviceBindingPreimage pk tlsId)) ∧
      ∀ e, ctx.store.Stored e → e.userId = some plan.userId → plan.services ⊆ e.services) ∧
    ((∃ userId, Attestable P ctx hello tlsId userId) →
      ∃ plan, ctx.attestationDecision P hello tlsId = .ok plan) := by
  constructor
  · intro plan h
    obtain ⟨hattestable, hservices⟩ := attestable_of_plan h
    obtain ⟨userPk, sig, -, -, hproven⟩ := hattestable.proven
    have hsigned := signed_of_verifyPresented ideal hproven
    have hsubset : ∀ e, ctx.store.Stored e → e.userId = some plan.userId →
        plan.services ⊆ e.services := by
      intro e hstored huser svc hsvc
      exact (hservices svc).mp hsvc e hstored huser
    exact ⟨hattestable, hsigned, hsubset⟩
  · rintro ⟨userId, h⟩
    exact plan_of_attestable h

end Attestation

/-! ### a new laptop -/

namespace NewDevice

open Instance

def carolKey : Bytes32 := .replicate 32 12

def carolId : String := b64u carolKey.toList

def newLaptop : EndpointId := .replicate 32 5

/-- Carol signed for her new laptop. -/
def made : List Signature := [⟨carolKey, deviceBindingPreimage carolKey newLaptop, sigOf 1⟩]

def primitives : Primitives := Instance.primitives [carolKey] made

def row (n : UInt8) (services : List String) : List UInt8 :=
  peerJson.toVec
    { endpointId := .replicate 32 n, nickname := "carol", services, pairedAt := none
      userId := some carolId, lastAddr := none }

/-- Her laptop has two services, her phone one of them, and one row is corrupt. -/
def ctx : InviterCtx where
  store :=
    { revoked := fun _ => .ok none
      peers := fun _ => .ok none
      revokedUsers := fun _ => .ok none
      fromSlice := peerJson.fromSlice
      iter := .ok [row 2 ["notes", "files"], [0x7b], row 3 ["files"]] }
  admitAttested := true

def hello : RedeemerHello where
  secret := .replicate 32 0
  redeemerId := newLaptop
  redeemerNickname := "carol"
  userPk := some carolId
  bindingSig := some (b64u (sigOf 1).toList)
  attest := true

theorem ideal : IdealEd25519 primitives (Signed made) :=
  ideal_of_table [carolKey] (by decide +kernel)

end NewDevice

open NewDevice in
theorem attestation_never_widens_example :
    ∃ plan, ctx.attestationDecision primitives hello newLaptop = .ok plan ∧
      plan.services = ["files"] ∧ Attestable primitives ctx hello newLaptop plan.userId := by
  have hplan : (ctx.attestationDecision primitives hello newLaptop).toOption.map (·.services) =
      some ["files"] := by decide +kernel
  obtain ⟨plan, hdecision, hservices⟩ := Option.map_eq_some_iff.mp hplan
  have hdecision := toOption_eq_some.mp hdecision
  have hwhole := attestation_never_widens ideal ctx hello newLaptop
  exact ⟨plan, hdecision, hservices, (hwhole.1 plan hdecision).1⟩

/-! ## over the tables -/

section Tables

variable {P : Primitives} {J : PeerJson}

/-- The tables of `state.redb` when every read succeeds. -/
def PairDb.tables (J : PeerJson) (db : PairDb) : PeerTables :=
  { db.store J with iter := .ok (db.peers.map (·.2)) }

/-- The decision of the attestation writer is this one. -/
theorem attestationDecision_tables (db : PairDb) (admitAttested : Bool) (hello : RedeemerHello)
    (tlsId : EndpointId) (now : String) :
    InviterCtx.attestationDecision P { store := db.tables J, admitAttested } hello tlsId =
      attestationDecision P J db
        { admitAttested, now
          hello :=
            { tlsId, redeemerNickname := hello.redeemerNickname, userPk := hello.userPk
              bindingSig := hello.bindingSig } } := by
  have hrevoked : (db.tables J).isRevoked tlsId = db.isRevoked tlsId := rfl
  have hentries : ∀ userId, (db.tables J).entriesForUser userId =
      .ok (db.entriesForUser J userId) := by
    intro userId
    simp [PeerTables.entriesForUser, PeerTables.list, PairDb.tables, PairDb.entriesForUser,
      PairDb.list, PairDb.store, List.filterMap_map]
  have hstore : (db.tables J).toPeerStore = db.store J := rfl
  rw [InviterCtx.attestationDecision, attestationDecision]
  refine bind_congr fun _ => ?_
  cases hello.userPk with
  | none => rfl
  | some userPk =>
      cases hello.bindingSig with
      | none => rfl
      | some sig =>
          refine bind_congr fun userId => ?_
          rw [hrevoked, hstore]
          refine bind_congr fun _ => bind_congr fun _ => ?_
          rw [hentries, mapError_ok]
          cases db.entriesForUser J userId with
          | nil => rfl
          | cons first rest => rfl

/-- The row an attestation writes grants what every row of the person grants. -/
theorem services_of_handleAttestation {db db' : PairDb} {a : Attestation} {entry : PeerEntry}
    (h : handleAttestation P J db a = some db')
    (hentry : db'.resolve J a.hello.tlsId = some entry) :
    ∀ e ∈ db.list J, e.userId = entry.userId → entry.services ⊆ e.services := by
  intro e he huser svc hsvc
  rw [handleAttestation] at h
  split at h
  · contradiction
  · rename_i plan hplan
    obtain rfl := Option.some.inj h
    have hself : (db.add J (attestedEntry a plan (db.resolve J a.hello.tlsId))).resolve J
        a.hello.tlsId = some (attestedEntry a plan (db.resolve J a.hello.tlsId)) :=
      PairDb.resolve_add_self (attestedEntry a plan (db.resolve J a.hello.tlsId))
    obtain rfl := Option.some.inj (hself.symm.trans hentry)
    have hdecision := attestationDecision_tables (P := P) (J := J) db a.admitAttested
      { secret := .replicate 32 0, redeemerId := a.hello.tlsId
        redeemerNickname := a.hello.redeemerNickname, userPk := a.hello.userPk
        bindingSig := a.hello.bindingSig, attest := true } a.hello.tlsId a.now
    have hstored : (db.tables J).Stored e := by
      obtain ⟨r, hr, hread⟩ := List.mem_filterMap.mp he
      refine ⟨_, rfl, r.2, List.mem_map_of_mem hr, ?_⟩
      cases hraw : J.fromSlice r.2 <;> simp_all [Except.toOption, PairDb.tables, PairDb.store]
    have hservices := (attestable_of_plan (hdecision.trans hplan)).2 svc
    exact hservices.mp hsvc e hstored huser

end Tables

end Mcpmesh
