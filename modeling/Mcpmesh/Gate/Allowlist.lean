import Mcpmesh.Roster.Schema

/-!
# Mcpmesh.Gate.Allowlist

The pair allowlist (`node/src/allowlist.rs`): the three tables of `PeerStore`
as its readers see them, the decision `decideAdmission` over them, and the
pairing gate.

A read of a table may fail and a row may be corrupt: every failed read refuses,
and a corrupt pair row is no pair row.
-/

namespace Mcpmesh

open Lib

/-- One pair-allowlist entry. -/
structure PeerEntry where
  endpointId : EndpointId
  nickname : String
  services : List String
  pairedAt : Option String
  userId : Option String
  lastAddr : Option String

/-- What a gate resolves an endpoint to. -/
structure PeerIdentity where
  endpoint : EndpointId
  name : String
  userId : Option String
  groups : List String

/-- The pair store's answer for one endpoint: refused on revocation grounds,
no readable pair row, or a live pair row that nothing revokes. -/
inductive Admission where
  | refused
  | unpaired
  | admitted (e : PeerEntry)

/-- `state.redb` as its readers see it: each lookup fails or yields the raw
row, and `fromSlice` reads a pair row. -/
structure PeerStore where
  revoked : EndpointId → Except String (Option (List UInt8))
  peers : EndpointId → Except String (Option (List UInt8))
  revokedUsers : String → Except String (Option (List UInt8))
  fromSlice : List UInt8 → Except String PeerEntry

/-! ## admission -/

/-- The decision over the three reads, in precedence order: the endpoint
revocation table, the pair row, the identity revocation table on the row's
`user_id`.  Any failed read refuses. -/
def decideAdmission (fromSlice : List UInt8 → Except String PeerEntry)
    (endpointRevoked : Except String Bool) (pairRow : Except String (Option (List UInt8)))
    (identityRevoked : String → Except String Bool) : Admission :=
  let decide : Except String Admission := do
    if ← endpointRevoked then .ok .refused
    else
      match ← pairRow with
      | none => .ok .unpaired
      | some raw =>
          match fromSlice raw with
          | .error _ => .ok .unpaired
          | .ok entry =>
              match entry.userId with
              | none => .ok (.admitted entry)
              | some uid =>
                  if ← identityRevoked uid then .ok .refused
                  else .ok (.admitted entry)
  match decide with
  | .ok admission => admission
  | .error _ => .refused

namespace PeerStore

variable (store : PeerStore)

/-- Whether a `b64u:` identity is revoked; an unreadable table answers yes. -/
def isUserRevoked (userId : String) : Bool :=
  match store.revokedUsers userId with
  | .ok row => row.isSome
  | .error _ => true

/-- Whether a roster `user_id` is spelled as a revoked pairing identity. -/
def isRosterUserRevoked (rosterUserId : String) : Bool :=
  b64uPrefix.toList.isPrefixOf rosterUserId.toList && store.isUserRevoked rosterUserId

/-- What this store alone decides about one endpoint. -/
def admission (endpoint : EndpointId) : Admission :=
  decideAdmission store.fromSlice ((store.revoked endpoint).map (·.isSome))
    (store.peers endpoint) (fun uid => (store.revokedUsers uid).map (·.isSome))

/-- Whether the endpoint is refused on revocation grounds. -/
def isRefused (endpoint : EndpointId) : Bool :=
  match store.admission endpoint with
  | .refused => true
  | .unpaired | .admitted _ => false

/-- The pair row of the endpoint is there and readable. -/
def PairRow (endpoint : EndpointId) (entry : PeerEntry) : Prop :=
  ∃ raw, store.peers endpoint = .ok (some raw) ∧ store.fromSlice raw = .ok entry

end PeerStore

/-- The pairing-mode identity of an admitted row. -/
def identityOf (endpoint : EndpointId) (e : PeerEntry) : PeerIdentity :=
  { endpoint, userId := e.userId, name := e.nickname, groups := [] }

/-! ## what an answer says -/

section Answers

variable {store : PeerStore} {endpoint : EndpointId}

/-- A live pair row is admitted or refused, whatever the revocation tables say. -/
theorem admission_of_pairRow {entry : PeerEntry} (h : store.PairRow endpoint entry) :
    store.admission endpoint = .admitted entry ∨ store.admission endpoint = .refused := by
  obtain ⟨raw, hraw, hentry⟩ := h
  unfold PeerStore.admission decideAdmission
  rw [hraw]
  cases store.revoked endpoint with
  | error e => exact .inr rfl
  | ok row =>
      cases row with
      | some r => exact .inr rfl
      | none =>
          simp only [Except.map, Option.isSome_none, ok_bind, Bool.false_eq_true, if_false, hentry]
          cases entry.userId with
          | none => exact .inl rfl
          | some uid =>
              dsimp only
              cases store.revokedUsers uid with
              | error e => exact .inr rfl
              | ok row =>
                  cases row with
                  | none => exact .inl rfl
                  | some r => exact .inr rfl

/-- An admitted row is the endpoint's pair row. -/
theorem pairRow_of_admitted {entry : PeerEntry} (h : store.admission endpoint = .admitted entry) :
    store.PairRow endpoint entry := by
  have hread : ∃ raw entry', store.peers endpoint = .ok (some raw) ∧
      store.fromSlice raw = .ok entry' := by
    unfold PeerStore.admission decideAdmission at h
    cases hrev : store.revoked endpoint with
    | error e => rw [hrev] at h; contradiction
    | ok row =>
        cases row with
        | some r => rw [hrev] at h; contradiction
        | none =>
            rw [hrev] at h
            cases hraw : store.peers endpoint with
            | error e => rw [hraw] at h; contradiction
            | ok row =>
                cases row with
                | none => rw [hraw] at h; contradiction
                | some raw =>
                    cases hentry : store.fromSlice raw with
                    | ok entry' => exact ⟨raw, entry', rfl, hentry⟩
                    | error e =>
                        simp only [hraw, hentry, Except.map, Option.isSome_none, ok_bind,
                          Bool.false_eq_true, if_false] at h
                        contradiction
  obtain ⟨raw, entry', hraw, hentry⟩ := hread
  obtain hadm | hadm := admission_of_pairRow ⟨raw, hraw, hentry⟩
  · rw [h] at hadm
    obtain rfl := Admission.admitted.inj hadm
    exact ⟨raw, hraw, hentry⟩
  · rw [h] at hadm; contradiction

theorem admitted_of_pairRow {entry : PeerEntry} (h : store.PairRow endpoint entry)
    (hlive : store.isRefused endpoint = false) : store.admission endpoint = .admitted entry := by
  obtain hadm | hadm := admission_of_pairRow h
  · exact hadm
  · rw [PeerStore.isRefused, hadm] at hlive; contradiction

/-- **The grounds of a refusal**: the endpoint table, the identity of the pair
row, or a read that failed. -/
theorem isRefused_iff : store.isRefused endpoint = true ↔
    store.revoked endpoint ≠ .ok none ∨ (∃ e, store.peers endpoint = .error e) ∨
      ∃ entry userId, store.PairRow endpoint entry ∧ entry.userId = some userId ∧
        store.isUserRevoked userId = true := by
  unfold PeerStore.isRefused PeerStore.admission decideAdmission PeerStore.PairRow
  cases store.revoked endpoint with
  | error e => simp [Except.map, bind, Except.bind]
  | ok row =>
      cases row with
      | some r => simp [Except.map]
      | none =>
          simp only [Except.map, Option.isSome_none, ok_bind, Bool.false_eq_true, if_false]
          cases hraw : store.peers endpoint with
          | error e => simp [bind, Except.bind]
          | ok row =>
              cases row with
              | none => simp
              | some raw =>
                  cases hentry : store.fromSlice raw with
                  | error e => simp [hentry]
                  | ok entry =>
                      cases huser : entry.userId with
                      | none => simp [hentry, huser]
                      | some userId =>
                          unfold PeerStore.isUserRevoked
                          cases hid : store.revokedUsers userId with
                          | error e => simp [hentry, huser, hid, bind, Except.bind]
                          | ok row =>
                              cases row with
                              | none => simp [hentry, huser, hid]
                              | some r => simp [hentry, huser, hid]

end Answers

end Mcpmesh
