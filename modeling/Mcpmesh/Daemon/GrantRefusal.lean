import Mcpmesh.Daemon.Revocation

/-!
# Mcpmesh.Daemon.GrantRefusal

Which entries of an allow list the node calls revoked (`principal_is_revoked`,
`node/src/daemon/handlers.rs`), held against what the composed gate admits.

The predicate reads a string: a roster whose names are spelled like the
principals of a refused device, or a group like a revoked identity, is admitted
under entries that it calls revoked (`UnrevokedNames`).
-/

namespace Mcpmesh

open Lib

theorem principalToEndpoint_eq_some {p : String} {endpoint : EndpointId} :
    principalToEndpoint p = some endpoint ↔ p = principal endpoint := by
  simp only [principalToEndpoint, Option.bind_eq_bind, Option.bind_eq_some_iff]
  constructor
  · rintro ⟨hex, hstrip, bytes, hbytes, harray⟩
    rw [toArray] at harray
    split at harray
    · obtain rfl := Option.some.inj harray
      rw [← append_of_stripPrefix hstrip, ← hexLower_hexDecode hbytes]
      rfl
    · contradiction
  · rintro rfl
    exact ⟨_, stripPrefix_append .., _, hexDecode_hexLower _, toArray_toList _⟩

/-- `principal_is_revoked` -/
def principalIsRevoked (store : PeerStore) (roster : Option RosterView) (p : String) : Bool :=
  match principalToEndpoint p with
  | some id => store.isRefused id || roster.any (·.isRevoked id)
  | none => b64uPrefix.toList.isPrefixOf p.toList && store.isUserRevoked p

namespace ComposedGate

/-- `principal_is_revoked` over the tables of the gate. -/
def refusesGrant (gate : ComposedGate) (p : String) : Bool :=
  principalIsRevoked gate.pairs gate.roster.view p

/-- The string is the device principal of an endpoint that the store refuses or
the roster revokes. -/
def NamesRefused (gate : ComposedGate) (s : String) : Prop :=
  ∃ y, s = principal y ∧ (gate.pairs.isRefused y = true ∨ gate.roster.isRevoked y = true)

variable (gate : ComposedGate) (now : Int) (endpoint : EndpointId)

/-- The grant refusal is never wider than the gate, and misses the one corner
only. -/
structure RefusalFaithful : Prop where
  not_wider : ∀ id, gate.resolve now endpoint = some id →
    ∀ p ∈ principalSet (some (principal id.endpoint)) id.userId id.groups,
      gate.refusesGrant p = false
  one_corner : gate.isRevoked now endpoint = true →
    gate.refusesGrant (principal endpoint) = true ∨ gate.IdentityGroundOnly now endpoint

/-- No name under which the answering document knows the endpoint is spelled as
a refused device, and no group as a revoked identity. -/
structure UnrevokedNames : Prop where
  ofRoster : ∀ d, gate.RosterAnswers now endpoint d →
    (∀ s ∈ d.userId :: d.groups, ¬ gate.NamesRefused s) ∧
      ∀ g ∈ d.groups, gate.pairs.isRosterUserRevoked g = false
  ofPair : ∀ entry, gate.PairAnswers now endpoint entry →
    ∀ s, entry.userId = some s → ¬ gate.NamesRefused s

variable {gate now endpoint}

/-! ## what the predicate answers -/

theorem refusesGrant_principal : gate.refusesGrant (principal endpoint) = true ↔
    gate.pairs.isRefused endpoint = true ∨ gate.roster.isRevoked endpoint = true := by
  rw [refusesGrant, principalIsRevoked, principalToEndpoint_eq_some.mpr rfl, isRevoked_eq_any,
    ← Bool.or_eq_true]

theorem refusesGrant_eq_false {s : String} : gate.refusesGrant s = false ↔
    ¬ gate.NamesRefused s ∧
      (principalToEndpoint s = none → gate.pairs.isRosterUserRevoked s = false) := by
  rw [refusesGrant, principalIsRevoked]
  cases h : principalToEndpoint s with
  | none =>
      have hnot : ¬ gate.NamesRefused s := by
        rintro ⟨y, hy, -⟩
        rw [principalToEndpoint_eq_some.mpr hy] at h
        contradiction
      simp only [hnot, not_false_eq_true, true_and, forall_const]
      rfl
  | some id =>
      obtain rfl := principalToEndpoint_eq_some.mp h
      have hrefused : gate.NamesRefused (principal id) ↔
          gate.pairs.isRefused id = true ∨ gate.roster.isRevoked id = true :=
        ⟨fun ⟨y, hy, hy'⟩ => principal_injective hy ▸ hy', fun h => ⟨id, rfl, h⟩⟩
      simp only [reduceCtorEq, false_implies, and_true, hrefused, ← isRevoked_eq_any,
        Bool.or_eq_false_iff, not_or, Bool.not_eq_true]

/-- A device principal is no `b64u:` identity. -/
theorem isRosterUserRevoked_principal {store : PeerStore} :
    store.isRosterUserRevoked (principal endpoint) = false := by
  have hnot : b64uPrefix.toList.isPrefixOf (principal endpoint).toList = false := by
    rw [principal, String.toList_append]
    rfl
  rw [PeerStore.isRosterUserRevoked, hnot, Bool.false_and]

theorem refusesGrant_group {g : String} : gate.refusesGrant g = false ↔
    ¬ gate.NamesRefused g ∧ gate.pairs.isRosterUserRevoked g = false := by
  rw [refusesGrant_eq_false]
  refine and_congr_right fun _ => ⟨fun h => ?_, fun h _ => h⟩
  cases hp : principalToEndpoint g with
  | none => exact h hp
  | some id =>
      rw [principalToEndpoint_eq_some.mp hp]
      exact isRosterUserRevoked_principal

/-- A row that the store admits carries no revoked identity. -/
theorem user_unrevoked_of_admitted {entry : PeerEntry} {userId : String}
    (h : gate.pairs.admission endpoint = .admitted entry) (huser : entry.userId = some userId) :
    gate.pairs.isUserRevoked userId = false := by
  have hlive : gate.pairs.isRefused endpoint = false := by rw [PeerStore.isRefused, h]
  rw [← Bool.not_eq_true]
  intro hrevoked
  rw [isRefused_iff.mpr (.inr (.inr ⟨entry, userId, pairRow_of_admitted h, huser, hrevoked⟩))]
    at hlive
  contradiction

/-! ## the refusal and the gate -/

theorem refusesGrant_empty : gate.refusesGrant "" = false :=
  refusesGrant_group.mpr ⟨fun ⟨y, hy, _⟩ => principal_ne_empty y hy.symm, rfl⟩

/-- The principals of an identity, each asked about. -/
theorem forall_principalSet {id : PeerIdentity} :
    (∀ p ∈ principalSet (some (principal id.endpoint)) id.userId id.groups,
      gate.refusesGrant p = false) ↔
      gate.refusesGrant (principal id.endpoint) = false ∧
        (∀ s, id.userId = some s → gate.refusesGrant s = false) ∧
          ∀ g ∈ id.groups, gate.refusesGrant g = false := by
  constructor
  · intro h
    have hof : ∀ s, (s ∈ id.groups ∨ some (principal id.endpoint) = some s ∨ id.userId = some s) →
        gate.refusesGrant s = false := by
      intro s hs
      by_cases hempty : s = ""
      · rw [hempty]
        exact refusesGrant_empty
      · exact h s (mem_principalSet.mpr ⟨hempty, hs⟩)
    exact ⟨hof _ (.inr (.inl rfl)), fun s hs => hof s (.inr (.inr hs)), fun g hg => hof g (.inl hg)⟩
  · rintro ⟨hself, huser, hgroups⟩ p hp
    obtain ⟨-, hg | hself' | hu⟩ := mem_principalSet.mp hp
    · exact hgroups p hg
    · rwa [← Option.some.inj hself']
    · exact huser p hu

/-- An endpoint that the gate resolves is granted by its own principal. -/
theorem refusesGrant_self (hkept : gate.roster.isRevoked endpoint = false)
    (hadmissible : gate.pairs.isRefused endpoint = false) :
    gate.refusesGrant (principal endpoint) = false := by
  rw [← Bool.not_eq_true, refusesGrant_principal, hkept, hadmissible]
  decide

/-- The one refusal that the predicate does not repeat. -/
theorem refusesGrant_of_isRevoked (h : gate.isRevoked now endpoint = true) :
    gate.refusesGrant (principal endpoint) = true ∨ gate.IdentityGroundOnly now endpoint := by
  cases hself : gate.refusesGrant (principal endpoint) with
  | true => exact .inl rfl
  | false =>
      have hneither := mt refusesGrant_principal.mpr (Bool.not_eq_true _ ▸ hself)
      obtain ⟨hadmissible, hkept⟩ := not_or.mp hneither
      rw [Bool.not_eq_true] at hadmissible hkept
      rw [isRevoked, hkept, hadmissible] at h
      exact .inr ⟨hkept, hadmissible, h⟩

theorem RefusalFaithful.names (h : gate.RefusalFaithful now endpoint) :
    gate.UnrevokedNames now endpoint := by
  refine ⟨fun d hd => ?_, fun entry hentry s hs => ?_⟩
  · obtain ⟨-, huser, hgroups⟩ :=
      forall_principalSet.mp (h.not_wider _ (resolve_of_rosterAnswers hd))
    refine ⟨fun s hs => ?_, fun g hg => (refusesGrant_group.mp (hgroups g hg)).2⟩
    obtain rfl | hs := List.mem_cons.mp hs
    · exact (refusesGrant_group.mp (huser _ rfl)).1
    · exact (refusesGrant_group.mp (hgroups s hs)).1
  · obtain ⟨-, huser, -⟩ := forall_principalSet.mp (h.not_wider _ (resolve_of_pairAnswers hentry))
    exact (refusesGrant_group.mp (huser s hs)).1

theorem UnrevokedNames.faithful (h : gate.UnrevokedNames now endpoint) :
    gate.RefusalFaithful now endpoint := by
  refine ⟨fun id hid => forall_principalSet.mpr ?_, refusesGrant_of_isRevoked⟩
  obtain ⟨d, hd, rfl⟩ | ⟨entry, hentry, rfl⟩ := answers_of_resolve hid
  · obtain ⟨hdevices, hidentities⟩ := h.ofRoster d hd
    refine ⟨refusesGrant_self hd.kept hd.admissible, fun s hs => ?_, fun g hg => ?_⟩
    · obtain rfl := Option.some.inj hs
      exact refusesGrant_group.mpr ⟨hdevices _ List.mem_cons_self, hd.unrevoked⟩
    · exact refusesGrant_group.mpr ⟨hdevices g (List.mem_cons_of_mem _ hg), hidentities g hg⟩
  · have hadmissible : gate.pairs.isRefused endpoint = false := by
      rw [PeerStore.isRefused, hentry.admitted]
    refine ⟨refusesGrant_self hentry.kept hadmissible, fun s hs => ?_,
      fun g hg => absurd hg List.not_mem_nil⟩
    refine refusesGrant_group.mpr ⟨h.ofPair entry hentry s hs, ?_⟩
    rw [PeerStore.isRosterUserRevoked, user_unrevoked_of_admitted hentry.admitted hs,
      Bool.and_false]

end ComposedGate

/-- **When the grant refusal is faithful**: exactly when the names of the
endpoint are not spelled like what is revoked. -/
theorem refusal_faithful_iff (gate : ComposedGate) (now : Int) (endpoint : EndpointId) :
    gate.RefusalFaithful now endpoint ↔ gate.UnrevokedNames now endpoint :=
  ⟨ComposedGate.RefusalFaithful.names, ComposedGate.UnrevokedNames.faithful⟩

namespace RosterNames

/-- A store that has revoked the other device. -/
def otherRevoked : PeerStore :=
  { pairs with revoked := fun e => .ok (if e = other then some [] else none) }

end RosterNames

/-- A roster that `build_view` accepts calls its user like a device that the
store revoked: the gate admits the user under that entry, which the node calls
revoked. -/
theorem admitted_entry_called_revoked :
    ¬ ∀ (P : Primitives) (gate : ComposedGate) (roster : Roster) (now : Int)
      (endpoint : EndpointId) (view : RosterView), gate.roster.view = some view →
        (∃ expires, buildView P roster expires = .ok view) → gate.RefusalFaithful now endpoint := by
  intro h
  let userId := principal RosterNames.other
  have hok : (buildView RosterNames.P (RosterNames.roster userId) 1000).isOk = true := by
    decide +kernel
  obtain ⟨view, hbuilt⟩ := isOk_iff.mp hok
  let gate : ComposedGate := { RosterNames.gate view with pairs := RosterNames.otherRevoked }
  obtain ⟨u, huser, -, hdecides⟩ := RosterNames.decides hbuilt
  have hgate : RosterDecides RosterNames.P gate (RosterNames.roster userId) 0
      RosterNames.caller u :=
    ⟨hdecides.listed, hdecides.kept, hdecides.running, by rfl, hdecides.unrevoked⟩
  have hresolve := resolve_of_rosterDecides rfl ⟨1000, hbuilt⟩ hgate
  have hfaithful := h RosterNames.P gate (RosterNames.roster userId) 0 RosterNames.caller view rfl
    ⟨1000, hbuilt⟩
  have hgranted := hfaithful.not_wider _ hresolve userId
    (mem_principalSet.mpr ⟨principal_ne_empty _, .inr (.inr (congrArg some huser))⟩)
  rw [ComposedGate.refusesGrant_principal.mpr (.inl (by rfl))] at hgranted
  contradiction

end Mcpmesh
