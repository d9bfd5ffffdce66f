import Mcpmesh.Gate.Composed

/-!
# Mcpmesh.Dial.Refusal

The one outbound revocation predicate (`refused_by`, `node/src/daemon/dial.rs`).

It is written apart from the composed gate, over the pair store and the
installed view.  `refusedBy_iff` reads its grounds off; every ground on which
the gate refuses inbound is one of them (`refusedBy_of_isRevoked`,
`refusedBy_of_ground`).
-/

namespace Mcpmesh.Dial

/-- Whether dialling this endpoint would reach a device this node has revoked. -/
def refusedBy (store : PeerStore) (view : Option RosterView) (id : EndpointId) : Bool :=
  if store.isRefused id then true
  else
    match view with
    | none => false
    | some view =>
        view.isRevoked id ||
          (view.resolve id).any fun d => store.isRosterUserRevoked d.userId

/-- Why a gate over this store and view refuses an endpoint. -/
inductive RevocationGround (store : PeerStore) (view : Option RosterView) (id : EndpointId) : Prop
  /-- The roster revokes it. -/
  | rosterRevoked {v : RosterView} (hview : view = some v) (h : v.isRevoked id = true)
  /-- The endpoint table holds it, or cannot be read. -/
  | endpointTable (h : store.revoked id ≠ .ok none)
  /-- Its pair row carries a revoked identity, or one the table cannot be read for. -/
  | pairIdentity {entry : PeerEntry} {userId : String} (hrow : store.PairRow id entry)
      (huser : entry.userId = some userId) (h : store.isUserRevoked userId = true)
  /-- The roster gives it to a user spelled as a revoked identity. -/
  | rosterIdentity {v : RosterView} {d : ResolvedDevice} (hview : view = some v)
      (hd : v.resolve id = some d) (h : store.isRosterUserRevoked d.userId = true)

section Grounds

variable {store : PeerStore} {view : Option RosterView} {id : EndpointId}

theorem refusedBy_eq_true : refusedBy store view id = true ↔
    store.isRefused id = true ∨ ∃ v, view = some v ∧
      (v.isRevoked id = true ∨
        ∃ d, v.resolve id = some d ∧ store.isRosterUserRevoked d.userId = true) := by
  unfold refusedBy
  cases store.isRefused id with
  | true => simp
  | false =>
      cases view with
      | none => simp
      | some v => simp [Option.any_eq_true]

/-- **The grounds of an outbound refusal** are those of the gates, and a pair
row that cannot be read. -/
theorem refusedBy_iff : refusedBy store view id = true ↔
    RevocationGround store view id ∨ ∃ e, store.peers id = .error e := by
  rw [refusedBy_eq_true, isRefused_iff]
  constructor
  · rintro ((h | h | ⟨entry, userId, hrow, huser, h⟩) | ⟨v, hview, h | ⟨d, hd, h⟩⟩)
    · exact .inl (.endpointTable h)
    · exact .inr h
    · exact .inl (.pairIdentity hrow huser h)
    · exact .inl (.rosterRevoked hview h)
    · exact .inl (.rosterIdentity hview hd h)
  · rintro (h | h)
    · cases h with
      | rosterRevoked hview h => exact .inr ⟨_, hview, .inl h⟩
      | endpointTable h => exact .inl (.inl h)
      | pairIdentity hrow huser h => exact .inl (.inr (.inr ⟨_, _, hrow, huser, h⟩))
      | rosterIdentity hview hd h => exact .inr ⟨_, hview, .inr ⟨_, hd, h⟩⟩
    · exact .inl (.inr (.inl h))

theorem refusedBy_of_ground (h : RevocationGround store view id) :
    refusedBy store view id = true :=
  refusedBy_iff.mpr (.inl h)

end Grounds

/-- An endpoint the composed gate calls revoked is not dialled, whatever the
state of the roster: the gate asks a roster identity that has not lapsed, the
dial asks the view. -/
theorem refusedBy_of_isRevoked {gate : ComposedGate} {now : Int} {id : EndpointId}
    (h : gate.isRevoked now id = true) : refusedBy gate.pairs gate.roster.view id = true := by
  simp only [ComposedGate.isRevoked, Bool.or_eq_true] at h
  obtain (hroster | hstore) | hidentity := h
  · cases hview : gate.roster.view with
    | none => simp [RosterGate.isRevoked, hview] at hroster
    | some v =>
        have hrev : v.isRevoked id = true := by simpa [RosterGate.isRevoked, hview] using hroster
        exact refusedBy_of_ground (.rosterRevoked rfl hrev)
  · exact refusedBy_eq_true.mpr (.inl hstore)
  · cases hres : gate.roster.resolve now id with
    | none =>
        rw [RosterGate.rosterUser_eq_none hres] at hidentity
        contradiction
    | some identity =>
        rw [RosterGate.rosterUser_of_resolve hres] at hidentity
        obtain ⟨v, d, hview, -, -, hd, rfl⟩ := RosterGate.resolve_eq_some.mp hres
        exact refusedBy_of_ground (.rosterIdentity hview hd hidentity)

end Mcpmesh.Dial
