import Mcpmesh.Pairing.Introduce

/-!
# Mcpmesh.Pairing.Rename

The two verbs that write rows on the operator's word alone
(`node/src/daemon/handlers.rs`): `peer_add`, and the rename of every row of a
person (`rename_plan`, `rename_peer`).
-/

namespace Mcpmesh

open Lib

/-! ## the verbs -/

/-- The parameters of `peer_add`, the endpoint as parsed. -/
structure PeerAdd where
  nickname : String
  endpointId : EndpointId
  allow : List String

/-- The row of `peer_add`: no identity, and no stamp. -/
def addedEntry (p : PeerAdd) : PeerEntry :=
  { endpointId := p.endpointId
    nickname := p.nickname
    services := p.allow
    pairedAt := none
    userId := none
    lastAddr := none }

/-- The parameters of `peer_rename`, the new name as trimmed. -/
structure Rename where
  userId : Option String
  nickname : Option String
  toName : String

/-- The person: every row of the identity, else the row of the name. -/
def Rename.targets (r : Rename) (e : PeerEntry) : Bool :=
  match r.userId with
  | some userId => e.userId = some userId
  | none => some e.nickname = r.nickname

/-- `rename_plan`: the rows to rename, `none` where all of them have the name. -/
def renamePlan (all : List PeerEntry) (r : Rename) : Except String (Option (List PeerEntry)) :=
  let targets := all.filter r.targets
  if targets.isEmpty then .error "peer_rename: no matching contact"
  else if targets.all (·.nickname = r.toName) then .ok none
  else if all.any fun e => e.nickname = r.toName && targets.all (·.endpointId ≠ e.endpointId) then
    .error ("the nickname \"" ++ r.toName ++ "\" is already used by another contact")
  else .ok (some targets)

def renamedEntry (toName : String) (e : PeerEntry) : PeerEntry := { e with nickname := toName }

section Rename

variable (J : PeerJson)

/-- `rename_peer`, with nothing in between. -/
def renamePeer (db : PairDb) (r : Rename) : Except String PairDb := do
  ensure (r.toName ≠ "") "peer_rename: the new nickname is empty"
  ensure (r.userId.isSome || r.nickname.isSome) "peer_rename: no contact identified"
  let plan ← renamePlan (db.list J) r
  .ok ((plan.getD []).foldl (fun db e => db.add J (renamedEntry r.toName e)) db)

/-! ## what a rename leaves -/

variable {P : Primitives} {J} {db db' : PairDb} {r : Rename} {targets : List PeerEntry}
  {e : PeerEntry} {toName : String}

/-- A plan renames rows that are listed. -/
theorem subset_of_renamePlan (h : renamePlan (db.list J) r = .ok (some targets)) :
    targets ⊆ db.list J := by
  simp only [renamePlan] at h
  split at h
  · contradiction
  split at h
  · simp at h
  split at h
  · contradiction
  obtain rfl := Option.some.inj (Except.ok.inj h)
  exact fun t ht => List.mem_of_mem_filter ht

/-- A row after the writes of a rename is one from before, or one of the targets
under the new name. -/
theorem mem_list_rename
    (he : e ∈ (targets.foldl (fun db t => db.add J (renamedEntry toName t)) db).list J) :
    e ∈ db.list J ∨ ∃ t ∈ targets, e = renamedEntry toName t := by
  induction targets generalizing db with
  | nil => exact .inl he
  | cons t targets ih =>
      rw [List.foldl_cons] at he
      rcases ih he with he | ⟨t', ht', rfl⟩
      · rcases PairDb.mem_of_mem_list_add he with rfl | he
        · exact .inr ⟨t, List.mem_cons_self, rfl⟩
        · exact .inl he
      · exact .inr ⟨t', List.mem_cons_of_mem t ht', rfl⟩

/-- A rename changes the names of rows, and nothing else about them. -/
theorem mem_list_renamePeer (h : renamePeer J db r = .ok db') (he : e ∈ db'.list J) :
    ∃ e₀ ∈ db.list J, e = renamedEntry e.nickname e₀ := by
  simp only [renamePeer, bind_eq_ok] at h
  obtain ⟨-, -, -, -, plan, hplan, hdone⟩ := h
  obtain rfl := Except.ok.inj hdone
  rcases mem_list_rename he with he | ⟨t, ht, heq⟩
  · exact ⟨e, he, rfl⟩
  · cases plan with
    | none => exact absurd ht List.not_mem_nil
    | some targets =>
        refine ⟨t, subset_of_renamePlan hplan ht, ?_⟩
        rw [heq]
        rfl

/-- Renamed rows keep the store proven. -/
theorem PairDb.Proven.rename (h : db.Proven P J)
    (hids : ∀ t ∈ targets, ∀ userId, t.userId = some userId → IsUserId P userId) :
    (targets.foldl (fun db t => db.add J (renamedEntry toName t)) db).Proven P J := by
  induction targets generalizing db with
  | nil => exact h
  | cons t targets ih =>
      rw [List.forall_mem_cons] at hids
      have hadd : (db.add J (renamedEntry toName t)).Proven P J := h.add hids.1
      exact ih hadd hids.2

/-- A rename keeps the store proven. -/
theorem PairDb.Proven.renamePeer (h : db.Proven P J) (hrename : renamePeer J db r = .ok db') :
    db'.Proven P J := by
  simp only [Mcpmesh.renamePeer, bind_eq_ok] at hrename
  obtain ⟨-, -, -, -, plan, hplan, hdone⟩ := hrename
  obtain rfl := Except.ok.inj hdone
  refine h.rename fun t ht => ?_
  cases plan with
  | none => exact absurd ht List.not_mem_nil
  | some targets => exact h.userIds t (subset_of_renamePlan hplan ht)

/-- A row that is added by hand claims no identity. -/
theorem PairDb.Proven.peerAdd (h : db.Proven P J) (p : PeerAdd) :
    (db.add J (addedEntry p)).Proven P J :=
  h.add nofun

end Rename

end Mcpmesh
