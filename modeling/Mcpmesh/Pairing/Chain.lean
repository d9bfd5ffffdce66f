import Mcpmesh.Lib.Run
import Mcpmesh.Pairing.Instance
import Mcpmesh.Pairing.Rename
import Mcpmesh.Roster.Instance

/-!
# Mcpmesh.Pairing.Chain

How far an introduction can be from a ceremony.

`introduce_peer` takes an endorser whose identity is on a row with a pairing
stamp.  A ghost (`Origin`) says where each stored row comes from; the chain is
sound where a stamped row was written by a ceremony that proved its identity
(`Chain.Inv`).  Two writers stamp a row without that: an attestation of an
identity that only introduced rows carry, and a pairing without a binding over an
introduced row, whose identity it keeps (`Anchored`).
-/

namespace Mcpmesh

open Lib

/-! ## the ghost -/

/-- What wrote the row of an endpoint: a ceremony, with the identity that one
proved for it, or another verb. -/
inductive Origin where
  | other
  | ceremony (proved : Option String)
  deriving DecidableEq

/-- The identity that a ceremony proved. -/
def Origin.proved : Origin → Option String
  | .other => none
  | .ceremony proved => proved

/-- The pair rows of a node, each with its origin. -/
structure Chain where
  db : PairDb
  origin : EndpointId → Origin

inductive ChainCall where
  | pair (call : PairCall)
  | introduce (i : Introduction)
  | peerAdd (p : PeerAdd)
  | rename (r : Rename)
  | remove (nickname : String)

section Chain

variable (P : Primitives) (J : PeerJson) (own : EndpointId)

namespace Chain

/-- A stored row has an identity that a ceremony proved. -/
def Vouched (s : Chain) (userId : String) : Prop :=
  ∃ e ∈ s.db.list J, (s.origin e.endpointId).proved = some userId

instance (s : Chain) (userId : String) : Decidable (s.Vouched J userId) :=
  inferInstanceAs (Decidable (∃ e ∈ s.db.list J, (s.origin e.endpointId).proved = some userId))

/-- The origins after a call of `Pairing.Rows` that wrote its row: a pairing
proves the identity of a valid binding and else leaves what was proved; an
attestation proves its identity where a proved row vouches for it; a dial hint
changes no origin. -/
def originAfter (s : Chain) : PairCall → EndpointId → Origin
  | .inviterSide r =>
      let proved := verifiedUserId P r.hello.userPk r.hello.bindingSig r.hello.tlsId
      Function.update s.origin r.hello.tlsId
        (.ceremony (proved.or (s.origin r.hello.tlsId).proved))
  | .redeemerSide r =>
      let proved := verifiedUserId P r.userPk r.bindingSig r.invite.inviterId
      Function.update s.origin r.invite.inviterId
        (.ceremony (proved.or (s.origin r.invite.inviterId).proved))
  | .attestation a =>
      Function.update s.origin a.hello.tlsId <| .ceremony <|
        match attestationDecision P J s.db a with
        | .ok plan => if s.Vouched J plan.userId then some plan.userId else none
        | .error _ => none
  | .setLastAddr _ _ => s.origin

end Chain

/-- One call, and whether it succeeded. -/
def chainStep (s : Chain) : ChainCall → Chain × Bool
  | .pair call =>
      match writeRow P J s.db call with
      | some db => ({ db, origin := s.originAfter P J call }, true)
      | none => (s, false)
  | .introduce i =>
      match introducePeer P J own s.db i with
      | .ok db => ({ db, origin := Function.update s.origin i.subject .other }, true)
      | .error _ => (s, false)
  | .peerAdd p =>
      ({ db := s.db.add J (addedEntry p)
         origin := Function.update s.origin p.endpointId .other }, true)
  | .rename r =>
      match renamePeer J s.db r with
      | .ok db => ({ s with db }, true)
      | .error _ => (s, false)
  | .remove nickname =>
      let (db, removed) := s.db.remove J nickname
      ({ db
         origin := fun eid => if (db.resolve J eid).isSome then s.origin eid else .other }, removed)

/-- A node without rows. -/
def Chain.start (revoked : List (EndpointId × List UInt8))
    (revokedUsers : List (String × List UInt8)) : Chain where
  db := { peers := [], revoked, revokedUsers }
  origin _ := .other

/-! ## the law -/

/-- The statement that an endorser signs. -/
def EndorsedBy (Signed : Bytes32 → List UInt8 → Prop) (endorser : String) (subject : EndpointId)
    (subjectUserId : Option String) : Prop :=
  ∃ pk subjectPk, decode32 P endorser = .ok pk ∧
    subjectUserId.mapM (decode32 P) = .ok subjectPk ∧
      Signed pk (introducePreimage pk subject subjectPk)

/-- What an introduction that succeeded says. -/
structure Introduced (Signed : Bytes32 → List UInt8 → Prop) (s s' : Chain) (i : Introduction) :
    Prop where
  /-- the endorser signed exactly this subject -/
  endorsed : EndorsedBy P Signed i.endorsedBy i.subject i.subjectUserId
  /-- the chain ends at a ceremony -/
  anchored : s.Vouched J i.endorsedBy
  /-- an identity is one that the subject bound to its endpoint -/
  bound : ∀ e, s'.db.resolve J i.subject = some e → ∀ userId, e.userId = some userId →
    ∃ pk sig, userId = encodeB64u P pk.toList ∧ i.subjectUserId.map (decode32 P) = some (.ok pk) ∧
      i.subjectBinding.map (decodeB64u P) = some (.ok sig) ∧
      verifyDeviceBinding P pk i.subject sig = .ok () ∧
      (s'.db.store J).isUserRevoked userId = false
  others : ∀ eid, eid ≠ i.subject → s'.db.resolve J eid = s.db.resolve J eid
  /-- no row that a ceremony wrote is replaced -/
  replaced : (s.db.resolve J i.subject).isSome → s.origin i.subject = .other

/-! ## the condition -/

/-- A row without a stamp gets one from a pairing only if it has no identity, or
the pairing proves one. -/
def Chain.Proves (s : Chain) (eid : EndpointId) (proved : Option String) : Prop :=
  ∀ e ∈ s.db.resolve J eid, e.pairedAt = none → e.userId.isSome → proved.isSome

/-- The condition on a call: an attestation is accepted only where a stamped row
carries its identity, and no pairing keeps the identity of a row that it stamps
first. -/
def Chain.Anchored (s : Chain) : ChainCall → Prop
  | .pair (.inviterSide r) =>
      s.Proves J r.hello.tlsId
        (verifiedUserId P r.hello.userPk r.hello.bindingSig r.hello.tlsId)
  | .pair (.redeemerSide r) =>
      s.Proves J r.invite.inviterId (verifiedUserId P r.userPk r.bindingSig r.invite.inviterId)
  | .pair (.attestation a) =>
      ∀ plan ∈ (attestationDecision P J s.db a).toOption,
        ∃ e ∈ s.db.list J, e.pairedAt.isSome ∧ e.userId = some plan.userId
  | _ => True

instance (s : Chain) (eid : EndpointId) (proved : Option String) :
    Decidable (s.Proves J eid proved) := by
  unfold Chain.Proves
  infer_instance

instance (s : Chain) (call : ChainCall) : Decidable (s.Anchored P J call) := by
  unfold Chain.Anchored
  split <;> infer_instance

/-! ## the invariant -/

structure Chain.Inv (s : Chain) : Prop where
  proven : s.db.Proven P J
  /-- the identity of a stamped row was proved by a ceremony -/
  stamped : ∀ e ∈ s.db.list J, e.pairedAt.isSome → ∀ userId, e.userId = some userId →
    (s.origin e.endpointId).proved = some userId
  /-- a ceremony stamps its row -/
  ceremony : ∀ e ∈ s.db.list J, s.origin e.endpointId ≠ .other → e.pairedAt.isSome

/-! ## the steps keep it -/

variable {P J own} {s s' : Chain} {db : PairDb} {entry : PeerEntry} {origin : Origin}
  {Signed : Bytes32 → List UInt8 → Prop}

namespace Chain

theorem inv_start (revoked : List (EndpointId × List UInt8))
    (revokedUsers : List (String × List UInt8)) : (start revoked revokedUsers).Inv P J where
  proven := PairDb.proven_empty rfl
  stamped _ he := absurd he List.not_mem_nil
  ceremony _ he := absurd he List.not_mem_nil

/-- A write of one row, with its origin. -/
theorem Inv.add (h : s.Inv P J)
    (hids : ∀ userId, entry.userId = some userId → IsUserId P userId)
    (hstamped : entry.pairedAt.isSome → ∀ userId, entry.userId = some userId →
      origin.proved = some userId)
    (hceremony : origin ≠ .other → entry.pairedAt.isSome) :
    ({ db := s.db.add J entry
       origin := Function.update s.origin entry.endpointId origin } : Chain).Inv P J := by
  have hproven : (s.db.add J entry).Proven P J := h.proven.add hids
  -- a row of the endpoint is the new one
  have hrow : ∀ e ∈ (s.db.add J entry).list J, e = entry ∨
      e ∈ s.db.list J ∧ e.endpointId ≠ entry.endpointId := by
    intro e he
    by_cases heid : e.endpointId = entry.endpointId
    · exact .inl (hproven.eq_of_endpointId he PairDb.mem_list_add_self heid)
    · refine .inr ⟨(PairDb.mem_of_mem_list_add he).resolve_left ?_, heid⟩
      rintro rfl
      exact heid rfl
  refine ⟨hproven, fun e he => ?_, fun e he => ?_⟩
  · rcases hrow e he with rfl | ⟨he, hne⟩
    · simpa using hstamped
    · simpa [hne] using h.stamped e he
  · rcases hrow e he with rfl | ⟨he, hne⟩
    · simpa using hceremony
    · simpa [hne] using h.ceremony e he

/-- What a pairing keeps of an identity was proved before, where the condition
holds. -/
theorem Inv.proved_of_pairing (h : s.Inv P J) {eid : EndpointId} {proved : Option String}
    (hproves : s.Proves J eid proved) {userId : String}
    (huserId : proved.or ((s.db.resolve J eid).bind (·.userId)) = some userId) :
    (proved.or (s.origin eid).proved) = some userId := by
  cases proved with
  | some uid => exact huserId
  | none =>
      rw [Option.none_or] at huserId ⊢
      obtain ⟨e, hresolve, hkept⟩ := Option.bind_eq_some_iff.mp huserId
      have hstamped : e.pairedAt.isSome = true := by
        cases hpaired : e.pairedAt with
        | some at? => rfl
        | none => simpa using hproves e hresolve hpaired (by simp [hkept])
      have heid := h.proven.keyed.endpointId_of_resolve hresolve
      exact heid ▸ h.stamped e (PairDb.mem_list_of_resolve hresolve) hstamped userId hkept

theorem Inv.pair (h : s.Inv P J) {call : PairCall} (hanchored : s.Anchored P J (.pair call))
    (hwrite : writeRow P J s.db call = some db) :
    ({ db, origin := s.originAfter P J call } : Chain).Inv P J := by
  have hids := (h.proven.writeRow hwrite).userIds
  cases wrote_of_writeRow hwrite with
  | inviterSide r =>
      exact h.add (hids _ PairDb.mem_list_add_self) (fun _ _ => h.proved_of_pairing hanchored)
        (fun _ => by simp [inviterEntry])
  | redeemerSide r =>
      exact h.add (hids _ PairDb.mem_list_add_self) (fun _ _ => h.proved_of_pairing hanchored)
        (fun _ => by simp [redeemerEntry])
  | @attestation a plan hplan =>
      obtain ⟨e, he, hstamped, huserId⟩ := hanchored plan (by simp [hplan, Except.toOption])
      have hvouched : s.Vouched J plan.userId :=
        ⟨e, he, h.stamped e he hstamped plan.userId huserId⟩
      simp only [originAfter, hplan, if_pos hvouched]
      refine h.add (hids _ PairDb.mem_list_add_self) (fun _ userId hid => hid) (fun _ => ?_)
      simp [attestedEntry]
  | @setLastAddr eid lastAddr raw entry hrow hread =>
      have hmem : entry ∈ s.db.list J :=
        PairDb.mem_list.mpr ⟨(eid, raw), mem_of_rowOf hrow, hread⟩
      have heid : entry.endpointId = eid :=
        h.proven.keyed (eid, raw) (mem_of_rowOf hrow) entry hread
      subst heid
      have hadd : ({ db := s.db.add J (hintedEntry entry lastAddr)
                     origin := Function.update s.origin entry.endpointId
                       (s.origin entry.endpointId) } : Chain).Inv P J :=
        h.add (h.proven.userIds entry hmem) (h.stamped entry hmem) (h.ceremony entry hmem)
      rwa [Function.update_eq_self] at hadd

/-- **Step lemma**: a call that meets the condition keeps the invariant. -/
theorem Inv.step (h : s.Inv P J) {call : ChainCall} (hanchored : s.Anchored P J call) :
    (chainStep P J own s call).1.Inv P J := by
  cases call with
  | pair call =>
      simp only [chainStep]
      split
      · next db hwrite => exact h.pair hanchored hwrite
      · exact h
  | introduce i =>
      simp only [chainStep]
      split
      · next db hintroduce =>
        have hids := (h.proven.introducePeer hintroduce).userIds
        obtain ⟨userId, hrow⟩ := introducePeer_ok hintroduce
        obtain rfl := hrow.added
        exact h.add (hids _ PairDb.mem_list_add_self) (by simp [introducedEntry]) (by simp)
      · exact h
  | peerAdd p => exact h.add (by simp [addedEntry]) (by simp [addedEntry]) (by simp)
  | rename r =>
      simp only [chainStep]
      split
      · next db hrename =>
        refine ⟨h.proven.renamePeer hrename, fun e he => ?_, fun e he => ?_⟩
        · obtain ⟨e₀, he₀, heq⟩ := mem_list_renamePeer hrename he
          rw [heq]
          exact h.stamped e₀ he₀
        · obtain ⟨e₀, he₀, heq⟩ := mem_list_renamePeer hrename he
          rw [heq]
          exact h.ceremony e₀ he₀
      · exact h
  | remove nickname =>
      have hproven := h.proven.remove nickname
      have hkept : ∀ e ∈ (s.db.remove J nickname).1.list J,
          ((s.db.remove J nickname).1.resolve J e.endpointId).isSome = true := by
        intro e he
        rw [hproven.resolve_of_mem he]
        rfl
      refine ⟨hproven, fun e he => ?_, fun e he => ?_⟩
      · simpa [chainStep, hkept e he] using h.stamped e (PairDb.mem_list_remove.mp he).1
      · simpa [chainStep, hkept e he] using h.ceremony e (PairDb.mem_list_remove.mp he).1

/-- The endorsement that was verified is a signature over this very statement. -/
theorem endorsedBy_of_verify (ideal : IdealEd25519 P Signed) {endorser evidence : String}
    {subject : EndpointId} {subjectUserId : Option String}
    (h : verifyEndorsement P endorser evidence subject subjectUserId = .ok ()) :
    EndorsedBy P Signed endorser subject subjectUserId := by
  simp only [verifyEndorsement, bind_eq_ok] at h
  obtain ⟨pk, hpk, subjectPk, hsubject, sig, -, hverify⟩ := h
  exact ⟨pk, subjectPk, hpk, hsubject, signed_of_verifyStatement ideal hverify⟩

/-- The identity that a presented binding proves. -/
theorem bound_of_verifyPresented {userPk sig userId : String} {eid : EndpointId}
    (h : verifyPresented P userPk sig eid = .ok userId) :
    ∃ pk raw, userId = encodeB64u P pk.toList ∧ decode32 P userPk = .ok pk ∧
      decodeB64u P sig = .ok raw ∧ verifyDeviceBinding P pk eid raw = .ok () := by
  obtain ⟨bytes, pk, raw, hbytes, hpk, hraw, hbinding, huserId⟩ := verifyPresented_ok h
  refine ⟨pk, raw, huserId, ?_, hraw, hbinding⟩
  simp only [decode32, bind_eq_ok]
  exact ⟨bytes, hbytes, hpk⟩

/-- What an introduction says where the invariant holds. -/
theorem Inv.introduced (h : s.Inv P J) (ideal : IdealEd25519 P Signed) {i : Introduction}
    (hintroduce : introducePeer P J own s.db i = .ok db) :
    Introduced P J Signed s
      { db, origin := Function.update s.origin i.subject .other } i := by
  obtain ⟨userId, hrow⟩ := introducePeer_ok hintroduce
  obtain rfl := hrow.added
  refine ⟨endorsedBy_of_verify ideal hrow.endorsed, ?_, ?_, ?_, ?_⟩
  · obtain ⟨e, he, hstamped, huserId⟩ := hrow.known
    exact ⟨e, he, h.stamped e he hstamped _ huserId⟩
  · intro e he uid huid
    have hself : (s.db.add J (introducedEntry i userId)).resolve J i.subject =
        some (introducedEntry i userId) := PairDb.resolve_add_self (introducedEntry i userId)
    obtain rfl := Option.some.inj (hself.symm.trans he)
    obtain rfl : userId = some uid := huid
    obtain ⟨userPk, sig, hpk, hsig, hpresented⟩ := Introduction.verifiedUserId_some hrow.verified
    obtain ⟨pk, raw, huid, hdecode, hraw, hbinding⟩ := bound_of_verifyPresented hpresented
    exact ⟨pk, raw, huid, by simp [hpk, hdecode], by simp [hsig, hraw], hbinding,
      hrow.unrevoked uid rfl⟩
  · intro eid hne
    exact PairDb.resolve_add_of_ne hne
  · intro hsome
    obtain ⟨e, he⟩ := Option.isSome_iff_exists.mp hsome
    have heid := h.proven.keyed.endpointId_of_resolve he
    by_contra hceremony
    have hstamped := h.ceremony e (PairDb.mem_list_of_resolve he) (heid ▸ hceremony)
    rw [hrow.unpaired e he] at hstamped
    contradiction

end Chain

/-- **Introductions end at a ceremony**, in a run whose calls all meet the
condition. -/
theorem introductions_end_at_ceremony (ideal : IdealEd25519 P Signed)
    (revoked : List (EndpointId × List UInt8)) (revokedUsers : List (String × List UInt8))
    (calls : List ChainCall)
    (hanchored : ∀ t ∈ trace (chainStep P J own) (.start revoked revokedUsers) calls,
      t.pre.Anchored P J t.call) :
    ∀ t ∈ trace (chainStep P J own) (.start revoked revokedUsers) calls,
      ∀ i, t.call = .introduce i → t.out = true → Introduced P J Signed t.pre t.post i := by
  intro t ht i hcall hout
  have hinv : t.pre.Inv P J :=
    trace_guarded_pre (Q := fun t => t.pre.Anchored P J t.call) (fun s call hQ h => h.step hQ)
      (Chain.inv_start revoked revokedUsers) hanchored ht
  have hstep := (step_of_mem_trace ht).1
  simp only [hcall, chainStep] at hstep
  split at hstep
  · next db hintroduce => exact (Prod.mk.inj hstep).1 ▸ hinv.introduced ideal hintroduce
  · exact absurd ((Prod.mk.inj hstep).2.trans hout) (by simp)

end Chain

/-! ### introductions at and past a ceremony -/

namespace CarolsFriends

open Instance

def eid (n : UInt8) : EndpointId := .replicate 32 n

def carolKey : Bytes32 := .replicate 32 12

def bobKey : Bytes32 := .replicate 32 13

def carolId : String := b64u carolKey.toList

def bobId : String := b64u bobKey.toList

/-- Carol and Bob sign for their devices, Carol for Bob, and Bob for Dave. -/
def made : List Signature :=
  [⟨carolKey, deviceBindingPreimage carolKey (eid 2), sigOf 1⟩,
    ⟨bobKey, deviceBindingPreimage bobKey (eid 3), sigOf 2⟩,
    ⟨carolKey, introducePreimage carolKey (eid 3) (some bobKey), sigOf 3⟩,
    ⟨bobKey, introducePreimage bobKey (eid 4) none, sigOf 4⟩]

def primitives : Primitives := Instance.primitives [carolKey, bobKey] made

def hello (n : UInt8) (name userId : String) (sig : UInt8) : Hello :=
  { tlsId := eid n, redeemerNickname := name, userPk := some userId
    bindingSig := some (b64u (sigOf sig).toList) }

def pairCarol : ChainCall :=
  .pair (.inviterSide
    { invite := TwoUses.invite 7 2, hello := hello 2 "carol" carolId 1, observed := none
      now := "2026-01-15T00:00:00Z" })

def bob : Introduction :=
  { subject := eid 3, endorsedBy := carolId, evidence := b64u (sigOf 3).toList
    subjectUserId := some bobId, subjectBinding := some (b64u (sigOf 2).toList), nickname := "bob" }

/-- Bob's device attests with the binding it was introduced with. -/
def attestBob : ChainCall :=
  .pair (.attestation
    { admitAttested := true, hello := hello 3 "bob" bobId 2, now := "2026-01-16T00:00:00Z" })

def dave : Introduction :=
  { subject := eid 4, endorsedBy := bobId, evidence := b64u (sigOf 4).toList
    subjectUserId := none, subjectBinding := none, nickname := "dave" }

theorem ideal : IdealEd25519 primitives (Signed made) :=
  ideal_of_table [carolKey, bobKey] (by decide +kernel)

def introduced (calls : List ChainCall) : List (Called Chain ChainCall Bool) :=
  trace (chainStep primitives peerJson ownId) (.start [] []) calls

/-- The last call after others. -/
def last (before : List ChainCall) (call : ChainCall) : Called Chain ChainCall Bool :=
  callAt (chainStep primitives peerJson ownId)
    (final (chainStep primitives peerJson ownId) (.start [] []) before) call

theorem last_mem (before : List ChainCall) (call : ChainCall) :
    last before call ∈ introduced (before ++ [call]) := last_mem_trace _ before call

end CarolsFriends

open CarolsFriends in
theorem introductions_end_at_ceremony_example :
    (last [pairCarol] (.introduce bob)).out = true ∧
      Introduced primitives Instance.peerJson (Instance.Signed made)
        (last [pairCarol] (.introduce bob)).pre (last [pairCarol] (.introduce bob)).post bob := by
  obtain ⟨hanchored, hout⟩ : (∀ t ∈ introduced [pairCarol, .introduce bob],
      t.pre.Anchored primitives Instance.peerJson t.call) ∧
      (last [pairCarol] (.introduce bob)).out = true := by decide +kernel
  exact ⟨hout, introductions_end_at_ceremony ideal [] [] [pairCarol, .introduce bob]
    hanchored _ (last_mem [pairCarol] (.introduce bob)) bob rfl hout⟩

open CarolsFriends in
/-- Bob was introduced, never paired; his attestation stamps his row, and he
introduces Dave. -/
theorem attested_introduction_endorses :
    ∃ t ∈ introduced [pairCarol, .introduce bob, attestBob, .introduce dave],
      t.call = .introduce dave ∧ t.out = true ∧
      ¬ Introduced primitives Instance.peerJson (Instance.Signed made) t.pre t.post dave := by
  obtain ⟨hout, hunproved⟩ :
      (last [pairCarol, .introduce bob, attestBob] (.introduce dave)).out = true ∧
        ¬ (last [pairCarol, .introduce bob, attestBob] (.introduce dave)).pre.Vouched
          Instance.peerJson dave.endorsedBy := by decide +kernel
  refine ⟨_, last_mem [pairCarol, .introduce bob, attestBob] (.introduce dave), rfl, hout, ?_⟩
  intro hintroduced
  exact hunproved hintroduced.anchored

end Mcpmesh
