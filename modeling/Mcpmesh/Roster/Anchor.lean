import Mcpmesh.Roster.AllOrNothing
import Mathlib.Logic.Relation

/-!
# Mcpmesh.Roster.Anchor

The trust anchor over runs of installs, under ideal signatures.

* `anchor_integrity`: without an operator's explicit key, the pinned root moves
  along rotation statements only, each signed by the root it replaces, and the
  serials of the accepted documents increase.
* `org_isolated_iff`: a rotation statement is checked against the org the
  offered document names, not against the pinned one, so that a statement for
  another org moves the anchor exactly when a document of that org carries it.
-/

namespace Mcpmesh

open Lib

section Anchor

variable {P : Primitives} {J : SerdeJson} {ownId : EndpointId} {node : Node J}
  {call : InstallCall J} {view : RosterView} {anchor : AnchorChange} {out : J.Bytes}
  {k : VerifyingKey P}

variable (P) in
/-- The node pins the root `k`. -/
def Pinned (node : Node J) (k : VerifyingKey P) : Prop :=
  ∃ s, node.identity.orgRootPk = some s ∧ parseOrgRootPk P s = .ok k

theorem Pinned.unique {k' : VerifyingKey P} (h : Pinned P node k) (h' : Pinned P node k') :
    k = k' := by
  obtain ⟨s, hs, hk⟩ := h
  obtain ⟨s', hs', hk'⟩ := h'
  obtain rfl := Option.some.inj (hs.symm.trans hs')
  exact Except.ok.inj (hk.symm.trans hk')

/-- Without an explicit key a document is judged under the pinned root. -/
theorem pinned_of_resolveAnchor {env : Env} {pkStr : String}
    (h : resolveAnchor P env node none = .ok (pkStr, k)) :
    env.configRead = true ∧ Pinned P node k := by
  obtain ⟨pinned, hpinned, h⟩ := bind_eq_ok.mp h
  obtain ⟨s, hs, h⟩ := bind_eq_ok.mp h
  obtain ⟨pk, hpk, h⟩ := bind_eq_ok.mp h
  obtain ⟨rfl, rfl⟩ := Prod.mk.inj (Except.ok.inj h)
  obtain ⟨_, hread, hpinned⟩ := bind_eq_ok.mp hpinned
  refine ⟨ensure_eq_ok.mp hread, s, ?_, hpk⟩
  rw [Except.ok.inj hpinned, okOr_eq_ok.mp hs]

theorem resolveAnchor_of_pinned {env : Env} (hread : env.configRead = true)
    (h : Pinned P node k) : ∃ pkStr, resolveAnchor P env node none = .ok (pkStr, k) := by
  obtain ⟨s, hs, hk⟩ := h
  refine ⟨s, ?_⟩
  simp only [resolveAnchor, configOrgRootPk, hread, ensure_true, ok_bind, hs, okOr_some, hk]

/-- A decoded successor parses as the pin it becomes. -/
theorem parseOrgRootPk_of_decode {pk : String} (h : decodeB64u P pk = .ok k.toBytes.toList) :
    parseOrgRootPk P pk = .ok k := by
  simp only [parseOrgRootPk, h, mapError_ok, ok_bind, toArray_toList, okOr_some,
    VerifyingKey.fromBytes_toBytes]

/-! ## one offer -/

/-- The document of a call the node installed. -/
def acceptedRoster (t : Called (Node J) (InstallCall J) (Except InstallError InstallOk)) :
    Option Roster :=
  match t.out with
  | .ok (.converged true) | .ok (.installed _ _) => (J.fromSlice t.call.bytes).toOption
  | _ => none

/-- A call turned the document away, and pins and file are as before. -/
structure Kept (t : Called (Node J) (InstallCall J) (Except InstallError InstallOk)) : Prop where
  rejected : acceptedRoster t = none
  pins : t.post.identity.orgRootPk = t.pre.identity.orgRootPk ∧
    t.post.identity.orgId = t.pre.identity.orgId

/-- A call installed a document the pinned root signs; the pins are as before. -/
structure Direct (P : Primitives)
    (t : Called (Node J) (InstallCall J) (Except InstallError InstallOk)) (roster : Roster)
    (k : VerifyingKey P) : Prop where
  accepted : acceptedRoster t = some roster
  body : verify P roster k = .ok ()
  pins : t.post.identity.orgRootPk = t.pre.identity.orgRootPk ∧
    t.post.identity.orgId = t.pre.identity.orgId

/-- A call installed a document the pinned root `k` does not sign and moved the
pins to its successor `k'` and its org. -/
structure Bridged (P : Primitives)
    (t : Called (Node J) (InstallCall J) (Except InstallError InstallOk)) (roster : Roster)
    (k k' : VerifyingKey P) : Prop where
  accepted : acceptedRoster t = some roster
  indirect : verify P roster k ≠ .ok ()
  body : verify P roster k' = .ok ()
  statement : ∃ pk sg sig, roster.successorRootPk = some pk ∧ roster.successorSig = some sg ∧
    decodeB64u P pk = .ok k'.toBytes.toList ∧ decodeB64u P sg = .ok sig ∧
    verifyOrgRotation P k.toBytes roster.orgId k'.toBytes sig = .ok ()
  pinned : Pinned P t.post k'
  org : t.post.identity.orgId = some roster.orgId

theorem acceptedRoster_installed {roster : Roster} (hroster : J.fromSlice call.bytes = .ok roster)
    {post : Node J} :
    acceptedRoster ⟨node, call, .ok (installedOk call view), post⟩ = some roster := by
  cases call with
  | converge => simp only [acceptedRoster, installedOk, hroster, Except.toOption]
  | manual => simp only [acceptedRoster, installedOk, hroster, Except.toOption]

theorem fromSlice_of_acceptedRoster {roster : Roster}
    {t : Called (Node J) (InstallCall J) (Except InstallError InstallOk)}
    (h : acceptedRoster t = some roster) : J.fromSlice t.call.bytes = .ok roster := by
  have hparsed : (J.fromSlice t.call.bytes).toOption = some roster := by
    unfold acceptedRoster at h
    split at h
    · exact h
    · exact h
    · contradiction
  exact toOption_eq_some.mp hparsed

/-- Without an explicit key only an adopted successor is pinned. -/
theorem newPin_of_offer (hoffer : call.orgRootPk = none) (anchor : AnchorChange) :
    newPin call anchor = anchor.adoptedRootPk := by
  rw [newPin, hoffer]
  cases anchor.adoptedRootPk with
  | none => rfl
  | some pk => rfl

/-- **What an offer does to the anchor**: nothing, an install under the pinned
root, or an install across a bridge it signed. -/
theorem offer_cases (ownId : EndpointId) (hoffer : call.orgRootPk = none) (hpin : Pinned P node k) :
    Kept (callAt (installStep P ownId) node call) ∨
      (∃ roster, Direct P (callAt (installStep P ownId) node call) roster k) ∨
      ∃ roster k', Bridged P (callAt (installStep P ownId) node call) roster k k' := by
  unfold callAt
  obtain ⟨-, r, hstep, hr⟩ | ⟨view, anchor, out, haccepted, hstep⟩ :=
      installStep_cases (P := P) ownId node call
  · rw [hstep]
    refine .inl ⟨?_, rfl, rfl⟩
    obtain rfl | ⟨e, rfl⟩ := hr
    · rfl
    · rfl
  obtain ⟨roster, pkStr, pk, installed, hroster, -, hanchor, -, ⟨k', hverifier⟩, -, -, horg⟩ :=
    haccepted.document
  rw [hoffer] at hanchor
  obtain rfl := hpin.unique (pinned_of_resolveAnchor hanchor).2
  have hnewPin := newPin_of_offer hoffer anchor
  by_cases hlost : PinLost call anchor
  · rw [hstep, acceptedStep_of_lost call hlost]
    exact .inl ⟨rfl, rfl, rfl⟩
  rw [hstep, acceptedStep_of_pinned call (pinWrite_of_not_pinLost hlost)]
  obtain ⟨hbody, -, rfl⟩ | ⟨hindirect, pk, sg, hpk, hsg, hadopt⟩ := resolveVerifier_ok hverifier
  · refine .inr (.inl ⟨roster, acceptedRoster_installed hroster, hbody, ?_, ?_⟩)
    · rw [installedNode_orgRootPk, hnewPin]
      rfl
    · rw [installedNode_orgId, hnewPin]
      rfl
  · obtain ⟨rfl, hdec, ⟨sig, hsig, hstatement⟩, hbody⟩ := adoptSuccessor_ok hadopt
    refine .inr (.inr ⟨roster, k', acceptedRoster_installed hroster, hindirect, hbody,
      ⟨pk, sg, sig, hpk, hsg, hdec, hsig, hstatement⟩, ⟨pk, ?_, parseOrgRootPk_of_decode hdec⟩, ?_⟩)
    · rw [installedNode_orgRootPk, hnewPin]
      rfl
    · rw [installedNode_orgId, hnewPin]
      simp [horg]

/-! ## serials -/

/-- The serial an install compares with. -/
def serialFloor (file : Option J.Bytes) : Nat :=
  match file with
  | none => 0
  | some bytes =>
      match J.fromSlice bytes with
      | .ok roster => roster.serial
      | .error _ => 0

theorem serialFloor_of_installedSerial {env : Env} {file : Option J.Bytes} {n : Nat}
    (h : installedSerial env file = .ok n) : serialFloor file = n := by
  obtain ⟨_, _, h⟩ := bind_eq_ok.mp h
  cases file with
  | none => exact Except.ok.inj h
  | some bytes =>
      dsimp only at h
      unfold serialFloor
      cases hbytes : J.fromSlice bytes with
      | ok roster => rw [hbytes] at h; simpa [hbytes] using h
      | error e => rw [hbytes] at h; simpa [hbytes] using h

/-- The floor never falls, and rises to an accepted serial. -/
theorem serialFloor_step (ownId : EndpointId) (node : Node J) (call : InstallCall J) :
    serialFloor node.rosterFile ≤ serialFloor (installStep P ownId node call).1.rosterFile ∧
      ∀ roster, acceptedRoster (callAt (installStep P ownId) node call) = some roster →
        serialFloor node.rosterFile < roster.serial ∧
          roster.serial ≤ serialFloor (installStep P ownId node call).1.rosterFile := by
  unfold callAt
  obtain ⟨-, r, hstep, hr⟩ | ⟨view, anchor, out, haccepted, hstep⟩ :=
      installStep_cases (P := P) ownId node call
  · rw [hstep]
    refine ⟨Nat.le_refl _, fun roster h => ?_⟩
    obtain rfl | ⟨e, rfl⟩ := hr
    · contradiction
    · contradiction
  · obtain ⟨roster, _, _, installed, hroster, hout, _, hinstalled, _, hlt, _⟩ := haccepted.document
    have hfloor : serialFloor (installStep P ownId node call).1.rosterFile = roster.serial := by
      rw [hstep, acceptedStep]
      split
      · simp only [serialFloor, hout]
      · simp only [installedNode_rosterFile, serialFloor, hout]
    rw [← serialFloor_of_installedSerial hinstalled] at hlt
    refine ⟨hfloor ▸ hlt.le, fun roster' h => ?_⟩
    have hsame := (fromSlice_of_acceptedRoster h).symm.trans hroster
    obtain rfl := Except.ok.inj hsame
    exact ⟨hlt, hfloor.ge⟩

/-- Accepted serials increase along a run, from the floor it starts at. -/
theorem accepted_serials (P : Primitives) (ownId : EndpointId) (calls : List (InstallCall J))
    (node : Node J) :
    ((trace (installStep P ownId) node calls).filterMap acceptedRoster).Pairwise
        (·.serial < ·.serial) ∧
      ∀ roster ∈ (trace (installStep P ownId) node calls).filterMap acceptedRoster,
        serialFloor node.rosterFile < roster.serial := by
  induction calls generalizing node with
  | nil => exact ⟨.nil, fun _ h => absurd h List.not_mem_nil⟩
  | cons call calls ih =>
      obtain ⟨hpairwise, hfloor⟩ := ih (installStep P ownId node call).1
      obtain ⟨hmono, hnew⟩ := serialFloor_step (P := P) ownId node call
      rw [trace_cons, List.filterMap_cons]
      cases hacc : acceptedRoster (callAt (installStep P ownId) node call) with
      | none =>
          exact ⟨hpairwise, fun roster h => hmono.trans_lt (hfloor roster h)⟩
      | some roster =>
          obtain ⟨hlt, hle⟩ := hnew roster hacc
          refine ⟨List.pairwise_cons.mpr ⟨fun r hr => hle.trans_lt (hfloor r hr), hpairwise⟩, ?_⟩
          intro r hr
          obtain rfl | hr := List.mem_cons.mp hr
          · exact hlt
          · exact hmono.trans_lt (hfloor r hr)

/-! ## the chain of roots -/

/-- A document accepted in one of the calls `ts` moved the pin from `k` to `k'`,
and `k` signed the statement that names `k'` for the document's org. -/
def RotatedBy (P : Primitives) (Signed : Bytes32 → List UInt8 → Prop)
    (ts : List (Called (Node J) (InstallCall J) (Except InstallError InstallOk)))
    (k k' : VerifyingKey P) : Prop :=
  ∃ t ∈ ts, ∃ roster, acceptedRoster t = some roster ∧ Pinned P t.pre k ∧ Pinned P t.post k' ∧
    Signed k.toBytes (orgRotationPreimage roster.orgId k'.toBytes)

variable {Signed : Bytes32 → List UInt8 → Prop}

theorem Kept.pinned {t : Called (Node J) (InstallCall J) (Except InstallError InstallOk)}
    (h : Kept t) (hpin : Pinned P t.pre k) : Pinned P t.post k := by
  obtain ⟨s, hs, hk⟩ := hpin
  exact ⟨s, h.pins.1.trans hs, hk⟩

theorem Direct.pinned {t : Called (Node J) (InstallCall J) (Except InstallError InstallOk)}
    {roster : Roster} (h : Direct P t roster k) (hpin : Pinned P t.pre k) : Pinned P t.post k := by
  obtain ⟨s, hs, hk⟩ := hpin
  exact ⟨s, h.pins.1.trans hs, hk⟩

/-- Under ideal signatures the pinned root signed the bridge's statement. -/
theorem Bridged.signed {t : Called (Node J) (InstallCall J) (Except InstallError InstallOk)}
    {roster : Roster} {k' : VerifyingKey P} (ideal : IdealEd25519 P Signed)
    (h : Bridged P t roster k k') :
    Signed k.toBytes (orgRotationPreimage roster.orgId k'.toBytes) := by
  obtain ⟨pk, sg, sig, -, -, -, -, hstatement⟩ := h.statement
  obtain ⟨s, -, hs⟩ := verifyOrgRotation_ok hstatement
  exact ideal.unforgeable _ _ s hs

/-- One offer keeps some root pinned: the same one, or one it signed for. -/
theorem offer_pinned (ownId : EndpointId) (ideal : IdealEd25519 P Signed)
    (hoffer : call.orgRootPk = none)
    (hpin : Pinned P node k) :
    ∃ k', Pinned P (installStep P ownId node call).1 k' ∧
      (k' = k ∨ RotatedBy P Signed [callAt (installStep P ownId) node call] k k') := by
  obtain h | ⟨roster, h⟩ | ⟨roster, k', h⟩ := offer_cases ownId hoffer hpin
  · exact ⟨k, h.pinned hpin, .inl rfl⟩
  · exact ⟨k, h.pinned hpin, .inl rfl⟩
  · exact ⟨k', h.pinned, .inr ⟨_, List.mem_cons_self, roster, h.accepted, hpin, h.pinned,
      h.signed ideal⟩⟩

theorem RotatedBy.mono
    {ts ts' : List (Called (Node J) (InstallCall J) (Except InstallError InstallOk))}
    (hsub : ts ⊆ ts') {k k' : VerifyingKey P} (h : RotatedBy P Signed ts k k') :
    RotatedBy P Signed ts' k k' := by
  obtain ⟨t, ht, h⟩ := h
  exact ⟨t, hsub ht, h⟩

/-- The root pinned after a run of offers is reached by rotation statements. -/
theorem pinned_chain (ideal : IdealEd25519 P Signed) (calls : List (InstallCall J))
    (hoffer : ∀ call ∈ calls, call.orgRootPk = none) {node : Node J} {k : VerifyingKey P}
    (hpin : Pinned P node k) :
    ∃ k', Pinned P (final (installStep P ownId) node calls) k' ∧
      Relation.ReflTransGen (RotatedBy P Signed (trace (installStep P ownId) node calls)) k k' := by
  induction calls generalizing node k with
  | nil => exact ⟨k, hpin, .refl⟩
  | cons call calls ih =>
      obtain ⟨k₁, hpin₁, hrotated⟩ :=
        offer_pinned ownId ideal (hoffer call List.mem_cons_self) hpin
      obtain ⟨k₂, hpin₂, hchain⟩ := ih (fun c hc => hoffer c (List.mem_cons_of_mem call hc)) hpin₁
      have htail : Relation.ReflTransGen
          (RotatedBy P Signed (trace (installStep P ownId) node (call :: calls))) k₁ k₂ :=
        Relation.ReflTransGen.mono (fun _ _ h => h.mono (List.subset_cons_self _ _)) _ _ hchain
      refine ⟨k₂, hpin₂, ?_⟩
      obtain rfl | hrotated := hrotated
      · exact htail
      · exact .head (hrotated.mono (by simp)) htail

end Anchor

/-- **Trust-anchor integrity**: over any run of offered documents, the pinned
root is reached from the first by rotation statements for the accepted
documents' org, each signed by the root it replaces; a document the pinned root
signs never moves the anchor; every accepted body is signed by the root pinned
after it; and accepted serials increase. -/
theorem anchor_integrity (P : Primitives) (J : SerdeJson) (ownId : EndpointId)
    (Signed : Bytes32 → List UInt8 → Prop) (ideal : IdealEd25519 P Signed) (node : Node J)
    (k₀ : VerifyingKey P) (hpin : Pinned P node k₀) (calls : List (InstallCall J))
    (hoffer : ∀ call ∈ calls, call.orgRootPk = none) :
    let ts := trace (installStep P ownId) node calls
    (∃ k, Pinned P (final (installStep P ownId) node calls) k ∧
        Relation.ReflTransGen (RotatedBy P Signed ts) k₀ k) ∧
      (∀ t ∈ ts, ∀ k roster, Pinned P t.pre k → J.fromSlice t.call.bytes = .ok roster →
        verify P roster k = .ok () →
          t.post.identity.orgRootPk = t.pre.identity.orgRootPk) ∧
      (∀ t ∈ ts, ∀ roster, acceptedRoster t = some roster →
        ∃ k, Pinned P t.post k ∧ BodySigned P Signed k roster) ∧
      (ts.filterMap acceptedRoster).Pairwise (·.serial < ·.serial) ∧
      ∀ roster ∈ ts.filterMap acceptedRoster, serialFloor node.rosterFile < roster.serial := by
  intro ts
  obtain ⟨hpairwise, hfloor⟩ := accepted_serials P ownId calls node
  refine ⟨pinned_chain ideal calls hoffer hpin, fun t ht k roster hk hroster hbody => ?_,
    fun t ht roster hacc => ?_, hpairwise, hfloor⟩
  · have hcall := hoffer t.call (step_of_mem_trace ht).2
    have hcases := offer_cases ownId hcall hk
    rw [← eq_callAt_of_mem_trace ht] at hcases
    obtain h | ⟨roster', h⟩ | ⟨roster', k', h⟩ := hcases
    · exact h.pins.1
    · exact h.pins.1
    · -- a bridge is crossed only by a document the pinned root does not sign
      have hsame := (fromSlice_of_acceptedRoster h.accepted).symm.trans hroster
      obtain rfl := Except.ok.inj hsame
      exact absurd hbody h.indirect
  · obtain ⟨⟨k, hk⟩, -⟩ := trace_invariant (I := fun n : Node J => ∃ k, Pinned P n k)
      (fun n c hc ⟨k, hk⟩ =>
        (offer_pinned ownId ideal (hoffer c hc) hk).imp fun _ h => h.1) ⟨k₀, hpin⟩ ht
    have hcases := offer_cases ownId (hoffer t.call (step_of_mem_trace ht).2) hk
    rw [← eq_callAt_of_mem_trace ht] at hcases
    obtain h | ⟨roster', h⟩ | ⟨roster', k', h⟩ := hcases
    · exact absurd (hacc.symm.trans h.rejected) (by simp)
    · obtain rfl := Option.some.inj (hacc.symm.trans h.accepted)
      exact ⟨k, h.pinned hk, bodySigned_of_verify ideal h.body⟩
    · obtain rfl := Option.some.inj (hacc.symm.trans h.accepted)
      exact ⟨k', h.pinned, bodySigned_of_verify ideal h.body⟩

namespace Rotation

open Instance

/-- The bridge to a successor, and the successor's next roster. -/
def rosters : List Roster := [bridge "acme" 1 successorKey 2 3, roster "acme" 2 4]

def made : List Signature :=
  [⟨rootKey, orgRotationPreimage "acme" successorKey, sigOf 2⟩,
    bodySignature successorKey (bridge "acme" 1 successorKey 2 3) 3,
    bodySignature successorKey (roster "acme" 2 4) 4]

def P : Primitives := primitives [rootKey, successorKey] made

def calls : List (InstallCall serde) :=
  rosters.map fun r => .converge (Env.healthy now) (some r) r.serial

def start : Node serde := node (some (b64u rootKey.toList)) (some "acme")

end Rotation

theorem anchor_integrity_example :
    ((trace (installStep Rotation.P Instance.ownId) Rotation.start Rotation.calls).filterMap
        acceptedRoster).Pairwise (·.serial < ·.serial) ∧
      (installStep Rotation.P Instance.ownId Rotation.start
        (.converge (Env.healthy Instance.now) Rotation.rosters.head? 1)).1.identity.orgRootPk =
          some (Instance.b64u Instance.successorKey.toList) :=
  ⟨(anchor_integrity Rotation.P Instance.serde Instance.ownId (Instance.Signed Rotation.made)
    (Instance.ideal_of_table _ (by decide)) Rotation.start
    ⟨Instance.rootKey, by decide⟩
    ⟨_, rfl, parseOrgRootPk_of_decode (decodeB64u_encodeB64u _ _)⟩ Rotation.calls
    (by decide)).2.2.2.1,
    by decide +kernel⟩

/-! ## statements for another org -/

section Foreign

variable {P : Primitives} {J : SerdeJson} {ownId : EndpointId} {node : Node J}
  {call : InstallCall J} {k : VerifyingKey P} {roster : Roster} {orgId : String}

variable (P) in
/-- The document carries a statement by which `k` names `succ` for the org `orgId`. -/
def CarriesStatement (roster : Roster) (k : VerifyingKey P) (orgId : String) (succ : Bytes32) :
    Prop :=
  ∃ pk sg sig s, roster.successorRootPk = some pk ∧ roster.successorSig = some sg ∧
    decodeB64u P pk = .ok succ.toList ∧ decodeB64u P sg = .ok sig ∧ toArray 64 sig = some s ∧
    P.verifyStrict k.toBytes (orgRotationPreimage orgId succ) s = true

/-- Org isolation of one offer: a statement of the pinned root for an org that
is not the pinned one moves neither pin. -/
def OrgIsolated (P : Primitives)
    (t : Called (Node J) (InstallCall J) (Except InstallError InstallOk)) : Prop :=
  ∀ (k : VerifyingKey P) (pinnedOrg otherOrg : String) (succ : Bytes32) (roster : Roster),
    t.call.orgRootPk = none → Pinned P t.pre k → t.pre.identity.orgId = some pinnedOrg →
      J.fromSlice t.call.bytes = .ok roster → CarriesStatement P roster k otherOrg succ →
        otherOrg ≠ pinnedOrg →
          t.post.identity.orgRootPk = t.pre.identity.orgRootPk ∧
            t.post.identity.orgId = t.pre.identity.orgId

/-- The offered document names another org than the pinned one, is not signed by
the pinned root, bridges to a successor of that org by the pinned root's
statement, and has everything else an install needs. -/
structure ForeignBridge (node : Node J) (call : InstallCall J) (k : VerifyingKey P)
    (pinnedOrg : String) (roster : Roster) : Prop where
  unkeyed : call.orgRootPk = none
  pinned : Pinned P node k
  pinned_org : node.identity.orgId = some pinnedOrg
  offered : J.fromSlice call.bytes = .ok roster
  foreign : roster.orgId ≠ pinnedOrg
  indirect : verify P roster k ≠ .ok ()
  bridge : ∃ pk sg succ, roster.successorRootPk = some pk ∧ roster.successorSig = some sg ∧
    adoptSuccessor P roster k pk sg = .ok succ
  format : checkFormat roster = .ok ()
  fresh : call.Fetched node ∧ ∃ installed view,
    installedSerial call.env node.rosterFile = .ok installed ∧
      checkFresh P roster installed call.env.now = .ok view
  written : call.env.configRead = true ∧ call.env.fileRead = true ∧ call.env.persist = true ∧
    call.env.pinWrite = true ∧ ∃ out, J.toVecPretty roster = .ok out

/-- A foreign bridge is installed and pins the document's org. -/
theorem ForeignBridge.pins_org (ownId : EndpointId) (h : ForeignBridge node call k orgId roster) :
    (installStep P ownId node call).1.identity.orgId = some roster.orgId := by
  obtain ⟨pk, sg, ⟨succ, anchor⟩, hpk, hsg, hadopt⟩ := h.bridge
  obtain ⟨hfetched, installed, view, hinstalled, hfresh⟩ := h.fresh
  obtain ⟨hconfig, hfile, hpersist, hwrite, out, hout⟩ := h.written
  obtain ⟨pkStr, hanchor⟩ := resolveAnchor_of_pinned hconfig h.pinned
  have hverifier : resolveVerifier P roster k = .ok (succ, anchor) := by
    unfold resolveVerifier
    cases hv : verify P roster k with
    | ok u => exact absurd hv h.indirect
    | error e =>
        simp only [hpk, hsg]
        exact hadopt
  have haccepted : Accepted P node call view anchor out :=
    ⟨hfetched, ⟨pkStr, k, h.unkeyed ▸ hanchor, judge_eq_ok.mpr ⟨hfile, roster, installed,
      h.offered, hinstalled, h.format, ⟨succ, hverifier⟩, hfresh, hout⟩⟩, hpersist⟩
  obtain ⟨hnone, -⟩ | ⟨view', anchor', out', haccepted', hstep⟩ :=
      installStep_cases (P := P) ownId node call
  · exact absurd haccepted (hnone view anchor out)
  · obtain ⟨rfl, rfl, rfl⟩ := haccepted.unique haccepted'
    rw [hstep, acceptedStep_of_pinned call fun _ => hwrite, installedNode_orgId]
    have hadopted := (adoptSuccessor_ok hadopt).1
    rw [hadopted, newPin, (checkFresh_ok hfresh).2.2]
    rfl

/-- **The step lemma**: an offer is org-isolated unless it is a foreign bridge. -/
theorem orgIsolated_step {Signed : Bytes32 → List UInt8 → Prop} (ideal : IdealEd25519 P Signed) :
    OrgIsolated P (callAt (installStep P ownId) node call) ↔
      ¬ ∃ (k : VerifyingKey P) (pinnedOrg : String) (roster : Roster),
        ForeignBridge node call k pinnedOrg roster := by
  constructor
  · rintro hisolated ⟨k, pinnedOrg, roster, h⟩
    obtain ⟨pk, sg, ⟨succ, anchor⟩, hpk, hsg, hadopt⟩ := h.bridge
    obtain ⟨-, hdec, ⟨sig, hsig, hstatement⟩, -⟩ := adoptSuccessor_ok hadopt
    obtain ⟨s, hs, hverifies⟩ := verifyOrgRotation_ok hstatement
    have hkept := (hisolated k pinnedOrg roster.orgId succ.toBytes roster h.unkeyed h.pinned
      h.pinned_org h.offered ⟨pk, sg, sig, s, hpk, hsg, hdec, hsig, hs, hverifies⟩ h.foreign).2
    have hmoved : some roster.orgId = some pinnedOrg := by
      rw [← h.pins_org ownId, ← h.pinned_org]
      exact hkept
    exact h.foreign (Option.some.inj hmoved)
  · intro hnone k pinnedOrg otherOrg succ roster hoffer hpin horg hroster hcarries hne
    unfold callAt at hoffer hpin horg hroster ⊢
    dsimp only at hoffer hpin horg hroster ⊢
    obtain ⟨-, r, hstep, -⟩ | ⟨view, anchor, out, haccepted, hstep⟩ :=
        installStep_cases (P := P) ownId node call
    · rw [hstep]
      exact ⟨rfl, rfl⟩
    by_cases hlost : PinLost call anchor
    · rw [hstep, acceptedStep_of_lost call hlost]
      exact ⟨rfl, rfl⟩
    have hpinned := pinWrite_of_not_pinLost hlost
    rw [hstep, acceptedStep_of_pinned call hpinned, installedNode_orgRootPk, installedNode_orgId,
      newPin_of_offer hoffer]
    obtain ⟨pkStr, pk, hanchor, hjudge⟩ := haccepted.judged
    rw [hoffer] at hanchor
    obtain ⟨hconfig, hpin'⟩ := pinned_of_resolveAnchor hanchor
    obtain rfl := hpin.unique hpin'
    obtain ⟨hfile, roster', installed, hroster', hinstalled, hformat, ⟨k', hverifier⟩, hfresh,
        hout⟩ :=
      judge_eq_ok.mp hjudge
    obtain rfl := Except.ok.inj (hroster.symm.trans hroster')
    obtain ⟨-, -, rfl⟩ | ⟨hindirect, pk, sg, hpk, hsg, hadopt⟩ := resolveVerifier_ok hverifier
    · exact ⟨rfl, rfl⟩
    -- the signature of the carried statement also verifies for the document's own org
    obtain ⟨rfl, hdec, ⟨sig, hsig, hstatement⟩, -⟩ := adoptSuccessor_ok hadopt
    obtain ⟨s, hs, hverifies⟩ := verifyOrgRotation_ok hstatement
    obtain ⟨pk', sg', sig', s', hpk', hsg', -, hsig', hs', hverifies'⟩ := hcarries
    obtain rfl := Option.some.inj (hpk.symm.trans hpk')
    obtain rfl := Option.some.inj (hsg.symm.trans hsg')
    obtain rfl := Except.ok.inj (hsig.symm.trans hsig')
    obtain rfl := Option.some.inj (hs.symm.trans hs')
    have hsame := orgRotationPreimage_injective (ideal.exact_bytes _ _ _ s hverifies hverifies')
    refine absurd ⟨k, pinnedOrg, roster, ?_⟩ hnone
    exact
      { unkeyed := hoffer
        pinned := hpin
        pinned_org := horg
        offered := hroster
        foreign := hsame.1 ▸ hne
        indirect := hindirect
        bridge := ⟨pk, sg, _, hpk, hsg, hadopt⟩
        format := hformat
        fresh := ⟨haccepted.fetched, installed, view, hinstalled, hfresh⟩
        written := ⟨hconfig, hfile, haccepted.persisted,
          hpinned (by rw [newPin_of_offer hoffer]; rfl), out, hout⟩ }

end Foreign

/-- **When rotation is org-isolated**: every offer of a run is, exactly when no
document of it is a foreign bridge. -/
theorem org_isolated_iff (P : Primitives) (J : SerdeJson) (ownId : EndpointId)
    (Signed : Bytes32 → List UInt8 → Prop) (ideal : IdealEd25519 P Signed) (node : Node J)
    (calls : List (InstallCall J)) :
    (∀ t ∈ trace (installStep P ownId) node calls, OrgIsolated P t) ↔
      ∀ t ∈ trace (installStep P ownId) node calls,
        ¬ ∃ (k : VerifyingKey P) (pinnedOrg : String) (roster : Roster),
          ForeignBridge t.pre t.call k pinnedOrg roster :=
  trace_forall_congr (I := fun _ => True) (fun _ _ _ _ => orgIsolated_step ideal)
    (fun _ _ _ _ _ => trivial) trivial

namespace ForeignOrg

open Instance

/-- A document of `beta` with the root's statement for `beta`. -/
def document : Roster := bridge "beta" 1 successorKey 2 3

def made : List Signature :=
  [⟨rootKey, orgRotationPreimage "beta" successorKey, sigOf 2⟩,
    bodySignature successorKey document 3]

def P : Primitives := primitives [rootKey, successorKey] made

def call : InstallCall serde := .converge (Env.healthy now) (some document) 1

/-- A node of the org `acme` with the same root. -/
def start : Node serde := node (some (b64u rootKey.toList)) (some "acme")

end ForeignOrg

/-- The statement for `beta` re-pins a node of `acme`. -/
theorem foreign_statement_moves_anchor :
    ¬ ∀ (P : Primitives) (J : SerdeJson) (ownId : EndpointId)
      (Signed : Bytes32 → List UInt8 → Prop), IdealEd25519 P Signed →
        ∀ (node : Node J) (calls : List (InstallCall J)),
          ∀ t ∈ trace (installStep P ownId) node calls, OrgIsolated P t := by
  intro h
  have hisolated : OrgIsolated ForeignOrg.P
      (callAt (installStep ForeignOrg.P Instance.ownId) ForeignOrg.start ForeignOrg.call) :=
    h ForeignOrg.P Instance.serde Instance.ownId (Instance.Signed ForeignOrg.made)
      (Instance.ideal_of_table _ (by decide)) ForeignOrg.start [ForeignOrg.call] _
      (last_mem_trace _ [] _)
  have hmoved : (callAt (installStep ForeignOrg.P Instance.ownId) ForeignOrg.start
      ForeignOrg.call).post.identity.orgId = some "beta" := by decide +kernel
  have hstatement : CarriesStatement ForeignOrg.P ForeignOrg.document
      ⟨Instance.rootKey, by decide⟩ "beta" Instance.successorKey :=
    ⟨_, _, (Instance.sigOf 2).toList, Instance.sigOf 2, rfl, rfl, decodeB64u_encodeB64u _ _,
      decodeB64u_encodeB64u _ _, toArray_toList _, by decide +kernel⟩
  have hkept := (hisolated ⟨Instance.rootKey, by decide⟩ "acme" "beta" Instance.successorKey
    ForeignOrg.document rfl ⟨_, rfl, parseOrgRootPk_of_decode (decodeB64u_encodeB64u _ _)⟩ rfl rfl
    hstatement (by decide)).2
  exact absurd (hmoved.symm.trans hkept) (by decide)

theorem org_isolated_iff_example :
    OrgIsolated Rotation.P (callAt (installStep Rotation.P Instance.ownId) Rotation.start
      (.converge (Env.healthy Instance.now) Rotation.rosters.head? 1)) := by
  have hisolated := (org_isolated_iff Rotation.P Instance.serde Instance.ownId
    (Instance.Signed Rotation.made) (Instance.ideal_of_table _ (by decide)) Rotation.start
    (Rotation.calls.take 1)).mpr
  simp only [Rotation.calls, Rotation.rosters, List.map_cons, List.take_succ_cons, List.take_zero,
    trace_cons, trace_nil, List.forall_mem_singleton] at hisolated
  refine hisolated ?_
  rintro ⟨k, pinnedOrg, roster, h⟩
  obtain rfl := Except.ok.inj h.offered
  exact h.foreign (Option.some.inj h.pinned_org)

end Mcpmesh
