import Mcpmesh.Roster.OrgAuthor
import Mathlib.Data.List.Count

/-!
# Mcpmesh.Roster.Successor

What a rotation does to the members.

In every run of the operator's verbs the roster on disk is signed by the root
key (`Published`), and from a rotation on it carries the statement by which the
previous root names this one (`BridgedFrom`): the verbs that edit members leave
the bridge as it is.  A member that pins either root accepts such a roster, and
re-anchors exactly in the second case.
-/

namespace Mcpmesh

open Lib

/-- The state an action left, when it succeeded. -/
def succeeded {σ ε α : Type} : σ × Except ε α → Option σ
  | (s, .ok _) => some s
  | (_, .error _) => none

theorem succeeded_eq_some {σ ε α : Type} {x : σ × Except ε α} {s : σ}
    (h : succeeded x = some s) : ∃ a, x = (s, .ok a) := by
  obtain ⟨s', r⟩ := x
  cases r with
  | error e => contradiction
  | ok a => exact ⟨a, by rw [Option.some.inj h]⟩

section Rotations

variable {P : Primitives} {J : SerdeJson} {K : SigningKeys P}

/-- A verb of the operator after `org_create`. -/
inductive AuthorCall (K : SigningKeys P) where
  | approve (env : AuthorEnv K) (joinCode : String) (groups : List String) (userId : Option String)
  | revoke (env : AuthorEnv K) (target : String) (userKey : Bool)
  | rotate (env : AuthorEnv K) (newKeyPath : Option String)

def AuthorCall.isRotate : AuthorCall K → Bool
  | .rotate .. => true
  | .approve .. | .revoke .. => false

/-- One successful verb. -/
def authorStep (C : AuthorCodec J) (ownId : EndpointId) (op : Operator P J K) :
    AuthorCall K → Option (Operator P J K)
  | .approve env joinCode groups userId =>
      succeeded ((orgApprove P C ownId env joinCode groups userId).apply op)
  | .revoke env target userKey => succeeded ((orgRevoke P C ownId env target userKey).apply op)
  | .rotate env newKeyPath => succeeded ((orgRotate P C ownId env newKeyPath).apply op)

/-- The roster on disk, signed by the root key. -/
structure Published (op : Operator P J K) (root : K.SigningKey) (roster : Roster) : Prop where
  rootKey : op.keyFiles orgRootKeyPath = some root
  installed : Installed P op.node roster
  body : verify P roster (K.verifyingKey root) = .ok ()

/-- The roster carries the statement by which `k` names the root. -/
structure BridgedFrom (k : VerifyingKey P) (root : K.SigningKey) (roster : Roster) : Prop where
  moved : k ≠ K.verifyingKey root
  successorRootPk :
    roster.successorRootPk = some (encodeB64u P (K.verifyingKey root).toBytes.toList)
  statement : ∃ s, roster.successorSig = some (encodeB64u P s.toList) ∧
    P.verifyStrict k.toBytes (orgRotationPreimage roster.orgId (K.verifyingKey root).toBytes) s =
      true

/-- The clock is inside the roster's validity window. -/
def InWindow (P : Primitives) (roster : Roster) (now : Int) : Prop :=
  ∃ issued expires, parseRfc3339 P roster.issuedAt = .ok issued ∧
    parseRfc3339 P roster.expiresAt = .ok expires ∧ issued - skewSecs ≤ now ∧
    now ≤ expires + skewSecs

variable {C : AuthorCodec J} {ownId : EndpointId} {op op' : Operator P J K} {k : VerifyingKey P}
  {root : K.SigningKey} {roster : Roster}

/-! ### one verb -/

theorem authorStep_cases {call : AuthorCall K} (h : authorStep C ownId op call = some op') :
    (call.isRotate = false ∧
        ∃ root roster edited signed, Republished P op op' root roster edited signed) ∨
      call.isRotate = true ∧
        ∃ current successor roster signed, RootMoved P op op' current successor roster signed := by
  cases call with
  | approve env joinCode groups userId =>
      obtain ⟨r, h⟩ := succeeded_eq_some h
      exact .inl ⟨rfl, orgApprove_ok h⟩
  | revoke env target userKey =>
      obtain ⟨r, h⟩ := succeeded_eq_some h
      exact .inl ⟨rfl, orgRevoke_ok h⟩
  | rotate env newKeyPath =>
      obtain ⟨r, h⟩ := succeeded_eq_some h
      exact .inr ⟨rfl, orgRotate_ok h⟩

/-- What is loaded is what was published. -/
theorem Published.loaded (h : Published op root roster) {roster' : Roster}
    (hloaded : ∃ bytes, op.node.rosterFile = some bytes ∧ J.fromSlice bytes = .ok roster') :
    roster' = roster := by
  obtain ⟨bytes, hfile, hroster⟩ := h.installed.onDisk
  obtain ⟨bytes', hfile', hroster'⟩ := hloaded
  obtain rfl := Option.some.inj (hfile.symm.trans hfile')
  exact Except.ok.inj (hroster'.symm.trans hroster)

/-- An edit of members keeps the root and the bridge. -/
theorem Republished.published (ideal : IdealSigning P K) {root' : K.SigningKey}
    {roster' edited signed : Roster} (h : Republished P op op' root' roster' edited signed)
    (hpub : Published op root roster) : Published op' root signed ∧
      ∀ k, BridgedFrom k root roster → BridgedFrom k root signed := by
  obtain rfl := Option.some.inj (hpub.rootKey.symm.trans h.rootKey)
  obtain rfl := hpub.loaded h.loaded
  refine ⟨⟨h.kept, h.installed, verify_sign ideal h.signature⟩, fun k hbridge => ?_⟩
  obtain ⟨s, rfl⟩ := sign_ok h.signature
  obtain ⟨sig, hsig, hstatement⟩ := hbridge.statement
  exact ⟨hbridge.moved, h.header.successorRootPk.trans hbridge.successorRootPk, sig,
    h.header.successorSig.trans hsig, by rw [← hstatement, h.header.orgId]⟩

/-- A rotation publishes a bridge from the root it found. -/
theorem RootMoved.published (ideal : IdealSigning P K) {current successor : K.SigningKey}
    {roster' signed : Roster} (h : RootMoved P op op' current successor roster' signed)
    (hpub : Published op root roster) : Published op' successor signed ∧
      BridgedFrom (K.verifyingKey root) successor signed := by
  obtain rfl := Option.some.inj (hpub.rootKey.symm.trans h.rootKey)
  refine ⟨⟨h.promoted, h.installed, verify_sign ideal h.signature⟩, ?_⟩
  obtain ⟨s, rfl⟩ := sign_ok h.signature
  exact ⟨fun heq => h.moved (congrArg VerifyingKey.toBytes heq.symm), rfl,
    signOrgRotation P K root roster'.orgId (K.verifyingKey successor).toBytes, rfl,
    ideal.verifies ..⟩

/-! ### a run -/

/-- Where a run got to that started with the root `pinned`. -/
def Since (pinned : K.SigningKey) (calls : List (AuthorCall K)) (op : Operator P J K) : Prop :=
  ∃ root roster, Published op root roster ∧
    (calls.countP AuthorCall.isRotate = 0 → root = pinned) ∧
    (calls.countP AuthorCall.isRotate = 1 → BridgedFrom (K.verifyingKey pinned) root roster)

theorem Since.step (ideal : IdealSigning P K) {pinned : K.SigningKey} {calls : List (AuthorCall K)}
    {call : AuthorCall K} (h : Since pinned calls op)
    (hstep : authorStep C ownId op call = some op') : Since pinned (calls ++ [call]) op' := by
  obtain ⟨root, roster, hpub, hzero, hone⟩ := h
  obtain ⟨hcall, root', roster', edited, signed, hrepub⟩ |
      ⟨hcall, current, successor, roster', signed, hmoved⟩ := authorStep_cases hstep
  · have hcount : (calls ++ [call]).countP AuthorCall.isRotate =
        calls.countP AuthorCall.isRotate := by
      rw [List.countP_append, List.countP_singleton, hcall]
      rfl
    obtain ⟨hpub', hbridge⟩ := hrepub.published ideal hpub
    rw [Since, hcount]
    exact ⟨root, signed, hpub', hzero, fun h => hbridge _ (hone h)⟩
  · have hcount : (calls ++ [call]).countP AuthorCall.isRotate =
        calls.countP AuthorCall.isRotate + 1 := by
      rw [List.countP_append, List.countP_singleton, hcall]
      rfl
    obtain ⟨hpub', hbridge⟩ := hmoved.published ideal hpub
    rw [Since, hcount]
    refine ⟨successor, signed, hpub', fun h => absurd h (Nat.succ_ne_zero _), fun h => ?_⟩
    rw [← hzero (Nat.succ.inj h)]
    exact hbridge

theorem Since.run (ideal : IdealSigning P K) {calls : List (AuthorCall K)}
    (hpub : Published op root roster) (hrun : run (authorStep C ownId) op calls = some op') :
    Since root calls op' :=
  run_history (I := Since root) ⟨root, roster, hpub, fun _ => rfl, fun h => absurd h (by simp)⟩
    (fun _ _ _ _ _ h hstep => h.step ideal hstep) hrun

/-! ### the member -/

/-- Freshness depends on the installed serial and the clock through rules 2
and 3 alone. -/
theorem checkFresh_elsewhere {serial installed : Nat} {now now' : Int} {view : RosterView}
    (h : checkFresh P roster serial now = .ok view) (hserial : installed < roster.serial)
    (hwindow : InWindow P roster now') : checkFresh P roster installed now' = .ok view := by
  obtain ⟨issued', expires', hissued', hexpires', hfrom, huntil⟩ := hwindow
  obtain ⟨_, -, h⟩ := bind_eq_ok.mp h
  obtain ⟨issued, -, h⟩ := bind_eq_ok.mp h
  obtain ⟨expires, hexpires, h⟩ := bind_eq_ok.mp h
  obtain ⟨_, -, h⟩ := bind_eq_ok.mp h
  obtain rfl := Except.ok.inj (hexpires.symm.trans hexpires')
  simp only [checkFresh, hserial, decide_true, ensure_true, ok_bind, hissued', hexpires', hfrom,
    huntil, Bool.and_self, h]

/-- The pinned root is asked first. -/
theorem resolveVerifier_direct (h : verify P roster k = .ok ()) :
    resolveVerifier P roster k = .ok (k, ⟨none⟩) := by
  rw [resolveVerifier, h]

/-- A member behind one rotation adopts the root. -/
theorem resolveVerifier_bridged (ideal : IdealSigning P K)
    (hbody : verify P roster (K.verifyingKey root) = .ok ()) (h : BridgedFrom k root roster) :
    resolveVerifier P roster k =
      .ok (K.verifyingKey root, ⟨some (encodeB64u P (K.verifyingKey root).toBytes.toList)⟩) := by
  obtain ⟨s, hsig, hstatement⟩ := h.statement
  cases hpinned : verify P roster k with
  | ok u => exact absurd (verify_unique ideal hpinned hbody) h.moved
  | error e =>
      simp only [resolveVerifier, hpinned, h.successorRootPk, hsig, adoptSuccessor,
        decodeB64u_encodeB64u, ok_bind, toArray_toList, okOr_some,
        verifyOrgRotation_of_verifies hstatement, VerifyingKey.fromBytes_toBytes, hbody]

end Rotations

/-- **Rotation strands no member one rotation behind**: it accepts the latest
roster, and re-anchors to the current root exactly when it does not pin it. -/
theorem rotation_never_strands (P : Primitives) (J : SerdeJson) (C : AuthorCodec J)
    (K : SigningKeys P) (ownId : EndpointId) (ideal : IdealSigning P K)
    (start op₀ op₁ op₂ : Operator P J K) (env : AuthorEnv K) (name : String)
    (expiresSecs : Option Int) (rosterUrl : Option String) (r : OrgCreateResult)
    (hcreate : (orgCreate P C ownId env name expiresSecs rosterUrl).apply start = (op₀, .ok r))
    (before since : List (AuthorCall K)) (hbefore : run (authorStep C ownId) op₀ before = some op₁)
    (hsince : run (authorStep C ownId) op₁ since = some op₂)
    (hone : since.countP AuthorCall.isRotate ≤ 1) (pinned : K.SigningKey)
    (hpinned : op₁.keyFiles orgRootKeyPath = some pinned) :
    ∃ root roster, Published op₂ root roster ∧
      ∀ installed now, installed < roster.serial → InWindow P roster now →
        ∃ view anchor, validateForInstallWithAnchor P roster (K.verifyingKey pinned) installed now =
            .ok (view, anchor) ∧
          (anchor.adoptedRootPk = none ↔ K.verifyingKey pinned = K.verifyingKey root) ∧
          (K.verifyingKey pinned ≠ K.verifyingKey root →
            anchor.adoptedRootPk = some (encodeB64u P (K.verifyingKey root).toBytes.toList)) := by
  obtain ⟨root₀, body, signed, hsign, hroot, hinstalled⟩ := orgCreate_ok hcreate
  have hpub₀ : Published op₀ root₀ signed := ⟨hroot, hinstalled, verify_sign ideal hsign⟩
  obtain ⟨root₁, roster₁, hpub₁, -, -⟩ := Since.run ideal hpub₀ hbefore
  obtain rfl := Option.some.inj (hpub₁.rootKey.symm.trans hpinned)
  obtain ⟨root, roster, hpub, hsame, hbridge⟩ := Since.run ideal hpub₁ hsince
  refine ⟨root, roster, hpub, fun installed now hserial hwindow => ?_⟩
  obtain ⟨serial, now', view, hfresh⟩ := hpub.installed.fresh
  have hfresh := checkFresh_elsewhere hfresh hserial hwindow
  obtain hcount | hcount := Nat.le_one_iff_eq_zero_or_eq_one.mp hone
  · obtain rfl := hsame hcount
    exact ⟨view, ⟨none⟩, validateForInstallWithAnchor_eq_ok.mpr
      ⟨hpub.installed.format, ⟨_, resolveVerifier_direct hpub.body⟩, hfresh⟩,
      iff_of_true rfl rfl, fun h => absurd rfl h⟩
  · have hbridge := hbridge hcount
    exact ⟨view, ⟨some _⟩, validateForInstallWithAnchor_eq_ok.mpr
      ⟨hpub.installed.format, ⟨_, resolveVerifier_bridged ideal hpub.body hbridge⟩, hfresh⟩,
      iff_of_false (by simp) hbridge.moved, fun _ => rfl⟩

/-! ### one rotation behind -/

namespace Succession

open Instance

/-- The key and the first bytes of the message: what one key signs no other
verifies. -/
def signature (key : Bytes32) (m : List UInt8) : Bytes64 :=
  ⟨key.toList ++ (m ++ List.replicate 32 0).take 32, by simp⟩

def P : Primitives :=
  { primitives [] [] with
    isPoint := fun _ => true
    verifyStrict := fun k m s => s = signature k m }

def K : SigningKeys P := ⟨Bytes32, fun key => ⟨key, rfl⟩, signature⟩

instance : DecidableEq K.SigningKey := inferInstanceAs (DecidableEq Bytes32)

theorem ideal : IdealSigning P K where
  verifies _ _ := decide_eq_true rfl
  exclusive k k' m s h h' := by
    have heq := congrArg Subtype.val ((of_decide_eq_true h).symm.trans (of_decide_eq_true h'))
    exact List.Vector.eq k k' (List.append_cancel_right heq)

/-- The root of `org create`, and its successor. -/
def first : K.SigningKey := rootKey

def second : K.SigningKey := successorKey

def aliceKey : Bytes32 := .replicate 32 20

def alice : JoinCode :=
  { displayName := "Alice", requestedUserId := "alice", userPk := b64u aliceKey.toList,
    deviceEndpointId := b64u ownId.toList, deviceLabel := "laptop",
    bindingSig := b64u (signature aliceKey (deviceBindingPreimage aliceKey ownId)).toList }

def C : AuthorCodec serde where
  toVec roster := .ok (some roster)
  fromSlice_toVec _ _ h := by rw [← Except.ok.inj h]; rfl
  base32Decode line := .ok (utf8 line)
  joinCodeFromSlice _ := .ok alice

/-- Every step succeeds, and a generator would make `minted`. -/
def env (minted : K.SigningKey) : AuthorEnv K :=
  { install := .healthy now, rootKeyIo := true, nextKeyIo := true, rosterRead := true,
    promote := true, restore := true, minted }

def start : Operator P serde K := ⟨node none none, fun _ => none⟩

def created : Operator P serde K × Except AuthorError OrgCreateResult :=
  (orgCreate P C ownId (env first) "acme" none none).apply start

/-- Alice is approved under the first root. -/
def before : List (AuthorCall K) := [.approve (env first) "mcpmesh-join:ALICE" ["team-eng"] none]

/-- The root moves, and her laptop is lost. -/
def since : List (AuthorCall K) :=
  [.rotate (env second) none, .revoke (env first) "alice/laptop" false]

def latest : Option (Operator P serde K) :=
  (succeeded created).bind fun op₀ =>
    (run (authorStep C ownId) op₀ before).bind fun op₁ => run (authorStep C ownId) op₁ since

end Succession

open Succession in
/-- A member that pins the first root adopts the second from the roster of the
revoke. -/
theorem rotation_never_strands_example : ∃ op₂ root roster, latest = some op₂ ∧
    Published op₂ root roster ∧ ∀ installed now, installed < roster.serial → InWindow P roster now →
      ∃ view anchor, validateForInstallWithAnchor P roster (K.verifyingKey first) installed
        now = .ok (view, anchor) ∧
          anchor.adoptedRootPk = some (encodeB64u P (K.verifyingKey second).toBytes.toList) := by
  have hkeys : ((succeeded created).bind fun op₀ =>
      (run (authorStep C Instance.ownId) op₀ before).bind fun op₁ =>
        (run (authorStep C Instance.ownId) op₁ since).map fun op₂ =>
          (op₁.keyFiles orgRootKeyPath, op₂.keyFiles orgRootKeyPath)) =
            some (some first, some second) := by
    decide +kernel
  obtain ⟨op₀, hcreated, hkeys⟩ := Option.bind_eq_some_iff.mp hkeys
  obtain ⟨op₁, hbefore, hkeys⟩ := Option.bind_eq_some_iff.mp hkeys
  obtain ⟨op₂, hsince, hkeys⟩ := Option.map_eq_some_iff.mp hkeys
  obtain ⟨hpinned, hroot⟩ := Prod.mk.inj hkeys
  have hlatest : latest = some op₂ := by
    rw [latest, hcreated, Option.bind_some, hbefore, Option.bind_some, hsince]
  obtain ⟨r, hcreate⟩ := succeeded_eq_some hcreated
  obtain ⟨root, roster, hpub, haccepts⟩ :=
    rotation_never_strands P Instance.serde C K Instance.ownId ideal start op₀ op₁ op₂
      (env first) "acme" none none r hcreate before since hbefore hsince (by decide) first hpinned
  obtain rfl := Option.some.inj (hpub.rootKey.symm.trans hroot)
  refine ⟨op₂, _, roster, hlatest, hpub, fun installed now hserial hwindow => ?_⟩
  obtain ⟨view, anchor, hvalid, -, hadopted⟩ := haccepts installed now hserial hwindow
  exact ⟨view, anchor, hvalid,
    hadopted fun heq => absurd (congrArg VerifyingKey.toBytes heq) (by decide)⟩

end Mcpmesh
