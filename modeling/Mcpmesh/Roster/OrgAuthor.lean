import Mcpmesh.Lib.Words
import Mcpmesh.Roster.Anchor
import Mcpmesh.Roster.Mutate
import Mcpmesh.Trust.Statements
import Mathlib.Logic.Function.Basic

/-!
# Mcpmesh.Roster.OrgAuthor

The operator's verbs (`node/src/daemon/org_author.rs`): `orgCreate`,
`orgApprove`, `orgRevoke` and `orgRotate`, each of which edits the installed
roster, signs it and installs it through `installRoster` like any other.

A rotation promotes the successor key before it publishes and puts the
predecessor back when publishing fails; what the node installed by then stays.
Which of the file-system steps fail is part of a call (`AuthorEnv`).  What a
successful verb did is in `orgCreate_ok`, `orgApprove_ok`, `orgRevoke_ok` and
`orgRotate_ok`.
-/

namespace Mcpmesh

open Lib

/-! ## join codes -/

/-- From `join`, handed to the operator. -/
structure JoinCode where
  displayName : String
  requestedUserId : String
  userPk : String
  deviceEndpointId : String
  deviceLabel : String
  bindingSig : String
  deriving DecidableEq, Repr

/-- From `org create`, handed to a joiner. -/
structure OrgInviteCode where
  orgId : String
  orgRootPk : String
  rosterUrl : Option String
  deriving DecidableEq, Repr

/-- What the verbs call outside the repository next to `SerdeJson`: the compact
serializer, and the two decoders of a join code. -/
structure AuthorCodec (J : SerdeJson) where
  toVec : Roster → Except String J.Bytes
  fromSlice_toVec : ∀ r bytes, toVec r = .ok bytes → J.fromSlice bytes = .ok r
  /-- `data_encoding::BASE32_NOPAD.decode`. -/
  base32Decode : String → Except String (List UInt8)
  joinCodeFromSlice : List UInt8 → Except String JoinCode

inductive JoinCodeError where
  | missingScheme
  | badBase32 (msg : String)
  | badShape (msg : String)
  | badUserPk (e : RosterError)
  | badDevice (e : RosterError)
  | badSignature (e : RosterError)
  | forged
  deriving DecidableEq, Repr

def joinScheme : String := "mcpmesh-join:"

/-- `JoinCode::decode`. -/
def JoinCode.decode {J : SerdeJson} (C : AuthorCodec J) (line : String) :
    Except JoinCodeError JoinCode := do
  let payload ← okOr (stripPrefix joinScheme line) .missingScheme
  let json ← (C.base32Decode payload).mapError .badBase32
  (C.joinCodeFromSlice json).mapError .badShape

/-- The decoded join code, its binding verified. -/
def inspectJoinCode (P : Primitives) {J : SerdeJson} (C : AuthorCodec J) (joinCode : String) :
    Except JoinCodeError (JoinCode × Bytes32 × EndpointId) := do
  let jc ← JoinCode.decode C joinCode
  let userPk ← (decodeEndpointId P jc.userPk).mapError .badUserPk
  let deviceId ← (decodeEndpointId P jc.deviceEndpointId).mapError .badDevice
  let sig ← (decodeB64u P jc.bindingSig).mapError .badSignature
  (verifyDeviceBinding P userPk deviceId sig).mapError fun _ => .forged
  .ok (jc, userPk, deviceId)

/-! ## strings -/

/-- `s.trim().is_empty()`. -/
def isBlank (s : String) : Bool := s.toList.all Words.isWhitespace

def hasSlash (s : String) : Bool := s.toList.contains '/'

/-- `split_once('/')`. -/
def splitOnce (s : String) : Option (String × String) :=
  if hasSlash s then
    some (.ofList (s.toList.takeWhile (· ≠ '/')), .ofList ((s.toList.dropWhile (· ≠ '/')).drop 1))
  else none

/-! ## the operator -/

inductive AuthorError where
  | emptyName
  | slashInName
  | expiresNotPositive
  | rootKey
  | alreadyOperator
  | notOperator
  | noInstalledRoster
  | parseRoster (msg : String)
  | joinCode (e : JoinCodeError)
  | emptyUserId
  | slashInUserId
  | emptyTarget
  | keyOfDevice
  | mutation (e : MutateError)
  | sign (e : RosterError)
  | serialize (msg : String)
  | stage
  | install (e : InstallError)
  | successorKey
  | sameKey
  | promote
  | notPublished (e : AuthorError)
  deriving DecidableEq, Repr

structure OrgCreateResult where
  orgId : String
  serial : Nat
  orgInvite : OrgInviteCode
  deriving DecidableEq, Repr

structure OrgApproveResult where
  userId : String
  groups : List String
  orgId : String
  serial : Nat
  deriving DecidableEq, Repr

structure OrgRevokeResult where
  target : String
  mode : String
  orgId : String
  serial : Nat
  deriving DecidableEq, Repr

structure OrgRotateResult where
  orgId : String
  serial : Nat
  newRootPk : String
  deriving DecidableEq, Repr

/-- Where the root key is, and where a rotation stages the successor by default. -/
def orgRootKeyPath : String := "org-root.key"

def orgRootNextPath : String := "org_root_next.key"

def defaultExpiresSecs : Int := 90 * 86400

section Author

variable (P : Primitives) {J : SerdeJson} (C : AuthorCodec J) (K : SigningKeys P)
  (ownId : EndpointId)

/-- The operator's node and its key files. -/
structure Operator (J : SerdeJson) (K : SigningKeys P) where
  node : Node J
  keyFiles : String → Option K.SigningKey

variable {P K} in
/-- What one verb meets: an install's environment, whether the other steps
succeed, and the key a generator would make. -/
structure AuthorEnv (K : SigningKeys P) where
  install : Env
  rootKeyIo : Bool
  nextKeyIo : Bool
  rosterRead : Bool
  promote : Bool
  restore : Bool
  minted : K.SigningKey

abbrev Author (J : SerdeJson) (K : SigningKeys P) : Type → Type :=
  Action (Operator P J K) AuthorError

variable {K}

/-- `load_or_generate`: the key of a file, or a new one in it. -/
def loadOrGenerate (io : Bool) (minted : K.SigningKey) (path : String) (e : AuthorError) :
    Author P J K (K.SigningKey × Bool) := do
  Action.attempt (ensure io e)
  let op ← get
  match op.keyFiles path with
  | some key => pure (key, false)
  | none =>
      modify fun op => { op with keyFiles := Function.update op.keyFiles path (some minted) }
      pure (minted, true)

def loadOperatorRoster (env : AuthorEnv K) : Author P J K (K.SigningKey × Roster) := do
  let op ← get
  match op.keyFiles orgRootKeyPath, op.node.rosterFile with
  | none, _ => throw .notOperator
  | some root, file =>
      Action.attempt (ensure env.rootKeyIo .rootKey)
      Action.attempt (ensure env.rosterRead .noInstalledRoster)
      let bytes ← Action.attempt (okOr file .noInstalledRoster)
      let roster ← Action.attempt ((J.fromSlice bytes).mapError .parseRoster)
      pure (root, roster)

/-- Install a roster this node just signed. -/
def installAuthored (env : AuthorEnv K) (roster : Roster) (orgRootPk : Option String) :
    Author P J K (String × Nat) := do
  let bytes ← Action.attempt ((C.toVec roster).mapError .serialize)
  Action.attempt (ensure env.install.staging .stage)
  Action.zoom Operator.node (fun op node => { op with node }) .install
    (installRoster P ownId env.install bytes orgRootPk)

/-- Mint the org root and install an empty roster at serial 1; pinning
`rosterUrl` is best effort. -/
def orgCreate (env : AuthorEnv K) (name : String) (expiresSecs : Option Int)
    (rosterUrl : Option String) : Author P J K OrgCreateResult := do
  Action.attempt (ensure (!isBlank name) .emptyName)
  Action.attempt (ensure (!hasSlash name) .slashInName)
  let expiresSecs := expiresSecs.getD defaultExpiresSecs
  Action.attempt (ensure (0 < expiresSecs) .expiresNotPositive)
  let (root, created) ← loadOrGenerate P env.rootKeyIo env.minted orgRootKeyPath .rootKey
  Action.attempt (ensure created .alreadyOperator)
  let now := env.install.now
  let roster ← Action.attempt ((mintSigned P K root
    (emptyRoster P name 1 now (saturatingAdd now expiresSecs))).mapError .sign)
  let orgRootPk := encodeB64u P (K.verifyingKey root).toBytes.toList
  let (orgId, serial) ← installAuthored P C ownId env roster (some orgRootPk)
  pure { orgId, serial, orgInvite := { orgId := name, orgRootPk, rosterUrl } }

/-- Verify a join code, list the member and publish. -/
def orgApprove (env : AuthorEnv K) (joinCode : String) (groups : List String)
    (userId : Option String) : Author P J K OrgApproveResult := do
  let (jc, _, _) ← Action.attempt ((inspectJoinCode P C joinCode).mapError .joinCode)
  let (root, roster) ← loadOperatorRoster P env
  let uid := userId.getD jc.requestedUserId
  Action.attempt (ensure (!isBlank uid) .emptyUserId)
  Action.attempt (ensure (!hasSlash uid) .slashInUserId)
  let roster := { roster with serial := roster.serial + 1 }
  let (roster, result) := (upsertMember uid jc.displayName jc.userPk groups jc.deviceEndpointId
    jc.deviceLabel).apply roster
  Action.attempt (result.mapError .mutation)
  let roster ← Action.attempt ((sign P K root roster).mapError .sign)
  let (orgId, serial) ← installAuthored P C ownId env roster none
  pure { userId := uid, groups, orgId, serial }

/-- The edit a revoke target asks for, and how the verb reports it. -/
def revokeEdit (target : String) (userKey : Bool) : Mutate × String :=
  if userKey then (removeUser target false, "user-key-rotation")
  else
    match splitOnce target with
    | some (person, device) => (revokeDevice person device, "device")
    | none => (removeUser target true, "person")

/-- Cut a device or a person and publish. -/
def orgRevoke (env : AuthorEnv K) (target : String) (userKey : Bool) :
    Author P J K OrgRevokeResult := do
  Action.attempt (ensure (!isBlank target) .emptyTarget)
  Action.attempt (ensure (!(userKey && hasSlash target)) .keyOfDevice)
  let (root, roster) ← loadOperatorRoster P env
  let roster := { roster with serial := roster.serial + 1 }
  let (edit, mode) := revokeEdit target userKey
  let (roster, result) := edit.apply roster
  Action.attempt (result.mapError .mutation)
  let roster ← Action.attempt ((sign P K root roster).mapError .sign)
  let (orgId, serial) ← installAuthored P C ownId env roster none
  pure { target, mode, orgId, serial }

/-- Rename the staged successor over the root key. -/
def promote (nextPath : String) (successor : K.SigningKey) (op : Operator P J K) :
    Operator P J K :=
  { op with
    keyFiles := Function.update (Function.update op.keyFiles nextPath none) orgRootKeyPath
      (some successor) }

/-- Put the predecessor back. -/
def restore (env : AuthorEnv K) (current : K.SigningKey) (op : Operator P J K) : Operator P J K :=
  if env.restore then
    { op with keyFiles := Function.update op.keyFiles orgRootKeyPath (some current) }
  else op

/-- Name a successor root and publish the bridge to it, signed by the
successor. -/
def orgRotate (env : AuthorEnv K) (newKeyPath : Option String) : Author P J K OrgRotateResult := do
  let (current, roster) ← loadOperatorRoster P env
  let nextPath := newKeyPath.getD orgRootNextPath
  let (successor, _) ← loadOrGenerate P env.nextKeyIo env.minted nextPath .successorKey
  let successorPk := (K.verifyingKey successor).toBytes
  Action.attempt (ensure (successorPk ≠ (K.verifyingKey current).toBytes) .sameKey)
  let cross := signOrgRotation P K current roster.orgId successorPk
  let roster :=
    { roster with
      serial := roster.serial + 1
      successorRootPk := some (encodeB64u P successorPk.toList)
      successorSig := some (encodeB64u P cross.toList)
      format := rosterFormatRotation }
  let roster ← Action.attempt ((sign P K successor roster).mapError .sign)
  -- a failed rename publishes nothing
  Action.attempt (ensure env.promote .promote)
  modify (promote P nextPath successor)
  let newRootPk := encodeB64u P successorPk.toList
  let (orgId, serial) ←
    tryCatch (installAuthored P C ownId env roster (some newRootPk)) fun e => do
      modify (restore P env current)
      throw (.notPublished e)
  pure { orgId, serial, newRootPk }

/-! ## what a successful verb did -/

/-- The roster is on disk and passed every rule that no anchor decides. -/
structure Installed (node : Node J) (roster : Roster) : Prop where
  onDisk : ∃ bytes, node.rosterFile = some bytes ∧ J.fromSlice bytes = .ok roster
  format : checkFormat roster = .ok ()
  fresh : ∃ serial now view, checkFresh P roster serial now = .ok view

/-- An edit of the members: neither the org, nor the format, nor the bridge. -/
structure SameHeader (roster edited : Roster) : Prop where
  format : edited.format = roster.format
  orgId : edited.orgId = roster.orgId
  successorRootPk : edited.successorRootPk = roster.successorRootPk
  successorSig : edited.successorSig = roster.successorSig

/-- A verb that kept the root key, edited the members and published. -/
structure Republished (op op' : Operator P J K) (root : K.SigningKey)
    (roster edited signed : Roster) : Prop where
  rootKey : op.keyFiles orgRootKeyPath = some root
  loaded : ∃ bytes, op.node.rosterFile = some bytes ∧ J.fromSlice bytes = .ok roster
  header : SameHeader roster edited
  signature : sign P K root edited = .ok signed
  kept : op'.keyFiles orgRootKeyPath = some root
  installed : Installed P op'.node signed

/-- The roster that names `successor`, before it is signed. -/
def rotated (current successor : K.SigningKey) (roster : Roster) : Roster :=
  let successorPk := (K.verifyingKey successor).toBytes
  { roster with
    serial := roster.serial + 1
    successorRootPk := some (encodeB64u P successorPk.toList)
    successorSig :=
      some (encodeB64u P (signOrgRotation P K current roster.orgId successorPk).toList)
    format := rosterFormatRotation }

/-- A verb that moved the root key from `current` to `successor` and published
the bridge. -/
structure RootMoved (op op' : Operator P J K) (current successor : K.SigningKey)
    (roster signed : Roster) : Prop where
  rootKey : op.keyFiles orgRootKeyPath = some current
  loaded : ∃ bytes, op.node.rosterFile = some bytes ∧ J.fromSlice bytes = .ok roster
  moved : (K.verifyingKey successor).toBytes ≠ (K.verifyingKey current).toBytes
  signature : sign P K successor (rotated P current successor roster) = .ok signed
  promoted : op'.keyFiles orgRootKeyPath = some successor
  installed : Installed P op'.node signed

variable {P C ownId} {op op' : Operator P J K} {env : AuthorEnv K} {roster : Roster}

/-- A roster has its own header. -/
theorem SameHeader.refl (roster : Roster) : SameHeader roster roster := ⟨rfl, rfl, rfl, rfl⟩

/-- The serial is no part of the header. -/
theorem SameHeader.of_serial {serial : Nat} {edited : Roster}
    (h : SameHeader { roster with serial } edited) : SameHeader roster edited :=
  ⟨h.format, h.orgId, h.successorRootPk, h.successorSig⟩

/-- An upsert of a member leaves the header. -/
theorem SameHeader.upsertMember (userId displayName userPk : String) (groups : List String)
    (endpoint label : String) (r : Roster) :
    SameHeader r ((upsertMember userId displayName userPk groups endpoint label).apply r).1 := by
  obtain ⟨e, h⟩ | ⟨-, -, -, -, h⟩ :=
    upsertMember_cases userId displayName userPk groups endpoint label r
  · rw [h]
    exact .refl r
  · rw [h]
    exact ⟨rfl, rfl, rfl, rfl⟩

/-- A revoke leaves the header. -/
theorem SameHeader.revokeEdit (target : String) (userKey : Bool) (r : Roster) :
    SameHeader r ((revokeEdit target userKey).1.apply r).1 := by
  have hremove : ∀ revokeEndpoints,
      SameHeader r ((removeUser target revokeEndpoints).apply r).1 := by
    intro revokeEndpoints
    obtain ⟨e, h⟩ | ⟨user, huser⟩ := removeUser_cases target revokeEndpoints r
    · rw [h]
      exact .refl r
    · rw [removeUser_apply huser]
      exact ⟨rfl, rfl, rfl, rfl⟩
  unfold Mcpmesh.revokeEdit
  split
  · exact hremove false
  · split
    · rename_i person device _
      obtain ⟨e, h⟩ | ⟨user, dev, huser, hdev⟩ := revokeDevice_cases person device r
      · rw [h]
        exact .refl r
      · rw [revokeDevice_apply huser hdev]
        exact ⟨rfl, rfl, rfl, rfl⟩
    · exact hremove true

/-- The operator's install leaves the file's roster on disk, having judged it. -/
theorem installRoster_ok {node node' : Node J} {e : Env} {file : J.Bytes}
    {orgRootPk : Option String} {r : String × Nat} (hroster : J.fromSlice file = .ok roster)
    (h : (installRoster P ownId e file orgRootPk).apply node = (node', .ok r)) :
    Installed P node' roster := by
  have hcall : installStep P ownId node (.manual e file orgRootPk) =
      (node', .ok (.installed r.1 r.2)) := by
    rw [installStep, h]
    rfl
  obtain ⟨-, e', hstep⟩ | ⟨view, anchor, out, haccepted, hstep⟩ :=
    installStep_manual (P := P) ownId node e file orgRootPk
  · rw [hcall] at hstep
    exact absurd (congrArg Prod.snd hstep) (by simp)
  · by_cases hlost : PinLost (.manual e file orgRootPk) anchor
    · rw [hcall, acceptedStep_of_lost _ hlost] at hstep
      exact absurd (congrArg Prod.snd hstep) (by simp)
    · rw [hcall, acceptedStep_of_pinned _ (pinWrite_of_not_pinLost hlost)] at hstep
      obtain rfl := congrArg Prod.fst hstep
      obtain ⟨pkStr, pk, -, hjudge⟩ := haccepted.judged
      obtain ⟨-, roster', serial, hroster', -, hformat, -, hfresh, hout⟩ := judge_eq_ok.mp hjudge
      obtain rfl := Except.ok.inj (hroster'.symm.trans hroster)
      exact ⟨⟨out, installedNode_rosterFile, J.fromSlice_toVecPretty _ _ hout⟩, hformat,
        ⟨serial, _, view, hfresh⟩⟩

/-- A roster that was installed as authored is live; the key files stay. -/
theorem installAuthored_ok {orgRootPk : Option String} {r : String × Nat}
    (h : (installAuthored P C ownId env roster orgRootPk).apply op = (op', .ok r)) :
    op'.keyFiles = op.keyFiles ∧ Installed P op'.node roster := by
  obtain ⟨bytes, hbytes, h⟩ := Action.attempt_bind_ok.mp h
  obtain ⟨_, -, h⟩ := Action.attempt_bind_ok.mp h
  obtain ⟨node, hinstall, rfl⟩ := Action.zoom_ok.mp h
  exact ⟨rfl, installRoster_ok (C.fromSlice_toVec _ _ (mapError_eq_ok.mp hbytes)) hinstall⟩

/-- The operator's roster is loaded with the root key, and nothing changes. -/
theorem loadOperatorRoster_ok {root : K.SigningKey}
    (h : (loadOperatorRoster P env : Author P J K _).apply op = (op', .ok (root, roster))) :
    op = op' ∧ op.keyFiles orgRootKeyPath = some root ∧
      ∃ bytes, op.node.rosterFile = some bytes ∧ J.fromSlice bytes = .ok roster := by
  rw [loadOperatorRoster, Action.apply_get] at h
  cases hroot : op.keyFiles orgRootKeyPath with
  | none =>
      rw [hroot] at h
      exact absurd (congrArg Prod.snd h) (by simp [Action.apply])
  | some root' =>
      rw [hroot] at h
      dsimp only at h
      obtain ⟨_, -, h⟩ := Action.attempt_bind_ok.mp h
      obtain ⟨_, -, h⟩ := Action.attempt_bind_ok.mp h
      obtain ⟨bytes, hbytes, h⟩ := Action.attempt_bind_ok.mp h
      obtain ⟨roster', hroster, h⟩ := Action.attempt_bind_ok.mp h
      obtain ⟨rfl, heq⟩ := Action.pure_ok.mp h
      obtain ⟨rfl, rfl⟩ := Prod.mk.inj heq
      exact ⟨rfl, rfl, bytes, okOr_eq_ok.mp hbytes, mapError_eq_ok.mp hroster⟩

/-- The key that is loaded or minted is at its path; the node stays. -/
theorem loadOrGenerate_ok {io created : Bool} {minted key : K.SigningKey} {path : String}
    {e : AuthorError}
    (h : (loadOrGenerate P io minted path e : Author P J K _).apply op =
      (op', .ok (key, created))) :
    op'.node = op.node ∧ op'.keyFiles path = some key := by
  obtain ⟨_, -, h⟩ := Action.attempt_bind_ok.mp h
  rw [Action.apply_get] at h
  cases hpath : op.keyFiles path with
  | some key' =>
      rw [hpath] at h
      obtain ⟨rfl, heq⟩ := Action.pure_ok.mp h
      obtain ⟨rfl, -⟩ := Prod.mk.inj heq
      exact ⟨rfl, hpath⟩
  | none =>
      rw [hpath] at h
      dsimp only at h
      rw [Action.apply_modify_bind] at h
      obtain ⟨rfl, heq⟩ := Action.pure_ok.mp h
      obtain ⟨rfl, -⟩ := Prod.mk.inj heq
      exact ⟨rfl, Function.update_self ..⟩

/-- The tail of a verb that edits: sign with the root and install. -/
theorem republished_of_install {root : K.SigningKey} {edited signed : Roster} {r : String × Nat}
    (hroot : op.keyFiles orgRootKeyPath = some root)
    (hloaded : ∃ bytes, op.node.rosterFile = some bytes ∧ J.fromSlice bytes = .ok roster)
    (hheader : SameHeader roster edited) (hsign : sign P K root edited = .ok signed)
    (h : (installAuthored P C ownId env signed none).apply op = (op', .ok r)) :
    Republished P op op' root roster edited signed := by
  obtain ⟨hkeys, hinstalled⟩ := installAuthored_ok h
  exact ⟨hroot, hloaded, hheader, hsign, by rw [hkeys, hroot], hinstalled⟩

/-- An approval republishes the edited roster under the root. -/
theorem orgApprove_ok {joinCode : String} {groups : List String} {userId : Option String}
    {r : OrgApproveResult}
    (h : (orgApprove P C ownId env joinCode groups userId).apply op = (op', .ok r)) :
    ∃ root roster edited signed, Republished P op op' root roster edited signed := by
  obtain ⟨⟨jc, userPk, deviceId⟩, -, h⟩ := Action.attempt_bind_ok.mp h
  obtain ⟨op₁, ⟨root, roster⟩, hload, h⟩ := Action.bind_ok.mp h
  obtain ⟨rfl, hroot, hloaded⟩ := loadOperatorRoster_ok hload
  obtain ⟨_, -, h⟩ := Action.attempt_bind_ok.mp h
  obtain ⟨_, -, h⟩ := Action.attempt_bind_ok.mp h
  obtain ⟨_, -, h⟩ := Action.attempt_bind_ok.mp h
  obtain ⟨signed, hsign, h⟩ := Action.attempt_bind_ok.mp h
  obtain ⟨op₂, ⟨orgId, serial⟩, hinstall, h⟩ := Action.bind_ok.mp h
  obtain ⟨rfl, -⟩ := Action.pure_ok.mp h
  have hheader := SameHeader.upsertMember (userId.getD jc.requestedUserId) jc.displayName jc.userPk
    groups jc.deviceEndpointId jc.deviceLabel { roster with serial := roster.serial + 1 }
  exact ⟨root, roster, _, signed, republished_of_install hroot hloaded hheader.of_serial
    (mapError_eq_ok.mp hsign) hinstall⟩

/-- A revoke republishes the edited roster under the root. -/
theorem orgRevoke_ok {target : String} {userKey : Bool} {r : OrgRevokeResult}
    (h : (orgRevoke P C ownId env target userKey).apply op = (op', .ok r)) :
    ∃ root roster edited signed, Republished P op op' root roster edited signed := by
  obtain ⟨_, -, h⟩ := Action.attempt_bind_ok.mp h
  obtain ⟨_, -, h⟩ := Action.attempt_bind_ok.mp h
  obtain ⟨op₁, ⟨root, roster⟩, hload, h⟩ := Action.bind_ok.mp h
  obtain ⟨rfl, hroot, hloaded⟩ := loadOperatorRoster_ok hload
  obtain ⟨_, -, h⟩ := Action.attempt_bind_ok.mp h
  obtain ⟨signed, hsign, h⟩ := Action.attempt_bind_ok.mp h
  obtain ⟨op₂, ⟨orgId, serial⟩, hinstall, h⟩ := Action.bind_ok.mp h
  obtain ⟨rfl, -⟩ := Action.pure_ok.mp h
  have hheader := SameHeader.revokeEdit target userKey { roster with serial := roster.serial + 1 }
  exact ⟨root, roster, _, signed, republished_of_install hroot hloaded hheader.of_serial
    (mapError_eq_ok.mp hsign) hinstall⟩

/-- A rotation moves the root, and publishes the roster with the statement of it. -/
theorem orgRotate_ok {newKeyPath : Option String} {r : OrgRotateResult}
    (h : (orgRotate P C ownId env newKeyPath).apply op = (op', .ok r)) :
    ∃ current successor roster signed, RootMoved P op op' current successor roster signed := by
  obtain ⟨op₁, ⟨current, roster⟩, hload, h⟩ := Action.bind_ok.mp h
  obtain ⟨rfl, hroot, hloaded⟩ := loadOperatorRoster_ok hload
  obtain ⟨op₂, ⟨successor, created⟩, -, h⟩ := Action.bind_ok.mp h
  obtain ⟨_, hmoved, h⟩ := Action.attempt_bind_ok.mp h
  obtain ⟨signed, hsign, h⟩ := Action.attempt_bind_ok.mp h
  obtain ⟨_, -, h⟩ := Action.attempt_bind_ok.mp h
  obtain ⟨op₃, ⟨orgId, serial⟩, hcatch, h⟩ :=
    Action.bind_ok.mp (Action.modify_bind_ok.mp h)
  obtain ⟨rfl, -⟩ := Action.pure_ok.mp h
  obtain ⟨hkeys, hinstalled⟩ := installAuthored_ok
    (Action.tryCatch_ok (fun e s => ⟨restore P env current s, .notPublished e, rfl⟩) hcatch)
  refine ⟨current, successor, roster, signed, hroot, hloaded,
    of_decide_eq_true (ensure_eq_ok.mp hmoved), mapError_eq_ok.mp hsign, ?_, hinstalled⟩
  simp only [hkeys, promote, Function.update_self]

/-- A new org goes live with a signed roster, and its root key is at its path. -/
theorem orgCreate_ok {name : String} {expiresSecs : Option Int} {rosterUrl : Option String}
    {r : OrgCreateResult}
    (h : (orgCreate P C ownId env name expiresSecs rosterUrl).apply op = (op', .ok r)) :
    ∃ root body signed, sign P K root body = .ok signed ∧
      op'.keyFiles orgRootKeyPath = some root ∧ Installed P op'.node signed := by
  obtain ⟨_, -, h⟩ := Action.attempt_bind_ok.mp h
  obtain ⟨_, -, h⟩ := Action.attempt_bind_ok.mp h
  obtain ⟨_, -, h⟩ := Action.attempt_bind_ok.mp h
  obtain ⟨op₁, ⟨root, created⟩, hload, h⟩ := Action.bind_ok.mp h
  obtain ⟨_, -, h⟩ := Action.attempt_bind_ok.mp h
  obtain ⟨signed, hsign, h⟩ := Action.attempt_bind_ok.mp h
  obtain ⟨op₂, ⟨orgId, serial⟩, hinstall, h⟩ := Action.bind_ok.mp h
  obtain ⟨rfl, -⟩ := Action.pure_ok.mp h
  obtain ⟨hkeys, hinstalled⟩ := installAuthored_ok hinstall
  exact ⟨root, _, signed, mapError_eq_ok.mp hsign, by rw [hkeys, (loadOrGenerate_ok hload).2],
    hinstalled⟩

end Author

end Mcpmesh
