import Mcpmesh.Lib.Run
import Mcpmesh.Pairing.Introduce
import Mcpmesh.Roster.Sign

/-!
# Mcpmesh.Daemon.UserKey

The identity that a node presents (`node/src/daemon/handlers.rs`,
`node/src/daemon.rs`, `node/src/daemon/boot.rs`).

On disk it is `user.key`, and a sidecar that outranks it once the device was
enrolled into another identity.  In memory it is three slots: the binding that
boot derived, one restored by an import, one adopted.  Every verb that changes
or uses them holds `user_key_lock`; a file operation runs on a blocking thread
and is awaited, so that a call dropped meanwhile leaves it running.
-/

namespace Mcpmesh

open Lib

/-! ## what a key signs -/

/-- A device-to-user binding, as presented. -/
structure SelfBinding where
  userPk : String
  sig : String
  deriving DecidableEq

/-- The JSON of the sidecar. -/
structure BindingJson where
  toVec : SelfBinding → List UInt8
  fromSlice : List UInt8 → Except String SelfBinding
  fromSlice_toVec : ∀ binding, fromSlice (toVec binding) = .ok binding

/-- A signed revocation of a device of one's own. -/
structure RevocationToken where
  userId : String
  endpoint : EndpointId
  issuedAt : UInt64
  sig : String
  reason : Option String
  deriving DecidableEq

section Keys

variable (P : Primitives) (K : SigningKeys P)

/-- `binding::user_id` -/
def userIdOf (key : K.SigningKey) : String :=
  encodeB64u P (K.verifyingKey key).toBytes.toList

/-- `binding_sig_for` -/
def bindingSigFor (key : K.SigningKey) (eid : EndpointId) : String :=
  encodeB64u P (K.sign key (deviceBindingPreimage (K.verifyingKey key).toBytes eid)).toList

/-- `binding::present` -/
def present (own : EndpointId) (key : K.SigningKey) : SelfBinding where
  userPk := userIdOf P K key
  sig := bindingSigFor P K key own

/-- `binding::endorse` -/
def endorse (key : K.SigningKey) (subject : EndpointId) (subjectUserPk : Option String) :
    Except RosterError String := do
  let subjectPk ← subjectUserPk.mapM (decode32 P)
  .ok (encodeB64u P
    (K.sign key (introducePreimage (K.verifyingKey key).toBytes subject subjectPk)).toList)

def signRevocation (key : K.SigningKey) (endpoint : EndpointId) (issuedAt : UInt64)
    (reason : Option String) : RevocationToken where
  userId := userIdOf P K key
  endpoint
  issuedAt
  sig := encodeB64u P
    (K.sign key (deviceRevocationPreimage (K.verifyingKey key).toBytes endpoint issuedAt)).toList
  reason

/-- A key as words. -/
structure RecoveryPhrase where
  encode : K.SigningKey → String
  decode : String → Option K.SigningKey

/-! ## the verbs -/

/-- A verb that signs with the key of this node. -/
inductive SigningVerb where
  | endorsePeer (subject : EndpointId) (subjectUserId : Option String)
  | deviceRevoke (endpoint : EndpointId) (issuedAt : UInt64) (reason : Option String)
  | userKeyExport
  /-- `sign_ceremony_binding`, under the identity that the ceremony presents -/
  | signBinding (presented : Option SelfBinding) (eid : EndpointId)

inductive KeyVerb where
  | adopt (binding : SelfBinding)
  | userKeyImport (phrase : String) (replace : Bool)
  | selfEnrollDetach
  | signing (verb : SigningVerb)

/-- What a caller gets that only the key makes. -/
inductive Handed where
  | endorsement (endorsedBy evidence : String)
  | token (token : RevocationToken)
  | phrase (recoveryPhrase userId : String)
  | binding (sig : String)
  deriving DecidableEq

/-- What a verb makes with a key. -/
def handOut (R : RecoveryPhrase P K) (key : K.SigningKey) : SigningVerb → Option Handed
  | .endorsePeer subject subjectUserId =>
      (endorse P K key subject subjectUserId).toOption.map (.endorsement (userIdOf P K key))
  | .deviceRevoke endpoint issuedAt reason =>
      some (.token (signRevocation P K key endpoint issuedAt reason))
  | .userKeyExport => some (.phrase (R.encode key) (userIdOf P K key))
  | .signBinding _ eid => some (.binding (bindingSigFor P K key eid))

/-! ## files -/

/-- `user.key` and the adopted sidecar. -/
structure IdentityFiles where
  userKey : K.SigningKey
  adopted : Option (List UInt8)

/-- What a blocking thread runs. -/
inductive FileJob where
  | writeAdopted (raw : List UInt8)
  /-- an import reads the sidecar and then removes it -/
  | supersedeRead
  | supersedeRemove (raw : List UInt8)
  | writeKey (key : K.SigningKey) (overwrite : Bool)
  | removeAdopted
  | readKey
  | endorse

inductive JobResult where
  | error
  | done
  /-- of the sidecar: what was read, or whether there was one -/
  | superseded (raw : Option (List UInt8))
  | removed (existed : Bool)
  | key (key : K.SigningKey)

/-- One file operation of a job: the files, and the rest of the job or its
result.  One that fails has no effect. -/
def FileJob.run (files : IdentityFiles P K) (ok : Bool) :
    FileJob P K → IdentityFiles P K × (FileJob P K ⊕ JobResult P K)
  | .writeAdopted raw =>
      if ok then ({ files with adopted := some raw }, .inr .done) else (files, .inr .error)
  | .supersedeRead =>
      if ok then
        match files.adopted with
        | some raw => (files, .inl (.supersedeRemove raw))
        | none => (files, .inr (.superseded none))
      else (files, .inr .error)
  | .supersedeRemove raw =>
      -- a file that is gone is an error as well
      if ok && files.adopted.isSome then
        ({ files with adopted := none }, .inr (.superseded (some raw)))
      else (files, .inr .error)
  | .writeKey key overwrite =>
      -- the file exists, so a write that may not replace it fails
      if ok && overwrite then ({ files with userKey := key }, .inr .done)
      else (files, .inr .error)
  | .removeAdopted =>
      if files.adopted.isNone then (files, .inr (if ok then .removed false else .error))
      else if ok then ({ files with adopted := none }, .inr (.removed true))
      else (files, .inr .error)
  | .readKey => (files, .inr (if ok then .key files.userKey else .error))
  | .endorse => (files, .inr (if ok then .done else .error))

/-! ## the node -/

/-- Where a call awaits a job under the lock. -/
inductive KeyAwait where
  | adopting (binding : SelfBinding)
  | superseding (key : K.SigningKey) (existed : Bool)
  | importing (key : K.SigningKey) (removed : Option (List UInt8))
  | restoring
  | clearingStale
  | detaching
  | reading (verb : SigningVerb)
  | endorsing (key : K.SigningKey) (verb : SigningVerb)

inductive KeyPhase where
  | idle
  | waiting (verb : KeyVerb)
  | running (await : KeyAwait P K) (job : FileJob P K)
  | ran (await : KeyAwait P K) (result : JobResult P K)

/-- `entered` is a ghost: what was presented when the lock was last taken. -/
structure IdentityNode where
  files : IdentityFiles P K
  bound : Option SelfBinding
  imported : Option SelfBinding
  adopted : Option SelfBinding
  bootMinted : Bool
  lock : Option Nat
  calls : Nat → KeyPhase P K
  orphans : List (FileJob P K)
  entered : Option SelfBinding

/-- An `ok` flag is whether the file operation succeeds; `exists?` is what
`path.exists()` answers for `user.key`. -/
inductive KeyEvent where
  | call (i : Nat) (verb : KeyVerb)
  | acquire (i : Nat) (exists? : Bool)
  | job (i : Nat) (ok : Bool)
  | resume (i : Nat)
  | abort (i : Nat)
  | orphan (k : Nat) (ok : Bool)
  | restart (readOk : Bool)

/-- `refused`: before the lock; `error dropped`: after it, `dropped` where the
error says that the enrollment is gone. -/
inductive KeyReply where
  | refused
  | error (dropped : Bool)
  | ok
  | handed (handed : Handed)
  deriving DecidableEq

namespace IdentityNode

variable {P K}

/-- `self_binding()` -/
def selfBinding (s : IdentityNode P K) : Option SelfBinding :=
  s.adopted.or (s.imported.or s.bound)

/-- Go on under the lock. -/
def await (s : IdentityNode P K) (i : Nat) (await : KeyAwait P K) (job : FileJob P K) :
    IdentityNode P K :=
  { s with lock := some i, calls := Function.update s.calls i (.running await job) }

/-- Return, and drop the guard. -/
def release (s : IdentityNode P K) (i : Nat) : IdentityNode P K :=
  { s with lock := none, calls := Function.update s.calls i .idle }

end IdentityNode

section Steps

variable {P K} (R : RecoveryPhrase P K) (J : BindingJson) (own : EndpointId)

/-- The binding verifies for this endpoint. -/
def SelfBinding.Verifies (binding : SelfBinding) : Prop :=
  (verifyPresented P binding.userPk binding.sig own).toOption.isSome

instance (binding : SelfBinding) : Decidable (binding.Verifies (P := P) own) :=
  inferInstanceAs (Decidable (_ = true))

/-- The binding that a sidecar holds, if it verifies. -/
def adoptable (raw : List UInt8) : Option SelfBinding :=
  (J.fromSlice raw).toOption.filter fun binding => binding.Verifies (P := P) own

namespace IdentityNode

/-- The identity that boot adopts; a sidecar that does not read, or does not
verify, is only logged. -/
def boot (files : IdentityFiles P K) (minted readOk : Bool) : IdentityNode P K where
  files
  bound := some (present P K own files.userKey)
  imported := none
  adopted := if readOk then files.adopted.bind (adoptable (P := P) J own) else none
  bootMinted := minted
  lock := none
  calls _ := .idle
  orphans := []
  entered := none

/-- From the lock to the first await. -/
def enter (s : IdentityNode P K) (i : Nat) (exists? : Bool) :
    KeyVerb → IdentityNode P K × Option KeyReply
  | .adopt binding => (s.await i (.adopting binding) (.writeAdopted (J.toVec binding)), none)
  | .userKeyImport phrase replace =>
      match R.decode phrase with
      -- decoded before the lock
      | none => (s, none)
      | some key =>
          let guarded := exists? && !s.bootMinted
          if guarded && !replace then (s.release i, some (.error false))
          else (s.await i (.superseding key exists?) .supersedeRead, none)
  | .selfEnrollDetach =>
      match s.adopted with
      | none => (s.await i .clearingStale .removeAdopted, none)
      | some _ => (s.await i .detaching .removeAdopted, none)
  | .signing verb =>
      if s.adopted.isSome then (s.release i, some (.error false))
      else
        match verb with
        | .signBinding presented _ =>
            -- the identity changed during the ceremony, or there is none
            if presented.isNone || s.selfBinding ≠ presented || !exists? then
              (s.release i, some (.error false))
            else (s.await i (.reading verb) .readKey, none)
        | _ =>
            if exists? then (s.await i (.reading verb) .readKey, none)
            else (s.release i, some (.error false))

/-- The last step of an import that failed. -/
def importFailed (s : IdentityNode P K) (i : Nat) :
    Option (List UInt8) → IdentityNode P K × Option KeyReply
  | some raw => (s.await i .restoring (.writeAdopted raw), none)
  | none => (s.release i, some (.error false))

/-- The key is read: sign, on the spot or on a blocking thread. -/
def keyRead (s : IdentityNode P K) (i : Nat) (key : K.SigningKey) (verb : SigningVerb) :
    IdentityNode P K × Option KeyReply :=
  match verb with
  | .endorsePeer _ _ => (s.await i (.endorsing key verb) .endorse, none)
  | .signBinding presented _ =>
      -- the key on disk is not the one behind the identity
      if presented.any fun binding => binding.userPk = userIdOf P K key then
        (s.release i, (handOut P K R key verb).map .handed)
      else (s.release i, some (.error false))
  | _ => (s.release i, (handOut P K R key verb).map .handed)

/-- From the end of a job to the next await, or to the end. -/
def resume (s : IdentityNode P K) (i : Nat) :
    KeyAwait P K → JobResult P K → IdentityNode P K × Option KeyReply
  | .adopting binding, .done => ({ s with adopted := some binding }.release i, some .ok)
  | .superseding key existed, .superseded removed =>
      (s.await i (.importing key removed) (.writeKey key existed), none)
  | .importing key _, .done =>
      ({ s with
          bootMinted := false
          imported := some (present P K own key)
          adopted := none }.release i, some .ok)
  | .importing _ removed, _ => s.importFailed i removed
  | .restoring, .done => (s.release i, some (.error false))
  | .restoring, _ => ({ s with adopted := none }.release i, some (.error true))
  | .detaching, .removed _ => ({ s with adopted := none }.release i, some .ok)
  | .reading verb, .key key => s.keyRead R i key verb
  | .endorsing key verb, .done =>
      (s.release i, some (((handOut P K R key verb).map .handed).getD (.error false)))
  | _, _ => (s.release i, some (.error false))

/-- The call is dropped; a job that runs goes on. -/
def abort (s : IdentityNode P K) (i : Nat) : IdentityNode P K :=
  match s.calls i with
  | .idle => s
  | .waiting _ => { s with calls := Function.update s.calls i .idle }
  | .running _ job => { s.release i with orphans := s.orphans ++ [job] }
  | .ran _ _ => s.release i

end IdentityNode

/-- One step, and what a caller gets; a step that cannot be taken changes
nothing. -/
def keyStep (s : IdentityNode P K) : KeyEvent → IdentityNode P K × Option KeyReply
  | .call i verb =>
      match s.calls i, verb with
      | .idle, .adopt binding =>
          -- the redemption verifies the binding that it was handed
          if binding.Verifies (P := P) own then
            ({ s with calls := Function.update s.calls i (.waiting verb) }, none)
          else (s, some .refused)
      | .idle, .userKeyImport phrase _ =>
          if (R.decode phrase).isSome then
            ({ s with calls := Function.update s.calls i (.waiting verb) }, none)
          else (s, some .refused)
      | .idle, _ => ({ s with calls := Function.update s.calls i (.waiting verb) }, none)
      | _, _ => (s, none)
  | .acquire i exists? =>
      match s.calls i, s.lock with
      | .waiting verb, none => { s with entered := s.selfBinding }.enter R J i exists? verb
      | _, _ => (s, none)
  | .job i ok =>
      match s.calls i with
      | .running await job =>
          let (files, rest) := job.run P K s.files ok
          ({ s with
              files
              calls := Function.update s.calls i
                (rest.elim (.running await) (.ran await)) }, none)
      | _ => (s, none)
  | .resume i =>
      match s.calls i with
      | .ran await result => s.resume R own i await result
      | _ => (s, none)
  | .abort i => (s.abort i, none)
  | .orphan k ok =>
      match s.orphans[k]? with
      | some job =>
          let (files, rest) := job.run P K s.files ok
          ({ s with
              files
              orphans := rest.elim (fun job => s.orphans.set k job)
                fun _ => s.orphans.eraseIdx k }, none)
      | none => (s, none)
  | .restart readOk => (.boot J own s.files false readOk, none)

end Steps

end Keys

end Mcpmesh
