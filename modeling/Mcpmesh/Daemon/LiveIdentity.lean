import Mcpmesh.Daemon.UserKey
import Mcpmesh.Lib.Wire
import Mcpmesh.Roster.Successor

/-!
# Mcpmesh.Daemon.LiveIdentity

The identity that a node presents is the one that its next boot would present.

Under the lock the files and the slots may differ, by what the holder still has
to do (`Held`); they agree whenever the lock is free, as long as no call is
dropped while it awaits a write or a removal (`Kept`).  One that is dropped there
frees the lock, and the file changes without the slot.
-/

namespace Mcpmesh

open Lib

section LiveIdentity

variable {P : Primitives} {K : SigningKeys P} (R : RecoveryPhrase P K) (J : BindingJson)
  (own : EndpointId)

/-! ## the law -/

/-- What a step leaves. -/
structure IdentityKept (s s' : IdentityNode P K) (reply : Option KeyReply) : Prop where
  /-- the live identity is the one that a boot from these files presents -/
  live : s'.lock = none → s'.selfBinding = (IdentityNode.boot J own s'.files false true).selfBinding
  /-- a call that failed presents what it found -/
  failed : reply = some (.error false) → s'.selfBinding = s'.entered
  refused : reply = some .refused → s'.files = s.files ∧ s'.selfBinding = s.selfBinding
  /-- what is handed out is made with the key of the identity presented -/
  handed : ∀ h, reply = some (.handed h) → s.adopted = none ∧
    ∃ key verb, handOut P K R key verb = some h ∧ s.selfBinding = some (present P K own key)

/-! ## the condition -/

/-- The job awaited writes or removes a file. -/
def KeyAwait.Changes : KeyAwait P K → Bool
  | .reading _ | .endorsing _ _ => false
  | _ => true

/-- The condition on a step: no call is dropped where it awaits a write or a
removal, and a boot reads the sidecar that there is. -/
def IdentityNode.Kept (s : IdentityNode P K) : KeyEvent → Prop
  | .abort i =>
      match s.calls i with
      | .running await _ | .ran await _ => await.Changes = false
      | _ => True
  | .restart readOk => readOk = true ∨ s.files.adopted.bind (adoptable (P := P) J own) = none
  | _ => True

instance (s : IdentityNode P K) (event : KeyEvent) : Decidable (s.Kept J own event) := by
  unfold IdentityNode.Kept
  split
  · split <;> infer_instance
  · infer_instance
  · infer_instance

/-! ## the invariant -/

/-- The slots, `slot` being the one without an adoption, say what the files
say. -/
structure Agree (files : IdentityFiles P K) (adopted slot : Option SelfBinding) : Prop where
  keyed : slot = some (present P K own files.userKey)
  adopted : adopted = files.adopted.bind (adoptable (P := P) J own)

/-- What the files and the slots say while a call holds the lock. -/
inductive Held (files : IdentityFiles P K) (adopted slot : Option SelfBinding) :
    KeyPhase P K → Prop where
  | adopt {binding} (agree : Agree J own files adopted slot)
      (verifies : binding.Verifies (P := P) own) :
      Held files adopted slot (.running (.adopting binding) (.writeAdopted (J.toVec binding)))
  | adopted {binding} (keyed : slot = some (present P K own files.userKey))
      (file : files.adopted = some (J.toVec binding)) (verifies : binding.Verifies (P := P) own) :
      Held files adopted slot (.ran (.adopting binding) .done)
  | adoptFailed {binding} (agree : Agree J own files adopted slot) :
      Held files adopted slot (.ran (.adopting binding) .error)
  | supersedeRead {key existed} (agree : Agree J own files adopted slot) :
      Held files adopted slot (.running (.superseding key existed) .supersedeRead)
  | supersedeRemove {key existed raw} (agree : Agree J own files adopted slot)
      (file : files.adopted = some raw) :
      Held files adopted slot (.running (.superseding key existed) (.supersedeRemove raw))
  | superseded {key existed} {removed : Option (List UInt8)}
      (keyed : slot = some (present P K own files.userKey)) (gone : files.adopted = none)
      (was : adopted = removed.bind (adoptable (P := P) J own)) :
      Held files adopted slot (.ran (.superseding key existed) (.superseded removed))
  | supersedeFailed {key existed} (agree : Agree J own files adopted slot) :
      Held files adopted slot (.ran (.superseding key existed) .error)
  | writeKey {key overwrite} {removed : Option (List UInt8)}
      (keyed : slot = some (present P K own files.userKey)) (gone : files.adopted = none)
      (was : adopted = removed.bind (adoptable (P := P) J own)) :
      Held files adopted slot (.running (.importing key removed) (.writeKey key overwrite))
  | wroteKey {removed : Option (List UInt8)} (gone : files.adopted = none) :
      Held files adopted slot (.ran (.importing files.userKey removed) .done)
  | writeFailed {key} {removed : Option (List UInt8)}
      (keyed : slot = some (present P K own files.userKey)) (gone : files.adopted = none)
      (was : adopted = removed.bind (adoptable (P := P) J own)) :
      Held files adopted slot (.ran (.importing key removed) .error)
  | restore {raw} (keyed : slot = some (present P K own files.userKey))
      (gone : files.adopted = none) (was : adopted = adoptable (P := P) J own raw) :
      Held files adopted slot (.running .restoring (.writeAdopted raw))
  | restored (agree : Agree J own files adopted slot) :
      Held files adopted slot (.ran .restoring .done)
  | restoreFailed (keyed : slot = some (present P K own files.userKey))
      (gone : files.adopted = none) : Held files adopted slot (.ran .restoring .error)
  | clearStale (agree : Agree J own files adopted slot) (none : adopted = none) :
      Held files adopted slot (.running .clearingStale .removeAdopted)
  | clearedStale {result} (agree : Agree J own files adopted slot) :
      Held files adopted slot (.ran .clearingStale result)
  | detach (agree : Agree J own files adopted slot) :
      Held files adopted slot (.running .detaching .removeAdopted)
  | detached {existed} (keyed : slot = some (present P K own files.userKey))
      (gone : files.adopted = none) : Held files adopted slot (.ran .detaching (.removed existed))
  | detachFailed (agree : Agree J own files adopted slot) :
      Held files adopted slot (.ran .detaching .error)
  | readKey {verb} (agree : Agree J own files adopted slot) (none : adopted = none) :
      Held files adopted slot (.running (.reading verb) .readKey)
  | keyRead {verb} (agree : Agree J own files adopted slot) (none : adopted = none) :
      Held files adopted slot (.ran (.reading verb) (.key files.userKey))
  | readFailed {verb} (agree : Agree J own files adopted slot) :
      Held files adopted slot (.ran (.reading verb) .error)
  | endorse {verb} (agree : Agree J own files adopted slot) (none : adopted = none) :
      Held files adopted slot (.running (.endorsing files.userKey verb) .endorse)
  | endorsed {verb result} (agree : Agree J own files adopted slot) (none : adopted = none) :
      Held files adopted slot (.ran (.endorsing files.userKey verb) result)

/-- A call that holds the lock. -/
def KeyPhase.Holds : KeyPhase P K → Prop
  | .running _ _ | .ran _ _ => True
  | _ => False

/-- The job changes no file. -/
def FileJob.Reads (job : FileJob P K) : Prop :=
  ∀ files ok, ∃ result, job.run P K files ok = (files, .inr result)

/-- What a call that waits for the lock was checked for. -/
def KeyPhase.Checked : KeyPhase P K → Prop
  | .waiting (.adopt binding) => binding.Verifies (P := P) own
  | _ => True

structure IdentityNode.Inv (s : IdentityNode P K) : Prop where
  free : s.lock = none → Agree J own s.files s.adopted (s.imported.or s.bound)
  held : ∀ i, s.lock = some i → s.selfBinding = s.entered ∧
    Held J own s.files s.adopted (s.imported.or s.bound) (s.calls i)
  exclusive : ∀ i, (s.calls i).Holds → s.lock = some i
  checked : ∀ i, (s.calls i).Checked own
  orphans : ∀ job ∈ s.orphans, job.Reads

/-! ## the steps keep it -/

variable {R J own} {s t : IdentityNode P K} {files : IdentityFiles P K}
  {adopted slot : Option SelfBinding} {await : KeyAwait P K} {job : FileJob P K}
  {result : JobResult P K} {i : Nat}

theorem adoptable_toVec {binding : SelfBinding} (h : binding.Verifies (P := P) own) :
    adoptable (P := P) J own (J.toVec binding) = some binding := by
  simp [adoptable, J.fromSlice_toVec, Except.toOption, Option.filter, h]

/-- The files agree with what a boot from them makes. -/
theorem agree_boot (files : IdentityFiles P K) (minted readOk : Bool)
    (h : readOk = true ∨ files.adopted.bind (adoptable (P := P) J own) = none) :
    Agree J own files (IdentityNode.boot J own files minted readOk).adopted
      (some (present P K own files.userKey)) := by
  refine ⟨rfl, ?_⟩
  cases readOk with
  | true => rfl
  | false => simp [IdentityNode.boot, h.resolve_left]

theorem Agree.selfBinding_eq (h : Agree J own s.files s.adopted (s.imported.or s.bound)) :
    s.selfBinding = (IdentityNode.boot J own s.files false true).selfBinding := by
  simp [IdentityNode.selfBinding, IdentityNode.boot, h.keyed, h.adopted]

/-- A job's file operation leaves what the next phase of its call says. -/
theorem Held.run (h : Held J own files adopted slot (.running await job)) (ok : Bool) :
    Held J own (job.run P K files ok).1 adopted slot
      ((job.run P K files ok).2.elim (.running await) (.ran await)) := by
  cases h with
  | adopt agree verifies =>
      cases ok with
      | true => exact .adopted agree.keyed rfl verifies
      | false => exact .adoptFailed agree
  | supersedeRead agree =>
      cases ok with
      | true =>
          cases hfile : files.adopted with
          | none =>
              simpa [FileJob.run, hfile] using
                Held.superseded agree.keyed hfile (by rw [agree.adopted, hfile])
          | some raw => simpa [FileJob.run, hfile] using Held.supersedeRemove agree hfile
      | false => exact .supersedeFailed agree
  | @supersedeRemove key existed raw agree hfile =>
      cases ok with
      | true =>
          have hadopted := agree.adopted
          rw [hfile] at hadopted
          have hremoved : Held J own { files with adopted := none } adopted slot
              (.ran (.superseding key existed) (.superseded (some raw))) :=
            .superseded agree.keyed rfl hadopted
          simpa [FileJob.run, hfile] using hremoved
      | false => exact .supersedeFailed agree
  | @writeKey key overwrite removed keyed gone was =>
      cases hwrite : ok && overwrite with
      | true =>
          have hwrote : Held J own { files with userKey := key } adopted slot
              (.ran (.importing key removed) .done) := .wroteKey gone
          simpa [FileJob.run, hwrite] using hwrote
      | false => simpa [FileJob.run, hwrite] using Held.writeFailed keyed gone was
  | restore keyed gone was =>
      cases ok with
      | true => exact .restored ⟨keyed, was⟩
      | false => exact .restoreFailed keyed gone
  | clearStale agree none =>
      have hremoved : Agree J own { files with adopted := Option.none } adopted slot :=
        ⟨agree.keyed, none⟩
      cases hfile : files.adopted with
      | none => simpa [FileJob.run, hfile] using Held.clearedStale agree
      | some raw =>
          cases ok with
          | true => simpa [FileJob.run, hfile] using Held.clearedStale hremoved
          | false => simpa [FileJob.run, hfile] using Held.clearedStale agree
  | detach agree =>
      cases hfile : files.adopted with
      | none =>
          cases ok with
          | true => simpa [FileJob.run, hfile] using Held.detached agree.keyed hfile
          | false => simpa [FileJob.run, hfile] using Held.detachFailed agree
      | some raw =>
          cases ok with
          | true =>
              have hdetached : Held J own { files with adopted := none } adopted slot
                  (.ran .detaching (.removed true)) := .detached agree.keyed rfl
              simpa [FileJob.run, hfile] using hdetached
          | false => simpa [FileJob.run, hfile] using Held.detachFailed agree
  | readKey agree none =>
      cases ok with
      | true => exact .keyRead agree none
      | false => exact .readFailed agree
  | endorse agree none =>
      cases ok <;> exact .endorsed agree none

theorem Held.holds {phase : KeyPhase P K} (h : Held J own files adopted slot phase) :
    phase.Holds := by
  cases h <;> simp [KeyPhase.Holds]

/-- A job that only reads is left running, or has run. -/
theorem Held.reads (h : Held J own files adopted slot (.running await job))
    (hchanges : await.Changes = false) :
    Agree J own files adopted slot ∧ job.Reads := by
  cases h with
  | readKey agree _ => exact ⟨agree, fun files ok => ⟨_, rfl⟩⟩
  | endorse agree _ => exact ⟨agree, fun files ok => ⟨_, rfl⟩⟩
  | _ => simp [KeyAwait.Changes] at hchanges

theorem Held.agree (h : Held J own files adopted slot (.ran await result))
    (hchanges : await.Changes = false) : Agree J own files adopted slot := by
  cases h with
  | keyRead agree _ => exact agree
  | readFailed agree => exact agree
  | endorsed agree _ => exact agree
  | _ => simp [KeyAwait.Changes] at hchanges

/-! ### the node -/

namespace IdentityNode

variable (own) in
/-- The call has the lock, or takes it. -/
structure Alone (s : IdentityNode P K) (i : Nat) : Prop where
  presented : s.selfBinding = s.entered
  exclusive : ∀ j, (s.calls j).Holds → j = i
  checked : ∀ j, (s.calls j).Checked own
  orphans : ∀ job ∈ s.orphans, job.Reads

theorem Inv.alone (h : s.Inv J own) (hlock : s.lock = some i) : s.Alone own i where
  presented := (h.held i hlock).1
  exclusive j hholds := Option.some.inj ((h.exclusive j hholds).symm.trans hlock)
  checked := h.checked
  orphans := h.orphans

theorem Inv.takes (h : s.Inv J own) (hfree : s.lock = none) :
    ({ s with entered := s.selfBinding } : IdentityNode P K).Alone own i where
  presented := rfl
  exclusive j hholds := by simpa [hfree] using h.exclusive j hholds
  checked := h.checked
  orphans := h.orphans

theorem Alone.update (h : s.Alone own i) (phase : KeyPhase P K) (hphase : phase.Checked own)
    (j : Nat) : (Function.update s.calls i phase j).Checked own ∧
      ((Function.update s.calls i phase j).Holds → j = i ∧ phase.Holds) := by
  by_cases hj : j = i
  · subst hj
    simpa using hphase
  · rw [Function.update_of_ne hj]
    exact ⟨h.checked j, fun hholds => absurd (h.exclusive j hholds) hj⟩

/-- The holder returns, and what it leaves agrees. -/
theorem Alone.release (h : s.Alone own i) (hcalls : t.calls = s.calls)
    (horphans : t.orphans = s.orphans)
    (hagree : Agree J own t.files t.adopted (t.imported.or t.bound)) :
    (t.release i).Inv J own := by
  have hupdate (j : Nat) := h.update .idle (by simp [KeyPhase.Checked]) j
  rw [← hcalls] at hupdate
  exact
    { free _ := hagree
      held _ hheld := by simp [IdentityNode.release] at hheld
      exclusive j hholds := absurd ((hupdate j).2 hholds).2 (by simp [KeyPhase.Holds])
      checked j := (hupdate j).1
      orphans := horphans ▸ h.orphans }

/-- The holder goes on to await a job. -/
theorem Alone.awaits (h : s.Alone own i)
    (hheld : Held J own s.files s.adopted (s.imported.or s.bound) (.running await job)) :
    (s.await i await job).Inv J own := by
  have hupdate (j : Nat) := h.update (.running await job) (by simp [KeyPhase.Checked]) j
  exact
    { free hfree := by simp [IdentityNode.await] at hfree
      held j hj := by
        obtain rfl := Option.some.inj hj
        exact ⟨h.presented, by simpa [IdentityNode.await] using hheld⟩
      exclusive j hholds := congrArg some ((hupdate j).2 hholds).1.symm
      checked j := (hupdate j).1
      orphans := h.orphans }

/-- What the holder answers, and leaves. -/
theorem Alone.answer (h : s.Alone own i) (hcalls : t.calls = s.calls)
    (horphans : t.orphans = s.orphans)
    (hagree : Agree J own t.files t.adopted (t.imported.or t.bound)) {reply : Option KeyReply}
    (hfailed : reply = some (.error false) → t.selfBinding = t.entered)
    (hrefused : reply ≠ some .refused)
    (hhanded : ∀ handed, reply = some (.handed handed) → s.adopted = none ∧ ∃ key verb,
      handOut P K R key verb = some handed ∧ s.selfBinding = some (present P K own key)) :
    (t.release i).Inv J own ∧ IdentityKept R J own s (t.release i) reply :=
  ⟨h.release hcalls horphans hagree,
    { live _ := hagree.selfBinding_eq
      failed := hfailed
      refused := fun hreply => absurd hreply hrefused
      handed := hhanded }⟩

/-- The holder goes on, and answers nothing. -/
theorem Alone.goesOn (h : s.Alone own i)
    (hheld : Held J own s.files s.adopted (s.imported.or s.bound) (.running await job)) :
    (s.await i await job).Inv J own ∧ IdentityKept R J own s (s.await i await job) none := by
  refine ⟨h.awaits hheld, ?_⟩
  constructor <;> simp [IdentityNode.await]

/-- The holder fails, and changes no slot. -/
theorem Alone.fails (h : s.Alone own i)
    (hagree : Agree J own s.files s.adopted (s.imported.or s.bound)) :
    (s.release i).Inv J own ∧ IdentityKept R J own s (s.release i) (some (.error false)) :=
  h.answer rfl rfl hagree (fun _ => h.presented) (by simp) (by simp)

/-- The holder changes the slots, and says so. -/
theorem Alone.changes (h : s.Alone own i) (hcalls : t.calls = s.calls)
    (horphans : t.orphans = s.orphans)
    (hagree : Agree J own t.files t.adopted (t.imported.or t.bound)) (reply : KeyReply)
    (hreply : reply = .ok ∨ reply = .error true) :
    (t.release i).Inv J own ∧ IdentityKept R J own s (t.release i) (some reply) := by
  refine h.answer hcalls horphans hagree ?_ ?_ ?_ <;> rcases hreply with rfl | rfl <;> simp

/-- The holder makes something with the key that it read. -/
theorem Alone.handsOut (h : s.Alone own i)
    (hagree : Agree J own s.files s.adopted (s.imported.or s.bound)) (hnone : s.adopted = none)
    (verb : SigningVerb) :
    (s.release i).Inv J own ∧ IdentityKept R J own s (s.release i)
      ((handOut P K R s.files.userKey verb).map .handed) := by
  refine h.answer rfl rfl hagree (fun _ => h.presented) (by simp) fun handed hhanded => ?_
  have hmade : handOut P K R s.files.userKey verb = some handed := by simpa using hhanded
  exact ⟨hnone, s.files.userKey, verb, hmade, by simp [selfBinding, hnone, hagree.keyed]⟩

/-- The key is read. -/
theorem Alone.keyRead (h : s.Alone own i)
    (hagree : Agree J own s.files s.adopted (s.imported.or s.bound)) (hnone : s.adopted = none)
    (verb : SigningVerb) :
    (s.keyRead R i s.files.userKey verb).1.Inv J own ∧
      IdentityKept R J own s (s.keyRead R i s.files.userKey verb).1
        (s.keyRead R i s.files.userKey verb).2 := by
  cases verb with
  | endorsePeer subject subjectUserId => exact h.goesOn (.endorse hagree hnone)
  | deviceRevoke endpoint issuedAt reason =>
      exact h.handsOut hagree hnone (.deviceRevoke endpoint issuedAt reason)
  | userKeyExport => exact h.handsOut hagree hnone .userKeyExport
  | signBinding presented eid =>
      simp only [IdentityNode.keyRead]
      split
      · exact h.handsOut hagree hnone (.signBinding presented eid)
      · exact h.fails hagree

theorem Inv.resume (h : s.Inv J own) (hcall : s.calls i = .ran await result) :
    (s.resume R own i await result).1.Inv J own ∧
      IdentityKept R J own s (s.resume R own i await result).1
        (s.resume R own i await result).2 := by
  have hlock : s.lock = some i := h.exclusive i (by simp [hcall, KeyPhase.Holds])
  obtain ⟨-, hheld⟩ := h.held i hlock
  rw [hcall] at hheld
  have halone := h.alone hlock
  cases hheld with
  | @adopted binding keyed file verifies =>
      have hagree : Agree J own s.files (some binding) (s.imported.or s.bound) :=
        ⟨keyed, by simp [file, adoptable_toVec verifies]⟩
      exact halone.changes (t := { s with adopted := some binding }) rfl rfl hagree
        .ok (.inl rfl)
  | adoptFailed agree => exact halone.fails agree
  | superseded keyed gone was => exact halone.goesOn (.writeKey keyed gone was)
  | supersedeFailed agree => exact halone.fails agree
  | wroteKey gone =>
      have hagree : Agree J own s.files none (some (present P K own s.files.userKey)) :=
        ⟨rfl, by simp [gone]⟩
      exact halone.changes
        (t := { s with
          bootMinted := false
          imported := some (present P K own s.files.userKey)
          adopted := none }) rfl rfl hagree .ok (.inl rfl)
  | @writeFailed key removed keyed gone was =>
      cases removed with
      | none => exact halone.fails ⟨keyed, by simp [gone, was]⟩
      | some raw => exact halone.goesOn (.restore keyed gone was)
  | restored agree => exact halone.fails agree
  | restoreFailed keyed gone =>
      have hagree : Agree J own s.files none (s.imported.or s.bound) := ⟨keyed, by simp [gone]⟩
      exact halone.changes (t := { s with adopted := none }) rfl rfl hagree
        (.error true) (.inr rfl)
  | clearedStale agree => exact halone.fails agree
  | detached keyed gone =>
      have hagree : Agree J own s.files none (s.imported.or s.bound) := ⟨keyed, by simp [gone]⟩
      exact halone.changes (t := { s with adopted := none }) rfl rfl hagree
        .ok (.inl rfl)
  | detachFailed agree => exact halone.fails agree
  | @keyRead verb agree none => exact halone.keyRead agree none verb
  | readFailed agree => exact halone.fails agree
  | @endorsed verb result agree none =>
      cases result with
      | done =>
          cases hmade : handOut P K R s.files.userKey verb with
          | none =>
              simpa [IdentityNode.resume, hmade] using halone.fails (R := R) agree
          | some handed =>
              have hhands := halone.handsOut (R := R) agree none verb
              simpa [IdentityNode.resume, hmade] using hhands
      | _ => exact halone.fails agree

/-- A step outside the lock, which answers nothing. -/
theorem Inv.quiet (h : t.Inv J own) (s : IdentityNode P K) :
    t.Inv J own ∧ IdentityKept R J own s t none :=
  ⟨h, { live hfree := (h.free hfree).selfBinding_eq, failed := by simp, refused := by simp
        handed := by simp }⟩

/-- From the lock to the first await. -/
theorem Inv.enter (h : s.Inv J own) (hfree : s.lock = none) {verb : KeyVerb}
    (hcall : s.calls i = .waiting verb) (exists? : Bool) :
    (({ s with entered := s.selfBinding } : IdentityNode P K).enter R J i exists? verb).1.Inv J
      own ∧
      IdentityKept R J own { s with entered := s.selfBinding }
        (({ s with entered := s.selfBinding } : IdentityNode P K).enter R J i exists? verb).1
        (({ s with entered := s.selfBinding } : IdentityNode P K).enter R J i exists? verb).2 := by
  have hagree := h.free hfree
  have halone := h.takes (i := i) hfree
  have hchecked := h.checked i
  rw [hcall] at hchecked
  cases verb with
  | adopt binding => exact halone.goesOn (.adopt hagree hchecked)
  | userKeyImport phrase replace =>
      simp only [IdentityNode.enter]
      split
      · have hinv : ({ s with entered := s.selfBinding } : IdentityNode P K).Inv J own :=
          { h with held := fun i hlock => by simp [hfree] at hlock }
        exact hinv.quiet _
      · split
        · exact halone.fails hagree
        · exact halone.goesOn (.supersedeRead hagree)
  | selfEnrollDetach =>
      simp only [IdentityNode.enter]
      split
      · next hnone => exact halone.goesOn (.clearStale hagree hnone)
      · exact halone.goesOn (.detach hagree)
  | signing verb =>
      simp only [IdentityNode.enter]
      split
      · exact halone.fails hagree
      next hnone =>
      have hnone : s.adopted = none := by simpa using hnone
      split
      · split
        · exact halone.fails hagree
        · exact halone.goesOn (.readKey hagree hnone)
      · split
        · exact halone.goesOn (.readKey hagree hnone)
        · exact halone.fails hagree

/-- A job of the holder runs one file operation. -/
theorem Inv.runs (h : s.Inv J own) (hcall : s.calls i = .running await job) (ok : Bool) :
    (keyStep R J own s (.job i ok)).1.Inv J own := by
  have hlock : s.lock = some i := h.exclusive i (by simp [hcall, KeyPhase.Holds])
  have halone := h.alone hlock
  obtain ⟨hpresented, hheld⟩ := h.held i hlock
  rw [hcall] at hheld
  have hran := hheld.run ok
  have hphase : ((job.run P K s.files ok).2.elim (KeyPhase.running await)
      (KeyPhase.ran await)).Checked own := by
    cases (job.run P K s.files ok).2 <;> simp [KeyPhase.Checked]
  simp only [keyStep, hcall]
  refine ⟨fun hfree => ?_, fun j hj => ?_, fun j hholds => ?_, fun j => ?_, h.orphans⟩
  · simp [hlock] at hfree
  · obtain rfl : i = j := Option.some.inj (hlock.symm.trans hj)
    exact ⟨hpresented, by simpa using hran⟩
  · exact ((halone.update _ hphase j).2 hholds).1 ▸ hlock
  · exact (halone.update _ hphase j).1

/-- A call that has no lock starts, or is dropped. -/
theorem Inv.update (h : s.Inv J own) (hcall : ¬ (s.calls i).Holds) (phase : KeyPhase P K)
    (hphase : ¬ phase.Holds) (hchecked : phase.Checked own) :
    ({ s with calls := Function.update s.calls i phase } : IdentityNode P K).Inv J own := by
  have hupdate (j : Nat) : (Function.update s.calls i phase j).Checked own ∧
      ((Function.update s.calls i phase j).Holds → j ≠ i ∧ s.lock = some j) := by
    by_cases hj : j = i
    · subst hj
      simpa [hphase] using hchecked
    · rw [Function.update_of_ne hj]
      exact ⟨h.checked j, fun hholds => ⟨hj, h.exclusive j hholds⟩⟩
  refine ⟨h.free, fun j hj => ?_, fun j hholds => ((hupdate j).2 hholds).2, fun j =>
    (hupdate j).1, h.orphans⟩
  obtain ⟨hpresented, hheld⟩ := h.held j hj
  have hne : j ≠ i := by
    rintro rfl
    exact hcall hheld.holds
  exact ⟨hpresented, by simpa [hne] using hheld⟩

theorem Inv.abort (h : s.Inv J own) (hkept : s.Kept J own (.abort i)) : (s.abort i).Inv J own := by
  simp only [Kept] at hkept
  unfold IdentityNode.abort
  cases hcall : s.calls i with
  | idle => exact h
  | waiting verb =>
      exact h.update (by simp [hcall, KeyPhase.Holds]) _ (by simp [KeyPhase.Holds])
        (by simp [KeyPhase.Checked])
  | running await job =>
      rw [hcall] at hkept
      have hlock : s.lock = some i := h.exclusive i (by simp [hcall, KeyPhase.Holds])
      obtain ⟨-, hheld⟩ := h.held i hlock
      rw [hcall] at hheld
      obtain ⟨hagree, hreads⟩ := hheld.reads hkept
      have hinv := (h.alone hlock).release (t := s) rfl rfl hagree
      refine { hinv with orphans := fun other hother => ?_ }
      rcases List.mem_append.mp hother with hold | hnew
      · exact h.orphans other hold
      · exact List.mem_singleton.mp hnew ▸ hreads
  | ran await result =>
      rw [hcall] at hkept
      have hlock : s.lock = some i := h.exclusive i (by simp [hcall, KeyPhase.Holds])
      obtain ⟨-, hheld⟩ := h.held i hlock
      rw [hcall] at hheld
      exact (h.alone hlock).release rfl rfl (hheld.agree hkept)

theorem Inv.boot (files : IdentityFiles P K) (minted readOk : Bool)
    (h : readOk = true ∨ files.adopted.bind (adoptable (P := P) J own) = none) :
    (IdentityNode.boot J own files minted readOk).Inv J own where
  free _ := agree_boot files minted readOk h
  held _ hlock := by simp [IdentityNode.boot] at hlock
  exclusive _ hholds := by simp [IdentityNode.boot, KeyPhase.Holds] at hholds
  checked _ := by simp [IdentityNode.boot, KeyPhase.Checked]
  orphans _ hjob := by simp [IdentityNode.boot] at hjob

theorem Inv.refuses (h : s.Inv J own) :
    s.Inv J own ∧ IdentityKept R J own s s (some .refused) := by
  refine ⟨h, fun hfree => (h.free hfree).selfBinding_eq, ?_, fun _ => ⟨rfl, rfl⟩, ?_⟩ <;> simp

/-- A call waits for the lock, or is refused before. -/
theorem Inv.called (h : s.Inv J own) (i : Nat) (verb : KeyVerb) :
    (keyStep R J own s (.call i verb)).1.Inv J own ∧
      IdentityKept R J own s (keyStep R J own s (.call i verb)).1
        (keyStep R J own s (.call i verb)).2 := by
  cases hcall : s.calls i with
  | idle =>
      have hwaits (hchecked : (KeyPhase.waiting verb : KeyPhase P K).Checked own) :=
        h.update (i := i) (by simp [hcall, KeyPhase.Holds]) (.waiting verb)
          (by simp [KeyPhase.Holds]) hchecked
      cases verb with
      | adopt binding =>
          by_cases hverifies : binding.Verifies (P := P) own
          · simpa [keyStep, hcall, hverifies] using (hwaits hverifies).quiet s
          · simpa [keyStep, hcall, hverifies] using h.refuses
      | userKeyImport phrase replace =>
          by_cases hdecodes : (R.decode phrase).isSome
          · simpa [keyStep, hcall, hdecodes] using (hwaits trivial).quiet s
          · simpa [keyStep, hcall, hdecodes] using h.refuses
      | selfEnrollDetach => simpa [keyStep, hcall] using (hwaits trivial).quiet s
      | signing verb => simpa [keyStep, hcall] using (hwaits trivial).quiet s
  | _ => simpa [keyStep, hcall] using h.quiet s

/-- **Step lemma**: a step that meets the condition keeps the invariant, and the
law. -/
theorem Inv.step (h : s.Inv J own) {event : KeyEvent} (hkept : s.Kept J own event) :
    (keyStep R J own s event).1.Inv J own ∧
      IdentityKept R J own s (keyStep R J own s event).1 (keyStep R J own s event).2 := by
  cases event with
  | call i verb => exact h.called i verb
  | acquire i exists? =>
      simp only [keyStep]
      split
      · next verb hcall hfree =>
        obtain ⟨hinv, hlive⟩ := h.enter (R := R) hfree hcall exists?
        exact ⟨hinv, { hlive with refused := hlive.refused }⟩
      · exact h.quiet s
  | job i ok =>
      cases hcall : s.calls i with
      | running await job =>
          have hinv := h.runs (R := R) hcall ok
          simp only [keyStep, hcall] at hinv ⊢
          exact hinv.quiet s
      | _ => simpa [keyStep, hcall] using h.quiet s
  | resume i =>
      simp only [keyStep]
      split
      · next await result hcall => exact h.resume hcall
      · exact h.quiet s
  | abort i => exact (h.abort hkept).quiet s
  | orphan k ok =>
      simp only [keyStep]
      split
      · next job hjob =>
        obtain ⟨result, hrun⟩ := h.orphans job (List.mem_of_getElem? hjob) s.files ok
        rw [hrun]
        have hinv : ({ s with orphans := s.orphans.eraseIdx k } : IdentityNode P K).Inv J own :=
          { h with
            orphans := fun other hother => h.orphans other (List.mem_of_mem_eraseIdx hother) }
        exact hinv.quiet s
      · exact h.quiet s
  | restart readOk => exact (Inv.boot s.files false readOk hkept).quiet s

end IdentityNode

/-- **The live identity is the one the next boot presents**, in a run whose steps
all meet the condition. -/
theorem live_identity_is_next_boots (files : IdentityFiles P K) (minted : Bool)
    (events : List KeyEvent)
    (hkept : ∀ t ∈ trace (keyStep R J own) (.boot J own files minted true) events,
      t.pre.Kept J own t.call) :
    ∀ t ∈ trace (keyStep R J own) (.boot J own files minted true) events,
      IdentityKept R J own t.pre t.post t.out := by
  intro t ht
  have hinv : t.pre.Inv J own :=
    trace_guarded_pre (Q := fun t => t.pre.Kept J own t.call)
      (fun s event hkept h => (h.step (R := R) hkept).1)
      (IdentityNode.Inv.boot files minted true (.inl rfl)) hkept ht
  rw [eq_callAt_of_mem_trace ht]
  exact (hinv.step (hkept t ht)).2

end LiveIdentity

/-! ### an import, carried out and cut off -/

namespace NewLaptop

open Instance Succession

def bindingWire : Wire SelfBinding :=
  (Wire.string.pair Wire.string).map (fun f => ⟨f.1, f.2⟩) (fun b => (b.userPk, b.sig)) fun _ => rfl

def J : BindingJson where
  toVec := bindingWire.put
  fromSlice raw :=
    match bindingWire.get raw with
    | some (binding, []) => .ok binding
    | _ => .error "malformed binding"
  fromSlice_toVec binding := by
    have hget : bindingWire.get (bindingWire.put binding) = some (binding, []) := by
      simpa using bindingWire.get_put binding []
    rw [hget]

/-- A phrase of one word. -/
def R : RecoveryPhrase P K where
  encode key := encodeB64u P key.toList
  decode phrase := (decode32 P phrase).toOption

/-- The key that boot minted. -/
def files : IdentityFiles P K := ⟨first, none⟩

/-- A call that awaits `jobs` file operations, each with its resume. -/
def through (i : Nat) (verb : KeyVerb) (jobs : Nat) : List KeyEvent :=
  [.call i verb, .acquire i true] ++ (List.replicate jobs [.job i true, .resume i]).flatten

def importSecond : KeyVerb := .userKeyImport (R.encode second) false

/-- Enrolled by Alice, detached, and the own key restored. -/
def restored : List KeyEvent :=
  through 0 (.adopt (present P K ownId aliceKey)) 1 ++ through 1 .selfEnrollDetach 1 ++
    through 2 importSecond 2

def exported : List KeyEvent :=
  [.call 3 (.signing .userKeyExport), .acquire 3 true, .job 3 true]

/-- The key is written, and the control connection closes. -/
def cutOff : List KeyEvent :=
  through 0 importSecond 1 ++ [.job 0 true]

def last (before : List KeyEvent) (event : KeyEvent) :
    Called (IdentityNode P K) KeyEvent (Option KeyReply) :=
  callAt (keyStep R J ownId) (final (keyStep R J ownId) (.boot J ownId files true true) before)
    event

end NewLaptop

open NewLaptop Succession in
theorem live_identity_is_next_boots_example :
    (last (restored ++ exported) (.resume 3)).out =
        some (.handed (.phrase (R.encode second) (userIdOf P K second))) ∧
      IdentityKept R J Instance.ownId (last (restored ++ exported) (.resume 3)).pre
        (last (restored ++ exported) (.resume 3)).post
        (last (restored ++ exported) (.resume 3)).out := by
  have hkept : ∀ t ∈ trace (keyStep R J Instance.ownId) (.boot J Instance.ownId files true true)
      (restored ++ exported ++ [.resume 3]), t.pre.Kept J Instance.ownId t.call := by
    decide +kernel
  exact ⟨by decide +kernel, live_identity_is_next_boots files true
    (restored ++ exported ++ [.resume 3]) hkept _ (last_mem_trace _ _ _)⟩

open NewLaptop Succession in
/-- The lock is free and the node presents the minted key; the next boot would
present the imported one, which signs what is asked for meanwhile. -/
theorem dropped_import_presents_old_key :
    ∃ t ∈ trace (keyStep R J Instance.ownId) (.boot J Instance.ownId files true true)
        (cutOff ++ [.abort 0]),
      t.post.lock = none ∧ ¬ IdentityKept R J Instance.ownId t.pre t.post t.out ∧
      t.post.selfBinding = some (present P K Instance.ownId first) ∧
      t.post.files.userKey = second := by
  have hend : (last cutOff (.abort 0)).post.lock = none ∧
      (last cutOff (.abort 0)).post.selfBinding = some (present P K Instance.ownId first) ∧
      (last cutOff (.abort 0)).post.files.userKey = second ∧
      (last cutOff (.abort 0)).post.selfBinding ≠ (IdentityNode.boot J Instance.ownId
        (last cutOff (.abort 0)).post.files false true).selfBinding := by decide +kernel
  obtain ⟨hfree, hpresents, hkey, hdiffers⟩ := hend
  exact ⟨_, last_mem_trace _ _ _, hfree, fun hkept => hdiffers (hkept.live hfree), hpresents, hkey⟩

end Mcpmesh
