import Mcpmesh.Lib.Run
import Mcpmesh.Roster.Schema

/-!
# Mcpmesh.Trust.KeyFile

The files of the operator-local keys (`trust/src/keys.rs`).

Any number of calls, of one process or of several, work on one path: a step is a
system call of one of them.  Any call may fail, and a process may die between
two of its calls.  What becomes of the file is told by `contents`, all that has
ever stood at the path.
-/

namespace Mcpmesh

open Lib

/-! ## the calls -/

/-- `std::io::ErrorKind`, as far as it is read. -/
inductive IoKind where
  | notFound
  | alreadyExists
  | other
  deriving DecidableEq

structure IoError where
  kind : IoKind
  message : String

inductive KeyError where
  | io (e : IoError)
  | malformed (message : String)

/-- Where `mint_signing_key_at` or `write_signing_key` is. -/
inductive MintPhase where
  | create
  | write
  | sync
  | publish
  | remove (result : Except IoError Unit)

/-- One of these calls: its key, and its temp file, whose name may be gone. -/
structure Mint where
  key : Bytes32
  replace : Bool
  temp : List UInt8
  named : Bool
  phase : MintPhase

inductive KeyTask where
  /-- `load_or_generate_signing_key`, before its read -/
  | reading (tries : Nat)
  | minting (tries : Nat) (mint : Mint)
  | loaded (result : Except KeyError (Bytes32 × Bool))
  /-- `write_signing_key` -/
  | writing (mint : Mint)
  | wrote (result : Except KeyError Unit)

structure KeyDir where
  file : Option (List UInt8)
  tasks : Nat → Option KeyTask
  contents : List (List UInt8)

/-- A system call takes the key that would be generated, the error that it fails
with, and how much of a write is taken at once. -/
inductive KeyFileEvent where
  | load (p : Nat)
  | write (p : Nat) (key : Bytes32) (replace : Bool)
  | advance (p : Nat) (fresh : Bytes32) (fault : Option IoError) (chunk : Nat)
  /-- the name of the temp file goes -/
  | unlink (p : Nat)
  | crash (p : Nat)

def Mint.new (key : Bytes32) (replace : Bool) : Mint :=
  { key, replace, temp := [], named := false, phase := .create }

/-- The next system call of a mint, where it does not fail; the file is the new
one, where the call publishes it. -/
def Mint.call (mint : Mint) (file : Option (List UInt8)) (chunk : Nat) :
    Mint × Option (List UInt8) :=
  match mint.phase with
  | .create => ({ mint with named := true, phase := .write }, none)
  | .write =>
      let temp := mint.key.toList.take (mint.temp.length + chunk + 1)
      ({ mint with temp, phase := if temp.length = 32 then .sync else .write }, none)
  | .sync => ({ mint with phase := .publish }, none)
  | .publish =>
      if !mint.named then
        ({ mint with phase := .remove (.error ⟨.notFound, "No such file or directory"⟩) }, none)
      else if mint.replace then
        -- a rename takes the name along
        ({ mint with named := false, phase := .remove (.ok ()) }, some mint.temp)
      else
        match file with
        | some _ => ({ mint with phase := .remove (.error ⟨.alreadyExists, "File exists"⟩) }, none)
        | none => ({ mint with phase := .remove (.ok ()) }, some mint.temp)
  | .remove _ => (mint, none)

/-- The same, where it may fail: then the temp file is removed. -/
def Mint.next (mint : Mint) (file : Option (List UInt8)) (fault : Option IoError) (chunk : Nat) :
    Mint × Option (List UInt8) :=
  match fault with
  | some e => ({ mint with phase := .remove (.error e) }, none)
  | none => mint.call file chunk

def retryBudget : IoError :=
  ⟨.alreadyExists, "key mint retry budget exhausted (racing writers?)"⟩

/-- The read of `load_or_generate_signing_key`. -/
def readKey (tries : Nat) (file : Option (List UInt8)) (fresh : Bytes32) (fault : Option IoError) :
    KeyTask :=
  match tries with
  | 0 => .loaded (.error (.io retryBudget))
  | tries + 1 =>
      match fault, file with
      | some e, _ =>
          if e.kind = .notFound then .minting tries (.new fresh false) else .loaded (.error (.io e))
      | none, none => .minting tries (.new fresh false)
      | none, some bytes =>
          match toArray 32 bytes with
          | some key => .loaded (.ok (key, false))
          | none => .loaded (.error (.malformed (toString bytes.length ++ " bytes, want 32")))

/-- What `load_or_generate_signing_key` makes of a mint. -/
def minted (tries : Nat) (key : Bytes32) : Except IoError Unit → KeyTask
  | .ok _ => .loaded (.ok (key, true))
  | .error e => if e.kind = .alreadyExists then .reading tries else .loaded (.error (.io e))

namespace KeyDir

/-- The directory with what already is at the path. -/
def start (file : Option (List UInt8)) : KeyDir :=
  { file, tasks := fun _ => none, contents := file.toList }

section Model

variable (s : KeyDir)

def setTask (p : Nat) (task : Option KeyTask) : KeyDir :=
  { s with tasks := Function.update s.tasks p task }

/-- Put a file at the path, if there is one to put. -/
def put (file : Option (List UInt8)) : KeyDir :=
  match file with
  | none => s
  | some bytes => { s with file := some bytes, contents := s.contents ++ [bytes] }

def advance (p : Nat) (fresh : Bytes32) (fault : Option IoError) (chunk : Nat) :
    KeyTask → Option KeyDir
  | .reading tries => some (s.setTask p (readKey tries s.file fresh fault))
  | .minting tries mint =>
      match mint.phase with
      | .remove result => some (s.setTask p (minted tries mint.key result))
      | _ =>
          let out := mint.next s.file fault chunk
          some ((s.put out.2).setTask p (some (.minting tries out.1)))
  | .writing mint =>
      match mint.phase with
      | .remove result => some (s.setTask p (some (.wrote (result.mapError .io))))
      | _ =>
          let out := mint.next s.file fault chunk
          some ((s.put out.2).setTask p (some (.writing out.1)))
  | .loaded _ | .wrote _ => none

/-- The name of a temp file goes: another call or process removed it. -/
def unlinked : KeyTask → KeyTask
  | .minting tries mint => .minting tries { mint with named := false }
  | .writing mint => .writing { mint with named := false }
  | task => task

def step (s : KeyDir) : KeyFileEvent → Option KeyDir
  | .load p => if (s.tasks p).isNone then s.setTask p (some (.reading 4)) else none
  | .write p key replace =>
      if (s.tasks p).isNone then some (s.setTask p (some (.writing (.new key replace)))) else none
  | .advance p fresh fault chunk => (s.tasks p).bind (s.advance p fresh fault chunk)
  | .unlink p => (s.tasks p).map fun task => s.setTask p (some (unlinked task))
  | .crash p => some (s.setTask p none)

end Model

end KeyDir

/-! ## what a call does -/

/-- A temp file that is published holds the whole key. -/
def Mint.Sound (mint : Mint) : Prop :=
  match mint.phase with
  | .create | .write | .remove _ => True
  | .sync | .publish => mint.temp = mint.key.toList

/-- What a call leaves of a mint, and puts at the path. -/
structure Mint.Next (mint : Mint) (file : Option (List UInt8)) (out : Mint × Option (List UInt8)) :
    Prop where
  sound : out.1.Sound
  key : out.1.key = mint.key
  replace : out.1.replace = mint.replace
  put : out.2 = none ∧ out.1.phase ≠ .remove (.ok ()) ∨
    out.2 = some mint.key.toList ∧ out.1.phase = .remove (.ok ()) ∧
      (mint.replace = false → file = none)

/-- One call of a mint does what is said of its phase. -/
theorem Mint.next_spec {mint : Mint} (h : mint.Sound)
    (hphase : ∀ result, mint.phase ≠ .remove result) (file : Option (List UInt8))
    (fault : Option IoError) (chunk : Nat) :
    mint.Next file (mint.next file fault chunk) := by
  unfold Mint.next
  split
  · exact ⟨trivial, rfl, rfl, .inl ⟨rfl, nofun⟩⟩
  · unfold Mint.call
    unfold Mint.Sound at h
    split
    · exact ⟨trivial, rfl, rfl, .inl ⟨rfl, nofun⟩⟩
    · dsimp only
      split
      · next hlength =>
        rw [List.length_take, mint.key.toList_length] at hlength
        have hall : 32 ≤ mint.temp.length + chunk + 1 := by omega
        refine ⟨?_, rfl, rfl, .inl ⟨rfl, nofun⟩⟩
        exact List.take_of_length_le (by rw [mint.key.toList_length]; exact hall)
      · exact ⟨trivial, rfl, rfl, .inl ⟨rfl, nofun⟩⟩
    · next hsync =>
      rw [hsync] at h
      exact ⟨h, rfl, rfl, .inl ⟨rfl, nofun⟩⟩
    · next hpublish =>
      rw [hpublish] at h
      split
      · exact ⟨trivial, rfl, rfl, .inl ⟨rfl, nofun⟩⟩
      · split
        · next hreplace =>
          exact ⟨trivial, rfl, rfl, .inr ⟨congrArg some h, rfl,
            fun hkeep => absurd (hreplace.symm.trans hkeep) nofun⟩⟩
        · split
          · exact ⟨trivial, rfl, rfl, .inl ⟨rfl, nofun⟩⟩
          · exact ⟨trivial, rfl, rfl, .inr ⟨congrArg some h, rfl, fun _ => rfl⟩⟩
    · next result hresult => exact absurd hresult (hphase result)

/-! ## what a run keeps -/

/-- What is known of a call. -/
def KeyTask.Sound (contents : List (List UInt8)) : KeyTask → Prop
  | .reading _ | .wrote _ | .loaded (.error _) => True
  | .minting _ mint =>
      mint.Sound ∧ mint.replace = false ∧
        (mint.phase = .remove (.ok ()) → mint.key.toList ∈ contents)
  | .writing mint => mint.Sound
  | .loaded (.ok (key, _)) => key.toList ∈ contents

/-- The call has put the key it minted at the path. -/
def KeyTask.Created : KeyTask → Prop
  | .minting _ mint => mint.phase = .remove (.ok ())
  | .loaded (.ok (_, created)) => created = true
  | _ => False

/-- The call may put its key over another. -/
def KeyTask.Replaces : KeyTask → Prop
  | .writing mint => mint.replace = true
  | _ => False

/-- The event is no fault, and takes no temp file away.  A mint and a write count
their temp names apart from 0 and in one format, so that the first ones of a process
share a name; then the one that does not get to create the file removes it. -/
def KeyFileEvent.Smooth : KeyFileEvent → Prop
  | .advance _ _ fault _ => fault = none
  | .unlink _ => False
  | _ => True

/-- A mint of which no call has failed, but for a file that was there first. -/
def Mint.Smooth (contents : List (List UInt8)) (mint : Mint) : Prop :=
  match mint.phase with
  | .create => True
  | .write | .sync | .publish => mint.named = true
  | .remove (.ok _) => True
  | .remove (.error e) => e.kind = .alreadyExists ∧ contents ≠ []

/-- A load that has lost its race once at most, and then to a file. -/
def KeyTask.Smooth (contents : List (List UInt8)) : KeyTask → Prop
  | .reading tries => tries = 4 ∨ tries = 3 ∧ contents ≠ []
  | .minting tries mint => tries = 3 ∧ mint.Smooth contents
  | .loaded result => result.isOk
  | .writing _ | .wrote _ => True

/-- A call that does not fault keeps the mint on its way. -/
theorem Mint.smooth_call {mint : Mint} {contents : List (List UInt8)}
    {file : Option (List UInt8)} (h : mint.Smooth contents)
    (hfile : file = contents.getLast?) (hreplace : mint.replace = false) (chunk : Nat) :
    (mint.call file chunk).1.Smooth (contents ++ (mint.call file chunk).2.toList) := by
  unfold Mint.Smooth at h
  unfold Mint.call
  cases hphase : mint.phase with
  | create => exact rfl
  | write =>
      rw [hphase] at h
      dsimp only
      split <;> exact h
  | sync =>
      rw [hphase] at h
      exact h
  | publish =>
      rw [hphase] at h
      simp only [h, hreplace, Bool.not_true, Bool.false_eq_true, if_false]
      split
      · next bytes hsome =>
        refine ⟨rfl, ?_⟩
        rintro hnil
        rw [List.append_eq_nil_iff.mp hnil |>.1] at hfile
        exact absurd hfile nofun
      · exact trivial
  | remove result =>
      rw [hphase] at h
      simp only [Mint.Smooth, hphase, Option.toList_none, List.append_nil]
      exact h

namespace KeyDir

variable {s s' : KeyDir} {file : Option (List UInt8)} {es : List KeyFileEvent} {e : KeyFileEvent}

@[simp] theorem setTask_file (p : Nat) (task : Option KeyTask) : (s.setTask p task).file = s.file :=
  rfl

@[simp] theorem setTask_contents (p : Nat) (task : Option KeyTask) :
    (s.setTask p task).contents = s.contents := rfl

@[simp] theorem put_tasks (out : Option (List UInt8)) : (s.put out).tasks = s.tasks := by
  unfold put
  split <;> rfl

theorem put_contents (out : Option (List UInt8)) :
    (s.put out).contents = s.contents ++ out.toList := by
  unfold put
  split
  · exact (List.append_nil _).symm
  · rfl

/-- What a step does: it sets the task of `p`, and may put a file at the path. -/
structure Move (s : KeyDir) (e : KeyFileEvent) (p : Nat) (out : Option (List UInt8))
    (task : Option KeyTask) : Prop where
  whole : ∀ bytes ∈ out, ∃ key : Bytes32, bytes = key.toList
  sound : ∀ t ∈ task, t.Sound (s.put out).contents
  created : ∀ t ∈ task, t.Created →
    (∃ t₀, s.tasks p = some t₀ ∧ t₀.Created) ∨ s.file = none ∧ out ≠ none
  free : out ≠ none → s.file = none ∨ ∃ t₀, s.tasks p = some t₀ ∧ t₀.Replaces
  replaces : ∀ t ∈ task, t.Replaces →
    (∃ t₀, s.tasks p = some t₀ ∧ t₀.Replaces) ∨ ∃ key, e = .write p key true

/-- A step that puts nothing at the path. -/
theorem Move.still {p : Nat} {task : Option KeyTask} (hsound : ∀ t ∈ task, t.Sound s.contents)
    (hcreated : ∀ t ∈ task, t.Created → ∃ t₀, s.tasks p = some t₀ ∧ t₀.Created)
    (hreplaces : ∀ t ∈ task, t.Replaces →
      (∃ t₀, s.tasks p = some t₀ ∧ t₀.Replaces) ∨ ∃ key, e = .write p key true) :
    Move s e p none task :=
  ⟨nofun, hsound, fun t ht h => .inl (hcreated t ht h), fun h => absurd rfl h, hreplaces⟩

/-- Such a step, to a task that is still there. -/
theorem Move.quiet {p : Nat} {task : KeyTask} (hsound : task.Sound s.contents)
    (hcreated : task.Created → ∃ t₀, s.tasks p = some t₀ ∧ t₀.Created)
    (hreplaces : task.Replaces →
      (∃ t₀, s.tasks p = some t₀ ∧ t₀.Replaces) ∨ ∃ key, e = .write p key true) :
    Move s e p none (some task) := by
  refine .still ?_ ?_ ?_
  · rintro t ⟨⟩
    exact hsound
  · rintro t ⟨⟩
    exact hcreated
  · rintro t ⟨⟩
    exact hreplaces

/-- The task of a read: nothing is minted yet. -/
theorem readKey_sound (tries : Nat) (fresh : Bytes32) (fault : Option IoError)
    (hfile : s.file = s.contents.getLast?) :
    (readKey tries s.file fresh fault).Sound s.contents ∧
      ¬ (readKey tries s.file fresh fault).Created ∧
      ¬ (readKey tries s.file fresh fault).Replaces := by
  unfold readKey
  split
  · exact ⟨trivial, id, id⟩
  · split
    · split
      · exact ⟨⟨trivial, rfl, nofun⟩, nofun, id⟩
      · exact ⟨trivial, id, id⟩
    · exact ⟨⟨trivial, rfl, nofun⟩, nofun, id⟩
    · next bytes hbytes =>
      split
      · next key hkey =>
        refine ⟨?_, nofun, id⟩
        have hkey : key.toList = bytes := by
          unfold toArray at hkey
          split at hkey
          · exact Option.some.inj hkey ▸ rfl
          · contradiction
        have hmem : bytes ∈ s.contents := List.mem_of_getLast? (hfile ▸ hbytes)
        rw [← hkey] at hmem
        exact hmem
      · exact ⟨trivial, id, id⟩

/-- A mint that ends has a key that is at the path, or has failed. -/
theorem minted_sound {tries : Nat} {mint : Mint} {result : Except IoError Unit}
    (hphase : mint.phase = .remove result)
    (h : (KeyTask.minting tries mint).Sound s.contents) :
    (minted tries mint.key result).Sound s.contents ∧
      ((minted tries mint.key result).Created → (KeyTask.minting tries mint).Created) ∧
      ¬ (minted tries mint.key result).Replaces := by
  cases result with
  | ok _ => exact ⟨h.2.2 hphase, fun _ => hphase, id⟩
  | error e =>
      simp only [minted]
      split <;> exact ⟨trivial, nofun, id⟩

/-- A step of a load that mints. -/
theorem move_of_minting {p tries : Nat} {mint : Mint} {fresh : Bytes32} {fault : Option IoError}
    {chunk : Nat} (hp : s.tasks p = some (.minting tries mint))
    (htask : (KeyTask.minting tries mint).Sound s.contents)
    (hstep : s.advance p fresh fault chunk (.minting tries mint) = some s') :
    ∃ out task', s' = (s.put out).setTask p task' ∧ Move s e p out task' := by
  simp only [advance] at hstep
  split at hstep
  · next result hphase =>
    obtain ⟨hsound, hcreated, hreplaces⟩ := minted_sound hphase htask
    refine ⟨none, some (minted tries mint.key result), (Option.some.inj hstep).symm, ?_⟩
    exact .quiet hsound (fun h => ⟨_, hp, hcreated h⟩) fun h => absurd h hreplaces
  · next hphase =>
    have hnext := mint.next_spec htask.1 hphase s.file fault chunk
    generalize mint.next s.file fault chunk = out at hnext hstep
    refine ⟨out.2, some (.minting tries out.1), (Option.some.inj hstep).symm, ?_⟩
    obtain ⟨hput, hgoes⟩ | ⟨hput, hphase', hfree⟩ := hnext.put
    · rw [hput]
      refine .quiet ?_ (fun h => absurd h hgoes) fun h => h.elim
      exact ⟨hnext.sound, hnext.replace.trans htask.2.1, fun h => absurd h hgoes⟩
    · have hnone : s.file = none := hfree htask.2.1
      rw [hput]
      refine ⟨?_, ?_, ?_, fun _ => .inl hnone, ?_⟩
      · rintro bytes ⟨⟩
        exact ⟨mint.key, rfl⟩
      · rintro t ⟨⟩
        refine ⟨hnext.sound, hnext.replace.trans htask.2.1, fun _ => ?_⟩
        rw [put_contents, hnext.key]
        exact List.mem_append_right _ (List.mem_singleton_self _)
      · rintro t ⟨⟩ _
        exact .inr ⟨hnone, nofun⟩
      · rintro t ⟨⟩ h
        exact h.elim

/-- A step of a write. -/
theorem move_of_writing {p : Nat} {mint : Mint} {fresh : Bytes32} {fault : Option IoError}
    {chunk : Nat} (hp : s.tasks p = some (.writing mint))
    (htask : (KeyTask.writing mint).Sound s.contents)
    (hstep : s.advance p fresh fault chunk (.writing mint) = some s') :
    ∃ out task', s' = (s.put out).setTask p task' ∧ Move s e p out task' := by
  simp only [advance] at hstep
  split at hstep
  · next result hphase =>
    refine ⟨none, some (.wrote (result.mapError .io)), (Option.some.inj hstep).symm, ?_⟩
    exact .quiet trivial (fun h => h.elim) fun h => h.elim
  · next hphase =>
    have hnext := mint.next_spec htask hphase s.file fault chunk
    generalize mint.next s.file fault chunk = out at hnext hstep
    refine ⟨out.2, some (.writing out.1), (Option.some.inj hstep).symm, ?_, ?_, ?_, ?_, ?_⟩
    · intro bytes hbytes
      obtain ⟨hput, -⟩ | ⟨hput, -⟩ := hnext.put
      · rw [hput] at hbytes
        contradiction
      · rw [hput] at hbytes
        exact ⟨mint.key, (Option.some.inj hbytes).symm⟩
    · rintro t ⟨⟩
      exact hnext.sound
    · rintro t ⟨⟩ h
      exact h.elim
    · intro hout
      obtain ⟨hput, -⟩ | ⟨-, -, hfree⟩ := hnext.put
      · exact absurd hput hout
      · cases hreplace : mint.replace with
        | false => exact .inl (hfree hreplace)
        | true => exact .inr ⟨_, hp, hreplace⟩
    · rintro t ⟨⟩ h
      exact .inl ⟨_, hp, hnext.replace.symm.trans h⟩

/-- A task goes on by one of its moves. -/
theorem move_of_advance {p : Nat} {fresh : Bytes32} {fault : Option IoError} {chunk : Nat}
    {task : KeyTask} (hfile : s.file = s.contents.getLast?) (hp : s.tasks p = some task)
    (htask : task.Sound s.contents) (hstep : s.advance p fresh fault chunk task = some s') :
    ∃ out task', s' = (s.put out).setTask p task' ∧ Move s e p out task' := by
  cases task with
  | reading tries =>
      obtain ⟨hsound, hcreated, hreplaces⟩ := readKey_sound tries fresh fault hfile
      refine ⟨none, some (readKey tries s.file fresh fault), (Option.some.inj hstep).symm, ?_⟩
      exact .quiet hsound (fun h => absurd h hcreated) fun h => absurd h hreplaces
  | minting tries mint => exact move_of_minting hp htask hstep
  | writing mint => exact move_of_writing hp htask hstep
  | loaded _ => contradiction
  | wrote _ => contradiction

/-- What holds of every state of a run from a directory with `file`. -/
structure Inv (file : Option (List UInt8)) (s : KeyDir) : Prop where
  current : s.file = s.contents.getLast?
  whole : ∀ bytes ∈ s.contents, file = some bytes ∨ ∃ key : Bytes32, bytes = key.toList
  kept : ∀ bytes, file = some bytes → bytes ∈ s.contents
  sound : ∀ p t, s.tasks p = some t → t.Sound s.contents
  created : ∀ p t, s.tasks p = some t → t.Created → file = none ∧ s.contents ≠ []
  first : ∀ p q t u, s.tasks p = some t → s.tasks q = some u → t.Created → u.Created → p = q

/-- **The step rule**: what each step does. -/
theorem move_of_step (h : s.Inv file) (hstep : s.step e = some s') :
    ∃ p out task, s' = (s.put out).setTask p task ∧ Move s e p out task := by
  cases e with
  | load p =>
      simp only [step] at hstep
      split_ifs at hstep with hfree
      refine ⟨p, none, some (.reading 4), (Option.some.inj hstep).symm, ?_⟩
      exact .quiet trivial (fun h => h.elim) fun h => h.elim
  | write p key replace =>
      simp only [step] at hstep
      split_ifs at hstep with hfree
      refine ⟨p, none, some (.writing (.new key replace)), (Option.some.inj hstep).symm, ?_⟩
      refine .quiet trivial (fun h => h.elim) fun h => ?_
      have hreplace : replace = true := h
      exact .inr ⟨key, by rw [hreplace]⟩
  | advance p fresh fault chunk =>
      obtain ⟨task, hp, hstep⟩ := Option.bind_eq_some_iff.mp hstep
      obtain ⟨out, task', hs', hmove⟩ := move_of_advance h.current hp (h.sound p task hp) hstep
      exact ⟨p, out, task', hs', hmove⟩
  | unlink p =>
      obtain ⟨task, hp, hs'⟩ := Option.map_eq_some_iff.mp hstep
      have hsound := h.sound p task hp
      refine ⟨p, none, some (unlinked task), hs'.symm, .quiet ?_ (fun h => ⟨task, hp, ?_⟩)
        fun h => .inl ⟨task, hp, ?_⟩⟩
      · cases task <;> exact hsound
      · cases task <;> exact h
      · cases task <;> exact h
  | crash p =>
      exact ⟨p, none, none, (Option.some.inj hstep).symm, .still nofun nofun nofun⟩

/-- What a task knows of the contents is true of more of them. -/
theorem sound_append {contents more : List (List UInt8)} {t : KeyTask} (h : t.Sound contents) :
    t.Sound (contents ++ more) := by
  cases t with
  | minting tries mint => exact ⟨h.1, h.2.1, fun hput => List.mem_append_left _ (h.2.2 hput)⟩
  | loaded result =>
      cases result with
      | ok out => exact List.mem_append_left _ h
      | error e => exact trivial
  | _ => exact h

/-- A task of the new state is the one that was set, or an old one. -/
theorem tasks_move {p q : Nat} {out : Option (List UInt8)} {task : Option KeyTask} {t : KeyTask}
    (h : ((s.put out).setTask p task).tasks q = some t) :
    q = p ∧ task = some t ∨ q ≠ p ∧ s.tasks q = some t := by
  have h : Function.update (s.put out).tasks p task q = some t := h
  obtain rfl | hne := eq_or_ne q p
  · rw [Function.update_self] at h
    exact .inl ⟨rfl, h⟩
  · rw [Function.update_of_ne hne, put_tasks] at h
    exact .inr ⟨hne, h⟩

/-- Each move keeps the account. -/
theorem Inv.move {p : Nat} {out : Option (List UInt8)} {task : Option KeyTask} (h : s.Inv file)
    (hmove : Move s e p out task) : ((s.put out).setTask p task).Inv file := by
  have hempty (hfile : s.file = none) : s.contents = [] :=
    List.getLast?_eq_none_iff.mp (h.current.symm.trans hfile)
  -- whoever has created the file was first: none had before
  have hnone (hfile : s.file = none) (q : Nat) (u : KeyTask) (hq : s.tasks q = some u) :
      ¬ u.Created := fun hu => (h.created q u hq hu).2 (hempty hfile)
  refine ⟨?_, ?_, ?_, ?_, ?_, ?_⟩
  · unfold put
    split
    · exact h.current
    · exact (List.getLast?_concat ..).symm
  · intro bytes hbytes
    rw [setTask_contents, put_contents] at hbytes
    obtain hbytes | hbytes := List.mem_append.mp hbytes
    · exact h.whole bytes hbytes
    · exact .inr (hmove.whole bytes (Option.mem_toList.mp hbytes))
  · intro bytes hbytes
    rw [setTask_contents, put_contents]
    exact List.mem_append_left _ (h.kept bytes hbytes)
  · intro q t hq
    obtain ⟨rfl, rfl⟩ | ⟨-, hq⟩ := tasks_move hq
    · exact hmove.sound t rfl
    · rw [setTask_contents, put_contents]
      exact sound_append (h.sound q t hq)
  · intro q t hq ht
    rw [setTask_contents, put_contents]
    have hold (u : KeyTask) (q : Nat) (hq : s.tasks q = some u) (hu : u.Created) :
        file = none ∧ s.contents ++ out.toList ≠ [] :=
      ⟨(h.created q u hq hu).1, List.append_ne_nil_of_left_ne_nil (h.created q u hq hu).2 _⟩
    obtain ⟨rfl, rfl⟩ | ⟨-, hq⟩ := tasks_move hq
    · obtain ⟨u, hu, hcreated⟩ | ⟨hfile, hout⟩ := hmove.created t rfl ht
      · exact hold u q hu hcreated
      · refine ⟨?_, ?_⟩
        · cases hstart : file with
          | none => rfl
          | some bytes =>
              have hmem := h.kept bytes hstart
              rw [hempty hfile] at hmem
              contradiction
        · obtain ⟨bytes, rfl⟩ := Option.ne_none_iff_exists'.mp hout
          exact List.append_ne_nil_of_right_ne_nil _ nofun
    · exact hold t q hq ht
  · intro q r t u hq hr ht hu
    obtain ⟨rfl, rfl⟩ | ⟨-, hq'⟩ := tasks_move hq
    · obtain ⟨rfl, -⟩ | ⟨-, hr'⟩ := tasks_move hr
      · rfl
      · obtain ⟨t₀, ht₀, hcreated⟩ | ⟨hfile, -⟩ := hmove.created t rfl ht
        · exact h.first q r t₀ u ht₀ hr' hcreated hu
        · exact absurd hu (hnone hfile r u hr')
    · obtain ⟨rfl, rfl⟩ | ⟨-, hr'⟩ := tasks_move hr
      · obtain ⟨u₀, hu₀, hcreated⟩ | ⟨hfile, -⟩ := hmove.created u rfl hu
        · exact h.first q r t u₀ hq' hu₀ ht hcreated
        · exact absurd ht (hnone hfile q t hq')
      · exact h.first q r t u hq' hr' ht hu

/-- Nothing is under way at the start. -/
theorem inv_start (file : Option (List UInt8)) : (start file).Inv file where
  current := by cases file <;> rfl
  whole _ hbytes := .inl (Option.mem_toList.mp hbytes)
  kept _ hbytes := Option.mem_toList.mpr hbytes
  sound _ _ h := absurd h nofun
  created _ _ h := absurd h nofun
  first _ _ _ _ h := absurd h nofun

/-- Each step keeps the account. -/
theorem inv_step (h : s.Inv file) (hstep : s.step e = some s') : s'.Inv file := by
  obtain ⟨p, out, task, rfl, hmove⟩ := move_of_step h hstep
  exact h.move hmove

/-- No call has replaced a key: then at most one has ever stood at the path. -/
structure Settled (s : KeyDir) : Prop where
  keeps : ∀ p t, s.tasks p = some t → ¬ t.Replaces
  single : s.contents.length ≤ 1

/-- While nobody writes over it, what is at the path stays. -/
theorem settled_step (h : s.Inv file) (hs : s.Settled) (hstep : s.step e = some s')
    (he : ∀ p key, e ≠ .write p key true) : s'.Settled := by
  obtain ⟨p, out, task, rfl, hmove⟩ := move_of_step h hstep
  refine ⟨fun q t hq ht => ?_, ?_⟩
  · obtain ⟨rfl, rfl⟩ | ⟨-, hq⟩ := tasks_move hq
    · obtain ⟨t₀, ht₀, hreplaces⟩ | ⟨key, rfl⟩ := hmove.replaces t rfl ht
      · exact hs.keeps q t₀ ht₀ hreplaces
      · exact he q key rfl
    · exact hs.keeps q t hq ht
  · rw [setTask_contents, put_contents, List.length_append]
    cases hout : out with
    | none => exact hs.single
    | some bytes =>
        obtain hfile | ⟨t₀, ht₀, hreplaces⟩ := hmove.free (hout ▸ nofun)
        · rw [List.getLast?_eq_none_iff.mp (h.current.symm.trans hfile)]
          exact le_rfl
        · exact absurd hreplaces (hs.keeps p t₀ ht₀)

/-- In a run without a write over it, what is at the path stays. -/
theorem settled_of_run (hrun : run step (start file) es = some s)
    (hno : ∀ p key, KeyFileEvent.write p key true ∉ es) : s.Settled := by
  refine (run_history (I := fun es s => s.Inv file ∧
    ((∀ p key, KeyFileEvent.write p key true ∉ es) → s.Settled)) ?_ ?_ hrun).2 hno
  · refine ⟨inv_start file, fun _ => ⟨fun _ _ h => absurd h nofun, ?_⟩⟩
    cases file with
    | none => exact Nat.zero_le _
    | some _ => exact le_rfl
  · intro es s e s' _ ⟨h, hsettled⟩ hstep
    refine ⟨inv_step h hstep, fun hno => settled_step h (hsettled fun p key hmem => ?_) hstep ?_⟩
    · exact hno p key (List.mem_append_left _ hmem)
    · rintro p key rfl
      exact hno p key (List.mem_append_right _ (List.mem_singleton_self _))

/-- **All calls agree on one identity**, whatever fails, dies or races: the file
is whole or absent, one that is there stays, and one call at most creates it;
unless a key is replaced, every call that gets a key gets that of the file. -/
theorem one_identity (file : Option (List UInt8)) (hrun : run step (start file) es = some s) :
    (∀ bytes, s.file = some bytes → file = some bytes ∨ ∃ key : Bytes32, bytes = key.toList) ∧
    (∀ p key created, s.tasks p = some (.loaded (.ok (key, created))) → s.file.isSome) ∧
    (∀ p q key key', s.tasks p = some (.loaded (.ok (key, true))) →
      s.tasks q = some (.loaded (.ok (key', true))) → file = none ∧ p = q) ∧
    ((∀ p key, KeyFileEvent.write p key true ∉ es) → ∀ p key created,
      s.tasks p = some (.loaded (.ok (key, created))) → s.file = some key.toList) := by
  have h : s.Inv file := run_invariant (fun _ _ _ => inv_step) (inv_start file) hrun
  refine ⟨fun bytes hbytes => ?_, fun p key created hp => ?_, fun p q key key' hp hq => ?_,
    fun hno p key created hp => ?_⟩
  · exact h.whole bytes (List.mem_of_getLast? (h.current ▸ hbytes))
  · have hmem : key.toList ∈ s.contents := h.sound p _ hp
    rw [h.current, List.getLast?_isSome]
    exact List.ne_nil_of_mem hmem
  · exact ⟨(h.created p _ hp rfl).1, h.first p q _ _ hp hq rfl rfl⟩
  · have hsettled : s.Settled :=
      settled_of_run hrun hno
    have hmem : key.toList ∈ s.contents := h.sound p _ hp
    obtain ⟨bytes, hcontents⟩ := List.length_eq_one_iff.mp
      (le_antisymm hsettled.single (List.length_pos_of_mem hmem))
    rw [hcontents, List.mem_singleton] at hmem
    rw [h.current, hcontents, hmem]
    rfl

/-! ### without faults -/

/-- A task loses a race at most once, and then finds the file of the winner. -/
theorem smooth_readKey {tries : Nat} (h : (KeyTask.reading tries).Smooth s.contents)
    (hfile : s.file = s.contents.getLast?) (hlength : ∀ bytes ∈ s.contents, bytes.length = 32)
    (fresh : Bytes32) : (readKey tries s.file fresh none).Smooth s.contents := by
  have hpos : tries ≠ 0 := by
    obtain rfl | ⟨rfl, -⟩ := h <;> decide
  obtain ⟨tries, rfl⟩ := Nat.exists_eq_succ_of_ne_zero hpos
  cases hbytes : s.file with
  | none =>
      have hempty : s.contents = [] := List.getLast?_eq_none_iff.mp (hfile.symm.trans hbytes)
      obtain htries | ⟨-, hne⟩ := h
      · exact ⟨Nat.succ.inj htries, trivial⟩
      · exact absurd hempty hne
  | some bytes =>
      have hmem : bytes ∈ s.contents := List.mem_of_getLast? (hfile ▸ hbytes)
      have harray : toArray 32 bytes = some ⟨bytes, hlength bytes hmem⟩ :=
        dif_pos (hlength bytes hmem)
      simp only [readKey, harray]
      rfl

/-- A mint that ends without a fault gives a key, or finds one. -/
theorem smooth_minted {tries : Nat} {mint : Mint} {result : Except IoError Unit}
    (hphase : mint.phase = .remove result)
    (h : (KeyTask.minting tries mint).Smooth s.contents) :
    (minted tries mint.key result).Smooth s.contents := by
  obtain ⟨htries, hmint⟩ := h
  unfold Mint.Smooth at hmint
  rw [hphase] at hmint
  cases result with
  | ok _ => exact rfl
  | error e =>
      rw [minted, if_pos hmint.1]
      exact .inr ⟨htries, hmint.2⟩

/-- A task on its way stays on it when more is put in place. -/
theorem smooth_append {contents more : List (List UInt8)} {t : KeyTask} (h : t.Smooth contents) :
    t.Smooth (contents ++ more) := by
  have hne (h : contents ≠ []) : contents ++ more ≠ [] := List.append_ne_nil_of_left_ne_nil h _
  cases t with
  | reading tries => exact h.imp_right fun h => ⟨h.1, hne h.2⟩
  | minting tries mint =>
      refine ⟨h.1, ?_⟩
      have hmint := h.2
      unfold Mint.Smooth at hmint ⊢
      split at hmint
      case h_6 => exact ⟨hmint.1, hne hmint.2⟩
      all_goals exact hmint
  | _ => exact h

/-- Every call succeeds so far, or has lost its race. -/
def Smooth (s : KeyDir) : Prop := ∀ p t, s.tasks p = some t → t.Smooth s.contents

/-- Only the task of `p` is set, to one that is smooth. -/
theorem Smooth.setTask {p : Nat} {task : KeyTask} (hs : s.Smooth)
    (htask : task.Smooth s.contents) : (s.setTask p (some task)).Smooth := by
  intro q t hq
  have hq : ((s.put none).setTask p (some task)).tasks q = some t := hq
  obtain ⟨rfl, ht⟩ | ⟨-, hq⟩ := tasks_move hq
  · obtain rfl := Option.some.inj ht
    exact htask
  · exact hs q t hq

/-- A file may be put as well, for the others to find. -/
theorem Smooth.put {p : Nat} {out : Option (List UInt8)} {task : KeyTask} (hs : s.Smooth)
    (htask : task.Smooth (s.contents ++ out.toList)) :
    ((s.put out).setTask p (some task)).Smooth := by
  intro q t hq
  rw [setTask_contents, put_contents]
  obtain ⟨rfl, ht⟩ | ⟨-, hq⟩ := tasks_move hq
  · obtain rfl := Option.some.inj ht
    exact htask
  · exact smooth_append (hs q t hq)

/-- A step without a fault keeps every task on its way. -/
theorem smooth_step (h : s.Inv file) (hlength : ∀ bytes ∈ s.contents, bytes.length = 32)
    (hs : s.Smooth) (he : e.Smooth) (hstep : s.step e = some s') : s'.Smooth := by
  cases e with
  | load p =>
      simp only [step] at hstep
      split_ifs at hstep
      obtain rfl := Option.some.inj hstep
      exact hs.setTask (.inl rfl)
  | write p key replace =>
      simp only [step] at hstep
      split_ifs at hstep
      obtain rfl := Option.some.inj hstep
      exact hs.setTask trivial
  | advance p fresh fault chunk =>
      obtain rfl : fault = none := he
      obtain ⟨task, hp, hstep⟩ := Option.bind_eq_some_iff.mp hstep
      have htask := hs p task hp
      cases task with
      | reading tries =>
          obtain rfl := Option.some.inj hstep
          exact hs.setTask (smooth_readKey htask h.current hlength fresh)
      | minting tries mint =>
          simp only [advance] at hstep
          split at hstep
          · next result hphase =>
            obtain rfl := Option.some.inj hstep
            exact hs.setTask (smooth_minted hphase htask)
          · obtain rfl := Option.some.inj hstep
            refine hs.put ⟨htask.1, ?_⟩
            exact mint.smooth_call htask.2 h.current (h.sound p _ hp).2.1 chunk
      | writing mint =>
          simp only [advance] at hstep
          split at hstep
          · obtain rfl := Option.some.inj hstep
            exact hs.setTask trivial
          · obtain rfl := Option.some.inj hstep
            exact hs.put trivial
      | loaded _ => contradiction
      | wrote _ => contradiction
  | unlink p => exact he.elim
  | crash p =>
      obtain rfl := Option.some.inj hstep
      intro q t hq
      have hq : ((s.put none).setTask p none).tasks q = some t := hq
      obtain ⟨-, ht⟩ | ⟨-, hq⟩ := tasks_move hq
      · contradiction
      · exact hs q t hq

/-- **No race to the path fails a load**: where no call fails or removes the temp file
of another, and what is at the path has the length of a key, the retries suffice for
every load that ends. -/
theorem loads_survive_races (hlength : ∀ bytes, file = some bytes → bytes.length = 32)
    (hsmooth : ∀ e ∈ es, e.Smooth) (hrun : run step (start file) es = some s) (p : Nat)
    (result : Except KeyError (Bytes32 × Bool)) (hp : s.tasks p = some (.loaded result)) :
    result.isOk := by
  have hall : s.Inv file ∧ ((∀ e ∈ es, e.Smooth) → s.Smooth) := by
    refine run_history (I := fun es s => s.Inv file ∧ ((∀ e ∈ es, e.Smooth) → s.Smooth)) ?_ ?_ hrun
    · exact ⟨inv_start file, fun _ _ _ h => absurd h nofun⟩
    · intro es s e s' _ ⟨h, hs⟩ hstep
      refine ⟨inv_step h hstep, fun hsmooth => ?_⟩
      have hwhole : ∀ bytes ∈ s.contents, bytes.length = 32 := by
        intro bytes hbytes
        obtain hstart | ⟨key, rfl⟩ := h.whole bytes hbytes
        · exact hlength bytes hstart
        · exact key.toList_length
      exact smooth_step h hwhole (hs fun e he => hsmooth e (List.mem_append_left _ he))
        (hsmooth e (List.mem_append_right _ (List.mem_singleton_self _))) hstep
  exact hall.2 hsmooth p _ hp

/-! ### two first starts -/

namespace Example

def ours : Bytes32 := .replicate 32 1

def theirs : Bytes32 := .replicate 32 2

/-- Both find no file; the second loses its race, and reads the key of the first. -/
def race : List KeyFileEvent :=
  [.load 0, .load 1, .advance 0 ours none 0, .advance 1 theirs none 0] ++
    List.replicate 4 (.advance 0 ours none 31) ++ List.replicate 6 (.advance 1 theirs none 31) ++
    [.advance 0 ours none 0]

/-- A load whose temp file another call removes before it is linked. -/
def shared : List KeyFileEvent :=
  .load 0 :: List.replicate 4 (.advance 0 ours none 31) ++ .unlink 0 ::
    List.replicate 2 (.advance 0 ours none 31)

end Example

theorem one_identity_example : ∃ s, run step (start none) Example.race = some s ∧
    s.tasks 0 = some (.loaded (.ok (Example.ours, true))) ∧
    s.tasks 1 = some (.loaded (.ok (Example.ours, false))) ∧
    s.file = some Example.ours.toList := by
  have hrun : run step (start none) Example.race = some _ := rfl
  exact ⟨_, hrun, rfl, rfl, (one_identity none hrun).2.2.2 (fun p key => by
    simp [Example.race]) 1 _ false rfl⟩

theorem loads_survive_races_example : ∃ s result, run step (start none) Example.race = some s ∧
    s.tasks 1 = some (.loaded result) ∧ result.isOk := by
  have hrun : run step (start none) Example.race = some _ := rfl
  have hlength : ∀ bytes, (none : Option (List UInt8)) = some bytes → bytes.length = 32 := nofun
  refine ⟨_, _, hrun, rfl, loads_survive_races hlength ?_ hrun 1 _ rfl⟩
  simp [Example.race, KeyFileEvent.Smooth]

-- the temp file has to stay: the load fails where it goes
example : ∃ s e, run step (start none) Example.shared = some s ∧
    s.tasks 0 = some (.loaded (.error (.io e))) ∧ e.kind = .notFound := ⟨_, _, rfl, rfl, rfl⟩

end KeyDir

end Mcpmesh
