import Mcpmesh.Lib.Keyed
import Mcpmesh.Lib.Run
import Mcpmesh.Roster.Schema

/-!
# Mcpmesh.Pairing.Invites

The registry of outstanding invites (`node/src/pairing/mod.rs`) and its file
(`node/src/pairing/persist.rs`).

Each mutating call changes the map in memory, writes a snapshot of it, and
returns; the `writes` lock admits one writer at a time, and a crash may fall
between any two of these steps.  So the registry is a step machine: a call is
its first step, `store` is the write, `finish` is the rollback and the return,
and `crashLoad` may come at any point.  What was called and answered is kept as
a ghost `history`.

The bound on redemptions is one invariant of a minted invite, `Counted`: every
copy of it, in memory or on file, has at most the uses that are not yet given
out.
-/

namespace Mcpmesh

open Lib

abbrev Secret := Bytes32

/-- A pairing invite. -/
structure Invite where
  secret : Secret
  inviterId : EndpointId
  inviterAddrJson : String
  nickname : String
  services : List String
  expiresAtEpoch : Nat
  appLabel : Option String
  peerNickname : Option String
  asSelf : Bool
  usesRemaining : Nat
  deriving DecidableEq

/-- The outcome of a redemption attempt. -/
inductive Redeem where
  | ok (invite : Invite)
  | expired
  | unknown
  | unavailable
  deriving DecidableEq

abbrev InviteMap := Keyed Invite.secret

/-! ## the calls -/

/-- A call that holds the `writes` lock, with what it returns to. -/
inductive Pending where
  | mint (invite : Invite) (displaced : Option Invite)
  | redeem (secret : Secret) (now : Nat) (outcome : Redeem)
  | reap

/-- A writer between its map operation and its return: `stored` is the result
of the write, once made. -/
structure Writer where
  pending : Pending
  snapshot : List Invite
  stored : Option Bool

/-- What was called and what was returned. -/
inductive Event where
  | mintCalled (invite : Invite)
  | mintOk (invite : Invite)
  | mintErr (invite : Invite)
  | redeemed (secret : Secret) (now : Nat) (outcome : Redeem)
  deriving DecidableEq

/-- The event is a `Redeem::Ok` of this secret. -/
def Event.grants (secret : Secret) : Event → Bool
  | .redeemed s _ (.ok _) => s = secret
  | _ => false

/-- How often the secret was redeemed. -/
def okCount (history : List Event) (secret : Secret) : Nat := history.countP (Event.grants secret)

/-- The registry: the map, the file (`none` when absent), the writer that holds
the lock, and two ghosts, the history and the secrets that are taken. -/
structure LiveInvites where
  inner : InviteMap
  file : Option (List Invite)
  writer : Option Writer
  history : List Event
  taken : List Secret

/-- `try_redeem` under the map's lock: `none` is `Unknown`, which changes
nothing; else the outcome and the map it leaves. -/
def redeemUnderLock (map : InviteMap) (secret : Secret) (now : Nat) : Option (Redeem × InviteMap) :=
  match map.lookup secret with
  | none => none
  | some inv =>
      if inv.expiresAtEpoch < now then some (.expired, map.remove secret)
      else
        match inv.usesRemaining with
        -- `checked_sub`: a zero count is refused
        | 0 => none
        | left + 1 =>
            let inv := { inv with usesRemaining := left }
            if left = 0 then some (.ok inv, map.remove secret)
            else some (.ok inv, map.insert inv)

/-- `InviteFile::load`: what is on file and not expired; an unreadable file is
empty. -/
def loadFile (file : Option (List Invite)) (readable : Bool) (now : Nat) : List Invite :=
  if readable then (file.getD []).filter fun i => now ≤ i.expiresAtEpoch else []

namespace LiveInvites

/-- A writer takes the lock with the map it leaves. -/
def lock (reg : LiveInvites) (map : InviteMap) (pending : Pending) : LiveInvites :=
  { reg with inner := map, writer := some { pending, snapshot := map.items, stored := none } }

def mint (reg : LiveInvites) (invite : Invite) : LiveInvites :=
  let displaced := reg.inner.lookup invite.secret
  { reg.lock (reg.inner.insert invite) (.mint invite displaced) with
    history := reg.history ++ [.mintCalled invite]
    taken := invite.secret :: reg.taken }

def tryRedeem (reg : LiveInvites) (secret : Secret) (now : Nat) : LiveInvites :=
  match redeemUnderLock reg.inner secret now with
  | none => { reg with history := reg.history ++ [.redeemed secret now .unknown] }
  | some (outcome, map) => reg.lock map (.redeem secret now outcome)

def removeExpired (reg : LiveInvites) (now : Nat) : LiveInvites :=
  let map := reg.inner.retain fun i => now ≤ i.expiresAtEpoch
  if map.items.length = reg.inner.items.length then { reg with inner := map }
  else reg.lock map .reap

/-- The write: the whole file is replaced, or nothing is. -/
def store (reg : LiveInvites) (writer : Writer) (ok : Bool) : LiveInvites :=
  { reg with
    file := if ok then some writer.snapshot else reg.file
    writer := some { writer with stored := some ok } }

/-- Release the lock and answer. -/
def answer (reg : LiveInvites) (map : InviteMap) (e : Event) : LiveInvites :=
  { reg with inner := map, writer := none, history := reg.history ++ [e] }

/-- The rest of a call after its write: roll back what was not recorded, and
return. -/
def finish (reg : LiveInvites) (stored : Bool) : Pending → LiveInvites
  | .mint invite displaced =>
      if stored then reg.answer reg.inner (.mintOk invite)
      else
        match displaced with
        | some prev => reg.answer (reg.inner.insert prev) (.mintErr invite)
        | none => reg.answer (reg.inner.remove invite.secret) (.mintErr invite)
  | .redeem secret now outcome =>
      if stored then reg.answer reg.inner (.redeemed secret now outcome)
      else
        match outcome with
        | .ok inv =>
            -- `saturating_add` of a count that was just decremented
            let restored := { inv with usesRemaining := inv.usesRemaining + 1 }
            reg.answer (reg.inner.insert restored) (.redeemed secret now .unavailable)
        -- an expiry reap that was not written is not restored
        | _ => reg.answer reg.inner (.redeemed secret now .unavailable)
  | .reap => { reg with writer := none }

/-- A restart: the map is what the file holds, and the file is rewritten when
that dropped something.  Either read and the rewrite may fail. -/
def crashLoad (reg : LiveInvites) (now : Nat) (readable₁ readable₂ stored : Bool) : LiveInvites :=
  let onDisk := (loadFile reg.file readable₁ 0).length
  let live := loadFile reg.file readable₂ now
  let map := Keyed.ofList live
  { reg with
    inner := map
    file := if live.length ≠ onDisk && stored then some map.items else reg.file
    writer := none }

end LiveInvites

/-! ## the step machine -/

inductive InviteStep where
  | mint (invite : Invite)
  | tryRedeem (secret : Secret) (now : Nat)
  | removeExpired (now : Nat)
  | store (ok : Bool)
  | finish
  | crashLoad (now : Nat) (readable₁ readable₂ stored : Bool)

/-- One step; `none` where it cannot be taken.  A mint draws a secret that no
invite had before. -/
def inviteStep (reg : LiveInvites) : InviteStep → Option LiveInvites
  | .mint invite =>
      if reg.writer.isNone ∧ invite.secret ∉ reg.taken then some (reg.mint invite) else none
  | .tryRedeem secret now => if reg.writer.isNone then some (reg.tryRedeem secret now) else none
  | .removeExpired now => if reg.writer.isNone then some (reg.removeExpired now) else none
  | .store ok =>
      match reg.writer with
      | some ⟨pending, snapshot, none⟩ => some (reg.store ⟨pending, snapshot, none⟩ ok)
      | _ => none
  | .finish =>
      match reg.writer with
      | some ⟨pending, _, some stored⟩ => some (reg.finish stored pending)
      | _ => none
  | .crashLoad now readable₁ readable₂ stored => some (reg.crashLoad now readable₁ readable₂ stored)

/-! ## what the operations leave -/

section Maps

variable {map map' : InviteMap} {secret : Secret} {now : Nat} {outcome : Redeem} {a : Invite}

/-- A redemption under the lock reaps an expired invite, or takes one use of a
live one. -/
theorem redeemUnderLock_cases (h : redeemUnderLock map secret now = some (outcome, map')) :
    (outcome = .expired ∧ ∀ a ∈ map'.items, a ∈ map.items) ∨
      ∃ inv left, inv ∈ map.items ∧ inv.secret = secret ∧ now ≤ inv.expiresAtEpoch ∧
        inv.usesRemaining = left + 1 ∧ outcome = .ok { inv with usesRemaining := left } ∧
        ∀ a ∈ map'.items,
          a ∈ map.items ∧ a.secret ≠ secret ∨ a = { inv with usesRemaining := left } := by
  unfold redeemUnderLock at h
  split at h
  · contradiction
  · next inv hlookup =>
    obtain ⟨hmem, hsecret⟩ := Keyed.mem_of_lookup hlookup
    split at h
    · obtain ⟨rfl, rfl⟩ := Prod.mk.inj (Option.some.inj h)
      exact .inl ⟨rfl, fun a ha => (Keyed.mem_remove.mp ha).1⟩
    · next hlive =>
      split at h
      · contradiction
      · next left huses =>
        refine .inr ⟨inv, left, hmem, hsecret, Nat.le_of_not_lt hlive, huses, ?_⟩
        split at h
        · obtain ⟨rfl, rfl⟩ := Prod.mk.inj (Option.some.inj h)
          exact ⟨rfl, fun a ha => .inl (Keyed.mem_remove.mp ha)⟩
        · obtain ⟨rfl, rfl⟩ := Prod.mk.inj (Option.some.inj h)
          refine ⟨rfl, fun a ha => ?_⟩
          rw [← hsecret]
          exact Keyed.mem_insert.mp ha

/-- A restart holds only what is on file. -/
theorem mem_of_mem_loadFile {file : Option (List Invite)} {readable : Bool}
    (h : a ∈ (Keyed.ofList (loadFile file readable now) : InviteMap).items) :
    a ∈ file.getD [] := by
  have hmem := Keyed.mem_of_mem_ofList h
  unfold loadFile at hmem
  split at hmem
  · exact (List.mem_filter.mp hmem).1
  · exact absurd hmem List.not_mem_nil

/-- One event more is one grant more, if it grants the secret. -/
@[simp] theorem okCount_append (history : List Event) (e : Event) :
    okCount (history ++ [e]) secret =
      okCount history secret + if e.grants secret then 1 else 0 := by
  simp [okCount, List.countP_append, List.countP_cons]

end Maps

/-- What a step does, with what it waited for. -/
inductive Moves (reg : LiveInvites) : LiveInvites → Prop where
  | mint (invite : Invite) (hidle : reg.writer = none) (hfree : invite.secret ∉ reg.taken) :
      Moves reg (reg.mint invite)
  | tryRedeem (secret : Secret) (now : Nat) (hidle : reg.writer = none) :
      Moves reg (reg.tryRedeem secret now)
  | removeExpired (now : Nat) (hidle : reg.writer = none) : Moves reg (reg.removeExpired now)
  | store (pending : Pending) (snapshot : List Invite) (ok : Bool)
      (hwriter : reg.writer = some ⟨pending, snapshot, none⟩) :
      Moves reg (reg.store ⟨pending, snapshot, none⟩ ok)
  | finish (pending : Pending) (snapshot : List Invite) (stored : Bool)
      (hwriter : reg.writer = some ⟨pending, snapshot, some stored⟩) :
      Moves reg (reg.finish stored pending)
  | crashLoad (now : Nat) (readable₁ readable₂ stored : Bool) :
      Moves reg (reg.crashLoad now readable₁ readable₂ stored)

/-- A step of the registry is one of its moves. -/
theorem moves_of_inviteStep {reg reg' : LiveInvites} {e : InviteStep}
    (h : inviteStep reg e = some reg') : Moves reg reg' := by
  cases e with
  | mint invite =>
      obtain ⟨⟨hidle, hfree⟩, hreg⟩ := Option.ite_none_right_eq_some.mp h
      obtain rfl := Option.some.inj hreg
      exact .mint invite (Option.isNone_iff_eq_none.mp hidle) hfree
  | tryRedeem secret now =>
      obtain ⟨hidle, hreg⟩ := Option.ite_none_right_eq_some.mp h
      obtain rfl := Option.some.inj hreg
      exact .tryRedeem secret now (Option.isNone_iff_eq_none.mp hidle)
  | removeExpired now =>
      obtain ⟨hidle, hreg⟩ := Option.ite_none_right_eq_some.mp h
      obtain rfl := Option.some.inj hreg
      exact .removeExpired now (Option.isNone_iff_eq_none.mp hidle)
  | store ok =>
      simp only [inviteStep] at h
      split at h
      · next pending snapshot hwriter =>
        obtain rfl := Option.some.inj h
        exact .store pending snapshot ok hwriter
      · contradiction
  | finish =>
      simp only [inviteStep] at h
      split at h
      · next pending snapshot stored hwriter =>
        obtain rfl := Option.some.inj h
        exact .finish pending snapshot stored hwriter
      · contradiction
  | crashLoad now readable₁ readable₂ stored =>
      obtain rfl := Option.some.inj h
      exact .crashLoad now readable₁ readable₂ stored

/-- What an event tells of the step that recorded it. -/
def Event.Explains (reg reg' : LiveInvites) : Event → Prop
  | .mintCalled inv => inv.secret ∉ reg.taken ∧ reg' = reg.mint inv
  | .mintErr inv => ∃ displaced snapshot,
      reg.writer = some ⟨.mint inv displaced, snapshot, some false⟩ ∧
        reg' = reg.finish false (.mint inv displaced)
  | .redeemed secret now (.ok inv) => ∃ snapshot,
      reg.writer = some ⟨.redeem secret now (.ok inv), snapshot, some true⟩
  | _ => True

/-- A step records at most one event. -/
theorem Moves.history_cases {reg reg' : LiveInvites} (h : Moves reg reg') :
    reg'.history = reg.history ∨
      ∃ e, reg'.history = reg.history ++ [e] ∧ Event.Explains reg reg' e := by
  cases h with
  | mint invite hidle hfree => exact .inr ⟨.mintCalled invite, rfl, hfree, rfl⟩
  | tryRedeem secret now hidle =>
      unfold LiveInvites.tryRedeem
      split
      · exact .inr ⟨.redeemed secret now .unknown, rfl, trivial⟩
      · exact .inl rfl
  | removeExpired now hidle =>
      unfold LiveInvites.removeExpired
      dsimp only
      split <;> exact .inl rfl
  | store pending snapshot ok hwriter => exact .inl rfl
  | finish pending snapshot stored hwriter =>
      cases pending with
      | mint invite displaced =>
          cases stored with
          | true => exact .inr ⟨.mintOk invite, rfl, trivial⟩
          | false =>
              refine .inr ⟨.mintErr invite, ?_, displaced, snapshot, hwriter, rfl⟩
              cases displaced <;> rfl
      | redeem secret now outcome =>
          cases stored with
          | true =>
              refine .inr ⟨.redeemed secret now outcome, rfl, ?_⟩
              cases outcome with
              | ok inv => exact ⟨snapshot, hwriter⟩
              | expired => trivial
              | unknown => trivial
              | unavailable => trivial
          | false =>
              refine .inr ⟨.redeemed secret now .unavailable, ?_, trivial⟩
              cases outcome <;> rfl
      | reap => exact .inl rfl
  | crashLoad now readable₁ readable₂ stored => exact .inl rfl

/-! ## an invite that is nowhere -/

/-- No copy of this secret's invite. -/
def Absent (secret : Secret) (items : List Invite) : Prop := ∀ i ∈ items, i.secret ≠ secret

/-- Neither the answer nor the rollback of the call brings the secret back. -/
def Pending.Spares (secret : Secret) : Pending → Prop
  | .mint _ displaced => ∀ prev, displaced = some prev → prev.secret ≠ secret
  | .redeem s _ (.ok inv) => s ≠ secret ∧ inv.secret ≠ secret
  | _ => True

/-- The secret is neither in memory nor on file, nor about to be. -/
structure Unheld (secret : Secret) (reg : LiveInvites) : Prop where
  inner : Absent secret reg.inner.items
  file : Absent secret (reg.file.getD [])
  writer : ∀ w, reg.writer = some w → Absent secret w.snapshot ∧ w.pending.Spares secret

section Unheld

variable {secret : Secret} {reg reg' : LiveInvites}

/-- A map without the secret can be put under the lock. -/
theorem Unheld.lock {map : InviteMap} {pending : Pending} (h : Unheld secret reg)
    (hmap : Absent secret map.items) (hpending : pending.Spares secret) :
    Unheld secret (reg.lock map pending) :=
  ⟨hmap, h.file, by rintro _ ⟨⟩; exact ⟨hmap, hpending⟩⟩

/-- An answer adds nothing to the map. -/
theorem Unheld.answer {map : InviteMap} {e : Event} (h : Unheld secret reg)
    (hmap : Absent secret map.items) : Unheld secret (reg.answer map e) :=
  ⟨hmap, h.file, fun _ hw => by contradiction⟩

/-- An insert of another invite leaves the secret absent. -/
theorem Absent.insert {map : InviteMap} {inv : Invite} (h : Absent secret map.items)
    (hinv : inv.secret ≠ secret) : Absent secret (map.insert inv).items := by
  intro i hi
  obtain ⟨hi, -⟩ | rfl := Keyed.mem_insert.mp hi
  · exact h i hi
  · exact hinv

/-- What is absent stays absent when invites are dropped. -/
theorem Absent.subset {items items' : List Invite} (h : Absent secret items)
    (hsub : ∀ i ∈ items', i ∈ items) : Absent secret items' :=
  fun i hi => h i (hsub i hi)

/-- A mint of another secret. -/
theorem Unheld.mint {invite : Invite} (h : Unheld secret reg) (hne : invite.secret ≠ secret) :
    Unheld secret (reg.mint invite) := by
  have hmap : Absent secret (reg.inner.insert invite).items := h.inner.insert hne
  refine ⟨hmap, h.file, ?_⟩
  rintro _ ⟨⟩
  refine ⟨hmap, fun prev hprev => ?_⟩
  exact h.inner prev (Keyed.mem_of_lookup hprev).1

/-- A redemption puts back nothing but what it took. -/
theorem Unheld.tryRedeem {s : Secret} {now : Nat} (h : Unheld secret reg) :
    Unheld secret (reg.tryRedeem s now) := by
  unfold LiveInvites.tryRedeem
  split
  · exact ⟨h.inner, h.file, h.writer⟩
  · next outcome map hredeem =>
    obtain ⟨rfl, hmap⟩ | ⟨inv, left, hinv, rfl, -, -, rfl, hmap⟩ := redeemUnderLock_cases hredeem
    · exact h.lock (h.inner.subset hmap) trivial
    · have hne : inv.secret ≠ secret := h.inner inv hinv
      refine h.lock (fun i hi => ?_) ⟨hne, hne⟩
      obtain ⟨hi, -⟩ | rfl := hmap i hi
      · exact h.inner i hi
      · exact hne

/-- A removal of the expired puts back nothing but what it took. -/
theorem Unheld.removeExpired {now : Nat} (h : Unheld secret reg) :
    Unheld secret (reg.removeExpired now) := by
  have hmap : Absent secret (reg.inner.retain fun i => now ≤ i.expiresAtEpoch).items :=
    h.inner.subset fun i hi => (Keyed.mem_retain.mp hi).1
  unfold LiveInvites.removeExpired
  dsimp only
  split
  · exact ⟨hmap, h.file, h.writer⟩
  · exact h.lock hmap trivial

/-- A store writes the snapshot, which has no such secret, or nothing. -/
theorem Unheld.store {pending : Pending} {snapshot : List Invite} {ok : Bool}
    (h : Unheld secret reg) (hwriter : reg.writer = some ⟨pending, snapshot, none⟩) :
    Unheld secret (reg.store ⟨pending, snapshot, none⟩ ok) := by
  obtain ⟨hsnapshot, hpending⟩ := h.writer _ hwriter
  refine ⟨h.inner, ?_, by rintro _ ⟨⟩; exact ⟨hsnapshot, hpending⟩⟩
  cases ok with
  | true => exact hsnapshot
  | false => exact h.file

/-- A rollback puts back only what its own step took. -/
theorem Unheld.finish {pending : Pending} {snapshot : List Invite} {stored : Bool}
    (h : Unheld secret reg) (hwriter : reg.writer = some ⟨pending, snapshot, some stored⟩) :
    Unheld secret (reg.finish stored pending) := by
  have hpending : pending.Spares secret := (h.writer _ hwriter).2
  unfold LiveInvites.finish
  split
  · next invite displaced =>
    split
    · exact h.answer h.inner
    · split
      · next prev => exact h.answer (h.inner.insert (hpending prev rfl))
      · exact h.answer (h.inner.subset fun i hi => (Keyed.mem_remove.mp hi).1)
  · split
    · exact h.answer h.inner
    · split
      · next inv => exact h.answer (h.inner.insert hpending.2)
      · exact h.answer h.inner
  · exact ⟨h.inner, h.file, fun _ hw => by contradiction⟩

/-- After a crash the map is the one in the store. -/
theorem Unheld.crashLoad {now : Nat} {readable₁ readable₂ stored : Bool} (h : Unheld secret reg) :
    Unheld secret (reg.crashLoad now readable₁ readable₂ stored) := by
  have hmap : Absent secret (Keyed.ofList (loadFile reg.file readable₂ now) : InviteMap).items :=
    h.file.subset fun i hi => mem_of_mem_loadFile hi
  refine ⟨hmap, ?_, fun _ hw => by contradiction⟩
  unfold LiveInvites.crashLoad
  dsimp only
  split
  · exact hmap
  · exact h.file

/-- What is nowhere stays nowhere until it is minted. -/
theorem Unheld.moves (h : Unheld secret reg) (hmoves : Moves reg reg')
    (htaken : secret ∈ reg.taken ∨ secret ∉ reg'.taken) : Unheld secret reg' := by
  cases hmoves with
  | mint invite hidle hfree =>
      refine h.mint ?_
      rintro rfl
      exact htaken.elim hfree fun hnot => hnot List.mem_cons_self
  | tryRedeem s now hidle => exact h.tryRedeem
  | removeExpired now hidle => exact h.removeExpired
  | store pending snapshot ok hwriter => exact h.store hwriter
  | finish pending snapshot stored hwriter => exact h.finish hwriter
  | crashLoad now readable₁ readable₂ stored => exact h.crashLoad

/-- What is nowhere is not redeemed. -/
theorem Unheld.okCount_moves (h : Unheld secret reg) (hmoves : Moves reg reg') :
    okCount reg'.history secret = okCount reg.history secret := by
  obtain hsame | ⟨e, hhistory, hexplains⟩ := hmoves.history_cases
  · rw [hsame]
  · have hgrants : e.grants secret = false := by
      unfold Event.grants
      split
      · next s now inv =>
        obtain ⟨snapshot, hwriter⟩ := hexplains
        exact decide_eq_false (h.writer _ hwriter).2.1
      · rfl
    rw [hhistory, okCount_append, hgrants]
    rfl

end Unheld

/-! ## the uses of a minted invite -/

/-- The copies of `inv` in a list keep its expiry, and have at most the uses
that `given` redemptions leave. -/
def Within (inv : Invite) (given : Nat) (items : List Invite) : Prop :=
  ∀ i ∈ items, i.secret = inv.secret →
    i.expiresAtEpoch = inv.expiresAtEpoch ∧ i.usesRemaining + given ≤ inv.usesRemaining

/-- The uses that the call has taken from the map and not yet answered for. -/
def Pending.due (secret : Secret) : Pending → Nat
  | .redeem s _ (.ok _) => if s = secret then 1 else 0
  | _ => 0

/-- What the call may still put back or answer is accounted for. -/
def Pending.Counted (inv : Invite) (given : Nat) : Pending → Prop
  | .mint _ displaced => ∀ prev, displaced = some prev → Within inv given [prev]
  | .redeem s now (.ok i) =>
      i.secret = s ∧ (s = inv.secret → now ≤ inv.expiresAtEpoch) ∧ Within inv (given + 1) [i]
  | _ => True

structure Writer.Counted (inv : Invite) (given : Nat) (file : List Invite) (w : Writer) : Prop where
  pending : w.pending.Counted inv given
  snapshot : Within inv (given + w.pending.due inv.secret) w.snapshot
  -- a write that was made already accounts for the call
  written : w.stored = some true → Within inv (given + w.pending.due inv.secret) file

def LiveInvites.due (reg : LiveInvites) (secret : Secret) : Nat :=
  reg.writer.elim 0 fun w => w.pending.due secret

/-- **The invariant of a minted invite**: memory has at most the uses that are
neither given out nor due, the file at most those not given out. -/
structure Counted (inv : Invite) (reg : LiveInvites) : Prop where
  taken : inv.secret ∈ reg.taken
  quota : okCount reg.history inv.secret ≤ inv.usesRemaining
  live : ∀ now i, .redeemed inv.secret now (.ok i) ∈ reg.history → now ≤ inv.expiresAtEpoch
  inner : Within inv (okCount reg.history inv.secret + reg.due inv.secret) reg.inner.items
  file : Within inv (okCount reg.history inv.secret) (reg.file.getD [])
  writer : ∀ w, reg.writer = some w →
    w.Counted inv (okCount reg.history inv.secret) (reg.file.getD [])

section Counted

variable {inv : Invite} {given : Nat} {items items' : List Invite} {map : InviteMap}
  {reg reg' : LiveInvites}

/-- A bound for more is a bound for less. -/
theorem Within.mono {more : Nat} (h : Within inv more items) (hle : given ≤ more) :
    Within inv given items := by
  intro i hi hsecret
  obtain ⟨hexpires, huses⟩ := h i hi hsecret
  exact ⟨hexpires, by omega⟩

/-- A bound holds still when invites are dropped. -/
theorem Within.subset (h : Within inv given items) (hsub : ∀ i ∈ items', i ∈ items) :
    Within inv given items' :=
  fun i hi => h i (hsub i hi)

/-- A bound holds of an insert if it holds of what is inserted. -/
theorem Within.insert {i : Invite} (h : Within inv given map.items) (hi : Within inv given [i]) :
    Within inv given (map.insert i).items := by
  intro a ha
  obtain ⟨ha, -⟩ | rfl := Keyed.mem_insert.mp ha
  · exact h a ha
  · exact hi a (List.mem_singleton_self a)

/-- Where the secret is absent every bound holds. -/
theorem Absent.within (h : Absent inv.secret items) : Within inv given items :=
  fun i hi hsecret => absurd hsecret (h i hi)

/-- What the bound says of one invite. -/
theorem within_singleton {i : Invite} : Within inv given [i] ↔
    (i.secret = inv.secret →
      i.expiresAtEpoch = inv.expiresAtEpoch ∧ i.usesRemaining + given ≤ inv.usesRemaining) := by
  simp [Within]

/-- A writer that takes the lock leaves a map that accounts for its call. -/
theorem Counted.lock {pending : Pending} (h : Counted inv reg)
    (hmap : Within inv (okCount reg.history inv.secret + pending.due inv.secret) map.items)
    (hpending : pending.Counted inv (okCount reg.history inv.secret)) :
    Counted inv (reg.lock map pending) :=
  { h with
    inner := hmap
    writer := by
      rintro _ ⟨⟩
      exact ⟨hpending, hmap, fun hstored => by contradiction⟩ }

/-- An answer that grants nothing leaves the count. -/
theorem Counted.answer {e : Event} (h : Counted inv reg)
    (hmap : Within inv (okCount reg.history inv.secret) map.items)
    (he : ∀ s now i, e ≠ .redeemed s now (.ok i)) : Counted inv (reg.answer map e) := by
  have hgrants : e.grants inv.secret = false := by
    unfold Event.grants
    split
    · next s now i => exact absurd rfl (he s now i)
    · rfl
  have hcount : okCount (reg.answer map e).history inv.secret = okCount reg.history inv.secret := by
    simp [LiveInvites.answer, hgrants]
  have hlive : ∀ now i, .redeemed inv.secret now (.ok i) ∈ reg.history ++ [e] →
      now ≤ inv.expiresAtEpoch := by
    intro now i hmem
    obtain hmem | hmem := List.mem_append.mp hmem
    · exact h.live now i hmem
    · exact absurd (List.mem_singleton.mp hmem).symm (he inv.secret now i)
  have hinner : Within inv (okCount (reg.answer map e).history inv.secret) map.items := by
    rw [hcount]
    exact hmap
  exact ⟨h.taken, hcount ▸ h.quota, hlive, hinner, hcount ▸ h.file, fun _ hw => by contradiction⟩

/-- A fresh secret is counted from its mint. -/
theorem counted_mint (h : Unheld inv.secret reg) (hcount : okCount reg.history inv.secret = 0) :
    Counted inv (reg.mint inv) := by
  have hcount' : okCount (reg.mint inv).history inv.secret = 0 := by
    simpa [LiveInvites.mint, Event.grants] using hcount
  have hinv : Within inv 0 [inv] := within_singleton.mpr fun _ => ⟨rfl, Nat.le_refl _⟩
  have hmap : Within inv 0 (reg.inner.insert inv).items := h.inner.within.insert hinv
  have hlive : ∀ now i, .redeemed inv.secret now (.ok i) ∈ (reg.mint inv).history →
      now ≤ inv.expiresAtEpoch := by
    intro now i hmem
    have hzero := List.countP_eq_zero.mp hcount' _ hmem
    simp [Event.grants] at hzero
  have hdisplaced : ∀ prev, reg.inner.lookup inv.secret = some prev → Within inv 0 [prev] := by
    intro prev hprev
    obtain ⟨hmem, hsecret⟩ := Keyed.mem_of_lookup hprev
    exact absurd hsecret (h.inner prev hmem)
  refine ⟨List.mem_cons_self, by omega, hlive, ?_, h.file.within, ?_⟩
  · rw [hcount']
    exact hmap
  · rintro _ ⟨⟩
    rw [hcount']
    exact ⟨hdisplaced, hmap, fun hstored => by contradiction⟩

/-- A mint of another secret leaves the count. -/
theorem Counted.mint {invite : Invite} (h : Counted inv reg)
    (hne : invite.secret ≠ inv.secret) : Counted inv (reg.mint invite) := by
  have hcount : okCount (reg.mint invite).history inv.secret = okCount reg.history inv.secret := by
    simp [LiveInvites.mint, Event.grants]
  have hinner : Within inv (okCount reg.history inv.secret) reg.inner.items :=
    h.inner.mono (Nat.le_add_right _ _)
  have hmap : Within inv (okCount reg.history inv.secret) (reg.inner.insert invite).items :=
    hinner.insert (within_singleton.mpr fun heq => absurd heq hne)
  have hlive : ∀ now i, .redeemed inv.secret now (.ok i) ∈ (reg.mint invite).history →
      now ≤ inv.expiresAtEpoch := by
    intro now i hmem
    obtain hmem | hmem := List.mem_append.mp hmem
    · exact h.live now i hmem
    · exact absurd (List.mem_singleton.mp hmem) (by simp)
  have hdisplaced : ∀ prev, reg.inner.lookup invite.secret = some prev →
      Within inv (okCount reg.history inv.secret) [prev] := by
    intro prev hprev
    have hmem : prev ∈ reg.inner.items := (Keyed.mem_of_lookup hprev).1
    exact within_singleton.mpr (hinner prev hmem)
  refine ⟨List.mem_cons_of_mem _ h.taken, hcount ▸ h.quota, hlive, ?_, hcount ▸ h.file, ?_⟩
  · rw [hcount]
    exact hmap
  · rintro _ ⟨⟩
    rw [hcount]
    exact ⟨hdisplaced, hmap, fun hstored => by contradiction⟩

/-- A redemption takes a use before it answers. -/
theorem Counted.tryRedeem {s : Secret} {now : Nat} (h : Counted inv reg)
    (hidle : reg.writer = none) : Counted inv (reg.tryRedeem s now) := by
  have hinner : Within inv (okCount reg.history inv.secret) reg.inner.items :=
    h.inner.mono (Nat.le_add_right _ _)
  unfold LiveInvites.tryRedeem
  split
  · have hanswer := h.answer (e := .redeemed s now .unknown) hinner (by simp)
    simpa [LiveInvites.answer, hidle] using hanswer
  · next outcome map hredeem =>
    obtain ⟨rfl, hmap⟩ | ⟨i, left, hi, rfl, hlive, huses, rfl, hmap⟩ :=
        redeemUnderLock_cases hredeem
    · exact h.lock (hinner.subset hmap) trivial
    · -- one use fewer in the map, one use more that is due
      have htaken : Within inv (okCount reg.history inv.secret + 1)
          [{ i with usesRemaining := left }] := by
        refine within_singleton.mpr fun hsecret => ?_
        obtain ⟨hexpires, hbound⟩ := hinner i hi hsecret
        exact ⟨hexpires, by dsimp only; omega⟩
      have hdue : (Pending.redeem i.secret now (.ok { i with usesRemaining := left })).due
          inv.secret = if i.secret = inv.secret then 1 else 0 := rfl
      have hlive' : i.secret = inv.secret → now ≤ inv.expiresAtEpoch := fun hsecret =>
        (hinner i hi hsecret).1 ▸ hlive
      refine h.lock (fun a ha hsecret => ?_) ⟨rfl, hlive', htaken⟩
      obtain ⟨ha, hne⟩ | rfl := hmap a ha
      · have hother : i.secret ≠ inv.secret := fun heq => hne (hsecret.trans heq.symm)
        rw [hdue, if_neg hother]
        exact hinner a ha hsecret
      · rw [hdue, if_pos hsecret]
        exact within_singleton.mp htaken hsecret

/-- A removal of the expired takes no use. -/
theorem Counted.removeExpired {now : Nat} (h : Counted inv reg) (hidle : reg.writer = none) :
    Counted inv (reg.removeExpired now) := by
  have hmap : Within inv (okCount reg.history inv.secret)
      (reg.inner.retain fun i => now ≤ i.expiresAtEpoch).items :=
    (h.inner.mono (Nat.le_add_right _ _)).subset fun i hi => (Keyed.mem_retain.mp hi).1
  unfold LiveInvites.removeExpired
  dsimp only
  split
  · refine { h with inner := ?_ }
    rw [LiveInvites.due, hidle]
    exact hmap
  · exact h.lock hmap trivial

/-- What is stored is within the bound, and so is what stays if the store fails. -/
theorem Counted.store {pending : Pending} {snapshot : List Invite} {ok : Bool}
    (h : Counted inv reg) (hwriter : reg.writer = some ⟨pending, snapshot, none⟩) :
    Counted inv (reg.store ⟨pending, snapshot, none⟩ ok) := by
  obtain ⟨hpending, hsnapshot, -⟩ := h.writer _ hwriter
  have hinner := h.inner
  rw [LiveInvites.due, hwriter] at hinner
  cases ok with
  | true =>
      refine { h with inner := hinner, file := ?_, writer := ?_ }
      · exact hsnapshot.mono (Nat.le_add_right _ _)
      · rintro _ ⟨⟩
        exact ⟨hpending, hsnapshot, fun _ => hsnapshot⟩
  | false =>
      refine { h with inner := hinner, writer := ?_ }
      rintro _ ⟨⟩
      exact ⟨hpending, hsnapshot, fun hstored => absurd hstored (by simp)⟩

/-- A recorded redemption is granted: the file has accounted for it. -/
theorem Counted.grant {i : Invite} {s : Secret} {now : Nat} {snapshot : List Invite}
    (h : Counted inv reg)
    (hwriter : reg.writer = some ⟨.redeem s now (.ok i), snapshot, some true⟩) :
    Counted inv (reg.answer reg.inner (.redeemed s now (.ok i))) := by
  obtain ⟨⟨hsecret, hlive, htaken⟩, -, hwritten⟩ := h.writer _ hwriter
  have hinner := h.inner
  rw [LiveInvites.due, hwriter] at hinner
  have hcount : okCount (reg.history ++ [.redeemed s now (.ok i)]) inv.secret =
      okCount reg.history inv.secret + (Pending.redeem s now (.ok i)).due inv.secret := by
    simp [Event.grants, Pending.due]
  have hquota : okCount (reg.history ++ [.redeemed s now (.ok i)]) inv.secret ≤
      inv.usesRemaining := by
    rw [hcount]
    by_cases hs : s = inv.secret
    · have hbound := (within_singleton.mp htaken (hsecret.trans hs)).2
      rw [Pending.due, if_pos hs]
      omega
    · rw [Pending.due, if_neg hs]
      exact h.quota
  have hlive' : ∀ now' i', .redeemed inv.secret now' (.ok i') ∈
      reg.history ++ [.redeemed s now (.ok i)] → now' ≤ inv.expiresAtEpoch := by
    intro now' i' hmem
    obtain hmem | hmem := List.mem_append.mp hmem
    · exact h.live now' i' hmem
    · obtain ⟨hs, rfl, -⟩ := Event.redeemed.inj (List.mem_singleton.mp hmem)
      exact hlive hs.symm
  exact ⟨h.taken, hquota, hlive', (hcount ▸ hinner :), (hcount ▸ hwritten rfl :),
    fun _ hw => by contradiction⟩

/-- A use is put back only where the answer was no. -/
theorem Counted.finish {pending : Pending} {snapshot : List Invite} {stored : Bool}
    (h : Counted inv reg) (hwriter : reg.writer = some ⟨pending, snapshot, some stored⟩) :
    Counted inv (reg.finish stored pending) := by
  have hpending : pending.Counted inv (okCount reg.history inv.secret) :=
    (h.writer _ hwriter).pending
  have hinner : Within inv (okCount reg.history inv.secret) reg.inner.items :=
    h.inner.mono (Nat.le_add_right _ _)
  unfold LiveInvites.finish
  split
  · next invite displaced =>
    split
    · exact h.answer hinner (by simp)
    · split
      · next prev => exact h.answer (hinner.insert (hpending prev rfl)) (by simp)
      · exact h.answer (hinner.subset fun i hi => (Keyed.mem_remove.mp hi).1) (by simp)
  · next s now outcome =>
    cases outcome with
    | ok i =>
        cases stored with
        | true => exact h.grant hwriter
        | false =>
            -- the rollback puts back the use that was due
            refine h.answer (hinner.insert (within_singleton.mpr fun hsecret => ?_)) (by simp)
            obtain ⟨hexpires, hbound⟩ := within_singleton.mp hpending.2.2 hsecret
            exact ⟨hexpires, by dsimp only; omega⟩
    | expired => cases stored <;> exact h.answer hinner (by simp)
    | unknown => cases stored <;> exact h.answer hinner (by simp)
    | unavailable => cases stored <;> exact h.answer hinner (by simp)
  · exact { h with inner := hinner, writer := fun _ hw => by contradiction }

/-- What a crash leaves in the store is within the bound. -/
theorem Counted.crashLoad {now : Nat} {readable₁ readable₂ stored : Bool} (h : Counted inv reg) :
    Counted inv (reg.crashLoad now readable₁ readable₂ stored) := by
  have hmap : Within inv (okCount reg.history inv.secret)
      (Keyed.ofList (loadFile reg.file readable₂ now) : InviteMap).items :=
    h.file.subset fun i hi => mem_of_mem_loadFile hi
  refine { h with inner := hmap, file := ?_, writer := fun _ hw => by contradiction }
  unfold LiveInvites.crashLoad
  dsimp only
  split
  · exact hmap
  · exact h.file

/-- **The step lemma**: every step keeps the uses of a minted invite counted. -/
theorem Counted.moves (h : Counted inv reg) (hmoves : Moves reg reg') : Counted inv reg' := by
  cases hmoves with
  | mint invite hidle hfree =>
      refine h.mint ?_
      intro heq
      exact hfree (heq ▸ h.taken)
  | tryRedeem s now hidle => exact h.tryRedeem hidle
  | removeExpired now hidle => exact h.removeExpired hidle
  | store pending snapshot ok hwriter => exact h.store hwriter
  | finish pending snapshot stored hwriter => exact h.finish hwriter
  | crashLoad now readable₁ readable₂ stored => exact h.crashLoad

end Counted

/-! ## whole runs -/

/-- The invariant of a registry. -/
structure LiveInvites.Inv (reg : LiveInvites) : Prop where
  free : ∀ secret, secret ∉ reg.taken → Unheld secret reg ∧ okCount reg.history secret = 0
  minting : ∀ inv displaced snapshot stored,
    reg.writer = some ⟨.mint inv displaced, snapshot, stored⟩ →
      inv.secret ∈ reg.taken ∧ displaced = none ∧
        (stored ≠ some true → Absent inv.secret (reg.file.getD []))
  failed : ∀ inv, .mintErr inv ∈ reg.history → inv.secret ∈ reg.taken ∧ Unheld inv.secret reg
  counted : ∀ inv, .mintCalled inv ∈ reg.history → Counted inv reg

/-- A registry that was just loaded, all of whose secrets are taken. -/
structure LiveInvites.Loaded (reg : LiveInvites) : Prop where
  history : reg.history = []
  writer : reg.writer = none
  taken : ∀ i ∈ reg.inner.items ++ reg.file.getD [], i.secret ∈ reg.taken

section Runs

variable {reg reg' : LiveInvites}

/-- A registry that was just loaded is counted for every secret. -/
theorem LiveInvites.Loaded.inv (h : reg.Loaded) : reg.Inv where
  free secret hfree := by
    have hinner : Absent secret reg.inner.items := fun i hi heq =>
      hfree (heq ▸ h.taken i (List.mem_append_left _ hi))
    have hfile : Absent secret (reg.file.getD []) := fun i hi heq =>
      hfree (heq ▸ h.taken i (List.mem_append_right _ hi))
    have hcount : okCount reg.history secret = 0 := by
      rw [h.history]
      rfl
    exact ⟨⟨hinner, hfile, fun w hw => absurd (h.writer.symm.trans hw) (by simp)⟩, hcount⟩
  minting inv displaced snapshot stored hw := absurd (h.writer.symm.trans hw) (by simp)
  failed inv hmem := absurd (h.history ▸ hmem) List.not_mem_nil
  counted inv hmem := absurd (h.history ▸ hmem) List.not_mem_nil

/-- A secret that was taken is not fresh any more. -/
theorem Moves.taken_subset (h : Moves reg reg') : ∀ secret ∈ reg.taken, secret ∈ reg'.taken := by
  intro secret hmem
  cases h with
  | mint invite hidle hfree => exact List.mem_cons_of_mem _ hmem
  | tryRedeem s now hidle =>
      unfold LiveInvites.tryRedeem
      split <;> exact hmem
  | removeExpired now hidle =>
      unfold LiveInvites.removeExpired
      dsimp only
      split <;> exact hmem
  | store pending snapshot ok hwriter => exact hmem
  | finish pending snapshot stored hwriter =>
      unfold LiveInvites.finish
      repeat' split
      all_goals exact hmem
  | crashLoad now readable₁ readable₂ stored => exact hmem

@[simp] theorem finish_writer {pending : Pending} {stored : Bool} :
    (reg.finish stored pending).writer = none := by
  unfold LiveInvites.finish
  repeat' split
  all_goals rfl

/-- Only the call itself starts a mint, and only its write records it. -/
theorem Moves.minting (h : Moves reg reg') {inv : Invite} {displaced : Option Invite}
    {snapshot : List Invite} {stored : Option Bool}
    (hw : reg'.writer = some ⟨.mint inv displaced, snapshot, stored⟩) :
    (inv.secret ∉ reg.taken ∧ displaced = reg.inner.lookup inv.secret ∧ inv.secret ∈ reg'.taken ∧
        reg'.file = reg.file) ∨
      ∃ ok, reg.writer = some ⟨.mint inv displaced, snapshot, none⟩ ∧ stored = some ok ∧
        (ok = false → reg'.file = reg.file) := by
  cases h with
  | mint invite hidle hfree =>
      obtain ⟨⟨rfl, rfl⟩, -⟩ := by simpa [LiveInvites.mint, LiveInvites.lock] using hw
      exact .inl ⟨hfree, rfl, List.mem_cons_self, rfl⟩
  | tryRedeem secret now hidle =>
      unfold LiveInvites.tryRedeem at hw
      split at hw
      · exact absurd (hidle.symm.trans hw) (by simp)
      · simp [LiveInvites.lock] at hw
  | removeExpired now hidle =>
      unfold LiveInvites.removeExpired at hw
      dsimp only at hw
      split at hw
      · exact absurd (hidle.symm.trans hw) (by simp)
      · simp [LiveInvites.lock] at hw
  | store pending snapshot' ok hwriter =>
      obtain ⟨rfl, rfl, rfl⟩ := Writer.mk.inj (Option.some.inj hw)
      refine .inr ⟨ok, hwriter, rfl, ?_⟩
      rintro rfl
      rfl
  | finish pending snapshot' stored' hwriter =>
      rw [finish_writer] at hw
      contradiction
  | crashLoad now readable₁ readable₂ ok => contradiction

/-- The count is kept by every move. -/
theorem LiveInvites.Inv.moves (h : reg.Inv) (hmoves : Moves reg reg') : reg'.Inv where
  free secret hfree := by
    have hfree₀ : secret ∉ reg.taken := fun hmem => hfree (hmoves.taken_subset secret hmem)
    obtain ⟨hunheld, hcount⟩ := h.free secret hfree₀
    exact ⟨hunheld.moves hmoves (.inr hfree), (hunheld.okCount_moves hmoves).trans hcount⟩
  minting inv displaced snapshot stored hw := by
    obtain ⟨hfree, hdisplaced, htaken, hfile⟩ | ⟨ok, hwriter, rfl, hfile⟩ := hmoves.minting hw
    · obtain ⟨hunheld, -⟩ := h.free inv.secret hfree
      have hnone : reg.inner.lookup inv.secret = none := Keyed.lookup_eq_none.mpr hunheld.inner
      exact ⟨htaken, hdisplaced.trans hnone, fun _ => hfile ▸ hunheld.file⟩
    · obtain ⟨htaken, hdisplaced, habsent⟩ := h.minting inv displaced snapshot none hwriter
      refine ⟨hmoves.taken_subset _ htaken, hdisplaced, fun hstored => ?_⟩
      have hlost : ok = false := by simpa using hstored
      exact hfile hlost ▸ habsent (by simp)
  failed inv hmem := by
    obtain hsame | ⟨e, hhistory, hexplains⟩ := hmoves.history_cases
    · obtain ⟨htaken, hunheld⟩ := h.failed inv (hsame ▸ hmem)
      exact ⟨hmoves.taken_subset _ htaken, hunheld.moves hmoves (.inl htaken)⟩
    · rw [hhistory] at hmem
      obtain hmem | hmem := List.mem_append.mp hmem
      · obtain ⟨htaken, hunheld⟩ := h.failed inv hmem
        exact ⟨hmoves.taken_subset _ htaken, hunheld.moves hmoves (.inl htaken)⟩
      · obtain rfl := List.mem_singleton.mp hmem
        obtain ⟨displaced, snapshot, hwriter, rfl⟩ := hexplains
        obtain ⟨htaken, rfl, habsent⟩ := h.minting inv displaced snapshot (some false) hwriter
        -- the rollback removes the only copy, which was in memory
        have hinner : Absent inv.secret (reg.inner.remove inv.secret).items := fun i hi =>
          (Keyed.mem_remove.mp hi).2
        exact ⟨htaken, hinner, habsent (by simp), fun w hw => by contradiction⟩
  counted inv hmem := by
    obtain hsame | ⟨e, hhistory, hexplains⟩ := hmoves.history_cases
    · exact (h.counted inv (hsame ▸ hmem)).moves hmoves
    · rw [hhistory] at hmem
      obtain hmem | hmem := List.mem_append.mp hmem
      · exact (h.counted inv hmem).moves hmoves
      · obtain rfl := List.mem_singleton.mp hmem
        obtain ⟨hfree, rfl⟩ := hexplains
        obtain ⟨hunheld, hcount⟩ := h.free inv.secret hfree
        exact counted_mint hunheld hcount

end Runs

/-- **No invite is over-redeemed**: in every run of a registry a minted secret
is redeemed at most as often as it was minted for, and never past its expiry;
and a mint that failed has left nothing in memory or on file.  Writes may fail
and a crash may fall between any two steps; the clock may even go back. -/
theorem invites_never_over_redeemed {reg reg' : LiveInvites} {steps : List InviteStep}
    (hloaded : reg.Loaded) (hrun : run inviteStep reg steps = some reg') (inv : Invite) :
    (.mintCalled inv ∈ reg'.history →
      okCount reg'.history inv.secret ≤ inv.usesRemaining ∧
        ∀ now i, .redeemed inv.secret now (.ok i) ∈ reg'.history → now ≤ inv.expiresAtEpoch) ∧
      (.mintErr inv ∈ reg'.history →
        Absent inv.secret reg'.inner.items ∧ Absent inv.secret (reg'.file.getD [])) := by
  have hinv : reg'.Inv :=
    run_invariant (fun s e s' hs hstep => hs.moves (moves_of_inviteStep hstep)) hloaded.inv hrun
  constructor
  · intro hmem
    have hcounted : Counted inv reg' := hinv.counted inv hmem
    exact ⟨hcounted.quota, hcounted.live⟩
  · intro hmem
    obtain ⟨-, hunheld⟩ := hinv.failed inv hmem
    exact ⟨hunheld.inner, hunheld.file⟩

namespace TwoUses

def empty : LiveInvites :=
  { inner := .empty, file := none, writer := none, history := [], taken := [] }

def invite (secret : UInt8) (uses : Nat) : Invite :=
  { secret := .replicate 32 secret, inviterId := .replicate 32 1, inviterAddrJson := "{}"
    nickname := "laptop", services := ["notes"], expiresAtEpoch := 100, appLabel := none
    peerNickname := none, asSelf := false, usesRemaining := uses }

def redeem (now : Nat) (stored : Bool) : List InviteStep :=
  [.tryRedeem (invite 7 2).secret now, .store stored, .finish]

/-- An invite for two, one redemption that is not recorded, one before a crash
and two after it; and a mint that is not recorded. -/
def steps : List InviteStep :=
  [.mint (invite 7 2), .store true, .finish] ++ redeem 1 false ++ redeem 2 true ++
    [.crashLoad 3 true true true] ++ redeem 4 true ++ [.tryRedeem (invite 7 2).secret 5] ++
    [.mint (invite 8 1), .store false, .finish]

end TwoUses

theorem invites_never_over_redeemed_example :
    ∃ reg', run inviteStep TwoUses.empty TwoUses.steps = some reg' ∧
      okCount reg'.history (TwoUses.invite 7 2).secret = 2 ∧
      okCount reg'.history (TwoUses.invite 7 2).secret ≤ (TwoUses.invite 7 2).usesRemaining ∧
      Absent (TwoUses.invite 8 1).secret (reg'.file.getD []) := by
  have hsome : (run inviteStep TwoUses.empty TwoUses.steps).isSome := by decide +kernel
  obtain ⟨reg', hrun⟩ := Option.isSome_iff_exists.mp hsome
  have hloaded : TwoUses.empty.Loaded := ⟨rfl, rfl, by decide⟩
  have hsafe := invites_never_over_redeemed hloaded hrun
  have hfields : ((run inviteStep TwoUses.empty TwoUses.steps).all fun r =>
      .mintCalled (TwoUses.invite 7 2) ∈ r.history ∧ .mintErr (TwoUses.invite 8 1) ∈ r.history ∧
        okCount r.history (TwoUses.invite 7 2).secret = 2) = true := by decide +kernel
  rw [hrun] at hfields
  obtain ⟨hminted, hfailed, hcount⟩ := of_decide_eq_true hfields
  exact ⟨reg', hrun, hcount, ((hsafe (TwoUses.invite 7 2)).1 hminted).1,
    ((hsafe (TwoUses.invite 8 1)).2 hfailed).2⟩

end Mcpmesh
