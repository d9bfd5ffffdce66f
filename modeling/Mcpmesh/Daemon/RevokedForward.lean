import Mcpmesh.Daemon.Revocation
import Mcpmesh.Roster.Successor

/-!
# Mcpmesh.Daemon.RevokedForward

What the concurrent revocation verbs leave of a revocation entry.

`peer_revoke` and `device_revocation_import` check the entry in one transaction
and write it in another, and `device_revoke` checks nothing but signs by a clock
that runs forward; so an older statement moves an entry back exactly where another
call puts a newer one in place between its check, or its signature, and its write
(`InOrder`).
-/

namespace Mcpmesh

open Lib

section RevokedForward

variable (J : PeerJson) (roster : RosterGate) (P : Primitives) (RJ : RevokedJson) (now : Int)

/-! ## the law -/

/-- The call is an import of the token. -/
def RevokePhase.Imports (token : RevocationToken) : RevokePhase → Prop
  | .started (.deviceRevocationImport other) | .importing other _ | .importWriting other _ =>
      other = token
  | _ => False

namespace CutOffNode

variable (s : CutOffNode)

def entry (eid : EndpointId) : Option RevokedEntry := s.db.revokedEntry RJ eid

/-- When the entry of the endpoint was issued. -/
def issued (eid : EndpointId) : Option Nat :=
  ((s.entry RJ eid).bind (·.issuedAt)).map (·.toNat)

/-- The entry is a signed one, issued at `issuedAt`. -/
def Signed (eid : EndpointId) (issuedAt : Nat) : Prop :=
  (s.entry RJ eid).any (·.source = "signed") = true ∧ s.issued RJ eid = some issuedAt

/-- When the token was issued that the step puts in place for the endpoint, or
finds superseded. -/
def placed (eid : EndpointId) : CutOffEvent → Option Nat
  | .act i _ =>
      match s.calls i with
      | .started (.deviceRevoke token) | .importWriting token _ =>
          if token.endpoint = eid then some token.issuedAt.toNat else none
      | .importing token true =>
          if token.endpoint = eid ∧
              ((s.entry RJ eid).bind (·.issuedAt)).any (token.issuedAt ≤ ·) then
            some token.issuedAt.toNat
          else none
      | _ => none
  | _ => none

end CutOffNode

/-- What a step does to the entries. -/
structure RevocationKept (s s' : CutOffNode) (event : CutOffEvent) : Prop where
  /-- a signed entry stays signed, and is issued no earlier -/
  forward : ∀ eid issuedAt, s.Signed RJ eid issuedAt →
    ∃ later, issuedAt ≤ later ∧ s'.Signed RJ eid later
  /-- an import touches only a device that the signer's identity has here -/
  imported : ∀ i clock token, event = .act i clock → (s.calls i).Imports token →
    ∀ eid, s'.entry RJ eid ≠ s.entry RJ eid →
      eid = token.endpoint ∧ token.verified P = true ∧ rowCarries J s.db eid token.userId = true

/-! ## the condition -/

/-- A step of the three verbs, or of the connections. -/
def CutOffEvent.revokes : CutOffEvent → Bool
  | .call _ (.removePeer _) | .add _ | .unrevoke _ | .unrevokeUser _ => false
  | _ => true

/-- Where the call is between its check, or its signature, and its write, this write
does not displace the token if it is put in place now. -/
def RevokePhase.outlasted (token : RevocationToken) : RevokePhase → Bool
  | .revoking _ _ _ (eid :: _) _ (some existing) _ =>
      existing.any (·.source = "signed") || eid ≠ token.endpoint
  | .started (.deviceRevoke own) | .importWriting own _ =>
      own.endpoint ≠ token.endpoint || token.issuedAt ≤ own.issuedAt
  | _ => true

namespace CutOffNode

/-- The token that the step puts in place. -/
def puts (s : CutOffNode) : CutOffEvent → Option RevocationToken
  | .act i _ =>
      match s.calls i with
      | .started (.deviceRevoke token) | .importWriting token _ => some token
      | _ => none
  | _ => none

/-- The condition on a step: no token is put in place that the write of another
call then displaces, and `device_revoke` signs no earlier than the entry it finds
was issued. -/
def InOrder (s : CutOffNode) : CutOffEvent → Prop
  | .call i (.deviceRevoke token) =>
      s.calls i = .idle → (s.issued RJ token.endpoint).all (· ≤ token.issuedAt.toNat) = true
  | .act i clock =>
      ∀ token, s.puts (.act i clock) = some token →
        ∀ j, j ≠ i → (s.calls j).outlasted token = true
  | _ => True

end CutOffNode

/-! ## the entries -/

variable {J roster P RJ now} {s t : CutOffNode} {eid : EndpointId}

namespace CutOffNode

/-- What a step writes of the entries. -/
inductive Wrote (RJ : RevokedJson) (s : CutOffNode) : CutOffEvent → CutOffNode → Prop where
  | nothing {event : CutOffEvent} {t : CutOffNode} (hsame : t.db.revoked = s.db.revoked) :
      Wrote RJ s event t
  | localNote {i : Nat} {clock at_ : UInt64} {userId reason : Option String} {eid : EndpointId}
      {todo ids : List EndpointId} {existing : Option RevokedEntry} {kept : EndpointId → Bool}
      {t : CutOffNode}
      (hcall : s.calls i = .revoking userId reason at_ (eid :: todo) ids (some existing) kept)
      (hfree : existing.any (·.source = "signed") = false)
      (hdb : t.db = s.db.revoke RJ (localEntry eid at_ reason)) : Wrote RJ s (.act i clock) t
  | own {i : Nat} {clock : UInt64} {token : RevocationToken} {t : CutOffNode}
      (hcall : s.calls i = .started (.deviceRevoke token))
      (hdb : t.db = s.db.revoke RJ (signedEntry token token.issuedAt)) :
      Wrote RJ s (.act i clock) t
  | imported {i : Nat} {clock : UInt64} {token : RevocationToken} {prior : Option RevokedEntry}
      {t : CutOffNode} (hcall : s.calls i = .importWriting token prior)
      (hdb : t.db = s.db.revoke RJ (signedEntry token clock)) : Wrote RJ s (.act i clock) t
  | lifted {eid : EndpointId} {t : CutOffNode} (hdb : t.db = s.db.unrevoke eid) :
      Wrote RJ s (.unrevoke eid) t

/-- A call writes one entry, or none. -/
theorem wrote_act (i : Nat) (clock : UInt64) :
    Wrote RJ s (.act i clock) (s.act J roster RJ i clock (s.calls i)) := by
  cases hcall : s.calls i with
  | started verb =>
      cases verb with
      | removePeer nickname =>
          simp only [CutOffNode.act]
          split <;> exact .nothing rfl
      | peerRevoke peer reason =>
          simp only [CutOffNode.act]
          split
          · exact .nothing rfl
          · split <;> exact .nothing rfl
      | deviceRevoke token => exact .own hcall rfl
      | deviceRevocationImport token => exact .nothing rfl
  | revoking userId reason at_ todo ids read kept =>
      cases todo with
      | nil => exact .nothing rfl
      | cons eid todo =>
          cases read with
          | none => exact .nothing rfl
          | some existing =>
              simp only [CutOffNode.act]
              split
              · exact .nothing rfl
              · next hfree => exact .localNote hcall (by simpa using hfree) rfl
  | importing token theirs =>
      simp only [CutOffNode.act]
      split
      · exact .nothing rfl
      · split <;> exact .nothing rfl
  | importWriting token prior => exact .imported hcall rfl
  | _ => exact .nothing rfl

/-- A step writes one entry, or none. -/
theorem wrote_move (event : CutOffEvent) :
    Wrote RJ s event (cutOffMove J roster P RJ now s event) := by
  cases event with
  | act i clock => exact wrote_act i clock
  | unrevoke eid => exact .lifted rfl
  | call i verb =>
      simp only [cutOffMove]
      split
      · split <;> exact .nothing rfl
      · exact .nothing rfl
      · exact .nothing rfl
  | accept k eid =>
      simp only [cutOffMove]
      split <;> exact .nothing rfl
  | gate k =>
      simp only [cutOffMove, gateInbound]
      split
      · split <;> exact .nothing rfl
      · exact .nothing rfl
  | capture k =>
      simp only [cutOffMove, captureInbound]
      split <;> exact .nothing rfl
  | register k =>
      simp only [cutOffMove, registerInbound]
      split
      · split <;> exact .nothing rfl
      · exact .nothing rfl
  | session event =>
      simp only [cutOffMove]
      split <;> exact .nothing rfl
  | _ => exact .nothing rfl

/-! ### what a write leaves -/

/-- The entries are what is on record. -/
theorem entry_of_revoked (h : t.db.revoked = s.db.revoked) (eid : EndpointId) :
    t.entry RJ eid = s.entry RJ eid := by
  simp [entry, PairDb.revokedEntry, h]

/-- A write is of one entry. -/
theorem entry_of_revoke {written : RevokedEntry} (hdb : t.db = s.db.revoke RJ written)
    (eid : EndpointId) :
    t.entry RJ eid = if eid = written.endpointId then some written else s.entry RJ eid := by
  rw [entry, hdb]
  split
  · next heid => rw [heid, revokedEntry_revoke_self]
  · next heid => rw [revokedEntry_revoke_of_ne heid, entry]

theorem Signed.congr {issuedAt : Nat} (h : s.Signed RJ eid issuedAt)
    (hentry : t.entry RJ eid = s.entry RJ eid) : t.Signed RJ eid issuedAt := by
  simpa [Signed, issued, hentry] using h

/-- A token that is written is a signed entry. -/
theorem signed_of_revoke {token : RevocationToken} {clock : UInt64}
    (hdb : t.db = s.db.revoke RJ (signedEntry token clock)) :
    t.Signed RJ token.endpoint token.issuedAt.toNat := by
  have hentry := entry_of_revoke hdb token.endpoint
  simp only [signedEntry, if_pos] at hentry
  simp [Signed, issued, hentry]

/-- A signed write that finds no later entry moves each entry forward. -/
theorem Signed.of_revoke {token : RevocationToken} {clock : UInt64} {issuedAt : Nat}
    (h : s.Signed RJ eid issuedAt) (hdb : t.db = s.db.revoke RJ (signedEntry token clock))
    (horder : (s.issued RJ token.endpoint).all (· ≤ token.issuedAt.toNat) = true) :
    ∃ later, issuedAt ≤ later ∧ t.Signed RJ eid later := by
  by_cases heid : eid = token.endpoint
  · subst heid
    rw [h.2] at horder
    exact ⟨_, by simpa using horder, signed_of_revoke hdb⟩
  · refine ⟨issuedAt, le_rfl, h.congr ?_⟩
    rw [entry_of_revoke hdb eid, if_neg (by simpa [signedEntry] using heid)]

/-! ### the invariants -/

/-- An entry with a date is a signed one. -/
def Dated (RJ : RevokedJson) (s : CutOffNode) : Prop :=
  ∀ eid entry, s.entry RJ eid = some entry → entry.issuedAt.isSome = true →
    entry.source = "signed"

/-- After a step every entry with a date is a signed one still. -/
theorem Dated.wrote (h : s.Dated RJ) {event : CutOffEvent} (hwrote : Wrote RJ s event t) :
    t.Dated RJ := by
  intro eid entry hentry hdate
  cases hwrote with
  | nothing hsame => exact h eid entry (entry_of_revoked hsame eid ▸ hentry) hdate
  | lifted hdb =>
      rw [CutOffNode.entry, hdb] at hentry
      exact h eid entry (revokedEntry_unrevoke hentry) hdate
  | localNote hcall hfree hdb =>
      rw [entry_of_revoke hdb] at hentry
      split at hentry
      · simp [← Option.some.inj hentry, localEntry] at hdate
      · exact h eid entry hentry hdate
  | own hcall hdb | imported hcall hdb =>
      rw [entry_of_revoke hdb] at hentry
      split at hentry
      · simp [← Option.some.inj hentry, signedEntry]
      · exact h eid entry hentry hdate

/-- What an import has checked. -/
def Sound (J : PeerJson) (P : Primitives) (s : CutOffNode) : RevokePhase → Prop
  | .started (.removePeer _) | .unpairSevering _ _ _ | .unpairClosing _ _ _ _ | .removing _ => False
  | .started (.deviceRevocationImport token) => token.verified P = true
  | .importing token theirs =>
      token.verified P = true ∧
        (theirs = true → rowCarries J s.db token.endpoint token.userId = true)
  | .importWriting token _ =>
      token.verified P = true ∧ rowCarries J s.db token.endpoint token.userId = true
  | _ => True

/-- What a call has verified stays so while the rows do. -/
theorem Sound.congr {phase : RevokePhase} (h : s.Sound J P phase)
    (hpeers : t.db.peers = s.db.peers) : t.Sound J P phase := by
  cases phase with
  | started verb => cases verb <;> exact h
  | importing token theirs => simpa [Sound, rowCarries, PairDb.list, hpeers] using h
  | importWriting token prior => simpa [Sound, rowCarries, PairDb.list, hpeers] using h
  | _ => exact h

/-- A revoked device drops out of what a call goes on with, no more. -/
theorem Sound.restrict {phase : RevokePhase} (h : s.Sound J P phase)
    (refused : EndpointId → Bool) : s.Sound J P (phase.restrict refused) := by
  cases phase with
  | started verb => cases verb <;> exact h
  | _ => exact h

variable (roster RJ) in
/-- What the next step of a call leaves of the rows, and where the call is then. -/
theorem sound_act (i : Nat) (clock : UInt64) {phase : RevokePhase} (h : s.Sound J P phase) :
    (s.act J roster RJ i clock phase).db.peers = s.db.peers ∧
      ((s.act J roster RJ i clock phase).calls = s.calls ∨ ∃ phase',
        (s.act J roster RJ i clock phase).calls = Function.update s.calls i phase' ∧
          s.Sound J P phase') := by
  cases phase with
  | idle => exact ⟨rfl, .inl rfl⟩
  | started verb =>
      cases verb with
      | removePeer nickname => exact h.elim
      | peerRevoke peer reason =>
          simp only [CutOffNode.act]
          split
          · exact ⟨rfl, .inr ⟨.idle, rfl, trivial⟩⟩
          · split
            · exact ⟨rfl, .inr ⟨_, rfl, trivial⟩⟩
            · exact ⟨rfl, .inr ⟨_, rfl, trivial⟩⟩
      | deviceRevoke token => exact ⟨rfl, .inr ⟨_, rfl, trivial⟩⟩
      | deviceRevocationImport token => exact ⟨rfl, .inr ⟨_, rfl, h, id⟩⟩
  | revokingUser userId reason at_ ids => exact ⟨rfl, .inr ⟨_, rfl, trivial⟩⟩
  | revoking userId reason at_ todo ids read kept =>
      cases todo with
      | nil => exact ⟨rfl, .inr ⟨_, rfl, trivial⟩⟩
      | cons eid todo =>
          cases read with
          | none => exact ⟨rfl, .inr ⟨_, rfl, trivial⟩⟩
          | some existing =>
              simp only [CutOffNode.act]
              split
              · exact ⟨rfl, .inr ⟨_, rfl, trivial⟩⟩
              · exact ⟨rfl, .inr ⟨_, rfl, trivial⟩⟩
  | importing token theirs =>
      simp only [CutOffNode.act]
      split
      · exact ⟨rfl, .inr ⟨.idle, rfl, trivial⟩⟩
      · next htheirs =>
        split
        · exact ⟨rfl, .inr ⟨.idle, rfl, trivial⟩⟩
        · exact ⟨rfl, .inr ⟨_, rfl, h.1, h.2 (by simpa using htheirs)⟩⟩
  | importWriting token prior => exact ⟨rfl, .inr ⟨_, rfl, trivial⟩⟩
  | severing principals kept => exact ⟨rfl, .inr ⟨_, rfl, trivial⟩⟩
  | closing principals targets kept => exact ⟨rfl, .inr ⟨.idle, rfl, trivial⟩⟩
  | _ => exact h.elim

/-- What the calls have verified, when one of them goes on. -/
theorem sound_update {i : Nat} (h : ∀ i, s.Sound J P (s.calls i)) (phase : RevokePhase)
    (hphase : s.Sound J P phase) (j : Nat) : s.Sound J P (Function.update s.calls i phase j) := by
  by_cases hj : j = i
  · subst hj
    simpa using hphase
  · simpa [hj] using h j

variable (roster RJ now) in
/-- A step of the three verbs keeps the rows, and what the imports have checked. -/
theorem sound_move (h : ∀ i, s.Sound J P (s.calls i)) {event : CutOffEvent}
    (hrevokes : event.revokes = true) :
    (cutOffMove J roster P RJ now s event).db.peers = s.db.peers ∧
      ∀ i, s.Sound J P ((cutOffMove J roster P RJ now s event).calls i) := by
  cases event with
  | act i clock =>
      obtain ⟨hpeers, hcalls | ⟨phase, hcalls, hphase⟩⟩ := sound_act roster RJ i clock (h i)
      · exact ⟨hpeers, fun j => by simpa [cutOffMove, hcalls] using h j⟩
      · exact ⟨hpeers, fun j => by simpa [cutOffMove, hcalls] using sound_update h phase hphase j⟩
  | call i verb =>
      cases hcall : s.calls i with
      | idle =>
          cases verb with
          | removePeer nickname => simp [CutOffEvent.revokes] at hrevokes
          | deviceRevocationImport token =>
              simp only [cutOffMove, hcall]
              split
              · next hverified => exact ⟨rfl, sound_update h (.started _) hverified⟩
              · exact ⟨rfl, h⟩
          | _ =>
              simp only [cutOffMove, hcall]
              exact ⟨rfl, sound_update h (.started _) trivial⟩
      | _ => simpa [cutOffMove, hcall] using h
  | fail i => exact ⟨rfl, sound_update h .idle trivial⟩
  | accept k eid =>
      simp only [cutOffMove]
      split <;> exact ⟨rfl, h⟩
  | gate k =>
      simp only [cutOffMove, gateInbound]
      split
      · split <;> exact ⟨rfl, h⟩
      · exact ⟨rfl, h⟩
  | capture k =>
      simp only [cutOffMove, captureInbound]
      split <;> exact ⟨rfl, h⟩
  | register k =>
      simp only [cutOffMove, registerInbound]
      split
      · split <;> exact ⟨rfl, h⟩
      · exact ⟨rfl, h⟩
  | session event =>
      simp only [cutOffMove]
      split <;> exact ⟨rfl, h⟩
  | _ => simp [CutOffEvent.revokes] at hrevokes

/-! ### what a call has checked -/

/-- What a call that is to write has found, and still finds. -/
def Checked (RJ : RevokedJson) (s : CutOffNode) : RevokePhase → Prop
  | .revoking _ _ _ (eid :: _) _ (some existing) _ =>
      existing.any (·.source = "signed") = false →
        (s.entry RJ eid).any (·.source = "signed") = false
  | .started (.deviceRevoke token) | .importWriting token _ =>
      (s.issued RJ token.endpoint).all (· ≤ token.issuedAt.toNat) = true
  | _ => True

theorem Checked.restrict {phase : RevokePhase} (h : s.Checked RJ phase)
    (refused : EndpointId → Bool) : s.Checked RJ (phase.restrict refused) := by
  cases phase with
  | revoking userId reason at_ todo ids read kept =>
      cases todo with
      | nil => trivial
      | cons eid todo => cases read <;> exact h
  | _ => exact h

/-- What a call has checked stays so while the entries do. -/
theorem Checked.congr {phase : RevokePhase} (h : s.Checked RJ phase)
    (hentry : ∀ eid, t.entry RJ eid = s.entry RJ eid) : t.Checked RJ phase := by
  cases phase with
  | revoking userId reason at_ todo ids read kept =>
      cases todo with
      | nil => trivial
      | cons eid todo =>
          cases read with
          | none => trivial
          | some existing => simpa only [Checked, hentry] using h
  | started verb =>
      cases verb with
      | deviceRevoke token => simpa only [Checked, issued, hentry] using h
      | _ => trivial
  | importWriting token prior => simpa only [Checked, issued, hentry] using h
  | _ => trivial

/-- A note of our own is neither signed nor dated. -/
theorem Checked.of_local {phase : RevokePhase} {noted : EndpointId} {clock : UInt64}
    {reason : Option String} (h : s.Checked RJ phase)
    (hdb : t.db = s.db.revoke RJ (localEntry noted clock reason)) : t.Checked RJ phase := by
  have hentry (eid : EndpointId) : t.entry RJ eid = s.entry RJ eid ∨
      t.entry RJ eid = some (localEntry noted clock reason) := by
    rw [entry_of_revoke hdb]
    split
    · exact .inr rfl
    · exact .inl rfl
  have hissued (token : RevocationToken)
      (hall : (s.issued RJ token.endpoint).all (· ≤ token.issuedAt.toNat) = true) :
      (t.issued RJ token.endpoint).all (· ≤ token.issuedAt.toNat) = true := by
    obtain hsame | hlocal := hentry token.endpoint
    · simpa only [issued, hsame] using hall
    · rw [issued, hlocal]
      rfl
  cases phase with
  | revoking userId reason' at_ todo ids read kept =>
      cases todo with
      | nil => trivial
      | cons eid todo =>
          cases read with
          | none => trivial
          | some existing =>
              intro hfree
              obtain hsame | hlocal := hentry eid
              · rw [hsame]
                exact h hfree
              · rw [hlocal]
                rfl
  | started verb =>
      cases verb with
      | deviceRevoke token => exact hissued token h
      | _ => trivial
  | importWriting token prior => exact hissued token h
  | _ => trivial

/-- A token is put in place that the call's write does not displace. -/
theorem Checked.of_signed {phase : RevokePhase} {token : RevocationToken} {clock : UInt64}
    (h : s.Checked RJ phase) (hdb : t.db = s.db.revoke RJ (signedEntry token clock))
    (houtlasted : phase.outlasted token = true) : t.Checked RJ phase := by
  have hother (eid : EndpointId) (hne : eid ≠ token.endpoint) :
      t.entry RJ eid = s.entry RJ eid := by
    rw [entry_of_revoke hdb]
    exact if_neg hne
  have hissued (own : RevocationToken)
      (hown : (decide (own.endpoint ≠ token.endpoint) || decide (token.issuedAt ≤ own.issuedAt)) =
        true)
      (hall : (s.issued RJ own.endpoint).all (· ≤ own.issuedAt.toNat) = true) :
      (t.issued RJ own.endpoint).all (· ≤ own.issuedAt.toNat) = true := by
    by_cases heid : own.endpoint = token.endpoint
    · have hle : token.issuedAt ≤ own.issuedAt := by simpa [heid] using hown
      rw [heid, (signed_of_revoke hdb).2]
      simpa using UInt64.le_iff_toNat_le.mp hle
    · simpa only [issued, hother own.endpoint heid] using hall
  cases phase with
  | revoking userId reason at_ todo ids read kept =>
      cases todo with
      | nil => trivial
      | cons eid todo =>
          cases read with
          | none => trivial
          | some existing =>
              intro hfree
              have hne : eid ≠ token.endpoint := by
                simpa only [RevokePhase.outlasted, hfree, Bool.false_or, decide_eq_true_eq] using
                  houtlasted
              rw [hother eid hne]
              exact h hfree
  | started verb =>
      cases verb with
      | deviceRevoke own => exact hissued own houtlasted h
      | _ => trivial
  | importWriting own prior => exact hissued own houtlasted h
  | _ => trivial

/-- A step of another call leaves what this one has checked. -/
theorem Checked.wrote {phase : RevokePhase} {event : CutOffEvent} (h : s.Checked RJ phase)
    (hwrote : Wrote RJ s event t) (hrevokes : event.revokes = true)
    (houtlasted : ∀ token, s.puts event = some token → phase.outlasted token = true) :
    t.Checked RJ phase := by
  cases hwrote with
  | nothing hsame => exact h.congr (entry_of_revoked hsame)
  | localNote hcall hfree hdb => exact h.of_local hdb
  | own hcall hdb | imported hcall hdb =>
      exact h.of_signed hdb (houtlasted _ (by simp [puts, hcall]))
  | lifted hdb => simp [CutOffEvent.revokes] at hrevokes

/-- A call that has not checked yet owes nothing. -/
theorem checked_unread {userId reason : Option String} {at_ : UInt64} {todo ids : List EndpointId}
    {kept : EndpointId → Bool} :
    s.Checked RJ (.revoking userId reason at_ todo ids none kept) := by
  cases todo <;> trivial

variable (J roster RJ) in
/-- What a call has checked once it has stepped itself. -/
theorem checked_act (i : Nat) (clock : UInt64) (phase : RevokePhase)
    (hphase : s.calls i = phase) :
    (s.act J roster RJ i clock phase).Checked RJ ((s.act J roster RJ i clock phase).calls i) := by
  have hset (t : CutOffNode) (phase' : RevokePhase) (h : t.Checked RJ phase') :
      (t.setCall i phase').Checked RJ ((t.setCall i phase').calls i) := by
    have hcall : (t.setCall i phase').calls i = phase' := Function.update_self ..
    rw [hcall]
    exact h.congr fun _ => rfl
  cases phase with
  | idle =>
      rw [act, hphase]
      trivial
  | started verb =>
      cases verb with
      | removePeer nickname =>
          simp only [act]
          split <;> exact hset _ _ trivial
      | peerRevoke peer reason =>
          simp only [act]
          split
          · exact hset _ _ trivial
          · split
            · exact hset _ _ trivial
            · exact hset _ _ checked_unread
      | deviceRevoke token => exact hset _ _ trivial
      | deviceRevocationImport token => exact hset _ _ trivial
  | revoking userId reason at_ todo ids read kept =>
      cases todo with
      | nil => exact hset _ _ trivial
      | cons eid todo =>
          cases read with
          | none => exact hset s _ id
          | some existing =>
              simp only [act]
              split <;> exact hset _ _ checked_unread
  | importing token theirs =>
      simp only [act]
      split
      · exact hset _ _ trivial
      · split
        · exact hset _ _ trivial
        · next hnewer =>
          refine hset s _ ?_
          simp only [Checked, issued, entry]
          cases hdate : (s.db.revokedEntry RJ token.endpoint).bind (·.issuedAt) with
          | none => rfl
          | some date =>
              rw [hdate] at hnewer
              have hlt : ¬ token.issuedAt ≤ date := by simpa using hnewer
              have hle := UInt64.le_of_lt (UInt64.not_le.mp hlt)
              simpa using UInt64.le_iff_toNat_le.mp hle
  | revokingUser userId reason at_ ids => exact hset _ _ checked_unread
  | _ => exact hset _ _ trivial

/-- What the calls have checked is true after a step in order. -/
theorem checked_move (h : ∀ i, s.Checked RJ (s.calls i)) {event : CutOffEvent}
    (hrevokes : event.revokes = true) (horder : s.InOrder RJ event) (i : Nat) :
    (cutOffMove J roster P RJ now s event).Checked RJ
      ((cutOffMove J roster P RJ now s event).calls i) := by
  by_cases hof : event.callOf = some i
  · cases event with
    | act j clock =>
        obtain rfl : j = i := Option.some.inj hof
        exact checked_act J roster RJ j clock (s.calls j) rfl
    | fail j =>
        obtain rfl : j = i := Option.some.inj hof
        have hcall : (s.setCall j .idle).calls j = .idle := Function.update_self ..
        simp only [cutOffMove, hcall]
        trivial
    | call j verb =>
        obtain rfl : j = i := Option.some.inj hof
        have hset (t : CutOffNode) (verb : RevokeVerb) (ht : t.Checked RJ (.started verb)) :
            (t.setCall j (.started verb)).Checked RJ ((t.setCall j (.started verb)).calls j) := by
          have hcall : (t.setCall j (.started verb)).calls j = .started verb :=
            Function.update_self ..
          rw [hcall]
          exact ht.congr fun _ => rfl
        cases hcall : s.calls j with
        | idle =>
            cases verb with
            | deviceRevoke token =>
                simp only [cutOffMove, hcall]
                exact hset s _ (horder hcall)
            | deviceRevocationImport token =>
                simp only [cutOffMove, hcall]
                split
                · exact hset s _ trivial
                · exact h j
            | _ =>
                simp only [cutOffMove, hcall]
                exact hset s _ trivial
        | _ => simpa only [cutOffMove, hcall] using h j
    | _ => contradiction
  · rw [move_calls_of_ne hof]
    refine (h i).wrote (wrote_move event) hrevokes fun token hputs => ?_
    cases event with
    | act j clock => exact horder token hputs i fun heq => hof (by rw [heq]; rfl)
    | _ => contradiction

/-! ### the steps -/

variable (J roster P RJ now s) in
/-- A step writes what its move does. -/
theorem wrote_step (event : CutOffEvent) :
    Wrote RJ s event (cutOffStep J roster P RJ now s event).1 := by
  have hwrote : Wrote RJ s event (cutOffMove J roster P RJ now s event) := wrote_move event
  cases hwrote with
  | nothing hsame => exact .nothing hsame
  | localNote hcall hfree hdb => exact .localNote hcall hfree hdb
  | own hcall hdb => exact .own hcall hdb
  | imported hcall hdb => exact .imported hcall hdb
  | lifted hdb => exact .lifted hdb

/-- What the calls have verified is true after each step. -/
theorem sound_step (h : ∀ i, s.Sound J P (s.calls i)) {event : CutOffEvent}
    (hrevokes : event.revokes = true) (i : Nat) :
    (cutOffStep J roster P RJ now s event).1.Sound J P
      ((cutOffStep J roster P RJ now s event).1.calls i) := by
  obtain ⟨hpeers, hcalls⟩ := sound_move roster RJ now h hrevokes
  exact ((hcalls i).congr hpeers).restrict _

/-- What the calls have checked is true after each step in order. -/
theorem checked_step (h : ∀ i, s.Checked RJ (s.calls i)) {event : CutOffEvent}
    (hrevokes : event.revokes = true) (horder : s.InOrder RJ event) (i : Nat) :
    (cutOffStep J roster P RJ now s event).1.Checked RJ
      ((cutOffStep J roster P RJ now s event).1.calls i) :=
  ((checked_move h hrevokes horder i).congr fun _ => rfl).restrict _

/-- A local write that finds no signed entry keeps the others. -/
theorem Signed.of_local {clock : UInt64} {reason : Option String} {noted : EndpointId}
    {issuedAt : Nat} (h : s.Signed RJ eid issuedAt)
    (hdb : t.db = s.db.revoke RJ (localEntry noted clock reason))
    (hfree : (s.entry RJ noted).any (·.source = "signed") = false) : t.Signed RJ eid issuedAt := by
  have hne : eid ≠ noted := by
    rintro rfl
    simp [h.1] at hfree
  refine h.congr ?_
  rw [entry_of_revoke hdb eid, if_neg (by simpa [localEntry] using hne)]

/-- **Step lemma**: a step of the three verbs keeps the law, while what each call
has checked is still so. -/
theorem revocationKept_step (hsound : ∀ i, s.Sound J P (s.calls i))
    (hchecked : ∀ i, s.Checked RJ (s.calls i)) {event : CutOffEvent}
    (hrevokes : event.revokes = true) :
    RevocationKept J P RJ s (cutOffStep J roster P RJ now s event).1 event := by
  have hwrote := wrote_step J roster P RJ now s event
  generalize (cutOffStep J roster P RJ now s event).1 = t at hwrote ⊢
  cases hwrote with
  | nothing hsame =>
      exact {
        forward := fun eid issuedAt h => ⟨issuedAt, le_rfl, h.congr (entry_of_revoked hsame eid)⟩
        imported := fun _ _ _ _ _ eid hchanged =>
          absurd (entry_of_revoked hsame eid) hchanged }
  | @localNote i clock at_ userId reason eid todo ids existing kept t hcall hfree hdb =>
      have hnote := hchecked i
      rw [hcall] at hnote
      exact {
        forward := fun eid issuedAt h => ⟨issuedAt, le_rfl, h.of_local hdb (hnote hfree)⟩
        imported := fun i clock token hevent himports => by
          obtain ⟨rfl, rfl⟩ := CutOffEvent.act.inj hevent
          simp [hcall, RevokePhase.Imports] at himports }
  | @own i clock token t hcall hdb =>
      have horder := hchecked i
      rw [hcall] at horder
      exact {
        forward := fun eid issuedAt h => h.of_revoke hdb horder
        imported := fun i clock token hevent himports => by
          obtain ⟨rfl, rfl⟩ := CutOffEvent.act.inj hevent
          simp [hcall, RevokePhase.Imports] at himports }
  | @imported i clock token prior t hcall hdb =>
      have horder := hchecked i
      rw [hcall] at horder
      have hverified := hsound i
      simp only [Sound, hcall] at hverified
      exact {
        forward := fun eid issuedAt h => h.of_revoke hdb horder
        imported := fun i' clock' token' hevent himports eid hchanged => by
          obtain ⟨rfl, rfl⟩ := CutOffEvent.act.inj hevent
          simp only [hcall, RevokePhase.Imports] at himports
          subst himports
          rw [entry_of_revoke hdb, ne_eq, ite_eq_right_iff, not_forall] at hchanged
          obtain ⟨heid, -⟩ := hchanged
          obtain rfl : eid = token.endpoint := heid
          exact ⟨rfl, hverified⟩ }
  | lifted hdb => simp [CutOffEvent.revokes] at hrevokes

/-! ### the greatest of all -/

/-- An entry with a date is a signed one. -/
theorem Dated.signed (h : s.Dated RJ) {issuedAt : Nat} (hissued : s.issued RJ eid = some issuedAt) :
    s.Signed RJ eid issuedAt := by
  obtain ⟨date, hdate, -⟩ := Option.map_eq_some_iff.mp hissued
  obtain ⟨entry, hentry, hdate⟩ := Option.bind_eq_some_iff.mp hdate
  exact ⟨by simp [hentry, h eid entry hentry (by simp [hdate])], hissued⟩

/-- A date that a step leaves was there, or is put in place. -/
theorem issued_from {event : CutOffEvent} {issuedAt : Nat} (hrevokes : event.revokes = true)
    (h : (cutOffStep J roster P RJ now s event).1.issued RJ eid = some issuedAt) :
    s.issued RJ eid = some issuedAt ∨ s.placed RJ eid event = some issuedAt := by
  have hwrote := wrote_step J roster P RJ now s event
  generalize (cutOffStep J roster P RJ now s event).1 = t at hwrote h
  have hsame (hentry : t.entry RJ eid = s.entry RJ eid) : s.issued RJ eid = some issuedAt := by
    simpa [issued, hentry] using h
  cases hwrote with
  | nothing hunchanged => exact .inl (hsame (entry_of_revoked hunchanged eid))
  | localNote hcall hfree hdb =>
      have hentry := entry_of_revoke hdb eid
      split at hentry
      · simp [issued, hentry, localEntry] at h
      · exact .inl (hsame hentry)
  | own hcall hdb | imported hcall hdb =>
      have hentry := entry_of_revoke hdb eid
      split at hentry
      · next heid =>
        obtain rfl := heid
        have hissued := (signed_of_revoke hdb).2
        exact .inr (by simpa [placed, hcall, signedEntry] using hissued.symm.trans h)
      · exact .inl (hsame hentry)
  | lifted hdb => simp [CutOffEvent.revokes] at hrevokes

/-- What is put in place, or was there, is there, or something later. -/
theorem issued_kept (hdated : s.Dated RJ) {event : CutOffEvent}
    (hkept : RevocationKept J P RJ s (cutOffStep J roster P RJ now s event).1 event)
    {issuedAt : Nat}
    (h : s.issued RJ eid = some issuedAt ∨ s.placed RJ eid event = some issuedAt) :
    ∃ later, issuedAt ≤ later ∧
      (cutOffStep J roster P RJ now s event).1.issued RJ eid = some later := by
  have hforward {issuedAt : Nat} (hissued : s.issued RJ eid = some issuedAt) :
      ∃ later, issuedAt ≤ later ∧
        (cutOffStep J roster P RJ now s event).1.issued RJ eid = some later := by
    obtain ⟨later, hlater, hsigned⟩ := hkept.forward eid issuedAt (hdated.signed hissued)
    exact ⟨later, hlater, hsigned.2⟩
  obtain hissued | hplaced := h
  · exact hforward hissued
  · cases event with
    | act i clock =>
        simp only [placed] at hplaced
        split at hplaced
        · next token hcall =>
          simp only [Option.ite_none_right_eq_some, Option.some.injEq] at hplaced
          obtain ⟨rfl, rfl⟩ := hplaced
          have hdb : (cutOffStep J roster P RJ now s (.act i clock)).1.db =
              s.db.revoke RJ (signedEntry token token.issuedAt) := by
            simp [cutOffStep, cutOffMove, hcall, CutOffNode.act, settle, setCall, putSigned]
          exact ⟨_, le_rfl, (signed_of_revoke hdb).2⟩
        · next token prior hcall =>
          simp only [Option.ite_none_right_eq_some, Option.some.injEq] at hplaced
          obtain ⟨rfl, rfl⟩ := hplaced
          have hdb : (cutOffStep J roster P RJ now s (.act i clock)).1.db =
              s.db.revoke RJ (signedEntry token clock) := by
            simp [cutOffStep, cutOffMove, hcall, CutOffNode.act, settle, setCall, putSigned]
          exact ⟨_, le_rfl, (signed_of_revoke hdb).2⟩
        · next token hcall =>
          simp only [Option.ite_none_right_eq_some, Option.some.injEq] at hplaced
          obtain ⟨⟨rfl, hsuperseded⟩, rfl⟩ := hplaced
          obtain ⟨date, hdate, hle⟩ := (Option.any_eq_true ..).mp hsuperseded
          have hissued : s.issued RJ token.endpoint = some date.toNat := by simp [issued, hdate]
          obtain ⟨later, hlater, hafter⟩ := hforward hissued
          have hle : token.issuedAt ≤ date := by simpa using hle
          exact ⟨later, (UInt64.le_iff_toNat_le.mp hle).trans hlater, hafter⟩
        · contradiction
    | _ => simp [placed] at hplaced

/-- There is no entry at the start. -/
theorem dated_start (services : Admit.Services) :
    (start [] [] services).Dated RJ := by
  intro eid entry hentry
  simp [CutOffNode.entry, start, PairDb.revokedEntry, rowOf] at hentry

end CutOffNode

/-- **Signed revocations only move forward**, in a run of the three verbs whose
steps all meet the condition, after any run that has left no call in flight; and
an entry ends with the latest of the statements that were put in place. -/
theorem revocations_move_forward (services : Admit.Services) (before : List CutOffEvent)
    (hs : final (cutOffStep J roster P RJ now) (.start [] [] services) before = s)
    (hidle : ∀ i, s.calls i = .idle) (during : List CutOffEvent)
    (hrevokes : ∀ event ∈ during, event.revokes = true)
    (horder : ∀ t ∈ trace (cutOffStep J roster P RJ now) s during, t.pre.InOrder RJ t.call) :
    (∀ t ∈ trace (cutOffStep J roster P RJ now) s during,
      RevocationKept J P RJ t.pre t.post t.call) ∧
    ∀ eid issuedAt,
      (final (cutOffStep J roster P RJ now) s during).issued RJ eid = some issuedAt ↔
        IsGreatest {a | s.issued RJ eid = some a ∨
          ∃ t ∈ trace (cutOffStep J roster P RJ now) s during,
            t.pre.placed RJ eid t.call = some a} issuedAt := by
  have hdated : s.Dated RJ :=
    hs ▸ final_invariant
      (fun s event _ h => h.wrote (CutOffNode.wrote_step J roster P RJ now s event))
      (CutOffNode.dated_start services)
  have hpre : ∀ t ∈ trace (cutOffStep J roster P RJ now) s during,
      t.pre.Dated RJ ∧ ∀ i, t.pre.Sound J P (t.pre.calls i) := by
    intro t ht
    refine (trace_invariant (I := fun s : CutOffNode => s.Dated RJ ∧ ∀ i, s.Sound J P (s.calls i))
      (fun s event hevent h => ?_) ⟨hdated, fun i => ?_⟩ ht).1
    · exact ⟨h.1.wrote (CutOffNode.wrote_step J roster P RJ now s event),
        CutOffNode.sound_step h.2 (hrevokes event hevent)⟩
    · simp [hidle, CutOffNode.Sound]
  have hchecked : ∀ t ∈ trace (cutOffStep J roster P RJ now) s during,
      ∀ i, t.pre.Checked RJ (t.pre.calls i) := by
    intro t ht
    refine trace_guarded_pre (I := fun s : CutOffNode => ∀ i, s.Checked RJ (s.calls i))
      (Q := fun t => t.call.revokes = true ∧ t.pre.InOrder RJ t.call)
      (fun s event hevent h => CutOffNode.checked_step h hevent.1 hevent.2) (fun i => ?_)
      (fun t ht => ⟨hrevokes t.call (step_of_mem_trace ht).2, horder t ht⟩) ht
    rw [hidle]
    trivial
  have hkept : ∀ t ∈ trace (cutOffStep J roster P RJ now) s during,
      RevocationKept J P RJ t.pre t.post t.call := by
    intro t ht
    rw [eq_callAt_of_mem_trace ht]
    exact CutOffNode.revocationKept_step (hpre t ht).2 (hchecked t ht)
      (hrevokes t.call (step_of_mem_trace ht).2)
  refine ⟨hkept, fun eid => trace_greatest (CutOffNode.issued RJ · eid)
    (fun t => CutOffNode.placed RJ t.pre eid t.call) (fun t ht a h => ?_) fun t ht a h => ?_⟩
  · rw [eq_callAt_of_mem_trace ht] at h
    exact CutOffNode.issued_from (hrevokes t.call (step_of_mem_trace ht).2) h
  · have hkept := hkept t ht
    rw [eq_callAt_of_mem_trace ht] at hkept ⊢
    exact CutOffNode.issued_kept (hpre t ht).1 hkept h

end RevokedForward

/-! ### a device that is reported stolen -/

namespace StolenLaptop

open Succession (P K aliceKey)

def laptop : EndpointId := .replicate 32 7

/-- Alice's own word that it is lost. -/
def token (issuedAt : UInt64) : RevocationToken := signRevocation P K aliceKey laptop issuedAt none

/-- A pairing-mode node. -/
def roster : RosterGate := ⟨none, 0, none, 0⟩

def step : CutOffNode → CutOffEvent → CutOffNode × Unit :=
  cutOffStep Instance.peerJson roster P Instance.revokedJson 0

/-- The laptop is paired, with her identity. -/
def paired : CutOffNode :=
  final step (.start [] [] ∅)
    [.add ⟨laptop, "alice", [], none, some (userIdOf P K aliceKey), none⟩]

/-- `n` steps of the call. -/
def acts (i n : Nat) : List CutOffEvent := List.replicate n (.act i 30)

/-- An older word is put in place between the check and the write of an import;
a revocation of our own comes last. -/
def interleaved : List CutOffEvent :=
  .call 0 (.deviceRevocationImport (token 20)) :: acts 0 2 ++
    .call 1 (.deviceRevocationImport (token 10)) :: acts 1 3 ++ acts 0 1 ++
    .call 2 (.peerRevoke (principal laptop) none) :: acts 2 3

/-- The condition, in a run of the calls 0 to 2. -/
def checked (s : CutOffNode) : CutOffEvent → Bool
  | .call _ (.deviceRevoke _) => false
  | .act i clock =>
      (s.puts (.act i clock)).all fun token =>
        [0, 1, 2].all fun j => j = i || (s.calls j).outlasted token
  | _ => true

theorem inOrder_of_checked {s : CutOffNode} {event : CutOffEvent}
    (hcalls : ∀ i, 3 ≤ i → s.calls i = .idle) (h : checked s event = true) :
    s.InOrder Instance.revokedJson event := by
  cases event with
  | act i clock =>
      intro token hputs j hj
      simp only [checked, hputs, Option.all_some, List.all_eq_true, Bool.or_eq_true,
        decide_eq_true_eq] at h
      by_cases hlt : j < 3
      · have hmem : j ∈ [0, 1, 2] := by
          simp only [List.mem_cons, List.not_mem_nil, or_false]
          omega
        exact (h j hmem).resolve_left hj
      · rw [hcalls j (not_lt.mp hlt)]
        rfl
  | call i verb =>
      cases verb with
      | deviceRevoke token => contradiction
      | _ => trivial
  | _ => trivial

/-- The laptop is imported while we revoke it, after our check. -/
def checkedBefore : List CutOffEvent :=
  .call 0 (.peerRevoke (principal laptop) none) :: acts 0 2 ++
    .call 1 (.deviceRevocationImport (token 20)) :: acts 1 3

/-- Our own write. -/
def noted : Called CutOffNode CutOffEvent Unit :=
  callAt step (final step paired checkedBefore) (.act 0 30)

end StolenLaptop

open StolenLaptop in
theorem revocations_move_forward_example :
    (final step paired interleaved).issued Instance.revokedJson laptop = some 20 ∧
      IsGreatest {a | paired.issued Instance.revokedJson laptop = some a ∨
        ∃ t ∈ trace step paired interleaved,
          t.pre.placed Instance.revokedJson laptop t.call = some a} 20 := by
  obtain ⟨hchecked, hissued⟩ :
      (∀ t ∈ trace step paired interleaved, checked t.pre t.call = true) ∧
        (final step paired interleaved).issued Instance.revokedJson laptop = some 20 := by
    decide +kernel
  have hother : ∀ event ∈ interleaved, event.callOf.all (· < 3) := by decide
  have horder : ∀ t ∈ trace step paired interleaved,
      t.pre.InOrder Instance.revokedJson t.call := fun t ht =>
    inOrder_of_checked (fun i hi => CutOffNode.idle_of_trace rfl (fun event he hof => by
      have hlt := hother event he
      rw [hof, Option.all_some, decide_eq_true_eq] at hlt
      omega) t ht) (hchecked t ht)
  have hforward := revocations_move_forward ∅ _ (rfl : _ = paired) (fun i => rfl) interleaved
    (by decide) horder
  exact ⟨hissued, (hforward.2 laptop 20).mp hissued⟩

open StolenLaptop in
/-- Her word is taken for one of ours. -/
theorem local_note_hides_signed_revocation :
    noted ∈ trace step paired (checkedBefore ++ [.act 0 30]) ∧
      noted.pre.Signed Instance.revokedJson laptop 20 ∧
      (noted.post.entry Instance.revokedJson laptop).any (·.source = "local") = true ∧
      ¬ RevocationKept Instance.peerJson Succession.P Instance.revokedJson noted.pre noted.post
        noted.call := by
  have hends : ((noted.pre.entry Instance.revokedJson laptop).any (·.source = "signed") = true ∧
      noted.pre.issued Instance.revokedJson laptop = some 20) ∧
      (noted.post.entry Instance.revokedJson laptop).any (·.source = "local") = true ∧
      noted.post.issued Instance.revokedJson laptop = none := by decide +kernel
  obtain ⟨hpre, hlocal, hundated⟩ := hends
  refine ⟨last_mem_trace _ _ _, hpre, hlocal, fun hkept => ?_⟩
  obtain ⟨later, -, -, hlater⟩ := hkept.forward laptop 20 hpre
  exact Option.some_ne_none later (hlater.symm.trans hundated)

end Mcpmesh
