import Mcpmesh.Daemon.Revocation

/-!
# Mcpmesh.Daemon.CutOff

What holds of the inbound connections of a device that was cut off.

A revocation writes first and severs then: whatever registers after the write is
refused by the recheck, whatever was registered before it is in the sever set, as
long as the store or the roster still knows the device.  An unpair deletes the
rows after its sever pass, and the recheck refuses nobody for want of a row; so a
connection that comes in between stays.  `Covered` says so of the schedule: nobody
comes in between the sever pass of an unpair and its deletion, and an import does
not return on the entry of another call before a sever pass went over it.
-/

namespace Mcpmesh

open Lib

section CutOff

variable (J : PeerJson) (roster : RosterGate) (P : Primitives) (RJ : RevokedJson) (now : Int)

/-! ## the law -/

/-- The verb names the endpoint of the connection, or the principal that a
session on it was admitted as. -/
def RevokePhase.Names (t : Admit.TrackedConn) : RevokePhase → Prop
  | .closing principals targets _ =>
      t.endpoint ∈ targets ∨ ∃ p ∈ t.admitted.keys, p ∈ principals
  | .unpairClosing _ principals rows _ =>
      t.endpoint ∈ rows ∨ ∃ p ∈ t.admitted.keys, p ∈ principals
  | _ => False

/-- What a step leaves. -/
structure CutOffKept (s s' : CutOffNode) (event : CutOffEvent) : Prop where
  /-- no connection of a device that was cut off is open -/
  cut : ∀ eid, s'.cut eid = true → ∀ c, ¬ s'.Live c eid
  /-- a connection is closed by its own side, or by a verb that names it -/
  spared : ∀ c t, s.serve.tracked c = some t → s.serve.closed c = false →
    s'.serve.closed c = true → event = .session (.close c) ∨
      ∃ i clock, event = .act i clock ∧ (s.calls i).Names t

/-! ## the condition -/

/-- The call has read the rows of the name, and not deleted them yet. -/
def RevokePhase.Unpairs (name : String) : RevokePhase → Prop
  | .unpairSevering nickname _ _ | .unpairClosing nickname _ _ _ | .removing nickname =>
      nickname = name
  | _ => False

/-- The handler is past the gate, and may still register. -/
def InboundPhase.Past (eid : EndpointId) : InboundPhase → Prop
  | .resolved e | .captured e _ => e = eid
  | _ => False

namespace CutOffNode

/-- The endpoint has a row of the name. -/
def Named (s : CutOffNode) (eid : EndpointId) (nickname : String) : Prop :=
  ∃ e ∈ s.db.list J, e.endpointId = eid ∧ e.nickname = nickname

/-- The condition on a step.  Between the sever pass of an unpair and the deletion
of its rows no device of the name registers; a handler that is past the gate by
then is of a device that the gate still resolves without the row; and no other
device is given the name while the call runs.  Nothing outside its rows carries
an identity that it withdraws.  An import that finds its token superseded finds
that a sever pass went over the endpoint since. -/
def Covered (s : CutOffNode) : CutOffEvent → Prop
  | .act i _ =>
      match s.calls i with
      | .removing nickname =>
          ∀ k eid, (s.inbound k).Past eid → s.Named J eid nickname →
            ({ s with db := (s.db.remove J nickname).1 } : CutOffNode).refuses J roster now eid =
              false
      | .unpairSevering _ principals rows =>
          ∀ eid ∈ principals.flatMap (endpointsForPrincipal J roster s.db), eid ∈ rows
      | .importing token theirs =>
          theirs = true →
            ((s.db.revokedEntry RJ token.endpoint).bind (·.issuedAt)).any (token.issuedAt ≤ ·) →
              s.unswept token.endpoint = false
      | _ => True
  | .register k =>
      match s.inbound k with
      | .captured eid rosterUser =>
          (s.gateOf J roster).shouldSeverNow eid rosterUser = false →
            ∀ i nickname, s.calls i = .removing nickname → ¬ s.Named J eid nickname
      | _ => True
  | .add entry =>
      ∀ i, (s.calls i).Unpairs entry.nickname → s.Named J entry.endpointId entry.nickname
  | _ => True

/-! ## the invariant -/

/-- The store or the roster has the device. -/
def Known (s : CutOffNode) (eid : EndpointId) : Prop :=
  (s.db.resolve J eid).isSome ∨ (roster.resolve now eid).isSome

/-- What a call's phase says of what it has targeted. -/
def PhaseInv (s : CutOffNode) : RevokePhase → Prop
  | .revoking _ _ _ todo ids _ kept => todo ⊆ ids ∧ ∀ e, kept e = true → e ∈ ids
  | .severing principals kept => ∀ e, kept e = true → principal e ∈ principals
  | .closing _ targets kept =>
      ∀ e, kept e = true → s.refuses J roster now e = true → e ∈ targets ∨ ∀ c, ¬ s.Live c e
  | .unpairSevering nickname principals _ =>
      ∀ e, s.Named J e nickname → principal e ∈ principals
  | .unpairClosing nickname _ rows targets =>
      targets ⊆ rows ∧ ∀ e, s.Named J e nickname → e ∈ targets
  | .removing nickname => ∀ e, s.Named J e nickname → ∀ c, ¬ s.Live c e
  | _ => True

/-- The endpoint has an entry with a date, which only a token puts in place. -/
def DatedEntry (s : CutOffNode) (eid : EndpointId) : Prop :=
  ((s.db.revokedEntry RJ eid).bind (·.issuedAt)).isSome = true

/-- No connection of the endpoint is open, or past the gate. -/
def Alone (s : CutOffNode) (eid : EndpointId) : Prop :=
  (∀ c, ¬ s.Live c eid) ∧ ∀ k, ¬ (s.inbound k).Past eid

structure Inv (s : CutOffNode) : Prop where
  keyed : s.db.WellKeyed J
  /-- a handler past the gate, and an open connection, are of a known device -/
  pending : ∀ k eid, (s.inbound k).Past eid → s.Known J roster now eid
  captured : ∀ k eid rosterUser, s.inbound k = .captured eid rosterUser →
    rosterUser = roster.rosterUser now eid
  live : ∀ c eid, s.Live c eid → s.Known J roster now eid
  cut : ∀ eid, s.cut eid = true → s.refuses J roster now eid = true ∧ ∀ c, ¬ s.Live c eid
  swept : ∀ eid, s.DatedEntry RJ eid → s.unswept eid = false → ∀ c, ¬ s.Live c eid
  calls : ∀ i, s.PhaseInv J roster now (s.calls i) ∧
    ∀ e, (s.calls i).kept e = true → s.refuses J roster now e = true

end CutOffNode

/-! ## the gate and the sever set -/

variable {J roster P RJ now} {s t : CutOffNode} {eid : EndpointId}

/-- What resolves has a row. -/
theorem pairRow_of_resolve {e : PeerEntry} (h : s.db.resolve J eid = some e) :
    (s.db.store J).PairRow eid e := by
  obtain ⟨raw, hrow, hread⟩ := Option.bind_eq_some_iff.mp h
  exact ⟨raw, congrArg Except.ok hrow, toOption_eq_some.mp hread⟩

/-- What has a row resolves. -/
theorem resolve_of_pairRow {e : PeerEntry} (h : (s.db.store J).PairRow eid e) :
    s.db.resolve J eid = some e := by
  obtain ⟨raw, hrow, hread⟩ := h
  have hrow : rowOf eid s.db.peers = some raw := Except.ok.inj hrow
  have hread : J.fromSlice raw = .ok e := hread
  simp [PairDb.resolve, hrow, hread, Except.toOption]

namespace CutOffNode

/-- What is not refused is known. -/
theorem known_of_resolves (h : s.refuses J roster now eid = false) :
    s.Known J roster now eid := by
  obtain ⟨id, hid⟩ := Option.isSome_iff_exists.mp (Option.isNone_eq_false_iff.mp h)
  obtain ⟨-, -, ⟨hroster, -⟩ | ⟨-, e, hadmitted, -⟩⟩ := ComposedGate.resolve_eq_some.mp hid
  · have hroster : roster.resolve now eid = some id := hroster
    exact .inr (by simp [hroster])
  · have hrow := resolve_of_pairRow (pairRow_of_admitted hadmitted)
    exact .inl (by simp [hrow])

/-- The recheck refuses a known device that the gate refuses. -/
theorem shouldSeverNow_of_refuses (hknown : s.Known J roster now eid)
    (h : s.refuses J roster now eid = true) :
    (s.gateOf J roster).shouldSeverNow eid (roster.rosterUser now eid) = true := by
  by_contra hnot
  simp only [ComposedGate.shouldSeverNow, Bool.or_eq_true, Bool.and_eq_true, not_or,
    Bool.not_eq_true] at hnot
  obtain ⟨⟨⟨hpairs, hroster⟩, hidentity⟩, -⟩ := hnot
  have hresolves : ∃ id, (s.gateOf J roster).resolve now eid = some id := by
    cases hres : roster.resolve now eid with
    | some id =>
        refine ⟨id, ComposedGate.resolve_eq_some.mpr ⟨hroster, hpairs, .inl ⟨hres, ?_⟩⟩⟩
        rwa [RosterGate.rosterUser_of_resolve hres] at hidentity
    | none =>
        obtain ⟨e, hrow⟩ := Option.isSome_iff_exists.mp
          (hknown.resolve_right (by simp [hres]))
        have hadmitted := admitted_of_pairRow (pairRow_of_resolve hrow) hpairs
        exact ⟨_, ComposedGate.resolve_eq_some.mpr
          ⟨hroster, hpairs, .inr ⟨hres, e, hadmitted, rfl⟩⟩⟩
  obtain ⟨id, hid⟩ := hresolves
  simp [refuses, hid] at h

/-- A device with an entry is refused. -/
theorem refuses_of_datedEntry (h : s.DatedEntry RJ eid) : s.refuses J roster now eid = true := by
  by_contra hresolves
  obtain ⟨id, hid⟩ := Option.isSome_iff_exists.mp
    (Option.isNone_eq_false_iff.mp (Bool.eq_false_iff.mpr hresolves))
  obtain ⟨-, hpairs, -⟩ := ComposedGate.resolve_eq_some.mp hid
  obtain ⟨date, hdate⟩ := Option.isSome_iff_exists.mp h
  obtain ⟨entry, hentry, -⟩ := Option.bind_eq_some_iff.mp hdate
  obtain ⟨raw, hrow, -⟩ := Option.map_eq_some_iff.mp hentry
  have hrefused : (s.gateOf J roster).pairs.isRefused eid = true :=
    isRefused_iff.mpr (.inl (by simp [gateOf, PairDb.store, hrow]))
  exact Bool.false_ne_true (hpairs.symm.trans hrefused)

/-- A sever pass for a principal of its own finds a device with a row. -/
theorem mem_endpoints_of_named {nickname : String} (h : s.Named J eid nickname) :
    eid ∈ endpointsForPrincipal J roster s.db (principal eid) := by
  obtain ⟨e, he, rfl, -⟩ := h
  exact List.mem_append_left _
    (List.mem_map.mpr ⟨e, List.mem_filter.mpr ⟨he, by simp⟩, rfl⟩)

/-- A sever pass for its own principal finds a known device. -/
theorem mem_endpoints_of_known (hkeyed : s.db.WellKeyed J) (hknown : s.Known J roster now eid) :
    eid ∈ endpointsForPrincipal J roster s.db (principal eid) := by
  rw [endpointsForPrincipal, List.mem_append]
  obtain hrow | hroster := hknown
  · obtain ⟨e, he⟩ := Option.isSome_iff_exists.mp hrow
    have heid := hkeyed.endpointId_of_resolve he
    exact .inl (List.mem_map.mpr
      ⟨e, by simp [PairDb.mem_list_of_resolve he, heid], heid⟩)
  · obtain ⟨id, hid⟩ := Option.isSome_iff_exists.mp hroster
    obtain ⟨view, d, hview, -, -, hd, -⟩ := RosterGate.resolve_eq_some.mp hid
    have hmem : (⟨eid, d⟩ : Sigma fun _ : EndpointId => ResolvedDevice) ∈
        view.devices.map.entries := AList.mem_lookup_iff.mp hd
    rw [hview]
    exact .inr (List.mem_map.mpr ⟨_, List.mem_filter.mpr ⟨hmem, by simp⟩, rfl⟩)

/-! ## the steps keep it -/

/-- A narrowed call keeps what is refused of what it kept. -/
theorem restrict_kept (refused : EndpointId → Bool) (phase : RevokePhase) (e : EndpointId) :
    (phase.restrict refused).kept e = (phase.kept e && refused e) := by
  cases phase <;> simp [RevokePhase.restrict, RevokePhase.kept]

/-- A phase whose targets are restricted says no more. -/
theorem PhaseInv.restrict {phase : RevokePhase} (h : s.PhaseInv J roster now phase) :
    (s.settle J roster now).PhaseInv J roster now
      (phase.restrict (s.refuses J roster now)) := by
  cases phase with
  | revoking userId reason clock todo ids read kept =>
      exact ⟨h.1, fun e he => h.2 e (Bool.and_elim_left he)⟩
  | severing principals kept => exact fun e he => h e (Bool.and_elim_left he)
  | closing principals targets kept => exact fun e he => h e (Bool.and_elim_left he)
  | unpairClosing nickname principals rows targets => exact h
  | _ => trivial

/-- What a move leaves, before the ghosts are settled: a device that is not known
any more had no connection; a name that a call unpairs is given to no other device;
and a connection that is new is of a device that the gate resolves, and whose rows
no call is about to delete. -/
structure Moved (J : PeerJson) (roster : RosterGate) (RJ : RevokedJson) (now : Int)
    (s t : CutOffNode) : Prop where
  keyed : t.db.WellKeyed J
  known : ∀ eid, s.Known J roster now eid → t.Known J roster now eid ∨ s.Alone eid
  past : ∀ k eid, (t.inbound k).Past eid → (s.inbound k).Past eid ∨ t.Known J roster now eid
  captured : ∀ k eid rosterUser, t.inbound k = .captured eid rosterUser →
    s.inbound k = .captured eid rosterUser ∨ rosterUser = roster.rosterUser now eid
  live : ∀ c eid, t.Live c eid →
    s.Live c eid ∨ s.refuses J roster now eid = false ∧ t.Known J roster now eid ∧
      ∀ i nickname, s.calls i = .removing nickname → ¬ s.Named J eid nickname
  named : ∀ eid nickname, t.Named J eid nickname →
    s.Named J eid nickname ∨ ∀ i, ¬ (s.calls i).Unpairs nickname
  swept : ∀ eid, t.DatedEntry RJ eid → t.unswept eid = false →
    s.DatedEntry RJ eid ∧ s.unswept eid = false ∨ ∀ c, ¬ t.Live c eid
  cut : ∀ eid, t.cut eid = true → t.refuses J roster now eid = true →
    s.cut eid = true ∨ ∀ c, ¬ t.Live c eid
  calls : ∀ i, t.calls i = s.calls i ∨ t.PhaseInv J roster now (t.calls i)

/-- What is refused and has no connection gets none by a move. -/
theorem Moved.not_live (h : Moved J roster RJ now s t)
    (hrefused : s.refuses J roster now eid = true)
    (hnone : ∀ c, ¬ s.Live c eid) (c : Nat) : ¬ t.Live c eid := by
  intro hlive
  obtain hlive | ⟨hresolves, -⟩ := h.live c eid hlive
  · exact hnone c hlive
  · simp [hrefused] at hresolves

/-- A name that a call unpairs is one that the device had. -/
theorem Moved.named_of_unpairs (h : Moved J roster RJ now s t) {i : Nat} {nickname : String}
    (hcall : (s.calls i).Unpairs nickname) (hnamed : t.Named J eid nickname) :
    s.Named J eid nickname :=
  (h.named eid nickname hnamed).resolve_right fun hnone => hnone i hcall

/-- A move keeps the invariant of a call. -/
theorem Moved.phaseInv (h : Moved J roster RJ now s t) (i : Nat)
    (hphase : s.PhaseInv J roster now (s.calls i))
    (hkept : ∀ e, (s.calls i).kept e = true → s.refuses J roster now e = true) :
    t.PhaseInv J roster now (s.calls i) := by
  have hnamed {nickname : String} {eid : EndpointId} (hcall : (s.calls i).Unpairs nickname)
      (hnamed : t.Named J eid nickname) : s.Named J eid nickname :=
    h.named_of_unpairs hcall hnamed
  cases hcall : s.calls i with
  | closing principals targets kept =>
      rw [hcall] at hphase hkept
      intro e he _
      have hrefused := hkept e he
      exact (hphase e he hrefused).imp_right fun hnone c => h.not_live hrefused hnone c
  | unpairSevering nickname principals rows =>
      rw [hcall] at hphase hnamed
      exact fun e he => hphase e (hnamed rfl he)
  | unpairClosing nickname principals rows targets =>
      rw [hcall] at hphase hnamed
      exact ⟨hphase.1, fun e he => hphase.2 e (hnamed rfl he)⟩
  | removing nickname =>
      rw [hcall] at hphase hnamed
      intro e he c hlive
      have hbefore := hnamed rfl he
      obtain hlive | ⟨-, -, hnot⟩ := h.live c e hlive
      · exact hphase e hbefore c hlive
      · exact hnot i nickname hcall hbefore
  | _ =>
      rw [hcall] at hphase
      exact hphase

/-- Settling the returns after a move keeps the invariant. -/
theorem Inv.settle (h : s.Inv J roster RJ now) (hmoved : Moved J roster RJ now s t) :
    (t.settle J roster now).Inv J roster RJ now where
  keyed := hmoved.keyed
  pending k eid hpast := by
    obtain hpast | hknown := hmoved.past k eid hpast
    · exact (hmoved.known eid (h.pending k eid hpast)).resolve_right fun halone =>
        halone.2 k hpast
    · exact hknown
  captured k eid rosterUser hcaptured :=
    (hmoved.captured k eid rosterUser hcaptured).elim (h.captured k eid rosterUser) id
  live c eid hlive := by
    obtain hlive | ⟨-, hknown, -⟩ := hmoved.live c eid hlive
    · exact (hmoved.known eid (h.live c eid hlive)).resolve_right fun halone => halone.1 c hlive
    · exact hknown
  cut eid hin := by
    obtain ⟨hin, hrefused⟩ := Bool.and_eq_true_iff.mp hin
    refine ⟨hrefused, fun c => ?_⟩
    obtain hcut | hnone := hmoved.cut eid hin hrefused
    · exact hmoved.not_live (h.cut eid hcut).1 (h.cut eid hcut).2 c
    · exact hnone c
  swept eid hdated hswept := by
    obtain ⟨hdated, hswept⟩ | hnone := hmoved.swept eid hdated hswept
    · exact hmoved.not_live (refuses_of_datedEntry hdated) (h.swept eid hdated hswept)
    · exact hnone
  calls i := by
    have hphase : t.PhaseInv J roster now (t.calls i) := by
      obtain hsame | hphase := hmoved.calls i
      · exact hsame ▸ hmoved.phaseInv i (h.calls i).1 (h.calls i).2
      · exact hphase
    refine ⟨hphase.restrict, fun e he => ?_⟩
    have he : ((t.calls i).restrict (t.refuses J roster now)).kept e = true := he
    rw [restrict_kept] at he
    exact Bool.and_elim_right he

/-! ### a move that leaves the peers and the connections alone -/

/-- Knowing a device depends on the rows only. -/
theorem Known.of_peers (h : s.Known J roster now eid) (hpeers : t.db.peers = s.db.peers) :
    t.Known J roster now eid := by
  simpa [Known, PairDb.resolve, hpeers] using h

/-- The name of a device depends on the rows only. -/
theorem Named.of_peers {nickname : String} (h : t.Named J eid nickname)
    (hpeers : t.db.peers = s.db.peers) : s.Named J eid nickname := by
  simpa [Named, PairDb.list, hpeers] using h

/-- The store changes, the peers do not, and no entry gets a date. -/
theorem Inv.moved_db (h : s.Inv J roster RJ now) (db : PairDb) (hpeers : db.peers = s.db.peers)
    (hdated : ∀ eid, ({ s with db } : CutOffNode).DatedEntry RJ eid → s.DatedEntry RJ eid) :
    Moved J roster RJ now s { s with db } where
  keyed := by simpa [PairDb.WellKeyed, hpeers] using h.keyed
  known eid hknown := .inl (hknown.of_peers hpeers)
  past _ _ := .inl
  captured _ _ _ := .inl
  live _ _ := .inl
  named _ _ hnamed := .inl (hnamed.of_peers hpeers)
  swept eid hin hswept := .inl ⟨hdated eid hin, hswept⟩
  cut _ hin _ := .inl hin
  calls _ := .inl rfl

theorem Inv.moved_refl (h : s.Inv J roster RJ now) : Moved J roster RJ now s s :=
  h.moved_db s.db rfl fun _ => id

/-- A note of our own has no date. -/
theorem Inv.moved_local (h : s.Inv J roster RJ now) (eid : EndpointId) (clock : UInt64)
    (reason : Option String) :
    Moved J roster RJ now s { s with db := s.db.revoke RJ (localEntry eid clock reason) } := by
  refine h.moved_db _ rfl fun e he => ?_
  by_cases heid : e = eid
  · subst heid
    have hentry : (s.db.revoke RJ (localEntry e clock reason)).revokedEntry RJ e =
        some (localEntry e clock reason) := revokedEntry_revoke_self _
    rw [DatedEntry, hentry] at he
    contradiction
  · have hentry : (s.db.revoke RJ (localEntry eid clock reason)).revokedEntry RJ e =
        s.db.revokedEntry RJ e := revokedEntry_revoke_of_ne heid
    simpa [DatedEntry, hentry] using he

/-- A token is put in place, and its endpoint waits for a sever pass. -/
theorem Inv.moved_signed (h : s.Inv J roster RJ now) (token : RevocationToken) (clock : UInt64) :
    Moved J roster RJ now s (s.putSigned RJ token clock) where
  keyed := h.keyed
  known _ := .inl
  past _ _ := .inl
  captured _ _ _ := .inl
  live _ _ := .inl
  named _ _ := .inl
  swept eid hin hswept := by
    obtain ⟨hne, hswept⟩ := Bool.or_eq_false_iff.mp hswept
    have hentry : (s.db.revoke RJ (signedEntry token clock)).revokedEntry RJ eid =
        s.db.revokedEntry RJ eid := revokedEntry_revoke_of_ne (of_decide_eq_false hne)
    exact .inl ⟨by simpa [DatedEntry, putSigned, hentry] using hin, hswept⟩
  cut _ hin _ := .inl hin
  calls _ := .inl rfl

/-- An unrevoke is a move. -/
theorem Inv.moved_unrevoke (h : s.Inv J roster RJ now) (eid : EndpointId) :
    Moved J roster RJ now s { s with db := s.db.unrevoke eid } := by
  refine h.moved_db _ rfl fun e he => ?_
  obtain ⟨date, hdate⟩ := Option.isSome_iff_exists.mp he
  obtain ⟨entry, hentry, hdate⟩ := Option.bind_eq_some_iff.mp hdate
  simp [DatedEntry, revokedEntry_unrevoke hentry, hdate]

/-- What a phase says is of the store and the connections. -/
theorem PhaseInv.congr {phase : RevokePhase} (h : s.PhaseInv J roster now phase)
    (hdb : t.db = s.db) (hserve : t.serve = s.serve) : t.PhaseInv J roster now phase := by
  cases phase with
  | closing principals targets kept =>
      simpa [PhaseInv, refuses, gateOf, Live, hdb, hserve] using h
  | unpairSevering nickname principals rows => simpa [PhaseInv, Named, hdb] using h
  | unpairClosing nickname principals rows targets => simpa [PhaseInv, Named, hdb] using h
  | removing nickname => simpa [PhaseInv, Named, Live, hdb, hserve] using h
  | _ => exact h

/-- A call goes on to `phase`. -/
theorem Moved.setCall {i : Nat} {phase : RevokePhase} (h : Moved J roster RJ now s t)
    (hphase : t.PhaseInv J roster now phase) : Moved J roster RJ now s (t.setCall i phase) where
  keyed := h.keyed
  known := h.known
  past := h.past
  captured := h.captured
  live := h.live
  named := h.named
  swept := h.swept
  cut := h.cut
  calls j := by
    by_cases hj : j = i
    · subst hj
      have hcall : (t.setCall j phase).calls j = phase := by simp [CutOffNode.setCall]
      rw [hcall]
      exact .inr (hphase.congr rfl rfl)
    · have hcall : (t.setCall i phase).calls j = t.calls j := by simp [CutOffNode.setCall, hj]
      rw [hcall]
      exact (h.calls j).imp_right fun hother => hother.congr rfl rfl

/-- A call that is over has cut its targets off. -/
theorem Moved.returned {i : Nat} {targeted : EndpointId → Bool} (h : Moved J roster RJ now s t)
    (hnone : ∀ eid, targeted eid = true → t.refuses J roster now eid = true → ∀ c, ¬ t.Live c eid) :
    Moved J roster RJ now s (t.returned i targeted) where
  keyed := h.keyed
  known := h.known
  past := h.past
  captured := h.captured
  live := h.live
  named := h.named
  swept := h.swept
  cut eid hin hrefused := by
    obtain hcut | htargeted := Bool.or_eq_true_iff.mp hin
    · exact h.cut eid hcut hrefused
    · exact .inr (hnone eid htargeted hrefused)
  calls j := by
    have hidle : Moved J roster RJ now s (t.setCall i .idle) := h.setCall trivial
    exact (hidle.calls j).imp_right fun hphase => hphase.congr rfl rfl

/-! ### sessions -/

/-- A session's step tracks no connection anew. -/
theorem tracked_of_step {serve serve' : Admit.ServeState} {event : Admit.Event}
    (hnot : isTracking event = false) (h : serve.step event = some serve') {c : Nat}
    {t' : Admit.TrackedConn} (ht' : serve'.tracked c = some t') :
    ∃ t, serve.tracked c = some t ∧ t.endpoint = t'.endpoint := by
  cases Admit.ServeState.stepped_of_step h with
  | accept | sever => simp [isTracking] at hnot
  | deregister hclosed =>
      simp only [Function.update_apply] at ht'
      split at ht'
      · contradiction
      · exact ⟨t', ht', rfl⟩
  | admitted hi ht hstill | finished hi ht =>
      simp only [Admit.ServeState.setSession, Admit.ServeState.tracked_setTracked] at ht'
      split at ht'
      · next hc =>
        subst hc
        exact ⟨_, ht, by simp [← Option.some.inj ht']⟩
      · exact ⟨t', ht', rfl⟩
  | _ => exact ⟨t', ht', rfl⟩

/-- A session's step closes a connection only where its own side does. -/
theorem closed_of_session {serve serve' : Admit.ServeState} {event : Admit.Event}
    (hnot : isTracking event = false) (h : serve.step event = some serve') {c : Nat}
    (hclosed : serve'.closed c = true) : serve.closed c = true ∨ event = .close c := by
  cases Admit.ServeState.stepped_of_step h with
  | accept | sever => simp [isTracking] at hnot
  | close =>
      simp only [Function.update_apply] at hclosed
      split at hclosed
      · next hc => exact .inr (by simp [hc])
      · exact .inl hclosed
  | _ => exact .inl hclosed

/-- A step that tracks no connection makes none live. -/
theorem Live.of_step {serve' : Admit.ServeState} {event : Admit.Event} {c : Nat}
    (hnot : isTracking event = false) (h : s.serve.step event = some serve')
    (hlive : ({ s with serve := serve' } : CutOffNode).Live c eid) : s.Live c eid := by
  obtain ⟨t', ht', heid, hopen⟩ := hlive
  obtain ⟨t, ht, hsame⟩ := tracked_of_step hnot h ht'
  refine ⟨t, ht, hsame.trans heid, ?_⟩
  rw [← Bool.not_eq_true] at hopen ⊢
  exact fun hclosed => hopen (Admit.ServeState.closed_of_step h hclosed)

/-- Connections are lost. -/
theorem Inv.moved_serve (h : s.Inv J roster RJ now) (serve : Admit.ServeState)
    (hlive : ∀ c eid, ({ s with serve } : CutOffNode).Live c eid → s.Live c eid) :
    Moved J roster RJ now s { s with serve } where
  keyed := h.keyed
  known _ := .inl
  past _ _ := .inl
  captured _ _ _ := .inl
  live c eid hopen := .inl (hlive c eid hopen)
  named _ _ := .inl
  swept _ hin hswept := .inl ⟨hin, hswept⟩
  cut _ hin _ := .inl hin
  calls _ := .inl rfl

/-! ### inbound connections -/

/-- A known device stays known when a row is added. -/
theorem Known.of_add (entry : PeerEntry) (h : s.Known J roster now eid) :
    ({ s with db := s.db.add J entry } : CutOffNode).Known J roster now eid := by
  refine h.imp_left fun hrow => ?_
  by_cases heq : eid = entry.endpointId
  · simp [heq, PairDb.resolve_add_self]
  · simpa [PairDb.resolve_add_of_ne heq] using hrow

/-- A covered add is a move. -/
theorem Inv.moved_add (h : s.Inv J roster RJ now) (entry : PeerEntry)
    (hcovered : s.Covered J roster RJ now (.add entry)) :
    Moved J roster RJ now s { s with db := s.db.add J entry } where
  keyed := h.keyed.add entry
  known _ hknown := .inl (hknown.of_add entry)
  past _ _ := .inl
  captured _ _ _ := .inl
  live _ _ := .inl
  named eid nickname hnamed := by
    obtain ⟨e, he, rfl, rfl⟩ := hnamed
    obtain rfl | he := PairDb.mem_of_mem_list_add he
    · by_cases hcall : ∃ i, (s.calls i).Unpairs e.nickname
      · obtain ⟨i, hcall⟩ := hcall
        exact .inl (hcovered i hcall)
      · exact .inr (not_exists.mp hcall)
    · exact .inl ⟨e, he, rfl, rfl⟩
  swept _ hin hswept := .inl ⟨hin, hswept⟩
  cut _ hin _ := .inl hin
  calls _ := .inl rfl

/-- A handler goes on, with no connection of its own yet. -/
theorem Inv.moved_inbound {k : Nat} {phase : InboundPhase} (h : s.Inv J roster RJ now)
    (hpast : ∀ eid, phase.Past eid → s.Known J roster now eid)
    (hcaptured : ∀ eid rosterUser, phase = .captured eid rosterUser →
      rosterUser = roster.rosterUser now eid) :
    Moved J roster RJ now s (s.setInbound k phase) where
  keyed := h.keyed
  known _ := .inl
  past j eid hj := by
    by_cases heq : j = k
    · subst heq
      exact .inr (hpast eid (by simpa [setInbound] using hj))
    · exact .inl (by simpa [setInbound, heq] using hj)
  captured j eid rosterUser hj := by
    by_cases heq : j = k
    · subst heq
      exact .inr (hcaptured eid rosterUser (by simpa [setInbound] using hj))
    · exact .inl (by simpa [setInbound, heq] using hj)
  live _ _ := .inl
  named _ _ := .inl
  swept _ hin hswept := .inl ⟨hin, hswept⟩
  cut _ hin _ := .inl hin
  calls _ := .inl rfl

/-- An inbound connection that ends is a move. -/
theorem Inv.moved_done {k : Nat} (h : s.Inv J roster RJ now) :
    Moved J roster RJ now s (s.setInbound k .done) :=
  h.moved_inbound (fun _ hpast => hpast.elim) (by simp)

/-- The gate's answer to a connection is a move. -/
theorem Inv.gateInbound (h : s.Inv J roster RJ now) (k : Nat) :
    Moved J roster RJ now s (s.gateInbound J roster now k) := by
  unfold CutOffNode.gateInbound
  split
  · next eid hinbound =>
    split
    · exact h.moved_done
    · next hresolves =>
      refine h.moved_inbound (fun eid' hpast => ?_) (by simp)
      obtain rfl : eid = eid' := hpast
      exact known_of_resolves (by simpa using hresolves)
  · exact h.moved_refl

/-- The capture of a connection is a move. -/
theorem Inv.captureInbound (h : s.Inv J roster RJ now) (k : Nat) :
    Moved J roster RJ now s (s.captureInbound J roster now k) := by
  unfold CutOffNode.captureInbound
  split
  · next eid hinbound =>
    refine h.moved_inbound (fun eid' hpast => ?_) fun eid' rosterUser heq => ?_
    · obtain rfl : eid = eid' := hpast
      exact h.pending k eid (by simp [hinbound, InboundPhase.Past])
    · obtain ⟨rfl, rfl⟩ := InboundPhase.captured.inj heq
      rfl
  · exact h.moved_refl

/-- What registers resolves. -/
theorem Inv.registerInbound (h : s.Inv J roster RJ now) (k : Nat)
    (hcovered : s.Covered J roster RJ now (.register k)) :
    Moved J roster RJ now s (s.registerInbound J roster k) := by
  unfold CutOffNode.registerInbound
  split
  · next eid rosterUser hinbound =>
    split
    · exact h.moved_done
    · next hstays =>
      have hknown : s.Known J roster now eid :=
        h.pending k eid (by simp [hinbound, InboundPhase.Past])
      have hresolves : s.refuses J roster now eid = false := by
        rw [← Bool.not_eq_true]
        intro hrefused
        rw [h.captured k eid rosterUser hinbound] at hstays
        exact hstays (shouldSeverNow_of_refuses hknown hrefused)
      simp only [Covered, hinbound] at hcovered
      have hunnamed := hcovered (Bool.not_eq_true _ ▸ hstays)
      have hdone := h.moved_done (k := k)
      exact { hdone with
        live := fun c eid' hlive => by
          obtain ⟨t, ht, heid, hopen⟩ := hlive
          simp only [setInbound, Admit.ServeState.step, Option.getD_some,
            Admit.ServeState.tracked_setTracked] at ht hopen
          split at ht
          · obtain rfl := Option.some.inj ht
            obtain rfl : eid = eid' := heid
            exact .inr ⟨hresolves, hknown, hunnamed⟩
          · exact .inl ⟨t, ht, heid, hopen⟩
        swept := fun _ hin hswept => .inl ⟨hin, hswept⟩
        cut := fun _ hin _ => .inl hin
        calls := fun _ => .inl rfl }
  · exact h.moved_refl

/-! ### the verbs -/

/-- A removal by nickname leaves the other rows. -/
theorem resolve_remove {db : PairDb} {nickname : String} {e : PeerEntry}
    (h : db.resolve J eid = some e) (hname : e.nickname ≠ nickname) :
    (db.remove J nickname).1.resolve J eid = some e := by
  obtain ⟨raw, hrow, hread⟩ := Option.bind_eq_some_iff.mp h
  have hkept : named J nickname (eid, raw) = false := by simp [named, hread, hname]
  have hrow' : rowOf eid (db.remove J nickname).1.peers = some raw :=
    rowOf_filter hrow (by simp [hkept])
  simp [PairDb.resolve, hrow', hread]

/-- What is live after a sever was live before it, and is no target. -/
theorem Live.of_sever {principals : List String} {targets : List EndpointId} {c : Nat}
    (h : (s.sever principals targets).Live c eid) : s.Live c eid ∧ eid ∉ targets := by
  obtain ⟨t, ht, rfl, hopen⟩ := h
  have ht : s.serve.tracked c = some t := ht
  simp only [sever, Admit.ServeState.severs, ht, Option.any_some, Bool.or_eq_false_iff,
    decide_eq_false_iff_not] at hopen
  exact ⟨⟨t, ht, rfl, hopen.1⟩, hopen.2.1⟩

/-- A sever pass went over its targets. -/
theorem Inv.moved_sever (h : s.Inv J roster RJ now) (principals : List String)
    (targets : List EndpointId) : Moved J roster RJ now s (s.sever principals targets) := by
  have hserve := h.moved_serve (s.sever principals targets).serve fun c eid hlive =>
    hlive.of_sever.1
  exact { hserve with
    swept := fun eid hin hswept => by
      obtain hswept | htarget := Bool.and_eq_false_iff.mp hswept
      · exact .inl ⟨hin, hswept⟩
      · refine .inr fun c hlive => ?_
        exact hlive.of_sever.2 (of_not_not (of_decide_eq_false htarget))
    calls := fun _ => .inl rfl }

/-- The sever set of a device's principal has it, while the device is known. -/
theorem Inv.severing (h : s.Inv J roster RJ now) {i : Nat} {principals : List String}
    {kept : EndpointId → Bool} (hcall : s.calls i = .severing principals kept) :
    s.PhaseInv J roster now (.closing principals
      (principals.flatMap (endpointsForPrincipal J roster s.db)) fun e =>
        kept e || e ∈ principals.flatMap (endpointsForPrincipal J roster s.db)) := by
  intro e he _
  by_contra hnot
  simp only [not_or, not_forall, not_not] at hnot
  obtain ⟨hmem, c, hlive⟩ := hnot
  have hkept : kept e = true := by
    obtain hkept | htarget := Bool.or_eq_true_iff.mp he
    · exact hkept
    · exact absurd (of_decide_eq_true htarget) hmem
  have hphase := (h.calls i).1
  rw [hcall] at hphase
  exact hmem (List.mem_flatMap.mpr
    ⟨principal e, hphase e hkept, mem_endpoints_of_known h.keyed (h.live c e hlive)⟩)

/-- The closing pass of a call is a move. -/
theorem Inv.closing (h : s.Inv J roster RJ now) {i : Nat} {principals : List String}
    {targets : List EndpointId} {kept : EndpointId → Bool}
    (hcall : s.calls i = .closing principals targets kept) :
    Moved J roster RJ now s ((s.sever principals targets).returned i kept) := by
  refine (h.moved_sever principals targets).returned fun eid hkept hrefused c hlive => ?_
  have hphase := (h.calls i).1
  rw [hcall] at hphase
  obtain htarget | hnone := hphase eid hkept hrefused
  · exact hlive.of_sever.2 htarget
  · exact hnone c hlive.of_sever.1

/-- A row that resolves has its name. -/
theorem named_of_resolve (h : s.Inv J roster RJ now) {e : PeerEntry}
    (he : s.db.resolve J eid = some e) : s.Named J eid e.nickname :=
  ⟨e, PairDb.mem_list_of_resolve he, h.keyed.endpointId_of_resolve he, rfl⟩

/-- What is named after a removal was named before it. -/
theorem Named.of_remove {nickname name : String}
    (h : ({ s with db := (s.db.remove J name).1 } : CutOffNode).Named J eid nickname) :
    s.Named J eid nickname := by
  obtain ⟨e, he, heid, hname⟩ := h
  obtain ⟨r, hr, hread⟩ := PairDb.mem_list.mp he
  exact ⟨e, PairDb.mem_list.mpr ⟨r, List.mem_of_mem_filter hr, hread⟩, heid, hname⟩

/-- The rows are deleted after the sever pass went over their devices, and none of
them came in since. -/
theorem Inv.removing (h : s.Inv J roster RJ now) {i : Nat} {nickname : String} {clock : UInt64}
    (hcall : s.calls i = .removing nickname)
    (hcovered : s.Covered J roster RJ now (.act i clock)) :
    Moved J roster RJ now s (s.act J roster RJ i clock (.removing nickname)) := by
  simp only [Covered, hcall] at hcovered
  have hphase := (h.calls i).1
  rw [hcall] at hphase
  have hsevered : ∀ eid, s.Named J eid nickname → ∀ c, ¬ s.Live c eid := hphase
  refine Moved.returned (t := { s with db := (s.db.remove J nickname).1 }) ?_
    fun eid hremoved _ => ?_
  · exact {
      keyed := fun r hr => h.keyed r (List.mem_of_mem_filter hr)
      known := fun eid hknown => by
        obtain hrow | hroster := hknown
        · obtain ⟨e, he⟩ := Option.isSome_iff_exists.mp hrow
          by_cases hname : e.nickname = nickname
          · have hnamed : s.Named J eid nickname := hname ▸ named_of_resolve h he
            by_cases hpast : ∃ k, (s.inbound k).Past eid
            · obtain ⟨k, hpast⟩ := hpast
              exact .inl (known_of_resolves (hcovered k eid hpast hnamed))
            · exact .inr ⟨hsevered eid hnamed, not_exists.mp hpast⟩
          · exact .inl (.inl (by simp [resolve_remove he hname]))
        · exact .inl (.inr hroster)
      past := fun _ _ => .inl
      captured := fun _ _ _ => .inl
      live := fun _ _ => .inl
      named := fun _ _ hnamed => .inl hnamed.of_remove
      swept := fun _ hin hswept => .inl ⟨hin, hswept⟩
      cut := fun _ hin _ => .inl hin
      calls := fun _ => .inl rfl }
  · obtain ⟨e, he, heid⟩ := List.any_eq_true.mp hremoved
    obtain ⟨he, hname⟩ := List.mem_filter.mp he
    exact hsevered eid ⟨e, he, of_decide_eq_true heid, of_decide_eq_true hname⟩

/-- The sever set of an unpair is of the rows that it read. -/
theorem Inv.unpairStarted (h : s.Inv J roster RJ now) (i : Nat) (nickname : String) :
    Moved J roster RJ now s (s.act J roster RJ i clock (.started (.removePeer nickname))) := by
  have hpartition : ∀ e, e ∈ ((s.db.list J).partition fun e => e.nickname = nickname).1 ↔
      e ∈ s.db.list J ∧ e.nickname = nickname := fun e => by
    rw [List.partition_eq_filter_filter, List.mem_filter, decide_eq_true_eq]
  simp only [CutOffNode.act]
  generalize hrows : (s.db.list J).partition (fun e => decide (e.nickname = nickname)) = rows
    at hpartition
  have hprincipals : ∀ e, s.Named J e nickname →
      principal e ∈ accessPrincipals rows.1 rows.2 := fun e hnamed => by
    obtain ⟨row, hrow, rfl, hname⟩ := hnamed
    exact mem_resolvedPrincipals.mpr (.inl ⟨row, (hpartition row).mpr ⟨hrow, hname⟩, rfl⟩)
  split
  · next hnone =>
    refine h.moved_refl.setCall fun e hnamed => ?_
    have hmem := hprincipals e hnamed
    rw [List.isEmpty_iff.mp hnone] at hmem
    contradiction
  · exact h.moved_refl.setCall hprincipals

theorem phaseInv_severing (eid : EndpointId) :
    s.PhaseInv J roster now (.severing [principal eid] (targeting eid fun _ => false)) := by
  intro e he
  have heq : e = eid := by simpa [targeting] using he
  simp [heq]

theorem phaseInv_revoking (userId reason : Option String) (clock : UInt64)
    (ids : List EndpointId) :
    s.PhaseInv J roster now (.revoking userId reason clock ids ids none fun _ => false) :=
  ⟨List.Subset.refl ids, by simp⟩

/-- One more of the endpoints is targeted. -/
theorem PhaseInv.targeting {userId reason : Option String} {clock : UInt64} {eid : EndpointId}
    {todo ids : List EndpointId} {read : Option (Option RevokedEntry)} {kept : EndpointId → Bool}
    (h : s.PhaseInv J roster now (.revoking userId reason clock (eid :: todo) ids read kept)) :
    t.PhaseInv J roster now
      (.revoking userId reason clock todo ids none (targeting eid kept)) := by
  obtain ⟨htodo, hkept⟩ := h
  obtain ⟨heid, htodo⟩ := List.cons_subset.mp htodo
  refine ⟨htodo, fun e he => ?_⟩
  obtain heq | he := Bool.or_eq_true_iff.mp he
  · exact of_decide_eq_true heq ▸ heid
  · exact hkept e he

/-- The next step of a call. -/
theorem Inv.act (h : s.Inv J roster RJ now) (i : Nat) (clock : UInt64)
    (hcovered : s.Covered J roster RJ now (.act i clock)) :
    Moved J roster RJ now s (s.act J roster RJ i clock (s.calls i)) := by
  have hphase := (h.calls i).1
  have hsame : Moved J roster RJ now s s := h.moved_refl
  cases hcall : s.calls i with
  | idle => exact hsame
  | started verb =>
      cases verb with
      | removePeer nickname => exact h.unpairStarted i nickname
      | peerRevoke peer reason =>
          simp only [CutOffNode.act]
          split
          · exact hsame.setCall trivial
          · split
            · exact hsame.setCall trivial
            · exact hsame.setCall (phaseInv_revoking none reason clock _)
      | deviceRevoke token =>
          exact (h.moved_signed token token.issuedAt).setCall (phaseInv_severing token.endpoint)
      | deviceRevocationImport token => exact hsame.setCall trivial
  | unpairSevering nickname principals rows =>
      simp only [Covered, hcall] at hcovered
      rw [hcall] at hphase
      refine hsame.setCall ⟨hcovered, fun e hnamed => ?_⟩
      exact List.mem_flatMap.mpr ⟨principal e, hphase e hnamed, mem_endpoints_of_named hnamed⟩
  | unpairClosing nickname principals rows targets =>
      rw [hcall] at hphase
      refine (h.moved_sever principals targets).setCall fun e hnamed c hlive => ?_
      exact hlive.of_sever.2 (hphase.2 e hnamed)
  | removing nickname => exact h.removing hcall hcovered
  | revokingUser userId reason clock ids =>
      have hmoved := h.moved_db
        (s.db.revokeUser RJ userId (localEntry (.replicate 32 0) clock reason)) rfl fun _ => id
      exact hmoved.setCall (phaseInv_revoking (some userId) reason clock ids)
  | revoking userId reason clock todo ids read kept =>
      rw [hcall] at hphase
      cases todo with
      | nil =>
          refine hsame.setCall fun e he => ?_
          exact List.mem_append_left _ (List.mem_map_of_mem (hphase.2 e he))
      | cons eid todo =>
          cases read with
          | none => exact hsame.setCall hphase
          | some existing =>
              simp only [CutOffNode.act]
              split
              · exact hsame.setCall hphase.targeting
              · exact (h.moved_local eid clock reason).setCall hphase.targeting
  | importing token theirs =>
      simp only [Covered, hcall] at hcovered
      simp only [CutOffNode.act]
      split
      · exact hsame.setCall trivial
      · next htheirs =>
        split
        · next hsuperseded =>
          refine hsame.returned fun eid heid _ => ?_
          obtain rfl : eid = token.endpoint := by simpa [targeting] using heid
          have hdated : s.DatedEntry RJ token.endpoint := by
            obtain ⟨date, hdate, -⟩ := (Option.any_eq_true ..).mp hsuperseded
            rw [DatedEntry, hdate]
            rfl
          have hswept := hcovered (by simpa using htheirs) hsuperseded
          exact h.swept token.endpoint hdated hswept
        · exact hsame.setCall trivial
  | importWriting token prior =>
      exact (h.moved_signed token clock).setCall (phaseInv_severing token.endpoint)
  | severing principals kept => exact hsame.setCall (h.severing hcall)
  | closing principals targets kept => exact h.closing hcall

/-- **Every move** that meets the condition. -/
theorem Inv.move (h : s.Inv J roster RJ now) {event : CutOffEvent}
    (hcovered : s.Covered J roster RJ now event) :
    Moved J roster RJ now s (cutOffMove J roster P RJ now s event) := by
  have hsame : Moved J roster RJ now s s := h.moved_refl
  cases event with
  | call i verb =>
      simp only [cutOffMove]
      split
      · split
        · exact hsame.setCall trivial
        · exact hsame
      · exact hsame.setCall trivial
      · exact hsame
  | act i clock => exact h.act i clock hcovered
  | fail i => exact hsame.setCall trivial
  | accept k eid =>
      simp only [cutOffMove]
      split
      · exact h.moved_inbound (fun _ hpast => hpast.elim) (by simp)
      · exact hsame
  | gate k => exact h.gateInbound k
  | capture k => exact h.captureInbound k
  | register k => exact h.registerInbound k hcovered
  | session event =>
      simp only [cutOffMove]
      split
      · exact hsame
      · next htracking =>
        cases hstep : s.serve.step event with
        | none => exact hsame
        | some serve' =>
            exact h.moved_serve serve' fun c eid hlive =>
              hlive.of_step (by simpa using htracking) hstep
  | add entry => exact h.moved_add entry hcovered
  | unrevoke eid => exact h.moved_unrevoke eid
  | unrevokeUser userId => exact h.moved_db (s.db.unrevokeUser userId) rfl fun _ => id

/-! ### what a step closes -/

/-- What a sever closes is a target, or was let in by a principal that it names. -/
theorem names_of_sever {principals : List String} {targets : List EndpointId} {c : Nat}
    {t : Admit.TrackedConn} (ht : s.serve.tracked c = some t) (hopen : s.serve.closed c = false)
    (hclosed : (s.sever principals targets).serve.closed c = true) :
    t.endpoint ∈ targets ∨ ∃ p ∈ t.admitted.keys, p ∈ principals := by
  simpa [sever, hopen, Admit.ServeState.severs, ht] using hclosed

variable (J roster RJ s) in
/-- Only the second half of a sever pass closes a connection. -/
theorem serve_act (i : Nat) (clock : UInt64) (phase : RevokePhase) :
    (s.act J roster RJ i clock phase).serve = s.serve ∨
      (∃ principals targets kept, phase = .closing principals targets kept) ∨
      ∃ nickname principals rows targets,
        phase = .unpairClosing nickname principals rows targets := by
  cases phase with
  | closing principals targets kept => exact .inr (.inl ⟨principals, targets, kept, rfl⟩)
  | unpairClosing nickname principals rows targets =>
      exact .inr (.inr ⟨nickname, principals, rows, targets, rfl⟩)
  | started verb =>
      refine .inl ?_
      cases verb with
      | removePeer nickname =>
          simp only [CutOffNode.act]
          split <;> rfl
      | peerRevoke peer reason =>
          simp only [CutOffNode.act]
          split
          · rfl
          · split <;> rfl
      | deviceRevoke token => rfl
      | deviceRevocationImport token => rfl
  | revoking userId reason clock todo ids read kept =>
      refine .inl ?_
      cases todo with
      | nil => rfl
      | cons eid todo =>
          cases read with
          | none => rfl
          | some existing =>
              simp only [CutOffNode.act]
              split <;> rfl
  | importing token theirs =>
      refine .inl ?_
      simp only [CutOffNode.act]
      split
      · rfl
      · split <;> rfl
  | _ => exact .inl rfl

/-- An act closes only what its call names. -/
theorem Inv.act_spares (h : s.Inv J roster RJ now) {i : Nat} {clock : UInt64} {c : Nat}
    {t : Admit.TrackedConn} (ht : s.serve.tracked c = some t) (hopen : s.serve.closed c = false)
    (hclosed : (s.act J roster RJ i clock (s.calls i)).serve.closed c = true) :
    (s.calls i).Names t := by
  have hphase := (h.calls i).1
  obtain hserve | ⟨principals, targets, kept, hcall⟩ |
      ⟨nickname, principals, rows, targets, hcall⟩ :=
    serve_act J roster RJ s i clock (s.calls i)
  · simp [hserve, hopen] at hclosed
  · rw [hcall] at hclosed ⊢
    exact names_of_sever ht hopen hclosed
  · rw [hcall] at hclosed hphase ⊢
    exact (names_of_sever ht hopen hclosed).imp_left fun htarget => hphase.1 htarget

/-- A connection is closed by its own side, or by a verb that names it. -/
theorem Inv.spares (h : s.Inv J roster RJ now) {event : CutOffEvent} {c : Nat}
    {t : Admit.TrackedConn} (ht : s.serve.tracked c = some t) (hopen : s.serve.closed c = false)
    (hclosed : (cutOffMove J roster P RJ now s event).serve.closed c = true) :
    event = .session (.close c) ∨ ∃ i clock, event = .act i clock ∧ (s.calls i).Names t := by
  -- the connections stay as they are
  have hstays {t : CutOffNode} (hserve : t.serve.closed = s.serve.closed)
      (hclosed : t.serve.closed c = true) : False := by simp [hserve, hopen] at hclosed
  cases event with
  | act i clock => exact .inr ⟨i, clock, rfl, h.act_spares ht hopen hclosed⟩
  | session event =>
      simp only [cutOffMove] at hclosed
      split at hclosed
      · exact (hstays rfl hclosed).elim
      · next htracking =>
        cases hstep : s.serve.step event with
        | none =>
            simp only [hstep, Option.getD_none] at hclosed
            exact (hstays rfl hclosed).elim
        | some serve' =>
            simp only [hstep, Option.getD_some] at hclosed
            obtain hbefore | rfl := closed_of_session (by simpa using htracking) hstep hclosed
            · exact (hstays rfl hbefore).elim
            · exact .inl rfl
  | call i verb =>
      refine (hstays (t := cutOffMove J roster P RJ now s (.call i verb)) ?_ hclosed).elim
      simp only [cutOffMove]
      split
      · split <;> rfl
      · rfl
      · rfl
  | accept k eid =>
      refine (hstays (t := cutOffMove J roster P RJ now s (.accept k eid)) ?_ hclosed).elim
      simp only [cutOffMove]
      split <;> rfl
  | gate k =>
      refine (hstays (t := s.gateInbound J roster now k) ?_ hclosed).elim
      unfold CutOffNode.gateInbound
      split
      · split <;> rfl
      · rfl
  | capture k =>
      refine (hstays (t := s.captureInbound J roster now k) ?_ hclosed).elim
      unfold CutOffNode.captureInbound
      split <;> rfl
  | register k =>
      refine (hstays (t := s.registerInbound J roster k) ?_ hclosed).elim
      unfold CutOffNode.registerInbound
      split
      · split <;> rfl
      · rfl
  | _ => exact (hstays rfl hclosed).elim

/-- **Step lemma**: a step that meets the condition keeps the invariant, and the
law. -/
theorem Inv.step (h : s.Inv J roster RJ now) {event : CutOffEvent}
    (hcovered : s.Covered J roster RJ now event) :
    (cutOffStep J roster P RJ now s event).1.Inv J roster RJ now ∧
      CutOffKept s (cutOffStep J roster P RJ now s event).1 event := by
  have hinv : (cutOffStep J roster P RJ now s event).1.Inv J roster RJ now :=
    h.settle (h.move hcovered)
  exact ⟨hinv, {
    cut := fun eid hin => (hinv.cut eid hin).2
    spared := fun c t ht hopen hclosed => h.spares ht hopen hclosed }⟩

variable (J roster now) in
/-- The invariant holds when the node starts. -/
theorem inv_start (revoked : List (EndpointId × List UInt8))
    (revokedUsers : List (String × List UInt8)) (services : Admit.Services) :
    (start revoked revokedUsers services).Inv J roster RJ now where
  keyed r hr := absurd hr List.not_mem_nil
  pending k eid hpast := hpast.elim
  captured k eid rosterUser hcaptured := by simp [start] at hcaptured
  live c eid hlive := by
    obtain ⟨t, ht, -⟩ := hlive
    simp [start, Admit.ServeState.init] at ht
  cut eid hin := by simp [start] at hin
  swept eid _ _ c hlive := by
    obtain ⟨t, ht, -⟩ := hlive
    simp [start, Admit.ServeState.init] at ht
  calls i := ⟨trivial, fun e he => by simp [start, RevokePhase.kept] at he⟩

end CutOffNode

end CutOff

/-! ### a peer that dials in while it is cut off -/

namespace BobDialsIn

open UnpairBob (primitives bob)

def entry : PeerEntry := ⟨bob, "bob", [], none, none, none⟩

/-- A pairing-mode node. -/
def roster : RosterGate := ⟨none, 0, none, 0⟩

def start : CutOffNode := .start [] [] ∅

def step : CutOffNode → CutOffEvent → CutOffNode × Unit :=
  cutOffStep Instance.peerJson roster primitives Instance.revokedJson 0

/-- He connects, and is registered. -/
def dialsIn : List CutOffEvent := [.accept 0 bob, .gate 0, .capture 0, .register 0]

/-- `n` steps of our call. -/
def acts (n : Nat) : List CutOffEvent := List.replicate n (.act 0 5)

/-- He connects after the sever pass of `remove_peer`, before it deletes his row. -/
def unpaired : List CutOffEvent :=
  .add entry :: .call 0 (.removePeer "bob") :: acts 3 ++ dialsIn

def last (before : List CutOffEvent) : Called CutOffNode CutOffEvent Unit :=
  callAt step (final step start before) (.act 0 5)

/-- The condition, in a run of call 0 and handler 0. -/
def checked (s : CutOffNode) : CutOffEvent → Bool
  | .act 0 _ =>
      match s.calls 0 with
      | .removing _ =>
          match s.inbound 0 with
          | .done => true
          | _ => false
      | .unpairSevering _ principals rows =>
          (principals.flatMap (endpointsForPrincipal Instance.peerJson roster s.db)).all (· ∈ rows)
      | .importing _ _ => false
      | _ => true
  | .act _ _ => false
  | .register _ | .add _ =>
      match s.calls 0 with
      | .idle => true
      | _ => false
  | _ => true

/-- Connection 0 is his, and open. -/
def connected (s : CutOffNode) : Bool :=
  (s.serve.tracked 0).any (·.endpoint = bob) && !s.serve.closed 0

end BobDialsIn

end Mcpmesh
