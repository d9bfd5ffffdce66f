import Mcpmesh.Net.Registry

/-!
# Mcpmesh.Net.Sever

Severing is complete: once the latest install has done its pass, no tracked and
unclosed connection is one that its view severs, in whatever order the pieces of
handlers and installs came.

The source argues by three cases of a race between a register and an install.
Here it is one invariant, `Mesh.Inv`, whose core is `Cleared`: from the pass of
the latest install on, every entry that is inserted or promoted was rechecked
against that install's view, under the lock that the pass took.  A session on
the lock-free path needs no recheck, because the flag it reads is set only
together with the entry.
-/

namespace Mcpmesh

open Lib

/-- The view keeps the entry: it neither revokes its endpoint nor, for a
roster-resolved one, has dropped it. -/
def RosterView.Keeps (view : RosterView) (t : Tracked) : Prop :=
  view.isRevoked t.endpointId = false ∧
    (t.rosterUser.isSome → (view.resolve t.endpointId).isSome)

/-- The session was admitted as roster-resolved: `admit_roster_user` was told a
roster user, which one of the reads around its `resolve` saw. -/
def StreamPhase.RosterAdmitted : StreamPhase → Prop
  | .admitted rosterUser _ => rosterUser.isSome
  | _ => False

/-- What is not severed is what the view keeps. -/
theorem shouldSever_eq_false {view : RosterView} {t : Tracked} :
    shouldSever t.endpointId t.rosterUser view.revokedEndpoints view.deviceEndpoints = false ↔
      view.Keeps t := by
  have hactive : t.endpointId ∈ view.deviceEndpoints ↔ (view.resolve t.endpointId).isSome := by
    rw [RosterView.mem_deviceEndpoints, Option.isSome_iff_ne_none]
  rw [shouldSever, Bool.or_eq_false_iff, Bool.and_eq_false_imp]
  refine and_congr Iff.rfl (imp_congr_right fun _ => ?_)
  rw [decide_eq_false_iff_not, not_not, hactive]

/-- The recheck of the live gate covers what the sever pass of its view would
close. -/
theorem keeps_of_not_shouldSeverNow {gate : ComposedGate} {view : RosterView} {t : Tracked}
    (hview : gate.roster.view = some view)
    (h : gate.shouldSeverNow t.endpointId t.rosterUser = false) : view.Keeps t := by
  simp only [ComposedGate.shouldSeverNow, RosterGate.isRevoked, hview, Option.map_some,
    Option.getD_some, Option.any_some, Bool.or_eq_false_iff, Bool.and_eq_false_imp] at h
  refine ⟨h.1.1.2, fun huser => ?_⟩
  simpa using h.2 huser

namespace Mesh

variable {m m' : Mesh}

@[simp] theorem conns_setConn {c c' : ConnId} {conn : Conn} :
    (m.setConn c conn).conns c' = if c' = c then some conn else m.conns c' :=
  Function.update_apply m.conns c (some conn) c'

theorem conns_setConn_self {c : ConnId} {conn : Conn} : (m.setConn c conn).conns c = some conn :=
  conns_setConn.trans (if_pos rfl)

@[simp] theorem streams_setStream {s s' : Nat} {stream : Stream} :
    (m.setStream s stream).streams s' = if s' = s then some stream else m.streams s' :=
  Function.update_apply m.streams s (some stream) s'

/-! ### what is linked to what -/

/-- The connection of a session: its handler has returned only when it is
closed, and it is promoted once the session is admitted by roster. -/
def Serves (m : Mesh) (stream : Stream) : Prop :=
  ∃ conn, m.conns stream.conn = some conn ∧ conn.mesh = true ∧
    stream.entry < m.registry.seq ∧
      (∀ t ∈ m.registry.inner.items, t.id = stream.entry → t.conn = stream.conn) ∧
        (conn.handler = .registered stream.entry ∨
          conn.handler = .returned ∧ conn.closed = true) ∧
            (stream.phase.RosterAdmitted → conn.promoted = true)

/-- Registry, handlers and sessions agree. -/
structure Linked (m : Mesh) : Prop where
  ids : ∀ t ∈ m.registry.inner.items, t.id < m.registry.seq
  tracked : ∀ t ∈ m.registry.inner.items, ∃ conn, m.conns t.conn = some conn ∧
    conn.handler = .registered t.id ∧ conn.endpoint = t.endpointId ∧
      conn.promoted = t.rosterUser.isSome
  registered : ∀ c conn id, m.conns c = some conn → conn.handler = .registered id →
    ∃ t ∈ m.registry.inner.items, t.id = id ∧ t.conn = c
  streams : ∀ s stream, m.streams s = some stream → m.Serves stream

end Mesh

/-- What a step may do to a connection that it neither registers nor promotes. -/
structure Conn.Follows (conn conn' : Conn) : Prop where
  endpoint : conn'.endpoint = conn.endpoint
  mesh : conn'.mesh = conn.mesh
  promoted : conn'.promoted = conn.promoted
  closed : conn.closed = true → conn'.closed = true
  registered : ∀ id, conn'.handler = .registered id ↔ conn.handler = .registered id
  returned : conn.handler = .returned → conn'.handler = .returned

/-- A connection follows from itself. -/
theorem Conn.Follows.refl (conn : Conn) : conn.Follows conn :=
  ⟨rfl, rfl, rfl, id, fun _ => Iff.rfl, id⟩

/-- The handler has registered the connection. -/
def Handler.Served : Handler → Prop
  | .registered _ | .returned => True
  | _ => False

/-- A connection that was served is one still. -/
theorem Conn.Follows.served {conn conn' : Conn} (h : conn.Follows conn')
    (hserved : conn.handler.Served) : conn'.handler.Served := by
  cases hat : conn.handler with
  | registered id =>
      rw [(h.registered id).mpr hat]
      trivial
  | returned =>
      rw [h.returned hat]
      trivial
  | accepted | resolved | captured | refused =>
      rw [hat] at hserved
      exact hserved.elim

namespace Mesh

/-- A step that registers, promotes and serves nothing new. -/
structure Follows (m m' : Mesh) : Prop where
  registry : m'.registry = m.registry
  streams : m'.streams = m.streams
  forth : ∀ c conn, m.conns c = some conn → ∃ conn', m'.conns c = some conn' ∧ conn.Follows conn'
  back : ∀ c conn', m'.conns c = some conn' → ∃ conn, m.conns c = some conn ∧ conn.Follows conn'

section Linked

variable {m m' : Mesh} {c : ConnId} {conn conn' : Conn} {s : Nat} {stream : Stream}

/-- A step of the gate alone. -/
theorem Follows.of_conns (hregistry : m'.registry = m.registry) (hstreams : m'.streams = m.streams)
    (hconns : m'.conns = m.conns) : m.Follows m' where
  registry := hregistry
  streams := hstreams
  forth _ conn hconn := ⟨conn, hconns ▸ hconn, .refl conn⟩
  back _ conn hconn := ⟨conn, hconns ▸ hconn, .refl conn⟩

/-- A connection that goes on makes the mesh follow. -/
theorem follows_setConn (hconn : m.conns c = some conn) (hfollows : conn.Follows conn') :
    m.Follows (m.setConn c conn') where
  registry := rfl
  streams := rfl
  forth a x hx := by
    by_cases ha : a = c
    · subst ha
      obtain rfl := Option.some.inj (hconn.symm.trans hx)
      exact ⟨conn', by simp, hfollows⟩
    · exact ⟨x, by simpa [ha] using hx, .refl x⟩
  back a x hx := by
    by_cases ha : a = c
    · subst ha
      obtain rfl : conn' = x := by simpa using hx
      exact ⟨conn, hconn, hfollows⟩
    · exact ⟨x, by simpa [ha] using hx, .refl x⟩

/-- What is served is served still. -/
theorem Serves.follows (h : m.Serves stream) (hfollows : m.Follows m') : m'.Serves stream := by
  obtain ⟨conn, hconn, hmesh, hseq, hentry, hat, hadmitted⟩ := h
  obtain ⟨conn', hconn', hf⟩ := hfollows.forth _ conn hconn
  rw [Serves, hfollows.registry]
  refine ⟨conn', hconn', hf.mesh.trans hmesh, hseq, hentry, ?_, fun h => ?_⟩
  · exact hat.imp (hf.registered _).mpr fun ⟨hreturned, hclosed⟩ =>
      ⟨hf.returned hreturned, hf.closed hclosed⟩
  · exact hf.promoted.trans (hadmitted h)

/-- The registry and the handlers fit each other still. -/
theorem Linked.follows (h : m.Linked) (hfollows : m.Follows m') : m'.Linked where
  ids := by
    rw [hfollows.registry]
    exact h.ids
  tracked := by
    rw [hfollows.registry]
    intro t ht
    obtain ⟨conn, hconn, hat, hendpoint, hpromoted⟩ := h.tracked t ht
    obtain ⟨conn', hconn', hf⟩ := hfollows.forth _ conn hconn
    exact ⟨conn', hconn', (hf.registered _).mpr hat, hf.endpoint.trans hendpoint,
      hf.promoted.trans hpromoted⟩
  registered := by
    rw [hfollows.registry]
    intro c conn' id hconn' hat
    obtain ⟨conn, hconn, hf⟩ := hfollows.back c conn' hconn'
    exact h.registered c conn id hconn ((hf.registered id).mp hat)
  streams := by
    rw [hfollows.streams]
    exact fun s stream hstream => (h.streams s stream hstream).follows hfollows

/-- A new connection is not registered yet. -/
theorem Linked.accept (h : m.Linked) (hfree : m.conns c = none)
    (hat : ∀ id, conn.handler ≠ .registered id) : (m.setConn c conn).Linked where
  ids := h.ids
  tracked t ht := by
    obtain ⟨x, hx, hlink⟩ := h.tracked t ht
    have hne : t.conn ≠ c := by
      rintro rfl
      exact absurd (hfree.symm.trans hx) (by simp)
    exact ⟨x, by simpa [hne] using hx, hlink⟩
  registered a x id hx hid := by
    by_cases ha : a = c
    · obtain rfl : conn = x := by simpa [ha] using hx
      exact absurd hid (hat id)
    · exact h.registered a x id (by simpa [ha] using hx) hid
  streams s stream hstream := by
    obtain ⟨x, hx, hserves⟩ := h.streams s stream hstream
    have hne : stream.conn ≠ c := by
      rintro rfl
      exact absurd (hfree.symm.trans hx) (by simp)
    exact ⟨x, by simpa [hne] using hx, hserves⟩

/-- A stream that is served keeps the mesh linked. -/
theorem Linked.setStream (h : m.Linked) (hserves : m.Serves stream) :
    (m.setStream s stream).Linked where
  ids := h.ids
  tracked := h.tracked
  registered := h.registered
  streams a x hx := by
    by_cases ha : a = s
    · obtain rfl : stream = x := by simpa [ha] using hx
      exact hserves
    · exact h.streams a x (by simpa [ha] using hx)

/-- A session goes on, and is admitted by roster only on a promoted connection. -/
theorem Serves.phase {phase : StreamPhase} (h : m.Serves stream)
    (hphase : phase.RosterAdmitted →
      ∀ conn, m.conns stream.conn = some conn → conn.promoted = true) :
    m.Serves { stream with phase } := by
  obtain ⟨conn, hconn, hmesh, hseq, hentry, hat, -⟩ := h
  exact ⟨conn, hconn, hmesh, hseq, hentry, hat, fun h => hphase h conn hconn⟩

/-- A connection that is not registered has no entry. -/
theorem Linked.conn_ne (h : m.Linked) (hconn : m.conns c = some conn)
    (hat : ∀ id, conn.handler ≠ .registered id) {t : Tracked}
    (ht : t ∈ m.registry.inner.items) : t.conn ≠ c := by
  rintro rfl
  obtain ⟨x, hx, hid, -⟩ := h.tracked t ht
  obtain rfl := Option.some.inj (hconn.symm.trans hx)
  exact hat t.id hid

/-- Two entries have two connections. -/
theorem Linked.eq_of_conn (h : m.Linked) {t t' : Tracked} (ht : t ∈ m.registry.inner.items)
    (ht' : t' ∈ m.registry.inner.items) (hconn : t.conn = t'.conn) : t = t' := by
  obtain ⟨x, hx, hat, -⟩ := h.tracked t ht
  obtain ⟨x', hx', hat', -⟩ := h.tracked t' ht'
  rw [hconn] at hx
  obtain rfl := Option.some.inj (hx.symm.trans hx')
  exact Keyed.eq_of_key ht ht' (Handler.registered.inj (hat.symm.trans hat'))

/-- A session that was admitted by roster on an open connection has a tracked
entry, which is roster-resolved. -/
theorem Linked.tracked_of_admitted (h : m.Linked) (hstream : m.streams s = some stream)
    (hadmitted : stream.phase.RosterAdmitted) (hconn : m.conns stream.conn = some conn)
    (hopen : conn.closed = false) :
    ∃ t ∈ m.registry.inner.items, t.conn = stream.conn ∧ t.endpointId = conn.endpoint ∧
      t.rosterUser.isSome := by
  obtain ⟨x, hx, -, -, -, hat, hpromoted⟩ := h.streams s stream hstream
  obtain rfl := Option.some.inj (hconn.symm.trans hx)
  have hregistered : conn.handler = .registered stream.entry :=
    hat.resolve_right fun ⟨_, hclosed⟩ => by simp [hopen] at hclosed
  obtain ⟨t, ht, -, hc⟩ := h.registered _ conn _ hconn hregistered
  obtain ⟨y, hy, -, hendpoint, huser⟩ := h.tracked t ht
  rw [hc] at hy
  obtain rfl := Option.some.inj (hconn.symm.trans hy)
  exact ⟨t, ht, hc, hendpoint.symm, huser.symm.trans (hpromoted hadmitted)⟩

/-- A checked register links the new entry to its connection. -/
theorem Linked.register (h : m.Linked) (hconn : m.conns c = some conn) {rosterUser : Option String}
    (hat : conn.handler = .captured rosterUser) :
    ({ m with registry :=
        { inner := m.registry.inner.insert ⟨m.registry.seq, conn.endpoint, rosterUser, c⟩
          seq := m.registry.seq + 1 } }.setConn c
      { conn with handler := .registered m.registry.seq
                  promoted := rosterUser.isSome }).Linked := by
  have hfree : ∀ id, conn.handler ≠ .registered id := by simp [hat]
  refine ⟨fun t ht => ?_, fun t ht => ?_, fun a x id hx hid => ?_, fun s stream hstream => ?_⟩
  · obtain ⟨ht, -⟩ | rfl := Keyed.mem_insert.mp ht
    · exact Nat.lt_succ_of_lt (h.ids t ht)
    · exact Nat.lt_succ_self _
  · obtain ⟨ht, -⟩ | rfl := Keyed.mem_insert.mp ht
    · obtain ⟨x, hx, hlink⟩ := h.tracked t ht
      exact ⟨x, by simpa [h.conn_ne hconn hfree ht] using hx, hlink⟩
    · exact ⟨_, conns_setConn_self, rfl, rfl, rfl⟩
  · by_cases ha : a = c
    · obtain rfl := Option.some.inj (by simpa [ha] using hx)
      exact ⟨_, Keyed.mem_insert.mpr (.inr rfl), Handler.registered.inj hid, ha.symm⟩
    · obtain ⟨t, ht, hid, hc⟩ := h.registered a x id (by simpa [ha] using hx) hid
      exact ⟨t, Keyed.mem_insert.mpr (.inl ⟨ht, Nat.ne_of_lt (h.ids t ht)⟩), hid, hc⟩
  · obtain ⟨x, hx, hmesh, hseq, hentry, hserved, hadmitted⟩ := h.streams s stream hstream
    have hne : stream.conn ≠ c := by
      rintro rfl
      obtain rfl := Option.some.inj (hconn.symm.trans hx)
      simp [hat] at hserved
    refine ⟨x, by simpa [hne] using hx, hmesh, Nat.lt_succ_of_lt hseq, fun t ht hid => ?_,
      hserved, hadmitted⟩
    obtain ⟨ht, -⟩ | rfl := Keyed.mem_insert.mp ht
    · exact hentry t ht hid
    · exact absurd hid (Nat.ne_of_gt hseq)

/-- A connection leaves the registry when its handler does. -/
theorem Linked.deregister (h : m.Linked) (hconn : m.conns c = some conn) {id : Nat}
    (hat : conn.handler = .registered id) (hdone : conn.closed = true ∨ conn.mesh = false) :
    ({ m with registry := m.registry.deregister id }.setConn c
      { conn with handler := .returned }).Linked := by
  obtain ⟨own, hown, hid, rfl⟩ := h.registered c conn id hconn hat
  have hother : ∀ t ∈ m.registry.inner.items, t.id ≠ id → t.conn ≠ own.conn := by
    intro t ht hne hsame
    exact hne (h.eq_of_conn ht hown hsame ▸ hid)
  refine ⟨fun t ht => ?_, fun t ht => ?_, fun a x id' hx hid' => ?_, fun s stream hstream => ?_⟩
  · exact h.ids t (Keyed.mem_remove.mp ht).1
  · obtain ⟨ht, hne⟩ := Keyed.mem_remove.mp ht
    obtain ⟨x, hx, hlink⟩ := h.tracked t ht
    exact ⟨x, by simpa [hother t ht hne] using hx, hlink⟩
  · by_cases ha : a = own.conn
    · obtain rfl := Option.some.inj (by simpa [ha] using hx)
      contradiction
    · obtain ⟨t, ht, hid', hc⟩ := h.registered a x id' (by simpa [ha] using hx) hid'
      refine ⟨t, Keyed.mem_remove.mpr ⟨ht, fun hsame => ha ?_⟩, hid', hc⟩
      rw [← hc, Keyed.eq_of_key ht hown (hsame.trans hid.symm)]
  · obtain ⟨x, hx, hmesh, hseq, hentry, hserved, hadmitted⟩ := h.streams s stream hstream
    have hentry' : ∀ t ∈ (m.registry.deregister id).inner.items, t.id = stream.entry →
        t.conn = stream.conn := fun t ht => hentry t (Keyed.mem_remove.mp ht).1
    by_cases hc : stream.conn = own.conn
    · rw [hc] at hx
      obtain rfl := Option.some.inj (hconn.symm.trans hx)
      have hclosed : conn.closed = true := by simpa [hmesh] using hdone
      refine ⟨{ conn with handler := .returned }, ?_, hmesh, hseq, hentry', .inr ⟨rfl, hclosed⟩,
        hadmitted⟩
      rw [hc, conns_setConn_self]
    · exact ⟨x, by simpa [hc] using hx, hmesh, hseq, hentry', hserved, hadmitted⟩

/-- A promotion changes the entry and the flag together. -/
theorem Linked.promote (h : m.Linked) {t : Tracked} (ht : t ∈ m.registry.inner.items)
    (hconn : m.conns t.conn = some conn) (user : String) :
    ({ m with registry :=
        { m.registry with inner := m.registry.inner.insert { t with rosterUser := some user } }
          }.setConn t.conn { conn with promoted := true }).Linked := by
  have hother : ∀ a ∈ m.registry.inner.items, a.id ≠ t.id → a.conn ≠ t.conn := by
    intro a ha hne hsame
    exact hne (h.eq_of_conn ha ht hsame ▸ rfl)
  refine ⟨fun a ha => ?_, fun a ha => ?_, fun c x id hx hid => ?_, fun s stream hstream => ?_⟩
  · obtain ⟨ha, -⟩ | rfl := Keyed.mem_insert.mp ha
    · exact h.ids a ha
    · exact h.ids t ht
  · obtain ⟨ha, hne⟩ | rfl := Keyed.mem_insert.mp ha
    · obtain ⟨x, hx, hlink⟩ := h.tracked a ha
      exact ⟨x, by simpa [hother a ha hne] using hx, hlink⟩
    · obtain ⟨x, hx, hat, hendpoint, -⟩ := h.tracked t ht
      obtain rfl := Option.some.inj (hconn.symm.trans hx)
      exact ⟨_, conns_setConn_self, hat, hendpoint, rfl⟩
  · have hold : ∃ y, m.conns c = some y ∧ y.handler = .registered id := by
      by_cases hc : c = t.conn
      · obtain rfl := Option.some.inj (by simpa [hc] using hx)
        exact ⟨conn, hc ▸ hconn, hid⟩
      · exact ⟨x, by simpa [hc] using hx, hid⟩
    obtain ⟨y, hy, hat⟩ := hold
    obtain ⟨a, ha, haid, hac⟩ := h.registered c y id hy hat
    by_cases hsame : a.id = t.id
    · obtain rfl := Keyed.eq_of_key ha ht hsame
      exact ⟨_, Keyed.mem_insert.mpr (.inr rfl), haid, hac⟩
    · exact ⟨a, Keyed.mem_insert.mpr (.inl ⟨ha, hsame⟩), haid, hac⟩
  · obtain ⟨x, hx, hmesh, hseq, hentry, hserved, hadmitted⟩ := h.streams s stream hstream
    have hentry' : ∀ a ∈ (m.registry.inner.insert { t with rosterUser := some user }).items,
        a.id = stream.entry → a.conn = stream.conn := by
      intro a ha hid
      obtain ⟨ha, -⟩ | rfl := Keyed.mem_insert.mp ha
      · exact hentry a ha hid
      · exact hentry t ht hid
    by_cases hc : stream.conn = t.conn
    · rw [hc] at hx
      obtain rfl := Option.some.inj (hconn.symm.trans hx)
      refine ⟨{ conn with promoted := true }, ?_, hmesh, hseq, hentry', hserved, fun _ => rfl⟩
      rw [hc, conns_setConn_self]
    · exact ⟨x, by simpa [hc] using hx, hmesh, hseq, hentry', hserved, hadmitted⟩

end Linked

/-! ### what an install leaves -/

/-- The connection is there and open. -/
def Unclosed (m : Mesh) (c : ConnId) : Prop :=
  ∃ conn, m.conns c = some conn ∧ conn.closed = false

/-- The gate serves the latest install, and after its pass every entry of an
open connection is one that its view keeps. -/
def Cleared (m : Mesh) : Prop :=
  ∀ last, m.installs.getLast? = some last →
    m.gate.roster.view = some last.view ∧
      (last.severed = true →
        ∀ t ∈ m.registry.inner.items, m.Unclosed t.conn → last.view.Keeps t)

/-- An install closes a connection only once it is registered, and then only one
that is promoted or revoked. -/
def Spared (m : Mesh) : Prop :=
  ∀ c conn, m.conns c = some conn → conn.severed = true →
    conn.handler.Served ∧
      (conn.promoted = true ∨ ∃ install ∈ m.installs, install.view.isRevoked conn.endpoint = true)

/-- The invariant of the system. -/
structure Inv (m : Mesh) : Prop where
  linked : m.Linked
  cleared : m.Cleared
  spared : m.Spared

section Installs

variable {m m' : Mesh} {c : ConnId} {conn conn' : Conn} {s : Nat} {stream : Stream}

/-- What is open after a step was open before it. -/
theorem Unclosed.of_setConn {a : ConnId} (h : (m.setConn c conn').Unclosed a)
    (hconn : m.conns c = some conn) (hclosed : conn.closed = true → conn'.closed = true) :
    m.Unclosed a := by
  obtain ⟨x, hx, hopen⟩ := h
  by_cases ha : a = c
  · subst ha
    obtain rfl := Option.some.inj (conns_setConn_self.symm.trans hx)
    refine ⟨conn, hconn, ?_⟩
    cases hc : conn.closed with
    | false => rfl
    | true => exact absurd (hclosed hc) (by simp [hopen])
  · exact ⟨x, by simpa [ha] using hx, hopen⟩

/-- Without a swap or a pass, only an entry that the live view keeps is new. -/
theorem Cleared.of (h : m.Cleared) (hinstalls : m'.installs = m.installs)
    (hview : m'.gate.roster.view = m.gate.roster.view)
    (hitems : ∀ t ∈ m'.registry.inner.items, m'.Unclosed t.conn →
      (t ∈ m.registry.inner.items ∧ m.Unclosed t.conn) ∨
        ∀ view, m.gate.roster.view = some view → view.Keeps t) : m'.Cleared := by
  intro last hlast
  obtain ⟨hlive, hkeeps⟩ := h last (hinstalls ▸ hlast)
  refine ⟨hview.trans hlive, fun hsevered t ht hopen => ?_⟩
  obtain ⟨ht, hopen⟩ | hkeep := hitems t ht hopen
  · exact hkeeps hsevered t ht hopen
  · exact hkeep last.view hlive

/-- A connection that goes on was spared, if it was. -/
theorem Spared.setConn (h : m.Spared) (hconn : m.conns c = some conn)
    (hsevered : conn'.severed = conn.severed) (hendpoint : conn'.endpoint = conn.endpoint)
    (hserved : conn.handler.Served →
      conn'.handler.Served ∧ (conn.promoted = true → conn'.promoted = true)) :
    (m.setConn c conn').Spared := by
  intro a x hx hx'
  by_cases ha : a = c
  · subst ha
    obtain rfl := Option.some.inj (conns_setConn_self.symm.trans hx)
    obtain ⟨hwas, hground⟩ := h a conn hconn (hsevered ▸ hx')
    rw [hendpoint]
    exact ⟨(hserved hwas).1, hground.imp_left (hserved hwas).2⟩
  · exact h a x (by simpa [ha] using hx) hx'

/-- A step of a handler that registers and promotes nothing. -/
theorem Inv.setConn (h : m.Inv) (hconn : m.conns c = some conn) (hfollows : conn.Follows conn')
    (hsevered : conn'.severed = conn.severed) : (m.setConn c conn').Inv where
  linked := h.linked.follows (follows_setConn hconn hfollows)
  cleared := h.cleared.of rfl rfl fun _ ht hopen =>
    .inl ⟨ht, hopen.of_setConn hconn hfollows.closed⟩
  spared := h.spared.setConn hconn hsevered hfollows.endpoint fun hserved =>
    ⟨hfollows.served hserved, fun hpromoted => hfollows.promoted.trans hpromoted⟩

/-- A stream goes on. -/
theorem Inv.setStream (h : m.Inv) (hserves : m.Serves stream) : (m.setStream s stream).Inv :=
  ⟨h.linked.setStream hserves, h.cleared, h.spared⟩

/-- A connection comes in. -/
theorem Inv.accept (h : m.Inv) (hfree : m.conns c = none)
    (hat : ∀ id, conn.handler ≠ .registered id) (hsevered : conn.severed = false) :
    (m.setConn c conn).Inv where
  linked := h.linked.accept hfree hat
  cleared := h.cleared.of rfl rfl fun t ht hopen => by
    obtain ⟨x, hx, -⟩ := h.linked.tracked t ht
    have hne : t.conn ≠ c := by
      rintro rfl
      exact absurd (hfree.symm.trans hx) (by simp)
    refine .inl ⟨ht, ?_⟩
    obtain ⟨y, hy, hopen⟩ := hopen
    exact ⟨y, by simpa [hne] using hy, hopen⟩
  spared a x hx hx' := by
    by_cases ha : a = c
    · subst ha
      obtain rfl := Option.some.inj (conns_setConn_self.symm.trans hx)
      exact absurd (hsevered.symm.trans hx') (by simp)
    · exact h.spared a x (by simpa [ha] using hx) hx'

/-- A connection is registered, unless the gate would sever it now. -/
theorem Inv.registerConn (h : m.Inv) (hconn : m.conns c = some conn) {rosterUser : Option String}
    (hat : conn.handler = .captured rosterUser) : (m.registerConn c conn rosterUser).Inv := by
  cases hrecheck : m.gate.shouldSeverNow conn.endpoint rosterUser with
  | true =>
      rw [registerConn_of_severed hrecheck]
      exact h.setConn hconn (by constructor <;> simp [hat]) rfl
  | false =>
      rw [registerConn_of_kept hrecheck]
      refine ⟨h.linked.register hconn hat, h.cleared.of rfl rfl fun t ht hopen => ?_, ?_⟩
      · obtain ⟨ht, -⟩ | rfl := Keyed.mem_insert.mp ht
        · exact .inl ⟨ht, hopen.of_setConn hconn id⟩
        · exact .inr fun view hview => keeps_of_not_shouldSeverNow hview hrecheck
      · refine h.spared.setConn (m := m) hconn rfl rfl fun hserved => ?_
        simp [hat, Handler.Served] at hserved

/-- A connection that is done leaves the registry. -/
theorem Inv.deregister (h : m.Inv) (hconn : m.conns c = some conn) {id : Nat}
    (hat : conn.handler = .registered id) (hdone : conn.closed = true ∨ conn.mesh = false) :
    ({ m with registry := m.registry.deregister id }.setConn c
      { conn with handler := .returned }).Inv where
  linked := h.linked.deregister hconn hat hdone
  cleared := h.cleared.of rfl rfl fun _ ht hopen =>
    .inl ⟨(Keyed.mem_remove.mp ht).1, hopen.of_setConn hconn fun hclosed => hclosed⟩
  spared := h.spared.setConn (m := m) hconn rfl rfl fun _ => ⟨trivial, fun hpromoted => hpromoted⟩

/-- A stream is promoted to the roster's word. -/
theorem Inv.promoteStream (h : m.Inv) (hstream : m.streams s = some stream)
    (hconn : m.conns stream.conn = some conn) (user : String) (identity : PeerIdentity) :
    (m.promoteStream s stream conn user identity).Inv := by
  have hserves : m.Serves stream := h.linked.streams s stream hstream
  obtain heq | ⟨t, ht, hid, hrecheck, heq⟩ :=
      promoteStream_cases (m := m) s stream conn user identity
  · rw [heq]
    exact h.setStream (hserves.phase fun hadmitted => hadmitted.elim)
  · obtain ⟨-, -, -, -, hentry, -⟩ := hserves
    obtain ⟨c, entry, phase⟩ := stream
    obtain rfl : t.conn = c := hentry t ht hid
    rw [heq]
    have hlinked := h.linked.promote ht hconn user
    refine Inv.setStream ⟨hlinked, h.cleared.of rfl rfl fun a ha hopen => ?_, ?_⟩ ?_
    · obtain ⟨ha, -⟩ | rfl := Keyed.mem_insert.mp ha
      · exact .inl ⟨ha, hopen.of_setConn hconn fun hclosed => hclosed⟩
      · exact .inr fun view hview => keeps_of_not_shouldSeverNow hview hrecheck
    · exact h.spared.setConn (m := m) hconn rfl rfl fun hserved => ⟨hserved, fun _ => rfl⟩
    · refine (hlinked.streams s _ hstream).phase fun _ x hx => ?_
      obtain rfl := Option.some.inj (conns_setConn_self.symm.trans hx)
      rfl

/-- A new view is live. -/
theorem Inv.swap (h : m.Inv) (view : RosterView) : (m.swap view).Inv where
  linked := h.linked.follows (.of_conns rfl rfl rfl)
  cleared last hlast := by
    obtain rfl : ⟨view, false⟩ = last := by simpa [Mesh.swap] using hlast
    exact ⟨rfl, fun hsevered => by contradiction⟩
  spared c conn hconn hsevered := by
    obtain ⟨hserved, hground⟩ := h.spared c conn hconn hsevered
    exact ⟨hserved, hground.imp_right fun ⟨i, hi, hrevoked⟩ =>
      ⟨i, List.mem_append_left _ hi, hrevoked⟩⟩

/-- The connections that the pass of this view closes. -/
def Closing (m : Mesh) (view : RosterView) (c : ConnId) : Prop :=
  ∃ t ∈ m.registry.inner.items, t.conn = c ∧ ¬ view.Keeps t

/-- A sever finds the connections that the view closes. -/
theorem mem_severMatching {view : RosterView} :
    (c ∈ m.registry.severMatching fun eid rosterUser =>
      shouldSever eid rosterUser view.revokedEndpoints view.deviceEndpoints) ↔
        m.Closing view c := by
  simp only [ConnRegistry.severMatching, List.mem_map, List.mem_filter, Closing,
    ← shouldSever_eq_false, Bool.not_eq_false]
  exact exists_congr fun t => by rw [and_assoc, and_comm (a := _ = true)]

/-- A sever closes what it finds, and nothing else. -/
theorem conns_sever {i : Nat} {install : RosterInstall} {x : Conn} :
    (m.sever i install).conns c = some x ↔ ∃ conn, m.conns c = some conn ∧
      (m.Closing install.view c ∧ x = { conn with closed := true, severed := true } ∨
        ¬ m.Closing install.view c ∧ x = conn) := by
  simp only [Mesh.sever, Option.map_eq_some_iff]
  refine exists_congr fun conn => and_congr_right fun _ => ?_
  by_cases hc : m.Closing install.view c
  · simp [hc, mem_severMatching.mpr hc, eq_comm]
  · simp [hc, mem_severMatching.not.mpr hc, eq_comm]

/-- After a sever each connection follows. -/
theorem follows_sever {i : Nat} {install : RosterInstall} : m.Follows (m.sever i install) where
  registry := rfl
  streams := rfl
  forth c conn hconn := by
    by_cases hc : m.Closing install.view c
    · exact ⟨_, conns_sever.mpr ⟨conn, hconn, .inl ⟨hc, rfl⟩⟩, rfl, rfl, rfl, fun _ => rfl,
        fun _ => Iff.rfl, id⟩
    · exact ⟨_, conns_sever.mpr ⟨conn, hconn, .inr ⟨hc, rfl⟩⟩, .refl conn⟩
  back c x hx := by
    obtain ⟨conn, hconn, ⟨-, rfl⟩ | ⟨-, rfl⟩⟩ := conns_sever.mp hx
    · exact ⟨conn, hconn, rfl, rfl, rfl, fun _ => rfl, fun _ => Iff.rfl, id⟩
    · exact ⟨_, hconn, .refl _⟩

/-- A pass closes every open connection whose entry its view does not keep. -/
theorem keeps_of_unclosed_sever {i : Nat} {install : RosterInstall} {t : Tracked}
    (ht : t ∈ m.registry.inner.items) (hopen : (m.sever i install).Unclosed t.conn) :
    install.view.Keeps t ∧ m.Unclosed t.conn := by
  obtain ⟨x, hx, hopen⟩ := hopen
  obtain ⟨conn, hconn, ⟨-, rfl⟩ | ⟨hkept, rfl⟩⟩ := conns_sever.mp hx
  · contradiction
  · refine ⟨?_, _, hconn, hopen⟩
    by_contra hnot
    exact hkept ⟨t, ht, rfl, hnot⟩

/-- A pass leaves the views of the installs. -/
theorem exists_install_sever {i : Nat} {install a : RosterInstall}
    (hinstall : m.installs[i]? = some install) (ha : a ∈ m.installs) :
    ∃ b ∈ (m.sever i install).installs, b.view = a.view := by
  obtain ⟨j, hj⟩ := List.mem_iff_getElem?.mp ha
  by_cases hij : i = j
  · subst hij
    obtain rfl := Option.some.inj (hinstall.symm.trans hj)
    have hlt : i < m.installs.length := (List.getElem?_eq_some_iff.mp hj).1
    exact ⟨_, List.mem_iff_getElem?.mpr ⟨i, List.getElem?_set_self hlt⟩, rfl⟩
  · exact ⟨a, List.mem_iff_getElem?.mpr ⟨j, (List.getElem?_set_ne hij).trans hj⟩, rfl⟩

/-- A sever cuts what the view refuses. -/
theorem Inv.sever (h : m.Inv) {i : Nat} {install : RosterInstall}
    (hinstall : m.installs[i]? = some install) : (m.sever i install).Inv where
  linked := h.linked.follows follows_sever
  cleared := by
    intro last hlast
    rw [List.getLast?_eq_getElem?] at hlast
    unfold Mesh.sever at hlast
    rw [List.length_set] at hlast
    by_cases hi : i = m.installs.length - 1
    · -- the pass of the latest install itself
      have hlast' : m.installs.getLast? = some install := by
        rw [List.getLast?_eq_getElem?, ← hi, hinstall]
      have hlt : i < m.installs.length := (List.getElem?_eq_some_iff.mp hinstall).1
      rw [← hi, List.getElem?_set_self hlt] at hlast
      obtain rfl := Option.some.inj hlast
      exact ⟨(h.cleared install hlast').1,
        fun _ t ht hopen => (keeps_of_unclosed_sever (m := m) ht hopen).1⟩
    · rw [List.getElem?_set_ne hi, ← List.getLast?_eq_getElem?] at hlast
      obtain ⟨hlive, hkeeps⟩ := h.cleared last hlast
      exact ⟨hlive, fun hsevered t ht hopen =>
        hkeeps hsevered t ht (keeps_of_unclosed_sever (m := m) ht hopen).2⟩
  spared := by
    intro c x hx hsevered
    obtain ⟨conn, hconn, ⟨⟨t, ht, rfl, hnot⟩, rfl⟩ | ⟨-, rfl⟩⟩ := conns_sever.mp hx
    · obtain ⟨y, hy, hat, hendpoint, hpromoted⟩ := h.linked.tracked t ht
      obtain rfl := Option.some.inj (hconn.symm.trans hy)
      refine ⟨by simp [hat, Handler.Served], ?_⟩
      cases huser : t.rosterUser.isSome with
      | true => exact .inl (hpromoted.trans huser)
      | false =>
          have hrevoked : install.view.isRevoked conn.endpoint = true := by
            rw [hendpoint]
            by_contra hlive
            exact hnot ⟨by simpa using hlive, fun hsome => by simp [huser] at hsome⟩
          obtain ⟨b, hb, hview⟩ :=
            exists_install_sever hinstall (List.mem_of_getElem? hinstall)
          exact .inr ⟨b, hb, hview ▸ hrevoked⟩
    · obtain ⟨hserved, hground⟩ := h.spared c x hconn hsevered
      refine ⟨hserved, hground.imp_right fun ⟨a, ha, hrevoked⟩ => ?_⟩
      obtain ⟨b, hb, hview⟩ := exists_install_sever hinstall ha
      exact ⟨b, hb, hview ▸ hrevoked⟩

/-- **The step lemma.** -/
theorem Inv.step (h : m.Inv) (hstep : MeshStep m m') : m'.Inv := by
  cases hstep with
  | accept c endpoint mesh hfree => exact h.accept hfree (by simp) rfl
  | resolveConn now c conn hconn hat =>
      unfold Mesh.resolveConn
      split <;> exact h.setConn hconn (by constructor <;> simp [hat]) rfl
  | captureRosterUser now c conn hconn hat =>
      exact h.setConn hconn (by constructor <;> simp [hat]) rfl
  | registerConn c conn rosterUser hconn hat => exact h.registerConn hconn hat
  | closeRefused c conn hconn hat => exact h.setConn hconn (by constructor <;> simp [hat]) rfl
  | close c conn hconn => exact h.setConn hconn (by constructor <;> simp) rfl
  | deregister c conn id hconn hat hdone => exact h.deregister hconn hat hdone
  | openStream s c conn id hfree hconn hat hmesh hopen =>
      obtain ⟨own, hown, hid, hc⟩ := h.linked.registered c conn id hconn hat
      refine h.setStream ⟨conn, hconn, hmesh, hid ▸ h.linked.ids own hown, fun t ht hsame => ?_,
        .inl hat, fun hadmitted => hadmitted.elim⟩
      rw [← hc, Keyed.eq_of_key ht hown (hsame.trans hid.symm)]
  | rosterBefore now s stream conn hstream hconn hat =>
      exact h.setStream ((h.linked.streams s stream hstream).phase fun hadmitted => hadmitted.elim)
  | resolveStream now s stream conn rosterBefore hstream hconn hat =>
      unfold Mesh.resolveStream
      split <;>
        exact h.setStream
          ((h.linked.streams s stream hstream).phase fun hadmitted => hadmitted.elim)
  | rosterAfter now s stream conn rosterBefore identity hstream hconn hat =>
      exact h.setStream ((h.linked.streams s stream hstream).phase fun hadmitted => hadmitted.elim)
  | loadPromoted s stream conn rosterUser identity hstream hconn hat =>
      have hserves := h.linked.streams s stream hstream
      unfold Mesh.loadPromoted
      split
      · exact h.setStream (hserves.phase fun hadmitted => by contradiction)
      · split
        · next hpromoted =>
          -- the lock-free path: the flag is already up
          refine h.setStream (hserves.phase fun _ x hx => ?_)
          obtain rfl := Option.some.inj (hconn.symm.trans hx)
          exact hpromoted
        · exact h.setStream (hserves.phase fun hadmitted => hadmitted.elim)
  | promoteStream s stream conn user identity hstream hconn hat =>
      exact h.promoteStream hstream hconn user identity
  | endStream s stream hstream =>
      exact h.setStream ((h.linked.streams s stream hstream).phase fun hadmitted => hadmitted.elim)
  | swap view => exact h.swap view
  | sever i install hinstall => exact h.sever hinstall
  | pairs pairs => exact ⟨h.linked.follows (.of_conns rfl rfl rfl), h.cleared, h.spared⟩
  | confirm lastConfirmed =>
      exact ⟨h.linked.follows (.of_conns rfl rfl rfl), h.cleared, h.spared⟩

end Installs

/-- A daemon before its first connection, with whatever roster it booted. -/
structure Idle (m : Mesh) : Prop where
  registry : m.registry.inner.items = []
  conns : ∀ c, m.conns c = none
  streams : ∀ s, m.streams s = none
  installs : m.installs = []

/-- An idle mesh owes nothing. -/
theorem Idle.inv {m : Mesh} (h : m.Idle) : m.Inv where
  linked :=
    { ids := fun t ht => absurd (h.registry ▸ ht) List.not_mem_nil
      tracked := fun t ht => absurd (h.registry ▸ ht) List.not_mem_nil
      registered := fun c conn id hconn => absurd ((h.conns c).symm.trans hconn) (by simp)
      streams := fun s stream hstream => absurd ((h.streams s).symm.trans hstream) (by simp) }
  cleared last hlast := by simp [h.installs] at hlast
  spared c conn hconn := absurd ((h.conns c).symm.trans hconn) (by simp)

end Mesh

/-- **Severing is complete** in every order of steps.  When the latest install
has done its pass, its view is the gate's; an open tracked connection is neither
revoked by it nor roster-resolved and dropped by it; a session admitted as
roster-resolved runs on an open connection only where the view has its device;
and a connection that was never roster-resolved and that no view revokes is
never closed by an install. -/
theorem sever_complete {m₀ m : Mesh} (hidle : m₀.Idle)
    (hrun : Relation.ReflTransGen MeshStep m₀ m) :
    (∀ last, m.installs.getLast? = some last → last.severed = true →
      m.gate.roster.view = some last.view ∧
        (∀ t ∈ m.registry.inner.items, m.Unclosed t.conn →
          last.view.isRevoked t.endpointId = false ∧
            (t.rosterUser.isSome → t.endpointId ∈ last.view.deviceEndpoints)) ∧
        ∀ s stream conn, m.streams s = some stream → stream.phase.RosterAdmitted →
          m.conns stream.conn = some conn → conn.closed = false →
            conn.endpoint ∈ last.view.deviceEndpoints) ∧
      ∀ c conn, m.conns c = some conn → conn.promoted = false →
        (∀ install ∈ m.installs, install.view.isRevoked conn.endpoint = false) →
          conn.severed = false := by
  have hinv : m.Inv := by
    induction hrun with
    | refl => exact hidle.inv
    | tail _ hstep ih => exact ih.step hstep
  constructor
  · intro last hlast hsevered
    obtain ⟨hview, hkeeps⟩ := hinv.cleared last hlast
    have hactive : ∀ t ∈ m.registry.inner.items, m.Unclosed t.conn → t.rosterUser.isSome →
        t.endpointId ∈ last.view.deviceEndpoints := by
      intro t ht hopen huser
      have hresolved := (hkeeps hsevered t ht hopen).2 huser
      rw [RosterView.mem_deviceEndpoints]
      exact Option.isSome_iff_ne_none.mp hresolved
    refine ⟨hview, fun t ht hopen => ⟨(hkeeps hsevered t ht hopen).1, hactive t ht hopen⟩, ?_⟩
    intro s stream conn hstream hadmitted hconn hopen
    obtain ⟨t, ht, hc, hendpoint, huser⟩ :=
      hinv.linked.tracked_of_admitted hstream hadmitted hconn hopen
    rw [← hendpoint]
    exact hactive t ht ⟨conn, hc ▸ hconn, hopen⟩ huser
  · intro c conn hconn hpromoted hlive
    cases hsevered : conn.severed with
    | false => rfl
    | true =>
        obtain hground | ⟨install, hmem, hrevoked⟩ := (hinv.spared c conn hconn hsevered).2
        · exact absurd (hpromoted.symm.trans hground) (by simp)
        · exact absurd ((hlive install hmem).symm.trans hrevoked) (by simp)

namespace Departure

def device : EndpointId := .replicate 32 1

def view (serial : Nat) (map : AList fun _ : EndpointId => ResolvedDevice) : RosterView where
  orgId := "acme"
  serial
  expiresAtEpoch := 1000
  revoked := ∅
  devices := { map, not_revoked := fun _ _ => Finset.notMem_empty _ }
  groups := []
  users := []

/-- The roster has one device. -/
def before : RosterView :=
  view 1 (AList.singleton device
    { userId := "alice", displayName := "Alice", groups := [], role := "primary",
      label := "laptop" })

/-- Its user has left. -/
def after : RosterView := view 2 ∅

def idle : Mesh where
  gate :=
    { roster := { view := some before, graceSecs := 1000, lastConfirmed := none,
                  maxStaleness := 2 ^ 63 - 1 }
      pairs := { revoked := fun _ => .ok none, peers := fun _ => .ok none
                 revokedUsers := fun _ => .ok none, fromSlice := fun _ => .error "eof" } }
  registry := { inner := .empty, seq := 0 }
  conns _ := none
  streams _ := none
  installs := []

def conn (handler : Handler) (promoted : Bool) : Conn :=
  { endpoint := device, mesh := true, handler, promoted, closed := false, severed := false }

def resolved : Mesh :=
  (idle.setConn 0 (conn .accepted false)).resolveConn 500 0 (conn .accepted false)

def registered : Mesh :=
  (resolved.setConn 0 (conn (.captured (some "alice")) false)).registerConn 0
    (conn (.captured (some "alice")) false) (some "alice")

/-- The new roster is swapped in, and the pass closes the connection. -/
def severed : Mesh := (registered.swap after).sever 0 { view := after, severed := false }

theorem run : Relation.ReflTransGen MeshStep idle severed := by
  have haccepted : Relation.ReflTransGen MeshStep idle (idle.setConn 0 (conn .accepted false)) :=
    .single (.accept 0 device true rfl)
  have hresolved : Relation.ReflTransGen MeshStep idle resolved :=
    haccepted.tail (.resolveConn 500 0 _ rfl rfl)
  have hcaptured := hresolved.tail (.captureRosterUser 500 0 (conn .resolved false) (by rfl) rfl)
  have hregistered : Relation.ReflTransGen MeshStep idle registered :=
    hcaptured.tail (.registerConn 0 _ (some "alice") (by rfl) (by rfl))
  exact (hregistered.tail (.swap after)).tail (.sever 0 _ (by rfl))

end Departure

theorem sever_complete_example :
    Departure.severed.registry.inner.items.length = 1 ∧
      ∀ t ∈ Departure.severed.registry.inner.items, t.rosterUser.isSome →
        ¬ Departure.severed.Unclosed t.conn := by
  refine ⟨by rfl, fun t ht huser hopen => ?_⟩
  have hcomplete := sever_complete ⟨rfl, fun _ => rfl, fun _ => rfl, rfl⟩ Departure.run
  obtain ⟨-, hkept, -⟩ := hcomplete.1 { view := Departure.after, severed := true } (by rfl) rfl
  exact absurd ((hkept t ht hopen).2 huser) (by simp [Departure.after, Departure.view,
    RosterView.deviceEndpoints])

end Mcpmesh
