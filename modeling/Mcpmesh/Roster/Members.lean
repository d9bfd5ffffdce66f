import Mcpmesh.Lib.Grouping
import Mcpmesh.Roster.Labels
import Mcpmesh.Roster.PresenceTable

/-!
# Mcpmesh.Roster.Members

The two reads of the installed roster (`roster_members` and `presence_peers` of
`node/src/daemon/status.rs`).

A member list is acted on: what it names is what an operator grants to or
revokes.  So it is the gate's own table: a device stands under a user exactly
when the gate resolves it to that user, and everyone of the document is there.
-/

namespace Mcpmesh

open Lib

structure RosterMemberDevice where
  label : String
  role : String
  principal : String
  online : Bool
  deriving DecidableEq, Repr

structure RosterMember where
  userId : String
  displayName : String
  groups : List String
  devices : List RosterMemberDevice
  deriving DecidableEq, Repr

structure RosterMembersResult where
  groups : List String
  users : List RosterMember
  deriving DecidableEq, Repr

structure PresencePeer where
  userId : String
  displayName : String
  groups : List String
  deviceLabel : String
  role : String
  online : Bool
  metadata : String
  deriving DecidableEq, Repr

/-- `RosterView::devices`; the order is that of no map. -/
def RosterView.activeDevices (v : RosterView) : List (EndpointId × ResolvedDevice) :=
  v.devices.map.entries.map fun e => (e.1, e.2)

/-- The device has a heartbeat that is not expired. -/
def PresenceTable.isOnline (table : PresenceTable) (now : Int) (eid : EndpointId) : Bool :=
  (table.active now).any fun e => e.1 = eid

namespace RosterMember

/-- The order of user ids. -/
def before (a b : String) : Bool := a < b

/-- A user without devices. -/
def ofUser (u : RosterMemberEntry) : RosterMember := ⟨u.userId, u.displayName, u.groups, []⟩

/-- The user that a device would make. -/
def ofDevice (e : EndpointId × ResolvedDevice) : RosterMember :=
  ⟨e.2.userId, e.2.displayName, e.2.groups, []⟩

def deviceRow (online : EndpointId → Bool) (e : EndpointId × ResolvedDevice) :
    RosterMemberDevice :=
  ⟨e.2.label, e.2.role, principal e.1, online e.1⟩

def push (online : EndpointId → Bool) (e : EndpointId × ResolvedDevice) (m : RosterMember) :
    RosterMember :=
  { m with devices := m.devices ++ [deviceRow online e] }

/-- Primary before mirror, then by label. -/
def deviceLe (a b : RosterMemberDevice) : Prop :=
  Dial.dialRoleRank a.role < Dial.dialRoleRank b.role ∨
    Dial.dialRoleRank a.role = Dial.dialRoleRank b.role ∧ a.label ≤ b.label

instance : DecidableRel deviceLe := fun _ _ => inferInstanceAs (Decidable (_ ∨ _ ∧ _))

def sortDevices (m : RosterMember) : RosterMember :=
  { m with devices := m.devices.insertionSort deviceLe }

/-- The users of the view. -/
def seed (users : List RosterMemberEntry) : List (String × RosterMember) :=
  users.foldl (fun rows u => upsert before u.userId (ofUser u) rows) []

end RosterMember

open RosterMember in
/-- `roster_members`, on what it reads. -/
def rosterMembers (view : Option RosterView) (table : PresenceTable) (now : Int) :
    RosterMembersResult :=
  match view with
  | none => ⟨[], []⟩
  | some v =>
      let byUser := v.activeDevices.foldl
        (fun rows e => editEntry before e.2.userId (ofDevice e) (push (table.isOnline now) e) rows)
        (seed v.users)
      ⟨v.groups, byUser.map fun r => r.2.sortDevices⟩

namespace PresencePeer

def peerLe (a b : PresencePeer) : Prop :=
  a.userId < b.userId ∨ a.userId = b.userId ∧
    (Dial.dialRoleRank a.role < Dial.dialRoleRank b.role ∨
      Dial.dialRoleRank a.role = Dial.dialRoleRank b.role ∧ a.deviceLabel ≤ b.deviceLabel)

instance : DecidableRel peerLe := fun _ _ => inferInstanceAs (Decidable (_ ∨ _ ∧ (_ ∨ _ ∧ _)))

end PresencePeer

/-- `presence_peers`, on what it reads. -/
def presencePeers (view : Option RosterView) (table : PresenceTable) (now : Int)
    (selfEid : EndpointId) (selfMeta : String) : List PresencePeer :=
  match view with
  | none => []
  | some v =>
      (v.activeDevices.map fun e =>
        { userId := e.2.userId
          displayName := e.2.displayName
          groups := e.2.groups
          deviceLabel := e.2.label
          role := e.2.role
          online := table.isOnline now e.1
          metadata :=
            if e.1 = selfEid then selfMeta
            else (((table.active now).find? fun a => a.1 = e.1).map fun a => a.2.metadata).getD ""
            : PresencePeer }).insertionSort PresencePeer.peerLe

/-! ## the view -/

section View

variable {P : Primitives} {roster : Roster} {expires : Int} {view : RosterView}

/-- The active devices are those that resolve. -/
theorem RosterView.mem_activeDevices {e : EndpointId × ResolvedDevice} :
    e ∈ view.activeDevices ↔ view.resolve e.1 = some e.2 := by
  rw [activeDevices, List.mem_map, resolve]
  constructor
  · rintro ⟨e', he', rfl⟩
    exact AList.mem_lookup_iff.mpr he'
  · exact fun h => ⟨⟨e.1, e.2⟩, AList.mem_lookup_iff.mp h, rfl⟩

/-- No endpoint is listed twice. -/
theorem RosterView.nodup_activeDevices (view : RosterView) :
    (view.activeDevices.map Prod.fst).Nodup := by
  have hkeys : view.activeDevices.map Prod.fst = view.devices.map.keys := by
    rw [activeDevices, List.map_map]
    rfl
  exact hkeys ▸ view.devices.map.keys_nodup

/-- Rule 5 lets no user id in twice. -/
theorem nodup_of_checkNamespace {groups seen : List String} {users : List RosterUser}
    (h : checkNamespace groups seen users = .ok ()) :
    (users.map (·.userId)).Nodup ∧ ∀ u ∈ users, u.userId ∉ seen := by
  induction users generalizing seen with
  | nil => exact ⟨List.nodup_nil, fun _ hu => absurd hu List.not_mem_nil⟩
  | cons u users ih =>
      rw [checkNamespace] at h
      split at h
      · contradiction
      · next hseen =>
        split at h
        · contradiction
        · split at h
          · contradiction
          · obtain ⟨hnodup, hrest⟩ := ih h
            refine ⟨List.nodup_cons.mpr ⟨fun hmem => ?_, hnodup⟩, fun u' hu' => ?_⟩
            · obtain ⟨u', hu', hsame⟩ := List.mem_map.mp hmem
              exact hrest u' hu' (hsame ▸ List.mem_cons_self)
            · obtain rfl | hu' := List.mem_cons.mp hu'
              · exact hseen
              · exact fun hmem => hrest u' hu' (List.mem_cons_of_mem _ hmem)

/-- The users of a view are those of its document, each once. -/
theorem users_of_buildView (hview : buildView P roster expires = .ok view) :
    view.users = roster.users.map memberEntry ∧ (view.users.map (·.userId)).Nodup := by
  obtain ⟨_, hnames, hrest⟩ := bind_eq_ok.mp hview
  obtain ⟨_, -, hrest⟩ := bind_eq_ok.mp hrest
  obtain ⟨_, -, hrest⟩ := bind_eq_ok.mp hrest
  obtain rfl := Except.ok.inj hrest
  refine ⟨rfl, ?_⟩
  rw [List.map_map]
  exact (nodup_of_checkNamespace hnames).1

/-- The owner of an active device is a user of the view, and the device carries
his name and groups. -/
theorem owner_of_buildView (hview : buildView P roster expires = .ok view)
    {e : EndpointId × ResolvedDevice} (he : e ∈ view.activeDevices) :
    ∃ u ∈ view.users, u.userId = e.2.userId ∧ u.displayName = e.2.displayName ∧
      u.groups = e.2.groups := by
  obtain ⟨-, u, d, hlisted, hr⟩ :=
    ((buildView_spec hview e.1).2 e.2).mp (RosterView.mem_activeDevices.mp he)
  refine ⟨memberEntry u, ?_, ?_⟩
  · rw [(users_of_buildView hview).1]
    exact List.mem_map_of_mem hlisted.1
  · rw [hr]
    exact ⟨rfl, rfl, rfl⟩

end View

/-! ## the member list -/

namespace RosterMember

variable {P : Primitives} {roster : Roster} {expires : Int} {view : RosterView}
  {online : EndpointId → Bool} {users : List RosterMemberEntry}

theorem before_asymm (a b : String) (h : before a b = true) : before b a = false :=
  decide_eq_false (String.lt_asymm (of_decide_eq_true h))

/-- The seed stands in the order of the user ids. -/
theorem pairwise_seed (users : List RosterMemberEntry) :
    (seed users).Pairwise fun r r' => before r.1 r'.1 = true := by
  have hfold (rows : List (String × RosterMember))
      (h : rows.Pairwise fun r r' => before r.1 r'.1 = true) :
      (users.foldl (fun rows u => upsert before u.userId (ofUser u) rows) rows).Pairwise
        fun r r' => before r.1 r'.1 = true := by
    induction users generalizing rows with
    | nil => exact h
    | cons u users ih =>
        refine ih _ (pairwise_upsert _ _ _ _ (fun a b c hab hbc => ?_) (fun a b hne hnot => ?_) h)
        · exact decide_eq_true (String.lt_trans (of_decide_eq_true hab) (of_decide_eq_true hbc))
        · have hle := String.not_lt.mp (of_decide_eq_false hnot)
          exact decide_eq_true (String.not_le.mp fun hge => hne (String.le_antisymm hge hle))
  exact hfold [] List.Pairwise.nil

/-- Each user has a row. -/
theorem seed_perm (hnodup : (users.map (·.userId)).Nodup) :
    (seed users).Perm (users.map fun u => (u.userId, ofUser u)) := by
  have hfold (rows : List (String × RosterMember))
      (hnew : ∀ u ∈ users, u.userId ∉ rows.map Prod.fst) :
      (users.foldl (fun rows u => upsert before u.userId (ofUser u) rows) rows).Perm
        ((users.map fun u => (u.userId, ofUser u)) ++ rows) := by
    induction users generalizing rows with
    | nil => exact List.Perm.refl _
    | cons u users ih =>
        obtain ⟨hu, hrest⟩ := List.nodup_cons.mp hnodup
        obtain ⟨hfresh, hnew⟩ := List.forall_mem_cons.mp hnew
        have hperm : (upsert before u.userId (ofUser u) rows).Perm
            ((u.userId, ofUser u) :: rows) := upsert_perm_cons hfresh
        refine (ih hrest _ fun u' hu' hmem => ?_).trans ?_
        · obtain hsame | hmem := List.mem_cons.mp ((hperm.map Prod.fst).mem_iff.mp hmem)
          · exact hu (List.mem_map.mpr ⟨u', hu', hsame⟩)
          · exact hnew u' hu' hmem
        · exact (hperm.append_left _).trans List.perm_middle
  have hall := hfold [] fun _ _ => List.not_mem_nil
  rwa [List.append_nil] at hall

/-- The pushes of one user append its devices. -/
theorem foldl_push (es : List (EndpointId × ResolvedDevice)) (m : RosterMember) :
    es.foldl (fun m e => push online e m) m =
      { m with devices := m.devices ++ es.map (deviceRow online) } := by
  induction es generalizing m with
  | nil => rw [List.foldl_nil, List.map_nil, List.append_nil]
  | cons e es ih =>
      rw [List.foldl_cons, ih, push, List.map_cons, List.append_assoc]
      rfl

/-- A user as he is listed. -/
def listed (view : RosterView) (online : EndpointId → Bool) (u : RosterMemberEntry) :
    RosterMember :=
  { ofUser u with
    devices := ((view.activeDevices.filter (·.2.userId = u.userId)).map
      (deviceRow online)).insertionSort deviceLe }

/-- The rows are those of the users, in the order of their ids. -/
theorem users_rosterMembers (hview : buildView P roster expires = .ok view)
    (table : PresenceTable) (now : Int) :
    (rosterMembers (some view) table now).users =
      (seed view.users).map fun r =>
        sortDevices { r.2 with
          devices := r.2.devices ++ (view.activeDevices.filter (·.2.userId = r.1)).map
            (deviceRow (table.isOnline now)) } := by
  have howned : ∀ e ∈ view.activeDevices, e.2.userId ∈ (seed view.users).map Prod.fst := by
    intro e he
    obtain ⟨u, hu, hsame, -⟩ := owner_of_buildView hview he
    refine ((seed_perm (users_of_buildView hview).2).map Prod.fst).mem_iff.mpr ?_
    rw [List.map_map]
    exact List.mem_map.mpr ⟨u, hu, hsame⟩
  rw [rosterMembers]
  dsimp only
  rw [foldl_editEntry _ ofDevice (push (table.isOnline now)) before_asymm
    (pairwise_seed view.users) howned, List.map_map]
  refine List.map_congr_left fun r _ => ?_
  rw [Function.comp_apply, foldl_push]

/-- The listing is that of the roster's users. -/
theorem users_perm (hview : buildView P roster expires = .ok view) (table : PresenceTable)
    (now : Int) : (rosterMembers (some view) table now).users.Perm
      (view.users.map (listed view (table.isOnline now))) := by
  rw [users_rosterMembers hview]
  refine ((seed_perm (users_of_buildView hview).2).map _).trans ?_
  rw [List.map_map]
  exact List.Perm.refl _

/-- The devices of all users are the active ones, each once and with what its
owner is listed with. -/
theorem devices_perm (hview : buildView P roster expires = .ok view) (table : PresenceTable)
    (now : Int) :
    ((rosterMembers (some view) table now).users.flatMap fun m =>
      m.devices.map fun d => (m.userId, m.displayName, m.groups, d)).Perm
      (view.activeDevices.map fun e =>
        (e.2.userId, e.2.displayName, e.2.groups, deviceRow (table.isOnline now) e)) := by
  have hnodup := (users_of_buildView hview).2
  have hrow : ∀ u ∈ view.users,
      ((listed view (table.isOnline now) u).devices.map fun d =>
        (u.userId, u.displayName, u.groups, d)).Perm
      ((view.activeDevices.filter (·.2.userId = u.userId)).map fun e =>
        (e.2.userId, e.2.displayName, e.2.groups, deviceRow (table.isOnline now) e)) := by
    intro u hu
    refine ((List.perm_insertionSort deviceLe _).map _).trans (List.Perm.of_eq ?_)
    rw [List.map_map]
    refine List.map_congr_left fun e he => ?_
    obtain ⟨he, howner⟩ := List.mem_filter.mp he
    obtain ⟨u', hu', hid, hname, hgroups⟩ := owner_of_buildView hview he
    have hsame : u' = u := List.inj_on_of_nodup_map hnodup hu' hu
      (hid.trans (of_decide_eq_true howner))
    obtain rfl := hsame
    rw [Function.comp_apply, hid, hname, hgroups]
  refine ((users_perm hview table now).flatMap_right _).trans ?_
  rw [List.flatMap_map]
  refine (List.Perm.flatMap_left view.users hrow).trans ?_
  have hsplit : (view.users.flatMap fun u =>
      (view.activeDevices.filter (·.2.userId = u.userId)).map fun e =>
        (e.2.userId, e.2.displayName, e.2.groups, deviceRow (table.isOnline now) e)) =
      (((view.users.map (·.userId)).flatMap fun k =>
        view.activeDevices.filter (·.2.userId = k)).map fun e =>
        (e.2.userId, e.2.displayName, e.2.groups, deviceRow (table.isOnline now) e)) := by
    rw [List.flatMap_map, List.map_flatMap]
  rw [hsplit]
  refine (flatMap_filter_perm (fun e : EndpointId × ResolvedDevice => e.2.userId) hnodup
    fun e he => ?_).map _
  obtain ⟨u, hu, hsame, -⟩ := owner_of_buildView hview he
  exact List.mem_map.mpr ⟨u, hu, hsame⟩

/-- A row of the listing is a user's. -/
theorem mem_users (hview : buildView P roster expires = .ok view) {table : PresenceTable}
    {now : Int} {m : RosterMember} : m ∈ (rosterMembers (some view) table now).users ↔
      ∃ u ∈ view.users, m = listed view (table.isOnline now) u := by
  rw [(users_perm hview table now).mem_iff, List.mem_map]
  exact exists_congr fun u => and_congr_right fun _ => eq_comm

/-- A device of a row is one that resolves to the user. -/
theorem mem_listed {u : RosterMemberEntry} {d : RosterMemberDevice} :
    d ∈ (listed view online u).devices ↔ ∃ eid r, view.resolve eid = some r ∧
      r.userId = u.userId ∧ d = deviceRow online (eid, r) := by
  rw [listed, List.mem_insertionSort, List.mem_map]
  constructor
  · rintro ⟨e, he, rfl⟩
    obtain ⟨he, howner⟩ := List.mem_filter.mp he
    exact ⟨e.1, e.2, RosterView.mem_activeDevices.mp he, of_decide_eq_true howner, rfl⟩
  · rintro ⟨eid, r, hresolve, howner, rfl⟩
    have he : (eid, r) ∈ view.activeDevices := RosterView.mem_activeDevices.mpr hresolve
    exact ⟨(eid, r), List.mem_filter.mpr ⟨he, decide_eq_true howner⟩, rfl⟩

/-- **The member list is the gate's table**: it has the users of the document,
each once and in the order of their ids, the devices under a user are those that
resolve to him, no device stands in it twice, and a revoked one does not stand
in it. -/
theorem members_are_the_gate (hview : buildView P roster expires = .ok view)
    (table : PresenceTable) (now : Int) :
    (rosterMembers (some view) table now).users.Pairwise (fun m m' => m.userId < m'.userId) ∧
    ((rosterMembers (some view) table now).users.map fun m =>
      (m.userId, m.displayName, m.groups)).Perm
      (roster.users.map fun u => (u.userId, u.displayName, u.groups)) ∧
    (∀ m ∈ (rosterMembers (some view) table now).users, ∀ d, d ∈ m.devices ↔
      ∃ eid r, view.resolve eid = some r ∧ r.userId = m.userId ∧
        d = deviceRow (table.isOnline now) (eid, r)) ∧
    ((rosterMembers (some view) table now).users.flatMap fun m =>
      m.devices.map (·.principal)).Nodup ∧
    ∀ eid, RevokesEndpoint P roster eid →
      ∀ m ∈ (rosterMembers (some view) table now).users, ∀ d ∈ m.devices,
        d.principal ≠ principal eid := by
  have hdevices : ∀ m ∈ (rosterMembers (some view) table now).users, ∀ d, d ∈ m.devices ↔
      ∃ eid r, view.resolve eid = some r ∧ r.userId = m.userId ∧
        d = deviceRow (table.isOnline now) (eid, r) := by
    intro m hm d
    obtain ⟨u, -, rfl⟩ := (mem_users hview).mp hm
    exact mem_listed
  refine ⟨?_, ?_, hdevices, ?_, fun eid hrevoked m hm d hd hsame => ?_⟩
  · rw [users_rosterMembers hview, List.pairwise_map]
    refine (pairwise_seed view.users).imp_of_mem fun {r r'} hr hr' hbefore => ?_
    have hrow : ∀ r ∈ seed view.users, r.2.userId = r.1 := by
      intro r hr
      obtain ⟨u, -, rfl⟩ :=
        List.mem_map.mp ((seed_perm (users_of_buildView hview).2).mem_iff.mp hr)
      rfl
    have hlt : r.1 < r'.1 := of_decide_eq_true hbefore
    rw [← hrow r hr, ← hrow r' hr'] at hlt
    exact hlt
  · refine ((users_perm hview table now).map _).trans ?_
    rw [List.map_map, (users_of_buildView hview).1, List.map_map]
    exact List.Perm.refl _
  · have hprincipals := (devices_perm hview table now).map fun x => x.2.2.2.principal
    rw [List.map_flatMap, List.map_map] at hprincipals
    have hlist : ((rosterMembers (some view) table now).users.flatMap fun m =>
        m.devices.map (·.principal)).Perm (view.activeDevices.map fun e => principal e.1) := by
      simp only [List.map_map] at hprincipals
      exact hprincipals
    refine hlist.nodup_iff.mpr ?_
    have hkeys := view.nodup_activeDevices.map fun _ _ h => principal_injective h
    rwa [List.map_map] at hkeys
  · obtain ⟨eid', r, hresolve, -, rfl⟩ := (hdevices m hm d).mp hd
    obtain rfl := principal_injective hsame
    exact (((buildView_spec hview eid').2 r).mp hresolve).1 hrevoked

/-- The view of Alice's three devices. -/
theorem built : ∃ view, buildView (Instance.primitives [] []) Laptops.roster 0 = .ok view := by
  have hok : (buildView (Instance.primitives [] []) Laptops.roster 0).toOption.isSome = true := by
    decide +kernel
  cases hview : buildView (Instance.primitives [] []) Laptops.roster 0 with
  | error e =>
      rw [hview] at hok
      exact absurd hok Bool.false_ne_true
  | ok view => exact ⟨view, rfl⟩

theorem members_are_the_gate_example :
    ∃ view, buildView (Instance.primitives [] []) Laptops.roster 0 = .ok view ∧
      ((rosterMembers (some view) ∅ 0).users.map fun m =>
        (m.userId, m.displayName, m.groups)).Perm [("alice", "Alice", ["team-eng"])] := by
  obtain ⟨view, hview⟩ := built
  have husers : (Laptops.roster.users.map fun u => (u.userId, u.displayName, u.groups)) =
      [("alice", "Alice", ["team-eng"])] := by decide +kernel
  obtain ⟨-, hlist, -⟩ := members_are_the_gate hview ∅ 0
  exact ⟨view, hview, husers ▸ hlist⟩

/-- **The two reads agree**: the presence list has the devices of the member list,
with the same names, groups and presence. -/
theorem two_reads_agree (hview : buildView P roster expires = .ok view)
    (table : PresenceTable) (now : Int) (selfEid : EndpointId) (selfMeta : String) :
    ((presencePeers (some view) table now selfEid selfMeta).map fun p =>
      (p.userId, p.displayName, p.groups, p.deviceLabel, p.role, p.online)).Perm
      ((rosterMembers (some view) table now).users.flatMap fun m =>
        m.devices.map fun d =>
          (m.userId, m.displayName, m.groups, d.label, d.role, d.online)) := by
  have hmembers := (devices_perm hview table now).map fun x =>
    (x.1, x.2.1, x.2.2.1, x.2.2.2.label, x.2.2.2.role, x.2.2.2.online)
  rw [List.map_flatMap, List.map_map] at hmembers
  refine ((List.perm_insertionSort PresencePeer.peerLe _).map _).trans ?_
  rw [List.map_map]
  refine hmembers.symm.trans (List.Perm.of_eq ?_)
  simp only [List.map_map]
  rfl

theorem two_reads_agree_example :
    ∃ view, buildView (Instance.primitives [] []) Laptops.roster 0 = .ok view ∧
      ((presencePeers (some view) ∅ 0 (.replicate 32 1) "").map fun p =>
        (p.userId, p.displayName, p.groups, p.deviceLabel, p.role, p.online)).Perm
        ((rosterMembers (some view) ∅ 0).users.flatMap fun m =>
          m.devices.map fun d =>
            (m.userId, m.displayName, m.groups, d.label, d.role, d.online)) := by
  obtain ⟨view, hview⟩ := built
  exact ⟨view, hview, two_reads_agree hview ∅ 0 (.replicate 32 1) ""⟩

end RosterMember

end Mcpmesh
