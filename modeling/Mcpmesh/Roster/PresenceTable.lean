import Mcpmesh.Dial.Candidates
import Mcpmesh.Lib.AssocMap
import Mcpmesh.Trust.Heartbeat

/-!
# Mcpmesh.Roster.PresenceTable

The advisory table of the heartbeats heard (`node/src/roster/presence.rs`).

Gossip brings a heartbeat late, twice or not at all, and out of order.  The
table keeps, for each endpoint, the first of the freshest that were accepted
(`lookup_track`), so two nodes that accepted the same heartbeats agree.
-/

namespace Mcpmesh

open Lib

namespace PresenceTable

/-- `PresenceEntry`. -/
structure Entry where
  userId : String
  ts : Int
  metadata : String

end PresenceTable

/-- The table; the order of its entries is that of no map. -/
abbrev PresenceTable := AList fun _ : EndpointId => PresenceTable.Entry

/-- What a turn of the track loop reads: the payload, if it parses, the clock and
the installed view. -/
structure Received where
  payload : Option Heartbeat
  now : Int
  view : Option RosterView

/-- `PRESENCE_TTL_SECS`. -/
def presenceTtlSecs : Int := 180

namespace PresenceTable

/-- Keep the freshest. -/
def record (table : PresenceTable) (eid : EndpointId) (entry : Entry) : PresenceTable :=
  match table.lookup eid with
  | some old => if entry.ts ≤ old.ts then table else table.insert eid entry
  | none => table.insert eid entry

/-- The entries that are not expired. -/
def active (table : PresenceTable) (now : Int) : List (EndpointId × Entry) :=
  (table.entries.map fun e => (e.1, e.2)).filter fun e => now - e.2.ts < presenceTtlSecs

/-- The table as a dial reads it. -/
def forDial (table : PresenceTable) : List (EndpointId × Dial.PresenceEntry) :=
  table.entries.map fun e => (e.1, ⟨e.2.userId, e.2.ts⟩)

section Track

variable (P : Primitives)

/-- The heartbeat that a turn accepts, with its endpoint. -/
def accepted (r : Received) : Option (EndpointId × Entry) := do
  let beat ← r.payload
  let view ← r.view
  let eid ← beat.accept P r.now view
  pure (eid, ⟨beat.userId, beat.ts, beat.metadata⟩)

/-- A turn of `track_loop`. -/
def track (table : PresenceTable) (r : Received) : PresenceTable :=
  match r.payload with
  | none => table
  | some beat =>
      match r.view with
      | none => table
      | some view =>
          match beat.accept P r.now view with
          | some eid => table.record eid ⟨beat.userId, beat.ts, beat.metadata⟩
          | none => table

/-- `track_loop`. -/
def trackLoop (table : PresenceTable) (heard : List Received) : PresenceTable :=
  heard.foldl (track P) table

/-- What was accepted of an endpoint. -/
def acceptedOf (heard : List Received) (eid : EndpointId) : List Entry :=
  (heard.filterMap (accepted P)).filterMap fun e => if e.1 = eid then some e.2 else none

end Track

/-! ## what the table holds -/

variable {P : Primitives} {heard heard' : List Received} {r : Received} {eid : EndpointId}
  {entry : Entry} {table : PresenceTable}

/-- The entry is one of these, and no other is fresher. -/
def Freshest (entries : List Entry) (entry : Entry) : Prop :=
  entry ∈ entries ∧ ∀ other ∈ entries, other.ts ≤ entry.ts

/-- The cell of an endpoint holds the freshest of what was accepted. -/
def Holds (entries : List Entry) : Option Entry → Prop
  | some entry => Freshest entries entry
  | none => entries = []

/-- A heartbeat that is not accepted leaves the table. -/
theorem track_eq (table : PresenceTable) (r : Received) :
    track P table r = match accepted P r with
      | some e => table.record e.1 e.2
      | none => table := by
  unfold track accepted
  cases r.payload with
  | none => rfl
  | some beat =>
      cases r.view with
      | none => rfl
      | some view => cases haccept : beat.accept P r.now view <;> simp [haccept]

/-- What a heartbeat adds to the accepted ones of an endpoint. -/
theorem acceptedOf_snoc : acceptedOf P (heard ++ [r]) eid =
    acceptedOf P heard eid ++ match accepted P r with
      | some e => if e.1 = eid then [e.2] else []
      | none => [] := by
  unfold acceptedOf
  rw [List.filterMap_append, List.filterMap_append]
  congr 1
  cases haccepted : accepted P r with
  | none => simp [haccepted]
  | some e => by_cases heid : e.1 = eid <;> simp [haccepted, heid]

/-- The freshest of the accepted is held still when one more is recorded. -/
theorem holds_record {entries : List Entry} (h : Holds entries (table.lookup eid)) :
    Holds (entries ++ [entry]) ((table.record eid entry).lookup eid) := by
  have hkept {old : Entry} (hold : Freshest entries old) (hle : entry.ts ≤ old.ts) :
      Freshest (entries ++ [entry]) old := by
    refine ⟨List.mem_append_left _ hold.1, fun other hother => ?_⟩
    obtain hother | hother := List.mem_append.mp hother
    · exact hold.2 other hother
    · exact List.mem_singleton.mp hother ▸ hle
  have hnew (hle : ∀ other ∈ entries, other.ts ≤ entry.ts) :
      Freshest (entries ++ [entry]) entry := by
    refine ⟨List.mem_append_right _ (List.mem_singleton_self _), fun other hother => ?_⟩
    obtain hother | hother := List.mem_append.mp hother
    · exact hle other hother
    · exact List.mem_singleton.mp hother ▸ Int.le_refl _
  unfold record
  cases hlookup : table.lookup eid with
  | none =>
      rw [hlookup] at h
      obtain rfl : entries = [] := h
      dsimp only
      rw [AList.lookup_insert]
      exact hnew nofun
  | some old =>
      rw [hlookup] at h
      dsimp only
      split
      · next hle =>
        rw [hlookup]
        exact hkept h hle
      · next hlt =>
        rw [AList.lookup_insert]
        exact hnew fun other hother =>
          Int.le_trans (h.2 other hother) (Int.le_of_lt (Int.not_le.mp hlt))

/-- A record leaves the rows of other endpoints. -/
theorem lookup_record_of_ne {eid' : EndpointId} (h : eid ≠ eid') :
    (table.record eid' entry).lookup eid = table.lookup eid := by
  unfold record
  split
  · split
    · rfl
    · exact AList.lookup_insert_ne h
  · exact AList.lookup_insert_ne h

/-- **The table holds the freshest**: of each endpoint, the freshest heartbeat
that was accepted, in whatever order they came. -/
theorem holds_trackLoop (heard : List Received) (eid : EndpointId) :
    Holds (acceptedOf P heard eid) ((trackLoop P ∅ heard).lookup eid) := by
  induction heard using List.reverseRecOn with
  | nil => exact rfl
  | append_singleton heard r ih =>
      rw [trackLoop, List.foldl_append, List.foldl_cons, List.foldl_nil, track_eq, acceptedOf_snoc]
      change Holds _ ((match accepted P r with
        | some e => (trackLoop P ∅ heard).record e.1 e.2
        | none => trackLoop P ∅ heard).lookup eid)
      cases haccepted : accepted P r with
      | none =>
          dsimp only
          rw [List.append_nil]
          exact ih
      | some e =>
          dsimp only
          split
          · next heid => exact heid ▸ holds_record (heid ▸ ih)
          · next heid =>
            rw [List.append_nil, lookup_record_of_ne (Ne.symm heid)]
            exact ih

/-- An entry is among the accepted if a received heartbeat carried it. -/
theorem mem_acceptedOf : entry ∈ acceptedOf P heard eid ↔
    ∃ r ∈ heard, accepted P r = some (eid, entry) := by
  simp only [acceptedOf, List.mem_filterMap]
  constructor
  · rintro ⟨e, ⟨r, hr, haccepted⟩, heid⟩
    split at heid
    · next h =>
      obtain rfl := Option.some.inj heid
      exact ⟨r, hr, h ▸ haccepted⟩
    · contradiction
  · rintro ⟨r, hr, haccepted⟩
    exact ⟨(eid, entry), ⟨r, hr, haccepted⟩, if_pos rfl⟩

/-- The row of an endpoint is the freshest accepted of it. -/
theorem freshest_of_lookup (h : (trackLoop P ∅ heard).lookup eid = some entry) :
    Freshest (acceptedOf P heard eid) entry := by
  have hholds := holds_trackLoop (P := P) heard eid
  rw [h] at hholds
  exact hholds

/-- **Nodes that accepted the same heartbeats agree**, in whatever order and
however often these came, as long as no device signs two in one second. -/
theorem tables_converge
    (hsame : ∀ eid entry, entry ∈ acceptedOf P heard eid ↔ entry ∈ acceptedOf P heard' eid)
    (hstamps : ∀ eid, ∀ a ∈ acceptedOf P heard eid, ∀ b ∈ acceptedOf P heard eid,
      a.ts = b.ts → a = b) (eid : EndpointId) :
    (trackLoop P ∅ heard).lookup eid = (trackLoop P ∅ heard').lookup eid := by
  have h := holds_trackLoop (P := P) heard eid
  have h' := holds_trackLoop (P := P) heard' eid
  cases hlookup : (trackLoop P ∅ heard).lookup eid with
  | none =>
      rw [hlookup] at h
      cases hlookup' : (trackLoop P ∅ heard').lookup eid with
      | none => rfl
      | some entry' =>
          rw [hlookup'] at h'
          have hmem := (hsame eid entry').mpr h'.1
          rw [show acceptedOf P heard eid = [] from h] at hmem
          contradiction
  | some entry =>
      rw [hlookup] at h
      cases hlookup' : (trackLoop P ∅ heard').lookup eid with
      | none =>
          rw [hlookup'] at h'
          have hmem := (hsame eid entry).mp h.1
          rw [show acceptedOf P heard' eid = [] from h'] at hmem
          contradiction
      | some entry' =>
          rw [hlookup'] at h'
          have hmem' := (hsame eid entry').mpr h'.1
          have hts : entry.ts = entry'.ts :=
            Int.le_antisymm (h'.2 entry ((hsame eid entry).mp h.1)) (h.2 entry' hmem')
          rw [hstamps eid entry h.1 entry' hmem' hts]

/-- What an accepted heartbeat is. -/
theorem of_accepted (h : accepted P r = some (eid, entry)) :
    ∃ beat view, r.payload = some beat ∧ r.view = some view ∧
      beat.accept P r.now view = some eid ∧
      entry = ⟨beat.userId, beat.ts, beat.metadata⟩ ∧
      (view.resolve eid).map (·.userId) = some entry.userId := by
  simp only [accepted, Option.bind_eq_bind, Option.bind_eq_some_iff, Option.pure_def,
    Option.some.injEq, Prod.mk.injEq] at h
  obtain ⟨beat, hbeat, view, hview, eid', haccept, rfl, rfl⟩ := h
  exact ⟨beat, view, hbeat, hview, haccept, rfl, (Heartbeat.of_accept haccept).2⟩

/-- What a dial sees of a row. -/
theorem mem_forDial {entry : Dial.PresenceEntry} : (eid, entry) ∈ table.forDial ↔
    ∃ e, table.lookup eid = some e ∧ entry = ⟨e.userId, e.ts⟩ := by
  simp only [forDial, List.mem_map]
  constructor
  · rintro ⟨⟨eid', e⟩, he, heq⟩
    obtain ⟨rfl, rfl⟩ := Prod.mk.inj heq
    exact ⟨e, AList.mem_lookup_iff.mpr he, rfl⟩
  · rintro ⟨e, he, rfl⟩
    exact ⟨⟨eid, e⟩, AList.mem_lookup_iff.mp he, rfl⟩

/-- A dial sees each endpoint once. -/
theorem nodup_forDial (table : PresenceTable) : (table.forDial.map (·.1)).Nodup := by
  have hkeys : table.forDial.map (·.1) = table.keys := by
    rw [forDial, List.map_map]
    rfl
  exact hkeys ▸ table.keys_nodup

/-- The relation that sorts a dial's endpoints. -/
abbrev fresherFirst (a b : EndpointId × Dial.PresenceEntry) : Prop := b.2.ts ≤ a.2.ts

instance : Std.Total fresherFirst := ⟨fun a b => Int.le_total b.2.ts a.2.ts⟩

instance : IsTrans _ fresherFirst := ⟨fun _ _ _ hab hbc => Int.le_trans hbc hab⟩

/-- **The dial order follows the heartbeats**: the endpoints of a user are those
whose freshest accepted heartbeat names him, each once, the freshest first; and
when it was accepted, the roster said whose device it is.  The table is read in
the order of a hash map. -/
theorem recency_follows_heartbeats (mesh : Dial.MeshState) (userId : String)
    (hpresence : mesh.presence.Perm (trackLoop P ∅ heard).forDial) :
    (mesh.endpointsForUserByRecency userId).Nodup ∧
    (∀ eid, eid ∈ mesh.endpointsForUserByRecency userId ↔
      ∃ entry, (trackLoop P ∅ heard).lookup eid = some entry ∧ entry.userId = userId) ∧
    (mesh.endpointsForUserByRecency userId).Pairwise (fun a b => ∀ x y,
      Freshest (acceptedOf P heard a) x → Freshest (acceptedOf P heard b) y → y.ts ≤ x.ts) ∧
    ∀ eid entry, (trackLoop P ∅ heard).lookup eid = some entry →
      Freshest (acceptedOf P heard eid) entry ∧ ∃ r ∈ heard, accepted P r = some (eid, entry) ∧
        ∃ view, r.view = some view ∧ (view.resolve eid).map (·.userId) = some entry.userId := by
  have hmem (e : EndpointId × Dial.PresenceEntry) :
      e ∈ (mesh.presence.filter (·.2.userId = userId)).insertionSort fresherFirst ↔
        ∃ entry, (trackLoop P ∅ heard).lookup e.1 = some entry ∧ e.2 = ⟨entry.userId, entry.ts⟩ ∧
          entry.userId = userId := by
    rw [List.mem_insertionSort, List.mem_filter, hpresence.mem_iff]
    constructor
    · rintro ⟨he, huser⟩
      obtain ⟨entry, hentry, heq⟩ := mem_forDial.mp he
      refine ⟨entry, hentry, heq, ?_⟩
      rw [heq] at huser
      exact of_decide_eq_true huser
    · rintro ⟨entry, hentry, heq, huser⟩
      refine ⟨mem_forDial.mpr ⟨entry, hentry, heq⟩, decide_eq_true ?_⟩
      rw [heq]
      exact huser
  have hts {eid : EndpointId} {entry x : Entry}
      (hentry : (trackLoop P ∅ heard).lookup eid = some entry)
      (hx : Freshest (acceptedOf P heard eid) x) : x.ts = entry.ts :=
    have h := freshest_of_lookup hentry
    Int.le_antisymm (h.2 x hx.1) (hx.2 entry h.1)
  refine ⟨?_, fun eid => ?_, ?_, fun eid entry hentry => ?_⟩
  · refine (((List.perm_insertionSort ..).map _).nodup_iff).mpr ?_
    have hnodup : (mesh.presence.map (·.1)).Nodup :=
      (hpresence.map _).nodup_iff.mpr (nodup_forDial _)
    exact hnodup.sublist (List.filter_sublist.map _)
  · constructor
    · intro heid
      obtain ⟨e, he, rfl⟩ := List.mem_map.mp heid
      obtain ⟨entry, hentry, -, huser⟩ := (hmem e).mp he
      exact ⟨entry, hentry, huser⟩
    · rintro ⟨entry, hentry, huser⟩
      exact List.mem_map.mpr ⟨(eid, ⟨entry.userId, entry.ts⟩),
        (hmem _).mpr ⟨entry, hentry, rfl, huser⟩, rfl⟩
  · refine List.pairwise_map.mpr ((List.pairwise_insertionSort fresherFirst _).imp_of_mem ?_)
    intro a b ha hb hle x y hx hy
    obtain ⟨entryA, hentryA, heqA, -⟩ := (hmem a).mp ha
    obtain ⟨entryB, hentryB, heqB, -⟩ := (hmem b).mp hb
    rw [hts hentryA hx, hts hentryB hy]
    have hle : b.2.ts ≤ a.2.ts := hle
    rw [heqA, heqB] at hle
    exact hle
  · have h := freshest_of_lookup hentry
    obtain ⟨r, hr, haccepted⟩ := mem_acceptedOf.mp h.1
    obtain ⟨beat, view, -, hview, -, -, huser⟩ := of_accepted haccepted
    exact ⟨h, r, hr, haccepted, view, hview, huser⟩

/-! ### a heartbeat heard twice -/

namespace Example

def alice : Received := ⟨some TwoCuts.beat, Instance.now, some TwoCuts.view⟩

def aliceEntry : Entry := ⟨"alice", Instance.now, TwoCuts.beat.metadata⟩

/-- An empty pair table. -/
def store : PeerStore where
  revoked _ := .ok none
  peers _ := .ok none
  revokedUsers _ := .ok none
  fromSlice _ := .error "expected value"

theorem accepted_alice : accepted TwoCuts.primitives alice = some (TwoCuts.phone, aliceEntry) := by
  have haccept : TwoCuts.beat.accept TwoCuts.primitives Instance.now TwoCuts.view =
      some TwoCuts.phone := by decide +kernel
  simp only [accepted, alice, Option.bind_eq_bind, Option.bind_some, haccept]
  rfl

theorem mem_acceptedOf_heard {received : List Received} (hall : ∀ r ∈ received, r = alice)
    (hne : received ≠ []) (eid : EndpointId) (e : Entry) :
    e ∈ acceptedOf TwoCuts.primitives received eid ↔ TwoCuts.phone = eid ∧ aliceEntry = e := by
  rw [mem_acceptedOf]
  constructor
  · rintro ⟨r, hr, haccepted⟩
    rw [hall r hr, accepted_alice] at haccepted
    exact Prod.mk.inj (Option.some.inj haccepted)
  · rintro ⟨rfl, rfl⟩
    obtain ⟨r, hr⟩ := List.exists_mem_of_ne_nil received hne
    exact ⟨r, hr, hall r hr ▸ accepted_alice⟩

end Example

open Example in
theorem tables_converge_example :
    (trackLoop TwoCuts.primitives ∅ [alice]).lookup TwoCuts.phone =
      (trackLoop TwoCuts.primitives ∅ [alice, alice]).lookup TwoCuts.phone := by
  have honce := @mem_acceptedOf_heard [alice] (by simp) nofun
  have htwice := @mem_acceptedOf_heard [alice, alice] (by simp) nofun
  refine tables_converge (fun eid e => (honce eid e).trans (htwice eid e).symm) ?_ _
  intro eid a ha b hb _
  exact ((honce eid a).mp ha).2.symm.trans ((honce eid b).mp hb).2

open Example in
theorem recency_follows_heartbeats_example : ∃ mesh : Dial.MeshState,
    mesh.presence.Perm (trackLoop TwoCuts.primitives ∅ [alice]).forDial ∧
      TwoCuts.phone ∈ mesh.endpointsForUserByRecency "alice" := by
  have hlookup :
      (trackLoop TwoCuts.primitives ∅ [alice]).lookup TwoCuts.phone = some aliceEntry := by
    simp only [trackLoop, List.foldl_cons, List.foldl_nil, track_eq, accepted_alice]
    rfl
  refine ⟨{ store := Example.store, peerRows := .ok [], view := none, keepAliveSecs := 5
            presence := (trackLoop TwoCuts.primitives ∅ [alice]).forDial }, .rfl, ?_⟩
  exact ((recency_follows_heartbeats _ "alice" .rfl).2.1 TwoCuts.phone).mpr
    ⟨aliceEntry, hlookup, rfl⟩

end PresenceTable

end Mcpmesh
