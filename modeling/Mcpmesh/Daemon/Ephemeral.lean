import Mcpmesh.Daemon.Registry
import Mcpmesh.Lib.Counts

/-!
# Mcpmesh.Daemon.Ephemeral

Whose an ephemeral service is (`node/src/control.rs`,
`node/src/daemon/handlers.rs`).

The registrations stand in one map under their names, and a control connection
keeps a list of the names it registers.  A request puts its name on the list
before it runs, an answer that is an error takes the last occurrence off again,
and the close of the connection unregisters every name on the list.

The requests of a connection are tasks, which are dropped when it closes; one
that is being polled then goes on to its next await.  An ephemeral registration
has a single one, the lock.
-/

namespace Mcpmesh

open Lib

/-! ## the node -/

inductive ConnPhase where
  | serving
  /-- the loop has ended, and its tasks are dropped -/
  | closed
  /-- `unregister_ephemeral` waits for the lock -/
  | tearing (names : List String)
  | torn
  deriving DecidableEq

/-- A control connection; `held` is its `ephemeral_registered`. -/
structure ControlConn where
  held : List String
  phase : ConnPhase
  deriving DecidableEq

inductive RegisterPhase where
  /-- `none` where the parameters do not parse -/
  | waiting (service : Option EphemeralService)
  | answering (failed : Bool)
  | done

/-- A `register_service` request for an ephemeral name. -/
structure RegisterTask where
  conn : Nat
  name : String
  phase : RegisterPhase

/-- `removing` is the `unregister_service` that holds the lock, with whether it
dropped a registration.  `owner` is a ghost: the connection of the latest
insert. -/
structure ControlNode where
  store : ServiceStore
  removing : Option (String × Bool)
  conns : List ControlConn
  tasks : List RegisterTask
  owner : String → Option Nat

/-- The file of a `register` is one that somebody puts in place of the config
between the two reads, that of an `edited` at any time. -/
inductive ControlEvent where
  | opened
  | request (c : Nat) (name : String) (service : Option EphemeralService)
  /-- from the lock to the answer -/
  | register (i : Nat) (file : Option ConfigFile)
  | answer (i : Nat)
  | drop (i : Nat)
  | unregister (name : String)
  | removed
  /-- the edit fails, or the client closes -/
  | abandon
  | closed (c : Nat)
  | take (c : Nat)
  | tearDown (c : Nat)
  /-- of another verb, as of an edit by hand -/
  | edited (file : ConfigFile)
  | reload
  /-- a grant or a revoke in the overlay -/
  | allow (service : String) (allow : List String)

namespace ServiceStore

/-- An ephemeral registration, up to its reload. -/
def claim (name : String) (service : EphemeralService) : Action ServiceStore VerbError Unit := do
  Action.attempt (checkRate service.rateLimitPerMin)
  insertEphemeral name service

/-- The live registry has an ephemeral entry of the name. -/
def Offers (s : ServiceStore) (name : String) : Prop :=
  ∃ entry, s.live.lookup name = some entry ∧ entry.ephemeral = true

end ServiceStore

/-- `held.remove(i)` of the last occurrence. -/
def removeLast (name : String) (held : List String) : List String :=
  (held.reverse.erase name).reverse

namespace ControlNode

/-- A node that starts. -/
def start (store : ServiceStore) : ControlNode :=
  { store, removing := none, conns := [], tasks := [], owner := fun _ => none }

variable (globalRpm : Option Nat) (s : ControlNode)

/-- `register_service` under the lock. -/
def register (i c : Nat) (name : String) (service : EphemeralService)
    (file : Option ConfigFile) : ControlNode :=
  match (ServiceStore.claim name service).apply s.store with
  | (store, .error _) => { s with store, tasks := s.tasks.set i ⟨c, name, .answering true⟩ }
  | (store, .ok ()) =>
      let (store, result) := (ServiceStore.reloadServicesFromDisk globalRpm).apply
        { store with file := file.getD store.file }
      { s with
        store
        tasks := s.tasks.set i ⟨c, name, .answering (!result.isOk)⟩
        owner := Function.update s.owner name (some c) }

/-- The answer is written; an error takes the name off the list. -/
def answer (i c : Nat) (name : String) (failed : Bool) : ControlNode :=
  match failed, s.conns[c]? with
  | true, some ⟨held, phase⟩ =>
      { s with
        conns := s.conns.set c ⟨removeLast name held, phase⟩
        tasks := s.tasks.set i ⟨c, name, .done⟩ }
  | _, _ => { s with tasks := s.tasks.set i ⟨c, name, .done⟩ }

/-- One step; one that cannot be taken leaves the node as it is. -/
def next : ControlEvent → ControlNode
  | .opened => { s with conns := s.conns ++ [⟨[], .serving⟩] }
  | .request c name service =>
      match s.conns[c]? with
      | some ⟨held, .serving⟩ =>
          { s with
            conns := s.conns.set c ⟨held ++ [name], .serving⟩
            tasks := s.tasks ++ [⟨c, name, .waiting service⟩] }
      | _ => s
  | .register i file =>
      match s.tasks[i]?, s.removing with
      | some ⟨c, name, .waiting none⟩, _ =>
          { s with tasks := s.tasks.set i ⟨c, name, .answering true⟩ }
      | some ⟨c, name, .waiting (some service)⟩, none =>
          s.register globalRpm i c name service file
      | _, _ => s
  | .answer i =>
      match s.tasks[i]? with
      | some ⟨c, name, .answering failed⟩ => s.answer i c name failed
      | _ => s
  | .drop i =>
      match s.tasks[i]? with
      | some ⟨c, name, .waiting _⟩ =>
          if s.conns[c]?.any (·.phase ≠ .serving) then
            { s with tasks := s.tasks.set i ⟨c, name, .done⟩ }
          else s
      | _ => s
  | .unregister name =>
      match s.removing with
      | none =>
          { s with
            store := ((ServiceStore.dropEphemeral name).apply s.store).1
            removing := some (name, decide (name ∈ s.store.overlay)) }
      | some _ => s
  | .removed =>
      match s.removing with
      | some (name, dropped) =>
          { s with
            store := ((ServiceStore.removeService globalRpm name dropped).apply s.store).1
            removing := none }
      | none => s
  | .abandon => { s with removing := none }
  | .closed c =>
      match s.conns[c]? with
      | some ⟨held, .serving⟩ => { s with conns := s.conns.set c ⟨held, .closed⟩ }
      | _ => s
  | .take c =>
      match s.conns[c]? with
      | some ⟨held, .closed⟩ =>
          { s with conns := s.conns.set c ⟨held, if held.isEmpty then .torn else .tearing held⟩ }
      | _ => s
  | .tearDown c =>
      match s.conns[c]?, s.removing with
      | some ⟨held, .tearing names⟩, none =>
          { s with
            store := ((ServiceStore.unregisterEphemeral globalRpm names).apply s.store).1
            conns := s.conns.set c ⟨held, .torn⟩ }
      | _, _ => s
  | .edited file => { s with store := { s.store with file } }
  | .reload =>
      match s.removing with
      | none =>
          { s with store := ((ServiceStore.reloadServicesFromDisk globalRpm).apply s.store).1 }
      | some _ => s
  | .allow service allow =>
      match s.store.overlay.lookup service, s.removing with
      | some eph, none =>
          { s with
            store := ((ServiceStore.applyEphemeralAllow globalRpm service).apply
              { s.store with
                overlay := s.store.overlay.insert service { eph with allow } }).1 }
      | _, _ => s

def step (s : ControlNode) (event : ControlEvent) : ControlNode × Unit :=
  (s.next globalRpm event, ())

/-! ## the law -/

/-- After its teardown a connection has no registration left, and a teardown
takes none of another connection that is open. -/
structure OwnerLaw (t : Called ControlNode ControlEvent Unit) : Prop where
  gone : ∀ c conn name, t.post.conns[c]? = some conn → conn.phase = .torn →
    t.post.owner name = some c → name ∉ t.post.store.overlay ∧ ¬ t.post.store.Offers name
  kept : ∀ c c' conn name, t.call = .tearDown c → c' ≠ c → t.pre.conns[c']? = some conn →
    conn.phase = .serving → t.pre.owner name = some c' → name ∈ t.pre.store.overlay →
    name ∈ t.post.store.overlay ∧ (t.pre.store.Offers name → t.post.store.Offers name)

/-- No teardown finds a registered name of its list on the list of another open
connection, or a config that does not load; no config that does not load is put
in place between the two reads of a registration; and no task registers after
the teardown of its connection. -/
def clean (s : ControlNode) : ControlEvent → Bool
  | .register i file =>
      file.all (·.load.isSome) &&
        match s.tasks[i]? with
        | some task => s.conns[task.conn]?.all (·.phase ≠ .torn)
        | none => true
  | .tearDown c =>
      match s.conns[c]? with
      | some ⟨_, .tearing names⟩ =>
          s.store.file.load.isSome && names.all fun name =>
            name ∉ s.store.overlay || (s.conns.eraseIdx c).all fun conn =>
              conn.phase ≠ .serving || name ∉ conn.held
      | _ => true
  | _ => true

end ControlNode

/-! ## the books -/

/-- The name that a task of a connection may still register, or take off its
list. -/
def RegisterTask.pending (c : Nat) (task : RegisterTask) : List String :=
  match task.phase with
  | .waiting _ | .answering true => if task.conn = c then [task.name] else []
  | _ => []

/-- A connection has noted what it will have to tear down. -/
def ControlConn.Covers (conn : ControlConn) (name : String) (demand : Nat) : Prop :=
  match conn.phase with
  | .serving | .closed => demand ≤ conn.held.count name
  | .tearing names => 0 < demand → name ∈ names
  | .torn => True

/-- A connection that covers more covers less. -/
theorem ControlConn.Covers.mono {conn : ControlConn} {name : String} {d d' : Nat}
    (h : conn.Covers name d) (hd : d' ≤ d) : conn.Covers name d' := by
  obtain ⟨held, phase⟩ := conn
  cases phase with
  | serving | closed => exact hd.trans h
  | tearing names => exact fun hpos => h (hpos.trans_le hd)
  | torn => trivial

/-- How often a name has to stand on the list of a connection: for each task
that may still take it off, and once for the registration. -/
def ControlNode.demand (s : ControlNode) (c : Nat) (name : String) : Nat :=
  (s.tasks.flatMap (RegisterTask.pending c)).count name + if s.owner name = some c then 1 else 0

/-! ## the registry -/

namespace ServiceStore

/-- A step that brings no name. -/
structure Quiet (store store' : ServiceStore) : Prop where
  overlay : ∀ name, name ∈ store'.overlay → name ∈ store.overlay
  offers : ∀ name, store'.Offers name → store.Offers name ∨ name ∈ store.overlay

section

variable {globalRpm : Option Nat} {store store' store'' : ServiceStore} {name : String}

theorem Quiet.refl (store : ServiceStore) : store.Quiet store :=
  ⟨fun _ h => h, fun _ h => .inl h⟩

theorem Quiet.trans (h : store.Quiet store') (h' : store'.Quiet store'') : store.Quiet store'' where
  overlay name hname := h.overlay name (h'.overlay name hname)
  offers name hoffers := by
    obtain hoffers | hname := h'.offers name hoffers
    · exact h.offers name hoffers
    · exact .inr (h.overlay name hname)

/-- A load is quiet. -/
theorem quiet_load : store.Quiet (load.apply store).1 := by
  rw [load, Action.apply_get]
  exact .refl store

/-- A reload is quiet. -/
theorem quiet_reload : store.Quiet ((reloadServicesFromDisk globalRpm).apply store).1 := by
  refine Action.apply_bind_rel (fun _ _ _ => .trans) (fun _ => quiet_load)
    (fun cfg store => ?_) store
  refine ⟨fun _ h => h, fun name hoffers => .inr ?_⟩
  obtain ⟨entry, hentry, heph⟩ := hoffers
  exact Registry.overlay_of_ephemeral hentry heph

/-- An edit of the config is quiet. -/
theorem quiet_editConfig (edit : ConfigEdit) : store.Quiet ((editConfig edit).apply store).1 := by
  simp only [editConfig, Action.apply_get]
  cases (edit.run store.file).mapError VerbError.writeConfig with
  | error e => exact .refl store
  | ok written =>
      cases written with
      | none => exact .refl store
      | some file => exact ⟨fun _ h => h, fun _ h => .inl h⟩

/-- A removal is quiet, whatever the overlay dropped. -/
theorem quiet_removeService (dropped : Bool) :
    store.Quiet ((removeService globalRpm name dropped).apply store).1 := by
  refine Action.apply_bind_rel (fun _ _ _ => .trans) (fun _ => quiet_editConfig _)
    (fun removed store => ?_) store
  split
  · exact quiet_reload
  · exact .refl store

/-- A drop is quiet. -/
theorem quiet_dropEphemeral : store.Quiet ((dropEphemeral name).apply store).1 := by
  refine ⟨fun n hn => ?_, fun _ h => .inl h⟩
  have herased : n ∈ store.overlay.erase name := hn
  exact (AList.mem_erase.mp herased).2

/-- A swap of one list is quiet. -/
theorem quiet_allow {eph : EphemeralService} {allow : List String}
    (heph : store.overlay.lookup name = some eph) :
    store.Quiet ((applyEphemeralAllow globalRpm name).apply
      { store with overlay := store.overlay.insert name { eph with allow } }).1 := by
  have hedited : store.Quiet
      { store with overlay := store.overlay.insert name { eph with allow } } := by
    refine ⟨fun n hn => ?_, fun _ h => .inl h⟩
    obtain rfl | hn := (AList.mem_insert _).mp hn
    · exact AList.lookup_isSome.mp (by simp [heph])
    · exact hn
  refine hedited.trans ?_
  simp only [applyEphemeralAllow, Action.apply_get]
  split
  · next live hlive =>
    refine ⟨fun _ h => h, fun n hoffers => .inl ?_⟩
    obtain ⟨entry, hentry, hephemeral⟩ := hoffers
    obtain ⟨eph', -, hreplaced⟩ := Option.bind_eq_some_iff.mp hlive
    have hlookup : live.lookup n = some entry := hentry
    rw [Registry.lookup_withAllowReplaced hreplaced] at hlookup
    split at hlookup
    · obtain ⟨entry', hentry', rfl⟩ := Option.map_eq_some_iff.mp hlookup
      exact ⟨entry', hentry', hephemeral⟩
    · exact ⟨entry, hlookup, hephemeral⟩
  · exact quiet_reload

/-- An ephemeral `register_service` is a claim and a reload. -/
theorem registerService_ephemeral (backend : BackendSpec) (allow : List String)
    (rate : Option Nat) : registerService globalRpm name backend allow true rate = (do
      claim name ⟨backend, allow, rate⟩
      reloadServicesFromDisk globalRpm) := by
  simp [registerService, claim]

/-- A registration on an undisturbed file does to the store what the verb does. -/
theorem store_register (s : ControlNode) (i c : Nat) (backend : BackendSpec) (allow : List String)
    (rate : Option Nat) :
    (s.register globalRpm i c name ⟨backend, allow, rate⟩ none).store =
      ((registerService globalRpm name backend allow true rate).apply s.store).1 := by
  rw [registerService_ephemeral, Action.apply_bind, ControlNode.register]
  cases hclaim : (claim name ⟨backend, allow, rate⟩).apply s.store with
  | mk store result =>
      cases result with
      | error e => rfl
      | ok u => rfl

/-- A registration is refused, or inserts its name. -/
theorem apply_claim (name : String) (service : EphemeralService) :
    (∃ e, (claim name service).apply store = (store, .error e)) ∨
      (claim name service).apply store =
          ({ store with overlay := store.overlay.insert name service }, .ok ()) ∧
        store.file.load.isSome = true := by
  rw [claim]
  cases checkRate service.rateLimitPerMin with
  | error e => exact .inl ⟨e, rfl⟩
  | ok u =>
      have hloaded : load.apply store = (store, okOr store.file.load .loadConfig) := rfl
      rw [Action.apply_attempt_ok rfl, insertEphemeral, Action.apply_bind, hloaded]
      cases store.file.load with
      | none => exact .inl ⟨_, rfl⟩
      | some cfg =>
          by_cases hname : name ∈ cfg
          · exact .inl ⟨.registeredPersistently name, by simp [hname, ensure]; rfl⟩
          · exact .inr ⟨by simp [hname, ensure]; rfl, rfl⟩

/-- The overlay keeps what is not unregistered. -/
theorem mem_eraseAll (names : List String) (overlay : EphemeralServices) :
    name ∈ names.foldl (fun overlay name => overlay.erase name) overlay ↔
      name ∈ overlay ∧ name ∉ names := by
  induction names generalizing overlay with
  | nil => simp
  | cons n names ih =>
      rw [List.foldl_cons, ih, AList.mem_erase, List.mem_cons, not_or]
      exact ⟨fun h => ⟨h.1.2, h.1.1, h.2⟩, fun h => ⟨⟨h.2.1, h.1⟩, h.2.2⟩⟩

variable (globalRpm store) in
/-- The names of an unregistration go, and where there are any the live
registry is rebuilt without them. -/
theorem unregister_spec (names : List String) (hload : store.file.load.isSome = true) :
    (∀ name, name ∈ ((unregisterEphemeral globalRpm names).apply store).1.overlay ↔
      name ∈ store.overlay ∧ name ∉ names) ∧
    (names = [] ∧ (unregisterEphemeral globalRpm names).apply store = (store, .ok ()) ∨
      ∀ name, ((unregisterEphemeral globalRpm names).apply store).1.Offers name ↔
        name ∈ store.overlay ∧ name ∉ names) := by
  obtain ⟨cfg, hcfg⟩ := Option.isSome_iff_exists.mp hload
  by_cases hnames : names = []
  · subst hnames
    have hnone : (unregisterEphemeral globalRpm []).apply store = (store, .ok ()) := rfl
    exact ⟨by simp [hnone], .inl ⟨rfl, hnone⟩⟩
  · rw [unregister_of_load hcfg hnames]
    refine ⟨fun name => mem_eraseAll names _, .inr fun name => ?_⟩
    rw [← mem_eraseAll]
    constructor
    · rintro ⟨entry, hentry, heph⟩
      exact Registry.overlay_of_ephemeral hentry heph
    · intro hname
      obtain ⟨eph, heph⟩ := Option.isSome_iff_exists.mp (AList.lookup_isSome.mpr hname)
      refine ⟨eph.live globalRpm, ?_, rfl⟩
      simp only [Registry.lookup_build, heph]
      rfl

/-- An unregistration is quiet, where the config loads. -/
theorem quiet_unregister (names : List String) (hload : store.file.load.isSome = true) :
    store.Quiet ((unregisterEphemeral globalRpm names).apply store).1 := by
  obtain ⟨hoverlay, hoffers⟩ := unregister_spec globalRpm store names hload
  refine ⟨fun name hname => ((hoverlay name).mp hname).1, fun name h => ?_⟩
  obtain ⟨-, heq⟩ | hoffers := hoffers
  · rw [heq] at h
    exact .inl h
  · exact .inr ((hoffers name).mp h).1

end

end ServiceStore

/-! ## the invariant -/

namespace ControlNode

/-- The lists cover what the connections took, and of a connection that is torn
down nothing is left. -/
structure Inv (s : ControlNode) : Prop where
  covers : ∀ c (conn : ControlConn), s.conns[c]? = some conn → ∀ name,
    conn.Covers name (s.demand c name)
  known : ∀ c, s.conns.length ≤ c → ∀ name, s.demand c name = 0
  gone : ∀ c conn, s.conns[c]? = some conn → conn.phase = .torn → ∀ name,
    s.owner name = some c → name ∉ s.store.overlay ∧ ¬ s.store.Offers name

section

variable {globalRpm : Option Nat} {s : ControlNode} {store : ServiceStore}
  {removing : Option (String × Bool)} {i c : Nat} {name : String} {task task' : RegisterTask}

/-- Nobody holds a name at the start. -/
theorem inv_start (store : ServiceStore) : (start store).Inv where
  covers c conn h := by simp [start] at h
  known c _ name := by simp [start, demand]
  gone c conn h := by simp [start] at h

/-- A name that is owned is asked for. -/
theorem demand_pos (h : s.owner name = some c) : 0 < s.demand c name := by
  simp [demand, h]

/-- A change of the registry that brings no name. -/
theorem Inv.of_quiet (h : s.Inv) (hquiet : s.store.Quiet store) :
    ({ s with store, removing } : ControlNode).Inv where
  covers := h.covers
  known := h.known
  gone c conn hconn htorn name howner := by
    have hgone := h.gone c conn hconn htorn name howner
    refine ⟨fun hname => hgone.1 (hquiet.overlay name hname), fun hoffers => ?_⟩
    obtain hoffers | hname := hquiet.offers name hoffers
    · exact hgone.2 hoffers
    · exact hgone.1 hname

/-- A task that may do less to the list. -/
theorem Inv.of_task (h : s.Inv) (htask : s.tasks[i]? = some task)
    (hpending : ∀ c, task'.pending c = task.pending c ∨ task'.pending c = []) :
    ({ s with tasks := s.tasks.set i task' } : ControlNode).Inv := by
  have hdemand : ∀ c name,
      ({ s with tasks := s.tasks.set i task' } : ControlNode).demand c name ≤ s.demand c name := by
    intro c name
    have hcount := count_flatMap_set (f := RegisterTask.pending c) htask task' name
    simp only [demand]
    obtain hpending | hpending := hpending c <;> rw [hpending] at hcount
    · omega
    · rw [List.count_nil] at hcount
      omega
  exact ⟨fun c conn hconn name => (h.covers c conn hconn name).mono (hdemand c name),
    fun c hc name => Nat.le_zero.mp (h.known c hc name ▸ hdemand c name), h.gone⟩

/-- A change of one connection. -/
theorem Inv.of_conn {conn conn' : ControlConn} {tasks : List RegisterTask} (h : s.Inv)
    (hconn : s.conns[c]? = some conn) (store : ServiceStore) (hquiet : s.store.Quiet store)
    (hcovers : ∀ name, conn'.Covers name
      (({ s with store, conns := s.conns.set c conn', tasks } : ControlNode).demand c name))
    (hother : ∀ c' ≠ c, ∀ name,
      ({ s with store, conns := s.conns.set c conn', tasks } : ControlNode).demand c' name ≤
        s.demand c' name)
    (hgone : conn'.phase = .torn → ∀ name, s.owner name = some c →
      name ∉ store.overlay ∧ ¬ store.Offers name) :
    ({ s with store, conns := s.conns.set c conn', tasks } : ControlNode).Inv := by
  have hlt : c < s.conns.length := (List.getElem?_eq_some_iff.mp hconn).1
  have hset : ∀ c' conn'', (s.conns.set c conn')[c']? = some conn'' →
      (c' = c ∧ conn'' = conn') ∨ (c' ≠ c ∧ s.conns[c']? = some conn'') := by
    intro c' conn'' hget
    rw [List.getElem?_set] at hget
    split at hget
    · next heq => exact .inl ⟨heq.symm, by simpa [hlt, eq_comm] using hget⟩
    · next hne => exact .inr ⟨Ne.symm hne, hget⟩
  constructor
  · intro c' conn'' hget name
    obtain ⟨rfl, rfl⟩ | ⟨hne, hget⟩ := hset c' conn'' hget
    · exact hcovers name
    · exact (h.covers c' conn'' hget name).mono (hother c' hne name)
  · intro c' hc name
    rw [List.length_set] at hc
    have hle := hother c' (by omega) name
    rw [h.known c' hc name] at hle
    exact Nat.le_zero.mp hle
  · intro c' conn'' hget htorn name howner
    obtain ⟨rfl, rfl⟩ | ⟨hne, hget⟩ := hset c' conn'' hget
    · exact hgone htorn name howner
    · have hstore : ({ s with store, removing := none } : ControlNode).Inv := h.of_quiet hquiet
      exact hstore.gone c' conn'' hget htorn name howner

/-- A connection that opens holds nothing. -/
theorem Inv.opened (h : s.Inv) :
    ({ s with conns := s.conns ++ [⟨[], .serving⟩] } : ControlNode).Inv := by
  have hnew : ∀ c (conn : ControlConn), (s.conns ++ [⟨[], .serving⟩])[c]? = some conn →
      s.conns[c]? = some conn ∨ s.conns.length ≤ c ∧ conn = ⟨[], .serving⟩ := by
    intro c conn hget
    rw [List.getElem?_append] at hget
    split at hget
    · exact .inl hget
    · next hge => exact .inr ⟨Nat.le_of_not_lt hge, by grind⟩
  constructor
  · intro c conn hget name
    obtain hget | ⟨hge, rfl⟩ := hnew c conn hget
    · exact h.covers c conn hget name
    · exact (h.known c hge name).le
  · intro c hc name
    simp only [List.length_append, List.length_singleton] at hc
    exact h.known c (by omega) name
  · intro c conn hget htorn
    obtain hget | ⟨-, rfl⟩ := hnew c conn hget
    · exact h.gone c conn hget htorn
    · contradiction

/-- A request puts its name among the held ones, and adds its task. -/
theorem Inv.request {held : List String} (h : s.Inv) (hconn : s.conns[c]? = some ⟨held, .serving⟩)
    (name : String) (service : Option EphemeralService) :
    ({ s with
      conns := s.conns.set c ⟨held ++ [name], .serving⟩
      tasks := s.tasks ++ [⟨c, name, .waiting service⟩] } : ControlNode).Inv := by
  refine h.of_conn hconn s.store (.refl _) (fun n => ?_) (fun c' hne n => ?_) nofun
  · have hcovers : s.demand c n ≤ held.count n := h.covers c _ hconn n
    simp only [demand] at hcovers
    simp only [ControlConn.Covers, demand, List.flatMap_append, List.count_append,
      List.flatMap_singleton, RegisterTask.pending, if_true]
    omega
  · simp [demand, RegisterTask.pending, hne.symm]

/-- A name that is given back is held once less. -/
theorem count_removeLast (name : String) (held : List String) (n : String) :
    (removeLast name held).count n = held.count n - if n = name then 1 else 0 := by
  simp only [removeLast, List.count_reverse, List.count_erase, beq_iff_eq, eq_comm (a := name)]

/-- An answer that failed gives the name back. -/
theorem Inv.answer {failed : Bool} (h : s.Inv)
    (htask : s.tasks[i]? = some ⟨c, name, .answering failed⟩) :
    (s.answer i c name failed).Inv := by
  simp only [ControlNode.answer]
  split
  · next held phase hconn =>
    have hcount : ∀ c' n, (((s.tasks.set i ⟨c, name, .done⟩).flatMap
        (RegisterTask.pending c')).count n) + (if c = c' then [name] else []).count n =
          (s.tasks.flatMap (RegisterTask.pending c')).count n := fun c' n =>
      count_flatMap_set (f := RegisterTask.pending c') htask ⟨c, name, .done⟩ n
    refine h.of_conn hconn s.store (.refl _) (fun n => ?_) (fun c' hne n => ?_) ?_
    · have hcovers := h.covers c _ hconn n
      have hdemand := hcount c n
      have hheld := count_removeLast name held n
      simp only [if_true, List.count_singleton, beq_iff_eq, eq_comm (a := name)] at hdemand
      cases phase with
      | serving | closed =>
          simp only [ControlConn.Covers, demand] at hcovers ⊢
          omega
      | tearing names =>
          simp only [ControlConn.Covers, demand] at hcovers ⊢
          exact fun hpos => hcovers (by omega)
      | torn => trivial
    · have hdemand := hcount c' n
      simp only [demand]
      omega
    · intro htorn
      exact h.gone c _ hconn htorn
  · exact h.of_task htask fun c => .inr rfl

/-- A registration is of a name that its connection holds. -/
theorem Inv.register {service : EphemeralService} {file : Option ConfigFile} (h : s.Inv)
    (htask : s.tasks[i]? = some ⟨c, name, .waiting (some service)⟩)
    (hfile : file.all (·.load.isSome) = true)
    (hconn : s.conns[c]?.all (·.phase ≠ .torn) = true) :
    (s.register globalRpm i c name service file).Inv := by
  rw [ControlNode.register]
  obtain ⟨e, hclaim⟩ | ⟨hclaim, hload⟩ := s.store.apply_claim name service
  · rw [hclaim]
    exact h.of_task htask fun c' => .inl rfl
  · rw [hclaim]
    -- the second read finds a config that loads, so the answer is no error
    obtain ⟨cfg, hcfg⟩ : ∃ cfg, (file.getD s.store.file).load = some cfg := by
      cases file with
      | none => exact Option.isSome_iff_exists.mp hload
      | some file => exact Option.isSome_iff_exists.mp hfile
    have hreload : (ServiceStore.reloadServicesFromDisk globalRpm).apply
        { s.store with
          file := file.getD s.store.file
          overlay := s.store.overlay.insert name service } = _ := ServiceStore.reload_of_load hcfg
    dsimp only
    rw [hreload]
    have hcount : ∀ c' n, (((s.tasks.set i ⟨c, name, .answering false⟩).flatMap
        (RegisterTask.pending c')).count n) + (if c = c' then [name] else []).count n =
          (s.tasks.flatMap (RegisterTask.pending c')).count n := fun c' n =>
      count_flatMap_set (f := RegisterTask.pending c') htask ⟨c, name, .answering false⟩ n
    have hdemand : ∀ c' n,
        ((s.tasks.set i ⟨c, name, .answering false⟩).flatMap (RegisterTask.pending c')).count n +
          (if Function.update s.owner name (some c) n = some c' then 1 else 0) ≤
            s.demand c' n := by
      intro c' n
      have hcount := hcount c' n
      simp only [demand]
      by_cases hn : n = name
      · subst hn
        by_cases hc : c = c'
        · simp only [hc, if_true, List.count_singleton_self, Function.update_self] at hcount ⊢
          omega
        · simp only [hc, if_false, List.count_nil, Function.update_self, Option.some.injEq]
            at hcount ⊢
          omega
      · rw [Function.update_of_ne hn]
        omega
    constructor
    · intro c' conn hget n
      exact (h.covers c' conn hget n).mono (hdemand c' n)
    · intro c' hc n
      exact Nat.le_zero.mp (h.known c' hc n ▸ hdemand c' n)
    · intro c' conn hget htorn n howner
      dsimp only at hget howner
      have hn : n ≠ name := by
        rintro rfl
        rw [Function.update_self, Option.some.injEq] at howner
        simp [howner, hget, htorn] at hconn
      rw [Function.update_of_ne hn] at howner
      have hgone := h.gone c' conn hget htorn n howner
      have habsent : n ∉ s.store.overlay.insert name service := by
        rw [AList.mem_insert, not_or]
        exact ⟨hn, hgone.1⟩
      refine ⟨habsent, fun ⟨entry, hentry, heph⟩ => ?_⟩
      exact habsent (Registry.overlay_of_ephemeral hentry heph)

/-- A connection that closes takes its names to the teardown. -/
theorem Inv.take {held : List String} (h : s.Inv) (hconn : s.conns[c]? = some ⟨held, .closed⟩) :
    ({ s with
      conns := s.conns.set c ⟨held, if held.isEmpty then .torn else .tearing held⟩ } :
        ControlNode).Inv := by
  have hcovers : ∀ n, s.demand c n ≤ held.count n := h.covers c _ hconn
  refine h.of_conn hconn s.store (.refl _) (fun n => ?_) (fun _ _ _ => le_rfl) ?_
  · cases held with
    | nil => trivial
    | cons n' held => exact fun hpos => List.count_pos_iff.mp (hpos.trans_le (hcovers n))
  · intro htorn n howner
    cases held with
    | nil => exact absurd (demand_pos howner) (by simpa using hcovers n)
    | cons n' held => contradiction

/-- The teardown unregisters the names of its connection, where no other one has them.
-/
theorem Inv.tearDown {held names : List String} (h : s.Inv)
    (hconn : s.conns[c]? = some ⟨held, .tearing names⟩)
    (hload : s.store.file.load.isSome = true) :
    ({ s with
      store := ((ServiceStore.unregisterEphemeral globalRpm names).apply s.store).1
      conns := s.conns.set c ⟨held, .torn⟩ } : ControlNode).Inv := by
  have hnames : ∀ n, s.owner n = some c → n ∈ names := fun n howner =>
    h.covers c _ hconn n (demand_pos howner)
  refine h.of_conn hconn _ (ServiceStore.quiet_unregister names hload) (fun _ => trivial)
    (fun _ _ _ => le_rfl) fun _ n howner => ?_
  have hn := hnames n howner
  obtain ⟨hoverlay, hoffers⟩ := ServiceStore.unregister_spec globalRpm s.store names hload
  refine ⟨fun hname => ((hoverlay n).mp hname).2 hn, fun h => ?_⟩
  obtain ⟨rfl, -⟩ | hoffers := hoffers
  · exact absurd hn List.not_mem_nil
  · exact ((hoffers n).mp h).2 hn

/-- **Step lemma**: every step that meets the condition keeps the lists. -/
theorem Inv.step (h : s.Inv) {event : ControlEvent} (hclean : s.clean event = true) :
    (ControlNode.step globalRpm s event).1.Inv := by
  cases event with
  | opened => exact h.opened
  | request c name service =>
      simp only [ControlNode.step, next]
      split
      · next held hconn => exact h.request hconn name service
      · exact h
  | register i file =>
      simp only [ControlNode.step, next]
      split
      · next c name _ htask => exact h.of_task htask fun c' => .inl rfl
      · next c name service htask hlock =>
        simp only [clean, htask, Bool.and_eq_true] at hclean
        exact h.register htask hclean.1 hclean.2
      · exact h
  | answer i =>
      simp only [ControlNode.step, next]
      split
      · next c name failed htask => exact h.answer htask
      · exact h
  | drop i =>
      simp only [ControlNode.step, next]
      split
      · next c name service htask =>
        split
        · exact h.of_task htask fun c' => .inr rfl
        · exact h
      · exact h
  | unregister name =>
      simp only [ControlNode.step, next]
      split
      · exact h.of_quiet ServiceStore.quiet_dropEphemeral
      · exact h
  | removed =>
      simp only [ControlNode.step, next]
      split
      · exact h.of_quiet (ServiceStore.quiet_removeService _)
      · exact h
  | abandon => exact h.of_quiet (.refl _)
  | closed c =>
      simp only [ControlNode.step, next]
      split
      · next held hconn =>
        have hcovers : ∀ n, s.demand c n ≤ held.count n := h.covers c _ hconn
        exact h.of_conn hconn s.store (.refl _) hcovers (fun _ _ _ => le_rfl) nofun
      · exact h
  | take c =>
      simp only [ControlNode.step, next]
      split
      · next held hconn => exact h.take hconn
      · exact h
  | tearDown c =>
      simp only [ControlNode.step, next]
      split
      · next held names hconn hlock =>
        simp only [clean, hconn, Bool.and_eq_true] at hclean
        exact h.tearDown hconn hclean.1
      · exact h
  | edited file => exact h.of_quiet ⟨fun _ hname => hname, fun _ hoffers => .inl hoffers⟩
  | reload =>
      simp only [ControlNode.step, next]
      split
      · exact h.of_quiet ServiceStore.quiet_reload
      · exact h
  | allow service allow =>
      simp only [ControlNode.step, next]
      split
      · next eph heph hlock => exact h.of_quiet (ServiceStore.quiet_allow heph)
      · exact h

variable (globalRpm) in
/-- What a step does where the invariant and the condition hold. -/
theorem Inv.law (h : s.Inv) {event : ControlEvent} (hclean : s.clean event = true) :
    OwnerLaw (callAt (ControlNode.step globalRpm) s event) where
  gone c conn name hconn htorn howner := (h.step hclean).gone c conn hconn htorn name howner
  kept c c' conn name hcall hne hconn hserving howner hname := by
    obtain rfl : event = .tearDown c := hcall
    -- the other connection has the name on its list
    have hheld : name ∈ conn.held := by
      have hcovers := h.covers c' conn hconn name
      simp only [ControlConn.Covers, hserving] at hcovers
      exact List.count_pos_iff.mp ((demand_pos howner).trans_le hcovers)
    simp only [callAt, ControlNode.step, next]
    split
    · next held names hget hlock =>
      simp only [clean, hget, Bool.and_eq_true, List.all_eq_true, Bool.or_eq_true,
        decide_eq_true_eq] at hclean
      have hnames : name ∉ names := by
        intro hmem
        have hother : conn ∈ s.conns.eraseIdx c :=
          List.mem_eraseIdx_iff_getElem?.mpr ⟨c', hne, hconn⟩
        obtain habsent | hfree := hclean.2 name hmem
        · exact habsent hname
        · obtain hphase | hfree := hfree conn hother
          · exact hphase hserving
          · exact hfree hheld
      obtain ⟨hoverlay, hoffers⟩ := ServiceStore.unregister_spec globalRpm s.store names hclean.1
      refine ⟨(hoverlay name).mpr ⟨hname, hnames⟩, fun h => ?_⟩
      obtain ⟨-, heq⟩ | hoffers := hoffers
      · rwa [heq]
      · exact (hoffers name).mpr ⟨hname, hnames⟩
    · exact ⟨hname, id⟩

end

end ControlNode

/-- **Ownership**: in a run of which every step meets the condition, a teardown
leaves nothing of its connection, and takes nothing of another that is open. -/
theorem ephemeral_lives_as_its_owner (globalRpm : Option Nat) (store : ServiceStore)
    (events : List ControlEvent)
    (hclean : ∀ t ∈ trace (ControlNode.step globalRpm) (.start store) events,
      t.pre.clean t.call = true) :
    ∀ t ∈ trace (ControlNode.step globalRpm) (.start store) events, ControlNode.OwnerLaw t := by
  intro t ht
  have hinv : t.pre.Inv := trace_guarded_pre (I := ControlNode.Inv)
    (Q := fun t => t.pre.clean t.call = true) (fun s event hclean h => h.step hclean)
    (ControlNode.inv_start store) hclean ht
  have hlaw := hinv.law globalRpm (hclean t ht)
  rwa [← eq_callAt_of_mem_trace ht] at hlaw

namespace NotesTwice

def store : ServiceStore := { file := ⟨.absent⟩, overlay := ∅, live := ∅ }

def notes : EphemeralService := ⟨.socket "/run/notes.sock", ["b64u:bob"], none⟩

/-- Two connections, one with its own name and a refused one. -/
def apart : List ControlEvent :=
  [.opened, .opened, .request 0 "notes" (some notes), .request 1 "files" (some notes),
    .register 0 none, .register 1 none, .answer 0, .answer 1, .request 0 "notes" none,
    .register 2 none, .closed 0, .answer 2, .take 0, .unregister "files", .removed,
    .tearDown 0, .closed 1, .take 1, .tearDown 1]

/-- The second connection updates the registration of the first. -/
def shared : List ControlEvent :=
  [.opened, .opened, .request 0 "notes" (some notes), .register 0 none, .answer 0,
    .request 1 "notes" (some notes), .register 1 none, .answer 1, .closed 0, .take 0]

end NotesTwice

open NotesTwice in
theorem ephemeral_lives_as_its_owner_example :
    (final (ControlNode.step (some 120)) (.start store) apart).conns.length = 2 ∧
      ∀ t ∈ trace (ControlNode.step (some 120)) (.start store) apart, ControlNode.OwnerLaw t :=
  ⟨by decide +kernel, ephemeral_lives_as_its_owner (some 120) store apart (by decide +kernel)⟩

open NotesTwice in
/-- The close of the first takes the service away that the second one holds. -/
theorem teardown_takes_reregistered_name :
    ¬ ∀ t ∈ trace (ControlNode.step (some 120)) (.start store) (shared ++ [.tearDown 0]),
      ControlNode.OwnerLaw t := by
  intro hlaw
  have hlast := hlaw _ (last_mem_trace _ shared (.tearDown 0))
  have hkept := hlast.kept 0 1 ⟨["notes"], .serving⟩ "notes" rfl (by decide) (by decide +kernel)
    rfl (by decide +kernel) (by decide +kernel)
  exact absurd hkept.1 (by decide +kernel)

end Mcpmesh
