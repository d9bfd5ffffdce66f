import Mcpmesh.Lib.Table
import Mcpmesh.Net.Session

/-!
# Mcpmesh.Dial.OpenSession

A session that the daemon carries for a local client (`inject_service` and
`pipe_session` of `node/src/daemon/dial.rs`), up to the backend at its far end.

The first frame is made to name the dialled service and everything else passes
verbatim.  The two directions run on their own: the end of what the client
writes only half-closes the stream to the peer, and the session goes on until
the peer ends it or the client no longer reads.
-/

namespace Mcpmesh

open Lib Admit MeshError

/-! ## the service named -/

/-- `Map::insert`, in key order. -/
def insertEntry (key : String) (v : Json) (entries : Entries) : Entries :=
  upsert (fun a b => decide (a < b)) key v entries

/-- An object under `key`, in the place of what is none. -/
def ensureObject (key : String) (entries : Entries) : Entries :=
  match entries.lookup key with
  | some (.obj _) => entries
  | _ => insertEntry key (.obj []) entries

/-- A frame with an object in `params._meta`; what is no object stays. -/
def ensureMeta : Json → Json :=
  .mapObject fun entries =>
    modifyEntry "params" (.mapObject (ensureObject "_meta")) (ensureObject "params" entries)

/-- The service under both spellings. -/
def nameService (service : String) (entries : Entries) : Entries :=
  serviceKeys.foldl (fun entries key => insertEntry key (.str service) entries) entries

def injectService (frame : Json) (service : String) : Json :=
  mapMeta (nameService service) (ensureMeta frame)

section Inject

variable {key key' service : String} {v : Json} {entries : Entries}

/-- An insert, looked up at its key. -/
theorem lookup_insertEntry_self : (insertEntry key v entries).lookup key = some v := by
  rw [← rowOf_eq_lookup, insertEntry, rowOf_upsert_self]

/-- An insert, looked up at another. -/
theorem lookup_insertEntry_of_ne (h : key' ≠ key) :
    (insertEntry key v entries).lookup key' = entries.lookup key' := by
  rw [← rowOf_eq_lookup, ← rowOf_eq_lookup, insertEntry, rowOf_upsert_of_ne _ _ _ _ h]

/-- Reserved keys do not outlast the strip. -/
theorem retainUnreserved_insertEntry (h : reserved key = true) :
    retainUnreserved (insertEntry key v entries) = retainUnreserved entries :=
  filter_upsert _ _ _ _ fun _ => by simp [h]

/-- What is ensured is an object. -/
theorem ensureObject_lookup (key : String) (entries : Entries) :
    ∃ inner, (ensureObject key entries).lookup key = some (.obj inner) := by
  rw [ensureObject]
  split
  · next inner h => exact ⟨inner, h⟩
  · exact ⟨[], lookup_insertEntry_self⟩

/-- To ensure one leaves the others. -/
theorem ensureObject_lookup_of_ne (h : key' ≠ key) :
    (ensureObject key entries).lookup key' = entries.lookup key' := by
  rw [ensureObject]
  split
  · rfl
  · exact lookup_insertEntry_of_ne h

/-- There are entries to write to. -/
theorem metaEntries_ensureMeta (entries : Entries) :
    ∃ ms, metaEntries (ensureMeta (.obj entries)) = some ms := by
  obtain ⟨params, hparams⟩ := ensureObject_lookup "params" entries
  obtain ⟨ms, hms⟩ := ensureObject_lookup "_meta" params
  refine ⟨ms, ?_⟩
  simp only [metaEntries, metaOf, ensureMeta, Json.mapObject, Json.get, Json.asObject,
    Option.bind_some, lookup_modifyEntry_self, hparams, Option.map_some, hms]

/-- No other entry of a frame is touched. -/
theorem get_ensureMeta {frame : Json} (h : key ≠ "params") :
    (ensureMeta frame).get key = frame.get key := by
  cases frame with
  | null | bool | num | str | arr => rfl
  | obj entries =>
      simp only [ensureMeta, Json.mapObject, Json.get, Json.asObject, Option.bind_some,
        lookup_modifyEntry_of_ne h, ensureObject_lookup_of_ne h]

/-- An edit of _meta touches the params alone. -/
theorem get_mapMeta {edit : Entries → Entries} {frame : Json} (h : key ≠ "params") :
    (mapMeta edit frame).get key = frame.get key := by
  cases frame with
  | null | bool | num | str | arr => rfl
  | obj entries =>
      simp only [mapMeta, Json.mapObject, Json.get, Json.asObject, Option.bind_some,
        lookup_modifyEntry_of_ne h]

/-- What is read of _meta is an entry of it. -/
theorem readMeta_eq (frame : Json) (key : String) :
    readMeta frame key = (metaEntries frame).bind (·.lookup key) := by
  rw [readMeta, metaEntries, Option.bind_assoc]
  rfl

/-- Both keys are read back. -/
theorem readMeta_injectService (hkey : key ∈ serviceKeys) :
    readMeta (injectService (.obj entries) service) key = some (.str service) := by
  obtain ⟨ms, hms⟩ := metaEntries_ensureMeta entries
  rw [readMeta_eq, injectService, metaEntries_mapMeta, hms, Option.map_some, Option.bind_some,
    nameService, serviceKeys, List.foldl_cons, List.foldl_cons, List.foldl_nil]
  simp only [serviceKeys, List.mem_cons, List.not_mem_nil, or_false] at hkey
  obtain rfl | rfl := hkey
  · rw [lookup_insertEntry_of_ne (by decide), lookup_insertEntry_self]
  · exact lookup_insertEntry_self

/-- What was injected is stripped again, with whatever the client had put in its
place. -/
theorem cleanEntries_nameService (service : String) (entries : Entries) :
    cleanEntries (nameService service entries) = cleanEntries entries := by
  rw [cleanEntries, nameService, serviceKeys, List.foldl_cons, List.foldl_cons, List.foldl_nil,
    retainUnreserved_insertEntry (by decide), retainUnreserved_insertEntry (by decide)]
  rfl

/-- The far side selects the service that was dialled, or refuses; and what it
hands on is the client's own frame. -/
theorem selectService_injectService (allowed : List String) :
    selectService (injectService (.obj entries) service) allowed =
      (mapMeta cleanEntries (ensureMeta (.obj entries)),
        if service ∈ allowed then .selected service else .refuse) := by
  refine Prod.ext ?_ ?_
  · have hframe : (injectService (.obj entries) service).IsFrame := trivial
    rw [selectService_frame, descend_frame hframe, injectService, mapMeta_mapMeta]
    exact congrArg (mapMeta · _) (funext (cleanEntries_nameService service))
  · have hkeys : serviceKeys.map (readMeta (injectService (.obj entries) service)) =
        [some (.str service), some (.str service)] := by
      rw [serviceKeys, List.map_cons, List.map_cons, List.map_nil,
        readMeta_injectService (by decide), readMeta_injectService (by decide)]
    have hnames : [some (Json.str service), some (.str service)].reduceOption =
        [.str service, .str service] := rfl
    have hgood : conflicting [some (.str service), some (.str service)] = false := by
      simp [conflicting, Json.asStr]
    simp only [selectService, hkeys, hnames, hgood]
    rfl

end Inject

/-! ## the pipe -/

inductive PipePhase where
  /-- no frame has been read -/
  | opening
  | piping
  | ended
  deriving DecidableEq

/-- `parked` is set when `to_mesh` has half-closed the stream to the peer. -/
structure PipeSession where
  phase : PipePhase
  parked : Bool
  toPeer : List Json
  toClient : List Json

inductive PipeEvent where
  /-- A line is read from the client; `sent` says whether a frame then reaches
  the stream. -/
  | client (line : Inbound Json) (sent : Bool)
  /-- The client's stream ends or fails. -/
  | clientEnd
  | peer (frame : Json) (written : Bool)
  /-- `recv_value` returns no frame. -/
  | peerEnd

namespace PipeSession

def init : PipeSession := ⟨.opening, false, [], []⟩

def park (s : PipeSession) : PipeSession := { s with parked := true }

def finish (s : PipeSession) : PipeSession := { s with phase := .ended }

/-- `pipe_session`. -/
def step (service : String) (s : PipeSession) (e : PipeEvent) : Option PipeSession :=
  match s.phase with
  | .opening =>
      match e with
      | .client (.frame v) true =>
          some { s with phase := .piping, toPeer := [injectService v service] }
      | .client (.frame _) false | .client (.violation _) _ | .clientEnd => some s.finish
      | .peer _ _ | .peerEnd => none
  | .piping =>
      match e with
      | .client (.frame v) true =>
          if s.parked then none else some { s with toPeer := s.toPeer ++ [v] }
      | .client (.frame _) false | .client (.violation _) _ | .clientEnd =>
          if s.parked then none else some s.park
      | .peer v true => some { s with toClient := s.toClient ++ [v] }
      | .peer _ false | .peerEnd => some s.finish
  | .ended => none

end PipeSession

/-- The frames of the client that reached the stream. -/
def clientFrames (events : List PipeEvent) : List Json :=
  events.filterMap fun
    | .client (.frame v) true => some v
    | _ => none

/-- The frames of the peer that the client has. -/
def peerFrames (events : List PipeEvent) : List Json :=
  events.filterMap fun
    | .peer v true => some v
    | _ => none

/-- What ends a session that carried a frame: the peer, or a client that is
gone. -/
def PipeEvent.Ends : PipeEvent → Prop
  | .peerEnd | .peer _ false => True
  | _ => False

namespace PipeSession

variable {service : String} {s s' : PipeSession} {e : PipeEvent} {events : List PipeEvent}

/-- What the peer is sent of the client's frames. -/
def forwarded (service : String) : List Json → List Json
  | [] => []
  | v :: vs => injectService v service :: vs

/-- A later frame is forwarded as it is. -/
theorem forwarded_append (v : Json) (frames : List Json) (h : frames ≠ []) :
    forwarded service (frames ++ [v]) = forwarded service frames ++ [v] := by
  cases frames with
  | nil => contradiction
  | cons w frames => rfl

/-- A step, by what it forwards. -/
inductive Stepped (service : String) (s : PipeSession) : PipeEvent → PipeSession → Prop where
  | dial {v : Json} : s.phase = .opening →
      Stepped service s (.client (.frame v) true)
        { s with phase := .piping, toPeer := [injectService v service] }
  | stillborn {e : PipeEvent} : s.phase = .opening → clientFrames [e] = [] →
      peerFrames [e] = [] → ¬ e.Ends → Stepped service s e s.finish
  | request {v : Json} : s.phase = .piping → s.parked = false →
      Stepped service s (.client (.frame v) true) { s with toPeer := s.toPeer ++ [v] }
  | park {e : PipeEvent} : s.phase = .piping → s.parked = false → clientFrames [e] = [] →
      peerFrames [e] = [] → ¬ e.Ends → Stepped service s e s.park
  | response {v : Json} : s.phase = .piping →
      Stepped service s (.peer v true) { s with toClient := s.toClient ++ [v] }
  | finish {e : PipeEvent} : s.phase = .piping → clientFrames [e] = [] → peerFrames [e] = [] →
      e.Ends → Stepped service s e s.finish

/-- A step of the pipe is one of its moves. -/
theorem stepped_of_step (h : step service s e = some s') : Stepped service s e s' := by
  unfold step at h
  split at h
  · next hphase =>
    split at h
    · obtain rfl := Option.some.inj h
      exact .dial hphase
    · obtain rfl := Option.some.inj h
      exact .stillborn hphase rfl rfl not_false
    · obtain rfl := Option.some.inj h
      exact .stillborn hphase rfl rfl not_false
    · obtain rfl := Option.some.inj h
      exact .stillborn hphase rfl rfl not_false
    · contradiction
    · contradiction
  · next hphase =>
    split at h
    · split at h
      · contradiction
      · next hparked =>
        obtain rfl := Option.some.inj h
        exact .request hphase (Bool.eq_false_iff.mpr hparked)
    · split at h
      · contradiction
      · next hparked =>
        obtain rfl := Option.some.inj h
        exact .park hphase (Bool.eq_false_iff.mpr hparked) rfl rfl not_false
    · split at h
      · contradiction
      · next hparked =>
        obtain rfl := Option.some.inj h
        exact .park hphase (Bool.eq_false_iff.mpr hparked) rfl rfl not_false
    · split at h
      · contradiction
      · next hparked =>
        obtain rfl := Option.some.inj h
        exact .park hphase (Bool.eq_false_iff.mpr hparked) rfl rfl not_false
    · obtain rfl := Option.some.inj h
      exact .response hphase
    · obtain rfl := Option.some.inj h
      exact .finish hphase rfl rfl trivial
    · obtain rfl := Option.some.inj h
      exact .finish hphase rfl rfl trivial
  · contradiction

/-- The session after the events. -/
structure Piped (service : String) (events : List PipeEvent) (s : PipeSession) : Prop where
  toPeer : s.toPeer = forwarded service (clientFrames events)
  toClient : s.toClient = peerFrames events
  opening : s.phase = .opening → clientFrames events = []
  begun : s.phase = .piping → clientFrames events ≠ []
  ended : s.phase = .ended → clientFrames events ≠ [] → ∃ e ∈ events, e.Ends

theorem clientFrames_snoc (events : List PipeEvent) (e : PipeEvent) :
    clientFrames (events ++ [e]) = clientFrames events ++ clientFrames [e] :=
  List.filterMap_append

theorem peerFrames_snoc (events : List PipeEvent) (e : PipeEvent) :
    peerFrames (events ++ [e]) = peerFrames events ++ peerFrames [e] :=
  List.filterMap_append

theorem piped_init : Piped service [] init where
  toPeer := rfl
  toClient := rfl
  opening := fun _ => rfl
  begun := nofun
  ended := nofun

/-- Each step keeps the account of both directions. -/
theorem piped_step (h : Piped service events s) (hstep : step service s e = some s') :
    Piped service (events ++ [e]) s' := by
  have hclient := clientFrames_snoc events e
  have hpeer := peerFrames_snoc events e
  cases stepped_of_step hstep with
  | @dial v hphase =>
      have hnone := h.opening hphase
      have hone : clientFrames (events ++ [.client (.frame v) true]) = [v] := by
        rw [hclient, hnone]
        rfl
      exact {
        toPeer := by rw [hone]; rfl
        toClient := h.toClient.trans (by rw [hpeer]; exact (List.append_nil _).symm)
        opening := nofun
        begun := fun _ => by rw [hone]; exact List.cons_ne_nil _ _
        ended := nofun }
  | stillborn hphase hnone hnone' _ =>
      rw [hnone, List.append_nil] at hclient
      rw [hnone', List.append_nil] at hpeer
      exact {
        toPeer := hclient ▸ h.toPeer
        toClient := hpeer ▸ h.toClient
        opening := nofun
        begun := nofun
        ended := fun _ hne => absurd (hclient.trans (h.opening hphase)) hne }
  | @request v hphase _ =>
      have hmore : clientFrames (events ++ [.client (.frame v) true]) =
        clientFrames events ++ [v] := hclient
      exact {
        toPeer := by
          rw [hmore, forwarded_append v _ (h.begun hphase)]
          exact congrArg (· ++ [v]) h.toPeer
        toClient := h.toClient.trans (by rw [hpeer]; exact (List.append_nil _).symm)
        opening := fun hopen => absurd (hphase.symm.trans hopen) (by decide)
        begun := fun _ => by
          rw [hmore]
          exact List.append_ne_nil_of_right_ne_nil _ (List.cons_ne_nil _ _)
        ended := fun hover => absurd (hphase.symm.trans hover) (by decide) }
  | park hphase _ hnone hnone' _ =>
      rw [hnone, List.append_nil] at hclient
      rw [hnone', List.append_nil] at hpeer
      exact {
        toPeer := hclient ▸ h.toPeer
        toClient := hpeer ▸ h.toClient
        opening := hclient ▸ h.opening
        begun := hclient ▸ h.begun
        ended := fun hover => absurd (hphase.symm.trans hover) (by decide) }
  | @response v hphase =>
      have hsame : clientFrames (events ++ [.peer v true]) = clientFrames events :=
        hclient.trans (List.append_nil _)
      exact {
        toPeer := hsame ▸ h.toPeer
        toClient := by
          rw [hpeer]
          exact congrArg (· ++ [v]) h.toClient
        opening := hsame ▸ h.opening
        begun := hsame ▸ h.begun
        ended := fun hover => absurd (hphase.symm.trans hover) (by decide) }
  | finish hphase hnone hnone' hends =>
      rw [hnone, List.append_nil] at hclient
      rw [hnone', List.append_nil] at hpeer
      exact {
        toPeer := hclient ▸ h.toPeer
        toClient := hpeer ▸ h.toClient
        opening := nofun
        begun := nofun
        ended := fun _ _ => ⟨e, List.mem_append_right events (List.mem_singleton_self e), hends⟩ }

/-- The account of both directions, in every run. -/
theorem piped_run (hrun : run (step service) init events = some s) : Piped service events s :=
  run_history (I := Piped service) piped_init (fun _ _ _ _ _ => piped_step) hrun

/-! ## both ends -/

/-- A client that has ended its half still gets all that the peer sends: until
the session is over nothing but the peer, or a client that is gone, can end it,
and each frame of the peer is passed on in its turn. -/
theorem half_close_loses_nothing (hrun : run (step service) init events = some s) :
    s.toClient = peerFrames events ∧
      (s.phase = .ended → clientFrames events ≠ [] → ∃ e ∈ events, e.Ends) ∧
      (clientFrames events ≠ [] → (∀ e ∈ events, ¬ e.Ends) →
        ∀ v, ∃ s', step service s (.peer v true) = some s' ∧ s'.toClient = s.toClient ++ [v]) := by
  have hpiped := piped_run hrun
  refine ⟨hpiped.toClient, hpiped.ended, fun hbegun hnone v => ?_⟩
  have hphase : s.phase = .piping := by
    cases hphase : s.phase with
    | opening => exact absurd (hpiped.opening hphase) hbegun
    | piping => rfl
    | ended =>
        obtain ⟨e, he, hends⟩ := hpiped.ended hphase hbegun
        exact absurd hends (hnone e he)
  exact ⟨{ s with toClient := s.toClient ++ [v] }, by unfold step; simp only [hphase], rfl⟩

/-- A client that names another service in its frame, and then half-closes. -/
def redirects : Entries :=
  [("id", .num 1 0), ("params", .obj [("_meta", .obj [("mcpmesh/service", .str "vault")])])]

def oneShot : List PipeEvent := [.client (.frame (.obj redirects)) true, .clientEnd]

theorem half_close_loses_nothing_example :
    ∃ s s', run (step "notes") init oneShot = some s ∧ s.parked = true ∧
      step "notes" s (.peer (.str "answer") true) = some s' ∧
      s'.toClient = s.toClient ++ [.str "answer"] := by
  have hrun : run (step "notes") init oneShot = some _ := rfl
  have hnone : ∀ e ∈ oneShot, ¬ e.Ends := by
    intro e he
    simp only [oneShot, List.mem_cons, List.not_mem_nil, or_false] at he
    obtain rfl | rfl := he <;> exact not_false
  obtain ⟨-, -, hgoes⟩ := half_close_loses_nothing hrun
  obtain ⟨s', hstep, hmore⟩ := hgoes (List.cons_ne_nil _ _) hnone (.str "answer")
  exact ⟨_, s', hrun, rfl, hstep, hmore⟩

/-- The far end of a dialled session: what it makes of the first frame that the
client was allowed to write is decided by the service that was dialled, and by
nothing the client put in the frame. -/
theorem dialled_service_answers {entries : Entries} {rest : List Json}
    (hrun : run (step service) init events = some s)
    (hhead : clientFrames events = .obj entries :: rest) {carries : Json → Inbound Json}
    (hcarries : carries (injectService (.obj entries) service) =
      .frame (injectService (.obj entries) service))
    (services : Services) (who : PeerIdentity) (admits : String → PeerIdentity → Bool) :
    runSession services (some who) admits (s.toPeer.map carries) =
      if (services.lookup service).any (callerAdmits who) && admits service who then
        ⟨[], .backend service who (mapMeta cleanEntries (ensureMeta (.obj entries)))
          (rest.map carries)⟩
      else ⟨[unserved (.obj entries)], .refused⟩ := by
  have hlines : s.toPeer.map carries =
      .frame (injectService (.obj entries) service) :: rest.map carries := by
    rw [(piped_run hrun).toPeer, hhead, forwarded, List.map_cons, hcarries]
  have hid : unserved (mapMeta cleanEntries (ensureMeta (.obj entries))) =
      unserved (.obj entries) := by
    rw [unserved, unserved, get_mapMeta (by decide), get_ensureMeta (by decide)]
  rw [hlines, runSession, recvFrame]
  dsimp only
  rw [selectService_injectService]
  by_cases hallowed : (services.lookup service).any (callerAdmits who) = true
  · rw [if_pos (mem_callerAllowed_iff.mpr hallowed), hallowed, Bool.true_and]
    dsimp only
    rw [hid]
    rfl
  · rw [if_neg fun hmem => hallowed (mem_callerAllowed_iff.mp hmem), Bool.eq_false_iff.mpr hallowed,
      Bool.false_and, if_neg Bool.false_ne_true]
    dsimp only
    rw [hid]
    rfl

/-- She reaches what she dialled. -/
theorem dialled_service_answers_example :
    ∃ s, run (step "notes") init oneShot = some s ∧
      ∃ init, runSession ServeState.onlyAlice (some ServeState.alicePhone) (fun _ _ => true)
        (s.toPeer.map .frame) = ⟨[], .backend "notes" ServeState.alicePhone init []⟩ := by
  have hrun : run (step "notes") init oneShot = some _ := rfl
  have hhead : clientFrames oneShot = .obj redirects :: [] := rfl
  have hanswers := dialled_service_answers hrun hhead rfl ServeState.onlyAlice
    ServeState.alicePhone fun _ _ => true
  rw [if_pos (by decide)] at hanswers
  exact ⟨_, hrun, _, hanswers⟩

end PipeSession

end Mcpmesh
