import Mcpmesh.Gate.Principals
import Mcpmesh.Lib.Table
import Mcpmesh.Net.Service

/-!
# Mcpmesh.Backends.Identity

The caller's identity on the frames a socket backend reads
(`node/src/backends/mod.rs`, `node/src/backends/socket.rs`).

A session's first frame passes `select_service` and then `inject_peer`, every
later one `sanitize_caller_frame`, and the two are one function of the frame
(`sanitizeCallerFrame_eq`): the walk that cleans, then the walk that stamps.
`IndexMut` on a value that is no object panics; here the write is then `none`,
and `injectPeer_eq` says that it never is.
-/

namespace Mcpmesh

open Lib

/-! ## values that are written into -/

namespace Json

/-- `Map::insert`, the keys in their order. -/
def insert (entries : Entries) (key : String) (value : Json) : Entries :=
  upsert (fun a b => a < b) key value entries

/-- `value[key]`: null where there is nothing. -/
def index (j : Json) (key : String) : Json := (j.get key).getD .null

def isObject (j : Json) : Bool := j.asObject.isSome

/-- Write through `value[key]`: a missing entry is null and a null base becomes
an object; any other base that is no object panics. -/
def indexMut (j : Json) (key : String) (edit : Json → Option Json) : Option Json :=
  match j with
  | .null => (edit .null).map fun v => .obj [(key, v)]
  | .obj entries => (edit (j.index key)).map fun v => .obj (insert entries key v)
  | _ => none

/-- `value[key] = v`. -/
def set (j : Json) (key : String) (v : Json) : Option Json := j.indexMut key fun _ => some v

end Json

/-! ## the stamp -/

/-- The identity key, in both spellings. -/
def peerKeys : List String := ["tech.counterpunch.mcpmesh/peer", "mcpmesh/peer"]

/-- `peer_meta_value`: who the gate resolved the caller to. -/
def peerMetaValue (id : PeerIdentity) : Json :=
  .obj [("eid", .str (principal id.endpoint)), ("groups", .arr (id.groups.map .str)),
    ("name", .str id.name), ("user_id", (id.userId.map .str).getD .null)]

/-- `inject_peer` on an object with a method. -/
def stampMeta (peer frame : Json) : Option Json := do
  -- a malformed `_meta` is replaced rather than deferred to
  let frame ←
    if ((frame.index "params").index "_meta").isObject then some frame
    else frame.indexMut "params" fun params => params.set "_meta" (.obj [])
  peerKeys.foldlM (fun frame key =>
    frame.indexMut "params" fun params => params.indexMut "_meta" fun m => m.set key peer) frame

/-- `inject_peer` on a value that is no batch. -/
def injectFrame (peer frame : Json) : Option Json :=
  if (frame.get "method").any Json.isString then
    match frame.get "params" with
    | none | some .null => do
        let frame ← frame.set "params" (.obj [])
        stampMeta peer frame
    | some (.obj _) => stampMeta peer frame
    -- positional arguments leave no place for metadata
    | some _ => some frame
  else some frame

mutual

/-- `inject_peer`: stamp every frame of a batch; `none` is a panic. -/
def injectPeer (peer : Json) : Json → Nat → Option Json
  | .arr batch, depth =>
      if depth < maxBatchDepth then (injectElements peer batch (depth + 1)).map .arr
      else some (.arr batch)
  | frame, _ => injectFrame peer frame

def injectElements (peer : Json) : List Json → Nat → Option (List Json)
  | [], _ => some []
  | element :: batch, depth => do
      let element ← injectPeer peer element depth
      let batch ← injectElements peer batch depth
      some (element :: batch)

end

/-- `sanitize_caller_frame`; the flag says whether a `clientInfo` was removed. -/
def sanitizeCallerFrame (frame : Json) (peerMeta : Option Json) : Option (Json × Bool) := do
  let (frame, impersonating) := stripImpersonatingClientInfo (stripReservedMeta frame)
  let frame ←
    match peerMeta with
    | some peer => injectPeer peer frame 0
    | none => some frame
  some (frame, impersonating)

/-- The first frame of a session, as `run_over` hands it to the pump. -/
def firstFrame (identity : Option PeerIdentity) (callerAllowed : List String) (init : Json) :
    Option Json :=
  let init := (selectService init callerAllowed).1
  match identity with
  | some id => injectPeer (peerMetaValue id) init 0
  | none => some init

/-- The frames of a session, as the server reads them when none is throttled. -/
def sessionFrames (identity : Option PeerIdentity) (callerAllowed : List String) (init : Json)
    (later : List Json) : Option (List Json) := do
  let init ← firstFrame identity callerAllowed init
  let later ← later.mapM fun frame =>
    (sanitizeCallerFrame frame (identity.map peerMetaValue)).map Prod.fst
  some (init :: later)

/-! ## what the stamp does -/

/-- The entries of a value, when it is there and an object. -/
def objectOf (j : Option Json) : Entries := (j.bind Json.asObject).getD []

/-- A request that has a place for metadata: a string method, and no positional
arguments. -/
def Attributable (frame : Json) : Prop :=
  (frame.get "method").any Json.isString = true ∧
    ∀ params, frame.get "params" = some params → params = .null ∨ ∃ ps, params = .obj ps

/-- The frame whose `params._meta` has the entries `ms`. -/
def putMeta (entries ps ms : Entries) : Json :=
  .obj (Json.insert entries "params" (.obj (Json.insert ps "_meta" (.obj ms))))

/-- The entries with the identity under both keys. -/
def stampEntries (peer : Json) (ms : Entries) : Entries :=
  peerKeys.foldl (fun ms key => Json.insert ms key peer) ms

def attributable (frame : Json) : Bool :=
  (frame.get "method").any Json.isString &&
    match frame.get "params" with
    | none | some .null | some (.obj _) => true
    | some _ => false

/-- What `inject_peer` leaves of a value that is no batch. -/
def stamp (peer frame : Json) : Json :=
  if attributable frame then
    let ps := objectOf (frame.get "params")
    putMeta (objectOf (some frame)) ps (stampEntries peer (objectOf (ps.lookup "_meta")))
  else frame

section Stamp

variable {peer f : Json} {entries ps ms : Entries} {key : String}

/-- The test decides which frames are attributed. -/
theorem attributable_iff : attributable f = true ↔ Attributable f := by
  rw [attributable, Attributable, Bool.and_eq_true]
  refine and_congr_right fun _ => ?_
  cases f.get "params" with
  | none => simp
  | some params => cases params <;> simp

/-- An insert, looked up at its key. -/
@[simp] theorem Json.lookup_insert_self (v : Json) :
    (Json.insert entries key v).lookup key = some v := by
  rw [Json.insert, ← rowOf_eq_lookup, rowOf_upsert_self]

/-- An insert, looked up at another. -/
theorem Json.lookup_insert_of_ne {key' : String} (h : key' ≠ key) (v : Json) :
    (Json.insert entries key v).lookup key' = entries.lookup key' := by
  rw [Json.insert, ← rowOf_eq_lookup, rowOf_upsert_of_ne _ _ _ _ h, rowOf_eq_lookup]

/-- A second insert replaces the first. -/
@[simp] theorem Json.insert_insert (v w : Json) :
    Json.insert (Json.insert entries key v) key w = Json.insert entries key w :=
  upsert_upsert _ _ _ _ _

/-- An insert of what a filter drops is dropped. -/
@[simp] theorem Json.filter_insert (v : Json) {p : String × Json → Bool}
    (h : ∀ v, p (key, v) = false) : (Json.insert entries key v).filter p = entries.filter p :=
  filter_upsert _ _ _ _ h

/-- One key of the stamp. -/
theorem indexMut_meta (peer : Json) (key : String)
    (hparams : entries.lookup "params" = some (.obj ps))
    (hmeta : ps.lookup "_meta" = some (.obj ms)) :
    ((Json.obj entries).indexMut "params" fun params =>
        params.indexMut "_meta" fun m => m.set key peer) =
      some (putMeta entries ps (Json.insert ms key peer)) := by
  simp [Json.indexMut, Json.set, Json.index, Json.get, Json.asObject, hparams, hmeta, putMeta]

/-- Setting the keys one by one is setting them all. -/
theorem foldlM_putMeta (keys : List String) :
    (keys.foldlM (fun frame key =>
        frame.indexMut "params" fun params => params.indexMut "_meta" fun m => m.set key peer)
        (putMeta entries ps ms)) =
      some (putMeta entries ps (keys.foldl (fun ms key => Json.insert ms key peer) ms)) := by
  induction keys generalizing ms with
  | nil => rfl
  | cons key keys ih =>
      have hparams : (Json.insert entries "params" (.obj (Json.insert ps "_meta" (.obj ms)))).lookup
          "params" = some (.obj (Json.insert ps "_meta" (.obj ms))) := Json.lookup_insert_self _
      have hone := indexMut_meta peer key hparams (Json.lookup_insert_self _)
      rw [List.foldlM_cons, putMeta, hone, Option.bind_eq_bind, Option.bind_some, putMeta,
        Json.insert_insert, Json.insert_insert, ← putMeta, ih, List.foldl_cons]

/-- Metadata that is no object is read as none. -/
theorem objectOf_of_not_object {j : Option Json} (h : ∀ ms, j ≠ some (.obj ms)) :
    objectOf j = [] := by
  cases j with
  | none => rfl
  | some j =>
      cases j with
      | obj ms => exact absurd rfl (h ms)
      | null | bool | num | str | arr => rfl

/-- A stamp puts the peer's keys into the object under _meta, or a new one. -/
theorem stampMeta_eq (hparams : entries.lookup "params" = some (.obj ps)) :
    stampMeta peer (.obj entries) =
      some (putMeta entries ps (stampEntries peer (objectOf (ps.lookup "_meta")))) := by
  have hindex : ((Json.obj entries).index "params").index "_meta" =
      (ps.lookup "_meta").getD .null := by
    simp [Json.index, Json.get, Json.asObject, hparams]
  rw [stampMeta, hindex]
  by_cases hobj : ∃ ms, ps.lookup "_meta" = some (.obj ms)
  · obtain ⟨ms, hms⟩ := hobj
    have hfirst := indexMut_meta peer "tech.counterpunch.mcpmesh/peer" hparams hms
    rw [hms, if_pos (by rfl), Option.bind_eq_bind, Option.bind_some, peerKeys]
    beta_reduce
    rw [List.foldlM_cons, hfirst, Option.bind_eq_bind, Option.bind_some, foldlM_putMeta]
    rfl
  · have hnone : ∀ ms, ps.lookup "_meta" ≠ some (.obj ms) := fun ms hms => hobj ⟨ms, hms⟩
    have hmalformed : ((ps.lookup "_meta").getD .null).isObject = false := by
      cases hm : ps.lookup "_meta" with
      | none => rfl
      | some m =>
          cases m with
          | obj ms => exact absurd hm (hnone ms)
          | null | bool | num | str | arr => rfl
    have hset : ((Json.obj entries).indexMut "params" fun params => params.set "_meta" (.obj [])) =
        some (putMeta entries ps []) := by
      simp [Json.indexMut, Json.set, Json.index, Json.get, Json.asObject, hparams, putMeta]
    rw [hmalformed, if_neg Bool.false_ne_true, hset, Option.bind_eq_bind, Option.bind_some]
    beta_reduce
    rw [foldlM_putMeta, objectOf_of_not_object hnone]
    rfl

/-- Nothing that is no object is indexed into, and the stamp is what is left. -/
theorem injectFrame_eq (peer f : Json) : injectFrame peer f = some (stamp peer f) := by
  rw [injectFrame, stamp, attributable]
  by_cases hmethod : (f.get "method").any Json.isString = true
  · rw [if_pos hmethod, hmethod, Bool.true_and]
    cases f with
    | null | bool | num | str | arr => contradiction
    | obj entries =>
        -- an absent `params` and a null one become the empty object
        have hfresh : (do
            let frame ← (Json.obj entries).set "params" (.obj [])
            stampMeta peer frame) = some (putMeta entries [] (stampEntries peer [])) := by
          have hset : (Json.obj entries).set "params" (.obj []) =
              some (.obj (Json.insert entries "params" (.obj []))) := rfl
          rw [hset, Option.bind_eq_bind, Option.bind_some,
            stampMeta_eq (Json.lookup_insert_self _), putMeta, Json.insert_insert]
          rfl
        split
        · next hparams =>
          rw [hparams]
          exact hfresh
        · next hparams =>
          rw [hparams]
          exact hfresh
        · next ps hparams =>
          rw [hparams]
          exact stampMeta_eq hparams
        · next params hnull hobj hparams =>
          rw [hparams, if_neg]
          cases params with
          | null => exact absurd rfl hnull
          | obj ps => exact absurd rfl (hobj ps)
          | bool | num | str | arr => exact Bool.false_ne_true
  · rw [if_neg hmethod, Bool.eq_false_of_not_eq_true hmethod, Bool.false_and,
      if_neg Bool.false_ne_true]

/-- A batch is stamped frame by frame. -/
theorem injectElements_eq {depth : Nat} {batch : List Json}
    (h : ∀ f ∈ batch, injectPeer peer f depth = some (descend (stamp peer) f depth)) :
    injectElements peer batch depth = some (batch.map (descend (stamp peer) · depth)) := by
  induction batch with
  | nil => rfl
  | cons f batch ih =>
      rw [injectElements, h f List.mem_cons_self,
        ih fun f' hf' => h f' (List.mem_cons_of_mem f hf')]
      rfl

/-- **No panic**: `inject_peer` is a walk over the batch. -/
theorem injectPeer_eq (peer f : Json) {depth n : Nat} (hdepth : depth + n = maxBatchDepth) :
    injectPeer peer f depth = some (descend (stamp peer) f depth) := by
  induction n generalizing f depth with
  | zero =>
      obtain hf | ⟨xs, rfl⟩ := f.isFrame_or_batch
      · rw [descend_frame hf, ← injectFrame_eq]
        cases f <;> first | rfl | contradiction
      · rw [descend_deep xs (by omega), injectPeer, if_neg (by omega)]
  | succ n ih =>
      obtain hf | ⟨xs, rfl⟩ := f.isFrame_or_batch
      · rw [descend_frame hf, ← injectFrame_eq]
        cases f <;> first | rfl | contradiction
      · rw [descend_batch xs (by omega), injectPeer, if_pos (by omega),
          injectElements_eq fun x _ => ih x (by omega), Option.map_some]

end Stamp

/-! ## what a backend reads -/

/-- The same entries, these keys aside. -/
def SameOutside (keys : List String) (entries entries' : Entries) : Prop :=
  (entries.filter fun e => e.1 ∉ keys) = entries'.filter fun e => e.1 ∉ keys

/-- Nothing is changed but the identity keys of `params._meta`; an absent, null
or malformed container of theirs becomes an object. -/
inductive Stamped : Json → Json → Prop where
  | mk {es es' ps' ms' : Entries} : SameOutside ["params"] es es' →
      es'.lookup "params" = some (.obj ps') →
      SameOutside ["_meta"] (objectOf (es.lookup "params")) ps' →
      ps'.lookup "_meta" = some (.obj ms') →
      SameOutside peerKeys (objectOf ((objectOf (es.lookup "params")).lookup "_meta")) ms' →
      Stamped (.obj es) (.obj es')

/-- What becomes of one frame of a caller. -/
structure Attributed (peer f f' : Json) : Prop where
  honest : ∀ ms, metaEntries f' = some ms → ∀ e ∈ ms, e.1 ∈ peerKeys → e.2 = peer
  stamped : Attributable f → ∀ key ∈ peerKeys, readMeta f' key = some peer
  bare : ¬ Attributable f → MetaRel Cleaned f f'
  rest : Attributable f → ∃ g, MetaRel Cleaned f g ∧ Stamped g f'

section Attributed

variable {peer f : Json} {edit : Entries → Entries} {es ps ms : Entries}

/-- An edit of _meta touches the params alone. -/
theorem get_mapMeta_of_ne {key : String} (h : key ≠ "params") :
    (mapMeta edit f).get key = f.get key := by
  cases f with
  | obj es => exact lookup_modifyEntry_of_ne h
  | null | bool | num | str | arr => rfl

/-- An edit of _meta is one within the params. -/
theorem get_mapMeta_params : (mapMeta edit f).get "params" =
    (f.get "params").map (.mapObject (modifyEntry "_meta" (.mapObject edit))) := by
  cases f with
  | obj es => exact lookup_modifyEntry_self
  | null | bool | num | str | arr => rfl

/-- The strip does not change what can be attributed. -/
theorem attributable_mapMeta : attributable (mapMeta edit f) = attributable f := by
  rw [attributable, attributable, get_mapMeta_of_ne (by decide), get_mapMeta_params]
  congr 1
  cases f.get "params" with
  | none => rfl
  | some params => cases params <;> rfl

/-- What was put is the _meta. -/
theorem metaOf_putMeta : metaOf (putMeta es ps ms) = some (.obj ms) := by
  simp [metaOf, putMeta, Json.get, Json.asObject]

theorem mem_of_mem_insert {key : String} {v : Json} {e : String × Json}
    (h : e ∈ Json.insert ms key v) : e = (key, v) ∨ e ∈ ms := mem_of_mem_upsert _ _ _ _ h

/-- What a stamp adds is the peer. -/
theorem mem_of_mem_stampEntries {e : String × Json} (h : e ∈ stampEntries peer ms) :
    e.2 = peer ∨ e ∈ ms := by
  rw [stampEntries, peerKeys, List.foldl_cons, List.foldl_cons, List.foldl_nil] at h
  obtain rfl | h := mem_of_mem_insert h
  · exact .inl rfl
  · obtain rfl | h := mem_of_mem_insert h
    · exact .inl rfl
    · exact .inr h

/-- Each of the peer's keys says the peer. -/
theorem lookup_stampEntries {key : String} (h : key ∈ peerKeys) :
    (stampEntries peer ms).lookup key = some peer := by
  rw [peerKeys, List.mem_cons, List.mem_singleton] at h
  rw [stampEntries, peerKeys, List.foldl_cons, List.foldl_cons, List.foldl_nil]
  obtain rfl | rfl := h
  · rw [Json.lookup_insert_of_ne (by decide), Json.lookup_insert_self]
  · rw [Json.lookup_insert_self]

/-- An insert of one of the keys touches the others not. -/
theorem sameOutside_insert {keys : List String} {key : String} (h : key ∈ keys) (v : Json) :
    SameOutside keys es (Json.insert es key v) := by
  rw [SameOutside, Json.filter_insert]
  simp [h]

/-- A stamp touches the peer's keys alone. -/
theorem sameOutside_stampEntries : SameOutside peerKeys ms (stampEntries peer ms) := by
  rw [stampEntries]
  have hfold : ∀ keys ⊆ peerKeys, ∀ ms : Entries,
      SameOutside peerKeys ms (keys.foldl (fun ms key => Json.insert ms key peer) ms) := by
    intro keys hkeys
    induction keys with
    | nil => exact fun _ => rfl
    | cons key keys ih =>
        intro ms
        rw [List.cons_subset] at hkeys
        exact (sameOutside_insert hkeys.1 peer).trans (ih hkeys.2 _)
  exact hfold peerKeys (List.Subset.refl _) ms

/-- A put of the stamped entries is stamped. -/
theorem stamped_putMeta :
    Stamped (.obj es) (putMeta es (objectOf (es.lookup "params"))
      (stampEntries peer (objectOf ((objectOf (es.lookup "params")).lookup "_meta")))) :=
  .mk (sameOutside_insert (by decide) _) (Json.lookup_insert_self _)
    (sameOutside_insert (by decide) _) (Json.lookup_insert_self _) sameOutside_stampEntries

/-- The peer's keys are reserved. -/
theorem reserved_of_mem_peerKeys {key : String} (h : key ∈ peerKeys) : reserved key = true := by
  have hall : ∀ key ∈ peerKeys, reserved key = true := by decide
  exact hall key h

/-- The entries the stamp starts from are those of the frame's own metadata. -/
theorem metaEntries_of_mem {e : String × Json}
    (h : e ∈ objectOf ((objectOf (es.lookup "params")).lookup "_meta")) :
    metaEntries (.obj es) =
      some (objectOf ((objectOf (es.lookup "params")).lookup "_meta")) := by
  rw [metaEntries, metaOf]
  cases hparams : es.lookup "params" with
  | none =>
      rw [hparams] at h
      exact absurd h List.not_mem_nil
  | some params =>
      rw [hparams] at h
      cases params with
      | null | bool | num | str | arr => exact absurd h List.not_mem_nil
      | obj ps =>
          have hps : objectOf (some (.obj ps)) = ps := rfl
          rw [hps] at h ⊢
          cases hmeta : ps.lookup "_meta" with
          | none =>
              rw [hmeta] at h
              exact absurd h List.not_mem_nil
          | some m =>
              rw [hmeta] at h
              cases m with
              | null | bool | num | str | arr => exact absurd h List.not_mem_nil
              | obj ms => simp [Json.get, Json.asObject, hparams, hmeta, objectOf]

/-- Clean, then stamp: the frame carries the caller's identity or none. -/
theorem attributed_stamp (peer : Json) (hf : f.IsValue) :
    Attributed peer f (stamp peer (mapMeta cleanEntries f)) := by
  have hclean : MetaRel Cleaned f (mapMeta cleanEntries f) :=
    metaRel_mapMeta fun ms hms => cleaned_cleanEntries (nodup_of_metaEntries hf hms)
  have hunreserved : ∀ ms, metaEntries (mapMeta cleanEntries f) = some ms →
      ∀ e ∈ ms, e.1 ∉ peerKeys := by
    intro ms hms e he hkey
    rw [metaEntries_mapMeta] at hms
    obtain ⟨entries, -, rfl⟩ := Option.map_eq_some_iff.mp hms
    have hres := unreserved_of_mem_cleanEntries he
    rw [reserved_of_mem_peerKeys hkey] at hres
    contradiction
  by_cases hattr : Attributable f
  · have hg : attributable (mapMeta cleanEntries f) = true := by
      rw [attributable_mapMeta, attributable_iff]
      exact hattr
    obtain ⟨es, hes⟩ : ∃ es, mapMeta cleanEntries f = .obj es := by
      cases f with
      | obj es => exact ⟨_, rfl⟩
      | null | bool | num | str | arr => exact absurd hattr.1 Bool.false_ne_true
    have hstamp : stamp peer (mapMeta cleanEntries f) =
        putMeta es (objectOf (es.lookup "params"))
          (stampEntries peer (objectOf ((objectOf (es.lookup "params")).lookup "_meta"))) := by
      rw [stamp, if_pos hg, hes]
      rfl
    rw [hstamp]
    refine ⟨fun ms hms e he hkey => ?_, fun _ key hkey => ?_, fun hbare => absurd hattr hbare,
      fun _ => ⟨.obj es, hes ▸ hclean, stamped_putMeta⟩⟩
    · rw [metaEntries, metaOf_putMeta] at hms
      obtain rfl := Option.some.inj hms
      obtain hpeer | he := mem_of_mem_stampEntries he
      · exact hpeer
      · -- an entry that was there before the stamp is not reserved
        refine absurd hkey (hunreserved _ ?_ e he)
        rw [hes]
        exact metaEntries_of_mem he
    · rw [readMeta, metaOf_putMeta]
      exact lookup_stampEntries hkey
  · have hg : ¬ attributable (mapMeta cleanEntries f) = true := by
      rw [attributable_mapMeta, attributable_iff]
      exact hattr
    rw [stamp, if_neg hg]
    exact ⟨fun ms hms e he hkey => absurd hkey (hunreserved ms hms e he),
      fun h => absurd h hattr, fun _ => hclean, fun h => absurd h hattr⟩

end Attributed

/-! ## sessions -/

/-- The two paths of a frame into a backend are one. -/
theorem sanitizeCallerFrame_eq (peer f : Json) :
    (sanitizeCallerFrame f (some peer)).map Prod.fst =
      some (descend (stamp peer ∘ mapMeta cleanEntries) f 0) := by
  have hclean : (stripImpersonatingClientInfo (stripReservedMeta f)).1 =
      descend (mapMeta cleanEntries) f 0 := selectService_frame f []
  rw [sanitizeCallerFrame]
  dsimp only
  rw [injectPeer_eq peer _ (Nat.zero_add maxBatchDepth), hclean,
    descend_descend (fun _ hf => isFrame_mapMeta hf) (Nat.zero_add maxBatchDepth)]
  rfl

/-- Cleaning never panics. -/
theorem sanitizeCallerFrame_isSome (frame : Json) (peerMeta : Option Json) :
    (sanitizeCallerFrame frame peerMeta).isSome = true := by
  cases peerMeta with
  | none => rfl
  | some peer =>
      have hclean := sanitizeCallerFrame_eq peer frame
      rw [← Option.isSome_map (f := Prod.fst), hclean, Option.isSome_some]

/-- The first frame is cleaned and stamped, at every depth. -/
theorem firstFrame_eq (id : PeerIdentity) (callerAllowed : List String) (init : Json) :
    firstFrame (some id) callerAllowed init =
      some (descend (stamp (peerMetaValue id) ∘ mapMeta cleanEntries) init 0) := by
  rw [firstFrame, injectPeer_eq _ _ (Nat.zero_add maxBatchDepth), selectService_frame,
    descend_descend (fun _ hf => isFrame_mapMeta hf) (Nat.zero_add maxBatchDepth)]

/-- Each frame of a session is cleaned and stamped. -/
theorem sessionFrames_eq (id : PeerIdentity) (callerAllowed : List String) (init : Json)
    (later : List Json) :
    sessionFrames (some id) callerAllowed init later =
      some ((init :: later).map fun f =>
        descend (stamp (peerMetaValue id) ∘ mapMeta cleanEntries) f 0) := by
  have hlater : ∀ later : List Json, (later.mapM fun frame =>
      (sanitizeCallerFrame frame ((some id).map peerMetaValue)).map Prod.fst) =
      some (later.map fun f => descend (stamp (peerMetaValue id) ∘ mapMeta cleanEntries) f 0) := by
    intro later
    induction later with
    | nil => rfl
    | cons f later ih =>
        rw [List.mapM_cons, ih, Option.map_some, sanitizeCallerFrame_eq]
        rfl
  rw [sessionFrames, firstFrame_eq, hlater]
  rfl

/-- **Every request a socket backend reads is its caller's**: no shape of a frame
panics, and each frame within the depth bound carries under an identity key the
authenticated peer or nothing, carries it when it is a request with a place for
it, and is otherwise as the caller sent it but for what the strip removes and
for the containers that the identity is put in. -/
theorem session_frames_attributed (id : PeerIdentity) (callerAllowed : List String) {init : Json}
    {later : List Json} (hvalues : ∀ f ∈ init :: later, f.IsValue) :
    ∃ read, sessionFrames (some id) callerAllowed init later = some read ∧
      List.Forall₂ (BatchRel (Attributed (peerMetaValue id)) maxBatchDepth) (init :: later)
        read := by
  refine ⟨_, sessionFrames_eq id callerAllowed init later, ?_⟩
  rw [List.forall₂_map_right_iff, List.forall₂_same]
  intro f hf
  exact batchRel_descend (fun f _ hf => attributed_stamp _ hf) (hvalues f hf)
    (Nat.zero_add maxBatchDepth)

/-- A caller without groups. -/
def caller : PeerIdentity :=
  { endpoint := Instance.ownId, name := "bob", userId := none, groups := [] }

/-- A request whose `_meta` is no object. -/
def malformedMeta : Json := .obj [("method", .str "ping"), ("params", .obj [("_meta", .str "7")])]

theorem malformedMeta_isValue : malformedMeta.IsValue := by
  have hparams : (Json.obj [("_meta", .str "7")]).IsValue :=
    .obj (by decide) (by simp [Json.IsValue.str])
  exact .obj (by decide) (by simpa [Json.IsValue.str] using hparams)

/-- What the caller had there is gone, under a key that is neither reserved nor
an injected one. -/
theorem malformedMeta_replaced :
    malformedMeta.IsValue ∧ metaOf malformedMeta = some (.str "7") ∧
      ∃ f', sessionFrames (some caller) ["notes"] malformedMeta [] = some [f'] ∧
        metaOf f' = some (.obj (stampEntries (peerMetaValue caller) [])) :=
  ⟨malformedMeta_isValue, rfl, _, rfl, rfl⟩

/-- A forged handshake and a malformed request, both attributed. -/
theorem session_frames_attributed_example :
    ∃ read, sessionFrames (some caller) ["notes"] forgedInit [malformedMeta] = some read ∧
      List.Forall₂ (BatchRel (Attributed (peerMetaValue caller)) maxBatchDepth)
        [forgedInit, malformedMeta] read :=
  session_frames_attributed caller ["notes"] (by
    simpa using ⟨forgedInit_isValue, malformedMeta_isValue⟩)

end Mcpmesh
