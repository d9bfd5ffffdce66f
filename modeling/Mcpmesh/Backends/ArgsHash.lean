import Mcpmesh.Backends.AuditTrail
import Mathlib.Data.Set.Function
import Mathlib.Data.String.Basic

/-!
# Mcpmesh.Backends.ArgsHash

The digest of a caller's arguments (`args_hash`, `node/src/audit/record.rs`) of a
frame that `sanitize_caller_frame` cleaned and, for a socket backend, stamped.

`args_hash` takes the stamp back out, but not the containers that were made for
it: `socketArgs` is what is hashed of the arguments sent to a socket backend, and
`sent_iff_socketArgs` says when those are the arguments as they were sent.
-/

namespace Mcpmesh

open Lib

/-- The arguments a caller sent, without what the strip removes. -/
def sentArgs (frame : Json) : Option Json :=
  (stripImpersonatingClientInfo (stripReservedMeta frame)).1.get "params"

/-- What is to count as the same arguments: none, null and an empty object, and
an `_meta` left empty and none. -/
def identified : Option Json → Json
  | none | some .null => .obj []
  | some (.obj ps) =>
      match ps.lookup "_meta" with
      | some (.obj []) => .obj (ps.filter fun e => e.1 ≠ "_meta")
      | _ => .obj ps
  | some params => params

/-- The entries of `params`, as a map iterates them. -/
def ParamsInOrder (frame : Json) : Prop :=
  ∀ ps, frame.get "params" = some (.obj ps) → ps.Pairwise fun e e' => e.1 < e'.1

/-- The value that `args_hash` renders of a frame that was cleaned for a backend. -/
def hashedArgs (peerMeta : Option Json) (frame : Json) : Option Json :=
  (sanitizeCallerFrame frame peerMeta).map fun r =>
    ProxySession.ownArgs ((r.1.get "params").getD .null)

/-- The arguments are there and not null, and where they are an object, `_meta`
is left out or keeps an entry that the caller sent. -/
structure Digestible (frame : Json) : Prop where
  params : ∃ params, frame.get "params" = some params ∧ params ≠ .null
  metadata : ∀ ps, frame.get "params" = some (.obj ps) → ∀ m, ps.lookup "_meta" = some m →
    ∃ ms, m = .obj ms ∧ cleanEntries ms ≠ []

namespace ProxySession

variable {σ : Type} (S : ProxySession σ)

/-- The `args_hash` that the auditor records of a frame of a caller. -/
def recordedHash (peerMeta : Option Json) (frame : Json) : Option String := do
  let (clean, _) ← sanitizeCallerFrame frame peerMeta
  let (_, _, hash) ← S.line clean
  some hash

/-- The digest is a function of the arguments: of these two frames, whoever sends
them to whichever backend. -/
structure DigestsArgs (f g : Json) : Prop where
  anyPeer : ∀ frame, frame = f ∨ frame = g → ∀ peer,
    S.recordedHash (some peer) frame = S.recordedHash none frame
  anyArgs : ∀ backend backend', S.recordedHash backend f = S.recordedHash backend' g →
    identified (sentArgs f) = identified (sentArgs g)

/-- Of the values that are hashed of the two frames no two collide, in their text
or in the hash. -/
def NoCollision (f g : Json) : Prop :=
  Set.InjOn (fun args => S.blake3 (S.text args).toUTF8.data.toList)
    {args | ∃ frame backend, (frame = f ∨ frame = g) ∧ hashedArgs backend frame = some args}

end ProxySession

/-! ## what is hashed -/

/-- What `args_hash` renders of arguments that a socket backend was sent. -/
def socketArgs : Option Json → Json
  | none | some .null => .obj []
  | some (.obj ps) =>
      match ps.lookup "_meta" with
      | some (.obj (_ :: _)) => .obj ps
      | _ => .obj (ps.filter fun e => e.1 ≠ "_meta")
  | some params => params

section Socket

variable {ps ms : Entries} {e : String × Json}

/-- A _meta with something in it is digested with the rest. -/
theorem socketArgs_kept (h : ps.lookup "_meta" = some (.obj (e :: ms))) :
    socketArgs (some (.obj ps)) = .obj ps := by
  simp only [socketArgs, h]

/-- An empty _meta, or one that is no object, is left out. -/
theorem socketArgs_dropped (h : ∀ e ms, ps.lookup "_meta" ≠ some (.obj (e :: ms))) :
    socketArgs (some (.obj ps)) = .obj (ps.filter fun e => e.1 ≠ "_meta") := by
  rw [socketArgs]
  split
  · next e ms hms => exact absurd hms (h e ms)
  · rfl

/-- Metadata keeps an entry, or reads as none. -/
theorem meta_cases (ps : Entries) :
    (∃ e ms, ps.lookup "_meta" = some (.obj (e :: ms))) ∨
      objectOf (ps.lookup "_meta") = [] ∧ ∀ e ms, ps.lookup "_meta" ≠ some (.obj (e :: ms)) := by
  cases h : ps.lookup "_meta" with
  | none => exact .inr ⟨rfl, by simp⟩
  | some m =>
      cases m with
      | obj ms =>
          cases ms with
          | nil => exact .inr ⟨rfl, by simp⟩
          | cons e ms => exact .inl ⟨e, ms, rfl⟩
      | null | bool | num | str | arr => exact .inr ⟨rfl, by simp⟩

end Socket

section Hashed

variable {f peer : Json} {es ps ms : Entries}

/-- A frame with a method is an object. -/
theorem isFrame_of_method (h : (f.get "method").any Json.isString = true) : f.IsFrame := by
  cases f with
  | obj => trivial
  | null | bool | num | str | arr => contradiction

/-- What the server gets as arguments is the cleaned params. -/
theorem sentArgs_eq (hf : f.IsFrame) : sentArgs f = (mapMeta cleanEntries f).get "params" := by
  have hclean : (stripImpersonatingClientInfo (stripReservedMeta f)).1 =
      descend (mapMeta cleanEntries) f 0 := selectService_frame f []
  rw [sentArgs, hclean, descend_frame hf]

/-- What a run backend gets is the cleaned frame. -/
theorem sanitize_run (hf : f.IsFrame) :
    (sanitizeCallerFrame f none).map Prod.fst = some (mapMeta cleanEntries f) := by
  have hclean : (stripImpersonatingClientInfo (stripReservedMeta f)).1 =
      descend (mapMeta cleanEntries) f 0 := selectService_frame f []
  rw [← @descend_frame (mapMeta cleanEntries) 0 f hf, ← hclean]
  rfl

/-- What a socket backend gets is stamped, too. -/
theorem sanitize_socket (hf : f.IsFrame) :
    (sanitizeCallerFrame f (some peer)).map Prod.fst =
      some (stamp peer (mapMeta cleanEntries f)) := by
  rw [sanitizeCallerFrame_eq, descend_frame hf, Function.comp_apply]

/-- Nothing that was cleaned is taken out again. -/
theorem ownArgs_of_clean {params : Json}
    (h : ∀ ms, (params.get "_meta").bind Json.asObject = some ms →
      ∀ e ∈ ms, reserved e.1 = false) : ProxySession.ownArgs params = params := by
  rw [ProxySession.ownArgs]
  split
  · next ms hms =>
    rw [if_neg]
    rw [List.any_eq_true]
    rintro ⟨e, he, hreserved⟩
    rw [h ms hms e he] at hreserved
    contradiction
  · rfl

/-- No reserved key is left in what is sent. -/
theorem unreserved_sentArgs {params : Json} (hf : f.IsFrame) (h : sentArgs f = some params)
    (hms : (params.get "_meta").bind Json.asObject = some ms) :
    ∀ e ∈ ms, reserved e.1 = false := by
  have hentries : metaEntries (mapMeta cleanEntries f) = some ms := by
    rw [metaEntries, metaOf, ← sentArgs_eq hf, h]
    exact hms
  rw [metaEntries_mapMeta] at hentries
  obtain ⟨entries, -, rfl⟩ := Option.map_eq_some_iff.mp hentries
  exact fun e he => unreserved_of_mem_cleanEntries he

/-- A run backend's arguments are digested as they are sent. -/
theorem hashedArgs_run (hf : f.IsFrame) :
    hashedArgs none f = some ((sentArgs f).getD .null) := by
  have hown : ProxySession.ownArgs ((sentArgs f).getD .null) = (sentArgs f).getD .null := by
    cases h : sentArgs f with
    | none => rfl
    | some params => exact ownArgs_of_clean fun ms hms => unreserved_sentArgs hf h hms
  obtain ⟨r, hr, hclean⟩ := Option.map_eq_some_iff.mp (sanitize_run hf)
  rw [hashedArgs, hr, Option.map_some, hclean, ← sentArgs_eq hf, hown]

/-- What the stamp adds the digest drops. -/
theorem retainUnreserved_stampEntries (hms : ∀ e ∈ ms, reserved e.1 = false) :
    retainUnreserved (stampEntries peer ms) = ms := by
  have hpeer : ∀ key ∈ peerKeys, ∀ v : Json, (!reserved (key, v).1) = false := by
    intro key hkey v
    rw [reserved_of_mem_peerKeys hkey]
    rfl
  rw [retainUnreserved, stampEntries, peerKeys, List.foldl_cons, List.foldl_cons, List.foldl_nil,
    Json.filter_insert _ (hpeer _ (by decide)), Json.filter_insert _ (hpeer _ (by decide)),
    List.filter_eq_self]
  intro e he
  rw [hms e he]
  rfl

/-- A stamped _meta has a reserved key. -/
theorem reserved_stampEntries :
    ((stampEntries peer ms).any fun e => reserved e.1) = true := by
  have hkey : "mcpmesh/peer" ∈ peerKeys := by decide
  obtain ⟨pre, post, hsplit, -⟩ := split_of_lookup (@lookup_stampEntries peer ms _ hkey)
  rw [List.any_eq_true]
  exact ⟨("mcpmesh/peer", peer), by rw [hsplit]; simp, reserved_of_mem_peerKeys hkey⟩

/-- An edit finds what was put there. -/
theorem modifyEntry_insert {key : String} {edit : Json → Json} (v : Json) :
    modifyEntry key edit (Json.insert es key v) = Json.insert es key (edit v) := by
  induction es with
  | nil => simp [Json.insert, upsert, modifyEntry]
  | cons e es ih =>
      rw [Json.insert, upsert, Json.insert, upsert]
      split
      · rw [modifyEntry, if_pos rfl]
      · next hne =>
        split
        · rw [modifyEntry, if_pos rfl]
        · rw [modifyEntry, if_neg hne]
          exact congrArg _ ih

/-- The stamp is taken out, with the container where nothing else is in it. -/
theorem ownArgs_stamped (hms : ∀ e ∈ ms, reserved e.1 = false) :
    ProxySession.ownArgs (.obj (Json.insert ps "_meta" (.obj (stampEntries peer ms)))) =
      if ms.isEmpty then .obj (ps.filter fun e => e.1 ≠ "_meta")
      else .obj (Json.insert ps "_meta" (.obj ms)) := by
  have hget : ((Json.obj (Json.insert ps "_meta" (.obj (stampEntries peer ms)))).get "_meta").bind
      Json.asObject = some (stampEntries peer ms) := by
    simp [Json.get, Json.asObject]
  rw [ProxySession.ownArgs, hget]
  dsimp only
  rw [if_pos reserved_stampEntries, retainUnreserved_stampEntries hms]
  split
  · rw [Json.mapObject, Json.filter_insert]
    simp
  · rw [Json.mapObject, modifyEntry_insert, Json.mapObject, retainUnreserved_stampEntries hms]

/-- What was put is found. -/
theorem get_putMeta : (putMeta es ps ms).get "params" =
    some (.obj (Json.insert ps "_meta" (.obj ms))) := by
  simp [putMeta, Json.get, Json.asObject]

/-- To insert what is there changes nothing, if the keys are in order. -/
theorem insert_eq_self {key : String} {v : Json} (horder : es.Pairwise fun e e' => e.1 < e'.1)
    (h : es.lookup key = some v) : Json.insert es key v = es := by
  refine upsert_eq_self _ _ _ _ (fun a b hab => ?_) ?_ ?_
  · rw [decide_eq_false_iff_not]
    exact (of_decide_eq_true hab).asymm
  · exact horder.imp fun hlt => decide_eq_true hlt
  · rw [rowOf_eq_lookup, h]

/-- What is sent is in the order in which it came. -/
theorem sentArgs_inOrder (hf : f.IsFrame) (horder : ParamsInOrder f)
    (h : sentArgs f = some (.obj ps)) : ps.Pairwise fun e e' => e.1 < e'.1 := by
  rw [sentArgs_eq hf, get_mapMeta_params, Option.map_eq_some_iff] at h
  obtain ⟨params, hparams, hobj⟩ := h
  cases params with
  | null | bool | num | str | arr => contradiction
  | obj ps' =>
      obtain rfl := Json.obj.inj hobj
      have hkeys := List.pairwise_map.mpr (horder ps' hparams)
      rw [← @keys_modifyEntry _ "_meta" (.mapObject cleanEntries)] at hkeys
      exact List.pairwise_map.mp hkeys

/-- A socket backend's arguments are digested without the stamp. -/
theorem hashedArgs_socket (hmethod : (f.get "method").any Json.isString = true)
    (horder : ParamsInOrder f) : hashedArgs (some peer) f = some (socketArgs (sentArgs f)) := by
  have hf := isFrame_of_method hmethod
  obtain ⟨r, hr, hclean⟩ := Option.map_eq_some_iff.mp (@sanitize_socket f peer hf)
  rw [hashedArgs, hr, Option.map_some, hclean, Option.some.injEq]
  have hmethod' : ((mapMeta cleanEntries f).get "method").any Json.isString = true := by
    rwa [get_mapMeta_of_ne (by decide)]
  have hsent := sentArgs_eq hf
  have hstamp : ∀ ps, objectOf (sentArgs f) = ps → attributable (mapMeta cleanEntries f) = true →
      (∀ e ∈ objectOf (ps.lookup "_meta"), reserved e.1 = false) →
      ProxySession.ownArgs (((stamp peer (mapMeta cleanEntries f)).get "params").getD .null) =
        if (objectOf (ps.lookup "_meta")).isEmpty then .obj (ps.filter fun e => e.1 ≠ "_meta")
        else .obj (Json.insert ps "_meta" (.obj (objectOf (ps.lookup "_meta")))) := by
    rintro ps rfl hattr hms
    rw [stamp, if_pos hattr, get_putMeta, Option.getD_some, ← hsent, ownArgs_stamped hms]
  cases hargs : sentArgs f with
  | none =>
      rw [hstamp [] (by rw [hargs]; rfl) (by rw [attributable, hmethod', ← hsent, hargs]; rfl)
        (fun e he => absurd he List.not_mem_nil)]
      rfl
  | some params =>
      cases params with
      | null =>
          rw [hstamp [] (by rw [hargs]; rfl) (by rw [attributable, hmethod', ← hsent, hargs]; rfl)
            (fun e he => absurd he List.not_mem_nil)]
          rfl
      | obj ps =>
          have hobj : objectOf (sentArgs f) = ps := by
            rw [hargs]
            rfl
          have hattr : attributable (mapMeta cleanEntries f) = true := by
            rw [attributable, hmethod', ← hsent, hargs]
            rfl
          obtain ⟨e, ms, hlookup⟩ | ⟨hnil, hnot⟩ := meta_cases ps
          · have hms : objectOf (ps.lookup "_meta") = e :: ms := by
              rw [hlookup]
              rfl
            have hclean : ∀ e' ∈ e :: ms, reserved e'.1 = false :=
              unreserved_sentArgs hf hargs (by simp [Json.get, Json.asObject, hlookup])
            rw [hstamp ps hobj hattr (by rwa [hms]), hms, if_neg (by simp), socketArgs_kept hlookup,
              insert_eq_self (sentArgs_inOrder hf horder hargs) hlookup]
          · rw [hstamp ps hobj hattr (fun e he => absurd (hnil ▸ he) List.not_mem_nil), hnil,
              if_pos List.isEmpty_nil, socketArgs_dropped hnot]
      | bool | num | str | arr =>
          have hattr : ¬ attributable (mapMeta cleanEntries f) = true := by
            rw [attributable, ← hsent, hargs, Bool.and_false]
            exact Bool.false_ne_true
          rw [stamp, if_neg hattr, ← hsent, hargs]
          rfl

/-! ## when the digest is of the arguments -/

/-- What is hashed for a socket backend are the arguments as they were sent. -/
theorem sent_iff_socketArgs {args : Option Json} : socketArgs args = args.getD .null ↔
    (∃ params, args = some params ∧ params ≠ .null) ∧
      ∀ ps, args = some (.obj ps) → ∀ m, ps.lookup "_meta" = some m →
        ∃ ms, m = .obj ms ∧ ms ≠ [] := by
  cases args with
  | none => simp [socketArgs]
  | some params =>
      cases params with
      | obj ps =>
          obtain ⟨e, ms, hlookup⟩ | ⟨-, hnot⟩ := meta_cases ps
          · rw [socketArgs_kept hlookup]
            simp [hlookup]
          · rw [socketArgs_dropped hnot, Option.getD_some, Json.obj.injEq, List.filter_eq_self]
            have hnone : (∀ e ∈ ps, decide (e.1 ≠ "_meta") = true) ↔ ps.lookup "_meta" = none := by
              rw [List.lookup_eq_none_iff]
              refine forall₂_congr fun e _ => ?_
              rw [decide_eq_true_iff, bne_iff_ne, ne_comm]
            rw [hnone]
            constructor
            · intro h
              simp [h]
            · rintro ⟨-, h⟩
              cases hm : ps.lookup "_meta" with
              | none => rfl
              | some m =>
                  obtain ⟨ms, rfl, hne⟩ := h ps rfl m hm
                  obtain ⟨e, rest, rfl⟩ := List.exists_cons_of_ne_nil hne
                  exact absurd hm (hnot e rest)
      | null | bool | num | str | arr => simp [socketArgs]

/-- A frame is digestible if the drop of an empty _meta changes nothing. -/
theorem digestible_iff (hf : f.IsFrame) :
    Digestible f ↔ socketArgs (sentArgs f) = (sentArgs f).getD .null := by
  have hsent : sentArgs f =
      (f.get "params").map (.mapObject (modifyEntry "_meta" (.mapObject cleanEntries))) := by
    rw [sentArgs_eq hf, get_mapMeta_params]
  rw [sent_iff_socketArgs, hsent]
  cases hparams : f.get "params" with
  | none => exact iff_of_false (fun h => by simpa [hparams] using h.params) (by simp)
  | some params =>
      cases params with
      | obj ps =>
          have hlookup := @lookup_modifyEntry_self _ "_meta" (.mapObject cleanEntries) ps
          constructor
          · intro h
            refine ⟨⟨_, rfl, by simp [Json.mapObject]⟩, fun ps' hps' m hm => ?_⟩
            obtain rfl := Json.obj.inj (Option.some.inj hps')
            rw [hlookup, Option.map_eq_some_iff] at hm
            obtain ⟨m, hm, rfl⟩ := hm
            obtain ⟨ms, rfl, hne⟩ := h.metadata ps hparams m hm
            exact ⟨_, rfl, hne⟩
          · rintro ⟨-, h⟩
            refine ⟨⟨_, hparams, by simp⟩, fun ps' hps' m hm => ?_⟩
            obtain rfl := Json.obj.inj (Option.some.inj (hparams.symm.trans hps'))
            obtain ⟨ms, hms, hne⟩ := h _ rfl _ (hlookup.trans (by rw [hm, Option.map_some]))
            cases m with
            | obj ms' => exact ⟨ms', rfl, Json.obj.inj hms ▸ hne⟩
            | null | bool | num | str | arr => contradiction
      | null => exact iff_of_false (by rintro ⟨⟨_, h, hne⟩, _⟩; simp_all) (by simp [Json.mapObject])
      | bool | num | str | arr =>
          exact iff_of_true ⟨⟨_, hparams, by simp⟩, fun ps hps => by simp [hparams] at hps⟩
            (by simp [Json.mapObject])

/-! ## the digest -/

/-- A stamp touches the params alone. -/
theorem get_stamp_of_ne {key : String} (h : key ≠ "params") (peer f : Json) :
    (stamp peer f).get key = f.get key := by
  rw [stamp]
  split
  · rw [putMeta]
    refine (Json.lookup_insert_of_ne h _).trans ?_
    cases f with
    | obj es => rfl
    | null | bool | num | str | arr => rfl
  · rfl

/-- A cleaned frame has the method of the frame. -/
theorem methodName_clean {peerMeta : Option Json} {r : Json × Bool} (hf : f.IsFrame)
    (h : sanitizeCallerFrame f peerMeta = some r) : r.1.methodName = f.methodName := by
  have hclean : r.1.get "method" = f.get "method" := by
    cases peerMeta with
    | none =>
        have hrun := sanitize_run hf
        rw [h, Option.map_some, Option.some.injEq] at hrun
        rw [hrun, get_mapMeta_of_ne (by decide)]
    | some peer =>
        have hsocket := @sanitize_socket f peer hf
        rw [h, Option.map_some, Option.some.injEq] at hsocket
        rw [hsocket, get_stamp_of_ne (by decide), get_mapMeta_of_ne (by decide)]
  rw [Json.methodName, hclean, Json.methodName]

variable {σ : Type} {S : ProxySession σ}

/-- The digest of what is hashed. -/
theorem recordedHash_eq {backend : Option Json}
    (hmethod : (f.get "method").any Json.isString = true) :
    S.recordedHash backend f = (hashedArgs backend f).map fun args =>
      "blake3:" ++ S.blake3 (S.text args).toUTF8.data.toList := by
  obtain ⟨r, hr⟩ := Option.isSome_iff_exists.mp (sanitizeCallerFrame_isSome f backend)
  obtain ⟨method, hname⟩ : ∃ method, f.methodName = some method := by
    rw [Json.methodName]
    cases hm : f.get "method" with
    | none => simp [hm] at hmethod
    | some v =>
        rw [hm] at hmethod
        exact Option.isSome_iff_exists.mp hmethod
  rw [← methodName_clean (isFrame_of_method hmethod) hr] at hname
  rw [ProxySession.recordedHash, hr, hashedArgs, hr]
  simp only [Option.bind_eq_bind, Option.bind_some, ProxySession.line, hname, Option.map_some]
  rfl

/-- A digestible frame is digested as sent, for either backend. -/
theorem hashedArgs_of_digestible (hmethod : (f.get "method").any Json.isString = true)
    (horder : ParamsInOrder f) (h : Digestible f) (backend : Option Json) :
    hashedArgs backend f = some ((sentArgs f).getD .null) := by
  have hf := isFrame_of_method hmethod
  cases backend with
  | none => exact hashedArgs_run hf
  | some peer => rw [hashedArgs_socket hmethod horder, (digestible_iff hf).mp h]

/-- Without a collision equal digests are of equal values. -/
theorem hashedArgs_eq_of_recordedHash_eq {g f' g' : Json} {backend backend' : Option Json}
    (hcollision : S.NoCollision f g) (hf' : f' = f ∨ f' = g) (hg' : g' = f ∨ g' = g)
    (hmf : (f'.get "method").any Json.isString = true)
    (hmg : (g'.get "method").any Json.isString = true)
    (h : S.recordedHash backend f' = S.recordedHash backend' g') :
    hashedArgs backend f' = hashedArgs backend' g' := by
  rw [recordedHash_eq hmf, recordedHash_eq hmg] at h
  cases hargs : hashedArgs backend f' with
  | none =>
      rw [hargs, Option.map_none, eq_comm, Option.map_eq_none_iff] at h
      exact h.symm
  | some args =>
      rw [hargs, Option.map_some, eq_comm, Option.map_eq_some_iff] at h
      obtain ⟨args', hargs', hdigest⟩ := h
      have hblake3 := (String.append_right_inj _).mp hdigest
      rw [hargs', hcollision ⟨g', backend', hg', hargs'⟩ ⟨f', backend, hf', hargs⟩ hblake3]

end Hashed

/-- **When the digest is of the caller's arguments**: exactly when the arguments
of either frame are there, not null and have no container of metadata that is
left empty or malformed. -/
theorem digests_args_iff {σ : Type} (S : ProxySession σ) (f g : Json)
    (hf : (f.get "method").any Json.isString = true)
    (hg : (g.get "method").any Json.isString = true)
    (horderf : ParamsInOrder f) (horderg : ParamsInOrder g) (hcollision : S.NoCollision f g) :
    S.DigestsArgs f g ↔ Digestible f ∧ Digestible g := by
  constructor
  · intro h
    have hof : ∀ frame, frame = f ∨ frame = g →
        (frame.get "method").any Json.isString = true → ParamsInOrder frame → Digestible frame := by
      intro frame hframe hmethod horder
      have hargs := hashedArgs_eq_of_recordedHash_eq hcollision hframe hframe hmethod hmethod
        (h.anyPeer frame hframe .null)
      rw [hashedArgs_socket hmethod horder, hashedArgs_run (isFrame_of_method hmethod),
        Option.some.injEq] at hargs
      exact (digestible_iff (isFrame_of_method hmethod)).mpr hargs
    exact ⟨hof f (.inl rfl) hf horderf, hof g (.inr rfl) hg horderg⟩
  · rintro ⟨hdf, hdg⟩
    have hargsf := hashedArgs_of_digestible hf horderf hdf
    have hargsg := hashedArgs_of_digestible hg horderg hdg
    refine ⟨?_, fun backend backend' hdigest => ?_⟩
    · rintro frame (rfl | rfl) peer
      · rw [recordedHash_eq hf, recordedHash_eq hf, hargsf, hargsf]
      · rw [recordedHash_eq hg, recordedHash_eq hg, hargsg, hargsg]
    · have hsame := hashedArgs_eq_of_recordedHash_eq hcollision (.inl rfl) (.inr rfl) hf hg hdigest
      rw [hargsf, hargsg, Option.some.injEq] at hsame
      -- neither is absent, so what is hashed are the arguments
      obtain ⟨⟨p, hp, -⟩, -⟩ :=
        sent_iff_socketArgs.mp ((digestible_iff (isFrame_of_method hf)).mp hdf)
      obtain ⟨⟨q, hq, -⟩, -⟩ :=
        sent_iff_socketArgs.mp ((digestible_iff (isFrame_of_method hg)).mp hdg)
      rw [hp, hq, Option.getD_some, Option.getD_some] at hsame
      rw [hp, hq, hsame]

namespace Digests

/-- A request for a tool, with arguments and without metadata. -/
def call (name : String) : Json :=
  .obj [("method", .str "tools/call"), ("params", .obj [("name", .str name)])]

theorem call_inOrder (name : String) : ParamsInOrder (call name) := by
  intro ps hps
  obtain rfl := Json.obj.inj (Option.some.inj hps)
  exact List.pairwise_singleton ..

theorem call_digestible (name : String) : Digestible (call name) := by
  refine ⟨⟨_, rfl, by simp⟩, fun ps hps m hm => ?_⟩
  obtain rfl := Json.obj.inj (Option.some.inj hps)
  contradiction

/-- A request without arguments. -/
def ping : Json := .obj [("method", .str "ping")]

theorem ping_inOrder : ParamsInOrder ping := fun _ hps => by contradiction

/-- Two values with different digests do not collide. -/
theorem noCollision_of_two {f g x y : Json}
    (hvalues : ∀ frame, frame = f ∨ frame = g → ∀ backend,
      hashedArgs backend frame = some x ∨ hashedArgs backend frame = some y)
    (hdiffer : OneToken.session.blake3 (OneToken.session.text x).toUTF8.data.toList ≠
      OneToken.session.blake3 (OneToken.session.text y).toUTF8.data.toList) :
    OneToken.session.NoCollision f g := by
  have hof : ∀ args, (∃ frame backend, (frame = f ∨ frame = g) ∧
      hashedArgs backend frame = some args) → args = x ∨ args = y := by
    rintro args ⟨frame, backend, hframe, hargs⟩
    exact (hvalues frame hframe backend).imp (fun h => Option.some.inj (hargs.symm.trans h))
      fun h => Option.some.inj (hargs.symm.trans h)
  intro a ha b hb hab
  obtain rfl | rfl := hof a ha
  · obtain rfl | rfl := hof b hb
    · rfl
    · exact absurd hab hdiffer
  · obtain rfl | rfl := hof b hb
    · exact absurd hab.symm hdiffer
    · rfl

theorem calls_noCollision :
    OneToken.session.NoCollision (call "read_file") (call "write_file") := by
  refine noCollision_of_two (x := .obj [("name", .str "read_file")])
    (y := .obj [("name", .str "write_file")]) ?_ (by decide +kernel)
  rintro frame (rfl | rfl) backend
  · exact .inl (hashedArgs_of_digestible rfl (call_inOrder _) (call_digestible _) backend)
  · exact .inr (hashedArgs_of_digestible rfl (call_inOrder _) (call_digestible _) backend)

theorem ping_noCollision : OneToken.session.NoCollision ping ping := by
  refine noCollision_of_two (x := .null) (y := .obj []) ?_ (by decide +kernel)
  intro frame hframe backend
  obtain rfl : frame = ping := hframe.elim id id
  cases backend with
  | none => exact .inl rfl
  | some peer => exact .inr (hashedArgs_socket rfl ping_inOrder)

end Digests

/-- A request without arguments is recorded under one digest where a socket
serves it and under another where a `run` service does. -/
theorem absent_params_digests_differ :
    ¬ ∀ (S : ProxySession Nat) (f g : Json), (f.get "method").any Json.isString = true →
      (g.get "method").any Json.isString = true → ParamsInOrder f → ParamsInOrder g →
        S.NoCollision f g → S.DigestsArgs f g := by
  intro h
  have hdigests := h OneToken.session Digests.ping Digests.ping rfl rfl Digests.ping_inOrder
    Digests.ping_inOrder Digests.ping_noCollision
  have hdiffer : OneToken.session.recordedHash (some .null) Digests.ping ≠
      OneToken.session.recordedHash none Digests.ping := by decide +kernel
  exact hdiffer (hdigests.anyPeer Digests.ping (.inl rfl) .null)

/-- Two calls with arguments, without metadata. -/
theorem digests_args_iff_example :
    OneToken.session.DigestsArgs (Digests.call "read_file") (Digests.call "write_file") :=
  (digests_args_iff OneToken.session (Digests.call "read_file") (Digests.call "write_file") rfl rfl
    (Digests.call_inOrder _) (Digests.call_inOrder _) Digests.calls_noCollision).mpr
    ⟨Digests.call_digestible _, Digests.call_digestible _⟩

end Mcpmesh
