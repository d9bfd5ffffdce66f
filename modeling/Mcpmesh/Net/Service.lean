import Mcpmesh.Lib.Entries
import Mcpmesh.Roster.Schema

/-!
# Mcpmesh.Net.Service

Service selection on a session's first frame and the reserved `_meta`
namespace (`net/src/service.rs`).

Both strips walk a JSON-RPC batch the same way (`descend`) and edit the entries
of `params._meta` of each frame they reach (`mapMeta`).  Two relations say what
a walk may do: `MetaRel` relates frames that differ in the entries of
`params._meta` only, `BatchRel` lifts a relation of frames through batches.
-/

namespace Mcpmesh

open Lib

/-! ## values -/

/-- The entries of an object. -/
abbrev Entries := List (String × Json)

namespace Json

def asStr : Json → Option String
  | .str s => some s
  | _ => none

def asObject : Json → Option Entries
  | .obj entries => some entries
  | _ => none

def isString (j : Json) : Bool := j.asStr.isSome

/-- `Value::get` of a key that is no array index. -/
def get (j : Json) (key : String) : Option Json := j.asObject.bind (·.lookup key)

/-- Edit the entries of an object. -/
def mapObject (edit : Entries → Entries) : Json → Json
  | .obj entries => .obj (edit entries)
  | j => j

/-- Not a batch. -/
def IsFrame : Json → Prop
  | .arr _ => False
  | _ => True

/-- A value as the parser builds it: each object is a map. -/
inductive IsValue : Json → Prop where
  | null : IsValue .null
  | bool (b : Bool) : IsValue (.bool b)
  | num (m e : Int) : IsValue (.num m e)
  | str (s : String) : IsValue (.str s)
  | arr {xs : List Json} : (∀ x ∈ xs, IsValue x) → IsValue (.arr xs)
  | obj {entries : Entries} : (entries.map Prod.fst).Nodup → (∀ e ∈ entries, IsValue e.2) →
      IsValue (.obj entries)

end Json

/-- `str::starts_with`. -/
def startsWith (s pre : String) : Bool := pre.toList.isPrefixOf s.toList

/-- `pointer("/params/_meta")`. -/
def metaOf (frame : Json) : Option Json := (frame.get "params").bind (·.get "_meta")

/-- The entries of `params._meta`, when it is an object. -/
def metaEntries (frame : Json) : Option Entries := (metaOf frame).bind Json.asObject

/-- Edit the entries of `params._meta`, when it is an object. -/
def mapMeta (edit : Entries → Entries) : Json → Json :=
  .mapObject (modifyEntry "params" (.mapObject (modifyEntry "_meta" (.mapObject edit))))

/-! ## the reserved namespace -/

def legacyMetaPrefix : String := "mcpmesh/"

def metaPrefix : String := "tech.counterpunch.mcpmesh/"

/-- Every prefix mcpmesh reserves. -/
def reservedMetaPrefixes : List String := [legacyMetaPrefix, metaPrefix]

/-- The service-routing key, in both spellings, reverse-DNS first. -/
def serviceKeys : List String := ["tech.counterpunch.mcpmesh/service", "mcpmesh/service"]

def clientInfoKey : String := "io.modelcontextprotocol/clientInfo"

/-- The prefixes of a principal. -/
def principalPrefixes : List String := ["eid:", "b64u:"]

/-- Batches deeper than this are not descended into. -/
def maxBatchDepth : Nat := 8

def reserved (key : String) : Bool := reservedMetaPrefixes.any (startsWith key)

/-- A `clientInfo` whose name is written in the principal grammar. -/
def namesPrincipal (clientInfo : Json) : Bool :=
  ((clientInfo.get "name").bind Json.asStr).any fun n => principalPrefixes.any (startsWith n)

mutual

/-- Edit every frame of a batch; a batch at the depth bound stays as it is. -/
def descend (edit : Json → Json) : Json → Nat → Json
  | .arr batch, depth =>
      if depth < maxBatchDepth then .arr (descendElements edit batch (depth + 1)) else .arr batch
  | frame, _ => edit frame

def descendElements (edit : Json → Json) : List Json → Nat → List Json
  | [], _ => []
  | element :: batch, depth => descend edit element depth :: descendElements edit batch depth

end

mutual

/-- Whether a frame of a batch satisfies `p`; no element is skipped. -/
def anyFrame (p : Json → Bool) : Json → Nat → Bool
  | .arr batch, depth => if depth < maxBatchDepth then anyElement p batch (depth + 1) else false
  | frame, _ => p frame

def anyElement (p : Json → Bool) : List Json → Nat → Bool
  | [], _ => false
  | element :: batch, depth => anyFrame p element depth || anyElement p batch depth

end

/-- `meta.retain`: the reserved keys go. -/
def retainUnreserved (entries : Entries) : Entries := entries.filter fun e => !reserved e.1

/-- Delete every caller-supplied reserved key from `params._meta`. -/
def stripReservedMeta (frame : Json) : Json := descend (mapMeta retainUnreserved) frame 0

def impersonating (entries : Entries) : Bool := (entries.lookup clientInfoKey).any namesPrincipal

/-- The whole `clientInfo` entry goes when it names a principal. -/
def removeImpersonating (entries : Entries) : Entries :=
  if impersonating entries then entries.filter fun e => e.1 ≠ clientInfoKey else entries

/-- Remove a `clientInfo` that names itself in the principal grammar; the flag
says whether any was removed. -/
def stripImpersonatingClientInfo (frame : Json) : Json × Bool :=
  (descend (mapMeta removeImpersonating) frame 0,
    anyFrame (fun f => (metaEntries f).any impersonating) frame 0)

/-! ## selection -/

inductive ServiceDecision where
  | selected (name : String)
  | refuse
  deriving DecidableEq, Repr

/-- The value of a key of the frame's own `params._meta`. -/
def readMeta (frame : Json) (key : String) : Option Json := (metaOf frame).bind (·.get key)

/-- The two spellings name different services. -/
def conflicting : List (Option Json) → Bool
  | [a, b] =>
      match a.bind Json.asStr, b.bind Json.asStr with
      | some a, some b => a ≠ b
      | _, _ => false
  | _ => false

/-- Read the request, strip, then decide. -/
def selectService (init : Json) (callerAllowed : List String) : Json × ServiceDecision :=
  let entries := serviceKeys.map (readMeta init)
  let malformed := entries.reduceOption.any (!·.isString)
  let requested := entries.reduceOption.findSome? Json.asStr
  let stripped := (stripImpersonatingClientInfo (stripReservedMeta init)).1
  let decision :=
    if malformed || conflicting entries then .refuse
    else
      match requested, callerAllowed with
      | some name, _ => if name ∈ callerAllowed then .selected name else .refuse
      | none, [only] => .selected only
      | none, _ => .refuse
  (stripped, decision)

/-! ## what an edit of `params._meta` does -/

/-- Frames that are equal but for the entries of `params._meta`, which `R`
relates. -/
inductive MetaRel (R : Entries → Entries → Prop) : Json → Json → Prop where
  | absent {f : Json} : metaEntries f = none → MetaRel R f f
  | present {before after before' after' ms ms' : Entries} :
      "params" ∉ before.map Prod.fst → "_meta" ∉ before'.map Prod.fst → R ms ms' →
      MetaRel R
        (.obj (before ++ ("params", .obj (before' ++ ("_meta", .obj ms) :: after')) :: after))
        (.obj (before ++ ("params", .obj (before' ++ ("_meta", .obj ms') :: after')) :: after))

section MetaEdit

variable {edit edit' : Entries → Entries} {before after before' after' ms : Entries} {f : Json}

/-- The `_meta` of a frame that has one. -/
theorem metaEntries_present (hparams : "params" ∉ before.map Prod.fst)
    (hmeta : "_meta" ∉ before'.map Prod.fst) :
    metaEntries
      (.obj (before ++ ("params", .obj (before' ++ ("_meta", .obj ms) :: after')) :: after)) =
        some ms := by
  simp [metaEntries, metaOf, Json.get, Json.asObject, lookup_split hparams, lookup_split hmeta]

/-- An edit of the `_meta` of a frame that has one. -/
theorem mapMeta_present (hparams : "params" ∉ before.map Prod.fst)
    (hmeta : "_meta" ∉ before'.map Prod.fst) :
    mapMeta edit
      (.obj (before ++ ("params", .obj (before' ++ ("_meta", .obj ms) :: after')) :: after)) =
      .obj
        (before ++ ("params", .obj (before' ++ ("_meta", .obj (edit ms)) :: after')) :: after) := by
  simp only [mapMeta, Json.mapObject, modifyEntry_split hparams, modifyEntry_split hmeta]

/-- An object under a key is found by the lookup of that key. -/
theorem Json.get_eq_some_obj {j v : Json} {key : String} (h : j.get key = some v) :
    ∃ before after, j = .obj (before ++ (key, v) :: after) ∧ key ∉ before.map Prod.fst := by
  cases j with
  | obj entries =>
      obtain ⟨before, after, rfl, hkey⟩ := split_of_lookup h
      exact ⟨before, after, rfl, hkey⟩
  | null | bool | num | str | arr => contradiction

/-- A frame with `_meta` entries, taken apart around them. -/
theorem present_of_metaEntries (h : metaEntries f = some ms) :
    ∃ before after before' after',
      f = .obj (before ++ ("params", .obj (before' ++ ("_meta", .obj ms) :: after')) :: after) ∧
        "params" ∉ before.map Prod.fst ∧ "_meta" ∉ before'.map Prod.fst := by
  obtain ⟨m, hm, hobj⟩ := Option.bind_eq_some_iff.mp h
  obtain ⟨params, hparams, hget⟩ := Option.bind_eq_some_iff.mp hm
  obtain ⟨before, after, rfl, hbefore⟩ := Json.get_eq_some_obj hparams
  obtain ⟨before', after', rfl, hbefore'⟩ := Json.get_eq_some_obj hget
  cases m with
  | obj entries =>
      rw [← Option.some.inj hobj]
      exact ⟨before, after, before', after', rfl, hbefore, hbefore'⟩
  | null | bool | num | str | arr => contradiction

/-- Without `_meta` entries there is nothing to edit. -/
theorem mapMeta_absent (h : metaEntries f = none) : mapMeta edit f = f := by
  cases f with
  | null | bool | num | str | arr => rfl
  | obj entries =>
      rw [mapMeta, Json.mapObject, modifyEntry_eq_self]
      intro params hparams
      cases params with
      | null | bool | num | str | arr => rfl
      | obj entries' =>
          rw [Json.mapObject, modifyEntry_eq_self]
          intro m hm
          cases m with
          | null | bool | num | str | arr => rfl
          | obj ms => simp [metaEntries, metaOf, Json.get, Json.asObject, hparams, hm] at h

/-- An edit of the `_meta` is what it does to the entries. -/
theorem metaEntries_mapMeta : metaEntries (mapMeta edit f) = (metaEntries f).map edit := by
  cases h : metaEntries f with
  | none => rw [mapMeta_absent h, h, Option.map_none]
  | some ms =>
      obtain ⟨before, after, before', after', rfl, hparams, hmeta⟩ := present_of_metaEntries h
      rw [mapMeta_present hparams hmeta, metaEntries_present hparams hmeta, Option.map_some]

/-- Edits in turn are one edit. -/
theorem mapMeta_mapMeta : mapMeta edit (mapMeta edit' f) = mapMeta (edit ∘ edit') f := by
  cases h : metaEntries f with
  | none => rw [mapMeta_absent h, mapMeta_absent h, mapMeta_absent h]
  | some ms =>
      obtain ⟨before, after, before', after', rfl, hparams, hmeta⟩ := present_of_metaEntries h
      simp only [mapMeta_present hparams hmeta, Function.comp_apply]

/-- An edited frame is a frame. -/
theorem isFrame_mapMeta (h : f.IsFrame) : (mapMeta edit f).IsFrame := by
  cases f <;> exact h

/-- An edit changes the entries of `params._meta` only. -/
theorem metaRel_mapMeta {R : Entries → Entries → Prop}
    (h : ∀ ms, metaEntries f = some ms → R ms (edit ms)) : MetaRel R f (mapMeta edit f) := by
  cases hf : metaEntries f with
  | none =>
      rw [mapMeta_absent hf]
      exact .absent hf
  | some ms =>
      have hR := h ms hf
      obtain ⟨before, after, before', after', rfl, hparams, hmeta⟩ := present_of_metaEntries hf
      rw [mapMeta_present hparams hmeta]
      exact .present hparams hmeta hR

/-- An edit that sends related entries to the same ones makes the frames
equal. -/
theorem mapMeta_eq_of_metaRel {R : Entries → Entries → Prop} {f' : Json}
    (h : ∀ ms ms', R ms ms' → edit ms = edit ms') (hf : MetaRel R f f') :
    mapMeta edit f = mapMeta edit f' := by
  cases hf with
  | absent => rfl
  | present hparams hmeta hR =>
      rw [mapMeta_present hparams hmeta, mapMeta_present hparams hmeta, h _ _ hR]

end MetaEdit

/-! ## what a walk does -/

/-- Batches nested at most `n` deep that `R` relates frame by frame; a deeper
batch is related to itself only. -/
inductive BatchRel (R : Json → Json → Prop) : Nat → Json → Json → Prop where
  | frame {n : Nat} {f f' : Json} : f.IsFrame → R f f' → BatchRel R n f f'
  | deep (xs : List Json) : BatchRel R 0 (.arr xs) (.arr xs)
  | batch {n : Nat} {xs ys : List Json} : xs.length = ys.length →
      (∀ p ∈ xs.zip ys, BatchRel R n p.1 p.2) → BatchRel R (n + 1) (.arr xs) (.arr ys)

/-- `f` is reached from a value through at most `n` nested arrays. -/
inductive Nested : Nat → Json → Json → Prop where
  | here {n : Nat} {f : Json} : Nested n f f
  | element {n : Nat} {xs : List Json} {x f : Json} : x ∈ xs → Nested n x f →
      Nested (n + 1) (.arr xs) f

section Walk

variable {edit edit' : Json → Json} {n depth : Nat} {f : Json}

/-- What is no frame is a batch. -/
theorem Json.isFrame_or_batch (f : Json) : f.IsFrame ∨ ∃ xs, f = .arr xs := by
  cases f with
  | arr xs => exact .inr ⟨xs, rfl⟩
  | null | bool | num | str | obj => exact .inl trivial

/-- The descent into a batch is elementwise. -/
theorem descendElements_eq_map (xs : List Json) :
    descendElements edit xs depth = xs.map (descend edit · depth) := by
  induction xs with
  | nil => rfl
  | cons x xs ih => rw [descendElements, ih, List.map_cons]

/-- The descent into a frame edits it. -/
theorem descend_frame (h : f.IsFrame) : descend edit f depth = edit f := by
  cases f with
  | arr xs => contradiction
  | null | bool | num | str | obj => rfl

/-- The descent stops at the depth limit. -/
theorem descend_deep (xs : List Json) (h : maxBatchDepth ≤ depth) :
    descend edit (.arr xs) depth = .arr xs := by
  rw [descend, if_neg (Nat.not_lt.mpr h)]

/-- The descent goes one level down a batch. -/
theorem descend_batch (xs : List Json) (h : depth < maxBatchDepth) :
    descend edit (.arr xs) depth = .arr (xs.map (descend edit · (depth + 1))) := by
  rw [descend, if_pos h, descendElements_eq_map]

/-- Two walks are one walk with both edits. -/
theorem descend_descend (hframe : ∀ f : Json, f.IsFrame → (edit' f).IsFrame)
    (hdepth : depth + n = maxBatchDepth) :
    descend edit (descend edit' f depth) depth = descend (edit ∘ edit') f depth := by
  induction n generalizing f depth with
  | zero =>
      obtain hf | ⟨xs, rfl⟩ := f.isFrame_or_batch
      · rw [descend_frame hf, descend_frame (hframe f hf), descend_frame hf, Function.comp_apply]
      · rw [descend_deep xs (by omega), descend_deep xs (by omega), descend_deep xs (by omega)]
  | succ n ih =>
      obtain hf | ⟨xs, rfl⟩ := f.isFrame_or_batch
      · rw [descend_frame hf, descend_frame (hframe f hf), descend_frame hf, Function.comp_apply]
      · rw [descend_batch xs (by omega), descend_batch _ (by omega), descend_batch xs (by omega),
          List.map_map]
        congr 1
        exact List.map_congr_left fun x _ => ih (by omega)

/-- Every frame a walk reaches has been edited. -/
theorem descend_reaches {p : Json → Prop} (hbatch : ∀ xs, p (.arr xs))
    (hedit : ∀ f : Json, f.IsFrame → (edit f).IsFrame ∧ p (edit f))
    (hdepth : depth + n = maxBatchDepth) {g : Json} (h : Nested n (descend edit f depth) g) :
    p g := by
  induction n generalizing f depth with
  | zero =>
      obtain hf | ⟨xs, rfl⟩ := f.isFrame_or_batch
      · rw [descend_frame hf] at h
        cases h
        exact (hedit f hf).2
      · rw [descend_deep xs (by omega)] at h
        cases h
        exact hbatch xs
  | succ n ih =>
      obtain hf | ⟨xs, rfl⟩ := f.isFrame_or_batch
      · rw [descend_frame hf] at h
        have hframe := (hedit f hf).1
        cases heq : edit f with
        | arr xs =>
            rw [heq] at hframe
            contradiction
        | null | bool | num | str | obj =>
            rw [heq] at h
            cases h
            exact heq ▸ (hedit f hf).2
      · rw [descend_batch xs (by omega)] at h
        cases h with
        | here => exact hbatch _
        | element hmem hwithin =>
            obtain ⟨x, _, rfl⟩ := List.mem_map.mp hmem
            exact ih (by omega) hwithin

/-- A walk relates what it starts from to what it leaves, frame by frame. -/
theorem batchRel_descend {R : Json → Json → Prop}
    (hedit : ∀ f : Json, f.IsFrame → f.IsValue → R f (edit f)) (hf : f.IsValue)
    (hdepth : depth + n = maxBatchDepth) : BatchRel R n f (descend edit f depth) := by
  induction n generalizing f depth with
  | zero =>
      obtain hframe | ⟨xs, rfl⟩ := f.isFrame_or_batch
      · rw [descend_frame hframe]
        exact .frame hframe (hedit f hframe hf)
      · rw [descend_deep xs (by omega)]
        exact .deep xs
  | succ n ih =>
      obtain hframe | ⟨xs, rfl⟩ := f.isFrame_or_batch
      · rw [descend_frame hframe]
        exact .frame hframe (hedit f hframe hf)
      · rw [descend_batch xs (by omega)]
        cases hf with
        | arr hxs =>
            refine .batch (List.length_map _).symm fun p hp => ?_
            rw [← List.map_prod_left_eq_zip] at hp
            obtain ⟨x, hx, rfl⟩ := List.mem_map.mp hp
            exact ih (hxs x hx) (by omega)

/-- A walk cannot tell values apart that its edit cannot tell apart. -/
theorem descend_eq_of_batchRel {R : Json → Json → Prop} {f' : Json}
    (hframe : ∀ f f' : Json, R f f' → f.IsFrame → f'.IsFrame)
    (hedit : ∀ f f' : Json, R f f' → edit f = edit f') (hdepth : depth + n = maxBatchDepth)
    (h : BatchRel R n f f') : descend edit f depth = descend edit f' depth := by
  induction h generalizing depth with
  | frame hf hR => rw [descend_frame hf, descend_frame (hframe _ _ hR hf), hedit _ _ hR]
  | deep xs => rfl
  | @batch n xs ys hlen _ ih =>
      rw [descend_batch _ (by omega), descend_batch _ (by omega)]
      congr 1
      calc
        xs.map (descend edit · (depth + 1))
          = ((xs.zip ys).map Prod.fst).map (descend edit · (depth + 1)) := by
            rw [List.map_fst_zip hlen.le]
        _ = ((xs.zip ys).map Prod.snd).map (descend edit · (depth + 1)) := by
            rw [List.map_map, List.map_map]
            exact List.map_congr_left fun p hp => ih p hp (by omega)
        _ = ys.map (descend edit · (depth + 1)) := by
            rw [List.map_snd_zip hlen.ge]

end Walk

/-! ## the reserved namespace, cleaned -/

/-- Both edits of `select_service` on the entries of one `params._meta`. -/
def cleanEntries (entries : Entries) : Entries := removeImpersonating (retainUnreserved entries)

/-- What the strip may drop: reserved keys, and a `clientInfo` that names a
principal. -/
def Cleaned (entries entries' : Entries) : Prop :=
  entries'.Sublist entries ∧
    ∀ e ∈ entries, e ∉ entries' →
      reserved e.1 = true ∨ e.1 = clientInfoKey ∧ namesPrincipal e.2 = true

/-- The same entries, reserved keys aside. -/
def SameUnreserved (entries entries' : Entries) : Prop :=
  (entries.filter fun e => !reserved e.1) = entries'.filter fun e => !reserved e.1

/-- Frames, or batches of them, that agree outside the reserved keys of each
`params._meta`. -/
def AgreeOutsideReserved : Json → Json → Prop :=
  BatchRel (MetaRel SameUnreserved) maxBatchDepth

/-- The filter only takes out. -/
theorem removeImpersonating_sublist (entries : Entries) :
    (removeImpersonating entries).Sublist entries := by
  rw [removeImpersonating]
  split
  · exact List.filter_sublist
  · exact List.Sublist.refl entries

/-- No entry left has a reserved name. -/
theorem unreserved_of_mem_cleanEntries {entries : Entries} {e : String × Json}
    (h : e ∈ cleanEntries entries) : reserved e.1 = false := by
  have hmem := (removeImpersonating_sublist _).subset h
  simpa using (List.mem_filter.mp hmem).2

/-- What is left names no principal. -/
theorem impersonating_removeImpersonating (entries : Entries) :
    impersonating (removeImpersonating entries) = false := by
  rw [removeImpersonating]
  split
  · have hnone : (entries.filter fun e => e.1 ≠ clientInfoKey).lookup clientInfoKey = none := by
      rw [List.lookup_eq_none_iff]
      exact fun e he => bne_iff_ne.mpr fun heq =>
        of_decide_eq_true (List.mem_filter.mp he).2 heq.symm
    rw [impersonating, hnone, Option.any_none]
  · rename_i h
    simpa using h

/-- Cleaning twice is cleaning once. -/
theorem cleanEntries_cleanEntries (entries : Entries) :
    cleanEntries (cleanEntries entries) = cleanEntries entries := by
  have hretain : retainUnreserved (cleanEntries entries) = cleanEntries entries := by
    rw [retainUnreserved, List.filter_eq_self]
    exact fun e he => by rw [unreserved_of_mem_cleanEntries he, Bool.not_false]
  have hremove := impersonating_removeImpersonating (retainUnreserved entries)
  rw [cleanEntries, hretain, removeImpersonating, cleanEntries, if_neg (by rw [hremove]; decide)]

/-- In a map, the entry that goes is the one that names a principal. -/
theorem cleaned_cleanEntries {entries : Entries} (hnodup : (entries.map Prod.fst).Nodup) :
    Cleaned entries (cleanEntries entries) := by
  refine ⟨(removeImpersonating_sublist _).trans List.filter_sublist, fun e he hgone => ?_⟩
  by_cases hres : reserved e.1 = true
  · exact .inl hres
  · have hkept : e ∈ retainUnreserved entries :=
      List.mem_filter.mpr ⟨he, by simpa using hres⟩
    rw [cleanEntries, removeImpersonating] at hgone
    split at hgone
    · rename_i himp
      have hkey : e.1 = clientInfoKey := by
        by_contra hne
        exact hgone (List.mem_filter.mpr ⟨hkept, decide_eq_true hne⟩)
      -- the lookup found an entry under that key, and a map has one
      obtain ⟨v, hv, hnames⟩ := (Option.any_eq_true ..).mp himp
      have hmem : (clientInfoKey, v) ∈ entries := by
        obtain ⟨before, after, heq, _⟩ := split_of_lookup hv
        refine List.filter_sublist.subset (?_ : (clientInfoKey, v) ∈ retainUnreserved entries)
        rw [heq]
        exact List.mem_append_right before List.mem_cons_self
      have heq : e = (clientInfoKey, v) :=
        List.inj_on_of_nodup_map hnodup he hmem hkey
      exact .inr ⟨hkey, by rw [heq]; exact hnames⟩
    · contradiction

/-- Both strips are one walk. -/
theorem selectService_frame (init : Json) (callerAllowed : List String) :
    (selectService init callerAllowed).1 = descend (mapMeta cleanEntries) init 0 := by
  have hframe : ∀ f : Json, f.IsFrame → (mapMeta retainUnreserved f).IsFrame :=
    fun _ hf => isFrame_mapMeta hf
  have hwalk : descend (mapMeta removeImpersonating) (descend (mapMeta retainUnreserved) init 0) 0 =
      descend (mapMeta removeImpersonating ∘ mapMeta retainUnreserved) init 0 :=
    descend_descend hframe (Nat.zero_add maxBatchDepth)
  have hedit : mapMeta removeImpersonating ∘ mapMeta retainUnreserved = mapMeta cleanEntries := by
    funext f
    exact mapMeta_mapMeta
  rw [hedit] at hwalk
  exact hwalk

/-- The entries of a value have distinct names. -/
theorem nodup_of_metaEntries {f : Json} (hf : f.IsValue) {entries : Entries}
    (h : metaEntries f = some entries) : (entries.map Prod.fst).Nodup := by
  obtain ⟨before, after, before', after', rfl, -, -⟩ := present_of_metaEntries h
  cases hf with
  | obj _ hvalues =>
      have hparams := hvalues _ (List.mem_append_right before List.mem_cons_self)
      cases hparams with
      | obj _ hvalues' =>
          have hmeta := hvalues' _ (List.mem_append_right before' List.mem_cons_self)
          cases hmeta with
          | obj hnodup _ => exact hnodup

/-- A frame related to a frame through its `_meta` is one. -/
theorem isFrame_of_metaRel {R : Entries → Entries → Prop} {f f' : Json} (h : MetaRel R f f')
    (hf : f.IsFrame) : f'.IsFrame := by
  cases h with
  | absent => exact hf
  | present => trivial

/-- A service is selected among those the caller may call. -/
theorem mem_of_selected {init : Json} {callerAllowed : List String} {name : String}
    (h : (selectService init callerAllowed).2 = .selected name) : name ∈ callerAllowed := by
  unfold selectService at h
  dsimp only at h
  split at h
  · contradiction
  · split at h
    · split at h
      · obtain rfl := ServiceDecision.selected.inj h
        assumption
      · contradiction
    · obtain rfl := ServiceDecision.selected.inj h
      exact List.mem_singleton_self _
    · contradiction

/-- The decision reads the two service keys of the frame's own `params._meta`,
and nothing else of the frame. -/
theorem selectService_decision {init init' : Json}
    (hkeys : ∀ key ∈ serviceKeys, readMeta init key = readMeta init' key)
    (callerAllowed : List String) :
    (selectService init callerAllowed).2 = (selectService init' callerAllowed).2 := by
  have hentries : serviceKeys.map (readMeta init) = serviceKeys.map (readMeta init') :=
    List.map_congr_left hkeys
  simp only [selectService, hentries]

/-- A caller's reserved metadata reaches no backend and steers nothing but the
service: it is gone from every `params._meta` within the depth bound, nothing
else is but a `clientInfo` that names a principal, a second pass finds nothing,
and only the two service keys make a difference. -/
theorem selectService_sanitizes {init : Json} (hinit : init.IsValue)
    (callerAllowed : List String) :
    (∀ f, Nested maxBatchDepth (selectService init callerAllowed).1 f →
      ∀ entries, metaEntries f = some entries → ∀ e ∈ entries, reserved e.1 = false) ∧
    BatchRel (MetaRel Cleaned) maxBatchDepth init (selectService init callerAllowed).1 ∧
    (∀ callerAllowed', (selectService (selectService init callerAllowed).1 callerAllowed').1 =
      (selectService init callerAllowed).1) ∧
    ∀ init', AgreeOutsideReserved init init' →
      (∀ key ∈ serviceKeys, readMeta init key = readMeta init' key) →
        selectService init callerAllowed = selectService init' callerAllowed := by
  refine ⟨fun f hwithin entries hentries e he => ?_, ?_, fun callerAllowed' => ?_,
    fun init' hagree hkeys => ?_⟩
  · rw [selectService_frame] at hwithin
    refine descend_reaches (p := fun f => ∀ entries, metaEntries f = some entries →
      ∀ e ∈ entries, reserved e.1 = false) (fun xs entries h => ?_) (fun f hf => ?_)
      (Nat.zero_add maxBatchDepth) hwithin entries hentries e he
    · contradiction
    · refine ⟨isFrame_mapMeta hf, fun entries hentries e he => ?_⟩
      rw [metaEntries_mapMeta] at hentries
      obtain ⟨ms, _, rfl⟩ := Option.map_eq_some_iff.mp hentries
      exact unreserved_of_mem_cleanEntries he
  · rw [selectService_frame]
    exact batchRel_descend (fun f _ hf => metaRel_mapMeta fun ms hms =>
      cleaned_cleanEntries (nodup_of_metaEntries hf hms)) hinit (Nat.zero_add maxBatchDepth)
  · rw [selectService_frame, selectService_frame,
      descend_descend (fun f hf => isFrame_mapMeta hf) (Nat.zero_add maxBatchDepth)]
    congr 1
    funext f
    rw [Function.comp_apply, mapMeta_mapMeta]
    congr 1
    funext entries
    exact cleanEntries_cleanEntries entries
  · refine Prod.ext ?_ (selectService_decision hkeys callerAllowed)
    rw [selectService_frame, selectService_frame]
    refine descend_eq_of_batchRel (fun _ _ => isFrame_of_metaRel) (fun f f' hrel => ?_)
      (Nat.zero_add maxBatchDepth) hagree
    exact mapMeta_eq_of_metaRel (fun ms ms' hms => congrArg removeImpersonating hms) hrel

/-- An `initialize` of a caller that forges a peer. -/
def forgedInit : Json :=
  .obj [("method", .str "initialize"),
    ("params", .obj [("_meta", .obj [("app/keep", .str "yes"),
      ("mcpmesh/peer", .str "attacker"), ("mcpmesh/service", .str "notes")])])]

theorem forgedInit_isValue : forgedInit.IsValue := by
  have hmeta : (Json.obj [("app/keep", .str "yes"), ("mcpmesh/peer", .str "attacker"),
      ("mcpmesh/service", .str "notes")]).IsValue :=
    .obj (by decide) (by simp [Json.IsValue.str])
  have hparams : (Json.obj [("_meta", .obj [("app/keep", .str "yes"),
      ("mcpmesh/peer", .str "attacker"), ("mcpmesh/service", .str "notes")])]).IsValue :=
    .obj (by decide) (by simpa using hmeta)
  exact .obj (by decide) (by simpa [Json.IsValue.str] using hparams)

/-- It is served, and what reaches the backend is clean. -/
theorem forgedInit_sanitized :
    (selectService forgedInit ["notes"]).2 = .selected "notes" ∧
      (selectService (selectService forgedInit ["notes"]).1 ["notes"]).1 =
        (selectService forgedInit ["notes"]).1 :=
  ⟨by decide, (selectService_sanitizes forgedInit_isValue ["notes"]).2.2.1 ["notes"]⟩

end Mcpmesh
