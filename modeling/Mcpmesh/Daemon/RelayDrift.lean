import Mcpmesh.Daemon.RelaySet

/-!
# Mcpmesh.Daemon.RelayDrift

Whether the three copies of the relay set drift apart.

Between calls the copies agree, and under the lock what a call has left to do
brings them to what it was asked for (`Steady`), as long as no call is aborted
whose write succeeds (`relay_set_never_drifts`).  One that is leaves the posture
behind, and the next call that asks for the old set answers that nothing has to
change (`aborted_call_drifts`).
-/

namespace Mcpmesh

open Lib ConfigDocument

namespace RelaySet

variable {Url : Type} [DecidableEq Url] {parse : String → Except String Url}
  {render : Url → String}

/-! ## lists of urls -/

/-- The relays of some urls are those that they parse to. -/
theorem relaysOf_of_parseAll {urls : List String} {parsed : List Url}
    (h : parseAll parse urls = .ok parsed) : relaysOf parse urls = parsed.toFinset := by
  induction urls generalizing parsed with
  | nil =>
      rw [← Except.ok.inj h]
      rfl
  | cons u us ih =>
      rw [parseAll] at h
      split at h
      · contradiction
      · next r hr =>
        cases hrest : parseAll parse us with
        | error e => rw [hrest] at h; contradiction
        | ok rest =>
            rw [hrest] at h
            have hurl : (parse u).toOption = some r := by rw [hr]; rfl
            rw [← Except.ok.inj h, relaysOf, List.filterMap_cons, hurl]
            simp only [List.toFinset_cons]
            exact congrArg (insert r) (ih hrest)

/-- Inserts in a row are a union. -/
theorem foldl_insert (parsed : List Url) (endpoint : Finset Url) :
    (parsed.map .insert).foldl RelayOp.apply endpoint = endpoint ∪ parsed.toFinset := by
  induction parsed generalizing endpoint with
  | nil => simp
  | cons r parsed ih =>
      rw [List.map_cons, List.foldl_cons, ih, RelayOp.apply, List.toFinset_cons,
        Finset.insert_union, Finset.union_insert]

/-- Removals in a row are a difference. -/
theorem foldl_remove (parsed : List Url) (endpoint : Finset Url) :
    (parsed.map .remove).foldl RelayOp.apply endpoint = endpoint \ parsed.toFinset := by
  induction parsed generalizing endpoint with
  | nil => simp
  | cons r parsed ih =>
      rw [List.map_cons, List.foldl_cons, ih, RelayOp.apply, List.toFinset_cons,
        Finset.sdiff_insert, Finset.erase_sdiff_comm]

omit [DecidableEq Url] in
/-- What is compared is rendered. -/
theorem rendered_of_mem_currentNorm {posture : RelayPosture} {norm : String}
    (h : norm ∈ currentNorm parse render posture) : ∃ r, render r = norm := by
  obtain ⟨u, -, hu⟩ := List.mem_filterMap.mp h
  obtain ⟨r, -, hr⟩ := Option.map_eq_some_iff.mp hu
  exact ⟨r, hr⟩

section Rendered

variable (hround : ∀ r, parse (render r) = .ok r)
include hround

omit [DecidableEq Url] in
/-- Two relays that are rendered alike are one. -/
theorem render_injective : Function.Injective render := by
  intro r r' heq
  have h := hround r
  rw [heq, hround r'] at h
  exact (Except.ok.inj h).symm

/-- Relays are read back as they are rendered. -/
theorem relaysOf_rendered (parsed : List Url) :
    relaysOf parse (parsed.map render) = parsed.toFinset := by
  rw [relaysOf, List.filterMap_map]
  simp [Function.comp_def, hround, Except.toOption]

/-- A relay is current if its rendering is. -/
theorem mem_currentNorm (posture : RelayPosture) (r : Url) :
    render r ∈ currentNorm parse render posture ↔ r ∈ relaysOf parse posture.urls := by
  rw [currentNorm, relaysOf, List.mem_toFinset, List.mem_filterMap, List.mem_filterMap]
  refine exists_congr fun u => and_congr_right fun _ => ?_
  rw [Option.map_eq_some_iff]
  constructor
  · rintro ⟨r', hr', heq⟩
    exact render_injective hround heq ▸ hr'
  · exact fun hr => ⟨r, hr, rfl⟩

/-- The comparison of the normalized lists compares the sets. -/
theorem currentNorm_eq_iff (posture : RelayPosture) (parsed : List Url) :
    (currentNorm parse render posture).toFinset = (parsed.map render).toFinset ↔
      relaysOf parse posture.urls = parsed.toFinset := by
  have hdesired : ∀ r, render r ∈ parsed.map render ↔ r ∈ parsed :=
    fun r => List.mem_map_of_injective (render_injective hround)
  constructor
  · intro h
    ext r
    rw [← mem_currentNorm hround, ← List.mem_toFinset, h, List.mem_toFinset, hdesired,
      List.mem_toFinset]
  · intro h
    ext norm
    rw [List.mem_toFinset, List.mem_toFinset]
    constructor
    · intro hnorm
      obtain ⟨r, rfl⟩ := rendered_of_mem_currentNorm hnorm
      rwa [mem_currentNorm hround, h, List.mem_toFinset, ← hdesired] at hnorm
    · intro hnorm
      obtain ⟨r, hr, rfl⟩ := List.mem_map.mp hnorm
      rw [mem_currentNorm hround, h]
      exact List.mem_toFinset.mpr hr

/-- **The delta** brings the endpoint from the posture to what is desired. -/
theorem apply_relayOps (parsed : List Url) (posture : RelayPosture) :
    (relayOps parse render parsed posture).foldl RelayOp.apply (relaysOf parse posture.urls) =
      parsed.toFinset := by
  have hremove : ((currentNorm parse render posture).filter (· ∉ parsed.map render)).filterMap
      (fun norm => (parse norm).toOption.map RelayOp.remove) =
      (((currentNorm parse render posture).filter (· ∉ parsed.map render)).filterMap
        fun norm => (parse norm).toOption).map .remove := by
    rw [List.map_filterMap]
  have hdesired : ∀ r, render r ∈ parsed.map render ↔ r ∈ parsed :=
    fun r => List.mem_map_of_injective (render_injective hround)
  rw [relayOps, List.foldl_append, hremove, foldl_insert, foldl_remove]
  ext r
  have hinserted : r ∈ (parsed.filter fun r => render r ∉ currentNorm parse render posture) ↔
      r ∈ parsed ∧ r ∉ relaysOf parse posture.urls := by
    rw [List.mem_filter, decide_eq_true_eq, mem_currentNorm hround]
  have hremoved : r ∈ (((currentNorm parse render posture).filter
      (· ∉ parsed.map render)).filterMap fun norm => (parse norm).toOption) ↔
      r ∈ relaysOf parse posture.urls ∧ r ∉ parsed := by
    rw [List.mem_filterMap]
    constructor
    · rintro ⟨norm, hnorm, hr⟩
      obtain ⟨hcurrent, hdropped⟩ := List.mem_filter.mp hnorm
      obtain ⟨r', rfl⟩ := rendered_of_mem_currentNorm hcurrent
      rw [hround] at hr
      obtain rfl := Option.some.inj hr
      rw [decide_eq_true_eq, hdesired] at hdropped
      exact ⟨(mem_currentNorm hround posture r').mp hcurrent, hdropped⟩
    · rintro ⟨hcurrent, hdropped⟩
      have hlisted := (mem_currentNorm hround posture r).mpr hcurrent
      refine ⟨render r, List.mem_filter.mpr ⟨hlisted, ?_⟩, ?_⟩
      · rw [decide_eq_true_eq, hdesired]
        exact hdropped
      · rw [hround]
        rfl
  rw [Finset.mem_sdiff, Finset.mem_union, List.mem_toFinset, List.mem_toFinset, List.mem_toFinset,
    hinserted, hremoved]
  tauto

end Rendered

/-! ## what is promised -/

/-- The three copies are one set. -/
structure InSync (parse : String → Except String Url) (copies : RelayCopies Url)
    (relays : Finset Url) : Prop where
  endpoint : copies.endpoint = relays
  posture : relaysOf parse copies.posture.urls = relays
  file : relaysOf parse (relayUrls copies.file) = relays

/-- What is promised of a call that has returned. -/
def Promised (parse : String → Except String Url) (copies : RelayCopies Url)
    (ret : RelayReturn Url) : Prop :=
  match ret.answer with
  | .ok r => InSync parse copies (relaysOf parse ret.urls) ∧
      (r.changed = false → InSync parse ret.found (relaysOf parse ret.urls))
  | .error _ => copies = ret.found

abbrev RelayCalled (Url : Type) :=
  Called (RelayWorld Url) RelayStep (Option (RelayReturn Url))

/-- A call is aborted after its write, or the write of an aborted call succeeds. -/
def Abandons (t : RelayCalled Url) : Prop :=
  match t.call with
  | .abort => ∃ c ops, t.pre.active = some c ∧ c.stage = .applying ops
  | .land i fault => ∃ urls, t.pre.detached[i]? = some urls ∧
      (writeFile t.pre.copies.file urls fault).2 = .written
  | _ => False

/-! ## what holds between the steps -/

/-- What the call under the lock has done. -/
def SetRelaysCall.Steady (copies : RelayCopies Url) (c : SetRelaysCall Url) : Prop :=
  match c.stage with
  | .writing => copies = c.found
  | .applying ops => copies.posture = c.found.posture ∧
      ops.foldl RelayOp.apply copies.endpoint = c.parsed.toFinset

structure RelayWorld.Steady (parse : String → Except String Url) (w : RelayWorld Url) : Prop where
  resting : w.active = none → w.copies.posture.mode = "custom" ∧
    InSync parse w.copies (relaysOf parse w.copies.posture.urls)
  active : ∀ c, w.active = some c → parseAll parse c.urls = .ok c.parsed ∧
    c.found.posture.mode = "custom" ∧
    InSync parse c.found (relaysOf parse c.found.posture.urls) ∧ c.Steady w.copies ∧
    ∀ ops, c.stage = .applying ops → relaysOf parse (relayUrls w.copies.file) = c.parsed.toFinset

/-- The urls that are written are read. -/
theorem relayUrls_of_writeRelays {urls : List String} {doc doc' : TomlTable}
    (h : writeRelays urls doc = .ok doc') : relayUrls (some doc') = urls := by
  rw [writeRelays] at h
  split at h
  · contradiction
  · rw [← Except.ok.inj h, relayUrls, networkValue]
    simp [stringArray]

/-- The write of the file, done or not. -/
theorem writeFile_cases (file : Option TomlTable) (urls : List String) (fault : FileFault) :
    (writeFile file urls fault).2 = .written ∧ relayUrls (writeFile file urls fault).1 = urls ∨
      (writeFile file urls fault).2 ≠ .written ∧ (writeFile file urls fault).1 = file := by
  rcases callConfig_cases file (.pin (.relays urls), fault) with ⟨doc, hcall, hedit⟩ | ⟨hfile, hout⟩
  · rw [writeFile, hcall]
    exact .inl ⟨rfl, relayUrls_of_writeRelays (map_some_ok hedit)⟩
  · exact .inr ⟨hout, hfile⟩

namespace RelayWorld

variable {w : RelayWorld Url} {c : SetRelaysCall Url}

/-- A node that boots has its relays in all three places. -/
theorem steady_boot {file : Option TomlTable} (h : boot parse file = some w) :
    w.Steady parse := by
  rw [boot] at h
  split at h
  · next elements _ hurls =>
    simp only [] at h
    split at h
    · contradiction
    · split at h
      · contradiction
      · next parsed hparsed =>
        have hread : relayUrls file = ConfigDocument.strings elements := by
          rw [relayUrls, hurls]
        have hrelays := relaysOf_of_parseAll hparsed
        obtain rfl := Option.some.inj h
        refine ⟨fun _ => ⟨rfl, hrelays.symm, rfl, ?_⟩, nofun⟩
        rw [hread]
  · contradiction

omit [DecidableEq Url] in
/-- A write that went through is in the file. -/
theorem wrote_of_written {fault : FileFault}
    (h : (writeFile w.copies.file (c.parsed.map render) fault).2 = .written) :
    w.wrote parse render c fault =
      ({ w with
          copies := { w.copies with
            file := (writeFile w.copies.file (c.parsed.map render) fault).1 }
          active := some { c with stage := .applying (c.ops parse render) } },
        none) := by
  rw [wrote]
  simp only [if_pos h]

omit [DecidableEq Url] in
/-- A write that failed leaves the call to return. -/
theorem wrote_of_failed {fault : FileFault}
    (h : (writeFile w.copies.file (c.parsed.map render) fault).2 ≠ .written) :
    w.wrote parse render c fault =
      ({ w with
          copies := { w.copies with
            file := (writeFile w.copies.file (c.parsed.map render) fault).1 }
          active := none },
        some ⟨c.urls, c.found,
          .error (.write (writeFile w.copies.file (c.parsed.map render) fault).2)⟩) := by
  rw [wrote]
  simp only [if_neg h]

variable (hround : ∀ r, parse (render r) = .ok r)
include hround

/-- A call that begins leaves the world steady. -/
theorem Steady.call (h : w.Steady parse) (urls : List String) :
    (w.call parse render urls).1.Steady parse ∧ ∀ ret ∈ (w.call parse render urls).2,
      Promised parse (w.call parse render urls).1.copies ret := by
  rw [RelayWorld.call]
  split
  · refine ⟨h, ?_⟩
    rintro ret ⟨⟩
    rfl
  · split
    · refine ⟨h, ?_⟩
      rintro ret ⟨⟩
      rfl
    · next parsed hparsed =>
      split
      · exact ⟨h, nofun⟩
      · next hfree =>
        obtain ⟨hmode, hsync⟩ := h.resting (by simpa using hfree)
        simp only []
        split
        · next hsame =>
          -- the posture has the set already, and the others are in step with it
          have hrequested : relaysOf parse w.copies.posture.urls = relaysOf parse urls :=
            ((currentNorm_eq_iff hround _ _).mp hsame).trans (relaysOf_of_parseAll hparsed).symm
          rw [hrequested] at hsync
          refine ⟨h, ?_⟩
          rintro ret ⟨⟩
          exact ⟨hsync, fun _ => hsync⟩
        · refine ⟨⟨nofun, ?_⟩, nofun⟩
          rintro c ⟨⟩
          exact ⟨hparsed, hmode, hsync, rfl, nofun⟩

/-- A write leaves it steady, whether it went through or not. -/
theorem Steady.wrote (h : w.Steady parse) (hactive : w.active = some c)
    (hstage : c.stage = .writing) (fault : FileFault) :
    (w.wrote parse render c fault).1.Steady parse ∧ ∀ ret ∈ (w.wrote parse render c fault).2,
      Promised parse (w.wrote parse render c fault).1.copies ret := by
  obtain ⟨hparsed, hmode, hsync, hsteady, -⟩ := h.active c hactive
  have hfound : w.copies = c.found := by
    rw [SetRelaysCall.Steady, hstage] at hsteady
    exact hsteady
  rcases writeFile_cases w.copies.file (c.parsed.map render) fault with
    ⟨hwritten, hfile⟩ | ⟨hfailed, hfile⟩
  · rw [wrote_of_written hwritten]
    refine ⟨⟨nofun, ?_⟩, nofun⟩
    rintro c' ⟨⟩
    have hposture : w.copies.posture = c.found.posture := by rw [hfound]
    refine ⟨hparsed, hmode, hsync, ⟨hposture, ?_⟩, fun _ _ => ?_⟩
    · have hlive : c.restartRequired = false := by simp [SetRelaysCall.restartRequired, hmode]
      rw [SetRelaysCall.ops, hlive, if_neg Bool.false_ne_true, hfound, hsync.endpoint]
      exact apply_relayOps hround c.parsed c.found.posture
    · rw [hfile]
      exact relaysOf_rendered hround c.parsed
  · rw [wrote_of_failed hfailed, hfile]
    have hrest : w.copies.posture.mode = "custom" ∧
        InSync parse w.copies (relaysOf parse w.copies.posture.urls) := by
      rw [hfound]
      exact ⟨hmode, hsync⟩
    refine ⟨⟨fun _ => hrest, nofun⟩, ?_⟩
    · rintro ret ⟨⟩
      exact hfound

/-- A call that is through leaves it steady, and what it returned holds. -/
theorem Steady.settle (h : w.Steady parse) (hactive : w.active = some c)
    (hstage : c.stage = .applying []) : (w.settle render c).1.Steady parse ∧
      ∀ ret ∈ (w.settle render c).2, Promised parse (w.settle render c).1.copies ret := by
  obtain ⟨hparsed, hmode, hsync, hsteady, hfile⟩ := h.active c hactive
  rw [SetRelaysCall.Steady, hstage] at hsteady
  have hlive : c.restartRequired = false := by simp [SetRelaysCall.restartRequired, hmode]
  have hrequested := relaysOf_of_parseAll hparsed
  have hposture := relaysOf_rendered hround c.parsed
  have hdone : InSync parse (w.settle render c).1.copies c.parsed.toFinset :=
    ⟨hsteady.2, hposture, hfile [] hstage⟩
  refine ⟨⟨fun _ => ⟨?_, ?_⟩, nofun⟩, ?_⟩
  · rw [RelayWorld.settle, hlive]
    rfl
  · have hnow : relaysOf parse (w.settle render c).1.copies.posture.urls = c.parsed.toFinset :=
      hposture
    exact hnow ▸ hdone
  · rintro ret ⟨⟩
    exact ⟨hrequested ▸ hdone, nofun⟩

/-- **One step**, unless it abandons a write. -/
theorem Steady.step (h : w.Steady parse) (e : RelayStep)
    (hsafe : ¬Abandons (callAt (RelayWorld.step parse render) w e)) :
    (w.step parse render e).1.Steady parse ∧
      ∀ ret ∈ (w.step parse render e).2, Promised parse (w.step parse render e).1.copies ret := by
  cases e with
  | call urls => exact h.call hround urls
  | write fault =>
      rw [RelayWorld.step]
      split
      · next c hactive =>
        split
        · next hstage => exact h.wrote hround hactive hstage fault
        · exact ⟨h, nofun⟩
      · exact ⟨h, nofun⟩
  | apply =>
      rw [RelayWorld.step]
      split
      · next c hactive =>
        split
        · exact ⟨h, nofun⟩
        · next hstage => exact h.settle hround hactive hstage
        · next op ops hstage =>
          obtain ⟨hparsed, hmode, hsync, hsteady, hfile⟩ := h.active c hactive
          rw [SetRelaysCall.Steady, hstage] at hsteady
          refine ⟨⟨nofun, ?_⟩, nofun⟩
          rintro c' ⟨⟩
          exact ⟨hparsed, hmode, hsync, hsteady, fun _ _ => hfile _ hstage⟩
      · exact ⟨h, nofun⟩
  | abort =>
      rw [RelayWorld.step]
      split
      · next c hactive =>
        obtain ⟨hparsed, hmode, hsync, hsteady, -⟩ := h.active c hactive
        cases hstage : c.stage with
        | applying ops => exact absurd ⟨c, ops, hactive, hstage⟩ hsafe
        | writing =>
            rw [SetRelaysCall.Steady, hstage] at hsteady
            exact ⟨⟨fun _ => hsteady ▸ ⟨hmode, hsync⟩, nofun⟩, nofun⟩
      · exact ⟨h, nofun⟩
  | land i fault =>
      rw [RelayWorld.step]
      split
      · next urls hi =>
        rcases writeFile_cases w.copies.file urls fault with ⟨hwritten, -⟩ | ⟨-, hfile⟩
        · exact absurd ⟨urls, hi, hwritten⟩ hsafe
        · rw [hfile]
          exact ⟨⟨h.resting, h.active⟩, nofun⟩
      · exact ⟨h, nofun⟩

end RelayWorld

/-- **The relay set never drifts** in a run that abandons no write. -/
theorem relay_set_never_drifts (hround : ∀ r, parse (render r) = .ok r)
    {file : Option TomlTable} {w : RelayWorld Url} (hboot : boot parse file = some w)
    (es : List RelayStep)
    (hsafe : ∀ t ∈ trace (RelayWorld.step parse render) w es, ¬Abandons t) :
    ∀ t ∈ trace (RelayWorld.step parse render) w es, ∀ ret ∈ t.out,
      Promised parse t.post.copies ret := by
  intro t ht ret hret
  have hpre : t.pre.Steady parse := trace_guarded_pre (I := RelayWorld.Steady parse)
    (fun w e hq h => (RelayWorld.Steady.step hround h e hq).1) (RelayWorld.steady_boot hboot)
    hsafe ht
  have hcall := eq_callAt_of_mem_trace ht
  have hstep := RelayWorld.Steady.step hround hpre t.call (hcall ▸ hsafe t ht)
  rw [hcall] at hret ⊢
  exact hstep.2 ret hret

/-! ## an aborted call -/

namespace RelayWorld

variable {w : RelayWorld Url} {urls : List String} {parsed : List Url}

omit [DecidableEq Url] in
/-- A call that asks for another set than the posture's goes on to its write. -/
theorem call_of_differ (hfree : w.active = none) (hurls : urls ≠ [])
    (hparsed : parseAll parse urls = .ok parsed)
    (hdiffer : (currentNorm parse render w.copies.posture).toFinset ≠
      (parsed.map render).toFinset) :
    w.call parse render urls =
      ({ w with active := some { urls, parsed, found := w.copies, stage := .writing } }, none) := by
  rw [RelayWorld.call, if_neg hurls, hparsed]
  simp only [hfree, Option.isSome_none, Bool.false_eq_true, if_false, if_neg hdiffer]

omit [DecidableEq Url] in
/-- One that asks for the posture's set is answered. -/
theorem call_of_same (hfree : w.active = none) (hurls : urls ≠ [])
    (hparsed : parseAll parse urls = .ok parsed)
    (hsame : (currentNorm parse render w.copies.posture).toFinset =
      (parsed.map render).toFinset) :
    ∃ restartRequired, w.call parse render urls =
      (w, some ⟨urls, w.copies, .ok ⟨false, restartRequired⟩⟩) := by
  rw [RelayWorld.call, if_neg hurls, hparsed]
  simp only [hfree, Option.isSome_none, Bool.false_eq_true, if_false, if_pos hsame]
  exact ⟨_, rfl⟩

end RelayWorld

/-- A call that is aborted once its write has succeeded leaves the posture behind:
the next one that asks for the set of the posture answers that nothing changes,
and the file has the other. -/
theorem aborted_call_drifts (hround : ∀ r, parse (render r) = .ok r) {w : RelayWorld Url}
    (hfree : w.active = none) {urls : List String} {parsed current : List Url} {fault : FileFault}
    (hurls : urls ≠ []) (hparsed : parseAll parse urls = .ok parsed)
    (hposture : w.copies.posture.urls ≠ [])
    (hcurrent : parseAll parse w.copies.posture.urls = .ok current)
    (hnew : current.toFinset ≠ parsed.toFinset)
    (hwritten : (writeFile w.copies.file (parsed.map render) fault).2 = .written) :
    ∃ t ∈ trace (RelayWorld.step parse render) w
        [.call urls, .write fault, .abort, .call w.copies.posture.urls],
      ∃ ret ∈ t.out, ¬Promised parse t.post.copies ret := by
  have hposted := relaysOf_of_parseAll hcurrent
  have hdiffer : (currentNorm parse render w.copies.posture).toFinset ≠
      (parsed.map render).toFinset := fun h =>
    hnew (hposted.symm.trans ((currentNorm_eq_iff hround _ _).mp h))
  -- the copies that the abort leaves
  have hleft : final (RelayWorld.step parse render) w [.call urls, .write fault, .abort] =
      { w with copies := { w.copies with
          file := (writeFile w.copies.file (parsed.map render) fault).1 } } := by
    rw [final_cons, RelayWorld.step, RelayWorld.call_of_differ hfree hurls hparsed hdiffer,
      final_cons, RelayWorld.step]
    simp only []
    rw [RelayWorld.wrote_of_written hwritten]
    simp only [final, RelayWorld.step, hfree]
  obtain ⟨restartRequired, hcall⟩ := @RelayWorld.call_of_same Url parse render
    { w with copies := { w.copies with
        file := (writeFile w.copies.file (parsed.map render) fault).1 } }
    w.copies.posture.urls current hfree hposture hcurrent
    ((currentNorm_eq_iff hround _ _).mpr hposted)
  have hmem := @last_mem_trace _ _ _ (RelayWorld.step parse render) w
    [.call urls, .write fault, .abort] (.call w.copies.posture.urls)
  refine ⟨_, hmem, ?_⟩
  rw [hleft, callAt, RelayWorld.step, hcall]
  refine ⟨_, rfl, fun hpromised => ?_⟩
  rcases writeFile_cases w.copies.file (parsed.map render) fault with
    ⟨-, hfile⟩ | ⟨hfailed, -⟩
  · have hsame : relaysOf parse (relayUrls (writeFile w.copies.file (parsed.map render) fault).1) =
        relaysOf parse w.copies.posture.urls := hpromised.1.file
    rw [hfile, relaysOf_rendered hround, hposted] at hsame
    exact hnew hsame.symm
  · exact hfailed hwritten

/-- A node that boots with one relay. -/
def bootFile : Option TomlTable :=
  some [("network", .table [("relay_mode", .leaf (.string "custom")),
    ("relay_urls", stringArray ["https://a.example./"])])]

/-- A list with a relay twice, a write that fails, and the old set again. -/
def wholeCalls : List RelayStep :=
  [.call ["https://b.example./", "https://b.example./"], .write .none, .apply, .apply, .apply,
    .call ["https://c.example./"], .write .write, .call ["https://a.example./"], .write .none,
    .apply, .apply, .apply]

theorem relay_set_never_drifts_of_whole_calls : ∃ w, @boot String _ .ok bootFile = some w ∧
    ∀ t ∈ trace (RelayWorld.step .ok id) w wholeCalls, ∀ ret ∈ t.out,
      Promised .ok t.post.copies ret := by
  refine ⟨_, rfl,
    @relay_set_never_drifts String _ .ok id (fun _ => rfl) bootFile _ rfl wholeCalls ?_⟩
  intro t ht habandons
  have hcall := (step_of_mem_trace ht).2
  rw [Abandons] at habandons
  split at habandons
  · next h => simp [wholeCalls, h] at hcall
  · next h => simp [wholeCalls, h] at hcall
  · exact habandons

/-- The second call answers that the relay of the boot is set; the file has the
other. -/
theorem aborted_set_relays_drifts : ∃ w, @boot String _ .ok bootFile = some w ∧
    ∃ t ∈ trace (RelayWorld.step .ok id) w [.call ["https://b.example./"], .write .none, .abort,
        .call ["https://a.example./"]],
      ∃ ret ∈ t.out, ¬Promised .ok t.post.copies ret := by
  refine ⟨_, rfl, ?_⟩
  exact aborted_call_drifts (fun _ => rfl) rfl (List.cons_ne_nil _ _) rfl (List.cons_ne_nil _ _) rfl
    (by decide) rfl

end RelaySet

end Mcpmesh
