import Mcpmesh.Blobs.FetchCancel

/-!
# Mcpmesh.Blobs.FetchExact

What every run of fetches and cancels keeps: the books of the slots, the tokens
that the calls took from them, and the frames of each fetch.

The terminal frame of a fetch is sent by `fetch_from_sources` or by its guard:
by both where the work is dropped in its export, after the transfer completed
(`fetch_cancellation_iff`).
-/

namespace Mcpmesh

open Lib Dial

/-! ## the frames of a call -/

/-- How many frames end a transfer. -/
def terminals (frames : List BlobTransfer) : Nat :=
  frames.countP fun f => f.state = .completed || f.state = .aborted

/-- At most one terminal frame, and one where the transfer has started. -/
def OneTerminal (frames : List BlobTransfer) : Prop :=
  terminals frames ≤ 1 ∧ ((∃ f ∈ frames, f.state = .started) → terminals frames = 1)

/-- Terminal frames add up. -/
theorem terminals_append (frames frames' : List BlobTransfer) :
    terminals (frames ++ frames') = terminals frames + terminals frames' :=
  List.countP_append

/-- The machine of a fetch sends its terminal frame when it returns. -/
theorem terminals_of_fetchFrames {counts : List Nat} {f : BlobFetch} (h : FetchFrames counts f) :
    terminals f.frames = (f.phase.terminal f.st.done).length := by
  have hpoints : terminals f.frames =
      (f.frames.map (·.point)).countP fun p => p.1 = .completed || p.1 = .aborted := by
    rw [List.countP_map]
    rfl
  have hmarks : ((marks none counts).map fun c => (BlobTransferState.progress, c)).countP
      (fun p => p.1 = .completed || p.1 = .aborted) = 0 := by
    rw [List.countP_map]
    exact List.countP_eq_zero.mpr (by simp)
  rw [hpoints, h.points, List.countP_append, List.countP_cons_of_neg (by simp), hmarks, zero_add]
  cases f.phase with
  | returned result => cases result <;> rfl
  | _ => rfl

namespace BlobFetchCall

inductive Moves (c : BlobFetchCall) (isCancelled : Bool) :
    FetchCallEvent → BlobFetchCall → Prop where
  | resolved {addrs skipped refused} (hstage : c.stage = .working .resolving) :
      Moves c isCancelled (.resolved addrs skipped refused)
        (c.follow (.begin c.ticket.hash (c.ticket.sources addrs !refused)) skipped)
  | unresolved {e} (hstage : c.stage = .working .resolving) :
      Moves c isCancelled (.unresolved e) (c.finish (.failed e))
  | transfer {f skipped e f'} (hstage : c.stage = .working (.transferring f skipped))
      (hstep : f.step e = some f') : Moves c isCancelled (.transfer e) (c.follow f' skipped)
  | exported {hash result answer} (hstage : c.stage = .working (.exporting hash)) :
      Moves c isCancelled (.exported result) (c.finish answer)
  | cancelled {w} (hstage : c.stage = .working w) (hcancelled : isCancelled) :
      Moves c isCancelled .cancelled
        { c with stage := .ended (some w), answer := some (.cancelled c.ticket.hash) }
  | aborted {w} (hstage : c.stage = .working w) :
      Moves c isCancelled .aborted { c with stage := .ended (some w) }
  | deregister {dropped} (hstage : c.stage = .ended dropped) :
      Moves c isCancelled .deregister { c with stage := .deregistered dropped }
  | finished (hstage : c.stage = .deregistered none) :
      Moves c isCancelled .drop { c with stage := .gone }
  | unfinished {w} (hstage : c.stage = .deregistered (some w)) :
      Moves c isCancelled .drop
        { c with stage := .gone, frames := c.frames ++ [fetchAborted c.ticket.hash] }

variable {c c' : BlobFetchCall} {isCancelled : Bool} {e : FetchCallEvent}

/-- A step of a call is one of its moves. -/
theorem moves_of_step (h : c.step isCancelled e = some c') : c.Moves isCancelled e c' := by
  unfold step at h
  split at h
  · next hstage => exact Option.some.inj h ▸ .resolved hstage
  · next hstage => exact Option.some.inj h ▸ .unresolved hstage
  · next hstage =>
    obtain ⟨f', hstep, rfl⟩ := Option.map_eq_some_iff.mp h
    exact .transfer hstage hstep
  · next hstage => exact Option.some.inj h ▸ .exported hstage
  · next hstage => exact Option.some.inj h ▸ .exported hstage
  · next hstage =>
    obtain ⟨hcancelled, h⟩ := Option.ite_none_right_eq_some.mp h
    exact Option.some.inj h ▸ .cancelled hstage hcancelled
  · next hstage => exact Option.some.inj h ▸ .aborted hstage
  · next hstage => exact Option.some.inj h ▸ .deregister hstage
  · next hstage => exact Option.some.inj h ▸ .finished hstage
  · next hstage => exact Option.some.inj h ▸ .unfinished hstage
  · contradiction

/-- What a call that waits at its work, or was dropped there, has sent. -/
def WorkFramed (frames : List BlobTransfer) : FetchWork → Prop
  | .resolving => frames = []
  | .transferring f _ => terminals frames = 0 ∧ ∃ counts, FetchFrames counts f
  | .exporting _ => terminals frames = 1

/-- What a call has sent where it is. -/
def Framed (c : BlobFetchCall) : Prop :=
  match c.stage with
  | .working w | .ended (some w) | .deregistered (some w) => WorkFramed c.frames w
  | .ended none | .deregistered none | .gone => OneTerminal c.frames

/-- What a subscriber is promised of a call. -/
def FramesExact (c : BlobFetchCall) : Prop :=
  terminals c.frames ≤ 1 ∧ (c.stage = .gone → OneTerminal c.frames)

/-- The guard is to send a frame after the one of a transfer that completed. -/
def droppedInExport (c : BlobFetchCall) : Bool :=
  match c.stage with
  | .deregistered (some (.exporting _)) => true
  | _ => false

/-- Work under way has sent one terminal frame at most. -/
theorem WorkFramed.terminals_le {frames : List BlobTransfer} {w : FetchWork}
    (h : WorkFramed frames w) : terminals frames ≤ 1 := by
  cases w with
  | resolving =>
      have hempty : frames = [] := h
      rw [hempty]
      exact Nat.zero_le 1
  | transferring f skipped => exact h.1.le.trans (Nat.zero_le 1)
  | exporting hash => exact Nat.le_of_eq h

theorem oneTerminal_of_eq {frames : List BlobTransfer} (h : terminals frames = 1) :
    OneTerminal frames := ⟨h.le, fun _ => h⟩

theorem oneTerminal_nil : OneTerminal [] := ⟨Nat.zero_le 1, fun ⟨_, hf, _⟩ => absurd hf (by simp)⟩

/-- A call that is framed has sent what it should. -/
theorem Framed.exact (h : c.Framed) : c.FramesExact := by
  rw [Framed] at h
  rw [FramesExact]
  split at h
  · next hstage => exact ⟨h.terminals_le, fun hgone => absurd (hstage.symm.trans hgone) nofun⟩
  · next hstage => exact ⟨h.terminals_le, fun hgone => absurd (hstage.symm.trans hgone) nofun⟩
  · next hstage => exact ⟨h.terminals_le, fun hgone => absurd (hstage.symm.trans hgone) nofun⟩
  · exact ⟨h.1, fun _ => h⟩
  · exact ⟨h.1, fun _ => h⟩
  · exact ⟨h.1, fun _ => h⟩

/-- A call that goes on with its fetch stays framed. -/
theorem framed_follow {counts : List Nat} {f : BlobFetch} (skipped : Nat)
    (h : FetchFrames counts f) : (c.follow f skipped).Framed := by
  have hterminals := terminals_of_fetchFrames h
  rw [follow]
  split
  · next hphase =>
    rw [hphase] at hterminals
    exact hterminals
  · next hphase =>
    rw [hphase] at hterminals
    exact oneTerminal_of_eq hterminals
  · next hok herror =>
    refine ⟨?_, counts, h⟩
    cases hphase : f.phase with
    | racing => rw [hterminals, hphase]; rfl
    | transferring _ _ => rw [hterminals, hphase]; rfl
    | returned result =>
        cases result with
        | ok hash => exact absurd hphase (hok hash)
        | error e => exact absurd hphase (herror e)

/-- **One step** of a call, for its frames, unless a guard sends one after that
of a transfer that completed. -/
theorem Framed.step (h : c.Framed) (hstep : c.step isCancelled e = some c')
    (hsafe : ¬(e = .drop ∧ c.droppedInExport = true)) : c'.Framed := by
  rw [Framed] at h
  cases moves_of_step hstep with
  | resolved hstage => exact framed_follow _ (@fetchFrames_run _ _ [] _ rfl)
  | unresolved hstage =>
      rw [hstage] at h
      have hempty : c.frames = [] := h
      rw [Framed, finish, hempty]
      exact oneTerminal_nil
  | transfer hstage hfetch =>
      rw [hstage] at h
      obtain ⟨-, counts, hframes⟩ := h
      exact framed_follow _ (hframes.step hfetch)
  | exported hstage =>
      rw [hstage] at h
      exact oneTerminal_of_eq h
  | cancelled hstage _ =>
      rw [hstage] at h
      exact h
  | aborted hstage =>
      rw [hstage] at h
      exact h
  | @deregister dropped hstage =>
      rw [hstage] at h
      cases dropped <;> exact h
  | finished hstage =>
      rw [hstage] at h
      exact h
  | @unfinished w hstage =>
      rw [hstage] at h
      have hsent : terminals (c.frames ++ [fetchAborted c.ticket.hash]) = terminals c.frames + 1 :=
        terminals_append _ _
      refine oneTerminal_of_eq (hsent.trans ?_)
      cases w with
      | resolving =>
          have hempty : c.frames = [] := h
          rw [hempty]
          rfl
      | transferring f skipped => rw [h.1]
      | exporting hash => exact absurd ⟨rfl, by rw [droppedInExport, hstage]⟩ hsafe

/-- That frame is the second one. -/
theorem Framed.drop_twice (h : c.Framed) (hstep : c.step isCancelled .drop = some c')
    (hdropped : c.droppedInExport = true) : terminals c'.frames = 2 := by
  rw [Framed] at h
  rw [droppedInExport] at hdropped
  cases moves_of_step hstep with
  | finished hstage =>
      rw [hstage] at hdropped
      contradiction
  | @unfinished w hstage =>
      rw [hstage] at h hdropped
      cases w with
      | resolving => contradiction
      | transferring f skipped => contradiction
      | exporting hash =>
          have hone : terminals c.frames = 1 := h
          have hsent := terminals_append c.frames [fetchAborted c.ticket.hash]
          rw [hone] at hsent
          exact hsent

/-- The guard keeps its hash and its token, and is in the map until it leaves it. -/
theorem step_keeps (hstep : c.step isCancelled e = some c') :
    c'.ticket = c.ticket ∧ c'.token = c.token ∧
      (c.registered = true ∧ c'.registered = false ∧ e = .deregister ∨
        c'.registered = c.registered ∧ e ≠ .deregister) := by
  have hfollow : ∀ f skipped, (c.follow f skipped).ticket = c.ticket ∧
      (c.follow f skipped).token = c.token ∧ (c.follow f skipped).registered = true := by
    intro f skipped
    rw [follow]
    split <;> exact ⟨rfl, rfl, rfl⟩
  have hin : ∀ {stage}, c.stage = stage →
      c.registered = (match stage with | .working _ | .ended _ => true | _ => false) := by
    intro stage hstage
    rw [registered, hstage]
    cases stage <;> rfl
  cases moves_of_step hstep with
  | resolved hstage =>
      obtain ⟨hticket, htoken, hregistered⟩ := hfollow _ _
      exact ⟨hticket, htoken, .inr ⟨hregistered.trans (hin hstage).symm, nofun⟩⟩
  | unresolved hstage => exact ⟨rfl, rfl, .inr ⟨(hin hstage).symm, nofun⟩⟩
  | transfer hstage _ =>
      obtain ⟨hticket, htoken, hregistered⟩ := hfollow _ _
      exact ⟨hticket, htoken, .inr ⟨hregistered.trans (hin hstage).symm, nofun⟩⟩
  | exported hstage => exact ⟨rfl, rfl, .inr ⟨(hin hstage).symm, nofun⟩⟩
  | cancelled hstage _ => exact ⟨rfl, rfl, .inr ⟨(hin hstage).symm, nofun⟩⟩
  | aborted hstage => exact ⟨rfl, rfl, .inr ⟨(hin hstage).symm, nofun⟩⟩
  | deregister hstage => exact ⟨rfl, rfl, .inl ⟨hin hstage, rfl, rfl⟩⟩
  | finished hstage => exact ⟨rfl, rfl, .inr ⟨(hin hstage).symm, nofun⟩⟩
  | unfinished hstage => exact ⟨rfl, rfl, .inr ⟨(hin hstage).symm, nofun⟩⟩

end BlobFetchCall

/-! ## the calls in the map -/

/-- The hash and the token of every guard that is in the map. -/
def watchersOf (calls : List BlobFetchCall) : List (String × Nat) :=
  (calls.filter (·.registered)).map fun c => (c.ticket.hash, c.token)

section Watchers

variable {calls : List BlobFetchCall} {c c' : BlobFetchCall} {i : Nat}

/-- A registered call watches its token. -/
theorem mem_watchersOf (hc : c ∈ calls) (hregistered : c.registered = true) :
    (c.ticket.hash, c.token) ∈ watchersOf calls :=
  List.mem_map.mpr ⟨c, List.mem_filter.mpr ⟨hc, hregistered⟩, rfl⟩

/-- The watchers of a hash are the registered calls for it. -/
theorem countP_watchersOf (hash : String) :
    (watchersOf calls).countP (·.1 = hash) =
      (calls.filter fun c => c.registered && c.ticket.hash = hash).length := by
  rw [watchersOf, List.countP_map, List.countP_filter, List.countP_eq_length_filter]
  congr 2
  funext c
  exact Bool.and_comm _ _

/-- A step of a call, seen from the map. -/
theorem watchersOf_set (hi : calls[i]? = some c) (hticket : c'.ticket = c.ticket)
    (htoken : c'.token = c.token) :
    (c'.registered = c.registered → watchersOf (calls.set i c') = watchersOf calls) ∧
    (c.registered = true → c'.registered = false →
      (watchersOf calls).Perm ((c.ticket.hash, c.token) :: watchersOf (calls.set i c'))) := by
  obtain ⟨hlt, hget⟩ := List.getElem?_eq_some_iff.mp hi
  obtain ⟨before, after, hcalls, -, hset⟩ := @List.exists_of_set _ i c' calls hlt
  have hsplit : calls = before ++ c :: after := hget ▸ hcalls
  rw [hset]
  constructor
  · intro hregistered
    rw [hsplit, watchersOf, watchersOf, List.filter_append, List.filter_append, List.filter_cons,
      List.filter_cons, hregistered]
    split <;> simp [hticket, htoken]
  · intro hin hout
    rw [hsplit, watchersOf, watchersOf, List.filter_append, List.filter_append,
      List.filter_cons_of_pos hin, List.filter_cons_of_neg (by simp [hout]), List.map_append,
      List.map_append, List.map_cons]
    exact List.perm_middle

end Watchers

/-! ## the world -/

namespace FetchWorld

variable {fromStr : String → Option String} {s s' : FetchWorld} {l : FetchLabel} {i : Nat}
  {e : FetchCallEvent}

/-- The fetches of a hash whose guards are in the map. -/
def fetching (s : FetchWorld) (hash : String) : List BlobFetchCall :=
  s.calls.filter fun c => c.registered && c.ticket.hash = hash

/-- The books of the table, and what the cancels hold. -/
structure Inv (s : FetchWorld) : Prop where
  watched : s.table.Watched (watchersOf s.calls)
  holding : ∀ token, .holding token ∈ s.cancels → token < s.table.fresh
  tripped : ∀ token, .tripped token ∈ s.cancels → token ∈ s.table.cancelled

/-- What is promised of a state. -/
structure Exact (s : FetchWorld) : Prop where
  slot : ∀ hash, (s.table.slots.lookup hash).isSome ↔ s.fetching hash ≠ []
  waiters : ∀ hash slot, s.table.slots.lookup hash = some slot →
    slot.waiters = (s.fetching hash).length
  watches : ∀ c ∈ s.calls, c.registered → (∃ slot, s.table.slots.lookup c.ticket.hash = some slot ∧
    slot.token = c.token) ∨ c.token ∈ s.table.cancelled
  frames : ∀ c ∈ s.calls, c.FramesExact

/-- The table and the calls fit each other when each call does. -/
theorem Inv.exact (h : s.Inv) (hframes : ∀ c ∈ s.calls, c.FramesExact) : s.Exact where
  slot hash := by
    have hcount := h.watched.count hash
    rw [countP_watchersOf, ← fetching] at hcount
    cases hslot : s.table.slots.lookup hash with
    | none =>
        rw [hslot] at hcount
        simp [List.length_eq_zero_iff.mp hcount.symm]
    | some slot =>
        rw [hslot, Option.elim_some] at hcount
        have hpos := (h.watched.slots hash slot hslot).2
        rw [hcount] at hpos
        simpa using List.ne_nil_of_length_pos hpos
  waiters hash slot hslot := by
    have hcount := h.watched.count hash
    rw [hslot, countP_watchersOf] at hcount
    exact hcount
  watches c hc hregistered := h.watched.watches _ (mem_watchersOf hc hregistered)
  frames := hframes

/-- One call goes on at a time, and the table with it where it registers or leaves. -/
theorem advance_cases (h : s.advance i e = some s') : ∃ c c', s.calls[i]? = some c ∧
    c.step (c.token ∈ s.table.cancelled) e = some c' ∧ s'.cancels = s.cancels ∧
    s'.calls = s.calls.set i c' ∧
    (e = .deregister ∧ s'.table = s.table.deregister c.ticket.hash ∨
      e ≠ .deregister ∧ s'.table = s.table) := by
  rw [advance] at h
  obtain ⟨c, hi, h⟩ := Option.bind_eq_some_iff.mp h
  obtain ⟨c', hstep, rfl⟩ := Option.map_eq_some_iff.mp h
  refine ⟨c, c', hi, hstep, rfl, rfl, ?_⟩
  cases e with
  | deregister => exact .inl ⟨rfl, rfl⟩
  | _ => exact .inr ⟨nofun, rfl⟩

/-- A new fetch is in the map under a token that is not cancelled. -/
theorem Inv.enter_cases (h : s.Inv) (ticket : BlobTicket) : ∃ c, c.ticket = ticket ∧
    c.registered = true ∧ c.Framed ∧ c.token ∉ s.table.cancelled ∧
    s.table.fresh ≤ (s.enter ticket).table.fresh ∧
    (s.enter ticket).table.cancelled = s.table.cancelled ∧
    (s.enter ticket).calls = s.calls ++ [c] ∧ (s.enter ticket).cancels = s.cancels ∧
    (s.enter ticket).table.Watched ((ticket.hash, c.token) :: watchersOf s.calls) := by
  obtain ⟨token, fresh, hregister, htoken, -, hfresh, -⟩ := h.watched.register_cases ticket.hash
  have hwatched := h.watched.register ticket.hash
  rw [hregister] at hwatched
  rw [enter, hregister]
  exact ⟨⟨ticket, token, .working .resolving, none, []⟩, rfl, rfl, rfl, htoken, hfresh, rfl, rfl,
    rfl, hwatched⟩

/-- A cancel trips the token that it holds. -/
theorem trip_cases (h : s.step fromStr (.trip i) = some s') : ∃ token,
    s.cancels[i]? = some (.holding token) ∧ s' = { s with
      table := s.table.cancel token
      cancels := s.cancels.set i (.tripped token) } := by
  rw [FetchWorld.step] at h
  split at h
  · next token hi => exact ⟨token, hi, (Option.some.inj h).symm⟩
  · contradiction

/-- A cancel that found a slot holds its token. -/
theorem lookUp_eq_holding {hash : String} {token : Nat}
    (h : s.lookUp fromStr hash = .holding token) : ∃ key slot,
      parseBlobHash fromStr hash = .ok key ∧ s.table.slots.lookup key = some slot ∧
        slot.token = token := by
  rw [lookUp] at h
  split at h
  · contradiction
  · next key hkey =>
    split at h
    · next slot hslot => exact ⟨key, slot, hkey, hslot, CancelCall.holding.inj h⟩
    · contradiction

/-- A cancel that looks up has tripped nothing yet. -/
theorem lookUp_ne_tripped {hash : String} {token : Nat} :
    s.lookUp fromStr hash ≠ .tripped token := by
  rw [lookUp]
  split
  · nofun
  · split <;> nofun

/-- **One step** keeps the books. -/
theorem Inv.step (h : s.Inv) (hstep : s.step fromStr l = some s') : s'.Inv := by
  cases l with
  | blobFetch ticket =>
      rw [← Option.some.inj hstep]
      obtain ⟨c, rfl, hregistered, -, -, hfresh, hcancelled, hcalls, hcancels, hwatched⟩ :=
        h.enter_cases ticket
      constructor
      · rw [hcalls]
        refine hwatched.perm ?_
        rw [watchersOf, watchersOf, List.filter_append, List.map_append]
        simpa [hregistered] using (List.perm_append_singleton _ _).symm
      · rw [hcancels]
        exact fun token htoken => (h.holding token htoken).trans_le hfresh
      · rw [hcancels, hcancelled]
        exact h.tripped
  | call i e =>
      obtain ⟨c, c', hi, hc, hcancels, hcalls, htable⟩ := advance_cases hstep
      obtain ⟨hticket, htoken, hregistered⟩ := BlobFetchCall.step_keeps hc
      obtain ⟨hsame, hleft⟩ := watchersOf_set hi hticket htoken
      rcases htable with ⟨he, htable⟩ | ⟨he, htable⟩
      · rcases hregistered with ⟨hin, hout, -⟩ | ⟨-, hne⟩
        · have hwatched := (h.watched.perm (hleft hin hout)).deregister
          rw [← hcalls, ← htable] at hwatched
          refine ⟨hwatched, ?_, ?_⟩
          · rw [hcancels, htable, FetchTable.deregister_fresh]
            exact h.holding
          · rw [hcancels, htable, FetchTable.deregister_cancelled]
            exact h.tripped
        · exact absurd he hne
      · rcases hregistered with ⟨-, -, hleaves⟩ | ⟨hstays, -⟩
        · exact absurd hleaves he
        · refine ⟨?_, ?_, ?_⟩
          · rw [hcalls, htable, hsame hstays]
            exact h.watched
          · rw [hcancels, htable]
            exact h.holding
          · rw [hcancels, htable]
            exact h.tripped
  | lookUp hash =>
      obtain rfl := Option.some.inj hstep
      refine ⟨h.watched, fun token htoken => ?_, fun token htoken => ?_⟩
      · rcases List.mem_append.mp htoken with htoken | htoken
        · exact h.holding token htoken
        · obtain ⟨key, slot, -, hslot, rfl⟩ := lookUp_eq_holding (List.mem_singleton.mp htoken).symm
          exact (h.watched.slots key slot hslot).1
      · rcases List.mem_append.mp htoken with htoken | htoken
        · exact h.tripped token htoken
        · exact absurd (List.mem_singleton.mp htoken).symm lookUp_ne_tripped
  | trip i =>
      obtain ⟨token, hi, rfl⟩ := trip_cases hstep
      have hmade := h.holding token (List.mem_of_getElem? hi)
      refine ⟨h.watched.cancel hmade, fun token' htoken' => ?_, fun token' htoken' => ?_⟩
      · rcases List.mem_or_eq_of_mem_set htoken' with hmem | heq
        · exact h.holding token' hmem
        · contradiction
      · rcases List.mem_or_eq_of_mem_set htoken' with hmem | heq
        · exact List.mem_cons_of_mem _ (h.tripped token' hmem)
        · exact List.mem_cons.mpr (.inl (CancelCall.tripped.inj heq))

/-! ## the frames of a run -/

/-- A guard is about to send a second terminal frame. -/
def DropsExport (s : FetchWorld) : FetchLabel → Prop
  | .call i .drop => ∃ c, s.calls[i]? = some c ∧ c.droppedInExport = true
  | _ => False

structure Good (s : FetchWorld) : Prop extends Inv s where
  framed : ∀ c ∈ s.calls, c.Framed

/-- A good world is exact. -/
theorem Good.exact (h : s.Good) : s.Exact := h.toInv.exact fun c hc => (h.framed c hc).exact

theorem good_start : Good start where
  watched := FetchTable.watched_empty
  holding _ h := absurd h List.not_mem_nil
  tripped _ h := absurd h List.not_mem_nil
  framed _ h := absurd h List.not_mem_nil

/-- A step keeps the world good unless it drops an export. -/
theorem Good.step (h : s.Good) (hstep : s.step fromStr l = some s') (hsafe : ¬s.DropsExport l) :
    s'.Good := by
  refine ⟨h.toInv.step hstep, ?_⟩
  cases l with
  | blobFetch ticket =>
      rw [← Option.some.inj hstep]
      obtain ⟨c, -, -, hframed, -, -, -, hcalls, -⟩ := h.toInv.enter_cases ticket
      rw [hcalls]
      intro c' hc'
      rcases List.mem_append.mp hc' with hc' | hc'
      · exact h.framed c' hc'
      · exact List.mem_singleton.mp hc' ▸ hframed
  | call i e =>
      obtain ⟨c, c', hi, hc, -, hcalls, -⟩ := advance_cases hstep
      rw [hcalls]
      intro c'' hc''
      rcases List.mem_or_eq_of_mem_set hc'' with hmem | rfl
      · exact h.framed c'' hmem
      · refine (h.framed c (List.mem_of_getElem? hi)).step hc ?_
        rintro ⟨rfl, hdropped⟩
        exact hsafe ⟨c, hi, hdropped⟩
  | lookUp hash =>
      obtain rfl := Option.some.inj hstep
      exact h.framed
  | trip i =>
      obtain ⟨token, -, rfl⟩ := trip_cases hstep
      exact h.framed

/-- A step that drops an export ends a fetch a second time. -/
theorem Good.not_exact (h : s.Good) (hstep : s.step fromStr l = some s') (hdrop : s.DropsExport l) :
    ¬s'.Exact := by
  intro hexact
  cases l with
  | call i e =>
      cases e with
      | drop =>
          obtain ⟨c, hi, hdropped⟩ := hdrop
          obtain ⟨c₁, c', hi₁, hc, -, hcalls, -⟩ := advance_cases hstep
          obtain rfl := Option.some.inj (hi.symm.trans hi₁)
          have htwice := (h.framed c (List.mem_of_getElem? hi)).drop_twice hc hdropped
          have hlt : i < s.calls.length := (List.getElem?_eq_some_iff.mp hi).1
          have hle := (hexact.frames c' (hcalls ▸ List.mem_set hlt c')).1
          rw [htwice] at hle
          exact absurd hle (by decide)
      | _ => exact hdrop
  | _ => exact hdrop

/-! ## what stays in a run -/

/-- The fetches of a state keep their tokens, and its cancels what they hold. -/
structure Later (s s' : FetchWorld) : Prop where
  calls : ∀ (i : Nat) (c : BlobFetchCall), s.calls[i]? = some c →
    ∃ c' : BlobFetchCall, s'.calls[i]? = some c' ∧ c'.token = c.token
  cancelled : s.table.cancelled ⊆ s'.table.cancelled
  cancels : ∀ (i : Nat) (x : CancelCall), s.cancels[i]? = some x → s'.cancels[i]? = some x ∨
    ∃ token, x = .holding token ∧ s'.cancels[i]? = some (.tripped token)

theorem Later.refl (s : FetchWorld) : Later s s :=
  ⟨fun _ c h => ⟨c, h, rfl⟩, List.Subset.refl _, fun _ _ h => .inl h⟩

theorem Later.trans {s₁ s₂ s₃ : FetchWorld} (h : Later s₁ s₂) (h' : Later s₂ s₃) :
    Later s₁ s₃ where
  calls i c hi := by
    obtain ⟨c', hi', htoken⟩ := h.calls i c hi
    obtain ⟨c'', hi'', htoken'⟩ := h'.calls i c' hi'
    exact ⟨c'', hi'', htoken'.trans htoken⟩
  cancelled := List.Subset.trans h.cancelled h'.cancelled
  cancels i x hi := by
    rcases h.cancels i x hi with hi' | ⟨token, hx, hi'⟩
    · exact h'.cancels i x hi'
    · rcases h'.cancels i _ hi' with hi'' | ⟨_, heq, -⟩
      · exact .inr ⟨token, hx, hi''⟩
      · contradiction

theorem getElem?_append_of_some {α : Type*} {xs ys : List α} {a : α} (h : xs[i]? = some a) :
    (xs ++ ys)[i]? = some a := by
  rw [List.getElem?_append_left (List.getElem?_eq_some_iff.mp h).1]
  exact h

/-- What a call has sent stays sent. -/
theorem later_of_step (hinv : s.Inv) (hstep : s.step fromStr l = some s') : Later s s' := by
  cases l with
  | blobFetch ticket =>
      rw [← Option.some.inj hstep]
      obtain ⟨c, -, -, -, -, -, hcancelled, hcalls, hcancels, -⟩ := hinv.enter_cases ticket
      constructor
      · rw [hcalls]
        exact fun j c hj => ⟨c, getElem?_append_of_some hj, rfl⟩
      · rw [hcancelled]
        exact List.Subset.refl _
      · rw [hcancels]
        exact fun _ _ h => .inl h
  | call i e =>
      obtain ⟨c, c', hi, hc, hcancels, hcalls, htable⟩ := advance_cases hstep
      constructor
      · rw [hcalls]
        intro j c₁ hj
        by_cases hij : i = j
        · subst hij
          obtain rfl := Option.some.inj (hi.symm.trans hj)
          refine ⟨c', ?_, (BlobFetchCall.step_keeps hc).2.1⟩
          exact List.getElem?_set_self (List.getElem?_eq_some_iff.mp hi).1
        · exact ⟨c₁, by rw [List.getElem?_set_ne hij]; exact hj, rfl⟩
      · rcases htable with ⟨-, htable⟩ | ⟨-, htable⟩
        · rw [htable, FetchTable.deregister_cancelled]
          exact List.Subset.refl _
        · rw [htable]
          exact List.Subset.refl _
      · rw [hcancels]
        exact fun _ _ h => .inl h
  | lookUp hash =>
      obtain rfl := Option.some.inj hstep
      exact ⟨fun _ c h => ⟨c, h, rfl⟩, List.Subset.refl _,
        fun _ _ h => .inl (getElem?_append_of_some h)⟩
  | trip i =>
      obtain ⟨token, hi, rfl⟩ := trip_cases hstep
      refine ⟨fun _ c h => ⟨c, h, rfl⟩, List.subset_cons_self _ _, fun j x hj => ?_⟩
      by_cases hij : i = j
      · subst hij
        obtain rfl := Option.some.inj (hi.symm.trans hj)
        exact .inr ⟨token, rfl, List.getElem?_set_self (List.getElem?_eq_some_iff.mp hi).1⟩
      · exact .inl (by rw [List.getElem?_set_ne hij]; exact hj)

/-- What a call has sent stays sent, in every run. -/
theorem later_of_run {es : List FetchLabel} (hinv : s.Inv)
    (hrun : run (FetchWorld.step fromStr) s es = some s') : s'.Inv ∧ Later s s' :=
  run_invariant (I := fun s' => s'.Inv ∧ Later s s')
    (fun _ _ _ h hstep => ⟨h.1.step hstep, h.2.trans (later_of_step h.1 hstep)⟩)
    ⟨hinv, .refl s⟩ hrun

end FetchWorld

/-! ## runs -/

/-- What is promised of a run: every state is exact, a cancel that answered
`cancelled: true` has tripped the token of every fetch that was in the map when
it looked, and none of one that came after it. -/
structure FetchesExact (fromStr : String → Option String) (es : List FetchLabel) : Prop where
  along : Along (FetchWorld.step fromStr) FetchWorld.Exact .start es
  cancelled : ∀ before hash after s s', es = before ++ .lookUp hash :: after →
    run (FetchWorld.step fromStr) .start before = some s →
    run (FetchWorld.step fromStr) s (.lookUp hash :: after) = some s' →
    ∀ token, s'.cancels[s.cancels.length]? = some (.tripped token) →
    ∀ (i : Nat) (c : BlobFetchCall), s.calls[i]? = some c → c.registered →
      parseBlobHash fromStr hash = .ok c.ticket.hash →
      ∃ c' : BlobFetchCall, s'.calls[i]? = some c' ∧ c'.token ∈ s'.table.cancelled
  spared : ∀ before ticket after s s', es = before ++ .blobFetch ticket :: after →
    run (FetchWorld.step fromStr) .start before = some s →
    run (FetchWorld.step fromStr) s (.blobFetch ticket :: after) = some s' →
    ∀ (i : Nat) (token : Nat), s.cancels[i]? = some (.tripped token) →
      ∃ c' : BlobFetchCall, s'.calls[s.calls.length]? = some c' ∧ c'.token ≠ token

namespace FetchWorld

variable {fromStr : String → Option String} {s s' : FetchWorld} {es after : List FetchLabel}

/-- The table fits the calls in every run. -/
theorem inv_of_run (hrun : run (FetchWorld.step fromStr) .start es = some s) : s.Inv :=
  (later_of_run good_start.toInv hrun).1

/-- A cancel trips the token that the slot had when it looked: the others of that
hash were cancelled before. -/
theorem cancelled_of_lookUp {hash : String} {token i : Nat} {c : BlobFetchCall} (hinv : s.Inv)
    (hrun : run (FetchWorld.step fromStr) s (.lookUp hash :: after) = some s')
    (htripped : s'.cancels[s.cancels.length]? = some (.tripped token)) (hi : s.calls[i]? = some c)
    (hregistered : c.registered) (hhash : parseBlobHash fromStr hash = .ok c.ticket.hash) :
    ∃ c' : BlobFetchCall, s'.calls[i]? = some c' ∧ c'.token ∈ s'.table.cancelled := by
  obtain ⟨hinv', hlater⟩ := later_of_run hinv hrun
  obtain ⟨c', hi', htoken⟩ := hlater.calls i c hi
  refine ⟨c', hi', htoken ▸ ?_⟩
  obtain ⟨s₁, hs₁, hrest⟩ := run_cons_eq_some.mp hrun
  have hinv₁ := hinv.step hs₁
  have hlooked : s₁.cancels[s.cancels.length]? = some (s.lookUp fromStr hash) := by
    rw [← Option.some.inj hs₁]
    exact List.getElem?_concat_length
  have hholding : s.lookUp fromStr hash = .holding token := by
    rcases (later_of_run hinv₁ hrest).2.cancels _ _ hlooked with heq | ⟨t, hx, heq⟩
    · exact absurd (Option.some.inj (heq.symm.trans htripped)) lookUp_ne_tripped
    · rw [hx, CancelCall.tripped.inj (Option.some.inj (heq.symm.trans htripped))]
  obtain ⟨key, slot, hkey, hslot, rfl⟩ := lookUp_eq_holding hholding
  obtain rfl := Except.ok.inj (hkey.symm.trans hhash)
  have hwatches := hinv.watched.watches _ (mem_watchersOf (List.mem_of_getElem? hi) hregistered)
  rcases hwatches with ⟨slot', hslot', hsame⟩ | hcancelled
  · obtain rfl := Option.some.inj (hslot.symm.trans hslot')
    have htoken' : slot.token = c.token := hsame
    exact htoken' ▸ hinv'.tripped _ (List.mem_of_getElem? htripped)
  · exact hlater.cancelled hcancelled

/-- A fetch does not inherit a token that is cancelled. -/
theorem spared_of_blobFetch {ticket : BlobTicket} {token i : Nat} (hinv : s.Inv)
    (hrun : run (FetchWorld.step fromStr) s (.blobFetch ticket :: after) = some s')
    (htripped : s.cancels[i]? = some (.tripped token)) :
    ∃ c' : BlobFetchCall, s'.calls[s.calls.length]? = some c' ∧ c'.token ≠ token := by
  obtain ⟨s₁, hs₁, hrest⟩ := run_cons_eq_some.mp hrun
  have hinv₁ := hinv.step hs₁
  obtain rfl := Option.some.inj hs₁
  obtain ⟨c, -, -, -, hlive, -, -, hcalls, -⟩ := hinv.enter_cases ticket
  have hc : (s.enter ticket).calls[s.calls.length]? = some c := by
    rw [hcalls]
    exact List.getElem?_concat_length
  obtain ⟨c', hc', htoken⟩ := (later_of_run hinv₁ hrest).2.calls _ c hc
  refine ⟨c', hc', fun heq => hlive ?_⟩
  rw [← htoken, heq]
  exact hinv.tripped token (List.mem_of_getElem? htripped)

end FetchWorld

/-- **Fetch cancellation** is exact, but for the second terminal frame of a fetch
that is stopped after its transfer completed. -/
theorem fetch_cancellation_iff (fromStr : String → Option String) (es : List FetchLabel) :
    FetchesExact fromStr es ↔
      Guarded (FetchWorld.step fromStr) (fun s l => ¬s.DropsExport l) .start es := by
  have hguard := @along_iff_guarded _ _ (FetchWorld.step fromStr) FetchWorld.Good FetchWorld.Exact
    (fun s l => ¬s.DropsExport l) (fun s h => h.exact)
    (fun s l s' h hstep => ⟨fun hexact hdrop => h.not_exact hstep hdrop hexact,
      fun hsafe => (h.step hstep hsafe).exact⟩)
    (fun s l s' h hstep hexact => h.step hstep fun hdrop => h.not_exact hstep hdrop hexact)
    .start es FetchWorld.good_start
  refine ⟨fun h => hguard.mp h.along, fun h => ⟨hguard.mpr h, ?_, ?_⟩⟩
  · intro before hash after s s' _ hbefore hrun token htripped i c hi hregistered hhash
    exact FetchWorld.cancelled_of_lookUp (FetchWorld.inv_of_run hbefore) hrun htripped hi
      hregistered hhash
  · intro before ticket after s s' _ hbefore hrun i token htripped
    exact FetchWorld.spared_of_blobFetch (FetchWorld.inv_of_run hbefore) hrun htripped

def fetchedHash : String := "aaaaaaaaaaaaaaaaaaaaaaaaaaaaaaaaaaaaaaaaaaaaaaaaaaaaaaaaaaaaaaaa"

/-- A fetch whose transfer completed is cancelled in its export. -/
def cancelledExport : List FetchLabel :=
  [.blobFetch ⟨.bare (.replicate 32 1), fetchedHash⟩,
    .call 0 (.resolved [] 0 false),
    .call 0 (.transfer (.dialDone 0 .connected)), .call 0 (.transfer .done),
    .call 0 (.transfer .streamEnd), .lookUp fetchedHash, .trip 0, .call 0 .cancelled,
    .call 0 .deregister, .call 0 .drop]

theorem cancelled_export_ends_twice :
    (∃ s, run (FetchWorld.step some) .start cancelledExport = some s ∧
      s.cancels = [.tripped 0] ∧
      s.calls.map (fun c => c.frames.map (·.state)) = [[.started, .completed, .aborted]]) ∧
    ¬FetchesExact some cancelledExport := by
  have hrun : ∃ s, run (FetchWorld.step some) .start cancelledExport = some s ∧
      s.cancels = [.tripped 0] ∧
      s.calls.map (fun c => c.frames.map (·.state)) = [[.started, .completed, .aborted]] :=
    ⟨_, rfl, rfl, rfl⟩
  refine ⟨hrun, fun hexact => ?_⟩
  obtain ⟨s, hs, -, hframes⟩ := hrun
  have hlast : s.Exact :=
    Along.invariant (fun _ _ _ _ h _ _ => h) hexact.along hexact.along.head hs
  obtain ⟨c, hc, hstates⟩ := List.map_eq_singleton_iff.mp hframes
  have htwice : terminals c.frames = (c.frames.map (·.state)).countP
      fun state => state = .completed || state = .aborted := by
    rw [List.countP_map]
    rfl
  rw [hstates] at htwice
  have hle := (hlast.frames c (hc ▸ List.mem_singleton_self c)).1
  rw [htwice] at hle
  exact absurd hle (by decide)

end Mcpmesh
