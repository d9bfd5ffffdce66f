import Mcpmesh.Backends.Pump
import Mathlib.Data.List.Count
import Mathlib.Data.List.Perm.Subperm

/-!
# Mcpmesh.Backends.AuditTrail

What the records of a session say of it (`RequestAuditor`,
`node/src/audit/log.rs`).

A request waits under the text of its id and an answer completes what waits
under its own, so two requests in flight under one id leave one record.  Where
no two are, the records are the lines that were forwarded: `Trail` pairs every
completed request with its answer and keeps the rest as open.
-/

namespace Mcpmesh

open Lib

/-- What a record tells of a line: method, tool, and the hash of the arguments. -/
abbrev Line := String × Option String × String

def AuditRecord.line (r : AuditRecord) : Line := (r.method, r.tool, r.argsHash)

/-- A record of a line that got through. -/
def AuditRecord.delivered (r : AuditRecord) : Bool := r.status ≠ some "rate_limited"

/-- The line with the count and the status of its answer. -/
def AuditRecord.essence (r : AuditRecord) : Line × Option Nat × Option String :=
  (r.line, r.bytesOut, r.status)

def PendingRequest.line (p : PendingRequest) : Line := (p.method, p.tool, p.argsHash)

def Json.methodName (frame : Json) : Option String := (frame.get "method").bind Json.asStr

/-- A frame that answers a request. -/
def Json.isAnswer (frame : Json) : Bool := !frame.hasMethod && frame.idOf.isSome

namespace ProxySession

variable {σ : Type} (S : ProxySession σ)

def line (frame : Json) : Option Line :=
  frame.methodName.map fun method =>
    (method, toolOf method frame, S.argsHash ((frame.get "params").getD .null))

/-- The key a frame correlates by. -/
def idKey (frame : Json) : Option String := frame.idOf.map S.text

def noteEssence (frame : Json) : Option (Line × Option Nat × Option String) :=
  (S.line frame).map fun line => (line, none, none)

/-- What the record of a request and its answer says. -/
def pairEssence (p : Json × Json) : Option (Line × Option Nat × Option String) :=
  (S.line p.1).map fun line => (line, some (S.text p.2).utf8ByteSize, some (statusOf p.2))

end ProxySession

namespace Pump

variable {σ : Type}

/-- The requests forwarded after the first frame, each a frame of its own. -/
def asked (s : Pump σ) : List Json :=
  (s.handled.filter fun h =>
    h.forwarded && h.frame.methodName.isSome && h.frame.idOf.isSome).map Handled.frame

/-- The notifications that passed the rate gate. -/
def noted (s : Pump σ) : List Json :=
  (s.handled.filter fun h =>
    h.fate ≠ .throttled && h.frame.methodName.isSome && h.frame.idOf.isNone).map Handled.frame

def answers (s : Pump σ) : List Json := s.served.filter Json.isAnswer

/-- The records of the lines that got through. -/
def delivered (s : Pump σ) : List AuditRecord := s.audit.records.filter AuditRecord.delivered

variable (S : ProxySession σ)

/-- How many requests under this id the server has received, and answered. -/
def received (s : Pump σ) (key : String) : Nat :=
  (s.toServer.flatMap messages).countP fun f => S.idKey f = some key

def answered (s : Pump σ) (key : String) : Nat :=
  s.answers.countP fun f => S.idKey f = some key

/-- The rate gate refuses this frame. -/
def refused (s : Pump σ) (now : Nat) (frame : Json) : Bool :=
  frame.hasMethod && !(S.admitFrame s.limiter now).1.isOk

/-- The caller asks under no id that an unanswered request carries, and the
server answers what it received, once. -/
def Lawful (s : Pump σ) : PumpEvent σ → Prop
  | .caller frame now _ =>
      ∀ clean ∈ (sanitizeCallerFrame frame S.peerMeta).map Prod.fst,
        s.refused S now clean = false →
          ∀ f ∈ messages clean, ∀ key ∈ S.idKey f, s.answered S key = s.received S key
  | .server frame _ _ =>
      frame.isAnswer = true → ∀ key ∈ S.idKey frame, s.answered S key < s.received S key
  | _ => True

instance (s : Pump σ) : (event : PumpEvent σ) → Decidable (s.Lawful S event)
  | .caller frame now _ => inferInstanceAs (Decidable (∀ clean ∈ (sanitizeCallerFrame frame
      S.peerMeta).map Prod.fst, s.refused S now clean = false → ∀ f ∈ messages clean,
        ∀ key ∈ S.idKey f, s.answered S key = s.received S key))
  | .server frame _ _ => inferInstanceAs (Decidable (frame.isAnswer = true →
      ∀ key ∈ S.idKey frame, s.answered S key < s.received S key))
  | .callerEnd | .serverEnd | .elsewhere _ => inferInstanceAs (Decidable True)

end Pump

/-! ## what waits -/

section Waits

variable {σ : Type} {S : ProxySession σ}
  {pending : Keyed (Prod.fst : String × PendingRequest → String)}
  {frames left right : List Json} {f : Json} {key : String}

/-- The map of an auditor holds these requests, all under different ids. -/
structure Waits (S : ProxySession σ)
    (pending : Keyed (Prod.fst : String × PendingRequest → String))
    (frames : List Json) : Prop where
  nodup : (frames.map S.idKey).Nodup
  held : ∀ f ∈ frames, ∃ e ∈ pending.items, S.idKey f = some e.1
  owned : ∀ e ∈ pending.items, ∃ f ∈ frames, S.idKey f = some e.1 ∧ S.line f = some e.2.line

/-- A request that is opened waits with its frame. -/
theorem Waits.insert {p : PendingRequest} (h : Waits S pending frames)
    (hfresh : ∀ f' ∈ frames, S.idKey f' ≠ some key) (hkey : S.idKey f = some key)
    (hline : S.line f = some p.line) : Waits S (pending.insert (key, p)) (frames ++ [f]) where
  nodup := by
    rw [List.map_append, List.nodup_append']
    refine ⟨h.nodup, List.nodup_singleton _, fun k hk hmem => ?_⟩
    obtain ⟨f', hf', rfl⟩ := List.mem_map.mp hk
    exact hfresh f' hf' ((List.mem_singleton.mp hmem).trans hkey)
  held f' hf' := by
    obtain hf' | hf' := List.mem_append.mp hf'
    · obtain ⟨e, he, hkey'⟩ := h.held f' hf'
      have hne : e.1 ≠ key := fun heq => hfresh f' hf' (heq ▸ hkey')
      exact ⟨e, Keyed.mem_insert.mpr (.inl ⟨he, hne⟩), hkey'⟩
    · obtain rfl := List.mem_singleton.mp hf'
      exact ⟨(key, p), Keyed.mem_insert.mpr (.inr rfl), hkey⟩
  owned e he := by
    obtain ⟨he, -⟩ | rfl := Keyed.mem_insert.mp he
    · obtain ⟨f', hf', howned⟩ := h.owned e he
      exact ⟨f', List.mem_append_left [f] hf', howned⟩
    · exact ⟨f, List.mem_append_right frames List.mem_cons_self, hkey, hline⟩

/-- A request that is closed waits no longer. -/
theorem Waits.remove (h : Waits S pending (left ++ f :: right)) (hkey : S.idKey f = some key) :
    Waits S (pending.remove key) (left ++ right) := by
  have hnodup := h.nodup
  rw [List.map_append, List.map_cons, List.nodup_middle, List.nodup_cons, ← List.map_append]
    at hnodup
  have hmem : ∀ f' ∈ left ++ right, f' ∈ left ++ f :: right := fun f' hf' =>
    (List.sublist_cons_self f right).append_left left |>.subset hf'
  refine ⟨hnodup.2, fun f' hf' => ?_, fun e he => ?_⟩
  · obtain ⟨e, he, hkey'⟩ := h.held f' (hmem f' hf')
    refine ⟨e, Keyed.mem_remove.mpr ⟨he, fun heq => ?_⟩, hkey'⟩
    refine hnodup.1 (List.mem_map.mpr ⟨f', hf', ?_⟩)
    rw [hkey', hkey, heq]
  · obtain ⟨he, hne⟩ := Keyed.mem_remove.mp he
    obtain ⟨f', hf', hkey', hline⟩ := h.owned e he
    refine ⟨f', ?_, hkey', hline⟩
    rw [List.mem_append, List.mem_cons] at hf'
    obtain hf' | rfl | hf' := hf'
    · exact List.mem_append_left right hf'
    · exact absurd (Option.some.inj (hkey'.symm.trans hkey)) hne
    · exact List.mem_append_right left hf'

end Waits

/-! ## the trail -/

section Trail

variable {σ : Type} {S : ProxySession σ} {s s' : Pump σ} {event : PumpEvent σ}
  {pairs : List (Json × Json)} {opened cut : List Json}

/-- The requests so far: those paired with their answers, those open, and one
whose write failed. -/
structure Trail (S : ProxySession σ) (s : Pump σ) (pairs : List (Json × Json))
    (opened cut : List Json) : Prop where
  asked : s.asked.Perm (pairs.map Prod.fst ++ opened)
  answers : (pairs.map Prod.snd).Subperm s.answers
  own : ∀ p ∈ pairs, S.idKey p.1 = S.idKey p.2
  waits : Waits S s.audit.pending (opened ++ cut)
  opened_received : ∀ f ∈ opened, ∀ key, S.idKey f = some key →
    s.received S key = s.answered S key + 1
  cut_received : ∀ f ∈ cut, ∀ key, S.idKey f = some key → s.received S key = s.answered S key
  cut_reading : s.reading = true → cut = []
  records : (s.delivered.map AuditRecord.essence).Perm
    (s.noted.filterMap S.noteEssence ++ pairs.filterMap S.pairEssence)

/-- A trail starts with nothing in it. -/
theorem trail_start (S : ProxySession σ) (limiter : σ) (init : Json) :
    Trail S (.start limiter init) [] [] [] where
  asked := .nil
  answers := List.nil_subperm
  own _ h := absurd h List.not_mem_nil
  waits := ⟨List.nodup_nil, fun _ h => absurd h List.not_mem_nil,
    fun _ h => absurd h List.not_mem_nil⟩
  opened_received _ h := absurd h List.not_mem_nil
  cut_received _ h := absurd h List.not_mem_nil
  cut_reading _ := rfl
  records := .nil

/-- What the trail of a session reads of it. -/
theorem Trail.congr (h : Trail S s pairs opened cut) (hasked : s'.asked = s.asked)
    (hnoted : s'.noted = s.noted) (hanswers : s'.answers = s.answers)
    (htoServer : s'.toServer = s.toServer) (hpending : s'.audit.pending = s.audit.pending)
    (hdelivered : s'.delivered = s.delivered) (hreading : s'.reading = true → s.reading = true) :
    Trail S s' pairs opened cut := by
  have hreceived : ∀ key, s'.received S key = s.received S key := fun key => by
    rw [Pump.received, htoServer, Pump.received]
  have hanswered : ∀ key, s'.answered S key = s.answered S key := fun key => by
    rw [Pump.answered, hanswers, Pump.answered]
  exact
    { asked := hasked ▸ h.asked
      answers := hanswers ▸ h.answers
      own := h.own
      waits := hpending ▸ h.waits
      opened_received := fun f hf key hkey => by
        rw [hreceived, hanswered]
        exact h.opened_received f hf key hkey
      cut_received := fun f hf key hkey => by
        rw [hreceived, hanswered]
        exact h.cut_received f hf key hkey
      cut_reading := fun hr => h.cut_reading (hreading hr)
      records := by
        rw [hdelivered, hnoted]
        exact h.records }

/-! ### a frame of the caller -/

/-- A frame with a method is one message. -/
theorem messages_of_methodName {frame : Json} (h : frame.methodName.isSome = true) :
    messages frame = [frame] := by
  cases frame with
  | null | bool | num | str | arr => contradiction
  | obj entries =>
      have hmethod : (Json.obj entries).hasMethod = true := by
        rw [Json.hasMethod]
        cases hget : (Json.obj entries).get "method" with
        | none => simp [Json.methodName, hget] at h
        | some v => rfl
      exact if_pos hmethod

/-- One frame handled is one request asked, if it was forwarded and has an id. -/
theorem Pump.asked_snoc {h : Handled} (hhandled : s'.handled = s.handled ++ [h]) :
    s'.asked = s.asked ++
      if h.forwarded && h.frame.methodName.isSome && h.frame.idOf.isSome then [h.frame]
      else [] := by
  rw [asked, hhandled, List.filter_append, List.map_append, ← asked, List.filter_cons]
  split <;> rfl

/-- One frame handled is one notification noted, if it passed and has no id. -/
theorem Pump.noted_snoc {h : Handled} (hhandled : s'.handled = s.handled ++ [h]) :
    s'.noted = s.noted ++
      if h.fate ≠ .throttled && h.frame.methodName.isSome && h.frame.idOf.isNone then [h.frame]
      else [] := by
  rw [noted, hhandled, List.filter_append, List.map_append, ← noted, List.filter_cons]
  split <;> rfl

/-- What the server was sent it has received. -/
theorem Pump.received_snoc {frame : Json} (htoServer : s'.toServer = s.toServer ++ [frame])
    (key : String) : s'.received S key =
      s.received S key + (messages frame).countP fun f => S.idKey f = some key := by
  rw [received, htoServer, List.flatMap_append, List.countP_append, List.flatMap_singleton,
    ← received]

/-- A frame whose ids are fresh counts for no open request. -/
theorem Trail.countP_eq_zero (h : Trail S s pairs opened cut) {frame : Json}
    (hfresh : ∀ f ∈ messages frame, ∀ key, S.idKey f = some key →
      s.answered S key = s.received S key) {f : Json} (hf : f ∈ opened) {key : String}
    (hkey : S.idKey f = some key) :
    ((messages frame).countP fun f => S.idKey f = some key) = 0 := by
  rw [List.countP_eq_zero]
  intro m hm hmkey
  have hcount := h.opened_received f hf key hkey
  have hsame := hfresh m hm key (of_decide_eq_true hmkey)
  omega

section Forward

variable {a : AuditState} {now : Nat} {clean : Json} {verdict : Option (Except Nat Unit)}
  {written : Bool} {line : Line}

theorem Pump.forward_audit :
    (s.forward S now clean verdict written).audit = S.onRequest s.audit now clean := by
  unfold forward
  split <;> rfl

theorem Pump.forward_toServer : (s.forward S now clean verdict written).toServer =
    if written then s.toServer ++ [clean] else s.toServer := by
  unfold forward
  split <;> rfl

theorem Pump.forward_handled : (s.forward S now clean verdict written).handled =
    s.handled ++ [⟨clean, verdict, if written then .forwarded else .cut⟩] := by
  unfold forward
  split <;> rfl

theorem Pump.forward_asked : (s.forward S now clean verdict written).asked =
    s.asked ++
      if written && clean.methodName.isSome && clean.idOf.isSome then [clean] else [] := by
  rw [asked_snoc forward_handled]
  cases written <;> rfl

theorem Pump.forward_noted : (s.forward S now clean verdict written).noted =
    s.noted ++ if clean.methodName.isSome && clean.idOf.isNone then [clean] else [] := by
  rw [noted_snoc forward_handled]
  cases written <;> simp

theorem Pump.forward_answers : (s.forward S now clean verdict written).answers = s.answers := by
  unfold forward
  split <;> rfl

theorem Pump.forward_reading (h : (s.forward S now clean verdict written).reading = true) :
    written = true := by
  unfold forward at h
  split at h
  · assumption
  · contradiction

/-- A frame without a method leaves the trail alone. -/
theorem ProxySession.onRequest_plain (h : S.line clean = none) :
    S.onRequest a now clean = { a with dropReported := false } := by
  have hname : (clean.get "method").bind Json.asStr = none := Option.map_eq_none_iff.mp h
  rw [onRequest]
  dsimp only
  rw [hname]

/-- A notification is recorded. -/
theorem ProxySession.onRequest_note (hline : S.line clean = some line) (hid : clean.idOf = none) :
    (S.onRequest a now clean).pending = a.pending ∧
      ∃ r, (S.onRequest a now clean).records = a.records ++ [r] ∧ r.delivered = true ∧
        r.essence = (line, none, none) := by
  obtain ⟨method, hname, rfl⟩ := Option.map_eq_some_iff.mp hline
  have hname : (clean.get "method").bind Json.asStr = some method := hname
  rw [onRequest]
  dsimp only
  rw [hname, hid]
  exact ⟨rfl, _, rfl, rfl, rfl⟩

/-- A request waits. -/
theorem ProxySession.onRequest_ask {id : Json} (hline : S.line clean = some line)
    (hid : clean.idOf = some id) :
    (S.onRequest a now clean).records = a.records ∧
      ∃ p, (S.onRequest a now clean).pending = a.pending.insert (S.text id, p) ∧
        p.line = line := by
  obtain ⟨method, hname, rfl⟩ := Option.map_eq_some_iff.mp hline
  have hname : (clean.get "method").bind Json.asStr = some method := hname
  rw [onRequest]
  dsimp only
  rw [hname, hid]
  exact ⟨rfl, _, rfl, rfl⟩

/-- A key is received once more than answered, once it is forwarded. -/
theorem Trail.forward_received (h : Trail S s pairs opened cut)
    (hfresh : ∀ f ∈ messages clean, ∀ key, S.idKey f = some key →
      s.answered S key = s.received S key) {f : Json} (hf : f ∈ opened) {key : String}
    (hkey : S.idKey f = some key) :
    (s.forward S now clean verdict written).received S key =
      (s.forward S now clean verdict written).answered S key + 1 := by
  rw [Pump.answered, Pump.forward_answers, ← Pump.answered, ← h.opened_received f hf key hkey]
  have htoServer : (s.forward S now clean verdict written).toServer =
      if written then s.toServer ++ [clean] else s.toServer := Pump.forward_toServer
  split at htoServer
  · rw [Pump.received_snoc htoServer, h.countP_eq_zero hfresh hf hkey, Nat.add_zero]
  · rw [Pump.received, htoServer, Pump.received]

/-- Nothing was asked: the open requests stay open. -/
theorem Trail.keep (h : Trail S s pairs opened []) (hasked : s'.asked = s.asked)
    (hanswers : s'.answers = s.answers) (hpending : s'.audit.pending = s.audit.pending)
    (hreceived : ∀ f ∈ opened, ∀ key, S.idKey f = some key →
      s'.received S key = s'.answered S key + 1)
    (hrecords : (s'.delivered.map AuditRecord.essence).Perm
      (s'.noted.filterMap S.noteEssence ++ pairs.filterMap S.pairEssence)) :
    Trail S s' pairs opened [] where
  asked := hasked ▸ h.asked
  answers := hanswers ▸ h.answers
  own := h.own
  waits := hpending ▸ h.waits
  opened_received := hreceived
  cut_received _ hf := absurd hf List.not_mem_nil
  cut_reading _ := rfl
  records := hrecords

/-- One record delivered. -/
theorem Pump.delivered_append {r : AuditRecord} (h : s'.audit.records = s.audit.records ++ [r])
    (hr : r.delivered = true) : s'.delivered = s.delivered ++ [r] := by
  rw [delivered, h, List.filter_append, ← delivered, List.filter_cons_of_pos hr, List.filter_nil]

/-- A frame has a line in the trail if it has a method. -/
theorem methodName_isSome (S : ProxySession σ) (clean : Json) :
    clean.methodName.isSome = (S.line clean).isSome :=
  Option.isSome_map.symm

/-- A frame of the caller without a method name. -/
theorem Trail.forward_plain (h : Trail S s pairs opened [])
    (hreceived : ∀ f ∈ opened, ∀ key, S.idKey f = some key →
      (s.forward S now clean verdict written).received S key =
        (s.forward S now clean verdict written).answered S key + 1)
    (hline : S.line clean = none) :
    Trail S (s.forward S now clean verdict written) pairs opened [] := by
  have hname : clean.methodName.isSome = false := by rw [methodName_isSome S, hline]; rfl
  have haudit : (s.forward S now clean verdict written).audit =
      { s.audit with dropReported := false } := by
    rw [Pump.forward_audit, S.onRequest_plain hline]
  refine h.keep ?_ Pump.forward_answers (by rw [haudit]) hreceived ?_
  · rw [Pump.forward_asked, hname, Bool.and_false, Bool.false_and, if_neg Bool.false_ne_true,
      List.append_nil]
  · rw [Pump.delivered, haudit, Pump.forward_noted, hname, Bool.false_and,
      if_neg Bool.false_ne_true, List.append_nil]
    exact h.records

/-- A notification of the caller. -/
theorem Trail.forward_note {line : Line} (h : Trail S s pairs opened [])
    (hreceived : ∀ f ∈ opened, ∀ key, S.idKey f = some key →
      (s.forward S now clean verdict written).received S key =
        (s.forward S now clean verdict written).answered S key + 1)
    (hline : S.line clean = some line) (hid : clean.idOf = none) :
    Trail S (s.forward S now clean verdict written) pairs opened [] := by
  have hname : clean.methodName.isSome = true := by rw [methodName_isSome S, hline]; rfl
  obtain ⟨hpending, r, hrecords, hdelivered, hessence⟩ := S.onRequest_note hline hid
  rw [← Pump.forward_audit] at hpending hrecords
  refine h.keep ?_ Pump.forward_answers hpending hreceived ?_
  · rw [Pump.forward_asked, hid, Option.isSome_none, Bool.and_false, if_neg Bool.false_ne_true,
      List.append_nil]
  · have hnote : S.noteEssence clean = some (line, none, none) := by
      rw [ProxySession.noteEssence, hline, Option.map_some]
    rw [Pump.delivered_append hrecords hdelivered, Pump.forward_noted, hname, hid,
      Option.isNone_none, Bool.and_true, if_pos rfl, List.map_append, List.filterMap_append,
      List.map_singleton, List.filterMap_cons_some hnote, List.filterMap_nil, hessence]
    refine (h.records.append_right _).trans ?_
    rw [List.append_assoc, List.append_assoc]
    exact List.perm_append_comm.append_left _

/-- A request of the caller, under a fresh id: it is open, or cut when its write
failed. -/
theorem Trail.forward_ask {line : Line} {id : Json} (h : Trail S s pairs opened [])
    (hreceived : ∀ f ∈ opened, ∀ key, S.idKey f = some key →
      (s.forward S now clean verdict written).received S key =
        (s.forward S now clean verdict written).answered S key + 1)
    (hline : S.line clean = some line) (hid : clean.idOf = some id)
    (hfresh : s.answered S (S.text id) = s.received S (S.text id)) :
    ∃ opened cut, Trail S (s.forward S now clean verdict written) pairs opened cut := by
  have hname : clean.methodName.isSome = true := by rw [methodName_isSome S, hline]; rfl
  have hkey : S.idKey clean = some (S.text id) := by rw [ProxySession.idKey, hid, Option.map_some]
  have hask : (S.onRequest s.audit now clean).records = s.audit.records ∧
      ∃ p, (S.onRequest s.audit now clean).pending = s.audit.pending.insert (S.text id, p) ∧
        p.line = line := S.onRequest_ask hline hid
  obtain ⟨hrecords, p, hpending, hp⟩ := hask
  have hnew : ∀ f ∈ opened, S.idKey f ≠ some (S.text id) := by
    intro f hf hsame
    have hcount := h.opened_received f hf _ hsame
    omega
  have hwaits : Waits S (S.onRequest s.audit now clean).pending (opened ++ [clean]) := by
    rw [hpending]
    have hold := h.waits
    rw [List.append_nil] at hold
    exact hold.insert hnew hkey (hp ▸ hline)
  have hall : (((s.forward S now clean verdict written).delivered).map AuditRecord.essence).Perm
      ((s.forward S now clean verdict written).noted.filterMap S.noteEssence ++
        pairs.filterMap S.pairEssence) := by
    rw [Pump.delivered, Pump.forward_audit, hrecords, Pump.forward_noted, hid, Option.isNone_some,
      Bool.and_false, if_neg Bool.false_ne_true, List.append_nil]
    exact h.records
  cases written with
  | true =>
      refine ⟨opened ++ [clean], [], ?_⟩
      refine ⟨?_, ?_, h.own, ?_, ?_, fun _ hf => absurd hf List.not_mem_nil, fun _ => rfl, hall⟩
      · rw [Pump.forward_asked, hname, hid, Option.isSome_some, Bool.and_true, Bool.and_true,
          if_pos rfl, ← List.append_assoc]
        exact h.asked.append_right [clean]
      · rw [Pump.forward_answers]
        exact h.answers
      · rw [Pump.forward_audit, List.append_nil]
        exact hwaits
      · intro f hf key hfkey
        obtain hf | hf := List.mem_append.mp hf
        · exact hreceived f hf key hfkey
        · obtain rfl := List.mem_singleton.mp hf
          obtain rfl := Option.some.inj (hkey.symm.trans hfkey)
          have hmessages : messages f = [f] := messages_of_methodName hname
          have htoServer : (s.forward S now f verdict true).toServer = s.toServer ++ [f] :=
            Pump.forward_toServer
          rw [Pump.received_snoc htoServer, hmessages, List.countP_cons_of_pos (by simp [hkey]),
            Pump.answered, Pump.forward_answers, ← Pump.answered, hfresh, List.countP_nil]
  | false =>
      refine ⟨opened, [clean], ?_⟩
      refine ⟨?_, ?_, h.own, ?_, hreceived, ?_, fun hr => ?_, hall⟩
      · rw [Pump.forward_asked, Bool.false_and, Bool.false_and, if_neg Bool.false_ne_true,
          List.append_nil]
        exact h.asked
      · rw [Pump.forward_answers]
        exact h.answers
      · rw [Pump.forward_audit]
        exact hwaits
      · intro f hf key hfkey
        obtain rfl := List.mem_singleton.mp hf
        obtain rfl := Option.some.inj (hkey.symm.trans hfkey)
        exact hfresh.symm
      · exact absurd (Pump.forward_reading hr) Bool.false_ne_true

/-- A frame that is forwarded extends the trail. -/
theorem Trail.forward (h : Trail S s pairs opened cut) (hreading : s.reading = true)
    (hfresh : ∀ f ∈ messages clean, ∀ key, S.idKey f = some key →
      s.answered S key = s.received S key) :
    ∃ opened cut, Trail S (s.forward S now clean verdict written) pairs opened cut := by
  obtain rfl := h.cut_reading hreading
  have hreceived : ∀ f ∈ opened, ∀ key, S.idKey f = some key →
      (s.forward S now clean verdict written).received S key =
        (s.forward S now clean verdict written).answered S key + 1 :=
    fun f hf key hkey => h.forward_received hfresh hf hkey
  cases hline : S.line clean with
  | none => exact ⟨opened, [], h.forward_plain hreceived hline⟩
  | some line =>
      cases hid : clean.idOf with
      | none => exact ⟨opened, [], h.forward_note hreceived hline hid⟩
      | some id =>
          refine h.forward_ask hreceived hline hid (hfresh clean ?_ _ ?_)
          · rw [messages_of_methodName (by rw [methodName_isSome S, hline]; rfl)]
            exact List.mem_cons_self
          · rw [ProxySession.idKey, hid, Option.map_some]

end Forward

/-! ### a frame of the server -/

section Answer

variable {a : AuditState} {now bytesOut : Nat} {frame : Json} {sent : Bool}

/-- A request or a notification of the server touches no record, and no request
that waits. -/
theorem ProxySession.onResponse_other (h : frame.isAnswer = false) :
    S.onResponse a now frame bytesOut = a := by
  rw [onResponse]
  split
  · rfl
  · next hmethod =>
    split
    · rfl
    · next id hid => simp [Json.isAnswer, hmethod, hid] at h

/-- An answer has an id and no method. -/
theorem idOf_of_isAnswer (h : frame.isAnswer = true) :
    frame.hasMethod = false ∧ ∃ id, frame.idOf = some id := by
  rw [Json.isAnswer, Bool.and_eq_true, Bool.not_eq_true', Option.isSome_iff_exists] at h
  exact h

/-- An answer that nobody waits for is recorded as it is. -/
theorem ProxySession.onResponse_unknown {id : Json} (hmethod : frame.hasMethod = false)
    (hid : frame.idOf = some id) (hlookup : a.pending.lookup (S.text id) = none) :
    S.onResponse a now frame bytesOut = a := by
  rw [onResponse, hmethod, if_neg Bool.false_ne_true, hid]
  dsimp only
  rw [hlookup]

/-- An answer completes the request that waits for it. -/
theorem ProxySession.onResponse_completes {id : Json} {e : String × PendingRequest}
    (hmethod : frame.hasMethod = false) (hid : frame.idOf = some id)
    (hlookup : a.pending.lookup (S.text id) = some e) :
    S.onResponse a now frame bytesOut =
      { a with
        pending := a.pending.remove (S.text id)
        records := a.records ++ [S.proxiedRequest now e.2 bytesOut (statusOf frame)] } := by
  rw [onResponse, hmethod, if_neg Bool.false_ne_true, hid]
  dsimp only
  rw [hlookup]

theorem Pump.onServer_answers : (s.onServer S now frame sent).answers =
    s.answers ++ if frame.isAnswer then [frame] else [] := by
  rw [answers, onServer, List.filter_append, ← answers, List.filter_cons]
  split <;> rfl

/-- No answer has the status of a throttled request. -/
theorem statusOf_ne (frame : Json) : ProxySession.statusOf frame ≠ "rate_limited" := by
  rw [ProxySession.statusOf]
  split <;> decide

/-- An answer to another request. -/
theorem Pump.answered_onServer_of_ne {key : String} (h : S.idKey frame ≠ some key) :
    (s.onServer S now frame sent).answered S key = s.answered S key := by
  rw [answered, onServer_answers, List.countP_append, ← answered, Nat.add_eq_left,
    List.countP_eq_zero]
  intro f hf hkey
  split at hf
  · obtain rfl := List.mem_singleton.mp hf
    exact h (of_decide_eq_true hkey)
  · exact absurd hf List.not_mem_nil

/-- An answer to a request that the auditor does not hold. -/
theorem Trail.onServer_unknown {id : Json} (h : Trail S s pairs opened cut)
    (hmethod : frame.hasMethod = false) (hid : frame.idOf = some id)
    (hlookup : s.audit.pending.lookup (S.text id) = none) :
    Trail S (s.onServer S now frame sent) pairs opened cut := by
  have haudit : (s.onServer S now frame sent).audit = s.audit :=
    S.onResponse_unknown hmethod hid hlookup
  have hkey : S.idKey frame = some (S.text id) := by rw [ProxySession.idKey, hid, Option.map_some]
  have hne : ∀ f ∈ opened ++ cut, ∀ key, S.idKey f = some key → S.idKey frame ≠ some key := by
    intro f hf key hfkey hsame
    obtain ⟨e, he, hekey⟩ := h.waits.held f hf
    refine Keyed.lookup_eq_none.mp hlookup e he ?_
    exact Option.some.inj (hekey.symm.trans (hfkey.trans (hsame.symm.trans hkey)))
  refine ⟨h.asked, ?_, h.own, haudit ▸ h.waits, fun f hf key hfkey => ?_,
    fun f hf key hfkey => ?_, h.cut_reading, ?_⟩
  · rw [Pump.onServer_answers]
    exact h.answers.trans (List.sublist_append_left s.answers _).subperm
  · rw [Pump.answered_onServer_of_ne (hne f (List.mem_append_left cut hf) key hfkey)]
    exact h.opened_received f hf key hfkey
  · rw [Pump.answered_onServer_of_ne (hne f (List.mem_append_right opened hf) key hfkey)]
    exact h.cut_received f hf key hfkey
  · rw [Pump.delivered, haudit]
    exact h.records

/-- The answer to an open request. -/
theorem Trail.onServer_completes {left right : List Json} {f id : Json}
    {e : String × PendingRequest} (h : Trail S s pairs (left ++ f :: right) cut)
    (hmethod : frame.hasMethod = false) (hid : frame.idOf = some id)
    (hlookup : s.audit.pending.lookup (S.text id) = some e) (hkey : S.idKey f = some (S.text id))
    (hline : S.line f = some e.2.line) :
    Trail S (s.onServer S now frame sent) ((f, frame) :: pairs) (left ++ right) cut := by
  have haudit : (s.onServer S now frame sent).audit = _ :=
    S.onResponse_completes hmethod hid hlookup
  have hframe : S.idKey frame = some (S.text id) := by rw [ProxySession.idKey, hid, Option.map_some]
  have hanswer : frame.isAnswer = true := by rw [Json.isAnswer, hmethod, hid]; rfl
  have hnodup := h.waits.nodup
  rw [List.append_assoc, List.cons_append, List.map_append, List.map_cons, List.nodup_middle,
    List.nodup_cons, ← List.map_append, ← List.append_assoc] at hnodup
  have hne : ∀ f' ∈ left ++ right ++ cut, ∀ key, S.idKey f' = some key →
      S.idKey frame ≠ some key := by
    intro f' hf' key hfkey hsame
    refine hnodup.1 (List.mem_map.mpr ⟨f', hf', ?_⟩)
    rw [hfkey, ← hsame, hframe, hkey]
  have hopened : ∀ f' ∈ left ++ right, f' ∈ left ++ f :: right := fun f' hf' =>
    ((List.sublist_cons_self f right).append_left left).subset hf'
  refine ⟨?_, ?_, ?_, ?_, fun f' hf' key hfkey => ?_, fun f' hf' key hfkey => ?_, h.cut_reading, ?_⟩
  · refine h.asked.trans ?_
    rw [List.map_cons, List.cons_append, ← List.append_assoc, ← List.append_assoc]
    exact List.perm_middle
  · rw [Pump.onServer_answers, hanswer, if_pos rfl, List.map_cons]
    exact ((List.subperm_cons frame).mpr h.answers).trans
      (List.perm_append_singleton frame s.answers).symm.subperm
  · intro p hp
    obtain rfl | hp := List.mem_cons.mp hp
    · exact hkey.trans hframe.symm
    · exact h.own p hp
  · rw [haudit]
    have hwaits := h.waits
    rw [List.append_assoc, List.cons_append] at hwaits
    have hrest := hwaits.remove hkey
    rwa [← List.append_assoc] at hrest
  · rw [Pump.answered_onServer_of_ne (hne f' (List.mem_append_left cut hf') key hfkey)]
    exact h.opened_received f' (hopened f' hf') key hfkey
  · rw [Pump.answered_onServer_of_ne (hne f' (List.mem_append_right _ hf') key hfkey)]
    exact h.cut_received f' hf' key hfkey
  · have hpair : S.pairEssence (f, frame) =
        some (e.2.line, some (S.text frame).utf8ByteSize, some (ProxySession.statusOf frame)) := by
      rw [ProxySession.pairEssence, hline, Option.map_some]
    have hstatus : (S.proxiedRequest now e.2 (S.text frame).utf8ByteSize
        (ProxySession.statusOf frame)).delivered = true := by
      rw [AuditRecord.delivered]
      simp [ProxySession.proxiedRequest, statusOf_ne]
    have hdelivered : (s.onServer S now frame sent).delivered = s.delivered ++ [_] :=
      Pump.delivered_append (congrArg AuditState.records haudit) hstatus
    rw [hdelivered, List.map_append, List.map_singleton, List.filterMap_cons_some hpair]
    refine (h.records.append_right _).trans ?_
    exact (List.perm_append_singleton _ _).trans List.perm_middle.symm

/-- A frame of the server extends the trail. -/
theorem Trail.onServer (h : Trail S s pairs opened cut)
    (hlawful : frame.isAnswer = true → ∀ key, S.idKey frame = some key →
      s.answered S key < s.received S key) :
    ∃ pairs opened, Trail S (s.onServer S now frame sent) pairs opened cut := by
  cases hanswer : frame.isAnswer with
  | false =>
      have haudit : (s.onServer S now frame sent).audit = s.audit := S.onResponse_other hanswer
      refine ⟨pairs, opened, h.congr rfl rfl ?_ rfl (by rw [haudit]) ?_ id⟩
      · rw [Pump.onServer_answers, hanswer, if_neg Bool.false_ne_true, List.append_nil]
      · rw [Pump.delivered, haudit, Pump.delivered]
  | true =>
      obtain ⟨hmethod, id, hid⟩ := idOf_of_isAnswer hanswer
      have hframe : S.idKey frame = some (S.text id) := by
        rw [ProxySession.idKey, hid, Option.map_some]
      cases hlookup : s.audit.pending.lookup (S.text id) with
      | none => exact ⟨pairs, opened, h.onServer_unknown hmethod hid hlookup⟩
      | some e =>
          obtain ⟨he, hekey⟩ := Keyed.mem_of_lookup hlookup
          obtain ⟨f, hf, hkey, hline⟩ := h.waits.owned e he
          rw [hekey] at hkey
          obtain hf | hf := List.mem_append.mp hf
          · obtain ⟨left, right, rfl⟩ := List.append_of_mem hf
            exact ⟨_, _, h.onServer_completes hmethod hid hlookup hkey hline⟩
          · -- a request whose write failed was not received, and is not answered
            have hcount := h.cut_received f hf _ hkey
            have hless := hlawful hanswer _ hframe
            omega

end Answer

/-! ### a step -/

section Step

variable {now ms : Nat} {clean : Json} {verdict : Option (Except Nat Unit)} {limiter : σ}

/-- A throttled request is recorded at once, and opens nothing. -/
theorem ProxySession.onDropped_pending (S : ProxySession σ) (a : AuditState) (now : Nat)
    (frame : Json) : (S.onDropped a now frame).pending = a.pending := by
  unfold onDropped
  split
  · rfl
  · dsimp only
    split <;> rfl

/-- What is dropped is not recorded as delivered. -/
theorem ProxySession.onDropped_delivered (S : ProxySession σ) (a : AuditState) (now : Nat)
    (frame : Json) : (S.onDropped a now frame).records.filter AuditRecord.delivered =
      a.records.filter AuditRecord.delivered := by
  unfold onDropped
  split
  · rfl
  · dsimp only
    split
    · rfl
    · dsimp only
      rw [List.filter_append, List.filter_cons_of_neg (by simp [AuditRecord.delivered]),
        List.filter_nil, List.append_nil]

theorem Pump.throttle_handled :
    (s.throttle S now clean ms).handled = s.handled ++ [⟨clean, some (.error ms), .throttled⟩] := by
  unfold throttle
  cases clean.idOf <;> rfl

theorem Pump.throttle_frame (S : ProxySession σ) (s : Pump σ) (now : Nat) (clean : Json)
    (ms : Nat) :
    (s.throttle S now clean ms).served = s.served ∧
      (s.throttle S now clean ms).toServer = s.toServer ∧
      (s.throttle S now clean ms).reading = s.reading := by
  unfold throttle
  cases clean.idOf <;> exact ⟨rfl, rfl, rfl⟩

/-- A refused frame leaves the trail alone. -/
theorem Trail.throttle (h : Trail S s pairs opened cut) :
    Trail S (s.throttle S now clean ms) pairs opened cut := by
  have hasked : (s.throttle S now clean ms).asked = s.asked :=
    (Pump.asked_snoc Pump.throttle_handled).trans (List.append_nil s.asked)
  have hnoted : (s.throttle S now clean ms).noted = s.noted :=
    (Pump.noted_snoc Pump.throttle_handled).trans (List.append_nil s.noted)
  have haudit : (s.throttle S now clean ms).audit.pending = s.audit.pending ∧
      (s.throttle S now clean ms).delivered = s.delivered := by
    unfold Pump.throttle
    cases clean.idOf with
    | some id => exact ⟨rfl, rfl⟩
    | none =>
        exact ⟨S.onDropped_pending s.audit now clean, S.onDropped_delivered s.audit now clean⟩
  obtain ⟨hserved, htoServer, hreading⟩ := Pump.throttle_frame S s now clean ms
  refine h.congr hasked hnoted ?_ htoServer haudit.1 haudit.2 fun hr => hreading.symm.trans hr
  rw [Pump.answers, hserved, Pump.answers]

/-- A frame that passed was not refused. -/
theorem Gated.refused_eq_false (h : Gated S s now clean verdict limiter)
    (hpassed : ∀ ms, verdict ≠ some (.error ms)) : s.refused S now clean = false := by
  cases h with
  | exempt hmethod => rw [Pump.refused, hmethod, Bool.false_and]
  | @asked answer limiter hmethod hverdict =>
      rw [Pump.refused, hverdict]
      cases answer with
      | error ms => exact absurd rfl (hpassed ms)
      | ok u => exact Bool.and_false _

/-- A lawful step keeps the trail. -/
theorem Trail.pumped (h : Trail S s pairs opened cut) (hlawful : s.Lawful S event)
    (hstep : Pumped S s event s') : ∃ pairs opened cut, Trail S s' pairs opened cut := by
  cases hstep with
  | @throttle frame clean warned written now ms limiter hclean hgate =>
      have hsame : Trail S { s with warned, limiter } pairs opened cut :=
        h.congr rfl rfl rfl rfl rfl rfl id
      exact ⟨pairs, opened, cut, hsame.throttle⟩
  | @forward frame clean warned written now limiter verdict hclean hgate hpassed hreading =>
      have hsame : Trail S { s with warned, limiter } pairs opened cut :=
        h.congr rfl rfl rfl rfl rfl rfl id
      exact ⟨pairs, hsame.forward hreading (hlawful clean hclean (hgate.refused_eq_false hpassed))⟩
  | server frame now sent =>
      have htrail : ∃ pairs opened, Trail S (s.onServer S now frame sent) pairs opened cut :=
        h.onServer hlawful
      obtain ⟨pairs, opened, htrail⟩ := htrail
      exact ⟨pairs, opened, cut, htrail⟩
  | quiet limiter ended hreading =>
      exact ⟨pairs, opened, cut, h.congr rfl rfl rfl rfl rfl rfl hreading⟩

end Step

end Trail

section Complete

variable {σ : Type}

/-- The lines of the records are the lines forwarded. -/
theorem Trail.lines {S : ProxySession σ} {s : Pump σ} {pairs : List (Json × Json)} {cut : List Json}
    (h : Trail S s pairs [] cut) :
    (s.delivered.map AuditRecord.line).Perm ((s.noted ++ s.asked).filterMap S.line) := by
  have hrecords := h.records.map Prod.fst
  rw [List.map_map, List.map_append, List.map_filterMap, List.map_filterMap] at hrecords
  refine (show (s.delivered.map AuditRecord.line).Perm _ from hrecords).trans ?_
  rw [List.filterMap_append]
  have hnote : ∀ f, (S.noteEssence f).map Prod.fst = S.line f := fun f => by
    rw [ProxySession.noteEssence, Option.map_map]
    exact Option.map_id' ..
  have hpair : ∀ p, (S.pairEssence p).map Prod.fst = S.line p.1 := fun p => by
    rw [ProxySession.pairEssence, Option.map_map]
    exact Option.map_id' ..
  have hasked := h.asked.filterMap S.line
  rw [List.append_nil, List.filterMap_map] at hasked
  rw [List.filterMap_congr fun f _ => hnote f, List.filterMap_congr fun p _ => hpair p]
  exact hasked.symm.append_left _

/-- **The audit trail**: in a session whose caller asks under no id that an
unanswered request carries, and whose server answers what it received, once all
of it is answered, the records of the lines that got through are the lines
forwarded after the first frame; the record of a request tells of an answer
under its own id; and no request or notification of the server touches them. -/
theorem audit_trail_complete (S : ProxySession σ) {limiter : σ} {init : Json}
    {events : List (PumpEvent σ)} {s : Pump σ}
    (hrun : run (pumpStep S) (.start limiter init) events = some s)
    (hlawful : Guarded (pumpStep S) (Pump.Lawful S) (.start limiter init) events)
    (hanswered : ∀ f ∈ s.asked, ∀ key ∈ S.idKey f, s.answered S key = s.received S key) :
    (s.delivered.map AuditRecord.line).Perm ((s.noted ++ s.asked).filterMap S.line) ∧
      (∃ pairs : List (Json × Json), s.asked.Perm (pairs.map Prod.fst) ∧
        (pairs.map Prod.snd).Subperm s.answers ∧ (∀ p ∈ pairs, S.idKey p.1 = S.idKey p.2) ∧
        (s.delivered.map AuditRecord.essence).Perm
          (s.noted.filterMap S.noteEssence ++ pairs.filterMap S.pairEssence)) ∧
      (∀ (t t' : Pump σ) frame now sent, frame.isAnswer = false →
        pumpStep S t (.server frame now sent) = some t' → t'.audit = t.audit) := by
  have htrail : ∃ pairs opened cut, Trail S s pairs opened cut := by
    refine hlawful.invariant (I := fun t => ∃ pairs opened cut, Trail S t pairs opened cut) ?_
      ⟨[], [], [], trail_start S limiter init⟩ hrun
    rintro t event t' hlawful ⟨pairs, opened, cut, htrail⟩ hstep
    exact htrail.pumped hlawful (pumped_of_pumpStep hstep)
  obtain ⟨pairs, opened, cut, htrail⟩ := htrail
  -- an open request is one more received than answered
  obtain rfl : opened = [] := by
    cases opened with
    | nil => rfl
    | cons f rest =>
        have hopened : f ∈ f :: rest := List.mem_cons_self
        obtain ⟨e, -, hkey⟩ := htrail.waits.held f (List.mem_append_left cut hopened)
        have hasked : f ∈ s.asked :=
          htrail.asked.mem_iff.mpr (List.mem_append_right (pairs.map Prod.fst) hopened)
        have hopen := htrail.opened_received f hopened e.1 hkey
        have hsame := hanswered f hasked e.1 hkey
        omega
  refine ⟨htrail.lines, ⟨pairs, ?_, htrail.answers, htrail.own, htrail.records⟩, ?_⟩
  · have hasked := htrail.asked
    rwa [List.append_nil] at hasked
  · intro t t' frame now sent hframe hstep
    obtain ⟨-, ht'⟩ := Option.ite_none_left_eq_some.mp hstep
    obtain rfl := Option.some.inj ht'
    exact S.onResponse_other hframe

end Complete

namespace OneToken

def notification (method : String) : Json := .obj [("method", .str method)]

def response (id : Int) : Json := .obj [("id", .num id 0), ("result", .obj [])]

/-- A call and a notification; the server asks something under the id of the
call before it answers. -/
def exchange : List (PumpEvent Nat) :=
  [.caller (request 2 "tools/call") 0 true, .server (request 2 "roots/list") 0 true,
    .caller (notification "notifications/initialized") 0 true, .server (response 2) 0 true]

end OneToken

theorem audit_trail_complete_example :
    ∃ s, run (pumpStep OneToken.session) (.start 2 (OneToken.request 1 "initialize"))
        OneToken.exchange = some s ∧
      s.delivered.map (fun r => (r.method, r.status)) =
        [("notifications/initialized", none), ("tools/call", some "ok")] ∧
      (s.delivered.map AuditRecord.line).Perm
        ((s.noted ++ s.asked).filterMap OneToken.session.line) := by
  have hend : ∃ s ∈ run (pumpStep OneToken.session) (.start 2 (OneToken.request 1 "initialize"))
      OneToken.exchange, s.delivered.map (fun r => (r.method, r.status)) =
          [("notifications/initialized", none), ("tools/call", some "ok")] ∧
        ∀ f ∈ s.asked, ∀ key ∈ OneToken.session.idKey f,
          s.answered OneToken.session key = s.received OneToken.session key := by
    decide +kernel
  obtain ⟨s, hrun, hrecords, hanswered⟩ := hend
  exact ⟨s, hrun, hrecords,
    (audit_trail_complete OneToken.session hrun (by decide +kernel) hanswered).1⟩

/-- The first frame is forwarded and answered, and leaves no record. -/
theorem first_frame_unaudited :
    ∃ s, run (pumpStep OneToken.session) (.start 1 (OneToken.request 1 "initialize"))
        [.server (OneToken.response 1) 0 true] = some s ∧
      s.toServer.flatMap messages = [OneToken.request 1 "initialize"] ∧
      s.answers = [OneToken.response 1] ∧ s.audit.records = [] :=
  ⟨_, rfl, rfl, rfl, by decide +kernel⟩

end Mcpmesh
