import Mcpmesh.Dial.Refusal
import Mcpmesh.Roster.Staleness
import Mathlib.Data.Finset.Insert
import Mathlib.Logic.Function.Basic

/-!
# Mcpmesh.Roster.Distribution

The nodes of an organization on the roster topic (`announce_roster`,
`on_announce` and `spawn_receive_loop` of `node/src/roster/distribute.rs`,
`RosterAddrBook` of `node/src/roster/transport.rs`).

A node announces the roster it has installed, under the hash of the file.  A node
that hears of a newer one fetches it off the receive loop, in one of a few slots,
and installs it, which looks at the serial once more.  An announce is trusted
with nothing: anyone may send any, and what a fetch brings is judged by the
install alone.  Only the provider that it names is looked at before it is noted
and dialled, by the pair store and the roster as they are then.

Nothing is sent twice, so that a node which drops an announce is behind until
something else reaches it: `accounted` says that this is the only way to be.
-/

namespace Mcpmesh

open Lib

/-! ## the topic -/

/-- `GOSSIP_FETCH_CONCURRENCY`. -/
def gossipFetchConcurrency : Nat := 4

structure RosterAnnounce where
  serial : Nat
  rosterHash : String
  blobTicket : String
  deriving DecidableEq, Repr

/-- The topic, and what the channel calls. -/
structure GossipIo (J : SerdeJson) where
  /-- who is subscribed -/
  members : Finset EndpointId
  /-- `"blake3:"` and the digest -/
  rosterHash : J.Bytes → String
  ticket : EndpointId → String → String
  /-- the provider of a ticket that parses -/
  provider : String → Option EndpointId
  /-- of the address book -/
  cap : Nat

/-- The nodes by their endpoint ids, with their pair stores.  `inFlight` is what is
on its way to a node, `fetching` what holds a slot there and `book` the providers
that it knows; `sent` and `lost` are ghosts. -/
structure RosterTopic (J : SerdeJson) where
  nodes : EndpointId → Node J
  stores : EndpointId → PeerStore
  inFlight : EndpointId → List RosterAnnounce
  fetching : EndpointId → List RosterAnnounce
  book : EndpointId → List EndpointId
  /-- what nodes announced of their own -/
  sent : List RosterAnnounce
  /-- what a node took from the topic and made nothing of -/
  lost : EndpointId → List RosterAnnounce

inductive TopicEvent (J : SerdeJson) where
  /-- `announce_roster` -/
  | announce (i : EndpointId)
  /-- anyone says anything to a member -/
  | inject (j : EndpointId) (a : RosterAnnounce)
  /-- the loop takes an announce, which may be over the rate -/
  | receive (j : EndpointId) (k : Nat) (limited : Bool)
  /-- a fetch ends, with an answer unless it failed or took too long -/
  | fetched (j : EndpointId) (k : Nat) (answer : Option J.Bytes) (env : Env)
  /-- a poll, or the operator's install -/
  | arrive (j : EndpointId) (a : Arrival J)
  /-- rows of the pair store are written -/
  | pair (j : EndpointId) (store : PeerStore)

/-- `RosterAddrBook::note`. -/
def noteProvider (cap : Nat) (p : EndpointId) (known : List EndpointId) : List EndpointId :=
  if p ∈ known ∨ cap ≤ known.length then known else known ++ [p]

section Topic

variable (P : Primitives) {J : SerdeJson} (io : GossipIo J)

namespace RosterTopic

variable (s : RosterTopic J)

/-- The roster that a node announces: the serial of its view, and its file. -/
def announceOf (i : EndpointId) : Option RosterAnnounce :=
  match (s.nodes i).gate.view, (s.nodes i).rosterFile with
  | some view, some bytes =>
      let hash := io.rosterHash bytes
      some { serial := view.serial, rosterHash := hash, blobTicket := io.ticket i hash }
  | _, _ => none

def setNode (j : EndpointId) (node : Node J) : RosterTopic J :=
  { s with nodes := Function.update s.nodes j node }

/-- `dial_refused`. -/
def dialRefused (j p : EndpointId) : Bool :=
  Dial.refusedBy (s.stores j) (s.nodes j).gate.view p

def lose (j : EndpointId) (a : RosterAnnounce) : RosterTopic J :=
  { s with lost := Function.update s.lost j (s.lost j ++ [a]) }

/-- `on_announce`, up to the fetch. -/
def consider (j : EndpointId) (a : RosterAnnounce) : RosterTopic J :=
  if a.serial ≤ servedSerial (s.nodes j) then s
  else
    match io.provider a.blobTicket with
    | none => s.lose j a
    | some p =>
        if s.dialRefused j p then s.lose j a
        else
          { s with
            book := Function.update s.book j (noteProvider io.cap p (s.book j))
            fetching := Function.update s.fetching j (s.fetching j ++ [a]) }

/-- `on_announce`, from the answer to the fetch. -/
def conclude (j : EndpointId) (a : RosterAnnounce) (answer : Option J.Bytes) (env : Env) :
    RosterTopic J :=
  match answer with
  | none => s.lose j a
  | some bytes =>
      if io.rosterHash bytes = a.rosterHash then
        match (convergeRosterBytes P j env bytes a.serial).apply (s.nodes j) with
        | (node, .ok _) => s.setNode j node
        | (node, .error _) => (s.setNode j node).lose j a
      else s.lose j a

def step : TopicEvent J → Option (RosterTopic J)
  | .announce i =>
      if i ∈ io.members then
        (s.announceOf io i).map fun a =>
          { s with
            sent := s.sent ++ [a]
            inFlight := fun j =>
              if j ∈ io.members.erase i then s.inFlight j ++ [a] else s.inFlight j }
      else none
  | .inject j a =>
      if j ∈ io.members then
        some { s with inFlight := Function.update s.inFlight j (s.inFlight j ++ [a]) }
      else none
  | .receive j k limited =>
      (s.inFlight j)[k]?.map fun a =>
        let s := { s with inFlight := Function.update s.inFlight j ((s.inFlight j).eraseIdx k) }
        if limited || decide (gossipFetchConcurrency ≤ (s.fetching j).length) then s.lose j a
        else s.consider io j a
  | .fetched j k answer env =>
      (s.fetching j)[k]?.map fun a =>
        let s := { s with fetching := Function.update s.fetching j ((s.fetching j).eraseIdx k) }
        s.conclude P io j a answer env
  | .arrive j a => some (s.setNode j (arrivalStep P j (s.nodes j) a).1)
  | .pair j store => some { s with stores := Function.update s.stores j store }

/-- Nothing has been said. -/
def init (nodes : EndpointId → Node J) (stores : EndpointId → PeerStore) : RosterTopic J :=
  { nodes, stores, inFlight := fun _ => [], fetching := fun _ => [], book := fun _ => []
    sent := [], lost := fun _ => [] }

end RosterTopic

/-! ## one node -/

variable {P} {ownId : EndpointId} {node node' : Node J}

/-- The gate serves nothing that the file is behind. -/
def Floored (node : Node J) : Prop := servedSerial node ≤ serialFloor node.rosterFile

/-- A node that has started. -/
def Booted (P : Primitives) (node : Node J) : Prop :=
  ∃ env identity file sidecar grace maxStaleness,
    node = boot P env identity file sidecar grace maxStaleness

/-- A node that has started serves no more than its file. -/
theorem floored_of_booted (h : Booted P node) : Floored node := by
  obtain ⟨env, identity, file, sidecar, grace, maxStaleness, rfl⟩ := h
  rw [Floored, servedSerial]
  cases hview : startupView P env identity.orgRootPk file with
  | none => simp only [boot, hview, Option.map_none, Option.getD_none, Nat.zero_le]
  | some view =>
      simp only [boot, hview, Option.map_some, Option.getD_some]
      exact (serial_of_startupView hview).le

/-- What an install may do to a node: the served serial and the file move
forward, one not past the other. -/
structure Forward (node node' : Node J) : Prop where
  served : servedSerial node ≤ servedSerial node'
  floored : Floored node'

theorem Forward.refl (h : Floored node) : Forward node node := ⟨le_rfl, h⟩

/-- An install that goes live serves the offered document. -/
theorem forward_installStep (ownId : EndpointId) (h : Floored node) (call : InstallCall J) :
    Forward node (installStep P ownId node call).1 ∧
      ∀ ok, (installStep P ownId node call).2 = .ok ok → ok ≠ .converged false →
        ∃ roster, J.fromSlice call.bytes = .ok roster ∧
          servedSerial (installStep P ownId node call).1 = roster.serial := by
  obtain ⟨-, r, hstep, hr⟩ | ⟨view, anchor, out, haccepted, hstep⟩ :=
    installStep_cases (P := P) ownId node call
  · rw [hstep]
    refine ⟨.refl h, fun ok hok hinstalled => ?_⟩
    obtain rfl | ⟨e, rfl⟩ := hr
    · exact absurd (Except.ok.inj hok).symm hinstalled
    · contradiction
  · have hfloor := (serialFloor_step (P := P) ownId node call).1
    by_cases hlost : PinLost call anchor
    · rw [hstep, acceptedStep_of_lost call hlost] at hfloor ⊢
      refine ⟨⟨le_rfl, h.trans hfloor⟩, fun ok hok _ => ?_⟩
      contradiction
    · obtain ⟨roster, -, -, installed, hroster, hout, -, hinstalled, -, hlt, hserial, -⟩ :=
        haccepted.document
      rw [hstep, acceptedStep_of_pinned call (pinWrite_of_not_pinLost hlost)]
      have hserved : servedSerial (installedNode ownId node call view anchor out) =
          roster.serial := by
        rw [servedSerial, installedNode_view, Option.map_some, Option.getD_some, hserial]
      rw [← serialFloor_of_installedSerial hinstalled] at hlt
      refine ⟨⟨hserved ▸ h.trans hlt.le, ?_⟩, fun ok _ _ => ⟨roster, hroster, hserved⟩⟩
      rw [Floored, hserved, installedNode_rosterFile, serialFloor, hout]

/-- Whatever arrives moves the node forward or leaves it. -/
theorem forward_arrivalStep (ownId : EndpointId) (h : Floored node) (a : Arrival J) :
    Forward node (arrivalStep P ownId node a).1 := by
  obtain hkept | ⟨_, -, -, -, hconfirm⟩ | ⟨call, -, -, -, hinstall⟩ :=
    arrivalStep_cases (P := P) ownId node a
  · rw [hkept]
    exact .refl h
  · rw [hconfirm]
    exact ⟨le_rfl, h⟩
  · rw [hinstall]
    exact (forward_installStep ownId h call).1

/-- A convergence that does nothing is one that came too late. -/
theorem late_of_not_converged {env : Env} {bytes : J.Bytes} {announced : Nat}
    (h : (convergeRosterBytes P ownId env bytes announced).apply node = (node', .ok false)) :
    announced ≤ servedSerial node := by
  unfold convergeRosterBytes at h
  rw [Action.apply_get] at h
  split at h
  · assumption
  · obtain ⟨key, -, h⟩ := Action.attempt_bind_ok.mp h
    obtain ⟨_, -, h⟩ := Action.attempt_bind_ok.mp h
    obtain ⟨_, accepted, -, h⟩ := Action.bind_ok.mp h
    obtain ⟨s₁, _, -, h⟩ := Action.bind_ok.mp h
    have hdone : Action.apply (pure true : Install J Bool) (goLive env ownId accepted.1 s₁) =
      (node', .ok false) := h
    exact absurd (Action.pure_ok.mp hdone).2 (by decide)

/-- A convergence moves the node forward, and where it does not fail the node
serves what was announced, if the bytes were. -/
theorem forward_converge (ownId : EndpointId) (h : Floored node) {env : Env} {bytes : J.Bytes}
    {announced : Nat} {r : Except InstallError Bool}
    (happly : (convergeRosterBytes P ownId env bytes announced).apply node = (node', r)) :
    Forward node node' ∧ ∀ ok, r = .ok ok → announced ≤ servedSerial node' ∨
      ∃ roster, J.fromSlice bytes = .ok roster ∧ servedSerial node' = roster.serial := by
  have hstep : installStep P ownId node (.converge env bytes announced) =
      (node', r.map .converged) := by
    rw [installStep, happly]
  obtain ⟨hforward, hserves⟩ := forward_installStep (P := P) ownId h (.converge env bytes announced)
  rw [hstep] at hforward hserves
  refine ⟨hforward, fun ok hok => ?_⟩
  subst hok
  cases ok with
  | false => exact .inl ((late_of_not_converged happly).trans hforward.served)
  | true => exact .inr (hserves _ rfl (by simp))

/-! ## the topic as a whole -/

namespace RosterTopic

variable {s s' : RosterTopic J} {e : TopicEvent J} {a : RosterAnnounce} {j : EndpointId}

/-- An announce is of a roster that is at least as new as it says. -/
def Honest (a : RosterAnnounce) : Prop :=
  a.serial = 0 ∨ ∃ bytes roster, io.rosterHash bytes = a.rosterHash ∧
    J.fromSlice bytes = .ok roster ∧ a.serial ≤ roster.serial

/-- The node serves it or newer, has yet to look at it, or has lost it. -/
def AccountedAt (s : RosterTopic J) (j : EndpointId) (a : RosterAnnounce) : Prop :=
  a.serial ≤ servedSerial (s.nodes j) ∨ a ∈ s.inFlight j ∨ a ∈ s.fetching j ∨ a ∈ s.lost j

/-- The invariant, while a node has one announce in hand. -/
structure Inv (hand : Option (EndpointId × RosterAnnounce)) (s : RosterTopic J) : Prop where
  floored : ∀ j, Floored (s.nodes j)
  honest : ∀ a ∈ s.sent, Honest io a
  /-- where no two files have one hash -/
  accounted : Function.Injective io.rosterHash →
    ∀ a ∈ s.sent, ∀ j ∈ io.members, hand = some (j, a) ∨ s.AccountedAt j a
  slots : ∀ j, (s.fetching j).length ≤ gossipFetchConcurrency
  book : ∀ j, (s.book j).Nodup ∧ (s.book j).length ≤ io.cap

variable {io} {hand : Option (EndpointId × RosterAnnounce)}

theorem nodes_setNode (s : RosterTopic J) (j : EndpointId) (node : Node J) :
    (s.setNode j node).nodes j = node := Function.update_self ..

theorem lost_lose (s : RosterTopic J) (j : EndpointId) (a : RosterAnnounce) :
    (s.lose j a).lost j = s.lost j ++ [a] := Function.update_self ..

/-- Nothing was announced, so nothing is missing. -/
theorem inv_init {nodes : EndpointId → Node J} {stores : EndpointId → PeerStore}
    (hnodes : ∀ j, Floored (nodes j)) : Inv io none (init nodes stores) where
  floored := hnodes
  honest := fun _ ha => absurd ha List.not_mem_nil
  accounted := fun _ _ ha => absurd ha List.not_mem_nil
  slots := fun _ => Nat.zero_le _
  book := fun _ => ⟨List.nodup_nil, Nat.zero_le _⟩

/-- What a node announces is its file. -/
theorem honest_announceOf (h : Floored (s.nodes j)) (ha : s.announceOf io j = some a) :
    Honest io a ∧ a.serial ≤ servedSerial (s.nodes j) := by
  rw [announceOf] at ha
  split at ha
  · next view bytes hview hfile =>
    obtain rfl := Option.some.inj ha
    have hserved : servedSerial (s.nodes j) = view.serial := by
      rw [servedSerial, hview, Option.map_some, Option.getD_some]
    refine ⟨?_, hserved.ge⟩
    rw [Floored, hserved, hfile, serialFloor] at h
    split at h
    · next roster hroster => exact .inr ⟨bytes, roster, rfl, hroster, h⟩
    · exact .inl (Nat.le_zero.mp h)
  · contradiction

/-- Taking an announce out of a node's queue leaves all others. -/
theorem eq_or_mem_eraseIdx {queues : EndpointId → List RosterAnnounce} {k : Nat}
    (hk : (queues j)[k]? = some a) {j' : EndpointId} {a' : RosterAnnounce} (h : a' ∈ queues j') :
    some (j, a) = some (j', a') ∨
      a' ∈ Function.update queues j ((queues j).eraseIdx k) j' := by
  by_cases hj : j' = j
  · subst hj
    rw [Function.update_self]
    obtain ⟨i, hi⟩ := List.mem_iff_getElem?.mp h
    by_cases hik : i = k
    · subst hik
      obtain rfl := Option.some.inj (hi.symm.trans hk)
      exact .inl rfl
    · exact .inr (List.mem_eraseIdx_iff_getElem?.mpr ⟨i, hik, hi⟩)
  · rw [Function.update_of_ne hj]
    exact .inr h

/-- One message more takes none away. -/
theorem subset_update_append (queues : EndpointId → List RosterAnnounce) (j : EndpointId)
    (a : RosterAnnounce) (j' : EndpointId) :
    queues j' ⊆ Function.update queues j (queues j ++ [a]) j' := by
  by_cases hj : j' = j
  · subst hj
    rw [Function.update_self]
    exact List.subset_append_left _ _
  · rw [Function.update_of_ne hj]
    exact List.Subset.refl _

/-- An announce is taken from the topic. -/
theorem Inv.take (h : Inv io none s) {k : Nat} (hk : (s.inFlight j)[k]? = some a) :
    Inv io (some (j, a))
      { s with inFlight := Function.update s.inFlight j ((s.inFlight j).eraseIdx k) } where
  floored := h.floored
  honest := h.honest
  slots := h.slots
  book := h.book
  accounted := fun hhash a' ha' j' hj' => by
    obtain hnone | hserved | hflight | hrest := h.accounted hhash a' ha' j' hj'
    · contradiction
    · exact .inr (.inl hserved)
    · exact (eq_or_mem_eraseIdx hk hflight).imp_right fun hmem => .inr (.inl hmem)
    · exact .inr (.inr (.inr hrest))

/-- A fetch gives its slot back. -/
theorem Inv.release (h : Inv io none s) {k : Nat} (hk : (s.fetching j)[k]? = some a) :
    Inv io (some (j, a))
      { s with fetching := Function.update s.fetching j ((s.fetching j).eraseIdx k) } where
  floored := h.floored
  honest := h.honest
  book := h.book
  slots := (Function.forall_update_iff s.fetching fun _ fetching =>
      fetching.length ≤ gossipFetchConcurrency).mpr
    ⟨(List.eraseIdx_sublist _ k).length_le.trans (h.slots j), fun j' _ => h.slots j'⟩
  accounted := fun hhash a' ha' j' hj' => by
    obtain hnone | hserved | hflight | hfetch | hlost := h.accounted hhash a' ha' j' hj'
    · contradiction
    · exact .inr (.inl hserved)
    · exact .inr (.inr (.inl hflight))
    · exact (eq_or_mem_eraseIdx hk hfetch).imp_right fun hmem => .inr (.inr (.inl hmem))
    · exact .inr (.inr (.inr (.inr hlost)))

/-- What is in hand is accounted for. -/
theorem Inv.settle (h : Inv io (some (j, a)) s)
    (ha : Function.Injective io.rosterHash → a ∈ s.sent → s.AccountedAt j a) :
    Inv io none s where
  floored := h.floored
  honest := h.honest
  slots := h.slots
  book := h.book
  accounted := fun hhash a' ha' j' hj' => by
    obtain hhand | hrest := h.accounted hhash a' ha' j' hj'
    · obtain ⟨rfl, rfl⟩ := Prod.mk.inj (Option.some.inj hhand)
      exact .inr (ha hhash ha')
    · exact .inr hrest

/-- Lists that only grow keep the account. -/
theorem AccountedAt.mono (h : s.AccountedAt j a)
    (hserved : servedSerial (s.nodes j) ≤ servedSerial (s'.nodes j))
    (hflight : s.inFlight j ⊆ s'.inFlight j) (hfetch : s.fetching j ⊆ s'.fetching j)
    (hlost : s.lost j ⊆ s'.lost j) : s'.AccountedAt j a := by
  obtain hle | hmem | hmem | hmem := h
  · exact .inl (hle.trans hserved)
  · exact .inr (.inl (hflight hmem))
  · exact .inr (.inr (.inl (hfetch hmem)))
  · exact .inr (.inr (.inr (hlost hmem)))

/-- An announce in hand that is lost is accounted for. -/
theorem Inv.lose (h : Inv io (some (j, a)) s) : Inv io none (s.lose j a) where
  floored := h.floored
  honest := h.honest
  slots := h.slots
  book := h.book
  accounted := fun hhash a' ha' j' hj' => by
    obtain hhand | hrest := h.accounted hhash a' ha' j' hj'
    · obtain ⟨rfl, rfl⟩ := Prod.mk.inj (Option.some.inj hhand)
      refine .inr (.inr (.inr (.inr ?_)))
      rw [lost_lose]
      exact List.mem_append_right _ (List.mem_singleton_self _)
    · exact .inr (hrest.mono le_rfl (List.Subset.refl _) (List.Subset.refl _)
        (subset_update_append s.lost j a j'))

/-- An install that moves a node forward keeps the account. -/
theorem Inv.setNode (h : Inv io hand s) (hforward : Forward (s.nodes j) node) :
    Inv io hand (s.setNode j node) where
  floored := (Function.forall_update_iff s.nodes fun _ => Floored).mpr
    ⟨hforward.floored, fun j' _ => h.floored j'⟩
  honest := h.honest
  slots := h.slots
  book := h.book
  accounted := fun hhash a' ha' j' hj' =>
      (h.accounted hhash a' ha' j' hj').imp_right fun hrest => by
    refine hrest.mono ?_ (List.Subset.refl _) (List.Subset.refl _) (List.Subset.refl _)
    by_cases hj : j' = j
    · subst hj
      rw [nodes_setNode]
      exact hforward.served
    · exact (congrArg servedSerial (Function.update_of_ne hj node s.nodes)).ge

/-- A provider that is noted makes the book no longer than its cap. -/
theorem book_noteProvider {cap : Nat} {p : EndpointId} {known : List EndpointId}
    (h : known.Nodup ∧ known.length ≤ cap) :
    (noteProvider cap p known).Nodup ∧ (noteProvider cap p known).length ≤ cap := by
  rw [noteProvider]
  split
  · exact h
  · next hnew =>
    rw [not_or, Nat.not_le] at hnew
    refine ⟨?_, ?_⟩
    · exact List.nodup_append.mpr ⟨h.1, List.nodup_singleton p, fun x hx y hy heq =>
        hnew.1 (List.mem_singleton.mp hy ▸ heq ▸ hx)⟩
    · rw [List.length_append]
      exact hnew.2

/-- What is noted is one provider. -/
theorem mem_noteProvider {cap : Nat} {p p' : EndpointId} {known : List EndpointId}
    (h : p' ∈ noteProvider cap p known) : p' ∈ known ∨ p' = p := by
  rw [noteProvider] at h
  split at h
  · exact .inl h
  · exact (List.mem_append.mp h).imp_right List.mem_singleton.mp

/-- An announce in hand is served, fetched or lost. -/
theorem Inv.consider (h : Inv io (some (j, a)) s)
    (hslot : (s.fetching j).length < gossipFetchConcurrency) : Inv io none (s.consider io j a) := by
  rw [RosterTopic.consider]
  split
  · next hstale => exact h.settle fun _ _ => .inl hstale
  · split
    · exact h.lose
    · next p _ =>
      split
      · exact h.lose
      · exact {
          floored := h.floored
          honest := h.honest
          slots := (Function.forall_update_iff s.fetching fun _ fetching =>
              fetching.length ≤ gossipFetchConcurrency).mpr
            ⟨by rw [List.length_append]; exact hslot, fun j' _ => h.slots j'⟩
          book := (Function.forall_update_iff s.book fun _ known => known.Nodup ∧
              known.length ≤ io.cap).mpr ⟨book_noteProvider (h.book j), fun j' _ => h.book j'⟩
          accounted := fun hhash a' ha' j' hj' => by
            obtain hhand | hrest := h.accounted hhash a' ha' j' hj'
            · obtain ⟨rfl, rfl⟩ := Prod.mk.inj (Option.some.inj hhand)
              refine .inr (.inr (.inr (.inl ?_)))
              dsimp only
              rw [Function.update_self]
              exact List.mem_append_right _ (List.mem_singleton_self _)
            · exact .inr (hrest.mono le_rfl (List.Subset.refl _)
                (subset_update_append s.fetching j a j') (List.Subset.refl _)) }

/-- A document of a hash is the one that was announced. -/
theorem Inv.conclude (h : Inv io (some (j, a)) s) (answer : Option J.Bytes) (env : Env) :
    Inv io none (s.conclude P io j a answer env) := by
  unfold RosterTopic.conclude
  split
  · exact h.lose
  · next bytes =>
    split
    · next hbytes =>
      split
      · next node ok happly =>
        obtain ⟨hforward, hserves⟩ := forward_converge j (h.floored j) happly
        refine (h.setNode hforward).settle fun hhash ha => .inl ?_
        rw [nodes_setNode]
        obtain hserved | ⟨roster, hroster, hserved⟩ := hserves ok rfl
        · exact hserved
        · obtain hzero | ⟨bytes', roster', hbytes', hroster', hle⟩ := h.honest a ha
          · exact hzero ▸ Nat.zero_le _
          · obtain rfl := hhash (hbytes.trans hbytes'.symm)
            obtain rfl := Except.ok.inj (hroster.symm.trans hroster')
            exact hserved ▸ hle
      · next node e happly =>
        exact (h.setNode (forward_converge j (h.floored j) happly).1).lose
    · exact h.lose

/-- An announce is put in flight for each other member. -/
theorem Inv.announce (h : Inv io none s) (ha : s.announceOf io j = some a) :
    Inv io none { s with
      sent := s.sent ++ [a]
      inFlight := fun j' =>
        if j' ∈ io.members.erase j then s.inFlight j' ++ [a] else s.inFlight j' } where
  floored := h.floored
  slots := h.slots
  book := h.book
  honest := fun a' ha' => by
    obtain hold | hnew := List.mem_append.mp ha'
    · exact h.honest a' hold
    · exact List.mem_singleton.mp hnew ▸ (honest_announceOf (h.floored j) ha).1
  accounted := fun hhash a' ha' j' hj' => by
    obtain hold | hnew := List.mem_append.mp ha'
    · refine .inr (((h.accounted hhash a' hold j' hj').resolve_left nofun).mono le_rfl ?_
        (List.Subset.refl _) (List.Subset.refl _))
      dsimp only
      split
      · exact List.subset_append_left _ _
      · exact List.Subset.refl _
    · obtain rfl := List.mem_singleton.mp hnew
      by_cases hj : j' = j
      · subst hj
        exact .inr (.inl (honest_announceOf (h.floored j') ha).2)
      · refine .inr (.inr (.inl ?_))
        dsimp only
        rw [if_pos (Finset.mem_erase.mpr ⟨hj, hj'⟩)]
        exact List.mem_append_right _ (List.mem_singleton_self _)

/-- A hostile announce is no announce of a member. -/
theorem Inv.inject (h : Inv io none s) (j : EndpointId) (a : RosterAnnounce) : Inv io none
    { s with inFlight := Function.update s.inFlight j (s.inFlight j ++ [a]) } where
  floored := h.floored
  honest := h.honest
  slots := h.slots
  book := h.book
  accounted := fun hhash a' ha' j' hj' => .inr <|
    ((h.accounted hhash a' ha' j' hj').resolve_left nofun).mono le_rfl
      (subset_update_append s.inFlight j a j') (List.Subset.refl _) (List.Subset.refl _)

/-- Each step keeps the account. -/
theorem Inv.step (h : Inv io none s) (hstep : s.step P io e = some s') : Inv io none s' := by
  cases e with
  | announce i =>
      obtain ⟨-, hstep⟩ := Option.ite_none_right_eq_some.mp hstep
      obtain ⟨a, ha, rfl⟩ := Option.map_eq_some_iff.mp hstep
      exact h.announce ha
  | inject j a =>
      obtain ⟨-, hstep⟩ := Option.ite_none_right_eq_some.mp hstep
      obtain rfl := Option.some.inj hstep
      exact h.inject j a
  | receive j k limited =>
      obtain ⟨a, ha, rfl⟩ := Option.map_eq_some_iff.mp hstep
      have htaken := h.take ha
      dsimp only
      split
      · exact htaken.lose
      · next hfree =>
        rw [Bool.or_eq_true, decide_eq_true_iff, not_or, Nat.not_le] at hfree
        exact htaken.consider hfree.2
  | fetched j k answer env =>
      obtain ⟨a, ha, rfl⟩ := Option.map_eq_some_iff.mp hstep
      exact (h.release ha).conclude answer env
  | arrive j a =>
      obtain rfl := Option.some.inj hstep
      exact h.setNode (forward_arrivalStep j (h.floored j) a)
  | pair j store =>
      obtain rfl := Option.some.inj hstep
      exact { h with accounted := h.accounted }

/-- The account, in every run. -/
theorem inv_run {nodes : EndpointId → Node J} {stores : EndpointId → PeerStore}
    {events : List (TopicEvent J)} (hnodes : ∀ j, Booted P (nodes j))
    (hrun : run (step P io) (init nodes stores) events = some s) : Inv io none s :=
  run_invariant (fun _ _ _ h hstep => h.step hstep)
    (inv_init fun j => floored_of_booted (hnodes j)) hrun

/-- **Nothing announced goes missing unseen.**  Whatever reaches the members of the
topic and in what order, of every announce of an installed roster each of them serves
that serial or a newer one, or the announce is on its way, being fetched, or was
dropped there.  Where all is quiet and no announce of a member was dropped, the
members that serve what was announced serve one serial. -/
theorem announced_or_dropped {nodes : EndpointId → Node J} {stores : EndpointId → PeerStore}
    {events : List (TopicEvent J)} (hnodes : ∀ j, Booted P (nodes j))
    (hhash : Function.Injective io.rosterHash)
    (hrun : run (step P io) (init nodes stores) events = some s) :
    (∀ a ∈ s.sent, ∀ j ∈ io.members, a.serial ≤ servedSerial (s.nodes j) ∨ a ∈ s.inFlight j ∨
      a ∈ s.fetching j ∨ a ∈ s.lost j) ∧
    ((∀ j ∈ io.members, s.inFlight j = [] ∧ s.fetching j = [] ∧ ∀ a ∈ s.lost j, a ∉ s.sent) →
      ∀ i ∈ io.members, ∀ j ∈ io.members,
        (∃ a ∈ s.sent, servedSerial (s.nodes i) ≤ a.serial) →
          (∃ a ∈ s.sent, servedSerial (s.nodes j) ≤ a.serial) →
            servedSerial (s.nodes i) = servedSerial (s.nodes j)) := by
  have haccounted : ∀ a ∈ s.sent, ∀ j ∈ io.members, s.AccountedAt j a := fun a ha j hj =>
    ((inv_run hnodes hrun).accounted hhash a ha j hj).resolve_left nofun
  refine ⟨haccounted, fun hquiet i hi j hj hannounced hannounced' => ?_⟩
  -- what one member serves at most, a quiet one serves at least
  have hle {i j : EndpointId} (hj : j ∈ io.members)
      (hannounced : ∃ a ∈ s.sent, servedSerial (s.nodes i) ≤ a.serial) :
      servedSerial (s.nodes i) ≤ servedSerial (s.nodes j) := by
    obtain ⟨a, ha, hserves⟩ := hannounced
    obtain ⟨hflight, hfetching, hlost⟩ := hquiet j hj
    obtain hserved | hmem | hmem | hmem := haccounted a ha j hj
    · exact hserves.trans hserved
    · exact absurd (hflight ▸ hmem) List.not_mem_nil
    · exact absurd (hfetching ▸ hmem) List.not_mem_nil
    · exact absurd ha (hlost a hmem)
  exact le_antisymm (hle hj hannounced) (hle hi hannounced')

/-! ### whom a member dials -/

/-- In the step the node takes up the announce, whose provider it does not refuse
to dial. -/
def Clears (io : GossipIo J) (s : RosterTopic J) (e : TopicEvent J) (j : EndpointId)
    (a : RosterAnnounce) (p : EndpointId) : Prop :=
  ∃ k, e = .receive j k false ∧ (s.inFlight j)[k]? = some a ∧
    io.provider a.blobTicket = some p ∧ s.dialRefused j p = false

/-- The node took up the announce at some step of the run, and did not refuse to dial
its provider then. -/
def Cleared (P : Primitives) (io : GossipIo J) (s₀ : RosterTopic J)
    (events : List (TopicEvent J)) (j : EndpointId) (a : RosterAnnounce) (p : EndpointId) : Prop :=
  ∃ before e after s, events = before ++ e :: after ∧ run (step P io) s₀ before = some s ∧
    s.Clears io e j a p

theorem Cleared.snoc {s₀ : RosterTopic J} {events : List (TopicEvent J)} {p : EndpointId}
    (h : Cleared P io s₀ events j a p) (e : TopicEvent J) :
    Cleared P io s₀ (events ++ [e]) j a p := by
  obtain ⟨before, e', after, s, rfl, hrun, hclears⟩ := h
  exact ⟨before, e', after ++ [e], s, by simp, hrun, hclears⟩

/-- What is new in the book, or in a fetch, is a provider that the node may dial. -/
theorem cleared_consider {j' : EndpointId} :
    (∀ p ∈ (s.consider io j a).book j', p ∈ s.book j' ∨
      j' = j ∧ io.provider a.blobTicket = some p ∧ s.dialRefused j p = false) ∧
      ∀ a' ∈ (s.consider io j a).fetching j', a' ∈ s.fetching j' ∨
        j' = j ∧ a' = a ∧ ∃ p, io.provider a.blobTicket = some p ∧ s.dialRefused j p = false := by
  unfold RosterTopic.consider
  split
  · exact ⟨fun _ => .inl, fun _ => .inl⟩
  · split
    · exact ⟨fun _ => .inl, fun _ => .inl⟩
    · next provider hprovider =>
      split
      · exact ⟨fun _ => .inl, fun _ => .inl⟩
      · next hdial =>
        rw [Bool.not_eq_true] at hdial
        dsimp only
        by_cases hj : j' = j
        · subst hj
          rw [Function.update_self, Function.update_self]
          refine ⟨fun p hp => ?_, fun a' ha' => ?_⟩
          · obtain hold | rfl := mem_noteProvider hp
            · exact .inl hold
            · exact .inr ⟨rfl, hprovider, hdial⟩
          · refine (List.mem_append.mp ha').imp_right fun hsame => ?_
            exact ⟨rfl, List.mem_singleton.mp hsame, provider, hprovider, hdial⟩
        · rw [Function.update_of_ne hj, Function.update_of_ne hj]
          exact ⟨fun _ => .inl, fun _ => .inl⟩

/-- A fetch that ends notes nobody. -/
theorem conclude_book (answer : Option J.Bytes) (env : Env) :
    (s.conclude P io j a answer env).book = s.book ∧
      (s.conclude P io j a answer env).fetching = s.fetching := by
  unfold RosterTopic.conclude
  split
  · exact ⟨rfl, rfl⟩
  · split
    · split <;> exact ⟨rfl, rfl⟩
    · exact ⟨rfl, rfl⟩

/-- Taking one out leaves only what was there. -/
theorem mem_update_eraseIdx {queues : EndpointId → List RosterAnnounce} {k : Nat}
    {j' : EndpointId} (h : a ∈ Function.update queues j ((queues j).eraseIdx k) j') :
    a ∈ queues j' := by
  by_cases hj : j' = j
  · subst hj
    rw [Function.update_self] at h
    exact List.mem_of_mem_eraseIdx h
  · rwa [Function.update_of_ne hj] at h

/-- What is noted in a step the step does not refuse. -/
theorem cleared_step (hstep : s.step P io e = some s') (j : EndpointId) :
    (∀ p ∈ s'.book j, p ∈ s.book j ∨ ∃ a, s.Clears io e j a p) ∧
      ∀ a ∈ s'.fetching j, a ∈ s.fetching j ∨ ∃ p, s.Clears io e j a p := by
  cases e with
  | announce i =>
      obtain ⟨-, hstep⟩ := Option.ite_none_right_eq_some.mp hstep
      obtain ⟨a, -, rfl⟩ := Option.map_eq_some_iff.mp hstep
      exact ⟨fun _ => .inl, fun _ => .inl⟩
  | inject i a =>
      obtain ⟨-, hstep⟩ := Option.ite_none_right_eq_some.mp hstep
      obtain rfl := Option.some.inj hstep
      exact ⟨fun _ => .inl, fun _ => .inl⟩
  | receive i k limited =>
      obtain ⟨a, ha, rfl⟩ := Option.map_eq_some_iff.mp hstep
      dsimp only
      split
      · exact ⟨fun _ => .inl, fun _ => .inl⟩
      · next hfree =>
        rw [Bool.or_eq_true, not_or, Bool.not_eq_true] at hfree
        obtain ⟨rfl, -⟩ := hfree
        refine ⟨fun p hp => ?_, fun a' ha' => ?_⟩
        · refine (cleared_consider.1 p hp).imp_right fun hnew => ?_
          obtain ⟨rfl, hprovider, hdial⟩ := hnew
          exact ⟨a, k, rfl, ha, hprovider, hdial⟩
        · refine (cleared_consider.2 a' ha').imp_right fun hnew => ?_
          obtain ⟨rfl, rfl, p, hprovider, hdial⟩ := hnew
          exact ⟨p, k, rfl, ha, hprovider, hdial⟩
  | fetched i k answer env =>
      obtain ⟨a, -, rfl⟩ := Option.map_eq_some_iff.mp hstep
      dsimp only
      rw [(conclude_book answer env).1, (conclude_book answer env).2]
      exact ⟨fun _ => .inl, fun _ ha => .inl (mem_update_eraseIdx ha)⟩
  | arrive i a =>
      obtain rfl := Option.some.inj hstep
      exact ⟨fun _ => .inl, fun _ => .inl⟩
  | pair i store =>
      obtain rfl := Option.some.inj hstep
      exact ⟨fun _ => .inl, fun _ => .inl⟩

/-- What is noted was not refused when it was, in every run. -/
theorem cleared_run {s₀ : RosterTopic J} {events : List (TopicEvent J)}
    (hbook : ∀ j, s₀.book j = []) (hfetching : ∀ j, s₀.fetching j = [])
    (hrun : run (step P io) s₀ events = some s) :
    ∀ j, (∀ p ∈ s.book j, ∃ a, Cleared P io s₀ events j a p) ∧
      ∀ a ∈ s.fetching j, ∃ p, Cleared P io s₀ events j a p := by
  refine run_history (I := fun events s => ∀ j,
    (∀ p ∈ s.book j, ∃ a, Cleared P io s₀ events j a p) ∧
      ∀ a ∈ s.fetching j, ∃ p, Cleared P io s₀ events j a p)
    (fun j => ?_) (fun es s e s' hrun h hstep j => ?_) hrun
  · rw [hbook, hfetching]
    exact ⟨fun _ hp => absurd hp List.not_mem_nil, fun _ ha => absurd ha List.not_mem_nil⟩
  · have hnow {a : RosterAnnounce} {p : EndpointId} (hclears : s.Clears io e j a p) :
        Cleared P io s₀ (es ++ [e]) j a p := ⟨es, e, [], s, rfl, hrun, hclears⟩
    obtain ⟨hbook', hfetching'⟩ := cleared_step hstep j
    refine ⟨fun p hp => ?_, fun a ha => ?_⟩
    · obtain hold | ⟨a, hclears⟩ := hbook' p hp
      · obtain ⟨a, hcleared⟩ := (h j).1 p hold
        exact ⟨a, hcleared.snoc e⟩
      · exact ⟨a, hnow hclears⟩
    · obtain hold | ⟨p, hclears⟩ := hfetching' a ha
      · obtain ⟨p, hcleared⟩ := (h j).2 a hold
        exact ⟨p, hcleared.snoc e⟩
      · exact ⟨p, hnow hclears⟩

/-- **What the topic can make a node do is bounded**, whoever speaks on it: the
fetches at once and the providers it knows; and each of these, and the provider of
each fetch, was one that the node did not refuse to dial when it was noted. -/
theorem receivers_bounded {nodes : EndpointId → Node J} {stores : EndpointId → PeerStore}
    {events : List (TopicEvent J)} (hnodes : ∀ j, Booted P (nodes j))
    (hrun : run (step P io) (init nodes stores) events = some s) (j : EndpointId) :
    (s.fetching j).length ≤ gossipFetchConcurrency ∧ (s.book j).Nodup ∧
      (s.book j).length ≤ io.cap ∧
      (∀ p ∈ s.book j, ∃ a, Cleared P io (init nodes stores) events j a p) ∧
      ∀ a ∈ s.fetching j, ∃ p, Cleared P io (init nodes stores) events j a p := by
  have hinv := inv_run hnodes hrun
  exact ⟨hinv.slots j, (hinv.book j).1, (hinv.book j).2,
    cleared_run (fun _ => rfl) (fun _ => rfl) hrun j⟩

end RosterTopic

end Topic

/-! ## a second roster goes round -/

namespace RosterTopic

namespace GoesRound

open Replay

/-- Two documents, written as their numbers. -/
def docs : SerdeJson where
  Bytes := String
  fromSlice s :=
    if s = "1" then .ok first else if s = "2" then .ok second else .error "no document"
  toVecPretty r :=
    if r = first then .ok "1" else if r = second then .ok "2" else .error "no number"
  fromSlice_toVecPretty r bytes h := by
    split at h
    · next hfirst =>
      obtain rfl := Except.ok.inj h
      rw [if_pos rfl, hfirst]
    · split at h
      · next hsecond =>
        obtain rfl := Except.ok.inj h
        rw [if_neg (by decide), if_pos rfl, hsecond]
      · contradiction

def phone : EndpointId := .replicate 32 2

def io : GossipIo docs :=
  { members := {Instance.ownId, phone}
    rosterHash := fun s : String => "blake3:" ++ s
    ticket := fun _ hash => hash
    provider := fun _ => some Instance.ownId
    cap := 8 }

def started (_ : EndpointId) : Node docs :=
  boot P (Env.healthy T) identity (some "1") (.ok none) 20 40

/-- A pair store without rows, but for these in the revocation table. -/
def revoking (revoked : List EndpointId) : PeerStore where
  revoked eid := .ok (if eid ∈ revoked then some [] else none)
  peers _ := .ok none
  revokedUsers _ := .ok none
  fromSlice _ := .error "no row"

def start : RosterTopic docs := init started fun _ => revoking []

/-- The operator installs and announces the second roster; a phone hears of it, and
announces it on. -/
def events : List (TopicEvent docs) :=
  [.arrive Instance.ownId (.install (Env.healthy T) "2" none), .announce Instance.ownId,
    .receive phone 0 false, .fetched phone 0 (some "2") (Env.healthy T), .announce phone,
    .receive Instance.ownId 0 false]

/-- Nothing is under way for the node. -/
def quiet (s : RosterTopic docs) (j : EndpointId) : Bool :=
  (s.inFlight j).isEmpty && (s.fetching j).isEmpty && (s.lost j).isEmpty

theorem events_run : (run (step P io) start events).map (fun s =>
    (s.sent.map (·.serial), servedSerial (s.nodes Instance.ownId), servedSerial (s.nodes phone),
      quiet s Instance.ownId && quiet s phone)) = some ([2, 2], 2, 2, true) := by
  decide +kernel

/-- The phone revokes the operator, once it has noted it. -/
def revoked : List (TopicEvent docs) := events ++ [.pair phone (revoking [Instance.ownId])]

theorem revoked_run : (run (step P io) start revoked).map (fun s =>
    (s.book phone, s.dialRefused phone Instance.ownId)) = some ([Instance.ownId], true) := by
  decide +kernel

theorem started_booted (j : EndpointId) : Booted P (started j) := ⟨_, _, _, _, _, _, rfl⟩

theorem rosterHash_injective : Function.Injective io.rosterHash := fun _ _ h =>
  (String.append_right_inj "blake3:").mp h

end GoesRound

open GoesRound in
theorem announced_or_dropped_example :
    ∃ s, run (step Replay.P io) start events = some s ∧
      (∀ j ∈ io.members, s.inFlight j = [] ∧ s.fetching j = [] ∧ ∀ a ∈ s.lost j, a ∉ s.sent) ∧
      servedSerial (s.nodes Instance.ownId) = servedSerial (s.nodes phone) := by
  obtain ⟨s, hrun, hs⟩ := Option.map_eq_some_iff.mp events_run
  obtain ⟨hsent, hown, hphone, hquiet⟩ : s.sent.map (·.serial) = [2, 2] ∧
      servedSerial (s.nodes Instance.ownId) = 2 ∧ servedSerial (s.nodes phone) = 2 ∧
      (quiet s Instance.ownId && quiet s phone) = true := by
    simpa only [Prod.mk.injEq] using hs
  have hmembers : ∀ j ∈ io.members,
      s.inFlight j = [] ∧ s.fetching j = [] ∧ ∀ a ∈ s.lost j, a ∉ s.sent := by
    intro j hj
    have hj : quiet s j = true := by
      obtain ⟨hown, hphone⟩ := Bool.and_eq_true_iff.mp hquiet
      obtain rfl | hj := Finset.mem_insert.mp hj
      · exact hown
      · exact Finset.mem_singleton.mp hj ▸ hphone
    simp only [quiet, Bool.and_eq_true, List.isEmpty_iff] at hj
    exact ⟨hj.1.1, hj.1.2, fun a ha => absurd (hj.2 ▸ ha) List.not_mem_nil⟩
  obtain ⟨a, ha, hserial⟩ : ∃ a ∈ s.sent, a.serial = 2 :=
    List.mem_map.mp (hsent ▸ List.mem_cons_self)
  refine ⟨s, hrun, hmembers, ?_⟩
  exact (announced_or_dropped started_booted rosterHash_injective hrun).2 hmembers
    Instance.ownId (Finset.mem_insert_self ..) phone
    (Finset.mem_insert_of_mem (Finset.mem_singleton_self _))
    ⟨a, ha, (hown.trans hserial.symm).le⟩ ⟨a, ha, (hphone.trans hserial.symm).le⟩

open GoesRound in
theorem receivers_bounded_example :
    ∃ s, run (step Replay.P io) start revoked = some s ∧ s.book phone = [Instance.ownId] ∧
      s.dialRefused phone Instance.ownId = true ∧
      ∃ a, Cleared Replay.P io start revoked phone a Instance.ownId := by
  obtain ⟨s, hrun, hs⟩ := Option.map_eq_some_iff.mp revoked_run
  obtain ⟨hbook, hrefused⟩ := Prod.mk.inj hs
  obtain ⟨-, -, -, hcleared, -⟩ := receivers_bounded started_booted hrun phone
  exact ⟨s, hrun, hbook, hrefused, hcleared Instance.ownId (hbook ▸ List.mem_singleton_self _)⟩

end RosterTopic

end Mcpmesh
