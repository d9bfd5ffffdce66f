import Mcpmesh.Accept.AppProtocols
import Mcpmesh.Lib.Purge
import Mcpmesh.Limits.RateLimiter
import Mcpmesh.Net.Admit
import Mcpmesh.Net.Registry

/-!
# Mcpmesh.Accept.AcceptLoop

The accept loop (`node/src/daemon/accept.rs`): a task for each connection, which
its ALPN sends to one of the arms.

Each arm is cut where it reads or writes something that the tasks share: the
gate, a limiter, the registry.  `next` is the piece that a task runs next;
between two pieces any other task may run, and the configuration may change.
-/

namespace Mcpmesh

open Lib Admit

/-! ## what the tasks share -/

inductive PresenceMode where
  | paired
  | granted
  | off
  deriving DecidableEq

/-- What other verbs change. -/
structure AcceptConfig where
  gate : ComposedGate
  services : Services
  presence : PresenceMode
  gossip : Bool
  blobs : Bool
  appBlobs : Bool
  protocols : AList fun _ : Alpn => Unit
  invites : Nat
  admitAttested : Bool

/-- What the tasks change; `watchers` are the connections whose path is watched. -/
structure AcceptBooks where
  pairAccept : TokenBucket
  blobConn : RateLimiter
  ping : RateLimiter
  pingRefused : Nat
  registry : ConnRegistry
  watchers : List ConnId

/-- `CLOSE_UNAUTHORIZED`. -/
def closeUnauthorized : Nat := 401

/-- A close, with its code and its reason. -/
structure Close where
  code : Nat
  reason : String
  deriving DecidableEq

def unauthorized : Close := ⟨closeUnauthorized, "unauthorized"⟩

/-- `NO_LIVE_INVITE_CLOSE`. -/
def noLiveInvite : Close := ⟨0, "no pairing in progress"⟩

/-- `PING_THROTTLE_CLOSE`. -/
def pingThrottle : Close := ⟨0, "ping rate limited"⟩

/-- Where the task of a connection is. -/
inductive AcceptPhase where
  | accepted
  /-- `run_mesh_connection` -/
  | mesh
  /-- past the no-invite close of the pair arm -/
  | pairOpen
  /-- past its limiter -/
  | pairAdmitted
  | rendezvous
  | pinged (identity : PeerIdentity)
  | ponged (services : List String)
  /-- past the gate -/
  | resolved (arm : Arm)
  /-- past the limiter of its arm, where it has one -/
  | admitted (arm : Arm)
  | captured (arm : Arm) (rosterUser : Option String)
  | serving (arm : Arm) (id : Nat)
  | closed (close : Close)
  | returned

/-- A connection.  `known` and `shown` are ghosts: the gate has resolved its
peer, and the presence policy, as the ping arm read it, let the peer see this
node. -/
structure AcceptedConn where
  remote : EndpointId
  alpn : Alpn
  phase : AcceptPhase
  known : Bool
  shown : Bool

structure AcceptNode where
  config : AcceptConfig
  books : AcceptBooks
  conns : ConnId → Option AcceptedConn

/-- The clocks are those that the piece reads. -/
inductive AcceptEvent where
  | incoming (c : ConnId) (remote : EndpointId) (alpn : Alpn)
  | advance (c : ConnId) (now : Int) (instant : ℚ)
  /-- the handler of the connection returns -/
  | returns (c : ConnId)
  /-- the watcher of its path ends -/
  | unwatch (c : ConnId)
  | configure (config : AcceptConfig)

/-- The connection that an event is about. -/
def AcceptEvent.conn : AcceptEvent → Option ConnId
  | .incoming c _ _ | .advance c _ _ | .returns c | .unwatch c => some c
  | .configure _ => none

/-! ## the arms -/

/-- Whom the policy lets see this node. -/
def pongAllowed (config : AcceptConfig) (identity : PeerIdentity) : Bool :=
  match config.presence with
  | .paired => true
  | .granted => !(callerAllowed config.services (some identity)).isEmpty
  | .off => false

/-- `gate_and_register`, up to the gate. -/
def gateConn (config : AcceptConfig) (conn : AcceptedConn) (arm : Arm) (now : Int) : AcceptedConn :=
  match config.gate.resolve now conn.remote with
  | none => { conn with phase := .closed unauthorized }
  | some _ => { conn with phase := .resolved arm, known := true }

/-- An arm that is composed at boot, or not. -/
def gateIf (enabled : Bool) (disabled : String) (config : AcceptConfig) (conn : AcceptedConn)
    (arm : Arm) (now : Int) : AcceptedConn :=
  if enabled then gateConn config conn arm now else { conn with phase := .closed ⟨0, disabled⟩ }

/-- The first piece of the arm that takes the connection. -/
def accept (config : AcceptConfig) (books : AcceptBooks) (c : ConnId) (conn : AcceptedConn)
    (now : Int) : AcceptBooks × AcceptedConn :=
  match armOf config.protocols conn.alpn with
  | some .mcp =>
      match config.gate.resolve now conn.remote with
      | some _ =>
          ({ books with watchers := c :: books.watchers },
            { conn with phase := .mesh, known := true })
      | none => (books, { conn with phase := .mesh })
  | some .pair =>
      if config.invites = 0 ∧ config.admitAttested = false then
        (books, { conn with phase := .closed noLiveInvite })
      else (books, { conn with phase := .pairOpen })
  | some .ping =>
      match config.gate.resolve now conn.remote with
      | none => (books, { conn with phase := .closed unauthorized })
      | some identity => (books, { conn with phase := .pinged identity, known := true })
  | some .gossip => (books, gateIf config.gossip "gossip not enabled" config conn .gossip now)
  | some .rosterBlobs =>
      (books, gateIf config.blobs "blobs not enabled" config conn .rosterBlobs now)
  | some .appBlobs =>
      (books, gateIf config.appBlobs "app blobs not enabled" config conn .appBlobs now)
  | some (.app alpn) => (books, gateConn config conn (.app alpn) now)
  | none => (books, { conn with phase := .closed ⟨0, "unknown alpn"⟩ })

/-- `admit_ping`. -/
def admitPing (books : AcceptBooks) (remote : EndpointId) (instant : ℚ) : AcceptBooks × Bool :=
  match books.ping.check remote instant with
  | (ping, .ok ()) => ({ books with ping }, true)
  | (ping, .error _) => ({ books with ping, pingRefused := books.pingRefused + 1 }, false)

/-- The answer to a probe.  A peer that may not see this node is metered like any
other, and closed like a stranger. -/
def answerPing (config : AcceptConfig) (books : AcceptBooks) (conn : AcceptedConn)
    (identity : PeerIdentity) (instant : ℚ) : AcceptBooks × AcceptedConn :=
  match conn.shown, admitPing books conn.remote instant with
  | true, (books, true) =>
      (books, { conn with
        phase := .ponged (match config.presence with
          | .off => []
          | _ => callerAllowed config.services (some identity)) })
  | true, (books, false) => (books, { conn with phase := .closed pingThrottle })
  | false, (books, _) => (books, { conn with phase := .closed unauthorized })

/-- The ping arm past the gate: policy, services and limiter in one piece. -/
def pong (config : AcceptConfig) (books : AcceptBooks) (conn : AcceptedConn)
    (identity : PeerIdentity) (instant : ℚ) : AcceptBooks × AcceptedConn :=
  answerPing config books { conn with shown := pongAllowed config identity } identity instant

/-- The limiter of the arm. -/
def admitConn (books : AcceptBooks) (conn : AcceptedConn) (arm : Arm) (instant : ℚ) :
    AcceptBooks × AcceptedConn :=
  match arm with
  | .appBlobs =>
      match books.blobConn.check conn.remote instant with
      | (blobConn, .ok ()) => ({ books with blobConn }, { conn with phase := .admitted arm })
      | (blobConn, .error _) =>
          ({ books with blobConn }, { conn with phase := .closed ⟨0, "blob rate limited"⟩ })
  | _ => (books, { conn with phase := .admitted arm })

/-- `register_checked`, and the close where it refuses. -/
def register (config : AcceptConfig) (books : AcceptBooks) (c : ConnId) (conn : AcceptedConn)
    (arm : Arm) (rosterUser : Option String) : AcceptBooks × AcceptedConn :=
  match books.registry.registerChecked c conn.remote rosterUser
      fun eid => config.gate.shouldSeverNow eid rosterUser with
  | (none, _) => (books, { conn with phase := .closed unauthorized })
  | (some id, registry) => ({ books with registry }, { conn with phase := .serving arm id })

/-- The limiter of the pair arm. -/
def admitPair (books : AcceptBooks) (conn : AcceptedConn) (instant : ℚ) :
    AcceptBooks × AcceptedConn :=
  match books.pairAccept.tryTake instant with
  | (pairAccept, .ok ()) => ({ books with pairAccept }, { conn with phase := .pairAdmitted })
  | (pairAccept, .error _) =>
      ({ books with pairAccept }, { conn with phase := .closed ⟨0, "pair rate limited"⟩ })

/-- The next piece of the task; `none` where it waits for its handler. -/
def next (config : AcceptConfig) (books : AcceptBooks) (c : ConnId) (conn : AcceptedConn)
    (now : Int) (instant : ℚ) : Option (AcceptBooks × AcceptedConn) :=
  match conn.phase with
  | .accepted => some (accept config books c conn now)
  | .mesh => some (books, gateConn config conn .mcp now)
  | .pairOpen => some (admitPair books conn instant)
  | .pairAdmitted =>
      some (books, { conn with
        phase := if config.gate.isRevoked now conn.remote then .closed noLiveInvite
          else .rendezvous })
  | .pinged identity => some (pong config books conn identity instant)
  | .resolved arm => some (admitConn books conn arm instant)
  | .admitted arm =>
      some (books, { conn with phase := .captured arm (config.gate.rosterUser now conn.remote) })
  | .captured arm rosterUser => some (register config books c conn arm rosterUser)
  | .rendezvous | .ponged _ | .serving _ _ | .closed _ | .returned => none

/-- The handler has returned: the registration is dropped. -/
def returns (books : AcceptBooks) (conn : AcceptedConn) : Option (AcceptBooks × AcceptedConn) :=
  match conn.phase with
  | .rendezvous | .ponged _ => some (books, { conn with phase := .returned })
  | .serving _ id =>
      some ({ books with registry := books.registry.deregister id },
        { conn with phase := .returned })
  | _ => none

namespace AcceptNode

variable (s : AcceptNode)

/-- A piece of the task of `c`. -/
def act (c : ConnId) (piece : AcceptedConn → Option (AcceptBooks × AcceptedConn)) :
    Option AcceptNode := do
  let conn ← s.conns c
  let out ← piece conn
  pure { s with books := out.1, conns := Function.update s.conns c (some out.2) }

def step (s : AcceptNode) : AcceptEvent → Option AcceptNode
  | .incoming c remote alpn =>
      match s.conns c with
      | some _ => none
      | none =>
          some { s with
            conns := Function.update s.conns c (some ⟨remote, alpn, .accepted, false, false⟩) }
  | .advance c now instant => s.act c fun conn => next s.config s.books c conn now instant
  | .returns c => s.act c (returns s.books)
  | .unwatch c =>
      if c ∈ s.books.watchers then
        some { s with books := { s.books with watchers := s.books.watchers.erase c } }
      else none
  | .configure config => some { s with config }

/-- A daemon that has just opened its endpoint. -/
def start (config : AcceptConfig) (pairAccept : TokenBucket) (blobConn ping : RateLimiter)
    (registry : ConnRegistry) : AcceptNode :=
  { config
    books := { pairAccept, blobConn, ping, pingRefused := 0, registry, watchers := [] }
    conns := fun _ => none }

/-- The gate has never resolved the peer of this connection, and it is none of
the pair ALPN, which is not gated. -/
def strange (c : ConnId) : Bool :=
  match s.conns c with
  | some conn => !conn.known && conn.alpn != alpnPair
  | none => false

end AcceptNode

/-- The return of a connection that `probing` names. -/
def AcceptEvent.ofProbe (probing : ConnId → Bool) : AcceptEvent → Bool
  | .returns c => probing c
  | _ => false

/-- The configuration under another policy. -/
def AcceptConfig.withPresence (config : AcceptConfig) (policy : PresenceMode) : AcceptConfig :=
  { config with presence := policy }

def AcceptEvent.withPresence (policy : PresenceMode) : AcceptEvent → AcceptEvent
  | .configure config => .configure (config.withPresence policy)
  | e => e

/-! ## one piece -/

section Pieces

variable {config : AcceptConfig} {books books' : AcceptBooks} {c : ConnId}
  {conn conn' : AcceptedConn} {now : Int} {instant : ℚ} {arm : Arm}

/-- The ping protocol is the ping arm's. -/
theorem armOf_alpnPing {H : Type*} (protocols : AList fun _ : Alpn => H) :
    armOf protocols alpnPing = some .ping := rfl

/-- The pair arm is that of the pair protocol. -/
theorem armOf_eq_pair {H : Type*} {protocols : AList fun _ : Alpn => H} {alpn : Alpn}
    (h : armOf protocols alpn = some .pair) : alpn = alpnPair := by
  unfold armOf at h
  split at h
  · contradiction
  · split at h
    · assumption
    · split_ifs at h <;> cases h

/-- How far a peer comes that the gate never resolved. -/
def AcceptPhase.Early : AcceptPhase → Prop
  | .accepted | .mesh | .closed _ => True
  | _ => False

/-- How far a prober comes that may not see this node. -/
def AcceptPhase.Unseen : AcceptPhase → Prop
  | .accepted | .pinged _ => True
  | .closed close => close = unauthorized
  | _ => False

/-- How far another prober comes. -/
def AcceptPhase.Seen : AcceptPhase → Prop
  | .ponged _ | .returned => True
  | .closed close => close = pingThrottle
  | _ => False

/-- Past the gate, or in the pair arm, and of no prober. -/
def AcceptPhase.Late (phase : AcceptPhase) : Prop :=
  ¬ phase.Early ∧ ¬ phase.Unseen ∧ ¬ phase.Seen

/-- What the ghosts say of the phase. -/
structure AcceptedConn.Honest (conn : AcceptedConn) : Prop where
  early : conn.known = false → conn.alpn ≠ alpnPair → conn.phase.Early
  unseen : conn.alpn = alpnPing → conn.shown = false → conn.phase.Unseen
  seen : conn.alpn = alpnPing → conn.shown = true → conn.phase.Seen

/-- What a piece leaves: of an unknown peer, no trace in the books. -/
structure Piece (books : AcceptBooks) (conn : AcceptedConn)
    (out : AcceptBooks × AcceptedConn) : Prop where
  remote : out.2.remote = conn.remote
  alpn : out.2.alpn = conn.alpn
  known : conn.known = true → out.2.known = true
  honest : out.2.Honest
  quiet : out.2.known = false → conn.alpn ≠ alpnPair → out.1 = books

/-- A piece that only moves on. -/
theorem Piece.moves {phase : AcceptPhase}
    (hearly : conn.known = false → conn.alpn ≠ alpnPair → phase.Early)
    (hping : conn.alpn = alpnPing → conn.shown = false ∧ phase.Unseen ∨
      conn.shown = true ∧ phase.Seen) :
    Piece books conn (books, { conn with phase }) where
  remote := rfl
  alpn := rfl
  known := id
  honest :=
    { early := hearly
      unseen := fun halpn hshown => by
        obtain ⟨-, h⟩ | ⟨h, -⟩ := hping halpn
        · exact h
        · exact absurd (hshown.symm.trans h) nofun
      seen := fun halpn hshown => by
        obtain ⟨h, -⟩ | ⟨-, h⟩ := hping halpn
        · exact absurd (hshown.symm.trans h) nofun
        · exact h }
  quiet _ _ := rfl

/-- A piece of a known peer that is no prober. -/
theorem Piece.of_known {phase : AcceptPhase} (hping : conn.alpn ≠ alpnPing)
    (shown : Bool) : Piece books conn (books', { conn with phase, known := true, shown }) where
  remote := rfl
  alpn := rfl
  known _ := rfl
  honest := ⟨nofun, fun h => absurd h hping, fun h => absurd h hping⟩
  quiet := nofun

/-- The gate leaves no trace of an unknown peer. -/
theorem piece_gateConn (hping : conn.alpn ≠ alpnPing) :
    Piece books conn (books, gateConn config conn arm now) := by
  unfold gateConn
  split
  · exact .moves (fun _ _ => trivial) fun halpn => absurd halpn hping
  · exact .of_known hping _

/-- Nor does the gate behind a switch. -/
theorem piece_gateIf {enabled : Bool} {disabled : String}
    (hping : conn.alpn ≠ alpnPing) :
    Piece books conn (books, gateIf enabled disabled config conn arm now) := by
  unfold gateIf
  split
  · exact piece_gateConn hping
  · exact .moves (fun _ _ => trivial) fun halpn => absurd halpn hping

/-- Nor does the first piece of a connection. -/
theorem piece_accept (h : conn.Honest) (hphase : conn.phase = .accepted) :
    Piece books conn (accept config books c conn now) := by
  have hshown : conn.alpn = alpnPing → conn.shown = false := fun halpn => by
    by_contra hshown
    have hseen := h.seen halpn (Bool.eq_true_of_not_eq_false hshown)
    rw [hphase] at hseen
    exact hseen
  have hother {a : Arm} (harm : armOf config.protocols conn.alpn = some a) (hne : a ≠ .ping) :
      conn.alpn ≠ alpnPing := by
    intro halpn
    rw [halpn, armOf_alpnPing] at harm
    exact hne (Option.some.inj harm).symm
  unfold accept
  split
  · next harm =>
    split
    · exact .of_known (hother harm nofun) _
    · exact .moves (fun _ _ => trivial) fun halpn => absurd halpn (hother harm nofun)
  · next harm =>
    split
    · exact .moves (fun _ _ => trivial) fun halpn => absurd halpn (hother harm nofun)
    · exact .moves (fun _ hpair => absurd (armOf_eq_pair harm) hpair)
        fun halpn => absurd halpn (hother harm nofun)
  · split
    · exact .moves (fun _ _ => trivial) fun halpn => .inl ⟨hshown halpn, rfl⟩
    · exact ⟨rfl, rfl, fun _ => rfl, ⟨nofun, fun _ _ => trivial, fun halpn hseen =>
        absurd ((hshown halpn).symm.trans hseen) nofun⟩, nofun⟩
  · next harm => exact piece_gateIf (hother harm nofun)
  · next harm => exact piece_gateIf (hother harm nofun)
  · next harm => exact piece_gateIf (hother harm nofun)
  · next harm => exact piece_gateConn (hother harm nofun)
  · next harm =>
    refine .moves (fun _ _ => trivial) fun halpn => ?_
    rw [halpn, armOf_alpnPing] at harm
    contradiction

/-- The phases of a known peer. -/
theorem AcceptedConn.Honest.known (h : conn.Honest) (hearly : ¬ conn.phase.Early)
    (hpair : conn.alpn ≠ alpnPair) : conn.known = true := by
  by_contra hknown
  exact hearly (h.early (Bool.eq_false_of_not_eq_true hknown) hpair)

/-- The phases of no prober. -/
theorem AcceptedConn.Honest.not_ping (h : conn.Honest) (hunseen : ¬ conn.phase.Unseen)
    (hseen : ¬ conn.phase.Seen) : conn.alpn ≠ alpnPing := fun halpn =>
  match hshown : conn.shown with
  | false => hunseen (h.unseen halpn hshown)
  | true => hseen (h.seen halpn hshown)

/-- A piece of a connection past the gate, or of the pair arm. -/
theorem Piece.late (h : conn.Honest) (hlate : conn.phase.Late) (phase : AcceptPhase) :
    Piece books conn (books', { conn with phase }) := by
  obtain ⟨hphase, hunseen, hseen⟩ := hlate
  have hping : conn.alpn ≠ alpnPing := h.not_ping hunseen hseen
  refine ⟨rfl, rfl, id, ⟨fun hknown hpair => ?_, fun halpn => absurd halpn hping,
    fun halpn => absurd halpn hping⟩, fun hknown hpair => ?_⟩
  · exact absurd (hknown.symm.trans (h.known hphase hpair)) nofun
  · exact absurd (hknown.symm.trans (h.known hphase hpair)) nofun

/-- Nor does the answer to a probe. -/
theorem piece_pong {identity : PeerIdentity} (h : conn.Honest)
    (hphase : conn.phase = .pinged identity) :
    Piece books conn (pong config books conn identity instant) := by
  have hearly : ¬ conn.phase.Early := by rw [hphase]; exact id
  have hknown : conn.alpn ≠ alpnPair → conn.known = true := h.known hearly
  have hpiece {phase : AcceptPhase} {b : AcceptBooks}
      (hping : pongAllowed config identity = false ∧ phase.Unseen ∨
        pongAllowed config identity = true ∧ phase.Seen) :
      Piece books conn (b, { conn with phase, shown := pongAllowed config identity }) := by
    refine ⟨rfl, rfl, id, ⟨fun hstrange hpair => ?_, fun _ hshown => ?_, fun _ hshown => ?_⟩,
      fun hstrange hpair => ?_⟩
    · exact absurd (hstrange.symm.trans (hknown hpair)) nofun
    · obtain ⟨-, hphase⟩ | ⟨hseen, -⟩ := hping
      · exact hphase
      · exact absurd (hshown.symm.trans hseen) nofun
    · obtain ⟨hunseen, -⟩ | ⟨-, hphase⟩ := hping
      · exact absurd (hshown.symm.trans hunseen) nofun
      · exact hphase
    · exact absurd (hstrange.symm.trans (hknown hpair)) nofun
  unfold pong answerPing
  split
  · next hshown _ => exact hpiece (.inr ⟨hshown, trivial⟩)
  · next hshown _ => exact hpiece (.inr ⟨hshown, rfl⟩)
  · next hshown _ => exact hpiece (.inl ⟨hshown, rfl⟩)

/-- The phases of a prober past its pong or its close. -/
def Answered : AcceptPhase → Prop
  | .accepted | .pinged _ => False
  | _ => True

/-- The ping arm meters the prober, and answers it. -/
theorem pong_spec (config : AcceptConfig) (books : AcceptBooks) (conn : AcceptedConn)
    (identity : PeerIdentity) (instant : ℚ) :
    (pong config books conn identity instant).1 = (admitPing books conn.remote instant).1 ∧
      ∃ phase, Answered phase ∧ (pong config books conn identity instant).2 =
        { conn with phase, shown := pongAllowed config identity } := by
  unfold pong answerPing
  split
  · next heq => exact ⟨congrArg Prod.fst heq.symm, .ponged _, trivial, rfl⟩
  · next heq => exact ⟨congrArg Prod.fst heq.symm, .closed _, trivial, rfl⟩
  · next heq => exact ⟨congrArg Prod.fst heq.symm, .closed _, trivial, rfl⟩

/-- Whatever the policy, the pong is metered. -/
theorem pong_books (config : AcceptConfig) (identity : PeerIdentity) :
    (pong config books conn identity instant).1 = (admitPing books conn.remote instant).1 :=
  (pong_spec ..).1

/-- A pong leaves the peer and the protocol of its connection. -/
theorem pong_conn (config : AcceptConfig) (identity : PeerIdentity) :
    (pong config books conn identity instant).2.remote = conn.remote ∧
      (pong config books conn identity instant).2.alpn = conn.alpn := by
  obtain ⟨-, phase, -, heq⟩ := pong_spec config books conn identity instant
  rw [heq]
  exact ⟨rfl, rfl⟩

/-- A probe is answered one way or the other. -/
theorem answered_pong (config : AcceptConfig) (books : AcceptBooks) (conn : AcceptedConn)
    (identity : PeerIdentity) (instant : ℚ) :
    Answered (pong config books conn identity instant).2.phase := by
  obtain ⟨-, phase, hanswered, heq⟩ := pong_spec config books conn identity instant
  rw [heq]
  exact hanswered

/-- **The piece rule**. -/
theorem piece_next {out : AcceptBooks × AcceptedConn} (h : conn.Honest)
    (hnext : next config books c conn now instant = some out) : Piece books conn out := by
  unfold next at hnext
  cases hphase : conn.phase with
  | accepted =>
      rw [hphase] at hnext
      exact Option.some.inj hnext ▸ piece_accept h hphase
  | mesh =>
      rw [hphase] at hnext
      refine Option.some.inj hnext ▸ piece_gateConn (h.not_ping ?_ ?_) <;> rw [hphase] <;> exact id
  | pinged identity =>
      rw [hphase] at hnext
      exact Option.some.inj hnext ▸ piece_pong h hphase
  | pairOpen =>
      rw [hphase] at hnext
      obtain rfl := Option.some.inj hnext
      have hlate : conn.phase.Late := hphase ▸ ⟨id, id, id⟩
      unfold admitPair
      split <;> exact .late h hlate _
  | pairAdmitted =>
      rw [hphase] at hnext
      exact Option.some.inj hnext ▸ .late h (hphase ▸ ⟨id, id, id⟩) _
  | resolved arm =>
      rw [hphase] at hnext
      obtain rfl := Option.some.inj hnext
      have hlate : conn.phase.Late := hphase ▸ ⟨id, id, id⟩
      unfold admitConn
      split
      · split <;> exact .late h hlate _
      · exact .late h hlate _
  | admitted arm =>
      rw [hphase] at hnext
      exact Option.some.inj hnext ▸ .late h (hphase ▸ ⟨id, id, id⟩) _
  | captured arm rosterUser =>
      rw [hphase] at hnext
      obtain rfl := Option.some.inj hnext
      have hlate : conn.phase.Late := hphase ▸ ⟨id, id, id⟩
      unfold register
      split <;> exact .late h hlate _
  | _ => rw [hphase] at hnext; contradiction

/-- The handler of a connection past the gate, or of the pair arm. -/
theorem piece_returns {out : AcceptBooks × AcceptedConn} (h : conn.Honest)
    (hreturns : returns books conn = some out) : Piece books conn out := by
  unfold returns at hreturns
  cases hphase : conn.phase with
  | rendezvous =>
      rw [hphase] at hreturns
      exact Option.some.inj hreturns ▸ .late h (hphase ▸ ⟨id, id, id⟩) _
  | serving arm id =>
      rw [hphase] at hreturns
      exact Option.some.inj hreturns ▸ .late h (hphase ▸ ⟨nofun, nofun, nofun⟩) _
  | ponged services =>
      rw [hphase] at hreturns
      obtain rfl := Option.some.inj hreturns
      have hknown (hpair : conn.alpn ≠ alpnPair) : conn.known = true :=
        h.known (by rw [hphase]; exact id) hpair
      refine .moves (fun hunknown hpair => absurd (hunknown.symm.trans (hknown hpair)) nofun)
        fun halpn => ?_
      cases hshown : conn.shown with
      | false =>
          have hunseen := h.unseen halpn hshown
          rw [hphase] at hunseen
          exact hunseen.elim
      | true => exact .inr ⟨rfl, trivial⟩
  | _ => rw [hphase] at hreturns; contradiction

/-- A piece starts no watcher but its own, of a known peer. -/
theorem mem_watchers_next {out : AcceptBooks × AcceptedConn} {watched : ConnId}
    (hnext : next config books c conn now instant = some out)
    (hmem : watched ∈ out.1.watchers) :
    watched ∈ books.watchers ∨ watched = c ∧ out.2.known = true := by
  unfold next at hnext
  cases hphase : conn.phase with
  | accepted =>
      rw [hphase] at hnext
      obtain rfl := Option.some.inj hnext
      unfold accept at hmem ⊢
      split at hmem
      · split at hmem
        · obtain rfl | hmem := List.mem_cons.mp hmem
          · exact .inr ⟨rfl, rfl⟩
          · exact .inl hmem
        · exact .inl hmem
      · split at hmem <;> exact .inl hmem
      · split at hmem <;> exact .inl hmem
      all_goals exact .inl hmem
  | pinged identity =>
      rw [hphase] at hnext
      obtain rfl := Option.some.inj hnext
      have hping : (admitPing books conn.remote instant).1.watchers = books.watchers := by
        unfold admitPing
        split <;> rfl
      rw [pong_books, hping] at hmem
      exact .inl hmem
  | mesh =>
      rw [hphase] at hnext
      obtain rfl := Option.some.inj hnext
      exact .inl hmem
  | pairOpen =>
      rw [hphase] at hnext
      obtain rfl := Option.some.inj hnext
      unfold admitPair at hmem
      split at hmem <;> exact .inl hmem
  | pairAdmitted =>
      rw [hphase] at hnext
      obtain rfl := Option.some.inj hnext
      exact .inl hmem
  | resolved arm =>
      rw [hphase] at hnext
      obtain rfl := Option.some.inj hnext
      unfold admitConn at hmem
      split at hmem
      · split at hmem <;> exact .inl hmem
      · exact .inl hmem
  | admitted arm =>
      rw [hphase] at hnext
      obtain rfl := Option.some.inj hnext
      exact .inl hmem
  | captured arm rosterUser =>
      rw [hphase] at hnext
      obtain rfl := Option.some.inj hnext
      unfold register at hmem
      split at hmem <;> exact .inl hmem
  | _ => rw [hphase] at hnext; contradiction

/-- A connection that returns leaves the watchers as they are. -/
theorem returns_spec {out : AcceptBooks × AcceptedConn} (hreturns : returns books conn = some out) :
    out.1.watchers = books.watchers ∧ out.2.phase = .returned := by
  unfold returns at hreturns
  split at hreturns
  all_goals first | contradiction | exact Option.some.inj hreturns ▸ ⟨rfl, rfl⟩

/-- The ping arm is that of the ping protocol. -/
theorem armOf_eq_ping {H : Type*} {protocols : AList fun _ : Alpn => H} {alpn : Alpn}
    (h : armOf protocols alpn = some .ping) : alpn = alpnPing := by
  unfold armOf at h
  split at h
  · contradiction
  · split at h
    · contradiction
    · split at h
      · assumption
      · split_ifs at h <;> cases h

/-- A gated connection has not been pinged. -/
theorem gateConn_ne_pinged {identity : PeerIdentity} :
    (gateConn config conn arm now).phase ≠ .pinged identity := by
  unfold gateConn
  split <;> exact nofun

/-- A connection gated under a switch has not been pinged. -/
theorem gateIf_ne_pinged {enabled : Bool} {disabled : String} {identity : PeerIdentity} :
    (gateIf enabled disabled config conn arm now).phase ≠ .pinged identity := by
  unfold gateIf
  split
  · exact gateConn_ne_pinged
  · exact nofun

/-- The gate of the ping arm is in no other. -/
theorem alpn_of_pinged {out : AcceptBooks × AcceptedConn} {identity : PeerIdentity}
    (hnext : next config books c conn now instant = some out)
    (hpinged : out.2.phase = .pinged identity) : conn.alpn = alpnPing := by
  unfold next at hnext
  split at hnext
  · obtain rfl := Option.some.inj hnext
    unfold accept at hpinged
    split at hpinged
    · split at hpinged <;> contradiction
    · split at hpinged <;> contradiction
    · next harm => exact armOf_eq_ping harm
    · exact absurd hpinged gateIf_ne_pinged
    · exact absurd hpinged gateIf_ne_pinged
    · exact absurd hpinged gateIf_ne_pinged
    · exact absurd hpinged gateConn_ne_pinged
    · contradiction
  · exact absurd (Option.some.inj hnext ▸ hpinged) gateConn_ne_pinged
  · obtain rfl := Option.some.inj hnext
    unfold admitPair at hpinged
    split at hpinged <;> contradiction
  · obtain rfl := Option.some.inj hnext
    dsimp only at hpinged
    split at hpinged <;> contradiction
  · next pinged _ =>
    obtain rfl := Option.some.inj hnext
    have hanswered := answered_pong config books conn pinged instant
    exact (hpinged ▸ hanswered : Answered (.pinged _)).elim
  · obtain rfl := Option.some.inj hnext
    unfold admitConn at hpinged
    split at hpinged
    · split at hpinged <;> contradiction
    · contradiction
  · obtain rfl := Option.some.inj hnext
    contradiction
  · obtain rfl := Option.some.inj hnext
    unfold register at hpinged
    split at hpinged <;> contradiction
  all_goals contradiction

end Pieces

/-! ## runs -/

namespace AcceptNode

variable {s s' t : AcceptNode}

/-- What an act on a connection does to the node. -/
theorem act_eq_some {c : ConnId} {piece : AcceptedConn → Option (AcceptBooks × AcceptedConn)} :
    s.act c piece = some s' ↔ ∃ conn out, s.conns c = some conn ∧ piece conn = some out ∧
      { s with books := out.1, conns := Function.update s.conns c (some out.2) } = s' := by
  unfold act
  simp only [Option.bind_eq_bind, Option.bind_eq_some_iff, Option.pure_def, Option.some.injEq]
  constructor
  · rintro ⟨conn, hconn, out, hout, rfl⟩
    exact ⟨conn, out, hconn, hout, rfl⟩
  · rintro ⟨conn, out, hconn, hout, rfl⟩
    exact ⟨conn, hconn, out, hout, rfl⟩

/-- What holds of every state of a run. -/
structure Inv (s : AcceptNode) : Prop where
  honest : ∀ c conn, s.conns c = some conn → conn.Honest
  probed : ∀ c conn identity, s.conns c = some conn → conn.phase = .pinged identity →
    conn.alpn = alpnPing
  watched : ∀ c ∈ s.books.watchers, ∃ conn, s.conns c = some conn ∧ conn.known = true

/-- The invariant holds when the node starts. -/
theorem inv_start (config : AcceptConfig) (pairAccept : TokenBucket) (blobConn ping : RateLimiter)
    (registry : ConnRegistry) : Inv (start config pairAccept blobConn ping registry) :=
  ⟨nofun, nofun, nofun⟩

/-- A piece of one task. -/
theorem Inv.act {c : ConnId} {conn : AcceptedConn} {out : AcceptBooks × AcceptedConn} (h : s.Inv)
    (hconn : s.conns c = some conn) (hpiece : Piece s.books conn out)
    (hprobed : ∀ identity, out.2.phase = .pinged identity → conn.alpn = alpnPing)
    (hwatched : ∀ w ∈ out.1.watchers, w ∈ s.books.watchers ∨ w = c ∧ out.2.known = true) :
    Inv { s with books := out.1, conns := Function.update s.conns c (some out.2) } where
  honest c' conn' hconn' := by
    obtain rfl | hne := eq_or_ne c' c
    · have heq : out.2 = conn' :=
        Option.some.inj ((Function.update_self c' _ s.conns).symm.trans hconn')
      exact heq ▸ hpiece.honest
    · exact h.honest c' conn' ((Function.update_of_ne hne ..).symm.trans hconn')
  probed c' conn' identity hconn' hphase := by
    obtain rfl | hne := eq_or_ne c' c
    · obtain rfl := Option.some.inj ((Function.update_self c' _ s.conns).symm.trans hconn')
      exact hpiece.alpn.trans (hprobed identity hphase)
    · exact h.probed c' conn' identity ((Function.update_of_ne hne ..).symm.trans hconn') hphase
  watched w hw := by
    obtain rfl | hne := eq_or_ne w c
    · refine ⟨out.2, Function.update_self .., ?_⟩
      obtain hw | ⟨-, hknown⟩ := hwatched w hw
      · obtain ⟨conn', hconn', hknown⟩ := h.watched w hw
        obtain rfl := Option.some.inj (hconn.symm.trans hconn')
        exact hpiece.known hknown
      · exact hknown
    · obtain hw | ⟨heq, -⟩ := hwatched w hw
      · obtain ⟨conn', hconn', hknown⟩ := h.watched w hw
        exact ⟨conn', (Function.update_of_ne hne ..).trans hconn', hknown⟩
      · exact absurd heq hne

/-- What a step does to the connection it is about. -/
theorem step_act {e : AcceptEvent} (hstep : s.step e = some s') (h : s.Inv) :
    (∃ c conn out, e.conn = some c ∧ s.conns c = some conn ∧ Piece s.books conn out ∧
      (∀ identity, out.2.phase = .pinged identity → conn.alpn = alpnPing) ∧
      (∀ w ∈ out.1.watchers, w ∈ s.books.watchers ∨ w = c ∧ out.2.known = true) ∧
      s' = { s with books := out.1, conns := Function.update s.conns c (some out.2) }) ∨
    (∃ c remote alpn, e = .incoming c remote alpn ∧ s.conns c = none ∧
      s' = { s with
        conns := Function.update s.conns c (some ⟨remote, alpn, .accepted, false, false⟩) }) ∨
    (∃ c ∈ s.books.watchers, e = .unwatch c ∧
      s' = { s with books := { s.books with watchers := s.books.watchers.erase c } }) ∨
    ∃ config, e = .configure config ∧ s' = { s with config } := by
  cases e with
  | incoming c remote alpn =>
      simp only [step] at hstep
      split at hstep
      · contradiction
      · next hconn => exact .inr (.inl ⟨c, remote, alpn, rfl, hconn, (Option.some.inj hstep).symm⟩)
  | advance c now instant =>
      obtain ⟨conn, out, hconn, hnext, rfl⟩ := act_eq_some.mp hstep
      exact .inl ⟨c, conn, out, rfl, hconn, piece_next (h.honest c conn hconn) hnext,
        fun _ => alpn_of_pinged hnext, fun w hw => mem_watchers_next hnext hw, rfl⟩
  | returns c =>
      obtain ⟨conn, out, hconn, hreturns, rfl⟩ := act_eq_some.mp hstep
      obtain ⟨hwatchers, hreturned⟩ := returns_spec hreturns
      exact .inl ⟨c, conn, out, rfl, hconn, piece_returns (h.honest c conn hconn) hreturns,
        fun _ hphase => absurd (hreturned.symm.trans hphase) nofun,
        fun w hw => .inl (hwatchers ▸ hw), rfl⟩
  | unwatch c =>
      simp only [step] at hstep
      split at hstep
      · next hc => exact .inr (.inr (.inl ⟨c, hc, rfl, (Option.some.inj hstep).symm⟩))
      · contradiction
  | configure config => exact .inr (.inr (.inr ⟨config, rfl, (Option.some.inj hstep).symm⟩))

/-- A step keeps the invariant. -/
theorem inv_step {e : AcceptEvent} (h : s.Inv) (hstep : s.step e = some s') : s'.Inv := by
  obtain ⟨c, conn, out, -, hconn, hpiece, hprobed, hwatched, rfl⟩ |
    ⟨c, remote, alpn, -, hnone, rfl⟩ | ⟨c, hc, -, rfl⟩ | ⟨config, -, rfl⟩ := step_act hstep h
  · exact h.act hconn hpiece hprobed hwatched
  · refine ⟨fun c' conn' hconn' => ?_, fun c' conn' identity hconn' hphase => ?_, fun w hw => ?_⟩
    · obtain rfl | hne := eq_or_ne c' c
      · obtain rfl := Option.some.inj ((Function.update_self c' _ s.conns).symm.trans hconn')
        exact ⟨fun _ _ => trivial, fun _ _ => trivial, nofun⟩
      · exact h.honest c' conn' ((Function.update_of_ne hne ..).symm.trans hconn')
    · obtain rfl | hne := eq_or_ne c' c
      · obtain rfl := Option.some.inj ((Function.update_self c' _ s.conns).symm.trans hconn')
        contradiction
      · exact h.probed c' conn' identity ((Function.update_of_ne hne ..).symm.trans hconn') hphase
    · obtain ⟨conn', hconn', hknown⟩ := h.watched w hw
      have hne : w ≠ c := fun heq => by
        rw [heq, hnone] at hconn'
        contradiction
      exact ⟨conn', (Function.update_of_ne hne ..).trans hconn', hknown⟩
  · exact ⟨h.honest, h.probed, fun w hw => h.watched w (List.mem_of_mem_erase hw)⟩
  · exact ⟨h.honest, h.probed, h.watched⟩

/-! ### strangers -/

section Strangers

variable (hidden : ConnId → Bool)

/-- The hidden connections are strangers still. -/
def Strange (s : AcceptNode) : Prop :=
  s.Inv → ∀ c, hidden c = true → ∀ conn, s.conns c = some conn →
    conn.known = false ∧ conn.alpn ≠ alpnPair

/-- Two nodes that differ in the hidden connections at most. -/
structure Alike (s t : AcceptNode) : Prop where
  inv : s.Inv
  config : t.config = s.config
  books : t.books = s.books
  conns : ∀ c, hidden c = false → t.conns c = s.conns c

variable {hidden}

/-- Connections that are strangers after a step were strangers before it. -/
theorem strange_back {e : AcceptEvent} (hstep : s.step e = some s') (h : Strange hidden s') :
    Strange hidden s := by
  intro hinv c hc conn hconn
  have h' := h (inv_step hinv hstep) c hc
  obtain ⟨c', conn', out, -, hconn', hpiece, -, -, rfl⟩ | ⟨c', remote, alpn, -, hnone, rfl⟩ |
    ⟨c', -, -, rfl⟩ | ⟨config, -, rfl⟩ := step_act hstep hinv
  · obtain rfl | hne := eq_or_ne c c'
    · obtain rfl := Option.some.inj (hconn.symm.trans hconn')
      obtain ⟨hknown, hpair⟩ := h' out.2 (Function.update_self c _ s.conns)
      refine ⟨Bool.eq_false_of_not_eq_true fun htrue => ?_, hpiece.alpn ▸ hpair⟩
      exact absurd ((hpiece.known htrue).symm.trans hknown) nofun
    · exact h' conn ((Function.update_of_ne hne ..).trans hconn)
  · have hne : c ≠ c' := fun heq => by
      rw [heq, hnone] at hconn
      contradiction
    exact h' conn ((Function.update_of_ne hne ..).trans hconn)
  · exact h' conn hconn
  · exact h' conn hconn

/-- A step of a stranger leaves the books as they are. -/
theorem Alike.stranger_step {e : AcceptEvent} (he : e.conn.any hidden = true)
    (hstep : s.step e = some s') (h' : Strange hidden s') (h : Alike hidden s t) :
    Alike hidden s' t := by
  have hinv := inv_step h.inv hstep
  have hother {c c' : ConnId} {conn : Option AcceptedConn} (hc : hidden c = true)
      (hc' : hidden c' = false) : Function.update s.conns c conn c' = s.conns c' := by
    refine Function.update_of_ne (fun heq => ?_) ..
    rw [heq, hc] at hc'
    contradiction
  obtain ⟨c, conn, out, hc, hconn, hpiece, -, -, rfl⟩ | ⟨c, remote, alpn, rfl, hnone, rfl⟩ |
    ⟨c, hmem, rfl, rfl⟩ | ⟨config, rfl, rfl⟩ := step_act hstep h.inv
  · rw [hc] at he
    obtain ⟨hknown, hpair⟩ := h' hinv c he out.2 (Function.update_self c _ s.conns)
    have hbooks : out.1 = s.books := hpiece.quiet hknown (hpiece.alpn ▸ hpair)
    exact ⟨hinv, h.config, h.books.trans hbooks.symm,
      fun c' hc' => (h.conns c' hc').trans (hother he hc').symm⟩
  · exact ⟨hinv, h.config, h.books, fun c' hc' => (h.conns c' hc').trans (hother he hc').symm⟩
  · obtain ⟨conn, hconn, hknown⟩ := h.inv.watched c hmem
    exact absurd ((h' hinv c he conn hconn).1.symm.trans hknown) nofun
  · exact absurd he nofun

/-- Any other step is taken by both. -/
theorem Alike.other_step {e : AcceptEvent} (he : e.conn.any hidden = false)
    (hstep : s.step e = some s') (h : Alike hidden s t) :
    ∃ t', t.step e = some t' ∧ Alike hidden s' t' := by
  have hinv := inv_step h.inv hstep
  have hupdate {c : ConnId} (conn : AcceptedConn) (c' : ConnId) (hc' : hidden c' = false) :
      Function.update t.conns c (some conn) c' = Function.update s.conns c (some conn) c' := by
    obtain rfl | hne := eq_or_ne c' c
    · rw [Function.update_self, Function.update_self]
    · rw [Function.update_of_ne hne, Function.update_of_ne hne]
      exact h.conns c' hc'
  cases e with
  | incoming c remote alpn =>
      have hc : t.conns c = s.conns c := h.conns c he
      simp only [step] at hstep ⊢
      rw [hc]
      split at hstep
      · contradiction
      · next hnone =>
        obtain rfl := Option.some.inj hstep
        exact ⟨_, rfl, hinv, h.config, h.books, hupdate _⟩
  | advance c now instant =>
      obtain ⟨conn, out, hconn, hnext, rfl⟩ := act_eq_some.mp hstep
      refine ⟨_, act_eq_some.mpr ⟨conn, out, (h.conns c he).trans hconn, ?_, rfl⟩, hinv, h.config,
        rfl, hupdate _⟩
      rw [h.config, h.books]
      exact hnext
  | returns c =>
      obtain ⟨conn, out, hconn, hreturns, rfl⟩ := act_eq_some.mp hstep
      refine ⟨_, act_eq_some.mpr ⟨conn, out, (h.conns c he).trans hconn, ?_, rfl⟩, hinv, h.config,
        rfl, hupdate _⟩
      rw [h.books]
      exact hreturns
  | unwatch c =>
      simp only [step] at hstep ⊢
      rw [h.books]
      split at hstep
      · next hmem =>
        obtain rfl := Option.some.inj hstep
        exact ⟨_, if_pos hmem, hinv, h.config, rfl, h.conns⟩
      · contradiction
  | configure config =>
      obtain rfl := Option.some.inj hstep
      exact ⟨_, rfl, hinv, rfl, h.books, h.conns⟩

end Strangers

variable {config : AcceptConfig} {pairAccept : TokenBucket} {blobConn ping : RateLimiter}
  {registry : ConnRegistry} {es : List AcceptEvent}

/-- **Strangers stay cheap**: a run without the connections whose peer the gate
never resolved ends in the same books, with the same other connections. -/
theorem strangers_leave_no_trace
    (hrun : run step (start config pairAccept blobConn ping registry) es = some s') :
    ∃ t, run step (start config pairAccept blobConn ping registry)
        (es.filter fun e => !e.conn.any s'.strange) = some t ∧
      t.config = s'.config ∧ t.books = s'.books ∧
      ∀ c, s'.strange c = false → t.conns c = s'.conns c := by
  have hJ : Strange s'.strange s' := by
    intro _ c hc conn hconn
    simp only [strange, hconn, Bool.and_eq_true, Bool.not_eq_true', bne_iff_ne] at hc
    exact hc
  have hR : Alike s'.strange (start config pairAccept blobConn ping registry)
      (start config pairAccept blobConn ping registry) :=
    ⟨inv_start .., rfl, rfl, fun _ _ => rfl⟩
  obtain ⟨t, ht, h⟩ := run_purge (fun _ _ _ => strange_back)
    (fun _ _ _ _ he hstep h' h => h.stranger_step he hstep h')
    (fun _ _ _ _ he hstep _ h => h.other_step he hstep) hrun hJ hR
  exact ⟨t, ht, h.config, h.books, h.conns⟩

/-! ### probers -/

section Probers

variable {policy : PresenceMode} {books : AcceptBooks} {c : ConnId} {conn : AcceptedConn}
  {now : Int} {instant : ℚ} {out : AcceptBooks × AcceptedConn}

/-- Two states of a prober that has come as far under another policy. -/
def SameProbe (conn conn' : AcceptedConn) : Prop :=
  conn'.remote = conn.remote ∧ conn'.alpn = alpnPing ∧ (match conn.phase with
    | .accepted => conn'.phase = .accepted
    | .pinged identity => conn'.phase = .pinged identity
    | _ => Answered conn'.phase)

/-- A connection under another policy: only a prober may differ. -/
inductive SameConn : Option AcceptedConn → Option AcceptedConn → Prop
  | free : SameConn none none
  | probe {conn conn' : AcceptedConn} (halpn : conn.alpn = alpnPing) (h : SameProbe conn conn') :
      SameConn (some conn) (some conn')
  | other {conn : AcceptedConn} (halpn : conn.alpn ≠ alpnPing) : SameConn (some conn) (some conn)

/-- Two nodes that differ in the policy, and in what their probers are told. -/
structure Metered (policy : PresenceMode) (s t : AcceptNode) : Prop where
  inv : s.Inv
  config : t.config = s.config.withPresence policy
  books : t.books = s.books
  conns : ∀ c, SameConn (s.conns c) (t.conns c)

/-- A probe answered in one run is answered in the other. -/
theorem sameProbe_answered {conn' : AcceptedConn} (hremote : conn'.remote = conn.remote)
    (halpn : conn'.alpn = alpnPing) (hanswered : Answered conn.phase)
    (hanswered' : Answered conn'.phase) : SameProbe conn conn' := by
  refine ⟨hremote, halpn, ?_⟩
  split
  · next h => exact (h ▸ hanswered : Answered .accepted).elim
  · next h => exact (h ▸ hanswered : Answered (.pinged _)).elim
  · exact hanswered'

/-- A prober that is not past its pong takes the same piece under any policy. -/
theorem sameProbe_next {conn' : AcceptedConn} (h : conn.Honest) (halpn : conn.alpn = alpnPing)
    (hprobe : SameProbe conn conn') (config : AcceptConfig)
    (hnext : next config books c conn now instant = some out) :
    ∃ out', next (config.withPresence policy) books c conn' now instant = some out' ∧
      out'.1 = out.1 ∧ SameProbe out.2 out'.2 := by
  obtain ⟨hremote, halpn', hphase'⟩ := hprobe
  have hpiece := piece_next h hnext
  unfold next at hnext ⊢
  cases hphase : conn.phase with
  | accepted =>
      rw [hphase] at hnext hphase'
      rw [hphase']
      obtain rfl := Option.some.inj hnext
      have harm (protocols : AList fun _ : Alpn => Unit) {alpn : Alpn} (halpn : alpn = alpnPing) :
          armOf protocols alpn = some .ping := halpn ▸ armOf_alpnPing protocols
      refine ⟨_, rfl, ?_⟩
      simp only [accept, harm _ halpn, harm _ halpn', hremote, AcceptConfig.withPresence]
      split
      · exact ⟨rfl, rfl, halpn', trivial⟩
      · exact ⟨rfl, rfl, halpn', rfl⟩
  | pinged identity =>
      rw [hphase] at hnext hphase'
      rw [hphase']
      obtain rfl := Option.some.inj hnext
      refine ⟨_, rfl, ?_, sameProbe_answered ?_ ?_ (answered_pong ..) (answered_pong ..)⟩
      · rw [pong_books, pong_books, hremote]
      · exact (pong_conn ..).1.trans (hremote.trans (pong_conn ..).1.symm)
      · exact (pong_conn ..).2.trans halpn'
  | closed _ => rw [hphase] at hnext; contradiction
  | ponged _ => rw [hphase] at hnext; contradiction
  | returned => rw [hphase] at hnext; contradiction
  | rendezvous => rw [hphase] at hnext; contradiction
  | serving _ _ => rw [hphase] at hnext; contradiction
  | _ =>
      exact absurd halpn (h.not_ping (by rw [hphase]; exact id) (by rw [hphase]; exact id))

/-- The piece of a connection that is no prober reads no policy. -/
theorem next_withPresence
    (hprobed : ∀ identity, conn.phase = .pinged identity → conn.alpn = alpnPing)
    (halpn : conn.alpn ≠ alpnPing) (config : AcceptConfig) :
    next (config.withPresence policy) books c conn now instant =
      next config books c conn now instant := by
  unfold next
  cases hphase : conn.phase with
  | pinged identity => exact absurd (hprobed identity hphase) halpn
  | _ => rfl

/-- Matching connections match with one replaced. -/
theorem SameConn.update {conns conns' : ConnId → Option AcceptedConn}
    (h : ∀ c, SameConn (conns c) (conns' c)) {conn conn' : Option AcceptedConn}
    (hc : SameConn conn conn') (w : ConnId) :
    SameConn (Function.update conns c conn w) (Function.update conns' c conn' w) := by
  obtain rfl | hne := eq_or_ne w c
  · rwa [Function.update_self, Function.update_self]
  · rw [Function.update_of_ne hne, Function.update_of_ne hne]
    exact h w

/-- A step that is no return of a prober. -/
theorem Metered.step {e : AcceptEvent} {s s' t : AcceptNode} (hstep : s.step e = some s')
    (he : ∀ c conn, e = .returns c → s.conns c = some conn → conn.alpn ≠ alpnPing)
    (h : Metered policy s t) :
    ∃ t', t.step (e.withPresence policy) = some t' ∧ Metered policy s' t' := by
  have hinv := inv_step h.inv hstep
  cases e with
  | incoming c remote alpn =>
      simp only [AcceptNode.step] at hstep
      split at hstep
      · contradiction
      · next hnone =>
        obtain rfl := Option.some.inj hstep
        have hfree : t.conns c = none := by
          have hconn := h.conns c
          rw [hnone] at hconn
          generalize t.conns c = conn' at hconn ⊢
          cases hconn
          rfl
        have hsame : SameConn (some ⟨remote, alpn, .accepted, false, false⟩)
            (some ⟨remote, alpn, .accepted, false, false⟩) := by
          by_cases halpn : alpn = alpnPing
          · exact .probe halpn ⟨rfl, halpn, rfl⟩
          · exact .other halpn
        refine ⟨{ t with
          conns := Function.update t.conns c (some ⟨remote, alpn, .accepted, false, false⟩) },
          ?_, hinv, h.config, h.books, SameConn.update h.conns hsame⟩
        simp only [AcceptNode.step, AcceptEvent.withPresence, hfree]
  | advance c now instant =>
      obtain ⟨conn, out, hconn, hnext, rfl⟩ := act_eq_some.mp hstep
      have hsame := h.conns c
      rw [hconn] at hsame
      generalize hconn' : t.conns c = conn' at hsame
      cases hsame with
      | probe halpn hprobe =>
          obtain ⟨out', hnext', hbooks, hsame⟩ :=
            sameProbe_next (h.inv.honest c conn hconn) halpn hprobe s.config hnext
          have hpiece := piece_next (h.inv.honest c conn hconn) hnext
          refine ⟨_, act_eq_some.mpr ⟨_, out', hconn', ?_, rfl⟩, hinv, h.config, hbooks,
            SameConn.update h.conns (.probe (hpiece.alpn.trans halpn) hsame)⟩
          rw [h.config, h.books]
          exact hnext'
      | other halpn =>
          have hpiece := piece_next (h.inv.honest c conn hconn) hnext
          refine ⟨_, act_eq_some.mpr ⟨_, out, hconn', ?_, rfl⟩, hinv, h.config, rfl,
            SameConn.update h.conns (.other fun heq => halpn (hpiece.alpn.symm.trans heq))⟩
          rw [h.config, h.books, next_withPresence (fun _ => h.inv.probed c conn _ hconn) halpn]
          exact hnext
  | returns c =>
      obtain ⟨conn, out, hconn, hreturns, rfl⟩ := act_eq_some.mp hstep
      have halpn : conn.alpn ≠ alpnPing := he c conn rfl hconn
      have hsame := h.conns c
      rw [hconn] at hsame
      generalize hconn' : t.conns c = conn' at hsame
      cases hsame with
      | probe hping _ => exact absurd hping halpn
      | other _ =>
          have hpiece := piece_returns (h.inv.honest c conn hconn) hreturns
          refine ⟨_, act_eq_some.mpr ⟨_, out, hconn', ?_, rfl⟩, hinv, h.config, rfl,
            SameConn.update h.conns (.other fun heq => halpn (hpiece.alpn.symm.trans heq))⟩
          rw [h.books]
          exact hreturns
  | unwatch c =>
      simp only [AcceptNode.step] at hstep
      split at hstep
      · next hmem =>
        obtain rfl := Option.some.inj hstep
        refine ⟨{ t with books := { t.books with watchers := t.books.watchers.erase c } }, ?_, hinv,
          h.config, ?_, h.conns⟩
        · exact if_pos (h.books ▸ hmem)
        · rw [h.books]
      · contradiction
  | configure config =>
      obtain rfl := Option.some.inj hstep
      exact ⟨_, rfl, hinv, rfl, h.books, h.conns⟩

/-- A prober returns from its pong, and leaves the books alone. -/
theorem returns_probe (h : conn.Honest) (halpn : conn.alpn = alpnPing)
    (hreturns : returns books conn = some out) :
    out = (books, { conn with phase := .returned }) ∧ Answered conn.phase := by
  unfold Mcpmesh.returns at hreturns
  cases hphase : conn.phase with
  | ponged services =>
      rw [hphase] at hreturns
      exact ⟨(Option.some.inj hreturns).symm, trivial⟩
  | rendezvous =>
      exact absurd halpn (h.not_ping (by rw [hphase]; exact id) (by rw [hphase]; exact id))
  | serving arm id =>
      exact absurd halpn
        (h.not_ping (by rw [hphase]; exact fun h => h) (by rw [hphase]; exact fun h => h))
  | _ => rw [hphase] at hreturns; contradiction

/-- The return of a prober. -/
theorem Metered.returns {s s' t : AcceptNode} (hstep : s.step (.returns c) = some s')
    (hping : ∀ conn, s.conns c = some conn → conn.alpn = alpnPing) (h : Metered policy s t) :
    Metered policy s' t := by
  have hinv := inv_step h.inv hstep
  obtain ⟨conn, out, hconn, hreturns, rfl⟩ := act_eq_some.mp hstep
  have halpn : conn.alpn = alpnPing := hping conn hconn
  obtain ⟨rfl, hanswered⟩ := returns_probe (h.inv.honest c conn hconn) halpn hreturns
  refine ⟨hinv, h.config, h.books, fun w => ?_⟩
  obtain rfl | hne := eq_or_ne w c
  · have hsame := h.conns w
    rw [hconn] at hsame
    dsimp only
    rw [Function.update_self]
    generalize t.conns w = conn' at hsame ⊢
    cases hsame with
    | probe _ hprobe =>
        obtain ⟨hremote, halpn', hphase⟩ := hprobe
        refine .probe halpn ⟨hremote, halpn', ?_⟩
        split at hphase
        · next heq => exact (heq ▸ hanswered : Answered .accepted).elim
        · next heq => exact (heq ▸ hanswered : Answered (.pinged _)).elim
        · exact hphase
    | other hne => exact absurd halpn hne
  · dsimp only
    rw [Function.update_of_ne hne]
    exact h.conns w

/-- The connections of the ping ALPN. -/
def probing (s : AcceptNode) (c : ConnId) : Bool :=
  (s.conns c).any fun conn => conn.alpn == alpnPing

/-- Which connections are of the ping ALPN. -/
def Probing (probing : ConnId → Bool) (s : AcceptNode) : Prop :=
  s.Inv → ∀ c conn, s.conns c = some conn → (probing c = true ↔ conn.alpn = alpnPing)

/-- Marks that are right after a step were right before it. -/
theorem probing_back {probing : ConnId → Bool} {e : AcceptEvent} {s s' : AcceptNode}
    (hstep : s.step e = some s') (h : Probing probing s') : Probing probing s := by
  intro hinv c conn hconn
  have h' := h (inv_step hinv hstep) c
  obtain ⟨c', conn', out, -, hconn', hpiece, -, -, rfl⟩ | ⟨c', remote, alpn, -, hnone, rfl⟩ |
    ⟨c', -, -, rfl⟩ | ⟨config, -, rfl⟩ := step_act hstep hinv
  · obtain rfl | hne := eq_or_ne c c'
    · obtain rfl := Option.some.inj (hconn.symm.trans hconn')
      exact hpiece.alpn ▸ h' out.2 (Function.update_self c _ s.conns)
    · exact h' conn ((Function.update_of_ne hne ..).trans hconn)
  · have hne : c ≠ c' := fun heq => by
      rw [heq, hnone] at hconn
      contradiction
    exact h' conn ((Function.update_of_ne hne ..).trans hconn)
  · exact h' conn hconn
  · exact h' conn hconn

end Probers

/-- **The presence policy only words the answer to a prober**: under any other
policy the same run spends the same buckets, registers the same connections and
serves the others alike. -/
theorem presence_moves_no_book (policy : PresenceMode)
    (hrun : run step (start config pairAccept blobConn ping registry) es = some s') :
    ∃ t, run step (start (config.withPresence policy) pairAccept blobConn ping registry)
        ((es.filter fun e => !e.ofProbe s'.probing).map (AcceptEvent.withPresence policy)) =
        some t ∧ t.books = s'.books ∧
      ∀ c conn, s'.conns c = some conn → conn.alpn ≠ alpnPing → t.conns c = some conn := by
  have hJ : Probing s'.probing s' := by
    intro _ c conn hconn
    simp only [probing, hconn, Option.any_some, beq_iff_eq]
  have hR : Metered policy (start config pairAccept blobConn ping registry)
      (start (config.withPresence policy) pairAccept blobConn ping registry) :=
    ⟨inv_start .., rfl, rfl, fun _ => .free⟩
  have hhidden (s : AcceptNode) (e : AcceptEvent) (s₁ t : AcceptNode)
      (he : e.ofProbe s'.probing = true) (hstep : s.step e = some s₁)
      (h' : Probing s'.probing s₁) (h : Metered policy s t) : Metered policy s₁ t := by
    cases e with
    | returns c =>
        exact h.returns hstep fun conn hconn => (probing_back hstep h' h.inv c conn hconn).mp he
    | _ => exact absurd he nofun
  have hseen (s : AcceptNode) (e : AcceptEvent) (s₁ t : AcceptNode)
      (he : e.ofProbe s'.probing = false) (hstep : s.step e = some s₁)
      (h' : Probing s'.probing s₁) (h : Metered policy s t) :
      ∃ t', t.step (e.withPresence policy) = some t' ∧ Metered policy s₁ t' := by
    refine h.step hstep fun c conn heq hconn hping => ?_
    obtain rfl := heq
    exact absurd (he.symm.trans ((probing_back hstep h' h.inv c conn hconn).mpr hping)) nofun
  obtain ⟨t, ht, h⟩ := run_purge (fun _ _ _ => probing_back) hhidden hseen hrun hJ hR
  refine ⟨t, (run_map ..).trans ht, h.books, fun c conn hconn halpn => ?_⟩
  have hsame := h.conns c
  rw [hconn] at hsame
  generalize t.conns c = conn' at hsame ⊢
  cases hsame with
  | probe hping _ => exact absurd hping halpn
  | other _ => rfl

/-- **A prober that may not see this node sees what a stranger sees**: it gets no
pong, and no close but that of a stranger, however its bucket stands. -/
theorem hidden_prober_sees_a_stranger
    (hrun : run step (start config pairAccept blobConn ping registry) es = some s') (c : ConnId)
    (conn : AcceptedConn) (hconn : s'.conns c = some conn) (hping : conn.alpn = alpnPing)
    (hshown : conn.shown = false) :
    conn.phase = .accepted ∨ (∃ identity, conn.phase = .pinged identity) ∨
      conn.phase = .closed unauthorized := by
  have hinv : s'.Inv := run_invariant (fun _ _ _ => inv_step) (inv_start ..) hrun
  have hunseen := (hinv.honest c conn hconn).unseen hping hshown
  cases hphase : conn.phase with
  | accepted => exact .inl rfl
  | pinged identity => exact .inr (.inl ⟨identity, rfl⟩)
  | closed close =>
      rw [hphase] at hunseen
      exact .inr (.inr (congrArg _ hunseen))
  | _ => rw [hphase] at hunseen; exact hunseen.elim

/-! ### a friend and a stranger -/

namespace Example

def friend : EndpointId := .replicate 32 1

def stranger : EndpointId := .replicate 32 2

/-- Only the friend has a row. -/
def pairs : PeerStore where
  revoked _ := .ok none
  peers endpoint := .ok (if endpoint = friend then some [] else none)
  revokedUsers _ := .ok none
  fromSlice _ := .ok ⟨friend, "friend", [], none, none, none⟩

/-- The friend is paired, and granted nothing. -/
def shy : AcceptConfig where
  gate := ⟨⟨none, 0, none, 0⟩, pairs⟩
  services := ∅
  presence := .granted
  gossip := false
  blobs := false
  appBlobs := false
  protocols := ∅
  invites := 0
  admitAttested := false

def quiet : AcceptNode :=
  start shy (.new 1 1 0) (.perMinute 1 1) (.perMinute 1 1) ⟨.empty, 0⟩

/-- Both probe. -/
def probes : List AcceptEvent :=
  [.incoming 0 friend alpnPing, .incoming 1 stranger alpnPing, .advance 1 0 0, .advance 0 0 0,
    .advance 0 0 0]

end Example

theorem strangers_leave_no_trace_example : ∃ s t, run step Example.quiet Example.probes = some s ∧
    s.strange 1 = true ∧ run step Example.quiet
      (Example.probes.filter fun e => !e.conn.any s.strange) = some t ∧ t.books = s.books := by
  have hrun : run step Example.quiet Example.probes = some _ := rfl
  obtain ⟨t, ht, -, hbooks, -⟩ := strangers_leave_no_trace hrun
  exact ⟨_, t, hrun, rfl, ht, hbooks⟩

theorem presence_moves_no_book_example : ∃ s t, run step Example.quiet Example.probes = some s ∧
    run step (start (Example.shy.withPresence .paired) (.new 1 1 0) (.perMinute 1 1)
      (.perMinute 1 1) ⟨.empty, 0⟩) ((Example.probes.filter fun e => !e.ofProbe s.probing).map
        (AcceptEvent.withPresence .paired)) = some t ∧ t.books = s.books := by
  have hrun : run step Example.quiet Example.probes = some _ := rfl
  obtain ⟨t, ht, hbooks, -⟩ := presence_moves_no_book .paired hrun
  exact ⟨_, t, hrun, ht, hbooks⟩

/-- The friend is refused as the stranger is. -/
theorem hidden_prober_sees_a_stranger_example : ∃ s conn,
    run step Example.quiet Example.probes = some s ∧ s.conns 0 = some conn ∧
      conn.known = true ∧ (conn.phase = .accepted ∨ (∃ identity, conn.phase = .pinged identity) ∨
        conn.phase = .closed unauthorized) := by
  have hrun : run step Example.quiet Example.probes = some _ := rfl
  exact ⟨_, _, hrun, rfl, rfl, hidden_prober_sees_a_stranger hrun 0 _ rfl rfl rfl⟩

end AcceptNode

end Mcpmesh
