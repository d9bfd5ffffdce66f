import Mcpmesh.Daemon.ConfigGrants

/-!
# Mcpmesh.Daemon.RelaySet

The relay set of a node (`set_relays` of `node/src/daemon/handlers.rs`, the
posture of `node/src/daemon.rs`, the boot of `node/src/daemon/boot.rs`).

The set is kept three times: in the relay map of the endpoint, in the posture
and in `config.toml`.  A call holds the reload lock, compares what it is asked
for with the posture and then writes the file, edits the endpoint and sets the
posture, waiting at each edit; a call that is aborted there leaves the rest
undone, and its write to a thread of its own.
-/

namespace Mcpmesh

open Lib ConfigDocument

namespace RelaySet

/-! ## relay urls -/

section Urls

/- `iroh::RelayUrl`, with its `FromStr` (and the text of its error) and, below, its
`Display`. -/
variable {Url : Type} [DecidableEq Url] (parse : String → Except String Url)

/-- The relays that the entries of a list name. -/
def relaysOf (urls : List String) : Finset Url :=
  (urls.filterMap fun u => (parse u).toOption).toFinset

inductive RelayError where
  /-- `set_relays: relay_urls is empty (..)` -/
  | empty
  /-- `set_relays: relay url {u:?}: {e}` -/
  | malformed (url e : String)
  | write (reply : ConfigReply)

/-- Parse every entry; the first that does not parse is the error. -/
def parseAll : List String → Except RelayError (List Url)
  | [] => .ok []
  | u :: us =>
      match parse u with
      | .error e => .error (.malformed u e)
      | .ok r => (parseAll us).map (r :: ·)

end Urls

/-! ## the three copies -/

/-- A value of `[network]` of the file. -/
def networkValue (key : String) (file : Option TomlTable) : Option Toml :=
  match rowOf "network" (file.getD []) with
  | some (.table network) => rowOf key network
  | _ => none

/-- `[network].relay_urls` of the file. -/
def relayUrls (file : Option TomlTable) : List String :=
  match networkValue "relay_urls" file with
  | some (.leaf (.array elements)) => ConfigDocument.strings elements
  | _ => []

structure RelayPosture where
  mode : String
  urls : List String

structure RelayCopies (Url : Type) where
  endpoint : Finset Url
  posture : RelayPosture
  file : Option TomlTable

/-! ## `set_relays` -/

inductive RelayOp (Url : Type) where
  /-- `Endpoint::insert_relay` -/
  | insert (url : Url)
  /-- `Endpoint::remove_relay` -/
  | remove (url : Url)

structure SetRelaysResult where
  changed : Bool
  restartRequired : Bool

/-- A call that has returned, and the copies it found. -/
structure RelayReturn (Url : Type) where
  urls : List String
  found : RelayCopies Url
  answer : Except RelayError SetRelaysResult

inductive SetRelaysStage (Url : Type) where
  /-- The file is being written, on a blocking thread. -/
  | writing
  /-- The edits of the endpoint that are left. -/
  | applying (ops : List (RelayOp Url))

/-- A call under the lock, and the copies it found. -/
structure SetRelaysCall (Url : Type) where
  urls : List String
  parsed : List Url
  found : RelayCopies Url
  stage : SetRelaysStage Url

structure RelayWorld (Url : Type) where
  copies : RelayCopies Url
  active : Option (SetRelaysCall Url)
  /-- What aborted calls have left to be written. -/
  detached : List (List String)

inductive RelayStep where
  /-- A call validates its list and takes the lock. -/
  | call (urls : List String)
  /-- Its write of the file ends. -/
  | write (fault : FileFault)
  /-- The next edit of the endpoint, or the posture when none is left. -/
  | apply
  | abort
  /-- The write of an aborted call ends. -/
  | land (i : Nat) (fault : FileFault)

section Calls

variable {Url : Type} [DecidableEq Url] (parse : String → Except String Url)
  (render : Url → String)

def RelayOp.apply (endpoint : Finset Url) : RelayOp Url → Finset Url
  | .insert url => Insert.insert url endpoint
  | .remove url => endpoint.erase url

/-- The urls of the posture, normalized. -/
def currentNorm (posture : RelayPosture) : List String :=
  posture.urls.filterMap fun u => (parse u).toOption.map render

/-- The delta to the running endpoint: the new relays, then the dropped ones. -/
def relayOps (parsed : List Url) (posture : RelayPosture) : List (RelayOp Url) :=
  let desired := parsed.map render
  let current := currentNorm parse render posture
  (parsed.filter fun r => render r ∉ current).map .insert ++
    (current.filter (· ∉ desired)).filterMap fun norm => (parse norm).toOption.map .remove

def SetRelaysCall.restartRequired (c : SetRelaysCall Url) : Bool :=
  c.found.posture.mode ≠ "custom"

/-- What the running endpoint is to be told: nothing where its mode is another. -/
def SetRelaysCall.ops (c : SetRelaysCall Url) : List (RelayOp Url) :=
  if c.restartRequired then [] else relayOps parse render c.parsed c.found.posture

/-- `write_relays` of the normalized list, and what the file system does to it. -/
def writeFile (file : Option TomlTable) (urls : List String) (fault : FileFault) :
    Option TomlTable × ConfigReply :=
  callConfig file (.pin (.relays urls), fault)

namespace RelayWorld

/-- `set_relays` up to its write. -/
def call (w : RelayWorld Url) (urls : List String) : RelayWorld Url × Option (RelayReturn Url) :=
  if urls = [] then (w, some ⟨urls, w.copies, .error .empty⟩)
  else
    match parseAll parse urls with
    | .error e => (w, some ⟨urls, w.copies, .error e⟩)
    | .ok parsed =>
        if w.active.isSome then (w, none)
        else
          let c : SetRelaysCall Url := { urls, parsed, found := w.copies, stage := .writing }
          let desired := (parsed.map render).toFinset
          if (currentNorm parse render w.copies.posture).toFinset = desired then
            (w, some ⟨urls, w.copies, .ok ⟨false, c.restartRequired⟩⟩)
          else ({ w with active := some c }, none)

/-- The write has ended: an error is answered, with nothing applied. -/
def wrote (w : RelayWorld Url) (c : SetRelaysCall Url) (fault : FileFault) :
    RelayWorld Url × Option (RelayReturn Url) :=
  let (file, reply) := writeFile w.copies.file (c.parsed.map render) fault
  let w := { w with copies := { w.copies with file } }
  if reply = .written then
    ({ w with active := some { c with stage := .applying (c.ops parse render) } }, none)
  else ({ w with active := none }, some ⟨c.urls, c.found, .error (.write reply)⟩)

/-- `set_applied_relays`, and the answer. -/
def settle (w : RelayWorld Url) (c : SetRelaysCall Url) :
    RelayWorld Url × Option (RelayReturn Url) :=
  let mode := if c.restartRequired then c.found.posture.mode else "custom"
  ({ w with
      copies := { w.copies with posture := ⟨mode, c.parsed.map render⟩ }
      active := none },
    some ⟨c.urls, c.found, .ok ⟨true, c.restartRequired⟩⟩)

def step (w : RelayWorld Url) : RelayStep → RelayWorld Url × Option (RelayReturn Url)
  | .call urls => w.call parse render urls
  | .write fault =>
      match w.active with
      | some c =>
          match c.stage with
          | .writing => w.wrote parse render c fault
          | .applying _ => (w, none)
      | none => (w, none)
  | .apply =>
      match w.active with
      | some c =>
          match c.stage with
          | .writing => (w, none)
          | .applying [] => w.settle render c
          | .applying (op :: ops) =>
              ({ w with
                  copies := { w.copies with endpoint := op.apply w.copies.endpoint }
                  active := some { c with stage := .applying ops } },
                none)
      | none => (w, none)
  | .abort =>
      match w.active with
      | some c =>
          let detached := match c.stage with
            | .writing => w.detached ++ [c.parsed.map render]
            | .applying _ => w.detached
          ({ w with active := none, detached }, none)
      | none => (w, none)
  | .land i fault =>
      match w.detached[i]? with
      | some urls =>
          let file := (writeFile w.copies.file urls fault).1
          ({ w with copies := { w.copies with file }, detached := w.detached.eraseIdx i }, none)
      | none => (w, none)

end RelayWorld

/-- Boot from a file in custom relay mode: `Config::load`, `net_plan`, and the seed
of the posture. -/
def boot (file : Option TomlTable) : Option (RelayWorld Url) :=
  match networkValue "relay_mode" file, networkValue "relay_urls" file with
  | some (.leaf (.string "custom")), some (.leaf (.array elements)) =>
      let urls := ConfigDocument.strings elements
      if urls.length < elements.length || urls.isEmpty then none
      else
        match parseAll parse urls with
        | .error _ => none
        | .ok parsed =>
            some {
              copies := { endpoint := parsed.toFinset, posture := ⟨"custom", urls⟩, file }
              active := none
              detached := [] }
  | _, _ => none

end Calls

end RelaySet

end Mcpmesh
