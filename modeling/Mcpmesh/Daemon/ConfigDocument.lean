import Mcpmesh.Daemon.ConfigServices
import Mcpmesh.Lib.Document
import Mcpmesh.Lib.LastWord

/-!
# Mcpmesh.Daemon.ConfigDocument

`config.toml` as a document, and the writers that edit it
(`node/src/daemon/config_write.rs`).

A writer reads the file, edits the tables it names and writes the document back,
or finds nothing to do and writes nothing.  Rendering and parsing are inverse, so
the file is its document.  Over any calls the allow lists are a map of sets that
the grants add to and the revocations take from, and nothing that a call does
not name changes (`config_writers_refine`).
-/

namespace Mcpmesh

open Lib

/-! ## documents -/

/-- An element of an array, as the writers look at it. -/
inductive TomlElement where
  | string (s : String)
  | other (toml : String)
  deriving DecidableEq

/-- A value that is no table. -/
inductive TomlLeaf where
  | string (s : String)
  | integer (i : Int)
  | array (elements : List TomlElement)
  | other (toml : String)
  deriving DecidableEq

abbrev Toml := Document TomlLeaf

abbrev TomlTable := List (String × Toml)

namespace ConfigDocument

def put (key : String) (value : Toml) (t : TomlTable) : TomlTable :=
  upsert (fun a b => a < b) key value t

def stringArray (strings : List String) : Toml := .leaf (.array (strings.map .string))

/-- `entry(key).or_insert_with(Table::new)`, where that is a table. -/
def subtable (t : TomlTable) (key : String) : Option TomlTable :=
  match rowOf key t with
  | none => some []
  | some (.table entry) => some entry
  | some (.leaf _) => none

/-- The strings of an array. -/
def strings (elements : List TomlElement) : List String :=
  elements.filterMap fun
    | .string s => some s
    | .other _ => none

/-- The array under `allow`. -/
def allowArray (entry : Toml) : Option (List TomlElement) :=
  match entry with
  | .table svc =>
      match rowOf "allow" svc with
      | some (.leaf (.array elements)) => some elements
      | _ => none
  | .leaf _ => none

/-- The integer under `rate_limit_per_min`. -/
def rateLimit (entry : Toml) : Option Int :=
  match entry with
  | .table svc =>
      match rowOf "rate_limit_per_min" svc with
      | some (.leaf (.integer rate)) => some rate
      | _ => none
  | .leaf _ => none

/-! ## the writers -/

/-- Why a writer bails: what is no table, or no array. -/
inductive DocumentError where
  | notTable (table : String)
  | notArray (array : String)
  deriving DecidableEq

def DocumentError.message (path : String) : DocumentError → String
  | .notTable table => "[" ++ table ++ "] in " ++ path ++ " is not a table"
  | .notArray array => array ++ " in " ++ path ++ " is not an array"

/-- `upsert_config_strings` -/
def upsertConfigStrings (table : String) (pairs : List (String × String)) (doc : TomlTable) :
    Except DocumentError TomlTable :=
  match subtable doc table with
  | none => .error (.notTable table)
  | some entry =>
      let entry := pairs.foldl (fun t kv => put kv.1 (.leaf (.string kv.2)) t) entry
      .ok (put table (.table entry) doc)

/-- `write_identity_pin` -/
def writeIdentityPin (orgRootPk orgId : String) : TomlTable → Except DocumentError TomlTable :=
  upsertConfigStrings "identity" [("org_root_pk", orgRootPk), ("org_id", orgId)]

/-- `write_identity_user_id` -/
def writeIdentityUserId (userId : String) : TomlTable → Except DocumentError TomlTable :=
  upsertConfigStrings "identity" [("user_id", userId)]

/-- `write_join_pin` -/
def writeJoinPin (orgId orgRootPk userId userKey : String) :
    TomlTable → Except DocumentError TomlTable :=
  upsertConfigStrings "identity"
    [("org_id", orgId), ("org_root_pk", orgRootPk), ("user_id", userId), ("user_key", userKey)]

/-- `write_roster_url` -/
def writeRosterUrl (url : String) : TomlTable → Except DocumentError TomlTable :=
  upsertConfigStrings "roster" [("url", url)]

/-- `write_identity_nickname` -/
def writeIdentityNickname (nickname : String) : TomlTable → Except DocumentError TomlTable :=
  upsertConfigStrings "identity" [("nickname", nickname)]

/-- `write_relays` -/
def writeRelays (urls : List String) (doc : TomlTable) : Except DocumentError TomlTable :=
  match subtable doc "network" with
  | none => .error (.notTable "network")
  | some network =>
      let network := put "relay_mode" (.leaf (.string "custom")) network
      .ok (put "network" (.table (put "relay_urls" (stringArray urls) network)) doc)

/-- `remove_service_from_config`; `none` is `Ok(false)`. -/
def removeService (name : String) (doc : TomlTable) : Option TomlTable :=
  match rowOf "services" doc with
  | some (.table services) =>
      if rowOf name services = none then none
      else some (put "services" (.table (eraseRow name services)) doc)
  | _ => none

/-- The backend of a new entry. -/
def backendRows : BackendSpec → TomlTable
  | .run cmd env cwd =>
      let entry := put "run" (stringArray cmd) []
      let entry := match cwd with
        | some cwd => put "cwd" (.leaf (.string cwd)) entry
        | none => entry
      if env.isEmpty then entry
      else
        put "env" (.table (env.foldl (fun t kv => put kv.1 (.leaf (.string kv.2)) t) [])) entry
  | .socket path => put "socket" (.leaf (.string path)) []

/-- The entry that a registration writes over the one on disk. -/
def serviceEntry (backend : BackendSpec) (allow : List String) (rate : Option Nat)
    (existing : Option Toml) : Toml :=
  let merged := mergedAllow allow (strings ((existing.bind allowArray).getD []))
  let entry := put "allow" (stringArray merged) (backendRows backend)
  match (rate.map Int.ofNat).or (existing.bind rateLimit) with
  | some rate => .table (put "rate_limit_per_min" (.leaf (.integer rate)) entry)
  | none => .table entry

/-- `write_service_to_config` -/
def writeService (name : String) (backend : BackendSpec) (allow : List String) (rate : Option Nat)
    (doc : TomlTable) : Except DocumentError TomlTable :=
  match subtable doc "services" with
  | none => .error (.notTable "services")
  | some services =>
      let entry := serviceEntry backend allow rate (rowOf name services)
      .ok (put "services" (.table (put name entry services)) doc)

/-- The append to one service; one that is not there is skipped. -/
def appendOne (principal : String) (acc : TomlTable × Bool) (service : String) :
    Except DocumentError (TomlTable × Bool) :=
  let push (entry : TomlTable) (elements : List TomlElement) : TomlTable × Bool :=
    if .string principal ∈ elements then acc
    else
      let allow : Toml := .leaf (.array (elements ++ [.string principal]))
      (put service (.table (put "allow" allow entry)) acc.1, true)
  match rowOf service acc.1 with
  | none => .ok acc
  | some (.leaf _) => .error (.notTable ("services." ++ service))
  | some (.table entry) =>
      match rowOf "allow" entry with
      | none => .ok (push entry [])
      | some (.leaf (.array elements)) => .ok (push entry elements)
      | some _ => .error (.notArray ("[services." ++ service ++ "].allow"))

/-- `append_allow_to_config` -/
def appendAllow (principal : String) (services : List String) (doc : TomlTable) :
    Except DocumentError (Option TomlTable) :=
  match rowOf "services" doc with
  | some (.table entries) => do
      let (entries, changed) ← services.foldlM (appendOne principal) (entries, false)
      pure (if changed then some (put "services" (.table entries) doc) else none)
  | _ => .ok none

/-- What `allow.retain(..)` keeps; what is no string stays. -/
def retained (principals : List String) (elements : List TomlElement) : List TomlElement :=
  elements.filter fun
    | .string s => s ∉ principals
    | .other _ => true

/-- An entry without the principals, where it lists one. -/
def strip (principals : List String) (entry : Toml) : Option Toml :=
  match entry with
  | .table svc =>
      match rowOf "allow" svc with
      | some (.leaf (.array elements)) =>
          if (retained principals elements).length = elements.length then none
          else some (.table (put "allow" (.leaf (.array (retained principals elements))) svc))
      | _ => none
  | .leaf _ => none

/-- `remove_principal_from_service` -/
def removePrincipal (service principal : String) (doc : TomlTable) : Option TomlTable :=
  match rowOf "services" doc with
  | some (.table services) =>
      ((rowOf service services).bind (strip [principal])).map fun entry =>
        put "services" (.table (put service entry services)) doc
  | _ => none

/-- `remove_allow_from_config` -/
def removeAllow (principals : List String) (doc : TomlTable) : Option TomlTable :=
  match rowOf "services" doc with
  | some (.table services) =>
      if services.any fun e => (strip principals e.2).isSome then
        let stripped := mapRows (fun entry => (strip principals entry).getD entry) services
        some (put "services" (.table stripped) doc)
      else none
  | _ => none

/-! ## the file -/

/-- The writers of identity, roster and relays. -/
inductive PinWrite where
  | identityPin (orgRootPk orgId : String)
  | userId (userId : String)
  | joinPin (orgId orgRootPk userId userKey : String)
  | rosterUrl (url : String)
  | nickname (nickname : String)
  | relays (urls : List String)

def PinWrite.write : PinWrite → TomlTable → Except DocumentError TomlTable
  | .identityPin orgRootPk orgId => writeIdentityPin orgRootPk orgId
  | .userId id => writeIdentityUserId id
  | .joinPin orgId orgRootPk id userKey => writeJoinPin orgId orgRootPk id userKey
  | .rosterUrl url => writeRosterUrl url
  | .nickname name => writeIdentityNickname name
  | .relays urls => writeRelays urls

inductive ConfigCall where
  | writeService (name : String) (backend : BackendSpec) (allow : List String)
      (rate : Option Nat)
  | appendAllow (principal : String) (services : List String)
  | removePrincipal (service principal : String)
  | removeAllow (principals : List String)
  | removeService (name : String)
  | pin (w : PinWrite)

/-- What a writer makes of a document; `none` is `Ok(false)`. -/
def ConfigCall.edit : ConfigCall → TomlTable → Except DocumentError (Option TomlTable)
  | .writeService name backend allow rate, doc =>
      (ConfigDocument.writeService name backend allow rate doc).map some
  | .appendAllow principal services, doc => ConfigDocument.appendAllow principal services doc
  | .removePrincipal service principal, doc =>
      .ok (ConfigDocument.removePrincipal service principal doc)
  | .removeAllow principals, doc => .ok (ConfigDocument.removeAllow principals doc)
  | .removeService name, doc => .ok (ConfigDocument.removeService name doc)
  | .pin w, doc => (w.write doc).map some

/-- What the file system does to a call. -/
inductive FileFault where
  | none
  | read
  | write
  deriving DecidableEq

inductive ConfigReply where
  /-- `Ok(())`, and `Ok(true)` of the writers that answer whether they changed it -/
  | written
  /-- `Ok(false)` -/
  | unchanged
  | unreadable
  | bailed (e : DocumentError)
  | unwritable
  deriving DecidableEq

/-- One call of a writer on the file; one that does not exist is read as empty. -/
def callConfig (file : Option TomlTable) (call : ConfigCall × FileFault) :
    Option TomlTable × ConfigReply :=
  if call.2 = .read then (file, .unreadable)
  else
    match call.1.edit (file.getD []) with
    | .error e => (file, .bailed e)
    | .ok none => (file, .unchanged)
    | .ok (some doc) => if call.2 = .write then (file, .unwritable) else (some doc, .written)

end ConfigDocument

end Mcpmesh
