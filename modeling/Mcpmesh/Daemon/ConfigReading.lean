import Mcpmesh.Daemon.ConfigGrants
import Mcpmesh.Daemon.Services
import Mcpmesh.Lib.Represents

/-!
# Mcpmesh.Daemon.ConfigReading

The service tables that `config.toml` is read as.

The verbs know the file by its `[services.*]` tables (`ConfigFile`), the writers
edit the document.  What an edit makes of the tables is what its writer makes of
the document, its refusals included (`edit_alike`), so the two stay in step over
any calls (`calls_read`), and a service has the same allow list in both
(`allowed_eq`).
-/

namespace Mcpmesh

open Lib

/-! ## a document and its tables -/

/-- `as_str` -/
def TomlElement.asStr : TomlElement → Option String
  | .string s => some s
  | .other _ => none

def ServiceEntry.rate : ServiceEntry → Option Nat
  | .table t => t.rateLimitPerMin
  | .malformed => none

namespace ConfigDocument

def allowValue : Option Toml → AllowValue
  | none => .absent
  | some (.leaf (.array elements)) => .array (elements.map TomlElement.asStr)
  | some _ => .malformed

def envRows (env : List (String × String)) : TomlTable :=
  env.foldl (fun t kv => put kv.1 (.leaf (.string kv.2)) t) []

/-- The table under `env`, in any order of its rows. -/
def ReadsEnv (env : List (String × String)) : Option Toml → Prop
  | none => env = []
  | some (.table rows) => ∀ key, rowOf key rows = rowOf key (envRows env)
  | some (.leaf _) => False

structure ReadsTable (svc : TomlTable) (t : ServiceTable) : Prop where
  run : rowOf "run" svc = t.run.map stringArray
  socket : rowOf "socket" svc = t.socket.map fun path => .leaf (.string path)
  env : ReadsEnv t.env (rowOf "env" svc)
  cwd : rowOf "cwd" svc = t.cwd.map fun cwd => .leaf (.string cwd)
  allow : allowValue (rowOf "allow" svc) = t.allow
  rate : rowOf "rate_limit_per_min" svc = t.rateLimitPerMin.map fun rate => .leaf (.integer rate)

def ReadsEntry : Toml → ServiceEntry → Prop
  | .table svc, .table t => ReadsTable svc t
  | .leaf _, .malformed => True
  | _, _ => False

abbrev ReadsEntries (rows : TomlTable) (entries : ServiceEntries) : Prop :=
  Represents (fun a b => decide (a < b)) ReadsEntry rows entries

def ReadsServices : Option Toml → ServicesValue → Prop
  | none, .absent => True
  | some (.leaf _), .malformed => True
  | some (.table rows), .table entries => ReadsEntries rows entries
  | _, _ => False

/-- The document is read as the tables. -/
def Reads (doc : TomlTable) (file : ConfigFile) : Prop :=
  ReadsServices (rowOf "services" doc) file.services

/-- What the document's writer bails with, where the tables' does. -/
def bails : DocumentError → ConfigError → Prop
  | .notTable table, .servicesNotTable => table = "services"
  | .notTable table, .serviceNotTable service => table = "services." ++ service
  | .notArray array, .allowNotArray service => array = "[services." ++ service ++ "].allow"
  | _, _ => False

/-- The verbs' edit that a call is; the pins are none. -/
def ConfigCall.configEdit : ConfigCall → Option ConfigEdit
  | .writeService name backend allow rate => some (.writeService name backend allow rate)
  | .appendAllow principal services => some (.appendAllow principal services)
  | .removePrincipal service principal => some (.removePrincipal service principal)
  | .removeAllow principals => some (.removeAllow principals)
  | .removeService name => some (.removeService name)
  | .pin _ => none

/-! ## entries -/

section Entries

variable {svc rows : TomlTable} {t : ServiceTable} {entry : Toml} {e : ServiceEntry}
  {principals : List String} {principal : String} {elements : List TomlElement}

/-- A table with another list is read with this list. -/
theorem ReadsTable.putAllow (h : ReadsTable svc t) (elements : List TomlElement) :
    ReadsTable (put "allow" (.leaf (.array elements)) svc)
      { t with allow := .array (elements.map TomlElement.asStr) } where
  run := (rowOf_put_of_ne (by decide)).trans h.run
  socket := (rowOf_put_of_ne (by decide)).trans h.socket
  env := by
    rw [rowOf_put_of_ne (by decide)]
    exact h.env
  cwd := (rowOf_put_of_ne (by decide)).trans h.cwd
  allow := by
    rw [rowOf_put_self]
    rfl
  rate := (rowOf_put_of_ne (by decide)).trans h.rate

/-- A table with another rate is read with this rate. -/
theorem ReadsTable.putRate (h : ReadsTable svc t) (rate : Nat) :
    ReadsTable (put "rate_limit_per_min" (.leaf (.integer rate)) svc)
      { t with rateLimitPerMin := some rate } where
  run := (rowOf_put_of_ne (by decide)).trans h.run
  socket := (rowOf_put_of_ne (by decide)).trans h.socket
  env := by
    rw [rowOf_put_of_ne (by decide)]
    exact h.env
  cwd := (rowOf_put_of_ne (by decide)).trans h.cwd
  allow := by
    rw [rowOf_put_of_ne (by decide)]
    exact h.allow
  rate := rowOf_put_self

/-- The strings of an array, read either way. -/
theorem filterMap_asStr : (elements.map TomlElement.asStr).filterMap id = strings elements := by
  rw [List.filterMap_map]
  rfl

/-- A string is in an array, read either way. -/
theorem some_mem_asStr : some principal ∈ elements.map TomlElement.asStr ↔
    .string principal ∈ elements := by
  rw [← mem_strings, ← filterMap_asStr, List.mem_filterMap]
  simp

/-- What is retained, read either way. -/
theorem asStr_retained : (retained principals elements).map TomlElement.asStr =
    kept principals (elements.map TomlElement.asStr) := by
  rw [retained, kept, List.filter_map]
  refine congrArg (List.map _) (List.filter_congr fun element _ => ?_)
  cases element with
  | string s => simp [TomlElement.asStr]
  | other _ => rfl

/-- An entry is read with its grants. -/
theorem grants_eq_listed (h : ReadsEntry entry e) : grants (some entry) = e.listed := by
  cases entry with
  | leaf _ =>
      cases e with
      | malformed => rfl
      | table t => exact h.elim
  | table svc =>
      cases e with
      | malformed => exact h.elim
      | table t =>
          rw [ServiceEntry.listed, ← h.allow, grants, Option.bind_some, allowArray]
          cases hallow : rowOf "allow" svc with
          | none => rfl
          | some value =>
              cases value with
              | table _ => rfl
              | leaf leaf =>
                  cases leaf with
                  | array elements => exact filterMap_asStr.symm
                  | _ => rfl

/-- An entry is read with its rate. -/
theorem rateLimit_eq (h : ReadsTable svc t) :
    rateLimit (.table svc) = t.rateLimitPerMin.map Int.ofNat := by
  rw [rateLimit, h.rate]
  cases t.rateLimitPerMin <;> rfl

/-- A strip of an entry is read as a strip. -/
theorem strip_reads (h : ReadsEntry entry e) :
    Option.Rel ReadsEntry (strip principals entry) (e.strip principals) := by
  cases entry with
  | leaf _ =>
      cases e with
      | malformed => exact .none
      | table t => exact h.elim
  | table svc =>
      cases e with
      | malformed => exact h.elim
      | table t =>
          rw [strip, ServiceEntry.strip, ← h.allow]
          cases hallow : rowOf "allow" svc with
          | none => exact .none
          | some value =>
              cases value with
              | table _ => exact .none
              | leaf leaf =>
                  cases leaf with
                  | array elements =>
                      have hlength : (kept principals (elements.map TomlElement.asStr)).length =
                          (retained principals elements).length := by
                        rw [← asStr_retained, List.length_map]
                      simp only [allowValue, hlength, List.length_map]
                      split
                      · exact .none
                      · rw [← asStr_retained]
                        exact .some (h.putAllow _)
                  | _ => exact .none

/-- A strip that may change nothing, too. -/
theorem strip_getD_reads (h : ReadsEntry entry e) :
    ReadsEntry ((strip principals entry).getD entry) ((e.strip principals).getD e) :=
  rel_getD (strip_reads h) h

/-- The rows of a backend are read as its fields. -/
theorem backendRows_reads (backend : BackendSpec) :
    ReadsTable (backendRows backend) (backend.table .absent none) := by
  cases backend with
  | socket path => constructor <;> rfl
  | run cmd env cwd =>
      by_cases henv : env = []
      · subst henv
        cases cwd <;> constructor <;>
          simp [BackendSpec.table, backendRows, rowOf_put, allowValue, ReadsEnv]
      · have henvRows : ∀ key, rowOf key (env.foldl (fun t kv => put kv.1 (.leaf (.string kv.2)) t)
            []) = rowOf key (envRows env) := fun _ => rfl
        cases cwd <;> constructor <;>
          simp [BackendSpec.table, backendRows, rowOf_put, allowValue, ReadsEnv, henv, henvRows]

/-- The rate that an entry hands on. -/
theorem rateLimit_reads {existing : Option Toml} {existing' : Option ServiceEntry}
    (h : Option.Rel ReadsEntry existing existing') :
    existing.bind rateLimit = (existing'.bind ServiceEntry.rate).map Int.ofNat := by
  cases h with
  | none => rfl
  | @some entry e h =>
      cases entry with
      | leaf _ =>
          cases e with
          | malformed => rfl
          | table t => exact h.elim
      | table svc =>
          cases e with
          | malformed => exact h.elim
          | table t => exact rateLimit_eq h

/-- A registration writes what is read as its table. -/
theorem serviceEntry_reads {existing : Option Toml} {existing' : Option ServiceEntry}
    (h : Option.Rel ReadsEntry existing existing') (backend : BackendSpec) (allow : List String)
    (rate : Option Nat) :
    ReadsEntry (serviceEntry backend allow rate existing)
      (.table (backend.table
        (.array ((mergedAllow allow ((existing'.map ServiceEntry.listed).getD [])).map some))
        (rate.or (existing'.bind ServiceEntry.rate)))) := by
  have hgrants : strings ((existing.bind allowArray).getD []) =
      (existing'.map ServiceEntry.listed).getD [] := by
    cases h with
    | none => rfl
    | some h => exact grants_eq_listed h
  have hallow : ∀ list : List String, ReadsTable (put "allow" (stringArray list)
      (backendRows backend)) (backend.table (.array (list.map some)) none) := by
    intro list
    have hput := (backendRows_reads backend).putAllow (list.map .string)
    rw [List.map_map] at hput
    cases backend <;> exact hput
  rw [serviceEntry, hgrants, rateLimit_reads h, ← Option.map_or]
  generalize mergedAllow allow ((existing'.map ServiceEntry.listed).getD []) = merged
  cases rate.or (existing'.bind ServiceEntry.rate) with
  | none => exact hallow merged
  | some rate =>
      have hput := (hallow merged).putRate rate
      cases backend <;> exact hput

end Entries

/-! ## the edits -/

section Edits

variable {rows doc doc' : TomlTable} {entries : ServiceEntries} {file : ConfigFile}
  {principal : String} {changed : Bool}

/-- A put of an entry is read as an insert. -/
theorem ReadsEntries.put {name : String} {entry : Toml} {e : ServiceEntry}
    (h : ReadsEntries rows entries) (hentry : ReadsEntry entry e) :
    ReadsEntries (ConfigDocument.put name entry rows) (entries.insert name e) :=
  Represents.upsert
    (fun a b c hab hbc => by simpa using (of_decide_eq_true hab).trans (of_decide_eq_true hbc))
    (fun a b hne hab => by
      simpa using lt_of_le_of_ne (not_lt.mp (of_decide_eq_false hab)) (Ne.symm hne))
    h hentry

/-- The services that a writer puts back are the ones that are read. -/
theorem reads_put (h : ReadsEntries rows entries) :
    Reads (put "services" (.table rows) doc) ⟨.table entries⟩ := by
  rw [Reads, rowOf_put_self]
  exact h

/-- What an append has made so far. -/
def ReadsAppend (acc : TomlTable × Bool) (acc' : ServiceEntries × Bool) : Prop :=
  ReadsEntries acc.1 acc'.1 ∧ acc.2 = acc'.2

/-- An append is read as an append. -/
theorem push_reads {svc : TomlTable} {t : ServiceTable} (h : ReadsEntries rows entries)
    (hentry : ReadsTable svc t) (service : String) (elements : List TomlElement) :
    ReadsAppend
      (if .string principal ∈ elements then (rows, changed)
        else
          (ConfigDocument.put service (.table (ConfigDocument.put "allow"
            (.leaf (.array (elements ++ [.string principal]))) svc)) rows, true))
      (if some principal ∈ elements.map TomlElement.asStr then (entries, changed)
        else
          (entries.insert service (.table { t with
            allow := .array (elements.map TomlElement.asStr ++ [some principal]) }), true)) := by
  rw [ite_congr (propext some_mem_asStr) (fun _ => rfl) fun _ => rfl]
  split
  · exact ⟨h, rfl⟩
  · have hput := hentry.putAllow (elements ++ [.string principal])
    rw [List.map_append] at hput
    exact ⟨h.put hput, rfl⟩

/-- One append succeeds with what is read as an append, or fails with it. -/
theorem appendOne_alike (h : ReadsEntries rows entries) (service : String) :
    Alike bails ReadsAppend (appendOne principal (rows, changed) service)
      (Mcpmesh.appendAllow principal (entries, changed) service) := by
  rw [appendOne, Mcpmesh.appendAllow]
  cases hrow : rowOf service rows with
  | none =>
      simp only [h.lookup_none hrow]
      exact .ok ⟨h, rfl⟩
  | some entry =>
      obtain ⟨e, hlookup, hentry⟩ := h.lookup_some hrow
      simp only [hlookup]
      cases entry with
      | leaf _ =>
          cases e with
          | malformed => exact .error rfl
          | table t => exact hentry.elim
      | table svc =>
          cases e with
          | malformed => exact hentry.elim
          | table t =>
              simp only [← ReadsTable.allow hentry]
              cases hallow : rowOf "allow" svc with
              | none => exact .ok (push_reads h hentry service [])
              | some value =>
                  cases value with
                  | table _ => exact .error rfl
                  | leaf leaf =>
                      cases leaf with
                      | array elements => exact .ok (push_reads h hentry service elements)
                      | _ => exact .error rfl

/-- The services are absent, no table, or a table that is read as one. -/
theorem reads_cases (h : Reads doc file) :
    (rowOf "services" doc = none ∧ file.services = .absent) ∨
      (∃ a, rowOf "services" doc = some (.leaf a) ∧ file.services = .malformed) ∨
      ∃ rows entries, rowOf "services" doc = some (.table rows) ∧
        file.services = .table entries ∧ ReadsEntries rows entries := by
  rw [Reads] at h
  cases hrow : rowOf "services" doc with
  | none =>
      cases hservices : file.services with
      | absent => exact .inl ⟨rfl, rfl⟩
      | _ => rw [hrow, hservices] at h; exact h.elim
  | some value =>
      cases value with
      | leaf a =>
          cases hservices : file.services with
          | malformed => exact .inr (.inl ⟨a, rfl, rfl⟩)
          | _ => rw [hrow, hservices] at h; exact h.elim
      | table rows =>
          cases hservices : file.services with
          | table entries =>
              rw [hrow, hservices] at h
              exact .inr (.inr ⟨rows, entries, rfl, rfl, h⟩)
          | _ => rw [hrow, hservices] at h; exact h.elim

/-- A registration, read. -/
theorem writeService_alike (h : Reads doc file) (name : String) (backend : BackendSpec)
    (allow : List String) (rate : Option Nat) :
    Alike bails Reads (writeService name backend allow rate doc)
      (writeServiceToConfig name backend allow rate file) := by
  have hwrite : ∀ rows entries, ReadsEntries rows entries →
      Reads (ConfigDocument.put "services" (.table (ConfigDocument.put name
        (serviceEntry backend allow rate (rowOf name rows)) rows)) doc)
        ⟨.table (entries.insert name (.table (backend.table
          (.array ((mergedAllow allow
            (((entries.lookup name).map ServiceEntry.listed).getD [])).map some))
          (rate.or ((entries.lookup name).bind ServiceEntry.rate)))))⟩ :=
    fun rows entries hentries =>
      reads_put (hentries.put (serviceEntry_reads (hentries.values name) backend allow rate))
  rw [writeService, writeServiceToConfig, subtable]
  rcases reads_cases h with ⟨hrow, hservices⟩ | ⟨_, hrow, hservices⟩ |
    ⟨rows, entries, hrow, hservices, hentries⟩ <;> rw [hrow, hservices]
  · exact .ok (hwrite [] ∅ .nil)
  · exact .error rfl
  · exact .ok (hwrite rows entries hentries)

/-- A removal of a service, read. -/
theorem removeService_reads (h : Reads doc file) (name : String) :
    Option.Rel Reads (removeService name doc) (removeServiceFromConfig name file) := by
  rw [removeService, removeServiceFromConfig]
  rcases reads_cases h with ⟨hrow, hservices⟩ | ⟨_, hrow, hservices⟩ |
    ⟨rows, entries, hrow, hservices, hentries⟩ <;> rw [hrow, hservices]
  · exact .none
  · exact .none
  · cases hname : rowOf name rows with
    | none =>
        have hnone : name ∉ entries := AList.lookup_eq_none.mp (hentries.lookup_none hname)
        simp only [hname, hnone, if_true, if_false]
        exact .none
    | some entry =>
        obtain ⟨e, hlookup, -⟩ := hentries.lookup_some hname
        have hsome : name ∈ entries := AList.lookup_isSome.mp (by rw [hlookup]; rfl)
        simp only [hname, hsome, reduceCtorEq, if_true, if_false]
        exact .some (reads_put hentries.erase)

/-- A revoke of one principal, read. -/
theorem removePrincipal_reads (h : Reads doc file) (service principal : String) :
    Option.Rel Reads (removePrincipal service principal doc)
      (removePrincipalFromService service principal file) := by
  rw [removePrincipal, removePrincipalFromService]
  rcases reads_cases h with ⟨hrow, hservices⟩ | ⟨_, hrow, hservices⟩ |
    ⟨rows, entries, hrow, hservices, hentries⟩ <;> rw [hrow, hservices]
  · exact .none
  · exact .none
  · cases hservice : rowOf service rows with
    | none =>
        simp only [hservice, hentries.lookup_none hservice]
        exact .none
    | some entry =>
        obtain ⟨e, hlookup, hentry⟩ := hentries.lookup_some hservice
        simp only [hservice, hlookup, Option.bind_some]
        have hstrip := @strip_reads entry e [principal] hentry
        generalize strip [principal] entry = stripped, e.strip [principal] = stripped' at hstrip
        cases hstrip with
        | none => exact .none
        | some hstrip => exact .some (reads_put (hentries.put hstrip))

/-- A revoke of principals, read. -/
theorem removeAllow_reads (h : Reads doc file) (principals : List String) :
    Option.Rel Reads (removeAllow principals doc) (removeAllowFromConfig principals file) := by
  rw [removeAllow, removeAllowFromConfig]
  rcases reads_cases h with ⟨hrow, hservices⟩ | ⟨_, hrow, hservices⟩ |
    ⟨rows, entries, hrow, hservices, hentries⟩ <;> rw [hrow, hservices]
  · exact .none
  · exact .none
  · have hlists : (rows.any fun e => (strip principals e.2).isSome) =
        entries.entries.any fun e => (e.2.strip principals).isSome := by
      refine hentries.any_eq (fun entry => (strip principals entry).isSome)
        (fun e => (e.strip principals).isSome) (fun a => by simp) fun entry e hentry => ?_
      have hstrip := @strip_reads entry e principals hentry
      generalize strip principals entry = stripped, e.strip principals = stripped' at hstrip
      cases hstrip <;> rfl
    simp only [hlists]
    split
    · exact .some (reads_put (hentries.map fun entry e hentry => strip_getD_reads hentry))
    · exact .none

/-- A grant, read. -/
theorem appendAllow_alike (h : Reads doc file) (principal : String) (services : List String) :
    Alike bails (Option.Rel Reads) (appendAllow principal services doc)
      (appendAllowToConfig principal services file) := by
  rw [appendAllow, appendAllowToConfig]
  rcases reads_cases h with ⟨hrow, hservices⟩ | ⟨_, hrow, hservices⟩ |
    ⟨rows, entries, hrow, hservices, hentries⟩ <;> rw [hrow, hservices]
  · exact .ok .none
  · exact .ok .none
  · have hone : ∀ acc acc' service, ReadsAppend acc acc' →
        Alike bails ReadsAppend (appendOne principal acc service)
          (Mcpmesh.appendAllow principal acc' service) := by
      rintro ⟨acc, changed⟩ ⟨acc', changed'⟩ service ⟨hacc, hchanged⟩
      obtain rfl : changed = changed' := hchanged
      exact appendOne_alike hacc service
    have hfold : Alike bails ReadsAppend (services.foldlM (appendOne principal) (rows, false))
        (services.foldlM (Mcpmesh.appendAllow principal) (entries, false)) :=
      Alike.foldlM services ⟨hentries, rfl⟩ hone
    refine hfold.bind ?_
    rintro ⟨acc, changed⟩ ⟨acc', changed'⟩ ⟨hacc, hchanged⟩
    obtain rfl : changed = changed' := hchanged
    simp only
    split
    · exact .ok (.some (reads_put hacc))
    · exact .ok .none

/-- **The writers edit what the verbs read**: the edits of the document and of its
tables succeed alike, fail alike and find nothing to do alike. -/
theorem edit_alike {call : ConfigCall} {edit : ConfigEdit} (h : Reads doc file)
    (hedit : call.configEdit = some edit) :
    Alike bails (Option.Rel Reads) (call.edit doc) (edit.run file) := by
  cases call with
  | writeService name backend allow rate =>
      obtain rfl := Option.some.inj hedit
      exact (writeService_alike h name backend allow rate).map fun _ _ h => .some h
  | appendAllow principal services =>
      obtain rfl := Option.some.inj hedit
      exact appendAllow_alike h principal services
  | removePrincipal service principal =>
      obtain rfl := Option.some.inj hedit
      exact .ok (removePrincipal_reads h service principal)
  | removeAllow principals =>
      obtain rfl := Option.some.inj hedit
      exact .ok (removeAllow_reads h principals)
  | removeService name =>
      obtain rfl := Option.some.inj hedit
      exact .ok (removeService_reads h name)
  | pin w => contradiction

/-- A pin does not touch what is read. -/
theorem pin_reads {w : PinWrite} (h : Reads doc file) (hwrite : w.write doc = .ok doc') :
    Reads doc' file := by
  obtain ⟨⟨table, htable, entry, rfl⟩, -⟩ := write_ok hwrite
  rwa [Reads, rowOf_put_of_ne (Ne.symm htable)]

/-- A service has the allow list in the document that the verbs read. -/
theorem allowed_eq (h : Reads doc file) (service : String) :
    allowed doc service = file.allow service := by
  rw [allowed, entryOf, servicesTable, ConfigFile.allow]
  rcases reads_cases h with ⟨hrow, hservices⟩ | ⟨_, hrow, hservices⟩ |
    ⟨rows, entries, hrow, hservices, hentries⟩ <;> rw [hrow, hservices]
  · rfl
  · rfl
  · simp only [ServicesValue.entries]
    cases hservice : rowOf service rows with
    | none =>
        rw [hentries.lookup_none hservice]
        rfl
    | some entry =>
        obtain ⟨e, hlookup, hentry⟩ := hentries.lookup_some hservice
        rw [hlookup]
        exact grants_eq_listed hentry

end Edits

/-! ## calls -/

/-- What a call makes of the tables on disk. -/
def reread (file : ConfigFile) (call : ConfigCall × FileFault) : ConfigFile :=
  match call.1.configEdit with
  | none => file
  | some edit => if call.2 = .read then file else (edit.write (call.2 ≠ .write) file file).1

/-- A call on the document is read as the edit of the file. -/
theorem callConfig_reads {disk : Option TomlTable} {file : ConfigFile}
    (h : Reads (disk.getD []) file) (call : ConfigCall × FileFault) :
    Reads ((callConfig disk call).1.getD []) (reread file call) := by
  obtain ⟨call, fault⟩ := call
  rw [callConfig, reread]
  by_cases hread : fault = .read
  · simp only [hread, if_true]
    split <;> exact h
  · simp only [hread, if_false]
    cases hedit : call.configEdit with
    | none =>
        obtain ⟨w, rfl⟩ : ∃ w, call = .pin w := by
          cases call with
          | pin w => exact ⟨w, rfl⟩
          | _ => contradiction
        rw [ConfigCall.edit]
        cases hwrite : w.write (disk.getD []) with
        | error e => exact h
        | ok doc =>
            by_cases hfault : fault = .write
            · simpa only [Except.map, hfault, if_true] using h
            · simp only [Except.map, hfault, if_false]
              exact pin_reads h hwrite
    | some edit =>
        have halike := edit_alike h hedit
        simp only [ConfigEdit.write]
        generalize call.edit (disk.getD []) = x, edit.run file = y at halike
        cases halike with
        | error _ => exact h
        | ok hrel =>
            cases hrel with
            | none => exact h
            | some hreads =>
                by_cases hfault : fault = .write
                · simpa [hfault] using h
                · simpa [hfault] using hreads

/-- The document and the tables stay in step over any calls. -/
theorem calls_read {disk : Option TomlTable} {file : ConfigFile} (h : Reads (disk.getD []) file)
    (calls : List (ConfigCall × FileFault)) :
    Reads ((final callConfig disk calls).getD []) (calls.foldl reread file) := by
  induction calls generalizing disk file with
  | nil => exact h
  | cons call calls ih => exact ih (callConfig_reads h call)

/-- A file that only the writers wrote is read. -/
theorem written_reads (calls : List (ConfigCall × FileFault)) :
    Reads ((final callConfig none calls).getD []) (calls.foldl reread ⟨.absent⟩) := by
  have hnothing : Reads ((none : Option TomlTable).getD []) ⟨.absent⟩ := trivial
  exact calls_read hnothing calls

end ConfigDocument

end Mcpmesh
