import Mcpmesh.Daemon.ConfigDocument

/-!
# Mcpmesh.Daemon.ConfigGrants

The allow lists of `config.toml` under its writers.

What a writer makes of the list of one service is a function of the call and of
that list (`ConfigCall.regrant`), and where it edits the document is a set of
paths (`ConfigCall.named`).  Over any run of calls the lists are a map of sets
that holds the last word of the grants and the revocations
(`config_writers_refine`).
-/

namespace Mcpmesh

open Lib

namespace ConfigDocument

/-! ## what a document grants -/

def servicesTable (doc : TomlTable) : TomlTable :=
  match rowOf "services" doc with
  | some (.table services) => services
  | _ => []

def entryOf (doc : TomlTable) (service : String) : Option Toml :=
  rowOf service (servicesTable doc)

def grants (entry : Option Toml) : List String := strings ((entry.bind allowArray).getD [])

/-- The allow list of a service. -/
def allowed (doc : TomlTable) (service : String) : List String := grants (entryOf doc service)

/-- The persisted rate of a service. -/
def rateOf (doc : TomlTable) (service : String) : Option Int :=
  (entryOf doc service).bind rateLimit

/-- What a call makes of the allow list of a service. -/
def ConfigCall.regrant (service : String) (configured : Bool) (list : List String) :
    ConfigCall → List String
  | .writeService name _ allow _ => if name = service then mergedAllow allow list else list
  | .appendAllow principal services =>
      if service ∈ services ∧ configured ∧ principal ∉ list then list ++ [principal] else list
  | .removePrincipal name principal =>
      if name = service then list.filter (· ≠ principal) else list
  | .removeAllow principals => list.filter (· ∉ principals)
  | .removeService name => if name = service then [] else list
  | .pin _ => list

/-- An entry that the append can write to. -/
def Listable (entry : Toml) : Prop :=
  ∃ svc, entry = .table svc ∧
    (rowOf "allow" svc = none ∨ ∃ elements, rowOf "allow" svc = some (.leaf (.array elements)))

def PinWrite.table : PinWrite → String
  | .identityPin _ _ | .userId _ | .joinPin _ _ _ _ | .nickname _ => "identity"
  | .rosterUrl _ => "roster"
  | .relays _ => "network"

/-- Where a writer needs a table or an array, the document has it. -/
def ConfigCall.WellShaped (doc : TomlTable) : ConfigCall → Prop
  | .writeService _ _ _ _ => ∃ entries, subtable doc "services" = some entries
  | .appendAllow _ services =>
      ∀ s ∈ services, ∀ entry, entryOf doc s = some entry → Listable entry
  | .pin w => ∃ entries, subtable doc w.table = some entries
  | .removePrincipal _ _ | .removeAllow _ | .removeService _ => True

/-- A writer has something to do: a registration and a pin always, the others where
they change a list. -/
def ConfigCall.Applies (doc : TomlTable) : ConfigCall → Prop
  | .writeService _ _ _ _ | .pin _ => True
  | .appendAllow principal services =>
      ∃ s ∈ services, (entryOf doc s).isSome ∧ principal ∉ allowed doc s
  | .removePrincipal service principal => principal ∈ allowed doc service
  | .removeAllow principals =>
      ∃ e ∈ servicesTable doc, ∃ p ∈ principals, p ∈ grants (some e.2)
  | .removeService name => (entryOf doc name).isSome

/-- The key paths that a call is about. -/
def ConfigCall.named : ConfigCall → Set (List String)
  | .writeService name _ _ _ => {["services", name]}
  | .appendAllow _ services => {path | ∃ s ∈ services, path = ["services", s, "allow"]}
  | .removePrincipal service _ => {["services", service, "allow"]}
  | .removeAllow _ => {path | ∃ s, path = ["services", s, "allow"]}
  | .removeService name => {["services", name]}
  | .pin (.identityPin _ _) => {["identity", "org_root_pk"], ["identity", "org_id"]}
  | .pin (.userId _) => {["identity", "user_id"]}
  | .pin (.joinPin _ _ _ _) =>
      {["identity", "org_id"], ["identity", "org_root_pk"], ["identity", "user_id"],
        ["identity", "user_key"]}
  | .pin (.rosterUrl _) => {["roster", "url"]}
  | .pin (.nickname _) => {["identity", "nickname"]}
  | .pin (.relays _) => {["network", "relay_mode"], ["network", "relay_urls"]}

/-! ## entries -/

section Entries

variable {key key' : String} {value : Toml} {t : TomlTable} {elements : List TomlElement}
  {entry : Toml} {principals : List String}

/-- A row that was put is there. -/
@[simp] theorem rowOf_put_self : rowOf key (put key value t) = some value :=
  rowOf_upsert_self _ key value t

/-- A put leaves the rows of other keys. -/
theorem rowOf_put_of_ne (h : key' ≠ key) : rowOf key' (put key value t) = rowOf key' t :=
  rowOf_upsert_of_ne _ key value t h

/-- A put, looked up at any key. -/
theorem rowOf_put :
    rowOf key' (put key value t) = if key = key' then some value else rowOf key' t := by
  split
  · next h => rw [h, rowOf_put_self]
  · next h => exact rowOf_put_of_ne (Ne.symm h)

/-- A put changes the document at its key. -/
theorem changesAt_put : Document.ChangesAt {[key]} (.table t) (.table (put key value t)) := by
  have hothers : ∀ k ∉ ({key} : Set String), rowOf k (put key value t) = rowOf k t :=
    fun k hk => rowOf_put_of_ne hk
  simpa using Document.changesAt_rows (Set.singleton_nonempty key) hothers

/-- An entry that is put in the place of one it changes. -/
theorem changesAt_put_within {paths : Set (List String)} (hpaths : paths.Nonempty)
    (hrow : rowOf key t = some entry) (h : Document.ChangesAt paths entry value) :
    Document.ChangesAt ((key :: ·) '' paths) (.table t) (.table (put key value t)) := by
  refine Document.changesAt_key hpaths (fun k hk => rowOf_put_of_ne hk) rowOf_put_self ?_
  rwa [hrow, Option.getD_some]

/-- Strings are read back from the array that lists them. -/
@[simp] theorem strings_map_string (list : List String) :
    strings (list.map .string) = list := by
  simp [strings, List.filterMap_map]

/-- A string that is appended is read back behind the others. -/
@[simp] theorem strings_append_string (p : String) :
    strings (elements ++ [.string p]) = strings elements ++ [p] := by
  simp [strings]

/-- A string is read if the array has it. -/
theorem mem_strings {p : String} : p ∈ strings elements ↔ .string p ∈ elements := by
  rw [strings, List.mem_filterMap]
  constructor
  · rintro ⟨e, he, hp⟩
    cases e with
    | string s => exact Option.some.inj hp ▸ he
    | other _ => contradiction
  · exact fun h => ⟨_, h, rfl⟩

/-- What is retained, read as strings. -/
theorem strings_retained :
    strings (retained principals elements) = (strings elements).filter (· ∉ principals) := by
  induction elements with
  | nil => rfl
  | cons e elements ih =>
      cases e with
      | other _ => exact ih
      | string s =>
          rw [retained, List.filter_cons]
          by_cases h : s ∈ principals
          · simpa [strings, retained, h] using ih
          · simpa [strings, retained, h] using ih

/-- Stripping an entry changes its array. -/
theorem changesAt_strip :
    Document.ChangesAt {["allow"]} entry ((strip principals entry).getD entry) := by
  cases entry with
  | leaf _ => exact Document.ChangesAt.refl _ _
  | table svc =>
      rw [strip]
      split
      · split
        · exact Document.ChangesAt.refl _ _
        · exact changesAt_put
      · exact Document.ChangesAt.refl _ _

/-- An allow list that was put grants its strings. -/
theorem grants_put_allow :
    grants (some (.table (put "allow" (.leaf (.array elements)) t))) = strings elements := by
  simp [grants, allowArray]

/-- An allow list grants its strings. -/
theorem grants_of_array (h : rowOf "allow" t = some (.leaf (.array elements))) :
    grants (some (.table t)) = strings elements := by
  simp [grants, allowArray, h]

/-- What is no list grants nothing. -/
theorem grants_of_no_array (h : ∀ elements, rowOf "allow" t ≠ some (.leaf (.array elements))) :
    grants (some (.table t)) = [] := by
  rw [grants, Option.bind_some, allowArray]
  split
  · next elements hallow => exact absurd hallow (h elements)
  · rfl

/-- Stripping an entry filters its grants. -/
theorem grants_strip :
    grants (some ((strip principals entry).getD entry)) =
      (grants (some entry)).filter (· ∉ principals) := by
  cases entry with
  | leaf _ => rfl
  | table svc =>
      rw [strip]
      split
      · next elements hallow =>
        have hgrants := grants_of_array hallow
        split
        · next hlength =>
          have hall : retained principals elements = elements :=
            List.filter_sublist.eq_of_length hlength
          rw [Option.getD_none, hgrants, ← strings_retained, hall]
        · rw [Option.getD_some, grants_put_allow, hgrants, strings_retained]
      · next hallow =>
        have hgrants := grants_of_no_array hallow
        rw [Option.getD_none, hgrants]
        rfl

/-- An entry is stripped where it grants one of the principals. -/
theorem strip_isSome :
    (strip principals entry).isSome = true ↔ ∃ p ∈ principals, p ∈ grants (some entry) := by
  cases entry with
  | leaf _ => simp [strip, grants, allowArray, strings]
  | table svc =>
      rw [strip]
      split
      · next elements hallow =>
        have hgrants := grants_of_array hallow
        have hkept : (retained principals elements).length = elements.length ↔
            ∀ p ∈ strings elements, p ∉ principals := by
          rw [retained, List.length_filter_eq_length_iff]
          constructor
          · intro hall p hp
            simpa using hall _ (mem_strings.mp hp)
          · intro hnone e he
            cases e with
            | string s => simpa using hnone s (mem_strings.mpr he)
            | other _ => rfl
        rw [hgrants]
        split
        · next hlength =>
          have hnone := hkept.mp hlength
          simpa using fun p hp hgranted => hnone p hgranted hp
        · next hlength =>
          rw [hkept] at hlength
          push Not at hlength
          obtain ⟨p, hgranted, hp⟩ := hlength
          exact ⟨fun _ => ⟨p, hp, hgranted⟩, fun _ => rfl⟩
      · next hallow =>
        have hgrants := grants_of_no_array hallow
        simp [hgrants]

/-- A registration owns the backend and merges the grants. -/
theorem grants_serviceEntry (backend : BackendSpec) (allow : List String) (rate : Option Nat)
    (existing : Option Toml) :
    grants (some (serviceEntry backend allow rate existing)) =
      mergedAllow allow (grants existing) := by
  rw [serviceEntry]
  split
  · simp [grants, allowArray, stringArray, rowOf_put_of_ne]
  · simp [grants, allowArray, stringArray]

/-- No backend writes a rate. -/
theorem rowOf_rate_backendRows (backend : BackendSpec) :
    rowOf "rate_limit_per_min" (backendRows backend) = none := by
  cases backend with
  | socket path => rfl
  | run cmd env cwd =>
      cases cwd <;> rw [backendRows] <;> split <;> simp [rowOf_put_of_ne]

/-- An entry that is written has the rate that is given, or else keeps its own. -/
theorem rateLimit_serviceEntry (backend : BackendSpec) (allow : List String) (rate : Option Nat)
    (existing : Option Toml) :
    rateLimit (serviceEntry backend allow rate existing) =
      (rate.map Int.ofNat).or (existing.bind rateLimit) := by
  rw [serviceEntry]
  split
  · next h => simp [rateLimit, h]
  · next h => simp [rateLimit, h, rowOf_put_of_ne, rowOf_rate_backendRows]

end Entries

/-! ## the append -/

/-- What the append makes of the entries, service by service. -/
structure Appended (principal : String) (services : List String) (t t' : TomlTable) : Prop where
  configured (service : String) : (rowOf service t').isSome = (rowOf service t).isSome
  lists (service : String) : grants (rowOf service t') =
    if service ∈ services ∧ (rowOf service t).isSome ∧ principal ∉ grants (rowOf service t)
    then grants (rowOf service t) ++ [principal] else grants (rowOf service t)
  frame : Document.ChangesAt {path | ∃ s ∈ services, path = [s, "allow"]} (.table t) (.table t')

section Append

variable {principal : String} {services : List String} {service : String}
  {t t₁ t' : TomlTable} {changed changed' : Bool}

/-- Nothing was appended. -/
theorem Appended.refl (principal : String) (t : TomlTable) : Appended principal [] t t where
  configured _ := rfl
  lists _ := by simp
  frame := Document.ChangesAt.refl _ _

/-- One append, and then the others. -/
theorem Appended.cons (h : Appended principal [service] t t₁)
    (h' : Appended principal services t₁ t') : Appended principal (service :: services) t t' where
  configured s := (h'.configured s).trans (h.configured s)
  lists s := by
    have hfirst := h.lists s
    rw [h'.lists, h.configured]
    by_cases hs : s = service
    · by_cases hadd : (rowOf s t).isSome ∧ principal ∉ grants (rowOf s t)
      · rw [if_pos ⟨List.mem_singleton.mpr hs, hadd⟩] at hfirst
        rw [hfirst, if_neg (by simp), if_pos ⟨List.mem_cons.mpr (.inl hs), hadd⟩]
      · rw [if_neg fun h => hadd h.2] at hfirst
        rw [hfirst, if_neg fun h => hadd h.2, if_neg fun h => hadd h.2]
    · rw [if_neg fun h => hs (List.mem_singleton.mp h.1)] at hfirst
      simp only [hfirst, List.mem_cons, or_iff_right hs]
  frame := by
    refine Document.ChangesAt.trans (h.frame.mono ?_) (h'.frame.mono ?_)
    · rintro path ⟨s, hs, rfl⟩
      exact ⟨s, List.mem_cons.mpr (.inl (List.mem_singleton.mp hs)), rfl⟩
    · rintro path ⟨s, hs, rfl⟩
      exact ⟨s, List.mem_cons_of_mem _ hs, rfl⟩

/-- Nothing is appended where there is no entry, or the principal is listed. -/
theorem Appended.skip (h : rowOf service t = none ∨ principal ∈ grants (rowOf service t)) :
    Appended principal [service] t t where
  configured _ := rfl
  lists s := by
    rw [if_neg]
    rintro ⟨hs, hrow, hp⟩
    rw [List.mem_singleton.mp hs] at hrow hp
    rcases h with h | h
    · rw [h] at hrow
      contradiction
    · exact hp h
  frame := Document.ChangesAt.refl _ _

/-- The array with the principal is put in place of one without. -/
theorem Appended.push {entry : TomlTable} {elements : List TomlElement}
    (hrow : rowOf service t = some (.table entry))
    (hgrants : grants (some (.table entry)) = strings elements)
    (hp : .string principal ∉ elements) :
    Appended principal [service] t
      (put service (.table (put "allow" (.leaf (.array (elements ++ [.string principal]))) entry))
        t) where
  configured s := by
    rw [rowOf_put]
    split
    · next h => rw [← h, hrow]; rfl
    · rfl
  lists s := by
    rw [rowOf_put]
    split
    · next h =>
      subst h
      rw [grants_put_allow, strings_append_string, hrow, hgrants, if_pos]
      exact ⟨List.mem_singleton.mpr rfl, rfl, fun h => hp (mem_strings.mp h)⟩
    · next h => rw [if_neg fun hs => h (List.mem_singleton.mp hs.1).symm]
  frame := by
    refine (changesAt_put_within (Set.singleton_nonempty ["allow"]) hrow changesAt_put).mono ?_
    rintro _ ⟨_, rfl, rfl⟩
    exact ⟨service, List.mem_singleton.mpr rfl, rfl⟩

/-- One append adds the principal to its service. -/
theorem appended_of_appendOne
    (h : appendOne principal (t, changed) service = .ok (t', changed')) :
    Appended principal [service] t t' := by
  rw [appendOne] at h
  split at h
  · next hrow =>
    obtain ⟨rfl, -⟩ := Prod.mk.inj (Except.ok.inj h)
    exact .skip (.inl hrow)
  · contradiction
  · next entry hrow =>
    have hpush : ∀ elements, grants (some (.table entry)) = strings elements →
        (if .string principal ∈ elements then (t, changed)
          else (put service (.table (put "allow"
            (.leaf (.array (elements ++ [.string principal]))) entry)) t, true)) = (t', changed') →
        Appended principal [service] t t' := by
      intro elements hgrants heq
      split at heq
      · next hmem =>
        obtain ⟨rfl, -⟩ := Prod.mk.inj heq
        exact .skip (.inr (by rw [hrow, hgrants]; exact mem_strings.mpr hmem))
      · next hmem =>
        obtain ⟨rfl, -⟩ := Prod.mk.inj heq
        exact .push hrow hgrants hmem
    split at h
    · next hallow =>
      exact hpush [] (grants_of_no_array (by simp [hallow])) (Except.ok.inj h)
    · next elements hallow => exact hpush elements (grants_of_array hallow) (Except.ok.inj h)
    · contradiction

/-- One append changes the entries where there is an entry without the principal. -/
theorem changed_of_appendOne
    (h : appendOne principal (t, changed) service = .ok (t', changed')) :
    changed' = true ↔ changed = true ∨
      (rowOf service t).isSome = true ∧ principal ∉ grants (rowOf service t) := by
  rw [appendOne] at h
  split at h
  · next hrow =>
    obtain ⟨-, rfl⟩ := Prod.mk.inj (Except.ok.inj h)
    simp [hrow]
  · contradiction
  · next entry hrow =>
    have hpush : ∀ elements, grants (some (.table entry)) = strings elements →
        (if .string principal ∈ elements then (t, changed)
          else (put service (.table (put "allow"
            (.leaf (.array (elements ++ [.string principal]))) entry)) t, true)) = (t', changed') →
        (changed' = true ↔ changed = true ∨
          (rowOf service t).isSome = true ∧ principal ∉ grants (rowOf service t)) := by
      intro elements hgrants heq
      rw [hrow, hgrants, mem_strings]
      split at heq
      · next hmem =>
        obtain ⟨-, rfl⟩ := Prod.mk.inj heq
        simp [hmem]
      · next hmem =>
        obtain ⟨-, rfl⟩ := Prod.mk.inj heq
        simp [hmem]
    split at h
    · next hallow =>
      exact hpush [] (grants_of_no_array (by simp [hallow])) (Except.ok.inj h)
    · next elements hallow => exact hpush elements (grants_of_array hallow) (Except.ok.inj h)
    · contradiction

/-- Appends in a row add it to each. -/
theorem appended_of_foldlM
    (h : services.foldlM (appendOne principal) (t, changed) = .ok (t', changed')) :
    Appended principal services t t' := by
  induction services generalizing t changed with
  | nil =>
      obtain ⟨rfl, -⟩ := Prod.mk.inj (Except.ok.inj h)
      exact .refl principal t
  | cons service services ih =>
      rw [List.foldlM_cons] at h
      cases hone : appendOne principal (t, changed) service with
      | error e => rw [hone] at h; contradiction
      | ok acc =>
          rw [hone] at h
          exact .cons (appended_of_appendOne hone) (ih h)

/-- The appends change the entries where one of them does. -/
theorem changed_of_foldlM
    (h : services.foldlM (appendOne principal) (t, changed) = .ok (t', changed')) :
    changed' = true ↔ changed = true ∨
      ∃ s ∈ services, (rowOf s t).isSome = true ∧ principal ∉ grants (rowOf s t) := by
  induction services generalizing t changed with
  | nil =>
      obtain ⟨-, rfl⟩ := Prod.mk.inj (Except.ok.inj h)
      simp
  | cons service services ih =>
      rw [List.foldlM_cons] at h
      cases hone : appendOne principal (t, changed) service with
      | error e => rw [hone] at h; contradiction
      | ok acc =>
          rw [hone] at h
          have happended := appended_of_appendOne hone
          -- after the first append the other services list what they did
          have hrest : ∀ s, s ≠ service → grants (rowOf s acc.1) = grants (rowOf s t) := by
            intro s hs
            rw [happended.lists, if_neg fun hadd => hs (List.mem_singleton.mp hadd.1)]
          have hsame : (rowOf service acc.1).isSome = true →
              principal ∉ grants (rowOf service acc.1) →
              (rowOf service t).isSome = true ∧ principal ∉ grants (rowOf service t) := by
            intro hrow hp
            rw [happended.configured] at hrow
            refine ⟨hrow, fun hlisted => hp ?_⟩
            rw [happended.lists, if_neg fun hadd => hadd.2.2 hlisted]
            exact hlisted
          rw [ih h, changed_of_appendOne hone, or_assoc, List.exists_mem_cons_iff]
          refine or_congr_right ⟨?_, ?_⟩
          · rintro (hfirst | ⟨s, hs, hrow, hp⟩)
            · exact .inl hfirst
            · by_cases heq : s = service
              · exact .inl (hsame (heq ▸ hrow) (heq ▸ hp))
              · exact .inr ⟨s, hs, happended.configured s ▸ hrow, hrest s heq ▸ hp⟩
          · rintro (hfirst | ⟨s, hs, hrow, hp⟩)
            · exact .inl hfirst
            · by_cases heq : s = service
              · exact .inl (heq ▸ ⟨hrow, hp⟩)
              · exact .inr ⟨s, hs, (happended.configured s).symm ▸ hrow, (hrest s heq).symm ▸ hp⟩

/-- An append to an entry that has an array, or nothing, in its place is made. -/
theorem appendOne_ok
    (h : ∀ entry, rowOf service t = some entry → Listable entry) :
    ∃ t' changed', appendOne principal (t, changed) service = .ok (t', changed') ∧
      ∀ s, (∀ entry, rowOf s t = some entry → Listable entry) →
        ∀ entry, rowOf s t' = some entry → Listable entry := by
  rw [appendOne]
  cases hrow : rowOf service t with
  | none => exact ⟨t, changed, rfl, fun _ => id⟩
  | some row =>
      obtain ⟨entry, rfl, hallow⟩ := h row hrow
      have hpush : ∀ elements, ∃ t' changed',
          (Except.ok (if .string principal ∈ elements then (t, changed)
            else (put service (.table (put "allow"
              (.leaf (.array (elements ++ [.string principal]))) entry)) t, true)) :
            Except DocumentError _) = .ok (t', changed') ∧
          ∀ s, (∀ entry, rowOf s t = some entry → Listable entry) →
            ∀ entry, rowOf s t' = some entry → Listable entry := by
        intro elements
        split
        · exact ⟨t, changed, rfl, fun _ => id⟩
        · refine ⟨_, _, rfl, fun s hs row' hrow' => ?_⟩
          rw [rowOf_put] at hrow'
          split at hrow'
          · obtain rfl := Option.some.inj hrow'
            exact ⟨_, rfl, .inr ⟨_, rowOf_put_self⟩⟩
          · exact hs row' hrow'
      obtain hallow | ⟨elements, hallow⟩ := hallow
      · dsimp only
        rw [hallow]
        exact hpush []
      · dsimp only
        rw [hallow]
        exact hpush elements

/-- Lists that can be appended to are appended to. -/
theorem foldlM_appendOne_ok
    (h : ∀ s ∈ services, ∀ entry, rowOf s t = some entry → Listable entry) :
    ∃ acc, services.foldlM (appendOne principal) (t, changed) = .ok acc := by
  induction services generalizing t changed with
  | nil => exact ⟨_, rfl⟩
  | cons service services ih =>
      obtain ⟨t₁, changed₁, hone, hkept⟩ :=
        @appendOne_ok principal service t changed (h service List.mem_cons_self)
      rw [List.foldlM_cons, hone]
      exact ih fun s hs => hkept s (h s (List.mem_cons_of_mem _ hs))

end Append

/-! ## the edits -/

/-- The document's services are the entries; none are there before the first. -/
def HasServices (doc entries : TomlTable) : Prop :=
  (rowOf "services" doc).getD (.table []) = .table entries

section Edits

variable {doc doc' entries entries' : TomlTable} {name service : String} {entry : Toml}

/-- A table is found where the document has one, or has nothing in its place. -/
theorem subtable_eq_some {key : String} :
    subtable doc key = some entries ↔ (rowOf key doc).getD (.table []) = .table entries := by
  rw [subtable]
  split
  · next h => rw [h, Option.getD_none, Option.some_inj, Document.table.injEq]
  · next h => rw [h, Option.getD_some, Option.some_inj, Document.table.injEq]
  · next h => simp [h]

/-- A document that has a table of services has these services. -/
theorem hasServices_of_rowOf (h : rowOf "services" doc = some (.table entries)) :
    HasServices doc entries := by
  rw [HasServices, h, Option.getD_some]

/-- The entry of a service is the row of its name. -/
theorem HasServices.entryOf_eq (h : HasServices doc entries) :
    entryOf doc service = rowOf service entries := by
  rw [entryOf, servicesTable]
  rw [HasServices] at h
  split
  · next hrow =>
    rw [hrow, Option.getD_some, Document.table.injEq] at h
    rw [h]
  · next hno =>
    cases hrow : rowOf "services" doc with
    | none =>
        rw [hrow, Option.getD_none, Document.table.injEq] at h
        rw [← h]
    | some n =>
        rw [hrow, Option.getD_some] at h
        exact absurd (h ▸ hrow) (hno entries)

/-- The entries that were put are the entries. -/
theorem entryOf_put_services :
    entryOf (put "services" (.table entries) doc) service = rowOf service entries := by
  rw [entryOf, servicesTable, rowOf_put_self]

/-- A change within the services. -/
theorem HasServices.changesAt {paths : Set (List String)} (hdoc : HasServices doc entries)
    (hpaths : paths.Nonempty) (h : Document.ChangesAt paths (.table entries) (.table entries')) :
    Document.ChangesAt (("services" :: ·) '' paths) (.table doc)
      (.table (put "services" (.table entries') doc)) :=
  Document.changesAt_key hpaths (fun _ hk => rowOf_put_of_ne hk) rowOf_put_self (hdoc.symm ▸ h)

/-- One entry is put or erased. -/
theorem HasServices.changesAt_row (hdoc : HasServices doc entries)
    (h : ∀ k, k ≠ name → rowOf k entries' = rowOf k entries) :
    Document.ChangesAt {["services", name]} (.table doc)
      (.table (put "services" (.table entries') doc)) := by
  have hrow := Document.changesAt_rows (Set.singleton_nonempty name) h
  simpa using hdoc.changesAt (Set.Nonempty.image _ (Set.singleton_nonempty name)) hrow

/-! ### what each writer writes -/

/-- A registration puts one entry. -/
theorem writeService_ok {backend : BackendSpec} {allow : List String} {rate : Option Nat}
    (h : writeService name backend allow rate doc = .ok doc') :
    ∃ entries, HasServices doc entries ∧ doc' = put "services"
      (.table (put name (serviceEntry backend allow rate (rowOf name entries)) entries)) doc := by
  rw [writeService] at h
  split at h
  · contradiction
  · next entries hentries =>
    exact ⟨entries, subtable_eq_some.mp hentries, (Except.ok.inj h).symm⟩

/-- A removal takes one entry out. -/
theorem removeService_some (h : removeService name doc = some doc') :
    ∃ entries, HasServices doc entries ∧
      doc' = put "services" (.table (eraseRow name entries)) doc := by
  rw [removeService] at h
  split at h
  · next entries hentries =>
    rw [Option.ite_none_left_eq_some] at h
    exact ⟨entries, hasServices_of_rowOf hentries, (Option.some.inj h.2).symm⟩
  · contradiction

/-- A revoke strips one entry. -/
theorem removePrincipal_some {principal : String}
    (h : removePrincipal service principal doc = some doc') :
    ∃ entries entry entry', HasServices doc entries ∧ rowOf service entries = some entry ∧
      strip [principal] entry = some entry' ∧
      doc' = put "services" (.table (put service entry' entries)) doc := by
  rw [removePrincipal] at h
  split at h
  · next entries hentries =>
    obtain ⟨entry', hbind, rfl⟩ := Option.map_eq_some_iff.mp h
    obtain ⟨entry, hrow, hstrip⟩ := Option.bind_eq_some_iff.mp hbind
    exact ⟨entries, entry, entry', hasServices_of_rowOf hentries, hrow, hstrip, rfl⟩
  · contradiction

/-- A revoke of principals strips every entry. -/
theorem removeAllow_some {principals : List String}
    (h : removeAllow principals doc = some doc') :
    ∃ entries, HasServices doc entries ∧ doc' = put "services"
      (.table (mapRows (fun entry => (strip principals entry).getD entry) entries)) doc := by
  rw [removeAllow] at h
  split at h
  · next entries hentries =>
    rw [Option.ite_none_right_eq_some] at h
    exact ⟨entries, hasServices_of_rowOf hentries, (Option.some.inj h.2).symm⟩
  · contradiction

/-- A grant appends to the entries that it names. -/
theorem appendAllow_some {principal : String} {services : List String}
    (h : appendAllow principal services doc = .ok (some doc')) :
    ∃ entries entries', HasServices doc entries ∧ Appended principal services entries entries' ∧
      services ≠ [] ∧ doc' = put "services" (.table entries') doc := by
  rw [appendAllow] at h
  split at h
  · next entries hentries =>
    cases hfold : services.foldlM (appendOne principal) (entries, false) with
    | error e => rw [hfold] at h; contradiction
    | ok acc =>
        obtain ⟨entries', changed⟩ := acc
        rw [hfold] at h
        have hwrote := Except.ok.inj h
        rw [Option.ite_none_right_eq_some] at hwrote
        refine ⟨entries, entries', hasServices_of_rowOf hentries, appended_of_foldlM hfold, ?_,
          (Option.some.inj hwrote.2).symm⟩
        rintro rfl
        obtain ⟨-, hchanged⟩ := Prod.mk.inj (Except.ok.inj hfold)
        rw [← hchanged] at hwrote
        exact Bool.false_ne_true hwrote.1
  · exact absurd (Except.ok.inj h) (Option.some_ne_none doc').symm

/-- Other keys keep what they have while strings are put. -/
theorem rowOf_foldl_put {key : String} {pairs : List (String × String)}
    (h : ∀ kv ∈ pairs, key ≠ kv.1) :
    rowOf key (pairs.foldl (fun t kv => put kv.1 (.leaf (.string kv.2)) t) entries) =
      rowOf key entries := by
  induction pairs generalizing entries with
  | nil => rfl
  | cons kv pairs ih =>
      rw [List.forall_mem_cons] at h
      rw [List.foldl_cons, ih h.2, rowOf_put_of_ne h.1]

/-- The keys of a table that are written. -/
theorem changesAt_put_table {table : String} {keys : Set String} (hkeys : keys.Nonempty)
    (hdoc : (rowOf table doc).getD (.table []) = .table entries)
    (h : ∀ k ∉ keys, rowOf k entries' = rowOf k entries) :
    Document.ChangesAt ((fun k => [table, k]) '' keys) (.table doc)
      (.table (put table (.table entries') doc)) := by
  have hrows := Document.changesAt_rows hkeys h
  have hkey := Document.changesAt_key (hkeys.image _) (fun k hk => rowOf_put_of_ne hk)
    rowOf_put_self (hdoc.symm ▸ hrows)
  rwa [Set.image_image] at hkey

/-- Strings are put into one table. -/
theorem upsertConfigStrings_ok {table : String} {pairs : List (String × String)}
    (hpairs : pairs ≠ []) (h : upsertConfigStrings table pairs doc = .ok doc') :
    ∃ entry, doc' = put table entry doc ∧
      Document.ChangesAt ((fun k => [table, k]) '' {k | ∃ kv ∈ pairs, k = kv.1}) (.table doc)
        (.table doc') := by
  rw [upsertConfigStrings] at h
  split at h
  · contradiction
  · next entries hentries =>
    rw [← Except.ok.inj h]
    obtain ⟨kv, hkv⟩ := List.exists_mem_of_ne_nil pairs hpairs
    exact ⟨_, rfl, changesAt_put_table ⟨kv.1, kv, hkv, rfl⟩ (subtable_eq_some.mp hentries)
      fun k hk => rowOf_foldl_put fun kv hkv heq => hk ⟨kv, hkv, heq⟩⟩

/-- The relays are put under their two keys. -/
theorem writeRelays_ok {urls : List String} (h : writeRelays urls doc = .ok doc') :
    ∃ entry, doc' = put "network" entry doc ∧
      Document.ChangesAt ((fun k => ["network", k]) '' {"relay_mode", "relay_urls"}) (.table doc)
        (.table doc') := by
  rw [writeRelays] at h
  split at h
  · contradiction
  · next entries hentries =>
    rw [← Except.ok.inj h]
    refine ⟨_, rfl, changesAt_put_table ⟨"relay_mode", .inl rfl⟩ (subtable_eq_some.mp hentries) ?_⟩
    intro k hk
    rw [rowOf_put_of_ne fun heq => hk (.inr heq), rowOf_put_of_ne fun heq => hk (.inl heq)]

/-- The pins are written beside the services, at the keys they name. -/
theorem write_ok {w : PinWrite} (h : w.write doc = .ok doc') :
    (∃ table ≠ "services", ∃ entry, doc' = put table entry doc) ∧
      Document.ChangesAt (ConfigCall.pin w).named (.table doc) (.table doc') := by
  have hstrings : ∀ table pairs, table ≠ "services" → pairs ≠ [] →
      (∀ kv ∈ pairs, [table, kv.1] ∈ (ConfigCall.pin w).named) →
      upsertConfigStrings table pairs doc = .ok doc' →
      (∃ table ≠ "services", ∃ entry, doc' = put table entry doc) ∧
        Document.ChangesAt (ConfigCall.pin w).named (.table doc) (.table doc') := by
    intro table pairs htable hpairs hnamed hok
    obtain ⟨entry, hput, hframe⟩ := upsertConfigStrings_ok hpairs hok
    refine ⟨⟨table, htable, entry, hput⟩, hframe.mono ?_⟩
    rintro _ ⟨_, ⟨kv, hkv, rfl⟩, rfl⟩
    exact hnamed kv hkv
  cases w with
  | identityPin _ _ =>
      exact hstrings _ _ (by decide) (by simp) (by simp [ConfigCall.named]) h
  | userId _ =>
      exact hstrings _ _ (by decide) (by simp) (by simp [ConfigCall.named]) h
  | joinPin _ _ _ _ =>
      exact hstrings _ _ (by decide) (by simp) (by simp [ConfigCall.named]) h
  | rosterUrl _ =>
      exact hstrings _ _ (by decide) (by simp) (by simp [ConfigCall.named]) h
  | nickname _ =>
      exact hstrings _ _ (by decide) (by simp) (by simp [ConfigCall.named]) h
  | relays _ =>
      obtain ⟨entry, hput, hframe⟩ := writeRelays_ok h
      refine ⟨⟨"network", by decide, entry, hput⟩, hframe.mono ?_⟩
      rw [Set.image_pair]
      exact subset_rfl

/-! ### what a call makes of the document -/

theorem map_some_ok {ε α : Type*} {x : Except ε α} {a : α} (h : x.map some = .ok (some a)) :
    x = .ok a := by
  cases x with
  | error e => contradiction
  | ok b => exact congrArg Except.ok (Option.some.inj (Except.ok.inj h))

/-- An edit changes the document at the keys that its call names. -/
theorem edit_frame {call : ConfigCall} (h : call.edit doc = .ok (some doc')) :
    Document.ChangesAt call.named (.table doc) (.table doc') := by
  cases call with
  | writeService name backend allow rate =>
      obtain ⟨entries, hdoc, rfl⟩ := writeService_ok (map_some_ok h)
      exact hdoc.changesAt_row fun k hk => rowOf_put_of_ne hk
  | appendAllow principal services =>
      obtain ⟨entries, entries', hdoc, happended, hne, rfl⟩ := appendAllow_some h
      obtain ⟨service, hservice⟩ := List.exists_mem_of_ne_nil services hne
      have hpaths : {path | ∃ s ∈ services, path = [s, "allow"]}.Nonempty :=
        ⟨_, service, hservice, rfl⟩
      refine (hdoc.changesAt hpaths happended.frame).mono ?_
      rintro _ ⟨_, ⟨s, hs, rfl⟩, rfl⟩
      exact ⟨s, hs, rfl⟩
  | removePrincipal service principal =>
      obtain ⟨entries, entry, entry', hdoc, hrow, hstrip, rfl⟩ :=
        removePrincipal_some (Except.ok.inj h)
      have hentry : Document.ChangesAt {["allow"]} entry entry' := by
        have hchanges := @changesAt_strip entry [principal]
        rwa [hstrip, Option.getD_some] at hchanges
      have hrows := changesAt_put_within (Set.singleton_nonempty ["allow"]) hrow hentry
      simpa [ConfigCall.named] using
        hdoc.changesAt (Set.Nonempty.image _ (Set.singleton_nonempty _)) hrows
  | removeAllow principals =>
      obtain ⟨entries, hdoc, rfl⟩ := removeAllow_some (Except.ok.inj h)
      have hrows := @Document.changesAt_mapRows _ _ entries _ (Set.singleton_nonempty ["allow"])
        fun entry => @changesAt_strip entry principals
      have hpaths : {path | ∃ k, ∃ p ∈ ({["allow"]} : Set (List String)), path = k :: p}.Nonempty :=
        ⟨_, "", _, rfl, rfl⟩
      refine (hdoc.changesAt hpaths hrows).mono ?_
      rintro _ ⟨_, ⟨s, _, rfl, rfl⟩, rfl⟩
      exact ⟨s, rfl⟩
  | removeService name =>
      obtain ⟨entries, hdoc, rfl⟩ := removeService_some (Except.ok.inj h)
      exact hdoc.changesAt_row fun k hk => rowOf_eraseRow_of_ne hk
  | pin w =>
      exact (write_ok (map_some_ok h)).2

/-- **The allow lists are a map** that each call edits service by service. -/
theorem allowed_edit {call : ConfigCall} (h : call.edit doc = .ok (some doc'))
    (service : String) :
    allowed doc' service =
      call.regrant service (entryOf doc service).isSome (allowed doc service) := by
  cases call with
  | writeService name backend allow rate =>
      obtain ⟨entries, hdoc, rfl⟩ := writeService_ok (map_some_ok h)
      rw [allowed, allowed, entryOf_put_services, hdoc.entryOf_eq, rowOf_put, ConfigCall.regrant]
      split
      · next heq => rw [← heq, grants_serviceEntry]
      · rfl
  | appendAllow principal services =>
      obtain ⟨entries, entries', hdoc, happended, -, rfl⟩ := appendAllow_some h
      rw [allowed, allowed, entryOf_put_services, hdoc.entryOf_eq, happended.lists,
        ConfigCall.regrant]
  | removePrincipal name principal =>
      obtain ⟨entries, entry, entry', hdoc, hrow, hstrip, rfl⟩ :=
        removePrincipal_some (Except.ok.inj h)
      rw [allowed, allowed, entryOf_put_services, hdoc.entryOf_eq, rowOf_put, ConfigCall.regrant]
      split
      · next heq =>
        rw [← heq, hrow, ← Option.getD_some (a := entry') (b := entry), ← hstrip, grants_strip]
        simp only [List.mem_singleton]
      · rfl
  | removeAllow principals =>
      obtain ⟨entries, hdoc, rfl⟩ := removeAllow_some (Except.ok.inj h)
      rw [allowed, allowed, entryOf_put_services, hdoc.entryOf_eq, rowOf_mapRows,
        ConfigCall.regrant]
      cases rowOf service entries with
      | none => rfl
      | some entry => exact grants_strip
  | removeService name =>
      obtain ⟨entries, hdoc, rfl⟩ := removeService_some (Except.ok.inj h)
      rw [allowed, allowed, entryOf_put_services, hdoc.entryOf_eq, ConfigCall.regrant]
      split
      · next heq =>
        rw [heq, rowOf_eraseRow_self]
        rfl
      · next heq => rw [rowOf_eraseRow_of_ne (Ne.symm heq)]
  | pin w =>
      obtain ⟨⟨table, htable, entry, rfl⟩, -⟩ := write_ok (map_some_ok h)
      rw [allowed, allowed, entryOf, entryOf, servicesTable, servicesTable,
        rowOf_put_of_ne (Ne.symm htable)]
      rfl

/-! ### when a writer writes -/

/-- A document without a table of services lists nothing. -/
theorem servicesTable_of_no_table (h : ∀ entries, rowOf "services" doc ≠ some (.table entries)) :
    servicesTable doc = [] := by
  rw [servicesTable]
  split
  · next entries hrow => exact absurd hrow (h entries)
  · rfl

/-- The services of a document are its table. -/
theorem servicesTable_of_table (h : rowOf "services" doc = some (.table entries)) :
    servicesTable doc = entries := by
  rw [servicesTable, h]

/-- A grant succeeds on a document of the expected shape, and writes if there is one to
whom it is new. -/
theorem appendAllow_ok {principal : String} {services : List String}
    (hshaped : (ConfigCall.appendAllow principal services).WellShaped doc) :
    ∃ out, appendAllow principal services doc = .ok out ∧
      (out.isSome = true ↔ (ConfigCall.appendAllow principal services).Applies doc) := by
  rw [appendAllow]
  split
  · next entries hentries =>
    have hrows : ∀ s, entryOf doc s = rowOf s entries :=
      fun s => by rw [entryOf, servicesTable_of_table hentries]
    obtain ⟨⟨entries', changed⟩, hfold⟩ :=
      @foldlM_appendOne_ok principal services entries false fun s hs entry hrow =>
        hshaped s hs entry ((hrows s).trans hrow)
    refine ⟨if changed then some (put "services" (.table entries') doc) else none, ?_, ?_⟩
    · rw [hfold]
      rfl
    · have hchanged := changed_of_foldlM hfold
      simp only [Bool.false_eq_true, false_or] at hchanged
      simp only [ConfigCall.Applies, allowed, hrows, ← hchanged]
      cases changed <;> simp
  · next hentries =>
    refine ⟨none, rfl, ?_⟩
    have hnone : ∀ s, entryOf doc s = none :=
      fun s => by rw [entryOf, servicesTable_of_no_table hentries]; rfl
    simp [ConfigCall.Applies, hnone]

/-- A revoke of one principal writes if the service lists it. -/
theorem removePrincipal_isSome {principal : String} :
    (removePrincipal service principal doc).isSome = true ↔ principal ∈ allowed doc service := by
  rw [removePrincipal]
  split
  · next entries hentries =>
    rw [allowed, entryOf, servicesTable_of_table hentries, Option.isSome_map]
    cases hrow : rowOf service entries with
    | none => simp [grants, strings]
    | some entry =>
        rw [Option.bind_some, strip_isSome]
        simp
  · next hentries =>
    rw [allowed, entryOf, servicesTable_of_no_table hentries]
    simp [grants, strings, rowOf]

/-- A revoke of principals writes if some service lists one. -/
theorem removeAllow_isSome {principals : List String} :
    (removeAllow principals doc).isSome = true ↔
      (ConfigCall.removeAllow principals).Applies doc := by
  rw [removeAllow]
  split
  · next entries hentries =>
    simp only [ConfigCall.Applies, servicesTable_of_table hentries, ← strip_isSome]
    rw [← List.any_eq_true]
    split
    · next hany => simp [hany]
    · next hnone => simp [hnone]
  · next hentries => simp [ConfigCall.Applies, servicesTable_of_no_table hentries]

/-- A removal writes if the service is there. -/
theorem removeService_isSome :
    (removeService name doc).isSome = true ↔ (entryOf doc name).isSome = true := by
  rw [removeService]
  split
  · next entries hentries =>
    rw [entryOf, servicesTable_of_table hentries]
    cases hrow : rowOf name entries <;> simp
  · next hentries =>
    rw [entryOf, servicesTable_of_no_table hentries]
    simp [rowOf]

/-- Strings can be put where the table is one. -/
theorem upsertConfigStrings_isOk {table : String} {pairs : List (String × String)}
    (h : subtable doc table = some entries) :
    ∃ doc', upsertConfigStrings table pairs doc = .ok doc' := by
  rw [upsertConfigStrings, h]
  exact ⟨_, rfl⟩

/-- A pin can be written where its tables are. -/
theorem write_isOk {w : PinWrite} (h : (ConfigCall.pin w).WellShaped doc) :
    ∃ doc', w.write doc = .ok doc' := by
  obtain ⟨entries, hentries⟩ := h
  cases w with
  | identityPin | userId | joinPin | rosterUrl | nickname =>
      exact upsertConfigStrings_isOk hentries
  | relays urls =>
      have hnetwork : subtable doc "network" = some entries := hentries
      rw [PinWrite.write, writeRelays, hnetwork]
      exact ⟨_, rfl⟩

/-- **When a writer writes**: on a document of the right shape, where it has
something to do. -/
theorem edit_ok {call : ConfigCall} (hshaped : call.WellShaped doc) :
    ∃ out, call.edit doc = .ok out ∧ (out.isSome = true ↔ call.Applies doc) := by
  cases call with
  | writeService name backend allow rate =>
      obtain ⟨entries, hentries⟩ := hshaped
      have hwrite : ∃ doc', ConfigDocument.writeService name backend allow rate doc = .ok doc' := by
        rw [ConfigDocument.writeService, hentries]
        exact ⟨_, rfl⟩
      obtain ⟨doc', hwrite⟩ := hwrite
      refine ⟨some doc', ?_, by simp [ConfigCall.Applies]⟩
      rw [ConfigCall.edit, hwrite]
      rfl
  | appendAllow principal services => exact appendAllow_ok hshaped
  | removePrincipal service principal => exact ⟨_, rfl, removePrincipal_isSome⟩
  | removeAllow principals => exact ⟨_, rfl, removeAllow_isSome⟩
  | removeService name => exact ⟨_, rfl, removeService_isSome⟩
  | pin w =>
      obtain ⟨doc', hwrite⟩ := write_isOk hshaped
      refine ⟨some doc', ?_, by simp [ConfigCall.Applies]⟩
      rw [ConfigCall.edit, hwrite]
      rfl

/-- A registration keeps the rate, unless it brings one. -/
theorem rateOf_edit {backend : BackendSpec} {allow : List String} {rate : Option Nat}
    (h : writeService name backend allow rate doc = .ok doc') :
    rateOf doc' name = (rate.map Int.ofNat).or (rateOf doc name) := by
  obtain ⟨entries, hdoc, rfl⟩ := writeService_ok h
  rw [rateOf, entryOf_put_services, rowOf_put_self, Option.bind_some, rateLimit_serviceEntry,
    rateOf, hdoc.entryOf_eq]

end Edits

/-! ## the map of allow sets -/

/-- What a call that wrote said of a grant. -/
def ConfigCall.word (service principal : String) (configured : Bool) : ConfigCall → Option Bool
  | .writeService name _ allow _ => if name = service ∧ principal ∈ allow then some true else none
  | .appendAllow p services =>
      if p = principal ∧ service ∈ services ∧ configured then some true else none
  | .removePrincipal name p => if name = service ∧ p = principal then some false else none
  | .removeAllow principals => if principal ∈ principals then some false else none
  | .removeService name => if name = service then some false else none
  | .pin _ => none

abbrev ConfigCalled := Called (Option TomlTable) (ConfigCall × FileFault) ConfigReply

/-- What a call of a run said of a grant; one that wrote nothing said nothing. -/
def word (service principal : String) (t : ConfigCalled) : Option Bool :=
  if t.out = .written then
    t.call.1.word service principal (entryOf (t.pre.getD []) service).isSome
  else none

/-- The principal is in the allow list of the service. -/
def Granted (service principal : String) (file : Option TomlTable) : Prop :=
  principal ∈ allowed (file.getD []) service

section Regrant

variable {service principal : String} {configured : Bool} {list allow : List String} {a : String}

/-- A merged list has what either has. -/
theorem mem_mergedAllow : a ∈ mergedAllow allow list ↔ a ∈ allow ∨ a ∈ list := by
  induction allow generalizing list with
  | nil => simp [mergedAllow]
  | cons b allow ih =>
      have hmerge : a ∈ (if b ∈ list then list else list ++ [b]) ↔ a = b ∨ a ∈ list := by
        split
        · next hb => exact ⟨.inr, fun h => h.elim (fun heq => heq ▸ hb) id⟩
        · rw [List.mem_append, List.mem_singleton, or_comm]
      rw [mergedAllow, List.foldl_cons, ← mergedAllow, ih, hmerge, List.mem_cons, ← or_assoc,
        or_comm (a := a ∈ allow)]

/-- An append that is made where the name is not there counts it once. -/
theorem count_append_absent {b : String} (hb : b ∉ list) (h : list.count a ≤ 1) :
    (list ++ [b]).count a ≤ 1 := by
  by_cases hab : a = b
  · rw [hab, List.count_append, List.count_eq_zero_of_not_mem hb, List.count_singleton_self]
  · rwa [List.count_append, List.count_singleton, if_neg (by simpa using Ne.symm hab), add_zero]

/-- A merge lists nobody twice who was listed once at most. -/
theorem count_mergedAllow (h : list.count a ≤ 1) : (mergedAllow allow list).count a ≤ 1 := by
  induction allow generalizing list with
  | nil => exact h
  | cons b allow ih =>
      rw [mergedAllow, List.foldl_cons]
      refine ih ?_
      split
      · exact h
      · next hb => exact count_append_absent hb h

/-- Each edit of a list sets the grants that its call speaks of, and keeps the others. -/
theorem mem_regrant (call : ConfigCall) :
    principal ∈ call.regrant service configured list ↔
      call.word service principal configured = some true ∨
        call.word service principal configured = none ∧ principal ∈ list := by
  cases call with
  | writeService name backend allow rate =>
      rw [ConfigCall.regrant, ConfigCall.word]
      by_cases hname : name = service
      · rw [if_pos hname, mem_mergedAllow]
        by_cases hallow : principal ∈ allow <;> simp [hname, hallow]
      · simp [hname]
  | appendAllow p services =>
      rw [ConfigCall.regrant, ConfigCall.word]
      by_cases hspeaks : p = principal ∧ service ∈ services ∧ configured
      · rw [if_pos hspeaks]
        by_cases hlisted : p ∈ list
        · rw [if_neg fun h => h.2.2 hlisted]
          simpa [← hspeaks.1] using hlisted
        · rw [if_pos ⟨hspeaks.2.1, hspeaks.2.2, hlisted⟩]
          simp [← hspeaks.1]
      · rw [if_neg hspeaks]
        split
        · next hadd =>
          have hne : principal ≠ p := fun h => hspeaks ⟨h.symm, hadd.1, hadd.2.1⟩
          simp [hne]
        · simp
  | removePrincipal name p =>
      rw [ConfigCall.regrant, ConfigCall.word]
      by_cases hname : name = service
      · by_cases hp : principal = p
        · simp [hname, hp]
        · simp [hname, hp, Ne.symm hp]
      · simp [hname]
  | removeAllow principals =>
      rw [ConfigCall.regrant, ConfigCall.word, List.mem_filter]
      by_cases hp : principal ∈ principals <;> simp [hp]
  | removeService name =>
      rw [ConfigCall.regrant, ConfigCall.word]
      by_cases hname : name = service <;> simp [hname]
  | pin _ => simp [ConfigCall.regrant, ConfigCall.word]

/-- No call lists a principal twice that was listed once at most. -/
theorem count_regrant (call : ConfigCall) (h : list.count principal ≤ 1) :
    (call.regrant service configured list).count principal ≤ 1 := by
  cases call with
  | writeService name backend allow rate =>
      rw [ConfigCall.regrant]
      split
      · exact count_mergedAllow h
      · exact h
  | appendAllow p services =>
      rw [ConfigCall.regrant]
      split
      · next hadd => exact count_append_absent hadd.2.2 h
      · exact h
  | removePrincipal name p =>
      rw [ConfigCall.regrant]
      split
      · exact (List.filter_sublist.count_le principal).trans h
      · exact h
  | removeAllow principals => exact (List.filter_sublist.count_le principal).trans h
  | removeService name =>
      rw [ConfigCall.regrant]
      split
      · exact Nat.zero_le 1
      · exact h
  | pin _ => exact h

end Regrant

/-! ## the calls -/

/-- A call writes what it made of the document, or leaves the file. -/
theorem callConfig_cases (file : Option TomlTable) (call : ConfigCall × FileFault) :
    (∃ doc, callConfig file call = (some doc, .written) ∧
      call.1.edit (file.getD []) = .ok (some doc)) ∨
    (callConfig file call).1 = file ∧ (callConfig file call).2 ≠ .written := by
  rw [callConfig]
  split
  · exact .inr ⟨rfl, nofun⟩
  · split
    · exact .inr ⟨rfl, nofun⟩
    · exact .inr ⟨rfl, nofun⟩
    · next doc hedit =>
      split
      · exact .inr ⟨rfl, nofun⟩
      · exact .inl ⟨doc, rfl, hedit⟩

/-- Without a fault a writer writes where it applies. -/
theorem written_iff (file : Option TomlTable) {call : ConfigCall}
    (hshaped : call.WellShaped (file.getD [])) :
    (callConfig file (call, .none)).2 = .written ↔ call.Applies (file.getD []) := by
  obtain ⟨out, hedit, hout⟩ := edit_ok hshaped
  rw [callConfig, if_neg (by simp), hedit, ← hout]
  cases out with
  | none => simp
  | some doc => simp

/-- What one call leaves granted is what it says, or else what was. -/
theorem granted_callConfig (service principal : String) (file : Option TomlTable)
    (call : ConfigCall × FileFault) :
    Granted service principal (callConfig file call).1 ↔
      word service principal (callAt callConfig file call) = some true ∨
        word service principal (callAt callConfig file call) = none ∧
          Granted service principal file := by
  rcases callConfig_cases file call with ⟨doc, hcall, hedit⟩ | ⟨hfile, hout⟩
  · have hword : word service principal (callAt callConfig file call) =
        call.1.word service principal (entryOf (file.getD []) service).isSome := by
      rw [word, callAt, hcall, if_pos rfl]
    rw [hword, Granted, Granted, hcall, Option.getD_some, allowed_edit hedit]
    exact mem_regrant call.1
  · have hword : word service principal (callAt callConfig file call) = none := if_neg hout
    simp [hword, hfile]

/-- The config writers refine a map of allow sets, and touch nothing else. -/
theorem config_writers_refine (file : Option TomlTable) (calls : List (ConfigCall × FileFault)) :
    (∀ service principal, Granted service principal (final callConfig file calls) ↔
      lastWord (word service principal) (trace callConfig file calls) = some true ∨
        lastWord (word service principal) (trace callConfig file calls) = none ∧
          Granted service principal file) ∧
    ∀ t ∈ trace callConfig file calls,
      (t.out ≠ .written → t.post = t.pre) ∧
      (t.call.2 = .none → t.call.1.WellShaped (t.pre.getD []) →
        (t.out = .written ↔ t.call.1.Applies (t.pre.getD []))) ∧
      Document.ChangesAt t.call.1.named (.table (t.pre.getD [])) (.table (t.post.getD [])) ∧
      (∀ service principal, (allowed (t.pre.getD []) service).count principal ≤ 1 →
        (allowed (t.post.getD []) service).count principal ≤ 1) ∧
      ∀ name backend allow rate, t.call.1 = .writeService name backend allow rate →
        (∀ principal, Granted name principal t.pre → Granted name principal t.post) ∧
        (t.out = .written → rateOf (t.post.getD []) name =
          (rate.map Int.ofNat).or (rateOf (t.pre.getD []) name)) := by
  refine ⟨fun service principal => holds_iff_lastWord_trace
    (fun f e => granted_callConfig service principal f e) file calls, fun t ht => ?_⟩
  have happlied : t.call.2 = .none → t.call.1.WellShaped (t.pre.getD []) →
      (t.out = .written ↔ t.call.1.Applies (t.pre.getD [])) := by
    intro hfault hshaped
    have hout : t.out = (callConfig t.pre (t.call.1, .none)).2 := by
      rw [eq_callAt_of_mem_trace ht, ← hfault]
      rfl
    rw [hout, written_iff t.pre hshaped]
  rw [eq_callAt_of_mem_trace ht] at happlied ⊢
  rcases callConfig_cases t.pre t.call with ⟨doc, hcall, hedit⟩ | ⟨hfile, hout⟩
  · rw [callAt, hcall] at happlied ⊢
    refine ⟨fun h => absurd rfl h, happlied, edit_frame hedit, fun service principal h => ?_, ?_⟩
    · rw [Option.getD_some, allowed_edit hedit]
      exact count_regrant t.call.1 h
    · intro name backend allow rate hwrite
      rw [hwrite] at hedit
      refine ⟨fun principal h => ?_, fun _ => rateOf_edit (map_some_ok hedit)⟩
      rw [Granted, Option.getD_some, allowed_edit hedit, ConfigCall.regrant, if_pos rfl,
        mem_mergedAllow]
      exact .inr h
  · rw [callAt, hfile] at happlied ⊢
    exact ⟨fun _ => rfl, happlied, Document.ChangesAt.refl _ _, fun _ _ h => h,
      fun _ _ _ _ _ => ⟨fun _ h => h, fun h => absurd h hout⟩⟩

/-! ### a service that changes hands -/

namespace Shared

/-- Alice's service is lent to bob; she leaves, and his turn ends on a full disk. -/
def calls : List (ConfigCall × FileFault) :=
  [(.writeService "notes" (.socket "/run/notes.sock") ["alice"] none, .none),
    (.appendAllow "bob" ["notes", "files"], .none), (.removePrincipal "notes" "alice", .none),
    (.removeAllow ["bob"], .write)]

end Shared

open Shared in
theorem config_writers_refine_example :
    Granted "notes" "bob" (final callConfig none calls) ∧
      ¬ Granted "notes" "alice" (final callConfig none calls) ∧
      (trace callConfig none calls).map (·.out) = [.written, .written, .written, .unwritable] := by
  have hgranted := (config_writers_refine none calls).1 "notes"
  have hbob : lastWord (word "notes" "bob") (trace callConfig none calls) = some true := by
    decide +kernel
  have halice : lastWord (word "notes" "alice") (trace callConfig none calls) = some false := by
    decide +kernel
  refine ⟨(hgranted "bob").mpr (.inl hbob), fun h => ?_, by decide +kernel⟩
  have hword := (hgranted "alice").mp h
  rw [halice] at hword
  simp at hword

end ConfigDocument

end Mcpmesh
