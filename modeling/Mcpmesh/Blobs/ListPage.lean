import Mcpmesh.Blobs.Scope
import Mcpmesh.Lib.Paging
import Mathlib.Data.Finset.Sort
import Mathlib.Data.String.Basic

/-!
# Mcpmesh.Blobs.ListPage

One page of the scope table (`BlobScopes::list_page` of `node/src/blobs/scope.rs`,
`parse_blob_hash` of `node/src/blobs/mod.rs`).
-/

namespace Mcpmesh

open Lib

def DEFAULT_LIST_LIMIT : Nat := 256

def MAX_LIST_LIMIT : Nat := 4096

/-- `usize::MAX`. -/
def usizeMax : Nat := 2 ^ 64 - 1

/-- The members of a `BTreeSet`, as it iterates. -/
def ascending {α : Type} [LinearOrder α] (s : Finset α) : List α := s.sort

/-- A set in ascending order has its elements. -/
@[simp] theorem mem_ascending {α : Type} [LinearOrder α] {s : Finset α} {a : α} :
    a ∈ ascending s ↔ a ∈ s := Finset.mem_sort _

/-- One row of a page; the counts are there even where the lists are left out. -/
structure ScopePageRow where
  name : String
  hashes : List String
  grants : List String
  withdrawn : List String
  hashCount : Nat
  grantCount : Nat
  withdrawnCount : Nat
  deriving DecidableEq

structure ListQuery where
  /-- the exact name of a scope -/
  scope : Option String
  /-- the caller's rendering of a hash -/
  hash : Option String
  limit : Option Nat
  offset : Option Nat
  countsOnly : Bool

/-- Why there is no page. -/
inductive ListError where
  /-- `not a blake3 hash: {s:?} (expected 64 hex chars or 52 base32 chars)` -/
  | misshapen (s : String)
  /-- `not a blake3 hash: {s:?}` -/
  | unparsed (s : String)
  /-- `offset + rows.len()` leaves `usize` -/
  | overflow
  deriving DecidableEq

/-- `u8::is_ascii_hexdigit`. -/
def isAsciiHexdigit (c : Char) : Bool :=
  c.isDigit || ('a' ≤ c && c ≤ 'f') || ('A' ≤ c && c ≤ 'F')

/-- `parse_blob_hash`, rendered in hex; `fromStr` is `s.parse::<iroh_blobs::Hash>`. -/
def parseBlobHash (fromStr : String → Option String) (s : String) : Except ListError String :=
  let wellShaped := s.utf8ByteSize = 64 && s.toList.all isAsciiHexdigit ||
    s.utf8ByteSize = 52 && s.toList.all Char.isAlphanum
  if !wellShaped then .error (.misshapen s)
  else
    match fromStr s with
    | none => .error (.unparsed s)
    | some hex => .ok hex

namespace ListQuery

/-- The hash asked for, normalized: a malformed one is an error, not "no filter". -/
def wantHash (fromStr : String → Option String) (q : ListQuery) :
    Except ListError (Option String) :=
  match q.hash with
  | some h => (parseBlobHash fromStr h).map some
  | none => .ok none

/-- The rows of one page, at most; a caller's limit is clamped. -/
def pageLimit (q : ListQuery) : Nat := min (q.limit.getD DEFAULT_LIST_LIMIT) MAX_LIST_LIMIT

def row (q : ListQuery) (name : String) (sc : Scope) : ScopePageRow :=
  let list (set : Finset String) := if q.countsOnly then [] else ascending set
  { name, hashes := list sc.hashes, grants := list sc.grants, withdrawn := list sc.withdrawn
    hashCount := sc.hashes.card, grantCount := sc.grants.card
    withdrawnCount := sc.withdrawn.card }

end ListQuery

namespace BlobScopes

/-- The table, by name. -/
def ordered (t : BlobScopes) : List (String × Scope) :=
  (ascending t.scopes.keys).filterMap fun name => (t.get name).map (name, ·)

/-- The scopes that pass the filters. -/
def matching (t : BlobScopes) (scope wantHash : Option String) : List (String × Scope) :=
  t.ordered.filter fun (name, sc) => scope.all (· = name) && wantHash.all (· ∈ sc.hashes)

/-- `BlobScopes::list_page`. -/
def listPage (fromStr : String → Option String) (t : BlobScopes) (q : ListQuery) :
    Except ListError (Page ScopePageRow) :=
  (q.wantHash fromStr).bind fun wantHash =>
    let found := t.matching q.scope wantHash
    let total := found.length
    let offset := q.offset.getD 0
    let rows := ((found.drop offset).take q.pageLimit).map fun e => q.row e.1 e.2
    if usizeMax < offset + rows.length then .error .overflow
    else .ok { rows, total, truncated := offset + rows.length < total }

/-! ## the order of the table -/

section Ordered

variable {t : BlobScopes} {scope wantHash : Option String} {name : String} {sc : Scope}

/-- The scopes are listed with what they are. -/
theorem mem_ordered : (name, sc) ∈ t.ordered ↔ t.get name = some sc := by
  simp only [ordered, List.mem_filterMap, mem_ascending, Finmap.mem_keys,
    Option.map_eq_some_iff, Prod.mk.injEq]
  constructor
  · rintro ⟨_, -, _, hget, rfl, rfl⟩
    exact hget
  · intro hget
    exact ⟨name, Finmap.mem_of_lookup_eq_some hget, sc, hget, rfl, rfl⟩

/-- Each name is listed once, in ascending order. -/
theorem pairwise_ordered : t.ordered.Pairwise (·.1 < ·.1) := by
  refine List.Pairwise.filterMap _ ?_ t.scopes.keys.sortedLT_sort.pairwise
  rintro name name' hlt _ hentry _ hentry'
  obtain ⟨_, -, rfl⟩ := Option.map_eq_some_iff.mp hentry
  obtain ⟨_, -, rfl⟩ := Option.map_eq_some_iff.mp hentry'
  exact hlt

/-- What matches is in the scope that is asked for, and has the hash that is. -/
theorem mem_matching : (name, sc) ∈ t.matching scope wantHash ↔
    t.get name = some sc ∧ (∀ want ∈ scope, want = name) ∧ ∀ h ∈ wantHash, h ∈ sc.hashes := by
  simp [matching, List.mem_filter, mem_ordered, Option.all_eq_true]

/-- There are no more matches than scopes. -/
theorem length_matching_le : (t.matching scope wantHash).length ≤ t.scopes.keys.card :=
  calc (t.matching scope wantHash).length
    _ ≤ t.ordered.length := List.length_filter_le ..
    _ ≤ (ascending t.scopes.keys).length := List.length_filterMap_le _ _
    _ = t.scopes.keys.card := Finset.length_sort _

/-- The matches are in the order of the names. -/
theorem pairwise_matching : (t.matching scope wantHash).Pairwise (·.1 < ·.1) :=
  pairwise_ordered.filter _

end Ordered

/-! ## the pages -/

section Pages

variable {fromStr : String → Option String} {t : BlobScopes} {q : ListQuery}
  {wantHash : Option String}

/-- All the rows a query is after. -/
def allRows (t : BlobScopes) (q : ListQuery) (wantHash : Option String) : List ScopePageRow :=
  (t.matching q.scope wantHash).map fun e => q.row e.1 e.2

/-- A page is cut from the rows in name order, and nothing overflows. -/
theorem listPage_eq (hwant : q.wantHash fromStr = .ok wantHash)
    (hsize : (t.matching q.scope wantHash).length ≤ usizeMax)
    (hoffset : q.offset.getD 0 ≤ usizeMax) :
    t.listPage fromStr q = .ok (.cut (t.allRows q wantHash) (q.offset.getD 0) q.pageLimit) := by
  have hend := @Page.rows_end_le _ (t.allRows q wantHash) (q.offset.getD 0) q.pageLimit
  simp only [allRows, Page.cut, List.length_map, ← List.map_drop, ← List.map_take] at hend ⊢
  rw [listPage, hwant, Except.bind, if_neg]
  · simp only [List.length_map]
  · rw [List.length_map]
    omega

/-- Paging loses and repeats nothing: the pages of a walk, whatever limits it
asks with, joined are the rows of the matching scopes, which stand in name order.
On its own each page is bounded, knows the total and whether something follows.
A map in memory has a `usize` of entries. -/
theorem listPage_pages (fromStr : String → Option String) (t : BlobScopes) (q : ListQuery)
    (wantHash : Option String) (hwant : q.wantHash fromStr = .ok wantHash)
    (hsize : t.scopes.keys.card ≤ usizeMax) :
    (∀ name sc, (name, sc) ∈ t.matching q.scope wantHash ↔
      t.get name = some sc ∧ (∀ want ∈ q.scope, want = name) ∧ ∀ h ∈ wantHash, h ∈ sc.hashes) ∧
    (t.matching q.scope wantHash).Pairwise (·.1 < ·.1) ∧
    (∀ limits : Nat → Option Nat, (∀ k, ∀ limit ∈ limits k, 1 ≤ limit) →
      ∃ pages, walk
          (fun offset limit =>
            (t.listPage fromStr { q with offset := some offset, limit }).toOption)
          limits ((t.matching q.scope wantHash).length + 1) 0 0 = some pages ∧
        pages.flatMap Page.rows = t.allRows q wantHash ∧
        ∀ p ∈ pages, p.total = (t.matching q.scope wantHash).length) ∧
    ∀ offset limit : Option Nat, (∀ o ∈ offset, o ≤ usizeMax) →
      ∃ p, t.listPage fromStr { q with offset, limit } = .ok p ∧
        p.rows.length ≤ MAX_LIST_LIMIT ∧
        p.total = (t.matching q.scope wantHash).length ∧
        (p.truncated = true ↔
          (t.matching q.scope wantHash).drop (offset.getD 0 + p.rows.length) ≠ []) := by
  have hlength : (t.allRows q wantHash).length = (t.matching q.scope wantHash).length :=
    List.length_map ..
  have hmatching := (@length_matching_le t q.scope wantHash).trans hsize
  refine ⟨fun name sc => mem_matching, pairwise_matching, ?_, ?_⟩
  · intro limits hlimits
    have hfetch : ∀ offset ≤ (t.allRows q wantHash).length, ∀ limit : Option Nat,
        (t.listPage fromStr { q with offset := some offset, limit }).toOption =
          some (.cut (t.allRows q wantHash) offset
            (min (limit.getD DEFAULT_LIST_LIMIT) MAX_LIST_LIMIT)) := by
      intro offset hoffset limit
      rw [listPage_eq (q := { q with offset := some offset, limit }) hwant hmatching
        (hoffset.trans (hlength ▸ hmatching))]
      rfl
    have hpositive : ∀ k, 1 ≤ min ((limits k).getD DEFAULT_LIST_LIMIT) MAX_LIST_LIMIT := by
      intro k
      refine Nat.le_min.mpr ⟨?_, by decide⟩
      cases hlimit : limits k with
      | none => decide
      | some limit => exact hlimits k limit hlimit
    obtain ⟨pages, hwalk, hrows, htotal⟩ := walk_cut hfetch hpositive
      ((t.matching q.scope wantHash).length + 1) 0 0 (Nat.zero_le _) (by omega)
    exact ⟨pages, hwalk, hrows, fun p hp => (htotal p hp).trans hlength⟩
  · intro offset limit hoffset
    have hbound : offset.getD 0 ≤ usizeMax := by
      cases offset with
      | none => exact Nat.zero_le _
      | some o => exact hoffset o rfl
    refine ⟨_, listPage_eq (q := { q with offset, limit }) hwant hmatching hbound, ?_, hlength, ?_⟩
    · exact Page.rows_length_le.trans (Nat.min_le_right ..)
    · rw [Page.truncated_iff, allRows, ← List.map_drop, ne_eq, List.map_eq_nil_iff]

/-- A table of two scopes, asked for the one that lists a hash, past its end. -/
theorem listPage_pages_of_two :
    let hex := String.ofList (List.replicate 64 'a')
    let t := (BlobScopes.empty.publishHash "b" hex).publishHash "a" "c0"
    let q : ListQuery :=
      { scope := none, hash := some hex, limit := none, offset := none, countsOnly := true }
    ∃ p, t.listPage some { q with offset := some usizeMax, limit := some usizeMax } = .ok p ∧
      p.rows.length ≤ MAX_LIST_LIMIT ∧ p.total = (t.matching none (some hex)).length :=
  have ⟨p, hp, hrows, htotal, _⟩ := (listPage_pages some
    ((BlobScopes.empty.publishHash "b" (String.ofList (List.replicate 64 'a'))).publishHash "a"
      "c0")
    { scope := none, hash := some (String.ofList (List.replicate 64 'a')), limit := none
      offset := none, countsOnly := true } (some (String.ofList (List.replicate 64 'a')))
    (by decide +kernel) (by decide +kernel)).2.2.2 (some usizeMax) (some usizeMax)
    (by simp)
  ⟨p, hp, hrows, htotal⟩

end Pages

end BlobScopes

end Mcpmesh
