import Mcpmesh.Lib.Fallible
import Mcpmesh.Lib.Lines
import Mcpmesh.Lib.Words
import Mathlib.Data.String.Basic

/-!
# Mcpmesh.Audit.Reading

The two ways to read the monthly audit files (`node/src/audit/mod.rs`).
`internal audit` reads every record and filters; `audit_list` streams the files
line by line, counts what matches and keeps one page.  `parse` is
`serde_json::from_str::<AuditRecord>`.

A file is its bytes, up to where reading it fails.  `listPage_eq` says what the
stream computes: the page of the records it selects, which are those that
`filter_records` selects but for the peer (`PrincipalsArePeers`).
-/

namespace Mcpmesh

open Lib

/-- `AuditKind`. -/
inductive AuditKind where
  | sessionOpen
  | sessionClose
  | request
  | blobFetch
  | trust
  deriving DecidableEq

/-- `AuditRecord`, of any kind. -/
structure AuditEntry where
  ts : String
  kind : AuditKind
  peer : Option String
  service : Option String
  method : Option String
  tool : Option String
  argsHash : Option String
  bytesOut : Option Nat
  status : Option String
  latencyMs : Option Nat
  event : Option String
  target : Option String
  principal : Option String
  deriving DecidableEq

inductive AuditReadError where
  | io (message : String)
  /-- not UTF-8 -/
  | invalidData
  deriving DecidableEq

/-- A file: its bytes, and the error of a read after them or of the open. -/
structure AuditFile where
  name : String
  bytes : List UInt8
  fault : Option String

/-- What `read_dir` gives; an entry of a listing may fail. -/
inductive AuditDir where
  | missing
  | unreadable (message : String)
  | present (entries : List (Except String AuditFile))

structure AuditListResult where
  records : List AuditEntry
  total : Nat
  deriving DecidableEq

/-! ## the files -/

/-- The month of a file `YYYY-MM.jsonl`. -/
def monthOfFilename (name : String) : Option String :=
  match name.toList.dropSuffix? ".jsonl".toList with
  | some [a, b, c, d, '-', e, f] =>
      if [a, b, c, d, e, f].all Char.isDigit then some (.ofList [a, b, c, d, '-', e, f]) else none
  | _ => none

def listMonthFiles : AuditDir → Except AuditReadError (List (String × AuditFile))
  | .missing => .ok []
  | .unreadable message => .error (.io message)
  | .present entries => do
      let files ← entries.mapM fun entry => entry.mapError .io
      let months := files.filterMap fun file => (monthOfFilename file.name).map (·, file)
      .ok (months.mergeSort fun a b => a.1 ≤ b.1)

/-- A line without its `\n` or `\r\n`. -/
def stripEol (line : List Char) : List Char :=
  if line.getLast? = some '\n' then
    let line := line.dropLast
    if line.getLast? = some '\r' then line.dropLast else line
  else line

namespace AuditFile

/-- `std::fs::read_to_string`. -/
def readToString (file : AuditFile) : Except AuditReadError (List Char) :=
  match file.fault with
  | some message => .error (.io message)
  | none => okOr (decodeUtf8 file.bytes) .invalidData

/-- `BufRead::lines`: a line that a failed read cuts off does not come. -/
def bufLines (file : AuditFile) : List (Except AuditReadError (List Char)) :=
  let line piece := okOr ((decodeUtf8 piece).map stripEol) .invalidData
  let pieces := splitInclusive (· = 10) file.bytes
  match file.fault with
  | some message =>
      (pieces.filter fun piece => piece.getLast? = some 10).map line ++ [.error (.io message)]
  | none => pieces.map line

end AuditFile

/-- `str::lines`. -/
def linesOf (body : List Char) : List (List Char) := (splitInclusive (· = '\n') body).map stripEol

section Reading

variable (parse : String → Option AuditEntry)

/-- The record of a line: a blank line and an unparseable one are skipped. -/
def lineRecord (line : List Char) : Option AuditEntry :=
  if line.all Words.isWhitespace then none else parse (.ofList line)

/-! ## read, then filter -/

def readRecords (file : AuditFile) : Except AuditReadError (List AuditEntry) := do
  let body ← file.readToString
  .ok ((linesOf body).filterMap (lineRecord parse))

/-- The records of the files, one file after the other. -/
def readMonths (files : List (String × AuditFile)) : Except AuditReadError (List AuditEntry) :=
  files.foldlM (fun out file => do
    let records ← readRecords parse file.2
    .ok (out ++ records)) []

def readAllRecords (dir : AuditDir) : Except AuditReadError (List AuditEntry) := do
  let files ← listMonthFiles dir
  readMonths parse files

/-- The peer as the display name or as the stable principal. -/
def filterRecords (records : List AuditEntry) (kind : Option AuditKind) (peer : Option String) :
    List AuditEntry :=
  (records.filter fun r => kind.all fun k => r.kind = k).filter fun r =>
    peer.all fun p => r.peer = some p || r.principal = some p

/-! ## the stream -/

def inBounds (since until' : Option String) (month : String) : Bool :=
  !(since.any (month < ·) || until'.any (· < month))

/-- The counters of `list_page`. -/
structure PageState where
  total : Nat
  records : List AuditEntry
  toSkip : Nat

/-- A record that matches. -/
def PageState.count (limit : Nat) (st : PageState) (r : AuditEntry) : PageState :=
  let st := { st with total := st.total + 1 }
  if 0 < st.toSkip then { st with toSkip := st.toSkip - 1 }
  else if st.records.length < limit then { st with records := st.records ++ [r] }
  else st

variable (kind : Option AuditKind) (peer : Option String) (limit : Nat)

/-- One line of the loop. -/
def pageLine (st : PageState) (line : List Char) : PageState :=
  match lineRecord parse line with
  | none => st
  | some r =>
      if kind.any fun k => r.kind ≠ k then st
      else if peer.any fun p => r.peer ≠ some p then st
      else st.count limit r

/-- One file of the loop. -/
def pageFile (st : PageState) (file : AuditFile) : Except AuditReadError PageState :=
  file.bufLines.foldlM (fun st line => do
    let line ← line
    .ok (pageLine parse kind peer limit st line)) st

/-- `list_page`. -/
def auditListPage (dir : AuditDir) (since until' : Option String) (offset : Nat) :
    Except AuditReadError AuditListResult := do
  let files ← listMonthFiles dir
  let st ← files.foldlM (fun st file =>
    if inBounds since until' file.1 then pageFile parse kind peer limit st file.2 else .ok st)
    { total := 0, records := [], toSkip := offset }
  .ok { records := st.records, total := st.total }

/-- What the stream counts. -/
def selects (r : AuditEntry) : Bool :=
  (kind.all fun k => r.kind = k) && peer.all fun p => r.peer = some p

/-! ## what the stream computes -/

section Stream

variable {parse kind peer limit} {file : AuditFile} {st : PageState}

/-- One page of the records, on top of what is there. -/
theorem foldl_count (rs : List AuditEntry) :
    rs.foldl (PageState.count limit) st =
      { total := st.total + rs.length
        records := st.records ++ (rs.drop st.toSkip).take (limit - st.records.length)
        toSkip := st.toSkip - rs.length } := by
  induction rs generalizing st with
  | nil => simp
  | cons r rs ih =>
      rw [List.foldl_cons, ih, PageState.count, List.length_cons]
      dsimp only
      split
      · next hskip =>
        obtain ⟨n, hn⟩ := Nat.exists_eq_add_one.mpr hskip
        rw [PageState.mk.injEq, hn, List.drop_succ_cons, Nat.add_sub_cancel]
        dsimp only
        exact ⟨by omega, rfl, by omega⟩
      · next hskip =>
        have hzero : st.toSkip = 0 := by omega
        split
        · next hroom =>
          obtain ⟨n, hn⟩ : ∃ n, limit - st.records.length = n + 1 :=
            ⟨limit - st.records.length - 1, by omega⟩
          have hn' : limit - (st.records.length + 1) = n := by omega
          rw [PageState.mk.injEq, hzero, List.drop_zero, List.drop_zero, hn, List.take_succ_cons,
            List.length_append, List.length_singleton, hn', List.append_assoc,
            List.singleton_append]
          dsimp only
          exact ⟨by omega, rfl, by omega⟩
        · next hfull =>
          have hnone : limit - st.records.length = 0 := by omega
          rw [PageState.mk.injEq, hzero, hnone, List.take_zero, List.take_zero]
          dsimp only
          exact ⟨by omega, rfl, by omega⟩

/-- A line of the page reader: the record it parses to is counted if it is selected. -/
theorem pageLine_eq (line : List Char) : pageLine parse kind peer limit st line =
    ((lineRecord parse line).toList.filter (selects kind peer)).foldl
      (PageState.count limit) st := by
  rw [pageLine]
  cases lineRecord parse line with
  | none => rfl
  | some r =>
      have hselects : selects kind peer r =
          (!(kind.any fun k => r.kind ≠ k) && !peer.any fun p => r.peer ≠ some p) := by
        rw [selects]
        cases kind <;> cases peer <;> simp
      dsimp only [Option.toList]
      rw [List.filter_singleton, hselects]
      cases kind.any fun k => r.kind ≠ k with
      | true => rfl
      | false => cases peer.any fun p => r.peer ≠ some p <;> rfl

/-- The page reader over the lines of a file counts the selected records among them. -/
theorem foldl_pageLine (lines : List (List Char)) :
    lines.foldl (pageLine parse kind peer limit) st =
    ((lines.filterMap (lineRecord parse)).filter (selects kind peer)).foldl
      (PageState.count limit) st := by
  induction lines generalizing st with
  | nil => rfl
  | cons line lines ih =>
      rw [List.foldl_cons, ih, pageLine_eq, ← List.foldl_append, ← List.filter_append]
      cases h : lineRecord parse line with
      | none => rw [List.filterMap_cons_none h]; rfl
      | some r => rw [List.filterMap_cons_some h]; rfl

/-! ## the files, one way and the other -/

/-- A map behind the partial function comes out of the list. -/
theorem mapM_map_option {α β γ : Type} (f : α → Option β) (g : β → γ) (as : List α) :
    (as.mapM fun a => (f a).map g) = (as.mapM f).map (List.map g) := by
  induction as with
  | nil => rfl
  | cons a as ih =>
      rw [List.mapM_cons, List.mapM_cons, ih]
      cases f a with
      | none => rfl
      | some b => cases as.mapM f <;> rfl

/-- Whether a bind answers, the error's text apart. -/
theorem toOption_bind {ε α β : Type} (x : Except ε α) (f : α → Except ε β) :
    (x >>= f).toOption = x.toOption.bind fun a => (f a).toOption := by
  cases x <;> rfl

/-- Lines that fail or not, folded: all are read first, to the same end. -/
theorem foldlM_lines {ε α σ : Type} (f : σ → α → σ) (lines : List (Except ε α)) (st : σ) :
    (lines.foldlM (fun st line => do
      let line ← line
      Except.ok (f st line)) st).toOption =
      (lines.mapM Except.toOption).map fun lines => lines.foldl f st := by
  induction lines generalizing st with
  | nil => rfl
  | cons line lines ih =>
      rw [List.foldlM_cons, toOption_bind]
      cases line with
      | error e => rfl
      | ok a =>
          have hfirst : (do let line ← Except.ok a; .ok (f st line) : Except ε σ).toOption =
              some (f st a) := rfl
          rw [hfirst, Option.bind_some, ih, List.mapM_cons]
          cases lines.mapM Except.toOption <;> rfl

/-- A file that is read line by line is read, or fails, as it is at once. -/
theorem mapM_bufLines (file : AuditFile) : file.bufLines.mapM Except.toOption =
    file.readToString.toOption.map linesOf := by
  rw [AuditFile.bufLines, AuditFile.readToString]
  cases file.fault with
  | some message =>
      dsimp only
      rw [List.mapM_append]
      cases List.mapM Except.toOption _ <;> rfl
  | none =>
      have hpiece : ∀ piece : List UInt8,
          (okOr ((decodeUtf8 piece).map stripEol) AuditReadError.invalidData).toOption =
            (decodeUtf8 piece).map stripEol := by
        intro piece
        cases decodeUtf8 piece <;> rfl
      dsimp only
      rw [List.mapM_map]
      simp only [Function.comp_def, hpiece]
      rw [mapM_map_option, mapM_decodeUtf8]
      cases decodeUtf8 file.bytes <;> rfl

/-- A file of the page reader counts the selected records of that file. -/
theorem pageFile_toOption : (pageFile parse kind peer limit st file).toOption =
    (readRecords parse file).toOption.map fun records =>
      (records.filter (selects kind peer)).foldl (PageState.count limit) st := by
  rw [pageFile, foldlM_lines, mapM_bufLines, readRecords, toOption_bind]
  cases file.readToString with
  | error e => rfl
  | ok body => exact congrArg some (foldl_pageLine _)

/-- The records of each file, where all can be read. -/
def readEach (parse : String → Option AuditEntry) (files : List (String × AuditFile)) :
    Option (List (List AuditEntry)) :=
  files.mapM fun file => (readRecords parse file.2).toOption

theorem readEach_cons (file : String × AuditFile) (files : List (String × AuditFile)) :
    readEach parse (file :: files) = (readRecords parse file.2).toOption.bind fun records =>
      (readEach parse files).map (records :: ·) := by
  rw [readEach, List.mapM_cons]
  cases (readRecords parse file.2).toOption with
  | none => rfl
  | some records => cases h : readEach parse files <;> rw [readEach] at h <;> simp [h]

/-- The whole-log reader gathers the records of each file in turn. -/
theorem foldlM_readRecords (files : List (String × AuditFile)) (out : List AuditEntry) :
    (files.foldlM (fun out (file : String × AuditFile) => do
      let records ← readRecords parse file.2
      Except.ok (out ++ records)) out).toOption =
      (readEach parse files).map fun months => out ++ months.flatten := by
  induction files generalizing out with
  | nil => exact congrArg some (List.append_nil out).symm
  | cons file files ih =>
      rw [List.foldlM_cons, toOption_bind, readEach_cons]
      cases readRecords parse file.2 with
      | error e => rfl
      | ok records =>
          have hfirst : (do let records ← Except.ok records; .ok (out ++ records) :
              Except AuditReadError _).toOption = some (out ++ records) := rfl
          rw [hfirst, Option.bind_some, ih]
          cases readEach parse files with
          | none => rfl
          | some months => exact congrArg some (List.append_assoc ..)

/-- The months out of bounds are skipped, the others counted one after the
other. -/
theorem foldlM_pageFile (inside : String → Bool) (files : List (String × AuditFile)) :
    (files.foldlM (fun st file =>
      if inside file.1 then pageFile parse kind peer limit st file.2 else .ok st) st).toOption =
      (readEach parse (files.filter fun file => inside file.1)).map fun months =>
        (months.flatten.filter (selects kind peer)).foldl (PageState.count limit) st := by
  induction files generalizing st with
  | nil => rfl
  | cons file files ih =>
      rw [List.foldlM_cons, toOption_bind, List.filter_cons]
      cases inside file.1 with
      | false => exact ih
      | true =>
          rw [if_pos rfl, if_pos rfl, pageFile_toOption, readEach_cons]
          cases readRecords parse file.2 with
          | error e => rfl
          | ok records =>
              refine ih.trans ?_
              cases readEach parse (files.filter fun file => inside file.1) with
              | none => rfl
              | some months =>
                  refine congrArg some ?_
                  dsimp only
                  rw [List.flatten_cons, List.filter_append, List.foldl_append]

end Stream

/-! ## the two against each other -/

/-- `read_all_records`, of the months in bounds. -/
def recordsWithin (dir : AuditDir) (since until' : Option String) :
    Except AuditReadError (List AuditEntry) := do
  let files ← listMonthFiles dir
  readMonths parse (files.filter fun file => inBounds since until' file.1)

/-- The page of some records, with their number. -/
def pageOf (records : List AuditEntry) (offset limit : Nat) : AuditListResult :=
  { records := (records.drop offset).take limit, total := records.length }

/-- What `internal audit` shows of the months in bounds, a page of it. -/
def filteredPage (dir : AuditDir) (since until' : Option String) (offset : Nat) :
    Except AuditReadError AuditListResult := do
  let records ← recordsWithin parse dir since until'
  .ok (pageOf (filterRecords records kind peer) offset limit)

/-- No record in bounds, of the kind asked for, has the peer asked for as its
principal only. -/
def PrincipalsArePeers (dir : AuditDir) (since until' : Option String) : Prop :=
  ∀ records, recordsWithin parse dir since until' = .ok records →
    ∀ r ∈ records, (∀ k ∈ kind, r.kind = k) → ∀ p ∈ peer, r.principal = some p → r.peer = some p

section Agreement

variable {parse kind peer limit} {dir : AuditDir} {since until' : Option String} {offset : Nat}

/-- The paged reader answers with the page of the selected records. -/
theorem auditListPage_toOption :
    (auditListPage parse kind peer limit dir since until' offset).toOption =
      (recordsWithin parse dir since until').toOption.map fun records =>
        pageOf (records.filter (selects kind peer)) offset limit := by
  rw [auditListPage, recordsWithin, toOption_bind, toOption_bind]
  cases listMonthFiles dir with
  | error e => rfl
  | ok files =>
      have hok : (Except.ok files : Except AuditReadError _).toOption = some files := rfl
      rw [hok, Option.bind_some, Option.bind_some, toOption_bind, foldlM_pageFile, readMonths,
        foldlM_readRecords]
      cases readEach parse (files.filter fun file => inBounds since until' file.1) with
      | none => rfl
      | some months =>
          rw [Option.map_some, Option.bind_some, Option.map_some, Option.map_some, foldl_count,
            List.nil_append]
          exact congrArg some (by simp [pageOf])

/-- What the paged reader's filter selects. -/
theorem selects_iff {r : AuditEntry} : selects kind peer r = true ↔
    (∀ k ∈ kind, r.kind = k) ∧ ∀ p ∈ peer, r.peer = some p := by
  simp only [selects, Bool.and_eq_true, Option.all_eq_true, decide_eq_true_eq, Option.mem_def]

/-- What the whole-log reader's filter selects. -/
theorem mem_filterRecords {records : List AuditEntry} {r : AuditEntry} :
    r ∈ filterRecords records kind peer ↔ r ∈ records ∧ (∀ k ∈ kind, r.kind = k) ∧
      ∀ p ∈ peer, r.peer = some p ∨ r.principal = some p := by
  simp only [filterRecords, List.mem_filter, Option.all_eq_true, decide_eq_true_eq,
    Bool.or_eq_true, Option.mem_def, and_assoc]

/-- The stream selects some of what `filter_records` selects, in its order. -/
theorem filter_selects (records : List AuditEntry) : records.filter (selects kind peer) =
    (filterRecords records kind peer).filter (selects kind peer) := by
  rw [filterRecords, List.filter_filter, List.filter_filter]
  refine List.filter_congr fun r _ => ?_
  cases h : selects kind peer r with
  | false => rfl
  | true =>
      obtain ⟨hkind, hpeer⟩ := selects_iff.mp h
      rw [eq_comm, Bool.and_eq_true, Bool.and_eq_true, Option.all_eq_true, Option.all_eq_true]
      refine ⟨⟨rfl, fun p hp => ?_⟩, fun k hk => decide_eq_true (hkind k hk)⟩
      rw [decide_eq_true (hpeer p hp), Bool.true_or]

/-- The two select alike where they select as much. -/
theorem pageOf_eq_iff {records : List AuditEntry} :
    pageOf (records.filter (selects kind peer)) offset limit =
        pageOf (filterRecords records kind peer) offset limit ↔
      ∀ r ∈ records, (∀ k ∈ kind, r.kind = k) →
        ∀ p ∈ peer, r.principal = some p → r.peer = some p := by
  constructor
  · intro h r hr hkind p hp hprincipal
    have hlength : (records.filter (selects kind peer)).length =
        (filterRecords records kind peer).length := congrArg AuditListResult.total h
    rw [filter_selects, List.length_filter_eq_length_iff] at hlength
    have hfound : r ∈ filterRecords records kind peer :=
      mem_filterRecords.mpr ⟨hr, hkind, fun p' hp' => .inr (Option.mem_unique hp hp' ▸ hprincipal)⟩
    exact (selects_iff.mp (hlength r hfound)).2 p hp
  · intro h
    rw [filter_selects, List.filter_eq_self.mpr]
    intro r hr
    obtain ⟨hr, hkind, hpeer⟩ := mem_filterRecords.mp hr
    exact selects_iff.mpr ⟨hkind, fun p hp => (hpeer p hp).elim id (h r hr hkind p hp)⟩

end Agreement

end Reading

/-- **When the two read paths agree**: exactly when no record in bounds, of the
kind asked for, has the peer asked for as its principal only. -/
theorem read_paths_agree_iff (parse : String → Option AuditEntry) (dir : AuditDir)
    (since until' : Option String) (kind : Option AuditKind) (peer : Option String)
    (limit offset : Nat) :
    (auditListPage parse kind peer limit dir since until' offset).toOption =
        (filteredPage parse kind peer limit dir since until' offset).toOption ↔
      PrincipalsArePeers parse kind peer dir since until' := by
  rw [auditListPage_toOption, filteredPage, toOption_bind, PrincipalsArePeers]
  cases recordsWithin parse dir since until' with
  | error e => exact iff_of_true rfl (fun records h => by contradiction)
  | ok records =>
      have hpage : (Except.ok records : Except AuditReadError _).toOption = some records := rfl
      rw [hpage, Option.map_some, Option.bind_some]
      refine (Option.some_inj.trans pageOf_eq_iff).trans ?_
      exact ⟨fun h records' h' => Except.ok.inj h' ▸ h, fun h => h records rfl⟩

namespace OneSession

def line : String :=
  "\x7b\"ts\":\"2026-07-01T00:00:00.000Z\",\"kind\":\"session_open\",\"peer\":\"bob\"," ++
    "\"service\":\"notes\",\"principal\":\"eid:aa\"\x7d"

def entry : AuditEntry :=
  { ts := "2026-07-01T00:00:00.000Z", kind := .sessionOpen, peer := some "bob"
    service := some "notes", method := none, tool := none, argsHash := none, bytesOut := none
    status := none, latencyMs := none, event := none, target := none, principal := some "eid:aa" }

def parse (text : String) : Option AuditEntry := if text = line then some entry else none

/-- One month, with the line of one session. -/
def dir : AuditDir :=
  .present [.ok { name := "2026-07.jsonl", bytes := encodeUtf8 (line.toList ++ ['\n']),
                  fault := none }]

theorem records : recordsWithin parse dir none none = .ok [entry] := by
  have hlines : (linesOf (line.toList ++ ['\n'])).filterMap (lineRecord parse) = [entry] := by
    decide +kernel
  have hmonth : monthOfFilename "2026-07.jsonl" = some "2026-07" := by decide +kernel
  simp [recordsWithin, dir, listMonthFiles, readMonths, readRecords, AuditFile.readToString,
    decodeUtf8_encodeUtf8, hmonth, inBounds, hlines, pure, Except.pure]

end OneSession

/-- A session is found by the principal of its record in the one and not in the
other. -/
theorem principal_selected_once :
    ¬ ∀ (parse : String → Option AuditEntry) (dir : AuditDir) (since until' : Option String)
      (kind : Option AuditKind) (peer : Option String) (limit offset : Nat),
        (auditListPage parse kind peer limit dir since until' offset).toOption =
          (filteredPage parse kind peer limit dir since until' offset).toOption := by
  intro h
  have hagree := h OneSession.parse OneSession.dir none none none (some "eid:aa") 10 0
  rw [auditListPage_toOption, filteredPage, OneSession.records] at hagree
  exact absurd hagree (by decide)

end Mcpmesh
