import Mcpmesh.Audit.Reading
import Mcpmesh.Audit.Timestamps

/-!
# Mcpmesh.Audit.Retention

The months of the audit log that are kept (`node/src/audit/mod.rs`; the retention
of `node/src/daemon/boot.rs`).

`retention_cutoff` goes back from the current month in the calendar, and
`prune_before` deletes what compares below its key; a removal may fail, and ends
the pruning.
-/

namespace Mcpmesh

open Lib

/-! ## the cutoff -/

/-- `i64::from_str`, of digits: a month key has no sign. -/
def parseDigits (cs : List Char) : Option Int :=
  if !cs.isEmpty && cs.all Char.isDigit then some (Nat.ofDigitChars 10 cs 0) else none

/-- The oldest month to keep, of `retain_months` that end with the current one. -/
def retentionCutoff (current : String) (retainMonths : UInt32) : Option String := do
  if retainMonths = 0 || !validMonthKey current then
    none
  else
    let year ← parseDigits (current.toList.take 4)
    let month ← parseDigits ((current.toList.drop 5).take 2)
    -- months from January of the year 0, back to the oldest that is kept
    let total := year * 12 + (month - 1) - (retainMonths - 1).toNat
    if total < 0 then none
    else some (monthText (total / 12).toNat (total % 12 + 1).toNat)

/-- The month of an index. -/
def monthAt (i : Int) : Month where
  year := i / 12
  month := (i % 12 + 1).toNat
  one_le := by omega
  le_twelve := by omega

/-- The month at an index has that index. -/
theorem index_monthAt (i : Int) : (monthAt i).index = i := by
  simp only [monthAt, Month.index]
  omega

/-- Digits parse to their number. -/
theorem parseDigits_of_digits {cs : List Char} (hne : cs ≠ []) (h : ∀ c ∈ cs, c.isDigit = true) :
    parseDigits cs = some ↑(Nat.ofDigitChars 10 cs 0) := by
  have hempty : cs.isEmpty = false := List.isEmpty_eq_false_iff.mpr hne
  rw [parseDigits, hempty, List.all_eq_true.mpr h]
  rfl

namespace MonthKey

variable (c : MonthKey)

/-- The first four characters of a key are its year. -/
theorem parse_year : parseDigits (c.text.toList.take 4) = some c.month.year := by
  refine parseDigits_of_digits (fun h => ?_) c.keyChars.year_digits
  have hfour := c.keyChars.year_length
  rw [yearChars, h] at hfour
  cases hfour

/-- The last two characters of a key are its month. -/
theorem parse_month : parseDigits ((c.text.toList.drop 5).take 2) = some ↑c.month.month := by
  have hall : (c.text.toList.drop 5).take 2 = c.monthChars :=
    List.take_of_length_le c.keyChars.month_length.le
  rw [hall]
  refine parseDigits_of_digits (fun h => ?_) c.keyChars.month_digits
  have htwo := c.keyChars.month_length
  rw [h] at htwo
  cases htwo

/-- The cutoff is `n - 1` months before the current one, if that is a month. -/
theorem retentionCutoff_eq {n : UInt32} (hn : 1 ≤ n) : retentionCutoff c.text n =
    if c.month.index - (n.toNat - 1) < 0 then none
    else some (monthAt (c.month.index - (n.toNat - 1))).key := by
  have hpos : 1 ≤ n.toNat := UInt32.le_iff_toNat_le.mp hn
  have hzero : n ≠ 0 := by
    rintro rfl
    exact absurd hpos (by decide)
  have hsub : (n - 1).toNat = n.toNat - 1 := UInt32.toNat_sub_of_le _ _ hn
  have hcond : (decide (n = 0) || !validMonthKey c.text) = false := by
    rw [c.valid, decide_eq_false hzero]
    rfl
  have htotal : c.month.year * 12 + (↑c.month.month - 1) - ((n - 1).toNat : Int) =
      c.month.index - (n.toNat - 1) := by
    rw [hsub, Month.index]
    omega
  unfold retentionCutoff
  rw [hcond, if_neg Bool.false_ne_true, c.parse_year, Option.bind_eq_bind, Option.bind_some,
    c.parse_month, Option.bind_some]
  simp only [htotal]
  rfl

/-- The cutoff is a month key, `n - 1` months before the current one. -/
theorem retentionCutoff_eq_some {n : UInt32} (hn : 1 ≤ n) {cutoff : String}
    (h : retentionCutoff c.text n = some cutoff) :
    ∃ o : Month, o.HasKey ∧ o.key = cutoff ∧ o.index = c.month.index - (n.toNat - 1) := by
  have hpos : 1 ≤ n.toNat := UInt32.le_iff_toNat_le.mp hn
  obtain ⟨hyear, hyear'⟩ := c.hasKey_month
  rw [c.retentionCutoff_eq hn] at h
  split at h
  · cases h
  · next hge =>
    refine ⟨monthAt (c.month.index - (n.toNat - 1)), ?_, Option.some.inj h, index_monthAt _⟩
    have hle := c.month.le_twelve
    have hone := c.month.one_le
    simp only [Month.HasKey, monthAt, Month.index] at hge ⊢
    omega

/-- Without a cutoff every month that has a key is kept. -/
theorem retentionCutoff_eq_none {n : UInt32} (hn : 1 ≤ n)
    (h : retentionCutoff c.text n = none) : c.month.index - (n.toNat - 1) < 0 := by
  rw [c.retentionCutoff_eq hn] at h
  split at h
  · assumption
  · cases h

end MonthKey

/-! ## pruning -/

namespace AuditDir

/-- The files whose entries can be read. -/
def files : AuditDir → List AuditFile
  | .present entries => entries.filterMap Except.toOption
  | .missing | .unreadable _ => []

/-- `std::fs::remove_file`, where it succeeds. -/
def removeFile (name : String) : AuditDir → AuditDir
  | .present entries =>
      .present (entries.filter fun entry => entry.toOption.all fun file => file.name ≠ name)
  | .missing => .missing
  | .unreadable message => .unreadable message

/-- A removal takes out the file of that name only. -/
theorem mem_files_removeFile {name : String} {dir : AuditDir} {file : AuditFile} :
    file ∈ (dir.removeFile name).files ↔ file ∈ dir.files ∧ file.name ≠ name := by
  cases dir with
  | missing => simp [removeFile, files]
  | unreadable => simp [removeFile, files]
  | present entries =>
      simp only [removeFile, files, List.mem_filterMap, List.mem_filter, toOption_eq_some]
      constructor
      · rintro ⟨entry, ⟨hentry, hname⟩, rfl⟩
        exact ⟨⟨_, hentry, rfl⟩, of_decide_eq_true hname⟩
      · rintro ⟨⟨entry, hentry, rfl⟩, hname⟩
        exact ⟨_, ⟨hentry, decide_eq_true hname⟩, rfl⟩

end AuditDir

section Prune

variable (fault : AuditFile → Option String) (before : String)

/-- The loop of `prune_before`; `fault` is the error of removing a file. -/
def removeMonths : List (String × AuditFile) → AuditDir →
    AuditDir × Except AuditReadError (List String)
  | [], dir => (dir, .ok [])
  | month :: months, dir =>
      if month.1 < before then
        match fault month.2 with
        | some message => (dir, .error (.io message))
        | none =>
            let rest := removeMonths months (dir.removeFile month.2.name)
            (rest.1, rest.2.map (month.1 :: ·))
      else removeMonths months dir

/-- Delete every monthly file strictly older than `before`: what is left of the
directory, and the deleted months. -/
def pruneBefore (dir : AuditDir) : AuditDir × Except AuditReadError (List String) :=
  match listMonthFiles dir with
  | .error e => (dir, .error e)
  | .ok months => removeMonths fault before months dir

end Prune

/-- The retention at boot: prune up to the cutoff, if there is one. -/
def retain (fault : AuditFile → Option String) (current : String) (retainMonths : UInt32)
    (dir : AuditDir) : AuditDir × Except AuditReadError (List String) :=
  match retentionCutoff current retainMonths with
  | some cutoff => pruneBefore fault cutoff dir
  | none => (dir, .ok [])

/-- A directory that can be listed has only files that can. -/
theorem mapM_entries {entries : List (Except String AuditFile)} {files : List AuditFile}
    (h : entries.mapM (fun entry => entry.mapError AuditReadError.io) = .ok files) :
    entries.filterMap Except.toOption = files := by
  induction entries generalizing files with
  | nil =>
      cases h
      rfl
  | cons entry entries ih =>
      rw [List.mapM_cons, bind_eq_ok] at h
      obtain ⟨file, hfile, h⟩ := h
      obtain ⟨rest, hrest, h⟩ := bind_eq_ok.mp h
      cases h
      rw [mapError_eq_ok] at hfile
      rw [hfile, List.filterMap_cons, ih hrest]
      rfl

/-- The listing has the files whose names are months. -/
theorem mem_of_listMonthFiles {dir : AuditDir} {months : List (String × AuditFile)}
    (h : listMonthFiles dir = .ok months) {month : String} {file : AuditFile} :
    (month, file) ∈ months ↔ file ∈ dir.files ∧ monthOfFilename file.name = some month := by
  cases dir with
  | missing =>
      cases h
      simp [AuditDir.files]
  | unreadable message => cases h
  | present entries =>
      rw [listMonthFiles, bind_eq_ok] at h
      obtain ⟨files, hfiles, h⟩ := h
      cases h
      rw [List.mem_mergeSort, AuditDir.files, mapM_entries hfiles, List.mem_filterMap]
      constructor
      · rintro ⟨other, hother, hmonth⟩
        obtain ⟨m, hm, hpair⟩ := Option.map_eq_some_iff.mp hmonth
        cases hpair
        exact ⟨hother, hm⟩
      · rintro ⟨hfile, hmonth⟩
        exact ⟨file, hfile, by rw [hmonth]; rfl⟩

section Pruned

variable {fault : AuditFile → Option String} {before : String} {dir : AuditDir}
  {months : List (String × AuditFile)} {file : AuditFile}

/-- What the loop does with a month: pass it, end at its error, or remove it and go
on. -/
theorem removeMonths_cons (month : String × AuditFile) :
    ¬ month.1 < before ∧
        removeMonths fault before (month :: months) dir = removeMonths fault before months dir ∨
      (∃ message, fault month.2 = some message ∧
        removeMonths fault before (month :: months) dir = (dir, .error (.io message))) ∨
      month.1 < before ∧ removeMonths fault before (month :: months) dir =
        ((removeMonths fault before months (dir.removeFile month.2.name)).1,
          (removeMonths fault before months (dir.removeFile month.2.name)).2.map
            (month.1 :: ·)) := by
  rw [removeMonths]
  by_cases hold : month.1 < before
  · rw [if_pos hold]
    cases hfault : fault month.2 with
    | some message => exact .inr (.inl ⟨message, rfl, rfl⟩)
    | none => exact .inr (.inr ⟨hold, rfl⟩)
  · rw [if_neg hold]
    exact .inl ⟨hold, rfl⟩

/-- What goes has the name of a listed file of an older month. -/
theorem older_of_removeMonths (hfile : file ∈ dir.files)
    (hgone : file ∉ (removeMonths fault before months dir).1.files) :
    ∃ month ∈ months, month.1 < before ∧ file.name = month.2.name := by
  induction months generalizing dir with
  | nil => exact absurd hfile hgone
  | cons month months ih =>
      have hlater : (∃ other ∈ months, other.1 < before ∧ file.name = other.2.name) →
          ∃ other ∈ month :: months, other.1 < before ∧ file.name = other.2.name := by
        rintro ⟨other, hother, hold⟩
        exact ⟨other, List.mem_cons_of_mem month hother, hold⟩
      rcases removeMonths_cons month with ⟨-, heq⟩ | ⟨message, -, heq⟩ | ⟨hold, heq⟩
      · rw [heq] at hgone
        exact hlater (ih hfile hgone)
      · rw [heq] at hgone
        exact absurd hfile hgone
      · rw [heq] at hgone
        by_cases hname : file.name = month.2.name
        · exact ⟨month, List.mem_cons_self, hold, hname⟩
        · exact hlater (ih (AuditDir.mem_files_removeFile.mpr ⟨hfile, hname⟩) hgone)

/-- A sweep adds no file. -/
theorem mem_of_removeMonths (h : file ∈ (removeMonths fault before months dir).1.files) :
    file ∈ dir.files := by
  induction months generalizing dir with
  | nil => exact h
  | cons month months ih =>
      rcases removeMonths_cons month with ⟨-, heq⟩ | ⟨message, -, heq⟩ | ⟨-, heq⟩
      · rw [heq] at h
        exact ih h
      · rw [heq] at h
        exact h
      · rw [heq] at h
        exact (AuditDir.mem_files_removeFile.mp (ih h)).1

/-- A loop that ends has removed and named every older month. -/
theorem removeMonths_eq_ok {deleted : List String}
    (h : (removeMonths fault before months dir).2 = .ok deleted) :
    deleted = (months.filter fun month => month.1 < before).map Prod.fst ∧
      ∀ month ∈ months, month.1 < before →
        month.2 ∉ (removeMonths fault before months dir).1.files := by
  induction months generalizing dir deleted with
  | nil =>
      cases h
      exact ⟨rfl, fun _ hmonth => absurd hmonth List.not_mem_nil⟩
  | cons month months ih =>
      rcases removeMonths_cons month with ⟨hnew, heq⟩ | ⟨message, -, heq⟩ | ⟨hold, heq⟩
      · rw [heq] at h ⊢
        obtain ⟨hdeleted, hgone⟩ := ih h
        refine ⟨?_, ?_⟩
        · rw [List.filter_cons_of_neg (by simpa using hnew), hdeleted]
        · rintro other hother holder
          rcases List.mem_cons.mp hother with rfl | hother
          · exact absurd holder hnew
          · exact hgone other hother holder
      · rw [heq] at h
        cases h
      · rw [heq] at h ⊢
        cases hrest : (removeMonths fault before months (dir.removeFile month.2.name)).2 with
        | error e =>
            rw [hrest] at h
            cases h
        | ok rest =>
            rw [hrest] at h
            cases h
            obtain ⟨hdeleted, hgone⟩ := ih hrest
            refine ⟨?_, ?_⟩
            · rw [List.filter_cons_of_pos (by simpa using hold), List.map_cons, hdeleted]
            · rintro other hother holder
              rcases List.mem_cons.mp hother with rfl | hother
              · intro hleft
                exact (AuditDir.mem_files_removeFile.mp (mem_of_removeMonths hleft)).2 rfl
              · exact hgone other hother holder

/-- A sweep without a fault succeeds. -/
theorem removeMonths_isOk (h : ∀ month ∈ months, fault month.2 = none) :
    (removeMonths fault before months dir).2.isOk = true := by
  induction months generalizing dir with
  | nil => rfl
  | cons month months ih =>
      have hrest := fun dir =>
        @ih dir fun other hother => h other (List.mem_cons_of_mem month hother)
      rcases removeMonths_cons month with ⟨-, heq⟩ | ⟨message, hfault, heq⟩ | ⟨-, heq⟩
      · rw [heq]
        exact hrest dir
      · rw [h month List.mem_cons_self] at hfault
        cases hfault
      · obtain ⟨deleted, hdeleted⟩ := isOk_iff.mp (hrest (dir.removeFile month.2.name))
        rw [heq, hdeleted]
        rfl

/-- Whatever fails, what goes is a file of an older month. -/
theorem older_of_pruneBefore (hfile : file ∈ dir.files)
    (hgone : file ∉ (pruneBefore fault before dir).1.files) :
    ∃ month, monthOfFilename file.name = some month ∧ month < before := by
  unfold pruneBefore at hgone
  cases hlist : listMonthFiles dir with
  | error e =>
      rw [hlist] at hgone
      exact absurd hfile hgone
  | ok months =>
      rw [hlist] at hgone
      obtain ⟨month, hmonth, hold, hname⟩ := older_of_removeMonths hfile hgone
      refine ⟨month.1, ?_, hold⟩
      rw [hname]
      exact ((mem_of_listMonthFiles hlist).mp hmonth).2

/-- After a sweep that succeeded the files before its bound are gone. -/
theorem gone_of_pruneBefore (hok : (pruneBefore fault before dir).2.isOk = true)
    (hfile : file ∈ dir.files) {month : String} (hmonth : monthOfFilename file.name = some month)
    (hold : month < before) : file ∉ (pruneBefore fault before dir).1.files := by
  unfold pruneBefore at hok ⊢
  cases hlist : listMonthFiles dir with
  | error e =>
      rw [hlist] at hok
      cases hok
  | ok months =>
      rw [hlist] at hok
      obtain ⟨deleted, hdeleted⟩ := isOk_iff.mp hok
      exact (removeMonths_eq_ok hdeleted).2 (month, file)
        ((mem_of_listMonthFiles hlist).mpr ⟨hfile, hmonth⟩) hold

/-- A pruning without a fault succeeds. -/
theorem pruneBefore_isOk (hlist : (listMonthFiles dir).isOk = true)
    (hfault : ∀ file ∈ dir.files, fault file = none) :
    (pruneBefore fault before dir).2.isOk = true := by
  obtain ⟨months, hmonths⟩ := isOk_iff.mp hlist
  rw [pruneBefore, hmonths]
  exact removeMonths_isOk fun month hmonth =>
    hfault month.2 ((mem_of_listMonthFiles hmonths).mp hmonth).1

end Pruned

/-! ## the window -/

section Window

variable {fault : AuditFile → Option String} {dir : AuditDir} {c : MonthKey} {n : UInt32}
  {file : AuditFile}

/-- A month key compares below the cutoff when its month is more than `n - 1`
months before the current one. -/
theorem key_lt_cutoff_iff (hn : 1 ≤ n) {cutoff : String}
    (h : retentionCutoff c.text n = some cutoff) (m : MonthKey) :
    m.text < cutoff ↔ ∃ k, n.toNat - 1 < k ∧ Month.next^[k] m.month = c.month := by
  have hpos : 1 ≤ n.toNat := UInt32.le_iff_toNat_le.mp hn
  obtain ⟨o, hkey, rfl, hindex⟩ := c.retentionCutoff_eq_some hn h
  rw [← m.key_month, m.hasKey_month.key_lt_iff hkey, Month.lt_iff_index, hindex]
  constructor
  · intro hlt
    refine ⟨(c.month.index - m.month.index).toNat, ?_, ?_⟩
    · omega
    · rw [Month.iterate_next_eq_iff]
      omega
  · rintro ⟨k, hk, hnext⟩
    rw [Month.iterate_next_eq_iff] at hnext
    omega

/-- Without a cutoff no month that has a key is out of the window. -/
theorem not_before_window (hn : 1 ≤ n) (h : retentionCutoff c.text n = none) (m : MonthKey) :
    ¬ ∃ k, n.toNat - 1 < k ∧ Month.next^[k] m.month = c.month := by
  have hpos : 1 ≤ n.toNat := UInt32.le_iff_toNat_le.mp hn
  have hneg := c.retentionCutoff_eq_none hn h
  have hzero := m.hasKey_month.1
  have hone := m.month.one_le
  rintro ⟨k, hk, hnext⟩
  rw [Month.iterate_next_eq_iff] at hnext
  simp only [Month.index] at hneg hnext
  omega

/-- A file that is gone was before the window. -/
theorem before_window_of_gone (hn : 1 ≤ n) {m : MonthKey} (hfile : file ∈ dir.files)
    (hmonth : monthOfFilename file.name = some m.text)
    (hgone : file ∉ (retain fault c.text n dir).1.files) :
    ∃ k, n.toNat - 1 < k ∧ Month.next^[k] m.month = c.month := by
  unfold retain at hgone
  cases hcutoff : retentionCutoff c.text n with
  | none =>
      rw [hcutoff] at hgone
      exact absurd hfile hgone
  | some cutoff =>
      rw [hcutoff] at hgone
      obtain ⟨month, hmonth', hold⟩ := older_of_pruneBefore hfile hgone
      obtain rfl := Option.some.inj (hmonth.symm.trans hmonth')
      exact (key_lt_cutoff_iff hn hcutoff m).mp hold

/-- A file before the window is gone. -/
theorem gone_of_before_window (hn : 1 ≤ n) (hok : (retain fault c.text n dir).2.isOk = true)
    {m : MonthKey} (hfile : file ∈ dir.files)
    (hmonth : monthOfFilename file.name = some m.text)
    (hbefore : ∃ k, n.toNat - 1 < k ∧ Month.next^[k] m.month = c.month) :
    file ∉ (retain fault c.text n dir).1.files := by
  unfold retain at hok ⊢
  cases hcutoff : retentionCutoff c.text n with
  | none => exact absurd hbefore (not_before_window hn hcutoff m)
  | some cutoff =>
      rw [hcutoff] at hok
      exact gone_of_pruneBefore hok hfile hmonth ((key_lt_cutoff_iff hn hcutoff m).mpr hbefore)

/-- The file of a record of the window is kept, by the clock that stamped it. -/
theorem record_kept (hn : 1 ≤ n) {past now : Nat}
    (hpast : (dateOfMillis past).month.year < 10000)
    (hnow : (dateOfMillis now).month.year < 10000) {ts current : String}
    (hts : fmtRfc3339Millis past = some ts) (hcurrent : fmtRfc3339Millis now = some current)
    (hfile : file ∈ dir.files) (hname : monthOfFilename file.name = some (auditMonth ts))
    (hwindow : (dateOfMillis now).month.index - (dateOfMillis past).month.index < n.toNat) :
    file ∈ (retain fault (auditMonth current) n dir).1.files := by
  have hkey := hasKey_dateOfMillis hpast
  have hkey' := hasKey_dateOfMillis hnow
  rw [fmtRfc3339Millis_eq hpast, Option.some.injEq] at hts
  rw [fmtRfc3339Millis_eq hnow, Option.some.injEq] at hcurrent
  rw [← hts, auditMonth_stampChars hkey] at hname
  rw [← hcurrent, auditMonth_stampChars hkey']
  by_contra hgone
  obtain ⟨k, hk, hnext⟩ := @before_window_of_gone fault dir hkey'.monthKey n file hn hkey.monthKey
    hfile hname hgone
  rw [Month.iterate_next_eq_iff, hkey.month_monthKey, hkey'.month_monthKey] at hnext
  omega

end Window

/-- The months that are kept are those of the window: of the monthly files, the
pruning deletes those of more than `n - 1` calendar months before the current
one, and never one of the current month or a later one; where a removal fails,
the files after it stay. -/
theorem retention_window (fault : AuditFile → Option String) (dir : AuditDir) (c : MonthKey)
    {n : UInt32} (hn : 1 ≤ n) :
    (∀ cutoff, retentionCutoff c.text n = some cutoff → validMonthKey cutoff = true) ∧
      ((listMonthFiles dir).isOk = true → (∀ file ∈ dir.files, fault file = none) →
        (retain fault c.text n dir).2.isOk = true) ∧
      ∀ m : MonthKey, ∀ file ∈ dir.files, monthOfFilename file.name = some m.text →
        ((retain fault c.text n dir).2.isOk = true →
          (file ∉ (retain fault c.text n dir).1.files ↔
            ∃ k, n.toNat - 1 < k ∧ Month.next^[k] m.month = c.month)) ∧
        (file ∉ (retain fault c.text n dir).1.files →
          ∃ k, n.toNat - 1 < k ∧ Month.next^[k] m.month = c.month) ∧
        (c.text ≤ m.text → file ∈ (retain fault c.text n dir).1.files) := by
  refine ⟨?_, ?_, ?_⟩
  · intro cutoff hcutoff
    obtain ⟨o, hkey, rfl, -⟩ := c.retentionCutoff_eq_some hn hcutoff
    exact hkey.validMonthKey_key
  · intro hlist hfault
    unfold retain
    cases retentionCutoff c.text n with
    | none => rfl
    | some cutoff => exact pruneBefore_isOk hlist hfault
  · intro m file hfile hmonth
    refine ⟨?_, ?_, ?_⟩
    · intro hok
      exact ⟨before_window_of_gone hn hfile hmonth, gone_of_before_window hn hok hfile hmonth⟩
    · exact before_window_of_gone hn hfile hmonth
    · intro hlater
      by_contra hgone
      obtain ⟨k, hk, hnext⟩ := before_window_of_gone hn hfile hmonth hgone
      rw [Month.iterate_next_eq_iff] at hnext
      have hlt : m.month < c.month := Month.lt_iff_index.mpr (by omega)
      have hkeys := (m.hasKey_month.key_lt_iff c.hasKey_month).mpr hlt
      rw [m.key_month, c.key_month] at hkeys
      exact String.not_lt.mpr hlater hkeys

/-! ## three months up to January -/

namespace ThreeMonths

def january : MonthKey := ⟨"2026-01", by decide +kernel⟩

def november : MonthKey := ⟨"2025-11", by decide +kernel⟩

def october : MonthKey := ⟨"2025-10", by decide +kernel⟩

def file (name : String) : AuditFile := ⟨name, [], none⟩

def dir : AuditDir := .present
  [.ok (file "2026-01.jsonl"), .ok (file "2025-10.jsonl"), .ok (file "2025-11.jsonl"),
    .ok (file "notes.txt")]

def left : List AuditFile := (retain (fun _ => none) january.text 3 dir).1.files

end ThreeMonths

open ThreeMonths in
/-- Three months that end in January begin in November. -/
theorem retention_keeps_november :
    retentionCutoff january.text 3 = some november.text ∧
      (retain (fun _ => none) january.text 3 dir).2.isOk = true ∧
      file "2025-10.jsonl" ∉ left ∧ file "2025-11.jsonl" ∈ left ∧ file "2026-01.jsonl" ∈ left := by
  obtain ⟨-, hdone, hmonths⟩ :=
    retention_window (fun _ => none) dir january (n := 3) (by decide)
  have hok := hdone rfl fun _ _ => rfl
  have hjanuary : january.month.index = 24312 := by decide +kernel
  have hnovember : november.month.index = 24310 := by decide +kernel
  have hoctober : october.month.index = 24309 := by decide +kernel
  refine ⟨by decide +kernel, hok, ?_, ?_, ?_⟩
  · refine ((hmonths october _ ?_ (by decide +kernel)).1 hok).mpr ⟨3, by decide, ?_⟩
    · exact .tail _ (.head _)
    · rw [Month.iterate_next_eq_iff, hjanuary, hoctober]
      decide
  · by_contra hgone
    have hnot := (hmonths november _ (.tail _ (.tail _ (.head _))) (by decide +kernel)).2.1 hgone
    obtain ⟨k, hk, hnext⟩ := hnot
    rw [Month.iterate_next_eq_iff, hjanuary, hnovember] at hnext
    have hk : 3 - 1 < k := hk
    omega
  · exact (hmonths january _ (.head _) (by decide +kernel)).2.2 (String.not_lt.mp (lt_irrefl _))

end Mcpmesh
