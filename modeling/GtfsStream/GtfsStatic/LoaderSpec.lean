import GtfsStream.GtfsStatic.Loader

/-!
# What the loader accepts

For each part of `load`, the tables on which it succeeds, and those on which it raises an error that
is neither a `FileNotFoundError` nor a `ValueError`. The rows are read one after the other, so the
first bad row decides. Together they say which directories are accepted (`Acceptable`) and on which
ones an error escapes its handlers (`LoadEscapes`).

## Two questions for each part

A part is a sequence of smaller parts, each of which returns, raises an error that is caught, or
raises one that escapes. So for each of them there are two lemmas: when it returns, and when its
error escapes. A sequence returns if all of its parts do; its error escapes if that of some part
does while all those before it return. The conditions are on the cells of the rows, and where there
are several bad rows they say which one comes first.
-/

namespace GtfsStream.Loader

open Dictionary GtfsStatic
open Calendar (dateString)

variable {py : Python} {dir : Directory} {today : ℤ}

/-! ## Errors that escape -/

/-- The computation raises an error that no handler of a reload catches. -/
def Escapes {α : Type} (x : Except LoadError α) : Prop := Raises (fun e ↦ e.isCaught = false) x

section

variable {ρ α β σ : Type} {a : α} {e : LoadError} {x : Except LoadError α}

@[simp] theorem not_escapes_ok : ¬Escapes (.ok a : Except LoadError α) := not_raises_ok

theorem escapes_error : Escapes (.error e : Except LoadError α) ↔ e.isCaught = false := raises_error

theorem not_escapes_error (h : e.isCaught = true) : ¬Escapes (.error e : Except LoadError α) :=
  fun h' ↦ Bool.false_ne_true ((escapes_error.mp h').symm.trans h)

theorem escapes_bind {f : α → Except LoadError β} :
    Escapes (x >>= f) ↔ Escapes x ∨ ∃ a, x = .ok a ∧ Escapes (f a) := raises_bind

theorem Escapes.not_succeeds (h : Escapes x) : ¬Succeeds x := by
  rintro ⟨a, rfl⟩
  exact not_escapes_ok h

theorem escapes_bind_iff {f : α → Except LoadError β} {Q : Prop}
    (h : ∀ a, x = .ok a → (Escapes (f a) ↔ Q)) :
    Escapes (x >>= f) ↔ Escapes x ∨ Succeeds x ∧ Q := by
  rw [escapes_bind]
  refine or_congr_right ⟨?_, ?_⟩
  · rintro ⟨a, ha, hf⟩
    exact ⟨⟨a, ha⟩, (h a ha).mp hf⟩
  · rintro ⟨⟨a, ha⟩, hQ⟩
    exact ⟨a, ha, (h a ha).mpr hQ⟩

theorem escapes_map {g : α → β} : Escapes (x.map g) ↔ Escapes x := raises_map

theorem escapes_applyAll {update : ρ → Except LoadError (σ → σ)} {rows : List ρ} {s : σ} :
    Escapes (applyAll update rows s) ↔
      Reaches (fun r ↦ Succeeds (update r)) (fun r ↦ Escapes (update r)) rows := raises_applyAll

theorem escapes_fill {κ ν : Type} [DecidableEq κ] {entry : ρ → Except LoadError (κ × ν)}
    {rows : List ρ} : Escapes (fill entry rows) ↔
      Reaches (fun r ↦ Succeeds (entry r)) (fun r ↦ Escapes (entry r)) rows := raises_fill

end

/-! ## The tables -/

/-- The required files can be read, and have the required columns. -/
structure Opens (dir : Directory) (tables : Tables) : Prop where
  trips : dir.trips = .table tables.trips
  stopTimes : dir.stopTimes = .table tables.stopTimes
  stops : dir.stops = .table tables.stops
  routes : dir.routes = .table tables.routes
  tripColumns : ∀ c ∈ requiredColumns "trips.txt", c ∈ tables.trips.columns
  stopTimeColumns : ∀ c ∈ requiredColumns "stop_times.txt", c ∈ tables.stopTimes.columns
  stopColumns : ∀ c ∈ requiredColumns "stops.txt", c ∈ tables.stops.columns
  routeColumns : ∀ c ∈ requiredColumns "routes.txt", c ∈ tables.routes.columns

theorem readCsv_eq_ok_iff {ρ : Type} {filename : String} {file : Csv ρ} {df : Frame ρ} :
    readCsv filename file = .ok df ↔ file = .table df := by
  cases file with
  | table df' => exact ⟨fun h ↦ congrArg _ (Except.ok.inj h), fun h ↦ congrArg _ (Csv.table.inj h)⟩
  | absent => exact iff_of_false nofun nofun
  | unreadable e => exact iff_of_false nofun nofun

theorem not_escapes_readCsv {ρ : Type} {filename : String} {file : Csv ρ} :
    ¬Escapes (readCsv filename file) := by
  cases file with
  | table df => exact not_escapes_ok
  | absent => exact not_escapes_error rfl
  | unreadable e => exact not_escapes_error rfl

theorem validateColumns_eq_ok_iff {filename : String} {columns : List String} {u : Unit} :
    validateColumns filename columns = .ok u ↔
      ∀ c ∈ requiredColumns filename, c ∈ columns := by
  have hnil : (requiredColumns filename).filter (· ∉ columns) = [] ↔
      ∀ c ∈ requiredColumns filename, c ∈ columns := by
    simp only [List.filter_eq_nil_iff, decide_eq_true_iff, not_not]
  rw [validateColumns, ← hnil]
  by_cases h : (requiredColumns filename).filter (· ∉ columns) = []
  · exact iff_of_true (if_neg (not_not_intro h)) h
  · rw [if_pos h]
    exact iff_of_false nofun h

theorem not_escapes_validateColumns {filename : String} {columns : List String} :
    ¬Escapes (validateColumns filename columns) := by
  rw [validateColumns]
  split_ifs with h
  · exact not_escapes_error rfl
  · exact not_escapes_ok

theorem validateFilesExist_eq_ok_iff :
    validateFilesExist dir = .ok () ↔ ∀ file ∈ dir.requiredFiles, file.2 = true := by
  have hnil : (dir.requiredFiles.filter fun file ↦ !file.2).map Prod.fst = [] ↔
      ∀ file ∈ dir.requiredFiles, file.2 = true := by
    simp only [List.map_eq_nil_iff, List.filter_eq_nil_iff, Bool.not_eq_true', Bool.not_eq_false]
  rw [validateFilesExist, ← hnil]
  by_cases h : (dir.requiredFiles.filter fun file ↦ !file.2).map Prod.fst = []
  · exact iff_of_true (if_neg (not_not_intro h)) h
  · rw [if_pos h]
    exact iff_of_false nofun h

theorem not_escapes_validateFilesExist : ¬Escapes (validateFilesExist dir) := by
  rw [validateFilesExist]
  split_ifs with h
  · exact not_escapes_error rfl
  · exact not_escapes_ok

theorem Opens.present {tables : Tables} (h : Opens dir tables) :
    ∀ file ∈ dir.requiredFiles, file.2 = true := by
  rw [Directory.requiredFiles, h.trips, h.stopTimes, h.stops, h.routes]
  simp only [List.forall_mem_cons, List.not_mem_nil, false_imp_iff, implies_true, and_true]
  exact ⟨rfl, rfl, rfl, rfl⟩

theorem openTables_eq_ok_iff {tables : Tables} :
    openTables dir = .ok tables ↔ Opens dir tables := by
  simp only [openTables, bind_eq_ok, readCsv_eq_ok_iff, validateColumns_eq_ok_iff]
  constructor
  · rintro ⟨-, -, trips, htrips, stopTimes, hstopTimes, stops, hstops, routes, hroutes, -, htc, -,
      hstc, -, hsc, -, hrc, h⟩
    obtain rfl := Except.ok.inj h
    exact ⟨htrips, hstopTimes, hstops, hroutes, htc, hstc, hsc, hrc⟩
  · intro h
    exact ⟨(), validateFilesExist_eq_ok_iff.mpr h.present, _, h.trips, _, h.stopTimes, _, h.stops,
      _, h.routes, (), h.tripColumns, (), h.stopTimeColumns, (), h.stopColumns, (), h.routeColumns,
      rfl⟩

theorem Opens.unique {tables tables' : Tables} (h : Opens dir tables) (h' : Opens dir tables') :
    tables = tables' :=
  Except.ok.inj ((openTables_eq_ok_iff.mpr h).symm.trans (openTables_eq_ok_iff.mpr h'))

/-- A missing file, an unreadable file and a missing column are all caught. -/
theorem not_escapes_openTables : ¬Escapes (openTables dir) := by
  simp only [openTables, escapes_bind, not_or, not_exists, not_and]
  exact ⟨not_escapes_validateFilesExist, fun _ _ ↦ ⟨not_escapes_readCsv, fun _ _ ↦
    ⟨not_escapes_readCsv, fun _ _ ↦ ⟨not_escapes_readCsv, fun _ _ ↦ ⟨not_escapes_readCsv,
    fun _ _ ↦ ⟨not_escapes_validateColumns, fun _ _ ↦ ⟨not_escapes_validateColumns, fun _ _ ↦
    ⟨not_escapes_validateColumns, fun _ _ ↦ ⟨not_escapes_validateColumns,
    fun _ _ ↦ not_escapes_ok⟩⟩⟩⟩⟩⟩⟩⟩⟩

/-! ## Cells -/

theorem escapes_toInt_iff {cell : Cell} :
    Escapes (cell.toInt py) ↔ ∃ negative, cell = .infinity negative := by
  cases cell with
  | infinity negative => exact iff_of_true (escapes_error.mpr rfl) ⟨negative, rfl⟩
  | missing => exact iff_of_false (not_escapes_error rfl) nofun
  | text s =>
    refine iff_of_false ?_ nofun
    rw [Cell.toInt]
    cases readInt py s with
    | none => exact not_escapes_error rfl
    | some n => exact not_escapes_ok
  | int n => exact iff_of_false not_escapes_ok nofun
  | float q => exact iff_of_false not_escapes_ok nofun
  | bool b => exact iff_of_false not_escapes_ok nofun

theorem not_escapes_gtfsTimeToSeconds {text : String} : ¬Escapes (gtfsTimeToSeconds py text) := by
  rw [gtfsTimeToSeconds]
  split
  · exact not_escapes_ok
  · exact not_escapes_error rfl

theorem not_escapes_timeCell {cell : Cell} : ¬Escapes (timeCell py cell) := by
  rw [timeCell]
  split_ifs
  · exact not_escapes_ok
  · exact fun h ↦ not_escapes_gtfsTimeToSeconds (escapes_map.mp h)

theorem not_escapes_toFloat {cell : Cell} : ¬Escapes (cell.toFloat py) := by
  cases cell with
  | text s =>
    rw [Cell.toFloat]
    cases py.readFloat s with
    | none => exact not_escapes_error rfl
    | some x => exact not_escapes_ok
  | _ => exact not_escapes_ok

theorem not_escapes_coordinate {columns : List String} {name : String} {cell : Cell} :
    ¬Escapes (coordinate py columns name cell) := by
  rw [coordinate]
  split_ifs
  · exact fun h ↦ not_escapes_toFloat (escapes_map.mp h)
  · exact not_escapes_ok

/-! ## The services -/

theorem getAttribute_eq_ok_iff {α : Type} {columns : List String} {name : String}
    {value a : α} : getAttribute columns name value = .ok a ↔ name ∈ columns ∧ value = a := by
  rw [getAttribute]
  split_ifs with h
  · rw [and_iff_right h]
    exact ⟨Except.ok.inj, congrArg _⟩
  · exact iff_of_false nofun fun h' ↦ h h'.1

theorem escapes_getAttribute {α : Type} {columns : List String} {name : String} {value : α} :
    Escapes (getAttribute columns name value) ↔ name ∉ columns := by
  rw [getAttribute]
  split_ifs with h
  · exact iff_of_false not_escapes_ok (not_not_intro h)
  · exact iff_of_true (escapes_error.mpr rfl) h

/-- The columns that a row of `calendar.txt` is asked for. -/
def CalendarRow.Fine (today : ℤ) (columns : List String) (row : CalendarRow) : Prop :=
  "start_date" ∈ columns ∧ "end_date" ∈ columns ∧
    ((∃ d ∈ targetDates today, row.activeOn columns d = true) → "service_id" ∈ columns)

theorem succeeds_calendarRow {columns : List String} {row : CalendarRow} :
    Succeeds (calendarRow today columns row) ↔ row.Fine today columns := by
  simp only [calendarRow, succeeds_bind, getAttribute_eq_ok_iff, CalendarRow.Fine,
    exists_and_left, and_assoc, exists_eq_left', ← List.any_eq_true]
  refine and_congr_right fun _ ↦ and_congr_right fun _ ↦ ?_
  split_ifs with h
  · rw [imp_iff_right h, succeeds_bind]
    simp only [getAttribute_eq_ok_iff, and_assoc, exists_and_left, exists_eq_left']
    exact and_iff_left succeeds_ok
  · exact iff_of_true succeeds_ok fun h' ↦ absurd h' h

theorem escapes_calendarRow {columns : List String} {row : CalendarRow} :
    Escapes (calendarRow today columns row) ↔ ¬row.Fine today columns := by
  simp only [calendarRow, escapes_bind, getAttribute_eq_ok_iff, CalendarRow.Fine,
    exists_and_left, and_assoc, exists_eq_left', ← List.any_eq_true]
  simp only [escapes_getAttribute, not_and_or]
  refine or_congr_right' fun hstart ↦ ?_
  rw [and_iff_right (not_not.mp hstart)]
  refine or_congr_right' fun hend ↦ ?_
  rw [and_iff_right (not_not.mp hend)]
  split_ifs with h
  · rw [imp_iff_right h, escapes_bind, escapes_getAttribute, or_iff_left]
    exact fun ⟨_, _, h⟩ ↦ not_escapes_ok h
  · exact iff_of_false not_escapes_ok (not_not_intro fun h' ↦ absurd h' h)

/-- The columns that a row of `calendar_dates.txt` is asked for, and the number. -/
def CalendarDateRow.Fine (py : Python) (today : ℤ) (columns : List String)
    (row : CalendarDateRow) : Prop :=
  "date" ∈ columns ∧ (str row.date ∈ targetStrs today →
    "service_id" ∈ columns ∧ "exception_type" ∈ columns ∧ Succeeds (row.exceptionType.toInt py))

/-- What of these escapes where it is missing: the columns, and a number that is finite. -/
def CalendarDateRow.Escaping (today : ℤ) (columns : List String) (row : CalendarDateRow) : Prop :=
  "date" ∉ columns ∨ str row.date ∈ targetStrs today ∧
    ("service_id" ∉ columns ∨ "exception_type" ∉ columns ∨
      ∃ negative, row.exceptionType = .infinity negative)

theorem succeeds_calendarDateRow {columns : List String} {row : CalendarDateRow} :
    Succeeds (calendarDateRow py today columns row) ↔ row.Fine py today columns := by
  simp only [calendarDateRow, succeeds_bind, getAttribute_eq_ok_iff, CalendarDateRow.Fine,
    and_assoc, exists_and_left, exists_eq_left']
  refine and_congr_right fun _ ↦ ?_
  by_cases hdate : str row.date ∈ targetStrs today
  · rw [if_neg (not_not_intro hdate), imp_iff_right hdate]
    simp only [succeeds_bind, getAttribute_eq_ok_iff, and_assoc, exists_and_left, exists_eq_left']
    refine and_congr_right fun _ ↦ and_congr_right fun _ ↦ exists_congr fun n ↦ ?_
    refine and_iff_left ?_
    split_ifs <;> exact succeeds_ok
  · rw [if_pos hdate]
    exact iff_of_true succeeds_ok fun h ↦ absurd h hdate

theorem escapes_calendarDateRow {columns : List String} {row : CalendarDateRow} :
    Escapes (calendarDateRow py today columns row) ↔ row.Escaping today columns := by
  simp only [calendarDateRow, escapes_bind, getAttribute_eq_ok_iff,
    CalendarDateRow.Escaping, and_assoc, exists_and_left, exists_eq_left']
  rw [escapes_getAttribute]
  refine or_congr_right' fun hcolumn ↦ ?_
  rw [and_iff_right (not_not.mp hcolumn)]
  by_cases hdate : str row.date ∈ targetStrs today
  · rw [if_neg (not_not_intro hdate), and_iff_right hdate]
    simp only [escapes_bind, getAttribute_eq_ok_iff, and_assoc, exists_and_left, exists_eq_left']
    rw [escapes_getAttribute, escapes_getAttribute, escapes_toInt_iff]
    refine or_congr_right' fun hservice ↦ ?_
    rw [and_iff_right (not_not.mp hservice)]
    refine or_congr_right' fun htype ↦ ?_
    rw [and_iff_right (not_not.mp htype), or_iff_left]
    rintro ⟨n, -, h⟩
    split_ifs at h <;> exact not_escapes_ok h
  · rw [if_pos hdate]
    exact iff_of_false not_escapes_ok fun h ↦ hdate h.1

/-- An optional file is not there, or can be read or skipped. -/
def Csv.Readable {ρ : Type} (file : Csv ρ) : Prop := file ≠ .unreadable .value

/-- The table in an optional file. -/
def Csv.frame {ρ : Type} : Csv ρ → Frame ρ
  | table df => df
  | _ => ⟨[], []⟩

theorem readOptional_eq_ok_iff {ρ : Type} {filename : String} {file : Csv ρ} {df : Frame ρ} :
    readOptional filename file = .ok df ↔ file.Readable ∧ file.frame = df := by
  have hok (df' : Frame ρ) : (Except.ok df' : Except LoadError _) = .ok df ↔ df' = df :=
    ⟨Except.ok.inj, congrArg _⟩
  cases file with
  | absent => exact (hok _).trans (and_iff_right nofun).symm
  | table df' => exact (hok _).trans (and_iff_right nofun).symm
  | unreadable e =>
    cases e with
    | value => exact iff_of_false nofun fun h ↦ h.1 rfl
    | emptyData => exact (hok _).trans (and_iff_right nofun).symm
    | parser => exact (hok _).trans (and_iff_right nofun).symm

theorem not_escapes_readOptional {ρ : Type} {filename : String} {file : Csv ρ} :
    ¬Escapes (readOptional filename file) := by
  cases file with
  | absent => exact not_escapes_ok
  | table df => exact not_escapes_ok
  | unreadable e =>
    cases e with
    | value => exact not_escapes_error rfl
    | emptyData => exact not_escapes_ok
    | parser => exact not_escapes_ok

theorem Csv.absent_of_not_present {ρ : Type} {file : Csv ρ} (h : file.isPresent = false) :
    file = .absent := by
  cases file with
  | absent => rfl
  | unreadable e => exact nomatch h
  | table df => exact nomatch h

/-- The calendar files can be read, and their rows are fine. -/
def ServicesFine (py : Python) (dir : Directory) (today : ℤ) : Prop :=
  dir.calendar.Readable ∧
    (∀ row ∈ dir.calendar.frame.rows, row.Fine today dir.calendar.frame.columns) ∧
    dir.calendarDates.Readable ∧
    ∀ row ∈ dir.calendarDates.frame.rows, row.Fine py today dir.calendarDates.frame.columns

/-- A row of `calendar.txt` is not fine, or the first row of `calendar_dates.txt` that is not fine
raises an error that escapes. -/
def ServicesEscape (py : Python) (dir : Directory) (today : ℤ) : Prop :=
  dir.calendar.Readable ∧
    ((∃ row ∈ dir.calendar.frame.rows, ¬row.Fine today dir.calendar.frame.columns) ∨
      (∀ row ∈ dir.calendar.frame.rows, row.Fine today dir.calendar.frame.columns) ∧
      dir.calendarDates.Readable ∧
      Reaches (CalendarDateRow.Fine py today dir.calendarDates.frame.columns)
        (CalendarDateRow.Escaping today dir.calendarDates.frame.columns)
        dir.calendarDates.frame.rows)

theorem succeeds_buildActiveServiceIds :
    Succeeds (buildActiveServiceIds py dir today) ↔ ServicesFine py dir today := by
  rw [buildActiveServiceIds, ServicesFine]
  by_cases habsent : (!dir.calendar.isPresent) = true ∧ (!dir.calendarDates.isPresent) = true
  · -- neither file is there, so there are no rows
    rw [if_pos habsent]
    simp only [Bool.not_eq_true'] at habsent
    rw [Csv.absent_of_not_present habsent.1, Csv.absent_of_not_present habsent.2]
    refine iff_of_true succeeds_ok ⟨nofun, fun _ h ↦ ?_, nofun, fun _ h ↦ ?_⟩
    · exact absurd h List.not_mem_nil
    · exact absurd h List.not_mem_nil
  · rw [if_neg habsent, succeeds_bind]
    simp only [readOptional_eq_ok_iff, and_assoc, exists_and_left, exists_eq_left']
    refine and_congr_right fun _ ↦ ?_
    rw [succeeds_bind]
    have hdates (active : Finset String) : Succeeds (do
        let calDates ← readOptional "calendar_dates.txt" dir.calendarDates
        let active ← applyAll (calendarDateRow py today calDates.columns) calDates.rows active
        return if active = ∅ then none else some active) ↔ dir.calendarDates.Readable ∧
          ∀ row ∈ dir.calendarDates.frame.rows,
            row.Fine py today dir.calendarDates.frame.columns := by
      rw [succeeds_bind]
      simp only [readOptional_eq_ok_iff, and_assoc, exists_and_left, exists_eq_left']
      refine and_congr_right fun _ ↦ ?_
      rw [succeeds_bind]
      simp only [← succeeds_calendarDateRow, ← succeeds_applyAll (s := active)]
      exact exists_congr fun _ ↦ and_iff_left succeeds_ok
    simp only [hdates, exists_and_right, ← succeeds_calendarRow]
    rw [← succeeds_applyAll (s := (∅ : Finset String))]
    rfl

theorem escapes_buildActiveServiceIds :
    Escapes (buildActiveServiceIds py dir today) ↔ ServicesEscape py dir today := by
  rw [buildActiveServiceIds, ServicesEscape]
  by_cases habsent : (!dir.calendar.isPresent) = true ∧ (!dir.calendarDates.isPresent) = true
  · rw [if_pos habsent]
    simp only [Bool.not_eq_true'] at habsent
    rw [Csv.absent_of_not_present habsent.1, Csv.absent_of_not_present habsent.2]
    refine iff_of_false not_escapes_ok ?_
    rintro ⟨-, ⟨row, hrow, -⟩ | ⟨-, -, h⟩⟩
    · exact List.not_mem_nil hrow
    · exact not_reaches_nil h
  · rw [if_neg habsent, escapes_bind, or_iff_right not_escapes_readOptional]
    simp only [readOptional_eq_ok_iff, and_assoc, exists_and_left, exists_eq_left']
    refine and_congr_right fun _ ↦ ?_
    rw [escapes_bind, escapes_applyAll]
    simp only [succeeds_calendarRow, escapes_calendarRow, reaches_not]
    refine or_congr_right ?_
    -- whether the exceptions escape does not depend on the services so far
    have hdates (active : Finset String) : Escapes (do
        let calDates ← readOptional "calendar_dates.txt" dir.calendarDates
        let active ← applyAll (calendarDateRow py today calDates.columns) calDates.rows active
        return if active = ∅ then none else some active) ↔ dir.calendarDates.Readable ∧
          Reaches (CalendarDateRow.Fine py today dir.calendarDates.frame.columns)
            (CalendarDateRow.Escaping today dir.calendarDates.frame.columns)
            dir.calendarDates.frame.rows := by
      rw [escapes_bind, or_iff_right not_escapes_readOptional]
      simp only [readOptional_eq_ok_iff, and_assoc, exists_and_left, exists_eq_left']
      refine and_congr_right fun _ ↦ ?_
      rw [escapes_bind, or_iff_left fun ⟨_, _, h⟩ ↦ not_escapes_ok h, escapes_applyAll]
      simp only [succeeds_calendarDateRow, escapes_calendarDateRow]
    simp only [hdates, exists_and_right, ← succeeds_calendarRow]
    rw [← succeeds_applyAll (s := (∅ : Finset String))]
    rfl

/-! ## The filter -/

variable {tables : Tables} {selection : Selection}

theorem succeeds_filterServices : Succeeds (filterServices py dir today tables) ↔
    ("service_id" ∈ tables.trips.columns → ServicesFine py dir today) := by
  rw [filterServices]
  split_ifs with h
  · rw [succeeds_buildActiveServiceIds, imp_iff_right h]
  · exact iff_of_true succeeds_ok fun h' ↦ absurd h' h

theorem escapes_filterServices : Escapes (filterServices py dir today tables) ↔
    "service_id" ∈ tables.trips.columns ∧ ServicesEscape py dir today := by
  rw [filterServices]
  split_ifs with h
  · rw [escapes_buildActiveServiceIds, and_iff_right h]
  · exact iff_of_false not_escapes_ok fun h' ↦ h h'.1

theorem selectRows_eq_ok_iff : selectRows py dir today tables = .ok selection ↔
    (∃ active, filterServices py dir today tables = .ok (some active) ∧
      selection = keepActive tables active) ∨
    filterServices py dir today tables = .ok none ∧
      tables.stopTimes.rows.length ≤ maxUnfilteredStopTimes ∧
      selection = ⟨tables.trips, tables.stopTimes, false⟩ := by
  rw [selectRows, bind_eq_ok]
  constructor
  · rintro ⟨_ | active, hfilter, h⟩
    · dsimp only at h
      by_cases hlength : maxUnfilteredStopTimes < tables.stopTimes.rows.length
      · rw [if_pos hlength] at h
        cases h
      · rw [if_neg hlength] at h
        exact Or.inr ⟨hfilter, not_lt.mp hlength, (Except.ok.inj h).symm⟩
    · exact Or.inl ⟨active, hfilter, (Except.ok.inj h).symm⟩
  · rintro (⟨active, hfilter, rfl⟩ | ⟨hfilter, hlength, rfl⟩)
    · exact ⟨some active, hfilter, rfl⟩
    · exact ⟨none, hfilter, if_neg (not_lt.mpr hlength)⟩

theorem succeeds_selectRows : Succeeds (selectRows py dir today tables) ↔
    ("service_id" ∈ tables.trips.columns → ServicesFine py dir today) ∧
      (filterServices py dir today tables = .ok none →
        tables.stopTimes.rows.length ≤ maxUnfilteredStopTimes) := by
  rw [← succeeds_filterServices]
  constructor
  · rintro ⟨selection, h⟩
    rcases selectRows_eq_ok_iff.mp h with ⟨active, hfilter, -⟩ | ⟨hfilter, hlength, -⟩
    · exact ⟨⟨_, hfilter⟩, fun h ↦ nomatch Except.ok.inj (hfilter.symm.trans h)⟩
    · exact ⟨⟨_, hfilter⟩, fun _ ↦ hlength⟩
  · rintro ⟨⟨_ | active, hfilter⟩, hlength⟩
    · exact ⟨_, selectRows_eq_ok_iff.mpr (Or.inr ⟨hfilter, hlength hfilter, rfl⟩)⟩
    · exact ⟨_, selectRows_eq_ok_iff.mpr (Or.inl ⟨active, hfilter, rfl⟩)⟩

theorem escapes_selectRows : Escapes (selectRows py dir today tables) ↔
    "service_id" ∈ tables.trips.columns ∧ ServicesEscape py dir today := by
  rw [selectRows, escapes_bind, escapes_filterServices, or_iff_left]
  rintro ⟨_ | active, -, h⟩
  · dsimp only at h
    by_cases hlength : maxUnfilteredStopTimes < tables.stopTimes.rows.length
    · rw [if_pos hlength] at h
      exact not_escapes_error rfl h
    · rw [if_neg hlength] at h
      exact not_escapes_ok h
  · exact not_escapes_ok h

theorem selection_columns (h : selectRows py dir today tables = .ok selection) :
    selection.trips.columns = tables.trips.columns ∧
      selection.stopTimes.columns = tables.stopTimes.columns := by
  rcases selectRows_eq_ok_iff.mp h with ⟨active, -, rfl⟩ | ⟨-, -, rfl⟩ <;> exact ⟨rfl, rfl⟩

end GtfsStream.Loader
