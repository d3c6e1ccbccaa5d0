import GtfsStream.GtfsStatic.LoaderSpec
import Mathlib.Data.List.MinMax
import Mathlib.Data.Sum.Order

/-!
# What the lookups are built from

The rows that each lookup accepts, and those on which an error escapes (`LookupsEscape`). The
terminals compare the cells of a trip as pandas read them, so they need texts or numbers only
(`Comparable`). With the tables and the services this says which directories `load` accepts
(`Acceptable`), and on which ones it lets an error escape (`LoadEscapes`).

## The terminals

The terminals of a trip are the stops of its smallest and its largest sequence, found by a loop that
compares cell with cell. Numbers can be compared, and so can texts, but a number and a text raise an
error that escapes. The loop keeps the best row so far, and what it ends with is the first extreme
row. A trip whose extreme rows name no stop has no terminals; that raises nothing.
-/

namespace GtfsStream.Loader

open Dictionary GtfsStatic

variable {py : Python} {dir : Directory} {today : ℤ}

/-! ## Directions -/

variable (py) in
theorem succeeds_toInt_of_isZeroOrOne {cell : Cell} (h : cell.isZeroOrOne = true) :
    Succeeds (cell.toInt py) := by
  cases cell with
  | int n => exact succeeds_ok
  | float q => exact succeeds_ok
  | bool b => exact succeeds_ok
  | missing => exact absurd h (by decide)
  | infinity negative => exact absurd h (by revert negative; decide)
  | text s => simp [Cell.isZeroOrOne, Cell.isOne] at h

theorem succeeds_directionEntry {tripId : String} {cell : Cell} :
    Succeeds (directionEntry py tripId cell) ↔ cell.isZeroOrOne = true := by
  rw [directionEntry, succeeds_bind]
  cases h : cell.isZeroOrOne with
  | true =>
    obtain ⟨n, hn⟩ := succeeds_toInt_of_isZeroOrOne py h
    exact iff_of_true ⟨n, hn, succeeds_ok⟩ rfl
  | false => exact iff_of_false (fun ⟨_, _, h⟩ ↦ not_succeeds_error h) Bool.false_ne_true

theorem escapes_directionEntry {tripId : String} {cell : Cell} :
    Escapes (directionEntry py tripId cell) ↔ ∃ negative, cell = .infinity negative := by
  rw [directionEntry, escapes_bind, escapes_toInt_iff, or_iff_left]
  rintro ⟨n, -, h⟩
  cases hcell : cell.isZeroOrOne with
  | true =>
    rw [hcell] at h
    exact not_escapes_ok h
  | false =>
    rw [hcell] at h
    exact not_escapes_error rfl h

/-! ## Stop times and stops -/

/-- The sequence is a number and not negative, and the times are times. -/
def StopTimeRow.Fine (py : Python) (row : StopTimeRow) : Prop :=
  (∃ n, row.stopSequence.toInt py = .ok n ∧ 0 ≤ n) ∧ Succeeds (timeCell py row.arrivalTime) ∧
    Succeeds (timeCell py row.departureTime)

theorem succeeds_stopTimeEntry {columns : List String} {row : StopTimeRow} :
    Succeeds (stopTimeEntry py columns row) ↔ row.Fine py := by
  rw [stopTimeEntry, succeeds_bind, StopTimeRow.Fine, ← exists_and_right]
  refine exists_congr fun n ↦ ?_
  rw [and_assoc]
  refine and_congr_right fun _ ↦ ?_
  by_cases hn : n < 0
  · rw [if_pos hn]
    exact iff_of_false not_succeeds_error fun h ↦ absurd hn (not_lt.mpr h.1)
  · rw [if_neg hn, and_iff_right (not_lt.mp hn), succeeds_bind]
    simp only [succeeds_bind]
    constructor
    · rintro ⟨a, ha, d, hd, -⟩
      exact ⟨⟨a, ha⟩, d, hd⟩
    · rintro ⟨⟨a, ha⟩, d, hd⟩
      exact ⟨a, ha, d, hd, succeeds_ok⟩

theorem escapes_stopTimeEntry {columns : List String} {row : StopTimeRow} :
    Escapes (stopTimeEntry py columns row) ↔ ∃ negative, row.stopSequence = .infinity negative := by
  rw [stopTimeEntry, escapes_bind, escapes_toInt_iff, or_iff_left]
  rintro ⟨n, -, h⟩
  by_cases hn : n < 0
  · rw [if_pos hn] at h
    exact not_escapes_error rfl h
  · rw [if_neg hn, escapes_bind, or_iff_right not_escapes_timeCell] at h
    obtain ⟨a, -, h⟩ := h
    rw [escapes_bind, or_iff_right not_escapes_timeCell] at h
    obtain ⟨d, -, h⟩ := h
    exact not_escapes_ok h

/-- The coordinates are numbers. -/
def StopRow.Fine (py : Python) (columns : List String) (row : StopRow) : Prop :=
  Succeeds (coordinate py columns "stop_lat" row.stopLat) ∧
    Succeeds (coordinate py columns "stop_lon" row.stopLon)

theorem succeeds_stopEntry {columns : List String} {row : StopRow} :
    Succeeds (stopEntry py columns row) ↔ row.Fine py columns := by
  rw [stopEntry, succeeds_bind, StopRow.Fine]
  simp only [succeeds_bind]
  constructor
  · rintro ⟨lat, hlat, lon, hlon, -⟩
    exact ⟨⟨lat, hlat⟩, lon, hlon⟩
  · rintro ⟨⟨lat, hlat⟩, lon, hlon⟩
    exact ⟨lat, hlat, lon, hlon, succeeds_ok⟩

theorem not_escapes_stopEntry {columns : List String} {row : StopRow} :
    ¬Escapes (stopEntry py columns row) := by
  rw [stopEntry, escapes_bind, or_iff_right not_escapes_coordinate]
  rintro ⟨lat, -, h⟩
  rw [escapes_bind, or_iff_right not_escapes_coordinate] at h
  obtain ⟨lon, -, h⟩ := h
  exact not_escapes_ok h

/-! ## Terminals -/

/-- The cell in the order of its kind. -/
def StopTimeRow.rank (row : StopTimeRow) : String ⊕ₗ WithBot (WithTop ℚ) :=
  toLex row.stopSequence.key

/-- The sequence was read as a text. -/
def StopTimeRow.IsText (row : StopTimeRow) : Prop := row.stopSequence.key.isLeft = true

theorem keyLt_of_iff {x y : String ⊕ WithBot (WithTop ℚ)}
    (h : x.isLeft = true ↔ y.isLeft = true) :
    ∃ less, keyLt x y = .ok less ∧ (less = true ↔ toLex x < toLex y) := by
  rcases x with s | x <;> rcases y with t | y
  · exact ⟨_, rfl, decide_eq_true_iff.trans Sum.Lex.inl_lt_inl_iff.symm⟩
  · exact absurd (h.mp rfl) Bool.false_ne_true
  · exact absurd (h.mpr rfl) Bool.false_ne_true
  · exact ⟨_, rfl, decide_eq_true_iff.trans Sum.Lex.inr_lt_inr_iff.symm⟩

theorem keyLt_of_not_iff {x y : String ⊕ WithBot (WithTop ℚ)}
    (h : ¬(x.isLeft = true ↔ y.isLeft = true)) : keyLt x y = .error .incomparable := by
  rcases x with s | x <;> rcases y with t | y
  · exact absurd (iff_of_true rfl rfl) h
  · rfl
  · rfl
  · exact absurd (iff_of_false Bool.false_ne_true Bool.false_ne_true) h

/-- The row comes before the other one in the order that is looked for. -/
def Before (largest : Bool) (row best : StopTimeRow) : Prop :=
  if largest then best.rank < row.rank else row.rank < best.rank

open Classical in
theorem betterRow_of_iff {largest : Bool} {row best : StopTimeRow}
    (hrow : row.stopSequence ≠ .missing) (h : row.IsText ↔ best.IsText) :
    betterRow largest (some best) row =
      .ok (List.argAux (Before largest) (some best) row) := by
  have hpick (less : Bool) (hless : less = true ↔ Before largest row best) :
      (if less = true then some row else some best) =
        List.argAux (Before largest) (some best) row := by
    rw [List.argAux]
    exact if_congr hless rfl rfl
  rw [betterRow, if_neg hrow]
  cases largest with
  | true =>
    obtain ⟨less, hlt, hless⟩ := keyLt_of_iff h.symm
    dsimp only
    rw [if_pos rfl, Cell.lt, hlt]
    exact congrArg _ (hpick less hless)
  | false =>
    obtain ⟨less, hlt, hless⟩ := keyLt_of_iff h
    dsimp only
    rw [if_neg Bool.false_ne_true, Cell.lt, hlt]
    exact congrArg _ (hpick less hless)

theorem betterRow_of_not_iff {largest : Bool} {row best : StopTimeRow}
    (hrow : row.stopSequence ≠ .missing) (h : ¬(row.IsText ↔ best.IsText)) :
    betterRow largest (some best) row = .error .incomparable := by
  rw [betterRow, if_neg hrow]
  cases largest with
  | true =>
    dsimp only
    rw [if_pos rfl, Cell.lt, keyLt_of_not_iff fun h' ↦ h h'.symm]
    rfl
  | false =>
    dsimp only
    rw [if_neg Bool.false_ne_true, Cell.lt, keyLt_of_not_iff h]
    rfl

/-- All sequences are texts, or all are numbers. -/
def Uniform (rows : List StopTimeRow) : Prop :=
  ∀ row ∈ rows, ∀ row' ∈ rows, row.IsText ↔ row'.IsText

open Classical in
theorem foldlM_betterRow {largest : Bool} {rows : List StopTimeRow} {best : StopTimeRow}
    (hrows : ∀ row ∈ rows, row.stopSequence ≠ .missing)
    (h : ∀ row ∈ rows, row.IsText ↔ best.IsText) :
    rows.foldlM (betterRow largest) (some best) =
      .ok (rows.foldl (List.argAux (Before largest)) (some best)) := by
  induction rows generalizing best with
  | nil => rfl
  | cons row rows ih =>
    obtain ⟨hrow, hrows⟩ := List.forall_mem_cons.mp hrows
    obtain ⟨hkind, hkinds⟩ := List.forall_mem_cons.mp h
    rw [List.foldlM_cons, betterRow_of_iff hrow hkind, List.foldl_cons]
    -- the better of the two rows is of the same kind
    have hnext (next : StopTimeRow) (hnext : next.IsText ↔ best.IsText) :
        rows.foldlM (betterRow largest) (some next) =
          .ok (rows.foldl (List.argAux (Before largest)) (some next)) :=
      ih hrows fun row hr ↦ (hkinds row hr).trans hnext.symm
    by_cases hbefore : Before largest row best
    · rw [show List.argAux (Before largest) (some best) row = some row from if_pos hbefore]
      exact hnext row hkind
    · rw [show List.argAux (Before largest) (some best) row = some best from if_neg hbefore]
      exact hnext best Iff.rfl

theorem foldlM_betterRow_of_mixed {largest : Bool} {rows : List StopTimeRow} {best : StopTimeRow}
    (hrows : ∀ row ∈ rows, row.stopSequence ≠ .missing)
    (h : ¬∀ row ∈ rows, row.IsText ↔ best.IsText) :
    rows.foldlM (betterRow largest) (some best) = .error .incomparable := by
  induction rows generalizing best with
  | nil => exact absurd (fun row hr ↦ absurd hr List.not_mem_nil) h
  | cons row rows ih =>
    obtain ⟨hrow, hrows⟩ := List.forall_mem_cons.mp hrows
    rw [List.foldlM_cons]
    by_cases hkind : row.IsText ↔ best.IsText
    · have hkinds : ¬∀ r ∈ rows, r.IsText ↔ best.IsText :=
        fun hkinds ↦ h (List.forall_mem_cons.mpr ⟨hkind, hkinds⟩)
      classical
      rw [betterRow_of_iff hrow hkind]
      by_cases hbefore : Before largest row best
      · rw [show List.argAux (Before largest) (some best) row = some row from if_pos hbefore]
        exact ih hrows fun h' ↦ hkinds fun r hr ↦ (h' r hr).trans hkind
      · rw [show List.argAux (Before largest) (some best) row = some best from if_neg hbefore]
        exact ih hrows hkinds
    · rw [betterRow_of_not_iff hrow hkind]
      rfl

theorem argAux_congr {ρ : Type} {r r' : ρ → ρ → Prop} [DecidableRel r] [DecidableRel r']
    (h : ∀ a b, r a b ↔ r' a b) : List.argAux r = List.argAux r' := by
  funext best row
  cases best with
  | none => rfl
  | some best => exact if_congr (h row best) rfl rfl

/-- The row is the smallest or the largest one of the rows. -/
def Extreme {ρ τ : Type} [LE τ] (largest : Bool) (f : ρ → τ) (rows : List ρ) (row : ρ) : Prop :=
  row ∈ rows ∧ ∀ r ∈ rows, if largest then f r ≤ f row else f row ≤ f r

/-- The label of a smallest or largest row, if the rows can be compared. -/
theorem idxBest_of_uniform (largest : Bool) {rows : List StopTimeRow} (hne : rows ≠ [])
    (hrows : ∀ row ∈ rows, row.stopSequence ≠ .missing) (h : Uniform rows) :
    ∃ row, Extreme largest StopTimeRow.rank rows row ∧ idxBest largest rows = .ok row.label := by
  classical
  have hfold : rows.foldlM (betterRow largest) none =
      .ok (rows.foldl (List.argAux (Before largest)) none) := by
    cases rows with
    | nil => exact absurd rfl hne
    | cons best rows =>
      obtain ⟨hbest, hrows⟩ := List.forall_mem_cons.mp hrows
      rw [List.foldlM_cons, betterRow, if_neg hbest]
      exact foldlM_betterRow hrows fun row hr ↦
        h row (List.mem_cons_of_mem best hr) best List.mem_cons_self
  have hlabel {row : StopTimeRow}
      (hrow : rows.foldl (List.argAux (Before largest)) none = some row) :
      idxBest largest rows = .ok row.label := by
    rw [idxBest, hfold, hrow]
    rfl
  cases largest with
  | true =>
    obtain ⟨row, hrow⟩ := Option.ne_none_iff_exists'.mp
      (mt (List.argmax_eq_none (f := StopTimeRow.rank)).mp hne)
    refine ⟨row, ⟨List.argmax_mem hrow, fun r hr ↦ ?_⟩, hlabel ?_⟩
    · exact List.le_of_mem_argmax hr hrow
    · rw [← hrow, List.argmax]
      exact congrArg (fun f ↦ rows.foldl f none) (argAux_congr fun _ _ ↦ Iff.rfl)
  | false =>
    obtain ⟨row, hrow⟩ := Option.ne_none_iff_exists'.mp
      (mt (List.argmin_eq_none (f := StopTimeRow.rank)).mp hne)
    refine ⟨row, ⟨List.argmin_mem hrow, fun r hr ↦ ?_⟩, hlabel ?_⟩
    · exact List.le_of_mem_argmin hr hrow
    · rw [← hrow]
      unfold List.argmin
      exact congrArg (fun f ↦ rows.foldl f none) (argAux_congr fun _ _ ↦ Iff.rfl)

theorem idxBest_of_not_uniform {largest : Bool} {rows : List StopTimeRow}
    (hrows : ∀ row ∈ rows, row.stopSequence ≠ .missing) (h : ¬Uniform rows) :
    idxBest largest rows = .error .incomparable := by
  cases rows with
  | nil => exact absurd (fun row hr ↦ absurd hr List.not_mem_nil) h
  | cons best rows =>
    obtain ⟨hbest, hrows⟩ := List.forall_mem_cons.mp hrows
    have hmixed : ¬∀ row ∈ rows, row.IsText ↔ best.IsText := by
      intro hkind
      have hall : ∀ row ∈ best :: rows, row.IsText ↔ best.IsText :=
        List.forall_mem_cons.mpr ⟨Iff.rfl, hkind⟩
      exact h fun row hr row' hr' ↦ (hall row hr).trans (hall row' hr').symm
    rw [idxBest, List.foldlM_cons, betterRow, if_neg hbest]
    exact congrArg (· >>= _) (foldlM_betterRow_of_mixed hrows hmixed)

/-! ## The terminals of all trips -/

/-- The rows of a trip. -/
def tripRows (rows : List StopTimeRow) (t : String) : List StopTimeRow :=
  rows.filter (·.tripId = some t)

/-- The sequences of each trip are all texts, or all numbers. -/
def Comparable (rows : List StopTimeRow) : Prop := ∀ t, Uniform (tripRows rows t)

theorem mem_groupBy_tripId {rows : List StopTimeRow} {group : String × List StopTimeRow} :
    group ∈ Rows.groupBy (· ≤ ·) StopTimeRow.tripId rows ↔
      group.2 = tripRows rows group.1 ∧ tripRows rows group.1 ≠ [] := by
  obtain ⟨t, group⟩ := group
  rw [Rows.mem_groupBy, tripRows, Ne, List.filter_eq_nil_iff]
  simp only [decide_eq_true_eq, not_forall, not_not, exists_prop]

section

variable {df : Frame StopTimeRow} {stops : StopsLookup} {largest : Bool}

variable (largest) in
theorem succeeds_bestRows (hrows : ∀ row ∈ df.rows, row.stopSequence ≠ .missing)
    (h : Comparable df.rows) : Succeeds (bestRows largest df) := by
  rw [bestRows, succeeds_bind]
  have hlabels : Succeeds ((Rows.groupBy (· ≤ ·) StopTimeRow.tripId df.rows).mapM fun group ↦
      idxBest largest group.2) := by
    refine succeeds_mapM.mpr fun group hgroup ↦ ?_
    obtain ⟨hrows', hne⟩ := mem_groupBy_tripId.mp hgroup
    rw [hrows']
    obtain ⟨row, -, hlabel⟩ := idxBest_of_uniform largest hne
      (fun row hr ↦ hrows row (List.mem_of_mem_filter hr)) (h group.1)
    exact ⟨row.label, hlabel⟩
  obtain ⟨labels, hlabels⟩ := hlabels
  exact ⟨labels, hlabels, succeeds_ok⟩

theorem escapes_bestRows (hrows : ∀ row ∈ df.rows, row.stopSequence ≠ .missing)
    (h : ¬Comparable df.rows) : Escapes (bestRows largest df) := by
  -- a trip with cells of both kinds raises, and no trip raises anything else
  obtain ⟨t, ht⟩ := not_forall.mp h
  have hmissing (t : String) : ∀ row ∈ tripRows df.rows t, row.stopSequence ≠ .missing :=
    fun row hr ↦ hrows row (List.mem_of_mem_filter hr)
  have hne : tripRows df.rows t ≠ [] := by
    intro hnil
    rw [hnil] at ht
    exact ht fun row hr ↦ absurd hr List.not_mem_nil
  rw [bestRows]
  cases hlabels : (Rows.groupBy (· ≤ ·) StopTimeRow.tripId df.rows).mapM fun group ↦
      idxBest largest group.2 with
  | ok labels =>
    obtain ⟨label, hlabel⟩ := succeeds_mapM.mp ⟨labels, hlabels⟩ (t, tripRows df.rows t)
      (mem_groupBy_tripId.mpr ⟨rfl, hne⟩)
    rw [idxBest_of_not_uniform (hmissing t) ht] at hlabel
    cases hlabel
  | error e =>
    obtain ⟨group, hgroup, e', he', rfl⟩ := raises_mapM (P := (· = e)) ⟨e, hlabels, rfl⟩
    obtain ⟨hgrouprows, hne⟩ := mem_groupBy_tripId.mp hgroup
    rw [hgrouprows] at he'
    by_cases huniform : Uniform (tripRows df.rows group.1)
    · obtain ⟨row, -, hrow⟩ := idxBest_of_uniform largest hne (hmissing _) huniform
      rw [hrow] at he'
      cases he'
    · rw [idxBest_of_not_uniform (hmissing _) huniform] at he'
      cases he'
      exact escapes_error.mpr rfl

variable (stops) in
theorem succeeds_buildTripTerminalLookup (hrows : ∀ row ∈ df.rows, row.stopSequence ≠ .missing)
    (h : Comparable df.rows) : Succeeds (buildTripTerminalLookup df stops) := by
  obtain ⟨firstRows, hfirst⟩ := succeeds_bestRows false hrows h
  obtain ⟨lastRows, hlast⟩ := succeeds_bestRows true hrows h
  rw [buildTripTerminalLookup, hfirst, hlast]
  exact succeeds_fill.mpr fun rows _ ↦ succeeds_ok

theorem escapes_buildTripTerminalLookup (hrows : ∀ row ∈ df.rows, row.stopSequence ≠ .missing)
    (h : ¬Comparable df.rows) : Escapes (buildTripTerminalLookup df stops) := by
  rw [buildTripTerminalLookup, escapes_bind]
  exact Or.inl (escapes_bestRows hrows h)

end

theorem StopTimeRow.Fine.not_missing {row : StopTimeRow} (h : row.Fine py) :
    row.stopSequence ≠ .missing := by
  obtain ⟨⟨n, hn, -⟩, -⟩ := h
  intro hmissing
  rw [hmissing] at hn
  cases hn

/-! ## The version -/

theorem not_escapes_fingerprintParts {files : List (String × Bool)} :
    ¬Escapes (fingerprintParts dir files) := by
  induction files with
  | nil => exact not_escapes_ok
  | cons file files ih =>
    obtain ⟨filename, isPresent⟩ := file
    rw [fingerprintParts]
    cases isPresent with
    | false => exact not_escapes_error rfl
    | true =>
      rw [if_pos rfl, escapes_bind, or_iff_right ih]
      exact fun ⟨_, _, h⟩ ↦ not_escapes_ok h

theorem succeeds_fingerprintParts {files : List (String × Bool)}
    (h : ∀ file ∈ files, file.2 = true) : Succeeds (fingerprintParts dir files) := by
  induction files with
  | nil => exact succeeds_ok
  | cons file files ih =>
    obtain ⟨filename, isPresent⟩ := file
    obtain ⟨rfl, hfiles⟩ := List.forall_mem_cons.mp h
    rw [fingerprintParts, if_pos rfl, succeeds_bind]
    obtain ⟨parts, hparts⟩ := ih hfiles
    exact ⟨parts, hparts, succeeds_ok⟩

/-- The version raises a `FileNotFoundError` or a `ValueError`, if anything. -/
theorem not_escapes_computeVersion : ¬Escapes (computeVersion py dir) := by
  rw [computeVersion, escapes_bind, or_iff_right not_escapes_readOptional]
  rintro ⟨feedInfo, -, h⟩
  by_cases hversion : feedVersion feedInfo = .missing
  · rw [if_neg (not_not_intro hversion), computeFileFingerprint, escapes_bind,
      or_iff_right not_escapes_fingerprintParts] at h
    obtain ⟨parts, -, h⟩ := h
    exact not_escapes_ok h
  · rw [if_pos hversion] at h
    exact not_escapes_ok h

variable (py) in
theorem succeeds_computeVersion (hfiles : ∀ file ∈ dir.requiredFiles, file.2 = true) :
    Succeeds (computeVersion py dir) ↔ dir.feedInfo.Readable := by
  rw [computeVersion, succeeds_bind]
  simp only [readOptional_eq_ok_iff, and_assoc, exists_and_left, exists_eq_left']
  refine and_iff_left ?_
  by_cases hversion : feedVersion dir.feedInfo.frame = .missing
  · rw [if_neg (not_not_intro hversion), computeFileFingerprint, succeeds_bind]
    obtain ⟨parts, hparts⟩ := succeeds_fingerprintParts hfiles
    exact ⟨parts, hparts, succeeds_ok⟩
  · rw [if_pos hversion]
    exact succeeds_ok

/-! ## The lookups together -/

variable {tables : Tables} {selection : Selection}

/-- The loader accepts the directory. -/
structure Acceptable (py : Python) (dir : Directory) (today : ℤ) (tables : Tables)
    (selection : Selection) : Prop where
  opens : Opens dir tables
  selected : selectRows py dir today tables = .ok selection
  directions : ∀ row ∈ directionRows selection.trips, row.2.isZeroOrOne = true
  stopTimes : ∀ row ∈ selection.stopTimes.rows, row.Fine py
  stops : ∀ row ∈ tables.stops.rows, row.Fine py tables.stops.columns
  comparable : Comparable selection.stopTimes.rows
  routeIds : "route_id" ∈ selection.trips.columns
  version : dir.feedInfo.Readable

/-- The first bad direction, or the first bad stop time, is an infinite number; or all of them and
the stops are fine, but sequences cannot be compared or there is no column for the route. -/
def LookupsEscape (py : Python) (tables : Tables) (selection : Selection) : Prop :=
  Reaches (fun row ↦ row.2.isZeroOrOne = true) (fun row ↦ ∃ negative, row.2 = .infinity negative)
    (directionRows selection.trips) ∨
  (∀ row ∈ directionRows selection.trips, row.2.isZeroOrOne = true) ∧
    (Reaches (StopTimeRow.Fine py) (fun row ↦ ∃ negative, row.stopSequence = .infinity negative)
      selection.stopTimes.rows ∨
    (∀ row ∈ selection.stopTimes.rows, row.Fine py) ∧
      (∀ row ∈ tables.stops.rows, row.Fine py tables.stops.columns) ∧
      (¬Comparable selection.stopTimes.rows ∨ "route_id" ∉ selection.trips.columns))

variable (py) in
theorem succeeds_buildDirectionLookup {df : Frame TripRow} :
    Succeeds (buildDirectionLookup py df) ↔
      ∀ row ∈ directionRows df, row.2.isZeroOrOne = true := by
  rw [buildDirectionLookup, succeeds_fill]
  simp only [succeeds_directionEntry]

theorem succeeds_buildStopTimesLookup {df : Frame StopTimeRow} :
    Succeeds (buildStopTimesLookup py df) ↔ ∀ row ∈ df.rows, row.Fine py := by
  rw [buildStopTimesLookup, succeeds_fill]
  simp only [succeeds_stopTimeEntry]

theorem succeeds_buildStopsLookup {df : Frame StopRow} :
    Succeeds (buildStopsLookup py df) ↔ ∀ row ∈ df.rows, row.Fine py df.columns := by
  rw [buildStopsLookup, succeeds_fill]
  simp only [succeeds_stopEntry]

theorem succeeds_buildRoutesLookup {df : Frame RouteRow} : Succeeds (buildRoutesLookup py df) :=
  succeeds_fill.mpr fun _ _ ↦ succeeds_ok

theorem succeeds_buildTripRouteLookup {df : Frame TripRow} :
    Succeeds (buildTripRouteLookup df) ↔ "route_id" ∈ df.columns := by
  rw [buildTripRouteLookup]
  split_ifs with h
  · exact iff_of_true (succeeds_fill.mpr fun _ _ ↦ succeeds_ok) h
  · exact iff_of_false not_succeeds_error h

variable (py) in
theorem escapes_buildDirectionLookup {df : Frame TripRow} :
    Escapes (buildDirectionLookup py df) ↔ Reaches (fun row ↦ row.2.isZeroOrOne = true)
      (fun row ↦ ∃ negative, row.2 = .infinity negative) (directionRows df) := by
  rw [buildDirectionLookup, escapes_fill]
  simp only [succeeds_directionEntry, escapes_directionEntry]

theorem escapes_buildStopTimesLookup {df : Frame StopTimeRow} :
    Escapes (buildStopTimesLookup py df) ↔ Reaches (StopTimeRow.Fine py)
      (fun row ↦ ∃ negative, row.stopSequence = .infinity negative) df.rows := by
  rw [buildStopTimesLookup, escapes_fill]
  simp only [succeeds_stopTimeEntry, escapes_stopTimeEntry]

theorem not_escapes_buildStopsLookup {df : Frame StopRow} :
    ¬Escapes (buildStopsLookup py df) := by
  rw [buildStopsLookup, escapes_fill]
  rintro ⟨before, row, after, -, -, h⟩
  exact not_escapes_stopEntry h

theorem escapes_buildTripRouteLookup {df : Frame TripRow} :
    Escapes (buildTripRouteLookup df) ↔ "route_id" ∉ df.columns := by
  rw [← succeeds_buildTripRouteLookup, buildTripRouteLookup]
  split_ifs with h
  · have hfill : Succeeds (fill Except.ok (df.rows.filterMap fun row ↦
        row.tripId.bind fun t ↦ row.routeId.map fun r ↦ (t, r)) : Except LoadError _) :=
      succeeds_fill.mpr fun _ _ ↦ succeeds_ok
    exact iff_of_false (fun hescapes ↦ hescapes.not_succeeds hfill) (not_not_intro hfill)
  · exact iff_of_true (escapes_error.mpr rfl) not_succeeds_error

/-- **When the lookups can be built.** -/
theorem succeeds_buildLookups (hfiles : ∀ file ∈ dir.requiredFiles, file.2 = true) :
    Succeeds (buildLookups py dir tables selection) ↔
      (∀ row ∈ directionRows selection.trips, row.2.isZeroOrOne = true) ∧
      (∀ row ∈ selection.stopTimes.rows, row.Fine py) ∧
      (∀ row ∈ tables.stops.rows, row.Fine py tables.stops.columns) ∧
      Comparable selection.stopTimes.rows ∧ "route_id" ∈ selection.trips.columns ∧
      dir.feedInfo.Readable := by
  rw [← succeeds_buildDirectionLookup py, ← succeeds_buildStopTimesLookup,
    ← succeeds_buildStopsLookup, ← succeeds_buildTripRouteLookup,
    ← succeeds_computeVersion py hfiles]
  have hmissing (h : Succeeds (buildStopTimesLookup py selection.stopTimes)) :
      ∀ row ∈ selection.stopTimes.rows, row.stopSequence ≠ .missing :=
    fun row hr ↦ (succeeds_buildStopTimesLookup.mp h row hr).not_missing
  constructor
  · rintro ⟨built, h⟩
    simp only [buildLookups, bind_eq_ok] at h
    obtain ⟨directions, hdirections, times, htimes, stops, hstops, terminals, hterminals, routes,
      -, tripRoutes, htripRoutes, version, hversion, -⟩ := h
    refine ⟨⟨_, hdirections⟩, ⟨_, htimes⟩, ⟨_, hstops⟩, ?_, ⟨_, htripRoutes⟩, ⟨_, hversion⟩⟩
    by_contra hcomparable
    exact (escapes_buildTripTerminalLookup (hmissing ⟨_, htimes⟩) hcomparable).not_succeeds
      ⟨_, hterminals⟩
  · rintro ⟨⟨directions, hdirections⟩, ⟨times, htimes⟩, ⟨stops, hstops⟩, hcomparable,
      ⟨tripRoutes, htripRoutes⟩, version, hversion⟩
    obtain ⟨terminals, hterminals⟩ := succeeds_buildTripTerminalLookup stops
      (hmissing ⟨_, htimes⟩) hcomparable
    obtain ⟨routes, hroutes⟩ : Succeeds (buildRoutesLookup py tables.routes) :=
      succeeds_buildRoutesLookup
    rw [buildLookups, hdirections, htimes]
    refine succeeds_bind.mpr ⟨_, rfl, succeeds_bind.mpr ⟨_, rfl, ?_⟩⟩
    rw [hstops]
    refine succeeds_bind.mpr ⟨_, rfl, ?_⟩
    rw [hterminals, hroutes, htripRoutes, hversion]
    exact ⟨_, rfl⟩

/-- **When building the lookups raises an error that escapes.** -/
theorem escapes_buildLookups :
    Escapes (buildLookups py dir tables selection) ↔ LookupsEscape py tables selection := by
  rw [LookupsEscape, ← escapes_buildDirectionLookup py,
    ← succeeds_buildDirectionLookup py, ← escapes_buildStopTimesLookup,
    ← succeeds_buildStopTimesLookup, ← succeeds_buildStopsLookup]
  refine escapes_bind_iff fun directions _ ↦ escapes_bind_iff fun times htimes ↦ ?_
  have hmissing : ∀ row ∈ selection.stopTimes.rows, row.stopSequence ≠ .missing :=
    fun row hr ↦ (succeeds_buildStopTimesLookup.mp ⟨_, htimes⟩ row hr).not_missing
  have hnot : ¬Escapes (buildStopsLookup py tables.stops) := not_escapes_buildStopsLookup
  rw [← or_iff_right (b := Succeeds _ ∧ _) hnot]
  refine escapes_bind_iff fun stops _ ↦ ?_
  -- the routes, and the version at the end, raise nothing that escapes
  have hroutes : Succeeds (buildRoutesLookup py tables.routes) := succeeds_buildRoutesLookup
  have hrest (terminals : TerminalLookup) : Escapes (do
      let routesLookup ← buildRoutesLookup py tables.routes
      let tripRouteLookup ← buildTripRouteLookup selection.trips
      let version ← computeVersion py dir
      return (⟨directions, times, stops, terminals, routesLookup, tripRouteLookup, version⟩ :
        Built)) ↔ "route_id" ∉ selection.trips.columns := by
    rw [escapes_bind_iff (Q := "route_id" ∉ selection.trips.columns) fun routes _ ↦ ?_,
      or_iff_right fun h ↦ h.not_succeeds hroutes, and_iff_right hroutes]
    rw [escapes_bind, escapes_buildTripRouteLookup, or_iff_left]
    rintro ⟨tripRoutes, -, h⟩
    rw [escapes_bind, or_iff_right not_escapes_computeVersion] at h
    obtain ⟨version, -, h⟩ := h
    exact not_escapes_ok h
  rw [escapes_bind_iff fun terminals _ ↦ hrest terminals]
  by_cases hcomparable : Comparable selection.stopTimes.rows
  · have hterminals := succeeds_buildTripTerminalLookup stops hmissing hcomparable
    rw [or_iff_right fun h ↦ h.not_succeeds hterminals, and_iff_right hterminals,
      or_iff_right (not_not_intro hcomparable)]
  · exact iff_of_true (Or.inl (escapes_buildTripTerminalLookup hmissing hcomparable))
      (Or.inl hcomparable)

/-! ## Loading -/

/-- What `load` computes before it replaces the snapshot. -/
def rebuild (py : Python) (dir : Directory) (today : ℤ) : Except LoadError Built := do
  let tables ← openTables dir
  let selection ← selectRows py dir today tables
  buildLookups py dir tables selection

/-- The snapshot after the nine assignments. -/
def Built.snapshot (built : Built) (today now : ℤ) : GtfsStaticData where
  directionLookup := built.directionLookup
  stopTimesLookup := built.stopTimesLookup
  stopsLookup := built.stopsLookup
  routesLookup := built.routesLookup
  tripRouteLookup := built.tripRouteLookup
  tripTerminalLookup := built.tripTerminalLookup
  currentVersion := some built.version
  currentServiceDate := some today
  loadedAt := some now

section

variable {σ α β : Type} {s s' : σ} {x : Except LoadError α} {method : Method σ α}
  {f : α → Method σ β} {body handler : Method σ α} {a : α} {e : LoadError}

theorem outcome_lift_of_ok (h : x = .ok a) :
    outcome ((liftM x : Method σ α) >>= f) s = outcome (f a) s := by
  rw [h]
  rfl

theorem outcome_lift_of_error (h : x = .error e) :
    outcome ((liftM x : Method σ α) >>= f) s = (.error e, s) := by
  rw [h]
  rfl

theorem outcome_bind_of_ok (h : outcome method s = (.ok a, s')) :
    outcome (method >>= f) s = outcome (f a) s' := by
  have hrun : outcome (method >>= f) s =
      (ExceptT.bindCont f (outcome method s).1).run (outcome method s).2 := rfl
  rw [hrun, h]
  rfl

theorem outcome_bind_of_error (h : outcome method s = (.error e, s')) :
    outcome (method >>= f) s = (.error e, s') := by
  have hrun : outcome (method >>= f) s =
      (ExceptT.bindCont f (outcome method s).1).run (outcome method s).2 := rfl
  rw [hrun, h]
  rfl

theorem outcome_exceptCaught_of_ok (h : outcome body s = (.ok a, s')) :
    outcome (exceptCaught body handler) s = (.ok a, s') := by
  rw [outcome] at h
  rw [outcome, exceptCaught, ExceptT.run_tryCatch, StateT.run_bind, h]
  rfl

theorem outcome_exceptCaught_of_error (h : outcome body s = (.error e, s')) :
    outcome (exceptCaught body handler) s =
      if e.isCaught then outcome handler s' else (.error e, s') := by
  rw [outcome] at h
  rw [outcome, exceptCaught, ExceptT.run_tryCatch, StateT.run_bind, h]
  change outcome (if e.isCaught then handler else throw e) s' = _
  cases e.isCaught <;> rfl

end

variable {now : ℤ} {s : GtfsStaticData}

/-- Where a part of `load` raises, the snapshot is the one before. -/
theorem outcome_load_of_error {e : LoadError} (h : rebuild py dir today = .error e) :
    outcome (load py dir today now) s = (.error e, s) := by
  rw [load]
  cases htables : openTables dir with
  | error e' =>
    rw [rebuild, htables] at h
    rw [outcome_lift_of_error rfl, Except.error.inj h]
  | ok tables =>
    rw [outcome_lift_of_ok rfl]
    cases hselection : selectRows py dir today tables with
    | error e' =>
      rw [rebuild, htables] at h
      replace h : (selectRows py dir today tables >>= buildLookups py dir tables) = .error e := h
      rw [hselection] at h
      rw [outcome_lift_of_error rfl, Except.error.inj h]
    | ok selection =>
      rw [outcome_lift_of_ok rfl]
      rw [rebuild, htables] at h
      replace h : (selectRows py dir today tables >>= buildLookups py dir tables) = .error e := h
      rw [hselection] at h
      exact outcome_lift_of_error h

theorem outcome_load_of_ok {built : Built} (h : rebuild py dir today = .ok built) :
    outcome (load py dir today now) s = (.ok (), built.snapshot today now) := by
  simp only [rebuild, bind_eq_ok] at h
  obtain ⟨tables, htables, selection, hselection, hbuilt⟩ := h
  rw [load, outcome_lift_of_ok htables, outcome_lift_of_ok hselection, outcome_lift_of_ok hbuilt]
  rfl

/-- **Acceptance.** -/
theorem succeeds_rebuild :
    Succeeds (rebuild py dir today) ↔
      ∃ tables selection, Acceptable py dir today tables selection := by
  rw [rebuild, succeeds_bind]
  refine exists_congr fun tables ↦ ?_
  rw [openTables_eq_ok_iff, succeeds_bind]
  constructor
  · rintro ⟨hopens, selection, hselection, hbuild⟩
    obtain ⟨hdirections, htimes, hstops, hcomparable, hroutes, hversion⟩ :=
      (succeeds_buildLookups hopens.present).mp hbuild
    exact ⟨selection, hopens, hselection, hdirections, htimes, hstops, hcomparable, hroutes,
      hversion⟩
  · rintro ⟨selection, h⟩
    exact ⟨h.opens, selection, h.selected, (succeeds_buildLookups h.opens.present).mpr
      ⟨h.directions, h.stopTimes, h.stops, h.comparable, h.routeIds, h.version⟩⟩

/-- The files can be read, and a calendar or the rows that it selects raise an error that is not
caught. -/
def LoadEscapes (py : Python) (dir : Directory) (today : ℤ) : Prop :=
  ∃ tables, Opens dir tables ∧
    ("service_id" ∈ tables.trips.columns ∧ ServicesEscape py dir today ∨
      ∃ selection, selectRows py dir today tables = .ok selection ∧
        LookupsEscape py tables selection)

/-- **When `load` raises an error that escapes.** -/
theorem escapes_rebuild : Escapes (rebuild py dir today) ↔ LoadEscapes py dir today := by
  rw [rebuild, escapes_bind, or_iff_right not_escapes_openTables]
  refine exists_congr fun tables ↦ ?_
  rw [openTables_eq_ok_iff, escapes_bind, escapes_selectRows]
  simp only [escapes_buildLookups]

end GtfsStream.Loader
