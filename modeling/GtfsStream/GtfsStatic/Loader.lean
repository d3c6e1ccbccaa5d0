import GtfsStream.GtfsStatic.ServiceDays
import GtfsStream.GtfsStatic.Tables
import GtfsStream.Library.Dictionary
import GtfsStream.Library.Rows

/-!
# The loader

`GtfsStaticData`: the lookups of one snapshot of the bundle, `load`, which builds them from the
directory, and `reload_if_changed`. Everything is built first, and the snapshot is replaced at the
end. The log lines are left out.

## Cells and errors

A table is read by pandas, which decides of each cell whether it is a text, a number or null. Each
function below takes the cells as they are and fails as the source does, with the kind of its error:
the callers catch some kinds and let others pass. A row that is left out silently, such as one with
a sequence that is no number, is left out here as well. What pandas and the `float` and `int` of the
language do with a text are parameters.
-/

namespace GtfsStream.Loader

open Dictionary (applyAll fill)
open GtfsStatic (targetDates targetStrs)
open Calendar (dateString weekday)

def maxUnfilteredStopTimes : ℕ := 1500000

/-- One scheduled stop, its times in seconds of the service day. -/
structure ScheduledStopTime where
  tripId : String
  stopSequence : ℤ
  arrivalTime : Option ℤ
  departureTime : Option ℤ
  stopId : Option String
  deriving DecidableEq

structure StopInfo where
  stopId : String
  stopName : Option String
  stopLat : Option PyFloat
  stopLon : Option PyFloat
  deriving DecidableEq

/-- A dictionary. -/
abbrev Dict (κ ν : Type) := Finmap fun _ : κ ↦ ν

abbrev StopTimesLookup := Dict (String × ℤ) ScheduledStopTime

abbrev StopsLookup := Dict String StopInfo

/-- The first and the last stop of each trip. -/
abbrev TerminalLookup := Dict String (Option StopInfo × Option StopInfo)

/-- One loaded snapshot, and the lookups derived from it. -/
structure GtfsStaticData where
  directionLookup : Dict String ℤ := ∅
  stopTimesLookup : StopTimesLookup := ∅
  stopsLookup : StopsLookup := ∅
  routesLookup : Dict String (Option String) := ∅
  tripRouteLookup : Dict String String := ∅
  tripTerminalLookup : TerminalLookup := ∅
  currentVersion : Option String := none
  currentServiceDate : Option ℤ := none
  loadedAt : Option ℤ := none

variable (py : Python) (dir : Directory) (today : ℤ)

/-! ## Reading -/

def validateFilesExist : Except LoadError Unit :=
  let missing := (dir.requiredFiles.filter fun file ↦ !file.2).map Prod.fst
  if missing ≠ [] then .error (.missingFiles missing) else .ok ()

/-- `pd.read_csv` of a file that is there. -/
def readCsv {ρ : Type} (filename : String) : Csv ρ → Except LoadError (Frame ρ)
  | .absent => .error (.missingFiles [filename])
  | .unreadable e => .error (.unreadable filename e)
  | .table df => .ok df

/-- `_REQUIRED_COLUMNS`, sorted. -/
def requiredColumns (filename : String) : List String :=
  if filename = "trips.txt" then ["direction_id", "trip_id"]
  else if filename = "stop_times.txt" then
    ["arrival_time", "departure_time", "stop_sequence", "trip_id"]
  else if filename = "stops.txt" then ["stop_id"]
  else ["route_id", "route_long_name"]

def validateColumns (filename : String) (columns : List String) : Except LoadError Unit :=
  let missing := (requiredColumns filename).filter (· ∉ columns)
  if missing ≠ [] then .error (.missingColumns filename missing) else .ok ()

/-- The four tables. -/
structure Tables where
  trips : Frame TripRow
  stopTimes : Frame StopTimeRow
  stops : Frame StopRow
  routes : Frame RouteRow

/-- The first part of `load`: the files are there, can be read, and have their columns. -/
def openTables : Except LoadError Tables := do
  validateFilesExist dir
  let trips ← readCsv "trips.txt" dir.trips
  let stopTimes ← readCsv "stop_times.txt" dir.stopTimes
  let stops ← readCsv "stops.txt" dir.stops
  let routes ← readCsv "routes.txt" dir.routes
  validateColumns "trips.txt" trips.columns
  validateColumns "stop_times.txt" stopTimes.columns
  validateColumns "stops.txt" stops.columns
  validateColumns "routes.txt" routes.columns
  return ⟨trips, stopTimes, stops, routes⟩

/-! ## The active services -/

/-- `row.name`, which raises if there is no such column. -/
def getAttribute {α : Type} (columns : List String) (name : String) (value : α) :
    Except LoadError α :=
  if name ∈ columns then .ok value else .error (.noAttribute name)

/-- `getattr(row, name, 0) == 1` -/
def flag (columns : List String) (name : String) (cell : Cell) : Bool :=
  name ∈ columns ∧ cell.isOne

/-- The flags of the days of the week, from Monday on. -/
def CalendarRow.dayFlags (columns : List String) (row : CalendarRow) : List Bool :=
  [flag columns "monday" row.monday, flag columns "tuesday" row.tuesday,
    flag columns "wednesday" row.wednesday, flag columns "thursday" row.thursday,
    flag columns "friday" row.friday, flag columns "saturday" row.saturday,
    flag columns "sunday" row.sunday]

/-- The row makes its service active on the day. The dates are compared as strings. -/
def CalendarRow.activeOn (columns : List String) (row : CalendarRow) (d : ℤ) : Bool :=
  str row.startDate ≤ dateString d ∧ dateString d ≤ str row.endDate ∧
    (row.dayFlags columns).getD (weekday d) false = true

/-- What one row of `calendar.txt` does to the active services. -/
def calendarRow (columns : List String) (row : CalendarRow) :
    Except LoadError (Finset String → Finset String) := do
  let _ ← getAttribute columns "start_date" row.startDate
  let _ ← getAttribute columns "end_date" row.endDate
  if (targetDates today).any (row.activeOn columns) then
    let serviceId ← getAttribute columns "service_id" (str row.serviceId)
    return fun active ↦ insert serviceId active
  else return id

/-- What one row of `calendar_dates.txt` does to the active services: 1 adds, 2 removes. -/
def calendarDateRow (columns : List String) (row : CalendarDateRow) :
    Except LoadError (Finset String → Finset String) := do
  let date ← getAttribute columns "date" (str row.date)
  if date ∉ targetStrs today then return id
  else
    let serviceId ← getAttribute columns "service_id" (str row.serviceId)
    let exceptionType ← getAttribute columns "exception_type" row.exceptionType
    let exceptionType ← exceptionType.toInt py
    if exceptionType = 1 then return fun active ↦ insert serviceId active
    else if exceptionType = 2 then return fun active ↦ active.erase serviceId
    else return id

/-- The rows of an optional file. One that is empty or malformed is skipped, as if it had none. -/
def readOptional {ρ : Type} (filename : String) : Csv ρ → Except LoadError (Frame ρ)
  | .absent => .ok ⟨[], []⟩
  | .unreadable .value => .error (.unreadable filename .value)
  | .unreadable _ => .ok ⟨[], []⟩
  | .table df => .ok df

/-- The services that are active on one of the three days, or none where all trips are kept. -/
def buildActiveServiceIds : Except LoadError (Option (Finset String)) := do
  if !dir.calendar.isPresent ∧ !dir.calendarDates.isPresent then return none
  else
    let cal ← readOptional "calendar.txt" dir.calendar
    let active ← applyAll (calendarRow today cal.columns) cal.rows ∅
    let calDates ← readOptional "calendar_dates.txt" dir.calendarDates
    let active ← applyAll (calendarDateRow py today calDates.columns) calDates.rows active
    return if active = ∅ then none else some active

/-! ## The service-day filter -/

/-- The rows that the lookups are built from. -/
structure Selection where
  trips : Frame TripRow
  stopTimes : Frame StopTimeRow
  filtered : Bool

/-- `isin` of a cell in a set of texts. -/
def Cell.isIn (active : Finset String) : Cell → Bool
  | text s => s ∈ active
  | _ => false

def Frame.select {ρ : Type} (df : Frame ρ) (p : ρ → Bool) : Frame ρ :=
  { df with rows := df.rows.filter p }

/-- Keep the trips of the active services, and their stop times. -/
def keepActive (tables : Tables) (active : Finset String) : Selection :=
  let trips := tables.trips.select fun row ↦ row.serviceId.isIn active
  let filteredTripIds := trips.rows.map TripRow.tripId
  ⟨trips, tables.stopTimes.select fun row ↦ row.tripId ∈ filteredTripIds, true⟩

/-- The services by which the trips are filtered, if any. -/
def filterServices (tables : Tables) : Except LoadError (Option (Finset String)) :=
  if "service_id" ∈ tables.trips.columns then buildActiveServiceIds py dir today else .ok none

/-- The second part of `load`: the filter, and the bound on unfiltered tables. -/
def selectRows (tables : Tables) : Except LoadError Selection := do
  match ← filterServices py dir today tables with
  | some active => return keepActive tables active
  | none =>
    if maxUnfilteredStopTimes < tables.stopTimes.rows.length then
      throw (.unfiltered tables.stopTimes.rows.length)
    else return ⟨tables.trips, tables.stopTimes, false⟩

/-! ## The lookups -/

/-- The direction of one row, none of whose cells is missing. -/
def directionEntry (tripId : String) (directionId : Cell) : Except LoadError (String × ℤ) := do
  let direction ← directionId.toInt py
  -- `int()` comes first, and its error wins over the check of the value
  if !directionId.isZeroOrOne then throw (.invalidDirection tripId directionId)
  else return (tripId, direction)

/-- `dropna` of the trips and their directions. -/
def directionRows (trips : Frame TripRow) : List (String × Cell) :=
  trips.rows.filterMap fun row ↦
    if row.directionId = .missing then none else row.tripId.map fun t ↦ (t, row.directionId)

def buildDirectionLookup (trips : Frame TripRow) : Except LoadError (Dict String ℤ) :=
  fill (fun row ↦ directionEntry py row.1 row.2) (directionRows trips)

/-- A text of the form `HH:MM:SS`, as seconds. -/
def gtfsTimeToSeconds (text : String) : Except LoadError ℤ :=
  match (text.toList.splitOn ':').map fun part ↦ readInt py (String.ofList part) with
  | [some h, some m, some s] => .ok (h * 3600 + m * 60 + s)
  | _ => .error (.notATime text)

def timeCell (cell : Cell) : Except LoadError (Option ℤ) :=
  if cell = .missing then .ok none else (gtfsTimeToSeconds py (cell.str py)).map some

/-- The stop of a row, if there is such a column and a value in it. -/
def StopTimeRow.stop (columns : List String) (row : StopTimeRow) : Option String :=
  if "stop_id" ∈ columns then row.stopId else none

def stopTimeEntry (columns : List String) (row : StopTimeRow) :
    Except LoadError ((String × ℤ) × ScheduledStopTime) := do
  let tripId := str row.tripId
  let stopSequence ← row.stopSequence.toInt py
  if stopSequence < 0 then throw (.invalidSequence tripId stopSequence)
  else
    let arrivalTime ← timeCell py row.arrivalTime
    let departureTime ← timeCell py row.departureTime
    return ((tripId, stopSequence),
      ⟨tripId, stopSequence, arrivalTime, departureTime, row.stop columns⟩)

def buildStopTimesLookup (stopTimes : Frame StopTimeRow) : Except LoadError StopTimesLookup :=
  fill (stopTimeEntry py stopTimes.columns) stopTimes.rows

def coordinate (columns : List String) (name : String) (cell : Cell) :
    Except LoadError (Option PyFloat) :=
  if name ∈ columns ∧ cell ≠ .missing then (cell.toFloat py).map some else .ok none

def stopEntry (columns : List String) (row : StopRow) :
    Except LoadError (String × StopInfo) := do
  let stopName :=
    if "stop_name" ∈ columns ∧ row.stopName ≠ .missing then some (row.stopName.str py) else none
  let stopLat ← coordinate py columns "stop_lat" row.stopLat
  let stopLon ← coordinate py columns "stop_lon" row.stopLon
  return (str row.stopId, ⟨str row.stopId, stopName, stopLat, stopLon⟩)

def buildStopsLookup (stops : Frame StopRow) : Except LoadError StopsLookup :=
  fill (stopEntry py stops.columns) stops.rows

/-- A missing name is stored as none. -/
def routeEntry (row : RouteRow) : Except LoadError (String × Option String) :=
  .ok (str row.routeId,
    if row.routeLongName = .missing then none else some (row.routeLongName.str py))

def buildRoutesLookup (routes : Frame RouteRow) :
    Except LoadError (Dict String (Option String)) :=
  fill (routeEntry py) routes.rows

/-! ## Terminals -/

/-- The better of two rows: the first one, unless the second has a smaller sequence, or a larger one
where the largest is looked for. -/
def betterRow (largest : Bool) (best : Option StopTimeRow) (row : StopTimeRow) :
    Except LoadError (Option StopTimeRow) :=
  if row.stopSequence = .missing then .ok best
  else
    match best with
    | none => .ok (some row)
    | some b => do
      let better ←
        if largest then b.stopSequence.lt row.stopSequence else row.stopSequence.lt b.stopSequence
      -- a tie keeps the row that came first
      return if better then some row else some b

/-- `idxmin` or `idxmax` of the sequences of one trip: the label of the first row that has it. -/
def idxBest (largest : Bool) (group : List StopTimeRow) : Except LoadError Label := do
  match ← group.foldlM (betterRow largest) none with
  | none => throw .allMissing
  | some row => return row.label

/-- `st.loc[grouped.idxmin()]`, or `idxmax`: for each trip all rows with the label of its best. -/
def bestRows (largest : Bool) (stopTimes : Frame StopTimeRow) :
    Except LoadError (List StopTimeRow) := do
  let groups := Rows.groupBy (· ≤ ·) StopTimeRow.tripId stopTimes.rows
  let labels ← groups.mapM fun group ↦ idxBest largest group.2
  return labels.flatMap fun label ↦ stopTimes.rows.filter (·.label = label)

/-- `stops_lookup.get(id) if id else None` -/
def getStop (stops : StopsLookup) : Option String → Option StopInfo
  | some id => if id = "" then none else stops.lookup id
  | none => none

def terminalEntry (columns : List String) (stops : StopsLookup)
    (rows : StopTimeRow × StopTimeRow) :
    Except LoadError (String × (Option StopInfo × Option StopInfo)) :=
  .ok (str rows.1.tripId, getStop stops (rows.1.stop columns), getStop stops (rows.2.stop columns))

def buildTripTerminalLookup (stopTimes : Frame StopTimeRow) (stops : StopsLookup) :
    Except LoadError TerminalLookup := do
  let firstRows ← bestRows false stopTimes
  let lastRows ← bestRows true stopTimes
  fill (terminalEntry stopTimes.columns stops) (firstRows.zip lastRows)

/-- `dropna` raises if a column is not there. -/
def buildTripRouteLookup (trips : Frame TripRow) : Except LoadError (Dict String String) :=
  if "route_id" ∈ trips.columns then
    fill .ok (trips.rows.filterMap fun row ↦
      row.tripId.bind fun t ↦ row.routeId.map fun r ↦ (t, r))
  else .error (.noKey "route_id")

/-! ## The version -/

/-- Size and modification time of each required file. -/
def fingerprintParts : List (String × Bool) → Except LoadError (List String)
  | [] => .ok []
  | (filename, isPresent) :: files =>
    if isPresent then do
      let (size, mtime) := dir.stat filename
      let parts ← fingerprintParts files
      return (filename ++ ":" ++ toString size ++ ":" ++ toString mtime) :: parts
    else .error (.noStat filename)

def computeFileFingerprint : Except LoadError String := do
  let parts ← fingerprintParts dir dir.requiredFiles
  return "fingerprint:" ++ py.sha256 ("|".intercalate parts)

/-- The cell in the column `feed_version` of the first row of `feed_info.txt`, if there is one. -/
def feedVersion (feedInfo : Frame FeedInfoRow) : Cell :=
  if "feed_version" ∈ feedInfo.columns then feedInfo.rows.head?.elim .missing (·.feedVersion)
  else .missing

def computeVersion : Except LoadError String := do
  let version := feedVersion (← readOptional "feed_info.txt" dir.feedInfo)
  if version ≠ .missing then return "feed_version:" ++ version.str py
  else computeFileFingerprint py dir

/-! ## Loading -/

/-- The local variables of `load`. -/
structure Built where
  directionLookup : Dict String ℤ
  stopTimesLookup : StopTimesLookup
  stopsLookup : StopsLookup
  tripTerminalLookup : TerminalLookup
  routesLookup : Dict String (Option String)
  tripRouteLookup : Dict String String
  version : String

/-- The third part of `load`. -/
def buildLookups (tables : Tables) (selection : Selection) : Except LoadError Built := do
  let directionLookup ← buildDirectionLookup py selection.trips
  let stopTimesLookup ← buildStopTimesLookup py selection.stopTimes
  let stopsLookup ← buildStopsLookup py tables.stops
  let tripTerminalLookup ← buildTripTerminalLookup selection.stopTimes stopsLookup
  let routesLookup ← buildRoutesLookup py tables.routes
  let tripRouteLookup ← buildTripRouteLookup selection.trips
  let version ← computeVersion py dir
  return ⟨directionLookup, stopTimesLookup, stopsLookup, tripTerminalLookup, routesLookup,
    tripRouteLookup, version⟩

/-- A method changes its object, and may raise. -/
abbrev Method (σ α : Type) := ExceptT LoadError (StateM σ) α

/-- The outcome of a method, and the object after it. -/
def outcome {σ α : Type} (method : Method σ α) (s : σ) : Except LoadError α × σ := method.run.run s

/-- Run `body`, and `handler` where it raises a `FileNotFoundError` or a `ValueError`. -/
def exceptCaught {σ α : Type} (body handler : Method σ α) : Method σ α :=
  tryCatch body fun e ↦ if e.isCaught then handler else throw e

abbrev LoaderM := Method GtfsStaticData

/-- Read the required files and rebuild every lookup. -/
def load (now : ℤ) : LoaderM Unit := do
  let tables ← openTables dir
  let selection ← selectRows py dir today tables
  let built ← buildLookups py dir tables selection
  -- nothing raises from here on
  modify fun self ↦ { self with directionLookup := built.directionLookup }
  modify fun self ↦ { self with stopTimesLookup := built.stopTimesLookup }
  modify fun self ↦ { self with stopsLookup := built.stopsLookup }
  modify fun self ↦ { self with tripTerminalLookup := built.tripTerminalLookup }
  modify fun self ↦ { self with routesLookup := built.routesLookup }
  modify fun self ↦ { self with tripRouteLookup := built.tripRouteLookup }
  modify fun self ↦ { self with currentVersion := some built.version }
  modify fun self ↦ { self with currentServiceDate := some today }
  modify fun self ↦ { self with loadedAt := some now }

def hasChanged : LoaderM Bool := do
  match (← get).currentVersion with
  | none => return true
  | some current => return (← computeVersion py dir) ≠ current

def serviceDateStale (today : ℤ) : LoaderM Bool := do
  let current := (← get).currentServiceDate
  return current ≠ none ∧ current ≠ some today

/-- `self.has_changed() or self.service_date_stale()` -/
def needsReload (checked : ℤ) : LoaderM Bool := do
  if ← hasChanged py dir then return true else serviceDateStale checked

/-- Reload if the directory changed, or if the service date is not the one on the day `checked`. The
return value says whether a reload happened. -/
def reloadIfChanged (checked now : ℤ) : LoaderM Bool := do
  if ← needsReload py dir checked then
    exceptCaught (do load py dir today now; return true) (return false)
  else return false

end GtfsStream.Loader
