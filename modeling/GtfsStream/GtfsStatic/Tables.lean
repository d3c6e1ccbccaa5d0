import GtfsStream.GtfsStatic.Refresh
import GtfsStream.Library.Rows

/-!
# The files of a bundle

What the loader reads: the files of the GTFS directory as `pandas.read_csv` gives them, their cells,
and the conversions that the loader applies to a cell. A column that is read with `dtype=str` holds
texts, or missing values; of any other column each cell has the type that pandas infers.

## Parameters

What the language makes of a text as a float, of a digit beyond the ten usual ones and of a float as
a text is a parameter, `Python`, with no assumption but those that a theorem names. The order of
cells is that of the language: numbers with numbers, texts with texts, and an error for a number and
a text.
-/

namespace GtfsStream.Loader

open GtfsStream.GtfsStatic (strip spaces)
open GtfsStream.Rows (truncate)

/-! ## Cells -/

/-- A cell of a column whose type is inferred. -/
inductive Cell
  | missing
  | int (n : ℤ)
  | float (q : ℚ)
  | infinity (negative : Bool)
  | bool (b : Bool)
  | text (s : String)
  deriving DecidableEq

/-- A value of Python's type `float`. -/
inductive PyFloat
  | finite (q : ℚ)
  | infinity (negative : Bool)
  | nan
  deriving DecidableEq

/-- Parts of Python that no result depends on: which characters are decimal digits, how a float is
read and written, and the hash. -/
structure Python where
  digit : Char → Option ℕ
  readFloat : String → Option PyFloat
  reprFloat : ℚ → String
  sha256 : String → String

/-! ## Errors -/

/-- How `read_csv` fails: `EmptyDataError`, `ParserError`, or any other `ValueError`. -/
inductive ReadError
  | emptyData
  | parser
  | value
  deriving DecidableEq

/-- What the loader raises, or an `OSError` that the download raises. -/
inductive LoadError
  | missingFiles (missing : List String)
  | noStat (filename : String)
  | unreadable (filename : String) (e : ReadError)
  | missingColumns (filename : String) (missing : List String)
  | unfiltered (rows : ℕ)
  | invalidDirection (tripId : String) (directionId : Cell)
  | invalidSequence (tripId : String) (stopSequence : ℤ)
  | notANumber (cell : Cell)
  | notATime (text : String)
  | allMissing
  | overflow
  | noAttribute (column : String)
  | noKey (column : String)
  | incomparable
  | os
  deriving DecidableEq

/-- The error is a `FileNotFoundError` or a `ValueError`. -/
def LoadError.isCaught : LoadError → Bool
  | overflow | noAttribute _ | noKey _ | incomparable | os => false
  | _ => true

/-! ## Conversions -/

section

variable (py : Python)

/-- The digits of a number after its first ones, with single underscores between them. -/
def readDigits (n : ℕ) : List Char → Option ℕ
  | [] => some n
  | '_' :: c :: cs => do readDigits (10 * n + (← py.digit c)) cs
  | c :: cs => do readDigits (10 * n + (← py.digit c)) cs

def readNatural : List Char → Option ℕ
  | [] => none
  | c :: cs =>
    if 4300 < (c :: cs).countP (· ≠ '_') then none else do readDigits py (← py.digit c) cs

/-- The spaces that `int` removes: unlike `str.strip`, it knows no separators among the control
characters. -/
def intSpaces : List ℕ := spaces.filter fun c ↦ c ≤ 13 ∨ 32 ≤ c

/-- `int(s)` of a text, or none where it raises. A number has at most 4300 digits. -/
def readInt (s : String) : Option ℤ :=
  match (strip intSpaces s).toList with
  | '-' :: cs => (readNatural py cs).map fun n ↦ -n
  | '+' :: cs => (readNatural py cs).map fun n ↦ n
  | cs => (readNatural py cs).map fun n ↦ n

/-- `int(cell)` -/
def Cell.toInt : Cell → Except LoadError ℤ
  | int n => .ok n
  | float q => .ok (truncate q)
  | bool b => .ok (if b then 1 else 0)
  | infinity _ => .error .overflow
  | missing => .error (.notANumber .missing)
  | text s => (readInt py s).elim (.error (.notANumber (.text s))) .ok

/-- `float(cell)` of a cell that is not missing. -/
def Cell.toFloat : Cell → Except LoadError PyFloat
  | int n => .ok (.finite n)
  | float q => .ok (.finite q)
  | bool b => .ok (.finite (if b then 1 else 0))
  | infinity negative => .ok (.infinity negative)
  | missing => .ok .nan
  | text s => (py.readFloat s).elim (.error (.notANumber (.text s))) .ok

/-- `str(cell)` -/
def Cell.str : Cell → String
  | missing => "nan"
  | int n => toString n
  | float q => py.reprFloat q
  | infinity negative => if negative then "-inf" else "inf"
  | bool b => if b then "True" else "False"
  | text s => s

end

/-- `str(value)` of a value in a column of texts. -/
def str (value : Option String) : String := value.getD "nan"

/-- `cell == 1` -/
def Cell.isOne (cell : Cell) : Bool := cell = .int 1 ∨ cell = .float 1 ∨ cell = .bool true

/-- `cell in (0, 1)` -/
def Cell.isZeroOrOne (cell : Cell) : Bool :=
  cell.isOne ∨ cell = .int 0 ∨ cell = .float 0 ∨ cell = .bool false

/-- A text, or the number in the cell. -/
def Cell.key : Cell → String ⊕ WithBot (WithTop ℚ)
  | missing => .inr 0
  | int n => .inr ((n : ℚ) : WithTop ℚ)
  | float q => .inr (q : WithTop ℚ)
  | infinity negative => .inr (if negative then ⊥ else (⊤ : WithTop ℚ))
  | bool b => .inr (if b then 1 else 0)
  | text s => .inl s

/-- Texts and numbers in their order. A text and a number cannot be compared. -/
def keyLt : String ⊕ WithBot (WithTop ℚ) → String ⊕ WithBot (WithTop ℚ) → Except LoadError Bool
  | .inl s, .inl t => .ok (s < t)
  | .inr x, .inr y => .ok (x < y)
  | _, _ => .error .incomparable

/-- `a < b` for cells that are not missing. -/
def Cell.lt (a b : Cell) : Except LoadError Bool := keyLt a.key b.key

/-! ## Tables -/

/-- The label that pandas gives a row: its position, or the field that the row has in front of those
that the header names. -/
inductive Label
  | number (n : ℤ)
  | text (s : String)
  deriving DecidableEq

/-- The names in the header, and the rows below it. A row says nothing about a column that is not in
the header. -/
structure Frame (ρ : Type) where
  columns : List String
  rows : List ρ

structure TripRow where
  tripId : Option String
  routeId : Option String := none
  serviceId : Cell := .missing
  directionId : Cell := .missing

structure StopTimeRow where
  label : Label
  tripId : Option String
  stopSequence : Cell
  stopId : Option String := none
  arrivalTime : Cell := .missing
  departureTime : Cell := .missing

structure StopRow where
  stopId : Option String
  stopName : Cell := .missing
  stopLat : Cell := .missing
  stopLon : Cell := .missing

structure RouteRow where
  routeId : Option String
  routeLongName : Cell := .missing

structure CalendarRow where
  serviceId : Option String
  monday : Cell := .missing
  tuesday : Cell := .missing
  wednesday : Cell := .missing
  thursday : Cell := .missing
  friday : Cell := .missing
  saturday : Cell := .missing
  sunday : Cell := .missing
  startDate : Option String
  endDate : Option String

structure CalendarDateRow where
  serviceId : Option String
  date : Option String
  exceptionType : Cell

structure FeedInfoRow where
  feedVersion : Cell

/-- A file of the directory: not there, not readable, or a table. -/
inductive Csv (ρ : Type)
  | absent
  | unreadable (e : ReadError)
  | table (df : Frame ρ)

def Csv.isPresent {ρ : Type} : Csv ρ → Bool
  | absent => false
  | _ => true

/-- The GTFS directory, with the size and the modification time of its files. -/
structure Directory where
  stops : Csv StopRow := .absent
  trips : Csv TripRow := .absent
  stopTimes : Csv StopTimeRow := .absent
  routes : Csv RouteRow := .absent
  calendar : Csv CalendarRow := .absent
  calendarDates : Csv CalendarDateRow := .absent
  feedInfo : Csv FeedInfoRow := .absent
  stat : String → ℕ × ℤ := fun _ ↦ (0, 0)

/-- The required files, in the order in which they are looked for. -/
def Directory.requiredFiles (dir : Directory) : List (String × Bool) :=
  [("stops.txt", dir.stops.isPresent), ("trips.txt", dir.trips.isPresent),
    ("stop_times.txt", dir.stopTimes.isPresent), ("routes.txt", dir.routes.isPresent)]

end GtfsStream.Loader
