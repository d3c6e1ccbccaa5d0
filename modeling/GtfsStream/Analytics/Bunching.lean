import GtfsStream.Analytics.Feed
import GtfsStream.Library.Rows
import Mathlib.Data.List.SplitBy
import Mathlib.Data.Prod.Lex
import Mathlib.Data.String.Basic

/-!
# Bunching detection

`find_close_pairs` and `detect_bunching_events`. A row with a null timestamp is left out at once:
it would only pair in the null bucket, and one bucket is no event.

## Two tables

`find_close_pairs` yields the rows in which two vehicles were close, and those in which they were
seen apart. The second table is needed for the gaps of the first: a pair that was not seen for one
bucket goes on, and a pair that was seen apart in it does not. How a distance is computed is a
parameter: it is compared with the two radii, and the smallest one of an event is kept.
-/

namespace GtfsStream.Analytics

def pollIntervalSeconds : ℕ := 15

def distanceThresholdMeters : ℚ := 100

def minConsecutiveObservations : ℕ := 2

def terminalRadiusMeters : ℚ := 250

def consecutiveToleranceFactor : ℕ := 2

/-- The start of the poll interval of a time. -/
def bucket (t : Time) : Time := t / seconds pollIntervalSeconds * seconds pollIntervalSeconds

/-- A row of the frame that `find_close_pairs` pairs with itself. -/
structure Sighting where
  vehicleId : String
  routeId : Option String
  directionId : ℤ
  lat : ℚ
  lon : ℚ
  timestampEastern : Time
  timeBucket : Time
  nearTerminal : Bool
  deriving DecidableEq

/-- What pandas leaves open: the float arithmetic of a distance, between two points of latitude
and longitude, and the order that the unstable sort gives to equal timestamps. -/
structure Frames where
  displacementMeters : ℚ × ℚ → ℚ × ℚ → ℚ
  sortValues : List Sighting → List Sighting
  perm : ∀ rows, (sortValues rows).Perm rows
  sorted : ∀ rows, (sortValues rows).Pairwise fun a b ↦ a.timestampEastern ≤ b.timestampEastern

/-- Points on one meridian, and a stable sort. -/
def meridian : Frames where
  displacementMeters p q := |p.1 - q.1| * 111320
  sortValues := List.insertionSort fun a b ↦ a.timestampEastern ≤ b.timestampEastern
  perm := List.perm_insertionSort _
  sorted rows := by
    have : Std.Total fun a b : Sighting ↦ a.timestampEastern ≤ b.timestampEastern :=
      ⟨fun a b ↦ le_total _ _⟩
    have : IsTrans Sighting fun a b ↦ a.timestampEastern ≤ b.timestampEastern :=
      ⟨fun a b c ↦ le_trans⟩
    exact List.pairwise_insertionSort _ rows

/-- A candidate pair in one poll bucket. -/
structure PairRow where
  routeId : Option String
  directionId : ℤ
  vehicleA : String
  vehicleB : String
  timeBucket : Time
  distanceMeters : ℚ
  deriving DecidableEq

/-- What a group of pairs shares. -/
structure PairKey where
  routeId : String
  directionId : ℤ
  vehicleA : String
  vehicleB : String
  deriving DecidableEq

/-- A period in which two vehicles stay close for consecutive observations. -/
structure BunchingEvent where
  routeId : String
  directionId : ℤ
  vehicleA : String
  vehicleB : String
  startTime : Time
  endTime : Time
  observationCount : ℕ
  minDistanceMeters : ℚ
  deriving DecidableEq

def BunchingEvent.key (e : BunchingEvent) : PairKey :=
  ⟨e.routeId, e.directionId, e.vehicleA, e.vehicleB⟩

/-! ## Close pairs -/

section

variable (frames : Frames) (static : GtfsStaticData)

def nearTerminal (lat lon : ℚ) (terminals : Option Terminals) : Bool :=
  match terminals with
  | none => false
  | some (first, last) => [first, last].any fun stop ↦
    match stop with
    | some ⟨some stopLat, some stopLon⟩ =>
      frames.displacementMeters (lat, lon) (stopLat, stopLon) ≤ terminalRadiusMeters
    | _ => false

/-- The row of a ping with a known direction, a location and a time. -/
def sighting (p : Ping) : Option Sighting :=
  match p.tripId, p.tripId.bind static.directionLookup, p.location, p.timestampEastern with
  | some trip, some direction, some (lon, lat), some t =>
    some
      { vehicleId := p.vehicleId
        routeId := p.routeId
        directionId := direction
        lat := lat
        lon := lon
        timestampEastern := t
        timeBucket := bucket t
        nearTerminal := nearTerminal frames lat lon (static.tripTerminalLookup trip) }
  | _, _, _, _ => none

/-- The first row of each vehicle in each bucket. -/
def firstSightings (pings : List Ping) : List Sighting :=
  Rows.dropDuplicates (fun s ↦ (s.vehicleId, s.timeBucket))
    (frames.sortValues (pings.filterMap (sighting frames static)))

/-- The pairs of rows of one bucket, route and direction, each unordered pair once. -/
def candidatePairs (rows : List Sighting) : List (Sighting × Sighting) :=
  (rows ×ˢ rows).filter fun (a, b) ↦
    a.timeBucket = b.timeBucket ∧ a.routeId = b.routeId ∧ a.directionId = b.directionId ∧
      a.vehicleId < b.vehicleId

def pairDistance (a b : Sighting) : ℚ := frames.displacementMeters (a.lat, a.lon) (b.lat, b.lon)

def pairRow (pair : Sighting × Sighting) : PairRow :=
  { routeId := pair.1.routeId
    directionId := pair.1.directionId
    vehicleA := pair.1.vehicleId
    vehicleB := pair.2.vehicleId
    timeBucket := pair.1.timeBucket
    distanceMeters := pairDistance frames pair.1 pair.2 }

/-- The close pairs, and the pairs that were seen far apart. Two vehicles at a terminal are staged:
neither close nor apart. -/
def findClosePairs (pings : List Ping) (distanceThreshold : ℚ := distanceThresholdMeters) :
    List PairRow × List PairRow :=
  let pairs := candidatePairs (firstSightings frames static pings)
  let close := pairs.filter fun (a, b) ↦ pairDistance frames a b ≤ distanceThreshold
  let far := pairs.filter fun (a, b) ↦ distanceThreshold < pairDistance frames a b
  let close := close.filter fun (a, b) ↦ !(a.nearTerminal && b.nearTerminal)
  (close.map (pairRow frames), far.map (pairRow frames))

end

/-! ## Events -/

/-- A pair without a route is in no group. -/
def PairRow.key (row : PairRow) : Option PairKey :=
  row.routeId.map fun route ↦ ⟨route, row.directionId, row.vehicleA, row.vehicleB⟩

/-- The columns that the pairs are sorted by; a null route comes last. -/
def PairRow.sortKey (row : PairRow) : Bool ×ₗ String ×ₗ ℤ ×ₗ String ×ₗ String ×ₗ Time :=
  toLex (row.routeId.isNone, toLex (row.routeId.getD "", toLex (row.directionId,
    toLex (row.vehicleA, toLex (row.vehicleB, row.timeBucket)))))

def PairKey.sortKey (key : PairKey) : String ×ₗ ℤ ×ₗ String ×ₗ String :=
  toLex (key.routeId, toLex (key.directionId, toLex (key.vehicleA, key.vehicleB)))

/-- The sorted buckets in which a pair was seen apart. -/
def separatedBuckets (separatedPairs : Option (List PairRow)) (key : PairKey) : List Time :=
  (((separatedPairs.getD []).filter (·.key = some key)).map PairRow.timeBucket).insertionSort
    (· ≤ ·)

/-- Whether two observations that follow each other belong to one run. One skipped bucket is
tolerated where the separations are known and none lies in between. -/
def isConsecutive (separatedPairs : Option (List PairRow)) (key : PairKey) (earlier later : Time) :
    Bool :=
  let gap := later - earlier
  if gap = seconds pollIntervalSeconds then true
  else match separatedPairs with
    | none => false
    | some _ =>
      let tolerated := gap ≤ seconds (pollIntervalSeconds * consecutiveToleranceFactor)
      let broken := (separatedBuckets separatedPairs key).any fun b ↦ earlier < b ∧ b < later
      tolerated && !broken

/-- The event of a run. -/
def runEvent (key : PairKey) (run : List PairRow) : Option BunchingEvent :=
  match run with
  | [] => none
  | row :: rest =>
    some
      { routeId := key.routeId
        directionId := key.directionId
        vehicleA := key.vehicleA
        vehicleB := key.vehicleB
        startTime := row.timeBucket
        endTime := ((row :: rest).getLast (List.cons_ne_nil _ _)).timeBucket
        observationCount := (row :: rest).length
        minDistanceMeters := (rest.map PairRow.distanceMeters).foldl min row.distanceMeters }

/-- The runs of one group, broken wherever two observations are not consecutive, that are long
enough. -/
def groupEvents (minConsecutive : ℕ) (separatedPairs : Option (List PairRow)) (key : PairKey)
    (group : List PairRow) : List BunchingEvent :=
  ((group.splitBy fun r s ↦ isConsecutive separatedPairs key r.timeBucket s.timeBucket).filter
    (minConsecutive ≤ ·.length)).filterMap (runEvent key)

def detectBunchingEvents (closePairs : List PairRow) (separatedPairs : Option (List PairRow))
    (minConsecutive : ℕ := minConsecutiveObservations) : List BunchingEvent :=
  (Rows.groupBy (·.sortKey ≤ ·.sortKey) PairRow.key
    (closePairs.insertionSort (·.sortKey ≤ ·.sortKey))).flatMap fun (key, group) ↦
      groupEvents minConsecutive separatedPairs key group

end GtfsStream.Analytics
