import GtfsStream.Library.Binary64
import GtfsStream.Library.IsoDate
import Mathlib.Algebra.Order.Field.Rat

/-!
# From a decoded feed to the topic

`vehiclesWithValidTelemetries` and the messages of `publishTelemetries`. A number that need not be
finite is none where it is not, and a date is its number of milliseconds, or none where it is out of
range. The timestamp of an entity is the integer that its decimal string denotes.

## What is valid

A position is valid if both coordinates are numbers in their ranges. A vehicle is published if its
position is valid and it has an identifier and a timestamp that is a number. The message has what
the telemetry has, with the date as a text in the ISO format, or null where it is out of range; the
consumer reads it again.
-/

namespace GtfsStream.Ingestion

/-- A number, or none for `NaN` and the infinities. -/
abbrev Number := Option ℚ

/-! ## The decoded feed -/

structure Position where
  latitude : Number
  longitude : Number
  bearing : Option Number := none
  speed : Option Number := none

/-- A decoded vehicle. Fields that are absent are none, also where the message around them is. -/
structure Vehicle where
  tripId : Option String := none
  routeId : Option String := none
  directionId : Option ℕ := none
  vehicleId : Option String := none
  position : Option Position := none
  currentStopSequence : Option ℕ := none
  stopId : Option String := none
  currentStatus : Option String := none
  timestamp : Option ℤ := none

structure DecodedVehiclePosition where
  id : String
  vehicle : Option Vehicle

/-! ## Dates -/

/-- `Number` of the decimal string of an integer. -/
def toNumber (n : ℤ) : Option ℤ :=
  if (Binary64.round n).natAbs < 2 ^ Binary64.maxExponent then some (Binary64.round n) else none

/-- The largest distance of a date from the epoch. -/
def maxDateMillis : ℕ := 8640000000000000

def newDate (ms : ℤ) : Option ℤ := if ms.natAbs ≤ maxDateMillis then some ms else none

/-! ## Validation -/

/-- A record that passed, where an optional field that is absent is null. -/
structure VehicleTelemetry where
  vehicleId : String
  tripId : Option String
  routeId : Option String
  timestamp : Option ℤ
  directionId : Option ℕ
  coordinates : ℚ × ℚ
  bearing : Option Number
  speed : Option Number
  currentStopSequence : Option ℕ
  stopId : Option String
  currentStatus : Option String

/-- The longitude and the latitude of a position that is one. -/
def validCoordinates (position : Position) : Option (ℚ × ℚ) :=
  match position.latitude, position.longitude with
  | some lat, some lon =>
    if lat < -90 ∨ 90 < lat ∨ lon < -180 ∨ 180 < lon then none else some (lon, lat)
  | _, _ => none

def hasValidPosition (vehicle : Vehicle) : Bool := (vehicle.position.bind validCoordinates).isSome

/-- The record of an entity, or none where it is skipped. -/
def validTelemetry (entity : DecodedVehiclePosition) : Option VehicleTelemetry := do
  let vehicle ← entity.vehicle
  let position ← vehicle.position
  let coordinates ← validCoordinates position
  let vehicleId ← vehicle.vehicleId.filter (· ≠ "")
  let validTimestamp ← vehicle.timestamp.bind toNumber
  return {
    vehicleId := vehicleId
    tripId := vehicle.tripId
    routeId := vehicle.routeId
    timestamp := newDate (Binary64.round (validTimestamp * 1000))
    directionId := vehicle.directionId
    coordinates := coordinates
    bearing := position.bearing
    speed := position.speed
    currentStopSequence := vehicle.currentStopSequence
    stopId := vehicle.stopId
    currentStatus := vehicle.currentStatus }

/-- The valid records, and the number of the skipped vehicles. -/
def vehiclesWithValidTelemetries (entities : List DecodedVehiclePosition) :
    List VehicleTelemetry × ℕ :=
  (entities.filterMap validTelemetry, entities.countP fun entity ↦ (validTelemetry entity).isNone)

/-! ## Publication -/

/-- The value of a message. `JSON.stringify` writes null for a number that is not finite and for a
date that is out of range. -/
structure Message where
  agencyId : String
  vehicleId : String
  tripId : Option String
  routeId : Option String
  timestamp : Option String
  directionId : Option ℕ
  coordinates : ℚ × ℚ
  bearing : Option ℚ
  speed : Option ℚ
  currentStopSequence : Option ℕ
  stopId : Option String
  currentStatus : Option String
  ingestedAt : String

/-- The messages that are sent, each under its key. -/
def publishTelemetries (validTelemetries : List VehicleTelemetry) (ingestedAt : String) :
    List (String × Message) :=
  validTelemetries.map fun t ↦ (t.vehicleId, {
    agencyId := "mbta"
    vehicleId := t.vehicleId
    tripId := t.tripId
    routeId := t.routeId
    timestamp := t.timestamp.map Calendar.toISOString
    directionId := t.directionId
    coordinates := t.coordinates
    bearing := t.bearing.join
    speed := t.speed.join
    currentStopSequence := t.currentStopSequence
    stopId := t.stopId
    currentStatus := t.currentStatus
    ingestedAt := ingestedAt })

/-! ## The date of a timestamp -/

/-- The largest timestamp of a date. -/
def maxDateSeconds : ℕ := 8640000000000

theorem toNumber_of_le {n : ℤ} (h : n.natAbs ≤ maxDateSeconds) : toNumber n = some n := by
  rw [maxDateSeconds] at h
  have hround : Binary64.round n = n := by
    refine Binary64.round_of_lt ?_
    rw [Binary64.precision]
    omega
  rw [toNumber, hround, if_pos]
  calc n.natAbs < 2 ^ 53 := by omega
    _ ≤ 2 ^ Binary64.maxExponent := Nat.pow_le_pow_right (by decide) (by decide)

theorem newDate_of_le {n : ℤ} (h : n.natAbs ≤ maxDateSeconds) :
    newDate (Binary64.round (n * 1000)) = some (n * 1000) := by
  rw [maxDateSeconds] at h
  have hround : Binary64.round (n * 1000) = n * 1000 := by
    refine Binary64.round_of_lt ?_
    rw [Binary64.precision]
    omega
  rw [hround, newDate, maxDateMillis, if_pos]
  omega

theorem newDate_of_lt {n : ℤ} (h : maxDateSeconds < n.natAbs) :
    newDate (Binary64.round (Binary64.round n * 1000)) = none := by
  rw [maxDateSeconds] at h
  have hbeyond {m : ℤ} (hm : maxDateMillis < m.natAbs) :
      maxDateMillis < (Binary64.round m).natAbs := by
    rw [maxDateMillis] at hm ⊢
    by_cases hlt : m.natAbs < 2 ^ Binary64.precision
    · rwa [Binary64.round_of_lt hlt]
    · have hle := Binary64.le_natAbs_round (not_lt.mp hlt)
      rw [Binary64.precision] at hle
      omega
  have hsecond : maxDateSeconds < (Binary64.round n).natAbs := by
    rw [maxDateSeconds]
    by_cases hlt : n.natAbs < 2 ^ Binary64.precision
    · rwa [Binary64.round_of_lt hlt]
    · have hle := Binary64.le_natAbs_round (not_lt.mp hlt)
      rw [Binary64.precision] at hle
      omega
  have hmillis := hbeyond (m := Binary64.round n * 1000) (by
    rw [maxDateSeconds] at hsecond
    rw [maxDateMillis]
    omega)
  rw [newDate, if_neg (not_le.mpr hmillis)]

/-- The date of a timestamp is its moment, or none out of the range of the dates. -/
theorem newDate_eq {n m : ℤ} (h : toNumber n = some m) :
    newDate (Binary64.round (m * 1000)) =
      if n.natAbs ≤ maxDateSeconds then some (n * 1000) else none := by
  split_ifs with hle
  · rw [toNumber_of_le hle] at h
    rw [← Option.some.inj h, newDate_of_le hle]
  · rw [toNumber] at h
    split_ifs at h
    rw [← Option.some.inj h, newDate_of_lt (not_le.mp hle)]

end GtfsStream.Ingestion
