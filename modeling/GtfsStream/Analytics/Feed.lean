import GtfsStream.Library.Time
import Mathlib.Algebra.Order.Field.Rat

/-!
# The feed and the static lookups

What a message of the vehicle-positions topic holds, as far as the analytics engine reads it, and
the lookups of `GtfsStaticData`. Coordinates are the rationals that the floats stand for. The
lookups are dictionaries, here the functions of their `get`.
-/

namespace GtfsStream.Analytics

/-- The `timestamp` of a message. The ingestion service writes null for a date that is out of
range. -/
inductive Timestamp
  | instant (t : Time)
  | null
  | unparseable
  deriving DecidableEq

/-- The value of a message that decodes, with the offset of the message, which the code does not
read. The coordinates of `location` are longitude, latitude. -/
structure Ping where
  offset : ℕ := 0
  vehicleId : String
  tripId : Option String := none
  routeId : Option String := none
  timestamp : Timestamp
  location : Option (ℚ × ℚ) := none
  currentStopSequence : Option ℚ := none
  stopId : Option String := none
  currentStatus : Option String := none
  deriving DecidableEq

/-- The message without its offset, which the consumer does not read. -/
def Ping.unnumbered (p : Ping) : Ping := { p with offset := 0 }

/-- The column `timestamp_eastern`: `to_eastern` leaves an instant where it is, and a null stays
null. -/
def Ping.timestampEastern (p : Ping) : Option Time :=
  match p.timestamp with
  | .instant t => some t
  | .null | .unparseable => none

/-- One row of `stop_times.txt`, its times in seconds of the service day. -/
structure ScheduledStopTime where
  tripId : String
  stopSequence : ℤ
  arrivalTime : Option ℕ
  departureTime : Option ℕ
  stopId : Option String := none

structure StopInfo where
  stopLat : Option ℚ
  stopLon : Option ℚ

/-- The first and the last stop of a trip. -/
abbrev Terminals := Option StopInfo × Option StopInfo

structure GtfsStaticData where
  directionLookup : String → Option ℤ
  tripTerminalLookup : String → Option Terminals
  stopTimesLookup : String × ℤ → Option ScheduledStopTime
  stopsLookup : String → Option StopInfo
  tripRouteLookup : String → Option String
  routesLookup : String → Option String

end GtfsStream.Analytics
