import GtfsStream.Analytics.Feed
import GtfsStream.Library.Rows
import Mathlib.Data.Prod.Lex
import Mathlib.Data.String.Basic

/-!
# Schedule deviation

`to_eastern`, `resolve_scheduled_datetime`, `collapse_to_first_arrival`,
`compute_arrival_deviations` and `compute_matching_stats`. The time zone database is a parameter:
the calendar day of a moment in the agency's zone, and the noon of a day.

The calendar has the years 1 to 9999, and every conversion and sum that leaves it raises. A moment
of its first or last day is anchored next to a day that does not exist, so its deviation cannot be
computed, and with it those of the whole frame.

A stop sequence is a number, which need not be an integer; the schedule has integers only. What is
counted against the schedule is the truncated number.
-/

namespace GtfsStream.Analytics

open Rows (getNumber truncate)

/-! ## The calendar -/

/-- The agency's time zone. Days are numbered so that consecutive days have consecutive numbers;
the first and the last are those of the calendar. -/
structure Zone where
  date : Time → ℤ
  noon : ℤ → Time
  firstDay : ℤ
  lastDay : ℤ

/-- The zone while standard time holds: five hours behind UTC. -/
def easternStandardTime : Zone where
  date t := (t - hours 5) / hours 24
  noon day := day * hours 24 + hours 17
  firstDay := -719162
  lastDay := 2932896

/-- The years 1 and 10000 begin, in UTC. -/
def calendarStart : Time := -62135596800 * 1000000

def calendarEnd : Time := 253402300800 * 1000000

namespace Zone

variable (zone : Zone)

def HasDay (day : ℤ) : Prop := zone.firstDay ≤ day ∧ day ≤ zone.lastDay

/-- The moment has a date in UTC and in the zone. -/
def HasTime (t : Time) : Prop :=
  calendarStart ≤ t ∧ t < calendarEnd ∧ zone.HasDay (zone.date t)

instance (day : ℤ) : Decidable (zone.HasDay day) := inferInstanceAs (Decidable (_ ∧ _))

instance (t : Time) : Decidable (zone.HasTime t) := inferInstanceAs (Decidable (_ ∧ _ ∧ _))

/-- The `Timestamp` of a moment, none where it raises. -/
def timestamp (t : Time) : Option Time := if zone.HasTime t then some t else none

theorem timestamp_eq_some {t u : Time} : zone.timestamp t = some u ↔ zone.HasTime t ∧ t = u := by
  rw [timestamp]
  split_ifs with h
  · rw [Option.some.injEq, and_iff_right h]
  · exact iff_of_false nofun fun hu ↦ h hu.1

/-- `to_eastern`: it raises on what is no moment of the calendar, and a null stays null. -/
def toEastern : Timestamp → Option (Option Time)
  | .instant t => (zone.timestamp t).map some
  | .null => some none
  | .unparseable => none

end Zone

inductive Kind
  | arrival
  | departure
  deriving DecidableEq

/-- The deviation of one observed arrival or departure, positive when late. -/
structure DeviationResult where
  vehicleId : String
  tripId : String
  stopSequence : ℤ
  kind : Kind
  scheduledAt : Time
  actualAt : Time
  deviationSeconds : Time
  location : Option (ℚ × ℚ) := none
  routeId : Option String := none
  routeLongName : Option String := none
  deriving DecidableEq

/-! ## The scheduled moment -/

/-- The scheduled moment of a service day, which starts twelve hours before its noon. -/
def serviceDatetime (zone : Zone) (scheduledSeconds : ℕ) (day : ℤ) : Option Time :=
  if zone.HasDay day then do
    let noon ← zone.timestamp (zone.noon day)
    let anchor ← zone.timestamp (noon - hours 12)
    zone.timestamp (anchor + seconds scheduledSeconds)
  else none

/-- The closer of two moments to `actual`, the first of equals. -/
def closer (actual best c : Time) : Time := if |c - actual| < |best - actual| then c else best

/-- The scheduled moment of the previous, the same or the next service day, whichever is closest;
none where one of the three raises. -/
def resolveScheduledDatetime (zone : Zone) (actual : Time) (scheduledSeconds : ℕ) :
    Option Time := do
  let candidate (delta : ℤ) := serviceDatetime zone scheduledSeconds (zone.date actual + delta)
  let previous ← candidate (-1)
  let same ← candidate 0
  let next ← candidate 1
  return closer actual (closer actual previous same) next

/-! ## First arrivals -/

/-- A stop visit: vehicle, trip and stop sequence. -/
abbrev VisitKey := String × String × ℚ

def Ping.visitKey (p : Ping) : Option VisitKey :=
  match p.tripId, p.currentStopSequence with
  | some trip, some seq => some (p.vehicleId, trip, seq)
  | _, _ => none

def visitOrder (a b : VisitKey) : Prop :=
  toLex (a.1, toLex (a.2.1, a.2.2)) ≤ toLex (b.1, toLex (b.2.1, b.2.2))

instance : DecidableRel visitOrder := fun a b ↦
  inferInstanceAs
    (Decidable (toLex (a.1, toLex (a.2.1, a.2.2)) ≤ toLex (b.1, toLex (b.2.1, b.2.2))))

/-- The earliest time of the rows, or none where all are null. -/
def earliest (rows : List Ping) : Option Time := (rows.filterMap Ping.timestampEastern).min?

/-- The earliest time of each visit over its `STOPPED_AT` rows. -/
def collapseToFirstArrival (pings : List Ping) : List (VisitKey × Option Time) :=
  let stopped := pings.filter (·.currentStatus = some "STOPPED_AT")
  (Rows.groupBy visitOrder Ping.visitKey stopped).map fun (key, group) ↦ (key, earliest group)

/-- The scheduled arrival of a stop, in seconds of the service day. -/
def scheduledSeconds (stopTimesLookup : String × ℤ → Option ScheduledStopTime) (trip : String)
    (seq : ℚ) : Option ℕ :=
  (getNumber (fun n ↦ stopTimesLookup (trip, n)) seq).bind ScheduledStopTime.arrivalTime

/-- The deviation of a first arrival, where the schedule has an arrival time. It fails on a null
time, which has no calendar day, and at the ends of the calendar. -/
def arrivalResult (zone : Zone) (stopTimesLookup : String × ℤ → Option ScheduledStopTime)
    (row : VisitKey × Option Time) : Option (Option DeviationResult) :=
  let (vehicle, trip, seq) := row.1
  match scheduledSeconds stopTimesLookup trip seq, row.2 with
  | none, _ => some none
  | some _, none => none
  | some scheduled, some actual => do
    let scheduledAt ← resolveScheduledDatetime zone actual scheduled
    return some
      { vehicleId := vehicle
        tripId := trip
        stopSequence := truncate seq
        kind := .arrival
        scheduledAt := scheduledAt
        actualAt := actual
        deviationSeconds := actual - scheduledAt }

def computeArrivalDeviations (zone : Zone)
    (stopTimesLookup : String × ℤ → Option ScheduledStopTime) (pings : List Ping) :
    Option (List DeviationResult) :=
  ((collapseToFirstArrival pings).mapM (arrivalResult zone stopTimesLookup)).map
    fun results ↦ results.filterMap id

/-! ## Matching -/

/-- How the pings of a window matched against the schedule. -/
structure MatchingStats where
  totalPings : ℕ
  matchedPings : ℕ
  missingFieldPings : ℕ
  unmatchedPings : ℕ
  gateDroppedEvents : ℕ := 0
  deriving DecidableEq

instance : Add MatchingStats where
  add a b :=
    { totalPings := a.totalPings + b.totalPings
      matchedPings := a.matchedPings + b.matchedPings
      missingFieldPings := a.missingFieldPings + b.missingFieldPings
      unmatchedPings := a.unmatchedPings + b.unmatchedPings
      gateDroppedEvents := a.gateDroppedEvents + b.gateDroppedEvents }

/-- The key that a ping is looked up by; an empty trip counts as a missing field. -/
def Ping.stopTimesKey (p : Ping) : Option (String × ℤ) :=
  match p.tripId, p.currentStopSequence with
  | some trip, some seq => if trip = "" then none else some (trip, truncate seq)
  | _, _ => none

def computeMatchingStats (pings : List Ping)
    (stopTimesLookup : String × ℤ → Option ScheduledStopTime) : MatchingStats :=
  let keys := pings.filterMap Ping.stopTimesKey
  { totalPings := pings.length
    matchedPings := keys.countP fun key ↦ (stopTimesLookup key).isSome
    missingFieldPings := pings.countP fun p ↦ p.stopTimesKey.isNone
    unmatchedPings := keys.countP fun key ↦ (stopTimesLookup key).isNone }

theorem computeMatchingStats_total (pings : List Ping)
    (stopTimesLookup : String × ℤ → Option ScheduledStopTime) :
    (computeMatchingStats pings stopTimesLookup).totalPings =
      (computeMatchingStats pings stopTimesLookup).matchedPings +
        (computeMatchingStats pings stopTimesLookup).missingFieldPings +
        (computeMatchingStats pings stopTimesLookup).unmatchedPings := by
  rw [computeMatchingStats]
  dsimp only
  induction pings with
  | nil => rfl
  | cons p pings ih =>
    rw [List.length_cons, ih, List.countP_cons]
    cases hp : p.stopTimesKey with
    | none =>
      rw [List.filterMap_cons_none hp]
      simp only [Option.isNone_none, ↓reduceIte]
      omega
    | some key =>
      rw [List.filterMap_cons_some hp, List.countP_cons, List.countP_cons]
      cases stopTimesLookup key <;>
        simp only [Option.isNone_some, Option.isSome_some, Option.isSome_none, Option.isNone_none,
          Bool.false_eq_true, ↓reduceIte] <;> omega

end GtfsStream.Analytics
