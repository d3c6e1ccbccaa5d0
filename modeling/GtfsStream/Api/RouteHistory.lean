import GtfsStream.Api.RoutePerformance
import GtfsStream.Hourly.Sink

/-!
# The history of a route

`createRouteHistoryRouter`: `GET /v1/routes/:id/history`. What PostgreSQL computes for so many days
before now, which depends on the time zone of its session, is a parameter. Numbers are exact, and
the log line is left out.
-/

namespace GtfsStream.Api

open Hourly (HourlyStats Table)

def defaultDays : ℤ := 7

def maxDays : ℤ := 90

structure HourlyDataPoint where
  hour : String
  avgDeviation : ℚ
  p95Deviation : ℤ
  vehicleCount : ℕ
  onTimePct : ℚ
  bunchingEvents : ℕ
  deriving DecidableEq

structure RouteHistoryResponse where
  routeId : String
  days : ℤ
  dataPoints : List HourlyDataPoint
  deriving DecidableEq

/-! ## The parameter -/

/-- The white space and the line terminators of JavaScript. -/
def isWhitespace (c : Char) : Bool :=
  c.toNat ∈ [9, 10, 11, 12, 13, 32, 160, 5760, 8232, 8233, 8239, 8287, 12288, 65279] ∨
    8192 ≤ c.toNat ∧ c.toNat ≤ 8202

/-- `parseInt(text, 10)`; none for `NaN`. What follows the digits is ignored. -/
def parseInt (text : String) : Option ℤ :=
  let trimmed := text.toList.dropWhile isWhitespace
  let unsigned := match trimmed with
    | '-' :: rest => rest
    | '+' :: rest => rest
    | rest => rest
  match unsigned.takeWhile Char.isDigit with
  | [] => none
  | digits =>
    let value : ℤ := Calendar.ofDigits digits
    some (if trimmed.head? = some '-' then -value else value)

/-- The days of a request, from the text of its parameter if it has one. -/
def clampDays (text : Option String) : ℤ :=
  let days := match text.bind parseInt with
    | some days => if days < 1 then defaultDays else days
    | none => defaultDays
  if maxDays < days then maxDays else days

/-! ## The query -/

/-- What the statement selects: the rows of the route from an hour on, in the order of the hours. -/
structure SelectsHours (table : Table) (routeId : String) (since : Time) (rows : List HourlyStats) :
    Prop where
  nodup : rows.Nodup
  ordered : rows.Pairwise fun row row' ↦ row.hour ≤ row'.hour
  mem_iff : ∀ row, row ∈ rows ↔
    (∃ key, table key = some row) ∧ row.routeId = routeId ∧ since ≤ row.hour

/-! ## The response -/

/-- `Math.round(x * 10) / 10` -/
def oneDecimal (x : ℚ) : ℚ := mathRound (x * 10) / 10

def dataPoint (row : HourlyStats) : HourlyDataPoint where
  hour := isoString row.hour
  avgDeviation := oneDecimal row.avgDeviation
  p95Deviation := mathRound row.p95Deviation
  vehicleCount := row.vehicleCount
  onTimePct := oneDecimal row.onTimePct
  bunchingEvents := row.bunchingEvents

/-- The response to a request, or its status and error. -/
def routeHistory (routeId : String) (daysText : Option String) (rows : List HourlyStats) :
    Except (ℕ × String) RouteHistoryResponse :=
  if validRouteId routeId = false then .error (400, "Invalid route ID format")
  else
    .ok
      { routeId := routeId
        days := clampDays daysText
        dataPoints := rows.map dataPoint }

example : [some " 14 days", some "-5", some "999", some "abc", none].map clampDays =
    [14, 7, 90, 7, 7] := by decide

end GtfsStream.Api
