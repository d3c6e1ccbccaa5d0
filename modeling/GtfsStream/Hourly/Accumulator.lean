import GtfsStream.Analytics.Consumer
import GtfsStream.Library.FloatArithmetic
import GtfsStream.Library.Grouping
import Mathlib.Data.Finset.Card
import Mathlib.Data.Rat.Floor

/-!
# The hourly accumulator

`HourlyAccumulator`: what the windows of an hour bring, route by route, and the rows that it becomes
at the boundary of the hour. A window counts for the hour that was current when it was handed over.

Averages and percentiles are exact. The share is computed in binary64 as the source does, since the
last place decides where it is rounded to a tenth: of 80 vehicles 23 on time are 28.7 percent, and
not 28.8, because the float below 28.75 comes out.
-/

namespace GtfsStream.Hourly

open Analytics (BunchingEvent DeviationResult WindowResult)

def onTimeThresholdSeconds : ℕ := 180

/-- What has accumulated for a route. -/
structure RouteData where
  deviations : List Time := []
  vehicleIds : Finset String := ∅
  onTimeCount : ℕ := 0
  totalCount : ℕ := 0
  newBunching : ℕ := 0

/-- What a window brings: its deviations and its "new" bunching actions. -/
inductive Item
  | deviation (dev : DeviationResult)
  | newBunching (event : BunchingEvent)

/-- The route that an item counts for. -/
def Item.route : Item → String
  | .deviation dev => match dev.routeId with
    | some route => if route = "" then "unknown" else route
    | none => "unknown"
  | .newBunching event => event.routeId

def RouteData.add (data : RouteData) : Item → RouteData
  | .deviation dev =>
    let absDev := |dev.deviationSeconds|
    { data with
      deviations := data.deviations ++ [absDev]
      vehicleIds := insert dev.vehicleId data.vehicleIds
      totalCount := data.totalCount + 1
      onTimeCount :=
        if absDev ≤ seconds onTimeThresholdSeconds then data.onTimeCount + 1 else data.onTimeCount }
  | .newBunching _ => { data with newBunching := data.newBunching + 1 }

def windowItems (result : WindowResult) : List Item :=
  result.newDeviations.map Item.deviation ++
    (result.bunchingActions.filter (·.1 = .new)).map fun a ↦ Item.newBunching a.2

@[ext]
structure HourlyAccumulator where
  currentHour : Option Time := none
  routeData : List (String × RouteData) := []

/-- One row of `route_hourly_stats`. -/
structure HourlyStats where
  routeId : String
  hour : Time
  avgDeviation : ℚ
  p95Deviation : ℚ
  vehicleCount : ℕ
  onTimePct : ℚ
  bunchingEvents : ℕ
  deriving DecidableEq

/-- The primary key of the table. -/
def HourlyStats.key (row : HourlyStats) : String × Time := (row.routeId, row.hour)

/-! ## The statistics of an hour -/

/-- A number of seconds. -/
def inSeconds (t : Time) : ℚ := t / 1000000

/-- The linear interpolation at 95 percent of sorted values. -/
def computeP95 (sortedValues : List Time) : ℚ :=
  match sortedValues with
  | [] => 0
  | [value] => inSeconds value
  | values =>
    let floatIndex : ℚ := 95 * (values.length - 1 : ℕ) / 100
    let lowerIndex := 95 * (values.length - 1) / 100
    let upperIndex := min (values.length - 1) (lowerIndex + 1)
    let weight := floatIndex - lowerIndex
    inSeconds (values.getD lowerIndex 0) * (1 - weight) +
      inSeconds (values.getD upperIndex 0) * weight

/-- Rounding to one decimal, ties to even. -/
def roundToTenth (q : ℚ) : ℚ := (round (q * 10) - if Int.fract (q * 10) = 1 / 2 ∧
  round (q * 10) % 2 = 1 then 1 else 0 : ℤ) / 10

/-- The row of a route. -/
def routeStats (hour : Time) (routeId : String) (data : RouteData) : HourlyStats where
  routeId := routeId
  hour := hour
  avgDeviation :=
    if 0 < data.totalCount then inSeconds data.deviations.sum / data.totalCount else 0
  p95Deviation := computeP95 (data.deviations.mergeSort (· ≤ ·))
  vehicleCount := data.vehicleIds.card
  onTimePct :=
    if 0 < data.totalCount then
      roundToTenth (Binary64.roundRat
        (Binary64.roundRat ((data.onTimeCount : ℚ) / data.totalCount) * (100 : ℕ)))
    else 0
  bunchingEvents := data.newBunching

example : (routeStats 0 "" { onTimeCount := 23, totalCount := 80 }).onTimePct = 287 / 10 := by
  decide +kernel

/-- The rows of the routes for which something has accumulated. -/
def flushRoutes (hour : Time) (routeData : List (String × RouteData)) : List HourlyStats :=
  routeData.filterMap fun (routeId, data) ↦
    if data.totalCount = 0 ∧ data.newBunching = 0 then none else some (routeStats hour routeId data)

/-! ## The accumulator -/

/-- The beginning of the hour of a time. -/
def hourOf (t : Time) : Time := t - t % hours 1

namespace HourlyAccumulator

variable (accumulator : HourlyAccumulator)

def accumulate (result : WindowResult) : HourlyAccumulator :=
  { accumulator with
    routeData := (windowItems result).foldl
      (fun data item ↦ Grouping.modify {} item.route (RouteData.add · item) data)
      accumulator.routeData }

/-- The rows of the hour that is over, if one is, and the accumulator after it. -/
def maybeFlush (referenceTime : Time) : Option (List HourlyStats) × HourlyAccumulator :=
  let currentHour := hourOf referenceTime
  match accumulator.currentHour with
  | none => (none, { accumulator with currentHour := some currentHour })
  | some hour =>
    if currentHour = hour then (none, accumulator)
    else (some (flushRoutes hour accumulator.routeData), { currentHour := some currentHour })

/-- The rows of the hour that the process ends in. -/
def flushRemaining : Option (List HourlyStats) × HourlyAccumulator :=
  match accumulator.currentHour with
  | none => (none, accumulator)
  | some hour =>
    if accumulator.routeData.isEmpty then (none, accumulator)
    else (some (flushRoutes hour accumulator.routeData), { accumulator with routeData := [] })

end HourlyAccumulator

end GtfsStream.Hourly
