import GtfsStream.Api.Live
import GtfsStream.Hourly.Percentile
import GtfsStream.Library.FloatArithmetic

/-!
# The performance of a route

`createRoutePerformanceRouter`: `GET /v1/routes/:id/performance`. The two aggregations are read as
what their stages do with the documents that match. Their numbers are exact here, except for the
share, which is computed in binary64 because the last place decides where it is rounded. The log
line is left out.
-/

namespace GtfsStream.Api

open Analytics
open Hourly (inSeconds)
open Hourly.RoutePerformance (computeP95)

def onTimeThresholdSeconds : ℚ := 180

structure RouteDeviationStats where
  count : ℕ
  avgSeconds : ℤ
  p95Seconds : ℤ
  maxSeconds : ℤ
  vehiclesOnTimePct : ℚ
  deriving DecidableEq

structure RouteBunchingStats where
  activeEvents : ℕ
  worstDistanceMeters : Option ℚ
  deriving DecidableEq

structure RoutePerformanceResponse where
  routeId : String
  routeLongName : Option String
  deviation : RouteDeviationStats
  bunching : RouteBunchingStats

/-- `Math.round`: a tie goes up. -/
def mathRound (x : ℚ) : ℤ := ⌊x + 1 / 2⌋

/-- The route ids that are looked up: letters, digits and hyphens, at least one of them. -/
def validRouteId (routeId : String) : Bool :=
  routeId ≠ "" ∧ routeId.toList.all fun c ↦ c.isAlphanum || c = '-'

/-! ## Aggregation -/

/-- The filter of the deviations of a route. -/
def matchDeviation (routeId : String) (cutoff : Time) (d : DeviationDocument) : Prop :=
  d.routeId = some routeId ∧ cutoff ≤ d.actualAt

/-- The filter of the bunching events of a route. -/
def matchBunching (routeId : String) (cutoff : Time) (key : BunchingKey) (d : BunchingDocument) :
    Prop :=
  key.1.routeId = routeId ∧ cutoff ≤ d.endTime

/-- What the first stage groups of the deviations: nothing of no documents. -/
structure DeviationGroup where
  count : ℕ
  avgAbs : ℚ
  maxAbs : ℚ
  allAbs : List ℚ
  onTimeCount : ℕ
  routeLongName : Option String

def absSeconds (d : DeviationDocument) : ℚ := |inSeconds d.deviationSeconds|

def groupDeviations (deviationDocs : List DeviationDoc) : Option DeviationGroup :=
  match deviationDocs with
  | [] => none
  | first :: rest =>
    let allAbs := (first :: rest).map fun doc ↦ absSeconds doc.2
    some
      { count := allAbs.length
        avgAbs := allAbs.sum / allAbs.length
        maxAbs := allAbs.max?.getD 0
        allAbs := allAbs
        onTimeCount := allAbs.countP fun seconds ↦ seconds ≤ onTimeThresholdSeconds
        routeLongName := first.2.routeLongName }

/-- The number of events and the worst of their distances; nothing of no documents. -/
def groupBunching (bunchingDocs : List BunchingDoc) : Option (ℕ × ℚ) :=
  match (bunchingDocs.map fun doc ↦ doc.2.minDistanceMeters).min? with
  | none => none
  | some worst => some (bunchingDocs.length, worst)

/-! ## The response -/

def deviationStats (group : Option DeviationGroup) : RouteDeviationStats :=
  match group with
  | some doc =>
    if 0 < doc.count then
      { count := doc.count
        avgSeconds := mathRound doc.avgAbs
        p95Seconds := mathRound (computeP95 (doc.allAbs.mergeSort (· ≤ ·)))
        maxSeconds := mathRound doc.maxAbs
        vehiclesOnTimePct :=
          mathRound (Binary64.roundRat
            (Binary64.roundRat ((doc.onTimeCount : ℚ) / doc.count) * (1000 : ℕ))) / 10 }
    else ⟨0, 0, 0, 0, 0⟩
  | none => ⟨0, 0, 0, 0, 0⟩

def bunchingStats (group : Option (ℕ × ℚ)) : RouteBunchingStats where
  activeEvents := (group.map Prod.fst).getD 0
  worstDistanceMeters := group.map Prod.snd

/-- The response to a request, or its status and error, from what the two aggregations match. -/
def routePerformance (routeId : String) (deviationDocs : List DeviationDoc)
    (bunchingDocs : List BunchingDoc) : Except (ℕ × String) RoutePerformanceResponse :=
  if validRouteId routeId = false then .error (400, "Invalid route ID format")
  else
    let group := groupDeviations deviationDocs
    .ok
      { routeId := routeId
        routeLongName := group.bind DeviationGroup.routeLongName
        deviation := deviationStats group
        bunching := bunchingStats (groupBunching bunchingDocs) }

example : (validRouteId "Green-D", validRouteId "", validRouteId "28/../x") =
    (true, false, false) := by decide

end GtfsStream.Api
