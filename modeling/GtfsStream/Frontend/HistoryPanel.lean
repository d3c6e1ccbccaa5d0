import GtfsStream.Api.RouteHistory
import GtfsStream.Frontend.HistoryChart
import GtfsStream.Library.FloatArithmetic

/-!
# The history section of the panel

`renderHistory` and `drawChart`: the summary of the hourly points of a route and the chart above it.
Of the chart is kept what its columns and their tooltips show, and of the summary the numbers that
its texts show. The canvas and the chart library are there.

The decimals of the response are read as binary64 numbers, and the summary adds them up and divides
in binary64, since that decides how a mean next to a tie is shown. Counts are exact, and so are the
values of the columns.
-/

namespace GtfsStream.Frontend

/-- A point of the response, with its decimals read and its hour read as a date. -/
def readPoint (point : Api.HourlyDataPoint) : Option HourlyDataPoint :=
  (Calendar.readIso point.hour).map fun hour ↦
    { hour := hour
      avgDeviation := Binary64.roundRat point.avgDeviation
      p95Deviation := point.p95Deviation
      vehicleCount := point.vehicleCount
      onTimePct := Binary64.roundRat point.onTimePct
      bunchingEvents := point.bunchingEvents }

/-! ## The summary -/

/-- What the loop over the points accumulates. -/
structure SummarySums where
  sumOnTime : ℚ := 0
  sumAvgDev : ℚ := 0
  sumVehicles : ℚ := 0
  sumBunching : ℚ := 0
  worstOnTime : ℚ := 101
  worstHour : Option ℤ := none
  servedHours : ℕ := 0

/-- The body of the loop: an hour without service is skipped after its totals. -/
def SummarySums.add (s : SummarySums) (p : HourlyDataPoint) : SummarySums :=
  let counted : SummarySums :=
    { s with
      sumVehicles := s.sumVehicles + p.vehicleCount
      sumBunching := s.sumBunching + p.bunchingEvents }
  if p.vehicleCount = 0 then counted
  else
    let served : SummarySums :=
      { counted with
        servedHours := s.servedHours + 1
        sumOnTime := Binary64.roundRat (s.sumOnTime + p.onTimePct)
        sumAvgDev := Binary64.roundRat (s.sumAvgDev + p.avgDeviation) }
    if p.onTimePct < s.worstOnTime then
      { served with worstOnTime := p.onTimePct, worstHour := some p.hour }
    else served

def summarySums (points : List HourlyDataPoint) : SummarySums := points.foldl SummarySums.add {}

/-- `x.toFixed(digits)`, where a tie is rounded away from zero. -/
def toFixed (digits : ℕ) (x : ℚ) : ℚ :=
  if x < 0 then -(Api.mathRound (-x * 10 ^ digits) / 10 ^ digits)
  else Api.mathRound (x * 10 ^ digits) / 10 ^ digits

/-- The numbers that are shown; none for a dash. -/
structure HistorySummary where
  avgOnTime : Option ℚ
  avgDeviation : Option ℤ
  worstHour : Option ℚ
  totalVehicles : ℚ
  bunchingEvents : ℚ
  dataPoints : ℕ
  deriving DecidableEq

/-- The summary, or none for the note that there is no data. -/
def historySummary (points : List HourlyDataPoint) : Option HistorySummary :=
  if points = [] then none
  else
    let s := summarySums points
    let hasService : Bool := 0 < s.servedHours
    some
      { avgOnTime :=
          if hasService then some (toFixed 1 (Binary64.roundRat (s.sumOnTime / s.servedHours)))
          else none
        avgDeviation :=
          if hasService then some (Api.mathRound (Binary64.roundRat (s.sumAvgDev / s.servedHours)))
          else none
        worstHour := if hasService then some (toFixed 0 s.worstOnTime) else none
        totalVehicles := s.sumVehicles
        bunchingEvents := s.sumBunching
        dataPoints := points.length }

/-! ## The chart -/

/-- What is drawn and shown for an hour or a bucket: the value on the line, the bar behind it and
the average deviation, where there are any, and the counts of the tooltip. -/
structure Column where
  value : Option ℚ
  range : Option (ℚ × ℚ)
  deviation : Option ℚ
  hours : ℕ
  vehicles : ℚ
  bunching : ℚ

/-- `drawHourly`: a line through the hours with service. -/
def hourColumn (p : HourlyDataPoint) : Column where
  value := if 0 < p.vehicleCount then some p.onTimePct else none
  range := none
  deviation := if 0 < p.vehicleCount then some p.avgDeviation else none
  hours := if 0 < p.vehicleCount then 1 else 0
  vehicles := p.vehicleCount
  bunching := p.bunchingEvents

/-- `drawBuckets`: the weighted value, and a bar from the worst to the best hour. -/
def bucketColumn (b : Bucket) : Column where
  value := b.weightedOnTime
  range := if 0 < b.hours then b.minOnTime.bind fun m ↦ b.maxOnTime.map fun m' ↦ (m, m') else none
  deviation := b.weightedAvgDev
  hours := b.hours
  vehicles := b.vehicleTotal
  bunching := b.bunchingTotal

/-- The columns of the chart; none if nothing is drawn. -/
def drawChart (z : TimeZone) (points : List HourlyDataPoint) (days : ℕ) : Option (List Column) :=
  if points = [] then none
  else
    let bucketHours := bucketHoursForDays days
    if bucketHours ≤ 1 then some (points.map hourColumn)
    else some ((aggregateBuckets z points bucketHours).map bucketColumn)

end GtfsStream.Frontend
