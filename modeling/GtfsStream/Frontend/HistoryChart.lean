import GtfsStream.Library.IsoDate
import GtfsStream.Library.TimeZone
import Mathlib.Data.Rat.Defs

/-!
# The buckets of the history chart

`aggregateBuckets` collapses the hourly points of a route into buckets that are aligned to the local
midnights of the viewer. First every bucket from the first to the last local day is built, and then
each point is added to the bucket whose start is the one computed from the point. A `Date` is the
number of its milliseconds, an hour the instant that its text stands for, and a label or a title is
kept as what its text shows. Numbers are exact.
-/

namespace GtfsStream.Frontend

open Calendar

structure HourlyDataPoint where
  hour : ℤ
  avgDeviation : ℚ
  p95Deviation : ℚ
  vehicleCount : ℚ
  onTimePct : ℚ
  bunchingEvents : ℚ

/-! ## The bucket size -/

def bucketHoursByDays (days : ℕ) : Option ℕ :=
  [(1, 1), (3, 3), (7, 6), (14, 12), (30, 24), (90, 72)].lookup days

/-- The smallest size that keeps the chart at 40 points or so, if there is no preset. -/
def bucketHoursForDays (days : ℕ) : ℕ :=
  match bucketHoursByDays days with
  | some preset => preset
  | none => ([1, 3, 6, 12, 24, 72].find? fun h ↦ (days * 24 + h - 1) / h ≤ 40).getD 72

/-! ## Local dates -/

section

variable (z : TimeZone) (d : ℤ)

/-- The local day, counted from 1970-01-01. -/
def localDay : ℤ := z.localTime d / millisPerDay

def getFullYear : ℤ := (civil (localDay z d)).1

/-- January is 0. -/
def getMonth : ℕ := (civil (localDay z d)).2.1 - 1

def getDate : ℕ := (civil (localDay z d)).2.2

def getHours : ℤ := z.localTime d % millisPerDay / millisPerHour

/-- `new Date(year, month, date, hours)`. The years from 0 to 99 are taken as those from 1900 on. -/
def newDate (year : ℤ) (month : ℕ) (date hours : ℤ) : ℤ :=
  let fullYear := if 0 ≤ year ∧ year ≤ 99 then 1900 + year else year
  z.utc ((ofCivil fullYear (month + 1) 1 + date - 1) * millisPerDay + hours * millisPerHour)

def epochDay : ℤ := newDate z 1970 0 1 0

def startOfLocalDay : ℤ := newDate z (getFullYear z d) (getMonth z d) (getDate z d) 0

/-- `Math.round(n / m)`, where halves are rounded up. -/
def mathRound (n m : ℤ) : ℤ := (2 * n + m) / (2 * m)

def localDayIndex : ℤ := mathRound (startOfLocalDay z d - epochDay z) millisPerDay

def dayFromIndex (dayIndex : ℤ) : ℤ := newDate z 1970 0 (1 + dayIndex) 0

/-- The start of the bucket of an instant. -/
def bucketStart (bucketHours : ℕ) : ℤ :=
  if bucketHours ≤ 1 then
    newDate z (getFullYear z d) (getMonth z d) (getDate z d) (getHours z d)
  else if bucketHours < 24 then
    let hour := getHours z d / bucketHours * bucketHours
    newDate z (getFullYear z d) (getMonth z d) (getDate z d) hour
  else
    let groupDays : ℕ := (bucketHours + 12) / 24
    dayFromIndex z (localDayIndex z d / groupDays * groupDays)

end

/-! ## The grid -/

structure BucketGridEntry where
  start : ℤ
  groupDays : ℕ

/-- `for (let i = first; i <= last; i++)` -/
def upTo (first last : ℤ) : List ℤ :=
  (List.range (last + 1 - first).toNat).map fun n : ℕ ↦ first + n

def bucketGrid (z : TimeZone) (firstDayIndex lastDayIndex : ℤ) (bucketHours : ℕ) :
    List BucketGridEntry :=
  if bucketHours < 24 then
    let perDay := (24 + bucketHours - 1) / bucketHours
    (upTo firstDayIndex lastDayIndex).flatMap fun day ↦
      let base := dayFromIndex z day
      (List.range perDay).map fun i ↦
        { start := newDate z (getFullYear z base) (getMonth z base) (getDate z base)
            (i * bucketHours : ℕ)
          groupDays := 1 }
  else
    let groupDays : ℕ := (bucketHours + 12) / 24
    (upTo (firstDayIndex / groupDays) (lastDayIndex / groupDays)).map fun g ↦
      { start := dayFromIndex z (g * groupDays), groupDays := groupDays }

/-! ## Buckets -/

/-- What a title shows: the days of the first and the last instant, the day of one, or its day and
its hour. -/
inductive Title
  | days (first last : ℤ)
  | day (start : ℤ)
  | hour (start : ℤ)

structure Bucket where
  /-- The instant whose day is the label, at midnight. -/
  label : Option ℤ
  title : Title
  startHour : ℤ
  weightedOnTime : Option ℚ := none
  weightedAvgDev : Option ℚ := none
  minOnTime : Option ℚ := none
  maxOnTime : Option ℚ := none
  p95Max : Option ℚ := none
  vehicleTotal : ℚ := 0
  bunchingTotal : ℚ := 0
  hours : ℕ := 0
  noService : ℕ := 0

/-- A bucket while it is being accumulated. -/
structure BucketAcc extends Bucket where
  pctWeightedSum : ℚ := 0
  devWeightedSum : ℚ := 0
  weight : ℚ := 0

def newBucket (z : TimeZone) (start : ℤ) (groupDays : ℕ) : BucketAcc :=
  let isMidnight := getHours z start = 0
  { label := if isMidnight then some start else none
    title :=
      if 1 < groupDays then
        .days start (newDate z (getFullYear z start) (getMonth z start)
          (getDate z start + groupDays - 1) 0)
      else if isMidnight then .day start
      else .hour start
    startHour := start }

def addPointToBucket (b : BucketAcc) (p : HourlyDataPoint) : BucketAcc :=
  let counted : BucketAcc :=
    { b with
      vehicleTotal := b.vehicleTotal + p.vehicleCount
      bunchingTotal := b.bunchingTotal + p.bunchingEvents }
  if 0 < p.vehicleCount then
    { counted with
      hours := b.hours + 1
      pctWeightedSum := b.pctWeightedSum + p.onTimePct * p.vehicleCount
      devWeightedSum := b.devWeightedSum + p.avgDeviation * p.vehicleCount
      weight := b.weight + p.vehicleCount
      minOnTime := some (b.minOnTime.elim p.onTimePct fun m ↦
        if p.onTimePct < m then p.onTimePct else m)
      maxOnTime := some (b.maxOnTime.elim p.onTimePct fun m ↦
        if m < p.onTimePct then p.onTimePct else m)
      p95Max := some (b.p95Max.elim p.p95Deviation fun m ↦
        if m < p.p95Deviation then p.p95Deviation else m) }
  else { counted with noService := b.noService + 1 }

/-- Folds the running sums into the weighted values. -/
def BucketAcc.finish (b : BucketAcc) : Bucket :=
  if 0 < b.weight then
    { b.toBucket with
      weightedOnTime := some (b.pctWeightedSum / b.weight)
      weightedAvgDev := some (b.devWeightedSum / b.weight) }
  else b.toBucket

/-! ## Aggregation -/

/-- The buckets in order, and for each key the position of its bucket. -/
structure Buckets where
  buckets : List BucketAcc := []
  byKey : ℤ → Option ℕ := fun _ ↦ none

namespace Buckets

variable (z : TimeZone) (s : Buckets)

def push (start : ℤ) (groupDays : ℕ) : Buckets where
  buckets := s.buckets ++ [newBucket z start groupDays]
  byKey := Function.update s.byKey start (some s.buckets.length)

/-- A point is added to the bucket of its key, if there is one. -/
def add (key : ℤ) (p : HourlyDataPoint) : Buckets :=
  match s.byKey key with
  | some i => { s with buckets := s.buckets.modify i fun b ↦ addPointToBucket b p }
  | none => s

end Buckets

section

variable (z : TimeZone) (points : List HourlyDataPoint)

/-- One bucket for each hour that occurs. -/
def passThrough : Buckets :=
  points.foldl
    (fun s p ↦
      let start := bucketStart z p.hour 1
      (if (s.byKey start).isSome then s else s.push z start 1).add start p) {}

/-- The smallest or the largest day, by the comparison that replaces it. -/
def extremeDay (replaces : ℤ → ℤ → Bool) : Option ℤ :=
  points.foldl
    (fun best p ↦
      let dayIndex := localDayIndex z p.hour
      some (best.elim dayIndex fun b ↦ if replaces dayIndex b then dayIndex else b)) none

def firstDay : Option ℤ := extremeDay z points fun d b ↦ d < b

def lastDay : Option ℤ := extremeDay z points fun d b ↦ b < d

/-- The empty buckets of a grid. -/
def emptyBuckets (grid : List BucketGridEntry) : Buckets :=
  grid.foldl (fun s g ↦ s.push z g.start g.groupDays) {}

def aggregateBuckets (bucketHours : ℕ) : List Bucket :=
  if points = [] then []
  else if bucketHours ≤ 1 then (passThrough z points).buckets.map BucketAcc.finish
  else
    match firstDay z points, lastDay z points with
    | some first, some last =>
      let s := emptyBuckets z (bucketGrid z first last bucketHours)
      (points.foldl (fun s p ↦ s.add (bucketStart z p.hour bucketHours) p) s).buckets.map
        BucketAcc.finish
    | _, _ => []

end

end GtfsStream.Frontend
