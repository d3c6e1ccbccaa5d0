import GtfsStream.Api.RouteHistorySpec
import GtfsStream.Frontend.HistoryBuckets
import GtfsStream.Frontend.HistoryPanel
import Mathlib.Algebra.BigOperators.Ring.Finset
import Mathlib.Order.Bounds.Basic

/-!
# The summary says what the chart shows

Every column of the chart is about a group of points, and the groups make up the history, whether
they are single hours or buckets. So the totals of the columns are those of the summary, its worst
hour is the lowest end of a column, and its two means are taken over as many hours as the columns
have. The mean of the shares lies between the lowest and the highest end of a column. That of the
deviations lies between the least and the greatest deviation of an hour, and so does what a tooltip
shows of a column.

The summary adds up in binary64. Over fewer than 4096 hours (the route asks for 90 days at most) the
additions err by less than a quarter of a second, and what is shown differs from the exact mean by
hardly more than it is rounded.
-/

namespace GtfsStream.Frontend

variable {points : List HourlyDataPoint} {p : HourlyDataPoint} {column : Column}

/-! ## Extremes -/

theorem min?_concat (xs : List ℚ) (x : ℚ) :
    (xs ++ [x]).min? = some (xs.min?.elim x fun m ↦ if x < m then x else m) := by
  rw [List.min?_eq_some_iff]
  cases hmin : xs.min? with
  | none =>
    rw [List.min?_eq_none_iff] at hmin
    rw [hmin]
    simp
  | some m =>
    obtain ⟨hmem, hle⟩ := List.min?_eq_some_iff.mp hmin
    rw [Option.elim_some]
    split_ifs with hlt
    · refine ⟨List.mem_append_right _ (List.mem_singleton_self x), fun y hy ↦ ?_⟩
      rcases List.mem_append.mp hy with hy | hy
      · exact hlt.le.trans (hle y hy)
      · exact (List.mem_singleton.mp hy).ge
    · refine ⟨List.mem_append_left _ hmem, fun y hy ↦ ?_⟩
      rcases List.mem_append.mp hy with hy | hy
      · exact hle y hy
      · exact (not_lt.mp hlt).trans (List.mem_singleton.mp hy).ge

theorem max?_concat (xs : List ℚ) (x : ℚ) :
    (xs ++ [x]).max? = some (xs.max?.elim x fun m ↦ if m < x then x else m) := by
  rw [List.max?_eq_some_iff]
  cases hmax : xs.max? with
  | none =>
    rw [List.max?_eq_none_iff] at hmax
    rw [hmax]
    simp
  | some m =>
    obtain ⟨hmem, hle⟩ := List.max?_eq_some_iff.mp hmax
    rw [Option.elim_some]
    split_ifs with hlt
    · refine ⟨List.mem_append_right _ (List.mem_singleton_self x), fun y hy ↦ ?_⟩
      rcases List.mem_append.mp hy with hy | hy
      · exact (hle y hy).trans hlt.le
      · exact (List.mem_singleton.mp hy).le
    · refine ⟨List.mem_append_left _ hmem, fun y hy ↦ ?_⟩
      rcases List.mem_append.mp hy with hy | hy
      · exact hle y hy
      · exact (List.mem_singleton.mp hy).le.trans (not_lt.mp hlt)

/-! ## Columns and groups -/

/-- A value of the points of a group with service. -/
def served (value : HourlyDataPoint → ℚ) (group : List HourlyDataPoint) : List ℚ :=
  (group.filter fun p ↦ 0 < p.vehicleCount).map value

abbrev servedShares : List HourlyDataPoint → List ℚ := served HourlyDataPoint.onTimePct

abbrev servedDeviations : List HourlyDataPoint → List ℚ := served HourlyDataPoint.avgDeviation

theorem served_concat (value : HourlyDataPoint → ℚ) (points : List HourlyDataPoint)
    (p : HourlyDataPoint) :
    served value (points ++ [p]) =
      served value points ++ if 0 < p.vehicleCount then [value p] else [] := by
  rw [served, List.filter_append, List.map_append, List.filter_singleton, ← served]
  by_cases hservice : 0 < p.vehicleCount
  · rw [if_pos hservice, decide_eq_true hservice]
    rfl
  · rw [if_neg hservice, decide_eq_false hservice]
    rfl

/-- The ends of a column: those of its bar, or the point on the line. -/
def Column.lowest (column : Column) : Option ℚ :=
  (column.range.map Prod.fst).or column.value

def Column.highest (column : Column) : Option ℚ :=
  (column.range.map Prod.snd).or column.value

/-- What a column shows of its group. -/
structure ColumnOf (column : Column) (group : List HourlyDataPoint) : Prop where
  vehicles : column.vehicles = (group.map HourlyDataPoint.vehicleCount).sum
  bunching : column.bunching = (group.map HourlyDataPoint.bunchingEvents).sum
  hours : column.hours = (servedShares group).length
  value : column.value = none ↔ servedShares group = []
  lowest : column.lowest = (servedShares group).min?
  highest : column.highest = (servedShares group).max?
  deviation : ∀ d low high, column.deviation = some d →
    (∀ x ∈ servedDeviations group, low ≤ x ∧ x ≤ high) → low ≤ d ∧ d ≤ high

theorem columnOf_hour (p : HourlyDataPoint) : ColumnOf (hourColumn p) [p] := by
  have hshares : servedShares [p] = if 0 < p.vehicleCount then [p.onTimePct] else [] :=
    served_concat _ [] p
  have hdeviations : servedDeviations [p] = if 0 < p.vehicleCount then [p.avgDeviation] else [] :=
    served_concat _ [] p
  refine ⟨(List.sum_singleton).symm, (List.sum_singleton).symm, ?_, ?_, ?_, ?_, ?_⟩
  · rw [hshares, hourColumn]
    dsimp only
    split_ifs <;> rfl
  · rw [hshares, hourColumn]
    dsimp only
    split_ifs <;> simp
  · rw [hshares, Column.lowest, hourColumn]
    dsimp only
    split_ifs <;> rfl
  · rw [hshares, Column.highest, hourColumn]
    dsimp only
    split_ifs <;> rfl
  · intro d low high hd hbounds
    rw [hourColumn] at hd
    dsimp only at hd
    split_ifs at hd with hservice
    rw [hdeviations, if_pos hservice, List.forall_mem_singleton, Option.some.inj hd] at hbounds
    exact hbounds

/-- The bounds of an accumulating bucket are those of its points with service. -/
theorem bounds_foldl (points : List HourlyDataPoint) (start : ℤ) (groupDays : ℕ) (z : TimeZone) :
    let acc := points.foldl addPointToBucket (newBucket z start groupDays)
    acc.hours = (servedShares points).length ∧ acc.minOnTime = (servedShares points).min? ∧
      acc.maxOnTime = (servedShares points).max? := by
  induction points using List.reverseRecOn with
  | nil => exact ⟨rfl, rfl, rfl⟩
  | append_singleton points p ih =>
    obtain ⟨hhours, hmin, hmax⟩ := ih
    rw [List.foldl_append, List.foldl_cons, List.foldl_nil, servedShares, served_concat,
      addPointToBucket]
    dsimp only
    split_ifs with hservice
    · rw [List.length_append, min?_concat, max?_concat, ← hhours, ← hmin, ← hmax]
      exact ⟨rfl, rfl, rfl⟩
    · rw [List.append_nil]
      exact ⟨hhours, hmin, hmax⟩

/-- The weighted sum of an accumulating bucket lies between what any bounds of its deviations
make of its weight. -/
theorem deviation_foldl {points : List HourlyDataPoint} {low high : ℚ}
    (hbounds : ∀ x ∈ servedDeviations points, low ≤ x ∧ x ≤ high) (start : ℤ) (groupDays : ℕ)
    (z : TimeZone) :
    let acc := points.foldl addPointToBucket (newBucket z start groupDays)
    acc.weightedAvgDev = none ∧ low * acc.weight ≤ acc.devWeightedSum ∧
      acc.devWeightedSum ≤ high * acc.weight := by
  induction points using List.reverseRecOn with
  | nil =>
    refine ⟨rfl, le_of_eq (mul_zero low), le_of_eq (mul_zero high).symm⟩
  | append_singleton points p ih =>
    rw [servedDeviations, served_concat, List.forall_mem_append] at hbounds
    obtain ⟨hnone, hlow, hhigh⟩ := ih hbounds.1
    rw [List.foldl_append, List.foldl_cons, List.foldl_nil, addPointToBucket]
    dsimp only
    split_ifs with hservice
    · rw [if_pos hservice, List.forall_mem_singleton] at hbounds
      obtain ⟨-, hlow', hhigh'⟩ := hbounds
      refine ⟨hnone, ?_, ?_⟩
      · rw [mul_add]
        exact add_le_add hlow (mul_le_mul_of_nonneg_right hlow' hservice.le)
      · rw [mul_add]
        exact add_le_add hhigh (mul_le_mul_of_nonneg_right hhigh' hservice.le)
    · exact ⟨hnone, hlow, hhigh⟩

theorem columnOf_bucket (z : TimeZone) (b : ℕ) (points : List HourlyDataPoint) (k : ℤ) :
    ColumnOf (bucketColumn (filled z b points k).finish)
      (points.filter fun p ↦ bucketNumber z b p.hour = k) := by
  have htotals := @totals_filled z b points k
  obtain ⟨hhours, hmin, hmax⟩ := bounds_foldl
    (points.filter fun p ↦ bucketNumber z b p.hour = k) (startOf z b k) (groupDaysOf b) z
  have hweighs := weighs_foldl (weighs_newBucket z (startOf z b k) (groupDaysOf b))
    (points.filter fun p ↦ bucketNumber z b p.hour = k)
  rw [← filled] at hhours hmin hmax hweighs
  obtain ⟨hvehicles, hbunching, hfinished, -, -⟩ := finish_eq (filled z b points k)
  have hbounds : (filled z b points k).finish.minOnTime = (filled z b points k).minOnTime ∧
      (filled z b points k).finish.maxOnTime = (filled z b points k).maxOnTime := by
    rw [BucketAcc.finish]
    split_ifs <;> exact ⟨rfl, rfl⟩
  set group := points.filter fun p ↦ bucketNumber z b p.hour = k
  have hvalue : (filled z b points k).finish.weightedOnTime = none ↔ servedShares group = [] := by
    rw [hweighs.onTimeBetween.none_iff, hfinished, hhours, List.length_eq_zero_iff]
  have hrange : (bucketColumn (filled z b points k).finish).range =
      (servedShares group).min?.bind fun m ↦ (servedShares group).max?.map fun m' ↦ (m, m') := by
    rw [bucketColumn, hbounds.1, hbounds.2, hfinished, hmin, hmax, hhours]
    dsimp only
    split_ifs with hpos
    · rfl
    · rw [List.length_eq_zero_iff.mp (Nat.eq_zero_of_not_pos hpos)]
      rfl
  have hends : servedShares group = [] ∨
      ∃ m m', (servedShares group).min? = some m ∧ (servedShares group).max? = some m' := by
    refine or_iff_not_imp_left.mpr fun hne ↦ ?_
    obtain ⟨m, hm⟩ := Option.ne_none_iff_exists'.mp (mt List.min?_eq_none_iff.mp hne)
    obtain ⟨m', hm'⟩ := Option.ne_none_iff_exists'.mp (mt List.max?_eq_none_iff.mp hne)
    exact ⟨m, m', hm, hm'⟩
  refine ⟨hvehicles.trans htotals.vehicles, hbunching.trans htotals.bunching,
    hfinished.trans hhours, hvalue, ?_, ?_, ?_⟩
  · rw [Column.lowest, hrange]
    rcases hends with hnil | ⟨m, m', hm, hm'⟩
    · rw [hnil]
      exact hvalue.mpr hnil
    · rw [hm, hm']
      rfl
  · rw [Column.highest, hrange]
    rcases hends with hnil | ⟨m, m', hm, hm'⟩
    · rw [hnil]
      exact hvalue.mpr hnil
    · rw [hm, hm']
      rfl
  · intro d low high hd hwithin
    obtain ⟨hnone, hlow, hhigh⟩ := deviation_foldl hwithin (startOf z b k) (groupDaysOf b) z
    rw [← filled] at hnone hlow hhigh
    rw [bucketColumn, BucketAcc.finish] at hd
    dsimp only at hd
    split_ifs at hd with hweight
    · rw [← Option.some.inj hd]
      exact ⟨(le_div_iff₀ hweight).mpr hlow, (div_le_iff₀ hweight).mpr hhigh⟩
    · rw [hnone] at hd
      exact absurd hd.symm (Option.some_ne_none d)

/-- Columns with their groups, which make up the points. -/
structure Covers (entries : List (Column × List HourlyDataPoint)) (points : List HourlyDataPoint) :
    Prop where
  columnOf : ∀ entry ∈ entries, ColumnOf entry.1 entry.2
  perm : (entries.flatMap Prod.snd).Perm points

/-- **Every chart is made of groups**, for each number of days. -/
theorem exists_covers {z : TimeZone} (hz : Usual z)
    (hyears : ∀ p ∈ points, 100 ≤ getFullYear z p.hour) (hne : points ≠ []) (days : ℕ) :
    ∃ entries, Covers entries points ∧ drawChart z points days = some (entries.map Prod.fst) := by
  rw [drawChart, if_neg hne]
  rcases bucketHoursForDays_mem days with hone | hb
  · refine ⟨points.map fun p ↦ (hourColumn p, [p]), ⟨fun entry hentry ↦ ?_, ?_⟩, ?_⟩
    · obtain ⟨p, -, rfl⟩ := List.mem_map.mp hentry
      exact columnOf_hour p
    · rw [List.flatMap_map]
      simp
    · rw [hone, if_pos le_rfl, List.map_map]
      rfl
  · have hwidth := width_pos hb
    obtain ⟨first, last, -, -, hbounds, heq⟩ := aggregateBuckets_eq hz hb hyears hne
    have hmem : ∀ p ∈ points, bucketNumber z (bucketHoursForDays days) p.hour ∈
        numbersOf (bucketHoursForDays days) first last := fun p hp ↦
      bucketNumber_mem hb (hbounds p hp).1 (hbounds p hp).2
    have hnodup : (numbersOf (bucketHoursForDays days) first last).Nodup :=
      (pairwise_upTo _ _).imp fun hlt ↦ hlt.ne
    rw [if_neg (by omega), heq]
    set b := bucketHoursForDays days
    refine ⟨(numbersOf b first last).map fun k ↦ (bucketColumn (filled z b points k).finish,
      points.filter fun p ↦ bucketNumber z b p.hour = k), ⟨fun entry hentry ↦ ?_, ?_⟩, ?_⟩
    · obtain ⟨k, -, rfl⟩ := List.mem_map.mp hentry
      exact columnOf_bucket z b points k
    · have hall : points.filter (fun p ↦ bucketNumber z b p.hour ∈ numbersOf b first last) =
          points := List.filter_eq_self.mpr fun p hp ↦ decide_eq_true (hmem p hp)
      have hperm : (points.filter fun p ↦ bucketNumber z b p.hour ∈ numbersOf b first last).Perm
          ((numbersOf b first last).flatMap fun k ↦
            points.filter fun p ↦ bucketNumber z b p.hour = k) :=
        Grouping.perm_flatMap_filter hnodup points
      rw [hall] at hperm
      rw [List.flatMap_map]
      exact hperm.symm
    · rw [List.map_map, List.map_map]
      rfl

/-! ## The summary -/

/-- What the loop has accumulated of the points so far. -/
structure SumsOf (s : SummarySums) (points : List HourlyDataPoint) : Prop where
  vehicles : s.sumVehicles = (points.map HourlyDataPoint.vehicleCount).sum
  bunching : s.sumBunching = (points.map HourlyDataPoint.bunchingEvents).sum
  served : s.servedHours = (servedShares points).length
  onTime : s.sumOnTime = Binary64.sumRat (servedShares points)
  deviation : s.sumAvgDev = Binary64.sumRat (servedDeviations points)
  worst : s.worstOnTime = (servedShares points).min?.getD 101

/-- The hours of a history: no number is negative, a share is at most all, and a deviation is at
most what lies between the first and the last datetime. -/
structure Counted (p : HourlyDataPoint) : Prop where
  vehicles : 0 ≤ p.vehicleCount
  share : 0 ≤ p.onTimePct ∧ p.onTimePct ≤ (100 : ℕ)
  deviation : 0 ≤ p.avgDeviation ∧ p.avgDeviation ≤ (2 ^ 39 : ℕ)

theorem sumsOf_summarySums (hpoints : ∀ p ∈ points, Counted p) :
    SumsOf (summarySums points) points := by
  induction points using List.reverseRecOn with
  | nil => exact ⟨rfl, rfl, rfl, rfl, rfl, rfl⟩
  | append_singleton points p ih =>
    rw [List.forall_mem_append, List.forall_mem_singleton] at hpoints
    obtain ⟨hpoints, hnonneg, ⟨-, hle⟩, -⟩ := hpoints
    obtain ⟨hvehicles, hbunching, hserved, honTime, hdeviation, hworst⟩ := ih hpoints
    have hstep : summarySums (points ++ [p]) = (summarySums points).add p := by
      rw [summarySums, List.foldl_append]
      rfl
    have hvehicles' : ((points ++ [p]).map HourlyDataPoint.vehicleCount).sum =
        (summarySums points).sumVehicles + p.vehicleCount := by
      rw [List.map_append, List.sum_append, ← hvehicles, List.map_singleton, List.sum_singleton]
    have hbunching' : ((points ++ [p]).map HourlyDataPoint.bunchingEvents).sum =
        (summarySums points).sumBunching + p.bunchingEvents := by
      rw [List.map_append, List.sum_append, ← hbunching, List.map_singleton, List.sum_singleton]
    rw [hstep, SummarySums.add]
    dsimp only
    rcases hnonneg.eq_or_lt with hzero | hservice
    · have hsame (value : HourlyDataPoint → ℚ) : served value (points ++ [p]) =
          served value points := by
        rw [served_concat, if_neg hzero.not_lt, List.append_nil]
      rw [if_pos hzero.symm]
      refine ⟨hvehicles'.symm, hbunching'.symm, ?_, ?_, ?_, ?_⟩
      · rw [servedShares, hsame, ← hserved]
      · rw [servedShares, hsame, ← honTime]
      · rw [servedDeviations, hsame, ← hdeviation]
      · rw [servedShares, hsame, ← hworst]
    · have hone (value : HourlyDataPoint → ℚ) : served value (points ++ [p]) =
          served value points ++ [value p] := by
        rw [served_concat, if_pos hservice]
      -- the first share is below the initial value, which stands above all of them
      have hmin : (servedShares (points ++ [p])).min?.getD 101 =
          if p.onTimePct < (summarySums points).worstOnTime then p.onTimePct
          else (summarySums points).worstOnTime := by
        rw [servedShares, hone, min?_concat, Option.getD_some, hworst]
        cases (servedShares points).min? with
        | none => exact (if_pos (hle.trans_lt (by norm_num))).symm
        | some m => rfl
      rw [if_neg hservice.ne']
      refine ⟨?_, ?_, ?_, ?_, ?_, ?_⟩
      · rw [hvehicles']
        split_ifs <;> rfl
      · rw [hbunching']
        split_ifs <;> rfl
      · rw [servedShares, hone, List.length_append, ← hserved]
        split_ifs <;> rfl
      · rw [servedShares, hone, Binary64.sumRat_concat, ← honTime]
        split_ifs <;> rfl
      · rw [servedDeviations, hone, Binary64.sumRat_concat, ← hdeviation]
        split_ifs <;> rfl
      · rw [hmin]
        split_ifs <;> rfl

/-- What the summary says of the columns above it. -/
structure Describes (s : HistorySummary) (columns : List Column)
    (points : List HourlyDataPoint) : Prop where
  vehicles : s.totalVehicles = (columns.map Column.vehicles).sum
  bunching : s.bunchingEvents = (columns.map Column.bunching).sum
  dataPoints : s.dataPoints = points.length
  /-- There are dashes exactly if nothing is drawn. -/
  dash : (s.avgOnTime = none ↔ ∀ column ∈ columns, column.value = none) ∧
    (s.avgDeviation = none ↔ s.avgOnTime = none) ∧ (s.worstHour = none ↔ s.avgOnTime = none)
  worst : ∀ shown, s.worstHour = some shown → ∃ worst,
    IsLeast {x | ∃ column ∈ columns, column.lowest = some x} worst ∧ shown = toFixed 0 worst
  onTime : ∀ shown, s.avgOnTime = some shown → ∃ mean worst best,
    mean * (columns.map Column.hours).sum = (servedShares points).sum ∧
      IsLeast {x | ∃ column ∈ columns, column.lowest = some x} worst ∧
      IsGreatest {x | ∃ column ∈ columns, column.highest = some x} best ∧
      worst ≤ mean ∧ mean ≤ best ∧ |shown - mean| ≤ 1 / 20 + 1 / 2 ^ 34
  deviation : ∀ shown, s.avgDeviation = some shown → ∃ mean,
    mean * (columns.map Column.hours).sum = (servedDeviations points).sum ∧
      |shown - mean| ≤ 3 / 4 ∧ ∃ low ∈ servedDeviations points, ∃ high ∈ servedDeviations points,
        low ≤ mean ∧ mean ≤ high ∧
          ∀ column ∈ columns, ∀ d, column.deviation = some d → low ≤ d ∧ d ≤ high

theorem Covers.sum_eq {M : Type*} [AddCommMonoid M]
    {entries : List (Column × List HourlyDataPoint)} (h : Covers entries points)
    (total : Column → M) (value : HourlyDataPoint → M)
    (htotal : ∀ entry ∈ entries, total entry.1 = (entry.2.map value).sum) :
    (points.map value).sum = ((entries.map Prod.fst).map total).sum := by
  rw [← (h.perm.map value).sum_eq, List.map_flatMap, List.flatMap, List.sum_flatten, List.map_map,
    List.map_map]
  exact congrArg List.sum (List.map_congr_left fun entry hentry ↦ (htotal entry hentry).symm)

theorem length_served (value : HourlyDataPoint → ℚ) (points : List HourlyDataPoint) :
    (served value points).length =
      (points.map fun p ↦ if 0 < p.vehicleCount then 1 else 0).sum := by
  induction points using List.reverseRecOn with
  | nil => rfl
  | append_singleton points p ih =>
    rw [served_concat, List.length_append, ih, List.map_append, List.sum_append,
      List.map_singleton, List.sum_singleton]
    split_ifs <;> rfl

/-- A value of the history is one of a group, and the other way round. -/
theorem Covers.mem_served {entries : List (Column × List HourlyDataPoint)}
    (h : Covers entries points) {value : HourlyDataPoint → ℚ} {x : ℚ} :
    x ∈ served value points ↔ ∃ entry ∈ entries, x ∈ served value entry.2 := by
  simp only [served, List.mem_map, List.mem_filter, ← h.perm.mem_iff, List.mem_flatMap]
  constructor
  · rintro ⟨p, ⟨⟨entry, hentry, hp⟩, hservice⟩, rfl⟩
    exact ⟨entry, hentry, p, ⟨hp, hservice⟩, rfl⟩
  · rintro ⟨entry, hentry, p, ⟨hp, hservice⟩, rfl⟩
    exact ⟨p, ⟨⟨entry, hentry, hp⟩, hservice⟩, rfl⟩

theorem Covers.hours {entries : List (Column × List HourlyDataPoint)} (h : Covers entries points)
    (value : HourlyDataPoint → ℚ) :
    (served value points).length = ((entries.map Prod.fst).map Column.hours).sum := by
  rw [length_served]
  refine h.sum_eq _ _ fun e he ↦ ?_
  rw [(h.columnOf e he).hours, length_served]

theorem exists_min? {xs : List ℚ} (hne : xs ≠ []) : ∃ m, xs.min? = some m := by
  obtain ⟨m, hm⟩ := Option.ne_none_iff_exists'.mp (mt List.min?_eq_none_iff.mp hne)
  exact ⟨m, hm⟩

theorem Covers.isLeast_lowest {entries : List (Column × List HourlyDataPoint)} {worst : ℚ}
    (h : Covers entries points) (hworst : (servedShares points).min? = some worst) :
    IsLeast {x | ∃ column ∈ entries.map Prod.fst, column.lowest = some x} worst := by
  obtain ⟨hmem, hle⟩ := List.min?_eq_some_iff.mp hworst
  constructor
  · obtain ⟨e, he, hx⟩ := h.mem_served.mp hmem
    refine ⟨e.1, List.mem_map_of_mem he, ?_⟩
    rw [(h.columnOf e he).lowest, List.min?_eq_some_iff]
    exact ⟨hx, fun y hy ↦ hle y (h.mem_served.mpr ⟨e, he, hy⟩)⟩
  · rintro x ⟨column, hcolumn, hx⟩
    obtain ⟨e, he, rfl⟩ := List.mem_map.mp hcolumn
    rw [(h.columnOf e he).lowest, List.min?_eq_some_iff] at hx
    exact hle x (h.mem_served.mpr ⟨e, he, hx.1⟩)

theorem Covers.isGreatest_highest {entries : List (Column × List HourlyDataPoint)} {best : ℚ}
    (h : Covers entries points) (hbest : (servedShares points).max? = some best) :
    IsGreatest {x | ∃ column ∈ entries.map Prod.fst, column.highest = some x} best := by
  obtain ⟨hmem, hle⟩ := List.max?_eq_some_iff.mp hbest
  constructor
  · obtain ⟨e, he, hx⟩ := h.mem_served.mp hmem
    refine ⟨e.1, List.mem_map_of_mem he, ?_⟩
    rw [(h.columnOf e he).highest, List.max?_eq_some_iff]
    exact ⟨hx, fun y hy ↦ hle y (h.mem_served.mpr ⟨e, he, hy⟩)⟩
  · rintro x ⟨column, hcolumn, hx⟩
    obtain ⟨e, he, rfl⟩ := List.mem_map.mp hcolumn
    rw [(h.columnOf e he).highest, List.max?_eq_some_iff] at hx
    exact hle x (h.mem_served.mpr ⟨e, he, hx.1⟩)

theorem mean_between {xs : List ℚ} {low high : ℚ} (hne : xs ≠ [])
    (h : ∀ x ∈ xs, low ≤ x ∧ x ≤ high) :
    low ≤ xs.sum / xs.length ∧ xs.sum / xs.length ≤ high := by
  have hpos : (0 : ℚ) < xs.length := Nat.cast_pos.mpr (List.length_pos_iff.mpr hne)
  have hlow := List.card_nsmul_le_sum xs low fun x hx ↦ (h x hx).1
  have hhigh := List.sum_le_card_nsmul xs high fun x hx ↦ (h x hx).2
  rw [nsmul_eq_mul] at hlow hhigh
  constructor
  · rw [le_div_iff₀ hpos, mul_comm]
    exact hlow
  · rw [div_le_iff₀ hpos, mul_comm]
    exact hhigh

theorem abs_toFixed_sub_le {x : ℚ} (digits : ℕ) (hx : 0 ≤ x) :
    |toFixed digits x - x| ≤ 1 / (2 * 10 ^ digits) := by
  have hpow : (0 : ℚ) < 10 ^ digits := by positivity
  have hround := Api.abs_mathRound_sub_le (x * 10 ^ digits)
  have hdiv : toFixed digits x - x =
      (Api.mathRound (x * 10 ^ digits) - x * 10 ^ digits) / 10 ^ digits := by
    rw [toFixed, if_neg (not_lt.mpr hx), sub_div, mul_div_cancel_right₀ _ hpow.ne']
  rw [hdiv, abs_div, abs_of_pos hpow, div_le_iff₀ hpow]
  refine hround.trans (le_of_eq ?_)
  field_simp

theorem length_served_le (value : HourlyDataPoint → ℚ) (points : List HourlyDataPoint) :
    (served value points).length ≤ points.length := by
  rw [served, List.length_map]
  exact List.length_filter_le _ _

/-- The mean that is computed differs from the exact one by what the additions and the division
round. -/
theorem mean_error {value : HourlyDataPoint → ℚ} {bound : ℕ} {j k : ℤ}
    (hne : served value points ≠ []) (hlength : points.length < 4096)
    (hpoints : ∀ p ∈ points, 0 ≤ value p ∧ value p ≤ bound) (hlt : 4096 * bound < 2 ^ 53)
    (hsize : ((4096 * bound : ℕ) : ℚ) ≤ 2 ^ (k + 53)) (hk : -1074 ≤ k) (hpos : 0 < bound)
    (hbound : (bound : ℚ) < 2 ^ (j + 53)) (hj : -1074 ≤ j) :
    |Binary64.roundRat (Binary64.sumRat (served value points) / (served value points).length) -
      (served value points).sum / (served value points).length| ≤ 2 ^ j / 2 + 2 ^ k / 2 := by
  have hfew : (served value points).length * bound < 4096 * bound :=
    Nat.mul_lt_mul_of_pos_right ((length_served_le value points).trans_lt hlength) hpos
  refine Binary64.abs_mean_sub_le hne (fun x hx ↦ ?_) (hfew.trans hlt)
    ((Nat.cast_lt.mpr hfew).trans_le hsize) hk hbound hj
  obtain ⟨p, hp, rfl⟩ := List.mem_map.mp hx
  exact hpoints p (List.mem_filter.mp hp).1

variable {entries : List (Column × List HourlyDataPoint)} {s : SummarySums}

theorem Covers.onTime (h : Covers entries points) (hs : SumsOf s points)
    (hcounted : ∀ p ∈ points, Counted p) (hlength : points.length < 4096)
    (hne : servedShares points ≠ []) :
    ∃ mean worst best,
      mean * (((entries.map Prod.fst).map Column.hours).sum : ℕ) = (servedShares points).sum ∧
        IsLeast {x | ∃ column ∈ entries.map Prod.fst, column.lowest = some x} worst ∧
        IsGreatest {x | ∃ column ∈ entries.map Prod.fst, column.highest = some x} best ∧
        worst ≤ mean ∧ mean ≤ best ∧
        |toFixed 1 (Binary64.roundRat (s.sumOnTime / s.servedHours)) - mean| ≤
          1 / 20 + 1 / 2 ^ 34 := by
  obtain ⟨worst, hworst⟩ := exists_min? hne
  obtain ⟨best, hbest, hmax⟩ := Api.exists_max? hne
  have hmin := (List.min?_eq_some_iff.mp hworst).2
  have hpos : (0 : ℚ) < (servedShares points).length :=
    Nat.cast_pos.mpr (List.length_pos_iff.mpr hne)
  have herror : |Binary64.roundRat (s.sumOnTime / s.servedHours) -
      (servedShares points).sum / (servedShares points).length| ≤ 2 ^ (-46 : ℤ) / 2 +
        2 ^ (-34 : ℤ) / 2 := by
    rw [hs.onTime, hs.served]
    exact mean_error hne hlength (fun p hp ↦ (hcounted p hp).share) (by norm_num) (by norm_num)
      (by norm_num) (by norm_num) (by norm_num) (by norm_num)
  have hnonneg : 0 ≤ Binary64.roundRat (s.sumOnTime / s.servedHours) := by
    rw [hs.onTime]
    refine Binary64.roundRat_nonneg (div_nonneg ?_ (Nat.cast_nonneg _))
    refine Binary64.sumRat_nonneg fun x hx ↦ ?_
    obtain ⟨p, hp, rfl⟩ := List.mem_map.mp hx
    exact (hcounted p (List.mem_filter.mp hp).1).share.1
  obtain ⟨hlow, hhigh⟩ := mean_between hne fun x hx ↦ ⟨hmin x hx, hmax x hx⟩
  refine ⟨(servedShares points).sum / (servedShares points).length, worst, best, ?_,
    h.isLeast_lowest hworst, h.isGreatest_highest hbest, hlow, hhigh, ?_⟩
  · rw [← h.hours HourlyDataPoint.onTimePct]
    exact div_mul_cancel₀ _ hpos.ne'
  · have hfixed := abs_toFixed_sub_le 1 hnonneg
    refine (abs_sub_le _ (Binary64.roundRat (s.sumOnTime / s.servedHours)) _).trans ?_
    refine (add_le_add hfixed herror).trans (by norm_num)

theorem Covers.deviation (h : Covers entries points) (hs : SumsOf s points)
    (hcounted : ∀ p ∈ points, Counted p) (hlength : points.length < 4096)
    (hne : servedDeviations points ≠ []) :
    ∃ mean,
      mean * (((entries.map Prod.fst).map Column.hours).sum : ℕ) = (servedDeviations points).sum ∧
        |(Api.mathRound (Binary64.roundRat (s.sumAvgDev / s.servedHours)) : ℚ) - mean| ≤ 3 / 4 ∧
        ∃ low ∈ servedDeviations points, ∃ high ∈ servedDeviations points,
          low ≤ mean ∧ mean ≤ high ∧ ∀ column ∈ entries.map Prod.fst, ∀ d,
            column.deviation = some d → low ≤ d ∧ d ≤ high := by
  obtain ⟨low, hlow⟩ := exists_min? hne
  obtain ⟨high, hhigh, hmax⟩ := Api.exists_max? hne
  obtain ⟨hmem, hmin⟩ := List.min?_eq_some_iff.mp hlow
  have hpos : (0 : ℚ) < (servedDeviations points).length :=
    Nat.cast_pos.mpr (List.length_pos_iff.mpr hne)
  have hserved : s.servedHours = (servedDeviations points).length := by
    rw [hs.served, length_served, length_served]
  have herror : |Binary64.roundRat (s.sumAvgDev / s.servedHours) -
      (servedDeviations points).sum / (servedDeviations points).length| ≤ 2 ^ (-13 : ℤ) / 2 +
        2 ^ (-2 : ℤ) / 2 := by
    rw [hs.deviation, hserved]
    exact mean_error hne hlength (fun p hp ↦ (hcounted p hp).deviation) (by norm_num)
      (by norm_num) (by norm_num) (by norm_num) (by norm_num) (by norm_num)
  have hround := Api.abs_mathRound_sub_le (Binary64.roundRat (s.sumAvgDev / s.servedHours))
  have hbounds (x : ℚ) (hx : x ∈ servedDeviations points) : low ≤ x ∧ x ≤ high :=
    ⟨hmin x hx, hmax x hx⟩
  obtain ⟨hbelow, habove⟩ := mean_between hne hbounds
  refine ⟨(servedDeviations points).sum / (servedDeviations points).length, ?_, ?_, low, hmem, high,
    (List.max?_eq_some_iff.mp hhigh).1, hbelow, habove, fun column hcolumn d hd ↦ ?_⟩
  · rw [← h.hours HourlyDataPoint.avgDeviation]
    exact div_mul_cancel₀ _ hpos.ne'
  · refine (abs_sub_le _ (Binary64.roundRat (s.sumAvgDev / s.servedHours)) _).trans ?_
    refine (add_le_add hround herror).trans (by norm_num)
  · obtain ⟨e, he, rfl⟩ := List.mem_map.mp hcolumn
    exact (h.columnOf e he).deviation d low high hd fun x hx ↦
      hbounds x (h.mem_served.mpr ⟨e, he, hx⟩)

theorem Covers.nothing_drawn (h : Covers entries points) :
    servedShares points = [] ↔ ∀ column ∈ entries.map Prod.fst, column.value = none := by
  rw [List.forall_mem_map, List.eq_nil_iff_forall_not_mem]
  constructor
  · intro hnil e he
    rw [(h.columnOf e he).value, List.eq_nil_iff_forall_not_mem]
    exact fun x hx ↦ hnil x (h.mem_served.mpr ⟨e, he, hx⟩)
  · intro hnone x hx
    obtain ⟨e, he, hx⟩ := h.mem_served.mp hx
    exact List.eq_nil_iff_forall_not_mem.mp ((h.columnOf e he).value.mp (hnone e he)) x hx

/-- **The summary describes the columns**, whatever groups they are made of. -/
theorem Covers.describes (h : Covers entries points) (hne : points ≠ [])
    (hcounted : ∀ p ∈ points, Counted p) (hlength : points.length < 4096) :
    ∃ summary, historySummary points = some summary ∧
      Describes summary (entries.map Prod.fst) points := by
  have hs := sumsOf_summarySums hcounted
  have hvehicles := hs.vehicles.trans (h.sum_eq _ _ fun e he ↦ (h.columnOf e he).vehicles)
  have hbunching := hs.bunching.trans (h.sum_eq _ _ fun e he ↦ (h.columnOf e he).bunching)
  have hdevs : servedDeviations points = [] ↔ servedShares points = [] := by
    rw [← List.length_eq_zero_iff, ← List.length_eq_zero_iff, length_served, length_served]
  refine ⟨_, by rw [historySummary, if_neg hne], ?_⟩
  by_cases hnil : servedShares points = []
  · -- no hour with service: dashes only
    have hidle : (summarySums points).servedHours = 0 := by
      rw [hs.served, hnil]
      rfl
    rw [hidle]
    refine ⟨hvehicles, hbunching, rfl, ⟨?_, ?_, ?_⟩, ?_, ?_, ?_⟩
    · exact iff_of_true rfl (h.nothing_drawn.mp hnil)
    · exact iff_of_true rfl rfl
    · exact iff_of_true rfl rfl
    · exact fun shown hshown ↦ nomatch hshown
    · exact fun shown hshown ↦ nomatch hshown
    · exact fun shown hshown ↦ nomatch hshown
  · have hhours : 0 < (summarySums points).servedHours := by
      rw [hs.served]
      exact List.length_pos_iff.mpr hnil
    rw [decide_eq_true hhours]
    refine ⟨hvehicles, hbunching, rfl, ⟨?_, ?_, ?_⟩, ?_, ?_, ?_⟩
    · exact iff_of_false (Option.some_ne_none _) fun hnone ↦ hnil (h.nothing_drawn.mpr hnone)
    · exact iff_of_false (Option.some_ne_none _) (Option.some_ne_none _)
    · exact iff_of_false (Option.some_ne_none _) (Option.some_ne_none _)
    · intro shown hshown
      obtain ⟨worst, hworst⟩ := exists_min? hnil
      refine ⟨worst, h.isLeast_lowest hworst, ?_⟩
      rw [← Option.some.inj hshown, hs.worst, hworst]
      rfl
    · intro shown hshown
      rw [← Option.some.inj hshown]
      exact h.onTime hs hcounted hlength hnil
    · intro shown hshown
      rw [← Option.some.inj hshown]
      exact h.deviation hs hcounted hlength (mt hdevs.mp hnil)

/-! ## From the table to the chart -/

/-- The point that the panel reads for a row. -/
def pointOf (row : Hourly.HourlyStats) : HourlyDataPoint where
  hour := row.hour / 1000
  avgDeviation := Binary64.roundRat (Api.oneDecimal row.avgDeviation)
  p95Deviation := Api.mathRound row.p95Deviation
  vehicleCount := row.vehicleCount
  onTimePct := Binary64.roundRat (Api.oneDecimal row.onTimePct)
  bunchingEvents := row.bunchingEvents

theorem mapM_readPoint {rows : List Hourly.HourlyStats}
    (hread : ∀ row ∈ rows, Calendar.HasFourDigitYear (row.hour / 1000)) :
    (rows.map Api.dataPoint).mapM readPoint = some (rows.map pointOf) := by
  induction rows with
  | nil => rfl
  | cons row rows ih =>
    rw [List.forall_mem_cons] at hread
    have hrow : readPoint (Api.dataPoint row) = some (pointOf row) := by
      change (Calendar.readIso (Calendar.toISOString (row.hour / 1000))).map _ = _
      rw [Calendar.readIso_toISOString hread.1]
      rfl
    rw [List.map_cons, List.mapM_cons, hrow, ih hread.2]
    rfl

theorem counted_pointOf {row : Hourly.HourlyStats} {own : List Hourly.Item}
    (h : Api.Shows (Api.dataPoint row) own) (hsize : row.avgDeviation ≤ 2 ^ 39) :
    Counted (pointOf row) := by
  obtain ⟨hlow, hhigh⟩ := h.share
  have hround : Api.oneDecimal row.avgDeviation ≤ (2 ^ 39 : ℕ) := by
    have hlt : Api.mathRound (row.avgDeviation * 10) < 2 ^ 39 * 10 + 1 := by
      rw [Api.mathRound, Int.floor_lt]
      push_cast
      linarith
    have hle : (Api.mathRound (row.avgDeviation * 10) : ℚ) ≤ 2 ^ 39 * 10 := by
      exact_mod_cast Int.lt_add_one_iff.mp hlt
    rw [Api.oneDecimal]
    push_cast
    linarith
  refine ⟨Nat.cast_nonneg _, ⟨Binary64.roundRat_nonneg hlow, ?_⟩,
    Binary64.roundRat_nonneg h.nonneg, ?_⟩
  · exact Binary64.roundRat_le (by exact_mod_cast hhigh)
      (Binary64.isDyadic_natCast (by norm_num))
  · exact Binary64.roundRat_le hround (Binary64.isDyadic_natCast (by norm_num))

/-- **The panel conserves the history.** Whatever happened to the processes, the chart of a history
in any usual time zone has the vehicles and the bunching events of the stored hours, and the summary
under it says what it shows. -/
theorem history_chart (events : List Hourly.ProcessEvent) {routeId : String}
    {daysText : Option String} {since : ℤ → Time} {rows : List Hourly.HourlyStats}
    {response : Api.RouteHistoryResponse} {z : TimeZone} (days : ℕ)
    (hrows : Api.SelectsHours (Hourly.processes events).table routeId
      (since (Api.clampDays daysText)) rows)
    (hresponse : Api.routeHistory routeId daysText rows = .ok response) (hne : rows ≠ [])
    (hlength : rows.length < 4096) (hsize : ∀ row ∈ rows, row.avgDeviation ≤ 2 ^ 39)
    (hread : ∀ row ∈ rows, Calendar.HasFourDigitYear (row.hour / 1000)) (hz : Usual z)
    (hyears : ∀ row ∈ rows, 100 ≤ getFullYear z (row.hour / 1000)) :
    ∃ points columns summary, response.dataPoints.mapM readPoint = some points ∧
      drawChart z points days = some columns ∧ historySummary points = some summary ∧
      Describes summary columns points ∧
      (columns.map Column.vehicles).sum = ((rows.map fun row ↦ row.vehicleCount).sum : ℕ) ∧
      (columns.map Column.bunching).sum = ((rows.map fun row ↦ row.bunchingEvents).sum : ℕ) := by
  have hcounted : ∀ p ∈ rows.map pointOf, Counted p := by
    rw [List.forall_mem_map]
    intro row hrow
    obtain ⟨own, -, -, h⟩ := Api.shows_of_mem hrows hrow
    exact counted_pointOf h (hsize row hrow)
  have hyears' : ∀ p ∈ rows.map pointOf, 100 ≤ getFullYear z p.hour := by
    rw [List.forall_mem_map]
    exact hyears
  have hne' : rows.map pointOf ≠ [] := mt List.map_eq_nil_iff.mp hne
  obtain ⟨entries, hcovers, hdraw⟩ := exists_covers hz hyears' hne' days
  obtain ⟨summary, hsummary, hdescribes⟩ := hcovers.describes hne' hcounted
    (by rw [List.length_map]; exact hlength)
  refine ⟨rows.map pointOf, entries.map Prod.fst, summary, ?_, hdraw, hsummary, hdescribes, ?_, ?_⟩
  · rw [(Api.dataPoints_of_ok hresponse).1, mapM_readPoint hread]
  · rw [← hcovers.sum_eq _ _ fun e he ↦ (hcovers.columnOf e he).vehicles, List.map_map,
      Nat.cast_list_sum, List.map_map]
    rfl
  · rw [← hcovers.sum_eq _ _ fun e he ↦ (hcovers.columnOf e he).bunching, List.map_map,
      Nat.cast_list_sum, List.map_map]
    rfl

/-- A vehicle in the buckets of a week. -/
theorem history_chart_lateArrival : ∃ columns summary,
    drawChart summerTime [pointOf Api.lateRow] 7 = some columns ∧
      historySummary [pointOf Api.lateRow] = some summary ∧
      summary = ⟨some 100, some 120, some 100, 1, 0, 1⟩ ∧
      (columns.map Column.vehicles).sum = 1 := by
  have hread : ∀ row ∈ [Api.lateRow], Calendar.HasFourDigitYear (row.hour / 1000) := by decide
  obtain ⟨points, columns, summary, hpoints, hdraw, hsummary, -, hvehicles, -⟩ :=
    @history_chart Api.lateArrival "28" (some "1") (fun _ ↦ 0) [Api.lateRow] _ summerTime 7
      Api.selectsHours_lateArrival rfl (List.cons_ne_nil _ _) (by decide) (by decide +kernel) hread
      usual_summerTime (by decide)
  have hpoints' : points = [pointOf Api.lateRow] :=
    Option.some.inj (hpoints.symm.trans (mapM_readPoint hread))
  rw [hpoints'] at hdraw hsummary
  have hshown : historySummary [pointOf Api.lateRow] =
      some ⟨some 100, some 120, some 100, 1, 0, 1⟩ := by decide +kernel
  exact ⟨columns, summary, hdraw, hsummary, Option.some.inj (hsummary.symm.trans hshown),
    hvehicles.trans (by decide +kernel)⟩

end GtfsStream.Frontend
