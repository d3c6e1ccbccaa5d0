import GtfsStream.Api.RouteHistory
import GtfsStream.Api.RoutePerformanceSpec
import GtfsStream.Hourly.Percentile
import GtfsStream.Hourly.Processes
import GtfsStream.Hourly.Restart

/-!
# What the history of a route means

A point of the history says of the deviations of an hour what the panel of the route would say of
them: the percentile is the same, the average has one decimal more, and the share that is on time
is the same tenth of a percent or the next one. The engine rounds what binary64 makes of the share
in percent, a tie to the even tenth, and the panel rounds what it makes of the share in thousandths,
a tie up. So they can only differ where the share is next to a tie.
-/

namespace GtfsStream.Api

open Analytics (DeviationResult)
open Hourly

/-! ## The deviations of some items -/

/-- The deviations among the items. -/
def deviationsOf (items : List Item) : List DeviationResult :=
  items.filterMap fun i ↦ match i with
    | .deviation dev => some dev
    | .newBunching _ => none

/-- How far they are off, in seconds. -/
def secondsOf (items : List Item) : List ℚ :=
  (deviationsOf items).map fun dev ↦ |inSeconds dev.deviationSeconds|

variable {items : List Item} {row : HourlyStats} {x : ℚ}

/-- The accumulator keeps the deviations, and counts those that are on time. -/
theorem itemsData_deviations (items : List Item) :
    (itemsData items).deviations = (deviationsOf items).map (fun dev ↦ |dev.deviationSeconds|) ∧
      (itemsData items).totalCount = (deviationsOf items).length ∧
      (itemsData items).onTimeCount = (deviationsOf items).countP
        fun dev ↦ |dev.deviationSeconds| ≤ seconds Hourly.onTimeThresholdSeconds := by
  induction items using List.reverseRecOn with
  | nil => exact ⟨rfl, rfl, rfl⟩
  | append_singleton items i ih =>
    obtain ⟨hdeviations, htotal, honTime⟩ := ih
    have hstep : itemsData (items ++ [i]) = (itemsData items).add i := by
      rw [itemsData, List.foldl_append]
      rfl
    rw [hstep, deviationsOf, List.filterMap_append, ← deviationsOf]
    cases i with
    | deviation dev =>
      rw [List.filterMap_cons, List.filterMap_nil, List.map_append, List.length_append,
        List.countP_append, List.countP_singleton, ← hdeviations, ← htotal, ← honTime,
        RouteData.add]
      refine ⟨rfl, rfl, ?_⟩
      dsimp only
      by_cases hlate : |dev.deviationSeconds| ≤ seconds Hourly.onTimeThresholdSeconds
      · rw [if_pos hlate, if_pos (decide_eq_true hlate)]
      · rw [if_neg hlate, if_neg (by rwa [decide_eq_true_eq]), add_zero]
    | newBunching event =>
      rw [List.filterMap_cons, List.filterMap_nil, List.append_nil]
      exact ⟨hdeviations, htotal, honTime⟩

theorem inSeconds_abs (t : Time) : inSeconds |t| = |inSeconds t| := by
  rw [inSeconds, inSeconds, Int.cast_abs, abs_div]
  norm_num

theorem inSeconds_sum (times : List Time) : inSeconds times.sum = (times.map inSeconds).sum := by
  induction times with
  | nil => exact zero_div _
  | cons t times ih =>
    rw [List.sum_cons, List.map_cons, List.sum_cons, ← ih, inSeconds, inSeconds, inSeconds,
      Int.cast_add, add_div]

theorem inSeconds_le_iff {s t : Time} : inSeconds s ≤ inSeconds t ↔ s ≤ t := by
  rw [inSeconds, inSeconds, div_le_div_iff_of_pos_right (by norm_num), Int.cast_le]

theorem secondsOf_eq (items : List Item) :
    secondsOf items = ((itemsData items).deviations).map inSeconds := by
  rw [(itemsData_deviations items).1, List.map_map]
  exact List.map_congr_left fun dev _ ↦ (inSeconds_abs _).symm

/-! ## The row against the panel -/

theorem computeP95_eq_summary (times : List Time) :
    Hourly.computeP95 (times.mergeSort (· ≤ ·)) =
      RoutePerformance.computeP95 ((times.map inSeconds).mergeSort (· ≤ ·)) := by
  have hsorted : (times.mergeSort (· ≤ ·)).map inSeconds =
      (times.map inSeconds).mergeSort (· ≤ ·) := by
    have hpairwise := @List.pairwise_mergeSort Time (fun a b ↦ decide (a ≤ b))
      (fun a b c hab hbc ↦ decide_eq_true ((of_decide_eq_true hab).trans (of_decide_eq_true hbc)))
      (fun a b ↦ by simpa using le_total a b) times
    refine List.Perm.eq_of_pairwise (fun _ _ _ _ ↦ le_antisymm) ?_ (pairwise_sorted _)
      (((List.mergeSort_perm _ _).map _).trans (List.mergeSort_perm _ _).symm)
    rw [List.pairwise_map]
    exact hpairwise.imp fun h ↦ inSeconds_le_iff.mpr (of_decide_eq_true h)
  have hagree := (computeP95_inSeconds (times.mergeSort (· ≤ ·))).symm.trans
    (computeP95_agree _)
  rw [Option.some.inj hagree, hsorted]

theorem abs_oneDecimal_sub_le (x : ℚ) : |oneDecimal x - x| ≤ 1 / 20 := by
  have hfloor := Int.floor_le (x * 10 + 1 / 2)
  have hfloor' := Int.lt_floor_add_one (x * 10 + 1 / 2)
  rw [oneDecimal, mathRound, abs_le]
  constructor <;> linarith

theorem oneDecimal_nonneg (h : 0 ≤ x) : 0 ≤ oneDecimal x := by
  rw [oneDecimal]
  exact div_nonneg (Int.cast_nonneg (mathRound_nonneg (by linarith))) (by norm_num)

theorem abs_mathRound_sub_le (x : ℚ) : |(mathRound x : ℚ) - x| ≤ 1 / 2 := by
  have hfloor := Int.floor_le (x + 1 / 2)
  have hfloor' := Int.lt_floor_add_one (x + 1 / 2)
  rw [mathRound, abs_le]
  constructor <;> linarith

theorem oneDecimal_tenths (n : ℤ) : oneDecimal ((n : ℚ) / 10) = (n : ℚ) / 10 := by
  have hround : mathRound ((n : ℚ) / 10 * 10) = n := by
    rw [mathRound, Int.floor_eq_iff]
    constructor <;> linarith
  rw [oneDecimal, hround]

theorem roundToTenth_cases (x : ℚ) : roundToTenth x = oneDecimal x ∨
    Int.fract (x * 10) = 1 / 2 ∧ roundToTenth x = oneDecimal x - 1 / 10 := by
  rw [roundToTenth, oneDecimal, mathRound, round_eq]
  split_ifs with htie
  · right
    refine ⟨htie.1, ?_⟩
    push_cast
    ring
  · left
    rw [sub_zero]

theorem oneDecimal_roundToTenth (x : ℚ) : oneDecimal (roundToTenth x) = roundToTenth x :=
  oneDecimal_tenths _

theorem abs_roundToTenth_sub_le (x : ℚ) : |roundToTenth x - x| ≤ 1 / 20 := by
  rcases roundToTenth_cases x with hsame | ⟨htie, hless⟩
  · rw [hsame]
    exact abs_oneDecimal_sub_le x
  · have hround : (mathRound (x * 10) : ℚ) = x * 10 + 1 / 2 := by
      have hfloor : (⌊x * 10⌋ : ℚ) = x * 10 - 1 / 2 := by
        rw [← htie]
        exact (Int.self_sub_fract _).symm
      have hup : mathRound (x * 10) = ⌊x * 10⌋ + 1 := by
        rw [mathRound, Int.floor_eq_iff]
        push_cast
        constructor <;> linarith
      rw [hup]
      push_cast
      linarith
    rw [hless, oneDecimal, hround, abs_le]
    constructor <;> linarith

/-- A share in percent, as binary64 has it. -/
def inPercent (share : ℚ) : ℚ := Binary64.roundRat (Binary64.roundRat share * (100 : ℕ))

/-- What binary64 makes of a share in percent is off by less than `2 ^ -45`. -/
theorem abs_inPercent_sub_le (hlow : 0 ≤ x) (hhigh : x ≤ 1) :
    |inPercent x - x * 100| ≤ 1 / 2 ^ 45 := by
  have herror := Binary64.abs_roundRat_mul_sub_le (n := 100) (k := -46) hlow hhigh
    (by norm_num) (by norm_num)
  rw [inPercent]
  exact (by exact_mod_cast herror : |_ - x * 100| ≤ _).trans (by norm_num)

theorem inPercent_bounds (hlow : 0 ≤ x) (hhigh : x ≤ 1) : 0 ≤ inPercent x ∧ inPercent x ≤ 100 :=
  Binary64.roundRat_mul_bounds hlow hhigh (by norm_num)

/-- Two integers next to a number are the same one, unless the number is next to a tie. -/
theorem eq_or_next_to_tie {a b : ℤ} {e : ℚ} (ha : |a - x| ≤ 1 / 2 + e) (hb : |b - x| ≤ 1 / 2 + e)
    (he : e < 1 / 2) : a = b ∨ |Int.fract x - 1 / 2| ≤ e ∧ |(a : ℚ) - b| = 1 := by
  have hless {a b : ℤ} (ha : |a - x| ≤ 1 / 2 + e) (hb : |b - x| ≤ 1 / 2 + e) (hlt : a < b) :
      |Int.fract x - 1 / 2| ≤ e ∧ (b : ℚ) - a = 1 := by
    rw [abs_le] at ha hb
    have hnext : b = a + 1 := by
      have hfar : (b : ℚ) < a + 2 := by linarith
      have hfar' : b < a + 2 := by exact_mod_cast hfar
      omega
    subst hnext
    push_cast at hb ⊢
    have hfloor : ⌊x⌋ = a := by
      rw [Int.floor_eq_iff]
      constructor <;> linarith
    have hfract := Int.floor_add_fract x
    rw [hfloor] at hfract
    refine ⟨?_, by ring⟩
    rw [abs_le]
    constructor <;> linarith
  rcases lt_trichotomy a b with hlt | heq | hgt
  · obtain ⟨htie, hone⟩ := hless ha hb hlt
    exact Or.inr ⟨htie, by rw [abs_sub_comm, hone, abs_one]⟩
  · exact Or.inl heq
  · obtain ⟨htie, hone⟩ := hless hb ha hgt
    exact Or.inr ⟨htie, by rw [hone, abs_one]⟩

/-- The engine and the panel show the same tenth of a share, unless it is next to a tie. -/
theorem rounded_share (hlow : 0 ≤ x) (hhigh : x ≤ 1) :
    roundToTenth (inPercent x) = mathRound (inThousandths x) / 10 ∨
      |Int.fract (x * 1000) - 1 / 2| ≤ 1 / 2 ^ 41 ∧
        |roundToTenth (inPercent x) - mathRound (inThousandths x) / 10| = 1 / 10 := by
  obtain ⟨a, ha⟩ : ∃ a : ℤ, roundToTenth (inPercent x) = (a : ℚ) / 10 := ⟨_, rfl⟩
  have hpercent := abs_le.mp (abs_inPercent_sub_le hlow hhigh)
  have hround := abs_le.mp (abs_roundToTenth_sub_le (inPercent x))
  have hthousandths := abs_le.mp (abs_inThousandths_sub_le hlow hhigh)
  have hround' := abs_le.mp (abs_mathRound_sub_le (inThousandths x))
  rw [ha] at hround ⊢
  have hengine : |(a : ℚ) - x * 1000| ≤ 1 / 2 + 1 / 2 ^ 41 := by
    rw [abs_le]
    constructor <;> linarith
  have hpanel : |(mathRound (inThousandths x) : ℚ) - x * 1000| ≤ 1 / 2 + 1 / 2 ^ 41 := by
    rw [abs_le]
    constructor <;> linarith
  rcases eq_or_next_to_tie hengine hpanel (by norm_num) with heq | ⟨htie, hone⟩
  · exact Or.inl (by rw [heq])
  · refine Or.inr ⟨htie, ?_⟩
    rw [← sub_div, abs_div, hone]
    norm_num

/-- A point of the history against the items that it is about. -/
structure Shows (point : HourlyDataPoint) (items : List Item) : Prop where
  vehicles : point.vehicleCount = (vehicles items).card
  bunching : point.bunchingEvents = newActions items
  nonneg : 0 ≤ point.avgDeviation
  average : |point.avgDeviation - (summary (secondsOf items)).avgSeconds| ≤ 11 / 20
  p95 : point.p95Deviation = (summary (secondsOf items)).p95Seconds
  onTime : point.onTimePct = (summary (secondsOf items)).vehiclesOnTimePct ∨
    |Int.fract (onTimeShare (secondsOf items) * 1000) - 1 / 2| ≤ 1 / 2 ^ 41 ∧
      |point.onTimePct - (summary (secondsOf items)).vehiclesOnTimePct| = 1 / 10
  share : 0 ≤ point.onTimePct ∧ point.onTimePct ≤ 100
  /-- An hour without service is one without deviations, and everything about them is zero. -/
  idle : (point.vehicleCount = 0 ↔ secondsOf items = []) ∧
    (point.vehicleCount = 0 →
      point.avgDeviation = 0 ∧ point.p95Deviation = 0 ∧ point.onTimePct = 0)

theorem vehicles_eq_empty_iff (items : List Item) : vehicles items = ∅ ↔ secondsOf items = [] := by
  have hmap : vehicles items = ((deviationsOf items).map (·.vehicleId)).toFinset := by
    rw [vehicles, deviationsOf, List.map_filterMap]
    congr 1
    refine List.filterMap_congr fun i _ ↦ ?_
    cases i <;> rfl
  rw [hmap, List.toFinset_eq_empty_iff, List.map_eq_nil_iff, secondsOf, List.map_eq_nil_iff]

theorem countP_onTime (items : List Item) : (itemsData items).onTimeCount =
    (secondsOf items).countP (· ≤ onTimeThresholdSeconds) := by
  rw [(itemsData_deviations items).2.2, secondsOf, List.countP_map]
  refine List.countP_congr fun dev _ ↦ ?_
  have hthreshold : onTimeThresholdSeconds = inSeconds (seconds Hourly.onTimeThresholdSeconds) := by
    rw [inSeconds, seconds, onTimeThresholdSeconds, Hourly.onTimeThresholdSeconds]
    norm_num
  rw [decide_eq_true_iff, Function.comp_apply, decide_eq_true_iff, hthreshold, ← inSeconds_abs,
    inSeconds_le_iff]

theorem dataPoint_routeStats (hour : Time) (routeId : String) (items : List Item) :
    dataPoint (routeStats hour routeId (itemsData items)) =
      { hour := isoString hour
        avgDeviation := oneDecimal (if 0 < (secondsOf items).length then
          (secondsOf items).sum / (secondsOf items).length else 0)
        p95Deviation :=
          mathRound (RoutePerformance.computeP95 ((secondsOf items).mergeSort (· ≤ ·)))
        vehicleCount := (vehicles items).card
        onTimePct := oneDecimal (if 0 < (secondsOf items).length then
          roundToTenth (inPercent (onTimeShare (secondsOf items))) else 0)
        bunchingEvents := newActions items } := by
  obtain ⟨hdeviations, htotal, -⟩ := itemsData_deviations items
  obtain ⟨-, hnew, hvehicles⟩ := itemsData_counts items
  have hlength : (itemsData items).totalCount = (secondsOf items).length := by
    rw [htotal, secondsOf, List.length_map]
  have hvehicles' : (itemsData items).vehicleIds = vehicles items := hvehicles
  have hnew' : (itemsData items).newBunching = newActions items := hnew
  have hp95 : Hourly.computeP95 ((itemsData items).deviations.mergeSort (· ≤ ·)) =
      RoutePerformance.computeP95 ((secondsOf items).mergeSort (· ≤ ·)) := by
    rw [computeP95_eq_summary, secondsOf_eq]
  simp only [dataPoint, routeStats, hp95, hvehicles', hnew', inSeconds_sum, ← secondsOf_eq, hlength,
    countP_onTime, onTimeShare, inPercent]

theorem oneDecimal_zero : oneDecimal 0 = 0 := by
  have h := oneDecimal_tenths 0
  rwa [Int.cast_zero, zero_div] at h

theorem onTimeShare_bounds (seconds : List ℚ) :
    0 ≤ onTimeShare seconds ∧ onTimeShare seconds ≤ 1 := by
  have hle : (seconds.countP (· ≤ onTimeThresholdSeconds) : ℚ) ≤ seconds.length :=
    Nat.cast_le.mpr List.countP_le_length
  exact ⟨div_nonneg (Nat.cast_nonneg _) (Nat.cast_nonneg _),
    div_le_one_of_le₀ hle (Nat.cast_nonneg _)⟩

theorem roundToTenth_bounds (hlow : 0 ≤ x) (hhigh : x ≤ 100) :
    0 ≤ roundToTenth x ∧ roundToTenth x ≤ 100 := by
  have hnonneg : 0 ≤ mathRound (x * 10) := mathRound_nonneg (by linarith)
  have hle : mathRound (x * 10) ≤ 1000 := by
    have hlt : mathRound (x * 10) < 1001 := by
      rw [mathRound, Int.floor_lt]
      push_cast
      linarith
    omega
  have hnonneg' : (0 : ℚ) ≤ mathRound (x * 10) := Int.cast_nonneg hnonneg
  have hle' : (mathRound (x * 10) : ℚ) ≤ 1000 := by exact_mod_cast hle
  rcases roundToTenth_cases x with hsame | ⟨htie, hless⟩
  · rw [hsame, oneDecimal]
    constructor <;> linarith
  · -- a tie is at least a half, and a half is rounded up to one at least
    have hfract := Int.floor_add_fract (x * 10)
    have hfloor : (0 : ℚ) ≤ ⌊x * 10⌋ := Int.cast_nonneg (Int.floor_nonneg.mpr (by linarith))
    have hone : (1 : ℤ) ≤ mathRound (x * 10) := by
      rw [mathRound, Int.le_floor, Int.cast_one]
      linarith
    have hone' : (1 : ℚ) ≤ mathRound (x * 10) := by exact_mod_cast hone
    rw [hless, oneDecimal]
    constructor <;> linarith

/-- **A row says what the panel would say of its deviations**, up to rounding. -/
theorem shows_routeStats (hour : Time) (routeId : String) (items : List Item) :
    Shows (dataPoint (routeStats hour routeId (itemsData items))) items := by
  have hidle : (vehicles items).card = 0 ↔ secondsOf items = [] := by
    rw [Finset.card_eq_zero, vehicles_eq_empty_iff]
  rw [dataPoint_routeStats]
  by_cases hnil : secondsOf items = []
  · have hsummary : summary (secondsOf items) = ⟨0, 0, 0, 0, 0⟩ := by rw [summary, if_pos hnil]
    have hlength : ¬0 < (secondsOf items).length := by
      rw [hnil]
      exact lt_irrefl 0
    have hround : mathRound (RoutePerformance.computeP95 ((secondsOf items).mergeSort (· ≤ ·))) =
        0 := by
      rw [hnil]
      decide +kernel
    rw [if_neg hlength, if_neg hlength, oneDecimal_zero, hround]
    refine ⟨rfl, rfl, le_rfl, ?_, ?_, Or.inl ?_, by norm_num, hidle, fun _ ↦ ⟨rfl, rfl, rfl⟩⟩
    · rw [hsummary]
      norm_num
    · rw [hsummary]
    · rw [hsummary]
  have hlength : 0 < (secondsOf items).length := List.length_pos_iff.mpr hnil
  have hsummary : summary (secondsOf items) =
      { count := (secondsOf items).length
        avgSeconds := mathRound ((secondsOf items).sum / (secondsOf items).length)
        p95Seconds := mathRound (RoutePerformance.computeP95 ((secondsOf items).mergeSort (· ≤ ·)))
        maxSeconds := mathRound ((secondsOf items).max?.getD 0)
        vehiclesOnTimePct := mathRound (inThousandths (onTimeShare (secondsOf items))) / 10 } := by
    rw [summary, if_neg hnil]
  obtain ⟨hlow, hhigh⟩ := onTimeShare_bounds (secondsOf items)
  obtain ⟨hnonneg, hle⟩ := inPercent_bounds hlow hhigh
  rw [if_pos hlength, if_pos hlength, oneDecimal_roundToTenth]
  have hmean : 0 ≤ (secondsOf items).sum / (secondsOf items).length := by
    refine div_nonneg (List.sum_nonneg fun x hx ↦ ?_) (Nat.cast_nonneg _)
    obtain ⟨dev, -, rfl⟩ := List.mem_map.mp hx
    exact abs_nonneg _
  refine ⟨rfl, rfl, oneDecimal_nonneg hmean, ?_, ?_, ?_, roundToTenth_bounds hnonneg hle, hidle,
    fun hzero ↦ absurd (hidle.mp hzero) hnil⟩
  · have hdecimal := abs_oneDecimal_sub_le ((secondsOf items).sum / (secondsOf items).length)
    have hround := abs_mathRound_sub_le ((secondsOf items).sum / (secondsOf items).length)
    rw [hsummary]
    rw [abs_le] at hdecimal hround ⊢
    constructor <;> linarith
  · rw [hsummary]
  · rw [hsummary]
    exact rounded_share hlow hhigh

/-! ## Over runs -/

theorem clampDays_bounds (daysText : Option String) :
    1 ≤ clampDays daysText ∧ clampDays daysText ≤ maxDays := by
  rw [clampDays]
  cases daysText.bind parseInt with
  | none => decide
  | some days =>
    dsimp only
    split_ifs with hless hmore hmore'
    · exact absurd hmore (by decide)
    · decide
    · decide
    · exact ⟨not_lt.mp hless, not_lt.mp hmore'⟩

/-- A row that is selected is shown as some items of its route that were brought for its hour. -/
theorem shows_of_mem {events : List ProcessEvent} {routeId : String} {since : Time}
    {rows : List HourlyStats} (hrows : SelectsHours (processes events).table routeId since rows)
    (hrow : row ∈ rows) : ∃ own ≠ [],
      (∀ i ∈ own, i.route = routeId ∧ BroughtIn events row.hour i) ∧ Shows (dataPoint row) own := by
  obtain ⟨⟨key, hkey⟩, hroute, -⟩ := (hrows.mem_iff row).mp hrow
  obtain ⟨-, own, ⟨hne, hall, heq⟩, hbrought⟩ := (processes_kept events).table key row hkey
  rw [hroute] at hall
  refine ⟨own, hne, fun i hi ↦ ⟨hall i hi, hbrought i hi⟩, ?_⟩
  rw [heq]
  exact shows_routeStats _ _ _

theorem dataPoints_of_ok {routeId : String} {daysText : Option String} {rows : List HourlyStats}
    {response : RouteHistoryResponse} (h : routeHistory routeId daysText rows = .ok response) :
    response.dataPoints = rows.map dataPoint ∧ response.days = clampDays daysText := by
  rw [routeHistory] at h
  split_ifs at h
  rw [← Except.ok.inj h]
  exact ⟨rfl, rfl⟩

theorem selectsHours_single {table : Table} {since : Time}
    (htable : table = Function.update (fun _ ↦ none) row.key (some row))
    (hsince : since ≤ row.hour) : SelectsHours table row.routeId since [row] := by
  rw [htable]
  refine ⟨List.nodup_singleton _, List.pairwise_singleton _ _, fun row' ↦ ?_⟩
  rw [List.mem_singleton]
  constructor
  · rintro rfl
    exact ⟨⟨_, Function.update_self ..⟩, rfl, hsince⟩
  · rintro ⟨⟨key, hkey⟩, -, -⟩
    rcases eq_or_ne key row.key with rfl | hne
    · rw [Function.update_self] at hkey
      exact (Option.some.inj hkey).symm
    · rw [Function.update_of_ne hne] at hkey
      exact absurd hkey (by simp)

/-- An arrival that is two minutes late. -/
def arrival : DeviationResult where
  vehicleId := "y1"
  tripId := "T"
  stopSequence := 1
  kind := .arrival
  scheduledAt := minutes 60
  actualAt := minutes 62
  deviationSeconds := minutes 2
  routeId := some "28"

/-- It is handed over, and the process is stopped. -/
def lateArrival : List ProcessEvent :=
  [.window
    { result :=
        { bunchingActions := [], newDeviations := [arrival], totalRecords := 1, matching := none }
      now := minutes 63, monotonic := 0, outcome := .committed },
    .stop 0 .committed .committed]

/-- The row of its hour. -/
def lateRow : HourlyStats := ⟨"28", minutes 60, 120, 120, 1, 100, 0⟩

theorem processes_lateArrival : (processes lateArrival).table =
    Function.update (fun _ ↦ none) ("28", minutes 60) (some lateRow) := by
  have hrow : flushRoutes (minutes 60) (groupItems [.deviation arrival]) = [lateRow] := by
    decide +kernel
  have htable : (processes lateArrival).table = Table.upsert (fun _ ↦ none)
      (flushRoutes (minutes 60) (groupItems [.deviation arrival])) := by
    rfl
  rw [htable, hrow]
  rfl

theorem selectsHours_lateArrival :
    SelectsHours (processes lateArrival).table "28" 0 [lateRow] := by
  have hsince : 0 ≤ lateRow.hour := by decide
  exact selectsHours_single processes_lateArrival hsince

end GtfsStream.Api
