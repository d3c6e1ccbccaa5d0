import GtfsStream.Api.LiveSpec
import GtfsStream.Api.RoutePerformance
import GtfsStream.Hourly.AccumulatorSpec
import Mathlib.Data.List.Sort
import Mathlib.Tactic.FieldSimp
import Mathlib.Tactic.GCongr
import Mathlib.Tactic.Linarith
import Mathlib.Tactic.Positivity

/-!
# What the performance of a route means

The numbers of a route depend on the absolute deviations that match and not on their order: they are
a `summary` of them. Over the same collections, the summary of a route is that of its delays on the
map. Over the same deviations, it is that of the row which the hour makes of them, up to how the
share is rounded where it is next to a tie.

## The numbers

The averages, the percentile and the maximum are rounded to integers, which keeps their order. The
share is rounded from thousandths in binary64, and its two roundings are off by less than a
thousandth of a thousandth of it: so it stays between none and all, and it reads all only if all are
on time as long as the documents are fewer than two thousand.
-/

namespace GtfsStream.Api

open Analytics
open Hourly (inSeconds Item itemsData routeStats roundToTenth)
open Hourly.RoutePerformance (computeP95)

/-! ## The summary -/

/-- The share of the deviations that is on time. -/
def onTimeShare (seconds : List ℚ) : ℚ :=
  (seconds.countP (· ≤ onTimeThresholdSeconds) : ℚ) / seconds.length

/-- A share in thousandths, as binary64 has it. -/
def inThousandths (share : ℚ) : ℚ := Binary64.roundRat (Binary64.roundRat share * (1000 : ℕ))

/-- The numbers of a route, from the absolute deviations in seconds. -/
def summary (seconds : List ℚ) : RouteDeviationStats :=
  if seconds = [] then ⟨0, 0, 0, 0, 0⟩
  else
    { count := seconds.length
      avgSeconds := mathRound (seconds.sum / seconds.length)
      p95Seconds := mathRound (computeP95 (seconds.mergeSort (· ≤ ·)))
      maxSeconds := mathRound (seconds.max?.getD 0)
      vehiclesOnTimePct := mathRound (inThousandths (onTimeShare seconds)) / 10 }

theorem deviationStats_group (docs : List DeviationDoc) :
    deviationStats (groupDeviations docs) = summary (docs.map fun doc ↦ absSeconds doc.2) := by
  cases docs with
  | nil => rfl
  | cons first rest =>
    have hpos : 0 < ((first :: rest).map fun doc ↦ absSeconds doc.2).length := Nat.succ_pos _
    rw [summary, if_neg (List.ne_nil_of_length_pos hpos)]
    simp only [groupDeviations, deviationStats]
    rw [if_pos hpos]
    rfl

theorem bunchingStats_group (docs : List BunchingDoc) :
    bunchingStats (groupBunching docs) =
      ⟨docs.length, (docs.map fun doc ↦ doc.2.minDistanceMeters).min?⟩ := by
  rw [groupBunching]
  cases hmin : (docs.map fun doc ↦ doc.2.minDistanceMeters).min? with
  | none =>
    rw [List.min?_eq_none_iff, List.map_eq_nil_iff] at hmin
    rw [hmin]
    rfl
  | some worst => rfl

variable {values values' : List ℚ}

theorem pairwise_sorted (values : List ℚ) :
    (values.mergeSort (· ≤ ·)).Pairwise (· ≤ ·) := by
  have h := @List.pairwise_mergeSort ℚ (fun a b ↦ decide (a ≤ b))
    (fun a b c hab hbc ↦ decide_eq_true ((of_decide_eq_true hab).trans (of_decide_eq_true hbc)))
    (fun a b ↦ by simpa using le_total a b) values
  exact h.imp of_decide_eq_true

theorem sorted_eq_of_perm (h : values.Perm values') :
    values.mergeSort (· ≤ ·) = values'.mergeSort (· ≤ ·) :=
  List.Perm.eq_of_pairwise (fun _ _ _ _ ↦ le_antisymm) (pairwise_sorted _) (pairwise_sorted _)
    ((List.mergeSort_perm _ _).trans (h.trans (List.mergeSort_perm _ _).symm))

theorem min?_eq_of_perm (h : values.Perm values') : values.min? = values'.min? := by
  refine Option.ext fun a ↦ ?_
  rw [List.min?_eq_some_iff, List.min?_eq_some_iff, h.mem_iff]
  exact and_congr_right fun _ ↦ forall_congr' fun b ↦ imp_congr_left h.mem_iff

theorem max?_eq_of_perm (h : values.Perm values') : values.max? = values'.max? := by
  refine Option.ext fun a ↦ ?_
  rw [List.max?_eq_some_iff, List.max?_eq_some_iff, h.mem_iff]
  exact and_congr_right fun _ ↦ forall_congr' fun b ↦ imp_congr_left h.mem_iff

theorem summary_perm (h : values.Perm values') : summary values = summary values' := by
  have hnil : values = [] ↔ values' = [] := by
    rw [← List.length_eq_zero_iff, h.length_eq, List.length_eq_zero_iff]
  rw [summary, summary, h.length_eq, h.sum_eq, sorted_eq_of_perm h, max?_eq_of_perm h,
    onTimeShare, onTimeShare, h.countP_eq, h.length_eq]
  simp only [hnil]

/-! ## Against the map -/

/-- What the map shows of the deviations of a route. -/
def delaysOf (routeId : String) (response : LiveResponse) : List DelayEntry :=
  response.delays.filter fun entry ↦ entry.routeId = some routeId

def bunchingOf (routeId : String) (response : LiveResponse) : List BunchingEntry :=
  response.bunching.filter fun entry ↦ entry.routeId = routeId

/-- Two queries find the same documents where their filters agree on them. -/
theorem Finds.perm {κ δ : Type*} {docs : κ → Option δ} {filter filter' : κ → δ → Prop}
    {answer answer' : List (κ × δ)} (h : Finds docs filter answer) (h' : Finds docs filter' answer')
    (p : κ × δ → Bool) (hp : ∀ k d, filter' k d ↔ filter k d ∧ p (k, d) = true) :
    answer'.Perm (answer.filter p) := by
  have hnodup : answer'.Nodup := List.Nodup.of_map _ h'.nodup
  refine (List.perm_ext_iff_of_nodup hnodup ((List.Nodup.of_map _ h.nodup).filter _)).mpr ?_
  rintro ⟨k, d⟩
  rw [List.mem_filter, h.mem_iff, h'.mem_iff, hp, and_assoc]

/-- **The panel of a route shows the numbers of its markers.** Where both endpoints read the same
collections for the same cutoff, the deviations of the panel are summed up from the delays that the
map has of the route, and its bunching from the events that the map has of it. -/
theorem performance_matches_live {docs : Documents} {cutoff generatedAt : Time} {routeId : String}
    {deviationDocs deviationDocs' : List DeviationDoc}
    {bunchingDocs bunchingDocs' : List BunchingDoc}
    {response : RoutePerformanceResponse}
    (hdeviations : FindsDeviations docs cutoff deviationDocs)
    (hbunching : FindsBunching docs cutoff bunchingDocs)
    (hdeviations' : Finds docs.scheduleDeviations (fun _ ↦ matchDeviation routeId cutoff)
      deviationDocs')
    (hbunching' : Finds docs.bunchingEvents (matchBunching routeId cutoff) bunchingDocs')
    (hresponse : routePerformance routeId deviationDocs' bunchingDocs' = .ok response) :
    let live := liveResponse deviationDocs bunchingDocs generatedAt
    response.deviation =
        summary ((delaysOf routeId live).map fun entry ↦ |inSeconds entry.deviationSeconds|) ∧
      response.bunching =
        ⟨(bunchingOf routeId live).length,
          ((bunchingOf routeId live).map BunchingEntry.minDistanceMeters).min?⟩ := by
  intro live
  have hdelays : (delaysOf routeId live).map (fun entry ↦ |inSeconds entry.deviationSeconds|) =
      (deviationDocs.filter fun doc ↦ doc.2.routeId = some routeId).map fun doc ↦
        absSeconds doc.2 := by
    rw [delaysOf]
    change ((deviationDocs.map delayEntry).filter _).map _ = _
    rw [List.filter_map, List.map_map]
    rfl
  have hevents : bunchingOf routeId live =
      (bunchingDocs.filter fun doc ↦ doc.1.1.routeId = routeId).map bunchingEntry := by
    rw [bunchingOf]
    change (bunchingDocs.map bunchingEntry).filter _ = _
    rw [List.filter_map]
    rfl
  have hperm := Finds.perm hdeviations hdeviations'
    (fun doc ↦ doc.2.routeId = some routeId) fun k d ↦ by
      rw [matchDeviation, decide_eq_true_iff, and_comm]
  have hperm' := Finds.perm hbunching hbunching' (fun doc ↦ doc.1.1.routeId = routeId)
    fun k d ↦ by rw [matchBunching, decide_eq_true_iff, and_comm]
  rw [routePerformance] at hresponse
  split_ifs at hresponse with hvalid
  rw [← Except.ok.inj hresponse]
  constructor
  · rw [deviationStats_group, hdelays]
    exact summary_perm (hperm.map _)
  · rw [bunchingStats_group, hevents, List.length_map, List.map_map, hperm'.length_eq,
      min?_eq_of_perm (hperm'.map _)]
    rfl

/-- A bus of route 28 that is a minute late. -/
def lateBus : DeviationDoc :=
  (("y1", "t1", 1, .arrival), ⟨0, seconds 60, seconds 60, none, some "28", none⟩)

/-- The panel and the map both have its minute. -/
theorem performance_lateBus : ∃ response,
    routePerformance "28" [lateBus] [] = .ok response ∧ response.deviation = summary [60] := by
  let docs : Documents :=
    { scheduleDeviations := Function.update (fun _ ↦ none) lateBus.1 (some lateBus.2) }
  have hdeviations : FindsDeviations docs 0 [lateBus] :=
    finds_single (k := lateBus.1) (d := lateBus.2) rfl (by decide)
  have hdeviations' : Finds docs.scheduleDeviations (fun _ ↦ matchDeviation "28" 0) [lateBus] :=
    finds_single (k := lateBus.1) (d := lateBus.2) rfl ⟨rfl, by decide⟩
  obtain ⟨hdeviation, -⟩ := @performance_matches_live docs 0 0 "28" _ _ _ _ _ hdeviations
    (finds_nil _) hdeviations' (finds_nil _) rfl
  exact ⟨_, rfl, hdeviation.trans (congrArg summary (by decide +kernel))⟩

/-! ## How the numbers are related -/

theorem mathRound_mono {x y : ℚ} (h : x ≤ y) : mathRound x ≤ mathRound y :=
  Int.floor_le_floor (add_le_add_left h _)

theorem mathRound_nonneg {x : ℚ} (h : 0 ≤ x) : 0 ≤ mathRound x :=
  Int.floor_nonneg.mpr (by linarith)

theorem computeP95_between {values : List ℚ} {low high : ℚ} (hne : values ≠ [])
    (h : ∀ x ∈ values, low ≤ x ∧ x ≤ high) :
    low ≤ computeP95 values ∧ computeP95 values ≤ high := by
  rcases Hourly.length_cases values with rfl | ⟨value, rfl⟩ | hlength
  · exact absurd rfl hne
  · exact h value (List.mem_singleton_self value)
  · have hlower := h _ (List.mem_of_getElem? (Hourly.getElem?_below hlength))
    have hupper := h _ (List.mem_of_getElem? (Hourly.getElem?_below_add_one hlength))
    rw [Hourly.RoutePerformance.computeP95_eq hlength]
    constructor
    · calc low = Hourly.interpolate low low (Hourly.share values.length) :=
            (Hourly.interpolate_self _ _).symm
        _ ≤ _ := Hourly.interpolate_le hlower.1 hupper.1 Hourly.share_nonneg
            Hourly.share_lt_one.le
    · calc _ ≤ Hourly.interpolate high high (Hourly.share values.length) :=
            Hourly.interpolate_le hlower.2 hupper.2 Hourly.share_nonneg Hourly.share_lt_one.le
        _ = high := Hourly.interpolate_self _ _

theorem exists_max? (hne : values ≠ []) : ∃ m, values.max? = some m ∧ ∀ x ∈ values, x ≤ m := by
  cases h : values.max? with
  | none => exact absurd (List.max?_eq_none_iff.mp h) hne
  | some m => exact ⟨m, rfl, (List.max?_eq_some_iff.mp h).2⟩

/-- What binary64 makes of a share in thousandths is off by less than `2 ^ -42`. -/
theorem abs_inThousandths_sub_le {share : ℚ} (hlow : 0 ≤ share) (hhigh : share ≤ 1) :
    |inThousandths share - share * 1000| ≤ 1 / 2 ^ 42 := by
  have herror := Binary64.abs_roundRat_mul_sub_le (n := 1000) (k := -43) hlow hhigh
    (by norm_num) (by norm_num)
  rw [inThousandths]
  exact (by exact_mod_cast herror : |_ - share * 1000| ≤ _).trans (by norm_num)

theorem inThousandths_bounds {share : ℚ} (hlow : 0 ≤ share) (hhigh : share ≤ 1) :
    0 ≤ inThousandths share ∧ inThousandths share ≤ 1000 :=
  Binary64.roundRat_mul_bounds hlow hhigh (by norm_num)

theorem mathRound_share {k n : ℕ} (hk : k ≤ n) (hn : 0 < n) :
    0 ≤ mathRound (inThousandths ((k : ℚ) / n)) ∧ mathRound (inThousandths ((k : ℚ) / n)) ≤ 1000 ∧
      (n < 2000 → (mathRound (inThousandths ((k : ℚ) / n)) = 1000 ↔ k = n)) ∧
      (n < 2000 → (mathRound (inThousandths ((k : ℚ) / n)) = 0 ↔ k = 0)) := by
  have hn' : (0 : ℚ) < n := Nat.cast_pos.mpr hn
  have hk' : (k : ℚ) ≤ n := Nat.cast_le.mpr hk
  have hnonneg : (0 : ℚ) ≤ k / n := by positivity
  have hshare : (k : ℚ) / n ≤ 1 := (div_le_one hn').mpr hk'
  obtain ⟨hlow, hhigh⟩ := inThousandths_bounds hnonneg hshare
  obtain ⟨herror, herror'⟩ := abs_le.mp (abs_inThousandths_sub_le hnonneg hshare)
  have hle : mathRound (inThousandths ((k : ℚ) / n)) ≤ 1000 := by
    refine (mathRound_mono hhigh).trans (le_of_eq ?_)
    rw [mathRound, Int.floor_eq_iff]
    norm_num
  have hinv (hlt : n < 2000) : (1 : ℚ) / 1999 ≤ 1 / n :=
    one_div_le_one_div_of_le hn' (by exact_mod_cast Nat.le_of_lt_succ hlt)
  have hsmall : (1 : ℚ) / 2 ^ 42 ≤ 1 / 10000 := by norm_num
  refine ⟨mathRound_nonneg hlow, hle, fun hlt ↦ ?_, fun hlt ↦ ?_⟩
  · rw [mathRound, Int.floor_eq_iff]
    constructor
    · intro h
      -- one late vehicle among fewer than 2000 is more than half a tenth of a percent
      by_contra hne
      have hsucc : (k : ℚ) + 1 ≤ n := by exact_mod_cast Nat.lt_of_le_of_ne hk hne
      have hbound : (k : ℚ) / n ≤ (n - 1) / n := by gcongr; linarith
      have hdiv : ((n : ℚ) - 1) / n = 1 - 1 / n := by field_simp
      have hhalf := h.1
      push_cast at hhalf
      linarith [hinv hlt]
    · rintro rfl
      rw [div_self hn'.ne'] at herror herror' hhigh ⊢
      push_cast
      constructor <;> linarith
  · rw [mathRound, Int.floor_eq_iff]
    constructor
    · intro h
      by_contra hne
      have hone : (1 : ℚ) ≤ k := by exact_mod_cast Nat.one_le_iff_ne_zero.mpr hne
      have hbound : (1 : ℚ) / n ≤ k / n := by gcongr
      have hhalf := h.2
      push_cast at hhalf
      linarith [hinv hlt]
    · rintro rfl
      rw [Nat.cast_zero, zero_div] at herror herror' hlow ⊢
      push_cast
      constructor <;> linarith

/-- **The numbers of a route are in order.** The average and the 95th percentile lie between zero
and the maximum, and the share that is on time between none and all; among fewer than 2000
deviations it reads 100 only if all of them are on time, and 0 only if none is. -/
theorem summary_ordered (seconds : List ℚ) (hnonneg : ∀ x ∈ seconds, 0 ≤ x) :
    (summary seconds).count = seconds.length ∧
      0 ≤ (summary seconds).avgSeconds ∧
      (summary seconds).avgSeconds ≤ (summary seconds).maxSeconds ∧
      0 ≤ (summary seconds).p95Seconds ∧
      (summary seconds).p95Seconds ≤ (summary seconds).maxSeconds ∧
      0 ≤ (summary seconds).vehiclesOnTimePct ∧ (summary seconds).vehiclesOnTimePct ≤ 100 ∧
      (0 < seconds.length → seconds.length < 2000 →
        ((summary seconds).vehiclesOnTimePct = 100 ↔
          ∀ x ∈ seconds, x ≤ onTimeThresholdSeconds) ∧
        ((summary seconds).vehiclesOnTimePct = 0 ↔
          ∀ x ∈ seconds, ¬x ≤ onTimeThresholdSeconds)) := by
  by_cases hnil : seconds = []
  · rw [hnil, summary, if_pos rfl]
    exact ⟨rfl, le_rfl, le_rfl, le_rfl, le_rfl, le_rfl, by norm_num, fun h ↦ absurd h (by simp)⟩
  obtain ⟨m, hm, hmax⟩ := exists_max? hnil
  have hpos : 0 < seconds.length := List.length_pos_iff.mpr hnil
  have hpos' : (0 : ℚ) < seconds.length := Nat.cast_pos.mpr hpos
  -- the average lies between zero and the maximum
  have havg : 0 ≤ seconds.sum / seconds.length := div_nonneg (List.sum_nonneg hnonneg) hpos'.le
  have havg' : seconds.sum / seconds.length ≤ m := by
    have hsum := List.sum_le_card_nsmul seconds m hmax
    rw [nsmul_eq_mul] at hsum
    rw [div_le_iff₀ hpos', mul_comm]
    exact hsum
  have hp95 : 0 ≤ computeP95 (seconds.mergeSort (· ≤ ·)) ∧
      computeP95 (seconds.mergeSort (· ≤ ·)) ≤ m := by
    refine computeP95_between (fun h ↦ ?_) fun x hx ↦ ?_
    · rw [← List.length_eq_zero_iff, List.length_mergeSort] at h
      exact hpos.ne' h
    · rw [List.mem_mergeSort] at hx
      exact ⟨hnonneg x hx, hmax x hx⟩
  have hcount : seconds.countP (· ≤ onTimeThresholdSeconds) = seconds.length ↔
      ∀ x ∈ seconds, x ≤ onTimeThresholdSeconds := by
    rw [List.countP_eq_length]
    simp only [decide_eq_true_eq]
  obtain ⟨hlow, hhigh, hall, hzero⟩ :=
    mathRound_share (List.countP_le_length (p := (· ≤ onTimeThresholdSeconds)) (l := seconds)) hpos
  rw [← onTimeShare] at hlow hhigh hall hzero
  rw [summary, if_neg hnil, hm]
  refine ⟨rfl, mathRound_nonneg havg, mathRound_mono havg', mathRound_nonneg hp95.1,
    mathRound_mono hp95.2, ?_, ?_, fun _ hlt ↦ ⟨?_, ?_⟩⟩
  · exact div_nonneg (Int.cast_nonneg hlow) (by norm_num)
  · rw [div_le_iff₀ (by norm_num)]
    exact_mod_cast hhigh
  · have hfull : (100 : ℚ) * 10 = (1000 : ℤ) := by norm_num
    rw [div_eq_iff (by norm_num), hfull, Int.cast_inj, hall hlt, hcount]
  · rw [div_eq_iff (by norm_num), zero_mul, Int.cast_eq_zero, hzero hlt, List.countP_eq_zero]
    simp only [decide_eq_true_eq]

/-- A minute, two and five. -/
theorem summary_ordered_three : (summary [60, 120, 300]).p95Seconds ≤ 300 ∧
    ((summary [60, 120, 300]).vehiclesOnTimePct = 100 ↔
      ∀ x ∈ [(60 : ℚ), 120, 300], x ≤ onTimeThresholdSeconds) := by
  obtain ⟨-, -, -, -, hp95, -, -, hall⟩ := summary_ordered [60, 120, 300] (by decide +kernel)
  have hmax : (summary [60, 120, 300]).maxSeconds = 300 := by decide +kernel
  exact ⟨hp95.trans_eq hmax, (hall (by decide) (by decide)).1⟩

end GtfsStream.Api
