import GtfsStream.Analytics.ArrivalSpec
import Mathlib.Algebra.Order.Group.Unbundled.Abs
import Mathlib.Algebra.Order.Group.Int
import Mathlib.Tactic.Linarith
import Mathlib.Tactic.Ring

/-!
# Anchoring a scheduled time

A scheduled time is an offset on a service day, and the observed moment does not say which day. The
scheduled moment is taken from the day whose candidate is closest. Noons lie at least 23 hours
apart, so the candidates of two days do, and a vehicle less than 11.5 hours off its schedule is
closer to its own candidate than to any other.

All three candidates have to be in the calendar. On its first day there is no previous one and on
its last day no next one, so no moment of these days is anchored at all.
-/

namespace GtfsStream.Analytics

open Rows (truncate truncate_intCast getNumber getNumber_intCast exists_int_of_getNumber)

variable {zone : Zone}

/-! ## The closest candidate -/

theorem closer_eq (actual best c : Time) :
    closer actual best c = best ∨ closer actual best c = c := by
  rw [closer]
  split_ifs
  · exact Or.inr rfl
  · exact Or.inl rfl

theorem abs_closer_sub_le (actual best c : Time) :
    |closer actual best c - actual| ≤ |best - actual| ∧
      |closer actual best c - actual| ≤ |c - actual| := by
  rw [closer]
  split_ifs with h
  · exact ⟨h.le, le_rfl⟩
  · exact ⟨le_rfl, not_lt.mp h⟩

/-- The nearest moment is that of one of the three days, and no other of them is closer. -/
theorem nearestMoment_spec (zone : Zone) (actual : Time) (s : ℕ) :
    (∃ δ : ℤ, nearestMoment zone actual s = serviceMoment zone s (zone.date actual + δ)) ∧
    ∀ δ : ℤ, |δ| ≤ 1 → |nearestMoment zone actual s - actual| ≤
      |serviceMoment zone s (zone.date actual + δ) - actual| := by
  let c (δ : ℤ) := serviceMoment zone s (zone.date actual + δ)
  change (∃ δ : ℤ, closer actual (closer actual (c (-1)) (c 0)) (c 1) = c δ) ∧
    ∀ δ : ℤ, |δ| ≤ 1 →
      |closer actual (closer actual (c (-1)) (c 0)) (c 1) - actual| ≤ |c δ - actual|
  obtain ⟨hfirst, hsecond⟩ := abs_closer_sub_le actual (c (-1)) (c 0)
  obtain ⟨hboth, hthird⟩ := abs_closer_sub_le actual (closer actual (c (-1)) (c 0)) (c 1)
  refine ⟨?_, fun δ hδ ↦ ?_⟩
  · rcases closer_eq actual (closer actual (c (-1)) (c 0)) (c 1) with h | h
    · rw [h]
      rcases closer_eq actual (c (-1)) (c 0) with h | h
      · exact ⟨-1, h⟩
      · exact ⟨0, h⟩
    · exact ⟨1, h⟩
  · have hthree : δ = -1 ∨ δ = 0 ∨ δ = 1 := by
      rw [abs_le] at hδ
      omega
    rcases hthree with rfl | rfl | rfl
    · exact hboth.trans hfirst
    · exact hboth.trans hsecond
    · exact hthird

/-! ## The gap between two days -/

section

variable (hnoon : ∀ day, hours 23 ≤ zone.noon (day + 1) - zone.noon day)

include hnoon

theorem noon_gap {day day' : ℤ} (h : day + 1 ≤ day') :
    hours 23 ≤ zone.noon day' - zone.noon day := by
  induction day', h using Int.leInduction with
  | base => exact hnoon day
  | succ day' _ ih =>
    have hpos : 0 < hours 23 := by decide
    have hstep : hours 23 ≤ zone.noon (day' + 1) - zone.noon day' := hnoon day'
    linarith

/-- The moments of one offset on two days are a short day apart at least. -/
theorem serviceMoment_gap (s : ℕ) {day day' : ℤ} (hne : day' ≠ day) :
    hours 23 ≤ |serviceMoment zone s day' - serviceMoment zone s day| := by
  rw [serviceMoment, serviceMoment]
  rcases lt_or_gt_of_ne hne with hlt | hgt
  · have hgap : hours 23 ≤ zone.noon day - zone.noon day' := noon_gap hnoon hlt
    rw [abs_sub_comm]
    exact le_trans (by linarith) (le_abs_self _)
  · have hgap : hours 23 ≤ zone.noon day' - zone.noon day := noon_gap hnoon hgt
    exact le_trans (by linarith) (le_abs_self _)

/-- A vehicle less than half of a short day off its schedule is farther from any other day. -/
theorem closer_own_day (s : ℕ) {d : Time} (hd : |d| < minutes 690) {day day' : ℤ}
    (hne : day' ≠ day) :
    |d| < |serviceMoment zone s day' - (serviceMoment zone s day + d)| := by
  have hgap : hours 23 ≤ |serviceMoment zone s day' - serviceMoment zone s day| :=
    serviceMoment_gap hnoon s hne
  have htwice : hours 23 = minutes 690 + minutes 690 := by decide
  have htriangle : |serviceMoment zone s day' - serviceMoment zone s day| ≤
      |serviceMoment zone s day' - (serviceMoment zone s day + d)| + |d| := by
    calc |serviceMoment zone s day' - serviceMoment zone s day|
        = |serviceMoment zone s day' - (serviceMoment zone s day + d) + d| := by
          congr 1
          ring
      _ ≤ _ := abs_add_le _ _
  linarith

/-- **The own day is found**: an observed moment off its schedule by less than 11.5 hours is matched
with the service day that it belongs to. -/
theorem nearestMoment_own_day (s : ℕ) {d : Time} (hd : |d| < minutes 690) {day : ℤ}
    (hday : |day - zone.date (serviceMoment zone s day + d)| ≤ 1) :
    nearestMoment zone (serviceMoment zone s day + d) s =
      serviceMoment zone s day := by
  obtain ⟨⟨δ, heq⟩, hclosest⟩ :=
    nearestMoment_spec zone (serviceMoment zone s day + d) s
  have hown : |nearestMoment zone (serviceMoment zone s day + d) s -
      (serviceMoment zone s day + d)| ≤ |d| := by
    refine (hclosest _ hday).trans_eq ?_
    rw [add_sub_cancel, sub_add_cancel_left, abs_neg]
  rw [heq] at hown ⊢
  by_contra hother
  refine absurd hown (not_le.mpr (closer_own_day hnoon s hd fun hsame ↦ hother ?_))
  rw [hsame]

end

/-! ## The deviations of a frame -/

section

variable {stopTimesLookup : String × ℤ → Option ScheduledStopTime} {pings : List Ping}
  {results : List DeviationResult} {r : DeviationResult}

theorem scheduledSeconds_intCast (trip : String) (seq : ℤ) :
    scheduledSeconds stopTimesLookup trip seq =
      (stopTimesLookup (trip, seq)).bind ScheduledStopTime.arrivalTime := by
  rw [scheduledSeconds, getNumber_intCast]

theorem arrivalTime_of_scheduledSeconds {trip : String} {seq : ℚ} {s : ℕ}
    (h : scheduledSeconds stopTimesLookup trip seq = some s) :
    (stopTimesLookup (trip, truncate seq)).bind ScheduledStopTime.arrivalTime = some s := by
  obtain ⟨stop, hstop, -⟩ := Option.bind_eq_some_iff.mp h
  obtain ⟨n, rfl⟩ := exists_int_of_getNumber (Option.isSome_of_eq_some hstop)
  rwa [truncate_intCast, ← scheduledSeconds_intCast]

/-- A reported deviation is that of its moment from the scheduled arrival of its stop. -/
theorem eq_of_arrivalResult {row : VisitKey × Option Time}
    (h : arrivalResult zone stopTimesLookup row = some (some r)) :
    ∃ s, (stopTimesLookup (r.tripId, r.stopSequence)).bind ScheduledStopTime.arrivalTime = some s ∧
      resolveScheduledDatetime zone r.actualAt s = some r.scheduledAt ∧
      r.deviationSeconds = r.actualAt - r.scheduledAt := by
  obtain ⟨⟨vehicle, trip, seq⟩, time⟩ := row
  rw [arrivalResult] at h
  dsimp only at h
  cases hs : scheduledSeconds stopTimesLookup trip seq with
  | none =>
    rw [hs] at h
    exact absurd (Option.some.inj h).symm (Option.some_ne_none r)
  | some s =>
    rw [hs] at h
    cases time with
    | none => exact absurd h.symm (Option.some_ne_none _)
    | some actual =>
      obtain ⟨scheduledAt, hresolved, hr⟩ := Option.bind_eq_some_iff.mp h
      rw [← Option.some.inj (Option.some.inj hr)]
      exact ⟨s, arrivalTime_of_scheduledSeconds hs, hresolved, rfl⟩

/-- **Anchoring recovers the deviation**: of a vehicle that is off its schedule by `d`, less than
11.5 hours, the scheduled moment is found, unless one of the three days has none in the calendar;
and every frame whose deviations are computed reports `d` where it arrives. -/
theorem deviation_recovered (zone : Zone)
    (hnoon : ∀ day, hours 23 ≤ zone.noon (day + 1) - zone.noon day ∧
      zone.noon (day + 1) - zone.noon day ≤ hours 25)
    (day : ℤ) (s : ℕ) (d : Time) (hd : |d| < minutes 690)
    (hday : |day - zone.date (serviceMoment zone s day + d)| ≤ 1) :
    (resolveScheduledDatetime zone (serviceMoment zone s day + d) s =
        if Anchored zone s (serviceMoment zone s day + d) then some (serviceMoment zone s day)
        else none) ∧
      ∀ (stopTimesLookup : String × ℤ → Option ScheduledStopTime) (pings : List Ping)
        (results : List DeviationResult),
        computeArrivalDeviations zone stopTimesLookup pings = some results →
        (∀ r ∈ results,
          (stopTimesLookup (r.tripId, r.stopSequence)).bind ScheduledStopTime.arrivalTime = some s →
          r.actualAt = serviceMoment zone s day + d →
          r.scheduledAt = serviceMoment zone s day ∧ r.deviationSeconds = d) ∧
        ∀ (vehicle trip : String) (seq : ℤ),
          ((vehicle, trip, (seq : ℚ)), some (serviceMoment zone s day + d)) ∈
            collapseToFirstArrival pings →
          (stopTimesLookup (trip, seq)).bind ScheduledStopTime.arrivalTime = some s →
          ∃ r ∈ results, r.vehicleId = vehicle ∧ r.tripId = trip ∧ r.stopSequence = seq ∧
            r.actualAt = serviceMoment zone s day + d ∧ r.deviationSeconds = d := by
  have hown : nearestMoment zone (serviceMoment zone s day + d) s = serviceMoment zone s day :=
    nearestMoment_own_day (fun day ↦ (hnoon day).1) s hd hday
  have hfound {t : Time}
      (ht : resolveScheduledDatetime zone (serviceMoment zone s day + d) s = some t) :
      t = serviceMoment zone s day := by
    rw [← (resolveScheduledDatetime_eq_some.mp ht).2, hown]
  refine ⟨by rw [resolveScheduledDatetime_eq, hown], ?_⟩
  intro stopTimesLookup pings results h
  constructor
  · intro r hr hs hactual
    obtain ⟨row, -, hrow⟩ := (mem_computeArrivalDeviations h).mp hr
    obtain ⟨s', hs', hresolved, hdeviation⟩ := eq_of_arrivalResult hrow
    obtain rfl : s' = s := Option.some.inj (hs'.symm.trans hs)
    rw [hactual] at hresolved hdeviation
    have hscheduled := hfound hresolved
    rw [hscheduled, add_sub_cancel_left] at hdeviation
    exact ⟨hscheduled, hdeviation⟩
  · intro vehicle trip seq hrow hs
    -- the frame could be computed, so this row could be anchored
    obtain ⟨result, hresult⟩ := Option.isSome_iff_exists.mp (arrivalResult_isSome h hrow)
    have hseconds := (scheduledSeconds_intCast trip seq).trans hs
    have hcomputed := hresult
    rw [arrivalResult] at hcomputed
    dsimp only at hcomputed
    rw [hseconds] at hcomputed
    obtain ⟨scheduledAt, hresolved, hr⟩ := Option.bind_eq_some_iff.mp hcomputed
    obtain rfl := Option.some.inj hr
    refine ⟨_, (mem_computeArrivalDeviations h).mpr ⟨_, hrow, hresult⟩, rfl, rfl,
      truncate_intCast seq, rfl, ?_⟩
    rw [hfound hresolved, add_sub_cancel_left]

theorem easternStandardTime_noon (day : ℤ) :
    easternStandardTime.noon (day + 1) - easternStandardTime.noon day = hours 24 := by
  change (day + 1) * hours 24 + hours 17 - (day * hours 24 + hours 17) = hours 24
  ring

/-- A bus that is due at 25:10 of the first day and comes five minutes late, in the night of the
second. -/
theorem deviation_recovered_after_midnight :
    resolveScheduledDatetime easternStandardTime
        (serviceMoment easternStandardTime 90600 0 + minutes 5) 90600 =
      some (serviceMoment easternStandardTime 90600 0) := by
  have hrecovered := (deviation_recovered easternStandardTime (fun day ↦ by
    rw [easternStandardTime_noon]
    decide) 0 90600 (minutes 5) (by decide) (by decide)).1
  rw [hrecovered, if_pos (by decide +kernel)]

/-- A bus that is in time at noon of the first day of the calendar. -/
theorem not_deviation_recovered_firstDay :
    ¬∀ zone : Zone, (∀ day, hours 23 ≤ zone.noon (day + 1) - zone.noon day ∧
        zone.noon (day + 1) - zone.noon day ≤ hours 25) →
      ∀ (day : ℤ) (s : ℕ) (d : Time), |d| < minutes 690 →
        |day - zone.date (serviceMoment zone s day + d)| ≤ 1 →
        resolveScheduledDatetime zone (serviceMoment zone s day + d) s =
          some (serviceMoment zone s day) := by
  intro h
  have hfirst := h easternStandardTime (fun day ↦ by
    rw [easternStandardTime_noon]
    decide) (-719162) 43200 0 (by decide) (by decide)
  rw [resolveScheduledDatetime_eq, if_neg (by decide +kernel)] at hfirst
  exact absurd hfirst.symm (Option.some_ne_none _)

end

end GtfsStream.Analytics
