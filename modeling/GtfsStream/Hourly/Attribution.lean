import GtfsStream.Hourly.Restart
import Mathlib.Data.List.Chain

/-!
# The hour that a window counts for

A window is taken in before the boundary of its hour is looked for, so the first window of an hour
still counts for the hour before it. Every window is counted in its own hour exactly if the first
window of each hour, the very first one apart, brings nothing.

## Parts of an hour

The run of an accumulator is cut where it hands over its rows. A part has the windows of its hour
but the first, and at its end the first window of the next hour; only the very first window of all
is in the part of its own hour. The rows are the statistics of the parts. Where the windows come in
the order of time the hours of the parts are different, so the row of a route and an hour has one
part, and it counts what its hour brought if the first windows of this hour and of the next bring
nothing.
-/

namespace GtfsStream.Hourly

open Analytics (DeviationResult)

/-! ## The run of an accumulator -/

namespace HourlyAccumulator

/-- All rows of a run of windows, the last ones when the process ends. -/
def rows (accumulator : HourlyAccumulator) : List Handed → List HourlyStats
  | [] => accumulator.flushRemaining.1.getD []
  | w :: windows =>
    let flushed := (accumulator.accumulate w.result).maybeFlush w.now
    flushed.1.getD [] ++ flushed.2.rows windows

/-- The data that these rows are computed from, flush by flush. -/
def batches (accumulator : HourlyAccumulator) :
    List Handed → List (Time × List (String × RouteData))
  | [] =>
    match accumulator.currentHour with
    | none => []
    | some hour => [(hour, accumulator.routeData)]
  | w :: windows =>
    let accumulated := accumulator.accumulate w.result
    let later := (accumulated.maybeFlush w.now).2.batches windows
    match accumulated.currentHour with
    | none => later
    | some hour =>
      if hourOf w.now = hour then later else (hour, accumulated.routeData) :: later

end HourlyAccumulator

/-- What is aggregated into the row of a route and an hour. -/
def aggregated (windows : List Handed) (route : String) (hour : Time) : List RouteData :=
  (((HourlyAccumulator.batches {} windows).filter (·.1 = hour)).flatMap fun batch ↦
    batch.2.filter (·.1 = route)).map Prod.snd

/-- What the windows of an hour bring. -/
def itemsIn (hour : Time) (windows : List Handed) : List Item :=
  (windows.filter fun w ↦ hourOf w.now = hour).flatMap fun w ↦ windowItems w.result

/-- What is aggregated for each route and hour is what the windows of that hour bring for it. -/
def CountedInOwnHour (windows : List Handed) : Prop :=
  ∀ route hour, aggregated windows route hour =
    let own := itemsOf route (itemsIn hour windows)
    if own = [] then [] else [itemsData own]

variable {accumulator : HourlyAccumulator} {windows : List Handed} {opened items : List Item}
  {route : String} {c hour : Time}

theorem rows_eq (accumulator : HourlyAccumulator) (windows : List Handed) :
    accumulator.rows windows =
      (accumulator.batches windows).flatMap fun batch ↦ flushRoutes batch.1 batch.2 := by
  induction windows generalizing accumulator with
  | nil =>
    rw [HourlyAccumulator.rows, HourlyAccumulator.batches, HourlyAccumulator.flushRemaining]
    cases accumulator.currentHour with
    | none => rfl
    | some hour =>
      rw [List.flatMap_singleton]
      split_ifs with hempty
      · rw [List.isEmpty_iff.mp hempty]
        rfl
      · rfl
  | cons w windows ih =>
    rw [HourlyAccumulator.rows, HourlyAccumulator.batches, ih, HourlyAccumulator.maybeFlush]
    cases (accumulator.accumulate w.result).currentHour with
    | none => rfl
    | some hour =>
      dsimp only
      split_ifs with hsame
      · rfl
      · rw [List.flatMap_cons, Option.getD_some]

/-- The data of a flush are the items of its part, grouped by route. -/
theorem batches_eq (h : accumulator.routeData = groupItems opened) (windows : List Handed) :
    accumulator.batches windows =
      (partsFrom accumulator.currentHour opened windows).map fun part ↦
        (part.1, groupItems part.2) := by
  induction windows generalizing accumulator opened with
  | nil =>
    rw [HourlyAccumulator.batches]
    cases accumulator.currentHour with
    | none => rfl
    | some hour =>
      rw [partsFrom, List.map_singleton, ← h]
  | cons w windows ih =>
    have haccumulate := accumulate_routeData h w.result
    have hcurrent : (accumulator.accumulate w.result).currentHour = accumulator.currentHour := rfl
    rw [HourlyAccumulator.batches, HourlyAccumulator.maybeFlush, hcurrent]
    cases hhour : accumulator.currentHour with
    | none =>
      rw [partsFrom]
      exact ih haccumulate
    | some hour =>
      rw [partsFrom]
      dsimp only
      split_ifs with hsame
      · rw [ih haccumulate, hcurrent, hhour]
      · rw [ih (show _ = groupItems [] from rfl), List.map_cons, haccumulate]

/-! ## The data of a route -/

theorem filter_groupItems (route : String) (items : List Item) :
    ((groupItems items).filter (·.1 = route)).map Prod.snd =
      if itemsOf route items = [] then [] else [itemsData (itemsOf route items)] := by
  have hdata : ∀ data ∈ ((groupItems items).filter (·.1 = route)).map Prod.snd,
      data = itemsData (itemsOf route items) := by
    intro data hdata
    obtain ⟨⟨r, d⟩, hentry, rfl⟩ := List.mem_map.mp hdata
    obtain ⟨hmem, hroute⟩ := List.mem_filter.mp hentry
    obtain rfl : r = route := of_decide_eq_true hroute
    exact (Grouping.mem_group.mp hmem).2
  have hlength : (((groupItems items).filter (·.1 = route)).map Prod.snd).length =
      (routesOf items).count route := by
    rw [List.length_map, routesOf, List.count, List.countP_map, List.countP_eq_length_filter]
    rfl
  rw [List.eq_replicate_of_mem hdata, hlength]
  split_ifs with hnone
  · rw [List.count_eq_zero_of_not_mem fun h ↦ mem_routesOf.mp h hnone]
    rfl
  · rw [List.count_eq_one_of_mem nodup_routesOf (mem_routesOf.mpr hnone)]
    rfl

/-- What the parts of an hour have for a route. -/
def received (parts : List (Time × List Item)) (route : String) (hour : Time) :
    List (List Item) :=
  (parts.filter (·.1 = hour)).map fun part ↦ itemsOf route part.2

theorem aggregated_eq (windows : List Handed) (route : String) (hour : Time) :
    aggregated windows route hour =
      ((received (partsFrom none [] windows) route hour).filter (!·.isEmpty)).map itemsData := by
  rw [aggregated, batches_eq (show _ = groupItems [] from rfl), received, List.filter_map,
    List.flatMap_map,
    List.map_flatMap]
  change List.flatMap _ ((partsFrom none [] windows).filter (·.1 = hour)) = _
  induction (partsFrom none [] windows).filter (·.1 = hour) with
  | nil => rfl
  | cons part parts ih =>
    rw [List.flatMap_cons, ih, filter_groupItems, List.map_cons]
    split_ifs with hnone
    · rw [List.filter_cons_of_neg (by simp [hnone]), List.nil_append]
    · rw [List.filter_cons_of_pos (by simp [hnone]), List.map_cons, List.singleton_append]

/-- The rows of a route and an hour are the statistics of what is aggregated for them. -/
theorem filter_rows (windows : List Handed) (route : String) (hour : Time) :
    (HourlyAccumulator.rows {} windows).filter (·.key = (route, hour)) =
      (aggregated windows route hour).map (routeStats hour route) := by
  rw [rows_eq, batches_eq (show _ = groupItems [] from rfl), aggregated_eq, List.flatMap_map,
    received]
  change List.filter _ (partRows (partsFrom none [] windows)) = _
  induction partsFrom none [] windows with
  | nil => rfl
  | cons part parts ih =>
    rw [partRows_cons, List.filter_append, ih, filter_flushRoutes]
    by_cases hhour : part.1 = hour
    · rw [List.filter_cons_of_pos (by simpa using hhour), List.map_cons]
      by_cases hmem : itemsOf route part.2 = []
      · rw [if_neg fun h ↦ h.2 hmem, List.filter_cons_of_neg (by simp [hmem]), List.nil_append]
      · rw [if_pos ⟨hhour, hmem⟩, List.filter_cons_of_pos (by simpa using hmem), List.map_cons,
          List.map_cons, List.singleton_append]
    · rw [List.filter_cons_of_neg (by simpa using hhour), if_neg fun h ↦ hhour h.1,
        List.nil_append]

/-! ## The hours of the parts -/

/-- Windows that are handed over in the order of time. -/
def InTimeOrder (windows : List Handed) : Prop := windows.Pairwise fun v w ↦ v.now ≤ w.now

/-- The first part is that of the current hour, and every later one of a later hour. -/
theorem partsFrom_eq_cons {v : Handed} (horder : InTimeOrder (v :: windows))
    (opened : List Item) : ∃ first rest,
      partsFrom (some (hourOf v.now)) opened windows = (hourOf v.now, first) :: rest ∧
        (∀ part ∈ rest, hourOf v.now < part.1) ∧ rest.Pairwise fun p q ↦ p.1 < q.1 := by
  induction windows generalizing v opened with
  | nil => exact ⟨opened, [], rfl, fun _ hpart ↦ absurd hpart List.not_mem_nil, List.Pairwise.nil⟩
  | cons w windows ih =>
    obtain ⟨hle, hrest⟩ := List.pairwise_cons.mp horder
    have hmono : hourOf v.now ≤ hourOf w.now := hourOf_mono (hle w List.mem_cons_self)
    rw [partsFrom]
    split_ifs with hsame
    · obtain ⟨first, rest, heq, hlater, hpairwise⟩ := ih hrest (opened ++ windowItems w.result)
      rw [hsame] at heq hlater
      exact ⟨first, rest, heq, hlater, hpairwise⟩
    · obtain ⟨first, rest, heq, hlater, hpairwise⟩ := ih hrest []
      have hlt : hourOf v.now < hourOf w.now := lt_of_le_of_ne hmono (Ne.symm hsame)
      refine ⟨_, _, rfl, ?_, ?_⟩
      · rw [heq, List.forall_mem_cons]
        exact ⟨hlt, fun part hpart ↦ hlt.trans (hlater part hpart)⟩
      · rw [heq, List.pairwise_cons]
        exact ⟨hlater, hpairwise⟩

theorem received_eq (horder : InTimeOrder windows) (route : String) (hour : Time) :
    received (partsFrom none [] windows) route hour = [] ∨
      ∃ own, received (partsFrom none [] windows) route hour = [own] := by
  cases windows with
  | nil => exact Or.inl rfl
  | cons v windows =>
    obtain ⟨first, rest, heq, hlater, hpairwise⟩ :=
      partsFrom_eq_cons horder ([] ++ windowItems v.result)
    rw [partsFrom, received, heq]
    have hall : ((hourOf v.now, first) :: rest).Pairwise fun p q ↦ p.1 < q.1 :=
      List.pairwise_cons.mpr ⟨hlater, hpairwise⟩
    have hone : (((hourOf v.now, first) :: rest).filter (·.1 = hour)).Pairwise
        fun _ _ ↦ False := by
      refine (hall.filter _).imp_of_mem fun hp hq hlt ↦ ?_
      have hp := of_decide_eq_true (List.mem_filter.mp hp).2
      have hq := of_decide_eq_true (List.mem_filter.mp hq).2
      exact absurd hlt (by rw [hp, hq]; exact lt_irrefl _)
    cases hfilter : ((hourOf v.now, first) :: rest).filter (·.1 = hour) with
    | nil => exact Or.inl rfl
    | cons part parts =>
      cases parts with
      | nil => exact Or.inr ⟨_, rfl⟩
      | cons part' parts =>
        rw [hfilter] at hone
        exact ((List.pairwise_cons.mp hone).1 part' List.mem_cons_self).elim

/-! ## Attribution -/

/-- The later window is in the hour of the earlier one, or it brings nothing. -/
def QuietBoundary (v w : Handed) : Prop :=
  hourOf v.now = hourOf w.now ∨ windowItems w.result = []

theorem itemsIn_cons (hour : Time) (w : Handed) (windows : List Handed) :
    itemsIn hour (w :: windows) =
      (if hourOf w.now = hour then windowItems w.result else []) ++ itemsIn hour windows := by
  rw [itemsIn]
  split_ifs with h
  · rw [List.filter_cons_of_pos (by simpa using h), List.flatMap_cons]
    rfl
  · rw [List.filter_cons_of_neg (by simpa using h), List.nil_append]
    rfl

theorem received_cons (part : Time × List Item) (parts : List (Time × List Item)) (route : String)
    (hour : Time) : (received (part :: parts) route hour).flatten =
      itemsOf route (if part.1 = hour then part.2 else []) ++
        (received parts route hour).flatten := by
  rw [received]
  split_ifs with h
  · rw [List.filter_cons_of_pos (by simpa using h), List.map_cons, List.flatten_cons]
    rfl
  · rw [List.filter_cons_of_neg (by simpa using h)]
    rfl

theorem itemsOf_append (route : String) (items items' : List Item) :
    itemsOf route (items ++ items') = itemsOf route items ++ itemsOf route items' :=
  List.filter_append _ _

/-- Where boundaries are quiet, an hour has what its own windows bring. -/
theorem flatten_received {v : Handed} (hquiet : (v :: windows).IsChain QuietBoundary)
    (opened : List Item) (route : String) (hour : Time) :
    (received (partsFrom (some (hourOf v.now)) opened windows) route hour).flatten =
      itemsOf route ((if hourOf v.now = hour then opened else []) ++ itemsIn hour windows) := by
  induction windows generalizing v opened with
  | nil =>
    rw [partsFrom, received_cons, itemsOf_append]
    rfl
  | cons w windows ih =>
    obtain ⟨hboundary, hrest⟩ := List.isChain_cons_cons.mp hquiet
    rw [partsFrom, itemsIn_cons]
    by_cases hsame : hourOf w.now = hourOf v.now
    · rw [if_pos hsame, ← hsame, ih hrest]
      split_ifs
      · rw [List.append_assoc]
      · rfl
    · have hnone : windowItems w.result = [] := hboundary.resolve_left fun h ↦ hsame h.symm
      rw [if_neg hsame, received_cons, ih hrest, hnone, List.append_nil, ← itemsOf_append]

theorem itemsIn_eq_nil_of_lt {v : Handed} (horder : InTimeOrder (v :: windows))
    (hlt : hour < hourOf v.now) : itemsIn hour windows = [] := by
  rw [itemsIn, List.filter_eq_nil_iff.mpr fun w hw hhour ↦ ?_, List.flatMap_nil]
  have hmono : hourOf v.now ≤ hourOf w.now := hourOf_mono ((List.pairwise_cons.mp horder).1 w hw)
  exact absurd (of_decide_eq_true hhour) (hlt.trans_le hmono).ne'

theorem eq_nil_of_itemsOf (h : ∀ route, (itemsOf route items).length = 0) : items = [] := by
  rw [List.eq_nil_iff_forall_not_mem]
  intro i hi
  have hmem : i ∈ itemsOf i.route items := List.mem_filter.mpr ⟨hi, decide_eq_true rfl⟩
  exact absurd (h i.route) (List.length_pos_of_mem hmem).ne'

/-- An hour that gets as many items as its own windows bring, and so does every other hour, has
nothing of the window that ends it. -/
theorem isChain_of_length {v : Handed} (horder : InTimeOrder (v :: windows)) (opened : List Item)
    (hlength : ∀ route hour,
      (received (partsFrom (some (hourOf v.now)) opened windows) route hour).flatten.length =
        (itemsOf route ((if hourOf v.now = hour then opened else []) ++
          itemsIn hour windows)).length) :
    (v :: windows).IsChain QuietBoundary := by
  induction windows generalizing v opened with
  | nil => exact List.isChain_singleton v
  | cons w windows ih =>
    obtain ⟨hle, hrest⟩ := List.pairwise_cons.mp horder
    rw [List.isChain_cons_cons]
    simp only [partsFrom, itemsIn_cons] at hlength
    by_cases hsame : hourOf w.now = hourOf v.now
    · refine ⟨Or.inl hsame.symm, ih hrest (opened ++ windowItems w.result) fun route hour ↦ ?_⟩
      have hown := hlength route hour
      rw [if_pos hsame, ← hsame] at hown
      rw [hown]
      split_ifs
      · rw [List.append_assoc]
      · rfl
    · simp only [if_neg hsame, received_cons, itemsOf_append, List.length_append] at hlength
      have hlt : hourOf v.now < hourOf w.now :=
        lt_of_le_of_ne (hourOf_mono (hle w List.mem_cons_self)) (Ne.symm hsame)
      -- the later parts and the later windows belong to later hours
      have hnone : windowItems w.result = [] := by
        refine eq_nil_of_itemsOf fun route ↦ ?_
        have hown := hlength route (hourOf v.now)
        rw [if_pos rfl, if_pos rfl, if_neg hsame, itemsIn_eq_nil_of_lt hrest hlt, itemsOf_append,
          List.length_append] at hown
        change _ = _ + (0 + 0) at hown
        omega
      refine ⟨Or.inr hnone, ih hrest [] fun route hour ↦ ?_⟩
      have hown := hlength route hour
      rw [hnone, List.append_nil] at hown
      rw [itemsOf_append, List.length_append]
      omega

theorem length_eq_counts (items : List Item) :
    items.length = (itemsData items).totalCount + (itemsData items).newBunching := by
  obtain ⟨htotal, hnew, -⟩ := itemsData_counts items
  rw [htotal, hnew]
  refine (List.length_eq_countP_add_countP _).trans (congrArg _ (List.countP_congr fun i _ ↦ ?_))
  cases i <;> simp

/-- What is aggregated for one route from some items. -/
def dataOf (own : List Item) : List RouteData := if own = [] then [] else [itemsData own]

theorem length_of_dataOf_eq {items' : List Item} (h : dataOf items = dataOf items') :
    items.length = items'.length := by
  have hcount (own : List Item) : own.length =
      ((dataOf own).map fun data ↦ data.totalCount + data.newBunching).sum := by
    rw [dataOf]
    split_ifs with hnil
    · rw [hnil]
      rfl
    · rw [List.map_singleton, List.sum_singleton, length_eq_counts]
  rw [hcount, hcount items', h]

theorem aggregated_eq_dataOf (horder : InTimeOrder windows) (route : String) (hour : Time) :
    aggregated windows route hour =
      dataOf (received (partsFrom none [] windows) route hour).flatten := by
  rw [aggregated_eq]
  rcases received_eq horder route hour with h | ⟨own, h⟩
  · rw [h]
    rfl
  · rw [h, List.flatten_singleton, dataOf]
    split_ifs with hown
    · rw [List.filter_cons_of_neg (by simp [hown])]
      rfl
    · rw [List.filter_cons_of_pos (by simp [hown])]
      rfl

/-- **Every window is counted in its own hour** exactly if every window that comes in another hour
than the one before it brings nothing. In any case the rows are the statistics of what has been
aggregated. -/
theorem countedInOwnHour_iff (windows : List Handed) (horder : InTimeOrder windows) :
    (CountedInOwnHour windows ↔ windows.IsChain QuietBoundary) ∧
      ∀ route hour, (HourlyAccumulator.rows {} windows).filter (·.key = (route, hour)) =
        (aggregated windows route hour).map (routeStats hour route) := by
  refine ⟨?_, filter_rows windows⟩
  have hcounted : CountedInOwnHour windows ↔ ∀ route hour,
      dataOf (received (partsFrom none [] windows) route hour).flatten =
        dataOf (itemsOf route (itemsIn hour windows)) := by
    refine forall₂_congr fun route hour ↦ ?_
    rw [aggregated_eq_dataOf horder]
    rfl
  rw [hcounted]
  cases windows with
  | nil => exact iff_of_true (fun route hour ↦ rfl) List.isChain_nil
  | cons v windows =>
    simp only [partsFrom, List.nil_append, itemsIn_cons]
    constructor
    · intro h
      exact isChain_of_length horder (windowItems v.result) fun route hour ↦
        length_of_dataOf_eq (h route hour)
    · intro h route hour
      rw [flatten_received h]

/-- A window that brings nothing. -/
def quietWindow (now : Time) : Handed :=
  ⟨{ bunchingActions := [], newDeviations := [], totalRecords := 1, matching := none }, now, 0⟩

/-- An arrival at the beginning of the second hour. -/
def arrivalWindow : Handed :=
  let arrival : DeviationResult :=
    { vehicleId := "A", tripId := "T", stopSequence := 1, kind := .arrival
      scheduledAt := minutes 60, actualAt := minutes 61, deviationSeconds := minutes 1
      routeId := some "R" }
  ⟨{ bunchingActions := [], newDeviations := [arrival], totalRecords := 1, matching := none },
    minutes 61, 0⟩

/-- A quiet window at the beginning of the hour lets the arrival be counted in it. -/
theorem countedInOwnHour_quietWindow :
    CountedInOwnHour [quietWindow (minutes 58), quietWindow (minutes 60), arrivalWindow] :=
  (countedInOwnHour_iff [quietWindow (minutes 58), quietWindow (minutes 60), arrivalWindow]
    (by unfold InTimeOrder; decide +kernel)).1.mpr <| by
      rw [List.isChain_cons_cons, List.isChain_cons_cons]
      exact ⟨Or.inr rfl, Or.inl (by decide +kernel), List.isChain_singleton _⟩

/-- Without it, the arrival is counted in the first hour. -/
theorem not_countedInOwnHour_arrivalWindow :
    ¬CountedInOwnHour [quietWindow (minutes 58), arrivalWindow] := by
  intro h
  have hrow := congrArg List.length (h "R" 0)
  exact absurd hrow (by decide +kernel)

end GtfsStream.Hourly
