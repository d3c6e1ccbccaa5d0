import GtfsStream.Hourly.Retry

/-!
# The row of an hour in which the engine is restarted

At its end a process writes the rows of the part of the hour that it has seen, and the next process
begins with an empty accumulator. The next row of the route and the hour replaces the first one, so
what is stored in the end is computed from the last part of the hour alone. So the row of an hour is
that of everything that was brought for the route, and no row gives way to one of the rest, exactly
if the route has data in one part of the hour at most. The two counts alone may still be right in
other cases: they are if the earlier parts had no new bunching event and no other vehicle.
-/

namespace GtfsStream.Hourly

open Analytics (BunchingEvent DeviationResult WindowResult)

/-- A window that is handed over, with the readings of the two clocks. -/
structure Handed where
  result : WindowResult
  now : Time
  monotonic : Time

/-- The windows of one process, and when it is stopped. -/
structure Life where
  windows : List Handed
  stoppedAt : Time

/-- The window, where the statement succeeds if one is sent. -/
def Handed.call (w : Handed) : Call where
  result := w.result
  now := w.now
  monotonic := w.monotonic
  outcome := .committed

/-- The table after a process that is stopped cleanly, with the database available throughout. -/
def Life.run (table : Table) (life : Life) : Table :=
  let s := (life.windows.map Handed.call).foldl Sink.onWindowResult { table := table }
  (s.shutdown life.stoppedAt .committed .committed).table

def runLives (lives : List Life) : Table := lives.foldl Life.run fun _ ↦ none

/-! ## The parts of the hours -/

/-- The parts of hours that a process sees: the windows that it takes in while an hour is current.
The window that ends an hour still counts for it. -/
def partsFrom : Option Time → List Item → List Handed → List (Time × List Item)
  | none, _, [] => []
  | some hour, opened, [] => [(hour, opened)]
  | none, opened, w :: ws => partsFrom (some (hourOf w.now)) (opened ++ windowItems w.result) ws
  | some hour, opened, w :: ws =>
    if hourOf w.now = hour then partsFrom (some hour) (opened ++ windowItems w.result) ws
    else (hour, opened ++ windowItems w.result) :: partsFrom (some (hourOf w.now)) [] ws

def partsOf (lives : List Life) : List (Time × List Item) :=
  lives.flatMap fun life ↦ partsFrom none [] life.windows

/-- What each part of an hour brings for a route, where it brings anything. -/
def shares (lives : List Life) (route : String) (hour : Time) : List (List Item) :=
  (((partsOf lives).filter (·.1 = hour)).map fun part ↦ itemsOf route part.2).filter (!·.isEmpty)

/-- The number of "new" actions. -/
def newActions (items : List Item) : ℕ := items.countP fun i ↦ i matches .newBunching _

/-- The vehicles with a deviation. -/
def vehicles (items : List Item) : Finset String :=
  (items.filterMap fun i ↦ match i with
    | .deviation dev => some dev.vehicleId
    | .newBunching _ => none).toFinset

/-- The stored row is that of everything that the parts of the hour brought for the route. It is not
computed from a part alone that has replaced the others. -/
structure Reflects (table : Table) (lives : List Life) (route : String) (hour : Time) : Prop where
  row : table (route, hour) = if shares lives route hour = [] then none else
    some (routeStats hour route (itemsData (shares lives route hour).flatten))
  kept : ∀ part ∈ shares lives route hour,
    table (route, hour) = some (routeStats hour route (itemsData part)) →
      shares lives route hour = [part]

/-- The two counts of the stored row are those of all parts of the hour. -/
def Counts (table : Table) (lives : List Life) (route : String) (hour : Time) : Prop :=
  let all := (shares lives route hour).flatten
  match table (route, hour) with
  | none => all = []
  | some row => row.bunchingEvents = newActions all ∧ row.vehicleCount = (vehicles all).card

variable {table : Table} {lives : List Life} {route : String} {hour : Time} {s : Sink}

/-! ## What a process writes -/

theorem flushPendingPgRows_committed {force : Bool} (now : Time)
    (h : force = true ∨ s.pendingPgRows = []) :
    let s' := s.flushPendingPgRows force now .committed
    s'.accumulator = s.accumulator ∧ s'.pendingPgRows = [] ∧
      s'.table = s.table.upsert s.pendingPgRows := by
  unfold Sink.flushPendingPgRows upsertHourlyStats
  by_cases hempty : s.pendingPgRows.isEmpty
  · rw [if_pos hempty, List.isEmpty_iff.mp hempty]
    exact ⟨rfl, List.isEmpty_iff.mp hempty, rfl⟩
  · have hforce : force = true := h.resolve_right fun h ↦ hempty (List.isEmpty_iff.mpr h)
    rw [if_neg hempty, if_neg fun hearly ↦ absurd hearly.1 (by rw [hforce]; decide), if_neg hempty]
    dsimp only
    rw [Option.getD_some, if_pos rfl]
    exact ⟨rfl, rfl, rfl⟩

theorem onWindowResult_committed (hpending : s.pendingPgRows = []) (w : Handed) :
    let flushed := (s.accumulator.accumulate w.result).maybeFlush w.now
    let s' := s.onWindowResult w.call
    s'.accumulator = flushed.2 ∧ s'.pendingPgRows = [] ∧
      s'.table = s.table.upsert (flushed.1.getD []) := by
  have habsorb : (s.absorb w.call).pendingPgRows =
      ((s.accumulator.accumulate w.result).maybeFlush w.now).1.getD [] := by
    rw [Sink.absorb, hpending, List.nil_append]
    rfl
  have hforce : s.endsHour w.call = true ∨ (s.absorb w.call).pendingPgRows = [] := by
    rw [habsorb]
    by_cases hempty : ((s.accumulator.accumulate w.result).maybeFlush w.now).1.getD [] = []
    · exact Or.inr hempty
    · refine Or.inl ?_
      rw [Sink.endsHour, Bool.not_eq_true', List.isEmpty_eq_false_iff]
      exact hempty
  obtain ⟨haccumulator, hbuffer, htable⟩ := flushPendingPgRows_committed w.monotonic hforce
  rw [habsorb] at htable
  exact ⟨haccumulator, hbuffer, htable⟩

/-- The rows of some parts. -/
def partRows (parts : List (Time × List Item)) : List HourlyStats :=
  parts.flatMap fun part ↦ flushRoutes part.1 (groupItems part.2)

theorem partRows_cons (part : Time × List Item) (parts : List (Time × List Item)) :
    partRows (part :: parts) = flushRoutes part.1 (groupItems part.2) ++ partRows parts :=
  List.flatMap_cons

theorem upsert_append (table : Table) (rows rows' : List HourlyStats) :
    table.upsert (rows ++ rows') = (table.upsert rows).upsert rows' :=
  List.foldl_append

theorem shutdown_committed (hpending : s.pendingPgRows = []) (now : Time) :
    (s.shutdown now .committed .committed).table =
      s.table.upsert (s.accumulator.flushRemaining.1.getD []) := by
  obtain ⟨-, hbuffer, htable⟩ := flushPendingPgRows_committed (s := { s with
    accumulator := s.accumulator.flushRemaining.2
    pendingPgRows := s.pendingPgRows ++ s.accumulator.flushRemaining.1.getD [] }) now
    (Or.inl rfl : true = true ∨ _ = [])
  obtain ⟨-, -, htable'⟩ := flushPendingPgRows_committed now (Or.inl rfl : true = true ∨ _ = [])
  rw [Sink.shutdown, htable', hbuffer, htable, hpending, List.nil_append]
  rfl

theorem run_windows (windows : List Handed) (opened : List Item) (now : Time)
    (hpending : s.pendingPgRows = []) (hdata : s.accumulator.routeData = groupItems opened) :
    (((windows.map Handed.call).foldl Sink.onWindowResult s).shutdown now .committed
        .committed).table =
      s.table.upsert (partRows (partsFrom s.accumulator.currentHour opened windows)) := by
  induction windows generalizing s opened with
  | nil =>
    rw [List.map_nil, List.foldl_nil, shutdown_committed hpending,
      HourlyAccumulator.flushRemaining]
    cases hhour : s.accumulator.currentHour with
    | none => rfl
    | some hour =>
      rw [hdata, partsFrom, partRows, List.flatMap_singleton]
      dsimp only
      split_ifs with hempty
      · rw [List.isEmpty_iff.mp hempty]
        rfl
      · rfl
  | cons w windows ih =>
    obtain ⟨haccumulator, hbuffer, htable⟩ := onWindowResult_committed hpending w
    have haccumulate := accumulate_routeData hdata w.result
    have hcurrent : (s.accumulator.accumulate w.result).currentHour = s.accumulator.currentHour :=
      rfl
    rw [List.map_cons, List.foldl_cons]
    rw [HourlyAccumulator.maybeFlush, hcurrent] at haccumulator htable
    cases hhour : s.accumulator.currentHour with
    | none =>
      rw [hhour] at haccumulator htable
      rw [ih (opened ++ windowItems w.result) hbuffer (by rw [haccumulator]; exact haccumulate),
        htable, haccumulator]
      rfl
    | some hour =>
      rw [hhour] at haccumulator htable
      rw [partsFrom]
      dsimp only at haccumulator htable
      -- the same hour, or one that closes the hour before and starts empty
      split_ifs at haccumulator htable ⊢ with hsame
      · rw [ih (opened ++ windowItems w.result) hbuffer (by rw [haccumulator]; exact haccumulate),
          htable, haccumulator, hcurrent, hhour]
        rfl
      · rw [ih [] hbuffer (by rw [haccumulator]; rfl), htable, haccumulator, partRows_cons,
          upsert_append, Option.getD_some, haccumulate]

theorem runLives_eq (lives : List Life) :
    runLives lives = Table.upsert (fun _ ↦ none) (partRows (partsOf lives)) := by
  have hlives (table : Table) : lives.foldl Life.run table =
      table.upsert (partRows (partsOf lives)) := by
    induction lives generalizing table with
    | nil => rfl
    | cons life lives ih =>
      have hlife : life.run table = table.upsert (partRows (partsFrom none [] life.windows)) :=
        run_windows (s := { table := table }) life.windows [] life.stoppedAt rfl rfl
      have hparts : partRows (partsOf (life :: lives)) =
          partRows (partsFrom none [] life.windows) ++ partRows (partsOf lives) :=
        List.flatMap_append
      rw [List.foldl_cons, ih, hlife, ← upsert_append, hparts]
  exact hlives fun _ ↦ none

/-! ## The stored row -/

theorem filter_flushRoutes (part : Time × List Item) (route : String) (hour : Time) :
    (flushRoutes part.1 (groupItems part.2)).filter (·.key = (route, hour)) =
      if part.1 = hour ∧ itemsOf route part.2 ≠ [] then
        [routeStats hour route (itemsData (itemsOf route part.2))]
      else [] := by
  rw [flushRoutes_groupItems, List.filter_map]
  by_cases hhour : part.1 = hour
  · have hroutes : (routesOf part.2).filter
        ((fun row : HourlyStats ↦ decide (row.key = (route, hour)))
        ∘ fun r ↦ routeStats part.1 r (itemsData (itemsOf r part.2))) =
        (routesOf part.2).filter (· = route) := by
      refine List.filter_congr fun r _ ↦ ?_
      simp [HourlyStats.key, routeStats, hhour]
    rw [hroutes, List.filter_eq]
    by_cases hmem : itemsOf route part.2 ≠ []
    · rw [List.count_eq_one_of_mem nodup_routesOf (mem_routesOf.mpr hmem), if_pos ⟨hhour, hmem⟩,
        List.replicate_one, List.map_singleton, hhour]
    · rw [List.count_eq_zero_of_not_mem fun h ↦ hmem (mem_routesOf.mp h),
        if_neg fun h ↦ hmem h.2]
      rfl
  · rw [if_neg fun h ↦ hhour h.1, List.map_eq_nil_iff, List.filter_eq_nil_iff]
    intro r _ hkey
    exact hhour (congrArg Prod.snd (of_decide_eq_true hkey))

/-- The stored row is computed from the last part that brought anything. -/
theorem runLives_apply (lives : List Life) (route : String) (hour : Time) :
    runLives lives (route, hour) = (shares lives route hour).getLast?.map fun own ↦
      routeStats hour route (itemsData own) := by
  have hfilter : (partRows (partsOf lives)).filter (·.key = (route, hour)) =
      (shares lives route hour).map fun own ↦ routeStats hour route (itemsData own) := by
    rw [shares]
    induction partsOf lives with
    | nil => rfl
    | cons part parts ih =>
      rw [partRows_cons, List.filter_append, ih, filter_flushRoutes]
      by_cases hhour : part.1 = hour
      · rw [List.filter_cons_of_pos (by simpa using hhour), List.map_cons]
        by_cases hmem : itemsOf route part.2 = []
        · rw [if_neg fun h ↦ h.2 hmem, List.filter_cons_of_neg (by simp [hmem]), List.nil_append]
        · rw [if_pos ⟨hhour, hmem⟩, List.filter_cons_of_pos (by simpa using hmem), List.map_cons]
          rfl
      · rw [List.filter_cons_of_neg (by simpa using hhour), if_neg fun h ↦ hhour h.1,
          List.nil_append]
  rw [runLives_eq, upsert_apply, hfilter, Option.or_none, List.getLast?_map]

theorem newActions_flatten {parts : List (List Item)} :
    newActions parts.flatten = 0 ↔ ∀ part ∈ parts, newActions part = 0 := by
  simp only [newActions, List.countP_eq_zero, List.mem_flatten]
  exact ⟨fun h part hpart i hi ↦ h i ⟨part, hpart, hi⟩,
    fun h i ⟨part, hpart, hi⟩ ↦ h part hpart i hi⟩

theorem vehicles_flatten_subset {parts : List (List Item)} {last : List Item} :
    vehicles parts.flatten ⊆ vehicles last ↔ ∀ part ∈ parts, vehicles part ⊆ vehicles last := by
  simp only [Finset.subset_iff, vehicles, List.mem_toFinset, List.mem_filterMap, List.mem_flatten]
  exact ⟨fun h part hpart v ⟨i, hi, hv⟩ ↦ h ⟨i, ⟨part, hpart, hi⟩, hv⟩,
    fun h v ⟨i, ⟨part, hpart, hi⟩, hv⟩ ↦ h part hpart ⟨i, hi, hv⟩⟩

/-- The counts are right exactly if for every route and hour the parts before the last one had no
"new" action, and no vehicle that the last one had not. -/
theorem counts_iff (lives : List Life) :
    (∀ route hour, Counts (runLives lives) lives route hour) ↔
      ∀ route hour init last, shares lives route hour = init ++ [last] →
        ∀ part ∈ init, newActions part = 0 ∧ vehicles part ⊆ vehicles last := by
  refine forall₂_congr fun route hour ↦ ?_
  rw [Counts, runLives_apply]
  generalize shares lives route hour = parts
  rcases List.eq_nil_or_concat' parts with rfl | ⟨init, last, rfl⟩
  · refine iff_of_true rfl fun init last h ↦ ?_
    exact absurd h.symm (List.append_ne_nil_of_right_ne_nil _ (List.cons_ne_nil _ _))
  · obtain ⟨-, hnew, hvehicles⟩ := itemsData_counts last
    have hall : (init ++ [last]).flatten = init.flatten ++ last := by
      rw [List.flatten_append, List.flatten_singleton]
    have hcount : newActions (init.flatten ++ last) = newActions init.flatten + newActions last :=
      List.countP_append
    have hunion : vehicles (init.flatten ++ last) = vehicles init.flatten ∪ vehicles last := by
      rw [vehicles, List.filterMap_append, List.toFinset_append]
      rfl
    -- the last part has as many vehicles as all parts only if it has all of them
    have hcard : (vehicles last).card = (vehicles init.flatten ∪ vehicles last).card ↔
        vehicles init.flatten ⊆ vehicles last := by
      constructor
      · intro h
        rw [← Finset.union_eq_right]
        exact (Finset.eq_of_subset_of_card_le Finset.subset_union_right h.ge).symm
      · intro h
        rw [Finset.union_eq_right.mpr h]
    rw [List.getLast?_concat, Option.map_some, hall]
    dsimp only
    have hrow : (routeStats hour route (itemsData last)).bunchingEvents = newActions last ∧
        (routeStats hour route (itemsData last)).vehicleCount = (vehicles last).card :=
      ⟨hnew, congrArg Finset.card hvehicles⟩
    rw [hrow.1, hrow.2, hcount, hunion, hcard, vehicles_flatten_subset]
    constructor
    · rintro ⟨hnone, hsub⟩ init' last' heq part hpart
      obtain ⟨rfl, hlast⟩ := List.append_inj' heq rfl
      rw [← (List.cons.inj hlast).1]
      exact ⟨newActions_flatten.mp (by omega) part hpart, hsub part hpart⟩
    · intro h
      have hparts := h init last rfl
      have hnone := newActions_flatten.mpr fun part hpart ↦ (hparts part hpart).1
      exact ⟨by omega, fun part hpart ↦ (hparts part hpart).2⟩

/-- **The stored rows are those of all parts of their hours, and no part is replaced by another,**
exactly if every route has data in one part of each hour at most. -/
theorem reflects_iff (lives : List Life) :
    (∀ route hour, Reflects (runLives lives) lives route hour) ↔
      ∀ route hour, (shares lives route hour).length ≤ 1 := by
  refine forall₂_congr fun route hour ↦ ?_
  have hrow := runLives_apply lives route hour
  constructor
  · intro h
    rcases List.eq_nil_or_concat' (shares lives route hour) with hnil | ⟨init, last, hshares⟩
    · rw [hnil]
      exact Nat.zero_le 1
    · -- the row is that of the last part, so there is no other one
      have hlast : last ∈ shares lives route hour := by
        rw [hshares]
        exact List.mem_append_right _ (List.mem_singleton_self last)
      rw [hshares, List.getLast?_concat, Option.map_some] at hrow
      rw [h.kept last hlast hrow, List.length_singleton]
  · intro hlength
    rcases Nat.le_one_iff_eq_zero_or_eq_one.mp hlength with hzero | hone
    · have hnil := List.length_eq_zero_iff.mp hzero
      rw [hnil, List.getLast?_nil, Option.map_none] at hrow
      refine ⟨hrow.trans (if_pos hnil).symm, fun part hmem ↦ ?_⟩
      rw [hnil] at hmem
      exact absurd hmem List.not_mem_nil
    · obtain ⟨part, hpart⟩ := List.length_eq_one_iff.mp hone
      have hne : shares lives route hour ≠ [] := by
        rw [hpart]
        exact List.cons_ne_nil _ _
      rw [hpart, List.getLast?_singleton, Option.map_some] at hrow
      constructor
      · rw [if_neg hne, hpart, List.flatten_singleton, hrow]
      · intro part' hmem _
        rw [hpart, List.mem_singleton] at hmem
        rw [hpart, hmem]

/-- Two processes in the first hour: a bunching event is seen by the first one, and an arrival of
the route by the second. -/
def restartedHour : List Life :=
  let event : BunchingEvent :=
    { routeId := "R", directionId := 0, vehicleA := "A", vehicleB := "B", startTime := 0
      endTime := seconds 15, observationCount := 2, minDistanceMeters := 50 }
  let arrival : DeviationResult :=
    { vehicleId := "A", tripId := "T", stopSequence := 1, kind := .arrival, scheduledAt := 0
      actualAt := minutes 40, deviationSeconds := 0, routeId := some "R" }
  [⟨[⟨{ bunchingActions := [(.new, event)], newDeviations := [], totalRecords := 2
        matching := none }, minutes 10, 0⟩], 0⟩,
    ⟨[⟨{ bunchingActions := [], newDeviations := [arrival], totalRecords := 1
         matching := none }, minutes 40, 0⟩], 0⟩]

/-- The bunching event is gone from the row. -/
theorem not_reflects_restartedHour :
    ¬∀ route hour, Reflects (runLives restartedHour) restartedHour route hour := by
  intro h
  have hrow := (h "R" 0).row
  rw [runLives_apply] at hrow
  exact absurd hrow (by decide +kernel)

end GtfsStream.Hourly
