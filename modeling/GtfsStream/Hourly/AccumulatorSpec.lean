import GtfsStream.Hourly.Accumulator

/-!
# What the rows of an hour are made of

The data of the accumulator are the items of its windows, grouped by route. So a flush makes one row
of each route that has an item, and the row is computed from the items of its route.
-/

namespace GtfsStream.Hourly

open Analytics (WindowResult)

/-- What the items of one route amount to. -/
def itemsData (items : List Item) : RouteData := items.foldl RouteData.add {}

/-- The data of the accumulator after some items. -/
abbrev groupItems (items : List Item) : List (String × RouteData) :=
  Grouping.group {} Item.route RouteData.add items

/-- The routes of some items, each once. -/
def routesOf (items : List Item) : List String := (groupItems items).map Prod.fst

/-- The items of a route. -/
def itemsOf (route : String) (items : List Item) : List Item := items.filter (·.route = route)

variable {items : List Item} {route : String} {hour : Time}

theorem mem_routesOf : route ∈ routesOf items ↔ itemsOf route items ≠ [] := by
  rw [routesOf, Grouping.mem_keys_group, itemsOf, ne_eq, List.filter_eq_nil_iff]
  simp

theorem nodup_routesOf : (routesOf items).Nodup := Grouping.nodup_group

theorem groupItems_append (items items' : List Item) :
    groupItems (items ++ items') = items'.foldl
      (fun data item ↦ Grouping.modify {} item.route (RouteData.add · item) data)
      (groupItems items) := by
  rw [groupItems, Grouping.group, List.foldl_append]
  rfl

theorem accumulate_routeData {accumulator : HourlyAccumulator}
    (h : accumulator.routeData = groupItems items) (result : WindowResult) :
    (accumulator.accumulate result).routeData = groupItems (items ++ windowItems result) := by
  rw [groupItems_append, ← h]
  rfl

/-! ## The data of a route -/

theorem itemsData_counts (items : List Item) :
    (itemsData items).totalCount = (items.countP fun i ↦ i matches .deviation _) ∧
      (itemsData items).newBunching = (items.countP fun i ↦ i matches .newBunching _) ∧
      (itemsData items).vehicleIds =
        (items.filterMap fun i ↦ match i with
          | .deviation dev => some dev.vehicleId
          | .newBunching _ => none).toFinset := by
  induction items using List.reverseRecOn with
  | nil => exact ⟨rfl, rfl, rfl⟩
  | append_singleton items i ih =>
    obtain ⟨htotal, hnew, hvehicles⟩ := ih
    have hstep : itemsData (items ++ [i]) = (itemsData items).add i := by
      rw [itemsData, List.foldl_append]
      rfl
    rw [hstep, List.countP_append, List.countP_append, List.filterMap_append,
      List.toFinset_append, ← htotal, ← hnew, ← hvehicles]
    cases i with
    | deviation dev =>
      refine ⟨rfl, rfl, ?_⟩
      rw [RouteData.add, Finset.union_comm]
      rfl
    | newBunching event => exact ⟨rfl, rfl, (Finset.union_empty _).symm⟩

theorem itemsData_pos (h : items ≠ []) :
    ¬((itemsData items).totalCount = 0 ∧ (itemsData items).newBunching = 0) := by
  rintro ⟨htotal, hnew⟩
  rw [(itemsData_counts items).1, List.countP_eq_zero] at htotal
  rw [(itemsData_counts items).2.1, List.countP_eq_zero] at hnew
  obtain ⟨i, hi⟩ := List.exists_mem_of_ne_nil items h
  cases i with
  | deviation dev => exact htotal _ hi rfl
  | newBunching event => exact hnew _ hi rfl

/-- **A flush makes one row of each route that has an item**, computed from its items. -/
theorem flushRoutes_groupItems (hour : Time) (items : List Item) :
    flushRoutes hour (groupItems items) =
      (routesOf items).map fun route ↦ routeStats hour route (itemsData (itemsOf route items)) := by
  have hdata : ∀ entry ∈ groupItems items,
      itemsOf entry.1 items ≠ [] ∧ entry.2 = itemsData (itemsOf entry.1 items) := by
    rintro ⟨route, data⟩ hmem
    obtain ⟨-, hdata⟩ := Grouping.mem_group.mp hmem
    exact ⟨mem_routesOf.mp (List.mem_map_of_mem hmem), hdata⟩
  rw [flushRoutes, routesOf, List.map_map, ← List.filterMap_eq_map]
  refine List.filterMap_congr fun entry hmem ↦ ?_
  obtain ⟨hne, heq⟩ := hdata entry hmem
  obtain ⟨route, data⟩ := entry
  dsimp only at *
  rw [heq, if_neg (itemsData_pos hne)]
  rfl

theorem nodup_flushRoutes (hour : Time) (items : List Item) :
    ((flushRoutes hour (groupItems items)).map HourlyStats.key).Nodup := by
  rw [flushRoutes_groupItems, List.map_map]
  refine nodup_routesOf.map fun a b hab ↦ ?_
  exact (Prod.mk.inj hab).1

end GtfsStream.Hourly
