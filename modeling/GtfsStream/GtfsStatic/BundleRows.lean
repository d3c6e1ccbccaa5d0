import GtfsStream.GtfsStatic.Snapshot

/-!
# The rows behind the lookups

What a loaded lookup says under a key is in a row of the bundle. Where the calendars are used the
trip of the row is one of an active service.
-/

namespace GtfsStream.Loader

open Dictionary

/-- Where the trips are filtered, the trip is one of an active service. -/
def Active (py : Python) (dir : Directory) (today : ℤ) (tables : Tables) (t : String) : Prop :=
  ∀ active, filterServices py dir today tables = .ok (some active) →
    ∃ row ∈ tables.trips.rows, str row.tripId = t ∧ row.serviceId.isIn active = true

/-- The row has these values in its cells. -/
structure StopTimeRow.Says (py : Python) (columns : List String) (row : StopTimeRow)
    (scheduled : ScheduledStopTime) : Prop where
  tripId : str row.tripId = scheduled.tripId
  stopSequence : row.stopSequence.toInt py = .ok scheduled.stopSequence
  arrivalTime : timeCell py row.arrivalTime = .ok scheduled.arrivalTime
  departureTime : timeCell py row.departureTime = .ok scheduled.departureTime
  stopId : row.stop columns = scheduled.stopId

structure StopRow.Says (py : Python) (columns : List String) (row : StopRow) (info : StopInfo) :
    Prop where
  stopId : str row.stopId = info.stopId
  stopLat : coordinate py columns "stop_lat" row.stopLat = .ok info.stopLat
  stopLon : coordinate py columns "stop_lon" row.stopLon = .ok info.stopLon

section

variable {py : Python} {dir : Directory} {today : ℤ} {built : Built} {t : String}

theorem says_of_stopTimeEntry {columns : List String} {row : StopTimeRow} {key : String × ℤ}
    {scheduled : ScheduledStopTime} (h : stopTimeEntry py columns row = .ok (key, scheduled)) :
    row.Says py columns scheduled ∧ key = (scheduled.tripId, scheduled.stopSequence) := by
  simp only [stopTimeEntry, bind_eq_ok] at h
  obtain ⟨n, hn, h⟩ := h
  by_cases hneg : n < 0
  · rw [if_pos hneg] at h
    cases h
  · rw [if_neg hneg] at h
    simp only [bind_eq_ok] at h
    obtain ⟨a, ha, d, hd, h⟩ := h
    obtain ⟨rfl, rfl⟩ := Prod.mk.inj (Except.ok.inj h)
    exact ⟨⟨rfl, hn, ha, hd, rfl⟩, rfl⟩

theorem says_of_stopEntry {columns : List String} {row : StopRow} {id : String} {info : StopInfo}
    (h : stopEntry py columns row = .ok (id, info)) :
    row.Says py columns info ∧ id = info.stopId := by
  simp only [stopEntry, bind_eq_ok] at h
  obtain ⟨lat, hlat, lon, hlon, h⟩ := h
  obtain ⟨rfl, rfl⟩ := Prod.mk.inj (Except.ok.inj h)
  exact ⟨⟨rfl, hlat, hlon⟩, rfl⟩

theorem exists_parts (h : rebuild py dir today = .ok built) : ∃ tables selection, Opens dir tables ∧
    selectRows py dir today tables = .ok selection ∧
    buildLookups py dir tables selection = .ok built := by
  simp only [rebuild, bind_eq_ok] at h
  obtain ⟨tables, htables, selection, hselection, h⟩ := h
  exact ⟨tables, selection, openTables_eq_ok_iff.mp htables, hselection, h⟩

theorem selection_subset {tables : Tables} {selection : Selection}
    (h : selectRows py dir today tables = .ok selection) :
    selection.trips.rows ⊆ tables.trips.rows ∧ selection.stopTimes.rows ⊆ tables.stopTimes.rows ∧
      selection.stopTimes.columns = tables.stopTimes.columns := by
  rcases selectRows_eq_ok_iff.mp h with ⟨active, -, rfl⟩ | ⟨-, -, rfl⟩
  · exact ⟨List.filter_sublist.subset, List.filter_sublist.subset, rfl⟩
  · exact ⟨List.Subset.refl _, List.Subset.refl _, rfl⟩

variable {tables : Tables} {selection : Selection}
  (hselection : selectRows py dir today tables = .ok selection)
  (h : buildLookups py dir tables selection = .ok built)

include hselection h in
/-- **A scheduled stop time is a row of `stop_times.txt`.** -/
theorem exists_stopTimeRow {key : String × ℤ} {scheduled : ScheduledStopTime}
    (hlookup : built.stopTimesLookup.lookup key = some scheduled) :
    key = (scheduled.tripId, scheduled.stopSequence) ∧ Active py dir today tables key.1 ∧
      ∃ row ∈ tables.stopTimes.rows, row.Says py tables.stopTimes.columns scheduled := by
  obtain ⟨-, htimes, -⟩ := buildLookups_eq_ok h
  have hkey : key ∈ built.stopTimesLookup := Finmap.mem_of_lookup_eq_some hlookup
  obtain ⟨before, row, after, hrows, hentry, -⟩ := (lookup_fill htimes).mp hlookup
  obtain ⟨-, hsubset, hcolumns⟩ := selection_subset hselection
  obtain ⟨hcells, hkeyed⟩ := says_of_stopTimeEntry hentry
  refine ⟨hkeyed, fun active hfilter ↦ ?_, row, hsubset ?_, hcolumns ▸ hcells⟩
  · have ht : key.1 ∈ (built.snapshot today 0).trips := Or.inl ⟨key.2, hkey⟩
    exact active_of_mem_trips hfilter hselection h ht
  · rw [hrows]
    exact List.mem_append_right _ List.mem_cons_self

include h in
/-- **The position of a stop is in a row of `stops.txt`.** -/
theorem exists_stopRow {id : String} {info : StopInfo}
    (hlookup : built.stopsLookup.lookup id = some info) :
    id = info.stopId ∧ ∃ row ∈ tables.stops.rows, row.Says py tables.stops.columns info := by
  obtain ⟨-, -, hstops, -⟩ := buildLookups_eq_ok h
  obtain ⟨before, row, after, hrows, hentry, -⟩ := (lookup_fill hstops).mp hlookup
  obtain ⟨hcells, hid⟩ := says_of_stopEntry hentry
  refine ⟨hid, row, ?_, hcells⟩
  rw [hrows]
  exact List.mem_append_right _ List.mem_cons_self

include hselection h in
/-- **The route of a trip is in a row of `trips.txt`.** -/
theorem exists_tripRow {route : String}
    (hlookup : built.tripRouteLookup.lookup t = some route) :
    ∃ row ∈ tables.trips.rows, row.tripId = some t ∧ row.routeId = some route := by
  obtain ⟨-, -, -, -, htripRoutes, -⟩ := buildLookups_eq_ok h
  rw [buildTripRouteLookup] at htripRoutes
  split_ifs at htripRoutes
  obtain ⟨before, pair, after, hrows, hentry, -⟩ := (lookup_fill htripRoutes).mp hlookup
  obtain rfl := Except.ok.inj hentry
  have hpair : (t, route) ∈ selection.trips.rows.filterMap fun row ↦
      row.tripId.bind fun t ↦ row.routeId.map fun r ↦ (t, r) := by
    rw [hrows]
    exact List.mem_append_right _ List.mem_cons_self
  obtain ⟨row, hrow, heq⟩ := List.mem_filterMap.mp hpair
  obtain ⟨t', htrip, heq⟩ := Option.bind_eq_some_iff.mp heq
  obtain ⟨r, hroute, heq⟩ := Option.map_eq_some_iff.mp heq
  obtain ⟨rfl, rfl⟩ := Prod.mk.inj heq
  exact ⟨row, (selection_subset hselection).1 hrow, htrip, hroute⟩

include hselection h in
/-- **The direction of a trip is in a row of `trips.txt`.** -/
theorem exists_directionRow {direction : ℤ}
    (hlookup : built.directionLookup.lookup t = some direction) :
    ∃ row ∈ tables.trips.rows, row.tripId = some t ∧ row.directionId.isZeroOrOne = true ∧
      row.directionId.toInt py = .ok direction := by
  obtain ⟨hdirections, -⟩ := buildLookups_eq_ok h
  obtain ⟨before, pair, after, hrows, hentry, -⟩ := (lookup_fill hdirections).mp hlookup
  have hpair : pair ∈ directionRows selection.trips := by
    rw [hrows]
    exact List.mem_append_right _ List.mem_cons_self
  obtain ⟨row, hrow, hid, hcell⟩ := exists_of_mem_directionRows hpair
  obtain ⟨rfl, hzeroOrOne, hdirection⟩ := directionEntry_eq_ok hentry
  rw [← hcell] at hzeroOrOne hdirection
  exact ⟨row, (selection_subset hselection).1 hrow, hid, hzeroOrOne, hdirection⟩

include h in
/-- **The name of a route is in a row of `routes.txt`.** -/
theorem exists_routeRow {route name : String}
    (hlookup : built.routesLookup.lookup route = some (some name)) :
    ∃ row ∈ tables.routes.rows, str row.routeId = route ∧ row.routeLongName ≠ .missing ∧
      row.routeLongName.str py = name := by
  simp only [buildLookups, bind_eq_ok] at h
  obtain ⟨directions, -, times, -, stops, -, terminals, -, routes, hroutes, tripRoutes, -, version,
    -, h⟩ := h
  obtain rfl := Except.ok.inj h
  obtain ⟨before, row, after, hrows, hentry, -⟩ := (lookup_fill hroutes).mp hlookup
  obtain ⟨hid, hname⟩ := Prod.mk.inj (Except.ok.inj hentry)
  split_ifs at hname with hmissing
  refine ⟨row, ?_, hid, hmissing, Option.some.inj hname⟩
  rw [hrows]
  exact List.mem_append_right _ List.mem_cons_self

end

end GtfsStream.Loader
