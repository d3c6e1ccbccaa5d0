import GtfsStream.Analytics.ClosePairs
import GtfsStream.Analytics.IncidentUpdates
import GtfsStream.Analytics.WindowSpec

/-!
# Where the results of a window come from

Every deviation that a window carries is the arrival that a row of its frame shows. Every state of a
bunching event that it carries was put together from rows of close pairs, at its start, at its end
and where its smallest distance was measured; some of these rows may be those of earlier windows.

## What is kept along the way

A deviation is made in one window, so it is enough to invert the window. A bunching event grows over
several windows: an update takes its start from the tracked event, its end from the new one, and the
smaller of the two distances. Each of the three leads back to a close pair of some window, and the
tracker keeps such events only. So the invariant is about the tracked events, with all the messages
that were received so far in place of the rows of one frame.
-/

namespace GtfsStream.Analytics

open BunchingEventTracker
open Rows (getNumber_intCast)

/-! ## Deviations -/

/-- The ping stands at the stop, and the deviation is that of its time from the schedule. -/
structure ArrivalOf (zone : Zone) (static : GtfsStaticData) (p : Ping) (r : DeviationResult) :
    Prop where
  vehicleId : p.vehicleId = r.vehicleId
  tripId : p.tripId = some r.tripId
  stopSequence : p.currentStopSequence = some (r.stopSequence : ℚ)
  stopId : p.stopId.isSome
  stopped : p.currentStatus = some "STOPPED_AT"
  sent : p.timestampEastern = some r.actualAt
  kind : r.kind = .arrival
  scheduledAt : ∃ scheduled,
    (static.stopTimesLookup (r.tripId, r.stopSequence)).bind ScheduledStopTime.arrivalTime =
      some scheduled ∧ resolveScheduledDatetime zone r.actualAt scheduled = some r.scheduledAt
  deviation : r.deviationSeconds = r.actualAt - r.scheduledAt
  gate : |r.deviationSeconds| ≤ seconds maxDeviationSeconds

/-- What a deviation tells of its trip and its stop is in the lookups. -/
structure Enriched (statics : Set GtfsStaticData) (tripId : String) (stopSequence : ℤ)
    (routeId routeLongName : Option String) (location : Option (ℚ × ℚ)) : Prop where
  routeId : ∀ route, routeId = some route → ∃ static ∈ statics,
    static.tripRouteLookup tripId = some route
  routeLongName : ∀ name, routeLongName = some name → ∃ static ∈ statics, ∃ route,
    static.tripRouteLookup tripId = some route ∧ static.routesLookup route = some name
  location : ∀ lon lat, location = some (lon, lat) → ∃ static ∈ statics, ∃ scheduled stop,
    static.stopTimesLookup (tripId, stopSequence) = some scheduled ∧
      scheduled.stopId = some stop ∧ static.stopsLookup stop = some ⟨some lat, some lon⟩

/-- The deviation is the arrival that one of these pings shows, with what the lookups say of it. -/
structure Arrived (zone : Zone) (statics : Set GtfsStaticData) (received : List Ping)
    (r : DeviationResult) : Prop where
  arrival : ∃ static ∈ statics, ∃ p ∈ received, ArrivalOf zone static p r
  enriched : Enriched statics r.tripId r.stopSequence r.routeId r.routeLongName r.location

variable {frames : Frames} {zone : Zone} {static : GtfsStaticData} {m : Memory} {pings : List Ping}
  {statics : Set GtfsStaticData} {received more : List Ping} {r : DeviationResult}

theorem visitKey_eq_some {p : Ping} {key : VisitKey} (h : p.visitKey = some key) :
    p.vehicleId = key.1 ∧ p.tripId = some key.2.1 ∧ p.currentStopSequence = some key.2.2 := by
  rw [Ping.visitKey] at h
  split at h
  · next trip seq htrip hseq =>
    obtain rfl := Option.some.inj h
    exact ⟨rfl, htrip, hseq⟩
  · cases h

theorem arrivalOf_of_gatedArrival (hr : r ∈ gatedArrivals zone static pings) :
    (∃ p ∈ pings, ArrivalOf zone static p r) ∧ r.location = none := by
  have hsome : (windowArrivals zone static pings).isSome := by
    cases hnone : windowArrivals zone static pings with
    | none =>
      rw [gatedArrivals, hnone] at hr
      exact absurd hr List.not_mem_nil
    | some results => rfl
  obtain ⟨key, scheduled, t, hscheduled, ht, rfl, hgate⟩ := (mem_gatedArrivals hsome).mp hr
  obtain ⟨p, hp, hpt⟩ := (earliest_eq_some.mp ht).1
  obtain ⟨hrow, hvisit⟩ := List.mem_filter.mp hp
  obtain ⟨hstop, hstatus, hkey⟩ := of_decide_eq_true hvisit
  obtain ⟨hvehicle, htrip, hsequence⟩ := visitKey_eq_some hkey
  have hwhole := truncate_of_scheduledArrival (Option.isSome_of_eq_some hscheduled)
  have hanchored := anchored_of_windowArrivals hsome hscheduled ht
  rw [scheduledArrival, scheduledSeconds, ← hwhole, getNumber_intCast] at hscheduled
  refine ⟨⟨p, hrow, ?_⟩, rfl⟩
  exact
    { vehicleId := hvehicle
      tripId := htrip
      stopSequence := hsequence.trans (congrArg some hwhole.symm)
      stopId := hstop
      stopped := hstatus
      sent := hpt
      kind := rfl
      scheduledAt := ⟨scheduled, hscheduled, resolveScheduledDatetime_eq_some.mpr ⟨hanchored, rfl⟩⟩
      deviation := rfl
      gate := of_decide_eq_true hgate }

theorem filterAll_subset (seen : DeviationResultTracker) (results : List DeviationResult) :
    ∀ r ∈ (seen.filterAll results).1, r ∈ results := by
  induction results generalizing seen with
  | nil => exact fun r hr ↦ hr
  | cons result results ih =>
    intro r hr
    rw [DeviationResultTracker.filterAll] at hr
    split_ifs at hr with hseen
    · exact List.mem_cons_of_mem _ (ih seen r hr)
    · rcases List.mem_cons.mp hr with rfl | hr
      · exact List.mem_cons_self
      · exact List.mem_cons_of_mem _ (ih _ r hr)

theorem Enriched.or {tripId : String} {sequence : ℤ} {route route' name name' : Option String}
    {location location' : Option (ℚ × ℚ)}
    (h : Enriched statics tripId sequence route name location)
    (h' : Enriched statics tripId sequence route' name' location') :
    Enriched statics tripId sequence (route.or route') (name.or name') (location.or location') := by
  constructor
  · intro r hr
    rcases Option.or_eq_some_iff.mp hr with hr | ⟨-, hr⟩
    · exact h.routeId r hr
    · exact h'.routeId r hr
  · intro n hn
    rcases Option.or_eq_some_iff.mp hn with hn | ⟨-, hn⟩
    · exact h.routeLongName n hn
    · exact h'.routeLongName n hn
  · intro lon lat hpoint
    rcases Option.or_eq_some_iff.mp hpoint with hpoint | ⟨-, hpoint⟩
    · exact h.location lon lat hpoint
    · exact h'.location lon lat hpoint

theorem enriched_enrich (hstatic : static ∈ statics) (hlocation : r.location = none) :
    Enriched statics r.tripId r.stopSequence
      (enrichWithRouteName static (enrichWithLocation static r)).routeId
      (enrichWithRouteName static (enrichWithLocation static r)).routeLongName
      (enrichWithRouteName static (enrichWithLocation static r)).location := by
  have htrip : (enrichWithLocation static r).tripId = r.tripId := by
    rw [enrichWithLocation]
    split <;> rfl
  constructor
  · intro route hroute
    refine ⟨static, hstatic, ?_⟩
    rw [← htrip]
    exact hroute
  · intro name hname
    rw [enrichWithRouteName] at hname
    dsimp only at hname
    rw [htrip] at hname
    split at hname
    · next route hroute =>
      split_ifs at hname with hempty
      exact ⟨static, hstatic, route, hroute, hname⟩
    · cases hname
  · intro lon lat hpoint
    change (enrichWithLocation static r).location = _ at hpoint
    rw [enrichWithLocation] at hpoint
    split at hpoint
    · next lat' lon' hfound =>
      obtain ⟨rfl, rfl⟩ := Prod.mk.inj (Option.some.inj hpoint)
      obtain ⟨stop, hstop, hinfo⟩ := Option.bind_eq_some_iff.mp hfound
      obtain ⟨scheduled, hscheduled, hstopId⟩ := Option.bind_eq_some_iff.mp hstop
      exact ⟨static, hstatic, scheduled, stop, hscheduled, hstopId, hinfo⟩
    · rw [hlocation] at hpoint
      cases hpoint

theorem ArrivalOf.enrich {p : Ping} (h : ArrivalOf zone static p r) :
    ArrivalOf zone static p (enrichWithRouteName static (enrichWithLocation static r)) := by
  obtain ⟨hvehicle, htrip, hsequence, hstop, hstatus, hsent, hkind, hscheduled, hdeviation,
    hgate⟩ := h
  rw [enrichWithRouteName, enrichWithLocation]
  split <;> exact ⟨hvehicle, htrip, hsequence, hstop, hstatus, hsent, hkind, hscheduled,
    hdeviation, hgate⟩

theorem arrived_of_newDeviation (hstatic : static ∈ statics) (hpings : ∀ p ∈ pings, p ∈ received)
    (hr : r ∈ (processWindow frames zone static m pings).1.newDeviations) :
    Arrived zone statics received r := by
  rw [processWindow_newDeviations, List.map_map, List.mem_map] at hr
  obtain ⟨r, hr, rfl⟩ := hr
  obtain ⟨⟨p, hp, harrival⟩, hlocation⟩ :=
    arrivalOf_of_gatedArrival (filterAll_subset _ _ r hr)
  have hkey : (enrichWithRouteName static (enrichWithLocation static r)).key = r.key := enrich_key r
  rw [DeviationResult.key, DeviationResult.key, Prod.mk.injEq, Prod.mk.injEq, Prod.mk.injEq] at hkey
  refine ⟨⟨static, hstatic, p, hpings p hp, harrival.enrich⟩, ?_⟩
  rw [Function.comp_apply, hkey.2.1, hkey.2.2.1]
  exact enriched_enrich hstatic hlocation

/-! ## Bunching events -/

/-- Two pings of one poll interval that show a pair of vehicles close, on its route and in its
direction, and not both at a terminal. -/
structure ClosePings (frames : Frames) (static : GtfsStaticData) (p q : Ping) (key : PairKey)
    (t : Time) (distance : ℚ) : Prop where
  vehicles : p.vehicleId = key.vehicleA ∧ q.vehicleId = key.vehicleB
  routes : p.routeId = some key.routeId ∧ q.routeId = some key.routeId
  located : ∃ lat lon s lat' lon' s', Located static p key.directionId lat lon s ∧
    Located static q key.directionId lat' lon' s' ∧ bucket s = t ∧ bucket s' = t ∧
    distance = frames.displacementMeters (lat, lon) (lat', lon')
  near : distance ≤ distanceThresholdMeters
  underway : ¬(AtTerminal frames static p ∧ AtTerminal frames static q)

def SeenClose (frames : Frames) (statics : Set GtfsStaticData) (received : List Ping)
    (key : PairKey) (t : Time) (distance : ℚ) : Prop :=
  ∃ static ∈ statics, ∃ p ∈ received, ∃ q ∈ received, ClosePings frames static p q key t distance

/-- The pings back what the event says. -/
structure Backed (frames : Frames) (statics : Set GtfsStaticData) (received : List Ping)
    (e : BunchingEvent) : Prop where
  first : ∃ distance, SeenClose frames statics received e.key e.startTime distance
  last : ∃ distance, SeenClose frames statics received e.key e.endTime distance
  closest : ∃ t, e.startTime ≤ t ∧ t ≤ e.endTime ∧
    SeenClose frames statics received e.key t e.minDistanceMeters
  lasting : e.startTime < e.endTime
  counted : minConsecutiveObservations ≤ e.observationCount

variable {key : PairKey} {e f : BunchingEvent} {events : List BunchingEvent}
  {previous : Option BunchingEvent}

theorem SeenClose.mono {t : Time} {distance : ℚ}
    (h : SeenClose frames statics received key t distance) (hmore : ∀ p ∈ received, p ∈ more) :
    SeenClose frames statics more key t distance := by
  obtain ⟨static, hstatic, p, hp, q, hq, hclose⟩ := h
  exact ⟨static, hstatic, p, hmore p hp, q, hmore q hq, hclose⟩

theorem Backed.mono (h : Backed frames statics received e) (hmore : ∀ p ∈ received, p ∈ more) :
    Backed frames statics more e := by
  obtain ⟨⟨d, hfirst⟩, ⟨d', hlast⟩, ⟨t, hge, hle, hclosest⟩, hlasting, hcounted⟩ := h
  exact ⟨⟨d, hfirst.mono hmore⟩, ⟨d', hlast.mono hmore⟩, ⟨t, hge, hle, hclosest.mono hmore⟩,
    hlasting, hcounted⟩

theorem Arrived.mono (h : Arrived zone statics received r) (hmore : ∀ p ∈ received, p ∈ more) :
    Arrived zone statics more r := by
  obtain ⟨⟨static, hstatic, p, hp, harrival⟩, henriched⟩ := h
  exact ⟨⟨static, hstatic, p, hmore p hp, harrival⟩, henriched⟩

theorem seenClose_of_mem (hstatic : static ∈ statics) (hpings : ∀ p ∈ pings, p ∈ received)
    {row : PairRow} (hrow : row ∈ (findClosePairs frames static pings).1)
    (hkey : row.key = some key) :
    SeenClose frames statics received key row.timeBucket row.distanceMeters := by
  obtain ⟨a, b, hpair, hnear, hterminal, rfl⟩ := mem_findClosePairs.1.mp hrow
  obtain ⟨ha, hb, hbucket, hroute, hdirection, -⟩ := mem_candidatePairs.mp hpair
  obtain ⟨p, hp, hpa⟩ := List.mem_filterMap.mp (mem_firstSightings ha)
  obtain ⟨q, hq, hqb⟩ := List.mem_filterMap.mp (mem_firstSightings hb)
  obtain ⟨hlocated, hvehicle, hrouteA, hbucketA, hterminalA⟩ := sighting_eq_some.mp hpa
  obtain ⟨hlocated', hvehicle', hrouteB, hbucketB, hterminalB⟩ := sighting_eq_some.mp hqb
  obtain ⟨route, hsome, rfl⟩ := Option.map_eq_some_iff.mp hkey
  have hsome : a.routeId = some route := hsome
  refine ⟨static, hstatic, p, hpings p hp, q, hpings q hq, ?_⟩
  constructor
  · exact ⟨hvehicle.symm, hvehicle'.symm⟩
  · exact ⟨hrouteA.symm.trans hsome, (hrouteB.symm.trans hroute.symm).trans hsome⟩
  · rw [← hdirection] at hlocated'
    exact ⟨_, _, _, _, _, _, hlocated, hlocated', hbucketA.symm, hbucketB.symm.trans hbucket.symm,
      rfl⟩
  · exact hnear
  · rintro ⟨hp, hq⟩
    rw [hterminalA.mpr hp, hterminalB.mpr hq] at hterminal
    exact hterminal rfl

theorem backed_of_pairEvent (hstatic : static ∈ statics) (hpings : ∀ p ∈ pings, p ∈ received)
    (he : e ∈ pairEvents frames static pings key) : Backed frames statics received e := by
  obtain ⟨i, j, hij, -, hstart, hend⟩ := exists_pairEvent_iff.mp ⟨e, he, rfl, rfl⟩
  rw [pairEvents, windowEvents, filter_detectBunchingEvents] at he
  obtain ⟨run, hrun, hsize, hevent⟩ := mem_groupEvents.mp he
  have hmaximal := (mem_splitBy_pairGroup (oneRow_findClosePairs frames static pings)).mp hrun
  have hdescribes := describes_of_runEvent hevent
  have hseen {row : PairRow} (hmem : row ∈ run) :
      SeenClose frames statics received e.key row.timeBucket row.distanceMeters := by
    rw [hdescribes.key]
    exact seenClose_of_mem hstatic hpings (hmaximal.sub row hmem).1 (hmaximal.sub row hmem).2
  have hfirst := hdescribes.first
  have hlast := hdescribes.last
  rw [List.head?_eq_some_head hmaximal.ne_nil, Option.map_some, Option.some.injEq] at hfirst
  rw [List.getLast?_eq_some_getLast hmaximal.ne_nil, Option.map_some, Option.some.injEq] at hlast
  obtain ⟨hleast, -⟩ := List.min?_eq_some_iff.mp hdescribes.least
  obtain ⟨closest, hclosest, hdistance⟩ := List.mem_map.mp hleast
  constructor
  · exact ⟨_, hfirst ▸ hseen (List.head_mem hmaximal.ne_nil)⟩
  · exact ⟨_, hlast ▸ hseen (List.getLast_mem hmaximal.ne_nil)⟩
  · refine ⟨closest.timeBucket, ?_, ?_, hdistance ▸ hseen hclosest⟩
    · rw [← hfirst]
      exact Runs.pos_head_le hmaximal.sorted hmaximal.ne_nil hclosest
    · rw [← hlast]
      exact Runs.pos_le_getLast hmaximal.sorted hmaximal.ne_nil hclosest
  · rw [hstart, hend]
    exact slotTime_lt.mpr hij
  · rw [hdescribes.size]
    exact hsize

theorem Backed.update (h : Backed frames statics received f) (he : Backed frames statics received e)
    (hkey : f.key = e.key) (hlater : f.endTime < e.endTime) :
    Backed frames statics received (updatedEvent f e) := by
  obtain ⟨t, hge, hle, hclosest⟩ := h.closest
  obtain ⟨t', hge', hle', hclosest'⟩ := he.closest
  constructor
  · change ∃ d, SeenClose frames statics received e.key (min f.startTime e.startTime) d
    rcases le_total f.startTime e.startTime with hfirst | hfirst
    · rw [min_eq_left hfirst, ← hkey]
      exact h.first
    · rw [min_eq_right hfirst]
      exact he.first
  · exact he.last
  · change ∃ t, min f.startTime e.startTime ≤ t ∧ t ≤ e.endTime ∧
      SeenClose frames statics received e.key t (min f.minDistanceMeters e.minDistanceMeters)
    rcases le_total f.minDistanceMeters e.minDistanceMeters with hnear | hnear
    · rw [min_eq_left hnear, ← hkey]
      exact ⟨t, (min_le_left _ _).trans hge, hle.trans hlater.le, hclosest⟩
    · rw [min_eq_right hnear]
      exact ⟨t', (min_le_right _ _).trans hge', hle', hclosest'⟩
  · exact lt_of_le_of_lt (min_le_right _ _) he.lasting
  · exact he.counted

/-- What the tracker of a pair emits and what it tracks afterwards is backed, if the events are and
what was tracked is. -/
theorem backed_reconcileKey
    (hevents : ∀ e ∈ events, Backed frames statics received e ∧ e.key = key)
    (hprevious : ∀ f, previous = some f → Backed frames statics received f ∧ f.key = key) :
    (∀ a ∈ (reconcileKey previous events).1, Backed frames statics received a.2) ∧
      ∀ f, (reconcileKey previous events).2 = some f →
        Backed frames statics received f ∧ f.key = key := by
  induction events generalizing previous with
  | nil => exact ⟨fun a ha ↦ absurd ha List.not_mem_nil, hprevious⟩
  | cons e events ih =>
    obtain ⟨⟨he, hkey⟩, hrest⟩ := List.forall_mem_cons.mp hevents
    rw [reconcileKey]
    cases haction : action previous e with
    | none => exact ih hrest hprevious
    | some emission =>
      obtain ⟨act, g⟩ := emission
      have hemitted : Backed frames statics received g ∧ g.key = key := by
        refine ⟨?_, (action_key haction).trans hkey⟩
        rcases action_eq_some haction with ⟨-, rfl⟩ | ⟨-, f, hf, -, hlater, rfl⟩
        · exact he
        · obtain ⟨hbacked, hkey'⟩ := hprevious f hf
          exact hbacked.update he (hkey'.trans hkey.symm) hlater
      obtain ⟨hactions, htracked⟩ := ih hrest fun f hf ↦ Option.some.inj hf ▸ hemitted
      exact ⟨List.forall_mem_cons.mpr ⟨hemitted.1, hactions⟩, htracked⟩

/-- What the tracker has is backed, and is found under its own key. -/
def TracksBacked (frames : Frames) (statics : Set GtfsStaticData) (received : List Ping)
    (tracker : BunchingEventTracker) : Prop :=
  ∀ key f, tracker key = some f → Backed frames statics received f ∧ f.key = key

theorem TracksBacked.mono {tracker : BunchingEventTracker}
    (h : TracksBacked frames statics received tracker) (hmore : ∀ p ∈ received, p ∈ more) :
    TracksBacked frames statics more tracker := by
  intro key f hf
  obtain ⟨hbacked, hkey⟩ := h key f hf
  exact ⟨hbacked.mono hmore, hkey⟩

theorem backed_of_window (zone : Zone) (m : Memory) (hstatic : static ∈ statics)
    (hpings : ∀ p ∈ pings, p ∈ received)
    (htracks : TracksBacked frames statics received m.bunchingTracker) :
    (∀ a ∈ (processWindow frames zone static m pings).1.bunchingActions,
      Backed frames statics received a.2) ∧
    TracksBacked frames statics received
      (processWindow frames zone static m pings).2.bunchingTracker := by
  have hevents (key : PairKey) : ∀ e ∈ pairEvents frames static pings key,
      Backed frames statics received e ∧ e.key = key :=
    fun e he ↦ ⟨backed_of_pairEvent hstatic hpings he, of_decide_eq_true (List.mem_filter.mp he).2⟩
  have hkey (key : PairKey) := backed_reconcileKey (hevents key) (htracks key)
  constructor
  · intro a ha
    have hmem : a ∈ (processWindow frames zone static m pings).1.bunchingActions.filter
        (·.2.key = a.2.key) := List.mem_filter.mpr ⟨ha, decide_eq_true rfl⟩
    rw [filter_bunchingActions] at hmem
    exact (hkey a.2.key).1 a hmem
  · intro key f hf
    exact (hkey key).2 f (bunchingTracker_eq_some.mp hf).1

end GtfsStream.Analytics
