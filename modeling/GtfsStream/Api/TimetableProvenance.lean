import GtfsStream.Api.LiveProvenance
import GtfsStream.GtfsStatic.BundleRows
import GtfsStream.GtfsStatic.Lifecycle

/-!
# From the bundles to the map

The lookups of the consumer come out of the refresh, so what the map shows of a delay besides its
message is in the files of a bundle: the time at which the vehicle was due, the route of the trip
and its name, and the position of the stop. So is the direction in which a bunched pair goes. The
bundle is the first one in the target or a complete one that was downloaded, whatever fails on the
way and wherever the process dies.

## One lemma for each file

The load is inverted once for each lookup: what is found under a key is a row of one file, with the
cells that it was read from. The provenance of the live endpoint names the lookups of a snapshot,
the refresh says that the snapshot was loaded from a bundle, and the rows of the bundle take the
place of the lookups. Nothing has to be said of how the two processes are interleaved that was not
said before.
-/

namespace GtfsStream.Api

open Analytics History
open GtfsStatic (Dir Remote Engine Reading Offered)

/-! ## The lookups of a snapshot -/

def scheduledOf (scheduled : Loader.ScheduledStopTime) : ScheduledStopTime :=
  ⟨scheduled.tripId, scheduled.stopSequence, scheduled.arrivalTime.map Int.toNat,
    scheduled.departureTime.map Int.toNat, scheduled.stopId⟩

def coordinateOf : Loader.PyFloat → Option ℚ
  | .finite q => some q
  | _ => none

def stopOf (info : Loader.StopInfo) : StopInfo :=
  ⟨info.stopLat.bind coordinateOf, info.stopLon.bind coordinateOf⟩

/-- The lookups of a snapshot, as the windows read them. -/
def lookupsOf (s : Loader.GtfsStaticData) : GtfsStaticData where
  directionLookup := s.directionLookup.lookup
  tripTerminalLookup t := (s.tripTerminalLookup.lookup t).map
    (Prod.map (Option.map stopOf) (Option.map stopOf))
  stopTimesLookup key := (s.stopTimesLookup.lookup key).map scheduledOf
  stopsLookup id := (s.stopsLookup.lookup id).map stopOf
  tripRouteLookup := s.tripRouteLookup.lookup
  routesLookup route := (s.routesLookup.lookup route).join

/-- No time is negative, and every coordinate is a number: the snapshot is what its lookups say. -/
structure Plain (s : Loader.GtfsStaticData) : Prop where
  arrivalTime : ∀ key scheduled, s.stopTimesLookup.lookup key = some scheduled →
    ∀ t ∈ scheduled.arrivalTime, 0 ≤ t
  departureTime : ∀ key scheduled, s.stopTimesLookup.lookup key = some scheduled →
    ∀ t ∈ scheduled.departureTime, 0 ≤ t
  stopLat : ∀ id info, s.stopsLookup.lookup id = some info →
    ∀ x ∈ info.stopLat, ∃ q, x = .finite q
  stopLon : ∀ id info, s.stopsLookup.lookup id = some info →
    ∀ x ∈ info.stopLon, ∃ q, x = .finite q

/-- The lookups that a consumer may have served, up to the time when these remote sides had been
asked. -/
def Served (py : Loader.Python) (reading : Reading) (interval : ℚ) (d₀ : Dir)
    (asked : List Remote) : Set GtfsStaticData :=
  {static | ∃ asked' e c, asked' <+: asked ∧ GtfsStatic.Run py reading interval d₀ asked' e ∧
    e.consumer = some c ∧ Plain c.staticData ∧ static = lookupsOf c.staticData}

/-! ## What the files say -/

section

variable (py : Loader.Python) (reading : Reading) (S : Dir → Prop)

/-- By a row of `stop_times.txt` the visit is due at this second of the service day. Where the
bundle has calendars, its trip is one of a service that was active on the day of the load. -/
def DueBy (tripId : String) (stopSequence : ℤ) (scheduled : ℕ) : Prop :=
  ∃ d day tables, S d ∧ Loader.Opens (reading.directory d) tables ∧
    Loader.Active py (reading.directory d) day tables tripId ∧
    ∃ row ∈ tables.stopTimes.rows, Loader.str row.tripId = tripId ∧
      row.stopSequence.toInt py = .ok stopSequence ∧
      Loader.timeCell py row.arrivalTime = .ok (some (scheduled : ℤ))

/-- By a row of `trips.txt` this is the route of the trip. -/
def RoutedBy (tripId route : String) : Prop :=
  ∃ d tables, S d ∧ Loader.Opens (reading.directory d) tables ∧
    ∃ row ∈ tables.trips.rows, row.tripId = some tripId ∧ row.routeId = some route

/-- By a row of `trips.txt` the trip goes in this direction, which is 0 or 1. -/
def DirectedBy (tripId : String) (direction : ℤ) : Prop :=
  ∃ d tables, S d ∧ Loader.Opens (reading.directory d) tables ∧
    ∃ row ∈ tables.trips.rows, row.tripId = some tripId ∧ row.directionId.isZeroOrOne = true ∧
      row.directionId.toInt py = .ok direction

/-- By rows of `trips.txt` and `routes.txt` this is the name of the trip's route. -/
def NamedBy (tripId name : String) : Prop :=
  ∃ d tables, S d ∧ Loader.Opens (reading.directory d) tables ∧
    ∃ trip ∈ tables.trips.rows, ∃ route ∈ tables.routes.rows, trip.tripId = some tripId ∧
      trip.routeId = some (Loader.str route.routeId) ∧ route.routeLongName ≠ .missing ∧
      route.routeLongName.str py = name

/-- By rows of `stop_times.txt` and `stops.txt` this is where the stop of the visit is. -/
def StandsBy (tripId : String) (stopSequence : ℤ) (lon lat : ℚ) : Prop :=
  ∃ d tables, S d ∧ Loader.Opens (reading.directory d) tables ∧
    ∃ row ∈ tables.stopTimes.rows, ∃ stop ∈ tables.stops.rows,
      Loader.str row.tripId = tripId ∧ row.stopSequence.toInt py = .ok stopSequence ∧
      row.stop tables.stopTimes.columns = some (Loader.str stop.stopId) ∧
      Loader.coordinate py tables.stops.columns "stop_lat" stop.stopLat = .ok (some (.finite lat)) ∧
      Loader.coordinate py tables.stops.columns "stop_lon" stop.stopLon = .ok (some (.finite lon))

/-- The files say what the entry tells of its trip and its stop. -/
structure Published (tripId : String) (stopSequence : ℤ) (entry : DelayEntry) : Prop where
  routeId : ∀ route, entry.routeId = some route → RoutedBy reading S tripId route
  routeLongName : ∀ name, entry.routeLongName = some name → NamedBy py reading S tripId name
  location : ∀ lon lat, entry.location = some (lon, lat) →
    StandsBy py reading S tripId stopSequence lon lat

/-- The ping shows a vehicle of the route, at a point and in a poll interval, on a trip that goes in
this direction by a row of `trips.txt`. -/
structure Passing (p : Ping) (vehicleId routeId : String) (direction : ℤ) (lat lon : ℚ) (t : Time) :
    Prop where
  vehicleId : p.vehicleId = vehicleId
  routeId : p.routeId = some routeId
  location : p.location = some (lon, lat)
  sent : ∃ s, p.timestampEastern = some s ∧ bucket s = t
  directed : ∃ trip, p.tripId = some trip ∧ DirectedBy py reading S trip direction

/-- Two of these pings show the pair close. -/
def Meeting (frames : Frames) (received : List Ping) (key : PairKey) (t : Time) (distance : ℚ) :
    Prop :=
  ∃ p ∈ received, ∃ q ∈ received, ∃ lat lon lat' lon',
    Passing py reading S p key.vehicleA key.routeId key.directionId lat lon t ∧
    Passing py reading S q key.vehicleB key.routeId key.directionId lat' lon' t ∧
    distance = frames.displacementMeters (lat, lon) (lat', lon') ∧
    distance ≤ distanceThresholdMeters

end

section

variable {py : Loader.Python} {reading : Reading} {interval : ℚ} {d₀ : Dir} {asked : List Remote}
  {static : GtfsStaticData}

theorem exists_load (h : static ∈ Served py reading interval d₀ asked) :
    ∃ d day tables selection built, Offered d₀ asked d ∧
      Loader.Opens (reading.directory d) tables ∧
      Loader.selectRows py (reading.directory d) day tables = .ok selection ∧
      Loader.buildLookups py (reading.directory d) tables selection = .ok built ∧
      Plain (built.snapshot day 0) ∧ static = lookupsOf (built.snapshot day 0) := by
  obtain ⟨asked', e, c, ⟨more, rfl⟩, hrun, hc, hplain, rfl⟩ := h
  obtain ⟨d, day, now, built, hd, hbuilt, hs, -, -⟩ := hrun.serving.snapshot c hc
  obtain ⟨tables, selection, hopens, hselection, hlookups⟩ := Loader.exists_parts hbuilt
  rw [hs] at hplain
  refine ⟨d, day, tables, selection, built, hd.weaken more, hopens, hselection, hlookups,
    ⟨hplain.arrivalTime, hplain.departureTime, hplain.stopLat, hplain.stopLon⟩, ?_⟩
  rw [hs]
  rfl

theorem dueBy_of_served (h : static ∈ Served py reading interval d₀ asked) {tripId : String}
    {stopSequence : ℤ} {scheduled : ℕ}
    (hlookup : (static.stopTimesLookup (tripId, stopSequence)).bind
      ScheduledStopTime.arrivalTime = some scheduled) :
    DueBy py reading (Offered d₀ asked) tripId stopSequence scheduled := by
  obtain ⟨d, day, tables, selection, built, hd, hopens, hselection, hbuilt, hplain, rfl⟩ :=
    exists_load h
  obtain ⟨stopTime, hfound, harrival⟩ := Option.bind_eq_some_iff.mp hlookup
  obtain ⟨found, hstored, rfl⟩ := Option.map_eq_some_iff.mp hfound
  obtain ⟨t, ht, rfl⟩ := Option.map_eq_some_iff.mp harrival
  obtain ⟨hkey, hactive, row, hrow, hcells⟩ := Loader.exists_stopTimeRow hselection hbuilt hstored
  obtain ⟨htrip, hsequence⟩ := Prod.mk.inj hkey
  refine ⟨d, day, tables, hd, hopens, hactive, row, hrow, hcells.tripId.trans htrip.symm,
    hsequence ▸ hcells.stopSequence, ?_⟩
  rw [hcells.arrivalTime, ht, Int.toNat_of_nonneg (hplain.arrivalTime _ found hstored t ht)]

theorem routedBy_of_served (h : static ∈ Served py reading interval d₀ asked)
    {tripId route : String} (hlookup : static.tripRouteLookup tripId = some route) :
    RoutedBy reading (Offered d₀ asked) tripId route := by
  obtain ⟨d, day, tables, selection, built, hd, hopens, hselection, hbuilt, -, rfl⟩ := exists_load h
  exact ⟨d, tables, hd, hopens, Loader.exists_tripRow hselection hbuilt hlookup⟩

theorem namedBy_of_served (h : static ∈ Served py reading interval d₀ asked)
    {tripId route name : String} (hroute : static.tripRouteLookup tripId = some route)
    (hname : static.routesLookup route = some name) :
    NamedBy py reading (Offered d₀ asked) tripId name := by
  obtain ⟨d, day, tables, selection, built, hd, hopens, hselection, hbuilt, -, rfl⟩ := exists_load h
  obtain ⟨trip, htrip, hid, hrouteId⟩ := Loader.exists_tripRow hselection hbuilt hroute
  obtain ⟨row, hrow, rfl, hrest⟩ :=
    Loader.exists_routeRow hbuilt (Option.join_eq_some_iff.mp hname)
  exact ⟨d, tables, hd, hopens, trip, htrip, row, hrow, hid, hrouteId, hrest⟩

theorem directedBy_of_served (h : static ∈ Served py reading interval d₀ asked) {tripId : String}
    {direction : ℤ} (hlookup : static.directionLookup tripId = some direction) :
    DirectedBy py reading (Offered d₀ asked) tripId direction := by
  obtain ⟨d, day, tables, selection, built, hd, hopens, hselection, hbuilt, -, rfl⟩ := exists_load h
  exact ⟨d, tables, hd, hopens, Loader.exists_directionRow hselection hbuilt hlookup⟩

theorem passing_of_located (h : static ∈ Served py reading interval d₀ asked) {p : Ping}
    {vehicleId routeId : String} {direction : ℤ} {lat lon : ℚ} {s t : Time}
    (hvehicle : p.vehicleId = vehicleId) (hroute : p.routeId = some routeId)
    (hlocated : Located static p direction lat lon s) (ht : bucket s = t) :
    Passing py reading (Offered d₀ asked) p vehicleId routeId direction lat lon t := by
  obtain ⟨trip, htrip, hdirection⟩ := Option.bind_eq_some_iff.mp hlocated.direction
  exact ⟨hvehicle, hroute, hlocated.location, ⟨s, hlocated.time, ht⟩, trip, htrip,
    directedBy_of_served h hdirection⟩

theorem meeting_of_seenClose {frames : Frames} {statics : Set GtfsStaticData}
    (hstatics : statics ⊆ Served py reading interval d₀ asked) {received : List Ping}
    {key : PairKey} {t : Time} {distance : ℚ}
    (h : SeenClose frames statics received key t distance) :
    Meeting py reading (Offered d₀ asked) frames received key t distance := by
  obtain ⟨static, hstatic, p, hp, q, hq, hclose⟩ := h
  obtain ⟨lat, lon, s, lat', lon', s', hlocated, hlocated', hs, hs', hdistance⟩ := hclose.located
  exact ⟨p, hp, q, hq, lat, lon, lat', lon',
    passing_of_located (hstatics hstatic) hclose.vehicles.1 hclose.routes.1 hlocated hs,
    passing_of_located (hstatics hstatic) hclose.vehicles.2 hclose.routes.2 hlocated' hs',
    hdistance, hclose.near⟩

theorem coordinateOf_eq_some {x : Option Loader.PyFloat} {q : ℚ}
    (h : x.bind coordinateOf = some q) : x = some (.finite q) := by
  obtain ⟨y, rfl, hy⟩ := Option.bind_eq_some_iff.mp h
  cases y with
  | finite p => rw [Option.some.inj hy]
  | infinity negative => cases hy
  | nan => cases hy

theorem standsBy_of_served (h : static ∈ Served py reading interval d₀ asked) {tripId : String}
    {stopSequence : ℤ} {scheduled : ScheduledStopTime} {stopId : String} {lon lat : ℚ}
    (hlookup : static.stopTimesLookup (tripId, stopSequence) = some scheduled)
    (hstop : scheduled.stopId = some stopId)
    (hposition : static.stopsLookup stopId = some ⟨some lat, some lon⟩) :
    StandsBy py reading (Offered d₀ asked) tripId stopSequence lon lat := by
  obtain ⟨d, day, tables, selection, built, hd, hopens, hselection, hbuilt, -, rfl⟩ := exists_load h
  obtain ⟨found, hfound, rfl⟩ := Option.map_eq_some_iff.mp hlookup
  obtain ⟨info, hinfo, hcoordinates⟩ := Option.map_eq_some_iff.mp hposition
  obtain ⟨hlat, hlon⟩ := StopInfo.mk.inj hcoordinates
  obtain ⟨hkey, -, row, hrow, hcells⟩ := Loader.exists_stopTimeRow hselection hbuilt hfound
  obtain ⟨htrip, hsequence⟩ := Prod.mk.inj hkey
  obtain ⟨rfl, stop, hmem, hstopSays⟩ := Loader.exists_stopRow hbuilt hinfo
  refine ⟨d, tables, hd, hopens, row, hrow, stop, hmem, hcells.tripId.trans htrip.symm,
    hsequence ▸ hcells.stopSequence, ?_, ?_, ?_⟩
  · rw [hcells.stopId, hstopSays.stopId]
    exact hstop
  · rw [hstopSays.stopLat, coordinateOf_eq_some hlat]
  · rw [hstopSays.stopLon, coordinateOf_eq_some hlon]

end

/-! ## The map -/

variable {py : Loader.Python} {reading : Reading} {interval : ℚ} {d₀ : Dir} {asked : List Remote}
  {cfg : Settings} {statics : Set GtfsStaticData} {log : List Event} {earlier : List Ping}
  {c : Consumer} {s : Server} {e : Event}

/-- **A delay on the map is one between a message and a row of a timetable.** The vehicle stood at
the stop in a message that the consumer had received. It was due by a row of `stop_times.txt` in one
bundle, which was in the target from the start or had been downloaded; and the route, its name and
the position of the stop, where they are shown, are in the files of such bundles too. -/
theorem timetable_provenance (hstatics : statics ⊆ Served py reading interval d₀ asked)
    (hsupplied : Supplied cfg statics log earlier c) (hrun : Run {} (log ++ [e]) s)
    {response : LiveResponse} (hsends : e.Sends response) :
    ∀ entry ∈ response.delays, ∃ p ∈ earlier ++ messages c.log, ∃ r : DeviationResult,
      ∃ scheduled, p.currentStatus = some "STOPPED_AT" ∧ p.vehicleId = r.vehicleId ∧
        p.tripId = some r.tripId ∧ p.currentStopSequence = some (r.stopSequence : ℚ) ∧
        p.timestampEastern = some r.actualAt ∧
        resolveScheduledDatetime cfg.zone r.actualAt scheduled = some r.scheduledAt ∧
        r.deviationSeconds = r.actualAt - r.scheduledAt ∧
        entry.Shows r ∧
        DueBy py reading (Offered d₀ asked) r.tripId r.stopSequence scheduled ∧
        Published py reading (Offered d₀ asked) r.tripId r.stopSequence entry := by
  intro entry hentry
  obtain ⟨docs, k, d, hdocs, hd, rfl, -⟩ := hsupplied.exists_deviationDoc hrun hsends hentry
  obtain ⟨r, ⟨static, hstatic, p, hp, harrival⟩, hkey, htimes, henriched⟩ := hdocs.deviations k d hd
  obtain ⟨scheduled, hscheduled, hat⟩ := harrival.scheduledAt
  refine ⟨p, hp, r, scheduled, harrival.stopped, harrival.vehicleId, harrival.tripId,
    harrival.stopSequence, harrival.sent, hat, harrival.deviation,
    shows_delayEntry hkey.symm htimes, dueBy_of_served (hstatics hstatic) hscheduled, ?_⟩
  constructor
  · intro route hroute
    obtain ⟨static, hstatic, htrip⟩ := henriched.routeId route hroute
    exact routedBy_of_served (hstatics hstatic) htrip
  · intro name hname
    obtain ⟨static, hstatic, route, htrip, hnamed⟩ := henriched.routeLongName name hname
    exact namedBy_of_served (hstatics hstatic) htrip hnamed
  · intro lon lat hlocation
    obtain ⟨static, hstatic, stopTime, stopId, hstopTime, hstop, hposition⟩ :=
      henriched.location lon lat hlocation
    exact standsBy_of_served (hstatics hstatic) hstopTime hstop hposition

/-- **The vehicles of a bunching event on the map go the same way.** By messages the pair was close
at its start, at its end, and at its smallest distance in between. The trips of these messages go in
the direction of the event, by rows of `trips.txt` in bundles that were in the target from the start
or had been downloaded. -/
theorem direction_provenance (hstatics : statics ⊆ Served py reading interval d₀ asked)
    (hsupplied : Supplied cfg statics log earlier c) (hrun : Run {} (log ++ [e]) s)
    {response : LiveResponse} (hsends : e.Sends response) :
    ∀ entry ∈ response.bunching, ∃ event : BunchingEvent, entry = entryOf event ∧
      (∃ distance, Meeting py reading (Offered d₀ asked) cfg.frames (earlier ++ messages c.log)
        event.key event.startTime distance) ∧
      (∃ distance, Meeting py reading (Offered d₀ asked) cfg.frames (earlier ++ messages c.log)
        event.key event.endTime distance) ∧
      ∃ t, event.startTime ≤ t ∧ t ≤ event.endTime ∧
        Meeting py reading (Offered d₀ asked) cfg.frames (earlier ++ messages c.log) event.key t
          event.minDistanceMeters := by
  intro entry hentry
  obtain ⟨docs, k, d, hdocs, hd, rfl, -⟩ := hsupplied.exists_bunchingDoc hrun hsends hentry
  obtain ⟨event, hbacked, hkey, hrecord⟩ := hdocs.bunching k d hd
  obtain ⟨first, hfirst⟩ := hbacked.first
  obtain ⟨last, hlast⟩ := hbacked.last
  obtain ⟨t, hstart, hend, hclosest⟩ := hbacked.closest
  exact ⟨event, bunchingEntry_eq hkey.symm hrecord, ⟨first, meeting_of_seenClose hstatics hfirst⟩,
    ⟨last, meeting_of_seenClose hstatics hlast⟩, t, hstart, hend,
    meeting_of_seenClose hstatics hclosest⟩

/-! ### A bus of the Red Line -/

/-- A file of this text. -/
def onlyReads {ρ : Type} (file : String) (df : Loader.Frame ρ) (text : String) :
    Except Loader.ReadError (Loader.Frame ρ) :=
  if text = file then .ok df else .error .emptyData

def redLineTrips : String := "trip_id,direction_id,route_id\nt1,0,r1\n"

def redLineStopTimes : String :=
  "trip_id,stop_sequence,arrival_time,departure_time,stop_id\nt1,1,19:00:00,19:00:00,s1\n"

def redLineStops : String := "stop_id,stop_lat,stop_lon\ns1,45.5,-73.5\n"

def redLineRoutes : String := "route_id,route_long_name\nr1,Red Line\n"

def redLineStopTime : Loader.StopTimeRow where
  label := .number 0
  tripId := some "t1"
  stopSequence := .int 1
  stopId := some "s1"
  arrivalTime := .text "19:00:00"
  departureTime := .text "19:00:00"

def redLineStop : Loader.StopRow where
  stopId := some "s1"
  stopLat := .float (91 / 2)
  stopLon := .float (-147 / 2)

/-- The readings of these four files. -/
def redLineReading : Reading :=
  { GtfsStatic.withoutRows with
    trips := onlyReads redLineTrips ⟨["trip_id", "direction_id", "route_id"],
      [{ tripId := some "t1", routeId := some "r1", directionId := .int 0 }]⟩
    stopTimes := onlyReads redLineStopTimes
      ⟨["trip_id", "stop_sequence", "arrival_time", "departure_time", "stop_id"],
        [redLineStopTime]⟩
    stops := onlyReads redLineStops ⟨["stop_id", "stop_lat", "stop_lon"], [redLineStop]⟩
    routes := onlyReads redLineRoutes ⟨["route_id", "route_long_name"],
      [{ routeId := some "r1", routeLongName := .text "Red Line" }]⟩ }

def redLineFiles : List (String × String) :=
  [("stops.txt", redLineStops), ("trips.txt", redLineTrips), ("stop_times.txt", redLineStopTimes),
    ("routes.txt", redLineRoutes)]

def redLineVersion : GtfsStatic.Version := ⟨"v3", "", some redLineFiles⟩

def redLineBundle : Dir := (GtfsStatic.filesOf redLineFiles).insert ".etag" (.file "v3")

theorem accepts_redLine :
    GtfsStatic.Accepts Loader.plainPython redLineReading 20513 redLineBundle := by
  refine GtfsStatic.accepts_iff_succeeds.mpr ?_
  decide +kernel

/-- The snapshot of the first load. -/
def redLineSnapshot : Loader.GtfsStaticData :=
  (Loader.outcome (Loader.load Loader.plainPython (redLineReading.directory redLineBundle) 20513 0)
    {}).2

theorem timeCell_redLine {time : Option ℤ}
    (h : Loader.timeCell Loader.plainPython (.text "19:00:00") = .ok time) : ∀ t ∈ time, 0 ≤ t := by
  intro t ht
  have hcell : Loader.timeCell Loader.plainPython (.text "19:00:00") = .ok (some 68400) := rfl
  rw [← Except.ok.inj (hcell.symm.trans h)] at ht
  exact Option.some.inj ht ▸ by decide

theorem plain_redLine : Plain redLineSnapshot := by
  obtain ⟨built, hbuilt⟩ := GtfsStatic.accepts_iff_succeeds.mp accepts_redLine
  have hs : redLineSnapshot = built.snapshot 20513 0 :=
    congrArg Prod.snd (Loader.outcome_load_of_ok hbuilt)
  obtain ⟨tables, selection, hopens, hselection, hlookups⟩ := Loader.exists_parts hbuilt
  -- the tables are what the four texts are read as
  have htimes : tables.stopTimes = ⟨_, [redLineStopTime]⟩ :=
    (Loader.Csv.table.inj (Eq.trans (b := (redLineReading.directory redLineBundle).stopTimes) rfl
      hopens.stopTimes)).symm
  have hstops : tables.stops = ⟨["stop_id", "stop_lat", "stop_lon"], [redLineStop]⟩ :=
    (Loader.Csv.table.inj (Eq.trans (b := (redLineReading.directory redLineBundle).stops) rfl
      hopens.stops)).symm
  have htime : ∀ key scheduled, built.stopTimesLookup.lookup key = some scheduled →
      redLineStopTime.Says Loader.plainPython tables.stopTimes.columns scheduled := by
    intro key scheduled hlookup
    obtain ⟨-, -, row, hrow, hcells⟩ := Loader.exists_stopTimeRow hselection hlookups hlookup
    rw [htimes] at hrow
    obtain rfl := List.mem_singleton.mp hrow
    exact hcells
  have hstop : ∀ id info, built.stopsLookup.lookup id = some info →
      redLineStop.Says Loader.plainPython ["stop_id", "stop_lat", "stop_lon"] info := by
    intro id info hlookup
    obtain ⟨-, row, hrow, hcells⟩ := Loader.exists_stopRow hlookups hlookup
    rw [hstops] at hrow hcells
    obtain rfl := List.mem_singleton.mp hrow
    exact hcells
  rw [hs]
  constructor
  · intro key scheduled hlookup
    exact timeCell_redLine (htime key scheduled hlookup).arrivalTime
  · intro key scheduled hlookup
    exact timeCell_redLine (htime key scheduled hlookup).departureTime
  · intro id info hlookup x hx
    have hcell := Except.ok.inj (hstop id info hlookup).stopLat
    exact ⟨_, (Option.some.inj (hcell.trans hx)).symm⟩
  · intro id info hlookup x hx
    have hcell := Except.ok.inj (hstop id info hlookup).stopLon
    exact ⟨_, (Option.some.inj (hcell.trans hx)).symm⟩

/-- The arrival of the evening, with what the files say. -/
def redLineArrival : DeviationResult :=
  { eveningArrival with
    location := some (-147 / 2, 91 / 2)
    routeId := some "r1"
    routeLongName := some "Red Line" }

def redLineDoc : DeviationDoc :=
  (redLineArrival.key,
    ⟨0, seconds 60, seconds 60, some (-147 / 2, 91 / 2), some "r1", some "Red Line"⟩)

theorem redLine_served : {lookupsOf redLineSnapshot} ⊆
    Served Loader.plainPython redLineReading 86400 ∅ [redLineVersion.remote] := by
  have hvalidators : GtfsStatic.validators redLineVersion.headers = (some "v3", none) := by decide
  have hnames : redLineFiles.map Prod.fst = GtfsStatic.requiredFiles := rfl
  have hbundle : redLineVersion.remote.bundle = some redLineBundle :=
    GtfsStatic.bundle_of_requiredFiles rfl rfl hnames hvalidators
  obtain ⟨w, -, hstart⟩ := GtfsStatic.exists_started hbundle accepts_redLine
  have hrun : GtfsStatic.Run Loader.plainPython redLineReading 86400 ∅ [redLineVersion.remote]
      ⟨w, some ⟨redLineSnapshot, 0⟩, 20513⟩ :=
    (GtfsStatic.Run.deployed GtfsStatic.emptyTarget 20513 rfl).start
      (hstart.mono fun _ _ _ ↦ GtfsStatic.SmoothCalls.calls)
  rw [Set.singleton_subset_iff]
  exact ⟨_, _, _, List.prefix_rfl, hrun, rfl, plain_redLine, rfl⟩

/-- The engine starts without a bundle and downloads one. The map shows the bus half a minute after
it was seen at its stop. -/
theorem timetable_provenance_redLine : ∃ stopSequence scheduled,
    DueBy Loader.plainPython redLineReading (Offered ∅ [redLineVersion.remote]) "t1" stopSequence
      scheduled ∧
    Published Loader.plainPython redLineReading (Offered ∅ [redLineVersion.remote]) "t1"
      stopSequence (delayEntry redLineDoc) := by
  have hfinds : FindsDeviations
      (((docsAfter {} []).writeBunchingActions []).writeDeviationResults [redLineArrival])
      (seconds 90 - liveWindow) [redLineDoc] :=
    finds_single (k := redLineDoc.1) (d := redLineDoc.2) rfl (by decide)
  obtain ⟨c, log, e, s, response, hsupplied, hrun, hsends, hentry⟩ :=
    @exists_shown (lookupsOf redLineSnapshot) _ _ (by decide +kernel) hfinds
  obtain ⟨p, -, r, scheduled, -, -, -, -, -, -, -, hshows, hdue, hpublished⟩ :=
    timetable_provenance redLine_served hsupplied hrun hsends (delayEntry redLineDoc) hentry
  have htrip : r.tripId = "t1" := hshows.tripId.symm
  rw [htrip] at hdue hpublished
  exact ⟨r.stopSequence, scheduled, hdue, hpublished⟩

/-- Two buses of the Red Line that go together. -/
def redLineTogether : List Turn :=
  goingTogether.map fun turn ↦ { turn with static := lookupsOf redLineSnapshot }

theorem direction_provenance_redLine : ∃ event : BunchingEvent,
    bunchingEntry togetherDoc = entryOf event ∧ ∃ received distance,
      Meeting Loader.plainPython redLineReading (Offered ∅ [redLineVersion.remote]) meridian
        received event.key event.startTime distance := by
  obtain ⟨c, log, e, s, response, hsupplied, hrun, hsends, hentry⟩ :=
    @exists_met {lookupsOf redLineSnapshot} redLineTogether _ _ (by simp [redLineTogether])
      (by decide +kernel) finds_togetherDoc
  obtain ⟨event, hshows, ⟨distance, hfirst⟩, -⟩ := direction_provenance redLine_served hsupplied
    hrun hsends (bunchingEntry togetherDoc) hentry
  exact ⟨event, hshows, _, distance, hfirst⟩

end GtfsStream.Api
