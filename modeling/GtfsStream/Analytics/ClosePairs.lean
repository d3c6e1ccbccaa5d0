import GtfsStream.Analytics.Overlap

/-!
# The pairs of a frame

`find_close_pairs` against its pairwise specification, which names two pings for each row: the ones
that stand for two vehicles in a bucket. So the rows depend on which pings the frame has, and
neither on their order nor on how often they are repeated.

## Order and repetition

The code sorts the pings by time, and the sort is not stable. Then it keeps the first row of each
vehicle in each bucket. The row that stays has the least time of its vehicle in the bucket, whatever
the sort does with ties, as long as rows that tie do not differ. So what the frame shows is a set of
representatives, which a permutation or a repetition of the pings does not change. The pairs are
then read off the representatives two by two, each pair in the order of the names of its vehicles.
-/

namespace GtfsStream.Analytics

variable {frames : Frames} {static : GtfsStaticData} {pings more : List Ping} {p q : Ping}
  {threshold : ℚ} {row : PairRow} {s : Sighting}

/-! ## The specification -/

/-- A ping whose trip has a known direction, with its location and time. -/
structure Located (static : GtfsStaticData) (p : Ping) (direction : ℤ) (lat lon : ℚ) (t : Time) :
    Prop where
  direction : p.tripId.bind static.directionLookup = some direction
  location : p.location = some (lon, lat)
  time : p.timestampEastern = some t

/-- The ping that stands for its vehicle in its bucket is the earliest that is located. -/
structure Represents (static : GtfsStaticData) (pings : List Ping) (p : Ping) (direction : ℤ)
    (lat lon : ℚ) (t : Time) : Prop where
  mem : p ∈ pings
  located : Located static p direction lat lon t
  earliest : ∀ q ∈ pings, q.vehicleId = p.vehicleId → ∀ direction' lat' lon' t',
    Located static q direction' lat' lon' t' → bucket t' = bucket t → t ≤ t'

/-- Within 250 m of a known terminal of its own trip. -/
def AtTerminal (frames : Frames) (static : GtfsStaticData) (p : Ping) : Prop :=
  ∃ trip terminals lat lon stopLat stopLon, p.tripId = some trip ∧
    static.tripTerminalLookup trip = some terminals ∧ p.location = some (lon, lat) ∧
    (terminals.1 = some ⟨some stopLat, some stopLon⟩ ∨
      terminals.2 = some ⟨some stopLat, some stopLon⟩) ∧
    frames.displacementMeters (lat, lon) (stopLat, stopLon) ≤ 250

/-- The row of two pings that stand for their vehicles in the same bucket. -/
def IsPair (frames : Frames) (static : GtfsStaticData) (pings : List Ping) (p q : Ping)
    (row : PairRow) : Prop :=
  ∃ direction lat lon t lat' lon' t', Represents static pings p direction lat lon t ∧
    Represents static pings q direction lat' lon' t' ∧ p.vehicleId < q.vehicleId ∧
    p.routeId = q.routeId ∧ bucket t = bucket t' ∧
    row =
      { routeId := p.routeId
        directionId := direction
        vehicleA := p.vehicleId
        vehicleB := q.vehicleId
        timeBucket := bucket t
        distanceMeters := frames.displacementMeters (lat, lon) (lat', lon') }

/-- A frame whose pings have a route and a time, and of which no two of one vehicle and one time
differ. -/
structure PingFrame (pings : List Ping) : Prop where
  route : ∀ p ∈ pings, p.routeId.isSome
  time : ∀ p ∈ pings, p.timestampEastern.isSome
  one : ∀ p ∈ pings, ∀ q ∈ pings, p.vehicleId = q.vehicleId →
    p.timestampEastern = q.timestampEastern → p = q

theorem PingFrame.congr (h : PingFrame pings) (hmem : ∀ p, p ∈ more ↔ p ∈ pings) :
    PingFrame more where
  route p hp := h.route p ((hmem p).mp hp)
  time p hp := h.time p ((hmem p).mp hp)
  one p hp q hq := h.one p ((hmem p).mp hp) q ((hmem q).mp hq)

/-! ## The rows that are paired -/

theorem nearTerminal_iff {lat lon : ℚ} {terminals : Option Terminals} :
    nearTerminal frames lat lon terminals = true ↔ ∃ stops stopLat stopLon,
      terminals = some stops ∧ (stops.1 = some ⟨some stopLat, some stopLon⟩ ∨
        stops.2 = some ⟨some stopLat, some stopLon⟩) ∧
      frames.displacementMeters (lat, lon) (stopLat, stopLon) ≤ 250 := by
  have hone (first last : Option StopInfo) : nearTerminal frames lat lon (some (first, last)) =
      (nearTerminal frames lat lon (some (first, none)) ||
        nearTerminal frames lat lon (some (last, none))) := by
    simp [nearTerminal]
  have hstop (stop : Option StopInfo) : nearTerminal frames lat lon (some (stop, none)) = true ↔
      ∃ stopLat stopLon, stop = some ⟨some stopLat, some stopLon⟩ ∧
        frames.displacementMeters (lat, lon) (stopLat, stopLon) ≤ 250 := by
    rcases stop with - | ⟨- | stopLat, - | stopLon⟩
    · simp [nearTerminal]
    · simp [nearTerminal]
    · simp [nearTerminal]
    · simp [nearTerminal]
    · simp only [nearTerminal, List.any_cons, List.any_nil, Bool.or_false, Option.some.injEq,
        StopInfo.mk.injEq, terminalRadiusMeters]
      constructor
      · exact fun h ↦ ⟨stopLat, stopLon, ⟨rfl, rfl⟩, of_decide_eq_true h⟩
      · rintro ⟨_, _, ⟨rfl, rfl⟩, h⟩
        exact decide_eq_true h
  rcases terminals with - | ⟨first, last⟩
  · simp [nearTerminal]
  · rw [hone, Bool.or_eq_true]
    refine (or_congr (hstop first) (hstop last)).trans ?_
    constructor
    · rintro (⟨stopLat, stopLon, rfl, hnear⟩ | ⟨stopLat, stopLon, rfl, hnear⟩)
      · exact ⟨_, stopLat, stopLon, rfl, Or.inl rfl, hnear⟩
      · exact ⟨_, stopLat, stopLon, rfl, Or.inr rfl, hnear⟩
    · rintro ⟨stops, stopLat, stopLon, hstops, hstop | hstop, hnear⟩
      · rw [← Option.some.inj hstops] at hstop
        exact Or.inl ⟨stopLat, stopLon, hstop, hnear⟩
      · rw [← Option.some.inj hstops] at hstop
        exact Or.inr ⟨stopLat, stopLon, hstop, hnear⟩

theorem sighting_eq_some : sighting frames static p = some s ↔
    Located static p s.directionId s.lat s.lon s.timestampEastern ∧ s.vehicleId = p.vehicleId ∧
      s.routeId = p.routeId ∧ s.timeBucket = bucket s.timestampEastern ∧
      (s.nearTerminal = true ↔ AtTerminal frames static p) := by
  have hterminal {trip : String} {lat lon : ℚ} (htrip : p.tripId = some trip)
      (hlocation : p.location = some (lon, lat)) :
      nearTerminal frames lat lon (static.tripTerminalLookup trip) = true ↔
        AtTerminal frames static p := by
    rw [nearTerminal_iff]
    constructor
    · rintro ⟨stops, stopLat, stopLon, hstops, hstop, hnear⟩
      exact ⟨trip, stops, lat, lon, stopLat, stopLon, htrip, hstops, hlocation, hstop, hnear⟩
    · rintro ⟨trip', stops, lat', lon', stopLat, stopLon, htrip', hstops, hlocation', hstop, hnear⟩
      obtain rfl := Option.some.inj (htrip.symm.trans htrip')
      obtain ⟨rfl, rfl⟩ := Prod.mk.inj (Option.some.inj (hlocation.symm.trans hlocation'))
      exact ⟨stops, stopLat, stopLon, hstops, hstop, hnear⟩
  constructor
  · intro h
    unfold sighting at h
    split at h
    · next htrip hdirection hlocation htime =>
      rw [← Option.some.inj h]
      exact ⟨⟨hdirection, hlocation, htime⟩, rfl, rfl, rfl, hterminal htrip hlocation⟩
    · exact absurd h.symm (Option.some_ne_none s)
  · rintro ⟨⟨hdirection, hlocation, htime⟩, hvehicle, hroute, hbucket, hnear⟩
    obtain ⟨trip, htrip, -⟩ := Option.bind_eq_some_iff.mp hdirection
    have hflag : nearTerminal frames s.lat s.lon (static.tripTerminalLookup trip) =
        s.nearTerminal := by
      rw [Bool.eq_iff_iff, hterminal htrip hlocation, hnear]
    rw [sighting, htrip, hlocation, htime]
    rw [htrip] at hdirection
    rw [hdirection]
    dsimp only
    rw [hflag, ← hvehicle, ← hroute, ← hbucket]

theorem PingFrame.oneSighting (h : PingFrame pings) : OneSighting frames static pings := by
  intro r hr s hs hvehicle htime
  obtain ⟨p, hp, hpr⟩ := List.mem_filterMap.mp hr
  obtain ⟨q, hq, hqs⟩ := List.mem_filterMap.mp hs
  have hpq : p = q := by
    refine h.one p hp q hq ?_ ?_
    · rw [← sighting_vehicleId hpr, ← sighting_vehicleId hqs, hvehicle]
    · rw [sighting_timestampEastern hpr, sighting_timestampEastern hqs, htime]
  rw [hpq] at hpr
  exact Option.some.inj (hpr.symm.trans hqs)

variable (frames) in
theorem exists_sighting {direction : ℤ} {lat lon : ℚ} {t : Time}
    (h : Located static p direction lat lon t) : ∃ s, sighting frames static p = some s ∧
      s.directionId = direction ∧ s.lat = lat ∧ s.lon = lon ∧ s.timestampEastern = t := by
  obtain ⟨trip, htrip, hdirection⟩ := Option.bind_eq_some_iff.mp h.direction
  have hs : sighting frames static p = some
      { vehicleId := p.vehicleId
        routeId := p.routeId
        directionId := direction
        lat := lat
        lon := lon
        timestampEastern := t
        timeBucket := bucket t
        nearTerminal := nearTerminal frames lat lon (static.tripTerminalLookup trip) } := by
    rw [sighting, htrip, h.location, h.time, Option.bind_some, hdirection]
  exact ⟨_, hs, rfl, rfl, rfl, rfl⟩

/-- The rows that are paired are those of the pings that stand for their vehicles. -/
theorem mem_firstSightings_iff_represents (h : PingFrame pings) :
    s ∈ firstSightings frames static pings ↔ ∃ p, sighting frames static p = some s ∧
      Represents static pings p s.directionId s.lat s.lon s.timestampEastern := by
  rw [mem_firstSightings_iff h.oneSighting, List.mem_filterMap]
  constructor
  · rintro ⟨⟨p, hp, hps⟩, hleast⟩
    obtain ⟨hlocated, hvehicle, -, hbucket, -⟩ := sighting_eq_some.mp hps
    refine ⟨p, hps, hp, hlocated, fun q hq hqvehicle direction' lat' lon' t' hq' hsame ↦ ?_⟩
    obtain ⟨r, hr, -, -, -, rfl⟩ := exists_sighting frames hq'
    obtain ⟨-, hrvehicle, -, hrbucket, -⟩ := sighting_eq_some.mp hr
    exact hleast r (List.mem_filterMap.mpr ⟨q, hq, hr⟩)
      (hrvehicle.trans (hqvehicle.trans hvehicle.symm))
      (hrbucket.trans (hsame.trans hbucket.symm))
  · rintro ⟨p, hps, hp, hlocated, hearliest⟩
    obtain ⟨-, hvehicle, -, hbucket, -⟩ := sighting_eq_some.mp hps
    refine ⟨⟨p, hp, hps⟩, fun r hr hrvehicle hrbucket ↦ ?_⟩
    obtain ⟨q, hq, hqr⟩ := List.mem_filterMap.mp hr
    obtain ⟨hq', hqvehicle, -, hqbucket, -⟩ := sighting_eq_some.mp hqr
    exact hearliest q hq (hqvehicle.symm.trans (hrvehicle.trans hvehicle)) _ _ _ _ hq'
      (hqbucket.symm.trans (hrbucket.trans hbucket))

/-! ## The pairs -/

theorem isPair_of_candidate (h : PingFrame pings) {a b : Sighting}
    (hab : (a, b) ∈ candidatePairs (firstSightings frames static pings)) :
    ∃ p q, IsPair frames static pings p q (pairRow frames (a, b)) ∧
      (a.nearTerminal = true ↔ AtTerminal frames static p) ∧
      (b.nearTerminal = true ↔ AtTerminal frames static q) := by
  obtain ⟨ha, hb, hbucket, hroute, hdirection, hlt⟩ := mem_candidatePairs.mp hab
  obtain ⟨p, hp, hpfirst⟩ := (mem_firstSightings_iff_represents h).mp ha
  obtain ⟨q, hq, hqfirst⟩ := (mem_firstSightings_iff_represents h).mp hb
  obtain ⟨-, hpvehicle, hproute, hpbucket, hpnear⟩ := sighting_eq_some.mp hp
  obtain ⟨-, hqvehicle, hqroute, hqbucket, hqnear⟩ := sighting_eq_some.mp hq
  rw [← hdirection] at hqfirst
  refine ⟨p, q, ⟨a.directionId, a.lat, a.lon, a.timestampEastern, b.lat, b.lon, b.timestampEastern,
    hpfirst, hqfirst, ?_, ?_, ?_, ?_⟩, hpnear, hqnear⟩
  · rwa [← hpvehicle, ← hqvehicle]
  · rw [← hproute, ← hqroute, hroute]
  · rw [← hpbucket, ← hqbucket, hbucket]
  · rw [pairRow, ← hpvehicle, ← hqvehicle, ← hproute, ← hpbucket]
    rfl

theorem candidate_of_isPair (h : PingFrame pings) (hrow : IsPair frames static pings p q row) :
    ∃ a b, (a, b) ∈ candidatePairs (firstSightings frames static pings) ∧
      pairRow frames (a, b) = row ∧ (a.nearTerminal = true ↔ AtTerminal frames static p) ∧
      (b.nearTerminal = true ↔ AtTerminal frames static q) := by
  obtain ⟨direction, lat, lon, t, lat', lon', t', hp, hq, hlt, hroute, hbucket, rfl⟩ := hrow
  obtain ⟨a, ha, hadirection, rfl, rfl, rfl⟩ := exists_sighting frames hp.located
  obtain ⟨b, hb, hbdirection, rfl, rfl, rfl⟩ := exists_sighting frames hq.located
  obtain ⟨-, havehicle, haroute, habucket, hanear⟩ := sighting_eq_some.mp ha
  obtain ⟨-, hbvehicle, hbroute, hbbucket, hbnear⟩ := sighting_eq_some.mp hb
  subst hadirection
  refine ⟨a, b, mem_candidatePairs.mpr
    ⟨(mem_firstSightings_iff_represents h).mpr ⟨p, ha, hp⟩,
      (mem_firstSightings_iff_represents h).mpr ⟨q, hb, hbdirection ▸ hq⟩, ?_, ?_, ?_, ?_⟩,
    ?_, hanear, hbnear⟩
  · rw [habucket, hbbucket, hbucket]
  · rw [haroute, hbroute, hroute]
  · exact hbdirection.symm
  · rwa [havehicle, hbvehicle]
  · rw [pairRow, havehicle, hbvehicle, haroute, habucket]
    rfl

theorem mem_close_iff (h : PingFrame pings) :
    row ∈ (findClosePairs frames static pings threshold).1 ↔ ∃ p q,
      IsPair frames static pings p q row ∧ row.distanceMeters ≤ threshold ∧
        ¬(AtTerminal frames static p ∧ AtTerminal frames static q) := by
  rw [mem_findClosePairs.1]
  constructor
  · rintro ⟨a, b, hab, hclose, hstaged, rfl⟩
    obtain ⟨p, q, hpair, hp, hq⟩ := isPair_of_candidate h hab
    rw [Bool.and_eq_true, hp, hq] at hstaged
    exact ⟨p, q, hpair, hclose, hstaged⟩
  · rintro ⟨p, q, hpair, hclose, hstaged⟩
    obtain ⟨a, b, hab, rfl, hp, hq⟩ := candidate_of_isPair h hpair
    refine ⟨a, b, hab, hclose, ?_, rfl⟩
    rwa [Bool.and_eq_true, hp, hq]

theorem mem_far_iff (h : PingFrame pings) :
    row ∈ (findClosePairs frames static pings threshold).2 ↔ ∃ p q,
      IsPair frames static pings p q row ∧ threshold < row.distanceMeters := by
  rw [mem_findClosePairs.2]
  constructor
  · rintro ⟨a, b, hab, hfar, rfl⟩
    obtain ⟨p, q, hpair, -, -⟩ := isPair_of_candidate h hab
    exact ⟨p, q, hpair, hfar⟩
  · rintro ⟨p, q, hpair, hfar⟩
    obtain ⟨a, b, hab, rfl, -, -⟩ := candidate_of_isPair h hpair
    exact ⟨a, b, hab, hfar, rfl⟩

theorem nodup_findClosePairs (frames : Frames) (static : GtfsStaticData) (pings : List Ping)
    (threshold : ℚ) :
    (((findClosePairs frames static pings threshold).1 ++
      (findClosePairs frames static pings threshold).2).map fun row ↦
        (row.vehicleA, row.vehicleB, row.timeBucket)).Nodup := by
  have hfirst : ((firstSightings frames static pings).map fun s ↦
      (s.vehicleId, s.timeBucket)).Nodup := Rows.nodup_map_dropDuplicates
  have hpairs := candidatePairs_nodup hfirst
  rw [findClosePairs]
  dsimp only
  rw [← List.map_append, List.map_map]
  refine ((List.Perm.nodup_iff (List.Perm.map _ (List.filter_append_perm (fun pair ↦
    decide (pairDistance frames pair.1 pair.2 ≤ threshold)) _))).mpr hpairs).sublist ?_
  have hfar : (candidatePairs (firstSightings frames static pings)).filter (fun pair ↦
      decide (threshold < pairDistance frames pair.1 pair.2)) =
      (candidatePairs (firstSightings frames static pings)).filter fun pair ↦
        !decide (pairDistance frames pair.1 pair.2 ≤ threshold) := by
    refine List.filter_congr fun pair _ ↦ ?_
    rw [Bool.eq_iff_iff, Bool.not_eq_true', decide_eq_false_iff_not, not_le, decide_eq_true_iff]
  refine List.Sublist.map _ (List.Sublist.append List.filter_sublist ?_)
  rw [hfar]

theorem IsPair.congr (hmem : ∀ p, p ∈ more ↔ p ∈ pings) :
    IsPair frames static more p q row ↔ IsPair frames static pings p q row := by
  have hrepresents (p : Ping) (direction : ℤ) (lat lon : ℚ) (t : Time) :
      Represents static more p direction lat lon t ↔
        Represents static pings p direction lat lon t := by
    constructor
    · rintro ⟨hp, hlocated, hearliest⟩
      exact ⟨(hmem p).mp hp, hlocated, fun q hq ↦ hearliest q ((hmem q).mpr hq)⟩
    · rintro ⟨hp, hlocated, hearliest⟩
      exact ⟨(hmem p).mpr hp, hlocated, fun q hq ↦ hearliest q ((hmem q).mp hq)⟩
  simp only [IsPair, hrepresents]

/-- **The pairs of a frame are those of its specification**: no vehicle is paired with itself, two
vehicles are paired at most once in a bucket, and neither the order nor the repetition of pings
makes a difference. -/
theorem findClosePairs_spec (frames : Frames) (static : GtfsStaticData) (threshold : ℚ)
    (pings : List Ping) (h : PingFrame pings) :
    (∀ row, row ∈ (findClosePairs frames static pings threshold).1 ↔ ∃ p q,
      IsPair frames static pings p q row ∧ row.distanceMeters ≤ threshold ∧
        ¬(AtTerminal frames static p ∧ AtTerminal frames static q)) ∧
    (∀ row, row ∈ (findClosePairs frames static pings threshold).2 ↔ ∃ p q,
      IsPair frames static pings p q row ∧ threshold < row.distanceMeters) ∧
    (∀ row ∈ (findClosePairs frames static pings threshold).1 ++
      (findClosePairs frames static pings threshold).2, row.vehicleA ≠ row.vehicleB) ∧
    (((findClosePairs frames static pings threshold).1 ++
      (findClosePairs frames static pings threshold).2).map fun row ↦
        (row.vehicleA, row.vehicleB, row.timeBucket)).Nodup ∧
    ∀ more : List Ping, (∀ p, p ∈ more ↔ p ∈ pings) →
      (findClosePairs frames static more threshold).1.Perm
          (findClosePairs frames static pings threshold).1 ∧
        (findClosePairs frames static more threshold).2.Perm
          (findClosePairs frames static pings threshold).2 := by
  refine ⟨fun row ↦ mem_close_iff h, fun row ↦ mem_far_iff h, fun row hrow ↦ ?_,
    nodup_findClosePairs frames static pings threshold, fun more hmem ↦ ?_⟩
  · have hpair : ∃ p q, IsPair frames static pings p q row := by
      rcases List.mem_append.mp hrow with hrow | hrow
      · obtain ⟨p, q, hpair, -⟩ := (mem_close_iff h).mp hrow
        exact ⟨p, q, hpair⟩
      · obtain ⟨p, q, hpair, -⟩ := (mem_far_iff h).mp hrow
        exact ⟨p, q, hpair⟩
    obtain ⟨p, q, direction, lat, lon, t, lat', lon', t', -, -, hlt, -, -, rfl⟩ := hpair
    exact hlt.ne
  · -- the specification speaks of the pings as a set only
    have hmore : PingFrame more := h.congr hmem
    have hnodup := List.nodup_append.mp
      (List.Nodup.of_map _ (nodup_findClosePairs frames static pings threshold))
    have hnodup' := List.nodup_append.mp
      (List.Nodup.of_map _ (nodup_findClosePairs frames static more threshold))
    rw [List.perm_ext_iff_of_nodup hnodup'.1 hnodup.1,
      List.perm_ext_iff_of_nodup hnodup'.2.1 hnodup.2.1]
    constructor
    · intro row
      rw [mem_close_iff hmore, mem_close_iff h]
      simp only [IsPair.congr hmem]
    · intro row
      rw [mem_far_iff hmore, mem_far_iff h]
      simp only [IsPair.congr hmem]

/-- Lookups that know one trip, which runs in one direction. -/
def oneTrip : GtfsStaticData where
  directionLookup trip := if trip = "T" then some 0 else none
  tripTerminalLookup _ := none
  stopTimesLookup _ := none
  stopsLookup _ := none
  tripRouteLookup _ := none
  routesLookup _ := none

/-- Three pings of two vehicles in one poll interval. -/
def sharedInterval : List Ping :=
  [("B", 1, 0), ("A", 0, 0), ("A", 10, 1)].map fun (vehicle, t, lon) ↦
    { vehicleId := vehicle, tripId := some "T", routeId := some "R"
      timestamp := .instant (seconds t), location := some (lon, 0) }

theorem findClosePairs_spec_sharedInterval :
    (findClosePairs meridian oneTrip sharedInterval.reverse 100).1.Perm
        (findClosePairs meridian oneTrip sharedInterval 100).1 ∧
      (findClosePairs meridian oneTrip sharedInterval.reverse 100).2.Perm
        (findClosePairs meridian oneTrip sharedInterval 100).2 :=
  (findClosePairs_spec meridian oneTrip 100 sharedInterval
    ⟨by decide, by decide, by decide⟩).2.2.2.2 sharedInterval.reverse fun _ ↦ List.mem_reverse

/-- The vehicle that was seen twice is paired once, by its first ping. -/
example : (findClosePairs meridian oneTrip sharedInterval 100).1.map
    (fun row ↦ (row.vehicleA, row.vehicleB, row.timeBucket)) = [("A", "B", 0)] := by
  decide +kernel

end GtfsStream.Analytics
