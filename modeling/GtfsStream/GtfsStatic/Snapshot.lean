import GtfsStream.GtfsStatic.LookupSpec
import Mathlib.Order.Bounds.Basic

/-!
# One snapshot or the other

`load` replaces the whole snapshot or leaves it alone, and `reload_if_changed` says which. The new
lookups agree with each other, but for the terminals: these are the rows whose sequences pandas
finds smallest and largest, while the stop times are stored under the whole numbers that the
sequences are cut to. So a trip has its terminals exactly if both ways of reading the sequences lead
to the same stops.

## Extreme rows and extreme numbers

Pandas compares the sequences as texts or as numbers, and `idxmin` returns the label of a row, by
which the row is looked up again. Where rows share a label, the row that is found need not be the
extreme one. So the part on the terminals is about trips whose rows have labels of their own, with
sequences that differ as numbers; the other parts are about all tables.
-/

namespace GtfsStream.Loader

open Dictionary GtfsStatic

variable {py : Python} {dir : Directory} {today now checked : ℤ} {s : GtfsStaticData}
  {tables : Tables} {selection : Selection}

/-! ## Extreme rows -/

section

variable {ρ τ : Type} [LinearOrder τ] {largest : Bool} {f : ρ → τ} {rows : List ρ} {row row' : ρ}

theorem Extreme.value_eq (h : Extreme largest f rows row) (h' : Extreme largest f rows row') :
    f row = f row' := by
  have hle := h.2 row' h'.1
  have hge := h'.2 row h.1
  cases largest with
  | true => exact le_antisymm hge hle
  | false => exact le_antisymm hle hge

theorem Extreme.eq_of_nodup (hnodup : (rows.map f).Nodup) (h : Extreme largest f rows row)
    (h' : Extreme largest f rows row') : row = row' :=
  List.inj_on_of_nodup_map hnodup h.1 h'.1 (h.value_eq h')

end

/-! ## The stops of a row -/

/-- No stop has the id. -/
def Unknown (stops : List StopRow) (stopId : Option String) : Prop :=
  ∀ id, stopId = some id → id = "" ∨ ∀ row ∈ stops, str row.stopId ≠ id

/-- The ids stand for the same stop, or for none. -/
def SameStop (stops : List StopRow) (stopId stopId' : Option String) : Prop :=
  stopId = stopId' ∨ Unknown stops stopId ∧ Unknown stops stopId'

theorem stopEntry_eq_ok {columns : List String} {row : StopRow} {k : String} {info : StopInfo}
    (h : stopEntry py columns row = .ok (k, info)) : str row.stopId = k ∧ info.stopId = k := by
  simp only [stopEntry, bind_eq_ok] at h
  obtain ⟨lat, -, lon, -, h⟩ := h
  obtain ⟨rfl, rfl⟩ := Prod.mk.inj (Except.ok.inj h)
  exact ⟨rfl, rfl⟩

theorem getStop_eq_none_iff {df : Frame StopRow} {stops : StopsLookup}
    (h : buildStopsLookup py df = .ok stops) {stopId : Option String} :
    getStop stops stopId = none ↔ Unknown df.rows stopId := by
  cases stopId with
  | none => exact iff_of_true rfl nofun
  | some id =>
    simp only [getStop, Unknown, Option.some.injEq, forall_eq']
    by_cases hid : id = ""
    · exact iff_of_true (if_pos hid) (Or.inl hid)
    · rw [if_neg hid, or_iff_right hid, Finmap.lookup_eq_none, mem_fill h]
      have hfine := succeeds_buildStopsLookup.mp ⟨_, h⟩
      push Not
      refine forall₂_congr fun row hrow ↦ ?_
      constructor
      · rintro hnone rfl
        obtain ⟨⟨k, info⟩, hentry⟩ := succeeds_stopEntry.mpr (hfine row hrow)
        obtain ⟨rfl, -⟩ := stopEntry_eq_ok hentry
        exact hnone info hentry
      · intro hne info hentry
        exact hne (stopEntry_eq_ok hentry).1

theorem stopId_of_getStop {df : Frame StopRow} {stops : StopsLookup}
    (h : buildStopsLookup py df = .ok stops) {stopId : Option String} {info : StopInfo}
    (hstop : getStop stops stopId = some info) : stopId = some info.stopId := by
  cases stopId with
  | none => cases hstop
  | some id =>
    rw [getStop] at hstop
    by_cases hid : id = ""
    · rw [if_pos hid] at hstop
      cases hstop
    · rw [if_neg hid, lookup_fill h] at hstop
      obtain ⟨before, row, after, -, hentry, -⟩ := hstop
      rw [(stopEntry_eq_ok hentry).2]

/-- Two ids give the same stop exactly if they stand for the same one. -/
theorem getStop_eq_iff {df : Frame StopRow} {stops : StopsLookup}
    (h : buildStopsLookup py df = .ok stops) {stopId stopId' : Option String} :
    getStop stops stopId = getStop stops stopId' ↔ SameStop df.rows stopId stopId' := by
  rw [SameStop, ← getStop_eq_none_iff h, ← getStop_eq_none_iff h]
  constructor
  · intro heq
    cases hstop : getStop stops stopId with
    | none => exact Or.inr ⟨rfl, heq.symm.trans hstop⟩
    | some info =>
      left
      rw [stopId_of_getStop h hstop, stopId_of_getStop h (heq.symm.trans hstop)]
  · rintro (rfl | ⟨hnone, hnone'⟩)
    · rfl
    · rw [hnone, hnone']

/-! ## The stop times of a trip -/

/-- The number that the sequence is cut to. -/
def StopTimeRow.sequence (py : Python) (row : StopTimeRow) : ℤ :=
  (row.stopSequence.toInt py).toOption.getD 0

theorem StopTimeRow.Fine.toInt_eq {row : StopTimeRow} (h : row.Fine py) :
    row.stopSequence.toInt py = .ok (row.sequence py) := by
  obtain ⟨⟨n, hn, -⟩, -⟩ := h
  rw [StopTimeRow.sequence, hn]
  rfl

theorem stopTimeEntry_eq_ok {columns : List String} {row : StopTimeRow} {key : String × ℤ}
    {scheduled : ScheduledStopTime} (h : stopTimeEntry py columns row = .ok (key, scheduled)) :
    key = (str row.tripId, row.sequence py) ∧ scheduled.stopId = row.stop columns := by
  have hfine : row.Fine py := succeeds_stopTimeEntry.mp ⟨_, h⟩
  simp only [stopTimeEntry, bind_eq_ok, hfine.toInt_eq] at h
  obtain ⟨n, hn, h⟩ := h
  obtain rfl := Except.ok.inj hn
  by_cases hneg : row.sequence py < 0
  · rw [if_pos hneg] at h
    cases h
  · rw [if_neg hneg] at h
    simp only [bind_eq_ok] at h
    obtain ⟨a, -, d, -, h⟩ := h
    obtain ⟨rfl, rfl⟩ := Prod.mk.inj (Except.ok.inj h)
    exact ⟨rfl, rfl⟩

/-- A text that pandas does not read as a missing value is the id of the rows with this text. -/
theorem str_eq_iff {value : Option String} {t : String} (ht : t ≠ "nan") :
    str value = t ↔ value = some t := by
  cases value with
  | none => exact iff_of_false ht.symm nofun
  | some t' => exact Option.some_inj.symm

/-- The row is the last one of those with its number. -/
def LastOfNumber (py : Python) (rows : List StopTimeRow) (row : StopTimeRow) : Prop :=
  ∃ before after, rows = before ++ row :: after ∧ ∀ r ∈ after, r.sequence py ≠ row.sequence py

section

variable {df : Frame StopTimeRow} {times : StopTimesLookup} {t : String} {n : ℤ}

theorem mem_stopTimes (h : buildStopTimesLookup py df = .ok times) (ht : t ≠ "nan") :
    (t, n) ∈ times ↔ ∃ row ∈ tripRows df.rows t, row.sequence py = n := by
  have hfine := succeeds_buildStopTimesLookup.mp ⟨_, h⟩
  rw [mem_fill h]
  constructor
  · rintro ⟨row, hrow, scheduled, hentry⟩
    obtain ⟨htrip, hnumber⟩ := Prod.mk.inj (stopTimeEntry_eq_ok hentry).1
    exact ⟨row, List.mem_filter.mpr ⟨hrow, decide_eq_true ((str_eq_iff ht).mp htrip.symm)⟩,
      hnumber.symm⟩
  · rintro ⟨row, hrow, rfl⟩
    obtain ⟨hrow, htrip⟩ := List.mem_filter.mp hrow
    obtain ⟨⟨key, scheduled⟩, hentry⟩ := succeeds_stopTimeEntry.mpr (hfine row hrow)
    refine ⟨row, hrow, scheduled, ?_⟩
    rw [hentry, (stopTimeEntry_eq_ok hentry).1, (str_eq_iff ht).mpr (of_decide_eq_true htrip)]

theorem lastEntry_stopTimes (h : buildStopTimesLookup py df = .ok times) (ht : t ≠ "nan")
    {scheduled : ScheduledStopTime} (hlookup : times.lookup (t, n) = some scheduled) :
    ∃ last, LastOfNumber py (tripRows df.rows t) last ∧ last.sequence py = n ∧
      scheduled.stopId = last.stop df.columns := by
  have hsucceeds : ∀ row ∈ df.rows, Succeeds (stopTimeEntry py df.columns row) :=
    succeeds_fill.mp ⟨_, h⟩
  rw [lookup_fill h, ← lastEntry_filter (p := fun row ↦ row.tripId = some t) ?_ hsucceeds]
    at hlookup
  · obtain ⟨before, last, after, hrows, hentry, hafter⟩ := hlookup
    obtain ⟨hkey, hstop⟩ := stopTimeEntry_eq_ok hentry
    obtain ⟨-, hnumber⟩ := Prod.mk.inj hkey
    refine ⟨last, ⟨before, after, hrows, fun r hr hrnumber ↦ ?_⟩, hnumber.symm, hstop⟩
    have hmem : r ∈ tripRows df.rows t := by
      rw [tripRows, hrows]
      exact List.mem_append_right _ (List.mem_cons_of_mem last hr)
    obtain ⟨hmem, htrip⟩ := List.mem_filter.mp hmem
    obtain ⟨⟨key, later⟩, hlater⟩ := hsucceeds r hmem
    refine hafter r hr later ?_
    rw [hlater, (stopTimeEntry_eq_ok hlater).1, hrnumber, ← hnumber,
      (str_eq_iff ht).mpr (of_decide_eq_true htrip)]
  · intro row _ scheduled hentry
    exact (str_eq_iff ht).mp (Prod.mk.inj (stopTimeEntry_eq_ok hentry).1).1.symm

theorem lookup_stopTimes_of_last (h : buildStopTimesLookup py df = .ok times) (ht : t ≠ "nan")
    {last : StopTimeRow} (hlast : LastOfNumber py (tripRows df.rows t) last) :
    ∃ scheduled, times.lookup (t, last.sequence py) = some scheduled ∧
      scheduled.stopId = last.stop df.columns := by
  have hsucceeds : ∀ row ∈ df.rows, Succeeds (stopTimeEntry py df.columns row) :=
    succeeds_fill.mp ⟨_, h⟩
  obtain ⟨before, after, hrows, hafter⟩ := hlast
  have hmem : last ∈ tripRows df.rows t := by
    rw [hrows]
    exact List.mem_append_right _ List.mem_cons_self
  obtain ⟨hmem, htrip⟩ := List.mem_filter.mp hmem
  obtain ⟨⟨key, scheduled⟩, hentry⟩ := hsucceeds last hmem
  obtain ⟨hkey, hstop⟩ := stopTimeEntry_eq_ok hentry
  rw [(str_eq_iff ht).mpr (of_decide_eq_true htrip)] at hkey
  refine ⟨scheduled, ?_, hstop⟩
  rw [lookup_fill h, ← lastEntry_filter (p := fun row ↦ row.tripId = some t) ?_ hsucceeds]
  · refine ⟨before, last, after, hrows, hkey ▸ hentry, fun r hr later hlater ↦ ?_⟩
    exact hafter r hr (Prod.mk.inj (stopTimeEntry_eq_ok hlater).1).2.symm
  · intro row _ scheduled hentry
    exact (str_eq_iff ht).mp (Prod.mk.inj (stopTimeEntry_eq_ok hentry).1).1.symm

end

/-! ## The terminals of a trip -/

/-- The label of the row is that of no other row. -/
def OwnLabel (rows : List StopTimeRow) (row : StopTimeRow) : Prop :=
  rows.filter (·.label = row.label) = [row]

section

variable {df : Frame StopTimeRow} {stops : StopsLookup} {terminals : TerminalLookup} {t : String}
  {largest : Bool}

/-- Where the first and last rows of the trips have labels of their own, they are the rows that are
looked up. -/
theorem bestRows_eq (hrows : ∀ row ∈ df.rows, row.stopSequence ≠ .missing)
    (hcomparable : Comparable df.rows)
    (hlabel : ∀ t row, Extreme largest StopTimeRow.rank (tripRows df.rows t) row →
      OwnLabel df.rows row) :
    ∃ best : String × List StopTimeRow → StopTimeRow,
      (∀ group ∈ Rows.groupBy (· ≤ ·) StopTimeRow.tripId df.rows,
        Extreme largest StopTimeRow.rank (tripRows df.rows group.1) (best group)) ∧
      bestRows largest df =
        .ok ((Rows.groupBy (· ≤ ·) StopTimeRow.tripId df.rows).map best) := by
  have hbest (group : String × List StopTimeRow) : ∃ row,
      group ∈ Rows.groupBy (· ≤ ·) StopTimeRow.tripId df.rows →
        Extreme largest StopTimeRow.rank (tripRows df.rows group.1) row ∧
          idxBest largest group.2 = .ok row.label := by
    by_cases hgroup : group ∈ Rows.groupBy (· ≤ ·) StopTimeRow.tripId df.rows
    · obtain ⟨heq, hne⟩ := mem_groupBy_tripId.mp hgroup
      obtain ⟨row, hrow⟩ := idxBest_of_uniform largest hne
        (fun row hr ↦ hrows row (List.mem_of_mem_filter hr)) (hcomparable group.1)
      rw [heq]
      exact ⟨row, fun _ ↦ hrow⟩
    · exact ⟨⟨.number 0, none, .missing, none, .missing, .missing⟩, fun h ↦ absurd h hgroup⟩
  choose best hbest using hbest
  refine ⟨best, fun group hgroup ↦ (hbest group hgroup).1, ?_⟩
  rw [bestRows, mapM_eq_ok fun group hgroup ↦ (hbest group hgroup).2]
  change Except.ok (((Rows.groupBy (· ≤ ·) StopTimeRow.tripId df.rows).map
    fun group ↦ (best group).label).flatMap fun label ↦ df.rows.filter (·.label = label)) = _
  rw [List.flatMap_map, List.map_eq_flatMap]
  refine congrArg _ (List.flatMap_congr fun group hgroup ↦ ?_)
  exact hlabel group.1 (best group) (hbest group hgroup).1

/-- **The terminals are the stops of the extreme rows.** -/
theorem lookup_terminals (h : buildTripTerminalLookup df stops = .ok terminals)
    (hrows : ∀ row ∈ df.rows, row.stopSequence ≠ .missing) (hcomparable : Comparable df.rows)
    (hlabel : ∀ largest t row, Extreme largest StopTimeRow.rank (tripRows df.rows t) row →
      OwnLabel df.rows row) (ht : tripRows df.rows t ≠ []) :
    ∃ first last, Extreme false StopTimeRow.rank (tripRows df.rows t) first ∧
      Extreme true StopTimeRow.rank (tripRows df.rows t) last ∧
      terminals.lookup t =
        some (getStop stops (first.stop df.columns), getStop stops (last.stop df.columns)) := by
  obtain ⟨first, hfirst, hfirstRows⟩ := bestRows_eq hrows hcomparable (hlabel false)
  obtain ⟨last, hlast, hlastRows⟩ := bestRows_eq hrows hcomparable (hlabel true)
  have hgroup : (t, tripRows df.rows t) ∈ Rows.groupBy (· ≤ ·) StopTimeRow.tripId df.rows :=
    mem_groupBy_tripId.mpr ⟨rfl, ht⟩
  have hkey (group) (hgroup : group ∈ Rows.groupBy (· ≤ ·) StopTimeRow.tripId df.rows) :
      str (first group).tripId = group.1 := by
    rw [of_decide_eq_true (List.mem_filter.mp (hfirst group hgroup).1).2]
    rfl
  refine ⟨_, _, hfirst _ hgroup, hlast _ hgroup, ?_⟩
  rw [buildTripTerminalLookup, hfirstRows, hlastRows] at h
  replace h : fill (terminalEntry df.columns stops) (List.zip _ _) = .ok terminals := h
  rw [List.zip_map'] at h
  rw [lookup_fill h]
  -- the trip has one group, so no later pair of rows is stored under it
  obtain ⟨before, after, hsplit⟩ := List.append_of_mem hgroup
  have hnodup : ((Rows.groupBy (· ≤ ·) StopTimeRow.tripId df.rows).map Prod.fst).Nodup :=
    Rows.nodup_keys_groupBy
  rw [hsplit, List.map_append, List.map_cons, List.nodup_middle, List.nodup_cons,
    List.mem_append, not_or] at hnodup
  refine ⟨_, _, _, (congrArg (List.map _) hsplit).trans List.map_append, ?_, ?_⟩
  · exact congrArg (fun k ↦ Except.ok (k, _)) (hkey _ hgroup)
  · intro rows hrows' v hv
    obtain ⟨group, hafter, rfl⟩ := List.mem_map.mp hrows'
    have hmem : group ∈ Rows.groupBy (· ≤ ·) StopTimeRow.tripId df.rows := by
      rw [hsplit]
      exact List.mem_append_right _ (List.mem_cons_of_mem _ hafter)
    obtain ⟨hk, -⟩ := Prod.mk.inj (Except.ok.inj hv)
    rw [hkey group hmem] at hk
    exact hnodup.1.2 (List.mem_map.mpr ⟨group, hafter, hk⟩)

/-- Whatever the labels are, the trips with terminals are those of rows. -/
theorem exists_row_of_mem_terminals (h : buildTripTerminalLookup df stops = .ok terminals)
    (ht : t ∈ terminals) : ∃ row ∈ df.rows, str row.tripId = t := by
  simp only [buildTripTerminalLookup, bind_eq_ok] at h
  obtain ⟨firstRows, hfirst, lastRows, -, h⟩ := h
  obtain ⟨rows, hrows, v, hv⟩ := (mem_fill h).mp ht
  refine ⟨rows.1, ?_, (Prod.mk.inj (Except.ok.inj hv)).1⟩
  simp only [bestRows, bind_eq_ok] at hfirst
  obtain ⟨labels, -, hfirst⟩ := hfirst
  have hmem := (List.of_mem_zip hrows).1
  rw [← Except.ok.inj hfirst] at hmem
  obtain ⟨label, -, hmem⟩ := List.mem_flatMap.mp hmem
  exact List.mem_of_mem_filter hmem

end

/-! ## The snapshot -/

/-- The stop of a scheduled stop time. -/
def GtfsStaticData.stopAt (s : GtfsStaticData) (key : String × ℤ) : Option StopInfo :=
  getStop s.stopsLookup ((s.stopTimesLookup.lookup key).bind ScheduledStopTime.stopId)

/-- The terminals of the trip are the stops of its smallest and its largest sequence. -/
def GtfsStaticData.HasTerminals (s : GtfsStaticData) (t : String) : Prop :=
  ∃ first last, s.tripTerminalLookup.lookup t = some (first, last) ∧
    (∀ lo, IsLeast {n | (t, n) ∈ s.stopTimesLookup} lo → first = s.stopAt (t, lo)) ∧
    ∀ hi, IsGreatest {n | (t, n) ∈ s.stopTimesLookup} hi → last = s.stopAt (t, hi)

/-- The trips in the lookups. -/
def GtfsStaticData.trips (s : GtfsStaticData) : Set String :=
  {t | (∃ n, (t, n) ∈ s.stopTimesLookup) ∨ t ∈ s.directionLookup ∨ t ∈ s.tripRouteLookup ∨
    t ∈ s.tripTerminalLookup}

/-- The sequences of a trip are distinct. -/
def DistinctSequences (rows : List StopTimeRow) : Prop := (rows.map StopTimeRow.rank).Nodup

/-- The parts of a snapshot that was loaded from the directory agree with each other. -/
structure Consistent (py : Python) (dir : Directory) (today now : ℤ) (s : GtfsStaticData) :
    Prop where
  version : ∃ version, computeVersion py dir = .ok version ∧ s.currentVersion = some version
  serviceDate : s.currentServiceDate = some today
  loadedAt : s.loadedAt = some now
  active : ∀ tables active, Opens dir tables →
    filterServices py dir today tables = .ok (some active) →
    ∀ t ∈ s.trips, ∃ row ∈ tables.trips.rows, str row.tripId = t ∧ row.serviceId.isIn active = true
  terminals : ∀ tables selection, Opens dir tables →
    selectRows py dir today tables = .ok selection →
    ∀ t ≠ "nan", tripRows selection.stopTimes.rows t ≠ [] →
      DistinctSequences (tripRows selection.stopTimes.rows t) → s.HasTerminals t

/-- `load` raises and changes nothing, whatever the snapshot is, or replaces all of it by
consistent values; and `reload_if_changed` returns `True` if it has loaded, and otherwise changes
nothing. -/
structure AllOrNothing (py : Python) (dir : Directory) (today now : ℤ) : Prop where
  load : (∃ e, ∀ s, outcome (load py dir today now) s = (.error e, s)) ∨
    ∃ s', (∀ s, outcome (load py dir today now) s = (.ok (), s')) ∧ Consistent py dir today now s'
  reload : ∀ checked s,
    (outcome (reloadIfChanged py dir today checked now) s).1 = .ok true ∧
      outcome (Loader.load py dir today now) s =
        (.ok (), (outcome (reloadIfChanged py dir today checked now) s).2) ∨
    (outcome (reloadIfChanged py dir today checked now) s).1 ≠ .ok true ∧
      (outcome (reloadIfChanged py dir today checked now) s).2 = s

/-- The row whose sequence is smallest, or largest, and the last row of those whose number is,
name the same stop. -/
def SameTerminal (py : Python) (tables : Tables) (largest : Bool) (rows : List StopTimeRow) :
    Prop :=
  ∀ row last, Extreme largest StopTimeRow.rank rows row →
    Extreme largest (StopTimeRow.sequence py) rows last → LastOfNumber py rows last →
    SameStop tables.stops.rows (row.stop tables.stopTimes.columns)
      (last.stop tables.stopTimes.columns)

/-- In every trip with distinct sequences both ways of reading them lead to the same terminals. -/
def TerminalsAgree (py : Python) (dir : Directory) (today : ℤ) : Prop :=
  ∀ tables selection, Acceptable py dir today tables selection →
    ∀ t ≠ "nan", DistinctSequences (tripRows selection.stopTimes.rows t) →
      ∀ largest, SameTerminal py tables largest (tripRows selection.stopTimes.rows t)

/-- The first and the last row of each trip have labels of their own, as they do if the rows are
labelled by their positions. -/
def OwnLabels (py : Python) (dir : Directory) (today : ℤ) : Prop :=
  ∀ tables selection, Acceptable py dir today tables selection →
    ∀ largest t row, Extreme largest StopTimeRow.rank (tripRows selection.stopTimes.rows t) row →
      OwnLabel selection.stopTimes.rows row

/-! ## The terminals of a loaded snapshot -/

theorem buildLookups_eq_ok {built : Built}
    (h : buildLookups py dir tables selection = .ok built) :
    buildDirectionLookup py selection.trips = .ok built.directionLookup ∧
      buildStopTimesLookup py selection.stopTimes = .ok built.stopTimesLookup ∧
      buildStopsLookup py tables.stops = .ok built.stopsLookup ∧
      buildTripTerminalLookup selection.stopTimes built.stopsLookup =
        .ok built.tripTerminalLookup ∧
      buildTripRouteLookup selection.trips = .ok built.tripRouteLookup ∧
      computeVersion py dir = .ok built.version := by
  simp only [buildLookups, bind_eq_ok] at h
  obtain ⟨directions, hdirections, times, htimes, stops, hstops, terminals, hterminals, routes,
    -, tripRoutes, htripRoutes, version, hversion, h⟩ := h
  obtain rfl := Except.ok.inj h
  exact ⟨hdirections, htimes, hstops, hterminals, htripRoutes, hversion⟩

/-- The smallest or the largest number. -/
def IsBound (largest : Bool) (S : Set ℤ) (n : ℤ) : Prop :=
  if largest then IsGreatest S n else IsLeast S n

section

variable {largest : Bool} {t : String} {n : ℤ} {built : Built}

/-- The bounds of the numbers of a trip are the numbers of its extreme rows. -/
theorem isBound_iff {df : Frame StopTimeRow} {times : StopTimesLookup} {row : StopTimeRow}
    (h : buildStopTimesLookup py df = .ok times) (ht : t ≠ "nan")
    (hrow : row ∈ tripRows df.rows t) :
    IsBound largest {n | (t, n) ∈ times} (row.sequence py) ↔
      Extreme largest (StopTimeRow.sequence py) (tripRows df.rows t) row := by
  have hmem : row.sequence py ∈ {n | (t, n) ∈ times} := (mem_stopTimes h ht).mpr ⟨row, hrow, rfl⟩
  have hforall (P : ℤ → Prop) : (∀ n ∈ {n | (t, n) ∈ times}, P n) ↔
      ∀ r ∈ tripRows df.rows t, P (r.sequence py) := by
    constructor
    · exact fun hP r hr ↦ hP _ ((mem_stopTimes h ht).mpr ⟨r, hr, rfl⟩)
    · rintro hP n hn
      obtain ⟨r, hr, rfl⟩ := (mem_stopTimes h ht).mp hn
      exact hP r hr
  cases largest with
  | true =>
    change IsGreatest _ _ ↔ _ ∧ ∀ r ∈ tripRows df.rows t, r.sequence py ≤ row.sequence py
    rw [IsGreatest, and_iff_right hmem, and_iff_right hrow]
    exact hforall (· ≤ row.sequence py)
  | false =>
    change IsLeast _ _ ↔ _ ∧ ∀ r ∈ tripRows df.rows t, row.sequence py ≤ r.sequence py
    rw [IsLeast, and_iff_right hmem, and_iff_right hrow]
    exact hforall (row.sequence py ≤ ·)

/-- The terminal that is looked up is that of the stop times exactly if both rows name the same
stop. -/
theorem terminal_eq_iff (today now : ℤ)
    (h : buildLookups py dir tables selection = .ok built)
    (hcolumns : selection.stopTimes.columns = tables.stopTimes.columns) (ht : t ≠ "nan")
    (hdistinct : DistinctSequences (tripRows selection.stopTimes.rows t)) {row : StopTimeRow}
    (hrow : Extreme largest StopTimeRow.rank (tripRows selection.stopTimes.rows t) row) :
    (∀ n, IsBound largest {n | (t, n) ∈ built.stopTimesLookup} n →
      getStop built.stopsLookup (row.stop tables.stopTimes.columns) =
        (built.snapshot today now).stopAt (t, n)) ↔
      SameTerminal py tables largest (tripRows selection.stopTimes.rows t) := by
  obtain ⟨-, htimes, hstops, -⟩ := buildLookups_eq_ok h
  constructor
  · intro hall row' last hrow' hlast hlastOf
    obtain rfl := hrow.eq_of_nodup hdistinct hrow'
    obtain ⟨scheduled, hlookup, hstop⟩ := lookup_stopTimes_of_last htimes ht hlastOf
    have heq := hall _ ((isBound_iff htimes ht hlast.1).mpr hlast)
    rw [GtfsStaticData.stopAt, show (built.snapshot today now).stopTimesLookup.lookup _ = _ from
      hlookup, Option.bind_some, hstop, hcolumns] at heq
    exact (getStop_eq_iff hstops).mp heq
  · intro hsame n hn
    have hmem : (t, n) ∈ built.stopTimesLookup := by
      cases largest with
      | true => exact And.left hn
      | false => exact And.left hn
    obtain ⟨scheduled, hlookup⟩ := Option.ne_none_iff_exists'.mp
      (mt Finmap.lookup_eq_none.mp (not_not_intro hmem))
    obtain ⟨last, hlastOf, rfl, hstop⟩ := lastEntry_stopTimes htimes ht hlookup
    obtain ⟨before, after, hrows, -⟩ := id hlastOf
    have hlast : last ∈ tripRows selection.stopTimes.rows t := by
      rw [hrows]
      exact List.mem_append_right _ List.mem_cons_self
    rw [GtfsStaticData.stopAt, show (built.snapshot today now).stopTimesLookup.lookup _ = _ from
      hlookup, Option.bind_some, hstop, hcolumns]
    exact (getStop_eq_iff hstops).mpr
      (hsame row last hrow ((isBound_iff htimes ht hlast).mp hn) hlastOf)

theorem hasTerminals_iff (h : buildLookups py dir tables selection = .ok built)
    (hacceptable : Acceptable py dir today tables selection)
    (hlabel : ∀ largest t row,
      Extreme largest StopTimeRow.rank (tripRows selection.stopTimes.rows t) row →
        OwnLabel selection.stopTimes.rows row) (ht : t ≠ "nan")
    (hne : tripRows selection.stopTimes.rows t ≠ [])
    (hdistinct : DistinctSequences (tripRows selection.stopTimes.rows t)) :
    (built.snapshot today now).HasTerminals t ↔
      ∀ largest, SameTerminal py tables largest (tripRows selection.stopTimes.rows t) := by
  have hcolumns := (selection_columns hacceptable.selected).2
  obtain ⟨-, -, -, hterminals, -⟩ := buildLookups_eq_ok h
  obtain ⟨first, last, hfirst, hlast, hlookup⟩ := lookup_terminals hterminals
    (fun row hr ↦ (hacceptable.stopTimes row hr).not_missing) hacceptable.comparable hlabel hne
  rw [hcolumns] at hlookup
  rw [Bool.forall_bool, ← terminal_eq_iff today now h hcolumns ht hdistinct
    hfirst, ← terminal_eq_iff today now h hcolumns ht hdistinct hlast]
  constructor
  · rintro ⟨first', last', hlookup', hlo, hhi⟩
    obtain ⟨rfl, rfl⟩ := Prod.mk.inj (Option.some.inj (hlookup.symm.trans hlookup'))
    exact ⟨hlo, hhi⟩
  · rintro ⟨hlo, hhi⟩
    exact ⟨_, _, hlookup, hlo, hhi⟩

end

/-! ## The active trips -/

theorem directionEntry_eq_ok {tripId key : String} {cell : Cell} {direction : ℤ}
    (h : directionEntry py tripId cell = .ok (key, direction)) :
    key = tripId ∧ cell.isZeroOrOne = true ∧ cell.toInt py = .ok direction := by
  simp only [directionEntry, bind_eq_ok] at h
  obtain ⟨n, hn, h⟩ := h
  cases hcell : cell.isZeroOrOne with
  | false =>
    rw [hcell] at h
    cases h
  | true =>
    rw [hcell] at h
    obtain ⟨rfl, rfl⟩ := Prod.mk.inj (Except.ok.inj h)
    exact ⟨rfl, rfl, hn⟩

theorem exists_of_mem_directionRows {df : Frame TripRow} {pair : String × Cell}
    (h : pair ∈ directionRows df) :
    ∃ row ∈ df.rows, row.tripId = some pair.1 ∧ row.directionId = pair.2 := by
  obtain ⟨row, hrow, heq⟩ := List.mem_filterMap.mp h
  split_ifs at heq
  obtain ⟨t, hid, rfl⟩ := Option.map_eq_some_iff.mp heq
  exact ⟨row, hrow, hid, rfl⟩

theorem direction_trip {df : Frame TripRow} {directions : Dict String ℤ} {t : String}
    (h : buildDirectionLookup py df = .ok directions) (ht : t ∈ directions) :
    ∃ row ∈ df.rows, row.tripId = some t := by
  obtain ⟨pair, hpair, v, hv⟩ := (mem_fill h).mp ht
  obtain ⟨row, hrow, hid, -⟩ := exists_of_mem_directionRows hpair
  obtain ⟨rfl, -⟩ := directionEntry_eq_ok hv
  exact ⟨row, hrow, hid⟩

theorem tripRoute_trip {df : Frame TripRow} {tripRoutes : Dict String String} {t : String}
    (h : buildTripRouteLookup df = .ok tripRoutes) (ht : t ∈ tripRoutes) :
    ∃ row ∈ df.rows, row.tripId = some t := by
  rw [buildTripRouteLookup] at h
  split_ifs at h
  obtain ⟨pair, hpair, v, hv⟩ := (mem_fill h).mp ht
  obtain ⟨trip, htrip, heq⟩ := List.mem_filterMap.mp hpair
  obtain ⟨t', hid, heq⟩ := Option.bind_eq_some_iff.mp heq
  obtain ⟨r, -, rfl⟩ := Option.map_eq_some_iff.mp heq
  obtain ⟨rfl, -⟩ := Prod.mk.inj (Except.ok.inj hv)
  exact ⟨trip, htrip, hid⟩

theorem stopTimes_trip {df : Frame StopTimeRow} {times : StopTimesLookup} {key : String × ℤ}
    (h : buildStopTimesLookup py df = .ok times) (hkey : key ∈ times) :
    ∃ row ∈ df.rows, str row.tripId = key.1 := by
  obtain ⟨row, hrow, v, hv⟩ := (mem_fill h).mp hkey
  exact ⟨row, hrow, (congrArg Prod.fst (stopTimeEntry_eq_ok hv).1).symm⟩

/-- **Where the trips are filtered, each trip in a lookup is one of an active service.** -/
theorem active_of_mem_trips {built : Built} {active : Finset String} {t : String}
    (hfilter : filterServices py dir today tables = .ok (some active))
    (hselection : selectRows py dir today tables = .ok selection)
    (h : buildLookups py dir tables selection = .ok built)
    (ht : t ∈ (built.snapshot today now).trips) :
    ∃ row ∈ tables.trips.rows, str row.tripId = t ∧ row.serviceId.isIn active = true := by
  obtain rfl : selection = keepActive tables active := by
    rcases selectRows_eq_ok_iff.mp hselection with ⟨active', hfilter', rfl⟩ | ⟨hfilter', -, -⟩
    · rw [Option.some.inj (Except.ok.inj (hfilter.symm.trans hfilter'))]
    · exact nomatch Except.ok.inj (hfilter.symm.trans hfilter')
  obtain ⟨hdirections, htimes, hstops, hterminals, htripRoutes, -⟩ := buildLookups_eq_ok h
  have htrip {id : Option String} (hid : ∃ row ∈ (keepActive tables active).trips.rows,
      row.tripId = id) : ∃ row ∈ tables.trips.rows, str row.tripId = str id ∧
        row.serviceId.isIn active = true := by
    obtain ⟨row, hrow, rfl⟩ := hid
    obtain ⟨hrow, hactive⟩ := List.mem_filter.mp hrow
    exact ⟨row, hrow, rfl, hactive⟩
  -- a stop time is kept if its trip is
  have hstopTime (hrow : ∃ row ∈ (keepActive tables active).stopTimes.rows,
      str row.tripId = t) : ∃ row ∈ tables.trips.rows, str row.tripId = t ∧
        row.serviceId.isIn active = true := by
    obtain ⟨row, hrow, rfl⟩ := hrow
    exact htrip (List.mem_map.mp (of_decide_eq_true (List.mem_filter.mp hrow).2))
  rcases ht with ⟨n, ht⟩ | ht | ht | ht
  · exact hstopTime (stopTimes_trip htimes ht)
  · exact htrip (direction_trip hdirections ht)
  · exact htrip (tripRoute_trip htripRoutes ht)
  · exact hstopTime (exists_row_of_mem_terminals hterminals ht)

/-! ## Reloading -/

/-- What `has_changed` computes. -/
def changed (py : Python) (dir : Directory) (s : GtfsStaticData) : Except LoadError Bool :=
  s.currentVersion.elim (.ok true) fun current ↦
    (computeVersion py dir).map fun version ↦ decide (version ≠ current)

theorem outcome_hasChanged : outcome (hasChanged py dir) s = (changed py dir s, s) := by
  rw [hasChanged, outcome_bind_of_ok
    (show outcome (get : LoaderM GtfsStaticData) s = (.ok s, s) from rfl), changed]
  cases s.currentVersion with
  | none => rfl
  | some current =>
    dsimp only [Option.elim_some]
    cases computeVersion py dir <;> rfl

/-- The service date is another one than that of the snapshot. -/
def Stale (checked : ℤ) (s : GtfsStaticData) : Prop :=
  s.currentServiceDate ≠ none ∧ s.currentServiceDate ≠ some checked

instance : DecidableRel Stale := fun _ _ ↦ inferInstanceAs (Decidable (_ ∧ _))

/-- Whether a reload is due: the version is another one, or the service date is. -/
def due (py : Python) (dir : Directory) (checked : ℤ) (s : GtfsStaticData) :
    Except LoadError Bool :=
  (changed py dir s).map (· || decide (Stale checked s))

theorem outcome_needsReload :
    outcome (needsReload py dir checked) s = (due py dir checked s, s) := by
  rw [needsReload, due]
  cases h : changed py dir s with
  | error e => exact outcome_bind_of_error (outcome_hasChanged.trans (congrArg (·, s) h))
  | ok changedValue =>
    rw [outcome_bind_of_ok (outcome_hasChanged.trans (congrArg (·, s) h))]
    cases changedValue <;> rfl

theorem outcome_reloadIfChanged_of_error {e : LoadError} (h : due py dir checked s = .error e) :
    outcome (reloadIfChanged py dir today checked now) s = (.error e, s) :=
  outcome_bind_of_error (outcome_needsReload.trans (congrArg (·, s) h))

theorem outcome_reloadIfChanged_of_not_due (h : due py dir checked s = .ok false) :
    outcome (reloadIfChanged py dir today checked now) s = (.ok false, s) := by
  rw [reloadIfChanged, outcome_bind_of_ok (outcome_needsReload.trans (congrArg (·, s) h))]
  rfl

theorem outcome_reloadIfChanged_of_due (h : due py dir checked s = .ok true) :
    outcome (reloadIfChanged py dir today checked now) s =
      outcome (exceptCaught (do load py dir today now; return true) (return false)) s := by
  rw [reloadIfChanged, outcome_bind_of_ok (outcome_needsReload.trans (congrArg (·, s) h))]
  rfl

theorem outcome_loadThenTrue_of_ok {built : Built} (h : rebuild py dir today = .ok built) :
    outcome (exceptCaught (do load py dir today now; return true) (return false)) s =
      (.ok true, built.snapshot today now) :=
  outcome_exceptCaught_of_ok (outcome_bind_of_ok (outcome_load_of_ok h))

theorem outcome_loadThenTrue_of_error {e : LoadError} (h : rebuild py dir today = .error e) :
    outcome (exceptCaught (do load py dir today now; return true) (return false)) s =
      if e.isCaught then (.ok false, s) else (.error e, s) :=
  outcome_exceptCaught_of_error (outcome_bind_of_error (outcome_load_of_error h))

/-- **`reload_if_changed` returns `True` if it has loaded**, and changes nothing otherwise. -/
theorem outcome_reloadIfChanged (py : Python) (dir : Directory) (today checked now : ℤ)
    (s : GtfsStaticData) :
    (outcome (reloadIfChanged py dir today checked now) s).1 = .ok true ∧
      outcome (load py dir today now) s =
        (.ok (), (outcome (reloadIfChanged py dir today checked now) s).2) ∨
    (outcome (reloadIfChanged py dir today checked now) s).1 ≠ .ok true ∧
      (outcome (reloadIfChanged py dir today checked now) s).2 = s := by
  cases hdue : due py dir checked s with
  | error e =>
    rw [outcome_reloadIfChanged_of_error hdue]
    exact Or.inr ⟨nofun, rfl⟩
  | ok dueValue =>
    cases dueValue with
    | false =>
      rw [outcome_reloadIfChanged_of_not_due hdue]
      exact Or.inr ⟨nofun, rfl⟩
    | true =>
      rw [outcome_reloadIfChanged_of_due hdue]
      cases h : rebuild py dir today with
      | ok built =>
        rw [outcome_loadThenTrue_of_ok h]
        exact Or.inl ⟨rfl, outcome_load_of_ok h⟩
      | error e =>
        rw [outcome_loadThenTrue_of_error h]
        split_ifs
        · exact Or.inr ⟨nofun, rfl⟩
        · exact Or.inr ⟨nofun, rfl⟩

/-! ## All or nothing -/

/-- What `load` puts in place agrees with itself, if the terminals do. -/
theorem consistent_iff (hlabels : OwnLabels py dir today) {built : Built}
    (h : rebuild py dir today = .ok built) :
    Consistent py dir today now (built.snapshot today now) ↔ TerminalsAgree py dir today := by
  simp only [rebuild, bind_eq_ok] at h
  obtain ⟨tables, htables, selection, hselection, hbuilt⟩ := h
  have hopens := openTables_eq_ok_iff.mp htables
  obtain ⟨hdirections, htimes, hstops, hcomparable, hroutes, hversion⟩ :=
    (succeeds_buildLookups hopens.present).mp ⟨built, hbuilt⟩
  have hacceptable : Acceptable py dir today tables selection :=
    ⟨hopens, hselection, hdirections, htimes, hstops, hcomparable, hroutes, hversion⟩
  have hlabel := hlabels tables selection hacceptable
  constructor
  · intro hconsistent tables' selection' hacceptable' t ht hdistinct
    obtain rfl := hopens.unique hacceptable'.opens
    obtain rfl := Except.ok.inj (hselection.symm.trans hacceptable'.selected)
    by_cases hne : tripRows selection.stopTimes.rows t = []
    · -- a trip without rows has no extreme ones
      intro largest row last hrow
      rw [hne] at hrow
      exact absurd hrow.1 List.not_mem_nil
    · exact (hasTerminals_iff hbuilt hacceptable hlabel ht hne hdistinct).mp
        (hconsistent.terminals tables selection hopens hselection t ht hne hdistinct)
  · intro hagree
    refine ⟨⟨_, (buildLookups_eq_ok hbuilt).2.2.2.2.2, rfl⟩, rfl, rfl, ?_, ?_⟩
    · intro tables' active hopens' hfilter t ht
      obtain rfl := hopens.unique hopens'
      exact active_of_mem_trips hfilter hselection hbuilt ht
    · intro tables' selection' hopens' hselection' t ht hne hdistinct
      obtain rfl := hopens.unique hopens'
      obtain rfl := Except.ok.inj (hselection.symm.trans hselection')
      exact (hasTerminals_iff hbuilt hacceptable hlabel ht hne hdistinct).mpr
        (hagree tables selection hacceptable t ht hdistinct)

theorem ownLabels_of_nodup (h : ∀ tables, Opens dir tables →
    (tables.stopTimes.rows.map StopTimeRow.label).Nodup) : OwnLabels py dir today := by
  intro tables selection hacceptable largest t row hrow
  have hsublist : selection.stopTimes.rows.Sublist tables.stopTimes.rows := by
    rcases selectRows_eq_ok_iff.mp hacceptable.selected with ⟨active, -, rfl⟩ | ⟨-, -, rfl⟩
    · exact List.filter_sublist
    · exact List.Sublist.refl _
  have hnodup := (h tables hacceptable.opens).sublist (hsublist.map StopTimeRow.label)
  obtain ⟨before, after, hsplit⟩ := List.append_of_mem (List.mem_of_mem_filter hrow.1)
  rw [hsplit, List.map_append, List.map_cons, List.nodup_middle, List.nodup_cons,
    List.mem_append, not_or] at hnodup
  have hnil {rows : List StopTimeRow} (hrows : row.label ∉ rows.map StopTimeRow.label) :
      rows.filter (·.label = row.label) = [] :=
    List.filter_eq_nil_iff.mpr fun r hr hlabel ↦
      hrows (of_decide_eq_true hlabel ▸ List.mem_map_of_mem hr)
  rw [OwnLabel, hsplit, List.filter_append, hnil hnodup.1.1, List.filter_cons,
    if_pos (decide_eq_true rfl), hnil hnodup.1.2]
  rfl

/-- Where the sequences are whole numbers, both ways of reading them are the same. -/
theorem terminalsAgree_of_int (h : ∀ tables, Opens dir tables → ∀ row ∈ tables.stopTimes.rows,
    ∃ n, row.stopSequence = .int n) : TerminalsAgree py dir today := by
  intro tables selection hacceptable t _ hdistinct largest row last hrow hlast _
  have hint (r) (hr : r ∈ tripRows selection.stopTimes.rows t) : ∃ n, r.stopSequence = .int n := by
    refine h tables hacceptable.opens r ?_
    rcases selectRows_eq_ok_iff.mp hacceptable.selected with ⟨active, -, rfl⟩ | ⟨-, -, rfl⟩
    · exact List.mem_of_mem_filter (List.mem_of_mem_filter hr)
    · exact List.mem_of_mem_filter hr
  have hle (r r') (hr : r ∈ tripRows selection.stopTimes.rows t)
      (hr' : r' ∈ tripRows selection.stopTimes.rows t) :
      r.rank ≤ r'.rank ↔ r.sequence py ≤ r'.sequence py := by
    obtain ⟨n, hn⟩ := hint r hr
    obtain ⟨n', hn'⟩ := hint r' hr'
    rw [StopTimeRow.rank, StopTimeRow.rank, StopTimeRow.sequence, StopTimeRow.sequence, hn, hn']
    change toLex (Sum.inr _) ≤ toLex (Sum.inr _) ↔ n ≤ n'
    rw [Sum.Lex.inr_le_inr_iff, WithBot.coe_le_coe, WithTop.coe_le_coe, Int.cast_le]
  have hextreme : Extreme largest StopTimeRow.rank (tripRows selection.stopTimes.rows t) last := by
    refine ⟨hlast.1, fun r hr ↦ ?_⟩
    have hbound := hlast.2 r hr
    cases largest with
    | true => exact (hle r last hr hlast.1).mpr hbound
    | false => exact (hle last r hlast.1 hr).mpr hbound
  exact Or.inl (by rw [hrow.eq_of_nodup hdistinct hextreme])

/-- **A load changes nothing or everything**, whatever labels the rows have: it raises, or it leaves
the version, the days and the trips of the directory, of which the filtered ones are active. -/
theorem load_atomic (py : Python) (dir : Directory) (today now : ℤ) :
    (∃ e, ∀ s, outcome (load py dir today now) s = (.error e, s)) ∨
      ∃ s', (∀ s, outcome (load py dir today now) s = (.ok (), s')) ∧
        (∃ version, computeVersion py dir = .ok version ∧ s'.currentVersion = some version) ∧
        s'.currentServiceDate = some today ∧ s'.loadedAt = some now ∧
        ∀ tables active, Opens dir tables →
          filterServices py dir today tables = .ok (some active) → ∀ t ∈ s'.trips,
            ∃ row ∈ tables.trips.rows, str row.tripId = t ∧ row.serviceId.isIn active = true := by
  cases hrebuild : rebuild py dir today with
  | error e => exact Or.inl ⟨e, fun s ↦ outcome_load_of_error hrebuild⟩
  | ok built =>
    have hload (s : GtfsStaticData) :
        outcome (load py dir today now) s = (.ok (), built.snapshot today now) :=
      outcome_load_of_ok hrebuild
    simp only [rebuild, bind_eq_ok] at hrebuild
    obtain ⟨tables, htables, selection, hselection, hbuilt⟩ := hrebuild
    refine Or.inr ⟨built.snapshot today now, hload, ⟨_, (buildLookups_eq_ok hbuilt).2.2.2.2.2, rfl⟩,
      rfl, rfl, fun tables' active hopens hfilter t ht ↦ ?_⟩
    obtain rfl := (openTables_eq_ok_iff.mp htables).unique hopens
    exact active_of_mem_trips hfilter hselection hbuilt ht

/-- **A load is all or nothing, and what it loads is consistent**, exactly if in every trip with
distinct sequences the rows that pandas finds extreme name the stops of the extreme numbers. -/
theorem allOrNothing_iff (hlabels : OwnLabels py dir today) :
    AllOrNothing py dir today now ↔ TerminalsAgree py dir today := by
  constructor
  · intro hload tables selection hacceptable
    obtain ⟨built, hbuilt⟩ := succeeds_rebuild.mpr ⟨tables, selection, hacceptable⟩
    rcases hload.load with ⟨e, he⟩ | ⟨s', hs', hconsistent⟩
    · exact nomatch (he {}).symm.trans (outcome_load_of_ok hbuilt)
    · obtain rfl := (Prod.mk.inj ((hs' {}).symm.trans (outcome_load_of_ok hbuilt))).2
      exact (consistent_iff hlabels hbuilt).mp hconsistent tables selection hacceptable
  · intro hagree
    refine ⟨?_, fun checked s ↦ outcome_reloadIfChanged py dir today checked now s⟩
    cases hbuilt : rebuild py dir today with
    | error e => exact Or.inl ⟨e, fun s ↦ outcome_load_of_error hbuilt⟩
    | ok built =>
      exact Or.inr ⟨built.snapshot today now, fun s ↦ outcome_load_of_ok hbuilt,
        (consistent_iff hlabels hbuilt).mpr hagree⟩

/-! ### Two bundles -/

/-- The decimal digits of ASCII, and no float in a text. -/
def plainPython : Python where
  digit c := if '0' ≤ c ∧ c ≤ '9' then some (c.toNat - 48) else none
  readFloat _ := none
  reprFloat _ := ""
  sha256 := id

def stopTime (label : ℤ) (stopSequence : Cell) (stopId : String) : StopTimeRow where
  label := .number label
  tripId := some "t1"
  stopSequence := stopSequence
  stopId := some stopId
  arrivalTime := .text "08:00:00"

/-- The tables of one trip along the stops A, B and C, without calendar files. -/
def oneTrip (stopTimes : List StopTimeRow) : Tables where
  trips := ⟨["route_id", "trip_id", "direction_id"],
    [{ tripId := some "t1", routeId := some "r1", directionId := .int 0 }]⟩
  stopTimes := ⟨["trip_id", "arrival_time", "departure_time", "stop_id", "stop_sequence"],
    stopTimes⟩
  stops := ⟨["stop_id"], [{ stopId := some "A" }, { stopId := some "B" }, { stopId := some "C" }]⟩
  routes := ⟨["route_id", "route_long_name"],
    [{ routeId := some "r1", routeLongName := .text "Red Line" }]⟩

def Tables.directory (tables : Tables) : Directory where
  stops := .table tables.stops
  trips := .table tables.trips
  stopTimes := .table tables.stopTimes
  routes := .table tables.routes

theorem opens_oneTrip (stopTimes : List StopTimeRow) :
    Opens (oneTrip stopTimes).directory (oneTrip stopTimes) where
  trips := rfl
  stopTimes := rfl
  stops := rfl
  routes := rfl
  tripColumns := show ∀ c ∈ _, c ∈ ["route_id", "trip_id", "direction_id"] by decide
  stopTimeColumns := show ∀ c ∈ _, c ∈ ["trip_id", "arrival_time", "departure_time", "stop_id",
    "stop_sequence"] by decide
  stopColumns := show ∀ c ∈ _, c ∈ ["stop_id"] by decide
  routeColumns := show ∀ c ∈ _, c ∈ ["route_id", "route_long_name"] by decide

/-- The stop times in another order than that of the stops. -/
def shuffled : List StopTimeRow :=
  [stopTime 0 (.int 2) "B", stopTime 1 (.int 10) "C", stopTime 2 (.int 1) "A"]

theorem allOrNothing_shuffled :
    Succeeds (rebuild plainPython (oneTrip shuffled).directory 20513) ∧
      AllOrNothing plainPython (oneTrip shuffled).directory 20513 1772298000 := by
  refine ⟨by decide +kernel, (allOrNothing_iff ?_).mpr ?_⟩
  · refine ownLabels_of_nodup fun tables h ↦ ?_
    obtain rfl := (opens_oneTrip shuffled).unique h
    decide
  · refine terminalsAgree_of_int fun tables h row hrow ↦ ?_
    obtain rfl := (opens_oneTrip shuffled).unique h
    revert row
    exact List.forall_mem_cons.mpr ⟨⟨2, rfl⟩, List.forall_mem_cons.mpr ⟨⟨10, rfl⟩,
      List.forall_mem_cons.mpr ⟨⟨1, rfl⟩, fun _ h ↦ absurd h List.not_mem_nil⟩⟩⟩

/-- The stop B was put between A and C with a sequence of one and a half. -/
def fractional : List StopTimeRow :=
  [stopTime 0 (.float 1) "A", stopTime 1 (.float (3 / 2)) "B", stopTime 2 (.float 2) "C"]

/-- The trip starts at A, but B is stored under its first number. -/
theorem not_allOrNothing_fractional :
    ¬AllOrNothing plainPython (oneTrip fractional).directory 20513 1772298000 := by
  intro hload
  have hopens := opens_oneTrip fractional
  have hlabels : OwnLabels plainPython (oneTrip fractional).directory 20513 := by
    refine ownLabels_of_nodup fun tables h ↦ ?_
    obtain rfl := hopens.unique h
    decide
  obtain ⟨built, hbuilt⟩ :
      Succeeds (rebuild plainPython (oneTrip fractional).directory 20513) := by decide +kernel
  obtain ⟨tables, selection, hacceptable⟩ := succeeds_rebuild.mp ⟨built, hbuilt⟩
  obtain rfl := hopens.unique hacceptable.opens
  have hagree : TerminalsAgree plainPython (oneTrip fractional).directory 20513 := by
    rcases hload.load with ⟨e, he⟩ | ⟨s', hs', hconsistent⟩
    · exact nomatch (he {}).symm.trans (outcome_load_of_ok hbuilt)
    · obtain rfl := (Prod.mk.inj ((hs' {}).symm.trans (outcome_load_of_ok hbuilt))).2
      exact (consistent_iff hlabels hbuilt).mp hconsistent
  have hrows : selection.stopTimes.rows = fractional := by
    rcases selectRows_eq_ok_iff.mp hacceptable.selected with ⟨active, h, -⟩ | ⟨-, -, rfl⟩
    · exact nomatch h
    · rfl
  have hsame := hagree _ selection hacceptable "t1" (by decide)
  rw [hrows] at hsame
  rcases hsame (by unfold DistinctSequences; decide +kernel) false
    (stopTime 0 (.float 1) "A") (stopTime 1 (.float (3 / 2)) "B")
    ⟨List.mem_cons_self, by decide +kernel⟩
    ⟨List.mem_cons_of_mem _ List.mem_cons_self, by decide +kernel⟩
    ⟨[stopTime 0 (.float 1) "A"], [stopTime 2 (.float 2) "C"], rfl, by decide +kernel⟩ with
    h | ⟨h, -⟩
  · exact absurd h (by decide)
  · exact absurd (h "A" rfl) (by decide)

end GtfsStream.Loader
