import GtfsStream.Analytics.ArrivalSpec
import GtfsStream.Analytics.TrackerSpec

/-!
# What a window carries

The result that a window is handed to the sink with, and the trackers after it, read at one key. A
deviation key is carried where an arrival of the frame passes the gate and the tracker has not seen
the key; a pair is carried where an event of the frame is more than old news.

## Reading a window at one key

The specifications are equations for one key at a time, since dictionaries are functions of their
keys here. The deviations of a key are at most one in each window. Where the arrivals of the frame
cannot be computed there is none, and the entry stays, even if it is old; otherwise the entry is the
new arrival or the old one, if it is retained.
-/

open GtfsStream.Analytics.BunchingEventTracker (reconcileKey Covers)

namespace GtfsStream.Analytics

/-! ## The times of a frame -/

section

variable {rows : List Ping} {t : Time}

theorem earliest_eq_some : earliest rows = some t ↔
    (∃ p ∈ rows, p.timestampEastern = some t) ∧
      ∀ p ∈ rows, ∀ s, p.timestampEastern = some s → t ≤ s := by
  rw [earliest, List.min?_eq_some_iff, List.mem_filterMap]
  refine and_congr_right fun _ ↦ ?_
  constructor
  · intro h p hp s hs
    exact h s (List.mem_filterMap.mpr ⟨p, hp, hs⟩)
  · intro h s hs
    obtain ⟨p, hp, hps⟩ := List.mem_filterMap.mp hs
    exact h p hp s hps

theorem newest_eq_some : newest rows = some t ↔
    (∃ p ∈ rows, p.timestampEastern = some t) ∧
      ∀ p ∈ rows, ∀ s, p.timestampEastern = some s → s ≤ t := by
  rw [newest, List.max?_eq_some_iff, List.mem_filterMap]
  refine and_congr_right fun _ ↦ ?_
  constructor
  · intro h p hp s hs
    exact h s (List.mem_filterMap.mpr ⟨p, hp, hs⟩)
  · intro h s hs
    obtain ⟨p, hp, hps⟩ := List.mem_filterMap.mp hs
    exact h p hp s hps

theorem newest_isSome (hne : rows ≠ []) (hknown : ∀ p ∈ rows, p.timestampEastern.isSome) :
    (newest rows).isSome := by
  obtain ⟨p, hp⟩ := List.exists_mem_of_ne_nil _ hne
  obtain ⟨t, ht⟩ := Option.isSome_iff_exists.mp (hknown p hp)
  have hmem : t ∈ rows.filterMap Ping.timestampEastern := List.mem_filterMap.mpr ⟨p, hp, ht⟩
  rw [newest, Option.isSome_iff_ne_none, ne_eq, List.max?_eq_none_iff]
  exact List.ne_nil_of_mem hmem

/-- Messages that come in the order of their times, all of which are known. -/
structure InTime (pings : List Ping) : Prop where
  known : ∀ p ∈ pings, p.timestampEastern.isSome
  ordered : pings.Pairwise fun p q ↦
    ∀ s t, p.timestampEastern = some s → q.timestampEastern = some t → s ≤ t

theorem InTime.of_append {before after : List Ping} (h : InTime (before ++ after)) :
    InTime before :=
  ⟨fun p hp ↦ h.known p (List.mem_append_left _ hp), (List.pairwise_append.mp h.ordered).1⟩

end

/-! ## Arrivals -/

variable {frames : Frames} {zone : Zone} {static : GtfsStaticData} {m : Memory} {pings : List Ping}

/-- The arrivals of a frame that pass the gate. -/
def gatedArrivals (zone : Zone) (static : GtfsStaticData) (pings : List Ping) :
    List DeviationResult :=
  ((windowArrivals zone static pings).getD []).filter withinGate

theorem filter_key_eq_singleton {results : List DeviationResult} {r : DeviationResult}
    (hnodup : (results.map DeviationResult.key).Nodup) (hr : r ∈ results) :
    results.filter (fun s ↦ s.key = r.key) = [r] := by
  obtain ⟨before, after, rfl⟩ := List.append_of_mem hr
  rw [List.map_append, List.map_cons, List.nodup_middle, List.nodup_cons,
    ← List.map_append] at hnodup
  have hother {l : List DeviationResult} (hl : ∀ s ∈ l, s ∈ before ++ after) :
      l.filter (fun s ↦ s.key = r.key) = [] :=
    List.filter_eq_nil_iff.mpr fun s hs hkey ↦
      hnodup.1 (of_decide_eq_true hkey ▸ List.mem_map_of_mem (hl s hs))
  rw [List.filter_append, List.filter_cons, if_pos (by simp),
    hother fun s hs ↦ List.mem_append_left _ hs, hother fun s hs ↦ List.mem_append_right _ hs]
  rfl

theorem gatedArrivals_nodup :
    ((gatedArrivals zone static pings).map DeviationResult.key).Nodup := by
  rw [gatedArrivals]
  cases harrivals : windowArrivals zone static pings with
  | none => exact List.nodup_nil
  | some results =>
    exact (windowArrivals_nodup harrivals).sublist (List.filter_sublist.map DeviationResult.key)

theorem mem_gatedArrivals (harrivals : (windowArrivals zone static pings).isSome)
    {r : DeviationResult} :
    r ∈ gatedArrivals zone static pings ↔ ∃ key scheduled t,
      scheduledArrival static key = some scheduled ∧ firstArrival pings key = some t ∧
        r = arrivalAt zone scheduled key t ∧ withinGate r = true := by
  obtain ⟨results, hresults⟩ := Option.isSome_iff_exists.mp harrivals
  rw [gatedArrivals, hresults, Option.getD_some, List.mem_filter, mem_windowArrivals hresults]
  constructor
  · rintro ⟨⟨key, scheduled, t, hscheduled, ht, hr⟩, hgate⟩
    exact ⟨key, scheduled, t, hscheduled, ht, hr, hgate⟩
  · rintro ⟨key, scheduled, t, hscheduled, ht, hr, hgate⟩
    exact ⟨⟨key, scheduled, t, hscheduled, ht, hr⟩, hgate⟩

theorem exists_row_of_gatedArrival {r : DeviationResult}
    (hr : r ∈ gatedArrivals zone static pings) :
    ∃ p ∈ pings, p.vehicleId = r.vehicleId ∧ p.timestampEastern = some r.actualAt := by
  have hsome : (windowArrivals zone static pings).isSome := by
    cases hnone : windowArrivals zone static pings with
    | none =>
      rw [gatedArrivals, hnone] at hr
      exact absurd hr List.not_mem_nil
    | some results => rfl
  obtain ⟨key, scheduled, t, -, ht, rfl, -⟩ := (mem_gatedArrivals hsome).mp hr
  obtain ⟨p, hp, hpt⟩ := (earliest_eq_some.mp ht).1
  obtain ⟨hrow, hvisit⟩ := List.mem_filter.mp hp
  exact ⟨p, hrow, vehicleId_of_visitKey (of_decide_eq_true hvisit).2.2, hpt⟩

/-! ## Deviations -/

def WindowResult.carriesDeviation (key : DeviationKey) (result : WindowResult) : Bool :=
  result.newDeviations.any fun r ↦ r.key = key

/-- The enrichment leaves the key and the times of a deviation alone. -/
theorem enrich_key (r : DeviationResult) :
    (enrichWithRouteName static (enrichWithLocation static r)).key = r.key := by
  rw [enrichWithRouteName, enrichWithLocation]
  split <;> rfl

theorem enrich_actualAt (r : DeviationResult) :
    (enrichWithRouteName static (enrichWithLocation static r)).actualAt = r.actualAt := by
  rw [enrichWithRouteName, enrichWithLocation]
  split <;> rfl

theorem processWindow_newDeviations :
    (processWindow frames zone static m pings).1.newDeviations =
      ((m.deviationTracker.filterAll (gatedArrivals zone static pings)).1.map
        (enrichWithLocation static)).map (enrichWithRouteName static) := by
  unfold processWindow gatedArrivals
  dsimp only
  cases windowArrivals zone static pings with
  | none => rfl
  | some results => rfl

theorem carriesDeviation_iff {key : DeviationKey} :
    (processWindow frames zone static m pings).1.carriesDeviation key = true ↔
      m.deviationTracker key = none ∧ ∃ r ∈ gatedArrivals zone static pings, r.key = key := by
  rw [WindowResult.carriesDeviation, processWindow_newDeviations,
    DeviationResultTracker.filterAll_fst gatedArrivals_nodup, List.map_map, List.any_map,
    List.any_eq_true]
  constructor
  · rintro ⟨r, hr, hkey⟩
    obtain ⟨hmem, hnone⟩ := List.mem_filter.mp hr
    have hkey : r.key = key := (enrich_key r).symm.trans (of_decide_eq_true hkey)
    rw [hkey, Option.isNone_iff_eq_none] at hnone
    exact ⟨hnone, r, hmem, hkey⟩
  · rintro ⟨hnone, r, hr, rfl⟩
    exact ⟨r, List.mem_filter.mpr ⟨hr, by rw [hnone]; rfl⟩, decide_eq_true (enrich_key r)⟩

/-- What the deviation tracker has for a key after a window whose arrivals can be computed. -/
theorem deviationTracker_eq_some (harrivals : (windowArrivals zone static pings).isSome)
    {key : DeviationKey} {t : Time} :
    (processWindow frames zone static m pings).2.deviationTracker key = some t ↔
      (m.deviationTracker key = some t ∨ m.deviationTracker key = none ∧
        ∃ r ∈ gatedArrivals zone static pings, r.key = key ∧ r.actualAt = t) ∧
      retained (newest pings) t = true := by
  have hnodup : ((gatedArrivals zone static pings).map DeviationResult.key).Nodup :=
    gatedArrivals_nodup
  obtain ⟨results, hresults⟩ := Option.isSome_iff_exists.mp harrivals
  rw [gatedArrivals, hresults, Option.getD_some] at hnodup ⊢
  rw [processWindow, hresults]
  dsimp only
  rw [DeviationResultTracker.filterNew, purgeStale_eq_some,
    DeviationResultTracker.filterAll_snd hnodup]
  rfl

/-- A window whose arrivals cannot be computed leaves the tracker alone. -/
theorem deviationTracker_of_none (harrivals : windowArrivals zone static pings = none) :
    (processWindow frames zone static m pings).2.deviationTracker = m.deviationTracker := by
  rw [processWindow, harrivals]

/-! ## Bunching events -/

def WindowResult.carriesEvent (key : PairKey) (result : WindowResult) : Bool :=
  result.bunchingActions.any fun a ↦ a.2.key = key

/-- The events of one pair in a frame. -/
def pairEvents (frames : Frames) (static : GtfsStaticData) (pings : List Ping) (key : PairKey) :
    List BunchingEvent :=
  (windowEvents frames static pings).filter (·.key = key)

theorem pairEvents_inOrder (key : PairKey) : InOrder (pairEvents frames static pings key) :=
  detectBunchingEvents_inOrder _ _ _ key

theorem processWindow_bunching :
    (processWindow frames zone static m pings).1.bunchingActions =
        (m.bunchingTracker.reconcile (windowEvents frames static pings) (newest pings)).1 ∧
      (processWindow frames zone static m pings).2.bunchingTracker =
        (m.bunchingTracker.reconcile (windowEvents frames static pings) (newest pings)).2 := by
  unfold processWindow
  dsimp only
  generalize m.bunchingTracker.reconcile (windowEvents frames static pings) (newest pings) = out
  split
  · exact ⟨rfl, rfl⟩
  · exact ⟨rfl, rfl⟩

theorem filter_bunchingActions (key : PairKey) :
    (processWindow frames zone static m pings).1.bunchingActions.filter (·.2.key = key) =
      (reconcileKey (m.bunchingTracker key) (pairEvents frames static pings key)).1 := by
  rw [processWindow_bunching.1, BunchingEventTracker.reconcile,
    (BunchingEventTracker.reconcileAll_key _ _ key).1, pairEvents]

theorem carriesEvent_iff {key : PairKey} :
    (processWindow frames zone static m pings).1.carriesEvent key = true ↔
      (reconcileKey (m.bunchingTracker key) (pairEvents frames static pings key)).1 ≠ [] := by
  have hactions : (processWindow frames zone static m pings).1.bunchingActions.filter
      (·.2.key = key) = (reconcileKey (m.bunchingTracker key)
        (pairEvents frames static pings key)).1 := filter_bunchingActions key
  rw [← hactions, WindowResult.carriesEvent, List.any_eq_true, ne_eq, List.filter_eq_nil_iff]
  push Not
  rfl

theorem bunchingTracker_eq_some {key : PairKey} {f : BunchingEvent} :
    (processWindow frames zone static m pings).2.bunchingTracker key = some f ↔
      (reconcileKey (m.bunchingTracker key) (pairEvents frames static pings key)).2 = some f ∧
        retained (newest pings) f.endTime = true := by
  rw [processWindow_bunching.2, BunchingEventTracker.reconcile, purgeStale_eq_some,
    (BunchingEventTracker.reconcileAll_key _ _ key).2, pairEvents]

end GtfsStream.Analytics
