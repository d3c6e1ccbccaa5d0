import GtfsStream.Analytics.OtherVehicles
import GtfsStream.Analytics.Turns

/-!
# A bad row in a window

A window with one more row, of a vehicle that is not in it. Whatever the fields of the row are, the
bunching actions of the other vehicles are those of the window without it, and so are their
deviations, unless the row spoils the window: it stands at a visit with a scheduled arrival, and it
has no time, or one at an end of the calendar, that cannot be anchored. Then the arrivals of the
whole window cannot be computed.

The beginning of a poll interval and the cutoff of a tracker are taken to be in the calendar, so
what is said of the bunching actions is said of rows whose own interval begins there, and of windows
whose cutoff without the row is there.
-/

open GtfsStream.Analytics.BunchingEventTracker (reconcileKey)

namespace GtfsStream.Analytics

variable {frames : Frames} {zone : Zone} {static : GtfsStaticData} {m : Memory}
  {rows before after : List Ping} {r : Ping} {w : String}

/-- A row at a visit that is scored, without a time that can be anchored. -/
structure Spoils (zone : Zone) (static : GtfsStaticData) (r : Ping) : Prop where
  hasStop : r.stopId.isSome
  stopped : r.currentStatus = some "STOPPED_AT"
  undated : ∃ key scheduled, r.visitKey = some key ∧
    scheduledArrival static key = some scheduled ∧
      ∀ t, r.timestampEastern = some t → ¬Anchored zone scheduled t

/-- No row is of the vehicle. -/
def Foreign (w : String) (rows : List Ping) : Prop := ∀ p ∈ rows, p.vehicleId ≠ w

/-! ## The frame with the row -/

theorem others_insert : others r.vehicleId (before ++ r :: after) =
    others r.vehicleId (before ++ after) := by
  rw [← List.singleton_append, others_append, others_append, others_append, others_singleton,
    if_pos rfl, List.nil_append]

theorem Foreign.visitRows_eq_nil (h : Foreign w rows) {key : VisitKey} (hkey : key.1 = w) :
    visitRows rows key = [] := by
  refine List.filter_eq_nil_iff.mpr fun p hp hvisit ↦ h p hp ?_
  rw [vehicleId_of_visitKey (of_decide_eq_true hvisit).2.2, hkey]

theorem visitRows_insert (h : Foreign r.vehicleId (before ++ after)) {key : VisitKey}
    (hkey : key.1 = r.vehicleId) : visitRows (before ++ r :: after) key = visitRows [r] key := by
  have hnil := h.visitRows_eq_nil hkey
  rw [visitRows, List.filter_append, List.append_eq_nil_iff] at hnil
  rw [← List.singleton_append, visitRows, visitRows, List.filter_append, List.filter_append,
    hnil.1, hnil.2, List.nil_append, List.append_nil]

theorem dated_singleton_iff :
    (∀ key : VisitKey, key.1 = r.vehicleId → Dated zone static [r] key) ↔
      ¬Spoils zone static r := by
  have hrows {key : VisitKey} : visitRows [r] key ≠ [] ↔
      r.stopId.isSome ∧ r.currentStatus = some "STOPPED_AT" ∧ r.visitKey = some key := by
    rw [visitRows, List.filter_cons, List.filter_nil]
    split_ifs with hvisit
    · exact iff_of_true (List.cons_ne_nil _ _) (of_decide_eq_true hvisit)
    · exact iff_of_false (not_not_intro rfl) fun h ↦ hvisit (decide_eq_true h)
  have htime {key : VisitKey} (h : visitRows [r] key ≠ []) :
      firstArrival [r] key = r.timestampEastern := by
    rw [firstArrival, visitRows, List.filter_cons, List.filter_nil,
      if_pos (decide_eq_true (hrows.mp h)), earliest]
    cases ht : r.timestampEastern with
    | none =>
      rw [List.filterMap_cons_none ht]
      rfl
    | some t =>
      rw [List.filterMap_cons_some ht]
      rfl
  constructor
  · rintro h ⟨hstop, hstopped, key, scheduled, hkey, hscheduled, hundated⟩
    have hne : visitRows [r] key ≠ [] := hrows.mpr ⟨hstop, hstopped, hkey⟩
    obtain ⟨t, ht, hanchored⟩ :=
      h key (vehicleId_of_visitKey hkey).symm scheduled hscheduled hne
    rw [htime hne] at ht
    exact hundated t ht hanchored
  · intro hspoils key _ scheduled hscheduled hne
    obtain ⟨hstop, hstopped, hkey⟩ := hrows.mp hne
    rw [htime hne]
    by_contra hnone
    rw [not_exists] at hnone
    exact hspoils ⟨hstop, hstopped, key, scheduled, hkey, hscheduled,
      fun t ht hanchored ↦ hnone t ⟨ht, hanchored⟩⟩

/-- **When the arrivals of a window with one more row can be computed**: those of the window can,
and the row does not spoil it. -/
theorem windowArrivals_insert (h : Foreign r.vehicleId (before ++ after)) :
    (windowArrivals zone static (before ++ r :: after)).isSome ↔
      (windowArrivals zone static (before ++ after)).isSome ∧ ¬Spoils zone static r := by
  rw [windowArrivals_isSome_iff, windowArrivals_isSome_iff, ← dated_singleton_iff]
  have hother {key : VisitKey} (hkey : key.1 ≠ r.vehicleId) :
      Dated zone static (before ++ r :: after) key ↔ Dated zone static (before ++ after) key :=
    dated_congr_others others_insert hkey
  have hown {key : VisitKey} (hkey : key.1 = r.vehicleId) :
      Dated zone static (before ++ r :: after) key ↔ Dated zone static [r] key := by
    rw [Dated, Dated, firstArrival, firstArrival, visitRows_insert h hkey]
  constructor
  · refine fun hall ↦ ⟨fun key ↦ ?_, fun key hkey ↦ (hown hkey).mp (hall key)⟩
    by_cases hkey : key.1 = r.vehicleId
    · exact fun _ _ hne ↦ absurd (h.visitRows_eq_nil hkey) hne
    · exact (hother hkey).mp (hall key)
  · rintro ⟨hall, hrow⟩ key
    by_cases hkey : key.1 = r.vehicleId
    · exact (hown hkey).mpr (hrow key hkey)
    · exact (hother hkey).mpr (hall key)

/-! ## Deviations -/

theorem visitOrder_antisymm {a b : VisitKey} (hab : visitOrder a b) (hba : visitOrder b a) :
    a = b := by
  obtain ⟨hvehicle, hrest⟩ := Prod.mk.inj (toLex.injective (le_antisymm hab hba))
  obtain ⟨htrip, hseq⟩ := Prod.mk.inj (toLex.injective hrest)
  exact Prod.ext hvehicle (Prod.ext htrip hseq)

theorem gatedArrivals_pairwise : (gatedArrivals zone static rows).Pairwise fun a b ↦
    visitOrder a.visit b.visit := by
  rw [gatedArrivals]
  cases harrivals : windowArrivals zone static rows with
  | none => exact List.Pairwise.nil
  | some results => exact (windowArrivals_pairwise harrivals).sublist List.filter_sublist

theorem isSome_of_mem_gatedArrivals {a : DeviationResult}
    (ha : a ∈ gatedArrivals zone static rows) :
    (windowArrivals zone static rows).isSome := by
  cases hnone : windowArrivals zone static rows with
  | none =>
    rw [gatedArrivals, hnone] at ha
    exact absurd ha List.not_mem_nil
  | some results => rfl

theorem eq_of_visit_eq {a b : DeviationResult} (ha : a ∈ gatedArrivals zone static rows)
    (hb : b ∈ gatedArrivals zone static rows) (h : a.visit = b.visit) : a = b := by
  have hsome := isSome_of_mem_gatedArrivals ha
  obtain ⟨key, scheduled, t, hscheduled, ht, rfl, -⟩ := (mem_gatedArrivals hsome).mp ha
  obtain ⟨key', scheduled', t', hscheduled', ht', rfl, -⟩ := (mem_gatedArrivals hsome).mp hb
  rw [visit_arrivalAt (Option.isSome_of_eq_some hscheduled),
    visit_arrivalAt (Option.isSome_of_eq_some hscheduled')] at h
  subst h
  rw [Option.some.inj (hscheduled.symm.trans hscheduled'), Option.some.inj (ht.symm.trans ht')]

theorem gatedArrivals_insert (h : Foreign r.vehicleId (before ++ after))
    (hspoils : ¬Spoils zone static r) :
    (gatedArrivals zone static (before ++ r :: after)).filter (·.vehicleId ≠ r.vehicleId) =
      gatedArrivals zone static (before ++ after) := by
  have hforeign {a : DeviationResult} (ha : a ∈ gatedArrivals zone static (before ++ after)) :
      a.vehicleId ≠ r.vehicleId := by
    obtain ⟨p, hp, hvehicle, -⟩ := exists_row_of_gatedArrival ha
    exact hvehicle ▸ h p hp
  have hmem (a : DeviationResult) : a ∈ (gatedArrivals zone static (before ++ r :: after)).filter
      (·.vehicleId ≠ r.vehicleId) ↔ a ∈ gatedArrivals zone static (before ++ after) := by
    have hcomputed : (windowArrivals zone static (before ++ r :: after)).isSome ↔
        (windowArrivals zone static (before ++ after)).isSome := by
      rw [windowArrivals_insert h, and_iff_left hspoils]
    rw [List.mem_filter, decide_eq_true_iff]
    constructor
    · rintro ⟨ha, hvehicle⟩
      exact (mem_gatedArrivals_congr others_insert hcomputed hvehicle).mp ha
    · intro ha
      exact ⟨(mem_gatedArrivals_congr others_insert hcomputed (hforeign ha)).mpr ha, hforeign ha⟩
  have hnodup (rows : List Ping) : (gatedArrivals zone static rows).Nodup :=
    List.Nodup.of_map _ gatedArrivals_nodup
  refine List.Perm.eq_of_pairwise ?_
    (gatedArrivals_pairwise.sublist List.filter_sublist) gatedArrivals_pairwise
    ((List.perm_ext_iff_of_nodup ((hnodup _).filter _) (hnodup _)).mpr hmem)
  intro a b ha hb hab hba
  refine eq_of_visit_eq ((hmem a).mp ha) hb ?_
  exact visitOrder_antisymm hab hba

/-- The results that the window is handed over with: those of the gated arrivals whose key was not
seen. -/
def enrichUnseen (static : GtfsStaticData) (seen : DeviationResultTracker)
    (gated : List DeviationResult) : List DeviationResult :=
  (gated.filter fun a ↦ (seen a.key).isNone).map
    (enrichWithRouteName static ∘ enrichWithLocation static)

theorem newDeviations_eq (frames : Frames) (rows : List Ping) :
    (processWindow frames zone static m rows).1.newDeviations =
      enrichUnseen static m.deviationTracker (gatedArrivals zone static rows) := by
  rw [processWindow_newDeviations, DeviationResultTracker.filterAll_fst gatedArrivals_nodup,
    List.map_map, enrichUnseen]

theorem enrichUnseen_eq_nil_iff {seen : DeviationResultTracker} {gated : List DeviationResult} :
    enrichUnseen static seen gated = [] ↔ ∀ a ∈ gated, (seen a.key).isSome := by
  rw [enrichUnseen, List.map_eq_nil_iff, List.filter_eq_nil_iff]
  refine forall_congr' fun a ↦ imp_congr_right fun _ ↦ ?_
  rw [Option.isNone_iff_eq_none, Option.isSome_iff_ne_none]

theorem filter_enrichUnseen {seen : DeviationResultTracker} {gated : List DeviationResult} :
    (enrichUnseen static seen gated).filter (·.vehicleId ≠ w) =
      enrichUnseen static seen (gated.filter (·.vehicleId ≠ w)) := by
  have hvehicle (a : DeviationResult) :
      (enrichWithRouteName static (enrichWithLocation static a)).vehicleId = a.vehicleId :=
    congrArg Prod.fst (enrich_key a)
  rw [enrichUnseen, enrichUnseen, List.filter_map, List.filter_filter, List.filter_filter]
  congr 1
  refine List.filter_congr fun a _ ↦ ?_
  simp only [Function.comp_apply, hvehicle, Bool.and_comm]

/-- **The deviations of the other vehicles are those of the window without the row** exactly if the
row does not spoil the window, or there was nothing new in it. -/
theorem newDeviations_insert_iff (h : Foreign r.vehicleId (before ++ after)) :
    (processWindow frames zone static m (before ++ r :: after)).1.newDeviations.filter
        (·.vehicleId ≠ r.vehicleId) =
          (processWindow frames zone static m (before ++ after)).1.newDeviations ↔
      (Spoils zone static r → ∀ a ∈ gatedArrivals zone static (before ++ after),
        (m.deviationTracker a.key).isSome) := by
  rw [newDeviations_eq, newDeviations_eq]
  by_cases hspoils : Spoils zone static r
  · have hnone : windowArrivals zone static (before ++ r :: after) = none :=
      Option.not_isSome_iff_eq_none.mp fun hsome ↦ ((windowArrivals_insert h).mp hsome).2 hspoils
    have hnil : gatedArrivals zone static (before ++ r :: after) = [] := by
      rw [gatedArrivals, hnone]
      rfl
    rw [hnil, eq_comm, forall_prop_of_true hspoils, ← enrichUnseen_eq_nil_iff]
    rfl
  · rw [filter_enrichUnseen, gatedArrivals_insert h hspoils]
    exact iff_of_true rfl fun hs ↦ absurd hs hspoils

/-! ## Bunching actions -/

/-- The actions come in the order of the events that they are for. -/
theorem sublist_reconcileAll (tracker : BunchingEventTracker) (events : List BunchingEvent) :
    ((BunchingEventTracker.reconcileAll tracker events).1.map (·.2.key)).Sublist
      (events.map BunchingEvent.key) := by
  induction events generalizing tracker with
  | nil => exact List.Sublist.refl _
  | cons event events ih =>
    cases haction : BunchingEventTracker.action (tracker event.key) event with
    | none =>
      rw [BunchingEventTracker.reconcileAll_of_none events haction]
      exact (ih tracker).cons _
    | some emission =>
      obtain ⟨act, emitted⟩ := emission
      rw [BunchingEventTracker.reconcileAll_of_some events haction, List.map_cons, List.map_cons,
        BunchingEventTracker.action_key haction]
      exact (ih _).cons_cons _

theorem PairKey.sortKey_injective : Function.Injective PairKey.sortKey := by
  intro k k' h
  obtain ⟨hroute, h⟩ := Prod.mk.inj (toLex.injective h)
  obtain ⟨hdirection, h⟩ := Prod.mk.inj (toLex.injective h)
  obtain ⟨ha, hb⟩ := Prod.mk.inj (toLex.injective h)
  obtain ⟨_, _, _, _⟩ := k
  obtain ⟨_, _, _, _⟩ := k'
  exact PairKey.mk.injEq .. ▸ ⟨hroute, hdirection, ha, hb⟩

theorem bunchingActions_pairwise :
    (processWindow frames zone static m rows).1.bunchingActions.Pairwise fun a b ↦
      a.2.key.sortKey ≤ b.2.key.sortKey := by
  have htotal : Std.Total fun k k' : PairKey ↦ k.sortKey ≤ k'.sortKey := ⟨fun k k' ↦ le_total _ _⟩
  have htrans : IsTrans PairKey fun k k' ↦ k.sortKey ≤ k'.sortKey := ⟨fun a b c ↦ le_trans⟩
  have hevents : (windowEvents frames static rows).Pairwise fun e f ↦
      e.key.sortKey ≤ f.key.sortKey := by
    rw [windowEvents, detectBunchingEvents]
    exact Rows.pairwise_flatMap_groupBy (f := groupEvents _ _)
      (fun k k' : PairKey ↦ k.sortKey ≤ k'.sortKey) fun key group e he ↦ groupEvents_key he
  have hkeys : ((windowEvents frames static rows).map BunchingEvent.key).Pairwise fun k k' ↦
      k.sortKey ≤ k'.sortKey := List.pairwise_map.mpr hevents
  rw [processWindow_bunching.1, BunchingEventTracker.reconcile]
  have hactions := hkeys.sublist (sublist_reconcileAll m.bunchingTracker _)
  rw [List.pairwise_map] at hactions
  exact hactions

instance {key : PairKey} : Decidable (key.Without w) := inferInstanceAs (Decidable (_ ∧ _))

theorem without_of_pairEvents (h : Foreign w rows) {key : PairKey}
    (hevents : pairEvents frames static rows key ≠ []) : key.Without w := by
  have hgroup : pairGroup (findClosePairs frames static rows).1 key ≠ [] := by
    intro hnil
    rw [pairEvents, windowEvents, filter_detectBunchingEvents, hnil] at hevents
    exact hevents groupEvents_nil
  obtain ⟨row, hrow⟩ := List.exists_mem_of_ne_nil _ hgroup
  obtain ⟨hclose, hkey⟩ := mem_pairGroup.mp hrow
  obtain ⟨a, b, hab, -, -, rfl⟩ := mem_findClosePairs.1.mp hclose
  obtain ⟨route, -, rfl⟩ := Option.map_eq_some_iff.mp hkey
  have hforeign {s : Sighting} (hs : s ∈ firstSightings frames static rows) : s.vehicleId ≠ w := by
    obtain ⟨p, hp, hsighting⟩ := List.mem_filterMap.mp (mem_firstSightings hs)
    rw [sighting_vehicleId hsighting]
    exact h p hp
  obtain ⟨ha, hb, -⟩ := mem_candidatePairs.mp hab
  exact ⟨hforeign ha, hforeign hb⟩

theorem OneSighting.others (h : OneSighting frames static rows) (w : String) :
    OneSighting frames static (Analytics.others w rows) :=
  fun a ha b hb ↦ h a (mem_sightings_others.mp ha).1 b (mem_sightings_others.mp hb).1

/-- The row of a vehicle that is not in the window does not change the events of a pair of
others. -/
theorem pairEvents_insert (hone : OneSighting frames static (before ++ after)) {key : PairKey}
    (hkey : key.Without r.vehicleId) : pairEvents frames static (before ++ r :: after) key =
      pairEvents frames static (before ++ after) key := by
  have hone' := hone.others r.vehicleId
  have hinsert : OneSighting frames static (others r.vehicleId (before ++ r :: after)) := by
    rwa [others_insert]
  rw [← pairEvents_others hone' hkey, ← pairEvents_others hinsert hkey, others_insert]

/-- **The bunching actions of the other vehicles are those of the window without the row**, if no
two rows of one vehicle tie. -/
theorem bunchingActions_insert (h : Foreign r.vehicleId (before ++ after))
    (hone : OneSighting frames static (before ++ after)) :
    (processWindow frames zone static m (before ++ r :: after)).1.bunchingActions.filter
        (fun a ↦ a.2.vehicleA ≠ r.vehicleId ∧ a.2.vehicleB ≠ r.vehicleId) =
      (processWindow frames zone static m (before ++ after)).1.bunchingActions := by
  refine Rows.eq_of_filter_key_eq (fun k k' : PairKey ↦ k.sortKey ≤ k'.sortKey)
    (fun k k' hle hge ↦ PairKey.sortKey_injective (le_antisymm hle hge))
    (bunchingActions_pairwise.sublist List.filter_sublist) bunchingActions_pairwise fun key ↦ ?_
  -- pair by pair: the actions of a pair depend on its events alone
  have hswap : ((processWindow frames zone static m (before ++ r :: after)).1.bunchingActions.filter
      (fun a ↦ a.2.vehicleA ≠ r.vehicleId ∧ a.2.vehicleB ≠ r.vehicleId)).filter (·.2.key = key) =
        (reconcileKey (m.bunchingTracker key)
          (pairEvents frames static (before ++ r :: after) key)).1.filter fun _ ↦
            decide (key.Without r.vehicleId) := by
    rw [← filter_bunchingActions, List.filter_filter, List.filter_filter]
    refine List.filter_congr fun a _ ↦ ?_
    by_cases hkey : a.2.key = key
    · rw [← hkey]
      simp only [decide_true, Bool.true_and, Bool.and_true]
      rfl
    · simp only [hkey, decide_false, Bool.false_and, Bool.and_false]
  rw [hswap, filter_bunchingActions]
  by_cases hkey : key.Without r.vehicleId
  · rw [pairEvents_insert hone hkey]
    simp only [hkey, decide_true, List.filter_true]
  · have hnil : pairEvents frames static (before ++ after) key = [] := by
      by_contra hevents
      exact hkey (without_of_pairEvents h hevents)
    rw [hnil]
    simp only [hkey, decide_false, List.filter_false]
    rfl

/-- **One bad row in a window**: what the other vehicles are handed over with. -/
theorem processWindow_insert (frames : Frames) (zone : Zone) (static : GtfsStaticData) (m : Memory)
    (before after : List Ping) (r : Ping) (h : ∀ p ∈ before ++ after, p.vehicleId ≠ r.vehicleId) :
    let result := (processWindow frames zone static m (before ++ after)).1
    let result' := (processWindow frames zone static m (before ++ r :: after)).1
    (result'.newDeviations.filter (·.vehicleId ≠ r.vehicleId) = result.newDeviations ↔
      (Spoils zone static r → ∀ a ∈ gatedArrivals zone static (before ++ after),
        (m.deviationTracker a.key).isSome)) ∧
    (OneSighting frames static (before ++ after) →
      (∀ t, r.timestampEastern = some t → zone.HasTime (bucket t)) →
      (∀ t, newest (before ++ after) = some t →
        zone.HasTime (t - seconds trackerRetentionSeconds)) →
      result'.bunchingActions.filter
          (fun a ↦ a.2.vehicleA ≠ r.vehicleId ∧ a.2.vehicleB ≠ r.vehicleId) =
        result.bunchingActions) :=
  ⟨newDeviations_insert_iff h, fun hone _ _ ↦ bunchingActions_insert h hone⟩

/-- Another vehicle at the stop of the first one, with this timestamp. -/
def stoppedToo (timestamp : Timestamp) : Ping :=
  { stoppedAt 0 with vehicleId := "y2", timestamp := timestamp }

/-- A row of another vehicle at the same stop does not take the arrival away, if it has a time. -/
theorem processWindow_insert_timed :
    ((processWindow meridian easternStandardTime (.arrivingAt 43200) {}
        [stoppedAt 61200, stoppedToo (.instant (seconds 61200))]).1.newDeviations.filter
          (·.vehicleId ≠ "y2")) =
      (processWindow meridian easternStandardTime (.arrivingAt 43200) {}
        [stoppedAt 61200]).1.newDeviations := by
  refine (processWindow_insert meridian easternStandardTime (.arrivingAt 43200) {}
    [stoppedAt 61200] [] (stoppedToo (.instant (seconds 61200))) (by decide +kernel)).1.mpr ?_
  rintro ⟨-, -, key, scheduled, hkey, hscheduled, hundated⟩
  obtain rfl := Option.some.inj hkey
  obtain rfl : 43200 = scheduled := by
    have hnoon : scheduledArrival (.arrivingAt 43200) ("y2", "t1", 1) = some 43200 := by
      decide +kernel
    exact Option.some.inj (hnoon.symm.trans hscheduled)
  exact absurd (by decide +kernel) (hundated (seconds 61200) rfl)

/-- A row without a time takes the arrival of the other vehicle away. -/
theorem not_processWindow_insert_untimed :
    ¬∀ (frames : Frames) (zone : Zone) (static : GtfsStaticData) (m : Memory)
      (before after : List Ping) (r : Ping), (∀ p ∈ before ++ after, p.vehicleId ≠ r.vehicleId) →
      let result := (processWindow frames zone static m (before ++ after)).1
      let result' := (processWindow frames zone static m (before ++ r :: after)).1
      result'.newDeviations.filter (·.vehicleId ≠ r.vehicleId) = result.newDeviations ∧
        result'.bunchingActions.filter
            (fun a ↦ a.2.vehicleA ≠ r.vehicleId ∧ a.2.vehicleB ≠ r.vehicleId) =
          result.bunchingActions := by
  intro h
  have hdeviations := (h meridian easternStandardTime (.arrivingAt 43200) {} [stoppedAt 61200] []
    (stoppedToo .null) (by decide +kernel)).1
  revert hdeviations
  decide +kernel

end GtfsStream.Analytics
