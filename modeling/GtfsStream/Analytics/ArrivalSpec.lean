import GtfsStream.Analytics.Consumer

/-!
# The arrivals of a frame

A frame yields one arrival for each visit that it has rows of and that has a scheduled arrival: the
one of the earliest of these rows. Each of them has to be anchored to a service day. If one cannot
be, because its time is not known or lies at an end of the calendar, none of the frame is computed.

## What can be computed

The rows are grouped by visit and the visits are traversed; the traversal stops at the first one
whose moment raises. Two lemmas take its place in everything that follows: when it comes to its end,
and which arrivals it has then. A visit is dated if its earliest row has a time and the service days
around that time are in the calendar. The arrivals of a frame can be computed exactly if all of its
scheduled visits are dated, and then the arrival of a visit depends on the rows of this visit alone.
-/

namespace GtfsStream.Analytics

open Rows (truncate truncate_intCast exists_int_of_getNumber)

variable {zone : Zone} {static : GtfsStaticData} {pings : List Ping}
  {results : List DeviationResult} {r : DeviationResult} {key : VisitKey} {t : Time}

/-! ## Traversals -/

theorem mapM_eq_some_iff {α β : Type*} {f : α → Option β} {l : List α} {out : List β} :
    l.mapM f = some out ↔ l.map f = out.map some := by
  induction l generalizing out with
  | nil =>
    rw [List.mapM_nil, List.map_nil]
    cases out with
    | nil => exact iff_of_true rfl rfl
    | cons b out => exact iff_of_false nofun nofun
  | cons a l ih =>
    rw [List.mapM_cons, List.map_cons]
    cases out with
    | nil =>
      refine iff_of_false (fun h ↦ ?_) nofun
      obtain ⟨b, -, h⟩ := Option.bind_eq_some_iff.mp h
      obtain ⟨bs, -, h⟩ := Option.bind_eq_some_iff.mp h
      exact absurd (Option.some.inj h) (List.cons_ne_nil b bs)
    | cons b out =>
      rw [List.map_cons, List.cons.injEq, ← ih]
      constructor
      · intro h
        obtain ⟨b', hb, h⟩ := Option.bind_eq_some_iff.mp h
        obtain ⟨bs, hbs, h⟩ := Option.bind_eq_some_iff.mp h
        obtain ⟨rfl, rfl⟩ := List.cons.inj (Option.some.inj h)
        exact ⟨hb, hbs⟩
      · rintro ⟨hb, hbs⟩
        rw [hb, hbs]
        rfl

theorem mapM_isSome_iff {α β : Type*} {f : α → Option β} {l : List α} :
    (l.mapM f).isSome ↔ ∀ a ∈ l, (f a).isSome := by
  induction l with
  | nil => exact iff_of_true rfl fun _ ha ↦ absurd ha List.not_mem_nil
  | cons a l ih =>
    rw [List.forall_mem_cons, ← ih, List.mapM_cons]
    cases f a with
    | none => exact iff_of_false Bool.false_ne_true fun h ↦ Bool.false_ne_true h.1
    | some b =>
      rw [Option.isSome_some, and_iff_right rfl, Option.bind_eq_bind, Option.bind_some]
      cases l.mapM f <;> rfl

theorem sublist_of_map_eq {α β κ : Type*} {f : κ × α → Option (Option β)} {keyOf : β → κ}
    (hkey : ∀ a b, f a = some (some b) → keyOf b = a.1) {l : List (κ × α)} {out : List (Option β)}
    (h : l.map f = out.map some) : ((out.filterMap id).map keyOf).Sublist (l.map Prod.fst) := by
  induction l generalizing out with
  | nil =>
    cases out with
    | nil => exact List.Sublist.refl _
    | cons b out => exact absurd h nofun
  | cons a l ih =>
    cases out with
    | nil => exact absurd h nofun
    | cons b out =>
      rw [List.map_cons, List.map_cons, List.cons.injEq] at h
      rw [List.map_cons]
      cases b with
      | none => exact (ih h.2).cons _
      | some b =>
        rw [List.filterMap_cons_some (show id (some b) = some b from rfl), List.map_cons,
          hkey a b h.1]
        exact (ih h.2).cons_cons _

theorem mem_computeArrivalDeviations {stopTimesLookup : String × ℤ → Option ScheduledStopTime}
    (h : computeArrivalDeviations zone stopTimesLookup pings = some results) :
    r ∈ results ↔ ∃ row ∈ collapseToFirstArrival pings,
      arrivalResult zone stopTimesLookup row = some (some r) := by
  obtain ⟨out, hout, rfl⟩ := Option.map_eq_some_iff.mp h
  rw [mapM_eq_some_iff] at hout
  have hmem : r ∈ out.filterMap id ↔ some r ∈ out := by simp
  have hrow : some r ∈ out ↔
      some (some r) ∈ (collapseToFirstArrival pings).map (arrivalResult zone stopTimesLookup) := by
    rw [hout, List.mem_map]
    simp
  rw [hmem, hrow, List.mem_map]

theorem arrivalResult_isSome {stopTimesLookup : String × ℤ → Option ScheduledStopTime}
    (h : computeArrivalDeviations zone stopTimesLookup pings = some results)
    {row : VisitKey × Option Time} (hrow : row ∈ collapseToFirstArrival pings) :
    (arrivalResult zone stopTimesLookup row).isSome := by
  have hsome : (computeArrivalDeviations zone stopTimesLookup pings).isSome :=
    Option.isSome_of_eq_some h
  rw [computeArrivalDeviations, Option.isSome_map, mapM_isSome_iff] at hsome
  exact hsome row hrow

/-! ## The scheduled moment -/

section

variable {scheduled : ℕ} {day : ℤ} {actual : Time}

/-- The scheduled moment of a service day, in the calendar or not. -/
def serviceMoment (zone : Zone) (scheduled : ℕ) (day : ℤ) : Time :=
  zone.noon day - hours 12 + seconds scheduled

theorem eq_serviceMoment (h : serviceDatetime zone scheduled day = some t) :
    t = serviceMoment zone scheduled day := by
  rw [serviceDatetime] at h
  split_ifs at h
  · obtain ⟨noon, hnoon, h⟩ := Option.bind_eq_some_iff.mp h
    obtain ⟨anchor, hanchor, h⟩ := Option.bind_eq_some_iff.mp h
    obtain ⟨-, rfl⟩ := zone.timestamp_eq_some.mp hnoon
    obtain ⟨-, rfl⟩ := zone.timestamp_eq_some.mp hanchor
    exact (zone.timestamp_eq_some.mp h).2.symm

theorem serviceDatetime_of_isSome (h : (serviceDatetime zone scheduled day).isSome) :
    serviceDatetime zone scheduled day = some (serviceMoment zone scheduled day) := by
  obtain ⟨t, ht⟩ := Option.isSome_iff_exists.mp h
  rw [ht, eq_serviceMoment ht]

/-- The scheduled moments of the day of `actual` and of the days next to it are in the calendar. -/
def Anchored (zone : Zone) (scheduled : ℕ) (actual : Time) : Prop :=
  ∀ δ ∈ ([-1, 0, 1] : List ℤ), (serviceDatetime zone scheduled (zone.date actual + δ)).isSome

instance : Decidable (Anchored zone scheduled actual) := inferInstanceAs (Decidable (∀ _ ∈ _, _))

/-- The closest of the three moments. -/
def nearestMoment (zone : Zone) (actual : Time) (scheduled : ℕ) : Time :=
  let candidate (δ : ℤ) := serviceMoment zone scheduled (zone.date actual + δ)
  closer actual (closer actual (candidate (-1)) (candidate 0)) (candidate 1)

theorem resolveScheduledDatetime_eq : resolveScheduledDatetime zone actual scheduled =
    if Anchored zone scheduled actual then some (nearestMoment zone actual scheduled)
    else none := by
  rw [resolveScheduledDatetime]
  dsimp only
  split_ifs with h
  · rw [serviceDatetime_of_isSome (h (-1) (by decide)), serviceDatetime_of_isSome (h 0 (by decide)),
      serviceDatetime_of_isSome (h 1 (by decide))]
    rfl
  · refine Option.eq_none_iff_forall_ne_some.mpr fun t ht ↦ h ?_
    obtain ⟨previous, hprevious, ht⟩ := Option.bind_eq_some_iff.mp ht
    obtain ⟨same, hsame, ht⟩ := Option.bind_eq_some_iff.mp ht
    obtain ⟨next, hnext, -⟩ := Option.bind_eq_some_iff.mp ht
    intro δ hδ
    rcases List.mem_cons.mp hδ with rfl | hδ
    · exact Option.isSome_of_eq_some hprevious
    rcases List.mem_cons.mp hδ with rfl | hδ
    · exact Option.isSome_of_eq_some hsame
    rw [List.mem_singleton.mp hδ]
    exact Option.isSome_of_eq_some hnext

theorem resolveScheduledDatetime_eq_some : resolveScheduledDatetime zone actual scheduled = some t ↔
    Anchored zone scheduled actual ∧ nearestMoment zone actual scheduled = t := by
  rw [resolveScheduledDatetime_eq]
  split_ifs with h
  · rw [Option.some.injEq, and_iff_right h]
  · exact iff_of_false nofun fun ht ↦ h ht.1

end

/-! ## Visits -/

/-- The rows of a visit. -/
def visitRows (pings : List Ping) (key : VisitKey) : List Ping :=
  pings.filter fun p ↦
    p.stopId.isSome ∧ p.currentStatus = some "STOPPED_AT" ∧ p.visitKey = some key

/-- The earliest time of a visit in a frame. -/
def firstArrival (pings : List Ping) (key : VisitKey) : Option Time :=
  earliest (visitRows pings key)

/-- The scheduled arrival of a visit. -/
def scheduledArrival (static : GtfsStaticData) (key : VisitKey) : Option ℕ :=
  scheduledSeconds static.stopTimesLookup key.2.1 key.2.2

/-- A visit with a scheduled arrival has an integer for its stop sequence. -/
theorem truncate_of_scheduledArrival (h : (scheduledArrival static key).isSome) :
    (truncate key.2.2 : ℚ) = key.2.2 := by
  obtain ⟨scheduled, hscheduled⟩ := Option.isSome_iff_exists.mp h
  obtain ⟨stop, hstop, -⟩ := Option.bind_eq_some_iff.mp hscheduled
  obtain ⟨n, hn⟩ := exists_int_of_getNumber (Option.isSome_of_eq_some hstop)
  rw [hn, truncate_intCast]

/-- The deviation of an arrival at a time. -/
def arrivalAt (zone : Zone) (scheduled : ℕ) (key : VisitKey) (t : Time) : DeviationResult :=
  { vehicleId := key.1
    tripId := key.2.1
    stopSequence := truncate key.2.2
    kind := .arrival
    scheduledAt := nearestMoment zone t scheduled
    actualAt := t
    deviationSeconds := t - nearestMoment zone t scheduled }

theorem arrivalResult_eq (row : VisitKey × Option Time) :
    arrivalResult zone static.stopTimesLookup row =
      match scheduledArrival static row.1 with
      | none => some none
      | some scheduled => (row.2.filter (Anchored zone scheduled ·)).map fun t ↦
          some (arrivalAt zone scheduled row.1 t) := by
  obtain ⟨⟨vehicle, trip, seq⟩, time⟩ := row
  rw [arrivalResult, scheduledArrival]
  dsimp only
  cases scheduledSeconds static.stopTimesLookup trip seq with
  | none => rfl
  | some scheduled =>
    cases time with
    | none => rfl
    | some t =>
      dsimp only
      rw [resolveScheduledDatetime_eq, Option.filter_some]
      by_cases hanchored : Anchored zone scheduled t
      · rw [if_pos hanchored, if_pos (decide_eq_true hanchored)]
        rfl
      · rw [if_neg hanchored, if_neg (mt of_decide_eq_true hanchored)]
        rfl

theorem filter_stopped (pings : List Ping) (key : VisitKey) :
    (((pings.filter (·.stopId.isSome)).filter (·.currentStatus = some "STOPPED_AT")).filter
      (·.visitKey = some key)) = visitRows pings key := by
  rw [List.filter_filter, List.filter_filter, visitRows]
  refine List.filter_congr fun p _ ↦ ?_
  simp only [Bool.decide_and, Bool.decide_eq_true, Bool.and_comm]

theorem mem_collapse {time : Option Time} :
    (key, time) ∈ collapseToFirstArrival (pings.filter (·.stopId.isSome)) ↔
      visitRows pings key ≠ [] ∧ time = firstArrival pings key := by
  rw [collapseToFirstArrival, List.mem_map]
  constructor
  · rintro ⟨⟨k, group⟩, hgroup, heq⟩
    obtain ⟨rfl, rfl⟩ := Prod.mk.inj heq
    obtain ⟨rfl, p, hp, hkey⟩ := Rows.mem_groupBy.mp hgroup
    rw [filter_stopped]
    refine ⟨List.ne_nil_of_mem (?_ : p ∈ _), rfl⟩
    rw [← filter_stopped]
    exact List.mem_filter.mpr ⟨hp, decide_eq_true hkey⟩
  · rintro ⟨hne, rfl⟩
    refine ⟨(key, visitRows pings key), Rows.mem_groupBy.mpr ⟨(filter_stopped pings key).symm, ?_⟩,
      rfl⟩
    obtain ⟨p, hp⟩ := List.exists_mem_of_ne_nil _ hne
    rw [← filter_stopped, List.mem_filter] at hp
    exact ⟨p, hp.1, of_decide_eq_true hp.2⟩

theorem visitRows_ne_nil_of_firstArrival (h : firstArrival pings key = some t) :
    visitRows pings key ≠ [] := by
  intro hnil
  rw [firstArrival, hnil] at h
  exact nomatch h

theorem mem_windowArrivals (h : windowArrivals zone static pings = some results) :
    r ∈ results ↔ ∃ key scheduled t, scheduledArrival static key = some scheduled ∧
      firstArrival pings key = some t ∧ r = arrivalAt zone scheduled key t := by
  rw [mem_computeArrivalDeviations h]
  constructor
  · rintro ⟨⟨key, time⟩, hrow, hresult⟩
    obtain ⟨-, rfl⟩ := mem_collapse.mp hrow
    rw [arrivalResult_eq] at hresult
    dsimp only at hresult
    cases hscheduled : scheduledArrival static key with
    | none => rw [hscheduled] at hresult; exact nomatch hresult
    | some scheduled =>
      rw [hscheduled] at hresult
      obtain ⟨t, ht, hr⟩ := Option.map_eq_some_iff.mp hresult
      obtain ⟨ht, -⟩ := Option.filter_eq_some_iff.mp ht
      exact ⟨key, scheduled, t, hscheduled, ht, (Option.some.inj hr).symm⟩
  · rintro ⟨key, scheduled, t, hscheduled, ht, rfl⟩
    have hrow := mem_collapse.mpr ⟨visitRows_ne_nil_of_firstArrival ht, ht.symm⟩
    refine ⟨(key, some t), hrow, ?_⟩
    have hcomputed := arrivalResult_isSome h hrow
    rw [arrivalResult_eq, hscheduled] at hcomputed ⊢
    dsimp only at hcomputed ⊢
    rw [Option.isSome_map, Option.filter_some] at hcomputed
    rw [Option.filter_some]
    split_ifs at hcomputed ⊢
    · rfl
    · exact absurd hcomputed Bool.false_ne_true

/-- The visit of a result. -/
def DeviationResult.visit (r : DeviationResult) : VisitKey :=
  (r.vehicleId, r.tripId, r.stopSequence)

theorem visit_arrivalAt {scheduled : ℕ} (h : (scheduledArrival static key).isSome) :
    (arrivalAt zone scheduled key t).visit = key :=
  congrArg (fun seq ↦ (key.1, key.2.1, seq)) (truncate_of_scheduledArrival h)

theorem windowArrivals_visits (h : windowArrivals zone static pings = some results) :
    (results.map DeviationResult.visit).Sublist
      ((collapseToFirstArrival (pings.filter (·.stopId.isSome))).map Prod.fst) := by
  obtain ⟨out, hout, rfl⟩ := Option.map_eq_some_iff.mp h
  rw [mapM_eq_some_iff] at hout
  refine sublist_of_map_eq (fun row r hr ↦ ?_) hout
  rw [arrivalResult_eq] at hr
  cases hscheduled : scheduledArrival static row.1 with
  | none => rw [hscheduled] at hr; exact nomatch hr
  | some scheduled =>
    rw [hscheduled] at hr
    obtain ⟨t, -, hr⟩ := Option.map_eq_some_iff.mp hr
    rw [← Option.some.inj hr]
    exact visit_arrivalAt (Option.isSome_of_eq_some hscheduled)

theorem collapse_map_fst (pings : List Ping) : (collapseToFirstArrival pings).map Prod.fst =
    (Rows.groupBy visitOrder Ping.visitKey
      (pings.filter (·.currentStatus = some "STOPPED_AT"))).map Prod.fst := by
  rw [collapseToFirstArrival, List.map_map]
  rfl

theorem windowArrivals_nodup (h : windowArrivals zone static pings = some results) :
    (results.map DeviationResult.key).Nodup := by
  refine List.Nodup.of_map (fun k : DeviationKey ↦ ((k.1, k.2.1, k.2.2.1) : VisitKey)) ?_
  rw [List.map_map]
  refine List.Nodup.sublist (windowArrivals_visits h) ?_
  rw [collapse_map_fst]
  exact Rows.nodup_keys_groupBy

theorem windowArrivals_pairwise (h : windowArrivals zone static pings = some results) :
    results.Pairwise fun r s ↦ visitOrder r.visit s.visit := by
  have htotal : Std.Total visitOrder := ⟨fun a b ↦ le_total _ _⟩
  have htrans : IsTrans VisitKey visitOrder := ⟨fun a b c ↦ le_trans⟩
  refine List.pairwise_map.mp (List.Pairwise.sublist (windowArrivals_visits h) ?_)
  rw [collapse_map_fst]
  exact Rows.pairwise_keys_groupBy visitOrder

theorem firstArrival_isSome (h : ∀ p ∈ pings, p.timestampEastern.isSome)
    (hrows : visitRows pings key ≠ []) : (firstArrival pings key).isSome := by
  obtain ⟨p, hp⟩ := List.exists_mem_of_ne_nil _ hrows
  obtain ⟨t, ht⟩ := Option.isSome_iff_exists.mp (h p (List.mem_of_mem_filter hp))
  have hmem : t ∈ (visitRows pings key).filterMap Ping.timestampEastern :=
    List.mem_filterMap.mpr ⟨p, hp, ht⟩
  rw [firstArrival, earliest, Option.isSome_iff_ne_none, ne_eq, List.min?_eq_none_iff]
  exact List.ne_nil_of_mem hmem

theorem vehicleId_of_visitKey {p : Ping} (h : p.visitKey = some key) : p.vehicleId = key.1 := by
  unfold Ping.visitKey at h
  split at h
  · rw [← Option.some.inj h]
  · exact absurd h (Option.some_ne_none key).symm

/-- Where the visit has a scheduled arrival and rows, their earliest time can be anchored. -/
def Dated (zone : Zone) (static : GtfsStaticData) (pings : List Ping) (key : VisitKey) : Prop :=
  ∀ scheduled, scheduledArrival static key = some scheduled → visitRows pings key ≠ [] →
    ∃ t, firstArrival pings key = some t ∧ Anchored zone scheduled t

/-- The arrivals can be computed exactly if every scheduled visit can be dated. -/
theorem windowArrivals_isSome_iff :
    (windowArrivals zone static pings).isSome ↔ ∀ key, Dated zone static pings key := by
  rw [windowArrivals, computeArrivalDeviations, Option.isSome_map, mapM_isSome_iff]
  have hresult (key : VisitKey) (time : Option Time) :
      (arrivalResult zone static.stopTimesLookup (key, time)).isSome ↔
        ∀ scheduled, scheduledArrival static key = some scheduled →
          ∃ t, time = some t ∧ Anchored zone scheduled t := by
    rw [arrivalResult_eq]
    cases scheduledArrival static key with
    | none => exact iff_of_true rfl nofun
    | some scheduled =>
      dsimp only
      rw [Option.isSome_map, Option.isSome_iff_exists]
      simp only [Option.filter_eq_some_iff, decide_eq_true_iff, Option.some.injEq, forall_eq']
  constructor
  · intro h key scheduled hscheduled hrows
    exact (hresult key _).mp (h _ (mem_collapse.mpr ⟨hrows, rfl⟩)) scheduled hscheduled
  · rintro h ⟨key, time⟩ hrow
    obtain ⟨hrows, rfl⟩ := mem_collapse.mp hrow
    exact (hresult key _).mpr fun scheduled hscheduled ↦ h key scheduled hscheduled hrows

theorem anchored_of_windowArrivals (h : (windowArrivals zone static pings).isSome) {scheduled : ℕ}
    (hscheduled : scheduledArrival static key = some scheduled)
    (ht : firstArrival pings key = some t) : Anchored zone scheduled t := by
  obtain ⟨u, hu, hanchored⟩ := windowArrivals_isSome_iff.mp h key scheduled hscheduled
    (visitRows_ne_nil_of_firstArrival ht)
  rwa [Option.some.inj (ht.symm.trans hu)]

end GtfsStream.Analytics
