import GtfsStream.GtfsStatic.Snapshot

/-!
# The refresh in the consumer

`_maybe_refresh_gtfs_static`: a reload when the service date has advanced, and once in each interval
a download and a reload of what it changed. Both catch a `FileNotFoundError` and a `ValueError`, and
nothing else. So the consumer goes on unless one of the loads, or the download, raises an error of
another kind.

## What escapes

The two halves are guarded each by itself, so an error that is caught in the first does not keep the
second from being attempted. The first half loads only if the service date has advanced; the second
downloads only when the interval is over, and loads if the download has changed the bundle. An error
that escapes ends the process. Which loads are attempted depends on the clock, the day and the
answer of the download, and not on what the loads do, but for the day that a load has brought in.
-/

namespace GtfsStream.Loader

open Dictionary GtfsStatic

/-! ## The method -/

/-- What the refresh uses of the consumer. -/
structure Consumer where
  staticData : GtfsStaticData
  lastGtfsRefreshCheck : ℚ := 0

/-- The readings of the clock: the agency's dates, as `service_date_stale` and `load` see them, and
the moments. -/
structure Readings where
  firstCheck : ℤ
  firstLoad : ℤ
  firstLoadedAt : ℤ
  time : ℚ
  secondCheck : ℤ
  secondLoad : ℤ
  secondLoadedAt : ℤ

/-- A method of the consumer's static data. -/
def onStaticData {α : Type} (method : LoaderM α) : Method Consumer α :=
  ExceptT.mk fun c ↦
    ((outcome method c.staticData).1, { c with staticData := (outcome method c.staticData).2 })

variable (py : Python) (dir : Directory) (r : Readings)

/-- The reload when the service date has advanced. -/
def reloadForDate : Method Consumer Unit := do
  if ← onStaticData (serviceDateStale r.firstCheck) then
    exceptCaught (onStaticData (load py dir r.firstLoad r.firstLoadedAt)) (return ())
  else return ()

/-- Download, and reload from the directory that the download leaves. -/
def downloadAndReload (download : Except LoadError Directory) : Method Consumer Unit := do
  let dir' ← liftM download
  let _reloaded ←
    onStaticData (reloadIfChanged py dir' r.secondLoad r.secondCheck r.secondLoadedAt)
  return ()

/-- The network check, once in each interval. -/
def refreshFromNetwork (download : Except LoadError Directory) (gtfsRefreshInterval : ℚ) :
    Method Consumer Unit := do
  if r.time - (← get).lastGtfsRefreshCheck < gtfsRefreshInterval then return ()
  else
    modify fun self ↦ { self with lastGtfsRefreshCheck := r.time }
    exceptCaught (downloadAndReload py r download) (return ())

def maybeRefreshGtfsStatic (download : Except LoadError Directory) (gtfsRefreshInterval : ℚ) :
    Method Consumer Unit := do
  reloadForDate py dir r
  refreshFromNetwork py r download gtfsRefreshInterval

/-! ## What escapes a method -/

variable {py dir r} {download : Except LoadError Directory} {interval : ℚ} {c : Consumer}

/-- A method whose errors are caught returns unless one of them escapes. -/
theorem returns_exceptCaught_iff {σ : Type} {body : Method σ Unit} {s : σ} :
    (outcome (exceptCaught body (return ())) s).1 = .ok () ↔ ¬Escapes (outcome body s).1 := by
  rcases h : outcome body s with ⟨result, s'⟩
  cases result with
  | ok u =>
    rw [outcome_exceptCaught_of_ok h]
    exact iff_of_true rfl not_escapes_ok
  | error e =>
    rw [outcome_exceptCaught_of_error h, escapes_error]
    cases e.isCaught with
    | true => exact iff_of_true rfl (Bool.noConfusion ·)
    | false => exact iff_of_false nofun (not_not_intro rfl)

/-- A handler that does nothing leaves the object as it was when the error was raised. -/
theorem object_exceptCaught {σ : Type} {body : Method σ Unit} {s : σ} :
    (outcome (exceptCaught body (return ())) s).2 = (outcome body s).2 := by
  rcases h : outcome body s with ⟨result, s'⟩
  cases result with
  | ok u => rw [outcome_exceptCaught_of_ok h]
  | error e =>
    rw [outcome_exceptCaught_of_error h]
    split_ifs <;> rfl

theorem object_seq {σ : Type} (first second : Method σ Unit) (s : σ) :
    (outcome (first >>= fun _ ↦ second) s).2 = (outcome first s).2 ∨
      (outcome (first >>= fun _ ↦ second) s).2 = (outcome second (outcome first s).2).2 := by
  rcases h : outcome first s with ⟨result, s'⟩
  cases result with
  | ok u =>
    rw [outcome_bind_of_ok h]
    exact Or.inr rfl
  | error e =>
    rw [outcome_bind_of_error h]
    exact Or.inl rfl

theorem returns_seq_iff {σ : Type} {first second : Method σ Unit} {s : σ} :
    (outcome (first >>= fun _ ↦ second) s).1 = .ok () ↔
      (outcome first s).1 = .ok () ∧ (outcome second (outcome first s).2).1 = .ok () := by
  rcases h : outcome first s with ⟨result, s'⟩
  cases result with
  | ok u =>
    rw [outcome_bind_of_ok h]
    exact (and_iff_right rfl).symm
  | error e =>
    rw [outcome_bind_of_error h]
    exact iff_of_false nofun fun h ↦ nomatch h.1

theorem escapes_load {today now : ℤ} {s : GtfsStaticData} :
    Escapes (outcome (load py dir today now) s).1 ↔ LoadEscapes py dir today := by
  rw [← escapes_rebuild]
  cases h : rebuild py dir today with
  | ok built =>
    rw [outcome_load_of_ok h]
    exact iff_of_false not_escapes_ok not_escapes_ok
  | error e =>
    rw [outcome_load_of_error h]
    exact escapes_error.trans escapes_error.symm

theorem not_escapes_due (checked : ℤ) (s : GtfsStaticData) : ¬Escapes (due py dir checked s) := by
  rw [due, escapes_map, changed]
  cases s.currentVersion with
  | none => exact not_escapes_ok
  | some current => exact fun h ↦ not_escapes_computeVersion (escapes_map.mp h)

theorem escapes_reloadIfChanged {today checked : ℤ} (now : ℤ) {s : GtfsStaticData} :
    Escapes (outcome (reloadIfChanged py dir today checked now) s).1 ↔
      due py dir checked s = .ok true ∧ LoadEscapes py dir today := by
  rw [← escapes_rebuild]
  cases hdue : due py dir checked s with
  | error e =>
    rw [outcome_reloadIfChanged_of_error hdue]
    have hnot : ¬Escapes (due py dir checked s) := not_escapes_due checked s
    rw [hdue] at hnot
    exact iff_of_false (fun h ↦ hnot (escapes_error.mpr (escapes_error.mp h))) fun h ↦ nomatch h.1
  | ok dueValue =>
    cases dueValue with
    | false =>
      rw [outcome_reloadIfChanged_of_not_due hdue]
      exact iff_of_false not_escapes_ok fun h ↦ nomatch h.1
    | true =>
      rw [outcome_reloadIfChanged_of_due hdue, and_iff_right rfl]
      cases h : rebuild py dir today with
      | ok built =>
        rw [outcome_loadThenTrue_of_ok h]
        exact iff_of_false not_escapes_ok not_escapes_ok
      | error e =>
        rw [outcome_loadThenTrue_of_error h, escapes_error]
        cases hcaught : e.isCaught with
        | true => exact iff_of_false not_escapes_ok Bool.noConfusion
        | false => exact iff_of_true (escapes_error.mpr hcaught) rfl

theorem outcome_onStaticData {α : Type} {method : LoaderM α} :
    outcome (onStaticData method) c =
      ((outcome method c.staticData).1, { c with staticData := (outcome method c.staticData).2 }) :=
  rfl

theorem escapes_downloadAndReload : Escapes (outcome (downloadAndReload py r download) c).1 ↔
    Escapes download ∨ ∃ dir', download = .ok dir' ∧
      due py dir' r.secondCheck c.staticData = .ok true ∧ LoadEscapes py dir' r.secondLoad := by
  rw [downloadAndReload]
  cases hdownload : download with
  | error e =>
    rw [outcome_lift_of_error rfl, or_iff_left fun ⟨_, h, _⟩ ↦ nomatch h]
    exact escapes_error.trans escapes_error.symm
  | ok dir' =>
    simp only [Except.ok.injEq, exists_eq_left', or_iff_right not_escapes_ok]
    rw [outcome_lift_of_ok rfl, ← escapes_reloadIfChanged r.secondLoadedAt]
    rcases h : outcome (reloadIfChanged py dir' r.secondLoad r.secondCheck r.secondLoadedAt)
      c.staticData with ⟨result, s'⟩
    have hmethod : outcome (onStaticData (reloadIfChanged py dir' r.secondLoad r.secondCheck
        r.secondLoadedAt)) c = (result, { c with staticData := s' }) := by
      rw [outcome_onStaticData, h]
    cases result with
    | ok reloaded =>
      rw [outcome_bind_of_ok hmethod]
      exact iff_of_false not_escapes_ok not_escapes_ok
    | error e =>
      rw [outcome_bind_of_error hmethod]
      exact escapes_error.trans escapes_error.symm

/-! ## The two halves -/

theorem outcome_staleCheck {checked : ℤ} :
    outcome (onStaticData (serviceDateStale checked)) c =
      (.ok (decide (Stale checked c.staticData)), c) := rfl

theorem returns_reloadForDate_iff : (outcome (reloadForDate py dir r) c).1 = .ok () ↔
    ¬(Stale r.firstCheck c.staticData ∧ LoadEscapes py dir r.firstLoad) := by
  rw [reloadForDate, outcome_bind_of_ok outcome_staleCheck]
  by_cases h : Stale r.firstCheck c.staticData
  · rw [decide_eq_true h, if_pos rfl, returns_exceptCaught_iff, and_iff_right h,
      outcome_onStaticData, escapes_load]
  · rw [decide_eq_false h, if_neg Bool.false_ne_true]
    exact iff_of_true rfl fun h' ↦ h h'.1

/-- The snapshot after the first half: the new one, if it is loaded. -/
theorem outcome_reloadForDate_of_ok (h : Stale r.firstCheck c.staticData) {built : Built}
    (hbuilt : rebuild py dir r.firstLoad = .ok built) :
    outcome (reloadForDate py dir r) c =
      (.ok (), { c with staticData := built.snapshot r.firstLoad r.firstLoadedAt }) := by
  rw [reloadForDate, outcome_bind_of_ok outcome_staleCheck, decide_eq_true h]
  refine outcome_exceptCaught_of_ok ?_
  rw [outcome_onStaticData, outcome_load_of_ok hbuilt]

theorem outcome_reloadForDate_of_not
    (h : ¬(Stale r.firstCheck c.staticData ∧ Succeeds (rebuild py dir r.firstLoad))) :
    (outcome (reloadForDate py dir r) c).2 = c := by
  rw [reloadForDate, outcome_bind_of_ok outcome_staleCheck]
  by_cases hstale : Stale r.firstCheck c.staticData
  · rw [decide_eq_true hstale, if_pos rfl]
    cases hbuilt : rebuild py dir r.firstLoad with
    | ok built => exact absurd ⟨hstale, built, hbuilt⟩ h
    | error e =>
      have hmethod : outcome (onStaticData (load py dir r.firstLoad r.firstLoadedAt)) c =
          (.error e, c) := by
        rw [outcome_onStaticData, outcome_load_of_error hbuilt]
      rw [outcome_exceptCaught_of_error hmethod]
      split_ifs <;> rfl
  · rw [decide_eq_false hstale]
    rfl

theorem returns_refreshFromNetwork_iff :
    (outcome (refreshFromNetwork py r download interval) c).1 = .ok () ↔
      ¬(interval ≤ r.time - c.lastGtfsRefreshCheck ∧ (Escapes download ∨
        ∃ dir', download = .ok dir' ∧ due py dir' r.secondCheck c.staticData = .ok true ∧
          LoadEscapes py dir' r.secondLoad)) := by
  rw [refreshFromNetwork,
    outcome_bind_of_ok (show outcome (get : Method Consumer Consumer) c = (.ok c, c) from rfl)]
  by_cases h : r.time - c.lastGtfsRefreshCheck < interval
  · rw [if_pos h]
    exact iff_of_true rfl fun h' ↦ absurd h (not_lt.mpr h'.1)
  · rw [if_neg h, and_iff_right (not_lt.mp h), ← escapes_downloadAndReload (c :=
      { c with lastGtfsRefreshCheck := r.time }), ← returns_exceptCaught_iff]
    rfl

/-! ## Which refreshes are contained -/

/-- The second reload is due. If the first one has succeeded, the version and the date are those
of the directory and the day that it loaded. -/
def ReloadDue (py : Python) (dir dir' : Directory) (r : Readings) (s : GtfsStaticData) : Prop :=
  (Stale r.firstCheck s ∧ ∃ tables selection, Acceptable py dir r.firstLoad tables selection) ∧
      (∃ version, computeVersion py dir' = .ok version ∧
        (computeVersion py dir ≠ .ok version ∨ r.firstLoad ≠ r.secondCheck)) ∨
    ¬(Stale r.firstCheck s ∧ ∃ tables selection, Acceptable py dir r.firstLoad tables selection) ∧
      due py dir' r.secondCheck s = .ok true

/-- A load that is attempted, or the download, raises neither a `FileNotFoundError` nor a
`ValueError`. -/
def RefreshEscapes (py : Python) (dir : Directory) (r : Readings)
    (download : Except LoadError Directory) (interval : ℚ) (c : Consumer) : Prop :=
  Stale r.firstCheck c.staticData ∧ LoadEscapes py dir r.firstLoad ∨
    interval ≤ r.time - c.lastGtfsRefreshCheck ∧ (Escapes download ∨
      ∃ dir', download = .ok dir' ∧ ReloadDue py dir dir' r c.staticData ∧
        LoadEscapes py dir' r.secondLoad)

/-- The method returns, and the consumer goes on with the previous snapshot or with a new one. -/
structure Contained (py : Python) (dir : Directory) (r : Readings)
    (download : Except LoadError Directory) (interval : ℚ) (c : Consumer) : Prop where
  returns : (outcome (maybeRefreshGtfsStatic py dir r download interval) c).1 = .ok ()
  snapshot : (outcome (maybeRefreshGtfsStatic py dir r download interval) c).2.staticData =
      c.staticData ∨
    (∃ built, rebuild py dir r.firstLoad = .ok built ∧
      (outcome (maybeRefreshGtfsStatic py dir r download interval) c).2.staticData =
        built.snapshot r.firstLoad r.firstLoadedAt) ∨
    ∃ dir' built, download = .ok dir' ∧ rebuild py dir' r.secondLoad = .ok built ∧
      (outcome (maybeRefreshGtfsStatic py dir r download interval) c).2.staticData =
        built.snapshot r.secondLoad r.secondLoadedAt

theorem due_snapshot_iff {dir' : Directory} {built : Built} {today now checked : ℤ}
    (h : rebuild py dir today = .ok built) :
    due py dir' checked (built.snapshot today now) = .ok true ↔
      ∃ version, computeVersion py dir' = .ok version ∧
        (computeVersion py dir ≠ .ok version ∨ today ≠ checked) := by
  have hversion : computeVersion py dir = .ok built.version := by
    simp only [rebuild, bind_eq_ok] at h
    obtain ⟨tables, -, selection, -, h⟩ := h
    exact (buildLookups_eq_ok h).2.2.2.2.2
  have hstale : Stale checked (built.snapshot today now) ↔ today ≠ checked := by
    rw [Stale, show (built.snapshot today now).currentServiceDate = some today from rfl,
      and_iff_right (Option.some_ne_none today)]
    exact not_congr (Option.some_inj (a := today) (b := checked))
  rw [due, changed, hversion]
  change Except.map _ ((computeVersion py dir').map _) = _ ↔ _
  cases computeVersion py dir' with
  | error e => simp only [Except.map, reduceCtorEq, false_and, exists_false]
  | ok version =>
    simp only [Except.map, Except.ok.injEq, Bool.or_eq_true, decide_eq_true_iff, exists_eq_left',
      hstale, ne_comm (a := version), ne_eq]

/-- The second reload is due in the snapshot that the first half leaves. -/
theorem due_after_iff {dir' : Directory} :
    due py dir' r.secondCheck (outcome (reloadForDate py dir r) c).2.staticData = .ok true ↔
      ReloadDue py dir dir' r c.staticData := by
  rw [ReloadDue, ← succeeds_rebuild]
  by_cases h : Stale r.firstCheck c.staticData ∧ Succeeds (rebuild py dir r.firstLoad)
  · obtain ⟨hstale, built, hbuilt⟩ := id h
    rw [and_iff_right h, or_iff_left fun h' ↦ h'.1 h, outcome_reloadForDate_of_ok hstale hbuilt]
    exact due_snapshot_iff hbuilt
  · rw [and_iff_right h, or_iff_right fun h' ↦ h h'.1, outcome_reloadForDate_of_not h]

theorem lastGtfsRefreshCheck_reloadForDate :
    (outcome (reloadForDate py dir r) c).2.lastGtfsRefreshCheck = c.lastGtfsRefreshCheck := by
  by_cases h : Stale r.firstCheck c.staticData ∧ Succeeds (rebuild py dir r.firstLoad)
  · obtain ⟨hstale, built, hbuilt⟩ := h
    rw [outcome_reloadForDate_of_ok hstale hbuilt]
  · rw [outcome_reloadForDate_of_not h]

theorem returns_iff :
    (outcome (maybeRefreshGtfsStatic py dir r download interval) c).1 = .ok () ↔
      ¬RefreshEscapes py dir r download interval c := by
  rw [maybeRefreshGtfsStatic, returns_seq_iff, returns_reloadForDate_iff,
    returns_refreshFromNetwork_iff, lastGtfsRefreshCheck_reloadForDate, RefreshEscapes, not_or]
  simp only [due_after_iff]

variable (py r download c) in
theorem staticData_downloadAndReload :
    (outcome (downloadAndReload py r download) c).2.staticData = c.staticData ∨
      ∃ dir' built, download = .ok dir' ∧ rebuild py dir' r.secondLoad = .ok built ∧
        (outcome (downloadAndReload py r download) c).2.staticData =
          built.snapshot r.secondLoad r.secondLoadedAt := by
  rw [downloadAndReload]
  cases hdownload : download with
  | error e =>
    rw [outcome_lift_of_error rfl]
    exact Or.inl rfl
  | ok dir' =>
    rw [outcome_lift_of_ok rfl]
    -- the rest returns nothing, so the snapshot is that of the reload
    have hdata : (outcome (onStaticData (reloadIfChanged py dir' r.secondLoad r.secondCheck
        r.secondLoadedAt) >>= fun _reloaded ↦ (return () : Method Consumer Unit)) c).2.staticData =
        (outcome (reloadIfChanged py dir' r.secondLoad r.secondCheck r.secondLoadedAt)
          c.staticData).2 := by
      rcases h : outcome (reloadIfChanged py dir' r.secondLoad r.secondCheck r.secondLoadedAt)
        c.staticData with ⟨result, s'⟩
      have hmethod : outcome (onStaticData (reloadIfChanged py dir' r.secondLoad r.secondCheck
          r.secondLoadedAt)) c = (result, { c with staticData := s' }) := by
        rw [outcome_onStaticData, h]
      cases result with
      | ok reloaded => rw [outcome_bind_of_ok hmethod]; rfl
      | error e => rw [outcome_bind_of_error hmethod]
    rw [hdata]
    rcases outcome_reloadIfChanged py dir' r.secondLoad r.secondCheck r.secondLoadedAt
      c.staticData with ⟨-, hload⟩ | ⟨-, hkept⟩
    · cases hbuilt : rebuild py dir' r.secondLoad with
      | ok built =>
        rw [outcome_load_of_ok hbuilt] at hload
        exact Or.inr ⟨dir', built, rfl, hbuilt, (Prod.mk.inj hload).2.symm⟩
      | error e =>
        rw [outcome_load_of_error hbuilt] at hload
        exact nomatch (Prod.mk.inj hload).1
    · exact Or.inl hkept

variable (py r download interval c) in
theorem staticData_refreshFromNetwork :
    (outcome (refreshFromNetwork py r download interval) c).2.staticData = c.staticData ∨
      ∃ dir' built, download = .ok dir' ∧ rebuild py dir' r.secondLoad = .ok built ∧
        (outcome (refreshFromNetwork py r download interval) c).2.staticData =
          built.snapshot r.secondLoad r.secondLoadedAt := by
  rw [refreshFromNetwork,
    outcome_bind_of_ok (show outcome (get : Method Consumer Consumer) c = (.ok c, c) from rfl)]
  by_cases h : r.time - c.lastGtfsRefreshCheck < interval
  · rw [if_pos h]
    exact Or.inl rfl
  · rw [if_neg h]
    have hbody := staticData_downloadAndReload py r download
      { c with lastGtfsRefreshCheck := r.time }
    rw [← object_exceptCaught] at hbody
    exact hbody

theorem staticData_maybeRefresh :
    (outcome (maybeRefreshGtfsStatic py dir r download interval) c).2.staticData = c.staticData ∨
    (∃ built, rebuild py dir r.firstLoad = .ok built ∧
      (outcome (maybeRefreshGtfsStatic py dir r download interval) c).2.staticData =
        built.snapshot r.firstLoad r.firstLoadedAt) ∨
    ∃ dir' built, download = .ok dir' ∧ rebuild py dir' r.secondLoad = .ok built ∧
      (outcome (maybeRefreshGtfsStatic py dir r download interval) c).2.staticData =
        built.snapshot r.secondLoad r.secondLoadedAt := by
  have hfirst : (outcome (reloadForDate py dir r) c).2.staticData = c.staticData ∨
      ∃ built, rebuild py dir r.firstLoad = .ok built ∧
        (outcome (reloadForDate py dir r) c).2.staticData =
          built.snapshot r.firstLoad r.firstLoadedAt := by
    by_cases h : Stale r.firstCheck c.staticData ∧ Succeeds (rebuild py dir r.firstLoad)
    · obtain ⟨hstale, built, hbuilt⟩ := h
      rw [outcome_reloadForDate_of_ok hstale hbuilt]
      exact Or.inr ⟨built, hbuilt, rfl⟩
    · rw [outcome_reloadForDate_of_not h]
      exact Or.inl rfl
  -- the second half starts from what the first one left, and may not be reached
  rw [maybeRefreshGtfsStatic]
  rcases object_seq (reloadForDate py dir r) (refreshFromNetwork py r download interval) c
    with h | h
  · rw [h]
    exact hfirst.imp_right Or.inl
  · rw [h]
    rcases staticData_refreshFromNetwork py r download interval
      (outcome (reloadForDate py dir r) c).2 with hkept | hloaded
    · rw [hkept]
      exact hfirst.imp_right Or.inl
    · exact Or.inr (Or.inr hloaded)

/-- **A refresh is contained exactly if no error escapes a load that it attempts.** -/
theorem contained_iff :
    Contained py dir r download interval c ↔ ¬RefreshEscapes py dir r download interval c :=
  ⟨fun h ↦ returns_iff.mp h.returns, fun h ↦ ⟨returns_iff.mpr h, staticData_maybeRefresh⟩⟩

/-- A bundle like the one that was loaded, but its trips name no routes. -/
def withoutRoutes : Directory where
  stops := .table (oneTrip shuffled).stops
  trips := .table ⟨["trip_id", "direction_id"], [{ tripId := some "t1", directionId := .int 0 }]⟩
  stopTimes := .table (oneTrip shuffled).stopTimes
  routes := .table (oneTrip shuffled).routes
  stat _ := (1, 1)

/-- A consumer with a snapshot of the day. -/
def serving : Consumer where
  staticData := (outcome (load plainPython (oneTrip shuffled).directory 20513 1772298000) {}).2

/-- The columns of the new bundle are those that the loader requires, but it looks for the routes of
the trips, and the `KeyError` stops the consumer. -/
theorem not_contained_withoutRoutes :
    ¬Contained plainPython (oneTrip shuffled).directory
      ⟨20513, 20513, 1772298000, 86400, 20513, 20513, 1772298060⟩ (.ok withoutRoutes) 86400
      serving := by
  intro h
  have hreturns := congrArg (fun result ↦ result.toOption.isSome) h.returns
  exact absurd hreturns (by decide +kernel)

end GtfsStream.Loader
