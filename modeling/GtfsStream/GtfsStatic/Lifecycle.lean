import GtfsStream.GtfsStatic.ConditionalRefresh
import GtfsStream.GtfsStatic.MaybeRefresh

/-!
# The bundle and the consumer

The target directory, the remote side and the process that serves lookups from them, as one system.
The process downloads and loads when it starts, refreshes in every turn of its loop, and may die in
every step. What it serves is at all times the load of one bundle, and the refresh brings the
version and the service date of the snapshot up to those of the target unless the loader rejects it.

A download and a load are each interrupted at most by the death of the process: nothing else writes
to the target.
-/

namespace GtfsStream.GtfsStatic

open Program Op Loader

/-! ## The two reloads -/

section

variable {py : Python} {dir dir' : Directory} {r : Readings} {c : Consumer}
  {download : Except LoadError Directory} {interval : ℚ}

/-- The snapshot after a load whose errors are caught. -/
def reloaded (py : Python) (dir : Directory) (today now : ℤ) (s : GtfsStaticData) :
    GtfsStaticData :=
  match rebuild py dir today with
  | .ok built => built.snapshot today now
  | .error _ => s

/-- The snapshot after the reload for the service date. -/
def dated (py : Python) (dir : Directory) (r : Readings) (s : GtfsStaticData) : GtfsStaticData :=
  if Stale r.firstCheck s then reloaded py dir r.firstLoad r.firstLoadedAt s else s

/-- The snapshot after the reload of what the download left. -/
def renewed (py : Python) (dir : Directory) (r : Readings) (s : GtfsStaticData) : GtfsStaticData :=
  if due py dir r.secondCheck s = .ok true then reloaded py dir r.secondLoad r.secondLoadedAt s
  else s

/-- The snapshot after a network check. -/
def fetched (py : Python) (r : Readings) (s : GtfsStaticData) :
    Except LoadError Directory → GtfsStaticData
  | .ok dir => renewed py dir r s
  | .error _ => s

theorem reloaded_of_ok {today now : ℤ} {s : GtfsStaticData} {built : Built}
    (h : rebuild py dir today = .ok built) :
    reloaded py dir today now s = built.snapshot today now := by
  rw [reloaded, h]

theorem reloaded_of_not {today now : ℤ} {s : GtfsStaticData}
    (h : ¬Dictionary.Succeeds (rebuild py dir today)) : reloaded py dir today now s = s := by
  rw [reloaded]
  cases hbuilt : rebuild py dir today with
  | error e => rfl
  | ok built => exact absurd ⟨built, hbuilt⟩ h

theorem object_reloadForDate : (outcome (reloadForDate py dir r) c).2 =
    { c with staticData := dated py dir r c.staticData } := by
  by_cases hstale : Stale r.firstCheck c.staticData
  · by_cases hloads : Dictionary.Succeeds (rebuild py dir r.firstLoad)
    · obtain ⟨built, hbuilt⟩ := hloads
      rw [outcome_reloadForDate_of_ok hstale hbuilt, dated, if_pos hstale, reloaded_of_ok hbuilt]
    · rw [outcome_reloadForDate_of_not fun h ↦ hloads h.2, dated, if_pos hstale,
        reloaded_of_not hloads]
  · rw [outcome_reloadForDate_of_not fun h ↦ hstale h.1, dated, if_neg hstale]

theorem object_reloadIfChanged {s : GtfsStaticData} :
    (outcome (reloadIfChanged py dir r.secondLoad r.secondCheck r.secondLoadedAt) s).2 =
      renewed py dir r s := by
  cases hdue : due py dir r.secondCheck s with
  | error e =>
    rw [outcome_reloadIfChanged_of_error hdue, renewed, hdue, if_neg nofun]
  | ok changed =>
    cases changed with
    | false =>
      rw [outcome_reloadIfChanged_of_not_due hdue, renewed, hdue, if_neg (by simp)]
    | true =>
      rw [outcome_reloadIfChanged_of_due hdue, renewed, hdue, if_pos rfl, reloaded]
      cases hbuilt : rebuild py dir r.secondLoad with
      | ok built => rw [outcome_loadThenTrue_of_ok hbuilt]
      | error e =>
        rw [outcome_loadThenTrue_of_error hbuilt]
        split_ifs <;> rfl

theorem object_downloadAndReload : (outcome (downloadAndReload py r download) c).2 =
    { c with staticData := fetched py r c.staticData download } := by
  rw [downloadAndReload]
  cases hdownload : download with
  | error e => exact congrArg Prod.snd (outcome_lift_of_error rfl)
  | ok dir' =>
    rw [outcome_lift_of_ok rfl]
    have hdata : (outcome (reloadIfChanged py dir' r.secondLoad r.secondCheck r.secondLoadedAt)
        c.staticData).2 = renewed py dir' r c.staticData := object_reloadIfChanged
    rcases h : outcome (reloadIfChanged py dir' r.secondLoad r.secondCheck r.secondLoadedAt)
      c.staticData with ⟨result, s'⟩
    rw [h] at hdata
    have hmethod : outcome (onStaticData (reloadIfChanged py dir' r.secondLoad r.secondCheck
        r.secondLoadedAt)) c = (result, { c with staticData := s' }) := by
      rw [outcome_onStaticData, h]
    obtain rfl : s' = renewed py dir' r c.staticData := hdata
    cases result with
    | ok reloaded =>
      rw [outcome_bind_of_ok hmethod]
      rfl
    | error e =>
      rw [outcome_bind_of_error hmethod]
      rfl

/-- **A turn between two network checks** reloads for the service date and nothing else. -/
theorem object_of_quiet {c' : Consumer} (hquiet : r.time - c.lastGtfsRefreshCheck < interval)
    (h : outcome (maybeRefreshGtfsStatic py dir r download interval) c = (.ok (), c')) :
    c' = { c with staticData := dated py dir r c.staticData } := by
  have hreturns := returns_seq_iff.mp (congrArg Prod.fst h)
  rw [maybeRefreshGtfsStatic, outcome_bind_of_ok (Prod.ext hreturns.1 object_reloadForDate),
    refreshFromNetwork, outcome_bind_of_ok (show outcome (get : Method Consumer Consumer) _ =
      (.ok { c with staticData := dated py dir r c.staticData }, _) from rfl)] at h
  rw [if_pos hquiet] at h
  exact (Prod.mk.inj h).2.symm

/-- **A turn with a network check** reloads for the service date, notes the time, and reloads what
the download left. -/
theorem object_of_checking {c' : Consumer}
    (hdue : ¬r.time - c.lastGtfsRefreshCheck < interval)
    (h : outcome (maybeRefreshGtfsStatic py dir r download interval) c = (.ok (), c')) :
    c' = ⟨fetched py r (dated py dir r c.staticData) download, r.time⟩ := by
  have hreturns := returns_seq_iff.mp (congrArg Prod.fst h)
  rw [maybeRefreshGtfsStatic, outcome_bind_of_ok (Prod.ext hreturns.1 object_reloadForDate),
    refreshFromNetwork, outcome_bind_of_ok (show outcome (get : Method Consumer Consumer) _ =
      (.ok { c with staticData := dated py dir r c.staticData }, _) from rfl)] at h
  rw [if_neg hdue] at h
  have hbody := (congrArg Prod.snd h).symm.trans
    (@object_exceptCaught Consumer (downloadAndReload py r download)
      { c with staticData := dated py dir r c.staticData, lastGtfsRefreshCheck := r.time })
  rw [object_downloadAndReload] at hbody
  exact hbody

end

/-! ## The system -/

/-- What is in the target. To the loader a missing directory is like an empty one. -/
def World.held (w : World) : Dir := (w.dir .target).getD ∅

/-- What the consumer sees of a download: the directory that it leaves, or an error. -/
inductive Hands (reading : Reading) :
    Except RefreshError Bool → World → Except LoadError Directory → Prop
  | returned (updated : Bool) (w : World) :
      Hands reading (.ok updated) w (.ok (reading.directory w.held))
  | raised (e : RefreshError) (w : World) (error : LoadError) :
      Hands reading (.error e) w (.error error)

/-- The directories, the consumer if its process is alive, and the agency's date when it was last
looked at. -/
structure Engine where
  world : World
  consumer : Option Consumer := none
  today : ℤ

/-- The agency's date does not go back. -/
structure Ordered (today : ℤ) (r : Readings) : Prop where
  firstCheck : today ≤ r.firstCheck
  firstLoad : r.firstCheck ≤ r.firstLoad
  secondCheck : r.firstLoad ≤ r.secondCheck
  secondLoad : r.secondCheck ≤ r.secondLoad

/-- What a call of `download_and_extract_gtfs` may do in a world, with the remote side it asks. -/
abbrev CallRelation := World → Remote → Outcome RefreshError Bool World → Prop

/-- A turn in which the refresh returns. The remote side is asked only if a network check is due. -/
inductive Turn (py : Python) (reading : Reading) (interval : ℚ) (calls : CallRelation) :
    Engine → Readings → Option Remote → Engine → Prop
  | quiet {e : Engine} {c c' : Consumer} {r : Readings} {download : Except LoadError Directory}
      (hconsumer : e.consumer = some c) (hdays : Ordered e.today r)
      (hquiet : r.time - c.lastGtfsRefreshCheck < interval)
      (hreturns : outcome (maybeRefreshGtfsStatic py (reading.directory e.world.held) r download
        interval) c = (.ok (), c')) :
      Turn py reading interval calls e r none ⟨e.world, some c', r.secondLoad⟩
  | checking {e : Engine} {c c' : Consumer} {r : Readings} {remote : Remote}
      {result : Except RefreshError Bool} {w : World} {download : Except LoadError Directory}
      (hconsumer : e.consumer = some c) (hdays : Ordered e.today r)
      (hdue : ¬r.time - c.lastGtfsRefreshCheck < interval)
      (hcall : calls e.world remote (.finished result w)) (hhands : Hands reading result w download)
      (hreturns : outcome (maybeRefreshGtfsStatic py (reading.directory e.world.held) r download
        interval) c = (.ok (), c')) :
      Turn py reading interval calls e r (some remote) ⟨w, some c', r.secondLoad⟩

/-- The process downloads, loads, and enters its loop. -/
inductive Start (py : Python) (reading : Reading) (calls : CallRelation) :
    Engine → Remote → Engine → Prop
  | start {e : Engine} {remote : Remote} {updated : Bool} {w : World} {s : GtfsStaticData}
      {day now : ℤ} {time : ℚ} (hnone : e.consumer = none)
      (hcall : calls e.world remote (.finished (.ok updated) w)) (hday : e.today ≤ day)
      (hload : outcome (load py (reading.directory w.held) day now) {} = (.ok (), s)) :
      Start py reading calls e remote ⟨w, some ⟨s, time⟩, day⟩

/-- The runs from a target that holds `d₀`, with the remote sides that were asked. A process ends in
a call or after it, or at any other moment: it is killed, or an error escapes. -/
inductive Run (py : Python) (reading : Reading) (interval : ℚ) (d₀ : Dir) :
    List Remote → Engine → Prop
  | deployed (w : World) (today : ℤ) (h : w.held = d₀) :
      Run py reading interval d₀ [] { world := w, today := today }
  | start {asked : List Remote} {e e' : Engine} {remote : Remote}
      (h : Run py reading interval d₀ asked e) (hstart : Start py reading Calls e remote e') :
      Run py reading interval d₀ (asked ++ [remote]) e'
  | turn {asked : List Remote} {e e' : Engine} {r : Readings} {remote : Option Remote}
      (h : Run py reading interval d₀ asked e)
      (hturn : Turn py reading interval Calls e r remote e') :
      Run py reading interval d₀ (asked ++ remote.toList) e'
  | ended {asked : List Remote} {e : Engine} {remote : Remote}
      {out : Outcome RefreshError Bool World} (h : Run py reading interval d₀ asked e)
      (hcall : Calls e.world remote out) :
      Run py reading interval d₀ (asked ++ [remote]) { world := out.state, today := e.today }
  | killed {asked : List Remote} {e : Engine} (h : Run py reading interval d₀ asked e) :
      Run py reading interval d₀ asked { e with consumer := none }

section

variable {py : Python} {reading : Reading} {interval : ℚ} {calls calls' : CallRelation}
  {e e' : Engine} {r : Readings} {remote : Option Remote}

theorem Start.mono {asked : Remote} (h : Start py reading calls e asked e')
    (hcalls : ∀ w r out, calls w r out → calls' w r out) : Start py reading calls' e asked e' := by
  cases h with
  | start hnone hcall hday hload => exact .start hnone (hcalls _ _ _ hcall) hday hload

theorem Turn.mono (h : Turn py reading interval calls e r remote e')
    (hcalls : ∀ w r out, calls w r out → calls' w r out) :
    Turn py reading interval calls' e r remote e' := by
  cases h with
  | quiet hconsumer hdays hquiet hreturns => exact .quiet hconsumer hdays hquiet hreturns
  | checking hconsumer hdays hdue hcall hhands hreturns =>
    exact .checking hconsumer hdays hdue (hcalls _ _ _ hcall) hhands hreturns

end

/-! ## The bundles -/

/-- A bundle that the target may hold: the first one, or a complete one that a call downloaded. -/
def Offered (d₀ : Dir) (asked : List Remote) (d : Dir) : Prop :=
  d = d₀ ∨ ∃ remote ∈ asked, remote.bundle = some d ∧ Complete d

theorem Offered.weaken {d₀ d : Dir} {asked : List Remote} (h : Offered d₀ asked d)
    (more : List Remote) : Offered d₀ (asked ++ more) d := by
  refine h.imp_right ?_
  rintro ⟨remote, hremote, hbundle⟩
  exact ⟨remote, List.mem_append_left _ hremote, hbundle⟩

/-- The target holds nothing, or one of these bundles. -/
def HoldsOffered (d₀ : Dir) (asked : List Remote) (w : World) : Prop :=
  w.held = ∅ ∨ Offered d₀ asked w.held

section

variable {d₀ d : Dir} {asked : List Remote} {w w' : World} {remote : Remote}

theorem held_of_target (h : w.dir .target = some d) : w.held = d := by rw [World.held, h]; rfl

theorem World.Same.held (h : w.Same w') : w'.held = w.held := by
  rw [World.held, World.held, h.target]

theorem survives_holdsOffered (hremote : remote ∈ asked) :
    Survives (HoldsOffered d₀ asked) remote where
  same {w w'} hw hs := by rwa [HoldsOffered, hs.held]
  create {w} _ _ := Or.inl (held_of_target (World.setDir_self ..))
  park {w} _ d := by
    refine Or.inl ?_
    rw [World.held, World.moved_dir_source (p := .target) (q := .old) w nofun]
    rfl
  swapIn {w d} _ hcomplete hbundle := by
    refine Or.inr (Or.inr ⟨remote, hremote, ?_, ?_⟩)
    · rwa [held_of_target (w.moved_dir_self ..)]
    · rwa [held_of_target (w.moved_dir_self ..)]

theorem HoldsOffered.calls {out : Outcome RefreshError Bool World} (h : HoldsOffered d₀ asked w)
    (hcall : Calls w remote out) : HoldsOffered d₀ (asked ++ [remote]) out.state := by
  have hw : HoldsOffered d₀ (asked ++ [remote]) { w with remote := remote } :=
    h.imp_right fun h ↦ h.weaken [remote]
  exact (guards_download (survives_holdsOffered (List.mem_append_right _ List.mem_cons_self))
    hw).state hcall

/-- **A call that raises has changed nothing in the target**: it did not get to the download. -/
theorem held_of_raises {e : RefreshError} (h : Calls w remote (.finished (.error e) w')) :
    w'.held = w.held := by
  have hmkdir : Guards (fun v ↦ v.held = w.held)
      (fun _ v ↦ v.held = w.held ∧ (v.dir .target).isSome) (sys (.mkdir .target))
      { w with remote := remote } := by
    refine guards_sys (.mkdir .target) (fun _ _ ↦ ?_) (fun e he ↦ nomatch he) fun v hv ↦ ?_
    · rw [Op.apply]
      rcases htarget : w.dir .target with _ | d
      · refine ⟨?_, by rw [World.setDir_self]; rfl⟩
        rw [held_of_target (World.setDir_self ..), World.held, htarget]
        rfl
      · exact ⟨rfl, by rw [htarget]; rfl⟩
    · obtain rfl : v = { w with remote := remote } := hv
      rfl
  have hall : Ensures machine (fun _ _ ↦ True) (fun _ v ↦ v.held = w.held) (fun _ ↦ True)
      downloadAndExtractGtfs { w with remote := remote } := by
    refine Ensures.bind (hmkdir.weaken (fun _ _ hq ↦ hq) (fun _ _ hq ↦ hq) fun _ _ ↦ trivial) ?_
    rintro - w₁ ⟨hheld, htarget⟩
    refine Ensures.bind ((guards_recoverParked (I := fun v ↦ v.held = w.held) hheld htarget).weaken
      (fun _ _ hq ↦ hq) (fun _ _ hq ↦ hq) fun _ _ ↦ trivial) ?_
    rintro - _ rfl
    -- what the body of the `try` statement raises is caught
    exact Ensures.tryCatch (guards_refreshBundle (survives_true _) trivial)
      fun _ _ _ ↦ Ensures.done trivial
  exact wp_iff.mp hall _ h

end

/-! ## Calls without a failure -/

/-- The remote side while it serves the version. -/
def Version.remote (v : Version) : Remote := ⟨some v.headers, some v.body⟩

/-- A call in which nothing fails. -/
def SmoothCalls : CallRelation := fun w remote out ↦
  out = .finished (downloadAndExtractGtfs.eval machine { w with remote := remote }).1
    (downloadAndExtractGtfs.eval machine { w with remote := remote }).2

theorem SmoothCalls.calls {w : World} {remote : Remote} {out : Outcome RefreshError Bool World}
    (h : SmoothCalls w remote out) : Calls w remote out :=
  h ▸ exec_eval machine downloadAndExtractGtfs { w with remote := remote }

section

variable {w : World} {d bundle : Dir} {v : Version}

/-- What is in place after a call without a failure: what was there, if it passes for the version,
and otherwise the bundle of the version. -/
def Settles (v : Version) (d : Dir) (w : World) : Prop :=
  IsCurrent d (validators v.headers) ∧ w.held = d ∨ v.remote.bundle = some w.held

theorem returns_settles_of_target (htarget : w.dir .target = some d)
    (hremote : w.remote = v.remote) (hlegible : Legible d (validators v.headers))
    (hbundle : v.remote.bundle = some bundle) (hcomplete : Complete bundle) :
    downloadAndExtractGtfs.Returns machine (fun _ ↦ Settles v d) w := by
  have hhead : w.remote.head = some v.headers := by rw [hremote]; rfl
  by_cases hcurrent : IsCurrent d (validators v.headers)
  · rw [← judgedDownload_returned]
    refine (returns_judgedDownload htarget hhead hcurrent).bind ?_
    rintro _ _ ⟨-, rfl⟩
    exact Returns.done (Or.inl ⟨hcurrent, held_of_target htarget⟩)
  · obtain ⟨updated, w', heval, htarget', -⟩ :=
      returns_download_gtfs htarget hhead (hremote ▸ hbundle) hlegible hcurrent hcomplete
    refine ⟨updated, w', heval, Or.inr ?_⟩
    rw [held_of_target htarget', hbundle]

/-- **A call without a failure settles the target**, also a missing one. -/
theorem returns_settles (hremote : w.remote = v.remote)
    (hlegible : Legible w.held (validators v.headers)) (hbundle : v.remote.bundle = some bundle)
    (hcomplete : Complete bundle) :
    downloadAndExtractGtfs.Returns machine (fun _ ↦ Settles v w.held) w := by
  cases htarget : w.dir .target with
  | some d =>
    rw [held_of_target htarget] at hlegible ⊢
    exact returns_settles_of_target htarget hremote hlegible hbundle hcomplete
  | none =>
    -- the call creates the target, and goes on as if it had been there
    have hcreated := returns_settles_of_target (w := w.setDir .target (some ∅))
      (World.setDir_self ..) hremote (legible_empty _) hbundle hcomplete
    have hmkdir : (sys (.mkdir .target)).eval machine w = (.ok (), w.setDir .target (some ∅)) := by
      refine (eval_perform machine (.mkdir .target) w).trans ?_
      change Op.apply (.mkdir .target) w = _
      rw [Op.apply, htarget]
    have hagain : (sys (.mkdir .target)).eval machine (w.setDir .target (some ∅)) =
        (.ok (), w.setDir .target (some ∅)) := by
      refine (eval_perform machine (.mkdir .target) _).trans ?_
      change Op.apply (.mkdir .target) (w.setDir .target (some ∅)) = _
      rw [Op.apply, World.setDir_self]
    have heval : downloadAndExtractGtfs.eval machine w =
        downloadAndExtractGtfs.eval machine (w.setDir .target (some ∅)) := by
      rw [downloadAndExtractGtfs, bind_eq, eval_bind_ok machine hmkdir,
        eval_bind_ok machine hagain]
    have hheld : w.held = ∅ := by rw [World.held, htarget]; rfl
    rw [hheld]
    obtain ⟨updated, w', hw', hsettles⟩ := hcreated
    exact ⟨updated, w', heval.trans hw', hsettles⟩

end

/-! ## What a snapshot is the load of -/

section

variable {py : Python} {reading : Reading} {S S' : Dir → Prop} {d target target' : Dir}
  {today today' day : ℤ} {r : Readings} {s : GtfsStaticData}

/-- The snapshot is the load of one of the bundles `S`, on a day up to `today`. The target has the
version of that bundle, or since that day the loader rejects what is in the target. -/
def Loaded (py : Python) (reading : Reading) (S : Dir → Prop) (target : Dir) (today : ℤ)
    (s : GtfsStaticData) : Prop :=
  ∃ d day now built, S d ∧ rebuild py (reading.directory d) day = .ok built ∧
    s = built.snapshot day now ∧ day ≤ today ∧
    (computeVersion py (reading.directory target) = .ok built.version ∨
      ∃ day', day ≤ day' ∧ day' ≤ today ∧ ¬Accepts py reading day' target)

/-- The snapshot is the load of a bundle of the target's version on the day, unless the loader
rejects what is in the target. -/
def UpToDate (py : Python) (reading : Reading) (S : Dir → Prop) (target : Dir) (day : ℤ)
    (s : GtfsStaticData) : Prop :=
  Accepts py reading day target → ∃ d now built, S d ∧
    rebuild py (reading.directory d) day = .ok built ∧ s = built.snapshot day now ∧
    computeVersion py (reading.directory target) = .ok built.version

theorem accepts_iff_succeeds : Accepts py reading day d ↔
    Dictionary.Succeeds (rebuild py (reading.directory d) day) :=
  accepts_iff.trans succeeds_rebuild.symm

theorem version_of_rebuild {built : Built} (h : rebuild py (reading.directory d) day = .ok built) :
    computeVersion py (reading.directory d) = .ok built.version := by
  simp only [rebuild, Dictionary.bind_eq_ok] at h
  obtain ⟨tables, -, selection, -, h⟩ := h
  exact (buildLookups_eq_ok h).2.2.2.2.2

theorem Loaded.mono (h : Loaded py reading S target today s) (hS : ∀ d, S d → S' d)
    (htoday : today ≤ today') : Loaded py reading S' target today' s := by
  obtain ⟨d, day, now, built, hd, hbuilt, hs, hday, htarget⟩ := h
  refine ⟨d, day, now, built, hS d hd, hbuilt, hs, hday.trans htoday, htarget.imp_right ?_⟩
  rintro ⟨day', hday', hle, hrejects⟩
  exact ⟨day', hday', hle.trans htoday, hrejects⟩

theorem Loaded.of_rebuild {built : Built} {now : ℤ} (hS : S target)
    (h : rebuild py (reading.directory target) day = .ok built) :
    Loaded py reading S target day (built.snapshot day now) :=
  ⟨target, day, now, built, hS, h, rfl, le_rfl, Or.inl (version_of_rebuild h)⟩

theorem Loaded.reloaded {now : ℤ} (h : Loaded py reading S target' today s)
    (hday : today ≤ day) (hS : Accepts py reading day target → S target) :
    Loaded py reading S target day (reloaded py (reading.directory target) day now s) := by
  by_cases hloads : Dictionary.Succeeds (rebuild py (reading.directory target) day)
  · have hsource := hS (accepts_iff_succeeds.mpr hloads)
    obtain ⟨built, hbuilt⟩ := hloads
    rw [reloaded_of_ok hbuilt]
    exact Loaded.of_rebuild hsource hbuilt
  · rw [reloaded_of_not hloads]
    obtain ⟨d, day₀, now₀, built, hd, hbuilt, hs, hday₀, -⟩ := h
    exact ⟨d, day₀, now₀, built, hd, hbuilt, hs, hday₀.trans hday,
      Or.inr ⟨day, hday₀.trans hday, le_rfl, mt accepts_iff_succeeds.mp hloads⟩⟩

theorem Loaded.dated (h : Loaded py reading S target today s) (hdays : Ordered today r)
    (hS : ∀ day, Accepts py reading day target → S target) :
    Loaded py reading S target r.firstLoad (dated py (reading.directory target) r s) := by
  have hload := hdays.firstCheck.trans hdays.firstLoad
  rw [GtfsStatic.dated]
  by_cases hstale : Stale r.firstCheck s
  · rw [if_pos hstale]
    exact h.reloaded hload (hS r.firstLoad)
  · rw [if_neg hstale]
    exact h.mono (fun _ hd ↦ hd) hload

theorem Loaded.renewed (h : Loaded py reading S target' today s) (hcheck : today ≤ r.secondCheck)
    (hload : r.secondCheck ≤ r.secondLoad)
    (hS : ∀ day, Accepts py reading day target → S target) :
    Loaded py reading S target r.secondLoad (renewed py (reading.directory target) r s) := by
  rw [GtfsStatic.renewed]
  by_cases hdue : due py (reading.directory target) r.secondCheck s = .ok true
  · rw [if_pos hdue]
    exact h.reloaded (hcheck.trans hload) (hS r.secondLoad)
  · rw [if_neg hdue]
    obtain ⟨d, day, now, built, hd, hbuilt, rfl, hday, -⟩ := h
    have hend := hday.trans (hcheck.trans hload)
    refine ⟨d, day, now, built, hd, hbuilt, rfl, hend, ?_⟩
    cases hversion : computeVersion py (reading.directory target) with
    | error e =>
      -- without a version the load fails too
      refine Or.inr ⟨r.secondLoad, hend, le_rfl, fun haccepts ↦ ?_⟩
      obtain ⟨built', hbuilt'⟩ := accepts_iff_succeeds.mp haccepts
      exact nomatch hversion.symm.trans (version_of_rebuild hbuilt')
    | ok version =>
      refine Or.inl (congrArg Except.ok ?_)
      by_contra hne
      refine hdue ((due_snapshot_iff hbuilt).mpr ⟨version, hversion, Or.inl fun heq ↦ hne ?_⟩)
      exact (Except.ok.inj ((version_of_rebuild hbuilt).symm.trans heq)).symm

/-- **A snapshot that is not stale on its last day is up to date.** -/
theorem Loaded.upToDate (h : Loaded py reading S target today s)
    (hstale : Accepts py reading today target → ¬Stale today s) :
    UpToDate py reading S target today s := by
  intro haccepts
  obtain ⟨d, day, now, built, hd, hbuilt, rfl, hday, htarget⟩ := h
  obtain rfl : day = today := by
    by_contra hne
    exact hstale haccepts ⟨nofun, fun h ↦ hne (Option.some.inj h)⟩
  refine ⟨d, now, built, hd, hbuilt, rfl, htarget.resolve_right ?_⟩
  rintro ⟨day', hle, hge, hrejects⟩
  exact hrejects (le_antisymm hge hle ▸ haccepts)

theorem not_stale_reloaded {now : ℤ} (h : Accepts py reading day target) :
    ¬Stale day (reloaded py (reading.directory target) day now s) := by
  obtain ⟨built, hbuilt⟩ := accepts_iff_succeeds.mp h
  rw [reloaded_of_ok hbuilt]
  exact fun hstale ↦ hstale.2 rfl

theorem Ordered.oneDay (h : Ordered today r) (hday : r.firstCheck = r.secondLoad) :
    r.firstLoad = r.secondLoad ∧ r.secondCheck = r.secondLoad := by
  have hfirst := h.firstLoad
  have hsecond := h.secondCheck
  have hlast := h.secondLoad
  constructor <;> omega

/-- **A turn that downloads nothing**: the snapshot is up to date after the reload for the service
date. -/
theorem Loaded.kept (h : Loaded py reading S target today s) (hdays : Ordered today r)
    (hS : ∀ day, Accepts py reading day target → S target) :
    Loaded py reading S target r.secondLoad (GtfsStatic.dated py (reading.directory target) r s) ∧
      (r.firstCheck = r.secondLoad → UpToDate py reading S target r.secondLoad
        (GtfsStatic.dated py (reading.directory target) r s)) := by
  have hdated := (h.dated hdays hS).mono (fun _ hd ↦ hd) (hdays.secondCheck.trans hdays.secondLoad)
  refine ⟨hdated, fun hday ↦ hdated.upToDate fun haccepts ↦ ?_⟩
  rw [GtfsStatic.dated]
  by_cases hstale : Stale r.firstCheck s
  · rw [if_pos hstale, (hdays.oneDay hday).1]
    exact not_stale_reloaded haccepts
  · rw [if_neg hstale, ← hday]
    exact hstale

/-- **A turn with a download**: the snapshot is up to date with what the download left. -/
theorem Loaded.exchanged (h : Loaded py reading S target' today s) (hdays : Ordered today r)
    (hS' : ∀ day, Accepts py reading day target' → S target')
    (hS : ∀ day, Accepts py reading day target → S target) :
    Loaded py reading S target r.secondLoad (GtfsStatic.renewed py (reading.directory target) r
        (GtfsStatic.dated py (reading.directory target') r s)) ∧
      (r.firstCheck = r.secondLoad → UpToDate py reading S target r.secondLoad
        (GtfsStatic.renewed py (reading.directory target) r
          (GtfsStatic.dated py (reading.directory target') r s))) := by
  have hdated := h.dated hdays hS'
  have hrenewed := hdated.renewed hdays.secondCheck hdays.secondLoad hS
  refine ⟨hrenewed, fun hday ↦ hrenewed.upToDate fun haccepts ↦ ?_⟩
  rw [GtfsStatic.renewed]
  split_ifs with hdue
  · exact not_stale_reloaded haccepts
  · -- the reload would be due if the snapshot were stale
    obtain ⟨d, day, now, built, -, hbuilt, hs, -, -⟩ := hdated
    obtain ⟨built', hbuilt'⟩ := accepts_iff_succeeds.mp haccepts
    rw [hs] at hdue ⊢
    rw [← (hdays.oneDay hday).2]
    exact fun hstale ↦ hdue ((due_snapshot_iff hbuilt).mpr ⟨built'.version,
      version_of_rebuild hbuilt', Or.inr fun heq ↦ hstale.2 (congrArg some heq)⟩)

end

/-! ## Runs -/

section

variable {py : Python} {reading : Reading} {interval : ℚ} {d₀ : Dir} {asked : List Remote}
  {e e' : Engine} {c : Consumer} {r : Readings} {remote : Option Remote}

/-- The invariant of the runs. -/
structure Serving (py : Python) (reading : Reading) (d₀ : Dir) (asked : List Remote) (e : Engine) :
    Prop where
  target : HoldsOffered d₀ asked e.world
  snapshot : ∀ c, e.consumer = some c →
    Loaded py reading (Offered d₀ asked) e.world.held e.today c.staticData

theorem not_accepts_empty {day : ℤ} : ¬Accepts py reading day ∅ :=
  fun h ↦ absurd (h.complete "stops.txt" (by decide)) (by decide)

theorem HoldsOffered.of_accepts {w : World} {day : ℤ} (h : HoldsOffered d₀ asked w)
    (haccepts : Accepts py reading day w.held) : Offered d₀ asked w.held :=
  h.resolve_left fun hempty ↦ not_accepts_empty (hempty ▸ haccepts)

/-- **What one turn preserves.** Where all readings are of one day the snapshot is up to date. -/
theorem Serving.turn (h : Serving py reading d₀ asked e)
    (hturn : Turn py reading interval Calls e r remote e') :
    Serving py reading d₀ (asked ++ remote.toList) e' ∧
      ∀ c, e'.consumer = some c → r.firstCheck = r.secondLoad →
        UpToDate py reading (Offered d₀ (asked ++ remote.toList)) e'.world.held e'.today
          c.staticData := by
  have hS {asked : List Remote} {w : World} (hw : HoldsOffered d₀ asked w) (day : ℤ)
      (haccepts : Accepts py reading day w.held) : Offered d₀ asked w.held :=
    hw.of_accepts haccepts
  cases hturn with
  | @quiet c c' _ download hconsumer hdays hquiet hreturns =>
    rw [Option.toList_none, List.append_nil]
    obtain rfl := object_of_quiet hquiet hreturns
    have hkept := (h.snapshot c hconsumer).kept hdays (hS h.target)
    refine ⟨⟨h.target, fun c hc ↦ ?_⟩, fun c hc ↦ ?_⟩
    · exact Option.some.inj hc ▸ hkept.1
    · exact Option.some.inj hc ▸ hkept.2
  | @checking c c' _ remote result w download hconsumer hdays hdue hcall hhands hreturns =>
    have htarget := h.target.calls hcall
    obtain rfl := object_of_checking hdue hreturns
    have hbefore : HoldsOffered d₀ (asked ++ [remote]) e.world :=
      h.target.imp_right fun hheld ↦ hheld.weaken [remote]
    have hloaded : Loaded py reading (Offered d₀ (asked ++ [remote])) e.world.held e.today
        c.staticData :=
      (h.snapshot c hconsumer).mono (fun _ hd ↦ hd.weaken [remote]) le_rfl
    cases hhands with
    | returned updated w =>
      have hexchanged := hloaded.exchanged hdays (hS hbefore) (hS htarget)
      refine ⟨⟨htarget, fun c hc ↦ ?_⟩, fun c hc ↦ ?_⟩
      · exact Option.some.inj hc ▸ hexchanged.1
      · exact Option.some.inj hc ▸ hexchanged.2
    | raised error w loadError =>
      -- nothing was downloaded
      have hheld : w.held = e.world.held := held_of_raises hcall
      have hkept := hloaded.kept hdays (hS hbefore)
      refine ⟨⟨htarget, fun c hc ↦ ?_⟩, fun c hc hday ↦ ?_⟩
      · obtain rfl := Option.some.inj hc
        change Loaded py reading _ w.held _ _
        rw [hheld]
        exact hkept.1
      · obtain rfl := Option.some.inj hc
        change UpToDate py reading _ w.held _ _
        rw [hheld]
        exact hkept.2 hday

theorem Serving.start {remote : Remote} (h : Serving py reading d₀ asked e)
    (hstart : Start py reading Calls e remote e') :
    Serving py reading d₀ (asked ++ [remote]) e' := by
  cases hstart with
  | @start updated w s day now time hnone hcall hday hload =>
    have htarget := h.target.calls hcall
    refine ⟨htarget, fun c hc ↦ ?_⟩
    obtain rfl := Option.some.inj hc
    cases hbuilt : rebuild py (reading.directory w.held) day with
    | error error => exact nomatch (Prod.mk.inj ((outcome_load_of_error hbuilt).symm.trans hload)).1
    | ok built =>
      rw [outcome_load_of_ok hbuilt] at hload
      obtain rfl := (Prod.mk.inj hload).2
      exact Loaded.of_rebuild (htarget.of_accepts (accepts_iff_succeeds.mpr ⟨built, hbuilt⟩)) hbuilt

theorem Run.serving (h : Run py reading interval d₀ asked e) :
    Serving py reading d₀ asked e := by
  induction h with
  | deployed w today h => exact ⟨Or.inr (Or.inl h), fun c hc ↦ nomatch hc⟩
  | start h hstart ih => exact ih.start hstart
  | turn h hturn ih => exact (ih.turn hturn).1
  | ended h hcall ih => exact ⟨ih.target.calls hcall, fun c hc ↦ nomatch hc⟩
  | killed h ih => exact ⟨ih.target, fun c hc ↦ nomatch hc⟩

/-- **What the consumer serves.** Whatever fails, and wherever the process dies and starts again,
the lookups are the load of one bundle, the first one or a complete one that was downloaded. After
a turn within one day they are the load, on this day, of a bundle with the version of the target,
unless the loader rejects what is in the target. -/
theorem refresh_run (h : Run py reading interval d₀ asked e) (hc : e.consumer = some c) :
    Loaded py reading (Offered d₀ asked) e.world.held e.today c.staticData ∧
      ∀ r remote e' c', Turn py reading interval Calls e r remote e' → e'.consumer = some c' →
        r.firstCheck = r.secondLoad → UpToDate py reading (Offered d₀ (asked ++ remote.toList))
          e'.world.held e'.today c'.staticData :=
  ⟨h.serving.snapshot c hc, fun _ _ _ c' hturn ↦ (h.serving.turn hturn).2 c'⟩

/-- A turn returns if the loader accepts what it finds in the target and what a download leaves. -/
theorem returns_of_accepts {target : Dir} (hfirst : Accepts py reading r.firstLoad target)
    (hsecond : Accepts py reading r.secondLoad target) :
    (outcome (maybeRefreshGtfsStatic py (reading.directory target) r
      (.ok (reading.directory target)) interval) c).1 = .ok () := by
  have hloads {day : ℤ} (h : Accepts py reading day target) :
      ¬LoadEscapes py (reading.directory target) day := fun hescapes ↦
    (escapes_rebuild.mpr hescapes).not_succeeds (accepts_iff_succeeds.mp h)
  refine returns_iff.mpr ?_
  rintro (⟨-, hescapes⟩ | ⟨-, hraises | ⟨dir, hdir, -, hescapes⟩⟩)
  · exact hloads hfirst hescapes
  · exact not_escapes_ok hraises
  · obtain rfl := Except.ok.inj hdir
    exact hloads hsecond hescapes

end

/-! ## The first two days -/

def emptyTarget : World where
  dir _ := none
  remote := ⟨none, none⟩

/-- A call without a failure puts the bundle in place, or finds it there. -/
theorem exists_call {w : World} {v : Version} {d : Dir} (hbundle : v.remote.bundle = some d)
    (hcomplete : Complete d) (hw : w.held = ∅ ∨ w.held = d) :
    ∃ updated w', w'.held = d ∧ SmoothCalls w v.remote (.finished (.ok updated) w') := by
  have hlegible : Legible w.held (validators v.headers) := by
    rcases hw with hempty | hheld
    · exact hempty ▸ legible_empty _
    · exact hheld ▸ legible_of_bundle hbundle
  obtain ⟨updated, w', heval, hsettles⟩ := returns_settles
    (w := { w with remote := v.remote }) (v := v) rfl hlegible hbundle hcomplete
  refine ⟨updated, w', ?_, by rw [SmoothCalls, heval]⟩
  rcases hsettles with ⟨hcurrent, hheld⟩ | hnew
  · have hcurrent' : IsCurrent w.held (validators v.headers) := hcurrent
    exact hheld.trans (hw.resolve_left fun hempty ↦ not_isCurrent_empty _ (hempty ▸ hcurrent'))
  · exact Option.some.inj (hnew.symm.trans hbundle)

/-- The process is deployed without a bundle, downloads one, and loads it. -/
theorem exists_started {py : Python} {reading : Reading} {v : Version} {d : Dir} {day : ℤ}
    (hbundle : v.remote.bundle = some d) (haccepts : Accepts py reading day d) : ∃ w, w.held = d ∧
      Start py reading SmoothCalls { world := emptyTarget, today := day } v.remote
        ⟨w, some ⟨(outcome (load py (reading.directory d) day 0) {}).2, 0⟩, day⟩ := by
  have hempty : emptyTarget.held = ∅ := rfl
  obtain ⟨updated, w, rfl, hcall⟩ := exists_call hbundle haccepts.complete (Or.inl hempty)
  exact ⟨w, rfl, .start rfl hcall le_rfl (Prod.ext (haccepts 0 {}) rfl)⟩

def taggedVersion : Version := ⟨"v2", "", some (bundleWith "stop_id")⟩

theorem bundle_taggedVersion : taggedVersion.remote.bundle = some (tagged "stop_id") := by
  have hvalidators : validators taggedVersion.headers = (some "v2", none) := by decide
  have hnames : (bundleWith "stop_id").map Prod.fst = requiredFiles := rfl
  exact bundle_of_requiredFiles rfl rfl hnames hvalidators

theorem accepts_tagged {day : ℤ} (h : day = 20513 ∨ day = 20514) :
    Accepts plainPython withoutRows day (tagged "stop_id") := by
  refine accepts_iff_succeeds.mpr ?_
  rcases h with rfl | rfl
  · decide
  · decide

theorem exists_started_tagged : ∃ w s, w.held = tagged "stop_id" ∧
    Start plainPython withoutRows SmoothCalls { world := emptyTarget, today := 20513 }
      taggedVersion.remote ⟨w, some ⟨s, 0⟩, 20513⟩ := by
  obtain ⟨w, hheld, hstart⟩ :=
    exists_started bundle_taggedVersion (accepts_tagged (Or.inl rfl))
  exact ⟨w, _, hheld, hstart⟩

/-- The readings of a turn a day after the start. -/
def nextDay : Readings := ⟨20514, 20514, 0, 86400, 20514, 20514, 0⟩

theorem exists_firstDays : ∃ w s w' c, w.held = tagged "stop_id" ∧
    Start plainPython withoutRows SmoothCalls { world := emptyTarget, today := 20513 }
      taggedVersion.remote ⟨w, some ⟨s, 0⟩, 20513⟩ ∧
    Turn plainPython withoutRows 86400 SmoothCalls ⟨w, some ⟨s, 0⟩, 20513⟩ nextDay
      (some taggedVersion.remote) ⟨w', some c, 20514⟩ := by
  obtain ⟨w, s, hheld, hstart⟩ := exists_started_tagged
  obtain ⟨updated, w', hheld', hcall⟩ :=
    exists_call bundle_taggedVersion (by decide) (Or.inr hheld)
  have haccepts := accepts_tagged (Or.inr rfl)
  obtain ⟨c, hreturns⟩ : ∃ c, outcome (maybeRefreshGtfsStatic plainPython
      (withoutRows.directory w.held) nextDay (.ok (withoutRows.directory w'.held)) 86400) ⟨s, 0⟩ =
        (.ok (), c) := by
    rw [hheld, hheld']
    exact ⟨_, Prod.ext (returns_of_accepts haccepts haccepts) rfl⟩
  have hturn : Turn plainPython withoutRows 86400 SmoothCalls ⟨w, some ⟨s, 0⟩, 20513⟩ nextDay
      (some taggedVersion.remote) ⟨w', some c, 20514⟩ :=
    .checking rfl ⟨show (20513 : ℤ) ≤ 20514 by decide, le_rfl, le_rfl, le_rfl⟩
      (by norm_num [nextDay]) hcall (.returned updated w') hreturns
  exact ⟨w, s, w', c, hheld, hstart, hturn⟩

/-- The process serves what it has downloaded, and a day later what it has then loaded. -/
theorem refresh_run_nextDay : ∃ (s s' : GtfsStaticData) (w : World),
    Loaded plainPython withoutRows (Offered ∅ [taggedVersion.remote]) (tagged "stop_id") 20513 s ∧
    UpToDate plainPython withoutRows (Offered ∅ [taggedVersion.remote, taggedVersion.remote]) w.held
      20514 s' := by
  obtain ⟨w, s, w', c', hheld, hstart, hturn⟩ := exists_firstDays
  have hrun : Run plainPython withoutRows 86400 ∅ [taggedVersion.remote] ⟨w, some ⟨s, 0⟩, 20513⟩ :=
    (Run.deployed emptyTarget 20513 rfl).start (hstart.mono fun _ _ _ ↦ SmoothCalls.calls)
  have hcalls := hturn.mono fun _ _ _ ↦ SmoothCalls.calls
  obtain ⟨hloaded, hlater⟩ := refresh_run hrun rfl
  have huptodate := hlater nextDay (some taggedVersion.remote) _ c' hcalls rfl rfl
  dsimp only at hloaded
  rw [hheld] at hloaded
  exact ⟨s, c'.staticData, w', hloaded, huptodate⟩

end GtfsStream.GtfsStatic
