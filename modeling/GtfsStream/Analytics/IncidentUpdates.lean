import GtfsStream.Analytics.Segmentation
import GtfsStream.Analytics.WindowedBunching
import Mathlib.Data.Finset.Card

/-!
# What an update says of its incident

An incident of a pair starts with a new action and goes on with updates. An update is merged from
the tracked event and an event of the window, and the window may show a part of the incident only.
Its end and its smallest distance are those of the incident as long as no close row was passed over,
but it counts the buckets of the window's event, so the count is that of the incident exactly if the
window shows all of it again.

A chronicle follows one pair through a run of windows: the actions emitted for it, and the close
rows seen since the last new one.
-/

open GtfsStream.Analytics.BunchingEventTracker (reconcileKey action isContinuation updatedEvent
  action_endTime)

namespace GtfsStream.Analytics

/-- A window as it is processed: the lookups of that moment, and the frame. -/
structure WindowFrame where
  static : GtfsStaticData
  pings : List Ping

namespace WindowFrame

variable (frames : Frames) (w : WindowFrame)

/-- The actions of a window, and the tracker after it. -/
def reconcile (tracker : BunchingEventTracker) :
    List (Action × BunchingEvent) × BunchingEventTracker :=
  tracker.reconcile (windowEvents frames w.static w.pings) (newest w.pings)

/-- The close rows of a pair, in the order of time. -/
def closeRows (key : PairKey) : List PairRow :=
  pairGroup (findClosePairs frames w.static w.pings).1 key

/-- The events of a pair. -/
def events (key : PairKey) : List BunchingEvent := pairEvents frames w.static w.pings key

end WindowFrame

/-- What a run of windows has come to for a pair. -/
structure Chronicle where
  tracker : BunchingEventTracker := fun _ ↦ none
  /-- The actions emitted for the pair. -/
  actions : List (Action × BunchingEvent) := []
  /-- The close rows of the pair in the windows since its last new action. -/
  seen : List PairRow := []

def Chronicle.next (frames : Frames) (key : PairKey) (c : Chronicle) (w : WindowFrame) :
    Chronicle :=
  let out := w.reconcile frames c.tracker
  let emitted := out.1.filter (·.2.key = key)
  { tracker := out.2
    actions := c.actions ++ emitted
    seen :=
      if emitted.any (·.1 = .new) then w.closeRows frames key
      else c.seen ++ w.closeRows frames key }

theorem Chronicle.next_tracker (frames : Frames) (key : PairKey) (c : Chronicle) (w : WindowFrame) :
    (c.next frames key w).tracker = (w.reconcile frames c.tracker).2 := by
  rw [Chronicle.next]

/-- The chronicle of a pair after these windows, from the start. -/
def chronicle (frames : Frames) (key : PairKey) (windows : List WindowFrame) : Chronicle :=
  windows.foldl (Chronicle.next frames key) {}

/-- The rows in the time of an event. -/
def rowsWithin (e : BunchingEvent) (rows : List PairRow) : List PairRow :=
  rows.filter fun r ↦ e.startTime ≤ r.timeBucket ∧ r.timeBucket ≤ e.endTime

/-- The distinct buckets of some rows. -/
def distinctBuckets (rows : List PairRow) : Finset Time := (rows.map PairRow.timeBucket).toFinset

/-- The update describes the incident, whose close rows so far are these. -/
structure DescribesIncident (rows : List PairRow) (previous updated : BunchingEvent) : Prop where
  later : previous.endTime < updated.endTime
  least : (∃ r ∈ rows, r.distanceMeters = updated.minDistanceMeters) ∧
    ∀ r ∈ rows, updated.minDistanceMeters ≤ r.distanceMeters
  size : updated.observationCount = (distinctBuckets rows).card
  grows : previous.observationCount ≤ updated.observationCount

variable {frames : Frames} {static : GtfsStaticData} {pings : List Ping} {w : WindowFrame}
  {key : PairKey} {e f g : BunchingEvent} {r : PairRow} {rows more : List PairRow}
  {events : List BunchingEvent} {previous : Option BunchingEvent}

theorem mem_rowsWithin :
    r ∈ rowsWithin e rows ↔ r ∈ rows ∧ e.startTime ≤ r.timeBucket ∧ r.timeBucket ≤ e.endTime := by
  rw [rowsWithin, List.mem_filter, decide_eq_true_iff]

theorem mem_distinctBuckets {t : Time} :
    t ∈ distinctBuckets rows ↔ ∃ r ∈ rows, r.timeBucket = t := by
  rw [distinctBuckets, List.mem_toFinset, List.mem_map]

theorem distinctBuckets_subset (h : ∀ r ∈ rows, r ∈ more) :
    distinctBuckets rows ⊆ distinctBuckets more := by
  intro t ht
  obtain ⟨r, hr, rfl⟩ := mem_distinctBuckets.mp ht
  exact mem_distinctBuckets.mpr ⟨r, h r hr, rfl⟩

/-! ## The events of a window -/

/-- An event says what the rows in its time are: they have its count of buckets, and its smallest
distance. -/
structure Shown (rows : List PairRow) (e : BunchingEvent) : Prop where
  ordered : e.startTime ≤ e.endTime
  least : (∃ r ∈ rowsWithin e rows, r.distanceMeters = e.minDistanceMeters) ∧
    ∀ r ∈ rowsWithin e rows, e.minDistanceMeters ≤ r.distanceMeters
  size : e.observationCount = (distinctBuckets (rowsWithin e rows)).card

theorem shown_of_mem (he : e ∈ w.events frames key) : Shown (w.closeRows frames key) e := by
  have hone := oneRow_findClosePairs frames w.static w.pings
  have hstrict := pairGroup_strict_of_oneRow hone key
  have hspan := (pairEvents_inOrder key).span e he
  rw [WindowFrame.events, pairEvents, windowEvents, filter_detectBunchingEvents] at he
  obtain ⟨run, hrun, -, hevent⟩ := mem_groupEvents.mp he
  have hmaximal := (mem_splitBy_pairGroup hone).mp hrun
  have hdescribes := describes_of_runEvent hevent
  have hfirst : (run.head hmaximal.ne_nil).timeBucket = e.startTime := by
    have h := hdescribes.first
    rw [List.head?_eq_some_head hmaximal.ne_nil] at h
    exact Option.some.inj h
  have hlast : (run.getLast hmaximal.ne_nil).timeBucket = e.endTime := by
    have h := hdescribes.last
    rw [List.getLast?_eq_some_getLast hmaximal.ne_nil] at h
    exact Option.some.inj h
  -- the rows in the time of the event are those of its run
  have hrows {r : PairRow} : r ∈ rowsWithin e (w.closeRows frames key) ↔ r ∈ run := by
    rw [mem_rowsWithin, WindowFrame.closeRows, mem_pairGroup, ← hfirst, ← hlast]
    constructor
    · rintro ⟨hr, hge, hle⟩
      exact hmaximal.whole r hr hge hle
    · intro hr
      exact ⟨hmaximal.sub r hr, Runs.pos_head_le hmaximal.sorted hmaximal.ne_nil hr,
        Runs.pos_le_getLast hmaximal.sorted hmaximal.ne_nil hr⟩
  obtain ⟨hleast, hlower⟩ := List.min?_eq_some_iff.mp hdescribes.least
  obtain ⟨r, hr, hdistance⟩ := List.mem_map.mp hleast
  refine ⟨hspan, ⟨⟨r, hrows.mpr hr, hdistance⟩, fun s hs ↦ ?_⟩, ?_⟩
  · exact hlower _ (List.mem_map_of_mem (hrows.mp hs))
  · have hbuckets : distinctBuckets (rowsWithin e (w.closeRows frames key)) =
        distinctBuckets run := by
      ext t
      rw [mem_distinctBuckets, mem_distinctBuckets]
      exact exists_congr fun r ↦ and_congr_left fun _ ↦ hrows
    have hnodup : (run.map PairRow.timeBucket).Nodup :=
      List.pairwise_map.mpr (hmaximal.sorted.imp ne_of_lt)
    rw [hbuckets, distinctBuckets, List.toFinset_card_of_nodup hnodup, List.length_map,
      hdescribes.size]

/-- Between two events of a window lies more than one poll interval. -/
theorem events_apart : (w.events frames key).Pairwise fun e f ↦
    e.endTime + seconds pollIntervalSeconds < f.startTime := by
  refine (pairEvents_inOrder key).apart.imp_of_mem fun {e f} he hf hlt ↦ ?_
  obtain ⟨a, b, -, hstretch, -, hb⟩ := exists_pairEvent_iff.mp ⟨e, he, rfl, rfl⟩
  obtain ⟨c, d, hcd, hstretch', hc, -⟩ := exists_pairEvent_iff.mp ⟨f, hf, rfl, rfl⟩
  rw [hb, hc, slotTime_lt] at hlt
  have hnext : slotTime b + seconds pollIntervalSeconds = slotTime (b + 1) :=
    (add_one_mul b _).symm
  rw [hb, hc, hnext, slotTime_lt]
  refine lt_of_le_of_ne hlt fun heq ↦ hstretch.right ?_
  exact hstretch'.inside (b + 1) heq.ge (heq ▸ hcd.le)

/-! ## One action -/

theorem action_eq_some {act : Action} (h : action previous e = some (act, g)) :
    act = .new ∧ g = e ∨ act = .update ∧ ∃ f, previous = some f ∧ isContinuation f e = true ∧
      f.endTime < e.endTime ∧ g = updatedEvent f e := by
  cases previous with
  | none =>
    obtain ⟨hact, hg⟩ := Prod.mk.inj (Option.some.inj h)
    exact Or.inl ⟨hact.symm, hg.symm⟩
  | some f =>
    unfold action at h
    dsimp only at h
    split_ifs at h with hcontinues hlater
    · obtain ⟨hact, hg⟩ := Prod.mk.inj (Option.some.inj h)
      exact Or.inr ⟨hact.symm, f, rfl, hcontinues, hlater, hg.symm⟩
    · obtain ⟨hact, hg⟩ := Prod.mk.inj (Option.some.inj h)
      exact Or.inl ⟨hact.symm, hg.symm⟩

theorem reconcileKey_snd (previous : Option BunchingEvent) (events : List BunchingEvent) :
    (reconcileKey previous events).2 =
      ((reconcileKey previous events).1.getLast?.map Prod.snd).or previous := by
  induction events generalizing previous with
  | nil => rfl
  | cons e events ih =>
    rw [reconcileKey]
    cases haction : action previous e with
    | none => exact ih previous
    | some emission =>
      obtain ⟨act, g⟩ := emission
      dsimp only
      rw [ih (some g)]
      cases hlast : (reconcileKey (some g) events).1 with
      | nil => rfl
      | cons a actions =>
        rw [List.getLast?_cons_cons]
        cases hsome : (a :: actions).getLast? with
        | none => exact absurd (List.getLast?_eq_none_iff.mp hsome) (List.cons_ne_nil a actions)
        | some b => rfl

/-- Events that do not touch the tracked one, nor each other, are all new. -/
theorem forall_new (hfirst : ∀ e ∈ events, g.endTime + seconds pollIntervalSeconds < e.startTime)
    (hapart : events.Pairwise fun e f ↦ e.endTime + seconds pollIntervalSeconds < f.startTime) :
    ∀ a ∈ (reconcileKey (some g) events).1, a.1 = .new := by
  induction events generalizing g with
  | nil => exact fun a ha ↦ absurd ha List.not_mem_nil
  | cons e events ih =>
    obtain ⟨he, hapart⟩ := List.pairwise_cons.mp hapart
    have hnew : action (some g) e = some (.new, e) :=
      if_neg fun hcontinues ↦ absurd (of_decide_eq_true hcontinues)
        (hfirst e List.mem_cons_self).not_ge
    rw [reconcileKey, hnew]
    exact List.forall_mem_cons.mpr ⟨rfl, ih he hapart⟩

/-- An update of a window is of the event that was tracked before it. -/
theorem exists_of_update_mem {u : BunchingEvent}
    (hapart : events.Pairwise fun e f ↦ e.endTime + seconds pollIntervalSeconds < f.startTime)
    (hu : (Action.update, u) ∈ (reconcileKey previous events).1) :
    ∃ f, previous = some f ∧ ∃ e ∈ events, f.endTime < e.endTime ∧ u = updatedEvent f e := by
  induction events with
  | nil => exact absurd hu List.not_mem_nil
  | cons e events ih =>
    obtain ⟨he, hapart⟩ := List.pairwise_cons.mp hapart
    rw [reconcileKey] at hu
    cases haction : action previous e with
    | none =>
      rw [haction] at hu
      obtain ⟨f, hf, e', he', hupdate⟩ := ih hapart hu
      exact ⟨f, hf, e', List.mem_cons_of_mem _ he', hupdate⟩
    | some emission =>
      obtain ⟨act, g⟩ := emission
      rw [haction] at hu
      rcases List.mem_cons.mp hu with heq | hrest
      · obtain ⟨rfl, rfl⟩ := Prod.mk.inj heq
        rcases action_eq_some haction with ⟨hact, -⟩ | ⟨-, f, hf, -, hlater, hg⟩
        · cases hact
        · exact ⟨f, hf, e, List.mem_cons_self, hlater, hg⟩
      · rw [← action_endTime haction] at he
        cases forall_new he hapart _ hrest

/-! ## What is tracked -/

/-- A tracked event has the distance of a row seen in its time, and does not count more buckets
than were seen. -/
structure Kept (rows : List PairRow) (f : BunchingEvent) : Prop where
  attained : ∃ r ∈ rowsWithin f rows, r.distanceMeters = f.minDistanceMeters
  counted : f.observationCount ≤ (distinctBuckets (rowsWithin f rows)).card

theorem Shown.kept (h : Shown rows e) : Kept rows e := ⟨h.least.1, h.size.le⟩

theorem Kept.mono (h : Kept rows f) (hsub : ∀ r ∈ rows, r ∈ more) : Kept more f := by
  have hwithin (r : PairRow) (hr : r ∈ rowsWithin f rows) : r ∈ rowsWithin f more :=
    mem_rowsWithin.mpr (And.imp_left (hsub r) (mem_rowsWithin.mp hr))
  obtain ⟨r, hr, hdistance⟩ := h.attained
  exact ⟨⟨r, hwithin r hr, hdistance⟩,
    h.counted.trans (Finset.card_le_card (distinctBuckets_subset hwithin))⟩

/-- The rows in the time of the tracked event or of the one that continues it are in the time of the
update. -/
theorem mem_rowsWithin_updatedEvent (hlater : f.endTime < e.endTime)
    (h : r ∈ rowsWithin f rows ∨ r ∈ rowsWithin e rows) :
    r ∈ rowsWithin (updatedEvent f e) rows := by
  rw [mem_rowsWithin] at h ⊢
  rw [mem_rowsWithin] at h
  rcases h with ⟨hr, hge, hle⟩ | ⟨hr, hge, hle⟩
  · exact ⟨hr, (min_le_left _ _).trans hge, hle.trans hlater.le⟩
  · exact ⟨hr, (min_le_right _ _).trans hge, hle⟩

theorem Kept.update (h : Kept rows f) (he : Kept rows e) (hlater : f.endTime < e.endTime) :
    Kept rows (updatedEvent f e) := by
  obtain ⟨r, hr, hdistance⟩ := h.attained
  obtain ⟨s, hs, hdistance'⟩ := he.attained
  constructor
  · rcases le_total f.minDistanceMeters e.minDistanceMeters with hle | hle
    · exact ⟨r, mem_rowsWithin_updatedEvent hlater (Or.inl hr),
        hdistance.trans (min_eq_left hle).symm⟩
    · exact ⟨s, mem_rowsWithin_updatedEvent hlater (Or.inr hs),
        hdistance'.trans (min_eq_right hle).symm⟩
  · exact he.counted.trans (Finset.card_le_card (distinctBuckets_subset fun r hr ↦
      mem_rowsWithin_updatedEvent hlater (Or.inr hr)))

/-- The events of a window keep what is known of the tracked event. After a new action only the rows
of the window count. -/
theorem kept_reconcileKey (hshown : ∀ e ∈ events, Shown more e) (hsub : ∀ r ∈ more, r ∈ rows)
    (h : ∀ f, previous = some f → Kept rows f) :
    ∀ f, (reconcileKey previous events).2 = some f →
      Kept (if (reconcileKey previous events).1.any (·.1 = .new) then more else rows) f := by
  induction events generalizing previous rows with
  | nil => exact h
  | cons e events ih =>
    obtain ⟨he, hrest⟩ := List.forall_mem_cons.mp hshown
    rw [reconcileKey]
    cases haction : action previous e with
    | none => exact ih hrest hsub h
    | some emission =>
      obtain ⟨act, g⟩ := emission
      dsimp only
      rw [List.any_cons]
      rcases action_eq_some haction with ⟨rfl, rfl⟩ | ⟨rfl, f, hf, -, hlater, rfl⟩
      · -- the incident starts anew, with the rows of the window
        have hkept := ih hrest (fun r hr ↦ hr) fun f hf ↦ Option.some.inj hf ▸ he.kept
        rw [ite_self] at hkept
        have hnew : decide ((Action.new, g).1 = Action.new) = true := rfl
        rw [hnew, Bool.true_or, if_pos rfl]
        exact hkept
      · have hkept := ih hrest hsub fun g hg ↦
          Option.some.inj hg ▸ (h f hf).update (he.kept.mono hsub) hlater
        have hnot : decide ((Action.update, updatedEvent f e).1 = Action.new) = false := rfl
        rw [hnot, Bool.false_or]
        exact hkept

/-! ## A run of windows -/

theorem reconcile_key (frames : Frames) (w : WindowFrame) (tracker : BunchingEventTracker)
    (key : PairKey) :
    (w.reconcile frames tracker).1.filter (·.2.key = key) =
        (reconcileKey (tracker key) (w.events frames key)).1 ∧
      ∀ f, (w.reconcile frames tracker).2 key = some f →
        (reconcileKey (tracker key) (w.events frames key)).2 = some f := by
  obtain ⟨hactions, htracked⟩ := BunchingEventTracker.reconcileAll_key tracker
    (windowEvents frames w.static w.pings) key
  rw [WindowFrame.reconcile, BunchingEventTracker.reconcile, WindowFrame.events, pairEvents]
  dsimp only
  refine ⟨hactions, fun f hf ↦ ?_⟩
  rw [← htracked]
  exact (purgeStale_eq_some.mp hf).1

/-- What is tracked after a run of windows is what was emitted last. -/
theorem chronicle_tracked (frames : Frames) (key : PairKey) (windows : List WindowFrame)
    (hf : (chronicle frames key windows).tracker key = some f) :
    (∃ act, (chronicle frames key windows).actions.getLast? = some (act, f)) ∧
      Kept (chronicle frames key windows).seen f := by
  induction windows using List.reverseRecOn generalizing f with
  | nil => exact absurd hf.symm (Option.some_ne_none f)
  | append_singleton windows w ih =>
    rw [chronicle, List.foldl_append, List.foldl_cons, List.foldl_nil] at hf ⊢
    change (Chronicle.next frames key (chronicle frames key windows) w).tracker key = some f at hf
    change (∃ act, (Chronicle.next frames key (chronicle frames key windows) w).actions.getLast? =
      some (act, f)) ∧ Kept (Chronicle.next frames key (chronicle frames key windows) w).seen f
    generalize chronicle frames key windows = c at hf ih ⊢
    obtain ⟨hactions, htracked⟩ := reconcile_key frames w c.tracker key
    rw [Chronicle.next_tracker] at hf
    have hafter := htracked f hf
    rw [Chronicle.next]
    dsimp only
    rw [hactions]
    constructor
    · rw [reconcileKey_snd] at hafter
      rw [List.getLast?_append]
      cases hlast : (reconcileKey (c.tracker key) (w.events frames key)).1.getLast? with
      | none =>
        rw [hlast] at hafter
        exact (ih hafter).1
      | some a =>
        rw [hlast] at hafter
        exact ⟨a.1, congrArg some (Prod.ext rfl (Option.some.inj hafter))⟩
    · have hshown : ∀ e ∈ w.events frames key, Shown (w.closeRows frames key) e :=
        fun e he ↦ shown_of_mem he
      have hprevious : ∀ g, c.tracker key = some g → Kept (c.seen ++ w.closeRows frames key) g :=
        fun g hg ↦ (ih hg).2.mono fun r hr ↦ List.mem_append_left _ hr
      exact kept_reconcileKey hshown (fun r hr ↦ List.mem_append_right c.seen hr) hprevious f hafter

/-- **What an update of a run says**: it ends later than the last action, and it describes the
incident exactly if the window's event shows again every bucket in which the pair was seen close,
and no close row is closer than both the last action and the window's event. -/
theorem describesIncident_iff (frames : Frames) (key : PairKey) (windows : List WindowFrame)
    (w : WindowFrame) (u : BunchingEvent)
    (hu : (Action.update, u) ∈ (w.reconcile frames (chronicle frames key windows).tracker).1)
    (hkey : u.key = key) :
    ∃ act last, (chronicle frames key windows).actions.getLast? = some (act, last) ∧
      ∃ e ∈ w.events frames key, e.endTime = u.endTime ∧ last.endTime < u.endTime ∧
        let rows := rowsWithin u ((chronicle frames key windows).seen ++ w.closeRows frames key)
        (DescribesIncident rows last u ↔ ∀ r ∈ rows,
          (last.minDistanceMeters ≤ r.distanceMeters ∨ e.minDistanceMeters ≤ r.distanceMeters) ∧
            ∃ s ∈ rowsWithin e (w.closeRows frames key), s.timeBucket = r.timeBucket) := by
  generalize hc : chronicle frames key windows = c at hu
  have htracked (f : BunchingEvent) (hf : c.tracker key = some f) :
      (∃ act, c.actions.getLast? = some (act, f)) ∧ Kept c.seen f := by
    rw [← hc] at hf ⊢
    exact chronicle_tracked frames key windows hf
  have hmem : (Action.update, u) ∈ (reconcileKey (c.tracker key) (w.events frames key)).1 := by
    rw [← (reconcile_key frames w c.tracker key).1]
    exact List.mem_filter.mpr ⟨hu, decide_eq_true hkey⟩
  obtain ⟨f, hf, e, he, hlater, rfl⟩ := exists_of_update_mem events_apart hmem
  obtain ⟨⟨act, hlast⟩, hkept⟩ := htracked f hf
  have hshown := shown_of_mem he
  refine ⟨act, f, hlast, e, he, rfl, hlater, ?_⟩
  dsimp only
  have hfirst := hkept.mono fun r hr ↦ List.mem_append_left (w.closeRows frames key) hr
  have hall := hfirst.update (hshown.kept.mono fun r hr ↦ List.mem_append_right c.seen hr) hlater
  generalize hrows : rowsWithin (updatedEvent f e) (c.seen ++ w.closeRows frames key) = rows at hall
  have hsubset :
      distinctBuckets (rowsWithin e (w.closeRows frames key)) ⊆ distinctBuckets rows := by
    refine distinctBuckets_subset fun r hr ↦ hrows ▸ ?_
    rw [mem_rowsWithin] at hr
    exact mem_rowsWithin_updatedEvent hlater (Or.inr (mem_rowsWithin.mpr
      ⟨List.mem_append_right _ hr.1, hr.2⟩))
  constructor
  · rintro ⟨-, ⟨-, hleast⟩, hsize, -⟩ r hr
    refine ⟨min_le_iff.mp (hleast r hr), ?_⟩
    -- the counts agree, so the window shows every bucket of the incident
    have hcard : (distinctBuckets rows).card =
        (distinctBuckets (rowsWithin e (w.closeRows frames key))).card :=
      hsize.symm.trans hshown.size
    rw [← mem_distinctBuckets, Finset.eq_of_subset_of_card_le hsubset hcard.le]
    exact mem_distinctBuckets.mpr ⟨r, hr, rfl⟩
  · intro h
    have hsize : (distinctBuckets (rowsWithin e (w.closeRows frames key))).card =
        (distinctBuckets rows).card := by
      refine congrArg _ (hsubset.antisymm fun t ht ↦ ?_)
      obtain ⟨r, hr, rfl⟩ := mem_distinctBuckets.mp ht
      exact mem_distinctBuckets.mpr (h r hr).2
    have hcount : (updatedEvent f e).observationCount = (distinctBuckets rows).card :=
      hshown.size.trans hsize
    refine ⟨hlater, ⟨hrows ▸ hall.attained, fun r hr ↦ min_le_iff.mpr (h r hr).1⟩, hcount, ?_⟩
    rw [hcount, ← hrows]
    exact hfirst.counted.trans (Finset.card_le_card (distinctBuckets_subset fun r hr ↦
      mem_rowsWithin_updatedEvent hlater (Or.inl hr)))

/-- A window in which two vehicles are at one point at these times. -/
def closeAt (times : List ℕ) : WindowFrame :=
  ⟨.oneWay, times.flatMap fun t ↦ [passing "v1" t, passing "v2" t]⟩

def passingPair : PairKey := ⟨"r1", 0, "v1", "v2"⟩

/-- What the tracker has of the two after one update. -/
def bunchedUntil (stop count : ℕ) : BunchingEvent :=
  { routeId := "r1", directionId := 0, vehicleA := "v1", vehicleB := "v2"
    startTime := 0, endTime := seconds stop, observationCount := count, minDistanceMeters := 0 }

/-- An update that shows the incident from its start. -/
theorem describesIncident_iff_wholeIncident :
    ∃ act last, (chronicle meridian passingPair [closeAt [0, 15]]).actions.getLast? =
      some (act, last) ∧ last.endTime < (bunchedUntil 30 3).endTime := by
  obtain ⟨act, last, hlast, e, -, -, hlater, -⟩ := describesIncident_iff meridian passingPair
    [closeAt [0, 15]] (closeAt [0, 15, 30]) (bunchedUntil 30 3) (by decide +kernel) rfl
  exact ⟨act, last, hlast, hlater⟩

/-- After five buckets a window shows the last three of them and one more: the update counts four
buckets of six. -/
theorem not_describesIncident_overlap :
    ¬∀ (frames : Frames) (key : PairKey) (windows : List WindowFrame) (w : WindowFrame)
      (act : Action) (last u : BunchingEvent),
      ((windows ++ [w]).Pairwise fun v w ↦
        ∀ s ∈ newest v.pings, ∀ t ∈ newest w.pings, s ≤ t) →
      (Action.update, u) ∈ (w.reconcile frames (chronicle frames key windows).tracker).1 →
      u.key = key → (chronicle frames key windows).actions.getLast? = some (act, last) →
      DescribesIncident
        (rowsWithin u ((chronicle frames key windows).seen ++ w.closeRows frames key)) last u := by
  intro hall
  have hsize := (hall meridian passingPair [closeAt [0, 15, 30, 45, 60]]
    (closeAt [30, 45, 60, 75]) .new (bunchedUntil 60 5) (bunchedUntil 75 4) (by decide +kernel)
    (by decide +kernel) rfl (by decide +kernel)).size
  revert hsize
  decide +kernel

end GtfsStream.Analytics
