import GtfsStream.Analytics.Overlap
import GtfsStream.Analytics.Writer

/-!
# The record of one pair

The documents of a pair and the event that is tracked for it are a record of incidents: what the
tracker emits for the events of a window is what the record takes from their intervals.

## Why the starts suffice

An event is recorded by its start, and an update computes the start again from the tracked event. As
long as the record mirrors the two, the document of a start ends where the last action with that
start ended. Of an event only its two ends matter here; its count and its distance play no part in
what is emitted.
-/

open GtfsStream.Analytics.BunchingEventTracker (action reconcileKey isContinuation updatedEvent)

namespace GtfsStream.Analytics

/-- The poll intervals in which an event starts and ends. -/
def BunchingEvent.span (e : BunchingEvent) : ℤ × ℤ := (slot e.startTime, slot e.endTime)

/-- An event that starts and ends with poll intervals. -/
structure BunchingEvent.OnGrid (e : BunchingEvent) : Prop where
  start : e.startTime = slotTime e.span.1
  ending : e.endTime = slotTime e.span.2

/-- The ends of the events of a pair that are recorded, by their starts. -/
def Documents.ends (docs : Documents) (key : PairKey) (t : Time) : Option Time :=
  (docs.bunchingEvents (key, t)).map BunchingDocument.endTime

/-- What the actions of one pair record. -/
def recordEnds (ends : Time → Option Time) (actions : List (Action × BunchingEvent)) :
    Time → Option Time :=
  actions.foldl (fun ends a ↦ Function.update ends a.2.startTime (some a.2.endTime)) ends

/-- The recorded ends and the tracked event are those of a record of incidents. -/
structure Mirrors (ends : Time → Option Time) (tracked : Option BunchingEvent) (s : Incidents) :
    Prop where
  recorded : ∀ t u, ends t = some u ↔
    ∃ a b, s.recorded a = some b ∧ t = slotTime a ∧ u = slotTime b
  onGrid : ∀ f, tracked = some f → f.OnGrid
  tracked : tracked.map BunchingEvent.span = s.tracked

variable {frames : Frames} {static : GtfsStaticData} {pings : List Ping} {key : PairKey}
  {ends : Time → Option Time} {tracked : Option BunchingEvent} {s : Incidents}
  {e f : BunchingEvent} {docs : Documents}

/-! ## One event -/

theorem slotTime_add_one (i : ℤ) : slotTime i + seconds pollIntervalSeconds = slotTime (i + 1) :=
  (add_one_mul i _).symm

theorem isContinuation_iff (hf : f.OnGrid) (he : e.OnGrid) :
    isContinuation f e = true ↔ e.span.1 ≤ f.span.2 + 1 := by
  rw [isContinuation, decide_eq_true_iff, hf.ending, he.start, slotTime_add_one, slotTime_le]

theorem updatedEvent_onGrid (hf : f.OnGrid) (he : e.OnGrid) :
    (updatedEvent f e).OnGrid ∧
      (updatedEvent f e).span = (min f.span.1 e.span.1, e.span.2) := by
  have hmono : Monotone slotTime := fun a b hab ↦ slotTime_le.mpr hab
  have hstart : (updatedEvent f e).startTime = slotTime (min f.span.1 e.span.1) := by
    change min f.startTime e.startTime = _
    rw [hf.start, he.start, hmono.map_min]
  have hspan : (updatedEvent f e).span = (min f.span.1 e.span.1, e.span.2) := by
    rw [BunchingEvent.span, hstart, slot_slotTime]
    rfl
  refine ⟨⟨?_, ?_⟩, hspan⟩
  · rw [hspan, hstart]
  · rw [hspan]
    exact he.ending

/-- What the tracker emits for an event has the interval that the record takes. -/
theorem action_eq_emission (hf : ∀ f, tracked = some f → f.OnGrid) (he : e.OnGrid) :
    (action tracked e).map (fun a ↦ a.2.span) =
        Incidents.emission (tracked.map BunchingEvent.span) e.span ∧
      ∀ act emitted, action tracked e = some (act, emitted) → emitted.OnGrid := by
  cases tracked with
  | none =>
    refine ⟨rfl, fun act emitted h ↦ ?_⟩
    rw [← (Prod.mk.inj (Option.some.inj h)).2]
    exact he
  | some f =>
    have hfGrid := hf f rfl
    obtain ⟨hupdated, hspan⟩ := updatedEvent_onGrid hfGrid he
    have hmeets := isContinuation_iff hfGrid he
    have hlater : f.endTime < e.endTime ↔ f.span.2 < e.span.2 := by
      rw [hfGrid.ending, he.ending, slotTime_lt]
    rw [action, Option.map_some, Incidents.emission]
    by_cases hcontinues : isContinuation f e = true
    · rw [if_pos hcontinues, if_pos (hmeets.mp hcontinues)]
      by_cases hgrows : f.endTime < e.endTime
      · rw [if_pos hgrows, if_pos (hlater.mp hgrows), Option.map_some, hspan]
        refine ⟨rfl, fun act emitted h ↦ ?_⟩
        rw [← (Prod.mk.inj (Option.some.inj h)).2]
        exact hupdated
      · rw [if_neg hgrows, if_neg (mt hlater.mpr hgrows)]
        exact ⟨rfl, fun act emitted h ↦ absurd h.symm (Option.some_ne_none _)⟩
    · rw [if_neg hcontinues, if_neg (mt hmeets.mpr hcontinues), Option.map_some]
      refine ⟨rfl, fun act emitted h ↦ ?_⟩
      rw [← (Prod.mk.inj (Option.some.inj h)).2]
      exact he

theorem Mirrors.emit (h : Mirrors ends tracked s) (hf : f.OnGrid) :
    Mirrors (Function.update ends f.startTime (some f.endTime)) (some f)
      ⟨Function.update s.recorded f.span.1 (some f.span.2), some f.span⟩ := by
  refine ⟨fun t u ↦ ?_, fun g hg ↦ ?_, rfl⟩
  · by_cases ht : t = f.startTime
    · rw [ht, Function.update_self, Option.some.injEq, hf.start]
      constructor
      · rintro rfl
        exact ⟨f.span.1, f.span.2, Function.update_self _ _ _, rfl, hf.ending⟩
      · rintro ⟨a, b, hab, ha, rfl⟩
        rw [← slotTime_inj.mp ha] at hab
        dsimp only at hab
        rw [Function.update_self, Option.some.injEq] at hab
        rw [← hab, hf.ending]
    · rw [Function.update_of_ne ht, h.recorded]
      refine exists_congr fun a ↦ exists_congr fun b ↦ ?_
      rw [and_comm, and_comm (a := _ = some b)]
      refine and_congr_right fun ⟨ha, _⟩ ↦ ?_
      have hne : a ≠ f.span.1 := fun heq ↦ ht (by rw [ha, heq, hf.start])
      dsimp only
      rw [Function.update_of_ne hne]
  · rw [← Option.some.inj hg]
    exact hf

/-! ## One window -/

theorem recordEnds_cons (a : Action × BunchingEvent) (actions : List (Action × BunchingEvent)) :
    recordEnds ends (a :: actions) =
      recordEnds (Function.update ends a.2.startTime (some a.2.endTime)) actions :=
  rfl

theorem Mirrors.window {events : List BunchingEvent} (h : Mirrors ends tracked s)
    (hevents : ∀ e ∈ events, e.OnGrid) :
    Mirrors (recordEnds ends (reconcileKey tracked events).1) (reconcileKey tracked events).2
      (s.window (events.map BunchingEvent.span)) := by
  induction events generalizing ends tracked s with
  | nil => exact h
  | cons e events ih =>
    have hrest : ∀ e ∈ events, e.OnGrid := fun d hd ↦ hevents d (List.mem_cons_of_mem e hd)
    obtain ⟨hemission, hgrid⟩ := action_eq_emission h.onGrid (hevents e List.mem_cons_self)
    rw [h.tracked] at hemission
    change Mirrors _ _ ((s.observe e.span).window (events.map BunchingEvent.span))
    cases haction : action tracked e with
    | none =>
      rw [haction] at hemission
      rw [reconcileKey, haction, Incidents.observe_of_none hemission.symm]
      exact ih h hrest
    | some emission =>
      obtain ⟨act, emitted⟩ := emission
      rw [haction] at hemission
      rw [reconcileKey, haction, Incidents.observe_of_some hemission.symm]
      dsimp only
      rw [recordEnds_cons]
      exact ih (h.emit (hgrid act emitted haction)) hrest

theorem ends_writeBunchingActions (actions : List (Action × BunchingEvent)) :
    (docs.writeBunchingActions actions).ends key =
      recordEnds (docs.ends key) (actions.filter (·.2.key = key)) := by
  induction actions generalizing docs with
  | nil => rfl
  | cons a actions ih =>
    have hcons : docs.writeBunchingActions (a :: actions) =
        (docs.writeBunchingActions [a]).writeBunchingActions actions := rfl
    have hone : (docs.writeBunchingActions [a]).ends key = if a.2.key = key
        then Function.update (docs.ends key) a.2.startTime (some a.2.endTime)
        else docs.ends key := by
      funext t
      change ((Function.update docs.bunchingEvents (a.2.key, a.2.startTime) _ (key, t)).map
        BunchingDocument.endTime) = _
      split_ifs with hkey
      · by_cases ht : t = a.2.startTime
        · rw [ht, hkey, Function.update_self, Function.update_self]
          rfl
        · rw [Function.update_of_ne ht, Function.update_of_ne fun heq ↦ ht (Prod.mk.inj heq).2]
          rfl
      · rw [Function.update_of_ne fun heq ↦ hkey (Prod.mk.inj heq).1.symm]
        rfl
    rw [hcons, ih, hone, List.filter_cons]
    split_ifs with hkey hkey' hkey'
    · rfl
    · exact absurd (decide_eq_true hkey) hkey'
    · exact absurd (of_decide_eq_true hkey') hkey
    · rfl

/-! ## The events of a frame -/

/-- The events of a pair in a frame are the incidents that the frame shows. -/
theorem pairEvents_onGrid (he : e ∈ pairEvents frames static pings key) :
    e.OnGrid ∧ Incident (together frames static pings key) e.span := by
  obtain ⟨a, b, hab, hstretch, hstart, hend⟩ := exists_pairEvent_iff.mp ⟨e, he, rfl, rfl⟩
  have hspan : e.span = (a, b) := by
    rw [BunchingEvent.span, hstart, hend, slot_slotTime, slot_slotTime]
  refine ⟨⟨?_, ?_⟩, ?_⟩
  · rw [hspan, hstart]
  · rw [hspan, hend]
  · rw [hspan]
    exact ⟨hab, hstretch⟩

theorem mem_spans_iff {x : ℤ × ℤ} :
    x ∈ (pairEvents frames static pings key).map BunchingEvent.span ↔
      Incident (together frames static pings key) x := by
  rw [List.mem_map]
  constructor
  · rintro ⟨e, he, rfl⟩
    exact (pairEvents_onGrid he).2
  · rintro ⟨hab, hstretch⟩
    obtain ⟨e, he, hstart, hend⟩ :=
      exists_pairEvent_iff.mpr ⟨x.1, x.2, hab, hstretch, rfl, rfl⟩
    refine ⟨e, he, ?_⟩
    rw [BunchingEvent.span, hstart, hend, slot_slotTime, slot_slotTime]

theorem spans_apart : ((pairEvents frames static pings key).map BunchingEvent.span).Pairwise
    fun x y ↦ x.2 + 1 < y.1 := by
  rw [List.pairwise_map]
  refine (pairEvents_inOrder key).apart.imp_of_mem fun {e f} he hf hlt ↦ ?_
  obtain ⟨heGrid, -, hestretch⟩ := pairEvents_onGrid he
  obtain ⟨hfGrid, hf, hfstretch⟩ := pairEvents_onGrid hf
  rw [heGrid.ending, hfGrid.start, slotTime_lt] at hlt
  have hgap : e.span.2 + 1 ≠ f.span.1 := fun hgap ↦
    hestretch.right (hgap ▸ hfstretch.inside _ (le_refl _) hf.le)
  omega

/-- A frame shows no pair before its earliest or after its newest message. -/
theorem together_bounded (pings : List Ping) :
    ∃ lo hi, ∀ i ∈ together frames static pings key, lo ≤ i ∧ i ≤ hi := by
  refine ⟨slot ((earliest pings).getD 0), slot ((newest pings).getD 0), ?_⟩
  have hclose : ∀ i ∈ closeSlots frames static pings key,
      slot ((earliest pings).getD 0) ≤ i ∧ i ≤ slot ((newest pings).getD 0) := by
    intro i hi
    obtain ⟨p, hp, t, ht, rfl⟩ := exists_row_of_slot hi
    have hmem : t ∈ pings.filterMap Ping.timestampEastern := List.mem_filterMap.mpr ⟨p, hp, ht⟩
    have hne := List.ne_nil_of_mem hmem
    obtain ⟨first, hfirst⟩ : ∃ first, earliest pings = some first :=
      Option.ne_none_iff_exists'.mp (mt List.min?_eq_none_iff.mp hne)
    obtain ⟨last, hlast⟩ : ∃ last, newest pings = some last :=
      Option.ne_none_iff_exists'.mp (mt List.max?_eq_none_iff.mp hne)
    rw [hfirst, hlast, Option.getD_some, Option.getD_some]
    exact ⟨slot_mono ((earliest_eq_some.mp hfirst).2 p hp t ht),
      slot_mono ((newest_eq_some.mp hlast).2 p hp t ht)⟩
  rintro i (hi | ⟨-, hl, hr⟩)
  · exact hclose i hi
  · have hlow := (hclose _ hl).1
    have hhigh := (hclose _ hr).2
    omega

end GtfsStream.Analytics
