import GtfsStream.Analytics.BunchingSpec
import GtfsStream.Analytics.Trackers

/-!
# What the trackers let through

Both trackers work key by key: what is emitted for a key, and what is tracked for it afterwards,
depends on what was tracked for the key and on the results with that key.

## Events in order

The events of a window come pair by pair and in the order of time, and those of a pair do not touch
each other. Of such events the tracker passes over the ones that it covers already, and everything
after the first that it does not cover is emitted: each of them ends later than what was tracked
before it. So the tracker ends with the last event, or with what it had, and emits nothing exactly
if it covered all of them.
-/

namespace GtfsStream.Analytics

theorem retained_mono {referenceTime : Option Time} {s t : Time} (hst : s ≤ t)
    (hs : retained referenceTime s = true) : retained referenceTime t = true := by
  cases referenceTime with
  | none => exact hs
  | some reference => exact decide_eq_true ((of_decide_eq_true hs).trans hst)

theorem purgeStale_eq_some {κ ν : Type*} {time : ν → Time} {referenceTime : Option Time}
    {entries : κ → Option ν} {key : κ} {entry : ν} :
    purgeStale time referenceTime entries key = some entry ↔
      entries key = some entry ∧ retained referenceTime (time entry) = true := by
  rw [purgeStale, Option.filter_eq_some_iff]

/-! ## Bunching events -/

namespace BunchingEventTracker

/-- The actions for the events of one pair, and the event that is tracked afterwards. -/
def reconcileKey : Option BunchingEvent → List BunchingEvent →
    List (Action × BunchingEvent) × Option BunchingEvent
  | previous, [] => ([], previous)
  | previous, event :: events =>
    match action previous event with
    | none => reconcileKey previous events
    | some (act, emitted) =>
      let rest := reconcileKey (some emitted) events
      ((act, emitted) :: rest.1, rest.2)

theorem action_key {previous : Option BunchingEvent} {event emitted : BunchingEvent} {act : Action}
    (h : action previous event = some (act, emitted)) : emitted.key = event.key := by
  unfold action at h
  split at h
  · rw [← (Prod.mk.inj (Option.some.inj h)).2]
  · split_ifs at h
    · rw [← (Prod.mk.inj (Option.some.inj h)).2]
      rfl
    · rw [← (Prod.mk.inj (Option.some.inj h)).2]

theorem reconcileAll_of_none {tracker : BunchingEventTracker} {event : BunchingEvent}
    (events : List BunchingEvent) (h : action (tracker event.key) event = none) :
    reconcileAll tracker (event :: events) = reconcileAll tracker events := by
  rw [reconcileAll, reconcileOne, h]
  rfl

theorem reconcileAll_of_some {tracker : BunchingEventTracker} {event emitted : BunchingEvent}
    {act : Action} (events : List BunchingEvent)
    (h : action (tracker event.key) event = some (act, emitted)) :
    reconcileAll tracker (event :: events) =
      ((act, emitted) ::
          (reconcileAll (Function.update tracker event.key (some emitted)) events).1,
        (reconcileAll (Function.update tracker event.key (some emitted)) events).2) := by
  rw [reconcileAll, reconcileOne, h]
  rfl

/-- The actions of one pair, and what is tracked for it afterwards. -/
theorem reconcileAll_key (tracker : BunchingEventTracker) (events : List BunchingEvent)
    (key : PairKey) :
    (reconcileAll tracker events).1.filter (·.2.key = key) =
        (reconcileKey (tracker key) (events.filter (·.key = key))).1 ∧
      (reconcileAll tracker events).2 key =
        (reconcileKey (tracker key) (events.filter (·.key = key))).2 := by
  induction events generalizing tracker with
  | nil => exact ⟨rfl, rfl⟩
  | cons event events ih =>
    cases haction : action (tracker event.key) event with
    | none =>
      rw [reconcileAll_of_none events haction]
      by_cases hkey : event.key = key
      · rw [hkey] at haction
        simp only [List.filter_cons, hkey, decide_true, if_true, reconcileKey, haction]
        exact ih tracker
      · simp only [List.filter_cons, hkey, decide_false, Bool.false_eq_true, if_false]
        exact ih tracker
    | some emission =>
      obtain ⟨act, emitted⟩ := emission
      rw [reconcileAll_of_some events haction]
      have hrest := ih (Function.update tracker event.key (some emitted))
      have hsame : emitted.key = event.key := action_key haction
      by_cases hkey : event.key = key
      · rw [hkey] at haction hrest hsame
        rw [Function.update_self] at hrest
        simp only [List.filter_cons, hkey, hsame, decide_true, if_true, reconcileKey, haction]
        exact ⟨congrArg _ hrest.1, hrest.2⟩
      · rw [Function.update_of_ne (Ne.symm hkey)] at hrest
        simp only [List.filter_cons, hsame, hkey, decide_false, Bool.false_eq_true, if_false]
        exact hrest

/-! ### Events in order -/

variable {previous : Option BunchingEvent} {event emitted : BunchingEvent} {act : Action}
  {events : List BunchingEvent}

/-- The tracked event makes this one old news. -/
def Covers (previous : Option BunchingEvent) (event : BunchingEvent) : Prop :=
  ∃ p, previous = some p ∧ isContinuation p event = true ∧ event.endTime ≤ p.endTime

theorem action_eq_none : action previous event = none ↔ Covers previous event := by
  cases previous with
  | none => exact ⟨nofun, fun ⟨_, h, _⟩ ↦ nomatch h⟩
  | some p =>
    unfold action
    dsimp only
    split_ifs with hcontinuation hlater
    · exact ⟨nofun, fun ⟨q, hq, _, hle⟩ ↦ absurd (Option.some.inj hq ▸ hlater) (not_lt.mpr hle)⟩
    · exact iff_of_true rfl ⟨p, rfl, hcontinuation, not_lt.mp hlater⟩
    · exact ⟨nofun, fun ⟨q, hq, hcont, _⟩ ↦ absurd (Option.some.inj hq ▸ hcont) hcontinuation⟩

theorem action_endTime (h : action previous event = some (act, emitted)) :
    emitted.endTime = event.endTime := by
  unfold action at h
  split at h
  · rw [← (Prod.mk.inj (Option.some.inj h)).2]
  · split_ifs at h
    · rw [← (Prod.mk.inj (Option.some.inj h)).2]
      rfl
    · rw [← (Prod.mk.inj (Option.some.inj h)).2]

theorem reconcileKey_of_covers (h : ∀ e ∈ events, Covers previous e) :
    reconcileKey previous events = ([], previous) := by
  induction events with
  | nil => rfl
  | cons event events ih =>
    rw [reconcileKey, action_eq_none.mpr (h event List.mem_cons_self)]
    exact ih fun e he ↦ h e (List.mem_cons_of_mem _ he)

/-- Events that all end after the tracked one are all emitted, and the last one is tracked. -/
theorem reconcileKey_of_later {p : BunchingEvent} (horder : InOrder events)
    (hlater : ∀ e ∈ events, p.endTime < e.endTime) :
    ∃ f, (reconcileKey (some p) events).2 = some f ∧
      f.endTime = (events.getLast?.map BunchingEvent.endTime).getD p.endTime := by
  induction events generalizing p with
  | nil => exact ⟨p, rfl, rfl⟩
  | cons event events ih =>
    cases haction : action (some p) event with
    | none =>
      obtain ⟨q, hq, -, hle⟩ := action_eq_none.mp haction
      rw [← Option.some.inj hq] at hle
      exact absurd (hlater event List.mem_cons_self) (not_lt.mpr hle)
    | some emission =>
      obtain ⟨act, emitted⟩ := emission
      rw [reconcileKey, haction]
      have hend := action_endTime haction
      obtain ⟨f, hf, hlast⟩ := ih horder.tail fun e he ↦ hend ▸ horder.endTime_lt he
      refine ⟨f, hf, hlast.trans ?_⟩
      cases events with
      | nil => exact hend
      | cons next events => rw [List.getLast?_cons_cons]; rfl

/-- Once an event is emitted, so are all later ones, and the last one is tracked. -/
theorem reconcileKey_of_not_covers (horder : InOrder events)
    (h : ∃ e ∈ events, ¬Covers previous e) :
    (reconcileKey previous events).1 ≠ [] ∧ ∃ f last, (reconcileKey previous events).2 = some f ∧
      events.getLast? = some last ∧ f.endTime = last.endTime := by
  induction events with
  | nil => exact absurd h.choose_spec.1 List.not_mem_nil
  | cons event events ih =>
    cases haction : action previous event with
    | none =>
      obtain ⟨e, he, hnot⟩ := h
      have hrest : e ∈ events := (List.mem_cons.mp he).resolve_left fun heq ↦
        hnot (heq ▸ action_eq_none.mp haction)
      obtain ⟨hemits, f, last, hf, hlast, hend⟩ := ih horder.tail ⟨e, hrest, hnot⟩
      rw [reconcileKey, haction]
      refine ⟨hemits, f, last, hf, ?_, hend⟩
      cases events with
      | nil => exact absurd hrest List.not_mem_nil
      | cons next events => rw [List.getLast?_cons_cons, hlast]
    | some emission =>
      obtain ⟨act, emitted⟩ := emission
      rw [reconcileKey, haction]
      have hend := action_endTime haction
      obtain ⟨f, hf, hlast⟩ := reconcileKey_of_later horder.tail
        fun e he ↦ hend ▸ horder.endTime_lt he
      refine ⟨List.cons_ne_nil _ _, f, (event :: events).getLast (List.cons_ne_nil _ _), hf,
        List.getLast?_eq_some_getLast _, hlast.trans ?_⟩
      cases events with
      | nil => exact hend
      | cons next events =>
        rw [List.getLast?_eq_some_getLast (List.cons_ne_nil next events),
          List.getLast_cons (List.cons_ne_nil next events)]
        rfl

theorem covers_of_covers_getLast {last : BunchingEvent} (horder : InOrder events)
    (hlast : events.getLast? = some last) (hcovers : Covers previous last) :
    ∀ e ∈ events, Covers previous e := by
  obtain ⟨before, rfl⟩ := List.getLast?_eq_some_iff.mp hlast
  obtain ⟨p, rfl, hcontinuation, hend⟩ := hcovers
  intro e he
  rcases List.mem_append.mp he with hbefore | he
  · have hlt := (List.pairwise_append.mp horder.apart).2.2 e hbefore last List.mem_cons_self
    have hspan := horder.span e he
    have hspanLast := horder.span last (by simp)
    refine ⟨p, rfl, decide_eq_true ?_, ?_⟩
    · exact (hspan.trans hlt.le).trans (of_decide_eq_true hcontinuation)
    · exact hlt.le.trans (hspanLast.trans hend)
  · rw [List.mem_singleton.mp he]
    exact ⟨p, rfl, hcontinuation, hend⟩

/-- What is emitted for a pair leaves nothing behind after the purge exactly if every event is old
news or too old to be retained. -/
theorem reconcileKey_leaves_nothing (horder : InOrder events) (referenceTime : Option Time) :
    ((reconcileKey previous events).1 ≠ [] → ∀ f, (reconcileKey previous events).2 = some f →
        retained referenceTime f.endTime = false) ↔
      ∀ e ∈ events, Covers previous e ∨ retained referenceTime e.endTime = false := by
  by_cases hall : ∀ e ∈ events, Covers previous e
  · rw [reconcileKey_of_covers hall]
    exact iff_of_true (fun h ↦ absurd rfl h) fun e he ↦ Or.inl (hall e he)
  · push Not at hall
    obtain ⟨hemits, f, last, hf, hlast, hend⟩ := reconcileKey_of_not_covers horder hall
    have hmem : last ∈ events := List.mem_of_getLast? hlast
    rw [hf]
    constructor
    · intro h e he
      refine Or.inr (Bool.eq_false_of_not_eq_true fun hretained ↦ ?_)
      have hle : e.endTime ≤ f.endTime := by
        rw [hend]
        obtain ⟨before, rfl⟩ := List.getLast?_eq_some_iff.mp hlast
        rcases List.mem_append.mp he with hbefore | heq
        · have hlt := (List.pairwise_append.mp horder.apart).2.2 e hbefore last List.mem_cons_self
          exact hlt.le.trans (horder.span last hmem)
        · rw [List.mem_singleton.mp heq]
      exact absurd (retained_mono hle hretained) (Bool.eq_false_iff.mp (h hemits f rfl))
    · intro h _ g hg
      rw [← Option.some.inj hg, hend]
      refine (h last hmem).resolve_left fun hcovers ↦ ?_
      obtain ⟨e, he, hnot⟩ := hall
      exact hnot (covers_of_covers_getLast horder hlast hcovers e he)

end BunchingEventTracker

/-! ## Deviations -/

namespace DeviationResultTracker

variable {seen : DeviationResultTracker} {results : List DeviationResult} {r : DeviationResult}
  {key : DeviationKey} {t : Time}

theorem filterAll_of_isSome (h : (seen r.key).isSome) :
    filterAll seen (r :: results) = filterAll seen results := by
  rw [filterAll, if_pos h]

theorem filterAll_of_none (h : seen r.key = none) :
    filterAll seen (r :: results) =
      (r :: (filterAll (Function.update seen r.key (some r.actualAt)) results).1,
        (filterAll (Function.update seen r.key (some r.actualAt)) results).2) := by
  rw [filterAll, h, if_neg nofun]

/-- With distinct keys, exactly the results of unseen keys are let through. -/
theorem filterAll_fst (hkeys : (results.map DeviationResult.key).Nodup) :
    (filterAll seen results).1 = results.filter fun r ↦ (seen r.key).isNone := by
  induction results generalizing seen with
  | nil => rfl
  | cons r results ih =>
    rw [List.map_cons, List.nodup_cons] at hkeys
    cases hr : seen r.key with
    | some t =>
      rw [filterAll_of_isSome (by rw [hr]; rfl), ih hkeys.2, List.filter_cons_of_neg (by simp [hr])]
    | none =>
      rw [filterAll_of_none hr, ih hkeys.2, List.filter_cons_of_pos (by simp [hr])]
      refine congrArg _ (List.filter_congr fun s hs ↦ ?_)
      rw [Function.update_of_ne]
      intro heq
      exact hkeys.1 (heq ▸ List.mem_map_of_mem hs)

/-- With distinct keys, the tracker has what it had, and the results of unseen keys. -/
theorem filterAll_snd (hkeys : (results.map DeviationResult.key).Nodup) :
    (filterAll seen results).2 key = some t ↔ seen key = some t ∨
      seen key = none ∧ ∃ r ∈ results, r.key = key ∧ r.actualAt = t := by
  induction results generalizing seen with
  | nil =>
    refine ⟨Or.inl, ?_⟩
    rintro (h | ⟨-, r, hr, -⟩)
    · exact h
    · exact absurd hr List.not_mem_nil
  | cons r results ih =>
    rw [List.map_cons, List.nodup_cons] at hkeys
    cases hr : seen r.key with
  -- a key that is tracked: the result is dropped, and is not of the unseen ones
    | some u =>
      rw [filterAll_of_isSome (by rw [hr]; rfl), ih hkeys.2]
      refine or_congr_right (and_congr_right fun hnone ↦ ?_)
      constructor
      · rintro ⟨s, hs, hrest⟩
        exact ⟨s, List.mem_cons_of_mem _ hs, hrest⟩
      · rintro ⟨s, hs, hkey, htime⟩
        refine ⟨s, (List.mem_cons.mp hs).resolve_left ?_, hkey, htime⟩
        rintro rfl
        rw [hkey, hnone] at hr
        exact nomatch hr
  -- a new key: distinct keys keep the later results off it
    | none =>
      rw [filterAll_of_none hr, ih hkeys.2]
      by_cases hkey : r.key = key
      · rw [hkey, Function.update_self]
        rw [hkey] at hr
        constructor
        · rintro (h | ⟨h, -⟩)
          · exact Or.inr ⟨hr, r, List.mem_cons_self, hkey, Option.some.inj h⟩
          · exact nomatch h
        · rintro (h | ⟨-, s, hs, hskey, htime⟩)
          · rw [hr] at h
            exact nomatch h
          · rcases List.mem_cons.mp hs with rfl | hs
            · exact Or.inl (congrArg some htime)
            · exact absurd (List.mem_map_of_mem hs) (hskey.trans hkey.symm ▸ hkeys.1)
      · rw [Function.update_of_ne (Ne.symm hkey)]
        refine or_congr_right (and_congr_right fun _ ↦ ?_)
        constructor
        · rintro ⟨s, hs, hrest⟩
          exact ⟨s, List.mem_cons_of_mem _ hs, hrest⟩
        · rintro ⟨s, hs, hskey, htime⟩
          refine ⟨s, (List.mem_cons.mp hs).resolve_left ?_, hskey, htime⟩
          rintro rfl
          exact hkey hskey

end DeviationResultTracker

end GtfsStream.Analytics
