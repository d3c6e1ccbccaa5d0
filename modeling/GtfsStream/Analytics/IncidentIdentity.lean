import GtfsStream.Analytics.TrackerSpec
import GtfsStream.Analytics.Writer
import GtfsStream.Library.History
import Mathlib.Data.Set.Card

/-!
# One document for each bunching incident

The start of an incident is part of the key of its document, and every update computes it again, as
the least of the starts seen so far. So an update hits the document of its incident only while no
later detection begins before the incident does; and two incidents of a pair have two documents only
if they begin at different times.

## The argument

As long as no update moved a start, the tracked event of a pair begins where the last incident of
the pair did, and the documents of the pair are those of the starts of its incidents. What the next
event does is then read off the tracked event and the documents: the property and the condition
grow by the same step.
-/

open GtfsStream.History

namespace GtfsStream.Analytics

open BunchingEventTracker (isContinuation updatedEvent action)

/-! ## Sequences of calls -/

/-- One call of `reconcile`. -/
structure ReconcileCall where
  events : List BunchingEvent
  referenceTime : Option Time

/-- What a sequence of calls returned, and what it left behind in memory and in the sink. -/
structure Reconciled where
  actions : List (Action × BunchingEvent) := []
  tracker : BunchingEventTracker := fun _ ↦ none
  documents : Documents := {}

/-- A call, whose actions are then written. -/
def Reconciled.call (s : Reconciled) (c : ReconcileCall) : Reconciled :=
  let result := s.tracker.reconcile c.events c.referenceTime
  { actions := s.actions ++ result.1
    tracker := result.2
    documents := s.documents.writeBunchingActions result.1 }

def reconcileCalls (calls : List ReconcileCall) : Reconciled :=
  calls.foldl Reconciled.call {}

/-- The starts of the incidents of a pair: of its "new" actions, in order. -/
def newStarts (key : PairKey) (actions : List (Action × BunchingEvent)) : List Time :=
  (actions.filter fun a ↦ a.1 = .new ∧ a.2.key = key).map (·.2.startTime)

/-- Every update has the key of the last incident of its pair. -/
def UpdatesHit (actions : List (Action × BunchingEvent)) : Prop :=
  AtEach (fun before a ↦ a.1 = .update →
    (newStarts a.2.key before).getLast? = some a.2.startTime) actions

/-- Every update hits the document of its incident, and a pair has as many documents as
incidents. -/
structure OneDocumentPerIncident (s : Reconciled) : Prop where
  updatesHit : UpdatesHit s.actions
  ncard_documents : ∀ key,
    {t | (s.documents.bunchingEvents (key, t)).isSome}.ncard = (newStarts key s.actions).length

/-! ## The steps of a call -/

inductive ReconcileStep
  | event (e : BunchingEvent)
  | purge (referenceTime : Option Time)

def ReconcileCall.steps (c : ReconcileCall) : List ReconcileStep :=
  c.events.map .event ++ [.purge c.referenceTime]

/-- One event, whose action is written at once, or the purge at the end of a call. -/
def Reconciled.step (s : Reconciled) : ReconcileStep → Reconciled
  | .event e =>
    let one := s.tracker.reconcileOne e
    { actions := s.actions ++ one.1
      tracker := one.2
      documents := s.documents.writeBunchingActions one.1 }
  | .purge referenceTime =>
    { s with tracker := purgeStale BunchingEvent.endTime referenceTime s.tracker }

def reconcileSteps (steps : List ReconcileStep) : Reconciled := steps.foldl Reconciled.step {}

/-- A detection that extends the tracked event does not begin before it, and one that opens an
incident begins where no document of the pair does. -/
def KeepsStarts (s : Reconciled) : ReconcileStep → Prop
  | .purge _ => True
  | .event e =>
    (∀ p, s.tracker e.key = some p → isContinuation p e = true → p.endTime < e.endTime →
      p.startTime ≤ e.startTime) ∧
    ((∀ p, s.tracker e.key = some p → isContinuation p e = false) →
      s.documents.bunchingEvents (e.key, e.startTime) = none)

variable {s : Reconciled} {actions : List (Action × BunchingEvent)} {steps : List ReconcileStep}
  {key : PairKey} {e p : BunchingEvent} {t : Time}

theorem writeBunchingActions_append (docs : Documents) (l m : List (Action × BunchingEvent)) :
    docs.writeBunchingActions (l ++ m) =
      (docs.writeBunchingActions l).writeBunchingActions m := by
  simp only [Documents.writeBunchingActions, buildBunchingOperations, bulkWrite, List.map_append,
    List.foldl_append]

theorem foldl_step_events (s : Reconciled) (events : List BunchingEvent) :
    (events.map ReconcileStep.event).foldl Reconciled.step s =
      { actions := s.actions ++ (s.tracker.reconcileAll events).1
        tracker := (s.tracker.reconcileAll events).2
        documents := s.documents.writeBunchingActions (s.tracker.reconcileAll events).1 } := by
  induction events generalizing s with
  | nil => simp only [List.map_nil, List.foldl_nil, BunchingEventTracker.reconcileAll,
      List.append_nil]; rfl
  | cons e events ih =>
    rw [List.map_cons, List.foldl_cons, ih]
    simp only [Reconciled.step, BunchingEventTracker.reconcileAll, writeBunchingActions_append,
      List.append_assoc]

theorem call_eq_steps (s : Reconciled) (c : ReconcileCall) :
    s.call c = c.steps.foldl Reconciled.step s := by
  rw [ReconcileCall.steps, List.foldl_append, foldl_step_events]
  rfl

theorem reconcileCalls_eq_steps (calls : List ReconcileCall) :
    reconcileCalls calls = reconcileSteps (calls.flatMap ReconcileCall.steps) := by
  rw [reconcileCalls, reconcileSteps]
  generalize ({} : Reconciled) = s
  induction calls generalizing s with
  | nil => rfl
  | cons c calls ih =>
    rw [List.foldl_cons, ih, List.flatMap_cons, List.foldl_append, call_eq_steps]

theorem reconcileSteps_concat (step : ReconcileStep) :
    reconcileSteps (steps ++ [step]) = (reconcileSteps steps).step step := by
  rw [reconcileSteps, List.foldl_append]
  rfl

/-! ## What a step does -/

theorem newStarts_concat_new :
    newStarts key (actions ++ [(.new, e)]) =
      if e.key = key then newStarts key actions ++ [e.startTime] else newStarts key actions := by
  by_cases h : e.key = key <;> simp [newStarts, h]

theorem newStarts_concat_update :
    newStarts key (actions ++ [(.update, e)]) = newStarts key actions := by
  simp [newStarts]

theorem documents_concat (act : Action) :
    ((s.documents.writeBunchingActions [(act, e)]).bunchingEvents (key, t)).isSome ↔
      (s.documents.bunchingEvents (key, t)).isSome ∨ e.key = key ∧ e.startTime = t := by
  rw [Documents.writeBunchingActions, bulkWrite_isSome]
  simp [buildBunchingOperations]

theorem updatesHit_concat {a : Action × BunchingEvent} :
    UpdatesHit (actions ++ [a]) ↔ UpdatesHit actions ∧
      (a.1 = .update → (newStarts a.2.key actions).getLast? = some a.2.startTime) :=
  atEach_concat

theorem action_cases (previous : Option BunchingEvent) (e : BunchingEvent) :
    action previous e = none ∨
      (∃ p, previous = some p ∧ isContinuation p e = true ∧ p.endTime < e.endTime ∧
        action previous e = some (.update, updatedEvent p e)) ∨
      (∀ p, previous = some p → isContinuation p e = false) ∧
        action previous e = some (.new, e) := by
  cases previous with
  | none => exact Or.inr (Or.inr ⟨nofun, rfl⟩)
  | some p =>
    by_cases hcontinuation : isContinuation p e = true
    · by_cases hlater : p.endTime < e.endTime
      · refine Or.inr (Or.inl ⟨p, rfl, hcontinuation, hlater, ?_⟩)
        rw [action, if_pos hcontinuation, if_pos hlater]
      · refine Or.inl ?_
        rw [action, if_pos hcontinuation, if_neg hlater]
    · refine Or.inr (Or.inr ⟨fun q hq ↦ ?_, ?_⟩)
      · rw [← Option.some.inj hq]
        exact Bool.eq_false_of_not_eq_true hcontinuation
      · rw [action, if_neg hcontinuation]

/-! ## The invariant -/

/-- The tracked event of a pair begins where the last incident of the pair did, and the documents
of the pair are those of the starts of its incidents. -/
structure Consistent (s : Reconciled) : Prop where
  tracked : ∀ key p, s.tracker key = some p →
    (newStarts key s.actions).getLast? = some p.startTime
  documents : ∀ key t,
    (s.documents.bunchingEvents (key, t)).isSome ↔ t ∈ newStarts key s.actions

theorem consistent_empty : Consistent {} :=
  ⟨nofun, fun _ _ ↦ iff_of_false nofun List.not_mem_nil⟩

theorem Consistent.purge (h : Consistent s) (referenceTime : Option Time) :
    Consistent (s.step (.purge referenceTime)) :=
  ⟨fun key p hp ↦ h.tracked key p (purgeStale_eq_some.mp hp).1, h.documents⟩

theorem step_of_none (h : action (s.tracker e.key) e = none) : s.step (.event e) = s := by
  rw [Reconciled.step, BunchingEventTracker.reconcileOne, h]
  simp only [List.append_nil]
  rfl

theorem step_of_some {act : Action} {emitted : BunchingEvent}
    (h : action (s.tracker e.key) e = some (act, emitted)) :
    s.step (.event e) =
      { actions := s.actions ++ [(act, emitted)]
        tracker := Function.update s.tracker e.key (some emitted)
        documents := s.documents.writeBunchingActions [(act, emitted)] } := by
  rw [Reconciled.step, BunchingEventTracker.reconcileOne, h]

/-- While updates keep the key of their incident, the invariant holds. -/
theorem Consistent.event (h : Consistent s) (hits : UpdatesHit (s.step (.event e)).actions) :
    Consistent (s.step (.event e)) := by
  rcases action_cases (s.tracker e.key) e with hnone | ⟨p, hp, -, -, hupdate⟩ | ⟨-, hnew⟩
  · rwa [step_of_none hnone]
  · rw [step_of_some hupdate] at hits ⊢
    have hkey : (updatedEvent p e).key = e.key := rfl
    have hlast := (updatesHit_concat.mp hits).2 rfl
    rw [hkey] at hlast
    constructor
    · intro key q hq
      rw [newStarts_concat_update]
      dsimp only at hq
      by_cases hk : key = e.key
      · rw [hk, Function.update_self] at hq
        rw [hk, hlast, ← Option.some.inj hq]
      · rw [Function.update_of_ne hk] at hq
        exact h.tracked key q hq
    · intro key t
      rw [documents_concat, newStarts_concat_update, h.documents, or_iff_left_iff_imp]
      rintro ⟨rfl, rfl⟩
      exact List.mem_of_getLast? hlast
  · rw [step_of_some hnew]
    constructor
    · intro key q hq
      rw [newStarts_concat_new]
      dsimp only at hq
      by_cases hk : key = e.key
      · rw [hk, Function.update_self] at hq
        rw [if_pos hk.symm, List.getLast?_concat, ← Option.some.inj hq]
      · rw [Function.update_of_ne hk] at hq
        rw [if_neg (Ne.symm hk)]
        exact h.tracked key q hq
    · intro key t
      rw [documents_concat, newStarts_concat_new, h.documents]
      split_ifs with hk
      · rw [List.mem_append, List.mem_singleton, and_iff_right hk, eq_comm]
      · rw [or_iff_left fun hand ↦ hk hand.1]

/-- The incidents of every pair begin at different times. -/
def NewStartsNodup (actions : List (Action × BunchingEvent)) : Prop :=
  ∀ key, (newStarts key actions).Nodup

/-- One event keeps both properties exactly if it meets the condition. -/
theorem keepsStarts_event_iff (h : Consistent s) (hits : UpdatesHit s.actions)
    (hnodup : NewStartsNodup s.actions) :
    KeepsStarts s (.event e) ↔
      UpdatesHit (s.step (.event e)).actions ∧ NewStartsNodup (s.step (.event e)).actions := by
  rcases action_cases (s.tracker e.key) e with hnone | ⟨p, hp, hcont, hlater, hupdate⟩ | ⟨hno, hnew⟩
  · rw [step_of_none hnone]
    obtain ⟨p, hp, hcont, hle⟩ := BunchingEventTracker.action_eq_none.mp hnone
    refine iff_of_true ⟨fun q hq _ hlater ↦ ?_, fun hno ↦ ?_⟩ ⟨hits, hnodup⟩
    · rw [hp] at hq
      exact absurd hlater (not_lt.mpr (Option.some.inj hq ▸ hle))
    · exact absurd hcont (Bool.eq_false_iff.mp (hno p hp))
  · -- an update moves the start exactly if the detection begins before the tracked event
    rw [step_of_some hupdate, updatesHit_concat]
    have hlast : (newStarts e.key s.actions).getLast? = some p.startTime := h.tracked e.key p hp
    have hkept : NewStartsNodup (s.actions ++ [(.update, updatedEvent p e)]) := fun key ↦ by
      rw [newStarts_concat_update]
      exact hnodup key
    rw [and_iff_left hkept, and_iff_right hits]
    have hkey : (updatedEvent p e).key = e.key := rfl
    constructor
    · intro hkeeps _
      rw [hkey, hlast]
      exact congrArg some (min_eq_left (hkeeps.1 p hp hcont hlater)).symm
    · intro hsame
      have hmin := hsame rfl
      rw [hkey, hlast] at hmin
      refine ⟨fun q hq _ _ ↦ ?_, fun hno ↦ absurd hcont (Bool.eq_false_iff.mp (hno p hp))⟩
      rw [hp] at hq
      rw [← Option.some.inj hq]
      exact min_eq_left_iff.mp (Option.some.inj hmin).symm
  · -- an incident gets a document of its own exactly if no document has its start
    rw [step_of_some hnew, updatesHit_concat]
    rw [and_iff_right ⟨hits, nofun⟩]
    have hfresh : s.documents.bunchingEvents (e.key, e.startTime) = none ↔
        e.startTime ∉ newStarts e.key s.actions := by
      rw [← h.documents, Option.not_isSome_iff_eq_none]
    constructor
    · intro hkeeps key
      rw [newStarts_concat_new]
      split_ifs with hk
      · rw [← hk]
        rw [← List.concat_eq_append]
        exact (hnodup e.key).concat (hfresh.mp (hkeeps.2 hno))
      · exact hnodup key
    · intro hall
      have he := hall e.key
      rw [newStarts_concat_new, if_pos rfl, List.nodup_append] at he
      refine ⟨fun p hp hcont ↦ absurd hcont (Bool.eq_false_iff.mp (hno p hp)), fun _ ↦ ?_⟩
      exact hfresh.mpr fun hmem ↦ he.2.2 _ hmem _ (List.mem_singleton_self _) rfl

theorem UpdatesHit.of_step {step : ReconcileStep} (h : UpdatesHit (s.step step).actions) :
    UpdatesHit s.actions := by
  cases step with
  | purge => exact h
  | event e =>
    rcases ha : action (s.tracker e.key) e with _ | ⟨act, emitted⟩
    · rwa [step_of_none ha] at h
    · rw [step_of_some ha] at h
      exact h.of_concat

theorem NewStartsNodup.of_step {step : ReconcileStep} (h : NewStartsNodup (s.step step).actions) :
    NewStartsNodup s.actions := by
  cases step with
  | purge => exact h
  | event e =>
    rcases ha : action (s.tracker e.key) e with _ | ⟨act, emitted⟩
    · rwa [step_of_none ha] at h
    · rw [step_of_some ha] at h
      refine fun key ↦ (h key).sublist ?_
      exact ((List.sublist_append_left s.actions [(act, emitted)]).filter _).map _

theorem consistent_of_updatesHit (h : UpdatesHit (reconcileSteps steps).actions) :
    Consistent (reconcileSteps steps) := by
  induction steps using List.reverseRecOn with
  | nil => exact consistent_empty
  | append_singleton steps step ih =>
    rw [reconcileSteps_concat] at h ⊢
    have hbefore := ih h.of_step
    cases step with
    | event e => exact hbefore.event h
    | purge referenceTime => exact hbefore.purge referenceTime

/-- The condition at every step is what both properties ask of the whole sequence. -/
theorem keepsStarts_iff :
    AtEach (fun before ↦ KeepsStarts (reconcileSteps before)) steps ↔
      UpdatesHit (reconcileSteps steps).actions ∧
        NewStartsNodup (reconcileSteps steps).actions := by
  induction steps using List.reverseRecOn with
  | nil => exact iff_of_true atEach_nil ⟨atEach_nil, fun _ ↦ List.nodup_nil⟩
  | append_singleton steps step ih =>
    rw [atEach_concat, ih, reconcileSteps_concat]
    cases step with
    | purge => exact and_iff_left trivial
    | event e =>
      constructor
      · rintro ⟨⟨hits, hnodup⟩, hkeeps⟩
        exact (keepsStarts_event_iff (consistent_of_updatesHit hits) hits hnodup).mp hkeeps
      · rintro ⟨hits, hnodup⟩
        have hits' : UpdatesHit (reconcileSteps steps).actions := hits.of_step
        have hnodup' : NewStartsNodup (reconcileSteps steps).actions := hnodup.of_step
        exact ⟨⟨hits', hnodup'⟩, (keepsStarts_event_iff (consistent_of_updatesHit hits') hits'
          hnodup').mpr ⟨hits, hnodup⟩⟩

/-- A pair has as many documents as incidents exactly if its incidents begin at different times. -/
theorem Consistent.ncard_documents_iff (h : Consistent s) (key : PairKey) :
    {t | (s.documents.bunchingEvents (key, t)).isSome}.ncard = (newStarts key s.actions).length ↔
      (newStarts key s.actions).Nodup := by
  have hset : {t | (s.documents.bunchingEvents (key, t)).isSome} =
      ((newStarts key s.actions).toFinset : Set Time) := by
    ext t
    rw [Set.mem_ofPred_eq, h.documents, List.coe_toFinset, Set.mem_ofPred_eq]
  rw [hset, Set.ncard_coe_finset]
  exact Multiset.toFinset_card_eq_card_iff_nodup

/-- **One document for each incident.** In every sequence of calls, every update hits the document
of its incident and every pair has as many documents as incidents, exactly if no detection that
extends the tracked event begins before it and every detection that opens an incident begins where
no document of its pair does. -/
theorem oneDocumentPerIncident_iff (calls : List ReconcileCall) :
    OneDocumentPerIncident (reconcileCalls calls) ↔
      AtEach (fun before ↦ KeepsStarts (reconcileSteps before))
        (calls.flatMap ReconcileCall.steps) := by
  rw [keepsStarts_iff, ← reconcileCalls_eq_steps]
  have hconsistent (h : UpdatesHit (reconcileCalls calls).actions) :
      Consistent (reconcileCalls calls) := by
    rw [reconcileCalls_eq_steps] at h ⊢
    exact consistent_of_updatesHit h
  constructor
  · rintro ⟨hits, hcards⟩
    exact ⟨hits, fun key ↦ ((hconsistent hits).ncard_documents_iff key).mp (hcards key)⟩
  · rintro ⟨hits, hnodup⟩
    exact ⟨hits, fun key ↦ ((hconsistent hits).ncard_documents_iff key).mpr (hnodup key)⟩

/-- Two windows, of which the second sees the beginning of the incident too. -/
def earlierDetection : List ReconcileCall :=
  let seen (first last : ℕ) : BunchingEvent :=
    { routeId := "R", directionId := 0, vehicleA := "A", vehicleB := "B"
      startTime := seconds first, endTime := seconds last
      observationCount := 2, minDistanceMeters := 50 }
  [⟨[seen 60 75], some (seconds 75)⟩, ⟨[seen 45 90], some (seconds 90)⟩]

/-- The update has the earlier start, and makes a document of its own. -/
theorem not_oneDocumentPerIncident_earlierDetection :
    ¬OneDocumentPerIncident (reconcileCalls earlierDetection) := by
  intro h
  obtain ⟨a, b, hactions, hupdate, hstart⟩ : ∃ a b, (reconcileCalls earlierDetection).actions =
      [a, b] ∧ b.1 = .update ∧
        (newStarts b.2.key [a]).getLast? ≠ some b.2.startTime :=
    ⟨_, _, rfl, rfl, by decide +kernel⟩
  exact hstart (h.updatesHit [a] b [] hactions hupdate)

end GtfsStream.Analytics
