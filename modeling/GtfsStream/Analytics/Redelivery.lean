import GtfsStream.Analytics.Documented

/-!
# Redelivery

A process that crashes starts again with an empty buffer and empty trackers, and its clock and the
windows it cuts are its own. It consumes again what comes after the committed offset. The upserts
make the same documents of the same results, so the question is which results are the same.

## What a restart loses

The buffer carries the rows of the last thirty seconds forward, and the trackers know what was
emitted. Both live in memory only. What comes before the offset has its documents, and what comes
after it is consumed again; only what straddles the offset can differ. A visit that goes on after it
has a second first arrival there, and a pair that stays together after it has a second start.

## How this is shown

Of a run that is exact by itself the documents are a function of its messages, whatever the windows
were. So two runs with windows of their own are compared on what they consume: the messages before
the offset, those after it, and both together.
-/

namespace GtfsStream.Analytics

/-- The same bunching events are documented, and the same deviations with the same times. -/
structure SameDocuments (docs docs' : Documents) : Prop where
  bunchingEvents : ∀ key,
    (docs.bunchingEvents key).isSome ↔ (docs'.bunchingEvents key).isSome
  scheduleDeviations : ∀ key, (docs.scheduleDeviations key).map DeviationDocument.actualAt =
    (docs'.scheduleDeviations key).map DeviationDocument.actualAt

/-! ## The crash -/

/-- Where the process crashes: between two windows, between the two writes of a window, or after
both and before the commit. -/
inductive CrashPoint
  | betweenWindows
  | betweenWrites
  | beforeCommit

/-- The documents at the crash. The window that is interrupted is the first that the log writes. -/
def Documents.interrupted (docs : Documents) (point : CrashPoint) (log : List Event) : Documents :=
  match point, log.findSome? Event.written with
  | .betweenWrites, some result => docs.writeBunchingActions result.bunchingActions
  | .beforeCommit, some result => docs.persistWindow result
  | _, _ => docs

/-- What the consumer did since another one. -/
def Consumer.since (s₀ s : Consumer) : List Event := s.log.drop s₀.log.length

/-- The consumer `s₀` has committed. It goes on to `s`, or it crashes in the first window after the
commit and the restarted one comes to `s'`: the documents are the same in the end. -/
def Converges (docs : Documents) (s₀ s s' : Consumer) (point : CrashPoint) : Prop :=
  SameDocuments (docs.persistLog s.log)
    (((docs.persistLog s₀.log).interrupted point (s₀.since s)).persistLog s'.log)

section

variable {docs : Documents} {more more' : List Event}

/-- The crash leaves the documents as they were, or some of the writes of the window. -/
theorem interrupted_induction {P : Documents → Prop} (point : CrashPoint) (hdocs : P docs)
    (hwindow : ∀ e ∈ more, ∀ result ∈ e.written,
      P (docs.writeBunchingActions result.bunchingActions) ∧ P (docs.persistWindow result)) :
    P (docs.interrupted point more) := by
  unfold Documents.interrupted
  cases hfirst : more.findSome? Event.written with
  | none =>
    cases point with
    | betweenWindows => exact hdocs
    | betweenWrites => exact hdocs
    | beforeCommit => exact hdocs
  | some result =>
    obtain ⟨e, he, hresult⟩ := List.exists_of_findSome?_eq_some hfirst
    cases point with
    | betweenWindows => exact hdocs
    | betweenWrites => exact (hwindow e he result hresult).1
    | beforeCommit => exact (hwindow e he result hresult).2

/-- The crash documents bunching events only that the uninterrupted run documents. -/
theorem interrupted_bunchingEvents (docs : Documents) (more : List Event) (point : CrashPoint)
    (key : PairKey) (t : Time) :
    ((docs.bunchingEvents (key, t)).isSome →
        ((docs.interrupted point more).bunchingEvents (key, t)).isSome) ∧
      (((docs.interrupted point more).bunchingEvents (key, t)).isSome →
        (docs.bunchingEvents (key, t)).isSome ∨ WritesEvent more key t) := by
  refine interrupted_induction (P := fun left ↦ ((docs.bunchingEvents (key, t)).isSome →
      (left.bunchingEvents (key, t)).isSome) ∧ ((left.bunchingEvents (key, t)).isSome →
        (docs.bunchingEvents (key, t)).isSome ∨ WritesEvent more key t))
    point ⟨fun h ↦ h, Or.inl⟩ fun e he result hresult ↦ and_self_iff.mpr ?_
  change ((docs.bunchingEvents (key, t)).isSome →
      ((docs.persistWindow result).bunchingEvents (key, t)).isSome) ∧
    (((docs.persistWindow result).bunchingEvents (key, t)).isSome →
      (docs.bunchingEvents (key, t)).isSome ∨ WritesEvent more key t)
  rw [persistWindow_bunchingEvents]
  exact ⟨Or.inl, fun h ↦ h.imp_right fun ha ↦ ⟨e, he, result, hresult, ha⟩⟩

/-- The crash leaves a deviation alone that the uninterrupted run does not write. -/
theorem interrupted_actualAt (point : CrashPoint) {key : DeviationKey} (h : ¬Writes more key) :
    ((docs.interrupted point more).scheduleDeviations key).map DeviationDocument.actualAt =
      (docs.scheduleDeviations key).map DeviationDocument.actualAt := by
  refine interrupted_induction (P := fun left ↦
      (left.scheduleDeviations key).map DeviationDocument.actualAt = _)
    point rfl fun e he result hresult ↦ ⟨rfl, ?_⟩
  have hnil : result.newDeviations.filter (·.key = key) = [] :=
    not_not.mp fun hne ↦ h ⟨e, he, result, hresult, hne⟩
  rw [persistWindow_actualAt, hnil]
  rfl

/-- A redelivery that writes all that was written before, and ends with the same documents, does so
from any crash point. -/
theorem sameDocuments_interrupted
    (h : SameDocuments (docs.persistLog more) (docs.persistLog more'))
    (hwrites : ∀ key, Writes more key → Writes more' key) (point : CrashPoint) :
    SameDocuments (docs.persistLog more) ((docs.interrupted point more).persistLog more') := by
  refine ⟨fun ⟨key, t⟩ ↦ ?_, fun key ↦ ?_⟩
  · obtain ⟨hkept, hleft⟩ := interrupted_bunchingEvents docs more point key t
    have hsame := h.bunchingEvents (key, t)
    rw [persistLog_bunchingEvents, persistLog_bunchingEvents] at hsame
    rw [persistLog_bunchingEvents, persistLog_bunchingEvents]
    constructor
    · intro hdocumented
      exact (hsame.mp hdocumented).imp_left hkept
    · rintro (hdocumented | hagain)
      · exact hleft hdocumented
      · exact hsame.mpr (Or.inr hagain)
  · rw [h.scheduleDeviations key]
    by_cases hkey : Writes more' key
    · exact persistLog_actualAt_of_writes hkey
    · rw [persistLog_actualAt_of_not_writes hkey, persistLog_actualAt_of_not_writes hkey,
        interrupted_actualAt point (mt (hwrites key) hkey)]

end


/-! ## What is consumed again -/

/-- The message that a turn polls. -/
def Turn.message (turn : Turn) : Option Ping :=
  match turn.poll with
  | .message p => some p
  | _ => none

/-- Nothing straddles the offset: no visit from before it goes on after it, at another time that
passes the gate, and the events of a pair start where those start that the messages before it and
after it yield by themselves. -/
structure Apart (frames : Frames) (zone : Zone) (static : GtfsStaticData)
    (earlier later whole : List Ping) : Prop where
  visits : ∀ key scheduled, scheduledArrival static key = some scheduled →
    ∀ t, firstArrival earlier key = some t → ∀ u, firstArrival later key = some u →
      inGate zone scheduled key u = true → u = t
  pairs : ∀ key t, Starts frames static whole key t ↔
    Starts frames static earlier key t ∨ Starts frames static later key t

section

variable {frames : Frames} {cfg : Settings} {zone : Zone} {static : GtfsStaticData}
  {s s' : Consumer} {turn : Turn} {turns : List Turn} {pings more : List Ping}
  {key : VisitKey}

theorem messages_close (l : Ledger) (ending : Ending) :
    messages (l.close frames zone static ending).log = messages l.log := by
  cases ending with
  | idle => rfl
  | drop => exact messages_append.trans (List.append_nil _)
  | fail => exact messages_append.trans (List.append_nil _)
  | persist => exact (close_persist frames zone static l ("", "", 0)).2.1

theorem messages_step (h : s.step cfg turn = some s') :
    (messages s'.log).map Ping.unnumbered =
      (messages s.log).map Ping.unnumbered ++ turn.message.toList.map Ping.unnumbered := by
  obtain ⟨received, skip, hreceive, hledger⟩ := Consumer.step_eq_some h
  have hlog : messages s'.log = messages received.log := by
    change messages s'.ledger.log = _
    rw [hledger]
    split_ifs with hskip
    · rfl
    · exact messages_close _ _
  rw [hlog]
  unfold Consumer.receive at hreceive
  split at hreceive
  · next hpoll =>
    obtain ⟨rfl, -⟩ := Prod.mk.inj (Option.some.inj hreceive)
    rw [Turn.message, hpoll]
    exact (List.append_nil _).symm
  · exact absurd hreceive.symm (Option.some_ne_none _)
  · next hpoll =>
    obtain ⟨rfl, -⟩ := Prod.mk.inj (Option.some.inj hreceive)
    rw [Turn.message, hpoll, messages_append]
    exact congrArg _ (List.append_nil _) |>.trans (List.append_nil _).symm
  · next hpoll =>
    obtain ⟨rfl, -⟩ := Prod.mk.inj (Option.some.inj hreceive)
    rw [Turn.message, hpoll, messages_append]
    exact congrArg _ (List.append_nil _) |>.trans (List.append_nil _).symm
  · next p hpoll =>
    obtain ⟨rfl, -⟩ := Prod.mk.inj (Option.some.inj hreceive)
    rw [Turn.message, hpoll, messages_append, List.map_append]
    rfl

theorem messages_run (h : s.run cfg turns = some s') :
    (messages s'.log).map Ping.unnumbered =
      (messages s.log).map Ping.unnumbered ++
        (turns.filterMap Turn.message).map Ping.unnumbered := by
  induction turns generalizing s with
  | nil =>
    obtain rfl := Option.some.inj h
    exact (List.append_nil _).symm
  | cons turn turns ih =>
    obtain ⟨next, hstep, hrest⟩ := Option.bind_eq_some_iff.mp h
    have hturns : (turn :: turns).filterMap Turn.message =
        turn.message.toList ++ turns.filterMap Turn.message := by
      rw [List.filterMap_cons]
      cases turn.message with
      | none => rfl
      | some p => rfl
    rw [ih hrest, messages_step hstep, hturns, List.map_append, List.append_assoc]

theorem firstArrival_congr_unnumbered
    (h : more.map Ping.unnumbered = pings.map Ping.unnumbered) :
    firstArrival pings key = firstArrival more key := by
  have hunnumbered (rows : List Ping) :
      firstArrival (rows.map Ping.unnumbered) key = firstArrival rows key := by
    rw [firstArrival, firstArrival, earliest, earliest, visitRows, visitRows, List.filter_map,
      List.filterMap_map]
    rfl
  rw [← hunnumbered pings, ← h, hunnumbered]

end

/-! ## Two exact runs -/

/-- The first of two times that passes the gate, next to the later one that does. -/
theorem filter_or_of_eq {α : Type*} {a b d : Option α} {p : α → Bool}
    (h : ∀ x, a = some x → ∀ y, b = some y → p y = true → y = x) :
    ((a.or b).filter p).or d = (b.filter p).or ((a.filter p).or d) := by
  cases a with
  | none => rfl
  | some x =>
    rw [Option.some_or]
    cases hlater : b.filter p with
    | none => rfl
    | some y =>
      obtain ⟨hy, hp⟩ := Option.filter_eq_some_iff.mp hlater
      obtain rfl := h x rfl y hy hp
      rw [Option.filter_some, if_pos hp]
      rfl

theorem eq_of_filter_or {α : Type*} {a b : Option α} {p : α → Bool} {x y : α}
    (h : (a.or b).filter p = (b.filter p).or (a.filter p)) (hx : a = some x) (hy : b = some y)
    (hp : p y = true) : y = x := by
  rw [hx, hy, Option.some_or, Option.filter_some (a := y), if_pos hp, Option.some_or] at h
  exact (Option.some.inj (Option.filter_eq_some_iff.mp h).1).symm

section

variable {frames : Frames} {zone : Zone} {static : GtfsStaticData} {docs : Documents}
  {log more again : List Event} {key : VisitKey} {scheduled : ℕ}

theorem Documented.actualAt (h : Documented frames zone static log)
    (hscheduled : scheduledArrival static key = some scheduled) :
    ((docs.persistLog log).scheduleDeviations (arrivalKey key)).map DeviationDocument.actualAt =
      ((firstArrival (messages log) key).filter fun t ↦ inGate zone scheduled key t).or
        ((docs.scheduleDeviations (arrivalKey key)).map DeviationDocument.actualAt) := by
  rw [persistLog_actualAt h.persists, h.visits key scheduled hscheduled]
  cases (firstArrival (messages log) key).filter fun t ↦ inGate zone scheduled key t with
  | none => rfl
  | some t => rfl

theorem Documented.bunchingEvents (h : Documented frames zone static log) (pair : PairKey)
    (t : Time) : ((docs.persistLog log).bunchingEvents (pair, t)).isSome ↔
      (docs.bunchingEvents (pair, t)).isSome ∨ Starts frames static (messages log) pair t := by
  rw [persistLog_bunchingEvents, h.bunching]

theorem persistLog_append : docs.persistLog (log ++ more) = (docs.persistLog log).persistLog more :=
  List.foldl_append

/-- Two runs of the messages before and after the offset document what one run of all of them
documents, as long as nothing straddles the offset. -/
theorem Apart.sameDocuments
    (h : Apart frames zone static (messages log) (messages again) (messages (log ++ more)))
    (hwhole : Documented frames zone static (log ++ more))
    (hearlier : Documented frames zone static log) (hlater : Documented frames zone static again)
    (hfirst : ∀ key, firstArrival (messages (log ++ more)) key =
      (firstArrival (messages log) key).or (firstArrival (messages again) key)) :
    SameDocuments (docs.persistLog (log ++ more)) ((docs.persistLog log).persistLog again) := by
  constructor
  · rintro ⟨pair, t⟩
    rw [hwhole.bunchingEvents, hlater.bunchingEvents, hearlier.bunchingEvents, h.pairs, or_assoc]
  · intro written
    by_cases hvisit : ∃ visit scheduled,
        scheduledArrival static visit = some scheduled ∧ arrivalKey visit = written
    · obtain ⟨visit, scheduled, hscheduled, rfl⟩ := hvisit
      rw [hwhole.actualAt hscheduled, hlater.actualAt hscheduled, hearlier.actualAt hscheduled,
        hfirst]
      refine filter_or_of_eq fun t ht u hu hgate ↦ ?_
      exact h.visits visit scheduled hscheduled t ht u hu hgate
    · have hsilent {l : List Event} (hl : Documented frames zone static l) : ¬Writes l written :=
        mt (hl.others written) hvisit
      rw [persistLog_actualAt_of_not_writes (hsilent hwhole),
        persistLog_actualAt_of_not_writes (hsilent hlater),
        persistLog_actualAt_of_not_writes (hsilent hearlier)]

/-- Where two runs document the same, nothing straddles the offset. -/
theorem apart_of_sameDocuments
    (h : SameDocuments (({} : Documents).persistLog (log ++ more))
      ((({} : Documents).persistLog log).persistLog again))
    (hwhole : Documented frames zone static (log ++ more))
    (hearlier : Documented frames zone static log) (hlater : Documented frames zone static again)
    (hfirst : ∀ key, firstArrival (messages (log ++ more)) key =
      (firstArrival (messages log) key).or (firstArrival (messages again) key)) :
    Apart frames zone static (messages log) (messages again) (messages (log ++ more)) := by
  constructor
  · intro visit scheduled hscheduled t ht u hu hgate
    have hsame := h.scheduleDeviations (arrivalKey visit)
    rw [hwhole.actualAt hscheduled, hlater.actualAt hscheduled, hearlier.actualAt hscheduled,
      hfirst, Option.map_none, Option.or_none, Option.or_none] at hsame
    exact eq_of_filter_or hsame ht hu hgate
  · intro pair t
    have hsame := h.bunchingEvents (pair, t)
    rw [hwhole.bunchingEvents, hlater.bunchingEvents, hearlier.bunchingEvents] at hsame
    simpa using hsame

/-- What the run writes after the offset, the restarted one writes too. -/
theorem Documented.writes_again (hwhole : Documented frames zone static (log ++ more))
    (hearlier : Documented frames zone static log) (hlater : Documented frames zone static again)
    (hfirst : ∀ key, firstArrival (messages (log ++ more)) key =
      (firstArrival (messages log) key).or (firstArrival (messages again) key))
    {written : DeviationKey} (h : Writes more written) : Writes again written := by
  obtain ⟨e, he, hresult⟩ := h
  obtain ⟨visit, scheduled, hscheduled, rfl⟩ :=
    hwhole.others written ⟨e, List.mem_append_right _ he, hresult⟩
  have hmore : samples visit more ≠ [] :=
    (writes_iff fun e he ↦ hwhole.persists e (List.mem_append_right _ he)).mp ⟨e, he, hresult⟩
  refine (writes_iff hlater.persists).mpr ?_
  -- a visit with rows before the offset was sampled there or not at all
  have hsamples := hwhole.visits visit scheduled hscheduled
  rw [samples_append, hearlier.visits visit scheduled hscheduled, hfirst] at hsamples
  rw [hlater.visits visit scheduled hscheduled]
  cases hbefore : firstArrival (messages log) visit with
  | none =>
    rw [hbefore, Option.filter_none, Option.none_or] at hsamples
    rwa [← hsamples]
  | some t =>
    rw [hbefore, Option.some_or] at hsamples
    exact absurd (List.append_cancel_left (hsamples.trans (List.append_nil _).symm)) hmore

end

/-- What makes a run exact, in a form that a run can be checked for: the visits are remembered,
their times can be anchored, and the messages come at the beginnings of poll intervals. -/
def IsExact (zone : Zone) (static : GtfsStaticData) (log : List Event) : Prop :=
  IsSteady static log ∧ ∀ p ∈ messages log, ∀ t ∈ p.timestampEastern, t = slotTime (slot t) ∧
    (zone.HasTime (t - seconds trackerRetentionSeconds) ∧
      zone.HasTime (bucket t + seconds pollIntervalSeconds)) ∧
    ∀ key ∈ p.visitKey, ∀ scheduled ∈ scheduledArrival static key,
      Anchored zone scheduled t ∧ ∀ first ∈ firstArrival (messages log) key,
        opening key (persistedFrames log) = some first ∧ inGate zone scheduled key first = true ∧
          ∀ g ∈ persistedFrames log, retained (newest g) first = true

instance (zone : Zone) (static : GtfsStaticData) (log : List Event) :
    Decidable (IsExact zone static log) :=
  inferInstanceAs (Decidable (_ ∧ ∀ p ∈ messages log, ∀ t ∈ p.timestampEastern, _ ∧ _ ∧
    ∀ key ∈ p.visitKey, ∀ scheduled ∈ scheduledArrival static key, _ ∧
      ∀ first ∈ firstArrival (messages log) key, _ ∧ _))

theorem IsExact.exactRun {zone : Zone} {static : GtfsStaticData} {l : Ledger}
    (h : IsExact zone static l.log)
    (hadvances : Relation.ReflTransGen (Advance meridian zone {static}) {} l)
    (hframes : ∀ f ∈ persistedFrames l.log, ∀ p ∈ f, p.timestampEastern.isSome) :
    ExactRun meridian zone static l.log := by
  obtain ⟨hsteady, h⟩ := h
  constructor
  · exact hsteady.steady
  · exact fun p hp t ht ↦ (h p hp t ht).2.1
  · intro key scheduled hscheduled p hp t ht
    obtain ⟨hmem, hvisit⟩ := List.mem_filter.mp hp
    have hkey := (of_decide_eq_true hvisit).2.2
    exact ((h p hmem t ht).2.2 key hkey scheduled hscheduled).1
  · intro key scheduled hscheduled first hfirst
    obtain ⟨p, hp, ht⟩ := (earliest_eq_some.mp hfirst).1
    obtain ⟨hmem, hvisit⟩ := List.mem_filter.mp hp
    have hkey := (of_decide_eq_true hvisit).2.2
    obtain ⟨hopening, hgate, hretained⟩ :=
      ((h p hmem first ht).2.2 key hkey scheduled hscheduled).2 first hfirst
    exact noLateSample_of_retained hframes hopening hgate hretained
  · intro key
    exact seesAtWindows_of_onGrid hadvances hsteady.steady fun p hp t ht ↦ (h p hp t ht).1

/-- Messages of different vehicles, none of which goes with another, have nothing that straddles
the offset. -/
theorem apart_of_vehicles {frames : Frames} {zone : Zone} {static : GtfsStaticData}
    {earlier later whole : List Ping} (hvehicles : ∀ p ∈ earlier, ∀ q ∈ later,
      p.vehicleId ≠ q.vehicleId)
    (hevents : windowEvents frames static earlier = [] ∧ windowEvents frames static later = [] ∧
      windowEvents frames static whole = []) : Apart frames zone static earlier later whole := by
  obtain ⟨hearlier, hlater, hwhole⟩ := hevents
  constructor
  · intro key scheduled _ t ht u hu _
    obtain ⟨p, hp, -⟩ := (earliest_eq_some.mp ht).1
    obtain ⟨q, hq, -⟩ := (earliest_eq_some.mp hu).1
    obtain ⟨hp, hpkey⟩ := List.mem_filter.mp hp
    obtain ⟨hq, hqkey⟩ := List.mem_filter.mp hq
    have hsame : p.vehicleId = q.vehicleId :=
      (vehicleId_of_visitKey (of_decide_eq_true hpkey).2.2).trans
        (vehicleId_of_visitKey (of_decide_eq_true hqkey).2.2).symm
    exact absurd hsame (hvehicles p hp q hq)
  · intro key t
    simp only [Starts, hearlier, hlater, hwhole, List.not_mem_nil, false_and, exists_false,
      or_self]

/-- The settings as they come. -/
def settings : Settings := { frames := meridian, zone := easternStandardTime }

/-- The process after a restart. -/
def restarted : Consumer := { lastWindowFlush := seconds 200 }

/-- A stop is served, and its window is persisted. -/
def firstStop : List Turn := [.receiving (stoppedAt 30) (.arrivingAt 68460) 60 .success]

/-- Another vehicle serves the stop, in two windows. -/
def nextVehicle : List Turn :=
  [.receiving { stoppedAt 90 with vehicleId := "y2" } (.arrivingAt 68460) 120 .success,
    .receiving { stoppedAt 105 with vehicleId := "y2" } (.arrivingAt 68460) 180 .success]

/-- The same messages after the restart, in one window. -/
def nextVehicleAgain : List Turn :=
  [.receiving { stoppedAt 90 with vehicleId := "y2" } (.arrivingAt 68460) 230 .success,
    .receiving { stoppedAt 105 with vehicleId := "y2" } (.arrivingAt 68460) 260 .success]

/-- The vehicle still stands there after the crash. -/
def stillStanding : List Turn := [.receiving (stoppedAt 61) (.arrivingAt 68460) 120 .success]

/-- The same message after the restart. -/
def stillStandingAgain : List Turn := [.receiving (stoppedAt 61) (.arrivingAt 68460) 260 .success]

end GtfsStream.Analytics
