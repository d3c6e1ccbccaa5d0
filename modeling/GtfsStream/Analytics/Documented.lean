import GtfsStream.Analytics.DeviationVolume
import GtfsStream.Analytics.FirstArrival
import GtfsStream.Analytics.WindowedBunching

/-!
# What a run documents

The documents are written by key, so of the deviations of a key the last one stays, and every start
of a bunching event has its document.

A run is exact by itself if none of its windows emits a late sample of a visit, and if all of them
see of each pair what matters. After a commit of such a run the documents are a function of the
messages alone, wherever the windows were cut: a visit has the time of its first arrival, provided
that this passes the gate, and a pair has a document for every event that the messages yield at
once.
-/

open GtfsStream.History

namespace GtfsStream.Analytics

/-! ## The documents of a log -/

/-- The result of a window that was handed to the sink, which reported success. -/
def Event.written : Event → Option WindowResult
  | .handed _ result true => some result
  | _ => none

section

variable {docs docs' : Documents} {log : List Event} {result : WindowResult}

theorem persistWindow_bunchingEvents {key : PairKey} {t : Time} :
    ((docs.persistWindow result).bunchingEvents (key, t)).isSome ↔
      (docs.bunchingEvents (key, t)).isSome ∨
        ∃ a ∈ result.bunchingActions.filter (·.2.key = key), a.2.startTime = t := by
  have hwrite : (docs.persistWindow result).bunchingEvents =
      bulkWrite (fun _ document ↦ document) docs.bunchingEvents
        (buildBunchingOperations result.bunchingActions) := rfl
  rw [hwrite, bulkWrite_isSome, buildBunchingOperations]
  simp only [List.mem_map, exists_exists_and_eq_and, List.mem_filter, decide_eq_true_iff, and_assoc,
    Prod.mk.injEq]

theorem persistWindow_actualAt (key : DeviationKey) :
    ((docs.persistWindow result).scheduleDeviations key).map DeviationDocument.actualAt =
      ((result.newDeviations.filter (·.key = key)).getLast?.map DeviationResult.actualAt).or
        ((docs.scheduleDeviations key).map DeviationDocument.actualAt) := by
  have hset (found : Option DeviationDocument) (document : DeviationDocument) :
      (setDeviation found document).actualAt = document.actualAt := rfl
  change ((bulkWrite setDeviation docs.scheduleDeviations _ key).map _) = _
  rw [bulkWrite_map hset, buildDeviationOperations, List.filter_map, List.getLast?_map,
    Option.map_map]
  rfl

/-- The log writes a deviation of the key. -/
def Writes (log : List Event) (key : DeviationKey) : Prop :=
  ∃ e ∈ log, ∃ result ∈ e.written, result.newDeviations.filter (·.key = key) ≠ []

/-- The log writes a bunching event of the pair that starts at the time. -/
def WritesEvent (log : List Event) (key : PairKey) (t : Time) : Prop :=
  ∃ e ∈ log, ∃ result ∈ e.written,
    ∃ a ∈ result.bunchingActions.filter (·.2.key = key), a.2.startTime = t

theorem persistLog_concat_written (e : Event) : docs.persistLog (log ++ [e]) =
    match e.written with
    | some result => (docs.persistLog log).persistWindow result
    | none => docs.persistLog log := by
  rw [persistLog_concat]
  cases e with
  | received p => rfl
  | handed pings result success =>
    cases success with
    | false => rfl
    | true => rfl
  | dropped pings => rfl
  | commit => rfl

theorem exists_mem_concat {α : Type*} {l : List α} {a : α} {P : α → Prop} :
    (∃ x ∈ l ++ [a], P x) ↔ (∃ x ∈ l, P x) ∨ P a := by
  simp only [List.mem_append, List.mem_singleton, or_and_right, exists_or, exists_eq_left]

theorem writes_concat_silent {e : Event} {key : DeviationKey} (h : e.written = none) :
    Writes (log ++ [e]) key ↔ Writes log key := by
  rw [Writes, exists_mem_concat, h]
  refine or_iff_left ?_
  rintro ⟨result, hresult, -⟩
  exact absurd hresult.symm (Option.some_ne_none result)

theorem writes_concat_written {e : Event} {key : DeviationKey} (h : e.written = some result) :
    Writes (log ++ [e]) key ↔
      Writes log key ∨ result.newDeviations.filter (·.key = key) ≠ [] := by
  rw [Writes, exists_mem_concat, h]
  refine or_congr_right ⟨?_, fun hne ↦ ⟨result, rfl, hne⟩⟩
  rintro ⟨_, hresult, hne⟩
  exact Option.some.inj hresult ▸ hne

theorem persistLog_bunchingEvents {key : PairKey} {t : Time} :
    ((docs.persistLog log).bunchingEvents (key, t)).isSome ↔
      (docs.bunchingEvents (key, t)).isSome ∨ WritesEvent log key t := by
  induction log using List.reverseRecOn with
  | nil => exact (or_iff_left fun ⟨e, he, _⟩ ↦ List.not_mem_nil he).symm
  | append_singleton log e ih =>
    rw [persistLog_concat_written, WritesEvent, exists_mem_concat, ← or_assoc]
    cases hwritten : e.written with
    | none =>
      refine ih.trans (or_iff_left ?_).symm
      rintro ⟨result, hresult, -⟩
      exact absurd hresult.symm (Option.some_ne_none result)
    | some result =>
      dsimp only
      rw [persistWindow_bunchingEvents, ih, WritesEvent]
      refine or_congr_right ⟨fun h ↦ ⟨result, rfl, h⟩, ?_⟩
      rintro ⟨_, hresult, h⟩
      exact Option.some.inj hresult ▸ h

theorem persistLog_actualAt_of_not_writes {key : DeviationKey} (h : ¬Writes log key) :
    ((docs.persistLog log).scheduleDeviations key).map DeviationDocument.actualAt =
      (docs.scheduleDeviations key).map DeviationDocument.actualAt := by
  induction log using List.reverseRecOn with
  | nil => rfl
  | append_singleton log e ih =>
    rw [Writes, exists_mem_concat, not_or] at h
    rw [persistLog_concat_written]
    cases hwritten : e.written with
    | none => exact ih h.1
    | some result =>
      have hnil : result.newDeviations.filter (·.key = key) = [] :=
        not_not.mp fun hne ↦ h.2 ⟨result, hwritten, hne⟩
      dsimp only
      rw [persistWindow_actualAt, hnil]
      exact ih h.1

theorem persistLog_actualAt_of_writes {key : DeviationKey} (h : Writes log key) :
    ((docs.persistLog log).scheduleDeviations key).map DeviationDocument.actualAt =
      ((docs'.persistLog log).scheduleDeviations key).map DeviationDocument.actualAt := by
  induction log using List.reverseRecOn with
  | nil => exact absurd h.choose_spec.1 List.not_mem_nil
  | append_singleton log e ih =>
    rw [Writes, exists_mem_concat] at h
    rw [persistLog_concat_written, persistLog_concat_written]
    cases hwritten : e.written with
    | none =>
      refine ih (h.resolve_right ?_)
      rintro ⟨result, hresult, -⟩
      rw [hwritten] at hresult
      exact absurd hresult.symm (Option.some_ne_none result)
    | some result =>
      dsimp only
      rw [persistWindow_actualAt, persistWindow_actualAt]
      cases hlast : (result.newDeviations.filter (·.key = key)).getLast? with
      | some r => rfl
      | none =>
        refine ih (h.resolve_right ?_)
        rintro ⟨_, hresult, hne⟩
        rw [hwritten] at hresult
        obtain rfl := Option.some.inj hresult
        exact hne (List.getLast?_eq_none_iff.mp hlast)

end

/-! ## The samples of a log -/

section

variable {docs : Documents} {log more : List Event} {key : VisitKey} {e : Event}

theorem samples_append :
    samples key (log ++ more) = samples key log ++ samples key more :=
  List.flatMap_append

theorem samples_singleton (h : e.unpersisted = none) :
    samples key [e] = e.written.elim [] fun result ↦ result.samples key := by
  cases e with
  | received p => rfl
  | handed pings result success =>
    cases success with
    | false => exact absurd h (Option.some_ne_none pings)
    | true => exact List.append_nil _
  | dropped pings => exact absurd h (Option.some_ne_none pings)
  | commit => rfl

theorem persistLog_actualAt (h : ∀ e ∈ log, e.unpersisted = none) :
    ((docs.persistLog log).scheduleDeviations (arrivalKey key)).map DeviationDocument.actualAt =
      (samples key log).getLast?.or
        ((docs.scheduleDeviations (arrivalKey key)).map DeviationDocument.actualAt) := by
  induction log using List.reverseRecOn with
  | nil => rfl
  | append_singleton log e ih =>
    obtain ⟨hlog, he⟩ := List.forall_mem_append.mp h
    have hevent : samples key [e] = e.written.elim [] fun result ↦ result.samples key :=
      samples_singleton (he e (List.mem_singleton_self e))
    rw [persistLog_concat_written, samples_append, hevent, List.getLast?_append, Option.or_assoc,
      ← ih hlog]
    cases e.written with
    | none => rfl
    | some result =>
      dsimp only [Option.elim_some]
      rw [persistWindow_actualAt, WindowResult.samples, List.getLast?_map]

theorem writes_iff (h : ∀ e ∈ log, e.unpersisted = none) :
    Writes log (arrivalKey key) ↔ samples key log ≠ [] := by
  induction log using List.reverseRecOn with
  | nil => exact iff_of_false (fun ⟨e, he, _⟩ ↦ List.not_mem_nil he) fun hne ↦ hne rfl
  | append_singleton log e ih =>
    obtain ⟨hlog, he⟩ := List.forall_mem_append.mp h
    have hevent : samples key [e] = e.written.elim [] fun result ↦ result.samples key :=
      samples_singleton (he e (List.mem_singleton_self e))
    rw [samples_append, hevent, ne_eq, List.append_eq_nil_iff, not_and_or, ← ne_eq, ← ih hlog]
    cases hwritten : e.written with
    | none =>
      rw [writes_concat_silent hwritten]
      exact (or_iff_left fun hne ↦ hne rfl).symm
    | some result =>
      rw [writes_concat_written hwritten, Option.elim_some, WindowResult.samples]
      exact or_congr_right List.map_eq_nil_iff.not.symm

end

/-! ## Exact runs -/

section

variable (frames : Frames) (zone : Zone) (static : GtfsStaticData)

/-- The times of the scheduled visits can be anchored. -/
def Datable (pings : List Ping) : Prop :=
  ∀ key scheduled, scheduledArrival static key = some scheduled →
    ∀ p ∈ visitRows pings key, ∀ t, p.timestampEastern = some t → Anchored zone scheduled t

/-- A run that is exact by itself: its windows are all persisted, none of them emits a late sample,
and every one sees of each pair what matters. The cutoffs of the trackers and the ends of the poll
intervals are in the calendar. -/
structure ExactRun (log : List Event) : Prop where
  steady : Steady frames static log
  calendar : ∀ p ∈ messages log, ∀ t ∈ p.timestampEastern,
    zone.HasTime (t - seconds trackerRetentionSeconds) ∧
      zone.HasTime (bucket t + seconds pollIntervalSeconds)
  dated : Datable zone static (messages log)
  visits : ∀ key scheduled, scheduledArrival static key = some scheduled →
    ∀ first, firstArrival (messages log) key = some first →
      NoLateSample zone scheduled key first (persistedFrames log)
  pairs : ∀ key, SeesAtWindows frames static key log

/-- The messages yield an event of the pair that starts at this time. -/
def Starts (pings : List Ping) (key : PairKey) (t : Time) : Prop :=
  ∃ e ∈ windowEvents frames static pings, e.key = key ∧ e.startTime = t

/-- What a log documents is a function of its messages. -/
structure Documented (log : List Event) : Prop where
  persists : ∀ e ∈ log, e.unpersisted = none
  bunching : ∀ key t, WritesEvent log key t ↔ Starts frames static (messages log) key t
  visits : ∀ key scheduled, scheduledArrival static key = some scheduled →
    samples key log =
      ((firstArrival (messages log) key).filter fun t ↦ inGate zone scheduled key t).toList
  others : ∀ key, Writes log key →
    ∃ visit scheduled, scheduledArrival static visit = some scheduled ∧ arrivalKey visit = key

end

section

variable {frames : Frames} {zone : Zone} {static : GtfsStaticData} {pings more : List Ping}
  {l l' : Ledger} {log rest : List Event} {key : VisitKey} {pair : PairKey} {scheduled : ℕ}
  {first t : Time}

theorem Datable.mono (h : Datable zone static more) (hsub : ∀ p ∈ pings, p ∈ more) :
    Datable zone static pings := by
  intro key scheduled hscheduled p hp t ht
  exact h key scheduled hscheduled p (mem_visitRows_mono hsub hp) t ht

theorem Datable.windowArrivals_isSome (h : Datable zone static pings)
    (hknown : ∀ p ∈ pings, p.timestampEastern.isSome) :
    (windowArrivals zone static pings).isSome := by
  refine windowArrivals_isSome_iff.mpr fun key scheduled hscheduled hrows ↦ ?_
  obtain ⟨t, ht⟩ := Option.isSome_iff_exists.mp (firstArrival_isSome hknown hrows)
  obtain ⟨p, hp, hpt⟩ := (earliest_eq_some.mp ht).1
  exact ⟨t, ht, h key scheduled hscheduled p hp t hpt⟩

theorem messages_append : messages (log ++ rest) = messages log ++ messages rest :=
  List.filterMap_append

/-- The first arrival is among the first messages, if they have one. -/
theorem firstArrival_append (htime : InTime (pings ++ more)) :
    firstArrival (pings ++ more) key =
      (firstArrival pings key).or (firstArrival more key) := by
  cases hfirst : firstArrival pings key with
  | some t =>
    rw [Option.some_or, firstArrival, earliest_eq_some]
    obtain ⟨⟨p, hp, hpt⟩, hleast⟩ := earliest_eq_some.mp hfirst
    refine ⟨⟨p, mem_visitRows_mono (fun _ ↦ List.mem_append_left _) hp, hpt⟩, fun q hq s hs ↦ ?_⟩
    obtain ⟨hmem, hvisit⟩ := List.mem_filter.mp hq
    rcases List.mem_append.mp hmem with hmem | hmem
    · exact hleast q (List.mem_filter.mpr ⟨hmem, hvisit⟩) s hs
    · exact (List.pairwise_append.mp htime.ordered).2.2 p (List.mem_of_mem_filter hp) q hmem t s
        hpt hs
  | none =>
    have hrows : visitRows pings key = [] := by
      by_contra hrows
      have hsome := firstArrival_isSome htime.of_append.known hrows
      rw [hfirst] at hsome
      exact Bool.false_ne_true hsome
    rw [Option.none_or]
    refine firstArrival_congr fun p ↦ ?_
    rw [visitRows, List.filter_append]
    change p ∈ visitRows pings key ++ visitRows more key ↔ _
    rw [hrows, List.nil_append]

theorem ExactRun.of_append (h : ExactRun frames zone static (log ++ rest)) :
    ExactRun frames zone static log := by
  have htime := h.steady.inTime
  have hcalendar := h.calendar
  have hdated := h.dated
  rw [messages_append] at htime hcalendar hdated
  constructor
  · exact h.steady.of_append
  · exact fun p hp ↦ hcalendar p (List.mem_append_left _ hp)
  · exact hdated.mono fun p ↦ List.mem_append_left _
  · intro key scheduled hscheduled first hfirst
    have hwhole : firstArrival (messages (log ++ rest)) key = some first := by
      rw [messages_append, firstArrival_append htime, hfirst, Option.some_or]
    have hlate := h.visits key scheduled hscheduled first hwhole
    rw [persistedFrames, List.filterMap_append] at hlate
    exact hlate.of_append
  · exact fun key ↦ (h.pairs key).of_append

/-! ### Steps -/

/-- Every message was in some window. -/
def Drained (log : List Event) : Prop := ∀ p ∈ messages log, p ∈ flushed log

theorem getLast?_concat_ne {e : Event} (he : e ≠ .commit) :
    (log ++ [e]).getLast? ≠ some .commit := by
  rw [List.getLast?_concat]
  exact fun hcommit ↦ he (Option.some.inj hcommit)

theorem drained_advance
    (h : Cut l.memory.rows l.log ∧ (l.log.getLast? = some .commit → Drained l.log))
    (hadvance : Advance frames zone {static} l l') (hsteady : Steady frames static l'.log) :
    Cut l'.memory.rows l'.log ∧ (l'.log.getLast? = some .commit → Drained l'.log) := by
  obtain ⟨hcut, -⟩ := h
  cases hadvance with
  | skip =>
    exact ⟨hcut.concat rfl rfl,
      fun hcommit ↦ absurd hcommit (getLast?_concat_ne Event.noConfusion)⟩
  | receive p hoffset =>
    have htime := hsteady.inTime
    rw [messages_append] at htime
    exact ⟨hcut.receive htime,
      fun hcommit ↦ absurd hcommit (getLast?_concat_ne Event.noConfusion)⟩
  | drop =>
    exact absurd (hsteady.persists (.dropped l.memory.rows) (by simp)) (Option.some_ne_none _)
  | fail static =>
    exact absurd (hsteady.persists
      (.handed l.memory.rows (l.memory.handOver frames zone static).1 false) (by simp))
        (Option.some_ne_none _)
  | persist other hstatic hrows =>
    have hbefore := hsteady.of_append.of_append
    constructor
    · dsimp only
      rw [Memory.handOver, processWindow_rows]
      exact (hcut.persist hbefore.inTime.known hrows _).concat rfl rfl
    · intro _ p hp
      rw [flushed_handed]
      rw [messages_append, messages_handed] at hp
      exact hcut.mem_iff.mpr ((List.append_nil (messages l.log)).subst hp)

theorem follows_advance (h : Follows zone scheduled key (persistedFrames l.log) l)
    (hadvance : Advance frames zone {static} l l') (hsteady : Steady frames static l'.log)
    (hdated : Datable zone static (messages l'.log))
    (hscheduled : scheduledArrival static key = some scheduled) :
    Follows zone scheduled key (persistedFrames l'.log) l' := by
  have hsame {e : Event} (he : e.persisted = none) :
      persistedFrames (l.log ++ [e]) = persistedFrames l.log := by
    rw [persistedFrames, List.filterMap_append, List.filterMap_cons, he]
    exact List.append_nil _
  cases hadvance with
  | skip =>
    rw [hsame rfl]
    exact h.skip
  | receive p hoffset =>
    have htime := hsteady.inTime
    rw [messages_append] at htime
    rw [hsame rfl]
    exact h.receive htime
  | drop =>
    exact absurd (hsteady.persists (.dropped l.memory.rows) (by simp)) (Option.some_ne_none _)
  | fail static =>
    exact absurd (hsteady.persists
      (.handed l.memory.rows (l.memory.handOver frames zone static).1 false) (by simp))
        (Option.some_ne_none _)
  | persist other hstatic hrows =>
    obtain rfl : other = static := hstatic
    have htime := hsteady.of_append.of_append.inTime
    have hmessages := (close_persist frames zone other l key).2.1
    have harrivals : (windowArrivals zone other l.memory.rows).isSome := by
      refine (hdated.mono fun p hp ↦ ?_).windowArrivals_isSome fun p hp ↦ ?_
      · exact hmessages.symm ▸ h.rows p hp
      · exact htime.known p (h.rows p hp)
    have hframes : persistedFrames (l.log ++
        [.handed l.memory.rows (l.memory.handOver frames zone other).1 true] ++ [.commit]) =
          persistedFrames l.log ++ [l.memory.rows] := by
      rw [persistedFrames, List.filterMap_append, List.filterMap_append]
      exact List.append_nil _
    rw [hframes]
    exact h.persist_scored htime hrows hscheduled harrivals

/-- A deviation that is written is the arrival of a scheduled visit. -/
theorem others_advance {written : DeviationKey}
    (h : Writes l.log written → ∃ visit scheduled,
      scheduledArrival static visit = some scheduled ∧ arrivalKey visit = written)
    (hadvance : Advance frames zone {static} l l') (hwrites : Writes l'.log written) :
    ∃ visit scheduled,
      scheduledArrival static visit = some scheduled ∧ arrivalKey visit = written := by
  cases hadvance with
  | skip => exact h ((writes_concat_silent rfl).mp hwrites)
  | receive p hoffset => exact h ((writes_concat_silent rfl).mp hwrites)
  | drop => exact h ((writes_concat_silent rfl).mp hwrites)
  | fail static => exact h ((writes_concat_silent rfl).mp hwrites)
  | persist other hstatic hrows =>
    obtain rfl : other = static := hstatic
    have hhanded := (writes_concat_silent rfl).mp hwrites
    rcases (writes_concat_written rfl).mp hhanded with hbefore | hne
    · exact h hbefore
    · obtain ⟨r, hr⟩ := List.exists_mem_of_ne_nil _ hne
      have hcarries : (l.memory.handOver frames zone other).1.carriesDeviation written = true :=
        List.any_eq_true.mpr ⟨r, (List.mem_filter.mp hr).1, (List.mem_filter.mp hr).2⟩
      obtain ⟨-, g, hg, hkey⟩ := carriesDeviation_iff.mp hcarries
      cases harrivals : windowArrivals zone other l.memory.rows with
      | none =>
        rw [gatedArrivals, harrivals] at hg
        exact absurd hg List.not_mem_nil
      | some results =>
        obtain ⟨visit, scheduled, t, hscheduled, -, rfl, -⟩ :=
          (mem_gatedArrivals (Option.isSome_of_eq_some harrivals)).mp hg
        exact ⟨visit, scheduled, hscheduled, hkey⟩

/-! ### After a commit -/

/-- After a commit the windows have the first arrival of a visit, and the first with rows of the
visit has it. -/
theorem Follows.opening_eq (h : Follows zone scheduled key (persistedFrames l.log) l)
    (hdrained : Drained l.log) (hknown : ∀ p ∈ messages l.log, p.timestampEastern.isSome)
    (hfirst : firstArrival (messages l.log) key = some first) :
    opening key (persistedFrames l.log) = some first := by
  obtain ⟨⟨p, hp, hpt⟩, hleast⟩ := earliest_eq_some.mp hfirst
  obtain ⟨hmem, hvisit⟩ := List.mem_filter.mp hp
  obtain ⟨f, hf, hpf⟩ := List.mem_flatten.mp (hdrained p hmem)
  have hframes : ∀ f ∈ persistedFrames l.log, ∀ p ∈ f, p.timestampEastern.isSome :=
    fun f hf p hp ↦ hknown p (h.frames f hf p hp)
  have hrow : p ∈ visitRows f key := List.mem_filter.mpr ⟨hpf, hvisit⟩
  obtain ⟨t₀, ht₀⟩ := Option.isSome_iff_exists.mp
    ((opening_isSome hframes).mpr ⟨f, hf, List.ne_nil_of_mem hrow⟩)
  obtain ⟨t, ht⟩ := Option.isSome_iff_exists.mp
    (firstArrival_isSome (hframes f hf) (List.ne_nil_of_mem hrow))
  have hle : t₀ ≤ first :=
    ((h.late t₀ ht₀).1 f hf t ht).trans ((earliest_eq_some.mp ht).2 p hrow first hpt)
  obtain ⟨g, hg, hgt⟩ := List.exists_of_findSome?_eq_some ht₀
  obtain ⟨q, hq, hqt⟩ := (earliest_eq_some.mp hgt).1
  have hge : first ≤ t₀ := hleast q (mem_visitRows_mono (h.frames g hg) hq) t₀ hqt
  rw [ht₀, le_antisymm hle hge]

/-- After a commit without a late sample so far the sample of a visit is its first arrival, if that
passes the gate. -/
theorem Follows.samples_eq (h : Follows zone scheduled key (persistedFrames l.log) l)
    (hdrained : Drained l.log) (hknown : ∀ p ∈ messages l.log, p.timestampEastern.isSome)
    (hlate : ∀ first, firstArrival (messages l.log) key = some first →
      NoLateSample zone scheduled key first (persistedFrames l.log)) :
    Analytics.samples key l.log =
      ((firstArrival (messages l.log) key).filter fun t ↦ inGate zone scheduled key t).toList := by
  have hframes : ∀ f ∈ persistedFrames l.log, ∀ p ∈ f, p.timestampEastern.isSome :=
    fun f hf p hp ↦ hknown p (h.frames f hf p hp)
  rw [h.samples]
  cases hfirst : firstArrival (messages l.log) key with
  | none =>
    refine frameSamples_eq_nil_iff.mpr fun f hf ↦ ?_
    refine Option.eq_none_iff_forall_ne_some.mpr fun t ht ↦ ?_
    have hrows := visitRows_ne_nil_of_firstArrival (Option.filter_eq_some_iff.mp ht).1
    obtain ⟨p, hp⟩ := List.exists_mem_of_ne_nil _ hrows
    have hsome := firstArrival_isSome hknown
      (List.ne_nil_of_mem (mem_visitRows_mono (h.frames f hf) hp))
    rw [hfirst] at hsome
    exact Bool.false_ne_true hsome
  | some first =>
    have hopening := h.opening_eq hdrained hknown hfirst
    have hremembered := (noLateSample_iff_remembered hframes hopening).mp (hlate first hfirst)
    obtain ⟨g, hg, hgt⟩ := List.exists_of_findSome?_eq_some hopening
    exact ((sampled_of_opens (h.opens first hopening)).visited
      ⟨g, hg, visitRows_ne_nil_of_firstArrival hgt⟩ hremembered).1

/-- Documented of a pair are the events of the messages, where the log writes them all. -/
theorem Documented.bunching_of_recordsStream (h : RecordsStream frames static pair log) :
    WritesEvent log pair t ↔ Starts frames static (messages log) pair t := by
  have hwrites : WritesEvent log pair t ↔
      ((({} : Documents).persistLog log).bunchingEvents (pair, t)).isSome := by
    rw [persistLog_bunchingEvents]
    exact (or_iff_right Bool.false_ne_true).symm
  rw [hwrites, ← Option.isSome_map, Option.isSome_iff_exists]
  change (∃ u, (({} : Documents).persistLog log).ends pair t = some u) ↔ _
  constructor
  · rintro ⟨u, hu⟩
    obtain ⟨e, he, hkey, hstart, -⟩ := (h t u).mp hu
    exact ⟨e, he, hkey, hstart⟩
  · rintro ⟨e, he, hkey, hstart⟩
    exact ⟨e.endTime, (h t e.endTime).mpr ⟨e, he, hkey, hstart, rfl⟩⟩

/-- **After a commit the documents of an exact run are a function of its messages.** -/
theorem ExactRun.documented
    (hadvances : Relation.ReflTransGen (Advance frames zone {static}) {} l)
    (h : ExactRun frames zone static l.log) (hcommit : l.log.getLast? = some .commit) :
    Documented frames zone static l.log := by
  have hdrained : Drained l.log :=
    (advances_induction (P := fun l ↦ Cut l.memory.rows l.log ∧
        (l.log.getLast? = some .commit → Drained l.log)) (Q := Steady frames static)
      (fun _ _ h ↦ h.of_append) ⟨cut_empty, fun h ↦ absurd h.symm (Option.some_ne_none _)⟩
      (fun _ _ h hadvance hlog ↦ drained_advance h hadvance hlog) hadvances h.steady).2 hcommit
  have hrecorded (pair : PairKey) : Recorded frames static pair l :=
    advances_induction (fun _ _ hsteady ↦ hsteady.of_append) recorded_empty
      (fun _ _ hrecorded hadvance hsteady ↦ hrecorded.advance hadvance hsteady) hadvances h.steady
  have hfollows (key : VisitKey) (scheduled : ℕ)
      (hscheduled : scheduledArrival static key = some scheduled) :
      Follows zone scheduled key (persistedFrames l.log) l :=
    advances_induction (P := fun l ↦ Follows zone scheduled key (persistedFrames l.log) l)
      (Q := fun log ↦ Steady frames static log ∧ Datable zone static (messages log))
      (fun log more h ↦ ⟨h.1.of_append,
        h.2.mono fun p hp ↦ messages_append.symm ▸ List.mem_append_left _ hp⟩)
      (follows_start 0)
      (fun _ _ h hadvance hlog ↦ follows_advance h hadvance hlog.1 hlog.2 hscheduled)
      hadvances ⟨h.steady, h.dated⟩
  constructor
  · exact h.steady.persists
  · intro pair t
    obtain ⟨log, hlog⟩ := List.getLast?_eq_some_iff.mp hcommit
    have hrecords := (hrecorded pair).agrees.mpr (h.pairs pair)
    rw [RecordsAtCommits, hlog, atEach_concat] at hrecords
    have hmessages : messages (log ++ [.commit]) = messages log :=
      messages_append.trans (List.append_nil _)
    have hstream := hrecords.2 rfl
    rw [RecordsStream, ← hmessages, ← persistLog_commit] at hstream
    rw [hlog]
    exact Documented.bunching_of_recordsStream hstream
  · intro key scheduled hscheduled
    exact (hfollows key scheduled hscheduled).samples_eq hdrained h.steady.inTime.known
      (h.visits key scheduled hscheduled)
  · intro written
    exact advances_induction (P := fun l ↦ Writes l.log written → ∃ visit scheduled,
        scheduledArrival static visit = some scheduled ∧ arrivalKey visit = written)
      (Q := fun _ ↦ True) (fun _ _ h ↦ h) (fun h ↦ absurd h.choose_spec.1 List.not_mem_nil)
      (fun _ _ h hadvance _ ↦ others_advance h hadvance) hadvances trivial

end

end GtfsStream.Analytics
