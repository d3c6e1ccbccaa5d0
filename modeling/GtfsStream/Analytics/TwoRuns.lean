import GtfsStream.Analytics.Sightings
import GtfsStream.Analytics.Turns

/-!
# Two runs next to each other

Two runs whose windows are cut alike, and in which every window is persisted. What a window emits
and keeps is read key by key, so that the two can be compared at the keys for which they meet the
same rows. The rules at the end carry a relation between the two consumers through a turn and
through a whole run.

## Keys

What a window does for a key depends on four things: whether its arrivals can be computed, what its
rows show for the key, the entry of the key, and on which side of the cutoff the entry is. Two
windows that agree in these emit the same for the key and keep the same. So a comparison of two runs
comes down to naming the keys on which they agree, and to showing the four at every flush.
-/

open GtfsStream.Analytics.BunchingEventTracker (reconcileKey)

namespace GtfsStream.Analytics

/-! ## What is emitted -/

/-- The deviations emitted for a key so far. -/
def emittedDeviations (key : DeviationKey) (log : List Event) : List DeviationResult :=
  log.flatMap fun e ↦ match e with
    | .handed _ result _ => result.newDeviations.filter (·.key = key)
    | _ => []

/-- The bunching actions emitted for a pair so far. -/
def emittedActions (key : PairKey) (log : List Event) : List (Action × BunchingEvent) :=
  log.flatMap fun e ↦ match e with
    | .handed _ result _ => result.bunchingActions.filter (·.2.key = key)
    | _ => []

theorem emittedDeviations_append (key : DeviationKey) (log more : List Event) :
    emittedDeviations key (log ++ more) = emittedDeviations key log ++ emittedDeviations key more :=
  List.flatMap_append

theorem emittedActions_append (key : PairKey) (log more : List Event) :
    emittedActions key (log ++ more) = emittedActions key log ++ emittedActions key more :=
  List.flatMap_append

theorem emittedDeviations_received (key : DeviationKey) (log : List Event) (p : Option Ping) :
    emittedDeviations key (log ++ [.received p]) = emittedDeviations key log := by
  rw [emittedDeviations_append]
  exact List.append_nil _

theorem emittedActions_received (key : PairKey) (log : List Event) (p : Option Ping) :
    emittedActions key (log ++ [.received p]) = emittedActions key log := by
  rw [emittedActions_append]
  exact List.append_nil _

/-! ## One flush -/

/-- Whether an entry of this time survives the flush of these rows. An empty frame is not handed to
the sink and purges nothing. -/
def keeps (rows : List Ping) (t : Time) : Bool := rows = [] ∨ retained (newest rows) t = true

section

variable {frames : Frames} {zone : Zone} {static : GtfsStaticData} {m m' : Memory}
  {pings rows rows' : List Ping}

variable (frames zone static) in
/-- The memory after a window that is not dropped. -/
def Memory.closed (m : Memory) : Memory :=
  if m.rows = [] then m else (m.handOver frames zone static).2

theorem closed_rows : (m.closed frames zone static).rows = m.rows.filter (carried m.rows) := by
  rw [Memory.closed]
  split_ifs with hempty
  · rw [hempty]
    rfl
  · rw [Memory.handOver, processWindow_rows]
    rfl

/-! ### Deviations -/

/-- What a window emits for a key: the arrivals of the frame, if the key was not seen. -/
theorem filter_newDeviations (key : DeviationKey) :
    (processWindow frames zone static m pings).1.newDeviations.filter (·.key = key) =
      (((gatedArrivals zone static pings).filter (·.key = key)).filter fun _ ↦
        (m.deviationTracker key).isNone).map
          (enrichWithRouteName static ∘ enrichWithLocation static) := by
  rw [processWindow_newDeviations, DeviationResultTracker.filterAll_fst gatedArrivals_nodup,
    List.map_map, List.filter_map, List.filter_filter, List.filter_filter]
  congr 1
  refine List.filter_congr fun r _ ↦ ?_
  have hkey : (enrichWithRouteName static (enrichWithLocation static r)).key = r.key := enrich_key r
  simp only [Function.comp_apply, hkey]
  by_cases hr : r.key = key
  · rw [hr, decide_eq_true rfl, Bool.true_and, Bool.and_true]
  · rw [decide_eq_false hr, Bool.false_and, Bool.and_false]

/-- The deviation tracker after a window whose arrivals can be computed. -/
theorem closed_deviationTracker (harrivals : (windowArrivals zone static m.rows).isSome)
    {key : DeviationKey} {t : Time} :
    (m.closed frames zone static).deviationTracker key = some t ↔
      (m.deviationTracker key = some t ∨ m.deviationTracker key = none ∧
        ∃ r ∈ gatedArrivals zone static m.rows, r.key = key ∧ r.actualAt = t) ∧
      keeps m.rows t = true := by
  rw [Memory.closed, keeps]
  split_ifs with hempty
  · have hnone (r : DeviationResult) : r ∉ gatedArrivals zone static m.rows := by
      rw [hempty]
      exact List.not_mem_nil
    simp only [hempty, true_or, decide_true, and_true]
    refine ⟨Or.inl, fun h ↦ h.resolve_right ?_⟩
    rintro ⟨-, r, hr, -⟩
    exact hnone r (hempty ▸ hr)
  · rw [Memory.handOver, deviationTracker_eq_some harrivals]
    simp only [hempty, false_or, Bool.decide_eq_true]
    rfl

/-- A window whose arrivals cannot be computed leaves the deviation tracker alone. -/
theorem closed_deviationTracker_of_none (harrivals : windowArrivals zone static m.rows = none) :
    (m.closed frames zone static).deviationTracker = m.deviationTracker := by
  rw [Memory.closed]
  split_ifs
  · rfl
  · rw [Memory.handOver, deviationTracker_of_none harrivals]
    rfl

/-- Two frames with the same arrival of a key, if any. -/
def SameArrival (zone : Zone) (static : GtfsStaticData) (key : DeviationKey)
    (rows rows' : List Ping) : Prop :=
  ∀ r : DeviationResult, r.key = key →
    (r ∈ gatedArrivals zone static rows ↔ r ∈ gatedArrivals zone static rows')

/-- Where two frames have the same arrival of a key and the trackers agree on the key, the windows
emit the same for it. -/
theorem newDeviations_congr {key : DeviationKey}
    (hseen : m.deviationTracker key = m'.deviationTracker key)
    (h : SameArrival zone static key m.rows m'.rows) :
    (m.handOver frames zone static).1.newDeviations.filter (·.key = key) =
      (m'.handOver frames zone static).1.newDeviations.filter (·.key = key) := by
  have hgated : (gatedArrivals zone static m.rows).filter (·.key = key) =
      (gatedArrivals zone static m'.rows).filter (·.key = key) := by
    by_cases hex : ∃ r ∈ gatedArrivals zone static m.rows, r.key = key
    · obtain ⟨r, hr, rfl⟩ := hex
      rw [filter_key_eq_singleton gatedArrivals_nodup hr,
        filter_key_eq_singleton gatedArrivals_nodup ((h r rfl).mp hr)]
    · have hex' : ¬∃ r ∈ gatedArrivals zone static m'.rows, r.key = key := by
        rintro ⟨r, hr, hkey⟩
        exact hex ⟨r, (h r hkey).mpr hr, hkey⟩
      rw [List.filter_eq_nil_iff.mpr fun r hr hk ↦ hex ⟨r, hr, of_decide_eq_true hk⟩,
        List.filter_eq_nil_iff.mpr fun r hr hk ↦ hex' ⟨r, hr, of_decide_eq_true hk⟩]
  have hflushed : m.flushed.deviationTracker key = m'.flushed.deviationTracker key := hseen
  rw [Memory.handOver, Memory.handOver, filter_newDeviations, filter_newDeviations, hgated,
    hflushed]

/-- The trackers still agree on the key after the windows, if every time they may have for it is on
the same side of both cutoffs. -/
theorem closed_deviationTracker_congr {key : DeviationKey}
    (hseen : m.deviationTracker key = m'.deviationTracker key)
    (hsome : (windowArrivals zone static m.rows).isSome ↔
      (windowArrivals zone static m'.rows).isSome)
    (h : SameArrival zone static key m.rows m'.rows)
    (hkeeps : ∀ t, m'.deviationTracker key = some t ∨
      (∃ r ∈ gatedArrivals zone static m'.rows, r.key = key ∧ r.actualAt = t) →
        keeps m.rows t = keeps m'.rows t) :
    (m.closed frames zone static).deviationTracker key =
      (m'.closed frames zone static).deviationTracker key := by
  by_cases harrivals : (windowArrivals zone static m.rows).isSome
  · refine Option.ext fun t ↦ ?_
    rw [closed_deviationTracker harrivals, closed_deviationTracker (hsome.mp harrivals), hseen]
    have hgated : (∃ r ∈ gatedArrivals zone static m.rows, r.key = key ∧ r.actualAt = t) ↔
        ∃ r ∈ gatedArrivals zone static m'.rows, r.key = key ∧ r.actualAt = t :=
      exists_congr fun r ↦ and_congr_left fun hr ↦ h r hr.1
    rw [hgated]
    refine and_congr_right fun hentry ↦ ?_
    rw [hkeeps t (hentry.imp_right And.right)]
  · rw [closed_deviationTracker_of_none (Option.not_isSome_iff_eq_none.mp harrivals),
      closed_deviationTracker_of_none
        (Option.not_isSome_iff_eq_none.mp fun h ↦ harrivals (hsome.mpr h)), hseen]

/-! ### Bunching events -/

theorem pairEvents_of_nil (hempty : rows = []) (key : PairKey) :
    pairEvents frames static rows key = [] := by
  refine List.eq_nil_iff_forall_not_mem.mpr fun e he ↦ ?_
  obtain ⟨p, hp, -⟩ := exists_row_of_pairEvent he
  exact List.not_mem_nil (hempty ▸ hp)

theorem closed_bunchingTracker {key : PairKey} {f : BunchingEvent} :
    (m.closed frames zone static).bunchingTracker key = some f ↔
      (reconcileKey (m.bunchingTracker key) (pairEvents frames static m.rows key)).2 = some f ∧
        keeps m.rows f.endTime = true := by
  rw [Memory.closed, keeps]
  split_ifs with hempty
  · rw [pairEvents_of_nil hempty, reconcileKey]
    simp only [hempty, true_or, decide_true, and_true]
  · rw [Memory.handOver, bunchingTracker_eq_some]
    simp only [hempty, false_or, Bool.decide_eq_true]
    rfl

/-- What is tracked for a pair ends like what was tracked before, or like one of the events. -/
theorem reconcileKey_endTime {previous : Option BunchingEvent} {events : List BunchingEvent}
    {f : BunchingEvent} (h : (reconcileKey previous events).2 = some f) :
    (∃ g, previous = some g ∧ f.endTime = g.endTime) ∨ ∃ e ∈ events, f.endTime = e.endTime := by
  induction events generalizing previous with
  | nil => exact Or.inl ⟨f, h, rfl⟩
  | cons e events ih =>
    rw [reconcileKey] at h
    cases haction : BunchingEventTracker.action previous e with
    | none =>
      rw [haction] at h
      rcases ih h with hold | ⟨e', he', hend⟩
      · exact Or.inl hold
      · exact Or.inr ⟨e', List.mem_cons_of_mem e he', hend⟩
    | some emission =>
      obtain ⟨act, emitted⟩ := emission
      rw [haction] at h
      have hend := BunchingEventTracker.action_endTime haction
      rcases ih h with ⟨g, hg, hfg⟩ | ⟨e', he', hfe⟩
      · exact Or.inr ⟨e, List.mem_cons_self, hfg.trans (Option.some.inj hg ▸ hend)⟩
      · exact Or.inr ⟨e', List.mem_cons_of_mem e he', hfe⟩

/-- Where the events of a pair leave the trackers with the same event, they still agree after the
windows, if its end is on the same side of both cutoffs. -/
theorem closed_bunchingTracker_congr {key : PairKey}
    (h : (reconcileKey (m.bunchingTracker key) (pairEvents frames static m.rows key)).2 =
      (reconcileKey (m'.bunchingTracker key) (pairEvents frames static m'.rows key)).2)
    (hkeeps : ∀ f, m'.bunchingTracker key = some f ∨ f ∈ pairEvents frames static m'.rows key →
      keeps m.rows f.endTime = keeps m'.rows f.endTime) :
    (m.closed frames zone static).bunchingTracker key =
      (m'.closed frames zone static).bunchingTracker key := by
  refine Option.ext fun f ↦ ?_
  rw [closed_bunchingTracker, closed_bunchingTracker, h]
  refine and_congr_right fun hentry ↦ ?_
  rcases reconcileKey_endTime hentry with ⟨g, hg, hend⟩ | ⟨e, he, hend⟩
  · rw [hend, hkeeps g (Or.inl hg)]
  · rw [hend, hkeeps e (Or.inr he)]

end

/-! ## The end of a turn -/

namespace Consumer

variable {cfg : Settings} {s s' : Consumer} {turn : Turn}

/-- A window is over at this turn. -/
def Due (cfg : Settings) (s : Consumer) (turn : Turn) : Prop :=
  seconds cfg.windowSeconds ≤ turn.windowCheckedAt - s.lastWindowFlush

/-- The memory whose rows the turn flushes, where it flushes. -/
def flushing (cfg : Settings) (s : Consumer) (turn : Turn) : Option Memory :=
  match s.receive turn with
  | some (received, false) =>
    if seconds cfg.windowSeconds ≤ turn.windowCheckedAt - received.lastWindowFlush then
      some received.memory
    else none
  | _ => none

theorem flushing_of_due {received : Consumer} (h : s.receive turn = some (received, false))
    (hdue : received.Due cfg turn) : s.flushing cfg turn = some received.memory := by
  rw [flushing, h]
  exact if_pos hdue

/-- The consumer after a flush that does not raise, where the sink persists. -/
def flushedOut (cfg : Settings) (s : Consumer) (turn : Turn) : Consumer :=
  if s.inBackoff turn.backoffCheckedAt then
    { s with
      memory := s.memory.flushed
      lastWindowFlush := turn.flushedAt
      log := s.log ++ [.dropped s.memory.rows] }
  else if s.memory.rows = [] then { s with lastWindowFlush := turn.flushedAt }
  else
    { memory := (s.memory.handOver cfg.frames cfg.zone turn.static).2
      lastWindowFlush := turn.flushedAt
      log := s.log ++ [.handed s.memory.rows
        (s.memory.handOver cfg.frames cfg.zone turn.static).1 true] ++ [.commit] }

theorem closeWindow_of_not_due (h : ¬s.Due cfg turn) : s.closeWindow cfg turn = some s := by
  rw [closeWindow, if_pos (not_le.mp h)]

theorem closeWindow_of_none (h : s.Due cfg turn) (hflush : flush cfg.zone s.memory.rows = none) :
    s.closeWindow cfg turn = none := by
  rw [closeWindow, if_neg (not_lt.mpr h), hflush, Option.bind_none]

theorem closeWindow_of_success (h : s.Due cfg turn) (hpersist : turn.persist = .success)
    (hflush : (flush cfg.zone s.memory.rows).isSome) :
    s.closeWindow cfg turn = some (s.flushedOut cfg turn) := by
  rw [closeWindow, if_neg (not_lt.mpr h), flush_of_isSome hflush, Option.bind_some, flushedOut]
  unfold inBackoff
  dsimp only
  split_ifs with hbackoff hempty
  · rfl
  · -- an empty frame carries nothing forward
    obtain ⟨⟨rows, bunching, deviations⟩, failures, backoff, last, log⟩ := s
    obtain rfl : rows = [] := hempty
    rfl
  · unfold persistWindow
    split
    · next hnil => exact absurd hnil hempty
    · rw [hpersist]
      rfl

theorem flushedOut_dropped (hbackoff : s.inBackoff turn.backoffCheckedAt) :
    s.flushedOut cfg turn =
      { s with
        memory := s.memory.flushed
        lastWindowFlush := turn.flushedAt
        log := s.log ++ [.dropped s.memory.rows] } := if_pos hbackoff

section

variable (hbackoff : ¬s.inBackoff turn.backoffCheckedAt)
include hbackoff

theorem flushedOut_memory :
    (s.flushedOut cfg turn).memory = s.memory.closed cfg.frames cfg.zone turn.static := by
  rw [flushedOut, if_neg hbackoff, Memory.closed]
  split_ifs <;> rfl

theorem flushedOut_deviations (key : DeviationKey) :
    emittedDeviations key (s.flushedOut cfg turn).log = emittedDeviations key s.log ++
      (s.memory.handOver cfg.frames cfg.zone turn.static).1.newDeviations.filter (·.key = key) := by
  rw [flushedOut, if_neg hbackoff]
  split_ifs with hempty
  · rw [Memory.handOver, filter_newDeviations, hempty]
    exact (List.append_nil _).symm
  · dsimp only
    rw [emittedDeviations_append, emittedDeviations_append]
    exact (List.append_nil _).trans (congrArg _ (List.append_nil _))

theorem flushedOut_actions (key : PairKey) :
    emittedActions key (s.flushedOut cfg turn).log = emittedActions key s.log ++
      (s.memory.handOver cfg.frames cfg.zone turn.static).1.bunchingActions.filter
        (·.2.key = key) := by
  rw [flushedOut, if_neg hbackoff]
  split_ifs with hempty
  · rw [Memory.handOver, filter_bunchingActions, pairEvents_of_nil hempty]
    exact (List.append_nil _).symm
  · dsimp only
    rw [emittedActions_append, emittedActions_append]
    exact (List.append_nil _).trans (congrArg _ (List.append_nil _))

end

theorem flushedOut_lastWindowFlush : (s.flushedOut cfg turn).lastWindowFlush = turn.flushedAt := by
  rw [flushedOut]
  split_ifs <;> rfl

theorem flushedOut_backoffUntil (h : s.backoffUntil = 0) :
    (s.flushedOut cfg turn).backoffUntil = 0 := by
  rw [flushedOut]
  split_ifs
  · exact h
  · exact h
  · rfl

/-! ## Carrying a relation along -/

/-- What two consumers share whose windows are cut alike. -/
structure InTurn (s s' : Consumer) : Prop where
  flushes : s.lastWindowFlush = s'.lastWindowFlush
  backoff : s.backoffUntil = 0 ∧ s'.backoffUntil = 0

theorem InTurn.due_iff (h : InTurn s s') : s.Due cfg turn ↔ s'.Due cfg turn := by
  rw [Due, Due, h.flushes]

theorem InTurn.inBackoff_eq (h : InTurn s s') (now : Time) :
    s.inBackoff now = s'.inBackoff now := by
  rw [inBackoff, inBackoff, h.backoff.1, h.backoff.2]

theorem InTurn.flushedOut (h : InTurn s s') :
    InTurn (s.flushedOut cfg turn) (s'.flushedOut cfg turn) where
  flushes := flushedOut_lastWindowFlush.trans flushedOut_lastWindowFlush.symm
  backoff := ⟨flushedOut_backoffUntil h.backoff.1, flushedOut_backoffUntil h.backoff.2⟩

/-- Two turns that differ in the message only. -/
def SameClock (turn turn' : Turn) : Prop := turn' = { turn with poll := turn'.poll }

variable {R : Consumer → Consumer → Prop} {turn' : Turn}

/-- The end of a turn keeps a relation that every flush keeps, if both flushes raise or neither. -/
theorem closeWindow_rel (h : R s s') (hturn : InTurn s s') (hpersist : turn.persist = .success)
    (hflush : s.Due cfg turn → ((flush cfg.zone s.memory.rows).isSome ↔
      (flush cfg.zone s'.memory.rows).isSome) ∧
        R (s.flushedOut cfg turn) (s'.flushedOut cfg turn)) :
    Option.Rel R (s.closeWindow cfg turn) (s'.closeWindow cfg turn) := by
  by_cases hdue : s.Due cfg turn
  · have hdue' := hturn.due_iff.mp hdue
    obtain ⟨hraises, hrel⟩ := hflush hdue
    by_cases hsome : (flush cfg.zone s.memory.rows).isSome
    · rw [closeWindow_of_success hdue hpersist hsome,
        closeWindow_of_success hdue' hpersist (hraises.mp hsome)]
      exact Option.Rel.some hrel
    · rw [closeWindow_of_none hdue (Option.not_isSome_iff_eq_none.mp hsome),
        closeWindow_of_none hdue' (Option.not_isSome_iff_eq_none.mp (mt hraises.mpr hsome))]
      exact Option.Rel.none
  · rw [closeWindow_of_not_due hdue, closeWindow_of_not_due (mt hturn.due_iff.mpr hdue)]
    exact Option.Rel.some h

/-- A turn keeps a relation that the messages and every flush keep. -/
theorem step_rel (hclock : SameClock turn turn') (hpersist : turn.persist = .success)
    (hR : ∀ r r', R r r' → InTurn r r')
    (hreceive : Option.Rel (fun r r' ↦ R r.1 r'.1 ∧ r.2 = r'.2) (s.receive turn) (s'.receive turn'))
    (hflush : ∀ r r', R r r' → s.receive turn = some (r, false) →
      s'.receive turn' = some (r', false) → r.Due cfg turn → r'.Due cfg turn' →
        ((flush cfg.zone r.memory.rows).isSome ↔ (flush cfg.zone r'.memory.rows).isSome) ∧
          R (r.flushedOut cfg turn) (r'.flushedOut cfg turn)) :
    Option.Rel R (s.step cfg turn) (s'.step cfg turn') := by
  unfold step
  cases hr : s.receive turn with
  | none =>
    rw [hr] at hreceive
    generalize s'.receive turn' = o at hreceive
    cases hreceive
    exact Option.Rel.none
  | some received =>
    cases hr' : s'.receive turn' with
    | none =>
      rw [hr, hr'] at hreceive
      cases hreceive
    | some received' =>
      rw [hr, hr'] at hreceive
      obtain ⟨received, skip⟩ := received
      obtain ⟨received', skip'⟩ := received'
      obtain ⟨hrel, rfl⟩ : R received received' ∧ skip = skip' := by
        cases hreceive with
        | some h => exact h
      rw [Option.bind_some, Option.bind_some]
      cases skip with
      | true => exact Option.Rel.some hrel
      | false =>
        dsimp only
        -- the end of a window does not look at the message
        have hclose : received'.closeWindow cfg turn' = received'.closeWindow cfg turn := by
          rw [hclock]
          rfl
        rw [if_neg Bool.false_ne_true, if_neg Bool.false_ne_true, hclose]
        refine closeWindow_rel hrel (hR _ _ hrel) hpersist fun hdue ↦ ?_
        have hdue' : received'.Due cfg turn' := by
          rw [Due, hclock]
          exact (hR _ _ hrel).due_iff.mp hdue
        exact hflush _ _ hrel hr hr' hdue hdue'

theorem run_rel {α : Type*} {f g : α → Turn} {turns : List α} (hstart : R s s')
    (hstep : ∀ before t after, turns = before ++ t :: after →
      ∀ r ∈ s.run cfg (before.map f), ∀ r' ∈ s'.run cfg (before.map g), R r r' →
        Option.Rel R (r.step cfg (f t)) (r'.step cfg (g t))) :
    Option.Rel R (s.run cfg (turns.map f)) (s'.run cfg (turns.map g)) := by
  induction turns using List.reverseRecOn with
  | nil => exact Option.Rel.some hstart
  | append_singleton turns t ih =>
    have hbefore := ih fun before u after hsplit ↦
      hstep before u (after ++ [t]) (by rw [hsplit, List.append_assoc, List.cons_append])
    have hlast := hstep turns t [] rfl
    rw [List.map_append, List.map_append, List.map_singleton, List.map_singleton, run_concat,
      run_concat]
    generalize s.run cfg (turns.map f) = r, s'.run cfg (turns.map g) = r' at hbefore hlast
    cases hbefore with
    | none => exact Option.Rel.none
    | some hrel => exact hlast _ rfl _ rfl hrel

end Consumer

end GtfsStream.Analytics
