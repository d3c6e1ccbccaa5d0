import GtfsStream.Analytics.Turns
import GtfsStream.Analytics.WindowSpec

/-!
# What a failed write marks as emitted

The trackers are changed before the window is handed to the sink, and a failure changes nothing
back. So a key counts as emitted although the write that carried it failed, unless the failed window
carries nothing that outlives its own purge.

## The invariant

For each key the last window that carried it decides: the tracker may know a key only if that window
was written. A window that is written keeps this, whatever it adds. A window that fails keeps it if
what it adds is purged at once, and breaks it otherwise. While the invariant holds, a result of a
failed window that is computed again is emitted again, since its key is not tracked.
-/

open GtfsStream.Analytics.BunchingEventTracker (Covers)

namespace GtfsStream.Analytics

/-- The report of the last window that carried a result, if any did. -/
def lastReport (carries : WindowResult → Bool) (log : List Event) : Option Bool :=
  log.foldl (fun report e ↦ match e with
    | .handed _ result success => if carries result then some success else report
    | _ => report) none

/-- A key that the trackers treat as emitted was carried by a write that succeeded: the last one
that carried it. -/
structure OnlyWritten (l : Ledger) : Prop where
  deviations : ∀ key, (l.memory.deviationTracker key).isSome →
    lastReport (·.carriesDeviation key) l.log = some true
  events : ∀ key, (l.memory.bunchingTracker key).isSome →
    lastReport (·.carriesEvent key) l.log = some true

/-- A window adds nothing to the trackers that outlives its own purge: every arrival within the
gate is seen already or too old, and every bunching event is old news or too old. -/
structure MarksNothing (frames : Frames) (zone : Zone) (static : GtfsStaticData) (m : Memory) :
    Prop where
  deviations : ∀ r ∈ gatedArrivals zone static m.rows,
    (m.deviationTracker r.key).isSome ∨ retained (newest m.rows) r.actualAt = false
  events : ∀ e ∈ windowEvents frames static m.rows,
    Covers (m.bunchingTracker e.key) e ∨ retained (newest m.rows) e.endTime = false

/-! ## One window -/

section

variable {frames : Frames} {zone : Zone} {static : GtfsStaticData} {l : Ledger} {log : List Event}
  {carries : WindowResult → Bool}

theorem lastReport_concat (e : Event) :
    lastReport carries (log ++ [e]) = match e with
      | .handed _ result success => if carries result then some success else lastReport carries log
      | _ => lastReport carries log := by
  rw [lastReport, List.foldl_append]
  rfl

theorem lastReport_handed (pings : List Ping) (result : WindowResult) (success : Bool) :
    lastReport carries (log ++ [.handed pings result success]) =
      if carries result then some success else lastReport carries log :=
  lastReport_concat _

theorem handOver_carriesDeviation {m : Memory} {key : DeviationKey} :
    (m.handOver frames zone static).1.carriesDeviation key = true ↔
      m.deviationTracker key = none ∧ ∃ r ∈ gatedArrivals zone static m.rows, r.key = key :=
  carriesDeviation_iff

/-- What the deviation tracker newly has after a window is an arrival of its frame. -/
theorem gated_of_deviationTracker {m : Memory} {key : DeviationKey} {t : Time}
    (hnone : m.deviationTracker key = none)
    (h : (m.handOver frames zone static).2.deviationTracker key = some t) :
    ∃ r ∈ gatedArrivals zone static m.rows, r.key = key ∧ r.actualAt = t ∧
      retained (newest m.rows) t = true := by
  cases harrivals : windowArrivals zone static m.rows with
  | none =>
    rw [Memory.handOver, deviationTracker_of_none harrivals] at h
    exact nomatch hnone.symm.trans h
  | some results =>
    obtain ⟨hold | ⟨-, r, hr, hkey, htime⟩, hretained⟩ :=
      (deviationTracker_eq_some (harrivals ▸ rfl)).mp h
    · exact nomatch hnone.symm.trans hold
    · exact ⟨r, hr, hkey, htime, hretained⟩

/-- What the deviation tracker has after a window was there before, or the window carried it. -/
theorem carried_of_deviationTracker {m : Memory} {key : DeviationKey}
    (h : ((m.handOver frames zone static).2.deviationTracker key).isSome) :
    (m.handOver frames zone static).1.carriesDeviation key = true ∨
      (m.deviationTracker key).isSome := by
  cases hold : m.deviationTracker key with
  | some t => exact Or.inr rfl
  | none =>
    obtain ⟨t, ht⟩ := Option.isSome_iff_exists.mp h
    obtain ⟨r, hr, hkey, -⟩ := gated_of_deviationTracker hold ht
    exact Or.inl (handOver_carriesDeviation.mpr ⟨hold, r, hr, hkey⟩)

theorem carried_of_bunchingTracker {m : Memory} {key : PairKey}
    (h : ((m.handOver frames zone static).2.bunchingTracker key).isSome) :
    (m.handOver frames zone static).1.carriesEvent key = true ∨ (m.bunchingTracker key).isSome := by
  obtain ⟨f, hf⟩ := Option.isSome_iff_exists.mp h
  by_cases hcovers : ∀ e ∈ pairEvents frames static m.rows key, Covers (m.bunchingTracker key) e
  · have hentry := (bunchingTracker_eq_some.mp hf).1
    change (BunchingEventTracker.reconcileKey (m.bunchingTracker key) _).2 = some f at hentry
    rw [BunchingEventTracker.reconcileKey_of_covers hcovers] at hentry
    exact Or.inr (Option.isSome_iff_exists.mpr ⟨f, hentry⟩)
  · push Not at hcovers
    exact Or.inl (carriesEvent_iff.mpr
      (BunchingEventTracker.reconcileKey_of_not_covers (pairEvents_inOrder key) hcovers).1)

theorem OnlyWritten.persist (h : OnlyWritten l) :
    OnlyWritten (l.close frames zone static .persist) := by
  constructor
  · intro key hkey
    rw [Ledger.close, lastReport_concat, lastReport_handed]
    rcases carried_of_deviationTracker hkey with hcarries | hold
    · exact if_pos hcarries
    · split_ifs
      · rfl
      · exact h.deviations key hold
  · intro key hkey
    rw [Ledger.close, lastReport_concat, lastReport_handed]
    rcases carried_of_bunchingTracker hkey with hcarries | hold
    · exact if_pos hcarries
    · split_ifs
      · rfl
      · exact h.events key hold

variable (frames zone) in
/-- An arrival that a window carries and its purge retains is tracked afterwards. -/
theorem deviationTracker_of_gated {m : Memory} {r : DeviationResult}
    (hr : r ∈ gatedArrivals zone static m.rows) (hnone : m.deviationTracker r.key = none)
    (hretained : retained (newest m.rows) r.actualAt = true) :
    (m.handOver frames zone static).1.carriesDeviation r.key = true ∧
      ((m.handOver frames zone static).2.deviationTracker r.key).isSome := by
  refine ⟨handOver_carriesDeviation.mpr ⟨hnone, r, hr, rfl⟩, ?_⟩
  have harrivals : (windowArrivals zone static m.rows).isSome := by
    cases hnil : windowArrivals zone static m.rows with
    | some results => rfl
    | none =>
      rw [gatedArrivals, hnil] at hr
      exact absurd hr List.not_mem_nil
  have hentry : (m.handOver frames zone static).2.deviationTracker r.key = some r.actualAt :=
    (deviationTracker_eq_some harrivals).mpr ⟨Or.inr ⟨hnone, r, hr, rfl, rfl⟩, hretained⟩
  exact Option.isSome_iff_exists.mpr ⟨r.actualAt, hentry⟩

variable (frames zone static) in
/-- The events of one pair leave nothing behind, or one that the purge retains. -/
theorem bunchingTracker_leaves_nothing (m : Memory) (key : PairKey) :
    ((m.handOver frames zone static).1.carriesEvent key = true →
        (m.handOver frames zone static).2.bunchingTracker key = none) ↔
      ∀ e ∈ pairEvents frames static m.rows key,
        Covers (m.bunchingTracker key) e ∨ retained (newest m.rows) e.endTime = false := by
  rw [← BunchingEventTracker.reconcileKey_leaves_nothing (pairEvents_inOrder key)]
  refine imp_congr carriesEvent_iff ?_
  rw [Option.eq_none_iff_forall_ne_some]
  refine forall_congr' fun f ↦ ?_
  rw [ne_eq, Memory.handOver, bunchingTracker_eq_some, not_and, Bool.not_eq_true]
  rfl

/-- A failed window keeps the trackers honest exactly if it marks nothing. -/
theorem OnlyWritten.fail_iff (h : OnlyWritten l) :
    OnlyWritten (l.close frames zone static .fail) ↔ MarksNothing frames zone static l.memory := by
  constructor
  · rintro ⟨hdeviations, hevents⟩
    constructor
    · intro r hr
      by_contra hnot
      rw [not_or, Bool.not_eq_false, Bool.not_eq_true, Option.isSome_eq_false_iff,
        Option.isNone_iff_eq_none] at hnot
      obtain ⟨hcarries, hsome⟩ := deviationTracker_of_gated frames zone hr hnot.1 hnot.2
      have hreport := hdeviations r.key hsome
      rw [Ledger.close, lastReport_handed, if_pos hcarries] at hreport
      simp at hreport
    · intro e he
      have hkey : e ∈ pairEvents frames static l.memory.rows e.key :=
        List.mem_filter.mpr ⟨he, decide_eq_true rfl⟩
      refine (bunchingTracker_leaves_nothing frames zone static l.memory e.key).mp
        (fun hcarries ↦ ?_) e
        hkey
      by_contra hsome
      have hreport := hevents e.key (Option.isSome_iff_ne_none.mpr hsome)
      rw [Ledger.close, lastReport_handed, if_pos hcarries] at hreport
      simp at hreport
  · rintro ⟨hdeviations, hevents⟩
    constructor
    · intro key hkey
      rw [Ledger.close, lastReport_handed]
      split_ifs with hcarries
      · -- what is carried is not tracked any more
        obtain ⟨hnone, r, hr, rfl⟩ := handOver_carriesDeviation.mp hcarries
        obtain ⟨t, ht⟩ := Option.isSome_iff_exists.mp hkey
        rw [Ledger.close] at ht
        obtain ⟨s, hs, hskey, rfl, hretained⟩ := gated_of_deviationTracker hnone ht
        rcases hdeviations s hs with hseen | hold
        · rw [hskey, hnone] at hseen
          simp at hseen
        · rw [hold] at hretained
          simp at hretained
      · exact h.deviations key ((carried_of_deviationTracker hkey).resolve_left hcarries)
    · intro key hkey
      rw [Ledger.close, lastReport_handed]
      split_ifs with hcarries
      · -- every event of the pair is covered already, or too old to be kept
        have hmarks : ∀ e ∈ pairEvents frames static l.memory.rows key,
            Covers (l.memory.bunchingTracker key) e ∨
              retained (newest l.memory.rows) e.endTime = false := by
          intro e he
          obtain ⟨hmem, hkeyOf⟩ := List.mem_filter.mp he
          rw [← of_decide_eq_true hkeyOf]
          exact hevents e hmem
        have hnone :=
          (bunchingTracker_leaves_nothing frames zone static l.memory key).mpr hmarks hcarries
        rw [Ledger.close, hnone] at hkey
        simp at hkey
      · exact h.events key ((carried_of_bunchingTracker hkey).resolve_left hcarries)

/-- Where the trackers are honest, what was last carried by a window that failed and is computed
again in a later window, is emitted again. -/
theorem OnlyWritten.emits_again (h : OnlyWritten l) :
    (∀ r ∈ gatedArrivals zone static l.memory.rows,
      lastReport (·.carriesDeviation r.key) l.log = some false →
        (l.memory.handOver frames zone static).1.carriesDeviation r.key = true) ∧
    ∀ e ∈ windowEvents frames static l.memory.rows,
      lastReport (·.carriesEvent e.key) l.log = some false →
        (l.memory.handOver frames zone static).1.carriesEvent e.key = true := by
  constructor
  · intro r hr hfailed
    refine handOver_carriesDeviation.mpr ⟨?_, r, hr, rfl⟩
    by_contra hsome
    have hwritten := h.deviations r.key (Option.isSome_iff_ne_none.mpr hsome)
    rw [hfailed] at hwritten
    exact Bool.false_ne_true (Option.some.inj hwritten)
  · intro e he hfailed
    have hnone : l.memory.bunchingTracker e.key = none := by
      by_contra hsome
      have hwritten := h.events e.key (Option.isSome_iff_ne_none.mpr hsome)
      rw [hfailed] at hwritten
      exact Bool.false_ne_true (Option.some.inj hwritten)
    have hmem : e ∈ pairEvents frames static l.memory.rows e.key :=
      List.mem_filter.mpr ⟨he, decide_eq_true rfl⟩
    have hcovers : ¬∀ d ∈ pairEvents frames static l.memory.rows e.key,
        Covers (l.memory.bunchingTracker e.key) d := by
      intro hall
      obtain ⟨f, hf, -⟩ := hall e hmem
      exact Option.some_ne_none f (hf.symm.trans hnone)
    push Not at hcovers
    exact carriesEvent_iff.mpr
      (BunchingEventTracker.reconcileKey_of_not_covers (pairEvents_inOrder e.key) hcovers).1

theorem onlyWritten_empty : OnlyWritten {} := ⟨fun _ ↦ nofun, fun _ ↦ nofun⟩

theorem OnlyWritten.concat {e : Event} {rows : List Ping} (h : OnlyWritten l)
    (he : ∀ pings result success, e ≠ .handed pings result success) :
    OnlyWritten ⟨{ l.memory with rows := rows }, l.log ++ [e]⟩ := by
  have hreport (carries : WindowResult → Bool) :
      lastReport carries (l.log ++ [e]) = lastReport carries l.log := by
    rw [lastReport_concat]
    cases e with
    | handed pings result success => exact absurd rfl (he pings result success)
    | received => rfl
    | dropped => rfl
    | commit => rfl
  constructor
  · intro key hkey
    rw [hreport]
    exact h.deviations key hkey
  · intro key hkey
    rw [hreport]
    exact h.events key hkey

end

/-! ## Whole runs -/

namespace Consumer

variable {cfg : Settings} {s s' : Consumer} {turn : Turn}

/-- The memory with which the turn hands a window to the sink, where the sink reports a failure. -/
def failedWindow (cfg : Settings) (s : Consumer) (turn : Turn) : Option Memory :=
  match s.receive turn with
  | some (received, false) =>
    if received.ending cfg turn = .fail then some received.memory else none
  | _ => none

theorem receive_onlyWritten {received : Consumer} {skip : Bool}
    (hreceive : s.receive turn = some (received, skip)) (h : OnlyWritten s.ledger) :
    OnlyWritten received.ledger := by
  unfold receive at hreceive
  split at hreceive
  · obtain ⟨rfl, -⟩ := Prod.mk.inj (Option.some.inj hreceive)
    exact h
  · exact absurd hreceive nofun
  · obtain ⟨rfl, -⟩ := Prod.mk.inj (Option.some.inj hreceive)
    exact h.concat nofun
  · obtain ⟨rfl, -⟩ := Prod.mk.inj (Option.some.inj hreceive)
    exact h.concat nofun
  · obtain ⟨rfl, -⟩ := Prod.mk.inj (Option.some.inj hreceive)
    exact h.concat nofun

theorem step_onlyWritten_iff (h : OnlyWritten s.ledger) (hstep : s.step cfg turn = some s') :
    OnlyWritten s'.ledger ↔ ∀ m ∈ s.failedWindow cfg turn,
      MarksNothing cfg.frames cfg.zone turn.static m := by
  obtain ⟨received, skip, hreceive, hledger⟩ := step_eq_some hstep
  have hreceived := receive_onlyWritten hreceive h
  rw [hledger, failedWindow, hreceive]
  cases skip with
  | true => exact iff_of_true hreceived nofun
  | false =>
    dsimp only
    rw [if_neg Bool.false_ne_true]
    cases hending : received.ending cfg turn with
    | idle => exact iff_of_true hreceived (by rw [if_neg nofun]; exact nofun)
    | drop =>
      refine iff_of_true ?_ (by rw [if_neg nofun]; exact nofun)
      exact hreceived.concat nofun
    | persist => exact iff_of_true hreceived.persist (by rw [if_neg nofun]; exact nofun)
    | fail =>
      rw [if_pos rfl, hreceived.fail_iff]
      constructor
      · intro hmarks m hm
        rwa [← Option.some.inj hm]
      · exact fun hmarks ↦ hmarks _ rfl

end Consumer

/-- In every state of the run, what the trackers treat as emitted was written. -/
def EmittedOnlyIfWritten (cfg : Settings) (start : Time) (turns : List Turn) : Prop :=
  ∀ before after, turns = before ++ after →
    ∀ s ∈ ({ lastWindowFlush := start } : Consumer).run cfg before, OnlyWritten s.ledger

/-- No turn of the run in which the sink reports a failure marks anything. -/
def FailuresMarkNothing (cfg : Settings) (start : Time) (turns : List Turn) : Prop :=
  ∀ before turn after, turns = before ++ turn :: after →
    ∀ s ∈ ({ lastWindowFlush := start } : Consumer).run cfg before, (s.step cfg turn).isSome →
      ∀ m ∈ s.failedWindow cfg turn, MarksNothing cfg.frames cfg.zone turn.static m

/-- **A run treats as emitted only what was written exactly if its failures mark nothing.** -/
theorem emittedOnlyIfWritten_iff (cfg : Settings) (start : Time) (turns : List Turn) :
    EmittedOnlyIfWritten cfg start turns ↔ FailuresMarkNothing cfg start turns := by
  constructor
  · rintro h before turn after rfl s hs hstep
    obtain ⟨s', hs'⟩ := Option.isSome_iff_exists.mp hstep
    have hnext :
        ({ lastWindowFlush := start } : Consumer).run cfg (before ++ [turn]) = some s' := by
      rw [Consumer.run_concat, hs, Option.bind_some, hs']
    have hafter := h (before ++ [turn]) after (by simp) s' hnext
    exact (Consumer.step_onlyWritten_iff (h before _ rfl s hs) hs').mp hafter
  · intro h before
    induction before using List.reverseRecOn with
    | nil =>
      rintro after - s hs
      rw [← Option.some.inj hs]
      exact onlyWritten_empty
    | append_singleton before turn ih =>
      rintro after rfl s' hs'
      rw [Option.mem_def, Consumer.run_concat] at hs'
      obtain ⟨s, hs, hstep⟩ := Option.bind_eq_some_iff.mp hs'
      have hbefore := ih (turn :: after) (by simp) s hs
      refine (Consumer.step_onlyWritten_iff hbefore hstep).mpr ?_
      exact h before turn after (by simp) s hs (hstep ▸ rfl)

/-- An arrival is in a window that fails and in the next one, which does not emit it again. -/
theorem not_emittedOnlyIfWritten_after_failure :
    ¬EmittedOnlyIfWritten { frames := meridian, zone := easternStandardTime } 0
      [.receiving (stoppedAt 31) (.arrivingAt 68460) 60 .failure,
        .receiving (stoppedAt 61) (.arrivingAt 68460) 120 .success] := by
  intro h
  have hreturns : (runFromStart [.receiving (stoppedAt 31) (.arrivingAt 68460) 60 .failure,
      .receiving (stoppedAt 61) (.arrivingAt 68460) 120 .success]).isSome := by decide +kernel
  have hfails : ∀ s ∈ runFromStart [.receiving (stoppedAt 31) (.arrivingAt 68460) 60 .failure,
      .receiving (stoppedAt 61) (.arrivingAt 68460) 120 .success],
      (s.memory.deviationTracker ("y1", "t1", 1, .arrival)).isSome ∧
        lastReport (·.carriesDeviation ("y1", "t1", 1, .arrival)) s.log = some false := by
    decide +kernel
  obtain ⟨s, hs⟩ := Option.isSome_iff_exists.mp hreturns
  obtain ⟨hsome, hreport⟩ := hfails s hs
  have hwritten := (h _ [] (List.append_nil _).symm s hs).deviations _ hsome
  exact nomatch hreport.symm.trans hwritten

end GtfsStream.Analytics
