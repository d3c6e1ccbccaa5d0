import GtfsStream.Analytics.ArrivalSpec
import GtfsStream.Api.PipelineStatus
import Mathlib.Algebra.Order.BigOperators.Group.List
import Mathlib.Algebra.Order.Field.Basic
import Mathlib.Data.List.Induction
import Mathlib.Tactic.Linarith

/-!
# What the pipeline status says

The answer of the endpoint after any sequence of windows, failed writes and restarts, against the
frames that were processed. The totals count the rows of the frames, so a row that is carried to the
next frame counts in both.

## From the windows to the answer

The document is written from four parts: the snapshot of the window, its counts, the counts added up
since the restart, and the alerts. Each has its own lemma on what one window does to it, and the
totals are added up along the run. A window whose document is not written changes the memory of the
engine and not the collection, so the answer is that of the last window that wrote its document,
with the totals of that moment. The ages are those of the clock of the endpoint.
-/

namespace GtfsStream.Api

open Analytics Alerting

/-- The windows since the last restart. -/
def sinceRestart (events : List StatusEvent) : List Observed :=
  events.foldl (fun windows e ↦ match e with
    | .window w => windows ++ [w]
    | .restart => []) []

/-- The key of the ping is in the schedule. -/
def matchesSchedule (static : GtfsStaticData) (p : Analytics.Ping) : Bool :=
  p.stopTimesKey.any fun key ↦ (static.stopTimesLookup key).isSome

/-- The number of arrivals of the frame that the gate rejects. -/
def rejectedArrivals (zone : Zone) (f : HandedFrame) : ℕ :=
  match windowArrivals zone f.static f.pings with
  | none => 0
  | some results => results.countP fun r ↦ !withinGate r

/-- The counts of the windows, added up. -/
structure Counts (zone : Zone) (windows : List Observed) (stats : MatchingStats) : Prop where
  total : stats.totalPings = (windows.map fun w ↦ w.frame.pings.length).sum
  matched : stats.matchedPings =
    (windows.map fun w ↦ w.frame.pings.countP (matchesSchedule w.frame.static)).sum
  missing : stats.missingFieldPings =
    (windows.map fun w ↦ w.frame.pings.countP fun p ↦ p.stopTimesKey.isNone).sum
  categories : stats.totalPings =
    stats.matchedPings + stats.missingFieldPings + stats.unmatchedPings
  dropped : stats.gateDroppedEvents = (windows.map fun w ↦ rejectedArrivals zone w.frame).sum

/-- The counts of the windows with the share of matched pings. -/
def Totals (zone : Zone) (windows : List Observed) (doc : MatchingDocument) : Prop :=
  Counts zone windows doc.stats ∧ ∃ ratio, doc.matchedRatio = some ratio ∧ 0 ≤ ratio ∧ ratio ≤ 1 ∧
    ratio * doc.stats.totalPings = doc.stats.matchedPings

/-- The age of a time, to the nearest second, and 0 where the clock that wrote it is ahead. -/
def IsAge (now value : Time) (age : ℤ) : Prop :=
  0 ≤ age ∧ (now < value → age = 0) ∧
    (value ≤ now → |age * 1000 - (now / 1000 - value / 1000)| ≤ 500)

/-- The offsets of all partitions can be read, and the lag is what lies between them. -/
def IsLag (assignment : Option (List PartitionReads)) (lag : ℕ) : Prop :=
  ∃ partitions, ∃ lags : List ℕ, assignment = some partitions ∧ partitions ≠ [] ∧ lag = lags.sum ∧
    List.Forall₂ (fun partition lag ↦ ∃ high offset rest, partition.high = some (some high) ∧
      partition.positions = some (some offset :: rest) ∧ 0 ≤ offset ∧
      ((lag : ℕ) : ℤ) = max 0 (high - offset)) partitions lags

/-- The response reports the window, which follows the events and left the alerter as it is given
here. -/
structure Reports (zone : Zone) (cfg : Config) (a : Alerter) (before : List StatusEvent)
    (w : Observed) (now : Time) (r : PipelineStatusResponse) : Prop where
  reportedAt : r.reportedAt = isoString w.now
  age : IsAge now w.now r.statusAgeSeconds
  records : r.windowTotalRecords = w.frame.pings.length
  lastMessage : r.lastMessageAt = (newest w.frame.pings).map isoString
  lastMessageAge : ∀ t, newest w.frame.pings = some t →
    ∃ age, r.lastMessageAgeSeconds = some age ∧ IsAge now t age
  lag : ∀ lag, r.consumerLagMessages = some lag ↔ IsLag w.frame.assignment lag
  lastWindow : ∃ doc, r.lastWindow = some doc ∧ Totals zone [w] doc
  cumulative : ∃ doc, r.cumulative = some doc ∧
    Totals zone (sinceRestart (before ++ [.window w])) doc
  alerts : r.alerts = a.activeAlerts
  /-- The check, if there is one, has been told the same. -/
  pinged : ∀ target, checkUrl cfg.url = some target →
    a.pings.getLast? = some (target ++ (if r.alerts = [] then "" else "/fail"), r.alerts)

/-- None of the windows left its document. -/
def Unwritten (events : List StatusEvent) : Prop :=
  ∀ w, StatusEvent.window w ∈ events → w.written = false

variable {frames : Frames} {zone : Zone} {cfg : Config} {events before after : List StatusEvent}
  {w : Observed} {windows : List Observed} {stats m : MatchingStats} {now : Time}

/-! ## The snapshot -/

theorem round_millis (a b : ℤ) : 0 ≤ max 0 ((a - b + 500) / 1000) ∧
    (a ≤ b → max 0 ((a - b + 500) / 1000) = 0) ∧
    (b ≤ a → |max 0 ((a - b + 500) / 1000) * 1000 - (a - b)| ≤ 500) := by
  refine ⟨le_max_left _ _, fun hle ↦ max_eq_left (by omega), fun hle ↦ ?_⟩
  rw [max_eq_right (by omega), abs_le]
  omega

theorem isAge_ageSeconds (now value : Time) : IsAge now value (ageSeconds now value) := by
  obtain ⟨hnonneg, hahead, hpassed⟩ := round_millis (now / 1000) (value / 1000)
  refine ⟨hnonneg, fun hlt ↦ hahead ?_, fun hle ↦ hpassed ?_⟩
  · exact Int.ediv_le_ediv (by decide) hlt.le
  · exact Int.ediv_le_ediv (by decide) hle

theorem partitionLag_eq_some {partition : PartitionReads} {lag : ℕ} :
    partitionLag partition = some lag ↔ ∃ high offset rest, partition.high = some (some high) ∧
      partition.positions = some (some offset :: rest) ∧ 0 ≤ offset ∧
      (lag : ℤ) = max 0 (high - offset) := by
  constructor
  · intro h
    rw [partitionLag] at h
    split at h
    · next high offset rest hhigh hpositions =>
      split_ifs at h with hneg
      refine ⟨high, offset, rest, hhigh, hpositions, not_lt.mp hneg, ?_⟩
      rw [← Option.some.inj h, Int.toNat_eq_max, max_comm]
    · cases h
  · rintro ⟨high, offset, rest, hhigh, hpositions, hoffset, hlag⟩
    rw [partitionLag, hhigh, hpositions]
    dsimp only
    rw [if_neg (not_lt.mpr hoffset), Option.some.injEq, ← Int.natCast_inj, hlag, Int.toNat_eq_max,
      max_comm]

theorem kafkaLagMessages_eq_some {assignment : Option (List PartitionReads)} {lag : ℕ} :
    kafkaLagMessages assignment = some lag ↔ IsLag assignment lag := by
  rcases assignment with _ | _ | ⟨partition, rest⟩
  · refine iff_of_false nofun ?_
    rintro ⟨partitions, lags, h, -⟩
    cases h
  · refine iff_of_false nofun ?_
    rintro ⟨partitions, lags, h, hne, -⟩
    exact hne (Option.some.inj h).symm
  · have hlags (lags : List ℕ) : (partition :: rest).mapM partitionLag = some lags ↔
        List.Forall₂ (fun partition lag ↦ partitionLag partition = some lag)
          (partition :: rest) lags := by
      rw [mapM_eq_some_iff, ← List.forall₂_eq_eq_eq, List.forall₂_map_left_iff,
        List.forall₂_map_right_iff]
    rw [kafkaLagMessages, Option.map_eq_some_iff]
    · constructor
      · rintro ⟨lags, hmap, rfl⟩
        refine ⟨_, lags, rfl, List.cons_ne_nil _ _, rfl, ?_⟩
        exact ((hlags lags).mp hmap).imp fun _ _ h ↦ partitionLag_eq_some.mp h
      · rintro ⟨partitions, lags, h, -, rfl, hall⟩
        cases Option.some.inj h
        exact ⟨lags, (hlags lags).mpr (hall.imp fun _ _ h ↦ partitionLag_eq_some.mpr h), rfl⟩
    · exact nofun

/-! ## The counts -/

theorem sinceRestart_concat_window :
    sinceRestart (events ++ [.window w]) = sinceRestart events ++ [w] := by
  rw [sinceRestart, List.foldl_append]
  rfl

theorem sinceRestart_concat_restart : sinceRestart (events ++ [.restart]) = [] := by
  rw [sinceRestart, List.foldl_append]
  rfl

theorem countP_stopTimesKey (q : Option ScheduledStopTime → Bool) (static : GtfsStaticData)
    (pings : List Analytics.Ping) :
    (pings.filterMap Ping.stopTimesKey).countP (fun key ↦ q (static.stopTimesLookup key)) =
      pings.countP fun p ↦ p.stopTimesKey.any fun key ↦ q (static.stopTimesLookup key) := by
  rw [List.countP_filterMap]
  congr 1
  funext p
  cases p.stopTimesKey <;> rfl

theorem counts_nil : Counts zone [] ⟨0, 0, 0, 0, 0⟩ := ⟨rfl, rfl, rfl, rfl, rfl⟩

theorem counts_single (frames : Frames) (zone : Zone) (w : Observed) :
    ∃ m, (w.frame.result frames zone).matching = some m ∧ Counts zone [w] m := by
  have hmatched : ((w.frame.pings.filterMap Ping.stopTimesKey).countP fun key ↦
      (w.frame.static.stopTimesLookup key).isSome) =
      w.frame.pings.countP (matchesSchedule w.frame.static) :=
    countP_stopTimesKey Option.isSome _ _
  have hcategories := computeMatchingStats_total w.frame.pings w.frame.static.stopTimesLookup
  rw [HandedFrame.result, processWindow]
  dsimp only
  cases harrivals : windowArrivals zone w.frame.static w.frame.pings with
  | none =>
    refine ⟨_, rfl, (List.sum_singleton).symm, hmatched.trans List.sum_singleton.symm,
      (List.sum_singleton).symm, hcategories, ?_⟩
    rw [List.map_singleton, List.sum_singleton, rejectedArrivals, harrivals]
    rfl
  | some results =>
    refine ⟨_, rfl, (List.sum_singleton).symm, hmatched.trans List.sum_singleton.symm,
      (List.sum_singleton).symm, hcategories, ?_⟩
    rw [List.map_singleton, List.sum_singleton, rejectedArrivals, harrivals]
    dsimp only
    rw [List.length_eq_countP_add_countP withinGate, List.countP_eq_length_filter,
      Nat.add_sub_cancel_left]
    simp only [Bool.not_eq_true, Bool.decide_eq_false]

theorem result_totalRecords : (w.frame.result frames zone).totalRecords = w.frame.pings.length := by
  rw [HandedFrame.result, processWindow]
  dsimp only
  cases windowArrivals zone w.frame.static w.frame.pings <;> rfl

theorem Counts.concat (h : Counts zone windows stats) (hm : Counts zone [w] m) :
    Counts zone (windows ++ [w]) (stats + m) := by
  have hsum (f : Observed → ℕ) : ((windows ++ [w]).map f).sum = (windows.map f).sum +
      ([w].map f).sum := by
    rw [List.map_append, List.sum_append]
  constructor
  · rw [hsum, ← h.total, ← hm.total]
    rfl
  · rw [hsum, ← h.matched, ← hm.matched]
    rfl
  · rw [hsum, ← h.missing, ← hm.missing]
    rfl
  · change stats.totalPings + m.totalPings = stats.matchedPings + m.matchedPings +
      (stats.missingFieldPings + m.missingFieldPings) + (stats.unmatchedPings + m.unmatchedPings)
    have hstats := h.categories
    have hwindow := hm.categories
    omega
  · rw [hsum, ← h.dropped, ← hm.dropped]
    rfl

/-- A window that is handed over has rows, so the share of the matched ones is defined. -/
theorem totals_of_counts (h : Counts zone windows stats) (hw : w ∈ windows) :
    Totals zone windows (matchingDocument stats) := by
  have hpos : 0 < stats.totalPings := by
    rw [h.total]
    exact lt_of_lt_of_le (List.length_pos_iff.mpr w.frame.nonempty)
      (List.single_le_sum (fun _ _ ↦ Nat.zero_le _) _
        (List.mem_map_of_mem hw))
  have hle : stats.matchedPings ≤ stats.totalPings := by
    have hcategories := h.categories
    omega
  have htotal : (0 : ℚ) < stats.totalPings := Nat.cast_pos.mpr hpos
  refine ⟨h, stats.matchedPings / stats.totalPings, if_neg hpos.ne', ?_, ?_, ?_⟩
  · exact div_nonneg (Nat.cast_nonneg _) htotal.le
  · exact (div_le_one htotal).mpr (Nat.cast_le.mpr hle)
  · exact div_mul_cancel₀ _ htotal.ne'

/-! ## The alerter -/

section

variable {a : Alerter} {count : Time → Time → Option ℕ}

/-- The rules touch neither the running totals nor the pings that were sent. -/
def Keeps (a b : Alerter) : Prop := b.cumulative = a.cumulative ∧ b.pings = a.pings

theorem keeps_evaluateVolumeRule (completedHour : Time) :
    Keeps a (a.evaluateVolumeRule cfg count completedHour) := by
  unfold Alerter.evaluateVolumeRule
  dsimp only
  split
  · split_ifs <;> exact ⟨rfl, rfl⟩
  · exact ⟨rfl, rfl⟩

theorem keeps_maybeCloseHour : Keeps a (a.maybeCloseHour cfg now count) := by
  unfold Alerter.maybeCloseHour
  dsimp only
  split
  · exact ⟨rfl, rfl⟩
  · split_ifs
    · exact ⟨rfl, rfl⟩
    · exact keeps_evaluateVolumeRule _

theorem keeps_evaluateRatioRule : Keeps a (a.evaluateRatioRule cfg now) := by
  unfold Alerter.evaluateRatioRule
  dsimp only
  split
  · exact ⟨rfl, rfl⟩
  · split_ifs <;> exact ⟨rfl, rfl⟩

theorem observeWindow_cumulative (h : 0 < m.totalPings) :
    (a.observeWindow cfg now count (some m)).cumulative = a.cumulative + m := by
  rw [Alerter.observeWindow, if_pos h, Alerter.pingState]
  exact keeps_evaluateRatioRule.1.trans keeps_maybeCloseHour.1

/-- The last ping tells the alerts that are active after the window. -/
theorem observeWindow_pings {matching : Option MatchingStats} {target : String}
    (h : checkUrl cfg.url = some target) :
    (a.observeWindow cfg now count matching).pings.getLast? =
      some
        (target ++
          (if (a.observeWindow cfg now count matching).activeAlerts = [] then "" else "/fail"),
          (a.observeWindow cfg now count matching).activeAlerts) := by
  obtain ⟨b, hb⟩ : ∃ b, a.observeWindow cfg now count matching = Alerter.pingState cfg b := ⟨_, rfl⟩
  rw [hb]
  change (b.pings ++ _).getLast? = some (target ++ (if b.activeAlerts = [] then _ else _),
    b.activeAlerts)
  split_ifs with halerts
  · rw [ping, h, halerts]
    exact List.getLast?_concat
  · rw [ping, h]
    exact List.getLast?_concat

end

/-! ## The run -/

/-- Where a document was written, there is a last window that wrote it. -/
theorem unwritten_or_last (events : List StatusEvent) : Unwritten events ∨
    ∃ before w after, events = before ++ .window w :: after ∧ w.written = true ∧
      Unwritten after := by
  induction events with
  | nil => exact Or.inl fun w hw ↦ absurd hw List.not_mem_nil
  | cons e events ih =>
    rcases ih with h | ⟨before, w, after, rfl, hw, hafter⟩
    · cases e with
      | window w =>
        cases hw : w.written with
        | true => exact Or.inr ⟨[], w, events, rfl, hw, h⟩
        | false =>
          refine Or.inl fun w' hw' ↦ ?_
          rcases List.mem_cons.mp hw' with heq | hmem
          · rwa [StatusEvent.window.inj heq]
          · exact h w' hmem
      | restart =>
        refine Or.inl fun w' hw' ↦ h w' ((List.mem_cons.mp hw').resolve_left nofun)
    · exact Or.inr ⟨e :: before, w, after, rfl, hw, hafter⟩

theorem engineAfter_concat (e : StatusEvent) : engineAfter frames zone cfg (events ++ [e]) =
    (engineAfter frames zone cfg events).step frames zone cfg e := by
  rw [engineAfter, List.foldl_append]
  rfl

/-- The totals of the alerter count the windows since the last restart. -/
theorem counts_cumulative (frames : Frames) (zone : Zone) (cfg : Config)
    (events : List StatusEvent) : Counts zone (sinceRestart events)
      (engineAfter frames zone cfg events).alerter.cumulative := by
  induction events using List.reverseRecOn with
  | nil => exact counts_nil
  | append_singleton events e ih =>
    rw [engineAfter_concat]
    cases e with
    | window w =>
      obtain ⟨m, hm, hcounts⟩ := counts_single frames zone w
      have hpos : 0 < m.totalPings := by
        rw [hcounts.total, List.map_singleton, List.sum_singleton]
        exact List.length_pos_iff.mpr w.frame.nonempty
      rw [sinceRestart_concat_window, Engine.step, Engine.onWindowResult]
      dsimp only
      rw [hm, observeWindow_cumulative hpos]
      exact ih.concat hcounts
    | restart =>
      rw [sinceRestart_concat_restart]
      exact counts_nil

theorem document_of_unwritten (h : Unwritten after) :
    (engineAfter frames zone cfg (before ++ after)).document =
      (engineAfter frames zone cfg before).document := by
  induction after using List.reverseRecOn with
  | nil => rw [List.append_nil]
  | append_singleton after e ih =>
    have hafter : Unwritten after := fun w hw ↦ h w (List.mem_append_left _ hw)
    rw [← List.append_assoc, engineAfter_concat, ← ih hafter]
    cases e with
    | window w => exact if_neg (Bool.eq_false_iff.mp (h w List.mem_concat_self))
    | restart => rfl

theorem reports_of_written (hw : w.written = true) : ∃ r,
    pipelineStatus (engineAfter frames zone cfg (before ++ [.window w])).document now = .ok r ∧
      Reports zone cfg (engineAfter frames zone cfg (before ++ [.window w])).alerter before w now
        r := by
  obtain ⟨m, hm, hcounts⟩ := counts_single frames zone w
  have htotals := counts_cumulative frames zone cfg (before ++ [.window w])
  have hmem : w ∈ sinceRestart (before ++ [.window w]) := by
    rw [sinceRestart_concat_window]
    exact List.mem_concat_self
  rw [engineAfter_concat] at htotals ⊢
  rw [Engine.step, Engine.onWindowResult] at htotals ⊢
  dsimp only at htotals ⊢
  rw [if_pos hw]
  refine ⟨_, rfl, ?_⟩
  constructor
  · rfl
  · exact isAge_ageSeconds _ _
  · exact result_totalRecords
  · rfl
  · intro t ht
    refine ⟨ageSeconds now t, ?_, isAge_ageSeconds _ _⟩
    change (newest w.frame.pings).map (ageSeconds now) = _
    rw [ht]
    rfl
  · exact fun lag ↦ kafkaLagMessages_eq_some
  · refine ⟨matchingDocument m, ?_, totals_of_counts hcounts List.mem_cons_self⟩
    change (w.frame.result frames zone).matching.map matchingDocument = _
    rw [hm]
    rfl
  · refine ⟨_, ?_, totals_of_counts htotals hmem⟩
    change (w.frame.result frames zone).matching.map _ = _
    rw [hm]
    rfl
  · rfl
  · exact fun target ↦ observeWindow_pings

/-- **The endpoint reports the last window whose document was written**, however many windows failed
to write theirs since and however often the process was restarted; it answers 503 as long as there
is none. The totals go back to the last restart before that window. -/
theorem status_run (frames : Frames) (zone : Zone) (cfg : Config) (events : List StatusEvent)
    (now : Time) :
    (pipelineStatus (engineAfter frames zone cfg events).document now = .error noStatusError ↔
      Unwritten events) ∧
    ∀ before w after, events = before ++ .window w :: after → w.written = true →
      Unwritten after → ∃ r,
        pipelineStatus (engineAfter frames zone cfg events).document now = .ok r ∧
        Reports zone cfg (engineAfter frames zone cfg (before ++ [.window w])).alerter before w now
          r := by
  have hlast (before : List StatusEvent) (w : Observed) (after : List StatusEvent)
      (heq : events = before ++ .window w :: after) (hw : w.written = true)
      (hafter : Unwritten after) : ∃ r,
        pipelineStatus (engineAfter frames zone cfg events).document now = .ok r ∧
        Reports zone cfg (engineAfter frames zone cfg (before ++ [.window w])).alerter before w now
          r := by
    rw [heq, ← List.singleton_append, ← List.append_assoc, document_of_unwritten hafter]
    exact reports_of_written hw
  refine ⟨⟨fun herror ↦ ?_, fun h ↦ ?_⟩, hlast⟩
  · rcases unwritten_or_last events with h | ⟨before, w, after, heq, hw, hafter⟩
    · exact h
    · obtain ⟨r, hr, -⟩ := hlast before w after heq hw hafter
      rw [hr] at herror
      cases herror
  · rw [← List.nil_append events, document_of_unwritten h]
    rfl

end GtfsStream.Api
