import GtfsStream.Ingestion.Poller
import Mathlib.Tactic.Linarith

/-!
# What the polling loop promises

Over every run: which cycles are pinged and how, how long the loop waits after each of them, and
what is on the topic. All of it is told from how the cycles of the run ended, and for the waits and
the pings from the *streak* of a cycle, the number of failed ones in a row up to it.

## Streaks

The loop counts its failures in a row, and its waits, its pings and its logs are functions of this
count. So a run is described by the reports of its cycles, each with the counts before and after it,
and the theorems are about lists of reports. A success sets the count to zero, from where it grows
by one with each failure: the k-th failed cycle of an outage has the count k, and from five on it
alerts.
-/

namespace GtfsStream.Ingestion

open Attempts

variable {decodeFeedMessage : Decoder} {pingUrl : Option String} {s : Poller} {cycle : Cycle}
  {cycles : List Cycle}

/-! ## Requests -/

/-- **A request is repeated after an error that is worth it, and ends with the first answer that is
not, or with the last attempt.** The delays in between stay below a bound that the base and the
number of attempts give. -/
theorem requestWithRetry_spec {α : Type*} (options : RetryOptions)
    (answer : ℕ → Except AxiosError α) (random : ℕ → ℚ) (hmax : 0 < options.maxAttempts)
    (hbase : 0 ≤ options.baseDelayMs) (hrandom : ∀ k, random k ≤ 1) :
    ∃ n, Settles options.shouldRetry answer options.maxAttempts 1 n ∧
      (requestWithRetry options answer random).1 = (answer n).mapError some ∧
      (requestWithRetry options answer random).2.length = n - 1 ∧
      (requestWithRetry options answer random).2.sum ≤
        options.baseDelayMs * (2 ^ (n - 1) - 1) * (6 / 5) := by
  obtain ⟨n, hn, hall⟩ := attempts_settled options.shouldRetry answer hmax
  refine ⟨n, hn, ?_, ?_, ?_⟩
  · rw [requestWithRetry, hall]
    cases answer n <;> rfl
  · rw [requestWithRetry, hall, List.length_map, List.length_range']
  · have hfactor (k : ℕ) : 4 / 5 + random k * (2 / 5) ≤ 6 / 5 := by
      have := hrandom k
      linarith
    rw [requestWithRetry, hall]
    exact sum_backoff_le hbase (fun k ↦ 4 / 5 + random k * (2 / 5)) hfactor (n - 1)

/-- The server is unavailable twice, and then answers. -/
theorem requestWithRetry_unavailable :
    (requestWithRetry {} (fun k ↦ if k < 3 then .error ⟨some 503⟩ else .ok "feed")
      fun _ ↦ 1 / 2).1 = .ok "feed" := by
  obtain ⟨n, hn, hresult, -⟩ := requestWithRetry_spec {}
    (fun k ↦ if k < 3 then .error ⟨some 503⟩ else .ok "feed") (fun _ ↦ 1 / 2) (by decide)
    (by norm_num) fun _ ↦ by norm_num
  have hthree : n = 3 := by
    refine hn.unique ⟨by decide, le_refl 3, fun k _ hk ↦ ⟨⟨some 503⟩, if_pos hk, rfl⟩, Or.inl rfl⟩
  rw [hresult, hthree]
  rfl

/-! ## The report of a cycle -/

/-- The cycle ends with an error. -/
def Cycle.fails (decodeFeedMessage : Decoder) (cycle : Cycle) : Bool :=
  match (pollCycle decodeFeedMessage cycle).2 with
  | .ok _ => false
  | .error _ => true

/-- What is reported of a cycle, given the streaks before and after it. -/
structure Report.Follows (decodeFeedMessage : Decoder) (pingUrl : Option String) (cycle : Cycle)
    (before after : ℕ) (report : Report) : Prop where
  result : report.result = (pollCycle decodeFeedMessage cycle).2
  pings : report.pings =
    if cycle.fails decodeFeedMessage = false then heartbeat pingUrl ""
    else if alertThreshold ≤ after then heartbeat pingUrl "/fail" else []
  waitMs : report.waitMs = computeWaitMs after
  alerted : report.alerted = true ↔ alertThreshold ≤ after
  recovered : report.recovered = true ↔
    cycle.fails decodeFeedMessage = false ∧ before = alertThreshold

/-- What one turn does: the failures are counted or forgotten, the records are written, and one
report is added. -/
theorem Poller.turn_spec (decodeFeedMessage : Decoder) (pingUrl : Option String) (s : Poller)
    (cycle : Cycle) :
    (s.turn decodeFeedMessage pingUrl cycle).consecutiveFailures =
        (if cycle.fails decodeFeedMessage then s.consecutiveFailures + 1 else 0) ∧
      (s.turn decodeFeedMessage pingUrl cycle).topic =
        s.topic ++ (pollCycle decodeFeedMessage cycle).1 ∧
      ∃ report, (s.turn decodeFeedMessage pingUrl cycle).reports = s.reports ++ [report] ∧
        report.Follows decodeFeedMessage pingUrl cycle s.consecutiveFailures
          (if cycle.fails decodeFeedMessage then s.consecutiveFailures + 1 else 0) := by
  rw [Poller.turn]
  cases hresult : (pollCycle decodeFeedMessage cycle).2 with
  | ok counts =>
    have hfails : cycle.fails decodeFeedMessage = false := by rw [Cycle.fails, hresult]
    rw [hfails, if_neg Bool.false_ne_true]
    refine ⟨rfl, rfl, _, rfl, hresult.symm, ?_, rfl, ?_, ?_⟩
    · rw [hfails, if_pos rfl]
    · exact iff_of_false Bool.false_ne_true (Nat.not_succ_le_zero _)
    · rw [hfails, decide_eq_true_iff]
      exact (and_iff_right rfl).symm
  | error error =>
    have hfails : cycle.fails decodeFeedMessage = true := by rw [Cycle.fails, hresult]
    rw [hfails, if_pos rfl]
    refine ⟨rfl, rfl, _, rfl, hresult.symm, ?_, rfl, decide_eq_true_iff, ?_⟩
    · rw [hfails, if_neg (Bool.noConfusion : ¬true = false)]
    · rw [hfails]
      exact iff_of_false Bool.false_ne_true fun h ↦ Bool.noConfusion h.1

theorem pollVehiclePositions_concat :
    pollVehiclePositions decodeFeedMessage pingUrl (cycles ++ [cycle]) =
      (pollVehiclePositions decodeFeedMessage pingUrl cycles).turn
        decodeFeedMessage pingUrl cycle := by
  rw [pollVehiclePositions, List.foldl_append]
  rfl

/-- How many cycles have failed in a row at the end of the run. -/
def failures (decodeFeedMessage : Decoder) (cycles : List Cycle) : ℕ :=
  streak (Cycle.fails decodeFeedMessage) cycles

theorem consecutiveFailures_run :
    (pollVehiclePositions decodeFeedMessage pingUrl cycles).consecutiveFailures =
      failures decodeFeedMessage cycles := by
  induction cycles using List.reverseRecOn with
  | nil => rfl
  | append_singleton cycles cycle ih =>
    rw [pollVehiclePositions_concat, (Poller.turn_spec _ _ _ cycle).1, ih, failures, failures,
      streak_concat]

theorem length_reports (decodeFeedMessage : Decoder) (pingUrl : Option String)
    (cycles : List Cycle) :
    (pollVehiclePositions decodeFeedMessage pingUrl cycles).reports.length = cycles.length := by
  induction cycles using List.reverseRecOn with
  | nil => rfl
  | append_singleton cycles cycle ih =>
    obtain ⟨report, hreport, -⟩ := (Poller.turn_spec decodeFeedMessage pingUrl
      (pollVehiclePositions decodeFeedMessage pingUrl cycles) cycle).2.2
    rw [pollVehiclePositions_concat, hreport, List.length_append, List.length_append, ih]
    rfl

/-- **Every cycle of a run has its report, and the report follows from how the cycle ended and from
the failures in a row before it.** -/
theorem reports_follow (pingUrl : Option String) {i : ℕ} (hi : cycles[i]? = some cycle) :
    ∃ report, (pollVehiclePositions decodeFeedMessage pingUrl cycles).reports[i]? = some report ∧
      report.Follows decodeFeedMessage pingUrl cycle
        (failures decodeFeedMessage (cycles.take i))
        (failures decodeFeedMessage (cycles.take (i + 1))) := by
  induction cycles using List.reverseRecOn with
  | nil => exact absurd hi (by simp)
  | append_singleton cycles last ih =>
    obtain ⟨report, hreport, hfollows⟩ := (Poller.turn_spec decodeFeedMessage pingUrl
      (pollVehiclePositions decodeFeedMessage pingUrl cycles) last).2.2
    rw [pollVehiclePositions_concat, hreport]
    have hlen := length_reports decodeFeedMessage pingUrl cycles
    rcases lt_trichotomy i cycles.length with hlt | heq | hgt
    · rw [List.getElem?_append_left hlt] at hi
      rw [List.getElem?_append_left (hlen ▸ hlt), List.take_append_of_le_length hlt.le,
        List.take_append_of_le_length hlt]
      exact ih hi
    · -- the last cycle of the run: its streak is the one before it, or one more
      subst heq
      rw [List.getElem?_concat_length, Option.some.injEq] at hi
      subst hi
      refine ⟨report, ?_, ?_⟩
      · rw [← hlen, List.getElem?_concat_length]
      · rw [consecutiveFailures_run] at hfollows
        rw [List.take_left, List.take_of_length_le (by simp), failures, failures, streak_concat]
        exact hfollows
    · rw [List.getElem?_eq_none (by rw [List.length_append, List.length_singleton]; omega)] at hi
      exact absurd hi (by simp)

/-! ## The heartbeat -/

theorem append_fail_ne (url : String) : url ++ "/fail" ≠ url := by
  intro h
  have hlist := congrArg String.toList h
  rw [String.toList_append, List.append_right_eq_self] at hlist
  exact absurd hlist (by decide)

/-- The last five cycles up to the one at `i` have failed. -/
def LastFiveFail (decodeFeedMessage : Decoder) (cycles : List Cycle) (i : ℕ) : Prop :=
  5 ≤ i + 1 ∧ ∀ c ∈ (cycles.take (i + 1)).drop (i + 1 - 5), c.fails decodeFeedMessage = true

theorem alertThreshold_le_failures {i : ℕ} (hi : i < cycles.length) :
    alertThreshold ≤ failures decodeFeedMessage (cycles.take (i + 1)) ↔
      LastFiveFail decodeFeedMessage cycles i := by
  rw [failures, le_streak_iff, List.length_take, min_eq_left hi]
  rfl

theorem failures_take_succ {i : ℕ} (hi : cycles[i]? = some cycle) :
    failures decodeFeedMessage (cycles.take (i + 1)) =
      if cycle.fails decodeFeedMessage then failures decodeFeedMessage (cycles.take i) + 1
      else 0 := by
  obtain ⟨hlt, rfl⟩ := List.getElem?_eq_some_iff.mp hi
  rw [List.take_succ_eq_append_getElem hlt, failures, streak_concat]
  rfl

/-- A cycle that is not pinged has failed, within the first four of an outage. -/
theorem silent_iff {url : String} (hurl : Alerting.checkUrl pingUrl = some url) {report : Report}
    {before after : ℕ} (h : report.Follows decodeFeedMessage pingUrl cycle before after) :
    report.pings = [] ↔
      cycle.fails decodeFeedMessage = true ∧ after < alertThreshold := by
  have hne (path : String) : heartbeat pingUrl path ≠ [] := by
    rw [heartbeat, hurl]
    exact List.cons_ne_nil _ _
  rw [h.pings]
  split_ifs with hok halert
  · exact iff_of_false (hne _) fun hfails ↦ Bool.noConfusion (hok.symm.trans hfails.1)
  · exact iff_of_false (hne _) fun hfails ↦ absurd halert (not_le.mpr hfails.2)
  · exact iff_of_true rfl ⟨Bool.eq_true_of_not_eq_false hok, not_le.mp halert⟩

theorem exists_pinged (decodeFeedMessage : Decoder) {url : String}
    (hurl : Alerting.checkUrl pingUrl = some url) {i : ℕ} (hi : i + 5 ≤ cycles.length) :
    ∃ j, i ≤ j ∧ j < i + 5 ∧ ∃ report,
      (pollVehiclePositions decodeFeedMessage pingUrl cycles).reports[j]? = some report ∧
        report.pings ≠ [] := by
  by_contra hnone
  have hsilent : ∀ j, i ≤ j → j < i + 5 → ∃ c, cycles[j]? = some c ∧
      c.fails decodeFeedMessage = true ∧
        failures decodeFeedMessage (cycles.take (j + 1)) < alertThreshold := by
    intro j hij hj
    have hlt : j < cycles.length := by omega
    have hget : cycles[j]? = some cycles[j] := List.getElem?_eq_getElem hlt
    obtain ⟨report, hreport, hfollows⟩ := reports_follow pingUrl hget
    refine ⟨_, hget, (silent_iff hurl hfollows).mp ?_⟩
    by_contra hping
    exact hnone ⟨j, hij, hj, report, hreport, hping⟩
  -- the fifth of them has five failures in a row, and would have been pinged
  obtain ⟨c, hc, hfails, hlt⟩ := hsilent (i + 4) (by omega) (by omega)
  refine absurd ((alertThreshold_le_failures (by omega)).mpr ⟨by omega, fun c hc ↦ ?_⟩)
    (not_le.mpr hlt)
  obtain ⟨k, hk, rfl⟩ := List.mem_iff_getElem.mp hc
  rw [List.length_drop, List.length_take] at hk
  rw [List.getElem_drop, List.getElem_take]
  obtain ⟨c, hc, hfails, -⟩ := hsilent (i + 4 + 1 - 5 + k) (by omega) (by omega)
  rwa [(List.getElem?_eq_some_iff.mp hc).2]

/-- From any cycle on a ping is sent within five cycles, and only regular waits pass until then. -/
theorem pinged_within {url : String} (hurl : Alerting.checkUrl pingUrl = some url) {i : ℕ}
    (hi : i + 5 ≤ cycles.length) :
    ∃ j report, i ≤ j ∧ j < i + 5 ∧
      (pollVehiclePositions decodeFeedMessage pingUrl cycles).reports[j]? = some report ∧
      report.pings ≠ [] ∧
      ∀ k earlier, i ≤ k → k < j →
        (pollVehiclePositions decodeFeedMessage pingUrl cycles).reports[k]? = some earlier →
          earlier.waitMs = baseIntervalMs := by
  classical
  have hex := exists_pinged decodeFeedMessage hurl hi
  -- the first cycle that is pinged
  obtain ⟨hij, hj, report, hreport, hping⟩ := Nat.find_spec hex
  refine ⟨Nat.find hex, report, hij, hj, hreport, hping, fun k earlier hik hkj hearlier ↦ ?_⟩
  have hlt : k < cycles.length := by omega
  have hget : cycles[k]? = some cycles[k] := List.getElem?_eq_getElem hlt
  obtain ⟨found, hfound, hfollows⟩ := reports_follow pingUrl hget
  rw [hearlier, Option.some.injEq] at hfound
  subst hfound
  have hsilent : earlier.pings = [] := by
    by_contra hne
    exact Nat.find_min hex hkj ⟨hik, by omega, earlier, hearlier, hne⟩
  have hlt := ((silent_iff hurl hfollows).mp hsilent).2
  rw [hfollows.waitMs, computeWaitMs, if_neg (not_le.mpr hlt)]

/-- **The heartbeat tells how the cycles end.** In every run, a cycle is pinged on the URL of the
check exactly if it succeeds, and on its `/fail` exactly if it is at least the fifth failed cycle in
a row; and from any cycle on, a ping is sent after at most four waits, all of them regular. -/
theorem heartbeat_run {url : String} (hurl : Alerting.checkUrl pingUrl = some url)
    (cycles : List Cycle) :
    (∀ i cycle, cycles[i]? = some cycle → ∃ report,
      (pollVehiclePositions decodeFeedMessage pingUrl cycles).reports[i]? = some report ∧
      (report.pings = [url] ↔ cycle.fails decodeFeedMessage = false) ∧
      (report.pings = [url ++ "/fail"] ↔ LastFiveFail decodeFeedMessage cycles i)) ∧
    ∀ i, i + 5 ≤ cycles.length → ∃ j report, i ≤ j ∧ j < i + 5 ∧
      (pollVehiclePositions decodeFeedMessage pingUrl cycles).reports[j]? = some report ∧
      report.pings ≠ [] ∧
      ∀ k earlier, i ≤ k → k < j →
        (pollVehiclePositions decodeFeedMessage pingUrl cycles).reports[k]? = some earlier →
          earlier.waitMs = baseIntervalMs := by
  refine ⟨fun i cycle hget ↦ ?_, fun i hi ↦ pinged_within hurl hi⟩
  obtain ⟨report, hreport, hfollows⟩ := reports_follow pingUrl hget
  have hlt := (List.getElem?_eq_some_iff.mp hget).1
  have hbeat (path : String) : heartbeat pingUrl path = [url ++ path] := by rw [heartbeat, hurl]
  refine ⟨report, hreport, ?_⟩
  rw [← alertThreshold_le_failures hlt, hfollows.pings, hbeat, hbeat, String.append_empty]
  have hfail := append_fail_ne url
  split_ifs with hok halert
  · -- after a success the streak is gone
    refine ⟨iff_of_true rfl hok, iff_of_false (fun h ↦ hfail ?_) ?_⟩
    · exact (List.singleton_inj.mp h).symm
    · rw [failures_take_succ hget, if_neg (by rw [hok]; exact Bool.false_ne_true)]
      exact Nat.not_succ_le_zero _
  · exact ⟨iff_of_false (fun h ↦ hfail (List.singleton_inj.mp h)) hok, iff_of_true rfl halert⟩
  · exact ⟨iff_of_false not_false hok, iff_of_false not_false halert⟩

/-- A cycle that does not reach the feed. -/
def unreachable : Cycle where
  answer := fun _ ↦ .error ⟨none⟩
  random := fun _ ↦ 0
  ingestedAt := "2026-11-01T12:00:00.000Z"
  send := .acked

theorem unreachable_fails : unreachable.fails (fun _ ↦ none) = true := by decide

/-- The fifth cycle that does not reach the feed is pinged on `/fail`. -/
theorem heartbeat_unreachable :
    ∃ report, (pollVehiclePositions (fun _ ↦ none) (some "check/")
        (List.replicate 5 unreachable)).reports[4]? = some report ∧
      report.pings = ["check/fail"] := by
  have hurl : Alerting.checkUrl (some "check/") = some "check" := by decide
  obtain ⟨report, hreport, -, hfail⟩ :=
    (heartbeat_run hurl (List.replicate 5 unreachable)).1 4 unreachable rfl
  refine ⟨report, hreport, hfail.mpr ⟨le_refl 5, fun c hc ↦ ?_⟩⟩
  rw [List.eq_of_mem_replicate (List.mem_of_mem_take (List.mem_of_mem_drop hc))]
  exact unreachable_fails

/-! ## Outages -/

theorem computeWaitMs_mono : Monotone computeWaitMs := by
  intro n m hnm
  rw [computeWaitMs, computeWaitMs]
  split_ifs with hn hm hm
  · exact min_le_min_right _ (Nat.mul_le_mul_left _
      (Nat.pow_le_pow_right Nat.two_pos (Nat.sub_le_sub_right hnm _)))
  · exact absurd (hn.trans hnm) hm
  · exact le_min (Nat.le_mul_of_pos_right _ (Nat.pow_pos Nat.two_pos)) (by decide)
  · exact le_refl _

theorem computeWaitMs_zero : computeWaitMs 0 = baseIntervalMs := rfl

theorem computeWaitMs_le (n : ℕ) : computeWaitMs n ≤ maxBackoffMs := by
  rw [computeWaitMs]
  split_ifs
  · exact min_le_right _ _
  · exact (by decide : baseIntervalMs ≤ maxBackoffMs)

theorem computeWaitMs_of_le {n : ℕ} (h : 10 ≤ n) : computeWaitMs n = maxBackoffMs :=
  le_antisymm (computeWaitMs_le n) ((by decide : maxBackoffMs ≤ computeWaitMs 10).trans
    (computeWaitMs_mono h))

/-- What the loop has waited in an outage of at least nine cycles. -/
theorem sum_computeWaitMs {n : ℕ} (h : 9 ≤ n) :
    ((List.range' 1 n).map computeWaitMs).sum = 525000 + maxBackoffMs * (n - 9) := by
  induction n, h using Nat.le_induction with
  | base => decide
  | succ n hn ih =>
    rw [List.range'_1_concat, List.map_append, List.sum_append, ih, List.map_singleton,
      List.sum_singleton, computeWaitMs_of_le (by omega), Nat.succ_sub hn, Nat.mul_succ, add_assoc]

theorem failures_outage {before outage : List Cycle}
    (hbefore : failures decodeFeedMessage before = 0)
    (houtage : ∀ c ∈ outage, c.fails decodeFeedMessage = true) {k : ℕ} (hk : k ≤ outage.length) :
    failures decodeFeedMessage ((before ++ outage).take (before.length + k)) = k := by
  rw [List.take_length_add_append, failures,
    streak_append fun c hc ↦ houtage c (List.mem_of_mem_take hc), List.length_take,
    min_eq_left hk]
  rw [failures] at hbefore
  rw [hbefore, zero_add]

/-- The reports of an outage, in order: the `k`-th failure has its wait, and is an alert from the
fifth one on. -/
theorem reports_outage (pingUrl : Option String) {before outage : List Cycle}
    (hbefore : failures decodeFeedMessage before = 0)
    (houtage : ∀ c ∈ outage, c.fails decodeFeedMessage = true) :
    (((pollVehiclePositions decodeFeedMessage pingUrl (before ++ outage)).reports.drop
        before.length).map fun report ↦ (report.waitMs, report.alerted)) =
      (List.range' 1 outage.length).map fun k ↦
        (computeWaitMs k, decide (alertThreshold ≤ k)) := by
  refine List.ext_getElem? fun k ↦ ?_
  rw [List.getElem?_map, List.getElem?_map, List.getElem?_drop]
  by_cases hk : k < outage.length
  · have hget : (before ++ outage)[before.length + k]? = some outage[k] := by
      rw [List.getElem?_append_right (Nat.le_add_right _ _), Nat.add_sub_cancel_left,
        List.getElem?_eq_getElem hk]
    obtain ⟨report, hreport, hfollows⟩ := reports_follow pingUrl hget
    rw [add_assoc, failures_outage hbefore houtage (show k + 1 ≤ outage.length from hk)] at hfollows
    have halerted : report.alerted = decide (alertThreshold ≤ 1 + k) := by
      rw [Bool.eq_iff_iff, hfollows.alerted, decide_eq_true_iff, add_comm]
    rw [hreport, List.getElem?_range' hk, Option.map_some, Option.map_some, hfollows.waitMs,
      halerted, one_mul, add_comm k]
  · rw [List.getElem?_eq_none (by rw [length_reports, List.length_append]; omega),
      List.getElem?_eq_none (by rw [List.length_range']; omega)]
    rfl

theorem countP_alerted (n : ℕ) :
    (List.range' 1 n).countP (fun k ↦ decide (alertThreshold ≤ k)) = n - 4 := by
  induction n with
  | zero => rfl
  | succ n ih =>
    rw [List.range'_1_concat, List.countP_append, ih, List.countP_singleton, alertThreshold]
    split_ifs with h
    all_goals simp only [decide_eq_true_eq] at h; omega

/-- **What an outage looks like.** The failed cycles in a row that follow a success, or the start,
wait longer and longer, between the regular interval and five minutes, and are alerts from the
fifth one on. The next success waits the regular time again, and its recovery is logged exactly if
five cycles had failed. -/
theorem outage_run (pingUrl : Option String) {before outage : List Cycle}
    (hbefore : failures decodeFeedMessage before = 0)
    (houtage : ∀ c ∈ outage, c.fails decodeFeedMessage = true) :
    let reports := (pollVehiclePositions decodeFeedMessage pingUrl (before ++ outage)).reports.drop
      before.length
    let waits := reports.map Report.waitMs
    waits.Pairwise (· ≤ ·) ∧ (∀ w ∈ waits, baseIntervalMs ≤ w ∧ w ≤ maxBackoffMs) ∧
      (9 ≤ outage.length → waits.sum = 525000 + maxBackoffMs * (outage.length - 9)) ∧
      (reports.map Report.alerted = (List.range' 1 outage.length).map fun k ↦ decide (5 ≤ k)) ∧
      reports.countP Report.alerted = outage.length - 4 ∧
      ∀ cycle, cycle.fails decodeFeedMessage = false → ∃ report,
        (pollVehiclePositions decodeFeedMessage pingUrl
          (before ++ outage ++ [cycle])).reports.getLast? = some report ∧
        report.waitMs = baseIntervalMs ∧ (report.recovered = true ↔ outage.length = 5) := by
  intro reports waits
  have hreports := reports_outage pingUrl hbefore houtage
  have hwaits : waits = (List.range' 1 outage.length).map computeWaitMs := by
    have h := congrArg (List.map Prod.fst) hreports
    rwa [List.map_map, List.map_map] at h
  have halerts : reports.map Report.alerted =
      (List.range' 1 outage.length).map fun k ↦ decide (5 ≤ k) := by
    have h := congrArg (List.map Prod.snd) hreports
    rwa [List.map_map, List.map_map] at h
  have hcount : reports.countP Report.alerted = outage.length - 4 := by
    have h := congrArg (List.countP Prod.snd) hreports
    rw [List.countP_map, List.countP_map] at h
    exact h.trans (countP_alerted outage.length)
  refine ⟨?_, ?_, ?_, halerts, hcount, fun cycle hok ↦ ?_⟩
  · rw [hwaits, List.pairwise_map]
    exact (List.pairwise_lt_range' 1).imp fun h ↦ computeWaitMs_mono h.le
  · intro w hw
    rw [hwaits] at hw
    obtain ⟨k, -, rfl⟩ := List.mem_map.mp hw
    exact ⟨computeWaitMs_zero ▸ computeWaitMs_mono (Nat.zero_le k), computeWaitMs_le k⟩
  · intro hlen
    rw [hwaits, sum_computeWaitMs hlen]
  · -- the success after the outage, whose streak before it is the whole outage
    have hget : (before ++ outage ++ [cycle])[(before ++ outage).length]? = some cycle :=
      List.getElem?_concat_length
    obtain ⟨report, hreport, hfollows⟩ := reports_follow pingUrl hget
    refine ⟨report, ?_, ?_, ?_⟩
    · rw [List.getLast?_eq_getElem?, length_reports, List.length_append, List.length_singleton,
        Nat.add_sub_cancel]
      exact hreport
    · rw [hfollows.waitMs, failures_take_succ hget, if_neg (by rw [hok]; exact Bool.false_ne_true)]
      rfl
    · have hstreak := failures_outage hbefore houtage (le_refl outage.length)
      rw [← List.length_append, List.take_length] at hstreak
      rw [hfollows.recovered, List.take_left, hstreak, and_iff_right hok]
      rfl

/-- Nine cycles that do not reach the feed take almost nine minutes. -/
theorem outage_unreachable :
    ((pollVehiclePositions (fun _ ↦ none) none
      (List.replicate 9 unreachable)).reports.map Report.waitMs).sum = 525000 := by
  have houtage : ∀ c ∈ List.replicate 9 unreachable, c.fails (fun _ ↦ none) = true := by
    intro c hc
    rw [List.eq_of_mem_replicate hc]
    exact unreachable_fails
  have hbefore : failures (fun _ ↦ none) [] = 0 := rfl
  exact (outage_run none hbefore houtage).2.2.1 (le_refl 9)

/-! ## The topic -/

/-- The entities of the feed that a cycle fetches. -/
def Cycle.feed (decodeFeedMessage : Decoder) (cycle : Cycle) :
    Except PollError (List DecodedVehiclePosition) :=
  (fetchFeedBuffer cycle).bind (decodeFeed decodeFeedMessage)

/-- The messages of the valid vehicles of a feed. -/
def messagesOf (entities : List DecodedVehiclePosition) (ingestedAt : String) : List Record :=
  publishTelemetries (entities.filterMap validTelemetry) ingestedAt

theorem length_messagesOf (entities : List DecodedVehiclePosition) (ingestedAt : String) :
    (messagesOf entities ingestedAt).length +
      (entities.countP fun entity ↦ (validTelemetry entity).isNone) = entities.length := by
  rw [messagesOf, publishTelemetries, List.length_map, List.length_filterMap_eq_countP]
  rw [List.length_eq_countP_add_countP fun entity ↦ (validTelemetry entity).isSome]
  refine congrArg _ (List.countP_congr fun entity _ ↦ ?_)
  cases validTelemetry entity <;> simp

theorem pollCycle_of_error {error : PollError} (h : cycle.feed decodeFeedMessage = .error error) :
    pollCycle decodeFeedMessage cycle = ([], .error error) := by
  rw [Cycle.feed] at h
  rw [pollCycle, h]

/-- A cycle with a feed writes the messages of its valid vehicles: all of them where it succeeds,
and some of them where the send fails. -/
theorem pollCycle_of_ok {entities : List DecodedVehiclePosition}
    (h : cycle.feed decodeFeedMessage = .ok entities) :
    (pollCycle decodeFeedMessage cycle).1.Sublist (messagesOf entities cycle.ingestedAt) ∧
      (cycle.fails decodeFeedMessage = false →
        pollCycle decodeFeedMessage cycle =
          (messagesOf entities cycle.ingestedAt,
            .ok ((messagesOf entities cycle.ingestedAt).length,
              entities.length - (messagesOf entities cycle.ingestedAt).length))) := by
  have hlen := length_messagesOf entities cycle.ingestedAt
  have hskipped : entities.countP (fun entity ↦ (validTelemetry entity).isNone) =
      entities.length - (messagesOf entities cycle.ingestedAt).length := by omega
  have hmessages : (messagesOf entities cycle.ingestedAt).length =
      (entities.filterMap validTelemetry).length := List.length_map _
  rw [Cycle.feed] at h
  rw [Cycle.fails, pollCycle, h]
  simp only [vehiclesWithValidTelemetries, publish, hskipped]
  split_ifs with hempty
  · rw [List.isEmpty_iff] at hempty
    have hnil : messagesOf entities cycle.ingestedAt = [] := by rw [messagesOf, hempty]; rfl
    rw [hnil]
    exact ⟨List.Sublist.refl _, fun _ ↦ rfl⟩
  · cases cycle.send with
    | acked =>
      refine ⟨List.Sublist.refl _, fun _ ↦ ?_⟩
      rw [hmessages]
      rfl
    | failed written => exact ⟨List.filter_sublist, fun hfails ↦ Bool.noConfusion hfails⟩

theorem validCoordinates_bounds {position : Position} {coordinates : ℚ × ℚ}
    (h : validCoordinates position = some coordinates) :
    |coordinates.1| ≤ 180 ∧ |coordinates.2| ≤ 90 := by
  rw [validCoordinates] at h
  split at h
  · split_ifs at h with hout
    rw [Option.some.injEq] at h
    subst h
    rw [not_or, not_or, not_or, not_lt, not_lt, not_lt, not_lt] at hout
    exact ⟨abs_le.mpr ⟨hout.2.2.1, hout.2.2.2⟩, abs_le.mpr ⟨hout.1, hout.2.1⟩⟩
  · exact absurd h (by simp)

/-- A record names its vehicle by its key, and has a position on the globe. -/
def Record.WellFormed (record : Record) : Prop :=
  record.1 = record.2.vehicleId ∧ record.1 ≠ "" ∧
    |record.2.coordinates.1| ≤ 180 ∧ |record.2.coordinates.2| ≤ 90

theorem wellFormed_of_mem {entities : List DecodedVehiclePosition} {ingestedAt : String}
    {record : Record} (h : record ∈ messagesOf entities ingestedAt) : record.WellFormed := by
  rw [messagesOf, publishTelemetries, List.mem_map] at h
  obtain ⟨t, ht, rfl⟩ := h
  obtain ⟨entity, -, hvalid⟩ := List.mem_filterMap.mp ht
  unfold validTelemetry at hvalid
  simp only [bind, pure, Option.bind_eq_some_iff, Option.filter_eq_some_iff, Option.some.injEq,
    decide_eq_true_eq] at hvalid
  obtain ⟨vehicle, -, position, -, coordinates, hcoordinates, vehicleId, ⟨-, hne⟩, m, -, rfl⟩ :=
    hvalid
  exact ⟨rfl, hne, validCoordinates_bounds hcoordinates⟩

theorem topic_eq :
    (pollVehiclePositions decodeFeedMessage pingUrl cycles).topic =
      cycles.flatMap fun cycle ↦ (pollCycle decodeFeedMessage cycle).1 := by
  induction cycles using List.reverseRecOn with
  | nil => rfl
  | append_singleton cycles cycle ih =>
    rw [pollVehiclePositions_concat, (Poller.turn_spec _ _ _ cycle).2.1, ih, List.flatMap_append,
      List.flatMap_singleton]

/-- **What the loop has published.** The topic of a run is made up of what its cycles have written,
in their order. A cycle that succeeds has written every valid vehicle of its feed once and in order,
and reports how many those are and how many are left of the feed; a cycle that fails has written
nothing but messages of its feed. Every record is well formed. -/
theorem topic_run (decodeFeedMessage : Decoder) (pingUrl : Option String) (cycles : List Cycle) :
    ∃ written : Cycle → List Record,
      (pollVehiclePositions decodeFeedMessage pingUrl cycles).topic = cycles.flatMap written ∧
      (∀ record ∈ (pollVehiclePositions decodeFeedMessage pingUrl cycles).topic,
        record.WellFormed) ∧
      (∀ cycle ∈ cycles, ∀ error, cycle.feed decodeFeedMessage = .error error →
        written cycle = []) ∧
      (∀ cycle ∈ cycles, ∀ entities, cycle.feed decodeFeedMessage = .ok entities →
        (written cycle).Sublist (messagesOf entities cycle.ingestedAt)) ∧
      ∀ i published skipped : ℕ,
        ((pollVehiclePositions decodeFeedMessage pingUrl cycles).reports[i]?.map Report.result =
            some (.ok (published, skipped))) →
        ∃ cycle entities, cycles[i]? = some cycle ∧
          cycle.feed decodeFeedMessage = .ok entities ∧
          written cycle = messagesOf entities cycle.ingestedAt ∧
          published = (messagesOf entities cycle.ingestedAt).length ∧
          published + skipped = entities.length := by
  refine ⟨fun cycle ↦ (pollCycle decodeFeedMessage cycle).1, topic_eq, ?_, ?_, ?_, ?_⟩
  · intro record hrecord
    rw [topic_eq, List.mem_flatMap] at hrecord
    obtain ⟨cycle, -, hwritten⟩ := hrecord
    cases hfeed : cycle.feed decodeFeedMessage with
    | error error =>
      rw [pollCycle_of_error hfeed] at hwritten
      exact absurd hwritten List.not_mem_nil
    | ok entities => exact wellFormed_of_mem ((pollCycle_of_ok hfeed).1.subset hwritten)
  · intro cycle _ error hfeed
    exact congrArg Prod.fst (pollCycle_of_error hfeed)
  · intro cycle _ entities hfeed
    exact (pollCycle_of_ok hfeed).1
  · intro i published skipped hresult
    obtain ⟨report, hreport, hok⟩ := Option.map_eq_some_iff.mp hresult
    have hlt : i < cycles.length := by
      rw [← length_reports decodeFeedMessage pingUrl cycles]
      exact (List.getElem?_eq_some_iff.mp hreport).1
    have hget : cycles[i]? = some cycles[i] := List.getElem?_eq_getElem hlt
    obtain ⟨found, hfound, hfollows⟩ := reports_follow pingUrl hget
    rw [hreport, Option.some.injEq] at hfound
    subst hfound
    have hcycle : (pollCycle decodeFeedMessage cycles[i]).2 = .ok (published, skipped) := by
      rw [← hfollows.result, hok]
    have hfails : cycles[i].fails decodeFeedMessage = false := by rw [Cycle.fails, hcycle]
    cases hfeed : cycles[i].feed decodeFeedMessage with
    | error error =>
      rw [pollCycle_of_error hfeed] at hcycle
      exact absurd hcycle (by simp)
    | ok entities =>
      have hall := (pollCycle_of_ok hfeed).2 hfails
      have hle := length_messagesOf entities cycles[i].ingestedAt
      rw [hall, Except.ok.injEq, Prod.mk.injEq] at hcycle
      obtain ⟨hpublished, hskipped⟩ := hcycle
      exact ⟨cycles[i], entities, hget, hfeed, congrArg Prod.fst hall, hpublished.symm, by omega⟩

end GtfsStream.Ingestion
