import GtfsStream.Alerting.Alerter
import GtfsStream.Library.Records

/-!
# The hours that the volume rule judges

`_current_hour` is the latest hour that a window has fallen into, so an hour is judged when the
clock first shows a later one, whatever it does otherwise, and never again. Over any calls the
reason is the verdict on the last hour that could be judged: one with both counts, of which that of
a week ago is large enough.

The division of the rule raises where the count of a week ago is zero, which a minimum of one
excludes.

## How the calls are counted

A call closes the hour that was current before it, if its own is later. So which hour a call judges
depends on the clock of the calls before it alone, and not on the counts: the current hour is the
latest one that a call fell into, by induction on the calls. That each hour is judged once and only
after the clock has left it are facts about these latest hours. What the counts decide is the
verdict, and a count that could not be obtained leaves the verdict before it in place.
-/

open GtfsStream.Analytics (MatchingStats)

namespace GtfsStream.Alerting

open Records

/-- One call of `observe_window`, and what the deviation counts are at that moment. -/
structure Call where
  now : Time
  matching : Option MatchingStats
  count : Time → Time → Option ℕ

/-! ## The rule with its division -/

namespace Raising

/-- `current / week_ago`, or none for a `ZeroDivisionError`. -/
def divide (current weekAgo : ℕ) : Option ℚ :=
  if weekAgo = 0 then none else some ((current : ℚ) / weekAgo)

variable (cfg : Config) (a : Alerter)

def evaluateVolumeRule (count : Time → Time → Option ℕ) (completedHour : Time) : Option Alerter :=
  let weekAgoHour := completedHour - hours (24 * 7)
  match count completedHour (completedHour + hours 1),
    count weekAgoHour (weekAgoHour + hours 1) with
  | some current, some weekAgo =>
    if weekAgo < cfg.weekAgoMinCount then some a
    else (divide current weekAgo).map fun ratio ↦
      if ratio < cfg.deviationMinRatio then
        { a with volumeReason := some ⟨current, weekAgo, cfg.deviationMinRatio, completedHour⟩ }
      else { a with volumeReason := none }
  | _, _ => some a

def maybeCloseHour (now : Time) (count : Time → Time → Option ℕ) : Option Alerter :=
  let hour := now / hours 1 * hours 1
  match a.currentHour with
  | none => some { a with currentHour := some hour }
  | some current =>
    if hour ≤ current then some a
    else evaluateVolumeRule cfg { a with currentHour := some hour } count current

/-- `observe_window`; none where it raises. -/
def observeWindow (c : Call) : Option Alerter :=
  let fed := match c.matching with
    | some m =>
      if 0 < m.totalPings then
        { a with
          cumulative := a.cumulative + m
          ratioSamples := a.ratioSamples ++
            [Sample.mk c.now m.matchedPings m.totalPings] }.pruneRatioSamples c.now
      else a
    | none => a
  (maybeCloseHour cfg fed c.now c.count).map fun closed ↦
    (closed.evaluateRatioRule cfg c.now).pingState cfg

/-- The calls of a run. -/
def run (calls : List Call) : Option Alerter := calls.foldlM (observeWindow cfg) {}

end Raising

/-! ## Judgments -/

/-- The hour of a moment. -/
def hourOf (now : Time) : Time := now / hours 1 * hours 1

/-- The counts of a judged hour. -/
structure Judgment where
  hour : Time
  current : Option ℕ
  weekAgo : Option ℕ

/-- The rule asks for the deviations of the hour and of the same hour of the previous week. -/
def judge (count : Time → Time → Option ℕ) (hour : Time) : Judgment where
  hour := hour
  current := count hour (hour + hours 1)
  weekAgo := count (hour - hours (24 * 7)) (hour - hours (24 * 7) + hours 1)

variable (cfg : Config)

/-- Both counts were obtained, and that of a week ago reached the minimum. -/
def Judgment.Decisive (j : Judgment) : Prop :=
  ∃ current weekAgo, j.current = some current ∧ j.weekAgo = some weekAgo ∧
    cfg.weekAgoMinCount ≤ weekAgo

/-- The counts are in a ratio below the threshold. -/
def Judgment.Below (j : Judgment) : Prop :=
  ∃ current weekAgo, j.current = some current ∧ j.weekAgo = some weekAgo ∧
    (current : ℚ) / weekAgo < cfg.deviationMinRatio

/-- The hour that `_maybe_close_hour` hands to the rule. -/
def Alerter.closedHour (a : Alerter) (now : Time) : Option Time :=
  a.currentHour.filter fun current ↦ current < hourOf now

/-- The alerter after these calls. -/
def runCalls (calls : List Call) : Alerter :=
  calls.foldl (fun a c ↦ a.observeWindow cfg c.now c.count c.matching) {}

/-- The hour that the call at position `k` judges. -/
def judgedAt (calls : List Call) (k : ℕ) : Option Time :=
  calls[k]?.bind fun c ↦ (runCalls cfg (calls.take k)).closedHour c.now

/-- What the calls judge, in order. -/
def judgments (calls : List Call) : List Judgment :=
  (List.range calls.length).filterMap fun k ↦
    calls[k]?.bind fun c ↦ (judgedAt cfg calls k).map (judge c.count)

/-- The hours of the calls. -/
def hoursOf (calls : List Call) : List Time := calls.map fun c ↦ hourOf c.now

/-- The rule judges every finished hour once, at the first window of a later one, and the reason is
active exactly if the last hour that could be judged was below the threshold. -/
structure JudgesOnce (calls : List Call) : Prop where
  /-- No call raises. -/
  returns : Raising.run cfg calls = some (runCalls cfg calls)
  once : ∀ k l hour, judgedAt cfg calls k = some hour → judgedAt cfg calls l = some hour → k = l
  left : ∀ k hour c, judgedAt cfg calls k = some hour → calls[k]? = some c →
    hour + hours 1 ≤ c.now
  /-- An hour that was the latest one is judged at the first call of a later hour. -/
  complete : ∀ l k hour c, latest ((hoursOf calls).take l) = some hour → l ≤ k →
    calls[k]? = some c → hour < hourOf c.now →
    (∀ j, l ≤ j → j < k → ∀ d, calls[j]? = some d → hourOf d.now ≤ hour) →
    judgedAt cfg calls k = some hour
  reason : (runCalls cfg calls).volumeReason.isSome ↔
    ∃ before j after, judgments cfg calls = before ++ j :: after ∧ j.Decisive cfg ∧
      j.Below cfg ∧ ∀ later ∈ after, ¬later.Decisive cfg

/-! ## A call -/

/-- The reason after a judgment. -/
def Judgment.verdict (j : Judgment) (old : Option VolumeReason) : Option VolumeReason :=
  match j.current, j.weekAgo with
  | some current, some weekAgo =>
    if weekAgo < cfg.weekAgoMinCount then old
    else if (current : ℚ) / weekAgo < cfg.deviationMinRatio then
      some ⟨current, weekAgo, cfg.deviationMinRatio, j.hour⟩
    else none
  | _, _ => old

section

variable {cfg} {a : Alerter} {now : Time} {count : Time → Time → Option ℕ} {hour : Time}

theorem evaluateVolumeRule_eq :
    a.evaluateVolumeRule cfg count hour =
      { a with volumeReason := (judge count hour).verdict cfg a.volumeReason } := by
  rw [Alerter.evaluateVolumeRule, judge, Judgment.verdict]
  dsimp only
  rcases count hour (hour + hours 1) with _ | current
  · rfl
  rcases count (hour - hours (24 * 7)) (hour - hours (24 * 7) + hours 1) with _ | weekAgo
  · rfl
  dsimp only
  split_ifs <;> rfl

theorem maybeCloseHour_eq : a.maybeCloseHour cfg now count =
    { a with
      currentHour := some (a.currentHour.elim (hourOf now) (max · (hourOf now)))
      volumeReason := ((a.closedHour now).map (judge count)).elim a.volumeReason fun j ↦
        j.verdict cfg a.volumeReason } := by
  rw [Alerter.maybeCloseHour, Alerter.closedHour]
  change (match a.currentHour with
    | none => { a with currentHour := some (hourOf now) }
    | some current => if hourOf now ≤ current then a
      else Alerter.evaluateVolumeRule cfg { a with currentHour := some (hourOf now) } count
        current) = _
  rcases hcurrent : a.currentHour with _ | current
  · rfl
  · dsimp only
    rw [Option.filter_some]
    split_ifs with hle hlt hlt
    · exact absurd (of_decide_eq_true hlt) (not_lt.mpr hle)
    · rw [Option.elim_some, max_eq_left hle]
      cases a
      simp only at hcurrent
      rw [hcurrent]
      rfl
    · rw [evaluateVolumeRule_eq, Option.elim_some, max_eq_right (not_le.mp hle).le]
      rfl
    · exact absurd (decide_eq_true (not_le.mp hle)) hlt

theorem observeWindow_spec (a : Alerter) (c : Call) :
    (a.observeWindow cfg c.now c.count c.matching).currentHour =
      some (a.currentHour.elim (hourOf c.now) (max · (hourOf c.now))) ∧
    (a.observeWindow cfg c.now c.count c.matching).volumeReason =
      ((a.closedHour c.now).map (judge c.count)).elim a.volumeReason fun j ↦
        j.verdict cfg a.volumeReason := by
  have hratio (b : Alerter) : (b.evaluateRatioRule cfg c.now).currentHour = b.currentHour ∧
      (b.evaluateRatioRule cfg c.now).volumeReason = b.volumeReason := by
    rw [Alerter.evaluateRatioRule]
    dsimp only
    split
    · exact ⟨rfl, rfl⟩
    · split_ifs <;> exact ⟨rfl, rfl⟩
  -- what the window feeds to the ratio rule leaves the hour and the reason alone
  have hfed (b : Alerter) (hhour : b.currentHour = a.currentHour)
      (hreason : b.volumeReason = a.volumeReason) :
      (((b.maybeCloseHour cfg c.now c.count).evaluateRatioRule cfg c.now).pingState
        cfg).currentHour = some (a.currentHour.elim (hourOf c.now) (max · (hourOf c.now))) ∧
      (((b.maybeCloseHour cfg c.now c.count).evaluateRatioRule cfg c.now).pingState
        cfg).volumeReason = ((a.closedHour c.now).map (judge c.count)).elim a.volumeReason fun j ↦
          j.verdict cfg a.volumeReason := by
    obtain ⟨h₁, h₂⟩ := hratio (b.maybeCloseHour cfg c.now c.count)
    refine ⟨h₁.trans ?_, h₂.trans ?_⟩
    · rw [maybeCloseHour_eq, hhour]
    · rw [maybeCloseHour_eq, Alerter.closedHour, hhour, hreason, Alerter.closedHour]
  unfold Alerter.observeWindow
  cases c.matching with
  | none => exact hfed a rfl rfl
  | some m =>
    dsimp only
    split_ifs
    · exact hfed _ rfl rfl
    · exact hfed a rfl rfl

end

/-! ## No exception -/

section

variable {cfg} {a : Alerter} {now : Time} {count : Time → Time → Option ℕ} {hour : Time}

theorem Raising.evaluateVolumeRule_eq (hmin : 1 ≤ cfg.weekAgoMinCount) :
    Raising.evaluateVolumeRule cfg a count hour = some (a.evaluateVolumeRule cfg count hour) := by
  rw [Raising.evaluateVolumeRule, Alerter.evaluateVolumeRule]
  rcases count hour (hour + hours 1) with _ | current
  · rfl
  rcases count (hour - hours (24 * 7)) (hour - hours (24 * 7) + hours 1) with _ | weekAgo
  · rfl
  dsimp only
  rcases Nat.lt_or_ge weekAgo cfg.weekAgoMinCount with hlt | hge
  · rw [if_pos hlt, if_pos hlt]
  · have hne : weekAgo ≠ 0 := by omega
    rw [if_neg (not_lt.mpr hge), if_neg (not_lt.mpr hge), Raising.divide, if_neg hne,
      Option.map_some, apply_ite some]

theorem Raising.maybeCloseHour_eq (hmin : 1 ≤ cfg.weekAgoMinCount) :
    Raising.maybeCloseHour cfg a now count = some (a.maybeCloseHour cfg now count) := by
  rw [Raising.maybeCloseHour, Alerter.maybeCloseHour]
  rcases a.currentHour with _ | current
  · rfl
  · dsimp only
    rw [Raising.evaluateVolumeRule_eq hmin, apply_ite some]

theorem Raising.observeWindow_eq (hmin : 1 ≤ cfg.weekAgoMinCount) (c : Call) :
    Raising.observeWindow cfg a c = some (a.observeWindow cfg c.now c.count c.matching) := by
  unfold Raising.observeWindow Alerter.observeWindow
  cases c.matching with
  | none => exact congrArg (Option.map _) (Raising.maybeCloseHour_eq hmin)
  | some m => exact congrArg (Option.map _) (Raising.maybeCloseHour_eq hmin)

theorem Raising.run_eq (hmin : 1 ≤ cfg.weekAgoMinCount) (calls : List Call) :
    Raising.run cfg calls = some (runCalls cfg calls) := by
  rw [Raising.run, runCalls]
  generalize ({} : Alerter) = a
  induction calls generalizing a with
  | nil => rfl
  | cons c calls ih =>
    rw [List.foldlM_cons, Raising.observeWindow_eq hmin, List.foldl_cons, ← ih]
    rfl

end

/-! ## A run -/

section

variable {cfg} {calls : List Call} {c : Call}

theorem runCalls_concat : runCalls cfg (calls ++ [c]) =
    (runCalls cfg calls).observeWindow cfg c.now c.count c.matching := List.foldl_append

theorem hoursOf_concat : hoursOf (calls ++ [c]) = hoursOf calls ++ [hourOf c.now] := List.map_append

/-- **The current hour is the latest one.** -/
theorem currentHour_runCalls : (runCalls cfg calls).currentHour = latest (hoursOf calls) := by
  induction calls using List.reverseRecOn with
  | nil => rfl
  | append_singleton calls c ih =>
    rw [runCalls_concat, (observeWindow_spec _ c).1, ih, hoursOf_concat, latest_concat]

/-- **The rule judges what is passed.** -/
theorem judgedAt_iff {k : ℕ} {hour : Time} :
    judgedAt cfg calls k = some hour ↔ Passes (hoursOf calls) k hour := by
  have htake : latest (hoursOf (calls.take k)) = latest ((hoursOf calls).take k) := by
    rw [hoursOf, hoursOf, List.map_take]
  rw [judgedAt, Option.bind_eq_some_iff, Passes]
  simp only [Alerter.closedHour, currentHour_runCalls, htake, Option.filter_eq_some_iff,
    decide_eq_true_eq]
  constructor
  · rintro ⟨c, hc, hlatest, hlt⟩
    refine ⟨hlatest, hourOf c.now, ?_, hlt⟩
    rw [hoursOf, List.getElem?_map, hc]
    rfl
  · rintro ⟨hlatest, x, hx, hlt⟩
    rw [hoursOf, List.getElem?_map] at hx
    obtain ⟨c, hc, rfl⟩ := Option.map_eq_some_iff.mp hx
    exact ⟨c, hc, hlatest, hlt⟩

theorem judgments_concat : judgments cfg (calls ++ [c]) = judgments cfg calls ++
    (((runCalls cfg calls).closedHour c.now).map (judge c.count)).toList := by
  have hlast : (calls ++ [c])[calls.length]? = some c := List.getElem?_concat_length
  rw [judgments, List.length_append, List.length_singleton, List.range_succ,
    List.filterMap_append]
  congr 1
  · refine List.filterMap_congr fun k hk ↦ ?_
    have hk : k < calls.length := List.mem_range.mp hk
    rw [judgedAt, judgedAt, List.getElem?_append_left hk, List.take_append_of_le_length hk.le]
  · rw [List.filterMap_cons, List.filterMap_nil, judgedAt, hlast, List.take_left, Option.bind_some,
      Option.bind_some]
    cases (runCalls cfg calls).closedHour c.now <;> rfl

/-- The reason is the outcome of the judgments one after the other. -/
theorem volumeReason_runCalls : (runCalls cfg calls).volumeReason =
    (judgments cfg calls).foldl (fun old j ↦ j.verdict cfg old) none := by
  induction calls using List.reverseRecOn with
  | nil => rfl
  | append_singleton calls c ih =>
    rw [runCalls_concat, (observeWindow_spec _ c).2, ih, judgments_concat, List.foldl_append]
    cases (runCalls cfg calls).closedHour c.now <;> rfl

/-! ## The last verdict -/

theorem verdict_of_not_decisive {j : Judgment} {old : Option VolumeReason}
    (hj : ¬j.Decisive cfg) : j.verdict cfg old = old := by
  rw [Judgment.verdict]
  rcases hcurrent : j.current with _ | current
  · rfl
  rcases hweekAgo : j.weekAgo with _ | weekAgo
  · rfl
  dsimp only
  rw [if_pos]
  by_contra hlt
  exact hj ⟨current, weekAgo, hcurrent, hweekAgo, not_lt.mp hlt⟩

theorem isSome_verdict_iff {j : Judgment} {old : Option VolumeReason} (hj : j.Decisive cfg) :
    (j.verdict cfg old).isSome ↔ j.Below cfg := by
  obtain ⟨current, weekAgo, hcurrent, hweekAgo, hle⟩ := hj
  have hbelow : j.Below cfg ↔ (current : ℚ) / weekAgo < cfg.deviationMinRatio := by
    constructor
    · rintro ⟨current', weekAgo', hcurrent', hweekAgo', hlt⟩
      obtain rfl := Option.some_inj.mp (hcurrent.symm.trans hcurrent')
      obtain rfl := Option.some_inj.mp (hweekAgo.symm.trans hweekAgo')
      exact hlt
    · exact fun hlt ↦ ⟨current, weekAgo, hcurrent, hweekAgo, hlt⟩
  rw [hbelow, Judgment.verdict, hcurrent, hweekAgo]
  dsimp only
  rw [if_neg (not_lt.mpr hle)]
  split_ifs with hlt
  · exact iff_of_true rfl hlt
  · exact iff_of_false Bool.false_ne_true hlt

theorem isSome_foldl_verdict (js : List Judgment) :
    (js.foldl (fun old j ↦ j.verdict cfg old) none).isSome ↔
      ∃ before j after, js = before ++ j :: after ∧ j.Decisive cfg ∧ j.Below cfg ∧
        ∀ later ∈ after, ¬later.Decisive cfg := by
  induction js using List.reverseRecOn with
  | nil =>
    refine iff_of_false Bool.false_ne_true ?_
    rintro ⟨before, j, after, hsplit, -⟩
    exact absurd hsplit.symm (List.append_ne_nil_of_right_ne_nil _ (List.cons_ne_nil _ _))
  | append_singleton js last ih =>
    rw [List.foldl_append, List.foldl_cons, List.foldl_nil]
    -- a judgment that could be made decides alone; one that could not leaves the reason as it was
    by_cases hlast : last.Decisive cfg
    · rw [isSome_verdict_iff hlast]
      constructor
      · exact fun hbelow ↦ ⟨js, last, [], rfl, hlast, hbelow, fun _ h ↦ absurd h List.not_mem_nil⟩
      · rintro ⟨before, j, after, hsplit, -, hbelow, hafter⟩
        rcases List.eq_nil_or_concat after with rfl | ⟨after, final, rfl⟩
        · rw [(List.append_singleton_inj.mp hsplit).2]
          exact hbelow
        · rw [List.concat_eq_append] at hafter hsplit
          rw [← List.cons_append, ← List.append_assoc] at hsplit
          obtain rfl := (List.append_singleton_inj.mp hsplit).2
          exact absurd hlast (hafter last List.mem_concat_self)
    · rw [verdict_of_not_decisive hlast, ih]
      constructor
      · rintro ⟨before, j, after, rfl, hj, hbelow, hafter⟩
        refine ⟨before, j, after ++ [last], List.append_assoc _ _ _, hj, hbelow, ?_⟩
        rw [List.forall_mem_append, List.forall_mem_singleton]
        exact ⟨hafter, hlast⟩
      · rintro ⟨before, j, after, hsplit, hj, hbelow, hafter⟩
        rcases List.eq_nil_or_concat after with rfl | ⟨after, final, rfl⟩
        · rw [(List.append_singleton_inj.mp hsplit).2] at hlast
          exact absurd hj hlast
        · rw [List.concat_eq_append] at hafter hsplit
          rw [← List.cons_append, ← List.append_assoc] at hsplit
          refine ⟨before, j, after, (List.append_singleton_inj.mp hsplit).1, hj, hbelow, ?_⟩
          exact fun later hlater ↦ hafter later (List.mem_append_left _ hlater)

end

/-! ## The rule -/

/-- What is later than the start of an hour, by the starts of hours, is an hour later. -/
theorem add_le_of_lt_hourOf {hour now now' : Time} (hhour : hour = hourOf now')
    (hlt : hour < hourOf now) : hour + hours 1 ≤ now := by
  rw [hourOf] at hhour hlt
  have hpos : 0 < hours 1 := by decide
  rw [hhour] at hlt ⊢
  have hquot : now' / hours 1 + 1 ≤ now / hours 1 := lt_of_mul_lt_mul_right hlt hpos.le
  calc now' / hours 1 * hours 1 + hours 1 = (now' / hours 1 + 1) * hours 1 := by
        rw [add_mul, one_mul]
    _ ≤ now / hours 1 * hours 1 := mul_le_mul_of_nonneg_right hquot hpos.le
    _ ≤ now := Int.ediv_mul_le _ hpos.ne'

/-- **The volume rule judges every finished hour once and remembers the last verdict.** -/
theorem judgesOnce (hmin : 1 ≤ cfg.weekAgoMinCount) (calls : List Call) :
    JudgesOnce cfg calls where
  returns := Raising.run_eq hmin calls
  once k l hour hk hl := (judgedAt_iff.mp hk).unique (judgedAt_iff.mp hl)
  left k hour c hk hc := by
    obtain ⟨hlatest, x, hx, hlt⟩ := judgedAt_iff.mp hk
    have hmem := List.mem_of_mem_take (latest_eq_some_iff.mp hlatest).1
    obtain ⟨c', -, hhour⟩ := List.mem_map.mp hmem
    rw [hoursOf, List.getElem?_map, hc] at hx
    obtain rfl := Option.some_inj.mp hx
    exact add_le_of_lt_hourOf hhour.symm hlt
  complete l k hour c hlatest hlk hc hlt hfirst := by
    refine judgedAt_iff.mpr (passes_of_first hlatest hlk ?_ hlt ?_)
    · rw [hoursOf, List.getElem?_map, hc]
      rfl
    · intro j hlj hjk y hy
      rw [hoursOf, List.getElem?_map] at hy
      obtain ⟨d, hd, rfl⟩ := Option.map_eq_some_iff.mp hy
      exact hfirst j hlj hjk d hd
  reason := by
    rw [volumeReason_runCalls]
    exact isSome_foldl_verdict _

/-- With the defaults of the constructor, over a clock that steps back. -/
theorem judgesOnce_defaults :
    1 ≤ ({ url := none } : Config).weekAgoMinCount ∧
      JudgesOnce { url := none }
        [⟨0, none, fun _ _ ↦ some 30⟩, ⟨hours 1, none, fun _ _ ↦ none⟩,
          ⟨0, none, fun _ _ ↦ some 30⟩, ⟨hours 2, none, fun _ _ ↦ some 30⟩] :=
  ⟨by decide, judgesOnce _ (by decide) _⟩

end GtfsStream.Alerting
