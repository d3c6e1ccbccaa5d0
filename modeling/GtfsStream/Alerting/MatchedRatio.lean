import GtfsStream.Alerting.Alerter
import Mathlib.Algebra.BigOperators.Group.List.Basic
import Mathlib.Data.List.Chain
import Mathlib.Data.List.TakeWhile
import Mathlib.Tactic.Linarith

/-!
# When the matched-ratio alert fires

The rule only judges a window whose oldest sample reaches back to its start, and the window itself
is cut at that very start. So both tests hold together only for a call with a sample exactly 30
minutes before it, to the microsecond. Every other call leaves the state as it was, and the alert
shows the verdict of the last call that was judged.

## The argument

The samples are pruned, so what the rule sees has to be led back to the calls. The alerter holds
every sample that a later call can still see, and the samples of its window are those of the calls
of the last 30 minutes. A call whose oldest sample is later than the start of the window is not
judged; one with a sample at the start is judged by the ratio over the whole window. Call by call
the reason is then active exactly if the last verdict was below the threshold, and that verdict is
compared with a collapse or a recovery that has lasted for the length of the window.
-/

open GtfsStream.Analytics (MatchingStats)

namespace GtfsStream.Alerting

/-- A call of `observe_window` with the statistics of a window, and what the deviation counts are
at that moment. -/
structure Observation where
  now : Time
  stats : MatchingStats
  count : Time → Time → Option ℕ := fun _ _ ↦ none

def Observation.sample (o : Observation) : Sample :=
  ⟨o.now, o.stats.matchedPings, o.stats.totalPings⟩

def Alerter.observe (cfg : Config) (a : Alerter) (o : Observation) : Alerter :=
  a.observeWindow cfg o.now o.count (some o.stats)

/-- The alerter after these calls. -/
def run (cfg : Config) (obs : List Observation) : Alerter := obs.foldl (Alerter.observe cfg) {}

theorem run_concat (cfg : Config) (obs : List Observation) (o : Observation) :
    run cfg (obs ++ [o]) = (run cfg obs).observe cfg o := List.foldl_append

/-- The matched-ratio reason is active and, where there is a check to ping, the last ping went to
`/fail` with the alerts. -/
def Alerter.Fires (cfg : Config) (a : Alerter) : Prop :=
  (∃ r, Alert.ratio r ∈ a.activeAlerts) ∧ ∀ target, checkUrl cfg.url = some target →
    a.pings.getLast? = some (target ++ "/fail", a.activeAlerts)

/-- The matched-ratio reason is not active. -/
def Alerter.Cleared (a : Alerter) : Prop := ∀ r, Alert.ratio r ∉ a.activeAlerts

/-- Calls at strictly increasing times, each with pings, and one in every ten minutes. -/
structure Regular (obs : List Observation) : Prop where
  increasing : obs.Pairwise fun a b ↦ a.now < b.now
  pings : ∀ o ∈ obs, 0 < o.stats.totalPings
  dense : obs.IsChain fun a b ↦ b.now ≤ a.now + minutes 10

/-- The calls of the 30 minutes up to `now`. -/
def trailing (obs : List Observation) (now : Time) : List Observation :=
  obs.filter fun o ↦ now - minutes matchedRatioWindowMinutes ≤ o.now ∧ o.now ≤ now

/-- The share of matched pings over the 30 minutes up to `now`. -/
def matchedRatio (obs : List Observation) (now : Time) : ℚ :=
  (((trailing obs now).map fun o ↦ o.stats.matchedPings).sum : ℕ) /
    (((trailing obs now).map fun o ↦ o.stats.totalPings).sum : ℕ)

/-- The calls up to now have gone on for 30 minutes since `t₀`, and the samples since then all
satisfy `p`. -/
structure Since (p : MatchingStats → Prop) (t₀ : Time) (obs : List Observation) : Prop where
  reaches : ∃ o ∈ obs, t₀ + minutes matchedRatioWindowMinutes ≤ o.now
  starts : ∃ o ∈ obs, o.now ≤ t₀ + minutes 10
  holds : ∀ o ∈ obs, t₀ ≤ o.now → p o.stats

/-- The share of matched pings of one window is below `θ`. -/
def Below (θ : ℚ) (m : MatchingStats) : Prop := (m.matchedPings : ℚ) / m.totalPings < θ

/-- A collapse that has lasted 30 minutes fires the alert, and a recovery that has lasted 30
minutes clears it. -/
def FollowsRatio (cfg : Config) (obs : List Observation) : Prop :=
  (∀ t₀, Since (Below cfg.matchedRatioThreshold) t₀ obs → (run cfg obs).Fires cfg) ∧
    ∀ t₀, Since (fun m ↦ ¬Below cfg.matchedRatioThreshold m) t₀ obs → (run cfg obs).Cleared

/-- There is a sample exactly 30 minutes before `now`. -/
def Covered (obs : List Observation) (now : Time) : Prop :=
  ∃ o ∈ obs, o.now = now - minutes matchedRatioWindowMinutes

/-- There is a call with a sample exactly 30 minutes before it, and over the 30 minutes up to the
last such call the share of matched pings is below `θ`. -/
def LastVerdictBelow (θ : ℚ) (obs : List Observation) : Prop :=
  ∃ c ∈ obs, Covered obs c.now ∧ matchedRatio obs c.now < θ ∧
    ∀ d ∈ obs, c.now < d.now → ¬Covered obs d.now

/-! ## One more call -/

section

variable {obs : List Observation} {o : Observation}

theorem window_pos : 0 < minutes matchedRatioWindowMinutes := by decide

theorem Regular.of_concat (h : Regular (obs ++ [o])) : Regular obs ∧ ∀ c ∈ obs, c.now < o.now := by
  obtain ⟨hinc, hpings, hdense⟩ := h
  rw [List.pairwise_append] at hinc
  refine ⟨⟨hinc.1, fun c hc ↦ hpings c (List.mem_append_left _ hc), ?_⟩, ?_⟩
  · exact (List.isChain_append.mp hdense).1
  · exact fun c hc ↦ hinc.2.2 c hc o List.mem_cons_self

theorem trailing_concat {now : Time} (h : now < o.now) :
    trailing (obs ++ [o]) now = trailing obs now := by
  rw [trailing, List.filter_append, List.filter_singleton, trailing]
  simp [not_le.mpr h]

theorem covered_concat {now : Time} (h : now ≤ o.now) :
    Covered (obs ++ [o]) now ↔ Covered obs now := by
  constructor
  · rintro ⟨c, hc, hnow⟩
    refine ⟨c, (List.mem_append.mp hc).resolve_right fun hco ↦ ?_, hnow⟩
    rw [List.mem_singleton.mp hco] at hnow
    linarith [window_pos]
  · rintro ⟨c, hc, hnow⟩
    exact ⟨c, List.mem_append_left _ hc, hnow⟩

/-- A call with a sample exactly 30 minutes before it gives the last verdict. -/
theorem lastVerdictBelow_concat_of_covered {θ : ℚ} (h : Regular (obs ++ [o]))
    (hcov : Covered (obs ++ [o]) o.now) :
    LastVerdictBelow θ (obs ++ [o]) ↔ matchedRatio (obs ++ [o]) o.now < θ := by
  obtain ⟨-, hlt⟩ := h.of_concat
  constructor
  · rintro ⟨c, hc, -, hbelow, hlast⟩
    rcases List.mem_append.mp hc with hc | hc
    · exact absurd hcov (hlast o (by simp) (hlt c hc))
    · rwa [List.mem_singleton.mp hc] at hbelow
  · intro hbelow
    refine ⟨o, by simp, hcov, hbelow, fun d hd hod ↦ ?_⟩
    rcases List.mem_append.mp hd with hd | hd
    · exact absurd (hlt d hd) (not_lt.mpr hod.le)
    · rw [List.mem_singleton.mp hd] at hod
      exact absurd hod (lt_irrefl _)

theorem lastVerdictBelow_concat_of_not_covered {θ : ℚ} (h : Regular (obs ++ [o]))
    (hcov : ¬Covered (obs ++ [o]) o.now) :
    LastVerdictBelow θ (obs ++ [o]) ↔ LastVerdictBelow θ obs := by
  obtain ⟨-, hlt⟩ := h.of_concat
  have hratio {c : Observation} (hc : c ∈ obs) :
      matchedRatio (obs ++ [o]) c.now = matchedRatio obs c.now := by
    rw [matchedRatio, matchedRatio, trailing_concat (hlt c hc)]
  have hcovered {c : Observation} (hc : c ∈ obs) :
      Covered (obs ++ [o]) c.now ↔ Covered obs c.now := covered_concat (hlt c hc).le
  constructor
  · rintro ⟨c, hc, hcc, hbelow, hlast⟩
    have hco : c ∈ obs := by
      refine (List.mem_append.mp hc).resolve_right fun hco ↦ hcov ?_
      rwa [List.mem_singleton.mp hco] at hcc
    refine ⟨c, hco, (hcovered hco).mp hcc, hratio hco ▸ hbelow, fun d hd hcd ↦ ?_⟩
    rw [← hcovered hd]
    exact hlast d (List.mem_append_left _ hd) hcd
  · rintro ⟨c, hc, hcc, hbelow, hlast⟩
    refine ⟨c, List.mem_append_left _ hc, (hcovered hc).mpr hcc, (hratio hc).symm ▸ hbelow,
      fun d hd hcd ↦ ?_⟩
    rcases List.mem_append.mp hd with hd | hd
    · rw [hcovered hd]
      exact hlast d hd hcd
    · rwa [List.mem_singleton.mp hd]

end

/-! ## The samples the rule sees -/

theorem trailing_of_covered {before after : List Observation} {c : Observation} {now : Time}
    (h : Regular (before ++ c :: after)) (hc : c.now = now - minutes matchedRatioWindowMinutes)
    (hle : ∀ d ∈ before ++ c :: after, d.now ≤ now) :
    trailing (before ++ c :: after) now = c :: after := by
  have hinc := List.pairwise_append.mp h.increasing
  have hafter := List.pairwise_cons.mp hinc.2.1
  have hbefore : before.filter (fun d ↦
      now - minutes matchedRatioWindowMinutes ≤ d.now ∧ d.now ≤ now) = [] := by
    refine List.filter_eq_nil_iff.mpr fun d hd ↦ ?_
    have := hinc.2.2 d hd c List.mem_cons_self
    simp only [decide_eq_true_eq, not_and, ← hc]
    exact fun hcd ↦ absurd this (not_lt.mpr hcd)
  rw [trailing, List.filter_append, hbefore, List.nil_append]
  refine List.filter_eq_self.mpr fun d hd ↦ decide_eq_true ⟨?_, ?_⟩
  · rw [← hc]
    rcases List.mem_cons.mp hd with hdc | hd
    · exact (congrArg Observation.now hdc).ge
    · exact (hafter.1 d hd).le
  · exact hle d (List.mem_append_right _ hd)

/-- With a call in every ten minutes, three samples lie in a window that is covered. -/
theorem three_le_length {c : Observation} {after : List Observation} {now : Time}
    (hdense : (c :: after).IsChain fun a b ↦ b.now ≤ a.now + minutes 10)
    (hc : c.now = now - minutes matchedRatioWindowMinutes)
    (hlast : ∃ o ∈ c :: after, o.now = now) : minRatioSamples ≤ (c :: after).length := by
  obtain ⟨o, ho, rfl⟩ := hlast
  have hwindow : minutes matchedRatioWindowMinutes = 3 * minutes 10 := by decide
  have hten : 0 < minutes 10 := by decide
  match after, ho, hdense with
  | [], ho, _ =>
    rw [List.mem_singleton.mp ho] at hc
    linarith
  | [d], ho, hdense =>
    have hstep := List.isChain_pair.mp hdense
    rcases List.mem_cons.mp ho with rfl | ho
    · linarith
    · rw [List.mem_singleton.mp ho] at hc
      linarith
  | _ :: _ :: _, _, _ =>
    rw [minRatioSamples, List.length_cons, List.length_cons, List.length_cons]
    omega

/-- Dropping samples from before a bound keeps the samples from a later bound on. -/
theorem filter_dropWhile {α : Type*} {p q : α → Bool} (h : ∀ x, p x → q x = false) (l : List α) :
    (l.dropWhile p).filter q = l.filter q := by
  have hnil : (l.takeWhile p).filter q = [] :=
    List.filter_eq_nil_iff.mpr fun x hx ↦ by rw [h x (List.mem_takeWhile_imp hx)]; exact nofun
  conv_rhs => rw [← List.takeWhile_append_dropWhile (p := p) (l := l), List.filter_append, hnil]
  rw [List.nil_append]

/-! ## One call -/

namespace Alerter

variable {cfg : Config} {obs : List Observation} {a : Alerter} {o : Observation} {now : Time}

theorem evaluateVolumeRule_ratio (count : Time → Time → Option ℕ) (hour : Time) :
    (a.evaluateVolumeRule cfg count hour).ratioSamples = a.ratioSamples ∧
      (a.evaluateVolumeRule cfg count hour).ratioReason = a.ratioReason := by
  unfold evaluateVolumeRule
  dsimp only
  split
  · split_ifs <;> exact ⟨rfl, rfl⟩
  · exact ⟨rfl, rfl⟩

theorem maybeCloseHour_ratio (count : Time → Time → Option ℕ) :
    (a.maybeCloseHour cfg now count).ratioSamples = a.ratioSamples ∧
      (a.maybeCloseHour cfg now count).ratioReason = a.ratioReason := by
  unfold maybeCloseHour
  dsimp only
  split
  · exact ⟨rfl, rfl⟩
  · split_ifs
    · exact ⟨rfl, rfl⟩
    · exact evaluateVolumeRule_ratio count _

theorem evaluateRatioRule_ratioSamples :
    (a.evaluateRatioRule cfg now).ratioSamples = a.ratioSamples := by
  unfold evaluateRatioRule
  dsimp only
  split
  · rfl
  · split_ifs <;> rfl

/-- Without a sample at the very start of the window, or before it, nothing is judged. -/
theorem evaluateRatioRule_of_later (h : ∀ s ∈ a.ratioSamples,
    now - minutes cfg.ratioWindowMinutes ≤ s.observedAt →
      now - s.observedAt < minutes cfg.ratioWindowMinutes) : a.evaluateRatioRule cfg now = a := by
  unfold evaluateRatioRule
  dsimp only
  split
  · rfl
  · next oldest rest htrail =>
    have hmem : oldest ∈ a.ratioSamples.filter
        fun s ↦ now - minutes cfg.ratioWindowMinutes ≤ s.observedAt := by
      rw [htrail]
      exact List.mem_cons_self
    obtain ⟨hold, hle⟩ := List.mem_filter.mp hmem
    split_ifs with hlen hcov
    · rfl
    · rfl
    · exact absurd (h oldest hold (of_decide_eq_true hle)) hcov
    · exact absurd (h oldest hold (of_decide_eq_true hle)) hcov
    · exact absurd (h oldest hold (of_decide_eq_true hle)) hcov

/-- A window with a sample at its start and enough samples is judged by its ratio. -/
theorem evaluateRatioRule_of_judged {oldest : Sample} {rest : List Sample}
    (htrail : a.ratioSamples.filter
      (fun s ↦ now - minutes cfg.ratioWindowMinutes ≤ s.observedAt) = oldest :: rest)
    (hlen : minRatioSamples ≤ (oldest :: rest).length)
    (hcov : oldest.observedAt = now - minutes cfg.ratioWindowMinutes)
    (htotal : 0 < ((oldest :: rest).map Sample.total).sum) :
    (a.evaluateRatioRule cfg now).ratioReason.isSome ↔
      (((oldest :: rest).map Sample.matched).sum : ℚ) / ((oldest :: rest).map Sample.total).sum <
        cfg.matchedRatioThreshold := by
  have hreach : ¬now - oldest.observedAt < minutes cfg.ratioWindowMinutes := by
    rw [hcov]
    exact not_lt.mpr (by linarith)
  unfold evaluateRatioRule
  dsimp only
  rw [htrail]
  dsimp only
  rw [if_neg (not_lt.mpr hlen), if_neg hreach, if_neg htotal.ne']
  split_ifs with hratio
  · exact ⟨fun _ ↦ hratio, fun _ ↦ rfl⟩
  · exact ⟨nofun, fun hlt ↦ absurd hlt hratio⟩

/-- The alerter with the sample of a window with pings. -/
def fed (a : Alerter) (o : Observation) : Alerter :=
  pruneRatioSamples
    { a with
      cumulative := a.cumulative + o.stats
      ratioSamples := a.ratioSamples ++ [o.sample] } o.now

theorem observe_eq (h : 0 < o.stats.totalPings) :
    a.observe cfg o =
      (((a.fed o).maybeCloseHour cfg o.now o.count).evaluateRatioRule cfg o.now).pingState cfg := by
  rw [observe, observeWindow, if_pos h]
  rfl

/-- The alerter has every sample that a later call can still see. -/
def Tracks (obs : List Observation) (a : Alerter) : Prop :=
  ∀ t, (∀ o ∈ obs, o.now - minutes sampleRetentionMinutes ≤ t) →
    a.ratioSamples.filter (fun s ↦ t ≤ s.observedAt) =
      (obs.map Observation.sample).filter fun s ↦ t ≤ s.observedAt

theorem Tracks.fed (h : Tracks obs a) (hle : ∀ c ∈ obs, c.now < o.now) :
    Tracks (obs ++ [o]) (a.fed o) := by
  intro t ht
  have hto : o.now - minutes sampleRetentionMinutes ≤ t := ht o (by simp)
  have hbefore := h t fun c hc ↦ (sub_le_sub_right (hle c hc).le _).trans hto
  rw [Alerter.fed, pruneRatioSamples, filter_dropWhile, List.filter_append, hbefore,
    List.map_append,
    List.filter_append]
  · rfl
  · intro s hs
    have := of_decide_eq_true hs
    exact decide_eq_false (not_le.mpr (this.trans_le hto))

/-- What the rule sees are the samples of the calls of the last 30 minutes. -/
theorem Tracks.trailing (h : Tracks obs a) (hle : ∀ c ∈ obs, c.now ≤ now) :
    a.ratioSamples.filter (fun s ↦ now - minutes matchedRatioWindowMinutes ≤ s.observedAt) =
      (trailing obs now).map Observation.sample := by
  have hretain : minutes matchedRatioWindowMinutes ≤ minutes sampleRetentionMinutes := by decide
  rw [h _ fun c hc ↦ sub_le_sub (hle c hc) hretain, List.filter_map, Alerting.trailing]
  congr 1
  refine List.filter_congr fun c hc ↦ decide_eq_decide.mpr ?_
  exact ⟨fun hlow ↦ ⟨hlow, hle c hc⟩, And.left⟩

/-- The alerter tracks the samples, and its reason is the last verdict. -/
structure Follows (θ : ℚ) (obs : List Observation) (a : Alerter) : Prop where
  tracks : Tracks obs a
  verdict : a.ratioReason.isSome ↔ LastVerdictBelow θ obs

theorem follows_nil (θ : ℚ) : Follows θ [] {} :=
  ⟨fun _ _ ↦ rfl, ⟨nofun, fun ⟨_, hc, _⟩ ↦ absurd hc List.not_mem_nil⟩⟩

/-- The verdict of a call with a sample exactly 30 minutes before it. -/
theorem judged_iff (hwin : cfg.ratioWindowMinutes = matchedRatioWindowMinutes)
    (h : Regular obs) (htracks : Tracks obs a) (hmem : ∃ o ∈ obs, o.now = now)
    (hle : ∀ c ∈ obs, c.now ≤ now) (hcov : Covered obs now) :
    (a.evaluateRatioRule cfg now).ratioReason.isSome ↔
      matchedRatio obs now < cfg.matchedRatioThreshold := by
  obtain ⟨c, hc, hnow⟩ := hcov
  obtain ⟨before, after, rfl⟩ := List.append_of_mem hc
  have hbefore := (List.pairwise_append.mp h.increasing).2.2
  have htrail := trailing_of_covered h hnow hle
  have hsees := htracks.trailing hle
  rw [htrail, List.map_cons, ← hwin] at hsees
  -- the call itself lies in the window, not before its start
  have hlast : ∃ o ∈ c :: after, o.now = now := by
    obtain ⟨o, ho, hon⟩ := hmem
    refine ⟨o, (List.mem_append.mp ho).resolve_left fun hob ↦ ?_, hon⟩
    have := hbefore o hob c List.mem_cons_self
    linarith [window_pos]
  have hdense := (List.isChain_append.mp h.dense).2.1
  have hlen := three_le_length hdense hnow hlast
  have htotal : 0 < ((c.sample :: after.map Observation.sample).map Sample.total).sum := by
    rw [List.map_cons, List.sum_cons]
    exact Nat.add_pos_left (h.pings c (by simp)) _
  have hjudged := evaluateRatioRule_of_judged hsees (by simpa using hlen) (by rw [hwin]; exact hnow)
    htotal
  rw [hjudged, matchedRatio, htrail, ← List.map_cons, List.map_map, List.map_map]
  rfl

theorem evaluateRatioRule_of_not_covered (hwin : cfg.ratioWindowMinutes = matchedRatioWindowMinutes)
    (htracks : Tracks obs a) (hle : ∀ c ∈ obs, c.now ≤ now) (hcov : ¬Covered obs now) :
    a.evaluateRatioRule cfg now = a := by
  refine evaluateRatioRule_of_later fun s hs hlow ↦ ?_
  rw [hwin] at hlow ⊢
  have hmem : s ∈ (Alerting.trailing obs now).map Observation.sample := by
    rw [← htracks.trailing hle]
    exact List.mem_filter.mpr ⟨hs, decide_eq_true hlow⟩
  obtain ⟨c, hc, rfl⟩ := List.mem_map.mp hmem
  have hne : c.now ≠ now - minutes matchedRatioWindowMinutes :=
    fun hnow ↦ hcov ⟨c, (List.mem_filter.mp hc).1, hnow⟩
  have hlt : now - minutes matchedRatioWindowMinutes < c.now := lt_of_le_of_ne hlow (Ne.symm hne)
  change now - c.now < _
  linarith

theorem Follows.observe (hwin : cfg.ratioWindowMinutes = matchedRatioWindowMinutes)
    (h : Regular (obs ++ [o])) (hf : Follows cfg.matchedRatioThreshold obs a) :
    Follows cfg.matchedRatioThreshold (obs ++ [o]) (a.observe cfg o) := by
  obtain ⟨-, hlt⟩ := h.of_concat
  have hle : ∀ c ∈ obs ++ [o], c.now ≤ o.now := by
    intro c hc
    rcases List.mem_append.mp hc with hc | hc
    · exact (hlt c hc).le
    · rw [List.mem_singleton.mp hc]
  have hclosed := @maybeCloseHour_ratio cfg (a.fed o) o.now o.count
  generalize hb : (a.fed o).maybeCloseHour cfg o.now o.count = b at hclosed
  have htracks : Tracks (obs ++ [o]) b := by
    intro t ht
    rw [hclosed.1]
    exact hf.tracks.fed hlt t ht
  rw [observe_eq (h.pings o (by simp)), hb]
  constructor
  · intro t ht
    rw [pingState, evaluateRatioRule_ratioSamples]
    exact htracks t ht
  · rw [pingState]
    by_cases hcov : Covered (obs ++ [o]) o.now
    · rw [lastVerdictBelow_concat_of_covered h hcov]
      exact judged_iff hwin h htracks ⟨o, by simp, rfl⟩ hle hcov
    · rw [lastVerdictBelow_concat_of_not_covered h hcov,
        evaluateRatioRule_of_not_covered hwin htracks hle hcov, ← hf.verdict, hclosed.2]
      rfl

end Alerter

/-! ## Whole runs -/

section

variable {cfg : Config} {obs : List Observation}

theorem follows_run (hwin : cfg.ratioWindowMinutes = matchedRatioWindowMinutes)
    (h : Regular obs) : (run cfg obs).Follows cfg.matchedRatioThreshold obs := by
  induction obs using List.reverseRecOn with
  | nil => exact Alerter.follows_nil _
  | append_singleton obs o ih =>
    rw [run_concat]
    exact (ih h.of_concat.1).observe hwin h

theorem ratio_mem_activeAlerts (a : Alerter) :
    (∃ r, Alert.ratio r ∈ a.activeAlerts) ↔ a.ratioReason.isSome := by
  rw [Alerter.activeAlerts]
  cases a.ratioReason <;> cases a.volumeReason <;> simp

theorem getLast?_pings_run {target : String} (hurl : checkUrl cfg.url = some target)
    (hne : obs ≠ []) (halert : (run cfg obs).activeAlerts ≠ []) :
    (run cfg obs).pings.getLast? = some (target ++ "/fail", (run cfg obs).activeAlerts) := by
  obtain ⟨before, o, rfl⟩ := (List.eq_nil_or_concat' obs).resolve_left hne
  rw [run_concat, Alerter.observe, Alerter.observeWindow] at halert ⊢
  generalize Alerter.evaluateRatioRule cfg _ o.now = b at halert ⊢
  have hactive : (b.pingState cfg).activeAlerts = b.activeAlerts := rfl
  rw [hactive] at halert ⊢
  rw [Alerter.pingState, if_neg halert, ping, hurl, List.getLast?_concat]

theorem fires_iff (hwin : cfg.ratioWindowMinutes = matchedRatioWindowMinutes)
    (h : Regular obs) :
    (run cfg obs).Fires cfg ↔ LastVerdictBelow cfg.matchedRatioThreshold obs := by
  have hverdict := (follows_run hwin h).verdict
  constructor
  · rintro ⟨hactive, -⟩
    rwa [ratio_mem_activeAlerts, hverdict] at hactive
  · intro hbelow
    have hactive := (ratio_mem_activeAlerts _).mpr (hverdict.mpr hbelow)
    obtain ⟨c, hc, -⟩ := hbelow
    obtain ⟨r, hr⟩ := hactive
    refine ⟨⟨r, hr⟩, fun target hurl ↦ ?_⟩
    exact getLast?_pings_run hurl (List.ne_nil_of_mem hc) (List.ne_nil_of_mem hr)

theorem cleared_iff (hwin : cfg.ratioWindowMinutes = matchedRatioWindowMinutes)
    (h : Regular obs) :
    (run cfg obs).Cleared ↔ ¬LastVerdictBelow cfg.matchedRatioThreshold obs := by
  rw [← (follows_run hwin h).verdict, ← ratio_mem_activeAlerts, not_exists, Alerter.Cleared]

/-- **The alert follows the ratio exactly where the last verdict does**: a collapse is noticed only
at a call with a sample exactly 30 minutes before it. -/
theorem followsRatio_iff (hwin : cfg.ratioWindowMinutes = matchedRatioWindowMinutes)
    (h : Regular obs) :
    FollowsRatio cfg obs ↔
      (∀ t₀, Since (Below cfg.matchedRatioThreshold) t₀ obs →
        LastVerdictBelow cfg.matchedRatioThreshold obs) ∧
      ∀ t₀, Since (fun m ↦ ¬Below cfg.matchedRatioThreshold m) t₀ obs →
        ¬LastVerdictBelow cfg.matchedRatioThreshold obs := by
  rw [FollowsRatio, fires_iff hwin h, cleared_iff hwin h]

/-- Windows with pings of which none is matched, at these times. -/
def unmatchedAt (times : List ℕ) : List Observation :=
  times.map fun n ↦ { now := minutes n, stats := ⟨10, 0, 0, 10, 0⟩ }

theorem matchedRatio_unmatchedAt (times : List ℕ) (now : Time) :
    matchedRatio (unmatchedAt times) now = 0 := by
  have hzero : ((trailing (unmatchedAt times) now).map fun o ↦ o.stats.matchedPings).sum = 0 := by
    refine List.sum_eq_zero fun n hn ↦ ?_
    obtain ⟨o, ho, rfl⟩ := List.mem_map.mp hn
    obtain ⟨_, _, rfl⟩ := List.mem_map.mp (List.mem_filter.mp ho).1
    rfl
  rw [matchedRatio, hzero, Nat.cast_zero, zero_div]

theorem followsRatio_tenMinutes :
    FollowsRatio { url := some "https://hc-ping.com/check/" } (unmatchedAt [0, 10, 20, 30]) := by
  refine (followsRatio_iff rfl ⟨by decide, by decide, by decide⟩).mpr ⟨fun _ _ ↦ ?_, fun _ hr ↦ ?_⟩
  · have hlast : 30 ∈ [0, 10, 20, 30] := by decide
    refine ⟨_, List.mem_map_of_mem hlast, ?_, ?_, ?_⟩
    · exact ⟨_, List.mem_cons_self, rfl⟩
    · simp [matchedRatio_unmatchedAt, matchedRatioThreshold]
    · have hnone : ∀ d ∈ unmatchedAt [0, 10, 20, 30], ¬minutes 30 < d.now := by decide
      exact fun d hd hlt ↦ absurd hlt (hnone d hd)
  · obtain ⟨o, ho, hreach⟩ := hr.reaches
    have := hr.holds o ho (by linarith [window_pos])
    simp [unmatchedAt] at ho
    rcases ho with rfl | rfl | rfl | rfl <;> simp [Below, matchedRatioThreshold] at this

/-- Calls every seven minutes have no sample exactly 30 minutes before any of them. -/
theorem not_followsRatio_sevenMinutes :
    Regular (unmatchedAt [0, 7, 14, 21, 28, 35]) ∧
      ¬FollowsRatio { url := some "https://hc-ping.com/check/" }
        (unmatchedAt [0, 7, 14, 21, 28, 35]) := by
  have hregular : Regular (unmatchedAt [0, 7, 14, 21, 28, 35]) :=
    ⟨by decide, by decide, by decide⟩
  refine ⟨hregular, fun ⟨hfires, _⟩ ↦ ?_⟩
  have hsince : Since (Below matchedRatioThreshold) 0 (unmatchedAt [0, 7, 14, 21, 28, 35]) := by
    refine ⟨?_, ?_, ?_⟩
    · decide
    · decide
    · simp [unmatchedAt, Below, matchedRatioThreshold]
  obtain ⟨c, hc, ⟨d, hd, hnow⟩, -⟩ := (fires_iff rfl hregular).mp (hfires 0 hsince)
  revert c d
  decide

end

end GtfsStream.Alerting
