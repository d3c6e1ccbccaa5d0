import GtfsStream.Archive.DailyLoop

/-!
# The deadlines of the daily loop

What is waiting for the compactor is done with by a certain time. Let `μ` be a time after the pass
at the start is over. The pass that is running at `μ`, if there is one, comes to its end before the
boundary that follows, so the loop wakes at that boundary, and the pass it begins then does what was
waiting at `μ`.

The argument is the same for a day that is to be published and for raw files that are to be removed,
and is given once, for a condition `W` that a pass makes into `D`.
-/

namespace GtfsStream.Archive

open Program

variable {duck : DuckDB} {keepRawDays : ℤ} {pace : Pace} {day : DayKey} {s s' : Tiers}

namespace DailyLoop

variable {L L' : DailyLoop} {t₀ μ : ℤ} {W D T : Tiers → Prop}

/-! ## What holds in every run -/

/-- What the compactor has still to do of its pass. -/
def compactor (L : DailyLoop) : CompactIO ℕ :=
  match L.phase with
  | .passing _ pass => pass
  | .sleeping _ => done 0

/-- Both processes are good, as they are without the loop. -/
def Good (duck : DuckDB) (L : DailyLoop) : Prop :=
  TwoTiers.Good duck ⟨L.tiers, L.writer, L.compactor⟩

/-- A step changes the archive as the writer does, or as the compactor does, or not at all. -/
theorem Step.tiers (h : Step duck keepRawDays pace L L') (hgood : L.Good duck) :
    L.tiers.Writes L'.tiers ∨ L.tiers.Change L'.tiers := by
  cases h with
  | writer hstep htimely hpace => exact Or.inl (TwoTiers.Good.writes hgood hstep htimely)
  | compactor t p now c k => exact Or.inr (Keeps.step Tiers.Beside.rely hgood.compactor).1
  | sleep t p now pass hend => exact Or.inl (Tiers.Writes.rely.refl t)
  | wake t p wakeAt hwake => exact Or.inl (Tiers.Writes.rely.refl t)

theorem Step.good (hduck : duck.OneRowPerLine) (h : Step duck keepRawDays pace L L')
    (hgood : L.Good duck) : L'.Good duck := by
  cases h with
  | writer hstep htimely hpace =>
    exact TwoTiers.Step.good hduck (TwoTiers.Step.writer hstep htimely) hgood
  | compactor t p now c k => exact TwoTiers.Step.good hduck (TwoTiers.Step.compactor t p c k) hgood
  | sleep t p now pass hend => exact ⟨hgood.tiers, hgood.writer, Compacts.finish⟩
  | wake t p wakeAt hwake =>
    exact ⟨hgood.tiers, hgood.writer, compacts_runOnce hduck keepRawDays le_rfl⟩

theorem Step.time_le (h : Step duck keepRawDays pace L L') (hgood : L.Good duck) :
    L.time ≤ L'.time := by
  rcases h.tiers hgood with hwrites | hchange
  · exact hwrites.time
  · exact hchange.time.ge

/-- `T` holds while the compactor sleeps, and will hold at the end of a running pass. -/
def Expects (duck : DuckDB) (T : Tiers → Prop) (L : DailyLoop) : Prop :=
  match L.phase with
  | .passing _ pass => Passes duck (fun _ _ ↦ True) (fun _ ↦ T) (fun _ _ ↦ False) pass L.tiers
  | .sleeping _ => T L.tiers

theorem Step.expects (h : Step duck keepRawDays pace L L') (hgood : L.Good duck)
    (hT : Stable Tiers.Writes T)
    (hpass : ∀ s : Tiers, s.Sound → T s → Passes duck (fun _ _ ↦ True) (fun _ ↦ T)
      (fun _ _ ↦ False) (runOnce keepRawDays s.site.time) s)
    (hL : L.Expects duck T) : L'.Expects duck T := by
  cases h with
  | writer hstep htimely hpace =>
    rename_i phase
    have hwrites := TwoTiers.Good.writes hgood hstep htimely
    cases phase with
    | passing now pass => exact Keeps.rely Tiers.Writes.rely hL hwrites
    | sleeping wakeAt => exact hT _ _ hwrites hL
  | compactor t p now c k =>
    have hpass : Passes duck (fun _ _ ↦ True) (fun _ ↦ T) (fun _ _ ↦ False) (.call c k) t := hL
    exact (Keeps.step Tiers.Writes.rely hpass).2
  | sleep t p now pass hend =>
    obtain ⟨-, -, hend⟩ := TwoTiers.of_finished hend hL
    exact hend
  | wake t p wakeAt hwake => exact hpass t hgood.tiers hL

/-- The loop keeps its timetable: but for the one at the start, every pass began at a boundary or
little later. -/
def Clocked (pace : Pace) (t₀ : ℤ) (L : DailyLoop) : Prop :=
  match L.phase with
  | .passing now _ => now ≤ L.time ∧ L.time ≤ now + pace.pass ∧
      (now = t₀ ∨ ∃ b, IsBoundary b ∧ b ≤ now ∧ now ≤ b + pace.lag)
  | .sleeping wakeAt => L.time ≤ wakeAt + pace.lag ∧ ∃ e ≤ L.time, wakeAt = nextRun e

theorem Step.clocked (h : Step duck keepRawDays pace L L') (hgood : L.Good duck)
    (hpace : 0 ≤ pace.pass ∧ 0 ≤ pace.lag) (hL : L.Clocked pace t₀) : L'.Clocked pace t₀ := by
  have htime := h.time_le hgood
  cases h with
  | writer hstep htimely hallowed =>
    rename_i phase
    cases phase with
    | passing now pass => exact ⟨hL.1.trans htime, hallowed, hL.2.2⟩
    | sleeping wakeAt =>
      obtain ⟨e, he, hwake⟩ := hL.2
      exact ⟨hallowed, e, he.trans htime, hwake⟩
  | compactor t p now c k =>
    have hsame := (Keeps.step Tiers.Beside.rely hgood.compactor).1.time
    refine ⟨hL.1.trans htime, ?_, hL.2.2⟩
    exact hsame.le.trans hL.2.1
  | sleep t p now pass hend =>
    exact ⟨(lt_nextRun _).le.trans (le_add_of_nonneg_right hpace.2), _, le_rfl, rfl⟩
  | wake t p wakeAt hwake =>
    obtain ⟨hlate, e, -, rfl⟩ := hL
    exact ⟨le_rfl, le_add_of_nonneg_right hpace.1, Or.inr ⟨_, isBoundary_nextRun e, hwake, hlate⟩⟩

theorem Runs.kept (hduck : duck.OneRowPerLine) (hT : Stable Tiers.Writes T)
    (hpass : ∀ s : Tiers, s.Sound → T s → Passes duck (fun _ _ ↦ True) (fun _ ↦ T)
      (fun _ _ ↦ False) (runOnce keepRawDays s.site.time) s)
    (hpace : 0 ≤ pace.pass ∧ 0 ≤ pace.lag) (hruns : Runs duck keepRawDays pace L L')
    (hgood : L.Good duck) (hclock : L.Clocked pace t₀) (hexpects : L.Expects duck T) :
    L'.Good duck ∧ L'.Clocked pace t₀ ∧ L'.Expects duck T ∧ L.time ≤ L'.time := by
  induction hruns with
  | refl => exact ⟨hgood, hclock, hexpects, le_rfl⟩
  | tail _ hstep ih =>
    obtain ⟨hgood', hclock', hexpects', htime⟩ := ih
    exact ⟨hstep.good hduck hgood', hstep.clocked hgood' hpace hclock',
      hstep.expects hgood' hT hpass hexpects', htime.trans (hstep.time_le hgood')⟩

/-! ## One deadline -/

/-- The loop is on its way to the pass that brings about `D`: it sleeps to the boundary after `μ` at
most, that pass is running, or an earlier one that will be over by the boundary. -/
def Approaches (duck : DuckDB) (pace : Pace) (μ : ℤ) (D : Tiers → Prop) (L : DailyLoop) : Prop :=
  match L.phase with
  | .passing now pass => (now ≤ nextRun μ + pace.lag ∧
      Passes duck (fun _ _ ↦ True) (fun _ ↦ D) (fun _ _ ↦ False) pass L.tiers) ∨
        now + pace.pass < nextRun μ
  | .sleeping wakeAt => wakeAt ≤ nextRun μ

theorem Clocked.approaches (h : L.Clocked pace t₀)
    (hpace : pace.pass + pace.lag < nanosecondsPerDay) (hstarted : t₀ + pace.pass ≤ L.time) :
    L.Approaches duck pace L.time D := by
  obtain ⟨t, p, phase⟩ := L
  cases phase with
  | sleeping wakeAt =>
    obtain ⟨-, e, he, rfl⟩ := h
    exact nextRun_le (isBoundary_nextRun _) (he.trans_lt (lt_nextRun _))
  | passing now pass =>
    refine Or.inr ?_
    obtain ⟨hnow, -, rfl | ⟨b, hb, hle, hlag⟩⟩ := h
    · exact hstarted.trans_lt (lt_nextRun _)
    · -- the next boundary is a day after the one at which the pass began
      have hday := hb.add_day_le (isBoundary_nextRun _) ((hle.trans hnow).trans_lt (lt_nextRun _))
      change now + pace.pass < _
      omega

/-- What a deadline is about: a pass that begins at `μ` or later makes `W` into `D`, if `T` holds
when it begins, and nothing else undoes either. -/
structure Makes (duck : DuckDB) (keepRawDays μ : ℤ) (T W D : Tiers → Prop) : Prop where
  done : Stable Tiers.Writes D ∧ Stable Tiers.Change D
  waiting : Stable Tiers.Writes (fun s ↦ W s ∨ D s) ∧ Stable Tiers.Change fun s ↦ W s ∨ D s
  tidy : Stable Tiers.Writes T
  tidyPass : ∀ s : Tiers, s.Sound → T s → Passes duck (fun _ _ ↦ True) (fun _ ↦ T)
    (fun _ _ ↦ False) (runOnce keepRawDays s.site.time) s
  pass : ∀ s : Tiers, s.Sound → μ ≤ s.site.time → T s → W s → Passes duck (fun _ _ ↦ True)
    (fun _ ↦ D) (fun _ _ ↦ False) (runOnce keepRawDays s.site.time) s

theorem Step.approaches (hmakes : Makes duck keepRawDays μ T W D)
    (h : Step duck keepRawDays pace L L') (hgood : L.Good duck) (hclock : L.Clocked pace t₀)
    (hexpects : L.Expects duck T) (hμ : μ ≤ L.time)
    (hL : D L.tiers ∨ W L.tiers ∧ L.Approaches duck pace μ D) :
    D L'.tiers ∨ W L'.tiers ∧ L'.Approaches duck pace μ D := by
  rcases hL with hD | ⟨hW, hL⟩
  · exact Or.inl ((h.tiers hgood).elim (hmakes.done.1 _ _ · hD) (hmakes.done.2 _ _ · hD))
  have hWD : W L'.tiers ∨ D L'.tiers :=
    (h.tiers hgood).elim (hmakes.waiting.1 _ _ · (Or.inl hW)) (hmakes.waiting.2 _ _ · (Or.inl hW))
  rcases hWD with hW' | hD'
  · cases h with
    | writer hstep htimely hallowed =>
      rename_i phase
      refine Or.inr ⟨hW', ?_⟩
      cases phase with
      | passing now pass =>
        refine hL.imp_left fun hpass ↦ ⟨hpass.1, ?_⟩
        exact Keeps.rely Tiers.Writes.rely hpass.2 (TwoTiers.Good.writes hgood hstep htimely)
      | sleeping wakeAt => exact hL
    | compactor t p now c k =>
      exact Or.inr ⟨hW', hL.imp_left fun hpass ↦
        ⟨hpass.1, (Keeps.step Tiers.Writes.rely hpass.2).2⟩⟩
    | sleep t p now pass hend =>
      rcases hL with ⟨-, hpass⟩ | hbefore
      · obtain ⟨-, -, hD⟩ := TwoTiers.of_finished hend hpass
        exact Or.inl hD
      · refine Or.inr ⟨hW', nextRun_le (isBoundary_nextRun μ) ?_⟩
        exact hclock.2.1.trans_lt hbefore
    | wake t p wakeAt hwake =>
      refine Or.inr ⟨hW', Or.inl ⟨?_, hmakes.pass t hgood.tiers hμ hexpects hW⟩⟩
      exact hclock.1.trans (add_le_add_left hL _)
  · exact Or.inl hD'

/-- **One deadline.** What waits at the time `μ` is done by the boundary after `μ`, but for the time
a sleep may be late and a pass may take. -/
theorem deadline (hduck : duck.OneRowPerLine) (hmakes : Makes duck keepRawDays L.time T W D)
    (hpace : 0 ≤ pace.pass ∧ 0 ≤ pace.lag ∧ pace.pass + pace.lag < nanosecondsPerDay)
    (hruns : Runs duck keepRawDays pace L L') (hgood : L.Good duck) (hclock : L.Clocked pace t₀)
    (hexpects : L.Expects duck T) (hstarted : t₀ + pace.pass ≤ L.time) (hW : W L.tiers)
    (hlate : nextRun L.time + pace.lag + pace.pass < L'.time) : D L'.tiers := by
  have hkept {M : DailyLoop} (hM : Runs duck keepRawDays pace L M) :=
    hM.kept hduck hmakes.tidy hmakes.tidyPass ⟨hpace.1, hpace.2.1⟩ hgood hclock hexpects
  have hway : D L'.tiers ∨ W L'.tiers ∧ L'.Approaches duck pace L.time D := by
    clear hlate
    induction hruns with
    | refl => exact Or.inr ⟨hW, hclock.approaches hpace.2.2 hstarted⟩
    | tail hM hstep ih =>
      obtain ⟨hgood', hclock', hexpects', htime⟩ := hkept hM
      exact hstep.approaches hmakes hgood' hclock' hexpects' htime ih
  obtain ⟨-, hclock', -, -⟩ := hkept hruns
  rcases hway with hD | ⟨-, happroach⟩
  · exact hD
  · -- the time does not go on so far
    exfalso
    obtain ⟨t, p, phase⟩ := L'
    change _ < t.site.time at hlate
    cases phase with
    | sleeping wakeAt =>
      have hle : t.site.time ≤ wakeAt + pace.lag := hclock'.1
      have hwake : wakeAt ≤ nextRun L.time := happroach
      omega
    | passing now pass =>
      have hle : t.site.time ≤ now + pace.pass := hclock'.2.1
      rcases happroach with ⟨hnow, -⟩ | hnow
      · omega
      · omega

end DailyLoop

/-! ## What the compactor waits to do -/

namespace Tiers

theorem Change.lookup_eq (h : s.Change s') (hday : s.Published day) :
    s'.store.parquet.lookup day = s.store.parquet.lookup day := by
  cases h with
  | stay hsite hparquet => rw [hparquet]
  | publish d part hclosed hnew hrows hsite hparquet =>
    rw [hparquet]
    refine AList.lookup_insert_ne ?_
    rintro rfl
    rw [Published, hnew] at hday
    exact Bool.false_ne_true hday
  | unlink k hout hsite hparquet => rw [hparquet]

theorem Change.gz_eq_none (h : s.Change s') {k : HourKey} (hk : s.site.hours.gz k = none) :
    s'.site.hours.gz k = none := by
  cases h with
  | stay hsite hparquet => rwa [hsite]
  | publish d part hclosed hnew hrows hsite hparquet => rwa [hsite]
  | unlink j hout hsite hparquet =>
    rw [hsite, Site.hours_gz]
    by_cases hkj : k = j
    · rw [hkj]
      exact AList.lookup_erase _ _
    · exact (AList.lookup_erase_ne (by simpa using hkj)).trans hk

theorem Change.hasDirectory (h : s.Change s') (hday : s.HasDirectory day) :
    s'.HasDirectory day := by
  cases h with
  | stay hsite hparquet => rwa [HasDirectory, hsite]
  | publish d part hclosed hnew hrows hsite hparquet => rwa [HasDirectory, hsite]
  | unlink j hout hsite hparquet => rwa [HasDirectory, hsite]

/-- The day is old, closed, has a directory and is not yet published. -/
structure Overdue (now : ℤ) (day : DayKey) (s : Tiers) : Prop extends s.Waiting day where
  old : oldEnough day now
  directory : s.HasDirectory day

theorem Change.overdue (h : s.Change s') {now : ℤ} (hday : s.Overdue now day) :
    s'.Overdue now day ∨ s'.Published day := by
  by_cases hpublished : s'.Published day
  · exact Or.inr hpublished
  · exact Or.inl ⟨⟨h.closed hday.closed, Option.not_isSome_iff_eq_none.mp hpublished⟩, hday.old,
      h.hasDirectory hday.directory⟩

/-- The day is published, and its raw files are gone. -/
structure Cleared (day : DayKey) (s : Tiers) : Prop where
  published : s.Published day
  closed : s.Closed day
  gz : ∀ k, dayOf k = day → s.site.hours.gz k = none

theorem stable_cleared (day : DayKey) : Stable Writes (Cleared day) := by
  intro s s' h hs
  have hsame := stable_same s day s s' h (Same.refl hs.closed)
  refine ⟨?_, hsame.closed, fun k hk ↦ (hsame.gz k hk).trans (hs.gz k hk)⟩
  rw [Published, hsame.parquet]
  exact hs.published

theorem Change.cleared (h : s.Change s') (hs : s.Cleared day) : s'.Cleared day :=
  ⟨h.parquet hs.published, h.closed hs.closed, fun k hk ↦ h.gz_eq_none (hs.gz k hk)⟩

/-- If the day is published, its raw files are verified or gone. -/
def Tidy (duck : DuckDB) (day : DayKey) (s : Tiers) : Prop :=
  s.Published day → s.Compacted duck day ∨ s.Cleared day

theorem stable_tidy (day : DayKey) : Stable Writes (Tidy duck day) := by
  intro s s' h hs hday
  rw [Published, h.store] at hday
  exact (hs hday).imp (stable_compacted day s s' h) (stable_cleared day s s' h)

end Tiers

/-- What a pass makes of a published day whose raw files were verified or gone. -/
theorem Tiers.Tidy.swept {s₁ t : Tiers} {now : ℤ} (h : s₁.Tidy duck day) (hday : s₁.Published day)
    (hswept : s₁.Swept duck keepRawDays now day t) :
    (s₁.PastGrace keepRawDays now day → t.Cleared day) ∧ t.Tidy duck day := by
  have hpublished : t.Published day := by
    rw [Tiers.Published, hswept.parquet]
    exact hday
  have hcleared (hpast : s₁.PastGrace keepRawDays now day) : t.Cleared day := by
    refine ⟨hpublished, hswept.closed, fun k hk ↦ ?_⟩
    by_cases hverified : Verified duck s₁ day
    · exact hswept.removed hpast hverified k hk
    · -- then there was nothing left to verify
      rw [hswept.kept (fun hboth ↦ hverified hboth.2) k hk]
      exact ((h hday).resolve_left fun hcompacted ↦ hverified hcompacted.2).gz k hk
  refine ⟨hcleared, fun _ ↦ ?_⟩
  by_cases hpast : s₁.PastGrace keepRawDays now day
  · exact Or.inr (hcleared hpast)
  · have hsame : s₁.Same day t :=
      ⟨⟨hswept.closed, hswept.kept fun hboth ↦ hpast hboth.1⟩, hswept.parquet⟩
    refine (h hday).imp (fun hcompacted ↦ hcompacted.same hsame) fun hbefore ↦ ?_
    exact ⟨hpublished, hswept.closed, fun k hk ↦ (hsame.gz k hk).trans (hbefore.gz k hk)⟩

theorem Tiers.Tidy.phase {s₁ : Tiers} {now : ℤ} (h : s.Tidy duck day)
    (hphase : s.Phase duck now s₁) : s₁.Tidy duck day := by
  intro hday
  rcases hphase.compacted day hday with hbefore | hcompacted
  · have hsame := hphase.before day hbefore
    refine (h hbefore).imp (fun hc ↦ hc.same hsame) fun hc ↦ ?_
    exact ⟨hday, hsame.closed, fun k hk ↦ (hsame.gz k hk).trans (hc.gz k hk)⟩
  · exact Or.inl hcompacted

theorem passes_tidy (hduck : duck.OneRowPerLine) (hs : s.Sound) (h : s.Tidy duck day) :
    Passes duck (fun _ _ ↦ True) (fun _ ↦ Tiers.Tidy duck day) (fun _ _ ↦ False)
      (runOnce keepRawDays s.site.time) s := by
  refine Keeps.mono (passes_runOnce hduck hs le_rfl keepRawDays) ?_ fun _ _ he ↦ he
  rintro n t ⟨-, s₁, hphase, hafter⟩ hday
  have hpublished : s₁.Published day := by
    by_contra hnot
    rw [Tiers.Published, hafter.rest day hnot] at hday
    exact Bool.false_ne_true hday
  exact ((h.phase hphase).swept hpublished (hafter.swept day hpublished)).2 hday

theorem makes_published (keepRawDays μ : ℤ) (day : DayKey) (hduck : duck.OneRowPerLine) :
    DailyLoop.Makes duck keepRawDays μ (fun _ ↦ True) (Tiers.Overdue μ day)
      (Tiers.Published day) where
  done := ⟨fun s s' h hs ↦ Tiers.stable_published day s s' h.toBeside hs, fun _ _ h hs ↦
    h.parquet hs⟩
  waiting := by
    refine ⟨fun s s' h hs ↦ ?_, fun s s' h hs ↦ ?_⟩
    · refine hs.imp (fun hday ↦ ?_) (Tiers.stable_published day s s' h.toBeside)
      exact ⟨Tiers.stable_waiting day s s' h hday.toWaiting, hday.old,
        Tiers.stable_hasDirectory day s s' h hday.directory⟩
    · exact hs.elim h.overdue fun hday ↦ Or.inr (h.parquet hday)
  tidy := fun _ _ _ _ ↦ trivial
  tidyPass s hs _ := Keeps.mono (passes_runOnce hduck hs le_rfl keepRawDays) (fun _ _ _ ↦ trivial)
    fun _ _ he ↦ he
  pass s hs hμ _ hday := by
    refine Keeps.mono (passes_runOnce hduck hs le_rfl keepRawDays) ?_ fun _ _ he ↦ he
    rintro n t ⟨-, s₁, hphase, hafter⟩
    have hold : oldEnough day s.site.time := le_trans hday.old (by omega)
    have hpublished := hphase.due day hold hday.toWaiting hday.directory
    rw [Tiers.Published, (hafter.swept day hpublished).parquet]
    exact hpublished

theorem graceElapsed_mono {outputMtime now now' : ℤ} (hle : now ≤ now')
    (h : graceElapsed outputMtime keepRawDays now) : graceElapsed outputMtime keepRawDays now' :=
  h.imp_right fun hgrace ↦ hgrace.trans (Int.sub_le_sub_right hle outputMtime)

theorem makes_cleared (keepRawDays μ : ℤ) (day : DayKey) (hduck : duck.OneRowPerLine) :
    DailyLoop.Makes duck keepRawDays μ (Tiers.Tidy duck day)
      (fun s ↦ s.PastGrace keepRawDays μ day) (Tiers.Cleared day) where
  done := ⟨Tiers.stable_cleared day, fun _ _ h hs ↦ h.cleared hs⟩
  waiting := by
    refine ⟨fun s s' h hs ↦ ?_, fun s s' h hs ↦ ?_⟩
    · refine hs.imp (fun hpast ↦ ?_) (Tiers.stable_cleared day s s' h)
      rwa [Tiers.PastGrace, h.store]
    · refine hs.imp ?_ h.cleared
      rintro ⟨part, hpart, hgrace⟩
      exact ⟨part, (h.lookup_eq (Option.isSome_iff_exists.mpr ⟨part, hpart⟩)).trans hpart, hgrace⟩
  tidy := Tiers.stable_tidy day
  tidyPass s hs h := passes_tidy hduck hs h
  pass s hs hμ htidy hpast := by
    refine Keeps.mono (passes_runOnce hduck hs le_rfl keepRawDays) ?_ fun _ _ he ↦ he
    rintro n t ⟨-, s₁, hphase, hafter⟩
    obtain ⟨part, hpart, hgrace⟩ := hpast
    have hday : s.Published day := Option.isSome_iff_exists.mpr ⟨part, hpart⟩
    have hsame := hphase.before day hday
    have hpublished : s₁.Published day := by
      rw [Tiers.Published, hsame.parquet]
      exact hday
    refine ((htidy.phase hphase).swept hpublished (hafter.swept day hpublished)).1 ?_
    exact hsame.pastGrace_iff.mpr ⟨part, hpart, graceElapsed_mono hμ hgrace⟩

/-! ## The deadlines -/

/-- **The deadlines of the daily loop.** The loop is started in an archive that may have been
through anything, crashes of either process included, and from then on its calls go through, while
the writer, which is `Timely`, works on and may crash. Look at it after its first pass. A day that
is old, closed, has a directory and is not yet published then, will be published before the time
that the next boundary, a late sleep and a pass come to. And of a published day whose grace period
is over then, all raw files will be gone by that time, if at the start of the loop it was not yet
published, or its raw files were verified or gone. -/
theorem loop_deadlines (hduck : duck.OneRowPerLine) {t₀ : ℤ} {aw : ArchiveWriter}
    {mtimes : DayKey → ℤ} {S : TwoTiers}
    (hS : TwoTiers.Runs duck (TwoTiers.fresh t₀ aw mtimes) S)
    (hpace : 0 ≤ pace.pass ∧ 0 ≤ pace.lag ∧ pace.pass + pace.lag < nanosecondsPerDay)
    {L L' : DailyLoop}
    (hruns : DailyLoop.Runs duck keepRawDays pace (DailyLoop.start keepRawDays S) L)
    (hruns' : DailyLoop.Runs duck keepRawDays pace L L')
    (hstarted : S.tiers.site.time + pace.pass ≤ L.time)
    (hlate : L.time + secondsUntilNextRun L.time + pace.lag + pace.pass < L'.time) :
    (∀ day, L.tiers.Overdue L.time day → L'.tiers.Published day) ∧
    ∀ day, L.tiers.PastGrace keepRawDays L.time day → S.tiers.Tidy duck day →
      ∀ k, dayOf k = day → L'.tiers.site.hours.gz k = none := by
  have hS := TwoTiers.Runs.good hduck hS (TwoTiers.good_fresh t₀ aw mtimes)
  have hgood : (DailyLoop.start keepRawDays S).Good duck :=
    ⟨hS.tiers, hS.writer, compacts_runOnce hduck keepRawDays le_rfl⟩
  have hclock : (DailyLoop.start keepRawDays S).Clocked pace S.tiers.site.time :=
    ⟨le_rfl, le_add_of_nonneg_right hpace.1, Or.inl rfl⟩
  have hkept {T W D : Tiers → Prop} (hmakes : DailyLoop.Makes duck keepRawDays L.time T W D)
      (hT : (DailyLoop.start keepRawDays S).Expects duck T) :=
    hruns.kept hduck hmakes.tidy hmakes.tidyPass ⟨hpace.1, hpace.2.1⟩ hgood hclock hT
  refine ⟨fun day hday ↦ ?_, fun day hpast htidy ↦ ?_⟩
  · have hmakes := makes_published keepRawDays L.time day hduck
    obtain ⟨hgood', hclock', hexpects, -⟩ := hkept hmakes (hmakes.tidyPass _ hS.tiers trivial)
    exact DailyLoop.deadline hduck hmakes hpace hruns' hgood' hclock' hexpects hstarted hday hlate
  · have hmakes := makes_cleared keepRawDays L.time day hduck
    obtain ⟨hgood', hclock', hexpects, -⟩ := hkept hmakes (hmakes.tidyPass _ hS.tiers htidy)
    exact (DailyLoop.deadline hduck hmakes hpace hruns' hgood' hclock' hexpects hstarted hpast
      hlate).gz

/-! ## The first day in the loop -/

namespace DailyLoop

variable {L : DailyLoop}

/-- The next `n` calls of the running pass. -/
def compact (duck : DuckDB) : ℕ → DailyLoop → DailyLoop
  | n + 1, ⟨t, p, .passing now (.call c k)⟩ =>
    compact duck n ⟨(c.apply duck t).2, p, .passing now (k (c.apply duck t).1)⟩
  | _, L => L

/-- Go to sleep after the pass. -/
def sleep (L : DailyLoop) : DailyLoop :=
  match L.phase with
  | .passing _ _ => { L with phase := .sleeping (L.time + secondsUntilNextRun L.time) }
  | .sleeping _ => L

/-- The sleep is over. -/
def Awake (L : DailyLoop) : Prop :=
  match L.phase with
  | .passing _ _ => False
  | .sleeping wakeAt => wakeAt ≤ L.time

instance (L : DailyLoop) : Decidable L.Awake :=
  match L with
  | ⟨_, _, .passing _ _⟩ => inferInstanceAs (Decidable False)
  | ⟨_, _, .sleeping _⟩ => inferInstanceAs (Decidable (_ ≤ _))

def wake (keepRawDays : ℤ) (L : DailyLoop) : DailyLoop := ⟨L.tiers, L.writer,
  .passing L.tiers.site.time (runOnce keepRawDays L.tiers.site.time)⟩

def tick (t : ℤ) (L : DailyLoop) : DailyLoop :=
  { L with tiers := { L.tiers with site := L.tiers.site.tick t } }

theorem runs_compact (n : ℕ) (L : DailyLoop) :
    Runs duck keepRawDays pace L (L.compact duck n) := by
  induction n generalizing L with
  | zero => exact Relation.ReflTransGen.refl
  | succ n ih =>
    obtain ⟨t, p, ⟨now, _ | _ | ⟨c, k⟩⟩ | wakeAt⟩ := L
    · exact Relation.ReflTransGen.refl
    · exact Relation.ReflTransGen.refl
    · exact Relation.ReflTransGen.head (.compactor t p now c k) (ih _)
    · exact Relation.ReflTransGen.refl

theorem runs_sleep (h : Finished L.compactor) : Runs duck keepRawDays pace L L.sleep := by
  obtain ⟨t, p, ⟨now, pass⟩ | wakeAt⟩ := L
  · exact Relation.ReflTransGen.single (.sleep t p now pass h)
  · exact Relation.ReflTransGen.refl

theorem runs_wake (h : L.Awake) : Runs duck keepRawDays pace L (L.wake keepRawDays) := by
  obtain ⟨t, p, ⟨now, pass⟩ | wakeAt⟩ := L
  · exact h.elim
  · exact Relation.ReflTransGen.single (.wake t p wakeAt h)

theorem runs_tick {t : ℤ} (ht : L.time ≤ t) (h : L.phase.Allows pace t) :
    Runs duck keepRawDays pace L (L.tick t) :=
  Relation.ReflTransGen.single (.writer (.tick _ _ t ht) (fun _ hk hne ↦ absurd hk hne) h)

end DailyLoop

/-- The loop is started at 04:00 of the second day. By the third one it is asleep. -/
def thirdDay : DailyLoop :=
  (((DailyLoop.start 0 (twoLines (28 * nanosecondsPerHour))).compact linesDuck 60).sleep).tick
    (48 * nanosecondsPerHour)

/-- The morning after the pass of 03:00. -/
def thirdMorning : DailyLoop :=
  ((((thirdDay.tick (51 * nanosecondsPerHour)).wake 0).compact linesDuck 60).sleep).tick
    (54 * nanosecondsPerHour)

/-- An hour for a pass, and an hour for a late sleep. -/
def hourly : Pace := ⟨nanosecondsPerHour, nanosecondsPerHour⟩

/-- The first day was overdue at 00:00 of the third, and is published in its morning. -/
theorem loop_deadlines_thirdDay : thirdMorning.tiers.Published 0 := by
  have hpass {L : DailyLoop} {t : ℤ} (hend : isFinished (L.compact linesDuck 60).compactor = true)
      (ht : (L.compact linesDuck 60).sleep.time ≤ t)
      (hpace : (L.compact linesDuck 60).sleep.phase.Allows hourly t) :
      DailyLoop.Runs linesDuck 0 hourly L ((L.compact linesDuck 60).sleep.tick t) :=
    (DailyLoop.runs_compact 60 L).trans ((DailyLoop.runs_sleep (finished_of_isFinished hend)).trans
      (DailyLoop.runs_tick ht hpace))
  have hstart : DailyLoop.Runs linesDuck 0 hourly
      (DailyLoop.start 0 (twoLines (28 * nanosecondsPerHour))) thirdDay :=
    hpass (by decide +kernel) (by decide +kernel) (by decide +kernel)
  have hnext : DailyLoop.Runs linesDuck 0 hourly thirdDay thirdMorning := by
    have hboundary : DailyLoop.Runs linesDuck 0 hourly thirdDay
        (thirdDay.tick (51 * nanosecondsPerHour)) :=
      DailyLoop.runs_tick (by decide +kernel) (by decide +kernel)
    exact (hboundary.trans (DailyLoop.runs_wake (by decide +kernel))).trans
      (hpass (by decide +kernel) (by decide +kernel) (by decide +kernel))
  have hkeys : ∀ p ∈ thirdDay.tiers.site.disk.keys, p.ext = .ndjson → dayOf p.hour ≠ 0 := by
    decide +kernel
  have hoverdue : thirdDay.tiers.Overdue thirdDay.time 0 :=
    ⟨⟨⟨by decide +kernel, fun _ ↦ plain_eq_none_of_keys hkeys⟩, by decide +kernel⟩,
      by decide +kernel, ⟨0, by decide +kernel, rfl⟩⟩
  exact (loop_deadlines linesDuck_oneRowPerLine (runs_twoLines (by decide)) (by decide) hstart hnext
    (by decide +kernel) (by decide +kernel)).1 0 hoverdue

end GtfsStream.Archive
