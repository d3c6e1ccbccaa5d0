import GtfsStream.Archive.PassTurns
import Mathlib.Data.Set.Card

/-!
# What a pass gets done

A pass whose calls go through, beside a writer that works on and may crash: every old day that was
closed and had a directory is published, and of every published day whose grace period is over the
raw files are gone, unless the day was published before and its raw files were not verified. Those
days are what the pass counts as failures.

## Along the pass

The pass is proved over its calls, with what the writer may do between two of them as a relation
that the conditions have to be stable under. The first phase publishes the days that are due and
leaves those that were published before; its end is the beginning of the second, which removes raw
files and counts the days that it cannot verify. The result then holds in the run of the two
processes, since each step of it is a step of the pass, or one of the writer.
-/

namespace GtfsStream.Archive

open Program
open CompactCall (gzPaths)

variable {duck : DuckDB} {s s' s₀ s₁ t : Tiers} {day d : DayKey} {keepRawDays now : ℤ}

/-! ## Every day has its turn -/

/-- Turns of days, one after the other, none of which touches the others. -/
theorem passes_countFailures {f : DayKey → CompactIO Unit} {I J : DayKey → Tiers → Prop}
    {fails : DayKey → Prop} [DecidablePred fails] (hI : ∀ day, Stable Tiers.Writes (I day))
    (hJ : ∀ day, Stable Tiers.Writes (J day))
    (hIturn : ∀ day d, day ≠ d → Stable (Tiers.Turn d) (I day))
    (hJturn : ∀ day d, day ≠ d → Stable (Tiers.Turn d) (J day))
    (hf : ∀ day s, I day s → Passes duck (Tiers.Turn day) (fun _ t ↦ ¬fails day ∧ J day t)
      (fun _ t ↦ fails day ∧ J day t) (f day) s)
    {days : List DayKey} (hnodup : days.Nodup) (h : ∀ day ∈ days, I day s) :
    Passes duck (fun t t' ↦ ∃ day ∈ days, t.Turn day t')
      (fun n t ↦ n = days.countP (fails ·) ∧ ∀ day ∈ days, J day t) (fun _ _ ↦ False)
      (countFailures f days) s := by
  have hJall (n : ℕ) (days : List DayKey) : Stable Tiers.Writes fun t ↦
      n = days.countP (fails ·) ∧ ∀ day ∈ days, J day t := fun t t' ht hs ↦
    ⟨hs.1, fun day hday ↦ hJ day t t' ht (hs.2 day hday)⟩
  induction days generalizing s with
  | nil => exact Keeps.done (hJall 0 []) ⟨rfl, fun _ hday ↦ absurd hday List.not_mem_nil⟩
  | cons day days ih =>
    obtain ⟨hnot, hnodup⟩ := List.nodup_cons.mp hnodup
    obtain ⟨hday, hdays⟩ := List.forall_mem_cons.mp h
    have hcount (k : ℕ) :
        Stable Tiers.Writes fun t ↦ k = (if fails day then 1 else 0) ∧ J day t := fun t t' ht hs ↦
      ⟨hs.1, hJ day t t' ht hs.2⟩
    have hturn : Passes duck (Tiers.Turn day)
        (fun k t ↦ k = (if fails day then 1 else 0) ∧ J day t) (fun _ _ ↦ False)
        (((f day).bind fun _ ↦ Program.done 0).tryCatch fun _ ↦ Program.done 1) s := by
      refine Passes.tryCatch ((hf day s hday).bind fun _ s₁ h₁ ↦ Keeps.done (hcount 0) ?_)
        fun _ s₁ h₁ ↦ Keeps.done (hcount 1) ?_
      · exact ⟨(if_neg h₁.1).symm, h₁.2⟩
      · exact ⟨(if_pos h₁.1).symm, h₁.2⟩
    -- the days that follow are as they were
    have hfollow := Keeps.frame (F := fun t ↦ ∀ d ∈ days, I d t)
      (fun t t' ht hs d hd ↦ hI d t t' ht (hs d hd))
      (fun t t' ht hs d hd ↦ hIturn d day (fun heq ↦ hnot (heq ▸ hd)) t t' ht (hs d hd)) hdays hturn
    refine Passes.bind (Keeps.guarantee (Keeps.mono hfollow (fun _ _ hs ↦ hs) fun _ _ hs ↦ hs.1)
      fun _ _ ht ↦ ⟨day, List.mem_cons_self, ht⟩) fun k s₁ h₁ ↦ ?_
    obtain ⟨⟨hk, hdone⟩, hdays⟩ := h₁
    -- and those that follow leave this one as it is
    have hrest := Keeps.frame (hJ day) (fun t t' ht hs ↦ by
      obtain ⟨d, hd, hturn⟩ := ht
      exact hJturn day d (fun heq ↦ hnot (heq ▸ hd)) t t' hturn hs) hdone (ih hnodup hdays)
    refine Passes.bind (Keeps.guarantee (Keeps.mono hrest (fun _ _ hs ↦ hs) fun _ _ hs ↦ hs.1)
      fun t t' ⟨d, hd, ht⟩ ↦ ⟨d, List.mem_cons_of_mem day hd, ht⟩) fun m s₂ h₂ ↦
        Keeps.done (hJall _ (day :: days)) ?_
    obtain ⟨⟨hm, hall⟩, hdone⟩ := h₂
    refine ⟨?_, List.forall_mem_cons.mpr ⟨hdone, hall⟩⟩
    rw [List.countP_cons, hk, hm, Nat.add_comm]
    simp only [decide_eq_true_eq]

/-! ## The two phases -/

/-- Between the phases: `s₁` is what compaction has made of `s₀`. -/
structure Tiers.Phase (duck : DuckDB) (s₀ : Tiers) (now : ℤ) (s₁ : Tiers) : Prop where
  /-- Nothing happens to the days that were published before. -/
  before : ∀ day, s₀.Published day → s₀.Same day s₁
  /-- The others were compacted in this pass. -/
  compacted : ∀ day, s₁.Published day → s₀.Published day ∨ s₁.Compacted duck day
  due : ∀ day, oldEnough day now → s₀.Waiting day → s₀.HasDirectory day → s₁.Published day

theorem Tiers.stable_phase (s₀ : Tiers) (now : ℤ) : Stable Tiers.Writes (s₀.Phase duck now) := by
  intro s s' h hs
  have hpublished (day : DayKey) : s'.Published day ↔ s.Published day := by
    rw [Published, Published, h.store]
  refine ⟨fun day hday ↦ stable_same s₀ day s s' h (hs.before day hday), fun day hday ↦ ?_,
    fun day hold hwait hdir ↦ ?_⟩
  · exact (hs.compacted day ((hpublished day).mp hday)).imp_right (stable_compacted day s s' h)
  · exact (hpublished day).mpr (hs.due day hold hwait hdir)

theorem Tiers.Phase.closed (h : s₀.Phase duck now s₁) (hday : s₁.Published day) :
    s₁.Closed day := by
  rcases h.compacted day hday with hbefore | hcompacted
  · exact (h.before day hbefore).closed
  · exact hcompacted.1

theorem Tiers.Phase.readable (h : s₀.Phase duck now s₁) (hs : s₀.Sound) (hday : s₁.Published day) :
    ∀ p ∈ gzPaths s₁.site.disk day, Readable duck s₁ p := by
  rcases h.compacted day hday with hbefore | hcompacted
  · refine (h.before day hbefore).readable_iff.mpr ?_
    rintro ⟨k, e⟩ hp
    obtain ⟨hsome, rfl, hk⟩ := mem_gzPaths.mp hp
    obtain ⟨f, hf⟩ := Option.isSome_iff_exists.mp hsome
    refine ⟨duck.select f.bytes, ?_⟩
    rw [CompactCall.selectFrom, hf]
    exact if_pos (hs.hours.gz k f hf).1
  · exact hcompacted.2.readable

theorem Tiers.Phase.stuck_iff (h : s₀.Phase duck now s₁) :
    s₁.Stuck duck keepRawDays now day ↔ s₀.Stuck duck keepRawDays now day := by
  constructor
  · intro hstuck
    obtain ⟨part, hpart, -⟩ := hstuck.pastGrace
    have hday : s₁.Published day := Option.isSome_iff_exists.mpr ⟨part, hpart⟩
    rcases h.compacted day hday with hbefore | hcompacted
    · exact (h.before day hbefore).stuck_iff.mp hstuck
    · exact absurd hcompacted.2 hstuck.unverified
  · intro hstuck
    obtain ⟨part, hpart, -⟩ := hstuck.pastGrace
    have hday : s₀.Published day := Option.isSome_iff_exists.mpr ⟨part, hpart⟩
    exact (h.before day hday).stuck_iff.mpr hstuck

theorem passes_compaction (hduck : duck.OneRowPerLine) {days : List DayKey}
    (hnodup : days.Nodup) (hready : ∀ day ∈ days, s.Ready day)
    (hbefore : ∀ day, s₀.Published day → s₀.Same day s)
    (hunpublished : ∀ day, ¬s₀.Published day → s.store.parquet.lookup day = none)
    (hdue : ∀ day, oldEnough day now → s₀.Waiting day → s₀.HasDirectory day → day ∈ days) :
    Passes duck (fun _ _ ↦ True) (fun n t ↦ n = 0 ∧ s₀.Phase duck now t) (fun _ _ ↦ False)
      (countFailures (fun day ↦ (compactDay day).bind fun _ ↦ Program.done ()) days) s := by
  have hreadyTurn (day d : DayKey) (hd : day ≠ d) : Stable (Tiers.Turn d) (Tiers.Ready day) := by
    intro t t' ht h
    have hsame := (Tiers.Same.refl h.closed).turn ht hd
    refine ⟨⟨hsame.closed, hsame.parquet.trans h.unpublished⟩, ?_, fun k hk f hf ↦ ?_⟩
    · obtain ⟨k, hk, hne⟩ := h.raw
      exact ⟨k, hk, by rwa [hsame.gz k hk]⟩
    · exact h.complete k hk f (by rwa [← hsame.gz k hk])
  have hturn (day : DayKey) (t : Tiers) (ht : t.Ready day) :
      Passes duck (Tiers.Turn day) (fun _ t ↦ ¬False ∧ t.Compacted duck day)
        (fun _ t ↦ False ∧ t.Compacted duck day)
        ((compactDay day).bind fun _ ↦ Program.done ()) t := by
    refine (passes_compactDay hduck ht).bind fun _ t' ht' ↦ Keeps.done ?_ ⟨id, ht'⟩
    exact fun u u' hu hs ↦ ⟨hs.1, Tiers.stable_compacted day u u' hu hs.2⟩
  have hturns := passes_countFailures Tiers.stable_ready Tiers.stable_compacted hreadyTurn
    (fun day d hd t t' ht h ↦ h.same ((Tiers.Same.refl h.1).turn ht hd)) hturn hnodup hready
  -- the days that have no turn are left alone
  let F (t : Tiers) : Prop := ∀ day ∉ days, t.store.parquet.lookup day =
    s.store.parquet.lookup day ∧ (s₀.Published day → s₀.Same day t)
  have hFW : Stable Tiers.Writes F := by
    intro t t' ht hF day hday
    refine ⟨?_, fun hp ↦ Tiers.stable_same s₀ day t t' ht ((hF day hday).2 hp)⟩
    rw [ht.store]
    exact (hF day hday).1
  have hFT : Stable (fun t t' ↦ ∃ day ∈ days, Tiers.Turn day t t') F := by
    rintro t t' ⟨d, hd, ht⟩ hF day hday
    have hne : day ≠ d := fun heq ↦ hday (heq ▸ hd)
    exact ⟨(ht.parquet day hne).trans (hF day hday).1, fun hp ↦ ((hF day hday).2 hp).turn ht hne⟩
  have hframe := Keeps.frame hFW hFT (fun day _ ↦ ⟨rfl, hbefore day⟩) hturns
  refine Keeps.guarantee (Keeps.mono hframe ?_ fun _ _ hs ↦ hs.1) fun _ _ _ ↦ trivial
  rintro n t ⟨⟨hn, hcompacted⟩, hF⟩
  refine ⟨by simpa using hn, fun day hday ↦ ?_, fun day hday ↦ ?_, fun day hold hwait hdir ↦ ?_⟩
  · refine (hF day fun hmem ↦ ?_).2 hday
    rw [Tiers.Published, ← (hbefore day hday).parquet, (hready day hmem).unpublished] at hday
    exact Bool.false_ne_true hday
  · by_cases hmem : day ∈ days
    · exact Or.inr (hcompacted day hmem)
    · by_contra hnot
      rw [not_or] at hnot
      rw [Tiers.Published, (hF day hmem).1, hunpublished day hnot.1] at hday
      exact Bool.false_ne_true hday
  · obtain ⟨part, hpart, -⟩ := (hcompacted day (hdue day hold hwait hdir)).2.rows
    exact Option.isSome_iff_exists.mpr ⟨part, hpart⟩


/-- After the pass: since `s₁` every published day has had its turn, and nothing was published. -/
structure Tiers.AfterSweep (duck : DuckDB) (s₁ : Tiers) (keepRawDays now : ℤ) (t : Tiers) :
    Prop where
  swept : ∀ day, s₁.Published day → s₁.Swept duck keepRawDays now day t
  rest : ∀ day, ¬s₁.Published day → t.store.parquet.lookup day = none

theorem Tiers.stable_afterSweep (s₁ : Tiers) :
    Stable Tiers.Writes (s₁.AfterSweep duck keepRawDays now) := by
  intro s s' h hs
  refine ⟨fun day hday ↦ stable_swept s₁ day s s' h (hs.swept day hday), fun day hday ↦ ?_⟩
  rw [h.store]
  exact hs.rest day hday

theorem passes_removal {days : List DayKey} (hnodup : days.Nodup)
    (hdays : ∀ day, day ∈ days ↔ s₁.Published day)
    (hread : ∀ day, s₁.Published day → ∀ p ∈ gzPaths s₁.site.disk day, Readable duck s₁ p)
    (hsame : ∀ day, s₁.Published day → s₁.Same day s)
    (hrest : ∀ day, ¬s₁.Published day → s.store.parquet.lookup day = none) :
    Passes duck (fun _ _ ↦ True)
      (fun n t ↦ n = {day | s₁.Stuck duck keepRawDays now day}.ncard ∧
        s₁.AfterSweep duck keepRawDays now t) (fun _ _ ↦ False)
      (countFailures (fun day ↦ (deleteRawDay day keepRawDays now).bind fun _ ↦ Program.done ())
        days) s := by
  classical
  let I (day : DayKey) (t : Tiers) : Prop := s₁.Published day ∧ s₁.Same day t
  have hI (day : DayKey) : Stable Tiers.Writes (I day) := fun t t' ht h ↦
    ⟨h.1, Tiers.stable_same s₁ day t t' ht h.2⟩
  have hturn (day : DayKey) (t : Tiers) (ht : I day t) :
      Passes duck (Tiers.Turn day)
        (fun _ t ↦ ¬s₁.Stuck duck keepRawDays now day ∧ s₁.Swept duck keepRawDays now day t)
        (fun _ t ↦ s₁.Stuck duck keepRawDays now day ∧ s₁.Swept duck keepRawDays now day t)
        ((deleteRawDay day keepRawDays now).bind fun _ ↦ Program.done ()) t := by
    obtain ⟨part, hpart⟩ := Option.isSome_iff_exists.mp ht.1
    refine (passes_deleteRawDay hpart (hread day ht.1) ht.2).bind fun _ t' ht' ↦ Keeps.done ?_ ht'
    exact fun u u' hu hs ↦ ⟨hs.1, Tiers.stable_swept s₁ day u u' hu hs.2⟩
  have hturns := passes_countFailures hI (Tiers.stable_swept s₁)
    (fun day d hd t t' ht h ↦ ⟨h.1, h.2.turn ht hd⟩) (fun day d hd t t' ht h ↦ h.turn ht hd) hturn
    hnodup fun day hday ↦ ⟨(hdays day).mp hday, hsame day ((hdays day).mp hday)⟩
  let F (t : Tiers) : Prop := ∀ day ∉ days, t.store.parquet.lookup day = none
  have hFW : Stable Tiers.Writes F := by
    intro t t' ht hF day hday
    rw [ht.store]
    exact hF day hday
  have hFT : Stable (fun t t' ↦ ∃ day ∈ days, Tiers.Turn day t t') F := by
    rintro t t' ⟨d, hd, ht⟩ hF day hday
    exact (ht.parquet day fun heq ↦ hday (heq ▸ hd)).trans (hF day hday)
  have hframe := Keeps.frame hFW hFT (fun day hday ↦ hrest day (mt (hdays day).mpr hday)) hturns
  refine Keeps.guarantee (Keeps.mono hframe ?_ fun _ _ hs ↦ hs.1) fun _ _ _ ↦ trivial
  rintro n t ⟨⟨hn, hswept⟩, hF⟩
  refine ⟨?_, fun day hday ↦ hswept day ((hdays day).mpr hday), fun day hday ↦
    hF day (mt (hdays day).mp hday)⟩
  -- a day that fails is published, so it had a turn
  have hset : {day | s₁.Stuck duck keepRawDays now day} =
      ↑(days.filter (s₁.Stuck duck keepRawDays now ·)).toFinset := by
    ext day
    rw [Set.mem_ofPred_eq, Finset.mem_coe, List.mem_toFinset, List.mem_filter, decide_eq_true_iff,
      hdays]
    refine (and_iff_right_of_imp fun hstuck ↦ ?_).symm
    obtain ⟨part, hpart, -⟩ := hstuck.pastGrace
    exact Option.isSome_iff_exists.mpr ⟨part, hpart⟩
  rw [hset, Set.ncard_coe_finset, List.toFinset_card_of_nodup (hnodup.filter _), hn,
    List.countP_eq_length_filter]

/-! ## The pass -/

/-- **A pass whose calls go through** compacts what is due, then removes raw files, and counts the
days whose raw files should go and are not verified. -/
theorem passes_runOnce (hduck : duck.OneRowPerLine) (hs : s.Sound) (hnow : s.After now)
    (keepRawDays : ℤ) :
    Passes duck (fun _ _ ↦ True)
      (fun n t ↦ n = {day | s.Stuck duck keepRawDays now day}.ncard ∧
        ∃ s₁, s.Phase duck now s₁ ∧ s₁.AfterSweep duck keepRawDays now t) (fun _ _ ↦ False)
      (runOnce keepRawDays now) s := by
  let D : Set DayKey := {day | oldEnough day now ∧ s.Waiting day ∧ s.HasDirectory day}
  have hgated : s.Gated [] D := ⟨hs, fun _ hd ↦ absurd hd List.not_mem_nil, fun _ hday ↦ hday.2.1⟩
  have hgates := passes_eligibleDays duck (D := D) (fun _ hday ↦ hday.1) (fun _ hday ↦ hday.2.2)
    ⟨hgated, hnow⟩
  -- while the gates look, published days stay as they are
  let F (t : Tiers) : Prop := (∀ day, s.Published day → s.Same day t) ∧
    ∀ day, ¬s.Published day → t.store.parquet.lookup day = none
  have hF : Stable Tiers.Writes F := by
    refine fun t t' ht h ↦ ⟨fun day hday ↦ Tiers.stable_same s day t t' ht (h.1 day hday),
      fun day hday ↦ ?_⟩
    rw [ht.store]
    exact h.2 day hday
  have hFs : F s := ⟨fun day hday ↦ Tiers.Same.refl (hs.closed hday), fun day hday ↦
    Option.not_isSome_iff_eq_none.mp hday⟩
  have hgatesF := Keeps.mono (Keeps.frame hF stable_eq hFs hgates) (fun _ _ hs ↦ hs)
    fun _ _ hs ↦ hs.1
  refine Passes.bind (Keeps.guarantee hgatesF fun _ _ _ ↦ trivial) fun days s₂ h₂ ↦ ?_
  obtain ⟨⟨hnodup, hready, hdue⟩, hbefore, hunpublished⟩ := h₂
  refine (passes_compaction hduck hnodup hready hbefore hunpublished fun day hold hwait hdir ↦
    hdue day ⟨hold, hwait, hdir⟩).bind fun n s₃ h₃ ↦ ?_
  obtain ⟨rfl, hphase⟩ := h₃
  -- what is published when the second phase begins
  let Q (days : List DayKey) (t : Tiers) : Prop := ∃ s₁, s.Phase duck now s₁ ∧ days.Nodup ∧
    (∀ day, day ∈ days ↔ s₁.Published day) ∧ (∀ day, s₁.Published day → s₁.Same day t) ∧
    ∀ day, ¬s₁.Published day → t.store.parquet.lookup day = none
  have hcompacted : Passes duck (fun _ _ ↦ True) Q (fun _ _ ↦ False) (ask .compactedDays) s₃ := by
    refine Passes.ask .compactedDays (Tiers.stable_phase s now) hphase ?_ fun t ht ↦ ?_
    · rintro days t t' ht ⟨s₁, hs₁, hnodup, hmem, hsame, hrest⟩
      refine ⟨s₁, hs₁, hnodup, hmem, fun day hday ↦ ?_, fun day hday ↦ ?_⟩
      · exact Tiers.stable_same s₁ day t t' ht (hsame day hday)
      · rw [ht.store]
        exact hrest day hday
    · refine ⟨_, t, rfl, trivial, t, ht, ?_, fun day ↦ ?_, fun day hday ↦
        Tiers.Same.refl (ht.closed hday), fun day hday ↦ Option.not_isSome_iff_eq_none.mp hday⟩
      · exact (List.perm_insertionSort _ _).nodup_iff.mpr t.store.parquet.nodupKeys
      · rw [List.mem_insertionSort, ← AList.mem_keys, ← AList.lookup_isSome, Tiers.Published]
  refine hcompacted.bind fun days s₄ h₄ ↦ ?_
  obtain ⟨s₁, hs₁, hnodup, hmem, hsame, hrest⟩ := h₄
  refine (passes_removal hnodup hmem (fun day hday ↦ hs₁.readable hs hday) hsame hrest).bind
    fun m s₅ h₅ ↦ Keeps.done ?_ ?_
  · rintro t t' ht ⟨hn, s₁, hs₁, hafter⟩
    exact ⟨hn, s₁, hs₁, Tiers.stable_afterSweep s₁ t t' ht hafter⟩
  · refine ⟨?_, s₁, hs₁, h₅.2⟩
    rw [Nat.zero_add, h₅.1]
    refine congrArg Set.ncard (Set.ext fun day ↦ ?_)
    exact hs₁.stuck_iff

/-! ## In the run of the two processes -/

namespace TwoTiers

/-- One step of either process in which no call of the compactor fails or is cut. The writer may
crash. -/
inductive Smooth (duck : DuckDB) : TwoTiers → TwoTiers → Prop
  | writer {s s' : Site} {st : Store} {p p' : ArchiveIO Unit} {q : CompactIO ℕ}
      (hstep : Process.Step ⟨s, p⟩ ⟨s', p'⟩) (htimely : s.Timely s') :
    Smooth duck ⟨⟨s, st⟩, p, q⟩ ⟨⟨s', st⟩, p', q⟩
  | compactor (t : Tiers) (p : ArchiveIO Unit) (c : CompactCall)
      (k : Except CompactError c.Ret → CompactIO ℕ) :
    Smooth duck ⟨t, p, .call c k⟩ ⟨(c.apply duck t).2, p, k (c.apply duck t).1⟩

variable {S S' : TwoTiers}

theorem Smooth.step (h : Smooth duck S S') : TwoTiers.Step duck S S' := by
  cases h with
  | writer hstep htimely => exact .writer hstep htimely
  | compactor t p c k => exact .compactor t p c k

theorem Good.writes {s s' : Site} {st : Store} {p p' : ArchiveIO Unit} {q : CompactIO ℕ}
    (h : Good duck ⟨⟨s, st⟩, p, q⟩) (hstep : Process.Step ⟨s, p⟩ ⟨s', p'⟩)
    (htimely : s.Timely s') : Tiers.Writes ⟨s, st⟩ ⟨s', st⟩ := by
  have hsafe : Safe (fun _ ↦ Site.Tidy) p s := h.writer
  rcases hstep.moves hsafe with hm | ⟨t, ht, heq⟩
  · exact ⟨Tiers.beside_of_moves hm htimely, fun hs ↦ hs.moves hm htimely,
      Hours.Move.opened_subset hm⟩
  · obtain rfl : s' = s.tick t := heq
    exact ⟨Tiers.beside_tick ht, fun hs ↦ hs.tick ht, List.Subset.refl _⟩

/-- **A smooth step goes on with the pass** and keeps what is known of its end. -/
theorem Smooth.passes {G : Tiers → Tiers → Prop} {Q : ℕ → Tiers → Prop}
    {E : CompactError → Tiers → Prop} (h : Smooth duck S S') (hgood : S.Good duck)
    (hpass : Passes duck G Q E S.compactor S.tiers) :
    Passes duck G Q E S'.compactor S'.tiers := by
  cases h with
  | writer hstep htimely => exact Keeps.rely Tiers.Writes.rely hpass (hgood.writes hstep htimely)
  | compactor t p c k => exact (Keeps.step Tiers.Writes.rely hpass).2

theorem of_finished {G : Tiers → Tiers → Prop} {Q : ℕ → Tiers → Prop} {q : CompactIO ℕ}
    (hq : Finished q) (h : Passes duck G Q (fun _ _ ↦ False) q t) : ∃ n, q = done n ∧ Q n t := by
  rcases hq with ⟨n, rfl⟩ | ⟨e, rfl⟩
  · exact ⟨n, rfl, Keeps.of_done Tiers.Writes.rely h⟩
  · exact (Keeps.of_raise Tiers.Writes.rely h).elim

theorem smooth_passes {G : Tiers → Tiers → Prop} {Q : ℕ → Tiers → Prop}
    {E : CompactError → Tiers → Prop} (hduck : duck.OneRowPerLine)
    (hrun : Relation.ReflTransGen (Smooth duck) S S') (hgood : S.Good duck)
    (hpass : Passes duck G Q E S.compactor S.tiers) :
    S'.Good duck ∧ Passes duck G Q E S'.compactor S'.tiers := by
  induction hrun with
  | refl => exact ⟨hgood, hpass⟩
  | tail _ hstep ih => exact ⟨hstep.step.good hduck ih.1, hstep.passes ih.1 ih.2⟩

end TwoTiers

/-- **What a pass gets done.** Whatever has happened to the archive before, crashes of either
process included, and while the writer, which is `Timely`, works on and may crash: a pass whose own
calls go through publishes every old day that was closed and had a directory, and touches no
partition that there was. Of every published day past its grace period the raw files are gone,
unless the day was published before and not verified; such a day keeps them, as does one in its
grace period. The pass never raises, and it returns the number of days that should have lost their
raw files and kept them. -/
theorem pass_result (hduck : duck.OneRowPerLine) {t₀ : ℤ} {aw : ArchiveWriter}
    {mtimes : DayKey → ℤ} {S S' : TwoTiers}
    (hS : TwoTiers.Runs duck (TwoTiers.fresh t₀ aw mtimes) S) (keepRawDays : ℤ)
    (hnow : now ≤ S.tiers.site.time)
    (hrun : Relation.ReflTransGen (TwoTiers.Smooth duck)
      ⟨S.tiers, S.writer, runOnce keepRawDays now⟩ S')
    (hend : Finished S'.compactor) :
    (∀ day, oldEnough day now → S.tiers.Waiting day → S.tiers.HasDirectory day →
      S'.tiers.Published day) ∧
    (∀ day, S.tiers.Published day →
      S'.tiers.store.parquet.lookup day = S.tiers.store.parquet.lookup day) ∧
    (∀ day, S'.tiers.PastGrace keepRawDays now day →
      (S.tiers.Published day → Verified duck S.tiers day) →
      ∀ k, dayOf k = day → S'.tiers.site.hours.gz k = none) ∧
    (∀ day, S.tiers.Published day →
      ¬(S.tiers.PastGrace keepRawDays now day ∧ Verified duck S.tiers day) →
      ∀ k, dayOf k = day → S'.tiers.site.hours.gz k = S.tiers.site.hours.gz k) ∧
    S'.compactor = done {day | S.tiers.Stuck duck keepRawDays now day}.ncard := by
  have hgood := TwoTiers.Runs.good hduck hS (TwoTiers.good_fresh t₀ aw mtimes)
  have hpass := passes_runOnce hduck hgood.tiers (s := S.tiers) hnow keepRawDays
  have hstart : TwoTiers.Good duck ⟨S.tiers, S.writer, runOnce keepRawDays now⟩ :=
    ⟨hgood.tiers, hgood.writer, compacts_runOnce hduck keepRawDays hnow⟩
  obtain ⟨n, hn, rfl, s₁, hphase, hafter⟩ :=
    TwoTiers.of_finished hend (TwoTiers.smooth_passes hduck hrun hstart hpass).2
  have hpublished {day : DayKey} (hday : S.tiers.Published day) : s₁.Published day := by
    rw [Tiers.Published, (hphase.before day hday).parquet]
    exact hday
  refine ⟨fun day hold hwait hdir ↦ ?_, fun day hday ↦ ?_, fun day hpast hverified ↦ ?_,
    fun day hday hnot k hk ↦ ?_, hn⟩
  · have hday := hphase.due day hold hwait hdir
    rw [Tiers.Published, (hafter.swept day hday).parquet]
    exact hday
  · exact (hafter.swept day (hpublished hday)).parquet.trans (hphase.before day hday).parquet
  · have hday : s₁.Published day := by
      by_contra hnot
      obtain ⟨part, hpart, -⟩ := hpast
      rw [hafter.rest day hnot] at hpart
      exact Option.some_ne_none part hpart.symm
    have hswept := hafter.swept day hday
    refine hswept.removed ?_ ?_
    · rw [Tiers.PastGrace, ← hswept.parquet]
      exact hpast
    · rcases hphase.compacted day hday with hbefore | hcompacted
      · exact (hphase.before day hbefore).verified_iff.mpr (hverified hbefore)
      · exact hcompacted.2
  · have hsame := hphase.before day hday
    rw [(hafter.swept day (hpublished hday)).kept ?_ k hk]
    · exact hsame.gz k hk
    · rw [hsame.pastGrace_iff, hsame.verified_iff]
      exact hnot

/-! ## A pass on the third day -/

theorem TwoTiers.smooth_compact (n : ℕ) (S : TwoTiers) :
    Relation.ReflTransGen (TwoTiers.Smooth duck) S (S.compact duck n) := by
  induction n generalizing S with
  | zero => exact Relation.ReflTransGen.refl
  | succ n ih =>
    obtain ⟨t, p, _ | _ | ⟨c, k⟩⟩ := S
    · exact Relation.ReflTransGen.refl
    · exact Relation.ReflTransGen.refl
    · exact Relation.ReflTransGen.head (.compactor t p c k) (ih _)

/-- A line at the time 0, and a second one at the time `t`. -/
def twoLines (t : ℤ) : TwoTiers :=
  let started := (TwoTiers.fresh 0 { curKey := 0 } fun _ ↦ 0).write 10
  let first := (started.ask 0 [65]).write 40
  (first.ask t [66]).write 60

theorem runs_twoLines {t : ℤ} (ht : 0 ≤ t) :
    TwoTiers.Runs linesDuck (TwoTiers.fresh 0 { curKey := 0 } fun _ ↦ 0) (twoLines t) := by
  have hgood {S : TwoTiers}
      (h : TwoTiers.Runs linesDuck (TwoTiers.fresh 0 { curKey := 0 } fun _ ↦ 0) S) :
      S.Good linesDuck :=
    TwoTiers.Runs.good linesDuck_oneRowPerLine h (TwoTiers.good_fresh _ _ _)
  have hstarted := TwoTiers.runs_write linesDuck_oneRowPerLine 10 (hgood .refl)
  have hfirst := hstarted.trans (TwoTiers.runs_ask (t := 0) (by decide +kernel) [65] (Or.inl rfl))
  have hwritten := hfirst.trans (TwoTiers.runs_write linesDuck_oneRowPerLine 40 (hgood hfirst))
  have hsecond := hwritten.trans (TwoTiers.runs_ask ht [66] (Or.inl rfl))
  exact hsecond.trans (TwoTiers.runs_write linesDuck_oneRowPerLine 60 (hgood hsecond))

/-- The programs that have come to their end, as a test. -/
def isFinished : CompactIO ℕ → Bool
  | .call _ _ => false
  | _ => true

theorem finished_of_isFinished {q : CompactIO ℕ} (h : isFinished q = true) : Finished q := by
  cases q with
  | done n => exact Or.inl ⟨n, rfl⟩
  | raise e => exact Or.inr ⟨e, rfl⟩
  | call c k => exact absurd h Bool.false_ne_true

theorem plain_eq_none_of_keys {k : HourKey}
    (h : ∀ p ∈ s.site.disk.keys, p.ext = .ndjson → dayOf p.hour ≠ day) (hk : dayOf k = day) :
    s.site.hours.plain k = none := by
  rw [Site.hours, Option.map_eq_none_iff, AList.lookup_eq_none]
  exact fun hmem ↦ h _ hmem rfl hk

/-- The first day is published, its raw file is gone, and the pass has found nothing amiss. -/
theorem pass_result_threeDays :
    compactedDay.tiers.Published 0 ∧ compactedDay.tiers.site.hours.gz 0 = none ∧
      compactedDay.compactor =
        done {day | threeDays.tiers.Stuck linesDuck 0 (3 * nanosecondsPerDay) day}.ncard := by
  have hend : Finished compactedDay.compactor := finished_of_isFinished (by decide +kernel)
  have hruns : TwoTiers.Runs linesDuck (TwoTiers.fresh 0 { curKey := 0 } fun _ ↦ 0) threeDays :=
    runs_twoLines (by decide)
  have hnow : 3 * nanosecondsPerDay ≤ threeDays.tiers.site.time := by decide +kernel
  obtain ⟨hpublish, -, hremoved, -, hcount⟩ := pass_result linesDuck_oneRowPerLine hruns 0
    hnow (TwoTiers.smooth_compact 60 _) hend
  have hkeys : ∀ p ∈ threeDays.tiers.site.disk.keys, p.ext = .ndjson → dayOf p.hour ≠ 0 := by
    decide +kernel
  have hpublished : compactedDay.tiers.Published 0 :=
    hpublish 0 (by decide)
      ⟨⟨by decide +kernel, fun _ ↦ plain_eq_none_of_keys hkeys⟩, by decide +kernel⟩
      ⟨0, by decide +kernel, rfl⟩
  refine ⟨hpublished, hremoved 0 ?_ ?_ 0 rfl, hcount⟩
  · obtain ⟨part, hpart⟩ := Option.isSome_iff_exists.mp hpublished
    exact ⟨part, hpart, Or.inl le_rfl⟩
  · intro hbefore
    have hnot : (threeDays.tiers.store.parquet.lookup 0).isSome = false := by decide +kernel
    exact absurd (hnot.symm.trans hbefore) Bool.false_ne_true

end GtfsStream.Archive
