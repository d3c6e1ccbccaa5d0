import GtfsStream.Archive.PassGates

/-!
# The turns of a day

A pass gives each day it takes up a turn, to be compacted, and each published day a turn, to have
its raw files removed. A turn leaves alone what there is of other days, and the writer leaves alone
what there is of closed days. So what a turn comes to is a matter of the day as it was when the pass
began: `Tiers.Same` says that it still is like that.

## How a turn is proved

The calls of a turn are followed one by one. Before each of them the condition says what of the
temporary directory is there already and that the day is as it was; after it comes whatever the
writer does, which does not touch a closed day. A turn that raises has its own conclusion, since the
pass catches the error and goes on with the next day. What the turn leaves is said in terms of the
day as it was at the beginning, so that turns of different days can be put one after the other.
-/

namespace GtfsStream.Archive

open Program
open CompactCall (gzPaths selectFrom)

variable {duck : DuckDB} {s s' s₀ : Tiers} {day d : DayKey} {part : Partition}

namespace Tiers

/-- What the turn of a day leaves alone: the plain files, and the raw files and the partitions of
other days. -/
structure Turn (day : DayKey) (s s' : Tiers) : Prop where
  time : s'.site.time = s.site.time
  plain : ∀ k, s'.site.hours.plain k = s.site.hours.plain k
  gz : ∀ k, dayOf k ≠ day → s'.site.hours.gz k = s.site.hours.gz k
  parquet : ∀ d, d ≠ day → s'.store.parquet.lookup d = s.store.parquet.lookup d

theorem Turn.of_eq (hsite : s'.site = s.site) (hparquet : s'.store.parquet = s.store.parquet) :
    s.Turn day s' := by
  refine ⟨?_, fun k ↦ ?_, fun k _ ↦ ?_, fun d _ ↦ ?_⟩
  · rw [hsite]
  · rw [hsite]
  · rw [hsite]
  · rw [hparquet]

theorem Turn.refl (day : DayKey) (s : Tiers) : s.Turn day s := Turn.of_eq rfl rfl

theorem Turn.closed (h : s.Turn d s') (hday : s.Closed day) : s'.Closed day := by
  refine ⟨?_, fun k hk ↦ ?_⟩
  · rw [h.time]
    exact hday.1
  · rw [h.plain]
    exact hday.2 k hk

/-- The day is closed, and it has the raw files that it had in `s₀`. -/
structure SameRaw (s₀ : Tiers) (day : DayKey) (s : Tiers) : Prop where
  closed : s.Closed day
  gz : ∀ k, dayOf k = day → s.site.hours.gz k = s₀.site.hours.gz k

/-- The day is closed, and there is of it what there was in `s₀`. -/
structure Same (s₀ : Tiers) (day : DayKey) (s : Tiers) : Prop extends SameRaw s₀ day s where
  parquet : s.store.parquet.lookup day = s₀.store.parquet.lookup day

theorem Same.refl (hday : s.Closed day) : s.Same day s := ⟨⟨hday, fun _ _ ↦ rfl⟩, rfl⟩

theorem stable_sameRaw (s₀ : Tiers) (day : DayKey) : Stable Writes (SameRaw s₀ day) := by
  intro s s' h hs
  refine ⟨h.closed_kept hs.closed, fun k hk ↦ ?_⟩
  rw [(h.closed day hs.closed k hk).2]
  exact hs.gz k hk

theorem stable_same (s₀ : Tiers) (day : DayKey) : Stable Writes (Same s₀ day) := by
  intro s s' h hs
  refine ⟨stable_sameRaw s₀ day s s' h hs.toSameRaw, ?_⟩
  rw [h.store]
  exact hs.parquet

theorem Same.turn (hs : s₀.Same day s) (h : s.Turn d s') (hd : day ≠ d) : s₀.Same day s' := by
  refine ⟨⟨h.closed hs.closed, fun k hk ↦ ?_⟩, ?_⟩
  · rw [h.gz k fun heq ↦ hd (hk.symm.trans heq)]
    exact hs.gz k hk
  · rw [h.parquet day hd]
    exact hs.parquet

/-! ## What depends on a day only -/

/-- The raw files are listed in the order of their hours, so the list is determined by them. -/
theorem SameRaw.gzPaths_eq (h : s₀.SameRaw day s) :
    gzPaths s.site.disk day = gzPaths s₀.site.disk day := by
  have hmem (p : Path) : p ∈ gzPaths s.site.disk day ↔ p ∈ gzPaths s₀.site.disk day := by
    rw [mem_gzPaths, mem_gzPaths]
    refine and_congr_left fun hp ↦ ?_
    obtain ⟨k, e⟩ := p
    obtain ⟨rfl, hk⟩ : e = .gz ∧ dayOf k = day := hp
    have hgz : s.site.disk.lookup ⟨k, .gz⟩ = s₀.site.disk.lookup ⟨k, .gz⟩ := h.gz k hk
    rw [hgz]
  have hsorted (t : Tiers) :
      (gzPaths t.site.disk day).Pairwise fun p q ↦ p.hour ≤ q.hour := by
    have : Std.Total fun p q : Path ↦ p.hour ≤ q.hour := ⟨fun p q ↦ le_total p.hour q.hour⟩
    have : IsTrans Path fun p q ↦ p.hour ≤ q.hour := ⟨fun _ _ _ ↦ le_trans⟩
    exact List.pairwise_insertionSort _ _
  refine List.Perm.eq_of_pairwise ?_ (hsorted s) (hsorted s₀)
    ((List.perm_ext_iff_of_nodup (nodup_gzPaths _ _) (nodup_gzPaths _ _)).mpr hmem)
  rintro ⟨j, e⟩ ⟨k, f⟩ hp hq hle hge
  obtain rfl : e = .gz := (mem_gzPaths.mp hp).2.1
  obtain rfl : f = .gz := (mem_gzPaths.mp hq).2.1
  obtain rfl : j = k := le_antisymm hle hge
  rfl

theorem SameRaw.selectFrom_eq (h : s₀.SameRaw day s) {p : Path}
    (hp : p ∈ gzPaths s₀.site.disk day) :
    selectFrom duck s.site.disk p = selectFrom duck s₀.site.disk p := by
  obtain ⟨-, hext, hday⟩ := mem_gzPaths.mp hp
  obtain ⟨k, e⟩ := p
  obtain rfl : e = .gz := hext
  have hlookup : s.site.disk.lookup ⟨k, .gz⟩ = s₀.site.disk.lookup ⟨k, .gz⟩ := h.gz k hday
  rw [selectFrom, selectFrom, hlookup]

theorem SameRaw.readable_iff (h : s₀.SameRaw day s) :
    (∀ p ∈ gzPaths s.site.disk day, Readable duck s p) ↔
      ∀ p ∈ gzPaths s₀.site.disk day, Readable duck s₀ p := by
  rw [h.gzPaths_eq]
  refine forall₂_congr fun p hp ↦ ?_
  rw [Readable, Readable, h.selectFrom_eq hp]

theorem SameRaw.rawLines_eq (h : s₀.SameRaw day s) :
    rawLines duck s day = rawLines duck s₀ day := by
  rw [rawLines, rawLines, h.gzPaths_eq]
  refine congrArg List.sum (List.map_congr_left fun p hp ↦ ?_)
  rw [selected, selected, h.selectFrom_eq hp]

theorem Same.verified_iff (h : s₀.Same day s) : Verified duck s day ↔ Verified duck s₀ day := by
  constructor
  · rintro ⟨hread, part, hpart, hrows⟩
    exact ⟨h.readable_iff.mp hread, part, h.parquet.symm.trans hpart,
      h.rawLines_eq.symm.trans hrows⟩
  · rintro ⟨hread, part, hpart, hrows⟩
    exact ⟨h.readable_iff.mpr hread, part, h.parquet.trans hpart, h.rawLines_eq.trans hrows⟩

theorem gzPaths_eq_nil_iff :
    gzPaths s.site.disk day = [] ↔ ∀ k, dayOf k = day → s.site.hours.gz k = none := by
  rw [List.eq_nil_iff_forall_not_mem]
  constructor
  · intro h k hk
    by_contra hne
    exact h ⟨k, .gz⟩ (mem_gzPaths.mpr ⟨Option.isSome_iff_ne_none.mpr hne, rfl, hk⟩)
  · rintro h ⟨k, e⟩ hp
    obtain ⟨hsome, rfl, hk⟩ := mem_gzPaths.mp hp
    exact Option.isSome_iff_ne_none.mp hsome (h k hk)

theorem Ready.readable (duck : DuckDB) (h : s.Ready day) :
    ∀ p ∈ gzPaths s.site.disk day, Readable duck s p := by
  rintro ⟨k, e⟩ hp
  obtain ⟨hsome, rfl, hk⟩ := mem_gzPaths.mp hp
  obtain ⟨f, hf⟩ := Option.isSome_iff_exists.mp hsome
  refine ⟨duck.select f.bytes, ?_⟩
  rw [selectFrom, hf]
  exact if_pos (h.complete k hk f hf)

end Tiers

/-! ## Being compacted -/

/-- The hours `paths` of the day are in the temporary directory, and no others. -/
structure Tiers.Staged (duck : DuckDB) (s₀ : Tiers) (day : DayKey) (paths : List Path)
    (s : Tiers) : Prop extends s₀.Same day s where
  staging : s.store.staging = paths.map fun p ↦ (p.hour, duck.copy (selected duck s₀ p))

theorem Tiers.stable_staged (s₀ : Tiers) (day : DayKey) (paths : List Path) :
    Stable Tiers.Writes (Tiers.Staged duck s₀ day paths) := by
  intro s s' h hs
  refine ⟨Tiers.stable_same s₀ day s s' h hs.toSame, ?_⟩
  rw [h.store]
  exact hs.staging

variable {E : CompactError → Tiers → Prop}

theorem passes_foldHour {path : Path} {folded : List Path} (hpath : path ∈ gzPaths s₀.site.disk day)
    (hread : Readable duck s₀ path) (h : s₀.Staged duck day folded s) :
    Passes duck (Tiers.Turn day) (fun _ ↦ Tiers.Staged duck s₀ day (folded ++ [path])) E
      (foldHour path) s := by
  obtain ⟨ls, hls⟩ := hread
  have hselected : selected duck s₀ path = ls := by rw [selected, hls]
  refine Passes.bind (Q := fun _ ↦ Tiers.Staged duck s₀ day folded) ?_ fun n s₁ h₁ ↦
    Passes.bind ?_ fun _ s₂ h₂ ↦ Keeps.done (Tiers.stable_staged s₀ day _) h₂
  · refine Passes.ask _ (Tiers.stable_staged s₀ day _) h (fun _ ↦ Tiers.stable_staged s₀ day _)
      fun s hs ↦ ⟨ls.length, s, ?_, Tiers.Turn.refl day s, hs⟩
    rw [CompactCall.apply, hs.selectFrom_eq hpath, hls]
    rfl
  · refine Passes.ask _ (Tiers.stable_staged s₀ day _) h₁ (fun _ ↦ Tiers.stable_staged s₀ day _)
      fun s hs ↦ ?_
    rw [CompactCall.apply, hs.selectFrom_eq hpath, hls]
    refine ⟨(), _, rfl, Tiers.Turn.of_eq rfl rfl, ⟨⟨hs.closed, hs.gz⟩, hs.parquet⟩, ?_⟩
    rw [hs.staging, List.map_append, List.map_singleton, hselected]

theorem passes_foldHours {paths folded : List Path}
    (hpaths : ∀ p ∈ paths, p ∈ gzPaths s₀.site.disk day) (hread : ∀ p ∈ paths, Readable duck s₀ p)
    (h : s₀.Staged duck day folded s) :
    Passes duck (Tiers.Turn day) (fun _ ↦ Tiers.Staged duck s₀ day (folded ++ paths)) E
      (foldHours paths) s := by
  induction paths generalizing s folded with
  | nil =>
    rw [List.append_nil]
    exact Keeps.done (Tiers.stable_staged s₀ day folded) h
  | cons path paths ih =>
    obtain ⟨hpath, hpaths⟩ := List.forall_mem_cons.mp hpaths
    obtain ⟨hreadPath, hread⟩ := List.forall_mem_cons.mp hread
    refine (passes_foldHour hpath hreadPath h).bind fun n s₁ h₁ ↦ ?_
    refine (ih hpaths hread h₁).bind fun m s₂ h₂ ↦ Keeps.done (Tiers.stable_staged s₀ day _) ?_
    rwa [List.append_cons]

/-- The day is closed, and its partition has as many rows as its raw files have lines. -/
def Tiers.Compacted (duck : DuckDB) (day : DayKey) (s : Tiers) : Prop :=
  s.Closed day ∧ Verified duck s day

theorem Tiers.Compacted.same (hs : s.Compacted duck day) (h : s.Same day s') :
    s'.Compacted duck day := ⟨h.closed, h.verified_iff.mpr hs.2⟩

theorem Tiers.stable_compacted (day : DayKey) :
    Stable Tiers.Writes (Tiers.Compacted duck day) := fun s s' h hs ↦
  hs.same (Tiers.stable_same s day s s' h (Tiers.Same.refl hs.1))

theorem Tiers.Staged.compacted (hduck : duck.OneRowPerLine)
    (hread : ∀ p ∈ gzPaths s₀.site.disk day, Readable duck s₀ p)
    (h : s₀.Staged duck day (gzPaths s₀.site.disk day) s) {t : Tiers} (hsite : t.site = s.site)
    {m : ℤ} (hpart : t.store.parquet.lookup day = some ⟨s.store.staging, m⟩) :
    t.Compacted duck day := by
  have hraw : s₀.SameRaw day t := by
    refine ⟨?_, fun k hk ↦ ?_⟩
    · rw [Tiers.Closed, hsite]
      exact h.closed
    · rw [hsite]
      exact h.gz k hk
  refine ⟨hraw.closed, hraw.readable_iff.mpr hread, _, hpart, ?_⟩
  rw [hraw.rawLines_eq, rawLines, Partition.rows, List.length_flatMap]
  dsimp only
  rw [h.staging, List.map_map]
  refine congrArg List.sum (List.map_congr_left fun p _ ↦ ?_)
  rw [Function.comp_apply, hduck.copy]

/-- **The turn of a day that can be compacted** publishes its partition. -/
theorem passes_compactDay (hduck : duck.OneRowPerLine) (h : s.Ready day) :
    Passes duck (Tiers.Turn day) (fun _ ↦ Tiers.Compacted duck day) E (compactDay day) s := by
  have hread := h.readable duck
  have hglob : Passes duck (Tiers.Turn day)
      (fun paths t ↦ paths = gzPaths s.site.disk day ∧ s.Same day t) E (ask (.globGz day)) s := by
    refine Passes.ask _ (Tiers.stable_same s day) (Tiers.Same.refl h.closed) (fun paths t t' ht hs ↦
      ⟨hs.1, Tiers.stable_same s day t t' ht hs.2⟩) fun t ht ↦ ?_
    exact ⟨_, t, rfl, Tiers.Turn.refl day t, ht.gzPaths_eq, ht⟩
  refine hglob.bind fun paths s₁ h₁ ↦ ?_
  obtain ⟨rfl, h₁⟩ := h₁
  have hne : gzPaths s.site.disk day ≠ [] := by
    rw [Ne, Tiers.gzPaths_eq_nil_iff]
    intro hnone
    obtain ⟨k, hk, hsome⟩ := h.raw
    exact hsome (hnone k hk)
  rw [if_neg hne]
  have hmkdtemp : Passes duck (Tiers.Turn day) (fun _ ↦ Tiers.Staged duck s day []) E
      (ask .mkdtemp) s₁ :=
    Passes.ask _ (Tiers.stable_same s day) h₁ (fun _ ↦ Tiers.stable_staged s day [])
      fun t ht ↦ ⟨(), _, rfl, Tiers.Turn.of_eq rfl rfl, ⟨⟨ht.closed, ht.gz⟩, ht.parquet⟩, rfl⟩
  refine hmkdtemp.bind fun _ s₂ h₂ ↦ ?_
  have hreplace (t : Tiers) (ht : s.Staged duck day (gzPaths s.site.disk day) t) :
      Passes duck (Tiers.Turn day) (fun _ ↦ Tiers.Compacted duck day) (fun _ _ ↦ False)
        (ask (.replace day)) t := by
    refine Passes.ask _ (Tiers.stable_staged s day _) ht (fun _ ↦ Tiers.stable_compacted day)
      fun t ht ↦ ?_
    have hnew : ¬(t.store.parquet.lookup day).isSome := by
      rw [ht.parquet, h.unpublished]
      exact Bool.false_ne_true
    rw [CompactCall.apply, if_neg hnew]
    refine ⟨(), _, rfl, ⟨rfl, fun _ ↦ rfl, fun _ _ ↦ rfl, fun d hd ↦ ?_⟩, ?_⟩
    · exact AList.lookup_insert_ne hd
    · exact ht.compacted hduck hread rfl (AList.lookup_insert _)
  refine Passes.bind (Q := fun _ ↦ Tiers.Compacted duck day) (Passes.tryCatch
    (F := fun _ _ ↦ False) ?_ fun _ _ hf ↦ hf.elim) fun n s₃ h₃ ↦ ?_
  · refine (passes_foldHours (fun _ hp ↦ hp) hread h₂).bind fun n s₃ h₃ ↦ ?_
    exact (hreplace s₃ h₃).bind fun _ s₄ h₄ ↦ Keeps.done (Tiers.stable_compacted day) h₄
  · have hrows : Passes duck (Tiers.Turn day) (fun _ ↦ Tiers.Compacted duck day) E
        (ask (.countRows day)) s₃ := by
      refine Passes.ask _ (Tiers.stable_compacted day) h₃ (fun _ ↦ Tiers.stable_compacted day)
        fun t ht ↦ ?_
      obtain ⟨part, hpart, -⟩ := ht.2.rows
      refine ⟨part.rows.length, t, ?_, Tiers.Turn.refl day t, ht⟩
      rw [CompactCall.apply, hpart]
    exact hrows.bind fun _ s₄ h₄ ↦ Keeps.done (Tiers.stable_compacted day) h₄

/-! ## Having the raw files removed -/

/-- The day is published, and the grace period of its raw files is over. -/
def Tiers.PastGrace (s : Tiers) (keepRawDays now : ℤ) (day : DayKey) : Prop :=
  ∃ part, s.store.parquet.lookup day = some part ∧ graceElapsed part.mtime keepRawDays now

/-- The raw files of the day should go, but are not verified. -/
structure Tiers.Stuck (duck : DuckDB) (s : Tiers) (keepRawDays now : ℤ) (day : DayKey) : Prop where
  raw : ∃ k, dayOf k = day ∧ s.site.hours.gz k ≠ none
  pastGrace : s.PastGrace keepRawDays now day
  unverified : ¬Verified duck s day

/-- The day after its turn: its raw files are gone if they were due and verified, and otherwise
still there. -/
structure Tiers.Swept (duck : DuckDB) (s₀ : Tiers) (keepRawDays now : ℤ) (day : DayKey)
    (s : Tiers) : Prop where
  closed : s.Closed day
  parquet : s.store.parquet.lookup day = s₀.store.parquet.lookup day
  removed : s₀.PastGrace keepRawDays now day → Verified duck s₀ day →
    ∀ k, dayOf k = day → s.site.hours.gz k = none
  kept : ¬(s₀.PastGrace keepRawDays now day ∧ Verified duck s₀ day) →
    ∀ k, dayOf k = day → s.site.hours.gz k = s₀.site.hours.gz k

variable {keepRawDays now : ℤ}

theorem Tiers.Same.pastGrace_iff (h : s₀.Same day s) :
    s.PastGrace keepRawDays now day ↔ s₀.PastGrace keepRawDays now day := by
  rw [PastGrace, PastGrace, h.parquet]

theorem Tiers.Same.stuck_iff (h : s₀.Same day s) :
    s.Stuck duck keepRawDays now day ↔ s₀.Stuck duck keepRawDays now day := by
  have hraw : (∃ k, dayOf k = day ∧ s.site.hours.gz k ≠ none) ↔
      ∃ k, dayOf k = day ∧ s₀.site.hours.gz k ≠ none :=
    exists_congr fun k ↦ and_congr_right fun hk ↦ by rw [h.gz k hk]
  constructor
  · rintro ⟨hsome, hgrace, hnot⟩
    exact ⟨hraw.mp hsome, h.pastGrace_iff.mp hgrace, fun hv ↦ hnot (h.verified_iff.mpr hv)⟩
  · rintro ⟨hsome, hgrace, hnot⟩
    exact ⟨hraw.mpr hsome, h.pastGrace_iff.mpr hgrace, fun hv ↦ hnot (h.verified_iff.mp hv)⟩

theorem Tiers.Same.swept (h : s₀.Same day s)
    (hnone : s₀.PastGrace keepRawDays now day → Verified duck s₀ day →
      gzPaths s₀.site.disk day = []) : s₀.Swept duck keepRawDays now day s := by
  refine ⟨h.closed, h.parquet, fun hgrace hverified k hk ↦ ?_, fun _ ↦ h.gz⟩
  rw [h.gz k hk]
  exact gzPaths_eq_nil_iff.mp (hnone hgrace hverified) k hk

theorem Tiers.stable_swept (s₀ : Tiers) (day : DayKey) :
    Stable Tiers.Writes (s₀.Swept duck keepRawDays now day) := by
  intro s s' h hs
  have hsame := Tiers.stable_same s day s s' h (Tiers.Same.refl hs.closed)
  refine ⟨hsame.closed, hsame.parquet.trans hs.parquet, fun hgrace hverified k hk ↦ ?_,
    fun hnot k hk ↦ ?_⟩
  · exact (hsame.gz k hk).trans (hs.removed hgrace hverified k hk)
  · exact (hsame.gz k hk).trans (hs.kept hnot k hk)

theorem Tiers.Swept.turn (hs : s₀.Swept duck keepRawDays now day s) (h : s.Turn d s')
    (hd : day ≠ d) : s₀.Swept duck keepRawDays now day s' := by
  have hsame := (Tiers.Same.refl hs.closed).turn h hd
  refine ⟨hsame.closed, hsame.parquet.trans hs.parquet, fun hgrace hverified k hk ↦ ?_,
    fun hnot k hk ↦ ?_⟩
  · exact (hsame.gz k hk).trans (hs.removed hgrace hverified k hk)
  · exact (hsame.gz k hk).trans (hs.kept hnot k hk)

theorem passes_countAll {paths : List Path} (hpaths : ∀ p ∈ paths, p ∈ gzPaths s₀.site.disk day)
    (hread : ∀ p ∈ paths, Readable duck s₀ p) (h : s₀.Same day s) :
    Passes duck (Tiers.Turn day)
      (fun n t ↦ n = (paths.map fun p ↦ (selected duck s₀ p).length).sum ∧ s₀.Same day t) E
      (countAll paths) s := by
  have hQ {P : Prop} : Stable Tiers.Writes fun t ↦ P ∧ s₀.Same day t := fun t t' ht hs ↦
    ⟨hs.1, Tiers.stable_same s₀ day t t' ht hs.2⟩
  induction paths generalizing s with
  | nil => exact Keeps.done hQ ⟨rfl, h⟩
  | cons path paths ih =>
    obtain ⟨hpath, hpaths⟩ := List.forall_mem_cons.mp hpaths
    obtain ⟨⟨ls, hls⟩, hread⟩ := List.forall_mem_cons.mp hread
    have hcount : Passes duck (Tiers.Turn day) (fun n t ↦ n = ls.length ∧ s₀.Same day t) E
        (ask (.countLines path)) s := by
      refine Passes.ask _ (Tiers.stable_same s₀ day) h (fun _ ↦ hQ) fun t ht ↦
        ⟨ls.length, t, ?_, Tiers.Turn.refl day t, rfl, ht⟩
      rw [CompactCall.apply, ht.selectFrom_eq hpath, hls]
      rfl
    refine hcount.bind fun n s₁ h₁ ↦ (ih hpaths hread h₁.2).bind fun m s₂ h₂ ↦ Keeps.done hQ ?_
    rw [List.map_cons, List.sum_cons, h₁.1, h₂.1, selected, hls]
    exact ⟨rfl, h₂.2⟩

theorem Passes.orOnDuckError {G : Tiers → Tiers → Prop} {Q : ℕ → Tiers → Prop} {p : CompactIO ℕ}
    (hQ : ∀ n, Stable Tiers.Writes (Q n)) (h : Passes duck G Q (fun _ _ ↦ False) p s) :
    Passes duck G (fun r t ↦ ∃ n, r = some n ∧ Q n t) E (Archive.orOnDuckError p) s := by
  refine Passes.tryCatch (F := fun _ _ ↦ False) ?_ fun _ _ hf ↦ hf.elim
  refine Passes.bind h fun n s₁ h₁ ↦ Keeps.done ?_ ⟨n, rfl, h₁⟩
  rintro t t' ht ⟨m, hm, hs⟩
  exact ⟨m, hm, hQ m t t' ht hs⟩

theorem passes_verifyCounts (hpart : s₀.store.parquet.lookup day = some part)
    (hread : ∀ p ∈ gzPaths s₀.site.disk day, Readable duck s₀ p) (h : s₀.Same day s) :
    Passes duck (Tiers.Turn day)
      (fun b t ↦ (b = true ↔ Verified duck s₀ day) ∧ s₀.Same day t) E (verifyCounts day) s := by
  have hQ {P : Prop} : Stable Tiers.Writes fun t ↦ P ∧ s₀.Same day t := fun t t' ht hs ↦
    ⟨hs.1, Tiers.stable_same s₀ day t t' ht hs.2⟩
  have hsource (E : CompactError → Tiers → Prop) : Passes duck (Tiers.Turn day)
      (fun n t ↦ n = rawLines duck s₀ day ∧ s₀.Same day t) E (countSourceLines day) s := by
    refine Passes.bind (Q := fun paths t ↦ paths = gzPaths s₀.site.disk day ∧ s₀.Same day t)
      ?_ fun paths s₁ h₁ ↦ ?_
    · exact Passes.ask _ (Tiers.stable_same s₀ day) h (fun _ ↦ hQ) fun t ht ↦
        ⟨_, t, rfl, Tiers.Turn.refl day t, ht.gzPaths_eq, ht⟩
    · obtain ⟨rfl, h₁⟩ := h₁
      exact passes_countAll (fun _ hp ↦ hp) hread h₁
  have hrows (t : Tiers) (ht : s₀.Same day t) (E : CompactError → Tiers → Prop) :
      Passes duck (Tiers.Turn day) (fun n t ↦ n = part.rows.length ∧ s₀.Same day t) E
        (ask (.countRows day)) t := by
    refine Passes.ask _ (Tiers.stable_same s₀ day) ht (fun _ ↦ hQ) fun t ht ↦
      ⟨part.rows.length, t, ?_, Tiers.Turn.refl day t, rfl, ht⟩
    rw [CompactCall.apply, ht.parquet, hpart]
  refine (Passes.orOnDuckError (fun _ ↦ hQ) (hsource _)).bind fun r s₁ h₁ ↦ ?_
  obtain ⟨n, rfl, rfl, h₁⟩ := h₁
  refine (Passes.orOnDuckError (fun _ ↦ hQ) (hrows s₁ h₁ _)).bind fun r s₂ h₂ ↦ ?_
  obtain ⟨m, rfl, rfl, h₂⟩ := h₂
  refine Keeps.done hQ ⟨?_, h₂⟩
  rw [decide_eq_true_iff]
  constructor
  · exact fun heq ↦ ⟨hread, part, hpart, heq⟩
  · rintro ⟨-, part', hpart', heq⟩
    rwa [Option.some.inj (hpart.symm.trans hpart')]

/-- Of the raw files of the day only `paths` are left. -/
structure Tiers.Left (s₀ : Tiers) (day : DayKey) (paths : List Path) (s : Tiers) : Prop where
  closed : s.Closed day
  parquet : s.store.parquet.lookup day = s₀.store.parquet.lookup day
  nodup : paths.Nodup
  gz : ∀ k, dayOf k = day → (s.site.hours.gz k ≠ none ↔ (⟨k, .gz⟩ : Path) ∈ paths)
  raw : ∀ p ∈ paths, p.ext = .gz ∧ dayOf p.hour = day

theorem Tiers.stable_left (s₀ : Tiers) (day : DayKey) (paths : List Path) :
    Stable Tiers.Writes (s₀.Left day paths) := by
  intro s s' h hs
  have hsame := Tiers.stable_same s day s s' h (Tiers.Same.refl hs.closed)
  refine ⟨hsame.closed, hsame.parquet.trans hs.parquet, hs.nodup, fun k hk ↦ ?_, hs.raw⟩
  rw [hsame.gz k hk]
  exact hs.gz k hk

theorem passes_unlink {path : Path} {paths : List Path} (h : s₀.Left day (path :: paths) s) :
    Passes duck (Tiers.Turn day) (fun _ ↦ s₀.Left day paths) E (ask (.unlink path)) s := by
  refine Passes.ask _ (Tiers.stable_left s₀ day _) h (fun _ ↦ Tiers.stable_left s₀ day paths)
    fun t ht ↦ ?_
  obtain ⟨⟨hext, hday⟩, hraw⟩ := List.forall_mem_cons.mp ht.raw
  obtain ⟨hnot, hnodup⟩ := List.nodup_cons.mp ht.nodup
  obtain ⟨j, e⟩ := path
  obtain rfl : e = .gz := hext
  have hsome : (t.site.disk.lookup ⟨j, .gz⟩).isSome :=
    Option.isSome_iff_ne_none.mpr ((ht.gz j hday).mpr List.mem_cons_self)
  rw [CompactCall.apply, if_pos hsome]
  have hgz (k : HourKey) : (AList.erase ⟨j, .gz⟩ t.site.disk).lookup ⟨k, .gz⟩ =
      if k = j then none else t.site.hours.gz k := by
    by_cases hk : k = j
    · rw [if_pos hk, hk]
      exact AList.lookup_erase _ _
    · rw [if_neg hk]
      exact AList.lookup_erase_ne (by simpa using hk)
  have hplain (k : HourKey) :
      ((AList.erase ⟨j, .gz⟩ t.site.disk).lookup ⟨k, .ndjson⟩).map File.bytes =
        t.site.hours.plain k :=
    congrArg (Option.map File.bytes) (AList.lookup_erase_ne (by simp))
  refine ⟨(), _, rfl, ⟨rfl, hplain, fun k hk ↦ ?_, fun _ _ ↦ rfl⟩, ⟨ht.closed.1, fun k hk ↦ ?_⟩,
    ht.parquet, hnodup, fun k hk ↦ ?_, hraw⟩
  · refine (hgz k).trans (if_neg ?_)
    rintro rfl
    exact hk hday
  · exact (hplain k).trans (ht.closed.2 k hk)
  · refine Iff.trans (not_congr (Eq.congr_left (hgz k))) ?_
    by_cases hkj : k = j
    · rw [if_pos hkj, hkj]
      exact iff_of_false (not_not_intro rfl) hnot
    · rw [if_neg hkj]
      refine (ht.gz k hk).trans (List.mem_cons.trans (or_iff_right ?_))
      simpa using hkj

/-- **The turn of a published day** removes its raw files if they are due and verified. It raises
exactly if they are due and not verified. -/
theorem passes_deleteRawDay (hpart : s₀.store.parquet.lookup day = some part)
    (hread : ∀ p ∈ gzPaths s₀.site.disk day, Readable duck s₀ p) (h : s₀.Same day s) :
    Passes duck (Tiers.Turn day)
      (fun _ t ↦ ¬s₀.Stuck duck keepRawDays now day ∧ s₀.Swept duck keepRawDays now day t)
      (fun _ t ↦ s₀.Stuck duck keepRawDays now day ∧ s₀.Swept duck keepRawDays now day t)
      (deleteRawDay day keepRawDays now) s := by
  have hQ {P : Prop} : Stable Tiers.Writes fun t ↦ P ∧ s₀.Same day t := fun t t' ht hs ↦
    ⟨hs.1, Tiers.stable_same s₀ day t t' ht hs.2⟩
  have hswept {P : Prop} :
      Stable Tiers.Writes fun t ↦ P ∧ s₀.Swept duck keepRawDays now day t := fun t t' ht hs ↦
    ⟨hs.1, Tiers.stable_swept s₀ day t t' ht hs.2⟩
  refine Passes.bind (Q := fun paths t ↦ paths = gzPaths s₀.site.disk day ∧ s₀.Same day t)
    (Passes.ask _ (Tiers.stable_same s₀ day) h (fun _ ↦ hQ) fun t ht ↦
      ⟨_, t, rfl, Tiers.Turn.refl day t, ht.gzPaths_eq, ht⟩) fun paths s₁ h₁ ↦ ?_
  obtain ⟨rfl, h₁⟩ := h₁
  by_cases hnil : gzPaths s₀.site.disk day = []
  · rw [if_pos hnil]
    refine Keeps.done hswept ⟨fun hstuck ↦ ?_, h₁.swept fun _ _ ↦ hnil⟩
    obtain ⟨k, hk, hne⟩ := hstuck.raw
    exact hne (Tiers.gzPaths_eq_nil_iff.mp hnil k hk)
  rw [if_neg hnil]
  refine Passes.bind (Q := fun b t ↦ b = true ∧ s₀.Same day t)
    (Passes.ask _ (Tiers.stable_same s₀ day) h₁ (fun _ ↦ hQ) fun t ht ↦
      ⟨_, t, rfl, Tiers.Turn.refl day t, ?_, ht⟩) fun b s₂ h₂ ↦ ?_
  · rw [ht.parquet, hpart]
    rfl
  obtain ⟨rfl, h₂⟩ := h₂
  rw [if_neg (by simp)]
  refine Passes.bind (Q := fun m t ↦ m = part.mtime ∧ s₀.Same day t)
    (Passes.ask _ (Tiers.stable_same s₀ day) h₂ (fun _ ↦ hQ) fun t ht ↦
      ⟨part.mtime, t, ?_, Tiers.Turn.refl day t, rfl, ht⟩) fun m s₃ h₃ ↦ ?_
  · rw [CompactCall.apply, ht.parquet, hpart]
  obtain ⟨rfl, h₃⟩ := h₃
  by_cases hgrace : graceElapsed part.mtime keepRawDays now
  · rw [if_neg (not_not_intro hgrace)]
    have hpast : s₀.PastGrace keepRawDays now day := ⟨part, hpart, hgrace⟩
    refine (passes_verifyCounts hpart hread h₃).bind fun b s₄ h₄ ↦ ?_
    obtain ⟨hb, h₄⟩ := h₄
    cases b with
    | false =>
      have hnot : ¬Verified duck s₀ day := fun hv ↦ Bool.false_ne_true (hb.mpr hv)
      refine Keeps.raise hswept ⟨⟨?_, hpast, hnot⟩, h₄.swept fun _ hv ↦ absurd hv hnot⟩
      by_contra hnone
      refine hnil (Tiers.gzPaths_eq_nil_iff.mpr fun k hk ↦ ?_)
      by_contra hne
      exact hnone ⟨k, hk, hne⟩
    | true =>
      have hverified := hb.mp rfl
      rw [if_neg (by simp)]
      have hleft : s₀.Left day (gzPaths s₀.site.disk day) s₄ := by
        refine ⟨h₄.closed, h₄.parquet, nodup_gzPaths _ _, fun k hk ↦ ?_, fun p hp ↦
          (mem_gzPaths.mp hp).2⟩
        rw [h₄.gz k hk, mem_gzPaths, Option.isSome_iff_ne_none]
        exact (and_iff_left ⟨rfl, hk⟩).symm
      refine Passes.bind (Keeps.forEach Tiers.Writes.rely (Tiers.stable_left s₀ day []) hleft
        fun path paths t ht ↦ passes_unlink ht) fun _ s₅ h₅ ↦ Keeps.done hswept ?_
      refine ⟨fun hstuck ↦ hstuck.unverified hverified, h₅.closed, h₅.parquet,
        fun _ _ k hk ↦ ?_, fun hnot ↦ absurd ⟨hpast, hverified⟩ hnot⟩
      by_contra hne
      exact List.not_mem_nil ((h₅.gz k hk).mp hne)
  · rw [if_pos hgrace]
    have hnot : ¬s₀.PastGrace keepRawDays now day := by
      rintro ⟨part', hpart', hgrace'⟩
      rw [hpart] at hpart'
      obtain rfl := Option.some.inj hpart'
      exact hgrace hgrace'
    exact Keeps.done hswept ⟨fun hstuck ↦ hnot hstuck.pastGrace, h₃.swept fun hp ↦ absurd hp hnot⟩

end GtfsStream.Archive
