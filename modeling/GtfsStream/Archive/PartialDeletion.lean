import GtfsStream.Archive.CompactorSpec

/-!
# A deletion that is cut

The raw files of a compacted day are removed after their lines have been counted again. A crash
between two of the removals leaves some of the files, and the next pass compares what these hold
with the rows of all. So the day is cleaned up exactly if what was removed held no line, or if
nothing is left.

## The two parts

First one deletion is evaluated to its end, for any files: the lines of the raw files are counted,
compared with the rows, and the files are removed only if the counts agree. What a whole pass makes
of a day is this deletion, if the day is published and its grace period is over, among calls that do
not concern the day.

Then the deletion is cut at any of its calls, any number of times. What is left is some of the raw
files as they were, next to the partition, which is never written again. The next pass counts the
lines of what is left, so it finds fewer lines than rows unless those that were removed held none.
-/

namespace GtfsStream.Archive

open Program
open CompactCall (gzPaths selectFrom machine)

variable {duck : DuckDB} {s s' s₀ : Tiers} {day d : DayKey} {part : Partition}
  {paths : List Path} {keepRawDays now : ℤ}

/-! ## Counting again -/

/-- The lines that DuckDB reads from a file; none if it cannot be read. -/
def selected (duck : DuckDB) (s : Tiers) (p : Path) : List Bytes :=
  match selectFrom duck s.site.disk p with
  | .ok ls => ls
  | .error _ => []

/-- The number of lines in the raw files of a day. -/
def rawLines (duck : DuckDB) (s : Tiers) (day : DayKey) : ℕ :=
  ((gzPaths s.site.disk day).map fun p ↦ (selected duck s p).length).sum

def Readable (duck : DuckDB) (s : Tiers) (p : Path) : Prop :=
  ∃ ls, selectFrom duck s.site.disk p = .ok ls

/-- The raw files can be read, and the partition has as many rows as they have lines. -/
structure Verified (duck : DuckDB) (s : Tiers) (day : DayKey) : Prop where
  readable : ∀ p ∈ gzPaths s.site.disk day, Readable duck s p
  rows : ∃ part, s.store.parquet.lookup day = some part ∧ rawLines duck s day = part.rows.length

theorem selectFrom_error {e : CompactError} {p : Path}
    (h : selectFrom duck s.site.disk p = .error e) : e = .duckdb "read_csv" := by
  unfold selectFrom at h
  split at h
  · split_ifs at h
    exact (Except.error.inj h).symm
  · exact (Except.error.inj h).symm

theorem eval_countAll (hread : ∀ p ∈ paths, Readable duck s p) :
    (countAll paths).eval (machine duck) s =
      (.ok (paths.map fun p ↦ (selected duck s p).length).sum, s) := by
  induction paths with
  | nil => rfl
  | cons path paths ih =>
    obtain ⟨⟨ls, hls⟩, hrest⟩ := List.forall_mem_cons.mp hread
    have hcount : (ask (.countLines path)).eval (machine duck) s = (.ok ls.length, s) := by
      rw [ask, eval_perform]
      change ((selectFrom duck s.site.disk path).map List.length, s) = _
      rw [hls]
      rfl
    have hselected : selected duck s path = ls := by rw [selected, hls]
    rw [countAll, bind_eq, eval_bind_ok _ hcount, bind_eq, eval_bind_ok _ (ih hrest), List.map_cons,
      List.sum_cons, hselected]
    rfl

theorem eval_countAll_error (hread : ¬∀ p ∈ paths, Readable duck s p) :
    (countAll paths).eval (machine duck) s = (.error (.duckdb "read_csv"), s) := by
  induction paths with
  | nil => exact absurd (fun p hp ↦ absurd hp List.not_mem_nil) hread
  | cons path paths ih =>
    have hask : (ask (.countLines path)).eval (machine duck) s =
        ((selectFrom duck s.site.disk path).map List.length, s) := by
      rw [ask, eval_perform]
      rfl
    rw [countAll, bind_eq]
    rcases hselect : selectFrom duck s.site.disk path with e | ls
    · rw [hselect] at hask
      obtain rfl := selectFrom_error hselect
      rw [eval_bind_error _ hask]
    · rw [hselect] at hask
      have hrest : ¬∀ p ∈ paths, Readable duck s p := fun hrest ↦
        hread (List.forall_mem_cons.mpr ⟨⟨ls, hselect⟩, hrest⟩)
      rw [eval_bind_ok _ hask, bind_eq, eval_bind_error _ (ih hrest)]

theorem eval_orOnDuckError {p : CompactIO ℕ} {n : ℕ}
    (h : p.eval (machine duck) s = (.ok n, s')) :
    (orOnDuckError p).eval (machine duck) s = (.ok (some n), s') := by
  rw [orOnDuckError, eval_tryCatch, bind_eq, eval_bind_ok _ h]
  rfl

theorem eval_orOnDuckError_error {p : CompactIO ℕ} {call : String}
    (h : p.eval (machine duck) s = (.error (.duckdb call), s')) :
    (orOnDuckError p).eval (machine duck) s = (.ok none, s') := by
  rw [orOnDuckError, eval_tryCatch, bind_eq, eval_bind_error _ h]
  rfl

theorem eval_ask (c : CompactCall) : (ask c).eval (machine duck) s = c.apply duck s := by
  rw [ask, eval_perform]
  rfl

variable (duck) in
theorem eval_globGz (day : DayKey) (s : Tiers) :
    (ask (.globGz day)).eval (machine duck) s = (.ok (gzPaths s.site.disk day), s) := eval_ask _

theorem eval_outputExists (day : DayKey) (s : Tiers) :
    (ask (.outputExists day)).eval (machine duck) s =
      (.ok (s.store.parquet.lookup day).isSome, s) := eval_ask _

theorem eval_mtime (hpart : s.store.parquet.lookup day = some part) :
    (ask (.mtime day)).eval (machine duck) s = (.ok part.mtime, s) := by
  rw [eval_ask, CompactCall.apply, hpart]

theorem eval_verifyCounts (duck : DuckDB) (day : DayKey) (s : Tiers) :
    ∃ b, (verifyCounts day).eval (machine duck) s = (.ok b, s) ∧
      (b = true ↔ Verified duck s day) := by
  have hglob := eval_globGz duck day s
  rw [verifyCounts, bind_eq]
  by_cases hread : ∀ p ∈ gzPaths s.site.disk day, Readable duck s p
  · have hsource : (countSourceLines day).eval (machine duck) s =
        (.ok (rawLines duck s day), s) := by
      rw [countSourceLines, bind_eq, eval_bind_ok _ hglob, eval_countAll hread]
      rfl
    rw [eval_bind_ok _ (eval_orOnDuckError hsource)]
    dsimp only
    rw [bind_eq]
    have hask : (ask (.countRows day)).eval (machine duck) s =
        (CompactCall.countRows day).apply duck s := eval_ask _
    rw [CompactCall.apply] at hask
    cases hpart : s.store.parquet.lookup day with
    | none =>
      rw [hpart] at hask
      rw [eval_bind_ok _ (eval_orOnDuckError_error hask)]
      refine ⟨false, rfl, iff_of_false Bool.false_ne_true ?_⟩
      rintro ⟨-, part, hsome, -⟩
      exact absurd (hpart.symm.trans hsome) (Option.some_ne_none part).symm
    | some part =>
      rw [hpart] at hask
      rw [eval_bind_ok _ (eval_orOnDuckError hask)]
      refine ⟨decide (rawLines duck s day = part.rows.length), rfl, ?_⟩
      rw [decide_eq_true_iff]
      constructor
      · exact fun heq ↦ ⟨hread, part, hpart, heq⟩
      · rintro ⟨-, part', hsome, heq⟩
        rwa [Option.some.inj (hpart.symm.trans hsome)]
  · have hsource : (countSourceLines day).eval (machine duck) s =
        (.error (.duckdb "read_csv"), s) := by
      rw [countSourceLines, bind_eq, eval_bind_ok _ hglob, eval_countAll_error hread]
    rw [eval_bind_ok _ (eval_orOnDuckError_error hsource)]
    exact ⟨false, rfl, iff_of_false Bool.false_ne_true fun h ↦ hread h.readable⟩

/-! ## Deleting the raw files of a day -/

/-- The archive without some files. -/
def Tiers.without (s : Tiers) (paths : List Path) : Tiers :=
  { s with site := { s.site with disk := paths.foldl (fun disk p ↦ disk.erase p) s.site.disk } }

theorem lookup_without (paths : List Path) (p : Path) :
    (s.without paths).site.disk.lookup p = if p ∈ paths then none else s.site.disk.lookup p := by
  change (paths.foldl (fun disk p ↦ disk.erase p) s.site.disk).lookup p = _
  generalize s.site.disk = disk
  induction paths generalizing disk with
  | nil => rw [if_neg List.not_mem_nil, List.foldl_nil]
  | cons path paths ih =>
    rw [List.foldl_cons, ih]
    by_cases hpath : p = path
    · rw [hpath, if_pos List.mem_cons_self, AList.lookup_erase, ite_self]
    · rw [AList.lookup_erase_ne hpath]
      simp only [List.mem_cons, hpath, false_or]

variable (duck) in
theorem eval_unlinks (hnodup : paths.Nodup) (h : ∀ p ∈ paths, (s.site.disk.lookup p).isSome) :
    (forEach (fun path ↦ ask (.unlink path)) paths).eval (machine duck) s =
      (.ok (), s.without paths) := by
  induction paths generalizing s with
  | nil => rfl
  | cons path paths ih =>
    obtain ⟨hpath, hrest⟩ := List.forall_mem_cons.mp h
    obtain ⟨hnot, hnodup⟩ := List.nodup_cons.mp hnodup
    have hunlink : (ask (.unlink path)).eval (machine duck) s = (.ok (), s.without [path]) := by
      rw [eval_ask, CompactCall.apply, if_pos hpath]
      rfl
    rw [forEach, eval_bind_ok _ hunlink, ih hnodup fun p hp ↦ ?_]
    · rfl
    · rw [lookup_without, if_neg]
      · exact hrest p hp
      · rintro hmem
        rw [List.mem_singleton] at hmem
        exact hnot (hmem ▸ hp)

theorem nodup_gzPaths (d : Disk) (day : DayKey) : (gzPaths d day).Nodup :=
  (List.perm_insertionSort _ _).nodup_iff.mpr (d.nodupKeys.filter _)

variable (duck) in
/-- A day whose gates are open: its raw files are removed if they are verified, and kept if not. -/
theorem eval_deleteRawDay_of_gates (hraw : gzPaths s.site.disk day ≠ [])
    (hpart : s.store.parquet.lookup day = some part)
    (hgrace : graceElapsed part.mtime keepRawDays now) :
    (Verified duck s day → (deleteRawDay day keepRawDays now).eval (machine duck) s =
      (.ok (gzPaths s.site.disk day), s.without (gzPaths s.site.disk day))) ∧
    (¬Verified duck s day → (deleteRawDay day keepRawDays now).eval (machine duck) s =
      (.error (.verification day), s)) := by
  obtain ⟨b, hverify, hb⟩ := eval_verifyCounts duck day s
  rw [deleteRawDay, bind_eq, eval_bind_ok _ (eval_globGz duck day s), if_neg hraw, bind_eq,
    eval_bind_ok _ (eval_outputExists day s), hpart, Option.isSome_some,
    if_neg (not_not_intro rfl), bind_eq,
    eval_bind_ok _ (eval_mtime hpart), if_neg (not_not_intro hgrace), bind_eq,
    eval_bind_ok _ hverify, ← hb]
  constructor
  · intro hverified
    have hunlinks := eval_unlinks duck (nodup_gzPaths s.site.disk day) fun p hp ↦
      (mem_gzPaths.mp hp).1
    rw [if_neg (not_not_intro hverified), bind_eq, eval_bind_ok _ hunlinks]
    rfl
  · intro hverified
    rw [if_pos hverified]
    rfl

/-- **What deleting the raw files of a day comes to**: nothing, a failed verification that keeps
them, or their removal, all of them verified. -/
theorem eval_deleteRawDay (duck : DuckDB) (d : DayKey) (s : Tiers) (keepRawDays now : ℤ) :
    (deleteRawDay d keepRawDays now).eval (machine duck) s = (.ok [], s) ∨
    ¬Verified duck s d ∧ (deleteRawDay d keepRawDays now).eval (machine duck) s =
      (.error (.verification d), s) ∨
    Verified duck s d ∧ (deleteRawDay d keepRawDays now).eval (machine duck) s =
      (.ok (gzPaths s.site.disk d), s.without (gzPaths s.site.disk d)) := by
  by_cases hraw : gzPaths s.site.disk d = []
  · rw [deleteRawDay, bind_eq, eval_bind_ok _ (eval_globGz duck d s), if_pos hraw]
    exact Or.inl rfl
  cases hpart : s.store.parquet.lookup d with
  | none =>
    rw [deleteRawDay, bind_eq, eval_bind_ok _ (eval_globGz duck d s), if_neg hraw, bind_eq,
      eval_bind_ok _ (eval_outputExists d s), hpart, Option.isSome_none, if_pos Bool.false_ne_true]
    exact Or.inl rfl
  | some part =>
    by_cases hgrace : graceElapsed part.mtime keepRawDays now
    · obtain ⟨hremoved, hkept⟩ := eval_deleteRawDay_of_gates duck hraw hpart hgrace
      by_cases hverified : Verified duck s d
      · exact Or.inr (Or.inr ⟨hverified, hremoved hverified⟩)
      · exact Or.inr (Or.inl ⟨hverified, hkept hverified⟩)
    · rw [deleteRawDay, bind_eq, eval_bind_ok _ (eval_globGz duck d s), if_neg hraw, bind_eq,
        eval_bind_ok _ (eval_outputExists d s), hpart, Option.isSome_some,
        if_neg (not_not_intro rfl), bind_eq,
        eval_bind_ok _ (eval_mtime hpart), if_pos hgrace]
      exact Or.inl rfl

theorem eq_of_verification_failed
    (h : (deleteRawDay d keepRawDays now).eval (machine duck) s =
      (.error (.verification day), s')) :
    s' = s := by
  rcases eval_deleteRawDay duck d s keepRawDays now with hs | ⟨-, hs⟩ | ⟨-, hs⟩
  · rw [h] at hs
    exact (Prod.mk.inj hs).2
  · rw [h] at hs
    exact (Prod.mk.inj hs).2
  · rw [h] at hs
    exact absurd (Prod.mk.inj hs).1 (by simp)

/-! ## What a pass makes of a day -/

/-- The raw files of the day are `raw`, and its partition is `part`. -/
structure Holds (day : DayKey) (part : Partition) (raw : HourKey → Option File) (s : Tiers) :
    Prop where
  part : s.store.parquet.lookup day = some part
  raw : ∀ k, dayOf k = day → s.site.hours.gz k = raw k

variable {raw : HourKey → Option File}

theorem Holds.mem_gzPaths (h : Holds day part raw s) {p : Path} :
    p ∈ gzPaths s.site.disk day ↔ p.ext = .gz ∧ dayOf p.hour = day ∧ (raw p.hour).isSome := by
  rw [Archive.mem_gzPaths]
  constructor
  · rintro ⟨hsome, hext, hday⟩
    refine ⟨hext, hday, ?_⟩
    rw [← h.raw p.hour hday]
    obtain ⟨k, e⟩ := p
    obtain rfl : e = .gz := hext
    exact hsome
  · rintro ⟨hext, hday, hsome⟩
    rw [← h.raw p.hour hday] at hsome
    obtain ⟨k, e⟩ := p
    obtain rfl : e = .gz := hext
    exact ⟨hsome, rfl, hday⟩

theorem Holds.selectFrom_eq (h : Holds day part raw s) (h' : Holds day part raw s') {p : Path}
    (hp : p ∈ gzPaths s.site.disk day) :
    selectFrom duck s.site.disk p = selectFrom duck s'.site.disk p := by
  obtain ⟨hext, hday, -⟩ := h.mem_gzPaths.mp hp
  obtain ⟨k, e⟩ := p
  obtain rfl : e = .gz := hext
  have hlookup : s.site.disk.lookup ⟨k, .gz⟩ = s'.site.disk.lookup ⟨k, .gz⟩ :=
    (h.raw k hday).trans (h'.raw k hday).symm
  rw [selectFrom, selectFrom, hlookup]

theorem Holds.verified (h : Holds day part raw s) (h' : Holds day part raw s')
    (hverified : Verified duck s day) : Verified duck s' day := by
  have hperm : (gzPaths s.site.disk day).Perm (gzPaths s'.site.disk day) := by
    rw [List.perm_ext_iff_of_nodup (nodup_gzPaths _ _) (nodup_gzPaths _ _)]
    intro p
    rw [h.mem_gzPaths, h'.mem_gzPaths]
  obtain ⟨part', hpart', hcount⟩ := hverified.rows
  rw [h.part] at hpart'
  constructor
  · intro p hp
    rw [← hperm.mem_iff] at hp
    obtain ⟨ls, hls⟩ := hverified.readable p hp
    exact ⟨ls, (h.selectFrom_eq h' hp).symm.trans hls⟩
  · refine ⟨part', h'.part.trans hpart', ?_⟩
    rw [← hcount, rawLines, rawLines, ← (hperm.map _).sum_nat]
    refine congrArg List.sum (List.map_congr_left fun p hp ↦ ?_)
    rw [selected, selected, h.selectFrom_eq h' hp]

/-- Removing files of a day leaves the raw files of every other day, and those that are gone stay
gone. -/
theorem Holds.without (h : Holds day part raw s) (hd : d ≠ day ∨ ∀ k, raw k = none) :
    Holds day part raw (s.without (gzPaths s.site.disk d)) := by
  refine ⟨h.part, fun k hk ↦ ?_⟩
  have hlookup : (s.without (gzPaths s.site.disk d)).site.hours.gz k =
      if (⟨k, .gz⟩ : Path) ∈ gzPaths s.site.disk d then none else s.site.hours.gz k :=
    lookup_without _ _
  rw [hlookup, h.raw k hk]
  split_ifs with hmem
  · rcases hd with hd | hnone
    · exact absurd ((Archive.mem_gzPaths.mp hmem).2.2.symm.trans hk) hd
    · exact (hnone k).symm
  · rfl

variable (duck) in
/-- Of another day nothing is removed, and of a day without raw files neither. -/
theorem preserves_deleteRawDay (hd : d ≠ day ∨ ∀ k, raw k = none) :
    (deleteRawDay d keepRawDays now).Preserves (machine duck) (Holds day part raw) := by
  intro s hs
  rcases eval_deleteRawDay duck d s keepRawDays now with h | ⟨-, h⟩ | ⟨-, h⟩
  · rwa [h]
  · rwa [h]
  · rw [h]
    exact hs.without hd

theorem preserves_deleteRawDay_unverified :
    (deleteRawDay d keepRawDays now).Preserves (machine duck) fun s ↦
      Holds day part raw s ∧ ¬Verified duck s day := by
  rintro s ⟨hs, hnot⟩
  rcases eval_deleteRawDay duck d s keepRawDays now with h | ⟨-, h⟩ | ⟨hverified, h⟩
  · rw [h]
    exact ⟨hs, hnot⟩
  · rw [h]
    exact ⟨hs, hnot⟩
  · have hd : d ≠ day := fun heq ↦ hnot (heq ▸ hverified)
    have hs' := hs.without (Or.inl hd)
    rw [h]
    exact ⟨hs', fun hverified' ↦ hnot (hs'.verified hs hverified')⟩

/-- The raw files of a verified day are removed when it has its turn. -/
theorem holds_deleteRawDay (hs : Holds day part raw s) (hverified : Verified duck s day)
    (hgrace : graceElapsed part.mtime keepRawDays now) :
    Holds day part (fun _ ↦ none)
      ((deleteRawDay day keepRawDays now).eval (machine duck) s).2 := by
  by_cases hraw : gzPaths s.site.disk day = []
  · have hnone : Holds day part (fun _ ↦ none) s := by
      refine ⟨hs.part, fun k hk ↦ ?_⟩
      by_contra hsome
      have hmem : (⟨k, .gz⟩ : Path) ∈ gzPaths s.site.disk day :=
        Archive.mem_gzPaths.mpr ⟨Option.isSome_iff_ne_none.mpr hsome, rfl, hk⟩
      rw [hraw] at hmem
      exact List.not_mem_nil hmem
    exact preserves_deleteRawDay duck (Or.inr fun _ ↦ rfl) s hnone
  · rw [(eval_deleteRawDay_of_gates duck hraw hs.part hgrace).1 hverified]
    refine ⟨hs.part, fun k hk ↦ ?_⟩
    refine (lookup_without (s := s) (gzPaths s.site.disk day) ⟨k, .gz⟩).trans ?_
    split_ifs with hmem
    · rfl
    · by_contra hsome
      exact hmem (Archive.mem_gzPaths.mpr ⟨Option.isSome_iff_ne_none.mpr hsome, rfl, hk⟩)

/-! ## Passes -/

section

variable {I : Tiers → Prop} {f : DayKey → CompactIO Unit}

theorem preserves_countFailures {days : List DayKey}
    (hf : ∀ d ∈ days, (f d).Preserves (machine duck) I) :
    (countFailures f days).Preserves (machine duck) I := by
  induction days with
  | nil => exact Preserves.done
  | cons d days ih =>
    obtain ⟨hd, hdays⟩ := List.forall_mem_cons.mp hf
    exact ((hd.bind fun _ ↦ Preserves.done).tryCatch fun _ ↦ Preserves.done).bind fun _ ↦
      (ih hdays).bind fun _ ↦ Preserves.done

variable (duck f) in
/-- Every day has its turn: a failure is counted and does not keep the others from theirs. -/
theorem eval_countFailures (days : List DayKey) (s : Tiers) :
    ∃ n, (countFailures f days).eval (machine duck) s =
      (.ok n, days.foldl (fun s d ↦ ((f d).eval (machine duck) s).2) s) := by
  induction days generalizing s with
  | nil => exact ⟨0, rfl⟩
  | cons d days ih =>
    have hturn : ∃ n, (((f d).bind fun _ ↦ Program.done 0).tryCatch fun _ ↦
        Program.done 1).eval (machine duck) s = (.ok n, ((f d).eval (machine duck) s).2) := by
      rw [eval_tryCatch, eval_bind]
      rcases (f d).eval (machine duck) s with ⟨e | a, s'⟩
      · exact ⟨1, rfl⟩
      · exact ⟨0, rfl⟩
    obtain ⟨n, hn⟩ := hturn
    obtain ⟨m, hm⟩ := ih ((f d).eval (machine duck) s).2
    rw [countFailures, bind_eq, eval_bind_ok _ hn, bind_eq, eval_bind_ok _ hm]
    exact ⟨n + m, rfl⟩

theorem eval_countFailures_cons (d : DayKey) (days : List DayKey) (s : Tiers) :
    ((countFailures f (d :: days)).eval (machine duck) s).2 =
      ((countFailures f days).eval (machine duck) ((f d).eval (machine duck) s).2).2 := by
  obtain ⟨n, hn⟩ := eval_countFailures duck f (d :: days) s
  obtain ⟨m, hm⟩ := eval_countFailures duck f days ((f d).eval (machine duck) s).2
  rw [hn, hm]
  rfl

end

variable (duck) in
theorem holds_deletions {days : List DayKey} (hday : day ∈ days) (hs : Holds day part raw s)
    (hgrace : graceElapsed part.mtime keepRawDays now) :
    let s' := ((countFailures (fun d ↦ (deleteRawDay d keepRawDays now).bind fun _ ↦
      Program.done ()) days).eval (machine duck) s).2
    (Verified duck s day → Holds day part (fun _ ↦ none) s') ∧
      (¬Verified duck s day → Holds day part raw s') := by
  constructor
  · intro hverified
    induction days generalizing s with
    | nil => exact absurd hday List.not_mem_nil
    | cons d days ih =>
      rw [eval_countFailures_cons]
      have hstate : (((deleteRawDay d keepRawDays now).bind fun _ ↦ Program.done ()).eval
          (machine duck) s).2 = ((deleteRawDay d keepRawDays now).eval (machine duck) s).2 := by
        rw [eval_bind]
        rcases (deleteRawDay d keepRawDays now).eval (machine duck) s with ⟨e | a, s'⟩
        · rfl
        · rfl
      rw [hstate]
      by_cases hd : d = day
      · rw [hd]
        -- what has been removed stays removed in the turns of the other days
        exact preserves_countFailures (fun d' _ ↦ (preserves_deleteRawDay
          duck (Or.inr fun _ ↦ rfl)).bind fun _ ↦ Preserves.done) _
          (holds_deleteRawDay hs hverified hgrace)
      · have hs' : Holds day part raw ((deleteRawDay d keepRawDays now).eval (machine duck) s).2 :=
          preserves_deleteRawDay duck (Or.inl hd) s hs
        exact ih ((List.mem_cons.mp hday).resolve_left (Ne.symm hd)) hs' (hs.verified hs' hverified)
  · intro hnot
    exact (preserves_countFailures (fun d _ ↦ preserves_deleteRawDay_unverified.bind fun _ ↦
      Preserves.done) s ⟨hs, hnot⟩).1

theorem preserves_ask {c : CompactCall} (hc : ∀ p, c ≠ .unlink p) :
    (ask c).Preserves (machine duck) (Holds day part raw) := by
  refine Preserves.perform fun s hs ↦ ?_
  change Holds day part raw (c.apply duck s).2
  cases c with
  | dayDirectories => exact hs
  | hasPlain d => exact hs
  | outputExists d => exact hs
  | globGz d => exact hs
  | mkdtemp => exact ⟨hs.part, hs.raw⟩
  | countLines p => exact hs
  | copyHour p =>
    rw [CompactCall.apply]
    cases selectFrom duck s.site.disk p with
    | error e => exact hs
    | ok ls => exact ⟨hs.part, hs.raw⟩
  | replace d =>
    rw [CompactCall.apply]
    split_ifs with hpublished
    · exact hs
    · refine ⟨?_, hs.raw⟩
      refine (AList.lookup_insert_ne fun heq ↦ hpublished ?_).trans hs.part
      rw [← heq, hs.part]
      rfl
  | rmtree => exact ⟨hs.part, hs.raw⟩
  | countRows d =>
    rw [countRows_same]
    exact hs
  | compactedDays => exact hs
  | mtime d =>
    rw [mtime_same]
    exact hs
  | unlink p => exact absurd rfl (hc p)

theorem eval_eligibleDays (duck : DuckDB) (now : ℤ) (s : Tiers) :
    ∃ days, (eligibleDays now).eval (machine duck) s = (.ok days, s) := by
  have hlook {α : Type} {p : CompactIO α} {a a' : α} (h : p.eval (machine duck) s = (.ok a, s)) :
      (orOnOSError p a').eval (machine duck) s = (.ok a, s) := by
    rw [orOnOSError, eval_tryCatch, h]
  have hamong (days : List DayKey) :
      ∃ eligible, (eligibleAmong now days).eval (machine duck) s = (.ok eligible, s) := by
    induction days with
    | nil => exact ⟨[], rfl⟩
    | cons d days ih =>
      obtain ⟨eligible, heligible⟩ := ih
      rw [eligibleAmong]
      split_ifs with hold
      · rw [hasPlainNdjson, bind_eq, eval_bind_ok _ (hlook (eval_ask (.hasPlain d)))]
        split_ifs
        · exact ⟨eligible, heligible⟩
        · rw [bind_eq, eval_bind_ok _ (eval_outputExists d s)]
          split_ifs
          · exact ⟨eligible, heligible⟩
          · rw [bind_eq, eval_bind_ok _ heligible]
            exact ⟨d :: eligible, rfl⟩
      · exact ⟨eligible, heligible⟩
  obtain ⟨eligible, heligible⟩ := hamong (s.site.opened.map dayOf).dedup
  rw [eligibleDays, bind_eq, eval_bind_ok _ (hlook (eval_ask .dayDirectories)), bind_eq,
    eval_bind_ok _ heligible]
  exact ⟨_, rfl⟩

theorem preserves_compactDay (d : DayKey) :
    (compactDay d).Preserves (machine duck) (Holds day part raw) := by
  have hfold (paths : List Path) :
      (foldHours paths).Preserves (machine duck) (Holds day part raw) := by
    induction paths with
    | nil => exact Preserves.done
    | cons path paths ih =>
      refine Preserves.bind ?_ fun n ↦ ih.bind fun m ↦ Preserves.done
      exact (preserves_ask (by simp)).bind fun n ↦
        (preserves_ask (by simp)).bind fun _ ↦ Preserves.done
  refine (preserves_ask (by simp)).bind fun (paths : List Path) ↦ ?_
  split_ifs
  · exact Preserves.done
  · refine (preserves_ask (by simp)).bind fun _ ↦ Preserves.bind (Preserves.tryCatch ?_ fun e ↦ ?_)
      fun n ↦ (preserves_ask (by simp)).bind fun m ↦ Preserves.done
    · exact (hfold paths).bind fun n ↦ (preserves_ask (by simp)).bind fun _ ↦ Preserves.done
    · exact (preserves_ask (by simp)).bind fun _ ↦ Preserves.raise

variable (duck) in
/-- **A pass removes the raw files of a day that is due** exactly if they are verified, and keeps
them all otherwise. -/
theorem holds_runOnce (hs : Holds day part raw s)
    (hgrace : graceElapsed part.mtime keepRawDays now) :
    let s' := ((runOnce keepRawDays now).eval (machine duck) s).2
    (Verified duck s day → Holds day part (fun _ ↦ none) s') ∧
      (¬Verified duck s day → Holds day part raw s') := by
  obtain ⟨days, hdays⟩ := eval_eligibleDays duck now s
  have hcompact : (countFailures (fun d ↦ (compactDay d).bind fun _ ↦ Program.done ())
      days).Preserves (machine duck) (Holds day part raw) :=
    preserves_countFailures fun d _ ↦ (preserves_compactDay d).bind fun _ ↦ Preserves.done
  replace hcompact := hcompact s hs
  obtain ⟨n, hn⟩ := eval_countFailures duck
    (fun d ↦ (compactDay d).bind fun _ ↦ Program.done ()) days s
  rw [hn] at hcompact
  rw [runOnce, bind_eq, eval_bind_ok _ hdays, bind_eq, eval_bind_ok _ hn, bind_eq]
  generalize days.foldl (fun s d ↦ (((compactDay d).bind fun _ ↦ Program.done ()).eval
    (machine duck) s).2) s = s₁ at hcompact
  have hcompacted : (ask .compactedDays).eval (machine duck) s₁ =
      (.ok (s₁.store.parquet.keys.insertionSort (· ≤ ·)), s₁) := eval_ask _
  have hday : day ∈ s₁.store.parquet.keys.insertionSort (· ≤ ·) := by
    rw [List.mem_insertionSort, ← AList.mem_keys, ← AList.lookup_isSome, hcompact.part]
    rfl
  have hdelete := holds_deletions duck hday hcompact hgrace
  rw [eval_bind_ok _ hcompacted, bind_eq]
  obtain ⟨m, hm⟩ := eval_countFailures duck
    (fun d ↦ (deleteRawDay d keepRawDays now).bind fun _ ↦ Program.done ())
    (s₁.store.parquet.keys.insertionSort (· ≤ ·)) s₁
  rw [hm] at hdelete
  rw [eval_bind_ok _ hm]
  exact ⟨fun hverified ↦ hdelete.1 (hs.verified hcompact hverified),
    fun hnot ↦ hdelete.2 fun hverified ↦ hnot (hcompact.verified hs hverified)⟩

/-! ## Runs that are cut -/

/-- A run of the deletion that a crash cuts, at any of its calls. -/
def CutDeletion (duck : DuckDB) (day : DayKey) (s s' : Tiers) : Prop :=
  ∃ keepRawDays now, Exec (machine duck) (deleteRawDay day keepRawDays now) s (.crashed s')

/-- A program that only looks: however it ends, the archive is as it was. -/
def Looks (duck : DuckDB) {α : Type} (Q : α → Prop) (p : CompactIO α) (s : Tiers) : Prop :=
  p.Ensures (machine duck) (fun a s' ↦ s' = s ∧ Q a) (fun _ s' ↦ s' = s) (fun s' ↦ s' = s) s

section Looks

variable {α β : Type} {Q : α → Prop} {T : β → Prop}

theorem Looks.done {a : α} (h : Q a) : Looks duck Q (Program.done a) s := Ensures.done ⟨rfl, h⟩

theorem Looks.raise {e : CompactError} : Looks duck Q (Program.raise e) s := Ensures.raise rfl

theorem Looks.bind {p : CompactIO α} {f : α → CompactIO β} (h : Looks duck Q p s)
    (hf : ∀ a, Q a → Looks duck T (f a) s) : Looks duck T (p.bind f) s := by
  refine Ensures.bind h ?_
  rintro a s' ⟨rfl, ha⟩
  exact hf a ha

theorem Looks.tryCatch {p : CompactIO α} {k : CompactError → CompactIO α} (h : Looks duck Q p s)
    (hk : ∀ e, Looks duck Q (k e) s) : Looks duck Q (p.tryCatch k) s := by
  refine Ensures.tryCatch h ?_
  rintro e s' rfl
  exact hk e

theorem Looks.mono {Q' : α → Prop} {p : CompactIO α} (h : Looks duck Q p s)
    (hQ : ∀ a, Q a → Q' a) : Looks duck Q' p s :=
  Ensures.mono h fun a _ hs ↦ ⟨hs.1, hQ a hs.2⟩

theorem Looks.ask {c : CompactCall} (happly : (c.apply duck s).2 = s)
    (hcut : ∀ n, c.cut duck s n = s) :
    Looks duck (fun a ↦ (c.apply duck s).1 = .ok a) (Archive.ask c) s := by
  rw [Looks, Ensures, Archive.ask, wp_perform]
  refine ⟨?_, ?_, ?_⟩
  · have happly' : (machine duck).apply c s = c.apply duck s := rfl
    rw [happly']
    cases hc : (c.apply duck s).1 with
    | error e => exact happly
    | ok a => exact ⟨happly, rfl⟩
  · rintro r s' ⟨⟨e, rfl⟩, n, rfl⟩
    exact hcut n
  · rintro s' ⟨n, rfl⟩
    exact hcut n

end Looks

theorem looks_countAll (paths : List Path) :
    Looks duck (fun n ↦ (∀ p ∈ paths, Readable duck s p) ∧
      n = (paths.map fun p ↦ (selected duck s p).length).sum) (countAll paths) s := by
  induction paths with
  | nil => exact Looks.done ⟨fun p hp ↦ absurd hp List.not_mem_nil, rfl⟩
  | cons path paths ih =>
    refine Looks.bind (Looks.ask (countLines_same path s) fun n ↦ rfl) fun (n : ℕ) hn ↦ ?_
    refine ih.bind fun m hm ↦ Looks.done ?_
    obtain ⟨ls, hls⟩ : Readable duck s path := by
      rcases hselect : selectFrom duck s.site.disk path with e | ls
      · rw [CompactCall.apply, hselect] at hn
        cases hn
      · exact ⟨ls, hselect⟩
    rw [CompactCall.apply, hls] at hn
    refine ⟨List.forall_mem_cons.mpr ⟨⟨ls, hls⟩, hm.1⟩, ?_⟩
    rw [List.map_cons, List.sum_cons, ← hm.2, selected, hls]
    exact congrArg (· + m) (Except.ok.inj hn).symm

theorem Looks.orOnDuckError {p : CompactIO ℕ} {Q : ℕ → Prop} (h : Looks duck Q p s) :
    Looks duck (fun r ↦ ∀ n, r = some n → Q n) (Archive.orOnDuckError p) s := by
  refine Looks.tryCatch (h.bind fun n hn ↦ Looks.done ?_) fun e ↦ ?_
  · rintro m heq
    exact Option.some.inj heq ▸ hn
  · cases e with
    | duckdb call => exact Looks.done fun n heq ↦ absurd heq (Option.some_ne_none n).symm
    | os call => exact Looks.raise
    | verification d => exact Looks.raise

/-- Verification does not accept a day that is not verified, whichever of its calls fail. -/
theorem looks_verifyCounts (day : DayKey) :
    Looks duck (fun b ↦ b = true → Verified duck s day) (verifyCounts day) s := by
  have hsource : Looks duck (fun n ↦ (∀ p ∈ gzPaths s.site.disk day, Readable duck s p) ∧
      n = rawLines duck s day) (countSourceLines day) s := by
    refine Looks.bind (Looks.ask rfl fun n ↦ rfl) fun (paths : List Path) hpaths ↦ ?_
    obtain rfl : gzPaths s.site.disk day = paths := Except.ok.inj hpaths
    exact looks_countAll _
  refine hsource.orOnDuckError.bind fun r hr ↦ ?_
  cases r with
  | none => exact Looks.done fun h ↦ absurd h Bool.false_ne_true
  | some sourceLines =>
    obtain ⟨hread, hlines⟩ := hr sourceLines rfl
    refine (Looks.ask (countRows_same day s) fun n ↦ rfl).orOnDuckError.bind fun r hr ↦ ?_
    cases r with
    | none => exact Looks.done fun h ↦ absurd h Bool.false_ne_true
    | some parquetRows =>
      refine Looks.done fun heq ↦ ⟨hread, ?_⟩
      have hrows : (CompactCall.apply duck (.countRows day) s).1 = .ok parquetRows :=
        hr parquetRows rfl
      rw [CompactCall.apply] at hrows
      cases hpart : s.store.parquet.lookup day with
      | none =>
        rw [hpart] at hrows
        cases hrows
      | some part =>
        rw [hpart] at hrows
        have hcounts : sourceLines = parquetRows := of_decide_eq_true heq
        exact ⟨part, rfl, by rw [← hlines, hcounts]; exact (Except.ok.inj hrows).symm⟩

/-- A run of the deletion over a day that is not verified changes nothing, cut or not. -/
theorem looks_deleteRawDay (hnot : ¬Verified duck s day) :
    Looks duck (fun _ ↦ True) (deleteRawDay day keepRawDays now) s := by
  refine Looks.bind (Looks.ask rfl fun n ↦ rfl) fun (paths : List Path) _ ↦ ?_
  by_cases hraw : paths = []
  · rw [if_pos hraw]
    exact Looks.done trivial
  rw [if_neg hraw]
  refine Looks.bind (Looks.ask rfl fun n ↦ rfl) fun (b : Bool) _ ↦ ?_
  by_cases hout : ¬b = true
  · rw [if_pos hout]
    exact Looks.done trivial
  rw [if_neg hout]
  refine Looks.bind (Looks.ask (mtime_same day s) fun n ↦ rfl) fun (t : ℤ) _ ↦ ?_
  by_cases hgrace : ¬graceElapsed t keepRawDays now
  · rw [if_pos hgrace]
    exact Looks.done trivial
  rw [if_neg hgrace]
  refine (looks_verifyCounts day).bind fun b hb ↦ ?_
  by_cases hverified : b = true
  · exact absurd (hb hverified) hnot
  · rw [if_pos hverified]
    exact Looks.raise

theorem eq_of_cuts (hnot : ¬Verified duck s₀ day)
    (hcuts : Relation.ReflTransGen (CutDeletion duck day) s₀ s) : s = s₀ := by
  induction hcuts with
  | refl => rfl
  | tail _ hcut ih =>
    obtain rfl := ih
    obtain ⟨keepRawDays, now, hx⟩ := hcut
    exact wp_iff.mp (looks_deleteRawDay hnot) _ hx

/-- What may be left of a day: some of its raw files, as they were, and its partition. -/
structure Leftover (s₀ : Tiers) (day : DayKey) (part : Partition) (s : Tiers) : Prop where
  part : s.store.parquet.lookup day = some part
  raw : ∀ k, dayOf k = day → s.site.hours.gz k = none ∨ s.site.hours.gz k = s₀.site.hours.gz k

theorem Leftover.change (h : Leftover s₀ day part s) (hc : s.Change s') :
    Leftover s₀ day part s' := by
  cases hc with
  | stay hsite hparquet =>
    refine ⟨hparquet ▸ h.part, fun k hk ↦ ?_⟩
    rw [hsite]
    exact h.raw k hk
  | publish d part' hclosed hnew hrows hsite hparquet =>
    constructor
    · rw [hparquet, AList.lookup_insert_ne]
      · exact h.part
      · rintro rfl
        exact absurd (hnew.symm.trans h.part) (Option.some_ne_none part).symm
    · intro k hk
      rw [hsite]
      exact h.raw k hk
  | unlink j hout hsite hparquet =>
    refine ⟨hparquet ▸ h.part, fun k hk ↦ ?_⟩
    rw [hsite]
    by_cases hj : k = j
    · rw [hj]
      exact Or.inl (AList.lookup_erase _ _)
    · have hother : (s.site.disk.erase ⟨j, .gz⟩).lookup ⟨k, .gz⟩ = s.site.hours.gz k :=
        AList.lookup_erase_ne fun heq ↦ hj (Path.mk.inj heq).1
      rcases h.raw k hk with hnone | hsame
      · exact Or.inl (hother.trans hnone)
      · exact Or.inr (hother.trans hsame)

theorem Leftover.cuts (h : Leftover s₀ day part s)
    (hcuts : Relation.ReflTransGen (CutDeletion duck day) s s') : Leftover s₀ day part s' := by
  induction hcuts with
  | refl => exact h
  | tail _ hcut ih =>
    obtain ⟨keepRawDays, now, hx⟩ := hcut
    exact Keeps.exec (F := Leftover s₀ day part) Tiers.Beside.rely
      (fun _ _ hc hl ↦ hl.change hc) ih (compacts_deleteRawDay day keepRawDays now) hx

/-- What is left of a verified day is verified exactly if no line is missing. -/
theorem Leftover.verified_iff (h : Leftover s₀ day part s) (hpart : s₀.store.parquet.lookup day =
    some part) (hverified : Verified duck s₀ day) :
    Verified duck s day ↔ ∀ p ∈ gzPaths s₀.site.disk day, p ∉ gzPaths s.site.disk day →
      selected duck s₀ p = [] := by
  have hsame {p : Path} (hp : p ∈ gzPaths s.site.disk day) :
      s.site.disk.lookup p = s₀.site.disk.lookup p := by
    obtain ⟨hsome, hext, hday⟩ := mem_gzPaths.mp hp
    obtain ⟨k, e⟩ := p
    obtain rfl : e = .gz := hext
    rcases h.raw k hday with hnone | hsame
    · have hlookup : s.site.disk.lookup ⟨k, .gz⟩ = none := hnone
      rw [hlookup] at hsome
      exact absurd hsome Bool.false_ne_true
    · exact hsame
  have hmem {p : Path} (hp : p ∈ gzPaths s.site.disk day) : p ∈ gzPaths s₀.site.disk day := by
    have hlookup := hsame hp
    obtain ⟨hsome, hext, hday⟩ := mem_gzPaths.mp hp
    exact mem_gzPaths.mpr ⟨hlookup ▸ hsome, hext, hday⟩
  have hselect {p : Path} (hp : p ∈ gzPaths s.site.disk day) :
      selectFrom duck s.site.disk p = selectFrom duck s₀.site.disk p := by
    rw [selectFrom, selectFrom, hsame hp]
  -- the raw files of before are those that are left and those that were removed
  let removed := (gzPaths s₀.site.disk day).filter (· ∉ gzPaths s.site.disk day)
  have hperm : (gzPaths s₀.site.disk day).Perm (gzPaths s.site.disk day ++ removed) := by
    rw [List.perm_ext_iff_of_nodup (nodup_gzPaths _ _)]
    · intro p
      rw [List.mem_append, List.mem_filter, decide_eq_true_iff]
      by_cases hp : p ∈ gzPaths s.site.disk day
      · exact iff_of_true (hmem hp) (Or.inl hp)
      · exact ⟨fun h ↦ Or.inr ⟨h, hp⟩, fun h ↦ (h.resolve_left hp).1⟩
    · refine List.nodup_append.mpr ⟨nodup_gzPaths _ _, (nodup_gzPaths _ _).filter _, ?_⟩
      rintro p hp q hq rfl
      exact of_decide_eq_true (List.mem_filter.mp hq).2 hp
  have hcount : rawLines duck s₀ day =
      rawLines duck s day + (removed.map fun p ↦ (selected duck s₀ p).length).sum := by
    rw [rawLines, (hperm.map _).sum_nat, List.map_append, List.sum_append, rawLines]
    refine congrArg (· + _) (congrArg List.sum (List.map_congr_left fun p hp ↦ ?_))
    rw [selected, selected, hselect hp]
  -- the counts agree again exactly if the removed files had no lines
  have hremoved : (removed.map fun p ↦ (selected duck s₀ p).length).sum = 0 ↔
      ∀ p ∈ gzPaths s₀.site.disk day, p ∉ gzPaths s.site.disk day → selected duck s₀ p = [] := by
    rw [List.sum_eq_zero_iff_forall_eq_nat]
    constructor
    · intro hzero p hp hgone
      exact List.length_eq_zero_iff.mp (hzero _ (List.mem_map.mpr
        ⟨p, List.mem_filter.mpr ⟨hp, decide_eq_true hgone⟩, rfl⟩))
    · intro hnone n hn
      obtain ⟨p, hp, rfl⟩ := List.mem_map.mp hn
      obtain ⟨hp, hgone⟩ := List.mem_filter.mp hp
      exact List.length_eq_zero_iff.mpr (hnone p hp (of_decide_eq_true hgone))
  obtain ⟨part', hpart', hrows⟩ := hverified.rows
  obtain rfl : part = part' := Option.some.inj (hpart.symm.trans hpart')
  rw [← hremoved]
  constructor
  · intro hleft
    obtain ⟨part', hpart', hrows'⟩ := hleft.rows
    obtain rfl : part = part' := Option.some.inj (h.part.symm.trans hpart')
    omega
  · intro hzero
    refine ⟨fun p hp ↦ ?_, part, h.part, by omega⟩
    obtain ⟨ls, hls⟩ := hverified.readable p (hmem hp)
    exact ⟨ls, (hselect hp).trans hls⟩

/-! ## The days that compaction leaves -/

/-- The archive with some hours folded into the temporary directory. -/
def Tiers.folded (duck : DuckDB) (s : Tiers) (paths : List Path) : Tiers :=
  { s with store := { s.store with
    staging := s.store.staging ++ paths.map fun p ↦ (p.hour, duck.copy (selected duck s p)) } }

theorem eval_foldHours (hread : ∀ p ∈ paths, Readable duck s p) :
    ∃ n, (foldHours paths).eval (machine duck) s = (.ok n, s.folded duck paths) := by
  induction paths generalizing s with
  | nil => exact ⟨0, by rw [Tiers.folded, List.map_nil, List.append_nil]; rfl⟩
  | cons path paths ih =>
    obtain ⟨⟨ls, hls⟩, hrest⟩ := List.forall_mem_cons.mp hread
    have hcount : (ask (.countLines path)).eval (machine duck) s = (.ok ls.length, s) := by
      rw [eval_ask, CompactCall.apply, hls]
      rfl
    have hcopy : (ask (.copyHour path)).eval (machine duck) s = (.ok (), s.folded duck [path]) := by
      rw [eval_ask, CompactCall.apply, hls, Tiers.folded, List.map_singleton, selected, hls]
    have hfold : (foldHour path).eval (machine duck) s = (.ok ls.length, s.folded duck [path]) := by
      rw [foldHour, bind_eq, eval_bind_ok _ hcount, bind_eq, eval_bind_ok _ hcopy]
      rfl
    obtain ⟨n, hn⟩ := ih (s := s.folded duck [path]) hrest
    have htwice : (s.folded duck [path]).folded duck paths = s.folded duck (path :: paths) := by
      change Tiers.mk s.site _ = Tiers.mk s.site _
      rw [List.map_cons, List.append_cons]
      rfl
    rw [foldHours, bind_eq, eval_bind_ok _ hfold, bind_eq, eval_bind_ok _ hn, htwice]
    exact ⟨ls.length + n, rfl⟩

/-- **What compaction publishes is verified**, if every raw file can be read and one row is written
for each line. -/
theorem verified_compactDay (hcopy : ∀ ls, (duck.copy ls).length = ls.length)
    (hraw : gzPaths s.site.disk day ≠ [])
    (hread : ∀ p ∈ gzPaths s.site.disk day, Readable duck s p)
    (hnew : s.store.parquet.lookup day = none) :
    Verified duck ((compactDay day).eval (machine duck) s).2 day := by
  let empty : Tiers := { s with store := { s.store with staging := [] } }
  let full : Tiers := empty.folded duck (gzPaths s.site.disk day)
  let published : Tiers := { full with store := { full.store with
    parquet := s.store.parquet.insert day ⟨full.store.staging, s.store.mtimes day⟩
    staging := [] } }
  have hmkdtemp : (ask .mkdtemp).eval (machine duck) s = (.ok (), empty) := eval_ask _
  obtain ⟨n, hn⟩ := eval_foldHours (s := empty) hread
  have hreplace : (ask (.replace day)).eval (machine duck) full = (.ok (), published) := by
    rw [eval_ask, CompactCall.apply]
    change (if (s.store.parquet.lookup day).isSome then _ else _) = _
    rw [if_neg (by rw [hnew]; simp)]
    rfl
  have hpart : published.store.parquet.lookup day =
      some ⟨full.store.staging, s.store.mtimes day⟩ := AList.lookup_insert _
  have hrows : (ask (.countRows day)).eval (machine duck) published =
      (.ok (Partition.rows ⟨full.store.staging, s.store.mtimes day⟩).length, published) := by
    rw [eval_ask, CompactCall.apply, hpart]
  have hbody : (Program.tryCatch
      (do
        let n ← foldHours (gzPaths s.site.disk day)
        ask (.replace day)
        Program.done n)
      fun e ↦ do
        ask .rmtree
        Program.raise e).eval (machine duck) empty = (.ok n, published) := by
    rw [eval_tryCatch, bind_eq, eval_bind_ok _ hn, bind_eq, eval_bind_ok _ hreplace]
    rfl
  rw [compactDay, bind_eq, eval_bind_ok _ (eval_globGz duck day s), if_neg hraw, bind_eq,
    eval_bind_ok _ hmkdtemp, bind_eq, eval_bind_ok _ hbody, bind_eq, eval_bind_ok _ hrows]
  refine ⟨hread, _, hpart, ?_⟩
  change rawLines duck s day = _
  rw [Partition.rows, List.length_flatMap]
  change _ = (List.map _ ([] ++ List.map _ _)).sum
  rw [List.nil_append, List.map_map, rawLines]
  refine congrArg List.sum (List.map_congr_left fun p _ ↦ ?_)
  exact (hcopy _).symm

/-! ## Cleaning up -/

/-- **A compacted day whose deletion was cut, any number of times, is cleaned up by a later pass**
exactly if nothing is left of it, or its raw files were verified and none of those removed so far
held a line. Otherwise the pass keeps what is left, and so does every pass after it; a verification
that fails removes nothing. -/
theorem gzPaths_runOnce_eq_nil_iff (hpart : s₀.store.parquet.lookup day = some part)
    (hcuts : Relation.ReflTransGen (CutDeletion duck day) s₀ s)
    (hgrace : graceElapsed part.mtime keepRawDays now) :
    let s' := ((runOnce keepRawDays now).eval (machine duck) s).2
    (gzPaths s'.site.disk day = [] ↔ gzPaths s.site.disk day = [] ∨ Verified duck s₀ day ∧
      ∀ p ∈ gzPaths s₀.site.disk day, p ∉ gzPaths s.site.disk day → selected duck s₀ p = []) ∧
    (gzPaths s'.site.disk day = [] ∨
      ∀ k, dayOf k = day → s'.site.hours.gz k = s.site.hours.gz k) ∧
    ∀ (t t' : Tiers) (d : DayKey) (keepRawDays now : ℤ),
      (deleteRawDay d keepRawDays now).eval (machine duck) t = (.error (.verification d), t') →
      t' = t := by
  have hleft : Leftover s₀ day part s :=
    Leftover.cuts ⟨hpart, fun _ _ ↦ Or.inr rfl⟩ hcuts
  have hs : Holds day part s.site.hours.gz s := ⟨hleft.part, fun _ _ ↦ rfl⟩
  obtain ⟨hremoved, hkept⟩ := holds_runOnce duck hs hgrace
  have hnil {t : Tiers} (h : Holds day part (fun _ ↦ none) t) : gzPaths t.site.disk day = [] := by
    refine List.eq_nil_iff_forall_not_mem.mpr fun p hp ↦ ?_
    exact absurd (h.mem_gzPaths.mp hp).2.2 Bool.false_ne_true
  have hsame {t : Tiers} (h : Holds day part s.site.hours.gz t) :
      gzPaths t.site.disk day = [] ↔ gzPaths s.site.disk day = [] := by
    simp only [List.eq_nil_iff_forall_not_mem, h.mem_gzPaths, hs.mem_gzPaths]
  -- a day that was not verified at first is as it was, and will not be
  have hiff : Verified duck s day ↔ Verified duck s₀ day ∧
      ∀ p ∈ gzPaths s₀.site.disk day, p ∉ gzPaths s.site.disk day → selected duck s₀ p = [] := by
    by_cases hverified : Verified duck s₀ day
    · rw [hleft.verified_iff hpart hverified, and_iff_right hverified]
    · rw [eq_of_cuts hverified hcuts]
      exact iff_of_false hverified fun h ↦ hverified h.1
  rw [← hiff]
  refine ⟨?_, ?_, fun t t' d keepRawDays now ↦ eq_of_verification_failed⟩
  · by_cases hv : Verified duck s day
    · exact iff_of_true (hnil (hremoved hv)) (Or.inr hv)
    · rw [hsame (hkept hv), or_iff_left hv]
  · by_cases hv : Verified duck s day
    · exact Or.inl (hnil (hremoved hv))
    · exact Or.inr (hkept hv).raw

/-- DuckDB on files that hold one line or none. -/
def oneLineDuck : DuckDB where
  select b := if b = [] then [] else [b]
  copy := id

/-- A compacted day with two raw files, the first of which holds `first`. -/
def twoHours (first : Bytes) : Tiers where
  site :=
    { disk := (∅ : Disk).insert ⟨1, .gz⟩ { bytes := [66], complete := true }
        |>.insert ⟨0, .gz⟩ { bytes := first, complete := true }
      writer := { curKey := 72 }
      time := 3 * nanosecondsPerDay
      opened := [0, 1] }
  store :=
    { parquet := (∅ : AList fun _ : DayKey ↦ Partition).insert 0
        ⟨[(0, oneLineDuck.select first), (1, [[66]])], 0⟩
      mtimes := fun _ ↦ 0 }

/-- The day of which the first file has been removed. -/
def hourLeft (first : Bytes) : Tiers := (twoHours first).without [⟨0, .gz⟩]

/-- The first file held no line: the day of which it is gone is cleaned up. -/
theorem gzPaths_runOnce_hourLeft :
    gzPaths ((runOnce 0 0).eval (machine oneLineDuck) (hourLeft [])).2.site.disk 0 = [] := by
  have hcut : CutDeletion oneLineDuck 0 (twoHours []) (hourLeft []) := by
    refine ⟨0, 0, ?_⟩
    -- the second unlinking is the ninth call
    iterate 8 refine .apply ?_
    exact .crash ⟨0, rfl⟩
  have hverified : Verified oneLineDuck (twoHours []) 0 := by
    obtain ⟨b, hb, hiff⟩ := eval_verifyCounts oneLineDuck 0 (twoHours [])
    exact hiff.mp (Except.ok.inj (Prod.mk.inj hb).1).symm
  refine (gzPaths_runOnce_eq_nil_iff rfl (.single hcut) (Or.inl le_rfl)).1.mpr
    (Or.inr ⟨hverified, ?_⟩)
  decide +kernel

/-- The first file held a line: every pass recounts, finds fewer lines than rows and keeps the
second file. -/
theorem not_gzPaths_runOnce_eq_nil :
    ¬∀ (duck : DuckDB) (day : DayKey) (s₀ s : Tiers) (part : Partition) (keepRawDays now : ℤ),
      s₀.store.parquet.lookup day = some part → Verified duck s₀ day →
      Relation.ReflTransGen (CutDeletion duck day) s₀ s → graceElapsed part.mtime keepRawDays now →
      gzPaths ((runOnce keepRawDays now).eval (machine duck) s).2.site.disk day = [] := by
  intro hclean
  have hcut : CutDeletion oneLineDuck 0 (twoHours [65]) (hourLeft [65]) := by
    refine ⟨0, 0, ?_⟩
    iterate 8 refine .apply ?_
    exact .crash ⟨0, rfl⟩
  have hverified : Verified oneLineDuck (twoHours [65]) 0 := by
    obtain ⟨b, hb, hiff⟩ := eval_verifyCounts oneLineDuck 0 (twoHours [65])
    exact hiff.mp (Except.ok.inj (Prod.mk.inj hb).1).symm
  have hnil := hclean oneLineDuck 0 _ _ _ 0 0 rfl hverified (.single hcut) (Or.inl le_rfl)
  revert hnil
  decide +kernel

end GtfsStream.Archive
