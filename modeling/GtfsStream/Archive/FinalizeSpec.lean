import GtfsStream.Archive.BufferSpec
import GtfsStream.Archive.Ledger

/-!
# What finalization does

`gzipFile` replaces the plain file of one hour by a compressed one and touches no other hour.
`finalizeStale` does so for every hour but the current one, whatever the order in which `Glob`
lists them: the hours still to come are as they were, and the others are final.

## Failures

Each of the calls may fail, and a method ends with its first error. Nothing is promised then of the
hour that it was about, only that the other hours are as they were. The loop ends with the first
hour that fails; those it had finished stay final, and a later start takes up the rest.
-/

namespace GtfsStream.Archive

open Program Syscall

/-! ## One hour -/

/-- The `.gz` of an hour after its finalization: the one that was there, else the plain file's. -/
def World.finalGz (w : World) (j : HourKey) : Option File :=
  (w.disk.lookup ⟨j, .gz⟩).or ((w.disk.lookup ⟨j, .ndjson⟩).map fun f ↦ gzipped f.bytes)

/-- `w'` differs from `w` in files only. -/
structure World.SameMemory (w w' : World) : Prop where
  writer : w'.writer = w.writer
  clock : w'.clock = w.clock
  ticks : w'.ticks = w.ticks
  commits : w'.commits = w.commits

section Finalization

variable {faulty : Prop} {L : List CommitCall} {w : World}

theorem World.SameMemory.refl (w : World) : w.SameMemory w := ⟨rfl, rfl, rfl, rfl⟩

theorem World.SameMemory.trans {w₁ w₂ w₃ : World} (h : w₁.SameMemory w₂)
    (h' : w₂.SameMemory w₃) : w₁.SameMemory w₃ :=
  ⟨h'.writer.trans h.writer, h'.clock.trans h.clock, h'.ticks.trans h.ticks,
    h'.commits.trans h.commits⟩

/-- Removing a file, whether or not it is there, makes no call to Kafka. -/
theorem ensures_remove (p : Path) (hL : w.commits = L) :
    (sys (.remove p)).Ensures (machine faulty) (fun _ w' ↦ w'.commits = L)
      (fun _ w' ↦ w'.commits = L) (fun w' ↦ w'.commits = L) w := by
  rw [Ensures, sys, wp_perform]
  refine ⟨?_, ?_, ?_⟩
  · rw [show (machine faulty).apply (.remove p) w = onExisting "remove" p w _ from rfl, onExisting]
    by_cases hp : (w.disk.lookup p).isSome
    · rw [if_pos hp]
      exact hL
    · rw [if_neg hp]
      exact hL
  · rintro r w' ⟨-, -, ⟨e, rfl⟩, n, rfl⟩
    exact hL
  · rintro w' ⟨-, n, rfl⟩
    exact hL

/-- Removing the temporary file after a failure changes nothing where nothing fails. -/
theorem runs_removeOnError {Q : Unit → World → Prop} {p : ArchiveIO Unit} {tmp path : Path}
    {text : String} (h : Runs faulty L Q p w) :
    Runs faulty L Q (removeOnError tmp text path p) w := by
  refine Ensures.tryCatch h ?_
  rintro e w' ⟨hfaulty, hL⟩
  have hremove : ((sys (.remove tmp)).tryCatch fun _ ↦ Program.done ()).Ensures (machine faulty)
      (fun _ w' ↦ w'.commits = L) (fun _ w' ↦ faulty ∧ w'.commits = L) (fun w' ↦ w'.commits = L)
      w' := Ensures.tryCatch (ensures_remove tmp hL) fun _ _ h ↦ h
  exact hremove.bind fun _ _ h ↦ ⟨hfaulty, h⟩

/-- Asking whether a file is there. Only a failing call may answer wrongly. -/
theorem runs_stat {β : Type} {p : Path} {R : β → World → Prop} {f : Bool → ArchiveIO β}
    (hL : w.commits = L)
    (hf : ∀ b, (¬faulty → b = (w.disk.lookup p).isSome) → Runs faulty L R (f b) w) :
    Runs faulty L R ((((sys (.stat p)).bind fun _ ↦ Program.done true).tryCatch
      fun _ ↦ Program.done false).bind f) w := by
  have hstat : (sys (.stat p)).Ensures (machine faulty)
      (fun _ w' ↦ w = w' ∧ (w.disk.lookup p).isSome)
      (fun _ w' ↦ w = w' ∧ (¬faulty → (w.disk.lookup p).isSome = false))
      (fun w' ↦ w'.commits = L) w := by
    rw [Ensures, sys, wp_perform]
    refine ⟨?_, ?_, ?_⟩
    · rw [show (machine faulty).apply (.stat p) w = onExisting "stat" p w w from rfl, onExisting]
      by_cases hp : (w.disk.lookup p).isSome
      · rw [if_pos hp]
        exact ⟨rfl, hp⟩
      · rw [if_neg hp]
        exact ⟨rfl, fun _ ↦ Bool.eq_false_iff.mpr hp⟩
    · rintro r w' ⟨hfaulty, -, ⟨e, rfl⟩, n, rfl⟩
      exact ⟨rfl, fun hn ↦ absurd hfaulty hn⟩
    · rintro w' ⟨-, n, rfl⟩
      exact hL
  have hfound : Runs faulty L
      (fun b w' ↦ w = w' ∧ (¬faulty → b = (w.disk.lookup p).isSome))
      (((sys (.stat p)).bind fun _ ↦ Program.done true).tryCatch fun _ ↦ Program.done false) w := by
    refine Ensures.tryCatch (Ensures.bind hstat ?_) ?_
    · rintro _ _ ⟨rfl, hp⟩
      exact Ensures.done ⟨rfl, fun _ ↦ hp.symm⟩
    · rintro _ _ ⟨rfl, hp⟩
      exact Ensures.done ⟨rfl, fun hn ↦ (hp hn).symm⟩
  refine hfound.bind ?_
  rintro b _ ⟨rfl, hb⟩
  exact hf b hb

/-- `w'` is `w` with the file `t` at the path `p`. -/
structure World.With (p : Path) (t : File) (w w' : World) : Prop where
  memory : w.SameMemory w'
  other : ∀ q, q ≠ p → w'.disk.lookup q = w.disk.lookup q
  file : w'.disk.lookup p = some t

theorem World.With.insert {p : Path} {t u : File} {w' : World} (h : w.With p t w') :
    w.With p u (w'.setDisk (w'.disk.insert p u)) :=
  ⟨⟨h.memory.writer, h.memory.clock, h.memory.ticks, h.memory.commits⟩,
    fun q hq ↦ (AList.lookup_insert_ne hq).trans (h.other q hq), AList.lookup_insert _⟩

theorem modify_eq {p : Path} {t : File} (h : w.disk.lookup p = some t) (g : File → File) :
    w.modify p g = w.setDisk (w.disk.insert p (g t)) := by
  rw [World.modify, h]

/-- Compressing a plain file into the temporary one, up to the rename. -/
theorem runs_compress {β : Type} {path tmp : Path} {f : File} {R : β → World → Prop}
    {k : ArchiveIO β} (hL : w.commits = L) (hf : w.disk.lookup path = some f) (hne : path ≠ tmp)
    (hk : ∀ w', w.With tmp (gzipped f.bytes) w' → Runs faulty L R k w') :
    Runs faulty L R (do
      errorf "open" (sys (.openRead path)) (some path)
      errorf "create" (sys (.create tmp)) (some tmp)
      removeOnError tmp "compress" path (sys (.copy path tmp))
      removeOnError tmp "close gzip" path (sys (.closeGzip tmp))
      removeOnError tmp "close" tmp (sys (.close tmp))
      k) w := by
  have hsome : (w.disk.lookup path).isSome := by rw [hf]; rfl
  have hopen : Runs faulty L (fun _ w' ↦ w = w')
      (errorf "open" (sys (.openRead path)) (some path)) w := by
    refine Runs.errorf (Runs.sys (a := ()) (.openRead path) nofun hL ?_ ?_)
    · rw [apply, onExisting, if_pos hsome]
    · rw [apply, onExisting, if_pos hsome]
  refine hopen.bind ?_
  rintro _ _ rfl
  have hcreate : Runs faulty L (fun _ w' ↦ w.With tmp { bytes := [] } w')
      (errorf "create" (sys (.create tmp)) (some tmp)) w :=
    Runs.errorf (Runs.sys (.create tmp) nofun hL rfl
      ⟨⟨rfl, rfl, rfl, rfl⟩, fun q hq ↦ AList.lookup_insert_ne hq, AList.lookup_insert _⟩)
  refine hcreate.bind fun _ w₁ h₁ ↦ ?_
  have hbytes : w₁.bytesAt path = f.bytes := by
    rw [World.bytesAt, h₁.other path hne, hf]
    rfl
  have hcopy : Runs faulty L (fun _ w' ↦ w.With tmp { bytes := f.bytes } w')
      (removeOnError tmp "compress" path (sys (.copy path tmp))) w₁ := by
    refine runs_removeOnError (Runs.sys (.copy path tmp) nofun (h₁.memory.commits.trans hL) rfl ?_)
    rw [apply, hbytes, appendTo_eq h₁.file]
    exact h₁.insert
  refine hcopy.bind fun _ w₂ h₂ ↦ ?_
  have hclose : Runs faulty L (fun _ w' ↦ w.With tmp (gzipped f.bytes) w')
      (removeOnError tmp "close gzip" path (sys (.closeGzip tmp))) w₂ := by
    refine runs_removeOnError (Runs.sys (.closeGzip tmp) nofun (h₂.memory.commits.trans hL) rfl ?_)
    rw [apply, modify_eq h₂.file]
    exact h₂.insert
  refine hclose.bind fun _ w₃ h₃ ↦ ?_
  have hdst : Runs faulty L (fun _ w' ↦ w.With tmp (gzipped f.bytes) w')
      (removeOnError tmp "close" tmp (sys (.close tmp))) w₃ :=
    runs_removeOnError (Runs.sys (.close tmp) nofun (h₃.memory.commits.trans hL) rfl h₃)
  exact hdst.bind fun _ w₄ h₄ ↦ hk w₄ h₄

/-- **`gzipFile` on the plain file of an hour.** It touches no other hour. Where nothing fails the
plain file is gone afterwards, and the `.gz` is the one that was there or has the plain bytes. -/
theorem runs_gzipFile {j : HourKey} {f : File} (hL : w.commits = L)
    (hf : w.disk.lookup ⟨j, .ndjson⟩ = some f) :
    Runs faulty L (fun _ w' ↦ w.SameMemory w' ∧
        (∀ q : Path, q.hour ≠ j → w'.disk.lookup q = w.disk.lookup q) ∧
        (¬faulty → w'.disk.lookup ⟨j, .ndjson⟩ = none ∧ w'.disk.lookup ⟨j, .gz⟩ = w.finalGz j))
      (gzipFile ⟨j, .ndjson⟩) w := by
  have hother {q : Path} (hq : q.hour ≠ j) (e : Ext) : q ≠ ⟨j, e⟩ := by
    rintro rfl
    exact hq rfl
  refine runs_stat hL fun found hfound ↦ ?_
  cases found with
  -- the plain file of an hour that is compressed already is only removed
  | true =>
    refine Runs.sys (a := ()) (.remove ⟨j, .ndjson⟩) nofun hL ?_ ?_
    · rw [apply, onExisting, if_pos (by rw [hf]; rfl)]
    · rw [apply, onExisting, if_pos (by rw [hf]; rfl)]
      refine ⟨⟨rfl, rfl, rfl, rfl⟩, fun q hq ↦ AList.lookup_erase_ne (hother hq _), fun hn ↦ ?_⟩
      obtain ⟨g, hg⟩ := Option.isSome_iff_exists.mp (hfound hn).symm
      refine ⟨AList.lookup_erase _ _, ?_⟩
      rw [World.finalGz, hg, Option.some_or]
      exact (AList.lookup_erase_ne (by simp)).trans hg
  -- otherwise the temporary file takes the place of the `.gz`, and then the plain file goes
  | false =>
    refine runs_compress hL hf (by simp) fun w₁ h₁ ↦ ?_
    have hrename : Runs faulty L (fun _ w' ↦ w.SameMemory w' ∧
        (∀ q : Path, q ≠ ⟨j, .tmp⟩ → q ≠ ⟨j, .gz⟩ → w'.disk.lookup q = w.disk.lookup q) ∧
        w'.disk.lookup ⟨j, .gz⟩ = some (gzipped f.bytes))
        (removeOnError ⟨j, .tmp⟩ "rename" ⟨j, .tmp⟩ (sys (.rename ⟨j, .tmp⟩ ⟨j, .gz⟩))) w₁ := by
      refine runs_removeOnError (Runs.sys (a := ()) (.rename ⟨j, .tmp⟩ ⟨j, .gz⟩) nofun
        (h₁.memory.commits.trans hL) ?_ ?_)
      · simp only [apply, h₁.file]
      · simp only [apply, h₁.file]
        refine ⟨⟨h₁.memory.writer, h₁.memory.clock, h₁.memory.ticks, h₁.memory.commits⟩, ?_,
          AList.lookup_insert _⟩
        intro q ht hg
        exact (AList.lookup_insert_ne hg).trans ((AList.lookup_erase_ne ht).trans (h₁.other q ht))
    refine hrename.bind ?_
    rintro _ w₂ ⟨hmem, hrest, hgz⟩
    have hplain : w₂.disk.lookup ⟨j, .ndjson⟩ = some f := (hrest _ (by simp) (by simp)).trans hf
    refine Runs.sys (a := ()) (.remove ⟨j, .ndjson⟩) nofun (hmem.commits.trans hL) ?_ ?_
    · rw [apply, onExisting, if_pos (by rw [hplain]; rfl)]
    · rw [apply, onExisting, if_pos (by rw [hplain]; rfl)]
      refine ⟨⟨hmem.writer, hmem.clock, hmem.ticks, hmem.commits⟩, ?_, fun hn ↦ ?_⟩
      · intro q hq
        exact (AList.lookup_erase_ne (hother hq _)).trans
          (hrest q (hother hq _) (hother hq _))
      · have hnone : w.disk.lookup ⟨j, .gz⟩ = none :=
          Option.not_isSome_iff_eq_none.mp (Bool.eq_false_iff.mp (hfound hn).symm)
        refine ⟨AList.lookup_erase _ _, ?_⟩
        rw [World.finalGz, hnone, Option.none_or, hf]
        exact (AList.lookup_erase_ne (by simp)).trans hgz

/-! ## The loop -/

/-- `w'` is `w` after the finalization of every hour but `k`. -/
structure World.Finalized (faulty : Prop) (k : HourKey) (w w' : World) : Prop where
  memory : w.SameMemory w'
  current : ∀ q : Path, q.hour = k → w'.disk.lookup q = w.disk.lookup q
  stale : ¬faulty → ∀ j, j ≠ k →
    w'.disk.lookup ⟨j, .ndjson⟩ = none ∧ w'.disk.lookup ⟨j, .gz⟩ = w.finalGz j

theorem mem_plainPaths {d : Disk} {p : Path} :
    p ∈ plainPaths d ↔ (d.lookup p).isSome ∧ p.ext = .ndjson := by
  rw [plainPaths, List.mem_insertionSort, List.mem_filter, decide_eq_true_iff, AList.lookup_isSome,
    AList.mem_keys]

theorem nodup_plainPaths (d : Disk) : (plainPaths d).Nodup :=
  (List.perm_insertionSort _ _).nodup_iff.mpr ((AList.keys_nodup d).filter _)

/-- What the loop of `finalizeStale` keeps: the hours still to come and the current one are as they
were, and the others are final. -/
structure World.Finalizing (faulty : Prop) (k : HourKey) (w : World) (xs : List Path)
    (w' : World) : Prop where
  memory : w.SameMemory w'
  nodup : xs.Nodup
  plain : ∀ p ∈ xs, p.ext = .ndjson ∧ (w.disk.lookup p).isSome
  untouched : ∀ q : Path, (q.hour = k ∨ ⟨q.hour, .ndjson⟩ ∈ xs) →
    w'.disk.lookup q = w.disk.lookup q
  stale : ¬faulty → ∀ j, j ≠ k → (⟨j, .ndjson⟩ : Path) ∉ xs →
    w'.disk.lookup ⟨j, .ndjson⟩ = none ∧ w'.disk.lookup ⟨j, .gz⟩ = w.finalGz j

theorem World.finalizing_plainPaths (k : HourKey) (w : World) :
    w.Finalizing faulty k (plainPaths w.disk) w := by
  refine ⟨World.SameMemory.refl w, nodup_plainPaths _, fun p hp ↦ (mem_plainPaths.mp hp).symm,
    fun _ _ ↦ rfl, fun _ j _ hj ↦ ?_⟩
  rw [mem_plainPaths, not_and_or, Option.not_isSome_iff_eq_none] at hj
  have hnone : w.disk.lookup ⟨j, .ndjson⟩ = none := hj.resolve_right fun h ↦ h rfl
  refine ⟨hnone, ?_⟩
  rw [World.finalGz, hnone, Option.map_none, Option.or_none]

theorem runs_finalizeStep {k : HourKey} {w' : World} {x : Path} {xs : List Path}
    (hL : w.commits = L) (h : w.Finalizing faulty k (x :: xs) w') :
    Runs faulty L (fun _ ↦ w.Finalizing faulty k xs)
      (if x = ⟨k, .ndjson⟩ then Program.done () else gzipFile x) w' := by
  obtain ⟨j, e⟩ := x
  obtain ⟨rfl, hsome⟩ : e = .ndjson ∧ (w.disk.lookup ⟨j, e⟩).isSome := h.plain _ List.mem_cons_self
  have hnodup := List.nodup_cons.mp h.nodup
  have hplain (p : Path) (hp : p ∈ xs) := h.plain p (List.mem_cons_of_mem _ hp)
  by_cases hj : j = k
  · subst hj
    rw [if_pos rfl]
    refine ⟨h.memory, hnodup.2, hplain, fun q hq ↦ ?_, fun hn i hi hx ↦ ?_⟩
    · exact h.untouched q (hq.imp_right (List.mem_cons_of_mem _))
    · refine h.stale hn i hi (List.not_mem_cons_of_ne_of_not_mem ?_ hx)
      exact fun h ↦ hi (congrArg Path.hour h)
  · rw [if_neg fun hx ↦ hj (congrArg Path.hour hx)]
    have hsame (e : Ext) : w'.disk.lookup ⟨j, e⟩ = w.disk.lookup ⟨j, e⟩ :=
      h.untouched _ (Or.inr List.mem_cons_self)
    obtain ⟨f, hf⟩ := Option.isSome_iff_exists.mp hsome
    refine (runs_gzipFile (h.memory.commits.trans hL) ((hsame _).trans hf)).mono ?_
    rintro _ w'' ⟨hmem, hother, hfinal⟩
    refine ⟨h.memory.trans hmem, hnodup.2, hplain, fun q hq ↦ ?_, fun hn i hi hx ↦ ?_⟩
    · have hqj : q.hour ≠ j := by
        rintro hqj
        rcases hq with hk | hx
        · exact hj (hqj ▸ hk)
        · exact hnodup.1 (hqj ▸ hx)
      exact (hother q hqj).trans (h.untouched q (hq.imp_right (List.mem_cons_of_mem _)))
    · by_cases hij : i = j
      · subst hij
        obtain ⟨h₁, h₂⟩ := hfinal hn
        refine ⟨h₁, h₂.trans ?_⟩
        rw [World.finalGz, World.finalGz, hsame, hsame]
      · obtain ⟨h₁, h₂⟩ := h.stale hn i hi (List.not_mem_cons_of_ne_of_not_mem
          (fun h ↦ hij (congrArg Path.hour h)) hx)
        exact ⟨(hother ⟨i, .ndjson⟩ hij).trans h₁, (hother ⟨i, .gz⟩ hij).trans h₂⟩

theorem runs_finalizeStale (hL : w.commits = L) :
    Runs faulty L (fun _ ↦ w.Finalized faulty w.writer.curKey) finalizeStale w := by
  have hglob : Runs faulty L (fun m w' ↦ m = plainPaths w.disk ∧ w = w')
      (errorf "glob archive files" (sys .glob)) w :=
    Runs.errorf (Runs.sys .glob nofun hL rfl ⟨rfl, rfl⟩)
  refine hglob.bind ?_
  rintro _ _ ⟨rfl, rfl⟩
  refine Runs.load_bind hL ?_
  refine (Runs.forEach (w.finalizing_plainPaths w.writer.curKey)
    fun x xs w' h ↦ runs_finalizeStep hL h).mono ?_
  intro _ w' h
  exact ⟨h.memory, fun q hq ↦ h.untouched q (Or.inl hq),
    fun hn j hj ↦ h.stale hn j hj List.not_mem_nil⟩

end Finalization

end GtfsStream.Archive
