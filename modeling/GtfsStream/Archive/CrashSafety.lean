import GtfsStream.Archive.SiteWriter

/-!
# Finalization is crash safe

However often the writer crashes, and wherever in `rotate`, `finalizeStale` or `gzipFile` it does,
an hour that was ever opened is there for a reader with exactly the bytes that have reached its
plain file. A file under the final name `.ndjson.gz` is complete, has all of them, and stays as it
is.

The proof runs along the steps of the process. What it has still to do moves the hour files only,
and every move keeps `Hours.Sound`; a crash leaves a sound directory, and from any sound directory a
new writer may start.
-/

namespace GtfsStream.Archive

open Program

/-! ## The steps of a process -/

theorem Hours.Sound.settled {s : Site} {gone : HourKey → Prop} (h : s.hours.Sound gone) :
    s.Settled := ⟨h.past, h.known⟩

theorem Site.apart_tick {s : Site} {t : ℤ} (ht : s.time ≤ t) : s.Apart (s.tick t) :=
  ⟨rfl, fun _ _ ↦ rfl, fun _ ↦ Or.inl rfl, ht⟩

theorem Process.Idle.tidy {P : Process} (hidle : P.Idle)
    (h : Safe (fun _ ↦ Site.Tidy) P.todo P.site) :
    P.site.Tidy := by
  obtain ⟨s, p⟩ := P
  rcases hidle with hdone | ⟨e, hraise⟩
  · obtain rfl : p = done () := hdone
    exact Safe.of_done h
  · obtain rfl : p = raise e := hraise
    exact Safe.of_raise h

theorem Process.Step.moves {P P' : Process} (hstep : P.Step P')
    (h : Safe (fun _ ↦ Site.Tidy) P.todo P.site) :
    P.site.Moves P'.site ∨ ∃ t, P.site.time ≤ t ∧ P'.site = P.site.tick t := by
  cases hstep with
  | tick s p t ht => exact Or.inr ⟨t, ht, rfl⟩
  | call s c k => exact Or.inl h.call.1
  | request P hP r => exact Or.inl .stay
  | crash s p => exact Or.inl .stay
  | torn s c k n => exact Or.inl (h.cut n)

/-- What a process has still to do moves the hour files only, also after a crash that leaves them
settled. -/
theorem Process.Step.safe {P P' : Process} (hstep : P.Step P')
    (h : Safe (fun _ ↦ Site.Tidy) P.todo P.site) (hsettled : P'.site.Settled) :
    Safe (fun _ ↦ Site.Tidy) P'.todo P'.site := by
  cases hstep with
  | tick s p t ht => exact h.rely (Site.apart_tick ht)
  | call s c k => exact h.call.2
  | request P hP r => exact safe_request r (hP.tidy h)
  | crash s p => exact safe_newArchiveWriter hsettled
  | torn s c k n => exact safe_newArchiveWriter hsettled

/-! ## The invariant -/

/-- What holds of the process at every moment. -/
structure Process.Good (P : Process) : Prop where
  sound : P.site.hours.Sound fun _ ↦ False
  todo : Safe (fun _ ↦ Site.Tidy) P.todo P.site

theorem Process.good_fresh (t : ℤ) (aw : ArchiveWriter) : (Process.fresh t aw).Good :=
  have hsound : (Process.fresh t aw).site.hours.Sound fun _ ↦ False := Hours.sound_empty t
  ⟨hsound, safe_newArchiveWriter hsound.settled⟩

/-- **Every step keeps the process good.** -/
theorem Process.Step.good {P P' : Process} (hstep : P.Step P') (h : P.Good) : P'.Good := by
  have hsound : P'.site.hours.Sound fun _ ↦ False := by
    rcases hstep.moves h.todo with hm | ⟨t, ht, heq⟩
    · exact Hours.Move.sound hm h.sound fun _ hf ↦ hf.elim
    · rw [heq]
      exact h.sound.tick ht
  exact ⟨hsound, hstep.safe h.todo hsound.settled⟩

theorem Process.Step.gz_kept {P P' : Process} (hstep : P.Step P') (h : P.Good) {k : HourKey}
    {f : File} (hf : P.site.hours.gz k = some f) : P'.site.hours.gz k = some f := by
  rcases hstep.moves h.todo with hm | ⟨t, ht, heq⟩
  · exact Hours.Move.gz_kept hm hf
  · rw [heq]
    exact hf

theorem Process.Runs.good {P P' : Process} (hruns : P.Runs P') (h : P.Good) : P'.Good := by
  induction hruns with
  | refl => exact h
  | tail _ hstep ih => exact hstep.good ih

theorem Process.Runs.gz_kept {P P' : Process} (hruns : P.Runs P') (h : P.Good) {k : HourKey}
    {f : File} (hf : P.site.hours.gz k = some f) : P'.site.hours.gz k = some f := by
  induction hruns with
  | refl => exact hf
  | tail hruns hstep ih => exact hstep.gz_kept (Process.Runs.good hruns h) ih

/-- **Finalization is crash safe.** At every moment of a life with any number of crashes, a reader
finds of every hour that was ever opened what has reached its plain file. A compressed file is
complete, has all of it, and is never changed again. -/
theorem finalization_crashSafe {t : ℤ} {aw : ArchiveWriter} {P : Process}
    (h : (Process.fresh t aw).Runs P) :
    (∀ k ∈ P.site.opened, P.site.hours.content k = some (P.site.reached k)) ∧
      ∀ k f, P.site.disk.lookup ⟨k, .gz⟩ = some f →
        f.complete = true ∧ f.bytes = P.site.reached k ∧
          ∀ P' : Process, P.Runs P' → P'.site.disk.lookup ⟨k, .gz⟩ = some f := by
  have hgood : P.Good := Process.Runs.good h (Process.good_fresh t aw)
  refine ⟨fun k hk ↦ hgood.sound.content hk, fun k f hf ↦ ?_⟩
  obtain ⟨hcomplete, hbytes⟩ := hgood.sound.gz k f hf
  exact ⟨hcomplete, hbytes, fun P' hruns ↦ Process.Runs.gz_kept hruns hgood hf⟩

/-! ## A run with a crash -/

/-- The process after its next `n` calls. -/
def Process.proceed : ℕ → Process → Process
  | n + 1, ⟨s, .call c k⟩ => Process.proceed n ⟨(s.apply c).2, k (s.apply c).1⟩
  | _, P => P

theorem Process.runs_proceed (n : ℕ) (P : Process) : P.Runs (P.proceed n) := by
  induction n generalizing P with
  | zero => exact Relation.ReflTransGen.refl
  | succ n ih =>
    obtain ⟨s, _ | _ | ⟨c, k⟩⟩ := P
    · exact Relation.ReflTransGen.refl
    · exact Relation.ReflTransGen.refl
    · exact Relation.ReflTransGen.head (.call s c k) (ih _)

/-- A line is written and made durable, and an hour later a second one is written. -/
def secondHour : Process :=
  let started := (Process.fresh 0 { curKey := 0 }).proceed 10
  let written := Process.proceed 30 ⟨started.site, Request.program (.write [65])⟩
  ⟨written.site.tick nanosecondsPerHour, Request.program (.write [66])⟩

/-- The process crashes between the rename of the compressed file and the removal of the plain one,
and starts anew. -/
def crashedHour : Process := ⟨(secondHour.proceed 22).site, newArchiveWriter⟩

theorem runs_crashedHour : (Process.fresh 0 { curKey := 0 }).Runs (crashedHour.proceed 40) := by
  have hstarted := Process.runs_proceed 10 (Process.fresh 0 { curKey := 0 })
  have hidle : Process.Idle ((Process.fresh 0 { curKey := 0 }).proceed 10) := Or.inl rfl
  have hwritten :=
    (hstarted.tail (.request _ hidle (.write [65]))).trans (Process.runs_proceed 30 _)
  have hticked := hwritten.tail (.tick _ _ nanosecondsPerHour (by decide +kernel))
  have hsecond : (Process.fresh 0 { curKey := 0 }).Runs secondHour :=
    hticked.tail (.request _ (Or.inl rfl) (.write [66]))
  exact ((hsecond.trans (Process.runs_proceed 22 _)).tail (.crash _ _)).trans
    (Process.runs_proceed 40 _)

/-- Both files of the first hour are there at the crash, and the restart drops the plain one. -/
theorem finalization_crashSafe_crashedHour :
    (crashedHour.site.hours.plain 0 = some [65, 10] ∧ crashedHour.site.hours.gz 0 ≠ none) ∧
      (crashedHour.proceed 40).site.hours.plain 0 = none ∧
      (crashedHour.proceed 40).site.hours.content 0 = some [65, 10] := by
  refine ⟨by decide +kernel, by decide +kernel, ?_⟩
  have h := (finalization_crashSafe runs_crashedHour).1 0 (by decide +kernel)
  rw [h]
  decide +kernel

end GtfsStream.Archive
