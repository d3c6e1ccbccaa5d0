import GtfsStream.Archive.FinalizeSpec
import GtfsStream.Archive.SiteSpec

/-!
# The writer's programs among others

`gzipFile`, `finalizeStale`, the constructor and the methods of the writer, each as a program whose
every call is a move of the hour files and which leaves the writer at work.

## Conditions that are stable

Between two calls of the writer the compactor may take compressed files of closed days away, and no
other hour files. So what the writer knows of its own files stays true: the open file with its
bytes, an hour that is pending with its temporary file, and an hour that is compressed or gone. Each
program is proved with these conditions before and after its calls, by one triple for each call. A
crash may come at any of them; then the next process starts from hour files that are settled again.
-/

namespace GtfsStream.Archive

open Program

section SiteWriter

variable {s : Site}

/-! ## Compressing an hour -/

/-- The writer at work, and the hour `j` not compressed while its plain file has the bytes `b`. -/
def Site.Pending (aw : ArchiveWriter) (j : HourKey) (b : Bytes) (s : Site) : Prop :=
  s.At aw ∧ s.hours.gz j = none ∧ s.hours.plain j = some b

/-- The same with the temporary file `t`. -/
def Site.Building (aw : ArchiveWriter) (j : HourKey) (b : Bytes) (t : File) (s : Site) : Prop :=
  s.Pending aw j b ∧ s.disk.lookup ⟨j, .tmp⟩ = some t

/-- The writer at work, and the hour `j` compressed if its plain file is there. -/
def Site.Compressed (aw : ArchiveWriter) (j : HourKey) (s : Site) : Prop :=
  s.At aw ∧ (s.hours.plain j ≠ none → s.hours.gz j ≠ none)

theorem Site.stable_pending (aw : ArchiveWriter) (j : HourKey) (b : Bytes) :
    Stable Site.Apart (Site.Pending aw j b) := by
  rintro s s' h ⟨hat, hgz, hplain⟩
  refine ⟨Site.stable_at aw s s' h hat, ?_, (h.plain j).trans hplain⟩
  by_contra hne
  exact h.gz_of_ne_none hne hgz

theorem Site.stable_building (aw : ArchiveWriter) (j : HourKey) (b : Bytes) (t : File) :
    Stable Site.Apart (Site.Building aw j b t) := fun s s' h hs ↦
  ⟨Site.stable_pending aw j b s s' h hs.1, (h.files ⟨j, .tmp⟩ nofun).trans hs.2⟩

theorem Site.stable_compressed (aw : ArchiveWriter) (j : HourKey) :
    Stable Site.Apart (Site.Compressed aw j) := by
  rintro s s' h ⟨hat, hgz⟩
  refine ⟨Site.stable_at aw s s' h hat, fun hplain ↦ ?_⟩
  rw [h.plain] at hplain
  rw [h.gz_of_plain hplain]
  exact hgz hplain

theorem safe_removeOnError {Q : Unit → Site → Prop} {p : ArchiveIO Unit} {tmp path : Path}
    {text : String} (htmp : tmp.ext = .tmp) (h : Safe Q p s) :
    Safe Q (removeOnError tmp text path p) s := by
  refine Keeps.tryCatch Site.Apart.rely h fun e s' hs' ↦ ?_
  have hremove : Safe (fun _ ↦ Site.Tidy)
      ((sys (.remove tmp)).tryCatch fun _ ↦ Program.done ()) s' := by
    refine Keeps.tryCatch Site.Apart.rely ?_ fun _ _ he ↦ Safe.done Site.stable_tidy he
    exact (Safe.quiet_at (c := .remove tmp) nofun (fun _ ↦ quiet_removeTmp htmp) hs'.at).mono
      fun _ _ ha ↦ ha.tidy
  exact hremove.bind fun _ _ hs ↦ Safe.raise hs

theorem safe_build {aw : ArchiveWriter} {j : HourKey} {b : Bytes} {I : Site → Prop} {t : File}
    {c : Syscall} (hI : Stable Site.Apart I) (h : I s) (hpending : ∀ s, I s → s.Pending aw j b)
    (hc : ∀ aw, c ≠ .store aw) (hq : ∀ s, Quiet c s)
    (ht : ∀ s, I s → (c.apply s.world).2.disk.lookup ⟨j, .tmp⟩ = some t)
    (hok : ∀ s : Site, ∃ a, (c.apply s.world).1 = .ok a) :
    Safe (fun _ ↦ Site.Building aw j b t) (sys c) s := by
  refine Safe.quiet c hI h (fun _ ↦ Site.stable_building aw j b t) (fun s _ ↦ hq s) fun s hs ↦ ?_
  obtain ⟨hat, hgz, hplain⟩ := hpending s hs
  obtain ⟨a, ha⟩ := hok s
  rw [show (s.apply c).1 = .ok a from ha]
  refine ⟨⟨hat.apply (hq s) hc, ?_, ?_⟩, ht s hs⟩
  · rw [(hq s).apply, hgz]
  · rw [(hq s).apply, hplain]

/-- Removing the plain file of an hour before the current one, if it is there. -/
theorem safe_removePlain {aw : ArchiveWriter} {j : HourKey} (hj : j < aw.curKey)
    (h : s.Compressed aw j) : Safe (fun _ ↦ Site.At aw) (sys (.remove ⟨j, .ndjson⟩)) s := by
  refine Safe.sys _ (Site.stable_compressed aw j) h (fun _ ↦ Site.stable_at aw) ?_ ?_
  · rintro s ⟨hat, hgz⟩
    have hwriter : (s.apply (.remove ⟨j, .ndjson⟩)).2.writer = aw :=
      (writer_apply (c := .remove _) nofun s).trans hat.1
    suffices hs : s.Moves (s.apply (.remove ⟨j, .ndjson⟩)).2 ∧
        (s.apply (.remove ⟨j, .ndjson⟩)).2.At aw by
      refine ⟨hs.1, ?_⟩
      rcases (s.apply (.remove ⟨j, .ndjson⟩)).1 with e | a
      · exact hs.2.tidy
      · exact hs.2
    rcases hplain : s.hours.plain j with _ | b
    · rw [Site.Moves, Site.At, hours_remove_of_none hplain]
      exact ⟨.stay, hwriter, hat.2⟩
    · have hne : s.hours.plain j ≠ none := by simp [hplain]
      rw [Site.Moves, Site.At, hours_remove hne]
      refine ⟨.drop j hne (hgz hne), hwriter, ?_, hat.2.past, ?_, hat.2.time⟩
      · intro p hp
        refine ⟨(hat.2.file p hp).1, ?_⟩
        rw [Hours.drop_plain, if_neg hj.ne']
        exact (hat.2.file p hp).2
      · intro i hi
        by_cases hij : i = j
        · exact hij ▸ hj.le
        · rw [Hours.drop_plain, if_neg hij] at hi
          exact hat.2.known i hi
  · exact fun s n _ ↦ Site.moves_of_eq (Site.hours_cut rfl fun _ ↦ rfl)

theorem safe_stat {aw : ArchiveWriter} {j : HourKey} {T : Unit → Site → Prop}
    {f : Bool → ArchiveIO Unit} (h : s.At aw)
    (hfound : ∀ s, s.Compressed aw j → Safe T (f true) s)
    (hnot : ∀ s, s.At aw → s.hours.gz j = none → Safe T (f false) s) :
    Safe T ((((sys (.stat ⟨j, .gz⟩)).bind fun _ ↦ Program.done true).tryCatch
      fun _ ↦ Program.done false).bind f) s := by
  let known (b : Bool) (s : Site) : Prop :=
    if b then s.Compressed aw j else s.At aw ∧ s.hours.gz j = none
  have hstable (b : Bool) : Stable Site.Apart (known b) := by
    rintro s s' hs hb
    cases b with
    | true => exact Site.stable_compressed aw j s s' hs hb
    | false =>
      refine ⟨Site.stable_at aw s s' hs hb.1, ?_⟩
      by_contra hne
      exact hs.gz_of_ne_none hne hb.2
  have hstat : (sys (.stat ⟨j, .gz⟩)).Keeps siteMachine Site.Apart Site.Moves
      (fun _ ↦ known true) (fun _ ↦ known false) s := by
    refine Keeps.perform (Site.stable_at aw) h (fun _ ↦ hstable true) (fun _ ↦ hstable false)
      (fun s hs ↦ ⟨Site.moves_of_eq (quiet_stat _).apply, ?_⟩) (fun _ _ _ _ hf ↦ hf.elim) ?_
    · have hat := hs.apply (quiet_stat ⟨j, .gz⟩) nofun
      rcases hgz : s.hours.gz j with _ | g
      · have hr : (s.apply (.stat ⟨j, .gz⟩)).1 = .error (.os "stat") := by
          simp only [Site.apply, Syscall.apply, Syscall.onExisting, Site.world,
            show s.disk.lookup ⟨j, .gz⟩ = none from hgz, Option.isSome_none, Bool.false_eq_true,
            if_false]
        rw [show siteMachine.apply = Site.apply from rfl, hr]
        exact ⟨hat, by rw [(quiet_stat _).apply, hgz]⟩
      · have hr : (s.apply (.stat ⟨j, .gz⟩)).1 = .ok () := by
          simp only [Site.apply, Syscall.apply, Syscall.onExisting, Site.world,
            show s.disk.lookup ⟨j, .gz⟩ = some g from hgz, Option.isSome_some, if_true]
        rw [show siteMachine.apply = Site.apply from rfl, hr]
        exact ⟨hat, fun _ ↦ by rw [(quiet_stat _).apply, hgz]; simp⟩
    · rintro s _ hs ⟨n, rfl⟩
      exact Site.moves_of_eq ((quiet_stat _).cut n)
  have hasked : Safe known (((sys (.stat ⟨j, .gz⟩)).bind fun _ ↦ Program.done true).tryCatch
      fun _ ↦ Program.done false) s := by
    refine Keeps.tryCatch Site.Apart.rely
      (Keeps.bind Site.Apart.rely hstat fun _ _ hs ↦ Keeps.done (hstable true) hs) ?_
    exact fun _ _ hs ↦ Keeps.done (hstable false) hs
  refine hasked.bind fun b s' hs' ↦ ?_
  cases b with
  | true => exact hfound s' hs'
  | false => exact hnot s' hs'.1 hs'.2

/-- **`gzipFile` moves the hour files only**, and leaves the writer at work. -/
theorem safe_gzipFile {aw : ArchiveWriter} {j : HourKey} (hj : j < aw.curKey) (h : s.At aw) :
    Safe (fun _ ↦ Site.At aw) (gzipFile ⟨j, .ndjson⟩) s := by
  refine safe_stat h (fun s hs ↦ safe_removePlain hj hs) fun s hs hgz ↦ ?_
  -- the plain file is read only if it is there, and then nobody but the writer removes it
  have hopen : Safe (fun _ s ↦ ∃ b, s.Pending aw j b)
      (errorf "open" (sys (.openRead ⟨j, .ndjson⟩)) (some ⟨j, .ndjson⟩)) s := by
    refine Safe.errorf (Safe.quiet _ (I := fun s ↦ s.At aw ∧ s.hours.gz j = none) ?_ ⟨hs, hgz⟩ ?_
      (fun _ _ ↦ quiet_openRead _) ?_)
    · rintro s s' h ⟨hat, hnone⟩
      refine ⟨Site.stable_at aw s s' h hat, ?_⟩
      by_contra hne
      exact h.gz_of_ne_none hne hnone
    · rintro _ s s' h ⟨b, hb⟩
      exact ⟨b, Site.stable_pending aw j b s s' h hb⟩
    · rintro s ⟨hat, hnone⟩
      have hat' := hat.apply (quiet_openRead ⟨j, .ndjson⟩) (by simp)
      rcases hplain : s.hours.plain j with _ | b
      · have hr : (s.apply (.openRead ⟨j, .ndjson⟩)).1 = .error (.os "open") := by
          simp only [Site.apply, Syscall.apply, Syscall.onExisting, Site.world,
            Option.map_eq_none_iff.mp hplain, Option.isSome_none, Bool.false_eq_true, if_false]
        rw [hr]
        exact hat'.tidy
      · have hr : (s.apply (.openRead ⟨j, .ndjson⟩)).1 = .ok () := by
          simp only [Site.apply, Syscall.apply, Syscall.onExisting, Site.world,
            Site.disk_isSome (p := ⟨j, .ndjson⟩) (s := s)
              (by rw [← Site.hours_plain, hplain]; simp),
            if_true]
        rw [hr]
        refine ⟨b, hat', ?_, ?_⟩
        · rw [(quiet_openRead _).apply, hnone]
        · rw [(quiet_openRead _).apply, hplain]
  refine hopen.bind ?_
  rintro _ s₀ ⟨b, h₀⟩
  -- the temporary file is built up from the plain one, and renamed when it is whole
  have hcreate : Safe (fun _ ↦ Site.Building aw j b { bytes := [] })
      (errorf "create" (sys (.create ⟨j, .tmp⟩)) (some ⟨j, .tmp⟩)) s₀ :=
    Safe.errorf (safe_build (Site.stable_pending aw j b) h₀ (fun _ h ↦ h) (by simp)
      (fun _ ↦ quiet_create rfl) (fun _ _ ↦ AList.lookup_insert _) fun _ ↦ ⟨(), rfl⟩)
  refine hcreate.bind fun _ s₁ h₁ ↦ ?_
  have hcopy : Safe (fun _ ↦ Site.Building aw j b { bytes := b })
      (removeOnError ⟨j, .tmp⟩ "compress" ⟨j, .ndjson⟩
        (sys (.copy ⟨j, .ndjson⟩ ⟨j, .tmp⟩))) s₁ := by
    refine safe_removeOnError rfl (safe_build (Site.stable_building aw j b _) h₁ (fun _ h ↦ h.1)
      (by simp) (fun _ ↦ quiet_copy _ rfl) (fun s hs ↦ ?_) fun _ ↦ ⟨(), rfl⟩)
    have hbytes : s.world.bytesAt ⟨j, .ndjson⟩ = b := congrArg (Option.getD · []) hs.1.2.2
    rw [Syscall.apply, hbytes, World.appendTo_eq_modify, World.lookup_modify_self]
    exact congrArg (Option.map _) hs.2
  refine hcopy.bind fun _ s₂ h₂ ↦ ?_
  have hgzip : Safe (fun _ ↦ Site.Building aw j b (gzipped b))
      (removeOnError ⟨j, .tmp⟩ "close gzip" ⟨j, .ndjson⟩ (sys (.closeGzip ⟨j, .tmp⟩))) s₂ := by
    refine safe_removeOnError rfl (safe_build (Site.stable_building aw j b _) h₂ (fun _ h ↦ h.1)
      (by simp) (fun _ ↦ quiet_closeGzip rfl) (fun s hs ↦ ?_) fun _ ↦ ⟨(), rfl⟩)
    rw [Syscall.apply, World.lookup_modify_self]
    exact congrArg (Option.map _) hs.2
  refine hgzip.bind fun _ s₃ h₃ ↦ ?_
  have hclose : Safe (fun _ ↦ Site.Building aw j b (gzipped b))
      (removeOnError ⟨j, .tmp⟩ "close" ⟨j, .tmp⟩ (sys (.close ⟨j, .tmp⟩))) s₃ :=
    safe_removeOnError rfl (safe_build (Site.stable_building aw j b _) h₃ (fun _ h ↦ h.1)
      (by simp) (fun _ ↦ quiet_close _) (fun _ hs ↦ hs.2) fun _ ↦ ⟨(), rfl⟩)
  refine hclose.bind fun _ s₄ h₄ ↦ ?_
  have hrename : Safe (fun _ ↦ Site.Compressed aw j)
      (removeOnError ⟨j, .tmp⟩ "rename" ⟨j, .tmp⟩ (sys (.rename ⟨j, .tmp⟩ ⟨j, .gz⟩))) s₄ := by
    refine safe_removeOnError rfl (Safe.sys _ (Site.stable_building aw j b _) h₄
      (fun _ ↦ Site.stable_compressed aw j) ?_ fun s n _ ↦ Site.moves_of_eq
        (Site.hours_cut rfl fun _ ↦ rfl))
    rintro s ⟨⟨hat, hnone, hplain⟩, htmp⟩
    have hr : (s.apply (.rename ⟨j, .tmp⟩ ⟨j, .gz⟩)).1 = .ok () := by
      simp only [Site.apply, Syscall.apply, Site.world, htmp]
    have hne : s.hours.plain j ≠ none := by simp [hplain]
    rw [hr, Site.Moves, hours_rename hplain htmp]
    refine ⟨.compress j hne hnone (hj.trans_le hat.2.time),
      ⟨(writer_apply (c := .rename _ _) (by simp) s).trans hat.1, ?_⟩, fun _ ↦ ?_⟩
    · rw [hours_rename hplain htmp]
      refine ⟨hat.2.file, fun i hi ↦ ?_, hat.2.known, hat.2.time⟩
      by_cases hij : i = j
      · exact hij ▸ hj
      · rw [Hours.compress_gz, if_neg hij] at hi
        exact hat.2.past i hi
    · rw [hours_rename hplain htmp, Hours.compress_gz, if_pos rfl, hplain]
      simp
  exact hrename.bind fun _ s₅ h₅ ↦ safe_removePlain hj h₅

theorem safe_finalizeStale {aw : ArchiveWriter} (h : s.At aw) :
    Safe (fun _ ↦ Site.At aw) finalizeStale s := by
  have hglob : Safe (fun m s ↦ (∀ p ∈ m, p.ext = .ndjson ∧ p.hour ≤ aw.curKey) ∧ s.At aw)
      (errorf "glob archive files" (sys .glob)) s := by
    refine Safe.errorf (Safe.quiet .glob (Site.stable_at aw) h ?_ (fun _ _ ↦ quiet_glob) ?_)
    · exact fun m s s' hs hm ↦ ⟨hm.1, Site.stable_at aw s s' hs hm.2⟩
    · refine fun s hs ↦ ⟨fun p hp ↦ ?_, hs.apply quiet_glob nofun⟩
      obtain ⟨hsome, hext⟩ := mem_plainPaths.mp hp
      obtain ⟨j, e⟩ := p
      obtain rfl : e = .ndjson := hext
      refine ⟨rfl, hs.2.known j ?_⟩
      rw [Site.hours_plain, ne_eq, Option.map_eq_none_iff]
      exact Option.isSome_iff_ne_none.mp hsome
  refine hglob.bind fun m s' hs' ↦ ?_
  refine (Safe.load hs'.2).bind ?_
  rintro a s'' ⟨ha, hs''⟩
  rw [ha]
  let left (xs : List Path) (s : Site) : Prop :=
    (∀ p ∈ xs, p.ext = .ndjson ∧ p.hour ≤ aw.curKey) ∧ s.At aw
  have hloop : Safe (fun _ ↦ left []) (forEach
      (fun path ↦
        if path = ⟨aw.curKey, .ndjson⟩ then Program.done () else gzipFile path) m) s'' := by
    refine Keeps.forEach Site.Apart.rely (fun s s' hs hl ↦ ⟨hl.1, Site.stable_at aw s s' hs hl.2⟩)
      ⟨hs'.1, hs''⟩ fun x xs t ht ↦ ?_
    obtain ⟨hall, hat⟩ := ht
    obtain ⟨j, e⟩ := x
    obtain ⟨rfl, hle⟩ : e = .ndjson ∧ j ≤ aw.curKey := hall _ List.mem_cons_self
    have hxs : ∀ p ∈ xs, p.ext = .ndjson ∧ p.hour ≤ aw.curKey := fun p hp ↦
      hall p (List.mem_cons_of_mem _ hp)
    have hbody : Safe (fun _ ↦ Site.At aw)
        (if (⟨j, .ndjson⟩ : Path) = ⟨aw.curKey, .ndjson⟩ then Program.done ()
          else gzipFile ⟨j, .ndjson⟩) t := by
      by_cases hj : j = aw.curKey
      · rw [if_pos (by rw [hj])]
        exact Safe.done (Site.stable_at aw) hat
      · rw [if_neg fun h ↦ hj (congrArg Path.hour h)]
        exact safe_gzipFile (lt_of_le_of_ne hle hj) hat
    exact hbody.mono fun _ _ hs ↦ ⟨hxs, hs⟩
  exact hloop.mono fun _ _ hl ↦ hl.2

/-! ## The start -/

/-- The hour files as a starting writer needs them. -/
def Site.Settled (s : Site) : Prop :=
  (∀ j, s.hours.gz j ≠ none → j < hourKey s.time)
    ∧ ∀ j, s.hours.plain j ≠ none → j ≤ hourKey s.time

theorem Site.stable_settled : Stable Site.Apart Site.Settled := by
  rintro s s' h ⟨hgz, hplain⟩
  constructor
  · intro j hj
    exact (hgz j (h.gz_of_ne_none hj)).trans_le (hourKey_mono h.time)
  · intro j hj
    rw [h.plain] at hj
    exact (hplain j hj).trans (hourKey_mono h.time)

/-- **A writer that starts moves the hour files only.** -/
theorem safe_newArchiveWriter (h : s.Settled) :
    Safe (fun _ ↦ Site.Tidy) newArchiveWriter s := by
  have hmkdir : Safe (fun _ ↦ Site.Settled) (errorf "create archive dir" (sys .mkdirAll)) s :=
    Safe.errorf (Safe.quiet .mkdirAll Site.stable_settled h (fun _ ↦ Site.stable_settled)
      (fun _ _ ↦ quiet_mkdirAll) fun s hs ↦ hs)
  refine hmkdir.bind fun _ s₁ h₁ ↦ ?_
  -- the hour that was read is from now on the current one, whatever the clock does next
  let read (t : ℤ) (s : Site) : Prop := s.hours.Serves { curKey := hourKey t }
  have hread (t : ℤ) : Stable Site.Apart (read t) := fun s s' hs ht ↦ hs.serves ht
  have hnow : Safe read now s₁ := by
    refine Safe.quiet .now Site.stable_settled h₁ hread (fun _ _ ↦ quiet_now) fun s hs ↦ ?_
    exact ⟨nofun, hs.1, hs.2, le_rfl⟩
  refine hnow.bind fun t s₂ h₂ ↦ ?_
  have hstore := Safe.store (hread t) h₂ fun _ hs ↦ hs
  refine hstore.bind fun _ s₃ h₃ ↦ ?_
  exact (safe_finalizeStale h₃).mono fun _ _ hs ↦ hs.tidy

/-! ## The buffer -/

theorem Hours.Serves.append {h : Hours} {aw : ArchiveWriter} (hs : h.Serves aw) (k : HourKey)
    (c : Bytes) : (h.append k c).Serves aw := by
  have hplain (j : HourKey) : (h.append k c).plain j = none ↔ h.plain j = none := by
    rw [Hours.append_plain]
    split
    · next hj => rw [hj, Option.map_eq_none_iff]
    · rfl
  refine ⟨fun p hp ↦ ⟨(hs.file p hp).1, ?_⟩, hs.past, fun j hj ↦ hs.known j ?_, hs.time⟩
  · exact mt (hplain _).mp (hs.file p hp).2
  · exact mt (hplain j).mpr hj

/-- A memory that fits the hour files, as long as the open file is the current hour's. -/
theorem Site.InHour.serves {k : HourKey} {s : Site} (h : s.InHour k) {aw : ArchiveWriter}
    (hkey : aw.curKey = k) (hfile : ∀ p, aw.curFile = some p → p = ⟨k, .ndjson⟩) :
    s.hours.Serves aw := by
  obtain ⟨⟨hs, hk⟩, hplain⟩ := h
  refine ⟨fun p hp ↦ ?_, fun j hj ↦ ?_, fun j hj ↦ ?_, ?_⟩
  · rw [hkey]
    exact ⟨hfile p hp, hplain⟩
  · rw [hkey, ← hk]
    exact hs.past j hj
  · rw [hkey, ← hk]
    exact hs.known j hj
  · rw [hkey, ← hk]
    exact hs.time

theorem Site.InHour.gz {k : HourKey} {s : Site} (h : s.InHour k) : s.hours.gz k = none := by
  by_contra hne
  have hlt := h.1.1.past k hne
  rw [h.1.2] at hlt
  exact lt_irrefl k hlt

theorem safe_writeChunk {k : HourKey} (chunk : Bytes) (h : s.InHour k) :
    Safe (fun _ ↦ Site.InHour k) (writeChunk ⟨k, .ndjson⟩ chunk) s := by
  refine Keeps.tryCatch (F := fun _ _ ↦ False) Site.Apart.rely ?_ fun _ _ hf ↦ hf.elim
  refine Keeps.perform (Site.stable_inHour k) h (fun _ ↦ Site.stable_inHour k)
    (fun _ _ _ _ hf ↦ hf) (fun s hs ↦ ⟨?_, ⟨⟨?_, ?_⟩, ?_⟩⟩) (fun _ _ _ _ hf ↦ hf.elim) ?_
  · rw [Site.Moves, show siteMachine.apply = Site.apply from rfl, hours_write]
    exact .append k chunk hs.2 hs.gz
  · rw [show siteMachine.apply = Site.apply from rfl, Site.Tidy, hours_write,
      writer_apply (c := .write _ _) (by simp)]
    exact hs.1.1.append k chunk
  · rw [show siteMachine.apply = Site.apply from rfl, writer_apply (c := .write _ _) (by simp)]
    exact hs.1.2
  · rw [show siteMachine.apply = Site.apply from rfl, hours_write, Hours.append_plain, if_pos rfl,
      ne_eq, Option.map_eq_none_iff]
    exact hs.2
  · rintro s _ hs ⟨n, rfl⟩
    rw [Site.Moves, hours_cut_write]
    exact .append k _ hs.2 hs.gz

theorem Site.At.inHour {aw : ArchiveWriter} {p : Path} (h : s.At aw)
    (hp : aw.curFile = some p) : p = ⟨aw.curKey, .ndjson⟩ ∧ s.InHour aw.curKey :=
  ⟨(h.2.file p hp).1, h.holds, (h.2.file p hp).2⟩

theorem safe_storeBuf {k : HourKey} {aw : ArchiveWriter} (hkey : aw.curKey = k)
    (hfile : ∀ p, aw.curFile = some p → p = ⟨k, .ndjson⟩) (h : s.InHour k) :
    Safe (fun _ ↦ Site.Holds k) (store aw) s :=
  (Safe.store (Site.stable_inHour k) h fun _ hs ↦ hs.serves hkey hfile).mono
    fun _ _ hs ↦ hkey ▸ hs.holds

theorem safe_bufWrite {k : HourKey} (value : Bytes) (h : s.Holds k) :
    Safe (fun _ ↦ Site.Holds k) (bufWrite value) s := by
  obtain ⟨hs, rfl⟩ := h
  refine (Safe.load hs.at).bind ?_
  generalize s.writer = aw
  rintro a s' ⟨ha, hs'⟩
  rw [ha]
  rcases hfile : aw.curFile with _ | p
  · rcases herr : aw.buf.err with _ | e <;> exact Safe.raise hs'.tidy
  · rcases herr : aw.buf.err with _ | e
    · obtain ⟨rfl, hin⟩ := hs'.inHour hfile
      have hloop : Safe (fun _ ↦ Site.InHour aw.curKey) (forEach (writeChunk ⟨aw.curKey, .ndjson⟩)
          (bufioWrite aw.buf.pending value).1) s' :=
        Keeps.forEach (I := fun _ ↦ Site.InHour aw.curKey) Site.Apart.rely (Site.stable_inHour _)
          hin fun chunk _ _ ht ↦ safe_writeChunk chunk ht
      exact hloop.bind fun _ s'' hs'' ↦
        safe_storeBuf rfl (fun _ hp ↦ (Option.some.inj hp).symm) hs''
    · exact Safe.raise hs'.tidy

theorem safe_bufFlush {k : HourKey} (h : s.Holds k) :
    Safe (fun _ ↦ Site.Holds k) bufFlush s := by
  obtain ⟨hs, rfl⟩ := h
  refine (Safe.load hs.at).bind ?_
  generalize s.writer = aw
  rintro a s' ⟨ha, hs'⟩
  rw [ha]
  rcases hfile : aw.curFile with _ | p
  · rcases herr : aw.buf.err with _ | e <;> exact Safe.raise hs'.tidy
  · rcases herr : aw.buf.err with _ | e
    · obtain ⟨rfl, hin⟩ := hs'.inHour hfile
      by_cases hpending : aw.buf.pending = []
      · simp only [hpending, if_true]
        exact Safe.done (Site.stable_holds _) hs'.holds
      · simp only [hpending, if_false]
        exact (safe_writeChunk aw.buf.pending hin).bind fun _ s'' hs'' ↦
          safe_storeBuf rfl (fun _ hp ↦ (Option.some.inj hp).symm) hs''
    · exact Safe.raise hs'.tidy

theorem safe_bufWriteByte {k : HourKey} (c : UInt8) (h : s.Holds k) :
    Safe (fun _ ↦ Site.Tidy) (bufWriteByte c) s := by
  refine (Safe.load h.1.at).bind ?_
  rintro a s₁ ⟨-, h₁⟩
  have hflush : Safe (fun _ ↦ Site.Tidy)
      (runIf (a.buf.err = none ∧ bufSize ≤ a.buf.pending.length) bufFlush) s₁ := by
    refine Keeps.runIf (fun _ ↦ ?_) fun _ ↦ Safe.done Site.stable_tidy h₁.tidy
    exact (safe_bufFlush h₁.holds).mono fun _ _ hs ↦ hs.1
  refine hflush.bind fun _ s₂ h₂ ↦ ?_
  refine (Safe.load h₂.at).bind ?_
  generalize s₂.writer = aw
  rintro a s₃ ⟨ha, h₃⟩
  rw [ha]
  rcases herr : aw.buf.err with _ | e
  · refine (Safe.store (Site.stable_at aw) h₃ fun s hs ↦ ?_).mono fun _ _ hs ↦ hs.tidy
    exact ⟨hs.2.file, hs.2.past, hs.2.known, hs.2.time⟩
  · exact Safe.raise h₃.tidy

/-! ## The methods -/

theorem safe_close {k : HourKey} (h : s.Holds k) : Safe (fun _ ↦ Site.Holds k) close s := by
  obtain ⟨hs, rfl⟩ := h
  refine (Safe.load hs.at).bind ?_
  generalize s.writer = aw
  rintro a s' ⟨ha, hs'⟩
  rw [ha]
  rcases hfile : aw.curFile with _ | p
  · exact Safe.done (Site.stable_holds _) hs'.holds
  · refine (safe_bufFlush hs'.holds).errorf.bind fun _ s₁ h₁ ↦ ?_
    refine (Safe.load h₁.1.at).bind ?_
    rintro a s₂ ⟨hwriter, h₂⟩
    have hkey : a.curKey = aw.curKey := hwriter ▸ h₁.2
    -- without an open file the memory fits as it did
    have hserves (t : Site) (ht : t.Holds aw.curKey) : t.hours.Serves { a with curFile := none } :=
      ⟨nofun, fun j hj ↦ hkey ▸ ht.2 ▸ ht.1.past j hj, fun j hj ↦ hkey ▸ ht.2 ▸ ht.1.known j hj,
        hkey ▸ ht.2 ▸ ht.1.time⟩
    have hclose : Safe (fun _ ↦ Site.Holds aw.curKey) ((sys (.close p)).tryCatch fun e ↦ do
        store { a with curFile := none }
        Program.raise (.wrap "close file" none e)) s₂ := by
      refine Keeps.tryCatch (F := fun _ _ ↦ False) Site.Apart.rely ?_ fun _ _ hf ↦ hf.elim
      refine Keeps.perform (Site.stable_holds aw.curKey) (hkey ▸ hwriter ▸ h₂.holds)
        (fun _ ↦ Site.stable_holds _) (fun _ _ _ _ hf ↦ hf)
        (fun s hs ↦ ⟨Site.moves_of_eq (quiet_close p).apply, ?_⟩) (fun _ _ _ _ hf ↦ hf.elim) ?_
      · exact hs.2 ▸ (hs.1.at.apply (quiet_close p) nofun).holds
      · rintro s _ - ⟨n, rfl⟩
        exact Site.moves_of_eq ((quiet_close p).cut n)
    refine hclose.bind fun _ s₃ h₃ ↦ ?_
    exact (Safe.store (Site.stable_holds _) h₃ hserves).mono fun _ _ hs ↦ hkey ▸ hs.holds

/-- The hour `key` is the current one or a later one, and it has begun. -/
def Site.Reaches (key : HourKey) (s : Site) : Prop :=
  s.Tidy ∧ s.writer.curKey ≤ key ∧ key ≤ hourKey s.time

theorem Site.stable_begun (key : HourKey) : Stable Site.Apart fun s ↦ key ≤ hourKey s.time :=
  fun _ _ h hkey ↦ hkey.trans (hourKey_mono h.time)

theorem Site.stable_reaches (key : HourKey) : Stable Site.Apart (Site.Reaches key) := by
  rintro s s' h ⟨hs, hle, htime⟩
  refine ⟨Site.stable_tidy s s' h hs, ?_, Site.stable_begun key s s' h htime⟩
  rw [h.writer]
  exact hle

theorem Safe.quiet_reaches {c : Syscall} {key : HourKey} (hc : ∀ aw, c ≠ .store aw)
    (hq : ∀ s, Quiet c s) (h : s.Reaches key) :
    Safe (fun _ ↦ Site.Reaches key) (Archive.sys c) s :=
  Safe.keep (P := fun w h ↦ h.Serves w ∧ w.curKey ≤ key ∧ key ≤ hourKey h.time) hc hq
    (Site.stable_reaches key) (fun _ _ hs ↦ hs.1) h

/-- The memory of a writer that has just opened the hour `key`. -/
abbrev openedAt (key : HourKey) : ArchiveWriter := { curKey := key, curFile := some ⟨key, .ndjson⟩ }

/-- Opening an hour: the files before it may be compressed from now on. -/
theorem safe_openAppend {key : HourKey} (h : s.Reaches key) :
    Safe (fun _ s ↦ s.hours.Serves (openedAt key)) (sys (.openAppend ⟨key, .ndjson⟩)) s := by
  refine Safe.sys _ (Site.stable_reaches key) h (fun _ s s' hs ha ↦ hs.serves ha) ?_
    fun s n _ ↦ Site.moves_of_eq (Site.hours_cut rfl fun _ ↦ rfl)
  rintro s ⟨hs, hle, htime⟩
  rw [Site.Moves, hours_openAppend]
  refine ⟨.openHour key htime fun j hj ↦ (hs.past j hj).trans_le hle, ?_⟩
  rw [show (s.apply (.openAppend ⟨key, .ndjson⟩)).1 = .ok () from rfl, Known, hours_openAppend]
  refine ⟨fun p hp ↦ ⟨(Option.some.inj hp).symm, ?_⟩, fun j hj ↦ (hs.past j hj).trans_le hle,
    fun j hj ↦ ?_, htime⟩
  · rw [Hours.openHour_plain, if_pos rfl]
    exact Option.some_ne_none _
  · by_cases hjk : j = key
    · exact hjk.le
    · rw [Hours.openHour_plain, if_neg hjk] at hj
      exact (hs.known j hj).trans hle

theorem safe_rotate {key : HourKey} (h : s.Reaches key) :
    Safe (fun _ ↦ Site.Tidy) (rotate key) s := by
  refine Safe.bind (Safe.quiet_reaches (c := .load) nofun (fun _ ↦ quiet_load) h) fun aw s₁ h₁ ↦ ?_
  have hclose : Safe (fun _ ↦ Site.Reaches key) (runIf aw.curFile.isSome close) s₁ := by
    refine Keeps.runIf (fun _ ↦ ?_) fun _ ↦ Safe.done (Site.stable_reaches key) h₁
    have hmoves : Stable Site.Moves fun s ↦ key ≤ hourKey s.time := by
      intro s s' hm hkey
      rw [hm.time]
      exact hkey
    have hframe := Keeps.frame (Site.stable_begun key) hmoves h₁.2.2 (safe_close ⟨h₁.1, rfl⟩)
    exact Keeps.mono hframe (fun _ _ hs ↦ ⟨hs.1.1, hs.1.2.le.trans h₁.2.1, hs.2⟩) fun _ _ hs ↦ hs.1
  refine hclose.bind fun _ s₂ h₂ ↦ ?_
  have hmkdir := Safe.quiet_reaches (c := .mkdirAll) nofun (fun _ ↦ quiet_mkdirAll) h₂
  refine hmkdir.errorf.bind fun _ s₃ h₃ ↦ ?_
  refine (safe_openAppend h₃).errorf.bind fun _ s₄ h₄ ↦ ?_
  refine (Safe.store (fun s s' hs ha ↦ hs.serves ha) h₄ fun _ hs ↦ hs).bind fun _ s₅ h₅ ↦ ?_
  exact (safe_finalizeStale h₅).mono fun _ _ hs ↦ hs.tidy

/-- **`Write` moves the hour files only.** -/
theorem safe_write (value : Bytes) (h : s.Tidy) :
    Safe (fun _ ↦ Site.Tidy) (Archive.write value) s := by
  -- the hour that was read is not before the current one
  have hnow : Safe (fun t ↦ Site.Reaches (hourKey t)) now s := by
    refine Safe.quiet .now Site.stable_tidy h (fun t ↦ Site.stable_reaches _) (fun _ _ ↦ quiet_now)
      fun s hs ↦ ?_
    exact ⟨hs.at.apply quiet_now nofun |>.tidy, hs.time, le_rfl⟩
  refine hnow.bind fun t s₁ h₁ ↦ ?_
  refine Safe.bind (Safe.quiet_reaches (c := .load) nofun (fun _ ↦ quiet_load) h₁) fun aw s₂ h₂ ↦ ?_
  have hrotate : Safe (fun _ ↦ Site.Tidy)
      (runIf (hourKey t ≠ aw.curKey ∨ aw.curFile = none) (rotate (hourKey t))) s₂ :=
    Keeps.runIf (fun _ ↦ safe_rotate h₂) fun _ ↦ Safe.done Site.stable_tidy h₂.1
  refine hrotate.bind fun _ s₃ h₃ ↦ ?_
  have hwrite : Safe (fun _ ↦ Site.Holds s₃.writer.curKey)
      (errorf "write line" (bufWrite value)) s₃ := (safe_bufWrite value ⟨h₃, rfl⟩).errorf
  exact hwrite.bind fun _ s₄ h₄ ↦ safe_bufWriteByte newline h₄

/-- **`Flush` moves the hour files only.** -/
theorem safe_flush (h : s.Tidy) : Safe (fun _ ↦ Site.Tidy) flush s := by
  refine (Safe.load h.at).bind ?_
  generalize s.writer = aw
  rintro a s₁ ⟨ha, h₁⟩
  rw [ha]
  rcases hfile : aw.curFile with _ | p
  · exact Safe.done Site.stable_tidy h₁.tidy
  · have hext : p.ext = .ndjson := by
      rw [(h₁.2.file p hfile).1]
    refine (safe_bufFlush h₁.holds).errorf.bind fun _ s₂ h₂ ↦ ?_
    exact ((Safe.quiet_at (c := .sync p) nofun (fun _ ↦ quiet_sync hext) h₂.1.at).mono
      fun _ _ hs ↦ hs.tidy).errorf

theorem safe_request (r : Request) (h : s.Tidy) : Safe (fun _ ↦ Site.Tidy) r.program s := by
  cases r with
  | write value => exact safe_write value h
  | flush => exact safe_flush h

end SiteWriter

end GtfsStream.Archive
