import GtfsStream.Archive.Compactor
import GtfsStream.Library.RelyGuarantee

/-!
# What the compactor does to the two tiers

Beside a writer that leaves old days alone, a pass of the compactor changes the archive in two ways
only. It publishes the partition of a *closed* day, one that is old and has no plain file, and then
the partition has every line of the day's compressed files. And it removes compressed files of days
whose partition is published.

The gates of `eligible_days` are looked at long before a day is folded, and the files are listed
before they are read, so all that is known of them is what a closed day keeps: no plain file comes
back to it, and its compressed files stay as they are.
-/

namespace GtfsStream.Archive

open Program

/-! ## Closed days -/

/-- The day is old enough to compact, and none of its hours has a plain file. -/
def Tiers.Closed (day : DayKey) (s : Tiers) : Prop :=
  dayStart day + minAge ≤ s.site.time ∧ ∀ k, dayOf k = day → s.site.hours.plain k = none

/-- What may happen between two calls of the compactor: time passes and the writer works, on days
that are not closed. -/
structure Tiers.Beside (s s' : Tiers) : Prop where
  store : s'.store = s.store
  time : s.site.time ≤ s'.site.time
  closed : ∀ day, s.Closed day → ∀ k, dayOf k = day →
    s'.site.hours.plain k = none ∧ s'.site.hours.gz k = s.site.hours.gz k

/-- One change that the compactor may make, with what it makes sure of before. -/
inductive Tiers.Change (s s' : Tiers) : Prop
  | stay (hsite : s'.site = s.site) (hparquet : s'.store.parquet = s.store.parquet)
  | publish (day : DayKey) (part : Partition) (hclosed : s.Closed day)
      (hnew : s.store.parquet.lookup day = none)
      (hrows : ∀ k, dayOf k = day → ∀ f, s.site.hours.gz k = some f →
        ∀ line ∈ lines newline f.bytes, line ≠ [] → line ∈ part.rows)
      (hsite : s'.site = s.site) (hparquet : s'.store.parquet = s.store.parquet.insert day part)
  | unlink (k : HourKey) (hout : (s.store.parquet.lookup (dayOf k)).isSome)
      (hsite : s'.site = { s.site with disk := s.site.disk.erase ⟨k, .gz⟩ })
      (hparquet : s'.store.parquet = s.store.parquet)

namespace Tiers

variable {s s' : Tiers} {day : DayKey} {k : HourKey}

theorem Beside.closed_kept (h : s.Beside s') (hday : s.Closed day) : s'.Closed day :=
  ⟨hday.1.trans h.time, fun k hk ↦ (h.closed day hday k hk).1⟩

theorem Beside.rely : Rely Beside where
  refl s := ⟨rfl, le_rfl, fun _ hday k hk ↦ ⟨hday.2 k hk, rfl⟩⟩
  trans s s' s'' h h' := by
    refine ⟨h'.store.trans h.store, h.time.trans h'.time, fun day hday k hk ↦ ?_⟩
    obtain ⟨hplain, hgz⟩ := h'.closed day (h.closed_kept hday) k hk
    exact ⟨hplain, hgz.trans (h.closed day hday k hk).2⟩

theorem stable_closed (day : DayKey) : Stable Beside (Closed day) :=
  fun _ _ h hday ↦ h.closed_kept hday

theorem Change.files (h : s.Change s') {p : Path} (hp : p.ext ≠ .gz) :
    s'.site.disk.lookup p = s.site.disk.lookup p := by
  cases h with
  | stay hsite hparquet => rw [hsite]
  | publish day part hclosed hnew hrows hsite hparquet => rw [hsite]
  | unlink k hout hsite hparquet =>
    rw [hsite]
    refine AList.lookup_erase_ne ?_
    rintro rfl
    exact hp rfl

theorem Change.plain (h : s.Change s') (k : HourKey) :
    s'.site.hours.plain k = s.site.hours.plain k :=
  congrArg (Option.map File.bytes) (h.files (p := ⟨k, .ndjson⟩) nofun)

theorem Change.time (h : s.Change s') : s'.site.time = s.site.time := by
  cases h with
  | stay hsite hparquet => rw [hsite]
  | publish day part hclosed hnew hrows hsite hparquet => rw [hsite]
  | unlink k hout hsite hparquet => rw [hsite]

theorem Change.closed (h : s.Change s') (hday : s.Closed day) : s'.Closed day := by
  refine ⟨?_, fun k hk ↦ ?_⟩
  · rw [h.time]
    exact hday.1
  · rw [h.plain]
    exact hday.2 k hk

theorem Change.parquet (h : s.Change s') (hday : (s.store.parquet.lookup day).isSome) :
    (s'.store.parquet.lookup day).isSome := by
  cases h with
  | stay hsite hparquet => rwa [hparquet]
  | publish d part hclosed hnew hrows hsite hparquet =>
    rw [hparquet]
    by_cases hd : day = d
    · rw [hd, AList.lookup_insert]
      rfl
    · rwa [AList.lookup_insert_ne hd]
  | unlink k hout hsite hparquet => rwa [hparquet]

end Tiers

/-! ## One call -/

/-- Started in `s`, the compactor's program makes such changes only, and it ends with `Q` or with an
error. -/
def Compacts (duck : DuckDB) {α : Type} (Q : α → Tiers → Prop) (p : CompactIO α) (s : Tiers) :
    Prop :=
  p.Keeps (CompactCall.machine duck) Tiers.Beside Tiers.Change Q (fun _ _ ↦ True) s

section Compacts

variable {duck : DuckDB} {α β : Type} {s : Tiers}

theorem stable_true {σ : Type} {R : σ → σ → Prop} : Stable R fun _ ↦ True :=
  fun _ _ _ _ ↦ trivial

theorem Compacts.done {Q : α → Tiers → Prop} {a : α} (hQ : Stable Tiers.Beside (Q a)) (h : Q a s) :
    Compacts duck Q (Program.done a) s := Keeps.done hQ h

theorem Compacts.finish {a : α} : Compacts duck (fun _ _ ↦ True) (Program.done a) s :=
  Compacts.done stable_true trivial

theorem Compacts.raise {Q : α → Tiers → Prop} {e : CompactError} :
    Compacts duck Q (Program.raise e) s := Keeps.raise stable_true trivial

theorem Compacts.mono {Q Q' : α → Tiers → Prop} {p : CompactIO α} (h : Compacts duck Q p s)
    (hQ : ∀ a s', Q a s' → Q' a s') : Compacts duck Q' p s := Keeps.mono h hQ fun _ _ he ↦ he

theorem Compacts.bind {Q : α → Tiers → Prop} {T : β → Tiers → Prop} {p : CompactIO α}
    {f : α → CompactIO β} (h : Compacts duck Q p s)
    (hf : ∀ a s', Q a s' → Compacts duck T (f a) s') : Compacts duck T (p.bind f) s :=
  Keeps.bind Tiers.Beside.rely h hf

theorem Compacts.tryCatch {Q : α → Tiers → Prop} {p : CompactIO α} {k : CompactError → CompactIO α}
    (h : Compacts duck Q p s) (hk : ∀ e s', Compacts duck Q (k e) s') :
    Compacts duck Q (p.tryCatch k) s := Keeps.tryCatch Tiers.Beside.rely h fun e s' _ ↦ hk e s'

/-- What neither process changes stays known, also where the program raises. -/
theorem Compacts.frame {Q : α → Tiers → Prop} {F : Tiers → Prop} {p : CompactIO α}
    (hB : Stable Tiers.Beside F) (hC : Stable Tiers.Change F) (hF : F s)
    (h : Compacts duck Q p s) :
    p.Keeps (CompactCall.machine duck) Tiers.Beside Tiers.Change (fun a s ↦ Q a s ∧ F s)
      (fun _ ↦ F) s :=
  Keeps.mono (Keeps.frame hB hC hF h) (fun _ _ hs ↦ hs) fun _ _ hs ↦ hs.2

theorem Compacts.ask (c : CompactCall) {Q : c.Ret → Tiers → Prop} {I : Tiers → Prop}
    (hI : Stable Tiers.Beside I) (h : I s) (hQ : ∀ a, Stable Tiers.Beside (Q a))
    (happly : ∀ s, I s → s.Change (c.apply duck s).2 ∧
      ∀ a, (c.apply duck s).1 = .ok a → Q a (c.apply duck s).2)
    (hcut : ∀ s n, I s → s.Change (c.cut duck s n)) :
    Compacts duck Q (Archive.ask c) s := by
  refine Keeps.perform hI h hQ (fun _ ↦ stable_true) (fun s hs ↦ ⟨(happly s hs).1, ?_⟩) ?_ ?_
  · rcases ha : (c.apply duck s).1 with e | a
    · rw [show ((CompactCall.machine duck).apply c s).1 = .error e from ha]
      trivial
    · rw [show ((CompactCall.machine duck).apply c s).1 = .ok a from ha]
      exact (happly s hs).2 a ha
  · rintro s _ _ hs ⟨⟨e, rfl⟩, n, rfl⟩
    exact ⟨hcut s n hs, trivial⟩
  · rintro s _ hs ⟨n, rfl⟩
    exact hcut s n hs

theorem Compacts.look (c : CompactCall) {Q : c.Ret → Tiers → Prop} {I : Tiers → Prop}
    (hI : Stable Tiers.Beside I) (h : I s) (hQ : ∀ a, Stable Tiers.Beside (Q a))
    (hsame : ∀ s, (c.apply duck s).2 = s) (hcut : ∀ s n, c.cut duck s n = s)
    (happly : ∀ s, I s → ∀ a, (c.apply duck s).1 = .ok a → Q a s) :
    Compacts duck Q (Archive.ask c) s := by
  refine Compacts.ask c hI h hQ (fun s hs ↦ ⟨.stay ?_ ?_, fun a ha ↦ ?_⟩) fun s n _ ↦ .stay ?_ ?_
  · rw [hsame]
  · rw [hsame]
  · rw [hsame]
    exact happly s hs a ha
  · rw [hcut]
  · rw [hcut]

theorem Compacts.keep (c : CompactCall) {I : Tiers → Prop} (hI : Stable Tiers.Beside I) (h : I s)
    (hsame : ∀ s, (c.apply duck s).2 = s) (hcut : ∀ s n, c.cut duck s n = s) :
    Compacts duck (fun _ ↦ I) (Archive.ask c) s :=
  Compacts.look c hI h (fun _ ↦ hI) hsame hcut fun _ hs _ _ ↦ hs

theorem countLines_same (p : Path) (s : Tiers) :
    ((CompactCall.countLines p).apply duck s).2 = s := rfl

theorem countRows_same (day : DayKey) (s : Tiers) :
    ((CompactCall.countRows day).apply duck s).2 = s := by
  rw [CompactCall.apply]
  split <;> rfl

theorem mtime_same (day : DayKey) (s : Tiers) :
    ((CompactCall.mtime day).apply duck s).2 = s := by
  rw [CompactCall.apply]
  split <;> rfl

/-! ## The gates -/

/-- The compactor's clock has been reached. -/
def Tiers.After (now : ℤ) (s : Tiers) : Prop := now ≤ s.site.time

theorem Tiers.stable_after (now : ℤ) : Stable Tiers.Beside (Tiers.After now) :=
  fun _ _ h hs ↦ le_trans hs h.time

/-- Looking for plain files: a day without one is closed, if it is old. -/
theorem compacts_hasPlain {now : ℤ} {day : DayKey} (hold : oldEnough day now) (h : s.After now) :
    Compacts duck (fun b s ↦ s.After now ∧ (b = false → s.Closed day)) (hasPlainNdjson day) s := by
  have hstable (b : Bool) :
      Stable Tiers.Beside fun s ↦ s.After now ∧ (b = false → s.Closed day) := fun s s' hs hb ↦
    ⟨Tiers.stable_after now s s' hs hb.1, fun hf ↦ hs.closed_kept (hb.2 hf)⟩
  refine Keeps.tryCatch (F := fun _ ↦ Tiers.After now) Tiers.Beside.rely ?_ fun e s' hs' ↦ ?_
  · have hlook : Compacts duck (fun b s ↦ b = false → s.Closed day) (ask (.hasPlain day)) s := by
      refine Compacts.look _ (Tiers.stable_after now) h
        (fun b s s' hs hb hf ↦ hs.closed_kept (hb hf)) (fun _ ↦ rfl) (fun _ _ ↦ rfl) ?_
      rintro s hs b hb rfl
      have hnone : (s.site.disk.keys.any fun p ↦ p.ext = .ndjson ∧ dayOf p.hour = day) = false :=
        Except.ok.inj hb
      refine ⟨?_, fun k hk ↦ ?_⟩
      · have hle : minAge ≤ now - dayStart day := hold
        have hnow : now ≤ s.site.time := hs
        omega
      · rw [Site.hours, Option.map_eq_none_iff, AList.lookup_eq_none]
        intro hmem
        have hfalse := List.any_eq_false.mp hnone ⟨k, .ndjson⟩ hmem
        simp [hk] at hfalse
    have hframe := hlook.frame (Tiers.stable_after now) (fun s s' hs (ha : s.After now) ↦ by
      rw [Tiers.After, hs.time]
      exact ha) h
    exact Keeps.mono hframe (fun _ _ hs ↦ hs.symm) fun _ _ hs ↦ hs
  · cases e with
    | os call => exact Compacts.done (hstable true) ⟨hs', nofun⟩
    | duckdb call => exact Compacts.raise
    | verification day => exact Compacts.raise

theorem Tiers.Change.after {now : ℤ} {s s' : Tiers} (h : s.Change s') (hs : s.After now) :
    s'.After now := by
  rw [Tiers.After, h.time]
  exact hs

/-- **The gates let closed days through only.** -/
theorem compacts_eligibleAmong {now : ℤ} (days : List DayKey) (h : s.After now) :
    Compacts duck (fun ds s ↦ ∀ day ∈ ds, s.Closed day) (eligibleAmong now days) s := by
  have hstable (ds : List DayKey) : Stable Tiers.Beside fun s ↦ ∀ day ∈ ds, s.Closed day :=
    fun _ _ hs hds day hday ↦ hs.closed_kept (hds day hday)
  induction days generalizing s with
  | nil => exact Compacts.done (hstable []) fun _ hday ↦ absurd hday List.not_mem_nil
  | cons day days ih =>
    rw [eligibleAmong]
    by_cases hold : oldEnough day now
    · rw [if_neg (not_not_intro hold)]
      refine (compacts_hasPlain hold h).bind fun b s₁ h₁ ↦ ?_
      cases b with
      | true => exact ih h₁.1
      | false =>
        have hI : Stable Tiers.Beside fun s ↦ s.After now ∧ s.Closed day := fun s s' hs hi ↦
          ⟨Tiers.stable_after now s s' hs hi.1, hs.closed_kept hi.2⟩
        refine Compacts.bind (Compacts.keep (.outputExists day) hI ⟨h₁.1, h₁.2 rfl⟩ (fun _ ↦ rfl)
          fun _ _ ↦ rfl) fun b s₂ h₂ ↦ ?_
        cases b with
        | true => exact ih h₂.1
        | false =>
          -- the gates of the days that follow leave this day closed
          have hrest := (ih h₂.1).frame (Tiers.stable_closed day)
            (fun _ _ hs hday ↦ hs.closed hday) h₂.2
          have hrest' : Compacts duck (fun ds s ↦ (∀ d ∈ ds, s.Closed d) ∧ s.Closed day)
              (eligibleAmong now days) s₂ := Keeps.mono hrest (fun _ _ hs ↦ hs) fun _ _ _ ↦ trivial
          refine hrest'.bind fun ds s₃ h₃ ↦ Compacts.done (hstable (day :: ds)) ?_
          exact List.forall_mem_cons.mpr ⟨h₃.2, h₃.1⟩
    · rw [if_pos hold]
      exact ih h

theorem compacts_eligibleDays {now : ℤ} (h : s.After now) :
    Compacts duck (fun ds s ↦ ∀ day ∈ ds, s.Closed day) (eligibleDays now) s := by
  have hlist : Compacts duck (fun _ ↦ Tiers.After now)
      (orOnOSError (ask .dayDirectories) []) s := by
    refine Keeps.tryCatch (F := fun _ ↦ Tiers.After now) Tiers.Beside.rely ?_ fun e s' hs' ↦ ?_
    · have hask : Compacts duck (fun _ _ ↦ True) (ask .dayDirectories) s :=
        Compacts.keep _ stable_true trivial (fun _ ↦ rfl) fun _ _ ↦ rfl
      exact Keeps.mono (hask.frame (Tiers.stable_after now) (fun _ _ hs ha ↦ hs.after ha) h)
        (fun _ _ hs ↦ hs.2) fun _ _ hs ↦ hs
    · cases e with
      | os call => exact Compacts.done (Tiers.stable_after now) hs'
      | duckdb call => exact Compacts.raise
      | verification day => exact Compacts.raise
  refine hlist.bind fun days s₁ h₁ ↦ (compacts_eligibleAmong days h₁).bind fun ds s₂ h₂ ↦ ?_
  refine Compacts.done ?_ fun day hday ↦ h₂ day ((List.mem_insertionSort _).mp hday)
  exact fun _ _ hs hds day hday ↦ hs.closed_kept (hds day hday)

/-! ## Folding a day -/

/-- DuckDB reads every complete line that is not empty, and `COPY` writes one row for each line it
reads. -/
structure DuckDB.OneRowPerLine (duck : DuckDB) : Prop where
  select : ∀ b, ∀ line ∈ lines newline b, line ≠ [] → line ∈ duck.select b
  copy : ∀ ls, duck.copy ls = ls

/-- The lines of the compressed file of the hour are in the temporary directory. -/
def Tiers.Folded (k : HourKey) (s : Tiers) : Prop :=
  ∀ f, s.site.hours.gz k = some f → ∀ line ∈ lines newline f.bytes, line ≠ [] →
    ∃ e ∈ s.store.staging, line ∈ e.2

/-- The day is closed, and of its hours only those in `paths` are still to be folded. -/
def Tiers.Folding (day : DayKey) (paths : List Path) (s : Tiers) : Prop :=
  s.Closed day ∧ ∀ k, dayOf k = day → s.Folded k ∨ (⟨k, .gz⟩ : Path) ∈ paths

theorem Tiers.stable_folding (day : DayKey) (paths : List Path) :
    Stable Tiers.Beside (Tiers.Folding day paths) := by
  rintro s s' h ⟨hday, hfold⟩
  refine ⟨h.closed_kept hday, fun k hk ↦ (hfold k hk).imp_left fun hfolded f hf ↦ ?_⟩
  rw [h.store]
  exact hfolded f ((h.closed day hday k hk).2.symm.trans hf)

theorem Tiers.Folding.copyHour (hduck : duck.OneRowPerLine) {day : DayKey} {path : Path}
    {paths : List Path} (h : s.Folding day (path :: paths)) {ls : List Bytes}
    (hls : CompactCall.selectFrom duck s.site.disk path = .ok ls) :
    Tiers.Folding day paths { s with store := { s.store with
      staging := s.store.staging ++ [(path.hour, duck.copy ls)] } } := by
  refine ⟨h.1, fun k hk ↦ ?_⟩
  have hgrow (hfolded : s.Folded k) : Tiers.Folded k { s with store := { s.store with
      staging := s.store.staging ++ [(path.hour, duck.copy ls)] } } := by
    intro f hf line hline hne
    obtain ⟨e, he, hmem⟩ := hfolded f hf line hline hne
    exact ⟨e, List.mem_append_left _ he, hmem⟩
  rcases h.2 k hk with hfolded | hmem
  · exact Or.inl (hgrow hfolded)
  · rcases List.mem_cons.mp hmem with rfl | hmem
    · refine Or.inl fun f hf line hline hne ↦ ⟨_, List.mem_append_right _ List.mem_cons_self, ?_⟩
      have hlook : s.site.disk.lookup ⟨k, .gz⟩ = some f := hf
      rw [CompactCall.selectFrom, hlook] at hls
      by_cases hcomplete : f.complete
      · simp only [hcomplete, if_true, Except.ok.injEq] at hls
        rw [← hls, hduck.copy]
        exact hduck.select f.bytes line hline hne
      · simp [hcomplete] at hls
    · exact Or.inr hmem

theorem compacts_foldHour (hduck : duck.OneRowPerLine) {day : DayKey} {path : Path}
    {paths : List Path} (h : s.Folding day (path :: paths)) :
    Compacts duck (fun _ ↦ Tiers.Folding day paths) (foldHour path) s := by
  refine Compacts.bind (Compacts.keep (.countLines path) (Tiers.stable_folding day _) h
    (fun _ ↦ rfl) fun _ _ ↦ rfl) fun n s₁ h₁ ↦ ?_
  have hcopy : Compacts duck (fun _ ↦ Tiers.Folding day paths) (ask (.copyHour path)) s₁ := by
    refine Compacts.ask _ (Tiers.stable_folding day _) h₁ (fun _ ↦ Tiers.stable_folding day _)
      (fun s hs ↦ ?_) fun s n _ ↦ ?_
    · rw [CompactCall.apply]
      rcases hls : CompactCall.selectFrom duck s.site.disk path with e | ls
      · exact ⟨.stay rfl rfl, nofun⟩
      · exact ⟨.stay rfl rfl, fun _ _ ↦ hs.copyHour hduck hls⟩
    · rw [CompactCall.cut]
      split <;> exact .stay rfl rfl
  exact hcopy.bind fun _ s₂ h₂ ↦ Compacts.done (Tiers.stable_folding day _) h₂

theorem compacts_foldHours (hduck : duck.OneRowPerLine) {day : DayKey} (paths : List Path)
    (h : s.Folding day paths) :
    Compacts duck (fun _ ↦ Tiers.Folding day []) (foldHours paths) s := by
  induction paths generalizing s with
  | nil => exact Compacts.done (Tiers.stable_folding day []) h
  | cons path paths ih =>
    refine (compacts_foldHour hduck h).bind fun n s₁ h₁ ↦ (ih h₁).bind fun m s₂ h₂ ↦ ?_
    exact Compacts.done (Tiers.stable_folding day []) h₂

theorem mem_gzPaths {d : Disk} {day : DayKey} {p : Path} :
    p ∈ CompactCall.gzPaths d day ↔ (d.lookup p).isSome ∧ p.ext = .gz ∧ dayOf p.hour = day := by
  rw [CompactCall.gzPaths, List.mem_insertionSort, List.mem_filter, decide_eq_true_iff,
    AList.lookup_isSome, AList.mem_keys]

/-- **Compacting a closed day** publishes all its lines or nothing. -/
theorem compacts_compactDay (hduck : duck.OneRowPerLine) {day : DayKey} (h : s.Closed day) :
    Compacts duck (fun _ _ ↦ True) (compactDay day) s := by
  -- what is not listed is not there, and nothing is added to a closed day
  let listed (paths : List Path) (s : Tiers) : Prop :=
    s.Closed day ∧ ∀ k, dayOf k = day → s.site.hours.gz k ≠ none → (⟨k, .gz⟩ : Path) ∈ paths
  have hlisted (paths : List Path) : Stable Tiers.Beside (listed paths) := by
    rintro s s' hs ⟨hday, hall⟩
    refine ⟨hs.closed_kept hday, fun k hk hgz ↦ hall k hk ?_⟩
    rwa [← (hs.closed day hday k hk).2]
  have hglob : Compacts duck listed (ask (.globGz day)) s := by
    refine Compacts.look _ (Tiers.stable_closed day) h hlisted (fun _ ↦ rfl) (fun _ _ ↦ rfl) ?_
    rintro s hs paths hpaths
    refine ⟨hs, fun k hk hgz ↦ ?_⟩
    rw [← Except.ok.inj hpaths, mem_gzPaths]
    exact ⟨Option.isSome_iff_ne_none.mpr hgz, rfl, hk⟩
  refine hglob.bind fun paths s₁ h₁ ↦ ?_
  by_cases hnil : paths = []
  · rw [if_pos hnil]
    exact Compacts.finish
  · rw [if_neg hnil]
    have hmkdtemp : Compacts duck (fun _ ↦ Tiers.Folding day paths) (ask .mkdtemp) s₁ := by
      refine Compacts.ask _ (hlisted paths) h₁ (fun _ ↦ Tiers.stable_folding day paths)
        (fun s hs ↦ ⟨.stay rfl rfl, fun _ _ ↦ ⟨hs.1, fun k hk ↦ ?_⟩⟩) fun _ _ _ ↦ .stay rfl rfl
      by_cases hgz : s.site.hours.gz k = none
      · exact Or.inl fun f hf ↦ absurd (hgz.symm.trans hf) (Option.some_ne_none f).symm
      · exact Or.inr (hs.2 k hk hgz)
    refine hmkdtemp.bind fun _ s₂ h₂ ↦ ?_
    -- what is published is what was folded, and every listed hour was folded by then
    have hreplace (s : Tiers) (h : s.Folding day []) :
        Compacts duck (fun _ _ ↦ True) (ask (.replace day)) s := by
      refine Compacts.ask _ (Tiers.stable_folding day []) h (fun _ ↦ stable_true) (fun s hs ↦ ?_)
        fun _ _ _ ↦ .stay rfl rfl
      rw [CompactCall.apply]
      split
      · exact ⟨.stay rfl rfl, fun _ _ ↦ trivial⟩
      · next hnew =>
        refine ⟨.publish day ⟨s.store.staging, s.store.mtimes day⟩ hs.1
          (Option.not_isSome_iff_eq_none.mp hnew) (fun k hk f hf line hline hne ↦ ?_) rfl rfl,
          fun _ _ ↦ trivial⟩
        have hfolded := (hs.2 k hk).resolve_right List.not_mem_nil
        exact List.mem_flatMap.mpr (hfolded f hf line hline hne)
    have hbody : Compacts duck (fun _ _ ↦ True)
        (Program.tryCatch
          (do
            let n ← foldHours paths
            ask (.replace day)
            Program.done n)
          fun e ↦ do
            ask .rmtree
            Program.raise e) s₂ := by
      refine Compacts.tryCatch ?_ fun e s' ↦ ?_
      · refine (compacts_foldHours hduck paths h₂).bind fun n s₃ h₃ ↦ ?_
        exact (hreplace s₃ h₃).bind fun _ _ _ ↦ Compacts.finish
      · refine Compacts.bind (Q := fun _ _ ↦ True) (Compacts.ask _ stable_true trivial
          (fun _ ↦ stable_true) (fun _ _ ↦ ⟨.stay rfl rfl, fun _ _ ↦ trivial⟩)
          fun _ _ _ ↦ .stay rfl rfl) fun _ _ _ ↦ Compacts.raise
    refine hbody.bind fun n s₃ _ ↦ ?_
    refine Compacts.bind (Compacts.keep (.countRows day) stable_true trivial (countRows_same day)
      fun _ _ ↦ rfl) fun _ _ _ ↦ Compacts.finish

/-! ## Removing the raw files of a day -/

/-- The partition of the day is published. -/
def Tiers.Published (day : DayKey) (s : Tiers) : Prop := (s.store.parquet.lookup day).isSome

theorem Tiers.stable_published (day : DayKey) : Stable Tiers.Beside (Tiers.Published day) := by
  intro s s' h hs
  rw [Tiers.Published, h.store]
  exact hs

theorem compacts_countAll (paths : List Path) :
    Compacts duck (fun _ _ ↦ True) (countAll paths) s := by
  induction paths generalizing s with
  | nil => exact Compacts.finish
  | cons path paths ih =>
    refine Compacts.bind (Compacts.keep (.countLines path) stable_true trivial (fun _ ↦ rfl)
      fun _ _ ↦ rfl) fun n s₁ _ ↦ ?_
    exact ih.bind fun m s₂ _ ↦ Compacts.finish

theorem compacts_orOnDuckError {p : CompactIO ℕ} (h : Compacts duck (fun _ _ ↦ True) p s) :
    Compacts duck (fun _ _ ↦ True) (orOnDuckError p) s := by
  refine Compacts.tryCatch (h.bind fun _ _ _ ↦ Compacts.finish) fun e s' ↦ ?_
  cases e with
  | os call => exact Compacts.raise
  | duckdb call => exact Compacts.finish
  | verification day => exact Compacts.raise

theorem compacts_verifyCounts (day : DayKey) :
    Compacts duck (fun _ _ ↦ True) (verifyCounts day) s := by
  have hsource : Compacts duck (fun _ _ ↦ True) (countSourceLines day) s :=
    Compacts.bind (Compacts.keep (.globGz day) stable_true trivial (fun _ ↦ rfl) fun _ _ ↦ rfl)
      fun paths _ _ ↦ compacts_countAll paths
  refine (compacts_orOnDuckError hsource).bind fun r s₁ _ ↦ ?_
  rcases r with _ | sourceLines
  · exact Compacts.finish
  · have hrows : Compacts duck (fun _ _ ↦ True) (ask (.countRows day)) s₁ :=
      Compacts.keep _ stable_true trivial (countRows_same day) fun _ _ ↦ rfl
    refine (compacts_orOnDuckError hrows).bind fun r s₂ _ ↦ ?_
    rcases r with _ | parquetRows <;> exact Compacts.finish

theorem compacts_unlink {day : DayKey} {path : Path}
    (hpath : path.ext = .gz ∧ dayOf path.hour = day) (h : s.Published day) :
    Compacts duck (fun _ ↦ Tiers.Published day) (ask (.unlink path)) s := by
  obtain ⟨k, e⟩ := path
  obtain ⟨rfl, hk⟩ : e = .gz ∧ dayOf k = day := hpath
  refine Compacts.ask _ (Tiers.stable_published day) h (fun _ ↦ Tiers.stable_published day)
    (fun s hs ↦ ?_) fun _ _ _ ↦ .stay rfl rfl
  rw [CompactCall.apply]
  split
  · exact ⟨.unlink k (hk ▸ hs) rfl rfl, fun _ _ ↦ hs⟩
  · exact ⟨.stay rfl rfl, fun _ _ ↦ hs⟩

/-- **Deletion removes files of published days only.** -/
theorem compacts_deleteRawDay (day : DayKey) (keepRawDays now : ℤ) :
    Compacts duck (fun _ _ ↦ True) (deleteRawDay day keepRawDays now) s := by
  have hglob : Compacts duck (fun paths _ ↦ ∀ p ∈ paths, p.ext = .gz ∧ dayOf p.hour = day)
      (ask (.globGz day)) s := by
    refine Compacts.look _ stable_true trivial (fun _ _ _ _ h ↦ h) (fun _ ↦ rfl) (fun _ _ ↦ rfl) ?_
    intro s _ paths hpaths p hp
    rw [← Except.ok.inj hpaths, mem_gzPaths] at hp
    exact hp.2
  refine hglob.bind fun paths s₁ hpaths ↦ ?_
  by_cases hnil : paths = []
  · rw [if_pos hnil]
    exact Compacts.finish
  rw [if_neg hnil]
  have hexists : Compacts duck (fun b s ↦ b = true → s.Published day)
      (ask (.outputExists day)) s₁ := by
    refine Compacts.look _ stable_true trivial
      (fun b s s' h hb ht ↦ Tiers.stable_published day s s' h (hb ht)) (fun _ ↦ rfl)
      (fun _ _ ↦ rfl) ?_
    rintro s - b hb rfl
    exact Except.ok.inj hb
  refine hexists.bind fun b s₂ h₂ ↦ ?_
  cases b with
  | false => exact Compacts.finish
  | true =>
    rw [if_neg (by simp)]
    refine Compacts.bind (Compacts.keep (.mtime day) (Tiers.stable_published day) (h₂ rfl)
      (mtime_same day) fun _ _ ↦ rfl) fun outputMtime s₃ h₃ ↦ ?_
    by_cases hgrace : graceElapsed outputMtime keepRawDays now
    · rw [if_neg (not_not_intro hgrace)]
      have hverify : Compacts duck (fun _ ↦ Tiers.Published day) (verifyCounts day) s₃ :=
        Keeps.mono ((compacts_verifyCounts day).frame (Tiers.stable_published day)
          (fun _ _ hs hp ↦ hs.parquet hp) h₃) (fun _ _ hs ↦ hs.2) fun _ _ _ ↦ trivial
      refine hverify.bind fun verified s₄ h₄ ↦ ?_
      cases verified with
      | false => exact Compacts.raise
      | true =>
        rw [if_neg (by simp)]
        -- the day stays published while its files are removed, one after the other
        let left (xs : List Path) (s : Tiers) : Prop :=
          (∀ p ∈ xs, p.ext = .gz ∧ dayOf p.hour = day) ∧ s.Published day
        have hloop : Compacts duck (fun _ ↦ left [])
            (forEach (fun path ↦ ask (.unlink path)) paths) s₄ := by
          refine Keeps.forEach Tiers.Beside.rely (fun s s' hs hl ↦
            ⟨hl.1, Tiers.stable_published day s s' hs hl.2⟩) ⟨hpaths, h₄⟩ fun path xs s hs ↦ ?_
          obtain ⟨hpath, hxs⟩ := List.forall_mem_cons.mp hs.1
          exact (compacts_unlink hpath hs.2).mono fun _ _ hp ↦ ⟨hxs, hp⟩
        exact hloop.bind fun _ _ _ ↦ Compacts.finish
    · rw [if_pos hgrace]
      exact Compacts.finish

/-! ## A pass -/

/-- Every day has its turn, whether or not the days before it failed. -/
theorem compacts_countFailures {f : DayKey → CompactIO Unit} {F : DayKey → Tiers → Prop}
    (hB : ∀ day, Stable Tiers.Beside (F day)) (hC : ∀ day, Stable Tiers.Change (F day))
    (hf : ∀ day s, F day s → Compacts duck (fun _ _ ↦ True) (f day) s) (days : List DayKey)
    (h : ∀ day ∈ days, F day s) : Compacts duck (fun _ _ ↦ True) (countFailures f days) s := by
  induction days generalizing s with
  | nil => exact Compacts.finish
  | cons day days ih =>
    obtain ⟨hday, hdays⟩ := List.forall_mem_cons.mp h
    let rest (s : Tiers) : Prop := ∀ d ∈ days, F d s
    have hrestB : Stable Tiers.Beside rest := fun s s' hs hr d hd ↦ hB d s s' hs (hr d hd)
    have hrestC : Stable Tiers.Change rest := fun s s' hs hr d hd ↦ hC d s s' hs (hr d hd)
    have hfirst : Compacts duck (fun _ ↦ rest)
        (((f day).bind fun _ ↦ Program.done 0).tryCatch fun _ ↦ Program.done 1) s := by
      have hrun : Compacts duck (fun _ _ ↦ True) ((f day).bind fun _ ↦ Program.done 0) s :=
        (hf day s hday).bind fun _ _ _ ↦ Compacts.finish
      refine Keeps.tryCatch Tiers.Beside.rely (Keeps.mono (hrun.frame hrestB hrestC hdays)
        (fun _ _ hs ↦ hs.2) fun _ _ hs ↦ hs) fun e s' hs' ↦ ?_
      exact Compacts.done hrestB hs'
    refine hfirst.bind fun n s₁ h₁ ↦ (ih h₁).bind fun m s₂ _ ↦ Compacts.finish

/-- **A pass of the compactor**, at any time that the writer's clock has reached. -/
theorem compacts_runOnce (hduck : duck.OneRowPerLine) (keepRawDays : ℤ) {now : ℤ}
    (h : s.After now) : Compacts duck (fun _ _ ↦ True) (runOnce keepRawDays now) s := by
  refine (compacts_eligibleDays h).bind fun days s₁ h₁ ↦ ?_
  have hcompact : Compacts duck (fun _ _ ↦ True)
      (countFailures (fun day ↦ (compactDay day).bind fun _ ↦ Program.done ()) days) s₁ := by
    refine compacts_countFailures Tiers.stable_closed (fun day _ _ hs hday ↦ hs.closed hday)
      (fun day s hday ↦ ?_) days h₁
    exact (compacts_compactDay hduck hday).bind fun _ _ _ ↦ Compacts.finish
  refine hcompact.bind fun n s₂ _ ↦ ?_
  refine Compacts.bind (Compacts.keep .compactedDays stable_true trivial (fun _ ↦ rfl)
    fun _ _ ↦ rfl) fun compacted s₃ _ ↦ ?_
  have hdelete : Compacts duck (fun _ _ ↦ True)
      (countFailures (fun day ↦ (deleteRawDay day keepRawDays now).bind fun _ ↦ Program.done ())
        compacted) s₃ := by
    refine compacts_countFailures (F := fun _ _ ↦ True) (fun _ ↦ stable_true) (fun _ ↦ stable_true)
      (fun day s _ ↦ ?_) compacted fun _ _ ↦ trivial
    exact (compacts_deleteRawDay day keepRawDays now).bind fun _ _ _ ↦ Compacts.finish
  exact hdelete.bind fun m s₄ _ ↦ Compacts.finish

end Compacts

end GtfsStream.Archive
