import GtfsStream.Archive.PartialDeletion
import GtfsStream.Archive.TwoTiers
import Mathlib.Data.List.Dedup

/-!
# The days that a pass takes up

What a pass of the compactor gets done when its calls go through: no call fails, and none is cut.
The writer works on all the while, so again only closed days can be relied on.

`eligible_days` looks at one directory after the other. A day that was closed and not published
when the pass began is still so when its turn comes, and a day that it lets through has something
to compact.
-/

namespace GtfsStream.Archive

open Program

/-- The machine of the compactor on which every call goes through. -/
def CompactCall.smooth (duck : DuckDB) :
    Machine CompactCall CompactCall.Ret CompactError Tiers where
  apply := CompactCall.apply duck
  fault _ _ _ _ := False
  crash _ _ _ := False

namespace Tiers

/-- What may happen between two such calls: the writer leaves closed days alone and the tiers sound,
and no directory goes away. -/
structure Writes (s s' : Tiers) : Prop extends s.Beside s' where
  sound : s.Sound → s'.Sound
  opened : s.site.opened ⊆ s'.site.opened

theorem Writes.rely : Rely Writes where
  refl s := ⟨Beside.rely.refl s, id, List.Subset.refl _⟩
  trans _ _ _ h h' :=
    ⟨Beside.rely.trans _ _ _ h.toBeside h'.toBeside, h'.sound ∘ h.sound,
      List.Subset.trans h.opened h'.opened⟩

/-- The day has a directory. -/
def HasDirectory (day : DayKey) (s : Tiers) : Prop := ∃ k ∈ s.site.opened, dayOf k = day

theorem stable_hasDirectory (day : DayKey) : Stable Writes (HasDirectory day) := by
  rintro s s' h ⟨k, hk, hday⟩
  exact ⟨k, h.opened hk, hday⟩

/-- The day is closed and waits for its compaction. -/
structure Waiting (day : DayKey) (s : Tiers) : Prop where
  closed : s.Closed day
  unpublished : s.store.parquet.lookup day = none

theorem stable_waiting (day : DayKey) : Stable Writes (Waiting day) := by
  intro s s' h hs
  refine ⟨h.closed_kept hs.closed, ?_⟩
  rw [h.store]
  exact hs.unpublished

/-- The day can be compacted: it waits, and it has raw files, all of them complete. -/
structure Ready (day : DayKey) (s : Tiers) : Prop extends s.Waiting day where
  raw : ∃ k, dayOf k = day ∧ s.site.hours.gz k ≠ none
  complete : ∀ k, dayOf k = day → ∀ f, s.site.hours.gz k = some f → f.complete = true

theorem stable_ready (day : DayKey) : Stable Writes (Ready day) := by
  intro s s' h hs
  have hgz (k : HourKey) (hk : dayOf k = day) : s'.site.hours.gz k = s.site.hours.gz k :=
    (h.closed day hs.closed k hk).2
  refine ⟨stable_waiting day s s' h hs.toWaiting, ?_, fun k hk f hf ↦ ?_⟩
  · obtain ⟨k, hk, hne⟩ := hs.raw
    exact ⟨k, hk, by rwa [hgz k hk]⟩
  · exact hs.complete k hk f (by rwa [← hgz k hk])

/-- In sound tiers a waiting day with a directory can be compacted: its hours have all been
compressed. -/
theorem Sound.ready {s : Tiers} {day : DayKey} (h : s.Sound) (hday : s.Waiting day)
    (hdir : s.HasDirectory day) : s.Ready day := by
  obtain ⟨k, hk, hkday⟩ := hdir
  refine ⟨hday, ⟨k, hkday, ?_⟩, fun j _ f hf ↦ (h.hours.gz j f hf).1⟩
  have hgone : ¬s.Gone k := by
    rw [Gone, Published, hkday, hday.unpublished]
    exact Bool.false_ne_true
  have hplain := not_not_intro (hday.closed.2 k hkday)
  exact ((h.hours.opened k hk).resolve_left hplain).resolve_right hgone

end Tiers

/-! ## Calls that go through -/

/-- Started in `s` while the writer works on, every call of the program does `G`, and the program
ends with a value and `Q`, or with an error and `E`. -/
abbrev Passes (duck : DuckDB) {α : Type} (G : Tiers → Tiers → Prop) (Q : α → Tiers → Prop)
    (E : CompactError → Tiers → Prop) (p : CompactIO α) (s : Tiers) : Prop :=
  p.Keeps (CompactCall.smooth duck) Tiers.Writes G Q E s

variable {duck : DuckDB} {α β : Type} {s : Tiers} {G : Tiers → Tiers → Prop}
  {E : CompactError → Tiers → Prop}

theorem Passes.ask (c : CompactCall) {Q : c.Ret → Tiers → Prop} {I : Tiers → Prop}
    (hI : Stable Tiers.Writes I) (h : I s) (hQ : ∀ a, Stable Tiers.Writes (Q a))
    (happly : ∀ s, I s → ∃ a s', c.apply duck s = (.ok a, s') ∧ G s s' ∧ Q a s') :
    Passes duck G Q E (Archive.ask c) s :=
  Keeps.perform_ok hI h hQ (fun _ _ _ hf ↦ hf) (fun _ _ hc ↦ hc) happly

theorem Passes.bind {Q : α → Tiers → Prop} {T : β → Tiers → Prop} {p : CompactIO α}
    {f : α → CompactIO β} (h : Passes duck G Q E p s)
    (hf : ∀ a s', Q a s' → Passes duck G T E (f a) s') : Passes duck G T E (p.bind f) s :=
  Keeps.bind Tiers.Writes.rely h hf

theorem Passes.tryCatch {Q : α → Tiers → Prop} {F : CompactError → Tiers → Prop}
    {p : CompactIO α} {k : CompactError → CompactIO α} (h : Passes duck G Q F p s)
    (hk : ∀ e s', F e s' → Passes duck G Q E (k e) s') : Passes duck G Q E (p.tryCatch k) s :=
  Keeps.tryCatch Tiers.Writes.rely h hk

theorem Passes.orOnOSError {Q : α → Tiers → Prop} {p : CompactIO α} {a : α}
    (h : Passes duck G Q (fun _ _ ↦ False) p s) : Passes duck G Q E (Archive.orOnOSError p a) s :=
  Passes.tryCatch h fun _ _ hf ↦ hf.elim

/-! ## The gates -/

/-- What the gates rely on: the tiers are sound, the listed days have directories, and the days `D`
are waiting. -/
structure Tiers.Gated (days : List DayKey) (D : Set DayKey) (s : Tiers) : Prop where
  sound : s.Sound
  directory : ∀ day ∈ days, s.HasDirectory day
  waiting : ∀ day ∈ D, s.Waiting day

theorem Tiers.stable_gated (days : List DayKey) (D : Set DayKey) :
    Stable Tiers.Writes (Tiers.Gated days D) := fun s s' h hs ↦
  ⟨h.sound hs.sound, fun day hday ↦ stable_hasDirectory day s s' h (hs.directory day hday),
    fun day hday ↦ stable_waiting day s s' h (hs.waiting day hday)⟩

theorem Tiers.Gated.tail {day : DayKey} {days : List DayKey} {D : Set DayKey}
    (h : s.Gated (day :: days) D) : s.Gated days D :=
  ⟨h.sound, fun d hd ↦ h.directory d (List.mem_cons_of_mem day hd), h.waiting⟩

theorem passes_hasPlain {now : ℤ} {day : DayKey} {days : List DayKey} {D : Set DayKey}
    (hold : oldEnough day now) (h : s.Gated (day :: days) D ∧ s.After now) :
    Passes duck Eq (fun b s ↦ (s.Gated (day :: days) D ∧ s.After now) ∧
      (b = false → s.Closed day) ∧ (b = true → day ∉ D)) E (hasPlainNdjson day) s := by
  have hI : Stable Tiers.Writes fun s ↦ s.Gated (day :: days) D ∧ s.After now := fun s s' hs hi ↦
    ⟨Tiers.stable_gated _ D s s' hs hi.1, Tiers.stable_after now s s' hs.toBeside hi.2⟩
  refine Passes.orOnOSError (Passes.ask _ hI h (fun b s s' hs hb ↦
    ⟨hI s s' hs hb.1, fun hf ↦ hs.closed_kept (hb.2.1 hf), hb.2.2⟩) fun s hs ↦ ?_)
  refine ⟨_, s, rfl, rfl, hs, fun hnone ↦ ⟨?_, fun k hk ↦ ?_⟩, fun hsome hD ↦ ?_⟩
  · have hle : minAge ≤ now - dayStart day := hold
    have hnow : now ≤ s.site.time := hs.2
    omega
  · rw [Site.hours, Option.map_eq_none_iff, AList.lookup_eq_none]
    intro hmem
    have hfalse := List.any_eq_false.mp hnone ⟨k, .ndjson⟩ hmem
    simp [hk] at hfalse
  · obtain ⟨p, hp, hplain⟩ := List.any_eq_true.mp hsome
    obtain ⟨hext, hday⟩ := of_decide_eq_true hplain
    obtain ⟨k, e⟩ := p
    obtain rfl : e = .ndjson := hext
    have hnone := (hs.1.waiting day hD).closed.2 k hday
    rw [Site.hours, Option.map_eq_none_iff, AList.lookup_eq_none] at hnone
    exact hnone hp

theorem stable_eq {P : Tiers → Prop} : Stable Eq P := by
  rintro s _ rfl hs
  exact hs

/-- **The gates let through** days that can be compacted, and every day of `D` that is listed. -/
theorem passes_eligibleAmong {now : ℤ} {D : Set DayKey} (hD : ∀ day ∈ D, oldEnough day now)
    (days : List DayKey) (h : s.Gated days D ∧ s.After now) :
    Passes duck Eq (fun ds s ↦ ds.Sublist days ∧ (∀ day ∈ ds, s.Ready day) ∧
      ∀ day ∈ days, day ∈ D → day ∈ ds) (fun _ _ ↦ False) (eligibleAmong now days) s := by
  have hQ (days ds : List DayKey) : Stable Tiers.Writes fun s ↦ ds.Sublist days ∧
      (∀ day ∈ ds, s.Ready day) ∧ ∀ day ∈ days, day ∈ D → day ∈ ds := fun s s' hs hds ↦
    ⟨hds.1, fun day hday ↦ Tiers.stable_ready day s s' hs (hds.2.1 day hday), hds.2.2⟩
  -- a day that is not let through is not in `D`
  have hskip {day : DayKey} {days ds : List DayKey} {s : Tiers} (hday : day ∉ D)
      (hds : ds.Sublist days ∧ (∀ day ∈ ds, s.Ready day) ∧ ∀ day ∈ days, day ∈ D → day ∈ ds) :
      ds.Sublist (day :: days) ∧ (∀ day ∈ ds, s.Ready day) ∧
        ∀ d ∈ day :: days, d ∈ D → d ∈ ds :=
    ⟨hds.1.cons day, hds.2.1, List.forall_mem_cons.mpr ⟨fun hmem ↦ absurd hmem hday, hds.2.2⟩⟩
  induction days generalizing s with
  | nil =>
    refine Keeps.done (hQ [] []) ⟨List.Sublist.refl [], ?_, ?_⟩
    · exact fun _ hday ↦ absurd hday List.not_mem_nil
    · exact fun _ hday ↦ absurd hday List.not_mem_nil
  | cons day days ih =>
    rw [eligibleAmong]
    by_cases hold : oldEnough day now
    · rw [if_neg (not_not_intro hold)]
      refine (passes_hasPlain hold h).bind fun b s₁ h₁ ↦ ?_
      obtain ⟨hgated, hclosed, hnotMem⟩ := h₁
      cases b with
      | true =>
        exact Keeps.mono (ih ⟨hgated.1.tail, hgated.2⟩) (fun _ _ hds ↦ hskip (hnotMem rfl) hds)
          fun _ _ he ↦ he
      | false =>
        let I (s : Tiers) : Prop := (s.Gated (day :: days) D ∧ s.After now) ∧ s.Closed day
        have hI : Stable Tiers.Writes I := fun s s' hs hi ↦
          ⟨⟨Tiers.stable_gated _ D s s' hs hi.1.1, Tiers.stable_after now s s' hs.toBeside hi.1.2⟩,
            hs.closed_kept hi.2⟩
        have houtput : Passes duck Eq (fun b s ↦ I s ∧ ((s.store.parquet.lookup day).isSome = b))
            (fun _ _ ↦ False) (ask (.outputExists day)) s₁ := by
          refine Passes.ask _ hI ⟨hgated, hclosed rfl⟩ (fun b s s' hs hb ↦ ⟨hI s s' hs hb.1, ?_⟩)
            fun s hs ↦ ⟨_, s, rfl, rfl, hs, rfl⟩
          rw [hs.store]
          exact hb.2
        refine houtput.bind fun b s₂ h₂ ↦ ?_
        obtain ⟨⟨hgated, hclosed⟩, hexists⟩ := h₂
        cases b with
        | true =>
          refine Keeps.mono (ih ⟨hgated.1.tail, hgated.2⟩) (fun _ _ hds ↦ hskip ?_ hds)
            fun _ _ he ↦ he
          intro hmem
          rw [(hgated.1.waiting day hmem).unpublished] at hexists
          exact Bool.false_ne_true hexists
        | false =>
          have hready : s₂.Ready day := hgated.1.sound.ready
            ⟨hclosed, Option.not_isSome_iff_eq_none.mp (by rw [hexists]; exact Bool.false_ne_true)⟩
            (hgated.1.directory day List.mem_cons_self)
          -- the gates of the days that follow leave this day ready
          have hrest := Keeps.frame (Tiers.stable_ready day) stable_eq hready
            (ih ⟨hgated.1.tail, hgated.2⟩)
          refine Passes.bind (Keeps.mono hrest (fun _ _ hs ↦ hs) fun _ _ hs ↦ hs.1)
            fun ds s₃ h₃ ↦ Keeps.done (hQ (day :: days) (day :: ds)) ?_
          obtain ⟨⟨hsub, hall, hmem⟩, hday⟩ := h₃
          refine ⟨hsub.cons_cons day, List.forall_mem_cons.mpr ⟨hday, hall⟩, ?_⟩
          refine List.forall_mem_cons.mpr ⟨fun _ ↦ List.mem_cons_self, fun d hd hdD ↦ ?_⟩
          exact List.mem_cons_of_mem day (hmem d hd hdD)
    · rw [if_pos hold]
      exact Keeps.mono (ih ⟨h.1.tail, h.2⟩)
        (fun _ _ hds ↦ hskip (fun hmem ↦ hold (hD day hmem)) hds) fun _ _ he ↦ he

/-- **A pass takes up** every old day with a directory that was waiting when it began, and only days
that can be compacted, each of them once. -/
theorem passes_eligibleDays (duck : DuckDB) {now : ℤ} {D : Set DayKey}
    (hD : ∀ day ∈ D, oldEnough day now) (hdir : ∀ day ∈ D, s.HasDirectory day)
    (h : s.Gated [] D ∧ s.After now) :
    Passes duck Eq (fun ds s ↦ ds.Nodup ∧ (∀ day ∈ ds, s.Ready day) ∧ ∀ day ∈ D, day ∈ ds)
      (fun _ _ ↦ False) (eligibleDays now) s := by
  let I (s : Tiers) : Prop := (s.Gated [] D ∧ s.After now) ∧ ∀ day ∈ D, s.HasDirectory day
  have hI : Stable Tiers.Writes I := fun s s' hs hi ↦
    ⟨⟨Tiers.stable_gated [] D s s' hs hi.1.1, Tiers.stable_after now s s' hs.toBeside hi.1.2⟩,
      fun day hday ↦ Tiers.stable_hasDirectory day s s' hs (hi.2 day hday)⟩
  have hlist : Passes duck Eq (fun days s ↦ (s.Gated days D ∧ s.After now) ∧ days.Nodup ∧
      ∀ day ∈ D, day ∈ days) (fun _ _ ↦ False) (orOnOSError (ask .dayDirectories) []) s := by
    refine Passes.orOnOSError (Passes.ask _ hI ⟨h, hdir⟩ (fun days s s' hs hi ↦
      ⟨⟨Tiers.stable_gated days D s s' hs hi.1.1, Tiers.stable_after now s s' hs.toBeside hi.1.2⟩,
        hi.2⟩) ?_)
    rintro s ⟨⟨hgated, hafter⟩, hdir⟩
    refine ⟨_, s, rfl, rfl, ⟨⟨hgated.sound, fun day hday ↦ ?_, hgated.waiting⟩, hafter⟩,
      List.nodup_dedup _, fun day hday ↦ ?_⟩
    · exact List.mem_map.mp (List.mem_dedup.mp hday)
    · exact List.mem_dedup.mpr (List.mem_map.mpr (hdir day hday))
  refine hlist.bind fun days s₁ h₁ ↦ (passes_eligibleAmong hD days h₁.1).bind fun ds s₂ h₂ ↦ ?_
  obtain ⟨-, hnodup, hlisted⟩ := h₁
  obtain ⟨hsub, hready, hmem⟩ := h₂
  have hperm := List.perm_insertionSort (· ≤ ·) ds
  refine Keeps.done (fun s s' hs hds ↦ ⟨hds.1, fun day hday ↦
    Tiers.stable_ready day s s' hs (hds.2.1 day hday), hds.2.2⟩) ⟨?_, fun day hday ↦ ?_, ?_⟩
  · exact hperm.nodup_iff.mpr (hnodup.sublist hsub)
  · exact hready day (hperm.mem_iff.mp hday)
  · exact fun day hday ↦ hperm.mem_iff.mpr (hmem day (hlisted day hday) hday)

end GtfsStream.Archive
