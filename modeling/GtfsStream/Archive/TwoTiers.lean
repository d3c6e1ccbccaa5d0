import GtfsStream.Archive.CompactorSpec
import GtfsStream.Archive.CrashSafety

/-!
# No line is lost between the tiers

The writer and the compactor at work on one archive directory, each at any moment, and each with
crashes at any moment. A line that has reached an hour file is at every moment in the plain file of
its hour, in the compressed one, or in a row of the published partition of its day.

Two things are assumed of the clocks. The compactor's does not run ahead of the writer's. And the
writer appends to the current hour: it opens the hour of the clock reading it has just taken, so a
new hour file appears while its day is less than two days old. A writer that stood still for a whole
day between the two could open an hour of a day that is compacted meanwhile.
-/

namespace GtfsStream.Archive

open Program

/-- The two processes, with what each has still to do. -/
structure TwoTiers where
  tiers : Tiers
  writer : ArchiveIO Unit
  compactor : CompactIO ℕ

/-- A new hour file is of a day less than two days old, as that of the current hour is. -/
def Site.Timely (s s' : Site) : Prop :=
  ∀ k, s.hours.plain k = none → s'.hours.plain k ≠ none → s.time < dayStart (dayOf k) + minAge

/-- The last pass has come to its end, or was cut. -/
def Finished (p : CompactIO ℕ) : Prop := (∃ n, p = done n) ∨ ∃ e, p = raise e

/-- One step of either process. -/
inductive TwoTiers.Step (duck : DuckDB) : TwoTiers → TwoTiers → Prop
  | writer {s s' : Site} {st : Store} {p p' : ArchiveIO Unit} {q : CompactIO ℕ}
      (hstep : Process.Step ⟨s, p⟩ ⟨s', p'⟩) (htimely : s.Timely s') :
    TwoTiers.Step duck ⟨⟨s, st⟩, p, q⟩ ⟨⟨s', st⟩, p', q⟩
  | compactor (t : Tiers) (p : ArchiveIO Unit) (c : CompactCall)
      (k : Except CompactError c.Ret → CompactIO ℕ) :
    TwoTiers.Step duck ⟨t, p, .call c k⟩ ⟨(c.apply duck t).2, p, k (c.apply duck t).1⟩
  | fault (t : Tiers) (p : ArchiveIO Unit) (c : CompactCall)
      (k : Except CompactError c.Ret → CompactIO ℕ) (e : CompactError) (n : ℕ) :
    TwoTiers.Step duck ⟨t, p, .call c k⟩ ⟨c.cut duck t n, p, k (.error e)⟩
  | crash (t : Tiers) (p : ArchiveIO Unit) (c : CompactCall)
      (k : Except CompactError c.Ret → CompactIO ℕ) (n : ℕ) :
    TwoTiers.Step duck ⟨t, p, .call c k⟩ ⟨c.cut duck t n, p, done 0⟩
  | pass (t : Tiers) (p : ArchiveIO Unit) (q : CompactIO ℕ) (hq : Finished q)
      (keepRawDays now : ℤ) (hnow : now ≤ t.site.time) :
    TwoTiers.Step duck ⟨t, p, q⟩ ⟨t, p, runOnce keepRawDays now⟩

abbrev TwoTiers.Runs (duck : DuckDB) : TwoTiers → TwoTiers → Prop :=
  Relation.ReflTransGen (TwoTiers.Step duck)

/-- An empty archive. -/
def TwoTiers.fresh (t : ℤ) (aw : ArchiveWriter) (mtimes : DayKey → ℤ) : TwoTiers :=
  ⟨⟨(Process.fresh t aw).site, { mtimes := mtimes }⟩, newArchiveWriter, done 0⟩

/-! ## The invariant -/

/-- The hours of the day were let go. -/
def Tiers.Gone (s : Tiers) (k : HourKey) : Prop := s.Published (dayOf k)

/-- What holds of the two tiers at every moment. -/
structure Tiers.Sound (s : Tiers) : Prop where
  hours : s.site.hours.Sound s.Gone
  /-- A published day is closed, and its partition has every line that has reached its hours. -/
  parquet : ∀ day part, s.store.parquet.lookup day = some part → s.Closed day ∧
    ∀ k, dayOf k = day → ∀ line ∈ lines newline (s.site.reached k), line ≠ [] → line ∈ part.rows

structure TwoTiers.Good (duck : DuckDB) (S : TwoTiers) : Prop where
  tiers : S.tiers.Sound
  writer : Safe (fun _ ↦ Site.Tidy) S.writer S.tiers.site
  compactor : Compacts duck (fun _ _ ↦ True) S.compactor S.tiers

namespace Tiers

variable {s s' : Tiers} {day : DayKey} {k : HourKey}

theorem Sound.closed (h : s.Sound) (hday : s.Published day) : s.Closed day := by
  obtain ⟨part, hpart⟩ := Option.isSome_iff_exists.mp hday
  exact (h.parquet day part hpart).1

theorem Sound.plain_of_gone (h : s.Sound) (hk : s.Gone k) : s.site.hours.plain k = none :=
  (h.closed hk).2 k rfl

/-! ### The writer's part -/

theorem beside_of_moves {site : Site} (hm : s.site.Moves site) (htimely : s.site.Timely site) :
    s.Beside ⟨site, s.store⟩ := by
  refine ⟨rfl, hm.time.ge, fun day hday k hk ↦
    ⟨?_, Hours.Move.gz_of_plain_eq_none hm (hday.2 k hk)⟩⟩
  by_contra hne
  have hlt := htimely k (hday.2 k hk) hne
  rw [hk] at hlt
  exact absurd hday.1 (not_le.mpr hlt)

theorem beside_tick {t : ℤ} (ht : s.site.time ≤ t) : s.Beside ⟨s.site.tick t, s.store⟩ :=
  ⟨rfl, ht, fun _ hday k hk ↦ ⟨hday.2 k hk, rfl⟩⟩

theorem Sound.moves (h : s.Sound) {site : Site} (hm : s.site.Moves site)
    (htimely : s.site.Timely site) : Sound ⟨site, s.store⟩ := by
  have hbeside := beside_of_moves hm htimely
  refine ⟨Hours.Move.sound hm h.hours fun k hk ↦ ?_, fun day part hpart ↦ ?_⟩
  · exact (hbeside.closed _ (h.closed hk) k rfl).1
  · obtain ⟨hday, hrows⟩ := h.parquet day part hpart
    refine ⟨hbeside.closed_kept hday, fun k hk line hline hne ↦ hrows k hk line ?_ hne⟩
    -- nothing reaches an hour of a published day any more
    have hreached : site.reached k = s.site.reached k :=
      Hours.Move.reached_of_plain_eq_none hm (hday.2 k hk)
    rwa [← hreached]

theorem Sound.tick (h : s.Sound) {t : ℤ} (ht : s.site.time ≤ t) :
    Sound ⟨s.site.tick t, s.store⟩ :=
  ⟨h.hours.tick ht, fun day part hpart ↦
    ⟨(beside_tick ht).closed_kept (h.parquet day part hpart).1, (h.parquet day part hpart).2⟩⟩

/-! ### The compactor's part -/

/-- To the writer the compactor is another process that removes compressed files of hours without a
plain file. -/
theorem Change.apart (h : s.Change s') (hs : s.Sound) : s.site.Apart s'.site := by
  refine ⟨?_, fun p hp ↦ h.files hp, fun j ↦ ?_, h.time.ge⟩
  · cases h with
    | stay hsite hparquet => rw [hsite]
    | publish day part hclosed hnew hrows hsite hparquet => rw [hsite]
    | unlink k hout hsite hparquet => rw [hsite]
  · cases h with
    | stay hsite hparquet => exact Or.inl (by rw [hsite])
    | publish day part hclosed hnew hrows hsite hparquet => exact Or.inl (by rw [hsite])
    | unlink k hout hsite hparquet =>
      rw [hsite, Site.hours_gz, Site.hours_gz]
      by_cases hj : j = k
      · rw [hj]
        exact Or.inr ⟨hs.plain_of_gone hout, AList.lookup_erase _ _⟩
      · exact Or.inl (AList.lookup_erase_ne (by simpa using hj))

theorem Sound.publish (hs : s.Sound) {part : Partition} (hclosed : s.Closed day)
    (hnew : s.store.parquet.lookup day = none)
    (hrows : ∀ k, dayOf k = day → ∀ f, s.site.hours.gz k = some f →
      ∀ line ∈ lines newline f.bytes, line ≠ [] → line ∈ part.rows)
    (hsite : s'.site = s.site) (hparquet : s'.store.parquet = s.store.parquet.insert day part) :
    s'.Sound := by
  have hgone (k : HourKey) (hk : s.Gone k) : s'.Gone k :=
    (Change.publish day part hclosed hnew hrows hsite hparquet).parquet hk
  refine ⟨?_, fun d p hp ↦ ?_⟩
  · rw [hsite]
    exact hs.hours.mono hgone
  · rw [hparquet] at hp
    rw [Closed, hsite]
    by_cases hd : d = day
    · subst hd
      obtain rfl : part = p := Option.some.inj ((AList.lookup_insert _).symm.trans hp)
      refine ⟨hclosed, fun k hk line hline hne ↦ ?_⟩
      by_cases hmem : k ∈ s.site.hours.opened
      · -- an opened hour of a closed day that was not let go is compressed
        have hnot : ¬s.Gone k := by
          rw [Gone, Published, hk, hnew]
          simp
        have hgz := ((hs.hours.opened k hmem).resolve_left
          (not_not_intro (hclosed.2 k hk))).resolve_right hnot
        obtain ⟨f, hf⟩ := Option.ne_none_iff_exists'.mp hgz
        refine hrows k hk f hf line ?_ hne
        rw [(hs.hours.gz k f hf).2]
        exact hline
      · have hnil : s.site.reached k = [] := (hs.hours.unopened k hmem).2.2
        rw [hnil] at hline
        exact absurd hline List.not_mem_nil
    · rw [AList.lookup_insert_ne hd] at hp
      exact hs.parquet d p hp

theorem Sound.unlink (hs : s.Sound) (hout : (s.store.parquet.lookup (dayOf k)).isSome)
    (hsite : s'.site = { s.site with disk := s.site.disk.erase ⟨k, .gz⟩ })
    (hparquet : s'.store.parquet = s.store.parquet) : s'.Sound := by
  have hchange : s.Change s' := .unlink k hout hsite hparquet
  have hgz (j : HourKey) : s'.site.hours.gz j = if j = k then none else s.site.hours.gz j := by
    rw [hsite, Site.hours_gz, Site.hours_gz]
    by_cases hj : j = k
    · rw [if_pos hj, hj]
      exact AList.lookup_erase _ _
    · rw [if_neg hj]
      exact AList.lookup_erase_ne (by simpa using hj)
  have hgz_ne {j : HourKey} (hj : s'.site.hours.gz j ≠ none) : s.site.hours.gz j ≠ none :=
    (hchange.apart hs).gz_of_ne_none hj
  have hgone : s'.Gone = s.Gone := by
    funext j
    rw [Gone, Gone, Published, Published, hparquet]
  -- nothing else moves: a file that is gone is accounted for by the published day
  have hopened : s'.site.hours.opened = s.site.hours.opened := by rw [hsite]; rfl
  have hreached : s'.site.reached = s.site.reached := by rw [hsite]
  refine ⟨?_, fun d p hp ↦ ?_⟩
  · refine ⟨fun j f hf ↦ ?_, fun j b hb ↦ ?_, fun j hj ↦ ?_, fun j hj ↦ ?_, fun j hj ↦ ?_,
      fun j hj ↦ ?_⟩
    · have hsome : s.site.hours.gz j = some f := by
        rw [hgz] at hf
        by_cases hjk : j = k
        · simp [hjk] at hf
        · rwa [if_neg hjk] at hf
      have := hs.hours.gz j f hsome
      rwa [show s'.site.hours.reached = s.site.hours.reached from hreached]
    · rw [hchange.plain] at hb
      rw [show s'.site.hours.reached = s.site.hours.reached from hreached]
      exact hs.hours.plain j b hb
    · rw [hopened] at hj
      rw [hchange.plain, hgz, hgone]
      by_cases hjk : j = k
      · exact Or.inr (Or.inr (hjk ▸ hout))
      · rw [if_neg hjk]
        exact hs.hours.opened j hj
    · rw [hopened] at hj
      rw [hchange.plain, hgz, show s'.site.hours.reached = s.site.hours.reached from hreached]
      obtain ⟨hplain, hnone, hnil⟩ := hs.hours.unopened j hj
      refine ⟨hplain, ?_, hnil⟩
      rw [hnone, ite_self]
    · rw [show s'.site.hours.time = s.site.hours.time from hchange.time]
      exact hs.hours.past j (hgz_ne hj)
    · rw [show s'.site.hours.time = s.site.hours.time from hchange.time]
      rw [hchange.plain] at hj
      exact hs.hours.known j hj
  · rw [hparquet] at hp
    obtain ⟨hday, hrows⟩ := hs.parquet d p hp
    refine ⟨hchange.closed hday, ?_⟩
    rw [hreached]
    exact hrows

/-- **Every change of the compactor keeps the tiers sound.** -/
theorem Change.sound (h : s.Change s') (hs : s.Sound) : s'.Sound := by
  cases h with
  | stay hsite hparquet =>
    have hgone : s'.Gone = s.Gone := by
      funext j
      rw [Gone, Gone, Published, Published, hparquet]
    refine ⟨?_, ?_⟩
    · rw [hsite, hgone]
      exact hs.hours
    · simp only [Closed, hsite, hparquet]
      exact hs.parquet
  | publish day part hclosed hnew hrows hsite hparquet =>
    exact hs.publish hclosed hnew hrows hsite hparquet
  | unlink k hout hsite hparquet => exact hs.unlink hout hsite hparquet

end Tiers

/-! ## The run -/

variable {duck : DuckDB} {S S' : TwoTiers}

theorem TwoTiers.good_fresh (t : ℤ) (aw : ArchiveWriter) (mtimes : DayKey → ℤ) :
    (TwoTiers.fresh t aw mtimes).Good duck := by
  have hsound := Process.good_fresh t aw
  refine ⟨⟨hsound.sound.mono fun _ hf ↦ hf.elim, fun day part hpart ↦ ?_⟩, hsound.todo,
    Compacts.finish⟩
  exact absurd hpart (by simp [TwoTiers.fresh])

/-- **Every step keeps both processes good.** -/
theorem TwoTiers.Step.good (hduck : duck.OneRowPerLine) (hstep : TwoTiers.Step duck S S')
    (h : S.Good duck) : S'.Good duck := by
  cases hstep with
  | @writer s s' st p p' q hstep htimely =>
    have hwriter : Safe (fun _ ↦ Site.Tidy) p s := h.writer
    obtain ⟨hsound, hbeside⟩ : Tiers.Sound ⟨s', st⟩ ∧ Tiers.Beside ⟨s, st⟩ ⟨s', st⟩ := by
      rcases hstep.moves hwriter with hm | ⟨t, ht, heq⟩
      · exact ⟨h.tiers.moves hm htimely, Tiers.beside_of_moves hm htimely⟩
      · obtain rfl : s' = s.tick t := heq
        exact ⟨h.tiers.tick ht, Tiers.beside_tick ht⟩
    exact ⟨hsound, hstep.safe hwriter hsound.hours.settled,
      h.compactor.rely Tiers.Beside.rely hbeside⟩
  | compactor t p c k =>
    obtain ⟨hchange, hnext⟩ := h.compactor.step Tiers.Beside.rely
    exact ⟨hchange.sound h.tiers, h.writer.rely (hchange.apart h.tiers), hnext⟩
  | fault t p c k e n =>
    obtain ⟨hchange, hnext⟩ := h.compactor.fault Tiers.Beside.rely ⟨⟨e, rfl⟩, n, rfl⟩
    exact ⟨hchange.sound h.tiers, h.writer.rely (hchange.apart h.tiers), hnext⟩
  | crash t p c k n =>
    have hchange := h.compactor.crash Tiers.Beside.rely ⟨n, rfl⟩
    exact ⟨hchange.sound h.tiers, h.writer.rely (hchange.apart h.tiers), Compacts.finish⟩
  | pass t p q hq keepRawDays now hnow =>
    exact ⟨h.tiers, h.writer, compacts_runOnce hduck keepRawDays hnow⟩

theorem TwoTiers.Runs.good (hduck : duck.OneRowPerLine) (hruns : TwoTiers.Runs duck S S')
    (h : S.Good duck) : S'.Good duck := by
  induction hruns with
  | refl => exact h
  | tail _ hstep ih => exact hstep.good hduck ih

/-- The line is in the plain file of the hour, in its compressed one, or in a row of the published
partition of its day. -/
def Tiers.Holds (s : Tiers) (k : HourKey) (line : Bytes) : Prop :=
  (∃ f, s.site.disk.lookup ⟨k, .ndjson⟩ = some f ∧ line ∈ lines newline f.bytes) ∨
    (∃ f, s.site.disk.lookup ⟨k, .gz⟩ = some f ∧ f.complete = true ∧
      line ∈ lines newline f.bytes) ∨
    ∃ part, s.store.parquet.lookup (dayOf k) = some part ∧ line ∈ part.rows

theorem Tiers.Sound.holds {s : Tiers} (h : s.Sound) {k : HourKey} {line : Bytes}
    (hline : line ∈ lines newline (s.site.reached k)) (hne : line ≠ []) : s.Holds k line := by
  have hmem : k ∈ s.site.hours.opened := by
    by_contra hnot
    have hnil : s.site.reached k = [] := (h.hours.unopened k hnot).2.2
    rw [hnil] at hline
    exact absurd hline List.not_mem_nil
  rcases h.hours.opened k hmem with hplain | hgz | hgone
  · obtain ⟨b, hb⟩ := Option.ne_none_iff_exists'.mp hplain
    obtain ⟨f, hf, hbytes⟩ := Option.map_eq_some_iff.mp hb
    refine Or.inl ⟨f, hf, ?_⟩
    rw [hbytes, h.hours.plain k b hb]
    exact hline
  · obtain ⟨f, hf⟩ := Option.ne_none_iff_exists'.mp hgz
    obtain ⟨hcomplete, hbytes⟩ := h.hours.gz k f hf
    refine Or.inr (Or.inl ⟨f, hf, hcomplete, ?_⟩)
    rw [hbytes]
    exact hline
  · obtain ⟨part, hpart⟩ := Option.isSome_iff_exists.mp hgone
    exact Or.inr (Or.inr ⟨part, hpart, (h.parquet _ part hpart).2 k rfl line hline hne⟩)

/-- **No line is lost between the tiers.** However the two processes interleave and crash, as long
as the writer is `Timely`, a complete line that has reached an hour file, and is not empty, is in
one of the tiers. -/
theorem noLineLost (hduck : duck.OneRowPerLine) {t : ℤ} {aw : ArchiveWriter} {mtimes : DayKey → ℤ}
    (h : TwoTiers.Runs duck (TwoTiers.fresh t aw mtimes) S) (k : HourKey) (line : Bytes)
    (hline : line ∈ lines newline (S.tiers.site.reached k)) (hne : line ≠ []) :
    S.tiers.Holds k line :=
  (TwoTiers.Runs.good hduck h (TwoTiers.good_fresh t aw mtimes)).tiers.holds hline hne

/-! ## A day from its first line to its partition -/

theorem Site.timely_of_opens {s : Site} {c : Syscall} (hm : s.Moves (s.apply c).2)
    (h : ∀ k ∈ c.opens, s.time < dayStart (dayOf k) + minAge) : s.Timely (s.apply c).2 := by
  intro k hk hne
  have hopened : c.opens ++ s.opened = [k] ++ s.opened :=
    Hours.Move.opened_of_plain_ne_none hm hk hne
  exact h k (List.append_cancel_right hopened ▸ List.mem_singleton_self k)

namespace TwoTiers

/-- The next `n` calls of the writer, as long as they are in time. -/
def write : ℕ → TwoTiers → TwoTiers
  | n + 1, ⟨⟨s, st⟩, .call c k, q⟩ =>
    if ∀ k ∈ c.opens, s.time < dayStart (dayOf k) + minAge then
      write n ⟨⟨(s.apply c).2, st⟩, k (s.apply c).1, q⟩
    else ⟨⟨s, st⟩, .call c k, q⟩
  | _, S => S

/-- The next `n` calls of the compactor. -/
def compact (duck : DuckDB) : ℕ → TwoTiers → TwoTiers
  | n + 1, ⟨t, p, .call c k⟩ => compact duck n ⟨(c.apply duck t).2, p, k (c.apply duck t).1⟩
  | _, S => S

theorem runs_compact (n : ℕ) (S : TwoTiers) : Runs duck S (S.compact duck n) := by
  induction n generalizing S with
  | zero => exact Relation.ReflTransGen.refl
  | succ n ih =>
    obtain ⟨t, p, _ | _ | ⟨c, k⟩⟩ := S
    · exact Relation.ReflTransGen.refl
    · exact Relation.ReflTransGen.refl
    · exact Relation.ReflTransGen.head (.compactor t p c k) (ih _)

theorem runs_write (hduck : duck.OneRowPerLine) (n : ℕ) {S : TwoTiers} (h : S.Good duck) :
    Runs duck S (S.write n) := by
  induction n generalizing S with
  | zero => exact Relation.ReflTransGen.refl
  | succ n ih =>
    obtain ⟨⟨s, st⟩, _ | _ | ⟨c, k⟩, q⟩ := S
    · exact Relation.ReflTransGen.refl
    · exact Relation.ReflTransGen.refl
    · rw [write]
      split
      · next htime =>
        have hsafe : Safe (fun _ ↦ Site.Tidy) (.call c k) s := h.writer
        have hstep : Step duck ⟨⟨s, st⟩, .call c k, q⟩ ⟨⟨(s.apply c).2, st⟩, k (s.apply c).1, q⟩ :=
          .writer (.call s c k) (Site.timely_of_opens hsafe.call.1 htime)
        exact Relation.ReflTransGen.head hstep (ih (hstep.good hduck h))
      · exact Relation.ReflTransGen.refl

/-- The writer is asked to write a line at the time `t`. -/
def ask (S : TwoTiers) (t : ℤ) (line : Bytes) : TwoTiers :=
  { S with
    tiers := { S.tiers with site := S.tiers.site.tick t }
    writer := Request.program (.write line) }

theorem runs_ask {S : TwoTiers} {t : ℤ} (ht : S.tiers.site.time ≤ t) (line : Bytes)
    (hidle : Process.Idle ⟨S.tiers.site.tick t, S.writer⟩) : Runs duck S (S.ask t line) := by
  obtain ⟨⟨s, st⟩, p, q⟩ := S
  have htick : Step duck ⟨⟨s, st⟩, p, q⟩ ⟨⟨s.tick t, st⟩, p, q⟩ :=
    .writer (.tick s p t ht) fun _ hk hne ↦ absurd hk hne
  have hask : Step duck ⟨⟨s.tick t, st⟩, p, q⟩
      ⟨⟨s.tick t, st⟩, Request.program (.write line), q⟩ :=
    .writer (.request ⟨s.tick t, p⟩ hidle (.write line)) fun _ hk hne ↦ absurd hk hne
  exact (Relation.ReflTransGen.single htick).tail hask

end TwoTiers

/-- A DuckDB that reads every line, the partial one at the end included, but no empty one. -/
def linesDuck : DuckDB where
  select b := (lines newline b ++ [partialLine newline b]).filter (· ≠ [])
  copy ls := ls

theorem linesDuck_oneRowPerLine : linesDuck.OneRowPerLine where
  select _ _ hline hne :=
    List.mem_filter.mpr ⟨List.mem_append_left _ hline, decide_eq_true hne⟩
  copy _ := rfl

/-- A line on the first day, and a second one three days later. -/
def threeDays : TwoTiers :=
  let started := (TwoTiers.fresh 0 { curKey := 0 } fun _ ↦ 0).write 10
  let first := (started.ask 0 [65]).write 40
  (first.ask (3 * nanosecondsPerDay) [66]).write 60

/-- A pass on the third day, which keeps no raw files. -/
def compactedDay : TwoTiers :=
  ({ threeDays with compactor := runOnce 0 (3 * nanosecondsPerDay) } : TwoTiers).compact linesDuck
    60

theorem runs_compactedDay :
    TwoTiers.Runs linesDuck (TwoTiers.fresh 0 { curKey := 0 } fun _ ↦ 0) compactedDay := by
  have hgood {S : TwoTiers}
      (h : TwoTiers.Runs linesDuck (TwoTiers.fresh 0 { curKey := 0 } fun _ ↦ 0) S) :
      S.Good linesDuck :=
    TwoTiers.Runs.good linesDuck_oneRowPerLine h (TwoTiers.good_fresh _ _ _)
  have hstarted := TwoTiers.runs_write linesDuck_oneRowPerLine 10 (hgood .refl)
  have hfirst := hstarted.trans (TwoTiers.runs_ask (t := 0) (by decide +kernel) [65] (Or.inl rfl))
  have hwritten := hfirst.trans (TwoTiers.runs_write linesDuck_oneRowPerLine 40 (hgood hfirst))
  have hsecond := hwritten.trans
    (TwoTiers.runs_ask (t := 3 * nanosecondsPerDay) (by decide +kernel) [66] (Or.inl rfl))
  have hthree : TwoTiers.Runs linesDuck (TwoTiers.fresh 0 { curKey := 0 } fun _ ↦ 0) threeDays :=
    hsecond.trans (TwoTiers.runs_write linesDuck_oneRowPerLine 60 (hgood hsecond))
  exact (hthree.tail (.pass _ _ _ (Or.inl ⟨0, rfl⟩) 0 (3 * nanosecondsPerDay)
    (by decide +kernel))).trans (TwoTiers.runs_compact 60 _)

/-- The raw file of the first day is gone, and its line is in the partition. -/
theorem noLineLost_compactedDay :
    (compactedDay.tiers.site.hours.plain 0 = none ∧ compactedDay.tiers.site.hours.gz 0 = none) ∧
      compactedDay.tiers.Holds 0 [65] :=
  ⟨⟨by decide +kernel, by decide +kernel⟩,
    noLineLost linesDuck_oneRowPerLine runs_compactedDay 0 [65] (by decide +kernel)
      (by decide +kernel)⟩

end GtfsStream.Archive
