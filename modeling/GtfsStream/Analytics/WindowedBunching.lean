import GtfsStream.Analytics.IncidentRecord
import GtfsStream.Library.History

/-!
# Bunching, window by window

Every window detects the events of its own frame, and the tracker joins them across windows. Against
the detection on the whole stream this goes wrong at the interval that a frame begins in, of which
it has a part only: a pair may be shown close there that was not, and a hole after it may not be
seen to be bridged.

## The record

The documents and the tracker of one pair are read as a record on sets of poll intervals, which is a
library of its own. A frame has the rows of the stream from thirty seconds before the last cut on.
So of the stream it shows every interval but the first one completely, and that one in part. The
invariant is that the record is exact for what was flushed so far; a window keeps it exactly if it
sees of the pair what matters at that first interval, whatever the rest of the frame shows. Once a
document is wrong at a commit the property has failed, so nothing has to be said of what follows.
-/

open GtfsStream.History

namespace GtfsStream.Analytics

/-- The messages of the windows that were persisted. -/
def flushed (log : List Event) : List Ping := (persistedFrames log).flatten

section

variable (frames : Frames) (static : GtfsStaticData) (key : PairKey)

/-- The documents of the pair are the events that the messages so far yield at once. -/
def RecordsStream (log : List Event) : Prop :=
  ∀ t u, (({} : Documents).persistLog log).ends key t = some u ↔
    ∃ e ∈ windowEvents frames static (messages log),
      e.key = key ∧ e.startTime = t ∧ e.endTime = u

/-- After every window that is persisted, the documents of the pair are the events of the stream
so far. -/
def RecordsAtCommits (log : List Event) : Prop :=
  AtEach (fun before e ↦ e = .commit → RecordsStream frames static key before) log

/-- Every window sees of the pair what matters of the intervals before the newest message of the
windows before it. -/
def SeesAtWindows (log : List Event) : Prop :=
  AtEach (fun before e ↦ ∀ f, e.persisted = some f → ∀ m, newest (flushed before) = some m →
    Sees (together frames static (flushed before) key)
      (together frames static (messages before) key)
      (together frames static f key) (slot m)) log

end

/-! ## The cut of the stream -/

/-- The rows of the buffer next to what was flushed: all messages but those too old to be carried
forward. -/
structure Cut (rows : List Ping) (log : List Event) : Prop where
  rows : ∀ p, p ∈ rows ↔ p ∈ messages log ∧ ∀ m, newest (flushed log) = some m →
    ∀ t, p.timestampEastern = some t → m - seconds overlapSeconds ≤ t
  received : ∀ p ∈ flushed log, p ∈ messages log
  later : ∀ m, newest (flushed log) = some m → ∀ p ∈ messages log,
    p ∉ flushed log → ∀ t, p.timestampEastern = some t → m ≤ t

section

variable {rows : List Ping} {log : List Event} {m : Time} {p : Ping}

theorem overlap_le (m : Time) : m - seconds overlapSeconds ≤ m :=
  sub_le_self m (seconds_pos (by decide)).le

theorem Cut.continues (h : Cut rows log) (hm : newest (flushed log) = some m) :
    Continues (flushed log) rows m where
  newest := hm
  kept p hp := ((h.rows p).mp hp).2 m hm
  carried p hp t ht hle := by
    refine (h.rows p).mpr ⟨h.received p hp, fun n hn s hs ↦ ?_⟩
    rwa [← Option.some.inj (hm.symm.trans hn), ← Option.some.inj (ht.symm.trans hs)]
  later p hp hnot t ht := h.later m hm p ((h.rows p).mp hp).1 hnot t ht

theorem messages_handed {result : WindowResult} :
    messages (log ++ [.handed rows result true]) = messages log := by
  rw [messages, List.filterMap_append]
  exact List.append_nil _

theorem flushed_handed {result : WindowResult} :
    flushed (log ++ [.handed rows result true] ++ [.commit]) = flushed log ++ rows := by
  rw [flushed, persistedFrames, List.filterMap_append, List.filterMap_append, List.flatten_append,
    List.flatten_append]
  exact (List.append_nil _).trans (congrArg _ (List.append_nil _))

theorem Cut.mem_iff (h : Cut rows log) :
    p ∈ flushed log ++ rows ↔ p ∈ messages log := by
  rw [List.mem_append]
  constructor
  · rintro (hp | hp)
    · exact h.received p hp
    · exact ((h.rows p).mp hp).1
  · intro hp
    by_cases hflushed : p ∈ flushed log
    · exact Or.inl hflushed
    · refine Or.inr ((h.rows p).mpr ⟨hp, fun m hm t ht ↦ ?_⟩)
      exact (overlap_le m).trans (h.later m hm p hp hflushed t ht)

theorem Cut.newest_rows (h : Cut rows log) (hm : newest (flushed log ++ rows) = some m) :
    newest rows = some m := by
  obtain ⟨⟨p, hp, ht⟩, hmax⟩ := newest_eq_some.mp hm
  refine newest_eq_some.mpr ⟨⟨p, ?_, ht⟩, fun q hq ↦ hmax q (List.mem_append_right _ hq)⟩
  refine (h.rows p).mpr ⟨h.mem_iff.mp hp, fun n hn t ht' ↦ ?_⟩
  obtain ⟨q, hq, hqn⟩ := (newest_eq_some.mp hn).1
  have hnm := hmax q (List.mem_append_left _ hq) n hqn
  rw [← Option.some.inj (ht.symm.trans ht')]
  exact (overlap_le n).trans hnm

theorem cut_empty : Cut [] [] where
  rows _ := iff_of_false List.not_mem_nil fun h ↦ absurd h.1 List.not_mem_nil
  received _ hp := absurd hp List.not_mem_nil
  later _ hm := nomatch hm

/-- An event that changes neither the messages nor what was flushed. -/
theorem Cut.concat {e : Event} (h : Cut rows log) (hmessage : e.message = none)
    (hpersisted : e.persisted = none) : Cut rows (log ++ [e]) := by
  have hmessages : messages (log ++ [e]) = messages log := by
    rw [messages, List.filterMap_append, List.filterMap_cons, hmessage]
    exact List.append_nil _
  have hflushed : flushed (log ++ [e]) = flushed log := by
    rw [flushed, persistedFrames, List.filterMap_append, List.filterMap_cons, hpersisted,
      List.filterMap_nil, List.append_nil]
    rfl
  constructor <;> rw [hmessages, hflushed]
  · exact h.rows
  · exact h.received
  · exact h.later

theorem Cut.receive (h : Cut rows log) (htime : InTime (messages log ++ [p])) :
    Cut (rows ++ [p]) (log ++ [.received (some p)]) := by
  have hmessages : messages (log ++ [.received (some p)]) = messages log ++ [p] := by
    rw [messages, List.filterMap_append]
    rfl
  have hflushed : flushed (log ++ [.received (some p)]) = flushed log := by
    rw [flushed, persistedFrames, List.filterMap_append]
    exact congrArg List.flatten (List.append_nil _)
  have hlatest (m : Time) (hm : newest (flushed log) = some m) (t : Time)
      (ht : p.timestampEastern = some t) : m ≤ t := by
    obtain ⟨q, hq, hqm⟩ := (newest_eq_some.mp hm).1
    exact (List.pairwise_append.mp htime.ordered).2.2 q (h.received q hq) p (by simp) m t hqm ht
  constructor <;> rw [hmessages, hflushed]
  · intro q
    rw [List.mem_append, List.mem_append, List.mem_singleton, h.rows, or_and_right]
    refine or_congr_right (iff_self_and.mpr ?_)
    rintro rfl m hm t ht
    exact (overlap_le m).trans (hlatest m hm t ht)
  · exact fun q hq ↦ List.mem_append_left _ (h.received q hq)
  · intro m hm q hq hnot t ht
    rcases List.mem_append.mp hq with hq | hq
    · exact h.later m hm q hq hnot t ht
    · rw [List.mem_singleton.mp hq] at ht
      exact hlatest m hm t ht

theorem Cut.persist (h : Cut rows log) (hknown : ∀ p ∈ messages log, p.timestampEastern.isSome)
    (hrows : rows ≠ []) (result : WindowResult) :
    Cut (rows.filter (carried rows)) (log ++ [.handed rows result true]) := by
  have hmessages : messages (log ++ [.handed rows result true]) = messages log := by
    rw [messages, List.filterMap_append]
    exact List.append_nil _
  have hflushed : flushed (log ++ [.handed rows result true]) =
      flushed log ++ rows := by
    rw [flushed, persistedFrames, List.filterMap_append, List.flatten_append]
    exact congrArg _ (List.append_nil rows)
  obtain ⟨m, hm⟩ := Option.isSome_iff_exists.mp (newest_isSome
    (List.append_ne_nil_of_right_ne_nil (flushed log) hrows) fun p hp ↦
      hknown p (h.mem_iff.mp hp))
  -- the newest row of the window is the newest of all that was flushed
  have hnewest := h.newest_rows hm
  constructor <;> rw [hmessages, hflushed]
  · intro p
    rw [List.mem_filter, h.rows, and_assoc]
    refine and_congr_right fun hp ↦ ?_
    obtain ⟨t, ht⟩ := Option.isSome_iff_exists.mp (hknown p hp)
    have hcarried : carried rows p = true ↔ m - seconds overlapSeconds ≤ t := by
      rw [carried, hnewest, ht]
      exact decide_eq_true_iff
    rw [hcarried]
    constructor
    · rintro ⟨-, hle⟩ n hn s hs
      rwa [← Option.some.inj (hm.symm.trans hn), ← Option.some.inj (ht.symm.trans hs)]
    · intro hle
      have hle := hle m hm t ht
      refine ⟨fun n hn s hs ↦ ?_, hle⟩
      obtain ⟨q, hq, hqn⟩ := (newest_eq_some.mp hn).1
      have hnm := (newest_eq_some.mp hm).2 q (List.mem_append_left _ hq) n hqn
      rw [← Option.some.inj (ht.symm.trans hs)]
      exact (sub_le_sub_right hnm _).trans hle
  · exact fun p hp ↦ h.mem_iff.mp hp
  · exact fun n _ p hp hnot ↦ absurd (h.mem_iff.mpr hp) hnot

end

/-! ## The record along a run -/

section

variable {frames : Frames} {zone : Zone} {static : GtfsStaticData} {key : PairKey}
  {l l' : Ledger} {log : List Event} {pings : List Ping} {p : Ping} {s : Incidents}
  {ends : Time → Option Time} {tracked : Option BunchingEvent} {m : Time}

theorem exists_windowEvent_iff {t u : Time} :
    (∃ e ∈ windowEvents frames static pings, e.key = key ∧ e.startTime = t ∧ e.endTime = u) ↔
      ∃ a b, Incident (together frames static pings key) (a, b) ∧ t = slotTime a ∧
        u = slotTime b := by
  have hpair : (∃ e ∈ windowEvents frames static pings,
      e.key = key ∧ e.startTime = t ∧ e.endTime = u) ↔
        ∃ e ∈ pairEvents frames static pings key, e.startTime = t ∧ e.endTime = u := by
    simp only [pairEvents, List.mem_filter, decide_eq_true_iff, and_assoc]
  rw [hpair, exists_pairEvent_iff]
  simp only [Incident, and_assoc]

/-- The documents are those of the stream where the record is that of its incidents. -/
theorem Mirrors.recordsStream_iff
    (h : Mirrors ((({} : Documents).persistLog log).ends key) tracked s) :
    RecordsStream frames static key log ↔ ∀ a b, s.recorded a = some b ↔
      Incident (together frames static (messages log) key) (a, b) := by
  rw [RecordsStream]
  simp only [h.recorded, exists_windowEvent_iff]
  constructor
  · intro hrecords a b
    constructor
    · intro hab
      obtain ⟨c, d, hincident, ha, hb⟩ :=
        (hrecords (slotTime a) (slotTime b)).mp ⟨a, b, hab, rfl, rfl⟩
      rwa [slotTime_inj.mp ha, slotTime_inj.mp hb]
    · intro hincident
      obtain ⟨c, d, hcd, ha, hb⟩ :=
        (hrecords (slotTime a) (slotTime b)).mpr ⟨a, b, hincident, rfl, rfl⟩
      rwa [slotTime_inj.mp ha, slotTime_inj.mp hb]
  · intro hrecords t u
    simp only [hrecords]

theorem Mirrors.purge (h : Mirrors ends tracked s) (reference : Option Time) :
    Mirrors ends (tracked.filter fun f ↦ retained reference f.endTime)
      (s.forget fun e ↦ retained reference (slotTime e.2)) := by
  refine ⟨h.recorded, fun f hf ↦ h.onGrid f (Option.filter_eq_some_iff.mp hf).1, ?_⟩
  rw [Incidents.forget, ← h.tracked]
  cases tracked with
  | none => rfl
  | some f =>
    rw [Option.filter_some, Option.map_some, Option.filter_some, (h.onGrid f rfl).ending]
    split_ifs <;> rfl

theorem lt_of_not_retained {i : ℤ} (h : retained (some m) (slotTime i) = false) :
    i < slot m - 2 := by
  have hlt : slotTime i < m - seconds trackerRetentionSeconds := by
    by_contra hnot
    exact Bool.false_ne_true (h.symm.trans (decide_eq_true (not_lt.mp hnot)))
  have hretention : seconds trackerRetentionSeconds = 40 * seconds pollIntervalSeconds := by decide
  have hslot := slot_mono hlt.le
  rw [slot_slotTime, slot, hretention, sub_eq_add_neg, ← neg_mul,
    Int.add_mul_ediv_right _ _ (seconds_pos (by decide)).ne'] at hslot
  change i ≤ slot m + -40 at hslot
  omega

/-- The documents and the tracker of the pair are a record, which is exact as long as it agreed with
the stream at every commit. -/
structure Recorded (frames : Frames) (static : GtfsStaticData) (key : PairKey) (l : Ledger) :
    Prop where
  cut : Cut l.memory.rows l.log
  record : ∃ s, Mirrors ((({} : Documents).persistLog l.log).ends key)
      (l.memory.bunchingTracker key) s ∧
    (RecordsAtCommits frames static key l.log →
      (flushed l.log = [] → s = .empty) ∧
        ∀ m, newest (flushed l.log) = some m →
          s.Exact (together frames static (flushed l.log) key) (slot m))
  agrees : RecordsAtCommits frames static key l.log ↔ SeesAtWindows frames static key l.log

theorem recorded_empty : Recorded frames static key {} where
  cut := cut_empty
  record := by
    refine ⟨.empty, ⟨fun t u ↦ ?_, nofun, rfl⟩, fun _ ↦ ⟨fun _ ↦ rfl, nofun⟩⟩
    exact iff_of_false nofun fun ⟨_, _, hab, _⟩ ↦ nomatch hab
  agrees := iff_of_true atEach_nil atEach_nil

theorem Recorded.concat {e : Event} {rows : List Ping} (h : Recorded frames static key l)
    (hcut : Cut rows (l.log ++ [e])) (hcommit : e ≠ .commit) (hpersisted : e.persisted = none) :
    Recorded frames static key ⟨{ l.memory with rows := rows }, l.log ++ [e]⟩ := by
  have hflushed : flushed (l.log ++ [e]) = flushed l.log := by
    rw [flushed, persistedFrames, List.filterMap_append, List.filterMap_cons, hpersisted,
      List.filterMap_nil, List.append_nil]
    rfl
  have hdocuments : ({} : Documents).persistLog (l.log ++ [e]) =
      ({} : Documents).persistLog l.log := by
    rw [persistLog_concat]
    cases e with
    | handed pings result success =>
      cases success with
      | false => rfl
      | true => exact nomatch hpersisted
    | received => rfl
    | dropped => rfl
    | commit => rfl
  have hrecords : RecordsAtCommits frames static key (l.log ++ [e]) ↔
      RecordsAtCommits frames static key l.log :=
    atEach_concat.trans (and_iff_left fun heq ↦ absurd heq hcommit)
  have hsees : SeesAtWindows frames static key (l.log ++ [e]) ↔
      SeesAtWindows frames static key l.log :=
    atEach_concat.trans (and_iff_left fun f hf ↦ nomatch hpersisted.symm.trans hf)
  refine ⟨hcut, ?_, ?_⟩
  · rw [hdocuments, hflushed, hrecords]
    exact h.record
  · rw [hrecords, hsees]
    exact h.agrees

/-! ### One window -/

theorem persistLog_commit {docs : Documents} :
    docs.persistLog (log ++ [.commit]) = docs.persistLog log :=
  persistLog_concat _

theorem exists_newest (hknown : ∀ p ∈ pings, p.timestampEastern.isSome) (hne : pings ≠ []) :
    ∃ m, newest pings = some m :=
  Option.isSome_iff_exists.mp (newest_isSome hne hknown)

theorem Cut.together_eq {rows : List Ping} (h : Cut rows log)
    (hone : OneSighting frames static (messages log)) :
    together frames static (flushed log ++ rows) key =
      together frames static (messages log) key :=
  together_congr hone fun _ ↦ h.mem_iff

theorem Cut.first_window {rows : List Ping} (h : Cut rows log)
    (hone : OneSighting frames static (messages log)) (hempty : flushed log = []) (a b : ℤ) :
    (Incidents.empty.window
        ((pairEvents frames static rows key).map BunchingEvent.span)).recorded a = some b ↔
      Incident (together frames static (messages log) key) (a, b) := by
  rw [Incidents.window_empty spans_apart (fun e he ↦ (mem_spans_iff.mp he).1), mem_spans_iff,
    ← h.together_eq hone, hempty, List.nil_append]

/-- A later window keeps the record exactly if it sees what matters. -/
theorem Cut.window_iff {rows : List Ping} (h : Cut rows log)
    (hone : OneSighting frames static (messages log)) (hm : newest (flushed log) = some m)
    (hexact : s.Exact (together frames static (flushed log) key) (slot m)) :
    ((∀ a b, (s.window ((pairEvents frames static rows key).map BunchingEvent.span)).recorded a =
          some b ↔ Incident (together frames static (messages log) key) (a, b)) ↔
        Sees (together frames static (flushed log) key) (together frames static (messages log) key)
          (together frames static rows key) (slot m)) ∧
      (s.window ((pairEvents frames static rows key).map BunchingEvent.span)).Tracks
        (slot m - 2) := by
  have hone' : OneSighting frames static (flushed log ++ rows) :=
    hone.mono fun p hp ↦ h.mem_iff.mp hp
  have hoverlap : Overlap (together frames static (flushed log) key)
      (together frames static (flushed log ++ rows) key) (together frames static rows key)
      (slot m) := (h.continues hm).overlap hone'
  rw [h.together_eq hone] at hoverlap
  obtain ⟨lo, hi, hbounds⟩ : ∃ lo hi, ∀ i ∈ together frames static (messages log) key,
      lo ≤ i ∧ i ≤ hi := together_bounded _
  constructor
  · exact hoverlap.window_iff (fun i hi ↦ (hbounds i hi).1) (fun i hi ↦ (hbounds i hi).2) hexact
      spans_apart fun _ ↦ mem_spans_iff
  · refine hexact.tracks.window (fun e he ↦ (mem_spans_iff.mp he).1.le) fun e he ↦ ?_
    have hincident := mem_spans_iff.mp he
    exact hoverlap.ge e.2 (hincident.mem hincident.1.le (le_refl _))

theorem bunchingTracker_handOver (memory : Memory) :
    (memory.handOver frames zone static).2.bunchingTracker key =
      (BunchingEventTracker.reconcileKey (memory.bunchingTracker key)
        (pairEvents frames static memory.rows key)).2.filter fun f ↦
          retained (newest memory.rows) f.endTime := by
  refine Option.ext fun f ↦ ?_
  rw [Memory.handOver, bunchingTracker_eq_some, Option.filter_eq_some_iff]
  rfl

theorem ends_persistWindow (docs : Documents) (memory : Memory) :
    (docs.persistWindow (memory.handOver frames zone static).1).ends key =
      recordEnds (docs.ends key) (BunchingEventTracker.reconcileKey (memory.bunchingTracker key)
        (pairEvents frames static memory.rows key)).1 := by
  have hactions : (memory.handOver frames zone static).1.bunchingActions.filter (·.2.key = key) =
      (BunchingEventTracker.reconcileKey (memory.bunchingTracker key)
        (pairEvents frames static memory.rows key)).1 := filter_bunchingActions key
  rw [← hactions]
  exact ends_writeBunchingActions _

theorem recordsAtCommits_handed {rows : List Ping} {result : WindowResult} :
    RecordsAtCommits frames static key (log ++ [.handed rows result true] ++ [.commit]) ↔
      RecordsAtCommits frames static key log ∧
        RecordsStream frames static key (log ++ [.handed rows result true]) := by
  have hhanded : RecordsAtCommits frames static key (log ++ [.handed rows result true]) ↔
      RecordsAtCommits frames static key log := atEach_concat.trans (and_iff_left nofun)
  exact atEach_concat.trans (and_congr hhanded ⟨fun h ↦ h rfl, fun h _ ↦ h⟩)

theorem seesAtWindows_handed {rows : List Ping} {result : WindowResult} :
    SeesAtWindows frames static key (log ++ [.handed rows result true] ++ [.commit]) ↔
      SeesAtWindows frames static key log ∧ ∀ m, newest (flushed log) = some m →
        Sees (together frames static (flushed log) key) (together frames static (messages log) key)
          (together frames static rows key) (slot m) := by
  have hcommit : SeesAtWindows frames static key
      (log ++ [.handed rows result true] ++ [.commit]) ↔
        SeesAtWindows frames static key (log ++ [.handed rows result true]) :=
    atEach_concat.trans (and_iff_left nofun)
  rw [hcommit]
  refine atEach_concat.trans (and_congr_right fun _ ↦ ⟨fun h ↦ h rows rfl, fun h f hf ↦ ?_⟩)
  rw [← Option.some.inj hf]
  exact h

/-- The window leaves the record right exactly if it sees what matters, and what it tracks is
recent. -/
theorem Cut.window {rows : List Ping} (h : Cut rows log)
    (hknown : ∀ p ∈ messages log, p.timestampEastern.isSome)
    (hone : OneSighting frames static (messages log))
    (hempty : flushed log = [] → s = .empty)
    (hexact : ∀ m, newest (flushed log) = some m →
      s.Exact (together frames static (flushed log) key) (slot m))
    (hlast : newest (flushed log ++ rows) = some m) :
    ((∀ a b, (s.window ((pairEvents frames static rows key).map BunchingEvent.span)).recorded a =
          some b ↔ Incident (together frames static (messages log) key) (a, b)) ↔
        ∀ n, newest (flushed log) = some n → Sees (together frames static (flushed log) key)
          (together frames static (messages log) key) (together frames static rows key) (slot n)) ∧
      ∃ n ≤ slot m - 2,
        (s.window ((pairEvents frames static rows key).map BunchingEvent.span)).Tracks n := by
  -- the first window has seen nothing before
  by_cases hflushed : flushed log = []
  · rw [hempty hflushed]
    refine ⟨iff_of_true (h.first_window hone hflushed) fun n hn ↦ ?_, ?_⟩
    · rw [hflushed] at hn
      exact nomatch hn
    · obtain ⟨lo, hi, hbounds⟩ : ∃ lo hi, ∀ i ∈ together frames static rows key,
          lo ≤ i ∧ i ≤ hi := together_bounded _
      refine ⟨min lo (slot m - 2), min_le_right _ _, (Incidents.tracks_empty _).window
        (fun e he ↦ (mem_spans_iff.mp he).1.le) fun e he ↦ ?_⟩
      have hincident := mem_spans_iff.mp he
      exact (min_le_left _ _).trans (hbounds e.2 (hincident.mem hincident.1.le (le_refl _))).1
  · obtain ⟨n, hn⟩ := exists_newest (fun p hp ↦ hknown p (h.received p hp)) hflushed
    obtain ⟨hiff, htracks⟩ := h.window_iff hone hn (hexact n hn)
    obtain ⟨q, hq, hqn⟩ := (newest_eq_some.mp hn).1
    have hle := slot_mono ((newest_eq_some.mp hlast).2 q (List.mem_append_left _ hq) n hqn)
    refine ⟨hiff.trans ⟨fun hsees k hk ↦ ?_, fun hsees ↦ hsees n hn⟩, slot n - 2, by omega,
      htracks⟩
    rwa [← Option.some.inj (hn.symm.trans hk)]

theorem Recorded.window {memory : Memory} {result : WindowResult}
    (h : Recorded frames static key l) (hknown : ∀ p ∈ messages l.log, p.timestampEastern.isSome)
    (hone : OneSighting frames static (messages l.log)) (hrows : l.memory.rows ≠ [])
    (hcarried : memory.rows = l.memory.rows.filter (carried l.memory.rows))
    (htracker : memory.bunchingTracker key =
      (BunchingEventTracker.reconcileKey (l.memory.bunchingTracker key)
        (pairEvents frames static l.memory.rows key)).2.filter fun f ↦
          retained (newest l.memory.rows) f.endTime)
    (hresult : ∀ docs : Documents, (docs.persistWindow result).ends key =
      recordEnds (docs.ends key) (BunchingEventTracker.reconcileKey (l.memory.bunchingTracker key)
        (pairEvents frames static l.memory.rows key)).1) :
    Recorded frames static key
      ⟨memory, l.log ++ [.handed l.memory.rows result true] ++ [.commit]⟩ := by
  obtain ⟨s, hmirrors, hexact⟩ := h.record
  obtain ⟨last, hlast⟩ := exists_newest
    (fun p hp ↦ hknown p (h.cut.mem_iff.mp hp))
    (List.append_ne_nil_of_right_ne_nil (flushed l.log) hrows)
  have hnewest := h.cut.newest_rows hlast
  have hwindow := fun hagree ↦ h.cut.window hknown hone (hexact hagree).1 (hexact hagree).2 hlast
  have hends : (({} : Documents).persistLog (l.log ++ [.handed l.memory.rows result true])).ends
      key = recordEnds ((({} : Documents).persistLog l.log).ends key)
        (BunchingEventTracker.reconcileKey (l.memory.bunchingTracker key)
          (pairEvents frames static l.memory.rows key)).1 := by
    rw [persistLog_concat]
    exact hresult _
  have hmirrored : Mirrors
      ((({} : Documents).persistLog (l.log ++ [.handed l.memory.rows result true])).ends key)
      (BunchingEventTracker.reconcileKey (l.memory.bunchingTracker key)
        (pairEvents frames static l.memory.rows key)).2
      (s.window ((pairEvents frames static l.memory.rows key).map BunchingEvent.span)) := by
    rw [hends]
    exact hmirrors.window fun e he ↦ (pairEvents_onGrid he).1
  generalize s.window ((pairEvents frames static l.memory.rows key).map BunchingEvent.span) = w
    at hwindow hmirrored
  -- what the documents record is read off the record that mirrors them
  have hstream : RecordsStream frames static key
      (l.log ++ [.handed l.memory.rows result true]) ↔ ∀ a b, w.recorded a = some b ↔
        Incident (together frames static (messages l.log) key) (a, b) := by
    rw [hmirrored.recordsStream_iff, messages_handed]
  constructor
  · dsimp only
    rw [hcarried]
    exact (h.cut.persist hknown hrows _).concat rfl rfl
  · have hpurged := hmirrored.purge (newest l.memory.rows)
    rw [← htracker, ← persistLog_commit] at hpurged
    refine ⟨_, hpurged, fun hagree ↦ ⟨fun hnil ↦ ?_, fun m hm ↦ ?_⟩⟩
    · rw [flushed_handed] at hnil
      exact absurd hnil (List.append_ne_nil_of_right_ne_nil (flushed l.log) hrows)
    · obtain ⟨hbefore, hrecorded⟩ := recordsAtCommits_handed.mp hagree
      obtain ⟨-, n, hn, htracks⟩ := hwindow hbefore
      rw [flushed_handed] at hm ⊢
      rw [h.cut.together_eq hone]
      obtain rfl : last = m := Option.some.inj (hlast.symm.trans hm)
      refine ⟨hstream.mp hrecorded, htracks.forget hn fun e _ hdropped ↦ ?_⟩
      rw [hnewest] at hdropped
      exact lt_of_not_retained hdropped
  · refine recordsAtCommits_handed.trans (Iff.trans ?_ seesAtWindows_handed.symm)
    rw [← h.agrees]
    exact and_congr_right fun hbefore ↦ hstream.trans (hwindow hbefore).1

theorem Recorded.persist (h : Recorded frames static key l)
    (hknown : ∀ p ∈ messages l.log, p.timestampEastern.isSome)
    (hone : OneSighting frames static (messages l.log)) (hrows : l.memory.rows ≠ []) :
    Recorded frames static key (l.close frames zone static .persist) :=
  h.window hknown hone hrows (processWindow_rows _ _ _ _ _) (bunchingTracker_handOver _)
    fun docs ↦ ends_persistWindow docs _

/-! ### Runs -/

/-- What a log promises: all windows are persisted, the messages come in order, and two rows of a
vehicle at one time do not differ. -/
structure Steady (frames : Frames) (static : GtfsStaticData) (log : List Event) : Prop where
  persists : ∀ e ∈ log, e.unpersisted = none
  inTime : InTime (messages log)
  oneSighting : OneSighting frames static (messages log)

theorem Steady.of_append {more : List Event} (h : Steady frames static (log ++ more)) :
    Steady frames static log := by
  obtain ⟨hpersists, htime, hone⟩ := h
  rw [messages, List.filterMap_append] at htime hone
  exact ⟨fun e he ↦ hpersists e (List.mem_append_left more he), htime.of_append,
    hone.mono fun p ↦ List.mem_append_left _⟩

theorem Recorded.advance (h : Recorded frames static key l)
    (hadvance : Advance frames zone {static} l l') (hsteady : Steady frames static l'.log) :
    Recorded frames static key l' := by
  cases hadvance with
  | skip => exact h.concat (h.cut.concat rfl rfl) nofun rfl
  | receive p hoffset =>
    have htime := hsteady.inTime
    rw [messages, List.filterMap_append] at htime
    exact h.concat (h.cut.receive htime) nofun rfl
  | drop => exact nomatch hsteady.persists (.dropped l.memory.rows) (by simp)
  | fail static =>
    exact nomatch hsteady.persists
      (.handed l.memory.rows (l.memory.handOver frames zone static).1 false) (by simp)
  | persist other hstatic hrows =>
    obtain rfl : other = static := hstatic
    have hbefore := hsteady.of_append.of_append
    exact h.persist hbefore.inTime.known hbefore.oneSighting hrows

/-! ### Messages at the beginnings of poll intervals -/

/-- All times are beginnings of poll intervals. -/
def OnGrid (log : List Event) : Prop :=
  ∀ p ∈ messages log, ∀ t, p.timestampEastern = some t → t = slotTime (slot t)

theorem OnGrid.of_append {more : List Event} (h : OnGrid (log ++ more)) : OnGrid log := by
  rw [OnGrid, messages, List.filterMap_append] at h
  exact fun p hp ↦ h p (List.mem_append_left _ hp)

theorem Cut.sees {rows : List Ping} (h : Cut rows log)
    (hone : OneSighting frames static (messages log)) (hgrid : OnGrid log)
    (hm : newest (flushed log) = some m) :
    Sees (together frames static (flushed log) key) (together frames static (messages log) key)
      (together frames static rows key) (slot m) := by
  obtain ⟨p, hp, hpm⟩ := (newest_eq_some.mp hm).1
  have hone' : OneSighting frames static (flushed log ++ rows) :=
    hone.mono fun p hp ↦ h.mem_iff.mp hp
  rw [← h.together_eq hone]
  exact (h.continues hm).sees (hgrid p (h.received p hp) m hpm) hone'

theorem Cut.sees_advance (h : Cut l.memory.rows l.log)
    (hsees : SeesAtWindows frames static key l.log) (hadvance : Advance frames zone {static} l l')
    (hsteady : Steady frames static l'.log) (hgrid : OnGrid l'.log) :
    Cut l'.memory.rows l'.log ∧ SeesAtWindows frames static key l'.log := by
  cases hadvance with
  | skip => exact ⟨h.concat rfl rfl, atEach_concat.mpr ⟨hsees, nofun⟩⟩
  | receive p hoffset =>
    have htime := hsteady.inTime
    rw [messages, List.filterMap_append] at htime
    exact ⟨h.receive htime, atEach_concat.mpr ⟨hsees, nofun⟩⟩
  | drop => exact nomatch hsteady.persists (.dropped l.memory.rows) (by simp)
  | fail static =>
    exact nomatch hsteady.persists
      (.handed l.memory.rows (l.memory.handOver frames zone static).1 false) (by simp)
  | persist other hstatic hrows =>
    obtain rfl : other = static := hstatic
    have hbefore := hsteady.of_append.of_append
    refine ⟨?_, seesAtWindows_handed.mpr
      ⟨hsees, fun m hm ↦ h.sees hbefore.oneSighting hgrid.of_append.of_append hm⟩⟩
    dsimp only
    rw [Memory.handOver, processWindow_rows]
    exact (h.persist hbefore.inTime.known hrows _).concat rfl rfl

/-- Where all messages come at the beginnings of poll intervals, every window sees what matters. -/
theorem seesAtWindows_of_onGrid
    (hadvances : Relation.ReflTransGen (Advance frames zone {static}) {} l)
    (hsteady : Steady frames static l.log) (hgrid : OnGrid l.log) :
    SeesAtWindows frames static key l.log := by
  have hcut : Cut l.memory.rows l.log ∧ SeesAtWindows frames static key l.log :=
    advances_induction (P := fun l ↦ Cut l.memory.rows l.log ∧
        SeesAtWindows frames static key l.log)
      (Q := fun log ↦ Steady frames static log ∧ OnGrid log)
      (fun _ _ h ↦ ⟨h.1.of_append, h.2.of_append⟩) ⟨cut_empty, atEach_nil⟩
      (fun _ _ h hadvance hlog ↦ h.1.sees_advance h.2 hadvance hlog.1 hlog.2) hadvances
      ⟨hsteady, hgrid⟩
  exact hcut.2

end

/-- **After every window that is persisted the documents of a pair are the events of the stream so
far, exactly if every window sees of the pair what matters.** -/
theorem recordsAtCommits_iff {cfg : Settings} {start : Time} {turns : List Turn} {s : Consumer}
    {static : GtfsStaticData} {key : PairKey}
    (h : ({ lastWindowFlush := start } : Consumer).run cfg turns = some s)
    (hstatic : ∀ turn ∈ turns, turn.static = static) (hsteady : Steady cfg.frames static s.log) :
    RecordsAtCommits cfg.frames static key s.log ↔ SeesAtWindows cfg.frames static key s.log := by
  have hadvances : Relation.ReflTransGen (Advance cfg.frames cfg.zone {static}) {} s.ledger :=
    Consumer.run_advances hstatic h
  have hrecorded : Recorded cfg.frames static key s.ledger :=
    advances_induction (fun _ _ hsteady ↦ hsteady.of_append) recorded_empty
      (fun _ _ hrecorded hadvance hsteady ↦ hrecorded.advance hadvance hsteady) hadvances hsteady
  exact hrecorded.agrees

/-- Lookups in which every trip runs in one direction. -/
def GtfsStaticData.oneWay : GtfsStaticData :=
  { GtfsStaticData.empty with directionLookup := fun _ ↦ some 0 }

/-- A vehicle at one point of its route. -/
def passing (vehicle : String) (t : ℕ) : Ping :=
  { vehicleId := vehicle
    tripId := some "t1"
    routeId := some "r1"
    timestamp := .instant (seconds t)
    location := some (0, 0) }

/-- The promises of a log, in a form that a run can be checked for. -/
def IsSteady (static : GtfsStaticData) (log : List Event) : Prop :=
  (∀ e ∈ log, e.unpersisted = none) ∧ (∀ p ∈ messages log, p.timestampEastern.isSome) ∧
    ((messages log).Pairwise fun p q ↦
      ∀ s ∈ p.timestampEastern, ∀ t ∈ q.timestampEastern, s ≤ t) ∧
    ∀ r ∈ (messages log).filterMap (sighting meridian static),
      ∀ s ∈ (messages log).filterMap (sighting meridian static),
        r.vehicleId = s.vehicleId → r.timestampEastern = s.timestampEastern → r = s

instance (static : GtfsStaticData) (log : List Event) : Decidable (IsSteady static log) :=
  inferInstanceAs (Decidable (_ ∧ _ ∧ _ ∧ _))

theorem IsSteady.steady {static : GtfsStaticData} {log : List Event} (h : IsSteady static log) :
    Steady meridian static log :=
  ⟨h.1, ⟨h.2.1, h.2.2.1.imp fun hle s t hs ht ↦ hle s hs t ht⟩, h.2.2.2⟩

/-- Two vehicles that go together, seen at the beginnings of four poll intervals. -/
def inStep : List Turn :=
  [.receiving (passing "y1" 0) .oneWay 0 .success, .receiving (passing "y2" 0) .oneWay 0 .success,
    .receiving (passing "y1" 15) .oneWay 15 .success,
    .receiving (passing "y2" 15) .oneWay 60 .success,
    .receiving (passing "y1" 30) .oneWay 61 .success,
    .receiving (passing "y2" 30) .oneWay 120 .success]

def y1y2 : PairKey := ⟨"r1", 0, "y1", "y2"⟩

/-- Their one event is recorded in two windows. -/
theorem recordsAtCommits_inStep :
    ∃ s, runFromStart inStep = some s ∧ (persistedFrames s.log).length = 2 ∧
      RecordsAtCommits meridian .oneWay y1y2 s.log := by
  have hreturns : (runFromStart inStep).isSome := by decide +kernel
  have hrun : ∀ s ∈ runFromStart inStep, (persistedFrames s.log).length = 2 ∧
      IsSteady .oneWay s.log ∧
        ∀ p ∈ messages s.log, ∀ t ∈ p.timestampEastern, t = slotTime (slot t) := by
    decide +kernel
  obtain ⟨s, hs⟩ := Option.isSome_iff_exists.mp hreturns
  obtain ⟨hlength, hsteady, hgrid⟩ := hrun s hs
  have hstatic : ∀ turn ∈ inStep, turn.static = .oneWay := by
    simp [inStep, Turn.receiving]
  refine ⟨s, hs, hlength, (recordsAtCommits_iff hs hstatic hsteady.steady).mpr ?_⟩
  have hadvances : Relation.ReflTransGen (Advance meridian easternStandardTime {.oneWay}) {}
      s.ledger := Consumer.run_advances hstatic hs
  exact seesAtWindows_of_onGrid hadvances hsteady.steady hgrid

/-- Two vehicles that go together, of which one window ends between two sightings of one poll
interval, and the one before that interval is skipped. -/
def outOfStep : List Turn :=
  [.receiving (passing "y1" 1) .oneWay 1 .success, .receiving (passing "y2" 2) .oneWay 2 .success,
    .receiving (passing "y1" 16) .oneWay 16 .success,
    .receiving (passing "y2" 17) .oneWay 17 .success,
    .receiving (passing "y1" 48) .oneWay 60 .success,
    .receiving (passing "y2" 50) .oneWay 61 .success,
    .receiving (passing "y1" 61) .oneWay 62 .success,
    .receiving (passing "y2" 62) .oneWay 120 .success]

/-- Their one event is recorded as two. -/
theorem not_recordsStream_outOfStep :
    ∃ s, runFromStart outOfStep = some s ∧ Steady meridian .oneWay s.log ∧
      ¬RecordsStream meridian .oneWay y1y2 s.log := by
  have hreturns : (runFromStart outOfStep).isSome := by decide +kernel
  have hrun : ∀ s ∈ runFromStart outOfStep, IsSteady .oneWay s.log ∧
      (({} : Documents).persistLog s.log).ends y1y2 (seconds 45) = some (seconds 60) ∧
        ∀ e ∈ windowEvents meridian .oneWay (messages s.log), e.startTime ≠ seconds 45 := by
    decide +kernel
  obtain ⟨s, hs⟩ := Option.isSome_iff_exists.mp hreturns
  obtain ⟨hsteady, hends, hevents⟩ := hrun s hs
  refine ⟨s, hs, hsteady.steady, fun h ↦ ?_⟩
  obtain ⟨e, he, -, hstart, -⟩ := (h (seconds 45) (seconds 60)).mp hends
  exact hevents e he hstart

end GtfsStream.Analytics
