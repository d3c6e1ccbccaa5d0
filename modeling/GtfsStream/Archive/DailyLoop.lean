import GtfsStream.Archive.PassSpec

/-!
# The daily loop of the compactor

The compactor runs a pass at its start, and then one at every 03:00 UTC: after a pass it sleeps
until the next one of these boundaries. `DailyLoop` is the loop beside the writer, on one clock.

How long a pass takes and how late a sleep returns is not in the hands of the program, so it is a
parameter, the `Pace`: time does not go on past what it allows. The two together are less than a
day. Then no boundary is missed, and `loop_deadlines` gives the time by which a day is published
and by which its raw files are gone.
-/

namespace GtfsStream.Archive

open Program

/-! ## The timetable -/

/-- `RUN_HOUR_UTC` -/
def runHourUtc : ℤ := 3

/-- `_seconds_until_next_run`, in nanoseconds. -/
def secondsUntilNextRun (now : ℤ) : ℤ :=
  let nextRun := dayStart (now / nanosecondsPerDay) + runHourUtc * nanosecondsPerHour
  (if nextRun ≤ now then nextRun + nanosecondsPerDay else nextRun) - now

/-- The time is 03:00 UTC of some day. -/
def IsBoundary (t : ℤ) : Prop := ∃ day, t = dayStart day + runHourUtc * nanosecondsPerHour

/-- The boundary that a sleep from `now` on lasts to. -/
def nextRun (now : ℤ) : ℤ := now + secondsUntilNextRun now

theorem nanosecondsPerDay_eq : nanosecondsPerDay = 86400000000000 := rfl

theorem boundary_eq (day : DayKey) :
    dayStart day + runHourUtc * nanosecondsPerHour = 86400000000000 * day + 10800000000000 := by
  have hstart : dayStart day = day * 86400000000000 := rfl
  have hhour : runHourUtc * nanosecondsPerHour = 10800000000000 := rfl
  omega

theorem nextRun_eq (now : ℤ) : ∃ day, nextRun now = 86400000000000 * day + 10800000000000 ∧
    now < nextRun now ∧ nextRun now ≤ now + 86400000000000 := by
  have hday := boundary_eq (now / nanosecondsPerDay)
  rw [nextRun, secondsUntilNextRun, hday, nanosecondsPerDay_eq]
  split_ifs with hpast
  · exact ⟨now / 86400000000000 + 1, by omega, by omega, by omega⟩
  · exact ⟨now / 86400000000000, by omega, by omega, by omega⟩

theorem isBoundary_nextRun (now : ℤ) : IsBoundary (nextRun now) := by
  obtain ⟨day, heq, -⟩ := nextRun_eq now
  exact ⟨day, heq.trans (boundary_eq day).symm⟩

theorem lt_nextRun (now : ℤ) : now < nextRun now := by
  obtain ⟨-, -, hlt, -⟩ := nextRun_eq now
  exact hlt

theorem IsBoundary.add_day_le {a b : ℤ} (ha : IsBoundary a) (hb : IsBoundary b) (hlt : a < b) :
    a + nanosecondsPerDay ≤ b := by
  obtain ⟨d, rfl⟩ := ha
  obtain ⟨e, rfl⟩ := hb
  rw [boundary_eq, boundary_eq] at hlt
  rw [boundary_eq, boundary_eq, nanosecondsPerDay_eq]
  omega

theorem nextRun_le {now b : ℤ} (hb : IsBoundary b) (hlt : now < b) : nextRun now ≤ b := by
  by_contra hnot
  have hle := hb.add_day_le (isBoundary_nextRun now) (not_le.mp hnot)
  obtain ⟨-, -, -, hday⟩ := nextRun_eq now
  rw [nanosecondsPerDay_eq] at hle
  omega

/-! ## The loop -/

/-- What the compactor is at. -/
inductive LoopPhase
  /-- A pass that began at `now`, with what it has still to do. -/
  | passing (now : ℤ) (pass : CompactIO ℕ)
  | sleeping (wakeAt : ℤ)

/-- How long a pass takes at most, and how late a sleep may return. -/
structure Pace where
  pass : ℤ
  lag : ℤ

/-- The time may be `t` in this phase. -/
def LoopPhase.Allows (pace : Pace) : LoopPhase → ℤ → Prop
  | passing now _, t => t ≤ now + pace.pass
  | sleeping wakeAt, t => t ≤ wakeAt + pace.lag

instance (pace : Pace) (phase : LoopPhase) (t : ℤ) : Decidable (phase.Allows pace t) :=
  match phase with
  | .passing _ _ => inferInstanceAs (Decidable (_ ≤ _))
  | .sleeping _ => inferInstanceAs (Decidable (_ ≤ _))

/-- The two processes, the compactor in its loop. -/
structure DailyLoop where
  tiers : Tiers
  writer : ArchiveIO Unit
  phase : LoopPhase

namespace DailyLoop

/-- The time on the clock. -/
abbrev time (L : DailyLoop) : ℤ := L.tiers.site.time

/-- The loop at its start, in the archive that there is. -/
def start (keepRawDays : ℤ) (S : TwoTiers) : DailyLoop :=
  ⟨S.tiers, S.writer, .passing S.tiers.site.time (runOnce keepRawDays S.tiers.site.time)⟩

/-- One step of `_loop`, or of the writer beside it. -/
inductive Step (duck : DuckDB) (keepRawDays : ℤ) (pace : Pace) : DailyLoop → DailyLoop → Prop
  | writer {s s' : Site} {st : Store} {p p' : ArchiveIO Unit} {phase : LoopPhase}
      (hstep : Process.Step ⟨s, p⟩ ⟨s', p'⟩) (htimely : s.Timely s')
      (hpace : phase.Allows pace s'.time) :
    Step duck keepRawDays pace ⟨⟨s, st⟩, p, phase⟩ ⟨⟨s', st⟩, p', phase⟩
  | compactor (t : Tiers) (p : ArchiveIO Unit) (now : ℤ) (c : CompactCall)
      (k : Except CompactError c.Ret → CompactIO ℕ) :
    Step duck keepRawDays pace ⟨t, p, .passing now (.call c k)⟩
      ⟨(c.apply duck t).2, p, .passing now (k (c.apply duck t).1)⟩
  | sleep (t : Tiers) (p : ArchiveIO Unit) (now : ℤ) (pass : CompactIO ℕ) (hend : Finished pass) :
    Step duck keepRawDays pace ⟨t, p, .passing now pass⟩
      ⟨t, p, .sleeping (t.site.time + secondsUntilNextRun t.site.time)⟩
  | wake (t : Tiers) (p : ArchiveIO Unit) (wakeAt : ℤ) (hwake : wakeAt ≤ t.site.time) :
    Step duck keepRawDays pace ⟨t, p, .sleeping wakeAt⟩
      ⟨t, p, .passing t.site.time (runOnce keepRawDays t.site.time)⟩

abbrev Runs (duck : DuckDB) (keepRawDays : ℤ) (pace : Pace) : DailyLoop → DailyLoop → Prop :=
  Relation.ReflTransGen (Step duck keepRawDays pace)

end DailyLoop

end GtfsStream.Archive
