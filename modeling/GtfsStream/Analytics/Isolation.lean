import GtfsStream.Analytics.OtherVehicles
import GtfsStream.Analytics.TwoRuns

/-!
# The clock of one vehicle

Two runs over the same turns, of which one receives additional pings of one vehicle. The cutoffs of
the carry-forward and of both trackers come from the newest time of the whole fleet, so these pings
can drop rows and expire entries of other vehicles. As long as at each flush every row and entry of
the others stays on its side of the cutoffs, the two runs emit the same for the others.

## The relation between the two runs

The two consumers have the same rows of the others, the same entries for their keys, and the same
clock. A turn with an additional ping keeps this, since the ping is a row of the one vehicle. A
flush keeps it where the two newest times put the rows and the entries of the others on the same
side. The arrivals of the others depend on their own visits and the events of a pair on the rows of
its two vehicles, so these agree as soon as the rows do, but for one thing: a visit of the one
vehicle that cannot be dated takes the arrivals of all others away.
-/

open GtfsStream.Analytics.BunchingEventTracker (reconcileKey)

namespace GtfsStream.Analytics

/-! ## What the others see -/

/-- The two memories hold the same of the vehicles other than `w`. -/
structure Agree (w : String) (m m' : Memory) : Prop where
  rows : others w m.rows = others w m'.rows
  deviations : ∀ key : DeviationKey, key.1 ≠ w → m.deviationTracker key = m'.deviationTracker key
  bunching : ∀ key : PairKey, key.Without w → m.bunchingTracker key = m'.bunchingTracker key

/-- The two consumers emitted the same for the vehicles other than `w`, and hold the same of
them. -/
structure SameForOthers (w : String) (s s' : Consumer) : Prop where
  memory : Agree w s.memory s'.memory
  deviations : ∀ key : DeviationKey, key.1 ≠ w →
    emittedDeviations key s.log = emittedDeviations key s'.log
  actions : ∀ key : PairKey, key.Without w → emittedActions key s.log = emittedActions key s'.log

/-- Both frames leave the calendar or neither: with a timestamp, with a cutoff, or with the
beginning of a poll interval. -/
structure SameCalendar (zone : Zone) (rows rows' : List Ping) : Prop where
  times : (∀ p ∈ rows, (zone.toEastern p.timestamp).isSome) ↔
    ∀ p ∈ rows', (zone.toEastern p.timestamp).isSome
  cutoffs : ∀ lag ∈ [overlapSeconds, trackerRetentionSeconds],
    (∀ last ∈ newest rows, zone.HasTime (last - seconds lag)) ↔
      ∀ last ∈ newest rows', zone.HasTime (last - seconds lag)
  intervals : (∀ p ∈ rows, ∀ t ∈ p.timestampEastern, zone.HasTime (bucket t)) ↔
    ∀ p ∈ rows', ∀ t ∈ p.timestampEastern, zone.HasTime (bucket t)

/-- At the flush of these two memories the rows and the entries of the other vehicles stay on their
side of the cutoffs, and of the calendar. No two rows of one of them tie, which would leave the
order to an unstable sort, and no visit of `w` can be dated in one of the frames only. Its poll
intervals end in the calendar: the tracker compares with one poll interval after an event. -/
structure Undisturbed (frames : Frames) (zone : Zone) (static : GtfsStaticData) (w : String)
    (m m' : Memory) : Prop where
  calendar : SameCalendar zone m.rows m'.rows
  ends : ∀ p ∈ m'.rows, p.vehicleId = w → ∀ t ∈ p.timestampEastern,
    zone.HasTime (bucket t + seconds pollIntervalSeconds)
  carry : ∀ p ∈ m.rows, p.vehicleId ≠ w → carried m.rows p = carried m'.rows p
  arrivals : ∀ p ∈ m.rows, p.vehicleId ≠ w → ∀ t, p.timestampEastern = some t →
    keeps m.rows t = keeps m'.rows t
  events : ∀ p ∈ m.rows, p.vehicleId ≠ w → ∀ t, p.timestampEastern = some t →
    keeps m.rows (bucket t) = keeps m'.rows (bucket t)
  deviationEntries : ∀ (key : DeviationKey) (t : Time), key.1 ≠ w →
    m.deviationTracker key = some t → keeps m.rows t = keeps m'.rows t
  bunchingEntries : ∀ (key : PairKey) (f : BunchingEvent), key.Without w →
    m.bunchingTracker key = some f → keeps m.rows f.endTime = keeps m'.rows f.endTime
  oneSighting : OneSighting frames static (others w m.rows)
  dated : ∀ key : VisitKey, key.1 = w →
    (Dated zone static m.rows key ↔ Dated zone static m'.rows key)

/-! ## One window -/

theorem SameCalendar.flush_isSome {zone : Zone} {rows rows' : List Ping}
    (h : SameCalendar zone rows rows') :
    (flush zone rows).isSome ↔ (flush zone rows').isSome := by
  rw [Analytics.flush_isSome, Analytics.flush_isSome, h.times]
  exact and_congr_right' (h.cutoffs overlapSeconds List.mem_cons_self)

section

variable {frames : Frames} {zone : Zone} {static : GtfsStaticData} {w : String} {m m' : Memory}
  {rows : List Ping}

theorem others_carried (rows : List Ping) :
    others w (rows.filter (carried rows)) = (others w rows).filter (carried rows) :=
  others_filter fun _ _ _ ↦ rfl

section

variable (h : Agree w m m') (hflush : Undisturbed frames zone static w m m')
include h hflush

theorem Agree.carried_rows :
    others w (m.rows.filter (carried m.rows)) = others w (m'.rows.filter (carried m'.rows)) := by
  rw [others_carried, others_carried, ← h.rows]
  refine List.filter_congr fun p hp ↦ ?_
  obtain ⟨q, hq, hvehicle, rfl⟩ := mem_others.mp hp
  exact hflush.carry q hq hvehicle

theorem Agree.windowArrivals_isSome : (windowArrivals zone static m.rows).isSome ↔
    (windowArrivals zone static m'.rows).isSome := by
  rw [windowArrivals_isSome_iff, windowArrivals_isSome_iff]
  refine forall_congr' fun key ↦ ?_
  by_cases hkey : key.1 = w
  · exact hflush.dated key hkey
  · exact dated_congr_others h.rows hkey

theorem Agree.sameArrival {key : DeviationKey} (hkey : key.1 ≠ w) :
    SameArrival zone static key m.rows m'.rows := by
  rintro r rfl
  exact mem_gatedArrivals_congr h.rows (h.windowArrivals_isSome hflush) hkey

theorem Agree.pairEvents {key : PairKey} (hkey : key.Without w) :
    pairEvents frames static m.rows key = pairEvents frames static m'.rows key := by
  have hone := hflush.oneSighting
  rw [← pairEvents_others hone hkey, h.rows, pairEvents_others (h.rows ▸ hone) hkey]

/-- The window emits the same actions for the pairs of the others. -/
theorem Agree.bunchingActions {key : PairKey} (hkey : key.Without w) :
    (m.handOver frames zone static).1.bunchingActions.filter (·.2.key = key) =
      (m'.handOver frames zone static).1.bunchingActions.filter (·.2.key = key) := by
  have htracked : m.flushed.bunchingTracker key = m'.flushed.bunchingTracker key :=
    h.bunching key hkey
  rw [Memory.handOver, Memory.handOver, filter_bunchingActions, filter_bunchingActions,
    h.pairEvents hflush hkey, htracked]

theorem Agree.closed_deviations {key : DeviationKey} (hkey : key.1 ≠ w) :
    (m.closed frames zone static).deviationTracker key =
      (m'.closed frames zone static).deviationTracker key := by
  refine closed_deviationTracker_congr (h.deviations key hkey) (h.windowArrivals_isSome hflush)
    (h.sameArrival hflush hkey) fun t hentry ↦ ?_
  -- the entry was there before, or it is as old as a row of the frame
  rcases hentry with hentry | ⟨r, hr, hrkey, rfl⟩
  · exact hflush.deviationEntries key t hkey ((h.deviations key hkey).trans hentry)
  · obtain ⟨p, hp, hvehicle, htime⟩ :=
      exists_row_of_gatedArrival ((h.sameArrival hflush hkey r hrkey).mpr hr)
    rw [← hrkey] at hkey
    exact hflush.arrivals p hp (hvehicle.trans_ne hkey) _ htime

theorem Agree.closed_bunching {key : PairKey} (hkey : key.Without w) :
    (m.closed frames zone static).bunchingTracker key =
      (m'.closed frames zone static).bunchingTracker key := by
  refine closed_bunchingTracker_congr ?_ fun f hentry ↦ ?_
  · rw [h.bunching key hkey, h.pairEvents hflush hkey]
  · rcases hentry with hentry | hentry
    · exact hflush.bunchingEntries key f hkey ((h.bunching key hkey).trans hentry)
    · rw [← h.pairEvents hflush hkey] at hentry
      obtain ⟨p, hp, hvehicle, t, ht, hbucket⟩ := exists_row_of_pairEvent hentry
      rw [hbucket]
      exact hflush.events p hp (hvehicle ▸ hkey.1) t ht

/-- The memories agree after the flush, whether the window is dropped or not. -/
theorem Agree.closed : Agree w (m.closed frames zone static) (m'.closed frames zone static) := by
  refine ⟨?_, fun _ ↦ h.closed_deviations hflush, fun _ ↦ h.closed_bunching hflush⟩
  rw [closed_rows, closed_rows]
  exact h.carried_rows hflush

theorem Agree.flushed : Agree w m.flushed m'.flushed :=
  ⟨h.carried_rows hflush, h.deviations, h.bunching⟩

end

end

/-! ## One turn -/

/-- The turn with the additional ping, if there is one. -/
def withPing (t : Turn × Option Ping) : Turn :=
  match t.2 with
  | none => t.1
  | some p => { t.1 with poll := .message p }

/-- The turn without the additional ping: the poll returns nothing instead. -/
def withoutPing (t : Turn × Option Ping) : Turn :=
  match t.2 with
  | none => t.1
  | some _ => { t.1 with poll := .nothing }

namespace Consumer

/-- What two runs share that meet the same turns, but for pings of `w`. -/
structure Alike (w : String) (s s' : Consumer) : Prop where
  same : SameForOthers w s s'
  inTurn : InTurn s s'

variable {cfg : Settings} {s s' : Consumer} {turn : Turn} {t : Turn × Option Ping} {w : String}

/-- A message that both runs receive, or a value that neither can read. -/
theorem Alike.received (h : Alike w s s') (hpoll : turn.poll ≠ .error) :
    Option.Rel (fun r r' ↦ Alike w r.1 r'.1 ∧ r.2 = r'.2) (s.receive turn) (s'.receive turn) := by
  have hnoted : Alike w { s with log := s.log ++ [.received none] }
      { s' with log := s'.log ++ [.received none] } := by
    refine ⟨⟨h.same.memory, fun key hkey ↦ ?_, fun key hkey ↦ ?_⟩,
      ⟨h.inTurn.flushes, h.inTurn.backoff⟩⟩
    · rw [emittedDeviations_received, emittedDeviations_received, h.same.deviations key hkey]
    · rw [emittedActions_received, emittedActions_received, h.same.actions key hkey]
  unfold receive
  cases hcase : turn.poll with
  | nothing => exact Option.Rel.some ⟨h, rfl⟩
  | error => exact absurd hcase hpoll
  | noValue => exact Option.Rel.some ⟨hnoted, rfl⟩
  | malformed => exact Option.Rel.some ⟨hnoted, rfl⟩
  | message p =>
    refine Option.Rel.some ⟨⟨⟨⟨?_, h.same.memory.deviations, h.same.memory.bunching⟩,
      fun key hkey ↦ ?_, fun key hkey ↦ ?_⟩, ⟨h.inTurn.flushes, h.inTurn.backoff⟩⟩, rfl⟩
    · dsimp only
      rw [others_append, others_append, h.same.memory.rows, others_singleton, others_singleton]
      rfl
    · dsimp only
      rw [emittedDeviations_received, emittedDeviations_received, h.same.deviations key hkey]
    · dsimp only
      rw [emittedActions_received, emittedActions_received, h.same.actions key hkey]

theorem Alike.additional (h : Alike w s s') {p : Ping} (hpoll : turn.poll = .message p)
    (hvehicle : p.vehicleId = w) :
    Option.Rel (fun r r' ↦ Alike w r.1 r'.1 ∧ r.2 = r'.2) (some (s, false)) (s'.receive turn) := by
  unfold receive
  rw [hpoll]
  refine Option.Rel.some ⟨⟨⟨⟨?_, h.same.memory.deviations, h.same.memory.bunching⟩,
    fun key hkey ↦ ?_, fun key hkey ↦ ?_⟩, ⟨h.inTurn.flushes, h.inTurn.backoff⟩⟩, rfl⟩
  · dsimp only
    rw [others_append, others_singleton, if_pos hvehicle, List.append_nil, h.same.memory.rows]
  · dsimp only
    rw [emittedDeviations_received, h.same.deviations key hkey]
  · dsimp only
    rw [emittedActions_received, h.same.actions key hkey]

theorem Alike.receive (h : Alike w s s')
    (hextra : ∀ p ∈ t.2, p.vehicleId = w) :
    Option.Rel (fun r r' ↦ Alike w r.1 r'.1 ∧ r.2 = r'.2) (s.receive (withoutPing t))
      (s'.receive (withPing t)) := by
  obtain ⟨turn, _ | p⟩ := t
  · by_cases herror : turn.poll = .error
    · change Option.Rel _ (s.receive turn) (s'.receive turn)
      rw [Consumer.receive, Consumer.receive, herror]
      exact Option.Rel.none
    · exact h.received herror
  · exact h.additional rfl (hextra p rfl)

theorem Alike.flushedOut (h : Alike w s s')
    (hflush : Undisturbed cfg.frames cfg.zone turn.static w s.memory s'.memory) :
    Alike w (s.flushedOut cfg turn) (s'.flushedOut cfg turn) := by
  have hsame := h.inTurn.inBackoff_eq turn.backoffCheckedAt
  refine ⟨?_, h.inTurn.flushedOut⟩
  by_cases hbackoff : s.inBackoff turn.backoffCheckedAt
  · rw [flushedOut_dropped hbackoff, flushedOut_dropped (hsame ▸ hbackoff)]
    refine ⟨h.same.memory.flushed hflush, fun key hkey ↦ ?_, fun key hkey ↦ ?_⟩
    · dsimp only
      rw [emittedDeviations_append, emittedDeviations_append, h.same.deviations key hkey]
      rfl
    · dsimp only
      rw [emittedActions_append, emittedActions_append, h.same.actions key hkey]
      rfl
  · have hbackoff' : ¬s'.inBackoff turn.backoffCheckedAt := hsame ▸ hbackoff
    refine ⟨?_, fun key hkey ↦ ?_, fun key hkey ↦ ?_⟩
    · rw [flushedOut_memory hbackoff, flushedOut_memory hbackoff']
      exact h.same.memory.closed hflush
    · rw [flushedOut_deviations hbackoff, flushedOut_deviations hbackoff',
        h.same.deviations key hkey, newDeviations_congr (h.same.memory.deviations key hkey)
          (h.same.memory.sameArrival hflush hkey)]
    · rw [flushedOut_actions hbackoff, flushedOut_actions hbackoff', h.same.actions key hkey,
        h.same.memory.bunchingActions hflush hkey]

theorem sameClock_withPing (t : Turn × Option Ping) : SameClock (withoutPing t) (withPing t) := by
  obtain ⟨turn, _ | p⟩ := t
  · rfl
  · rfl

theorem withoutPing_persist (t : Turn × Option Ping) : (withoutPing t).persist = t.1.persist := by
  obtain ⟨turn, _ | p⟩ := t
  · rfl
  · rfl

theorem withoutPing_static (t : Turn × Option Ping) : (withoutPing t).static = t.1.static := by
  obtain ⟨turn, _ | p⟩ := t
  · rfl
  · rfl

theorem Alike.step (h : Alike w s s') (hpersist : t.1.persist = .success)
    (hextra : ∀ p ∈ t.2, p.vehicleId = w)
    (hflush : ∀ m ∈ s.flushing cfg (withoutPing t), ∀ m' ∈ s'.flushing cfg (withPing t),
      Undisturbed cfg.frames cfg.zone t.1.static w m m') :
    Option.Rel (Alike w) (s.step cfg (withoutPing t)) (s'.step cfg (withPing t)) := by
  refine step_rel (sameClock_withPing t) ((withoutPing_persist t).trans hpersist)
    (fun _ _ hr ↦ hr.inTurn) (h.receive hextra) fun r r' hr hreceive hreceive' hdue hdue' ↦ ?_
  have hside := hflush _ (flushing_of_due hreceive hdue) _ (flushing_of_due hreceive' hdue')
  refine ⟨hside.calendar.flush_isSome, hr.flushedOut ?_⟩
  rw [withoutPing_static]
  exact hside

end Consumer

/-! ## Two runs -/

/-- At each window that a turn of the two runs flushes, the others stay on their side of the
cutoffs. -/
def StaysUndisturbed (cfg : Settings) (start : Time) (w : String)
    (turns : List (Turn × Option Ping)) : Prop :=
  ∀ before t after, turns = before ++ t :: after →
    ∀ s ∈ ({ lastWindowFlush := start } : Consumer).run cfg (before.map withoutPing),
      ∀ s' ∈ ({ lastWindowFlush := start } : Consumer).run cfg (before.map withPing),
        ∀ m ∈ s.flushing cfg (withoutPing t), ∀ m' ∈ s'.flushing cfg (withPing t),
          Undisturbed cfg.frames cfg.zone t.1.static w m m'

theorem run_alike {cfg : Settings} {start : Time} {w : String} {turns : List (Turn × Option Ping)}
    (hpersist : ∀ t ∈ turns, t.1.persist = .success)
    (hextra : ∀ t ∈ turns, ∀ p ∈ t.2, p.vehicleId = w)
    (h : StaysUndisturbed cfg start w turns) :
    Option.Rel (Consumer.Alike w)
      (({ lastWindowFlush := start } : Consumer).run cfg (turns.map withoutPing))
      (({ lastWindowFlush := start } : Consumer).run cfg (turns.map withPing)) := by
  refine Consumer.run_rel ?_ fun before t after hsplit r hr r' hr' halike ↦ ?_
  · exact ⟨⟨⟨rfl, fun _ _ ↦ rfl, fun _ _ ↦ rfl⟩, fun _ _ ↦ rfl, fun _ _ ↦ rfl⟩,
      ⟨rfl, ⟨rfl, rfl⟩⟩⟩
  · have hmem : t ∈ turns := hsplit ▸ List.mem_append_right _ List.mem_cons_self
    exact halike.step (hpersist t hmem) (hextra t hmem) (h before t after hsplit r hr r' hr')

/-- **The clock of one vehicle does not disturb the others** as long as it moves none of their rows
and entries across a cutoff: with and without the additional pings the runs emit the same for the
others, and hold the same of them. -/
theorem sameForOthers_of_staysUndisturbed {cfg : Settings} {start : Time} {w : String}
    {turns : List (Turn × Option Ping)} (hpersist : ∀ t ∈ turns, t.1.persist = .success)
    (hextra : ∀ t ∈ turns, ∀ p ∈ t.2, p.vehicleId = w)
    (h : StaysUndisturbed cfg start w turns) :
    Option.Rel (SameForOthers w)
      (({ lastWindowFlush := start } : Consumer).run cfg (turns.map withoutPing))
      (({ lastWindowFlush := start } : Consumer).run cfg (turns.map withPing)) := by
  have halike := run_alike hpersist hextra h
  generalize ({ lastWindowFlush := start } : Consumer).run cfg (turns.map withoutPing) = r,
    ({ lastWindowFlush := start } : Consumer).run cfg (turns.map withPing) = r' at halike
  cases halike with
  | none => exact Option.Rel.none
  | some halike => exact Option.Rel.some halike.same

/-- A vehicle that reports no stop. -/
def passingAt (t : ℕ) : Ping := { vehicleId := "y9", timestamp := .instant (seconds t) }

/-- A stop is served across two windows, and in the first one another vehicle reports. -/
def servedBeside (t : ℕ) : List (Turn × Option Ping) :=
  [(.receiving (stoppedAt 31) (.arrivingAt 68460) 30 .success, none),
    (.receiving (passingAt t) (.arrivingAt 68460) 60 .success, some (passingAt t)),
    (.receiving (stoppedAt 61) (.arrivingAt 68460) 120 .success, none)]

/-- The first window of these turns, with and without the ping of the other vehicle. -/
theorem undisturbed_servedBeside :
    Undisturbed meridian easternStandardTime (.arrivingAt 68460) "y9" { rows := [stoppedAt 31] }
      { rows := [stoppedAt 31, { passingAt 40 with offset := 1 }] } := by
  refine ⟨⟨by decide +kernel, by decide +kernel, by decide +kernel⟩, by decide +kernel,
    by decide, ?_, ?_, fun _ _ _ h ↦ ?_, fun _ _ _ h ↦ ?_, ?_, fun key hkey ↦ ?_⟩
  · intro p hp _ t ht
    obtain rfl := List.mem_singleton.mp hp
    rw [← Option.some.inj ht]
    decide
  · intro p hp _ t ht
    obtain rfl := List.mem_singleton.mp hp
    rw [← Option.some.inj ht]
    decide
  · exact absurd h (Option.some_ne_none _).symm
  · exact absurd h (Option.some_ne_none _).symm
  · intro r hr
    exact absurd hr List.not_mem_nil
  · -- the other vehicle reports no stop
    have hnil : ∀ rows : List Ping, (∀ p ∈ rows, p.vehicleId = "y9" → p.stopId = none) →
        visitRows rows key = [] := by
      intro rows hrows
      refine List.filter_eq_nil_iff.mpr fun p hp hvisit ↦ ?_
      obtain ⟨hstop, -, hvisit⟩ := of_decide_eq_true hvisit
      rw [hrows p hp ((vehicleId_of_visitKey hvisit).trans hkey)] at hstop
      exact Bool.false_ne_true hstop
    refine iff_of_true (fun _ _ h ↦ absurd (hnil _ ?_) h) fun _ _ h ↦ absurd (hnil _ ?_) h
    · decide
    · decide

/-- The other vehicle is a few seconds ahead. -/
theorem sameForOthers_fewSecondsAhead :
    Option.Rel (SameForOthers "y9") (runFromStart (((servedBeside 40).take 2).map withoutPing))
      (runFromStart (((servedBeside 40).take 2).map withPing)) := by
  refine sameForOthers_of_staysUndisturbed (by decide) ?_ ?_
  · intro t ht p hp
    obtain rfl : p = passingAt 40 := by
      have hpings : ∀ t ∈ (servedBeside 40).take 2, ∀ p ∈ t.2, p = passingAt 40 := by decide
      exact hpings t ht p hp
    rfl
  · rintro (_ | ⟨t₁, _ | ⟨t₂, before⟩⟩) t after hsplit s hs s' hs' m hm m' hm'
    · -- the first turn flushes nothing
      obtain ⟨rfl, -⟩ := List.cons.inj hsplit
      rw [← Option.some.inj hs] at hm
      exact absurd hm.symm (Option.some_ne_none m)
    · obtain ⟨rfl, hrest⟩ := List.cons.inj hsplit
      obtain ⟨rfl, -⟩ := List.cons.inj hrest
      rw [← Option.some.inj hs] at hm
      rw [← Option.some.inj hs'] at hm'
      obtain rfl := Option.some.inj hm
      obtain rfl := Option.some.inj hm'
      exact undisturbed_servedBeside
    · obtain ⟨-, hrest⟩ := List.cons.inj hsplit
      obtain ⟨-, hrest⟩ := List.cons.inj hrest
      exact absurd hrest (by simp)

/-- The other vehicle is more than ten minutes ahead: the arrival is forgotten and emitted again. -/
theorem not_sameForOthers_tenMinutesAhead :
    ¬Option.Rel (SameForOthers "y9") (runFromStart ((servedBeside 731).map withoutPing))
      (runFromStart ((servedBeside 731).map withPing)) := by
  intro h
  have hreturns : (runFromStart ((servedBeside 731).map withoutPing)).isSome := by decide +kernel
  have honce : ∀ s ∈ runFromStart ((servedBeside 731).map withoutPing),
      (emittedDeviations ("y1", "t1", 1, .arrival) s.log).length = 1 := by decide +kernel
  have htwice : ∀ s ∈ runFromStart ((servedBeside 731).map withPing),
      (emittedDeviations ("y1", "t1", 1, .arrival) s.log).length = 2 := by decide +kernel
  generalize runFromStart ((servedBeside 731).map withoutPing) = r,
    runFromStart ((servedBeside 731).map withPing) = r' at h hreturns honce htwice
  cases h with
  | none => exact Bool.false_ne_true hreturns
  | some hsame =>
    have hlength := honce _ rfl
    rw [hsame.deviations _ (by decide), htwice _ rfl] at hlength
    exact absurd hlength (by decide)

end GtfsStream.Analytics
