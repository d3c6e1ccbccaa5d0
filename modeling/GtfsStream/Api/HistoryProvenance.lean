import GtfsStream.Api.RouteHistorySpec
import GtfsStream.Api.TimetableProvenance

/-!
# From the topic to the history

The consumer and the hours of PostgreSQL as one system. The consumer takes turns, the windows that
it has handed over are taken into the hours, statements end in any way, and processes are stopped or
crash. What a point of the history counts was said by messages and by the timetables.

## Putting the layers together

A row of the table is made of items of windows, by what is proved of any run of processes. A window
is one that the consumer handed over, and its results lead back to messages as they do for the map.
The lookups of the consumer are the rows of a bundle. So the only new thing is the system in which
the windows are taken into the hours while the consumer goes on.
-/

namespace GtfsStream.Api

open Analytics Hourly
open GtfsStatic (Dir Remote Reading Offered)

/-! ## The system -/

/-- How the windows of the hours come about while consumers run. The pings are those that were
received by the processes that have ended. -/
inductive Tallied (cfg : Settings) (statics : Set GtfsStaticData) :
    List ProcessEvent → List Ping → Consumer → Prop
  | start (t : Time) : Tallied cfg statics [] [] { lastWindowFlush := t }
  | turn {events : List ProcessEvent} {earlier : List Ping} {c c' : Consumer}
      (h : Tallied cfg statics events earlier c) (turn : Turn) (hstatic : turn.static ∈ statics)
      (hstep : c.step cfg turn = some c') : Tallied cfg statics events earlier c'
  | window {events : List ProcessEvent} {earlier : List Ping} {c : Consumer} {pings : List Ping}
      {success : Bool} (h : Tallied cfg statics events earlier c) (call : Call)
      (hhanded : .handed pings call.result success ∈ c.log) :
      Tallied cfg statics (events ++ [.window call]) earlier c
  | stop {events : List ProcessEvent} {earlier : List Ping} {c : Consumer}
      (h : Tallied cfg statics events earlier c) (monotonic : Time) (outcome outcome' : PgOutcome)
      (t : Time) : Tallied cfg statics (events ++ [.stop monotonic outcome outcome'])
        (earlier ++ messages c.log) { lastWindowFlush := t }
  | crash {events : List ProcessEvent} {earlier : List Ping} {c : Consumer}
      (h : Tallied cfg statics events earlier c) (t : Time) :
      Tallied cfg statics (events ++ [.crash]) (earlier ++ messages c.log)
        { lastWindowFlush := t }

variable {cfg : Settings} {statics : Set GtfsStaticData} {events : List ProcessEvent}
  {earlier : List Ping} {c : Consumer}

theorem callsOf_concat (events : List ProcessEvent) (e : ProcessEvent) :
    callsOf (events ++ [e]) = callsOf events ++ callsOf [e] :=
  List.filterMap_append

theorem Tallied.run {turns : List Turn} {c' : Consumer} (h : Tallied cfg statics events earlier c)
    (hstatics : ∀ turn ∈ turns, turn.static ∈ statics) (hrun : c.run cfg turns = some c') :
    Tallied cfg statics events earlier c' := by
  refine Consumer.run_induction hrun h ?_
  intro turn hmem c c' hc hstep
  exact hc.turn turn (hstatics turn hmem) hstep

/-- Along a run, the memory of the consumer and the windows of the hours say what messages said. -/
theorem Tallied.sourced (h : Tallied cfg statics events earlier c) :
    Sourced cfg.frames cfg.zone statics (earlier ++ messages c.log) c.ledger ∧
      ∀ call ∈ callsOf events,
        ResultSourced cfg.frames cfg.zone statics (earlier ++ messages c.log) call.result := by
  have hended {received : List Ping} {result : WindowResult}
      (hresult : ResultSourced cfg.frames cfg.zone statics received result) :
      ResultSourced cfg.frames cfg.zone statics (received ++ []) result := by
    rwa [List.append_nil]
  induction h with
  | start t => exact ⟨sourced_start t, fun call hcall ↦ absurd hcall List.not_mem_nil⟩
  | turn h turn hstatic hstep ih =>
    obtain ⟨hsourced, hkept⟩ := ih.1.turn hstatic hstep
    exact ⟨hsourced, fun call hcall ↦ (ih.2 call hcall).mono hkept⟩
  | window h call hhanded ih =>
    refine ⟨ih.1, fun call' hcall ↦ ?_⟩
    rw [callsOf_concat] at hcall
    rcases List.mem_append.mp hcall with hcall | hcall
    · exact ih.2 call' hcall
    · obtain rfl := List.mem_singleton.mp hcall
      exact ih.1.handed _ _ _ hhanded
  | stop h monotonic outcome outcome' t ih =>
    refine ⟨sourced_start t, fun call hcall ↦ hended (ih.2 call ?_)⟩
    rw [callsOf_concat] at hcall
    exact (List.mem_append.mp hcall).resolve_right List.not_mem_nil
  | crash h t ih =>
    refine ⟨sourced_start t, fun call hcall ↦ hended (ih.2 call ?_)⟩
    rw [callsOf_concat] at hcall
    exact (List.mem_append.mp hcall).resolve_right List.not_mem_nil

theorem mem_windowItems_deviation {result : WindowResult} {r : DeviationResult}
    (h : .deviation r ∈ windowItems result) : r ∈ result.newDeviations := by
  rw [windowItems, List.mem_append, List.mem_map, List.mem_map] at h
  rcases h with ⟨r', hr, heq⟩ | ⟨a, -, heq⟩
  · exact Item.deviation.inj heq ▸ hr
  · cases heq

theorem mem_windowItems_newBunching {result : WindowResult} {event : BunchingEvent}
    (h : .newBunching event ∈ windowItems result) :
    ∃ action, (action, event) ∈ result.bunchingActions := by
  rw [windowItems, List.mem_append, List.mem_map, List.mem_map] at h
  rcases h with ⟨r, -, heq⟩ | ⟨a, ha, heq⟩
  · cases heq
  · obtain rfl := Item.newBunching.inj heq
    exact ⟨a.1, (List.mem_filter.mp ha).1⟩

/-! ## The history -/

variable {py : Loader.Python} {reading : Reading} {interval : ℚ} {d₀ : Dir} {asked : List Remote}

/-- The deviation is one between a message and a row of a timetable. -/
def Timed (py : Loader.Python) (reading : Reading) (S : Dir → Prop) (zone : Zone)
    (received : List Ping) (r : DeviationResult) : Prop :=
  ∃ p ∈ received, ∃ scheduled, p.currentStatus = some "STOPPED_AT" ∧ p.vehicleId = r.vehicleId ∧
    p.tripId = some r.tripId ∧ p.currentStopSequence = some (r.stopSequence : ℚ) ∧
    p.timestampEastern = some r.actualAt ∧
    resolveScheduledDatetime zone r.actualAt scheduled = some r.scheduledAt ∧
    r.deviationSeconds = r.actualAt - r.scheduledAt ∧
    DueBy py reading S r.tripId r.stopSequence scheduled

theorem timed_of_arrived {zone : Zone} {received : List Ping} {r : DeviationResult}
    (h : Arrived zone statics received r)
    (hstatics : statics ⊆ Served py reading interval d₀ asked) :
    Timed py reading (Offered d₀ asked) zone received r := by
  obtain ⟨static, hstatic, p, hp, harrival⟩ := h.arrival
  obtain ⟨scheduled, hscheduled, hat⟩ := harrival.scheduledAt
  exact ⟨p, hp, scheduled, harrival.stopped, harrival.vehicleId, harrival.tripId,
    harrival.stopSequence, harrival.sent, hat, harrival.deviation,
    dueBy_of_served (hstatics hstatic) hscheduled⟩

theorem routed_of_arrived {zone : Zone} {received : List Ping} {r : DeviationResult}
    {route : String} (h : Arrived zone statics received r)
    (hstatics : statics ⊆ Served py reading interval d₀ asked)
    (hroute : (Item.deviation r).route = route) (hknown : route ≠ "unknown") :
    RoutedBy reading (Offered d₀ asked) r.tripId route := by
  rw [Item.route] at hroute
  cases hid : r.routeId with
  | none =>
    rw [hid] at hroute
    exact absurd hroute.symm hknown
  | some id =>
    rw [hid] at hroute
    dsimp only at hroute
    split_ifs at hroute
    · exact absurd hroute.symm hknown
    · subst hroute
      obtain ⟨static, hstatic, htrip⟩ := h.enriched.routeId id hid
      exact routedBy_of_served (hstatics hstatic) htrip

/-- The window of the bus of the Red Line. -/
def redLineWindow : WindowResult where
  bunchingActions := []
  newDeviations := [redLineArrival]
  totalRecords := 1
  matching := some ⟨1, 1, 0, 0, 0⟩

/-- It is taken in, and the process is stopped. -/
def redLineHour : List ProcessEvent :=
  [.window ⟨redLineWindow, seconds 60, 0, .committed⟩, .stop 0 .committed .committed]

def redLineRow : HourlyStats := ⟨"r1", 0, 60, 60, 1, 100, 0⟩

theorem processes_redLineHour : (processes redLineHour).table =
    Function.update (fun _ ↦ none) redLineRow.key (some redLineRow) := by
  have hrow : flushRoutes 0 (groupItems [.deviation redLineArrival]) = [redLineRow] := by
    decide +kernel
  have htable : (processes redLineHour).table = Table.upsert (fun _ ↦ none)
      (flushRoutes 0 (groupItems [.deviation redLineArrival])) := by
    rfl
  rw [htable, hrow]
  rfl

end GtfsStream.Api
