import GtfsStream.Hourly.Retry

/-!
# What any run of processes leaves in the table

Processes follow each other over one table. Each takes windows in and is stopped or crashes, and
every statement ends in any way. A window counts for the hour that was current when it was handed
over, so the one that ends an hour still counts for it, and the first one of a process begins its
own. A row of the table is then computed from items of its route, and each of them comes from a
window that counts for the hour of the row.
-/

namespace GtfsStream.Hourly

/-- What happens to a process: a window is handed over, or it is stopped or crashes and the next one
begins. -/
inductive ProcessEvent
  | window (call : Call)
  | stop (monotonic : Time) (outcome outcome' : PgOutcome)
  | crash

def Sink.process (s : Sink) : ProcessEvent → Sink
  | .window call => s.onWindowResult call
  | .stop monotonic outcome outcome' => { table := (s.shutdown monotonic outcome outcome').table }
  | .crash => { table := s.table }

/-- The processes after some events, from an empty table. -/
def processes (events : List ProcessEvent) : Sink := events.foldl Sink.process {}

/-- The windows that were handed over. -/
def callsOf (events : List ProcessEvent) : List Call :=
  events.filterMap fun e ↦ match e with
    | .window call => some call
    | _ => none

/-- The hour that is current between two events: that of the last window, unless the process has
ended since. -/
def hourAfter (events : List ProcessEvent) : Option Time :=
  match events.getLast? with
  | some (.window call) => some (hourOf call.now)
  | _ => none

/-- The item comes from a window that counts for the hour: it was current when the window was handed
over, or the window is the first one of its process and begins it. -/
def BroughtIn (events : List ProcessEvent) (hour : Time) (i : Item) : Prop :=
  ∃ before call after, events = before ++ .window call :: after ∧
    (hourAfter before).getD (hourOf call.now) = hour ∧ i ∈ windowItems call.result

/-- The row is computed from items of windows that count for its hour, which are all of its
route. -/
def MadeOf (events : List ProcessEvent) (row : HourlyStats) : Prop :=
  ∃ own, Aggregates row own ∧ ∀ i ∈ own, BroughtIn events row.hour i

/-- What holds of the processes between two events. -/
structure Kept (events : List ProcessEvent) (s : Sink) : Prop where
  table : ∀ key row, s.table key = some row → row.key = key ∧ MadeOf events row
  pending : ∀ row ∈ s.pendingPgRows, MadeOf events row
  hour : s.accumulator.currentHour = hourAfter events
  data : ∃ opened, s.accumulator.routeData = groupItems opened ∧
    ∀ i ∈ opened, ∃ hour, hourAfter events = some hour ∧ BroughtIn events hour i

variable {events : List ProcessEvent} {s : Sink} {row : HourlyStats} {hour : Time} {i : Item}

theorem BroughtIn.concat (h : BroughtIn events hour i) (e : ProcessEvent) :
    BroughtIn (events ++ [e]) hour i := by
  obtain ⟨before, call, after, rfl, hhour, hi⟩ := h
  exact ⟨before, call, after ++ [e], List.append_assoc _ _ _, hhour, hi⟩

theorem MadeOf.concat (h : MadeOf events row) (e : ProcessEvent) : MadeOf (events ++ [e]) row := by
  obtain ⟨own, hown, hbrought⟩ := h
  exact ⟨own, hown, fun i hi ↦ (hbrought i hi).concat e⟩

theorem hourAfter_window (events : List ProcessEvent) (call : Call) :
    hourAfter (events ++ [.window call]) = some (hourOf call.now) := by
  rw [hourAfter, List.getLast?_concat]

theorem mem_callsOf (before after : List ProcessEvent) (call : Call) :
    call ∈ callsOf (before ++ .window call :: after) :=
  List.mem_filterMap.mpr ⟨.window call, List.mem_append_right _ List.mem_cons_self, rfl⟩

theorem BroughtIn.mem_windowItems (h : BroughtIn events hour i) :
    ∃ call ∈ callsOf events, i ∈ windowItems call.result := by
  obtain ⟨before, call, after, rfl, -, hi⟩ := h
  exact ⟨call, mem_callsOf before after call, hi⟩

theorem madeOf_of_mem_flush {opened : List Item}
    (hbrought : ∀ i ∈ opened, BroughtIn events hour i)
    (hrow : row ∈ flushRoutes hour (groupItems opened)) : MadeOf events row := by
  rw [flushRoutes_groupItems] at hrow
  obtain ⟨route, hroute, rfl⟩ := List.mem_map.mp hrow
  refine ⟨itemsOf route opened, ⟨mem_routesOf.mp hroute, fun i hi ↦ ?_, rfl⟩, fun i hi ↦ ?_⟩
  · exact of_decide_eq_true (List.mem_filter.mp hi).2
  · exact hbrought i (List.mem_filter.mp hi).1

theorem Kept.flushPendingPgRows (h : Kept events s) (force : Bool) (now : Time)
    (outcome : PgOutcome) : Kept events (s.flushPendingPgRows force now outcome) := by
  obtain ⟨haccumulator, hcases⟩ := flushPendingPgRows_cases s force now outcome
  have hupsert (key : String × Time) (row : HourlyStats)
      (hrow : s.table.upsert s.pendingPgRows key = some row) :
      row.key = key ∧ MadeOf events row := by
    rcases upsert_cases s.table s.pendingPgRows key with hsame | ⟨row', hmem, hkey, hnew⟩
    · exact h.table key row (hsame ▸ hrow)
    · rw [hnew, Option.some.injEq] at hrow
      exact hrow ▸ ⟨hkey, h.pending row' hmem⟩
  constructor
  · intro key row hrow
    rcases hcases with ⟨-, htable | htable⟩ | ⟨-, htable⟩
    · exact h.table key row (htable ▸ hrow)
    · exact hupsert key row (htable ▸ hrow)
    · exact hupsert key row (htable ▸ hrow)
  · intro row hrow
    rcases hcases with ⟨hpending, -⟩ | ⟨hpending, -⟩
    · exact h.pending row (hpending ▸ hrow)
    · rw [hpending] at hrow
      exact absurd hrow List.not_mem_nil
  · rw [haccumulator]
    exact h.hour
  · rw [haccumulator]
    exact h.data

theorem Kept.absorb (h : Kept events s) (call : Call) :
    Kept (events ++ [.window call]) (s.absorb call) := by
  obtain ⟨opened, hdata, hopened⟩ := h.data
  have htable (key : String × Time) (row : HourlyStats) (hrow : s.table key = some row) :
      row.key = key ∧ MadeOf (events ++ [.window call]) row :=
    ⟨(h.table key row hrow).1, (h.table key row hrow).2.concat _⟩
  have hpending (row : HourlyStats) (hrow : row ∈ s.pendingPgRows) :
      MadeOf (events ++ [.window call]) row := (h.pending row hrow).concat _
  have haccumulated := accumulate_routeData hdata call.result
  have hcurrent : (s.accumulator.accumulate call.result).currentHour = hourAfter events := h.hour
  -- the window and what was there before it count for the same hour
  have hbrought (i : Item) (hi : i ∈ opened ++ windowItems call.result) :
      BroughtIn (events ++ [.window call]) ((hourAfter events).getD (hourOf call.now)) i := by
    rcases List.mem_append.mp hi with hi | hi
    · obtain ⟨hour, hhour, hbefore⟩ := hopened i hi
      rw [hhour, Option.getD_some]
      exact hbefore.concat _
    · exact ⟨events, call, [], rfl, rfl, hi⟩
  rw [Sink.absorb, HourlyAccumulator.maybeFlush, hcurrent]
  -- the first window of a process, one in the current hour, or one that ends it
  cases hhour : hourAfter events with
  | none =>
    rw [hhour, Option.getD_none] at hbrought
    refine ⟨htable, ?_, (hourAfter_window events call).symm, _, haccumulated, fun i hi ↦ ?_⟩
    · dsimp only
      rw [Option.getD_none, List.append_nil]
      exact hpending
    · exact ⟨_, hourAfter_window events call, hbrought i hi⟩
  | some hour =>
    rw [hhour, Option.getD_some] at hbrought
    dsimp only
    split_ifs with hsame
    · refine ⟨htable, ?_, ?_, _, haccumulated, fun i hi ↦ ?_⟩
      · dsimp only
        rw [Option.getD_none, List.append_nil]
        exact hpending
      · rw [hourAfter_window, hsame, ← hhour]
        exact h.hour
      · rw [hourAfter_window, hsame]
        exact ⟨hour, rfl, hbrought i hi⟩
    · refine ⟨htable, fun row hrow ↦ ?_, (hourAfter_window events call).symm, [], rfl, ?_⟩
      · rcases List.mem_append.mp hrow with hrow | hrow
        · exact hpending row hrow
        · rw [Option.getD_some, haccumulated] at hrow
          exact madeOf_of_mem_flush hbrought hrow
      · exact fun i hi ↦ absurd hi List.not_mem_nil

theorem Kept.shutdown (h : Kept events s) (monotonic : Time) (outcome outcome' : PgOutcome) :
    Kept events (s.shutdown monotonic outcome outcome') := by
  obtain ⟨opened, hdata, hopened⟩ := h.data
  rw [Sink.shutdown]
  refine Kept.flushPendingPgRows (Kept.flushPendingPgRows ?_ _ _ _) _ _ _
  rw [HourlyAccumulator.flushRemaining, h.hour]
  cases hhour : hourAfter events with
  | none =>
    dsimp only
    rw [Option.getD_none, List.append_nil]
    exact h
  | some hour =>
    dsimp only
    split_ifs with hempty
    · dsimp only
      rw [Option.getD_none, List.append_nil]
      exact h
    · refine ⟨h.table, fun row hrow ↦ ?_, hhour.symm, [], rfl, ?_⟩
      swap
      · exact fun i hi ↦ absurd hi List.not_mem_nil
      rcases List.mem_append.mp hrow with hrow | hrow
      · exact h.pending row hrow
      · rw [Option.getD_some, hdata] at hrow
        refine madeOf_of_mem_flush (fun i hi ↦ ?_) hrow
        obtain ⟨hour', hhour', hbefore⟩ := hopened i hi
        rw [← Option.some.inj (hhour.symm.trans hhour')] at hbefore
        exact hbefore

/-- A process begins with the table of the one before it, and with nothing else. -/
theorem Kept.begin (h : Kept events s) {e : ProcessEvent}
    (hends : hourAfter (events ++ [e]) = none) : Kept (events ++ [e]) { table := s.table } where
  table key row hrow := ⟨(h.table key row hrow).1, (h.table key row hrow).2.concat e⟩
  pending _ hrow := absurd hrow List.not_mem_nil
  hour := hends.symm
  data := ⟨[], rfl, fun _ hi ↦ absurd hi List.not_mem_nil⟩

/-- **Every row is made of what was brought for its hour**, whatever happened to the processes and
to their statements. -/
theorem processes_kept (events : List ProcessEvent) : Kept events (processes events) := by
  induction events using List.reverseRecOn with
  | nil => exact ⟨nofun, nofun, rfl, [], rfl, fun _ hi ↦ absurd hi List.not_mem_nil⟩
  | append_singleton events e ih =>
    have hstep : processes (events ++ [e]) = (processes events).process e := by
      rw [processes, List.foldl_append]
      rfl
    rw [hstep]
    cases e with
    | window call => exact (ih.absorb call).flushPendingPgRows _ _ _
    | stop monotonic outcome outcome' =>
      exact (ih.shutdown monotonic outcome outcome').begin (by rw [hourAfter, List.getLast?_concat])
    | crash => exact ih.begin (by rw [hourAfter, List.getLast?_concat])

end GtfsStream.Hourly
