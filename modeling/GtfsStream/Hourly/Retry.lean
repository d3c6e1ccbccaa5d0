import GtfsStream.Analytics.DeviationVolume
import GtfsStream.Hourly.AccumulatorSpec
import GtfsStream.Hourly.Sink

/-!
# No row is lost on the way to PostgreSQL

Whatever fails between two windows, a row that the accumulator made is in the table or still
buffered, and every deviation and every "new" bunching action went into exactly one row or is still
in the accumulator.

## The invariant

The hours of the rows are in the past of the current hour, because the clock does not go back: so a
later flush makes rows of other keys, and the rows made so far have one key each. The buffered rows
are some of them. A statement therefore names no row twice, and a row that it finds in the table is
one that was there before the process began or the row itself.
-/

namespace GtfsStream.Hourly

open Analytics (DeviationResult WindowResult bulkWrite bulkWrite_map)

/-- The sink, and the rows that its accumulator has made so far. -/
structure Traced where
  sink : Sink
  produced : List HourlyStats := []

namespace Traced

def absorb (t : Traced) (call : Call) : Traced where
  sink := t.sink.absorb call
  produced := t.produced ++
    ((t.sink.accumulator.accumulate call.result).maybeFlush call.now).1.getD []

def attempt (t : Traced) (force : Bool) (now : Time) (outcome : PgOutcome) : Traced :=
  { t with sink := t.sink.flushPendingPgRows force now outcome }

def onWindowResult (t : Traced) (call : Call) : Traced :=
  (t.absorb call).attempt (t.sink.endsHour call) call.monotonic call.outcome

/-- A process that begins with the table it finds. -/
def run (table : Table) (calls : List Call) : Traced :=
  calls.foldl onWindowResult { sink := { table := table } }

theorem sink_run (table : Table) (calls : List Call) :
    (run table calls).sink = calls.foldl Sink.onWindowResult { table := table } := by
  induction calls using List.reverseRecOn with
  | nil => rfl
  | append_singleton calls call ih =>
    rw [List.foldl_append, ← ih, run, List.foldl_append]
    rfl

end Traced

/-- The row is computed from these items, which are all of its route. -/
def Aggregates (row : HourlyStats) (own : List Item) : Prop :=
  own ≠ [] ∧ (∀ i ∈ own, i.route = row.routeId) ∧
    row = routeStats row.hour row.routeId (itemsData own)

/-- Nothing of these items is lost or mixed up. -/
structure Conserved (table : Table) (items : List Item) (t : Traced) : Prop where
  /-- A row that was made is in the table or buffered. -/
  kept : ∀ row ∈ t.produced, t.sink.table row.key = some row ∨ row ∈ t.sink.pendingPgRows
  /-- Every item is in one row or in the accumulator. -/
  contributes : ∃ owns opened, List.Forall₂ Aggregates t.produced owns ∧
    t.sink.accumulator.routeData = groupItems opened ∧ items.Perm (owns.flatten ++ opened)
  /-- No two rows have one key. -/
  distinct : (t.produced.map HourlyStats.key).Nodup
  /-- What is buffered are rows that were made, none of them twice. -/
  pending : t.sink.pendingPgRows.Sublist t.produced
  /-- Only rows that were made replace what the process found. -/
  replaced : ∀ key, t.sink.table key = table key ∨
    ∃ row ∈ t.produced, row.key = key ∧ t.sink.table key = some row

/-- The items of some calls. -/
def callItems (calls : List Call) : List Item := calls.flatMap fun call ↦ windowItems call.result

variable {table : Table} {items : List Item} {t : Traced} {calls : List Call} {call : Call}
  {rows : List HourlyStats} {row : HourlyStats} {key : String × Time}

/-! ## Statements -/

theorem upsert_apply (table : Table) (rows : List HourlyStats) (key : String × Time) :
    table.upsert rows key = ((rows.filter (·.key = key)).getLast?).or (table key) := by
  have hwrite : table.upsert rows = bulkWrite (fun _ row ↦ row) table
      (rows.map fun row ↦ (row.key, row)) := by
    rw [bulkWrite, List.foldl_map]
    rfl
  have hlast := @bulkWrite_map _ _ _ _ (fun _ row ↦ row) id (fun _ _ ↦ rfl) table
    (rows.map fun row ↦ (row.key, row)) key
  rw [Option.map_id_fun, id, id, List.filter_map, List.getLast?_map, Option.map_map] at hlast
  rw [hwrite, hlast]
  congr 1
  exact Option.map_id_fun ▸ rfl

theorem upsert_cases (table : Table) (rows : List HourlyStats) (key : String × Time) :
    table.upsert rows key = table key ∨
      ∃ row ∈ rows, row.key = key ∧ table.upsert rows key = some row := by
  rw [upsert_apply]
  generalize hlast : (rows.filter _).getLast? = last
  cases last with
  | none => exact Or.inl rfl
  | some row =>
    obtain ⟨hmem, hkey⟩ := List.mem_filter.mp (List.mem_of_getLast? hlast)
    exact Or.inr ⟨row, hmem, of_decide_eq_true hkey, rfl⟩

theorem eq_of_key_eq (h : (rows.map HourlyStats.key).Nodup) {row' : HourlyStats} (hrow : row ∈ rows)
    (hrow' : row' ∈ rows) (hkey : row.key = row'.key) : row = row' :=
  List.inj_on_of_nodup_map h hrow hrow' hkey

/-- After a statement with the buffered rows, every row is in the table. -/
theorem Conserved.upsert (h : Conserved table items t) (hrow : row ∈ t.produced) :
    t.sink.table.upsert t.sink.pendingPgRows row.key = some row := by
  rw [upsert_apply]
  generalize hlast : (t.sink.pendingPgRows.filter _).getLast? = last
  cases last with
  | none =>
    rw [Option.none_or]
    refine (h.kept row hrow).resolve_right fun hpending ↦ ?_
    rw [List.getLast?_eq_none_iff] at hlast
    exact absurd (List.mem_filter.mpr ⟨hpending, decide_eq_true rfl⟩)
      (hlast ▸ List.not_mem_nil)
  | some last =>
    obtain ⟨hmem, hkey⟩ := List.mem_filter.mp (List.mem_of_getLast? hlast)
    have hsame := eq_of_key_eq h.distinct (h.pending.subset hmem) hrow (of_decide_eq_true hkey)
    rw [hsame, Option.some_or]

/-! ## An attempt -/

/-- What an attempt can do: it leaves the table alone or sends the buffered rows, and it empties the
buffer only in the second case. -/
theorem flushPendingPgRows_cases (s : Sink) (force : Bool) (now : Time) (outcome : PgOutcome) :
    let s' := s.flushPendingPgRows force now outcome
    s'.accumulator = s.accumulator ∧
      ((s'.pendingPgRows = s.pendingPgRows ∧
          (s'.table = s.table ∨ s'.table = s.table.upsert s.pendingPgRows)) ∨
        s'.pendingPgRows = [] ∧ s'.table = s.table.upsert s.pendingPgRows) := by
  unfold Sink.flushPendingPgRows upsertHourlyStats
  by_cases hempty : s.pendingPgRows.isEmpty
  · rw [if_pos hempty]
    exact ⟨rfl, Or.inl ⟨rfl, Or.inl rfl⟩⟩
  have hlength : s.pendingPgRows.length ≠ 0 :=
    fun h ↦ hempty (List.isEmpty_iff_length_eq_zero.mpr h)
  rw [if_neg hempty]
  by_cases hearly : !force ∧ now < s.nextPgRetryAt
  · rw [if_pos hearly]
    exact ⟨rfl, Or.inl ⟨rfl, Or.inl rfl⟩⟩
  rw [if_neg hearly, if_neg hempty]
  cases outcome with
  | committed =>
    dsimp only
    rw [Option.getD_some, if_pos rfl]
    exact ⟨rfl, Or.inr ⟨rfl, rfl⟩⟩
  | failed =>
    dsimp only
    rw [Option.getD_some, if_neg hlength.symm]
    exact ⟨rfl, Or.inl ⟨rfl, Or.inl rfl⟩⟩
  | commitUnseen =>
    dsimp only
    rw [Option.getD_some, if_neg hlength.symm]
    exact ⟨rfl, Or.inl ⟨rfl, Or.inr rfl⟩⟩
  | raises =>
    dsimp only
    rw [Option.getD_none, if_neg hlength.symm]
    exact ⟨rfl, Or.inl ⟨rfl, Or.inl rfl⟩⟩

theorem Conserved.attempt (h : Conserved table items t) (force : Bool) (now : Time)
    (outcome : PgOutcome) : Conserved table items (t.attempt force now outcome) := by
  obtain ⟨haccumulator, hcases⟩ := flushPendingPgRows_cases t.sink force now outcome
  obtain ⟨owns, opened, haggregates, hdata, hperm⟩ := h.contributes
  have hreplaced (key : String × Time) :
      t.sink.table.upsert t.sink.pendingPgRows key = table key ∨ ∃ row ∈ t.produced, row.key = key ∧
        t.sink.table.upsert t.sink.pendingPgRows key = some row := by
    rcases upsert_cases t.sink.table t.sink.pendingPgRows key with hsame | ⟨row, hmem, hrow⟩
    · rw [hsame]
      exact h.replaced key
    · exact Or.inr ⟨row, h.pending.subset hmem, hrow⟩
  refine ⟨fun row hrow ↦ ?_, ⟨owns, opened, haggregates, ?_, hperm⟩, h.distinct, ?_, fun key ↦ ?_⟩
  · rcases hcases with ⟨hpending, htable | htable⟩ | ⟨-, htable⟩
    · rw [Traced.attempt, htable, hpending]
      exact h.kept row hrow
    · rw [Traced.attempt, htable]
      exact Or.inl (h.upsert hrow)
    · rw [Traced.attempt, htable]
      exact Or.inl (h.upsert hrow)
  · rw [Traced.attempt, haccumulator]
    exact hdata
  · rcases hcases with ⟨hpending, -⟩ | ⟨hpending, -⟩
    · rw [Traced.attempt, hpending]
      exact h.pending
    · rw [Traced.attempt, hpending]
      exact List.nil_sublist _
  · rcases hcases with ⟨-, htable | htable⟩ | ⟨-, htable⟩
    · rw [Traced.attempt, htable]
      exact h.replaced key
    · rw [Traced.attempt, htable]
      exact hreplaced key
    · rw [Traced.attempt, htable]
      exact hreplaced key

/-! ## A window -/

theorem hourOf_mono {s t : Time} (h : s ≤ t) : hourOf s ≤ hourOf t := by
  have hall (a b : ℤ) (hab : a ≤ b) : a - a % 3600000000 ≤ b - b % 3600000000 := by omega
  exact hall s t h

theorem flushRoutes_aggregates (hour : Time) (opened : List Item) :
    ∃ owns, List.Forall₂ Aggregates (flushRoutes hour (groupItems opened)) owns ∧
      opened.Perm owns.flatten := by
  refine ⟨(routesOf opened).map fun route ↦ itemsOf route opened, ?_, ?_⟩
  · rw [flushRoutes_groupItems, List.forall₂_map_left_iff, List.forall₂_map_right_iff,
      List.forall₂_same]
    intro route hroute
    refine ⟨mem_routesOf.mp hroute, fun i hi ↦ ?_, rfl⟩
    exact of_decide_eq_true (List.mem_filter.mp hi).2
  · have hperm := @Grouping.perm_group _ _ _ _ Item.route {} RouteData.add opened
    rwa [List.flatMap_def] at hperm

/-- What holds between two windows. -/
structure Invariant (table : Table) (calls : List Call) (t : Traced) : Prop where
  conserved : Conserved table (callItems calls) t
  current : t.sink.accumulator.currentHour = calls.getLast?.map fun call ↦ hourOf call.now
  earlier : ∀ row ∈ t.produced, ∃ last, calls.getLast? = some last ∧ row.hour < hourOf last.now

theorem callItems_concat (calls : List Call) (call : Call) :
    callItems (calls ++ [call]) = callItems calls ++ windowItems call.result := by
  rw [callItems, List.flatMap_append, List.flatMap_singleton]
  rfl

theorem Invariant.absorb_of_same (h : Invariant table calls t)
    (hsame : ∀ last, calls.getLast? = some last → hourOf call.now = hourOf last.now) :
    Invariant table (calls ++ [call]) (t.absorb call) := by
  obtain ⟨⟨hkept, ⟨owns, opened, haggregates, hdata, hperm⟩, hdistinct, hpending, hreplaced⟩,
    hcurrent, hearlier⟩ := h
  have haccumulate := accumulate_routeData hdata call.result
  have hflush : (t.sink.accumulator.accumulate call.result).maybeFlush call.now =
      (none, { currentHour := some (hourOf call.now)
               routeData := groupItems (opened ++ windowItems call.result) }) := by
    have hhour : (t.sink.accumulator.accumulate call.result).currentHour =
      calls.getLast?.map fun call ↦ hourOf call.now := hcurrent
    rw [HourlyAccumulator.maybeFlush, hhour]
    cases hlast : calls.getLast? with
    | none => rw [Option.map_none, ← haccumulate]
    | some last =>
      rw [hlast] at hhour
      rw [Option.map_some]
      dsimp only
      rw [if_pos (hsame last hlast), hsame last hlast, ← haccumulate]
      exact congrArg (Prod.mk none) (HourlyAccumulator.ext hhour rfl)
  have habsorb : t.absorb call = { t with sink := { t.sink with
      accumulator := { currentHour := some (hourOf call.now)
                       routeData := groupItems (opened ++ windowItems call.result) } } } := by
    rw [Traced.absorb, Sink.absorb, hflush, Option.getD_none, List.append_nil, List.append_nil]
  rw [habsorb]
  refine ⟨⟨hkept, ⟨owns, opened ++ windowItems call.result, haggregates, rfl, ?_⟩, hdistinct,
    hpending, hreplaced⟩, ?_, fun row hrow ↦ ?_⟩
  · rw [callItems_concat, ← List.append_assoc]
    exact hperm.append_right _
  · rw [List.getLast?_concat, Option.map_some]
  · obtain ⟨last, hlast, hlt⟩ := hearlier row hrow
    refine ⟨call, List.getLast?_concat, ?_⟩
    rwa [hsame last hlast]

theorem Invariant.absorb_of_later (h : Invariant table calls t) {last : Call}
    (hlast : calls.getLast? = some last) (hlt : hourOf last.now < hourOf call.now) :
    Invariant table (calls ++ [call]) (t.absorb call) := by
  obtain ⟨⟨hkept, ⟨owns, opened, haggregates, hdata, hperm⟩, hdistinct, hpending, hreplaced⟩,
    hcurrent, hearlier⟩ := h
  have haccumulate := accumulate_routeData hdata call.result
  generalize hitems : opened ++ windowItems call.result = closing at haccumulate
  obtain ⟨own, hown, hownPerm⟩ := flushRoutes_aggregates (hourOf last.now) closing
  have hnodup := nodup_flushRoutes (hourOf last.now) closing
  have hhours : ∀ row ∈ flushRoutes (hourOf last.now) (groupItems closing),
      row.hour = hourOf last.now := by
    intro row hrow
    rw [flushRoutes_groupItems] at hrow
    obtain ⟨route, -, rfl⟩ := List.mem_map.mp hrow
    rfl
  -- the window itself still belongs to the hour that it closes
  have hflush : (t.sink.accumulator.accumulate call.result).maybeFlush call.now =
      (some (flushRoutes (hourOf last.now) (groupItems closing)),
        { currentHour := some (hourOf call.now) }) := by
    have hhour : (t.sink.accumulator.accumulate call.result).currentHour =
        some (hourOf last.now) := hcurrent.trans (by rw [hlast, Option.map_some])
    rw [HourlyAccumulator.maybeFlush, hhour]
    dsimp only
    rw [if_neg hlt.ne', haccumulate]
  have habsorb : t.absorb call =
      { sink := { t.sink with
          accumulator := { currentHour := some (hourOf call.now) }
          pendingPgRows := t.sink.pendingPgRows ++
            flushRoutes (hourOf last.now) (groupItems closing) }
        produced := t.produced ++ flushRoutes (hourOf last.now) (groupItems closing) } := by
    rw [Traced.absorb, Sink.absorb, hflush, Option.getD_some]
  rw [habsorb]
  refine ⟨⟨fun row hrow ↦ ?_, ⟨owns ++ own, [], List.rel_append haggregates hown, rfl, ?_⟩, ?_,
    hpending.append (List.Sublist.refl _), fun key ↦ ?_⟩, ?_, fun row hrow ↦ ?_⟩
  · rcases List.mem_append.mp hrow with hrow | hrow
    · exact (hkept row hrow).imp_right (List.mem_append_left _)
    · exact Or.inr (List.mem_append_right _ hrow)
  · rw [callItems_concat, List.append_nil, List.flatten_append]
    refine (hperm.append_right _).trans ?_
    rw [List.append_assoc, hitems]
    exact hownPerm.append_left _
  · -- the rows of the closed hour are of another hour than the earlier ones
    rw [List.map_append, List.nodup_append]
    refine ⟨hdistinct, hnodup, ?_⟩
    rintro key hkey key' hkey' rfl
    obtain ⟨row, hrow, hrowKey⟩ := List.mem_map.mp hkey
    obtain ⟨row', hrow', hrowKey'⟩ := List.mem_map.mp hkey'
    obtain ⟨last', hlast', hbefore⟩ := hearlier row hrow
    rw [hlast] at hlast'
    rw [← Option.some.inj hlast', ← hhours row' hrow'] at hbefore
    exact absurd (congrArg Prod.snd (hrowKey.trans hrowKey'.symm)) hbefore.ne
  · refine (hreplaced key).imp_right ?_
    rintro ⟨row, hrow, hrowKey⟩
    exact ⟨row, List.mem_append_left _ hrow, hrowKey⟩
  · rw [List.getLast?_concat, Option.map_some]
  · refine ⟨call, List.getLast?_concat, ?_⟩
    rcases List.mem_append.mp hrow with hrow | hrow
    · obtain ⟨last', hlast', hbefore⟩ := hearlier row hrow
      rw [hlast] at hlast'
      rw [← Option.some.inj hlast'] at hbefore
      exact hbefore.trans hlt
    · rw [hhours row hrow]
      exact hlt

theorem Invariant.absorb (h : Invariant table calls t)
    (horder : (calls ++ [call]).Pairwise (·.now ≤ ·.now)) :
    Invariant table (calls ++ [call]) (t.absorb call) := by
  by_cases hsame : ∀ last, calls.getLast? = some last → hourOf call.now = hourOf last.now
  · exact h.absorb_of_same hsame
  · push Not at hsame
    obtain ⟨last, hlast, hne⟩ := hsame
    have hle : last.now ≤ call.now := (List.pairwise_append.mp horder).2.2 last
      (List.mem_of_getLast? hlast) call (List.mem_singleton_self call)
    exact h.absorb_of_later hlast (lt_of_le_of_ne (hourOf_mono hle) hne.symm)

theorem invariant_run (horder : calls.Pairwise (·.now ≤ ·.now)) :
    Invariant table calls (Traced.run table calls) := by
  induction calls using List.reverseRecOn with
  | nil =>
    refine ⟨⟨nofun, ⟨[], [], List.Forall₂.nil, rfl, List.Perm.refl _⟩, List.nodup_nil,
      List.Sublist.refl _, fun key ↦ Or.inl rfl⟩, rfl, nofun⟩
  | append_singleton calls call ih =>
    have habsorb := (ih (List.pairwise_append.mp horder).1).absorb horder
    have hstep : Traced.run table (calls ++ [call]) =
        (Traced.run table calls).onWindowResult call := by
      rw [Traced.run, List.foldl_append]
      rfl
    rw [hstep, Traced.onWindowResult]
    refine ⟨habsorb.conserved.attempt _ _ _, ?_, habsorb.earlier⟩
    rw [Traced.attempt, (flushPendingPgRows_cases _ _ _ _).1]
    exact habsorb.current

/-- **The retry path neither loses nor mixes rows.** After any sequence of windows under a clock
that does not go back, whatever became of the statements, and also when the rows of an hour that is
over have been buffered and not been sent yet. -/
theorem conserved_run (table : Table) (calls : List Call)
    (horder : calls.Pairwise (·.now ≤ ·.now)) :
    Conserved table (callItems calls) (Traced.run table calls) ∧
      ∀ call, (calls ++ [call]).Pairwise (·.now ≤ ·.now) →
        Conserved table (callItems (calls ++ [call])) ((Traced.run table calls).absorb call) := by
  have hinvariant := (invariant_run horder : Invariant table calls _)
  exact ⟨hinvariant.conserved, fun call hcall ↦ (hinvariant.absorb hcall).conserved⟩

/-- An hour with one arrival. Its row cannot be written when the hour is over, and is written two
minutes later. -/
def retriedHour : List Call :=
  let arrival : DeviationResult :=
    { vehicleId := "V", tripId := "T", stopSequence := 1, kind := .arrival, scheduledAt := 0
      actualAt := minutes 1, deviationSeconds := minutes 1, routeId := some "R" }
  let window (deviations : List DeviationResult) : WindowResult :=
    { bunchingActions := [], newDeviations := deviations
      totalRecords := deviations.length, matching := none }
  [⟨window [arrival], minutes 1, 0, .committed⟩, ⟨window [], hours 1, 0, .failed⟩,
    ⟨window [], hours 1 + minutes 2, minutes 2, .committed⟩]

theorem conserved_retriedHour :
    Conserved (fun _ ↦ none) (callItems retriedHour) (Traced.run (fun _ ↦ none) retriedHour) :=
  (conserved_run _ retriedHour (by decide)).1

end GtfsStream.Hourly
