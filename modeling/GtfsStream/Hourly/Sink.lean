import GtfsStream.Hourly.Accumulator
import Mathlib.Logic.Function.Basic

/-!
# The rows on their way to PostgreSQL

`upsert_hourly_stats`, and the part of `main` that buffers the rows which could not be written and
tries them again. A statement and its commit take effect as a whole or not at all; what the caller
sees is the number of rows, or an exception. The process may also be told of a failure although the
commit took effect. What a failed `rollback` or `reconnect` leaves behind shows in how the next
statement ends.
-/

namespace GtfsStream.Hourly

open Analytics (WindowResult)

/-- The table: the row of a key. -/
abbrev Table := String × Time → Option HourlyStats

/-- How a statement and its commit end. -/
inductive PgOutcome
  | committed
  | failed
  | commitUnseen
  | raises
  deriving DecidableEq

/-- The rows in the table, each in the place of an earlier one of its key. -/
def Table.upsert (table : Table) (stats : List HourlyStats) : Table :=
  stats.foldl (fun table row ↦ Function.update table row.key (some row)) table

/-- The number of rows written, or none for an exception, and the table afterwards. -/
def upsertHourlyStats (table : Table) (stats : List HourlyStats) (outcome : PgOutcome) :
    Option ℕ × Table :=
  if stats.isEmpty then (some 0, table)
  else match outcome with
    | .committed => (some stats.length, table.upsert stats)
    | .failed => (some 0, table)
    | .commitUnseen => (some 0, table.upsert stats)
    | .raises => (none, table)

def pgRetryIntervalSeconds : ℕ := 60

/-- What `main` holds between two windows, and the table. -/
structure Sink where
  accumulator : HourlyAccumulator := {}
  pendingPgRows : List HourlyStats := []
  nextPgRetryAt : Time := 0
  table : Table := fun _ ↦ none

/-- One window that is handed over, with the readings of the two clocks and how a statement ends if
one is sent. -/
structure Call where
  result : WindowResult
  now : Time
  monotonic : Time
  outcome : PgOutcome

namespace Sink

variable (s : Sink)

def flushPendingPgRows (force : Bool) (now : Time) (outcome : PgOutcome) : Sink :=
  if s.pendingPgRows.isEmpty then s
  else if !force ∧ now < s.nextPgRetryAt then s
  else
    let upserted := upsertHourlyStats s.table s.pendingPgRows outcome
    let written := upserted.1.getD 0
    if written = s.pendingPgRows.length then
      { s with pendingPgRows := [], nextPgRetryAt := 0, table := upserted.2 }
    else
      { s with nextPgRetryAt := now + seconds pgRetryIntervalSeconds, table := upserted.2 }

/-- The accumulator takes the window in, and the rows of an hour that is over are buffered. -/
def absorb (call : Call) : Sink :=
  let flushed := (s.accumulator.accumulate call.result).maybeFlush call.now
  { s with
    accumulator := flushed.2
    pendingPgRows := s.pendingPgRows ++ flushed.1.getD [] }

/-- Whether the window ends an hour that has rows. -/
def endsHour (call : Call) : Bool :=
  !(((s.accumulator.accumulate call.result).maybeFlush call.now).1.getD []).isEmpty

/-- What `on_window_result` does beside the live store: rows of an hour that is over are sent at
once, otherwise what is buffered is tried again when its time has come. -/
def onWindowResult (call : Call) : Sink :=
  (s.absorb call).flushPendingPgRows (s.endsHour call) call.monotonic call.outcome

/-- The end of `main`. The last statement is sent only if rows are still buffered. -/
def shutdown (monotonic : Time) (outcome outcome' : PgOutcome) : Sink :=
  let flushed := s.accumulator.flushRemaining
  let buffered := { s with
    accumulator := flushed.2
    pendingPgRows := s.pendingPgRows ++ flushed.1.getD [] }
  (buffered.flushPendingPgRows true monotonic outcome).flushPendingPgRows true monotonic outcome'

end Sink

end GtfsStream.Hourly
