import Mathlib.Algebra.Order.Ring.Int

/-!
# Times

Microseconds since the epoch, in UTC, and the lengths of time that are measured in them.
-/

namespace GtfsStream

/-- Microseconds since the epoch, in UTC. -/
abbrev Time := ℤ

def seconds (n : ℕ) : Time := n * 1000000

def minutes (n : ℕ) : Time := seconds (60 * n)

def hours (n : ℕ) : Time := minutes (60 * n)

theorem seconds_pos {n : ℕ} (h : 0 < n) : 0 < seconds n :=
  mul_pos (Int.natCast_pos.mpr h) (by decide)

end GtfsStream
