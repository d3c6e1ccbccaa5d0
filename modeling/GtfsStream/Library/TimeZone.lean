import Mathlib.Algebra.Order.Group.Unbundled.Abs
import Mathlib.Algebra.Order.Ring.Int
import Mathlib.Data.List.Pairwise
import Mathlib.Tactic.Linarith

/-!
# Time zones

The local time of an instant is the instant plus the offset that the zone has at that instant; both
are numbers of milliseconds. The offset changes at the transitions of the zone. A transition to a
larger offset skips local times, and one to a smaller offset repeats them: local times of either
kind are converted with the offset before the transition.

If no transition changes the offset by more than an hour, local time is ahead of the converted one
by an hour at most, and never falls back by more than an hour; so local times that are more than
two hours apart are converted in their order.
-/

namespace GtfsStream

def millisPerHour : ℤ := 3600000

/-- The offset in the beginning, and the instants of the transitions with the offsets from there on,
at least an hour apart. -/
structure TimeZone where
  initial : ℤ
  transitions : List (ℤ × ℤ)
  spaced : transitions.Pairwise fun p q ↦ p.1 + millisPerHour ≤ q.1

namespace TimeZone

/-- The offset at an instant, where `b` is the offset before the transitions. -/
def offsetFrom (b : ℤ) : List (ℤ × ℤ) → ℤ → ℤ
  | [], _ => b
  | (start, a) :: rest, u => if u < start then b else offsetFrom a rest u

/-- The instant of a local time: it is before a transition if the local time is smaller than both
local times at the transition, or is repeated or skipped by it. -/
def utcFrom (b : ℤ) : List (ℤ × ℤ) → ℤ → ℤ
  | [], t => t - b
  | (start, a) :: rest, t => if t < start + max b a then t - b else utcFrom a rest t

/-- No transition changes the offset by more than an hour. -/
def GentleFrom (b : ℤ) : List (ℤ × ℤ) → Prop
  | [] => True
  | (_, a) :: rest => |a - b| ≤ millisPerHour ∧ GentleFrom a rest

variable (z : TimeZone)

def offset (u : ℤ) : ℤ := offsetFrom z.initial z.transitions u

def localTime (u : ℤ) : ℤ := u + z.offset u

def utc (t : ℤ) : ℤ := utcFrom z.initial z.transitions t

def Gentle : Prop := GentleFrom z.initial z.transitions

/-! ## From one transition on -/

section

variable {b start a u u' t : ℤ} {rest : List (ℤ × ℤ)}

/-- The transitions are an hour apart, the first of them from `start`. -/
def SpacedFrom (start : ℤ) (rest : List (ℤ × ℤ)) : Prop :=
  ((start, (0 : ℤ)) :: rest).Pairwise fun p q ↦ p.1 + millisPerHour ≤ q.1

theorem SpacedFrom.of_cons {start' : ℤ} (h : SpacedFrom start ((start', a) :: rest)) :
    start + millisPerHour ≤ start' ∧ SpacedFrom start' rest := by
  rw [SpacedFrom, List.pairwise_cons, List.pairwise_cons] at h
  exact ⟨h.1 _ List.mem_cons_self, List.pairwise_cons.mpr h.2⟩

/-- The offset moves away from that at a transition by no more than the time that has passed. -/
theorem abs_offsetFrom_sub_le (hspaced : SpacedFrom start rest) (hgentle : GentleFrom a rest)
    (hu : start ≤ u) : |offsetFrom a rest u - a| ≤ u - start := by
  induction rest generalizing start a with
  | nil =>
    rw [offsetFrom, sub_self, abs_zero]
    exact sub_nonneg.mpr hu
  | cons transition rest ih =>
    obtain ⟨start', a'⟩ := transition
    obtain ⟨hle, hspaced⟩ := hspaced.of_cons
    obtain ⟨hchange, hgentle⟩ := hgentle
    rw [offsetFrom]
    split_ifs with hlt
    · rw [sub_self, abs_zero]
      exact sub_nonneg.mpr hu
    · have hrest := ih hspaced hgentle (not_lt.mp hlt)
      calc |offsetFrom a' rest u - a| ≤ |offsetFrom a' rest u - a'| + |a' - a| := abs_sub_le ..
        _ ≤ u - start' + millisPerHour := add_le_add hrest hchange
        _ ≤ u - start := by linarith

/-- From a transition on, local time is not before that at the transition. -/
theorem le_localTimeFrom (hspaced : SpacedFrom start rest) (hgentle : GentleFrom a rest)
    (hu : start ≤ u) : start + a ≤ u + offsetFrom a rest u := by
  have hle := neg_le_of_abs_le (abs_offsetFrom_sub_le hspaced hgentle hu)
  linarith

/-- **Local time falls back by an hour at most.** -/
theorem localTimeFrom_le (hspaced : rest.Pairwise fun p q ↦ p.1 + millisPerHour ≤ q.1)
    (hgentle : GentleFrom b rest) (hu : u ≤ u') :
    u + offsetFrom b rest u ≤ u' + offsetFrom b rest u' + millisPerHour := by
  have hpos : (0 : ℤ) ≤ millisPerHour := by decide
  induction rest generalizing b with
  | nil =>
    rw [offsetFrom, offsetFrom]
    linarith
  | cons transition rest ih =>
    obtain ⟨start, a⟩ := transition
    obtain ⟨hchange, hgentle⟩ := hgentle
    rw [offsetFrom, offsetFrom]
    split_ifs with hlt hlt' hlt'
    · linarith
    · have hle := le_localTimeFrom (List.pairwise_cons.mpr (List.pairwise_cons.mp hspaced)) hgentle
        (not_lt.mp hlt')
      have hback := neg_le_of_abs_le hchange
      linarith
    · exact absurd (hu.trans_lt hlt') hlt
    · exact ih (List.pairwise_cons.mp hspaced).2 hgentle

/-- What is converted with a later offset comes after the transition. -/
theorem le_utcFrom (hspaced : SpacedFrom start rest) (ht : start + a ≤ t) :
    start ≤ utcFrom a rest t := by
  induction rest generalizing start a with
  | nil =>
    rw [utcFrom]
    linarith
  | cons transition rest ih =>
    obtain ⟨start', a'⟩ := transition
    obtain ⟨hle, hspaced⟩ := hspaced.of_cons
    have hpos : (0 : ℤ) ≤ millisPerHour := by decide
    rw [utcFrom]
    split_ifs with hlt
    · linarith
    · have hmax := le_max_right a a'
      have hrest := ih hspaced (by linarith)
      linarith

/-- The converted local time is shown, or skipped by an hour at most. -/
theorem localTimeFrom_utcFrom (hspaced : rest.Pairwise fun p q ↦ p.1 + millisPerHour ≤ q.1)
    (hgentle : GentleFrom b rest) :
    t ≤ utcFrom b rest t + offsetFrom b rest (utcFrom b rest t) ∧
      utcFrom b rest t + offsetFrom b rest (utcFrom b rest t) ≤ t + millisPerHour := by
  have hpos : (0 : ℤ) ≤ millisPerHour := by decide
  induction rest generalizing b with
  | nil =>
    rw [utcFrom, offsetFrom]
    constructor <;> linarith
  | cons transition rest ih =>
    obtain ⟨start, a⟩ := transition
    obtain ⟨hchange, hgentle⟩ := hgentle
    have hstart : SpacedFrom start rest := List.pairwise_cons.mpr (List.pairwise_cons.mp hspaced)
    rw [utcFrom]
    split_ifs with hlt
    · rw [offsetFrom]
      split_ifs with hbefore
      · constructor <;> linarith
      · -- the local time is skipped, and the next transition is still to come
        have hskip : t - b < start + millisPerHour := by
          have hle := le_of_abs_le hchange
          rcases max_choice b a with hmax | hmax <;> rw [hmax] at hlt <;> linarith
        have hafter : offsetFrom a rest (t - b) = a := by
          cases rest with
          | nil => rfl
          | cons next rest =>
            have hnext := hstart.of_cons.1
            rw [offsetFrom, if_pos (by linarith)]
        rw [hafter]
        have hle := le_of_abs_le hchange
        have hmax : b ≤ a := by
          by_contra hba
          rw [max_eq_left (not_le.mp hba).le] at hlt
          linarith
        constructor <;> linarith
    · have hle : start + a ≤ t := by
        have := le_max_right b a
        linarith
      rw [offsetFrom, if_neg (not_lt.mpr (le_utcFrom hstart hle))]
      exact ih (List.pairwise_cons.mp hspaced).2 hgentle

theorem exists_offsetFrom (hspaced : SpacedFrom start rest) (t : ℤ) :
    ∃ u, start ≤ u ∧ offsetFrom a rest u = t - utcFrom a rest t := by
  induction rest generalizing start a with
  | nil => exact ⟨start, le_rfl, by rw [offsetFrom, utcFrom, sub_sub_cancel]⟩
  | cons transition rest ih =>
    obtain ⟨start', a'⟩ := transition
    obtain ⟨hle, hspaced⟩ := hspaced.of_cons
    have hpos : 0 < millisPerHour := by decide
    rw [utcFrom]
    split_ifs with hlt
    · refine ⟨start, le_rfl, ?_⟩
      rw [offsetFrom, if_pos (by linarith), sub_sub_cancel]
    · obtain ⟨u, hu, hoffset⟩ := ih (a := a') hspaced
      refine ⟨u, by linarith, ?_⟩
      rw [offsetFrom, if_neg (not_lt.mpr hu), hoffset]

theorem exists_spacedFrom (hspaced : rest.Pairwise fun p q ↦ p.1 + millisPerHour ≤ q.1) :
    ∃ start, SpacedFrom start rest := by
  cases rest with
  | nil => exact ⟨0, List.pairwise_singleton _ _⟩
  | cons transition rest =>
    have hpos : 0 < millisPerHour := by decide
    refine ⟨transition.1 - millisPerHour, List.pairwise_cons.mpr ⟨fun q hq ↦ ?_, hspaced⟩⟩
    rcases List.mem_cons.mp hq with rfl | hq
    · exact (sub_add_cancel _ _).le
    · have hle := (List.pairwise_cons.mp hspaced).1 q hq
      dsimp only
      linarith

end

/-! ## The zone -/

section

variable {z} {t t' u u' : ℤ} (hz : z.Gentle)
include hz

theorem localTime_utc (t : ℤ) :
    t ≤ z.localTime (z.utc t) ∧ z.localTime (z.utc t) ≤ t + millisPerHour :=
  localTimeFrom_utcFrom z.spaced hz

theorem localTime_le (h : u ≤ u') : z.localTime u ≤ z.localTime u' + millisPerHour :=
  localTimeFrom_le z.spaced hz h

/-- **Local times that are more than two hours apart are converted in their order.** -/
theorem utc_lt_utc (h : t + 2 * millisPerHour < t') : z.utc t < z.utc t' := by
  by_contra hle
  have hback := localTime_le hz (not_lt.mp hle)
  have ht := (localTime_utc hz t).2
  have ht' := (localTime_utc hz t').1
  linarith

end

theorem exists_offset (t : ℤ) : ∃ u, z.offset u = t - z.utc t := by
  obtain ⟨start, hstart⟩ := exists_spacedFrom z.spaced
  obtain ⟨u, -, hu⟩ := exists_offsetFrom (a := z.initial) hstart t
  exact ⟨u, hu⟩

end TimeZone

end GtfsStream
