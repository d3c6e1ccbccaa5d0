import GtfsStream.Frontend.HistoryChart
import GtfsStream.Library.Grouping
import Mathlib.Algebra.BigOperators.Group.List.Basic
import Mathlib.Tactic.Positivity

/-!
# The buckets conserve the history

The day index of an instant is its local day: its midnight is off by the difference of two offsets,
which is less than half a day. The buckets are numbered by their hours since 1970-01-01 in local
time. Both the grid and the key of a point come to the start of the bucket of a number, so every
point is added to the bucket of its own number, and local times that are three hours or more apart
have starts in the same order.

## Numbers in place of dates

Everything about dates is in two lemmas: the local day of an instant has its midnight less than half
a day from where the index puts it, and the key of a point is the start of the bucket of its number.
From there on the buckets are numbers. The grid has them from the first day to the last, in order
and each once, and a point is added to the one of its own number. So what the buckets have together
is what the points have, and each column weighs its points by the vehicles that were counted.
-/

namespace GtfsStream.Frontend

open Calendar

/-- The widths of the buckets that collapse hours. -/
def bucketWidths : List ℕ := [3, 6, 12, 24, 72]

theorem bucketHoursForDays_mem (days : ℕ) :
    bucketHoursForDays days = 1 ∨ bucketHoursForDays days ∈ bucketWidths := by
  have hpresets : ∀ preset ∈ ([(1, 1), (3, 3), (7, 6), (14, 12), (30, 24), (90, 72)] :
      List (ℕ × ℕ)), preset.2 = 1 ∨ preset.2 ∈ bucketWidths := by decide
  have hladder : ∀ h ∈ [1, 3, 6, 12, 24, 72], h = 1 ∨ h ∈ bucketWidths := by decide
  rw [bucketHoursForDays]
  rcases hpreset : bucketHoursByDays days with _ | preset
  · dsimp only
    rcases hfound : [1, 3, 6, 12, 24, 72].find? fun h ↦ (days * 24 + h - 1) / h ≤ 40 with _ | h
    · exact Or.inr (by decide)
    · exact hladder h (List.mem_of_find?_eq_some hfound)
  · obtain ⟨before, after, hsplit, -⟩ := List.lookup_eq_some_iff.mp hpreset
    refine hpresets (days, preset) ?_
    rw [hsplit]
    exact List.mem_append_right _ List.mem_cons_self

/-- The zones for which the buckets are made: the offset is within 12 hours of the one with which
the midnight of 1970-01-01 is converted, and changes by an hour at most. -/
structure Usual (z : TimeZone) : Prop where
  gentle : z.Gentle
  near : ∀ u, |z.offset u - -epochDay z| < 12 * millisPerHour

/-- The number of the bucket that the local time of an instant falls into. -/
def bucketNumber (z : TimeZone) (bucketHours : ℕ) (d : ℤ) : ℤ :=
  z.localTime d / (bucketHours * millisPerHour)

/-- The start of the bucket with a number. -/
def startOf (z : TimeZone) (bucketHours : ℕ) (k : ℤ) : ℤ :=
  z.utc (k * (bucketHours * millisPerHour))

/-! ## Local dates -/

section

variable {z : TimeZone} {d t : ℤ}

theorem millisPerDay_eq : millisPerDay = 24 * millisPerHour := rfl

/-- The fields of a date that has a year of its own come together again. -/
theorem newDate_fields (hyear : 100 ≤ getFullYear z d) (hours : ℤ) :
    newDate z (getFullYear z d) (getMonth z d) (getDate z d) hours =
      z.utc (localDay z d * millisPerDay + hours * millisPerHour) := by
  have hnot : ¬(0 ≤ getFullYear z d ∧ getFullYear z d ≤ 99) := by omega
  have hmonth : 1 ≤ (civil (localDay z d)).2.1 := le_fst_monthAndDay ..
  have hday : ofCivil (getFullYear z d) (getMonth z d + 1) 1 + getDate z d - 1 = localDay z d := by
    have hcivil := ofCivil_civil (localDay z d)
    rw [ofCivil] at hcivil ⊢
    rw [getMonth, Nat.sub_add_cancel hmonth, getFullYear, getDate, Nat.cast_one,
      add_sub_cancel_right]
    exact hcivil
  rw [newDate, if_neg hnot, hday]

theorem newDate_epoch (dayIndex : ℤ) :
    newDate z 1970 0 (1 + dayIndex) 0 = z.utc (dayIndex * millisPerDay) := by
  have hday : ofCivil 1970 1 1 + (1 + dayIndex) - 1 = dayIndex := by
    rw [ofCivil]
    have hzero : dayFromYear 1970 = 0 := by decide
    simp [hzero]
  have hnot : ¬((0 : ℤ) ≤ 1970 ∧ (1970 : ℤ) ≤ 99) := by decide
  rw [newDate, if_neg hnot, hday, zero_mul, add_zero]

theorem dayFromIndex_eq (dayIndex : ℤ) :
    dayFromIndex z dayIndex = z.utc (dayIndex * millisPerDay) :=
  newDate_epoch dayIndex

theorem year_le_iff : 100 ≤ getFullYear z d ↔ dayFromYear 100 ≤ localDay z d :=
  dayFromYear_le_iff.symm

/-- **The index of the day is the local day**: the offsets differ by less than half a day. -/
theorem localDayIndex_eq (hz : Usual z) (hyear : 100 ≤ getFullYear z d) :
    localDayIndex z d = localDay z d := by
  obtain ⟨u, hu⟩ := z.exists_offset (localDay z d * millisPerDay)
  have hnear := abs_lt.mp (hz.near u)
  rw [hu, sub_neg_eq_add] at hnear
  rw [localDayIndex, mathRound, startOfLocalDay, newDate_fields hyear, zero_mul, add_zero]
  have hpos : 0 < millisPerHour := by decide
  rw [millisPerDay_eq] at hnear ⊢
  have hpos' : 0 < 2 * (24 * millisPerHour) := by omega
  rw [Int.ediv_eq_iff_of_pos hpos']
  constructor <;> nlinarith

/-- The day from an index begins on this day, at midnight or after the skipped hour. -/
theorem localDay_dayFromIndex (hz : z.Gentle) (dayIndex : ℤ) :
    localDay z (dayFromIndex z dayIndex) = dayIndex := by
  obtain ⟨hle, hge⟩ := TimeZone.localTime_utc hz (dayIndex * millisPerDay)
  have hpos : 0 < millisPerHour := by decide
  rw [localDay, dayFromIndex_eq, millisPerDay_eq] at *
  rw [Int.ediv_eq_iff_of_pos (by omega)]
  constructor <;> linarith

/-! ## The key of a point -/

variable {b : ℕ}

theorem width_cases (hb : b ∈ bucketWidths) :
    (1 < b ∧ b < 24 ∧ b * ((24 + b - 1) / b) = 24) ∨
      24 ≤ b ∧ b = 24 * ((b + 12) / 24) ∧ 0 < (b + 12) / 24 := by
  have hall : ∀ b ∈ bucketWidths, (1 < b ∧ b < 24 ∧ b * ((24 + b - 1) / b) = 24) ∨
      24 ≤ b ∧ b = 24 * ((b + 12) / 24) ∧ 0 < (b + 12) / 24 := by decide
  exact hall b hb

theorem width_pos (hb : b ∈ bucketWidths) : 3 ≤ b := by
  have hall : ∀ b ∈ bucketWidths, 3 ≤ b := by decide
  exact hall b hb

theorem localTime_ediv_hour : z.localTime d / millisPerHour = 24 * localDay z d + getHours z d := by
  rw [localDay, getHours, millisPerDay, millisPerHour]
  omega

theorem getHours_bounds : 0 ≤ getHours z d ∧ getHours z d < 24 := by
  rw [getHours, millisPerDay, millisPerHour]
  omega

theorem bucketNumber_eq : bucketNumber z b d = (24 * localDay z d + getHours z d) / b := by
  have hnonneg : 0 ≤ millisPerHour := by decide
  rw [bucketNumber, mul_comm, ← Int.ediv_ediv_of_nonneg hnonneg, localTime_ediv_hour]

/-- **The key of a point is the start of the bucket of its number.** -/
theorem bucketStart_eq (hz : Usual z) (hb : b ∈ bucketWidths) (hyear : 100 ≤ getFullYear z d) :
    bucketStart z d b = startOf z b (bucketNumber z b d) := by
  rw [bucketStart, startOf, bucketNumber_eq]
  rcases width_cases hb with ⟨hlt, hday, hdivides⟩ | ⟨hle, hdays, hpos⟩
  · rw [if_neg (by omega), if_pos hday]
    dsimp only
    set perDay := (24 + b - 1) / b
    have hdivides : (24 : ℤ) = b * perDay := by exact_mod_cast hdivides.symm
    have hsplit : (24 * localDay z d + getHours z d) / b =
        perDay * localDay z d + getHours z d / b := by
      rw [hdivides, mul_assoc, add_comm, Int.add_mul_ediv_left _ _ (by omega), add_comm]
    rw [newDate_fields hyear, hsplit, millisPerDay_eq, hdivides]
    congr 1
    ring
  · rw [if_neg (by omega), if_neg (by omega)]
    dsimp only
    set groupDays := (b + 12) / 24
    have hdays : (b : ℤ) = 24 * groupDays := by exact_mod_cast hdays
    have hhours := getHours_bounds (z := z) (d := d)
    have hnumber : (24 * localDay z d + getHours z d) / b = localDay z d / groupDays := by
      rw [hdays, ← Int.ediv_ediv_of_nonneg (by decide)]
      congr 1
      omega
    rw [localDayIndex_eq hz hyear, dayFromIndex_eq, hnumber, hdays, millisPerDay_eq]
    congr 1
    ring

/-! ## The grid -/

theorem upTo_blocks (first last : ℤ) (p : ℕ) :
    (upTo first last).flatMap (fun day ↦ (List.range p).map fun i : ℕ ↦ (p * day + i : ℤ)) =
      upTo (p * first) (p * last + (p - 1)) := by
  have hlength : (p * last + (p - 1) + 1 - p * first : ℤ).toNat =
      p * (last + 1 - first).toNat := by
    have hmul : (p * last + (p - 1) + 1 - p * first : ℤ) = p * (last + 1 - first) := by ring
    rw [hmul]
    rcases le_or_gt 0 (last + 1 - first) with hnonneg | hneg
    · rw [Int.toNat_mul (Nat.cast_nonneg p) hnonneg, Int.toNat_natCast]
    · rw [Int.toNat_of_nonpos hneg.le, Nat.mul_zero,
        Int.toNat_of_nonpos (mul_nonpos_of_nonneg_of_nonpos (Nat.cast_nonneg p) hneg.le)]
  rw [upTo, upTo, hlength]
  generalize (last + 1 - first).toNat = n
  induction n with
  | zero => rfl
  | succ n ih =>
    rw [List.range_succ, List.map_append, List.flatMap_append, ih, Nat.mul_succ, List.range_add,
      List.map_append, List.map_singleton, List.flatMap_singleton, List.map_map]
    congr 1
    refine List.map_congr_left fun i _ ↦ ?_
    simp only [Function.comp_apply]
    push_cast
    ring

theorem mem_upTo {first last k : ℤ} : k ∈ upTo first last ↔ first ≤ k ∧ k ≤ last := by
  rw [upTo, List.mem_map]
  constructor
  · rintro ⟨n, hn, rfl⟩
    rw [List.mem_range] at hn
    omega
  · rintro ⟨hle, hge⟩
    refine ⟨(k - first).toNat, ?_, by omega⟩
    rw [List.mem_range]
    omega

/-- The numbers of the buckets from one day to another. -/
def numbersOf (b : ℕ) (first last : ℤ) : List ℤ := upTo (24 * first / b) ((24 * last + 23) / b)

theorem numbersOf_of_divides {perDay : ℕ} (hdivides : (24 : ℤ) = b * perDay) (hb : 0 < b)
    (first last : ℤ) :
    numbersOf b first last = upTo (perDay * first) (perDay * last + (perDay - 1)) := by
  have hbpos : (0 : ℤ) < b := by exact_mod_cast hb
  have hlow : 24 * first / b = perDay * first := by
    rw [hdivides, mul_assoc, Int.mul_ediv_cancel_left _ hbpos.ne']
  have hhigh : (24 * last + 23) / b = perDay * last + (perDay - 1) := by
    have hlastDay : (perDay * last + (perDay - 1)) * b = 24 * last + 24 - b := by
      rw [hdivides]
      ring
    rw [Int.ediv_eq_iff_of_pos hbpos, hlastDay]
    omega
  rw [numbersOf, hlow, hhigh]

theorem numbersOf_of_days {groupDays : ℕ} (hdays : (b : ℤ) = 24 * groupDays) (first last : ℤ) :
    numbersOf b first last = upTo (first / groupDays) (last / groupDays) := by
  have hquot {x day : ℤ} (hx : x / 24 = day) : x / b = day / groupDays := by
    rw [hdays, ← Int.ediv_ediv_of_nonneg (by decide), hx]
  have hfirst : 24 * first / 24 = first := by omega
  have hlast : (24 * last + 23) / 24 = last := by omega
  rw [numbersOf, hquot hfirst, hquot hlast]

/-- The days of a bucket that has a title of its own for more than one. -/
def groupDaysOf (b : ℕ) : ℕ := if b < 24 then 1 else (b + 12) / 24

/-- **The grid has the buckets from the first to the last day.** -/
theorem bucketGrid_eq {first last : ℤ} (hz : Usual z) (hb : b ∈ bucketWidths)
    (hfirst : dayFromYear 100 ≤ first) : bucketGrid z first last b =
      (numbersOf b first last).map fun k ↦
        { start := startOf z b k, groupDays := groupDaysOf b } := by
  rw [bucketGrid, groupDaysOf]
  rcases width_cases hb with ⟨hlt, hday, hdivides⟩ | ⟨hle, hdays, hpos⟩
  · rw [if_pos hday, if_pos hday]
    dsimp only
    set perDay := (24 + b - 1) / b
    have hdivides : (24 : ℤ) = b * perDay := by exact_mod_cast hdivides.symm
    rw [numbersOf_of_divides hdivides (by omega), ← upTo_blocks, List.map_flatMap]
    refine List.flatMap_congr fun day hmem ↦ ?_
    -- the fields of the day are those of its first instant, also if its midnight is skipped
    have hyear : 100 ≤ getFullYear z (dayFromIndex z day) := by
      rw [year_le_iff, localDay_dayFromIndex hz.gentle]
      exact hfirst.trans (mem_upTo.mp hmem).1
    rw [List.map_map]
    refine List.map_congr_left fun i _ ↦ ?_
    rw [Function.comp_apply, newDate_fields hyear, localDay_dayFromIndex hz.gentle, startOf,
      millisPerDay_eq, hdivides, BucketGridEntry.mk.injEq]
    refine ⟨congrArg z.utc ?_, rfl⟩
    push_cast
    ring
  · have hnot : ¬b < 24 := by omega
    rw [if_neg hnot, if_neg hnot]
    dsimp only
    set groupDays := (b + 12) / 24
    have hdays : (b : ℤ) = 24 * groupDays := by exact_mod_cast hdays
    rw [numbersOf_of_days hdays]
    refine List.map_congr_left fun g _ ↦ ?_
    rw [dayFromIndex_eq, startOf, hdays, millisPerDay_eq, BucketGridEntry.mk.injEq]
    exact ⟨congrArg z.utc (by ring), rfl⟩

theorem pairwise_upTo (first last : ℤ) : (upTo first last).Pairwise (· < ·) := by
  rw [upTo, List.pairwise_map]
  refine List.pairwise_lt_range.imp fun hlt ↦ ?_
  omega

/-- **The buckets start one after the other.** -/
theorem startOf_lt (hz : Usual z) (hb : b ∈ bucketWidths) {k k' : ℤ} (hk : k < k') :
    startOf z b k < startOf z b k' := by
  have hpos : 0 < millisPerHour := by decide
  have hwidth : 3 * millisPerHour ≤ b * millisPerHour := by
    have hle : (3 : ℤ) ≤ b := by exact_mod_cast width_pos hb
    exact mul_le_mul_of_nonneg_right hle hpos.le
  refine TimeZone.utc_lt_utc hz.gentle ?_
  calc k * (b * millisPerHour) + 2 * millisPerHour
      < k * (b * millisPerHour) + b * millisPerHour := by linarith
    _ = (k + 1) * (b * millisPerHour) := by ring
    _ ≤ k' * (b * millisPerHour) := mul_le_mul_of_nonneg_right hk (by linarith)

/-! ## The first and the last day -/

variable {points : List HourlyDataPoint}

/-- A comparison leaves a day that comes before all the others in its order. -/
theorem extremeDay_spec {replaces : ℤ → ℤ → Bool} {R : ℤ → ℤ → Prop} (hrefl : ∀ d, R d d)
    (htrans : ∀ c d e, R c d → R d e → R c e)
    (hreplaces : ∀ d e, replaces d e = true → R d e) (hkeeps : ∀ d e, replaces d e = false → R e d)
    (hne : points ≠ []) : ∃ best, extremeDay z points replaces = some best ∧
      (∃ p ∈ points, localDayIndex z p.hour = best) ∧
      ∀ p ∈ points, R best (localDayIndex z p.hour) := by
  induction points using List.reverseRecOn with
  | nil => exact absurd rfl hne
  | append_singleton points last ih =>
    rw [extremeDay, List.foldl_append, List.foldl_cons, List.foldl_nil, ← extremeDay]
    have hlast : last ∈ points ++ [last] := List.mem_append_right _ (List.mem_singleton_self _)
    rcases eq_or_ne points [] with rfl | hpoints
    · refine ⟨_, rfl, ⟨last, hlast, rfl⟩, fun p hp ↦ ?_⟩
      rw [List.mem_singleton.mp hp]
      exact hrefl _
    · obtain ⟨best, hbest, ⟨p, hp, hday⟩, hall⟩ := ih hpoints
      have hmem {P : HourlyDataPoint → Prop} (hold : ∀ p ∈ points, P p) (hnew : P last) :
          ∀ p ∈ points ++ [last], P p := by
        rw [List.forall_mem_append, List.forall_mem_singleton]
        exact ⟨hold, hnew⟩
      rw [hbest]
      refine ⟨if replaces (localDayIndex z last.hour) best then localDayIndex z last.hour else best,
        rfl, ?_⟩
      split_ifs with hcompare
      · refine ⟨⟨last, hlast, rfl⟩, hmem (fun q hq ↦ ?_) (hrefl _)⟩
        exact htrans _ _ _ (hreplaces _ _ hcompare) (hall q hq)
      · refine ⟨⟨p, List.mem_append_left _ hp, hday⟩, hmem hall ?_⟩
        exact hkeeps _ _ (eq_false_of_ne_true hcompare)

theorem firstDay_spec (hne : points ≠ []) : ∃ first, firstDay z points = some first ∧
    (∃ p ∈ points, localDayIndex z p.hour = first) ∧
    ∀ p ∈ points, first ≤ localDayIndex z p.hour :=
  extremeDay_spec (fun _ ↦ le_rfl) (fun _ _ _ ↦ le_trans) (fun _ _ h ↦ (of_decide_eq_true h).le)
    (fun _ _ h ↦ not_lt.mp (of_decide_eq_false h)) hne

theorem lastDay_spec (hne : points ≠ []) : ∃ last, lastDay z points = some last ∧
    (∃ p ∈ points, localDayIndex z p.hour = last) ∧
    ∀ p ∈ points, localDayIndex z p.hour ≤ last :=
  extremeDay_spec (R := fun d e ↦ e ≤ d) (fun _ ↦ le_rfl) (fun _ _ _ h h' ↦ h'.trans h)
    (fun _ _ h ↦ (of_decide_eq_true h).le) (fun _ _ h ↦ not_lt.mp (of_decide_eq_false h)) hne

/-! ## Filling the buckets -/

/-- The bucket of a number with the points that belong to it, in order. -/
def filled (z : TimeZone) (b : ℕ) (points : List HourlyDataPoint) (k : ℤ) : BucketAcc :=
  (points.filter fun p ↦ bucketNumber z b p.hour = k).foldl addPointToBucket
    (newBucket z (startOf z b k) (groupDaysOf b))

theorem buckets_emptyBuckets (grid : List BucketGridEntry) :
    (emptyBuckets z grid).buckets = grid.map fun g ↦ newBucket z g.start g.groupDays := by
  induction grid using List.reverseRecOn with
  | nil => rfl
  | append_singleton grid g ih =>
    rw [emptyBuckets, List.foldl_append, List.map_append, ← ih]
    rfl

theorem byKey_emptyBuckets {grid : List BucketGridEntry} {j : ℕ} {key : ℤ}
    (hnodup : (grid.map BucketGridEntry.start).Nodup)
    (hj : (grid.map BucketGridEntry.start)[j]? = some key) :
    (emptyBuckets z grid).byKey key = some j := by
  induction grid using List.reverseRecOn with
  | nil => cases hj
  | append_singleton grid g ih =>
    have hkeys : (emptyBuckets z (grid ++ [g])).byKey = Function.update
        (emptyBuckets z grid).byKey g.start (some (emptyBuckets z grid).buckets.length) := by
      rw [emptyBuckets, List.foldl_append]
      rfl
    have hlength : (emptyBuckets z grid).buckets.length = grid.length := by
      rw [buckets_emptyBuckets, List.length_map]
    rw [List.map_append, List.map_singleton] at hnodup hj
    rw [hkeys, hlength]
    rcases lt_or_ge j grid.length with hlt | hge
    · rw [List.getElem?_append_left (by rwa [List.length_map])] at hj
      have hne : key ≠ g.start := by
        rintro rfl
        exact (List.nodup_append.mp hnodup).2.2 _ (List.mem_of_getElem? hj) _
          (List.mem_singleton_self _) rfl
      rw [Function.update_of_ne hne]
      exact ih (List.nodup_append.mp hnodup).1 hj
    · rw [List.getElem?_append_right (by rwa [List.length_map]), List.length_map] at hj
      obtain ⟨hlast, hkey⟩ := List.getElem?_eq_some_iff.mp hj
      rw [List.length_singleton] at hlast
      rw [List.getElem_singleton] at hkey
      rw [← hkey, Function.update_self]
      congr 1
      omega

/-- Changing the value of one number changes the list at its position. -/
theorem modify_map {β : Type*} {ks : List ℤ} {j : ℕ} {k : ℤ} (hnodup : ks.Nodup)
    (hj : ks[j]? = some k) (f : ℤ → β) (g : β → β) :
    (ks.map f).modify j g = ks.map fun x ↦ if x = k then g (f x) else f x := by
  refine List.ext_getElem? fun i ↦ ?_
  rw [List.getElem?_modify, List.getElem?_map, List.getElem?_map]
  obtain ⟨hlt, hk⟩ := List.getElem?_eq_some_iff.mp hj
  rcases hi : ks[i]? with _ | x
  · rfl
  · obtain ⟨hlt', hx⟩ := List.getElem?_eq_some_iff.mp hi
    have hiff : x = k ↔ j = i := by
      rw [← hx, ← hk, hnodup.getElem_inj_iff, eq_comm]
    simp only [Option.map_some, hiff]
    rfl

/-- **Every point is added to the bucket of its number.** -/
theorem foldl_add_eq {grid : List BucketGridEntry} {ks : List ℤ} (hz : Usual z)
    (hb : b ∈ bucketWidths) (hks : ks.Pairwise (· < ·))
    (hgrid : grid = ks.map fun k ↦ { start := startOf z b k, groupDays := groupDaysOf b })
    (hyears : ∀ p ∈ points, 100 ≤ getFullYear z p.hour)
    (hmem : ∀ p ∈ points, bucketNumber z b p.hour ∈ ks) :
    (points.foldl (fun s p ↦ s.add (bucketStart z p.hour b) p) (emptyBuckets z grid)).buckets =
        ks.map (filled z b points) ∧
      (points.foldl (fun s p ↦ s.add (bucketStart z p.hour b) p) (emptyBuckets z grid)).byKey =
        (emptyBuckets z grid).byKey := by
  have hstarts : grid.map BucketGridEntry.start = ks.map (startOf z b) := by
    rw [hgrid, List.map_map]
    rfl
  have hnodup : (grid.map BucketGridEntry.start).Nodup := by
    rw [hstarts, List.Nodup, List.pairwise_map]
    exact hks.imp fun hlt ↦ (startOf_lt hz hb hlt).ne
  induction points using List.reverseRecOn with
  | nil =>
    refine ⟨?_, rfl⟩
    rw [List.foldl_nil, buckets_emptyBuckets, hgrid, List.map_map]
    rfl
  | append_singleton points last ih =>
    rw [List.forall_mem_append, List.forall_mem_singleton] at hyears hmem
    obtain ⟨hbuckets, hbyKey⟩ := ih hyears.1 hmem.1
    obtain ⟨j, hj⟩ := List.mem_iff_getElem?.mp hmem.2
    have hkey : (emptyBuckets z grid).byKey (bucketStart z last.hour b) = some j := by
      refine byKey_emptyBuckets hnodup ?_
      rw [hstarts, List.getElem?_map, hj, bucketStart_eq hz hb hyears.2]
      rfl
    rw [List.foldl_append, List.foldl_cons, List.foldl_nil, Buckets.add, hbyKey, hkey]
    refine ⟨?_, rfl⟩
    dsimp only
    rw [hbuckets, modify_map (hks.imp fun hlt ↦ hlt.ne) hj]
    refine List.map_congr_left fun k _ ↦ ?_
    rw [filled, filled, List.filter_append, List.foldl_append, List.filter_singleton]
    split_ifs with hk
    · rw [decide_eq_true hk.symm]
      rfl
    · rw [decide_eq_false (Ne.symm hk)]
      rfl

/-- The bucket number of a point is one of those from its day to its day. -/
theorem bucketNumber_mem (hb : b ∈ bucketWidths) {first last : ℤ} (hfirst : first ≤ localDay z d)
    (hlast : localDay z d ≤ last) : bucketNumber z b d ∈ numbersOf b first last := by
  have hpos : (0 : ℤ) < b := by
    have hwidth := width_pos hb
    omega
  have hhours := getHours_bounds (z := z) (d := d)
  rw [bucketNumber_eq, numbersOf, mem_upTo]
  exact ⟨Int.ediv_le_ediv hpos (by omega), Int.ediv_le_ediv hpos (by omega)⟩

/-- **The buckets are those of the numbers from the first to the last day**, and each is filled with
the points of its number. -/
theorem aggregateBuckets_eq (hz : Usual z) (hb : b ∈ bucketWidths)
    (hyears : ∀ p ∈ points, 100 ≤ getFullYear z p.hour) (hne : points ≠ []) :
    ∃ first last, (∃ p ∈ points, localDay z p.hour = first) ∧
      (∃ p ∈ points, localDay z p.hour = last) ∧
      (∀ p ∈ points, first ≤ localDay z p.hour ∧ localDay z p.hour ≤ last) ∧
      aggregateBuckets z points b =
        (numbersOf b first last).map fun k ↦ (filled z b points k).finish := by
  obtain ⟨first, hfirst, ⟨p, hp, hpfirst⟩, hleast⟩ := firstDay_spec (z := z) hne
  obtain ⟨last, hlast, ⟨q, hq, hqlast⟩, hgreatest⟩ := lastDay_spec (z := z) hne
  have hday {p : HourlyDataPoint} (hp : p ∈ points) :
      localDayIndex z p.hour = localDay z p.hour := localDayIndex_eq hz (hyears p hp)
  have hbounds : ∀ p ∈ points, first ≤ localDay z p.hour ∧ localDay z p.hour ≤ last := by
    intro p hp
    rw [← hday hp]
    exact ⟨hleast p hp, hgreatest p hp⟩
  refine ⟨first, last, ⟨p, hp, (hday hp).symm.trans hpfirst⟩, ⟨q, hq, (hday hq).symm.trans hqlast⟩,
    hbounds, ?_⟩
  have hyear : dayFromYear 100 ≤ first := by
    rw [← hpfirst, hday hp, ← year_le_iff]
    exact hyears p hp
  have hwidth := width_pos hb
  rw [aggregateBuckets, if_neg hne, if_neg (by omega), hfirst, hlast]
  dsimp only
  rw [(foldl_add_eq hz hb (pairwise_upTo _ _) (bucketGrid_eq hz hb hyear) hyears fun p hp ↦
    bucketNumber_mem hb (hbounds p hp).1 (hbounds p hp).2).1, List.map_map]
  rfl

end

/-! ## What a bucket has -/

section

variable {acc : BucketAcc} {points : List HourlyDataPoint}

/-- The totals of an accumulating bucket that counts all its points. -/
structure Totals (acc : BucketAcc) (vehicles bunching : ℚ) (points : ℕ) : Prop where
  vehicles : acc.vehicleTotal = vehicles
  bunching : acc.bunchingTotal = bunching
  points : acc.hours + acc.noService = points

theorem totals_add {vehicles bunching : ℚ} {n : ℕ} (h : Totals acc vehicles bunching n)
    (p : HourlyDataPoint) : Totals (addPointToBucket acc p) (vehicles + p.vehicleCount)
      (bunching + p.bunchingEvents) (n + 1) := by
  obtain ⟨rfl, rfl, rfl⟩ := h
  rw [addPointToBucket]
  dsimp only
  split_ifs
  · exact ⟨rfl, rfl, by dsimp only; omega⟩
  · exact ⟨rfl, rfl, by dsimp only; omega⟩

theorem totals_foldl (points : List HourlyDataPoint) (start : ℤ) (groupDays : ℕ) (z : TimeZone) :
    Totals (points.foldl addPointToBucket (newBucket z start groupDays))
      (points.map HourlyDataPoint.vehicleCount).sum (points.map HourlyDataPoint.bunchingEvents).sum
      points.length := by
  induction points using List.reverseRecOn with
  | nil => exact ⟨rfl, rfl, rfl⟩
  | append_singleton points p ih =>
    rw [List.foldl_append, List.map_append, List.map_append, List.sum_append, List.sum_append,
      List.map_singleton, List.map_singleton, List.sum_singleton, List.sum_singleton,
      List.length_append]
    exact totals_add ih p

/-- What is known of the weighted sum and the bounds of an accumulating bucket. -/
structure Weighs (acc : BucketAcc) : Prop where
  idle : acc.hours = 0 → acc.weight = 0 ∧ acc.pctWeightedSum = 0 ∧ acc.minOnTime = none ∧
    acc.maxOnTime = none
  served : acc.hours ≠ 0 → 0 < acc.weight ∧ ∃ low high, acc.minOnTime = some low ∧
    acc.maxOnTime = some high ∧ low * acc.weight ≤ acc.pctWeightedSum ∧
    acc.pctWeightedSum ≤ high * acc.weight
  unset : acc.weightedOnTime = none

theorem weighs_newBucket (z : TimeZone) (start : ℤ) (groupDays : ℕ) :
    Weighs (newBucket z start groupDays) :=
  ⟨fun _ ↦ ⟨rfl, rfl, rfl, rfl⟩, fun h ↦ absurd rfl h, rfl⟩

theorem weighs_add (h : Weighs acc) (p : HourlyDataPoint) : Weighs (addPointToBucket acc p) := by
  rw [addPointToBucket]
  dsimp only
  split_ifs with hservice
  · refine ⟨fun hzero ↦ absurd hzero (Nat.succ_ne_zero _), fun _ ↦ ?_, h.unset⟩
    dsimp only
    rcases eq_or_ne acc.hours 0 with hidle | hserved
    · obtain ⟨hweight, hsum, hmin, hmax⟩ := h.idle hidle
      rw [hweight, hsum, hmin, hmax, zero_add, zero_add]
      exact ⟨hservice, _, _, rfl, rfl, le_rfl, le_rfl⟩
    · obtain ⟨hweight, low, high, hmin, hmax, hlow, hhigh⟩ := h.served hserved
      rw [hmin, hmax]
      refine ⟨add_pos hweight hservice, _, _, rfl, rfl, ?_, ?_⟩
      · have hle : (if p.onTimePct < low then p.onTimePct else low) ≤ low ∧
            (if p.onTimePct < low then p.onTimePct else low) ≤ p.onTimePct := by
          split_ifs with hlt
          · exact ⟨hlt.le, le_rfl⟩
          · exact ⟨le_rfl, not_lt.mp hlt⟩
        calc (if p.onTimePct < low then p.onTimePct else low) * (acc.weight + p.vehicleCount)
            = (if p.onTimePct < low then p.onTimePct else low) * acc.weight +
              (if p.onTimePct < low then p.onTimePct else low) * p.vehicleCount := mul_add ..
          _ ≤ low * acc.weight + p.onTimePct * p.vehicleCount :=
            add_le_add (mul_le_mul_of_nonneg_right hle.1 hweight.le)
              (mul_le_mul_of_nonneg_right hle.2 hservice.le)
          _ ≤ acc.pctWeightedSum + p.onTimePct * p.vehicleCount := add_le_add_left hlow _
      · have hle : high ≤ (if high < p.onTimePct then p.onTimePct else high) ∧
            p.onTimePct ≤ (if high < p.onTimePct then p.onTimePct else high) := by
          split_ifs with hlt
          · exact ⟨hlt.le, le_rfl⟩
          · exact ⟨le_rfl, not_lt.mp hlt⟩
        calc acc.pctWeightedSum + p.onTimePct * p.vehicleCount
            ≤ high * acc.weight + p.onTimePct * p.vehicleCount := add_le_add_left hhigh _
          _ ≤ (if high < p.onTimePct then p.onTimePct else high) * acc.weight +
              (if high < p.onTimePct then p.onTimePct else high) * p.vehicleCount :=
            add_le_add (mul_le_mul_of_nonneg_right hle.1 hweight.le)
              (mul_le_mul_of_nonneg_right hle.2 hservice.le)
          _ = _ := (mul_add ..).symm
  · exact ⟨h.idle, h.served, h.unset⟩

theorem weighs_foldl (h : Weighs acc) (points : List HourlyDataPoint) :
    Weighs (points.foldl addPointToBucket acc) := by
  induction points generalizing acc with
  | nil => exact h
  | cons p points ih => exact ih (weighs_add h p)

/-- The weighted value of a finished bucket lies between its bounds. -/
structure OnTimeBetween (bucket : Bucket) : Prop where
  none_iff : bucket.weightedOnTime = none ↔ bucket.hours = 0
  between : ∀ w, bucket.weightedOnTime = some w → ∃ low high, bucket.minOnTime = some low ∧
    bucket.maxOnTime = some high ∧ low ≤ w ∧ w ≤ high

theorem Weighs.onTimeBetween (h : Weighs acc) : OnTimeBetween acc.finish := by
  rw [BucketAcc.finish]
  rcases eq_or_ne acc.hours 0 with hidle | hserved
  · rw [if_neg (h.idle hidle).1.not_gt]
    refine ⟨iff_of_true h.unset hidle, fun w hw ↦ ?_⟩
    rw [h.unset] at hw
    cases hw
  · obtain ⟨hweight, low, high, hmin, hmax, hlow, hhigh⟩ := h.served hserved
    rw [if_pos hweight]
    refine ⟨iff_of_false (Option.some_ne_none _) hserved, fun w hw ↦ ?_⟩
    refine ⟨low, high, hmin, hmax, ?_⟩
    rw [← Option.some_inj.mp hw]
    exact ⟨(le_div_iff₀ hweight).mpr hlow, (div_le_iff₀ hweight).mpr hhigh⟩

theorem startHour_foldl (points : List HourlyDataPoint) (acc : BucketAcc) :
    (points.foldl addPointToBucket acc).startHour = acc.startHour := by
  induction points generalizing acc with
  | nil => rfl
  | cons p points ih =>
    rw [List.foldl_cons, ih, addPointToBucket]
    dsimp only
    split_ifs <;> rfl

theorem finish_eq (acc : BucketAcc) : acc.finish.vehicleTotal = acc.vehicleTotal ∧
    acc.finish.bunchingTotal = acc.bunchingTotal ∧ acc.finish.hours = acc.hours ∧
    acc.finish.noService = acc.noService ∧ acc.finish.startHour = acc.startHour := by
  rw [BucketAcc.finish]
  split_ifs <;> exact ⟨rfl, rfl, rfl, rfl, rfl⟩

end

/-! ## The history -/

section

variable {z : TimeZone} {b : ℕ} {points : List HourlyDataPoint}

/-- The buckets of a history. -/
structure ConservesHistory (z : TimeZone) (points : List HourlyDataPoint) (b : ℕ) : Prop where
  vehicles : ((aggregateBuckets z points b).map Bucket.vehicleTotal).sum =
    (points.map HourlyDataPoint.vehicleCount).sum
  bunching : ((aggregateBuckets z points b).map Bucket.bunchingTotal).sum =
    (points.map HourlyDataPoint.bunchingEvents).sum
  hours : ((aggregateBuckets z points b).map fun bucket ↦ bucket.hours + bucket.noService).sum =
    points.length
  /-- The buckets have consecutive numbers, from the first to the last local day, and every point is
  in the bucket of its number and in no other. -/
  grid : points ≠ [] → ∃ first last, (∃ p ∈ points, localDay z p.hour = first) ∧
    (∃ p ∈ points, localDay z p.hour = last) ∧
    (∀ p ∈ points, first ≤ localDay z p.hour ∧ localDay z p.hour ≤ last) ∧
    (∀ p ∈ points, bucketNumber z b p.hour ∈ numbersOf b first last) ∧
    (aggregateBuckets z points b).map Bucket.startHour =
      (numbersOf b first last).map (startOf z b) ∧
    aggregateBuckets z points b =
      (numbersOf b first last).map fun k ↦ (filled z b points k).finish
  chronological : ((aggregateBuckets z points b).map Bucket.startHour).Pairwise (· < ·)
  onTime : ∀ bucket ∈ aggregateBuckets z points b, OnTimeBetween bucket

/-- What adds up over the points of each bucket adds up over the buckets. -/
theorem sum_filled {M : Type*} [AddCommMonoid M] {ks : List ℤ} (hks : ks.Nodup)
    (hmem : ∀ p ∈ points, bucketNumber z b p.hour ∈ ks) (total : Bucket → M)
    (value : HourlyDataPoint → M)
    (htotal : ∀ k, total (filled z b points k).finish =
      ((points.filter fun p ↦ bucketNumber z b p.hour = k).map value).sum) :
    ((ks.map fun k ↦ (filled z b points k).finish).map total).sum = (points.map value).sum := by
  have hall : points.filter (fun p ↦ bucketNumber z b p.hour ∈ ks) = points :=
    List.filter_eq_self.mpr fun p hp ↦ decide_eq_true (hmem p hp)
  have hperm : (points.filter fun p ↦ bucketNumber z b p.hour ∈ ks).Perm
      (ks.flatMap fun k ↦ points.filter fun p ↦ bucketNumber z b p.hour = k) :=
    Grouping.perm_flatMap_filter hks points
  rw [hall] at hperm
  rw [(hperm.map value).sum_eq, List.map_flatMap, List.flatMap, List.sum_flatten, List.map_map,
    List.map_map]
  exact congrArg List.sum (List.map_congr_left fun k _ ↦ htotal k)

theorem startHour_filled (k : ℤ) : (filled z b points k).finish.startHour = startOf z b k := by
  rw [(finish_eq _).2.2.2.2, filled, startHour_foldl]
  rfl

theorem totals_filled (k : ℤ) : Totals (filled z b points k)
    ((points.filter fun p ↦ bucketNumber z b p.hour = k).map HourlyDataPoint.vehicleCount).sum
    ((points.filter fun p ↦ bucketNumber z b p.hour = k).map HourlyDataPoint.bunchingEvents).sum
    (points.filter fun p ↦ bucketNumber z b p.hour = k).length :=
  totals_foldl _ _ _ _

/-- **The buckets conserve the history.** The constructor of dates takes the years from 0 to 99 as
those from 1900 on, so the points are of later years; the history that is served has the last days
only. -/
theorem conservesHistory (hz : Usual z) (hb : b ∈ bucketWidths)
    (hyears : ∀ p ∈ points, 100 ≤ getFullYear z p.hour) : ConservesHistory z points b := by
  rcases eq_or_ne points [] with rfl | hne
  · have hnil : aggregateBuckets z [] b = [] := rfl
    refine ⟨?_, ?_, ?_, fun h ↦ absurd rfl h, ?_, ?_⟩
    · rw [hnil]
      rfl
    · rw [hnil]
      rfl
    · rw [hnil]
      rfl
    · rw [hnil]
      exact List.Pairwise.nil
    · rw [hnil]
      exact fun bucket h ↦ absurd h List.not_mem_nil
  obtain ⟨first, last, hfirst, hlast, hbounds, heq⟩ := aggregateBuckets_eq hz hb hyears hne
  have hmem : ∀ p ∈ points, bucketNumber z b p.hour ∈ numbersOf b first last := fun p hp ↦
    bucketNumber_mem hb (hbounds p hp).1 (hbounds p hp).2
  have hpairwise : (numbersOf b first last).Pairwise (· < ·) := pairwise_upTo _ _
  have hnodup : (numbersOf b first last).Nodup := hpairwise.imp fun hlt ↦ hlt.ne
  have hstarts : (aggregateBuckets z points b).map Bucket.startHour =
      (numbersOf b first last).map (startOf z b) := by
    rw [heq, List.map_map]
    exact List.map_congr_left fun k _ ↦ startHour_filled k
  refine ⟨?_, ?_, ?_, fun _ ↦ ⟨first, last, hfirst, hlast, hbounds, hmem, hstarts, heq⟩, ?_, ?_⟩
  · rw [heq]
    exact sum_filled hnodup hmem Bucket.vehicleTotal HourlyDataPoint.vehicleCount fun k ↦
      (finish_eq _).1.trans (totals_filled k).vehicles
  · rw [heq]
    exact sum_filled hnodup hmem Bucket.bunchingTotal HourlyDataPoint.bunchingEvents fun k ↦
      (finish_eq _).2.1.trans (totals_filled k).bunching
  · -- the number of points is the sum of ones, and every point is in one bucket
    have hones (ps : List HourlyDataPoint) : ps.length = (ps.map fun _ ↦ 1).sum := by
      induction ps with
      | nil => rfl
      | cons p ps ih => rw [List.length_cons, ih, List.map_cons, List.sum_cons, add_comm]
    rw [heq, hones]
    refine sum_filled hnodup hmem (fun bucket ↦ bucket.hours + bucket.noService) (fun _ ↦ 1)
      fun k ↦ ?_
    rw [(finish_eq _).2.2.1, (finish_eq _).2.2.2.1, (totals_filled k).points, hones]
  · rw [hstarts, List.pairwise_map]
    exact hpairwise.imp fun hlt ↦ startOf_lt hz hb hlt
  · rw [heq]
    intro bucket hbucket
    obtain ⟨k, -, rfl⟩ := List.mem_map.mp hbucket
    exact (weighs_foldl (weighs_newBucket ..) _).onTimeBetween

end

/-! ## A zone with summer time -/

/-- Five hours behind, and four from the second Sunday of March to the first one of November. -/
def summerTime : TimeZone where
  initial := -5 * millisPerHour
  transitions := [(1772953200000, -4 * millisPerHour), (1793512800000, -5 * millisPerHour)]
  spaced := by decide

theorem usual_summerTime : Usual summerTime where
  gentle := ⟨by decide, by decide, trivial⟩
  near u := by
    have hepoch : epochDay summerTime = 5 * millisPerHour := by decide
    have hoffset : summerTime.offset u =
        if u < 1772953200000 then -5 * millisPerHour
        else if u < 1793512800000 then -4 * millisPerHour else -5 * millisPerHour := rfl
    rw [hepoch, hoffset]
    split_ifs <;> decide

/-- A night of 23 hours in halves of a day. -/
theorem conservesHistory_summerTime :
    (∀ p ∈ [HourlyDataPoint.mk 1772942400000 10 20 3 90 0, ⟨1772956800000, 0, 0, 0, 0, 0⟩],
        100 ≤ getFullYear summerTime p.hour) ∧
      ConservesHistory summerTime
        [⟨1772942400000, 10, 20, 3, 90, 0⟩, ⟨1772956800000, 0, 0, 0, 0, 0⟩] 12 := by
  have hyears : ∀ p ∈ [HourlyDataPoint.mk 1772942400000 10 20 3 90 0,
      ⟨1772956800000, 0, 0, 0, 0, 0⟩], 100 ≤ getFullYear summerTime p.hour := by
    decide
  exact ⟨hyears, conservesHistory usual_summerTime (by decide) hyears⟩

end GtfsStream.Frontend
