import GtfsStream.Hourly.Accumulator

/-!
# The two implementations of the 95th percentile

`_compute_p95` fills the table that `computeP95` of the API summarises again. Both interpolate
between the neighbours of the position `0.95 * (n - 1)`, over numbers that are exact here. They
differ in the upper neighbour: the next element, or the ceiling of the position, which is the same
unless the position is an element's, whose upper neighbour then has no weight.

An access outside the list is an `IndexError` in one of them, and a zero in the other.

## Below and above the position

The position lies between two neighbours, and its distance from the lower one is the weight of the
upper one. Both functions are shown to be the same interpolation of the same two elements, so their
bounds and their growth are those of a weighted mean. That the indices stay inside the list is a
statement about its length alone.
-/

namespace GtfsStream.Hourly

/-! ## In Python -/

namespace PgWriter

/-- `values[i]`; none for an `IndexError`. A negative index counts from the end. -/
def item (values : List ℚ) (i : ℤ) : Option ℚ :=
  if 0 ≤ i then values[i.toNat]?
  else if 0 ≤ values.length + i then values[(values.length + i).toNat]?
  else none

/-- `int(x)`, which drops the fraction. -/
def int (x : ℚ) : ℤ := if 0 ≤ x then ⌊x⌋ else ⌈x⌉

/-- The position among so many values, and the two indexes next to it. -/
def floatIndex (length : ℤ) : ℚ := 0.95 * (length - 1 : ℤ)

def lowerIndex (length : ℤ) : ℤ := max 0 (int (floatIndex length))

def upperIndex (length : ℤ) : ℤ := min (length - 1) (lowerIndex length + 1)

def computeP95 (sortedValues : List ℚ) : Option ℚ :=
  match sortedValues with
  | [] => some 0
  | [value] => some value
  | values => do
    let lowerValue ← item values (lowerIndex values.length)
    let upperValue ← item values (upperIndex values.length)
    let weight := floatIndex values.length - lowerIndex values.length
    return lowerValue * (1 - weight) + upperValue * weight

end PgWriter

/-! ## In TypeScript -/

namespace RoutePerformance

/-- `sorted[i]`; none for `undefined`. -/
def element (sorted : List ℚ) (i : ℤ) : Option ℚ := if 0 ≤ i then sorted[i.toNat]? else none

def floatIndex (length : ℤ) : ℚ := 0.95 * (length - 1 : ℤ)

def lowerIndex (length : ℤ) : ℤ := max 0 ⌊floatIndex length⌋

def upperIndex (length : ℤ) : ℤ := min (length - 1) ⌈floatIndex length⌉

def computeP95 (sorted : List ℚ) : ℚ :=
  match sorted with
  | [] => 0
  | [value] => value
  | values =>
    let weight := floatIndex values.length - lowerIndex values.length
    let lowerValue := (element values (lowerIndex values.length)).getD 0
    let upperValue := (element values (upperIndex values.length)).getD 0
    lowerValue * (1 - weight) + upperValue * weight

end RoutePerformance

open RoutePerformance (lowerIndex upperIndex floatIndex)

/-- The implementations agree on a value that is between two neighbours and grows with the list. -/
structure PercentilesAgree : Prop where
  agree : ∀ values, PgWriter.computeP95 values = some (RoutePerformance.computeP95 values)
  between : ∀ values : List ℚ, values ≠ [] → values.Pairwise (· ≤ ·) →
    (∃ i : ℕ, i = ⌊(0.95 : ℚ) * (values.length - 1 : ℕ)⌋ ∧ ∃ lower upper,
      values[i]? = some lower ∧ values[i + 1]? = some upper ∧
        lower ≤ RoutePerformance.computeP95 values ∧
        RoutePerformance.computeP95 values ≤ upper) ∨
    values = [RoutePerformance.computeP95 values]
  monotone : ∀ values raised : List ℚ, values.Pairwise (· ≤ ·) → raised.Pairwise (· ≤ ·) →
    List.Forall₂ (· ≤ ·) values raised →
    RoutePerformance.computeP95 values ≤ RoutePerformance.computeP95 raised
  /-- No index is out of range. -/
  inRange : ∀ length : ℤ, 0 < length →
    ∀ i ∈ [PgWriter.lowerIndex length, PgWriter.upperIndex length, lowerIndex length,
      upperIndex length], 0 ≤ i ∧ i < length

/-! ## The position -/

section

variable {n : ℕ}

/-- The index below the position. -/
def below (n : ℕ) : ℕ := 95 * (n - 1) / 100

/-- How far the position is above this index. -/
def share (n : ℕ) : ℚ := 0.95 * (n - 1 : ℕ) - below n

theorem floor_position : ⌊(0.95 : ℚ) * (n - 1 : ℕ)⌋ = below n := by
  have hquot : (0.95 : ℚ) * (n - 1 : ℕ) = ((95 * (n - 1) : ℕ) : ℚ) / (100 : ℕ) := by
    push_cast
    ring
  rw [hquot, Rat.floor_natCast_div_natCast, below]
  rfl

theorem share_nonneg : 0 ≤ share n := by
  have hfloor := Int.floor_le ((0.95 : ℚ) * (n - 1 : ℕ))
  rw [floor_position, Int.cast_natCast] at hfloor
  exact sub_nonneg.mpr hfloor

theorem share_lt_one : share n < 1 := by
  have hfloor := Int.lt_floor_add_one ((0.95 : ℚ) * (n - 1 : ℕ))
  rw [floor_position, Int.cast_natCast] at hfloor
  exact sub_lt_iff_lt_add'.mpr hfloor

theorem below_add_one_lt (hn : 2 ≤ n) : below n + 1 < n := by
  rw [below]
  omega

variable (hn : 1 ≤ n)
include hn

theorem floatIndex_eq : floatIndex n = below n + share n := by
  rw [floatIndex, share, add_sub_cancel, ← Nat.cast_one, ← Nat.cast_sub hn, Int.cast_natCast]

theorem lowerIndex_eq : lowerIndex n = below n := by
  have hposition : floatIndex n = 0.95 * (n - 1 : ℕ) := by
    rw [floatIndex, ← Nat.cast_one, ← Nat.cast_sub hn, Int.cast_natCast]
  rw [lowerIndex, hposition, floor_position]
  exact max_eq_right (Nat.cast_nonneg _)

theorem PgWriter.floatIndex_eq : PgWriter.floatIndex n = below n + share n :=
  Hourly.floatIndex_eq hn

/-- The position is not negative, so dropping its fraction is rounding down. -/
theorem PgWriter.lowerIndex_eq : PgWriter.lowerIndex n = below n := by
  have hnonneg : 0 ≤ PgWriter.floatIndex n := by
    rw [PgWriter.floatIndex_eq hn]
    exact add_nonneg (Nat.cast_nonneg _) share_nonneg
  rw [PgWriter.lowerIndex, PgWriter.int, if_pos hnonneg]
  exact Hourly.lowerIndex_eq hn

theorem PgWriter.upperIndex_eq : PgWriter.upperIndex n = min (n - 1 : ℕ) (below n + 1 : ℕ) := by
  rw [PgWriter.upperIndex, PgWriter.lowerIndex_eq hn]
  omega

/-- The ceiling is the next index, or the same one if the position is that index. -/
theorem upperIndex_eq :
    upperIndex n = if share n = 0 then (below n : ℤ) else min (n - 1 : ℕ) (below n + 1 : ℕ) := by
  rw [upperIndex, Hourly.floatIndex_eq hn]
  split_ifs with hshare
  · rw [hshare, add_zero, Int.ceil_natCast, min_eq_right]
    rw [below]
    omega
  · have hpos : 0 < share n := share_nonneg.lt_of_ne' hshare
    have hceil : ⌈(below n : ℚ) + share n⌉ = (below n + 1 : ℕ) := by
      rw [Int.ceil_eq_iff]
      push_cast
      exact ⟨by linarith, by linarith [share_lt_one (n := n)]⟩
    rw [hceil]
    omega

end

/-! ## The value -/

section

variable {values : List ℚ} (hlength : 2 ≤ values.length)

/-- What is between two values, `w` of the way to the second one. -/
def interpolate (a b w : ℚ) : ℚ := a * (1 - w) + b * w

theorem interpolate_le {a b a' b' w : ℚ} (hlower : a ≤ a') (hupper : b ≤ b') (hw : 0 ≤ w)
    (hw' : w ≤ 1) : interpolate a b w ≤ interpolate a' b' w :=
  add_le_add (mul_le_mul_of_nonneg_right hlower (sub_nonneg.mpr hw'))
    (mul_le_mul_of_nonneg_right hupper hw)

theorem interpolate_self (a w : ℚ) : interpolate a a w = a := by
  rw [interpolate]
  ring

/-- The element below the position, and the one above it. -/
def neighbours (values : List ℚ) (hlength : 2 ≤ values.length) : ℚ × ℚ :=
  (values.get ⟨below values.length, (Nat.lt_succ_self _).trans (below_add_one_lt hlength)⟩,
    values.get ⟨below values.length + 1, below_add_one_lt hlength⟩)

include hlength

theorem getElem?_below : values[below values.length]? = some (neighbours values hlength).1 :=
  List.getElem?_eq_getElem _

theorem getElem?_below_add_one :
    values[below values.length + 1]? = some (neighbours values hlength).2 :=
  List.getElem?_eq_getElem _

theorem PgWriter.computeP95_eq : PgWriter.computeP95 values =
    some (interpolate (neighbours values hlength).1 (neighbours values hlength).2
      (share values.length)) := by
  have hpos : 1 ≤ values.length := by omega
  have hupper : PgWriter.upperIndex values.length = (below values.length + 1 : ℕ) := by
    have hlt := below_add_one_lt hlength
    rw [PgWriter.upperIndex_eq hpos]
    omega
  rcases values with _ | ⟨first, _ | ⟨second, rest⟩⟩
  · exact absurd hlength (by decide)
  · exact absurd hlength (Nat.not_succ_le_self 1)
  unfold PgWriter.computeP95
  dsimp only
  rw [PgWriter.lowerIndex_eq hpos, hupper, PgWriter.floatIndex_eq hpos, PgWriter.item,
    PgWriter.item, if_pos (Nat.cast_nonneg _), if_pos (Nat.cast_nonneg _), Int.toNat_natCast,
    Int.toNat_natCast, getElem?_below hlength, getElem?_below_add_one hlength, interpolate]
  change some _ = some _
  rw [Int.cast_natCast, add_sub_cancel_left]

theorem RoutePerformance.computeP95_eq : RoutePerformance.computeP95 values =
    interpolate (neighbours values hlength).1 (neighbours values hlength).2
      (share values.length) := by
  have hpos : 1 ≤ values.length := by omega
  have hlt := below_add_one_lt hlength
  have hupper := Hourly.upperIndex_eq hpos
  rcases values with _ | ⟨first, _ | ⟨second, rest⟩⟩
  · exact absurd hlength (by decide)
  · exact absurd hlength (Nat.not_succ_le_self 1)
  unfold RoutePerformance.computeP95
  dsimp only
  rw [Hourly.lowerIndex_eq hpos, Hourly.floatIndex_eq hpos, RoutePerformance.element,
    if_pos (Nat.cast_nonneg _), Int.toNat_natCast, getElem?_below hlength, Option.getD_some,
    Int.cast_natCast, add_sub_cancel_left, hupper, interpolate]
  split_ifs with hshare
  · rw [hshare, mul_zero, mul_zero]
  · rw [min_eq_right (by omega), RoutePerformance.element, if_pos (Nat.cast_nonneg _),
      Int.toNat_natCast, getElem?_below_add_one hlength, Option.getD_some]

end

theorem length_cases (values : List ℚ) :
    values = [] ∨ (∃ value, values = [value]) ∨ 2 ≤ values.length := by
  rcases values with _ | ⟨first, _ | ⟨second, rest⟩⟩
  · exact Or.inl rfl
  · exact Or.inr (Or.inl ⟨first, rfl⟩)
  · exact Or.inr (Or.inr (by rw [List.length_cons, List.length_cons]; omega))

theorem neighbours_le {values raised : List ℚ} (hlength : 2 ≤ values.length)
    (hlength' : 2 ≤ raised.length) (hraised : List.Forall₂ (· ≤ ·) values raised) :
    (neighbours values hlength).1 ≤ (neighbours raised hlength').1 ∧
      (neighbours values hlength).2 ≤ (neighbours raised hlength').2 := by
  obtain ⟨hlengths, hget⟩ := List.forall₂_iff_get.mp hraised
  have hlt := below_add_one_lt hlength
  rw [neighbours, neighbours]
  simp only [← hlengths]
  exact ⟨hget _ _ _, hget _ _ _⟩

theorem computeP95_agree (values : List ℚ) :
    PgWriter.computeP95 values = some (RoutePerformance.computeP95 values) := by
  rcases length_cases values with rfl | ⟨value, rfl⟩ | hlength
  · rfl
  · rfl
  · rw [PgWriter.computeP95_eq hlength, RoutePerformance.computeP95_eq hlength]

theorem computeP95_inSeconds (values : List Time) :
    PgWriter.computeP95 (values.map inSeconds) = some (computeP95 values) := by
  rcases values with _ | ⟨first, _ | ⟨second, rest⟩⟩
  · rfl
  · rfl
  set values := first :: second :: rest with hvalues
  have hlength : 2 ≤ values.length := Nat.le_add_left 2 rest.length
  have hmap : (values.map inSeconds).length = values.length := List.length_map _
  have hget {k : ℕ} (hk : k < values.length) : inSeconds (values.getD k 0) =
      (values.map inSeconds).get ⟨k, hk.trans_eq hmap.symm⟩ := by
    rw [List.getD_eq_getElem?_getD, List.getElem?_eq_getElem hk, Option.getD_some,
      List.get_eq_getElem, List.getElem_map]
  -- the bound of the upper position is never reached, and the share is the same
  have hupper : min (values.length - 1) (below values.length + 1) = below values.length + 1 :=
    min_eq_right (Nat.le_sub_one_of_lt (below_add_one_lt hlength))
  have hshare : (95 * (values.length - 1 : ℕ) / 100 : ℚ) - below values.length =
      share values.length := by
    rw [share]
    ring
  have hcompute : computeP95 values =
      inSeconds (values.getD (below values.length) 0) * (1 - share values.length) +
        inSeconds (values.getD (below values.length + 1) 0) * share values.length := by
    rw [← hshare, ← hupper]
    rfl
  have hbelow := below_add_one_lt hlength
  rw [PgWriter.computeP95_eq (hlength.trans_eq hmap.symm), interpolate, hcompute, hget hbelow,
    hget ((Nat.lt_succ_self _).trans hbelow), neighbours]
  simp only [hmap]

/-- **The two percentiles agree**, lie between two neighbours, grow with the list, and never reach
outside it. -/
theorem percentilesAgree : PercentilesAgree where
  agree := computeP95_agree
  between values hne hsorted := by
    rcases length_cases values with rfl | ⟨value, rfl⟩ | hlength
    · exact absurd rfl hne
    · exact Or.inr rfl
    · refine Or.inl ⟨below values.length, floor_position.symm, _, _, getElem?_below hlength,
        getElem?_below_add_one hlength, ?_⟩
      have hle : (neighbours values hlength).1 ≤ (neighbours values hlength).2 :=
        List.pairwise_iff_get.mp hsorted _ _ (Nat.lt_succ_self (below values.length))
      rw [RoutePerformance.computeP95_eq hlength]
      constructor
      · calc (neighbours values hlength).1
            = interpolate (neighbours values hlength).1 (neighbours values hlength).1
                (share values.length) := (interpolate_self _ _).symm
          _ ≤ _ := interpolate_le le_rfl hle share_nonneg share_lt_one.le
      · calc interpolate (neighbours values hlength).1 (neighbours values hlength).2
              (share values.length)
            ≤ interpolate (neighbours values hlength).2 (neighbours values hlength).2
                (share values.length) := interpolate_le hle le_rfl share_nonneg share_lt_one.le
          _ = _ := interpolate_self _ _
  monotone values raised _ _ hraised := by
    have hlengths := hraised.length_eq
    rcases length_cases values with rfl | ⟨value, rfl⟩ | hlength
    · rw [List.forall₂_nil_left_iff.mp hraised]
    · obtain ⟨value', rest, hle, hrest, rfl⟩ := List.forall₂_cons_left_iff.mp hraised
      rw [List.forall₂_nil_left_iff.mp hrest]
      exact hle
    · have hlength' : 2 ≤ raised.length := hlengths ▸ hlength
      rw [RoutePerformance.computeP95_eq hlength, RoutePerformance.computeP95_eq hlength',
        ← hlengths]
      exact interpolate_le (neighbours_le hlength hlength' hraised).1
        (neighbours_le hlength hlength' hraised).2 share_nonneg share_lt_one.le
  -- both pairs of positions are those of `below`, also where the length is one
  inRange length hpos i hi := by
    lift length to ℕ using hpos.le
    have hlength : 1 ≤ length := by omega
    have hbelow : below length < length := by
      rw [below]
      omega
    rw [PgWriter.lowerIndex_eq hlength, PgWriter.upperIndex_eq hlength,
      Hourly.lowerIndex_eq hlength, Hourly.upperIndex_eq hlength] at hi
    simp only [List.mem_cons, List.not_mem_nil, or_false] at hi
    split_ifs at hi <;> omega

end GtfsStream.Hourly
