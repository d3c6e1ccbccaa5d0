import Mathlib.Algebra.Order.Floor.Ring
import Mathlib.Algebra.Order.Ring.Rat
import Mathlib.Data.Int.Log
import Mathlib.Data.Rat.Floor
import Mathlib.Order.WithBot
import Mathlib.Tactic.FieldSimp
import Mathlib.Tactic.Linarith
import Mathlib.Tactic.NormNum
import Mathlib.Tactic.Positivity
import Mathlib.Tactic.Ring

/-!
# Arithmetic of binary64 numbers

A finite binary64 number is a rational with 53 binary digits whose last place is not below
`2 ^ -1074`, and which is less than `2 ^ 1024`. An operation rounds its exact result to the nearest
of them, a tie to the even one, and gives an infinity where the rounded result is too large.

The three facts that proofs rely on are that rounding is monotone, that it leaves the binary64
numbers where they are, and that its error is half a unit of the last place at most. Zeros are not
told apart by their sign.
-/

namespace GtfsStream.Binary64

/-! ## Rounding to an integer -/

/-- The nearest integer. A tie goes to the even one. -/
def roundHalfEven (x : ℚ) : ℤ :=
  if Int.fract x < 1 / 2 ∨ Int.fract x = 1 / 2 ∧ ⌊x⌋ % 2 = 0 then ⌊x⌋ else ⌊x⌋ + 1

@[simp] theorem roundHalfEven_intCast (n : ℤ) : roundHalfEven n = n := by
  rw [roundHalfEven, Int.fract_intCast, Int.floor_intCast, if_pos (Or.inl (by norm_num))]

theorem floor_le_roundHalfEven (x : ℚ) : ⌊x⌋ ≤ roundHalfEven x := by
  rw [roundHalfEven]
  split_ifs <;> omega

theorem roundHalfEven_le_floor_add_one (x : ℚ) : roundHalfEven x ≤ ⌊x⌋ + 1 := by
  rw [roundHalfEven]
  split_ifs <;> omega

theorem roundHalfEven_mono {x y : ℚ} (h : x ≤ y) : roundHalfEven x ≤ roundHalfEven y := by
  rcases (Int.floor_le_floor h).eq_or_lt with heq | hlt
  · have hfract : Int.fract x ≤ Int.fract y := by
      rw [Int.fract, Int.fract, heq]
      exact sub_le_sub_right h _
    rw [roundHalfEven, roundHalfEven, heq]
    split_ifs with hx hy hy
    · exact le_rfl
    · omega
    · -- a larger fraction is not rounded down where a smaller one is rounded up
      exfalso
      obtain ⟨hge, hodd⟩ := not_or.mp hx
      rcases hy with hlt | ⟨htie, heven⟩
      · exact hge (hfract.trans_lt hlt)
      · exact hodd ⟨le_antisymm (htie ▸ hfract) (not_lt.mp hge), heven⟩
    · exact le_rfl
  · calc roundHalfEven x ≤ ⌊x⌋ + 1 := roundHalfEven_le_floor_add_one x
      _ ≤ ⌊y⌋ := hlt
      _ ≤ roundHalfEven y := floor_le_roundHalfEven y

theorem roundHalfEven_le {x : ℚ} {n : ℤ} (h : x ≤ n) : roundHalfEven x ≤ n := by
  simpa only [roundHalfEven_intCast] using roundHalfEven_mono h

theorem le_roundHalfEven {x : ℚ} {n : ℤ} (h : (n : ℚ) ≤ x) : n ≤ roundHalfEven x := by
  simpa only [roundHalfEven_intCast] using roundHalfEven_mono h

theorem abs_roundHalfEven_sub_le (x : ℚ) : |(roundHalfEven x : ℚ) - x| ≤ 1 / 2 := by
  have hfract := Int.floor_add_fract x
  have hnonneg := Int.fract_nonneg x
  have hlt := Int.fract_lt_one x
  rw [roundHalfEven, abs_le]
  split_ifs with hdown
  · have hhalf : Int.fract x ≤ 1 / 2 := hdown.elim le_of_lt fun h ↦ h.1.le
    constructor <;> linarith
  · have hhalf : 1 / 2 ≤ Int.fract x := not_lt.mp fun h ↦ hdown (Or.inl h)
    push_cast
    constructor <;> linarith

/-! ## Rounding to 53 digits -/

/-- The exponent of the last place of a positive number. -/
def lastPlace (q : ℚ) : ℤ := max (Int.log 2 q - 52) (-1074)

/-- The nearest number with 53 binary digits, of a number that is not negative. -/
def roundPos (q : ℚ) : ℚ := roundHalfEven (q / 2 ^ lastPlace q) * 2 ^ lastPlace q

/-- The nearest number with 53 binary digits. Rounding is symmetric. -/
def roundRat (q : ℚ) : ℚ := if 0 ≤ q then roundPos q else -roundPos (-q)

/-- The number has 53 binary digits, none of which is below `2 ^ -1074`. -/
def IsDyadic (q : ℚ) : Prop := ∃ m k : ℤ, |m| < 2 ^ 53 ∧ -1074 ≤ k ∧ q = m * 2 ^ k

theorem two_zpow_pos (k : ℤ) : (0 : ℚ) < 2 ^ k := zpow_pos two_pos k

theorem roundPos_zero : roundPos 0 = 0 := by
  rw [roundPos, zero_div, ← Int.cast_zero, roundHalfEven_intCast, Int.cast_zero, zero_mul]

theorem roundPos_nonneg {q : ℚ} (h : 0 ≤ q) : 0 ≤ roundPos q := by
  have hnonneg : (0 : ℤ) ≤ roundHalfEven (q / 2 ^ lastPlace q) :=
    le_roundHalfEven (by rw [Int.cast_zero]; exact div_nonneg h (two_zpow_pos _).le)
  exact mul_nonneg (Int.cast_nonneg hnonneg) (two_zpow_pos _).le

theorem lt_of_lastPlace (q : ℚ) : q < 2 ^ (lastPlace q + 53) := by
  refine (Int.lt_zpow_succ_log_self (b := 2) one_lt_two q).trans_le ?_
  rw [Nat.cast_ofNat]
  refine zpow_le_zpow_right₀ one_le_two ?_
  rw [lastPlace]
  omega

/-- A number is rounded to one that has the digits of the next power of two at most. -/
theorem roundPos_le (q : ℚ) : roundPos q ≤ 2 ^ (lastPlace q + 53) := by
  have hquot : q / 2 ^ lastPlace q ≤ ((2 ^ 53 : ℤ) : ℚ) := by
    rw [div_le_iff₀ (two_zpow_pos _)]
    refine (lt_of_lastPlace q).le.trans_eq ?_
    rw [zpow_add₀ two_ne_zero, mul_comm]
    norm_num
  have hround : ((roundHalfEven (q / 2 ^ lastPlace q) : ℤ) : ℚ) ≤ 2 ^ 53 := by
    exact_mod_cast roundHalfEven_le hquot
  rw [roundPos, zpow_add₀ two_ne_zero, mul_comm]
  exact mul_le_mul_of_nonneg_left (by exact_mod_cast hround) (two_zpow_pos _).le

/-- Unless the last place is the least one, the first digit is not rounded away. -/
theorem le_roundPos {q : ℚ} (h : 0 < q) (hplace : -1074 < lastPlace q) :
    2 ^ (lastPlace q + 52) ≤ roundPos q := by
  have hlog : lastPlace q + 52 = Int.log 2 q := by
    rw [lastPlace] at hplace ⊢
    omega
  have hle : (2 : ℚ) ^ (lastPlace q + 52) ≤ q := by
    rw [hlog]
    exact_mod_cast Int.zpow_log_le_self (b := 2) one_lt_two h
  have hquot : ((2 ^ 52 : ℤ) : ℚ) ≤ q / 2 ^ lastPlace q := by
    rw [le_div_iff₀ (two_zpow_pos _)]
    refine le_trans (le_of_eq ?_) hle
    rw [zpow_add₀ two_ne_zero, mul_comm]
    norm_num
  have hround : (2 : ℚ) ^ 52 ≤ ((roundHalfEven (q / 2 ^ lastPlace q) : ℤ) : ℚ) := by
    exact_mod_cast le_roundHalfEven hquot
  rw [roundPos, zpow_add₀ two_ne_zero, mul_comm]
  exact mul_le_mul_of_nonneg_right (by exact_mod_cast hround) (two_zpow_pos _).le

theorem lastPlace_mono {a b : ℚ} (ha : 0 < a) (hab : a ≤ b) : lastPlace a ≤ lastPlace b :=
  max_le_max (sub_le_sub_right (Int.log_mono_right ha hab) 52) le_rfl

/-- **Rounding is monotone**, also from one last place to another. -/
theorem roundPos_mono {a b : ℚ} (ha : 0 ≤ a) (hab : a ≤ b) : roundPos a ≤ roundPos b := by
  rcases ha.eq_or_lt with rfl | ha
  · rw [roundPos_zero]
    exact roundPos_nonneg hab
  rcases (lastPlace_mono ha hab).eq_or_lt with heq | hlt
  · rw [roundPos, roundPos, heq]
    refine mul_le_mul_of_nonneg_right (Int.cast_le.mpr (roundHalfEven_mono ?_)) (two_zpow_pos _).le
    exact div_le_div_of_nonneg_right hab (two_zpow_pos _).le
  · have hplace : -1074 < lastPlace b := (le_max_right _ _).trans_lt hlt
    calc roundPos a ≤ 2 ^ (lastPlace a + 53) := roundPos_le a
      _ ≤ 2 ^ (lastPlace b + 52) := zpow_le_zpow_right₀ one_le_two (by omega)
      _ ≤ roundPos b := le_roundPos (ha.trans_le hab) hplace

/-- **The error is half a unit of the last place at most**, also with the last place of a larger
number. -/
theorem abs_roundPos_sub_le {q : ℚ} {k : ℤ} (hq : 0 ≤ q) (hlt : q < 2 ^ (k + 53)) (hk : -1074 ≤ k) :
    |roundPos q - q| ≤ 2 ^ k / 2 := by
  rcases hq.eq_or_lt with rfl | hpos
  · rw [roundPos_zero, sub_zero, abs_zero]
    exact div_nonneg (two_zpow_pos k).le two_pos.le
  have hplace : lastPlace q ≤ k := by
    have hlog : Int.log 2 q < k + 53 :=
      (Int.lt_zpow_iff_log_lt one_lt_two hpos).mp (by exact_mod_cast hlt)
    rw [lastPlace]
    omega
  have hunit : roundPos q - q =
      (roundHalfEven (q / 2 ^ lastPlace q) - q / 2 ^ lastPlace q) * 2 ^ lastPlace q := by
    rw [roundPos, sub_mul, div_mul_cancel₀ _ (two_zpow_pos _).ne']
  calc |roundPos q - q|
      = |(roundHalfEven (q / 2 ^ lastPlace q) : ℚ) - q / 2 ^ lastPlace q| * 2 ^ lastPlace q := by
        rw [hunit, abs_mul, abs_of_pos (two_zpow_pos (lastPlace q))]
    _ ≤ 1 / 2 * 2 ^ k := mul_le_mul (abs_roundHalfEven_sub_le _)
        (zpow_le_zpow_right₀ one_le_two hplace) (two_zpow_pos _).le (by norm_num)
    _ = 2 ^ k / 2 := by ring

/-! ## The numbers that are not rounded -/

theorem isDyadic_zero : IsDyadic 0 := ⟨0, 0, by decide, by decide, by norm_num⟩

theorem IsDyadic.neg {q : ℚ} (h : IsDyadic q) : IsDyadic (-q) := by
  obtain ⟨m, k, hm, hk, rfl⟩ := h
  exact ⟨-m, k, by rwa [abs_neg], hk, by push_cast; ring⟩

theorem IsDyadic.mul_two_pow {q : ℚ} (h : IsDyadic q) (n : ℕ) : IsDyadic (q * 2 ^ n) := by
  obtain ⟨m, k, hm, hk, rfl⟩ := h
  refine ⟨m, k + n, hm, by omega, ?_⟩
  rw [zpow_add₀ two_ne_zero, zpow_natCast, mul_assoc]

theorem isDyadic_two_pow (n : ℕ) : IsDyadic (2 ^ n) :=
  ⟨1, n, by norm_num, by omega, by rw [Int.cast_one, one_mul, zpow_natCast]⟩

/-- **A number with 53 digits is not rounded.** -/
theorem roundPos_of_isDyadic {q : ℚ} (hq : 0 ≤ q) (h : IsDyadic q) : roundPos q = q := by
  rcases hq.eq_or_lt with rfl | hpos
  · exact roundPos_zero
  obtain ⟨m, k, hm, hk, heq⟩ := h
  have hlt : q < 2 ^ (k + 53) := by
    have hm' : (m : ℚ) < 2 ^ 53 := by exact_mod_cast (abs_lt.mp hm).2
    rw [heq, zpow_add₀ two_ne_zero, mul_comm]
    exact mul_lt_mul_of_pos_left (by exact_mod_cast hm') (two_zpow_pos k)
  have hplace : lastPlace q ≤ k := by
    have hlog : Int.log 2 q < k + 53 :=
      (Int.lt_zpow_iff_log_lt one_lt_two hpos).mp (by exact_mod_cast hlt)
    rw [lastPlace]
    omega
  -- in units of the last place the number is whole
  obtain ⟨j, hj⟩ := Int.eq_ofNat_of_zero_le (sub_nonneg.mpr hplace)
  have hpow : (2 : ℚ) ^ k = 2 ^ j * 2 ^ lastPlace q := by
    rw [show k = j + lastPlace q by omega, zpow_add₀ two_ne_zero, zpow_natCast]
  have hquot : q / 2 ^ lastPlace q = ((m * 2 ^ j : ℤ) : ℚ) := by
    rw [div_eq_iff (two_zpow_pos _).ne']
    refine heq.trans ?_
    rw [hpow]
    push_cast
    ring
  rw [roundPos, hquot, roundHalfEven_intCast, ← hquot, div_mul_cancel₀ _ (two_zpow_pos _).ne']

theorem isDyadic_roundPos {q : ℚ} (hq : 0 ≤ q) : IsDyadic (roundPos q) := by
  rcases hq.eq_or_lt with rfl | hpos
  · rw [roundPos_zero]
    exact isDyadic_zero
  have hplace : -1074 ≤ lastPlace q := le_max_right _ _
  have hnonneg : 0 ≤ roundHalfEven (q / 2 ^ lastPlace q) :=
    le_roundHalfEven (by rw [Int.cast_zero]; exact div_nonneg hq (two_zpow_pos _).le)
  have hle : roundHalfEven (q / 2 ^ lastPlace q) ≤ 2 ^ 53 := by
    refine roundHalfEven_le ?_
    rw [div_le_iff₀ (two_zpow_pos _)]
    refine (lt_of_lastPlace q).le.trans_eq ?_
    rw [zpow_add₀ two_ne_zero, mul_comm]
    norm_num
  rcases hle.eq_or_lt with heq | hlt
  · -- a carry into the next power of two
    refine ⟨1, lastPlace q + 53, by norm_num, by omega, ?_⟩
    rw [roundPos, heq, zpow_add₀ two_ne_zero, mul_comm]
    norm_num
  · exact ⟨_, lastPlace q, by rwa [abs_of_nonneg hnonneg], hplace, rfl⟩

theorem roundRat_of_isDyadic {q : ℚ} (h : IsDyadic q) : roundRat q = q := by
  rw [roundRat]
  split_ifs with hq
  · exact roundPos_of_isDyadic hq h
  · rw [roundPos_of_isDyadic (neg_nonneg.mpr (not_le.mp hq).le) h.neg, neg_neg]

theorem isDyadic_roundRat (q : ℚ) : IsDyadic (roundRat q) := by
  rw [roundRat]
  split_ifs with hq
  · exact isDyadic_roundPos hq
  · exact (isDyadic_roundPos (neg_nonneg.mpr (not_le.mp hq).le)).neg

theorem roundRat_mono {a b : ℚ} (h : a ≤ b) : roundRat a ≤ roundRat b := by
  rw [roundRat, roundRat]
  split_ifs with ha hb hb
  · exact roundPos_mono ha h
  · exact absurd (ha.trans h) hb
  · exact (neg_nonpos.mpr (roundPos_nonneg (neg_nonneg.mpr (not_le.mp ha).le))).trans
      (roundPos_nonneg hb)
  · exact neg_le_neg (roundPos_mono (neg_nonneg.mpr (not_le.mp hb).le) (neg_le_neg h))

theorem roundRat_nonneg {q : ℚ} (h : 0 ≤ q) : 0 ≤ roundRat q := by
  rw [roundRat, if_pos h]
  exact roundPos_nonneg h

theorem roundRat_le {q r : ℚ} (h : q ≤ r) (hr : IsDyadic r) : roundRat q ≤ r :=
  (roundRat_mono h).trans_eq (roundRat_of_isDyadic hr)

theorem isDyadic_natCast {n : ℕ} (h : n < 2 ^ 53) : IsDyadic n :=
  ⟨n, 0, by rw [abs_of_nonneg (Int.natCast_nonneg n)]; exact_mod_cast h, by omega, by simp⟩

theorem isDyadic_one : IsDyadic 1 := by
  simpa only [Nat.cast_one] using isDyadic_natCast (show 1 < 2 ^ 53 by norm_num)

theorem roundRat_mul_bounds {q : ℚ} {n : ℕ} (hq : 0 ≤ q) (hone : q ≤ 1) (hn : n < 2 ^ 53) :
    0 ≤ roundRat (roundRat q * n) ∧ roundRat (roundRat q * n) ≤ n := by
  have hround : roundRat q ≤ 1 := roundRat_le hone isDyadic_one
  have hn' : (0 : ℚ) ≤ n := Nat.cast_nonneg n
  constructor
  · exact roundRat_nonneg (mul_nonneg (roundRat_nonneg hq) hn')
  · exact roundRat_le (mul_le_of_le_one_left hn' hround) (isDyadic_natCast hn)

/-- The error of a share that is computed and then scaled: half a unit of the last place each. -/
theorem abs_roundRat_mul_sub_le {q : ℚ} {n : ℕ} {k : ℤ} (hq : 0 ≤ q) (hone : q ≤ 1)
    (hn : (n : ℚ) < 2 ^ (k + 53)) (hk : -1074 ≤ k) :
    |roundRat (roundRat q * n) - q * n| ≤ 2 ^ k / 2 + n / 2 ^ 53 := by
  have hround : roundRat q ≤ 1 := roundRat_le hone isDyadic_one
  have hnonneg := roundRat_nonneg hq
  have hn' : (0 : ℚ) ≤ n := Nat.cast_nonneg n
  have hshare : |roundRat q - q| ≤ 1 / 2 ^ 53 := by
    have herror := abs_roundPos_sub_le (k := -52) hq
      (hone.trans_lt (by norm_num)) (by norm_num)
    rw [roundRat, if_pos hq]
    exact herror.trans_eq (by norm_num)
  have hproduct : |roundRat (roundRat q * n) - roundRat q * n| ≤ 2 ^ k / 2 := by
    have hle : roundRat q * n ≤ n := mul_le_of_le_one_left hn' hround
    rw [roundRat, if_pos (mul_nonneg hnonneg hn')]
    exact abs_roundPos_sub_le (mul_nonneg hnonneg hn') (hle.trans_lt hn) hk
  calc |roundRat (roundRat q * n) - q * n|
      ≤ |roundRat (roundRat q * n) - roundRat q * n| + |roundRat q * n - q * n| :=
        abs_sub_le _ _ _
    _ = |roundRat (roundRat q * n) - roundRat q * n| + |roundRat q - q| * n := by
        rw [← sub_mul, abs_mul, abs_of_nonneg hn']
    _ ≤ 2 ^ k / 2 + 1 / 2 ^ 53 * n := add_le_add hproduct (mul_le_mul_of_nonneg_right hshare hn')
    _ = 2 ^ k / 2 + n / 2 ^ 53 := by ring

/-! ## Sums -/

/-- The sum of a list, added up from the left. -/
def sumRat (xs : List ℚ) : ℚ := xs.foldl (fun s x ↦ roundRat (s + x)) 0

theorem sumRat_concat (xs : List ℚ) (x : ℚ) : sumRat (xs ++ [x]) = roundRat (sumRat xs + x) := by
  rw [sumRat, List.foldl_append]
  rfl

theorem sumRat_nonneg {xs : List ℚ} (hxs : ∀ x ∈ xs, 0 ≤ x) : 0 ≤ sumRat xs := by
  induction xs using List.reverseRecOn with
  | nil => exact le_rfl
  | append_singleton xs x ih =>
    rw [List.forall_mem_append, List.forall_mem_singleton] at hxs
    rw [sumRat_concat]
    exact roundRat_nonneg (add_nonneg (ih hxs.1) hxs.2)

/-- **Each addition errs by half a unit of the last place of the whole sum at most**, where no term
is negative and the sum stays below `2 ^ 53`. -/
theorem sumRat_bounds {xs : List ℚ} {bound : ℕ} {k : ℤ} (hxs : ∀ x ∈ xs, 0 ≤ x ∧ x ≤ bound)
    (hlt : xs.length * bound < 2 ^ 53) (hsize : ((xs.length * bound : ℕ) : ℚ) < 2 ^ (k + 53))
    (hk : -1074 ≤ k) : 0 ≤ sumRat xs ∧ sumRat xs ≤ (xs.length * bound : ℕ) ∧
      |sumRat xs - xs.sum| ≤ xs.length * (2 ^ k / 2) := by
  induction xs using List.reverseRecOn with
  | nil => simp [sumRat]
  | append_singleton xs x ih =>
    rw [List.forall_mem_append, List.forall_mem_singleton] at hxs
    obtain ⟨hxs, hx, hxbound⟩ := hxs
    have hlength : (xs ++ [x]).length * bound = xs.length * bound + bound := by
      rw [List.length_append, List.length_singleton, add_mul, one_mul]
    have hmore : ((xs.length * bound : ℕ) : ℚ) ≤ ((xs ++ [x]).length * bound : ℕ) := by
      rw [hlength]
      exact_mod_cast Nat.le_add_right _ _
    obtain ⟨hnonneg, hle, herror⟩ := ih hxs (by omega) (hmore.trans_lt hsize)
    have hsum : 0 ≤ sumRat xs + x := add_nonneg hnonneg hx
    have hsum' : sumRat xs + x ≤ ((xs ++ [x]).length * bound : ℕ) := by
      rw [hlength, Nat.cast_add]
      exact add_le_add hle hxbound
    have hround : |roundRat (sumRat xs + x) - (sumRat xs + x)| ≤ 2 ^ k / 2 := by
      rw [roundRat, if_pos hsum]
      exact abs_roundPos_sub_le hsum (hsum'.trans_lt hsize) hk
    rw [sumRat_concat]
    refine ⟨roundRat_nonneg hsum, roundRat_le hsum' (isDyadic_natCast hlt), ?_⟩
    rw [List.sum_append, List.sum_singleton, List.length_append, List.length_singleton]
    rw [abs_le] at herror hround ⊢
    push_cast
    constructor <;> linarith

/-- The error of a mean: that of each addition, and that of the division. -/
theorem abs_mean_sub_le {xs : List ℚ} {bound : ℕ} {j k : ℤ} (hne : xs ≠ [])
    (hxs : ∀ x ∈ xs, 0 ≤ x ∧ x ≤ bound) (hlt : xs.length * bound < 2 ^ 53)
    (hsize : ((xs.length * bound : ℕ) : ℚ) < 2 ^ (k + 53)) (hk : -1074 ≤ k)
    (hbound : (bound : ℚ) < 2 ^ (j + 53)) (hj : -1074 ≤ j) :
    |roundRat (sumRat xs / xs.length) - xs.sum / xs.length| ≤ 2 ^ j / 2 + 2 ^ k / 2 := by
  obtain ⟨hnonneg, hle, herror⟩ := sumRat_bounds hxs hlt hsize hk
  have hpos : (0 : ℚ) < xs.length := Nat.cast_pos.mpr (List.length_pos_iff.mpr hne)
  have hmean : 0 ≤ sumRat xs / xs.length := div_nonneg hnonneg hpos.le
  have hmean' : sumRat xs / xs.length ≤ bound := by
    rw [div_le_iff₀ hpos, mul_comm]
    exact_mod_cast hle
  have hdivision : |roundRat (sumRat xs / xs.length) - sumRat xs / xs.length| ≤ 2 ^ j / 2 := by
    rw [roundRat, if_pos hmean]
    exact abs_roundPos_sub_le hmean (hmean'.trans_lt hbound) hj
  have hsum : |sumRat xs / xs.length - xs.sum / xs.length| ≤ 2 ^ k / 2 := by
    rw [← sub_div, abs_div, abs_of_pos hpos, div_le_iff₀ hpos, mul_comm]
    exact herror
  exact (abs_sub_le _ (sumRat xs / xs.length) _).trans (add_le_add hdivision hsum)

/-! ## Values -/

/-- All finite numbers are below this one. It is not to be evaluated. -/
@[irreducible] def bound : ℚ := 2 ^ 1024

theorem bound_eq : bound = 2 ^ 1024 := by rw [bound]

theorem bound_pos : 0 < bound := by
  rw [bound_eq]
  norm_num

/-- A binary64 number that is neither an infinity nor NaN. -/
structure Finite where
  val : ℚ
  isDyadic : IsDyadic val
  lt : |val| < bound

inductive Value
  | finite (x : Finite)
  | infinity (negative : Bool)
  | nan

namespace Value

instance : Zero Finite := ⟨⟨0, isDyadic_zero, abs_zero.trans_lt bound_pos⟩⟩

def isFinite : Value → Bool
  | finite _ => true
  | _ => false

/-- The rounded result of an operation. -/
def ofRat (q : ℚ) : Value :=
  if h : |roundRat q| < bound then finite ⟨roundRat q, isDyadic_roundRat q, h⟩
  else infinity (q < 0)

/-- An integer as a float, or none where it is too large. -/
def ofInt (n : ℤ) : Option Value := if (ofRat n).isFinite then some (ofRat n) else none

def add : Value → Value → Value
  | finite x, finite y => ofRat (x.val + y.val)
  | infinity s, infinity t => if s = t then infinity s else nan
  | infinity s, finite _ | finite _, infinity s => infinity s
  | _, _ => nan

def sub : Value → Value → Value
  | finite x, finite y => ofRat (x.val - y.val)
  | infinity s, infinity t => if s = t then nan else infinity s
  | infinity s, finite _ => infinity s
  | finite _, infinity s => infinity (!s)
  | _, _ => nan

def mul : Value → Value → Value
  | finite x, finite y => ofRat (x.val * y.val)
  | infinity s, infinity t => infinity (s != t)
  | infinity s, finite x | finite x, infinity s =>
    if x.val = 0 then nan else infinity (s != decide (x.val < 0))
  | _, _ => nan

/-- The place of a value in the order, which NaN has not. -/
def key : Value → Option (WithBot (WithTop ℚ))
  | finite x => some ((x.val : WithTop ℚ) : WithBot (WithTop ℚ))
  | infinity true => some ⊥
  | infinity false => some ((⊤ : WithTop ℚ) : WithBot (WithTop ℚ))
  | nan => none

/-- `a < b` -/
def lt (a b : Value) : Bool :=
  match a.key, b.key with
  | some x, some y => x < y
  | _, _ => false

/-- `a <= b` -/
def le (a b : Value) : Bool :=
  match a.key, b.key with
  | some x, some y => x ≤ y
  | _, _ => false

theorem ofRat_finite (x : Finite) : ofRat x.val = finite x := by
  have hround := roundRat_of_isDyadic x.isDyadic
  rw [ofRat, dif_pos (hround.symm ▸ x.lt)]
  congr 1
  cases x
  congr 1

@[simp] theorem finite_le_finite (x y : Finite) :
    (finite x).le (finite y) = true ↔ x.val ≤ y.val := by
  rw [le, key, key, decide_eq_true_iff, WithBot.coe_le_coe, WithTop.coe_le_coe]

@[simp] theorem finite_lt_finite (x y : Finite) :
    (finite x).lt (finite y) = true ↔ x.val < y.val := by
  rw [lt, key, key, decide_eq_true_iff, WithBot.coe_lt_coe, WithTop.coe_lt_coe]

theorem infinity_le {x : Value} (h : x ≠ nan) : (infinity true).le x = true := by
  cases x with
  | finite x => simp [le, key]
  | infinity negative => cases negative <;> simp [le, key]
  | nan => exact absurd rfl h

theorem le_infinity {x : Value} (h : x ≠ nan) : x.le (infinity false) = true := by
  cases x with
  | finite x => simp [le, key]
  | infinity negative => cases negative <;> simp [le, key]
  | nan => exact absurd rfl h

theorem ofRat_ne_nan (q : ℚ) : ofRat q ≠ nan := by
  rw [ofRat]
  split_ifs <;> exact nofun

theorem ofRat_of_lt {q : ℚ} (h : |roundRat q| < bound) :
    ofRat q = finite ⟨roundRat q, isDyadic_roundRat q, h⟩ := dif_pos h

theorem ofRat_of_le {q : ℚ} (h : bound ≤ roundRat q) : ofRat q = infinity false := by
  have hpos : ¬q < 0 := by
    intro hq
    have hround := roundRat_mono hq.le
    rw [roundRat_of_isDyadic isDyadic_zero] at hround
    exact absurd (h.trans hround) (not_le.mpr bound_pos)
  rw [ofRat, dif_neg (not_lt.mpr (h.trans (le_abs_self _))), decide_eq_false hpos]

theorem ofRat_of_le_neg {q : ℚ} (h : roundRat q ≤ -bound) : ofRat q = infinity true := by
  have hneg : q < 0 := by
    by_contra hq
    have hround := roundRat_mono (not_lt.mp hq)
    rw [roundRat_of_isDyadic isDyadic_zero] at hround
    exact absurd (hround.trans h) (not_le.mpr (neg_neg_of_pos bound_pos))
  rw [ofRat, dif_neg (not_lt.mpr ((le_neg.mpr h).trans (neg_le_abs _))), decide_eq_true hneg]

/-- **Rounded results keep their order**, infinities included. -/
theorem ofRat_mono {a b : ℚ} (h : a ≤ b) : (ofRat a).le (ofRat b) = true := by
  have hround := roundRat_mono h
  rcases le_or_gt bound (roundRat b) with hb | hb
  · rw [ofRat_of_le hb]
    exact le_infinity (ofRat_ne_nan a)
  rcases le_or_gt (roundRat a) (-bound) with ha | ha
  · rw [ofRat_of_le_neg ha]
    exact infinity_le (ofRat_ne_nan b)
  rw [ofRat_of_lt (abs_lt.mpr ⟨ha, hround.trans_lt hb⟩),
    ofRat_of_lt (abs_lt.mpr ⟨ha.trans_le hround, hb⟩), finite_le_finite]
  exact hround

end Value

end GtfsStream.Binary64
