import GtfsStream.Analytics.Consumer
import GtfsStream.Library.FloatArithmetic
import Mathlib.Algebra.Order.Archimedean.Basic

/-!
# The backoff in floating point

`_enter_backoff` multiplies the base delay, a float, with a power of two, an integer, before the cap
is applied. The product is exact or infinite, so the cap works for every product, but the integer is
converted to a float first, and this raises from `2 ** 1024` on: an outage ends the consumer at its
1025th failure in a row.

## Floats

A float is a rational, an infinity or not a number, and every operation is the exact one followed by
one rounding. Scaling by a power of two is exact as long as the result fits, so up to `2 ** 1023`
the product is the exact one or infinite, and the cap brings an infinite one back to the longest
delay. The jitter is a random share of the base delay; where the settings are infinite a share of
zero gives no number, which is the only other way in which a failure ends the process.
-/

namespace GtfsStream.Analytics.Backoff

open Binary64 Value

/-- The settings of the backoff, which are floats. The jitter may be infinite. -/
structure Retry where
  retryBaseSeconds : Finite
  retryMaxSeconds : Finite
  retryJitterSeconds : Value
  base_pos : 0 < retryBaseSeconds.val
  max_pos : 0 < retryMaxSeconds.val
  jitter_nonneg : (finite 0).le retryJitterSeconds = true

structure State where
  consecutiveFailures : ℕ := 0
  backoffUntil : Value := finite 0

/-- What a failure reads: the clock and `random.random()`. -/
structure Reading where
  now : Finite
  random : Finite
  random_nonneg : 0 ≤ random.val
  random_lt_one : random.val < 1

/-- `min(a, b)`, the first of equals. -/
def pyMin (a b : Value) : Value := if b.lt a then b else a

/-- `random.uniform(0, b)` -/
def uniform (b random : Value) : Value := (finite 0).add ((b.sub (finite 0)).mul random)

variable (cfg : Retry) (s : State)

def inBackoff (now : Finite) : Bool := (finite now).lt s.backoffUntil

/-- None where the power does not fit a float. -/
def enterBackoff (reading : Reading) : Option State :=
  (ofInt (2 ^ s.consecutiveFailures)).map fun power ↦
    let delay := pyMin (finite cfg.retryMaxSeconds) ((finite cfg.retryBaseSeconds).mul power)
    let delay := delay.add (uniform cfg.retryJitterSeconds (finite reading.random))
    { backoffUntil := (finite reading.now).add delay
      consecutiveFailures := s.consecutiveFailures + 1 }

/-- The counter and the deadline are all there is. -/
def resetBackoff : State := { consecutiveFailures := 0, backoffUntil := finite 0 }

/-- A window of the loop: when the backoff is checked, what `_process_window` reports, and what a
failure reads. -/
structure Window where
  checkedAt : Finite
  success : Option Bool
  reading : Reading

/-- The persist branch of `run`. -/
def window (w : Window) : Option State :=
  if inBackoff s w.checkedAt then some s
  else
    match w.success with
    | none => some s
    | some true => some resetBackoff
    | some false => enterBackoff cfg s w.reading

/-- One failure after the other. -/
def fail (readings : List Reading) : Option State := readings.foldlM (enterBackoff cfg) s

/-- The delay without the jitter, in exact arithmetic. -/
def Retry.delay (n : ℕ) : ℚ := min cfg.retryMaxSeconds.val (cfg.retryBaseSeconds.val * 2 ^ n)

/-- The failure is survived, and the deadline is as long after the clock as it should be. -/
def Meets (reading : Reading) : Prop :=
  ∃ s', enterBackoff cfg s reading = some s' ∧
    s'.consecutiveFailures = s.consecutiveFailures + 1 ∧
    ∃ least : Finite, least.val = cfg.delay s.consecutiveFailures ∧
    ∃ delay, s'.backoffUntil = (finite reading.now).add delay ∧ (finite least).le delay = true ∧
      delay.le ((finite least).add cfg.retryJitterSeconds) = true

/-- The outage with these failures is survived: every failure is, the delays without jitter grow and
reach the cap, and a success resets the counter and the deadline. -/
structure Survives (readings : List Reading) : Prop where
  meets : ∀ before reading after, readings = before ++ reading :: after →
    ∃ s, fail cfg {} before = some s ∧ s.consecutiveFailures = before.length ∧ Meets cfg s reading
  grows : Monotone cfg.delay
  reaches : ∃ n, ∀ m, n ≤ m → cfg.delay m = cfg.retryMaxSeconds.val
  resets : ∀ s, fail cfg {} readings = some s → ∀ w, inBackoff s w.checkedAt = false →
    w.success = some true → window cfg s w = some {}

/-! ## The power -/

variable {cfg s}

theorem ofInt_two_pow {n : ℕ} (h : n < 1024) :
    ∃ x : Finite, x.val = 2 ^ n ∧ ofInt (2 ^ n) = some (finite x) := by
  have hlt : |(2 : ℚ) ^ n| < bound := by
    rw [abs_of_pos (by positivity), bound_eq]
    exact pow_lt_pow_right₀ one_lt_two h
  refine ⟨⟨2 ^ n, isDyadic_two_pow n, hlt⟩, rfl, ?_⟩
  have hof : ofRat ((2 ^ n : ℤ) : ℚ) = finite ⟨2 ^ n, isDyadic_two_pow n, hlt⟩ := by
    rw [Int.cast_pow, Int.cast_ofNat]
    exact ofRat_finite ⟨2 ^ n, isDyadic_two_pow n, hlt⟩
  rw [ofInt, hof]
  rfl

theorem ofInt_two_pow_of_le {n : ℕ} (h : 1024 ≤ n) : ofInt (2 ^ n) = none := by
  have hof : ofRat ((2 ^ n : ℤ) : ℚ) = infinity false := by
    refine ofRat_of_le ?_
    rw [Int.cast_pow, Int.cast_ofNat, roundRat_of_isDyadic (isDyadic_two_pow n), bound_eq]
    exact pow_le_pow_right₀ one_le_two h
  rw [ofInt, hof]
  rfl

/-- The cap is applied to the exact product, which may be infinite. -/
theorem pyMin_eq (cfg : Retry) {n : ℕ} {power : Finite} (hpower : power.val = 2 ^ n) :
    ∃ least : Finite, least.val = cfg.delay n ∧
      pyMin (finite cfg.retryMaxSeconds) ((finite cfg.retryBaseSeconds).mul (finite power)) =
        finite least := by
  have hdyadic : IsDyadic (cfg.retryBaseSeconds.val * 2 ^ n) :=
    cfg.retryBaseSeconds.isDyadic.mul_two_pow n
  have hpos : 0 < cfg.retryBaseSeconds.val * 2 ^ n := mul_pos cfg.base_pos (by positivity)
  have hmul : (finite cfg.retryBaseSeconds).mul (finite power) =
      ofRat (cfg.retryBaseSeconds.val * 2 ^ n) := by
    rw [mul, hpower]
  rw [hmul]
  rcases lt_or_ge (cfg.retryBaseSeconds.val * 2 ^ n) bound with hlt | hle
  · let product : Finite := ⟨_, hdyadic, (abs_of_pos hpos).trans_lt hlt⟩
    rw [show ofRat (cfg.retryBaseSeconds.val * 2 ^ n) = finite product from ofRat_finite product,
      pyMin]
    split_ifs with hmin
    · exact ⟨product, (min_eq_right ((finite_lt_finite _ _).mp hmin).le).symm, rfl⟩
    · refine ⟨cfg.retryMaxSeconds, (min_eq_left (not_lt.mp fun hlt ↦ hmin ?_)).symm, rfl⟩
      exact (finite_lt_finite _ _).mpr hlt
  · have hof : ofRat (cfg.retryBaseSeconds.val * 2 ^ n) = infinity false :=
      ofRat_of_le ((roundRat_of_isDyadic hdyadic).symm ▸ hle)
    refine ⟨cfg.retryMaxSeconds, (min_eq_left ?_).symm, ?_⟩
    · exact ((le_abs_self _).trans cfg.retryMaxSeconds.lt.le).trans hle
    · rw [hof, pyMin, if_neg]
      simp [Value.lt, key]

/-! ## The jitter -/

theorem zero_add_finite (x : Finite) : (finite 0).add (finite x) = finite x := by
  rw [add, show (0 : Finite).val = 0 from rfl, zero_add, ofRat_finite]

theorem finite_sub_zero (x : Finite) : (finite x).sub (finite 0) = finite x := by
  rw [sub, show (0 : Finite).val = 0 from rfl, sub_zero, ofRat_finite]

theorem uniform_finite (jitter : Finite) (hjitter : 0 ≤ jitter.val) (reading : Reading) :
    ∃ part : Finite, uniform (finite jitter) (finite reading.random) = finite part ∧
      0 ≤ part.val ∧ part.val ≤ jitter.val := by
  have hnonneg : 0 ≤ jitter.val * reading.random.val := mul_nonneg hjitter reading.random_nonneg
  have hle : jitter.val * reading.random.val ≤ jitter.val :=
    mul_le_of_le_one_right hjitter reading.random_lt_one.le
  have hlow := roundRat_mono hnonneg
  have hhigh := roundRat_mono hle
  rw [roundRat_of_isDyadic isDyadic_zero] at hlow
  rw [roundRat_of_isDyadic jitter.isDyadic] at hhigh
  have hlt : |roundRat (jitter.val * reading.random.val)| < bound := by
    rw [abs_of_nonneg hlow]
    exact hhigh.trans_lt ((le_abs_self _).trans_lt jitter.lt)
  refine ⟨⟨_, isDyadic_roundRat _, hlt⟩, ?_, hlow, hhigh⟩
  rw [uniform, finite_sub_zero, mul, ofRat_of_lt hlt, zero_add_finite]

theorem uniform_infinity (reading : Reading) :
    uniform (infinity false) (finite reading.random) =
      if reading.random.val = 0 then nan else infinity false := by
  rw [uniform, show (infinity false).sub (finite 0) = infinity false from rfl, mul]
  split_ifs with hzero
  · rfl
  · rw [decide_eq_false (not_lt.mpr reading.random_nonneg)]
    rfl

theorem Retry.jitter_cases (cfg : Retry) : (∃ jitter : Finite, 0 ≤ jitter.val ∧
    cfg.retryJitterSeconds = finite jitter) ∨ cfg.retryJitterSeconds = infinity false := by
  have hnonneg := cfg.jitter_nonneg
  rcases hjitter : cfg.retryJitterSeconds with jitter | negative | _
  · rw [hjitter] at hnonneg
    exact Or.inl ⟨jitter, (finite_le_finite _ _).mp hnonneg, rfl⟩
  · cases negative with
    | false => exact Or.inr rfl
    | true =>
      rw [hjitter] at hnonneg
      cases hnonneg
  · rw [hjitter] at hnonneg
    cases hnonneg

/-- **The delay is between the least one and the one with the whole jitter**, in floats. -/
theorem delay_bounds (cfg : Retry) (least : Finite) {reading : Reading}
    (h : cfg.retryJitterSeconds = infinity false → reading.random.val ≠ 0) :
    let delay := (finite least).add (uniform cfg.retryJitterSeconds (finite reading.random))
    (finite least).le delay = true ∧
      delay.le ((finite least).add cfg.retryJitterSeconds) = true := by
  rcases cfg.jitter_cases with ⟨jitter, hnonneg, hjitter⟩ | hjitter
  · obtain ⟨part, hpart, hlow, hhigh⟩ := uniform_finite jitter hnonneg reading
    rw [hjitter, hpart, add, add]
    constructor
    · have hle := ofRat_mono (le_add_of_nonneg_right hlow : least.val ≤ least.val + part.val)
      rwa [ofRat_finite] at hle
    · exact ofRat_mono (add_le_add_right hhigh least.val)
  · rw [hjitter, uniform_infinity, if_neg (h hjitter)]
    exact ⟨le_infinity nofun, le_infinity nofun⟩

/-! ## A failure -/

theorem enterBackoff_eq_none_iff {reading : Reading} :
    enterBackoff cfg s reading = none ↔ 1024 ≤ s.consecutiveFailures := by
  rw [enterBackoff, Option.map_eq_none_iff]
  constructor
  · intro h
    by_contra hlt
    obtain ⟨x, -, hx⟩ := ofInt_two_pow (not_le.mp hlt)
    rw [h] at hx
    cases hx
  · exact ofInt_two_pow_of_le

theorem enterBackoff_of_lt (cfg : Retry) (h : s.consecutiveFailures < 1024) (reading : Reading) :
    ∃ least : Finite, least.val = cfg.delay s.consecutiveFailures ∧
      enterBackoff cfg s reading = some
        { backoffUntil := (finite reading.now).add
            ((finite least).add (uniform cfg.retryJitterSeconds (finite reading.random)))
          consecutiveFailures := s.consecutiveFailures + 1 } := by
  obtain ⟨power, hpower, hof⟩ := ofInt_two_pow h
  obtain ⟨least, hleast, hmin⟩ := pyMin_eq cfg hpower
  refine ⟨least, hleast, ?_⟩
  rw [enterBackoff, hof, Option.map_some]
  dsimp only
  rw [hmin]

/-- **When a failure is survived**: the power fits a float, and the delay is a number. -/
theorem meets_iff {reading : Reading} : Meets cfg s reading ↔ s.consecutiveFailures < 1024 ∧
    (cfg.retryJitterSeconds = infinity false → reading.random.val ≠ 0) := by
  constructor
  · rintro ⟨s', hs', -, least', -, delay, hdelay, hle, -⟩
    have hlt : s.consecutiveFailures < 1024 := by
      by_contra hge
      rw [enterBackoff_eq_none_iff.mpr (not_lt.mp hge)] at hs'
      cases hs'
    refine ⟨hlt, fun hjitter hzero ↦ ?_⟩
    obtain ⟨least, -, hsome⟩ := enterBackoff_of_lt cfg hlt reading
    rw [hsome, hjitter, uniform_infinity, if_pos hzero] at hs'
    rw [← Option.some.inj hs'] at hdelay
    -- the deadline is NaN, and no delay that can be compared gives one
    cases delay with
    | finite x => exact ofRat_ne_nan _ hdelay.symm
    | infinity negative => cases hdelay
    | nan => cases hle
  · rintro ⟨hlt, hrandom⟩
    obtain ⟨least, hleast, hsome⟩ := enterBackoff_of_lt cfg hlt reading
    obtain ⟨hlow, hhigh⟩ := delay_bounds cfg least hrandom
    exact ⟨_, hsome, rfl, least, hleast, _, rfl, hlow, hhigh⟩

/-! ## An outage -/

theorem delay_mono : Monotone cfg.delay := by
  intro m n hmn
  refine min_le_min_left _ (mul_le_mul_of_nonneg_left ?_ cfg.base_pos.le)
  exact pow_le_pow_right₀ one_le_two hmn

theorem delay_reaches : ∃ n, ∀ m, n ≤ m → cfg.delay m = cfg.retryMaxSeconds.val := by
  obtain ⟨n, hn⟩ := pow_unbounded_of_one_lt
    (cfg.retryMaxSeconds.val / cfg.retryBaseSeconds.val) one_lt_two
  refine ⟨n, fun m hm ↦ min_eq_left ?_⟩
  have hpow : cfg.retryMaxSeconds.val / cfg.retryBaseSeconds.val ≤ 2 ^ m :=
    hn.le.trans (pow_le_pow_right₀ one_le_two hm)
  rwa [div_le_iff₀' cfg.base_pos] at hpow

theorem fail_append (before after : List Reading) :
    fail cfg s (before ++ after) = (fail cfg s before).bind fun s' ↦ fail cfg s' after :=
  List.foldlM_append ..

theorem fail_of_length_le (cfg : Retry) (readings : List Reading) (h : readings.length ≤ 1024) :
    ∃ s, fail cfg {} readings = some s ∧ s.consecutiveFailures = readings.length := by
  induction readings using List.reverseRecOn with
  | nil => exact ⟨{}, rfl, rfl⟩
  | append_singleton before reading ih =>
    rw [List.length_append, List.length_singleton] at h
    obtain ⟨s, hs, hcount⟩ := ih (by omega)
    obtain ⟨least, -, hsome⟩ := enterBackoff_of_lt (s := s) cfg (by omega) reading
    have hfail : fail cfg {} (before ++ [reading]) = enterBackoff cfg s reading := by
      rw [fail_append, hs]
      exact bind_pure _
    refine ⟨_, hfail.trans hsome, ?_⟩
    rw [List.length_append, List.length_singleton, ← hcount]

theorem Survives.length_le {readings : List Reading} (h : Survives cfg readings) :
    readings.length ≤ 1024 := by
  by_contra hlength
  obtain ⟨s, -, hcount, hmeets⟩ := h.meets (readings.take 1024)
    (readings.get ⟨1024, not_le.mp hlength⟩) (readings.drop 1025) (by
      rw [List.get_eq_getElem, ← List.drop_eq_getElem_cons, List.take_append_drop])
  rw [List.length_take, min_eq_left (by omega)] at hcount
  exact absurd (meets_iff.mp hmeets).1 (by omega)

theorem Survives.random_ne_zero {readings : List Reading} (h : Survives cfg readings)
    (hjitter : cfg.retryJitterSeconds = infinity false) {reading : Reading}
    (hreading : reading ∈ readings) : reading.random.val ≠ 0 := by
  obtain ⟨before, after, hsplit⟩ := List.append_of_mem hreading
  obtain ⟨s, -, -, hmeets⟩ := h.meets before reading after hsplit
  exact (meets_iff.mp hmeets).2 hjitter

/-- **The outages that the backoff survives** are those of at most 1024 failures in a row; with an
infinite jitter no random number may be zero. -/
theorem survives_iff {readings : List Reading} : Survives cfg readings ↔
    readings.length ≤ 1024 ∧ (cfg.retryJitterSeconds = infinity false →
      ∀ reading ∈ readings, reading.random.val ≠ 0) := by
  refine ⟨fun h ↦ ⟨h.length_le, fun hjitter _ ↦ h.random_ne_zero hjitter⟩, ?_⟩
  rintro ⟨hlength, hrandom⟩
  refine ⟨?_, delay_mono, delay_reaches, fun s _ w hbackoff hsuccess ↦ ?_⟩
  · rintro before reading after rfl
    rw [List.length_append, List.length_cons] at hlength
    obtain ⟨s, hs, hcount⟩ := fail_of_length_le cfg before (by omega)
    refine ⟨s, hs, hcount, meets_iff.mpr ⟨by omega, fun hjitter ↦ ?_⟩⟩
    exact hrandom hjitter reading (List.mem_append_right _ List.mem_cons_self)
  · rw [window, if_neg (by rw [hbackoff]; exact Bool.false_ne_true), hsuccess]
    rfl

/-! ## The default settings -/

/-- A small whole number as a float. -/
def ofNat (n : ℕ) (h : n < 2 ^ 53) : Finite where
  val := n
  isDyadic := ⟨n, 0, by exact_mod_cast h, by decide, by norm_num⟩
  lt := by
    rw [abs_of_nonneg (Nat.cast_nonneg n), bound_eq]
    have hle : (n : ℚ) < 2 ^ 53 := by exact_mod_cast h
    exact hle.trans (pow_lt_pow_right₀ one_lt_two (by decide))

/-- One second at first, one minute at most, and a jitter of one second. -/
def defaults : Retry where
  retryBaseSeconds := ofNat 1 (by decide)
  retryMaxSeconds := ofNat 60 (by decide)
  retryJitterSeconds := finite (ofNat 1 (by decide))
  base_pos := by norm_num [ofNat]
  max_pos := by norm_num [ofNat]
  jitter_nonneg := (finite_le_finite _ _).mpr (Nat.cast_nonneg 1)

def zeroReading : Reading where
  now := 0
  random := 0
  random_nonneg := le_rfl
  random_lt_one := zero_lt_one

/-- The 1025th failure in a row is not survived. -/
theorem not_survives_defaults : ¬Survives defaults (List.replicate 1025 zeroReading) := by
  intro h
  have hlength := h.length_le
  rw [List.length_replicate] at hlength
  omega

/-! ## The loop -/

theorem exists_readings {windows : List Window} (h : ∀ w ∈ windows, w.success ≠ some true) :
    ∃ readings, readings.Sublist (windows.map Window.reading) ∧
      windows.foldlM (window cfg) s = fail cfg s readings := by
  induction windows generalizing s with
  | nil => exact ⟨[], List.Sublist.refl _, rfl⟩
  | cons w windows ih =>
    obtain ⟨hw, hwindows⟩ := List.forall_mem_cons.mp h
    have hskip (hstep : window cfg s w = some s) : ∃ readings,
        readings.Sublist ((w :: windows).map Window.reading) ∧
          (w :: windows).foldlM (window cfg) s = fail cfg s readings := by
      obtain ⟨readings, hsub, hrun⟩ := ih (s := s) hwindows
      refine ⟨readings, hsub.cons _, ?_⟩
      rw [List.foldlM_cons, hstep]
      exact hrun
    -- only a failure outside of backoff takes a reading
    by_cases hbackoff : inBackoff s w.checkedAt = true
    · exact hskip (if_pos hbackoff)
    rcases hsuccess : w.success with _ | _ | _
    · refine hskip ?_
      rw [window, if_neg hbackoff, hsuccess]
    · have hstep : window cfg s w = enterBackoff cfg s w.reading := by
        rw [window, if_neg hbackoff, hsuccess]
      cases hnext : enterBackoff cfg s w.reading with
      | none =>
        refine ⟨[w.reading], List.Sublist.cons_cons _ (List.nil_sublist _), ?_⟩
        rw [List.foldlM_cons, hstep, fail, List.foldlM_cons, hnext]
        rfl
      | some s' =>
        obtain ⟨readings, hsub, hrun⟩ := ih (s := s') hwindows
        refine ⟨w.reading :: readings, hsub.cons_cons _, ?_⟩
        rw [List.foldlM_cons, hstep, fail, List.foldlM_cons, hnext]
        exact hrun
    · exact absurd hsuccess hw

/-- **The consumer in exact time raises where the floats do.** -/
theorem consumer_enterBackoff_eq_none_iff (settings : Settings) (consumer : Consumer) (turn : Turn)
    (hcount : consumer.consecutiveFailures = s.consecutiveFailures) (reading : Reading) :
    consumer.enterBackoff settings turn = none ↔ enterBackoff cfg s reading = none := by
  rw [enterBackoff_eq_none_iff, Consumer.enterBackoff, hcount]
  split_ifs with hge
  · exact iff_of_true rfl hge
  · exact iff_of_false nofun hge

end GtfsStream.Analytics.Backoff
