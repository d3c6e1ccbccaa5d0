import Mathlib.Algebra.Order.Ring.Int
import Mathlib.Data.String.Basic

/-!
# The Gregorian calendar

Days are counted from 1970-01-01, in the proleptic Gregorian calendar. The first day of a year is
given by a formula and the year of a day is the last one that has begun by then. A date is written
with its digits, four for the year and two each for the month and the day, and as long as the years
have four digits the strings are ordered as the days are.

## Years and days

The formula for the first day of a year counts the leap years before it, and everything about years
follows from one fact: a year has begun by a day exactly if it is not later than the year of that
day. Months need no formula, since the twelve lengths of a year can be gone through. The order of
the strings is the lexicographic one of year, month and day, each padded to its width.
-/

namespace GtfsStream.Calendar

/-- The number of the first day of a year. -/
def dayFromYear (y : ℤ) : ℤ :=
  365 * (y - 1970) + (y - 1969) / 4 - (y - 1901) / 100 + (y - 1601) / 400

/-- The year of a day: an estimate that is off by one at most, corrected. -/
def yearFromDay (d : ℤ) : ℤ :=
  let y := 1970 + d * 400 / 146097
  if d < dayFromYear y then y - 1 else if dayFromYear (y + 1) ≤ d then y + 1 else y

/-- The length of February tells the years apart. -/
def februaryDays (y : ℤ) : ℕ := if dayFromYear (y + 1) = dayFromYear y + 366 then 29 else 28

def monthLengths (y : ℤ) : List ℕ := [31, februaryDays y, 31, 30, 31, 30, 31, 31, 30, 31, 30, 31]

/-- The month and the day of the month, `n` days after the beginning of the month `m`, where the
lengths of the months from `m` on are given. -/
def monthAndDay (m n : ℕ) : List ℕ → ℕ × ℕ
  | [] => (m, n + 1)
  | length :: rest => if n < length then (m, n + 1) else monthAndDay (m + 1) (n - length) rest

/-- The year, the month and the day of the month. -/
def civil (d : ℤ) : ℤ × ℕ × ℕ :=
  let y := yearFromDay d
  (y, monthAndDay 1 (d - dayFromYear y).toNat (monthLengths y))

/-- Monday is 0. -/
def weekday (d : ℤ) : ℕ := ((d + 3) % 7).toNat

/-! ## Years -/

theorem dayFromYear_add_one (y : ℤ) :
    dayFromYear (y + 1) = dayFromYear y + 365 ∨ dayFromYear (y + 1) = dayFromYear y + 366 := by
  unfold dayFromYear
  omega

theorem dayFromYear_lt_iff {y z : ℤ} : dayFromYear y < dayFromYear z ↔ y < z := by
  refine (strictMono_int_of_lt_succ fun y ↦ ?_ : StrictMono dayFromYear).lt_iff_lt
  rcases dayFromYear_add_one y with h | h <;> omega

/-- The year of a day has begun and the next one has not. -/
theorem yearFromDay_spec (d : ℤ) :
    dayFromYear (yearFromDay d) ≤ d ∧ d < dayFromYear (yearFromDay d + 1) := by
  have hestimate : dayFromYear (1970 + d * 400 / 146097 - 1) ≤ d ∧
      d < dayFromYear (1970 + d * 400 / 146097 + 2) := by
    unfold dayFromYear
    omega
  unfold yearFromDay
  dsimp only
  split_ifs with hbefore hafter
  · refine ⟨hestimate.1, ?_⟩
    rwa [sub_add_cancel]
  · refine ⟨hafter, ?_⟩
    rw [add_assoc]
    exact hestimate.2
  · exact ⟨not_lt.mp hbefore, not_le.mp hafter⟩

/-- **A year has begun by a day exactly if it is at most the year of the day.** -/
theorem dayFromYear_le_iff {y d : ℤ} : dayFromYear y ≤ d ↔ y ≤ yearFromDay d := by
  obtain ⟨hbegun, hnext⟩ := yearFromDay_spec d
  constructor
  · intro h
    have hlt := dayFromYear_lt_iff.mp (h.trans_lt hnext)
    omega
  · exact fun h ↦ (not_lt.mp (mt dayFromYear_lt_iff.mp (not_lt.mpr h))).trans hbegun

/-! ## Dates as strings -/

/-- The last `w` decimal digits of a number. -/
def padded : ℕ → ℕ → List Char
  | 0, _ => []
  | w + 1, n => Nat.digitChar (n / 10 ^ w % 10) :: padded w (n % 10 ^ w)

/-- `strftime("%Y%m%d")` of a day in a year of at most four digits. -/
def dateString (d : ℤ) : String :=
  let (y, m, day) := civil d
  String.ofList (padded 4 y.toNat ++ padded 2 m ++ padded 2 day)

example : dateString 0 = "19700101" ∧ dateString 20513 = "20260301" := by decide +kernel

/-! ### Their order -/

theorem digitChar_lt_iff {a b : ℕ} (ha : a < 10) (hb : b < 10) :
    a.digitChar < b.digitChar ↔ a < b := by
  have hall : ∀ a < 10, ∀ b < 10, a.digitChar < b.digitChar ↔ a < b := by decide
  exact hall a ha b hb

theorem padded_length (w n : ℕ) : (padded w n).length = w := by
  induction w generalizing n with
  | zero => rfl
  | succ w ih => rw [padded, List.length_cons, ih]

/-- Numerals of one width are ordered as the numbers are. -/
theorem padded_lt {w a b : ℕ} (hb : b < 10 ^ w) (h : a < b) : padded w a < padded w b := by
  induction w generalizing a b with
  | zero => omega
  | succ w ih =>
    have hpos : 0 < 10 ^ w := Nat.pow_pos (by decide)
    rw [pow_succ, mul_comm] at hb
    have hdigit {n : ℕ} (hn : n < 10 * 10 ^ w) : n / 10 ^ w % 10 = n / 10 ^ w :=
      Nat.mod_eq_of_lt ((Nat.div_lt_iff_lt_mul hpos).mpr hn)
    have hdigits : a / 10 ^ w < b / 10 ^ w ∨ a / 10 ^ w = b / 10 ^ w ∧ a % 10 ^ w < b % 10 ^ w := by
      rcases (Nat.div_le_div_right (c := 10 ^ w) h.le).lt_or_eq with hlt | heq
      · exact Or.inl hlt
      · have hsum := Nat.div_add_mod a (10 ^ w)
        have hsum' := Nat.div_add_mod b (10 ^ w)
        rw [heq] at hsum
        exact Or.inr ⟨heq, by omega⟩
    rw [padded, padded, List.cons_lt_cons_iff, hdigit (h.trans hb), hdigit hb]
    refine hdigits.imp (fun hlt ↦ ?_) fun ⟨heq, hlt⟩ ↦ ⟨by rw [heq], ?_⟩
    · have hten : b / 10 ^ w < 10 := (Nat.div_lt_iff_lt_mul hpos).mpr hb
      exact (digitChar_lt_iff (hlt.trans hten) hten).mpr hlt
    · exact ih (Nat.mod_lt b hpos) hlt

theorem append_lt_append {l l' r r' : List Char} (hlength : l.length = l'.length)
    (h : l < l' ∨ l = l' ∧ r < r') : l ++ r < l' ++ r' := by
  induction l generalizing l' with
  | nil =>
    obtain rfl := List.length_eq_zero_iff.mp hlength.symm
    exact (h.resolve_left (List.not_lt_nil _)).2
  | cons c l ih =>
    obtain ⟨c', l', rfl⟩ := List.exists_cons_of_length_eq_add_one hlength.symm
    rw [List.cons_append, List.cons_append, List.cons_lt_cons_iff]
    rw [List.cons_lt_cons_iff, List.cons.injEq] at h
    have hrest := ih (Nat.succ.inj hlength)
    rcases h with (hc | ⟨hc, hl⟩) | ⟨⟨hc, hl⟩, hr⟩
    · exact Or.inl hc
    · exact Or.inr ⟨hc, hrest (Or.inl hl)⟩
    · exact Or.inr ⟨hc, hrest (Or.inr ⟨hl, hr⟩)⟩

/-- Where the months stand for all days, a month is one of them and has at most 31 days. -/
theorem monthAndDay_le {lengths : List ℕ} (hle : ∀ n ∈ lengths, n ≤ 31) {m n : ℕ}
    (hn : n < lengths.sum) : m ≤ (monthAndDay m n lengths).1 ∧
      (monthAndDay m n lengths).1 < m + lengths.length ∧ (monthAndDay m n lengths).2 ≤ 31 := by
  induction lengths generalizing m n with
  | nil => exact absurd hn (Nat.not_lt_zero n)
  | cons length rest ih =>
    rw [List.forall_mem_cons] at hle
    rw [List.sum_cons] at hn
    rw [monthAndDay, List.length_cons]
    split_ifs with hmonth
    · exact ⟨le_refl m, by dsimp only; omega, by dsimp only; omega⟩
    · obtain ⟨hge, hlt, hday⟩ := ih hle.2 (show n - length < rest.sum by omega) (m := m + 1)
      exact ⟨by omega, by omega, hday⟩

/-- Later days come in later months, or later in the month. -/
theorem monthAndDay_lt {lengths : List ℕ} {m n n' : ℕ} (h : n < n') (hn : n' < lengths.sum)
    (hle : ∀ n ∈ lengths, n ≤ 31) :
    (monthAndDay m n lengths).1 < (monthAndDay m n' lengths).1 ∨
      (monthAndDay m n lengths).1 = (monthAndDay m n' lengths).1 ∧
        (monthAndDay m n lengths).2 < (monthAndDay m n' lengths).2 := by
  induction lengths generalizing m n n' with
  | nil => exact absurd hn (Nat.not_lt_zero n')
  | cons length rest ih =>
    rw [List.forall_mem_cons] at hle
    rw [List.sum_cons] at hn
    rw [monthAndDay, monthAndDay]
    split_ifs with hmonth hmonth' hmonth'
    · exact Or.inr ⟨rfl, Nat.succ_lt_succ h⟩
    · have hge : m + 1 ≤ (monthAndDay (m + 1) (n' - length) rest).1 :=
        (monthAndDay_le hle.2 (by omega)).1
      exact Or.inl hge
    · omega
    · exact ih (by omega) (by omega) hle.2

theorem monthLengths_spec (y : ℤ) :
    (dayFromYear (y + 1) - dayFromYear y).toNat = (monthLengths y).sum ∧
      ∀ n ∈ monthLengths y, n ≤ 31 := by
  have hfebruary : februaryDays y ≤ 29 := by
    unfold februaryDays
    split_ifs <;> omega
  refine ⟨?_, ?_⟩
  · unfold monthLengths februaryDays
    rcases dayFromYear_add_one y with h | h
    · rw [if_neg (by omega), h]
      simp
    · rw [if_pos h, h]
      simp
  · simp only [monthLengths, List.forall_mem_cons]
    simp
    omega

/-- The year of the day has at most four digits. -/
def FourDigits (d : ℤ) : Prop := dayFromYear 0 ≤ d ∧ d < dayFromYear 10000

theorem dateString_lt {d d' : ℤ} (h : d < d') (hbegin : FourDigits d) (hend : FourDigits d') :
    dateString d < dateString d' := by
  replace hbegin := hbegin.1
  replace hend := hend.2
  have hyear : 0 ≤ yearFromDay d := dayFromYear_le_iff.mp hbegin
  have hyear' : yearFromDay d' < 10000 := by
    by_contra hle
    have := dayFromYear_le_iff.mpr (not_lt.mp hle)
    omega
  have hle : yearFromDay d ≤ yearFromDay d' :=
    dayFromYear_le_iff.mp ((dayFromYear_le_iff.mpr (le_refl _)).trans h.le)
  have hwithin (e : ℤ) : (e - dayFromYear (yearFromDay e)).toNat <
      (monthLengths (yearFromDay e)).sum := by
    rw [← (monthLengths_spec _).1]
    have := yearFromDay_spec e
    omega
  obtain ⟨-, hmonth, hday⟩ := monthAndDay_le (monthLengths_spec (yearFromDay d')).2 (hwithin d')
    (m := 1)
  have hlength : (monthLengths (yearFromDay d')).length = 12 := rfl
  rw [String.lt_iff_toList_lt, dateString, dateString, civil, civil]
  dsimp only
  rw [String.toList_ofList, String.toList_ofList, List.append_assoc, List.append_assoc]
  refine append_lt_append (by rw [padded_length, padded_length]) ?_
  rcases hle.lt_or_eq with hlt | heq
  · exact Or.inl (padded_lt (by omega) (by omega))
  · -- two days of one year
    refine Or.inr ⟨by rw [heq], append_lt_append (by rw [padded_length, padded_length]) ?_⟩
    rw [heq]
    have hlater : (d - dayFromYear (yearFromDay d')).toNat <
        (d' - dayFromYear (yearFromDay d')).toNat := by
      have := yearFromDay_spec d
      rw [heq] at this
      omega
    rcases monthAndDay_lt hlater (hwithin d') (monthLengths_spec _).2 (m := 1) with
      hlt | ⟨hsame, hlt⟩
    · exact Or.inl (padded_lt (by omega) hlt)
    · exact Or.inr ⟨by rw [hsame], padded_lt (by omega) hlt⟩

/-- **The strings of dates are ordered as the dates are**, as long as the years have at most four
digits. -/
theorem dateString_le_iff {d d' : ℤ} (h : FourDigits d) (h' : FourDigits d') :
    dateString d ≤ dateString d' ↔ d ≤ d' := by
  constructor
  · intro hle
    by_contra hlt
    exact hle.not_gt (dateString_lt (not_le.mp hlt) h' h)
  · intro hle
    rcases hle.lt_or_eq with hlt | rfl
    · exact (dateString_lt hlt h h').le
    · exact le_refl _

end GtfsStream.Calendar
