import GtfsStream.Library.Calendar
import Mathlib.Tactic.Ring

/-!
# Dates in the ISO format

A moment, in milliseconds since the epoch, is written as a date and a time of day. A year of four
digits is written with them, any other one with a sign and six digits. The first kind is read back
as the moment that was written; the second kind is longer, and not read.
-/

namespace GtfsStream.Calendar

def millisPerDay : ℤ := 86400000

/-- The year of a moment. -/
def yearOf (ms : ℤ) : ℤ := yearFromDay (ms / millisPerDay)

def HasFourDigitYear (ms : ℤ) : Prop := 0 ≤ yearOf ms ∧ yearOf ms ≤ 9999

instance : DecidablePred HasFourDigitYear := fun ms ↦
  inferInstanceAs (Decidable (0 ≤ yearOf ms ∧ yearOf ms ≤ 9999))

/-! ## Writing -/

/-- The time of day, given in milliseconds. -/
def clockChars (n : ℕ) : List Char :=
  padded 2 (n / 3600000) ++ ':' :: (padded 2 (n / 60000 % 60) ++ ':' ::
    (padded 2 (n / 1000 % 60) ++ '.' :: (padded 3 (n % 1000) ++ ['Z'])))

def yearChars (y : ℤ) : List Char :=
  if 0 ≤ y ∧ y ≤ 9999 then padded 4 y.toNat
  else (if y < 0 then '-' else '+') :: padded 6 y.natAbs

def isoChars (ms : ℤ) : List Char :=
  let (y, m, d) := civil (ms / millisPerDay)
  yearChars y ++ '-' :: (padded 2 m ++ '-' :: (padded 2 d ++ 'T' ::
    clockChars (ms % millisPerDay).toNat))

/-- `toISOString` of a moment. -/
def toISOString (ms : ℤ) : String := String.ofList (isoChars ms)

/-! ## Reading -/

/-- The number that digits stand for. -/
def ofDigits (cs : List Char) : ℕ := cs.foldl (fun n c ↦ 10 * n + (c.toNat - 48)) 0

/-- A field of `w` digits and the text after the separator that follows it. -/
def field (w : ℕ) (cs : List Char) : ℕ × List Char := (ofDigits (cs.take w), cs.drop (w + 1))

/-- The day of a date. -/
def ofCivil (y : ℤ) (m d : ℕ) : ℤ := dayFromYear y + ((monthLengths y).take (m - 1)).sum + d - 1

/-- The moment that a text of the length of a date with four digits stands for. -/
def readIsoChars (cs : List Char) : Option ℤ :=
  if cs.length = 24 then
    let (y, cs) := field 4 cs
    let (m, cs) := field 2 cs
    let (d, cs) := field 2 cs
    let (hour, cs) := field 2 cs
    let (minute, cs) := field 2 cs
    let (second, cs) := field 2 cs
    let (millis, _) := field 3 cs
    some (ofCivil y m d * millisPerDay +
      (((hour * 60 + minute) * 60 + second) * 1000 + millis : ℕ))
  else none

def readIso (s : String) : Option ℤ := readIsoChars s.toList

example : toISOString 1767225600123 = "2026-01-01T00:00:00.123Z" ∧
    toISOString 253402300800000 = "+010000-01-01T00:00:00.000Z" := by decide +kernel

/-! ## The round trip -/

theorem toNat_digitChar {n : ℕ} (h : n < 10) : n.digitChar.toNat - 48 = n := by
  have hall : ∀ n < 10, n.digitChar.toNat - 48 = n := by decide
  exact hall n h

theorem foldl_padded {w n : ℕ} (h : n < 10 ^ w) (acc : ℕ) :
    (padded w n).foldl (fun n c ↦ 10 * n + (c.toNat - 48)) acc = acc * 10 ^ w + n := by
  induction w generalizing n acc with
  | zero =>
    rw [pow_zero, Nat.lt_one_iff] at h
    rw [padded, List.foldl_nil, pow_zero, mul_one, h, add_zero]
  | succ w ih =>
    have hpos : 0 < 10 ^ w := Nat.pow_pos (by decide)
    rw [pow_succ, mul_comm] at h
    have hdigit : n / 10 ^ w % 10 = n / 10 ^ w :=
      Nat.mod_eq_of_lt ((Nat.div_lt_iff_lt_mul hpos).mpr h)
    rw [padded, List.foldl_cons, ih (Nat.mod_lt n hpos), toNat_digitChar (Nat.mod_lt _ (by decide)),
      hdigit]
    calc (10 * acc + n / 10 ^ w) * 10 ^ w + n % 10 ^ w
        = acc * 10 ^ (w + 1) + (10 ^ w * (n / 10 ^ w) + n % 10 ^ w) := by ring
      _ = acc * 10 ^ (w + 1) + n := by rw [Nat.div_add_mod]

theorem field_padded {w n : ℕ} (h : n < 10 ^ w) (c : Char) (rest : List Char) :
    field w (padded w n ++ c :: rest) = (n, rest) := by
  have hlength : (padded w n).length = w := padded_length w n
  rw [field, List.take_left' hlength, ofDigits, foldl_padded h, zero_mul, zero_add,
    ← List.singleton_append, ← List.append_assoc, List.drop_left']
  rw [List.length_append, hlength, List.length_singleton]

theorem le_fst_monthAndDay (m n : ℕ) (lengths : List ℕ) : m ≤ (monthAndDay m n lengths).1 := by
  induction lengths generalizing m n with
  | nil => exact le_refl m
  | cons length rest ih =>
    rw [monthAndDay]
    split_ifs
    · exact le_refl m
    · exact (Nat.le_succ m).trans (ih (m + 1) (n - length))

/-- The month and the day of the month give the day of the year. -/
theorem sum_take_monthAndDay {lengths : List ℕ} {m n : ℕ} (hn : n < lengths.sum) :
    (lengths.take ((monthAndDay m n lengths).1 - m)).sum + (monthAndDay m n lengths).2 = n + 1 := by
  induction lengths generalizing m n with
  | nil => exact absurd hn (Nat.not_lt_zero n)
  | cons length rest ih =>
    rw [List.sum_cons] at hn
    rw [monthAndDay]
    split_ifs with hmonth
    · rw [Nat.sub_self, List.take_zero, List.sum_nil, zero_add]
    · have hrest := ih (show n - length < rest.sum by omega) (m := m + 1)
      obtain ⟨k, hk⟩ := Nat.exists_eq_add_of_le (le_fst_monthAndDay (m + 1) (n - length) rest)
      rw [hk] at hrest ⊢
      have hcount : m + 1 + k - m = k + 1 := by omega
      rw [Nat.add_sub_cancel_left] at hrest
      rw [hcount, List.take_succ_cons, List.sum_cons]
      omega

/-- The number of the day in its year is that of one of the days of the months. -/
theorem dayOfYear_lt (d : ℤ) :
    (d - dayFromYear (yearFromDay d)).toNat < (monthLengths (yearFromDay d)).sum := by
  rw [← (monthLengths_spec _).1]
  have := yearFromDay_spec d
  omega

theorem ofCivil_civil (d : ℤ) : ofCivil (civil d).1 (civil d).2.1 (civil d).2.2 = d := by
  have hday := sum_take_monthAndDay (dayOfYear_lt d) (m := 1)
  have hbegun := (yearFromDay_spec d).1
  rw [ofCivil, civil]
  dsimp only
  omega

theorem civil_lt (d : ℤ) : (civil d).2.1 < 10 ^ 2 ∧ (civil d).2.2 < 10 ^ 2 := by
  obtain ⟨-, hmonth, hday⟩ := monthAndDay_le (monthLengths_spec (yearFromDay d)).2 (dayOfYear_lt d)
    (m := 1)
  have hlength : (monthLengths (yearFromDay d)).length = 12 := rfl
  rw [civil]
  dsimp only
  omega

theorem length_clockChars (n : ℕ) : (clockChars n).length = 13 := by
  simp only [clockChars, List.length_append, List.length_cons, padded_length, List.length_nil]

/-- A date with a year of four digits has 24 characters, and any other one 27. -/
theorem length_isoChars (ms : ℤ) :
    (isoChars ms).length = if HasFourDigitYear ms then 24 else 27 := by
  have hrest : (isoChars ms).length = (yearChars (yearOf ms)).length + 20 := by
    simp only [isoChars, List.length_append, List.length_cons, padded_length, length_clockChars]
    rfl
  rw [hrest, yearChars]
  by_cases h : HasFourDigitYear ms
  · rw [if_pos h, if_pos ⟨h.1, h.2⟩, padded_length]
  · rw [if_neg h, if_neg fun hyear ↦ h ⟨hyear.1, hyear.2⟩, List.length_cons, padded_length]

/-- **A moment of a year of four digits is read back.** -/
theorem readIso_toISOString {ms : ℤ} (h : HasFourDigitYear ms) :
    readIso (toISOString ms) = some ms := by
  have hlength := length_isoChars ms
  rw [if_pos h] at hlength
  obtain ⟨hlow, hhigh⟩ := h
  have hyear : (civil (ms / millisPerDay)).1 = yearOf ms := rfl
  obtain ⟨hmonth, hday⟩ := civil_lt (ms / millisPerDay)
  have hcivil := ofCivil_civil (ms / millisPerDay)
  have hclock : (ms % millisPerDay).toNat < 86400000 := by
    have := Int.emod_lt_of_pos ms (show 0 < millisPerDay by decide)
    rw [millisPerDay] at this ⊢
    omega
  have hmoment : ms / millisPerDay * millisPerDay + ((ms % millisPerDay).toNat : ℤ) = ms := by
    rw [Int.toNat_of_nonneg (Int.emod_nonneg ms (by decide)), mul_comm]
    exact Int.mul_ediv_add_emod ms millisPerDay
  rw [readIso, toISOString, String.toList_ofList, readIsoChars, if_pos hlength, isoChars]
  generalize civil (ms / millisPerDay) = date at *
  generalize (ms % millisPerDay).toNat = n at *
  obtain ⟨y, m, d⟩ := date
  dsimp only at *
  subst hyear
  -- the fields are read one after the other, each from the digits that were written for it
  rw [yearChars, if_pos ⟨hlow, hhigh⟩]
  rw [field_padded (show (yearOf ms).toNat < 10 ^ 4 by omega)]
  dsimp only
  rw [field_padded hmonth]
  dsimp only
  rw [field_padded hday]
  dsimp only
  rw [clockChars, field_padded (show n / 3600000 < 10 ^ 2 by omega)]
  dsimp only
  rw [field_padded (show n / 60000 % 60 < 10 ^ 2 by omega)]
  dsimp only
  rw [field_padded (show n / 1000 % 60 < 10 ^ 2 by omega)]
  dsimp only
  rw [field_padded (show n % 1000 < 10 ^ 3 by omega), Int.toNat_of_nonneg hlow, hcivil]
  have hsum : ((n / 3600000 * 60 + n / 60000 % 60) * 60 + n / 1000 % 60) * 1000 + n % 1000 = n := by
    omega
  rw [hsum, hmoment]

theorem readIso_toISOString_eq_none {ms : ℤ} (h : ¬HasFourDigitYear ms) :
    readIso (toISOString ms) = none := by
  rw [readIso, toISOString, String.toList_ofList, readIsoChars, if_neg]
  rw [length_isoChars, if_neg h]
  decide

end GtfsStream.Calendar
