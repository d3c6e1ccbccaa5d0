import Mathlib.Algebra.Order.BigOperators.Group.List
import Mathlib.Algebra.Order.Field.Rat
import Mathlib.Data.List.Induction
import Mathlib.Tactic.Ring

/-!
# Attempts

A loop that tries a fallible operation a bounded number of times, and goes on after an error only
if that error is worth another attempt. The attempts are numbered from one. What the loop did is
kept as its last answer, which is the one that it ends with, and the numbers of the attempts that
it went on after.

`attempts_settled` says which attempt is the last one; that number is unique, so it determines all
the rest. A loop that never ends is described by its streaks instead: how many of the last attempts
in a row had a property.
-/

namespace GtfsStream.Attempts

variable {ε α : Type*}

/-- What a loop did. Without a first attempt there is no last answer. -/
structure Attempted (ε α : Type*) where
  last : Option (Except ε α)
  retried : List ℕ

/-- The last `left` of the `max` attempts. -/
def attemptsFrom (again : ε → ℕ → Bool) (answer : ℕ → Except ε α) (max : ℕ) : ℕ → Attempted ε α
  | 0 => ⟨none, []⟩
  | left + 1 =>
    let attempt := max - left
    match answer attempt with
    | .ok a => ⟨some (.ok a), []⟩
    | .error e =>
      if max ≤ attempt ∨ again e attempt = false then ⟨some (.error e), []⟩
      else
        let rest := attemptsFrom again answer max left
        ⟨rest.last, attempt :: rest.retried⟩

def attempts (again : ε → ℕ → Bool) (answer : ℕ → Except ε α) (max : ℕ) : Attempted ε α :=
  attemptsFrom again answer max max

/-- The attempt is an error that the loop goes on after. -/
def IsRetried (again : ε → ℕ → Bool) (answer : ℕ → Except ε α) (k : ℕ) : Prop :=
  ∃ e, answer k = .error e ∧ again e k = true

/-- The attempt `n` is the first one of those from `first` on that the loop does not go on after. -/
structure Settles (again : ε → ℕ → Bool) (answer : ℕ → Except ε α) (max first n : ℕ) : Prop where
  first_le : first ≤ n
  le_max : n ≤ max
  before : ∀ k, first ≤ k → k < n → IsRetried again answer k
  ends : n = max ∨ ¬ IsRetried again answer n

variable {again : ε → ℕ → Bool} {answer : ℕ → Except ε α} {max first n m left : ℕ}

theorem Settles.unique (hn : Settles again answer max first n)
    (hm : Settles again answer max first m) : n = m := by
  have hle {n m : ℕ} (hn : Settles again answer max first n)
      (hm : Settles again answer max first m) : n ≤ m := by
    by_contra hlt
    rw [not_le] at hlt
    rcases hm.ends with heq | hnot
    · exact absurd hn.le_max (not_le.mpr (heq ▸ hlt))
    · exact hnot (hn.before m hm.first_le hlt)
  exact le_antisymm (hle hn hm) (hle hm hn)

theorem attemptsFrom_settled (again : ε → ℕ → Bool) (answer : ℕ → Except ε α)
    (hleft : left < max) :
    ∃ n, Settles again answer max (max - left) n ∧
      attemptsFrom again answer max (left + 1) =
        ⟨some (answer n), List.range' (max - left) (n - (max - left))⟩ := by
  induction left with
  | zero =>
    refine ⟨max, ⟨by omega, le_refl max, fun k hk hlt ↦ absurd hlt (by omega), Or.inl rfl⟩, ?_⟩
    rw [attemptsFrom, Nat.sub_zero, Nat.sub_self]
    cases hans : answer max with
    | ok a => rfl
    | error e => exact if_pos (Or.inl (le_refl max))
  | succ left ih =>
    obtain ⟨n, hn, hrest⟩ := ih (by omega)
    have hnext : max - left = max - (left + 1) + 1 := by omega
    rw [attemptsFrom]
    by_cases hretried : IsRetried again answer (max - (left + 1))
    · -- the loop goes on, and the rest of it is given by the induction
      obtain ⟨e, hans, hagain⟩ := hretried
      refine ⟨n, ⟨by have := hn.first_le; omega, hn.le_max, ?_, hn.ends⟩, ?_⟩
      · intro k hk hlt
        rcases hk.eq_or_lt with rfl | hk
        · exact ⟨e, hans, hagain⟩
        · exact hn.before k (by omega) hlt
      · have hgo : ¬(max ≤ max - (left + 1) ∨ again e (max - (left + 1)) = false) := by
          rw [hagain]
          simp only [Bool.true_eq_false, or_false, not_le]
          omega
        have hlen : n - (max - (left + 1)) = n - (max - left) + 1 := by
          have := hn.first_le
          omega
        simp only [hans]
        rw [if_neg hgo, hrest, hlen, List.range'_succ, hnext]
    · refine ⟨max - (left + 1), ⟨le_refl _, Nat.sub_le _ _,
        fun k hk hlt ↦ absurd hlt (not_lt.mpr hk), Or.inr hretried⟩, ?_⟩
      rw [Nat.sub_self]
      cases hans : answer (max - (left + 1)) with
      | ok a => rfl
      | error e =>
        have hstop : again e (max - (left + 1)) = false :=
          Bool.eq_false_iff.mpr fun h ↦ hretried ⟨e, hans, h⟩
        exact if_pos (Or.inr hstop)

/-- **The attempts end with the first answer that is not worth another one, or with the last
attempt that is allowed.** They went on after all those before. -/
theorem attempts_settled (again : ε → ℕ → Bool) (answer : ℕ → Except ε α) (hmax : 0 < max) :
    ∃ n, Settles again answer max 1 n ∧
      attempts again answer max = ⟨some (answer n), List.range' 1 (n - 1)⟩ := by
  obtain ⟨n, hn, hall⟩ := attemptsFrom_settled again answer (Nat.sub_lt hmax one_pos)
  have hfirst : max - (max - 1) = 1 := Nat.sub_sub_self hmax
  have hcancel : max - 1 + 1 = max := Nat.sub_add_cancel hmax
  rw [hfirst] at hn hall
  rw [hcancel] at hall
  exact ⟨n, hn, hall⟩

/-- The pauses of an exponential backoff from `base` on, each with its own factor of at most
`bound`, are at most as long as the next pause would be. -/
theorem sum_backoff_le {base bound : ℚ} (hbase : 0 ≤ base) (factor : ℕ → ℚ)
    (hfactor : ∀ k, factor k ≤ bound) (n : ℕ) :
    ((List.range' 1 n).map fun k ↦ base * 2 ^ (k - 1) * factor k).sum ≤
      base * (2 ^ n - 1) * bound := by
  induction n with
  | zero => simp
  | succ n ih =>
    rw [List.range'_1_concat, List.map_append, List.sum_append, List.map_singleton,
      List.sum_singleton, Nat.add_sub_cancel_left]
    have hlast : base * 2 ^ n * factor (1 + n) ≤ base * 2 ^ n * bound :=
      mul_le_mul_of_nonneg_left (hfactor _) (mul_nonneg hbase (pow_nonneg (by norm_num) n))
    calc _ ≤ base * (2 ^ n - 1) * bound + base * 2 ^ n * bound := add_le_add ih hlast
      _ = base * (2 ^ (n + 1) - 1) * bound := by ring

/-! ## Streaks -/

/-- How many elements in a row at the end of the list have the property. -/
def streak (p : α → Bool) (l : List α) : ℕ := (l.reverse.takeWhile p).length

variable {p : α → Bool} {l l' : List α} {a : α}

theorem streak_concat : streak p (l ++ [a]) = if p a then streak p l + 1 else 0 := by
  rw [streak, List.reverse_append, List.reverse_singleton, List.singleton_append,
    List.takeWhile_cons]
  split_ifs
  · exact List.length_cons
  · rfl

theorem streak_append (h : ∀ a ∈ l', p a = true) :
    streak p (l ++ l') = streak p l + l'.length := by
  induction l' using List.reverseRecOn with
  | nil => rw [List.append_nil, List.length_nil, add_zero]
  | append_singleton l' a ih =>
    rw [← List.append_assoc, streak_concat, if_pos (h a (by simp)),
      ih fun b hb ↦ h b (List.mem_append_left _ hb), List.length_append, List.length_singleton,
      add_assoc]

/-- A streak is as long as `n` when the last `n` elements have the property. -/
theorem le_streak_iff {n : ℕ} :
    n ≤ streak p l ↔ n ≤ l.length ∧ ∀ a ∈ l.drop (l.length - n), p a = true := by
  induction l using List.reverseRecOn generalizing n with
  | nil => exact ⟨fun h ↦ ⟨h, fun a ha ↦ absurd ha (by simp)⟩, fun h ↦ h.1⟩
  | append_singleton l a ih =>
    rw [streak_concat, List.length_append, List.length_singleton]
    cases n with
    | zero =>
      refine iff_of_true (Nat.zero_le _) ⟨Nat.zero_le _, fun b hb ↦ absurd hb ?_⟩
      rw [Nat.sub_zero, List.drop_of_length_le (by simp)]
      exact List.not_mem_nil
    | succ n =>
      rw [Nat.add_sub_add_right, List.drop_append_of_le_length (Nat.sub_le _ _)]
      by_cases ha : p a = true
      · rw [if_pos ha, Nat.add_le_add_iff_right, Nat.add_le_add_iff_right, ih]
        refine and_congr_right fun _ ↦ ⟨fun h b hb ↦ ?_, fun h b hb ↦
          h b (List.mem_append_left _ hb)⟩
        rcases List.mem_append.mp hb with hb | hb
        · exact h b hb
        · rwa [List.mem_singleton.mp hb]
      · rw [if_neg ha]
        exact iff_of_false (Nat.not_succ_le_zero n) fun h ↦ ha (h.2 a (by simp))

end GtfsStream.Attempts
