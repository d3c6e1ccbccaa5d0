import Mathlib.Data.List.Basic

/-!
# Counting the rounds that a key misses

In each round some keys occur. A cache that keeps a key for some rounds of grace counts, for each
of its keys, the rounds since the last one with the key: the counter is reset where the key occurs,
and otherwise advanced until it reaches the limit, when the key is dropped. Then the cached keys are
those of the last rounds.
-/

namespace GtfsStream.Absence

variable {κ : Type*} [DecidableEq κ] {k : κ} {round : List κ} {rounds : List (List κ)} {grace : ℕ}

/-- How many of the rounds, the latest first, lack a key up to the first one that has it. -/
def absence (k : κ) (rounds : List (List κ)) : Option ℕ := rounds.findIdx? (k ∈ ·)

theorem absence_cons : absence k (round :: rounds) =
    if k ∈ round then some 0 else (absence k rounds).map (· + 1) := by
  rw [absence, List.findIdx?_cons, absence]
  by_cases hk : k ∈ round
  · rw [if_pos (decide_eq_true hk), if_pos hk]
  · rw [if_neg (ne_true_of_eq_false (decide_eq_false hk)), if_neg hk]

/-- What the counters are, by key, if the limit is `grace`. -/
def counters (grace : ℕ) (rounds : List (List κ)) (k : κ) : Option ℕ :=
  (absence k rounds).filter (· < grace)

theorem counters_cons (hgrace : 0 < grace) : counters grace (round :: rounds) k =
    if k ∈ round then some 0
    else (counters grace rounds k).bind fun m ↦ if m + 1 < grace then some (m + 1) else none := by
  rw [counters, absence_cons, counters]
  split_ifs with hk
  · rw [Option.filter_some, if_pos (decide_eq_true hgrace)]
  · cases absence k rounds with
    | none => rfl
    | some m =>
      rw [Option.map_some, Option.filter_some, Option.filter_some]
      by_cases hm : m + 1 < grace
      · have hm' : m < grace := Nat.lt_of_succ_lt hm
        rw [if_pos (decide_eq_true hm), if_pos (decide_eq_true hm'), Option.bind_some, if_pos hm]
      · rw [if_neg (ne_true_of_eq_false (decide_eq_false hm))]
        split_ifs
        · rw [Option.bind_some, if_neg hm]
        · rfl

/-- **The keys with a counter are those of the last rounds.** -/
theorem isSome_counters : (counters grace rounds k).isSome ↔
    ∃ round ∈ rounds.take grace, k ∈ round := by
  induction rounds generalizing grace with
  | nil =>
    refine iff_of_false Bool.false_ne_true ?_
    rintro ⟨round, hmem, -⟩
    rw [List.take_nil] at hmem
    exact List.not_mem_nil hmem
  | cons round rounds ih =>
    cases grace with
    | zero =>
      refine iff_of_false ?_ ?_
      · rw [counters]
        cases absence k (round :: rounds) <;> exact Bool.false_ne_true
      · rintro ⟨round, hmem, -⟩
        exact List.not_mem_nil hmem
    | succ grace =>
      rw [List.take_succ_cons, List.exists_mem_cons_iff, ← ih, counters, absence_cons, counters]
      split_ifs with hk
      · exact iff_of_true rfl (Or.inl hk)
      · rw [or_iff_right hk]
        cases absence k rounds with
        | none => rfl
        | some m =>
          rw [Option.map_some, Option.filter_some, Option.filter_some]
          simp only [Nat.add_lt_add_iff_right]
          split_ifs <;> rfl

end GtfsStream.Absence
