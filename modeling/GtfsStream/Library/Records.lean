import Mathlib.Data.List.Induction
import Mathlib.Order.Defs.LinearOrder
import Mathlib.Order.Lattice
import Mathlib.Order.MinMax

/-!
# Records of a sequence

The latest value of a sequence is the largest one so far; values that step back leave it alone. It
is passed at the first position with a larger value. Every latest value is passed at most once, and
at the first position at which it can be.
-/

namespace GtfsStream.Records

variable {α : Type*} [LinearOrder α] {xs : List α} {x h h' : α} {k l : ℕ}

/-- The largest value. -/
def latest (xs : List α) : Option α := xs.foldl (fun best x ↦ some (best.elim x (max · x))) none

theorem latest_concat (xs : List α) (x : α) :
    latest (xs ++ [x]) = some ((latest xs).elim x (max · x)) := by
  rw [latest, List.foldl_append]
  rfl

theorem latest_eq_none_iff : latest xs = none ↔ xs = [] := by
  rcases List.eq_nil_or_concat xs with rfl | ⟨ys, y, rfl⟩
  · exact iff_of_true rfl rfl
  · rw [List.concat_eq_append, latest_concat]
    exact iff_of_false nofun (List.append_ne_nil_of_right_ne_nil _ nofun)

theorem latest_eq_some_iff : latest xs = some h ↔ h ∈ xs ∧ ∀ x ∈ xs, x ≤ h := by
  induction xs using List.reverseRecOn generalizing h with
  | nil => exact iff_of_false nofun fun hx ↦ absurd hx.1 List.not_mem_nil
  | append_singleton xs y ih =>
    rw [latest_concat, Option.some_inj]
    have hforall : (∀ x ∈ xs ++ [y], x ≤ h) ↔ (∀ x ∈ xs, x ≤ h) ∧ y ≤ h := by
      rw [List.forall_mem_append, List.forall_mem_singleton]
    rw [hforall, List.mem_append, List.mem_singleton]
    cases hlatest : latest xs with
    | none =>
      obtain rfl := latest_eq_none_iff.mp hlatest
      rw [Option.elim_none]
      refine ⟨fun heq ↦ ⟨Or.inr heq.symm, fun x hx ↦ absurd hx List.not_mem_nil, heq.le⟩, ?_⟩
      exact fun hx ↦ (hx.1.resolve_left List.not_mem_nil).symm
    | some best =>
      obtain ⟨hmem, hle⟩ := ih.mp hlatest
      rw [Option.elim_some]
      constructor
      · rintro rfl
        refine ⟨?_, fun x hx ↦ (hle x hx).trans (le_max_left _ _), le_max_right _ _⟩
        rcases max_choice best y with hmax | hmax
        · rw [hmax]
          exact Or.inl hmem
        · exact Or.inr hmax
      · rintro ⟨hmem' | rfl, hall, hy⟩
        · exact le_antisymm (max_le (hall best hmem) hy) ((hle h hmem').trans (le_max_left _ _))
        · exact max_eq_right (hall best hmem)

/-- At position `k` the latest value before it is passed. -/
def Passes (xs : List α) (k : ℕ) (h : α) : Prop :=
  latest (xs.take k) = some h ∧ ∃ x, xs[k]? = some x ∧ h < x

theorem mem_take_of_getElem? {β : Type*} {ys : List β} {y : β} (hy : ys[k]? = some y)
    (hk : k < l) : y ∈ ys.take l := by
  refine List.mem_of_getElem? (i := k) ?_
  rw [List.getElem?_take_of_lt hk, hy]

theorem Passes.le_of_lt (hk : Passes xs k h) (hlk : l < k) (hx : xs[l]? = some x) : x ≤ h :=
  (latest_eq_some_iff.mp hk.1).2 x (mem_take_of_getElem? hx hlk)

/-- **No value is passed twice.** -/
theorem Passes.unique (hk : Passes xs k h) (hl : Passes xs l h) : k = l := by
  have hnot {k l : ℕ} (hk : Passes xs k h) (hl : Passes xs l h) : ¬k < l := by
    intro hlt
    obtain ⟨-, x, hx, hhx⟩ := hk
    exact absurd hhx (not_lt.mpr (hl.le_of_lt hlt hx))
  exact le_antisymm (not_lt.mp (hnot hl hk)) (not_lt.mp (hnot hk hl))

/-- **Every latest value is passed by the first larger one.** -/
theorem passes_of_first (hlatest : latest (xs.take l) = some h) (hlk : l ≤ k)
    (hx : xs[k]? = some x) (hhx : h < x)
    (hfirst : ∀ j, l ≤ j → j < k → ∀ y, xs[j]? = some y → y ≤ h) : Passes xs k h := by
  obtain ⟨hmem, hle⟩ := latest_eq_some_iff.mp hlatest
  refine ⟨latest_eq_some_iff.mpr ⟨?_, fun y hy ↦ ?_⟩, x, hx, hhx⟩
  · exact (List.take_subset_take_left xs hlk) hmem
  · obtain ⟨j, hj⟩ := List.mem_iff_getElem?.mp hy
    have hjk : j < k := by
      have hlength := (List.getElem?_eq_some_iff.mp hj).1
      rw [List.length_take] at hlength
      omega
    rw [List.getElem?_take_of_lt hjk] at hj
    rcases lt_or_ge j l with hjl | hlj
    · exact hle y (mem_take_of_getElem? hj hjl)
    · exact hfirst j hlj hjk y hj

end GtfsStream.Records
