import GtfsStream.Library.Lines
import Mathlib.Algebra.BigOperators.Group.Finset.Piecewise
import Mathlib.Algebra.Order.BigOperators.Group.Finset

/-!
# Records placed in files

Records that were written to several files are all still there if each of them has a place of its
own: a file, and a stretch of that file that no other record uses. Two equal records need two
places, so a lost record is not excused by an equal one elsewhere.

`Placement.append` and `Placement.mapIndex` follow a placement through an append and a renaming of
files. `Placement.length_le` is the way to refute one: the files are not large enough.
-/

namespace GtfsStream

variable {α ι κ : Type} {sep : α}

/-! ## One file -/

/-- The records stand in `s` in this order, each with its separator and none overlapping. -/
def Holds (sep : α) : List α → List (List α) → Prop
  | _, [] => True
  | s, v :: vs => ∃ a b, s = a ++ (v ++ [sep]) ++ b ∧ Holds sep b vs

@[simp] theorem holds_nil (s : List α) : Holds sep s [] := by rw [Holds]; trivial

theorem holds_cons {s v : List α} {vs : List (List α)} :
    Holds sep s (v :: vs) ↔ ∃ a b, s = a ++ (v ++ [sep]) ++ b ∧ Holds sep b vs := by rw [Holds]

theorem Holds.append_left {s : List α} {vs : List (List α)} (h : Holds sep s vs) (t : List α) :
    Holds sep (t ++ s) vs := by
  cases vs with
  | nil => exact holds_nil _
  | cons v vs =>
    obtain ⟨a, b, rfl, hb⟩ := holds_cons.mp h
    exact holds_cons.mpr ⟨t ++ a, b, by simp, hb⟩

theorem Holds.append {s t : List α} {vs ws : List (List α)} (h : Holds sep s vs)
    (h' : Holds sep t ws) : Holds sep (s ++ t) (vs ++ ws) := by
  induction vs generalizing s with
  | nil => exact h'.append_left s
  | cons v vs ih =>
    obtain ⟨a, b, rfl, hb⟩ := holds_cons.mp h
    exact holds_cons.mpr ⟨a, b ++ t, by simp, ih hb⟩

theorem holds_frames (vs : List (List α)) : Holds sep (frames sep vs) vs := by
  induction vs with
  | nil => exact holds_nil _
  | cons v vs ih => exact holds_cons.mpr ⟨[], frames sep vs, by simp, ih⟩

theorem Holds.length_le {s : List α} {vs : List (List α)} (h : Holds sep s vs) :
    (frames sep vs).length ≤ s.length := by
  induction vs generalizing s with
  | nil => exact Nat.zero_le _
  | cons v vs ih =>
    obtain ⟨a, b, rfl, hb⟩ := holds_cons.mp h
    have hle := ih hb
    simp only [frames_cons, List.length_append]
    omega

theorem Holds.eq_nil_of_nil {vs : List (List α)} (h : Holds sep [] vs) : vs = [] := by
  cases vs with
  | nil => rfl
  | cons v vs =>
    obtain ⟨a, b, hs, -⟩ := holds_cons.mp h
    simp at hs

/-! ## Several files -/

section Placement

variable [DecidableEq ι] [DecidableEq κ]

/-- The records among `placed` whose place is the file `i`. -/
def placedAt (i : ι) (placed : List (ι × List α)) : List (List α) :=
  (placed.filter fun x ↦ x.1 = i).map Prod.snd

@[simp] theorem placedAt_nil (i : ι) : placedAt i ([] : List (ι × List α)) = [] := rfl

theorem placedAt_cons (i : ι) (x : ι × List α) (placed : List (ι × List α)) :
    placedAt i (x :: placed) = if x.1 = i then x.2 :: placedAt i placed else placedAt i placed := by
  rw [placedAt, List.filter_cons]
  split <;> simp_all [placedAt]

theorem placedAt_append (i : ι) (xs ys : List (ι × List α)) :
    placedAt i (xs ++ ys) = placedAt i xs ++ placedAt i ys := by
  rw [placedAt, List.filter_append, List.map_append, placedAt, placedAt]

/-- Each of the records has a place of its own in the files with these contents. -/
def Placement (sep : α) (content : ι → List α) (vs : List (List α)) : Prop :=
  ∃ placed : List (ι × List α), placed.map Prod.snd = vs ∧
    ∀ i, Holds sep (content i) (placedAt i placed)

theorem Placement.nil (content : ι → List α) : Placement sep content [] :=
  ⟨[], rfl, fun i ↦ by rw [placedAt_nil]; exact holds_nil _⟩

theorem Placement.of_holds {content : ι → List α} {vs : List (List α)} {i : ι}
    (h : Holds sep (content i) vs) : Placement sep content vs := by
  refine ⟨vs.map fun v ↦ (i, v), by simp, fun j ↦ ?_⟩
  by_cases hj : i = j
  · subst hj
    simpa [placedAt, List.filter_map, Function.comp_def] using h
  · simp [placedAt, List.filter_map, Function.comp_def, hj]

theorem Placement.append {content content' : ι → List α} {vs : List (List α)} {i : ι} {v : List α}
    (h : Placement sep content vs) (hi : content' i = content i ++ (v ++ [sep]))
    (hj : ∀ j, j ≠ i → content' j = content j) : Placement sep content' (vs ++ [v]) := by
  obtain ⟨placed, rfl, hp⟩ := h
  refine ⟨placed ++ [(i, v)], by simp, fun j ↦ ?_⟩
  rw [placedAt_append, placedAt_cons, placedAt_nil]
  by_cases h : i = j
  · subst h
    rw [if_pos rfl, hi]
    exact (hp i).append (holds_cons.mpr ⟨[], [], by simp, holds_nil _⟩)
  · rw [if_neg h, List.append_nil, hj j (Ne.symm h)]
    exact hp j

theorem content_ne_nil_of_mem {content : ι → List α} {placed : List (ι × List α)}
    (h : ∀ i, Holds sep (content i) (placedAt i placed)) {x : ι × List α} (hx : x ∈ placed) :
    content x.1 ≠ [] := by
  intro hnil
  have hempty := (hnil ▸ h x.1).eq_nil_of_nil
  rw [placedAt, List.map_eq_nil_iff, List.filter_eq_nil_iff] at hempty
  exact hempty x hx (decide_eq_true rfl)

/-- Renaming files, where no two files with something in them get the same name. -/
theorem Placement.mapIndex {content : ι → List α} {content' : κ → List α} {vs : List (List α)}
    (h : Placement sep content vs) (f : ι → κ)
    (hf : ∀ i j, content i ≠ [] → content j ≠ [] → f i = f j → i = j)
    (hc : ∀ i, content i ≠ [] → content' (f i) = content i) : Placement sep content' vs := by
  obtain ⟨placed, rfl, hp⟩ := h
  have hne : ∀ x ∈ placed, content x.1 ≠ [] := fun x hx ↦ content_ne_nil_of_mem hp hx
  refine ⟨placed.map fun x ↦ (f x.1, x.2), by simp, fun k ↦ ?_⟩
  rw [placedAt, List.filter_map, List.map_map]
  by_cases hk : ∃ x ∈ placed, f x.1 = k
  · obtain ⟨x, hx, rfl⟩ := hk
    have hfilter : placed.filter ((fun y : κ × List α ↦ decide (y.1 = f x.1)) ∘
        fun y ↦ (f y.1, y.2)) = placed.filter fun y ↦ y.1 = x.1 := by
      refine List.filter_congr fun y hy ↦ ?_
      refine decide_eq_decide.mpr ⟨fun he ↦ ?_, fun he ↦ congrArg f he⟩
      exact hf _ _ (hne y hy) (hne x hx) he
    rw [hfilter, hc _ (hne x hx)]
    exact hp x.1
  · have hfilter : placed.filter ((fun y : κ × List α ↦ decide (y.1 = k)) ∘
        fun y ↦ (f y.1, y.2)) = [] := by
      refine List.filter_eq_nil_iff.mpr fun y hy he ↦ hk ⟨y, hy, ?_⟩
      exact of_decide_eq_true he
    rw [hfilter]
    exact holds_nil _

theorem length_frames_eq_sum {placed : List (ι × List α)} {s : Finset ι}
    (h : ∀ x ∈ placed, x.1 ∈ s) :
    (frames sep (placed.map Prod.snd)).length =
      ∑ i ∈ s, (frames sep (placedAt i placed)).length := by
  induction placed with
  | nil => simp
  | cons x placed ih =>
    have hcons (i : ι) : (frames sep (placedAt i (x :: placed))).length =
        (if x.1 = i then x.2.length + 1 else 0) + (frames sep (placedAt i placed)).length := by
      rw [placedAt_cons]
      split
      · simp only [frames_cons, List.length_append, List.length_singleton]
      · rw [Nat.zero_add]
    rw [Finset.sum_congr rfl fun i _ ↦ hcons i, Finset.sum_add_distrib, Finset.sum_ite_eq,
      if_pos (h x List.mem_cons_self), ← ih fun y hy ↦ h y (List.mem_cons_of_mem x hy)]
    simp only [List.map_cons, frames_cons, List.length_append, List.length_singleton]

/-- **Placed records fit.** -/
theorem Placement.length_le {content : ι → List α} {vs : List (List α)}
    (h : Placement sep content vs) {s : Finset ι} (hs : ∀ i, content i ≠ [] → i ∈ s) :
    (frames sep vs).length ≤ ∑ i ∈ s, (content i).length := by
  obtain ⟨placed, rfl, hp⟩ := h
  rw [length_frames_eq_sum fun x hx ↦ hs _ (content_ne_nil_of_mem hp hx)]
  exact Finset.sum_le_sum fun i _ ↦ (hp i).length_le

end Placement

end GtfsStream
