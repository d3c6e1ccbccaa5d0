import GtfsStream.Library.Runs
import Mathlib.Data.Set.Basic

/-!
# Stretches of integers

A stretch of a set of integers is a maximal interval of it. Cutting a sorted list of positions
wherever two neighbours are too far apart yields stretches: those of the set of positions, with the
tolerated holes filled.
-/

namespace GtfsStream

/-- A maximal interval of a set of integers. -/
structure Stretch (G : Set ℤ) (a b : ℤ) : Prop where
  le : a ≤ b
  inside : ∀ i, a ≤ i → i ≤ b → i ∈ G
  left : a - 1 ∉ G
  right : b + 1 ∉ G

namespace Stretch

variable {G H : Set ℤ} {a b c d i : ℤ}

theorem le_of_meet (h : Stretch G a b) (h' : Stretch G c d) (ha : a ≤ d) : a ≤ c := by
  by_contra hlt
  exact h.left (h'.inside (a - 1) (by omega) (by omega))

theorem ge_of_meet (h : Stretch G a b) (h' : Stretch G c d) (hb : c ≤ b) : d ≤ b := by
  by_contra hlt
  exact h.right (h'.inside (b + 1) (by omega) (by omega))

theorem eq_of_meet (h : Stretch G a b) (h' : Stretch G c d) (hb : c ≤ b) (ha : a ≤ d) :
    a = c ∧ b = d :=
  ⟨le_antisymm (h.le_of_meet h' ha) (h'.le_of_meet h hb),
    le_antisymm (h'.ge_of_meet h ha) (h.ge_of_meet h' hb)⟩

/-- Whether an interval is a stretch depends on the interval and its two neighbours. -/
theorem congr (h : Stretch G a b) (heq : ∀ i, a - 1 ≤ i → i ≤ b + 1 → (i ∈ G ↔ i ∈ H)) :
    Stretch H a b := by
  have hle := h.le
  constructor
  · exact hle
  · intro i hi hib
    exact (heq i (by omega) (by omega)).mp (h.inside i hi hib)
  · exact fun ha ↦ h.left ((heq (a - 1) (by omega) (by omega)).mpr ha)
  · exact fun hb ↦ h.right ((heq (b + 1) (by omega) (by omega)).mpr hb)

end Stretch

/-- The set with the holes filled that are one long and not forbidden. -/
def bridged (C F : Set ℤ) : Set ℤ := {i | i ∈ C ∨ i ∉ F ∧ i - 1 ∈ C ∧ i + 1 ∈ C}

section

variable {α : Type*} {pos : α → ℤ} {r : α → α → Bool} {l run : List α} {F : Set ℤ}

/-- A chain of neighbours covers what lies between its ends. -/
theorem mem_bridged_of_isChain {C : Set ℤ} (hne : run ≠ []) (hmem : ∀ x ∈ run, pos x ∈ C)
    (hsorted : run.Pairwise fun x y ↦ pos x < pos y)
    (hr : ∀ x ∈ run, ∀ y ∈ run, pos x < pos y → r x y = true →
      pos y = pos x + 1 ∨ pos y = pos x + 2 ∧ pos x + 1 ∉ F)
    (hchain : run.IsChain fun x y ↦ r x y = true) (i : ℤ) (hi : pos (run.head hne) ≤ i)
    (hi' : i ≤ pos (run.getLast hne)) : i ∈ bridged C F := by
  induction run with
  | nil => exact absurd rfl hne
  | cons x rest ih =>
    have hx : pos x ∈ C := hmem x List.mem_cons_self
    rw [List.head_cons] at hi
    cases rest with
    | nil =>
      rw [List.getLast_singleton] at hi'
      rw [show i = pos x by omega]
      exact Or.inl hx
    | cons y rest =>
      rw [List.getLast_cons (List.cons_ne_nil y rest)] at hi'
      obtain ⟨hxy, hrest⟩ := List.isChain_cons_cons.mp hchain
      obtain ⟨hlt, hsortedRest⟩ := List.pairwise_cons.mp hsorted
      have hy : pos y ∈ C := hmem y (by simp)
      by_cases hiy : pos y ≤ i
      · exact ih (List.cons_ne_nil y rest) (fun z hz ↦ hmem z (List.mem_cons_of_mem x hz))
          hsortedRest (fun z hz w hw ↦ hr z (List.mem_cons_of_mem x hz) w
            (List.mem_cons_of_mem x hw)) hrest hiy hi'
      · rcases eq_or_ne i (pos x) with rfl | hne
        · exact Or.inl hx
        · -- the hole between two neighbours
          rcases hr x (by simp) y (by simp) (hlt y (by simp)) hxy with hxy | ⟨hxy, hhole⟩
          · omega
          · have hix : i = pos x + 1 := by omega
            rw [hix]
            refine Or.inr ⟨hhole, ?_, ?_⟩
            · rwa [add_sub_cancel_right]
            · rwa [show pos x + 1 + 1 = pos y by omega]

theorem stretch_of_mem_splitBy (hsorted : l.Pairwise fun x y ↦ pos x < pos y)
    (hr : ∀ x ∈ l, ∀ y ∈ l, pos x < pos y →
      (r x y = true ↔ pos y = pos x + 1 ∨ pos y = pos x + 2 ∧ pos x + 1 ∉ F))
    (h : run ∈ l.splitBy r) (hne : run ≠ []) :
    Stretch (bridged {i | ∃ x ∈ l, pos x = i} F) (pos (run.head hne)) (pos (run.getLast hne)) := by
  have hrun := Runs.maximalRun_of_mem_splitBy hsorted h
  have hhead := hrun.sub _ (List.head_mem hne)
  have hlast := hrun.sub _ (List.getLast_mem hne)
  -- the positions next to the run would have been related to it
  have hbefore : ∀ x ∈ l, pos x ≠ pos (run.head hne) - 1 := fun x hx hpos ↦
    hrun.left x ⟨hx, hhead, by omega, fun z _ ↦ by omega⟩
      ((hr x hx _ hhead (by omega)).mpr (Or.inl (by omega)))
  have hafter : ∀ x ∈ l, pos x ≠ pos (run.getLast hne) + 1 := fun x hx hpos ↦
    hrun.right x ⟨hlast, hx, by omega, fun z _ ↦ by omega⟩
      ((hr _ hlast x hx (by omega)).mpr (Or.inl (by omega)))
  constructor
  · exact Runs.pos_head_le hrun.sorted hne (List.getLast_mem hne)
  · exact mem_bridged_of_isChain hne (fun x hx ↦ ⟨x, hrun.sub x hx, rfl⟩) hrun.sorted
      (fun x hx y hy hxy ↦ (hr x (hrun.sub x hx) y (hrun.sub y hy) hxy).mp) hrun.linked
  · rintro (⟨x, hx, hpos⟩ | ⟨hF, ⟨x, hx, hpos⟩, -⟩)
    · exact hbefore x hx hpos
    · -- across a hole that is not forbidden
      refine hrun.left x ⟨hx, hhead, by omega, fun z hz ↦ ?_⟩
        ((hr x hx _ hhead (by omega)).mpr (Or.inr ⟨by omega, ?_⟩))
      · have hz := hbefore z hz
        omega
      · rwa [show pos x + 1 = pos (run.head hne) - 1 by omega]
  · rintro (⟨x, hx, hpos⟩ | ⟨hF, -, x, hx, hpos⟩)
    · exact hafter x hx hpos
    · refine hrun.right x ⟨hlast, hx, by omega, fun z hz ↦ ?_⟩
        ((hr _ hlast x hx (by omega)).mpr (Or.inr ⟨by omega, hF⟩))
      have hz := hafter z hz
      omega

/-- The parts of the split list span the stretches of its positions. -/
theorem exists_mem_splitBy_iff (hsorted : l.Pairwise fun x y ↦ pos x < pos y)
    (hr : ∀ x ∈ l, ∀ y ∈ l, pos x < pos y →
      (r x y = true ↔ pos y = pos x + 1 ∨ pos y = pos x + 2 ∧ pos x + 1 ∉ F)) {a b : ℤ} :
    (∃ run ∈ l.splitBy r, ∃ hne : run ≠ [], pos (run.head hne) = a ∧ pos (run.getLast hne) = b) ↔
      Stretch (bridged {i | ∃ x ∈ l, pos x = i} F) a b := by
  constructor
  · rintro ⟨run, hrun, hne, rfl, rfl⟩
    exact stretch_of_mem_splitBy hsorted hr hrun hne
  · intro h
    -- a stretch starts at a position, and the part of this position spans it
    have ha : a ∈ bridged {i | ∃ x ∈ l, pos x = i} F := h.inside a (le_refl a) h.le
    obtain ⟨x, hx, rfl⟩ : ∃ x ∈ l, pos x = a := by
      refine ha.resolve_right fun hbridge ↦ h.left (Or.inl hbridge.2.1)
    obtain ⟨run, hrun, hxrun⟩ : ∃ run ∈ l.splitBy r, x ∈ run := by
      rwa [← List.mem_flatten, List.flatten_splitBy]
    have hne := List.ne_nil_of_mem hxrun
    have hsortedRun := (Runs.maximalRun_of_mem_splitBy hsorted hrun).sorted
    have hhead := Runs.pos_head_le hsortedRun hne hxrun
    have hlast := Runs.pos_le_getLast hsortedRun hne hxrun
    have hspan := stretch_of_mem_splitBy hsorted hr hrun hne
    obtain ⟨hhead', hlast'⟩ := hspan.eq_of_meet h hlast (hhead.trans h.le)
    exact ⟨run, hrun, hne, hhead', hlast'⟩

end

end GtfsStream
