import Mathlib.Algebra.Order.Ring.Int
import Mathlib.Data.List.Chain
import Mathlib.Data.List.Nodup
import Mathlib.Data.List.SplitBy
import Mathlib.Order.Basic

/-!
# Runs

A list is cut wherever two neighbours are not related. A scan does it by an index that moves over
the list, with the beginning of the open run beside it, and one more step at the end for the last
run. For a list that is sorted strictly, the parts are the maximal runs of its elements, and which
these are depends on which elements there are.

## The scan

The state of the scan is the beginning of the open run and what was emitted so far. Before each step
the list up to that beginning has been cut where it should be, and from there on all neighbours are
related. A step that finds two neighbours which are not related emits the open run and begins the
next one. The last step has no neighbour to look at and emits what is open.
-/

namespace GtfsStream.Runs

variable {α β : Type*}

/-! ## The scan -/

/-- The neighbours before and at an index are related; past the end there is nothing to relate. -/
def linkedAt (r : α → α → Bool) (l : List α) (i : ℕ) : Bool :=
  match l[i - 1]?, l[i]? with
  | some x, some y => r x y
  | _, _ => false

/-- One step at index `i`, with the beginning of the open run and what has been emitted. -/
def scanStep (r : α → α → Bool) (emit : List α → List β) (l : List α) (state : ℕ × List β)
    (i : ℕ) : ℕ × List β :=
  if linkedAt r l i then state else (i, state.2 ++ emit ((l.take i).drop state.1))

/-- The indices run from one to the length of the list. -/
def scan (r : α → α → Bool) (emit : List α → List β) (l : List α) : List β :=
  ((List.range' 1 l.length).foldl (scanStep r emit l) (0, [])).2

variable {r : α → α → Bool} {emit : List α → List β} {l : List α}

/-- What holds after the steps up to index `k`: what came before the open run has been cut and
emitted, and the open run is related throughout, as far as the next index. -/
structure Scanned (r : α → α → Bool) (emit : List α → List β) (l : List α) (k : ℕ)
    (state : ℕ × List β) : Prop where
  le : state.1 ≤ k
  out : state.2 = ((l.take state.1).splitBy r).flatMap emit
  apart : ∀ x ∈ (l.take state.1).getLast?, ∀ y ∈ (l.drop state.1).head?, r x y = false
  chain : ((l.take (k + 1)).drop state.1).IsChain fun x y ↦ r x y = true

theorem scanned_zero : Scanned r emit l 0 (0, []) := by
  refine ⟨le_refl 0, rfl, fun x hx ↦ ?_, ?_⟩
  · rw [List.take_zero] at hx
    exact absurd hx (Option.not_mem_none x)
  · rw [List.drop_zero]
    cases l with
    | nil => exact List.isChain_nil
    | cons x l => exact List.isChain_singleton x

/-- What has been looked at is what is emitted and the open run. -/
theorem Scanned.splitBy_take {k : ℕ} {state : ℕ × List β} (h : Scanned r emit l k state)
    (hk : k < l.length) :
    (l.take (k + 1)).splitBy r =
      (l.take state.1).splitBy r ++ [(l.take (k + 1)).drop state.1] := by
  have hle := h.le
  have hne : (l.take (k + 1)).drop state.1 ≠ [] := by
    rw [List.ne_nil_iff_length_pos, List.length_drop, List.length_take]
    omega
  have hsplit : l.take (k + 1) = l.take state.1 ++ (l.take (k + 1)).drop state.1 := by
    conv_lhs => rw [← List.take_append_drop state.1 (l.take (k + 1)), List.take_take,
      min_eq_left (hle.trans (Nat.le_succ k))]
  conv_lhs => rw [hsplit]
  rw [List.splitBy_append, List.splitBy_of_isChain hne h.chain]
  intro x hx y hy
  refine h.apart x hx y ?_
  rw [← List.take_append_drop (k + 1) l, List.drop_append_of_le_length, List.head?_append]
  · rw [Option.mem_def] at hy ⊢
    rw [hy]
    rfl
  · rw [List.length_take]
    omega

theorem linkedAt_succ {k : ℕ} (hk : k + 1 < l.length) :
    linkedAt r l (k + 1) = r l[k] l[k + 1] := by
  rw [linkedAt, Nat.add_sub_cancel, List.getElem?_eq_getElem hk,
    List.getElem?_eq_getElem (Nat.lt_of_succ_lt hk)]

theorem linkedAt_length : linkedAt r l l.length = false := by
  rw [linkedAt, List.getElem?_eq_none (le_refl l.length)]
  cases l[l.length - 1]? <;> rfl

theorem getLast?_take_drop {k start : ℕ} (hk : k < l.length) (hle : start ≤ k) :
    ((l.take (k + 1)).drop start).getLast? = some l[k] := by
  rw [List.take_succ_eq_append_getElem hk, List.drop_append_of_le_length, List.getLast?_concat]
  rw [List.length_take]
  omega

theorem Scanned.step {k : ℕ} {state : ℕ × List β} (h : Scanned r emit l k state)
    (hk : k < l.length) : Scanned r emit l (k + 1) (scanStep r emit l state (k + 1)) := by
  have hle := h.le
  rw [scanStep]
  by_cases hk' : k + 1 < l.length
  · rw [linkedAt_succ hk']
    split_ifs with hlink
    · -- the open run goes on
      refine ⟨hle.trans (Nat.le_succ k), h.out, h.apart, ?_⟩
      rw [List.take_succ_eq_append_getElem hk', List.drop_append_of_le_length, List.isChain_append]
      · refine ⟨h.chain, List.isChain_singleton _, fun x hx y hy ↦ ?_⟩
        rw [getLast?_take_drop hk hle, Option.mem_some_iff] at hx
        rw [List.head?_cons, Option.mem_some_iff] at hy
        rw [← hx, ← hy]
        exact hlink
      · rw [List.length_take]
        omega
    · -- the open run is emitted, and the next one begins
      refine ⟨le_refl _, ?_, fun x hx y hy ↦ ?_, ?_⟩
      · rw [h.splitBy_take hk, List.flatMap_append, ← h.out, List.flatMap_singleton]
      · have hx' := getLast?_take_drop hk (Nat.zero_le k)
        rw [List.drop_zero] at hx'
        rw [hx', Option.mem_some_iff] at hx
        rw [List.head?_drop, List.getElem?_eq_getElem hk', Option.mem_some_iff] at hy
        rw [← hx, ← hy]
        exact Bool.eq_false_iff.mpr hlink
      · rw [List.take_succ_eq_append_getElem hk', List.drop_left' (by rw [List.length_take]; omega)]
        exact List.isChain_singleton _
  · -- past the end the last run is emitted
    have hend : k + 1 = l.length := by omega
    rw [hend, linkedAt_length, if_neg Bool.false_ne_true, ← hend]
    refine ⟨le_refl _, ?_, fun x _ y hy ↦ ?_, ?_⟩
    · rw [h.splitBy_take hk, List.flatMap_append, ← h.out, List.flatMap_singleton]
    · rw [hend, List.drop_length] at hy
      exact absurd hy (Option.not_mem_none y)
    · rw [List.drop_eq_nil_of_le (by rw [List.length_take]; omega)]
      exact List.isChain_nil

variable (r emit) in
theorem scanned_steps {k : ℕ} (hk : k ≤ l.length) :
    Scanned r emit l k ((List.range' 1 k).foldl (scanStep r emit l) (0, [])) := by
  induction k with
  | zero => exact scanned_zero
  | succ k ih =>
    rw [List.range'_concat, List.foldl_append, List.foldl_cons, List.foldl_nil, Nat.one_mul,
      Nat.add_comm 1 k]
    exact (ih (Nat.le_of_succ_le hk)).step hk

/-- **The scan emits the runs, one after the other.** -/
theorem scan_eq (r : α → α → Bool) (emit : List α → List β) (l : List α) :
    scan r emit l = (l.splitBy r).flatMap emit := by
  rw [scan]
  cases hlength : l.length with
  | zero =>
    rw [List.length_eq_zero_iff.mp hlength]
    rfl
  | succ k =>
    have hsteps := scanned_steps r emit (show k ≤ l.length by omega)
    rw [List.range'_concat, List.foldl_append, List.foldl_cons, List.foldl_nil, Nat.one_mul,
      Nat.add_comm 1 k]
    generalize (List.range' 1 k).foldl (scanStep r emit l) (0, []) = state at hsteps
    have hlast : k < l.length := by omega
    have hcut := hsteps.splitBy_take hlast
    rw [← hlength, List.take_length] at hcut
    rw [scanStep, ← hlength, linkedAt_length, if_neg Bool.false_ne_true, hcut, List.flatMap_append,
      ← hsteps.out, List.flatMap_singleton, List.take_length]

/-! ## Maximal runs -/

section

variable {τ : Type*} [LinearOrder τ] {pos : α → τ} {R : α → α → Prop} {known : α → Prop}
  {run : List α}

/-- The second element follows the first, with none in between. -/
structure Next (pos : α → τ) (known : α → Prop) (x y : α) : Prop where
  left : known x
  right : known y
  lt : pos x < pos y
  between : ∀ z, known z → pos z ≤ pos x ∨ pos y ≤ pos z

/-- Elements that follow each other, each related to the next, and not related to what comes
before and after them. -/
structure MaximalRun (R : α → α → Prop) (pos : α → τ) (known : α → Prop) (run : List α) :
    Prop where
  ne_nil : run ≠ []
  sub : ∀ x ∈ run, known x
  sorted : run.Pairwise fun x y ↦ pos x < pos y
  whole : ∀ x, known x → pos (run.head ne_nil) ≤ pos x → pos x ≤ pos (run.getLast ne_nil) → x ∈ run
  linked : run.IsChain R
  left : ∀ x, Next pos known x (run.head ne_nil) → ¬R x (run.head ne_nil)
  right : ∀ x, Next pos known (run.getLast ne_nil) x → ¬R (run.getLast ne_nil) x

theorem pos_head_le (hsorted : run.Pairwise fun x y ↦ pos x < pos y) (hne : run ≠ []) {x : α}
    (hx : x ∈ run) : pos (run.head hne) ≤ pos x :=
  (hsorted.imp le_of_lt).rel_head_of_rel_head_head hx (le_refl _)

theorem pos_le_getLast (hsorted : run.Pairwise fun x y ↦ pos x < pos y) (hne : run ≠ []) {x : α}
    (hx : x ∈ run) : pos x ≤ pos (run.getLast hne) :=
  (hsorted.imp le_of_lt).rel_getLast_of_rel_getLast_getLast hx (le_refl _)

/-- In a strictly sorted list, a position has one element. -/
theorem eq_of_pos_eq (hsorted : l.Pairwise fun x y ↦ pos x < pos y) {x y : α} (hx : x ∈ l)
    (hy : y ∈ l) (h : pos x = pos y) : x = y := by
  have hnodup : (l.map pos).Nodup := List.pairwise_map.mpr (hsorted.imp ne_of_lt)
  exact List.inj_on_of_nodup_map hnodup hx hy h

/-- A part of a cut list, with what comes before it and after it. -/
theorem exists_append_of_mem_splitBy (h : run ∈ l.splitBy r) :
    ∃ before after, l = before ++ run ++ after ∧
      (∀ x ∈ before.getLast?, ∀ y ∈ run.head?, r x y = false) ∧
      ∀ x ∈ run.getLast?, ∀ y ∈ after.head?, r x y = false := by
  obtain ⟨parts, parts', hsplit⟩ := List.append_of_mem h
  have hflatten := List.flatten_splitBy r l
  have hchain := List.isChain_getLast_head_splitBy r l
  have hne : ∀ part ∈ l.splitBy r, part ≠ [] := fun _ ↦ List.ne_nil_of_mem_splitBy
  rw [hsplit] at hflatten hchain hne
  refine ⟨parts.flatten, parts'.flatten, ?_, fun x hx y hy ↦ ?_, fun x hx y hy ↦ ?_⟩
  · rw [← hflatten, List.flatten_append, List.flatten_cons, List.append_assoc]
  · rcases List.eq_nil_or_concat' parts with rfl | ⟨init, part, rfl⟩
    · exact nomatch hx
    · rw [List.append_assoc, List.singleton_append] at hchain
      obtain ⟨hpart, hrun, hfalse⟩ :=
        (List.isChain_cons_cons.mp (List.isChain_append.mp hchain).2.1).1
      rw [List.flatten_append, List.flatten_singleton, List.getLast?_append,
        List.getLast?_eq_some_getLast hpart] at hx
      rw [List.head?_eq_some_head hrun] at hy
      rw [← Option.some.inj hx, ← Option.some.inj hy]
      exact hfalse
  · cases parts' with
    | nil => exact nomatch hy
    | cons part rest =>
      obtain ⟨hrun, hpart, hfalse⟩ :=
        (List.isChain_cons_cons.mp (List.isChain_append.mp hchain).2.1).1
      rw [List.flatten_cons, List.head?_append, List.head?_eq_some_head hpart] at hy
      rw [List.getLast?_eq_some_getLast hrun] at hx
      rw [← Option.some.inj hx, ← Option.some.inj hy]
      exact hfalse

theorem maximalRun_of_mem_splitBy (hsorted : l.Pairwise fun x y ↦ pos x < pos y)
    (h : run ∈ l.splitBy r) : MaximalRun (fun x y ↦ r x y = true) pos (· ∈ l) run := by
  have hne : run ≠ [] := List.ne_nil_of_mem_splitBy h
  obtain ⟨before, after, hl, hbefore, hafter⟩ := exists_append_of_mem_splitBy h
  have hparts := hl ▸ hsorted
  obtain ⟨hfront, hsortedAfter, hrunAfter⟩ := List.pairwise_append.mp hparts
  obtain ⟨hsortedBefore, hsortedRun, hbeforeRun⟩ := List.pairwise_append.mp hfront
  have hmem {x : α} : x ∈ l ↔ (x ∈ before ∨ x ∈ run) ∨ x ∈ after := by
    rw [hl, List.mem_append, List.mem_append]
  have hhead := List.head_mem hne
  have hlast := List.getLast_mem hne
  refine ⟨hne, fun x hx ↦ hmem.mpr (Or.inl (Or.inr hx)), hsortedRun, fun x hx hge hle ↦ ?_,
    List.isChain_of_mem_splitBy h, fun x hnext ↦ ?_, fun x hnext ↦ ?_⟩
  · rcases hmem.mp hx with (hx | hx) | hx
    · exact absurd hge (hbeforeRun x hx _ hhead).not_ge
    · exact hx
    · exact absurd hle (hrunAfter _ (List.mem_append_right _ hlast) x hx).not_ge
  · -- what comes before the run ends with the element before it
    have hx : x ∈ before := by
      rcases hmem.mp hnext.left with (hx | hx) | hx
      · exact hx
      · exact absurd hnext.lt (pos_head_le hsortedRun hne hx).not_gt
      · exact absurd hnext.lt (hrunAfter _ (List.mem_append_right _ hhead) x hx).not_gt
    have hne' := List.ne_nil_of_mem hx
    have hz := List.getLast_mem hne'
    have hle : pos (before.getLast hne') ≤ pos x :=
      (hnext.between _ (hmem.mpr (Or.inl (Or.inl hz)))).resolve_right
        (hbeforeRun _ hz _ hhead).not_ge
    have heq : x = before.getLast hne' :=
      eq_of_pos_eq hsortedBefore hx hz (le_antisymm (pos_le_getLast hsortedBefore hne' hx) hle)
    rw [heq, hbefore _ (List.getLast?_eq_some_getLast hne') _ (List.head?_eq_some_head hne)]
    exact Bool.false_ne_true
  · have hx : x ∈ after := by
      rcases hmem.mp hnext.right with (hx | hx) | hx
      · exact absurd hnext.lt (hbeforeRun x hx _ hlast).not_gt
      · exact absurd hnext.lt (pos_le_getLast hsortedRun hne hx).not_gt
      · exact hx
    have hne' := List.ne_nil_of_mem hx
    have hz := List.head_mem hne'
    have hle : pos x ≤ pos (after.head hne') :=
      (hnext.between _ (hmem.mpr (Or.inr hz))).resolve_left
        (hrunAfter _ (List.mem_append_right _ hlast) _ hz).not_ge
    have heq : x = after.head hne' :=
      eq_of_pos_eq hsortedAfter hx hz (le_antisymm hle (pos_head_le hsortedAfter hne' hx))
    rw [heq, hafter _ (List.getLast?_eq_some_getLast hne) _ (List.head?_eq_some_head hne')]
    exact Bool.false_ne_true

/-- A list whose elements with a property come first, split after them. -/
theorem filter_append_filter_not {p : α → Bool} (h : l.Pairwise fun x y ↦ p y = true → p x = true) :
    l.filter p ++ l.filter (fun x ↦ !p x) = l := by
  induction l with
  | nil => rfl
  | cons x l ih =>
    obtain ⟨hx, hl⟩ := List.pairwise_cons.mp h
    cases hpx : p x with
    | true =>
      rw [List.filter_cons_of_pos hpx, List.filter_cons_of_neg (by simp [hpx]), List.cons_append,
        ih hl]
    | false =>
      have hnone : ∀ y ∈ l, p y = false := fun y hy ↦
        Bool.eq_false_iff.mpr fun hpy ↦ Bool.false_ne_true (hpx.symm.trans (hx y hy hpy))
      rw [List.filter_cons_of_neg (by simp [hpx]), List.filter_cons_of_pos (by simp [hpx]),
        List.filter_eq_nil_iff.mpr fun y hy ↦ by simp [hnone y hy],
        List.filter_eq_self.mpr fun y hy ↦ by simp [hnone y hy], List.nil_append]

theorem MaximalRun.exists_append (hsorted : l.Pairwise fun x y ↦ pos x < pos y)
    (h : MaximalRun R pos (· ∈ l) run) : ∃ before after, l = before ++ (run ++ after) := by
  let first (x : α) : Bool := pos x < pos (run.head h.ne_nil)
  let inner (x : α) : Bool := pos x ≤ pos (run.getLast h.ne_nil)
  have hdown {p : τ → Prop} [DecidablePred p] (hp : ∀ s t, s < t → p t → p s) {l' : List α}
      (hl' : l'.Pairwise fun x y ↦ pos x < pos y) :
      l'.Pairwise fun x y ↦ decide (p (pos y)) = true → decide (p (pos x)) = true :=
    hl'.imp fun hxy hy ↦ decide_eq_true (hp _ _ hxy (of_decide_eq_true hy))
  have hfirst := filter_append_filter_not (p := first) (hdown (fun _ _ ↦ lt_trans) hsorted)
  have hrest : (l.filter fun x ↦ !first x).Pairwise fun x y ↦ pos x < pos y := hsorted.filter _
  have hinner := filter_append_filter_not (p := inner)
    (hdown (fun _ _ hst ht ↦ hst.le.trans ht) hrest)
  have hrun : (l.filter fun x ↦ !first x).filter inner = run := by
    refine List.Perm.eq_of_pairwise ?_ (hrest.filter _) h.sorted ?_
    · exact fun x y _ _ hxy hyx ↦ absurd hxy hyx.not_gt
    have hnodup {l' : List α} (hl' : l'.Pairwise fun x y ↦ pos x < pos y) : l'.Nodup :=
      hl'.imp fun {x y} hxy heq ↦ absurd hxy (by rw [heq]; exact lt_irrefl _)
    rw [List.perm_ext_iff_of_nodup (hnodup (hrest.filter _)) (hnodup h.sorted)]
    intro x
    rw [List.mem_filter, List.mem_filter]
    constructor
    · rintro ⟨⟨hx, hge⟩, hle⟩
      refine h.whole x hx (not_lt.mp fun hlt ↦ ?_) (of_decide_eq_true hle)
      rw [show first x = true from decide_eq_true hlt] at hge
      exact Bool.false_ne_true hge
    · intro hx
      refine ⟨⟨h.sub x hx, ?_⟩, decide_eq_true (pos_le_getLast h.sorted h.ne_nil hx)⟩
      rw [Bool.not_eq_true']
      exact decide_eq_false (pos_head_le h.sorted h.ne_nil hx).not_gt
  refine ⟨l.filter first, (l.filter fun x ↦ !first x).filter fun x ↦ !inner x, ?_⟩
  rw [← hrun, hinner, hfirst]

/-- **The parts of a sorted list are its maximal runs.** -/
theorem mem_splitBy_iff (hsorted : l.Pairwise fun x y ↦ pos x < pos y) :
    run ∈ l.splitBy r ↔ MaximalRun (fun x y ↦ r x y = true) pos (· ∈ l) run := by
  refine ⟨maximalRun_of_mem_splitBy hsorted, fun h ↦ ?_⟩
  obtain ⟨before, after, rfl⟩ := h.exists_append hsorted
  have hne := h.ne_nil
  obtain ⟨hsortedBefore, hsortedRest, hcross⟩ := List.pairwise_append.mp hsorted
  obtain ⟨-, hsortedAfter, hcross'⟩ := List.pairwise_append.mp hsortedRest
  have hhead := List.head_mem hne
  have hlast := List.getLast_mem hne
  -- the elements next to the run are not related to it
  have hleft : ∀ x ∈ before.getLast?, r x (run.head hne) = false := by
    intro x hx
    have hxmem := List.mem_of_mem_getLast? hx
    have hne' := List.ne_nil_of_mem hxmem
    rw [List.getLast?_eq_some_getLast hne', Option.mem_some_iff] at hx
    refine Bool.eq_false_iff.mpr (h.left x ⟨List.mem_append_left _ hxmem, ?_, ?_, fun z hz ↦ ?_⟩)
    · exact List.mem_append_right _ (List.mem_append_left _ hhead)
    · exact hcross x hxmem _ (List.mem_append_left _ hhead)
    · rcases List.mem_append.mp hz with hz | hz
      · exact Or.inl (hx ▸ pos_le_getLast hsortedBefore hne' hz)
      · refine Or.inr ?_
        rcases List.mem_append.mp hz with hz | hz
        · exact pos_head_le h.sorted hne hz
        · exact (hcross' _ hhead z hz).le
  have hright : ∀ x ∈ after.head?, r (run.getLast hne) x = false := by
    intro x hx
    have hxmem := List.mem_of_mem_head? hx
    have hne' := List.ne_nil_of_mem hxmem
    rw [List.head?_eq_some_head hne', Option.mem_some_iff] at hx
    refine Bool.eq_false_iff.mpr (h.right x ⟨?_, ?_, hcross' _ hlast x hxmem, fun z hz ↦ ?_⟩)
    · exact List.mem_append_right _ (List.mem_append_left _ hlast)
    · exact List.mem_append_right _ (List.mem_append_right _ hxmem)
    · rcases List.mem_append.mp hz with hz | hz
      · exact Or.inl (hcross z hz _ (List.mem_append_left _ hlast)).le
      · rcases List.mem_append.mp hz with hz | hz
        · exact Or.inl (pos_le_getLast h.sorted hne hz)
        · exact Or.inr (hx ▸ pos_head_le hsortedAfter hne' hz)
  -- so the list is split on both sides of it
  rw [List.splitBy_append, List.splitBy_append, List.splitBy_of_isChain hne h.linked]
  · simp
  · intro x hx y hy
    rw [List.getLast?_eq_some_getLast hne, Option.mem_some_iff] at hx
    exact hx ▸ hright y hy
  · intro x hx y hy
    rw [List.head?_append, List.head?_eq_some_head hne, Option.some_or, Option.mem_some_iff] at hy
    exact hy ▸ hleft x hx

/-- The parts of a sorted list come one after the other. -/
theorem pairwise_splitBy (hsorted : l.Pairwise fun x y ↦ pos x < pos y) :
    (l.splitBy r).Pairwise fun run run' ↦ ∀ x ∈ run, ∀ y ∈ run', pos x < pos y := by
  rw [← List.flatten_splitBy r l] at hsorted
  exact (List.pairwise_flatten.mp hsorted).2

end

end GtfsStream.Runs
