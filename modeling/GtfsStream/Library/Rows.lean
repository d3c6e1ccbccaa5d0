import Mathlib.Data.List.Dedup
import Mathlib.Data.List.Sort
import Mathlib.Data.Rat.Floor

/-!
# Rows of a table

The operations of a table of rows that the rest of the development needs: grouping rows by a key,
and keeping the first row of each key. A group is read back through its key, so that what a
computation does for one key never depends on the other groups.

A column of numbers may hold integers and fractions. As a key of a dictionary a number is the
integer that it is equal to, if there is one.
-/

namespace GtfsStream.Rows

variable {α β κ : Type*} [DecidableEq κ]

/-! ## Numbers of a column -/

/-- Towards zero. -/
def truncate (q : ℚ) : ℤ := if 0 ≤ q then ⌊q⌋ else ⌈q⌉

theorem truncate_intCast (n : ℤ) : truncate n = n := by
  rw [truncate, Int.floor_intCast, Int.ceil_intCast, ite_self]

/-- The entry at a number, in a dictionary with integers for keys. -/
def getNumber {ν : Type*} (entries : ℤ → Option ν) (q : ℚ) : Option ν :=
  if q.den = 1 then entries q.num else none

theorem getNumber_intCast {ν : Type*} (entries : ℤ → Option ν) (n : ℤ) :
    getNumber entries n = entries n := if_pos rfl

theorem exists_int_of_getNumber {ν : Type*} {entries : ℤ → Option ν} {q : ℚ}
    (h : (getNumber entries q).isSome) : ∃ n : ℤ, q = n := by
  rw [getNumber] at h
  split_ifs at h with hden
  · exact ⟨q.num, (Rat.coe_int_num_of_den_eq_one hden).symm⟩
  · exact absurd h Bool.false_ne_true

/-! ## Grouping -/

/-- The rows of each key: keys in order, rows in their own order. A row without a key is left
out. -/
def groupBy (le : κ → κ → Prop) [DecidableRel le] (key : α → Option κ) (rows : List α) :
    List (κ × List α) :=
  ((rows.filterMap key).dedup.insertionSort le).map fun k ↦ (k, rows.filter (key · = some k))

variable {le : κ → κ → Prop} [DecidableRel le] {key : α → Option κ} {rows : List α}

theorem mem_keys {k : κ} :
    k ∈ (rows.filterMap key).dedup.insertionSort le ↔ ∃ r ∈ rows, key r = some k := by
  rw [(List.perm_insertionSort le _).mem_iff, List.mem_dedup, List.mem_filterMap]

theorem mem_groupBy {k : κ} {group : List α} :
    (k, group) ∈ groupBy le key rows ↔
      group = rows.filter (key · = some k) ∧ ∃ r ∈ rows, key r = some k := by
  rw [groupBy, List.mem_map]
  constructor
  · rintro ⟨k', hk', heq⟩
    obtain ⟨rfl, rfl⟩ := Prod.mk.inj heq
    exact ⟨rfl, mem_keys.mp hk'⟩
  · rintro ⟨rfl, hk⟩
    exact ⟨k, mem_keys.mpr hk, rfl⟩

theorem nodup_keys_groupBy : ((groupBy le key rows).map Prod.fst).Nodup := by
  rw [groupBy, List.map_map]
  change (List.map id _).Nodup
  rw [List.map_id]
  exact (List.perm_insertionSort le _).nodup_iff.mpr (List.nodup_dedup _)

variable (le) in
theorem pairwise_keys_groupBy [Std.Total le] [IsTrans κ le] :
    ((groupBy le key rows).map Prod.fst).Pairwise le := by
  rw [groupBy, List.map_map]
  change (List.map id _).Pairwise le
  rw [List.map_id]
  exact List.pairwise_insertionSort le _

theorem filter_eq_nil_of_key {k : κ} (h : ¬∃ r ∈ rows, key r = some k) :
    rows.filter (key · = some k) = [] :=
  List.filter_eq_nil_iff.mpr fun r hr hk ↦ h ⟨r, hr, of_decide_eq_true hk⟩

theorem filter_flatMap_groupBy {f : κ → List α → List β} {keyOf : β → κ}
    (hkey : ∀ k group, ∀ b ∈ f k group, keyOf b = k) (hnil : ∀ k, f k [] = []) (k : κ) :
    ((groupBy le key rows).flatMap fun g ↦ f g.1 g.2).filter (keyOf · = k) =
      f k (rows.filter (key · = some k)) := by
  have hself (k' : κ) (group : List α) :
      (f k' group).filter (keyOf · = k) = if k' = k then f k' group else [] := by
    split_ifs with hk
    · exact List.filter_eq_self.mpr fun b hb ↦ decide_eq_true ((hkey k' group b hb).trans hk)
    · exact List.filter_eq_nil_iff.mpr fun b hb hbk ↦
        hk ((hkey k' group b hb).symm.trans (of_decide_eq_true hbk))
  have hother {keys : List κ} (hk : k ∉ keys) :
      (keys.flatMap fun k' ↦ (f k' (rows.filter (key · = some k'))).filter (keyOf · = k)) = [] := by
    refine List.flatMap_eq_nil_iff.mpr fun k' hk' ↦ ?_
    rw [hself, if_neg]
    rintro rfl
    exact hk hk'
  rw [groupBy, List.flatMap_map, List.filter_flatMap]
  by_cases hk : ∃ r ∈ rows, key r = some k
  · -- the key occurs once among the keys, and the groups of the others give nothing
    have hmem : k ∈ (rows.filterMap key).dedup.insertionSort le := mem_keys.mpr hk
    obtain ⟨before, after, hsplit⟩ := List.append_of_mem hmem
    have hnodup : (before ++ k :: after).Nodup := by
      rw [← hsplit]
      exact (List.perm_insertionSort le _).nodup_iff.mpr (List.nodup_dedup _)
    rw [List.nodup_middle, List.nodup_cons, List.mem_append, not_or] at hnodup
    rw [hsplit, List.flatMap_append, List.flatMap_cons, hother hnodup.1.1, hother hnodup.1.2,
      hself, if_pos rfl, List.nil_append, List.append_nil]
  · rw [hother fun hmem ↦ hk (mem_keys.mp hmem), filter_eq_nil_of_key hk, hnil]

variable (le) in
/-- What is computed group by group comes in the order of the keys. -/
theorem pairwise_flatMap_groupBy [Std.Total le] [IsTrans κ le] {f : κ → List α → List β}
    {keyOf : β → κ} (hkey : ∀ k group, ∀ b ∈ f k group, keyOf b = k) :
    ((groupBy le key rows).flatMap fun g ↦ f g.1 g.2).Pairwise fun b c ↦
      le (keyOf b) (keyOf c) := by
  refine List.pairwise_flatMap.mpr ⟨fun g _ ↦ ?_, ?_⟩
  · refine List.pairwise_of_forall_mem_list fun b hb c hc ↦ ?_
    rw [hkey _ _ b hb, hkey _ _ c hc]
    exact (Std.Total.total g.1 g.1).elim id id
  · refine (List.pairwise_map.mp (pairwise_keys_groupBy le)).imp fun {g h} hle b hb c hc ↦ ?_
    rw [hkey _ _ b hb, hkey _ _ c hc]
    exact hle

theorem mem_congr_of_filter_key_eq {keyOf : β → κ} {l l' : List β}
    (h : ∀ k, l.filter (keyOf · = k) = l'.filter (keyOf · = k)) {b : β} : b ∈ l ↔ b ∈ l' := by
  have hb : b ∈ l.filter (keyOf · = keyOf b) ↔ b ∈ l'.filter (keyOf · = keyOf b) := by rw [h]
  simpa only [List.mem_filter, decide_true, and_true] using hb

variable (le) in
omit [DecidableRel le] in
/-- Lists in the order of a key are equal if they agree key by key. -/
theorem eq_of_filter_key_eq (hantisymm : ∀ j k, le j k → le k j → j = k) {keyOf : β → κ}
    {l l' : List β} (hl : l.Pairwise fun b c ↦ le (keyOf b) (keyOf c))
    (hl' : l'.Pairwise fun b c ↦ le (keyOf b) (keyOf c))
    (h : ∀ k, l.filter (keyOf · = k) = l'.filter (keyOf · = k)) : l = l' := by
  induction l generalizing l' with
  | nil => exact (List.eq_nil_iff_forall_not_mem.mpr fun b hb ↦
      List.not_mem_nil ((mem_congr_of_filter_key_eq h).mpr hb)).symm
  | cons b l ih =>
    obtain ⟨hb, hrest⟩ := List.pairwise_cons.mp hl
    have hmem : b ∈ l' := (mem_congr_of_filter_key_eq h).mp List.mem_cons_self
    cases l' with
    | nil => exact absurd hmem List.not_mem_nil
    | cons c l' =>
      obtain ⟨hc, hrest'⟩ := List.pairwise_cons.mp hl'
      -- each head comes first in the other list too, so the two have one key
      have hkey : keyOf b = keyOf c := by
        rcases List.mem_cons.mp hmem with rfl | hbl
        · rfl
        have hmem' : c ∈ b :: l := (mem_congr_of_filter_key_eq h).mpr List.mem_cons_self
        rcases List.mem_cons.mp hmem' with rfl | hcl
        · rfl
        exact hantisymm _ _ (hb c hcl) (hc b hbl)
      have hheads := h (keyOf b)
      rw [List.filter_cons_of_pos (by simp), List.filter_cons_of_pos (by simp [hkey])] at hheads
      obtain ⟨rfl, -⟩ := List.cons.inj hheads
      refine congrArg _ (ih hrest hrest' fun k ↦ ?_)
      have hk := h k
      rw [List.filter_cons, List.filter_cons] at hk
      split_ifs at hk
      · exact (List.cons.inj hk).2
      · exact hk

/-! ## The first row of each key -/

/-- The rows that are the first of their key. -/
def dropDuplicates (key : α → κ) : List α → List α
  | [] => []
  | a :: rows => a :: (dropDuplicates key rows).filter fun b ↦ key b ≠ key a

theorem mem_dropDuplicates {key : α → κ} {rows : List α} {a : α} :
    a ∈ dropDuplicates key rows ↔ rows.find? (fun b ↦ key b = key a) = some a := by
  induction rows with
  | nil => exact ⟨nofun, nofun⟩
  | cons b rows ih =>
    rw [dropDuplicates, List.mem_cons, List.mem_filter, ih, List.find?_cons]
    by_cases hb : key b = key a
    · rw [decide_eq_true hb]
      constructor
      · rintro (rfl | ⟨-, hne⟩)
        · rfl
        · exact absurd hb.symm (of_decide_eq_true hne)
      · intro h
        exact Or.inl (Option.some.inj h).symm
    · rw [decide_eq_false hb]
      constructor
      · rintro (rfl | ⟨h, -⟩)
        · exact absurd rfl hb
        · exact h
      · intro h
        exact Or.inr ⟨h, decide_eq_true (Ne.symm hb)⟩

theorem nodup_map_dropDuplicates {key : α → κ} : ((dropDuplicates key rows).map key).Nodup := by
  induction rows with
  | nil => exact List.nodup_nil
  | cons a rows ih =>
    rw [dropDuplicates, List.map_cons, List.nodup_cons]
    constructor
    · intro hmem
      obtain ⟨b, hb, hkey⟩ := List.mem_map.mp hmem
      exact of_decide_eq_true (List.mem_filter.mp hb).2 hkey
    · exact ih.sublist (List.filter_sublist.map key)

/-- Among rows sorted by time, the first of a key is the earliest, if its rows of one time do not
differ. -/
theorem mem_dropDuplicates_of_sorted {τ : Type*} [LinearOrder τ] {key : α → κ} {time : α → τ}
    {b : α} (hsorted : rows.Pairwise fun a b ↦ time a ≤ time b)
    (hone : ∀ a ∈ rows, ∀ c ∈ rows, key a = key b → key c = key b → time a = time c → a = c) :
    b ∈ dropDuplicates key rows ↔ b ∈ rows ∧ ∀ a ∈ rows, key a = key b → time b ≤ time a := by
  induction rows with
  | nil => exact iff_of_false List.not_mem_nil fun h ↦ absurd h.1 List.not_mem_nil
  | cons a rows ih =>
    obtain ⟨hfirst, hrest⟩ := List.pairwise_cons.mp hsorted
    have ih := ih hrest fun c hc d hd ↦
      hone c (List.mem_cons_of_mem a hc) d (List.mem_cons_of_mem a hd)
    rw [dropDuplicates, List.mem_cons, List.mem_filter, ih, decide_eq_true_iff]
    constructor
    · rintro (rfl | ⟨⟨hb, hleast⟩, hne⟩)
      · refine ⟨List.mem_cons_self, fun c hc _ ↦ ?_⟩
        rcases List.mem_cons.mp hc with rfl | hc
        · exact le_refl _
        · exact hfirst c hc
      · refine ⟨List.mem_cons_of_mem a hb, fun c hc hkey ↦ ?_⟩
        rcases List.mem_cons.mp hc with rfl | hc
        · exact absurd hkey.symm hne
        · exact hleast c hc hkey
    · rintro ⟨hb, hleast⟩
      rcases List.mem_cons.mp hb with rfl | hrow
      · exact Or.inl rfl
      · by_cases hkey : key b = key a
        · have htime := le_antisymm (hfirst b hrow) (hleast a List.mem_cons_self hkey.symm)
          exact Or.inl (hone b hb a List.mem_cons_self rfl hkey.symm htime.symm)
        · exact Or.inr ⟨⟨hrow, fun c hc ↦ hleast c (List.mem_cons_of_mem a hc)⟩, hkey⟩

end GtfsStream.Rows
