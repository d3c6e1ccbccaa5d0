import Mathlib.Data.List.Induction
import Mathlib.Data.List.Nodup

/-!
# Grouping by a key

An association list in which each key stands once, and where a missing key is found with a default
value. Feeding items into it one by one, each to the entry of its key, groups them: the entry of a
key is what its own items make of the default value.

## Order

The groups stand in the order in which their keys first came, and the items of a group in the order
of the list. So grouping loses the order between different keys only, and all items together are a
permutation of the list.
-/

namespace GtfsStream.Grouping

variable {κ ν ι : Type*} [DecidableEq κ]

/-- The entry of a key, changed in place, or a new one at the end. -/
def modify (default : ν) (k : κ) (f : ν → ν) : List (κ × ν) → List (κ × ν)
  | [] => [(k, f default)]
  | (k', v) :: rest =>
    if k' = k then (k', f v) :: rest else (k', v) :: modify default k f rest

variable {default v w : ν} {k k' : κ} {f : ν → ν} {entries : List (κ × ν)}

theorem mem_keys_modify : k' ∈ (modify default k f entries).map Prod.fst ↔
    k' = k ∨ k' ∈ entries.map Prod.fst := by
  induction entries with
  | nil => rw [modify, List.map_singleton, List.mem_singleton, List.map_nil, or_iff_left
      List.not_mem_nil]
  | cons entry rest ih =>
    obtain ⟨l, u⟩ := entry
    rw [modify]
    split_ifs with hl
    · rw [List.map_cons, List.map_cons, List.mem_cons, ← hl, or_self_left]
    · rw [List.map_cons, List.map_cons, List.mem_cons, List.mem_cons, ih, or_left_comm]

theorem nodup_modify (h : (entries.map Prod.fst).Nodup) :
    ((modify default k f entries).map Prod.fst).Nodup := by
  induction entries with
  | nil => exact List.nodup_singleton k
  | cons entry rest ih =>
    obtain ⟨l, u⟩ := entry
    rw [List.map_cons, List.nodup_cons] at h
    rw [modify]
    split_ifs with hl
    · rw [List.map_cons, List.nodup_cons]
      exact h
    · rw [List.map_cons, List.nodup_cons, mem_keys_modify, not_or]
      exact ⟨⟨hl, h.1⟩, ih h.2⟩

/-- The entries of the other keys stay, and that of the key is changed, from the default value if
there was none. -/
theorem mem_modify (h : (entries.map Prod.fst).Nodup) :
    (k', w) ∈ modify default k f entries ↔
      k' ≠ k ∧ (k', w) ∈ entries ∨
      k' = k ∧ ((∃ v, (k, v) ∈ entries ∧ w = f v) ∨
        k ∉ entries.map Prod.fst ∧ w = f default) := by
  induction entries with
  | nil =>
    rw [modify, List.mem_singleton, Prod.mk.injEq]
    simp
  | cons entry rest ih =>
    obtain ⟨l, u⟩ := entry
    rw [List.map_cons, List.nodup_cons] at h
    rw [modify]
    split_ifs with hl
    · subst hl
      have habsent (v : ν) : (l, v) ∉ rest := fun hmem ↦
        h.1 (List.mem_map.mpr ⟨(l, v), hmem, rfl⟩)
      by_cases hk : k' = l
      · subst hk
        simp [habsent]
      · simp [hk]
    · rw [List.mem_cons, ih h.2, List.mem_cons, List.map_cons, List.mem_cons, Prod.mk.injEq]
      by_cases hk : k' = k
      · subst hk
        have hne : ¬k' = l := fun heq ↦ hl heq.symm
        simp [hne]
      · simp [hk]

/-! ## Looking up a key -/

theorem lookup_cons_eq_ite {entry : κ × ν} : (entry :: entries).lookup k =
    if k = entry.1 then some entry.2 else entries.lookup k := by
  rw [List.lookup_cons]
  by_cases hk : k = entry.1
  · rw [if_pos hk, hk, beq_self_eq_true]
  · rw [if_neg hk, beq_false_of_ne hk]

theorem lookup_modify : (modify default k f entries).lookup k' =
    if k' = k then some (f ((entries.lookup k).getD default)) else entries.lookup k' := by
  induction entries with
  | nil => exact lookup_cons_eq_ite
  | cons entry rest ih =>
    obtain ⟨l, u⟩ := entry
    rw [modify]
    by_cases hl : l = k
    · subst hl
      rw [if_pos rfl, lookup_cons_eq_ite, lookup_cons_eq_ite, lookup_cons_eq_ite, if_pos rfl,
        Option.getD_some]
      split_ifs <;> rfl
    · rw [if_neg hl, lookup_cons_eq_ite, ih, lookup_cons_eq_ite, lookup_cons_eq_ite,
        if_neg (Ne.symm hl)]
      split_ifs with hk' hk
      · exact absurd (hk'.symm.trans hk) hl
      · rfl
      · rfl
      · rfl

theorem lookup_eq_none_iff_keys : entries.lookup k = none ↔ k ∉ entries.map Prod.fst := by
  induction entries with
  | nil => exact iff_of_true rfl List.not_mem_nil
  | cons entry rest ih =>
    rw [lookup_cons_eq_ite, List.map_cons, List.mem_cons, not_or, ← ih]
    by_cases hk : k = entry.1
    · rw [if_pos hk]
      exact iff_of_false (Option.some_ne_none _) fun h ↦ h.1 hk
    · rw [if_neg hk, and_iff_right hk]

theorem isSome_lookup : (entries.lookup k).isSome ↔ k ∈ entries.map Prod.fst := by
  rw [Option.isSome_iff_ne_none, ne_eq, lookup_eq_none_iff_keys, not_not]

theorem lookup_of_mem (h : (entries.map Prod.fst).Nodup) (hmem : (k, v) ∈ entries) :
    entries.lookup k = some v := by
  induction entries with
  | nil => exact absurd hmem List.not_mem_nil
  | cons entry rest ih =>
    rw [List.map_cons, List.nodup_cons] at h
    rw [lookup_cons_eq_ite]
    rcases List.mem_cons.mp hmem with rfl | hmem
    · exact if_pos rfl
    · have hne : k ≠ entry.1 := fun heq ↦ h.1 (heq ▸ List.mem_map_of_mem (f := Prod.fst) hmem)
      rw [if_neg hne, ih h.2 hmem]

theorem lookup_filter_ne : (entries.filter fun entry ↦ entry.1 ≠ k).lookup k' =
    if k' = k then none else entries.lookup k' := by
  induction entries with
  | nil => exact (ite_self none).symm
  | cons entry rest ih =>
    rw [List.filter_cons]
    by_cases hk : entry.1 = k
    · rw [if_neg (by simpa using hk), ih, lookup_cons_eq_ite]
      split_ifs with h₁ h₂
      · rfl
      · exact absurd (h₂.trans hk) h₁
      · rfl
    · rw [if_pos (by simpa using hk), lookup_cons_eq_ite, ih, lookup_cons_eq_ite]
      split_ifs with h₁ h₂
      · exact absurd (h₁.symm.trans h₂) hk
      · rfl
      · rfl
      · rfl

theorem modify_of_lookup_eq_none (h : entries.lookup k = none) :
    modify default k f entries = entries ++ [(k, f default)] := by
  induction entries with
  | nil => rfl
  | cons entry rest ih =>
    obtain ⟨l, u⟩ := entry
    rw [lookup_cons_eq_ite] at h
    split_ifs at h with hk
    rw [modify, if_neg (Ne.symm hk), ih h, List.cons_append]

/-- A change that a function does not see leaves its values alone. -/
theorem flatMap_modify {β : Type*} {g : ν → List β} (h : entries.lookup k = some v)
    (hg : g (f v) = g v) : (modify default k f entries).flatMap (fun entry ↦ g entry.2) =
      entries.flatMap fun entry ↦ g entry.2 := by
  induction entries with
  | nil => cases h
  | cons entry rest ih =>
    obtain ⟨l, u⟩ := entry
    rw [lookup_cons_eq_ite] at h
    rw [modify]
    split_ifs at h ⊢ with hk hl hl
    · obtain rfl := Option.some_inj.mp h
      rw [List.flatMap_cons, List.flatMap_cons, hg]
    · exact absurd hk.symm hl
    · exact absurd hl.symm hk
    · rw [List.flatMap_cons, List.flatMap_cons, ih h]

theorem perm_cons_filter_ne (hnodup : (entries.map Prod.fst).Nodup)
    (h : entries.lookup k = some v) :
    entries.Perm ((k, v) :: entries.filter fun entry ↦ entry.1 ≠ k) := by
  induction entries with
  | nil => cases h
  | cons entry rest ih =>
    rw [List.map_cons, List.nodup_cons] at hnodup
    rw [lookup_cons_eq_ite] at h
    split_ifs at h with hk
    · obtain rfl := Option.some_inj.mp h
      subst hk
      have hrest : rest.filter (fun other ↦ other.1 ≠ entry.1) = rest := by
        refine List.filter_eq_self.mpr fun other hother ↦ decide_eq_true fun heq ↦ hnodup.1 ?_
        exact heq ▸ List.mem_map_of_mem hother
      rw [List.filter_cons_of_neg (by simp), hrest]
    · rw [List.filter_cons_of_pos (by simpa using Ne.symm hk)]
      exact ((ih hnodup.2 h).cons entry).trans (List.Perm.swap _ _ _)

/-! ## Groups -/

variable (default) (key : ι → κ) (add : ν → ι → ν)

/-- The entries after the items. -/
def group (items : List ι) : List (κ × ν) :=
  items.foldl (fun entries i ↦ modify default (key i) (add · i) entries) []

variable {default key add} {items : List ι} {i : ι}

theorem group_concat : group default key add (items ++ [i]) =
    modify default (key i) (add · i) (group default key add items) := by
  rw [group, List.foldl_append]
  rfl

theorem nodup_group : ((group default key add items).map Prod.fst).Nodup := by
  induction items using List.reverseRecOn with
  | nil => exact List.nodup_nil
  | append_singleton items i ih =>
    rw [group_concat]
    exact nodup_modify ih

theorem mem_keys_group : k ∈ (group default key add items).map Prod.fst ↔
    ∃ i ∈ items, key i = k := by
  induction items using List.reverseRecOn with
  | nil => exact iff_of_false List.not_mem_nil fun ⟨_, hmem, _⟩ ↦ List.not_mem_nil hmem
  | append_singleton items i ih =>
    rw [group_concat, mem_keys_modify, ih]
    simp only [List.mem_append, List.mem_singleton, or_and_right, exists_or, exists_eq_left]
    rw [or_comm, eq_comm]

/-- **The entry of a key is what its items make of the default value.** -/
theorem mem_group : (k, v) ∈ group default key add items ↔
    (∃ i ∈ items, key i = k) ∧ v = (items.filter (key · = k)).foldl add default := by
  induction items using List.reverseRecOn generalizing k v with
  | nil => exact iff_of_false List.not_mem_nil fun h ↦ List.not_mem_nil h.1.choose_spec.1
  | append_singleton items i ih =>
    rw [group_concat, mem_modify nodup_group, List.filter_append]
    by_cases hk : k = key i
    · subst hk
      have hmem : ∃ j ∈ items ++ [i], key j = key i :=
        ⟨i, List.mem_append_right _ (List.mem_singleton_self i), rfl⟩
      rw [List.filter_cons_of_pos (by simp), List.filter_nil, List.foldl_append, List.foldl_cons,
        List.foldl_nil, or_iff_right (fun h : key i ≠ key i ∧ _ ↦ h.1 rfl), and_iff_right rfl,
        and_iff_right hmem, mem_keys_group]
      -- the key has an entry already, or the item opens one
      by_cases hseen : ∃ j ∈ items, key j = key i
      · rw [or_iff_left (fun h : (¬_) ∧ _ ↦ h.1 hseen)]
        constructor
        · rintro ⟨u, hu, rfl⟩
          rw [(ih.mp hu).2]
        · rintro rfl
          exact ⟨_, ih.mpr ⟨hseen, rfl⟩, rfl⟩
      · have hnone : items.filter (key · = key i) = [] := List.filter_eq_nil_iff.mpr fun j hj hkey ↦
          hseen ⟨j, hj, of_decide_eq_true hkey⟩
        rw [hnone, List.foldl_nil, and_iff_right hseen, or_iff_right]
        rintro ⟨u, hu, -⟩
        exact hseen (ih.mp hu).1
    · have hother : [i].filter (key · = k) = [] :=
        List.filter_eq_nil_iff.mpr fun j hj hkey ↦ by
          rw [List.mem_singleton.mp hj] at hkey
          exact hk (of_decide_eq_true hkey).symm
      rw [hother, List.append_nil, ih, and_iff_right hk, or_iff_left fun h ↦ hk h.1]
      refine and_congr_left fun _ ↦ ?_
      simp only [List.mem_append, List.mem_singleton, or_and_right, exists_or, exists_eq_left]
      rw [or_iff_left (Ne.symm hk)]

theorem perm_flatMap_filter {keys : List κ} (h : keys.Nodup) (items : List ι) :
    (items.filter (key · ∈ keys)).Perm (keys.flatMap fun k ↦ items.filter (key · = k)) := by
  induction keys with
  | nil => simp
  | cons k keys ih =>
    rw [List.nodup_cons] at h
    have hown : (items.filter (key · ∈ k :: keys)).filter (key · = k) =
        items.filter (key · = k) := by
      rw [List.filter_filter]
      refine List.filter_congr fun i _ ↦ ?_
      by_cases hk : key i = k <;> simp [hk]
    have hrest : (items.filter (key · ∈ k :: keys)).filter (fun i ↦ !decide (key i = k)) =
        items.filter (key · ∈ keys) := by
      rw [List.filter_filter]
      refine List.filter_congr fun i _ ↦ ?_
      by_cases hk : key i = k
      · simp [hk, h.1]
      · simp [hk]
    rw [List.flatMap_cons, ← hown]
    refine (List.filter_append_perm (key · = k) _).symm.trans ?_
    rw [hrest]
    exact (ih h.2).append_left _

/-- **Every item belongs to exactly one group.** -/
theorem perm_group (default : ν) (add : ν → ι → ν) (items : List ι) :
    items.Perm (((group default key add items).map Prod.fst).flatMap fun k ↦
      items.filter (key · = k)) := by
  refine List.Perm.trans (List.Perm.of_eq ?_) (perm_flatMap_filter nodup_group items)
  refine (List.filter_eq_self.mpr fun i hi ↦ decide_eq_true ?_).symm
  exact mem_keys_group.mpr ⟨i, hi, rfl⟩

end GtfsStream.Grouping
