import Mathlib.Data.Finmap

/-!
# Filling a dictionary row by row

A loop over rows, each of which may raise, that changes a state. It raises what the first bad row
raises (`Reaches`), and otherwise every row has its effect, in order. Where the effect of a row is
to store a value under a key, the last row of a key wins.

## Rules for a loop

A loop is never unfolded by its users. If no row is bad, its state is the one that all rows make
together, and an invariant of one row is an invariant of the loop. If a row is bad, the loop raises
what the first bad row raises. For a loop that stores values there is a rule that reads the result
at one key.
-/

namespace GtfsStream.Dictionary

universe u

variable {ρ ε : Type*} {σ α β : Type u}

/-! ## Sequences that may raise -/

theorem bind_eq_ok {x : Except ε α} {f : α → Except ε β} {b : β} :
    x >>= f = .ok b ↔ ∃ a, x = .ok a ∧ f a = .ok b := by
  cases x with
  | error e => exact iff_of_false nofun fun ⟨_, h, _⟩ ↦ nomatch h
  | ok a => exact ⟨fun h ↦ ⟨a, rfl, h⟩, fun ⟨_, ha, h⟩ ↦ Except.ok.inj ha ▸ h⟩

/-- The computation does not raise. -/
def Succeeds (x : Except ε α) : Prop := ∃ a, x = .ok a

/-- The computation raises an error of this kind. -/
def Raises (P : ε → Prop) (x : Except ε α) : Prop := ∃ e, x = .error e ∧ P e

instance (x : Except ε α) : Decidable (Succeeds x) :=
  match x with
  | .ok a => isTrue ⟨a, rfl⟩
  | .error _ => isFalse fun ⟨_, h⟩ ↦ nomatch h

section

variable {x : Except ε α} {f : α → Except ε β} {P : ε → Prop} {a : α} {e : ε}

@[simp] theorem succeeds_ok : Succeeds (.ok a : Except ε α) := ⟨a, rfl⟩

@[simp] theorem not_succeeds_error : ¬Succeeds (.error e : Except ε α) := fun ⟨_, h⟩ ↦ nomatch h

@[simp] theorem not_raises_ok : ¬Raises P (.ok a : Except ε α) := fun ⟨_, h, _⟩ ↦ nomatch h

@[simp] theorem raises_error : Raises P (.error e : Except ε α) ↔ P e :=
  ⟨fun ⟨_, he, h⟩ ↦ Except.error.inj he ▸ h, fun h ↦ ⟨e, rfl, h⟩⟩

theorem succeeds_bind : Succeeds (x >>= f) ↔ ∃ a, x = .ok a ∧ Succeeds (f a) := by
  cases x with
  | error e => exact iff_of_false not_succeeds_error fun ⟨_, h, _⟩ ↦ nomatch h
  | ok a => exact ⟨fun h ↦ ⟨a, rfl, h⟩, fun ⟨_, ha, h⟩ ↦ Except.ok.inj ha ▸ h⟩

/-- A sequence raises in its first part, or in its second part after the first. -/
theorem raises_bind : Raises P (x >>= f) ↔ Raises P x ∨ ∃ a, x = .ok a ∧ Raises P (f a) := by
  cases x with
  | error e =>
    rw [or_iff_left fun ⟨_, h, _⟩ ↦ nomatch h]
    exact raises_error.trans raises_error.symm
  | ok a =>
    rw [or_iff_right not_raises_ok]
    exact ⟨fun h ↦ ⟨a, rfl, h⟩, fun ⟨_, ha, h⟩ ↦ Except.ok.inj ha ▸ h⟩

@[simp] theorem succeeds_map {g : α → β} : Succeeds (x.map g) ↔ Succeeds x := by
  cases x with
  | error e => exact iff_of_false not_succeeds_error not_succeeds_error
  | ok a => exact iff_of_true succeeds_ok succeeds_ok

@[simp] theorem raises_map {g : α → β} : Raises P (x.map g) ↔ Raises P x := by
  cases x with
  | error e => exact raises_error.trans raises_error.symm
  | ok a => exact iff_of_false not_raises_ok not_raises_ok

end

/-! ## The first bad row -/

/-- A row fails, after rows all of which pass. -/
def Reaches (passes fails : ρ → Prop) (rows : List ρ) : Prop :=
  ∃ before row after, rows = before ++ row :: after ∧ (∀ r ∈ before, passes r) ∧ fails row

theorem not_reaches_nil {passes fails : ρ → Prop} : ¬Reaches passes fails [] := by
  rintro ⟨before, row, after, h, -⟩
  exact List.append_ne_nil_of_right_ne_nil before (List.cons_ne_nil row after) h.symm

theorem reaches_cons {passes fails : ρ → Prop} {row : ρ} {rows : List ρ} :
    Reaches passes fails (row :: rows) ↔ fails row ∨ passes row ∧ Reaches passes fails rows := by
  constructor
  · rintro ⟨_ | ⟨first, before⟩, bad, after, h, hbefore, hbad⟩
    · obtain ⟨rfl, -⟩ := List.cons.inj h
      exact Or.inl hbad
    · obtain ⟨rfl, rfl⟩ := List.cons.inj h
      exact Or.inr ⟨hbefore row List.mem_cons_self, before, bad, after, rfl,
        fun r hr ↦ hbefore r (List.mem_cons_of_mem row hr), hbad⟩
  · rintro (hrow | ⟨hrow, before, bad, after, rfl, hbefore, hbad⟩)
    · exact ⟨[], row, rows, rfl, fun r hr ↦ absurd hr List.not_mem_nil, hrow⟩
    · exact ⟨row :: before, bad, after, rfl, List.forall_mem_cons.mpr ⟨hrow, hbefore⟩, hbad⟩

/-- Where a row that does not pass fails, some row fails. -/
theorem reaches_not {passes : ρ → Prop} {rows : List ρ} :
    Reaches passes (fun r ↦ ¬passes r) rows ↔ ∃ r ∈ rows, ¬passes r := by
  induction rows with
  | nil => exact iff_of_false not_reaches_nil fun ⟨_, hr, _⟩ ↦ List.not_mem_nil hr
  | cons row rows ih =>
    rw [reaches_cons, ih, List.exists_mem_cons_iff]
    by_cases h : passes row
    · rw [and_iff_right h]
    · exact iff_of_true (Or.inl h) (Or.inl h)

/-! ## One result for each row -/

theorem succeeds_mapM {f : ρ → Except ε α} {rows : List ρ} :
    Succeeds (rows.mapM f) ↔ ∀ r ∈ rows, Succeeds (f r) := by
  induction rows with
  | nil => exact iff_of_true ⟨[], rfl⟩ fun r hr ↦ absurd hr List.not_mem_nil
  | cons row rows ih =>
    rw [List.mapM_cons, succeeds_bind, List.forall_mem_cons, ← ih]
    simp only [succeeds_bind]
    exact ⟨fun ⟨a, ha, as, has, _⟩ ↦ ⟨⟨a, ha⟩, as, has⟩,
      fun ⟨⟨a, ha⟩, as, has⟩ ↦ ⟨a, ha, as, has, succeeds_ok⟩⟩

theorem raises_mapM {f : ρ → Except ε α} {rows : List ρ} {P : ε → Prop}
    (h : Raises P (rows.mapM f)) : ∃ r ∈ rows, Raises P (f r) := by
  induction rows with
  | nil => exact absurd h not_raises_ok
  | cons row rows ih =>
    rw [List.mapM_cons, raises_bind] at h
    rcases h with h | ⟨a, -, h⟩
    · exact ⟨row, List.mem_cons_self, h⟩
    · rcases raises_bind.mp h with h | ⟨as, -, h⟩
      · obtain ⟨r, hr, h⟩ := ih h
        exact ⟨r, List.mem_cons_of_mem row hr, h⟩
      · exact absurd h not_raises_ok

/-- Where a function gives the results, so does the loop. -/
theorem mapM_eq_ok {f : ρ → Except ε α} {g : ρ → α} {rows : List ρ}
    (h : ∀ r ∈ rows, f r = .ok (g r)) : rows.mapM f = .ok (rows.map g) := by
  induction rows with
  | nil => rfl
  | cons row rows ih =>
    obtain ⟨hrow, hrows⟩ := List.forall_mem_cons.mp h
    rw [List.mapM_cons, hrow, ih hrows]
    rfl

/-! ## Rows that change a state -/

/-- Row after row, each of which may raise, change a state. -/
def applyAll (update : ρ → Except ε (σ → σ)) (rows : List ρ) (s : σ) : Except ε σ :=
  rows.foldlM (fun s row ↦ (update row).map (· s)) s

variable {update : ρ → Except ε (σ → σ)} {rows : List ρ} {s s' : σ}

theorem applyAll_cons {row : ρ} :
    applyAll update (row :: rows) s = update row >>= fun u ↦ applyAll update rows (u s) := by
  rw [applyAll, List.foldlM_cons]
  cases update row <;> rfl

theorem succeeds_applyAll :
    Succeeds (applyAll update rows s) ↔ ∀ r ∈ rows, Succeeds (update r) := by
  induction rows generalizing s with
  | nil => exact iff_of_true ⟨s, rfl⟩ fun r hr ↦ absurd hr List.not_mem_nil
  | cons row rows ih =>
    rw [applyAll_cons, succeeds_bind, List.forall_mem_cons]
    simp only [ih, exists_and_right]
    rfl

/-- **The loop raises what the first bad row raises.** -/
theorem raises_applyAll {P : ε → Prop} : Raises P (applyAll update rows s) ↔
    Reaches (fun r ↦ Succeeds (update r)) (fun r ↦ Raises P (update r)) rows := by
  induction rows generalizing s with
  | nil => exact iff_of_false not_raises_ok not_reaches_nil
  | cons row rows ih =>
    rw [applyAll_cons, raises_bind, reaches_cons]
    simp only [ih, exists_and_right]
    rfl

/-- **Rule for a loop over rows.** What one row preserves, the loop preserves. -/
theorem applyAll_induction {P : List ρ → σ → Prop} (hnil : P [] s)
    (hstep : ∀ before row u s, P before s → update row = .ok u → P (before ++ [row]) (u s))
    (h : applyAll update rows s = .ok s') : P rows s' := by
  have hrun (before : List ρ) (hbefore : P before s) : P (before ++ rows) s' := by
    clear hnil
    induction rows generalizing before s with
    | nil =>
      rw [List.append_nil, ← show s = s' from Except.ok.inj h]
      exact hbefore
    | cons row rows ih =>
      rw [applyAll_cons, bind_eq_ok] at h
      obtain ⟨u, hu, h⟩ := h
      have hnext := ih h (before ++ [row]) (hstep before row u s hbefore hu)
      rwa [List.append_assoc] at hnext
  exact hrun [] hnil

/-! ## Rows that store a value -/

section

variable {κ ν : Type u} [DecidableEq κ]

/-- The dictionary that the rows fill: each stores a value under a key. -/
def fill (entry : ρ → Except ε (κ × ν)) (rows : List ρ) : Except ε (Finmap fun _ : κ ↦ ν) :=
  applyAll (fun row ↦ (entry row).map fun kv d ↦ d.insert kv.1 kv.2) rows ∅

/-- The last row with the key stores the value. -/
def LastEntry (entry : ρ → Except ε (κ × ν)) (rows : List ρ) (k : κ) (v : ν) : Prop :=
  ∃ before row after, rows = before ++ row :: after ∧ entry row = .ok (k, v) ∧
    ∀ r ∈ after, ∀ v', entry r ≠ .ok (k, v')

variable {entry : ρ → Except ε (κ × ν)} {dict : Finmap fun _ : κ ↦ ν} {k : κ} {v : ν}

omit [DecidableEq κ] in
theorem not_lastEntry_nil : ¬LastEntry entry [] k v := by
  rintro ⟨before, row, after, h, -⟩
  exact List.append_ne_nil_of_right_ne_nil before (List.cons_ne_nil row after) h.symm

theorem lastEntry_concat {row : ρ} {kv : κ × ν} (h : entry row = .ok kv) :
    LastEntry entry (rows ++ [row]) k v ↔
      if kv.1 = k then kv.2 = v else LastEntry entry rows k v := by
  obtain ⟨k', v'⟩ := kv
  constructor
  · rintro ⟨before, last, after, hrows, hlast, hafter⟩
    rcases List.eq_nil_or_concat after with rfl | ⟨after, final, rfl⟩
    · obtain ⟨rfl, hrow⟩ := List.append_inj' hrows rfl
      obtain ⟨rfl, -⟩ := List.cons.inj hrow
      obtain ⟨rfl, rfl⟩ := Prod.mk.inj (Except.ok.inj (h.symm.trans hlast))
      rw [if_pos rfl]
    · rw [List.concat_eq_append, ← List.cons_append, ← List.append_assoc] at hrows
      obtain ⟨rfl, hrow⟩ := List.append_inj' hrows rfl
      obtain ⟨rfl, -⟩ := List.cons.inj hrow
      rw [List.concat_eq_append] at hafter
      rw [if_neg]
      · exact ⟨before, last, after, rfl, hlast, fun r hr ↦ hafter r (List.mem_append_left _ hr)⟩
      · rintro rfl
        exact hafter row (List.mem_append_right _ (List.mem_singleton_self row)) v' h
  · split_ifs with hk
    · rintro rfl
      rw [← hk]
      exact ⟨rows, row, [], rfl, h, fun r hr ↦ absurd hr List.not_mem_nil⟩
    · rintro ⟨before, last, after, rfl, hlast, hafter⟩
      refine ⟨before, last, after ++ [row], List.append_assoc .., hlast, fun r hr v'' hv ↦ ?_⟩
      rcases List.mem_append.mp hr with hr | hr
      · exact hafter r hr v'' hv
      · rw [List.mem_singleton.mp hr] at hv
        exact hk (Prod.mk.inj (Except.ok.inj (h.symm.trans hv))).1

/-- Rows that do not store under the key can be left out. -/
theorem lastEntry_filter {p : ρ → Prop} [DecidablePred p]
    (hp : ∀ r ∈ rows, ∀ v, entry r = .ok (k, v) → p r) (h : ∀ r ∈ rows, Succeeds (entry r)) :
    LastEntry entry (rows.filter p) k v ↔ LastEntry entry rows k v := by
  induction rows using List.reverseRecOn with
  | nil => exact Iff.rfl
  | append_singleton rows row ih =>
    have hlast : row ∈ rows ++ [row] := List.mem_append_right _ (List.mem_singleton_self row)
    have hinit {r : ρ} (hr : r ∈ rows) : r ∈ rows ++ [row] := List.mem_append_left _ hr
    replace ih := ih (fun r hr ↦ hp r (hinit hr)) fun r hr ↦ h r (hinit hr)
    obtain ⟨kv, hkv⟩ := h row hlast
    rw [List.filter_append, lastEntry_concat hkv]
    by_cases hrow : p row
    · rw [List.filter_singleton, decide_eq_true hrow, cond_true, lastEntry_concat hkv, ih]
    · rw [List.filter_singleton, decide_eq_false hrow, cond_false, List.append_nil, ih, if_neg]
      rintro rfl
      exact hrow (hp row hlast kv.2 hkv)

/-- **The last row of a key wins.** -/
theorem lookup_fill (h : fill entry rows = .ok dict) :
    dict.lookup k = some v ↔ LastEntry entry rows k v := by
  refine applyAll_induction (P := fun rows (dict : Finmap fun _ : κ ↦ ν) ↦
    dict.lookup k = some v ↔ LastEntry entry rows k v) ?_ ?_ h
  · rw [Finmap.lookup_empty]
    exact iff_of_false nofun not_lastEntry_nil
  · intro before row u dict hdict hu
    cases hentry : entry row with
    | error e =>
      rw [hentry] at hu
      cases hu
    | ok kv =>
      rw [hentry] at hu
      obtain rfl := Except.ok.inj hu
      rw [lastEntry_concat hentry]
      split_ifs with hk
      · rw [← hk, Finmap.lookup_insert, Option.some.injEq]
      · rw [Finmap.lookup_insert_of_ne _ (Ne.symm hk), hdict]

theorem succeeds_fill : Succeeds (fill entry rows) ↔ ∀ r ∈ rows, Succeeds (entry r) := by
  rw [fill, succeeds_applyAll]
  simp only [succeeds_map]

theorem raises_fill {P : ε → Prop} : Raises P (fill entry rows) ↔
    Reaches (fun r ↦ Succeeds (entry r)) (fun r ↦ Raises P (entry r)) rows := by
  rw [fill, raises_applyAll]
  simp only [succeeds_map, raises_map]

theorem mem_fill (h : fill entry rows = .ok dict) :
    k ∈ dict ↔ ∃ r ∈ rows, ∃ v, entry r = .ok (k, v) := by
  refine applyAll_induction (P := fun rows (dict : Finmap fun _ : κ ↦ ν) ↦
    k ∈ dict ↔ ∃ r ∈ rows, ∃ v, entry r = .ok (k, v)) ?_ ?_ h
  · exact iff_of_false Finmap.notMem_empty fun ⟨_, hr, _⟩ ↦ List.not_mem_nil hr
  · intro before row u dict hdict hu
    cases hentry : entry row with
    | error e =>
      rw [hentry] at hu
      cases hu
    | ok kv =>
      rw [hentry] at hu
      obtain rfl := Except.ok.inj hu
      rw [Finmap.mem_insert, hdict]
      constructor
      · rintro (rfl | ⟨r, hr, v, hv⟩)
        · exact ⟨row, List.mem_append_right _ (List.mem_singleton_self row), kv.2, hentry⟩
        · exact ⟨r, List.mem_append_left _ hr, v, hv⟩
      · rintro ⟨r, hr, v, hv⟩
        rcases List.mem_append.mp hr with hr | hr
        · exact Or.inr ⟨r, hr, v, hv⟩
        · rw [List.mem_singleton.mp hr] at hv
          exact Or.inl (Prod.mk.inj (Except.ok.inj (hentry.symm.trans hv))).1.symm

end

end GtfsStream.Dictionary
