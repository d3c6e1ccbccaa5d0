import GtfsStream.Archive.Ledger

/-!
# The hour files through crashes

What a reader of the archive sees of an hour: its plain file, its compressed file, and, kept for the
statements only, whether it was ever opened and which bytes have reached its plain file. A writer
that may be cut at any moment changes this in five ways, the constructors of `Hours.Move`: not at
all, by opening an hour, by appending to one, by compressing one (the rename that gives the finished
file its name), and by dropping the plain file of a compressed one.

`Hours.Sound` is what holds of the hour files at every moment: a compressed file is complete and has
all bytes that reached the plain file, a plain file has them too, and an hour once opened has one of
the two, unless it was let `gone`, which is for a second process to do.
-/

namespace GtfsStream.Archive

theorem hourKey_mono {t t' : ℤ} (h : t ≤ t') : hourKey t ≤ hourKey t' :=
  Int.ediv_le_ediv (by decide) h

/-- The files of every hour, and what is recorded of them. -/
@[ext] structure Hours where
  plain : HourKey → Option Bytes
  gz : HourKey → Option File
  /-- The hours whose plain file was ever opened. -/
  opened : List HourKey
  /-- The bytes that have reached the plain file, in order. -/
  reached : HourKey → Bytes
  /-- The clock of the writer. -/
  time : ℤ

namespace Hours

/-! ## The changes -/

section

variable (h : Hours) (k : HourKey)

/-- Open the plain file of the hour `k`, a new one if there is none. -/
def openHour : Hours :=
  { h with
    plain := Function.update h.plain k (some ((h.plain k).getD []))
    opened := k :: h.opened }

/-- Append to the plain file of the hour `k`. -/
def append (c : Bytes) : Hours :=
  { h with
    plain := Function.update h.plain k ((h.plain k).map (· ++ c))
    reached := Function.update h.reached k (h.reached k ++ c) }

/-- Give the finished compressed file of the hour `k` its name. -/
def compress : Hours :=
  { h with gz := Function.update h.gz k ((h.plain k).map gzipped) }

/-- Remove the plain file of the hour `k`. -/
def drop : Hours := { h with plain := Function.update h.plain k none }

/-- Time passes. -/
def tick (t : ℤ) : Hours := { h with time := t }

variable {h k}

@[simp] theorem openHour_plain (j : HourKey) :
    (h.openHour k).plain j = if j = k then some ((h.plain k).getD []) else h.plain j :=
  Function.update_apply ..

@[simp] theorem openHour_gz : (h.openHour k).gz = h.gz := rfl

@[simp] theorem openHour_opened : (h.openHour k).opened = k :: h.opened := rfl

@[simp] theorem openHour_reached : (h.openHour k).reached = h.reached := rfl

@[simp] theorem openHour_time : (h.openHour k).time = h.time := rfl

@[simp] theorem append_plain (c : Bytes) (j : HourKey) :
    (h.append k c).plain j = if j = k then (h.plain k).map (· ++ c) else h.plain j :=
  Function.update_apply ..

@[simp] theorem append_gz (c : Bytes) : (h.append k c).gz = h.gz := rfl

@[simp] theorem append_opened (c : Bytes) : (h.append k c).opened = h.opened := rfl

@[simp] theorem append_reached (c : Bytes) (j : HourKey) :
    (h.append k c).reached j = if j = k then h.reached k ++ c else h.reached j :=
  Function.update_apply ..

@[simp] theorem append_time (c : Bytes) : (h.append k c).time = h.time := rfl

@[simp] theorem compress_plain : (h.compress k).plain = h.plain := rfl

@[simp] theorem compress_gz (j : HourKey) :
    (h.compress k).gz j = if j = k then (h.plain k).map gzipped else h.gz j :=
  Function.update_apply ..

@[simp] theorem compress_opened : (h.compress k).opened = h.opened := rfl

@[simp] theorem compress_reached : (h.compress k).reached = h.reached := rfl

@[simp] theorem compress_time : (h.compress k).time = h.time := rfl

@[simp] theorem drop_plain (j : HourKey) :
    (h.drop k).plain j = if j = k then none else h.plain j :=
  Function.update_apply ..

@[simp] theorem drop_gz : (h.drop k).gz = h.gz := rfl

@[simp] theorem drop_opened : (h.drop k).opened = h.opened := rfl

@[simp] theorem drop_reached : (h.drop k).reached = h.reached := rfl

@[simp] theorem drop_time : (h.drop k).time = h.time := rfl

end

/-- One change that the writer may make, with what it makes sure of before. -/
inductive Move (h : Hours) : Hours → Prop
  | stay : h.Move h
  | openHour (k : HourKey) (hk : k ≤ hourKey h.time) (hgz : ∀ j, h.gz j ≠ none → j < k) :
    h.Move (h.openHour k)
  | append (k : HourKey) (c : Bytes) (hplain : h.plain k ≠ none) (hgz : h.gz k = none) :
    h.Move (h.append k c)
  | compress (j : HourKey) (hplain : h.plain j ≠ none) (hgz : h.gz j = none)
      (hj : j < hourKey h.time) : h.Move (h.compress j)
  | drop (j : HourKey) (hplain : h.plain j ≠ none) (hgz : h.gz j ≠ none) : h.Move (h.drop j)

/-- What holds of the hour files at every moment. -/
structure Sound (gone : HourKey → Prop) (h : Hours) : Prop where
  gz : ∀ k f, h.gz k = some f → f.complete = true ∧ f.bytes = h.reached k
  plain : ∀ k b, h.plain k = some b → b = h.reached k
  opened : ∀ k ∈ h.opened, h.plain k ≠ none ∨ h.gz k ≠ none ∨ gone k
  unopened : ∀ k, k ∉ h.opened → h.plain k = none ∧ h.gz k = none ∧ h.reached k = []
  past : ∀ k, h.gz k ≠ none → k < hourKey h.time
  known : ∀ k, h.plain k ≠ none → k ≤ hourKey h.time

variable {gone : HourKey → Prop} {h h' : Hours} {k : HourKey}

/-! ## What a move leaves alone -/

theorem Move.time (hm : h.Move h') : h'.time = h.time := by
  cases hm <;> rfl

theorem Move.gz_kept (hm : h.Move h') {f : File} (hf : h.gz k = some f) : h'.gz k = some f := by
  cases hm with
  | stay => exact hf
  | openHour k hk hgz => exact hf
  | append k c hplain hgz => exact hf
  | compress j hplain hgz hj =>
    have hkj : k ≠ j := by
      rintro rfl
      simp [hgz] at hf
    rw [compress_gz, if_neg hkj, hf]
  | drop j hplain hgz => exact hf

theorem Move.gz_of_plain_eq_none (hm : h.Move h') (hk : h.plain k = none) : h'.gz k = h.gz k := by
  cases hm with
  | stay => rfl
  | openHour k hk hgz => rfl
  | append k c hplain hgz => rfl
  | compress j hplain hgz hj =>
    have hkj : k ≠ j := by
      rintro rfl
      exact hplain hk
    rw [compress_gz, if_neg hkj]
  | drop j hplain hgz => rfl

theorem Move.reached_of_plain_eq_none (hm : h.Move h') (hk : h.plain k = none) :
    h'.reached k = h.reached k := by
  cases hm with
  | stay => rfl
  | openHour k hk hgz => rfl
  | append j c hplain hgz =>
    have hkj : k ≠ j := by
      rintro rfl
      exact hplain hk
    rw [append_reached, if_neg hkj]
  | compress j hplain hgz hj => rfl
  | drop j hplain hgz => rfl

theorem Move.opened_of_plain_ne_none (hm : h.Move h') (hk : h.plain k = none)
    (hne : h'.plain k ≠ none) : h'.opened = k :: h.opened := by
  cases hm with
  | stay => exact absurd hk hne
  | openHour j hj hgz =>
    by_cases hkj : k = j
    · rw [hkj, openHour_opened]
    · rw [openHour_plain, if_neg hkj] at hne
      exact absurd hk hne
  | append j c hplain hgz =>
    have hkj : k ≠ j := by
      rintro rfl
      exact hplain hk
    rw [append_plain, if_neg hkj] at hne
    exact absurd hk hne
  | compress j hplain hgz hj => exact absurd hk hne
  | drop j hplain hgz =>
    rw [drop_plain, hk, ite_self] at hne
    exact absurd rfl hne

theorem Move.opened_subset (hm : h.Move h') : h.opened ⊆ h'.opened := by
  cases hm with
  | openHour k hk hgz => exact List.subset_cons_self k h.opened
  | stay => exact List.Subset.refl _
  | append k c hplain hgz => exact List.Subset.refl _
  | compress j hplain hgz hj => exact List.Subset.refl _
  | drop j hplain hgz => exact List.Subset.refl _

/-! ## The invariant -/

theorem sound_empty (t : ℤ) :
    Sound gone ⟨fun _ ↦ none, fun _ ↦ none, [], fun _ ↦ [], t⟩ where
  gz k f hf := by simp at hf
  plain k b hb := by simp at hb
  opened k hk := absurd hk List.not_mem_nil
  unopened k _ := ⟨rfl, rfl, rfl⟩
  past k hk := absurd rfl hk
  known k hk := absurd rfl hk

theorem Sound.tick (hs : h.Sound gone) {t : ℤ} (ht : h.time ≤ t) : (h.tick t).Sound gone where
  gz := hs.gz
  plain := hs.plain
  opened := hs.opened
  unopened := hs.unopened
  past k hk := (hs.past k hk).trans_le (hourKey_mono ht)
  known k hk := (hs.known k hk).trans (hourKey_mono ht)

theorem Sound.mono {gone' : HourKey → Prop} (hs : h.Sound gone) (hg : ∀ k, gone k → gone' k) :
    h.Sound gone' :=
  { hs with opened := fun k hk ↦ (hs.opened k hk).imp_right (Or.imp_right (hg k)) }

theorem Sound.openHour (hs : h.Sound gone) (hk : k ≤ hourKey h.time)
    (hgz : ∀ j, h.gz j ≠ none → j < k) (hgone : ¬gone k) : (h.openHour k).Sound gone := by
  have hnone : h.gz k = none := by
    by_contra hne
    exact lt_irrefl k (hgz k hne)
  -- an hour without a plain file was never opened, so nothing has reached it
  have hbytes : (h.plain k).getD [] = h.reached k := by
    rcases hp : h.plain k with _ | b
    · by_cases hmem : k ∈ h.opened
      · rcases hs.opened k hmem with hx | hx | hx
        · exact absurd hp hx
        · exact absurd hnone hx
        · exact absurd hx hgone
      · exact (hs.unopened k hmem).2.2.symm
    · exact hs.plain k b hp
  refine ⟨hs.gz, fun j b hb ↦ ?_, fun j hj ↦ ?_, fun j hj ↦ ?_, hs.past, fun j hj ↦ ?_⟩
  · by_cases hjk : j = k
    · rw [openHour_plain, if_pos hjk] at hb
      rw [← Option.some.inj hb, hjk]
      exact hbytes
    · rw [openHour_plain, if_neg hjk] at hb
      exact hs.plain j b hb
  · by_cases hjk : j = k
    · exact Or.inl (by simp [hjk])
    · have hmem : j ∈ h.opened := (List.mem_cons.mp hj).resolve_left hjk
      simpa [hjk] using hs.opened j hmem
  · obtain ⟨hjk, hj⟩ := not_or.mp (mt List.mem_cons.mpr hj)
    simpa [hjk] using hs.unopened j hj
  · by_cases hjk : j = k
    · exact hjk ▸ hk
    · rw [openHour_plain, if_neg hjk] at hj
      exact hs.known j hj

theorem Sound.append (hs : h.Sound gone) (c : Bytes) (hplain : h.plain k ≠ none)
    (hgz : h.gz k = none) : (h.append k c).Sound gone := by
  obtain ⟨b, hb⟩ := Option.ne_none_iff_exists'.mp hplain
  refine ⟨fun j f hf ↦ ?_, fun j b' hb' ↦ ?_, fun j hj ↦ ?_, fun j hj ↦ ?_, hs.past,
    fun j hj ↦ ?_⟩
  · have hjk : j ≠ k := by
      rintro rfl
      simp [hgz] at hf
    rw [append_reached, if_neg hjk]
    exact hs.gz j f hf
  · by_cases hjk : j = k
    · rw [append_plain, if_pos hjk, hb] at hb'
      rw [append_reached, if_pos hjk, ← Option.some.inj hb', hs.plain k b hb]
    · rw [append_plain, if_neg hjk] at hb'
      rw [append_reached, if_neg hjk]
      exact hs.plain j b' hb'
  · by_cases hjk : j = k
    · exact Or.inl (by simp [hjk, hb])
    · simpa [hjk] using hs.opened j hj
  · have hjk : j ≠ k := by
      rintro rfl
      exact hplain (hs.unopened j hj).1
    simpa [hjk] using hs.unopened j hj
  · by_cases hjk : j = k
    · exact hjk ▸ hs.known k hplain
    · rw [append_plain, if_neg hjk] at hj
      exact hs.known j hj

theorem Sound.compress (hs : h.Sound gone) (hplain : h.plain k ≠ none) (hk : k < hourKey h.time) :
    (h.compress k).Sound gone := by
  obtain ⟨b, hb⟩ := Option.ne_none_iff_exists'.mp hplain
  refine ⟨fun j f hf ↦ ?_, hs.plain, fun j hj ↦ ?_, fun j hj ↦ ?_, fun j hj ↦ ?_, hs.known⟩
  · by_cases hjk : j = k
    · rw [compress_gz, if_pos hjk, hb] at hf
      rw [← Option.some.inj hf, compress_reached, hjk]
      exact ⟨rfl, hs.plain k b hb⟩
    · rw [compress_gz, if_neg hjk] at hf
      exact hs.gz j f hf
  · by_cases hjk : j = k
    · exact Or.inl (hjk ▸ hplain)
    · simpa [hjk] using hs.opened j hj
  · have hjk : j ≠ k := by
      rintro rfl
      exact hplain (hs.unopened j hj).1
    simpa [hjk] using hs.unopened j hj
  · by_cases hjk : j = k
    · exact hjk ▸ hk
    · rw [compress_gz, if_neg hjk] at hj
      exact hs.past j hj

theorem Sound.drop (hs : h.Sound gone) (hgz : h.gz k ≠ none) : (h.drop k).Sound gone := by
  refine ⟨hs.gz, fun j b hb ↦ ?_, fun j hj ↦ ?_, fun j hj ↦ ?_, hs.past, fun j hj ↦ ?_⟩
  · by_cases hjk : j = k
    · simp [hjk] at hb
    · rw [drop_plain, if_neg hjk] at hb
      exact hs.plain j b hb
  · by_cases hjk : j = k
    · exact Or.inr (Or.inl (hjk ▸ hgz))
    · simpa [hjk] using hs.opened j hj
  · have hjk : j ≠ k := by
      rintro rfl
      exact hgz (hs.unopened j hj).2.1
    simpa [hjk] using hs.unopened j hj
  · by_cases hjk : j = k
    · simp [hjk] at hj
    · rw [drop_plain, if_neg hjk] at hj
      exact hs.known j hj

/-- **Every move keeps the invariant**, as long as no hour that was let go is opened again. -/
theorem Move.sound (hm : h.Move h') (hs : h.Sound gone)
    (hopen : ∀ k, gone k → h'.plain k = none) : h'.Sound gone := by
  cases hm with
  | stay => exact hs
  | openHour k hk hgz => exact hs.openHour hk hgz fun hgone ↦ by simpa using hopen k hgone
  | append k c hplain hgz => exact hs.append c hplain hgz
  | compress j hplain hgz hj => exact hs.compress hplain hj
  | drop j hplain hgz => exact hs.drop hgz

/-! ## What a reader finds -/

/-- The content of the file that a reader should use: the compressed one, decompressed, if it is
there, otherwise the plain one. -/
def content (h : Hours) (k : HourKey) : Option Bytes := ((h.gz k).map File.bytes).or (h.plain k)

/-- What a reader finds is what has reached the plain file, byte for byte. -/
theorem Sound.content (hs : h.Sound fun _ ↦ False) {k : HourKey} (hk : k ∈ h.opened) :
    h.content k = some (h.reached k) := by
  rcases hgz : h.gz k with _ | f
  · rcases hs.opened k hk with hplain | hx | hx
    · obtain ⟨b, hb⟩ := Option.ne_none_iff_exists'.mp hplain
      rw [Hours.content, hgz, Option.map_none, Option.none_or, hb, hs.plain k b hb]
    · exact absurd hgz hx
    · exact hx.elim
  · rw [Hours.content, hgz, Option.map_some, Option.some_or, (hs.gz k f hgz).2]

end Hours

end GtfsStream.Archive
