import GtfsStream.Analytics.BunchingSpec
import GtfsStream.Analytics.WindowSpec
import GtfsStream.Library.Stretch
import Mathlib.Data.List.Basic

/-!
# What a frame shows of one pair

For one pair a frame shows, poll interval by poll interval, whether the two vehicles were close or
apart. The events of the pair are the stretches of intervals in which they were together: close, or
unseen for one interval between two in which they were close.

## From rows to sets of intervals

A poll interval is a number, and what matters of the rows of a pair is in which intervals they are
close and in which they are apart. The scan over the rows splits them where the gap is too long or
where the two were seen apart in between. On the sets this says that an event is a longest stretch
of intervals in which the two are together. The stretches of a set are a library of their own; here
it is shown that the events of a frame are the stretches of its set.
-/

namespace GtfsStream.Analytics

/-- The start of a poll interval. -/
def slotTime (i : ℤ) : Time := i * seconds pollIntervalSeconds

/-- The number of the poll interval of a time. -/
def slot (t : Time) : ℤ := t / seconds pollIntervalSeconds

theorem slotTime_lt {i j : ℤ} : slotTime i < slotTime j ↔ i < j :=
  mul_lt_mul_iff_left₀ (seconds_pos (by decide))

theorem slotTime_le {i j : ℤ} : slotTime i ≤ slotTime j ↔ i ≤ j :=
  mul_le_mul_iff_left₀ (seconds_pos (by decide))

theorem slot_slotTime (i : ℤ) : slot (slotTime i) = i :=
  Int.mul_ediv_cancel i (seconds_pos (by decide)).ne'

theorem slotTime_inj {i j : ℤ} : slotTime i = slotTime j ↔ i = j :=
  ⟨fun h ↦ le_antisymm (slotTime_le.mp h.le) (slotTime_le.mp h.ge), fun h ↦ h ▸ rfl⟩

section

variable (frames : Frames) (static : GtfsStaticData) (pings : List Ping) (key : PairKey)

/-- The poll intervals in which the pair was close. -/
def closeSlots : Set ℤ :=
  {i | ∃ row ∈ (findClosePairs frames static pings).1,
    row.key = some key ∧ row.timeBucket = slotTime i}

/-- The poll intervals in which the pair was apart. -/
def farSlots : Set ℤ :=
  {i | ∃ row ∈ (findClosePairs frames static pings).2,
    row.key = some key ∧ row.timeBucket = slotTime i}

/-- The poll intervals in which the pair counts as together. -/
def together : Set ℤ :=
  bridged (closeSlots frames static pings key) (farSlots frames static pings key)

end

variable {frames : Frames} {static : GtfsStaticData} {pings : List Ping} {key : PairKey}

/-! ## The rows of a frame -/

theorem sighting_timeBucket {p : Ping} {s : Sighting} (h : sighting frames static p = some s) :
    s.timeBucket = slotTime (slot s.timestampEastern) := by
  unfold sighting at h
  split at h
  · rw [← Option.some.inj h]
    rfl
  · exact absurd h nofun

theorem sighting_timestampEastern {p : Ping} {s : Sighting}
    (h : sighting frames static p = some s) :
    p.timestampEastern = some s.timestampEastern := by
  unfold sighting at h
  split at h
  · next ht =>
    rw [← Option.some.inj h]
    exact ht
  · exact absurd h nofun

theorem sighting_vehicleId {p : Ping} {s : Sighting} (h : sighting frames static p = some s) :
    s.vehicleId = p.vehicleId := by
  unfold sighting at h
  split at h
  · rw [← Option.some.inj h]
  · exact absurd h (Option.some_ne_none s).symm

theorem mem_firstSightings {s : Sighting} (h : s ∈ firstSightings frames static pings) :
    s ∈ pings.filterMap (sighting frames static) :=
  (frames.perm _).mem_iff.mp (List.mem_of_find?_eq_some (Rows.mem_dropDuplicates.mp h))

theorem mem_candidatePairs {rows : List Sighting} {a b : Sighting} :
    (a, b) ∈ candidatePairs rows ↔ a ∈ rows ∧ b ∈ rows ∧ a.timeBucket = b.timeBucket ∧
      a.routeId = b.routeId ∧ a.directionId = b.directionId ∧ a.vehicleId < b.vehicleId := by
  rw [candidatePairs, List.mem_filter, decide_eq_true_iff]
  exact (and_congr_left fun _ ↦ List.pair_mem_product).trans and_assoc

theorem candidatePairs_nodup {rows : List Sighting}
    (hrows : (rows.map fun s ↦ (s.vehicleId, s.timeBucket)).Nodup) :
    ((candidatePairs rows).map fun (a, b) ↦ (a.vehicleId, b.vehicleId, a.timeBucket)).Nodup := by
  have hnodup : (candidatePairs rows).Nodup :=
    ((List.Nodup.of_map _ hrows).product (List.Nodup.of_map _ hrows)).filter _
  refine hnodup.map_on ?_
  rintro ⟨a, b⟩ hp ⟨c, d⟩ hq heq
  obtain ⟨ha, hb, hab, -⟩ := mem_candidatePairs.mp hp
  obtain ⟨hc, hd, hcd, -⟩ := mem_candidatePairs.mp hq
  obtain ⟨hvehicleA, heq⟩ := Prod.mk.inj heq
  obtain ⟨hvehicleB, hbucket⟩ := Prod.mk.inj heq
  have hone := List.inj_on_of_nodup_map hrows
  rw [Prod.mk.injEq]
  constructor
  · exact hone ha hc (Prod.ext hvehicleA hbucket)
  · exact hone hb hd (Prod.ext hvehicleB (hab.symm.trans (hbucket.trans hcd)))

/-- No pair has two rows in one bucket. -/
def OneRow (closePairs : List PairRow) : Prop :=
  closePairs.Pairwise fun r s ↦ ∀ key, r.key = some key → s.key = some key →
    r.timeBucket ≠ s.timeBucket

theorem oneRow_candidatePairs {rows : List Sighting}
    (hrows : (rows.map fun s ↦ (s.vehicleId, s.timeBucket)).Nodup) :
    OneRow ((candidatePairs rows).map (pairRow frames)) := by
  rw [OneRow, List.pairwise_map]
  refine (List.pairwise_map.mp (candidatePairs_nodup hrows)).imp ?_
  rintro ⟨a, b⟩ ⟨c, d⟩ hne key hpkey hqkey hbucket
  obtain ⟨route, hroute, rfl⟩ := Option.map_eq_some_iff.mp hpkey
  obtain ⟨route', hroute', hkey⟩ := Option.map_eq_some_iff.mp hqkey
  obtain ⟨-, -, hvehicleA, hvehicleB⟩ := PairKey.mk.injEq .. ▸ hkey
  have hac : a.timeBucket = c.timeBucket := hbucket
  exact hne (Prod.ext hvehicleA.symm (Prod.ext hvehicleB.symm hac))

theorem oneRow_findClosePairs (frames : Frames) (static : GtfsStaticData) (pings : List Ping) :
    OneRow (findClosePairs frames static pings).1 := by
  have hnodup : ((firstSightings frames static pings).map fun s ↦
      (s.vehicleId, s.timeBucket)).Nodup := Rows.nodup_map_dropDuplicates
  exact (oneRow_candidatePairs hnodup).sublist
    ((List.filter_sublist.trans List.filter_sublist).map (pairRow frames))

theorem mem_findClosePairs {threshold : ℚ} {row : PairRow} :
    (row ∈ (findClosePairs frames static pings threshold).1 ↔
        ∃ a b, (a, b) ∈ candidatePairs (firstSightings frames static pings) ∧
          pairDistance frames a b ≤ threshold ∧ ¬(a.nearTerminal && b.nearTerminal) ∧
            pairRow frames (a, b) = row) ∧
      (row ∈ (findClosePairs frames static pings threshold).2 ↔
        ∃ a b, (a, b) ∈ candidatePairs (firstSightings frames static pings) ∧
          threshold < pairDistance frames a b ∧ pairRow frames (a, b) = row) := by
  rw [findClosePairs]
  constructor
  · simp only [List.mem_map, List.mem_filter, Prod.exists, decide_eq_true_iff, Bool.not_eq_true',
      Bool.not_eq_true, and_assoc]
  · simp only [List.mem_map, List.mem_filter, Prod.exists, decide_eq_true_iff, and_assoc]

theorem exists_slot {row : PairRow} (h : row ∈ (findClosePairs frames static pings).1 ∨
    row ∈ (findClosePairs frames static pings).2) : ∃ i, row.timeBucket = slotTime i := by
  have hpair {a b : Sighting} (hab : (a, b) ∈ candidatePairs (firstSightings frames static pings))
      (hrow : pairRow frames (a, b) = row) : ∃ i, row.timeBucket = slotTime i := by
    obtain ⟨p, -, hp⟩ := List.mem_filterMap.mp (mem_firstSightings (mem_candidatePairs.mp hab).1)
    exact ⟨slot a.timestampEastern, hrow ▸ sighting_timeBucket hp⟩
  rcases h with h | h
  · obtain ⟨a, b, hab, -, -, hrow⟩ := mem_findClosePairs.1.mp h
    exact hpair hab hrow
  · obtain ⟨a, b, hab, -, hrow⟩ := mem_findClosePairs.2.mp h
    exact hpair hab hrow

/-! ## The events of a frame -/

theorem mem_pairGroup {rows : List PairRow} {row : PairRow} :
    row ∈ pairGroup rows key ↔ row ∈ rows ∧ row.key = some key := by
  rw [pairGroup, List.mem_filter, (List.perm_insertionSort _ _).mem_iff, decide_eq_true_iff]

/-- The rows of a pair with one row in each bucket, strictly in the order of time. -/
theorem pairGroup_strict_of_oneRow {closePairs : List PairRow}
    (hone : OneRow closePairs) (key : PairKey) :
    (pairGroup closePairs key).Pairwise fun r s ↦ r.timeBucket < s.timeBucket := by
  have hdistinct : (pairGroup closePairs key).Pairwise fun r s ↦ ∀ key, r.key = some key →
      s.key = some key → r.timeBucket ≠ s.timeBucket :=
    ((List.perm_insertionSort _ closePairs).symm.pairwise hone
      fun {r s} h key hs hr ↦ (h key hr hs).symm).sublist List.filter_sublist
  refine ((pairGroup_sorted closePairs key).and hdistinct).imp_of_mem fun {r s} hr hs hrs ↦ ?_
  exact lt_of_le_of_ne hrs.1 (hrs.2 key (mem_pairGroup.mp hr).2 (mem_pairGroup.mp hs).2)

/-- The close rows of a pair, by the number of their poll interval. -/
theorem pairGroup_strict :
    (pairGroup (findClosePairs frames static pings).1 key).Pairwise fun r s ↦
      slot r.timeBucket < slot s.timeBucket := by
  have hone := oneRow_findClosePairs frames static pings
  refine (pairGroup_strict_of_oneRow hone key).imp_of_mem fun {r s} hr hs hlt ↦ ?_
  obtain ⟨i, hi⟩ := exists_slot (Or.inl (mem_pairGroup.mp hr).1)
  obtain ⟨j, hj⟩ := exists_slot (Or.inl (mem_pairGroup.mp hs).1)
  rw [hi, hj, slot_slotTime, slot_slotTime]
  rwa [hi, hj, slotTime_lt] at hlt

theorem mem_separatedBuckets {rows : List PairRow} {t : Time} :
    t ∈ separatedBuckets (some rows) key ↔
      ∃ row ∈ rows, row.key = some key ∧ row.timeBucket = t := by
  rw [separatedBuckets, (List.perm_insertionSort _ _).mem_iff, List.mem_map]
  simp only [Option.getD_some, List.mem_filter, decide_eq_true_iff, and_assoc]

/-- Two observations are consecutive where the second is in the next poll interval, or in the one
after that and the pair was not apart in between. -/
theorem isConsecutive_iff {i j : ℤ} (hij : i < j) :
    isConsecutive (some (findClosePairs frames static pings).2) key (slotTime i) (slotTime j) =
        true ↔
      j = i + 1 ∨ j = i + 2 ∧ i + 1 ∉ farSlots frames static pings key := by
  have hgap : slotTime j - slotTime i = slotTime (j - i) := (sub_mul _ _ _).symm
  have hone : seconds pollIntervalSeconds = slotTime 1 := (one_mul _).symm
  have htwo : seconds (pollIntervalSeconds * consecutiveToleranceFactor) = slotTime 2 := by decide
  -- the only interval in between is the one that was skipped
  have hbroken : ((separatedBuckets (some (findClosePairs frames static pings).2) key).any fun b ↦
      slotTime i < b ∧ b < slotTime j) = true ↔
        ∃ m ∈ farSlots frames static pings key, i < m ∧ m < j := by
    rw [List.any_eq_true]
    constructor
    · rintro ⟨b, hb, hlt⟩
      obtain ⟨row, hrow, hkey, rfl⟩ := mem_separatedBuckets.mp hb
      obtain ⟨m, hm⟩ := exists_slot (Or.inr hrow)
      obtain ⟨hlt, hlt'⟩ := of_decide_eq_true hlt
      rw [hm, slotTime_lt] at hlt hlt'
      exact ⟨m, ⟨row, hrow, hkey, hm⟩, hlt, hlt'⟩
    · rintro ⟨m, ⟨row, hrow, hkey, hm⟩, hlt, hlt'⟩
      exact ⟨slotTime m, mem_separatedBuckets.mpr ⟨row, hrow, hkey, hm⟩,
        decide_eq_true ⟨slotTime_lt.mpr hlt, slotTime_lt.mpr hlt'⟩⟩
  rw [isConsecutive, hgap, hone, htwo]
  dsimp only
  split_ifs with hnext <;> rw [slotTime_inj] at hnext
  · exact iff_of_true rfl (Or.inl (by omega))
  · rw [Bool.and_eq_true, decide_eq_true_iff, Bool.not_eq_true', ← Bool.not_eq_true, hbroken,
      slotTime_le]
    constructor
    · rintro ⟨hle, hfar⟩
      refine Or.inr ⟨by omega, fun hmem ↦ hfar ⟨i + 1, hmem, by omega, by omega⟩⟩
    · rintro (hj | ⟨hj, hfar⟩)
      · omega
      · refine ⟨by omega, ?_⟩
        rintro ⟨m, hm, hlt, hlt'⟩
        exact hfar (by rwa [show i + 1 = m by omega])

theorem mem_groupEvents {n : ℕ} {separated : Option (List PairRow)} {group : List PairRow}
    {e : BunchingEvent} :
    e ∈ groupEvents n separated key group ↔
      ∃ run ∈ group.splitBy fun r s ↦ isConsecutive separated key r.timeBucket s.timeBucket,
        n ≤ run.length ∧ runEvent key run = some e := by
  rw [groupEvents, List.mem_filterMap]
  simp only [List.mem_filter, decide_eq_true_iff, and_assoc]

/-- A sorted run is longer than one exactly if it ends later than it starts. -/
theorem two_le_length_iff {α : Type*} {pos : α → ℤ} {run : List α} (hne : run ≠ [])
    (hsorted : run.Pairwise fun x y ↦ pos x < pos y) :
    2 ≤ run.length ↔ pos (run.head hne) < pos (run.getLast hne) := by
  cases run with
  | nil => exact absurd rfl hne
  | cons x rest =>
    cases rest with
    | nil => exact iff_of_false (Nat.lt_irrefl 1) (lt_irrefl _)
    | cons y rest =>
      refine iff_of_true (Nat.succ_le_succ (Nat.succ_le_succ (Nat.zero_le _))) ?_
      rw [List.getLast_cons (List.cons_ne_nil y rest)]
      exact (List.pairwise_cons.mp hsorted).1 _ (List.getLast_mem _)

theorem timeBucket_of_mem_pairGroup {row : PairRow}
    (h : row ∈ pairGroup (findClosePairs frames static pings).1 key) :
    row.timeBucket = slotTime (slot row.timeBucket) := by
  obtain ⟨i, hi⟩ := exists_slot (Or.inl (mem_pairGroup.mp h).1)
  rw [hi, slot_slotTime]

/-- The poll intervals of the rows of a pair are those in which it was close. -/
theorem slots_pairGroup : {i | ∃ row ∈ pairGroup (findClosePairs frames static pings).1 key,
    slot row.timeBucket = i} = closeSlots frames static pings key := by
  ext i
  constructor
  · rintro ⟨row, hrow, rfl⟩
    obtain ⟨hclose, hkey⟩ := mem_pairGroup.mp hrow
    exact ⟨row, hclose, hkey, timeBucket_of_mem_pairGroup hrow⟩
  · rintro ⟨row, hrow, hkey, hbucket⟩
    refine ⟨row, mem_pairGroup.mpr ⟨hrow, hkey⟩, ?_⟩
    rw [hbucket, slot_slotTime]

/-- The events of a pair in a frame are the stretches of poll intervals in which it was together,
of at least two. -/
theorem exists_pairEvent_iff {s t : Time} :
    (∃ e ∈ pairEvents frames static pings key, e.startTime = s ∧ e.endTime = t) ↔
      ∃ a b, a < b ∧ Stretch (together frames static pings key) a b ∧ s = slotTime a ∧
        t = slotTime b := by
  let pos (row : PairRow) : ℤ := slot row.timeBucket
  let group := pairGroup (findClosePairs frames static pings).1 key
  let r (x y : PairRow) : Bool :=
    isConsecutive (some (findClosePairs frames static pings).2) key x.timeBucket y.timeBucket
  have hpos : ∀ x ∈ group, x.timeBucket = slotTime (pos x) :=
    fun x hx ↦ timeBucket_of_mem_pairGroup hx
  have hsorted : group.Pairwise fun x y ↦ pos x < pos y := pairGroup_strict
  have hr : ∀ x ∈ group, ∀ y ∈ group, pos x < pos y → (r x y = true ↔
      pos y = pos x + 1 ∨ pos y = pos x + 2 ∧ pos x + 1 ∉ farSlots frames static pings key) := by
    intro x hx y hy hxy
    change isConsecutive _ key x.timeBucket y.timeBucket = true ↔ _
    rw [hpos x hx, hpos y hy]
    exact isConsecutive_iff hxy
  have hmaximal {run : List PairRow} (hrun : run ∈ group.splitBy r) :=
    Runs.maximalRun_of_mem_splitBy hsorted hrun
  -- an event is a part of the group, and a part of the group is a stretch of its intervals
  rw [pairEvents, windowEvents, filter_detectBunchingEvents, together, ← slots_pairGroup]
  constructor
  · rintro ⟨e, he, rfl, rfl⟩
    obtain ⟨run, hrun, htwo, hevent⟩ := mem_groupEvents.mp he
    obtain ⟨hne, hsub, hsortedRun, -⟩ := hmaximal hrun
    have hspan := runEvent_span hevent
    rw [runSpan_of_ne_nil hne, Prod.mk.injEq] at hspan
    refine ⟨_, _, (two_le_length_iff hne hsortedRun).mp htwo,
      stretch_of_mem_splitBy hsorted hr hrun hne, ?_, ?_⟩
    · rw [hspan.1, hpos _ (hsub _ (List.head_mem hne))]
    · rw [hspan.2, hpos _ (hsub _ (List.getLast_mem hne))]
  · rintro ⟨a, b, hab, hstretch, rfl, rfl⟩
    obtain ⟨run, hrun, hne, rfl, rfl⟩ := (exists_mem_splitBy_iff hsorted hr).mpr hstretch
    obtain ⟨-, hsub, hsortedRun, -⟩ := hmaximal hrun
    obtain ⟨e, hevent⟩ : ∃ e, runEvent key run = some e := by
      cases run with
      | nil => exact absurd rfl hne
      | cons row rest => exact ⟨_, rfl⟩
    have hspan := runEvent_span hevent
    rw [runSpan_of_ne_nil hne, Prod.mk.injEq] at hspan
    refine ⟨e, mem_groupEvents.mpr
      ⟨run, hrun, (two_le_length_iff hne hsortedRun).mpr hab, hevent⟩, ?_, ?_⟩
    · rw [hspan.1, hpos _ (hsub _ (List.head_mem hne))]
    · rw [hspan.2, hpos _ (hsub _ (List.getLast_mem hne))]

/-- An event of a pair ends with the poll interval of a row of its first vehicle. -/
theorem exists_row_of_pairEvent {e : BunchingEvent} (he : e ∈ pairEvents frames static pings key) :
    ∃ p ∈ pings, p.vehicleId = key.vehicleA ∧
      ∃ t, p.timestampEastern = some t ∧ e.endTime = bucket t := by
  rw [pairEvents, windowEvents, filter_detectBunchingEvents] at he
  obtain ⟨run, hrun, -, hevent⟩ := mem_groupEvents.mp he
  have hne : run ≠ [] := List.ne_nil_of_mem_splitBy hrun
  have hspan := runEvent_span hevent
  rw [runSpan_of_ne_nil hne, Prod.mk.injEq] at hspan
  have hmem : run.getLast hne ∈ pairGroup (findClosePairs frames static pings).1 key := by
    rw [← List.flatten_splitBy _ (pairGroup (findClosePairs frames static pings).1 key)]
    exact List.mem_flatten.mpr ⟨run, hrun, List.getLast_mem hne⟩
  obtain ⟨hrow, hkey⟩ := mem_pairGroup.mp hmem
  obtain ⟨a, b, hab, -, -, heq⟩ := mem_findClosePairs.1.mp hrow
  obtain ⟨p, hp, ha⟩ := List.mem_filterMap.mp (mem_firstSightings (mem_candidatePairs.mp hab).1)
  rw [← heq] at hkey hspan
  obtain ⟨route, -, rfl⟩ := Option.map_eq_some_iff.mp hkey
  exact ⟨p, hp, (sighting_vehicleId ha).symm, _, sighting_timestampEastern ha,
    hspan.2.trans (sighting_timeBucket ha)⟩

end GtfsStream.Analytics
