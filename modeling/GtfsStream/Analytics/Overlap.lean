import GtfsStream.Analytics.Sightings
import GtfsStream.Library.Incidents

/-!
# What two windows share

A frame shows the poll intervals from shortly before the newest message flushed so far. The interval
it begins in is cut, so that the first row of a vehicle may be missing there; the intervals after
that it shows whole, up to the newest message.

## The first interval

The rows that are carried forward are cut at a time, not at the beginning of an interval. In the
interval of the cut a vehicle may lose its first row to the frame before, so that another of its
rows stands for it there, or none. Two poll intervals after it the new messages begin. So a frame
and what was known before it are related as two windows of the library are, with the interval of the
cut as the one that may be shown wrong.
-/

namespace GtfsStream.Analytics

variable {frames : Frames} {static : GtfsStaticData} {pings more before frame : List Ping}
  {key : PairKey} {s : Sighting} {m : Time} {i : ℤ}

/-! ## First rows -/

/-- Rows of one vehicle at one time do not differ. -/
def OneSighting (frames : Frames) (static : GtfsStaticData) (pings : List Ping) : Prop :=
  ∀ r ∈ pings.filterMap (sighting frames static), ∀ s ∈ pings.filterMap (sighting frames static),
    r.vehicleId = s.vehicleId → r.timestampEastern = s.timestampEastern → r = s

theorem OneSighting.mono (h : OneSighting frames static more) (hsub : ∀ p ∈ pings, p ∈ more) :
    OneSighting frames static pings := by
  have hmem {s : Sighting} (hs : s ∈ pings.filterMap (sighting frames static)) :
      s ∈ more.filterMap (sighting frames static) := by
    obtain ⟨p, hp, hps⟩ := List.mem_filterMap.mp hs
    exact List.mem_filterMap.mpr ⟨p, hsub p hp, hps⟩
  exact fun r hr s hs ↦ h r (hmem hr) s (hmem hs)

/-- The first row of a vehicle in a bucket is the earliest, if its rows at one time do not
differ. -/
theorem mem_firstSightings_of_vehicle (hone : ∀ r ∈ pings.filterMap (sighting frames static),
      ∀ q ∈ pings.filterMap (sighting frames static), r.vehicleId = s.vehicleId →
        q.vehicleId = s.vehicleId → r.timestampEastern = q.timestampEastern → r = q) :
    s ∈ firstSightings frames static pings ↔ s ∈ pings.filterMap (sighting frames static) ∧
      ∀ r ∈ pings.filterMap (sighting frames static), r.vehicleId = s.vehicleId →
        r.timeBucket = s.timeBucket → s.timestampEastern ≤ r.timestampEastern := by
  have hperm := frames.perm (pings.filterMap (sighting frames static))
  rw [firstSightings, Rows.mem_dropDuplicates_of_sorted (frames.sorted _) fun r hr q hq hr' hq' ↦
    hone r (hperm.mem_iff.mp hr) q (hperm.mem_iff.mp hq) (Prod.mk.inj hr').1 (Prod.mk.inj hq').1]
  simp only [hperm.mem_iff, Prod.mk.injEq, and_imp]

theorem mem_firstSightings_iff (hone : OneSighting frames static pings) :
    s ∈ firstSightings frames static pings ↔ s ∈ pings.filterMap (sighting frames static) ∧
      ∀ r ∈ pings.filterMap (sighting frames static), r.vehicleId = s.vehicleId →
        r.timeBucket = s.timeBucket → s.timestampEastern ≤ r.timestampEastern :=
  mem_firstSightings_of_vehicle fun r hr q hq hvehicle hvehicle' ↦
    hone r hr q hq (hvehicle.trans hvehicle'.symm)

/-- What a list of pings shows in an interval, another shows that has its first rows there. -/
theorem slots_mono (h : ∀ s, slot s.timestampEastern = i → s ∈ firstSightings frames static pings →
      s ∈ firstSightings frames static more) :
    (i ∈ closeSlots frames static pings key → i ∈ closeSlots frames static more key) ∧
      (i ∈ farSlots frames static pings key → i ∈ farSlots frames static more key) := by
  have hpair {a b : Sighting} {row : PairRow} (hrow : pairRow frames (a, b) = row)
      (hbucket : row.timeBucket = slotTime i)
      (hab : (a, b) ∈ candidatePairs (firstSightings frames static pings)) :
      (a, b) ∈ candidatePairs (firstSightings frames static more) := by
    obtain ⟨ha, hb, heq, hrest⟩ := mem_candidatePairs.mp hab
    have hslot {s : Sighting} (hs : s ∈ firstSightings frames static pings)
        (hi : s.timeBucket = slotTime i) : slot s.timestampEastern = i := by
      obtain ⟨p, -, hp⟩ := List.mem_filterMap.mp (mem_firstSightings hs)
      rw [sighting_timeBucket hp] at hi
      exact slotTime_inj.mp hi
    have hai : a.timeBucket = slotTime i := by
      rw [← hrow] at hbucket
      exact hbucket
    exact mem_candidatePairs.mpr
      ⟨h a (hslot ha hai) ha, h b (hslot hb (heq.symm.trans hai)) hb, heq, hrest⟩
  constructor
  · rintro ⟨row, hrow, hkey, hbucket⟩
    obtain ⟨a, b, hab, hclose, hstaged, heq⟩ := mem_findClosePairs.1.mp hrow
    exact ⟨row, mem_findClosePairs.1.mpr ⟨a, b, hpair heq hbucket hab, hclose, hstaged, heq⟩,
      hkey, hbucket⟩
  · rintro ⟨row, hrow, hkey, hbucket⟩
    obtain ⟨a, b, hab, hfar, heq⟩ := mem_findClosePairs.2.mp hrow
    exact ⟨row, mem_findClosePairs.2.mpr ⟨a, b, hpair heq hbucket hab, hfar, heq⟩, hkey, hbucket⟩

theorem exists_row_of_slot (h : i ∈ closeSlots frames static pings key) :
    ∃ p ∈ pings, ∃ t, p.timestampEastern = some t ∧ slot t = i := by
  obtain ⟨row, hrow, -, hbucket⟩ := h
  obtain ⟨a, b, hab, -, -, rfl⟩ := mem_findClosePairs.1.mp hrow
  obtain ⟨p, hp, ha⟩ := List.mem_filterMap.mp (mem_firstSightings (mem_candidatePairs.mp hab).1)
  refine ⟨p, hp, _, sighting_timestampEastern ha, ?_⟩
  have hi : a.timeBucket = slotTime i := hbucket
  rw [sighting_timeBucket ha] at hi
  exact slotTime_inj.mp hi

/-- Lists with the same rows in an interval have the same first rows there. -/
theorem firstSightings_congr (hone : OneSighting frames static more) (hsub : ∀ p ∈ pings, p ∈ more)
    (hslot : ∀ p ∈ more, ∀ t, p.timestampEastern = some t → slot t = i → p ∈ pings)
    (hi : slot s.timestampEastern = i) :
    s ∈ firstSightings frames static pings ↔ s ∈ firstSightings frames static more := by
  have hrows {r : Sighting} (hr : slot r.timestampEastern = i) :
      r ∈ pings.filterMap (sighting frames static) ↔
        r ∈ more.filterMap (sighting frames static) := by
    rw [List.mem_filterMap, List.mem_filterMap]
    constructor
    · rintro ⟨p, hp, hpr⟩
      exact ⟨p, hsub p hp, hpr⟩
    · rintro ⟨p, hp, hpr⟩
      exact ⟨p, hslot p hp _ (sighting_timestampEastern hpr) hr, hpr⟩
  rw [mem_firstSightings_iff (hone.mono hsub), mem_firstSightings_iff hone, hrows hi]
  refine and_congr_right fun hs ↦ forall_congr' fun r ↦ ?_
  have hsame {rows : List Ping} (hr : r ∈ rows.filterMap (sighting frames static))
      (hbucket : r.timeBucket = s.timeBucket) : slot r.timestampEastern = i := by
    obtain ⟨p, -, hp⟩ := List.mem_filterMap.mp hr
    obtain ⟨q, -, hq⟩ := List.mem_filterMap.mp hs
    rw [sighting_timeBucket hp, sighting_timeBucket hq, slotTime_inj] at hbucket
    exact hbucket.trans hi
  constructor
  · exact fun hle hr hvehicle hbucket ↦ hle ((hrows (hsame hr hbucket)).mpr hr) hvehicle hbucket
  · exact fun hle hr hvehicle hbucket ↦ hle ((hrows (hsame hr hbucket)).mp hr) hvehicle hbucket

theorem slots_congr (hone : OneSighting frames static more) (hsub : ∀ p ∈ pings, p ∈ more)
    (hslot : ∀ p ∈ more, ∀ t, p.timestampEastern = some t → slot t = i → p ∈ pings) :
    (i ∈ closeSlots frames static pings key ↔ i ∈ closeSlots frames static more key) ∧
      (i ∈ farSlots frames static pings key ↔ i ∈ farSlots frames static more key) := by
  have hto : ∀ s, slot s.timestampEastern = i → s ∈ firstSightings frames static pings →
      s ∈ firstSightings frames static more :=
    fun s hs ↦ (firstSightings_congr hone hsub hslot hs).mp
  have hfrom : ∀ s, slot s.timestampEastern = i → s ∈ firstSightings frames static more →
      s ∈ firstSightings frames static pings :=
    fun s hs ↦ (firstSightings_congr hone hsub hslot hs).mpr
  exact ⟨⟨(slots_mono hto).1, (slots_mono hfrom).1⟩, ⟨(slots_mono hto).2, (slots_mono hfrom).2⟩⟩

theorem together_congr (hone : OneSighting frames static more)
    (h : ∀ p, p ∈ pings ↔ p ∈ more) :
    together frames static pings key = together frames static more key := by
  have hslots (i : ℤ) :
      (i ∈ closeSlots frames static pings key ↔ i ∈ closeSlots frames static more key) ∧
        (i ∈ farSlots frames static pings key ↔ i ∈ farSlots frames static more key) :=
    slots_congr hone (fun p ↦ (h p).mp) fun p hp _ _ _ ↦ (h p).mpr hp
  rw [together, together, Set.ext fun i ↦ (hslots i).1, Set.ext fun i ↦ (hslots i).2]

/-! ## A frame after others -/

/-- A frame after the messages `before` were flushed, of which the newest is from `m`. -/
structure Continues (before frame : List Ping) (m : Time) : Prop where
  newest : newest before = some m
  kept : ∀ p ∈ frame, ∀ t, p.timestampEastern = some t → m - seconds overlapSeconds ≤ t
  carried : ∀ p ∈ before, ∀ t, p.timestampEastern = some t → m - seconds overlapSeconds ≤ t →
    p ∈ frame
  later : ∀ p ∈ frame, p ∉ before → ∀ t, p.timestampEastern = some t → m ≤ t

theorem slot_mono {s t : Time} (h : s ≤ t) : slot s ≤ slot t :=
  Int.ediv_le_ediv (seconds_pos (by decide)) h

theorem slot_sub_overlap (t : Time) : slot (t - seconds overlapSeconds) = slot t - 2 := by
  have hoverlap : seconds overlapSeconds = 2 * seconds pollIntervalSeconds := by decide
  rw [slot, hoverlap, slot, sub_eq_add_neg, ← neg_mul,
    Int.add_mul_ediv_right _ _ (seconds_pos (by decide)).ne', ← sub_eq_add_neg]

theorem Continues.mem_frame (h : Continues before frame m) {p : Ping} (hp : p ∈ before ++ frame)
    {t : Time} (ht : p.timestampEastern = some t) (hle : m - seconds overlapSeconds ≤ t) :
    p ∈ frame :=
  (List.mem_append.mp hp).elim (fun hp ↦ h.carried p hp t ht hle) id

/-- **What a frame shows of a pair overlaps with what was known as two windows do.** -/
theorem Continues.overlap (h : Continues before frame m)
    (hone : OneSighting frames static (before ++ frame)) :
    Overlap (together frames static before key) (together frames static (before ++ frame) key)
      (together frames static frame key) (slot m) := by
  obtain ⟨-, hmax⟩ := newest_eq_some.mp h.newest
  have hbefore : ∀ p ∈ before, p ∈ before ++ frame := fun p ↦ List.mem_append_left frame
  have hlast (s : Sighting) (hs : s ∈ firstSightings frames static before) :
      s ∈ firstSightings frames static (before ++ frame) := by
    rw [mem_firstSightings_iff (hone.mono hbefore)] at hs
    obtain ⟨hmem, hleast⟩ := hs
    rw [mem_firstSightings_iff hone, List.filterMap_append]
    refine ⟨List.mem_append_left _ hmem, fun r hr hvehicle hbucket ↦ ?_⟩
    rcases List.mem_append.mp hr with hr | hr
    · exact hleast r hr hvehicle hbucket
    · obtain ⟨p, hp, hpr⟩ := List.mem_filterMap.mp hr
      obtain ⟨q, hq, hqs⟩ := List.mem_filterMap.mp hmem
      by_cases hpb : p ∈ before
      · exact hleast r (List.mem_filterMap.mpr ⟨p, hpb, hpr⟩) hvehicle hbucket
      · exact (hmax q hq _ (sighting_timestampEastern hqs)).trans
          (h.later p hp hpb _ (sighting_timestampEastern hpr))
  refine overlap_bridged (fun i hi ↦ slots_congr hone hbefore fun p hp t ht hslot ↦ ?_)
    (slots_mono fun s _ ↦ hlast s).1 ?_
    (fun i hi ↦ slots_congr hone (fun p ↦ List.mem_append_right before) fun p hp t ht hslot ↦ ?_) ?_
  · -- before the interval of `m` all rows were flushed
    by_contra hnot
    have hmt := slot_mono
      (h.later p ((List.mem_append.mp hp).resolve_left hnot) hnot t ht)
    omega
  · intro i hi
    obtain ⟨p, hp, t, ht, rfl⟩ := exists_row_of_slot hi
    exact slot_mono (hmax p hp t ht)
  · -- after the interval that is cut all rows are in the frame
    refine h.mem_frame hp ht ?_
    by_contra hlt
    have := slot_mono (not_le.mp hlt).le
    rw [slot_sub_overlap] at this
    omega
  · intro i hi
    obtain ⟨p, hp, t, ht, rfl⟩ := exists_row_of_slot hi
    rw [← slot_sub_overlap]
    exact slot_mono (h.kept p hp t ht)

theorem Continues.sees (h : Continues before frame m) (hm : m = slotTime (slot m))
    (hone : OneSighting frames static (before ++ frame)) :
    Sees (together frames static before key) (together frames static (before ++ frame) key)
      (together frames static frame key) (slot m) := by
  have hcut : slotTime (slot m - 2) = m - seconds overlapSeconds := by
    rw [slotTime, sub_mul, ← slotTime, ← hm]
    rfl
  refine sees_bridged (fun i hi ↦ slots_congr hone (fun p ↦ List.mem_append_right before)
    fun p hp t ht hslot ↦ h.mem_frame hp ht ?_) fun i hi ↦ ?_
  · rw [← hcut]
    refine (slotTime_le.mpr (hi.trans_eq hslot.symm)).trans ?_
    exact Int.ediv_mul_le t (seconds_pos (by decide)).ne'
  · obtain ⟨p, hp, t, ht, rfl⟩ := exists_row_of_slot hi
    rw [← slot_sub_overlap]
    exact slot_mono (h.kept p hp t ht)

end GtfsStream.Analytics
