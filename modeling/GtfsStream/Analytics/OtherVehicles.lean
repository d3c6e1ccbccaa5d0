import GtfsStream.Analytics.Overlap

/-!
# The rows of the other vehicles

What a frame yields for a visit or a pair depends on the rows of the vehicles that are part of it.
So the rows without those of one vehicle yield, for everything that does not involve the vehicle,
what the whole frame yields. Only the newest time of a frame is shared by all vehicles.

## Visits and pairs

The key of a visit begins with the vehicle, so the rows of a visit are rows of one vehicle, and what
is computed of them is found again without the others. A pair has rows of two vehicles, of which
only the first one in each bucket counts. Which one this is the unstable sort decides between rows
that tie, so for pairs the rows of one vehicle at one time are asked to be the same.
-/

namespace GtfsStream.Analytics

/-- The rows of the vehicles other than `w`. -/
def others (w : String) (rows : List Ping) : List Ping :=
  (rows.filter (·.vehicleId ≠ w)).map Ping.unnumbered

variable {frames : Frames} {zone : Zone} {static : GtfsStaticData} {w : String}
  {rows rows' : List Ping} {p : Ping} {t : Time}

theorem others_append (rows more : List Ping) :
    others w (rows ++ more) = others w rows ++ others w more := by
  rw [others, List.filter_append, List.map_append]
  rfl

theorem others_singleton (p : Ping) :
    others w [p] = if p.vehicleId = w then [] else [p.unnumbered] := by
  rw [others, List.filter_cons]
  by_cases hp : p.vehicleId = w
  · rw [if_neg (by simp [hp]), if_pos hp]
    rfl
  · rw [if_pos (by simp [hp]), if_neg hp]
    rfl

theorem mem_others : p ∈ others w rows ↔ ∃ q ∈ rows, q.vehicleId ≠ w ∧ q.unnumbered = p := by
  rw [others, List.mem_map]
  simp only [List.mem_filter, decide_eq_true_iff, and_assoc]

/-- A choice that does not look at the offset is made among the other vehicles as in the frame. -/
theorem others_filter {f g : Ping → Bool} (h : ∀ p ∈ rows, p.vehicleId ≠ w → f p = g p.unnumbered) :
    others w (rows.filter f) = (others w rows).filter g := by
  rw [others, others, List.filter_map, List.filter_filter, List.filter_filter]
  congr 1
  refine List.filter_congr fun p hp ↦ ?_
  by_cases hw : p.vehicleId = w
  · rw [decide_eq_false (not_not.mpr hw), Bool.false_and, Bool.and_false]
  · rw [h p hp hw, Bool.and_comm]
    rfl

/-! ## Visits -/

section

variable {key : VisitKey} {r : DeviationResult}

theorem visitRows_others (hkey : key.1 ≠ w) :
    visitRows (others w rows) key = (visitRows rows key).map Ping.unnumbered := by
  have hvehicle (p : Ping) (hp : p.visitKey = some key) : p.vehicleId ≠ w :=
    vehicleId_of_visitKey hp ▸ hkey
  rw [visitRows, visitRows, others, List.filter_map, List.filter_filter]
  congr 1
  refine List.filter_congr fun p _ ↦ ?_
  change (decide _ && decide (p.vehicleId ≠ w)) = decide _
  rw [← Bool.decide_and]
  exact decide_eq_decide.mpr ⟨And.left, fun h ↦ ⟨h, hvehicle p h.2.2⟩⟩

theorem firstArrival_others (hkey : key.1 ≠ w) :
    firstArrival (others w rows) key = firstArrival rows key := by
  rw [firstArrival, firstArrival, earliest, earliest, visitRows_others hkey, List.filterMap_map]
  rfl

/-- Frames that agree on the other vehicles agree on the first arrivals of the others. -/
theorem firstArrival_congr_others (h : others w rows = others w rows') (hkey : key.1 ≠ w) :
    firstArrival rows key = firstArrival rows' key := by
  rw [← firstArrival_others hkey, h, firstArrival_others hkey]

theorem dated_congr_others (h : others w rows = others w rows') (hkey : key.1 ≠ w) :
    Dated zone static rows key ↔ Dated zone static rows' key := by
  have hnil (rows : List Ping) : visitRows rows key ≠ [] ↔ visitRows (others w rows) key ≠ [] := by
    rw [visitRows_others hkey, ne_eq, ne_eq, List.map_eq_nil_iff]
  rw [Dated, Dated, firstArrival_congr_others h hkey, hnil, hnil rows', h]

/-- Their arrivals that pass the gate are the same, as long as the arrivals can be computed in both
frames or in none. -/
theorem mem_gatedArrivals_congr (h : others w rows = others w rows')
    (harrivals : (windowArrivals zone static rows).isSome ↔
      (windowArrivals zone static rows').isSome) (hr : r.vehicleId ≠ w) :
    r ∈ gatedArrivals zone static rows ↔ r ∈ gatedArrivals zone static rows' := by
  cases hsome : windowArrivals zone static rows with
  | none =>
    rw [hsome] at harrivals
    have hnone : windowArrivals zone static rows' = none :=
      Option.not_isSome_iff_eq_none.mp (mt harrivals.mpr Bool.false_ne_true)
    rw [gatedArrivals, gatedArrivals, hsome, hnone]
  | some results =>
    rw [hsome] at harrivals
    have hsome : (windowArrivals zone static rows).isSome := hsome ▸ rfl
    rw [mem_gatedArrivals hsome, mem_gatedArrivals (harrivals.mp rfl)]
    refine exists_congr fun key ↦ exists_congr fun scheduled ↦ exists_congr fun t ↦
      and_congr_right fun _ ↦ and_congr_left fun hresult ↦ ?_
    rw [hresult.1] at hr
    rw [firstArrival_congr_others h hr]

end

/-! ## Pairs -/

section

variable {key : PairKey} {s : Sighting} {row : PairRow}

/-- The vehicle is no part of the pair. -/
def PairKey.Without (w : String) (key : PairKey) : Prop := key.vehicleA ≠ w ∧ key.vehicleB ≠ w

theorem mem_sightings_others : s ∈ (others w rows).filterMap (sighting frames static) ↔
    s ∈ rows.filterMap (sighting frames static) ∧ s.vehicleId ≠ w := by
  rw [List.mem_filterMap, List.mem_filterMap]
  constructor
  · rintro ⟨p, hp, hs⟩
    obtain ⟨q, hq, hvehicle, rfl⟩ := mem_others.mp hp
    have hs : sighting frames static q = some s := hs
    exact ⟨⟨q, hq, hs⟩, (sighting_vehicleId hs).trans_ne hvehicle⟩
  · rintro ⟨⟨q, hq, hs⟩, hvehicle⟩
    exact ⟨q.unnumbered, mem_others.mpr ⟨q, hq, (sighting_vehicleId hs) ▸ hvehicle, rfl⟩, hs⟩

theorem mem_firstSightings_others (hone : OneSighting frames static (others w rows))
    (hs : s.vehicleId ≠ w) : s ∈ firstSightings frames static (others w rows) ↔
      s ∈ firstSightings frames static rows := by
  have hvehicle : ∀ r ∈ rows.filterMap (sighting frames static),
      ∀ q ∈ rows.filterMap (sighting frames static), r.vehicleId = s.vehicleId →
        q.vehicleId = s.vehicleId → r.timestampEastern = q.timestampEastern → r = q :=
    fun r hr q hq hr' hq' ↦ hone r (mem_sightings_others.mpr ⟨hr, hr' ▸ hs⟩) q
      (mem_sightings_others.mpr ⟨hq, hq' ▸ hs⟩) (hr'.trans hq'.symm)
  rw [mem_firstSightings_iff hone, mem_firstSightings_of_vehicle hvehicle, mem_sightings_others,
    and_iff_left hs]
  refine and_congr_right fun _ ↦ forall_congr' fun r ↦ ?_
  constructor
  · exact fun h hr hr' ↦ h (mem_sightings_others.mpr ⟨hr, hr' ▸ hs⟩) hr'
  · exact fun h hr ↦ h (mem_sightings_others.mp hr).1

theorem mem_findClosePairs_others (hone : OneSighting frames static (others w rows))
    (hkey : key.Without w) (hrow : row.key = some key) :
    (row ∈ (findClosePairs frames static (others w rows)).1 ↔
        row ∈ (findClosePairs frames static rows).1) ∧
      (row ∈ (findClosePairs frames static (others w rows)).2 ↔
        row ∈ (findClosePairs frames static rows).2) := by
  have hpair {a b : Sighting} (hab : pairRow frames (a, b) = row) :
      (a, b) ∈ candidatePairs (firstSightings frames static (others w rows)) ↔
        (a, b) ∈ candidatePairs (firstSightings frames static rows) := by
    rw [← hab] at hrow
    obtain ⟨route, -, rfl⟩ := Option.map_eq_some_iff.mp hrow
    rw [mem_candidatePairs, mem_candidatePairs, mem_firstSightings_others hone hkey.1,
      mem_firstSightings_others hone hkey.2]
  constructor
  · rw [mem_findClosePairs.1, mem_findClosePairs.1]
    exact exists_congr fun a ↦ exists_congr fun b ↦ and_congr_left fun h ↦ hpair h.2.2
  · rw [mem_findClosePairs.2, mem_findClosePairs.2]
    exact exists_congr fun a ↦ exists_congr fun b ↦ and_congr_left fun h ↦ hpair h.2

theorem pairGroup_others (hone : OneSighting frames static (others w rows)) (hkey : key.Without w) :
    pairGroup (findClosePairs frames static (others w rows)).1 key =
      pairGroup (findClosePairs frames static rows).1 key := by
  have hnodup (rows : List Ping) : (pairGroup (findClosePairs frames static rows).1 key).Nodup := by
    refine List.Pairwise.imp ?_ pairGroup_strict
    rintro r s hlt rfl
    exact lt_irrefl _ hlt
  have hperm : (pairGroup (findClosePairs frames static (others w rows)).1 key).Perm
      (pairGroup (findClosePairs frames static rows).1 key) := by
    refine (List.perm_ext_iff_of_nodup (hnodup _) (hnodup _)).mpr fun row ↦ ?_
    rw [mem_pairGroup, mem_pairGroup]
    exact and_congr_left fun hrow ↦ (mem_findClosePairs_others hone hkey hrow).1
  -- both are sorted by the slot, which two rows of a pair never share
  exact hperm.eq_of_pairwise (fun r s _ _ hrs hsr ↦ absurd hrs hsr.not_gt) pairGroup_strict
    pairGroup_strict

/-- **A pair of other vehicles has the same events** without the rows of the vehicle. -/
theorem pairEvents_others (hone : OneSighting frames static (others w rows))
    (hkey : key.Without w) :
    pairEvents frames static (others w rows) key = pairEvents frames static rows key := by
  have hbuckets (b : Time) :
      b ∈ separatedBuckets (some (findClosePairs frames static (others w rows)).2) key ↔
        b ∈ separatedBuckets (some (findClosePairs frames static rows).2) key := by
    rw [mem_separatedBuckets, mem_separatedBuckets]
    exact exists_congr fun row ↦ and_congr_left fun h ↦ (mem_findClosePairs_others hone hkey h.1).2
  have hconsecutive (s t : Time) :
      isConsecutive (some (findClosePairs frames static (others w rows)).2) key s t =
        isConsecutive (some (findClosePairs frames static rows).2) key s t := by
    rw [isConsecutive, isConsecutive]
    have hany : ((separatedBuckets (some (findClosePairs frames static (others w rows)).2) key).any
        fun b ↦ s < b ∧ b < t) =
          (separatedBuckets (some (findClosePairs frames static rows).2) key).any
            fun b ↦ s < b ∧ b < t := by
      rw [Bool.eq_iff_iff, List.any_eq_true, List.any_eq_true]
      exact exists_congr fun b ↦ and_congr_left fun _ ↦ hbuckets b
    simp only [hany]
  rw [pairEvents, windowEvents, filter_detectBunchingEvents, pairEvents, windowEvents,
    filter_detectBunchingEvents, pairGroup_others hone hkey, groupEvents, groupEvents]
  simp only [hconsecutive]

end

end GtfsStream.Analytics
