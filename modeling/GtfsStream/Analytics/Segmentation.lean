import GtfsStream.Analytics.Sightings
import GtfsStream.Library.Runs

/-!
# The segmentation of close buckets

The events of a pair are the maximal runs of its close buckets that are long enough, each described
by its first and last bucket, its size and its smallest distance. Which they are depends on which
rows the pair has, and on nothing else in the two frames.
-/

namespace GtfsStream.Analytics

variable {n : ℕ} {closePairs rows : List PairRow} {separated : Option (List PairRow)}
  {key : PairKey} {run : List PairRow} {e : BunchingEvent}

/-! ## The loop over a group -/

/-- The loop of `detect_bunching_events` over one group. -/
def scanGroup (minConsecutive : ℕ) (separatedPairs : Option (List PairRow)) (key : PairKey)
    (group : List PairRow) : List BunchingEvent :=
  Runs.scan (fun r s ↦ isConsecutive separatedPairs key r.timeBucket s.timeBucket)
    (fun run ↦ if minConsecutive ≤ run.length then (runEvent key run).toList else []) group

theorem scanGroup_eq (minConsecutive : ℕ) (separatedPairs : Option (List PairRow))
    (key : PairKey) (group : List PairRow) :
    scanGroup minConsecutive separatedPairs key group =
      groupEvents minConsecutive separatedPairs key group := by
  rw [scanGroup, Runs.scan_eq, groupEvents]
  induction group.splitBy fun r s ↦
    isConsecutive separatedPairs key r.timeBucket s.timeBucket with
  | nil => rfl
  | cons run runs ih =>
    rw [List.flatMap_cons, ih, List.filter_cons]
    split_ifs with hlong hlong' hlong'
    · rw [List.filterMap_cons]
      cases runEvent key run <;> rfl
    · exact absurd (decide_eq_true hlong) hlong'
    · exact absurd (of_decide_eq_true hlong') hlong
    · rfl

/-! ## What a run is -/

/-- The second of two successive close buckets belongs to the run of the first: it is the next one,
or one bucket was missed, and the pair is known not to have been apart in between. -/
def Linked (separated : Option (List PairRow)) (key : PairKey) (earlier later : Time) : Prop :=
  later - earlier = seconds 15 ∨
    ∃ rows, separated = some rows ∧ later - earlier ≤ seconds 30 ∧
      ∀ row ∈ rows, row.key = some key → ¬(earlier < row.timeBucket ∧ row.timeBucket < later)

theorem isConsecutive_eq_true {earlier later : Time} :
    isConsecutive separated key earlier later = true ↔ Linked separated key earlier later := by
  have hone : seconds pollIntervalSeconds = seconds 15 := rfl
  have htwo : seconds (pollIntervalSeconds * consecutiveToleranceFactor) = seconds 30 := rfl
  unfold isConsecutive Linked
  rw [hone, htwo]
  dsimp only
  split_ifs with hnext
  · exact iff_of_true rfl (Or.inl hnext)
  · rw [or_iff_right hnext]
    cases separated with
    | none => exact iff_of_false Bool.false_ne_true (by simp)
    | some rows =>
      have hbroken : ((separatedBuckets (some rows) key).any fun b ↦ earlier < b ∧ b < later) =
          true ↔ ∃ row ∈ rows, row.key = some key ∧
            (earlier < row.timeBucket ∧ row.timeBucket < later) := by
        rw [List.any_eq_true]
        constructor
        · rintro ⟨b, hb, hlt⟩
          obtain ⟨row, hrow, hkey, rfl⟩ := mem_separatedBuckets.mp hb
          exact ⟨row, hrow, hkey, of_decide_eq_true hlt⟩
        · rintro ⟨row, hrow, hkey, hlt⟩
          exact ⟨_, mem_separatedBuckets.mpr ⟨row, hrow, hkey, rfl⟩, decide_eq_true hlt⟩
      dsimp only
      rw [Bool.and_eq_true, decide_eq_true_iff, Bool.not_eq_true', ← Bool.not_eq_true, hbroken]
      constructor
      · rintro ⟨hle, hnone⟩
        exact ⟨rows, rfl, hle, fun row hrow hkey hlt ↦ hnone ⟨row, hrow, hkey, hlt⟩⟩
      · rintro ⟨rows', heq, hle, hnone⟩
        obtain rfl := Option.some.inj heq
        exact ⟨hle, fun ⟨row, hrow, hkey, hlt⟩ ↦ hnone row hrow hkey hlt⟩

/-- A maximal run of the close buckets of a pair. -/
def PairRun (closePairs : List PairRow) (separated : Option (List PairRow)) (key : PairKey)
    (run : List PairRow) : Prop :=
  Runs.MaximalRun (fun r s ↦ Linked separated key r.timeBucket s.timeBucket) PairRow.timeBucket
    (fun row ↦ row ∈ closePairs ∧ row.key = some key) run

/-- What an event says about a run. -/
structure Describes (key : PairKey) (e : BunchingEvent) (run : List PairRow) : Prop where
  key : e.key = key
  first : run.head?.map PairRow.timeBucket = some e.startTime
  last : run.getLast?.map PairRow.timeBucket = some e.endTime
  size : e.observationCount = run.length
  least : (run.map PairRow.distanceMeters).min? = some e.minDistanceMeters

theorem describes_of_runEvent (h : runEvent key run = some e) : Describes key e run := by
  cases run with
  | nil => exact absurd h.symm (Option.some_ne_none e)
  | cons row rest =>
    rw [← Option.some.inj h]
    refine ⟨rfl, rfl, ?_, rfl, ?_⟩
    · rw [List.getLast?_eq_some_getLast (List.cons_ne_nil row rest), Option.map_some]
    · rw [List.map_cons, List.min?_cons']

/-! ## The events of a pair -/

theorem mem_splitBy_pairGroup (hone : OneRow closePairs) :
    run ∈ (pairGroup closePairs key).splitBy
        (fun r s ↦ isConsecutive separated key r.timeBucket s.timeBucket) ↔
      PairRun closePairs separated key run := by
  rw [Runs.mem_splitBy_iff (pairGroup_strict_of_oneRow hone key), PairRun]
  simp only [isConsecutive_eq_true, mem_pairGroup]

theorem pairGroup_congr (hone : OneRow closePairs) (hone' : OneRow rows)
    (h : ∀ row, row.key = some key → (row ∈ closePairs ↔ row ∈ rows)) :
    pairGroup closePairs key = pairGroup rows key := by
  have hstrict := pairGroup_strict_of_oneRow hone key
  have hstrict' := pairGroup_strict_of_oneRow hone' key
  have hnodup {l : List PairRow} (hl : l.Pairwise fun r s ↦ r.timeBucket < s.timeBucket) :
      l.Nodup := hl.imp fun {r s} hlt heq ↦ absurd hlt (by rw [heq]; exact lt_irrefl _)
  refine List.Perm.eq_of_pairwise ?_ hstrict hstrict' ?_
  · exact fun r s _ _ hrs hsr ↦ absurd hrs hsr.not_gt
  · rw [List.perm_ext_iff_of_nodup (hnodup hstrict) (hnodup hstrict')]
    intro row
    rw [mem_pairGroup, mem_pairGroup]
    exact and_congr_left (h row)

theorem linked_congr {separated' : Option (List PairRow)}
    (hnone : separated = none ↔ separated' = none)
    (h : ∀ row, row.key = some key → (row ∈ separated.getD [] ↔ row ∈ separated'.getD []))
    (earlier later : Time) :
    isConsecutive separated key earlier later = isConsecutive separated' key earlier later := by
  rw [Bool.eq_iff_iff, isConsecutive_eq_true, isConsecutive_eq_true, Linked, Linked]
  refine or_congr_right ?_
  cases separated with
  | none => rw [hnone.mp rfl]
  | some rows =>
    cases separated' with
    | none => exact absurd (hnone.mpr rfl) (Option.some_ne_none rows)
    | some rows' =>
      have hrows : ∀ row, row.key = some key → (row ∈ rows ↔ row ∈ rows') := h
      simp only [Option.some.injEq, exists_eq_left']
      refine and_congr_right fun _ ↦ forall_congr' fun row ↦ ?_
      exact ⟨fun hfar hrow hkey ↦ hfar ((hrows row hkey).mpr hrow) hkey,
        fun hfar hrow hkey ↦ hfar ((hrows row hkey).mp hrow) hkey⟩

/-- **Close buckets are segmented exactly.** The events of a pair describe, one by one and in the
order of time, its maximal runs that are long enough; and they are the same for all frames in which
the pair has the same rows. -/
theorem detectBunchingEvents_segments (closePairs : List PairRow)
    (separated : Option (List PairRow)) (n : ℕ) (hone : OneRow closePairs) (key : PairKey) :
    (∃ runs : List (List PairRow),
      (∀ run, run ∈ runs ↔ PairRun closePairs separated key run) ∧
      (runs.Pairwise fun run run' ↦ ∀ r ∈ run, ∀ s ∈ run', r.timeBucket < s.timeBucket) ∧
      List.Forall₂ (Describes key)
        ((detectBunchingEvents closePairs separated n).filter (·.key = key))
        (runs.filter (n ≤ ·.length))) ∧
    ∀ (closePairs' : List PairRow) (separated' : Option (List PairRow)), OneRow closePairs' →
      (∀ row, row.key = some key → (row ∈ closePairs ↔ row ∈ closePairs')) →
      (separated = none ↔ separated' = none) →
      (∀ row, row.key = some key → (row ∈ separated.getD [] ↔ row ∈ separated'.getD [])) →
      (detectBunchingEvents closePairs' separated' n).filter (·.key = key) =
        (detectBunchingEvents closePairs separated n).filter (·.key = key) := by
  refine ⟨⟨(pairGroup closePairs key).splitBy fun r s ↦
      isConsecutive separated key r.timeBucket s.timeBucket, fun run ↦ mem_splitBy_pairGroup hone,
      Runs.pairwise_splitBy (pairGroup_strict_of_oneRow hone key), ?_⟩,
    fun closePairs' separated' hone' hclose hnone hfar ↦ ?_⟩
  · rw [filter_detectBunchingEvents, groupEvents]
    have hne : ∀ run ∈ (pairGroup closePairs key).splitBy (fun r s ↦
        isConsecutive separated key r.timeBucket s.timeBucket), run ≠ [] :=
      fun run ↦ List.ne_nil_of_mem_splitBy
    have hne' := fun run hrun ↦ hne run (List.mem_of_mem_filter (p := (n ≤ ·.length)) hrun)
    generalize ((pairGroup closePairs key).splitBy fun r s ↦
      isConsecutive separated key r.timeBucket s.timeBucket).filter (n ≤ ·.length) = runs at hne'
    -- one event for each run, whatever the runs are
    induction runs with
    | nil => exact List.Forall₂.nil
    | cons run runs ih =>
      obtain ⟨e, he⟩ : ∃ e, runEvent key run = some e := by
        cases run with
        | nil => exact absurd rfl (hne' [] List.mem_cons_self)
        | cons row rest => exact ⟨_, rfl⟩
      rw [List.filterMap_cons_some he]
      exact List.Forall₂.cons (describes_of_runEvent he)
        (ih fun run hrun ↦ hne' run (List.mem_cons_of_mem _ hrun))
  · rw [filter_detectBunchingEvents, filter_detectBunchingEvents, pairGroup_congr hone hone' hclose,
      groupEvents, groupEvents]
    simp only [linked_congr hnone hfar]

/-- A pair that is close in the first, third and fifth poll interval. -/
def everyOtherBucket : List PairRow :=
  [0, 30, 60].map fun n ↦
    { routeId := some "R", directionId := 0, vehicleA := "A", vehicleB := "B"
      timeBucket := seconds n, distanceMeters := 50 }

/-- It was apart in the fourth. -/
def apartOnce : List PairRow :=
  [{ routeId := some "R", directionId := 0, vehicleA := "A", vehicleB := "B"
     timeBucket := seconds 45, distanceMeters := 500 }]

theorem detectBunchingEvents_segments_everyOtherBucket :
    ∃ runs : List (List PairRow),
      (∀ run, run ∈ runs ↔ PairRun everyOtherBucket (some apartOnce) ⟨"R", 0, "A", "B"⟩ run) ∧
      (runs.Pairwise fun run run' ↦ ∀ r ∈ run, ∀ s ∈ run', r.timeBucket < s.timeBucket) ∧
      List.Forall₂ (Describes ⟨"R", 0, "A", "B"⟩)
        ((detectBunchingEvents everyOtherBucket (some apartOnce) 1).filter
          (·.key = ⟨"R", 0, "A", "B"⟩))
        (runs.filter (1 ≤ ·.length)) := by
  have hone : OneRow everyOtherBucket := by
    have hdistinct : everyOtherBucket.Pairwise fun r s ↦ r.timeBucket ≠ s.timeBucket := by
      decide +kernel
    exact hdistinct.imp fun h key _ _ ↦ h
  exact (detectBunchingEvents_segments everyOtherBucket (some apartOnce) 1 hone
    ⟨"R", 0, "A", "B"⟩).1

/-- The separation breaks the second of the two gaps. -/
example : (detectBunchingEvents everyOtherBucket (some apartOnce) 1).map
    (fun e ↦ (e.startTime, e.endTime, e.observationCount)) =
      [(0, seconds 30, 2), (seconds 60, seconds 60, 1)] := by
  decide +kernel

end GtfsStream.Analytics
