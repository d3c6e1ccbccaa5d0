import GtfsStream.Analytics.Bunching

/-!
# The events of one pair

The events that a frame yields for one pair depend on the rows of that pair alone: they are the
runs of its sorted rows. So they follow each other in time, each beginning after the end of the one
before.
-/

namespace GtfsStream.Analytics

variable {n : ℕ} {separated : Option (List PairRow)} {key : PairKey} {e : BunchingEvent}

/-! ## One run -/

theorem runEvent_key {run : List PairRow} (h : runEvent key run = some e) : e.key = key := by
  cases run with
  | nil => exact absurd h nofun
  | cons row rest =>
    rw [← Option.some.inj h]
    rfl

/-- The first and the last bucket of a run. -/
def runSpan (run : List PairRow) : Time × Time :=
  ((run.head?.map PairRow.timeBucket).getD 0, (run.getLast?.map PairRow.timeBucket).getD 0)

theorem runEvent_span {run : List PairRow} (h : runEvent key run = some e) :
    (e.startTime, e.endTime) = runSpan run := by
  cases run with
  | nil => exact absurd h nofun
  | cons row rest =>
    rw [← Option.some.inj h, runSpan, List.getLast?_eq_some_getLast (List.cons_ne_nil row rest)]
    rfl

theorem groupEvents_key {group : List PairRow} (h : e ∈ groupEvents n separated key group) :
    e.key = key := by
  obtain ⟨run, -, hrun⟩ := List.mem_filterMap.mp h
  exact runEvent_key hrun

theorem groupEvents_nil : groupEvents n separated key [] = [] := rfl

/-! ## The order of the events -/

theorem lt_of_not_isConsecutive {rows : List PairRow} {earlier later : Time}
    (hle : earlier ≤ later) (h : isConsecutive (some rows) key earlier later = false) :
    earlier < later := by
  refine lt_of_le_of_ne hle fun heq ↦ ?_
  rw [isConsecutive, heq, sub_self, if_neg (seconds_pos (by decide)).ne] at h
  have hnone : ((separatedBuckets (some rows) key).any fun b ↦ later < b ∧ b < later) = false := by
    refine List.any_eq_false.mpr fun b _ hb ↦ ?_
    obtain ⟨hlt, hgt⟩ := of_decide_eq_true hb
    exact absurd hlt hgt.not_gt
  have htolerated : 0 ≤ seconds (pollIntervalSeconds * consecutiveToleranceFactor) := by decide
  dsimp only at h
  rw [hnone, decide_eq_true htolerated] at h
  exact absurd h nofun

/-- Intervals in order, of which no two neighbours touch, do not touch at all. -/
theorem pairwise_of_isChain {α : Type*} {span : α → Time × Time} {l : List α}
    (hchain : l.IsChain fun a b ↦ (span a).2 ≠ (span b).1)
    (horder : l.Pairwise fun a b ↦ (span a).1 ≤ (span b).1 ∧ (span a).2 ≤ (span b).1) :
    l.Pairwise fun a b ↦ (span a).2 < (span b).1 := by
  induction l with
  | nil => exact List.Pairwise.nil
  | cons a l ih =>
    rw [List.pairwise_cons] at horder
    refine List.pairwise_cons.mpr ⟨fun b hb ↦ ?_, ih hchain.tail horder.2⟩
    cases l with
    | nil => exact absurd hb List.not_mem_nil
    | cons c l =>
      have hac : (span a).2 < (span c).1 :=
        lt_of_le_of_ne (horder.1 c List.mem_cons_self).2 (List.isChain_cons_cons.mp hchain).1
      rcases List.mem_cons.mp hb with rfl | hb
      · exact hac
      · exact hac.trans_le ((List.pairwise_cons.mp horder.2).1 b hb).1

/-- Events in the order of time. -/
structure InOrder (events : List BunchingEvent) : Prop where
  span : ∀ e ∈ events, e.startTime ≤ e.endTime
  apart : events.Pairwise fun e f ↦ e.endTime < f.startTime

theorem InOrder.tail {events : List BunchingEvent} (h : InOrder (e :: events)) : InOrder events :=
  ⟨fun f hf ↦ h.span f (List.mem_cons_of_mem _ hf), (List.pairwise_cons.mp h.apart).2⟩

theorem InOrder.endTime_lt {events : List BunchingEvent} {f : BunchingEvent}
    (h : InOrder (e :: events)) (hf : f ∈ events) : e.endTime < f.endTime :=
  ((List.pairwise_cons.mp h.apart).1 f hf).trans_le (h.span f (List.mem_cons_of_mem _ hf))

theorem runSpan_of_ne_nil {run : List PairRow} (h : run ≠ []) :
    runSpan run = ((run.head h).timeBucket, (run.getLast h).timeBucket) := by
  rw [runSpan, List.head?_eq_some_head h, List.getLast?_eq_some_getLast h]
  rfl

theorem groupEvents_inOrder {rows group : List PairRow}
    (hsorted : group.Pairwise fun r s ↦ r.timeBucket ≤ s.timeBucket) :
    InOrder (groupEvents n (some rows) key group) := by
  let r (a b : PairRow) : Bool := isConsecutive (some rows) key a.timeBucket b.timeBucket
  have hflatten := List.pairwise_flatten.mp ((List.flatten_splitBy r group).symm ▸ hsorted)
  have hne {run : List PairRow} (hrun : run ∈ group.splitBy r) : run ≠ [] :=
    List.ne_nil_of_mem_splitBy hrun
  -- the rows of one run come before those of the next, and the two do not share a bucket
  have horder : (group.splitBy r).Pairwise fun a b ↦
      (runSpan a).1 ≤ (runSpan b).1 ∧ (runSpan a).2 ≤ (runSpan b).1 := by
    refine hflatten.2.imp_of_mem fun {a b} ha hb hab ↦ ?_
    rw [runSpan_of_ne_nil (hne ha), runSpan_of_ne_nil (hne hb)]
    exact ⟨hab _ (List.head_mem _) _ (List.head_mem _),
      hab _ (List.getLast_mem _) _ (List.head_mem _)⟩
  have hchain : (group.splitBy r).IsChain fun a b ↦ (runSpan a).2 ≠ (runSpan b).1 := by
    refine (List.isChain_getLast_head_splitBy r group).imp fun a b ⟨ha, hb, hab⟩ ↦ ?_
    rw [runSpan_of_ne_nil ha, runSpan_of_ne_nil hb]
    intro heq
    exact (lt_of_not_isConsecutive heq.le hab).ne heq
  have hspan {run : List PairRow} (hrun : run ∈ group.splitBy r) :
      (runSpan run).1 ≤ (runSpan run).2 := by
    rw [runSpan_of_ne_nil (hne hrun)]
    have hpairwise := hflatten.1 run hrun
    generalize hne hrun = hnil
    cases run with
    | nil => exact absurd rfl hnil
    | cons row rest =>
      rcases List.mem_cons.mp (List.getLast_mem hnil) with hlast | hlast
      · rw [hlast, List.head_cons]
      · exact (List.pairwise_cons.mp hpairwise).1 _ hlast
  constructor
  · intro e he
    obtain ⟨run, hrun, hevent⟩ := List.mem_filterMap.mp he
    have := hspan (List.mem_of_mem_filter hrun)
    rwa [← runEvent_span hevent] at this
  · refine List.pairwise_filterMap.mpr ?_
    refine ((pairwise_of_isChain hchain horder).sublist List.filter_sublist).imp ?_
    intro a b hab e he f hf
    rw [← runEvent_span he, ← runEvent_span hf] at hab
    exact hab

/-! ## The rows of one pair -/

/-- The sorted rows of one pair. -/
def pairGroup (closePairs : List PairRow) (key : PairKey) : List PairRow :=
  (closePairs.insertionSort (·.sortKey ≤ ·.sortKey)).filter (·.key = some key)

theorem pairGroup_sorted (closePairs : List PairRow) (key : PairKey) :
    (pairGroup closePairs key).Pairwise fun r s ↦ r.timeBucket ≤ s.timeBucket := by
  have htotal : Std.Total fun r s : PairRow ↦ r.sortKey ≤ s.sortKey := ⟨fun r s ↦ le_total _ _⟩
  have htrans : IsTrans PairRow fun r s ↦ r.sortKey ≤ s.sortKey := ⟨fun r s t ↦ le_trans⟩
  have hsorted := List.pairwise_insertionSort (fun r s : PairRow ↦ r.sortKey ≤ s.sortKey) closePairs
  refine (hsorted.sublist List.filter_sublist).imp_of_mem fun {r s} hr hs hrs ↦ ?_
  -- rows of one pair only differ in the last column that they are sorted by
  have hkey : r.key = s.key :=
    (of_decide_eq_true (List.mem_filter.mp hr).2).trans
      (of_decide_eq_true (List.mem_filter.mp hs).2).symm
  obtain ⟨route, hroute⟩ : ∃ route, r.routeId = some route :=
    Option.map_eq_some_iff.mp (of_decide_eq_true (List.mem_filter.mp hr).2) |>.imp fun _ h ↦ h.1
  obtain ⟨route', hroute'⟩ : ∃ route, s.routeId = some route :=
    Option.map_eq_some_iff.mp (of_decide_eq_true (List.mem_filter.mp hs).2) |>.imp fun _ h ↦ h.1
  rw [PairRow.key, PairRow.key, hroute, hroute', Option.map_some, Option.map_some,
    Option.some.injEq, PairKey.mk.injEq] at hkey
  obtain ⟨hroutes, hdirection, ha, hb⟩ := hkey
  rw [PairRow.sortKey, PairRow.sortKey, hroute, hroute', hroutes, hdirection, ha, hb] at hrs
  simpa only [Prod.Lex.toLex_le_toLex, lt_irrefl, true_and, false_or] using hrs

theorem filter_detectBunchingEvents (closePairs : List PairRow)
    (separatedPairs : Option (List PairRow)) (minConsecutive : ℕ) (key : PairKey) :
    (detectBunchingEvents closePairs separatedPairs minConsecutive).filter (·.key = key) =
      groupEvents minConsecutive separatedPairs key (pairGroup closePairs key) :=
  Rows.filter_flatMap_groupBy (f := groupEvents minConsecutive separatedPairs)
    (fun _ _ _ he ↦ groupEvents_key he) (fun _ ↦ groupEvents_nil) key

theorem detectBunchingEvents_inOrder (closePairs separatedPairs : List PairRow)
    (minConsecutive : ℕ) (key : PairKey) :
    InOrder ((detectBunchingEvents closePairs (some separatedPairs) minConsecutive).filter
      (·.key = key)) := by
  rw [filter_detectBunchingEvents]
  exact groupEvents_inOrder (pairGroup_sorted closePairs key)

end GtfsStream.Analytics
