import GtfsStream.Analytics.Turns
import GtfsStream.Analytics.WindowSpec
import GtfsStream.Library.History

/-!
# One sample for each stop visit

The windows of a run see a visit piece by piece, and each sees as its arrival the earliest piece it
has. A window whose arrivals cannot be computed emits nothing and remembers nothing; the others are
scored. A scored window emits its own arrival if that passes the gate and the tracker does not know
the visit: because the first arrival came in windows that were not scored, because it did not pass
the gate, or because it was purged since.

## The argument

The frames of a run are first taken as given. What they emit for one visit is a function of the
earliest times that they show of it, so a tracker with one entry describes the state in between. As
long as the entry is the first arrival, or the first arrival did not pass the gate, a frame emits
nothing it should not; the first frame that is late is the one that breaks the property, and from
then on it stays broken. So one sample is emitted exactly if no frame is late.

Then the run is led back to its scored frames. A frame has rows that were received before, and the
rows that it carries forward are no older than what it leaves behind. So the first frame with rows
of the visit shows the earliest row that was received of it, if the messages come in order.
-/

open GtfsStream.History

namespace GtfsStream.Analytics

open Rows (truncate)

/-! ## The samples of a visit -/

section

variable (zone : Zone) (scheduled : ℕ) (key : VisitKey)

/-- An arrival at this time passes the gate. -/
def inGate (t : Time) : Bool := withinGate (arrivalAt zone scheduled key t)

def arrivalKey : DeviationKey := (key.1, key.2.1, truncate key.2.2, .arrival)

/-- The times of the arrivals that a window emits for the visit. -/
def WindowResult.samples (result : WindowResult) : List Time :=
  (result.newDeviations.filter fun r ↦ r.key = arrivalKey key).map DeviationResult.actualAt

/-- The times of the arrivals emitted for the visit so far. -/
def samples (log : List Event) : List Time :=
  log.flatMap fun e ↦ match e with
    | .handed _ result _ => result.samples key
    | _ => []

/-- At most one arrival is emitted for the visit, and it is the earliest of the stream. -/
def OneFirstArrival (log : List Event) : Prop :=
  (samples key log).length ≤ 1 ∧
    ∀ t ∈ samples key log, firstArrival (messages log) key = some t

/-- A frame before this one has rows of the visit. -/
def Visited (frames : List (List Ping)) : Prop := ∃ f ∈ frames, visitRows f key ≠ []

/-- The arrival of the visit in the first frame that has one. -/
def opening (frames : List (List Ping)) : Option Time := frames.findSome? (firstArrival · key)

/-- A frame whose arrival passes the gate shows the first arrival of the stream and is the first
with rows of the visit, or it comes while the tracker still has the first arrival, which passed the
gate in the first frame with rows of the visit. -/
def NoLateSample (first : Time) (frames : List (List Ping)) : Prop :=
  AtEach (fun before f ↦
    ∀ t, firstArrival f key = some t → inGate zone scheduled key t = true →
      t = first ∧ ¬Visited key before ∨
        opening key before = some first ∧ inGate zone scheduled key first = true ∧
          ∀ g ∈ before, retained (newest g) first = true) frames

/-- The frame that the turn hands to the sink, if its arrivals can be computed. -/
def Consumer.scored (cfg : Settings) (s : Consumer) (turn : Turn) : Option (List Ping) :=
  (s.handing cfg turn).bind fun (static, f) ↦
    if (windowArrivals cfg.zone static f).isSome then some f else none

/-- The scored frames of a run. -/
def Consumer.scoredFrames (cfg : Settings) : Consumer → List Turn → List (List Ping)
  | _, [] => []
  | s, turn :: turns => (s.scored cfg turn).toList ++
    match s.step cfg turn with
    | some s => s.scoredFrames cfg turns
    | none => []

end

/-! ## One window -/

section

variable {frames : Frames} {zone : Zone} {static : GtfsStaticData} {m : Memory} {pings : List Ping}
  {key : VisitKey} {scheduled : ℕ}

theorem eq_of_arrivalKey {static' : GtfsStaticData} {key' : VisitKey}
    (hkey' : (scheduledArrival static key').isSome) (hkey : (scheduledArrival static' key).isSome)
    (h : arrivalKey key' = arrivalKey key) : key' = key := by
  obtain ⟨hvehicle, hrest⟩ := Prod.mk.inj h
  obtain ⟨htrip, hrest⟩ := Prod.mk.inj hrest
  have hsequence := congrArg (Int.cast : ℤ → ℚ) (Prod.mk.inj hrest).1
  rw [truncate_of_scheduledArrival hkey', truncate_of_scheduledArrival hkey] at hsequence
  exact Prod.ext hvehicle (Prod.ext htrip hsequence)

theorem gatedArrivals_visit (harrivals : (windowArrivals zone static pings).isSome)
    (hscheduled : scheduledArrival static key = some scheduled) {r : DeviationResult} :
    (r ∈ gatedArrivals zone static pings ∧ r.key = arrivalKey key) ↔
      ∃ t, firstArrival pings key = some t ∧ inGate zone scheduled key t = true ∧
        r = arrivalAt zone scheduled key t := by
  rw [mem_gatedArrivals harrivals]
  constructor
  · rintro ⟨⟨key', scheduled', t, hscheduled', ht, rfl, hgate⟩, hkey⟩
    obtain rfl : key' = key := eq_of_arrivalKey (Option.isSome_of_eq_some hscheduled')
      (Option.isSome_of_eq_some hscheduled) hkey
    obtain rfl := Option.some.inj (hscheduled'.symm.trans hscheduled)
    exact ⟨t, ht, hgate, rfl⟩
  · rintro ⟨t, ht, hgate, rfl⟩
    exact ⟨⟨key, scheduled, t, hscheduled, ht, rfl, hgate⟩, rfl⟩

/-- The emissions of a window for a visit are its gated arrivals with an unseen key. -/
theorem samples_processWindow :
    (processWindow frames zone static m pings).1.samples key =
      ((gatedArrivals zone static pings).filter fun r ↦
        (m.deviationTracker r.key).isNone ∧
          r.key = arrivalKey key).map DeviationResult.actualAt := by
  rw [WindowResult.samples, processWindow_newDeviations,
    DeviationResultTracker.filterAll_fst gatedArrivals_nodup, List.map_map, List.filter_map,
    List.map_map, List.filter_filter]
  have hactual : DeviationResult.actualAt ∘ enrichWithRouteName static ∘ enrichWithLocation static =
      DeviationResult.actualAt := funext enrich_actualAt
  rw [hactual]
  refine congrArg _ (List.filter_congr fun r _ ↦ ?_)
  have hkey : (enrichWithRouteName static (enrichWithLocation static r)).key = r.key := enrich_key r
  simp only [Function.comp_apply, hkey, Bool.decide_and, Bool.decide_eq_true, Bool.and_comm]

/-- What a window emits for a visit: its own arrival, if that passes the gate and the tracker does
not know the visit. -/
theorem samples_handOver (harrivals : (windowArrivals zone static m.rows).isSome)
    (hscheduled : scheduledArrival static key = some scheduled) :
    (m.handOver frames zone static).1.samples key =
      if (m.deviationTracker (arrivalKey key)).isSome then []
      else ((firstArrival m.rows key).filter fun t ↦ inGate zone scheduled key t).toList := by
  rw [Memory.handOver, samples_processWindow]
  have hfilter : ((gatedArrivals zone static m.rows).filter fun r ↦
      (m.flushed.deviationTracker r.key).isNone ∧ r.key = arrivalKey key) =
        if (m.deviationTracker (arrivalKey key)).isSome then []
        else (gatedArrivals zone static m.rows).filter fun r ↦ r.key = arrivalKey key := by
    split_ifs with hseen
    · refine List.filter_eq_nil_iff.mpr fun r _ hr ↦ ?_
      obtain ⟨hnone, hkey⟩ := of_decide_eq_true hr
      rw [hkey] at hnone
      rw [Option.isSome_iff_ne_none] at hseen
      exact hseen (Option.isNone_iff_eq_none.mp hnone)
    · rw [Bool.not_eq_true, Option.isSome_eq_false_iff] at hseen
      refine List.filter_congr fun r _ ↦ decide_eq_decide.mpr ?_
      exact ⟨And.right, fun hkey ↦ ⟨hkey ▸ hseen, hkey⟩⟩
  rw [hfilter]
  split_ifs with hseen
  · rfl
  · cases hfirst : (firstArrival m.rows key).filter fun t ↦ inGate zone scheduled key t with
    | none =>
      refine List.map_eq_nil_iff.mpr (List.filter_eq_nil_iff.mpr fun r hr hkey ↦ ?_)
      obtain ⟨t, ht, hgate, -⟩ :=
        (gatedArrivals_visit harrivals hscheduled).mp ⟨hr, of_decide_eq_true hkey⟩
      rw [ht, Option.filter_some, if_pos hgate] at hfirst
      exact nomatch hfirst
    | some t =>
      obtain ⟨ht, hgate⟩ := Option.filter_eq_some_iff.mp hfirst
      obtain ⟨hr, hkey⟩ := (gatedArrivals_visit harrivals hscheduled).mpr ⟨t, ht, hgate, rfl⟩
      rw [← hkey, filter_key_eq_singleton gatedArrivals_nodup hr]
      rfl

theorem deviationTracker_handOver (harrivals : (windowArrivals zone static m.rows).isSome)
    (hscheduled : scheduledArrival static key = some scheduled) :
    (m.handOver frames zone static).2.deviationTracker (arrivalKey key) =
      ((m.deviationTracker (arrivalKey key)).or
        ((firstArrival m.rows key).filter fun t ↦ inGate zone scheduled key t)).filter fun t ↦
          retained (newest m.rows) t := by
  refine Option.ext fun t ↦ ?_
  rw [Memory.handOver, deviationTracker_eq_some harrivals, Option.filter_eq_some_iff,
    Option.or_eq_some_iff]
  refine and_congr_left fun _ ↦ or_congr_right (and_congr_right fun _ ↦ ?_)
  rw [Option.filter_eq_some_iff]
  constructor
  · rintro ⟨r, hr, hkey, rfl⟩
    obtain ⟨t, ht, hgate, rfl⟩ := (gatedArrivals_visit harrivals hscheduled).mp ⟨hr, hkey⟩
    exact ⟨ht, hgate⟩
  · rintro ⟨ht, hgate⟩
    obtain ⟨hr, hkey⟩ := (gatedArrivals_visit harrivals hscheduled).mpr ⟨t, ht, hgate, rfl⟩
    exact ⟨_, hr, hkey, rfl⟩

theorem samples_of_none (h : windowArrivals zone static m.rows = none) :
    (m.handOver frames zone static).1.samples key = [] := by
  rw [Memory.handOver, samples_processWindow, gatedArrivals, h]
  rfl

end

/-! ## The frames of a visit -/

section

variable (zone : Zone) (scheduled : ℕ) (key : VisitKey)

/-- After the first frame with rows of the visit, whose first arrival is `first`, a frame whose own
arrival passes the gate only comes while the tracker retains `first`, which passed the gate too. -/
def Remembered (first : Time) (frames : List (List Ping)) : Prop :=
  AtEach (fun before f ↦ Visited key before →
    ∀ t, firstArrival f key = some t → inGate zone scheduled key t = true →
      inGate zone scheduled key first = true ∧
        ∀ g ∈ before, retained (newest g) first = true) frames

/-- The arrival of a frame, if it passes the gate. -/
def gatedArrival (f : List Ping) : Option Time :=
  (firstArrival f key).filter fun t ↦ inGate zone scheduled key t

/-- What the tracker knows of the visit after these frames. -/
def seenAfter (frames : List (List Ping)) : Option Time :=
  frames.foldl (fun seen f ↦
    (seen.or (gatedArrival zone scheduled key f)).filter fun t ↦ retained (newest f) t) none

/-- The samples of these frames. -/
def frameSamples (frames : List (List Ping)) : List Time :=
  (frames.foldl (fun (acc : List (List Ping) × List Time) f ↦
    (acc.1 ++ [f], acc.2 ++ if (seenAfter zone scheduled key acc.1).isSome then []
      else (gatedArrival zone scheduled key f).toList)) ([], [])).2

/-- Every sample is the first arrival, and there is at most one. -/
def OnlyFirst (first : Time) (times : List Time) : Prop :=
  times.length ≤ 1 ∧ ∀ t ∈ times, t = first

/-- The first frame with rows of the visit has its first arrival, and nothing so far would purge
it. -/
def Opens (first : Time) (frames : List (List Ping)) : Prop :=
  AtEach (fun before f ↦ ¬Visited key before → visitRows f key ≠ [] →
    firstArrival f key = some first ∧ ∀ g ∈ before, retained (newest g) first = true) frames

end

section

variable {zone : Zone} {scheduled : ℕ} {key : VisitKey} {frames : List (List Ping)}
  {f : List Ping} {first t : Time} {times : List Time}

theorem seenAfter_concat : seenAfter zone scheduled key (frames ++ [f]) =
    ((seenAfter zone scheduled key frames).or (gatedArrival zone scheduled key f)).filter fun t ↦
      retained (newest f) t := by
  rw [seenAfter, List.foldl_append]
  rfl

theorem frameSamples_concat : frameSamples zone scheduled key (frames ++ [f]) =
    frameSamples zone scheduled key frames ++
      if (seenAfter zone scheduled key frames).isSome then []
      else (gatedArrival zone scheduled key f).toList := by
  have hframes (gs : List (List Ping)) : (gs.foldl (fun (acc : List (List Ping) × List Time) f ↦
      (acc.1 ++ [f], acc.2 ++ if (seenAfter zone scheduled key acc.1).isSome then []
        else (gatedArrival zone scheduled key f).toList)) ([], [])).1 = gs := by
    induction gs using List.reverseRecOn with
    | nil => rfl
    | append_singleton gs g ih => rw [List.foldl_append, List.foldl_cons, List.foldl_nil, ih]
  rw [frameSamples, List.foldl_append, List.foldl_cons, List.foldl_nil, hframes]
  rfl

theorem visited_concat :
    Visited key (frames ++ [f]) ↔ Visited key frames ∨ visitRows f key ≠ [] := by
  rw [Visited, Visited]
  simp only [List.mem_append, List.mem_singleton, or_and_right, exists_or, exists_eq_left]

theorem firstArrival_eq_none (h : visitRows f key = []) : firstArrival f key = none := by
  rw [firstArrival, h]
  rfl

theorem OnlyFirst.of_append {more : List Time} (h : OnlyFirst first (times ++ more)) :
    OnlyFirst first times := by
  obtain ⟨hlength, hmem⟩ := h
  rw [List.length_append] at hlength
  exact ⟨Nat.le_of_add_right_le hlength, fun t ht ↦ hmem t (List.mem_append_left _ ht)⟩

theorem onlyFirst_filter (p : Time → Bool) : OnlyFirst first ((some first).filter p).toList := by
  rw [Option.filter_some]
  split_ifs
  · exact ⟨le_refl 1, fun t ht ↦ List.mem_singleton.mp ht⟩
  · exact ⟨Nat.zero_le 1, fun t ht ↦ absurd ht List.not_mem_nil⟩

/-- The samples after these frames, and what the tracker knows. -/
structure Sampled (zone : Zone) (scheduled : ℕ) (key : VisitKey) (first : Time)
    (frames : List (List Ping)) : Prop where
  unvisited : ¬Visited key frames →
    seenAfter zone scheduled key frames = none ∧ frameSamples zone scheduled key frames = []
  rule : OnlyFirst first (frameSamples zone scheduled key frames) ↔
    Remembered zone scheduled key first frames
  visited : Visited key frames → Remembered zone scheduled key first frames →
    frameSamples zone scheduled key frames =
        ((some first).filter fun t ↦ inGate zone scheduled key t).toList ∧
      seenAfter zone scheduled key frames = (some first).filter fun t ↦
        inGate zone scheduled key t && frames.all fun g ↦ retained (newest g) t

theorem sampled_nil : Sampled zone scheduled key first [] where
  unvisited _ := ⟨rfl, rfl⟩
  rule := iff_of_true ⟨Nat.zero_le 1, fun _ ht ↦ absurd ht List.not_mem_nil⟩ atEach_nil
  visited := fun ⟨_, hf, _⟩ ↦ absurd hf List.not_mem_nil

theorem Sampled.concat_of_nil (h : Sampled zone scheduled key first frames)
    (hrows : visitRows f key = []) : Sampled zone scheduled key first (frames ++ [f]) := by
  have hfirst := firstArrival_eq_none hrows
  have hgated : gatedArrival zone scheduled key f = none := by
    rw [gatedArrival, hfirst, Option.filter_none]
  have hsamples : frameSamples zone scheduled key (frames ++ [f]) =
      frameSamples zone scheduled key frames := by
    rw [frameSamples_concat, hgated, Option.toList_none, ite_self, List.append_nil]
  have hseen : seenAfter zone scheduled key (frames ++ [f]) =
      (seenAfter zone scheduled key frames).filter fun t ↦ retained (newest f) t := by
    rw [seenAfter_concat, hgated, Option.or_none]
  have hvisited : Visited key (frames ++ [f]) ↔ Visited key frames := by
    rw [visited_concat, or_iff_left (not_not_intro hrows)]
  have hlate : Remembered zone scheduled key first (frames ++ [f]) ↔
      Remembered zone scheduled key first frames := by
    rw [Remembered, atEach_concat, Remembered]
    refine and_iff_left fun _ t ht ↦ ?_
    rw [hfirst] at ht
    exact nomatch ht
  constructor
  · intro hnot
    obtain ⟨hnone, hnil⟩ := h.unvisited (hvisited.not.mp hnot)
    rw [hsamples, hseen, hnone, hnil]
    exact ⟨rfl, rfl⟩
  · rw [hsamples, hlate, h.rule]
  · intro hvisit hno
    obtain ⟨hsampled, hknown⟩ := h.visited (hvisited.mp hvisit) (hlate.mp hno)
    rw [hsamples, hseen, hknown, Option.filter_filter]
    refine ⟨hsampled, congrArg (fun p ↦ Option.filter p (some first)) (funext fun t ↦ ?_)⟩
    rw [List.all_append, List.all_cons, List.all_nil, Bool.and_true, Bool.and_assoc]

theorem Sampled.concat_of_opening (h : Sampled zone scheduled key first frames)
    (hnot : ¬Visited key frames) (hrows : visitRows f key ≠ [])
    (hfirst : firstArrival f key = some first)
    (hretained : ∀ g ∈ frames, retained (newest g) first = true) :
    Sampled zone scheduled key first (frames ++ [f]) := by
  obtain ⟨hnone, hnil⟩ := h.unvisited hnot
  have hgated : gatedArrival zone scheduled key f =
      (some first).filter fun t ↦ inGate zone scheduled key t := by
    rw [gatedArrival, hfirst]
  have hsamples : frameSamples zone scheduled key (frames ++ [f]) =
      ((some first).filter fun t ↦ inGate zone scheduled key t).toList := by
    rw [frameSamples_concat, hnone, hnil, hgated]
    rfl
  constructor
  · exact fun hno ↦ absurd (visited_concat.mpr (Or.inr hrows)) hno
  · rw [hsamples, Remembered, atEach_concat]
    refine iff_of_true (onlyFirst_filter _) ⟨?_, fun hvisited ↦ absurd hvisited hnot⟩
    rintro before g after rfl ⟨d, hd, hdrows⟩
    exact absurd ⟨d, List.mem_append_left _ hd, hdrows⟩ hnot
  · intro _ _
    refine ⟨hsamples, ?_⟩
    rw [seenAfter_concat, hnone, hgated, Option.none_or, Option.filter_filter]
    have hall : (frames.all fun g ↦ retained (newest g) first) = true :=
      List.all_eq_true.mpr hretained
    rw [Option.filter_some, Option.filter_some, List.all_append, hall, List.all_cons, List.all_nil,
      Bool.and_true, Bool.true_and]

theorem Sampled.concat_of_visited (h : Sampled zone scheduled key first frames)
    (hvisited : Visited key frames) : Sampled zone scheduled key first (frames ++ [f]) := by
  have hvisit : Visited key (frames ++ [f]) := visited_concat.mpr (Or.inl hvisited)
  have hlate : Remembered zone scheduled key first (frames ++ [f]) ↔
      Remembered zone scheduled key first frames ∧
        ∀ t, gatedArrival zone scheduled key f = some t → inGate zone scheduled key first = true ∧
          ∀ g ∈ frames, retained (newest g) first = true := by
    rw [Remembered, atEach_concat, Remembered]
    refine and_congr_right fun _ ↦ ?_
    constructor
    · intro hlast t ht
      obtain ⟨hft, hgate⟩ := Option.filter_eq_some_iff.mp ht
      exact hlast hvisited t hft hgate
    · exact fun hlast _ t hft hgate ↦ hlast t (Option.filter_eq_some_iff.mpr ⟨hft, hgate⟩)
  -- once there was a late sample the rule is broken for good
  by_cases hno : Remembered zone scheduled key first frames
  · obtain ⟨hsampled, hseen⟩ := h.visited hvisited hno
    cases hgated : gatedArrival zone scheduled key f with
    | none =>
      have hsamples : frameSamples zone scheduled key (frames ++ [f]) =
          frameSamples zone scheduled key frames := by
        rw [frameSamples_concat, hgated, Option.toList_none, ite_self, List.append_nil]
      constructor
      · exact fun hnot ↦ absurd hvisit hnot
      · rw [hsamples, hlate, hgated, h.rule]
        exact (and_iff_left nofun).symm
      · intro _ _
        rw [hsamples, hsampled, seenAfter_concat, hgated, Option.or_none, hseen,
          Option.filter_filter]
        refine ⟨rfl, congrArg (fun p ↦ Option.filter p (some first)) (funext fun t ↦ ?_)⟩
        rw [List.all_append, List.all_cons, List.all_nil, Bool.and_true, Bool.and_assoc]
    | some t =>
      by_cases hkeeps : inGate zone scheduled key first = true ∧
          ∀ g ∈ frames, retained (newest g) first = true
      · -- the tracker still knows the visit
        have hall : (frames.all fun g ↦ retained (newest g) first) = true :=
          List.all_eq_true.mpr hkeeps.2
        rw [Option.filter_some, hkeeps.1, hall, Bool.and_true, if_pos rfl] at hseen
        have hsamples : frameSamples zone scheduled key (frames ++ [f]) =
            frameSamples zone scheduled key frames := by
          rw [frameSamples_concat, hseen, Option.isSome_some, if_pos rfl, List.append_nil]
        constructor
        · exact fun hnot ↦ absurd hvisit hnot
        · rw [hsamples, hlate, h.rule]
          exact (and_iff_left fun _ _ ↦ hkeeps).symm
        · intro _ _
          refine ⟨hsamples.trans hsampled, ?_⟩
          rw [seenAfter_concat, hseen, Option.some_or, Option.filter_some, Option.filter_some,
            List.all_append, hall, hkeeps.1, List.all_cons, List.all_nil, Bool.and_true,
            Bool.true_and, Bool.true_and]
      · -- the frame emits its own arrival
        have hnone : seenAfter zone scheduled key frames = none := by
          rw [hseen, Option.filter_some, if_neg]
          rw [Bool.and_eq_true, List.all_eq_true]
          exact hkeeps
        have hlateNot : ¬Remembered zone scheduled key first (frames ++ [f]) := fun hlast ↦
          hkeeps ((hlate.mp hlast).2 t hgated)
        have hsamples : frameSamples zone scheduled key (frames ++ [f]) =
            frameSamples zone scheduled key frames ++ [t] := by
          rw [frameSamples_concat, hnone, hgated]
          rfl
        constructor
        · exact fun hnot ↦ absurd hvisit hnot
        · refine iff_of_false ?_ hlateNot
          rw [hsamples, hsampled, Option.filter_some]
          rintro ⟨hlength, hfirst⟩
          split_ifs at hlength hfirst with hgate
          · exact absurd hlength (Nat.lt_irrefl 1)
          · have hgatet := (Option.filter_eq_some_iff.mp hgated).2
            rw [hfirst t (by simp)] at hgatet
            exact hgate hgatet
        · exact fun _ hlast ↦ absurd hlast hlateNot
  · have hlateNot : ¬Remembered zone scheduled key first (frames ++ [f]) := fun hlast ↦
      hno (hlate.mp hlast).1
    constructor
    · exact fun hnot ↦ absurd hvisit hnot
    · refine iff_of_false (fun honly ↦ ?_) hlateNot
      rw [frameSamples_concat] at honly
      exact hno (h.rule.mp honly.of_append)
    · exact fun _ hlast ↦ absurd hlast hlateNot

theorem sampled_of_opens (hopens : Opens key first frames) :
    Sampled zone scheduled key first frames := by
  induction frames using List.reverseRecOn with
  | nil => exact sampled_nil
  | append_singleton frames f ih =>
    rw [Opens, atEach_concat] at hopens
    have hframes := ih hopens.1
    by_cases hrows : visitRows f key = []
    · exact hframes.concat_of_nil hrows
    · by_cases hvisited : Visited key frames
      · exact hframes.concat_of_visited hvisited
      · obtain ⟨hfirst, hretained⟩ := hopens.2 hvisited hrows
        exact hframes.concat_of_opening hvisited hrows hfirst hretained

/-! ### The frame that opens the visit -/

theorem opening_append {more : List (List Ping)} :
    opening key (frames ++ more) = (opening key frames).or (opening key more) :=
  List.findSome?_append

theorem opening_cons {more : List (List Ping)} :
    opening key (f :: more) = (firstArrival f key).or (opening key more) := by
  rw [opening, List.findSome?_cons]
  cases firstArrival f key <;> rfl

theorem opening_eq_none : opening key frames = none ↔ ∀ f ∈ frames, firstArrival f key = none :=
  List.findSome?_eq_none_iff

/-- Where times are known, a visit is opened by the first frame with rows of it. -/
theorem opening_isSome (hknown : ∀ f ∈ frames, ∀ p ∈ f, p.timestampEastern.isSome) :
    (opening key frames).isSome ↔ Visited key frames := by
  rw [← not_iff_not, Option.not_isSome_iff_eq_none, opening_eq_none, Visited, not_exists]
  refine forall_congr' fun f ↦ ?_
  rw [not_and, not_not]
  refine imp_congr_right fun hf ↦ ⟨fun hnone ↦ ?_, firstArrival_eq_none⟩
  by_contra hrows
  have hsome := firstArrival_isSome (hknown f hf) hrows
  rw [hnone] at hsome
  exact Bool.false_ne_true hsome

theorem mem_frameSamples (ht : t ∈ frameSamples zone scheduled key frames) :
    ∃ f ∈ frames, gatedArrival zone scheduled key f = some t := by
  induction frames using List.reverseRecOn with
  | nil => exact absurd ht List.not_mem_nil
  | append_singleton frames f ih =>
    rw [frameSamples_concat] at ht
    rcases List.mem_append.mp ht with ht | ht
    · obtain ⟨g, hg, hgt⟩ := ih ht
      exact ⟨g, List.mem_append_left _ hg, hgt⟩
    · split_ifs at ht
      · exact absurd ht List.not_mem_nil
      · exact ⟨f, List.mem_append_right _ List.mem_cons_self, Option.mem_toList.mp ht⟩

/-- Frames without an arrival within the gate yield no sample, and the others do. -/
theorem frameSamples_eq_nil_iff : frameSamples zone scheduled key frames = [] ↔
    ∀ f ∈ frames, gatedArrival zone scheduled key f = none := by
  constructor
  · intro hnil
    have hnone : (∀ f ∈ frames, gatedArrival zone scheduled key f = none) ∧
        seenAfter zone scheduled key frames = none := by
      induction frames using List.reverseRecOn with
      | nil => exact ⟨fun f hf ↦ absurd hf List.not_mem_nil, rfl⟩
      | append_singleton frames f ih =>
        rw [frameSamples_concat, List.append_eq_nil_iff] at hnil
        obtain ⟨hframes, hseen⟩ := ih hnil.1
        rw [hseen, Option.isSome_none, if_neg Bool.false_ne_true, Option.toList_eq_nil_iff] at hnil
        constructor
        · intro g hg
          rcases List.mem_append.mp hg with hg | hg
          · exact hframes g hg
          · rw [List.mem_singleton.mp hg]
            exact hnil.2
        · rw [seenAfter_concat, hseen, hnil.2]
          rfl
    exact hnone.1
  · intro hnone
    refine List.eq_nil_iff_forall_not_mem.mpr fun t ht ↦ ?_
    obtain ⟨f, hf, hgated⟩ := mem_frameSamples ht
    rw [hnone f hf] at hgated
    exact nomatch hgated

/-- Where the first frame with rows of the visit has the first arrival, no later frame is late as
long as the first arrival is remembered. -/
theorem noLateSample_iff_remembered
    (hknown : ∀ f ∈ frames, ∀ p ∈ f, p.timestampEastern.isSome)
    (hopening : opening key frames = some first) :
    NoLateSample zone scheduled key first frames ↔ Remembered zone scheduled key first frames := by
  refine forall_congr' fun before ↦ forall_congr' fun f ↦ forall_congr' fun after ↦
    imp_congr_right fun hsplit ↦ ?_
  rw [hsplit, opening_append, opening_cons] at hopening
  have hbefore : ∀ g ∈ before, ∀ p ∈ g, p.timestampEastern.isSome :=
    fun g hg ↦ hknown g (hsplit ▸ List.mem_append_left _ hg)
  constructor
  · intro hlate hvisited t ht hgate
    rcases hlate t ht hgate with ⟨-, hnot⟩ | ⟨-, hremembered⟩
    · exact absurd hvisited hnot
    · exact hremembered
  · intro hremembered t ht hgate
    by_cases hvisited : Visited key before
    · refine Or.inr ⟨?_, hremembered hvisited t ht hgate⟩
      obtain ⟨u, hu⟩ := Option.isSome_iff_exists.mp ((opening_isSome hbefore).mpr hvisited)
      rw [hu, Option.some_or] at hopening
      rw [hu, hopening]
    · refine Or.inl ⟨?_, hvisited⟩
      have hnone := Option.not_isSome_iff_eq_none.mp (mt (opening_isSome hbefore).mp hvisited)
      rw [hnone, ht, Option.none_or, Option.some_or] at hopening
      exact Option.some.inj hopening

/-- **The samples of some frames are the first arrival alone** exactly if no frame is late. -/
theorem onlyFirst_frameSamples_iff (hknown : ∀ f ∈ frames, ∀ p ∈ f, p.timestampEastern.isSome)
    (hopens : ∀ t₀, opening key frames = some t₀ → Opens key t₀ frames ∧ first ≤ t₀ ∧
      ∀ f ∈ frames, ∀ t, firstArrival f key = some t → t₀ ≤ t) :
    OnlyFirst first (frameSamples zone scheduled key frames) ↔
      NoLateSample zone scheduled key first frames := by
  cases hopening : opening key frames with
  | none =>
    have hnone := opening_eq_none.mp hopening
    have hnil : frameSamples zone scheduled key frames = [] := by
      refine frameSamples_eq_nil_iff.mpr fun f hf ↦ ?_
      rw [gatedArrival, hnone f hf, Option.filter_none]
    rw [hnil]
    refine iff_of_true ⟨Nat.zero_le 1, fun t ht ↦ absurd ht List.not_mem_nil⟩ ?_
    rintro before f after rfl t ht
    rw [hnone f (List.mem_append_right _ List.mem_cons_self)] at ht
    exact nomatch ht
  | some t₀ =>
    obtain ⟨hopen, hle, hleast⟩ := hopens t₀ hopening
    rcases hle.eq_or_lt with rfl | hlt
    · rw [noLateSample_iff_remembered hknown hopening]
      exact (sampled_of_opens hopen).rule
    · -- the first arrival is in no frame, so there is to be no sample
      have hnil : OnlyFirst first (frameSamples zone scheduled key frames) ↔
          frameSamples zone scheduled key frames = [] := by
        constructor
        · intro honly
          refine List.eq_nil_iff_forall_not_mem.mpr fun t ht ↦ ?_
          obtain ⟨f, hf, hgated⟩ := mem_frameSamples ht
          have hafter := hleast f hf t (Option.filter_eq_some_iff.mp hgated).1
          rw [honly.2 t ht] at hafter
          exact absurd hlt (not_lt.mpr hafter)
        · intro hnil
          rw [hnil]
          exact ⟨Nat.zero_le 1, fun t ht ↦ absurd ht List.not_mem_nil⟩
      rw [hnil, frameSamples_eq_nil_iff]
      constructor
      · rintro hnone before f after rfl t ht hgate
        have hgated := hnone f (List.mem_append_right _ List.mem_cons_self)
        rw [gatedArrival, ht, Option.filter_some, if_pos hgate] at hgated
        exact nomatch hgated
      · intro hlate f hf
        refine Option.eq_none_iff_forall_ne_some.mpr fun t hgated ↦ ?_
        obtain ⟨ht, hgate⟩ := Option.filter_eq_some_iff.mp hgated
        obtain ⟨before, after, rfl⟩ := List.append_of_mem hf
        rw [opening_append, opening_cons] at hopening
        rcases hlate before f after rfl t ht hgate with ⟨rfl, -⟩ | ⟨hfirst, -⟩
        · exact absurd hlt (not_lt.mpr (hleast f hf t ht))
        · rw [hfirst, Option.some_or] at hopening
          exact hlt.ne (Option.some.inj hopening)

end

/-! ## The run -/

section

variable {frames : Frames} {zone : Zone} {statics : Set GtfsStaticData} {scheduled : ℕ}
  {key : VisitKey} {l l' : Ledger} {log : List Event} {pings : List Ping} {p : Ping} {t : Time}

theorem mem_visitRows_mono {more : List Ping} (h : ∀ q ∈ pings, q ∈ more)
    (hp : p ∈ visitRows pings key) : p ∈ visitRows more key :=
  List.mem_filter.mpr ⟨h p (List.mem_of_mem_filter hp), (List.mem_filter.mp hp).2⟩

theorem firstArrival_congr {more : List Ping}
    (h : ∀ p, p ∈ visitRows pings key ↔ p ∈ visitRows more key) :
    firstArrival pings key = firstArrival more key := by
  refine Option.ext fun t ↦ ?_
  rw [firstArrival, firstArrival, earliest_eq_some, earliest_eq_some]
  simp only [h]

/-- What the run has of the visit, next to the frames that were scored. -/
structure Follows (zone : Zone) (scheduled : ℕ) (key : VisitKey) (scored : List (List Ping))
    (l : Ledger) : Prop where
  tracker : l.memory.deviationTracker (arrivalKey key) = seenAfter zone scheduled key scored
  samples : samples key l.log = frameSamples zone scheduled key scored
  nonempty : ∀ f ∈ scored, (newest f).isSome
  rows : ∀ p ∈ l.memory.rows, p ∈ messages l.log
  frames : ∀ f ∈ scored, ∀ p ∈ f, p ∈ messages l.log
  early : ¬Visited key scored → ∀ g ∈ scored, ∀ n, newest g = some n →
    ∀ p ∈ visitRows l.memory.rows key, ∀ t, p.timestampEastern = some t → n ≤ t
  opens : ∀ t₀, opening key scored = some t₀ → Opens key t₀ scored
  late : ∀ t₀, opening key scored = some t₀ →
    (∀ f ∈ scored, ∀ t, firstArrival f key = some t → t₀ ≤ t) ∧
      ∀ p ∈ visitRows l.memory.rows key, ∀ t, p.timestampEastern = some t → t₀ ≤ t

theorem follows_start (start : Time) :
    Follows zone scheduled key [] ({ lastWindowFlush := start } : Consumer).ledger where
  tracker := rfl
  samples := rfl
  nonempty _ h := absurd h List.not_mem_nil
  rows _ h := absurd h List.not_mem_nil
  frames _ h := absurd h List.not_mem_nil
  early _ _ h := absurd h List.not_mem_nil
  opens _ h := nomatch h
  late _ h := nomatch h

variable {scored : List (List Ping)}

theorem Follows.skip (h : Follows zone scheduled key scored l) :
    Follows zone scheduled key scored ⟨l.memory, l.log ++ [.received none]⟩ := by
  have hmessages : messages (l.log ++ [.received none]) = messages l.log := by
    rw [messages, List.filterMap_append]
    exact List.append_nil _
  have hsamples : Analytics.samples key (l.log ++ [.received none]) =
      Analytics.samples key l.log := by
    rw [Analytics.samples, List.flatMap_append]
    exact List.append_nil _
  refine ⟨h.tracker, hsamples.trans h.samples, h.nonempty, ?_, ?_, h.early, h.opens, h.late⟩
  · rw [hmessages]
    exact h.rows
  · rw [hmessages]
    exact h.frames

theorem mem_visitRows_concat {q : Ping} (hq : q ∈ visitRows (pings ++ [p]) key) :
    q ∈ visitRows pings key ∨ q = p := by
  obtain ⟨hmem, hvisit⟩ := List.mem_filter.mp hq
  rcases List.mem_append.mp hmem with hmem | hmem
  · exact Or.inl (List.mem_filter.mpr ⟨hmem, hvisit⟩)
  · exact Or.inr (List.mem_singleton.mp hmem)

theorem Follows.receive (h : Follows zone scheduled key scored l)
    (htime : InTime (messages l.log ++ [p])) :
    Follows zone scheduled key scored
      ⟨{ l.memory with rows := l.memory.rows ++ [p] }, l.log ++ [.received (some p)]⟩ := by
  have hmessages : messages (l.log ++ [.received (some p)]) = messages l.log ++ [p] := by
    rw [messages, List.filterMap_append]
    rfl
  have hsamples : Analytics.samples key (l.log ++ [.received (some p)]) =
      Analytics.samples key l.log := by
    rw [Analytics.samples, List.flatMap_append]
    exact List.append_nil _
  have hlatest {q : Ping} (hq : q ∈ messages l.log) {s t : Time}
      (hs : q.timestampEastern = some s) (ht : p.timestampEastern = some t) : s ≤ t :=
    (List.pairwise_append.mp htime.ordered).2.2 q hq p (List.mem_singleton_self p) s t hs ht
  refine ⟨h.tracker, hsamples.trans h.samples, h.nonempty, ?_, ?_, ?_, h.opens, ?_⟩
  · rw [hmessages]
    intro q hq
    rcases List.mem_append.mp hq with hq | hq
    · exact List.mem_append_left _ (h.rows q hq)
    · exact List.mem_append_right _ hq
  · rw [hmessages]
    exact fun f hf q hq ↦ List.mem_append_left _ (h.frames f hf q hq)
  · intro hnot g hg n hn q hq t ht
    rcases mem_visitRows_concat hq with hq | rfl
    · exact h.early hnot g hg n hn q hq t ht
    · obtain ⟨r, hr, hrn⟩ := (newest_eq_some.mp hn).1
      exact hlatest (h.frames g hg r hr) hrn ht
  · intro t₀ hopening
    obtain ⟨hframes, hrows⟩ := h.late t₀ hopening
    refine ⟨hframes, fun q hq t ht ↦ ?_⟩
    rcases mem_visitRows_concat hq with hq | rfl
    · exact hrows q hq t ht
    · obtain ⟨f, hf, hfirst⟩ := List.exists_of_findSome?_eq_some hopening
      obtain ⟨r, hr, hrt⟩ := (earliest_eq_some.mp hfirst).1
      exact hlatest (h.frames f hf r (List.mem_of_mem_filter hr)) hrt ht

section

variable {static : GtfsStaticData}

theorem close_persist (frames : Frames) (zone : Zone) (static : GtfsStaticData) (l : Ledger)
    (key : VisitKey) :
    (l.close frames zone static .persist).memory.rows = l.memory.rows.filter (carried l.memory.rows)
      ∧ messages (l.close frames zone static .persist).log = messages l.log ∧
      Analytics.samples key (l.close frames zone static .persist).log =
        Analytics.samples key l.log ++ (l.memory.handOver frames zone static).1.samples key := by
  have hlog : (l.close frames zone static .persist).log =
      l.log ++ [.handed l.memory.rows (l.memory.handOver frames zone static).1 true, .commit] :=
    List.append_assoc _ _ _
  refine ⟨processWindow_rows _ _ _ _ _, ?_, ?_⟩
  · rw [hlog, messages, List.filterMap_append]
    exact List.append_nil _
  · rw [hlog, Analytics.samples, List.flatMap_append]
    exact congrArg _ (List.append_nil _)

theorem Follows.persist_unscored (h : Follows zone scheduled key scored l)
    (harrivals : windowArrivals zone static l.memory.rows = none) :
    Follows zone scheduled key scored (l.close frames zone static .persist) := by
  obtain ⟨hcarried, hmessages, hsamples⟩ := close_persist frames zone static l key
  have hkept : ∀ p ∈ visitRows (l.close frames zone static .persist).memory.rows key,
      p ∈ visitRows l.memory.rows key := by
    rw [hcarried]
    exact fun p ↦ mem_visitRows_mono fun q hq ↦ List.mem_of_mem_filter hq
  refine ⟨?_, ?_, h.nonempty, ?_, ?_, ?_, h.opens,
    fun t₀ hopening ↦ ⟨(h.late t₀ hopening).1, ?_⟩⟩
  · change (processWindow _ _ _ _ _).2.deviationTracker _ = _
    rw [deviationTracker_of_none harrivals]
    exact h.tracker
  · rw [hsamples, samples_of_none harrivals, List.append_nil]
    exact h.samples
  · rw [hcarried, hmessages]
    exact fun p hp ↦ h.rows p (List.mem_of_mem_filter hp)
  · rw [hmessages]
    exact h.frames
  · exact fun hnot g hg n hn p hp ↦ h.early hnot g hg n hn p (hkept p hp)
  · exact fun p hp ↦ (h.late t₀ hopening).2 p (hkept p hp)

theorem Follows.persist_scored (h : Follows zone scheduled key scored l)
    (htime : InTime (messages l.log)) (hrows : l.memory.rows ≠ [])
    (hscheduled : scheduledArrival static key = some scheduled)
    (harrivals : (windowArrivals zone static l.memory.rows).isSome) :
    Follows zone scheduled key (scored ++ [l.memory.rows])
      (l.close frames zone static .persist) := by
  obtain ⟨hcarried, hmessages, hsamples⟩ := close_persist frames zone static l key
  have hknown : ∀ f ∈ scored, ∀ p ∈ f, p.timestampEastern.isSome :=
    fun f hf p hp ↦ htime.known p (h.frames f hf p hp)
  have hopened {t₀ : Time} (hopening : opening key (scored ++ [l.memory.rows]) = some t₀) :
      opening key scored = some t₀ ∨
        ¬Visited key scored ∧ firstArrival l.memory.rows key = some t₀ := by
    rw [opening_append, opening_cons] at hopening
    rcases Option.or_eq_some_iff.mp hopening with hopening | ⟨hnone, hopening⟩
    · exact Or.inl hopening
    · refine Or.inr ⟨fun hvisited ↦ ?_, ?_⟩
      · have hsome := (opening_isSome hknown).mpr hvisited
        rw [hnone] at hsome
        exact Bool.false_ne_true hsome
      · rcases Option.or_eq_some_iff.mp hopening with hfirst | ⟨-, hnil⟩
        · exact hfirst
        · exact nomatch hnil
  refine ⟨?_, ?_, ?_, ?_, ?_, ?_, fun t₀ hopening ↦ ?_, fun t₀ hopening ↦ ?_⟩
  · change (l.memory.handOver frames zone static).2.deviationTracker _ = _
    rw [deviationTracker_handOver harrivals hscheduled, seenAfter_concat, h.tracker]
    rfl
  · rw [hsamples, samples_handOver harrivals hscheduled, frameSamples_concat, h.samples, h.tracker]
    rfl
  · intro f hf
    rcases List.mem_append.mp hf with hf | hf
    · exact h.nonempty f hf
    · rw [List.mem_singleton.mp hf]
      exact newest_isSome hrows fun p hp ↦ htime.known p (h.rows p hp)
  · rw [hcarried, hmessages]
    exact fun p hp ↦ h.rows p (List.mem_of_mem_filter hp)
  · rw [hmessages]
    intro f hf
    rcases List.mem_append.mp hf with hf | hf
    · exact h.frames f hf
    · rw [List.mem_singleton.mp hf]
      exact h.rows
  · -- before the first visit there is no row that a frame could be newer than
    intro hnot g _ n _ p hp
    rw [hcarried] at hp
    rw [visited_concat, not_or, not_not] at hnot
    have hrow := mem_visitRows_mono (fun q hq ↦ List.mem_of_mem_filter hq) hp
    rw [hnot.2] at hrow
    exact absurd hrow List.not_mem_nil
  · refine atEach_concat.mpr ?_
    rcases hopened hopening with hbefore | ⟨hnot, hfirst⟩
    · refine ⟨h.opens t₀ hbefore, fun hnot ↦ absurd ?_ hnot⟩
      exact (opening_isSome hknown).mp (Option.isSome_of_eq_some hbefore)
    · refine ⟨?_, fun _ _ ↦ ⟨hfirst, fun g hg ↦ ?_⟩⟩
      · rintro before f after rfl hnotBefore hrows
        exact absurd ⟨f, List.mem_append_right _ List.mem_cons_self, hrows⟩ hnot
      · -- no frame so far is newer than the first arrival
        obtain ⟨p, hp, ht⟩ := (earliest_eq_some.mp hfirst).1
        obtain ⟨n, hn⟩ := Option.isSome_iff_exists.mp (h.nonempty g hg)
        have hle : n ≤ t₀ := h.early hnot g hg n hn p hp t₀ ht
        have hpositive : 0 ≤ seconds trackerRetentionSeconds := by decide
        rw [hn]
        exact decide_eq_true ((sub_le_self n hpositive).trans hle)
  · rw [hcarried]
    have hkept {p : Ping} (hp : p ∈ visitRows (l.memory.rows.filter (carried l.memory.rows)) key) :
        p ∈ visitRows l.memory.rows key :=
      mem_visitRows_mono (fun q hq ↦ List.mem_of_mem_filter hq) hp
    have hrows : ∀ p ∈ visitRows l.memory.rows key, ∀ t, p.timestampEastern = some t → t₀ ≤ t := by
      rcases hopened hopening with hbefore | ⟨-, hfirst⟩
      · exact (h.late t₀ hbefore).2
      · exact (earliest_eq_some.mp hfirst).2
    refine ⟨fun f hf t ht ↦ ?_, fun p hp ↦ hrows p (hkept hp)⟩
    obtain ⟨p, hp, hpt⟩ := (earliest_eq_some.mp ht).1
    rcases List.mem_append.mp hf with hf | hf
    · rcases hopened hopening with hbefore | ⟨hnot, -⟩
      · exact (h.late t₀ hbefore).1 f hf t ht
      · exact absurd ⟨f, hf, visitRows_ne_nil_of_firstArrival ht⟩ hnot
    · rw [List.mem_singleton.mp hf] at hp
      exact hrows p hp t hpt

end

/-! ### Turns -/

section

variable {cfg : Settings} {s s' : Consumer} {turn : Turn}

theorem Follows.received {received : Consumer} {skip : Bool}
    (h : Follows zone scheduled key scored s.ledger)
    (hreceive : s.receive turn = some (received, skip)) (htime : InTime (messages received.log)) :
    Follows zone scheduled key scored received.ledger := by
  unfold Consumer.receive at hreceive
  split at hreceive
  · obtain ⟨rfl, -⟩ := Prod.mk.inj (Option.some.inj hreceive)
    exact h
  · exact absurd hreceive.symm (Option.some_ne_none _)
  · obtain ⟨rfl, -⟩ := Prod.mk.inj (Option.some.inj hreceive)
    exact h.skip
  · obtain ⟨rfl, -⟩ := Prod.mk.inj (Option.some.inj hreceive)
    exact h.skip
  · obtain ⟨rfl, -⟩ := Prod.mk.inj (Option.some.inj hreceive)
    rw [messages, List.filterMap_append] at htime
    exact h.receive htime

theorem rows_ne_nil_of_ending (h : s.ending cfg turn = .persist) : s.memory.rows ≠ [] := by
  unfold Consumer.ending at h
  split_ifs at h with _ _ hrows
  exact hrows

theorem Follows.step (h : Follows cfg.zone scheduled key scored s.ledger)
    (hstep : s.step cfg turn = some s')
    (hscheduled : scheduledArrival turn.static key = some scheduled)
    (hpersists : ∀ e ∈ s'.log, e.unpersisted = none) (htime : InTime (messages s'.log)) :
    Follows cfg.zone scheduled key (scored ++ (s.scored cfg turn).toList) s'.ledger := by
  obtain ⟨received, skip, hreceive, hledger⟩ := Consumer.step_eq_some hstep
  cases skip with
  | true =>
    have hsame : s'.ledger = received.ledger := hledger
    rw [Consumer.scored, Consumer.handing_of_skip hreceive, Option.bind_none, Option.toList_none,
      List.append_nil, hsame]
    have hlog : s'.log = received.log := congrArg Ledger.log hsame
    exact h.received hreceive (hlog ▸ htime)
  | false =>
    have hclosed : s'.ledger = received.ledger.close cfg.frames cfg.zone turn.static
        (received.ending cfg turn) := hledger
    have hlog : s'.log = (received.ledger.close cfg.frames cfg.zone turn.static
        (received.ending cfg turn)).log := congrArg Ledger.log hclosed
    rw [hlog] at hpersists htime
    rw [Consumer.scored, Consumer.handing_of_receive hreceive, hclosed]
    cases hending : received.ending cfg turn with
    | idle =>
      rw [hending] at htime
      rw [Option.bind_none, Option.toList_none, List.append_nil]
      exact h.received hreceive htime
    | drop =>
      rw [hending] at hpersists
      exact nomatch hpersists (.dropped received.memory.rows)
        (List.mem_append_right _ List.mem_cons_self)
    | fail =>
      rw [hending] at hpersists
      exact nomatch hpersists (.handed received.memory.rows _ false)
        (List.mem_append_right _ List.mem_cons_self)
    | persist =>
      rw [hending, (close_persist cfg.frames cfg.zone turn.static received.ledger key).2.1] at htime
      have hreceived := h.received hreceive htime
      dsimp only [Option.bind_some]
      split_ifs with harrivals
      · exact hreceived.persist_scored htime (rows_ne_nil_of_ending hending) hscheduled harrivals
      · rw [Option.toList_none, List.append_nil]
        exact hreceived.persist_unscored (Option.not_isSome_iff_eq_none.mp harrivals)

theorem InTime.of_log_prefix {log more : List Event} (hlog : log <+: more)
    (h : InTime (messages more)) : InTime (messages log) := by
  obtain ⟨rest, rfl⟩ := hlog
  rw [messages, List.filterMap_append] at h
  exact h.of_append

theorem Follows.run {turns : List Turn} (h : Follows cfg.zone scheduled key scored s.ledger)
    (hrun : s.run cfg turns = some s')
    (hscheduled : ∀ turn ∈ turns, scheduledArrival turn.static key = some scheduled)
    (hpersists : ∀ e ∈ s'.log, e.unpersisted = none) (htime : InTime (messages s'.log)) :
    Follows cfg.zone scheduled key (scored ++ s.scoredFrames cfg turns) s'.ledger := by
  induction turns generalizing s scored with
  | nil =>
    rw [Consumer.scoredFrames, List.append_nil, ← Option.some.inj hrun]
    exact h
  | cons turn turns ih =>
    obtain ⟨next, hstep, hrest⟩ := Option.bind_eq_some_iff.mp hrun
    obtain ⟨hfirst, hlater⟩ := List.forall_mem_cons.mp hscheduled
    -- what holds of the log to come holds of the log so far
    have hlog : next.log <+: s'.log := Consumer.log_prefix_of_run hrest
    have hnext := h.step hstep hfirst (fun e he ↦ hpersists e (hlog.subset he))
      (htime.of_log_prefix hlog)
    rw [Consumer.scoredFrames, hstep, ← List.append_assoc]
    exact ih hnext hrest hlater

end

/-- The samples of the run are the only first arrival exactly if no scored frame is late. -/
theorem Follows.oneFirstArrival (h : Follows zone scheduled key scored ⟨l.memory, log⟩)
    (hknown : ∀ p ∈ messages log, p.timestampEastern.isSome) :
    OneFirstArrival key log ↔ ∀ first, firstArrival (messages log) key = some first →
      NoLateSample zone scheduled key first scored := by
  have hscored : ∀ f ∈ scored, ∀ p ∈ f, p.timestampEastern.isSome :=
    fun f hf p hp ↦ hknown p (h.frames f hf p hp)
  rw [OneFirstArrival, h.samples]
  by_cases hrows : visitRows (messages log) key = []
  · have hnil : frameSamples zone scheduled key scored = [] := by
      refine frameSamples_eq_nil_iff.mpr fun f hf ↦ ?_
      have hnone : visitRows f key = [] := by
        refine List.eq_nil_iff_forall_not_mem.mpr fun p hp ↦ ?_
        have hvisit := mem_visitRows_mono (h.frames f hf) hp
        rw [hrows] at hvisit
        exact List.not_mem_nil hvisit
      rw [gatedArrival, firstArrival_eq_none hnone, Option.filter_none]
    rw [hnil, firstArrival_eq_none hrows]
    exact iff_of_true ⟨Nat.zero_le 1, fun t ht ↦ absurd ht List.not_mem_nil⟩ nofun
  · obtain ⟨first, hfirst⟩ := Option.isSome_iff_exists.mp (firstArrival_isSome hknown hrows)
    have hiff : OnlyFirst first (frameSamples zone scheduled key scored) ↔
        NoLateSample zone scheduled key first scored := by
      refine onlyFirst_frameSamples_iff hscored fun t₀ hopening ↦
        ⟨h.opens t₀ hopening, ?_, (h.late t₀ hopening).1⟩
      obtain ⟨f, hf, ht₀⟩ := List.exists_of_findSome?_eq_some hopening
      obtain ⟨p, hp, hpt⟩ := (earliest_eq_some.mp ht₀).1
      exact (earliest_eq_some.mp hfirst).2 p (mem_visitRows_mono (h.frames f hf) hp) t₀ hpt
    rw [hfirst]
    simp only [Option.some.injEq, forall_eq', ← hiff, OnlyFirst, eq_comm]

end

/-- **A run emits one sample for the visit, its first arrival, exactly if no scored window with an
arrival within the gate misses the first arrival**: either it is the first with rows of the visit
and shows it, or the first one emitted it and the tracker still has it. -/
theorem oneFirstArrival_iff {cfg : Settings} {start : Time} {turns : List Turn} {s : Consumer}
    {key : VisitKey} {scheduled : ℕ}
    (h : ({ lastWindowFlush := start } : Consumer).run cfg turns = some s)
    (hscheduled : ∀ turn ∈ turns, scheduledArrival turn.static key = some scheduled)
    (hpersists : ∀ e ∈ s.log, e.unpersisted = none) (htime : InTime (messages s.log)) :
    OneFirstArrival key s.log ↔ ∀ first, firstArrival (messages s.log) key = some first →
      NoLateSample cfg.zone scheduled key first
        (({ lastWindowFlush := start } : Consumer).scoredFrames cfg turns) := by
  have hfollows : Follows cfg.zone scheduled key
      ([] ++ ({ lastWindowFlush := start } : Consumer).scoredFrames cfg turns) s.ledger :=
    (follows_start start).run h hscheduled hpersists htime
  exact Follows.oneFirstArrival (l := s.ledger) hfollows htime.known

/-- Windows that all come within the retention of a first arrival that passes the gate. -/
theorem noLateSample_of_retained {zone : Zone} {scheduled : ℕ} {key : VisitKey} {first : Time}
    {frames : List (List Ping)} (hknown : ∀ f ∈ frames, ∀ p ∈ f, p.timestampEastern.isSome)
    (hopening : opening key frames = some first) (hgate : inGate zone scheduled key first = true)
    (hretained : ∀ g ∈ frames, retained (newest g) first = true) :
    NoLateSample zone scheduled key first frames := by
  refine (noLateSample_iff_remembered hknown hopening).mpr ?_
  rintro before f after rfl - t - -
  exact ⟨hgate, fun g hg ↦ hretained g (List.mem_append_left _ hg)⟩

/-- A vehicle that stands at its stop from one second after the scheduled arrival. -/
def standing : List Turn :=
  [.receiving (stoppedAt 61) (.arrivingAt 68460) 60 .success,
    .receiving (stoppedAt 91) (.arrivingAt 68460) 120 .success]

/-- A visit in two windows has one sample. -/
theorem oneFirstArrival_standing :
    ∃ s, runFromStart standing = some s ∧ samples ("y1", "t1", 1) s.log = [seconds 61] ∧
      OneFirstArrival ("y1", "t1", 1) s.log := by
  let cfg : Settings := { frames := meridian, zone := easternStandardTime }
  let scored := ({ lastWindowFlush := 0 } : Consumer).scoredFrames cfg standing
  have hreturns : (runFromStart standing).isSome := by decide +kernel
  have hrun : ∀ s ∈ runFromStart standing,
      messages s.log = [stoppedAt 61, { stoppedAt 91 with offset := 1 }] ∧
      samples ("y1", "t1", 1) s.log = [seconds 61] ∧ ∀ e ∈ s.log, e.unpersisted = none := by
    decide +kernel
  have hscored : (∀ f ∈ scored, ∀ p ∈ f, p.timestampEastern.isSome) ∧
      opening ("y1", "t1", 1) scored = some (seconds 61) ∧
      ∀ g ∈ scored, retained (newest g) (seconds 61) = true := by decide +kernel
  obtain ⟨s, hs⟩ := Option.isSome_iff_exists.mp hreturns
  obtain ⟨hmessages, hsamples, hpersists⟩ := hrun s hs
  obtain ⟨hknown, hopening, hretained⟩ := hscored
  have htime : InTime (messages s.log) := by
    rw [hmessages]
    refine ⟨by decide, List.pairwise_pair.mpr fun t u ht hu ↦ ?_⟩
    rw [← Option.some.inj ht, ← Option.some.inj hu]
    decide
  have hgate : inGate easternStandardTime 68460 ("y1", "t1", 1) (seconds 61) = true := by
    decide +kernel
  have hscheduled : ∀ turn ∈ standing,
      scheduledArrival turn.static ("y1", "t1", 1) = some 68460 := by decide +kernel
  refine ⟨s, hs, hsamples, (oneFirstArrival_iff hs hscheduled hpersists htime).mpr ?_⟩
  intro first hfirst
  have hfirstArrival : firstArrival [stoppedAt 61, { stoppedAt 91 with offset := 1 }]
      ("y1", "t1", 1) = some (seconds 61) := by decide +kernel
  rw [hmessages, hfirstArrival] at hfirst
  rw [← Option.some.inj hfirst]
  exact noLateSample_of_retained hknown hopening hgate hretained

/-- A vehicle that arrives ten seconds before the gate opens and stands for longer. -/
def early : List Turn :=
  [.receiving (stoppedAt 31) (.arrivingAt 70241) 60 .success,
    .receiving (stoppedAt 71) (.arrivingAt 70241) 120 .success,
    .receiving (stoppedAt 101) (.arrivingAt 70241) 180 .success]

/-- The first arrival is dropped at the gate, and a later message of the visit is its sample. -/
theorem not_oneFirstArrival_early :
    ∃ s, runFromStart early = some s ∧ ¬OneFirstArrival ("y1", "t1", 1) s.log := by
  have hreturns : (runFromStart early).isSome := by decide +kernel
  have hlate : ∀ s ∈ runFromStart early, samples ("y1", "t1", 1) s.log = [seconds 71] ∧
      firstArrival (messages s.log) ("y1", "t1", 1) = some (seconds 31) := by decide +kernel
  obtain ⟨s, hs⟩ := Option.isSome_iff_exists.mp hreturns
  obtain ⟨hsamples, hfirst⟩ := hlate s hs
  refine ⟨s, hs, fun h ↦ ?_⟩
  have hsame := h.2 (seconds 71) (hsamples ▸ List.mem_singleton_self _)
  rw [hfirst] at hsame
  exact absurd (Option.some.inj hsame) (by decide)

end GtfsStream.Analytics
