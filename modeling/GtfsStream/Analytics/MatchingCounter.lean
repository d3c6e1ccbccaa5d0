import GtfsStream.Analytics.ScheduleDeviation
import GtfsStream.GtfsStatic.Tables
import GtfsStream.Library.Dictionary

/-!
# The matching counter on raw values

`compute_matching_stats` runs on the window as it was decoded, outside every `try` statement, so
`trip_id` and `current_stop_sequence` may be any JSON value. It looks a ping up with the number that
`int` reads from the sequence, and the matcher with the sequence itself.

What pandas makes of a list in `pd.isna`, and the text of a list or a dictionary, are parameters.

## Where the two differ

The counter and the matcher read the same two cells. Both leave a row out if one of them is null;
the counter then takes what `int` makes of the sequence, so that a text, a fraction or a truth value
can find an entry for which the matcher has no key. A list has no single answer to whether it is
null, and an infinity has no integer: both end the window. The theorem lists these rows, and a
window counts like the matcher exactly if it has none of them.
-/

namespace GtfsStream.Analytics.Decoded

open Loader Dictionary
open Rows (truncate truncate_intCast)

/-! ## Values -/

/-- A value as `json.loads` decodes it. The missing cell is `NaN`. -/
inductive Json
  | null
  | cell (c : Cell)
  | list (values : List Json)
  | object (fields : List (String × Json))

/-- What the counter takes from Python and pandas. -/
structure Runtime where
  py : Python
  /-- The text of a list or a dictionary. -/
  repr : Json → String
  /-- The truth value of `pd.isna(values)`, an array, which may have none. -/
  isnaList : List Json → Option Bool

namespace Json

variable (rt : Runtime)

def isNone : Json → Bool
  | null => true
  | _ => false

/-- `str(value)` -/
def str : Json → String
  | null => "None"
  | cell c => c.str rt.py
  | value => rt.repr value

/-- The truth value of `pd.isna(value)`. -/
def isna : Json → Option Bool
  | null => some true
  | cell c => some (c = .missing)
  | list values => rt.isnaList values
  | object _ => some false

end Json

/-- The whole number that a cell is equal to. -/
def wholeNumber : Cell → Option ℤ
  | .int n => some n
  | .float q => if q.den = 1 then some q.num else none
  | .bool b => some (if b then 1 else 0)
  | _ => none

/-! ## The counter -/

inductive Category
  | matched
  | missing
  | unmatched
  deriving DecidableEq

/-- What leaves the loop: the `ValueError` of an array without truth value, or an
`OverflowError`. -/
inductive CountError
  | ambiguous
  | overflow

section

variable (rt : Runtime) (stopTimesLookup : String × ℤ → Option ScheduledStopTime)

/-- `trip is None or seq is None or pd.isna(trip) or pd.isna(seq)` -/
def nullTest (trip seq : Json) : Option Bool :=
  if trip.isNone || seq.isNone then some true
  else do if ← trip.isna rt then some true else seq.isna rt

/-- `int(seq)`, or none for a `TypeError` or a `ValueError`. -/
def sequenceNumber : Json → Except CountError (Option ℤ)
  | .cell c =>
    match c.toInt rt.py with
    | .ok n => .ok (some n)
    | .error .overflow => .error .overflow
    | .error _ => .ok none
  | _ => .ok none

/-- `missing`, or whether the key is in the lookup. -/
def categoryOf (tripId : String) : Option ℤ → Category
  | none => .missing
  | some n => if (stopTimesLookup (tripId, n)).isSome then .matched else .unmatched

/-- The body of the loop. -/
def categorize (trip seq : Json) : Except CountError Category :=
  match nullTest rt trip seq with
  | none => .error .ambiguous
  | some true => .ok .missing
  | some false =>
    if trip.str rt = "" then .ok .missing
    else (sequenceNumber rt seq).map (categoryOf stopTimesLookup (trip.str rt))

/-- The fields of a message that the counter reads. -/
structure RawPing where
  tripId : Json := .null
  currentStopSequence : Json := .null

/-- The values of a row. A column that is not there has nulls. -/
def fields (df : Frame RawPing) (row : RawPing) : Json × Json :=
  (if "trip_id" ∈ df.columns then row.tripId else .null,
    if "current_stop_sequence" ∈ df.columns then row.currentStopSequence else .null)

def countOne (stats : MatchingStats) : Category → MatchingStats
  | .matched => { stats with matchedPings := stats.matchedPings + 1 }
  | .missing => { stats with missingFieldPings := stats.missingFieldPings + 1 }
  | .unmatched => { stats with unmatchedPings := stats.unmatchedPings + 1 }

def computeMatchingStats (pings : Frame RawPing) : Except CountError MatchingStats :=
  if pings.rows.length = 0 then .ok ⟨0, 0, 0, 0, 0⟩
  else applyAll (fun values : Json × Json ↦
      (categorize rt stopTimesLookup values.1 values.2).map fun category stats ↦
        countOne stats category)
    (pings.rows.map (fields pings)) ⟨pings.rows.length, 0, 0, 0, 0⟩

/-! ## The matcher -/

/-- The key that `compute_arrival_deviations` forms for a row. A null field drops the row from the
groups of `collapse_to_first_arrival`, and a list or a dictionary cannot be grouped. -/
def matcherKey : Json → Json → Option (String × Cell)
  | .cell t, .cell s => if t = .missing ∨ s = .missing then none else some (t.str rt.py, s)
  | _, _ => none

/-- The key is in the lookup, whose keys have whole numbers. -/
def matcherFinds (trip seq : Json) : Bool :=
  (matcherKey rt trip seq).any fun key ↦
    (wholeNumber key.2).any fun n ↦ (stopTimesLookup (key.1, n)).isSome

/-- The counter returns, its categories are a partition of the rows, and it counts a row as matched
exactly if the matcher finds its key. -/
def CountsLikeMatcher (pings : Frame RawPing) : Prop :=
  (∃ stats, computeMatchingStats rt stopTimesLookup pings = .ok stats ∧
    stats.totalPings = stats.matchedPings + stats.missingFieldPings + stats.unmatchedPings ∧
    stats.totalPings = pings.rows.length ∧
    stats.matchedPings = (pings.rows.map (fields pings)).countP fun values ↦
      matcherFinds rt stopTimesLookup values.1 values.2) ∧
  ∀ values ∈ pings.rows.map (fields pings),
    categorize rt stopTimesLookup values.1 values.2 = .ok .matched ↔
      matcherFinds rt stopTimesLookup values.1 values.2

/-- The row has a trip and a sequence. -/
def HasFields (trip seq : Json) : Prop := nullTest rt trip seq = some false ∧ trip.str rt ≠ ""

/-- The rows that the counter treats as the matcher does. -/
structure Clear (trip seq : Json) : Prop where
  tested : nullTest rt trip seq ≠ none
  finite : HasFields rt trip seq → ∀ negative, seq ≠ .cell (.infinity negative)
  same : HasFields rt trip seq → ∀ n, sequenceNumber rt seq = .ok (some n) →
    (stopTimesLookup (trip.str rt, n)).isSome →
    ∃ t s, trip = .cell t ∧ seq = .cell s ∧ wholeNumber s = some n
  named : ∀ s n, matcherKey rt trip seq = some ("", s) → wholeNumber s = some n →
    stopTimesLookup ("", n) = none

end

/-! ## A row -/

section

variable {rt : Runtime} {stopTimesLookup : String × ℤ → Option ScheduledStopTime} {trip seq : Json}

theorem toInt_of_wholeNumber {py : Python} {c : Cell} {n : ℤ} (h : wholeNumber c = some n) :
    c.toInt py = .ok n := by
  cases c with
  | int m => exact congrArg Except.ok (Option.some.inj h)
  | float q =>
    rw [wholeNumber] at h
    split_ifs at h with hden
    obtain rfl : q.num = n := Option.some.inj h
    have hq := truncate_intCast q.num
    rw [Rat.coe_int_num_of_den_eq_one hden] at hq
    exact congrArg Except.ok hq
  | bool b => exact congrArg Except.ok (Option.some.inj h)
  | missing | infinity _ | text _ => cases h

theorem sequenceNumber_of_wholeNumber {s : Cell} {n : ℤ} (h : wholeNumber s = some n) :
    sequenceNumber rt (.cell s) = .ok (some n) := by
  rw [sequenceNumber, toInt_of_wholeNumber h]

theorem sequenceNumber_eq_error {e : CountError} (h : sequenceNumber rt seq = .error e) :
    ∃ negative, seq = .cell (.infinity negative) := by
  cases seq with
  | null | list _ | object _ => cases h
  | cell c =>
    cases c with
    | infinity negative => exact ⟨negative, rfl⟩
    | int _ | float _ | bool _ | missing => cases h
    | text s =>
      rw [sequenceNumber, Cell.toInt] at h
      cases hread : readInt rt.py s with
      | none =>
        rw [hread] at h
        cases h
      | some n =>
        rw [hread] at h
        cases h

theorem matcherFinds_iff : matcherFinds rt stopTimesLookup trip seq = true ↔
    ∃ t s n, matcherKey rt trip seq = some (t, s) ∧ wholeNumber s = some n ∧
      (stopTimesLookup (t, n)).isSome := by
  rw [matcherFinds, Option.any_eq_true]
  simp only [Option.any_eq_true, Prod.exists]
  constructor
  · rintro ⟨t, s, hkey, n, hn, hfound⟩
    exact ⟨t, s, n, hkey, hn, hfound⟩
  · rintro ⟨t, s, n, hkey, hn, hfound⟩
    exact ⟨t, s, hkey, n, hn, hfound⟩

theorem matcherKey_eq_some {key : String × Cell} (h : matcherKey rt trip seq = some key) :
    ∃ t s, trip = .cell t ∧ seq = .cell s ∧ nullTest rt trip seq = some false ∧
      key = (trip.str rt, s) := by
  cases trip with
  | null | list _ | object _ => cases h
  | cell t =>
    cases seq with
    | null | list _ | object _ => cases h
    | cell s =>
      rw [matcherKey] at h
      split_ifs at h with hmissing
      obtain ⟨ht, hs⟩ := not_or.mp hmissing
      refine ⟨t, s, rfl, rfl, ?_, (Option.some.inj h).symm⟩
      change (do if ← some (decide (t = .missing)) then some true else some (decide (s = .missing)))
        = some false
      rw [decide_eq_false ht, decide_eq_false hs]
      rfl

theorem matcherKey_of_nullTest {t s : Cell} (h : nullTest rt (.cell t) (.cell s) = some false) :
    matcherKey rt (.cell t) (.cell s) = some (t.str rt.py, s) := by
  have htest : (if decide (t = .missing) = true then some true else some (decide (s = .missing))) =
      some false := h
  have ht : ¬t = .missing := by
    intro ht
    rw [if_pos (decide_eq_true ht)] at htest
    cases htest
  rw [if_neg fun hd ↦ ht (of_decide_eq_true hd)] at htest
  have hs : ¬s = .missing := of_decide_eq_false (Option.some.inj htest)
  rw [matcherKey, if_neg (not_or.mpr ⟨ht, hs⟩)]

/-- The counter handles the row, and calls it matched exactly if the matcher finds its key. -/
def RowAgrees (rt : Runtime) (stopTimesLookup : String × ℤ → Option ScheduledStopTime)
    (trip seq : Json) : Prop :=
  Succeeds (categorize rt stopTimesLookup trip seq) ∧
    (categorize rt stopTimesLookup trip seq = .ok .matched ↔
      matcherFinds rt stopTimesLookup trip seq)

theorem rowAgrees_iff_of_not_hasFields (htested : nullTest rt trip seq ≠ none)
    (h : ¬HasFields rt trip seq) : RowAgrees rt stopTimesLookup trip seq ↔
      ∀ s n, matcherKey rt trip seq = some ("", s) → wholeNumber s = some n →
        stopTimesLookup ("", n) = none := by
  have hmissing : categorize rt stopTimesLookup trip seq = .ok .missing := by
    rw [categorize]
    rcases htest : nullTest rt trip seq with _ | _ | _
    · exact absurd htest htested
    · exact if_pos (not_not.mp fun hne ↦ h ⟨htest, hne⟩)
    · rfl
  have hnot : ¬(.ok .missing : Except CountError Category) = .ok .matched := by
    simp only [Except.ok.injEq, reduceCtorEq, not_false_eq_true]
  rw [RowAgrees, hmissing, and_iff_right succeeds_ok, iff_false_left hnot, matcherFinds_iff]
  constructor
  · intro hnot s n hkey hn
    exact Option.not_isSome_iff_eq_none.mp fun hfound ↦ hnot ⟨"", s, n, hkey, hn, hfound⟩
  · rintro hnamed ⟨t, s, n, hkey, hn, hfound⟩
    obtain ⟨_, _, -, -, htest, hpair⟩ := matcherKey_eq_some hkey
    obtain rfl : t = "" := by
      rw [(Prod.mk.inj hpair).1]
      exact not_not.mp fun hne ↦ h ⟨htest, hne⟩
    rw [hnamed s n hkey hn] at hfound
    cases hfound

/-- Where a row has both fields, the matcher finds its key exactly if the counter's key is there, is
that of the cells themselves, and is found. -/
theorem matcherFinds_iff_of_hasFields (h : HasFields rt trip seq) :
    matcherFinds rt stopTimesLookup trip seq = true ↔
      ∃ n t s, trip = .cell t ∧ seq = .cell s ∧ wholeNumber s = some n ∧
        (stopTimesLookup (trip.str rt, n)).isSome := by
  rw [matcherFinds_iff]
  constructor
  · rintro ⟨t, s, n, hkey, hn, hfound⟩
    obtain ⟨t', s', htrip, hseq, -, hpair⟩ := matcherKey_eq_some hkey
    obtain ⟨rfl, rfl⟩ := Prod.mk.inj hpair
    exact ⟨n, t', s, htrip, hseq, hn, hfound⟩
  · rintro ⟨n, t, s, rfl, rfl, hn, hfound⟩
    exact ⟨t.str rt.py, s, n, matcherKey_of_nullTest h.1, hn, hfound⟩

theorem categorize_of_hasFields (h : HasFields rt trip seq) :
    categorize rt stopTimesLookup trip seq =
      (sequenceNumber rt seq).map (categoryOf stopTimesLookup (trip.str rt)) := by
  rw [categorize, h.1]
  exact if_neg h.2

theorem categoryOf_eq_matched {tripId : String} {number : Option ℤ} :
    categoryOf stopTimesLookup tripId number = .matched ↔
      ∃ n, number = some n ∧ (stopTimesLookup (tripId, n)).isSome := by
  cases number with
  | none => exact iff_of_false nofun (by rintro ⟨n, hn, -⟩; cases hn)
  | some n =>
    rw [categoryOf]
    split_ifs with hfound
    · exact iff_of_true rfl ⟨n, rfl, hfound⟩
    · refine iff_of_false nofun ?_
      rintro ⟨m, hm, hfound'⟩
      exact hfound (Option.some.inj hm ▸ hfound')

theorem rowAgrees_iff_of_hasFields (h : HasFields rt trip seq) :
    RowAgrees rt stopTimesLookup trip seq ↔
      (∀ negative, seq ≠ .cell (.infinity negative)) ∧
      ∀ n, sequenceNumber rt seq = .ok (some n) → (stopTimesLookup (trip.str rt, n)).isSome →
        ∃ t s, trip = .cell t ∧ seq = .cell s ∧ wholeNumber s = some n := by
  rw [RowAgrees, categorize_of_hasFields h, matcherFinds_iff_of_hasFields h]
  rcases hnumber : sequenceNumber rt seq with e | number
  · refine iff_of_false (fun hx ↦ not_succeeds_error hx.1) fun hx ↦ ?_
    obtain ⟨negative, hinfinity⟩ := sequenceNumber_eq_error hnumber
    exact hx.1 negative hinfinity
  · -- the counter returns: it agrees if what it finds, the matcher finds by the same number
    have hfinite (negative : Bool) : seq ≠ .cell (.infinity negative) := by
      rintro rfl
      cases hnumber
    rw [Except.map, and_iff_right succeeds_ok, and_iff_right hfinite, Except.ok.injEq,
      categoryOf_eq_matched]
    constructor
    · intro hmatched n hn hfound
      obtain ⟨m, t, s, htrip, rfl, hm, -⟩ :=
        hmatched.mp ⟨n, Except.ok.inj hn, hfound⟩
      refine ⟨t, s, htrip, rfl, hm.trans ?_⟩
      rw [sequenceNumber_of_wholeNumber hm] at hnumber
      exact (Except.ok.inj hnumber).trans (Except.ok.inj hn)
    · intro hsame
      constructor
      · rintro ⟨n, rfl, hfound⟩
        obtain ⟨t, s, htrip, hseq, hn⟩ := hsame n rfl hfound
        exact ⟨n, t, s, htrip, hseq, hn, hfound⟩
      · rintro ⟨n, t, s, -, rfl, hn, hfound⟩
        rw [sequenceNumber_of_wholeNumber hn] at hnumber
        exact ⟨n, (Except.ok.inj hnumber).symm, hfound⟩

/-- **The rows that the counter treats as the matcher does.** -/
theorem rowAgrees_iff : RowAgrees rt stopTimesLookup trip seq ↔
    Clear rt stopTimesLookup trip seq := by
  by_cases htested : nullTest rt trip seq = none
  · refine iff_of_false (fun h ↦ ?_) fun h ↦ h.tested htested
    rw [RowAgrees, categorize, htested] at h
    exact not_succeeds_error h.1
  by_cases hfields : HasFields rt trip seq
  · rw [rowAgrees_iff_of_hasFields hfields]
    constructor
    · rintro ⟨hfinite, hsame⟩
      refine ⟨htested, fun _ ↦ hfinite, fun _ ↦ hsame, fun s n hkey _ ↦ ?_⟩
      obtain ⟨_, _, -, -, -, hpair⟩ := matcherKey_eq_some hkey
      exact absurd (Prod.mk.inj hpair).1.symm hfields.2
    · exact fun h ↦ ⟨h.finite hfields, h.same hfields⟩
  · rw [rowAgrees_iff_of_not_hasFields htested hfields]
    exact ⟨fun h ↦ ⟨htested, fun hf ↦ absurd hf hfields, fun hf ↦ absurd hf hfields, h⟩,
      Clear.named⟩

end

/-! ## A window -/

section

variable {rt : Runtime} {stopTimesLookup : String × ℤ → Option ScheduledStopTime}
  {pings : Frame RawPing}

/-- The row falls into the category. -/
def isCategory (category : Category) : Except CountError Category → Bool
  | .ok c => c = category
  | .error _ => false

theorem isCategory_iff {category : Category} {x : Except CountError Category} :
    isCategory category x = true ↔ x = .ok category := by
  cases x with
  | error e => exact iff_of_false nofun nofun
  | ok c => rw [isCategory, decide_eq_true_iff, Except.ok.injEq]

/-- The counter of a category. -/
def counterOf (stats : MatchingStats) : Category → ℕ
  | .matched => stats.matchedPings
  | .missing => stats.missingFieldPings
  | .unmatched => stats.unmatchedPings

theorem counterOf_countOne (stats : MatchingStats) (category c : Category) :
    counterOf (countOne stats category) c =
      counterOf stats c + if isCategory c (.ok category) = true then 1 else 0 := by
  cases category <;> cases c <;> rfl

/-- The counters after some rows. -/
structure Counted (rt : Runtime) (stopTimesLookup : String × ℤ → Option ScheduledStopTime)
    (total : ℕ) (rows : List (Json × Json)) (stats : MatchingStats) : Prop where
  total : stats.totalPings = total
  partition : rows.length =
    stats.matchedPings + stats.missingFieldPings + stats.unmatchedPings
  counts : ∀ category, counterOf stats category = rows.countP fun values ↦
    isCategory category (categorize rt stopTimesLookup values.1 values.2)
  gate : stats.gateDroppedEvents = 0

theorem Counted.countOne {total : ℕ} {rows : List (Json × Json)} {stats : MatchingStats}
    {category : Category} {values : Json × Json} (h : Counted rt stopTimesLookup total rows stats)
    (hcategory : categorize rt stopTimesLookup values.1 values.2 = .ok category) :
    Counted rt stopTimesLookup total (rows ++ [values]) (countOne stats category) := by
  obtain ⟨htotal, hpartition, hcounts, hgate⟩ := h
  refine ⟨?_, ?_, fun c ↦ ?_, ?_⟩
  · cases category <;> exact htotal
  · rw [List.length_append, hpartition, List.length_singleton]
    cases category <;> simp only [Decoded.countOne] <;> omega
  · rw [counterOf_countOne, hcounts, List.countP_append, List.countP_singleton, hcategory]
  · cases category <;> exact hgate

theorem counted_of_applyAll {total : ℕ} {rows : List (Json × Json)} {stats : MatchingStats}
    (h : applyAll (fun values : Json × Json ↦
      (categorize rt stopTimesLookup values.1 values.2).map fun category stats ↦
        countOne stats category) rows ⟨total, 0, 0, 0, 0⟩ = .ok stats) :
    Counted rt stopTimesLookup total rows stats := by
  refine applyAll_induction (P := Counted rt stopTimesLookup total)
    ⟨rfl, rfl, fun category ↦ by cases category <;> rfl, rfl⟩ ?_ h
  intro before values u stats hcounted hu
  cases hcategory : categorize rt stopTimesLookup values.1 values.2 with
  | error e =>
    rw [hcategory] at hu
    cases hu
  | ok category =>
    rw [hcategory] at hu
    obtain rfl : (fun stats ↦ countOne stats category) = u := Except.ok.inj hu
    exact hcounted.countOne hcategory

/-- The counter returns exactly if it handles every row, and then it has counted them. -/
theorem succeeds_computeMatchingStats : Succeeds (computeMatchingStats rt stopTimesLookup pings) ↔
    ∀ values ∈ pings.rows.map (fields pings),
      Succeeds (categorize rt stopTimesLookup values.1 values.2) := by
  rw [computeMatchingStats]
  split_ifs with hempty
  · rw [List.length_eq_zero_iff.mp hempty]
    exact iff_of_true succeeds_ok fun values hvalues ↦ absurd hvalues List.not_mem_nil
  · rw [succeeds_applyAll]
    simp only [succeeds_map]

theorem counted_computeMatchingStats {stats : MatchingStats}
    (h : computeMatchingStats rt stopTimesLookup pings = .ok stats) :
    Counted rt stopTimesLookup pings.rows.length (pings.rows.map (fields pings)) stats := by
  rw [computeMatchingStats] at h
  split_ifs at h with hempty
  · rw [List.length_eq_zero_iff.mp hempty, ← Except.ok.inj h]
    exact ⟨rfl, rfl, fun category ↦ by cases category <;> rfl, rfl⟩
  · exact counted_of_applyAll h

/-- **When the counter counts like the matcher.** -/
theorem countsLikeMatcher_iff : CountsLikeMatcher rt stopTimesLookup pings ↔
    ∀ values ∈ pings.rows.map (fields pings),
      Clear rt stopTimesLookup values.1 values.2 := by
  simp only [← rowAgrees_iff]
  constructor
  · rintro ⟨⟨stats, hstats, -⟩, hrows⟩ values hvalues
    exact ⟨succeeds_computeMatchingStats.mp ⟨stats, hstats⟩ values hvalues, hrows values hvalues⟩
  · intro h
    obtain ⟨stats, hstats⟩ := succeeds_computeMatchingStats.mpr fun values hvalues ↦
      (h values hvalues).1
    have hcounted := counted_computeMatchingStats hstats
    have hlength : (pings.rows.map (fields pings)).length = pings.rows.length := List.length_map ..
    refine ⟨⟨stats, hstats, ?_, hcounted.total, ?_⟩, fun values hvalues ↦ (h values hvalues).2⟩
    · rw [hcounted.total, ← hlength, hcounted.partition]
    · refine (hcounted.counts .matched).trans ?_
      exact List.countP_congr fun values hvalues ↦ isCategory_iff.trans (h values hvalues).2

/-! ## Typed pings -/

attribute [ext] MatchingStats

/-- The cell of a number. -/
def numberCell (q : ℚ) : Cell := if q.den = 1 then .int q.num else .float q

theorem toInt_numberCell (py : Python) (q : ℚ) : (numberCell q).toInt py = .ok (truncate q) := by
  rw [numberCell]
  split_ifs with hden
  · have hq := truncate_intCast q.num
    rw [Rat.coe_int_num_of_den_eq_one hden] at hq
    rw [hq]
    rfl
  · rfl

/-- The values of a ping. -/
def rawPing (p : Ping) : RawPing where
  tripId := p.tripId.elim .null fun trip ↦ .cell (.text trip)
  currentStopSequence := p.currentStopSequence.elim .null fun q ↦ .cell (numberCell q)

/-- A window of typed pings. -/
def typedFrame (pings : List Ping) : Frame RawPing :=
  ⟨["trip_id", "current_stop_sequence"], pings.map rawPing⟩

/-- The category of a typed ping. -/
def categoryOfPing (stopTimesLookup : String × ℤ → Option ScheduledStopTime) (p : Ping) :
    Category :=
  p.stopTimesKey.elim .missing fun key ↦ categoryOf stopTimesLookup key.1 (some key.2)

theorem categorize_rawPing (p : Ping) :
    categorize rt stopTimesLookup (rawPing p).tripId (rawPing p).currentStopSequence =
      .ok (categoryOfPing stopTimesLookup p) := by
  rw [rawPing, categoryOfPing, Ping.stopTimesKey]
  rcases p.tripId with _ | trip
  · rfl
  rcases p.currentStopSequence with _ | q
  · rfl
  have htest : nullTest rt (.cell (.text trip)) (.cell (numberCell q)) = some false := by
    rw [numberCell]
    split_ifs <;> rfl
  have hseq : sequenceNumber rt (.cell (numberCell q)) = .ok (some (truncate q)) := by
    rw [sequenceNumber, toInt_numberCell]
  change categorize rt stopTimesLookup (.cell (.text trip)) (.cell (numberCell q)) = _
  have hstr : (Json.cell (.text trip)).str rt = trip := rfl
  rw [categorize, htest]
  by_cases hempty : trip = ""
  · refine (if_pos (hstr.trans hempty)).trans ?_
    dsimp only
    rw [if_pos hempty]
    rfl
  · refine (if_neg fun h ↦ hempty (hstr.symm.trans h)).trans ?_
    dsimp only
    rw [if_neg hempty, hseq]
    rfl

theorem counterOf_computeMatchingStats (pings : List Ping) (category : Category) :
    counterOf (Analytics.computeMatchingStats pings stopTimesLookup) category =
      pings.countP fun p ↦ categoryOfPing stopTimesLookup p = category := by
  have hkeys (q : String × ℤ → Bool) : (pings.filterMap Ping.stopTimesKey).countP q =
      pings.countP fun p ↦ (p.stopTimesKey.map q).getD false := List.countP_filterMap
  cases category with
  | matched =>
    refine (hkeys _).trans (List.countP_congr fun p _ ↦ ?_)
    rw [categoryOfPing]
    rcases p.stopTimesKey with _ | key
    · simp
    · cases hkey : stopTimesLookup key <;> simp [categoryOf, hkey]
  | missing =>
    refine List.countP_congr fun p _ ↦ ?_
    rw [categoryOfPing]
    rcases p.stopTimesKey with _ | key
    · simp
    · cases hkey : stopTimesLookup key <;> simp [categoryOf, hkey]
  | unmatched =>
    refine (hkeys _).trans (List.countP_congr fun p _ ↦ ?_)
    rw [categoryOfPing]
    rcases p.stopTimesKey with _ | key
    · simp
    · cases hkey : stopTimesLookup key <;> simp [categoryOf, hkey]

/-- **On typed pings the counter is the one of the typed model**, and never fails. -/
theorem computeMatchingStats_typed (pings : List Ping) :
    computeMatchingStats rt stopTimesLookup (typedFrame pings) =
      .ok (Analytics.computeMatchingStats pings stopTimesLookup) := by
  have hrows : (typedFrame pings).rows.map (fields (typedFrame pings)) =
      pings.map fun p ↦ ((rawPing p).tripId, (rawPing p).currentStopSequence) := by
    rw [typedFrame, List.map_map]
    rfl
  have hhandled : ∀ values ∈ (typedFrame pings).rows.map (fields (typedFrame pings)),
      Succeeds (categorize rt stopTimesLookup values.1 values.2) := by
    rw [hrows]
    intro values hvalues
    obtain ⟨p, -, rfl⟩ := List.mem_map.mp hvalues
    exact ⟨_, categorize_rawPing p⟩
  obtain ⟨stats, hstats⟩ := succeeds_computeMatchingStats.mpr hhandled
  have hcounted := counted_computeMatchingStats hstats
  rw [hrows] at hcounted
  have hcount (category : Category) : counterOf stats category =
      counterOf (Analytics.computeMatchingStats pings stopTimesLookup) category := by
    rw [counterOf_computeMatchingStats, hcounted.counts, List.countP_map]
    refine List.countP_congr fun p _ ↦ ?_
    rw [Function.comp_apply, categorize_rawPing, isCategory]
  rw [hstats]
  exact congrArg Except.ok (MatchingStats.ext (hcounted.total.trans (List.length_map ..))
    (hcount .matched) (hcount .missing) (hcount .unmatched) hcounted.gate)

end

/-! ## A window in which the sequence is infinite -/

/-- Python with the decimal digits of ASCII, in which an array of several elements has no truth
value. -/
def plainRuntime : Runtime where
  py := {
    digit c := if c.isDigit then some (c.toNat - 48) else none
    readFloat _ := none
    reprFloat _ := "1.5"
    sha256 s := s }
  repr _ := "[]"
  isnaList values := if 1 < values.length then none else some false

/-- One arrival of the trip `t1`, at its third stop. -/
def oneArrival (key : String × ℤ) : Option ScheduledStopTime :=
  if key = ("t1", 3) then some ⟨"t1", 3, some 28800, none, none⟩ else none

/-- A window with one ping of the trip `t1`. -/
def oneRow (seq : Json) : Frame RawPing :=
  ⟨["trip_id", "current_stop_sequence"], [⟨.cell (.text "t1"), seq⟩]⟩

/-- An infinite sequence leaves the loop, and so does a list of two numbers. A numeric text is
counted as matched, which the matcher does not find. -/
theorem not_countsLikeMatcher_infinity :
    ¬CountsLikeMatcher plainRuntime oneArrival (oneRow (.cell (.infinity false))) ∧
    ¬CountsLikeMatcher plainRuntime oneArrival (oneRow (.list [.cell (.int 3), .cell (.int 4)])) ∧
    ¬CountsLikeMatcher plainRuntime oneArrival (oneRow (.cell (.text "3"))) := by
  refine ⟨?_, ?_, ?_⟩
  · rintro ⟨⟨stats, hstats, -⟩, -⟩
    cases hstats
  · rintro ⟨⟨stats, hstats, -⟩, -⟩
    cases hstats
  · rintro ⟨-, hrows⟩
    have hrow := hrows (.cell (.text "t1"), .cell (.text "3")) List.mem_cons_self
    exact absurd (hrow.mp rfl) (by decide)

end GtfsStream.Analytics.Decoded
