import GtfsStream.Analytics.Writer
import Mathlib.Data.Set.Card

/-!
# The count of deviations in an interval

The weekly volume rule compares the deviations of an hour with those of the same hour one week
before, both counted over the documents. The key of a document has no service day, so a vehicle
that serves a trip again on a later day writes over the document of the earlier day, and the
earlier hour counts one deviation less.

What an interval has of documents are the last writes of their keys; what was emitted in it are the
pairs of a key and a service day. The two counts agree exactly if every arrival of the interval is
still represented by the last write of its key.
-/

namespace GtfsStream.Analytics

/-- A persisted deviation, and the service day that its scheduled time belongs to. -/
structure Arrival where
  result : DeviationResult
  serviceDay : ℤ
  deriving DecidableEq

/-- The documents after a history of persisted windows. -/
def persistArrivals (history : List (List Arrival)) : Documents :=
  history.foldl (fun docs window ↦ docs.writeDeviationResults (window.map Arrival.result)) {}

/-- Whether a time lies in the interval, which contains its start and not its end. -/
def isBetween (start stop actualAt : Time) : Bool := start ≤ actualAt ∧ actualAt < stop

/-- The number of documents whose `actual_at` lies in the interval. -/
noncomputable def Documents.countDeviationsBetween (docs : Documents) (start stop : Time) : ℕ :=
  {key | ∃ document, docs.scheduleDeviations key = some document ∧
    isBetween start stop document.actualAt = true}.ncard

/-- The arrival events of a history in an interval: its keys with their service days. -/
def arrivalEvents (history : List (List Arrival)) (start stop : Time) :
    Finset (DeviationKey × ℤ) :=
  ((history.flatten.filter fun a ↦ isBetween start stop a.result.actualAt).map fun a ↦
    (a.result.key, a.serviceDay)).toFinset

/-- The last arrival that was persisted under a key. -/
def lastArrival (history : List (List Arrival)) (key : DeviationKey) : Option Arrival :=
  (history.flatten.filter fun a ↦ a.result.key = key).getLast?

variable {history : List (List Arrival)} {start stop : Time} {key : DeviationKey} {day : ℤ}

/-! ## The last write of a key -/

/-- Where the written fields alone decide what `f` reads, `f` reads the last write of a key. -/
theorem bulkWrite_map {κ δ τ : Type*} [DecidableEq κ] {set : Option δ → δ → δ} {f : δ → τ}
    (hf : ∀ found document, f (set found document) = f document) (docs : κ → Option δ)
    (operations : List (κ × δ)) (k : κ) :
    (bulkWrite set docs operations k).map f =
      ((operations.filter (·.1 = k)).getLast?.map fun operation ↦ f operation.2).or
        ((docs k).map f) := by
  induction operations using List.reverseRecOn with
  | nil => rfl
  | append_singleton operations operation ih =>
    have hstep : bulkWrite set docs (operations ++ [operation]) =
        Function.update (bulkWrite set docs operations) operation.1
          (some (set (bulkWrite set docs operations operation.1) operation.2)) := by
      rw [bulkWrite, List.foldl_append]
      rfl
    rw [hstep, List.filter_append]
    by_cases hk : operation.1 = k
    · rw [hk, Function.update_self, List.filter_cons_of_pos (by simpa using hk), List.filter_nil,
        List.getLast?_concat, Option.map_some, Option.map_some, Option.some_or, hf]
    · rw [Function.update_of_ne (Ne.symm hk), List.filter_cons_of_neg (by simpa using hk),
        List.filter_nil, List.append_nil, ih]

theorem persistArrivals_eq (history : List (List Arrival)) :
    persistArrivals history =
      ({} : Documents).writeDeviationResults (history.flatten.map Arrival.result) := by
  rw [persistArrivals]
  generalize ({} : Documents) = docs
  induction history generalizing docs with
  | nil => rfl
  | cons window history ih =>
    rw [List.foldl_cons, ih, List.flatten_cons, List.map_append]
    simp only [Documents.writeDeviationResults, buildDeviationOperations, bulkWrite,
      List.map_append, List.foldl_append]

theorem persistArrivals_actualAt (history : List (List Arrival)) (key : DeviationKey) :
    ((persistArrivals history).scheduleDeviations key).map DeviationDocument.actualAt =
      (lastArrival history key).map fun a ↦ a.result.actualAt := by
  have hset (found : Option DeviationDocument) (document : DeviationDocument) :
      (setDeviation found document).actualAt = document.actualAt := rfl
  rw [persistArrivals_eq, Documents.writeDeviationResults, bulkWrite_map hset, Option.map_none,
    Option.or_none, buildDeviationOperations, List.map_map, List.filter_map, List.getLast?_map,
    Option.map_map]
  rfl

theorem lastArrival_spec {a : Arrival} (h : lastArrival history key = some a) :
    a ∈ history.flatten ∧ a.result.key = key := by
  obtain ⟨hmem, hkey⟩ := List.mem_filter.mp (List.mem_of_getLast? h)
  exact ⟨hmem, of_decide_eq_true hkey⟩

theorem mem_arrivalEvents :
    (key, day) ∈ arrivalEvents history start stop ↔ ∃ a ∈ history.flatten,
      isBetween start stop a.result.actualAt = true ∧ a.result.key = key ∧ a.serviceDay = day := by
  simp only [arrivalEvents, List.mem_toFinset, List.mem_map, List.mem_filter, Prod.mk.injEq,
    and_assoc]

/-! ## The count -/

/-- The event is that of the last arrival of its key, and that one lies in the interval. -/
def Represented (history : List (List Arrival)) (start stop : Time) (event : DeviationKey × ℤ) :
    Prop :=
  ∃ a, lastArrival history event.1 = some a ∧ isBetween start stop a.result.actualAt = true ∧
    a.serviceDay = event.2

instance : DecidablePred (Represented history start stop) := fun event ↦
  decidable_of_iff ((lastArrival history event.1).any fun a ↦
      isBetween start stop a.result.actualAt && decide (a.serviceDay = event.2)) (by
    simp only [Represented, Option.any_eq_true, Bool.and_eq_true, decide_eq_true_eq])

theorem countDeviationsBetween_eq (history : List (List Arrival)) (start stop : Time) :
    (persistArrivals history).countDeviationsBetween start stop =
      ((arrivalEvents history start stop).filter (Represented history start stop)).card := by
  have hinj : Set.InjOn Prod.fst
      ((arrivalEvents history start stop).filter (Represented history start stop) :
        Set (DeviationKey × ℤ)) := by
    rintro ⟨key, day⟩ hx ⟨key', day'⟩ hy rfl
    obtain ⟨-, a, ha, -, rfl⟩ := Finset.mem_filter.mp hx
    obtain ⟨-, b, hb, -, rfl⟩ := Finset.mem_filter.mp hy
    rw [Option.some.inj (ha.symm.trans hb)]
  rw [← Finset.card_image_of_injOn hinj, ← Set.ncard_coe_finset, Documents.countDeviationsBetween]
  congr 1
  ext key
  have htime := persistArrivals_actualAt history key
  constructor
  · rintro ⟨document, hdocument, hbetween⟩
    rw [hdocument, Option.map_some] at htime
    obtain ⟨a, ha, hactual⟩ := Option.map_eq_some_iff.mp htime.symm
    obtain ⟨hmem, hkey⟩ := lastArrival_spec ha
    rw [← hactual] at hbetween
    rw [Finset.coe_image]
    refine ⟨(key, a.serviceDay), Finset.mem_filter.mpr ⟨?_, a, ha, hbetween, rfl⟩, rfl⟩
    exact mem_arrivalEvents.mpr ⟨a, hmem, hbetween, hkey, rfl⟩
  · rw [Finset.coe_image]
    rintro ⟨event, hevent, rfl⟩
    obtain ⟨-, a, ha, hbetween, -⟩ := Finset.mem_filter.mp hevent
    rw [ha, Option.map_some] at htime
    obtain ⟨document, hdocument, hactual⟩ := Option.map_eq_some_iff.mp htime
    exact ⟨document, hdocument, hactual ▸ hbetween⟩

/-- **The count of an interval is the number of its arrival events** exactly if the last arrival
that was persisted under the key of each of them lies in the interval too, on the same service
day. -/
theorem countDeviationsBetween_iff (history : List (List Arrival)) (start stop : Time) :
    (persistArrivals history).countDeviationsBetween start stop =
        (arrivalEvents history start stop).card ↔
      ∀ a ∈ history.flatten, isBetween start stop a.result.actualAt = true →
        ∃ b, lastArrival history a.result.key = some b ∧
          isBetween start stop b.result.actualAt = true ∧ b.serviceDay = a.serviceDay := by
  rw [countDeviationsBetween_eq, Finset.card_filter_eq_iff]
  constructor
  · intro h a hmem hbetween
    exact h (a.result.key, a.serviceDay) (mem_arrivalEvents.mpr ⟨a, hmem, hbetween, rfl, rfl⟩)
  · rintro h ⟨key, day⟩ hevent
    obtain ⟨a, hmem, hbetween, rfl, rfl⟩ := mem_arrivalEvents.mp hevent
    exact h a hmem hbetween

/-- A vehicle serves a trip on two days that follow each other, and is at the stop at noon. -/
def servedTwice : List (List Arrival) :=
  let arrival (day : ℕ) : Arrival :=
    { result :=
        { vehicleId := "V", tripId := "T", stopSequence := 1, kind := .arrival
          scheduledAt := seconds (86400 * day + 43200), actualAt := seconds (86400 * day + 43200)
          deviationSeconds := 0 }
      serviceDay := day }
  [[arrival 0], [arrival 1]]

/-- The hour of the first arrival counts nothing once the second one is persisted. -/
theorem not_countDeviationsBetween_servedTwice :
    (persistArrivals servedTwice).countDeviationsBetween (seconds 43200) (seconds 46800) ≠
      (arrivalEvents servedTwice (seconds 43200) (seconds 46800)).card := by
  rw [countDeviationsBetween_eq]
  decide +kernel

end GtfsStream.Analytics
