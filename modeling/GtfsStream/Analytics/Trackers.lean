import GtfsStream.Analytics.Bunching
import GtfsStream.Analytics.ScheduleDeviation
import Mathlib.Logic.Function.Basic

/-!
# The dedup trackers

`_BunchingEventTracker` and `_DeviationResultTracker`, which live in the memory of the process.
A dictionary is the function of its `get`.
-/

namespace GtfsStream.Analytics

def windowSeconds : ℕ := 60

def overlapSeconds : ℕ := minConsecutiveObservations * pollIntervalSeconds

def trackerRetentionSeconds : ℕ := windowSeconds * 10

/-- Whether an entry of this time survives the purge of a window. Without a reference time none
does. -/
def retained (referenceTime : Option Time) (t : Time) : Bool :=
  match referenceTime with
  | none => false
  | some reference => reference - seconds trackerRetentionSeconds ≤ t

/-- A dictionary without the entries whose time is not retained. -/
def purgeStale {κ ν : Type*} (time : ν → Time) (referenceTime : Option Time)
    (entries : κ → Option ν) :
    κ → Option ν :=
  fun key ↦ (entries key).filter fun entry ↦ retained referenceTime (time entry)

/-! ## Bunching events -/

inductive Action
  | new
  | update
  deriving DecidableEq

abbrev BunchingEventTracker := PairKey → Option BunchingEvent

namespace BunchingEventTracker

/-- The event starts no later than one poll interval after the end of the tracked one. -/
def isContinuation (previous event : BunchingEvent) : Bool :=
  event.startTime ≤ previous.endTime + seconds pollIntervalSeconds

def updatedEvent (previous event : BunchingEvent) : BunchingEvent :=
  { event with
    startTime := min previous.startTime event.startTime
    minDistanceMeters := min previous.minDistanceMeters event.minDistanceMeters }

/-- What is emitted for an event next to the tracked event of its pair, if anything. -/
def action (previous : Option BunchingEvent) (event : BunchingEvent) :
    Option (Action × BunchingEvent) :=
  match previous with
  | none => some (.new, event)
  | some previous =>
    if isContinuation previous event then
      -- an overlap shows the same rows again; only what goes on past the tracked end is news
      if previous.endTime < event.endTime then some (.update, updatedEvent previous event) else none
    else some (.new, event)

/-- One event: an emitted event is also the one that is tracked from now on. -/
def reconcileOne (tracker : BunchingEventTracker) (event : BunchingEvent) :
    List (Action × BunchingEvent) × BunchingEventTracker :=
  match action (tracker event.key) event with
  | none => ([], tracker)
  | some (act, emitted) => ([(act, emitted)], Function.update tracker event.key (some emitted))

/-- The events of a window, one after the other, without the purge. -/
def reconcileAll (tracker : BunchingEventTracker) :
    List BunchingEvent → List (Action × BunchingEvent) × BunchingEventTracker
  | [] => ([], tracker)
  | event :: events =>
    let one := reconcileOne tracker event
    let rest := reconcileAll one.2 events
    (one.1 ++ rest.1, rest.2)

def reconcile (tracker : BunchingEventTracker) (events : List BunchingEvent)
    (referenceTime : Option Time) : List (Action × BunchingEvent) × BunchingEventTracker :=
  let result := reconcileAll tracker events
  (result.1, purgeStale BunchingEvent.endTime referenceTime result.2)

end BunchingEventTracker

/-! ## Deviations -/

abbrev DeviationKey := String × String × ℤ × Kind

def DeviationResult.key (r : DeviationResult) : DeviationKey :=
  (r.vehicleId, r.tripId, r.stopSequence, r.kind)

/-- The time of the result that was let through for a key. -/
abbrev DeviationResultTracker := DeviationKey → Option Time

namespace DeviationResultTracker

/-- The results whose key was not seen before, without the purge. -/
def filterAll (seen : DeviationResultTracker) :
    List DeviationResult → List DeviationResult × DeviationResultTracker
  | [] => ([], seen)
  | result :: results =>
    if (seen result.key).isSome then filterAll seen results
    else
      let rest := filterAll (Function.update seen result.key (some result.actualAt)) results
      (result :: rest.1, rest.2)

def filterNew (seen : DeviationResultTracker) (results : List DeviationResult)
    (referenceTime : Option Time) : List DeviationResult × DeviationResultTracker :=
  let result := filterAll seen results
  (result.1, purgeStale id referenceTime result.2)

end DeviationResultTracker

end GtfsStream.Analytics
