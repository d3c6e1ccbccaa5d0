import GtfsStream.Analytics.Turns

/-!
# The documents of the sink

`MetricsWriter` upserts what a window carries: bunching events by pair and start, deviations by
their key. A collection is the function that finds the document of a natural key. The bulk writes
are unordered; no window carries two documents of one key. The status document and the indexes that
only serve reads are left out.
-/

namespace GtfsStream.Analytics

/-- The fields of a document of `bunching_events` outside its key. -/
structure BunchingDocument where
  endTime : Time
  observationCount : ℕ
  minDistanceMeters : ℚ
  lastAction : Action
  deriving DecidableEq

/-- The fields of a document of `schedule_deviations` outside its key. -/
structure DeviationDocument where
  scheduledAt : Time
  actualAt : Time
  deviationSeconds : Time
  location : Option (ℚ × ℚ)
  routeId : Option String
  routeLongName : Option String
  deriving DecidableEq

/-- What a bunching event is found by: the pair and the start. -/
abbrev BunchingKey := PairKey × Time

structure Documents where
  bunchingEvents : BunchingKey → Option BunchingDocument := fun _ ↦ none
  scheduleDeviations : DeviationKey → Option DeviationDocument := fun _ ↦ none

/-- The upserts of a bulk write, where `set` sets the fields of the document that is found. -/
def bulkWrite {κ δ : Type*} [DecidableEq κ] (set : Option δ → δ → δ) (docs : κ → Option δ)
    (operations : List (κ × δ)) : κ → Option δ :=
  operations.foldl
    (fun docs operation ↦
      Function.update docs operation.1 (some (set (docs operation.1) operation.2))) docs

def buildBunchingOperations (actions : List (Action × BunchingEvent)) :
    List (BunchingKey × BunchingDocument) :=
  actions.map fun (action, event) ↦
    ((event.key, event.startTime),
      { endTime := event.endTime
        observationCount := event.observationCount
        minDistanceMeters := event.minDistanceMeters
        lastAction := action })

def buildDeviationOperations (results : List DeviationResult) :
    List (DeviationKey × DeviationDocument) :=
  results.map fun result ↦
    (result.key,
      { scheduledAt := result.scheduledAt
        actualAt := result.actualAt
        deviationSeconds := result.deviationSeconds
        location := result.location
        routeId := result.routeId
        routeLongName := result.routeLongName })

/-- The fields that a result does not have are not set. -/
def setDeviation (found : Option DeviationDocument) (document : DeviationDocument) :
    DeviationDocument :=
  { document with
    location := document.location.or (found.bind DeviationDocument.location)
    routeId := document.routeId.or (found.bind DeviationDocument.routeId)
    routeLongName := document.routeLongName.or (found.bind DeviationDocument.routeLongName) }

namespace Documents

variable (docs : Documents)

def writeBunchingActions (actions : List (Action × BunchingEvent)) : Documents :=
  { docs with
    bunchingEvents :=
      bulkWrite (fun _ document ↦ document) docs.bunchingEvents (buildBunchingOperations actions) }

def writeDeviationResults (results : List DeviationResult) : Documents :=
  { docs with
    scheduleDeviations :=
      bulkWrite setDeviation docs.scheduleDeviations (buildDeviationOperations results) }

/-- Both writes of a window. -/
def persistWindow (result : WindowResult) : Documents :=
  (docs.writeBunchingActions result.bunchingActions).writeDeviationResults result.newDeviations

/-- The documents after the windows of a log that were persisted. -/
def persistLog (log : List Event) : Documents :=
  log.foldl (fun docs e ↦ match e with
    | .handed _ result true => docs.persistWindow result
    | _ => docs) docs

end Documents

variable {docs : Documents} {log : List Event}

theorem bulkWrite_cons {κ δ : Type*} [DecidableEq κ] {set : Option δ → δ → δ} {docs : κ → Option δ}
    (operation : κ × δ) (operations : List (κ × δ)) :
    bulkWrite set docs (operation :: operations) =
      bulkWrite set (Function.update docs operation.1
        (some (set (docs operation.1) operation.2))) operations :=
  rfl

/-- A bulk write leaves a document for the keys that had one and for those that it writes. -/
theorem bulkWrite_isSome {κ δ : Type*} [DecidableEq κ] {set : Option δ → δ → δ}
    {docs : κ → Option δ} {operations : List (κ × δ)} {k : κ} :
    (bulkWrite set docs operations k).isSome ↔
      (docs k).isSome ∨ ∃ operation ∈ operations, operation.1 = k := by
  induction operations generalizing docs with
  | nil => exact ⟨Or.inl, fun h ↦ h.resolve_right fun ⟨_, hmem, _⟩ ↦ absurd hmem List.not_mem_nil⟩
  | cons operation operations ih =>
    rw [bulkWrite_cons, ih, List.exists_mem_cons_iff]
    by_cases hk : operation.1 = k
    · rw [← hk, Function.update_self]
      exact iff_of_true (Or.inl rfl) (Or.inr (Or.inl rfl))
    · rw [Function.update_of_ne (Ne.symm hk)]
      exact or_congr_right (or_iff_right hk).symm

theorem persistLog_concat (e : Event) :
    docs.persistLog (log ++ [e]) = match e with
      | .handed _ result true => (docs.persistLog log).persistWindow result
      | _ => docs.persistLog log := by
  rw [Documents.persistLog, List.foldl_append]
  rfl

end GtfsStream.Analytics
