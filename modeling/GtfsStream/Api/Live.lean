import GtfsStream.Analytics.Writer
import GtfsStream.Library.IsoDate

/-!
# The live endpoint

`createStatusRouter`: `GET /v1/status/live` with its cache. The handler runs in two parts that are
not interrupted, before and after its two queries, and between them other requests are handled and
the collections change. Each query is answered at one moment; a cursor that meets a write on its way
is left out. The order of the documents that a query finds is left open. A handler is known by a
number, which may be used again once it has ended. The log line is left out.
-/

namespace GtfsStream.Api

open Analytics

/-! ## The payload -/

/-- How far back the live data goes. -/
def liveWindow : Time := minutes 3

def cacheTtl : Time := seconds 5

abbrev DeviationDoc := DeviationKey × DeviationDocument

abbrev BunchingDoc := BunchingKey × BunchingDocument

/-- The instant of a document as the driver hands it out, without microseconds. -/
def isoString (t : Time) : String := Calendar.toISOString (t / 1000)

structure DelayEntry where
  vehicleId : String
  tripId : String
  routeId : Option String
  routeLongName : Option String
  directionId : Option ℤ
  kind : Kind
  deviationSeconds : Time
  scheduledAt : String
  actualAt : String
  location : Option (ℚ × ℚ)

structure BunchingEntry where
  routeId : String
  directionId : ℤ
  vehicleA : String
  vehicleB : String
  startTime : String
  endTime : String
  observationCount : ℕ
  minDistanceMeters : ℚ

structure LiveResponse where
  delays : List DelayEntry
  bunching : List BunchingEntry
  generatedAt : String
  delayCount : ℕ
  bunchingCount : ℕ

/-- The writer sets no direction in a document, so the entry has none. -/
def delayEntry (doc : DeviationDoc) : DelayEntry where
  vehicleId := doc.1.1
  tripId := doc.1.2.1
  routeId := doc.2.routeId
  routeLongName := doc.2.routeLongName
  directionId := none
  kind := doc.1.2.2.2
  deviationSeconds := doc.2.deviationSeconds
  scheduledAt := isoString doc.2.scheduledAt
  actualAt := isoString doc.2.actualAt
  location := doc.2.location

def bunchingEntry (doc : BunchingDoc) : BunchingEntry where
  routeId := doc.1.1.routeId
  directionId := doc.1.1.directionId
  vehicleA := doc.1.1.vehicleA
  vehicleB := doc.1.1.vehicleB
  startTime := isoString doc.1.2
  endTime := isoString doc.2.endTime
  observationCount := doc.2.observationCount
  minDistanceMeters := doc.2.minDistanceMeters

def liveResponse (deviationDocs : List DeviationDoc) (bunchingDocs : List BunchingDoc)
    (generatedAt : Time) : LiveResponse where
  delays := deviationDocs.map delayEntry
  bunching := bunchingDocs.map bunchingEntry
  generatedAt := isoString generatedAt
  delayCount := deviationDocs.length
  bunchingCount := bunchingDocs.length

/-! ## Queries -/

/-- What `find` may give for a filter: the documents that match at one moment, in any order. -/
structure Finds {κ δ : Type*} (docs : κ → Option δ) (filter : κ → δ → Prop)
    (answer : List (κ × δ)) : Prop where
  nodup : (answer.map Prod.fst).Nodup
  mem_iff : ∀ k d, (k, d) ∈ answer ↔ docs k = some d ∧ filter k d

def FindsDeviations (docs : Documents) (cutoff : Time) : List DeviationDoc → Prop :=
  Finds docs.scheduleDeviations fun _ d ↦ cutoff ≤ d.actualAt

def FindsBunching (docs : Documents) (cutoff : Time) : List BunchingDoc → Prop :=
  Finds docs.bunchingEvents fun _ d ↦ cutoff ≤ d.endTime

/-! ## The handlers -/

/-- A handler that waits for its queries. -/
structure Pending where
  cutoff : Time
  deviationDocs : Option (List DeviationDoc) := none
  bunchingDocs : Option (List BunchingDoc) := none

structure Server where
  docs : Documents
  cached : Option (LiveResponse × Time) := none
  pending : ℕ → Option Pending := fun _ ↦ none

/-- The cached payload, where it is fresh enough. -/
def Server.fresh (s : Server) (now : Time) : Option LiveResponse :=
  match s.cached with
  | some (payload, cachedAt) => if now - cachedAt < cacheTtl then some payload else none
  | none => none

/-- What happens, with the readings of the clock: the collections change, a request is answered from
the cache or starts its queries, a query is answered, and a handler sends its response, or its
error. -/
inductive Event
  | change (docs : Documents)
  | hit (now : Time) (response : LiveResponse)
  | miss (handler : ℕ) (checkedAt now : Time)
  | foundDeviations (handler : ℕ)
  | foundBunching (handler : ℕ)
  | response (handler : ℕ) (generatedAt cachedAt : Time) (response : LiveResponse)
  | error (handler : ℕ)

inductive Step : Server → Event → Server → Prop
  | change (s : Server) (docs : Documents) : Step s (.change docs) { s with docs := docs }
  | hit (s : Server) (now : Time) (payload : LiveResponse) (hfresh : s.fresh now = some payload) :
      Step s (.hit now payload) s
  | miss (s : Server) (handler : ℕ) (checkedAt now : Time) (hstale : s.fresh checkedAt = none)
      (hfree : s.pending handler = none) :
      Step s (.miss handler checkedAt now)
        { s with
          pending := Function.update s.pending handler (some { cutoff := now - liveWindow }) }
  | foundDeviations (s : Server) (handler : ℕ) (p : Pending) (answer : List DeviationDoc)
      (hp : s.pending handler = some p) (hanswer : FindsDeviations s.docs p.cutoff answer) :
      Step s (.foundDeviations handler)
        { s with
          pending := Function.update s.pending handler
            (some { p with deviationDocs := some answer }) }
  | foundBunching (s : Server) (handler : ℕ) (p : Pending) (answer : List BunchingDoc)
      (hp : s.pending handler = some p) (hanswer : FindsBunching s.docs p.cutoff answer) :
      Step s (.foundBunching handler)
        { s with
          pending := Function.update s.pending handler
            (some { p with bunchingDocs := some answer }) }
  | response (s : Server) (handler : ℕ) (p : Pending) (deviationDocs : List DeviationDoc)
      (bunchingDocs : List BunchingDoc) (generatedAt cachedAt : Time)
      (hp : s.pending handler = some p) (hdeviations : p.deviationDocs = some deviationDocs)
      (hbunching : p.bunchingDocs = some bunchingDocs) :
      Step s
        (.response handler generatedAt cachedAt
          (liveResponse deviationDocs bunchingDocs generatedAt))
        { s with
          cached := some (liveResponse deviationDocs bunchingDocs generatedAt, cachedAt)
          pending := Function.update s.pending handler none }
  | error (s : Server) (handler : ℕ) :
      Step s (.error handler) { s with pending := Function.update s.pending handler none }

/-- The events that lead from a server that has just started to another state of it. -/
inductive Run (docs : Documents) : List Event → Server → Prop
  | start : Run docs [] { docs := docs }
  | step {log : List Event} {s s' : Server} {e : Event} (hrun : Run docs log s)
      (hstep : Step s e s') : Run docs (log ++ [e]) s'

/-- The readings of the clock, in the order in which they are taken. -/
def Event.readings : Event → List Time
  | .hit now _ => [now]
  | .miss _ checkedAt now => [checkedAt, now]
  | .response _ generatedAt cachedAt _ => [generatedAt, cachedAt]
  | _ => []

/-- The clock of a run does not go back. -/
def ClockForward (log : List Event) : Prop := (log.flatMap Event.readings).Pairwise (· ≤ ·)

end GtfsStream.Api
