import GtfsStream.Alerting.Alerter
import GtfsStream.Ingestion.Validator
import GtfsStream.Library.Attempts

/-!
# The polling loop

`requestWithRetry`, `pollCycle` and the loop of `pollVehiclePositions`. A cycle is given what it
meets outside the process: the answers to its requests, the jitter, the time of the publication and
how the send ends. Decoding is the generated protobuf code, and a parameter. The delays are numbers
without rounding, and what is only logged is left out, except for the two lines on an outage.
-/

namespace GtfsStream.Ingestion

open Attempts

/-! ## Requests -/

/-- The status of the response, or none where there is no response. -/
structure AxiosError where
  status : Option ℕ
  deriving DecidableEq

def defaultShouldRetry (error : AxiosError) : Bool :=
  match error.status with
  | none => true
  | some status => status = 429 ∨ 500 ≤ status

structure RetryOptions where
  maxAttempts : ℕ := 3
  baseDelayMs : ℚ := 1000
  shouldRetry : AxiosError → ℕ → Bool := fun error _ ↦ defaultShouldRetry error

/-- The delay after an attempt, for a random number between 0 and 1. -/
def backoffDelay (baseDelayMs : ℚ) (attempt : ℕ) (random : ℚ) : ℚ :=
  baseDelayMs * 2 ^ (attempt - 1) * (4 / 5 + random * (2 / 5))

/-- How a request with its retries ends, and the delays between them. Without an attempt nothing is
thrown but `undefined`. -/
def requestWithRetry {α : Type*} (options : RetryOptions) (answer : ℕ → Except AxiosError α)
    (random : ℕ → ℚ) : Except (Option AxiosError) α × List ℚ :=
  let made := attempts options.shouldRetry answer options.maxAttempts
  (match made.last with
    | some (.ok data) => .ok data
    | some (.error error) => .error (some error)
    | none => .error none,
    made.retried.map fun attempt ↦ backoffDelay options.baseDelayMs attempt (random attempt))

/-! ## One cycle -/

inductive PollError
  | request (error : Option AxiosError)
  | emptyResponse
  | decode
  | publish

/-- How a send ends. One that fails may have written the records of some keys, since the partition
of a record is given by its key. -/
inductive SendOutcome
  | acked
  | failed (written : String → Bool)

/-- What one cycle meets outside the process. -/
structure Cycle where
  answer : ℕ → Except AxiosError (Option (List UInt8))
  random : ℕ → ℚ
  ingestedAt : String
  send : SendOutcome

/-- A record on the topic: its key and its value. -/
abbrev Record := String × Message

/-- The records that a publication writes, and how many there were or that it failed. Without
telemetries nothing is sent. -/
def publish (validTelemetries : List VehicleTelemetry) (ingestedAt : String)
    (send : SendOutcome) : List Record × Except PollError ℕ :=
  if validTelemetries.isEmpty then ([], .ok 0)
  else
    let messages := publishTelemetries validTelemetries ingestedAt
    match send with
    | .acked => (messages, .ok validTelemetries.length)
    | .failed written => (messages.filter fun m ↦ written m.1, .error .publish)

/-- The generated decoder. It may throw, and the message it gives need not have entities. -/
abbrev Decoder := List UInt8 → Option (Option (List DecodedVehiclePosition))

section

variable (decodeFeedMessage : Decoder)

def fetchFeedBuffer (cycle : Cycle) : Except PollError (List UInt8) :=
  match (requestWithRetry {} cycle.answer cycle.random).1 with
  | .error error => .error (.request error)
  | .ok none | .ok (some []) => .error .emptyResponse
  | .ok (some buffer) => .ok buffer

def decodeFeed (buffer : List UInt8) : Except PollError (List DecodedVehiclePosition) :=
  match decodeFeedMessage buffer with
  | none => .error .decode
  | some message => .ok (message.getD [])

/-- The records that a cycle writes, and how many it published and how many vehicles it omitted. -/
def pollCycle (cycle : Cycle) : List Record × Except PollError (ℕ × ℕ) :=
  match (fetchFeedBuffer cycle).bind (decodeFeed decodeFeedMessage) with
  | .error error => ([], .error error)
  | .ok entities =>
    let validated := vehiclesWithValidTelemetries entities
    let published := publish validated.1 cycle.ingestedAt cycle.send
    (published.1, published.2.map fun n ↦ (n, validated.2))

/-! ## The loop -/

def maxBackoffMs : ℕ := 5 * 60000

def baseIntervalMs : ℕ := 15000

def alertThreshold : ℕ := 5

def computeWaitMs (consecutiveFailures : ℕ) : ℕ :=
  if alertThreshold ≤ consecutiveFailures then
    min (baseIntervalMs * 2 ^ (consecutiveFailures - alertThreshold)) maxBackoffMs
  else baseIntervalMs

/-- What the loop did in one cycle: how the cycle ended, whether a recovery or an alert was logged,
the URLs that were pinged, and the wait after it. -/
structure Report where
  result : Except PollError (ℕ × ℕ)
  recovered : Bool
  alerted : Bool
  pings : List String
  waitMs : ℕ

structure Poller where
  consecutiveFailures : ℕ := 0
  topic : List Record := []
  reports : List Report := []

/-- The heartbeat, which is disabled without a URL. A transport that fails is logged and swallowed,
and the loop does not wait for it. -/
def heartbeat (pingUrl : Option String) (path : String) : List String :=
  match Alerting.checkUrl pingUrl with
  | none => []
  | some url => [url ++ path]

variable (pingUrl : Option String)

/-- One turn of the loop. -/
def Poller.turn (s : Poller) (cycle : Cycle) : Poller :=
  let polled := pollCycle decodeFeedMessage cycle
  match polled.2 with
  | .ok counts =>
    { consecutiveFailures := 0
      topic := s.topic ++ polled.1
      reports := s.reports ++
        [{ result := .ok counts
           recovered := s.consecutiveFailures = alertThreshold
           alerted := false
           pings := heartbeat pingUrl ""
           waitMs := computeWaitMs 0 }] }
  | .error error =>
    let failures := s.consecutiveFailures + 1
    { consecutiveFailures := failures
      topic := s.topic ++ polled.1
      reports := s.reports ++
        [{ result := .error error
           recovered := false
           alerted := alertThreshold ≤ failures
           pings := if alertThreshold ≤ failures then heartbeat pingUrl "/fail" else []
           waitMs := computeWaitMs failures }] }

/-- The cycles of a run. -/
def pollVehiclePositions (cycles : List Cycle) : Poller :=
  cycles.foldl (Poller.turn decodeFeedMessage pingUrl) {}

end

end GtfsStream.Ingestion
