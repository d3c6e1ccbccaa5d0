import GtfsStream.Analytics.Trackers

/-!
# The analytics consumer

`PingWindowBuffer`, `_process_window` and the loop of `run`. One turn of the loop is given what it
meets outside the process: the message, the readings of the clock, the lookups after a refresh and
the report of the sink. The snapshot of the pipeline's health in a window result is left out, and
so is what the refresh itself does.

A window is flushed outside of any `try`, so a timestamp that cannot be converted ends the run.
Inside, each of the two computations is guarded as a whole: where one arrival cannot be anchored,
the window has no deviations. The cutoffs of the trackers, ten minutes before the newest time, are
taken to be in the calendar, as is one poll interval after an event.
-/

namespace GtfsStream.Analytics

/-! ## The window buffer -/

/-- The newest time of the rows, or none where all are null. -/
def newest (rows : List Ping) : Option Time := (rows.filterMap Ping.timestampEastern).max?

/-- Whether a row of the frame is carried forward to the next window. -/
def carried (frame : List Ping) (row : Ping) : Bool :=
  match newest frame, row.timestampEastern with
  | some last, some t => last - seconds overlapSeconds ≤ t
  | _, _ => false

/-- The frame of the window, and the rows that are carried forward. A timestamp that `to_eastern`
does not convert raises, and so does a cutoff before the calendar. -/
def flush (zone : Zone) (rows : List Ping) : Option (List Ping × List Ping) :=
  if ∀ p ∈ rows, (zone.toEastern p.timestamp).isSome then
    if ∀ last ∈ newest rows, zone.HasTime (last - seconds overlapSeconds) then
      some (rows, rows.filter (carried rows))
    else none
  else none

/-! ## One window -/

def maxDeviationSeconds : ℕ := 30 * 60

/-- The deviation passes the gate. -/
def withinGate (r : DeviationResult) : Bool := |r.deviationSeconds| ≤ seconds maxDeviationSeconds

structure WindowResult where
  bunchingActions : List (Action × BunchingEvent)
  newDeviations : List DeviationResult
  totalRecords : ℕ
  matching : Option MatchingStats
  deriving DecidableEq

/-- What lives in the memory of the process: the rows of the buffer and the two trackers. -/
structure Memory where
  rows : List Ping := []
  bunchingTracker : BunchingEventTracker := fun _ ↦ none
  deviationTracker : DeviationResultTracker := fun _ ↦ none

section

variable (frames : Frames) (zone : Zone) (static : GtfsStaticData)

/-- The point of the scheduled stop: longitude, latitude. -/
def enrichWithLocation (r : DeviationResult) : DeviationResult :=
  match ((static.stopTimesLookup (r.tripId, r.stopSequence)).bind ScheduledStopTime.stopId).bind
      static.stopsLookup with
  | some ⟨some lat, some lon⟩ => { r with location := some (lon, lat) }
  | _ => r

def enrichWithRouteName (r : DeviationResult) : DeviationResult :=
  let routeId := static.tripRouteLookup r.tripId
  let routeName := match routeId with
    | some route => if route = "" then none else static.routesLookup route
    | none => none
  { r with routeId := routeId, routeLongName := routeName }

/-- The bunching events of a frame. -/
def windowEvents (pings : List Ping) : List BunchingEvent :=
  let pairs := findClosePairs frames static pings
  detectBunchingEvents pairs.1 (some pairs.2)

/-- The deviations of a frame before the gate, of the rows with a stop. -/
def windowArrivals (pings : List Ping) : Option (List DeviationResult) :=
  computeArrivalDeviations zone static.stopTimesLookup (pings.filter (·.stopId.isSome))

/-- The result that a frame is handed to the sink with, and the memory after it. Where the
deviations cannot be computed, none is new and their tracker is left alone. -/
def processWindow (memory : Memory) (pings : List Ping) : WindowResult × Memory :=
  let referenceTime := newest pings
  let matching := computeMatchingStats pings static.stopTimesLookup
  let bunching :=
    memory.bunchingTracker.reconcile (windowEvents frames static pings) referenceTime
  let memory := { memory with bunchingTracker := bunching.2 }
  match windowArrivals zone static pings with
  -- the exception is caught: the bunching actions of the window still go out
  | none =>
    ({ bunchingActions := bunching.1
       newDeviations := []
       totalRecords := pings.length
       matching := some matching }, memory)
  | some results =>
    let gated := results.filter withinGate
    let fresh := memory.deviationTracker.filterNew gated referenceTime
    ({ bunchingActions := bunching.1
       newDeviations := (fresh.1.map (enrichWithLocation static)).map (enrichWithRouteName static)
       totalRecords := pings.length
       matching := some { matching with
         gateDroppedEvents := results.length - gated.length } },
      { memory with deviationTracker := fresh.2 })

end

/-! ## The loop -/

/-- What a poll returns. -/
inductive Poll
  | nothing
  | error
  | noValue
  | malformed
  | message (p : Ping)

/-- How the sink ends: it reports success or failure, or it raises. -/
inductive Persist
  | success
  | failure
  | raises
  deriving DecidableEq

/-- What one turn of the loop meets outside the process. -/
structure Turn where
  poll : Poll
  static : GtfsStaticData
  persist : Persist
  jitter : Time
  windowCheckedAt : Time
  backoffCheckedAt : Time
  failedAt : Time
  flushedAt : Time

structure Settings where
  frames : Frames
  zone : Zone
  windowSeconds : ℕ := Analytics.windowSeconds
  retryBase : Time := seconds 1
  retryMax : Time := seconds 60

/-- What the consumer did: it received a message, handed a window to the sink, flushed a window in
backoff and dropped it, or committed the position after the messages received so far. -/
inductive Event
  | received (p : Option Ping)
  | handed (pings : List Ping) (result : WindowResult) (success : Bool)
  | dropped (pings : List Ping)
  | commit
  deriving DecidableEq

/-- The number of messages received: the offset of the next one. -/
def position (log : List Event) : ℕ := log.countP fun e ↦ e matches .received _

structure Consumer where
  memory : Memory := {}
  consecutiveFailures : ℕ := 0
  backoffUntil : Time := 0
  lastWindowFlush : Time
  log : List Event := []

namespace Consumer

variable (cfg : Settings) (s : Consumer) (turn : Turn)

def inBackoff (now : Time) : Bool := now < s.backoffUntil

/-- From 1024 failures on the power does not fit a float, and the product raises. -/
def enterBackoff : Option Consumer :=
  if 1024 ≤ s.consecutiveFailures then none
  else
    let delay := min cfg.retryMax (cfg.retryBase * 2 ^ s.consecutiveFailures) + turn.jitter
    some
      { s with
        backoffUntil := turn.failedAt + delay
        consecutiveFailures := s.consecutiveFailures + 1 }

def resetBackoff : Consumer := { s with consecutiveFailures := 0, backoffUntil := 0 }

/-- The message of the poll, and whether the rest of the turn is skipped. -/
def receive : Option (Consumer × Bool) :=
  match turn.poll with
  | .nothing => some (s, false)
  | .error => none
  -- both have moved the position, and both skip the end of the window
  | .noValue | .malformed => some ({ s with log := s.log ++ [.received none] }, true)
  | .message p =>
    let p := { p with offset := position s.log }
    some
      ({ s with
         memory := { s.memory with rows := s.memory.rows ++ [p] }
         log := s.log ++ [.received (some p)] }, false)

/-- The window is handed to the sink, and the report is acted on. An empty frame is not handed. -/
def persistWindow (pings : List Ping) : Option Consumer :=
  match pings with
  | [] => some s
  | pings =>
    let (result, memory) := processWindow cfg.frames cfg.zone turn.static s.memory pings
    match turn.persist with
    | .raises => none
    | .success =>
      let handed := { s with memory := memory, log := s.log ++ [Event.handed pings result true] }
      -- the only commit, and only after the sink has reported success
      some (resetBackoff { handed with log := handed.log ++ [Event.commit] })
    | .failure =>
      let handed := { s with memory := memory, log := s.log ++ [Event.handed pings result false] }
      -- the trackers keep what they learned from the window that failed
      handed.enterBackoff cfg turn

/-- The end of a window, once its time is over. -/
def closeWindow : Option Consumer :=
  if turn.windowCheckedAt - s.lastWindowFlush < seconds cfg.windowSeconds then some s
  else
    (flush cfg.zone s.memory.rows).bind fun (pings, carry) ↦
      let flushed := { s with memory := { s.memory with rows := carry } }
      let closed :=
        -- the buffer has been flushed before the backoff is looked at
        if flushed.inBackoff turn.backoffCheckedAt then
          some { flushed with log := flushed.log ++ [.dropped pings] }
        else flushed.persistWindow cfg turn pings
      closed.map fun s ↦ { s with lastWindowFlush := turn.flushedAt }

/-- One turn of the loop; none where it raises, which ends the run. -/
def step : Option Consumer :=
  (s.receive turn).bind fun (received, skip) ↦
    if skip then some received else received.closeWindow cfg turn

/-- The turns of a run. -/
def run (turns : List Turn) : Option Consumer := turns.foldlM (step cfg) s

end Consumer

end GtfsStream.Analytics
