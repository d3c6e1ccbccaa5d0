import GtfsStream.Alerting.Alerter
import GtfsStream.Analytics.Consumer

/-!
# The pipeline status document

The snapshot of the pipeline's health that the consumer puts into a window result, and the one
document of `pipeline_status` that `on_window_result` replaces after the alerter has seen the
window. The document lives in the database, the alerter in the memory of the process.

A ratio is kept as the number that the division rounds, and an alert as the numbers of its text.
-/

namespace GtfsStream.Analytics

/-- The share of matched pings; an empty window has none. -/
def MatchingStats.matchedRatio (stats : MatchingStats) : Option ℚ :=
  if stats.totalPings = 0 then none else some (stats.matchedPings / stats.totalPings)

end GtfsStream.Analytics

open GtfsStream.Analytics

namespace GtfsStream.Alerting

/-! ## The snapshot -/

/-- What the client reports of an assigned partition: the high watermark and the offsets of the
positions. None stands for a call that raises. -/
structure PartitionReads where
  high : Option (Option ℤ)
  positions : Option (List (Option ℤ))

/-- The messages between the position and the tail of the partition. -/
def partitionLag (partition : PartitionReads) : Option ℕ :=
  match partition.high, partition.positions with
  | some (some high), some (some offset :: _) =>
    if offset < 0 then none else some (high - offset).toNat
  | _, _ => none

/-- The lag over the assigned partitions; `none` as the assignment stands for a call that raises. -/
def kafkaLagMessages (assignment : Option (List PartitionReads)) : Option ℕ :=
  match assignment with
  | none | some [] => none
  | some partitions => (partitions.mapM partitionLag).map List.sum

structure PipelineStats where
  lastMessageAt : Option Time
  consumerLagMessages : Option ℕ
  lastStaticReloadAt : Option Time
  staticBundleVersion : Option String

/-- A frame that the consumer processes, with what it reads for the snapshot. -/
structure HandedFrame where
  static : GtfsStaticData
  memory : Memory
  pings : List Analytics.Ping
  assignment : Option (List PartitionReads)
  loadedAt : Option Time
  version : Option String
  /-- An empty frame is not handed to the sink. -/
  nonempty : pings ≠ []

namespace HandedFrame

variable (frames : Frames) (zone : Zone) (f : HandedFrame)

def result : WindowResult := (processWindow frames zone f.static f.memory f.pings).1

def pipeline : PipelineStats where
  lastMessageAt := newest f.pings
  consumerLagMessages := kafkaLagMessages f.assignment
  lastStaticReloadAt := f.loadedAt
  staticBundleVersion := f.version

end HandedFrame

/-! ## The document -/

structure MatchingDocument where
  stats : MatchingStats
  matchedRatio : Option ℚ

def matchingDocument (stats : MatchingStats) : MatchingDocument := ⟨stats, stats.matchedRatio⟩

/-- The document. A field of the snapshot that is not set and one that is null read the same. -/
structure PipelineStatusDocument where
  reportedAt : Time
  windowTotalRecords : ℕ
  alerts : List Alert
  lastMessageAt : Option Time := none
  consumerLagMessages : Option ℕ := none
  lastStaticReloadAt : Option Time := none
  staticBundleVersion : Option String := none
  lastWindow : Option MatchingDocument := none
  cumulative : Option MatchingDocument := none

def buildPipelineStatusDocument (result : WindowResult) (pipeline : Option PipelineStats)
    (cumulativeMatching : MatchingStats) (activeAlerts : List Alert) (now : Time) :
    PipelineStatusDocument where
  reportedAt := now
  windowTotalRecords := result.totalRecords
  alerts := activeAlerts
  lastMessageAt := pipeline.bind PipelineStats.lastMessageAt
  consumerLagMessages := pipeline.bind PipelineStats.consumerLagMessages
  lastStaticReloadAt := pipeline.bind PipelineStats.lastStaticReloadAt
  staticBundleVersion := pipeline.bind PipelineStats.staticBundleVersion
  lastWindow := result.matching.map matchingDocument
  cumulative := result.matching.map fun _ ↦ matchingDocument cumulativeMatching

/-! ## The run -/

/-- A window in `on_window_result`: the reading of the clock, the counts of the database and whether
the document is written. -/
structure Observed where
  frame : HandedFrame
  now : Time
  count : Time → Time → Option ℕ
  written : Bool

inductive StatusEvent
  | window (w : Observed)
  | restart

structure Engine where
  alerter : Alerter := {}
  document : Option PipelineStatusDocument := none

section

variable (frames : Frames) (zone : Zone) (cfg : Config)

/-- The part of `on_window_result` between the two stores. A failed write leaves the document. -/
def Engine.onWindowResult (s : Engine) (w : Observed) : Engine :=
  let result := w.frame.result frames zone
  let alerter := s.alerter.observeWindow cfg w.now w.count result.matching
  { alerter := alerter
    document :=
      if w.written then
        some (buildPipelineStatusDocument result (some w.frame.pipeline) alerter.cumulative
          alerter.activeAlerts w.now)
      else s.document }

def Engine.step (s : Engine) : StatusEvent → Engine
  | .window w => s.onWindowResult frames zone cfg w
  -- the alerter starts anew, and the document stays
  | .restart => { s with alerter := {} }

def engineAfter (events : List StatusEvent) : Engine :=
  events.foldl (Engine.step frames zone cfg) {}

end

end GtfsStream.Alerting
