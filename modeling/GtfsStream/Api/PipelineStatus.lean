import GtfsStream.Alerting.PipelineStatus
import GtfsStream.Api.Live

/-!
# The pipeline status endpoint

`createPipelineStatusRouter`, over the document that the analytics engine leaves in the database.
-/

namespace GtfsStream.Api

open Analytics Alerting

structure PipelineStatusResponse where
  generatedAt : String
  reportedAt : String
  statusAgeSeconds : ℤ
  lastMessageAt : Option String
  lastMessageAgeSeconds : Option ℤ
  consumerLagMessages : Option ℕ
  lastStaticReloadAt : Option String
  staticBundleVersion : Option String
  windowTotalRecords : ℕ
  lastWindow : Option MatchingDocument
  cumulative : Option MatchingDocument
  alerts : List Alert

def noStatusError : String :=
  "No pipeline status reported yet — the analytics engine has not written the " ++
    "pipeline_status document."

/-- The age of a date of the document in seconds, rounded half up as `Math.round` does. The clock
and the dates have milliseconds. -/
def ageSeconds (now value : Time) : ℤ := max 0 ((now / 1000 - value / 1000 + 500) / 1000)

/-- The answer to a request; the error is sent with status 503. -/
def pipelineStatus (doc : Option PipelineStatusDocument) (now : Time) :
    Except String PipelineStatusResponse :=
  match doc with
  | none => .error noStatusError
  | some doc =>
    .ok
      { generatedAt := isoString now
        reportedAt := isoString doc.reportedAt
        statusAgeSeconds := ageSeconds now doc.reportedAt
        lastMessageAt := doc.lastMessageAt.map isoString
        lastMessageAgeSeconds := doc.lastMessageAt.map (ageSeconds now)
        consumerLagMessages := doc.consumerLagMessages
        lastStaticReloadAt := doc.lastStaticReloadAt.map isoString
        staticBundleVersion := doc.staticBundleVersion
        windowTotalRecords := doc.windowTotalRecords
        lastWindow := doc.lastWindow
        cumulative := doc.cumulative
        alerts := doc.alerts }

end GtfsStream.Api
