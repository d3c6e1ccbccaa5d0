import GtfsStream.Alerting.Alerter
import GtfsStream.Alerting.MatchedRatio
import GtfsStream.Alerting.PipelineStatus
import GtfsStream.Alerting.VolumeRule
import GtfsStream.Analytics.Anchoring
import GtfsStream.Analytics.ArrivalSpec
import GtfsStream.Analytics.Backoff
import GtfsStream.Analytics.BadRow
import GtfsStream.Analytics.Bunching
import GtfsStream.Analytics.BunchingSpec
import GtfsStream.Analytics.ClosePairs
import GtfsStream.Analytics.CommitGating
import GtfsStream.Analytics.Consumer
import GtfsStream.Analytics.DeviationVolume
import GtfsStream.Analytics.Documented
import GtfsStream.Analytics.FailedPersist
import GtfsStream.Analytics.Feed
import GtfsStream.Analytics.FirstArrival
import GtfsStream.Analytics.IncidentIdentity
import GtfsStream.Analytics.IncidentRecord
import GtfsStream.Analytics.IncidentUpdates
import GtfsStream.Analytics.Isolation
import GtfsStream.Analytics.MatchingCounter
import GtfsStream.Analytics.OtherVehicles
import GtfsStream.Analytics.Overlap
import GtfsStream.Analytics.Provenance
import GtfsStream.Analytics.Redelivery
import GtfsStream.Analytics.ScheduleDeviation
import GtfsStream.Analytics.Segmentation
import GtfsStream.Analytics.Sightings
import GtfsStream.Analytics.TrackerSpec
import GtfsStream.Analytics.Trackers
import GtfsStream.Analytics.Turns
import GtfsStream.Analytics.TwoRuns
import GtfsStream.Analytics.WindowSpec
import GtfsStream.Analytics.WindowedBunching
import GtfsStream.Analytics.Writer
import GtfsStream.Api.HistoryProvenance
import GtfsStream.Api.Live
import GtfsStream.Api.LiveProvenance
import GtfsStream.Api.LiveSpec
import GtfsStream.Api.LiveWindows
import GtfsStream.Api.PipelineStatus
import GtfsStream.Api.PipelineStatusSpec
import GtfsStream.Api.RouteHistory
import GtfsStream.Api.RouteHistorySpec
import GtfsStream.Api.RoutePerformance
import GtfsStream.Api.RoutePerformanceSpec
import GtfsStream.Api.TimetableProvenance
import GtfsStream.Archive.BatchSpec
import GtfsStream.Archive.BufferSpec
import GtfsStream.Archive.CommitPrefix
import GtfsStream.Archive.Compactor
import GtfsStream.Archive.CompactorSpec
import GtfsStream.Archive.ConsumeLoop
import GtfsStream.Archive.CrashRecovery
import GtfsStream.Archive.CrashSafety
import GtfsStream.Archive.DailyLoop
import GtfsStream.Archive.Durability
import GtfsStream.Archive.Finalization
import GtfsStream.Archive.FinalizeSpec
import GtfsStream.Archive.Hours
import GtfsStream.Archive.Ledger
import GtfsStream.Archive.LoopDeadlines
import GtfsStream.Archive.PartialDeletion
import GtfsStream.Archive.PassGates
import GtfsStream.Archive.PassSpec
import GtfsStream.Archive.PassTurns
import GtfsStream.Archive.Recovery
import GtfsStream.Archive.Site
import GtfsStream.Archive.SiteSpec
import GtfsStream.Archive.SiteWriter
import GtfsStream.Archive.System
import GtfsStream.Archive.TwoTiers
import GtfsStream.Archive.Writer
import GtfsStream.Archive.WriterSpec
import GtfsStream.Frontend.HistoryBuckets
import GtfsStream.Frontend.HistoryChart
import GtfsStream.Frontend.HistoryPanel
import GtfsStream.Frontend.HistoryPanelSpec
import GtfsStream.Frontend.MapLogic
import GtfsStream.Frontend.MapMarkers
import GtfsStream.Frontend.MapPage
import GtfsStream.Frontend.MapPageSpec
import GtfsStream.Frontend.MapVehicles
import GtfsStream.GtfsStatic.BundleRows
import GtfsStream.GtfsStatic.ConditionalRefresh
import GtfsStream.GtfsStatic.Gate
import GtfsStream.GtfsStatic.Lifecycle
import GtfsStream.GtfsStatic.Loader
import GtfsStream.GtfsStatic.LoaderSpec
import GtfsStream.GtfsStatic.LookupSpec
import GtfsStream.GtfsStatic.MaybeRefresh
import GtfsStream.GtfsStatic.Refresh
import GtfsStream.GtfsStatic.RefreshDeadline
import GtfsStream.GtfsStatic.RefreshSpec
import GtfsStream.GtfsStatic.ServiceDays
import GtfsStream.GtfsStatic.ServiceRows
import GtfsStream.GtfsStatic.Snapshot
import GtfsStream.GtfsStatic.Swap
import GtfsStream.GtfsStatic.System
import GtfsStream.GtfsStatic.Tables
import GtfsStream.Hourly.Accumulator
import GtfsStream.Hourly.AccumulatorSpec
import GtfsStream.Hourly.Attribution
import GtfsStream.Hourly.Percentile
import GtfsStream.Hourly.Processes
import GtfsStream.Hourly.Restart
import GtfsStream.Hourly.Retry
import GtfsStream.Hourly.Sink
import GtfsStream.Ingestion.Poller
import GtfsStream.Ingestion.PollerSpec
import GtfsStream.Ingestion.TimestampContract
import GtfsStream.Ingestion.Validator
import GtfsStream.Library.Absence
import GtfsStream.Library.Attempts
import GtfsStream.Library.Binary64
import GtfsStream.Library.Calendar
import GtfsStream.Library.Dictionary
import GtfsStream.Library.FloatArithmetic
import GtfsStream.Library.Grouping
import GtfsStream.Library.History
import GtfsStream.Library.Incidents
import GtfsStream.Library.IsoDate
import GtfsStream.Library.Lines
import GtfsStream.Library.Placement
import GtfsStream.Library.Program
import GtfsStream.Library.Records
import GtfsStream.Library.RelyGuarantee
import GtfsStream.Library.Rows
import GtfsStream.Library.Runs
import GtfsStream.Library.Stretch
import GtfsStream.Library.Time
import GtfsStream.Library.TimeZone
