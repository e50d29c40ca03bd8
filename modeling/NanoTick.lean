import NanoTick.Basic.Runs
import NanoTick.Basic.RunningMax
import NanoTick.Basic.Paging
import NanoTick.Basic.Dedup
import NanoTick.Store.Rollover
import NanoTick.Store.SavedBars
import NanoTick.Store.FailedSave
import NanoTick.Store.StoredIds
import NanoTick.Store.ResumePoint
import NanoTick.Store.Held
import NanoTick.Store.RunningDay
import NanoTick.Analytics.FastPath
import NanoTick.Analytics.Lookahead
import NanoTick.Analytics.Labels
import NanoTick.Analytics.QuoteRebucket
import NanoTick.Analytics.SaneBars
import NanoTick.Ingest.Delivery
import NanoTick.Ingest.Buffer
import NanoTick.Ingest.AckLines
import NanoTick.Ingest.Wakeup
import NanoTick.Ingest.Backoff
import NanoTick.Evaluation.WalkForward
import NanoTick.Evaluation.Tiling
import NanoTick.Evaluation.Metrics
import NanoTick.Backfill.Failures
import NanoTick.Backfill.Rerun
import NanoTick.Backfill.Retention
import NanoTick.Backfill.Bridge
import NanoTick.Backfill.Resume
import NanoTick.Backfill.Pacing
import NanoTick.Backfill.Retries
import NanoTick.Backfill.SharedPacer
import NanoTick.Backfill.ThreeSources
import NanoTick.Backfill.Chunks
import NanoTick.Live.FeedHandler
import NanoTick.Live.Link
import NanoTick.Live.GapFree
import NanoTick.Live.Batching
import NanoTick.Live.Shutdown
import NanoTick.Live.Published
import NanoTick.Recording.Recorder
import NanoTick.Recording.History
import NanoTick.App.Lifecycle
import NanoTick.App.DayPartitions
import NanoTick.App.Unique
import NanoTick.Live.Feeding
import NanoTick.Basic.Stateful
import NanoTick.Backfill.Sources
import NanoTick.Ingest.Stream
import NanoTick.Evaluation.Ticks
import NanoTick.Evaluation.Alpha
import NanoTick.Dashboard.Window
import NanoTick.Ingest.Consumer
import NanoTick.Ingest.Routing
import NanoTick.Ingest.Framing
import NanoTick.Analytics.AsOfJoin
import NanoTick.Backfill.Fetch
import NanoTick.Dashboard.Wheel
import NanoTick.Recording.Subscribers
