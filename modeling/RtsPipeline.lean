import RtsPipeline.Async.Accounting
import RtsPipeline.Async.Completion
import RtsPipeline.Async.Drain
import RtsPipeline.Async.Ingest
import RtsPipeline.Async.Pipeline
import RtsPipeline.Async.Preemption
import RtsPipeline.Async.Run
import RtsPipeline.Async.Scheduler
import RtsPipeline.Async.Shutdown
import RtsPipeline.Async.Waiting
import RtsPipeline.Async.Wakeups
import RtsPipeline.Cli.Duration
import RtsPipeline.Core.Admission
import RtsPipeline.Core.DegradedMode
import RtsPipeline.Core.Event
import RtsPipeline.Core.FailSafe
import RtsPipeline.Core.Histogram
import RtsPipeline.Core.Hysteresis
import RtsPipeline.Core.Ingest
import RtsPipeline.Core.Iteration
import RtsPipeline.Core.Leaderboard
import RtsPipeline.Core.Ledger
import RtsPipeline.Core.Metrics
import RtsPipeline.Core.Parsing
import RtsPipeline.Core.Ring
import RtsPipeline.Core.RingConsumers
import RtsPipeline.Core.RingHistory
import RtsPipeline.Core.RingThreads
import RtsPipeline.Core.SlidingWindow
import RtsPipeline.Core.SlowerRuns
import RtsPipeline.Core.Task
import RtsPipeline.Core.Ticker
import RtsPipeline.Core.Watchdog
import RtsPipeline.Equivalence.BackOff
import RtsPipeline.Equivalence.Capacity
import RtsPipeline.Equivalence.Decoding
import RtsPipeline.Equivalence.EndToEnd
import RtsPipeline.Equivalence.Ingest
import RtsPipeline.Equivalence.Leaderboards
import RtsPipeline.Equivalence.LimitRun
import RtsPipeline.Equivalence.Metrics
import RtsPipeline.Equivalence.Scheduling
import RtsPipeline.Equivalence.SingleClass
import RtsPipeline.Equivalence.Watchdog
import RtsPipeline.Lib.Arrangement
import RtsPipeline.Lib.BackOff
import RtsPipeline.Lib.Binary64
import RtsPipeline.Lib.BinaryHeap
import RtsPipeline.Lib.BoundedBag
import RtsPipeline.Lib.Crew
import RtsPipeline.Lib.Csv
import RtsPipeline.Lib.Decimal
import RtsPipeline.Lib.Dwell
import RtsPipeline.Lib.Flag
import RtsPipeline.Lib.JsonString
import RtsPipeline.Lib.Lines
import RtsPipeline.Lib.Notify
import RtsPipeline.Lib.Rank
import RtsPipeline.Lib.Run
import RtsPipeline.Lib.Slots
import RtsPipeline.Lib.Sse
import RtsPipeline.Lib.Timed
import RtsPipeline.Lib.Vec
import RtsPipeline.Lib.WindDown
import RtsPipeline.Lib.Window
import RtsPipeline.Replay.Cadence
import RtsPipeline.Replay.Copy
import RtsPipeline.Replay.Cut
import RtsPipeline.Replay.Envelope
import RtsPipeline.Replay.Fixture
import RtsPipeline.Replay.Pace
import RtsPipeline.Replay.Play
import RtsPipeline.Replay.Rate
import RtsPipeline.Replay.Record
import RtsPipeline.Replay.RoundTrip
import RtsPipeline.Replay.Torn
import RtsPipeline.Report.Load
import RtsPipeline.Report.Plot
import RtsPipeline.Threaded.BotTraffic
import RtsPipeline.Threaded.Calls
import RtsPipeline.Threaded.ClassOrder
import RtsPipeline.Threaded.Completion
import RtsPipeline.Threaded.History
import RtsPipeline.Threaded.Ingest
import RtsPipeline.Threaded.Parking
import RtsPipeline.Threaded.Pipeline
import RtsPipeline.Threaded.Reference
import RtsPipeline.Threaded.Response
import RtsPipeline.Threaded.Scheduler
import RtsPipeline.Threaded.Waiting
