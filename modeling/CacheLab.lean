import CacheLab.ArenaList
import CacheLab.Cache
import CacheLab.Cache.Call
import CacheLab.Cache.Shared
import CacheLab.CommandLine
import CacheLab.CommandLine.Grammar
import CacheLab.Csv.Reader
import CacheLab.Csv.Writer
import CacheLab.Decimal.Binary
import CacheLab.Decimal.Elapsed
import CacheLab.Decimal.Fixed
import CacheLab.Decimal.Shortest
import CacheLab.Files
import CacheLab.Host
import CacheLab.Inconsistency
import CacheLab.Latency
import CacheLab.Main
import CacheLab.Metrics
import CacheLab.Metrics.Counters
import CacheLab.Metrics.Levels
import CacheLab.Numeral
import CacheLab.Policy
import CacheLab.Program
import CacheLab.Random
import CacheLab.Random.ChaCha
import CacheLab.RequestLog
import CacheLab.RequestLog.Row
import CacheLab.RequestLog.Stream
import CacheLab.Simulation
import CacheLab.Simulation.Baseline
import CacheLab.Simulation.Replay
import CacheLab.Simulation.Request
import CacheLab.Simulation.Results
import CacheLab.Simulation.Run
import CacheLab.Store
import CacheLab.Text.Blank
import CacheLab.Text.Bracketed
import CacheLab.Text.CharSet
import CacheLab.Text.Letters
import CacheLab.Text.Lowercase
import CacheLab.Text.Padded
import CacheLab.Text.Quoted
import CacheLab.Text.Utf8
import CacheLab.Text.Visible
import CacheLab.Tracker
import CacheLab.Tracker.Arrival
import CacheLab.Tracker.Frequency
import CacheLab.Tracker.Recency
import CacheLab.Traffic
import CacheLab.Traffic.Hour
import CacheLab.Traffic.Profile
import CacheLab.Word
import CacheLab.Proofs.ArenaList.Nodes
import CacheLab.Proofs.ArenaList.Segment
import CacheLab.Proofs.ArenaList.Shape
import CacheLab.Proofs.ArenaList.Sequence
import CacheLab.Proofs.ArenaList.Recycling
import CacheLab.Proofs.ArenaList.Cursor
import CacheLab.Proofs.EvictionQueue
import CacheLab.Proofs.Index
import CacheLab.Proofs.Tracker.Recency
import CacheLab.Proofs.Tracker.Arrival
import CacheLab.Proofs.Tracker.Ladder
import CacheLab.Proofs.Tracker.Frequency
import CacheLab.Proofs.Tracker
import CacheLab.Proofs.Tracker.Representation
import CacheLab.Proofs.Tracker.Frame
import CacheLab.Proofs.Tracker.Soundness
import CacheLab.Proofs.Cache.View
import CacheLab.Proofs.Cache.LockStep
import CacheLab.Proofs.Cache.RecencyList
import CacheLab.Proofs.Cache.Ledger
import CacheLab.Proofs.Cache.ArrivalQueue
import CacheLab.Proofs.Cache.ArrivalOrder
import CacheLab.Proofs.Cache.Counting
import CacheLab.Proofs.Cache.Inclusion
import CacheLab.Proofs.Cache.Conservation
import CacheLab.Proofs.Cache.Events
import CacheLab.Proofs.Cache.Balance
import CacheLab.Proofs.Cache.Stock
import CacheLab.Proofs.Cache.Writers
import CacheLab.Proofs.Cache.Levels
import CacheLab.Proofs.Cache.Alike
import CacheLab.Proofs.Cache.Removal
import CacheLab.Proofs.Cache.Undo
import CacheLab.Proofs.Cache.Hitless
import CacheLab.Proofs.Cache.Slots
import CacheLab.Proofs.Fallible
import CacheLab.Proofs.Latency
import CacheLab.Proofs.Latency.Reservoir
import CacheLab.Proofs.Latency.Quantiles
import CacheLab.Proofs.Random
import CacheLab.Proofs.Traffic.Objects
import CacheLab.Proofs.Text.Utf8
import CacheLab.Proofs.Csv
import CacheLab.Proofs.RequestLog.Row
import CacheLab.Proofs.RequestLog
import CacheLab.Proofs.RequestLog.Stream
import CacheLab.Proofs.Simulation.Replay
import CacheLab.Proofs.Simulation.ByRecency
import CacheLab.Proofs.Simulation.ReuseDistance
import CacheLab.Proofs.Simulation.Results
import CacheLab.Proofs.Simulation.ReferenceCheck
import CacheLab.Proofs.Simulation.Visits
import CacheLab.Proofs.Simulation.Workers
import CacheLab.Proofs.Simulation.EvictionTally
import CacheLab.Proofs.Simulation.ConcurrentReplay
import CacheLab.Proofs.Simulation.Accounting
import CacheLab.Proofs.Simulation.OneWorker
import CacheLab.Proofs.Simulation.Pace
import CacheLab.Proofs.Simulation.Reports
import CacheLab.Proofs.Simulation.Coverage
import CacheLab.Proofs.Simulation.Exactness
import CacheLab.Proofs.Simulation.Memory
import CacheLab.Proofs.Simulation.Outcome
import CacheLab.Proofs.Simulation.Plan
import CacheLab.Proofs.Simulation.Recording
import CacheLab.Proofs.Simulation.RunEnds
