import KvPaxos.Lib.System
import KvPaxos.Storage.Storage
import KvPaxos.Lib.Lanes
import KvPaxos.Scheduler.Dispatch
import KvPaxos.Scheduler.Pool
import KvPaxos.Scheduler.PoolSteps
import KvPaxos.Scheduler.Accounts
import KvPaxos.Scheduler.Plan
import KvPaxos.Scheduler.Barriers
import KvPaxos.Scheduler.Order
import KvPaxos.Scheduler.Execution
import KvPaxos.Scheduler.Progress
import KvPaxos.Scheduler.ScanKeys
import KvPaxos.Graph.Graph
import KvPaxos.Graph.Weights
import KvPaxos.Scheduler.WorkloadGraph
import KvPaxos.Lib.Offsets
import KvPaxos.Scheduler.InputGraph
import KvPaxos.Queue.FlowControl
import KvPaxos.Scheduler.StopTheWorld
import KvPaxos.Scheduler.HandShake
import KvPaxos.Scheduler.Snapshot
import KvPaxos.Lib.Heap
import KvPaxos.Lib.Rounds
import KvPaxos.Scheduler.FreeScheduler
import KvPaxos.Scheduler.FreeSchedulerSteps
import KvPaxos.Scheduler.FreeHandShake
import KvPaxos.Lib.Object
import KvPaxos.Queue.LinkedQueue
import KvPaxos.Request.RequestGeneration
import KvPaxos.Scheduler.ThreadLoop
import KvPaxos.Lib.Streak
import KvPaxos.Queue.Reclamation
import KvPaxos.Queue.Replacement
import KvPaxos.Scheduler.Imbalance
import KvPaxos.Scheduler.Method
import KvPaxos.Scheduler.RoundRobin
import KvPaxos.Lib.Spacing
import KvPaxos.Scheduler.ControlMessages
import KvPaxos.Scheduler.AsyncImb
import KvPaxos.Scheduler.CrossPartition
import KvPaxos.Scheduler.ImbalanceInterval
import KvPaxos.Scheduler.Orders
import KvPaxos.Lib.Residue
import KvPaxos.Request.GenerateRequests
import KvPaxos.Request.ScrambledZipfian
import KvPaxos.Request.Zipfian
import KvPaxos.Lib.Words
import KvPaxos.Scheduler.CounterWidths
import KvPaxos.Scheduler.TearDown
import KvPaxos.Scheduler.Settled
import KvPaxos.Scheduler.Completion
import KvPaxos.Scheduler.Process
import KvPaxos.Lib.Inevitable
import KvPaxos.Scheduler.Drain
import KvPaxos.Scheduler.StopTheWorldProcess
import KvPaxos.Scheduler.FreeProcess
import KvPaxos.Lib.Tally
import KvPaxos.Replica.Run
import KvPaxos.Replica.RunEnds
import KvPaxos.Replica.Schedulers
import KvPaxos.Lib.TextLines
import KvPaxos.Request.WorkloadFile
import KvPaxos.Replica.Generated
import KvPaxos.Scheduler.Lineage
import KvPaxos.Scheduler.StopTheWorldMaps
import KvPaxos.Scheduler.FreeMaps
import KvPaxos.Scheduler.OldImb
