import TaskScheduler.Main
import TaskScheduler.Proofs.Queue.Abstract
import TaskScheduler.Proofs.Queue.Accounts
import TaskScheduler.Proofs.Queue.Refinement
import TaskScheduler.Proofs.Scheduler.Drain
import TaskScheduler.Proofs.Scheduler.Registry
import TaskScheduler.Simulation.FaultyQueue
import TaskScheduler.Proofs.Scheduler.StageEntry
import TaskScheduler.Proofs.Queue.PopOrder
import TaskScheduler.Proofs.Queue.TimeToLive
import TaskScheduler.Proofs.Queue.Lifecycle
import TaskScheduler.Proofs.Queue.FailedWrites
import TaskScheduler.Proofs.Scheduler.Books
import TaskScheduler.Proofs.Queue.Contract
import TaskScheduler.Proofs.Scheduler.HandOver
import TaskScheduler.Proofs.Redis.Restriction
import TaskScheduler.Proofs.Queue.Isolation
import TaskScheduler.Proofs.Queue.WholeCancel
import TaskScheduler.Proofs.Context.Pedigree
import TaskScheduler.Proofs.Context.Ending
import TaskScheduler.Proofs.Context.Reason
import TaskScheduler.Proofs.Scheduler.Settings
import TaskScheduler.Proofs.Scheduler.ReadAhead
import TaskScheduler.Proofs.Queue.LastReport
import TaskScheduler.Proofs.Task.Envelope
import TaskScheduler.Proofs.Queue.Payload
import TaskScheduler.Proofs.Queue.Stranded
import TaskScheduler.Proofs.Queue.Clear
import TaskScheduler.Proofs.Scheduler.CancelAnswer
import TaskScheduler.Proofs.Scheduler.RunOutcome
import TaskScheduler.Proofs.Scheduler.CancelOutcome
import TaskScheduler.Proofs.Scheduler.Neighbors
import TaskScheduler.Proofs.Scheduler.RunGuard
import TaskScheduler.Proofs.Scheduler.Timeouts
import TaskScheduler.Proofs.Task.Reencoding
import TaskScheduler.Proofs.Task.Record
import TaskScheduler.Proofs.Pipeline.Snapshots
import TaskScheduler.Proofs.CommandLine.Overrides
import TaskScheduler.Proofs.Queue.Numbering
import TaskScheduler.Proofs.Scheduler.AcceptedWork
