import Ethreads.Support.TransitionSystem
import Ethreads.Support.Tally
import Ethreads.Support.Mutex
import Ethreads.Support.Deque
import Ethreads.Support.Linked
import Ethreads.Support.OneShot
import Ethreads.Support.Family
import Ethreads.Support.Ensemble
import Ethreads.SyncChannel.Model
import Ethreads.SyncChannel.Invariant
import Ethreads.SyncChannel.Fifo
import Ethreads.SyncChannel.Progress
import Ethreads.Scheduler.Model
import Ethreads.Scheduler.Wakeup
import Ethreads.Scheduler.Shutdown
import Ethreads.TimerService.Model
import Ethreads.TimerService.Entries
import Ethreads.TimerService.Shutdown
import Ethreads.CoroTask.Handoff
import Ethreads.ContinuationHandoff.Model
import Ethreads.ContinuationHandoff.Resumer
import Ethreads.CoroTask.Model
import Ethreads.CoroTask.Publication
import Ethreads.CoroTask.Transfer
import Ethreads.CoroTask.Completion
import Ethreads.TaskApi.Moves
import Ethreads.TaskObject.Model
import Ethreads.TaskObject.Owners
import Ethreads.TaskObject.Scheduling
import Ethreads.TaskObject.Destruction
import Ethreads.BlockingGet.Model
import Ethreads.BlockingGet.Blockers
import Ethreads.BlockingGet.Wedge
import Ethreads.WsDeque.Model
import Ethreads.WsDeque.Counters
import Ethreads.WsDeque.Storage
import Ethreads.WsDeque.Linearization
import Ethreads.AsyncPrimitive.Model
import Ethreads.AsyncPrimitive.Pointers
import Ethreads.AsyncPrimitive.Ownership
import Ethreads.AsyncPrimitive.Account
import Ethreads.AsyncPrimitive.Waking
import Ethreads.GatedWait.Model
import Ethreads.GatedWait.Private
import Ethreads.GatedWait.Gate
import Ethreads.GatedWait.Lifetime
import Ethreads.GatedWait.Deadline
import Ethreads.GatedWait.Lists
import Ethreads.Semaphore.Model
import Ethreads.Semaphore.Permits
import Ethreads.AsyncChannel.Model
import Ethreads.AsyncChannel.Components
import Ethreads.AsyncChannel.Delivery
import Ethreads.AsyncChannel.Woken
import Ethreads.AsyncChannel.EndOfStream
import Ethreads.AsyncChannel.Waiting
import Ethreads.AsyncChannel.Stranding
import Ethreads.ReceiveAwaiter.Model
import Ethreads.ReceiveAwaiter.Delivery
import Ethreads.ReceiveAwaiter.Loss
import Ethreads.TimedAttempt.Model
import Ethreads.TimedAttempt.Outcome
import Ethreads.SendAwaiter.Model
import Ethreads.SendAwaiter.Keeping
import Ethreads.SendAwaiter.Status
import Ethreads.AsyncWait.Model
import Ethreads.AsyncWait.Registration
import Ethreads.AsyncWait.Stranding
import Ethreads.AsyncWait.Release
import Ethreads.AsyncEvent.Model
import Ethreads.AsyncEvent.Release
import Ethreads.AsyncEvent.Stranding
import Ethreads.Barrier.Model
import Ethreads.Barrier.Coroutines
import Ethreads.Barrier.Rounds
import Ethreads.SharedValue.Model
import Ethreads.SharedValue.Change
import Ethreads.SharedValue.Threads
import Ethreads.SharedValue.Versions
import Ethreads.TimerService.Exclusion
import Ethreads.TimerService.Order
import Ethreads.TimerService.Gates
import Ethreads.TimerService.Sweep
import Ethreads.Cancellation.Model
import Ethreads.Cancellation.Winner
import Ethreads.Cancellation.Places
import Ethreads.Cancellation.Callbacks
import Ethreads.Cancellation.Removal
import Ethreads.Sleep.Model
import Ethreads.Sleep.Components
import Ethreads.Sleep.Resume
import Ethreads.Sleep.Unregister
import Ethreads.CancellationAwaiter.Model
import Ethreads.CancellationAwaiter.Registration
import Ethreads.CancellationAwaiter.Completeness
import Ethreads.Support.CallStack
import Ethreads.TimerService.Calls
import Ethreads.Cancellation.Calls
import Ethreads.Reentrancy.Model
import Ethreads.Reentrancy.Stacks
import Ethreads.Reentrancy.Relocking
import Ethreads.AsyncPrimitive.Memory
import Ethreads.Select.Model
import Ethreads.Select.Lists
import Ethreads.Select.Yield
import Ethreads.Select.Stay
import Ethreads.TaskPool.Execution
import Ethreads.CancellableBlocking.Outcome
import Ethreads.SyncPrimitive.Semaphore
import Ethreads.SyncPrimitive.Event
import Ethreads.TaskPool.Batches
import Ethreads.IoUring.SendAll
import Ethreads.IoUring.SubmissionQueue
import Ethreads.IoUring.Model
import Ethreads.IoUring.Entries
import Ethreads.IoUring.Results
import Ethreads.IoUring.Resumption
import Ethreads.AsyncPrimitive.WakeOne
import Ethreads.Support.Variant
import Ethreads.CoroTask.Locking
import Ethreads.CoroTask.Progress
import Ethreads.CoroTask.Readiness
import Ethreads.WhenAll.Model
import Ethreads.WhenAll.Parties
import Ethreads.WhenAll.Loops
import Ethreads.WhenAll.Outcome
import Ethreads.WhenAll.Progress
import Ethreads.Support.LeastLoaded
import Ethreads.TaskPool.Dispatch
import Ethreads.TaskPool.Estimates
import Ethreads.TaskPool.Parallelism
import Ethreads.TaskPool.Cursors
import Ethreads.SyncPrimitive.Maximum
import Ethreads.WsDeque.Sequential
import Ethreads.WsDeque.Capacity
import Ethreads.WsDeque.Alone
import Ethreads.Support.Linearizability
import Ethreads.SyncChannel.Linearization
import Ethreads.SyncChannel.Closing
import Ethreads.Support.MonitorObject
import Ethreads.SyncPrimitive.Linearization
import Ethreads.SyncPrimitive.Spinlock
import Ethreads.SharedValue.Operations
import Ethreads.SharedValue.Linearization
import Ethreads.CoAwait.Model
import Ethreads.CoAwait.Ownership
import Ethreads.CoAwait.Tasks
import Ethreads.CoAwait.Invariant
import Ethreads.CoAwait.Evaluation
import Ethreads.CoAwait.Refinement
import Ethreads.CoAwait.Termination
import Ethreads.CoAwait.Progress
import Ethreads.CoAwait.Destruction
import Ethreads.WhenAny.Model
import Ethreads.WhenAny.Outcome
import Ethreads.WhenAny.Progress
import Ethreads.Detached.Model
import Ethreads.Detached.Account
import Ethreads.Detached.Lifetime
import Ethreads.Detached.Sweeps
import Ethreads.Detached.Progress
import Ethreads.WsDeque.Histories
import Ethreads.WsDeque.Progress
