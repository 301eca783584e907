import Corral.CBPortal.Outcome
import Corral.Channel.Bulk
import Corral.Channel.Close
import Corral.Channel.Lots
import Corral.Channel.Throwing
import Corral.Detail.IntrusiveListRuns
import Corral.Detail.QueueExceptions
import Corral.Detail.QueueRefinement
import Corral.Detail.ValueOrPromiseRuns
import Corral.Executor.Destruction
import Corral.Executor.Nesting
import Corral.Executor.Stranding
import Corral.Mux.Cancellation
import Corral.Nursery.Arrivals
import Corral.Nursery.Closing
import Corral.Nursery.Linked
import Corral.Nursery.Thrown
import Corral.Promise.Cancellation
import Corral.Promise.Completion
import Corral.Semaphore.Order
import Corral.Semaphore.Units
import Corral.Sequence.Exceptions
import Corral.Sequence.Refinement
import Corral.Shared.Outcome
import Corral.ThreadPool.Progress
import Corral.TryBlock.Outcome
import Corral.Value.Order
import Corral.Value.Reentrancy
import Corral.Value.Suspension
import Corral.Wait.Results
import Corral.With.Completion
import Corral.With.Exceptions
import Corral.With.Sequencing
