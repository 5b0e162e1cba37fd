import Rtos.Proofs.MutualExclusion
import Rtos.Proofs.Priority
import Rtos.Proofs.Semaphore
import Rtos.Proofs.Delay
import Rtos.Proofs.Ownership
import Rtos.Proofs.Termination
import Rtos.Proofs.Inheritance
import Rtos.Kernel.Lfqueue
import Rtos.Proofs.Lfqueue
import Rtos.Kernel.Queue
import Rtos.Proofs.QueueControl
import Rtos.Proofs.Queue
import Rtos.Proofs.Mempool
import Rtos.Proofs.Arrival
import Rtos.Proofs.Waiters
import Rtos.Proofs.Restore
import Rtos.Proofs.Creation
import Rtos.Proofs.Slicing
import Rtos.Kernel.Switch
import Rtos.Proofs.Switch
import Rtos.Lib.Stream
import Rtos.Kernel.Rtt
import Rtos.Proofs.Rtt
import Rtos.Kernel.Writers
import Rtos.Proofs.Writers
import Rtos.Lib.Words
import Rtos.Model.Stacks
import Rtos.Kernel.Machine
import Rtos.Proofs.Context
import Rtos.Proofs.Transparency
import Rtos.Proofs.QueueOps
import Rtos.Proofs.AllOrNothing
import Rtos.Proofs.RoundRobin
import Rtos.Proofs.WaitForGraph
import Rtos.Proofs.Expiry
import Rtos.Proofs.Early
import Rtos.Kernel.Calls
import Rtos.Model.Clocked
import Rtos.Proofs.Blocking
import Rtos.Lib.WaitFor
import Rtos.Proofs.LockOrder
import Rtos.Proofs.Lifecycle
import Rtos.Proofs.Urgency
import Rtos.Proofs.Traces
import Rtos.Proofs.Capacity
import Rtos.Kernel.Program
import Rtos.Proofs.Programs
import Rtos.Proofs.Cast
import Rtos.App.Led
import Rtos.Proofs.Led
import Rtos.App.PiTest
import Rtos.Proofs.PiTest
import Rtos.Kernel.Mpu
import Rtos.Proofs.Mpu
import Rtos.App.Main
import Rtos.Proofs.Main
import Rtos.Kernel.Memory
import Rtos.Proofs.Memory
import Rtos.Proofs.QueueBytes
import Rtos.Lib.Hom
import Rtos.Proofs.Marks
import Rtos.Proofs.Preemption
