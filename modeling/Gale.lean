import Gale.AdcThin.Fresh
import Gale.ByteCounts
import Gale.CanThin.Frame
import Gale.Cbprintf
import Gale.Condvar.Reacquire
import Gale.Condvar.Signals
import Gale.CpuMask
import Gale.CriticalityAxis
import Gale.DacThin.Channels
import Gale.DataOverlap
import Gale.DeviceInit
import Gale.DmaOwn.Exclusion
import Gale.Dynamic.Count
import Gale.Event.Wakeups
import Gale.Executor.Order
import Gale.Executor.Wakeups
import Gale.FaultWords
import Gale.Futex.Wakeups
import Gale.HealthMonitor.Rate
import Gale.HeapChunks
import Gale.I2cThin.Read
import Gale.Ipc.Bound
import Gale.Ipi
import Gale.Kheap.Wakeups
import Gale.Mbox.Matching
import Gale.MemDomain.Refinement
import Gale.MemSlab.Callers
import Gale.Mempool.Owners
import Gale.Mmu
import Gale.Msgq.Delivery
import Gale.Msgq.Deque
import Gale.Mutex.Inheritance
import Gale.NetBuf.Holders
import Gale.PartitionSwitch.Component
import Gale.PartitionSwitch.Regions
import Gale.Pipe.Stream
import Gale.Pm.CpuState
import Gale.Poll.Missed
import Gale.PwmThin.Output
import Gale.Queue.Delivery
import Gale.RingBuf
import Gale.RingBuf.Claims
import Gale.Sched.Return
import Gale.Sem.Permits
import Gale.SmpState.Count
import Gale.SortedQueues
import Gale.Spawn
import Gale.SpinlockValidate
import Gale.Stack.Delivery
import Gale.Systick
import Gale.Timeouts
import Gale.Timer.OneShot
import Gale.Timer.Sleep
import Gale.Timeslice
import Gale.UartThin
import Gale.Usage.Exact
import Gale.Userspace.Access
import Gale.Userspace.Object
import Gale.VerusStrip.File
import Gale.VerusStrip.Print
import Gale.Work.Pending
import Gale.Zms.Space
