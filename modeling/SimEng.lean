import SimEng.Assertions
import SimEng.Instruction
import SimEng.OrderedMap
import SimEng.Pipeline.LoadStoreQueue
import SimEng.Pipeline.RequestDispatch
import SimEng.Pipeline.ReorderBuffer
import SimEng.Pipeline.QueueSteps
import SimEng.Pipeline.Retirement
import SimEng.Pipeline.Violation
import SimEng.Pipeline.Mirror
import SimEng.Pipeline.Placement
import SimEng.Pipeline.RequestAccounting
import SimEng.Pipeline.DispatchIssueUnit
import SimEng.Pipeline.WakeUp
import SimEng.Pipeline.ReadyQueues
import SimEng.Pipeline.PortMapping
import SimEng.Pipeline.Routing
import SimEng.Pipeline.Completion
import SimEng.Pipeline.Delivery
import SimEng.Pipeline.Capacity
import SimEng.Pipeline.PipelineBuffer
import SimEng.InOrder.Core
import SimEng.InOrder.Exceptions
import SimEng.InOrder.Status
import SimEng.OutOfOrder.DispatchIssueUnit
import SimEng.Memory.MemPacket
import SimEng.Memory.MMU
import SimEng.Memory.Split
import SimEng.Memory.Caps
import SimEng.Memory.Outstanding
import SimEng.Memory.Ledger
import SimEng.Memory.Receiver
import SimEng.Memory.Reassembly
import SimEng.Arch.Riscv.Architecture
import SimEng.Arch.Riscv.Inheritance
import SimEng.Arch.Riscv.ExecutionInfo
import SimEng.Arch.Riscv.Predecode
import SimEng.OutOfOrder.ReadyCount
