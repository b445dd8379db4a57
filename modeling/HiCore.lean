import HiCore.Theorems.AccessOrder
import HiCore.Theorems.Alu
import HiCore.Theorems.Arbiter
import HiCore.Theorems.Branch
import HiCore.Theorems.Buffers
import HiCore.Theorems.BusAnswers
import HiCore.Theorems.BusRouting
import HiCore.Theorems.ByteLanes
import HiCore.Theorems.CodeMemory
import HiCore.Theorems.ControlFlow
import HiCore.Theorems.CsrAccess
import HiCore.Theorems.DeviceReads
import HiCore.Theorems.DeviceRegs
import HiCore.Theorems.Execution
import HiCore.Theorems.FenceI
import HiCore.Theorems.FetchOrder
import HiCore.Theorems.FetchPort
import HiCore.Theorems.Flush
import HiCore.Theorems.Fpga
import HiCore.Theorems.Illegal
import HiCore.Theorems.Instret
import HiCore.Theorems.Interrupt
import HiCore.Theorems.IrqEntry
import HiCore.Theorems.Issue
import HiCore.Theorems.Jalr
import HiCore.Theorems.Loads
import HiCore.Theorems.LsuPairing
import HiCore.Theorems.Operands
import HiCore.Theorems.Plic
import HiCore.Theorems.RoundTrip
import HiCore.Theorems.Status
import HiCore.Theorems.Stores
import HiCore.Theorems.Tcm
import HiCore.Theorems.Timer
import HiCore.Theorems.WriteBack
