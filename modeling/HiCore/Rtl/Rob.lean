import HiCore.Rtl.Buffers
import HiCore.Rtl.Bundles

-- `HiCore_ROB.v`.
namespace HiCore

inductive SlotState where
  | EMPTY_S
  | MAPPED_S
  | WRITEBACK_S
  deriving DecidableEq, Inhabited

open SlotState

-- The registers of a slot that are loaded at allocation.
structure RobIssue where
  rdNeed : Bool
  rdIdx : BitVec 5
  csrNeed : Bool
  csrIdx : BitVec 12
  nextPc : BitVec 32
  fenceIOp : Bool
  mretOp : Bool
  deriving Inhabited, DecidableEq

-- A write-back port. The csr data of the csr unit and the missing data of the
-- nop unit are handled in `Rob.In`.
structure WbPort where
  wen : Bool
  ptr : BitVec 4
  rdData : BitVec 32
  info : WbInfo

def WbPort.hits (w : WbPort) (i : BitVec 4) : Bool := w.wen && w.ptr == i

structure Rob where
  issue : BitVec 4 → RobIssue
  rdData : BitVec 4 → BitVec 32
  info : BitVec 4 → WbInfo
  csrData : BitVec 4 → BitVec 32
  state : BitVec 4 → SlotState
  tailPtr : BitVec 5
  headPtr : BitVec 5

namespace Rob

structure In where
  issueWen : Bool
  issue : RobIssue
  bjpWb : WbPort
  aluWb : WbPort
  lsuWb : WbPort
  csrWb : WbPort
  csrWbCsrData : BitVec 32
  nopWbWen : Bool
  nopWbPtr : BitVec 4
  nopWbInfo : WbInfo
  commitValid : Bool
  flush : Bool

-- The data registers have no reset.
def reset (r : Rob) : Rob where
  issue _ := default
  rdData := r.rdData
  info _ := default
  csrData := r.csrData
  state _ := EMPTY_S
  tailPtr := 0#5
  headPtr := 0#5

def head (r : Rob) : BitVec 4 := Ring.slot r.headPtr

def tail (r : Rob) : BitVec 4 := Ring.slot r.tailPtr

def full (r : Rob) : Bool := Ring.isFull r.headPtr r.tailPtr

def empty (r : Rob) : Bool := Ring.isEmpty r.headPtr r.tailPtr

def nopHits (i : In) (n : BitVec 4) : Bool := i.nopWbWen && i.nopWbPtr == n

def issueWenAt (r : Rob) (i : In) (n : BitVec 4) : Bool := i.issueWen && n == r.tail

def wbWen (i : In) (n : BitVec 4) : Bool :=
  i.bjpWb.hits n || i.aluWb.hits n || i.lsuWb.hits n || i.csrWb.hits n || nopHits i n

def rdDataNxt (i : In) (n : BitVec 4) : BitVec 32 :=
  (rep 32 (i.bjpWb.hits n) &&& i.bjpWb.rdData) ||| (rep 32 (i.aluWb.hits n) &&& i.aluWb.rdData) |||
    (rep 32 (i.lsuWb.hits n) &&& i.lsuWb.rdData) ||| (rep 32 (i.csrWb.hits n) &&& i.csrWb.rdData)

-- The or of one field over the five ports.
def orPorts {w : Nat} (i : In) (n : BitVec 4) (field : WbInfo → BitVec w) : BitVec w :=
  (rep w (i.bjpWb.hits n) &&& field i.bjpWb.info) ||| (rep w (i.aluWb.hits n) &&& field i.aluWb.info) |||
    (rep w (i.lsuWb.hits n) &&& field i.lsuWb.info) ||| (rep w (i.csrWb.hits n) &&& field i.csrWb.info) |||
    (rep w (nopHits i n) &&& field i.nopWbInfo)

def infoNxt (i : In) (n : BitVec 4) : WbInfo where
  pc := orPorts i n WbInfo.pc
  irq := orPorts i n WbInfo.irq
  excp := orPorts i n WbInfo.excp

def commitReady (r : Rob) : Bool := r.state r.head == WRITEBACK_S

def ren (r : Rob) (commitValid : Bool) : Bool := commitValid && r.commitReady

def stateNxt (r : Rob) (i : In) (n : BitVec 4) : SlotState :=
  if i.flush then EMPTY_S
  else if r.issueWenAt i n then MAPPED_S
  else if wbWen i n then WRITEBACK_S else EMPTY_S

def stateEn (r : Rob) (i : In) (n : BitVec 4) : Bool :=
  r.issueWenAt i n || wbWen i n || (r.ren i.commitValid && n == r.head) || i.flush

def next (r : Rob) (i : In) : Rob where
  issue n := dfflr (r.issueWenAt i n) i.issue (r.issue n)
  rdData n := dfflr (wbWen i n) (rdDataNxt i n) (r.rdData n)
  info n := dfflr (wbWen i n) (infoNxt i n) (r.info n)
  csrData n := dfflr (i.csrWb.hits n) i.csrWbCsrData (r.csrData n)
  state n := dfflr (r.stateEn i n) (r.stateNxt i n) (r.state n)
  tailPtr := dfflr ((i.issueWen && !r.full) || i.flush)
    (if i.flush then r.headPtr + 1#5 else r.tailPtr + 1#5) r.tailPtr
  headPtr := dfflr (r.ren i.commitValid) (r.headPtr + 1#5) r.headPtr

-- `rs1_depend` and `rs2_depend`. The comparison does not look at `rd_need`.
def rsDepend (r : Rob) (need : Bool) (idx : BitVec 5) (n : BitVec 4) : Bool :=
  r.state n != EMPTY_S && (r.issue n).rdIdx == idx && need && idx != 0#5

def csrDepend (r : Rob) (need : Bool) (idx : BitVec 12) (n : BitVec 4) : Bool :=
  r.state n != EMPTY_S && (r.issue n).csrIdx == idx && need && (r.issue n).csrNeed

-- The reduction `|v` of a vector with one bit for each slot.
def anySlot (f : BitVec 4 → Bool) : Bool := (List.range 16).any fun n => f (BitVec.ofNat 4 n)

def deDepend (r : Rob) (rs1Need rs2Need csrNeed : Bool) (rs1Idx rs2Idx : BitVec 5)
    (csrIdx : BitVec 12) : Bool :=
  anySlot (r.rsDepend rs1Need rs1Idx) || anySlot (r.rsDepend rs2Need rs2Idx) ||
    anySlot (r.csrDepend csrNeed csrIdx)

end Rob

end HiCore
