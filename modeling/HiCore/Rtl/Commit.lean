import HiCore.Rtl.Rob
import HiCore.Rtl.Csr

-- `HiCore_commit.v` and `HiCore_regfile.v`.
namespace HiCore

namespace Commit

-- The inputs of the unit: the entry under the ROB's head pointer, whatever its
-- state, and three outputs of the csr unit.
structure In where
  robReady : Bool
  issue : RobIssue
  rdData : BitVec 32
  csrData : BitVec 32
  info : WbInfo
  irqMsk : BitVec 12
  mepc : BitVec 32
  mtvec : BitVec 32

-- `rob_valid` is tied to 1.
def robValid : Bool := true

def csrIrq (i : In) : BitVec 12 := i.info.irq &&& i.irqMsk

def commits (i : In) : Bool := robValid && i.robReady

def excpEn (i : In) : Bool := commits i && !(i.info.excp == 0#16)

def irqEn (i : In) : Bool := commits i && !(csrIrq i == 0#12)

def regWen (i : In) : Bool := commits i && !excpEn i && i.issue.rdNeed

def flush (i : In) : Bool :=
  commits i && (excpEn i || irqEn i || i.issue.fenceIOp || i.issue.mretOp)

def flushPc (i : In) : BitVec 32 :=
  if excpEn i || irqEn i then i.mtvec
  else if i.issue.fenceIOp then i.issue.nextPc
  else if i.issue.mretOp then i.mepc else i.mtvec

def toCsr (i : In) : Csr.Commit where
  valid := commits i
  excp := i.info.excp
  irq := csrIrq i
  pc := i.info.pc
  nextPc := i.issue.nextPc
  csrNeed := i.issue.csrNeed
  csrIdx := i.issue.csrIdx
  csrData := i.csrData
  mretOp := i.issue.mretOp

end Commit

-- Register 0 is a constant.
structure Regfile where
  rf : BitVec 5 → BitVec 32

namespace Regfile

def reset : Regfile := { rf := fun _ => 0#32 }

def read (g : Regfile) (idx : BitVec 5) : BitVec 32 := if idx == 0#5 then 0#32 else g.rf idx

def next (g : Regfile) (wen : Bool) (idx : BitVec 5) (dat : BitVec 32) : Regfile where
  rf n := dfflr (n != 0#5 && wen && idx == n) dat (g.rf n)

end Regfile

end HiCore
