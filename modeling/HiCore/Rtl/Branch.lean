import HiCore.Rtl.Bundles

-- `HiCore_branch.v`.
namespace HiCore.Branch

structure In where
  ifPc : BitVec 32
  immBjp : BitVec 32
  readSrc1Dat : BitVec 32
  readSrc2Dat : BitVec 32
  branchMsg : BitVec 3
  jalrOp : Bool
  jalOp : Bool
  branchOp : Bool

def branchPc (i : In) : BitVec 32 :=
  i.immBjp + (if !i.jalrOp then i.ifPc else i.readSrc1Dat)

def dataSrc1Pre (i : In) : BitVec 32 := if i.branchOp then i.readSrc1Dat else i.ifPc

def dataSrc2Pre (i : In) : BitVec 32 := if i.branchOp then i.readSrc2Dat else 4#32

def unsignedOp (i : In) : Bool := !i.branchOp || (i.branchOp && i.branchMsg.getLsbD 1)

def dataSrc1 (i : In) : BitVec 33 :=
  BitVec.ofBool (!unsignedOp i && (dataSrc1Pre i).getLsbD 31) ++ dataSrc1Pre i

def dataSrc2 (i : In) : BitVec 33 :=
  BitVec.ofBool (!unsignedOp i && (dataSrc2Pre i).getLsbD 31) ++ dataSrc2Pre i

def dataOp2 (i : In) : BitVec 33 := if i.branchOp then ~~~dataSrc2 i else dataSrc2 i

-- One 33-bit adder serves the six comparisons and the link value.
def addRes (i : In) : BitVec 33 :=
  dataSrc1 i + dataOp2 i + (BitVec.ofBool i.branchOp).setWidth 33

def rdResult (i : In) : BitVec 32 := (addRes i).extractLsb' 0 32

def beqRes (i : In) : Bool := (i.branchOp && i.branchMsg == 0b000#3) && addRes i == 0#33

def bneRes (i : In) : Bool := (i.branchOp && i.branchMsg == 0b001#3) && !(addRes i == 0#33)

def bltRes (i : In) : Bool := (i.branchOp && i.branchMsg == 0b100#3) && (addRes i).getLsbD 32

def bgeRes (i : In) : Bool := (i.branchOp && i.branchMsg == 0b101#3) && !(addRes i).getLsbD 32

def bltuRes (i : In) : Bool := (i.branchOp && i.branchMsg == 0b110#3) && (addRes i).getLsbD 32

def bgeuRes (i : In) : Bool := (i.branchOp && i.branchMsg == 0b111#3) && !(addRes i).getLsbD 32

def branchRes (i : In) : Bool :=
  beqRes i || bneRes i || bltRes i || bgeRes i || bltuRes i || bgeuRes i

def branch (i : In) (branchEn : Bool) : Bool :=
  branchEn && (i.jalrOp || i.jalOp || (i.branchOp && branchRes i))

def nextPc (i : In) (branchEn : Bool) : BitVec 32 :=
  if branch i branchEn then branchPc i else i.ifPc + 4#32

end HiCore.Branch
