import HiCore.Rtl.Buffers
import HiCore.Rtl.Issue

-- `HiCore_alu.v`.
namespace HiCore.Alu

open Issue (Alu)

def addOp (a : Alu) : Bool := a.aluMsg == 0b000#3 || a.luiOp || a.auipcOp

-- `(alu_msg == code) & alu_op`.
def msgIs (code : BitVec 3) (a : Alu) : Bool := a.aluMsg == code && a.aluOp

def isSub (a : Alu) : Bool :=
  (a.aluMsg == 0b000#3 && a.aluDir && a.aluOp) || msgIs 0b010#3 a || msgIs 0b011#3 a

def addSrc1 (a : Alu) : BitVec 33 :=
  BitVec.ofBool (!msgIs 0b011#3 a && a.aluSrc1.getLsbD 31) ++ a.aluSrc1

def addSrc2 (a : Alu) : BitVec 33 :=
  BitVec.ofBool (!msgIs 0b011#3 a && a.aluSrc2.getLsbD 31) ++ a.aluSrc2

def addRes (a : Alu) : BitVec 33 :=
  addSrc1 a + (if isSub a then ~~~addSrc2 a else addSrc2 a) + (BitVec.ofBool (isSub a)).setWidth 33

-- The bits of a word in the opposite order.
def bitReverse (w : BitVec 32) : BitVec 32 := w.reverse

def shifterRes (a : Alu) : BitVec 32 :=
  (if msgIs 0b101#3 a then bitReverse a.aluSrc1 else a.aluSrc1) <<< (a.aluSrc2.extractLsb' 0 5)

def shifterMask (a : Alu) : BitVec 32 := BitVec.allOnes 32 >>> (a.aluSrc2.extractLsb' 0 5)

def srlRes (a : Alu) : BitVec 32 :=
  bitReverse (shifterRes a) ||| (rep 32 (a.aluDir && a.aluSrc1.getLsbD 31) &&& ~~~shifterMask a)

def sltRes (a : Alu) : BitVec 32 := 0#31 ++ BitVec.ofBool ((addRes a).getLsbD 32)

def aluResPre (a : Alu) : BitVec 32 :=
  (rep 32 (addOp a) &&& (addRes a).setWidth 32) |||
    (rep 32 (msgIs 0b001#3 a) &&& shifterRes a) |||
    (rep 32 (msgIs 0b100#3 a) &&& (a.aluSrc1 ^^^ a.aluSrc2)) |||
    (rep 32 (msgIs 0b010#3 a || msgIs 0b011#3 a) &&& sltRes a) |||
    (rep 32 (msgIs 0b101#3 a) &&& srlRes a) |||
    (rep 32 (msgIs 0b110#3 a) &&& (a.aluSrc1 ||| a.aluSrc2)) |||
    (rep 32 (msgIs 0b111#3 a) &&& (a.aluSrc1 &&& a.aluSrc2))

-- `{alu_res_pre,alu_info}`.
structure Alu2wb where
  res : BitVec 32
  info : IssueInfo
  deriving Inhabited

def iAlu2wbInfo (a : Alu) : Alu2wb := { res := aluResPre a, info := a.aluInfo }

end HiCore.Alu
