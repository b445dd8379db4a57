import HiCore.Rtl.Branch

-- `HiCore_Decode.v`, without the de2ex register that `Cpu` holds.
namespace HiCore.Decode

def rv32 (intr : BitVec 32) : Bool := intr.extractLsb' 0 2 == 0b11#2

-- `(opcode[6:2]==code) & rv32`.
def opcodeIs (code : BitVec 5) (intr : BitVec 32) : Bool := intr.extractLsb' 2 5 == code && rv32 intr

def loadOp (intr : BitVec 32) : Bool := opcodeIs 0b00000#5 intr

def storeOp (intr : BitVec 32) : Bool := opcodeIs 0b01000#5 intr

def fenceOp (intr : BitVec 32) : Bool := opcodeIs 0b00011#5 intr

def jalOp (intr : BitVec 32) : Bool := opcodeIs 0b11011#5 intr

def jalrOp (intr : BitVec 32) : Bool := opcodeIs 0b11001#5 intr

def branchOp (intr : BitVec 32) : Bool := opcodeIs 0b11000#5 intr

def aluOp (intr : BitVec 32) : Bool := opcodeIs 0b00100#5 intr || opcodeIs 0b01100#5 intr

def csrOp (intr : BitVec 32) : Bool := opcodeIs 0b11100#5 intr

def luiOp (intr : BitVec 32) : Bool := opcodeIs 0b01101#5 intr

def auipcOp (intr : BitVec 32) : Bool := opcodeIs 0b00101#5 intr

-- `if_intr[14:12]`: branch_msg, alu_msg, agu_msg and csr_msg.
def msg (intr : BitVec 32) : BitVec 3 := intr.extractLsb' 12 3

def rdIdx (intr : BitVec 32) : BitVec 5 := intr.extractLsb' 7 5

def rs1Idx (intr : BitVec 32) : BitVec 5 := intr.extractLsb' 15 5

def rs2Idx (intr : BitVec 32) : BitVec 5 := intr.extractLsb' 20 5

def csrIdx (intr : BitVec 32) : BitVec 12 := intr.extractLsb' 20 12

-- A system instruction with `csr_msg == 0`, told apart by `if_intr[31:20]`.
def systemOp (code : BitVec 12) (intr : BitVec 32) : Bool :=
  msg intr == 0b000#3 && csrIdx intr == code && csrOp intr

def ecallOp (intr : BitVec 32) : Bool := systemOp 0x000#12 intr

def ebreakOp (intr : BitVec 32) : Bool := systemOp 0x001#12 intr

def mretOp (intr : BitVec 32) : Bool := systemOp 0x302#12 intr

def wfiOp (intr : BitVec 32) : Bool := systemOp 0x105#12 intr

def illegalIntr (intr : BitVec 32) : Bool :=
  !(loadOp intr || storeOp intr || fenceOp intr || jalOp intr || jalrOp intr || branchOp intr ||
    aluOp intr || csrOp intr || luiOp intr || auipcOp intr)

def tImmLui (intr : BitVec 32) : BitVec 32 := intr.extractLsb' 12 20 ++ 0#12

def tImmBranch (intr : BitVec 32) : BitVec 32 :=
  rep 20 (intr.getLsbD 31) ++ intr.extractLsb' 7 1 ++ intr.extractLsb' 25 6 ++
    intr.extractLsb' 8 4 ++ 0#1

def tImmJal (intr : BitVec 32) : BitVec 32 :=
  rep 12 (intr.getLsbD 31) ++ intr.extractLsb' 12 8 ++ intr.extractLsb' 20 1 ++
    intr.extractLsb' 21 10 ++ 0#1

def tImmLoad (intr : BitVec 32) : BitVec 32 := rep 21 (intr.getLsbD 31) ++ intr.extractLsb' 20 11

def tImmStore (intr : BitVec 32) : BitVec 32 :=
  rep 21 (intr.getLsbD 31) ++ intr.extractLsb' 25 6 ++ intr.extractLsb' 7 5

def deExcp (f : If2de) : BitVec 16 :=
  f.excp ||| (0#4 ++ BitVec.ofBool (ecallOp f.intr) ++ 0#7 ++ BitVec.ofBool (ebreakOp f.intr) ++
    BitVec.ofBool (illegalIntr f.intr) ++ 0#2)

def deIrq (mExtIrq mTimeIrq mSoftIrq : Bool) : BitVec 12 :=
  BitVec.ofBool mExtIrq ++ 0#3 ++ BitVec.ofBool mTimeIrq ++ 0#3 ++ BitVec.ofBool mSoftIrq ++ 0#3

def rdNeed (f : If2de) (cancel : Bool) : Bool :=
  !(branchOp f.intr || storeOp f.intr || fenceOp f.intr || ecallOp f.intr || ebreakOp f.intr ||
    mretOp f.intr || wfiOp f.intr) && !cancel && deExcp f == 0#16

def rs1Need (f : If2de) (cancel : Bool) : Bool :=
  !(luiOp f.intr || auipcOp f.intr || jalOp f.intr || fenceOp f.intr || ecallOp f.intr ||
    ebreakOp f.intr || (csrOp f.intr && f.intr.getLsbD 14) || mretOp f.intr || wfiOp f.intr) &&
    !cancel && deExcp f == 0#16

def rs2Need (f : If2de) (cancel : Bool) : Bool :=
  (branchOp f.intr || storeOp f.intr || (aluOp f.intr && f.intr.getLsbD 5)) &&
    !cancel && deExcp f == 0#16

def csrNeed (f : If2de) (cancel : Bool) : Bool :=
  csrOp f.intr && !(msg f.intr == 0#3) && !cancel && deExcp f == 0#16

def branchSel (intr : BitVec 32) : Bool := branchOp intr || jalOp intr || jalrOp intr

def aluSel (intr : BitVec 32) : Bool := aluOp intr || luiOp intr || auipcOp intr

def aguSel (intr : BitVec 32) : Bool := loadOp intr || storeOp intr

def csrSel (intr : BitVec 32) : Bool :=
  csrOp intr && !ecallOp intr && !ebreakOp intr && !mretOp intr && !wfiOp intr

def nopSel (intr : BitVec 32) : Bool :=
  fenceOp intr || ecallOp intr || ebreakOp intr || mretOp intr || wfiOp intr || illegalIntr intr

def immBjp (intr : BitVec 32) : BitVec 32 :=
  if branchOp intr then tImmBranch intr
  else if jalOp intr then tImmJal intr else tImmLoad intr

-- The word in decode with what it reads in that cycle.
structure Operands where
  if2de : If2de
  cancel : Bool
  readSrc1Dat : BitVec 32
  readSrc2Dat : BitVec 32
  irq : BitVec 12

def branchIn (o : Operands) : Branch.In where
  ifPc := o.if2de.pc
  immBjp := immBjp o.if2de.intr
  readSrc1Dat := o.readSrc1Dat
  readSrc2Dat := o.readSrc2Dat
  branchMsg := msg o.if2de.intr
  jalrOp := jalrOp o.if2de.intr
  jalOp := jalOp o.if2de.intr
  branchOp := branchOp o.if2de.intr

-- `{if_pc,de_irq,de_excp}`, the low bits of every layout.
def commonInfo (o : Operands) : BitVec 60 := o.if2de.pc ++ o.irq ++ deExcp o.if2de

-- `{rd_need,rd_idx}`.
def rdInfo (o : Operands) : BitVec 6 :=
  BitVec.ofBool (rdNeed o.if2de o.cancel) ++ rdIdx o.if2de.intr

def branchInfo (o : Operands) : BitVec 98 :=
  rdInfo o ++ Branch.rdResult (branchIn o) ++ commonInfo o

def aluDir (intr : BitVec 32) : Bool :=
  if aluOp intr && !intr.getLsbD 5 && msg intr == 0b000#3 then false else intr.getLsbD 30

def immAlu (intr : BitVec 32) : BitVec 32 :=
  if !aluOp intr then tImmLui intr
  else if !intr.getLsbD 5 && (msg intr == 0b001#3 || msg intr == 0b101#3)
    then 0#27 ++ intr.extractLsb' 20 5 else tImmLoad intr

def aluSrc1 (o : Operands) : BitVec 32 :=
  if aluOp o.if2de.intr then o.readSrc1Dat
  else if luiOp o.if2de.intr then 0#32 else o.if2de.pc

def aluSrc2 (o : Operands) : BitVec 32 :=
  if aluOp o.if2de.intr && o.if2de.intr.getLsbD 5 then o.readSrc2Dat else immAlu o.if2de.intr

def aluInfo (o : Operands) : BitVec 137 :=
  BitVec.ofBool (aluOp o.if2de.intr) ++ BitVec.ofBool (luiOp o.if2de.intr) ++
    BitVec.ofBool (auipcOp o.if2de.intr) ++ BitVec.ofBool (aluDir o.if2de.intr) ++
    msg o.if2de.intr ++ rdInfo o ++ aluSrc2 o ++ aluSrc1 o ++ commonInfo o

def immAgu (intr : BitVec 32) : BitVec 32 := if loadOp intr then tImmLoad intr else tImmStore intr

def aguInfo (o : Operands) : BitVec 167 :=
  BitVec.ofBool (storeOp o.if2de.intr) ++ BitVec.ofBool (loadOp o.if2de.intr) ++
    msg o.if2de.intr ++ rdInfo o ++ o.readSrc2Dat ++ o.readSrc1Dat ++ immAgu o.if2de.intr ++
    commonInfo o

def immCsr (intr : BitVec 32) : BitVec 32 := 0#27 ++ intr.extractLsb' 15 5

def csrRegSrc (o : Operands) : BitVec 32 :=
  if rs1Need o.if2de o.cancel then o.readSrc1Dat else immCsr o.if2de.intr

def csrInfo (o : Operands) : BitVec 113 :=
  msg o.if2de.intr ++ csrIdx o.if2de.intr ++ rdInfo o ++ csrRegSrc o ++ commonInfo o

def fenceIOp (intr : BitVec 32) : Bool := fenceOp intr && intr.getLsbD 12

def nopInfo (o : Operands) : BitVec 63 :=
  BitVec.ofBool (fenceIOp o.if2de.intr) ++ BitVec.ofBool (mretOp o.if2de.intr) ++
    BitVec.ofBool (rdNeed o.if2de o.cancel) ++ commonInfo o

-- Each layout is zero-extended to the widest one, `HiCore_DE2AGU_SIZE = 167`.
def iDe2issueInfoPre (o : Operands) : BitVec 167 :=
  (rep 167 (branchSel o.if2de.intr) &&& (branchInfo o).setWidth 167) |||
    (rep 167 (aluSel o.if2de.intr) &&& (aluInfo o).setWidth 167) |||
    (rep 167 (aguSel o.if2de.intr) &&& (aguInfo o).setWidth 167) |||
    (rep 167 (csrSel o.if2de.intr) &&& (csrInfo o).setWidth 167) |||
    (rep 167 (nopSel o.if2de.intr) &&& (nopInfo o).setWidth 167)

-- `{{(HiCore_DE2ISSUE_PRE_SIZE-size){1'b0}},info}` as an operand. The sizes of `config.v`
-- are sums without parentheses, so that only the first term of `size` is taken off and
-- the others are added. Operands are extended to the widest one, of 302 + 167 bits.
def padded {w : Nat} (n : Nat) (info : BitVec w) : BitVec 469 := (0#n ++ info).setWidth 469

-- The same assignment to the letter, cut to the 167 bits of the wire.
def iDe2issueInfoPreExpanded (o : Operands) : BitVec 167 :=
  (((rep 167 (branchSel o.if2de.intr)).setWidth 469 &&&
      padded (167 - 16 + 12 + 32 + 32 + 5 + 1) (branchInfo o)) |||
    ((rep 167 (aluSel o.if2de.intr)).setWidth 469 &&&
      padded (167 - 16 + 12 + 32 + 32 * 2 + 5 + 8) (aluInfo o)) |||
    ((rep 167 (aguSel o.if2de.intr)).setWidth 469 &&&
      padded (167 - 16 + 12 + 32 + 32 * 3 + 5 + 6) (aguInfo o)) |||
    ((rep 167 (csrSel o.if2de.intr)).setWidth 469 &&&
      padded (167 - 16 + 12 + 32 + 32 + 5 + 12 + 4) (csrInfo o)) |||
    ((rep 167 (nopSel o.if2de.intr)).setWidth 469 &&&
      padded (167 - 16 + 12 + 32 + 3) (nopInfo o))).setWidth 167

def iDe2issueInfo (o : Operands) (robTailPtr : BitVec 4) : BitVec 176 :=
  BitVec.ofBool (branchSel o.if2de.intr) ++ BitVec.ofBool (aluSel o.if2de.intr) ++
    BitVec.ofBool (aguSel o.if2de.intr) ++ BitVec.ofBool (csrSel o.if2de.intr) ++
    BitVec.ofBool (nopSel o.if2de.intr) ++ robTailPtr ++ iDe2issueInfoPre o

def dep (f : If2de) (depend empty full : Bool) : Bool :=
  depend || (fenceOp f.intr && !fenceIOp f.intr && !empty) || full

end HiCore.Decode
