import HiCore.Rtl.Alu
import HiCore.Rtl.Bus
import HiCore.Rtl.Clint
import HiCore.Rtl.Commit
import HiCore.Rtl.Decode
import HiCore.Rtl.Ifetch
import HiCore.Rtl.Lsu
import HiCore.Rtl.Plic
import HiCore.Rtl.Tcm

-- `HiCore_cpu.v`: the registers of every instance, the wires between them and
-- one clock cycle. Every wire depends on registers only, so a wire is a
-- function of the state; the interrupt pins reach registers alone.
namespace HiCore

structure Cpu where
  ifetch : Ifetch
  itcm : Tcm
  arbt : Arbt
  de2ex : Pipe (BitVec 176)
  regfile : Regfile
  alu2wb : Pipe Alu.Alu2wb
  agu2lsu : Pipe Agu.Agu2lsu
  lsu : Lsu
  biu : Biu
  dtcm : Tcm
  plic : Plic
  clint : Clint
  nopSlave : NopSlave
  csr : Csr
  rob : Rob

structure Pins where
  uartIrq : Bool
  extIrq0 : Bool
  extIrq1 : Bool
  asyncClk : Bool

namespace Cpu

-- The registers without a reset and the memories keep their power-up contents.
def reset (s : Cpu) : Cpu where
  ifetch := s.ifetch.reset
  itcm := s.itcm.reset
  arbt := s.arbt.reset
  de2ex := Pipe.reset
  regfile := Regfile.reset
  alu2wb := Pipe.reset
  agu2lsu := Pipe.reset
  lsu := s.lsu.reset
  biu := Biu.reset
  dtcm := s.dtcm.reset
  plic := Plic.reset
  clint := Clint.reset
  nopSlave := NopSlave.reset
  csr := Csr.reset
  rob := s.rob.reset

-- Commit.

def commitIn (s : Cpu) : Commit.In where
  robReady := s.rob.commitReady
  issue := s.rob.issue s.rob.head
  rdData := s.rob.rdData s.rob.head
  csrData := s.rob.csrData s.rob.head
  info := s.rob.info s.rob.head
  irqMsk := s.csr.irqMsk
  mepc := s.csr.mepc
  mtvec := s.csr.mtvec

-- `commit_valid & commit_ready`.
def commits (s : Cpu) : Bool := Commit.commits s.commitIn

def flush (s : Cpu) : Bool := Commit.flush s.commitIn

def flushPc (s : Cpu) : BitVec 32 := Commit.flushPc s.commitIn

def commitPc (s : Cpu) : BitVec 32 := s.commitIn.info.pc

def commitNextPc (s : Cpu) : BitVec 32 := s.commitIn.issue.nextPc

def regWen (s : Cpu) : Bool := Commit.regWen s.commitIn

def csrWrEn (s : Cpu) : Bool := Csr.csrWrEn (Commit.toCsr s.commitIn)

-- The response channels of the bus.

def lsuRspReady (s : Cpu) : Bool := s.lsu.rspReady

def slaveRspReady (s : Cpu) : BitVec 5 := s.biu.oRspReady s.lsuRspReady

-- `{if2icache,lsu2icache}`.
def itcmPortRspReady (s : Cpu) : BitVec 2 :=
  BitVec.ofBool s.ifetch.rspReady ++ BitVec.ofBool (s.slaveRspReady.getLsbD 1)

def itcmRspReady (s : Cpu) : Bool := s.arbt.oRspReady s.itcmPortRspReady

def if2icacheRspValid (s : Cpu) : Bool := s.arbt.rspValid s.itcm.rspValid 1#1

def lsu2icacheRspValid (s : Cpu) : Bool := s.arbt.rspValid s.itcm.rspValid 0#1

def slaveRspValid (s : Cpu) : BitVec 5 :=
  BitVec.ofBool s.nopSlave.rspValid ++ BitVec.ofBool s.clint.rspValid ++
    BitVec.ofBool s.plic.rspValid ++ BitVec.ofBool s.lsu2icacheRspValid ++ BitVec.ofBool s.dtcm.rspValid

def slaveRspErr (s : Cpu) : BitVec 5 :=
  BitVec.ofBool s.nopSlave.rspErr ++ BitVec.ofBool s.clint.rspErr ++ BitVec.ofBool s.plic.rspErr ++
    BitVec.ofBool s.itcm.rspErr ++ BitVec.ofBool s.dtcm.rspErr

def slaveRspRdata (s : Cpu) : Fin 5 → BitVec 32
  | 0 => s.dtcm.rspRdata
  | 1 => s.itcm.rspRdata
  | 2 => s.plic.rspRdata
  | 3 => s.clint.rspRdata
  | 4 => s.nopSlave.rspRdata

def lsuRspValid (s : Cpu) : Bool := s.biu.rspValid s.slaveRspValid

def lsuRspErr (s : Cpu) : Bool := s.biu.rspErr s.slaveRspErr

def lsuRspRdata (s : Cpu) : BitVec 32 := s.biu.rspRdata s.slaveRspRdata

-- From issue to the command channel of the bus.

def deInfo (s : Cpu) : BitVec 176 := s.de2ex.dat

def bjpValid (s : Cpu) : Bool := Issue.branchSel s.deInfo && s.de2ex.vld

def aluValid (s : Cpu) : Bool := Issue.aluSel s.deInfo && s.de2ex.vld

def aguValid (s : Cpu) : Bool := Issue.aguSel s.deInfo && s.de2ex.vld

def csrValid (s : Cpu) : Bool := Issue.csrSel s.deInfo && s.de2ex.vld

def nopValid (s : Cpu) : Bool := Issue.nopSel s.deInfo && s.de2ex.vld

def agu2lsuReady (s : Cpu) : Bool :=
  s.lsu.iAgu2lsuReady s.agu2lsu.cancel s.agu2lsu.dat s.lsuRspValid

-- `i_agu2lsu_valid` and `i_agu2lsu_ready` of the agu, at the input of its pipe.
def aguPipeValid (s : Cpu) : Bool :=
  Agu.iAgu2lsuValid (Issue.agu s.deInfo) s.aguValid s.rob.head

def aguPipeReady (s : Cpu) : Bool := s.agu2lsu.iRdy false s.agu2lsuReady

def aguReady (s : Cpu) : Bool := s.aguPipeValid && s.aguPipeReady

def issueReady (s : Cpu) : Issue.Ready where
  bjp := true
  alu := s.alu2wb.iRdy false true
  agu := s.aguReady
  csr := s.csr.csr2wb.iRdy false true
  nop := true

def de2issueReady (s : Cpu) : Bool := Issue.iDe2issueReady s.deInfo s.de2ex.vld s.issueReady

def lsuCmdValid (s : Cpu) : Bool :=
  s.lsu.cmdValid s.agu2lsu.vld s.agu2lsu.cancel s.agu2lsu.dat

def lsuCmd (s : Cpu) : IcbCmd := s.lsu.cmd s.agu2lsu.dat

def slaveCmdValid (s : Cpu) : BitVec 5 := s.biu.oCmdValid s.lsuCmdValid s.lsuCmd.addr

def itcmCmdReady (s : Cpu) : Bool := s.itcm.cmdReady s.itcmRspReady

-- Decode.

def if2deValid (s : Cpu) : Bool := s.ifetch.oIf2deValid s.if2icacheRspValid

def if2de (s : Cpu) : If2de :=
  s.ifetch.oIf2deInfo s.if2icacheRspValid s.itcm.rspRdata s.itcm.rspErr

def if2deCancel (s : Cpu) : Bool := s.ifetch.oIf2deCancel s.if2icacheRspValid

def readSrc1Dat (s : Cpu) : BitVec 32 := s.regfile.read (Decode.rs1Idx s.if2de.intr)

def readSrc2Dat (s : Cpu) : BitVec 32 := s.regfile.read (Decode.rs2Idx s.if2de.intr)

def rs1Need (s : Cpu) : Bool := Decode.rs1Need s.if2de s.if2deCancel

def rs2Need (s : Cpu) : Bool := Decode.rs2Need s.if2de s.if2deCancel

def csrNeed (s : Cpu) : Bool := Decode.csrNeed s.if2de s.if2deCancel

def depend (s : Cpu) : Bool :=
  s.rob.deDepend s.rs1Need s.rs2Need s.csrNeed (Decode.rs1Idx s.if2de.intr)
    (Decode.rs2Idx s.if2de.intr) (Decode.csrIdx s.if2de.intr)

def operands (s : Cpu) : Decode.Operands where
  if2de := s.if2de
  cancel := s.if2deCancel
  readSrc1Dat := s.readSrc1Dat
  readSrc2Dat := s.readSrc2Dat
  irq := Decode.deIrq s.plic.plicExtIrq s.clint.mTimeIrq s.clint.mSoftIrq

def dep (s : Cpu) : Bool := Decode.dep s.if2de s.depend s.rob.empty s.rob.full

-- `i_de2issue_valid` and `i_de2issue_ready` of decode, at the input of its pipe.
def deValid (s : Cpu) : Bool := s.if2deValid && !s.dep

def deReady (s : Cpu) : Bool := s.de2ex.iRdy false s.de2issueReady

def if2deReady (s : Cpu) : Bool := s.deReady && s.deValid

def iDe2issueInfo (s : Cpu) : BitVec 176 := Decode.iDe2issueInfo s.operands s.rob.tail

def robWen (s : Cpu) : Bool := s.deValid && s.deReady && !s.if2deCancel && !s.flush

def branchEn (s : Cpu) : Bool :=
  s.deValid && s.deReady && !s.if2deCancel && Decode.deExcp s.if2de == 0#16 &&
    Decode.branchSel s.if2de.intr

def branch (s : Cpu) : Bool := Branch.branch (Decode.branchIn s.operands) s.branchEn

def branchPc (s : Cpu) : BitVec 32 := Branch.branchPc (Decode.branchIn s.operands)

def robNextPc (s : Cpu) : BitVec 32 := Branch.nextPc (Decode.branchIn s.operands) s.branchEn

def robIssue (s : Cpu) : RobIssue where
  rdNeed := Decode.rdNeed s.if2de s.if2deCancel
  rdIdx := Decode.rdIdx s.if2de.intr
  csrNeed := Decode.csrSel s.if2de.intr
  csrIdx := Decode.csrIdx s.if2de.intr
  nextPc := s.robNextPc
  fenceIOp := Decode.nopSel s.if2de.intr && Decode.fenceIOp s.if2de.intr
  mretOp := Decode.nopSel s.if2de.intr && Decode.mretOp s.if2de.intr

-- Fetch commands and the ITCM port.

def if2icacheCmdValid (s : Cpu) : Bool := s.ifetch.cmdValid s.branch s.flush

def itcmPortCmdValid (s : Cpu) : BitVec 2 :=
  BitVec.ofBool s.if2icacheCmdValid ++ BitVec.ofBool (s.slaveCmdValid.getLsbD 1)

def itcmPortCmd (s : Cpu) (port : BitVec 1) : IcbCmd := if port == 1#1 then s.ifetch.cmd else s.lsuCmd

def itcmPortCmdReady (s : Cpu) : BitVec 2 := s.arbt.cmdReady s.itcmPortCmdValid s.itcmCmdReady

def if2icacheCmdReady (s : Cpu) : Bool := s.itcmPortCmdReady.getLsbD 1

-- The command readies of the bus.

def lsu2icacheCmdReady (s : Cpu) : Bool := s.itcmPortCmdReady.getLsbD 0

def slaveCmdReady (s : Cpu) : BitVec 5 :=
  BitVec.ofBool (s.nopSlave.cmdReady (s.slaveRspReady.getLsbD 4)) ++
    BitVec.ofBool (s.clint.cmdReady (s.slaveRspReady.getLsbD 3)) ++
    BitVec.ofBool s.plic.cmdReady ++
    BitVec.ofBool s.lsu2icacheCmdReady ++
    BitVec.ofBool (s.dtcm.cmdReady (s.slaveRspReady.getLsbD 0))

def slaves (s : Cpu) : Biu.Slaves where
  cmdReady := s.slaveCmdReady
  rspValid := s.slaveRspValid
  rspErr := s.slaveRspErr
  rspRdata := s.slaveRspRdata

def lsuCmdReady (s : Cpu) : Bool := s.biu.cmdReady s.lsuCmd.addr s.slaveCmdReady

-- Write-back ports of the ROB: `HiCore_bjp.v`, `HiCore_nop.v` and the ends of
-- the three other units.

def bjpWb (s : Cpu) : WbPort where
  wen := s.bjpValid && !s.de2ex.cancel && !s.flush
  ptr := Issue.robPtr s.deInfo
  rdData := Issue.bjpRdResult s.deInfo s.bjpValid
  info := Issue.wbInfo s.deInfo

def nopWbWen (s : Cpu) : Bool := s.nopValid && !s.de2ex.cancel && !s.flush

def aluWb (s : Cpu) : WbPort where
  wen := s.alu2wb.vld && !s.alu2wb.cancel && !s.flush
  ptr := s.alu2wb.dat.info.robPtr
  rdData := s.alu2wb.dat.res
  info := s.alu2wb.dat.info.wb

def csrWb (s : Cpu) : WbPort where
  wen := s.csr.csr2wb.vld && !s.csr.csr2wb.cancel && !s.flush
  ptr := s.csr.csr2wb.dat.info.robPtr
  rdData := s.csr.csr2wb.dat.rdata
  info := s.csr.csr2wb.dat.info.wb

def lsuWb (s : Cpu) : WbPort where
  wen := s.lsu.wbWen s.lsuRspValid
  ptr := s.lsu.wbPtr s.lsuRspValid
  rdData := s.lsu.wbRdData s.lsuRspRdata
  info := s.lsu.wbInfo s.lsuRspValid s.lsuRspErr

-- The inputs of the instances.

def ifetchIn (s : Cpu) : Ifetch.In where
  cmdReady := s.if2icacheCmdReady
  rspValid := s.if2icacheRspValid
  rspRdata := s.itcm.rspRdata
  rspErr := s.itcm.rspErr
  if2deReady := s.if2deReady
  branch := s.branch
  branchPc := s.branchPc
  flush := s.flush
  flushPc := s.flushPc

def arbtIn (s : Cpu) : Arbt.In where
  cmdValid := s.itcmPortCmdValid
  cmd := s.itcmPortCmd
  rspReady := s.itcmPortRspReady
  oCmdReady := s.itcmCmdReady
  oRspValid := s.itcm.rspValid

def de2exIn (s : Cpu) : Pipe.In (BitVec 176) where
  iVld := s.deValid
  iDat := s.iDe2issueInfo
  iCancel := s.if2deCancel
  oRdy := s.de2issueReady
  branch := s.flush

def alu2wbIn (s : Cpu) : Pipe.In Alu.Alu2wb where
  iVld := s.aluValid
  iDat := Alu.iAlu2wbInfo (Issue.alu s.deInfo)
  iCancel := s.de2ex.cancel
  oRdy := true
  branch := s.flush

def agu2lsuIn (s : Cpu) : Pipe.In Agu.Agu2lsu where
  iVld := s.aguPipeValid
  iDat := Agu.iAgu2lsuInfo (Issue.agu s.deInfo)
  iCancel := s.de2ex.cancel
  oRdy := s.agu2lsuReady
  branch := s.flush

def lsuIn (s : Cpu) : Lsu.In where
  agu2lsuValid := s.agu2lsu.vld
  agu2lsuCancel := s.agu2lsu.cancel
  agu2lsu := s.agu2lsu.dat
  cmdReady := s.lsuCmdReady
  rspValid := s.lsuRspValid
  rspErr := s.lsuRspErr
  rspRdata := s.lsuRspRdata
  flush := s.flush

def csrIn (s : Cpu) : Csr.In where
  issueValid := s.csrValid
  issueCancel := s.de2ex.cancel
  issue := Issue.csr s.deInfo
  commit := Commit.toCsr s.commitIn
  flush := s.flush
  extIrq := s.plic.plicExtIrq
  sftIrq := s.clint.mSoftIrq
  tmrIrq := s.clint.mTimeIrq

def robIn (s : Cpu) : Rob.In where
  issueWen := s.robWen
  issue := s.robIssue
  bjpWb := s.bjpWb
  aluWb := s.aluWb
  lsuWb := s.lsuWb
  csrWb := s.csrWb
  csrWbCsrData := s.csr.csr2wb.dat.wdata
  nopWbWen := s.nopWbWen
  nopWbPtr := Issue.robPtr s.deInfo
  nopWbInfo := Issue.wbInfo s.deInfo
  commitValid := Commit.robValid
  flush := s.flush

def plicIn (s : Cpu) (p : Pins) : Plic.In where
  cmdValid := s.slaveCmdValid.getLsbD 2
  cmd := s.lsuCmd
  rspReady := s.slaveRspReady.getLsbD 2
  uartIrq := p.uartIrq
  extIrq0 := p.extIrq0
  extIrq1 := p.extIrq1

def clintIn (s : Cpu) (p : Pins) : Clint.In where
  cmdValid := s.slaveCmdValid.getLsbD 3
  cmd := s.lsuCmd
  rspReady := s.slaveRspReady.getLsbD 3
  asyncClk := p.asyncClk

-- One rising edge of the clock.
def step (s : Cpu) (p : Pins) : Cpu where
  ifetch := s.ifetch.next s.ifetchIn
  itcm := s.itcm.next (s.arbt.oCmdValid s.itcmPortCmdValid)
    (Arbt.oCmd s.itcmPortCmdValid s.itcmPortCmd) s.itcmRspReady
  arbt := s.arbt.next s.arbtIn
  de2ex := s.de2ex.next false s.de2exIn
  regfile := s.regfile.next s.regWen (s.rob.issue s.rob.head).rdIdx (s.rob.rdData s.rob.head)
  alu2wb := s.alu2wb.next false s.alu2wbIn
  agu2lsu := s.agu2lsu.next false s.agu2lsuIn
  lsu := s.lsu.next s.lsuIn
  biu := s.biu.next s.lsuCmdValid s.lsuCmd.addr s.lsuRspReady s.slaves
  dtcm := s.dtcm.next (s.slaveCmdValid.getLsbD 0) s.lsuCmd (s.slaveRspReady.getLsbD 0)
  plic := s.plic.next (s.plicIn p)
  clint := s.clint.next (s.clintIn p)
  nopSlave := s.nopSlave.next (s.slaveCmdValid.getLsbD 4) (s.slaveRspReady.getLsbD 4)
  csr := s.csr.next s.csrIn
  rob := s.rob.next s.robIn

end Cpu

-- A run from reset: the contents at power-up and the pins in every cycle.
structure Run where
  power : Cpu
  pins : Nat → Pins

def Run.st (r : Run) : Nat → Cpu
  | 0 => r.power.reset
  | t + 1 => (r.st t).step (r.pins t)

end HiCore
