import HiCore.Rtl.Buffers
import HiCore.Rtl.Bundles

-- `HiCore_ifetch.v`.
namespace HiCore

structure Ifetch where
  pc : BitVec 32
  excpPipe : Pipe FetchInfo
  memQueue : Queue 2 FetchInfo
  memBypbuf : Bypbuf 3 If2de

namespace Ifetch

structure In where
  cmdReady : Bool
  rspValid : Bool
  rspRdata : BitVec 32
  rspErr : Bool
  if2deReady : Bool
  branch : Bool
  branchPc : BitVec 32
  flush : Bool
  flushPc : BitVec 32

-- `HiCore_RST_PC` is 0, the reset value of every register.
def reset (f : Ifetch) : Ifetch where
  pc := 0#32
  excpPipe := Pipe.reset
  memQueue := f.memQueue.reset
  memBypbuf := f.memBypbuf.reset

def excpCode (f : Ifetch) : BitVec 16 :=
  0#14 ++ BitVec.ofBool (!(f.pc.extractLsb' 16 16 == 0x0000#16)) ++
    BitVec.ofBool (!(f.pc.extractLsb' 0 2 == 0#2))

def fetchInfo (f : Ifetch) : FetchInfo := { pc := f.pc, excp := f.excpCode }

-- The fetch pc is aligned and inside the ITCM region.
def legal (f : Ifetch) : Bool := !f.excpCode.getLsbD 0 && !f.excpCode.getLsbD 1

def iExcpQueueValid (f : Ifetch) (branch flush : Bool) : Bool :=
  !branch && !flush && (f.excpCode.getLsbD 0 || f.excpCode.getLsbD 1)

def cmdValid (f : Ifetch) (branch flush : Bool) : Bool :=
  !branch && !flush && f.legal && f.memQueue.iReady && !f.memBypbuf.fifoHalfFull

def iMemQueueValid (f : Ifetch) (branch flush cmdReady : Bool) : Bool :=
  !branch && !flush && f.legal && cmdReady && !f.memBypbuf.fifoHalfFull

def cmd (f : Ifetch) : IcbCmd := { read := true, wmask := 0#4, wdata := 0#32, addr := f.pc }

def iIf2deReady (f : Ifetch) : Bool := f.memBypbuf.iRdy

def rspReady (f : Ifetch) : Bool := f.memQueue.oValid && f.iIf2deReady

def oExcpQueueReady (f : Ifetch) (rspValid : Bool) : Bool := !rspValid && f.iIf2deReady

def iIf2deValid (f : Ifetch) (rspValid : Bool) : Bool :=
  (rspValid && f.memQueue.oValid) || f.excpPipe.vld

def iIf2deInfo (f : Ifetch) (rspValid : Bool) (rdata : BitVec 32) (err : Bool) : If2de :=
  if rspValid then
    { intr := rdata
      pc := f.memQueue.oInfo.pc
      excp := f.memQueue.oInfo.excp ||| (0#14 ++ BitVec.ofBool err ++ 0#1) }
  else { intr := 0#32, pc := f.excpPipe.dat.pc, excp := f.excpPipe.dat.excp }

def iIf2deCancel (f : Ifetch) (rspValid : Bool) : Bool :=
  if rspValid then f.memQueue.oCancel else f.excpPipe.cancel

def oIf2deValid (f : Ifetch) (rspValid : Bool) : Bool := f.memBypbuf.oVld (f.iIf2deValid rspValid)

def oIf2deInfo (f : Ifetch) (rspValid : Bool) (rdata : BitVec 32) (err : Bool) : If2de :=
  f.memBypbuf.oDat (f.iIf2deInfo rspValid rdata err)

def oIf2deCancel (f : Ifetch) (rspValid : Bool) : Bool :=
  f.memBypbuf.oCancel (f.iIf2deCancel rspValid)

def excpPipeIn (f : Ifetch) (i : In) : Pipe.In FetchInfo where
  iVld := f.iExcpQueueValid i.branch i.flush
  iDat := f.fetchInfo
  iCancel := false
  oRdy := f.oExcpQueueReady i.rspValid
  branch := i.flush || i.branch

def memQueueIn (f : Ifetch) (i : In) : Queue.In FetchInfo where
  iValid := f.iMemQueueValid i.branch i.flush i.cmdReady
  iCancel := false
  iInfo := f.fetchInfo
  oReady := i.rspValid && f.iIf2deReady
  flush := i.flush || i.branch

def memBypbufIn (f : Ifetch) (i : In) : Bypbuf.In If2de where
  iVld := f.iIf2deValid i.rspValid
  iDat := f.iIf2deInfo i.rspValid i.rspRdata i.rspErr
  iCancel := f.iIf2deCancel i.rspValid
  oRdy := i.if2deReady
  flush := i.flush || i.branch

def pcEna (f : Ifetch) (i : In) : Bool :=
  ((f.cmdValid i.branch i.flush && i.cmdReady) ||
    (f.iExcpQueueValid i.branch i.flush && f.excpPipe.iRdy false (f.oExcpQueueReady i.rspValid))) ||
    i.branch || i.flush

def pcNext (f : Ifetch) (i : In) : BitVec 32 :=
  if i.flush then i.flushPc else if i.branch then i.branchPc else f.pc + 4#32

def next (f : Ifetch) (i : In) : Ifetch where
  pc := dfflr (f.pcEna i) (f.pcNext i) f.pc
  excpPipe := f.excpPipe.next false (f.excpPipeIn i)
  memQueue := f.memQueue.next (f.memQueueIn i)
  memBypbuf := f.memBypbuf.next (f.memBypbufIn i)

end Ifetch

end HiCore
