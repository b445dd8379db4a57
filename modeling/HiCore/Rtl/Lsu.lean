import HiCore.Rtl.Agu

-- `HiCore_lsu.v`.
namespace HiCore

open Agu (Agu2lsu)

-- `HiCore_LSU_SIZE`.
structure LsuInfo where
  wordAccess : Bool
  shortAccess : Bool
  byteAccess : Bool
  addr : BitVec 2
  loadOp : Bool
  isUnsigned : Bool
  info : IssueInfo

structure Lsu where
  excpQueue : Pipe IssueInfo
  memQueue : Queue 2 LsuInfo
  memBypbuf : Bypbuf 2 IcbCmd

namespace Lsu

structure In where
  agu2lsuValid : Bool
  agu2lsuCancel : Bool
  agu2lsu : Agu2lsu
  cmdReady : Bool
  rspValid : Bool
  rspErr : Bool
  rspRdata : BitVec 32
  flush : Bool

def reset (l : Lsu) : Lsu where
  excpQueue := Pipe.reset
  memQueue := l.memQueue.reset
  memBypbuf := l.memBypbuf.reset

-- `|agu2lsu_excp`.
def hasExcp (a : Agu2lsu) : Bool := !(a.info.wb.excp == 0#16)

def oExcpQueueReady (rspValid : Bool) : Bool := !rspValid

def iExcpQueueValid (valid cancel : Bool) (a : Agu2lsu) : Bool := valid && hasExcp a && !cancel

def iMemQueueValid (l : Lsu) (valid cancel : Bool) (a : Agu2lsu) : Bool :=
  valid && !hasExcp a && !cancel && l.memBypbuf.iRdy

def iMemFifoVld (l : Lsu) (valid cancel : Bool) (a : Agu2lsu) : Bool :=
  valid && !hasExcp a && !cancel && l.memQueue.iReady

def iMemQueueInfo (a : Agu2lsu) : LsuInfo where
  wordAccess := a.wordAccess
  shortAccess := a.shortAccess
  byteAccess := a.byteAccess
  addr := a.addr.extractLsb' 0 2
  loadOp := a.read
  isUnsigned := a.isUnsigned
  info := a.info

def iMemFifoWdat (a : Agu2lsu) : IcbCmd where
  read := a.read
  wmask := a.wmask
  wdata := a.wdata
  addr := a.addr

def excpQueueIn (i : In) : Pipe.In IssueInfo where
  iVld := iExcpQueueValid i.agu2lsuValid i.agu2lsuCancel i.agu2lsu
  iDat := i.agu2lsu.info
  iCancel := false
  oRdy := oExcpQueueReady i.rspValid
  branch := i.flush

def memQueueIn (l : Lsu) (i : In) : Queue.In LsuInfo where
  iValid := l.iMemQueueValid i.agu2lsuValid i.agu2lsuCancel i.agu2lsu
  iCancel := false
  iInfo := iMemQueueInfo i.agu2lsu
  oReady := i.rspValid
  flush := i.flush

-- The command buffer ignores `flush`.
def memBypbufIn (l : Lsu) (i : In) : Bypbuf.In IcbCmd where
  iVld := l.iMemFifoVld i.agu2lsuValid i.agu2lsuCancel i.agu2lsu
  iDat := iMemFifoWdat i.agu2lsu
  iCancel := false
  oRdy := i.cmdReady
  flush := false

def next (l : Lsu) (i : In) : Lsu where
  excpQueue := l.excpQueue.next false (excpQueueIn i)
  memQueue := l.memQueue.next (l.memQueueIn i)
  memBypbuf := l.memBypbuf.next (l.memBypbufIn i)

def cmdValid (l : Lsu) (valid cancel : Bool) (a : Agu2lsu) : Bool :=
  l.memBypbuf.oVld (l.iMemFifoVld valid cancel a)

def cmd (l : Lsu) (a : Agu2lsu) : IcbCmd := l.memBypbuf.oDat (iMemFifoWdat a)

def rspReady (l : Lsu) : Bool := l.memQueue.oValid

def iAgu2lsuReady (l : Lsu) (cancel : Bool) (a : Agu2lsu) (rspValid : Bool) : Bool :=
  if cancel then true
  else if hasExcp a then l.excpQueue.iRdy false (oExcpQueueReady rspValid)
  else l.memQueue.iReady && l.memBypbuf.iRdy

-- The response side of the unit's inputs.
def wbWen (l : Lsu) (rspValid : Bool) : Bool :=
  (rspValid && l.rspReady && !l.memQueue.oCancel) ||
    (l.excpQueue.vld && oExcpQueueReady rspValid && !l.excpQueue.cancel)

def wbPtr (l : Lsu) (rspValid : Bool) : BitVec 4 :=
  if rspValid then l.memQueue.oInfo.info.robPtr else l.excpQueue.dat.robPtr

-- `mem_icb_rsp_err` reports bit 7 for a store and bit 5 for a load.
def rspExcp (m : LsuInfo) (rspErr : Bool) : BitVec 16 :=
  0#8 ++ BitVec.ofBool (rspErr && !m.loadOp) ++ 0#1 ++ BitVec.ofBool (rspErr && m.loadOp) ++ 0#5

def wbInfo (l : Lsu) (rspValid rspErr : Bool) : WbInfo :=
  if rspValid then { l.memQueue.oInfo.info.wb with
    excp := l.memQueue.oInfo.info.wb.excp ||| rspExcp l.memQueue.oInfo rspErr }
  else l.excpQueue.dat.wb

def rspRdataAlgn (m : LsuInfo) (rdata : BitVec 32) : BitVec 32 := rdata >>> (m.addr ++ 0#3)

def rdData (m : LsuInfo) (rdata : BitVec 32) : BitVec 32 :=
  (rep 32 (m.byteAccess && m.isUnsigned) &&& (0#24 ++ (rspRdataAlgn m rdata).extractLsb' 0 8)) |||
    (rep 32 (m.byteAccess && !m.isUnsigned) &&&
      (rep 24 ((rspRdataAlgn m rdata).getLsbD 7) ++ (rspRdataAlgn m rdata).extractLsb' 0 8)) |||
    (rep 32 (m.shortAccess && m.isUnsigned) &&& (0#16 ++ (rspRdataAlgn m rdata).extractLsb' 0 16)) |||
    (rep 32 (m.shortAccess && !m.isUnsigned) &&&
      (rep 16 ((rspRdataAlgn m rdata).getLsbD 15) ++ (rspRdataAlgn m rdata).extractLsb' 0 16)) |||
    (rep 32 m.wordAccess &&& rspRdataAlgn m rdata)

def wbRdData (l : Lsu) (rspRdata : BitVec 32) : BitVec 32 := rdData l.memQueue.oInfo rspRdata

end Lsu

end HiCore
