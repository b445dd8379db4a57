import HiCore.Rtl.Cpu

-- `HiCore_ifetch.v` with the ITCM arbiter and the SRAM controller, connected as in
-- `HiCore_cpu.v`. The other side of every wire that leaves the three is an input:
-- the LSU's port of the arbiter, the decoder and the redirects.
namespace HiCore

structure FetchPort where
  ifetch : Ifetch
  itcm : Tcm
  arbt : Arbt

namespace FetchPort

structure In where
  lsuCmdValid : Bool
  lsuCmd : IcbCmd
  lsuRspReady : Bool
  if2deReady : Bool
  branch : Bool
  branchPc : BitVec 32
  flush : Bool
  flushPc : BitVec 32

def reset (s : FetchPort) : FetchPort where
  ifetch := s.ifetch.reset
  itcm := s.itcm.reset
  arbt := s.arbt.reset

-- The response channel.

def rspReady (s : FetchPort) : Bool := s.ifetch.rspReady

def portRspReady (s : FetchPort) (i : In) : BitVec 2 :=
  BitVec.ofBool s.rspReady ++ BitVec.ofBool i.lsuRspReady

def itcmRspReady (s : FetchPort) (i : In) : Bool := s.arbt.oRspReady (s.portRspReady i)

def rspValid (s : FetchPort) : Bool := s.arbt.rspValid s.itcm.rspValid 1#1

-- The command channel.

def cmdValid (s : FetchPort) (i : In) : Bool := s.ifetch.cmdValid i.branch i.flush

def portCmdValid (s : FetchPort) (i : In) : BitVec 2 :=
  BitVec.ofBool (s.cmdValid i) ++ BitVec.ofBool i.lsuCmdValid

def portCmd (s : FetchPort) (i : In) (port : BitVec 1) : IcbCmd :=
  if port == 1#1 then s.ifetch.cmd else i.lsuCmd

def itcmCmdReady (s : FetchPort) (i : In) : Bool := s.itcm.cmdReady (s.itcmRspReady i)

def portCmdReady (s : FetchPort) (i : In) : BitVec 2 :=
  s.arbt.cmdReady (s.portCmdValid i) (s.itcmCmdReady i)

def cmdReady (s : FetchPort) (i : In) : Bool := (s.portCmdReady i).getLsbD 1

-- The decoder's side.

def if2deValid (s : FetchPort) : Bool := s.ifetch.oIf2deValid s.rspValid

def if2de (s : FetchPort) : If2de := s.ifetch.oIf2deInfo s.rspValid s.itcm.rspRdata s.itcm.rspErr

def if2deCancel (s : FetchPort) : Bool := s.ifetch.oIf2deCancel s.rspValid

def ifetchIn (s : FetchPort) (i : In) : Ifetch.In where
  cmdReady := s.cmdReady i
  rspValid := s.rspValid
  rspRdata := s.itcm.rspRdata
  rspErr := s.itcm.rspErr
  if2deReady := i.if2deReady
  branch := i.branch
  branchPc := i.branchPc
  flush := i.flush
  flushPc := i.flushPc

def arbtIn (s : FetchPort) (i : In) : Arbt.In where
  cmdValid := s.portCmdValid i
  cmd := s.portCmd i
  rspReady := s.portRspReady i
  oCmdReady := s.itcmCmdReady i
  oRspValid := s.itcm.rspValid

def step (s : FetchPort) (i : In) : FetchPort where
  ifetch := s.ifetch.next (s.ifetchIn i)
  itcm := s.itcm.next (s.arbt.oCmdValid (s.portCmdValid i))
    (Arbt.oCmd (s.portCmdValid i) (s.portCmd i)) (s.itcmRspReady i)
  arbt := s.arbt.next (s.arbtIn i)

-- A run of the three from reset, for any behaviour of what surrounds them.
structure Run where
  power : FetchPort
  ins : Nat → In

def Run.st (r : Run) : Nat → FetchPort
  | 0 => r.power.reset
  | t + 1 => (r.st t).step (r.ins t)

end FetchPort

-- The core contains the three.

def Cpu.fetchPort (s : Cpu) : FetchPort := { ifetch := s.ifetch, itcm := s.itcm, arbt := s.arbt }

def Cpu.fetchPortIn (s : Cpu) : FetchPort.In where
  lsuCmdValid := s.slaveCmdValid.getLsbD 1
  lsuCmd := s.lsuCmd
  lsuRspReady := s.slaveRspReady.getLsbD 1
  if2deReady := s.if2deReady
  branch := s.branch
  branchPc := s.branchPc
  flush := s.flush
  flushPc := s.flushPc

theorem Cpu.fetchPort_step (s : Cpu) (p : Pins) :
    (s.step p).fetchPort = s.fetchPort.step s.fetchPortIn := by
  unfold fetchPort step
  rfl

def Run.fetchPort (r : Run) : FetchPort.Run where
  power := r.power.fetchPort
  ins t := (r.st t).fetchPortIn

@[simp] theorem Run.fetchPort_st (r : Run) (t : Nat) :
    r.fetchPort.st t = (r.st t).fetchPort := by
  induction t with
  | zero => rfl
  | succ t ih =>
    rw [FetchPort.Run.st, ih]
    exact ((r.st t).fetchPort_step (r.pins t)).symm

end HiCore
