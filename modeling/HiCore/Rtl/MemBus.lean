import HiCore.Rtl.Cpu

-- `HiCore_biu.v` and the slaves on its ports, connected as in `HiCore_cpu.v`. What
-- lies on the other side is an input: the LSU, the fetch unit on the second port
-- of the ITCM, the clock of the timer and the PLIC.
namespace HiCore

structure MemBus where
  biu : Biu
  dtcm : Tcm
  itcm : Tcm
  arbt : Arbt
  clint : Clint
  nopSlave : NopSlave

namespace MemBus

structure In where
  cmdValid : Bool
  cmd : IcbCmd
  rspReady : Bool
  ifCmdValid : Bool
  ifCmd : IcbCmd
  ifRspReady : Bool
  plicCmdReady : Bool
  plicRspValid : Bool
  plicRspErr : Bool
  plicRspRdata : BitVec 32
  asyncClk : Bool

def reset (s : MemBus) : MemBus where
  biu := Biu.reset
  dtcm := s.dtcm.reset
  itcm := s.itcm.reset
  arbt := s.arbt.reset
  clint := Clint.reset
  nopSlave := NopSlave.reset

-- The response channel.

def slaveRspReady (s : MemBus) (i : In) : BitVec 5 := s.biu.oRspReady i.rspReady

def itcmPortRspReady (s : MemBus) (i : In) : BitVec 2 :=
  BitVec.ofBool i.ifRspReady ++ BitVec.ofBool ((s.slaveRspReady i).getLsbD 1)

def itcmRspReady (s : MemBus) (i : In) : Bool := s.arbt.oRspReady (s.itcmPortRspReady i)

def slaveRspValid (s : MemBus) (i : In) : BitVec 5 :=
  BitVec.ofBool s.nopSlave.rspValid ++ BitVec.ofBool s.clint.rspValid ++
    BitVec.ofBool i.plicRspValid ++ BitVec.ofBool (s.arbt.rspValid s.itcm.rspValid 0#1) ++
    BitVec.ofBool s.dtcm.rspValid

def slaveRspErr (s : MemBus) (i : In) : BitVec 5 :=
  BitVec.ofBool s.nopSlave.rspErr ++ BitVec.ofBool s.clint.rspErr ++ BitVec.ofBool i.plicRspErr ++
    BitVec.ofBool s.itcm.rspErr ++ BitVec.ofBool s.dtcm.rspErr

def slaveRspRdata (s : MemBus) (i : In) : Fin 5 → BitVec 32
  | 0 => s.dtcm.rspRdata
  | 1 => s.itcm.rspRdata
  | 2 => i.plicRspRdata
  | 3 => s.clint.rspRdata
  | 4 => s.nopSlave.rspRdata

def rspValid (s : MemBus) (i : In) : Bool := s.biu.rspValid (s.slaveRspValid i)

def rspErr (s : MemBus) (i : In) : Bool := s.biu.rspErr (s.slaveRspErr i)

def rspRdata (s : MemBus) (i : In) : BitVec 32 := s.biu.rspRdata (s.slaveRspRdata i)

-- The command channel.

def slaveCmdValid (s : MemBus) (i : In) : BitVec 5 := s.biu.oCmdValid i.cmdValid i.cmd.addr

def itcmPortCmdValid (s : MemBus) (i : In) : BitVec 2 :=
  BitVec.ofBool i.ifCmdValid ++ BitVec.ofBool ((s.slaveCmdValid i).getLsbD 1)

def itcmPortCmd (i : In) (port : BitVec 1) : IcbCmd := if port == 1#1 then i.ifCmd else i.cmd

def itcmCmdReady (s : MemBus) (i : In) : Bool := s.itcm.cmdReady (s.itcmRspReady i)

def itcmPortCmdReady (s : MemBus) (i : In) : BitVec 2 :=
  s.arbt.cmdReady (s.itcmPortCmdValid i) (s.itcmCmdReady i)

def slaveCmdReady (s : MemBus) (i : In) : BitVec 5 :=
  BitVec.ofBool (s.nopSlave.cmdReady ((s.slaveRspReady i).getLsbD 4)) ++
    BitVec.ofBool (s.clint.cmdReady ((s.slaveRspReady i).getLsbD 3)) ++
    BitVec.ofBool i.plicCmdReady ++
    BitVec.ofBool ((s.itcmPortCmdReady i).getLsbD 0) ++
    BitVec.ofBool (s.dtcm.cmdReady ((s.slaveRspReady i).getLsbD 0))

def slaves (s : MemBus) (i : In) : Biu.Slaves where
  cmdReady := s.slaveCmdReady i
  rspValid := s.slaveRspValid i
  rspErr := s.slaveRspErr i
  rspRdata := s.slaveRspRdata i

def cmdReady (s : MemBus) (i : In) : Bool := s.biu.cmdReady i.cmd.addr (s.slaveCmdReady i)

def arbtIn (s : MemBus) (i : In) : Arbt.In where
  cmdValid := s.itcmPortCmdValid i
  cmd := itcmPortCmd i
  rspReady := s.itcmPortRspReady i
  oCmdReady := s.itcmCmdReady i
  oRspValid := s.itcm.rspValid

def clintIn (s : MemBus) (i : In) : Clint.In where
  cmdValid := (s.slaveCmdValid i).getLsbD 3
  cmd := i.cmd
  rspReady := (s.slaveRspReady i).getLsbD 3
  asyncClk := i.asyncClk

def step (s : MemBus) (i : In) : MemBus where
  biu := s.biu.next i.cmdValid i.cmd.addr i.rspReady (s.slaves i)
  dtcm := s.dtcm.next ((s.slaveCmdValid i).getLsbD 0) i.cmd ((s.slaveRspReady i).getLsbD 0)
  itcm := s.itcm.next (s.arbt.oCmdValid (s.itcmPortCmdValid i))
    (Arbt.oCmd (s.itcmPortCmdValid i) (itcmPortCmd i)) (s.itcmRspReady i)
  arbt := s.arbt.next (s.arbtIn i)
  clint := s.clint.next (s.clintIn i)
  nopSlave := s.nopSlave.next ((s.slaveCmdValid i).getLsbD 4) ((s.slaveRspReady i).getLsbD 4)

-- A run from reset, for any behaviour of what surrounds the bus.
structure Run where
  power : MemBus
  ins : Nat → In

def Run.st (r : Run) : Nat → MemBus
  | 0 => r.power.reset
  | t + 1 => (r.st t).step (r.ins t)

end MemBus

-- The core contains the bus.

def Cpu.memBus (s : Cpu) : MemBus where
  biu := s.biu
  dtcm := s.dtcm
  itcm := s.itcm
  arbt := s.arbt
  clint := s.clint
  nopSlave := s.nopSlave

def Cpu.memBusIn (s : Cpu) (p : Pins) : MemBus.In where
  cmdValid := s.lsuCmdValid
  cmd := s.lsuCmd
  rspReady := s.lsuRspReady
  ifCmdValid := s.if2icacheCmdValid
  ifCmd := s.ifetch.cmd
  ifRspReady := s.ifetch.rspReady
  plicCmdReady := s.plic.cmdReady
  plicRspValid := s.plic.rspValid
  plicRspErr := s.plic.rspErr
  plicRspRdata := s.plic.rspRdata
  asyncClk := p.asyncClk

theorem Cpu.memBus_slaves (s : Cpu) (p : Pins) : s.memBus.slaves (s.memBusIn p) = s.slaves := by
  have hd : s.memBus.slaveRspRdata (s.memBusIn p) = s.slaveRspRdata := by
    funext n
    rcases n with ⟨_ | _ | _ | _ | _ | n, hn⟩
    · rfl
    · rfl
    · rfl
    · rfl
    · rfl
    · omega
  rw [MemBus.slaves, hd]
  rfl

theorem Cpu.memBus_step (s : Cpu) (p : Pins) :
    (s.step p).memBus = s.memBus.step (s.memBusIn p) := by
  rw [MemBus.step, s.memBus_slaves p]
  rfl

def Run.memBus (r : Run) : MemBus.Run where
  power := r.power.memBus
  ins t := (r.st t).memBusIn (r.pins t)

theorem Run.memBus_st (r : Run) (t : Nat) : r.memBus.st t = (r.st t).memBus := by
  induction t with
  | zero => rfl
  | succ t ih =>
    rw [MemBus.Run.st, ih]
    exact ((r.st t).memBus_step (r.pins t)).symm

end HiCore
