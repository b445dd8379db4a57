import HiCore.Rtl.Buffers
import HiCore.Rtl.Bundles

-- `HiCore_dtcm_ctrl.v` over `sirv_sim_ram.v`, which serve as the ITCM and the
-- DTCM, and `HiCore_nop_slave.v`.
namespace HiCore

-- `HiCore_RAM_DEPTH` is 4096 words.
structure SimRam where
  memR : BitVec 12 → BitVec 32
  addrR : BitVec 12

namespace SimRam

-- Byte `n` of the word after a write: `mem_r[addr][8*n+7:8*n] <= din[8*n+7:8*n]`.
def byte (wem : BitVec 4) (din old : BitVec 32) (n : Nat) : BitVec 8 :=
  if wem.getLsbD n then din.extractLsb' (8 * n) 8 else old.extractLsb' (8 * n) 8

def merge (wem : BitVec 4) (din old : BitVec 32) : BitVec 32 :=
  byte wem din old 3 ++ byte wem din old 2 ++ byte wem din old 1 ++ byte wem din old 0

def next (r : SimRam) (cs we : Bool) (addr : BitVec 12) (wem : BitVec 4) (din : BitVec 32) :
    SimRam where
  memR a := if cs && we && a == addr then merge wem din (r.memR a) else r.memR a
  addrR := dfflr (cs && !we) addr r.addrR

def dout (r : SimRam) : BitVec 32 := r.memR r.addrR

end SimRam

structure Tcm where
  ram : SimRam
  pipe : Pipe Bool

namespace Tcm

def reset (m : Tcm) : Tcm := { m with pipe := Pipe.reset }

def cmdReady (m : Tcm) (rspReady : Bool) : Bool := m.pipe.iRdy false rspReady

-- `addr[RAM_DEPTH+1:2]`.
def index (addr : BitVec 32) : BitVec 12 := addr.extractLsb' 2 12

def pipeIn (cmdValid rspReady : Bool) : Pipe.In Bool where
  iVld := cmdValid
  iDat := true
  iCancel := false
  oRdy := rspReady
  branch := false

def next (m : Tcm) (cmdValid : Bool) (cmd : IcbCmd) (rspReady : Bool) : Tcm where
  ram := m.ram.next (cmdValid && m.cmdReady rspReady) (!cmd.read) (index cmd.addr) cmd.wmask cmd.wdata
  pipe := m.pipe.next false (pipeIn cmdValid rspReady)

def rspValid (m : Tcm) : Bool := m.pipe.vld

def rspErr (_ : Tcm) : Bool := false

def rspRdata (m : Tcm) : BitVec 32 := m.ram.dout

end Tcm

-- The slave behind every address that no other slave claims.
structure NopSlave where
  pipe : Pipe (BitVec 32)

namespace NopSlave

def reset : NopSlave := { pipe := Pipe.reset }

def cmdReady (n : NopSlave) (rspReady : Bool) : Bool := n.pipe.iRdy false rspReady

def next (n : NopSlave) (cmdValid rspReady : Bool) : NopSlave where
  pipe := n.pipe.next false
    { iVld := cmdValid, iDat := 0#32, iCancel := false, oRdy := rspReady, branch := false }

def rspValid (n : NopSlave) : Bool := n.pipe.vld

def rspErr (_ : NopSlave) : Bool := false

def rspRdata (n : NopSlave) : BitVec 32 := n.pipe.dat

end NopSlave

end HiCore
