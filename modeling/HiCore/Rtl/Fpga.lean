import HiCore.Rtl.Agu
import HiCore.Rtl.Tcm

-- The memory path of `src/rtl`, the tree that `HiCore_SoC.v` instantiates. Its
-- `HiCore_pipe.v` and `sirv_sim_ram.v` are those of `src/rtl/core`; its
-- `HiCore_agu.v` and `HiCore_dtcm_ctrl.v` are not.
namespace HiCore

namespace Agu

-- The inputs of `HiCore_agu.v`, the same in both trees.
structure In where
  issueValid : Bool
  issueCancel : Bool
  issue : Issue.Agu
  lsuReady : Bool
  lsuHeadPtr : BitVec 4
  flush : Bool

def pipeIn (i : In) (info : Agu2lsu) : Pipe.In Agu2lsu where
  iVld := iAgu2lsuValid i.issue i.issueValid i.lsuHeadPtr
  iDat := info
  iCancel := i.issueCancel
  oRdy := i.lsuReady
  branch := i.flush

def next (p : Pipe Agu2lsu) (i : In) : Pipe Agu2lsu :=
  p.next false (pipeIn i (iAgu2lsuInfo i.issue))

end Agu

namespace Fpga

namespace Agu

open HiCore.Agu

-- The alignment check reads `o_agu2lsu_addr`, the output of the pipe.

def wordErr (a : Issue.Agu) (oAgu2lsuAddr : BitVec 32) : Bool :=
  wordAccess a && !(oAgu2lsuAddr.extractLsb' 0 2 == 0#2)

def shortErr (a : Issue.Agu) (oAgu2lsuAddr : BitVec 32) : Bool :=
  shortAccess a && oAgu2lsuAddr.getLsbD 0

def memAddrErr (a : Issue.Agu) (oAgu2lsuAddr : BitVec 32) : Bool :=
  wordErr a oAgu2lsuAddr || shortErr a oAgu2lsuAddr

def excp (a : Issue.Agu) (oAgu2lsuAddr : BitVec 32) : BitVec 16 :=
  a.aguInfo.wb.excp ||| (0#9 ++ BitVec.ofBool (memAddrErr a oAgu2lsuAddr && a.storeOp) ++ 0#1 ++
    BitVec.ofBool (memAddrErr a oAgu2lsuAddr && a.loadOp) ++ 0#4)

def iAgu2lsuInfo (a : Issue.Agu) (oAgu2lsuAddr : BitVec 32) : Agu2lsu where
  wordAccess := wordAccess a
  shortAccess := shortAccess a
  byteAccess := byteAccess a
  read := a.loadOp
  isUnsigned := a.loadOp && a.aguMsg.getLsbD 2
  addr := addr a
  wmask := wmask a
  wdata := wdata a
  info := { robPtr := a.aguInfo.robPtr, wb := { a.aguInfo.wb with excp := excp a oAgu2lsuAddr } }

def next (p : Pipe Agu2lsu) (i : In) : Pipe Agu2lsu :=
  p.next false (pipeIn i (iAgu2lsuInfo i.issue p.dat.addr))

end Agu

namespace Tcm

-- The RAM is enabled in every cycle: `.cs(1'b1)`.
def next (m : HiCore.Tcm) (cmdValid : Bool) (cmd : IcbCmd) (rspReady : Bool) : HiCore.Tcm where
  ram := m.ram.next true (!cmd.read) (HiCore.Tcm.index cmd.addr) cmd.wmask cmd.wdata
  pipe := m.pipe.next false (HiCore.Tcm.pipeIn cmdValid rspReady)

end Tcm

end Fpga

end HiCore
