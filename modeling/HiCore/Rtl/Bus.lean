import HiCore.Rtl.Buffers
import HiCore.Rtl.Bundles

-- `HiCore_biu.v` with its `sirv_icb_splt.v`, and `sirv_icb_arbt.v` as the ITCM
-- port uses it. Port `n` of a bus vector is bit `n`.
namespace HiCore

-- The selected port of the one command that may be outstanding.
structure Biu where
  splitFifo : Pipe (BitVec 5)

namespace Biu

def reset : Biu := { splitFifo := Pipe.reset }

-- Ports: 0 DTCM, 1 ITCM, 2 PLIC, 3 CLINT, 4 the nop slave.
def spltIndicLow (addr : BitVec 32) : BitVec 3 :=
  BitVec.ofBool (addr.extractLsb' 24 8 == 0xF1#8) ++
    BitVec.ofBool (addr.extractLsb' 16 16 == 0x0000#16) ++
    BitVec.ofBool (addr.extractLsb' 16 16 == 0x8000#16)

def spltIndic (addr : BitVec 32) : BitVec 5 :=
  BitVec.ofBool (spltIndicLow addr == 0#3) ++
    BitVec.ofBool (addr.extractLsb' 16 16 == 0xF000#16) ++ spltIndicLow addr

-- What the five slaves present in a cycle.
structure Slaves where
  cmdReady : BitVec 5
  rspValid : BitVec 5
  rspErr : BitVec 5
  rspRdata : Fin 5 → BitVec 32

def rspidFifoFull (b : Biu) : Bool := !b.splitFifo.iRdy true false

def rspidFifoEmpty (b : Biu) : Bool := !b.splitFifo.vld

-- `sel_o_icb_cmd_ready` is the or of the readies of the selected ports.
def cmdReady (b : Biu) (addr : BitVec 32) (ready : BitVec 5) : Bool :=
  (spltIndic addr &&& ready) != 0#5 && !b.rspidFifoFull

def oCmdValid (b : Biu) (valid : Bool) (addr : BitVec 32) : BitVec 5 :=
  rep 5 (valid && !b.rspidFifoFull) &&& spltIndic addr

def rspPortId (b : Biu) : BitVec 5 := if b.rspidFifoEmpty then 0#5 else b.splitFifo.dat

def rspValid (b : Biu) (valid : BitVec 5) : Bool := !b.rspidFifoEmpty && (valid &&& b.rspPortId) != 0#5

def oRspReady (b : Biu) (rspReady : Bool) : BitVec 5 :=
  b.rspPortId &&& rep 5 (!b.rspidFifoEmpty && rspReady)

def rspErr (b : Biu) (err : BitVec 5) : Bool := (b.rspPortId &&& err) != 0#5

def rspRdata (b : Biu) (rdata : Fin 5 → BitVec 32) : BitVec 32 :=
  (rep 32 (b.rspPortId.getLsbD 0) &&& rdata 0) ||| (rep 32 (b.rspPortId.getLsbD 1) &&& rdata 1) |||
    (rep 32 (b.rspPortId.getLsbD 2) &&& rdata 2) ||| (rep 32 (b.rspPortId.getLsbD 3) &&& rdata 3) |||
    (rep 32 (b.rspPortId.getLsbD 4) &&& rdata 4)

def splitFifoIn (b : Biu) (cmdValid : Bool) (addr : BitVec 32) (rspReady : Bool) (s : Slaves) :
    Pipe.In (BitVec 5) where
  iVld := cmdValid && b.cmdReady addr s.cmdReady
  iDat := spltIndic addr
  iCancel := false
  oRdy := b.rspValid s.rspValid && rspReady
  branch := false

def next (b : Biu) (cmdValid : Bool) (addr : BitVec 32) (rspReady : Bool) (s : Slaves) : Biu where
  splitFifo := b.splitFifo.next true (b.splitFifoIn cmdValid addr rspReady s)

end Biu

-- `ARBT_NUM = 2` and `FIFO_OUTS_NUM = 4`. The queue holds the port of every
-- outstanding command: port 0 is the LSU and port 1 is the fetch unit.
structure Arbt where
  arbtQueue : Queue 2 (BitVec 1)

namespace Arbt

structure In where
  cmdValid : BitVec 2
  cmd : BitVec 1 → IcbCmd
  rspReady : BitVec 2
  oCmdReady : Bool
  oRspValid : Bool

def reset (a : Arbt) : Arbt := { arbtQueue := a.arbtQueue.reset }

def rspidFifoFull (a : Arbt) : Bool := !a.arbtQueue.iReady

def rspidFifoEmpty (a : Arbt) : Bool := !a.arbtQueue.oValid

-- A port is granted when no port of lower number asks.
def grtVec (cmdValid : BitVec 2) : BitVec 2 := BitVec.ofBool (!cmdValid.getLsbD 0) ++ 1#1

def sel (cmdValid : BitVec 2) : BitVec 2 := grtVec cmdValid &&& cmdValid

def oCmdValid (a : Arbt) (cmdValid : BitVec 2) : Bool := cmdValid != 0#2 && !a.rspidFifoFull

def cmdReady (a : Arbt) (cmdValid : BitVec 2) (oCmdReady : Bool) : BitVec 2 :=
  grtVec cmdValid &&& rep 2 (oCmdReady && !a.rspidFifoFull)

def oCmd (cmdValid : BitVec 2) (cmd : BitVec 1 → IcbCmd) : IcbCmd where
  read := ((sel cmdValid).getLsbD 0 && (cmd 0#1).read) || ((sel cmdValid).getLsbD 1 && (cmd 1#1).read)
  wmask := (rep 4 ((sel cmdValid).getLsbD 0) &&& (cmd 0#1).wmask) |||
    (rep 4 ((sel cmdValid).getLsbD 1) &&& (cmd 1#1).wmask)
  wdata := (rep 32 ((sel cmdValid).getLsbD 0) &&& (cmd 0#1).wdata) |||
    (rep 32 ((sel cmdValid).getLsbD 1) &&& (cmd 1#1).wdata)
  addr := (rep 32 ((sel cmdValid).getLsbD 0) &&& (cmd 0#1).addr) |||
    (rep 32 ((sel cmdValid).getLsbD 1) &&& (cmd 1#1).addr)

def indicId (cmdValid : BitVec 2) : BitVec 1 :=
  (rep 1 ((sel cmdValid).getLsbD 0) &&& 0#1) ||| (rep 1 ((sel cmdValid).getLsbD 1) &&& 1#1)

def rspPortId (a : Arbt) : BitVec 1 := if a.rspidFifoEmpty then 0#1 else a.arbtQueue.oInfo

def rspValid (a : Arbt) (oRspValid : Bool) (port : BitVec 1) : Bool :=
  (!a.rspidFifoEmpty && oRspValid) && a.rspPortId == port

def oRspReady (a : Arbt) (rspReady : BitVec 2) : Bool :=
  !a.rspidFifoEmpty && rspReady.getLsbD a.rspPortId.toNat

def queueIn (a : Arbt) (i : In) : Queue.In (BitVec 1) where
  iValid := a.oCmdValid i.cmdValid && i.oCmdReady
  iCancel := false
  iInfo := indicId i.cmdValid
  oReady := i.oRspValid && a.oRspReady i.rspReady
  flush := false

def next (a : Arbt) (i : In) : Arbt where
  arbtQueue := a.arbtQueue.next (a.queueIn i)

end Arbt

end HiCore
