import HiCore.Rtl.Buffers
import HiCore.Rtl.Bundles

-- `HiCore_plic_top.v`: `sirv_plic_man.v` with four sources, two priority bits
-- and both interrupt flops, and `sirv_LevelGateway.v`. Source 0 is tied off.
namespace HiCore

structure Plic where
  irqIR : BitVec 4
  inFlight : BitVec 2 → Bool
  irqPend : BitVec 2 → Bool
  irqPrio : BitVec 2 → BitVec 2
  irqEnab : BitVec 32
  irqThod : BitVec 2
  irqO : Bool
  irqId : BitVec 2
  irqPrioTop : BitVec 2
  pipe : Pipe (BitVec 32)

namespace Plic

def reset : Plic where
  irqIR := 0#4
  inFlight _ := false
  irqPend _ := false
  irqPrio _ := 0#2
  irqEnab := 0#32
  irqThod := 0#2
  irqO := false
  irqId := 0#2
  irqPrioTop := 0#2
  pipe := Pipe.reset

structure In where
  cmdValid : Bool
  cmd : IcbCmd
  rspReady : Bool
  uartIrq : Bool
  extIrq0 : Bool
  extIrq1 : Bool

-- The response buffer is a pipe with `CUT_READY = 1`.
def cmdReady (p : Plic) : Bool := p.pipe.iRdy true false

def cmdAddr (i : In) : BitVec 24 := i.cmd.addr.extractLsb' 0 24

def cmdWrHsked (p : Plic) (i : In) : Bool := i.cmdValid && p.cmdReady && !i.cmd.read

def cmdRdHsked (p : Plic) (i : In) : Bool := i.cmdValid && p.cmdReady && i.cmd.read

def selPrio (i : In) (n : BitVec 2) : Bool := cmdAddr i == n.setWidth 24 * 4#24

def selPend (i : In) : Bool := cmdAddr i == 0x001000#24

def selEnab (i : In) : Bool := cmdAddr i == 0x002000#24

def selThod (i : In) : Bool := cmdAddr i == 0x200000#24

def selClam (i : In) : Bool := cmdAddr i == 0x200004#24

-- One input of the comparison tree.
structure Leaf where
  prio : BitVec 2
  id : BitVec 2
  ip : Bool

def leaf (p : Plic) (n : BitVec 2) : Leaf where
  prio := if n == 0#2 then 0#2
    else p.irqPrio n &&& rep 2 (p.irqPend n) &&& rep 2 (p.irqEnab.getLsbD n.toNat)
  id := n
  ip := n != 0#2 && p.irqPend n && p.irqEnab.getLsbD n.toNat

def higher (a b : Leaf) : Leaf := if a.prio.ult b.prio then b else a

-- Inputs 4 to 1023 of the tree are tied to priority zero, so every level above
-- the second passes its left operand on.
def top (p : Plic) : Leaf :=
  higher (higher (p.leaf 0#2) (p.leaf 1#2)) (higher (p.leaf 2#2) (p.leaf 3#2))

def rspRdataPrio (p : Plic) (i : In) : BitVec 32 :=
  (rep 32 (selPrio i 1#2) &&& (p.irqPrio 1#2).setWidth 32) |||
    (rep 32 (selPrio i 2#2) &&& (p.irqPrio 2#2).setWidth 32) |||
    (rep 32 (selPrio i 3#2) &&& (p.irqPrio 3#2).setWidth 32)

def rspRdataPend (p : Plic) (i : In) : BitVec 32 :=
  rep 32 (selPend i) &&& (0#28 ++ BitVec.ofBool (p.irqPend 3#2) ++ BitVec.ofBool (p.irqPend 2#2) ++
    BitVec.ofBool (p.irqPend 1#2) ++ 0#1)

def rspRdataTarg (p : Plic) (i : In) : BitVec 32 :=
  (rep 32 (selThod i) &&& p.irqThod.setWidth 32) ||| (rep 32 (selClam i) &&& p.irqId.setWidth 32) |||
    (rep 32 (selEnab i) &&& p.irqEnab)

def rspRdataNxt (p : Plic) (i : In) : BitVec 32 :=
  p.rspRdataPrio i ||| p.rspRdataPend i ||| p.rspRdataTarg i

def claimIrq (p : Plic) (i : In) (n : BitVec 2) : Bool :=
  p.rspRdataNxt i == n.setWidth 32 && selClam i && p.cmdRdHsked i

def completeIrq (p : Plic) (i : In) (n : BitVec 2) : Bool :=
  i.cmd.wdata.extractLsb' 0 2 == n && selClam i && p.cmdWrHsked i

def gatedValid (p : Plic) (n : BitVec 2) : Bool := p.irqIR.getLsbD n.toNat && !p.inFlight n

def gatedReady (p : Plic) (n : BitVec 2) : Bool := !p.irqPend n

def pendSet (p : Plic) (n : BitVec 2) : Bool := p.gatedValid n && p.gatedReady n

def next (p : Plic) (i : In) : Plic where
  irqIR := BitVec.ofBool i.extIrq1 ++ BitVec.ofBool i.extIrq0 ++ BitVec.ofBool i.uartIrq ++ 0#1
  inFlight n := if p.completeIrq i n then false
    else if p.irqIR.getLsbD n.toNat && p.gatedReady n then true else p.inFlight n
  irqPend n := if n == 0#2 then false
    else dfflr (p.pendSet n || p.claimIrq i n) (p.pendSet n || !p.claimIrq i n) (p.irqPend n)
  irqPrio n := dfflr (n != 0#2 && p.cmdWrHsked i && selPrio i n) (i.cmd.wdata.extractLsb' 0 2)
    (p.irqPrio n)
  irqEnab := dfflr (selEnab i && p.cmdWrHsked i) (i.cmd.wdata.extractLsb' 1 31 ++ 0#1) p.irqEnab
  irqThod := dfflr (p.cmdWrHsked i && selThod i) (i.cmd.wdata.extractLsb' 0 2) p.irqThod
  irqO := p.top.ip && p.irqThod.ult p.top.prio
  irqId := p.top.id
  irqPrioTop := p.top.prio
  pipe := p.pipe.next true
    { iVld := i.cmdValid, iDat := p.rspRdataNxt i, iCancel := false, oRdy := i.rspReady, branch := false }

def rspValid (p : Plic) : Bool := p.pipe.vld

def rspErr (_ : Plic) : Bool := false

def rspRdata (p : Plic) : BitVec 32 := p.pipe.dat

def plicExtIrq (p : Plic) : Bool := p.irqO

end Plic

end HiCore
