import HiCore.Rtl.Buffers
import HiCore.Rtl.Bundles

-- `HiCore_Clint.v`.
namespace HiCore

structure Clint where
  syncDat0 : Bool
  syncDat1 : Bool
  syncClkR : Bool
  mtimeL : BitVec 32
  mtimeH : BitVec 32
  mtimecmpL : BitVec 32
  mtimecmpH : BitVec 32
  msip : Bool
  pipe : Pipe (BitVec 32)

namespace Clint

def reset : Clint where
  syncDat0 := false
  syncDat1 := false
  syncClkR := false
  mtimeL := 0#32
  mtimeH := 0#32
  mtimecmpL := 0#32
  mtimecmpH := 0#32
  msip := false
  pipe := Pipe.reset

def cmdReady (c : Clint) (rspReady : Bool) : Bool := c.pipe.iRdy false rspReady

-- The second stage of `HiCore_sync` is the synchronised clock.
def syncClk (c : Clint) : Bool := c.syncDat1

def syncClkEdge (c : Clint) : Bool := (c.syncClk ^^ c.syncClkR) && c.syncClk

def mtime (c : Clint) : BitVec 64 := c.mtimeH ++ c.mtimeL

def mtimecmp (c : Clint) : BitVec 64 := c.mtimecmpH ++ c.mtimecmpL

def mtimePlusOne (c : Clint) : BitVec 64 := if c.syncClkEdge then c.mtime + 1#64 else c.mtime

structure In where
  cmdValid : Bool
  cmd : IcbCmd
  rspReady : Bool
  asyncClk : Bool

-- A handshake on the register at `offset`.
def sel (c : Clint) (i : In) (offset : BitVec 16) : Bool :=
  i.cmdValid && c.cmdReady i.rspReady && i.cmd.addr.extractLsb' 0 16 == offset

def rd (c : Clint) (i : In) (offset : BitVec 16) : Bool := c.sel i offset && i.cmd.read

def wr (c : Clint) (i : In) (offset : BitVec 16) : Bool := c.sel i offset && !i.cmd.read

def msipR (c : Clint) : BitVec 32 := 0#31 ++ BitVec.ofBool c.msip

def pipeIdat (c : Clint) (i : In) : BitVec 32 :=
  (rep 32 (c.rd i 0xBFF8#16) &&& c.mtimeL) ||| (rep 32 (c.rd i 0xBFFC#16) &&& c.mtimeH) |||
    (rep 32 (c.rd i 0x4000#16) &&& c.mtimecmpL) ||| (rep 32 (c.rd i 0x4004#16) &&& c.mtimecmpH) |||
    (rep 32 (c.rd i 0x0000#16) &&& c.msipR)

def next (c : Clint) (i : In) : Clint where
  syncDat0 := i.asyncClk
  syncDat1 := c.syncDat0
  syncClkR := c.syncClk
  mtimeL := dfflr (c.wr i 0xBFF8#16 || c.syncClkEdge)
    (if c.wr i 0xBFF8#16 then i.cmd.wdata else c.mtimePlusOne.extractLsb' 0 32) c.mtimeL
  mtimeH := dfflr (c.wr i 0xBFFC#16 || c.syncClkEdge)
    (if c.wr i 0xBFFC#16 then i.cmd.wdata else c.mtimePlusOne.extractLsb' 32 32) c.mtimeH
  mtimecmpL := dfflr (c.wr i 0x4000#16) i.cmd.wdata c.mtimecmpL
  mtimecmpH := dfflr (c.wr i 0x4004#16) i.cmd.wdata c.mtimecmpH
  msip := dfflr (c.wr i 0x0000#16) (i.cmd.wdata.getLsbD 0) c.msip
  pipe := c.pipe.next false
    { iVld := i.cmdValid, iDat := c.pipeIdat i, iCancel := false, oRdy := i.rspReady, branch := false }

def rspValid (c : Clint) : Bool := c.pipe.vld

def rspErr (_ : Clint) : Bool := false

def rspRdata (c : Clint) : BitVec 32 := c.pipe.dat

def mTimeIrq (c : Clint) : Bool := c.mtimecmp.ult c.mtime

def mSoftIrq (c : Clint) : Bool := c.msip

end Clint

end HiCore
