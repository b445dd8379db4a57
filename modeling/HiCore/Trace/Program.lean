import HiCore.Rtl.Cpu

-- Runs of a given program, for the inputs on which a statement is shown at work.
namespace HiCore

namespace Cpu

def powerQueue (k : Nat) {α : Type} (x : α) : Queue k α where
  wrPtr := 0#(k + 1)
  rdPtr := 0#(k + 1)
  queueRam _ := x
  queueCancel _ := false

def powerRam (mem : BitVec 12 → BitVec 32) : Tcm := { ram := ⟨mem, 0#12⟩, pipe := Pipe.reset }

-- Power-up contents of zero everywhere but in the ITCM.
def powerOn (itcm : BitVec 12 → BitVec 32) : Cpu where
  ifetch := ⟨0#32, Pipe.reset, powerQueue 2 default, ⟨powerQueue 3 default, 0#3⟩⟩
  itcm := powerRam itcm
  arbt := ⟨powerQueue 2 0#1⟩
  de2ex := Pipe.reset
  regfile := Regfile.reset
  alu2wb := Pipe.reset
  agu2lsu := Pipe.reset
  lsu := ⟨Pipe.reset, powerQueue 2 ⟨false, false, false, 0#2, false, false, default⟩,
    ⟨powerQueue 2 default, 0#2⟩⟩
  biu := Biu.reset
  dtcm := powerRam fun _ => 0#32
  plic := Plic.reset
  clint := Clint.reset
  nopSlave := NopSlave.reset
  csr := Csr.reset
  rob := ⟨fun _ => default, fun _ => 0#32, fun _ => default, fun _ => 0#32, fun _ => .EMPTY_S, 0#5,
    0#5⟩

end Cpu

namespace Run

-- The words from address 0 on, followed by `addi x0,x0,0`.
def image (words : List (BitVec 32)) (a : BitVec 12) : BitVec 32 := words.getD a.toNat 0x00000013#32

-- Quiet interrupt pins. A rising edge of `async_clk` in the first cycle makes
-- the timer interrupt pending from cycle 3 on, since mtimecmp is 0.
def program (timer : Bool) (words : List (BitVec 32)) : Run where
  power := Cpu.powerOn (image words)
  pins _ := { uartIrq := false, extIrq0 := false, extIrq1 := false, asyncClk := timer }

-- `addi x1,x0,5; lui x2,0x80000; sw x1,0(x2); lw x3,0(x2)`.
def storeLoad : Run :=
  program false [0x00500093#32, 0x80000137#32, 0x00112023#32, 0x00012183#32]

end Run

end HiCore
