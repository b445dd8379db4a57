import HiCore.Refine.Buffers
import HiCore.Refine.IssueBus
import HiCore.Refine.Retire
import HiCore.Rtl.Cpu

-- Which instruction sits where. Beside every buffer of the core runs a queue of
-- cycle numbers that moves with the buffer's own handshakes. In front of decode
-- an instruction is named by the cycle in which it was fetched; from decode on,
-- by the cycle in which decode accepted it.
namespace HiCore

namespace Cpu

-- The handshakes, as the buffers see them.

def ifqPush (s : Cpu) : Bool := s.ifetch.memQueue.wen (s.ifetch.memQueueIn s.ifetchIn)

def ifqPop (s : Cpu) : Bool := s.ifetch.memQueue.ren (s.ifetch.memQueueIn s.ifetchIn)

def ifExcpPush (s : Cpu) : Bool := s.ifetch.excpPipe.vldSet false (s.ifetch.excpPipeIn s.ifetchIn)

def ifExcpPop (s : Cpu) : Bool :=
  s.ifetch.excpPipe.vldClr (s.ifetch.oExcpQueueReady s.if2icacheRspValid)

def ifBufPush (s : Cpu) : Bool :=
  s.ifetch.iIf2deValid s.if2icacheRspValid && s.ifetch.memBypbuf.iRdy

def ifBufPop (s : Cpu) : Bool := s.if2deValid && s.if2deReady

def decodes (s : Cpu) : Bool := s.de2ex.vldSet false s.de2exIn

def issues (s : Cpu) : Bool := s.de2ex.vldClr s.de2issueReady

def aluPush (s : Cpu) : Bool := s.alu2wb.vldSet false s.alu2wbIn

def csrPush (s : Cpu) : Bool := s.csr.csr2wb.vldSet false (s.csr.csr2wbIn s.csrIn)

def aguPush (s : Cpu) : Bool := s.agu2lsu.vldSet false s.agu2lsuIn

def aguPop (s : Cpu) : Bool := s.agu2lsu.vldClr s.agu2lsuReady

def excpPush (s : Cpu) : Bool := s.lsu.excpQueue.vldSet false (Lsu.excpQueueIn s.lsuIn)

def excpPop (s : Cpu) : Bool := s.lsu.excpQueue.vldClr (Lsu.oExcpQueueReady s.lsuRspValid)

def memPush (s : Cpu) : Bool := s.lsu.memQueue.wen (s.lsu.memQueueIn s.lsuIn)

def memPop (s : Cpu) : Bool := s.lsu.memQueue.ren (s.lsu.memQueueIn s.lsuIn)

def cmdPush (s : Cpu) : Bool :=
  s.lsu.iMemFifoVld s.agu2lsu.vld s.agu2lsu.cancel s.agu2lsu.dat && s.lsu.memBypbuf.iRdy

-- A command is accepted on the LSU's port of the bus.
def cmdFires (s : Cpu) : Bool := s.lsuCmdValid && s.lsuCmdReady

def rspFires (s : Cpu) : Bool := s.biu.splitFifo.vldClr (s.lsuRspValid && s.lsuRspReady)

-- The redirects that cancel what is in front of decode.
def redirects (s : Cpu) : Bool := s.flush || s.branch

end Cpu

structure Tags where
  ifq : List (Nat × Bool)
  ifExcp : List (Nat × Bool)
  ifBuf : List (Nat × Bool)
  de2ex : List (Nat × Bool)
  alu : List (Nat × Bool)
  csr : List (Nat × Bool)
  agu : List (Nat × Bool)
  excp : List (Nat × Bool)
  memq : List (Nat × Bool)
  cmd : List (Nat × Bool)
  biu : List (Nat × Bool)

namespace Tags

def reset : Tags := ⟨[], [], [], [], [], [], [], [], [], [], []⟩

-- The word that reaches the fetch buffer in this cycle.
def fetched (g : Tags) (s : Cpu) : List (Nat × Bool) :=
  if s.ifBufPush then (if s.if2icacheRspValid then g.ifq else g.ifExcp).take 1 else []

-- The command that reaches the command buffer in this cycle.
def arriving (g : Tags) (s : Cpu) : List (Nat × Bool) := if s.cmdPush then g.agu else []

-- The command on the LSU's port of the bus.
def onBus (g : Tags) (s : Cpu) : List Nat := (Fifo.tags (g.cmd ++ g.arriving s)).take 1

def next (t : Nat) (s : Cpu) (g : Tags) : Tags where
  ifq := Fifo.next s.redirects s.ifqPop (if s.ifqPush then [(t, false)] else []) g.ifq
  ifExcp := Fifo.next s.redirects s.ifExcpPop (if s.ifExcpPush then [(t, false)] else []) g.ifExcp
  ifBuf := Fifo.next s.redirects s.ifBufPop (g.fetched s) g.ifBuf
  de2ex := Fifo.next s.flush s.issues (if s.decodes then [(t, s.if2deCancel)] else []) g.de2ex
  alu := Fifo.next s.flush s.alu2wb.vld (if s.aluPush then g.de2ex else []) g.alu
  csr := Fifo.next s.flush s.csr.csr2wb.vld (if s.csrPush then g.de2ex else []) g.csr
  agu := Fifo.next s.flush s.aguPop (if s.aguPush then g.de2ex else []) g.agu
  excp := Fifo.next s.flush s.excpPop (if s.excpPush then g.agu else []) g.excp
  memq := Fifo.next s.flush s.memPop (if s.memPush then g.agu else []) g.memq
  cmd := Fifo.next false s.cmdFires (g.arriving s) g.cmd
  biu := Fifo.next false s.rspFires
    (if s.cmdFires then (g.onBus s).map fun d => (d, false) else []) g.biu

end Tags

namespace Run

def tags (r : Run) : Nat → Tags
  | 0 => Tags.reset
  | t + 1 => (r.tags t).next t (r.st t)

-- The reorder buffer of the run, as a run of its own.
def rob (r : Run) : Rob.Run where
  power := r.power.rob
  ins t := (r.st t).robIn

@[simp] theorem rob_st (r : Run) (t : Nat) : r.rob.st t = (r.st t).rob := by
  induction t with
  | zero => rfl
  | succ t ih => rw [Rob.Run.st, ih]; rfl

-- The decode cycle of the instruction that a slot of the reorder buffer holds.
def owner (r : Run) (t : Nat) (n : BitVec 4) : Nat := r.rob.alloc t n

-- What decode made of the instruction it accepted in cycle `d`.

def info (r : Run) (d : Nat) : BitVec 176 := (r.st d).iDe2issueInfo

def unitOf (r : Run) (d : Nat) : Rob.WbUnit := Decode.unit (r.st d).if2de.intr

def ptrOf (r : Run) (d : Nat) : BitVec 4 := (r.st d).rob.tail

def aguOf (r : Run) (d : Nat) : Agu.Agu2lsu := Agu.iAgu2lsuInfo (Issue.agu (r.info d))

-- The cycle in which the word that is in decode in cycle `d` was fetched.
def fetchOf (r : Run) (d : Nat) : Nat :=
  ((Fifo.tags ((r.tags d).ifBuf ++ (r.tags d).fetched (r.st d))).head?).getD 0

end Run

end HiCore
