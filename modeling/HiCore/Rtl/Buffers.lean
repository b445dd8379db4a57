import HiCore.Lib.Ring

-- `gnrl_dffs.v`, `HiCore_pipe.v`, `HiCore_mem_queue.v` and `sirv_bypbuf.v`.
-- A module is a record of its registers with one function for each output and
-- one for the registers after the clock edge. Payloads are of any type; the
-- source has them as `DW` bits.
namespace HiCore

-- `gnrl_dfflr` and `gnrl_dffl` differ only at reset: the latter keeps whatever
-- it held at power-up.
def dfflr {α : Type} (lden : Bool) (dnxt qout : α) : α := if lden then dnxt else qout

@[simp] theorem dfflr_true {α : Type} (dnxt qout : α) : dfflr true dnxt qout = dnxt := rfl

@[simp] theorem dfflr_false {α : Type} (dnxt qout : α) : dfflr false dnxt qout = qout := rfl

-- An enable that is low only when nothing would change can be left out.
theorem dfflr_eq_of_hold {α : Type} (lden : Bool) (dnxt qout : α) (h : lden = false → dnxt = qout) :
    dfflr lden dnxt qout = dnxt := by
  cases lden with
  | false => exact (h rfl).symm
  | true => rfl

structure Pipe (α : Type) where
  vld : Bool
  dat : α
  cancel : Bool

namespace Pipe

variable {α : Type}

structure In (α : Type) where
  iVld : Bool
  iDat : α
  iCancel : Bool
  oRdy : Bool
  branch : Bool

def reset [Inhabited α] : Pipe α := { vld := false, dat := default, cancel := false }

def vldClr (p : Pipe α) (oRdy : Bool) : Bool := p.vld && oRdy

def iRdy (cutReady : Bool) (p : Pipe α) (oRdy : Bool) : Bool :=
  if cutReady then !p.vld else !p.vld || p.vldClr oRdy

def vldSet (cutReady : Bool) (p : Pipe α) (i : In α) : Bool := i.iVld && p.iRdy cutReady i.oRdy

def next (cutReady : Bool) (p : Pipe α) (i : In α) : Pipe α where
  vld := dfflr (p.vldSet cutReady i || p.vldClr i.oRdy)
    (p.vldSet cutReady i || !p.vldClr i.oRdy) p.vld
  dat := dfflr (p.vldSet cutReady i) i.iDat p.dat
  cancel := dfflr (i.branch || p.vldSet cutReady i) (if i.branch then true else i.iCancel) p.cancel

end Pipe

-- `DP = 2 ^ k` entries and `LOGDP = k`.
structure Queue (k : Nat) (α : Type) where
  wrPtr : BitVec (k + 1)
  rdPtr : BitVec (k + 1)
  queueRam : BitVec k → α
  queueCancel : BitVec k → Bool

namespace Queue

variable {k : Nat} {α : Type}

structure In (α : Type) where
  iValid : Bool
  iCancel : Bool
  iInfo : α
  oReady : Bool
  flush : Bool

-- The payload registers have no reset.
def reset (q : Queue k α) : Queue k α :=
  { q with wrPtr := 0#(k + 1), rdPtr := 0#(k + 1), queueCancel := fun _ => false }

def empty (q : Queue k α) : Bool := Ring.isEmpty q.rdPtr q.wrPtr

def full (q : Queue k α) : Bool := Ring.isFull q.rdPtr q.wrPtr

def iReady (q : Queue k α) : Bool := !q.full

def oValid (q : Queue k α) : Bool := !q.empty

def oInfo (q : Queue k α) : α := q.queueRam (Ring.slot q.rdPtr)

def oCancel (q : Queue k α) : Bool := q.queueCancel (Ring.slot q.rdPtr)

def wen (q : Queue k α) (i : In α) : Bool := i.iValid && q.iReady

def ren (q : Queue k α) (i : In α) : Bool := q.oValid && i.oReady

def next (q : Queue k α) (i : In α) : Queue k α where
  wrPtr := dfflr (q.wen i) (q.wrPtr + 1#(k + 1)) q.wrPtr
  rdPtr := dfflr (q.ren i) (q.rdPtr + 1#(k + 1)) q.rdPtr
  queueRam j := dfflr (q.wen i && Ring.slot q.wrPtr == j) i.iInfo (q.queueRam j)
  queueCancel j := dfflr ((q.wen i && Ring.slot q.wrPtr == j) || i.flush)
    (if i.flush then true else i.iCancel) (q.queueCancel j)

end Queue

-- The occupancy counter is a register of its own, `LOGDP` bits wide.
structure Bypbuf (k : Nat) (α : Type) where
  fifo : Queue k α
  fifoCnt : BitVec k

namespace Bypbuf

variable {k : Nat} {α : Type}

structure In (α : Type) where
  iVld : Bool
  iDat : α
  iCancel : Bool
  oRdy : Bool
  flush : Bool

def reset (b : Bypbuf k α) : Bypbuf k α := { fifo := b.fifo.reset, fifoCnt := 0#k }

def iRdy (b : Bypbuf k α) : Bool := b.fifo.iReady

def oVld (b : Bypbuf k α) (iVld : Bool) : Bool := b.fifo.oValid || iVld

def oDat (b : Bypbuf k α) (iDat : α) : α := if b.fifo.oValid then b.fifo.oInfo else iDat

def oCancel (b : Bypbuf k α) (iCancel : Bool) : Bool :=
  if b.fifo.oValid then b.fifo.oCancel else iCancel

def byp (b : Bypbuf k α) (i : In α) : Bool := i.iVld && i.oRdy && !b.fifo.oValid

def fifoIn (b : Bypbuf k α) (i : In α) : Queue.In α where
  iValid := i.iVld && !b.byp i
  iCancel := i.iCancel
  iInfo := i.iDat
  oReady := i.oRdy
  flush := i.flush

def fifoHalfFull (b : Bypbuf k α) : Bool := decide (2 ^ k / 2 ≤ b.fifoCnt.toNat)

def next (b : Bypbuf k α) (i : In α) : Bypbuf k α where
  fifo := b.fifo.next (b.fifoIn i)
  fifoCnt := dfflr (b.fifo.wen (b.fifoIn i) ^^ b.fifo.ren (b.fifoIn i))
    (if b.fifo.wen (b.fifoIn i) then b.fifoCnt + 1#k else b.fifoCnt - 1#k) b.fifoCnt

end Bypbuf

end HiCore
