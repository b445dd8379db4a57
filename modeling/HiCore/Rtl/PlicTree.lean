import HiCore.Lib.Tournament
import HiCore.Rtl.Plic

-- The comparison tree of `sirv_plic_man.v`, for any number of sources and any width of the
-- priorities. `Plic.top` is what is left of it with four sources.
namespace HiCore.PlicTree

-- `w` is `PLIC_PRIO_WIDTH`, `g` is `PLIC_IRQ_NUM_LOG2` and `irqNum` is `PLIC_IRQ_NUM`.
structure Leaf (w g : Nat) where
  prio : BitVec w
  id : BitVec g
  ip : Bool

structure Sources (w : Nat) where
  irqNum : Nat
  irqPend : Nat → Bool
  irqPrio : Nat → BitVec w
  irqEnab : Nat → BitVec 32
  irqThod : BitVec w

variable {w : Nat} (g : Nat) (s : Sources w)

-- `irq_enab_r[i/32][i%32]`.
def enab (i : Nat) : Bool := (s.irqEnab (i / 32)).getLsbD (i % 32)

def irqPrioMasked (i : Nat) : BitVec w := s.irqPrio i &&& rep w (s.irqPend i)

-- Source 0 and the inputs that have no source are tied to zero.
def lvl10 (i : Nat) : Leaf w g :=
  if i = 0 then { prio := 0#w, id := 0#g, ip := false }
  else if i < s.irqNum then
    { prio := irqPrioMasked s i &&& rep w (enab s i), id := BitVec.ofNat g i
      ip := s.irqPend i && enab s i }
  else { prio := 0#w, id := BitVec.ofNat g i, ip := false }

def key (l : Leaf w g) : Nat := l.prio.toNat

-- Entry `i` of level `10 - k`.
def lvl (k i : Nat) : Leaf w g := Tournament.winner (key g) (lvl10 g s) k i

def top : Leaf w g := lvl g s 10 0

def irqO : Bool := (top g s).ip && s.irqThod.ult (top g s).prio

end HiCore.PlicTree

-- Both words of `irq_enab_r` and `irq_pend_r` but the first are absent.
def HiCore.Plic.sources (p : Plic) : PlicTree.Sources 2 where
  irqNum := 4
  irqPend i := p.irqPend (BitVec.ofNat 2 i)
  irqPrio i := p.irqPrio (BitVec.ofNat 2 i)
  irqEnab i := if i = 0 then p.irqEnab else 0#32
  irqThod := p.irqThod
