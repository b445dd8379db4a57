import HiCore.Lib.History
import HiCore.Rtl.Clint

-- The timer of the CLINT, for any bus traffic and any clock input.
namespace HiCore.Clint

structure Run where
  ins : Nat → In

namespace Run

variable (r : Run)

def st (t : Nat) : Clint := History.run Clint.next Clint.reset r.ins t

-- The clock input as it comes out of the two synchroniser stages.
def clock : Nat → Bool
  | t + 2 => (r.ins t).asyncClk
  | _ => false

def rises : Nat → Bool
  | t + 1 => r.clock (t + 1) && !r.clock t
  | 0 => false

-- The count after cycle `t`: a tick, then the writes to its halves.

def ticked (t : Nat) : BitVec 64 := if r.rises t then (r.st t).mtime + 1#64 else (r.st t).mtime

def highHalf (t : Nat) : BitVec 32 :=
  if (r.st t).wr (r.ins t) 0xBFFC#16 then (r.ins t).cmd.wdata else (r.ticked t).extractLsb' 32 32

def lowHalf (t : Nat) : BitVec 32 :=
  if (r.st t).wr (r.ins t) 0xBFF8#16 then (r.ins t).cmd.wdata else (r.ticked t).extractLsb' 0 32

-- The counter advances by its ticks and the interrupt is raised from the
-- deadline on.
structure TimerRight (t : Nat) : Prop where
  counts : (r.st (t + 1)).mtime = r.highHalf t ++ r.lowHalf t
  irq : (r.st t).mTimeIrq = true ↔ (r.st t).mtimecmp.toNat ≤ (r.st t).mtime.toNat

theorem syncClk_eq_clock (t : Nat) : (r.st t).syncClk = r.clock t := by
  rcases t with _ | _ | t
  · rfl
  · rfl
  · rfl

-- The registered clock is that of the cycle before.
theorem syncClkEdge_eq_rises (t : Nat) : (r.st t).syncClkEdge = r.rises t := by
  cases t with
  | zero => rfl
  | succ t =>
    have hr : (r.st (t + 1)).syncClkR = r.clock t := r.syncClk_eq_clock t
    rw [syncClkEdge, r.syncClk_eq_clock, hr, rises]
    cases r.clock (t + 1) <;> cases r.clock t <;> rfl

theorem mtimePlusOne_eq_ticked (t : Nat) : (r.st t).mtimePlusOne = r.ticked t := by
  rw [mtimePlusOne, r.syncClkEdge_eq_rises, ticked]

-- A half that is neither written nor ticked holds the value it is given.

theorem mtimeH_succ (t : Nat) : (r.st (t + 1)).mtimeH = r.highHalf t := by
  rw [highHalf, ← mtimePlusOne_eq_ticked]
  refine dfflr_eq_of_hold _ _ _ fun h => ?_
  obtain ⟨hw, he⟩ := Bool.or_eq_false_iff.mp h
  rw [hw, mtimePlusOne, he, mtime]
  simp only [Bool.false_eq_true, if_false]
  rw [BitVec.extractLsb'_append_eq_of_le (by omega)]
  simp

theorem mtimeL_succ (t : Nat) : (r.st (t + 1)).mtimeL = r.lowHalf t := by
  rw [lowHalf, ← mtimePlusOne_eq_ticked]
  refine dfflr_eq_of_hold _ _ _ fun h => ?_
  obtain ⟨hw, he⟩ := Bool.or_eq_false_iff.mp h
  rw [hw, mtimePlusOne, he, mtime]
  simp only [Bool.false_eq_true, if_false]
  rw [BitVec.extractLsb'_append_eq_of_add_le (by omega)]
  simp

theorem mtime_succ (t : Nat) : (r.st (t + 1)).mtime = r.highHalf t ++ r.lowHalf t := by
  rw [mtime, mtimeH_succ, mtimeL_succ]

-- The comparison is strict, so the interrupt is right except at the deadline.
theorem timerRight_iff (r : Run) (t : Nat) :
    r.TimerRight t ↔ (r.st t).mtime ≠ (r.st t).mtimecmp := by
  have hirq : (r.st t).mTimeIrq = true ↔ (r.st t).mtimecmp.toNat < (r.st t).mtime.toNat := by
    rw [mTimeIrq, BitVec.ult_eq_decide, decide_eq_true_eq]
  have hne : (r.st t).mtime = (r.st t).mtimecmp ↔
      (r.st t).mtime.toNat = (r.st t).mtimecmp.toNat := BitVec.toNat_inj.symm
  constructor
  · intro h he
    have := hirq.symm.trans h.irq
    have := hne.mp he
    omega
  · intro h
    have hn : ¬ (r.st t).mtime.toNat = (r.st t).mtimecmp.toNat := fun he => h (hne.mpr he)
    refine ⟨r.mtime_succ t, hirq.trans ?_⟩
    omega

-- The deadline is set to 1 and the clock rises once.
def deadlineOne : Run where
  ins t :=
    { cmdValid := decide (t = 0)
      cmd := { read := false, wmask := 0b1111#4, wdata := 1#32, addr := 0xF0004000#32 }
      rspReady := true
      asyncClk := decide (1 ≤ t) }

-- The count reaches the deadline in cycle 4, and no interrupt is raised.
theorem not_timerRight_at_deadline : (deadlineOne.st 4).mtime = 1#64 ∧
    (deadlineOne.st 4).mtimecmp = 1#64 ∧ ¬ deadlineOne.TimerRight 4 := by
  have hm : (deadlineOne.st 4).mtime = 1#64 := by decide +kernel
  have hc : (deadlineOne.st 4).mtimecmp = 1#64 := by decide +kernel
  have hi : (deadlineOne.st 4).mTimeIrq = false := by decide +kernel
  refine ⟨hm, hc, fun h => ?_⟩
  have hirq := h.irq.mpr (by rw [hm, hc])
  exact Bool.noConfusion (hi.symm.trans hirq)

end Run

end HiCore.Clint
