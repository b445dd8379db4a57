import HiCore.Lib.History
import HiCore.Refine.Buffers
import HiCore.Rtl.Bus

-- The address map of `config.v` and what the bus splitter makes of it.
namespace HiCore

inductive Slave where
  | dtcm
  | itcm
  | plic
  | clint
  | nop
  deriving DecidableEq

namespace Slave

-- Its place in the bus vectors.
def port : Slave → Fin 5
  | dtcm => ⟨0, by omega⟩
  | itcm => ⟨1, by omega⟩
  | plic => ⟨2, by omega⟩
  | clint => ⟨3, by omega⟩
  | nop => ⟨4, by omega⟩

-- The slave whose region contains the address; the nop slave has what is left.
def owner (addr : BitVec 32) : Slave :=
  if addr.extractLsb' 16 16 = 0x8000#16 then dtcm
  else if addr.extractLsb' 16 16 = 0x0000#16 then itcm
  else if addr.extractLsb' 24 8 = 0xF1#8 then plic
  else if addr.extractLsb' 16 16 = 0xF000#16 then clint
  else nop

theorem exists_port (i : Fin 5) : ∃ n : Slave, n.port = i := by
  obtain ⟨i, hi⟩ := i
  rcases i with _ | _ | _ | _ | _ | i
  · exact ⟨dtcm, rfl⟩
  · exact ⟨itcm, rfl⟩
  · exact ⟨plic, rfl⟩
  · exact ⟨clint, rfl⟩
  · exact ⟨nop, rfl⟩
  · omega

-- The region of the PLIC is given by the top byte alone.
theorem top_byte (addr : BitVec 32) :
    addr.extractLsb' 24 8 = (addr.extractLsb' 16 16).extractLsb' 8 8 := by
  ext i hi
  simp [show 8 + i < 16 by omega, ← Nat.add_assoc]

theorem owner_eq_plic (addr : BitVec 32) :
    owner addr = plic ↔ addr.extractLsb' 24 8 = 0xF1#8 := by
  have hd : ∀ x : BitVec 8, x = 0xF1#8 → ∀ y : BitVec 16, y.extractLsb' 8 8 = x →
      y ≠ 0x8000#16 ∧ y ≠ 0x0000#16 := by
    rintro x rfl y hy
    constructor <;> rintro rfl <;> exact absurd hy (by decide)
  rw [owner]
  constructor
  · intro h
    split at h
    · exact Slave.noConfusion h
    split at h
    · exact Slave.noConfusion h
    split at h
    · assumption
    split at h
    · exact Slave.noConfusion h
    · exact Slave.noConfusion h
  · intro h
    obtain ⟨h0, h1⟩ := hd _ h _ (top_byte addr).symm
    rw [if_neg h0, if_neg h1, if_pos h]

theorem owner_eq_clint (addr : BitVec 32) :
    owner addr = clint ↔ addr.extractLsb' 16 16 = 0xF000#16 := by
  rw [owner, top_byte]
  constructor
  · intro h
    split at h
    · exact Slave.noConfusion h
    split at h
    · exact Slave.noConfusion h
    split at h
    · exact Slave.noConfusion h
    split at h
    · assumption
    · exact Slave.noConfusion h
  · intro h
    rw [h]
    decide

end Slave

namespace Biu

-- Every port is selected by its own addresses, and the nop slave by those of the
-- CLINT as well.
theorem getLsbD_spltIndic (addr : BitVec 32) (n : Slave) : (spltIndic addr).getLsbD n.port =
    (decide (Slave.owner addr = n) || (decide (n = .nop) && decide (Slave.owner addr = .clint))) := by
  rw [spltIndic, spltIndicLow, Slave.owner, Slave.top_byte]
  generalize addr.extractLsb' 16 16 = x
  by_cases h0 : x = 0x8000#16
  · subst h0
    cases n <;> decide
  by_cases h1 : x = 0x0000#16
  · subst h1
    cases n <;> decide
  by_cases h3 : x = 0xF000#16
  · subst h3
    cases n <;> decide
  rw [if_neg h0, if_neg h1, if_neg h3, beq_eq_false_iff_ne.mpr h0, beq_eq_false_iff_ne.mpr h1,
    beq_eq_false_iff_ne.mpr h3]
  by_cases h2 : x.extractLsb' 8 8 = 0xF1#8
  · rw [if_pos h2, beq_iff_eq.mpr h2]
    cases n <;> decide
  · rw [if_neg h2, beq_eq_false_iff_ne.mpr h2]
    cases n <;> decide

theorem getLsbD_spltIndic_owner (addr : BitVec 32) :
    (spltIndic addr).getLsbD (Slave.owner addr).port = true := by
  rw [getLsbD_spltIndic, decide_eq_true rfl]
  rfl

theorem and_ne_zero (v w : BitVec 5) :
    ((v &&& w) != 0#5) = true ↔ ∃ n : Slave, v.getLsbD n.port = true ∧ w.getLsbD n.port = true := by
  have hbit : ∀ x : BitVec 5, x ≠ 0#5 → ∃ i : Fin 5, x.getLsbD i = true := by decide
  constructor
  · intro h
    obtain ⟨i, hi⟩ := hbit _ (by simpa using h)
    obtain ⟨n, rfl⟩ := Slave.exists_port i
    rw [BitVec.getLsbD_and, Bool.and_eq_true] at hi
    exact ⟨n, hi⟩
  · rintro ⟨n, hv, hw⟩
    rw [bne_iff_ne]
    intro hz
    have hb : (v &&& w).getLsbD n.port = false := by rw [hz, BitVec.getLsbD_zero]
    rw [BitVec.getLsbD_and, hv, hw] at hb
    exact Bool.noConfusion hb

theorem getLsbD_rep (b : Bool) (n : Fin 5) : (rep 5 b).getLsbD n = b := by
  revert b n
  decide

theorem getLsbD_oCmdValid (b : Biu) (valid : Bool) (addr : BitVec 32) (n : Fin 5) :
    (b.oCmdValid valid addr).getLsbD n =
      (valid && !b.splitFifo.vld && (spltIndic addr).getLsbD n) := by
  rw [oCmdValid, BitVec.getLsbD_and, getLsbD_rep, rspidFifoFull, Pipe.iRdy, if_pos rfl, Bool.not_not]

theorem cmdReady_iff (b : Biu) (addr : BitVec 32) (ready : BitVec 5) :
    b.cmdReady addr ready = true ↔ b.splitFifo.vld = false ∧
      ∃ n : Slave, (spltIndic addr).getLsbD n.port = true ∧ ready.getLsbD n.port = true := by
  rw [cmdReady, Bool.and_eq_true, and_ne_zero, rspidFifoFull, Pipe.iRdy, if_pos rfl, Bool.not_not,
    Bool.not_eq_true', and_comm]

-- The record moves with the handshakes of the LSU.

theorem splitFifo_vldSet (b : Biu) (valid : Bool) (addr : BitVec 32) (rspReady : Bool) (s : Slaves) :
    b.splitFifo.vldSet true (b.splitFifoIn valid addr rspReady s) =
      (valid && b.cmdReady addr s.cmdReady) := by
  rw [Pipe.vldSet, splitFifoIn, cmdReady, rspidFifoFull, Pipe.iRdy, Pipe.iRdy]
  cases b.splitFifo.vld <;> simp

theorem splitFifo_vldClr (b : Biu) (valid : Bool) (addr : BitVec 32) (rspReady : Bool) (s : Slaves) :
    b.splitFifo.vldClr (b.splitFifoIn valid addr rspReady s).oRdy =
      (b.rspValid s.rspValid && rspReady) := by
  rw [Pipe.vldClr, splitFifoIn, rspValid, rspidFifoEmpty]
  cases b.splitFifo.vld <;> simp

-- The bus vectors list the ports from the last to the first.
theorem getLsbD_ports (a b c d e : Bool) (n : Slave) :
    (BitVec.ofBool a ++ BitVec.ofBool b ++ BitVec.ofBool c ++ BitVec.ofBool d ++
      BitVec.ofBool e).getLsbD n.port =
      match n with
      | .dtcm => e
      | .itcm => d
      | .plic => c
      | .clint => b
      | .nop => a := by
  revert a b c d e
  cases n <;> decide

theorem getLsbD_oRspReady (b : Biu) (rspReady : Bool) (n : Fin 5) :
    (b.oRspReady rspReady).getLsbD n = (b.splitFifo.vld && b.splitFifo.dat.getLsbD n && rspReady) := by
  rw [oRspReady, BitVec.getLsbD_and, getLsbD_rep, rspPortId, rspidFifoEmpty]
  cases b.splitFifo.vld with
  | false => simp
  | true => simp

theorem rspValid_iff (b : Biu) (valid : BitVec 5) : b.rspValid valid = true ↔
    b.splitFifo.vld = true ∧
      ∃ n : Slave, valid.getLsbD n.port = true ∧ b.splitFifo.dat.getLsbD n.port = true := by
  rw [rspValid, rspPortId, rspidFifoEmpty]
  cases b.splitFifo.vld with
  | false => simp
  | true =>
    rw [← and_ne_zero]
    simp

section Owner

variable (b : Biu) (addr : BitVec 32) (hv : b.splitFifo.vld = true)
  (hd : b.splitFifo.dat = spltIndic addr)

include hv hd

-- What the nop slave adds to an answer of the CLINT is nothing.

theorem rspErr_owner (err : BitVec 5) (hn : err.getLsbD Slave.nop.port = false) :
    b.rspErr err = err.getLsbD (Slave.owner addr).port := by
  have hz : b.rspErr err = true ↔ err.getLsbD (Slave.owner addr).port = true := by
    rw [rspErr, rspPortId, rspidFifoEmpty, hv, hd]
    simp only [Bool.not_true, Bool.false_eq_true, if_false]
    rw [and_ne_zero]
    constructor
    · rintro ⟨n, hi, he⟩
      rw [getLsbD_spltIndic] at hi
      rcases Bool.or_eq_true_iff.mp hi with h | h
      · rw [of_decide_eq_true h]
        exact he
      · rw [of_decide_eq_true (Bool.and_eq_true_iff.mp h).1, hn] at he
        exact Bool.noConfusion he
    · intro he
      exact ⟨_, getLsbD_spltIndic_owner addr, he⟩
  exact Bool.eq_iff_iff.mpr hz

theorem rspRdata_owner (rdata : Fin 5 → BitVec 32) (hn : rdata Slave.nop.port = 0#32) :
    b.rspRdata rdata = rdata (Slave.owner addr).port := by
  have h0 : (spltIndic addr).getLsbD 0 = _ := getLsbD_spltIndic addr .dtcm
  have h1 : (spltIndic addr).getLsbD 1 = _ := getLsbD_spltIndic addr .itcm
  have h2 : (spltIndic addr).getLsbD 2 = _ := getLsbD_spltIndic addr .plic
  have h3 : (spltIndic addr).getLsbD 3 = _ := getLsbD_spltIndic addr .clint
  have h4 : (spltIndic addr).getLsbD 4 = _ := getLsbD_spltIndic addr .nop
  have hn4 : rdata 4 = 0#32 := hn
  rw [rspRdata, rspPortId, rspidFifoEmpty, hv, hd]
  simp only [Bool.not_true, Bool.false_eq_true, if_false]
  rw [h0, h1, h2, h3, h4]
  cases Slave.owner addr <;> simp [Slave.port, hn4]

end Owner

end Biu

namespace Arbt

-- The port whose command is passed on.
def winner (cmdValid : BitVec 2) : BitVec 1 := if cmdValid.getLsbD 0 then 0#1 else 1#1

theorem indicId_of_valid (v : BitVec 2) (h : (v != 0#2) = true) : indicId v = winner v := by
  revert v
  decide

theorem sel_of_valid (v : BitVec 2) (h : (v != 0#2) = true) :
    (sel v).getLsbD 0 = (winner v == 0#1) ∧ (sel v).getLsbD 1 = (winner v == 1#1) := by
  revert v
  decide

theorem oCmd_of_valid (v : BitVec 2) (cmd : BitVec 1 → IcbCmd) (h : (v != 0#2) = true) :
    oCmd v cmd = cmd (winner v) := by
  obtain ⟨h0, h1⟩ := sel_of_valid v h
  rw [oCmd, h0, h1, winner]
  cases v.getLsbD 0 <;> simp

-- The queue of outstanding commands moves with the handshakes downstream.

theorem wen_eq (a : Arbt) (i : In) :
    a.arbtQueue.wen (a.queueIn i) = (a.oCmdValid i.cmdValid && i.oCmdReady) := by
  cases hr : a.arbtQueue.iReady <;> simp [Queue.wen, queueIn, oCmdValid, rspidFifoFull, hr]

theorem ren_eq (a : Arbt) (i : In) :
    a.arbtQueue.ren (a.queueIn i) = (i.oRspValid && a.oRspReady i.rspReady) := by
  cases hv : a.arbtQueue.oValid <;> simp [Queue.ren, queueIn, oRspReady, rspidFifoEmpty, hv]

theorem rspPortId_of_oValid (a : Arbt) (h : a.arbtQueue.oValid = true) :
    a.rspPortId = a.arbtQueue.oInfo := by
  simp [rspPortId, rspidFifoEmpty, h]

end Arbt

end HiCore
