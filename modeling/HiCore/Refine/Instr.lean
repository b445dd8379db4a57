import HiCore.Isa.Machine
import HiCore.Refine.Encoding
import HiCore.Refine.IssueBus

-- What decode makes of the word of an instruction: the unit it goes to, the registers it
-- needs and the exceptions it raises.
namespace HiCore

open Isa

namespace Isa

def Instr.opcode : Instr → BitVec 7
  | .lui .. => 0b0110111#7
  | .auipc .. => 0b0010111#7
  | .jal .. => 0b1101111#7
  | .jalr .. => 0b1100111#7
  | .branch .. => 0b1100011#7
  | .load .. => 0b0000011#7
  | .store .. => 0b0100011#7
  | .opImm .. | .shiftImm .. => 0b0010011#7
  | .opReg .. => 0b0110011#7
  | .fence .. | .fenceI .. => 0b0001111#7
  | .ecall | .ebreak | .mret | .wfi | .csr .. => 0b1110011#7

theorem opcode_encode (i : Instr) : opcode i.encode = i.opcode := by
  cases i with
  | ecall | ebreak | mret | wfi => decide
  | _ => simp [Instr.encode, Instr.opcode, wordB, wordS, wordJ]

def Instr.unit : Instr → Rob.WbUnit
  | .jal .. | .jalr .. | .branch .. => .bjp
  | .lui .. | .auipc .. | .opImm .. | .shiftImm .. | .opReg .. => .alu
  | .load .. | .store .. => .lsu
  | .csr .. => .csr
  | .fence .. | .fenceI .. | .ecall | .ebreak | .mret | .wfi => .nop

-- The exceptions that the instruction itself is for, as bits.
def Instr.excp : Instr → BitVec 16
  | .ecall => 0x0800#16
  | .ebreak => 0x0008#16
  | _ => 0#16

def Instr.isLoad : Instr → Bool
  | .load .. => true
  | _ => false

def Instr.isStore : Instr → Bool
  | .store .. => true
  | _ => false

def Instr.isFenceI : Instr → Bool
  | .fenceI .. => true
  | _ => false

def Instr.isMret : Instr → Bool
  | .mret => true
  | _ => false

def Instr.csrIdx : Instr → Option (BitVec 12)
  | .csr _ _ _ idx => some idx
  | _ => none

-- What the unit of an instruction says about it.

theorem Instr.excp_of_unit {i : Instr} (h : i.unit ≠ .nop) : i.excp = 0#16 := by
  cases i with
  | ecall | ebreak => exact absurd rfl h
  | _ => rfl

theorem Instr.csrIdx_of_unit {i : Instr} (h : i.unit ≠ .csr) : i.csrIdx = none := by
  cases i with
  | csr => exact absurd rfl h
  | _ => rfl

theorem Instr.isStore_of_unit {i : Instr} (h : i.unit ≠ .lsu) : i.isStore = false := by
  cases i with
  | store => exact absurd rfl h
  | _ => rfl

theorem Instr.isLoad_of_unit {i : Instr} (h : i.unit = .lsu) : i.isLoad = !i.isStore := by
  cases i with
  | load | store => rfl
  | _ => exact Rob.WbUnit.noConfusion h

theorem Instr.rd_of_unit {i : Instr} (h : i.unit = .nop) : i.rd = none := by
  cases i with
  | fence | fenceI | ecall | ebreak | mret | wfi => rfl
  | _ => exact Rob.WbUnit.noConfusion h

-- Neither a store nor an mret has a destination.
theorem Instr.flags_of_rd {i : Instr} {rd : BitVec 5} (h : i.rd = some rd) :
    i.isStore = false ∧ i.isMret = false := by
  cases i with
  | store | mret => cases h
  | _ => exact ⟨rfl, rfl⟩

end Isa

namespace Decode

theorem opcodeIs_encode (code : BitVec 5) (i : Instr) : opcodeIs code i.encode =
    (i.opcode.extractLsb' 2 5 == code && i.opcode.extractLsb' 0 2 == 0b11#2) :=
  opcodeIs_of_opcode _ _ _ (opcode_encode i)

theorem getLsbD_opcode (w : BitVec 32) : w.getLsbD 5 = (opcode w).getLsbD 5 := by
  simp [opcode]

-- The two fields of a store's offset, put back in order.
theorem tImmStore_wordS (imm : BitVec 12) (rs2 rs1 : BitVec 5) (f3 : BitVec 3) (opc : BitVec 7) :
    tImmStore (wordS imm rs2 rs1 f3 opc) = imm.signExtend 32 := by
  have hs : (wordS imm rs2 rs1 f3 opc).getLsbD 31 = imm.msb := by
    simp only [wordS, word, BitVec.getLsbD_append, BitVec.getLsbD_extractLsb', Nat.reduceLT,
      Nat.reduceSub, reduceIte, BitVec.msb_eq_getLsbD_last]
    simp
  have h5 : (wordS imm rs2 rs1 f3 opc).extractLsb' 25 6 = imm.extractLsb' 5 6 := by
    simp (disch := omega) only [wordS, word, BitVec.extractLsb'_append_eq_of_le]
    ext i hi
    simp [show i < 7 by omega]
  have h0 : (wordS imm rs2 rs1 f3 opc).extractLsb' 7 5 = imm.extractLsb' 0 5 := by
    simp (disch := omega) only [wordS, word, BitVec.extractLsb'_append_eq_of_le,
      BitVec.extractLsb'_append_eq_of_add_le]
    simp
  rw [tImmStore, hs, h5, h0]
  refine BitVec.eq_of_getLsbD_eq fun i hi => ?_
  simp only [BitVec.getLsbD_append, BitVec.getLsbD_extractLsb', BitVec.getLsbD_signExtend, hi,
    decide_true, Bool.true_and]
  by_cases h5 : i < 5
  · simp [h5, show i < 12 by omega]
  by_cases h11 : i < 11
  · simp [h5, show i - 5 < 6 by omega, show i < 12 by omega, show 5 + (i - 5) = i by omega]
  by_cases h12 : i < 12
  · -- Bit 11 is the sign.
    obtain rfl : i = 11 := by omega
    simp [getElem_rep, BitVec.msb_eq_getLsbD_last]
  · simp [h5, h12, show ¬ i - 5 < 6 by omega, show i - 5 - 6 < 21 by omega, getElem_rep]

section Encode

variable (i : Instr)

theorem unit_encode : unit i.encode = i.unit := by
  have ho := fun code => opcodeIs_encode code i
  cases i with
  | ecall | ebreak | mret | wfi => decide
  | csr op rd src idx =>
    rw [← selects_iff]
    exact (isCsrOp_encode op rd src idx).csrSel
  | _ =>
    simp [unit, branchSel, aluSel, aguSel, csrSel, branchOp, jalOp, jalrOp, aluOp, luiOp, auipcOp,
      loadOp, storeOp, csrOp, ho, Instr.opcode, Instr.unit]

theorem loadOp_encode : loadOp i.encode = i.isLoad := by
  rw [loadOp, opcodeIs_encode]
  cases i <;> simp [Instr.opcode, Instr.isLoad]

theorem storeOp_encode : storeOp i.encode = i.isStore := by
  rw [storeOp, opcodeIs_encode]
  cases i <;> simp [Instr.opcode, Instr.isStore]

-- Decode needs what the instruction names, unless it reports an exception.
theorem needs_encode (f : If2de) (c : Bool) (h : f.intr = i.encode) :
    rdNeed f c = (i.rd.isSome && !c && deExcp f == 0#16) ∧
      rs1Need f c = (i.rs1.isSome && !c && deExcp f == 0#16) ∧
      rs2Need f c = (i.rs2.isSome && !c && deExcp f == 0#16) := by
  have ho := fun code => opcodeIs_encode code i
  have h5 := getLsbD_opcode i.encode
  rw [opcode_encode] at h5
  cases i with
  | ecall | ebreak | mret | wfi =>
    rw [rdNeed, rs1Need, rs2Need, h]
    generalize (deExcp f == 0#16) = b
    revert b c
    decide
  | csr op rd src idx =>
    obtain ⟨h1, -, h3⟩ := (h ▸ isCsrOp_encode op rd src idx).needs f c
    rw [h1, h3, rs2Need, h]
    refine ⟨rfl, ?_, ?_⟩
    · cases hi : op.isImm <;> simp [Instr.rs1, hi]
    · simp [branchOp, storeOp, aluOp, ho, Instr.opcode, Instr.rs2]
  | _ =>
    rw [rdNeed, rs1Need, rs2Need, h, h5]
    simp [branchOp, jalOp, aluOp, luiOp, fenceOp, ecallOp, ebreakOp, mretOp, wfiOp, systemOp,
      auipcOp, storeOp, csrOp, ho, Instr.opcode, Instr.rd, Instr.rs1, Instr.rs2]

theorem rdIdx_encode (x : BitVec 5) (h : i.rd = some x) : rdIdx i.encode = x := by
  cases i with
  | branch | store | fence | fenceI | ecall | ebreak | mret | wfi => simp [Instr.rd] at h
  | _ =>
    obtain rfl := Option.some.inj h
    simp (disch := omega) only [rdIdx, Instr.encode, word, wordI, wordU, wordJ,
      BitVec.extractLsb'_append_eq_of_le, BitVec.extractLsb'_append_eq_of_add_le]
    simp

theorem rs1Idx_encode (x : BitVec 5) (h : i.rs1 = some x) : rs1Idx i.encode = x := by
  cases i with
  | lui | auipc | jal | fence | fenceI | ecall | ebreak | mret | wfi => simp [Instr.rs1] at h
  | csr op rd src idx =>
    rw [Instr.rs1] at h
    split at h
    · exact absurd h (by simp)
    · obtain rfl := Option.some.inj h
      exact (isCsrOp_encode ..).rs1Idx
  | _ =>
    obtain rfl := Option.some.inj h
    simp (disch := omega) only [rs1Idx, Instr.encode, word, wordI, wordS, wordB,
      BitVec.extractLsb'_append_eq_of_le, BitVec.extractLsb'_append_eq_of_add_le]
    simp

theorem rs2Idx_encode (x : BitVec 5) (h : i.rs2 = some x) : rs2Idx i.encode = x := by
  cases i with
  | branch | store | opReg =>
    obtain rfl := Option.some.inj h
    exact rs2Idx_word ..
  | _ => simp [Instr.rs2] at h

-- The two flags that make a commit flush.
theorem flags_encode : (nopSel i.encode && fenceIOp i.encode) = i.isFenceI ∧
    (nopSel i.encode && mretOp i.encode) = i.isMret := by
  have ho := fun code => opcodeIs_encode code i
  have hu := (sel_unit i.encode).2.2.2.2
  have h12 : i.encode.getLsbD 12 = (msg i.encode).getLsbD 0 := by simp [msg]
  rw [unit_encode] at hu
  rw [hu]
  cases i with
  | ecall | ebreak | mret | wfi => decide
  | fence rd rs1 imm =>
    have hm : msg (Instr.fence rd rs1 imm).encode = 0b000#3 := msg_wordI ..
    rw [fenceIOp, h12, hm]
    simp [mretOp, systemOp, csrOp, ho, Instr.opcode, Instr.unit, Instr.isFenceI,
      Instr.isMret]
  | fenceI rd rs1 imm =>
    have hm : msg (Instr.fenceI rd rs1 imm).encode = 0b001#3 := msg_wordI ..
    rw [fenceIOp, h12, hm]
    simp [fenceOp, mretOp, systemOp, csrOp, ho, Instr.opcode, Instr.unit, Instr.isFenceI,
      Instr.isMret]
  | _ => simp [Instr.unit, Instr.isFenceI, Instr.isMret]

-- No instruction is illegal, so two of them are the only source of an exception here.
theorem deExcp_encode (f : If2de) (h : f.intr = i.encode) (hx : f.excp = 0#16) :
    deExcp f = i.excp := by
  have ho := fun code => opcodeIs_encode code i
  rw [deExcp, h, hx, BitVec.zero_or]
  cases i with
  | ecall | ebreak | mret | wfi => decide
  | csr op rd src idx =>
    have hm : (msg (Instr.csr op rd src idx).encode == 0b000#3) = false := by
      rw [(isCsrOp_encode op rd src idx).msg]
      cases op <;> rfl
    simp [ecallOp, ebreakOp, systemOp, hm, illegalIntr, csrOp, ho, Instr.opcode, Instr.excp]
  | _ =>
    simp [ecallOp, ebreakOp, systemOp, illegalIntr, loadOp, storeOp, fenceOp, jalOp, jalrOp,
      branchOp, aluOp, csrOp, luiOp, auipcOp, ho, Instr.opcode, Instr.excp]

end Encode

end Decode

end HiCore
