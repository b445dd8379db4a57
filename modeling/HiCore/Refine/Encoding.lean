import HiCore.Isa.Legal
import HiCore.Rtl.Decode

-- The fields that decode cuts out of a word are the ones its encoding put there.
namespace HiCore.Decode

open Isa

-- Decode splits the opcode in two.
theorem opcodeIs_of_opcode (code : BitVec 5) (w : BitVec 32) (opc : BitVec 7) (h : opcode w = opc) :
    opcodeIs code w = (opc.extractLsb' 2 5 == code && opc.extractLsb' 0 2 == 0b11#2) := by
  subst h
  rw [opcodeIs, rv32, opcode, BitVec.extractLsb'_extractLsb'_of_le (by omega),
    BitVec.extractLsb'_extractLsb'_of_le (by omega)]

section Fields

variable (f7 : BitVec 7) (rs2 rs1 : BitVec 5) (f3 : BitVec 3) (rd : BitVec 5) (opc : BitVec 7)
  (imm : BitVec 12) (imm20 : BitVec 20)

theorem msg_word : msg (word f7 rs2 rs1 f3 rd opc) = f3 := funct3_word ..

theorem msg_wordI : msg (wordI imm rs1 f3 rd opc) = f3 := funct3_wordI ..

theorem rs2Idx_word : rs2Idx (word f7 rs2 rs1 f3 rd opc) = rs2 := by
  simp (disch := omega) only [rs2Idx, word, BitVec.extractLsb'_append_eq_of_le,
    BitVec.extractLsb'_append_eq_of_add_le]
  simp

theorem getLsbD_word : (word f7 rs2 rs1 f3 rd opc).getLsbD 30 = f7.getLsbD 5 ∧
    (word f7 rs2 rs1 f3 rd opc).getLsbD 5 = opc.getLsbD 5 := by
  simp only [word, BitVec.getLsbD_append, Nat.reduceLT, Nat.reduceSub, reduceIte, and_self]

theorem csrIdx_wordI : csrIdx (wordI imm rs1 f3 rd opc) = imm := by
  simp (disch := omega) only [csrIdx, wordI, BitVec.extractLsb'_append_eq_of_le]
  simp

theorem rs1Idx_wordI : rs1Idx (wordI imm rs1 f3 rd opc) = rs1 := by
  simp (disch := omega) only [rs1Idx, wordI, BitVec.extractLsb'_append_eq_of_le,
    BitVec.extractLsb'_append_eq_of_add_le]
  simp

theorem getLsbD_wordI : (wordI imm rs1 f3 rd opc).getLsbD 5 = opc.getLsbD 5 := by
  simp only [wordI, BitVec.getLsbD_append, Nat.reduceLT, reduceIte]

theorem tImmLui_wordU : tImmLui (wordU imm20 rd opc) = imm20.setWidth 32 <<< 12 := by
  have he : (wordU imm20 rd opc).extractLsb' 12 20 = imm20 := by
    simp (disch := omega) only [wordU, BitVec.extractLsb'_append_eq_of_le]
    simp
  rw [tImmLui, he]
  ext i hi
  rw [BitVec.getElem_append, BitVec.getElem_shiftLeft, BitVec.getElem_setWidth]
  by_cases h : i < 12
  · simp [h]
  · simp [h, BitVec.getLsbD_eq_getElem (show i - 12 < 20 by omega)]

end Fields

theorem getElem_rep (n i : Nat) (b : Bool) (h : i < n) : (rep n b)[i] = b := by
  cases b with
  | false => simp [rep]
  | true => simp only [rep, if_true, BitVec.getElem_allOnes]

theorem tImmLoad_eq (w : BitVec 32) : tImmLoad w = (csrIdx w).signExtend 32 := by
  have hm : (csrIdx w).msb = w.getLsbD 31 := by
    simp [csrIdx, BitVec.msb_eq_getLsbD_last]
  ext i hi
  rw [tImmLoad, BitVec.getElem_append, BitVec.getElem_signExtend, hm]
  by_cases h : i < 11
  · simp [h, csrIdx, show i < 12 by omega]
  by_cases h' : i < 12
  · -- Bit 11 of the immediate is its sign, already in the replicated part.
    obtain rfl : i = 11 := by omega
    simp [csrIdx, getElem_rep]
  · simp [h, h', getElem_rep]

-- The scattered fields of an offset, put back in order.

theorem tImmBranch_wordB (imm : BitVec 12) (rs2 rs1 : BitVec 5) (f3 : BitVec 3) (opc : BitVec 7) :
    tImmBranch (wordB imm rs2 rs1 f3 opc) = (imm ++ 0#1).signExtend 32 := by
  have hs : (wordB imm rs2 rs1 f3 opc).getLsbD 31 = imm.getLsbD 11 := by
    simp only [wordB, word, BitVec.getLsbD_append, BitVec.getLsbD_extractLsb', Nat.reduceLT,
      Nat.reduceSub, reduceIte]
    simp
  have h11 : (wordB imm rs2 rs1 f3 opc).extractLsb' 7 1 = imm.extractLsb' 10 1 := by
    simp (disch := omega) only [wordB, word, BitVec.extractLsb'_append_eq_of_le,
      BitVec.extractLsb'_append_eq_of_add_le]
    simp
  have h5 : (wordB imm rs2 rs1 f3 opc).extractLsb' 25 6 = imm.extractLsb' 4 6 := by
    simp (disch := omega) only [wordB, word, BitVec.extractLsb'_append_eq_of_le,
      BitVec.extractLsb'_append_eq_of_add_le]
    simp
  have h1 : (wordB imm rs2 rs1 f3 opc).extractLsb' 8 4 = imm.extractLsb' 0 4 := by
    simp (disch := omega) only [wordB, word, BitVec.extractLsb'_append_eq_of_le,
      BitVec.extractLsb'_append_eq_of_add_le]
    simp
  have hm : (imm ++ 0#1).msb = imm.getLsbD 11 := by
    rw [BitVec.msb_append, BitVec.msb_eq_getLsbD_last]
    rfl
  rw [tImmBranch, hs, h11, h5, h1]
  refine BitVec.eq_of_getLsbD_eq fun i hi => ?_
  simp only [BitVec.getLsbD_append, BitVec.getLsbD_extractLsb', BitVec.getLsbD_signExtend, hm, hi,
    decide_true, Bool.true_and]
  by_cases h13 : i < 13
  · by_cases h12 : i < 12
    · by_cases h5 : i < 5
      · by_cases h1 : i < 1
        · simp [h1, h13]
        · simp [h1, h13, show i - 1 < 4 by omega]
      · by_cases h11 : i < 11
        · simp [h13, show ¬ i < 1 by omega, show ¬ i - 1 < 4 by omega, show i - 1 - 4 < 6 by omega,
            show 4 + (i - 1 - 4) = i - 1 by omega]
        · obtain rfl : i = 11 := by omega
          simp
    · obtain rfl : i = 12 := by omega
      simp [getElem_rep]
  · simp [h13, show ¬ i < 1 by omega, show ¬ i - 1 < 4 by omega, show ¬ i - 1 - 4 < 6 by omega,
      show ¬ i - 1 - 4 - 6 < 1 by omega, show i - 1 - 4 - 6 - 1 < 20 by omega, getElem_rep]

theorem tImmJal_wordJ (imm : BitVec 20) (rd : BitVec 5) (opc : BitVec 7) :
    tImmJal (wordJ imm rd opc) = (imm ++ 0#1).signExtend 32 := by
  have hs : (wordJ imm rd opc).getLsbD 31 = imm.getLsbD 19 := by
    simp only [wordJ, wordU, BitVec.getLsbD_append, BitVec.getLsbD_extractLsb', Nat.reduceLT,
      Nat.reduceSub, reduceIte]
    simp
  have h12 : (wordJ imm rd opc).extractLsb' 12 8 = imm.extractLsb' 11 8 := by
    simp (disch := omega) only [wordJ, wordU, BitVec.extractLsb'_append_eq_of_le,
      BitVec.extractLsb'_append_eq_of_add_le]
    simp
  have h11 : (wordJ imm rd opc).extractLsb' 20 1 = imm.extractLsb' 10 1 := by
    simp (disch := omega) only [wordJ, wordU, BitVec.extractLsb'_append_eq_of_le,
      BitVec.extractLsb'_append_eq_of_add_le]
    simp
  have h1 : (wordJ imm rd opc).extractLsb' 21 10 = imm.extractLsb' 0 10 := by
    simp (disch := omega) only [wordJ, wordU, BitVec.extractLsb'_append_eq_of_le,
      BitVec.extractLsb'_append_eq_of_add_le]
    simp
  have hm : (imm ++ 0#1).msb = imm.getLsbD 19 := by
    rw [BitVec.msb_append, BitVec.msb_eq_getLsbD_last]
    rfl
  rw [tImmJal, hs, h12, h11, h1]
  refine BitVec.eq_of_getLsbD_eq fun i hi => ?_
  simp only [BitVec.getLsbD_append, BitVec.getLsbD_extractLsb', BitVec.getLsbD_signExtend, hm, hi,
    decide_true, Bool.true_and]
  by_cases h21 : i < 21
  · by_cases h20 : i < 20
    · by_cases h11 : i < 11
      · by_cases h1 : i < 1
        · simp [h1, h21]
        · simp [h1, h21, show i - 1 < 10 by omega]
      · by_cases h12 : i < 12
        · obtain rfl : i = 11 := by omega
          simp
        · simp [h21, show ¬ i < 1 by omega, show ¬ i - 1 < 10 by omega,
            show ¬ i - 1 - 10 < 1 by omega, show i - 1 - 10 - 1 < 8 by omega,
            show 11 + (i - 1 - 10 - 1) = i - 1 by omega]
    · obtain rfl : i = 20 := by omega
      simp [getElem_rep]
  · simp [h21, show ¬ i < 1 by omega, show ¬ i - 1 < 10 by omega, show ¬ i - 1 - 10 < 1 by omega,
      show ¬ i - 1 - 10 - 1 < 8 by omega, show i - 1 - 10 - 1 - 8 < 12 by omega, getElem_rep]

-- The words of the six Zicsr instructions.
structure IsCsrOp (w : BitVec 32) (op : CsrOp) (rd src : BitVec 5) (idx : BitVec 12) : Prop where
  csrOp : csrOp w = true
  msg : msg w = op.funct3
  csrIdx : csrIdx w = idx
  rs1Idx : rs1Idx w = src
  rdIdx : rdIdx w = rd
  imm : w.getLsbD 14 = op.isImm

theorem isCsrOp_encode (op : CsrOp) (rd src : BitVec 5) (idx : BitVec 12) :
    IsCsrOp (Instr.csr op rd src idx).encode op rd src idx where
  csrOp := by
    rw [csrOp, Instr.encode, opcodeIs_of_opcode _ _ _ (opcode_wordI ..)]
    rfl
  msg := msg_wordI ..
  csrIdx := csrIdx_wordI ..
  rs1Idx := rs1Idx_wordI ..
  rdIdx := by
    simp (disch := omega) only [rdIdx, Instr.encode, wordI, BitVec.extractLsb'_append_eq_of_le,
      BitVec.extractLsb'_append_eq_of_add_le]
    simp
  imm := by
    simp only [Instr.encode, wordI, BitVec.getLsbD_append, Nat.reduceLT, Nat.reduceSub, reduceIte]
    cases op <;> decide

section Csr

variable {w : BitVec 32} {op : CsrOp} {rd src : BitVec 5} {idx : BitVec 12}

theorem IsCsrOp.csrSel (h : IsCsrOp w op rd src idx) : Decode.csrSel w = true := by
  have hm : (Decode.msg w == 0b000#3) = false := by
    rw [h.msg]
    cases op <;> rfl
  simp [Decode.csrSel, h.csrOp, ecallOp, ebreakOp, mretOp, wfiOp, systemOp, hm]

-- No other opcode is on, so the needs depend on the exceptions alone.
theorem IsCsrOp.needs (f : If2de) (c : Bool) (h : IsCsrOp f.intr op rd src idx) :
    rdNeed f c = (!c && deExcp f == 0#16) ∧ csrNeed f c = (!c && deExcp f == 0#16) ∧
      rs1Need f c = (!op.isImm && !c && deExcp f == 0#16) := by
  have hm : (Decode.msg f.intr == 0b000#3) = false := by
    rw [h.msg]
    cases op <;> rfl
  have ho : (branchOp f.intr || storeOp f.intr || fenceOp f.intr || luiOp f.intr ||
      auipcOp f.intr || jalOp f.intr) = false := by
    have hc := h.csrOp
    simp only [Decode.csrOp, branchOp, storeOp, fenceOp, luiOp, auipcOp, jalOp, opcodeIs] at hc ⊢
    generalize rv32 f.intr = b at hc ⊢
    generalize f.intr.extractLsb' 2 5 = k at hc ⊢
    revert b k
    decide
  simp only [Bool.or_eq_false_iff] at ho
  obtain ⟨⟨⟨⟨⟨h1, h2⟩, h3⟩, h4⟩, h5⟩, h6⟩ := ho
  have himm := h.imm
  simp only [rdNeed, csrNeed, rs1Need, ecallOp, ebreakOp, mretOp, wfiOp, systemOp, hm, h1, h2, h3,
    h4, h5, h6, h.csrOp, himm]
  simp

end Csr

end HiCore.Decode
