import HiCore.Lib.Word
import HiCore.Refine.Encoding
import HiCore.Refine.IssueBus
import HiCore.Rtl.Alu

-- The ALU against the instruction set: from the word in decode to the result.
namespace HiCore.Alu

open Issue (Alu)

variable (a : Alu)

theorem addRes_eq : addRes a =
    if isSub a then addSrc1 a - addSrc2 a else addSrc1 a + addSrc2 a := by
  cases h : isSub a with
  | true =>
    simp only [addRes, h, if_true]
    exact Word.add_not_add_one _ _
  | false => simp [addRes, h]

theorem setWidth_addSrc1 : (addSrc1 a).setWidth 32 = a.aluSrc1 := by
  rw [addSrc1, BitVec.setWidth_append, dif_pos (by omega), BitVec.setWidth_eq]

theorem setWidth_addSrc2 : (addSrc2 a).setWidth 32 = a.aluSrc2 := by
  rw [addSrc2, BitVec.setWidth_append, dif_pos (by omega), BitVec.setWidth_eq]

theorem setWidth_addRes : (addRes a).setWidth 32 =
    if isSub a then a.aluSrc1 - a.aluSrc2 else a.aluSrc1 + a.aluSrc2 := by
  rw [addRes_eq]
  by_cases h : isSub a
  · rw [if_pos h, if_pos h, Word.setWidth_sub _ _ (by omega), setWidth_addSrc1, setWidth_addSrc2]
  · rw [if_neg h, if_neg h, BitVec.setWidth_add _ _ (by omega), setWidth_addSrc1, setWidth_addSrc2]

-- The operands are extended by their sign, except for `sltu`.

theorem addRes_slt (hm : msgIs 0b010#3 a = true) :
    (addRes a).getLsbD 32 = decide (a.aluSrc1.toInt < a.aluSrc2.toInt) := by
  have hs : isSub a = true := by simp [isSub, hm]
  have hu : msgIs 0b011#3 a = false := by
    simp only [msgIs, Bool.and_eq_true, beq_iff_eq] at hm
    simp [msgIs, hm.1]
  rw [addRes_eq, if_pos hs, addSrc1, addSrc2, hu, Bool.not_false, Bool.true_and, Bool.true_and,
    Word.extend_signed, Word.extend_signed]
  exact Word.msb_sub_signExtend _ _

theorem addRes_sltu (hm : msgIs 0b011#3 a = true) :
    (addRes a).getLsbD 32 = decide (a.aluSrc1.toNat < a.aluSrc2.toNat) := by
  have hs : isSub a = true := by simp [isSub, hm]
  rw [addRes_eq, if_pos hs, addSrc1, addSrc2, hm, Bool.not_true, Bool.false_and, Bool.false_and,
    Word.extend_unsigned, Word.extend_unsigned]
  exact Word.msb_sub_setWidth _ _

theorem srlRes_eq (hm : msgIs 0b101#3 a = true) : srlRes a =
    if a.aluDir then a.aluSrc1.sshiftRight (a.aluSrc2.extractLsb' 0 5).toNat
    else a.aluSrc1 >>> (a.aluSrc2.extractLsb' 0 5).toNat := by
  have hr : bitReverse (shifterRes a) = a.aluSrc1 >>> (a.aluSrc2.extractLsb' 0 5).toNat := by
    rw [shifterRes, if_pos hm]
    exact Word.reverse_shiftLeft_reverse _ _
  rw [srlRes, hr]
  cases hd : a.aluDir with
  | false => simp
  | true =>
    rw [if_pos rfl, Bool.true_and, Word.sshiftRight_eq_fill, BitVec.msb_eq_getLsbD_last]
    rfl

-- Bit 30 of the word tells two operations apart; for the others it is free.
structure Selects (op : Isa.AluOp) : Prop where
  aluOp : a.aluOp = true
  luiOp : a.luiOp = false
  auipcOp : a.auipcOp = false
  msg : a.aluMsg = op.funct3
  dir : op.funct3 = 0b000#3 ∨ op.funct3 = 0b101#3 → a.aluDir = op.funct7.getLsbD 5

theorem aluResPre_eval (op : Isa.AluOp) (h : Selects a op) :
    aluResPre a = op.eval a.aluSrc1 a.aluSrc2 := by
  have hm (code : BitVec 3) : msgIs code a = (op.funct3 == code) := by
    rw [msgIs, h.msg, h.aluOp, Bool.and_true]
  have hadd : addOp a = (op.funct3 == 0b000#3) := by
    rw [addOp, h.msg, h.luiOp, h.auipcOp, Bool.or_false, Bool.or_false]
  cases op with
  | add =>
    have hs : isSub a = false := by
      simp [isSub, hm, h.msg, h.dir (.inl rfl), Isa.AluOp.funct3, Isa.AluOp.funct7]
    simp [aluResPre, hm, hadd, Isa.AluOp.funct3, Isa.AluOp.eval, setWidth_addRes, hs]
  | sub =>
    have hs : isSub a = true := by
      simp [isSub, hm, h.msg, h.aluOp, h.dir (.inl rfl), Isa.AluOp.funct3, Isa.AluOp.funct7]
    simp [aluResPre, hm, hadd, Isa.AluOp.funct3, Isa.AluOp.eval, setWidth_addRes, hs]
  | slt =>
    have hr := addRes_slt a (hm _)
    have hp : aluResPre a = sltRes a := by simp [aluResPre, hm, hadd, Isa.AluOp.funct3]
    rw [hp, sltRes, hr, Isa.AluOp.eval]
    by_cases hlt : a.aluSrc1.toInt < a.aluSrc2.toInt <;> simp [hlt]
  | sltu =>
    have hr := addRes_sltu a (hm _)
    have hp : aluResPre a = sltRes a := by simp [aluResPre, hm, hadd, Isa.AluOp.funct3]
    rw [hp, sltRes, hr, Isa.AluOp.eval]
    by_cases hlt : a.aluSrc1.toNat < a.aluSrc2.toNat <;> simp [hlt]
  | srl =>
    have hr := srlRes_eq a (hm _)
    rw [h.dir (.inr rfl)] at hr
    simp [aluResPre, hm, hadd, Isa.AluOp.funct3, Isa.AluOp.funct7, Isa.AluOp.eval, hr]
  | sra =>
    have hr := srlRes_eq a (hm _)
    rw [h.dir (.inr rfl)] at hr
    simp [aluResPre, hm, hadd, Isa.AluOp.funct3, Isa.AluOp.funct7, Isa.AluOp.eval, hr]
  | sll => simp [aluResPre, hm, hadd, Isa.AluOp.funct3, Isa.AluOp.eval, shifterRes]
  | xor => simp [aluResPre, hm, hadd, Isa.AluOp.funct3, Isa.AluOp.eval]
  | or => simp [aluResPre, hm, hadd, Isa.AluOp.funct3, Isa.AluOp.eval]
  | and => simp [aluResPre, hm, hadd, Isa.AluOp.funct3, Isa.AluOp.eval]

end HiCore.Alu

namespace HiCore.Decode

-- What reaches the ALU of a word with one of its three kinds of opcode.
theorem alu_of_aluSel (o : Operands) (p : BitVec 4) (h : aluSel o.if2de.intr = true) :
    Issue.aluSel (iDe2issueInfo o p) = true ∧ Issue.alu (iDe2issueInfo o p) =
      { aluOp := aluOp o.if2de.intr
        luiOp := luiOp o.if2de.intr
        auipcOp := auipcOp o.if2de.intr
        aluDir := aluDir o.if2de.intr
        aluMsg := msg o.if2de.intr
        aluSrc2 := aluSrc2 o
        aluSrc1 := aluSrc1 o
        aluInfo := { robPtr := p, wb := wbInfoOf o } } := by
  have hu : unit o.if2de.intr = .alu := (selects_iff _ .alu).mp h
  refine ⟨?_, alu_bus o p hu⟩
  rw [aluSel_bus, hu]
  rfl

-- The other two opcodes of the ALU are off.
theorem not_lui_of_aluOp (w : BitVec 32) (h : aluOp w = true) :
    luiOp w = false ∧ auipcOp w = false := by
  simp only [aluOp, luiOp, auipcOp, opcodeIs] at h ⊢
  generalize rv32 w = b at h ⊢
  generalize w.extractLsb' 2 5 = c at h ⊢
  revert b c
  decide

open Isa

variable (o : Operands) (p : BitVec 4)

theorem aluRes_aluOp (op : AluOp) (hop : aluOp o.if2de.intr = true)
    (hmsg : msg o.if2de.intr = op.funct3)
    (hdir : op.funct3 = 0b000#3 ∨ op.funct3 = 0b101#3 →
      aluDir o.if2de.intr = op.funct7.getLsbD 5) :
    Issue.aluSel (iDe2issueInfo o p) = true ∧
      Alu.aluResPre (Issue.alu (iDe2issueInfo o p)) = op.eval o.readSrc1Dat (aluSrc2 o) := by
  obtain ⟨hlui, hauipc⟩ := not_lui_of_aluOp _ hop
  obtain ⟨hsel, hbus⟩ := alu_of_aluSel o p (by simp [aluSel, hop])
  refine ⟨hsel, ?_⟩
  rw [hbus, Alu.aluResPre_eval _ op ⟨hop, hlui, hauipc, hmsg, hdir⟩, aluSrc1, if_pos hop]

theorem aluRes_opReg (op : AluOp) (rd rs1 rs2 : BitVec 5)
    (h : o.if2de.intr = (Instr.opReg op rd rs1 rs2).encode) :
    Issue.aluSel (iDe2issueInfo o p) = true ∧
      Alu.aluResPre (Issue.alu (iDe2issueInfo o p)) = op.eval o.readSrc1Dat o.readSrc2Dat := by
  rw [Instr.encode] at h
  have hop : aluOp o.if2de.intr = true := by
    rw [h, aluOp, opcodeIs_of_opcode _ _ _ (opcode_word ..), opcodeIs_of_opcode _ _ _ (opcode_word ..)]
    rfl
  obtain ⟨h30, h5⟩ := getLsbD_word op.funct7 rs2 rs1 op.funct3 rd 0b0110011#7
  rw [← h] at h30 h5
  have hs : aluSrc2 o = o.readSrc2Dat := by
    rw [aluSrc2, hop, h5]
    rfl
  rw [← hs]
  refine aluRes_aluOp o p op hop (h ▸ msg_word ..) fun _ => ?_
  rw [aluDir, hop, h5, h30]
  rfl

-- An immediate shift has its operation in the upper seven bits of the
-- immediate; for the other operations bit 30 belongs to the immediate.
theorem aluRes_shiftImm (op : ShiftOp) (rd rs1 shamt : BitVec 5)
    (h : o.if2de.intr = (Instr.shiftImm op rd rs1 shamt).encode) :
    Issue.aluSel (iDe2issueInfo o p) = true ∧ Alu.aluResPre (Issue.alu (iDe2issueInfo o p)) =
      op.alu.eval o.readSrc1Dat (shamt.setWidth 32) := by
  rw [Instr.encode] at h
  have hop : aluOp o.if2de.intr = true := by
    rw [h, aluOp, opcodeIs_of_opcode _ _ _ (opcode_word ..)]
    rfl
  obtain ⟨h30, h5⟩ := getLsbD_word op.alu.funct7 shamt rs1 op.alu.funct3 rd 0b0010011#7
  have hmsg := msg_word op.alu.funct7 shamt rs1 op.alu.funct3 rd 0b0010011#7
  have hsh := rs2Idx_word op.alu.funct7 shamt rs1 op.alu.funct3 rd 0b0010011#7
  rw [← h] at h30 h5 hmsg hsh
  have hs : aluSrc2 o = shamt.setWidth 32 := by
    have hc : (msg o.if2de.intr == 0b001#3 || msg o.if2de.intr == 0b101#3) = true := by
      rw [hmsg]
      cases op <;> rfl
    rw [aluSrc2, immAlu, hop, h5, hc, ← hsh]
    exact (BitVec.setWidth_eq_append (by omega)).symm
  rw [← hs]
  refine aluRes_aluOp o p op.alu hop hmsg fun _ => ?_
  rw [aluDir, hop, h5, h30, hmsg]
  cases op <;> rfl

theorem aluRes_opImm (op : ImmOp) (rd rs1 : BitVec 5) (imm : BitVec 12)
    (h : o.if2de.intr = (Instr.opImm op rd rs1 imm).encode) :
    Issue.aluSel (iDe2issueInfo o p) = true ∧ Alu.aluResPre (Issue.alu (iDe2issueInfo o p)) =
      op.alu.eval o.readSrc1Dat (imm.signExtend 32) := by
  rw [Instr.encode] at h
  have hop : aluOp o.if2de.intr = true := by
    rw [h, aluOp, opcodeIs_of_opcode _ _ _ (opcode_wordI ..)]
    rfl
  have h5 := getLsbD_wordI rs1 op.alu.funct3 rd 0b0010011#7 imm
  have hmsg := msg_wordI rs1 op.alu.funct3 rd 0b0010011#7 imm
  have himm := csrIdx_wordI rs1 op.alu.funct3 rd 0b0010011#7 imm
  rw [← h] at h5 hmsg himm
  have hs : aluSrc2 o = imm.signExtend 32 := by
    have hc : (msg o.if2de.intr == 0b001#3 || msg o.if2de.intr == 0b101#3) = false := by
      rw [hmsg]
      cases op <;> rfl
    rw [aluSrc2, immAlu, hop, h5, hc, tImmLoad_eq, himm]
    rfl
  rw [← hs]
  refine aluRes_aluOp o p op.alu hop hmsg fun hd => ?_
  rw [aluDir, hop, h5, hmsg]
  cases op with
  | addi => rfl
  | _ => simp [ImmOp.alu, AluOp.funct3] at hd

-- Neither `lui` nor `auipc` lets its bits 14:12 or 30 reach the adder's controls.
theorem aluRes_upper (hop : aluOp o.if2de.intr = false)
    (hu : (luiOp o.if2de.intr || auipcOp o.if2de.intr) = true) :
    Issue.aluSel (iDe2issueInfo o p) = true ∧ Alu.aluResPre (Issue.alu (iDe2issueInfo o p)) =
      (if luiOp o.if2de.intr then 0#32 else o.if2de.pc) + tImmLui o.if2de.intr := by
  obtain ⟨hsel, hbus⟩ := alu_of_aluSel o p (by rw [aluSel, hop, Bool.false_or, hu])
  refine ⟨hsel, ?_⟩
  have hadd : (Alu.addRes (Issue.alu (iDe2issueInfo o p))).setWidth 32 = aluSrc1 o + aluSrc2 o := by
    rw [Alu.setWidth_addRes, hbus]
    simp [Alu.isSub, Alu.msgIs, hop]
  have hpre : Alu.aluResPre (Issue.alu (iDe2issueInfo o p)) = aluSrc1 o + aluSrc2 o := by
    have ha : Alu.addOp (Issue.alu (iDe2issueInfo o p)) = true := by
      rw [hbus, Alu.addOp, Bool.or_assoc, hu, Bool.or_true]
    have hm (code : BitVec 3) : Alu.msgIs code (Issue.alu (iDe2issueInfo o p)) = false := by
      rw [hbus, Alu.msgIs, hop, Bool.and_false]
    rw [Alu.aluResPre, hadd, ha]
    simp [hm]
  rw [hpre]
  simp [aluSrc1, aluSrc2, immAlu, hop]

theorem aluRes_lui (rd : BitVec 5) (imm : BitVec 20)
    (h : o.if2de.intr = (Instr.lui rd imm).encode) :
    Issue.aluSel (iDe2issueInfo o p) = true ∧
      Alu.aluResPre (Issue.alu (iDe2issueInfo o p)) = imm.setWidth 32 <<< 12 := by
  have ho (code : BitVec 5) := opcodeIs_of_opcode code _ _ (opcode_wordU rd 0b0110111#7 imm)
  rw [Instr.encode] at h
  rw [← h] at ho
  have hl : luiOp o.if2de.intr = true := by
    rw [luiOp, ho]
    rfl
  obtain ⟨hsel, hres⟩ := aluRes_upper o p (by rw [aluOp, ho, ho]; rfl) (by rw [hl]; rfl)
  rw [hl, h, tImmLui_wordU, if_pos rfl, BitVec.zero_add] at hres
  exact ⟨hsel, hres⟩

theorem aluRes_auipc (rd : BitVec 5) (imm : BitVec 20)
    (h : o.if2de.intr = (Instr.auipc rd imm).encode) :
    Issue.aluSel (iDe2issueInfo o p) = true ∧ Alu.aluResPre (Issue.alu (iDe2issueInfo o p)) =
      o.if2de.pc + imm.setWidth 32 <<< 12 := by
  have ho (code : BitVec 5) := opcodeIs_of_opcode code _ _ (opcode_wordU rd 0b0010111#7 imm)
  rw [Instr.encode] at h
  rw [← h] at ho
  have hl : luiOp o.if2de.intr = false := by
    rw [luiOp, ho]
    rfl
  have ha : auipcOp o.if2de.intr = true := by
    rw [auipcOp, ho]
    rfl
  obtain ⟨hsel, hres⟩ := aluRes_upper o p (by rw [aluOp, ho, ho]; rfl) (by rw [ha, Bool.or_true])
  rw [hl, h, tImmLui_wordU] at hres
  exact ⟨hsel, hres⟩

theorem alu_rv32i (o : Operands) (p : BitVec 4) (i : Instr) (v : BitVec 32)
    (hw : o.if2de.intr = i.encode)
    (hv : i.result o.if2de.pc o.readSrc1Dat o.readSrc2Dat = some v) :
    Issue.aluSel (iDe2issueInfo o p) = true ∧
      Alu.aluResPre (Issue.alu (iDe2issueInfo o p)) = v := by
  cases i with
  | opReg op rd rs1 rs2 =>
    obtain rfl := Option.some.inj hv
    exact aluRes_opReg o p op rd rs1 rs2 hw
  | opImm op rd rs1 imm =>
    obtain rfl := Option.some.inj hv
    exact aluRes_opImm o p op rd rs1 imm hw
  | shiftImm op rd rs1 shamt =>
    obtain rfl := Option.some.inj hv
    exact aluRes_shiftImm o p op rd rs1 shamt hw
  | lui rd imm =>
    obtain rfl := Option.some.inj hv
    exact aluRes_lui o p rd imm hw
  | auipc rd imm =>
    obtain rfl := Option.some.inj hv
    exact aluRes_auipc o p rd imm hw
  | _ => simp [Instr.result] at hv

-- `sra x3, x1, x2` with a negative x1 and bit 5 of x2 set, which a shift ignores.
theorem alu_sra :
    Alu.aluResPre (Issue.alu (iDe2issueInfo
      { if2de := { intr := (Instr.opReg .sra 3#5 1#5 2#5).encode, pc := 0#32, excp := 0#16 }
        cancel := false, readSrc1Dat := 0x80000000#32, readSrc2Dat := 36#32, irq := 0#12 } 0#4)) =
      0xF8000000#32 :=
  (alu_rv32i _ _ (.opReg .sra 3#5 1#5 2#5) _ rfl (by decide)).2

end HiCore.Decode
