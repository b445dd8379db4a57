import HiCore.Lib.Word
import HiCore.Refine.Encoding
import HiCore.Refine.IssueBus
import HiCore.Trace.Program

-- The branch unit against the instruction set: decisions, targets and links.
namespace HiCore

namespace Branch

variable (i : In)

-- The operands are extended by their sign, except for the unsigned comparisons.

theorem dataSrc_signed (hb : i.branchOp = true) (hm : i.branchMsg.getLsbD 1 = false) :
    dataSrc1 i = i.readSrc1Dat.signExtend 33 ∧ dataSrc2 i = i.readSrc2Dat.signExtend 33 := by
  have hu : unsignedOp i = false := by rw [unsignedOp, hb, hm]; rfl
  rw [dataSrc1, dataSrc2, hu, dataSrc1Pre, dataSrc2Pre, if_pos hb, if_pos hb, Bool.not_false,
    Bool.true_and, Bool.true_and, Word.extend_signed, Word.extend_signed]
  exact ⟨rfl, rfl⟩

theorem dataSrc_unsigned (hb : i.branchOp = true) (hm : i.branchMsg.getLsbD 1 = true) :
    dataSrc1 i = i.readSrc1Dat.setWidth 33 ∧ dataSrc2 i = i.readSrc2Dat.setWidth 33 := by
  have hu : unsignedOp i = true := by rw [unsignedOp, hb, hm]; rfl
  rw [dataSrc1, dataSrc2, hu, dataSrc1Pre, dataSrc2Pre, if_pos hb, if_pos hb, Bool.not_true,
    Bool.false_and, Bool.false_and, Word.extend_unsigned, Word.extend_unsigned]
  exact ⟨rfl, rfl⟩

theorem addRes_branch (hb : i.branchOp = true) : addRes i = dataSrc1 i - dataSrc2 i := by
  rw [addRes, dataOp2, if_pos hb, hb]
  exact Word.add_not_add_one _ _

-- One subtraction decides the six comparisons.

theorem addRes_eq_zero_iff (hb : i.branchOp = true) (hm : i.branchMsg.getLsbD 1 = false) :
    addRes i = 0#33 ↔ i.readSrc1Dat = i.readSrc2Dat := by
  obtain ⟨h1, h2⟩ := dataSrc_signed i hb hm
  rw [addRes_branch i hb, h1, h2, BitVec.sub_eq_iff_eq_add, BitVec.zero_add]
  constructor
  · intro h
    have hi := congrArg BitVec.toInt h
    rw [BitVec.toInt_signExtend_of_le (by omega), BitVec.toInt_signExtend_of_le (by omega)] at hi
    exact BitVec.eq_of_toInt_eq hi
  · intro h
    rw [h]

theorem addRes_signed (hb : i.branchOp = true) (hm : i.branchMsg.getLsbD 1 = false) :
    (addRes i).getLsbD 32 = decide (i.readSrc1Dat.toInt < i.readSrc2Dat.toInt) := by
  obtain ⟨h1, h2⟩ := dataSrc_signed i hb hm
  rw [addRes_branch i hb, h1, h2]
  exact Word.msb_sub_signExtend _ _

theorem addRes_unsigned (hb : i.branchOp = true) (hm : i.branchMsg.getLsbD 1 = true) :
    (addRes i).getLsbD 32 = decide (i.readSrc1Dat.toNat < i.readSrc2Dat.toNat) := by
  obtain ⟨h1, h2⟩ := dataSrc_unsigned i hb hm
  rw [addRes_branch i hb, h1, h2]
  exact Word.msb_sub_setWidth _ _

theorem branchRes_holds (op : Isa.BranchOp) (hb : i.branchOp = true) (hm : i.branchMsg = op.funct3) :
    branchRes i = op.holds i.readSrc1Dat i.readSrc2Dat := by
  have hz := addRes_eq_zero_iff i hb
  have hs := addRes_signed i hb
  have hu := addRes_unsigned i hb
  rw [hm] at hz hs hu
  have hk (code : BitVec 3) : (i.branchOp && i.branchMsg == code) = (op.funct3 == code) := by
    rw [hb, hm, Bool.true_and]
  rw [branchRes, beqRes, bneRes, bltRes, bgeRes, bltuRes, bgeuRes, hk, hk, hk, hk, hk, hk]
  cases op with
  | beq => simp [Isa.BranchOp.funct3, Isa.BranchOp.holds, Bool.beq_eq_decide_eq, hz rfl]
  | bne => simp [Isa.BranchOp.funct3, Isa.BranchOp.holds, Bool.beq_eq_decide_eq, hz rfl]
  | blt =>
    rw [hs rfl]
    simp [Isa.BranchOp.funct3, Isa.BranchOp.holds]
  | bge =>
    rw [hs rfl, Bool.eq_iff_iff]
    simp [Isa.BranchOp.funct3, Isa.BranchOp.holds]
  | bltu =>
    rw [hu rfl]
    simp [Isa.BranchOp.funct3, Isa.BranchOp.holds]
  | bgeu =>
    rw [hu rfl, Bool.eq_iff_iff]
    simp [Isa.BranchOp.funct3, Isa.BranchOp.holds]

-- With no comparison the adder makes the link.
theorem rdResult_link (hb : i.branchOp = false) : rdResult i = i.ifPc + 4#32 := by
  have hu : unsignedOp i = true := by rw [unsignedOp, hb]; rfl
  have ha : addRes i = i.ifPc.setWidth 33 + (4#32).setWidth 33 := by
    rw [addRes, dataOp2, dataSrc1, dataSrc2, hu, dataSrc1Pre, dataSrc2Pre, hb]
    simp only [Bool.not_true, Bool.false_and, Bool.false_eq_true, if_false, Word.extend_unsigned]
    exact BitVec.add_zero _
  rw [rdResult, ha, ← BitVec.setWidth_eq_extractLsb' (by omega), BitVec.setWidth_add _ _ (by omega)]
  simp

end Branch

namespace Cpu

open Isa

-- Decode hands the instruction on with no exception.
structure Accepts (s : Cpu) (i : Instr) : Prop where
  valid : s.deValid = true
  ready : s.deReady = true
  kept : s.if2deCancel = false
  legal : Decode.deExcp s.if2de = 0#16
  word : s.if2de.intr = i.encode

section Accepts

variable {s : Cpu}

theorem branchEn_of_sel {i : Instr} (h : s.Accepts i) (hs : Decode.branchSel s.if2de.intr = true) :
    s.branchEn = true := by
  rw [branchEn, h.valid, h.ready, h.kept, h.legal, hs]
  rfl

theorem nextPc_eq : s.robIssue.nextPc = if s.branch then s.branchPc else s.if2de.pc + 4#32 := by
  unfold robIssue
  rfl

theorem branch_of_branch {op : BranchOp} {rs1 rs2 : BitVec 5} {imm : BitVec 12}
    (h : s.Accepts (.branch op rs1 rs2 imm)) : s.branch = op.holds s.readSrc1Dat s.readSrc2Dat ∧
      s.branchPc = s.if2de.pc + (imm ++ 0#1).signExtend 32 := by
  have hw : s.if2de.intr = wordB imm rs2 rs1 op.funct3 0b1100011#7 := h.word
  have ho (code : BitVec 5) : Decode.opcodeIs code s.if2de.intr = (0b11000#5 == code && true) := by
    rw [hw, wordB, Decode.opcodeIs_of_opcode _ _ _ (opcode_word ..)]
    rfl
  have hb : Decode.branchOp s.if2de.intr = true := ho _
  have hj : Decode.jalOp s.if2de.intr = false := ho _
  have hr : Decode.jalrOp s.if2de.intr = false := ho _
  have hm : Decode.msg s.if2de.intr = op.funct3 := by
    rw [hw]
    exact Decode.msg_word ..
  have hi : Decode.immBjp s.if2de.intr = (imm ++ 0#1).signExtend 32 := by
    rw [Decode.immBjp, hb, if_pos rfl, hw, Decode.tImmBranch_wordB]
  constructor
  · have hres := Branch.branchRes_holds (Decode.branchIn s.operands) op hb hm
    rw [branch, Branch.branch, branchEn_of_sel h (by rw [Decode.branchSel, hb]; rfl), hres]
    change (true && (Decode.jalrOp s.if2de.intr || Decode.jalOp s.if2de.intr ||
      (Decode.branchOp s.if2de.intr && _))) = _
    rw [hb, hj, hr]
    simp [Decode.branchIn, operands]
  · change Decode.immBjp s.if2de.intr + (if !Decode.jalrOp s.if2de.intr then _ else _) = _
    rw [hi, hr, BitVec.add_comm]
    rfl

theorem branch_of_jal {rd : BitVec 5} {imm : BitVec 20} (h : s.Accepts (.jal rd imm)) :
    s.branch = true ∧ s.branchPc = s.if2de.pc + (imm ++ 0#1).signExtend 32 := by
  have hw : s.if2de.intr = wordJ imm rd 0b1101111#7 := h.word
  have ho (code : BitVec 5) : Decode.opcodeIs code s.if2de.intr = (0b11011#5 == code && true) := by
    rw [hw, wordJ, Decode.opcodeIs_of_opcode _ _ _ (opcode_wordU ..)]
    rfl
  have hb : Decode.branchOp s.if2de.intr = false := ho _
  have hj : Decode.jalOp s.if2de.intr = true := ho _
  have hr : Decode.jalrOp s.if2de.intr = false := ho _
  have hi : Decode.immBjp s.if2de.intr = (imm ++ 0#1).signExtend 32 := by
    rw [Decode.immBjp, hb, hj, hw, Decode.tImmJal_wordJ]
    rfl
  constructor
  · rw [branch, Branch.branch, branchEn_of_sel h (by rw [Decode.branchSel, hj, Bool.or_true]; rfl)]
    change (true && (Decode.jalrOp s.if2de.intr || Decode.jalOp s.if2de.intr || _)) = true
    rw [hj, Bool.or_true]
    rfl
  · change Decode.immBjp s.if2de.intr + (if !Decode.jalrOp s.if2de.intr then _ else _) = _
    rw [hi, hr, BitVec.add_comm]
    rfl

-- The sum of the register and the immediate, as it is.
theorem branch_of_jalr {rd rs1 : BitVec 5} {imm : BitVec 12} (h : s.Accepts (.jalr rd rs1 imm)) :
    s.branch = true ∧ s.branchPc = s.regfile.read rs1 + imm.signExtend 32 := by
  have hw : s.if2de.intr = wordI imm rs1 0b000#3 rd 0b1100111#7 := h.word
  have ho (code : BitVec 5) : Decode.opcodeIs code s.if2de.intr = (0b11001#5 == code && true) := by
    rw [hw, Decode.opcodeIs_of_opcode _ _ _ (opcode_wordI ..)]
    rfl
  have hb : Decode.branchOp s.if2de.intr = false := ho _
  have hj : Decode.jalOp s.if2de.intr = false := ho _
  have hr : Decode.jalrOp s.if2de.intr = true := ho _
  have hi : Decode.immBjp s.if2de.intr = imm.signExtend 32 := by
    rw [Decode.immBjp, hb, hj, Decode.tImmLoad_eq, hw, Decode.csrIdx_wordI]
    rfl
  have hs : s.readSrc1Dat = s.regfile.read rs1 := by rw [readSrc1Dat, hw, Decode.rs1Idx_wordI]
  constructor
  · rw [branch, Branch.branch, branchEn_of_sel h (by rw [Decode.branchSel, hr, Bool.or_true])]
    change (true && (Decode.jalrOp s.if2de.intr || _ || _)) = true
    rw [hr]
    rfl
  · change Decode.immBjp s.if2de.intr + (if !Decode.jalrOp s.if2de.intr then _ else s.readSrc1Dat) = _
    rw [hi, hr, hs, BitVec.add_comm]
    rfl

-- The two jumps differ in the opcode only, as far as the link is concerned.
theorem bjpRdResult_of_jump (hj : Decode.jalOp s.if2de.intr = true ∨
      Decode.jalrOp s.if2de.intr = true) (hb : Decode.branchOp s.if2de.intr = false) :
    Issue.bjpRdResult s.iDe2issueInfo true = s.if2de.pc + 4#32 := by
  have hu : Decode.unit s.if2de.intr = .bjp := by
    refine (Decode.selects_iff _ .bjp).mp ?_
    rw [Decode.selects, Decode.branchSel]
    rcases hj with hj | hj
    · rw [hj, Bool.or_true]
      rfl
    · rw [hj, Bool.or_true]
  have hl := Decode.bjp_bus s.operands s.rob.tail hu
  rw [iDe2issueInfo, hl]
  exact Branch.rdResult_link _ hb

theorem link_of_jal {rd : BitVec 5} {imm : BitVec 20} (h : s.Accepts (.jal rd imm)) :
    Issue.bjpRdResult s.iDe2issueInfo true = s.if2de.pc + 4#32 := by
  have ho (code : BitVec 5) := Decode.opcodeIs_of_opcode code _ _ (opcode_wordU rd 0b1101111#7
    (imm.extractLsb' 19 1 ++ imm.extractLsb' 0 10 ++ imm.extractLsb' 10 1 ++ imm.extractLsb' 11 8))
  have hw : s.if2de.intr = wordJ imm rd 0b1101111#7 := h.word
  rw [wordJ] at hw
  rw [← hw] at ho
  exact bjpRdResult_of_jump (.inl (ho _)) (ho _)

theorem link_of_jalr {rd rs1 : BitVec 5} {imm : BitVec 12} (h : s.Accepts (.jalr rd rs1 imm)) :
    Issue.bjpRdResult s.iDe2issueInfo true = s.if2de.pc + 4#32 := by
  have ho (code : BitVec 5) := Decode.opcodeIs_of_opcode code _ _
    (opcode_wordI rs1 0b000#3 rd 0b1100111#7 imm)
  have hw : s.if2de.intr = wordI imm rs1 0b000#3 rd 0b1100111#7 := h.word
  rw [← hw] at ho
  exact bjpRdResult_of_jump (.inr (ho _)) (ho _)

end Accepts

theorem branch_rv32i (s : Cpu) (i : Instr) (h : s.Accepts i) :
    (∀ taken target, i.jump s.if2de.pc s.readSrc1Dat s.readSrc2Dat = some (taken, target) →
      s.branch = taken ∧ s.branchPc = target ∧
        s.robIssue.nextPc = if taken then target else s.if2de.pc + 4#32) ∧
    (∀ v, i.link s.if2de.pc = some v → Issue.bjpRdResult s.iDe2issueInfo true = v) := by
  cases i with
  | branch op rs1 rs2 imm =>
    obtain ⟨hb, hp⟩ := branch_of_branch h
    refine ⟨fun taken target hj => ?_, fun v hv => by simp [Instr.link] at hv⟩
    obtain ⟨rfl, rfl⟩ := Prod.mk.inj (Option.some.inj hj)
    exact ⟨hb, hp, by rw [nextPc_eq, hb, hp]⟩
  | jal rd imm =>
    obtain ⟨hb, hp⟩ := branch_of_jal h
    refine ⟨fun taken target hj => ?_, fun v hv => ?_⟩
    · obtain ⟨rfl, rfl⟩ := Prod.mk.inj (Option.some.inj hj)
      exact ⟨hb, hp, by rw [nextPc_eq, hb, hp]⟩
    · obtain rfl := Option.some.inj hv
      exact link_of_jal h
  | jalr rd rs1 imm =>
    refine ⟨fun taken target hj => by simp [Instr.jump] at hj, fun v hv => ?_⟩
    obtain rfl := Option.some.inj hv
    exact link_of_jalr h
  | _ =>
    refine ⟨fun taken target hj => by simp [Instr.jump] at hj, fun v hv => by simp [Instr.link] at hv⟩

-- `bge x0,x0,-4` as the first instruction is taken, below address 0.
theorem branch_rv32i_bge :
    ((Run.program false [(Instr.branch .bge 0#5 0#5 0xFFE#12).encode]).st 1).branch = true ∧
      ((Run.program false [(Instr.branch .bge 0#5 0#5 0xFFE#12).encode]).st 1).robIssue.nextPc =
        0xFFFFFFFC#32 := by
  have h := (branch_rv32i ((Run.program false [(Instr.branch .bge 0#5 0#5 0xFFE#12).encode]).st 1)
    (.branch .bge 0#5 0#5 0xFFE#12)
    ⟨by decide +kernel, by decide +kernel, by decide +kernel, by decide +kernel,
      by decide +kernel⟩).1 true 0xFFFFFFFC#32 (by decide +kernel)
  exact ⟨h.1, h.2.2⟩

end Cpu

end HiCore
