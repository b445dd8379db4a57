import HiCore.Isa.Rv32i

-- Which words encode an instruction, as a check on their fields.
namespace HiCore.Isa

def opcode (w : BitVec 32) : BitVec 7 := w.extractLsb' 0 7

def funct3 (w : BitVec 32) : BitVec 3 := w.extractLsb' 12 3

def funct7 (w : BitVec 32) : BitVec 7 := w.extractLsb' 25 7

section Fields

variable (f7 : BitVec 7) (rs2 rs1 : BitVec 5) (f3 : BitVec 3) (rd : BitVec 5) (opc : BitVec 7)
  (imm : BitVec 12) (imm20 : BitVec 20)

@[simp] theorem opcode_word : opcode (word f7 rs2 rs1 f3 rd opc) = opc := by
  rw [opcode, word, BitVec.extractLsb'_append_eq_of_add_le (by omega)]
  simp

@[simp] theorem funct3_word : funct3 (word f7 rs2 rs1 f3 rd opc) = f3 := by
  simp (disch := omega) only [funct3, word, BitVec.extractLsb'_append_eq_of_le,
    BitVec.extractLsb'_append_eq_of_add_le]
  simp

@[simp] theorem funct7_word : funct7 (word f7 rs2 rs1 f3 rd opc) = f7 := by
  simp (disch := omega) only [funct7, word, BitVec.extractLsb'_append_eq_of_le]
  simp

@[simp] theorem opcode_wordI : opcode (wordI imm rs1 f3 rd opc) = opc := by
  rw [opcode, wordI, BitVec.extractLsb'_append_eq_of_add_le (by omega)]
  simp

@[simp] theorem funct3_wordI : funct3 (wordI imm rs1 f3 rd opc) = f3 := by
  simp (disch := omega) only [funct3, wordI, BitVec.extractLsb'_append_eq_of_le,
    BitVec.extractLsb'_append_eq_of_add_le]
  simp

@[simp] theorem opcode_wordU : opcode (wordU imm20 rd opc) = opc := by
  rw [opcode, wordU, BitVec.extractLsb'_append_eq_of_add_le (by omega)]
  simp

end Fields

-- A word is what its fields make of it, in every format.

theorem word_fields (w : BitVec 32) :
    word (funct7 w) (w.extractLsb' 20 5) (w.extractLsb' 15 5) (funct3 w) (w.extractLsb' 7 5)
      (opcode w) = w := by
  simp (disch := rfl) only [word, funct7, funct3, opcode,
    BitVec.extractLsb'_append_extractLsb'_eq_extractLsb']
  exact BitVec.extractLsb'_eq_self

theorem wordI_fields (w : BitVec 32) :
    wordI (w.extractLsb' 20 12) (w.extractLsb' 15 5) (funct3 w) (w.extractLsb' 7 5) (opcode w) =
      w := by
  simp (disch := rfl) only [wordI, funct3, opcode,
    BitVec.extractLsb'_append_extractLsb'_eq_extractLsb']
  exact BitVec.extractLsb'_eq_self

theorem wordU_fields (w : BitVec 32) :
    wordU (w.extractLsb' 12 20) (w.extractLsb' 7 5) (opcode w) = w := by
  simp (disch := rfl) only [wordU, opcode, BitVec.extractLsb'_append_extractLsb'_eq_extractLsb']
  exact BitVec.extractLsb'_eq_self

theorem wordS_fields (w : BitVec 32) : ∃ imm,
    wordS imm (w.extractLsb' 20 5) (w.extractLsb' 15 5) (funct3 w) (opcode w) = w := by
  refine ⟨funct7 w ++ w.extractLsb' 7 5, ?_⟩
  conv_rhs => rw [← word_fields w]
  rw [wordS, BitVec.extractLsb'_append_eq_of_le (by omega),
    BitVec.extractLsb'_append_eq_of_add_le (by omega)]
  simp

theorem wordB_fields (w : BitVec 32) : ∃ imm,
    wordB imm (w.extractLsb' 20 5) (w.extractLsb' 15 5) (funct3 w) (opcode w) = w := by
  refine ⟨w.extractLsb' 31 1 ++ w.extractLsb' 7 1 ++ w.extractLsb' 25 6 ++ w.extractLsb' 8 4, ?_⟩
  conv_rhs => rw [← word_fields w]
  have h7 : w.extractLsb' 31 1 ++ w.extractLsb' 25 6 = funct7 w :=
    BitVec.extractLsb'_append_extractLsb'_eq_extractLsb' rfl
  have hrd : w.extractLsb' 8 4 ++ w.extractLsb' 7 1 = w.extractLsb' 7 5 :=
    BitVec.extractLsb'_append_extractLsb'_eq_extractLsb' rfl
  rw [← h7, ← hrd, wordB]
  simp (disch := omega) only [BitVec.extractLsb'_append_eq_of_le,
    BitVec.extractLsb'_append_eq_of_add_le]
  simp

theorem wordJ_fields (w : BitVec 32) : ∃ imm, wordJ imm (w.extractLsb' 7 5) (opcode w) = w := by
  refine ⟨w.extractLsb' 31 1 ++ w.extractLsb' 12 8 ++ w.extractLsb' 20 1 ++ w.extractLsb' 21 10, ?_⟩
  conv_rhs => rw [← wordU_fields w]
  have himm : w.extractLsb' 31 1 ++ w.extractLsb' 21 10 ++ w.extractLsb' 20 1 ++ w.extractLsb' 12 8 =
      w.extractLsb' 12 20 := by
    simp (disch := rfl) only [BitVec.extractLsb'_append_extractLsb'_eq_extractLsb']
  rw [← himm, wordJ]
  simp (disch := omega) only [BitVec.extractLsb'_append_eq_of_le,
    BitVec.extractLsb'_append_eq_of_add_le]
  simp

-- The operation fields that go with an opcode.
def legalFields (opc f7 : BitVec 7) (f3 : BitVec 3) : Bool :=
  if opc = 0b0110111#7 then true
  else if opc = 0b0010111#7 then true
  else if opc = 0b1101111#7 then true
  else if opc = 0b1100111#7 then f3 == 0b000#3
  else if opc = 0b1100011#7 then !(f3 == 0b010#3) && !(f3 == 0b011#3)
  else if opc = 0b0000011#7 then !(f3 == 0b011#3) && !(f3 == 0b110#3) && !(f3 == 0b111#3)
  else if opc = 0b0100011#7 then f3 == 0b000#3 || f3 == 0b001#3 || f3 == 0b010#3
  else if opc = 0b0010011#7 then
    !(f3 == 0b001#3) && !(f3 == 0b101#3) ||
      (f7 == 0b0000000#7 && (f3 == 0b001#3 || f3 == 0b101#3) || f7 == 0b0100000#7 && f3 == 0b101#3)
  else if opc = 0b0110011#7 then
    f7 == 0b0000000#7 || f7 == 0b0100000#7 && (f3 == 0b000#3 || f3 == 0b101#3)
  else if opc = 0b0001111#7 then f3 == 0b000#3 || f3 == 0b001#3
  else if opc = 0b1110011#7 then !(f3 == 0b000#3) && !(f3 == 0b100#3)
  else false

-- The four instructions without operands are single words.
def legal (w : BitVec 32) : Bool :=
  legalFields (opcode w) (funct7 w) (funct3 w) || w == Instr.ecall.encode ||
    w == Instr.ebreak.encode || w == Instr.mret.encode || w == Instr.wfi.encode

theorem legal_encode (i : Instr) : legal i.encode = true := by
  cases i with
  | ecall | ebreak | mret | wfi => decide
  | branch op | load op | store op | opImm op | shiftImm op | opReg op | csr op =>
    cases op <;>
      simp [legal, legalFields, Instr.encode, wordB, wordS, AluOp.funct3, AluOp.funct7, ImmOp.alu,
        ShiftOp.alu, BranchOp.funct3, LoadOp.funct3, StoreOp.funct3, CsrOp.funct3]
  | _ => simp [legal, legalFields, Instr.encode, wordJ]

-- The operation that a legal choice of fields names.

theorem exists_branchOp : ∀ f3, !(f3 == 0b010#3) && !(f3 == 0b011#3) →
    ∃ op ∈ [BranchOp.beq, .bne, .blt, .bge, .bltu, .bgeu], op.funct3 = f3 := by decide

theorem exists_loadOp : ∀ f3, !(f3 == 0b011#3) && !(f3 == 0b110#3) && !(f3 == 0b111#3) →
    ∃ op ∈ [LoadOp.lb, .lh, .lw, .lbu, .lhu], op.funct3 = f3 := by decide

theorem exists_storeOp : ∀ f3, f3 == 0b000#3 || f3 == 0b001#3 || f3 == 0b010#3 →
    ∃ op ∈ [StoreOp.sb, .sh, .sw], op.funct3 = f3 := by decide

theorem exists_csrOp : ∀ f3, !(f3 == 0b000#3) && !(f3 == 0b100#3) →
    ∃ op ∈ [CsrOp.rw, .rs, .rc, .rwi, .rsi, .rci], op.funct3 = f3 := by decide

theorem exists_immOp : ∀ f3, !(f3 == 0b001#3) && !(f3 == 0b101#3) →
    ∃ op ∈ [ImmOp.addi, .slti, .sltiu, .xori, .ori, .andi], op.alu.funct3 = f3 := by decide

theorem exists_shiftOp : ∀ f7 f3, f7 == 0b0000000#7 && (f3 == 0b001#3 || f3 == 0b101#3) ||
    f7 == 0b0100000#7 && f3 == 0b101#3 →
    ∃ op ∈ [ShiftOp.slli, .srli, .srai], op.alu.funct3 = f3 ∧ op.alu.funct7 = f7 := by decide

theorem exists_aluOp : ∀ f7 f3, f7 == 0b0000000#7 ||
    f7 == 0b0100000#7 && (f3 == 0b000#3 || f3 == 0b101#3) →
    ∃ op ∈ [AluOp.add, .sub, .sll, .slt, .sltu, .xor, .srl, .sra, .or, .and],
      op.funct3 = f3 ∧ op.funct7 = f7 := by decide

theorem exists_of_legalFields (w : BitVec 32)
    (h : legalFields (opcode w) (funct7 w) (funct3 w) = true) : ∃ i : Instr, i.encode = w := by
  have hw := word_fields w
  have hI := wordI_fields w
  have hU := wordU_fields w
  obtain ⟨immS, hS⟩ := wordS_fields w
  obtain ⟨immB, hB⟩ := wordB_fields w
  obtain ⟨immJ, hJ⟩ := wordJ_fields w
  unfold legalFields at h
  by_cases h1 : opcode w = 0b0110111#7
  · exact ⟨.lui _ _, h1 ▸ hU⟩
  rw [if_neg h1] at h
  by_cases h2 : opcode w = 0b0010111#7
  · exact ⟨.auipc _ _, h2 ▸ hU⟩
  rw [if_neg h2] at h
  by_cases h3 : opcode w = 0b1101111#7
  · exact ⟨.jal _ _, h3 ▸ hJ⟩
  rw [if_neg h3] at h
  by_cases h4 : opcode w = 0b1100111#7
  · rw [if_pos h4, beq_iff_eq] at h
    rw [h4, h] at hI
    exact ⟨.jalr _ _ _, hI⟩
  rw [if_neg h4] at h
  by_cases h5 : opcode w = 0b1100011#7
  · rw [if_pos h5] at h
    obtain ⟨op, -, ho⟩ := exists_branchOp _ h
    rw [h5, ← ho] at hB
    exact ⟨.branch op _ _ _, hB⟩
  rw [if_neg h5] at h
  by_cases h6 : opcode w = 0b0000011#7
  · rw [if_pos h6] at h
    obtain ⟨op, -, ho⟩ := exists_loadOp _ h
    rw [h6, ← ho] at hI
    exact ⟨.load op _ _ _, hI⟩
  rw [if_neg h6] at h
  by_cases h7 : opcode w = 0b0100011#7
  · rw [if_pos h7] at h
    obtain ⟨op, -, ho⟩ := exists_storeOp _ h
    rw [h7, ← ho] at hS
    exact ⟨.store op _ _ _, hS⟩
  rw [if_neg h7] at h
  by_cases h8 : opcode w = 0b0010011#7
  · rw [if_pos h8] at h
    rcases Bool.or_eq_true_iff.mp h with h | h
    · obtain ⟨op, -, ho⟩ := exists_immOp _ h
      rw [h8, ← ho] at hI
      exact ⟨.opImm op _ _ _, hI⟩
    · obtain ⟨op, -, ho3, ho7⟩ := exists_shiftOp _ _ h
      rw [h8, ← ho3, ← ho7] at hw
      exact ⟨.shiftImm op _ _ _, hw⟩
  rw [if_neg h8] at h
  by_cases h9 : opcode w = 0b0110011#7
  · rw [if_pos h9] at h
    obtain ⟨op, -, ho3, ho7⟩ := exists_aluOp _ _ h
    rw [h9, ← ho3, ← ho7] at hw
    exact ⟨.opReg op _ _ _, hw⟩
  rw [if_neg h9] at h
  by_cases h10 : opcode w = 0b0001111#7
  · rw [if_pos h10, Bool.or_eq_true, beq_iff_eq, beq_iff_eq] at h
    rw [h10] at hI
    rcases h with h | h
    · exact ⟨.fence _ _ _, h ▸ hI⟩
    · exact ⟨.fenceI _ _ _, h ▸ hI⟩
  rw [if_neg h10] at h
  by_cases h11 : opcode w = 0b1110011#7
  · rw [if_pos h11] at h
    obtain ⟨op, -, ho⟩ := exists_csrOp _ h
    rw [h11, ← ho] at hI
    exact ⟨.csr op _ _ _, hI⟩
  · rw [if_neg h11] at h
    exact Bool.noConfusion h

theorem legal_iff (w : BitVec 32) : legal w = true ↔ ∃ i : Instr, i.encode = w := by
  constructor
  · intro h
    simp only [legal, Bool.or_eq_true, beq_iff_eq] at h
    rcases h with (((h | h) | h) | h) | h
    · exact exists_of_legalFields w h
    · exact ⟨.ecall, h.symm⟩
    · exact ⟨.ebreak, h.symm⟩
    · exact ⟨.mret, h.symm⟩
    · exact ⟨.wfi, h.symm⟩
  · rintro ⟨i, rfl⟩
    exact legal_encode i

end HiCore.Isa
