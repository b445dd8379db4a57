import Mathlib.Data.BitVec

-- The instructions that the decoder claims to implement, as the unprivileged
-- and privileged manuals encode them, and what the computational ones compute.
-- Nothing here refers to the core.
namespace HiCore.Isa

inductive AluOp where
  | add | sub | sll | slt | sltu | xor | srl | sra | or | and
  deriving DecidableEq

inductive ImmOp where
  | addi | slti | sltiu | xori | ori | andi
  deriving DecidableEq

inductive ShiftOp where
  | slli | srli | srai
  deriving DecidableEq

inductive BranchOp where
  | beq | bne | blt | bge | bltu | bgeu
  deriving DecidableEq

inductive LoadOp where
  | lb | lh | lw | lbu | lhu
  deriving DecidableEq

inductive StoreOp where
  | sb | sh | sw
  deriving DecidableEq

inductive CsrOp where
  | rw | rs | rc | rwi | rsi | rci
  deriving DecidableEq

-- An offset of a branch or a jump is kept without its bit 0. The fields that
-- `fence` and `fence.i` leave unused may hold anything.
inductive Instr where
  | lui (rd : BitVec 5) (imm : BitVec 20)
  | auipc (rd : BitVec 5) (imm : BitVec 20)
  | jal (rd : BitVec 5) (imm : BitVec 20)
  | jalr (rd rs1 : BitVec 5) (imm : BitVec 12)
  | branch (op : BranchOp) (rs1 rs2 : BitVec 5) (imm : BitVec 12)
  | load (op : LoadOp) (rd rs1 : BitVec 5) (imm : BitVec 12)
  | store (op : StoreOp) (rs1 rs2 : BitVec 5) (imm : BitVec 12)
  | opImm (op : ImmOp) (rd rs1 : BitVec 5) (imm : BitVec 12)
  | shiftImm (op : ShiftOp) (rd rs1 shamt : BitVec 5)
  | opReg (op : AluOp) (rd rs1 rs2 : BitVec 5)
  | fence (rd rs1 : BitVec 5) (imm : BitVec 12)
  | fenceI (rd rs1 : BitVec 5) (imm : BitVec 12)
  | ecall
  | ebreak
  | mret
  | wfi
  | csr (op : CsrOp) (rd src : BitVec 5) (idx : BitVec 12)
  deriving DecidableEq

def AluOp.funct3 : AluOp → BitVec 3
  | .add | .sub => 0b000#3
  | .sll => 0b001#3
  | .slt => 0b010#3
  | .sltu => 0b011#3
  | .xor => 0b100#3
  | .srl | .sra => 0b101#3
  | .or => 0b110#3
  | .and => 0b111#3

def AluOp.funct7 : AluOp → BitVec 7
  | .sub | .sra => 0b0100000#7
  | _ => 0b0000000#7

def ImmOp.alu : ImmOp → AluOp
  | .addi => .add
  | .slti => .slt
  | .sltiu => .sltu
  | .xori => .xor
  | .ori => .or
  | .andi => .and

def ShiftOp.alu : ShiftOp → AluOp
  | .slli => .sll
  | .srli => .srl
  | .srai => .sra

def BranchOp.funct3 : BranchOp → BitVec 3
  | .beq => 0b000#3
  | .bne => 0b001#3
  | .blt => 0b100#3
  | .bge => 0b101#3
  | .bltu => 0b110#3
  | .bgeu => 0b111#3

def LoadOp.funct3 : LoadOp → BitVec 3
  | .lb => 0b000#3
  | .lh => 0b001#3
  | .lw => 0b010#3
  | .lbu => 0b100#3
  | .lhu => 0b101#3

def StoreOp.funct3 : StoreOp → BitVec 3
  | .sb => 0b000#3
  | .sh => 0b001#3
  | .sw => 0b010#3

def CsrOp.funct3 : CsrOp → BitVec 3
  | .rw => 0b001#3
  | .rs => 0b010#3
  | .rc => 0b011#3
  | .rwi => 0b101#3
  | .rsi => 0b110#3
  | .rci => 0b111#3

-- The R format; the other formats fill the same six fields.
def word (f7 : BitVec 7) (rs2 rs1 : BitVec 5) (f3 : BitVec 3) (rd : BitVec 5) (opcode : BitVec 7) :
    BitVec 32 :=
  f7 ++ rs2 ++ rs1 ++ f3 ++ rd ++ opcode

-- The I format.
def wordI (imm : BitVec 12) (rs1 : BitVec 5) (f3 : BitVec 3) (rd : BitVec 5) (opcode : BitVec 7) :
    BitVec 32 :=
  imm ++ rs1 ++ f3 ++ rd ++ opcode

def wordS (imm : BitVec 12) (rs2 rs1 : BitVec 5) (f3 : BitVec 3) (opcode : BitVec 7) : BitVec 32 :=
  word (imm.extractLsb' 5 7) rs2 rs1 f3 (imm.extractLsb' 0 5) opcode

-- Bits 12, 10:5, 4:1 and 11 of the offset.
def wordB (imm : BitVec 12) (rs2 rs1 : BitVec 5) (f3 : BitVec 3) (opcode : BitVec 7) : BitVec 32 :=
  word (imm.extractLsb' 11 1 ++ imm.extractLsb' 4 6) rs2 rs1 f3
    (imm.extractLsb' 0 4 ++ imm.extractLsb' 10 1) opcode

def wordU (imm : BitVec 20) (rd : BitVec 5) (opcode : BitVec 7) : BitVec 32 := imm ++ rd ++ opcode

-- Bits 20, 10:1, 11 and 19:12 of the offset.
def wordJ (imm : BitVec 20) (rd : BitVec 5) (opcode : BitVec 7) : BitVec 32 :=
  wordU (imm.extractLsb' 19 1 ++ imm.extractLsb' 0 10 ++ imm.extractLsb' 10 1 ++
    imm.extractLsb' 11 8) rd opcode

def Instr.encode : Instr → BitVec 32
  | .lui rd imm => wordU imm rd 0b0110111#7
  | .auipc rd imm => wordU imm rd 0b0010111#7
  | .jal rd imm => wordJ imm rd 0b1101111#7
  | .jalr rd rs1 imm => wordI imm rs1 0b000#3 rd 0b1100111#7
  | .branch op rs1 rs2 imm => wordB imm rs2 rs1 op.funct3 0b1100011#7
  | .load op rd rs1 imm => wordI imm rs1 op.funct3 rd 0b0000011#7
  | .store op rs1 rs2 imm => wordS imm rs2 rs1 op.funct3 0b0100011#7
  | .opImm op rd rs1 imm => wordI imm rs1 op.alu.funct3 rd 0b0010011#7
  | .shiftImm op rd rs1 shamt => word op.alu.funct7 shamt rs1 op.alu.funct3 rd 0b0010011#7
  | .opReg op rd rs1 rs2 => word op.funct7 rs2 rs1 op.funct3 rd 0b0110011#7
  | .fence rd rs1 imm => wordI imm rs1 0b000#3 rd 0b0001111#7
  | .fenceI rd rs1 imm => wordI imm rs1 0b001#3 rd 0b0001111#7
  | .ecall => 0x00000073#32
  | .ebreak => 0x00100073#32
  | .mret => 0x30200073#32
  | .wfi => 0x10500073#32
  | .csr op rd src idx => wordI idx src op.funct3 rd 0b1110011#7

def AluOp.eval (a b : BitVec 32) : AluOp → BitVec 32
  | .add => a + b
  | .sub => a - b
  | .sll => a <<< (b.extractLsb' 0 5).toNat
  | .slt => if a.toInt < b.toInt then 1#32 else 0#32
  | .sltu => if a.toNat < b.toNat then 1#32 else 0#32
  | .xor => a ^^^ b
  | .srl => a >>> (b.extractLsb' 0 5).toNat
  | .sra => a.sshiftRight (b.extractLsb' 0 5).toNat
  | .or => a ||| b
  | .and => a &&& b

-- What an instruction of the OP, OP-IMM, LUI or AUIPC opcode writes to its
-- register, from its pc and the two registers it names.
def Instr.result (pc x1 x2 : BitVec 32) : Instr → Option (BitVec 32)
  | .lui _ imm => some (imm.setWidth 32 <<< 12)
  | .auipc _ imm => some (pc + imm.setWidth 32 <<< 12)
  | .opImm op _ _ imm => some (op.alu.eval x1 (imm.signExtend 32))
  | .shiftImm op _ _ shamt => some (op.alu.eval x1 (shamt.setWidth 32))
  | .opReg op _ _ _ => some (op.eval x1 x2)
  | _ => none

def BranchOp.holds (a b : BitVec 32) : BranchOp → Bool
  | .beq => decide (a = b)
  | .bne => decide (a ≠ b)
  | .blt => decide (a.toInt < b.toInt)
  | .bge => decide (b.toInt ≤ a.toInt)
  | .bltu => decide (a.toNat < b.toNat)
  | .bgeu => decide (b.toNat ≤ a.toNat)

-- Whether a branch or a `jal` is taken and where it goes if so.
def Instr.jump (pc x1 x2 : BitVec 32) : Instr → Option (Bool × BitVec 32)
  | .branch op _ _ imm => some (op.holds x1 x2, pc + (imm ++ 0#1).signExtend 32)
  | .jal _ imm => some (true, pc + (imm ++ 0#1).signExtend 32)
  | _ => none

-- Where a `jalr` goes. The lowest bit of the sum is cleared.
def jalrTarget (x1 : BitVec 32) (imm : BitVec 12) : BitVec 32 :=
  (x1 + imm.signExtend 32) &&& ~~~1#32

-- What the two jumps write to their register.
def Instr.link (pc : BitVec 32) : Instr → Option (BitVec 32)
  | .jal _ _ | .jalr _ _ _ => some (pc + 4#32)
  | _ => none

-- How many bytes an access has.

def StoreOp.size : StoreOp → Nat
  | .sb => 1
  | .sh => 2
  | .sw => 4

def LoadOp.size : LoadOp → Nat
  | .lb | .lbu => 1
  | .lh | .lhu => 2
  | .lw => 4

def LoadOp.isUnsigned : LoadOp → Bool
  | .lbu | .lhu => true
  | _ => false

-- What a load writes to its register when its first byte is byte `k` of `w`.
def LoadOp.value (w : BitVec 32) (k : Nat) (op : LoadOp) : BitVec 32 :=
  if op.isUnsigned then (w.extractLsb' (8 * k) (8 * op.size)).setWidth 32
  else (w.extractLsb' (8 * k) (8 * op.size)).signExtend 32

-- What a Zicsr instruction leaves in a register that held `old`.
def CsrOp.eval (old src : BitVec 32) : CsrOp → BitVec 32
  | .rw | .rwi => src
  | .rs | .rsi => old ||| src
  | .rc | .rci => old &&& ~~~src

-- The source is the five-bit field itself and not the register it names.
def CsrOp.isImm : CsrOp → Bool
  | .rwi | .rsi | .rci => true
  | _ => false

end HiCore.Isa
