import HiCore.Isa.Rv32i
import HiCore.Lib.Bytes
import Mathlib.Logic.Function.Basic

-- The machine that executes one instruction after another: a pc, the registers, a data
-- memory and the registers of the trap mechanism. Nothing here refers to the core.
namespace HiCore.Isa

-- mstatus, mip and the counters are left out: they change between instructions.
inductive CsrReg where
  | mie | mtvec | mscratch | mepc | mcause | mtval
  deriving DecidableEq

def CsrReg.idx : CsrReg → BitVec 12
  | .mie => 0x304#12
  | .mtvec => 0x305#12
  | .mscratch => 0x340#12
  | .mepc => 0x341#12
  | .mcause => 0x342#12
  | .mtval => 0x343#12

def CsrReg.all : List CsrReg := [.mie, .mtvec, .mscratch, .mepc, .mcause, .mtval]

def csrReg (idx : BitVec 12) : Option CsrReg := CsrReg.all.find? fun c => c.idx == idx

theorem csrReg_eq_some_iff (idx : BitVec 12) (c : CsrReg) : csrReg idx = some c ↔ idx = c.idx := by
  constructor
  · intro h
    have hb := List.find?_some (p := fun c : CsrReg => c.idx == idx) h
    exact (beq_iff_eq.mp hb).symm
  · rintro rfl
    cases c <;> rfl

-- The cause and the value of a trap are for reading only.
def CsrReg.writable : CsrReg → Bool
  | .mcause | .mtval => false
  | _ => true

-- What a write leaves: mie has the three machine interrupt bits 11, 7 and 3.
def CsrReg.legalize (v : BitVec 32) : CsrReg → BitVec 32
  | .mie => v &&& 0x888#32
  | _ => v

-- The forms that only read: no bit is set or cleared.
def CsrOp.readsOnly (src : BitVec 5) : CsrOp → Bool
  | .rw | .rwi => false
  | _ => src == 0#5

-- The registers that an instruction reads and writes.

def Instr.rs1 : Instr → Option (BitVec 5)
  | .jalr _ rs1 _ | .branch _ rs1 _ _ | .load _ _ rs1 _ | .store _ rs1 _ _ | .opImm _ _ rs1 _
  | .shiftImm _ _ rs1 _ | .opReg _ _ rs1 _ => some rs1
  | .csr op _ src _ => if op.isImm then none else some src
  | _ => none

def Instr.rs2 : Instr → Option (BitVec 5)
  | .branch _ _ rs2 _ | .store _ _ rs2 _ | .opReg _ _ _ rs2 => some rs2
  | _ => none

def Instr.rd : Instr → Option (BitVec 5)
  | .lui rd _ | .auipc rd _ | .jal rd _ | .jalr rd _ _ | .load _ rd _ _ | .opImm _ rd _ _
  | .shiftImm _ rd _ _ | .opReg _ rd _ _ | .csr _ rd _ _ => some rd
  | _ => none

-- An mret and an access to mtvec come before the interrupts of their commit.
def Instr.interruptible : Instr → Bool
  | .mret => false
  | .csr _ _ _ idx => csrReg idx != some .mtvec
  | _ => true

-- Register 0 is a constant. The data memory is that of addresses 0x80000000 to 0x8000FFFF,
-- where 16 KiB repeat.
@[ext] structure Machine where
  pc : BitVec 32
  x : BitVec 5 → BitVec 32
  x_zero : x 0#5 = 0#32
  mem : BitVec 14 → BitVec 8
  csr : CsrReg → BitVec 32

def isData (a : BitVec 32) : Bool := a.extractLsb' 16 16 == 0x8000#16

namespace Machine

def reset (mem : BitVec 14 → BitVec 8) : Machine where
  pc := 0#32
  x _ := 0#32
  x_zero := rfl
  mem := mem
  csr _ := 0#32

def goto (m : Machine) (pc : BitVec 32) : Machine := { m with pc := pc }

def write (m : Machine) (rd : BitVec 5) (v : BitVec 32) : Machine :=
  { m with
    x := fun r => if r = rd ∧ rd ≠ 0#5 then v else m.x r
    x_zero := by
      rw [if_neg fun h => h.2 h.1.symm]
      exact m.x_zero }

def retire (m : Machine) (rd : BitVec 5) (v : BitVec 32) : Machine :=
  (m.write rd v).goto (m.pc + 4#32)

-- A target that is not aligned is not covered.
def jump (m : Machine) (target : BitVec 32) : Option Machine :=
  if target.extractLsb' 0 2 == 0#2 then some (m.goto target) else none

theorem jump_eq_some {m m' : Machine} {target : BitVec 32} (h : m.jump target = some m') :
    m' = m.goto target := by
  rw [jump] at h
  split at h
  · exact (Option.some.inj h).symm
  · exact absurd h (by simp)

def setCsr (m : Machine) (c : CsrReg) (v : BitVec 32) : Machine :=
  { m with csr := Function.update m.csr c v }

-- The instruction has no effect but the trap. The pc is the value of every exception.
def trap (m : Machine) (code : BitVec 4) : Machine :=
  (((m.setCsr .mepc m.pc).setCsr .mcause (0#28 ++ code)).setCsr .mtval m.pc).goto (m.csr .mtvec)

-- An interrupt is taken behind an instruction, so the pc is that of the next one.
def interrupt (m : Machine) (code : BitVec 4) : Machine :=
  ((m.setCsr .mepc m.pc).setCsr .mcause (1#1 ++ 0#27 ++ code)).goto (m.csr .mtvec)

def execCsr (m : Machine) (op : CsrOp) (rd src : BitVec 5) (c : CsrReg) : Option Machine :=
  if c.writable then
    some ((m.retire rd (m.csr c)).setCsr c (c.legalize
      (op.eval (m.csr c) (if op.isImm then src.setWidth 32 else m.x src))))
  else if op.readsOnly src then some (m.retire rd (m.csr c)) else none

theorem execCsr_eq_some {m m' : Machine} {op : CsrOp} {rd src : BitVec 5} {c : CsrReg}
    (h : m.execCsr op rd src c = some m') :
    m'.pc = m.pc + 4#32 ∧ m'.x = (m.write rd (m.csr c)).x ∧ m'.mem = m.mem ∧
      ∀ k, m'.csr k = if k = c ∧ c.writable = true then c.legalize
        (op.eval (m.csr c) (if op.isImm then src.setWidth 32 else m.x src)) else m.csr k := by
  rw [execCsr] at h
  split at h
  · next hw =>
    obtain rfl := Option.some.inj h
    refine ⟨rfl, rfl, rfl, fun k => ?_⟩
    by_cases hk : k = c
    · subst hk
      simp [setCsr, hw]
    · simp [setCsr, retire, goto, write, hk]
  · next hw =>
    split at h
    · obtain rfl := Option.some.inj h
      refine ⟨rfl, rfl, rfl, fun k => ?_⟩
      rw [if_neg fun hk => hw hk.2]
      rfl
    · exact absurd h (by simp)

-- `none` where an access leaves the data memory, a jump is not aligned or a csr is not one of
-- the six.
def exec (m : Machine) : Instr → Option Machine
  | .lui rd imm => some (m.retire rd (imm.setWidth 32 <<< 12))
  | .auipc rd imm => some (m.retire rd (m.pc + imm.setWidth 32 <<< 12))
  | .jal rd imm => (m.write rd (m.pc + 4#32)).jump (m.pc + (imm ++ 0#1).signExtend 32)
  | .jalr rd rs1 imm => (m.write rd (m.pc + 4#32)).jump (jalrTarget (m.x rs1) imm)
  | .branch op rs1 rs2 imm =>
    if op.holds (m.x rs1) (m.x rs2) then m.jump (m.pc + (imm ++ 0#1).signExtend 32)
    else some (m.goto (m.pc + 4#32))
  | .load op rd rs1 imm =>
    if (m.x rs1 + imm.signExtend 32).toNat % op.size ≠ 0 then some (m.trap 4#4)
    else if isData (m.x rs1 + imm.signExtend 32) then
      some (m.retire rd
        (op.value (Bytes.word m.mem ((m.x rs1 + imm.signExtend 32).extractLsb' 0 14)) 0))
    else none
  | .store op rs1 rs2 imm =>
    if (m.x rs1 + imm.signExtend 32).toNat % op.size ≠ 0 then some (m.trap 6#4)
    else if isData (m.x rs1 + imm.signExtend 32) then
      some { m.goto (m.pc + 4#32) with
        mem := Bytes.write op.size ((m.x rs1 + imm.signExtend 32).extractLsb' 0 14) (m.x rs2)
          m.mem }
    else none
  | .opImm op rd rs1 imm => some (m.retire rd (op.alu.eval (m.x rs1) (imm.signExtend 32)))
  | .shiftImm op rd rs1 shamt => some (m.retire rd (op.alu.eval (m.x rs1) (shamt.setWidth 32)))
  | .opReg op rd rs1 rs2 => some (m.retire rd (op.eval (m.x rs1) (m.x rs2)))
  | .fence _ _ _ | .fenceI _ _ _ | .wfi => some (m.goto (m.pc + 4#32))
  | .ecall => some (m.trap 11#4)
  | .ebreak => some (m.trap 3#4)
  | .mret => some (m.goto (m.csr .mepc))
  | .csr op rd src idx => (csrReg idx).bind (m.execCsr op rd src)

-- Behind instruction `i` an interrupt may be taken.
def take (i : Instr) (irq : Option (BitVec 4)) (m : Machine) : Option Machine :=
  match irq with
  | none => some m
  | some code => if i.interruptible then some (m.interrupt code) else none

-- The program is a partial map from the words of the instruction memory, which repeats too.
def step (p : BitVec 12 → Option Instr) (m : Machine) (irq : Option (BitVec 4)) : Option Machine :=
  (p (m.pc.extractLsb' 2 12)).bind fun i => (m.exec i).bind (take i irq)

-- One entry for each instruction: the interrupt that is taken behind it.
def run (p : BitVec 12 → Option Instr) (m : Machine) (irqs : List (Option (BitVec 4))) :
    Option Machine :=
  irqs.foldlM (step p) m

end Machine

end HiCore.Isa
