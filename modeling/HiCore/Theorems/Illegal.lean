import HiCore.Refine.Encoding
import HiCore.Theorems.Stores

-- Which words decode reports as illegal, and what the others do.
namespace HiCore

-- The opcodes that some instruction of the decoder's list has.
def Isa.opcodes : List (BitVec 7) :=
  [0b0110111#7, 0b0010111#7, 0b1101111#7, 0b1100111#7, 0b1100011#7, 0b0000011#7, 0b0100011#7,
    0b0010011#7, 0b0110011#7, 0b0001111#7, 0b1110011#7]

namespace Decode

-- Decode looks at the opcode and at nothing else.
theorem illegalIntr_iff (w : BitVec 32) : illegalIntr w = true ↔ Isa.opcode w ∉ Isa.opcodes := by
  simp only [illegalIntr, loadOp, storeOp, fenceOp, jalOp, jalrOp, branchOp, aluOp, csrOp, luiOp,
    auipcOp, opcodeIs_of_opcode _ w _ rfl]
  generalize Isa.opcode w = c
  revert c
  decide +kernel

theorem opcode_mem_of_legal (w : BitVec 32) (h : Isa.legal w = true) :
    Isa.opcode w ∈ Isa.opcodes := by
  obtain ⟨i, rfl⟩ := (Isa.legal_iff w).mp h
  cases i with
  | ecall | ebreak | mret | wfi => decide
  | _ => simp [Isa.opcodes, Isa.Instr.encode, Isa.wordB, Isa.wordS, Isa.wordJ]

theorem deExcp_illegal (f : If2de) (h : f.excp = 0#16) :
    (deExcp f).getLsbD 2 = illegalIntr f.intr := by
  rw [deExcp, h, BitVec.zero_or]
  simp only [BitVec.getLsbD_append, Nat.reduceLT, Nat.reduceSub, reduceIte]
  cases illegalIntr f.intr <;> rfl

theorem deExcp_ne_zero (f : If2de) (h : f.excp = 0#16) (hi : illegalIntr f.intr = true) :
    deExcp f ≠ 0#16 := by
  intro he
  have hb := deExcp_illegal f h
  rw [he, hi] at hb
  exact Bool.noConfusion hb

theorem unit_of_illegal (w : BitVec 32) (h : illegalIntr w = true) : unit w = .nop := by
  rw [← selects_iff]
  simp [selects, nopSel, h]

end Decode

namespace Run

variable (r : Run)

-- The instruction decoded in cycle `d` changes no register, no CSR and no memory.
structure Inert (d : Nat) : Prop where
  register : ∀ t, r.owner t (r.st t).rob.head = d → (r.st t).regWen = false
  csr : ∀ t, r.owner t (r.st t).rob.head = d → (r.st t).csrWrEn = false
  memory : ∀ t, r.Sends t d → (r.st t).lsuCmd.read = true

theorem inert_of_illegal (d : Nat) (hx : (r.st d).if2de.excp = 0#16)
    (hi : Decode.illegalIntr (r.st d).if2de.intr = true) : r.Inert d := by
  have hne := Decode.deExcp_ne_zero _ hx hi
  have hu := Decode.unit_of_illegal _ hi
  refine ⟨fun t ho => ?_, fun t ho => ?_, fun t hs => ?_⟩
  · by_contra hw
    rw [Bool.not_eq_false] at hw
    simp only [Cpu.regWen, Commit.regWen, Bool.and_eq_true] at hw
    have hn : (r.st d).robIssue.rdNeed = true := by
      rw [← ho, ← r.issue_owner t _ (r.head_mem t hw.1.1)]
      exact hw.2
    simp [Cpu.robIssue, Decode.rdNeed, hne] at hn
  · by_contra hw
    rw [Bool.not_eq_false] at hw
    simp only [Cpu.csrWrEn, Csr.csrWrEn, Bool.and_eq_true] at hw
    have hn : (r.st d).robIssue.csrNeed = true := by
      rw [← ho, ← r.issue_owner t _ (r.head_mem t hw.1.1)]
      exact hw.1.2
    have hs : Decode.csrSel (r.st d).if2de.intr = true := hn
    rw [(Decode.sel_unit _).2.2.2.1, hu] at hs
    exact Bool.noConfusion hs
  · obtain ⟨⟨hl, -⟩, -⟩ := hs.cmd
    rw [unitOf, hu] at hl
    exact Rob.WbUnit.noConfusion hl

end Run

-- Decode reports word `w`, fetched without an exception, as illegal exactly when
-- it encodes nothing; and if it encodes nothing it changes nothing.
def Decode.Recognises (w : BitVec 32) : Prop :=
  (∀ f : If2de, f.intr = w → f.excp = 0#16 →
    ((Decode.deExcp f).getLsbD 2 = true ↔ ¬ ∃ i : Isa.Instr, i.encode = w)) ∧
  ((¬ ∃ i : Isa.Instr, i.encode = w) → ∀ (r : Run) (d : Nat), (r.st d).if2de.intr = w →
    (r.st d).if2de.excp = 0#16 → r.Inert d)

theorem Decode.recognises_iff (w : BitVec 32) : Decode.Recognises w ↔
    (∃ i : Isa.Instr, i.encode = w) ∨ Isa.opcode w ∉ Isa.opcodes := by
  rw [← Isa.legal_iff, ← Decode.illegalIntr_iff]
  have hlegal : Isa.legal w = true → Decode.illegalIntr w = false := by
    intro hl
    by_contra hi
    rw [Bool.not_eq_false, Decode.illegalIntr_iff] at hi
    exact hi (Decode.opcode_mem_of_legal w hl)
  constructor
  · rintro ⟨hb, -⟩
    by_cases hl : Isa.legal w = true
    · exact .inl hl
    · have hw := (hb { intr := w, pc := 0#32, excp := 0#16 } rfl rfl).mpr
      rw [Decode.deExcp_illegal _ rfl, ← Isa.legal_iff] at hw
      exact .inr (hw hl)
  · intro h
    refine ⟨fun f hf hx => ?_, fun hn r d hw hx => ?_⟩
    · rw [Decode.deExcp_illegal f hx, hf, ← Isa.legal_iff]
      rcases h with hl | hi
      · simp [hl, hlegal hl]
      · have hn : ¬ Isa.legal w = true := fun hl => by simp [hlegal hl] at hi
        simp [hi, hn]
    · rw [← Isa.legal_iff] at hn
      exact r.inert_of_illegal d hx (hw ▸ h.resolve_left hn)

-- `mul x3, x1, x2` is taken for `add`.
theorem Decode.not_recognises_mul : ¬ Decode.Recognises 0x022081B3#32 := by
  rintro ⟨hb, -⟩
  have hbit : (Decode.deExcp { intr := 0x022081B3#32, pc := 0#32, excp := 0#16 }).getLsbD 2 =
      false := by decide
  have hw := (hb { intr := 0x022081B3#32, pc := 0#32, excp := 0#16 } rfl rfl).mpr
  rw [← Isa.legal_iff, hbit] at hw
  exact Bool.noConfusion (hw (by decide))

end HiCore
