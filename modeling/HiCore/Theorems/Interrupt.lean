import HiCore.Trace.Entries
import HiCore.Trace.Program
import Mathlib.Data.List.Find

-- An interrupt taken at commit, against committing the instruction first and
-- entering the handler on the result.
namespace HiCore

namespace Csr

-- The architectural state of the unit: everything but its write-back register.
structure Arch where
  statusMie : Bool
  statusMpie : Bool
  mie : BitVec 32
  meip : Bool
  msip : Bool
  mtip : Bool
  mtvec : BitVec 32
  mscratch : BitVec 32
  mcycle : BitVec 32
  mcycleh : BitVec 32
  minstret : BitVec 32
  minstreth : BitVec 32
  mtval : BitVec 32
  mepc : BitVec 32
  mcause : BitVec 32
  deriving DecidableEq

def arch (s : Csr) : Arch where
  statusMie := s.statusMie
  statusMpie := s.statusMpie
  mie := s.mie
  meip := s.meip
  msip := s.msip
  mtip := s.mtip
  mtvec := s.mtvec
  mscratch := s.mscratch
  mcycle := s.mcycle
  mcycleh := s.mcycleh
  minstret := s.minstret
  minstreth := s.minstreth
  mtval := s.mtval
  mepc := s.mepc
  mcause := s.mcause

-- Interrupt entry: `pc` is where the handler returns to.
def Arch.enter (a : Arch) (pc cause : BitVec 32) : Arch :=
  { a with statusMpie := a.statusMie, statusMie := false, mepc := pc, mcause := cause }

-- The index of the lowest set bit.
def lowestBit (v : BitVec 12) : Nat := ((List.range 12).find? fun i => v.getLsbD i).getD 0

-- The tree of halves that the source builds finds the lowest pending interrupt.

theorem lowestIdx_append (x l : BitVec 8) (hl : l ≠ 0#8) :
    lowestIdx (x ++ l) = lowestIdx (0#8 ++ l) := by
  have hlow : ∀ x : BitVec 8, (x ++ l).extractLsb' 0 8 = l := fun x => by
    rw [BitVec.extractLsb'_append_eq_of_add_le (by omega)]
    simp
  have hz : (l == 0#8) = false := beq_eq_false_iff_ne.mpr hl
  simp only [lowestIdx, hlow, hz, if_neg Bool.false_ne_true]

theorem lowestBit_append (h : BitVec 4) (l : BitVec 8) (hl : l ≠ 0#8) :
    lowestBit (h ++ l) = lowestBit (0#4 ++ l) := by
  have hsome : ∀ l : BitVec 8, l ≠ 0#8 → ((List.range 8).find? fun i => l.getLsbD i).isSome := by
    decide
  have hfind : ∀ h : BitVec 4, (List.range 8).find? (fun i => (h ++ l).getLsbD i) =
      (List.range 8).find? fun i => l.getLsbD i := by
    intro h
    refine List.find?_congr fun i hi => ?_
    rw [BitVec.getLsbD_append, if_pos (List.mem_range.mp hi)]
  obtain ⟨i, hi⟩ := Option.isSome_iff_exists.mp (hsome l hl)
  have hr : List.range 12 = List.range 8 ++ [8, 9, 10, 11] := rfl
  rw [lowestBit, lowestBit, hr, List.find?_append, List.find?_append, hfind, hfind, hi]
  rfl

theorem lowestIdx_eq (v : BitVec 12) (hv : v ≠ 0#12) :
    lowestIdx (0#4 ++ v) = BitVec.ofNat 4 (lowestBit v) := by
  obtain ⟨h, l, rfl⟩ : ∃ (h : BitVec 4) (l : BitVec 8), v = h ++ l :=
    ⟨v.extractLsb' 8 4, v.extractLsb' 0 8, by
      refine BitVec.eq_of_getLsbD_eq fun i hi => ?_
      rw [BitVec.getLsbD_append, BitVec.getLsbD_extractLsb', BitVec.getLsbD_extractLsb']
      split
      · next h8 => simp [h8]
      · next h8 =>
        rw [Nat.add_sub_cancel' (Nat.le_of_not_lt h8), decide_eq_true (by omega), Bool.true_and]⟩
  have hassoc : 0#4 ++ (h ++ l) = (0#4 ++ h) ++ l := BitVec.append_assoc'
  by_cases hl : l = 0#8
  · subst hl
    revert h
    decide
  · rw [hassoc, lowestIdx_append _ l hl, lowestBit_append h l hl]
    have hbyte : ∀ l : BitVec 8, l ≠ 0#8 →
        lowestIdx (0#8 ++ l) = BitVec.ofNat 4 (lowestBit (0#4 ++ l)) := by decide +kernel
    exact hbyte l hl
end Csr

namespace Cpu

-- The same commit with no interrupt pending.
def calmIn (s : Cpu) : Commit.In := { s.commitIn with irqMsk := 0#12 }

def calmCsr (s : Cpu) : Csr.Arch :=
  (s.csr.next { s.csrIn with commit := Commit.toCsr s.calmIn, flush := Commit.flush s.calmIn }).arch

def calmRegfile (s : Cpu) : Regfile :=
  s.regfile.next (Commit.regWen s.calmIn) (s.rob.issue s.rob.head).rdIdx (s.rob.rdData s.rob.head)

-- Where the program goes on after the instruction at the head.
def archNextPc (s : Cpu) : BitVec 32 :=
  if (s.rob.issue s.rob.head).mretOp then s.csr.mepc else (s.rob.issue s.rob.head).nextPc

-- The code of the lowest interrupt that is enabled and pending.
def interruptCause (s : Cpu) : BitVec 32 :=
  1#1 ++ 0#27 ++ BitVec.ofNat 4 (Csr.lowestBit (Commit.csrIrq s.commitIn))

-- The instruction at the head commits without exception and an enabled
-- interrupt is pending.
def takesInterrupt (s : Cpu) : Prop :=
  s.commits = true ∧ (s.rob.info s.rob.head).excp = 0#16 ∧ Commit.csrIrq s.commitIn ≠ 0#12

-- One cycle is the commit followed by interrupt entry.
def Sequential (s : Cpu) (p : Pins) : Prop :=
  (s.step p).regfile = s.calmRegfile ∧
    (s.step p).csr.arch = s.calmCsr.enter s.archNextPc s.interruptCause ∧
    s.flush = true ∧ s.flushPc = s.calmCsr.mtvec

def csrWrites (s : Cpu) (idx : BitVec 12) : Bool :=
  (s.rob.issue s.rob.head).csrNeed && (s.rob.issue s.rob.head).csrIdx == idx

def headCsrData (s : Cpu) : BitVec 32 := s.rob.csrData s.rob.head

-- The instruction does not touch what the interrupt touches, or by luck leaves
-- it as the interrupt does.
def Composes (s : Cpu) : Prop :=
  ((s.rob.issue s.rob.head).mretOp = true →
    s.csr.statusMpie = true ∧ s.csr.mepc = (s.rob.issue s.rob.head).nextPc) ∧
  (s.csrWrites Csr.mstatusIdx = true → s.headCsrData.getLsbD 3 = true) ∧
  (s.csrWrites Csr.mtvecIdx = true → s.headCsrData = s.csr.mtvec)

theorem statusMie_of_takesInterrupt (s : Cpu) (h : s.takesInterrupt) : s.csr.statusMie = true := by
  obtain ⟨-, -, hq⟩ := h
  by_contra hm
  rw [Bool.not_eq_true] at hm
  refine hq ?_
  simp [Commit.csrIrq, commitIn, Csr.irqMsk, hm]

theorem wr_toCsr (s : Cpu) (c : Commit.In) (idx : BitVec 12) (hc : Commit.commits c = true)
    (he : c.info.excp = 0#16) (hi : c.issue = s.rob.issue s.rob.head) :
    Csr.wr idx (Commit.toCsr c) = s.csrWrites idx := by
  simp [Csr.wr, Csr.csrWrEn, Csr.excpEn, Commit.toCsr, hc, he, hi, csrWrites, Bool.and_comm]

-- The registers that an interrupt does not touch are those of the calm commit.
theorem arch_step (s : Cpu) (p : Pins) (h : s.takesInterrupt) :
    (s.step p).csr.arch =
      { s.calmCsr with
        statusMie := false
        statusMpie := true
        mepc := (s.rob.issue s.rob.head).nextPc
        mcause := s.interruptCause } := by
  have hmie := s.statusMie_of_takesInterrupt h
  obtain ⟨hc, he, hq⟩ := h
  have hn : (s.step p).csr = s.csr.next s.csrIn := rfl
  have hi : s.csrIn.commit = Commit.toCsr s.commitIn := rfl
  have hw : ∀ idx, Csr.wr idx (Commit.toCsr s.commitIn) = s.csrWrites idx :=
    fun idx => wr_toCsr s s.commitIn idx hc he rfl
  have hw0 : ∀ idx, Csr.wr idx (Commit.toCsr s.calmIn) = s.csrWrites idx :=
    fun idx => wr_toCsr s s.calmIn idx hc he rfl
  have hex : Csr.excpEn (Commit.toCsr s.commitIn) = false := by
    simp [Csr.excpEn, Commit.toCsr, show s.commitIn.info.excp = 0#16 from he]
  have hex0 : Csr.excpEn (Commit.toCsr s.calmIn) = false := hex
  have hir : Csr.irqEn (Commit.toCsr s.commitIn) = true := by
    have hv : (Commit.toCsr s.commitIn).valid = true := hc
    simp [Csr.irqEn, hv, show (Commit.toCsr s.commitIn).irq ≠ 0#12 from hq]
  have hidx : Csr.irqIdx (Commit.toCsr s.commitIn) =
      BitVec.ofNat 4 (Csr.lowestBit (Commit.csrIrq s.commitIn)) := Csr.lowestIdx_eq _ hq
  rw [hn, calmCsr]
  simp only [Csr.arch, Csr.next, hi, hidx, hw, hw0, hex, hex0, hir, Csr.statusMieEna, Csr.statusMieNxt,
    Csr.statusMpieNxt, Csr.mcycleNxt, Csr.mcyclehEna, Csr.mcyclehNxt, Csr.minstretEna,
    Csr.minstretNxt, Csr.minstrethEna, Csr.minstrethNxt, Csr.mepcNxt, Csr.mcauseNxt, Csr.mieNxt,
    hmie]
  simp [Commit.toCsr, Commit.commits, calmIn, interruptCause, commitIn]

-- What the calm commit leaves in the two registers that interrupt entry reads.
theorem calmCsr_eq (s : Cpu) (h : s.takesInterrupt) :
    s.calmCsr.statusMie = (if (s.rob.issue s.rob.head).mretOp then s.csr.statusMpie
        else if s.csrWrites Csr.mstatusIdx then s.headCsrData.getLsbD 3 else true) ∧
      s.calmCsr.mtvec = if s.csrWrites Csr.mtvecIdx then s.headCsrData else s.csr.mtvec := by
  have hmie := s.statusMie_of_takesInterrupt h
  obtain ⟨hc, he, -⟩ := h
  have hw : ∀ idx, Csr.wr idx (Commit.toCsr s.calmIn) = s.csrWrites idx :=
    fun idx => wr_toCsr s s.calmIn idx hc he rfl
  have hex : Csr.excpEn (Commit.toCsr s.calmIn) = false := by
    simp [Csr.excpEn, Commit.toCsr, show s.calmIn.info.excp = 0#16 from he]
  have hir : Csr.irqEn (Commit.toCsr s.calmIn) = false := by
    simp [Csr.irqEn, Commit.toCsr, Commit.csrIrq, calmIn]
  have hm : (Commit.toCsr s.calmIn).mretOp = (s.rob.issue s.rob.head).mretOp := rfl
  have hd : (Commit.toCsr s.calmIn).csrData = s.headCsrData := rfl
  simp only [calmCsr, Csr.arch, Csr.next, Csr.statusMieEna, Csr.statusMieNxt, hw, hex, hir, hm, hd,
    hmie]
  cases (s.rob.issue s.rob.head).mretOp <;> cases s.csrWrites Csr.mstatusIdx <;> simp [dfflr]

theorem flush_of_takesInterrupt (s : Cpu) (h : s.takesInterrupt) :
    s.flush = true ∧ s.flushPc = s.csr.mtvec := by
  obtain ⟨hc, -, hq⟩ := h
  have hc' : Commit.commits s.commitIn = true := hc
  have hi : Commit.irqEn s.commitIn = true := by simp [Commit.irqEn, hc', hq]
  refine ⟨by simp [flush, Commit.flush, hc', hi], ?_⟩
  rw [flushPc, Commit.flushPc, hi, Bool.or_true, if_pos rfl]
  rfl

theorem sequential_iff (s : Cpu) (p : Pins) (h : s.takesInterrupt)
    (hx : (s.rob.issue s.rob.head).mretOp = true → (s.rob.issue s.rob.head).csrNeed = false) :
    s.Sequential p ↔ s.Composes := by
  obtain ⟨hm, hv⟩ := s.calmCsr_eq h
  obtain ⟨hf, hfp⟩ := s.flush_of_takesInterrupt h
  have hreg : (s.step p).regfile = s.calmRegfile := rfl
  -- Three registers are left to compare: MPIE, mepc and the target.
  have hseq : s.Sequential p ↔ s.calmCsr.statusMie = true ∧
      s.archNextPc = (s.rob.issue s.rob.head).nextPc ∧ s.calmCsr.mtvec = s.csr.mtvec := by
    rw [Sequential, s.arch_step p h, hfp]
    simp only [hreg, hf, Csr.Arch.enter, Csr.Arch.mk.injEq, true_and, and_true, and_assoc]
    exact ⟨fun ⟨h1, h2, h3⟩ => ⟨h1.symm, h2.symm, h3.symm⟩,
      fun ⟨h1, h2, h3⟩ => ⟨h1.symm, h2.symm, h3.symm⟩⟩
  rw [hseq, hm, hv, archNextPc, Composes]
  cases hr : (s.rob.issue s.rob.head).mretOp with
  | true =>
    have hn : ∀ idx, s.csrWrites idx = false := fun idx => by simp [csrWrites, hx hr]
    simp [hn]
  | false =>
    cases s.csrWrites Csr.mstatusIdx <;> cases s.csrWrites Csr.mtvecIdx <;> simp

end Cpu

namespace Run

-- Decode gives one unit to an instruction, so an mret is no csr access.
theorem csrNeed_of_mretOp (r : Run) (t : Nat) (hc : (r.st t).commits = true)
    (h : ((r.st t).rob.issue (r.st t).rob.head).mretOp = true) :
    ((r.st t).rob.issue (r.st t).rob.head).csrNeed = false := by
  have hm := r.head_mem t hc
  rw [r.issue_owner t _ hm] at h ⊢
  obtain ⟨-, -, -, hcs, hns⟩ :=
    Decode.sel_unit (r.st (r.owner t (r.st t).rob.head)).if2de.intr
  have hn := (Bool.and_eq_true_iff.mp h).1
  rw [hns, decide_eq_true_iff] at hn
  exact hcs.trans (by rw [hn]; rfl)

theorem interrupt_sequential_iff (r : Run) (t : Nat) (h : (r.st t).takesInterrupt) :
    (r.st t).Sequential (r.pins t) ↔ (r.st t).Composes :=
  (r.st t).sequential_iff (r.pins t) h (r.csrNeed_of_mretOp t h.1)

-- `addi x1,x0,0x80; csrrw x0,mie,x1; csrrsi x0,mstatus,8` enables the timer
-- interrupt, which is then taken at the instruction that follows.
def timerOn (last : BitVec 32) : Run :=
  Run.program true [0x08000093#32, 0x30409073#32, 0x30046073#32, last]

theorem interrupt_at_addi : ((timerOn 0x00000013#32).st 10).Sequential
    ((timerOn 0x00000013#32).pins 10) := by
  refine (interrupt_sequential_iff (timerOn 0x00000013#32) 10 ?_).mpr ?_
  · unfold Cpu.takesInterrupt
    decide +kernel
  · unfold Cpu.Composes
    decide +kernel

-- At an `mret` the saved pc is the address after it and not mepc.
theorem interrupt_at_mret : ((timerOn 0x30200073#32).st 10).takesInterrupt ∧
    ¬ ((timerOn 0x30200073#32).st 10).Sequential ((timerOn 0x30200073#32).pins 10) := by
  refine ⟨by unfold Cpu.takesInterrupt; decide +kernel, fun h => ?_⟩
  exact absurd (congrArg Csr.Arch.mepc h.2.1) (by decide +kernel)

end Run

end HiCore
