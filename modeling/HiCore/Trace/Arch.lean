import HiCore.Refine.Instr
import HiCore.Theorems.Jalr
import HiCore.Trace.Results

-- The architectural state of a run, what a cycle does to it, and the frame that all
-- instructions share when they commit.
namespace HiCore

open Isa

def Csr.reg (s : Csr) : CsrReg → BitVec 32
  | .mie => s.mie
  | .mtvec => s.mtvec
  | .mscratch => s.mscratch
  | .mepc => s.mepc
  | .mcause => s.mcause
  | .mtval => s.mtval

namespace Csr

theorem mieNxt_eq (c : Commit) : mieNxt c = c.csrData &&& 0x888#32 := by
  have hw : implemented mieIdx c.csrData = mieNxt c := rfl
  have hbits : ∀ e t s, irqBits e t s &&& 0x888#32 = irqBits e t s := by decide
  have hk := implemented_and_writableBits mieIdx c.csrData (by decide)
  rw [hw, writableBits, if_neg (by decide), if_pos rfl] at hk
  rw [← hk, mieNxt, hbits]

section Next

variable (s : Csr) (i : In)

theorem reg_next_of_not_valid (h : i.commit.valid = false) : (s.next i).reg = s.reg := by
  have hw : ∀ idx, wr idx i.commit = false := fun idx => by simp [wr, csrWrEn, h]
  have hx : excpEn i.commit = false := by simp [excpEn, h]
  have hq : irqEn i.commit = false := by simp [irqEn, h]
  funext c
  cases c <;> simp [reg, next, hw, hx, hq]

theorem reg_next_of_excp (h : excpEn i.commit = true) (c : CsrReg) : (s.next i).reg c =
    match c with
    | .mepc | .mtval => i.commit.pc
    | .mcause => 0#28 ++ excpIdx i.commit
    | _ => s.reg c := by
  have hw : ∀ idx, wr idx i.commit = false := fun idx => by simp [wr, csrWrEn, h]
  cases c <;> simp [reg, next, hw, h, mepcNxt, mcauseNxt]

-- Without an exception a write of the instruction and an interrupt may come together.
theorem reg_next_of_not_excp (hv : i.commit.valid = true) (hx : i.commit.excp = 0#16)
    (c : CsrReg) : (s.next i).reg c =
    if i.commit.irq ≠ 0#12 ∧ c = .mepc then i.commit.nextPc
    else if i.commit.irq ≠ 0#12 ∧ c = .mcause then 1#1 ++ 0#27 ++ irqIdx i.commit
    else dfflr (wr c.idx i.commit && c.writable) (c.legalize i.commit.csrData) (s.reg c) := by
  have he : excpEn i.commit = false := by simp [excpEn, hx]
  by_cases hz : i.commit.irq = 0#12
  · have hq : irqEn i.commit = false := by simp [irqEn, hz]
    cases c <;> simp [reg, next, he, hq, hz, mepcNxt, mieNxt_eq, CsrReg.writable, CsrReg.legalize,
      CsrReg.idx, mieIdx, mtvecIdx, mscratchIdx, mepcIdx]
  · have hq : irqEn i.commit = true := by simp [irqEn, hv, hz]
    cases c <;> simp [reg, next, he, hq, hz, mepcNxt, mcauseNxt, mieNxt_eq, CsrReg.writable,
      CsrReg.legalize, CsrReg.idx, mieIdx, mtvecIdx, mscratchIdx]

end Next

end Csr

theorem Regfile.read_next (g : Regfile) (wen : Bool) (idx : BitVec 5) (dat : BitVec 32)
    (x : BitVec 5) : (g.next wen idx dat).read x =
      if wen = true ∧ x = idx ∧ idx ≠ 0#5 then dat else g.read x := by
  by_cases hx : x = 0#5
  · have hn : ¬(wen = true ∧ x = idx ∧ idx ≠ 0#5) := fun h => h.2.2 (h.2.1 ▸ hx)
    rw [if_neg hn]
    simp [Regfile.read, hx]
  · have hb : (x != 0#5) = true := bne_iff_ne.mpr hx
    by_cases he : x = idx
    · subst he
      cases wen <;> simp [Regfile.read, Regfile.next, hx, hb]
    · have hne : (idx == x) = false := beq_eq_false_iff_ne.mpr (Ne.symm he)
      simp [Regfile.read, Regfile.next, he, hne]

namespace Run

variable (r : Run)

-- What software sees between two commits. The pc is that of the commit to come, and the memory
-- is what the committed stores left: the store at the head may have written the DTCM already.
def arch (t : Nat) : Machine where
  pc := r.retirePc t
  x := (r.st t).regfile.read
  x_zero := rfl
  mem := Bytes.ofWords (r.dtcmAfter (r.committedStores t))
  csr := (r.st t).csr.reg

-- The interrupt that is taken in cycle `t`.
def irqAt (t : Nat) : Option (BitVec 4) :=
  if (r.st t).commits && (r.st t).commitIn.info.excp == 0#16 &&
    Commit.csrIrq (r.st t).commitIn != 0#12
  then some (Csr.irqIdx (Commit.toCsr (r.st t).commitIn)) else none

-- Instruction `i` commits in cycle `c`. Its fetch has raised no exception.
structure Retires (c : Nat) (i : Instr) : Prop where
  commits : (r.st c).commits = true
  word : (r.st (r.decodeOf c)).if2de.intr = i.encode
  fetched : (r.st (r.decodeOf c)).if2de.excp = 0#16
  pc : (r.st (r.decodeOf c)).if2de.pc = r.retirePc c

variable {r} {c : Nat} {i : Instr}

theorem retires_of_legal (hl : ∀ t < c, r.LegalFetch t) (hc : (r.st c).commits = true)
    (hw : (r.st (r.decodeOf c)).if2de.intr = i.encode) : r.Retires c i := by
  obtain ⟨hpc, hret⟩ := commitPc_eq c hl hc
  refine ⟨hc, hw, ?_, hpc.symm.trans hret⟩
  have hm := r.head_mem c hc
  have hwen : (r.st (r.decodeOf c)).robWen = true := r.robWen_owner c _ hm
  have hv := (if2deValid_of_robWen _ hwen).1
  have hf := r.fetchOf_lt _ hv
  obtain ⟨hal, hin⟩ := hl _ (Nat.lt_trans hf (r.owner_lt c _ hm)) (r.head?_decode _ hv).2.2.1
  have hx : (r.st (r.decodeOf c)).if2de.excp = _ := r.reports_decode _ hv
  rw [hx, Ifetch.excpCode, hal, hin]
  decide

-- What decode has found and the entry has kept.

section Retires

variable (h : r.Retires c i)
include h

theorem Retires.mem : (r.st c).rob.head ∈ (r.st c).rob.window := r.head_mem c h.commits

theorem Retires.robWen : (r.st (r.decodeOf c)).robWen = true := r.robWen_owner c _ h.mem

theorem Retires.issue : (r.st c).commitIn.issue = (r.st (r.decodeOf c)).robIssue :=
  r.issue_owner c _ h.mem

theorem Retires.unitOf : r.unitOf (r.decodeOf c) = i.unit := by
  rw [Run.unitOf, h.word]
  exact Decode.unit_encode i

theorem Retires.deExcp : Decode.deExcp (r.st (r.decodeOf c)).if2de = i.excp :=
  Decode.deExcp_encode i _ h.word h.fetched

theorem Retires.accepts (hx : i.excp = 0#16) : (r.st (r.decodeOf c)).Accepts i := by
  have hw := h.robWen
  simp only [Cpu.robWen, Bool.and_eq_true, Bool.not_eq_true'] at hw
  exact ⟨hw.1.1.1, hw.1.1.2, hw.1.2, h.deExcp.trans hx, h.word⟩

theorem Retires.needs (hx : i.excp = 0#16) :
    Decode.rdNeed (r.st (r.decodeOf c)).if2de (r.st (r.decodeOf c)).if2deCancel = i.rd.isSome ∧
      (r.st (r.decodeOf c)).rs1Need = i.rs1.isSome ∧ (r.st (r.decodeOf c)).rs2Need = i.rs2.isSome := by
  obtain ⟨h1, h2, h3⟩ := Decode.needs_encode i _ (r.st (r.decodeOf c)).if2deCancel h.word
  rw [Cpu.rs1Need, Cpu.rs2Need, h1, h2, h3, (h.accepts hx).kept, h.deExcp, hx]
  simp

-- The operands are those of the registers at the commit.

theorem Retires.src1 (hx : i.excp = 0#16) (x : BitVec 5) (hs : i.rs1 = some x) :
    (r.st (r.decodeOf c)).readSrc1Dat = (r.arch c).x x := by
  have hi : Decode.rs1Idx (r.st (r.decodeOf c)).if2de.intr = x := by
    rw [h.word]
    exact Decode.rs1Idx_encode i x hs
  have hn : (r.st (r.decodeOf c)).rs1Need = true := by rw [(h.needs hx).2.1, hs]; rfl
  have hu := (r.unwritten_of_reads _ c x h.commits rfl (.inl ⟨hn, hi⟩)).1
  rw [Cpu.readSrc1Dat, hi]
  exact hu.symm

theorem Retires.src2 (hx : i.excp = 0#16) (x : BitVec 5) (hs : i.rs2 = some x) :
    (r.st (r.decodeOf c)).readSrc2Dat = (r.arch c).x x := by
  have hi : Decode.rs2Idx (r.st (r.decodeOf c)).if2de.intr = x := by
    rw [h.word]
    exact Decode.rs2Idx_encode i x hs
  have hn : (r.st (r.decodeOf c)).rs2Need = true := by rw [(h.needs hx).2.2, hs]; rfl
  have hu := (r.unwritten_of_reads _ c x h.commits rfl (.inr ⟨hn, hi⟩)).1
  rw [Cpu.readSrc2Dat, hi]
  exact hu.symm

end Retires

-- The parts of the architectural state after a cycle.

theorem x_succ (t : Nat) : (r.arch (t + 1)).x =
    if (r.st t).regWen then
      ((r.arch t).write (r.st t).commitIn.issue.rdIdx (r.st t).commitIn.rdData).x
    else (r.arch t).x := by
  funext x
  refine (Regfile.read_next (r.st t).regfile (r.st t).regWen (r.st t).commitIn.issue.rdIdx
    (r.st t).commitIn.rdData x).trans ?_
  cases (r.st t).regWen with
  | false => simp [arch]
  | true => simp [Machine.write, arch]

theorem mem_succ (t : Nat) : (r.arch (t + 1)).mem =
    if (r.st t).commits && Decode.storeOp (r.st (r.decodeOf t)).if2de.intr &&
        (r.st t).commitIn.info.excp == 0#16
    then Bytes.ofWords (applyCmd (r.storeCmd (r.decodeOf t)) (r.dtcmAfter (r.committedStores t)))
    else (r.arch t).mem := by
  change Bytes.ofWords (r.dtcmAfter (r.committedStores (t + 1))) = _
  rw [committedStores]
  change Bytes.ofWords (r.dtcmAfter (if (r.st t).commits && Decode.storeOp
    (r.st (r.decodeOf t)).if2de.intr && (r.st t).commitIn.info.excp == 0#16 then _ else _)) = _
  split
  · rw [dtcmAfter, dtcmAfter, List.foldl_append]
    rfl
  · rfl

theorem regWen_eq (s : Cpu) :
    s.regWen = (s.commits && s.commitIn.info.excp == 0#16 && s.commitIn.issue.rdNeed) := by
  change (s.commits && !(s.commits && !(s.commitIn.info.excp == 0#16)) && _) = _
  cases s.commits <;> cases (s.commitIn.info.excp == 0#16) <;> rfl

theorem arch_of_not_commits (t : Nat) (h : (r.st t).commits = false) :
    r.arch (t + 1) = r.arch t := by
  refine Machine.ext ?_ ?_ ?_ ?_
  · change r.retirePc (t + 1) = _
    rw [retirePc, h]
    rfl
  · rw [x_succ, regWen_eq, h]
    rfl
  · rw [mem_succ, h]
    rfl
  · exact Csr.reg_next_of_not_valid (r.st t).csr (r.st t).csrIn h

theorem flushPc_of_excp (s : Cpu) (hc : s.commits = true) (hx : s.commitIn.info.excp ≠ 0#16) :
    s.flush = true ∧ s.flushPc = s.csr.mtvec := by
  have hc' : Commit.commits s.commitIn = true := hc
  have he : Commit.excpEn s.commitIn = true := by simp [Commit.excpEn, hc', hx]
  refine ⟨by simp [Cpu.flush, Commit.flush, hc', he], ?_⟩
  rw [Cpu.flushPc, Commit.flushPc, he, Bool.true_or, if_pos rfl]
  rfl

-- A commit with an exception is a trap and nothing else.
theorem arch_of_excp (t : Nat) (code : BitVec 4) (hc : (r.st t).commits = true)
    (hx : (r.st t).commitIn.info.excp ≠ 0#16)
    (hcode : Csr.lowestIdx (r.st t).commitIn.info.excp = code) :
    r.arch (t + 1) = ((r.arch t).goto (r.st t).commitPc).trap code := by
  have hb : ((r.st t).commitIn.info.excp == 0#16) = false := beq_eq_false_iff_ne.mpr hx
  refine Machine.ext ?_ ?_ ?_ ?_
  · obtain ⟨hf, hp⟩ := flushPc_of_excp _ hc hx
    change r.retirePc (t + 1) = _
    rw [retirePc, hc, hf, hp]
    rfl
  · rw [x_succ, regWen_eq, hb, Bool.and_false]
    rfl
  · rw [mem_succ, hb, Bool.and_false]
    rfl
  · have he : Csr.excpEn (r.st t).csrIn.commit = true := by
      have hv : (r.st t).csrIn.commit.valid = true := hc
      have hn : (r.st t).csrIn.commit.excp ≠ 0#16 := hx
      simp [Csr.excpEn, hv, hn]
    have hp : (r.st t).csrIn.commit.pc = (r.st t).commitPc := rfl
    have hi : Csr.excpIdx (r.st t).csrIn.commit = code := hcode
    funext k
    refine (Csr.reg_next_of_excp (r.st t).csr (r.st t).csrIn he k).trans ?_
    rw [hp, hi]
    cases k <;> simp [Machine.trap, Machine.setCsr, Machine.goto, arch, Csr.reg]

-- Without an exception the program goes on where the instruction says, but for an interrupt.
theorem retirePc_succ (t : Nat) (hc : (r.st t).commits = true)
    (hx : (r.st t).commitIn.info.excp = 0#16) : r.retirePc (t + 1) =
      if Commit.csrIrq (r.st t).commitIn ≠ 0#12 then (r.st t).csr.mtvec
      else if (r.st t).commitIn.issue.mretOp && !(r.st t).commitIn.issue.fenceIOp
        then (r.st t).csr.mepc else (r.st t).commitIn.issue.nextPc := by
  have hc' : Commit.commits (r.st t).commitIn = true := hc
  have he : Commit.excpEn (r.st t).commitIn = false := by simp [Commit.excpEn, hx]
  rw [retirePc, hc, if_pos rfl, Cpu.flush, Cpu.flushPc, Commit.flush, Commit.flushPc, he, hc']
  by_cases hq : Commit.csrIrq (r.st t).commitIn = 0#12
  · have hi : Commit.irqEn (r.st t).commitIn = false := by simp [Commit.irqEn, hq]
    rw [hi, if_neg (not_not.mpr hq)]
    cases hf : (r.st t).commitIn.issue.fenceIOp <;> cases hm : (r.st t).commitIn.issue.mretOp <;> rfl
  · have hi : Commit.irqEn (r.st t).commitIn = true := by simp [Commit.irqEn, hc', hq]
    rw [hi, if_pos hq]
    rfl

-- What the entry says about the commit.

theorem irqAt_of_calm (hq : Commit.csrIrq (r.st c).commitIn = 0#12) : r.irqAt c = none := by
  rw [irqAt, hq, bne_self_eq_false, Bool.and_false]
  rfl

theorem irqAt_of_irq (hc : (r.st c).commits = true) (hx : (r.st c).commitIn.info.excp = 0#16)
    (hq : Commit.csrIrq (r.st c).commitIn ≠ 0#12) :
    r.irqAt c = some (Csr.irqIdx (Commit.toCsr (r.st c).commitIn)) := by
  rw [irqAt, hc, hx, bne_iff_ne.mpr hq]
  rfl

-- Neither an mret nor an access to mtvec.
theorem interruptible_iff : i.interruptible = true ↔
    i.isMret = false ∧ (i.csrIdx == some CsrReg.mtvec.idx) = false := by
  cases i with
  | csr op rd src idx =>
    simp [Instr.interruptible, Instr.isMret, Instr.csrIdx, csrReg_eq_some_iff]
  | _ => simp [Instr.interruptible, Instr.isMret, Instr.csrIdx]

section Retires

variable (h : r.Retires c i)
include h

theorem Retires.commitPc : (r.st c).commitIn.info.pc = (r.arch c).pc :=
  (commitPc_owner c h.commits).trans h.pc

theorem Retires.flags : (r.st c).commitIn.issue.fenceIOp = i.isFenceI ∧
    (r.st c).commitIn.issue.mretOp = i.isMret := by
  obtain ⟨h1, h2⟩ := Decode.flags_encode i
  rw [← h.word] at h1 h2
  rw [h.issue]
  exact ⟨h1, h2⟩

theorem Retires.wr (hx : (r.st c).commitIn.info.excp = 0#16) (idx : BitVec 12) :
    Csr.wr idx (r.st c).csrIn.commit = (i.csrIdx == some idx) := by
  have hw : Csr.wr idx (r.st c).csrIn.commit =
      ((r.st (r.decodeOf c)).robIssue.csrIdx == idx && (r.st (r.decodeOf c)).robIssue.csrNeed) := by
    have hv : (r.st c).csrIn.commit.valid = true := h.commits
    have he : (r.st c).csrIn.commit.excp = 0#16 := hx
    rw [Csr.wr, Csr.csrWrEn, Csr.excpEn, hv, he, ← h.issue]
    simp [Cpu.csrIn, Commit.toCsr]
  have hn : (r.st (r.decodeOf c)).robIssue.csrNeed = decide (i.unit = .csr) := by
    rw [← h.unitOf]
    exact (Decode.sel_unit _).2.2.2.1
  rw [hw, hn]
  cases i with
  | csr op rd src k =>
    have hk : (r.st (r.decodeOf c)).robIssue.csrIdx = k := by
      change Decode.csrIdx (r.st (r.decodeOf c)).if2de.intr = k
      rw [h.word]
      exact (Decode.isCsrOp_encode op rd src k).csrIdx
    rw [hk]
    simp [Instr.unit, Instr.csrIdx]
  | _ => simp [Instr.unit, Instr.csrIdx]

theorem Retires.trap (code : BitVec 4) (hx : (r.st c).commitIn.info.excp ≠ 0#16)
    (hcode : Csr.lowestIdx (r.st c).commitIn.info.excp = code) :
    r.arch (c + 1) = (r.arch c).trap code ∧ r.irqAt c = none := by
  have hp : (r.st c).commitPc = (r.arch c).pc := h.commitPc
  have hb : ((r.st c).commitIn.info.excp == 0#16) = false := beq_eq_false_iff_ne.mpr hx
  constructor
  · rw [arch_of_excp c code h.commits hx hcode, hp]
    rfl
  · rw [irqAt, hb, Bool.and_false]
    rfl

-- A commit without exception is the instruction, and then the interrupt if there is one.
theorem Retires.take (hx : (r.st c).commitIn.info.excp = 0#16) (m m' : Machine)
    (hpc : m.pc = if i.isMret then (r.st c).csr.mepc else (r.st c).commitIn.issue.nextPc)
    (hreg : m.x = (r.arch (c + 1)).x) (hmem : m.mem = (r.arch (c + 1)).mem)
    (hcsr : ∀ k, m.csr k = dfflr (Csr.wr k.idx (r.st c).csrIn.commit && k.writable)
      (k.legalize (r.st c).commitIn.csrData) ((r.arch c).csr k))
    (ht : Machine.take i (r.irqAt c) m = some m') : r.arch (c + 1) = m' := by
  have hp := retirePc_succ c h.commits hx
  have hr := Csr.reg_next_of_not_excp (r.st c).csr (r.st c).csrIn h.commits hx
  have hfm : ((r.st c).commitIn.issue.mretOp && !(r.st c).commitIn.issue.fenceIOp) =
      i.isMret := by
    rw [h.flags.1, h.flags.2]
    cases i <;> rfl
  rw [hfm] at hp
  by_cases hq : Commit.csrIrq (r.st c).commitIn = 0#12
  · have hz : (r.st c).csrIn.commit.irq = 0#12 := hq
    rw [irqAt_of_calm hq] at ht
    obtain rfl := Option.some.inj ht
    refine Machine.ext ?_ hreg.symm hmem.symm ?_
    · change r.retirePc (c + 1) = _
      rw [hp, if_neg (not_not.mpr hq), hpc]
    · funext k
      refine (hr k).trans ?_
      rw [hz, hcsr]
      simp
      rfl
  · have hz : (r.st c).csrIn.commit.irq ≠ 0#12 := hq
    rw [irqAt_of_irq h.commits hx hq, Machine.take] at ht
    split at ht
    · next hint =>
      obtain rfl := Option.some.inj ht
      obtain ⟨hm, hv⟩ := interruptible_iff.mp hint
      refine Machine.ext ?_ hreg.symm hmem.symm ?_
      · change r.retirePc (c + 1) = m.csr .mtvec
        rw [hp, if_pos hq, hcsr, h.wr hx, hv]
        rfl
      · rw [hm, if_neg Bool.false_ne_true] at hpc
        funext k
        refine (hr k).trans ?_
        cases k <;> simp [Machine.interrupt, Machine.setCsr, Machine.goto, hz, hcsr, hpc] <;> rfl
    · exact absurd ht (by simp)

theorem Retires.excp_of_ne (hu : i.unit ≠ .lsu) : (r.st c).commitIn.info.excp = i.excp :=
  (r.excp_of_commits c h.commits (by rw [← decodeOf, h.unitOf]; exact hu)).trans h.deExcp

theorem Retires.nextPc_of_ne (hu : i.unit ≠ .bjp) :
    (r.st c).commitIn.issue.nextPc = (r.arch c).pc + 4#32 := by
  have hs : Decode.branchSel (r.st (r.decodeOf c)).if2de.intr = false := by
    rw [(Decode.sel_unit _).1]
    have hunit : Decode.unit (r.st (r.decodeOf c)).if2de.intr = i.unit := h.unitOf
    rw [hunit]
    exact decide_eq_false hu
  have hb : (r.st (r.decodeOf c)).branch = false := by
    simp [Cpu.branch, Branch.branch, Cpu.branchEn, hs]
  rw [h.issue]
  change (r.st (r.decodeOf c)).robNextPc = _
  rw [robNextPc_of_not_branch _ hb, h.pc]
  rfl

theorem Retires.mem_eq (hs : i.isStore = false) : (r.arch (c + 1)).mem = (r.arch c).mem := by
  rw [mem_succ, h.word, Decode.storeOp_encode, hs, Bool.and_false]
  rfl

section Retired

variable (hx : (r.st c).commitIn.info.excp = 0#16)
include hx

theorem Retires.excp_zero : i.excp = 0#16 := by
  by_cases hu : i.unit = .lsu
  · exact Instr.excp_of_unit (by rw [hu]; decide)
  · rw [← h.excp_of_ne hu]
    exact hx

theorem Retires.x_eq : (r.arch (c + 1)).x = match i.rd with
    | some rd => ((r.arch c).write rd (r.st c).commitIn.rdData).x
    | none => (r.arch c).x := by
  have hn : (r.st c).commitIn.issue.rdNeed = i.rd.isSome := by
    rw [h.issue]
    exact (h.needs (h.excp_zero hx)).1
  have hw : (r.st c).regWen = i.rd.isSome := by
    rw [regWen_eq, h.commits, hx, hn]
    rfl
  rw [x_succ, hw]
  cases hrd : i.rd with
  | none => rfl
  | some rd =>
    have hidx : (r.st c).commitIn.issue.rdIdx = rd := by
      rw [h.issue]
      change Decode.rdIdx (r.st (r.decodeOf c)).if2de.intr = rd
      rw [h.word]
      exact Decode.rdIdx_encode i rd hrd
    rw [hidx]
    rfl

-- The instructions that leave the memory and the csrs alone.

theorem Retires.jumps (m' : Machine) (p : BitVec 32) (hrd : i.rd = none) (hs : i.isStore = false)
    (hn : i.csrIdx = none)
    (hp : p = if i.isMret then (r.st c).csr.mepc else (r.st c).commitIn.issue.nextPc)
    (ht : Machine.take i (r.irqAt c) ((r.arch c).goto p) = some m') : r.arch (c + 1) = m' := by
  refine h.take hx ((r.arch c).goto p) m' hp ?_ (h.mem_eq hs).symm (fun k => ?_) ht
  · rw [h.x_eq hx, hrd]
    rfl
  · rw [h.wr hx, hn]
    rfl

theorem Retires.writes (m' : Machine) (p : BitVec 32) (rd : BitVec 5) (v : BitVec 32)
    (hrd : i.rd = some rd) (hn : i.csrIdx = none) (hp : p = (r.st c).commitIn.issue.nextPc)
    (hv : (r.st c).commitIn.rdData = v)
    (ht : Machine.take i (r.irqAt c) (((r.arch c).write rd v).goto p) = some m') :
    r.arch (c + 1) = m' := by
  have hk := Instr.flags_of_rd hrd
  refine h.take hx (((r.arch c).write rd v).goto p) m' ?_ ?_ (h.mem_eq hk.1).symm
    (fun k => ?_) ht
  · rw [hk.2]
    exact hp
  · rw [h.x_eq hx, hrd, hv]
    rfl
  · rw [h.wr hx, hn]
    rfl

end Retired

end Retires

end Run

end HiCore
