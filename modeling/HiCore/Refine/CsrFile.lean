import HiCore.Isa.Rv32i
import HiCore.Lib.Word
import HiCore.Rtl.Csr

-- The registers of `HiCore_csr.v` as a file of values: what a read returns, what
-- a cycle leaves alone and what a write leaves behind.
namespace HiCore.Csr

attribute [ext] Csr

-- The register that an index names; an index without a register reads as 0.
def value (s : Csr) (idx : BitVec 12) : BitVec 32 :=
  if idx = mstatusIdx then s.mstatusR
  else if idx = mieIdx then s.mie
  else if idx = mtvecIdx then s.mtvec
  else if idx = mepcIdx then s.mepc
  else if idx = mscratchIdx then s.mscratch
  else if idx = mcauseIdx then s.mcause
  else if idx = mtvalIdx then s.mtval
  else if idx = mipIdx then s.mipR
  else if idx = misaIdx then 0x80000100#32
  else if idx = marchidIdx then 5#32
  else if idx = mcycleIdx then s.mcycle
  else if idx = mcyclehIdx then s.mcycleh
  else if idx = minstretIdx then s.minstret
  else if idx = minstrethIdx then s.minstreth
  else 0#32

theorem rdSel_eq (s : Csr) (i : In) (idx : BitVec 12) (v : BitVec 32) (h : s.csrRdEn i = true) :
    s.rdSel i idx v = if i.issue.csrIdx = idx then v else 0#32 := by
  simp [rdSel, h]

def indices : List (BitVec 12) :=
  [mstatusIdx, mieIdx, mtvecIdx, mepcIdx, mscratchIdx, mcauseIdx, mtvalIdx, mipIdx, misaIdx,
    mvendoridIdx, marchidIdx, mimpidIdx, mhartidIdx, mcycleIdx, mcyclehIdx, minstretIdx,
    minstrethIdx]

theorem csrRdata_eq (s : Csr) (i : In) (h : s.csrRdEn i = true) :
    s.csrRdata i = s.value i.issue.csrIdx := by
  simp only [csrRdata, rdSel_eq s i _ _ h, value]
  generalize i.issue.csrIdx = idx
  by_cases hm : idx ∈ indices
  · -- The indices are distinct, so one term of the or is left.
    simp only [indices, List.mem_cons, List.not_mem_nil, or_false] at hm
    rcases hm with rfl | rfl | rfl | rfl | rfl | rfl | rfl | rfl | rfl | rfl | rfl | rfl | rfl |
      rfl | rfl | rfl | rfl <;>
      simp [mstatusIdx, mieIdx, mtvecIdx, mepcIdx, mscratchIdx, mcauseIdx, mtvalIdx, mipIdx, misaIdx,
        mvendoridIdx, marchidIdx, mimpidIdx, mhartidIdx, mcycleIdx, mcyclehIdx, minstretIdx,
        minstrethIdx]
  · simp only [indices, List.mem_cons, List.not_mem_nil, or_false, not_or] at hm
    simp [hm]

theorem csrWdata_eval (s : Csr) (i : In) (op : Isa.CsrOp) (h : i.issue.csrMsg = op.funct3) :
    s.csrWdata i = op.eval (s.csrRdata i) i.issue.csrRegSrc := by
  cases op <;> simp [csrWdata, h, Isa.CsrOp.funct3, Isa.CsrOp.eval]

-- The counters advance on their own.
def tick (s : Csr) (c : Commit) (idx : BitVec 12) : Bool :=
  if idx = mcycleIdx then true
  else if idx = mcyclehIdx then s.mcycle == BitVec.allOnes 32
  else if idx = minstretIdx then c.valid
  else if idx = minstrethIdx then c.valid && s.minstret == BitVec.allOnes 32
  else false

-- Neither a trap nor an mret changes register `idx` in the cycle. The mret flag
-- reaches mstatus alone.
structure Calm (idx : BitVec 12) (c : Commit) : Prop where
  excp : excpEn c = false
  irq : irqEn c = false
  mret : idx = mstatusIdx → c.mretOp = false

section Names

variable (s : Csr)

theorem value_mstatus : s.value mstatusIdx = s.mstatusR := rfl
theorem value_mie : s.value mieIdx = s.mie := rfl
theorem value_mtvec : s.value mtvecIdx = s.mtvec := rfl
theorem value_mscratch : s.value mscratchIdx = s.mscratch := rfl
theorem value_mcause : s.value mcauseIdx = s.mcause := rfl
theorem value_mtval : s.value mtvalIdx = s.mtval := rfl
theorem value_mcycle : s.value mcycleIdx = s.mcycle := rfl
theorem value_mcycleh : s.value mcyclehIdx = s.mcycleh := rfl
theorem value_minstret : s.value minstretIdx = s.minstret := rfl
theorem value_minstreth : s.value minstrethIdx = s.minstreth := rfl

end Names

section Next

variable (s : Csr) (i : In)

theorem mstatusR_next (hc : Calm mstatusIdx i.commit) (hw : wr mstatusIdx i.commit = false) :
    (s.next i).mstatusR = s.mstatusR := by
  have he : statusMieEna i.commit = false := by simp [statusMieEna, hw, hc.excp, hc.irq, hc.mret rfl]
  simp [mstatusR, next, he]

theorem mepc_next (hc : Calm mepcIdx i.commit) (hw : wr mepcIdx i.commit = false) :
    (s.next i).mepc = s.mepc := by
  simp [next, hc.excp, hc.irq, hw]

-- One more when the enable is up, for each half of the two counters.

theorem mcycle_next (hw : wr mcycleIdx i.commit = false) : (s.next i).mcycle = s.mcycle + 1#32 := by
  simp [next, mcycleNxt, hw]

theorem mcycleh_next (hw : wr mcyclehIdx i.commit = false) : (s.next i).mcycleh =
    if s.mcycle = BitVec.allOnes 32 then s.mcycleh + 1#32 else s.mcycleh := by
  simp [next, mcyclehEna, mcyclehNxt, hw, dfflr]

theorem minstret_next (hw : wr minstretIdx i.commit = false) : (s.next i).minstret =
    if i.commit.valid then s.minstret + 1#32 else s.minstret := by
  simp [next, minstretEna, minstretNxt, hw, dfflr]

theorem minstreth_next (hw : wr minstrethIdx i.commit = false) : (s.next i).minstreth =
    if i.commit.valid = true ∧ s.minstret = BitVec.allOnes 32 then s.minstreth + 1#32
    else s.minstreth := by
  simp [next, minstrethEna, minstrethNxt, hw, dfflr]

end Next

def counters : List (BitVec 12) := [mcycleIdx, mcyclehIdx, minstretIdx, minstrethIdx]

theorem tick_of_not_mem (s : Csr) (c : Commit) (idx : BitVec 12) (h : idx ∉ counters) :
    s.tick c idx = false := by
  simp only [counters, List.mem_cons, List.not_mem_nil, or_false, not_or] at h
  simp [tick, h]

theorem value_next_of_mem (s : Csr) (i : In) (idx : BitVec 12) (hw : wr idx i.commit = false)
    (hm : idx ∈ counters) :
    (s.next i).value idx = s.value idx + (BitVec.ofBool (s.tick i.commit idx)).setWidth 32 := by
  simp only [counters, List.mem_cons, List.not_mem_nil, or_false] at hm
  rcases hm with rfl | rfl | rfl | rfl
  · have ht : s.tick i.commit mcycleIdx = true := rfl
    rw [value_mcycle, value_mcycle, ht, mcycle_next s i hw]
    rfl
  · have ht : s.tick i.commit mcyclehIdx = (s.mcycle == BitVec.allOnes 32) := rfl
    rw [value_mcycleh, value_mcycleh, ht, mcycleh_next s i hw]
    by_cases h : s.mcycle = BitVec.allOnes 32
    · simp [h]
    · rw [if_neg h, beq_false_of_ne h]
      simp
  · have ht : s.tick i.commit minstretIdx = i.commit.valid := rfl
    rw [value_minstret, value_minstret, ht, minstret_next s i hw]
    cases i.commit.valid <;> simp
  · have ht : s.tick i.commit minstrethIdx =
        (i.commit.valid && s.minstret == BitVec.allOnes 32) := rfl
    rw [value_minstreth, value_minstreth, ht, minstreth_next s i hw]
    by_cases h : s.minstret = BitVec.allOnes 32
    · cases i.commit.valid <;> simp [h]
    · rw [if_neg (fun hn => h hn.2), beq_false_of_ne h, Bool.and_false]
      simp

theorem value_next_of_wr_counter (s : Csr) (i : In) (idx : BitVec 12) (hw : wr idx i.commit = true)
    (hm : idx ∈ counters) : (s.next i).value idx = i.commit.csrData := by
  simp only [counters, List.mem_cons, List.not_mem_nil, or_false] at hm
  rcases hm with rfl | rfl | rfl | rfl
  · simp [value_mcycle, next, mcycleNxt, hw]
  · simp [value_mcycleh, next, mcyclehEna, mcyclehNxt, hw]
  · simp [value_minstret, next, minstretEna, minstretNxt, hw]
  · simp [value_minstreth, next, minstrethEna, minstrethNxt, hw]

theorem value_next_of_not_mem (s : Csr) (i : In) (idx : BitVec 12) (hc : Calm idx i.commit)
    (hw : wr idx i.commit = false) (hp : idx ≠ mipIdx) (hm : idx ∉ counters) :
    (s.next i).value idx = s.value idx := by
  by_cases h1 : idx = mstatusIdx
  · subst h1
    exact s.mstatusR_next i hc hw
  by_cases h2 : idx = mieIdx
  · subst h2
    simp [value_mie, next, hw]
  by_cases h3 : idx = mtvecIdx
  · subst h3
    simp [value_mtvec, next, hw]
  by_cases h4 : idx = mepcIdx
  · subst h4
    exact s.mepc_next i hc hw
  by_cases h5 : idx = mscratchIdx
  · subst h5
    simp [value_mscratch, next, hw]
  by_cases h6 : idx = mcauseIdx
  · subst h6
    simp [value_mcause, next, hc.excp, hc.irq]
  by_cases h7 : idx = mtvalIdx
  · subst h7
    simp [value_mtval, next, hc.excp]
  · simp only [counters, List.mem_cons, List.not_mem_nil, or_false, not_or] at hm
    simp only [value, h1, h2, h3, h4, h5, h6, h7, hp, hm, if_false]

-- A register that is not written moves only by its own tick. The pending bits
-- of mip follow the interrupt lines.
theorem value_next (s : Csr) (i : In) (idx : BitVec 12) (hc : Calm idx i.commit)
    (hw : wr idx i.commit = false) (hp : idx ≠ mipIdx) :
    (s.next i).value idx = s.value idx + (BitVec.ofBool (s.tick i.commit idx)).setWidth 32 := by
  by_cases hm : idx ∈ counters
  · exact s.value_next_of_mem i idx hw hm
  · rw [s.value_next_of_not_mem i idx hc hw hp hm, s.tick_of_not_mem _ idx hm]
    simp

-- The bits of a register that exist.
def implemented (idx : BitVec 12) (v : BitVec 32) : BitVec 32 :=
  if idx = mieIdx then irqBits (v.getLsbD 11) (v.getLsbD 7) (v.getLsbD 3) else v

theorem implemented_irqBits (e t b : Bool) :
    implemented mieIdx (irqBits e t b) = irqBits e t b := by
  cases e <;> cases t <;> cases b <;> decide

theorem mie_next (s : Csr) (i : In) (h : implemented mieIdx s.mie = s.mie) :
    implemented mieIdx (s.next i).mie = (s.next i).mie := by
  have hn : (s.next i).mie = if wr mieIdx i.commit then mieNxt i.commit else s.mie := rfl
  rw [hn]
  split
  · exact implemented_irqBits _ _ _
  · exact h

-- The registers that software writes and that only a trap changes otherwise.
def plain : List (BitVec 12) := [mieIdx, mtvecIdx, mscratchIdx, mepcIdx]

theorem not_mem_of_plain (idx : BitVec 12) (h : idx ∈ plain) : idx ≠ mipIdx ∧ idx ∉ counters := by
  simp only [plain, List.mem_cons, List.not_mem_nil, or_false] at h
  rcases h with rfl | rfl | rfl | rfl <;> decide

theorem value_next_of_wr (s : Csr) (i : In) (idx : BitVec 12) (hi : idx ∈ plain)
    (hx : excpEn i.commit = false) (hq : irqEn i.commit = false) (hw : wr idx i.commit = true) :
    (s.next i).value idx = implemented idx i.commit.csrData := by
  simp only [plain, List.mem_cons, List.not_mem_nil, or_false] at hi
  rcases hi with rfl | rfl | rfl | rfl
  · have h : (s.next i).mie = mieNxt i.commit := by simp [next, hw]
    exact h
  · have h : (s.next i).mtvec = i.commit.csrData := by simp [next, hw]
    exact h
  · have h : (s.next i).mscratch = i.commit.csrData := by simp [next, hw]
    exact h
  · have h : (s.next i).mepc = i.commit.csrData := by simp [next, hw, mepcNxt, hx, hq]
    exact h

-- The registers that the table of the unit marks as writable, the counters
-- apart, and the bits of them that exist.
def writable : List (BitVec 12) :=
  [mstatusIdx, mieIdx, mtvecIdx, mscratchIdx, mepcIdx, mcauseIdx, mtvalIdx]

def writableBits (idx : BitVec 12) : BitVec 32 :=
  if idx = mstatusIdx then 0x88#32 else if idx = mieIdx then 0x888#32 else BitVec.allOnes 32

theorem not_mem_of_writable (idx : BitVec 12) (h : idx ∈ writable) :
    idx ≠ mipIdx ∧ idx ∉ counters := by
  simp only [writable, List.mem_cons, List.not_mem_nil, or_false] at h
  rcases h with rfl | rfl | rfl | rfl | rfl | rfl | rfl <;> decide

theorem implemented_and_writableBits (idx : BitVec 12) (v : BitVec 32) (hi : idx ∈ plain) :
    implemented idx v &&& writableBits idx = v &&& writableBits idx := by
  by_cases hm : idx = mieIdx
  · subst hm
    have hbits : ∀ i < 32, (writableBits mieIdx).getLsbD i = true → i = 3 ∨ i = 7 ∨ i = 11 := by
      decide +kernel
    have h : implemented mieIdx v = irqBits (v.getLsbD 11) (v.getLsbD 7) (v.getLsbD 3) := rfl
    rw [Word.and_eq_and_iff, h]
    intro i hi hb
    rcases hbits i hi hb with rfl | rfl | rfl
    · cases v.getLsbD 11 <;> cases v.getLsbD 7 <;> cases v.getLsbD 3 <;> rfl
    · cases v.getLsbD 11 <;> cases v.getLsbD 7 <;> cases v.getLsbD 3 <;> rfl
    · cases v.getLsbD 11 <;> cases v.getLsbD 7 <;> cases v.getLsbD 3 <;> rfl
  · rw [implemented, if_neg hm]

-- The same commit by an instruction that accesses no CSR.
def In.noAccess (i : In) : In := { i with commit := { i.commit with csrNeed := false } }

theorem wr_noAccess (i : In) (idx : BitVec 12) : wr idx i.noAccess.commit = false := by
  simp [wr, csrWrEn, In.noAccess]

theorem getLsbD_mstatusR (s : Csr) :
    s.mstatusR.getLsbD 3 = s.statusMie ∧ s.mstatusR.getLsbD 7 = s.statusMpie := by
  simp only [mstatusR, BitVec.getLsbD_append, Nat.reduceLT, Nat.reduceSub, reduceIte]
  cases s.statusMie <;> cases s.statusMpie <;> decide

theorem mstatusR_and_writableBits_iff (s : Csr) (v : BitVec 32) :
    s.mstatusR &&& writableBits mstatusIdx = v &&& writableBits mstatusIdx ↔
      s.statusMie = v.getLsbD 3 ∧ s.statusMpie = v.getLsbD 7 := by
  have hbits : ∀ i < 32, (writableBits mstatusIdx).getLsbD i = true → i = 3 ∨ i = 7 := by
    decide +kernel
  obtain ⟨h3, h7⟩ := s.getLsbD_mstatusR
  rw [Word.and_eq_and_iff, ← h3, ← h7]
  constructor
  · intro h
    exact ⟨h 3 (by decide) (by decide), h 7 (by decide) (by decide)⟩
  · rintro ⟨hm, hp⟩ i hi hb
    rcases hbits i hi hb with rfl | rfl
    · exact hm
    · exact hp

-- A cycle in which no trap, no mret and no write of register `idx` commits.
structure Quiet (idx : BitVec 12) (c : Commit) : Prop where
  excp : excpEn c = false
  irq : irqEn c = false
  mret : c.valid = true → c.mretOp = false
  wr : wr idx c = false

theorem Quiet.of_not_valid {c : Commit} (idx : BitVec 12) (h : c.valid = false) : Quiet idx c where
  excp := by simp [excpEn, h]
  irq := by simp [irqEn, h]
  mret hv := by simp [h] at hv
  wr := by simp [HiCore.Csr.wr, csrWrEn, h]

-- Off mstatus the mret flag has no effect.
theorem Quiet.calm {idx : BitVec 12} {c : Commit} (h : Quiet idx c) (hn : idx ≠ mstatusIdx) :
    Calm idx c := ⟨h.excp, h.irq, fun he => absurd he hn⟩

-- On mstatus it works in every cycle, whether something commits or not.
theorem status_next_of_quiet (s : Csr) (i : In) (h : Quiet mstatusIdx i.commit) :
    (s.next i).statusMie = (if i.commit.mretOp then s.statusMpie else s.statusMie) ∧
      (s.next i).statusMpie = (i.commit.mretOp || s.statusMpie) := by
  simp only [next, statusMieEna, statusMieNxt, statusMpieNxt, h.excp, h.irq, h.wr]
  cases i.commit.mretOp <;> simp

theorem status_next_of_wr (s : Csr) (i : In) (hx : excpEn i.commit = false)
    (hq : irqEn i.commit = false) (hm : i.commit.mretOp = false)
    (hw : HiCore.Csr.wr mstatusIdx i.commit = true) :
    (s.next i).statusMie = i.commit.csrData.getLsbD 3 ∧
      (s.next i).statusMpie = i.commit.csrData.getLsbD 7 := by
  simp [next, statusMieEna, statusMieNxt, statusMpieNxt, hx, hq, hm, hw]

-- There is no path from a csr write to these two.
theorem cause_next (s : Csr) (i : In) (hx : excpEn i.commit = false) (hq : irqEn i.commit = false) :
    (s.next i).mcause = s.mcause ∧ (s.next i).mtval = s.mtval := by
  simp [next, hx, hq]

section NoAccess

variable (s : Csr) (i : In)

-- A write of the value that is there changes nothing.

theorem status_noAccess (hm : i.commit.mretOp = false)
    (hd : wr mstatusIdx i.commit = true → i.commit.csrData = s.mstatusR) :
    (s.next i).statusMie = (s.next i.noAccess).statusMie ∧
      (s.next i).statusMpie = (s.next i.noAccess).statusMpie := by
  have hx : excpEn i.noAccess.commit = excpEn i.commit := rfl
  have hq : irqEn i.noAccess.commit = irqEn i.commit := rfl
  have hm' : i.noAccess.commit.mretOp = false := hm
  simp only [next, statusMieEna, statusMieNxt, statusMpieNxt, wr_noAccess, hx, hq, hm, hm']
  cases ht : (excpEn i.commit || irqEn i.commit) with
  | true => simp [Bool.or_assoc, ht]
  | false =>
    obtain ⟨h1, h2⟩ := Bool.or_eq_false_iff.mp ht
    cases hw : wr mstatusIdx i.commit with
    | false => simp [h1, h2]
    | true =>
      obtain ⟨h3, h7⟩ := s.getLsbD_mstatusR
      rw [hd hw]
      simp only [h1, h2, h3, h7]
      simp

theorem mie_noAccess (hs : implemented mieIdx s.mie = s.mie)
    (hd : wr mieIdx i.commit = true → i.commit.csrData = s.mie) :
    (s.next i).mie = (s.next i.noAccess).mie := by
  simp only [next, wr_noAccess, dfflr_false]
  cases hw : wr mieIdx i.commit with
  | false => rfl
  | true =>
    rw [dfflr_true, mieNxt, hd hw]
    exact hs

theorem mtvec_noAccess (hd : wr mtvecIdx i.commit = true → i.commit.csrData = s.mtvec) :
    (s.next i).mtvec = (s.next i.noAccess).mtvec := by
  simp only [next, wr_noAccess, dfflr_false]
  cases hw : wr mtvecIdx i.commit with
  | false => rfl
  | true => exact hd hw

theorem mscratch_noAccess (hd : wr mscratchIdx i.commit = true → i.commit.csrData = s.mscratch) :
    (s.next i).mscratch = (s.next i.noAccess).mscratch := by
  simp only [next, wr_noAccess, dfflr_false]
  cases hw : wr mscratchIdx i.commit with
  | false => rfl
  | true => exact hd hw

theorem mepc_noAccess (hd : wr mepcIdx i.commit = true → i.commit.csrData = s.mepc) :
    (s.next i).mepc = (s.next i.noAccess).mepc := by
  have hx : excpEn i.noAccess.commit = excpEn i.commit := rfl
  have hq : irqEn i.noAccess.commit = irqEn i.commit := rfl
  have hp : i.noAccess.commit.pc = i.commit.pc := rfl
  have hn : i.noAccess.commit.nextPc = i.commit.nextPc := rfl
  simp only [next, mepcNxt, wr_noAccess, hx, hq, hp, hn]
  cases hw : wr mepcIdx i.commit with
  | false => cases excpEn i.commit <;> cases irqEn i.commit <;> rfl
  | true =>
    rw [hd hw]
    cases excpEn i.commit <;> cases irqEn i.commit <;> rfl

-- The four halves of the counters, each on its own.
theorem counters_noAccess :
    (s.next i).mcycle = (if wr mcycleIdx i.commit then i.commit.csrData
      else (s.next i.noAccess).mcycle) ∧
    (s.next i).mcycleh = (if wr mcyclehIdx i.commit then i.commit.csrData
      else (s.next i.noAccess).mcycleh) ∧
    (s.next i).minstret = (if wr minstretIdx i.commit then i.commit.csrData
      else (s.next i.noAccess).minstret) ∧
    (s.next i).minstreth = (if wr minstrethIdx i.commit then i.commit.csrData
      else (s.next i.noAccess).minstreth) := by
  have hv : i.noAccess.commit.valid = i.commit.valid := rfl
  simp only [next, mcycleNxt, mcyclehEna, mcyclehNxt, minstretEna, minstretNxt, minstrethEna,
    minstrethNxt, wr_noAccess, hv]
  refine ⟨?_, ?_, ?_, ?_⟩
  · cases wr mcycleIdx i.commit <;> rfl
  · cases wr mcyclehIdx i.commit <;> rfl
  · cases wr minstretIdx i.commit <;> rfl
  · cases wr minstrethIdx i.commit <;> rfl

-- Everything but a counter is written back as it is; then the cycle leaves the
-- file as an instruction without access would, if the counters agree too.
theorem next_eq_noAccess_iff (hm : i.commit.mretOp = false)
    (hs : implemented mieIdx s.mie = s.mie) (hw : csrWrEn i.commit = true)
    (hd : i.commit.csrIdx ∉ counters → i.commit.csrIdx ≠ mipIdx →
      i.commit.csrData = s.value i.commit.csrIdx) :
    s.next i = s.next i.noAccess ↔
      (i.commit.csrIdx ∈ counters →
        i.commit.csrData = (s.next i.noAccess).value i.commit.csrIdx) := by
  have hwr (idx : BitVec 12) : wr idx i.commit = true ↔ i.commit.csrIdx = idx := by simp [wr, hw]
  obtain ⟨h1, h2, h3, h4⟩ := s.counters_noAccess i
  constructor
  · intro h hc
    rw [← h]
    simp only [counters, List.mem_cons, List.not_mem_nil, or_false] at hc
    rcases hc with he | he | he | he
    · rw [he, value_mcycle, h1, if_pos ((hwr _).mpr he)]
    · rw [he, value_mcycleh, h2, if_pos ((hwr _).mpr he)]
    · rw [he, value_minstret, h3, if_pos ((hwr _).mpr he)]
    · rw [he, value_minstreth, h4, if_pos ((hwr _).mpr he)]
  · intro h
    have hplain (idx : BitVec 12) (hn : idx ∉ counters) (hp : idx ≠ mipIdx)
        (hi : wr idx i.commit = true) : i.commit.csrData = s.value idx := by
      rw [hwr] at hi
      subst hi
      exact hd hn hp
    have hcount (idx : BitVec 12) (hn : idx ∈ counters) (hi : wr idx i.commit = true) :
        i.commit.csrData = (s.next i.noAccess).value idx := by
      rw [hwr] at hi
      subst hi
      exact h hn
    obtain ⟨hmie, hmpie⟩ := s.status_noAccess i hm (hplain mstatusIdx (by decide) (by decide))
    refine Csr.ext hmie hmpie (s.mie_noAccess i hs (hplain mieIdx (by decide) (by decide))) rfl rfl rfl
      (s.mtvec_noAccess i (hplain mtvecIdx (by decide) (by decide)))
      (s.mscratch_noAccess i (hplain mscratchIdx (by decide) (by decide))) ?_ ?_ ?_ ?_ rfl
      (s.mepc_noAccess i (hplain mepcIdx (by decide) (by decide))) rfl rfl
    · rw [h1, ite_eq_right_iff]
      exact hcount mcycleIdx (by decide)
    · rw [h2, ite_eq_right_iff]
      exact hcount mcyclehIdx (by decide)
    · rw [h3, ite_eq_right_iff]
      exact hcount minstretIdx (by decide)
    · rw [h4, ite_eq_right_iff]
      exact hcount minstrethIdx (by decide)

end NoAccess

end HiCore.Csr
