import HiCore.Refine.CsrFile
import HiCore.Refine.Encoding
import HiCore.Theorems.Operands
import HiCore.Theorems.WriteBack
import HiCore.Trace.Fetch
import HiCore.Trace.MemPath

-- The path of a csr instruction. It reads its register the cycle after decode
-- accepted it, is written back a cycle later and writes the register when it
-- commits; the scoreboard keeps other writers of the register out in between.
namespace HiCore.Run

open Rob (WbUnit)
open SlotState

variable (r : Run)

theorem de2ex_of_robWen (d : Nat) (h : (r.st d).robWen = true) :
    (r.st (d + 1)).de2ex.vld = true ∧ (r.st (d + 1)).de2ex.cancel = false ∧
      (r.st (d + 1)).deInfo = r.info d := by
  simp only [Cpu.robWen, Bool.and_eq_true, Bool.not_eq_true'] at h
  obtain ⟨⟨⟨hv, hr⟩, hc⟩, hf⟩ := h
  have hs : (r.st d).de2ex.vldSet false (r.st d).de2exIn = true :=
    Bool.and_eq_true_iff.mpr ⟨hv, hr⟩
  change ((r.st d).de2ex.next false (r.st d).de2exIn).vld = true ∧
    ((r.st d).de2ex.next false (r.st d).de2exIn).cancel = false ∧
    ((r.st d).de2ex.next false (r.st d).de2exIn).dat = _
  simp only [Pipe.next, hs]
  refine ⟨by simp, ?_, rfl⟩
  simp [Cpu.de2exIn, hf, hc]

-- An item of the issue register is the instruction under issue.
theorem vld_of_mem_de2ex (t d : Nat) (c : Bool) (h : (d, c) ∈ (r.tags t).de2ex) :
    (r.st t).de2ex.vld = true ∧ (r.st t).deInfo = r.info d := by
  cases hv : (r.st t).de2ex.vld with
  | false =>
    rw [Pipe.rel_of_not_vld (r.rel_de2ex t) hv] at h
    exact absurd h List.not_mem_nil
  | true =>
    obtain ⟨e, he, hi⟩ := r.de2ex_of_vld t hv
    rw [he, List.mem_singleton, Prod.mk.injEq] at h
    exact ⟨rfl, h.1 ▸ hi⟩

-- Only an access to memory waits in the issue register.
theorem eq_of_mem_de2ex (t d : Nat) (c : Bool) (h : (d, c) ∈ (r.tags t).de2ex)
    (hu : r.unitOf d ≠ .lsu) : t = d + 1 := by
  cases t with
  | zero => simp [tags, Tags.reset] at h
  | succ t =>
    change (d, c) ∈ Fifo.next _ (r.st t).issues _ (r.tags t).de2ex at h
    obtain ⟨c', hm | hm, -⟩ := Fifo.mem_next _ _ _ _ _ _ h
    · -- It was there before, so it has left unless it came in again.
      obtain ⟨hv, hi⟩ := r.vld_of_mem_de2ex t d c' hm
      have hiss : (r.st t).issues = true := by
        rw [(r.issues_of_unit t d hv hi).1, if_neg hu]
      rw [hiss] at h
      have hl : (r.tags t).de2ex.length ≤ 1 := by simpa [Fifo.tags] using r.length_de2ex t
      obtain ⟨c'', hp⟩ := Fifo.mem_next_of_pop _ _ _ hl d c h
      split at hp
      · rw [List.mem_singleton, Prod.mk.injEq] at hp
        omega
      · exact absurd hp List.not_mem_nil
    · split at hm
      · rw [List.mem_singleton, Prod.mk.injEq] at hm
        omega
      · exact absurd hm List.not_mem_nil

-- What the csr unit computes for the instruction decoded in cycle `d`.
def csrResult (d : Nat) : Csr2wb := ((r.st (d + 1)).csr.csr2wbIn (r.st (d + 1)).csrIn).iDat

-- A register that gives up its item in every cycle holds what has just come in.
theorem mem_push_of_mem {α : Type} {R : α → Nat → Prop} {p : Pipe α} {g : List (Nat × Bool)}
    (h : Fifo.Rel R p.items g) (flush : Bool) (push : List (Nat × Bool)) (d : Nat) (c : Bool)
    (hm : (d, c) ∈ Fifo.next flush p.vld push g) : ∃ c', (d, c') ∈ push := by
  cases hv : p.vld with
  | false =>
    rw [Pipe.rel_of_not_vld h hv] at hm
    obtain ⟨c', hm | hm, -⟩ := Fifo.mem_next _ _ _ _ _ _ hm
    · exact absurd hm List.not_mem_nil
    · exact ⟨c', hm⟩
  | true =>
    obtain ⟨e, he, -⟩ := Pipe.rel_of_vld h hv
    rw [hv, he] at hm
    exact Fifo.mem_next_of_pop _ _ _ (by simp) d c hm

theorem alu_of_mem (t d : Nat) (c : Bool) (h : (d, c) ∈ (r.tags t).alu) : t = d + 2 := by
  cases t with
  | zero => simp [tags, Tags.reset] at h
  | succ t =>
    obtain ⟨c', hm⟩ := mem_push_of_mem (r.rel_alu t) (r.st t).flush
      (if (r.st t).aluPush then (r.tags t).de2ex else []) d c h
    split at hm
    · next hp =>
      obtain ⟨hv, hi⟩ := r.vld_of_mem_de2ex t d c' hm
      have hu : r.unitOf d = .alu := by
        have := (r.issues_of_unit t d hv hi).2.1
        rw [hp] at this
        exact of_decide_eq_true this.symm
      rw [r.eq_of_mem_de2ex t d c' hm (by rw [hu]; decide)]
    · exact absurd hm List.not_mem_nil

theorem csr2wb_of_mem (t d : Nat) (c : Bool) (h : (d, c) ∈ (r.tags t).csr) :
    t = d + 2 ∧ (r.st t).csr.csr2wb.dat = r.csrResult d := by
  cases t with
  | zero => simp [tags, Tags.reset] at h
  | succ t =>
    obtain ⟨c', hm⟩ := mem_push_of_mem (r.rel_csr t) (r.st t).flush
      (if (r.st t).csrPush then (r.tags t).de2ex else []) d c h
    split at hm
    · next hp =>
      obtain ⟨hv, hi⟩ := r.vld_of_mem_de2ex t d c' hm
      have hu : r.unitOf d = .csr := by
        have := (r.issues_of_unit t d hv hi).2.2.1
        rw [hp] at this
        exact of_decide_eq_true this.symm
      obtain rfl := r.eq_of_mem_de2ex t d c' hm (by rw [hu]; decide)
      refine ⟨rfl, ?_⟩
      change ((r.st (d + 1)).csr.csr2wb.next false _).dat = _
      have hset : (r.st (d + 1)).csr.csr2wb.vldSet false
          ((r.st (d + 1)).csr.csr2wbIn (r.st (d + 1)).csrIn) = true := hp
      rw [Pipe.next, hset]
      rfl
    · exact absurd hm List.not_mem_nil

-- The entry that commits shows what the csr unit computed for it.
theorem csrResult_of_commits (c d : Nat) (hc : (r.st c).commits = true)
    (ho : r.owner c (r.st c).rob.head = d) (hu : r.unitOf d = .csr) :
    (r.st c).rob.rdData (r.st c).rob.head = (r.csrResult d).rdata ∧
      (r.st c).rob.csrData (r.st c).rob.head = (r.csrResult d).wdata := by
  subst ho
  have hm := r.head_mem c hc
  have hs : (r.st c).rob.state (r.st c).rob.head = WRITEBACK_S :=
    Rob.ren_state (i := (r.st c).robIn) hc
  obtain ⟨w, u, hw⟩ := (r.holds c _ hm).written (by rw [r.rob_st]; exact hs)
  obtain ⟨-, hown⟩ := r.live_between w c _ hm hw.after hw.before.le
  obtain ⟨-, hd⟩ := r.owner_of_hits w u _ hw.hits
  rw [hown] at hd
  obtain rfl : u = .csr := hd.unit.symm.trans hu
  have hwr : (r.tags w).csr = [(_, false)] := hd.writer
  obtain ⟨-, hdat⟩ := r.csr2wb_of_mem w _ false (by rw [hwr]; exact List.mem_singleton.mpr rfl)
  have hrd := hw.rdData
  have hcsr := hw.csrData rfl
  rw [r.rob_st] at hrd hcsr
  exact ⟨hrd.trans (congrArg Csr2wb.rdata hdat), hcsr.trans (congrArg Csr2wb.wdata hdat)⟩

-- The instruction `op rd, idx, src` that decode accepted in cycle `d` commits in
-- cycle `c` without an exception.
structure CsrCommits (c d : Nat) (op : Isa.CsrOp) (rd src : BitVec 5) (idx : BitVec 12) :
    Prop where
  commits : (r.st c).commits = true
  owner : r.owner c (r.st c).rob.head = d
  word : (r.st d).if2de.intr = (Isa.Instr.csr op rd src idx).encode
  excp : ((r.st c).rob.info (r.st c).rob.head).excp = 0#16

instance (c d : Nat) (op : Isa.CsrOp) (rd src : BitVec 5) (idx : BitVec 12) :
    Decidable (r.CsrCommits c d op rd src idx) :=
  decidable_of_iff ((r.st c).commits = true ∧ r.owner c (r.st c).rob.head = d ∧
      (r.st d).if2de.intr = (Isa.Instr.csr op rd src idx).encode ∧
      ((r.st c).rob.info (r.st c).rob.head).excp = 0#16)
    ⟨fun ⟨hc, ho, hw, hx⟩ => ⟨hc, ho, hw, hx⟩, fun h => ⟨h.commits, h.owner, h.word, h.excp⟩⟩

-- The source operand, as decode has it.
def csrSource (d : Nat) (op : Isa.CsrOp) (src : BitVec 5) : BitVec 32 :=
  if op.isImm then src.setWidth 32 else (r.st d).regfile.read src

-- How often a counter advances in the `n` cycles from cycle `a` on.
def ticks (idx : BitVec 12) (a n : Nat) : Nat :=
  (List.range n).countP fun k => (r.st (a + k)).csr.tick (r.st (a + k)).csrIn.commit idx

section CsrCommits

variable {r} {c d : Nat} {op : Isa.CsrOp} {rd src : BitVec 5} {idx : BitVec 12}

theorem CsrCommits.isCsrOp (h : r.CsrCommits c d op rd src idx) :
    Decode.IsCsrOp (r.st d).if2de.intr op rd src idx := h.word ▸ Decode.isCsrOp_encode ..

theorem CsrCommits.unitOf (h : r.CsrCommits c d op rd src idx) : r.unitOf d = .csr := by
  rw [Run.unitOf, ← Decode.selects_iff]
  exact h.isCsrOp.csrSel

theorem CsrCommits.mem (h : r.CsrCommits c d op rd src idx) :
    (r.st c).rob.head ∈ (r.st c).rob.window := r.head_mem c h.commits

theorem CsrCommits.robWen (h : r.CsrCommits c d op rd src idx) : (r.st d).robWen = true :=
  h.owner ▸ r.robWen_owner c _ h.mem

theorem CsrCommits.lt (h : r.CsrCommits c d op rd src idx) : d < c :=
  h.owner ▸ r.owner_lt c _ h.mem

theorem CsrCommits.deExcp (h : r.CsrCommits c d op rd src idx) :
    Decode.deExcp (r.st d).if2de = 0#16 := by
  have he := r.excp_of_commits c h.commits (by rw [h.owner, h.unitOf]; decide)
  rw [h.excp, h.owner] at he
  exact he.symm

theorem CsrCommits.cancel (h : r.CsrCommits c d op rd src idx) : (r.st d).if2deCancel = false :=
  (if2deValid_of_robWen _ h.robWen).2.1

-- Decode has found what the instruction needs.
theorem CsrCommits.needs (h : r.CsrCommits c d op rd src idx) :
    Decode.rdNeed (r.st d).if2de (r.st d).if2deCancel = true ∧ (r.st d).csrNeed = true ∧
      (r.st d).rs1Need = !op.isImm := by
  obtain ⟨h1, h2, h3⟩ := h.isCsrOp.needs (r.st d).if2de (r.st d).if2deCancel
  rw [Cpu.csrNeed, Cpu.rs1Need, h1, h2, h3, h.cancel, h.deExcp]
  simp

theorem CsrCommits.csrRegSrc (h : r.CsrCommits c d op rd src idx) :
    Decode.csrRegSrc (r.st d).operands = r.csrSource d op src := by
  have hn : Decode.rs1Need (r.st d).operands.if2de (r.st d).operands.cancel = !op.isImm :=
    h.needs.2.2
  have hsrc : (r.st d).operands.readSrc1Dat = (r.st d).regfile.read src := by
    rw [← h.isCsrOp.rs1Idx]
    rfl
  have himm : Decode.immCsr (r.st d).operands.if2de.intr = src.setWidth 32 := by
    rw [← h.isCsrOp.rs1Idx]
    exact (BitVec.setWidth_eq_append (by omega)).symm
  rw [Decode.csrRegSrc, hn, hsrc, himm, csrSource]
  cases op.isImm <;> rfl

-- The register is read in the cycle after decode.
theorem CsrCommits.csrResult (h : r.CsrCommits c d op rd src idx) :
    (r.csrResult d).rdata = (r.st (d + 1)).csr.value idx ∧
      (r.csrResult d).wdata =
        op.eval ((r.st (d + 1)).csr.value idx) (r.csrSource d op src) := by
  obtain ⟨hv, hc, hi⟩ := r.de2ex_of_robWen d h.robWen
  have hbus : (r.st (d + 1)).csrIn.issue = Issue.csr (r.info d) := congrArg Issue.csr hi
  have hcsr := Decode.csr_bus (r.st d).operands (r.st d).rob.tail h.unitOf
  have hsel : (r.st (d + 1)).csrIn.issueValid = true := by
    have : Issue.csrSel (r.st (d + 1)).deInfo = true := by
      rw [hi, (r.unitOf_of_sel d).2.2.2.1, h.unitOf]
      rfl
    exact Bool.and_eq_true_iff.mpr ⟨this, hv⟩
  have hen : (r.st (d + 1)).csr.csrRdEn (r.st (d + 1)).csrIn = true := by
    have hcan : (r.st (d + 1)).csrIn.issueCancel = false := hc
    simp [Csr.csrRdEn, hsel, hcan, Pipe.iRdy_true]
  have hidx : (r.st (d + 1)).csrIn.issue.csrIdx = idx := by
    rw [hbus]
    exact (congrArg Issue.Csr.csrIdx hcsr).trans h.isCsrOp.csrIdx
  have hmsg : (r.st (d + 1)).csrIn.issue.csrMsg = op.funct3 := by
    rw [hbus]
    exact (congrArg Issue.Csr.csrMsg hcsr).trans h.isCsrOp.msg
  have hsrc : (r.st (d + 1)).csrIn.issue.csrRegSrc = r.csrSource d op src := by
    rw [hbus]
    exact (congrArg Issue.Csr.csrRegSrc hcsr).trans h.csrRegSrc
  have hr : (r.st (d + 1)).csr.csrRdata (r.st (d + 1)).csrIn = (r.st (d + 1)).csr.value idx := by
    rw [Csr.csrRdata_eq _ _ hen, hidx]
  refine ⟨hr, ?_⟩
  have hw : (r.csrResult d).wdata = (r.st (d + 1)).csr.csrWdata (r.st (d + 1)).csrIn := rfl
  rw [hw, Csr.csrWdata_eval _ _ op hmsg, hr, hsrc]

-- The scoreboard holds an instruction in decode while an entry accesses its register.
theorem CsrCommits.notMem (h : r.CsrCommits c d op rd src idx) (m : BitVec 4)
    (hm : m ∈ (r.st d).rob.window) :
    ((r.st d).rob.issue m).csrNeed = false ∨ ((r.st d).rob.issue m).csrIdx ≠ idx := by
  have hs : (r.st d).rob.state m ≠ EMPTY_S := ((r.wf d).live m).mpr hm
  have hw := h.robWen
  simp only [Cpu.robWen, Cpu.deValid, Cpu.dep, Decode.dep, Cpu.depend, Rob.deDepend,
    Bool.and_eq_true, Bool.not_eq_true', Bool.or_eq_false_iff] at hw
  obtain ⟨⟨⟨⟨-, ⟨⟨⟨-, h3⟩, -⟩, -⟩⟩, -⟩, -⟩, -⟩ := hw
  have hf := anySlot_eq_false _ h3 m
  rw [Rob.csrDepend, h.needs.2.1, h.isCsrOp.csrIdx] at hf
  by_contra hn
  simp only [not_or, Bool.not_eq_false, not_not] at hn
  simp [hs, hn.1, hn.2] at hf

-- No older instruction writes the register from then on.
theorem CsrCommits.not_wr (h : r.CsrCommits c d op rd src idx) (t : Nat) (hdt : d ≤ t)
    (htc : t < c) : Csr.wr idx (r.st t).csrIn.commit = false := by
  by_contra hw
  rw [Bool.not_eq_false, Csr.wr, Csr.csrWrEn, Bool.and_eq_true, Bool.and_eq_true,
    Bool.and_eq_true, beq_iff_eq] at hw
  obtain ⟨hi, ⟨hv, hn⟩, -⟩ := hw
  obtain ⟨hm, he⟩ := r.head_at_decode t c h.commits hv (h.owner ▸ hdt) htc
  rw [h.owner] at hm he
  have hn' : ((r.st t).rob.issue (r.st t).rob.head).csrNeed = true := hn
  have hi' : ((r.st t).rob.issue (r.st t).rob.head).csrIdx = idx := hi
  rw [he] at hn' hi'
  rcases h.notMem _ hm with hf | hf
  · rw [hn'] at hf
    exact Bool.noConfusion hf
  · exact hf hi'

theorem CsrCommits.flush (h : r.CsrCommits c d op rd src idx) (t : Nat) (hdt : d ≤ t)
    (htc : t < c) : (r.st t).flush = false :=
  r.flush_between t c _ h.mem (h.owner ▸ hdt) htc

theorem CsrCommits.headMret_self (h : r.CsrCommits c d op rd src idx) :
    ((r.st c).rob.issue (r.st c).rob.head).mretOp = false := by
  rw [r.issue_owner c _ h.mem, h.owner]
  have hn : Decode.nopSel (r.st d).if2de.intr = false := by
    rw [(Decode.sel_unit _).2.2.2.2]
    exact decide_eq_false (by rw [show Decode.unit _ = _ from h.unitOf]; decide)
  exact Bool.and_eq_false_iff.mpr (.inl hn)

-- An mret at the head would flush when it commits, so none is there.
theorem CsrCommits.headMret (h : r.CsrCommits c d op rd src idx) (t : Nat) (hdt : d < t)
    (htc : t ≤ c) : ((r.st t).rob.issue (r.st t).rob.head).mretOp = false := by
  revert hdt
  induction htc using Nat.decreasingInduction with
  | self => exact fun _ => h.headMret_self
  | of_succ t htc ih =>
    intro hdt
    have hf := h.flush t hdt.le htc
    cases hc : (r.st t).commits with
    | true => exact ((not_flush_iff _ hc).mp hf).2.2.2
    | false =>
      -- The head stays, with the entry it points to.
      obtain ⟨hl, -⟩ := r.live_between t c _ h.mem (h.owner ▸ hdt) htc.le
      have hn := ih (Nat.lt_succ_of_lt hdt)
      rw [r.head_succ_of_not_commits t hc] at hn
      have hm : (r.st t).rob.head ∈ (r.st t).rob.window := (r.wf t).head_mem_of_mem hl
      have hm' : (r.st t).rob.head ∈ (r.st (t + 1)).rob.window := by
        refine (Rob.mem_window_next (r.wf t) (r.legal t) hf _).mpr (.inl ⟨hm, fun hr => ?_⟩)
        exact Bool.noConfusion (hc.symm.trans hr.1)
      rw [r.issue_owner _ _ hm', r.owner_succ t _ hm, ← r.issue_owner t _ hm] at hn
      exact hn

-- Nothing but a tick changes the register between its read and the commit.
theorem CsrCommits.calm (h : r.CsrCommits c d op rd src idx) (t : Nat) (hdt : d < t)
    (htc : t < c) : Csr.Calm idx (r.st t).csrIn.commit := by
  have hf := h.flush t hdt.le htc
  have hm := h.headMret t hdt htc.le
  cases hc : (r.st t).commits with
  | false =>
    have hv : (r.st t).csrIn.commit.valid = false := hc
    exact ⟨by simp [Csr.excpEn, hv], by simp [Csr.irqEn, hv], fun _ => hm⟩
  | true =>
    obtain ⟨hx, hq, -⟩ := (not_flush_iff _ hc).mp hf
    have hx' : (r.st t).csrIn.commit.excp = 0#16 := hx
    have hq' : (r.st t).csrIn.commit.irq = 0#12 := hq
    exact ⟨by simp [Csr.excpEn, hx'], by simp [Csr.irqEn, hq'], fun _ => hm⟩

theorem ticks_succ (r : Run) (idx : BitVec 12) (a n : Nat) : r.ticks idx a (n + 1) =
    r.ticks idx a n + ((r.st (a + n)).csr.tick (r.st (a + n)).csrIn.commit idx).toNat := by
  rw [ticks, List.range_succ, List.countP_append, List.countP_singleton]
  cases (r.st (a + n)).csr.tick (r.st (a + n)).csrIn.commit idx <;> rfl

theorem value_ticks (r : Run) (idx : BitVec 12) (hp : idx ≠ Csr.mipIdx) (a n : Nat)
    (hcalm : ∀ t, a ≤ t → t < a + n → Csr.Calm idx (r.st t).csrIn.commit)
    (hw : ∀ t, a ≤ t → t < a + n → Csr.wr idx (r.st t).csrIn.commit = false) :
    (r.st (a + n)).csr.value idx = (r.st a).csr.value idx + BitVec.ofNat 32 (r.ticks idx a n) := by
  induction n with
  | zero => simp [ticks]
  | succ n ih =>
    have hn : (r.st (a + (n + 1))).csr = (r.st (a + n)).csr.next (r.st (a + n)).csrIn := rfl
    rw [hn, Csr.value_next _ _ _ (hcalm _ (by omega) (by omega)) (hw _ (by omega) (by omega)) hp,
      ih (fun t h1 h2 => hcalm t h1 (by omega)) (fun t h1 h2 => hw t h1 (by omega))]
    rw [r.ticks_succ, BitVec.ofNat_add, BitVec.add_assoc]
    cases (r.st (a + n)).csr.tick (r.st (a + n)).csrIn.commit idx <;> rfl

-- The register at the commit, against what was read.
theorem CsrCommits.value (h : r.CsrCommits c d op rd src idx) (hp : idx ≠ Csr.mipIdx) :
    (r.st c).csr.value idx =
      (r.st (d + 1)).csr.value idx + BitVec.ofNat 32 (r.ticks idx (d + 1) (c - (d + 1))) := by
  have hlt := h.lt
  have hc : d + 1 + (c - (d + 1)) = c := by omega
  have hv := r.value_ticks idx hp (d + 1) (c - (d + 1))
    (fun t h1 h2 => h.calm t h1 (by omega)) (fun t h1 h2 => h.not_wr t (by omega) (by omega))
  rwa [hc] at hv

theorem ticks_of_not_mem (r : Run) (hn : idx ∉ Csr.counters) (a n : Nat) :
    r.ticks idx a n = 0 := by
  rw [ticks, List.countP_eq_zero]
  intro k _
  rw [Csr.tick_of_not_mem _ _ _ hn]
  exact Bool.false_ne_true

theorem CsrCommits.value_of_not_mem (h : r.CsrCommits c d op rd src idx) (hp : idx ≠ Csr.mipIdx)
    (hn : idx ∉ Csr.counters) : (r.st c).csr.value idx = (r.st (d + 1)).csr.value idx := by
  rw [h.value hp, r.ticks_of_not_mem hn]
  exact BitVec.add_zero _

-- What the entry holds when it commits.
theorem CsrCommits.result (h : r.CsrCommits c d op rd src idx) :
    (r.st c).rob.rdData (r.st c).rob.head = (r.st (d + 1)).csr.value idx ∧
      (r.st c).rob.csrData (r.st c).rob.head =
        op.eval ((r.st (d + 1)).csr.value idx) (r.csrSource d op src) := by
  obtain ⟨hr, hw⟩ := r.csrResult_of_commits c d h.commits h.owner h.unitOf
  obtain ⟨hrd, hwd⟩ := h.csrResult
  exact ⟨hr.trans hrd, hw.trans hwd⟩

-- A csrr writes back what it has read.
theorem CsrCommits.csrData_of_csrr (h : r.CsrCommits c d op rd 0#5 idx)
    (hop : op ≠ .rw ∧ op ≠ .rwi) :
    (r.st c).csrIn.commit.csrData = (r.st (d + 1)).csr.value idx := by
  have hsrc : r.csrSource d op 0#5 = 0#32 := by
    rw [csrSource]
    cases op.isImm <;> rfl
  refine h.result.2.trans ?_
  rw [hsrc]
  cases op with
  | rw | rwi => simp at hop
  | rs | rsi => exact BitVec.or_zero
  | rc | rci => exact BitVec.and_allOnes

theorem CsrCommits.robIssue (h : r.CsrCommits c d op rd src idx) :
    (r.st c).rob.issue (r.st c).rob.head = (r.st d).robIssue := by
  rw [r.issue_owner c _ h.mem, h.owner]

theorem CsrCommits.csrWrEn (h : r.CsrCommits c d op rd src idx) :
    Csr.csrWrEn (r.st c).csrIn.commit = true ∧ (r.st c).csrIn.commit.csrIdx = idx := by
  have hv : (r.st c).csrIn.commit.valid = true := h.commits
  have hx : (r.st c).csrIn.commit.excp = 0#16 := h.excp
  have hn : (r.st c).csrIn.commit.csrNeed = true :=
    (congrArg RobIssue.csrNeed h.robIssue).trans h.isCsrOp.csrSel
  have hi : (r.st c).csrIn.commit.csrIdx = idx :=
    (congrArg RobIssue.csrIdx h.robIssue).trans h.isCsrOp.csrIdx
  exact ⟨by simp [Csr.csrWrEn, Csr.excpEn, hv, hx, hn], hi⟩

theorem CsrCommits.wr (h : r.CsrCommits c d op rd src idx) :
    Csr.wr idx (r.st c).csrIn.commit = true := by
  obtain ⟨hw, hi⟩ := h.csrWrEn
  rw [Csr.wr, hw, hi, beq_self_eq_true, Bool.and_self]

-- The destination register gets what was read.
theorem CsrCommits.read_rd (h : r.CsrCommits c d op rd src idx) :
    (r.st (c + 1)).regfile.read rd =
      if rd = 0#5 then 0#32 else (r.st (d + 1)).csr.value idx := by
  have hc : Commit.commits (r.st c).commitIn = true := h.commits
  have hx : (r.st c).commitIn.info.excp = 0#16 := h.excp
  have hn : (r.st c).commitIn.issue.rdNeed = true :=
    (congrArg RobIssue.rdNeed h.robIssue).trans h.needs.1
  have hi : ((r.st c).rob.issue (r.st c).rob.head).rdIdx = rd :=
    (congrArg RobIssue.rdIdx h.robIssue).trans h.isCsrOp.rdIdx
  have hw : (r.st c).regWen = true := by
    simp [Cpu.regWen, Commit.regWen, Commit.excpEn, hc, hx, hn]
  change ((r.st c).regfile.next _ _ _).read rd = _
  rw [hw, hi, h.result.1, Regfile.read, Regfile.next]
  by_cases hz : rd = 0#5
  · simp [hz]
  · have hen : (rd != 0#5) = true := bne_iff_ne.mpr hz
    simp [hz, hen]

-- The source register still holds at the commit what decode read.
theorem CsrCommits.source (h : r.CsrCommits c d op rd src idx) :
    r.csrSource d op src = if op.isImm then src.setWidth 32 else (r.st c).regfile.read src := by
  rw [csrSource]
  cases hm : op.isImm with
  | true => rfl
  | false =>
    have hn : (r.st d).rs1Need = true := by rw [h.needs.2.2, hm, Bool.not_false]
    exact (r.unwritten_of_reads d c src h.commits h.owner (.inl ⟨hn, h.isCsrOp.rs1Idx⟩)).1.symm

end CsrCommits

end HiCore.Run
