import HiCore.Theorems.Status
import HiCore.Trace.CsrPath

-- What a csr instruction does to the register it names, over whole runs.
namespace HiCore.Run

open Isa (CsrOp)

variable {r : Run} {c d : Nat} {op : CsrOp} {rd src : BitVec 5} {idx : BitVec 12}

-- The three sources of a trap, at a commit.
theorem CsrCommits.excpEn (h : r.CsrCommits c d op rd src idx) :
    Csr.excpEn (r.st c).csrIn.commit = false := by
  have hx : (r.st c).csrIn.commit.excp = 0#16 := h.excp
  simp [Csr.excpEn, hx]

theorem irqEn_of_csrIrq (t : Nat) (hq : Commit.csrIrq (r.st t).commitIn = 0#12) :
    Csr.irqEn (r.st t).csrIn.commit = false := by
  have hq' : (r.st t).csrIn.commit.irq = 0#12 := hq
  simp [Csr.irqEn, hq']

theorem csr_read_modify_write (r : Run) (c d : Nat) (op : CsrOp) (rd src : BitVec 5)
    (idx : BitVec 12) (h : r.CsrCommits c d op rd src idx)
    (hq : Commit.csrIrq (r.st c).commitIn = 0#12) (hi : idx ∈ Csr.plain) :
    (r.st (c + 1)).regfile.read rd = (if rd = 0#5 then 0#32 else (r.st c).csr.value idx) ∧
      (r.st (c + 1)).csr.value idx = Csr.implemented idx (op.eval ((r.st c).csr.value idx)
        (if op.isImm then src.setWidth 32 else (r.st c).regfile.read src)) := by
  obtain ⟨hp, hc⟩ := Csr.not_mem_of_plain idx hi
  have hv := h.value_of_not_mem hp hc
  refine ⟨by rw [h.read_rd, hv], ?_⟩
  have hn : (r.st (c + 1)).csr = (r.st c).csr.next (r.st c).csrIn := rfl
  have hd : (r.st c).csrIn.commit.csrData = (r.st c).rob.csrData (r.st c).rob.head := rfl
  rw [hn, Csr.value_next_of_wr _ _ _ hi h.excpEn (irqEn_of_csrIrq c hq) h.wr, hd, h.result.2,
    h.source, hv]

-- `addi x1,x0,5; csrrw x2,mscratch,x1`.
theorem csr_read_modify_write_mscratch :
    let r := program false [0x00500093#32, 0x34009173#32]
    (r.st 9).regfile.read 2#5 = 0#32 ∧ (r.st 9).csr.value Csr.mscratchIdx = 5#32 := by
  intro r
  have hc : r.CsrCommits 8 5 .rw 2#5 1#5 Csr.mscratchIdx ∧
      Commit.csrIrq (r.st 8).commitIn = 0#12 := by decide +kernel
  have hv : (r.st 8).csr.value Csr.mscratchIdx = 0#32 ∧ (r.st 8).regfile.read 1#5 = 5#32 := by
    decide +kernel
  obtain ⟨h1, h2⟩ := csr_read_modify_write r 8 5 .rw 2#5 1#5 Csr.mscratchIdx hc.1 hc.2 (by decide)
  rw [hv.1] at h1 h2
  rw [hv.2] at h2
  exact ⟨h1, h2⟩

-- The unimplemented bits of mie are never set.
theorem mie_implemented (r : Run) (t : Nat) :
    Csr.implemented Csr.mieIdx (r.st t).csr.mie = (r.st t).csr.mie := by
  induction t with
  | zero => exact Csr.implemented_irqBits false false false
  | succ t ih => exact (r.st t).csr.mie_next (r.st t).csrIn ih

theorem eq_add_ofNat_iff (x : BitVec 32) (n : Nat) : x = x + BitVec.ofNat 32 n ↔ 2 ^ 32 ∣ n := by
  rw [left_eq_add, ← BitVec.toNat_inj, BitVec.toNat_ofNat]
  exact Nat.dvd_iff_mod_eq_zero.symm

-- The csrr forms write back the value they read, which for a counter is the
-- value of an earlier cycle.
theorem csrr_frame_iff (r : Run) (c d : Nat) (op : CsrOp) (rd : BitVec 5) (idx : BitVec 12)
    (h : r.CsrCommits c d op rd 0#5 idx) (hop : op ≠ .rw ∧ op ≠ .rwi) :
    (r.st (c + 1)).csr = (r.st c).csr.next (r.st c).csrIn.noAccess ↔
      (idx ∈ Csr.counters → 2 ^ 32 ∣ r.ticks idx (d + 1) (c - d)) := by
  obtain ⟨hw, hi⟩ := h.csrWrEn
  have hdata := h.csrData_of_csrr hop
  have hiff := (r.st c).csr.next_eq_noAccess_iff (r.st c).csrIn h.headMret_self
    (r.mie_implemented c) hw (fun hc hp => by
      rw [hi] at hc hp ⊢
      rw [hdata, h.value_of_not_mem hp hc])
  rw [hi, hdata] at hiff
  refine hiff.trans (imp_congr_right fun hc => ?_)
  have hp : idx ≠ Csr.mipIdx := fun he => absurd (he ▸ hc) (by decide)
  have hlt := h.lt
  have hcd : c - d = c - (d + 1) + 1 := by omega
  have hat : d + 1 + (c - (d + 1)) = c := by omega
  have ht : ((r.st c).csr.tick (r.st c).csrIn.noAccess.commit idx) =
      (r.st c).csr.tick (r.st c).csrIn.commit idx := rfl
  rw [Csr.value_next_of_mem _ _ _ (Csr.wr_noAccess _ _) hc, h.value hp, hcd, r.ticks_succ, hat, ht,
    BitVec.add_assoc, ← eq_add_ofNat_iff ((r.st (d + 1)).csr.value idx), BitVec.ofNat_add]
  cases (r.st c).csr.tick (r.st c).csrIn.commit idx <;> rfl

-- `csrrs x5,mscratch,x0`.
theorem csrr_frame_mscratch :
    let r := program false [0x340022F3#32]
    (r.st 5).csr = (r.st 4).csr.next (r.st 4).csrIn.noAccess := by
  intro r
  refine (csrr_frame_iff r 4 1 .rs 5#5 Csr.mscratchIdx (by decide +kernel)
    ⟨by decide, by decide⟩).mpr fun hc => ?_
  exact absurd hc (by decide)

-- `csrrs x5,mcycle,x0`: the counter goes from 4 to 2 and not to 5.
theorem csrr_mcycle_writes :
    let r := program false [0xB00022F3#32]
    r.CsrCommits 4 1 .rs 5#5 0#5 Csr.mcycleIdx ∧
      (r.st 5).csr ≠ (r.st 4).csr.next (r.st 4).csrIn.noAccess := by
  intro r
  refine ⟨by decide +kernel, fun he => ?_⟩
  have hset : (r.st 5).csr.mcycle = 2#32 := by decide +kernel
  have hticks : ((r.st 4).csr.next (r.st 4).csrIn.noAccess).mcycle = 5#32 := by decide +kernel
  rw [he, hticks] at hset
  exact absurd hset (by decide)

-- A csrrw of `idx` commits in cycle `a` and an instruction that reads `idx` in
-- cycle `b`, decoded in cycle `d`, with nothing between that may change it.
structure WriteRead (r : Run) (idx : BitVec 12) (v : BitVec 32) (a b d : Nat) : Prop where
  writes : ∃ e rd src, r.CsrCommits a e .rw rd src idx ∧ r.csrSource e .rw src = v
  noIrq : Commit.csrIrq (r.st a).commitIn = 0#12
  reads : ∃ op rd src, r.CsrCommits b d op rd src idx
  after : a < b
  quiet : ∀ t, a < t → t < b → Csr.Quiet idx (r.st t).csrIn.commit

section WriteRead

variable {v : BitVec 32} {a b : Nat}

theorem WriteRead.rdData (h : r.WriteRead idx v a b d) :
    (r.st b).rob.rdData (r.st b).rob.head = (r.st (d + 1)).csr.value idx ∧ d < b := by
  obtain ⟨op, rd, src, hr⟩ := h.reads
  exact ⟨hr.result.1, hr.lt⟩

-- The write keeps the reader in decode until it has committed.
theorem WriteRead.lt (h : r.WriteRead idx v a b d) : a < d := by
  obtain ⟨e, rd, src, hw, -⟩ := h.writes
  obtain ⟨op, rd', src', hr⟩ := h.reads
  by_contra hn
  have hf := hr.not_wr a (by omega) h.after
  rw [hw.wr] at hf
  exact Bool.noConfusion hf

-- What the write leaves: the bits of mstatus, the whole of a plain register, and
-- nothing of the other two.
theorem WriteRead.written (h : r.WriteRead idx v a b d) :
    (idx = Csr.mstatusIdx → (r.st (a + 1)).csr.statusMie = v.getLsbD 3 ∧
      (r.st (a + 1)).csr.statusMpie = v.getLsbD 7) ∧
    (idx ∈ Csr.plain → (r.st (a + 1)).csr.value idx = Csr.implemented idx v) ∧
    (r.st (a + 1)).csr.mcause = (r.st a).csr.mcause ∧
    (r.st (a + 1)).csr.mtval = (r.st a).csr.mtval := by
  obtain ⟨e, rd, src, hw, rfl⟩ := h.writes
  have hq := irqEn_of_csrIrq a h.noIrq
  have hdata : (r.st a).csrIn.commit.csrData = r.csrSource e .rw src := hw.result.2
  have hn : (r.st (a + 1)).csr = (r.st a).csr.next (r.st a).csrIn := rfl
  rw [hn, ← hdata]
  refine ⟨fun hi => ?_, fun hi => ?_, Csr.cause_next _ _ hw.excpEn hq⟩
  · exact Csr.status_next_of_wr _ _ hw.excpEn hq hw.headMret_self (hi ▸ hw.wr)
  · exact Csr.value_next_of_wr _ _ _ hi hw.excpEn hq hw.wr

-- Off mstatus the register keeps what it has.
theorem WriteRead.kept (h : r.WriteRead idx v a b d) (hi : idx ∈ Csr.writable)
    (hs : idx ≠ Csr.mstatusIdx) :
    (r.st (d + 1)).csr.value idx = (r.st (a + 1)).csr.value idx := by
  obtain ⟨hp, hc⟩ := Csr.not_mem_of_writable idx hi
  have hlt := h.lt
  have hb := h.rdData.2
  have had : a + 1 + (d - a) = d + 1 := by omega
  have hv := r.value_ticks idx hp (a + 1) (d - a)
    (fun t h1 h2 => (h.quiet t (by omega) (by omega)).calm hs)
    (fun t h1 h2 => (h.quiet t (by omega) (by omega)).wr)
  rw [had, r.ticks_of_not_mem hc] at hv
  exact hv.trans (BitVec.add_zero _)

end WriteRead

-- Either no mret flag has been seen since cycle `a` or MPIE is set, and MIE with
-- it if MPIE was.
theorem status_run (r : Run) (a t : Nat) (hat : a ≤ t)
    (hq : ∀ u, a ≤ u → u < t → Csr.Quiet Csr.mstatusIdx (r.st u).csrIn.commit) :
    ((∀ u, a ≤ u → u < t → (r.st u).headMret = false) ∧
      (r.st t).csr.statusMie = (r.st a).csr.statusMie ∧
      (r.st t).csr.statusMpie = (r.st a).csr.statusMpie) ∨
    ((r.st t).csr.statusMpie = true ∧
      ((r.st a).csr.statusMpie = true → (r.st t).csr.statusMie = true)) := by
  induction t, hat using Nat.le_induction with
  | base => exact .inl ⟨fun u h1 h2 => absurd h2 (Nat.not_lt.mpr h1), rfl, rfl⟩
  | succ t hat ih =>
    have hn : (r.st (t + 1)).csr = (r.st t).csr.next (r.st t).csrIn := rfl
    have hf : (r.st t).csrIn.commit.mretOp = (r.st t).headMret := rfl
    obtain ⟨h1, h2⟩ := Csr.status_next_of_quiet _ _ (hq t hat (Nat.lt_succ_self t))
    rw [hn, h1, h2, hf]
    have hih := ih fun u hu hut => hq u hu (Nat.lt_succ_of_lt hut)
    cases hm : (r.st t).headMret with
    | true =>
      refine .inr ⟨rfl, fun hp => ?_⟩
      rcases hih with ⟨-, -, he⟩ | ⟨he, -⟩
      · exact he.trans hp
      · exact he
    | false =>
      rcases hih with ⟨hall, he⟩ | he
      · refine .inl ⟨fun u hu hut => ?_, he⟩
        rcases Nat.lt_succ_iff_lt_or_eq.mp hut with hlt | rfl
        · exact hall u hu hlt
        · exact hm
      · exact .inr he

-- A second mret flag would find both bits set.
theorem status_kept_run_iff (r : Run) (a t : Nat) (hat : a ≤ t)
    (hq : ∀ u, a ≤ u → u < t → Csr.Quiet Csr.mstatusIdx (r.st u).csrIn.commit) :
    ((r.st t).csr.statusMie = (r.st a).csr.statusMie ∧
      (r.st t).csr.statusMpie = (r.st a).csr.statusMpie) ↔
    ((∀ u, a ≤ u → u < t → (r.st u).headMret = false) ∨
      ((r.st a).csr.statusMie = true ∧ (r.st a).csr.statusMpie = true)) := by
  constructor
  · rintro ⟨h1, h2⟩
    rcases r.status_run a t hat hq with ⟨hall, -⟩ | ⟨hp, hm⟩
    · exact .inl hall
    · have hpa := h2.symm.trans hp
      exact .inr ⟨h1.symm.trans (hm hpa), hpa⟩
  · intro h
    induction t, hat using Nat.le_induction with
    | base => exact ⟨rfl, rfl⟩
    | succ t hat ih =>
      obtain ⟨i1, i2⟩ := ih (fun u hu hut => hq u hu (Nat.lt_succ_of_lt hut))
        (h.imp_left fun hall u hu hut => hall u hu (Nat.lt_succ_of_lt hut))
      have hn : (r.st (t + 1)).csr = (r.st t).csr.next (r.st t).csrIn := rfl
      have hf : (r.st t).csrIn.commit.mretOp = (r.st t).headMret := rfl
      obtain ⟨h1, h2⟩ := Csr.status_next_of_quiet _ _ (hq t hat (Nat.lt_succ_self t))
      rw [hn, h1, h2, hf, i1, i2]
      rcases h with hall | ⟨hm, hp⟩
      · rw [hall t hat (Nat.lt_succ_self t)]
        exact ⟨rfl, rfl⟩
      · rw [hm, hp]
        cases (r.st t).headMret <;> exact ⟨rfl, rfl⟩

theorem csrrw_reads_back_iff (r : Run) (idx : BitVec 12) (v : BitVec 32) (a b d : Nat)
    (h : r.WriteRead idx v a b d) (hi : idx ∈ Csr.writable) :
    (r.st b).rob.rdData (r.st b).rob.head &&& Csr.writableBits idx = v &&& Csr.writableBits idx ↔
      (idx = Csr.mstatusIdx → (∀ t, a < t → t ≤ d → (r.st t).headMret = false) ∨
        (v.getLsbD 3 = true ∧ v.getLsbD 7 = true)) ∧
      (idx = Csr.mcauseIdx → (r.st a).csr.mcause = v) ∧
      (idx = Csr.mtvalIdx → (r.st a).csr.mtval = v) := by
  obtain ⟨hst, hpl, hcause, htval⟩ := h.written
  rw [h.rdData.1]
  by_cases hs : idx = Csr.mstatusIdx
  · subst hs
    obtain ⟨h3, h7⟩ := hst rfl
    have hlt := h.lt
    have hb := h.rdData.2
    rw [Csr.value_mstatus, Csr.mstatusR_and_writableBits_iff, ← h3, ← h7,
      r.status_kept_run_iff (a + 1) (d + 1) (by omega)
        fun u h1 h2 => h.quiet u (by omega) (by omega)]
    have hnc : Csr.mstatusIdx ≠ Csr.mcauseIdx ∧ Csr.mstatusIdx ≠ Csr.mtvalIdx := by decide
    simp only [hnc.1, hnc.2, Nat.succ_le_iff, Nat.lt_succ_iff, forall_const, false_imp_iff,
      and_true]
  have hk := h.kept hi hs
  rw [hk]
  by_cases hp : idx ∈ Csr.plain
  · rw [hpl hp, Csr.implemented_and_writableBits _ _ hp]
    have hnc : idx ≠ Csr.mcauseIdx ∧ idx ≠ Csr.mtvalIdx :=
      ⟨fun he => absurd (he ▸ hp) (by decide), fun he => absurd (he ▸ hp) (by decide)⟩
    simp [hs, hnc.1, hnc.2]
  · -- The two registers that a write does not reach.
    have hall (x : BitVec 12) (h1 : x ≠ Csr.mstatusIdx) (h2 : x ∉ Csr.plain) :
        Csr.writableBits x = BitVec.allOnes 32 := by
      have h3 : x ≠ Csr.mieIdx := fun he => h2 (he ▸ by decide)
      rw [Csr.writableBits, if_neg h1, if_neg h3]
    rw [hall idx hs hp, BitVec.and_allOnes, BitVec.and_allOnes]
    simp only [Csr.writable, Csr.plain, List.mem_cons, List.not_mem_nil, or_false, not_or] at hi hp
    obtain ⟨n1, n2, n3, n4⟩ := hp
    rcases hi with he | he | he | he | he | rfl | rfl
    · exact absurd he hs
    · exact absurd he n1
    · exact absurd he n2
    · exact absurd he n3
    · exact absurd he n4
    · have hne : Csr.mcauseIdx ≠ Csr.mtvalIdx := by decide
      rw [Csr.value_mcause, hcause]
      simp [hs, hne]
    · have hne : Csr.mtvalIdx ≠ Csr.mcauseIdx := by decide
      rw [Csr.value_mtval, htval]
      simp [hs, hne]

-- `addi x1,x0,5`, then the two instructions. The second is decoded in the cycle
-- after the first has committed.
def pair (w₁ w₂ : BitVec 32) : Run := program false [0x00500093#32, w₁, w₂]

-- The cycles of `csrrw x0,idx,x1; csrrs x2,idx,x0`.
theorem writeRead_of_pair {r : Run} {idx : BitVec 12}
    (h : (r.CsrCommits 8 5 .rw 0#5 1#5 idx ∧ r.csrSource 5 .rw 1#5 = 5#32) ∧
      Commit.csrIrq (r.st 8).commitIn = 0#12 ∧ r.CsrCommits 12 9 .rs 2#5 0#5 idx ∧
      ∀ t < 12, 8 < t → (r.st t).csrIn.commit.valid = false) : r.WriteRead idx 5#32 8 12 9 where
  writes := ⟨5, 0#5, 1#5, h.1⟩
  noIrq := h.2.1
  reads := ⟨.rs, 2#5, 0#5, h.2.2.1⟩
  after := by omega
  quiet t h1 h2 := .of_not_valid _ (h.2.2.2 t h2 h1)

-- `csrrw x0,mscratch,x1; csrrs x2,mscratch,x0`.
theorem csrrw_reads_back_mscratch :
    ((pair 0x34009073#32 0x34002173#32).st 12).rob.rdData 2#4 = 5#32 := by
  have hw : (pair 0x34009073#32 0x34002173#32).WriteRead Csr.mscratchIdx 5#32 8 12 9 :=
    writeRead_of_pair (by decide +kernel)
  have hh : ((pair 0x34009073#32 0x34002173#32).st 12).rob.head = 2#4 := by decide +kernel
  have h := (csrrw_reads_back_iff _ _ _ _ _ _ hw (by decide)).mpr
    ⟨fun he => absurd he (by decide), fun he => absurd he (by decide), fun he => absurd he (by decide)⟩
  rwa [hh, Csr.writableBits, if_neg (by decide), if_neg (by decide), BitVec.and_allOnes,
    BitVec.and_allOnes] at h

-- `csrrw x0,mcause,x1; csrrs x2,mcause,x0` reads 0 back.
theorem csrrw_mcause_lost :
    let r := pair 0x34209073#32 0x34202173#32
    r.WriteRead Csr.mcauseIdx 5#32 8 12 9 ∧
      (r.st 12).rob.rdData (r.st 12).rob.head &&& Csr.writableBits Csr.mcauseIdx ≠
        5#32 &&& Csr.writableBits Csr.mcauseIdx := by
  intro r
  refine ⟨?_, by decide +kernel⟩
  exact writeRead_of_pair (by decide +kernel)

end HiCore.Run
