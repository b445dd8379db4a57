import HiCore.Theorems.Branch
import HiCore.Theorems.ControlFlow
import HiCore.Theorems.FetchTarget
import HiCore.Theorems.Operands
import HiCore.Trace.MemPath

-- Where a jump through a register leads, seen from the commits.
namespace HiCore.Run

open Isa

variable (r : Run)

-- The commit after that of cycle `b` is in cycle `c`.
structure NextCommit (b c : Nat) : Prop where
  lt : b < c
  commits : (r.st c).commits = true
  quiet : ∀ u, b < u → u < c → (r.st u).commits = false

-- The decode of the instruction that commits in cycle `c`.
def decodeOf (c : Nat) : Nat := r.owner c (r.st c).rob.head

section Next

variable {r} {b c : Nat} (hb : (r.st b).commits = true) (hf : (r.st b).flush = false)
  (h : r.NextCommit b c)

theorem mem_pending_kept {a t u : Nat} (htu : t ≤ u)
    (hq : ∀ v, t ≤ v → v < u → (r.st v).commits = false) (ha : a ∈ r.rob.pending t) :
    a ∈ r.rob.pending u := by
  induction u, htu using Nat.le_induction with
  | base => exact ha
  | succ u htu ih =>
    have hc := hq u htu (Nat.lt_succ_self u)
    rw [pending_succ, flush_of_not_commits _ hc, hc, if_neg Bool.false_ne_true, Fifo.shift_false]
    exact List.mem_append_left _ (ih fun v h1 h2 => hq v h1 (Nat.lt_succ_of_lt h2))

include hb hf in
-- What is decoded behind an instruction is in the reorder buffer when that leaves.
theorem mem_pending_succ_of_commits {t : Nat} (hw : (r.st t).robWen = true)
    (hlt : r.decodeOf b < t) (hle : t ≤ b) : t ∈ r.rob.pending (b + 1) := by
  obtain ⟨rest, hp⟩ := r.pending_eq_cons b hb
  rw [pending_succ, hf, hb, if_neg Bool.false_ne_true, hp, Fifo.shift, if_pos rfl, List.cons_append,
    List.tail_cons]
  rcases Nat.lt_or_eq_of_le hle with hlt' | rfl
  · obtain ⟨n, hn, ho⟩ := r.live_behind t b _ hw (r.head_mem b hb) hlt b hlt' (Nat.le_refl b)
    have hm : t ∈ r.rob.pending b := by
      rw [pending_eq_owners, ← ho]
      exact List.mem_map_of_mem hn
    rw [hp] at hm
    rcases List.mem_cons.mp hm with he | hm
    · exact absurd (he ▸ hlt) (Nat.lt_irrefl _)
    · exact List.mem_append_left _ hm
  · rw [hw, if_pos rfl]
    exact List.mem_append_right _ (List.mem_singleton_self t)

include hb hf h in
-- Nothing is decoded between two instructions that commit one after the other.
theorem robWen_between {t : Nat} (h1 : r.decodeOf b < t) (h2 : t < r.decodeOf c) :
    (r.st t).robWen = false := by
  by_contra hw
  rw [Bool.not_eq_false] at hw
  have hdc : r.decodeOf c < c := r.owner_lt c _ (r.head_mem c h.commits)
  have hm : t ∈ r.rob.pending c := by
    rcases Nat.lt_or_ge b t with hbt | hbt
    · have hc := h.quiet t hbt (by omega)
      have ht : t ∈ r.rob.pending (t + 1) := by
        rw [pending_succ, flush_of_not_commits _ hc, hc, hw, if_neg Bool.false_ne_true,
          Fifo.shift_false, if_pos rfl]
        exact List.mem_append_right _ (List.mem_singleton_self t)
      exact mem_pending_kept (by omega) (fun v hv hvc => h.quiet v (by omega) hvc) ht
    · refine mem_pending_kept h.lt (fun v hv hvc => h.quiet v hv hvc) ?_
      exact mem_pending_succ_of_commits hb hf hw h1 hbt
  -- The one that commits is the oldest.
  obtain ⟨rest, hp⟩ := r.pending_eq_cons c h.commits
  have hsort := r.rob.pending_pairwise c
  rw [hp, List.pairwise_cons] at hsort
  rw [hp] at hm
  rcases List.mem_cons.mp hm with he | hm
  · exact absurd (he ▸ h2) (Nat.lt_irrefl _)
  · exact absurd (hsort.1 t hm) (by
      change ¬ r.decodeOf c < t
      omega)

include hb hf h in
theorem flush_between_commits {t : Nat} (h1 : r.decodeOf b ≤ t) (h2 : t < c) :
    (r.st t).flush = false := by
  rcases Nat.lt_trichotomy t b with hlt | rfl | hgt
  · exact r.flush_between t b _ (r.head_mem b hb) h1 hlt
  · exact hf
  · exact flush_of_not_commits _ (h.quiet t hgt h2)

include hb h in
theorem decodeOf_lt : r.decodeOf b < r.decodeOf c := by
  obtain ⟨rest, hp⟩ := r.pending_eq_cons b hb
  obtain ⟨rest', hp'⟩ := r.pending_eq_cons c h.commits
  have hc : r.rob.commits b = true := by
    rw [Rob.Run.commits, r.rob_st]
    exact hb
  refine Rob.Run.lt_of_commit r.rob b c _ _ h.lt hc ?_ ?_
  · rw [hp]
    rfl
  · rw [hp']
    exact List.mem_cons_self

end Next

-- The decoder's side of the fetch unit.

theorem delivers_of_robWen (t : Nat) (h : (r.st t).robWen = true) :
    r.fetchPort.delivers t = [(r.st t).if2de.pc] := by
  have hd : r.fetchPort.delivers t =
      if (r.st t).ifBufPop && !(r.st t).if2deCancel then [(r.st t).if2de.pc] else [] := by
    rw [FetchPort.Run.delivers, r.fetchPort_st]
    rfl
  rw [hd, decodes_of_robWen _ h, (if2deValid_of_robWen _ h).2.1]
  rfl

theorem quiet_of_not_robWen (t : Nat) (h : (r.st t).robWen = false)
    (hf : (r.st t).flush = false) :
    FetchPort.redirects (r.fetchPort.ins t) = false ∧ r.fetchPort.delivers t = [] := by
  constructor
  · have hb : (r.st t).branch = false := by
      by_contra hb
      rw [Bool.not_eq_false] at hb
      rw [(robWen_of_branch _ hb hf).1] at h
      exact Bool.noConfusion h
    change ((r.st t).flush || (r.st t).branch) = false
    rw [hf, hb]
    rfl
  · rw [FetchPort.Run.delivers, r.fetchPort_st, if_neg]
    intro hp
    rw [Bool.and_eq_true, Bool.not_eq_true'] at hp
    rw [robWen_of_decodes _ hp.1 hp.2 hf] at h
    exact Bool.noConfusion h

-- The fetch of the word after the target is accepted, before cycle `t`, while the
-- exception of the target waits.
def Overtaken (d t : Nat) : Prop := ∃ u, (d < u ∧ u < t) ∧ r.fetchPort.Passes u

theorem commitPc_of_branch {b c : Nat} (hb : (r.st b).commits = true)
    (hf : (r.st b).flush = false) (h : r.NextCommit b c)
    (hj : (r.st (r.decodeOf b)).branch = true) :
    (¬ r.Overtaken (r.decodeOf b) (r.decodeOf c) ∧
      (r.st c).commitPc = (r.st (r.decodeOf b)).branchPc) ∨
    (r.Overtaken (r.decodeOf b) (r.decodeOf c) ∧
      (r.st c).commitPc = (r.st (r.decodeOf b)).branchPc + 4#32) := by
  have hlt := decodeOf_lt hb h
  have hdc : r.decodeOf c < c := r.owner_lt c _ (r.head_mem c h.commits)
  have hn : r.decodeOf b + 1 + (r.decodeOf c - (r.decodeOf b + 1)) = r.decodeOf c := by omega
  have hfl : (r.st (r.decodeOf b)).flush = false :=
    flush_between_commits hb hf h (Nat.le_refl _) (by omega)
  have hs : r.fetchPort.Starts (r.decodeOf b + 1) (r.st (r.decodeOf b)).branchPc := by
    refine .inr ⟨r.decodeOf b, rfl, ?_, ?_⟩
    · change ((r.st (r.decodeOf b)).flush || (r.st (r.decodeOf b)).branch) = true
      rw [hj, Bool.or_true]
    · change (if (r.st (r.decodeOf b)).flush then _ else (r.st (r.decodeOf b)).branchPc) = _
      rw [hfl]
      rfl
  have hq : ∀ t, r.decodeOf b + 1 ≤ t → t < r.decodeOf c →
      FetchPort.redirects (r.fetchPort.ins t) = false ∧ r.fetchPort.delivers t = [] := by
    intro t h1 h2
    exact r.quiet_of_not_robWen t (robWen_between hb hf h h1 h2)
      (flush_between_commits hb hf h (by omega) (by omega))
  have hw := r.robWen_owner c _ (r.head_mem c h.commits)
  have hfirst := r.fetchPort.first_delivered (r.decodeOf b + 1)
    (r.decodeOf c - (r.decodeOf b + 1)) _ (r.st (r.decodeOf c)).if2de.pc hs
    (fun t h1 h2 => (hq t h1 (by omega)).1) (fun t h1 h2 => (hq t h1 (by omega)).2)
    (by rw [hn]; exact r.delivers_of_robWen _ hw)
  rw [hn] at hfirst
  rw [commitPc_owner c h.commits]
  rcases hfirst with ⟨hp, he⟩ | ⟨⟨t, ht, hp⟩, he⟩
  · refine .inl ⟨?_, he⟩
    rintro ⟨t, ht, hp'⟩
    exact hp t ht.1 ht.2 hp'
  · exact .inr ⟨⟨t, ht, hp⟩, he⟩

-- The misaligned bit of an entry, from decode to commit.

theorem getLsbD_deExcp (f : If2de) : (Decode.deExcp f).getLsbD 0 = f.excp.getLsbD 0 := by
  rw [Decode.deExcp, BitVec.getLsbD_or, BitVec.getLsbD_append]
  exact Bool.or_false _

theorem getLsbD_resultInfo (d : Nat) :
    (r.resultInfo d).excp.getLsbD 0 = (r.st d).if2de.excp.getLsbD 0 := by
  have hw : (Issue.wbInfo (r.info d)).excp.getLsbD 0 = (r.st d).if2de.excp.getLsbD 0 := by
    have hb : Issue.wbInfo (r.info d) = Decode.wbInfoOf (r.st d).operands := Decode.wbInfo_bus _ _
    rw [hb]
    exact getLsbD_deExcp _
  rw [resultInfo]
  split
  · rw [← hw]
    change (Agu.excp (Issue.agu (r.info d))).getLsbD 0 = _
    rw [Agu.excp, Agu.getLsbD_or_excp]
    exact Bool.or_false _
  · exact hw

theorem misaligned_of_commits (c : Nat) (hc : (r.st c).commits = true) :
    (r.st c).commitIn.info.excp.getLsbD 0 = !((r.st c).commitPc.extractLsb' 0 2 == 0#2) := by
  have hw := r.robWen_owner c _ (r.head_mem c hc)
  have hx := r.fetchPort.excp_if2de (r.owner c (r.st c).rob.head)
  rw [r.fetchPort_st] at hx
  have hi : (r.st c).commitIn.info = _ := r.info_of_commits c hc
  rw [hi, getLsbD_resultInfo, commitPc_owner c hc]
  exact hx (if2deValid_of_robWen _ hw).1

-- A `jalr` commits in cycle `b`, without exception and without interrupt.
structure JalrCommits (b : Nat) (rd rs1 : BitVec 5) (imm : BitVec 12) : Prop where
  commits : (r.st b).commits = true
  word : (r.st (r.decodeOf b)).if2de.intr = (Instr.jalr rd rs1 imm).encode
  excp : (r.st b).commitIn.info.excp = 0#16
  irq : Commit.csrIrq (r.st b).commitIn = 0#12

instance (b : Nat) (rd rs1 : BitVec 5) (imm : BitVec 12) : Decidable (r.JalrCommits b rd rs1 imm) :=
  decidable_of_iff ((r.st b).commits = true ∧
      (r.st (r.decodeOf b)).if2de.intr = (Instr.jalr rd rs1 imm).encode ∧
      (r.st b).commitIn.info.excp = 0#16 ∧ Commit.csrIrq (r.st b).commitIn = 0#12)
    ⟨fun ⟨hc, hw, hx, hi⟩ => ⟨hc, hw, hx, hi⟩, fun h => ⟨h.commits, h.word, h.excp, h.irq⟩⟩

section Jalr

variable {r} {b : Nat} {rd rs1 : BitVec 5} {imm : BitVec 12} (h : r.JalrCommits b rd rs1 imm)

include h

theorem JalrCommits.opcodeIs (code : BitVec 5) :
    Decode.opcodeIs code (r.st (r.decodeOf b)).if2de.intr = (0b11001#5 == code && true) := by
  rw [h.word, Instr.encode, Decode.opcodeIs_of_opcode _ _ _ (opcode_wordI ..)]
  rfl

theorem JalrCommits.robWen : (r.st (r.decodeOf b)).robWen = true :=
  r.robWen_owner b _ (r.head_mem b h.commits)

theorem JalrCommits.unitOf : r.unitOf (r.decodeOf b) = .bjp := by
  have hj : Decode.jalrOp (r.st (r.decodeOf b)).if2de.intr = true := h.opcodeIs _
  rw [Run.unitOf, ← Decode.selects_iff]
  simp [Decode.selects, Decode.branchSel, hj]

theorem JalrCommits.deExcp : Decode.deExcp (r.st (r.decodeOf b)).if2de = 0#16 := by
  have hu : r.unitOf (r.decodeOf b) ≠ .lsu := by
    rw [h.unitOf]
    decide
  exact (r.excp_of_commits b h.commits hu).symm.trans h.excp

theorem JalrCommits.accepts : (r.st (r.decodeOf b)).Accepts (.jalr rd rs1 imm) := by
  have hw := h.robWen
  simp only [Cpu.robWen, Bool.and_eq_true, Bool.not_eq_true'] at hw
  exact ⟨hw.1.1.1, hw.1.1.2, hw.1.2, h.deExcp, h.word⟩

theorem JalrCommits.flush : (r.st b).flush = false := by
  have hx : Commit.excpEn (r.st b).commitIn = false := by simp [Commit.excpEn, h.excp]
  have hi : Commit.irqEn (r.st b).commitIn = false := by simp [Commit.irqEn, h.irq]
  have hs : (r.st b).commitIn.issue = (r.st (r.decodeOf b)).robIssue :=
    r.issue_owner b _ (r.head_mem b h.commits)
  have hf : Decode.fenceOp (r.st (r.decodeOf b)).if2de.intr = false := h.opcodeIs _
  have hc : Decode.csrOp (r.st (r.decodeOf b)).if2de.intr = false := h.opcodeIs _
  have hfi : (r.st (r.decodeOf b)).robIssue.fenceIOp = false := by
    simp [Cpu.robIssue, Decode.fenceIOp, hf]
  have hm : (r.st (r.decodeOf b)).robIssue.mretOp = false := by
    simp [Cpu.robIssue, Decode.mretOp, Decode.systemOp, hc]
  rw [Cpu.flush, Commit.flush, hx, hi, hs, hfi, hm]
  exact Bool.and_false _

-- The register keeps its value up to the commit.
theorem JalrCommits.source :
    (r.st b).regfile.read rs1 = (r.st (r.decodeOf b)).regfile.read rs1 := by
  have ha := h.accepts
  have hlui : Decode.luiOp (r.st (r.decodeOf b)).if2de.intr = false := h.opcodeIs _
  have hau : Decode.auipcOp (r.st (r.decodeOf b)).if2de.intr = false := h.opcodeIs _
  have hj : Decode.jalOp (r.st (r.decodeOf b)).if2de.intr = false := h.opcodeIs _
  have hf : Decode.fenceOp (r.st (r.decodeOf b)).if2de.intr = false := h.opcodeIs _
  have hc : Decode.csrOp (r.st (r.decodeOf b)).if2de.intr = false := h.opcodeIs _
  have hn : (r.st (r.decodeOf b)).rs1Need = true := by
    simp [Cpu.rs1Need, Decode.rs1Need, Decode.ecallOp, Decode.ebreakOp, Decode.mretOp, Decode.wfiOp,
      Decode.systemOp, hlui, hau, hj, hf, hc, ha.kept, h.deExcp]
  have hs : Decode.rs1Idx (r.st (r.decodeOf b)).if2de.intr = rs1 := by
    rw [h.word]
    exact Decode.rs1Idx_wordI ..
  exact (r.unwritten_of_reads _ b rs1 h.commits rfl (.inl ⟨hn, hs⟩)).1

end Jalr

-- What the instruction set says about the commit after that of a `jalr`.
structure JalrFollows (c : Nat) (x1 : BitVec 32) (imm : BitVec 12) : Prop where
  pc : (r.st c).commitPc = jalrTarget x1 imm
  misaligned : (r.st c).commitIn.info.excp.getLsbD 0 = true →
    (x1 + imm.signExtend 32).getLsbD 1 = true

-- The core does not clear the bit.
theorem jalr_target_iff (r : Run) (b c : Nat) (rd rs1 : BitVec 5) (imm : BitVec 12)
    (h : r.JalrCommits b rd rs1 imm) (hn : r.NextCommit b c) :
    r.JalrFollows c ((r.st b).regfile.read rs1) imm ↔
      ((r.st b).regfile.read rs1 + imm.signExtend 32).getLsbD 0 = false ∧
        ¬ r.Overtaken (r.decodeOf b) (r.decodeOf c) := by
  obtain ⟨hj, hpc⟩ := Cpu.branch_of_jalr h.accepts
  have hx := r.misaligned_of_commits c hn.commits
  have hnext := r.commitPc_of_branch h.commits h.flush hn hj
  rw [hpc, ← h.source] at hnext
  rcases hnext with ⟨ho, hp⟩ | ⟨ho, hp⟩
  · rw [and_iff_left ho, ← Word.and_not_one_eq_iff]
    constructor
    · intro hf
      exact hf.pc.symm.trans hp
    · intro hb
      refine ⟨hp.trans hb.symm, fun hm => ?_⟩
      rw [Word.and_not_one_eq_iff] at hb
      rw [hx, hp, Bool.not_eq_true'] at hm
      by_contra h1
      rw [Bool.not_eq_true] at h1
      refine absurd ?_ (beq_eq_false_iff_ne.mp hm)
      refine BitVec.eq_of_getLsbD_eq fun i hi => ?_
      rw [BitVec.getLsbD_extractLsb', Nat.zero_add, BitVec.getLsbD_zero]
      obtain rfl | rfl : i = 0 ∨ i = 1 := by omega
      · rw [hb, Bool.and_false]
      · rw [h1, Bool.and_false]
  · constructor
    · intro hf
      exact absurd (hf.pc.symm.trans hp) (Word.and_not_one_ne_add _ _ (by decide) (by decide))
    · rintro ⟨-, hno⟩
      exact absurd ho hno

-- `auipc x5,0; jalr x31,imm(x5)`.
def jumpBy (imm : BitVec 12) : Run :=
  program false [(Instr.auipc 5#5 0#20).encode, (Instr.jalr 31#5 5#5 imm).encode]

theorem jalr_target_even : (jumpBy 12#12).JalrCommits 7 31#5 5#5 12#12 ∧
    (jumpBy 12#12).NextCommit 7 12 ∧
    (jumpBy 12#12).JalrFollows 12 (((jumpBy 12#12).st 7).regfile.read 5#5) 12#12 := by
  have h : (jumpBy 12#12).JalrCommits 7 31#5 5#5 12#12 := by decide +kernel
  have hq : ((jumpBy 12#12).st 12).commits = true ∧
      ∀ u < 12, 7 < u → ((jumpBy 12#12).st u).commits = false := by decide +kernel
  have hn : (jumpBy 12#12).NextCommit 7 12 := ⟨by decide, hq.1, fun u h1 h2 => hq.2 u h2 h1⟩
  refine ⟨h, hn, (jalr_target_iff _ 7 12 _ _ _ h hn).mpr ⟨by decide +kernel, ?_⟩⟩
  -- No fetch of this program makes an exception.
  have hd : (jumpBy 12#12).decodeOf 12 = 9 ∧
      ∀ u < 9, ((jumpBy 12#12).st u).ifetch.excpPipe.vld = false := by decide +kernel
  rw [hd.1]
  rintro ⟨u, ⟨-, hu⟩, -, -, hne, -⟩
  have hx := ((jumpBy 12#12).fetchPort.excp_ne_nil_iff u).mp hne
  rw [fetchPort_st] at hx
  exact Bool.noConfusion ((hd.2 u hu).symm.trans hx.1)

-- The jump to address 5 reports an exception at address 5, instead of going to 4.
theorem not_jalrFollows_odd : (jumpBy 5#12).JalrCommits 7 31#5 5#5 5#12 ∧
    (jumpBy 5#12).NextCommit 7 11 ∧ ((jumpBy 5#12).st 7).regfile.read 5#5 = 0#32 ∧
    ((jumpBy 5#12).st 11).commitPc = 5#32 ∧
    ((jumpBy 5#12).st 11).commitIn.info.excp.getLsbD 0 = true ∧
    ¬ (jumpBy 5#12).JalrFollows 11 (((jumpBy 5#12).st 7).regfile.read 5#5) 5#12 := by
  have h7 : (jumpBy 5#12).JalrCommits 7 31#5 5#5 5#12 ∧
      ((jumpBy 5#12).st 7).regfile.read 5#5 = 0#32 := by decide +kernel
  have h11 : ((jumpBy 5#12).st 11).commits = true ∧
      (∀ u < 11, 7 < u → ((jumpBy 5#12).st u).commits = false) ∧
      ((jumpBy 5#12).st 11).commitPc = 5#32 ∧
      ((jumpBy 5#12).st 11).commitIn.info.excp.getLsbD 0 = true := by decide +kernel
  have hn : (jumpBy 5#12).NextCommit 7 11 := ⟨by decide, h11.1, fun u h1 h2 => h11.2.1 u h2 h1⟩
  refine ⟨h7.1, hn, h7.2, h11.2.2.1, h11.2.2.2, fun h => ?_⟩
  have he := h.pc
  rw [h7.2, h11.2.2.1] at he
  exact absurd he (by decide)

end HiCore.Run
