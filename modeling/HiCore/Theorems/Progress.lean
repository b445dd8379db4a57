import HiCore.Lib.Progress
import HiCore.Theorems.Issue
import HiCore.Theorems.Latency

-- The oldest instruction of the reorder buffer is written back in a bounded number of cycles,
-- wherever it is.
namespace HiCore.Run

open Progress
open SlotState

variable {r : Run} {t d : Nat}

-- The instruction at the head is still in flight in the next cycle, or commits then.

theorem HeadWaits.inflight (h : r.HeadWaits t d) : d ∈ (r.tags t).inflight :=
  ((r.tracked t).mapped d).mpr ⟨_, h.state, h.owner⟩

theorem HeadWaits.succ (h : r.HeadWaits t d) (hd : d ∈ (r.tags (t + 1)).inflight) :
    r.HeadWaits (t + 1) d := by
  refine r.headWaits_of_inflight (t + 1) d hd ?_
  rw [r.head_succ_of_not_commits t h.not_commits]
  exact h.ptr

theorem HeadWaits.flush (h : r.HeadWaits t d) : (r.st t).flush = false :=
  flush_of_not_commits _ h.not_commits

theorem HeadWaits.commits (h : r.HeadWaits t d) (hw : d ∈ (r.tags t).written (r.st t)) :
    (r.st (t + 1)).commits = true := by
  have hs := r.state_of_written t d h.flush hw
  rw [h.ptr, ← r.head_succ_of_not_commits t h.not_commits] at hs
  exact r.commits_of_state _ hs

-- A commit by cycle `t + n`.
def Commits (r : Run) (n t : Nat) : Prop := Within (fun u => (r.st u).commits = true) n t

theorem Commits.of_written (h : r.HeadWaits t d) (hw : d ∈ (r.tags t).written (r.st t)) :
    r.Commits 1 t := Within.later (.now (n := 0) (h.commits hw))

-- The response queue. An access takes two cycles on the bus.

theorem memq_succ (hf : (r.st t).flush = false) : (r.tags (t + 1)).memq =
    Fifo.shift (r.st t).biu.splitFifo.vld (if (r.st t).memPush then (r.tags t).agu else [])
      (r.tags t).memq := by
  change Fifo.next _ _ _ _ = _
  rw [hf, Fifo.next, Fifo.mark_false, memPop_eq]

theorem length_memq_le (r : Run) (t : Nat) : (r.tags t).memq.length ≤ 4 := by
  rw [← (r.rel_memq t).length_eq, Queue.length_items]
  exact r.wf_memq t

theorem lsuCmdValid_of_memq (hv : (r.st t).biu.splitFifo.vld = false)
    (hm : (r.tags t).memq ≠ []) : (r.st t).lsuCmdValid = true := by
  have hc : (r.st t).lsu.memBypbuf.items ≠ [] := by
    intro hn
    have hrel := r.rel_cmd t
    rw [hn] at hrel
    have hq := r.tags_memq t
    rw [r.tags_biu_of_not_vld t hv, List.forall₂_nil_left_iff.mp hrel] at hq
    exact hm (List.map_eq_nil_iff.mp hq)
  exact (Bypbuf.oVld_iff _ _).mpr (.inl hc)

-- The instruction has `k` cycles to wait in the response queue.
def Answered (r : Run) (d t k : Nat) : Prop :=
  (r.st t).commits = true ∨ (r.HeadWaits t d ∧ ∃ a b, (r.tags t).memq = a ++ (d, false) :: b ∧
    k = 2 * a.length + if (r.st t).biu.splitFifo.vld then 1 else 2)

theorem Answered.step {k : Nat} (h : r.Answered d t k) (hf : r.Fetches t) :
    (r.st t).commits = true ∨ ∃ j < k, r.Answered d (t + 1) j := by
  rcases h with h | ⟨hw, a, b, hm, rfl⟩
  · exact .inl h
  right
  have hs := memq_succ hw.flush
  have hv := r.biu_vld_succ t
  rw [r.cmdFires_eq t hf] at hv
  have hstay : ∀ a' b', (r.tags (t + 1)).memq = a' ++ (d, false) :: b' → r.HeadWaits (t + 1) d := by
    intro a' b' he
    refine hw.succ (r.mem_inflight_memq (t + 1) d ?_)
    rw [he]
    exact List.mem_append_right _ List.mem_cons_self
  cases hb : (r.st t).biu.splitFifo.vld with
  | false =>
    have hc := lsuCmdValid_of_memq hb (by rw [hm]; simp)
    rw [hc, hb] at hv
    rw [hb, hm, Fifo.shift_false, List.append_assoc, List.cons_append] at hs
    refine ⟨2 * a.length + 1, by simp, .inr ⟨hstay _ _ hs, a, _, hs, ?_⟩⟩
    rw [hv]
    rfl
  | true =>
    rw [hb, Bool.not_true, Bool.and_false] at hv
    cases a with
    | nil =>
      refine ⟨0, by simp, .inl (hw.commits ?_)⟩
      simp only [Tags.written, Multiset.mem_add]
      right
      rw [r.memPop_eq, hb, if_pos rfl, Fifo.mem_live, hm]
      exact List.mem_cons_self
    | cons x a =>
      rw [hb, hm, Fifo.shift, if_pos rfl, List.cons_append, List.cons_append, List.tail_cons,
        List.append_assoc, List.cons_append] at hs
      refine ⟨2 * a.length + 2, ?_, .inr ⟨hstay _ _ hs, a, _, hs, ?_⟩⟩
      · rw [if_pos rfl, List.length_cons]
        omega
      · rw [hv]
        rfl

-- Where the instruction at the head is, and how long it takes from there.

section Stages

variable {T : Nat} (hf : ∀ u ≤ T, r.Fetches u)

include hf in
theorem commits_of_memq (hT : t + 8 ≤ T) (h : r.HeadWaits t d)
    (hm : (d, false) ∈ (r.tags t).memq) : r.Commits 8 t := by
  obtain ⟨a, b, hab⟩ := List.append_of_mem hm
  have hl := r.length_memq_le t
  rw [hab, List.length_append, List.length_cons] at hl
  have hk : (2 * a.length + if (r.st t).biu.splitFifo.vld then 1 else 2) ≤ 8 := by
    split <;> omega
  refine Within.mono (within_of_rank (r.Answered d) (fun u k hu hn hi => ?_)
    (.inr ⟨h, a, b, hab, rfl⟩)) hk
  exact hi.step (hf u (by omega))

theorem commits_of_alu (h : r.HeadWaits t d) (hm : (d, false) ∈ (r.tags t).alu) :
    r.Commits 1 t := by
  refine .of_written h ?_
  simp only [Tags.written, Multiset.mem_add, Fifo.mem_live]
  exact .inl (.inl (.inl (.inr hm)))

theorem commits_of_csr (h : r.HeadWaits t d) (hm : (d, false) ∈ (r.tags t).csr) :
    r.Commits 1 t := by
  refine .of_written h ?_
  simp only [Tags.written, Multiset.mem_add, Fifo.mem_live]
  exact .inl (.inl (.inr hm))

theorem excpPop_of_mem (hm : (d, false) ∈ (r.tags t).excp) :
    (r.st t).excpPop = !(r.st t).biu.splitFifo.vld := by
  have hv : (r.st t).lsu.excpQueue.vld = true := by
    rw [← Bool.not_eq_false]
    intro hv
    rw [Pipe.rel_of_not_vld (r.rel_excp t) hv] at hm
    exact List.not_mem_nil hm
  rw [Cpu.excpPop, Pipe.vldClr, hv, Lsu.oExcpQueueReady, lsuRspValid_eq]
  rfl

-- An exception of an access waits for a cycle without a response.
theorem commits_of_excp (h : r.HeadWaits t d) (hm : (d, false) ∈ (r.tags t).excp) :
    r.Commits 2 t := by
  have free : ∀ u, r.HeadWaits u d → (d, false) ∈ (r.tags u).excp →
      (r.st u).biu.splitFifo.vld = false → r.Commits 1 u := by
    intro u hu he hv
    refine .of_written hu ?_
    simp only [Tags.written, Multiset.mem_add]
    refine .inl (.inr ?_)
    rw [excpPop_of_mem he, hv, Bool.not_false, if_pos rfl, Fifo.mem_live]
    exact he
  cases hv : (r.st t).biu.splitFifo.vld with
  | false => exact (free t h hm hv).mono (Nat.le_succ 1)
  | true =>
    have hs : (d, false) ∈ (r.tags (t + 1)).excp := by
      change _ ∈ Fifo.next _ _ _ _
      rw [h.flush, excpPop_of_mem hm, hv, Fifo.next, Fifo.mark_false]
      exact List.mem_append_left _ hm
    have hi : d ∈ (r.tags (t + 1)).inflight := by
      simp only [Tags.inflight, Multiset.mem_add, Fifo.mem_live]
      exact .inl (.inr hs)
    refine Within.later (free _ (h.succ hi) hs ?_)
    rw [biu_vld_succ, not_cmdFires_of_biu_vld _ hv]

-- The AGU's register.

theorem agu_of_mem (hm : (d, false) ∈ (r.tags t).agu) : (r.tags t).agu = [(d, false)] ∧
    (r.st t).agu2lsu.vld = true ∧ (r.st t).agu2lsu.cancel = false ∧
      (r.st t).agu2lsu.dat = r.aguOf d := by
  cases hv : (r.st t).agu2lsu.vld with
  | false => simp [Pipe.rel_of_not_vld (r.rel_agu t) hv] at hm
  | true =>
    obtain ⟨e, he, -, hdat⟩ := r.agu_of_vld t hv
    have hmem := hm
    rw [he, List.mem_singleton, Prod.mk.injEq] at hmem
    obtain ⟨rfl, hc⟩ := hmem
    exact ⟨hc ▸ he, rfl, hc.symm, hdat⟩

theorem agu_succ_of_not_ready (h : r.HeadWaits t d) (hm : (d, false) ∈ (r.tags t).agu)
    (hr : (r.st t).agu2lsuReady = false) :
    (d, false) ∈ (r.tags (t + 1)).agu ∧ r.HeadWaits (t + 1) d := by
  have hs : (d, false) ∈ (r.tags (t + 1)).agu := by
    change _ ∈ Fifo.next _ _ _ _
    rw [h.flush, Cpu.aguPop, Pipe.vldClr, hr, Bool.and_false, Fifo.next, Fifo.mark_false]
    exact List.mem_append_left _ hm
  exact ⟨hs, h.succ (r.mem_inflight_agu (t + 1) d hs)⟩

theorem iReady_iff_length (r : Run) (t : Nat) :
    (r.st t).lsu.memQueue.iReady = true ↔ (r.tags t).memq.length ≠ 4 := by
  rw [Queue.iReady_iff, (r.rel_memq t).length_eq]
  exact Iff.rfl

-- The command buffer never holds more than the response queue.
theorem iRdy_of_room (h : (r.tags t).memq.length < 4) : (r.st t).lsu.memBypbuf.iRdy = true := by
  have hq := congrArg List.length (r.tags_memq t)
  rw [List.length_append, Fifo.tags, Fifo.tags, Fifo.tags, List.length_map, List.length_map,
    List.length_map] at hq
  rw [Bypbuf.iRdy_iff, (r.rel_cmd t).length_eq]
  omega

include hf in
theorem commits_of_agu_room (hT : t + 9 ≤ T) (h : r.HeadWaits t d)
    (hm : (d, false) ∈ (r.tags t).agu) (he : Lsu.hasExcp (r.aguOf d) = false)
    (hl : (r.tags t).memq.length < 4) : r.Commits 9 t := by
  obtain ⟨hg, hv, hc, hdat⟩ := agu_of_mem hm
  have hp : (r.st t).memPush = true := (memPush_iff _).mpr
    ⟨hv, hdat ▸ he, hc, iRdy_of_room hl, (r.iReady_iff_length t).mpr (Nat.ne_of_lt hl)⟩
  have hs : (d, false) ∈ (r.tags (t + 1)).memq := by
    change _ ∈ Fifo.next _ _ _ _
    rw [h.flush, hp, if_pos rfl, hg]
    refine Fifo.mem_next_of_push _ _ _ _ List.mem_cons_self fun hpop => ?_
    obtain ⟨e, rest, hq, -⟩ := Queue.rel_of_oValid (r.rel_memq t) (Bool.and_eq_true_iff.mp hpop).1
    exact hq ▸ List.cons_ne_nil _ _
  have hi := h.succ (r.mem_inflight_memq (t + 1) d hs)
  exact Within.later (commits_of_memq hf (by omega) hi hs)

-- A full queue has room again in two cycles.
theorem agu_step_of_full (hft : r.Fetches t) (h : r.HeadWaits t d)
    (hm : (d, false) ∈ (r.tags t).agu) (he : Lsu.hasExcp (r.aguOf d) = false)
    (hl : (r.tags t).memq.length = 4) : (d, false) ∈ (r.tags (t + 1)).agu ∧
      r.HeadWaits (t + 1) d ∧
      (r.tags (t + 1)).memq.length = 4 - (r.st t).biu.splitFifo.vld.toNat ∧
      (r.st (t + 1)).biu.splitFifo.vld = !(r.st t).biu.splitFifo.vld := by
  obtain ⟨-, -, hc, hdat⟩ := agu_of_mem hm
  have hq : (r.st t).lsu.memQueue.iReady = false := by
    rw [← Bool.not_eq_true, r.iReady_iff_length t, not_not]
    exact hl
  have hr : (r.st t).agu2lsuReady = false := by
    rw [Cpu.agu2lsuReady, Lsu.iAgu2lsuReady, hc, hdat, he, hq]
    rfl
  have hp : (r.st t).memPush = false := by
    rw [← Bool.not_eq_true, memPush_iff]
    exact fun hp => Bool.noConfusion (hq.symm.trans hp.2.2.2.2)
  obtain ⟨hs, hi⟩ := agu_succ_of_not_ready h hm hr
  refine ⟨hs, hi, ?_, ?_⟩
  · rw [memq_succ h.flush, hp, if_neg Bool.false_ne_true, Fifo.shift_nil]
    cases (r.st t).biu.splitFifo.vld <;> simp [hl]
  · rw [biu_vld_succ, r.cmdFires_eq t hft]
    cases hb : (r.st t).biu.splitFifo.vld with
    | true => simp
    | false =>
      have hne : (r.tags t).memq ≠ [] := by
        rw [← List.length_pos_iff, hl]
        decide
      rw [lsuCmdValid_of_memq hb hne]
      rfl

include hf in
theorem commits_of_agu_mem (hT : t + 11 ≤ T) (h : r.HeadWaits t d)
    (hm : (d, false) ∈ (r.tags t).agu) (he : Lsu.hasExcp (r.aguOf d) = false) :
    r.Commits 11 t := by
  have hlen := r.length_memq_le t
  rcases Nat.lt_or_eq_of_le hlen with hl | hl
  · exact (commits_of_agu_room hf (by omega) h hm he hl).mono (by decide)
  obtain ⟨hm1, h1, hl1, hv1⟩ := agu_step_of_full (hf t (by omega)) h hm he hl
  cases hb : (r.st t).biu.splitFifo.vld with
  | true =>
    rw [hb, Bool.toNat_true] at hl1
    exact Within.mono (Within.later (commits_of_agu_room hf (by omega) h1 hm1 he (by omega)))
      (by decide)
  | false =>
    rw [hb] at hl1 hv1
    obtain ⟨hm2, h2, hl2, -⟩ := agu_step_of_full (hf (t + 1) (by omega)) h1 hm1 he hl1
    rw [hv1] at hl2
    exact (commits_of_agu_room hf (by omega) h2 hm2 he
      (hl2 ▸ by decide)).later.later

theorem commits_of_agu_excp (h : r.HeadWaits t d) (hm : (d, false) ∈ (r.tags t).agu)
    (he : Lsu.hasExcp (r.aguOf d) = true) : r.Commits 4 t := by
  have push : ∀ u, r.HeadWaits u d → (d, false) ∈ (r.tags u).agu →
      (r.st u).lsu.excpQueue.iRdy false (Lsu.oExcpQueueReady (r.st u).lsuRspValid) = true →
        r.Commits 3 u := by
    intro u hu hmu hr
    obtain ⟨hg, hv, hc, hdat⟩ := agu_of_mem hmu
    have hp : (r.st u).excpPush = true := (excpPush_iff _).mpr ⟨hv, hdat ▸ he, hc, hr⟩
    have hs : (d, false) ∈ (r.tags (u + 1)).excp := by
      change _ ∈ Fifo.next _ _ _ _
      rw [hu.flush, hp, if_pos rfl, hg]
      refine Fifo.mem_next_of_push _ _ _ _ List.mem_cons_self fun hpop => ?_
      obtain ⟨e, hx, -⟩ := Pipe.rel_of_vld (r.rel_excp u) (Bool.and_eq_true_iff.mp hpop).1
      exact hx ▸ List.cons_ne_nil _ _
    have hi : d ∈ (r.tags (u + 1)).inflight := by
      simp only [Tags.inflight, Multiset.mem_add, Fifo.mem_live]
      exact .inl (.inr hs)
    exact Within.later (commits_of_excp (hu.succ hi) hs)
  cases hr : (r.st t).lsu.excpQueue.iRdy false (Lsu.oExcpQueueReady (r.st t).lsuRspValid) with
  | true => exact (push t h hm hr).mono (Nat.le_succ 3)
  | false =>
    -- The register is taken and the bus has a response; the next cycle has none.
    have hv : (r.st t).biu.splitFifo.vld = true := by
      rw [← lsuRspValid_eq, ← Bool.not_eq_false]
      intro hn
      rw [hn, Lsu.oExcpQueueReady, Bool.not_false, Pipe.iRdy_true] at hr
      exact Bool.noConfusion hr
    obtain ⟨-, -, hc, hdat⟩ := agu_of_mem hm
    have hready : (r.st t).agu2lsuReady = false := by
      rw [Cpu.agu2lsuReady, Lsu.iAgu2lsuReady, hc, hdat, he]
      exact hr
    obtain ⟨hs, hi⟩ := agu_succ_of_not_ready h hm hready
    refine Within.later (push (t + 1) hi hs ?_)
    rw [lsuRspValid_eq, biu_vld_succ, not_cmdFires_of_biu_vld _ hv, Lsu.oExcpQueueReady,
      Bool.not_false, Pipe.iRdy_true]

include hf in
theorem commits_of_agu (hT : t + 11 ≤ T) (h : r.HeadWaits t d)
    (hm : (d, false) ∈ (r.tags t).agu) : r.Commits 11 t := by
  cases he : Lsu.hasExcp (r.aguOf d) with
  | true => exact (commits_of_agu_excp h hm he).mono (by decide)
  | false => exact commits_of_agu_mem hf hT h hm he

-- The issue register.

theorem de2ex_of_mem (hm : (d, false) ∈ (r.tags t).de2ex) : (r.tags t).de2ex = [(d, false)] ∧
    (r.st t).de2ex.vld = true ∧ (r.st t).de2ex.cancel = false ∧ (r.st t).deInfo = r.info d := by
  cases hv : (r.st t).de2ex.vld with
  | false => simp [Pipe.rel_of_not_vld (r.rel_de2ex t) hv] at hm
  | true =>
    obtain ⟨e, he, hi⟩ := r.de2ex_of_vld t hv
    have hmem := hm
    rw [he, List.mem_singleton, Prod.mk.injEq] at hmem
    obtain ⟨rfl, hc⟩ := hmem
    exact ⟨hc ▸ he, rfl, hc.symm, hi⟩

-- What is in the AGU's register in front of the oldest instruction is cancelled, and leaves.
theorem aguPipeReady_of_de2ex (h : r.HeadWaits t d) (hm : (d, false) ∈ (r.tags t).de2ex) :
    (r.st t).aguPipeReady = true := by
  rw [Cpu.aguPipeReady, Pipe.iRdy, if_neg Bool.false_ne_true]
  cases hv : (r.st t).agu2lsu.vld with
  | false => rfl
  | true =>
    obtain ⟨e, he, -⟩ := r.agu_of_vld t hv
    have hlt : e < d := by
      have hp := (r.path_sorted t).1
      rw [path, waiting, he, (de2ex_of_mem hm).1, Fifo.tags, Fifo.tags, Fifo.tags, Fifo.tags] at hp
      exact List.rel_of_pairwise_cons (List.pairwise_append.mp (List.pairwise_append.mp hp).2.1).2.1
        (List.mem_cons_self (l := []))
    have hc : (r.st t).agu2lsu.cancel = true := by
      rw [← Bool.not_eq_false]
      intro hc
      have hi := r.mem_inflight_agu t e (by rw [he, hc]; exact List.mem_cons_self)
      obtain ⟨hs, ho⟩ := (r.tracked t).owner_of_mem (fun u _ => r.lawful u) e hi
      have hw := r.mem_of_mapped t _ hs
      by_cases hn : r.ptrOf e = (r.st t).rob.head
      · rw [hn, h.owner] at ho
        omega
      · have := r.owner_head_lt t _ hw hn
        rw [h.owner, ho] at this
        omega
    simp [Pipe.vldClr, hv, Cpu.agu2lsuReady, Lsu.iAgu2lsuReady, hc]

theorem aguReady_of_de2ex (h : r.HeadWaits t d) (hm : (d, false) ∈ (r.tags t).de2ex)
    (hu : r.unitOf d = .lsu) : (r.st t).aguReady = true := by
  obtain ⟨-, hv, -, hi⟩ := de2ex_of_mem hm
  have hsel : (r.st t).aguValid = true := by
    rw [Cpu.aguValid, hi, (r.unitOf_of_sel d).2.2.1, hv, decide_eq_true hu]
    rfl
  have hptr : (Issue.agu (r.info d)).aguInfo.robPtr = (r.st t).rob.head :=
    (r.robPtr_info d).trans h.ptr
  have hs : (Issue.agu (r.info d)).storeOp = !(Issue.agu (r.info d)).loadOp := by
    rw [r.agu_info d hu]
    exact Decode.storeOp_of_lsu _ hu
  rw [Cpu.aguReady, aguPipeReady_of_de2ex h hm, Cpu.aguPipeValid, Agu.iAgu2lsuValid, hsel, hi,
    hptr, hs]
  cases (Issue.agu (r.info d)).loadOp <;> simp

include hf in
theorem commits_of_de2ex (hT : t + 12 ≤ T) (h : r.HeadWaits t d)
    (hm : (d, false) ∈ (r.tags t).de2ex) : r.Commits 12 t := by
  obtain ⟨hg, hv, hc, hi⟩ := de2ex_of_mem hm
  obtain ⟨-, h2, h3, h4, h5, h6⟩ := r.issues_of_unit t d hv hi
  cases hu : r.unitOf d with
  | bjp =>
    have hw : (r.st t).bjpWb.wen = true := by
      rw [Cpu.bjpWb, h5, hc, h.flush, decide_eq_true hu]
      rfl
    refine (Commits.of_written h ?_).mono (by decide)
    simp only [Tags.written, Multiset.mem_add]
    refine .inl (.inl (.inl (.inl ?_)))
    rw [hw, Bool.true_or, if_pos rfl, Fifo.mem_live]
    exact hm
  | nop =>
    have hw : (r.st t).nopWbWen = true := by
      rw [Cpu.nopWbWen, h6, hc, h.flush, decide_eq_true hu]
      rfl
    refine (Commits.of_written h ?_).mono (by decide)
    simp only [Tags.written, Multiset.mem_add]
    refine .inl (.inl (.inl (.inl ?_)))
    rw [hw, Bool.or_true, if_pos rfl, Fifo.mem_live]
    exact hm
  | alu =>
    have hs : (d, false) ∈ (r.tags (t + 1)).alu := by
      change _ ∈ Fifo.next _ _ _ _
      rw [h.flush, h2, decide_eq_true hu, if_pos rfl]
      refine Fifo.mem_next_of_push _ _ _ _ hm fun hpop => ?_
      obtain ⟨e, hx, -⟩ := Pipe.rel_of_vld (r.rel_alu t) hpop
      exact hx ▸ List.cons_ne_nil _ _
    have hin : d ∈ (r.tags (t + 1)).inflight := by
      simp only [Tags.inflight, Multiset.mem_add, Fifo.mem_live]
      exact .inl (.inl (.inl (.inl (.inr hs))))
    exact Within.mono (Within.later (commits_of_alu (h.succ hin) hs)) (by decide)
  | csr =>
    have hs : (d, false) ∈ (r.tags (t + 1)).csr := by
      change _ ∈ Fifo.next _ _ _ _
      rw [h.flush, h3, decide_eq_true hu, if_pos rfl]
      refine Fifo.mem_next_of_push _ _ _ _ hm fun hpop => ?_
      obtain ⟨e, hx, -⟩ := Pipe.rel_of_vld (r.rel_csr t) hpop
      exact hx ▸ List.cons_ne_nil _ _
    have hin : d ∈ (r.tags (t + 1)).inflight := by
      simp only [Tags.inflight, Multiset.mem_add, Fifo.mem_live]
      exact .inl (.inl (.inl (.inr hs)))
    exact Within.mono (Within.later (commits_of_csr (h.succ hin) hs)) (by decide)
  | lsu =>
    have hs : (d, false) ∈ (r.tags (t + 1)).agu := by
      change _ ∈ Fifo.next _ _ _ _
      rw [h.flush, h4, decide_eq_true hu, aguReady_of_de2ex h hm hu, Bool.and_self, if_pos rfl]
      refine Fifo.mem_next_of_push _ _ _ _ hm fun hpop => ?_
      obtain ⟨e, hx, -⟩ := r.agu_of_vld t (Bool.and_eq_true_iff.mp hpop).1
      exact hx ▸ List.cons_ne_nil _ _
    exact Within.later (commits_of_agu hf (by omega) (h.succ (r.mem_inflight_agu _ d hs)) hs)

-- The oldest instruction.
include hf in
theorem commits_of_headWaits (hT : t + 12 ≤ T) (h : r.HeadWaits t d) : r.Commits 12 t := by
  have hm := h.inflight
  simp only [Tags.inflight, Multiset.mem_add, Fifo.mem_live] at hm
  rcases hm with ((((hm | hm) | hm) | hm) | hm) | hm
  · exact commits_of_de2ex hf hT h hm
  · exact (commits_of_alu h hm).mono (by decide)
  · exact (commits_of_csr h hm).mono (by decide)
  · exact (commits_of_agu hf (by omega) h hm).mono (by decide)
  · exact (commits_of_excp h hm).mono (by decide)
  · exact (commits_of_memq hf (by omega) h hm).mono (by decide)

include hf in
theorem commits_of_not_empty (hT : t + 12 ≤ T) (he : (r.st t).rob.empty = false) :
    r.Commits 12 t := by
  have hpos : 0 < (r.st t).rob.occupancy := by
    rw [Nat.pos_iff_ne_zero, Ne, ← Rob.empty_iff, he]
    exact Bool.false_ne_true
  obtain ⟨rest, hw, -⟩ := (r.wf t).window_eq_cons hpos
  have hm : (r.st t).rob.head ∈ (r.st t).rob.window := hw ▸ List.mem_cons_self
  cases hs : (r.st t).rob.state (r.st t).rob.head with
  | EMPTY_S => exact absurd hs (((r.wf t).live _).mpr hm)
  | MAPPED_S =>
    exact commits_of_headWaits hf hT ⟨ptrOf_owner (fun u _ => r.lawful u) _ hm, hs, rfl⟩
  | WRITEBACK_S => exact .now (r.commits_of_state t hs)

end Stages

theorem rob_commits (r : Run) (t : Nat) (hl : ∀ u < t + 12, r.LegalFetch u)
    (he : (r.st t).rob.empty = false) : ∃ u, t ≤ u ∧ u ≤ t + 12 ∧ (r.st u).commits = true := by
  refine commits_of_not_empty (T := t + 12) (fun u hu => ?_) (Nat.le_refl _) he
  exact r.fetches_of_legal u fun v hv => hl v (by omega)

-- The first instruction has just been decoded.
theorem rob_commits_storeLoad : ∃ u, 3 ≤ u ∧ u ≤ 15 ∧ (storeLoad.st u).commits = true := by
  have hl : ∀ u < 15, storeLoad.LegalFetch u := by
    unfold LegalFetch
    decide +kernel
  exact rob_commits storeLoad 3 hl (by decide +kernel)

end HiCore.Run
