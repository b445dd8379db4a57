import HiCore.Lib.Linked
import HiCore.Theorems.WriteBack
import HiCore.Trace.Fetch
import HiCore.Trace.Program

-- The committed instructions follow each other as the program says.
namespace HiCore.Run

-- The pc is aligned and inside the ITCM, in a cycle in which it is a fetch pc.
def LegalFetch (r : Run) (t : Nat) : Prop :=
  (r.st t).redirects = false → (r.st t).ifetch.pc.extractLsb' 0 2 = 0#2 ∧
    (r.st t).ifetch.pc.extractLsb' 16 16 = 0x0000#16

-- The pc of the instruction that decode has to accept next.
def decodePc (r : Run) : Nat → BitVec 32
  | 0 => 0#32
  | t + 1 =>
    if (r.st t).flush then (r.st t).flushPc
    else if (r.st t).robWen then (r.st t).robNextPc else r.decodePc t

-- The pc of the instruction that has to commit next.
def retirePc (r : Run) : Nat → BitVec 32
  | 0 => 0#32
  | t + 1 =>
    if (r.st t).commits then
      (if (r.st t).flush then (r.st t).flushPc else (r.st t).commitNextPc)
    else r.retirePc t

-- What is between the pc and decode, oldest first.
def front (r : Run) (t : Nat) : List (Nat × Bool) := (r.tags t).ifBuf ++ (r.tags t).ifq

variable {r : Run}

theorem not_iExcpQueueValid {t : Nat} (h : r.LegalFetch t) :
    (r.st t).ifetch.iExcpQueueValid (r.st t).branch (r.st t).flush = false := by
  cases hr : (r.st t).redirects with
  | true =>
    rw [Ifetch.iExcpQueueValid, ← Bool.not_or, Bool.or_comm]
    rw [Cpu.redirects] at hr
    rw [hr]
    rfl
  | false =>
    have hl := legal_of_pc _ (h hr).1 (h hr).2
    rw [Ifetch.legal, ← Bool.not_or, Bool.not_eq_true'] at hl
    rw [Ifetch.iExcpQueueValid, hl, Bool.and_false]

-- No fetch exception is ever recorded.
theorem excpPipe_not_vld {t : Nat} (h : ∀ u < t, r.LegalFetch u) :
    (r.st t).ifetch.excpPipe.vld = false := by
  induction t with
  | zero => rfl
  | succ t ih =>
    have hn : (r.st (t + 1)).ifetch.excpPipe.vld = _ := Pipe.vld_next false
      (r.st t).ifetch.excpPipe ((r.st t).ifetch.excpPipeIn (r.st t).ifetchIn)
    have hv : ((r.st t).ifetch.excpPipeIn (r.st t).ifetchIn).iVld = false :=
      not_iExcpQueueValid (h t (Nat.lt_succ_self t))
    rw [hn, Pipe.vldSet, hv, ih fun u hu => h u (Nat.lt_succ_of_lt hu)]
    rfl

-- Then every word for the fetch buffer comes from the fetch queue.
theorem fetched_eq (t : Nat) (hx : (r.st t).ifetch.excpPipe.vld = false) :
    (r.tags t).fetched (r.st t) = if (r.st t).ifqPop then (r.tags t).ifq.take 1 else [] := by
  cases hr : (r.st t).if2icacheRspValid with
  | false =>
    have hp : (r.st t).ifBufPush = false := by simp [Cpu.ifBufPush, Ifetch.iIf2deValid, hr, hx]
    have hq : (r.st t).ifqPop = false := by
      simp [Cpu.ifqPop, Queue.ren, Ifetch.memQueueIn, Cpu.ifetchIn, hr]
    rw [Tags.fetched, hp, hq]
    rfl
  | true =>
    have hv := r.oValid_of_rspValid t hr
    have hp : (r.st t).ifBufPush = (r.st t).ifqPop := by
      simp [Cpu.ifBufPush, Ifetch.iIf2deValid, hr, hx, hv, Cpu.ifqPop, Queue.ren,
        Ifetch.memQueueIn, Cpu.ifetchIn, Ifetch.iIf2deReady]
    rw [Tags.fetched, hp, hr]
    rfl

theorem head?_front (t : Nat) (hx : (r.st t).ifetch.excpPipe.vld = false)
    (h : (r.st t).if2deValid = true) :
    (r.front t).head? = some (r.fetchOf t, (r.st t).if2deCancel) := by
  have hh := (r.head?_decode t h).1
  rw [fetched_eq t hx] at hh
  rw [front]
  cases hb : (r.tags t).ifBuf with
  | cons x l =>
    rw [hb] at hh
    exact hh
  | nil =>
    rw [hb] at hh
    split at hh
    · rw [← hh]
      cases (r.tags t).ifq <;> rfl
    · exact absurd hh (by simp)

-- What decode takes, followed by what stays, is what was there followed by the
-- fetch of this cycle.
theorem front_succ (t : Nat) (hx : (r.st t).ifetch.excpPipe.vld = false)
    (hr : (r.st t).redirects = false) :
    (if (r.st t).ifBufPop then [(r.fetchOf t, (r.st t).if2deCancel)] else []) ++ r.front (t + 1) =
      r.front t ++ if (r.st t).ifqPush then [(t, false)] else [] := by
  have hbuf : (r.tags (t + 1)).ifBuf =
      Fifo.shift (r.st t).ifBufPop ((r.tags t).fetched (r.st t)) (r.tags t).ifBuf := by
    change Fifo.next (r.st t).redirects _ _ _ = _
    rw [Fifo.next, hr, Fifo.mark_false]
  have hifq : (r.tags (t + 1)).ifq = Fifo.shift (r.st t).ifqPop
      (if (r.st t).ifqPush then [(t, false)] else []) (r.tags t).ifq := by
    change Fifo.next (r.st t).redirects _ _ _ = _
    rw [Fifo.next, hr, Fifo.mark_false]
  have hpop : (if (r.st t).ifBufPop then [(r.fetchOf t, (r.st t).if2deCancel)] else []) =
      if (r.st t).ifBufPop then ((r.tags t).ifBuf ++ (r.tags t).fetched (r.st t)).take 1 else [] := by
    split
    · next hp =>
      obtain ⟨rest, hl⟩ :=
        List.head?_eq_some_iff.mp (r.head?_decode t (Bool.and_eq_true_iff.mp hp).1).1
      rw [hl]
      rfl
    · rfl
  have hfetched : (r.tags t).fetched (r.st t) = if (r.st t).ifqPop then
      ((r.tags t).ifq ++ if (r.st t).ifqPush then [(t, false)] else []).take 1 else [] := by
    rw [fetched_eq t hx]
    split
    · next hp =>
      have hv : (r.st t).ifetch.memQueue.oValid = true := (Bool.and_eq_true_iff.mp hp).1
      obtain ⟨f, rest, hf, -⟩ := Queue.rel_of_oValid (r.rel_ifq t) hv
      rw [hf]
      rfl
    · rfl
  rw [front, front, hbuf, hifq, hpop, ← List.append_assoc, Fifo.take_append_shift,
    List.append_assoc, List.append_assoc, hfetched, Fifo.take_append_shift]

-- The pc after the cycle.

theorem pc_succ_of_redirects (t : Nat) (h : (r.st t).redirects = true) :
    (r.st (t + 1)).ifetch.pc = if (r.st t).flush then (r.st t).flushPc else (r.st t).branchPc := by
  change dfflr ((r.st t).ifetch.pcEna (r.st t).ifetchIn) (if (r.st t).flush then (r.st t).flushPc
    else if (r.st t).branch then (r.st t).branchPc else _) _ = _
  rw [Cpu.redirects] at h
  cases hf : (r.st t).flush with
  | true =>
    have he : (r.st t).ifetch.pcEna (r.st t).ifetchIn = true := by
      simp [Ifetch.pcEna, Cpu.ifetchIn, hf]
    rw [he]
    rfl
  | false =>
    rw [hf, Bool.false_or] at h
    have he : (r.st t).ifetch.pcEna (r.st t).ifetchIn = true := by
      simp [Ifetch.pcEna, Cpu.ifetchIn, h]
    rw [he, h]
    rfl

theorem pc_succ (t : Nat) (hl : r.LegalFetch t) (hr : (r.st t).redirects = false) :
    (r.st (t + 1)).ifetch.pc =
      if (r.st t).ifqPush then (r.st t).ifetch.pc + 4#32 else (r.st t).ifetch.pc := by
  have hx := not_iExcpQueueValid hl
  rw [Cpu.redirects, Bool.or_eq_false_iff] at hr
  have he : (r.st t).ifetch.pcEna (r.st t).ifetchIn = (r.st t).ifqPush := by
    rw [Cpu.ifqPush_iff, Ifetch.pcEna]
    change ((((r.st t).if2icacheCmdValid && (r.st t).if2icacheCmdReady) ||
      ((r.st t).ifetch.iExcpQueueValid (r.st t).branch (r.st t).flush && _)) ||
        (r.st t).branch || (r.st t).flush) = _
    rw [hx, hr.1, hr.2, Bool.false_and, Bool.or_false, Bool.or_false, Bool.or_false]
  change dfflr ((r.st t).ifetch.pcEna (r.st t).ifetchIn) (if (r.st t).flush then (r.st t).flushPc
    else if (r.st t).branch then (r.st t).branchPc else _) _ = _
  rw [he, hr.1, hr.2]
  rfl

theorem decodes_of_robWen (s : Cpu) (h : s.robWen = true) : s.ifBufPop = true := by
  simp only [Cpu.robWen, Bool.and_eq_true] at h
  have hv : s.if2deValid = true := (Bool.and_eq_true_iff.mp h.1.1.1).1
  rw [Cpu.ifBufPop, Cpu.if2deReady, hv, h.1.1.1, h.1.1.2]
  rfl

theorem robWen_of_decodes (s : Cpu) (h : s.ifBufPop = true) (hc : s.if2deCancel = false)
    (hf : s.flush = false) : s.robWen = true := by
  simp only [Cpu.ifBufPop, Cpu.if2deReady, Bool.and_eq_true] at h
  rw [Cpu.robWen, h.2.1, h.2.2, hc, hf]
  rfl

-- A branch that is taken is accepted, unless a flush overrides it.
theorem robWen_of_branch (s : Cpu) (h : s.branch = true) (hf : s.flush = false) :
    s.robWen = true ∧ s.robNextPc = s.branchPc := by
  have he : s.branchEn = true := (Bool.and_eq_true_iff.mp h).1
  refine ⟨?_, ?_⟩
  · simp only [Cpu.branchEn, Bool.and_eq_true] at he
    rw [Cpu.robWen, he.1.1.1.1, he.1.1.1.2, he.1.1.2, hf]
    rfl
  · have hb : Branch.branch (Decode.branchIn s.operands) s.branchEn = true := h
    rw [Cpu.robNextPc, Branch.nextPc, hb, if_pos rfl]
    rfl

theorem robNextPc_of_not_branch (s : Cpu) (h : s.branch = false) :
    s.robNextPc = s.if2de.pc + 4#32 := by
  have hb : Branch.branch (Decode.branchIn s.operands) s.branchEn = false := h
  rw [Cpu.robNextPc, Branch.nextPc, hb, if_neg Bool.false_ne_true]
  rfl

-- The words in front of decode that are not cancelled lead from the pc that
-- decode waits for to the pc that is fetched next.
def Streams (r : Run) (t : Nat) : Prop :=
  Linked (fun f => (r.st f).ifetch.pc) (fun f => (r.st f).ifetch.pc + 4#32) (r.decodePc t)
    (Fifo.unmarked (r.front t)) (r.st t).ifetch.pc

theorem Streams.pc_decode {t : Nat} (h : r.Streams t) (hx : (r.st t).ifetch.excpPipe.vld = false)
    (hw : (r.st t).robWen = true) : (r.st t).if2de.pc = r.decodePc t := by
  obtain ⟨hv, hc, -⟩ := if2deValid_of_robWen _ hw
  have hh := head?_front t hx hv
  rw [hc] at hh
  obtain ⟨rest, hf⟩ := List.head?_eq_some_iff.mp hh
  rw [Streams, hf] at h
  exact (r.head?_decode t hv).2.1.trans h.1

theorem Streams.next_of_redirects {t : Nat} (hr : (r.st t).redirects = true) :
    r.Streams (t + 1) := by
  have hnil : Fifo.unmarked (r.front (t + 1)) = [] := by
    change Fifo.unmarked (Fifo.next (r.st t).redirects _ _ _ ++
      Fifo.next (r.st t).redirects _ _ _) = []
    rw [hr, Fifo.unmarked_append, Fifo.next, Fifo.next, Fifo.unmarked_mark_true,
      Fifo.unmarked_mark_true]
    rfl
  rw [Streams, hnil]
  change r.decodePc (t + 1) = _
  rw [decodePc, pc_succ_of_redirects t hr]
  cases hf : (r.st t).flush with
  | true => rfl
  | false =>
    rw [Cpu.redirects, hf, Bool.false_or] at hr
    obtain ⟨hw, hn⟩ := robWen_of_branch _ hr hf
    rw [hw, hn]
    rfl

theorem Streams.push {t : Nat} (h : r.Streams t) (hl : r.LegalFetch t)
    (hr : (r.st t).redirects = false) :
    Linked (fun f => (r.st f).ifetch.pc) (fun f => (r.st f).ifetch.pc + 4#32) (r.decodePc t)
      (Fifo.unmarked (r.front t ++ if (r.st t).ifqPush then [(t, false)] else []))
      (r.st (t + 1)).ifetch.pc := by
  rw [pc_succ t hl hr, Fifo.unmarked_append]
  refine h.append ?_
  split
  · exact .single t
  · rfl

theorem Streams.next {t : Nat} (h : r.Streams t) (hl : ∀ u < t + 1, r.LegalFetch u) :
    r.Streams (t + 1) := by
  cases hr : (r.st t).redirects with
  | true => exact .next_of_redirects hr
  | false =>
    have hx := excpPipe_not_vld fun u hu => hl u (Nat.lt_succ_of_lt hu)
    have hfb := hr
    rw [Cpu.redirects, Bool.or_eq_false_iff] at hfb
    have hpush := h.push (hl t (Nat.lt_succ_self t)) hr
    rw [← front_succ t hx hr, Fifo.unmarked_append] at hpush
    rw [Streams, decodePc, hfb.1, if_neg Bool.false_ne_true]
    cases hp : (r.st t).ifBufPop with
    | false =>
      have hw : (r.st t).robWen = false := by
        by_contra hw
        rw [decodes_of_robWen _ (Bool.not_eq_false _ ▸ hw)] at hp
        exact Bool.noConfusion hp
      rw [hp] at hpush
      rw [hw]
      exact hpush
    | true =>
      rw [hp] at hpush
      cases hc : (r.st t).if2deCancel with
      | true =>
        have hw : (r.st t).robWen = false := by simp [Cpu.robWen, hc]
        rw [hc] at hpush
        rw [hw]
        exact hpush
      | false =>
        have hw := robWen_of_decodes _ hp hc hfb.1
        obtain ⟨hv, -, -⟩ := if2deValid_of_robWen _ hw
        rw [hc] at hpush
        rw [hw, if_pos rfl, robNextPc_of_not_branch _ hfb.2, (r.head?_decode t hv).2.1]
        exact hpush.2

theorem streams {t : Nat} (hl : ∀ u < t, r.LegalFetch u) : r.Streams t := by
  induction t with
  | zero => rfl
  | succ t ih => exact (ih fun u hu => hl u (Nat.lt_succ_of_lt hu)).next hl

-- The entries of the reorder buffer lead from the pc that has to commit next to
-- the pc that decode waits for.
theorem linked_pending {t : Nat} (hl : ∀ u < t, r.LegalFetch u) :
    Linked (fun d => (r.st d).if2de.pc) (fun d => (r.st d).robNextPc) (r.retirePc t)
      (r.rob.pending t) (r.decodePc t) := by
  induction t with
  | zero => rfl
  | succ t ih =>
    have hl' : ∀ u < t, r.LegalFetch u := fun u hu => hl u (Nat.lt_succ_of_lt hu)
    rw [pending_succ, retirePc, decodePc]
    cases hf : (r.st t).flush with
    | true =>
      have hc : (r.st t).commits = true := (Bool.and_eq_true_iff.mp hf).1
      rw [hc]
      rfl
    | false =>
      have hpush : Linked (fun d => (r.st d).if2de.pc) (fun d => (r.st d).robNextPc) (r.retirePc t)
          (r.rob.pending t ++ if (r.st t).robWen then [t] else [])
          (if (r.st t).robWen then (r.st t).robNextPc else r.decodePc t) := by
        refine (ih hl').append ?_
        split
        · next hw =>
          rw [← (streams hl').pc_decode (excpPipe_not_vld hl') hw]
          exact .single t
        · rfl
      cases hc : (r.st t).commits with
      | false => exact hpush
      | true =>
        have hm := r.head_mem t hc
        obtain ⟨rest, hr⟩ := r.pending_eq_cons t hc
        rw [hr] at hpush
        have hn : (r.st t).commitNextPc = (r.st (r.owner t (r.st t).rob.head)).robNextPc :=
          congrArg RobIssue.nextPc (r.issue_owner t _ hm)
        rw [if_pos rfl, if_neg Bool.false_ne_true, hn, Fifo.shift, if_pos rfl, hr]
        exact hpush.2

theorem commitPc_owner (c : Nat) (hc : (r.st c).commits = true) :
    (r.st c).commitPc = (r.st (r.owner c (r.st c).rob.head)).if2de.pc := by
  change ((r.st c).rob.info (r.st c).rob.head).pc = _
  rw [r.info_of_commits c hc, r.pc_resultInfo]

theorem commitPc_eq (c : Nat) (hl : ∀ t < c, r.LegalFetch t) (hc : (r.st c).commits = true) :
    (r.st c).commitPc = (r.st (r.owner c (r.st c).rob.head)).if2de.pc ∧
      (r.st c).commitPc = r.retirePc c := by
  have hpc := commitPc_owner c hc
  obtain ⟨rest, hr⟩ := r.pending_eq_cons c hc
  have hlink := linked_pending hl
  rw [hr] at hlink
  exact ⟨hpc, hpc.trans hlink.1⟩

-- Between two commits the pc that has to commit next does not change.
theorem retirePc_of_quiet (b c : Nat) (hbc : b ≤ c)
    (hq : ∀ u, b ≤ u → u < c → (r.st u).commits = false) : r.retirePc c = r.retirePc b := by
  induction c, hbc using Nat.le_induction with
  | base => rfl
  | succ c hbc ih =>
    rw [retirePc, hq c hbc (Nat.lt_succ_self c)]
    exact ih fun u hu huc => hq u hu (Nat.lt_succ_of_lt huc)

-- It is enough that the fetches before the commit are legal.
theorem committed_control_flow (r : Run) (c : Nat) (hl : ∀ t < c, r.LegalFetch t)
    (hc : (r.st c).commits = true) :
    ((∀ b < c, (r.st b).commits = false) → (r.st c).commitPc = 0#32) ∧
    (∀ b < c, (r.st b).commits = true → (∀ u, b < u → u < c → (r.st u).commits = false) →
      (r.st c).commitPc =
        if (r.st b).flush then (r.st b).flushPc else (r.st b).commitNextPc) ∧
    (∀ d f, r.owner c (r.st c).rob.head = d → r.fetchOf d = f →
      (r.st f).if2icacheCmdValid = true ∧ (r.st f).if2icacheCmdReady = true ∧
        (r.st f).ifetch.pc = (r.st c).commitPc ∧
        (r.st d).if2de.intr = (r.st f).itcm.ram.memR (Tcm.index (r.st c).commitPc)) := by
  obtain ⟨hpc, hret⟩ := commitPc_eq c hl hc
  refine ⟨fun hq => ?_, fun b hbc hb hq => ?_, ?_⟩
  · rw [hret, retirePc_of_quiet 0 c (Nat.zero_le c) fun u _ huc => hq u huc]
    rfl
  · rw [hret, retirePc_of_quiet (b + 1) c hbc hq, retirePc, hb, if_pos rfl]
  · rintro d f rfl rfl
    have hm := r.head_mem c hc
    obtain ⟨hv, -, -⟩ := if2deValid_of_robWen _ (r.robWen_owner c _ hm)
    obtain ⟨-, hw, hr, hlegal⟩ := r.head?_decode _ hv
    have hlt := Nat.lt_trans (r.fetchOf_lt _ hv) (r.owner_lt c _ hm)
    obtain ⟨hal, hin⟩ := hl _ hlt hr
    obtain ⟨hpush, hword⟩ := hlegal (legal_of_pc _ hal hin)
    rw [Cpu.ifqPush_iff, Bool.and_eq_true] at hpush
    refine ⟨hpush.1, hpush.2, hw.symm.trans hpc.symm, ?_⟩
    rw [hword, hpc, hw]

theorem control_flow_storeLoad :
    (storeLoad.st 5).commitPc = (storeLoad.st 4).commitNextPc ∧
      (storeLoad.st 2).if2de.intr =
        (storeLoad.st 1).itcm.ram.memR (Tcm.index (storeLoad.st 5).commitPc) := by
  have hl : ∀ t < 5, storeLoad.LegalFetch t := by
    unfold LegalFetch
    decide +kernel
  obtain ⟨-, hnext, hword⟩ := committed_control_flow storeLoad 5 hl (by decide +kernel)
  refine ⟨?_, (hword 2 1 (by decide +kernel) (by decide +kernel)).2.2.2⟩
  rw [hnext 4 (by decide) (by decide +kernel) fun u _ _ => by omega]
  decide +kernel

end HiCore.Run
