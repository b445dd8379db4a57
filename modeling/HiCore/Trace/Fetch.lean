import HiCore.Refine.FetchPort
import HiCore.Trace.Lockstep

-- The front end of the core, a run of the fetch unit and the ITCM port.
namespace HiCore

namespace Cpu

theorem ifqPush_iff (s : Cpu) : s.ifqPush = (s.if2icacheCmdValid && s.if2icacheCmdReady) :=
  s.fetchPort.ifqPush_iff s.fetchPortIn

theorem redirects_of_ifqPush (s : Cpu) (h : s.ifqPush = true) : s.redirects = false :=
  (s.fetchPort.legal_of_ifqPush s.fetchPortIn h).1

theorem illegal_of_ifExcpPush (s : Cpu) (h : s.ifExcpPush = true) :
    s.redirects = false ∧ s.ifetch.legal = false :=
  s.fetchPort.illegal_of_excpPush s.fetchPortIn h

end Cpu

namespace Run

variable (r : Run)

-- A response for the fetch unit belongs to the oldest fetch.
theorem oValid_of_rspValid (t : Nat) (h : (r.st t).if2icacheRspValid = true) :
    (r.st t).ifetch.memQueue.oValid = true := by
  have hv := r.fetchPort.oValid_of_rspValid t
  rw [r.fetchPort_st] at hv
  exact hv h

-- The fetch side of the lockstep.

def IsFetch (x : FetchInfo) (f : Nat) : Prop :=
  (r.st f).ifqPush = true ∧ x = (r.st f).ifetch.fetchInfo

def IsFault (x : FetchInfo) (f : Nat) : Prop :=
  (r.st f).ifExcpPush = true ∧ x = (r.st f).ifetch.fetchInfo

theorem rel_ifq (t : Nat) : Fifo.Rel r.IsFetch (r.st t).ifetch.memQueue.items (r.tags t).ifq := by
  induction t with
  | zero => rw [Run.st, Cpu.reset, Ifetch.reset, Queue.items_reset]; exact .nil
  | succ t ih =>
    have hn := r.fetchPort.items_ifq_succ t
    rw [r.fetchPort_st, r.fetchPort_st] at hn
    refine hn.symm ▸ Fifo.Rel.next _ _ ih ?_
    change Fifo.Rel _ (if (r.st t).ifqPush then _ else _) _
    split
    · next hp => exact .single _ _ _ ⟨hp, rfl⟩
    · exact .nil

theorem rel_ifExcp (t : Nat) :
    Fifo.Rel r.IsFault (r.st t).ifetch.excpPipe.items (r.tags t).ifExcp := by
  induction t with
  | zero => exact .nil
  | succ t ih =>
    have hn := r.fetchPort.items_excp_succ t
    rw [r.fetchPort_st, r.fetchPort_st] at hn
    refine hn.symm ▸ Fifo.Rel.next _ _ ih ?_
    change Fifo.Rel _ (if (r.st t).ifExcpPush then _ else _) _
    split
    · next hp => exact .single _ _ _ ⟨hp, rfl⟩
    · exact .nil

-- The ITCM serves one command at a time, so the outstanding fetch still finds
-- the memory as it was when its command was accepted.

theorem length_tags_ifq (t : Nat) : (r.tags t).ifq.length ≤ 1 := by
  have hl := r.fetchPort.length_ifq_le t
  rw [r.fetchPort_st] at hl
  rw [← (r.rel_ifq t).length_eq]
  exact hl

theorem itcm_of_ifqPush (t : Nat) (h : (r.st t).ifqPush = true) :
    (r.st (t + 1)).itcm.ram = ⟨(r.st t).itcm.ram.memR, Tcm.index (r.st t).ifetch.pc⟩ := by
  have hn := r.fetchPort.itcm_of_ifqPush t
  rw [r.fetchPort_st, r.fetchPort_st] at hn
  exact hn h

theorem itcm_of_not_ifqPop (t f : Nat) (c : Bool) (h : (f, c) ∈ (r.tags t).ifq)
    (hp : (r.st t).ifqPop = false) : (r.st (t + 1)).itcm.ram = (r.st t).itcm.ram := by
  have hq : (r.st t).ifetch.memQueue.items ≠ [] := by
    rw [← List.length_pos_iff, (r.rel_ifq t).length_eq]
    exact List.length_pos_of_mem h
  have hn := r.fetchPort.itcm_of_not_ifqPop t
  rw [r.fetchPort_st, r.fetchPort_st] at hn
  exact hn hq hp

theorem itcm_of_mem_ifq (t f : Nat) (c : Bool) (h : (f, c) ∈ (r.tags t).ifq) :
    (r.st t).itcm.ram = ⟨(r.st f).itcm.ram.memR, Tcm.index (r.st f).ifetch.pc⟩ := by
  induction t generalizing c with
  | zero => simp [tags, Tags.reset] at h
  | succ t ih =>
    have fresh : ∀ c', (f, c') ∈ (if (r.st t).ifqPush then [(t, false)] else []) →
        (r.st (t + 1)).itcm.ram = ⟨(r.st f).itcm.ram.memR, Tcm.index (r.st f).ifetch.pc⟩ := by
      intro c' hn
      split at hn
      · next hp =>
        obtain ⟨rfl, -⟩ := Prod.mk.inj (List.mem_singleton.mp hn)
        exact r.itcm_of_ifqPush f hp
      · exact absurd hn List.not_mem_nil
    cases hp : (r.st t).ifqPop with
    | false =>
      obtain ⟨c', ho | hn, -⟩ := Fifo.mem_next _ _ _ _ _ _ h
      · rw [r.itcm_of_not_ifqPop t f c' ho hp]
        exact ih c' ho
      · exact fresh c' hn
    | true =>
      have hm : (f, c) ∈ Fifo.next (r.st t).redirects (r.st t).ifqPop _ (r.tags t).ifq := h
      obtain ⟨c', hc⟩ := Fifo.mem_next_of_pop _ _ _ (r.length_tags_ifq t) _ _ (hp ▸ hm)
      exact fresh c' hc

def IsWord (x : If2de) (f : Nat) : Prop :=
  x.pc = (r.st f).ifetch.pc ∧ (r.st f).redirects = false ∧
    ((r.st f).ifetch.legal = true →
      (r.st f).ifqPush = true ∧ x.intr = (r.st f).itcm.ram.memR (Tcm.index (r.st f).ifetch.pc))

theorem legal_of_pc (f : Ifetch) (h : f.pc.extractLsb' 0 2 = 0#2)
    (h' : f.pc.extractLsb' 16 16 = 0x0000#16) : f.legal = true := by
  rw [Ifetch.legal, Ifetch.excpCode, h, h']
  decide

-- The word that reaches the fetch buffer, on both sides.
theorem rel_fetched (t : Nat) : Fifo.Rel r.IsWord
    ((r.st t).ifetch.memBypbuf.arrival ((r.st t).ifetch.iIf2deValid (r.st t).if2icacheRspValid)
      ((r.st t).ifetch.iIf2deInfo (r.st t).if2icacheRspValid (r.st t).itcm.rspRdata
        (r.st t).itcm.rspErr) ((r.st t).ifetch.iIf2deCancel (r.st t).if2icacheRspValid))
    ((r.tags t).fetched (r.st t)) := by
  change Fifo.Rel _ (if (r.st t).ifBufPush then _ else _) (if (r.st t).ifBufPush then _ else _)
  split
  · next hp =>
    have hi : (r.st t).ifetch.iIf2deValid (r.st t).if2icacheRspValid = true :=
      (Bool.and_eq_true_iff.mp hp).1
    cases hr : (r.st t).if2icacheRspValid with
    | true =>
      obtain ⟨f, rest, hf, hx⟩ := Queue.rel_of_oValid (r.rel_ifq t) (r.oValid_of_rspValid t hr)
      have hm := r.itcm_of_mem_ifq t f _ (hf ▸ List.mem_cons_self)
      rw [if_pos rfl, hf, Ifetch.iIf2deInfo, Ifetch.iIf2deCancel, if_pos rfl, if_pos rfl]
      refine .single _ _ _ ⟨congrArg FetchInfo.pc hx.2, Cpu.redirects_of_ifqPush _ hx.1,
        fun _ => ⟨hx.1, ?_⟩⟩
      rw [Tcm.rspRdata, SimRam.dout, hm]
    | false =>
      have hv : (r.st t).ifetch.excpPipe.vld = true := by simpa [Ifetch.iIf2deValid, hr] using hi
      obtain ⟨f, hf, hx⟩ := Pipe.rel_of_vld (r.rel_ifExcp t) hv
      rw [if_neg Bool.false_ne_true, hf, Ifetch.iIf2deInfo, Ifetch.iIf2deCancel,
        if_neg Bool.false_ne_true, if_neg Bool.false_ne_true]
      obtain ⟨hr, hl⟩ := Cpu.illegal_of_ifExcpPush _ hx.1
      exact .single _ _ _ ⟨congrArg FetchInfo.pc hx.2, hr, fun h => absurd h (by simp [hl])⟩
  · exact .nil

theorem rel_ifBuf (t : Nat) : Fifo.Rel r.IsWord (r.st t).ifetch.memBypbuf.items (r.tags t).ifBuf := by
  induction t with
  | zero => rw [Run.st, Cpu.reset, Ifetch.reset, Bypbuf.items_reset]; exact .nil
  | succ t ih =>
    have hn := r.fetchPort.items_buf_succ t
    rw [FetchPort.Run.arrives, r.fetchPort_st, r.fetchPort_st] at hn
    exact hn.symm ▸ Fifo.Rel.next _ _ ih (r.rel_fetched t)

-- The word in decode, with its mark.
theorem head?_decode (t : Nat) (h : (r.st t).if2deValid = true) :
    ((r.tags t).ifBuf ++ (r.tags t).fetched (r.st t)).head? =
        some (r.fetchOf t, (r.st t).if2deCancel) ∧
      r.IsWord (r.st t).if2de (r.fetchOf t) := by
  have hh := Bypbuf.head?_items (r.st t).ifetch.memBypbuf _
    ((r.st t).ifetch.iIf2deInfo (r.st t).if2icacheRspValid (r.st t).itcm.rspRdata
      (r.st t).itcm.rspErr) ((r.st t).ifetch.iIf2deCancel (r.st t).if2icacheRspValid) h
  obtain ⟨f, hf, hx⟩ := ((r.rel_ifBuf t).append (r.rel_fetched t)).head? _ _ hh
  have hfetch : r.fetchOf t = f := by
    rw [fetchOf, Fifo.tags, List.head?_map, hf]
    rfl
  rw [hfetch]
  exact ⟨hf, hx⟩

-- Word `f` is in front of decode, with mark `c`.
def inFront (t f : Nat) (c : Bool) : Prop :=
  (f, c) ∈ (r.tags t).ifq ∨ (f, c) ∈ (r.tags t).ifExcp ∨ (f, c) ∈ (r.tags t).ifBuf

theorem inFront_succ (t f : Nat) (c : Bool) (h : r.inFront (t + 1) f c) :
    ∃ c', c = (c' || (r.st t).redirects) ∧ (f = t ∨ r.inFront t f c') := by
  rcases h with h | h | h
  · obtain ⟨c', ho | hn, hc⟩ := Fifo.mem_next _ _ _ _ _ _ h
    · exact ⟨c', hc, .inr (.inl ho)⟩
    · split at hn
      · exact ⟨c', hc, .inl (Prod.mk.inj (List.mem_singleton.mp hn)).1⟩
      · exact absurd hn List.not_mem_nil
  · obtain ⟨c', ho | hn, hc⟩ := Fifo.mem_next _ _ _ _ _ _ h
    · exact ⟨c', hc, .inr (.inr (.inl ho))⟩
    · split at hn
      · exact ⟨c', hc, .inl (Prod.mk.inj (List.mem_singleton.mp hn)).1⟩
      · exact absurd hn List.not_mem_nil
  · obtain ⟨c', ho | hn, hc⟩ := Fifo.mem_next _ _ _ _ _ _ h
    · exact ⟨c', hc, .inr (.inr (.inr ho))⟩
    · rw [Tags.fetched] at hn
      split at hn
      · split at hn
        · exact ⟨c', hc, .inr (.inl (List.mem_of_mem_take hn))⟩
        · exact ⟨c', hc, .inr (.inr (.inl (List.mem_of_mem_take hn)))⟩
      · exact absurd hn List.not_mem_nil

theorem lt_of_inFront (t f : Nat) (c : Bool) (h : r.inFront t f c) : f < t := by
  induction t generalizing c with
  | zero => simp [inFront, tags, Tags.reset] at h
  | succ t ih =>
    obtain ⟨c', -, rfl | ho⟩ := r.inFront_succ t f c h
    · exact Nat.lt_succ_self f
    · exact Nat.lt_succ_of_lt (ih c' ho)

theorem inFront_fetchOf (t : Nat) (h : (r.st t).if2deValid = true) :
    r.inFront t (r.fetchOf t) (r.st t).if2deCancel := by
  have hm := List.mem_of_head? (r.head?_decode t h).1
  rcases List.mem_append.mp hm with hb | hn
  · exact .inr (.inr hb)
  · rw [Tags.fetched] at hn
    split at hn
    · split at hn
      · exact .inl (List.mem_of_mem_take hn)
      · exact .inr (.inl (List.mem_of_mem_take hn))
    · exact absurd hn List.not_mem_nil

theorem fetchOf_lt (t : Nat) (h : (r.st t).if2deValid = true) : r.fetchOf t < t :=
  r.lt_of_inFront t _ _ (r.inFront_fetchOf t h)

theorem if2deValid_of_robWen (s : Cpu) (h : s.robWen = true) :
    s.if2deValid = true ∧ s.if2deCancel = false ∧ s.flush = false := by
  simp only [Cpu.robWen, Cpu.deValid, Bool.and_eq_true, Bool.not_eq_true'] at h
  exact ⟨h.1.1.1.1, h.1.2, h.2⟩

end Run

end HiCore
