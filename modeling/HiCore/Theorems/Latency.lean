import HiCore.Theorems.BusAnswers
import HiCore.Theorems.ControlFlow
import HiCore.Theorems.FetchPort
import HiCore.Trace.MemPath

-- How long an access takes in the core. No slave makes the LSU wait: a command is taken in the
-- first cycle in which no other one is outstanding, and answered in the next.
namespace HiCore.Run

open History

variable (r : Run)

-- The port of the PLIC.

theorem slaveRsp_plic (t : Nat) : r.memBus.slaveRsp .plic t = (r.st t).plic.pipe.vld := by
  rw [MemBus.Run.slaveRsp, MemBus.slaveRspValid, Biu.getLsbD_ports]
  rfl

theorem slaveCmdReady_plic (t : Nat) :
    ((r.memBus.st t).slaveCmdReady (r.memBus.ins t)).getLsbD Slave.plic.port =
      (r.st t).plic.cmdReady := by
  rw [MemBus.slaveCmdReady, Biu.getLsbD_ports]
  rfl

-- What the PLIC holds is what it has taken and not answered.
theorem plic_answers_add (t : Nat) : times (r.memBus.slaveAnswers .plic) t +
    (r.st t).plic.pipe.vld.toNat = times (r.memBus.slaveAccepts .plic) t := by
  have h := Pipe.isQueue true (p := fun t => (r.st t).plic.pipe)
    (i := fun t => { iVld := (r.st t).slaveCmdValid.getLsbD 2
                     iDat := (r.st t).plic.rspRdataNxt ((r.st t).plicIn (r.pins t))
                     iCancel := false
                     oRdy := (r.st t).slaveRspReady.getLsbD 2
                     branch := false }) rfl fun _ => rfl
  have ha : r.memBus.slaveAccepts .plic = fun t => _ := funext fun t => by
    rw [MemBus.Run.slaveAccepts, slaveCmdReady_plic, memBus_st]
  have hb : r.memBus.slaveAnswers .plic = fun t => _ := funext fun t => by
    rw [MemBus.Run.slaveAnswers, slaveRsp_plic, memBus_st]
  rw [ha, hb, ← Pipe.length_items]
  exact h.length t

-- So it behaves as the bus takes for granted.
theorem plicAnswers : r.memBus.PlicAnswers := by
  intro u hu
  refine ⟨u + 1, Nat.lt_succ_self u, fun t ht hc => ?_⟩
  have ha := r.plic_answers_add t
  have hm := times_mono (r.memBus.slaveAccepts .plic) ht
  rw [times_succ, hu, Bool.toNat_true] at hm
  change (r.st t).plic.pipe.vld = true
  rw [← Bool.not_eq_false]
  intro hv
  rw [hv, Bool.toNat_false] at ha
  omega

theorem slaveRsp_eq (n : Slave) (t : Nat) : r.memBus.slaveRsp n t = r.memBus.held n t := by
  by_cases hn : n = .plic
  · subst hn
    have ha := r.plic_answers_add t
    have hh := r.memBus.held_add t .plic
    have he : (r.st t).plic.pipe.vld.toNat = (r.memBus.held .plic t).toNat := by omega
    rw [slaveRsp_plic]
    cases hv : (r.st t).plic.pipe.vld <;> cases hd : r.memBus.held .plic t <;>
      simp [hv, hd] at he ⊢
  · exact MemBus.Run.slaveRsp_eq_held (r.memBus.held_add t) n hn

-- The answer to an outstanding command is there.
theorem lsuRspValid_eq (t : Nat) : (r.st t).lsuRspValid = (r.st t).biu.splitFifo.vld := by
  rw [Bool.eq_iff_iff]
  constructor
  · exact biu_vld_of_rspValid (r.st t)
  · intro hv
    have hf : (r.memBus.st t).biu.splitFifo.vld = true := by
      rw [memBus_st]
      exact hv
    obtain ⟨u, hu, hn, -⟩ := r.memBus.splitFifo_dat t hf
    have hh := r.memBus.held_of_waiting _ t u hu hn (r.memBus.selects_owner u)
    have hs := MemBus.Run.slaveRsp_eq_rspValid (r.memBus.held_add t) _ hh
    rw [slaveRsp_eq, hh, memBus_st] at hs
    exact hs.symm

theorem memPop_eq (t : Nat) : (r.st t).memPop = (r.st t).biu.splitFifo.vld := by
  rw [← lsuRspValid_eq]
  cases hr : (r.st t).lsuRspValid with
  | true => exact r.memPop_of_rspValid t hr
  | false => simp [Cpu.memPop, Queue.ren, Lsu.memQueueIn, Cpu.lsuIn, hr]

theorem biu_vld_succ (t : Nat) : (r.st (t + 1)).biu.splitFifo.vld = (r.st t).cmdFires := by
  have hv : (r.st (t + 1)).biu.splitFifo.vld = ((r.st t).cmdFires ||
      ((r.st t).biu.splitFifo.vld && !(r.st t).rspFires)) := by
    have h := Pipe.vld_next true (r.st t).biu.splitFifo ((r.st t).biu.splitFifoIn
      (r.st t).lsuCmdValid (r.st t).lsuCmd.addr (r.st t).lsuRspReady (r.st t).slaves)
    rw [Biu.splitFifo_vldSet] at h
    exact h
  rw [hv, rspFires_eq, memPop_eq, Bool.and_not_self, Bool.or_false]

-- The fetch unit takes the response that the ITCM has for it.
def Fetches (t : Nat) : Prop :=
  (r.st t).if2icacheRspValid = true → (r.st t).ifetch.rspReady = true

-- The ITCM is free for the next command when its response is taken.
theorem itcmCmdReady_of_free (t : Nat) (hf : r.Fetches t) (hd : r.memBus.held .itcm t = false) :
    (r.st t).itcmCmdReady = true := by
  rw [Cpu.itcmCmdReady, Tcm.cmdReady, Pipe.iRdy, if_neg Bool.false_ne_true]
  cases hv : (r.st t).itcm.pipe.vld with
  | false => rfl
  | true =>
    have hrel := (r.fetchPort.rel_arbt t).length_eq
    rw [r.fetchPort_st] at hrel
    have ho : (r.st t).arbt.arbtQueue.oValid = true := by
      rw [Queue.oValid_iff, ← List.length_pos_iff]
      change (r.st t).itcm.pipe.items.length = (r.st t).arbt.arbtQueue.items.length at hrel
      rw [← hrel, Pipe.length_items, hv]
      exact Nat.one_pos
    have hrsp : ∀ p, (r.st t).arbt.rspValid (r.st t).itcm.rspValid p =
        ((r.st t).arbt.rspPortId == p) := by
      intro p
      rw [Arbt.rspValid, Arbt.rspidFifoEmpty, ho, Tcm.rspValid, hv]
      rfl
    -- The response is not for the LSU.
    have hport : (r.st t).arbt.rspPortId = 1#1 := by
      have hs := r.slaveRsp_eq .itcm t
      rw [MemBus.Run.slaveRsp, MemBus.slaveRspValid, Biu.getLsbD_ports, hd, memBus_st] at hs
      have h0 := (hrsp 0#1).symm.trans hs
      have hbit : ∀ p : BitVec 1, (p == 0#1) = false → p = 1#1 := by decide
      exact hbit _ h0
    have hready : (r.st t).ifetch.rspReady = true := by
      refine hf ((hrsp 1#1).trans ?_)
      rw [hport]
      rfl
    rw [Pipe.vldClr, hv, Cpu.itcmRspReady, Arbt.oRspReady, Arbt.rspidFifoEmpty, ho, hport,
      Cpu.itcmPortRspReady, hready]
    cases (r.st t).slaveRspReady.getLsbD 1 <;> rfl

-- The arbiter has room for the port of one more command.
theorem arbt_room (t : Nat) : (r.st t).arbt.rspidFifoFull = false := by
  have hrel := (r.fetchPort.rel_arbt t).length_eq
  rw [r.fetchPort_st] at hrel
  change (r.st t).itcm.pipe.items.length = (r.st t).arbt.arbtQueue.items.length at hrel
  have hle := Bool.toNat_le (r.st t).itcm.pipe.vld
  rw [Pipe.length_items] at hrel
  rw [Arbt.rspidFifoFull, Bool.not_eq_false', Queue.iReady_iff]
  omega

-- The LSU has priority on the port of the ITCM.
theorem lsu2icacheCmdReady_of_free (t : Nat) (hf : r.Fetches t)
    (hd : r.memBus.held .itcm t = false) : (r.st t).lsu2icacheCmdReady = true := by
  rw [Cpu.lsu2icacheCmdReady, Cpu.itcmPortCmdReady, Arbt.cmdReady, r.arbt_room t,
    r.itcmCmdReady_of_free t hf hd, Arbt.grtVec]
  cases (r.st t).itcmPortCmdValid.getLsbD 0 <;> rfl

-- A slave without an answer to give takes a command.
theorem ready_of_free (n : Slave) (t : Nat) (hf : r.Fetches t) (hd : r.memBus.held n t = false) :
    (r.st t).slaveCmdReady.getLsbD n.port = true := by
  have hr : r.memBus.slaveRsp n t = false := (r.slaveRsp_eq n t).trans hd
  have hb : (r.st t).slaveCmdReady = (r.memBus.st t).slaveCmdReady (r.memBus.ins t) := by
    rw [memBus_st]
    rfl
  cases n with
  | clint => rw [hb, MemBus.Run.ready_of_free _ _ _ (.inl rfl) hr]
  | nop => rw [hb, MemBus.Run.ready_of_free _ _ _ (.inr rfl) hr]
  | itcm => exact (slaveCmdReady_port (r.st t)).2.1.trans (r.lsu2icacheCmdReady_of_free t hf hd)
  | dtcm =>
    have hv : (r.st t).dtcm.pipe.vld = false := by
      rw [MemBus.Run.slaveRsp, MemBus.slaveRspValid, Biu.getLsbD_ports, memBus_st] at hr
      exact hr
    refine (slaveCmdReady_port (r.st t)).1.trans ?_
    rw [Tcm.cmdReady, Pipe.iRdy, hv]
    rfl
  | plic =>
    rw [slaveRsp_plic] at hr
    refine (slaveCmdReady_port (r.st t)).2.2.trans ?_
    rw [Plic.cmdReady, Pipe.iRdy, hr]
    rfl

theorem cmdFires_eq (t : Nat) (hf : r.Fetches t) :
    (r.st t).cmdFires = ((r.st t).lsuCmdValid && !(r.st t).biu.splitFifo.vld) := by
  cases hv : (r.st t).biu.splitFifo.vld with
  | true => rw [not_cmdFires_of_biu_vld _ hv, Bool.not_true, Bool.and_false]
  | false =>
    have hd : r.memBus.held (Slave.owner (r.st t).lsuCmd.addr) t = false := by
      rw [MemBus.Run.held, memBus_st]
      exact Bool.and_eq_false_imp.mpr fun h => Bool.noConfusion (hv.symm.trans h)
    have hr : (r.st t).lsuCmdReady = true := (Biu.cmdReady_iff _ _ _).mpr
      ⟨hv, _, Biu.getLsbD_spltIndic_owner _, r.ready_of_free _ t hf hd⟩
    rw [Cpu.cmdFires, hr]
    rfl

-- Without fetch exceptions the fetch unit asks for no more words than it has room for.

theorem length_ifBuf (t : Nat) :
    (r.tags t).ifBuf.length = (r.st t).ifetch.memBypbuf.items.length :=
  (r.rel_ifBuf t).length_eq.symm

theorem length_fetched_add (t : Nat) (hx : (r.st t).ifetch.excpPipe.vld = false) :
    ((r.tags t).fetched (r.st t)).length + (r.tags (t + 1)).ifq.length =
      (r.tags t).ifq.length + (r.st t).ifqPush.toNat := by
  have hq : (r.tags (t + 1)).ifq.length = (Fifo.shift (r.st t).ifqPop
      (if (r.st t).ifqPush then [(t, false)] else []) (r.tags t).ifq).length :=
    List.length_map _
  have hp : (if (r.st t).ifqPush then [(t, false)] else []).length = (r.st t).ifqPush.toNat := by
    cases (r.st t).ifqPush <;> rfl
  rw [hq, fetched_eq t hx]
  cases hpop : (r.st t).ifqPop with
  | false => rw [Fifo.shift_false, List.length_append, hp, if_neg Bool.false_ne_true]; simp
  | true =>
    obtain ⟨f, rest, hf, -⟩ := Queue.rel_of_oValid (r.rel_ifq t) (Bool.and_eq_true_iff.mp hpop).1
    rw [hf, Fifo.shift, if_pos rfl, if_pos rfl, List.cons_append, List.tail_cons,
      List.length_append, hp, List.length_cons]
    change 1 + (rest.length + (r.st t).ifqPush.toNat) = _
    omega

theorem length_front_succ (t : Nat) (hx : (r.st t).ifetch.excpPipe.vld = false) :
    (r.front (t + 1)).length ≤ (r.front t).length + (r.st t).ifqPush.toNat := by
  have hq := r.length_fetched_add t hx
  have hb : (r.tags (t + 1)).ifBuf.length = (Fifo.shift (r.st t).ifBufPop
      ((r.tags t).fetched (r.st t)) (r.tags t).ifBuf).length := List.length_map _
  have hs := (Fifo.shift_sublist (r.st t).ifBufPop ((r.tags t).fetched (r.st t))
    (r.tags t).ifBuf).length_le
  rw [List.length_append] at hs
  rw [front, front, List.length_append, List.length_append]
  omega

theorem length_front_le (t : Nat) (hl : ∀ u < t, r.LegalFetch u) : (r.front t).length ≤ 5 := by
  induction t with
  | zero => exact Nat.zero_le 5
  | succ t ih =>
    have hl' : ∀ u < t, r.LegalFetch u := fun u hu => hl u (Nat.lt_succ_of_lt hu)
    have hs := r.length_front_succ t (excpPipe_not_vld hl')
    have hle := ih hl'
    cases hp : (r.st t).ifqPush with
    | false =>
      rw [hp, Bool.toNat_false] at hs
      omega
    | true =>
      -- The throttle has seen less than half of the buffer taken.
      have hroom := r.fetchPort.length_buf_of_ifqPush t
      rw [r.fetchPort_st] at hroom
      have hb : (r.tags t).ifBuf.length < 4 := by
        rw [length_ifBuf]
        rcases hroom hp with h | h
        · exact h
        · have hne : ¬ (r.st t).ifetch.memBypbuf.items.length ≠ 2 ^ 3 := fun hn =>
            Bool.noConfusion (((Bypbuf.iRdy_iff _).mpr hn).symm.trans h)
          rw [front, List.length_append, length_ifBuf] at hle
          omega
      have hq := r.length_tags_ifq t
      have ht : (r.front t).length = _ := List.length_append
      rw [hp, Bool.toNat_true, ht] at hs
      omega

theorem fetches_of_legal (t : Nat) (hl : ∀ u < t, r.LegalFetch u) : r.Fetches t := by
  intro hv
  have hle := r.length_front_le t hl
  have hroom : (r.st t).ifetch.memBypbuf.iRdy = true := by
    rw [Bypbuf.iRdy_iff, ← length_ifBuf]
    rw [front, List.length_append] at hle
    omega
  rw [Ifetch.rspReady, Ifetch.iIf2deReady, r.oValid_of_rspValid t hv, hroom]
  rfl

-- The two handshakes of the LSU, and what the bus takes for granted of the PLIC.
theorem access_latency (r : Run) (t : Nat) (hl : ∀ u < t, r.LegalFetch u) :
    (r.st t).cmdFires = ((r.st t).lsuCmdValid && !(r.st t).memPop) ∧
    (r.st (t + 1)).memPop = (r.st t).cmdFires ∧ r.memBus.PlicAnswers := by
  refine ⟨?_, ?_, r.plicAnswers⟩
  · rw [memPop_eq]
    exact r.cmdFires_eq t (r.fetches_of_legal t hl)
  · rw [memPop_eq, biu_vld_succ]

-- The store.
theorem access_latency_storeLoad :
    (storeLoad.st 8).cmdFires = true ∧ (storeLoad.st 9).memPop = true := by
  have hl : ∀ u < 8, storeLoad.LegalFetch u := by
    unfold LegalFetch
    decide +kernel
  have hs : (storeLoad.st 8).lsuCmdValid = true ∧ (storeLoad.st 8).memPop = false := by
    decide +kernel
  obtain ⟨hc, hp, -⟩ := access_latency storeLoad 8 hl
  rw [hs.1, hs.2] at hc
  exact ⟨hc, hp.trans hc⟩

end HiCore.Run
