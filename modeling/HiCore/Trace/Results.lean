import HiCore.Theorems.Loads
import HiCore.Trace.CsrPath

-- The two ends of an instruction's way: the exceptions that come with its word, and the value
-- that its entry holds at the commit port.
namespace HiCore.Run

open SlotState

variable (r : Run)

-- A word reaches decode with the exceptions of its own fetch.

def Reports (x : If2de) (f : Nat) : Prop := x.excp = (r.st f).ifetch.excpCode

theorem reports_fetched (t : Nat) : Fifo.Rel r.Reports
    ((r.st t).ifetch.memBypbuf.arrival ((r.st t).ifetch.iIf2deValid (r.st t).if2icacheRspValid)
      ((r.st t).ifetch.iIf2deInfo (r.st t).if2icacheRspValid (r.st t).itcm.rspRdata
        (r.st t).itcm.rspErr) ((r.st t).ifetch.iIf2deCancel (r.st t).if2icacheRspValid))
    ((r.tags t).fetched (r.st t)) := by
  change Fifo.Rel _ (if (r.st t).ifBufPush then _ else _) (if (r.st t).ifBufPush then _ else _)
  split
  · next hp =>
    have hi : (r.st t).ifetch.iIf2deValid (r.st t).if2icacheRspValid = true :=
      (Bool.and_eq_true_iff.mp hp).1
    cases hr : (r.st t).if2icacheRspValid with
    | true =>
      obtain ⟨f, rest, hf, hx⟩ := Queue.rel_of_oValid (r.rel_ifq t) (r.oValid_of_rspValid t hr)
      rw [if_pos rfl, hf, Ifetch.iIf2deInfo, Ifetch.iIf2deCancel, if_pos rfl, if_pos rfl]
      -- The ITCM reports no error of its own.
      have hz : 0#14 ++ BitVec.ofBool (r.st t).itcm.rspErr ++ 0#1 = 0#16 := by
        rw [Tcm.rspErr]
        decide
      rw [hz, BitVec.or_zero]
      exact .single _ _ _ (congrArg FetchInfo.excp hx.2)
    | false =>
      have hv : (r.st t).ifetch.excpPipe.vld = true := by simpa [Ifetch.iIf2deValid, hr] using hi
      obtain ⟨f, hf, hx⟩ := Pipe.rel_of_vld (r.rel_ifExcp t) hv
      rw [if_neg Bool.false_ne_true, hf, Ifetch.iIf2deInfo, Ifetch.iIf2deCancel,
        if_neg Bool.false_ne_true, if_neg Bool.false_ne_true]
      exact .single _ _ _ (congrArg FetchInfo.excp hx.2)
  · exact .nil

theorem reports_ifBuf (t : Nat) :
    Fifo.Rel r.Reports (r.st t).ifetch.memBypbuf.items (r.tags t).ifBuf := by
  induction t with
  | zero => rw [Run.st, Cpu.reset, Ifetch.reset, Bypbuf.items_reset]; exact .nil
  | succ t ih =>
    have hn := r.fetchPort.items_buf_succ t
    rw [FetchPort.Run.arrives, r.fetchPort_st, r.fetchPort_st] at hn
    exact hn.symm ▸ Fifo.Rel.next _ _ ih (r.reports_fetched t)

theorem reports_decode (t : Nat) (h : (r.st t).if2deValid = true) :
    r.Reports (r.st t).if2de (r.fetchOf t) := by
  have hh := Bypbuf.head?_items (r.st t).ifetch.memBypbuf _
    ((r.st t).ifetch.iIf2deInfo (r.st t).if2icacheRspValid (r.st t).itcm.rspRdata
      (r.st t).itcm.rspErr) ((r.st t).ifetch.iIf2deCancel (r.st t).if2icacheRspValid) h
  obtain ⟨f, hf, hx⟩ := ((r.reports_ifBuf t).append (r.reports_fetched t)).head? _ _ hh
  rw [(r.head?_decode t h).1, Option.some.injEq, Prod.mk.injEq] at hf
  rw [hf.1]
  exact hx

-- The value that the entry at the commit port holds, traced back to the unit that computed it.
-- For the csr unit that is `csrResult_of_commits`.

theorem rdData_of_commits (c d : Nat) (hc : (r.st c).commits = true)
    (ho : r.owner c (r.st c).rob.head = d) :
    ∃ w < c, r.WritesBack w (r.unitOf d) (r.st c).rob.head d ∧
      (r.st c).rob.rdData (r.st c).rob.head = ((r.st w).robIn.port (r.unitOf d)).rdData := by
  subst ho
  have hm := r.head_mem c hc
  have hs : (r.st c).rob.state (r.st c).rob.head = WRITEBACK_S :=
    Rob.ren_state (i := (r.st c).robIn) hc
  obtain ⟨w, u, hw⟩ := (r.holds c _ hm).written (by rw [r.rob_st]; exact hs)
  obtain ⟨-, hown⟩ := r.live_between w c _ hm hw.after hw.before.le
  obtain ⟨-, hd⟩ := r.owner_of_hits w u _ hw.hits
  rw [hown] at hd
  have hrd := hw.rdData
  rw [r.rob_st] at hrd
  rw [hd.unit]
  exact ⟨w, hw.before, hd, hrd⟩

theorem rdData_of_alu (c d : Nat) (hc : (r.st c).commits = true)
    (ho : r.owner c (r.st c).rob.head = d) (hu : r.unitOf d = .alu) :
    (r.st c).rob.rdData (r.st c).rob.head = Alu.aluResPre (Issue.alu (r.info d)) := by
  obtain ⟨w, -, hw, hrd⟩ := r.rdData_of_commits c d hc ho
  rw [hu] at hw hrd
  obtain ⟨hwen, -⟩ := (hits_iff _ _).mp hw.hits
  have hv : (r.st w).alu2wb.vld = true := by
    change (r.st w).aluWb.wen = true at hwen
    simp only [Cpu.aluWb, Bool.and_eq_true] at hwen
    exact hwen.1.1
  obtain ⟨e, he, -, hx⟩ := Pipe.rel_of_vld (r.rel_alu w) hv
  have hwr : (r.tags w).alu = [(d, false)] := hw.writer
  rw [hwr, List.cons.injEq, Prod.mk.injEq] at he
  obtain ⟨⟨rfl, -⟩, -⟩ := he
  exact hrd.trans (congrArg Alu.Alu2wb.res hx)

theorem rdData_of_bjp (c d : Nat) (hc : (r.st c).commits = true)
    (ho : r.owner c (r.st c).rob.head = d) (hu : r.unitOf d = .bjp) :
    (r.st c).rob.rdData (r.st c).rob.head = Issue.bjpRdResult (r.info d) true := by
  obtain ⟨w, -, hw, hrd⟩ := r.rdData_of_commits c d hc ho
  rw [hu] at hw hrd
  obtain ⟨hwen, -⟩ := (hits_iff _ _).mp hw.hits
  have hb : (r.st w).bjpValid = true := by
    change (r.st w).bjpWb.wen = true at hwen
    simp only [Cpu.bjpWb, Bool.and_eq_true] at hwen
    exact hwen.1.1
  obtain ⟨e, he, hi⟩ := r.de2ex_of_vld w (Bool.and_eq_true_iff.mp hb).2
  have hwr : (r.tags w).de2ex = [(d, false)] := hw.writer
  rw [hwr, List.cons.injEq, Prod.mk.injEq] at he
  obtain ⟨⟨rfl, -⟩, -⟩ := he
  rw [hrd, ← hi, ← hb]
  rfl

-- A load that commits without exception holds what the LSU made of its response.
theorem rdData_of_lsu (c d : Nat) (hc : (r.st c).commits = true)
    (ho : r.owner c (r.st c).rob.head = d) (hu : r.unitOf d = .lsu)
    (he : ((r.st c).rob.info (r.st c).rob.head).excp = 0#16) :
    ∃ w < c, r.Pairs w d ∧ (r.st c).rob.rdData (r.st c).rob.head =
      Lsu.rdData (Lsu.iMemQueueInfo (r.aguOf d)) (r.st w).lsuRspRdata := by
  obtain ⟨w, hwc, hw, hrd⟩ := r.rdData_of_commits c d hc ho
  rw [hu] at hw hrd
  rw [r.info_of_commits c hc, ho, excp_resultInfo d hu] at he
  have hwr := hw.writer
  rw [Tags.writer] at hwr
  split at hwr
  · next hr =>
    have hp := r.memPop_of_rspValid w hr
    obtain ⟨e, rest, hq, -, hx⟩ :=
      Queue.rel_of_oValid (r.rel_memq w) (Bool.and_eq_true_iff.mp hp).1
    obtain ⟨b, hb, -⟩ := r.tags_biu_of_vld w (biu_vld_of_rspValid _ hr)
    have htags := r.tags_memq w
    rw [hq] at hwr htags
    rw [hb] at htags
    simp only [List.take_succ_cons, List.take_zero, List.cons.injEq, Prod.mk.injEq] at hwr
    obtain ⟨⟨rfl, -⟩, -⟩ := hwr
    obtain rfl : e = b := (List.cons.inj htags).1
    refine ⟨w, hwc, ⟨hp, hb⟩, hrd.trans ?_⟩
    rw [← hx]
    rfl
  · -- The exception register only holds accesses that report one.
    have hv : (r.st w).lsu.excpQueue.vld = true := by
      by_contra hv
      rw [Pipe.rel_of_not_vld (r.rel_excp w) (Bool.not_eq_true _ ▸ hv)] at hwr
      exact absurd hwr (by simp)
    obtain ⟨e, hq, -, hx, -⟩ := Pipe.rel_of_vld (r.rel_excp w) hv
    rw [hq, List.cons.injEq, Prod.mk.injEq] at hwr
    rw [← hwr.1.1, hx] at he
    exact Bool.noConfusion he

variable {r}

-- The response to a load from the DTCM is the word that the committed stores left.
theorem Pairs.rdata_committed {w c d : Nat} (hp : r.Pairs w d) (hwc : w < c)
    (hc : (r.st c).commits = true) (ho : r.owner c (r.st c).rob.head = d)
    (hread : (r.aguOf d).read = true)
    (hreg : (Biu.spltIndic (r.aguOf d).addr).getLsbD 0 = true) :
    (r.st w).lsuRspRdata =
      r.dtcmAfter (r.committedStores c) (Tcm.index (r.aguOf d).addr) := by
  obtain ⟨u, huw, hsend⟩ := hp.sends
  have hload : ¬r.IsStore d := by
    rw [r.isStore_iff d hsend.cmd.1.1, hread]
    exact Bool.noConfusion
  have hm := r.head_mem c hc
  obtain ⟨hmw, how⟩ := r.live_between w c _ hm (by rw [ho]; exact Nat.lt_trans hsend.lt huw) hwc.le
  -- Nothing is sent between the command and the commit, so the three lists agree.
  have hcw := hsend.sentStores_eq hload c _ hm ho (Nat.lt_trans huw hwc)
  have hww := hsend.sentStores_eq hload w _ hmw (how.trans ho) huw
  have hcommit := (sentStores_eq c).2 fun e he => hload (ho ▸ he.owner ▸ he.store)
  rw [hp.rdata hreg hread, dtcm_eq, hww, ← hcw, hcommit]

end HiCore.Run
