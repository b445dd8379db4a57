import HiCore.Trace.Tags

-- The queues of cycle numbers keep step with the buffers, and every payload is
-- what the units made of the instruction with that number.
namespace HiCore.Run

variable (r : Run)

theorem wf_memq (t : Nat) : (r.st t).lsu.memQueue.Wf := by
  induction t with
  | zero => exact Queue.wf_reset _
  | succ t ih => exact Queue.wf_next _ _ ih

theorem wf_cmd (t : Nat) : (r.st t).lsu.memBypbuf.Wf := by
  induction t with
  | zero => exact Bypbuf.wf_reset _
  | succ t ih => exact Bypbuf.wf_next _ _ ih

-- The payload of each buffer, as a function of the instruction's number.

def IsIssued (x : BitVec 176) (d : Nat) : Prop := x = r.info d

def IsAlu (x : Alu.Alu2wb) (d : Nat) : Prop :=
  r.unitOf d = .alu ∧ x = Alu.iAlu2wbInfo (Issue.alu (r.info d))

def IsCsr (x : Csr2wb) (d : Nat) : Prop :=
  r.unitOf d = .csr ∧ x.info = Issue.issueInfo (r.info d)

def IsAgu (x : Agu.Agu2lsu) (d : Nat) : Prop := r.unitOf d = .lsu ∧ x = r.aguOf d

def IsExcp (x : IssueInfo) (d : Nat) : Prop :=
  r.unitOf d = .lsu ∧ Lsu.hasExcp (r.aguOf d) = true ∧ x = (r.aguOf d).info

-- An access that goes to the bus.
def IsAccess (d : Nat) : Prop := r.unitOf d = .lsu ∧ Lsu.hasExcp (r.aguOf d) = false

def IsMem (x : LsuInfo) (d : Nat) : Prop := r.IsAccess d ∧ x = Lsu.iMemQueueInfo (r.aguOf d)

def IsCmd (x : IcbCmd) (d : Nat) : Prop := r.IsAccess d ∧ x = Lsu.iMemFifoWdat (r.aguOf d)

def IsSplit (x : BitVec 5) (d : Nat) : Prop :=
  r.IsAccess d ∧ x = Biu.spltIndic (r.aguOf d).addr

theorem rel_de2ex (t : Nat) : Fifo.Rel r.IsIssued (r.st t).de2ex.items (r.tags t).de2ex := by
  induction t with
  | zero => exact .nil
  | succ t ih =>
    refine (Pipe.items_next false (r.st t).de2ex (r.st t).de2exIn).symm ▸ Fifo.Rel.next _ _ ih ?_
    change Fifo.Rel _ (if (r.st t).decodes then _ else _) _
    split
    · exact .single _ _ _ rfl
    · exact .nil

-- The instruction under issue, when there is one.
theorem de2ex_of_vld (t : Nat) (h : (r.st t).de2ex.vld = true) :
    ∃ d, (r.tags t).de2ex = [(d, (r.st t).de2ex.cancel)] ∧ (r.st t).deInfo = r.info d :=
  Pipe.rel_of_vld (r.rel_de2ex t) h

theorem unitOf_of_sel (d : Nat) :
    Issue.branchSel (r.info d) = decide (r.unitOf d = .bjp) ∧
      Issue.aluSel (r.info d) = decide (r.unitOf d = .alu) ∧
      Issue.aguSel (r.info d) = decide (r.unitOf d = .lsu) ∧
      Issue.csrSel (r.info d) = decide (r.unitOf d = .csr) ∧
      Issue.nopSel (r.info d) = decide (r.unitOf d = .nop) :=
  ⟨Decode.branchSel_bus _ _, Decode.aluSel_bus _ _, Decode.aguSel_bus _ _, Decode.csrSel_bus _ _,
    Decode.nopSel_bus _ _⟩

-- The AGU's operands, as decode has them.
def aguIn (d : Nat) : Issue.Agu where
  storeOp := Decode.storeOp (r.st d).if2de.intr
  loadOp := Decode.loadOp (r.st d).if2de.intr
  aguMsg := Decode.msg (r.st d).if2de.intr
  aguSrc3 := (r.st d).readSrc2Dat
  aguSrc2 := (r.st d).readSrc1Dat
  aguSrc1 := Decode.immAgu (r.st d).if2de.intr
  aguInfo := { robPtr := r.ptrOf d, wb := Decode.wbInfoOf (r.st d).operands }

theorem agu_info (d : Nat) (hu : r.unitOf d = .lsu) : Issue.agu (r.info d) = r.aguIn d :=
  Decode.agu_bus (r.st d).operands (r.st d).rob.tail hu

theorem rel_alu (t : Nat) : Fifo.Rel r.IsAlu (r.st t).alu2wb.items (r.tags t).alu := by
  induction t with
  | zero => exact .nil
  | succ t ih =>
    have hpop : (r.st t).alu2wb.vldClr (r.st t).alu2wbIn.oRdy = (r.st t).alu2wb.vld :=
      Bool.and_true _
    have hn := Pipe.items_next false (r.st t).alu2wb (r.st t).alu2wbIn
    rw [hpop] at hn
    refine hn.symm ▸ Fifo.Rel.next _ _ ih ?_
    change Fifo.Rel _ (if (r.st t).aluPush then _ else _) _
    split
    · next hp =>
      have hv : (r.st t).aluValid = true := (Bool.and_eq_true_iff.mp hp).1
      obtain ⟨hs, hv⟩ := Bool.and_eq_true_iff.mp hv
      obtain ⟨d, hd, hi⟩ := r.de2ex_of_vld t hv
      rw [hd]
      refine .single _ _ _ ⟨?_, ?_⟩
      · rw [hi, (r.unitOf_of_sel d).2.1] at hs
        exact of_decide_eq_true hs
      · exact congrArg (fun x => Alu.iAlu2wbInfo (Issue.alu x)) hi
    · exact .nil

theorem rel_csr (t : Nat) : Fifo.Rel r.IsCsr (r.st t).csr.csr2wb.items (r.tags t).csr := by
  induction t with
  | zero => exact .nil
  | succ t ih =>
    have hpop : (r.st t).csr.csr2wb.vldClr ((r.st t).csr.csr2wbIn (r.st t).csrIn).oRdy =
        (r.st t).csr.csr2wb.vld := Bool.and_true _
    have hn := Pipe.items_next false (r.st t).csr.csr2wb ((r.st t).csr.csr2wbIn (r.st t).csrIn)
    rw [hpop] at hn
    refine hn.symm ▸ Fifo.Rel.next _ _ ih ?_
    change Fifo.Rel _ (if (r.st t).csrPush then _ else _) _
    split
    · next hp =>
      have hv : (r.st t).csrValid = true := (Bool.and_eq_true_iff.mp hp).1
      obtain ⟨hs, hv⟩ := Bool.and_eq_true_iff.mp hv
      obtain ⟨d, hd, hi⟩ := r.de2ex_of_vld t hv
      rw [hd]
      refine .single _ _ _ ⟨?_, ?_⟩
      · rw [hi, (r.unitOf_of_sel d).2.2.2.1] at hs
        exact of_decide_eq_true hs
      · exact congrArg Issue.issueInfo hi
    · exact .nil

theorem rel_agu (t : Nat) : Fifo.Rel r.IsAgu (r.st t).agu2lsu.items (r.tags t).agu := by
  induction t with
  | zero => exact .nil
  | succ t ih =>
    refine (Pipe.items_next false (r.st t).agu2lsu (r.st t).agu2lsuIn).symm ▸
      Fifo.Rel.next _ _ ih ?_
    change Fifo.Rel _ (if (r.st t).aguPush then _ else _) _
    split
    · next hp =>
      have hv : (r.st t).aguPipeValid = true := (Bool.and_eq_true_iff.mp hp).1
      have hv : (r.st t).aguValid = true := (Bool.and_eq_true_iff.mp hv).1
      obtain ⟨hs, hv⟩ := Bool.and_eq_true_iff.mp hv
      obtain ⟨d, hd, hi⟩ := r.de2ex_of_vld t hv
      rw [hd]
      refine .single _ _ _ ⟨?_, ?_⟩
      · rw [hi, (r.unitOf_of_sel d).2.2.1] at hs
        exact of_decide_eq_true hs
      · exact congrArg (fun x => Agu.iAgu2lsuInfo (Issue.agu x)) hi
    · exact .nil

-- The access in the AGU's register, when there is one.
theorem agu_of_vld (t : Nat) (h : (r.st t).agu2lsu.vld = true) :
    ∃ d, (r.tags t).agu = [(d, (r.st t).agu2lsu.cancel)] ∧ r.unitOf d = .lsu ∧
      (r.st t).agu2lsu.dat = r.aguOf d :=
  Pipe.rel_of_vld (r.rel_agu t) h

theorem excpPush_iff (s : Cpu) : s.excpPush = true ↔
    s.agu2lsu.vld = true ∧ Lsu.hasExcp s.agu2lsu.dat = true ∧ s.agu2lsu.cancel = false ∧
      s.lsu.excpQueue.iRdy false (Lsu.oExcpQueueReady s.lsuRspValid) = true := by
  simp [Cpu.excpPush, Pipe.vldSet, Lsu.excpQueueIn, Lsu.iExcpQueueValid, Cpu.lsuIn, and_assoc]

theorem memPush_iff (s : Cpu) : s.memPush = true ↔
    s.agu2lsu.vld = true ∧ Lsu.hasExcp s.agu2lsu.dat = false ∧ s.agu2lsu.cancel = false ∧
      s.lsu.memBypbuf.iRdy = true ∧ s.lsu.memQueue.iReady = true := by
  simp [Cpu.memPush, Queue.wen, Lsu.memQueueIn, Lsu.iMemQueueValid, Cpu.lsuIn, and_assoc]

-- An access takes its place in the response queue and in the command buffer in
-- one cycle.
theorem cmdPush_eq (s : Cpu) : s.cmdPush = s.memPush := by
  simp only [Cpu.cmdPush, Cpu.memPush, Queue.wen, Lsu.memQueueIn, Lsu.iMemQueueValid,
    Lsu.iMemFifoVld, Cpu.lsuIn]
  ac_rfl

theorem rel_excp (t : Nat) : Fifo.Rel r.IsExcp (r.st t).lsu.excpQueue.items (r.tags t).excp := by
  induction t with
  | zero => exact .nil
  | succ t ih =>
    refine (Pipe.items_next false (r.st t).lsu.excpQueue (Lsu.excpQueueIn (r.st t).lsuIn)).symm ▸
      Fifo.Rel.next _ _ ih ?_
    change Fifo.Rel _ (if (r.st t).excpPush then _ else _) _
    split
    · next hp =>
      obtain ⟨hv, he, hc, -⟩ := (excpPush_iff _).mp hp
      obtain ⟨d, hd, hu, hi⟩ := r.agu_of_vld t hv
      rw [hd, hc]
      exact .single _ _ _ ⟨hu, hi ▸ he, congrArg Agu.Agu2lsu.info hi⟩
    · exact .nil

theorem rel_memq (t : Nat) : Fifo.Rel r.IsMem (r.st t).lsu.memQueue.items (r.tags t).memq := by
  induction t with
  | zero => rw [Run.st, Cpu.reset, Lsu.reset, Queue.items_reset]; exact .nil
  | succ t ih =>
    refine (Queue.items_next (r.st t).lsu.memQueue ((r.st t).lsu.memQueueIn (r.st t).lsuIn)
      (r.wf_memq t)).symm ▸ Fifo.Rel.next _ _ ih ?_
    change Fifo.Rel _ (if (r.st t).memPush then _ else _) _
    split
    · next hp =>
      obtain ⟨hv, he, hc, -⟩ := (memPush_iff _).mp hp
      obtain ⟨d, hd, hu, hi⟩ := r.agu_of_vld t hv
      rw [hd, hc]
      exact .single _ _ _ ⟨⟨hu, hi ▸ he⟩, congrArg Lsu.iMemQueueInfo hi⟩
    · exact .nil

-- The command that arrives, on both sides.
theorem rel_arriving (t : Nat) : Fifo.Rel r.IsCmd
    ((r.st t).lsu.memBypbuf.arrival
      ((r.st t).lsu.iMemFifoVld (r.st t).agu2lsu.vld (r.st t).agu2lsu.cancel (r.st t).agu2lsu.dat)
      (Lsu.iMemFifoWdat (r.st t).agu2lsu.dat) false)
    ((r.tags t).arriving (r.st t)) := by
  change Fifo.Rel _ (if (r.st t).cmdPush then _ else _) (if (r.st t).cmdPush then _ else _)
  split
  · next hp =>
    rw [cmdPush_eq] at hp
    obtain ⟨hv, he, hc, -⟩ := (memPush_iff _).mp hp
    obtain ⟨d, hd, hu, hi⟩ := r.agu_of_vld t hv
    rw [hd, hc]
    exact .single _ _ _ ⟨⟨hu, hi ▸ he⟩, congrArg Lsu.iMemFifoWdat hi⟩
  · exact .nil

theorem rel_cmd (t : Nat) : Fifo.Rel r.IsCmd (r.st t).lsu.memBypbuf.items (r.tags t).cmd := by
  induction t with
  | zero => rw [Run.st, Cpu.reset, Lsu.reset, Bypbuf.items_reset]; exact .nil
  | succ t ih =>
    exact (Bypbuf.items_next (r.st t).lsu.memBypbuf ((r.st t).lsu.memBypbufIn (r.st t).lsuIn)
      (r.wf_cmd t)).symm ▸ Fifo.Rel.next _ _ ih (r.rel_arriving t)

-- The command on the bus belongs to the oldest access in the command buffer.
theorem onBus_of_cmdValid (t : Nat) (h : (r.st t).lsuCmdValid = true) :
    ∃ d, (r.tags t).onBus (r.st t) = [d] ∧ r.IsCmd (r.st t).lsuCmd d := by
  have hh := Bypbuf.head?_items (r.st t).lsu.memBypbuf _ (Lsu.iMemFifoWdat (r.st t).agu2lsu.dat)
    false h
  obtain ⟨d, hd, hr⟩ := ((r.rel_cmd t).append (r.rel_arriving t)).head? _ _ hh
  obtain ⟨rest, hg⟩ := List.head?_eq_some_iff.mp hd
  refine ⟨d, ?_, hr⟩
  rw [Tags.onBus, hg]
  rfl

theorem biuPush_eq (s : Cpu) :
    s.biu.splitFifo.vldSet true (s.biu.splitFifoIn s.lsuCmdValid s.lsuCmd.addr s.lsuRspReady s.slaves) =
      s.cmdFires := by
  cases hv : s.biu.splitFifo.vld <;>
    simp [Pipe.vldSet, Pipe.iRdy, Biu.splitFifoIn, Cpu.cmdFires, Cpu.lsuCmdReady, Biu.cmdReady,
      Biu.rspidFifoFull, Cpu.slaves, hv]

theorem rel_biu (t : Nat) : Fifo.Rel r.IsSplit (r.st t).biu.splitFifo.items (r.tags t).biu := by
  induction t with
  | zero => exact .nil
  | succ t ih =>
    have hn := Pipe.items_next true (r.st t).biu.splitFifo ((r.st t).biu.splitFifoIn
      (r.st t).lsuCmdValid (r.st t).lsuCmd.addr (r.st t).lsuRspReady (r.st t).slaves)
    rw [biuPush_eq] at hn
    refine hn.symm ▸ Fifo.Rel.next _ _ ih ?_
    split
    · next hp =>
      obtain ⟨d, hd, ha, hc⟩ := r.onBus_of_cmdValid t (Bool.and_eq_true_iff.mp hp).1
      have hs : Biu.spltIndic (r.st t).lsuCmd.addr = Biu.spltIndic (r.aguOf d).addr := by
        rw [hc]
        rfl
      rw [hd]
      exact Fifo.Rel.single (Biu.spltIndic (r.st t).lsuCmd.addr) d false ⟨ha, hs⟩
    · exact .nil

end HiCore.Run
