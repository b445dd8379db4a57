import HiCore.Refine.Bus
import HiCore.Trace.Entries

-- The path of an access from the issue register to the bus keeps program order.
namespace HiCore.Run

open SlotState

variable (r : Run)

theorem biu_vld_of_rspValid (s : Cpu) (h : s.lsuRspValid = true) : s.biu.splitFifo.vld = true := by
  simp only [Cpu.lsuRspValid, Biu.rspValid, Biu.rspidFifoEmpty, Bool.and_eq_true,
    Bool.not_not] at h
  exact h.1

theorem rspFires_eq (s : Cpu) : s.rspFires = s.memPop := by
  cases hr : s.lsuRspValid with
  | false => simp [Cpu.rspFires, Cpu.memPop, Pipe.vldClr, Queue.ren, Lsu.memQueueIn, Cpu.lsuIn, hr]
  | true =>
    simp [Cpu.rspFires, Cpu.memPop, Pipe.vldClr, Queue.ren, Lsu.memQueueIn, Cpu.lsuIn,
      Cpu.lsuRspReady, Lsu.rspReady, biu_vld_of_rspValid s hr, hr]

-- One command at a time is outstanding.
theorem biu_not_vld_of_cmdFires (s : Cpu) (h : s.cmdFires = true) :
    s.biu.splitFifo.vld = false := by
  simp only [Cpu.cmdFires, Cpu.lsuCmdReady, Biu.cmdReady, Biu.rspidFifoFull, Pipe.iRdy, if_true,
    Bool.and_eq_true, Bool.not_not, Bool.not_eq_true'] at h
  exact h.2.2

theorem not_cmdFires_of_biu_vld (s : Cpu) (h : s.biu.splitFifo.vld = true) :
    s.cmdFires = false := by
  by_contra hf
  rw [biu_not_vld_of_cmdFires s (Bool.not_eq_false _ ▸ hf)] at h
  exact Bool.noConfusion h

-- The command goes to the slaves that its address selects, and one that is ready
-- takes it.

theorem slaveCmdValid_port (s : Cpu) (k : Nat) : s.slaveCmdValid.getLsbD k =
    (s.lsuCmdValid && !s.biu.splitFifo.vld && (Biu.spltIndic s.lsuCmd.addr).getLsbD k) := by
  rw [Cpu.slaveCmdValid, Biu.oCmdValid, rep_and, Biu.rspidFifoFull, Pipe.iRdy, if_pos rfl,
    Bool.not_not]
  cases s.lsuCmdValid <;> cases s.biu.splitFifo.vld <;> simp

theorem cmdFires_of_port (s : Cpu) (k : Nat) (hv : s.slaveCmdValid.getLsbD k = true)
    (hr : s.slaveCmdReady.getLsbD k = true) : s.cmdFires = true := by
  rw [slaveCmdValid_port, Bool.and_eq_true, Bool.and_eq_true, Bool.not_eq_true'] at hv
  obtain ⟨⟨hc, hf⟩, hs⟩ := hv
  have hne : Biu.spltIndic s.lsuCmd.addr &&& s.slaveCmdReady ≠ 0#5 := by
    intro he
    have hb := congrArg (BitVec.getLsbD · k) he
    simp [hs, hr] at hb
  simp [Cpu.cmdFires, hc, Cpu.lsuCmdReady, Biu.cmdReady, Biu.rspidFifoFull, Pipe.iRdy, hf, hne]

-- The readies of the ports that the results are about.
theorem slaveCmdReady_port (s : Cpu) :
    s.slaveCmdReady.getLsbD 0 = s.dtcm.cmdReady (s.slaveRspReady.getLsbD 0) ∧
      s.slaveCmdReady.getLsbD 1 = s.lsu2icacheCmdReady ∧
      s.slaveCmdReady.getLsbD 2 = s.plic.cmdReady := by
  rw [Cpu.slaveCmdReady]
  generalize s.nopSlave.cmdReady _ = a
  generalize s.clint.cmdReady _ = b
  generalize s.dtcm.cmdReady _ = c
  refine ⟨?_, ?_, ?_⟩ <;> cases a <;> cases b <;> cases c <;> cases s.plic.cmdReady <;>
    cases s.lsu2icacheCmdReady <;> rfl

theorem and_shift_ne_zero (k : Fin 5) (v : BitVec 5) :
    ((1#5 <<< k.val &&& v) != 0#5) = v.getLsbD k := by
  revert k v
  decide

theorem cmdFires_port (s : Cpu) (k : Fin 5) (hd : Biu.spltIndic s.lsuCmd.addr = 1#5 <<< k.val) :
    s.cmdFires = (s.lsuCmdValid && !s.biu.splitFifo.vld && s.slaveCmdReady.getLsbD k) := by
  rw [Cpu.cmdFires, Cpu.lsuCmdReady, Biu.cmdReady, Biu.rspidFifoFull, Pipe.iRdy, if_pos rfl,
    Bool.not_not, hd, and_shift_ne_zero, Bool.and_comm (BitVec.getLsbD _ _), Bool.and_assoc]

-- The slave is selected by the upper half of the address.
theorem spltIndic_congr (a b : BitVec 32) (h : a.extractLsb' 16 16 = b.extractLsb' 16 16) :
    Biu.spltIndic a = Biu.spltIndic b := by
  rw [Biu.spltIndic, Biu.spltIndic, Biu.spltIndicLow, Biu.spltIndicLow, Slave.top_byte a,
    Slave.top_byte b, h]

theorem tags_ite (c : Bool) (l : List (Nat × Bool)) :
    Fifo.tags (if c then l else []) = if c then Fifo.tags l else [] := by
  cases c <;> rfl

theorem tags_map_false (l : List Nat) : Fifo.tags (l.map fun d => (d, false)) = l := by
  simp [Fifo.tags, Function.comp_def]

-- The tags after the cycle.

theorem tags_memq_succ (t : Nat) : Fifo.tags (r.tags (t + 1)).memq =
    Fifo.shift (r.st t).memPop (Fifo.tags ((r.tags t).arriving (r.st t)))
      (Fifo.tags (r.tags t).memq) := by
  change Fifo.tags (Fifo.next _ _ (if (r.st t).memPush then _ else _) _) = _
  rw [Fifo.tags_next, ← cmdPush_eq]
  rfl

theorem tags_biu_succ (t : Nat) : Fifo.tags (r.tags (t + 1)).biu =
    Fifo.shift (r.st t).memPop (if (r.st t).cmdFires then (r.tags t).onBus (r.st t) else [])
      (Fifo.tags (r.tags t).biu) := by
  change Fifo.tags (Fifo.next _ _ _ _) = _
  rw [Fifo.tags_next, tags_ite, tags_map_false, rspFires_eq]

theorem tags_cmd_succ (t : Nat) : Fifo.tags (r.tags (t + 1)).cmd =
    Fifo.shift (r.st t).cmdFires (Fifo.tags ((r.tags t).arriving (r.st t)))
      (Fifo.tags (r.tags t).cmd) := Fifo.tags_next _ _ _ _

theorem tags_biu_of_vld (t : Nat) (h : (r.st t).biu.splitFifo.vld = true) :
    ∃ d, Fifo.tags (r.tags t).biu = [d] ∧
      (r.st t).biu.splitFifo.dat = Biu.spltIndic (r.aguOf d).addr := by
  obtain ⟨d, hd, -, hx⟩ := Pipe.rel_of_vld (r.rel_biu t) h
  exact ⟨d, by rw [hd]; rfl, hx⟩

theorem tags_biu_of_not_vld (t : Nat) (h : (r.st t).biu.splitFifo.vld = false) :
    Fifo.tags (r.tags t).biu = [] := by
  rw [Pipe.rel_of_not_vld (r.rel_biu t) h]
  rfl

-- The response queue holds the outstanding access and then the waiting ones.
theorem tags_memq (t : Nat) : Fifo.tags (r.tags t).memq =
    Fifo.tags (r.tags t).biu ++ Fifo.tags (r.tags t).cmd := by
  induction t with
  | zero => rfl
  | succ t ih =>
    rw [tags_memq_succ, tags_biu_succ, tags_cmd_succ, ih]
    cases hv : (r.st t).biu.splitFifo.vld with
    | true =>
      obtain ⟨d, hd, -⟩ := r.tags_biu_of_vld t hv
      rw [hd, not_cmdFires_of_biu_vld _ hv]
      cases (r.st t).memPop <;> simp [Fifo.shift]
    | false =>
      have hp : (r.st t).memPop = false := by
        rw [← rspFires_eq, Cpu.rspFires, Pipe.vldClr, hv]
        rfl
      rw [r.tags_biu_of_not_vld t hv, hp, Fifo.shift_false, Fifo.shift_false, List.nil_append,
        List.nil_append, Tags.onBus, Fifo.tags_append, Fifo.take_append_shift]

-- The response queue is not empty while an access is outstanding.
theorem memPop_of_rspValid (t : Nat) (h : (r.st t).lsuRspValid = true) :
    (r.st t).memPop = true := by
  obtain ⟨d, hd, -⟩ := r.tags_biu_of_vld t (biu_vld_of_rspValid _ h)
  have hq := r.tags_memq t
  rw [hd] at hq
  have hv : (r.st t).lsu.memQueue.oValid = true := by
    by_contra hv
    have hrel := r.rel_memq t
    rw [Queue.items_eq_nil _ (Bool.not_eq_true _ ▸ hv)] at hrel
    rw [List.forall₂_nil_left_iff.mp hrel] at hq
    exact absurd hq (by simp)
  exact Bool.and_eq_true_iff.mpr ⟨hv, h⟩

-- The accesses that have not reached the bus, and those that are not done.

def waiting (t : Nat) : List Nat :=
  Fifo.tags (r.tags t).cmd ++ (Fifo.tags (r.tags t).agu ++ Fifo.tags (r.tags t).de2ex)

def path (t : Nat) : List Nat := Fifo.tags (r.tags t).biu ++ r.waiting t

theorem length_agu (t : Nat) : (Fifo.tags (r.tags t).agu).length ≤ 1 := by
  cases hv : (r.st t).agu2lsu.vld with
  | false => simp [Pipe.rel_of_not_vld (r.rel_agu t) hv]
  | true =>
    obtain ⟨d, hd, -⟩ := r.agu_of_vld t hv
    simp [hd, Fifo.tags]

theorem length_de2ex (t : Nat) : (Fifo.tags (r.tags t).de2ex).length ≤ 1 := by
  cases hv : (r.st t).de2ex.vld with
  | false => simp [Pipe.rel_of_not_vld (r.rel_de2ex t) hv]
  | true =>
    obtain ⟨d, hd, -⟩ := r.de2ex_of_vld t hv
    simp [hd, Fifo.tags]

theorem aguPop_of_memPush (s : Cpu) (h : s.memPush = true) : s.aguPop = true := by
  obtain ⟨hv, he, hc, hb, hm⟩ := (memPush_iff s).mp h
  simp [Cpu.aguPop, Pipe.vldClr, Cpu.agu2lsuReady, Lsu.iAgu2lsuReady, hv, he, hc, hb, hm]

theorem de2ex_of_aguPush (t : Nat) (h : (r.st t).aguPush = true) :
    (r.st t).de2ex.vld = true ∧ (r.st t).aguPipeValid = true ∧ (r.st t).issues = true := by
  obtain ⟨hv, hr⟩ := Bool.and_eq_true_iff.mp h
  have hp : (r.st t).aguPipeValid = true := hv
  have hvld : (r.st t).de2ex.vld = true := by
    simp only [Cpu.aguPipeValid, Agu.iAgu2lsuValid, Cpu.aguValid, Bool.and_eq_true] at hp
    exact hp.1.2
  obtain ⟨d, -, hi⟩ := r.de2ex_of_vld t hvld
  obtain ⟨h1, -, -, h4, -⟩ := r.issues_of_unit t d hvld hi
  rw [h4, Bool.and_eq_true] at h
  refine ⟨hvld, hp, ?_⟩
  rw [h1, h.2]
  split <;> rfl

theorem issues_of_aguPush (t : Nat) (h : (r.st t).aguPush = true) : (r.st t).issues = true :=
  (r.de2ex_of_aguPush t h).2.2

-- What goes to the bus and what waits afterwards are what waited before and
-- what decode lets in, in that order.
theorem waiting_succ (t : Nat) :
    ((if (r.st t).cmdFires then (r.tags t).onBus (r.st t) else []) ++ r.waiting (t + 1)).Sublist
      (r.waiting t ++ [t]) := by
  have hcmd : (if (r.st t).cmdFires then (r.tags t).onBus (r.st t) else []) ++
      Fifo.tags (r.tags (t + 1)).cmd =
        Fifo.tags (r.tags t).cmd ++ Fifo.tags ((r.tags t).arriving (r.st t)) := by
    rw [tags_cmd_succ, Tags.onBus, Fifo.tags_append]
    exact Fifo.take_append_shift _ _ _
  have hagu : (Fifo.tags ((r.tags t).arriving (r.st t)) ++ Fifo.tags (r.tags (t + 1)).agu).Sublist
      (Fifo.tags (r.tags t).agu ++
        if (r.st t).aguPush then Fifo.tags (r.tags t).de2ex else []) := by
    change (Fifo.tags (if (r.st t).cmdPush then _ else _) ++
      Fifo.tags (Fifo.next _ _ (if (r.st t).aguPush then _ else _) _)).Sublist _
    rw [Fifo.tags_next, tags_ite, tags_ite, cmdPush_eq]
    exact Fifo.forward_sublist _ _ _ _ (r.length_agu t) (aguPop_of_memPush _)
  have hde : ((if (r.st t).aguPush then Fifo.tags (r.tags t).de2ex else []) ++
      Fifo.tags (r.tags (t + 1)).de2ex).Sublist (Fifo.tags (r.tags t).de2ex ++ [t]) := by
    change (_ ++ Fifo.tags (Fifo.next _ _ (if (r.st t).decodes then _ else _) _)).Sublist _
    rw [Fifo.tags_next]
    refine (Fifo.forward_sublist _ _ _ _ (r.length_de2ex t) (r.issues_of_aguPush t)).trans ?_
    refine List.Sublist.append_left ?_ _
    rw [tags_ite]
    split
    · exact List.Sublist.refl _
    · exact List.nil_sublist _
  have h1 := (hagu.append_right (Fifo.tags (r.tags (t + 1)).de2ex)).append_left
    (Fifo.tags (r.tags t).cmd)
  have h2 := (hde.append_left (Fifo.tags (r.tags t).agu)).append_left (Fifo.tags (r.tags t).cmd)
  rw [waiting, waiting, ← List.append_assoc, hcmd]
  simp only [List.append_assoc] at h1 h2 ⊢
  exact h1.trans h2

theorem path_succ (t : Nat) : (r.path (t + 1)).Sublist (r.path t ++ [t]) := by
  rw [path, path, tags_biu_succ, List.append_assoc]
  refine ((Fifo.shift_sublist _ _ _).append_right _).trans ?_
  rw [List.append_assoc]
  exact (r.waiting_succ t).append_left _

theorem path_sorted (t : Nat) : (r.path t).Pairwise (· < ·) ∧ ∀ d ∈ r.path t, d < t := by
  induction t with
  | zero => simp [path, waiting, tags, Tags.reset]
  | succ t ih =>
    obtain ⟨hs, hlt⟩ := ih
    refine ⟨List.Pairwise.sublist (r.path_succ t) ?_, fun d hd => ?_⟩
    · exact List.pairwise_append.mpr ⟨hs, List.pairwise_singleton _ _,
        fun a ha b hb => by rw [List.mem_singleton.mp hb]; exact hlt a ha⟩
    · rcases List.mem_append.mp ((r.path_succ t).subset hd) with h | h
      · exact Nat.lt_succ_of_lt (hlt d h)
      · rw [List.mem_singleton.mp h]
        exact Nat.lt_succ_self t

-- Stores. One is let into the AGU's register only at the head of the reorder
-- buffer, and stays at the head until it is written back.

def IsStore (d : Nat) : Prop := Decode.storeOp (r.st d).if2de.intr = true

theorem isStore_iff (d : Nat) (hu : r.unitOf d = .lsu) :
    r.IsStore d ↔ (r.aguOf d).read = false := by
  have hr : (r.aguOf d).read = (Issue.agu (r.info d)).loadOp := rfl
  rw [hr, r.agu_info d hu, IsStore, Decode.storeOp_of_lsu _ hu, Bool.not_eq_true']
  rfl

-- The instruction waits for its result at the head of the reorder buffer.
structure HeadWaits (t d : Nat) : Prop where
  ptr : r.ptrOf d = (r.st t).rob.head
  state : (r.st t).rob.state (r.st t).rob.head = MAPPED_S
  owner : r.owner t (r.st t).rob.head = d

theorem headWaits_of_inflight (t d : Nat) (h : d ∈ (r.tags t).inflight)
    (hp : r.ptrOf d = (r.st t).rob.head) : r.HeadWaits t d := by
  obtain ⟨hs, ho⟩ := (r.tracked t).owner_of_mem (fun u _ => r.lawful u) d h
  rw [hp] at hs ho
  exact ⟨hp, hs, ho⟩

theorem HeadWaits.mem {r : Run} {t d : Nat} (h : r.HeadWaits t d) :
    (r.st t).rob.head ∈ (r.st t).rob.window := r.mem_of_mapped t _ h.state

theorem flush_of_not_commits (s : Cpu) (h : s.commits = false) : s.flush = false := by
  have hc : Commit.commits s.commitIn = false := h
  simp [Cpu.flush, Commit.flush, hc]

-- The four reasons for a flush.
theorem not_flush_iff (s : Cpu) (h : s.commits = true) : s.flush = false ↔
    s.commitIn.info.excp = 0#16 ∧ Commit.csrIrq s.commitIn = 0#12 ∧
      s.commitIn.issue.fenceIOp = false ∧ s.commitIn.issue.mretOp = false := by
  have hc : Commit.commits s.commitIn = true := h
  simp only [Cpu.flush, Commit.flush, Commit.excpEn, Commit.irqEn, hc, Bool.true_and,
    Bool.or_eq_false_iff, Bool.not_eq_false', beq_iff_eq, and_assoc]

-- A head that has its result commits.
theorem commits_of_state (t : Nat) (h : (r.st t).rob.state (r.st t).rob.head = WRITEBACK_S) :
    (r.st t).commits = true := by
  simp [Cpu.commits, Commit.commits, Cpu.commitIn, Rob.commitReady, h, Commit.robValid]

theorem head_succ_of_not_commits (t : Nat) (h : (r.st t).commits = false) :
    (r.st (t + 1)).rob.head = (r.st t).rob.head := by
  have hr : (r.st t).rob.ren (r.st t).robIn.commitValid = false := h
  change Ring.slot (dfflr ((r.st t).rob.ren (r.st t).robIn.commitValid) _ _) = _
  rw [hr]
  rfl

theorem HeadWaits.not_commits {t d : Nat} (h : r.HeadWaits t d) : (r.st t).commits = false := by
  have hs := h.state
  simp [Cpu.commits, Commit.commits, Cpu.commitIn, Rob.commitReady, hs]

theorem mem_inflight_agu (t d : Nat) (h : (d, false) ∈ (r.tags t).agu) :
    d ∈ (r.tags t).inflight := by
  simp only [Tags.inflight, Multiset.mem_add, Fifo.mem_live]
  exact .inl (.inl (.inr h))

theorem mem_inflight_de2ex (t d : Nat) (h : (d, false) ∈ (r.tags t).de2ex) :
    d ∈ (r.tags t).inflight := by
  simp only [Tags.inflight, Multiset.mem_add, Fifo.mem_live]
  exact .inl (.inl (.inl (.inl (.inl h))))

theorem mem_inflight_memq (t d : Nat) (h : (d, false) ∈ (r.tags t).memq) :
    d ∈ (r.tags t).inflight := by
  simp only [Tags.inflight, Multiset.mem_add, Fifo.mem_live]
  exact .inr h

structure StoresAtHead (t : Nat) : Prop where
  agu : ∀ d, r.IsStore d → (d, false) ∈ (r.tags t).agu → r.HeadWaits t d
  memq : ∀ d c, r.IsStore d → (d, c) ∈ (r.tags t).memq → c = false ∧ r.HeadWaits t d

-- The store that the AGU accepts is at the head.
theorem headWaits_of_aguPush (t d : Nat) (hs : r.IsStore d) (hp : (r.st t).aguPush = true)
    (hd : (d, false) ∈ (r.tags t).de2ex) : r.HeadWaits t d := by
  obtain ⟨hv, hpv, -⟩ := r.de2ex_of_aguPush t hp
  obtain ⟨e, he, hi⟩ := r.de2ex_of_vld t hv
  have hm := hd
  rw [he, List.mem_singleton, Prod.mk.injEq] at hm
  obtain ⟨rfl, -⟩ := hm
  refine r.headWaits_of_inflight t d (r.mem_inflight_de2ex t d hd) ?_
  have hu : r.unitOf d = .lsu := Decode.unit_of_storeOp _ hs
  have hload : (Issue.agu (r.info d)).loadOp = false := (r.isStore_iff d hu).mp hs
  rw [Cpu.aguPipeValid, Agu.iAgu2lsuValid, hi, hload, Bool.false_or, Bool.and_eq_true,
    Bool.and_eq_true, beq_iff_eq] at hpv
  rw [← r.robPtr_info]
  exact hpv.2.2.symm

theorem storesAtHead (t : Nat) : r.StoresAtHead t := by
  induction t with
  | zero => exact ⟨fun d _ h => by simp [tags, Tags.reset] at h,
      fun d c _ h => by simp [tags, Tags.reset] at h⟩
  | succ t ih =>
    -- A waiting head neither commits nor flushes, so it is the head again.
    have keep : ∀ d, r.HeadWaits t d → d ∈ (r.tags (t + 1)).inflight → r.HeadWaits (t + 1) d := by
      intro d hw hm
      refine r.headWaits_of_inflight (t + 1) d hm ?_
      rw [r.head_succ_of_not_commits t hw.not_commits]
      exact hw.ptr
    refine ⟨fun d hs hd => ?_, fun d c hs hd => ?_⟩
    · have hm := r.mem_inflight_agu (t + 1) d hd
      obtain ⟨-, ho | hn⟩ := Fifo.mem_next_unmarked _ _ _ _ _ hd
      · exact keep d (ih.agu d hs ho) hm
      · split at hn
        · next hp => exact keep d (r.headWaits_of_aguPush t d hs hp hn) hm
        · exact absurd hn List.not_mem_nil
    · obtain ⟨c', hold, hc⟩ := Fifo.mem_next _ _ _ _ _ _ hd
      have hcw : c' = false ∧ r.HeadWaits t d := by
        rcases hold with ho | hn
        · exact ih.memq d c' hs ho
        · split at hn
          · next hp =>
            obtain ⟨hv, -, hcan, -⟩ := (memPush_iff _).mp hp
            obtain ⟨e, he, -⟩ := r.agu_of_vld t hv
            have hm := hn
            rw [he, hcan, List.mem_singleton, Prod.mk.injEq] at hm
            obtain ⟨-, rfl⟩ := hm
            exact ⟨rfl, ih.agu d hs hn⟩
          · exact absurd hn List.not_mem_nil
      obtain ⟨rfl, hw⟩ := hcw
      rw [flush_of_not_commits _ hw.not_commits] at hc
      obtain rfl : c = false := hc
      exact ⟨rfl, keep d hw (r.mem_inflight_memq (t + 1) d hd)⟩

end HiCore.Run
