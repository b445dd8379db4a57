import HiCore.Theorems.Flush

-- A fence.i makes the stores before it visible to the fetches after it.
namespace HiCore

theorem spltIndic_of_itcm (addr : BitVec 32) (h : addr.extractLsb' 16 16 = 0x0000#16) :
    Biu.spltIndic addr = 2#5 := by
  rw [Run.spltIndic_congr addr 0#32 h]
  decide

namespace Run

variable (r : Run)

-- Decode finds in cycle `d` the word of the ITCM that the fetch command accepted
-- in cycle `f` read.
structure ReadsWord (d f : Nat) : Prop where
  accepted : (r.st f).if2icacheCmdValid = true ∧ (r.st f).if2icacheCmdReady = true
  pc : (r.st d).if2de.pc = (r.st f).ifetch.pc
  word : (r.st d).if2de.intr = (r.st f).itcm.ram.memR (Tcm.index (r.st d).if2de.pc)

-- The write command of store `d` is performed on the ITCM in cycle `u`.
structure WritesItcm (u d : Nat) : Prop where
  sends : r.Sends u d
  cmd : (r.st u).lsuCmd = r.storeCmd d
  memory : (r.st (u + 1)).itcm.ram.memR = fun a =>
    if a == Tcm.index (r.storeCmd d).addr
    then SimRam.merge (r.storeCmd d).wmask (r.storeCmd d).wdata ((r.st u).itcm.ram.memR a)
    else (r.st u).itcm.ram.memR a

-- A command of the LSU for the ITCM is on the ITCM's port when it is accepted.
theorem itcm_of_cmdFires (t : Nat) (hf : (r.st t).cmdFires = true)
    (ha : (r.st t).lsuCmd.addr.extractLsb' 16 16 = 0x0000#16) : (r.st (t + 1)).itcm.ram =
      (r.st t).itcm.ram.next true (!(r.st t).lsuCmd.read) (Tcm.index (r.st t).lsuCmd.addr)
        (r.st t).lsuCmd.wmask (r.st t).lsuCmd.wdata := by
  have hd := spltIndic_of_itcm _ ha
  have hr := cmdFires_port (r.st t) 1 hd
  rw [hf, eq_comm, Bool.and_eq_true, Bool.and_eq_true] at hr
  have hv : (r.fetchPort.ins t).lsuCmdValid = true := by
    change (r.st t).slaveCmdValid.getLsbD 1 = true
    rw [slaveCmdValid_port, hd, hr.1.1, hr.1.2]
    rfl
  have hp : (r.fetchPort.st t).itcmPush (r.fetchPort.ins t) = true := by
    rw [FetchPort.itcmPush_of_lsu _ _ hv, r.fetchPort_st]
    exact (slaveCmdReady_port _).2.1.symm.trans hr.2
  have hn := r.fetchPort.itcm_ram_succ t
  rw [hp, FetchPort.oCmd_of_lsu _ _ hv, r.fetchPort_st, r.fetchPort_st] at hn
  exact hn

theorem Sends.writesItcm {r : Run} {u d : Nat} (h : r.Sends u d) (hs : r.IsStore d)
    (ha : (r.storeCmd d).addr.extractLsb' 16 16 = 0x0000#16) : r.WritesItcm u d := by
  have hc := h.storeCmd hs
  have hn := r.itcm_of_cmdFires u h.1 (hc ▸ ha)
  rw [hc] at hn
  exact ⟨h, hc, congrArg SimRam.memR hn⟩

-- An entry at a legal pc was decoded from the word that its fetch read.
theorem readsWord_owner (t : Nat) (n : BitVec 4) (hm : n ∈ (r.st t).rob.window)
    (hal : (r.st (r.owner t n)).if2de.pc.extractLsb' 0 2 = 0#2)
    (hin : (r.st (r.owner t n)).if2de.pc.extractLsb' 16 16 = 0x0000#16) :
    r.ReadsWord (r.owner t n) (r.fetchOf (r.owner t n)) := by
  have hv := (if2deValid_of_robWen _ (r.robWen_owner t n hm)).1
  obtain ⟨-, hpc, -, hword⟩ := r.head?_decode _ hv
  rw [hpc] at hal hin
  obtain ⟨hp, hw⟩ := hword (legal_of_pc _ hal hin)
  rw [Cpu.ifqPush_iff, Bool.and_eq_true] at hp
  exact ⟨hp, hpc, by rw [hpc]; exact hw⟩

theorem flush_of_fenceI (T : Nat) (hc : (r.st T).commits = true)
    (hi : ((r.st T).rob.issue (r.st T).rob.head).fenceIOp = true) : (r.st T).flush = true := by
  by_contra hn
  obtain ⟨-, -, hf, -⟩ := (not_flush_iff _ hc).mp (Bool.not_eq_true _ ▸ hn)
  exact Bool.noConfusion (hf.symm.trans hi)

-- What commits after the fence.i was fetched after it, and a store that commits
-- before it was performed before it commits.
theorem fence_i_orders_fetch (r : Run) (T : Nat) (hT : (r.st T).commits = true)
    (hi : ((r.st T).rob.issue (r.st T).rob.head).fenceIOp = true) (c d : Nat) (hTc : T < c)
    (hc : (r.st c).commits = true) (hd : r.owner c (r.st c).rob.head = d) :
    T < r.fetchOf d ∧
    ((r.st d).if2de.pc.extractLsb' 0 2 = 0#2 → (r.st d).if2de.pc.extractLsb' 16 16 = 0x0000#16 →
      r.ReadsWord d (r.fetchOf d)) ∧
    ∀ v e, v < T → (r.st v).commits = true → r.owner v (r.st v).rob.head = e →
      Decode.storeOp (r.st e).if2de.intr = true →
      ((r.st v).rob.info (r.st v).rob.head).excp = 0#16 →
      (r.storeCmd e).addr.extractLsb' 16 16 = 0x0000#16 →
      ∃ u < v, r.WritesItcm u e := by
  subst hd
  have hm := r.head_mem c hc
  refine ⟨r.lt_fetchOf_owner T (r.flush_of_fenceI T hT hi) c hTc _ hm,
    r.readsWord_owner c _ hm, ?_⟩
  rintro v e - hv rfl hs hx ha
  obtain ⟨u, hu, hsend⟩ := sends_of_commits v hv (Decode.unit_of_storeOp _ hs) hx
  exact ⟨u, hu, hsend.writesItcm hs ha⟩

-- `addi x1,x0,0x13; sw x1,16(x0); fence.i; addi x2,x0,1; ecall`: decode takes the
-- ecall in cycle 8, but what commits in its place is the `addi x0,x0,0` stored over it.
def selfModify : Run :=
  program false [0x01300093#32, 0x00102823#32, 0x0000100F#32, 0x00100113#32, 0x00000073#32]

theorem fence_i_selfModify : (selfModify.st 14).if2de.pc = 16#32 ∧
    (selfModify.st 14).if2de.intr = 0x13#32 ∧ selfModify.ReadsWord 14 12 ∧
    ∃ u < 9, selfModify.WritesItcm u 5 := by
  have hw : selfModify.fetchOf 14 = 12 ∧ (selfModify.st 14).if2de.pc = 16#32 ∧
      (selfModify.st 14).if2de.intr = 0x13#32 := by decide +kernel
  have hs : (selfModify.st 9).commits = true ∧
      selfModify.owner 9 (selfModify.st 9).rob.head = 5 ∧
      Decode.storeOp (selfModify.st 5).if2de.intr = true ∧
      ((selfModify.st 9).rob.info (selfModify.st 9).rob.head).excp = 0#16 ∧
      (selfModify.storeCmd 5).addr.extractLsb' 16 16 = 0x0000#16 := by decide +kernel
  have hf : (selfModify.st 10).commits = true ∧
      ((selfModify.st 10).rob.issue (selfModify.st 10).rob.head).fenceIOp = true ∧
      (selfModify.st 17).commits = true ∧
      selfModify.owner 17 (selfModify.st 17).rob.head = 14 := by decide +kernel
  obtain ⟨-, hread, hwrite⟩ := fence_i_orders_fetch selfModify 10 hf.1 hf.2.1 17 14 (by decide)
    hf.2.2.1 hf.2.2.2
  rw [hw.1, hw.2.1] at hread
  refine ⟨hw.2.1, hw.2.2, hread rfl rfl, ?_⟩
  exact hwrite 9 5 (by decide) hs.1 hs.2.1 hs.2.2.1 hs.2.2.2.1 hs.2.2.2.2

end Run

end HiCore
