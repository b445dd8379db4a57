import HiCore.Theorems.AccessOrder
import HiCore.Theorems.ProgramRun

-- The instruction memory as data and as code: what loads from it and fetches find after the stores
-- of the program.
namespace HiCore.Run

variable {r : Run}

-- The ITCM after the writes of some stores, from what it holds at reset.
def itcmAfter (r : Run) (ds : List Nat) : BitVec 12 → BitVec 32 :=
  ds.foldl (fun m d a =>
    if (r.storeCmd d).addr.extractLsb' 16 16 = 0x0000#16 ∧ a = Tcm.index (r.storeCmd d).addr
    then SimRam.merge (r.storeCmd d).wmask (r.storeCmd d).wdata (m a) else m a)
    (r.st 0).itcm.ram.memR

theorem itcm_eq (r : Run) (t : Nat) : (r.st t).itcm.ram.memR = r.itcmAfter (r.sentStores t) := by
  induction t with
  | zero => rfl
  | succ t ih =>
    rw [sentStores]
    by_cases hf : ((r.st t).cmdFires && !(r.st t).lsuCmd.read) = true
    · obtain ⟨d, hd, hs⟩ := store_of_fires t hf
      rw [if_pos hf, hd.2, itcmAfter, List.foldl_append, ← itcmAfter, ← ih]
      funext a
      rw [List.foldl_cons, List.foldl_nil]
      by_cases hreg : (r.storeCmd d).addr.extractLsb' 16 16 = 0x0000#16
      · rw [(hd.writesItcm hs hreg).memory]
        simp [hreg]
      · rcases itcm_mem_succ (r := r) t with hk | ⟨e, he, -, hreg'⟩
        · rw [hk, if_neg fun h => hreg h.1]
        · obtain rfl : d = e := List.head_eq_of_cons_eq (hd.2.symm.trans he.2)
          exact absurd hreg' hreg
    · rcases itcm_mem_succ (r := r) t with hk | ⟨e, he, hs, -⟩
      · rw [if_neg hf, hk, ih]
      · exact absurd (he.fires_iff.mpr hs) hf

-- The stores that have been sent grow with time, and are older than the next instruction.

theorem sentStores_mono {u v : Nat} (h : u ≤ v) : r.sentStores u <+: r.sentStores v := by
  induction v, h using Nat.le_induction with
  | base => exact List.prefix_refl _
  | succ v _ ih =>
    rw [sentStores]
    split
    · exact ih.trans (List.prefix_append _ _)
    · exact ih

theorem lt_of_mem_sentStores {t d : Nat} (h : d ∈ r.sentStores t) : d < t := by
  induction t with
  | zero => exact absurd h List.not_mem_nil
  | succ t ih =>
    rw [sentStores] at h
    split at h
    · next hf =>
      obtain ⟨e, he, -⟩ := store_of_fires t hf
      rw [he.2] at h
      rcases List.mem_append.mp h with hm | hm
      · exact Nat.lt_succ_of_lt (ih hm)
      · rw [List.mem_singleton.mp hm]
        exact Nat.lt_succ_of_lt he.lt
    · exact Nat.lt_succ_of_lt (ih h)

theorem committedStores_sent (t : Nat) : r.committedStores t <+: r.sentStores t := by
  by_cases h : ∃ d, r.Uncommitted t d
  · obtain ⟨d, hd⟩ := h
    rw [(sentStores_eq t).1 d hd]
    exact List.prefix_append _ _
  · rw [(sentStores_eq t).2 (not_exists.mp h)]

-- Whatever was sent before an instruction is decoded has committed when that instruction does.
theorem sentStores_committed {c u : Nat} (h : u ≤ r.decodeOf c) (huc : u ≤ c) :
    r.sentStores u <+: r.committedStores c := by
  have hp := sentStores_mono (r := r) huc
  by_cases hex : ∃ d, r.Uncommitted c d
  · obtain ⟨d, hd⟩ := hex
    rw [(sentStores_eq c).1 d hd, List.prefix_concat_iff] at hp
    rcases hp with heq | hp
    · have hm : d ∈ r.sentStores u := by
        rw [heq]
        exact List.mem_append_right _ List.mem_cons_self
      have hlt := lt_of_mem_sentStores hm
      have ho : r.decodeOf c = d := hd.owner
      omega
    · exact hp
  · rwa [(sentStores_eq c).2 (not_exists.mp hex)] at hp

theorem itcm_read (r : Run) (u : Nat) (hf : (r.st u).cmdFires = true)
    (hr : (r.st u).lsuCmd.read = true)
    (ha : (r.st u).lsuCmd.addr.extractLsb' 16 16 = 0x0000#16) :
    (r.st (u + 1)).lsuRspRdata = (r.st u).itcm.ram.memR (Tcm.index (r.st u).lsuCmd.addr) := by
  have ho : Slave.owner (r.st u).lsuCmd.addr = .itcm := by
    rw [Slave.owner, ha, if_neg (by decide), if_pos rfl]
  have hn := r.itcm_of_cmdFires u hf ha
  rw [hr] at hn
  rw [r.lsuRspRdata_succ u hf, ho]
  change (r.st (u + 1)).itcm.ram.dout = _
  rw [hn]
  simp [SimRam.next, SimRam.dout, dfflr]

-- A load finds the stores before it. The word of an instruction is that after some of the stores
-- before it, and after all those before the last fence.i.
theorem code_memory (r : Run) (c : Nat) (hc : (r.st c).commits = true) :
    (r.Accesses c → Decode.loadOp (r.st (r.decodeOf c)).if2de.intr = true →
      (Agu.addr (r.aguIn (r.decodeOf c))).extractLsb' 16 16 = 0x0000#16 →
      (r.st c).rob.rdData (r.st c).rob.head =
        Lsu.rdData (Lsu.iMemQueueInfo (r.aguOf (r.decodeOf c)))
          (r.itcmAfter (r.committedStores c) (Tcm.index (Agu.addr (r.aguIn (r.decodeOf c)))))) ∧
    ((r.st c).commitPc.extractLsb' 0 2 = 0#2 → (r.st c).commitPc.extractLsb' 16 16 = 0x0000#16 →
      ∃ ds, ds <+: r.committedStores c ∧
        (r.st (r.decodeOf c)).if2de.intr = r.itcmAfter ds (Tcm.index (r.st c).commitPc) ∧
        ∀ T < c, (r.st T).commits = true →
          ((r.st T).rob.issue (r.st T).rob.head).fenceIOp = true → r.committedStores T <+: ds) := by
  constructor
  · intro h hl hreg
    obtain ⟨u, hf, hread, haddr, hsent, hrd⟩ := h.load hl
    rw [hrd, r.itcm_read u hf hread (by rw [haddr]; exact hreg), itcm_eq, hsent, haddr]
  · intro hal hin
    have hm := r.head_mem c hc
    have hpc : (r.st c).commitPc = (r.st (r.decodeOf c)).if2de.pc := by
      have hi : (r.st c).commitIn.info = _ := r.info_of_commits c hc
      rw [Cpu.commitPc, hi]
      exact r.pc_resultInfo _
    rw [hpc] at hal hin ⊢
    have hw := r.readsWord_owner c _ hm hal hin
    have hv := (if2deValid_of_robWen _ (r.robWen_owner c _ hm)).1
    have hfd : r.fetchOf (r.decodeOf c) < r.decodeOf c := r.fetchOf_lt _ hv
    have hdc : r.decodeOf c < c := r.owner_lt c _ hm
    refine ⟨r.sentStores (r.fetchOf (r.decodeOf c)), ?_, ?_, fun T hT hcT hi => ?_⟩
    · exact sentStores_committed hfd.le (hfd.trans hdc).le
    · rw [← itcm_eq]
      exact hw.word
    · have hlt := r.lt_fetchOf_owner T (r.flush_of_fenceI T hcT hi) c hT _ hm
      exact (committedStores_sent T).trans (sentStores_mono hlt.le)

-- The instruction behind the fence.i that the store has changed.
theorem code_memory_selfModify :
    ∃ ds, [5] <+: ds ∧ selfModify.itcmAfter ds 4#12 = 0x00000013#32 := by
  have h : (selfModify.st 17).commits = true ∧ (selfModify.st 17).commitPc = 16#32 ∧
      (selfModify.st (selfModify.decodeOf 17)).if2de.intr = 0x00000013#32 ∧
      (selfModify.st 10).commits = true ∧
      ((selfModify.st 10).rob.issue (selfModify.st 10).rob.head).fenceIOp = true ∧
      selfModify.committedStores 10 = [5] := by decide +kernel
  obtain ⟨hc, hpc, hw, hT, hi, hs⟩ := h
  obtain ⟨ds, -, hword, hall⟩ := (code_memory selfModify 17 hc).2 (by rw [hpc]; decide)
    (by rw [hpc]; decide)
  rw [hpc, hw] at hword
  exact ⟨ds, hs ▸ hall 10 (by decide) hT hi, hword.symm⟩

end HiCore.Run
