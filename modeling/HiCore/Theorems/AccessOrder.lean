import HiCore.Theorems.Jalr
import HiCore.Theorems.Latency
import HiCore.Trace.Results

-- The loads and stores that commit, as the bus sees them: every one is there once, in program
-- order, and its answer comes in the next cycle.
namespace HiCore.Run

variable {r : Run}

-- A load or a store commits in cycle `c`, and it is the access itself that is done.
structure Accesses (r : Run) (c : Nat) : Prop where
  commits : (r.st c).commits = true
  unit : r.unitOf (r.decodeOf c) = .lsu
  excp : (r.st c).commitIn.info.excp = 0#16

theorem decodeOf_lt_of_commits {b c : Nat} (hb : (r.st b).commits = true)
    (hc : (r.st c).commits = true) (hbc : b < c) : r.decodeOf b < r.decodeOf c := by
  obtain ⟨older, hpb⟩ := r.pending_eq_cons b hb
  obtain ⟨younger, hpc⟩ := r.pending_eq_cons c hc
  have hcb : r.rob.commits b = true := by
    rw [Rob.Run.commits, r.rob_st]
    exact hb
  refine Rob.Run.lt_of_commit r.rob b c _ _ hbc hcb ?_ ?_
  · rw [hpb]
    rfl
  · rw [hpc]
    exact List.mem_cons_self

-- A younger access is sent later.
theorem Sends.lt_of_lt {u v d e : Nat} (hu : r.Sends u d) (hv : r.Sends v e) (hde : d < e) :
    u < v := by
  rcases Nat.lt_trichotomy u v with h | h | h
  · exact h
  · subst h
    have he := hu.2.symm.trans hv.2
    rw [List.cons.injEq] at he
    omega
  · have := hv.lt_waiting u h d hu.mem_waiting
    omega

-- The bus answers at once.
theorem Sends.pairs {u d : Nat} (h : r.Sends u d) : r.Pairs (u + 1) d := by
  constructor
  · rw [memPop_eq, biu_vld_succ]
    exact h.1
  · have hv := biu_not_vld_of_cmdFires _ h.1
    rw [tags_biu_succ, r.memPop_eq, hv, h.1, if_pos rfl, h.2, r.tags_biu_of_not_vld u hv]
    rfl

-- The answer to a command comes from the slave that it is for.
theorem lsuRspRdata_succ (r : Run) (u : Nat) (hf : (r.st u).cmdFires = true) :
    (r.st (u + 1)).lsuRspRdata =
      (r.st (u + 1)).slaveRspRdata (Slave.owner (r.st u).lsuCmd.addr).port := by
  have hd : (r.st (u + 1)).biu.splitFifo.dat = Biu.spltIndic (r.st u).lsuCmd.addr := by
    have h := Biu.splitFifo_vldSet (r.st u).biu (r.st u).lsuCmdValid (r.st u).lsuCmd.addr
      (r.st u).lsuRspReady (r.st u).slaves
    refine if_pos (h.trans ?_)
    exact hf
  refine Biu.rspRdata_owner _ _ ((r.biu_vld_succ u).trans hf) hd _ ?_
  have hn := r.memBus.rdata_nop (u + 1)
  rw [MemBus.Run.slaveRdata, memBus_st] at hn
  exact hn

theorem accesses_in_order (r : Run) (c : Nat) (h : r.Accesses c) :
    ∃ u, u + 1 < c ∧ r.Sends u (r.decodeOf c) ∧ (∀ v, r.Sends v (r.decodeOf c) → v = u) ∧
      (r.st u).lsuCmd = Lsu.iMemFifoWdat (r.aguOf (r.decodeOf c)) ∧
      (r.st (u + 1)).lsuRspValid = true ∧
      (r.st c).rob.rdData (r.st c).rob.head =
        Lsu.rdData (Lsu.iMemQueueInfo (r.aguOf (r.decodeOf c))) (r.st (u + 1)).lsuRspRdata ∧
      ∀ b < c, r.Accesses b → ∀ v, r.Sends v (r.decodeOf b) → v < u := by
  obtain ⟨w, hw, hp, hrd⟩ := r.rdData_of_lsu c (r.decodeOf c) h.commits rfl h.unit h.excp
  obtain ⟨u, -, hs⟩ := hp.sends
  obtain rfl : w = u + 1 := hp.unique hs.pairs
  refine ⟨u, hw, hs, fun v hv => hv.unique hs, hs.cmd.2, ?_, hrd, fun b hb hab v hv => ?_⟩
  · rw [lsuRspValid_eq, biu_vld_succ]
    exact hs.1
  · exact hv.lt_of_lt hs (decodeOf_lt_of_commits hab.commits h.commits hb)

-- A load is on the bus behind the stores before it and in front of those after it.
theorem Accesses.load {c : Nat} (h : r.Accesses c)
    (hl : Decode.loadOp (r.st (r.decodeOf c)).if2de.intr = true) :
    ∃ u, (r.st u).cmdFires = true ∧ (r.st u).lsuCmd.read = true ∧
      (r.st u).lsuCmd.addr = Agu.addr (r.aguIn (r.decodeOf c)) ∧
      r.sentStores u = r.committedStores c ∧
      (r.st c).rob.rdData (r.st c).rob.head =
        Lsu.rdData (Lsu.iMemQueueInfo (r.aguOf (r.decodeOf c))) (r.st (u + 1)).lsuRspRdata := by
  obtain ⟨w, hw, hp, hrd⟩ := r.rdData_of_lsu c (r.decodeOf c) h.commits rfl h.unit h.excp
  obtain ⟨u, -, hs⟩ := hp.sends
  obtain rfl : w = u + 1 := hp.unique hs.pairs
  have hagu : r.aguOf (r.decodeOf c) = Agu.iAgu2lsuInfo (r.aguIn (r.decodeOf c)) := by
    rw [aguOf, r.agu_info _ h.unit]
  have hload : ¬ r.IsStore (r.decodeOf c) := by
    rw [r.isStore_iff _ h.unit, hagu]
    exact fun hn => Bool.noConfusion (hn.symm.trans hl)
  have hsent := hs.sentStores_eq hload c _ (r.head_mem c h.commits) rfl (by omega)
  have hcommit := (sentStores_eq (r := r) c).2 fun e he => hload (by
    rw [decodeOf, he.owner]
    exact he.store)
  have hcmd := hs.cmd.2
  rw [hagu] at hcmd
  refine ⟨u, hs.1, ?_, ?_, hsent.symm.trans hcommit, hrd⟩
  · rw [hcmd]
    exact hl
  · rw [hcmd]
    rfl

-- The load, behind the store.
theorem accesses_in_order_storeLoad : ∃ u, 8 < u ∧ u < 11 ∧ storeLoad.Sends u 7 := by
  have hload : (storeLoad.st 12).commits = true ∧
      storeLoad.unitOf (storeLoad.decodeOf 12) = .lsu ∧
      (storeLoad.st 12).commitIn.info.excp = 0#16 ∧ storeLoad.decodeOf 12 = 7 := by decide +kernel
  have hstore : (storeLoad.st 10).commits = true ∧
      storeLoad.unitOf (storeLoad.decodeOf 10) = .lsu ∧
      (storeLoad.st 10).commitIn.info.excp = 0#16 ∧ storeLoad.decodeOf 10 = 6 ∧
      (storeLoad.st 8).cmdFires = true ∧
      (storeLoad.tags 8).onBus (storeLoad.st 8) = [6] := by decide +kernel
  obtain ⟨u, hu, hs, -, -, -, -, hlt⟩ :=
    accesses_in_order storeLoad 12 ⟨hload.1, hload.2.1, hload.2.2.1⟩
  have hb := hlt 10 (by decide) ⟨hstore.1, hstore.2.1, hstore.2.2.1⟩ 8
    (hstore.2.2.2.1 ▸ hstore.2.2.2.2)
  exact ⟨u, hb, by omega, hload.2.2.2 ▸ hs⟩

end HiCore.Run
