import HiCore.Theorems.AccessOrder

-- The registers of the CLINT and the PLIC that only software writes, as a program sees them: a load
-- finds what the last store to the register before it has left.
namespace HiCore

inductive DevReg where
  | msip
  | mtimecmpL
  | mtimecmpH
  | prio (n : BitVec 2)
  | enab
  | thod
  deriving DecidableEq

namespace DevReg

def addr : DevReg → BitVec 32
  | msip => 0xF000#16 ++ 0x0000#16
  | mtimecmpL => 0xF000#16 ++ 0x4000#16
  | mtimecmpH => 0xF000#16 ++ 0x4004#16
  | prio n => 0xF1#8 ++ (n.setWidth 24 * 4#24)
  | enab => 0xF1#8 ++ 0x002000#24
  | thod => 0xF1#8 ++ 0x200000#24

-- The bits that a store leaves. Source 0 has no priority and is never enabled.
def legalize (v : BitVec 32) : DevReg → BitVec 32
  | msip => 0#31 ++ BitVec.ofBool (v.getLsbD 0)
  | mtimecmpL | mtimecmpH => v
  | prio n => if n = 0#2 then 0#32 else (v.extractLsb' 0 2).setWidth 32
  | enab => v.extractLsb' 1 31 ++ 0#1
  | thod => (v.extractLsb' 0 2).setWidth 32

end DevReg

def Cpu.devReg (s : Cpu) : DevReg → BitVec 32
  | .msip => s.clint.msipR
  | .mtimecmpL => s.clint.mtimecmpL
  | .mtimecmpH => s.clint.mtimecmpH
  | .prio n => (s.plic.irqPrio n).setWidth 32
  | .enab => s.plic.irqEnab
  | .thod => s.plic.irqThod.setWidth 32

-- The registers of the PLIC have different addresses.
theorem Plic.rspRdataNxt_eq (p : Plic) (i : In) : p.rspRdataNxt i =
    (if cmdAddr i == 4#24 then (p.irqPrio 1#2).setWidth 32 else 0#32) |||
      (if cmdAddr i == 8#24 then (p.irqPrio 2#2).setWidth 32 else 0#32) |||
      (if cmdAddr i == 12#24 then (p.irqPrio 3#2).setWidth 32 else 0#32) |||
      (if cmdAddr i == 0x001000#24 then 0#28 ++ BitVec.ofBool (p.irqPend 3#2) ++
        BitVec.ofBool (p.irqPend 2#2) ++ BitVec.ofBool (p.irqPend 1#2) ++ 0#1 else 0#32) |||
      ((if cmdAddr i == 0x200000#24 then p.irqThod.setWidth 32 else 0#32) |||
        (if cmdAddr i == 0x200004#24 then p.irqId.setWidth 32 else 0#32) |||
        (if cmdAddr i == 0x002000#24 then p.irqEnab else 0#32)) := by
  rw [rspRdataNxt, rspRdataPrio, rspRdataPend, rspRdataTarg]
  simp only [rep_and]
  rfl

namespace Run

theorem memBus_accepts (r : Run) (t : Nat) : r.memBus.accepts t = (r.st t).cmdFires := by
  rw [MemBus.Run.accepts, memBus_st]
  rfl

-- A device takes exactly the commands that are for it.

theorem clint_fires (r : Run) (t : Nat) :
    ((r.st t).slaveCmdValid.getLsbD 3 &&
        (r.st t).clint.cmdReady ((r.st t).slaveRspReady.getLsbD 3)) =
      ((r.st t).cmdFires && decide ((r.st t).lsuCmd.addr.extractLsb' 16 16 = 0xF000#16)) := by
  have h := MemBus.Run.slaveAccepts_eq (r.memBus.held_add t) .clint
  rw [memBus_accepts, MemBus.Run.selects, Biu.getLsbD_spltIndic, MemBus.Run.slaveAccepts,
    MemBus.slaveCmdReady, Biu.getLsbD_ports, memBus_st] at h
  simp only [Slave.owner_eq_clint, reduceCtorEq, decide_false, Bool.false_and, Bool.or_false] at h
  exact h

theorem plic_fires (r : Run) (t : Nat) :
    ((r.st t).slaveCmdValid.getLsbD 2 && (r.st t).plic.cmdReady) =
      ((r.st t).cmdFires && decide ((r.st t).lsuCmd.addr.extractLsb' 24 8 = 0xF1#8)) := by
  have h := MemBus.Run.slaveAccepts_eq (r.memBus.held_add t) .plic
  rw [memBus_accepts, MemBus.Run.selects, Biu.getLsbD_spltIndic, MemBus.Run.slaveAccepts,
    slaveCmdReady_plic, memBus_st] at h
  simp only [Slave.owner_eq_plic, reduceCtorEq, decide_false, Bool.false_and, Bool.or_false] at h
  exact h

-- A store to the register is taken.
def writes (r : Run) (x : DevReg) (t : Nat) : Bool :=
  (r.st t).cmdFires && !(r.st t).lsuCmd.read && decide ((r.st t).lsuCmd.addr = x.addr)

theorem clint_wr (r : Run) (t : Nat) (o : BitVec 16) :
    (r.st t).clint.wr ((r.st t).clintIn (r.pins t)) o = ((r.st t).cmdFires &&
      !(r.st t).lsuCmd.read && decide ((r.st t).lsuCmd.addr = 0xF000#16 ++ o)) := by
  rw [Clint.wr, Clint.sel]
  change ((r.st t).slaveCmdValid.getLsbD 3 &&
    (r.st t).clint.cmdReady ((r.st t).slaveRspReady.getLsbD 3) &&
      (r.st t).lsuCmd.addr.extractLsb' 0 16 == o && !(r.st t).lsuCmd.read) = _
  have ha := Word.eq_append_iff (w := 16) (v := 16) (r.st t).lsuCmd.addr 0xF000#16 o
  rw [clint_fires, decide_eq_decide.mpr ha, Bool.decide_and]
  cases (r.st t).cmdFires <;> cases (r.st t).lsuCmd.read <;> simp [BEq.beq]

theorem plic_wr (r : Run) (t : Nat) (o : BitVec 24) :
    ((r.st t).plic.cmdWrHsked ((r.st t).plicIn (r.pins t)) &&
      Plic.cmdAddr ((r.st t).plicIn (r.pins t)) == o) = ((r.st t).cmdFires &&
      !(r.st t).lsuCmd.read && decide ((r.st t).lsuCmd.addr = 0xF1#8 ++ o)) := by
  change ((r.st t).slaveCmdValid.getLsbD 2 && (r.st t).plic.cmdReady && !(r.st t).lsuCmd.read &&
    (r.st t).lsuCmd.addr.extractLsb' 0 24 == o) = _
  have ha := Word.eq_append_iff (w := 8) (v := 24) (r.st t).lsuCmd.addr 0xF1#8 o
  rw [plic_fires, decide_eq_decide.mpr ha, Bool.decide_and]
  cases (r.st t).cmdFires <;> cases (r.st t).lsuCmd.read <;> simp [BEq.beq]

theorem irqPrio_zero (r : Run) (t : Nat) : (r.st t).plic.irqPrio 0#2 = 0#2 := by
  induction t with
  | zero => rfl
  | succ t ih => exact ih

theorem devReg_succ (r : Run) (x : DevReg) (t : Nat) : (r.st (t + 1)).devReg x =
    if r.writes x t then x.legalize (r.st t).lsuCmd.wdata else (r.st t).devReg x := by
  rw [writes]
  cases x with
  | msip =>
    rw [DevReg.addr, ← clint_wr]
    exact apply_ite (fun b => 0#31 ++ BitVec.ofBool b) _ _ _
  | mtimecmpL =>
    rw [DevReg.addr, ← clint_wr]
    rfl
  | mtimecmpH =>
    rw [DevReg.addr, ← clint_wr]
    rfl
  | prio n =>
    rw [DevReg.addr, ← plic_wr]
    change BitVec.setWidth 32 (dfflr (n != 0#2 && _ && _) _ _) = _
    by_cases hn : n = 0#2
    · subst hn
      rw [bne_self_eq_false, Bool.false_and, Bool.false_and, dfflr, if_neg Bool.false_ne_true,
        Cpu.devReg, DevReg.legalize, if_pos rfl, irqPrio_zero]
      split
      · rfl
      · rfl
    · rw [bne_iff_ne.mpr hn, Bool.true_and, DevReg.legalize, if_neg hn]
      exact apply_ite (BitVec.setWidth 32) _ _ _
  | enab =>
    rw [DevReg.addr, ← plic_wr, Bool.and_comm]
    rfl
  | thod =>
    rw [DevReg.addr, ← plic_wr]
    exact apply_ite (BitVec.setWidth 32) _ _ _

-- The register after some stores.
def devAfter (r : Run) (x : DevReg) (ds : List Nat) : BitVec 32 :=
  ds.foldl (fun v d => if (r.storeCmd d).addr = x.addr then x.legalize (r.storeCmd d).wdata else v)
    0#32

theorem devReg_eq (r : Run) (x : DevReg) (t : Nat) :
    (r.st t).devReg x = r.devAfter x (r.sentStores t) := by
  induction t with
  | zero =>
    cases x with
    | msip => exact (by decide : 0#31 ++ BitVec.ofBool false = 0#32)
    | _ => rfl
  | succ t ih =>
    rw [devReg_succ, writes, sentStores, ih]
    by_cases hf : ((r.st t).cmdFires && !(r.st t).lsuCmd.read) = true
    · obtain ⟨d, hd, hs⟩ := store_of_fires t hf
      rw [hf, if_pos rfl, hd.2, hd.storeCmd hs, Bool.true_and, devAfter, devAfter,
        List.foldl_append, List.foldl_cons, List.foldl_nil]
      simp only [decide_eq_true_eq]
    · rw [Bool.not_eq_true] at hf
      rw [hf, Bool.false_and, if_neg Bool.false_ne_true, if_neg Bool.false_ne_true]

-- What the devices make of a read.

theorem clint_rd (r : Run) (u : Nat) (o : BitVec 16) (hf : (r.st u).cmdFires = true)
    (hr : (r.st u).lsuCmd.read = true) (ha : (r.st u).lsuCmd.addr = 0xF000#16 ++ o)
    (p : BitVec 16) :
    (r.st u).clint.rd ((r.st u).clintIn (r.pins u)) p = (o == p) := by
  obtain ⟨hreg, hoff⟩ := (Word.eq_append_iff (w := 16) (v := 16) _ _ _).mp ha
  have hs := r.clint_fires u
  rw [hf, decide_eq_true hreg] at hs
  rw [Clint.rd, Clint.sel]
  change ((r.st u).slaveCmdValid.getLsbD 3 &&
    (r.st u).clint.cmdReady ((r.st u).slaveRspReady.getLsbD 3) &&
      (r.st u).lsuCmd.addr.extractLsb' 0 16 == p && (r.st u).lsuCmd.read) = _
  rw [hs, hr, hoff, Bool.true_and, Bool.true_and, Bool.and_true]

theorem clint_rdata (r : Run) (u : Nat) (o : BitVec 16) (hf : (r.st u).cmdFires = true)
    (hr : (r.st u).lsuCmd.read = true) (ha : (r.st u).lsuCmd.addr = 0xF000#16 ++ o) :
    (r.st (u + 1)).lsuRspRdata =
      (if o == 0xBFF8#16 then (r.st u).clint.mtimeL else 0#32) |||
        (if o == 0xBFFC#16 then (r.st u).clint.mtimeH else 0#32) |||
        (if o == 0x4000#16 then (r.st u).clint.mtimecmpL else 0#32) |||
        (if o == 0x4004#16 then (r.st u).clint.mtimecmpH else 0#32) |||
        (if o == 0x0000#16 then (r.st u).clint.msipR else 0#32) := by
  have hreg := ((Word.eq_append_iff (w := 16) (v := 16) _ _ _).mp ha).1
  have hs := r.clint_fires u
  rw [hf, decide_eq_true hreg] at hs
  have hd : (r.st (u + 1)).clint.rspRdata =
      (r.st u).clint.pipeIdat ((r.st u).clintIn (r.pins u)) := if_pos hs
  rw [r.lsuRspRdata_succ u hf, (Slave.owner_eq_clint _).mpr hreg]
  change (r.st (u + 1)).clint.rspRdata = _
  rw [hd, Clint.pipeIdat]
  simp only [r.clint_rd u o hf hr ha, rep_and]

theorem plic_rdata (r : Run) (u : Nat) (o : BitVec 24) (hf : (r.st u).cmdFires = true)
    (ha : (r.st u).lsuCmd.addr = 0xF1#8 ++ o) :
    (r.st (u + 1)).lsuRspRdata = (r.st u).plic.rspRdataNxt ((r.st u).plicIn (r.pins u)) ∧
      Plic.cmdAddr ((r.st u).plicIn (r.pins u)) = o := by
  obtain ⟨hreg, hoff⟩ := (Word.eq_append_iff (w := 8) (v := 24) _ _ _).mp ha
  have hs := r.plic_fires u
  rw [hf, decide_eq_true hreg] at hs
  rw [r.lsuRspRdata_succ u hf, (Slave.owner_eq_plic _).mpr hreg]
  exact ⟨if_pos hs, hoff⟩

theorem devReg_read (r : Run) (u : Nat) (x : DevReg) (hf : (r.st u).cmdFires = true)
    (hr : (r.st u).lsuCmd.read = true) (ha : (r.st u).lsuCmd.addr = x.addr) :
    (r.st (u + 1)).lsuRspRdata = (r.st u).devReg x := by
  cases x with
  | msip => exact (r.clint_rdata u _ hf hr ha).trans (by simp [Cpu.devReg])
  | mtimecmpL => exact (r.clint_rdata u _ hf hr ha).trans (by simp [Cpu.devReg])
  | mtimecmpH => exact (r.clint_rdata u _ hf hr ha).trans (by simp [Cpu.devReg])
  | prio n =>
    obtain ⟨hd, ho⟩ := r.plic_rdata u _ hf ha
    have hn : ∀ n : BitVec 2, n = 0#2 ∨ n = 1#2 ∨ n = 2#2 ∨ n = 3#2 := by decide
    rw [hd, Plic.rspRdataNxt_eq, ho]
    rcases hn n with rfl | rfl | rfl | rfl <;> simp [Cpu.devReg, irqPrio_zero]
  | enab =>
    obtain ⟨hd, ho⟩ := r.plic_rdata u _ hf ha
    rw [hd, Plic.rspRdataNxt_eq, ho]
    simp [Cpu.devReg]
  | thod =>
    obtain ⟨hd, ho⟩ := r.plic_rdata u _ hf ha
    rw [hd, Plic.rspRdataNxt_eq, ho]
    simp [Cpu.devReg]

-- The loads among the accesses.
theorem device_registers (r : Run) (x : DevReg) :
    (∀ t, (r.st t).devReg x = r.devAfter x (r.sentStores t)) ∧
    ∀ c, r.Accesses c → Decode.loadOp (r.st (r.decodeOf c)).if2de.intr = true →
      Agu.addr (r.aguIn (r.decodeOf c)) = x.addr →
      (r.st c).rob.rdData (r.st c).rob.head = Lsu.rdData
        (Lsu.iMemQueueInfo (r.aguOf (r.decodeOf c))) (r.devAfter x (r.committedStores c)) := by
  refine ⟨r.devReg_eq x, fun c h hl hx => ?_⟩
  obtain ⟨u, hf, hread, haddr, hsent, hrd⟩ := h.load hl
  rw [hrd, r.devReg_read u x hf hread (haddr.trans hx), devReg_eq, hsent]

-- `addi x1,x0,7; lui x2,0xF1002; sw x1,0(x2); lw x3,0(x2)`: the enable of source 0 is lost.
def enabSet : Run := program false [0x00700093#32, 0xF1002137#32, 0x00112023#32, 0x00012183#32]

theorem device_registers_enabSet : (enabSet.st 12).rob.rdData (enabSet.st 12).rob.head = 6#32 := by
  have h : (enabSet.st 12).commits = true ∧ enabSet.unitOf (enabSet.decodeOf 12) = .lsu ∧
      (enabSet.st 12).commitIn.info.excp = 0#16 ∧
      Decode.loadOp (enabSet.st (enabSet.decodeOf 12)).if2de.intr = true ∧
      Agu.addr (enabSet.aguIn (enabSet.decodeOf 12)) = DevReg.enab.addr := by decide +kernel
  obtain ⟨hc, hu, hx, hl, ha⟩ := h
  rw [(device_registers enabSet .enab).2 12 ⟨hc, hu, hx⟩ hl ha]
  decide +kernel

end Run

end HiCore
