import HiCore.Trace.MemPath

-- The DTCM as the LSU's bus sees it: one access at a time, and the response to
-- a load is the word under the address that was registered with its command.
namespace HiCore

-- A command as the DTCM takes it: a masked write if it is one for the DTCM.
def applyCmd (c : IcbCmd) (m : BitVec 12 → BitVec 32) (a : BitVec 12) : BitVec 32 :=
  if c.addr.extractLsb' 16 16 == 0x8000#16 && !c.read && a == Tcm.index c.addr
  then SimRam.merge c.wmask c.wdata (m a) else m a

theorem spltIndic_dtcm (addr : BitVec 32) :
    (Biu.spltIndic addr).getLsbD 0 = (addr.extractLsb' 16 16 == 0x8000#16) := by
  rw [Biu.spltIndic, Biu.spltIndicLow]
  generalize (addr.extractLsb' 16 16 == 0x8000#16) = c
  generalize (addr.extractLsb' 24 8 == 0xF1#8) = a
  generalize (addr.extractLsb' 16 16 == 0x0000#16) = b
  generalize (addr.extractLsb' 16 16 == 0xF000#16) = d
  revert a b c d
  decide

-- The DTCM's region excludes the others.
theorem spltIndic_of_dtcm (addr : BitVec 32) (h : (Biu.spltIndic addr).getLsbD 0 = true) :
    Biu.spltIndic addr = 1#5 := by
  rw [spltIndic_dtcm, beq_iff_eq] at h
  rw [Run.spltIndic_congr addr 0x80000000#32 h]
  decide

namespace Run

variable (r : Run)

-- A command for the DTCM is taken when it is presented.
theorem dtcm_cs (t : Nat) :
    ((r.st t).slaveCmdValid.getLsbD 0 &&
        (r.st t).dtcm.cmdReady ((r.st t).slaveRspReady.getLsbD 0)) =
      ((r.st t).cmdFires && (Biu.spltIndic (r.st t).lsuCmd.addr).getLsbD 0) := by
  rw [slaveCmdValid_port]
  cases hd : (Biu.spltIndic (r.st t).lsuCmd.addr).getLsbD 0 with
  | false => simp
  | true =>
    rw [cmdFires_port (r.st t) 0 (spltIndic_of_dtcm _ hd), Bool.and_true, Bool.and_true,
      ← (slaveCmdReady_port (r.st t)).1]
    rfl

theorem dtcm_mem_succ (t : Nat) : (r.st (t + 1)).dtcm.ram.memR =
    if (r.st t).cmdFires then applyCmd (r.st t).lsuCmd (r.st t).dtcm.ram.memR
    else (r.st t).dtcm.ram.memR := by
  funext a
  change (if ((r.st t).slaveCmdValid.getLsbD 0 &&
    (r.st t).dtcm.cmdReady ((r.st t).slaveRspReady.getLsbD 0)) && !(r.st t).lsuCmd.read &&
      a == Tcm.index (r.st t).lsuCmd.addr then _ else _) = _
  rw [dtcm_cs, spltIndic_dtcm]
  cases (r.st t).cmdFires with
  | false => rfl
  | true => rw [Bool.true_and]; rfl

theorem dtcm_addr_succ (t : Nat) : (r.st (t + 1)).dtcm.ram.addrR =
    if (r.st t).cmdFires && (Biu.spltIndic (r.st t).lsuCmd.addr).getLsbD 0 && (r.st t).lsuCmd.read
    then Tcm.index (r.st t).lsuCmd.addr else (r.st t).dtcm.ram.addrR := by
  change dfflr (((r.st t).slaveCmdValid.getLsbD 0 &&
    (r.st t).dtcm.cmdReady ((r.st t).slaveRspReady.getLsbD 0)) && !!(r.st t).lsuCmd.read) _ _ = _
  rw [dtcm_cs, Bool.not_not]
  rfl

-- The registered address is that of the outstanding load.
theorem dtcm_addr (t d : Nat) (hb : Fifo.tags (r.tags t).biu = [d])
    (hreg : (Biu.spltIndic (r.aguOf d).addr).getLsbD 0 = true) (hread : (r.aguOf d).read = true) :
    (r.st t).dtcm.ram.addrR = Tcm.index (r.aguOf d).addr := by
  induction t with
  | zero => simp [tags, Tags.reset] at hb
  | succ t ih =>
    rw [tags_biu_succ] at hb
    rw [dtcm_addr_succ]
    cases hf : (r.st t).cmdFires with
    | true =>
      obtain ⟨e, he, -, hc⟩ := r.onBus_of_cmdValid t (Bool.and_eq_true_iff.mp hf).1
      have hp : (r.st t).memPop = false := by
        rw [← rspFires_eq, Cpu.rspFires, Pipe.vldClr, biu_not_vld_of_cmdFires _ hf]
        rfl
      rw [r.tags_biu_of_not_vld t (biu_not_vld_of_cmdFires _ hf), hf, if_pos rfl, he, hp] at hb
      obtain rfl : e = d := by simpa using hb
      have ha : (r.st t).lsuCmd.addr = (r.aguOf e).addr := congrArg IcbCmd.addr hc
      have hr : (r.st t).lsuCmd.read = (r.aguOf e).read := congrArg IcbCmd.read hc
      rw [ha, hr, hreg, hread]
      rfl
    | false =>
      rw [hf, if_neg Bool.false_ne_true, Fifo.shift_nil] at hb
      split at hb
      · cases hv : (r.st t).biu.splitFifo.vld with
        | false => simp [r.tags_biu_of_not_vld t hv] at hb
        | true =>
          obtain ⟨e, he, -⟩ := r.tags_biu_of_vld t hv
          simp [he] at hb
      · exact ih hb

theorem lsuRspRdata_dtcm (s : Cpu) (hv : s.biu.splitFifo.vld = true)
    (hd : s.biu.splitFifo.dat = 1#5) : s.lsuRspRdata = s.dtcm.ram.memR s.dtcm.ram.addrR := by
  rw [Cpu.lsuRspRdata, Biu.rspRdata, Biu.rspPortId, Biu.rspidFifoEmpty, hv, hd]
  simp [Cpu.slaveRspRdata, Tcm.rspRdata, SimRam.dout]

end Run

end HiCore
