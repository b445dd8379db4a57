import HiCore.Rtl.Cpu
import HiCore.Rtl.Fpga
import HiCore.Theorems.Tcm

-- The two trees on the same inputs. They agree on the memory path exactly as long
-- as the address that the alignment check of `src/rtl` reads is as good as the one
-- it should read, and its RAM, which is always enabled, is shown nothing that
-- matters between the commands.
namespace HiCore

-- The core uses the AGU with these inputs.
theorem Cpu.agu2lsu_step (s : Cpu) (p : Pins) : (s.step p).agu2lsu = Agu.next s.agu2lsu
    { issueValid := s.aguValid, issueCancel := s.de2ex.cancel, issue := Issue.agu s.deInfo,
      lsuReady := s.agu2lsuReady, lsuHeadPtr := s.rob.head, flush := s.flush } := rfl

namespace Agu

-- What the unit is given from reset on.
structure Inputs where
  ins : Nat → In

namespace Inputs

variable (r : Inputs)

-- Both trees from reset.

def st (t : Nat) : Pipe Agu2lsu := History.run Agu.next Pipe.reset r.ins t

def fpga (t : Nat) : Pipe Agu2lsu := History.run Fpga.Agu.next Pipe.reset r.ins t

structure Same (t : Nat) : Prop where
  valid : (r.fpga t).vld = (r.st t).vld
  cancel : (r.fpga t).cancel = (r.st t).cancel
  addr : (r.fpga t).dat.addr = (r.st t).dat.addr
  wdata : (r.fpga t).dat.wdata = (r.st t).dat.wdata
  wmask : (r.fpga t).dat.wmask = (r.st t).dat.wmask
  excp : (r.fpga t).dat.info.wb.excp = (r.st t).dat.info.wb.excp

-- An access is taken into the pipe.
def takes (t : Nat) : Bool :=
  iAgu2lsuValid (r.ins t).issue (r.ins t).issueValid (r.ins t).lsuHeadPtr &&
    (r.st t).iRdy false (r.ins t).lsuReady

-- The address of the access before, which is 0 for the first one, is misaligned for
-- this access when its own is; or the exception has been reported before.
structure Aligns (t : Nat) : Prop where
  load : r.takes t = true → (r.ins t).issue.loadOp = true →
    Fpga.Agu.memAddrErr (r.ins t).issue (r.st t).dat.addr = memAddrErr (r.ins t).issue ∨
      (r.ins t).issue.aguInfo.wb.excp.getLsbD 4 = true
  store : r.takes t = true → (r.ins t).issue.storeOp = true →
    Fpga.Agu.memAddrErr (r.ins t).issue (r.st t).dat.addr = memAddrErr (r.ins t).issue ∨
      (r.ins t).issue.aguInfo.wb.excp.getLsbD 6 = true

end Inputs

-- What the two address exceptions add to what has been reported before.
theorem or_excp_inj (x : BitVec 16) (b c b' c' : Bool) :
    (x ||| (0#9 ++ BitVec.ofBool b' ++ 0#1 ++ BitVec.ofBool c' ++ 0#4) =
      x ||| (0#9 ++ BitVec.ofBool b ++ 0#1 ++ BitVec.ofBool c ++ 0#4)) ↔
      (c' = c ∨ x.getLsbD 4 = true) ∧ (b' = b ∨ x.getLsbD 6 = true) := by
  constructor
  · intro h
    have h4 := congrArg (fun v => v.getLsbD 4) h
    have h6 := congrArg (fun v => v.getLsbD 6) h
    simp only [getLsbD_or_excp] at h4 h6
    constructor
    · cases hx : x.getLsbD 4 with
      | true => exact .inr rfl
      | false =>
        rw [hx] at h4
        exact .inl (by simpa using h4)
    · cases hx : x.getLsbD 6 with
      | true => exact .inr rfl
      | false =>
        rw [hx] at h6
        exact .inl (by simpa using h6)
  · rintro ⟨h4, h6⟩
    refine BitVec.eq_of_getLsbD_eq fun n _ => ?_
    rw [getLsbD_or_excp, getLsbD_or_excp]
    by_cases hn4 : n = 4
    · subst hn4
      rcases h4 with rfl | h4
      · rfl
      · rw [h4, Bool.true_or, Bool.true_or]
    · by_cases hn6 : n = 6
      · subst hn6
        rcases h6 with rfl | h6
        · rfl
        · rw [h6, Bool.true_or, Bool.true_or]
      · rw [decide_eq_false hn4, decide_eq_false hn6]
        rfl

theorem and_eq_or_iff (e e' b : Bool) (p : Prop) :
    (e' && b) = (e && b) ∨ p ↔ (b = true → e' = e ∨ p) := by
  cases b with
  | false => simp
  | true => simp

theorem excp_eq_iff (a : Issue.Agu) (x : BitVec 32) : Fpga.Agu.excp a x = excp a ↔
    (a.loadOp = true → Fpga.Agu.memAddrErr a x = memAddrErr a ∨ a.aguInfo.wb.excp.getLsbD 4 = true) ∧
    (a.storeOp = true →
      Fpga.Agu.memAddrErr a x = memAddrErr a ∨ a.aguInfo.wb.excp.getLsbD 6 = true) := by
  rw [Fpga.Agu.excp, excp, or_excp_inj, and_eq_or_iff, and_eq_or_iff]

namespace Inputs

variable (r : Inputs)

theorem vldSet_eq (t : Nat) (x : Agu2lsu) :
    (r.st t).vldSet false (pipeIn (r.ins t) x) = r.takes t := rfl

theorem st_succ (t : Nat) :
    r.st (t + 1) = (r.st t).next false (pipeIn (r.ins t) (iAgu2lsuInfo (r.ins t).issue)) := rfl

theorem fpga_succ (t : Nat) : r.fpga (t + 1) = (r.fpga t).next false (pipeIn (r.ins t)
    (Fpga.Agu.iAgu2lsuInfo (r.ins t).issue (r.fpga t).dat.addr)) := rfl

section Step

variable {r} {t : Nat} (h : r.Same t)

include h

theorem Same.vldSet (x : Agu2lsu) :
    (r.fpga t).vldSet false (pipeIn (r.ins t) x) = r.takes t := by
  rw [← r.vldSet_eq t x, Pipe.vldSet, Pipe.vldSet, Pipe.iRdy, Pipe.iRdy, Pipe.vldClr, Pipe.vldClr,
    h.valid]

theorem Same.succ_iff : r.Same (t + 1) ↔ r.Aligns t := by
  have hd : (r.fpga (t + 1)).dat = if r.takes t then
      Fpga.Agu.iAgu2lsuInfo (r.ins t).issue (r.st t).dat.addr else (r.fpga t).dat := by
    rw [fpga_succ, Pipe.next, h.vldSet, h.addr]
    rfl
  have hc : (r.st (t + 1)).dat =
      if r.takes t then iAgu2lsuInfo (r.ins t).issue else (r.st t).dat := by
    rw [st_succ, Pipe.next, vldSet_eq]
    rfl
  have hv : (r.fpga (t + 1)).vld = (r.st (t + 1)).vld := by
    rw [fpga_succ, st_succ, Pipe.vld_next, Pipe.vld_next, h.vldSet, vldSet_eq, Pipe.vldClr,
      Pipe.vldClr, h.valid]
    rfl
  have hn : (r.fpga (t + 1)).cancel = (r.st (t + 1)).cancel := by
    rw [fpga_succ, st_succ, Pipe.next, Pipe.next, h.vldSet, vldSet_eq, h.cancel]
    rfl
  cases ht : r.takes t with
  | false =>
    rw [ht, if_neg Bool.false_ne_true] at hd hc
    refine ⟨fun _ => ⟨fun hf => ?_, fun hf => ?_⟩, fun _ => ⟨hv, hn, ?_, ?_, ?_, ?_⟩⟩
    · exact Bool.noConfusion (ht.symm.trans hf)
    · exact Bool.noConfusion (ht.symm.trans hf)
    · rw [hd, hc]
      exact h.addr
    · rw [hd, hc]
      exact h.wdata
    · rw [hd, hc]
      exact h.wmask
    · rw [hd, hc]
      exact h.excp
  | true =>
    rw [ht, if_pos rfl] at hd hc
    have he : (r.fpga (t + 1)).dat.info.wb.excp = (r.st (t + 1)).dat.info.wb.excp ↔ r.Aligns t := by
      rw [hd, hc]
      refine (excp_eq_iff (r.ins t).issue (r.st t).dat.addr).trans ?_
      exact ⟨fun ha => ⟨fun _ => ha.1, fun _ => ha.2⟩, fun ha => ⟨ha.load ht, ha.store ht⟩⟩
    rw [← he]
    refine ⟨fun hs => hs.excp, fun hs => ⟨hv, hn, ?_, ?_, ?_, hs⟩⟩
    · rw [hd, hc]
      rfl
    · rw [hd, hc]
      rfl
    · rw [hd, hc]
      rfl

end Step

theorem same_zero : r.Same 0 := by
  have hf : r.fpga 0 = Pipe.reset := rfl
  have hs : r.st 0 = Pipe.reset := rfl
  constructor <;> rw [hf, hs]

theorem always_same_iff : (∀ t, r.Same t) ↔ ∀ t, r.Aligns t :=
  History.always_iff r.same_zero fun _ h => h.succ_iff

-- A word load from address 2, as the first access.
def loadAtTwo : Inputs where
  ins _ :=
    { issueValid := true
      issueCancel := false
      issue :=
        { storeOp := false, loadOp := true, aguMsg := 0b010#3, aguSrc3 := 0#32, aguSrc2 := 2#32
          aguSrc1 := 0#32, aguInfo := default }
      lsuReady := true
      lsuHeadPtr := 0#4
      flush := false }

end Inputs

end Agu

namespace Tcm

namespace Run

variable (r : Run)

-- The controller of `src/rtl` on the same commands and with the same RAM at power-up.
def fpga (t : Nat) : Tcm :=
  History.run (fun m i => Fpga.Tcm.next m i.cmdValid i.cmd i.rspReady) r.power.reset r.ins t

structure Same (t : Nat) : Prop where
  valid : (r.fpga t).rspValid = (r.st t).rspValid
  err : (r.fpga t).rspErr = (r.st t).rspErr
  rdata : (r.st t).rspValid = true → (r.fpga t).rspRdata = (r.st t).rspRdata
  contents : (r.fpga t).ram.memR = (r.st t).ram.memR

-- A cycle in which it does not matter that the RAM is always enabled. Without a
-- command, a write that is shown to the RAM leaves the word as it is; a read that is
-- shown while a response waits is of a word like the one that waits. When a write is
-- accepted, the words at the two address registers, that of the last read accepted
-- and that of the last read shown, are alike after it.
structure Harmless (t : Nat) : Prop where
  idleWrite : r.accepts t = false → (r.ins t).cmd.read = false →
    apply (r.st t).ram.memR (r.ins t).cmd = (r.st t).ram.memR
  idleRead : r.accepts t = false → (r.ins t).cmd.read = true → (r.st t).rspValid = true →
    (r.ins t).rspReady = false →
    (r.st t).ram.memR (index (r.ins t).cmd.addr) = (r.st t).ram.memR (r.st t).ram.addrR
  write : r.accepts t = true → (r.ins t).cmd.read = false →
    apply (r.st t).ram.memR (r.ins t).cmd (r.fpga t).ram.addrR =
      apply (r.st t).ram.memR (r.ins t).cmd (r.st t).ram.addrR

theorem rspValid_succ (t : Nat) : (r.st (t + 1)).rspValid =
    (r.accepts t || ((r.st t).rspValid && !(r.ins t).rspReady)) := by
  have h : (r.st (t + 1)).rspValid = (r.accepts t ||
    ((r.st t).rspValid && !((r.st t).rspValid && (r.ins t).rspReady))) := Pipe.vld_next _ _ _
  rw [h]
  cases (r.st t).rspValid <;> rfl

theorem memR_succ (t : Nat) : (r.st (t + 1)).ram.memR =
    if r.accepts t then apply (r.st t).ram.memR (r.ins t).cmd else (r.st t).ram.memR := by
  rw [memR_eq_memory, memory_succ, memR_eq_memory]

-- A read leaves the memory alone.
theorem apply_read (m : BitVec 12 → BitVec 32) (c : IcbCmd) (h : c.read = true) : apply m c = m := by
  funext a
  simp [apply, h]

section Step

variable {r} {t : Nat} (h : r.Same t)

include h

theorem Same.fpga_rspValid : (r.fpga (t + 1)).rspValid = (r.st (t + 1)).rspValid := by
  have hv : (r.fpga t).pipe.vld = (r.st t).pipe.vld := h.valid
  have hf : (r.fpga (t + 1)).rspValid =
    ((r.fpga t).pipe.next false (pipeIn (r.ins t).cmdValid (r.ins t).rspReady)).vld := rfl
  rw [hf, Pipe.vld_next, Pipe.vldSet, Pipe.iRdy, Pipe.vldClr, hv, rspValid_succ]
  cases h2 : (r.st t).pipe.vld <;> simp [accepts, cmdReady, pipeIn, Pipe.iRdy, Pipe.vldClr, rspValid, h2]

theorem Same.fpga_memR :
    (r.fpga (t + 1)).ram.memR = apply (r.st t).ram.memR (r.ins t).cmd := by
  have hf : (r.fpga (t + 1)).ram.memR = apply (r.fpga t).ram.memR (r.ins t).cmd := by
    funext a
    rfl
  rw [hf, h.contents]

theorem Same.fpga_rdata : (r.fpga (t + 1)).rspRdata = apply (r.st t).ram.memR (r.ins t).cmd
    (if (r.ins t).cmd.read then index (r.ins t).cmd.addr else (r.fpga t).ram.addrR) := by
  have ha : (r.fpga (t + 1)).ram.addrR =
      if (r.ins t).cmd.read then index (r.ins t).cmd.addr else (r.fpga t).ram.addrR := by
    have hd : (r.fpga (t + 1)).ram.addrR =
      dfflr (true && !!(r.ins t).cmd.read) (index (r.ins t).cmd.addr) (r.fpga t).ram.addrR := rfl
    rw [hd, Bool.true_and, Bool.not_not]
    rfl
  rw [rspRdata, SimRam.dout, h.fpga_memR, ha]

theorem Same.harmless (hs : r.Same (t + 1)) : r.Harmless t where
  idleWrite ha _ := by
    rw [← h.fpga_memR, hs.contents, memR_succ, ha]
    rfl
  idleRead ha hr hv hw := by
    have hd := hs.rdata (by rw [rspValid_succ, hv, hw, Bool.not_false, Bool.and_true, Bool.or_true])
    rw [h.fpga_rdata, apply_read _ _ hr, hr, if_pos rfl, rspRdata, r.ram_succ_of_quiet t ha] at hd
    exact hd
  write ha hr := by
    have hd := hs.rdata (by rw [rspValid_succ, ha, Bool.true_or])
    rw [h.fpga_rdata, hr, if_neg Bool.false_ne_true, rspRdata, SimRam.dout, memR_succ, ha,
      if_pos rfl, ram_succ, ha, hr] at hd
    exact hd

theorem Same.succ (hs : r.Harmless t) : r.Same (t + 1) where
  valid := h.fpga_rspValid
  err := rfl
  rdata hv := by
    rw [rspValid_succ] at hv
    rw [h.fpga_rdata, rspRdata, SimRam.dout, memR_succ]
    cases ha : r.accepts t with
    | true =>
      rw [if_pos rfl, ram_succ, ha]
      cases hr : (r.ins t).cmd.read with
      | true => rfl
      | false => exact hs.write ha hr
    | false =>
      rw [ha, Bool.false_or, Bool.and_eq_true, Bool.not_eq_true'] at hv
      rw [r.ram_succ_of_quiet t ha, if_neg Bool.false_ne_true]
      cases hr : (r.ins t).cmd.read with
      | true =>
        rw [apply_read _ _ hr]
        exact hs.idleRead ha hr hv.1 hv.2
      | false =>
        rw [hs.idleWrite ha hr, ← h.contents]
        exact (h.rdata hv.1).trans (by rw [rspRdata, SimRam.dout, h.contents])
  contents := by
    rw [h.fpga_memR, memR_succ]
    cases ha : r.accepts t with
    | true => rfl
    | false =>
      cases hr : (r.ins t).cmd.read with
      | true => exact apply_read _ _ hr
      | false => exact hs.idleWrite ha hr

end Step

theorem same_zero : r.Same 0 := by
  have hf : r.fpga 0 = r.st 0 := rfl
  exact ⟨by rw [hf], rfl, fun _ => by rw [hf], by rw [hf]⟩

theorem always_same_iff : (∀ t, r.Same t) ↔ ∀ t, r.Harmless t :=
  History.always_iff r.same_zero fun _ h => ⟨h.harmless, h.succ⟩

-- A store to the timer passes by: the command is not for this memory, but its wires
-- lead to all slaves.
def storeElsewhere : Run where
  power := { ram := ⟨fun _ => 0#32, 0#12⟩, pipe := Pipe.reset }
  ins _ :=
    { cmdValid := false
      cmd := { read := false, wmask := 0b1111#4, wdata := 7#32, addr := 0xF0004000#32 }
      rspReady := true }

end Run

end Tcm

theorem fpga_agrees_iff (a : Agu.Inputs) (m : Tcm.Run) : ((∀ t, a.Same t) ↔ ∀ t, a.Aligns t) ∧
    ((∀ t, m.Same t) ↔ ∀ t, m.Harmless t) :=
  ⟨a.always_same_iff, m.always_same_iff⟩

-- The exception is reported by the core only, and the word is written in `src/rtl`
-- only.
theorem not_fpga_agrees : ¬ Agu.Inputs.loadAtTwo.Same 1 ∧ ¬ Tcm.Run.storeElsewhere.Same 1 := by
  constructor
  · intro h
    exact absurd h.excp (by decide)
  · intro h
    exact absurd (congrFun h.contents 0#12) (by decide)

end HiCore
