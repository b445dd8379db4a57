import HiCore.Theorems.Alu
import HiCore.Theorems.ByteLanes
import HiCore.Trace.Arch

-- Each commit of the core is one step of the machine that executes one instruction after
-- another. One lemma for each kind of instruction, and the result.
namespace HiCore

open Isa

theorem Isa.LoadOp.value_word (op : LoadOp) (w : BitVec 12 → BitVec 32) (a : BitVec 14)
    (h : a.toNat % op.size = 0) : op.value (Bytes.word (Bytes.ofWords w) a) 0 =
      op.value (w (a.extractLsb' 2 12)) (a.toNat % 4) := by
  have hroom : a.toNat % 4 + op.size ≤ 4 := by
    cases op <;> simp only [LoadOp.size] at h ⊢ <;> omega
  rw [LoadOp.value, LoadOp.value, Nat.mul_zero, Bytes.word_ofWords w a op.size hroom]

theorem Agu.memAddrErr_load (a : Issue.Agu) (op : LoadOp) (h : IsLoad a op)
    (ha : Aligned op.size a) : memAddrErr a = false := by
  rw [← Bool.not_eq_true, memAddrErr_iff a op.size, not_not]
  · exact ha
  · rw [h.msg]
    cases op <;> decide

theorem Agu.memAddrErr_store (a : Issue.Agu) (op : StoreOp) (h : IsStore a op)
    (ha : Aligned op.size a) : memAddrErr a = false := by
  rw [← Bool.not_eq_true, memAddrErr_iff a op.size, not_not]
  · exact ha
  · rw [h.msg]
    cases op <;> decide

namespace Run

-- Instruction `i`, and the interrupt behind it, take the architectural state of cycle `c` to that
-- of the cycle after.
def Executes (r : Run) (c : Nat) (i : Instr) : Prop :=
  ∀ m, ((r.arch c).exec i).bind (Machine.take i (r.irqAt c)) = some m → r.arch (c + 1) = m

variable {r : Run} {c : Nat}

-- The arithmetic instructions.

theorem Retires.alu {i : Instr} (h : r.Retires c i) (rd : BitVec 5) (v : BitVec 32)
    (hu : i.unit = .alu) (hrd : i.rd = some rd)
    (hv : Alu.aluResPre (Issue.alu (r.info (r.decodeOf c))) = v)
    (he : (r.arch c).exec i = some ((r.arch c).retire rd v)) : r.Executes c i := by
  intro m ht
  rw [he] at ht
  have hx : (r.st c).commitIn.info.excp = 0#16 := by
    rw [h.excp_of_ne (by rw [hu]; decide)]
    exact Instr.excp_of_unit (by rw [hu]; decide)
  refine h.writes hx m _ rd v hrd ?_ (h.nextPc_of_ne (by rw [hu]; decide)).symm ?_ ht
  · exact Instr.csrIdx_of_unit (by rw [hu]; decide)
  · exact (r.rdData_of_alu c _ h.commits rfl (h.unitOf.trans hu)).trans hv

section Alu

variable {rd rs1 rs2 shamt : BitVec 5} {imm : BitVec 12} {imm20 : BitVec 20}

theorem Retires.lui (h : r.Retires c (.lui rd imm20)) : r.Executes c (.lui rd imm20) :=
  h.alu rd _ rfl rfl (Decode.aluRes_lui (r.st _).operands _ rd imm20 h.word).2 rfl

theorem Retires.auipc (h : r.Retires c (.auipc rd imm20)) : r.Executes c (.auipc rd imm20) := by
  refine h.alu rd _ rfl rfl ?_ rfl
  have hp : (r.arch c).pc = (r.st (r.decodeOf c)).operands.if2de.pc := h.pc.symm
  rw [hp]
  exact (Decode.aluRes_auipc (r.st _).operands _ rd imm20 h.word).2

theorem Retires.opImm {op : ImmOp} (h : r.Retires c (.opImm op rd rs1 imm)) :
    r.Executes c (.opImm op rd rs1 imm) := by
  refine h.alu rd _ rfl rfl ?_ rfl
  rw [← h.src1 rfl rs1 rfl]
  exact (Decode.aluRes_opImm (r.st _).operands _ op rd rs1 imm h.word).2

theorem Retires.shiftImm {op : ShiftOp} (h : r.Retires c (.shiftImm op rd rs1 shamt)) :
    r.Executes c (.shiftImm op rd rs1 shamt) := by
  refine h.alu rd _ rfl rfl ?_ rfl
  rw [← h.src1 rfl rs1 rfl]
  exact (Decode.aluRes_shiftImm (r.st _).operands _ op rd rs1 shamt h.word).2

theorem Retires.opReg {op : AluOp} (h : r.Retires c (.opReg op rd rs1 rs2)) :
    r.Executes c (.opReg op rd rs1 rs2) := by
  refine h.alu rd _ rfl rfl ?_ rfl
  rw [← h.src1 rfl rs1 rfl, ← h.src2 rfl rs2 rfl]
  exact (Decode.aluRes_opReg (r.st _).operands _ op rd rs1 rs2 h.word).2

end Alu

-- Jumps and branches.

theorem Retires.nextPc {i : Instr} (h : r.Retires c i) : (r.st c).commitIn.issue.nextPc =
    if (r.st (r.decodeOf c)).branch then (r.st (r.decodeOf c)).branchPc else (r.arch c).pc + 4#32 := by
  have hp : (r.st (r.decodeOf c)).if2de.pc = (r.arch c).pc := h.pc
  rw [h.issue, Cpu.nextPc_eq, hp]

theorem Retires.jump {i : Instr} (h : r.Retires c i) (rd : BitVec 5) (target : BitVec 32)
    (hu : i.unit = .bjp) (hrd : i.rd = some rd) (hb : (r.st (r.decodeOf c)).branch = true)
    (hp : (r.st (r.decodeOf c)).branchPc = target)
    (hv : Issue.bjpRdResult (r.info (r.decodeOf c)) true = (r.arch c).pc + 4#32)
    (he : (r.arch c).exec i = ((r.arch c).write rd ((r.arch c).pc + 4#32)).jump target) :
    r.Executes c i := by
  intro m ht
  rw [he] at ht
  obtain ⟨m', hj, ht⟩ := Option.bind_eq_some_iff.mp ht
  obtain rfl := Machine.jump_eq_some hj
  have hx : (r.st c).commitIn.info.excp = 0#16 := by
    rw [h.excp_of_ne (by rw [hu]; decide)]
    exact Instr.excp_of_unit (by rw [hu]; decide)
  refine h.writes hx m target rd _ hrd ?_ ?_ ?_ ht
  · exact Instr.csrIdx_of_unit (by rw [hu]; decide)
  · rw [h.nextPc, hb, hp]
    rfl
  · exact (r.rdData_of_bjp c _ h.commits rfl (h.unitOf.trans hu)).trans hv

theorem Retires.jal {rd : BitVec 5} {imm : BitVec 20} (h : r.Retires c (.jal rd imm)) :
    r.Executes c (.jal rd imm) := by
  have ha := h.accepts rfl
  have hpc : (r.st (r.decodeOf c)).if2de.pc = (r.arch c).pc := h.pc
  obtain ⟨hb, hp⟩ := Cpu.branch_of_jal ha
  have hl := Cpu.link_of_jal ha
  rw [hpc] at hp hl
  exact h.jump rd _ rfl rfl hb hp hl rfl

-- The target of a jump is fetched in the cycle after its decode.
theorem even_of_branch (hl : ∀ t < c, r.LegalFetch t) (hc : (r.st c).commits = true)
    (hb : (r.st (r.decodeOf c)).branch = true) :
    (r.st (r.decodeOf c)).branchPc.getLsbD 0 = false := by
  have hm := r.head_mem c hc
  have hs : (r.st c).rob.state (r.st c).rob.head = SlotState.WRITEBACK_S :=
    Rob.ren_state (i := (r.st c).robIn) hc
  obtain ⟨w, u, hdw, hwc, -⟩ := r.written_owner c _ hm hs
  have hdc : r.decodeOf c + 1 < c := Nat.lt_of_le_of_lt hdw hwc
  have hf : (r.st (r.decodeOf c)).flush = false :=
    r.flush_between _ c _ hm (Nat.le_refl _) (Nat.lt_of_succ_lt hdc)
  have hred : (r.st (r.decodeOf c)).redirects = true := by rw [Cpu.redirects, hb, Bool.or_true]
  have hf' : (r.st (r.decodeOf c + 1)).flush = false :=
    r.flush_between _ c _ hm (Nat.le_succ _) hdc
  -- What stands behind the jump is cancelled, so that nothing jumps again.
  have hq : (r.st (r.decodeOf c + 1)).redirects = false := by
    rw [Cpu.redirects, hf', Bool.false_or]
    by_contra hn
    rw [Bool.not_eq_false] at hn
    obtain ⟨hv, hcan, -⟩ := if2deValid_of_robWen _ (robWen_of_branch _ hn hf').1
    obtain ⟨c', hcc, -⟩ := r.inFront_succ _ _ _ (r.inFront_fetchOf _ hv)
    rw [hcan, hred, Bool.or_true] at hcc
    exact Bool.noConfusion hcc
  have hal := (hl _ hdc hq).1
  rw [pc_succ_of_redirects _ hred, hf, if_neg Bool.false_ne_true] at hal
  have h0 := congrArg (fun v => v.getLsbD 0) hal
  simpa using h0

theorem Retires.jalr {rd rs1 : BitVec 5} {imm : BitVec 12} (h : r.Retires c (.jalr rd rs1 imm))
    (hl : ∀ t < c, r.LegalFetch t) : r.Executes c (.jalr rd rs1 imm) := by
  have ha := h.accepts rfl
  have hpc : (r.st (r.decodeOf c)).if2de.pc = (r.arch c).pc := h.pc
  obtain ⟨hb, hp⟩ := Cpu.branch_of_jalr ha
  have hlink := Cpu.link_of_jalr ha
  have heven := even_of_branch hl h.commits hb
  have hs := h.src1 rfl rs1 rfl
  rw [Cpu.readSrc1Dat, h.word, Decode.rs1Idx_encode _ rs1 rfl] at hs
  rw [hpc] at hlink
  rw [hs] at hp
  rw [hp] at heven
  refine h.jump rd _ rfl rfl hb (hp.trans ?_) hlink rfl
  exact ((Word.and_not_one_eq_iff _).mpr heven).symm

theorem Retires.branch {op : BranchOp} {rs1 rs2 : BitVec 5} {imm : BitVec 12}
    (h : r.Retires c (.branch op rs1 rs2 imm)) : r.Executes c (.branch op rs1 rs2 imm) := by
  intro m ht
  have hpc : (r.st (r.decodeOf c)).if2de.pc = (r.arch c).pc := h.pc
  have hx : (r.st c).commitIn.info.excp = 0#16 := h.excp_of_ne (show Rob.WbUnit.bjp ≠ .lsu by decide)
  have hn := h.nextPc
  obtain ⟨hb, hp⟩ := Cpu.branch_of_branch (h.accepts rfl)
  rw [h.src1 rfl rs1 rfl, h.src2 rfl rs2 rfl] at hb
  rw [hb, hp, hpc] at hn
  rw [Machine.exec] at ht
  split at ht
  · next hh =>
    rw [hh, if_pos rfl] at hn
    obtain ⟨m', hj, ht⟩ := Option.bind_eq_some_iff.mp ht
    obtain rfl := Machine.jump_eq_some hj
    exact h.jumps hx m _ rfl rfl rfl hn.symm ht
  · next hh =>
    rw [if_neg hh] at hn
    exact h.jumps hx m _ rfl rfl rfl hn.symm ht

-- Loads and stores.

theorem Retires.excp_of_lsu {i : Instr} (h : r.Retires c i) (hu : i.unit = .lsu) :
    (r.st c).commitIn.info.excp = if Agu.memAddrErr (r.aguIn (r.decodeOf c))
      then (if i.isStore then 0x40#16 else 0x10#16) else 0#16 := by
  have hd := h.unitOf.trans hu
  have hi := r.info_of_commits c h.commits
  rw [← decodeOf, r.resultInfo_of_lsu _ hd, aguOf, r.agu_info _ hd] at hi
  have hx : (r.st c).commitIn.info.excp = Agu.excp (r.aguIn (r.decodeOf c)) :=
    congrArg WbInfo.excp hi
  have hde : (r.aguIn (r.decodeOf c)).aguInfo.wb.excp = i.excp := h.deExcp
  have hs : (r.aguIn (r.decodeOf c)).storeOp = i.isStore := by
    rw [← Decode.storeOp_encode, ← h.word]
    rfl
  have hl : (r.aguIn (r.decodeOf c)).loadOp = !i.isStore := by
    rw [← Instr.isLoad_of_unit hu, ← Decode.loadOp_encode, ← h.word]
    rfl
  have hz : i.excp = 0#16 := Instr.excp_of_unit (by rw [hu]; decide)
  rw [hx, Agu.excp, hde, hz, hs, hl]
  generalize Agu.memAddrErr (r.aguIn (r.decodeOf c)) = e
  generalize i.isStore = b
  revert e b
  decide

-- The addresses of an aligned access, as the AGU, the DTCM and the machine see them.
theorem toNat_extract (a : BitVec 32) : (a.extractLsb' 0 14).toNat % 4 = a.toNat % 4 := by
  rw [BitVec.extractLsb'_toNat, Nat.shiftRight_zero]
  omega

theorem index_extract (a : BitVec 32) : (a.extractLsb' 0 14).extractLsb' 2 12 = Tcm.index a := by
  rw [BitVec.extractLsb'_extractLsb'_of_le (by omega)]
  rfl

section Load

variable {op : LoadOp} {rd rs1 : BitVec 5} {imm : BitVec 12}
  (h : r.Retires c (.load op rd rs1 imm))
include h

theorem Retires.isLoad : Agu.IsLoad (r.aguIn (r.decodeOf c)) op := by
  have hl : Decode.loadOp (r.st (r.decodeOf c)).if2de.intr = true := by
    rw [h.word, Decode.loadOp_encode]
    rfl
  have hs : Decode.storeOp (r.st (r.decodeOf c)).if2de.intr = false := by
    rw [h.word, Decode.storeOp_encode]
    rfl
  refine ⟨hl, hs, ?_⟩
  change Decode.msg (r.st (r.decodeOf c)).if2de.intr = _
  rw [h.word]
  exact Decode.msg_wordI ..

theorem Retires.loadAddr : Agu.addr (r.aguIn (r.decodeOf c)) =
    (r.arch c).x rs1 + imm.signExtend 32 := by
  have hl : Decode.loadOp (r.st (r.decodeOf c)).if2de.intr = true := h.isLoad.loadOp
  have himm : Decode.immAgu (r.st (r.decodeOf c)).if2de.intr = imm.signExtend 32 := by
    rw [Decode.immAgu, hl, if_pos rfl, Decode.tImmLoad_eq, h.word]
    exact congrArg _ (Decode.csrIdx_wordI ..)
  rw [Agu.addr, BitVec.add_comm, ← himm, ← h.src1 rfl rs1 rfl]
  rfl

theorem Retires.loaded (hal : Agu.Aligned op.size (r.aguIn (r.decodeOf c)))
    (hdata : isData (Agu.addr (r.aguIn (r.decodeOf c))) = true)
    (hx : (r.st c).commitIn.info.excp = 0#16) : (r.st c).commitIn.rdData =
      op.value (Bytes.word (r.arch c).mem ((Agu.addr (r.aguIn (r.decodeOf c))).extractLsb' 0 14)) 0 := by
  have hd := h.unitOf
  have ha : r.aguOf (r.decodeOf c) = Agu.iAgu2lsuInfo (r.aguIn (r.decodeOf c)) := by
    rw [aguOf, r.agu_info _ hd]
  obtain ⟨w, hwc, hp, hrd⟩ := r.rdData_of_lsu c _ h.commits rfl hd hx
  have hreg : (Biu.spltIndic (r.aguOf (r.decodeOf c)).addr).getLsbD 0 = true := by
    rw [spltIndic_dtcm, ha]
    exact hdata
  have hread : (r.aguOf (r.decodeOf c)).read = true := by
    rw [ha]
    exact h.isLoad.loadOp
  have hv := hp.rdata_committed hwc h.commits rfl hread hreg
  rw [← decodeOf, ha] at hrd
  rw [← decodeOf, ha] at hv
  have hlane := toNat_extract (Agu.addr (r.aguIn (r.decodeOf c)))
  refine hrd.trans ?_
  rw [← Agu.loaded, Agu.loaded_eq _ op h.isLoad hal, hv, arch, LoadOp.value_word, index_extract,
    hlane]
  · rfl
  · rw [Agu.Aligned] at hal
    rw [BitVec.extractLsb'_toNat, Nat.shiftRight_zero]
    cases op <;> simp only [LoadOp.size] at hal ⊢ <;> omega

theorem Retires.load : r.Executes c (.load op rd rs1 imm) := by
  intro m ht
  have hx := h.excp_of_lsu rfl
  rw [Machine.exec, ← h.loadAddr] at ht
  split at ht
  · next hmis =>
    rw [Agu.memAddrErr_of_load _ op h.isLoad hmis] at hx
    have hx : (r.st c).commitIn.info.excp = 0x10#16 := hx
    obtain ⟨htrap, hirq⟩ := h.trap 4#4 (by rw [hx]; decide) (by rw [hx]; decide)
    rw [hirq] at ht
    exact htrap.trans (Option.some.inj ht)
  · next hal =>
    rw [not_not] at hal
    rw [Agu.memAddrErr_load _ op h.isLoad hal] at hx
    have hx : (r.st c).commitIn.info.excp = 0#16 := hx
    split at ht
    · next hdata =>
      exact h.writes hx m _ rd _ rfl rfl (h.nextPc_of_ne (show Rob.WbUnit.lsu ≠ .bjp by decide)).symm
        (h.loaded hal hdata hx) ht
    · exact absurd ht (by simp)

end Load

section Store

variable {op : StoreOp} {rs1 rs2 : BitVec 5} {imm : BitVec 12}
  (h : r.Retires c (.store op rs1 rs2 imm))
include h

theorem Retires.isStore : Agu.IsStore (r.aguIn (r.decodeOf c)) op := by
  have hl : Decode.loadOp (r.st (r.decodeOf c)).if2de.intr = false := by
    rw [h.word, Decode.loadOp_encode]
    rfl
  have hs : Decode.storeOp (r.st (r.decodeOf c)).if2de.intr = true := by
    rw [h.word, Decode.storeOp_encode]
    rfl
  refine ⟨hs, hl, ?_⟩
  change Decode.msg (r.st (r.decodeOf c)).if2de.intr = _
  rw [h.word]
  exact Decode.msg_word ..

theorem Retires.storeAddr : Agu.addr (r.aguIn (r.decodeOf c)) =
    (r.arch c).x rs1 + imm.signExtend 32 := by
  have hl : Decode.loadOp (r.st (r.decodeOf c)).if2de.intr = false := h.isStore.loadOp
  have himm : Decode.immAgu (r.st (r.decodeOf c)).if2de.intr = imm.signExtend 32 := by
    rw [Decode.immAgu, hl, if_neg Bool.false_ne_true, h.word]
    exact Decode.tImmStore_wordS ..
  rw [Agu.addr, BitVec.add_comm, ← himm, ← h.src1 rfl rs1 rfl]
  rfl

-- The command of a store writes its bytes.
theorem Retires.stored (hal : Agu.Aligned op.size (r.aguIn (r.decodeOf c)))
    (hdata : isData (Agu.addr (r.aguIn (r.decodeOf c))) = true)
    (hx : (r.st c).commitIn.info.excp = 0#16) : (r.arch (c + 1)).mem =
      Bytes.write op.size ((Agu.addr (r.aguIn (r.decodeOf c))).extractLsb' 0 14) ((r.arch c).x rs2)
        (r.arch c).mem := by
  have hs : Decode.storeOp (r.st (r.decodeOf c)).if2de.intr = true := h.isStore.storeOp
  have hlane := toNat_extract (Agu.addr (r.aguIn (r.decodeOf c)))
  have hidx := index_extract (Agu.addr (r.aguIn (r.decodeOf c)))
  have hroom : Agu.lane (r.aguIn (r.decodeOf c)) + op.size ≤ 4 := by
    rw [Agu.Aligned] at hal
    rw [Agu.lane]
    cases op <;> simp only [StoreOp.size] at hal ⊢ <;> omega
  have hsrc : (r.aguIn (r.decodeOf c)).aguSrc3 = (r.arch c).x rs2 := h.src2 rfl rs2 rfl
  rw [mem_succ, h.commits, hs, hx]
  change Bytes.ofWords _ = Bytes.write op.size _ _ (Bytes.ofWords _)
  refine Bytes.ofWords_eq_write _ _ _ _ _ (by rw [hlane]; exact hroom) (fun k hk => ?_)
    (fun j hj => ?_)
  · rw [hidx] at hk
    have hne : (k == Tcm.index (r.storeCmd (r.decodeOf c)).addr) = false :=
      beq_eq_false_iff_ne.mpr hk
    rw [applyCmd, hne, Bool.and_false]
    rfl
  · have hreg : ((r.storeCmd (r.decodeOf c)).addr.extractLsb' 16 16 == 0x8000#16) = true := hdata
    have hread : (r.storeCmd (r.decodeOf c)).read = false := rfl
    have heq : (Tcm.index (Agu.addr (r.aguIn (r.decodeOf c))) ==
        Tcm.index (r.storeCmd (r.decodeOf c)).addr) = true := beq_self_eq_true _
    rw [hidx, hlane, ← hsrc, applyCmd, hreg, hread, heq]
    exact Agu.byte_stored _ op h.isStore hal _ j hj

theorem Retires.store : r.Executes c (.store op rs1 rs2 imm) := by
  intro m ht
  have hx := h.excp_of_lsu rfl
  rw [Machine.exec, ← h.storeAddr] at ht
  split at ht
  · next hmis =>
    rw [Agu.memAddrErr_of_store _ op h.isStore hmis] at hx
    have hx : (r.st c).commitIn.info.excp = 0x40#16 := hx
    obtain ⟨htrap, hirq⟩ := h.trap 6#4 (by rw [hx]; decide) (by rw [hx]; decide)
    rw [hirq] at ht
    exact htrap.trans (Option.some.inj ht)
  · next hal =>
    rw [not_not] at hal
    rw [Agu.memAddrErr_store _ op h.isStore hal] at hx
    have hx : (r.st c).commitIn.info.excp = 0#16 := hx
    split at ht
    · next hdata =>
      refine h.take hx _ m ?_ ?_ (h.stored hal hdata hx).symm (fun k => ?_) ht
      · exact (h.nextPc_of_ne (show Rob.WbUnit.lsu ≠ .bjp by decide)).symm
      · rw [h.x_eq hx]
        rfl
      · rw [h.wr hx]
        rfl
    · exact absurd ht (by simp)

end Store

-- The instructions without a result.

theorem Retires.nop {i : Instr} (h : r.Retires c i) (hu : i.unit = .nop) (hx : i.excp = 0#16)
    (p : BitVec 32) (hp : p = if i.isMret then (r.arch c).csr .mepc else (r.arch c).pc + 4#32)
    (he : (r.arch c).exec i = some ((r.arch c).goto p)) : r.Executes c i := by
  intro m ht
  rw [he] at ht
  have hxc : (r.st c).commitIn.info.excp = 0#16 :=
    (h.excp_of_ne (by rw [hu]; decide)).trans hx
  refine h.jumps hxc m p (Instr.rd_of_unit hu) (Instr.isStore_of_unit (by rw [hu]; decide))
    (Instr.csrIdx_of_unit (by rw [hu]; decide)) ?_ ht
  rw [hp, h.nextPc_of_ne (by rw [hu]; decide)]
  rfl

theorem Retires.syscall {i : Instr} (h : r.Retires c i) (hu : i.unit = .nop) (code : BitVec 4)
    (hx : i.excp ≠ 0#16) (hcode : Csr.lowestIdx i.excp = code)
    (he : (r.arch c).exec i = some ((r.arch c).trap code)) : r.Executes c i := by
  intro m ht
  rw [he] at ht
  have hxc := h.excp_of_ne (by rw [hu]; decide)
  obtain ⟨htrap, hirq⟩ := h.trap code (by rw [hxc]; exact hx) (by rw [hxc]; exact hcode)
  rw [hirq] at ht
  exact htrap.trans (Option.some.inj ht)

-- The csr instructions.

theorem Retires.csrCommits {op : CsrOp} {rd src : BitVec 5} {k : CsrReg}
    (h : r.Retires c (.csr op rd src k.idx)) :
    r.CsrCommits c (r.decodeOf c) op rd src k.idx :=
  ⟨h.commits, rfl, h.word, h.excp_of_ne (show Rob.WbUnit.csr ≠ .lsu by decide)⟩

-- The entry holds what the register has at the commit, and what is to be written.
theorem CsrCommits.entry {op : CsrOp} {rd src : BitVec 5} {k : CsrReg} {d : Nat}
    (h : r.CsrCommits c d op rd src k.idx) :
    (r.st c).commitIn.rdData = (r.arch c).csr k ∧ (r.st c).commitIn.csrData =
      op.eval ((r.arch c).csr k) (if op.isImm then src.setWidth 32 else (r.arch c).x src) := by
  have hv : (r.st (d + 1)).csr.value k.idx = (r.arch c).csr k := by
    have hk : k.idx ≠ Csr.mipIdx ∧ k.idx ∉ Csr.counters := by cases k <;> decide
    rw [← h.value_of_not_mem hk.1 hk.2]
    cases k <;> rfl
  obtain ⟨hr, hw⟩ := h.result
  rw [hv] at hr hw
  rw [h.source] at hw
  exact ⟨hr, hw⟩

theorem Retires.csr {op : CsrOp} {rd src : BitVec 5} {idx : BitVec 12}
    (h : r.Retires c (.csr op rd src idx)) : r.Executes c (.csr op rd src idx) := by
  intro m ht
  obtain ⟨m', hm, ht⟩ := Option.bind_eq_some_iff.mp ht
  obtain ⟨k, hk, he⟩ := Option.bind_eq_some_iff.mp hm
  obtain rfl := (csrReg_eq_some_iff idx k).mp hk
  have hx := h.csrCommits.excp
  obtain ⟨hrd, hwd⟩ := h.csrCommits.entry
  obtain ⟨hpc, hreg, hmem, hcsr⟩ := Machine.execCsr_eq_some he
  refine h.take hx m' m ?_ ?_ (hmem.trans (h.mem_eq rfl).symm) (fun j => ?_) ht
  · exact hpc.trans (h.nextPc_of_ne (show Rob.WbUnit.csr ≠ .bjp by decide)).symm
  · rw [hreg, h.x_eq hx, hrd]
    rfl
  · have hwr : Csr.wr j.idx (r.st c).csrIn.commit = decide (j = k) := by
      rw [h.wr hx, Instr.csrIdx]
      cases j <;> cases k <;> decide
    rw [hwr, hwd, hcsr]
    by_cases hj : j = k
    · subst hj
      cases j.writable <;> simp
    · simp [hj]

theorem Retires.executes {i : Instr} (h : r.Retires c i) (hl : ∀ t < c, r.LegalFetch t) :
    r.Executes c i := by
  cases i with
  | lui rd imm => exact h.lui
  | auipc rd imm => exact h.auipc
  | jal rd imm => exact h.jal
  | jalr rd rs1 imm => exact h.jalr hl
  | branch op rs1 rs2 imm => exact h.branch
  | load op rd rs1 imm => exact h.load
  | store op rs1 rs2 imm => exact h.store
  | opImm op rd rs1 imm => exact h.opImm
  | shiftImm op rd rs1 shamt => exact h.shiftImm
  | opReg op rd rs1 rs2 => exact h.opReg
  | fence rd rs1 imm => exact h.nop rfl rfl _ rfl rfl
  | fenceI rd rs1 imm => exact h.nop rfl rfl _ rfl rfl
  | ecall => exact h.syscall rfl 11#4 (by decide) (by decide) rfl
  | ebreak => exact h.syscall rfl 3#4 (by decide) (by decide) rfl
  | mret => exact h.nop rfl rfl _ rfl rfl
  | wfi => exact h.nop rfl rfl _ rfl rfl
  | csr op rd src idx => exact h.csr

-- A cycle without a commit changes nothing that software sees; one with a commit executes the
-- instruction that is due.
theorem cycle_executes (r : Run) (t : Nat) (hl : ∀ u < t, r.LegalFetch u) :
    ((r.st t).commits = false → r.arch (t + 1) = r.arch t) ∧
    ((r.st t).commits = true → (r.st t).commitPc = (r.arch t).pc ∧
      ∀ i m, (r.st (r.decodeOf t)).if2de.intr = i.encode →
        ((r.arch t).exec i).bind (Machine.take i (r.irqAt t)) = some m → r.arch (t + 1) = m) := by
  refine ⟨arch_of_not_commits t, fun hc => ⟨(commitPc_eq t hl hc).2, fun i m hw hm => ?_⟩⟩
  exact (retires_of_legal hl hc hw).executes hl m hm

-- The load of the store's value.
theorem cycle_executes_storeLoad :
    storeLoad.arch 13 = (storeLoad.arch 12).retire 3#5 5#32 := by
  have hl : ∀ u < 12, storeLoad.LegalFetch u := by
    unfold LegalFetch
    decide +kernel
  have hs : (storeLoad.st 12).commits = true ∧ (storeLoad.st (storeLoad.decodeOf 12)).if2de.intr =
      (Instr.load .lw 3#5 2#5 0#12).encode ∧ storeLoad.irqAt 12 = none ∧
      (storeLoad.arch 12).x 2#5 = 0x80000000#32 ∧
      Bytes.word (storeLoad.arch 12).mem 0#14 = 5#32 := by decide +kernel
  obtain ⟨hc, hw, hirq, hx, hv⟩ := hs
  refine ((cycle_executes storeLoad 12 hl).2 hc).2 _ _ hw ?_
  have ha : (0x80000000#32 + (0#12).signExtend 32).extractLsb' 0 14 = 0#14 := by decide
  rw [hirq, Machine.exec, hx, ha, hv]
  rfl

end Run

end HiCore
