import HiCore.Refine.Rob
import HiCore.Rtl.Decode
import HiCore.Rtl.Issue

-- What decode puts on the de2issue bus is what issue cuts out of it.
namespace HiCore.Decode

open Rob (WbUnit)

-- The unit that decode selects. The selects of the source are five separate
-- functions of the word; `sel_unit` shows that they are one-hot.
def unit (intr : BitVec 32) : WbUnit :=
  if branchSel intr then .bjp
  else if aluSel intr then .alu
  else if aguSel intr then .lsu
  else if csrSel intr then .csr else .nop

-- Five bits of which exactly one is set.
def oneHot (a b c d e : Bool) : Bool :=
  (a && !b && !c && !d && !e) || (!a && b && !c && !d && !e) || (!a && !b && c && !d && !e) ||
    (!a && !b && !c && d && !e) || (!a && !b && !c && !d && e)

theorem oneHot_sel (intr : BitVec 32) :
    oneHot (branchSel intr) (aluSel intr) (aguSel intr) (csrSel intr) (nopSel intr) = true := by
  simp only [branchSel, aluSel, aguSel, csrSel, nopSel, ecallOp, ebreakOp, mretOp, wfiOp,
    systemOp, illegalIntr, branchOp, jalOp, jalrOp, aluOp, luiOp, auipcOp, loadOp, storeOp, fenceOp,
    csrOp, opcodeIs]
  -- Only the opcode and the four system codes matter.
  generalize rv32 intr = b
  generalize (msg intr == 0b000#3 && csrIdx intr == 0x000#12) = e0
  generalize (msg intr == 0b000#3 && csrIdx intr == 0x001#12) = e1
  generalize (msg intr == 0b000#3 && csrIdx intr == 0x302#12) = e2
  generalize (msg intr == 0b000#3 && csrIdx intr == 0x105#12) = e3
  generalize intr.extractLsb' 2 5 = c
  revert b e0 e1 e2 e3 c
  decide +kernel

theorem sel_unit (intr : BitVec 32) :
    branchSel intr = decide (unit intr = .bjp) ∧ aluSel intr = decide (unit intr = .alu) ∧
      aguSel intr = decide (unit intr = .lsu) ∧ csrSel intr = decide (unit intr = .csr) ∧
      nopSel intr = decide (unit intr = .nop) := by
  have h := oneHot_sel intr
  cases hb : branchSel intr <;> cases ha : aluSel intr <;> cases hl : aguSel intr <;>
    cases hc : csrSel intr <;> cases hn : nopSel intr <;>
    simp [oneHot, unit, hb, ha, hl, hc, hn] at h ⊢

def selects (intr : BitVec 32) : WbUnit → Bool
  | .bjp => branchSel intr
  | .alu => aluSel intr
  | .lsu => aguSel intr
  | .csr => csrSel intr
  | .nop => nopSel intr

theorem selects_iff (intr : BitVec 32) (u : WbUnit) : selects intr u = true ↔ unit intr = u := by
  obtain ⟨hb, ha, hl, hc, hn⟩ := sel_unit intr
  cases u <;> simp [selects, hb, ha, hl, hc, hn]

theorem storeOp_of_lsu (intr : BitVec 32) (h : unit intr = .lsu) :
    storeOp intr = !loadOp intr := by
  rw [← selects_iff] at h
  simp only [selects, aguSel, loadOp, storeOp, opcodeIs] at h ⊢
  generalize rv32 intr = b at h ⊢
  generalize intr.extractLsb' 2 5 = c at h ⊢
  revert b c
  decide

theorem unit_of_storeOp (intr : BitVec 32) (h : storeOp intr = true) : unit intr = .lsu := by
  rw [← selects_iff]
  simp [selects, aguSel, h]

theorem unit_of_loadOp (intr : BitVec 32) (h : loadOp intr = true) : unit intr = .lsu := by
  rw [← selects_iff]
  simp [selects, aguSel, h]

variable (o : Operands) (p : BitVec 4)

theorem robPtr_bus : Issue.robPtr (iDe2issueInfo o p) = p := by
  simp (disch := omega) only [Issue.robPtr, iDe2issueInfo, BitVec.extractLsb'_append_eq_of_le,
    BitVec.extractLsb'_append_eq_of_add_le]
  simp

theorem branchSel_bus :
    Issue.branchSel (iDe2issueInfo o p) = decide (unit o.if2de.intr = .bjp) := by
  rw [← (sel_unit _).1]
  simp only [Issue.branchSel, iDe2issueInfo, BitVec.getLsbD_append]
  simp

theorem aluSel_bus : Issue.aluSel (iDe2issueInfo o p) = decide (unit o.if2de.intr = .alu) := by
  rw [← (sel_unit _).2.1]
  simp only [Issue.aluSel, iDe2issueInfo, BitVec.getLsbD_append]
  simp

theorem aguSel_bus : Issue.aguSel (iDe2issueInfo o p) = decide (unit o.if2de.intr = .lsu) := by
  rw [← (sel_unit _).2.2.1]
  simp only [Issue.aguSel, iDe2issueInfo, BitVec.getLsbD_append]
  simp

theorem csrSel_bus : Issue.csrSel (iDe2issueInfo o p) = decide (unit o.if2de.intr = .csr) := by
  rw [← (sel_unit _).2.2.2.1]
  simp only [Issue.csrSel, iDe2issueInfo, BitVec.getLsbD_append]
  simp

theorem nopSel_bus : Issue.nopSel (iDe2issueInfo o p) = decide (unit o.if2de.intr = .nop) := by
  rw [← (sel_unit _).2.2.2.2]
  simp only [Issue.nopSel, iDe2issueInfo, BitVec.getLsbD_append]
  simp

-- The or of the five layouts is the layout of the selected unit.
theorem iDe2issueInfoPre_eq : iDe2issueInfoPre o =
    match unit o.if2de.intr with
    | .bjp => (branchInfo o).setWidth 167
    | .alu => (aluInfo o).setWidth 167
    | .lsu => (aguInfo o).setWidth 167
    | .csr => (csrInfo o).setWidth 167
    | .nop => (nopInfo o).setWidth 167 := by
  obtain ⟨hb, ha, hl, hc, hn⟩ := sel_unit o.if2de.intr
  rw [iDe2issueInfoPre, hb, ha, hl, hc, hn]
  cases unit o.if2de.intr <;> simp

section Layout

variable {o}

theorem pre_of_bjp (h : unit o.if2de.intr = .bjp) :
    iDe2issueInfoPre o = (branchInfo o).setWidth 167 := by
  rw [iDe2issueInfoPre_eq, h]

theorem pre_of_alu (h : unit o.if2de.intr = .alu) :
    iDe2issueInfoPre o = (aluInfo o).setWidth 167 := by
  rw [iDe2issueInfoPre_eq, h]

theorem pre_of_lsu (h : unit o.if2de.intr = .lsu) :
    iDe2issueInfoPre o = (aguInfo o).setWidth 167 := by
  rw [iDe2issueInfoPre_eq, h]

theorem pre_of_csr (h : unit o.if2de.intr = .csr) :
    iDe2issueInfoPre o = (csrInfo o).setWidth 167 := by
  rw [iDe2issueInfoPre_eq, h]

theorem pre_of_nop (h : unit o.if2de.intr = .nop) :
    iDe2issueInfoPre o = (nopInfo o).setWidth 167 := by
  rw [iDe2issueInfoPre_eq, h]

-- A field of the selected layout stands on the bus where it stands in the layout.

variable {w : Nat} {x : BitVec w} (hx : iDe2issueInfoPre o = x.setWidth 167) (hw : w ≤ 167)
include hx hw

theorem extract_layout (start len : Nat) (hl : start + len ≤ w) :
    (iDe2issueInfo o p).extractLsb' start len = x.extractLsb' start len := by
  rw [iDe2issueInfo, BitVec.extractLsb'_append_eq_of_add_le (by omega), hx,
    BitVec.extractLsb'_setWidth_of_le (by omega)]

theorem getLsbD_layout (i : Nat) (hi : i < w) :
    (iDe2issueInfo o p).getLsbD i = x.getLsbD i := by
  rw [iDe2issueInfo, BitVec.getLsbD_append, if_pos (by omega), hx, BitVec.getLsbD_setWidth,
    decide_eq_true (show i < 167 by omega), Bool.true_and]

end Layout

-- The low 60 bits are common to the layouts.
theorem extract_common (start len : Nat) (h : start + len ≤ 60) :
    (iDe2issueInfo o p).extractLsb' start len = (commonInfo o).extractLsb' start len := by
  rw [iDe2issueInfo, BitVec.extractLsb'_append_eq_of_add_le (by omega), iDe2issueInfoPre_eq]
  cases unit o.if2de.intr <;>
    simp only [branchInfo, aluInfo, aguInfo, csrInfo, nopInfo] <;>
    rw [BitVec.extractLsb'_setWidth_of_le (by omega),
      BitVec.extractLsb'_append_eq_of_add_le (by omega)]

def wbInfoOf (o : Operands) : WbInfo where
  pc := o.if2de.pc
  irq := o.irq
  excp := deExcp o.if2de

theorem wbInfo_bus : Issue.wbInfo (iDe2issueInfo o p) = wbInfoOf o := by
  rw [Issue.wbInfo, extract_common _ _ _ _ (by omega), extract_common _ _ _ _ (by omega),
    extract_common _ _ _ _ (by omega), commonInfo, wbInfoOf]
  simp (disch := omega) only [BitVec.extractLsb'_append_eq_of_le,
    BitVec.extractLsb'_append_eq_of_add_le]
  simp

theorem issueInfo_bus : Issue.issueInfo (iDe2issueInfo o p) = { robPtr := p, wb := wbInfoOf o } := by
  rw [Issue.issueInfo, robPtr_bus, wbInfo_bus]

theorem bjp_bus (h : unit o.if2de.intr = .bjp) :
    Issue.bjpRdResult (iDe2issueInfo o p) true = Branch.rdResult (branchIn o) := by
  rw [Issue.bjpRdResult, if_pos rfl, extract_layout p (pre_of_bjp h) (by omega) _ _ (by omega)]
  simp (disch := omega) only [branchInfo, BitVec.extractLsb'_append_eq_of_le,
    BitVec.extractLsb'_append_eq_of_add_le]
  simp

theorem alu_bus (h : unit o.if2de.intr = .alu) : Issue.alu (iDe2issueInfo o p) =
    { aluOp := aluOp o.if2de.intr
      luiOp := luiOp o.if2de.intr
      auipcOp := auipcOp o.if2de.intr
      aluDir := aluDir o.if2de.intr
      aluMsg := msg o.if2de.intr
      aluSrc2 := aluSrc2 o
      aluSrc1 := aluSrc1 o
      aluInfo := { robPtr := p, wb := wbInfoOf o } } := by
  have hx := pre_of_alu h
  rw [Issue.alu, issueInfo_bus]
  simp (disch := omega) only [extract_layout p hx, getLsbD_layout p hx, aluInfo,
    BitVec.extractLsb'_append_eq_of_le, BitVec.extractLsb'_append_eq_of_add_le,
    BitVec.getLsbD_append, Nat.reduceLT, Nat.reduceSub, reduceIte]
  simp

theorem agu_bus (h : unit o.if2de.intr = .lsu) : Issue.agu (iDe2issueInfo o p) =
    { storeOp := storeOp o.if2de.intr
      loadOp := loadOp o.if2de.intr
      aguMsg := msg o.if2de.intr
      aguSrc3 := o.readSrc2Dat
      aguSrc2 := o.readSrc1Dat
      aguSrc1 := immAgu o.if2de.intr
      aguInfo := { robPtr := p, wb := wbInfoOf o } } := by
  have hx := pre_of_lsu h
  rw [Issue.agu, issueInfo_bus]
  simp (disch := omega) only [extract_layout p hx, getLsbD_layout p hx, aguInfo,
    BitVec.extractLsb'_append_eq_of_le, BitVec.extractLsb'_append_eq_of_add_le,
    BitVec.getLsbD_append, Nat.reduceLT, Nat.reduceSub, reduceIte]
  simp

theorem csr_bus (h : unit o.if2de.intr = .csr) : Issue.csr (iDe2issueInfo o p) =
    { csrMsg := msg o.if2de.intr
      csrIdx := csrIdx o.if2de.intr
      csrRegSrc := csrRegSrc o
      csrInfo := { robPtr := p, wb := wbInfoOf o } } := by
  have hx := pre_of_csr h
  rw [Issue.csr, issueInfo_bus]
  simp (disch := omega) only [extract_layout p hx, csrInfo, BitVec.extractLsb'_append_eq_of_le,
    BitVec.extractLsb'_append_eq_of_add_le]
  simp

theorem nop_bus (h : unit o.if2de.intr = .nop) :
    Issue.fenceIOp (iDe2issueInfo o p) = fenceIOp o.if2de.intr ∧
      Issue.mretOp (iDe2issueInfo o p) = mretOp o.if2de.intr := by
  have hx := pre_of_nop h
  rw [Issue.fenceIOp, Issue.mretOp, getLsbD_layout p hx (by omega) _ (by omega),
    getLsbD_layout p hx (by omega) _ (by omega)]
  simp only [nopInfo, BitVec.getLsbD_append]
  simp

-- However wide the zeros in front of a layout are, they do not reach the wire.
theorem setWidth_masked_padded {w : Nat} (sel : Bool) (n : Nat) (x : BitVec w) :
    ((rep 167 sel).setWidth 469 &&& padded n x).setWidth 167 = rep 167 sel &&& x.setWidth 167 := by
  have hx : (padded n x).setWidth 167 = x.setWidth 167 := by
    ext i hi
    rw [padded, BitVec.getElem_setWidth, BitVec.getLsbD_setWidth, BitVec.getLsbD_append,
      BitVec.getElem_setWidth, decide_eq_true (show i < 469 by omega), Bool.true_and]
    split
    · rfl
    · next hge => rw [BitVec.getLsbD_zero, BitVec.getLsbD_of_ge _ _ (Nat.le_of_not_lt hge)]
  rw [BitVec.setWidth_and, BitVec.setWidth_setWidth_of_le _ (by omega), BitVec.setWidth_eq, hx]

theorem iDe2issueInfoPreExpanded_eq : iDe2issueInfoPreExpanded o = iDe2issueInfoPre o := by
  simp only [iDe2issueInfoPreExpanded, BitVec.setWidth_or, setWidth_masked_padded]
  rfl

def rdOf (o : Operands) : Issue.Rd where
  rdNeed := rdNeed o.if2de o.cancel
  rdIdx := rdIdx o.if2de.intr

-- The six bits of `rdInfo` at their place, cut in two.
theorem rdAt_of_extract {lsb : Nat} {info : BitVec 176} (h : info.extractLsb' lsb 6 = rdInfo o) :
    Issue.rdAt lsb info = rdOf o := by
  have hneed : info.getLsbD (lsb + 5) = (rdInfo o).getLsbD 5 := by
    rw [← h, BitVec.getLsbD_extractLsb']
    simp
  have hidx : info.extractLsb' lsb 5 = (rdInfo o).extractLsb' 0 5 := by
    rw [← h]
    ext i hi
    simp [show i < 6 by omega]
  rw [Issue.rdAt, hneed, hidx, rdInfo, BitVec.getLsbD_append, BitVec.extractLsb'_append_eq_right,
    rdOf]
  simp

theorem bjpRd_bus (h : unit o.if2de.intr = .bjp) : Issue.bjpRd (iDe2issueInfo o p) = rdOf o := by
  refine rdAt_of_extract o ?_
  rw [extract_layout p (pre_of_bjp h) (by omega) _ _ (by omega), branchInfo]
  simp (disch := omega) only [BitVec.extractLsb'_append_eq_of_le]
  simp

theorem aluRd_bus (h : unit o.if2de.intr = .alu) : Issue.aluRd (iDe2issueInfo o p) = rdOf o := by
  refine rdAt_of_extract o ?_
  rw [extract_layout p (pre_of_alu h) (by omega) _ _ (by omega), aluInfo]
  simp (disch := omega) only [BitVec.extractLsb'_append_eq_of_le, Nat.reduceSub]
  exact BitVec.extractLsb'_append_eq_right

theorem aguRd_bus (h : unit o.if2de.intr = .lsu) : Issue.aguRd (iDe2issueInfo o p) = rdOf o := by
  refine rdAt_of_extract o ?_
  rw [extract_layout p (pre_of_lsu h) (by omega) _ _ (by omega), aguInfo]
  simp (disch := omega) only [BitVec.extractLsb'_append_eq_of_le, Nat.reduceSub]
  exact BitVec.extractLsb'_append_eq_right

theorem csrRd_bus (h : unit o.if2de.intr = .csr) : Issue.csrRd (iDe2issueInfo o p) = rdOf o := by
  refine rdAt_of_extract o ?_
  rw [extract_layout p (pre_of_csr h) (by omega) _ _ (by omega), csrInfo]
  simp (disch := omega) only [BitVec.extractLsb'_append_eq_of_le, Nat.reduceSub]
  exact BitVec.extractLsb'_append_eq_right

end HiCore.Decode
