import HiCore.Refine.IssueBus

-- The de2issue bundle on its way from `HiCore_Decode` to `HiCore_Issue`: five layouts of
-- different sizes over the same bits, packed by the one and cut up by the other.
namespace HiCore.Decode

-- What issue finds in `info` is what decode packed for the instruction in `o` and the
-- tail pointer `p`. The bundle is valid, as `bjp_rd_result` asks for.
structure RoundTrips (o : Operands) (p : BitVec 4) (info : BitVec 176) : Prop where
  oneSel : oneHot (branchSel o.if2de.intr) (aluSel o.if2de.intr) (aguSel o.if2de.intr)
    (csrSel o.if2de.intr) (nopSel o.if2de.intr) = true
  sels : Issue.branchSel info = branchSel o.if2de.intr ∧ Issue.aluSel info = aluSel o.if2de.intr ∧
    Issue.aguSel info = aguSel o.if2de.intr ∧ Issue.csrSel info = csrSel o.if2de.intr ∧
    Issue.nopSel info = nopSel o.if2de.intr
  issueInfo : Issue.issueInfo info =
    { robPtr := p, wb := { pc := o.if2de.pc, irq := o.irq, excp := deExcp o.if2de } }
  bjp : branchSel o.if2de.intr = true →
    Issue.bjpRdResult info (Issue.branchSel info && true) = Branch.rdResult (branchIn o) ∧
    Issue.bjpRd info = { rdNeed := rdNeed o.if2de o.cancel, rdIdx := rdIdx o.if2de.intr }
  alu : aluSel o.if2de.intr = true →
    Issue.alu info =
      { aluOp := aluOp o.if2de.intr
        luiOp := luiOp o.if2de.intr
        auipcOp := auipcOp o.if2de.intr
        aluDir := aluDir o.if2de.intr
        aluMsg := msg o.if2de.intr
        aluSrc2 := aluSrc2 o
        aluSrc1 := aluSrc1 o
        aluInfo := Issue.issueInfo info } ∧
    Issue.aluRd info = { rdNeed := rdNeed o.if2de o.cancel, rdIdx := rdIdx o.if2de.intr }
  agu : aguSel o.if2de.intr = true →
    Issue.agu info =
      { storeOp := storeOp o.if2de.intr
        loadOp := loadOp o.if2de.intr
        aguMsg := msg o.if2de.intr
        aguSrc3 := o.readSrc2Dat
        aguSrc2 := o.readSrc1Dat
        aguSrc1 := immAgu o.if2de.intr
        aguInfo := Issue.issueInfo info } ∧
    Issue.aguRd info = { rdNeed := rdNeed o.if2de o.cancel, rdIdx := rdIdx o.if2de.intr }
  csr : csrSel o.if2de.intr = true →
    Issue.csr info =
      { csrMsg := msg o.if2de.intr
        csrIdx := csrIdx o.if2de.intr
        csrRegSrc := csrRegSrc o
        csrInfo := Issue.issueInfo info } ∧
    Issue.csrRd info = { rdNeed := rdNeed o.if2de o.cancel, rdIdx := rdIdx o.if2de.intr }
  nop : nopSel o.if2de.intr = true →
    Issue.fenceIOp info = fenceIOp o.if2de.intr ∧ Issue.mretOp info = mretOp o.if2de.intr

-- Also with the pads as wide as the macros make them.
theorem de2issue_round_trips (o : Operands) (p : BitVec 4) :
    iDe2issueInfoPreExpanded o = iDe2issueInfoPre o ∧ RoundTrips o p (iDe2issueInfo o p) := by
  refine ⟨iDe2issueInfoPreExpanded_eq o, ?_⟩
  obtain ⟨hb, ha, hl, hc, hn⟩ := sel_unit o.if2de.intr
  have hi := issueInfo_bus o p
  constructor
  · exact oneHot_sel _
  · rw [branchSel_bus, aluSel_bus, aguSel_bus, csrSel_bus, nopSel_bus, hb, ha, hl, hc, hn]
    exact ⟨rfl, rfl, rfl, rfl, rfl⟩
  · exact hi
  · intro h
    have hu := (selects_iff _ .bjp).mp h
    rw [branchSel_bus, hu]
    exact ⟨bjp_bus o p hu, bjpRd_bus o p hu⟩
  · intro h
    have hu := (selects_iff _ .alu).mp h
    rw [hi]
    exact ⟨alu_bus o p hu, aluRd_bus o p hu⟩
  · intro h
    have hu := (selects_iff _ .lsu).mp h
    rw [hi]
    exact ⟨agu_bus o p hu, aguRd_bus o p hu⟩
  · intro h
    have hu := (selects_iff _ .csr).mp h
    rw [hi]
    exact ⟨csr_bus o p hu, csrRd_bus o p hu⟩
  · intro h
    exact nop_bus o p ((selects_iff _ .nop).mp h)

end HiCore.Decode
