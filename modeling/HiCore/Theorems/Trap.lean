import HiCore.Trace.Arch

-- The exceptions: which instruction raises which one, and what a trap does.
namespace HiCore.Run

variable (r : Run)

-- The cause of the instruction that decode takes in cycle `d`, from its pc, its word and the
-- address of its access. Where several apply, the first counts. Code 2 is for the words whose opcode
-- decode does not know.
def cause (d : Nat) : Option (BitVec 4) :=
  if (r.st d).if2de.pc.extractLsb' 0 2 != 0#2 then some 0#4
  else if (r.st d).if2de.pc.extractLsb' 16 16 != 0x0000#16 then some 1#4
  else if Decode.illegalIntr (r.st d).if2de.intr then some 2#4
  else if Decode.ebreakOp (r.st d).if2de.intr then some 3#4
  else if Agu.memAddrErr (r.aguIn d) && Decode.loadOp (r.st d).if2de.intr then some 4#4
  else if Agu.memAddrErr (r.aguIn d) && Decode.storeOp (r.st d).if2de.intr then some 6#4
  else if Decode.ecallOp (r.st d).if2de.intr then some 11#4
  else none

-- The seven bits that an entry may have.
def excpBits (misaligned fault illegal ebreak load store ecall : Bool) : BitVec 16 :=
  (0#14 ++ BitVec.ofBool fault ++ BitVec.ofBool misaligned) |||
    (0#4 ++ BitVec.ofBool ecall ++ 0#7 ++ BitVec.ofBool ebreak ++ BitVec.ofBool illegal ++ 0#2) |||
    (0#9 ++ BitVec.ofBool store ++ 0#1 ++ BitVec.ofBool load ++ 0#4)

theorem lowestIdx_excpBits : ∀ m f i b l s e : Bool,
    (if excpBits m f i b l s e = 0#16 then none else some (Csr.lowestIdx (excpBits m f i b l s e))) =
      if m then some 0#4 else if f then some 1#4 else if i then some 2#4 else if b then some 3#4
      else if l then some 4#4 else if s then some 6#4 else if e then some 11#4 else none := by
  decide +kernel

-- A word in decode has the exceptions of its pc.
theorem excp_if2de (d : Nat) (h : (r.st d).if2deValid = true) : (r.st d).if2de.excp =
    0#14 ++ BitVec.ofBool ((r.st d).if2de.pc.extractLsb' 16 16 != 0x0000#16) ++
      BitVec.ofBool ((r.st d).if2de.pc.extractLsb' 0 2 != 0#2) := by
  have hx : (r.st d).if2de.excp = _ := r.reports_decode d h
  rw [hx, (r.head?_decode d h).2.1]
  rfl

theorem excp_eq_bits (c : Nat) (hc : (r.st c).commits = true) : (r.st c).commitIn.info.excp =
    excpBits ((r.st (r.decodeOf c)).if2de.pc.extractLsb' 0 2 != 0#2)
      ((r.st (r.decodeOf c)).if2de.pc.extractLsb' 16 16 != 0x0000#16)
      (Decode.illegalIntr (r.st (r.decodeOf c)).if2de.intr)
      (Decode.ebreakOp (r.st (r.decodeOf c)).if2de.intr)
      (Agu.memAddrErr (r.aguIn (r.decodeOf c)) && Decode.loadOp (r.st (r.decodeOf c)).if2de.intr)
      (Agu.memAddrErr (r.aguIn (r.decodeOf c)) && Decode.storeOp (r.st (r.decodeOf c)).if2de.intr)
      (Decode.ecallOp (r.st (r.decodeOf c)).if2de.intr) := by
  have hv := (if2deValid_of_robWen _ (r.robWen_owner c _ (r.head_mem c hc))).1
  have hf := r.excp_if2de _ hv
  rw [← decodeOf] at hf
  by_cases hu : r.unitOf (r.decodeOf c) = .lsu
  · have hi := r.info_of_commits c hc
    rw [← decodeOf, r.resultInfo_of_lsu _ hu, aguOf, r.agu_info _ hu] at hi
    have hx : (r.st c).commitIn.info.excp = Agu.excp (r.aguIn (r.decodeOf c)) :=
      congrArg WbInfo.excp hi
    rw [hx, excpBits, ← hf]
    rfl
  · have hl : Decode.loadOp (r.st (r.decodeOf c)).if2de.intr = false := by
      rw [← Bool.not_eq_true]
      exact fun h => hu (Decode.unit_of_loadOp _ h)
    have hs : Decode.storeOp (r.st (r.decodeOf c)).if2de.intr = false := by
      rw [← Bool.not_eq_true]
      exact fun h => hu (Decode.unit_of_storeOp _ h)
    have hx : (r.st c).commitIn.info.excp = _ := r.excp_of_commits c hc hu
    have hz : 0#9 ++ BitVec.ofBool false ++ 0#1 ++ BitVec.ofBool false ++ 0#4 = 0#16 := by decide
    rw [hx, ← decodeOf, excpBits, ← hf, hl, hs, Bool.and_false, hz, BitVec.or_zero]
    rfl

theorem cause_eq (c : Nat) (hc : (r.st c).commits = true) : r.cause (r.decodeOf c) =
    if (r.st c).commitIn.info.excp = 0#16 then none
    else some (Csr.lowestIdx (r.st c).commitIn.info.excp) := by
  rw [r.excp_eq_bits c hc, lowestIdx_excpBits]
  rfl

-- A trap leaves no trace of the instruction but the cause and the pc.
theorem trap_entry (r : Run) (c : Nat) (hc : (r.st c).commits = true) :
    (r.cause (r.decodeOf c) = none → (r.st c).commitIn.info.excp = 0#16) ∧
    ∀ code, r.cause (r.decodeOf c) = some code →
      (r.st c).flush = true ∧ (r.st c).flushPc = (r.st c).csr.mtvec ∧
      r.arch (c + 1) = ((r.arch c).goto (r.st c).commitPc).trap code ∧
      (r.st (c + 1)).csr.statusMpie = (r.st c).csr.statusMie ∧
      (r.st (c + 1)).csr.statusMie = false := by
  have hk := r.cause_eq c hc
  constructor
  · intro hn
    by_contra hx
    rw [hn, if_neg hx] at hk
    exact absurd hk (by simp)
  · intro code hs
    rw [hs] at hk
    split at hk
    · exact absurd hk (by simp)
    · next hx =>
      obtain ⟨hf, hp⟩ := flushPc_of_excp _ hc hx
      refine ⟨hf, hp, arch_of_excp c code hc hx (Option.some.inj hk).symm, ?_⟩
      have he : Csr.excpEn (r.st c).csrIn.commit = true := by
        have hv : (r.st c).csrIn.commit.valid = true := hc
        have hn : (r.st c).csrIn.commit.excp ≠ 0#16 := hx
        simp [Csr.excpEn, hv, hn]
      have hena : Csr.statusMieEna (r.st c).csrIn.commit = true := by
        simp [Csr.statusMieEna, he]
      change dfflr _ ((r.st c).csr.statusMpieNxt _) _ = _ ∧
        dfflr _ ((r.st c).csr.statusMieNxt _) _ = _
      rw [hena, Csr.statusMpieNxt, Csr.statusMieNxt, he]
      exact ⟨rfl, rfl⟩

-- `lui x1,0x80000; lh x2,1(x1)`: the load from an odd address.
def oddLoad : Run :=
  program false [(Isa.Instr.lui 1#5 0x80000#20).encode, (Isa.Instr.load .lh 2#5 1#5 1#12).encode]

theorem trap_entry_oddLoad : (oddLoad.st 9).commitPc = 4#32 ∧
    oddLoad.arch 10 = ((oddLoad.arch 9).goto 4#32).trap 4#4 := by
  have h : (oddLoad.st 9).commits = true ∧ (oddLoad.st 9).commitPc = 4#32 ∧
      oddLoad.cause (oddLoad.decodeOf 9) = some 4#4 := by decide +kernel
  refine ⟨h.2.1, ?_⟩
  rw [← h.2.1]
  exact ((trap_entry oddLoad 9 h.1).2 4#4 h.2.2).2.2.1

end HiCore.Run
