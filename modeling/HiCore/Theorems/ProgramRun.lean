import HiCore.Theorems.Execution
import HiCore.Theorems.FenceI

-- A whole run of a program that does not write to its own memory.
namespace HiCore

open Isa

theorem Isa.Machine.run_append (p : BitVec 12 → Option Instr) (m : Machine)
    (xs : List (Option (BitVec 4))) (x : Option (BitVec 4)) :
    Machine.run p m (xs ++ [x]) = (Machine.run p m xs).bind fun m' => Machine.step p m' x := by
  simp only [Machine.run, List.foldlM_append, List.foldlM_cons, List.foldlM_nil]
  change (Machine.run p m xs).bind _ = _
  congr 1
  funext m'
  cases Machine.step p m' x <;> rfl

theorem spltIndic_itcm (addr : BitVec 32) (h : (Biu.spltIndic addr).getLsbD 1 = true) :
    addr.extractLsb' 16 16 = 0x0000#16 := by
  rw [← beq_iff_eq]
  rw [Biu.spltIndic, Biu.spltIndicLow] at h
  revert h
  generalize (addr.extractLsb' 16 16 == 0x8000#16) = c
  generalize (addr.extractLsb' 24 8 == 0xF1#8) = a
  generalize (addr.extractLsb' 16 16 == 0x0000#16) = b
  generalize (addr.extractLsb' 16 16 == 0xF000#16) = d
  revert a b c d
  decide

theorem SimRam.memR_next (m : SimRam) (cs we : Bool) (addr : BitVec 12) (wem : BitVec 4)
    (din : BitVec 32) (h : (cs && we) = false) : (m.next cs we addr wem din).memR = m.memR := by
  funext a
  simp [SimRam.next, h]

-- The fetch unit only reads.
theorem FetchPort.not_write_of_fetch (s : FetchPort) (i : FetchPort.In)
    (h : i.lsuCmdValid = false) : (s.itcmPush i &&
      !(Arbt.oCmd (s.portCmdValid i) (s.portCmd i)).read) = false := by
  cases hc : s.cmdValid i with
  | false =>
    have hp : s.portCmdValid i = 0#2 := by
      rw [portCmdValid, h, hc]
      rfl
    rw [itcmPush, hp]
    rfl
  | true =>
    have hp : s.portCmdValid i = 2#2 := by
      rw [portCmdValid, h, hc]
      rfl
    rw [oCmd_of_fetch s i (by rw [hp]; decide)]
    exact Bool.and_false _

namespace Run

-- The ITCM holds program `p` at reset.
def Loads (r : Run) (p : BitVec 12 → Option Instr) : Prop :=
  ∀ a i, p a = some i → (r.st 0).itcm.ram.memR a = i.encode

-- One entry for each commit before cycle `t`: the interrupt that is taken with it.
def events (r : Run) : Nat → List (Option (BitVec 4))
  | 0 => []
  | t + 1 => if (r.st t).commits then r.events t ++ [r.irqAt t] else r.events t

variable {r : Run}

-- Only a store changes the ITCM.
theorem itcm_mem_succ (t : Nat) : (r.st (t + 1)).itcm.ram.memR = (r.st t).itcm.ram.memR ∨
    ∃ d, r.Sends t d ∧ r.IsStore d ∧ (r.storeCmd d).addr.extractLsb' 16 16 = 0x0000#16 := by
  have hm := congrArg SimRam.memR (r.fetchPort.itcm_ram_succ t)
  rw [r.fetchPort_st, r.fetchPort_st] at hm
  change (r.st (t + 1)).itcm.ram.memR = _ at hm
  cases hv : (r.fetchPort.ins t).lsuCmdValid with
  | true =>
    have hp : (r.st t).slaveCmdValid.getLsbD 1 = true := hv
    have hr : (r.st t).slaveCmdReady.getLsbD 1 = _ := (slaveCmdReady_port (r.st t)).2.1
    rw [FetchPort.oCmd_of_lsu _ _ hv, FetchPort.itcmPush_of_lsu _ _ hv] at hm
    cases hw : ((r.st t).lsu2icacheCmdReady && !(r.st t).lsuCmd.read) with
    | false => exact .inl (hm.trans (SimRam.memR_next _ _ _ _ _ _ hw))
    | true =>
      obtain ⟨h1, h2⟩ := Bool.and_eq_true_iff.mp hw
      have hf := cmdFires_of_port _ 1 hp (hr.trans h1)
      obtain ⟨d, hs, hst⟩ := store_of_fires t (Bool.and_eq_true_iff.mpr ⟨hf, h2⟩)
      rw [slaveCmdValid_port, Bool.and_eq_true] at hp
      refine .inr ⟨d, hs, hst, ?_⟩
      rw [← hs.storeCmd hst]
      exact spltIndic_itcm _ hp.2
  | false =>
    have hw := FetchPort.not_write_of_fetch (r.fetchPort.st t) _ hv
    rw [r.fetchPort_st] at hw
    exact .inl (hm.trans (SimRam.memR_next _ _ _ _ _ _ hw))

-- The first commit after a store has sent its command is that of the store.
theorem Sends.commit {u d t : Nat} (h : r.Sends u d) (hs : r.IsStore d) (hut : u ≤ t)
    (ht : (r.st t).commits = true) (hd : r.decodeOf t ≠ d) :
    ∃ c, c < t ∧ (r.st c).commits = true ∧ r.decodeOf c = d := by
  have hex : ∃ c, u ≤ c ∧ (r.st c).commits = true := ⟨t, hut, ht⟩
  obtain ⟨huc, hc⟩ := Nat.find_spec hex
  have hq : ∀ w, u ≤ w → w < Nat.find hex → (r.st w).commits = false := by
    intro w h1 h2
    rw [← Bool.not_eq_true]
    exact fun h3 => Nat.find_min hex h2 ⟨h1, h3⟩
  have ho := (head_until_commit u d (h.headWaits hs) _ huc hq).2.2
  refine ⟨Nat.find hex, ?_, hc, ho⟩
  refine Nat.lt_of_le_of_ne (Nat.find_min' hex ⟨hut, ht⟩) fun he => hd ?_
  rw [← he]
  exact ho

-- The instruction that commits in cycle `c` is one that the machine executes.
def Covered (r : Run) (c : Nat) : Prop := ∃ i m, r.Retires c i ∧ (r.arch c).exec i = some m

theorem Covered.store {c : Nat} (h : r.Covered c)
    (hs : r.IsStore (r.decodeOf c)) (hx : (r.st c).commitIn.info.excp = 0#16) :
    isData (r.storeCmd (r.decodeOf c)).addr = true := by
  obtain ⟨i, m, hr, he⟩ := h
  have hst : i.isStore = true := by
    rw [← Decode.storeOp_encode, ← hr.word]
    exact hs
  cases i with
  | store op rs1 rs2 imm =>
    rw [Machine.exec, ← hr.storeAddr] at he
    split at he
    · next hmis =>
      have hl := hr.excp_of_lsu rfl
      rw [Agu.memAddrErr_of_store _ op hr.isStore hmis, hx] at hl
      exact absurd hl (show 0#16 ≠ 0x40#16 by decide)
    · split at he
      · next hdata => exact hdata
      · exact absurd he (by simp)
  | _ => simp [Instr.isStore] at hst

theorem Sends.excp {u d c : Nat} (h : r.Sends u d) (hc : (r.st c).commits = true)
    (hd : r.decodeOf c = d) : (r.st c).commitIn.info.excp = 0#16 := by
  obtain ⟨hu, hx⟩ := h.cmd.1
  subst hd
  have hi : (r.st c).commitIn.info = _ := r.info_of_commits c hc
  rw [hi]
  exact (excp_resultInfo _ hu).mpr hx

section Run

variable {p : BitVec 12 → Option Instr} {t : Nat}

-- The stores so far go to the data memory, so the word of the instruction that commits is still
-- the one that the program has.
theorem itcm_kept (hc : (r.st t).commits = true)
    (hcov : ∀ c < t, (r.st c).commits = true → r.Covered c) (u : Nat)
    (hu : u ≤ r.fetchOf (r.decodeOf t)) : (r.st u).itcm.ram.memR = (r.st 0).itcm.ram.memR := by
  have hm := r.head_mem t hc
  have hv := (if2deValid_of_robWen _ (r.robWen_owner t _ hm)).1
  have hfd : r.fetchOf (r.decodeOf t) < r.decodeOf t := r.fetchOf_lt _ hv
  have hdt : r.decodeOf t < t := r.owner_lt t _ hm
  induction u with
  | zero => rfl
  | succ u ih =>
    rcases itcm_mem_succ (r := r) u with hk | ⟨d, hs, hst, ha⟩
    · rw [hk]
      exact ih (by omega)
    · have hdu := hs.lt
      obtain ⟨c, hct, hcc, hd⟩ := hs.commit hst (by omega) hc (by omega)
      subst hd
      have hdata := (hcov c hct hcc).store hst (hs.excp hcc rfl)
      rw [isData, ha] at hdata
      exact absurd hdata (by decide)

theorem word_of_loads (hp : r.Loads p) (hl : ∀ u < t, r.LegalFetch u)
    (hc : (r.st t).commits = true) (hcov : ∀ c < t, (r.st c).commits = true → r.Covered c)
    {i : Instr} (hi : p ((r.arch t).pc.extractLsb' 2 12) = some i) : r.Retires t i := by
  have hm := r.head_mem t hc
  have hv := (if2deValid_of_robWen _ (r.robWen_owner t _ hm)).1
  have hlt := Nat.lt_trans (r.fetchOf_lt _ hv) (r.owner_lt t _ hm)
  obtain ⟨-, hpc, hr, hlegal⟩ := r.head?_decode _ hv
  obtain ⟨hal, hin⟩ := hl _ hlt hr
  have hw := (hlegal (legal_of_pc _ hal hin)).2
  obtain ⟨hpo, hret⟩ := commitPc_eq t hl hc
  have hpt : (r.st (r.fetchOf (r.decodeOf t))).ifetch.pc = (r.arch t).pc :=
    hpc.symm.trans (hpo.symm.trans hret)
  refine retires_of_legal hl hc ?_
  rw [← hp _ i hi, ← itcm_kept hc hcov _ (Nat.le_refl _)]
  refine hw.trans ?_
  rw [← decodeOf, hpt]
  rfl

-- The run of the machine up to a cycle ends in the architectural state of that cycle, and
-- has executed all the commits.
theorem run_covers (hp : r.Loads p) (hl : ∀ u < t, r.LegalFetch u) {m : Machine}
    (hm : Machine.run p (r.arch 0) (r.events t) = some m) :
    r.arch t = m ∧ ∀ c < t, (r.st c).commits = true → r.Covered c := by
  induction t generalizing m with
  | zero => exact ⟨Option.some.inj hm, fun c hc => absurd hc (Nat.not_lt_zero c)⟩
  | succ t ih =>
    have hl' : ∀ u < t, r.LegalFetch u := fun u hu => hl u (Nat.lt_succ_of_lt hu)
    rw [events] at hm
    cases hc : (r.st t).commits with
    | false =>
      rw [hc, if_neg Bool.false_ne_true] at hm
      obtain ⟨ha, hcov⟩ := ih hl' hm
      refine ⟨(arch_of_not_commits t hc).trans ha, fun c hct hcc => ?_⟩
      rcases Nat.lt_succ_iff_lt_or_eq.mp hct with h | rfl
      · exact hcov c h hcc
      · exact Bool.noConfusion (hc.symm.trans hcc)
    | true =>
      rw [hc, if_pos rfl, Machine.run_append] at hm
      obtain ⟨m', hm', hstep⟩ := Option.bind_eq_some_iff.mp hm
      obtain ⟨ha, hcov⟩ := ih hl' hm'
      subst ha
      obtain ⟨i, hi, he⟩ := Option.bind_eq_some_iff.mp hstep
      have hr := word_of_loads hp hl' hc hcov hi
      refine ⟨hr.executes hl' m he, fun c hct hcc => ?_⟩
      rcases Nat.lt_succ_iff_lt_or_eq.mp hct with h | rfl
      · exact hcov c h hcc
      · obtain ⟨m'', hx, -⟩ := Option.bind_eq_some_iff.mp he
        exact ⟨i, m'', hr, hx⟩

end Run

theorem arch_zero (r : Run) :
    r.arch 0 = Machine.reset (Bytes.ofWords (r.st 0).dtcm.ram.memR) := by
  refine Machine.ext rfl ?_ rfl ?_
  · funext x
    change Regfile.reset.read x = 0#32
    by_cases hx : x = 0#5 <;> simp [Regfile.read, Regfile.reset, hx]
  · funext k
    cases k <;> rfl

theorem program_run (r : Run) (p : BitVec 12 → Option Instr) (t : Nat) (m : Machine)
    (hp : r.Loads p) (hl : ∀ u < t, r.LegalFetch u)
    (hm : Machine.run p (Machine.reset (Bytes.ofWords (r.st 0).dtcm.ram.memR)) (r.events t) =
      some m) : r.arch t = m :=
  (run_covers hp hl (r.arch_zero ▸ hm)).1

-- The program of `storeLoad`.
def storeLoadCode : List Instr :=
  [.opImm .addi 1#5 0#5 5#12, .lui 2#5 0x80000#20, .store .sw 2#5 1#5 0#12, .load .lw 3#5 2#5 0#12]

theorem storeLoad_loads : storeLoad.Loads fun a => storeLoadCode[a.toNat]? := by
  have hcode : storeLoadCode.map Instr.encode =
      [0x00500093#32, 0x80000137#32, 0x00112023#32, 0x00012183#32] := by decide
  intro a i hi
  change image _ a = _
  simp [image, ← hcode, hi]

theorem program_run_storeLoad : (storeLoad.arch 13).pc = 16#32 ∧
    (storeLoad.arch 13).x 3#5 = 5#32 ∧ (storeLoad.arch 13).mem 0#14 = 5#8 := by
  have hl : ∀ u < 13, storeLoad.LegalFetch u := by
    unfold LegalFetch
    decide +kernel
  have hm : (Machine.run (fun a => storeLoadCode[a.toNat]?)
      (Machine.reset (Bytes.ofWords (storeLoad.st 0).dtcm.ram.memR)) (storeLoad.events 13)).map
        (fun m => (m.pc, m.x 3#5, m.mem 0#14)) = some (16#32, 5#32, 5#8) := by decide +kernel
  obtain ⟨m, hm, hv⟩ := Option.map_eq_some_iff.mp hm
  rw [program_run storeLoad _ 13 m storeLoad_loads hl hm]
  simpa using hv

end Run

end HiCore
