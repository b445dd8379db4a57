import HiCore.Theorems.Interrupt
import HiCore.Theorems.Liveness
import HiCore.Theorems.Trap

-- The interrupts: which one is taken behind which instruction, and that one which stays enabled is
-- taken in a bounded time. A line is looked at when an instruction is decoded, the masks when it
-- commits.
namespace HiCore

inductive IrqLine where
  | soft | timer | ext
  deriving DecidableEq

namespace IrqLine

-- The bit in mie and mip, which is the cause too.
def bit : IrqLine → Nat
  | soft => 3
  | timer => 7
  | ext => 11

end IrqLine

namespace Cpu

def irqLevel (s : Cpu) : IrqLine → Bool
  | .soft => s.clint.mSoftIrq
  | .timer => s.clint.mTimeIrq
  | .ext => s.plic.plicExtIrq

def irqEnabled (s : Cpu) (l : IrqLine) : Bool := s.csr.statusMie && s.csr.mie.getLsbD l.bit

end Cpu

theorem deIrq_and (e t s m : Bool) (x : BitVec 32) :
    Decode.deIrq e t s &&& (rep 12 m &&& x.extractLsb' 0 12) =
      Decode.deIrq (e && (m && x.getLsbD 11)) (t && (m && x.getLsbD 7))
        (s && (m && x.getLsbD 3)) := by
  have hlow : ∀ i < 12, (x.extractLsb' 0 12).getLsbD i = x.getLsbD i := by
    intro i hi
    simp [hi]
  have hbit : ∀ e t s : Bool, ∀ i < 12, (Decode.deIrq e t s).getLsbD i =
      (if i = 11 then e else if i = 7 then t else if i = 3 then s else false) := by decide
  rw [← hlow 11 (by decide), ← hlow 7 (by decide), ← hlow 3 (by decide), rep_and]
  generalize x.extractLsb' 0 12 = y
  cases m with
  | false => simp [Decode.deIrq]
  | true =>
    refine BitVec.eq_of_getLsbD_eq fun i hi => ?_
    rw [if_pos rfl, BitVec.getLsbD_and, hbit _ _ _ i hi, hbit _ _ _ i hi]
    by_cases h11 : i = 11
    · subst h11
      simp
    by_cases h7 : i = 7
    · subst h7
      simp
    by_cases h3 : i = 3
    · subst h3
      simp
    · simp [h11, h7, h3]

theorem lowestIdx_deIrq : ∀ e t s : Bool,
    (if Decode.deIrq e t s = 0#12 then none
      else some (Csr.lowestIdx (0#4 ++ Decode.deIrq e t s))) =
      if s then some 3#4 else if t then some 7#4 else if e then some 11#4 else none := by
  decide

namespace Run

open Progress

variable (r : Run)

-- The instruction that commits in cycle `c` has seen the line, and it is enabled now.
def takes (c : Nat) (l : IrqLine) : Bool :=
  (r.st (r.decodeOf c)).irqLevel l && (r.st c).irqEnabled l

-- The cause. Where several apply, the first counts.
def irqCause (c : Nat) : Option (BitVec 4) :=
  if r.takes c .soft then some 3#4
  else if r.takes c .timer then some 7#4
  else if r.takes c .ext then some 11#4
  else none

theorem irqCause_ne_none {c : Nat} {l : IrqLine} (h : r.takes c l = true) :
    r.irqCause c ≠ none := by
  rw [irqCause]
  split
  · simp
  split
  · simp
  split
  · simp
  · cases l <;> contradiction

theorem irq_of_commits (c : Nat) (hc : (r.st c).commits = true) :
    (r.st c).commitIn.info.irq = (r.st (r.decodeOf c)).operands.irq := by
  have hi : (r.st c).commitIn.info = r.resultInfo (r.decodeOf c) := r.info_of_commits c hc
  rw [hi]
  by_cases hu : r.unitOf (r.decodeOf c) = .lsu
  · rw [r.resultInfo_of_lsu _ hu, aguOf, r.agu_info _ hu]
    rfl
  · rw [r.resultInfo_of_ne _ hu]
    exact congrArg WbInfo.irq (Decode.wbInfo_bus _ _)

theorem csrIrq_eq (c : Nat) (hc : (r.st c).commits = true) :
    Commit.csrIrq (r.st c).commitIn =
      Decode.deIrq (r.takes c .ext) (r.takes c .timer) (r.takes c .soft) := by
  rw [Commit.csrIrq, r.irq_of_commits c hc]
  exact deIrq_and _ _ _ _ _

theorem irqAt_eq (c : Nat) (hc : (r.st c).commits = true)
    (hx : (r.st c).commitIn.info.excp = 0#16) : r.irqAt c = r.irqCause c := by
  have hk := lowestIdx_deIrq (r.takes c .ext) (r.takes c .timer) (r.takes c .soft)
  rw [← r.csrIrq_eq c hc] at hk
  rw [irqCause, ← hk]
  by_cases hq : Commit.csrIrq (r.st c).commitIn = 0#12
  · rw [irqAt_of_calm hq, if_pos hq]
  · rw [irqAt_of_irq hc hx hq, if_neg hq]
    rfl

theorem of_irqAt (c : Nat) (h : r.irqAt c ≠ none) : (r.st c).commits = true ∧
    (r.st c).commitIn.info.excp = 0#16 ∧ Commit.csrIrq (r.st c).commitIn ≠ 0#12 := by
  rw [irqAt] at h
  split at h
  · next hcond =>
    rw [Bool.and_eq_true, Bool.and_eq_true, beq_iff_eq, bne_iff_ne] at hcond
    exact ⟨hcond.1.1, hcond.1.2, hcond.2⟩
  · exact absurd rfl h

theorem irq_entry (r : Run) (c : Nat) (hc : (r.st c).commits = true) :
    ((r.st c).commitIn.info.excp = 0#16 → r.irqAt c = r.irqCause c) ∧
    ∀ code, r.irqAt c = some code →
      (r.st c).flush = true ∧ (r.st c).flushPc = (r.st c).csr.mtvec ∧
      (r.st (c + 1)).csr.mepc = (r.st c).commitNextPc ∧
      (r.st (c + 1)).csr.mcause = 1#1 ++ 0#27 ++ code ∧
      (r.st (c + 1)).csr.statusMpie = (r.st c).csr.statusMie ∧
      (r.st (c + 1)).csr.statusMie = false := by
  refine ⟨r.irqAt_eq c hc, fun code hs => ?_⟩
  obtain ⟨-, hx, hq⟩ := r.of_irqAt c (by rw [hs]; simp)
  rw [irqAt_of_irq hc hx hq] at hs
  have hc' : Commit.commits (r.st c).commitIn = true := hc
  have hi : Commit.irqEn (r.st c).commitIn = true := by simp [Commit.irqEn, hc', hq]
  have hv : (r.st c).csrIn.commit.valid = true := hc
  have hn : (r.st c).csrIn.commit.irq ≠ 0#12 := hq
  have hen : Csr.irqEn (r.st c).csrIn.commit = true := by simp [Csr.irqEn, hv, hn]
  have hreg := Csr.reg_next_of_not_excp (r.st c).csr (r.st c).csrIn hv hx
  have hena : Csr.statusMieEna (r.st c).csrIn.commit = true := by simp [Csr.statusMieEna, hen]
  refine ⟨by simp [Cpu.flush, Commit.flush, hc', hi], ?_, ?_, ?_, ?_, ?_⟩
  · rw [Cpu.flushPc, Commit.flushPc, hi, Bool.or_true, if_pos rfl]
    rfl
  · refine (hreg .mepc).trans ?_
    rw [if_pos ⟨hn, rfl⟩]
    rfl
  · refine (hreg .mcause).trans ?_
    rw [if_neg (by simp), if_pos ⟨hn, rfl⟩, ← Option.some.inj hs]
    rfl
  · change dfflr _ ((r.st c).csr.statusMpieNxt _) _ = _
    rw [hena, Csr.statusMpieNxt, hen, Bool.or_true, if_pos rfl]
    rfl
  · change dfflr _ ((r.st c).csr.statusMieNxt _) _ = _
    rw [hena, Csr.statusMieNxt, hen, Bool.or_true, if_pos rfl]
    rfl

-- The timer interrupt behind an addi.
theorem irq_entry_timer : (timerOn 0x00000013#32).irqAt 10 = some 7#4 ∧
    ((timerOn 0x00000013#32).st 11).csr.mcause = 0x80000007#32 := by
  have h : ((timerOn 0x00000013#32).st 10).commits = true ∧
      (timerOn 0x00000013#32).irqAt 10 = some 7#4 := by decide +kernel
  exact ⟨h.2, ((irq_entry (timerOn 0x00000013#32) 10 h.1).2 7#4 h.2).2.2.2.1⟩

variable {r} {t u : Nat}

theorem older_succ_le (htu : t ≤ u) : r.older t (u + 1) ≤ r.older t u := by
  cases hf : (r.st u).flush with
  | true =>
    rw [older, pending_succ, hf, if_pos rfl]
    exact Nat.zero_le _
  | false =>
    have := r.older_succ htu hf
    omega

theorem older_mono {v : Nat} (htu : t ≤ u) (huv : u ≤ v) : r.older t v ≤ r.older t u := by
  induction v, huv using Nat.le_induction with
  | base => exact Nat.le_refl _
  | succ v huv ih => exact (older_succ_le (htu.trans huv)).trans ih

theorem older_succ_lt (htu : t ≤ u) (hc : (r.st u).commits = true) (hd : r.decodeOf u < t) :
    r.older t (u + 1) < r.older t u := by
  cases hf : (r.st u).flush with
  | true =>
    obtain ⟨rest, hp⟩ := r.pending_eq_cons u hc
    have hzero : r.older t (u + 1) = 0 := by
      rw [older, pending_succ, hf, if_pos rfl]
      rfl
    rw [hzero, older, List.countP_pos_iff]
    exact ⟨r.decodeOf u, by rw [hp]; exact List.mem_cons_self, decide_eq_true hd⟩
  | false =>
    have := r.older_succ htu hf
    rw [decodeOf] at hd
    rw [hc, decide_eq_true hd, Bool.and_self, Bool.toNat_true] at this
    omega

-- The entries that are there now are gone in a bounded time, and then a younger one commits.
theorem commits_younger {T : Nat} (hc : ∀ v ≤ T, r.Commits 31 v) (k : Nat) (htu : t ≤ u)
    (hk : r.older t u ≤ k) (hT : u + (32 * k + 31) ≤ T) :
    Within (fun v => (r.st v).commits = true ∧ t ≤ r.decodeOf v) (32 * k + 31) u := by
  induction k generalizing u with
  | zero =>
    obtain ⟨v, huv, hv, hcv⟩ := hc u (by omega)
    refine ⟨v, huv, hv, hcv, ?_⟩
    by_contra hd
    have h1 := older_succ_lt (htu.trans huv) hcv (by omega)
    have h2 := older_mono (r := r) htu huv
    omega
  | succ k ih =>
    obtain ⟨v, huv, hv, hcv⟩ := hc u (by omega)
    by_cases hd : t ≤ r.decodeOf v
    · exact ⟨v, huv, by omega, hcv, hd⟩
    have h1 := older_succ_lt (htu.trans huv) hcv (by omega)
    have h2 := older_mono (r := r) htu huv
    obtain ⟨w, hvw, hw, hp⟩ := ih (u := v + 1) (by omega) (by omega) (by omega)
    exact ⟨w, by omega, by omega, hp⟩

theorem irq_latency (r : Run) (l : IrqLine) (t n : Nat) (hn : (r.rob.pending t).length ≤ n)
    (hl : ∀ u ≤ t + 32 * n + 62, r.LegalFetch u) (hw : ∀ u ≤ t + 32 * n + 62, ¬ r.Wedged u) :
    ∃ u, t ≤ u ∧ u ≤ t + 32 * (n + 1) ∧
      (r.irqAt u ≠ none ∨ ((r.st u).irqLevel l && (r.st u).irqEnabled l) = false) := by
  have hc : ∀ v ≤ t + (32 * n + 31), r.Commits 31 v := by
    intro v hv
    rcases commits_or_wedged (t := v) fun u hu => hl u (by omega) with h | ⟨u, -, hu, hwu⟩
    · exact h
    · exact absurd hwu (hw u (by omega))
  obtain ⟨u, htu, hu, hcu, hd⟩ := commits_younger hc n (Nat.le_refl t)
    (List.countP_le_length.trans hn) (Nat.le_refl _)
  have hdu : r.decodeOf u < u := r.owner_lt u _ (r.head_mem u hcu)
  by_contra hno
  have hall : ∀ v, t ≤ v → v ≤ t + 32 * (n + 1) →
      r.irqAt v = none ∧ ((r.st v).irqLevel l && (r.st v).irqEnabled l) = true := by
    intro v htv hv
    by_contra hn
    refine hno ⟨v, htv, hv, ?_⟩
    by_cases hi : r.irqAt v = none
    · right
      rw [← Bool.not_eq_true]
      exact fun h => hn ⟨hi, h⟩
    · exact .inl hi
  have htakes : r.takes u l = true := by
    have h1 := (hall (r.decodeOf u) hd (by omega)).2
    have h2 := (hall u htu (by omega)).2
    rw [Bool.and_eq_true] at h1 h2
    rw [takes, h1.1, h2.2]
    rfl
  by_cases hx : (r.st u).commitIn.info.excp = 0#16
  · have hi := (hall u htu (by omega)).1
    rw [r.irqAt_eq u hcu hx] at hi
    exact r.irqCause_ne_none htakes hi
  · -- An exception switches the interrupts off.
    have h := (hall (u + 1) (by omega) (by omega)).2
    have hv : (r.st u).csrIn.commit.valid = true := hcu
    have hx' : (r.st u).csrIn.commit.excp ≠ 0#16 := hx
    have he : Csr.excpEn (r.st u).csrIn.commit = true := by simp [Csr.excpEn, hv, hx']
    have hoff : (r.st (u + 1)).csr.statusMie = false := by
      change dfflr (Csr.statusMieEna _) ((r.st u).csr.statusMieNxt _) _ = _
      rw [Csr.statusMieEna, Csr.statusMieNxt, he]
      simp
    rw [Cpu.irqEnabled, hoff] at h
    simp at h

-- The second `csrrsi` waits for the first, so the masks are set when the instructions behind it are
-- decoded.
theorem timerOn_regular : ∀ u < 139, (timerOn 0x30046073#32).LegalFetch u ∧
    (Cpu.isStore ((timerOn 0x30046073#32).st u).deInfo = true →
      ((timerOn 0x30046073#32).st u).rob.empty = false) := by
  unfold LegalFetch
  decide +kernel

-- Two of them are in the reorder buffer.
theorem irq_latency_timer :
    ((timerOn 0x30046073#32).rob.pending 12 = [10, 11] ∧
      (((timerOn 0x30046073#32).st 12).irqLevel .timer &&
        ((timerOn 0x30046073#32).st 12).irqEnabled .timer) = true) ∧
    ∃ u, 12 ≤ u ∧ u ≤ 108 ∧ ((timerOn 0x30046073#32).irqAt u ≠ none ∨
      (((timerOn 0x30046073#32).st u).irqLevel .timer &&
        ((timerOn 0x30046073#32).st u).irqEnabled .timer) = false) := by
  have h : (timerOn 0x30046073#32).rob.pending 12 = [10, 11] ∧
      (((timerOn 0x30046073#32).st 12).irqLevel .timer &&
        ((timerOn 0x30046073#32).st 12).irqEnabled .timer) = true := by decide +kernel
  refine ⟨h, irq_latency (timerOn 0x30046073#32) .timer 12 2 (by rw [h.1]; decide)
    (fun u hu => (timerOn_regular u (by omega)).1) fun u hu hw => ?_⟩
  exact Bool.noConfusion (((timerOn_regular u (by omega)).2 hw.store).symm.trans hw.empty)

end Run

end HiCore
