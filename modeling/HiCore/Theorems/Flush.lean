import HiCore.Theorems.Stores
import HiCore.Trace.Fetch

-- A flush is precise: what was behind the committing instruction leaves no trace.
namespace HiCore.Run

open Rob (WbUnit)
open SlotState

variable (r : Run)

-- Instruction `d` was in decode in cycle `t` or before. It may have been there
-- for some time before decode accepted it.
def EnteredDecode (t d : Nat) : Prop :=
  d ≤ t ∨ ∃ e ≤ t, (r.st e).if2deValid = true ∧ r.fetchOf e = r.fetchOf d

-- Instruction `d` changes the state in cycle `t`.
inductive Effect (t d : Nat) : Prop
  | writeback (u : WbUnit) (n : BitVec 4) (hits : ((r.st t).robIn.port u).hits n = true)
      (writer : Fifo.tags ((r.tags t).writer (r.st t) u) = [d])
      (state : (r.st (t + 1)).rob.state n = WRITEBACK_S)
  | register (wen : (r.st t).regWen = true) (head : r.owner t (r.st t).rob.head = d)
  | csr (wen : (r.st t).csrWrEn = true) (head : r.owner t (r.st t).rob.head = d)
  | store (sends : r.Sends t d) (write : (r.st t).lsuCmd.read = false)

-- What is in front of decode and not cancelled was fetched after the flush.
theorem lt_inFront_of_flush (T : Nat) (hf : (r.st T).flush = true) (t f : Nat) (hT : T < t)
    (h : r.inFront t f false) : T < f := by
  induction t, hT using Nat.le_induction with
  | base =>
    obtain ⟨c', hc, -⟩ := r.inFront_succ T f false h
    simp [Cpu.redirects, hf] at hc
  | succ t hT ih =>
    obtain ⟨c', hc, rfl | ho⟩ := r.inFront_succ t f false h
    · exact hT
    · obtain ⟨rfl, -⟩ := Bool.or_eq_false_iff.mp hc.symm
      exact ih ho

-- Every entry after a flush was fetched after it.
theorem lt_fetchOf_owner (T : Nat) (hf : (r.st T).flush = true) (t : Nat) (hT : T < t)
    (n : BitVec 4) (hm : n ∈ (r.st t).rob.window) : T < r.fetchOf (r.owner t n) := by
  have hw := r.robWen_owner t n hm
  obtain ⟨hv, hc, hnf⟩ := if2deValid_of_robWen _ hw
  have hd : T < r.owner t n := by
    rcases Nat.lt_trichotomy (r.owner t n) T with hlt | heq | hgt
    · -- An older entry would have to survive the flush.
      obtain ⟨hm', -⟩ := r.live_between (T + 1) t n hm (Nat.lt_succ_of_lt hlt) hT
      rw [(r.mem_window_succ T n hm').1] at hf
      exact Bool.noConfusion hf
    · rw [heq, hf] at hnf
      exact Bool.noConfusion hnf
    · exact hgt
  have hfr := r.inFront_fetchOf _ hv
  rw [hc] at hfr
  exact r.lt_inFront_of_flush T hf _ _ hd hfr

-- Every effect is that of an entry of the reorder buffer.
theorem Effect.owner {r : Run} {t d : Nat} (h : r.Effect t d) :
    ∃ n ∈ (r.st t).rob.window, r.owner t n = d := by
  cases h with
  | writeback u n hits writer state =>
    obtain ⟨hs, hd⟩ := r.owner_of_hits t u n hits
    rw [hd.writer] at writer
    exact ⟨n, r.mem_of_mapped t n hs, List.singleton_inj.mp writer⟩
  | register wen head =>
    simp only [Cpu.regWen, Commit.regWen, Bool.and_eq_true] at wen
    exact ⟨_, r.head_mem t wen.1.1, head⟩
  | csr wen head =>
    simp only [Cpu.csrWrEn, Csr.csrWrEn, Bool.and_eq_true] at wen
    exact ⟨_, r.head_mem t wen.1.1, head⟩
  | store sends write =>
    obtain ⟨⟨hu, -⟩, hc⟩ := sends.cmd
    rw [hc] at write
    obtain ⟨a, ha, -, hall⟩ := sends.aguTakes ((r.isStore_iff d hu).mpr write)
    have hw := hall t ha.le (Nat.le_refl t)
    exact ⟨_, hw.mem, hw.owner⟩

-- In the cycle of the flush itself only the committing instruction acts.
theorem Effect.head_of_flush {r : Run} {t d : Nat} (h : r.Effect t d) (hf : (r.st t).flush = true) :
    r.owner t (r.st t).rob.head = d := by
  cases h with
  | writeback u n hits writer state =>
    have he : ((r.st t).rob.next (r.st t).robIn).state n = WRITEBACK_S := state
    cases Rob.slotStep_of_flush (r.legal t) hf n with
    | free out state => exact SlotState.noConfusion (state.symm.trans he)
    | fresh noFlush | kept noFlush | written noFlush =>
      exact Bool.noConfusion (noFlush.symm.trans hf)
  | register wen head => exact head
  | csr wen head => exact head
  | store sends write =>
    obtain ⟨⟨hu, -⟩, hc⟩ := sends.cmd
    rw [hc] at write
    obtain ⟨a, ha, -, hall⟩ := sends.aguTakes ((r.isStore_iff d hu).mpr write)
    exact (hall t ha.le (Nat.le_refl t)).owner

theorem no_write_of_excp (s : Cpu) (h : (s.rob.info s.rob.head).excp ≠ 0#16) :
    s.regWen = false ∧ s.csrWrEn = false := by
  have h' : s.commitIn.info.excp ≠ 0#16 := h
  cases hc : Commit.commits s.commitIn <;>
    simp [Cpu.regWen, Cpu.csrWrEn, Commit.regWen, Commit.excpEn, Csr.csrWrEn, Csr.excpEn,
      Commit.toCsr, hc, h']

theorem precise_flush (r : Run) (T : Nat) (hf : (r.st T).flush = true) :
    (∀ d, r.owner T (r.st T).rob.head < d → r.EnteredDecode T d →
      ∀ t, T ≤ t → ¬ r.Effect t d) ∧
    (((r.st T).rob.info (r.st T).rob.head).excp ≠ 0#16 →
      (r.st T).regWen = false ∧ (r.st T).csrWrEn = false) := by
  refine ⟨fun d hy he t hT heff => ?_, no_write_of_excp _⟩
  rcases Nat.lt_or_eq_of_le hT with hlt | rfl
  · obtain ⟨n, hm, rfl⟩ := heff.owner
    have hafter := r.lt_fetchOf_owner T hf t hlt n hm
    rcases he with hd | ⟨e, he, hv, hsame⟩
    · have := r.fetchOf_lt _ (if2deValid_of_robWen _ (r.robWen_owner t n hm)).1
      omega
    · have := r.fetchOf_lt e hv
      omega
  · have := heff.head_of_flush hf
    omega

-- `ecall; addi x1,x0,1`: the addi is decoded in cycle 2, before the flush.
theorem flush_at_ecall :
    (Run.program false [0x00000073#32, 0x00100093#32]).EnteredDecode 3 2 ∧ ∀ t, 3 ≤ t →
      ¬ (Run.program false [0x00000073#32, 0x00100093#32]).Effect t 2 := by
  have hd : (Run.program false [0x00000073#32, 0x00100093#32]).EnteredDecode 3 2 :=
    .inl (by decide)
  refine ⟨hd, ?_⟩
  exact (precise_flush (Run.program false [0x00000073#32, 0x00100093#32]) 3 (by decide +kernel)).1 2
    (by decide +kernel) hd

end HiCore.Run
