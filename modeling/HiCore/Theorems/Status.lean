import HiCore.Trace.Program

-- The MIE and MPIE bits of mstatus between commits. The mret flag that the csr
-- unit sees is the flag of the slot under the head pointer, whatever its state.
namespace HiCore

namespace Cpu

-- The flag of the slot under the head pointer.
def headMret (s : Cpu) : Bool := (s.rob.issue s.rob.head).mretOp

-- An mret commits, with neither exception nor interrupt.
def mretCommits (s : Cpu) : Prop :=
  s.commits = true ∧ s.headMret = true ∧ (s.rob.info s.rob.head).excp = 0#16 ∧
    Commit.csrIrq s.commitIn = 0#12

-- The flag is down, or the two bits are already what an mret would leave.
def StatusQuiet (s : Cpu) : Prop :=
  s.headMret = false ∨ (s.csr.statusMie = true ∧ s.csr.statusMpie = true)

theorem status_step (s : Cpu) (p : Pins) (h : s.commits = false) :
    (s.step p).csr.statusMie = (if s.headMret then s.csr.statusMpie else s.csr.statusMie) ∧
      (s.step p).csr.statusMpie = (s.headMret || s.csr.statusMpie) := by
  have hv : (Commit.toCsr s.commitIn).valid = false := h
  have hm : (Commit.toCsr s.commitIn).mretOp = s.headMret := rfl
  have hn : (s.step p).csr = s.csr.next s.csrIn := rfl
  have hi : s.csrIn.commit = Commit.toCsr s.commitIn := rfl
  rw [hn]
  cases hr : s.headMret <;>
    simp [Csr.next, Csr.statusMieEna, Csr.statusMieNxt, Csr.statusMpieNxt, Csr.excpEn, Csr.irqEn,
      Csr.wr, Csr.csrWrEn, hi, hv, hm, hr]

theorem status_kept_iff (s : Cpu) (p : Pins) (h : s.commits = false) :
    ((s.step p).csr.statusMie = s.csr.statusMie ∧ (s.step p).csr.statusMpie = s.csr.statusMpie) ↔
      s.StatusQuiet := by
  obtain ⟨h1, h2⟩ := status_step s p h
  rw [h1, h2, StatusQuiet]
  cases s.headMret <;> cases s.csr.statusMie <;> cases s.csr.statusMpie <;> simp

theorem status_of_mretCommits (s : Cpu) (p : Pins) (h : s.mretCommits) :
    (s.step p).csr.statusMie = s.csr.statusMpie ∧ (s.step p).csr.statusMpie = true := by
  obtain ⟨-, hm, he, hq⟩ := h
  have he' : (Commit.toCsr s.commitIn).excp = 0#16 := he
  have hq' : (Commit.toCsr s.commitIn).irq = 0#12 := hq
  have hm' : (Commit.toCsr s.commitIn).mretOp = true := hm
  have hn : (s.step p).csr = s.csr.next s.csrIn := rfl
  have hi : s.csrIn.commit = Commit.toCsr s.commitIn := rfl
  rw [hn]
  simp [Csr.next, Csr.statusMieEna, Csr.statusMieNxt, Csr.statusMpieNxt, Csr.excpEn, Csr.irqEn,
    hi, he', hq', hm']

end Cpu

namespace Run

-- mstatus changes only when an instruction commits, and an mret that commits
-- moves the MPIE of the commit before it into MIE.
def StatusByCommit (r : Run) : Prop :=
  (∀ t, (r.st t).commits = false →
    (r.st (t + 1)).csr.statusMie = (r.st t).csr.statusMie ∧
      (r.st (t + 1)).csr.statusMpie = (r.st t).csr.statusMpie) ∧
  (∀ q t, q < t → (r.st q).commits = true →
    (∀ u, q < u → u < t → (r.st u).commits = false) → (r.st t).mretCommits →
    (r.st (t + 1)).csr.statusMie = (r.st (q + 1)).csr.statusMpie ∧
      (r.st (t + 1)).csr.statusMpie = true)

theorem statusMpie_between (r : Run) (p t : Nat) (hpt : p ≤ t)
    (hn : ∀ u, p ≤ u → u < t → (r.st u).commits = false)
    (hk : ∀ u, (r.st u).commits = false → (r.st (u + 1)).csr.statusMpie = (r.st u).csr.statusMpie) :
    (r.st t).csr.statusMpie = (r.st p).csr.statusMpie := by
  induction t, hpt using Nat.le_induction with
  | base => rfl
  | succ t hpt ih =>
    rw [hk t (hn t hpt (Nat.lt_succ_self t))]
    exact ih fun u hu hut => hn u hu (Nat.lt_succ_of_lt hut)

theorem statusByCommit_iff (r : Run) :
    r.StatusByCommit ↔ ∀ t, (r.st t).commits = false → (r.st t).StatusQuiet := by
  constructor
  · intro h t hc
    exact ((r.st t).status_kept_iff (r.pins t) hc).mp (h.1 t hc)
  · intro h
    have hk : ∀ t, (r.st t).commits = false →
        (r.st (t + 1)).csr.statusMie = (r.st t).csr.statusMie ∧
          (r.st (t + 1)).csr.statusMpie = (r.st t).csr.statusMpie :=
      fun t hc => ((r.st t).status_kept_iff (r.pins t) hc).mpr (h t hc)
    refine ⟨hk, fun q t hqt _ hn hm => ?_⟩
    obtain ⟨h1, h2⟩ := (r.st t).status_of_mretCommits (r.pins t) hm
    refine ⟨h1.trans ?_, h2⟩
    exact r.statusMpie_between (q + 1) t hqt (fun u hu hut => hn u hu hut) fun u hu => (hk u hu).2

-- A single `mret`: its flag is under the head pointer one cycle before it
-- commits, and MPIE is set in that cycle.
theorem loneMret_sets_status : ¬ (Run.program false [0x30200073#32]).StatusByCommit := by
  intro h
  have hk := (h.1 2 (by decide +kernel)).2
  exact absurd hk (by decide +kernel)

end Run

end HiCore
