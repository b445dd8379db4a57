import HiCore.Theorems.WriteBack
import HiCore.Trace.MemPath
import HiCore.Trace.Program

-- When the issue stage can stop for good. A store leaves it only while the
-- head pointer equals its own pointer, cancelled or not.
namespace HiCore

open SlotState

namespace Cpu

-- An empty reorder buffer and a free AGU register let any instruction issue.
def NoWedge (s : Cpu) : Prop :=
  s.rob.empty = true → s.aguPipeReady = true → s.de2ex.vld = true → s.de2issueReady = true

-- What the issue register holds after the cycle.
def held (s : Cpu) : Option (BitVec 176) :=
  if s.decodes then some s.iDe2issueInfo
  else if s.de2ex.vld && !s.issues then some s.deInfo else none

def isStore (info : BitVec 176) : Bool := Issue.aguSel info && (Issue.agu info).storeOp

-- The head pointer after a commit.
def nextHead (s : Cpu) : BitVec 4 := Ring.slot (s.rob.headPtr + 1#5)

-- A flush leaves no store behind with a pointer other than the new head.
def FlushSafe (s : Cpu) : Prop :=
  s.flush = true → ∀ info, s.held = some info → isStore info = true →
    Issue.robPtr info = s.nextHead

end Cpu

namespace Run

variable (r : Run)

theorem de2ex_succ (t : Nat) :
    ((r.st (t + 1)).de2ex.vld = true ↔ ∃ info, (r.st t).held = some info) ∧
      ∀ info, (r.st t).held = some info → (r.st (t + 1)).deInfo = info := by
  have hv : (r.st (t + 1)).de2ex.vld =
      ((r.st t).decodes || ((r.st t).de2ex.vld && !(r.st t).issues)) := Pipe.vld_next _ _ _
  have hi : (r.st (t + 1)).deInfo =
      dfflr (r.st t).decodes (r.st t).iDe2issueInfo (r.st t).deInfo := rfl
  rw [hv, hi, Cpu.held]
  cases (r.st t).decodes with
  | true => simp
  | false => cases (r.st t).de2ex.vld && !(r.st t).issues <;> simp

theorem cancel_succ (t : Nat) : (r.st (t + 1)).de2ex.cancel =
    ((r.st t).flush || if (r.st t).decodes then (r.st t).if2deCancel else (r.st t).de2ex.cancel) := by
  change dfflr ((r.st t).flush || (r.st t).decodes) (if (r.st t).flush then true else _) _ = _
  cases (r.st t).flush <;> cases (r.st t).decodes <;> rfl

-- Every unit but the AGU takes what it is given.
theorem de2issueReady_iff (t : Nat) (hv : (r.st t).de2ex.vld = true) :
    (r.st t).de2issueReady = true ↔
      (Issue.aguSel (r.st t).deInfo = true → (r.st t).aguPipeReady = true ∧
        (Cpu.isStore (r.st t).deInfo = true → Issue.robPtr (r.st t).deInfo = (r.st t).rob.head)) := by
  obtain ⟨d, -, hi⟩ := r.de2ex_of_vld t hv
  have hr : (r.st t).issues = (r.st t).de2issueReady := by simp [Cpu.issues, Pipe.vldClr, hv]
  rw [← hr, (r.issues_of_unit t d hv hi).1, Cpu.isStore, Cpu.aguReady, Cpu.aguPipeValid,
    Agu.iAgu2lsuValid, Cpu.aguValid, hi, (r.unitOf_of_sel d).2.2.1, hv]
  by_cases hu : r.unitOf d = .lsu
  · have hp : (Issue.agu (r.info d)).aguInfo.robPtr = Issue.robPtr (r.info d) := rfl
    have hs : (Issue.agu (r.info d)).storeOp = !(Issue.agu (r.info d)).loadOp := by
      rw [r.agu_info d hu]
      exact Decode.storeOp_of_lsu _ hu
    rw [if_pos hu, hs, hp]
    cases (Issue.agu (r.info d)).loadOp with
    | true => simp [hu]
    | false =>
      simp only [hu, decide_true, Bool.true_and, Bool.false_or, Bool.not_false, Bool.and_eq_true,
        beq_iff_eq, forall_const]
      exact ⟨fun h => ⟨h.2, h.1.symm⟩, fun h => ⟨h.2.symm, h.1⟩⟩
  · simp [hu]

-- An instruction that is not cancelled keeps the reorder buffer occupied.
theorem cancel_of_empty (t : Nat) (he : (r.st t).rob.empty = true)
    (hv : (r.st t).de2ex.vld = true) : (r.st t).de2ex.cancel = true := by
  by_contra hc
  obtain ⟨d, hd, -⟩ := r.de2ex_of_vld t hv
  have hm : d ∈ (r.tags t).inflight := by
    simp only [Tags.inflight, Multiset.mem_add, Fifo.mem_live]
    refine .inl (.inl (.inl (.inl (.inl ?_))))
    simpa [hd] using hc
  obtain ⟨hs, -⟩ := (r.tracked t).owner_of_mem (fun u _ => r.lawful u) d hm
  have hl := List.length_pos_of_mem (r.mem_of_mapped t _ hs)
  rw [Rob.window, Ring.length_window] at hl
  have := (Rob.empty_iff _).mp he
  rw [Rob.occupancy] at this
  omega

theorem tail_succ_of_flush (t : Nat) (hf : (r.st t).flush = true) :
    (r.st (t + 1)).rob.tail = (r.st t).nextHead ∧ (r.st (t + 1)).rob.head = (r.st t).nextHead ∧
      (r.st (t + 1)).rob.empty = true := by
  have hr : (r.st t).rob.ren (r.st t).robIn.commitValid = true := (r.legal t).flush_commit hf
  have hf' : (r.st t).robIn.flush = true := hf
  have hn : (r.st (t + 1)).rob = (r.st t).rob.next (r.st t).robIn := rfl
  rw [hn]
  simp [Rob.tail, Rob.head, Rob.empty, Rob.next, hf', hr, Cpu.nextHead, Ring.isEmpty]

theorem tail_succ_of_not_robWen (t : Nat) (hf : (r.st t).flush = false)
    (hw : (r.st t).robWen = false) : (r.st (t + 1)).rob.tail = (r.st t).rob.tail := by
  have hf' : (r.st t).robIn.flush = false := hf
  have hw' : (r.st t).robIn.issueWen = false := hw
  have hn : (r.st (t + 1)).rob = (r.st t).rob.next (r.st t).robIn := rfl
  rw [hn]
  simp [Rob.tail, Rob.next, hf', hw']

-- While every flush is safe, a cancelled store waits for the tail.
theorem robPtr_of_cancelled (h : ∀ t, (r.st t).FlushSafe) (t : Nat)
    (hv : (r.st t).de2ex.vld = true) (hc : (r.st t).de2ex.cancel = true)
    (hs : Cpu.isStore (r.st t).deInfo = true) :
    Issue.robPtr (r.st t).deInfo = (r.st t).rob.tail := by
  induction t with
  | zero => exact Bool.noConfusion hv
  | succ t ih =>
    obtain ⟨hvi, hinfo⟩ := r.de2ex_succ t
    obtain ⟨info, hheld⟩ := hvi.mp hv
    rw [hinfo info hheld] at hs ⊢
    cases hf : (r.st t).flush with
    | true =>
      rw [(r.tail_succ_of_flush t hf).1]
      exact h t hf info hheld hs
    | false =>
      rw [r.cancel_succ, hf, Bool.false_or] at hc
      rw [Cpu.held] at hheld
      cases hd : (r.st t).decodes with
      | true =>
        -- Decoded as cancelled: no entry, and the pointer is the tail.
        rw [hd, if_pos rfl] at hc hheld
        have hw : (r.st t).robWen = false := by simp [Cpu.robWen, hc]
        rw [r.tail_succ_of_not_robWen t hf hw, ← Option.some.inj hheld]
        exact Decode.robPtr_bus _ _
      | false =>
        rw [hd, if_neg Bool.false_ne_true] at hc hheld
        have hw : (r.st t).robWen = false := by
          rw [decodes_eq] at hd
          simp [Cpu.robWen, hd]
        rw [r.tail_succ_of_not_robWen t hf hw]
        split at hheld
        · next hv' =>
          obtain rfl := Option.some.inj hheld
          exact ih (Bool.and_eq_true_iff.mp hv').1 hc hs
        · exact absurd hheld (by simp)

theorem noWedge_of_flushSafe (h : ∀ t, (r.st t).FlushSafe) (t : Nat) : (r.st t).NoWedge := by
  intro he ha hv
  rw [r.de2issueReady_iff t hv]
  refine fun _ => ⟨ha, fun hs => ?_⟩
  have hp : (r.st t).rob.headPtr = (r.st t).rob.tailPtr := beq_iff_eq.mp he
  rw [r.robPtr_of_cancelled h t hv (r.cancel_of_empty t he hv) hs, Rob.tail, Rob.head, hp]

-- After an unsafe flush the reorder buffer is empty and the AGU register is
-- either free or cancelled, yet the store cannot leave.
theorem flushSafe_of_noWedge (t : Nat) (h : (r.st (t + 1)).NoWedge) : (r.st t).FlushSafe := by
  intro hf info hheld hs
  obtain ⟨hvi, hinfo⟩ := r.de2ex_succ t
  obtain ⟨-, hhead, hempty⟩ := r.tail_succ_of_flush t hf
  have hv := hvi.mpr ⟨info, hheld⟩
  have hcancel : (r.st (t + 1)).agu2lsu.cancel = true := by
    change dfflr ((r.st t).flush || _) (if (r.st t).flush then true else _) _ = true
    simp [hf]
  have hagu : (r.st (t + 1)).aguPipeReady = true := by
    simp [Cpu.aguPipeReady, Pipe.iRdy, Pipe.vldClr, Cpu.agu2lsuReady, Lsu.iAgu2lsuReady, hcancel]
  have hready := h hempty hagu hv
  rw [r.de2issueReady_iff _ hv, hinfo info hheld] at hready
  rw [← hhead]
  exact (hready (Bool.and_eq_true_iff.mp hs).1).2 hs

-- The stage has stopped: what it holds waits for a pointer that the empty
-- reorder buffer will never reach.
structure Wedged (t : Nat) : Prop where
  empty : (r.st t).rob.empty = true
  vld : (r.st t).de2ex.vld = true
  store : Cpu.isStore (r.st t).deInfo = true
  ptr : Issue.robPtr (r.st t).deInfo ≠ (r.st t).rob.head

theorem commits_of_empty (t : Nat) (h : (r.st t).rob.empty = true) : (r.st t).commits = false := by
  by_contra hc
  rw [Bool.not_eq_false] at hc
  have hpos := (r.wf t).occupancy_pos (i := (r.st t).robIn) hc
  have := (Rob.empty_iff _).mp h
  omega

theorem Wedged.succ {r : Run} {t : Nat} (h : r.Wedged t) : r.Wedged (t + 1) := by
  have hc := r.commits_of_empty t h.empty
  have hready : (r.st t).de2issueReady = false := by
    rw [← Bool.not_eq_true, r.de2issueReady_iff t h.vld]
    exact fun hn => h.ptr ((hn (Bool.and_eq_true_iff.mp h.store).1).2 h.store)
  have hd : (r.st t).decodes = false := by
    rw [decodes_eq, Cpu.deReady, Pipe.iRdy, Pipe.vldClr, hready, h.vld]
    simp
  have hw : (r.st t).robWen = false := by
    rw [decodes_eq] at hd
    simp [Cpu.robWen, hd]
  have hheld : (r.st t).held = some (r.st t).deInfo := by
    simp [Cpu.held, hd, h.vld, Cpu.issues, Pipe.vldClr, hready]
  obtain ⟨hv, hi⟩ := r.de2ex_succ t
  have hi' := hi _ hheld
  have hhead := r.head_succ_of_not_commits t hc
  refine ⟨?_, hv.mpr ⟨_, hheld⟩, hi'.symm ▸ h.store, ?_⟩
  · have hf : (r.st t).robIn.flush = false := flush_of_not_commits _ hc
    have hi : (r.st t).robIn.issueWen = false := hw
    have hr : (r.st t).rob.ren (r.st t).robIn.commitValid = false := hc
    have hn : (r.st (t + 1)).rob = (r.st t).rob.next (r.st t).robIn := rfl
    have he := h.empty
    rw [Rob.empty] at he ⊢
    simpa [hn, Rob.next, hf, hi, hr] using he
  · rw [hi', hhead]
    exact h.ptr

-- From then on nothing commits.
theorem Wedged.forever {r : Run} {t : Nat} (h : r.Wedged t) (u : Nat) (htu : t ≤ u) :
    (r.st u).commits = false := by
  have hu : r.Wedged u := by
    induction u, htu using Nat.le_induction with
    | base => exact h
    | succ u _ ih => exact ih.succ
  exact r.commits_of_empty u hu.empty

theorem issue_never_wedges_iff (r : Run) :
    (∀ t, (r.st t).NoWedge) ↔ ∀ t, (r.st t).FlushSafe :=
  ⟨fun h t => r.flushSafe_of_noWedge t (h (t + 1)), fun h t => r.noWedge_of_flushSafe h t⟩

-- `ecall; addi x0,x0,0; sw x0,0(x0)`: the store is decoded in the cycle in which
-- the ecall commits, with pointer 2 while the new head is 1.
theorem strandedStore_wedges :
    ¬ ((Run.program false [0x00000073#32, 0x00000013#32, 0x00002023#32]).st 4).NoWedge := by
  unfold Cpu.NoWedge
  decide +kernel

end Run

end HiCore
