import HiCore.Trace.MemPath

-- Entries at the front of the reorder buffer that have their results commit one a cycle, until one
-- of them flushes. Whether one does can be told from the registers beforehand.
namespace HiCore

open SlotState

-- The registers that decide which interrupts are enabled.
structure Enables where
  statusMie : Bool
  mie : BitVec 32

namespace Enables

def irqMsk (x : Enables) : BitVec 12 := rep 12 x.statusMie &&& x.mie.extractLsb' 0 12

-- What the commit of entry `n` makes of them when it does not flush.
def commit (s : Cpu) (x : Enables) (n : BitVec 4) : Enables where
  statusMie := if (s.rob.issue n).csrNeed && (s.rob.issue n).csrIdx == Csr.mstatusIdx
    then (s.rob.csrData n).getLsbD 3 else x.statusMie
  mie := if (s.rob.issue n).csrNeed && (s.rob.issue n).csrIdx == Csr.mieIdx
    then Csr.irqBits ((s.rob.csrData n).getLsbD 11) ((s.rob.csrData n).getLsbD 7)
      ((s.rob.csrData n).getLsbD 3)
    else x.mie

end Enables

namespace Cpu

def enables (s : Cpu) : Enables := { statusMie := s.csr.statusMie, mie := s.csr.mie }

-- The interrupts that are enabled when the entries `older` have committed.
def irqMskAfter (s : Cpu) (older : List (BitVec 4)) : BitVec 12 :=
  (older.foldl (Enables.commit s) s.enables).irqMsk

-- Entry `n`, which has the entries `older` in front of it, has its result, and nothing in it is a
-- reason for a flush.
structure Quiet (s : Cpu) (older : List (BitVec 4)) (n : BitVec 4) : Prop where
  state : s.rob.state n = WRITEBACK_S
  excp : (s.rob.info n).excp = 0#16
  irq : (s.rob.info n).irq &&& s.irqMskAfter older = 0#12
  fenceI : (s.rob.issue n).fenceIOp = false
  mret : (s.rob.issue n).mretOp = false

-- The entries `l` at the front of the reorder buffer are quiet, each behind the ones before it.
def QuietFront (s : Cpu) (l : List (BitVec 4)) : Prop :=
  ∀ older n younger, l = older ++ n :: younger → s.Quiet older n

-- Entry `n` is the same in both states.
structure SameEntry (s s' : Cpu) (n : BitVec 4) : Prop where
  state : s'.rob.state n = s.rob.state n
  issue : s'.rob.issue n = s.rob.issue n
  info : s'.rob.info n = s.rob.info n
  csrData : s'.rob.csrData n = s.rob.csrData n

namespace SameEntry

variable {s s' s'' : Cpu} {n : BitVec 4}

theorem trans (h : s.SameEntry s' n) (h' : s'.SameEntry s'' n) : s.SameEntry s'' n :=
  ⟨h'.state.trans h.state, h'.issue.trans h.issue, h'.info.trans h.info,
    h'.csrData.trans h.csrData⟩

theorem commit (h : s.SameEntry s' n) (x : Enables) :
    Enables.commit s' x n = Enables.commit s x n := by
  rw [Enables.commit, Enables.commit, h.issue, h.csrData]

theorem quiet_iff (h : s.SameEntry s' n) {older older' : List (BitVec 4)}
    (hm : s'.irqMskAfter older' = s.irqMskAfter older) : s'.Quiet older' n ↔ s.Quiet older n := by
  constructor
  · rintro ⟨hs, hx, hi, hf, hr⟩
    rw [h.state] at hs
    rw [h.info] at hx hi
    rw [h.issue] at hf hr
    exact ⟨hs, hx, hm ▸ hi, hf, hr⟩
  · rintro ⟨hs, hx, hi, hf, hr⟩
    rw [← h.state] at hs
    rw [← h.info] at hx hi
    rw [← h.issue] at hf hr
    exact ⟨hs, hx, hm ▸ hi, hf, hr⟩

end SameEntry

end Cpu

namespace Run

variable (r : Run)

theorem head_of_window (t : Nat) (n : BitVec 4) (l : List (BitVec 4))
    (h : (r.st t).rob.window = n :: l) : (r.st t).rob.head = n := by
  have hpos := congrArg List.length h
  rw [Rob.window, Ring.length_window] at hpos
  obtain ⟨rest, hr, -⟩ := (r.wf t).window_eq_cons (by rw [Rob.occupancy, hpos]; exact Nat.succ_pos _)
  rw [hr, List.cons.injEq] at h
  exact h.1

-- The head flushes by what its own entry says and by what is enabled now.
theorem flush_iff_quiet (t : Nat) (h : (r.st t).commits = true) :
    (r.st t).flush = false ↔ (r.st t).Quiet [] (r.st t).rob.head := by
  have hm : (r.st t).commitIn.irqMsk = (r.st t).irqMskAfter [] := rfl
  rw [not_flush_iff _ h, Commit.csrIrq, hm]
  constructor
  · rintro ⟨hexcp, hirq, hfence, hmret⟩
    exact ⟨Rob.ren_state (i := (r.st t).robIn) h, hexcp, hirq, hfence, hmret⟩
  · rintro ⟨-, hexcp, hirq, hfence, hmret⟩
    exact ⟨hexcp, hirq, hfence, hmret⟩

-- A commit that does not flush.
section Step

variable (t : Nat) (hc : (r.st t).commits = true) (hf : (r.st t).flush = false)
include hc hf

theorem enables_succ : (r.st (t + 1)).enables =
    Enables.commit (r.st t) (r.st t).enables (r.st t).rob.head := by
  obtain ⟨hx, hi, -, hm⟩ := (not_flush_iff _ hc).mp hf
  have hv : (r.st t).csrIn.commit.valid = true := hc
  have hexcp : Csr.excpEn (r.st t).csrIn.commit = false := by
    have : (r.st t).csrIn.commit.excp = 0#16 := hx
    simp [Csr.excpEn, this]
  have hirq : Csr.irqEn (r.st t).csrIn.commit = false := by
    have : (r.st t).csrIn.commit.irq = 0#12 := hi
    simp [Csr.irqEn, this]
  have hmret : (r.st t).csrIn.commit.mretOp = false := hm
  have hwr : ∀ idx, Csr.wr idx (r.st t).csrIn.commit =
      (((r.st t).rob.issue (r.st t).rob.head).csrNeed &&
        ((r.st t).rob.issue (r.st t).rob.head).csrIdx == idx) := by
    intro idx
    rw [Csr.wr, Csr.csrWrEn, hexcp, hv, Bool.true_and, Bool.not_false, Bool.and_true, Bool.and_comm]
    rfl
  have hn : (r.st (t + 1)).csr = (r.st t).csr.next (r.st t).csrIn := rfl
  rw [Cpu.enables, hn, Csr.next, Csr.statusMieEna, Csr.statusMieNxt, hexcp, hirq, hmret, hwr, hwr]
  simp only [Bool.or_false, Bool.false_eq_true, if_false]
  rw [Enables.commit]
  congr 1
  cases (((r.st t).rob.issue (r.st t).rob.head).csrNeed &&
    ((r.st t).rob.issue (r.st t).rob.head).csrIdx == Csr.mstatusIdx) <;> rfl

theorem window_succ (n : BitVec 4) (l : List (BitVec 4)) (h : (r.st t).rob.window = n :: l) :
    ∃ new, (r.st (t + 1)).rob.window = l ++ new := by
  have hw := Rob.window_next (r.wf t) (r.legal t) hf
  have hr : (r.st t).rob.ren (r.st t).robIn.commitValid = true := hc
  rw [hr, h, Fifo.shift, if_pos rfl, List.cons_append, List.tail_cons] at hw
  exact ⟨_, hw⟩

end Step

-- An entry that has its result keeps it as long as it is there.
theorem sameEntry_succ (t : Nat) (n : BitVec 4) (hs : (r.st t).rob.state n = WRITEBACK_S)
    (hm : n ∈ (r.st (t + 1)).rob.window) (hn : n ∈ (r.st t).rob.window) :
    (r.st t).SameEntry (r.st (t + 1)) n := by
  cases r.slotStep t n with
  | free out => exact absurd hm out
  | fresh noFlush wen slot new => exact absurd hn new
  | kept noFlush mem noWb notHead state issue rdData info csrData =>
    exact ⟨state, issue, info, csrData⟩
  | written noFlush mem u hits mapped => exact SlotState.noConfusion (hs.symm.trans mapped)

-- One cycle takes the first entry away and leaves the others as quiet as they were.
theorem quietFront_succ (t : Nat) (n : BitVec 4) (l rest : List (BitVec 4))
    (hw : (r.st t).rob.window = n :: (l ++ rest)) (hq : (r.st t).QuietFront (n :: l)) :
    (r.st t).commits = true ∧ (r.st t).flush = false ∧
      (∃ new, (r.st (t + 1)).rob.window = l ++ (rest ++ new)) ∧
      (r.st (t + 1)).QuietFront l ∧
      (r.st (t + 1)).irqMskAfter l = (r.st t).irqMskAfter (n :: l) := by
  have hh := r.head_of_window t n _ hw
  have hq0 : (r.st t).Quiet [] n := hq [] n l rfl
  have hc := r.commits_of_state t (hh ▸ hq0.state)
  have hf : (r.st t).flush = false := (r.flush_iff_quiet t hc).mpr (hh ▸ hq0)
  obtain ⟨new, hnew⟩ := r.window_succ t hc hf n _ hw
  have same : ∀ m ∈ l, (r.st t).SameEntry (r.st (t + 1)) m := by
    intro m hm
    obtain ⟨a, b, hab⟩ := List.append_of_mem hm
    refine r.sameEntry_succ t m (hq (n :: a) m b (by rw [hab]; rfl)).state ?_ ?_
    · rw [hnew]
      exact List.mem_append_left _ (List.mem_append_left _ hm)
    · rw [hw]
      exact List.mem_cons_of_mem _ (List.mem_append_left _ hm)
  have mask : ∀ a, (∀ m ∈ a, m ∈ l) →
      (r.st (t + 1)).irqMskAfter a = (r.st t).irqMskAfter (n :: a) := by
    intro a ha
    rw [Cpu.irqMskAfter, Cpu.irqMskAfter, List.foldl_cons, r.enables_succ t hc hf, hh]
    exact congrArg Enables.irqMsk
      (List.foldl_ext _ _ _ fun x m hm => (same m (ha m hm)).commit x)
  refine ⟨hc, hf, ⟨new, by rw [hnew, List.append_assoc]⟩, ?_, mask l fun m hm => hm⟩
  rintro older m younger rfl
  have hs := same m (List.mem_append_right _ List.mem_cons_self)
  have hmask := mask older fun x hx => List.mem_append_left _ hx
  exact (hs.quiet_iff hmask).mpr (hq (n :: older) m younger rfl)

-- A quiet front commits one a cycle, without a flush.
theorem drains (t : Nat) (l rest : List (BitVec 4)) (hw : (r.st t).rob.window = l ++ rest)
    (hq : (r.st t).QuietFront l) :
    (∀ v, t ≤ v → v < t + l.length → (r.st v).flush = false) ∧
      (∃ new, (r.st (t + l.length)).rob.window = rest ++ new) ∧
      (∀ n ∈ rest, r.owner (t + l.length) n = r.owner t n) ∧
      (r.st (t + l.length)).irqMskAfter [] = (r.st t).irqMskAfter l := by
  induction l generalizing t rest with
  | nil =>
    exact ⟨fun v h1 h2 => absurd h2 (Nat.not_lt.mpr h1), ⟨[], by simpa using hw⟩,
      fun n _ => rfl, rfl⟩
  | cons n l ih =>
    obtain ⟨-, hf, ⟨new, hnew⟩, hq', hmask⟩ := r.quietFront_succ t n l rest hw hq
    obtain ⟨hfl, ⟨new', hwin⟩, hown, hmask'⟩ := ih (t + 1) (rest ++ new) hnew hq'
    have hlen : t + 1 + l.length = t + (n :: l).length := by
      rw [List.length_cons]
      omega
    rw [hlen] at hfl hwin hown hmask'
    refine ⟨fun v h1 h2 => ?_, ⟨new ++ new', by rw [hwin, List.append_assoc]⟩, fun m hm => ?_,
      hmask'.trans hmask⟩
    · rcases Nat.lt_or_eq_of_le h1 with hlt | rfl
      · exact hfl v hlt h2
      · exact hf
    · rw [hown m (List.mem_append_left _ hm)]
      refine r.owner_succ t m ?_
      rw [hw]
      exact List.mem_append_right _ hm

-- An entry with its result is the same as long as nothing takes it away.
theorem sameEntry_of_le (a t : Nat) (n : BitVec 4) (hs : (r.st a).rob.state n = WRITEBACK_S)
    (hm : n ∈ (r.st t).rob.window) (ha : r.owner t n < a) (hat : a ≤ t) :
    (r.st a).SameEntry (r.st t) n := by
  induction t, hat using Nat.le_induction with
  | base => exact ⟨rfl, rfl, rfl, rfl⟩
  | succ t hat ih =>
    obtain ⟨hl, ho⟩ := r.live_between t (t + 1) n hm (by omega) (Nat.le_succ t)
    have h := ih hl (ho ▸ ha)
    exact h.trans (r.sameEntry_succ t n (h.state.trans hs) hm hl)

end Run

end HiCore
