import HiCore.Lib.History
import HiCore.Lib.Word
import HiCore.Refine.Buffers
import HiCore.Rtl.Tcm

-- The SRAM controller as a memory: whatever is asked of it and however long its
-- responses wait, a read returns what the writes accepted before it have left.
namespace HiCore

-- The four bytes of a word after a write.
theorem SimRam.extractLsb'_merge (wem : BitVec 4) (din old : BitVec 32) (j : Nat) (h : j < 4) :
    (merge wem din old).extractLsb' (8 * j) 8 = byte wem din old j :=
  Word.extractLsb'_bytes (byte wem din old) j h

namespace Tcm

structure In where
  cmdValid : Bool
  cmd : IcbCmd
  rspReady : Bool

structure Run where
  power : Tcm
  ins : Nat → In

-- A memory after a command.
def apply (m : BitVec 12 → BitVec 32) (c : IcbCmd) : BitVec 12 → BitVec 32 := fun a =>
  if !c.read && a == index c.addr then SimRam.merge c.wmask c.wdata (m a) else m a

namespace Run

open History

variable (r : Run)

def step (m : Tcm) (i : In) : Tcm := m.next i.cmdValid i.cmd i.rspReady

def st (t : Nat) : Tcm := History.run step r.power.reset r.ins t

-- A command is accepted, and a response.

def accepts (t : Nat) : Bool := (r.ins t).cmdValid && (r.st t).cmdReady (r.ins t).rspReady

def answers (t : Nat) : Bool := (r.st t).rspValid && (r.ins t).rspReady

-- The commands accepted before cycle `t`, and the memory that they leave.

def accepted (t : Nat) : List IcbCmd := (cycles r.accepts t).map fun u => (r.ins u).cmd

def memory (t : Nat) : BitVec 12 → BitVec 32 := (r.accepted t).foldl apply r.power.ram.memR

theorem memory_succ (t : Nat) :
    r.memory (t + 1) = if r.accepts t then apply (r.memory t) (r.ins t).cmd else r.memory t := by
  rw [memory, accepted, cycles_succ, List.map_append, List.foldl_append]
  cases r.accepts t <;> rfl

theorem ram_succ (t : Nat) : (r.st (t + 1)).ram = (r.st t).ram.next (r.accepts t)
    (!(r.ins t).cmd.read) (index (r.ins t).cmd.addr) (r.ins t).cmd.wmask (r.ins t).cmd.wdata := rfl

theorem memR_eq_memory (t : Nat) : (r.st t).ram.memR = r.memory t := by
  induction t with
  | zero => rfl
  | succ t ih =>
    rw [ram_succ, memory_succ, ← ih]
    cases h : r.accepts t with
    | false => rfl
    | true =>
      funext a
      simp [SimRam.next, apply]

-- Neither register of the RAM moves in a cycle without a command.
theorem ram_succ_of_quiet (t : Nat) (h : r.accepts t = false) :
    (r.st (t + 1)).ram = (r.st t).ram := by
  rw [ram_succ, h]
  rfl

theorem isQueue : IsQueue (fun _ => true) (fun _ => false) r.accepts r.answers (fun _ => false)
    fun t => (r.st t).pipe.items :=
  Pipe.isQueue false (i := fun t => pipeIn (r.ins t).cmdValid (r.ins t).rspReady) rfl fun _ => rfl

-- There is a response exactly while a command is unanswered, and there is at
-- most one.
theorem answers_add_vld (t : Nat) :
    times r.answers t + (r.st t).rspValid.toNat = times r.accepts t := by
  rw [← r.isQueue.length t, Pipe.length_items]
  rfl

theorem rspValid_iff (t : Nat) :
    (r.st t).rspValid = true ↔ ∃ u < t, Nth r.accepts (times r.answers t) u := by
  have h := r.answers_add_vld t
  constructor
  · intro hv
    rw [hv, Bool.toNat_true] at h
    exact exists_nth _ (by omega)
  · rintro ⟨u, hu, hn⟩
    have := hn.lt_times hu
    cases hv : (r.st t).rspValid with
    | true => rfl
    | false =>
      rw [hv, Bool.toNat_false] at h
      omega

-- Everything older has been answered by the cycle after a command is accepted.
theorem answers_succ_of_accepts (u : Nat) (h : r.accepts u = true) :
    times r.answers (u + 1) = times r.accepts u := by
  have hc := r.answers_add_vld u
  have hr := (Bool.and_eq_true_iff.mp h).2
  rw [times_succ, ← hc, answers]
  rw [cmdReady, Pipe.iRdy, Pipe.vldClr] at hr
  cases hv : (r.st u).rspValid with
  | false => rfl
  | true =>
    rw [rspValid] at hv
    rw [hv] at hr
    simpa using hr

-- No command is accepted while an older one waits.
theorem accepts_eq_false (t u v : Nat) (h : Nth r.accepts (times r.answers t) u) (hu : u < v)
    (hv : v < t) : r.accepts v = false := by
  have hc := r.answers_add_vld t
  have hb := Bool.toNat_le (r.st t).rspValid
  have hl : times r.accepts (u + 1) = times r.answers t + 1 := by rw [times_succ, h.1, h.2]; rfl
  have hm := times_mono r.accepts (show u + 1 ≤ t by omega)
  exact not_of_times_eq (a := u + 1) (b := t) (by omega) hu hv

theorem ram_of_waiting (t u : Nat) (h : Nth r.accepts (times r.answers t) u) (hu : u < t) :
    (r.st t).ram = (r.st (u + 1)).ram := by
  refine eq_of_quiet (f := fun v => (r.st v).ram) (Nat.succ_le_of_lt hu) fun v h1 h2 => ?_
  exact r.ram_succ_of_quiet v (r.accepts_eq_false t u v h h1 h2)

-- A read that waits is answered with what the memory held when it was accepted.
theorem rspRdata_of_waiting (t u : Nat) (h : Nth r.accepts (times r.answers t) u) (hu : u < t)
    (hr : (r.ins u).cmd.read = true) :
    (r.st t).rspRdata = r.memory u (index (r.ins u).cmd.addr) := by
  rw [rspRdata, r.ram_of_waiting t u h hu, ram_succ, h.1, hr, ← r.memR_eq_memory]
  simp [SimRam.dout, SimRam.next]

-- The controller up to cycle `t`, seen from its port.
structure Linearizable (t : Nat) : Prop where
  contents : (r.st t).ram.memR = r.memory t
  bytes : ∀ a j, j < 4 → (r.memory (t + 1) a).extractLsb' (8 * j) 8 =
    if r.accepts t = true ∧ (r.ins t).cmd.read = false ∧ index (r.ins t).cmd.addr = a ∧
        (r.ins t).cmd.wmask.getLsbD j = true
    then (r.ins t).cmd.wdata.extractLsb' (8 * j) 8 else (r.memory t a).extractLsb' (8 * j) 8
  waiting : (r.st t).rspValid = true ↔ ∃ u < t, Nth r.accepts (times r.answers t) u
  answered : ∀ u < t, r.accepts u = true → (r.ins t).rspReady = true →
    ∃! v, (u < v ∧ v ≤ t) ∧ Nth r.answers (times r.accepts u) v
  data : ∀ u < t, Nth r.accepts (times r.answers t) u → (r.ins u).cmd.read = true →
    (r.st t).rspRdata = r.memory u (index (r.ins u).cmd.addr)

theorem bytes_memory_succ (t : Nat) (a : BitVec 12) (j : Nat) (h : j < 4) :
    (r.memory (t + 1) a).extractLsb' (8 * j) 8 =
      if r.accepts t = true ∧ (r.ins t).cmd.read = false ∧ index (r.ins t).cmd.addr = a ∧
          (r.ins t).cmd.wmask.getLsbD j = true
      then (r.ins t).cmd.wdata.extractLsb' (8 * j) 8 else (r.memory t a).extractLsb' (8 * j) 8 := by
  rw [memory_succ]
  by_cases hw : r.accepts t = true ∧ (r.ins t).cmd.read = false ∧ index (r.ins t).cmd.addr = a
  · obtain ⟨ha, hr, rfl⟩ := hw
    rw [ha, if_pos rfl, apply, hr, beq_self_eq_true]
    simp only [Bool.not_false, Bool.and_self, if_true]
    rw [SimRam.extractLsb'_merge _ _ _ _ h, SimRam.byte]
    simp
  · have hkeep : (if r.accepts t then apply (r.memory t) (r.ins t).cmd else r.memory t) a =
        r.memory t a := by
      cases ha : r.accepts t with
      | false => rfl
      | true =>
        cases hr : (r.ins t).cmd.read with
        | true => simp [apply, hr]
        | false =>
          have hne : a ≠ index (r.ins t).cmd.addr := fun he => hw ⟨ha, hr, he.symm⟩
          simp [apply, hne]
    have hno : ¬ (r.accepts t = true ∧ (r.ins t).cmd.read = false ∧
        index (r.ins t).cmd.addr = a ∧ (r.ins t).cmd.wmask.getLsbD j = true) :=
      fun hc => hw ⟨hc.1, hc.2.1, hc.2.2.1⟩
    rw [hkeep, if_neg hno]

-- A command that can hand over its response has been answered by then.
theorem exists_answer (t u : Nat) (hu : u < t) (ha : r.accepts u = true)
    (hr : (r.ins t).rspReady = true) :
    ∃! v, (u < v ∧ v ≤ t) ∧ Nth r.answers (times r.accepts u) v := by
  have hs := r.answers_succ_of_accepts u ha
  have hm := times_mono r.answers (show u + 1 ≤ t by omega)
  have hlt : times r.accepts u < times r.answers (t + 1) := by
    rcases Nat.lt_or_ge (times r.accepts u) (times r.answers t) with h | h
    · exact Nat.lt_of_lt_of_le h (times_mono _ (Nat.le_succ t))
    · have hv := (r.rspValid_iff t).mpr ⟨u, hu, ha, by omega⟩
      rw [times_succ, answers, hv, hr]
      exact Nat.lt_succ_of_le (hs ▸ hm)
  exact existsUnique_nth _ hs.le hlt

theorem tcm_linearizable (r : Run) (t : Nat) : r.Linearizable t where
  contents := r.memR_eq_memory t
  bytes a j h := r.bytes_memory_succ t a j h
  waiting := r.rspValid_iff t
  answered u hu ha hr := r.exists_answer t u hu ha hr
  data u hu h hr := r.rspRdata_of_waiting t u h hu hr

end Run

end Tcm

end HiCore
