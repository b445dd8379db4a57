import HiCore.Refine.Bus

-- The ITCM arbiter, for any requests on its two ports and any slave that answers
-- in order.
namespace HiCore.Arbt

structure Run where
  power : Arbt
  ins : Nat → In

namespace Run

open History

variable (r : Run)

def st (t : Nat) : Arbt := History.run Arbt.next r.power.reset r.ins t

-- A command is handed to the slave, and a response is taken from it.

def sends (t : Nat) : Bool := (r.st t).oCmdValid (r.ins t).cmdValid && (r.ins t).oCmdReady

def answered (t : Nat) : Bool := (r.ins t).oRspValid && (r.st t).oRspReady (r.ins t).rspReady

-- The same on port `p`.

def portSends (p : BitVec 1) (t : Nat) : Bool :=
  (r.ins t).cmdValid.getLsbD p.toNat &&
    ((r.st t).cmdReady (r.ins t).cmdValid (r.ins t).oCmdReady).getLsbD p.toNat

def portAnswered (p : BitVec 1) (t : Nat) : Bool :=
  (r.st t).rspValid (r.ins t).oRspValid p && (r.ins t).rspReady.getLsbD p.toNat

-- The port that has its way in cycle `t`: port 0 when both ask.
def asker (t : Nat) : BitVec 1 := winner (r.ins t).cmdValid

-- The slave responds to commands it took in earlier cycles, once to each.
def InOrder : Prop := ∀ t, (r.ins t).oRspValid = true → times r.answered t < times r.sends t

theorem isQueue : IsQueue (fun t => indicId (r.ins t).cmdValid) (fun _ => false) r.sends r.answered
    (fun _ => false) fun t => (r.st t).arbtQueue.items := by
  have h := Queue.isQueue (q := fun t => (r.st t).arbtQueue)
    (i := fun t => (r.st t).queueIn (r.ins t)) (Queue.items_reset _) (Queue.wf_reset _) fun _ => rfl
  simp only [wen_eq, ren_eq] at h
  exact h

theorem sends_le (t : Nat) : times r.sends t ≤ times r.answered t + 4 := by
  have hl := r.isQueue.length t
  have hw : Ring.count (r.st t).arbtQueue.rdPtr (r.st t).arbtQueue.wrPtr ≤ 2 ^ 2 :=
    Queue.wf_run (q := fun t => (r.st t).arbtQueue) (Queue.wf_reset _) (fun _ => rfl) t
  rw [← Queue.length_items] at hw
  omega

theorem oValid_of_rspValid (t : Nat) (h : times r.answered t < times r.sends t) :
    (r.st t).arbtQueue.oValid = true := by
  have hl := r.isQueue.length t
  rw [Queue.oValid_iff, ← List.length_pos_iff]
  omega

-- Commands.

theorem portSends_iff (t : Nat) (p : BitVec 1) :
    r.portSends p t = true ↔ r.sends t = true ∧ p = r.asker t := by
  have key : ∀ (v : BitVec 2) (f o : Bool) (p : BitVec 1),
      (v.getLsbD p.toNat && (grtVec v &&& rep 2 (o && !f)).getLsbD p.toNat) = true ↔
        ((v != 0#2 && !f) && o) = true ∧ p = winner v := by decide
  exact key _ _ _ _

theorem oCmd_of_sends (t : Nat) (h : r.sends t = true) :
    oCmd (r.ins t).cmdValid (r.ins t).cmd = (r.ins t).cmd (r.asker t) :=
  oCmd_of_valid _ _ (Bool.and_eq_true_iff.mp (Bool.and_eq_true_iff.mp h).1).1

theorem indicId_of_sends (t : Nat) (h : r.sends t = true) :
    indicId (r.ins t).cmdValid = r.asker t :=
  indicId_of_valid _ (Bool.and_eq_true_iff.mp (Bool.and_eq_true_iff.mp h).1).1

-- Responses: the head of the queue is the port of the oldest unanswered command.

theorem rspPortId_eq (t : Nat) (h : times r.answered t < times r.sends t) :
    ∃ u < t, Nth r.sends (times r.answered t) u ∧ (r.st t).rspPortId = r.asker u := by
  have hv := r.oValid_of_rspValid t h
  obtain ⟨u, hu, hn, hx, -⟩ := r.isQueue.head?_items t _ _ (Queue.head?_items _ hv)
  refine ⟨u, hu, hn, ?_⟩
  rw [rspPortId_of_oValid _ hv, hx, r.indicId_of_sends u hn.1]

theorem rspValid_iff (t : Nat) (p : BitVec 1) (h : times r.answered t < times r.sends t) :
    (r.st t).rspValid (r.ins t).oRspValid p = true ↔
      (r.ins t).oRspValid = true ∧ p = (r.st t).rspPortId := by
  rw [rspValid, rspidFifoEmpty, r.oValid_of_rspValid t h, Bool.not_not, Bool.true_and,
    Bool.and_eq_true, beq_iff_eq, eq_comm (a := p)]

theorem portAnswered_iff (t : Nat) (p : BitVec 1) (h : times r.answered t < times r.sends t) :
    r.portAnswered p t = true ↔ r.answered t = true ∧ p = (r.st t).rspPortId := by
  rw [portAnswered, Bool.and_eq_true, r.rspValid_iff t p h, answered, oRspReady, rspidFifoEmpty,
    r.oValid_of_rspValid t h, Bool.and_eq_true]
  constructor
  · rintro ⟨⟨hv, rfl⟩, hr⟩
    exact ⟨⟨hv, hr⟩, rfl⟩
  · rintro ⟨⟨hv, hr⟩, rfl⟩
    exact ⟨⟨hv, rfl⟩, hr⟩

section Ports

variable {r : Run} (hs : r.InOrder) (p : BitVec 1)

-- Of the commands and the responses, those of port `p`.

theorem portSends_eq : r.portSends p = fun v => r.sends v && decide (p = r.asker v) := by
  funext v
  rw [Bool.eq_iff_iff, r.portSends_iff, Bool.and_eq_true, decide_eq_true_eq]

include hs

theorem portAnswered_eq :
    r.portAnswered p = fun v => r.answered v && decide (p = (r.st v).rspPortId) := by
  funext v
  rw [Bool.eq_iff_iff, Bool.and_eq_true, decide_eq_true_eq]
  cases hv : (r.ins v).oRspValid with
  | true => exact r.portAnswered_iff v p (hs v hv)
  | false => simp [portAnswered, rspValid, answered, hv]

theorem answered_kind (v : Nat) (hv : r.answered v = true) :
    ∃ w < v, Nth r.sends (times r.answered v) w ∧
      decide (p = (r.st v).rspPortId) = decide (p = r.asker w) := by
  obtain ⟨w, hw, hn, he⟩ := r.rspPortId_eq v (hs v (Bool.and_eq_true_iff.mp hv).1)
  exact ⟨w, hw, hn, by rw [he]⟩

-- The responses of one port come in the order of its commands.
theorem nth_port (t u : Nat) (hu : u < t) (hn : Nth r.sends (times r.answered t) u)
    (hp : p = r.asker u) : Nth (r.portSends p) (times (r.portAnswered p) t) u := by
  refine ⟨(r.portSends_iff u p).mpr ⟨hn.1, hp⟩, ?_⟩
  rw [portSends_eq, portAnswered_eq hs]
  exact times_kind_eq (c := fun v => decide (p = r.asker v))
    (d := fun v => decide (p = (r.st v).rspPortId)) (answered_kind hs p) hu.le hn.2

-- With one command outstanding at most, the arbiter knows whose it is.
theorem portAnswered_add (t : Nat) (h1 : times r.sends t ≤ times r.answered t + 1) :
    times (r.portAnswered p) t +
        (decide (times r.answered t < times r.sends t) && decide (p = (r.st t).rspPortId)).toNat =
      times (r.portSends p) t := by
  have hl := r.isQueue.length t
  have hlen := length_cycles r.sends t
  have hpop := times_kind (c := fun v => decide (p = r.asker v))
    (d := fun v => decide (p = (r.st v).rspPortId)) (answered_kind hs p) t
  have hsplit := congrArg (List.countP fun v => decide (p = r.asker v))
    (List.take_append_drop (times r.answered t) (cycles r.sends t))
  rw [List.countP_append] at hsplit
  rw [portSends_eq, portAnswered_eq hs, hpop, times_and r.sends, ← hsplit]
  congr 1
  by_cases hlt : times r.answered t < times r.sends t
  · -- The one command that is left over.
    obtain ⟨u, hu, hn, he⟩ := r.rspPortId_eq t hlt
    have hg := (getElem?_cycles r.sends t _ u).mpr ⟨hu, hn⟩
    have hd : (cycles r.sends t).drop (times r.answered t) = [u] := by
      have hk : times r.answered t < (cycles r.sends t).length := by omega
      rw [List.drop_eq_getElem_cons hk, List.drop_eq_nil_of_le (by omega)]
      rw [List.getElem?_eq_getElem hk] at hg
      rw [Option.some.inj hg]
    rw [hd, he, decide_eq_true hlt, Bool.true_and, List.countP_singleton]
    cases decide (p = r.asker u) <;> rfl
  · rw [List.drop_eq_nil_of_le (by omega), decide_eq_false hlt]
    rfl

end Ports

-- The arbiter in cycle `t`: the port a command comes from, the port a response
-- goes to, and how many commands wait.
structure Arbitrates (t : Nat) : Prop where
  sent : ∀ p, r.portSends p t = true ↔ r.sends t = true ∧ p = r.asker t
  carried : r.sends t = true → oCmd (r.ins t).cmdValid (r.ins t).cmd = (r.ins t).cmd (r.asker t)
  silent : (r.ins t).oRspValid = false → ∀ p, (r.st t).rspValid (r.ins t).oRspValid p = false
  delivered : (r.ins t).oRspValid = true → ∃ u < t, Nth r.sends (times r.answered t) u ∧
    (∀ p, (r.st t).rspValid (r.ins t).oRspValid p = true ↔ p = r.asker u) ∧
    (∀ p, r.portAnswered p t = true ↔ r.answered t = true ∧ p = r.asker u) ∧
    Nth (r.portSends (r.asker u)) (times (r.portAnswered (r.asker u)) t) u
  bounded : times r.sends t ≤ times r.answered t + 4

theorem arbiter_routes (r : Run) (hs : r.InOrder) (t : Nat) : r.Arbitrates t where
  sent := r.portSends_iff t
  carried := r.oCmd_of_sends t
  silent h p := by rw [rspValid, h, Bool.and_false, Bool.false_and]
  delivered h := by
    obtain ⟨u, hu, hn, he⟩ := r.rspPortId_eq t (hs t h)
    refine ⟨u, hu, hn, fun p => ?_, fun p => ?_, nth_port hs _ t u hu hn rfl⟩
    · rw [r.rspValid_iff t p (hs t h), h, he]
      simp
    · rw [r.portAnswered_iff t p (hs t h), he]
  bounded := r.sends_le t

-- Both ports ask in cycle 0, and port 1 again in cycle 1; the slave answers in
-- the cycle after each command.
def bothPorts : Run where
  power := { arbtQueue := { wrPtr := 0, rdPtr := 0, queueRam := fun _ => 0, queueCancel := fun _ => false } }
  ins t :=
    { cmdValid := if t = 0 then 0b11#2 else if t = 1 then 0b10#2 else 0b00#2
      cmd := fun p => { read := true, wmask := 0#4, wdata := 0#32, addr := p.setWidth 32 }
      rspReady := 0b11#2
      oCmdReady := true
      oRspValid := decide (t = 1 ∨ t = 2) }

theorem arbiter_routes_both : bothPorts.InOrder ∧ bothPorts.Arbitrates 2 := by
  have h : bothPorts.InOrder := by
    intro t ht
    have h12 : t = 1 ∨ t = 2 := of_decide_eq_true ht
    rcases h12 with rfl | rfl
    · decide
    · decide
  exact ⟨h, arbiter_routes bothPorts h 2⟩

end Run

end HiCore.Arbt
