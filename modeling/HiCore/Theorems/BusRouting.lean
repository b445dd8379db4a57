import HiCore.Refine.Bus

-- Which slaves a command of the LSU reaches, for any behaviour of the slaves.
namespace HiCore.Biu

structure In where
  cmdValid : Bool
  addr : BitVec 32
  rspReady : Bool
  slaves : Slaves

structure Run where
  ins : Nat → In

namespace Run

variable (r : Run)

def step (b : Biu) (i : In) : Biu := b.next i.cmdValid i.addr i.rspReady i.slaves

def st (t : Nat) : Biu := History.run step Biu.reset r.ins t

-- The command of cycle `t` is accepted from the LSU.
def accepts (t : Nat) : Bool :=
  (r.ins t).cmdValid && (r.st t).cmdReady (r.ins t).addr (r.ins t).slaves.cmdReady

-- It is presented to slave `n`, and slave `n` takes it.

def presents (t : Nat) (n : Slave) : Bool :=
  ((r.st t).oCmdValid (r.ins t).cmdValid (r.ins t).addr).getLsbD n.port

def takes (t : Nat) (n : Slave) : Bool :=
  r.presents t n && (r.ins t).slaves.cmdReady.getLsbD n.port

-- One slave for each accepted command, and one accepted command for each that a
-- slave takes.
structure Routes (t : Nat) : Prop where
  presented : r.accepts t = true → ∀ n, r.presents t n = true ↔ n = Slave.owner (r.ins t).addr
  accepted : ∀ n, r.takes t n = true → r.accepts t = true
  single : ∀ m n, r.takes t m = true → r.takes t n = true → m = n

theorem presents_eq (t : Nat) (n : Slave) : r.presents t n =
    ((r.ins t).cmdValid && !(r.st t).splitFifo.vld && (spltIndic (r.ins t).addr).getLsbD n.port) :=
  getLsbD_oCmdValid _ _ _ _

theorem accepts_of_takes (t : Nat) (n : Slave) (h : r.takes t n = true) : r.accepts t = true := by
  rw [takes, presents_eq] at h
  simp only [Bool.and_eq_true, Bool.not_eq_true'] at h
  obtain ⟨⟨⟨hv, hf⟩, hi⟩, hr⟩ := h
  rw [accepts, hv, Bool.true_and, cmdReady_iff]
  exact ⟨hf, n, hi, hr⟩

-- An accepted command is presented to all the slaves that its address selects.
theorem presents_of_accepts (t : Nat) (h : r.accepts t = true) (n : Slave) :
    r.presents t n = (spltIndic (r.ins t).addr).getLsbD n.port := by
  obtain ⟨hv, hr⟩ := Bool.and_eq_true_iff.mp h
  rw [presents_eq, hv, ((cmdReady_iff _ _ _).mp hr).1]
  rfl

theorem presents_iff_owner (t : Nat) (h : r.accepts t = true)
    (hc : (r.ins t).addr.extractLsb' 16 16 ≠ 0xF000#16) (n : Slave) :
    r.presents t n = true ↔ n = Slave.owner (r.ins t).addr := by
  have hne : Slave.owner (r.ins t).addr ≠ .clint := fun he => hc ((Slave.owner_eq_clint _).mp he)
  rw [r.presents_of_accepts t h, getLsbD_spltIndic, decide_eq_false hne, Bool.and_false,
    Bool.or_false, decide_eq_true_eq, eq_comm]

-- A command for the CLINT meets a free splitter and a slave that is ready for it.
def AsksClint (t : Nat) : Prop :=
  (r.ins t).cmdValid = true ∧ (r.ins t).addr.extractLsb' 16 16 = 0xF000#16 ∧
    (r.st t).splitFifo.vld = false ∧
    ((r.ins t).slaves.cmdReady.getLsbD 3 = true ∨ (r.ins t).slaves.cmdReady.getLsbD 4 = true)

theorem asksClint_iff (t : Nat) : r.AsksClint t ↔
    r.accepts t = true ∧ (r.ins t).addr.extractLsb' 16 16 = 0xF000#16 := by
  constructor
  · rintro ⟨hv, hc, hf, hr⟩
    have ho := (Slave.owner_eq_clint _).mpr hc
    rw [accepts, hv, Bool.true_and, cmdReady_iff]
    refine ⟨⟨hf, ?_⟩, hc⟩
    rcases hr with hr | hr
    · exact ⟨.clint, by rw [getLsbD_spltIndic, ho]; rfl, hr⟩
    · exact ⟨.nop, by rw [getLsbD_spltIndic, ho]; rfl, hr⟩
  · rintro ⟨ha, hc⟩
    obtain ⟨hv, hr⟩ := Bool.and_eq_true_iff.mp ha
    obtain ⟨hf, n, hi, hn⟩ := (cmdReady_iff _ _ _).mp hr
    refine ⟨hv, hc, hf, ?_⟩
    rw [getLsbD_spltIndic, (Slave.owner_eq_clint _).mpr hc] at hi
    cases n with
    | clint => exact .inl hn
    | nop => exact .inr hn
    | _ => exact absurd hi (by decide)

-- The nop slave is selected by the addresses of the CLINT too, and by no others
-- that have a slave.
theorem routes_iff (r : Run) (t : Nat) : r.Routes t ↔ ¬ r.AsksClint t := by
  rw [asksClint_iff]
  constructor
  · rintro h ⟨ha, hc⟩
    have ho := (Slave.owner_eq_clint _).mpr hc
    have hn : r.presents t .nop = true := by
      rw [r.presents_of_accepts t ha, getLsbD_spltIndic, ho]
      rfl
    have he := (h.presented ha .nop).mp hn
    rw [ho] at he
    exact Slave.noConfusion he
  · intro h
    have hp : r.accepts t = true → ∀ n, r.presents t n = true ↔ n = Slave.owner (r.ins t).addr :=
      fun ha => r.presents_iff_owner t ha fun hc => h ⟨ha, hc⟩
    refine ⟨hp, r.accepts_of_takes t, fun m n hm hn => ?_⟩
    have ha := r.accepts_of_takes t m hm
    rw [(hp ha m).mp (Bool.and_eq_true_iff.mp hm).1, (hp ha n).mp (Bool.and_eq_true_iff.mp hn).1]

-- A read of `msip`, with all slaves ready.
def readMsip : Run where
  ins _ :=
    { cmdValid := true
      addr := 0xF0000000#32
      rspReady := true
      slaves := { cmdReady := 0b11111#5, rspValid := 0#5, rspErr := 0#5, rspRdata := fun _ => 0#32 } }

-- It is accepted, and two slaves take it.
theorem not_routes_msip : readMsip.accepts 0 = true ∧ readMsip.takes 0 .clint = true ∧
    readMsip.takes 0 .nop = true ∧ ¬ readMsip.Routes 0 := by
  refine ⟨by decide, by decide, by decide, fun h => ?_⟩
  have he := h.single .clint .nop (by decide) (by decide)
  exact Slave.noConfusion he

end Run

end HiCore.Biu
