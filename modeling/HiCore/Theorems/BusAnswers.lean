import HiCore.Rtl.MemBus
import HiCore.Theorems.Arbiter
import HiCore.Theorems.Tcm
import HiCore.Trace.Program

-- The answers that the LSU gets over the bus. The splitter keeps one record, of
-- the ports that the outstanding command has selected; what carries the argument
-- is that a slave has something to answer exactly when its bit is in the record.
namespace HiCore.MemBus.Run

open History

variable (r : Run)

-- A command is accepted from the LSU, and a response is taken by it.

def accepts (t : Nat) : Bool := (r.ins t).cmdValid && (r.st t).cmdReady (r.ins t)

def answers (t : Nat) : Bool := (r.st t).rspValid (r.ins t) && (r.ins t).rspReady

-- The same on the port of slave `n`.

def slaveAccepts (n : Slave) (t : Nat) : Bool :=
  ((r.st t).slaveCmdValid (r.ins t)).getLsbD n.port &&
    ((r.st t).slaveCmdReady (r.ins t)).getLsbD n.port

def slaveRsp (n : Slave) (t : Nat) : Bool := ((r.st t).slaveRspValid (r.ins t)).getLsbD n.port

def slaveAnswers (n : Slave) (t : Nat) : Bool :=
  r.slaveRsp n t && ((r.st t).slaveRspReady (r.ins t)).getLsbD n.port

-- The PLIC answers every command that it takes in some later cycle, and keeps the
-- answer until it is taken.
def PlicAnswers : Prop := ∀ u, r.slaveAccepts .plic u = true → ∃ w > u, ∀ t ≥ w,
  times (r.slaveAnswers .plic) t = times (r.slaveAccepts .plic) u → (r.ins t).plicRspValid = true

-- The memories and the arbiter as runs of their own.

def dtcm : Tcm.Run where
  power := r.power.dtcm
  ins t :=
    { cmdValid := ((r.st t).slaveCmdValid (r.ins t)).getLsbD 0
      cmd := (r.ins t).cmd
      rspReady := ((r.st t).slaveRspReady (r.ins t)).getLsbD 0 }

def itcm : Tcm.Run where
  power := r.power.itcm
  ins t :=
    { cmdValid := (r.st t).arbt.oCmdValid ((r.st t).itcmPortCmdValid (r.ins t))
      cmd := Arbt.oCmd ((r.st t).itcmPortCmdValid (r.ins t)) (itcmPortCmd (r.ins t))
      rspReady := (r.st t).itcmRspReady (r.ins t) }

def arbt : Arbt.Run where
  power := r.power.arbt
  ins t := (r.st t).arbtIn (r.ins t)

theorem dtcm_st (t : Nat) : r.dtcm.st t = (r.st t).dtcm :=
  run_eq (f := fun t => (r.st t).dtcm) rfl (fun _ => rfl) t

theorem itcm_st (t : Nat) : r.itcm.st t = (r.st t).itcm :=
  run_eq (f := fun t => (r.st t).itcm) rfl (fun _ => rfl) t

theorem arbt_st (t : Nat) : r.arbt.st t = (r.st t).arbt :=
  run_eq (f := fun t => (r.st t).arbt) rfl (fun _ => rfl) t

theorem slaveAccepts_dtcm : r.slaveAccepts .dtcm = r.dtcm.accepts := by
  funext t
  rw [slaveAccepts, slaveCmdReady, Biu.getLsbD_ports, Tcm.Run.accepts, dtcm_st]
  rfl

theorem slaveAnswers_dtcm : r.slaveAnswers .dtcm = r.dtcm.answers := by
  funext t
  rw [slaveAnswers, slaveRsp, slaveRspValid, Biu.getLsbD_ports, Tcm.Run.answers, dtcm_st]
  rfl

-- A slave that puts what it answers into a pipe.
theorem isQueue_slave {α : Type} (n : Slave) (p : Nat → Pipe α) (dat : Nat → α)
    (h0 : (p 0).vld = false)
    (hready : ∀ t, ((r.st t).slaveCmdReady (r.ins t)).getLsbD n.port =
      (p t).iRdy false (((r.st t).slaveRspReady (r.ins t)).getLsbD n.port))
    (hvalid : ∀ t, r.slaveRsp n t = (p t).vld)
    (hnext : ∀ t, p (t + 1) = (p t).next false
      { iVld := ((r.st t).slaveCmdValid (r.ins t)).getLsbD n.port
        iDat := dat t
        iCancel := false
        oRdy := ((r.st t).slaveRspReady (r.ins t)).getLsbD n.port
        branch := false }) :
    IsQueue dat (fun _ => false) (r.slaveAccepts n) (r.slaveAnswers n) (fun _ => false)
      fun t => (p t).items := by
  have h := Pipe.isQueue false h0 hnext
  have ha : r.slaveAccepts n = fun t => _ := funext fun t => by rw [slaveAccepts, hready]
  have hr : r.slaveAnswers n = fun t => _ := funext fun t => by rw [slaveAnswers, hvalid]
  rw [ha, hr]
  exact h

theorem slaveRsp_clint (t : Nat) : r.slaveRsp .clint t = (r.st t).clint.pipe.vld := by
  rw [slaveRsp, slaveRspValid, Biu.getLsbD_ports]
  rfl

theorem slaveRsp_nop (t : Nat) : r.slaveRsp .nop t = (r.st t).nopSlave.pipe.vld := by
  rw [slaveRsp, slaveRspValid, Biu.getLsbD_ports]
  rfl

theorem isQueue_clint : IsQueue (fun t => (r.st t).clint.pipeIdat ((r.st t).clintIn (r.ins t)))
    (fun _ => false) (r.slaveAccepts .clint) (r.slaveAnswers .clint) (fun _ => false)
    fun t => (r.st t).clint.pipe.items := by
  refine r.isQueue_slave .clint _ _ rfl (fun t => ?_) r.slaveRsp_clint fun _ => rfl
  rw [slaveCmdReady, Biu.getLsbD_ports]
  rfl

theorem isQueue_nop : IsQueue (fun _ => 0#32) (fun _ => false) (r.slaveAccepts .nop)
    (r.slaveAnswers .nop) (fun _ => false) fun t => (r.st t).nopSlave.pipe.items := by
  refine r.isQueue_slave .nop _ _ rfl (fun t => ?_) r.slaveRsp_nop fun _ => rfl
  rw [slaveCmdReady, Biu.getLsbD_ports]
  rfl

-- The ITCM answers the fetch unit too: there the arbiter knows.

theorem portSends_lsu : r.arbt.portSends 0#1 = r.slaveAccepts .itcm := by
  funext t
  have hv : ((r.arbt.ins t).cmdValid).getLsbD (0#1).toNat =
      ((r.st t).slaveCmdValid (r.ins t)).getLsbD 1 := by
    change ((r.st t).itcmPortCmdValid (r.ins t)).getLsbD 0 = _
    rw [itcmPortCmdValid]
    cases (r.ins t).ifCmdValid <;> cases ((r.st t).slaveCmdValid (r.ins t)).getLsbD 1 <;> rfl
  rw [Arbt.Run.portSends, hv, arbt_st, slaveAccepts, slaveCmdReady, Biu.getLsbD_ports]
  rfl

theorem portAnswered_lsu : r.arbt.portAnswered 0#1 = r.slaveAnswers .itcm := by
  funext t
  have hr : ((r.arbt.ins t).rspReady).getLsbD (0#1).toNat =
      ((r.st t).slaveRspReady (r.ins t)).getLsbD 1 := by
    change ((r.st t).itcmPortRspReady (r.ins t)).getLsbD 0 = _
    rw [itcmPortRspReady]
    cases (r.ins t).ifRspReady <;> cases ((r.st t).slaveRspReady (r.ins t)).getLsbD 1 <;> rfl
  rw [Arbt.Run.portAnswered, hr, arbt_st, slaveAnswers, slaveRsp, slaveRspValid, Biu.getLsbD_ports]
  rfl

theorem arbt_sends : r.arbt.sends = r.itcm.accepts := by
  funext t
  rw [Arbt.Run.sends, Tcm.Run.accepts, arbt_st, itcm_st]
  rfl

theorem arbt_answered : r.arbt.answered = r.itcm.answers := by
  funext t
  rw [Arbt.Run.answered, Tcm.Run.answers, arbt_st, itcm_st]
  rfl

-- The ITCM answers in order, one command after the other.
theorem arbt_inOrder : r.arbt.InOrder := by
  intro t h
  have ha := r.itcm.answers_add_vld t
  have hv : (r.itcm.st t).rspValid = true := by
    rw [itcm_st]
    exact h
  rw [arbt_sends, arbt_answered, ← ha, hv]
  exact Nat.lt_succ_self _

theorem slaveRsp_itcm (t : Nat) : r.slaveRsp .itcm t =
    (decide (times r.arbt.answered t < times r.arbt.sends t) &&
      decide (0#1 = (r.arbt.st t).rspPortId)) := by
  have hs : r.slaveRsp .itcm t = (r.arbt.st t).rspValid (r.arbt.ins t).oRspValid 0#1 := by
    rw [slaveRsp, slaveRspValid, Biu.getLsbD_ports, arbt_st]
    rfl
  have hi : (r.arbt.ins t).oRspValid = (r.itcm.st t).rspValid := by
    rw [itcm_st]
    rfl
  have ha := r.itcm.answers_add_vld t
  rw [← arbt_sends, ← arbt_answered, ← hi] at ha
  cases hv : (r.arbt.ins t).oRspValid with
  | false =>
    rw [hv, Bool.toNat_false] at ha
    rw [hs, hv, Arbt.rspValid, decide_eq_false (by omega), Bool.and_false]
    rfl
  | true =>
    have hlt := r.arbt_inOrder t hv
    rw [hs, Bool.eq_iff_iff, r.arbt.rspValid_iff t _ hlt, hv, decide_eq_true hlt]
    simp

-- What a slave holds is what it has accepted and not answered. For the PLIC this
-- is not known but assumed.
theorem slaveRsp_add (n : Slave) (hn : n ≠ .plic) (t : Nat) :
    times (r.slaveAnswers n) t + (r.slaveRsp n t).toNat = times (r.slaveAccepts n) t := by
  cases n with
  | plic => exact absurd rfl hn
  | dtcm =>
    rw [slaveAccepts_dtcm, slaveAnswers_dtcm, slaveRsp, slaveRspValid, Biu.getLsbD_ports,
      ← r.dtcm.answers_add_vld t, dtcm_st]
  | clint => rw [slaveRsp_clint, ← r.isQueue_clint.length t, Pipe.length_items]
  | nop => rw [slaveRsp_nop, ← r.isQueue_nop.length t, Pipe.length_items]
  | itcm =>
    have ha := r.itcm.answers_add_vld t
    have hb := Bool.toNat_le (r.itcm.st t).rspValid
    have hp := Arbt.Run.portAnswered_add r.arbt_inOrder 0#1 t (by
      rw [arbt_sends, arbt_answered]
      omega)
    have hv := r.slaveRsp_itcm t
    rw [portSends_lsu, portAnswered_lsu] at hp
    rw [← hp, hv]

-- The record of the splitter.

def held (n : Slave) (t : Nat) : Bool :=
  (r.st t).biu.splitFifo.vld && (r.st t).biu.splitFifo.dat.getLsbD n.port

def selects (n : Slave) (t : Nat) : Bool := (Biu.spltIndic (r.ins t).cmd.addr).getLsbD n.port

theorem isQueue_splitFifo : IsQueue (fun t => Biu.spltIndic (r.ins t).cmd.addr) (fun _ => false)
    r.accepts r.answers (fun _ => false) fun t => (r.st t).biu.splitFifo.items := by
  have h := Pipe.isQueue true (p := fun t => (r.st t).biu.splitFifo)
    (i := fun t => (r.st t).biu.splitFifoIn (r.ins t).cmdValid (r.ins t).cmd.addr (r.ins t).rspReady
      ((r.st t).slaves (r.ins t))) rfl fun _ => rfl
  simp only [Biu.splitFifo_vldSet, Biu.splitFifo_vldClr] at h
  exact h

-- The record is that of the oldest unanswered command.
theorem splitFifo_dat (t : Nat) (h : (r.st t).biu.splitFifo.vld = true) :
    ∃ u < t, Nth r.accepts (times r.answers t) u ∧
      (r.st t).biu.splitFifo.dat = Biu.spltIndic (r.ins u).cmd.addr := by
  have hh := congrArg List.head? (Pipe.items_of_vld _ h)
  obtain ⟨u, hu, hn, hx, -⟩ := r.isQueue_splitFifo.head?_items t _ _ hh
  exact ⟨u, hu, hn, hx⟩

theorem answers_add_vld (t : Nat) :
    times r.answers t + (r.st t).biu.splitFifo.vld.toNat = times r.accepts t := by
  rw [← r.isQueue_splitFifo.length t, Pipe.length_items]

theorem vld_of_answers (t : Nat) (h : r.answers t = true) : (r.st t).biu.splitFifo.vld = true :=
  ((Biu.rspValid_iff _ _).mp (Bool.and_eq_true_iff.mp h).1).1

theorem not_vld_of_accepts (t : Nat) (h : r.accepts t = true) :
    (r.st t).biu.splitFifo.vld = false :=
  ((Biu.cmdReady_iff _ _ _).mp (Bool.and_eq_true_iff.mp h).2).1

theorem held_succ (n : Slave) (t : Nat) : r.held n (t + 1) =
    if r.accepts t then r.selects n t else r.held n t && !r.answers t := by
  have hv := Pipe.vld_next true (r.st t).biu.splitFifo ((r.st t).biu.splitFifoIn (r.ins t).cmdValid
    (r.ins t).cmd.addr (r.ins t).rspReady ((r.st t).slaves (r.ins t)))
  rw [Biu.splitFifo_vldSet, Biu.splitFifo_vldClr] at hv
  have hd : (r.st (t + 1)).biu.splitFifo.dat = dfflr ((r.st t).biu.splitFifo.vldSet true
      ((r.st t).biu.splitFifoIn (r.ins t).cmdValid (r.ins t).cmd.addr (r.ins t).rspReady
        ((r.st t).slaves (r.ins t)))) (Biu.spltIndic (r.ins t).cmd.addr)
      (r.st t).biu.splitFifo.dat := rfl
  rw [Biu.splitFifo_vldSet] at hd
  have hv' : (r.st (t + 1)).biu.splitFifo.vld =
    (r.accepts t || ((r.st t).biu.splitFifo.vld && !r.answers t)) := hv
  have hd' : (r.st (t + 1)).biu.splitFifo.dat =
    dfflr (r.accepts t) (Biu.spltIndic (r.ins t).cmd.addr) (r.st t).biu.splitFifo.dat := hd
  rw [held, hv', hd']
  cases r.accepts t with
  | true => rfl
  | false =>
    rw [held]
    simp only [dfflr_false, Bool.false_or, Bool.false_eq_true, if_false]
    ac_rfl

theorem selects_eq (n : Slave) (t : Nat) : r.selects n t =
    (decide (Slave.owner (r.ins t).cmd.addr = n) ||
      (decide (n = .nop) && decide (Slave.owner (r.ins t).cmd.addr = .clint))) :=
  Biu.getLsbD_spltIndic _ n

-- Two slaves are selected together only if they are the CLINT and the nop slave.
theorem selects_both (m n : Slave) (t : Nat) (hm : r.selects m t = true) (hn : r.selects n t = true)
    (hne : m ≠ n) : n = .clint ∨ n = .nop := by
  rw [selects_eq] at hm hn
  simp only [Bool.or_eq_true, Bool.and_eq_true, decide_eq_true_eq] at hm hn
  rcases hn with hn | ⟨hn, -⟩
  · rcases hm with hm | ⟨-, hm⟩
    · exact absurd (hm.symm.trans hn) hne
    · exact .inl (hn.symm.trans hm)
  · exact .inr hn

-- The CLINT and the nop slave take a command whenever they have nothing to answer.
theorem ready_of_free (n : Slave) (t : Nat) (hn : n = .clint ∨ n = .nop)
    (hr : r.slaveRsp n t = false) : ((r.st t).slaveCmdReady (r.ins t)).getLsbD n.port = true := by
  rcases hn with rfl | rfl
  · rw [slaveRsp_clint] at hr
    rw [slaveCmdReady, Biu.getLsbD_ports]
    simp [Clint.cmdReady, Pipe.iRdy, hr]
  · rw [slaveRsp_nop] at hr
    rw [slaveCmdReady, Biu.getLsbD_ports]
    simp [NopSlave.cmdReady, Pipe.iRdy, hr]

-- What the handshakes of the LSU and of a slave have to do with each other. The
-- slaves hold what the record says.
section Step

variable {r : Run} {t : Nat}
  (hh : ∀ n, times (r.slaveAnswers n) t + (r.held n t).toNat = times (r.slaveAccepts n) t)

include hh

theorem slaveRsp_eq_held (n : Slave) (hn : n ≠ .plic) : r.slaveRsp n t = r.held n t := by
  have h1 := r.slaveRsp_add n hn t
  have h2 := hh n
  have he : (r.slaveRsp n t).toNat = (r.held n t).toNat := by omega
  cases hs : r.slaveRsp n t <;> cases hd : r.held n t <;> simp [hs, hd] at he ⊢

theorem slaveAccepts_eq (n : Slave) : r.slaveAccepts n t = (r.accepts t && r.selects n t) := by
  have hv : ((r.st t).slaveCmdValid (r.ins t)).getLsbD n.port =
      ((r.ins t).cmdValid && !(r.st t).biu.splitFifo.vld && r.selects n t) :=
    Biu.getLsbD_oCmdValid _ _ _ _
  rw [slaveAccepts, hv, Bool.eq_iff_iff]
  simp only [Bool.and_eq_true, Bool.not_eq_true']
  constructor
  · rintro ⟨⟨⟨hc, hf⟩, hs⟩, hr⟩
    refine ⟨?_, hs⟩
    rw [accepts, hc, Bool.true_and]
    exact (Biu.cmdReady_iff _ _ _).mpr ⟨hf, n, hs, hr⟩
  · rintro ⟨ha, hs⟩
    obtain ⟨hc, hr⟩ := Bool.and_eq_true_iff.mp ha
    obtain ⟨hf, m, hm, hmr⟩ := (Biu.cmdReady_iff _ _ _).mp hr
    refine ⟨⟨⟨hc, hf⟩, hs⟩, ?_⟩
    by_cases hmn : m = n
    · exact hmn ▸ hmr
    · have hcn := r.selects_both m n t hm hs hmn
      have hne : n ≠ .plic := by rcases hcn with rfl | rfl <;> exact Slave.noConfusion
      refine r.ready_of_free n t hcn ?_
      rw [slaveRsp_eq_held hh n hne, held, hf]
      rfl

-- The response that the LSU sees is that of every slave in the record.
theorem slaveRsp_eq_rspValid (n : Slave) (hd : r.held n t = true) :
    r.slaveRsp n t = (r.st t).rspValid (r.ins t) := by
  obtain ⟨hv, hb⟩ := Bool.and_eq_true_iff.mp hd
  rw [Bool.eq_iff_iff]
  constructor
  · intro h
    exact (Biu.rspValid_iff _ _).mpr ⟨hv, n, h, hb⟩
  · intro h
    by_cases hn : n = .plic
    · -- The PLIC is never selected together with another slave.
      obtain ⟨-, m, hm, hmb⟩ := (Biu.rspValid_iff _ _).mp h
      obtain ⟨u, -, -, hu⟩ := r.splitFifo_dat t hv
      rw [hu] at hb hmb
      by_cases hmn : m = n
      · exact hmn ▸ hm
      · have hcn := r.selects_both m n u hmb hb hmn
        rw [hn] at hcn
        rcases hcn with hcn | hcn <;> exact Slave.noConfusion hcn
    · rw [slaveRsp_eq_held hh n hn, hd]

theorem slaveAnswers_eq (n : Slave) : r.slaveAnswers n t = (r.answers t && r.held n t) := by
  have hr : ((r.st t).slaveRspReady (r.ins t)).getLsbD n.port = (r.held n t && (r.ins t).rspReady) :=
    Biu.getLsbD_oRspReady _ _ _
  rw [slaveAnswers, hr]
  cases hd : r.held n t with
  | false => simp
  | true => rw [slaveRsp_eq_rspValid hh n hd, answers, Bool.true_and, Bool.and_true]

theorem held_step (n : Slave) : times (r.slaveAnswers n) (t + 1) + (r.held n (t + 1)).toNat =
    times (r.slaveAccepts n) (t + 1) := by
  have h := hh n
  rw [times_succ, times_succ, slaveAnswers_eq hh n, slaveAccepts_eq hh n, held_succ]
  cases ha : r.accepts t with
  | true =>
    have hv := r.not_vld_of_accepts t ha
    have hd : r.held n t = false := by rw [held, hv]; rfl
    rw [hd] at h ⊢
    simp at h ⊢
    omega
  | false => cases r.answers t <;> cases hd : r.held n t <;> simp [hd] at h ⊢ <;> omega

end Step

theorem held_add (t : Nat) (n : Slave) :
    times (r.slaveAnswers n) t + (r.held n t).toNat = times (r.slaveAccepts n) t := by
  induction t generalizing n with
  | zero => rfl
  | succ t ih => exact held_step ih n

-- A slave numbers its commands as the LSU numbers those that select it.

theorem answers_kind (n : Slave) (v : Nat) (hv : r.answers v = true) :
    ∃ w < v, Nth r.accepts (times r.answers v) w ∧ r.held n v = r.selects n w := by
  have hf := r.vld_of_answers v hv
  obtain ⟨w, hw, hn, hd⟩ := r.splitFifo_dat v hf
  refine ⟨w, hw, hn, ?_⟩
  rw [held, hf, hd]
  rfl

theorem nth_slave (n : Slave) (t u : Nat) (hu : u < t) (hn : Nth r.accepts (times r.answers t) u)
    (hs : r.selects n u = true) : Nth (r.slaveAccepts n) (times (r.slaveAnswers n) t) u := by
  have hpush : r.slaveAccepts n = fun v => r.accepts v && r.selects n v :=
    funext fun v => slaveAccepts_eq (r.held_add v) n
  have hpop : r.slaveAnswers n = fun v => r.answers v && r.held n v :=
    funext fun v => slaveAnswers_eq (r.held_add v) n
  rw [hpush, hpop]
  refine ⟨?_, times_kind_eq (c := r.selects n) (d := r.held n) (r.answers_kind n) hu.le hn.2⟩
  exact Bool.and_eq_true_iff.mpr ⟨hn.1, hs⟩

-- The slave that owns the command of cycle `u`.
def owner (u : Nat) : Slave := Slave.owner (r.ins u).cmd.addr

theorem selects_owner (u : Nat) : r.selects (r.owner u) u = true := Biu.getLsbD_spltIndic_owner _

def slaveErr (n : Slave) (t : Nat) : Bool := ((r.st t).slaveRspErr (r.ins t)).getLsbD n.port

def slaveRdata (n : Slave) (t : Nat) : BitVec 32 := (r.st t).slaveRspRdata (r.ins t) n.port

-- What the owner has made of the command of cycle `u` by cycle `t`. A memory reads
-- the word as it is when the command comes, and the CLINT its register; the PLIC is
-- not described.
def Produced (u t : Nat) : Prop :=
  match r.owner u with
  | .dtcm => (r.ins u).cmd.read = true →
      r.slaveRdata .dtcm t = r.dtcm.memory u (Tcm.index (r.ins u).cmd.addr)
  | .itcm => (r.ins u).cmd.read = true →
      r.slaveRdata .itcm t = r.itcm.memory u (Tcm.index (r.ins u).cmd.addr)
  | .plic => True
  | .clint => r.slaveRdata .clint t = (r.st u).clint.pipeIdat ((r.st u).clintIn (r.ins u))
  | .nop => r.slaveRdata .nop t = 0#32

section Owners

variable {r} {t u : Nat}

theorem rdata_dtcm (hu : u < t) (hn : Nth (r.slaveAccepts .dtcm) (times (r.slaveAnswers .dtcm) t) u)
    (hr : (r.ins u).cmd.read = true) :
    r.slaveRdata .dtcm t = r.dtcm.memory u (Tcm.index (r.ins u).cmd.addr) := by
  rw [slaveAccepts_dtcm, slaveAnswers_dtcm] at hn
  have h := r.dtcm.rspRdata_of_waiting t u hn hu hr
  rw [dtcm_st] at h
  exact h

theorem rdata_itcm (hv : r.slaveRsp .itcm t = true)
    (hn : Nth (r.slaveAccepts .itcm) (times (r.slaveAnswers .itcm) t) u)
    (hr : (r.ins u).cmd.read = true) :
    r.slaveRdata .itcm t = r.itcm.memory u (Tcm.index (r.ins u).cmd.addr) := by
  rw [slaveRsp_itcm, Bool.and_eq_true, decide_eq_true_eq, decide_eq_true_eq] at hv
  obtain ⟨w, hw, hnw, he⟩ := r.arbt.rspPortId_eq t hv.1
  have hport := Arbt.Run.nth_port r.arbt_inOrder 0#1 t w hw hnw (hv.2.trans he)
  rw [portSends_lsu, portAnswered_lsu] at hport
  obtain rfl := hport.unique hn
  have hcmd : (r.itcm.ins w).cmd = (r.ins w).cmd := by
    have h := r.arbt.oCmd_of_sends w hnw.1
    rw [← hv.2.trans he] at h
    exact h
  rw [arbt_sends, arbt_answered] at hnw
  have h := r.itcm.rspRdata_of_waiting t w hnw hw (by rw [hcmd]; exact hr)
  rw [hcmd, itcm_st] at h
  exact h

theorem rdata_clint (hv : r.slaveRsp .clint t = true)
    (hn : Nth (r.slaveAccepts .clint) (times (r.slaveAnswers .clint) t) u) :
    r.slaveRdata .clint t = (r.st u).clint.pipeIdat ((r.st u).clintIn (r.ins u)) := by
  rw [slaveRsp_clint] at hv
  have hh := congrArg List.head? (Pipe.items_of_vld _ hv)
  obtain ⟨w, -, hnw, hx, -⟩ := r.isQueue_clint.head?_items t _ _ hh
  obtain rfl := hnw.unique hn
  exact hx

end Owners

-- The register of the nop slave never holds anything else.
theorem rdata_nop (t : Nat) : r.slaveRdata .nop t = 0#32 := by
  have h : (r.st t).nopSlave.pipe.dat = 0#32 := by
    induction t with
    | zero => rfl
    | succ t ih =>
      have hd : (r.st (t + 1)).nopSlave.pipe.dat = dfflr ((r.st t).nopSlave.pipe.vldSet false
          { iVld := ((r.st t).slaveCmdValid (r.ins t)).getLsbD 4, iDat := 0#32, iCancel := false,
            oRdy := ((r.st t).slaveRspReady (r.ins t)).getLsbD 4, branch := false })
          0#32 (r.st t).nopSlave.pipe.dat := rfl
      rw [hd, ih]
      exact dfflr_eq_of_hold _ _ _ fun _ => rfl
  exact h

theorem produced (t u : Nat) (hu : u < t) (hv : r.slaveRsp (r.owner u) t = true)
    (hn : Nth (r.slaveAccepts (r.owner u)) (times (r.slaveAnswers (r.owner u)) t) u) :
    r.Produced u t := by
  rw [Produced]
  cases ho : r.owner u with
  | dtcm =>
    rw [ho] at hn
    exact rdata_dtcm hu hn
  | itcm =>
    rw [ho] at hn hv
    exact rdata_itcm hv hn
  | plic => trivial
  | clint =>
    rw [ho] at hn hv
    exact rdata_clint hv hn
  | nop => exact r.rdata_nop t

-- The bus in cycle `t`, as seen from the LSU and from the slaves.
structure Answers (t : Nat) : Prop where
  single : times r.accepts t ≤ times r.answers t + 1
  offered : (r.st t).rspValid (r.ins t) = true → ∃ u < t, Nth r.accepts (times r.answers t) u ∧
    r.slaveRsp (r.owner u) t = true ∧
    Nth (r.slaveAccepts (r.owner u)) (times (r.slaveAnswers (r.owner u)) t) u ∧
    (r.st t).rspErr (r.ins t) = r.slaveErr (r.owner u) t ∧
    (r.st t).rspRdata (r.ins t) = r.slaveRdata (r.owner u) t ∧ r.Produced u t
  consumed : ∀ n, r.slaveAnswers n t = true → r.answers t = true ∧
    ∃ u < t, Nth r.accepts (times r.answers t) u ∧
      Nth (r.slaveAccepts n) (times (r.slaveAnswers n) t) u

-- The oldest unanswered command is in the record.
theorem held_of_waiting (n : Slave) (t u : Nat) (hu : u < t)
    (hn : Nth r.accepts (times r.answers t) u) (hs : r.selects n u = true) : r.held n t = true := by
  have hc := r.answers_add_vld t
  have hlt := hn.lt_times hu
  have hv : (r.st t).biu.splitFifo.vld = true := by
    by_contra hf
    rw [Bool.not_eq_true] at hf
    rw [hf, Bool.toNat_false] at hc
    omega
  obtain ⟨w, -, hnw, hd⟩ := r.splitFifo_dat t hv
  obtain rfl := hnw.unique hn
  rw [held, hv, hd]
  exact hs

theorem bus_offered (t : Nat) (hv : (r.st t).rspValid (r.ins t) = true) :
    ∃ u < t, Nth r.accepts (times r.answers t) u ∧ r.slaveRsp (r.owner u) t = true ∧
      Nth (r.slaveAccepts (r.owner u)) (times (r.slaveAnswers (r.owner u)) t) u ∧
      (r.st t).rspErr (r.ins t) = r.slaveErr (r.owner u) t ∧
      (r.st t).rspRdata (r.ins t) = r.slaveRdata (r.owner u) t ∧ r.Produced u t := by
  have hf := ((Biu.rspValid_iff _ _).mp hv).1
  obtain ⟨u, hu, hn, hd⟩ := r.splitFifo_dat t hf
  have hh := r.held_of_waiting (r.owner u) t u hu hn (r.selects_owner u)
  have hr : r.slaveRsp (r.owner u) t = true := by
    rw [slaveRsp_eq_rspValid (r.held_add t) _ hh, hv]
  have hs := r.nth_slave (r.owner u) t u hu hn (r.selects_owner u)
  refine ⟨u, hu, hn, hr, hs, ?_, ?_, r.produced t u hu hr hs⟩
  · refine Biu.rspErr_owner _ _ hf hd _ ?_
    rw [slaveRspErr, Biu.getLsbD_ports]
    rfl
  · exact Biu.rspRdata_owner _ _ hf hd _ (r.rdata_nop t)

theorem bus_consumed (t : Nat) (n : Slave) (h : r.slaveAnswers n t = true) :
    r.answers t = true ∧ ∃ u < t, Nth r.accepts (times r.answers t) u ∧
      Nth (r.slaveAccepts n) (times (r.slaveAnswers n) t) u := by
  rw [slaveAnswers_eq (r.held_add t) n, Bool.and_eq_true] at h
  obtain ⟨u, hu, hn, hk⟩ := r.answers_kind n t h.1
  exact ⟨h.1, u, hu, hn, r.nth_slave n t u hu hn (hk ▸ h.2)⟩

-- From some cycle on the answer to a command is there until the LSU takes it.
theorem eventually_rspValid (hp : r.PlicAnswers) (u : Nat) (ha : r.accepts u = true) :
    ∃ w > u, ∀ t ≥ w, times r.answers t = times r.accepts u → (r.st t).rspValid (r.ins t) = true := by
  have hwait : ∀ t > u, times r.answers t = times r.accepts u → r.held (r.owner u) t = true := by
    intro t ht hc
    exact r.held_of_waiting _ t u ht ⟨ha, hc.symm⟩ (r.selects_owner u)
  by_cases ho : r.owner u = .plic
  · have hs : r.slaveAccepts .plic u = true := by
      rw [slaveAccepts_eq (r.held_add u), ha, ← ho, r.selects_owner u]
      rfl
    obtain ⟨w, hw, hkeep⟩ := hp u hs
    refine ⟨w, hw, fun t ht hc => ?_⟩
    have htu : u < t := Nat.lt_of_lt_of_le hw ht
    have hn := r.nth_slave .plic t u htu ⟨ha, hc.symm⟩ (ho ▸ r.selects_owner u)
    have hv := hkeep t ht hn.2.symm
    have hr : r.slaveRsp .plic t = true := by
      rw [slaveRsp, slaveRspValid, Biu.getLsbD_ports]
      exact hv
    rw [← slaveRsp_eq_rspValid (r.held_add t) .plic (ho ▸ hwait t htu hc), hr]
  · refine ⟨u + 1, Nat.lt_succ_self u, fun t ht hc => ?_⟩
    have hh := hwait t ht hc
    rw [← slaveRsp_eq_rspValid (r.held_add t) _ hh, slaveRsp_eq_held (r.held_add t) _ ho, hh]

theorem answers_succ_of_accepts (u : Nat) (ha : r.accepts u = true) :
    times r.answers (u + 1) = times r.accepts u := by
  have hc := r.answers_add_vld u
  have hv := r.not_vld_of_accepts u ha
  have hn : r.answers u = false := by
    by_contra h
    rw [Bool.not_eq_false] at h
    rw [r.vld_of_answers u h] at hv
    exact Bool.noConfusion hv
  rw [hv, Bool.toNat_false] at hc
  rw [times_succ, hn]
  exact hc

theorem exists_answer (hp : r.PlicAnswers) (u : Nat) (ha : r.accepts u = true) :
    ∃ w > u, ∀ t ≥ w, (r.ins t).rspReady = true →
      ∃! v, (u < v ∧ v ≤ t) ∧ Nth r.answers (times r.accepts u) v := by
  obtain ⟨w, hw, hv⟩ := r.eventually_rspValid hp u ha
  refine ⟨w, hw, fun t ht hr => ?_⟩
  have hs := r.answers_succ_of_accepts u ha
  have hm := times_mono r.answers (show u + 1 ≤ t by omega)
  refine existsUnique_nth _ hs.le ?_
  rw [times_succ]
  rcases Nat.lt_or_ge (times r.accepts u) (times r.answers t) with h | h
  · omega
  · have hrv := hv t ht (by omega)
    rw [answers, hrv, hr]
    exact Nat.lt_succ_of_le (hs ▸ hm)

theorem bus_answers (r : Run) (hp : r.PlicAnswers) : (∀ t, r.Answers t) ∧
    ∀ u, r.accepts u = true → ∃ w > u, ∀ t ≥ w, (r.ins t).rspReady = true →
      ∃! v, (u < v ∧ v ≤ t) ∧ Nth r.answers (times r.accepts u) v := by
  refine ⟨fun t => ⟨?_, r.bus_offered t, r.bus_consumed t⟩, r.exists_answer hp⟩
  have hc := r.answers_add_vld t
  have hb := Bool.toNat_le (r.st t).biu.splitFifo.vld
  omega

-- One read of a PLIC register, which is answered in the cycle after.
def readPlic : Run where
  power := (Cpu.powerOn fun _ => 0#32).memBus
  ins t :=
    { cmdValid := decide (t = 0)
      cmd := { read := true, wmask := 0#4, wdata := 0#32, addr := 0xF1000000#32 }
      rspReady := true
      ifCmdValid := false
      ifCmd := { read := true, wmask := 0#4, wdata := 0#32, addr := 0#32 }
      ifRspReady := true
      plicCmdReady := true
      plicRspValid := decide (t = 1)
      plicRspErr := false
      plicRspRdata := 7#32
      asyncClk := false }

theorem readPlic_plicAnswers : readPlic.PlicAnswers := by
  intro u hu
  have hv := (Bool.and_eq_true_iff.mp hu).1
  rw [slaveCmdValid, Biu.getLsbD_oCmdValid, Bool.and_eq_true, Bool.and_eq_true] at hv
  have hz : u = 0 := of_decide_eq_true hv.1.1
  subst hz
  -- The answer is taken in cycle 1, so that it is not waited for any longer.
  refine ⟨1, Nat.one_pos, fun t ht hc => ?_⟩
  have h2 : times (readPlic.slaveAnswers .plic) 2 = 1 := by decide
  by_cases h1 : t = 1
  · exact decide_eq_true h1
  · have hm := times_mono (readPlic.slaveAnswers .plic) (show 2 ≤ t by omega)
    have h0 : times (readPlic.slaveAccepts .plic) 0 = 0 := rfl
    omega

theorem bus_answers_plic : readPlic.PlicAnswers ∧ readPlic.accepts 0 = true ∧ readPlic.Answers 1 :=
  ⟨readPlic_plicAnswers, by decide, (bus_answers readPlic readPlic_plicAnswers).1 1⟩

end HiCore.MemBus.Run
