import HiCore.Lib.Channel
import HiCore.Refine.Buffers

-- `HiCore_queue`, `HiCore_pipe` and `sirv_bypbuf` between whatever stands at their two
-- ends: first-in first-out buffers with a sticky cancel flag, and the count that the
-- last of them keeps of what it stores.
namespace HiCore

open History (Channel)

namespace Queue

-- A run after reset. What the registers without a reset hold then is arbitrary.
structure Run (k : Nat) (α : Type) where
  power : Queue k α
  ins : Nat → In α

namespace Run

variable {k : Nat} {α : Type} (r : Run k α)

def st : Nat → Queue k α := History.run next r.power.reset r.ins

def channel : Channel α where
  dat t := (r.ins t).iInfo
  cancel t := (r.ins t).iCancel
  flush t := (r.ins t).flush
  accept t := (r.ins t).iValid && (r.st t).iReady
  offer t := (r.st t).oValid
  ready t := (r.ins t).oReady
  out t := (r.st t).oInfo
  outCancel t := (r.st t).oCancel

theorem st_succ (t : Nat) : r.st (t + 1) = (r.st t).next (r.ins t) := rfl

theorem wf (t : Nat) : (r.st t).Wf := wf_run (q := r.st) (wf_reset _) r.st_succ t

theorem lossless : r.channel.Lossless 1 (2 ^ k) := by
  have hq : History.IsQueue r.channel.dat r.channel.cancel r.channel.accept r.channel.leave
      r.channel.flush fun t => (r.st t).items :=
    isQueue (items_reset _) (wf_reset _) r.st_succ
  refine Channel.lossless_of_isQueue hq ?_ ?_ ?_
  · exact Channel.offered_of_registered hq fun t => oValid_iff _
  · intro t hv
    rw [List.head?_append, head?_items _ hv]
    rfl
  · intro t
    rw [length_items]
    exact r.wf t

end Run

end Queue

namespace Pipe

structure Run (α : Type) where
  cutReady : Bool
  ins : Nat → In α

namespace Run

variable {α : Type} [Inhabited α] (r : Run α)

def st : Nat → Pipe α := History.run (next r.cutReady) reset r.ins

def channel : Channel α where
  dat t := (r.ins t).iDat
  cancel t := (r.ins t).iCancel
  flush t := (r.ins t).branch
  accept t := (r.ins t).iVld && (r.st t).iRdy r.cutReady (r.ins t).oRdy
  offer t := (r.st t).vld
  ready t := (r.ins t).oRdy
  out t := (r.st t).dat
  outCancel t := (r.st t).cancel

theorem st_succ (t : Nat) : r.st (t + 1) = (r.st t).next r.cutReady (r.ins t) := rfl

theorem lossless : r.channel.Lossless 1 1 := by
  have hq : History.IsQueue r.channel.dat r.channel.cancel r.channel.accept r.channel.leave
      r.channel.flush fun t => (r.st t).items :=
    isQueue r.cutReady rfl r.st_succ
  refine Channel.lossless_of_isQueue hq ?_ ?_ ?_
  · refine Channel.offered_of_registered hq fun t => ?_
    rw [Ne, items_eq_nil_iff, Bool.not_eq_false]
    rfl
  · intro t hv
    rw [items_of_vld _ hv]
    rfl
  · intro t
    rw [length_items]
    exact Bool.toNat_le _

end Run

end Pipe

namespace Bypbuf

structure Run (k : Nat) (α : Type) where
  power : Bypbuf k α
  ins : Nat → In α

namespace Run

variable {k : Nat} {α : Type} (r : Run k α)

def st : Nat → Bypbuf k α := History.run next r.power.reset r.ins

def channel : Channel α where
  dat t := (r.ins t).iDat
  cancel t := (r.ins t).iCancel
  flush t := (r.ins t).flush
  accept t := (r.ins t).iVld && (r.st t).iRdy
  offer t := (r.st t).oVld (r.ins t).iVld
  ready t := (r.ins t).oRdy
  out t := (r.st t).oDat (r.ins t).iDat
  outCancel t := (r.st t).oCancel (r.ins t).iCancel

-- The two ways of an item through the buffer.

def bypassed (t : Nat) : Bool := (r.st t).byp (r.ins t)

def enqueued (t : Nat) : Bool := (r.st t).fifo.wen ((r.st t).fifoIn (r.ins t))

theorem st_succ (t : Nat) : r.st (t + 1) = (r.st t).next (r.ins t) := rfl

theorem wf (t : Nat) : (r.st t).Wf := wf_run (b := r.st) (wf_reset _) r.st_succ t

theorem counted (t : Nat) : (r.st t).Counted :=
  counted_run (b := r.st) (wf_reset _) (counted_reset _) r.st_succ t

end Run

end Bypbuf

-- Of every width and depth, whatever comes, whatever is taken and whenever there is a
-- flush, the queue and the slice hand on what they accept.
theorem queue_and_pipe_lossless :
    (∀ (k : Nat) (α : Type) (r : Queue.Run k α), r.channel.Lossless 1 (2 ^ k)) ∧
      ∀ (α : Type) [Inhabited α] (r : Pipe.Run α), r.channel.Lossless 1 1 := by
  constructor
  · intro k α r
    exact r.lossless
  · intro α _ r
    exact r.lossless

namespace Bypbuf

variable {k : Nat} {α : Type}

-- What is accepted goes one of the two ways.
theorem accept_eq (b : Bypbuf k α) (i : In α) :
    (i.iVld && b.iRdy) = (b.byp i ^^ b.fifo.wen (b.fifoIn i)) := by
  cases hb : b.byp i with
  | false => simp [Queue.wen, fifoIn, hb, iRdy]
  | true =>
    have hv : (i.iVld && i.oRdy && !b.fifo.oValid) = true := hb
    simp only [Bool.and_eq_true, Bool.not_eq_true'] at hv
    have hr := iRdy_of_not_oValid b hv.2
    simp [Queue.wen, fifoIn, hb, hv.1.1, hr]

theorem not_byp_and_wen (b : Bypbuf k α) (i : In α) :
    (b.byp i && b.fifo.wen (b.fifoIn i)) = false := by
  cases hb : b.byp i with
  | false => rfl
  | true => simp [Queue.wen, fifoIn, hb]

end Bypbuf

theorem bypbuf_lossless {k : Nat} {α : Type} (r : Bypbuf.Run k α) :
    r.channel.Lossless 0 (2 ^ k) ∧
      ∀ t, r.channel.accept t = (r.bypassed t ^^ r.enqueued t) ∧
        (r.bypassed t && r.enqueued t) = false := by
  have hq : History.IsQueue r.channel.dat r.channel.cancel r.channel.accept r.channel.leave
      r.channel.flush fun t => (r.st t).items :=
    Bypbuf.isQueue (Bypbuf.items_reset _) (Bypbuf.wf_reset _) r.st_succ
  constructor
  · refine Channel.lossless_of_isQueue hq ?_ ?_ ?_
    · exact Channel.offered_of_bypass hq fun t => Bypbuf.oVld_iff _ _
    · intro t hv
      exact Bypbuf.head?_items _ _ _ _ hv
    · intro t
      exact Bypbuf.length_le _ (r.wf t)
  · intro t
    exact ⟨Bypbuf.accept_eq _ _, Bypbuf.not_byp_and_wen _ _⟩

namespace Bypbuf

variable {k : Nat} {α : Type}

-- `wr_ptr - rd_ptr`.
def stored (b : Bypbuf k α) : Nat := Ring.count b.fifo.rdPtr b.fifo.wrPtr

-- What the count and the flag made of it are meant to say.
def Exact (b : Bypbuf k α) : Prop :=
  b.fifoCnt.toNat = b.stored ∧ (b.fifoHalfFull = true ↔ 2 ^ k / 2 ≤ b.stored)

instance (b : Bypbuf k α) : Decidable b.Exact := inferInstanceAs (Decidable (_ ∧ _))

theorem stored_eq (b : Bypbuf k α) : b.stored = b.items.length := b.fifo.length_items.symm

-- With `2 ^ k` items the `k` bits of the count are all 0.
theorem exact_iff (b : Bypbuf k α) (hw : b.Wf) (hc : b.Counted) : b.Exact ↔ b.stored ≠ 2 ^ k := by
  have hl := b.length_le hw
  have hp := Nat.two_pow_pos k
  rw [← stored_eq] at hl
  have hn : b.fifoCnt.toNat = b.stored % 2 ^ k := by
    rw [hc, BitVec.toNat_ofNat, stored_eq]
  rw [Exact, fifoHalfFull, decide_eq_true_iff, hn]
  rcases Nat.lt_or_eq_of_le hl with h | h
  · rw [Nat.mod_eq_of_lt h]
    exact iff_of_true ⟨rfl, Iff.rfl⟩ h.ne
  · rw [h, Nat.mod_self]
    refine iff_of_false ?_ (by simp)
    rintro ⟨h0, -⟩
    omega

-- A queue with room is full next when its last place is taken and nothing leaves.
theorem stored_next_eq_iff (b : Bypbuf k α) (i : In α) (hw : b.Wf) (hr : b.stored ≠ 2 ^ k) :
    (b.next i).stored = 2 ^ k ↔ b.stored + 1 = 2 ^ k ∧ i.iVld = true ∧ i.oRdy = false := by
  have hl : (b.next i).items.length + (b.fifo.ren (b.fifoIn i)).toNat =
      b.items.length + (b.fifo.wen (b.fifoIn i)).toNat := b.fifo.length_next (b.fifoIn i) hw
  have hle := b.length_le hw
  rw [stored_eq] at hr
  have hi : b.fifo.iReady = true := b.iRdy_iff.mpr hr
  rw [stored_eq, stored_eq]
  cases hv : i.iVld <;> cases ho : i.oRdy <;> cases hq : b.fifo.oValid <;>
    simp [Queue.wen, Queue.ren, fifoIn, byp, hv, ho, hq, hi] at hl ⊢ <;> omega

end Bypbuf

-- The count is right in every state in which the queue is not full, and so in every
-- state of a run in which it never fills up.
theorem bypbuf_count_exact_iff {k : Nat} {α : Type} (r : Bypbuf.Run k α) :
    (∀ t, (r.st t).Exact ↔ (r.st t).stored ≠ 2 ^ k) ∧
      ((∀ t, (r.st t).Exact) ↔ ∀ t,
        ¬ ((r.st t).stored + 1 = 2 ^ k ∧ (r.ins t).iVld = true ∧ (r.ins t).oRdy = false)) := by
  have he : ∀ t, (r.st t).Exact ↔ (r.st t).stored ≠ 2 ^ k := fun t =>
    Bypbuf.exact_iff _ (r.wf t) (r.counted t)
  refine ⟨he, ?_⟩
  have h0 : (r.st 0).Exact := by
    rw [he, Bypbuf.stored_eq]
    have hp := Nat.two_pow_pos k
    have hn : (r.st 0).items = [] := Bypbuf.items_reset _
    rw [hn]
    exact hp.ne
  refine History.always_iff h0 fun t ht => ?_
  rw [he] at ht ⊢
  rw [r.st_succ, Ne, Bypbuf.stored_next_eq_iff _ _ (r.wf t) ht]

namespace Bypbuf

-- Four items come and none is taken.
def Run.blocked : Run 2 (BitVec 32) where
  power :=
    { fifo :=
        { wrPtr := 0#3
          rdPtr := 0#3
          queueRam := fun _ => 0#32
          queueCancel := fun _ => false }
      fifoCnt := 0#2 }
  ins _ := { iVld := true, iDat := 0#32, iCancel := false, oRdy := false, flush := false }

end Bypbuf

theorem blocked_counts_none :
    ((Bypbuf.Run.blocked.st 4).stored = 4 ∧ (Bypbuf.Run.blocked.st 4).fifoCnt = 0#2 ∧
      (Bypbuf.Run.blocked.st 4).fifoHalfFull = false) ∧
      ¬ ∀ t, (Bypbuf.Run.blocked.st t).Exact := by
  constructor
  · decide +kernel
  · intro h
    have h4 := h 4
    revert h4
    decide +kernel

end HiCore
