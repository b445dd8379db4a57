import HiCore.Lib.History
import HiCore.Rtl.Buffers

-- The register slice, the memory queue and the bypass buffer are one abstract
-- thing: a queue with marks, of one place or of `2 ^ k`.
namespace HiCore

namespace Pipe

variable {α : Type}

def items (p : Pipe α) : List (α × Bool) := if p.vld then [(p.dat, p.cancel)] else []

@[simp] theorem items_reset [Inhabited α] : (Pipe.reset : Pipe α).items = [] := rfl

theorem items_next (cutReady : Bool) (p : Pipe α) (i : In α) :
    (p.next cutReady i).items = Fifo.next i.branch (p.vldClr i.oRdy)
      (if p.vldSet cutReady i then [(i.iDat, i.iCancel)] else []) p.items := by
  obtain ⟨vld, dat, cancel⟩ := p
  obtain ⟨iVld, iDat, iCancel, oRdy, branch⟩ := i
  cases cutReady <;> cases vld <;> cases iVld <;> cases oRdy <;> cases branch <;>
    simp [next, items, Fifo.next, Fifo.shift, Fifo.mark, vldSet, vldClr, iRdy]

theorem vld_next (cutReady : Bool) (p : Pipe α) (i : In α) :
    (p.next cutReady i).vld = (p.vldSet cutReady i || (p.vld && !p.vldClr i.oRdy)) := by
  obtain ⟨vld, dat, cancel⟩ := p
  cases hs : vldSet cutReady ⟨vld, dat, cancel⟩ i <;> cases vld <;> cases hr : i.oRdy <;>
    simp [next, vldClr, hs, hr]

theorem items_of_vld (p : Pipe α) (h : p.vld = true) : p.items = [(p.dat, p.cancel)] := by
  simp [items, h]

theorem items_eq_nil_iff (p : Pipe α) : p.items = [] ↔ p.vld = false := by
  simp [items]

-- What a queue in lockstep with the slice can look like.
theorem rel_of_vld {β : Type} {R : α → β → Prop} {p : Pipe α} {g : List (β × Bool)}
    (h : Fifo.Rel R p.items g) (hv : p.vld = true) : ∃ d, g = [(d, p.cancel)] ∧ R p.dat d := by
  rw [items_of_vld p hv] at h
  obtain ⟨⟨d, c⟩, u, ⟨hc, hr⟩, hu, rfl⟩ := List.forall₂_cons_left_iff.mp h
  rw [List.forall₂_nil_left_iff.mp hu]
  obtain rfl : p.cancel = c := hc
  exact ⟨d, rfl, hr⟩

theorem rel_of_not_vld {β : Type} {R : α → β → Prop} {p : Pipe α} {g : List (β × Bool)}
    (h : Fifo.Rel R p.items g) (hv : p.vld = false) : g = [] := by
  rw [(items_eq_nil_iff p).mpr hv] at h
  exact List.forall₂_nil_left_iff.mp h

-- The slice along a run.
theorem isQueue (cutReady : Bool) {p : Nat → Pipe α} {i : Nat → In α} (h0 : (p 0).vld = false)
    (hs : ∀ t, p (t + 1) = (p t).next cutReady (i t)) :
    History.IsQueue (fun t => (i t).iDat) (fun t => (i t).iCancel)
      (fun t => (p t).vldSet cutReady (i t)) (fun t => (p t).vldClr (i t).oRdy)
      (fun t => (i t).branch) fun t => (p t).items where
  start := (items_eq_nil_iff _).mpr h0
  step t := by rw [hs, items_next]
  nonempty t h := by
    left
    intro hn
    rw [vldClr, (items_eq_nil_iff _).mp hn] at h
    exact Bool.noConfusion h

theorem length_items (p : Pipe α) : p.items.length = p.vld.toNat := by
  cases h : p.vld <;> simp [items, h]

-- With its output always taken the slice never refuses an input.
theorem iRdy_true (p : Pipe α) : p.iRdy false true = true := by
  cases h : p.vld <;> simp [iRdy, vldClr, h]

end Pipe

namespace Queue

variable {k : Nat} {α : Type}

def items (q : Queue k α) : List (α × Bool) :=
  (Ring.window q.rdPtr q.wrPtr).map fun j => (q.queueRam j, q.queueCancel j)

-- The pointers are at most one lap apart.
def Wf (q : Queue k α) : Prop := Ring.count q.rdPtr q.wrPtr ≤ 2 ^ k

theorem wf_reset (q : Queue k α) : q.reset.Wf := by
  simp [Wf, reset]

@[simp] theorem items_reset (q : Queue k α) : q.reset.items = [] := by
  simp [items, reset]

theorem length_items (q : Queue k α) : q.items.length = Ring.count q.rdPtr q.wrPtr := by
  simp [items]

theorem oValid_iff (q : Queue k α) : q.oValid = true ↔ q.items ≠ [] := by
  rw [oValid, Bool.not_eq_true', empty, ← Bool.not_eq_true, Ring.isEmpty_iff_window, items,
    Ne, List.map_eq_nil_iff]

theorem items_eq_nil (q : Queue k α) (h : q.oValid = false) : q.items = [] := by
  by_contra hc
  rw [(oValid_iff q).mpr hc] at h
  exact Bool.noConfusion h

theorem iReady_iff (q : Queue k α) : q.iReady = true ↔ q.items.length ≠ 2 ^ k := by
  rw [iReady, Bool.not_eq_true', full, ← Bool.not_eq_true, Ring.isFull_iff, length_items]

theorem head?_items (q : Queue k α) (h : q.oValid = true) :
    q.items.head? = some (q.oInfo, q.oCancel) := by
  have hc : 0 < Ring.count q.rdPtr q.wrPtr := by
    rw [← length_items]
    exact List.length_pos_iff.mpr ((oValid_iff q).mp h)
  rw [items, Ring.window_pop _ _ hc]
  rfl

theorem rel_of_oValid {β : Type} {R : α → β → Prop} {q : Queue k α} {g : List (β × Bool)}
    (h : Fifo.Rel R q.items g) (hv : q.oValid = true) :
    ∃ d rest, g = (d, q.oCancel) :: rest ∧ R q.oInfo d := by
  obtain ⟨d, hd, hr⟩ := h.head? _ _ (head?_items q hv)
  obtain ⟨rest, hg⟩ := List.head?_eq_some_iff.mp hd
  exact ⟨d, rest, hg, hr⟩

theorem count_lt_of_wen (q : Queue k α) (i : In α) (hw : q.Wf) (h : q.wen i = true) :
    Ring.count q.rdPtr q.wrPtr < 2 ^ k := by
  have hr := (iReady_iff q).mp (Bool.and_eq_true_iff.mp h).2
  rw [length_items] at hr
  exact Nat.lt_of_le_of_ne hw hr

theorem count_pos_of_ren (q : Queue k α) (i : In α) (h : q.ren i = true) :
    0 < Ring.count q.rdPtr q.wrPtr := by
  have hv := (oValid_iff q).mp (Bool.and_eq_true_iff.mp h).1
  rw [← length_items]
  exact List.length_pos_iff.mpr hv

-- The window after the clock edge, before the payload registers are read.
theorem window_next (q : Queue k α) (i : In α) (hw : q.Wf) :
    Ring.window (q.next i).rdPtr (q.next i).wrPtr = Fifo.shift (q.ren i)
      (if q.wen i then [Ring.slot q.wrPtr] else []) (Ring.window q.rdPtr q.wrPtr) := by
  exact Ring.window_step _ _ _ _ (count_pos_of_ren q i) (count_lt_of_wen q i hw)

theorem wf_next (q : Queue k α) (i : In α) (hw : q.Wf) : (q.next i).Wf := by
  have hl : (Ring.window (q.next i).rdPtr (q.next i).wrPtr).length ≤ 2 ^ k := by
    rw [window_next q i hw]
    refine Nat.le_trans (Fifo.shift_sublist _ _ _).length_le ?_
    have hc : Ring.count q.rdPtr q.wrPtr ≤ 2 ^ k := hw
    cases hp : q.wen i with
    | false => simpa using hc
    | true => simpa using Nat.succ_le_of_lt (count_lt_of_wen q i hw hp)
  rwa [Ring.length_window] at hl

theorem items_next (q : Queue k α) (i : In α) (hw : q.Wf) :
    (q.next i).items = Fifo.next i.flush (q.ren i)
      (if q.wen i then [(i.iInfo, i.iCancel)] else []) q.items := by
  -- The slot under the write pointer is free, so the other items are not touched.
  have hold : ∀ j ∈ Ring.window q.rdPtr q.wrPtr,
      ((q.next i).queueRam j, (q.next i).queueCancel j) =
        (q.queueRam j, q.queueCancel j || i.flush) := by
    intro j hj
    have hne : (q.wen i && Ring.slot q.wrPtr == j) = false := by
      cases hp : q.wen i with
      | false => rfl
      | true =>
        have hn := Ring.slot_notMem_window _ _ (count_lt_of_wen q i hw hp)
        have : Ring.slot q.wrPtr ≠ j := fun he => hn (he ▸ hj)
        simpa using this
    cases hf : i.flush <;> simp [next, hne, hf]
  have hnew : q.wen i = true →
      ((q.next i).queueRam (Ring.slot q.wrPtr), (q.next i).queueCancel (Ring.slot q.wrPtr)) =
        (i.iInfo, i.iCancel || i.flush) := by
    intro hp
    cases hf : i.flush <;> simp [next, hp, hf]
  rw [items, window_next q i hw, Fifo.map_shift, Fifo.next, Fifo.mark, Fifo.map_shift, items,
    List.map_map, List.map_congr_left hold]
  congr 1
  cases hp : q.wen i with
  | false => rfl
  | true => simp [hnew hp]

theorem length_next (q : Queue k α) (i : In α) (hw : q.Wf) :
    (q.next i).items.length + (q.ren i).toNat = q.items.length + (q.wen i).toNat := by
  have hpos := count_pos_of_ren q i
  rw [items_next q i hw, Fifo.next, Fifo.mark, List.length_map, Fifo.shift]
  rw [← length_items] at hpos
  cases hr : q.ren i with
  | false => cases q.wen i <;> simp
  | true =>
    have := hpos hr
    cases q.wen i with
    | false => simp; omega
    | true => simp

theorem wf_run {q : Nat → Queue k α} {i : Nat → In α} (h0 : (q 0).Wf)
    (hs : ∀ t, q (t + 1) = (q t).next (i t)) (t : Nat) : (q t).Wf := by
  induction t with
  | zero => exact h0
  | succ t ih =>
    rw [hs]
    exact wf_next _ _ ih

-- The queue along a run.
theorem isQueue {q : Nat → Queue k α} {i : Nat → In α} (h0 : (q 0).items = []) (hw : (q 0).Wf)
    (hs : ∀ t, q (t + 1) = (q t).next (i t)) :
    History.IsQueue (fun t => (i t).iInfo) (fun t => (i t).iCancel) (fun t => (q t).wen (i t))
      (fun t => (q t).ren (i t)) (fun t => (i t).flush) fun t => (q t).items where
  start := h0
  step t := by rw [hs, items_next _ _ (wf_run hw hs t)]
  nonempty t h := .inl ((oValid_iff _).mp (Bool.and_eq_true_iff.mp h).1)

end Queue

namespace Bypbuf

variable {k : Nat} {α : Type}

def items (b : Bypbuf k α) : List (α × Bool) := b.fifo.items

def Wf (b : Bypbuf k α) : Prop := b.fifo.Wf

theorem wf_reset (b : Bypbuf k α) : b.reset.Wf := b.fifo.wf_reset

@[simp] theorem items_reset (b : Bypbuf k α) : b.reset.items = [] := b.fifo.items_reset

theorem wf_next (b : Bypbuf k α) (i : In α) (hw : b.Wf) : (b.next i).Wf :=
  b.fifo.wf_next (b.fifoIn i) hw

theorem wf_run {b : Nat → Bypbuf k α} {i : Nat → In α} (h0 : (b 0).Wf)
    (hs : ∀ t, b (t + 1) = (b t).next (i t)) (t : Nat) : (b t).Wf := by
  induction t with
  | zero => exact h0
  | succ t ih =>
    rw [hs]
    exact wf_next _ _ ih

-- What the buffer takes in a cycle, through the bypass or not.
def arrival (b : Bypbuf k α) (iVld : Bool) (iDat : α) (iCancel : Bool) : List (α × Bool) :=
  if iVld && b.iRdy then [(iDat, iCancel)] else []

theorem iRdy_of_not_oValid (b : Bypbuf k α) (h : b.fifo.oValid = false) : b.iRdy = true := by
  rw [iRdy, Queue.iReady_iff, b.fifo.items_eq_nil h]
  exact (Nat.two_pow_pos k).ne

-- Something is offered when the buffer holds something or takes something.
theorem oVld_iff (b : Bypbuf k α) (iVld : Bool) :
    b.oVld iVld = true ↔ b.items ≠ [] ∨ (iVld && b.iRdy) = true := by
  rw [oVld, Bool.or_eq_true, Queue.oValid_iff, Bool.and_eq_true]
  by_cases hn : b.items = []
  -- An empty buffer is ready for what goes straight through.
  · have hr : b.iRdy = true := by
      refine iRdy_of_not_oValid b ?_
      rw [← Bool.not_eq_true, Queue.oValid_iff, not_not]
      exact hn
    exact or_congr_right (and_iff_left hr).symm
  · exact iff_of_true (.inl hn) (.inl hn)

theorem items_next (b : Bypbuf k α) (i : In α) (hw : b.Wf) :
    (b.next i).items = Fifo.next i.flush (b.oVld i.iVld && i.oRdy)
      (b.arrival i.iVld i.iDat i.iCancel) b.items := by
  have hq := b.fifo.items_next (b.fifoIn i) hw
  rw [items, next, hq, items]
  cases hv : b.fifo.oValid with
  | true => simp [Queue.ren, Queue.wen, fifoIn, byp, oVld, arrival, iRdy, hv]
  | false =>
    -- An empty buffer is ready, and its input leaves at once when it can.
    have hr := iRdy_of_not_oValid b hv
    have hn := b.fifo.items_eq_nil hv
    rw [iRdy] at hr
    cases hi : i.iVld <;> cases ho : i.oRdy <;>
      simp [Queue.ren, Queue.wen, fifoIn, byp, oVld, arrival, iRdy, hv, hr, hn, hi, ho,
        Fifo.next, Fifo.shift]

theorem head?_items (b : Bypbuf k α) (iVld : Bool) (iDat : α) (iCancel : Bool)
    (h : b.oVld iVld = true) :
    (b.items ++ b.arrival iVld iDat iCancel).head? = some (b.oDat iDat, b.oCancel iCancel) := by
  cases hv : b.fifo.oValid with
  | true =>
    have hh := b.fifo.head?_items hv
    rw [List.head?_append, items, hh]
    simp [oDat, oCancel, hv]
  | false =>
    have hr := iRdy_of_not_oValid b hv
    have hn := b.fifo.items_eq_nil hv
    have hi : iVld = true := by simpa [oVld, hv] using h
    simp [items, hn, arrival, hi, hr, oDat, oCancel, hv]

-- The buffer along a run.
theorem isQueue {b : Nat → Bypbuf k α} {i : Nat → In α} (h0 : (b 0).items = []) (hw : (b 0).Wf)
    (hs : ∀ t, b (t + 1) = (b t).next (i t)) :
    History.IsQueue (fun t => (i t).iDat) (fun t => (i t).iCancel)
      (fun t => (i t).iVld && (b t).iRdy) (fun t => (b t).oVld (i t).iVld && (i t).oRdy)
      (fun t => (i t).flush) fun t => (b t).items where
  start := h0
  step t := by
    rw [hs, items_next _ _ (wf_run hw hs t)]
    rfl
  nonempty t h := (oVld_iff _ _).mp (Bool.and_eq_true_iff.mp h).1

-- The counter has one bit less than it needs: a full buffer counts as empty.
def Counted (b : Bypbuf k α) : Prop := b.fifoCnt = BitVec.ofNat k b.items.length

theorem counted_reset (b : Bypbuf k α) : b.reset.Counted := by
  rw [Counted, items_reset]
  rfl

theorem counted_next (b : Bypbuf k α) (i : In α) (hw : b.Wf) (hc : b.Counted) :
    (b.next i).Counted := by
  have hl : (b.next i).items.length + (b.fifo.ren (b.fifoIn i)).toNat =
      b.items.length + (b.fifo.wen (b.fifoIn i)).toNat := b.fifo.length_next (b.fifoIn i) hw
  have hn : (b.next i).fifoCnt = dfflr (b.fifo.wen (b.fifoIn i) ^^ b.fifo.ren (b.fifoIn i))
      (if b.fifo.wen (b.fifoIn i) then b.fifoCnt + 1#k else b.fifoCnt - 1#k) b.fifoCnt := rfl
  rw [Counted] at hc ⊢
  rw [hn, hc]
  cases hwen : b.fifo.wen (b.fifoIn i) <;> cases hren : b.fifo.ren (b.fifoIn i) <;>
    simp only [hwen, hren, Bool.toNat_false, Bool.toNat_true, Nat.add_zero,
      Nat.add_right_cancel_iff] at hl
  · simp [hl]
  · simp [← hl, BitVec.ofNat_add]
  · simp [hl, BitVec.ofNat_add]
  · simp [hl]

theorem counted_run {b : Nat → Bypbuf k α} {i : Nat → In α} (hw : (b 0).Wf) (h0 : (b 0).Counted)
    (hs : ∀ t, b (t + 1) = (b t).next (i t)) (t : Nat) : (b t).Counted := by
  induction t with
  | zero => exact h0
  | succ t ih =>
    rw [hs]
    exact counted_next _ _ (wf_run hw hs t) ih

theorem length_le (b : Bypbuf k α) (hw : b.Wf) : b.items.length ≤ 2 ^ k := by
  rw [items, Queue.length_items]
  exact hw

theorem iRdy_iff (b : Bypbuf k α) : b.iRdy = true ↔ b.items.length ≠ 2 ^ k := Queue.iReady_iff _

theorem not_fifoHalfFull_iff (b : Bypbuf k α) (hw : b.Wf) (hc : b.Counted) :
    b.fifoHalfFull = false ↔
      b.items.length < 2 ^ k / 2 ∨ (0 < 2 ^ k / 2 ∧ b.items.length = 2 ^ k) := by
  have hl := b.length_le hw
  rw [fifoHalfFull, decide_eq_false_iff_not, Nat.not_le, hc, BitVec.toNat_ofNat]
  rcases Nat.lt_or_eq_of_le hl with h | h
  · rw [Nat.mod_eq_of_lt h]
    omega
  · rw [h, Nat.mod_self]
    omega

end Bypbuf

end HiCore
