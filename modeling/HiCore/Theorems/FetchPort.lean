import HiCore.Refine.FetchPort
import HiCore.Trace.Program

-- When the fetch unit leaves a response waiting on the ITCM port. It asks for no
-- more words than half of its buffer, by a counter that reads 0 when the buffer
-- is full.
namespace HiCore.FetchPort

namespace Run

variable (r : Run)

theorem length_arrives (t : Nat) : (r.arrives t).length ≤ 1 := by
  rw [arrives, Bypbuf.arrival]
  split <;> simp

theorem arrives_of_full (t : Nat) (h : (r.st t).ifetch.memBypbuf.iRdy = false) :
    r.arrives t = [] := by
  simp [arrives, Bypbuf.arrival, h]

theorem length_buf_succ_le (t : Nat) : (r.st (t + 1)).ifetch.memBypbuf.items.length ≤
    (r.st t).ifetch.memBypbuf.items.length + 1 := by
  have ha := r.length_arrives t
  have hs := (Fifo.shift_sublist ((r.st t).bufPop (r.ins t)) (r.arrives t)
    (r.st t).ifetch.memBypbuf.items).length_le
  rw [List.length_append] at hs
  rw [items_buf_succ, Fifo.next, Fifo.mark, List.length_map]
  omega

-- A full buffer takes nothing, and loses what the decoder takes.
theorem length_buf_succ_of_full (t : Nat) (h : (r.st t).ifetch.memBypbuf.iRdy = false) :
    (r.st (t + 1)).ifetch.memBypbuf.items.length = if (r.ins t).if2deReady then 7 else 8 := by
  have hl : (r.st t).ifetch.memBypbuf.items.length = 8 := by
    by_contra hn
    rw [(Bypbuf.iRdy_iff _).mpr hn] at h
    exact Bool.noConfusion h
  have hv : (r.st t).if2deValid = true := by
    have ho : (r.st t).ifetch.memBypbuf.fifo.oValid = true := by
      rw [Queue.oValid_iff, ← List.length_pos_iff]
      exact hl ▸ Nat.succ_pos 7
    simp [if2deValid, Ifetch.oIf2deValid, Bypbuf.oVld, ho]
  rw [items_buf_succ, r.arrives_of_full t h, bufPop, hv, Bool.true_and, Fifo.next, Fifo.mark,
    List.length_map, Fifo.shift_nil]
  cases (r.ins t).if2deReady <;> simp [hl]

-- A command that the throttle lets pass finds half of the buffer free, or all of
-- it taken.
theorem length_buf_of_ifqPush (t : Nat) (h : (r.st t).ifqPush (r.ins t) = true) :
    (r.st t).ifetch.memBypbuf.items.length < 4 ∨ (r.st t).ifetch.memBypbuf.iRdy = false := by
  obtain ⟨-, -, hh⟩ := (r.st t).legal_of_ifqPush (r.ins t) h
  rcases (Bypbuf.not_fifoHalfFull_iff _ (r.wf_buf t) (r.counted_buf t)).mp hh with hl | ⟨-, hl⟩
  · exact .inl hl
  · right
    rw [← Bool.not_eq_true, Bypbuf.iRdy_iff]
    exact fun hn => hn hl

theorem rspReady_iff (t : Nat) (h : (r.st t).rspValid = true) :
    (r.st t).rspReady = true ↔ (r.st t).ifetch.memBypbuf.iRdy = true := by
  simp [rspReady, Ifetch.rspReady, Ifetch.iIf2deReady, r.oValid_of_rspValid t h]

-- A fetch command is accepted while the buffer is full and the decoder takes
-- nothing from it.
def Overfills (t : Nat) : Prop :=
  ((r.st t).cmdValid (r.ins t) = true ∧ (r.st t).cmdReady (r.ins t) = true) ∧
    (r.st t).ifetch.memBypbuf.iRdy = false ∧ (r.ins t).if2deReady = false

theorem not_rspReady_of_overfills (t : Nat) (h : r.Overfills t) :
    (r.st (t + 1)).rspValid = true ∧ (r.st (t + 1)).rspReady = false := by
  obtain ⟨⟨hv, hr⟩, hfull, hd⟩ := h
  have hp : (r.st t).ifqPush (r.ins t) = true := by rw [ifqPush_iff, hv, hr]; rfl
  have hq : (r.st (t + 1)).ifetch.memQueue.items ≠ [] := by
    have hpop : (r.st t).ifqPop (r.ins t) = false := by
      simp [ifqPop, Queue.ren, Ifetch.memQueueIn, Ifetch.iIf2deReady, hfull]
    rw [items_ifq_succ, hp, hpop]
    simp [Fifo.next, Fifo.mark]
  have hrv := (r.rspValid_iff (t + 1)).mpr hq
  refine ⟨hrv, ?_⟩
  rw [← Bool.not_eq_true, r.rspReady_iff _ hrv, Bypbuf.iRdy_iff,
    r.length_buf_succ_of_full t hfull, hd]
  simp

-- A response that waits is that of a command of the cycle before, or has waited.
theorem rspValid_succ (t : Nat) (h : (r.st (t + 1)).rspValid = true) :
    (r.st t).ifqPush (r.ins t) = true ∨
      ((r.st t).rspValid = true ∧ (r.st t).rspReady = false) := by
  by_contra hn
  rw [not_or, Bool.not_eq_true] at hn
  obtain ⟨hp, hr⟩ := hn
  rw [r.rspValid_iff, items_ifq_succ, hp, if_neg Bool.false_ne_true, Fifo.next, Fifo.mark, Ne,
    List.map_eq_nil_iff, Fifo.shift_nil] at h
  cases hv : (r.st t).rspValid with
  | false =>
    have hnil : (r.st t).ifetch.memQueue.items = [] := by
      by_contra hne
      rw [(r.rspValid_iff t).mpr hne] at hv
      exact Bool.noConfusion hv
    rw [hnil] at h
    exact h (by simp)
  | true =>
    have hready : (r.st t).ifetch.memBypbuf.iRdy = true := by
      rw [← r.rspReady_iff t hv, ← Bool.not_eq_false]
      exact fun hf => hr ⟨hv, hf⟩
    have hpop : (r.st t).ifqPop (r.ins t) = true := by
      simp [ifqPop, Queue.ren, Ifetch.memQueueIn, ifetchIn, Ifetch.iIf2deReady, hv, hready,
        r.oValid_of_rspValid t hv]
    have hl := r.length_ifq_le t
    rw [hpop, if_pos rfl] at h
    apply h
    apply List.eq_nil_of_length_eq_zero
    rw [List.length_tail]
    omega

end Run

theorem fetch_accepts_iff (r : Run) :
    (∀ t, (r.st t).rspValid = true → (r.st t).rspReady = true) ↔ ∀ t, ¬ r.Overfills t := by
  constructor
  · intro h t ho
    obtain ⟨hv, hr⟩ := r.not_rspReady_of_overfills t ho
    rw [h _ hv] at hr
    exact Bool.noConfusion hr
  · intro h t
    induction t with
    | zero =>
      intro hv
      rw [r.rspValid_iff] at hv
      exact absurd (Queue.items_reset _) hv
    | succ t ih =>
      intro hv
      rw [r.rspReady_iff _ hv, Bypbuf.iRdy_iff]
      rcases r.rspValid_succ t hv with hp | ⟨hv', hr'⟩
      · rcases r.length_buf_of_ifqPush t hp with hl | hfull
        · have := r.length_buf_succ_le t
          omega
        · rw [r.length_buf_succ_of_full t hfull]
          rw [ifqPush_iff, Bool.and_eq_true] at hp
          have hd : (r.ins t).if2deReady = true := by
            rw [← Bool.not_eq_false]
            exact fun hd => h t ⟨hp, hfull, hd⟩
          rw [hd]
          decide
      · rw [ih hv'] at hr'
        exact Bool.noConfusion hr'

-- What surrounds the fetch unit when it only redirects it in some cycles and
-- takes entries in others.
def quietIn (if2deReady : Bool) (branch : Option (BitVec 32)) : In where
  lsuCmdValid := false
  lsuCmd := default
  lsuRspReady := false
  if2deReady := if2deReady
  branch := branch.isSome
  branchPc := branch.getD 0#32
  flush := false
  flushPc := 0#32

-- The decoder stands still. A redirect out of the ITCM fills the buffer with
-- fetch exceptions, and one back to address 0 finds the counter at 0.
def stalled : Run where
  power := (Cpu.powerOn (HiCore.Run.image [])).fetchPort
  ins t := quietIn false (if t = 0 then some 0x10000#32 else if t = 11 then some 0#32 else none)

theorem stalled_refuses :
    ¬ ∀ t, (stalled.st t).rspValid = true → (stalled.st t).rspReady = true := by
  intro h
  have hr : (stalled.st 13).rspReady = false := by decide +kernel
  rw [h 13 (by decide +kernel)] at hr
  exact Bool.noConfusion hr

end HiCore.FetchPort
