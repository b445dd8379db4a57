import HiCore.Rtl.Rob

-- The reorder buffer against a queue of allocation cycles.
namespace HiCore.Rob

open SlotState

inductive WbUnit where
  | bjp
  | alu
  | lsu
  | csr
  | nop
  deriving DecidableEq

-- The nop unit has no data port, so its entry gets the or of no data.
def In.port (i : In) : WbUnit → WbPort
  | .bjp => i.bjpWb
  | .alu => i.aluWb
  | .lsu => i.lsuWb
  | .csr => i.csrWb
  | .nop => { wen := i.nopWbWen, ptr := i.nopWbPtr, rdData := 0#32, info := i.nopWbInfo }

def window (r : Rob) : List (BitVec 4) := Ring.window r.headPtr r.tailPtr

def occupancy (r : Rob) : Nat := Ring.count r.headPtr r.tailPtr

-- What the callers of the buffer promise in a cycle.
structure Legal (r : Rob) (i : In) : Prop where
  issue_full : i.issueWen = true → r.full = false
  issue_flush : i.issueWen = true → i.flush = false
  flush_commit : i.flush = true → r.ren i.commitValid = true
  wb_mapped : ∀ u n, (i.port u).hits n = true → r.state n = MAPPED_S
  wb_single : ∀ u v n, (i.port u).hits n = true → (i.port v).hits n = true → u = v

structure Wf (r : Rob) : Prop where
  bound : r.occupancy ≤ 16
  live : ∀ n, r.state n ≠ EMPTY_S ↔ n ∈ r.window

theorem wbWen_iff (i : In) (n : BitVec 4) :
    wbWen i n = true ↔ ∃ u, (i.port u).hits n = true := by
  simp only [wbWen, Bool.or_eq_true]
  constructor
  · rintro ((((h | h) | h) | h) | h)
    · exact ⟨.bjp, h⟩
    · exact ⟨.alu, h⟩
    · exact ⟨.lsu, h⟩
    · exact ⟨.csr, h⟩
    · exact ⟨.nop, h⟩
  · rintro ⟨u, h⟩
    cases u with
    | bjp => exact .inl (.inl (.inl (.inl h)))
    | alu => exact .inl (.inl (.inl (.inr h)))
    | lsu => exact .inl (.inl (.inr h))
    | csr => exact .inl (.inr h)
    | nop => exact .inr h

-- With one port on a slot the or-muxes select that port.
theorem nxt_of_single (i : In) (n : BitVec 4) (u : WbUnit) (hu : (i.port u).hits n = true)
    (hs : ∀ v, (i.port v).hits n = true → v = u) :
    rdDataNxt i n = (i.port u).rdData ∧ infoNxt i n = (i.port u).info := by
  have hits : ∀ v, (i.port v).hits n = decide (v = u) := by
    intro v
    by_cases hv : v = u
    · simp [hv, hu]
    · rw [decide_eq_false hv, ← Bool.not_eq_true]
      exact fun h => hv (hs v h)
  have hb : i.bjpWb.hits n = decide (WbUnit.bjp = u) := hits .bjp
  have ha : i.aluWb.hits n = decide (WbUnit.alu = u) := hits .alu
  have hl : i.lsuWb.hits n = decide (WbUnit.lsu = u) := hits .lsu
  have hc : i.csrWb.hits n = decide (WbUnit.csr = u) := hits .csr
  have hn : nopHits i n = decide (WbUnit.nop = u) := hits .nop
  cases u <;>
    simp [rdDataNxt, infoNxt, orPorts, In.port, hb, ha, hl, hc, hn]

theorem wf_reset (r : Rob) : r.reset.Wf where
  bound := by simp [occupancy, reset]
  live := by simp [window, reset]

section Step

variable {r : Rob} {i : In}

theorem full_iff (r : Rob) : r.full = true ↔ r.occupancy = 16 := Ring.isFull_iff _ _

theorem empty_iff (r : Rob) : r.empty = true ↔ r.occupancy = 0 := Ring.isEmpty_iff _ _

theorem ren_state (h : r.ren i.commitValid = true) : r.state r.head = WRITEBACK_S := by
  simpa [commitReady] using (Bool.and_eq_true_iff.mp h).2

theorem Wf.window_nodup (hw : r.Wf) : r.window.Nodup := Ring.window_nodup _ _ hw.bound

theorem Wf.head_mem (hw : r.Wf) (h : r.ren i.commitValid = true) : r.head ∈ r.window := by
  rw [← hw.live, ren_state h]
  decide

theorem Wf.occupancy_pos (hw : r.Wf) (h : r.ren i.commitValid = true) : 0 < r.occupancy := by
  have hm := List.length_pos_of_mem (hw.head_mem h)
  rwa [window, Ring.length_window] at hm

theorem Wf.occupancy_lt (hw : r.Wf) (hl : Legal r i) (h : i.issueWen = true) :
    r.occupancy < 16 := by
  have hn : r.occupancy ≠ 16 := by
    rw [Ne, ← full_iff, hl.issue_full h]
    exact Bool.false_ne_true
  exact Nat.lt_of_le_of_ne hw.bound hn

theorem Wf.tail_notMem (hw : r.Wf) (hl : Legal r i) (h : i.issueWen = true) :
    r.tail ∉ r.window := Ring.slot_notMem_window _ _ (hw.occupancy_lt hl h)

-- The head slot comes first in the window.
theorem Wf.window_eq_cons (hw : r.Wf) (h : 0 < r.occupancy) :
    ∃ rest, r.window = r.head :: rest ∧ r.head ∉ rest := by
  have hc : r.window = r.head :: Ring.window (r.headPtr + 1#5) r.tailPtr := Ring.window_pop _ _ h
  have hn := hw.window_nodup
  rw [hc] at hn
  exact ⟨_, hc, (List.nodup_cons.mp hn).1⟩

theorem Wf.head_mem_of_mem (hw : r.Wf) {n : BitVec 4} (hm : n ∈ r.window) : r.head ∈ r.window := by
  have hpos := List.length_pos_of_mem hm
  rw [window, Ring.length_window] at hpos
  obtain ⟨rest, hr, -⟩ := hw.window_eq_cons hpos
  rw [hr]
  exact List.mem_cons_self

theorem window_next_of_flush (hl : Legal r i) (hf : i.flush = true) : (r.next i).window = [] := by
  have hr := hl.flush_commit hf
  simp [window, next, hf, hr]

theorem window_next (hw : r.Wf) (hl : Legal r i) (hf : i.flush = false) :
    (r.next i).window = Fifo.shift (r.ren i.commitValid)
      (if i.issueWen then [r.tail] else []) r.window := by
  have hp : (i.issueWen && !r.full || i.flush) = i.issueWen := by
    cases hi : i.issueWen with
    | false => simp [hf]
    | true => simp [hl.issue_full hi]
  rw [window, next, hp, hf]
  exact Ring.window_step _ _ _ _ hw.occupancy_pos (hw.occupancy_lt hl)

theorem mem_window_next (hw : r.Wf) (hl : Legal r i) (hf : i.flush = false) (n : BitVec 4) :
    n ∈ (r.next i).window ↔
      (n ∈ r.window ∧ ¬(r.ren i.commitValid = true ∧ n = r.head)) ∨
        (i.issueWen = true ∧ n = r.tail) := by
  have hpush : n ∈ (if i.issueWen then [r.tail] else []) ↔ i.issueWen = true ∧ n = r.tail := by
    cases i.issueWen <;> simp
  rw [window_next hw hl hf]
  cases hr : r.ren i.commitValid with
  | false => simp [hpush]
  | true =>
    obtain ⟨rest, hc, hn⟩ := hw.window_eq_cons (hw.occupancy_pos hr)
    have hrest : n ∈ rest ↔ n ∈ r.window ∧ ¬(true = true ∧ n = r.head) := by
      rw [hc, List.mem_cons]
      constructor
      · intro hm
        exact ⟨.inr hm, fun h => hn (h.2 ▸ hm)⟩
      · rintro ⟨rfl | hm, hne⟩
        · exact absurd ⟨rfl, rfl⟩ hne
        · exact hm
    rw [← hrest, hc, Fifo.shift, if_pos rfl, List.cons_append, List.tail_cons, List.mem_append,
      hpush]

-- Everything that one cycle can do to a slot.
inductive SlotStep (r : Rob) (i : In) (n : BitVec 4) : Prop
  | free (out : n ∉ (r.next i).window) (state : (r.next i).state n = EMPTY_S)
  | fresh (noFlush : i.flush = false) (wen : i.issueWen = true) (slot : n = r.tail)
      (new : n ∉ r.window) (state : (r.next i).state n = MAPPED_S)
      (issue : (r.next i).issue n = i.issue)
  | kept (noFlush : i.flush = false) (mem : n ∈ r.window) (noWb : wbWen i n = false)
      (notHead : ¬(r.ren i.commitValid = true ∧ n = r.head))
      (state : (r.next i).state n = r.state n) (issue : (r.next i).issue n = r.issue n)
      (rdData : (r.next i).rdData n = r.rdData n) (info : (r.next i).info n = r.info n)
      (csrData : (r.next i).csrData n = r.csrData n)
  | written (noFlush : i.flush = false) (mem : n ∈ r.window) (u : WbUnit)
      (hits : (i.port u).hits n = true) (mapped : r.state n = MAPPED_S)
      (state : (r.next i).state n = WRITEBACK_S) (issue : (r.next i).issue n = r.issue n)
      (rdData : (r.next i).rdData n = (i.port u).rdData)
      (info : (r.next i).info n = (i.port u).info)
      (csrData : u = .csr → (r.next i).csrData n = i.csrWbCsrData)

theorem issueWenAt_eq_false (hw : r.Wf) (hl : Legal r i) (n : BitVec 4) (hm : n ∈ r.window) :
    r.issueWenAt i n = false := by
  cases hi : i.issueWen with
  | false => simp [issueWenAt, hi]
  | true =>
    have hne : n ≠ r.tail := fun he => hw.tail_notMem hl hi (he ▸ hm)
    simp [issueWenAt, hi, hne]

theorem state_next_tail (hl : Legal r i) (hi : i.issueWen = true) :
    (r.next i).state r.tail = MAPPED_S := by
  simp [next, stateEn, stateNxt, issueWenAt, hl.issue_flush hi, hi]

theorem slotStep_of_flush (hl : Legal r i) (hf : i.flush = true) (n : BitVec 4) :
    SlotStep r i n := by
  refine .free ?_ ?_
  · rw [window_next_of_flush hl hf]
    exact List.not_mem_nil
  · simp [next, stateEn, stateNxt, hf]

theorem slotStep_of_wb (hw : r.Wf) (hl : Legal r i) (hf : i.flush = false) (n : BitVec 4)
    (u : WbUnit) (hu : (i.port u).hits n = true) : SlotStep r i n := by
  have hmap := hl.wb_mapped u n hu
  have hm : n ∈ r.window := by
    rw [← hw.live, hmap]
    decide
  have hi := issueWenAt_eq_false hw hl n hm
  have hwb : wbWen i n = true := (wbWen_iff i n).mpr ⟨u, hu⟩
  obtain ⟨hd, hinf⟩ := nxt_of_single i n u hu (fun v hv => hl.wb_single v u n hv hu)
  refine .written hf hm u hu hmap ?_ ?_ ?_ ?_ ?_
  · simp [next, stateEn, stateNxt, hf, hi, hwb]
  · simp [next, hi]
  · simp [next, hwb, hd]
  · simp [next, hwb, hinf]
  · rintro rfl
    have hc : i.csrWb.hits n = true := hu
    simp [next, hc]

theorem slotStep (hw : r.Wf) (hl : Legal r i) (n : BitVec 4) : SlotStep r i n := by
  cases hf : i.flush with
  | true => exact slotStep_of_flush hl hf n
  | false =>
    by_cases hwb : wbWen i n = true
    · obtain ⟨u, hu⟩ := (wbWen_iff i n).mp hwb
      exact slotStep_of_wb hw hl hf n u hu
    rw [Bool.not_eq_true] at hwb
    have hc : i.csrWb.hits n = false := by
      simp only [wbWen, Bool.or_eq_false_iff] at hwb
      exact hwb.1.2
    by_cases hi : i.issueWen = true ∧ n = r.tail
    · obtain ⟨hi, rfl⟩ := hi
      refine .fresh hf hi rfl (hw.tail_notMem hl hi) (state_next_tail hl hi) ?_
      simp [next, issueWenAt, hi]
    have hia : r.issueWenAt i n = false := by
      simpa [issueWenAt] using hi
    by_cases hm : n ∈ r.window ∧ ¬(r.ren i.commitValid = true ∧ n = r.head)
    · have hh : (r.ren i.commitValid && n == r.head) = false := by simpa using hm.2
      refine .kept hf hm.1 hwb hm.2 ?_ ?_ ?_ ?_ ?_ <;>
        simp [next, stateEn, hf, hia, hwb, hh, hc]
    refine .free ?_ ?_
    · rw [mem_window_next hw hl hf]
      exact fun h => h.elim hm hi
    -- A slot outside the window is empty already; the head is emptied now.
    by_cases hh : r.ren i.commitValid = true ∧ n = r.head
    · have hhb : (r.ren i.commitValid && n == r.head) = true := by simpa using hh
      simp [next, stateEn, stateNxt, hf, hia, hwb, hhb]
    · have hn : n ∉ r.window := fun h => hm ⟨h, hh⟩
      rw [← hw.live, not_not] at hn
      have hhb : (r.ren i.commitValid && n == r.head) = false := by simpa using hh
      simp [next, stateEn, hf, hia, hwb, hhb, hn]

theorem wf_next (hw : r.Wf) (hl : Legal r i) : (r.next i).Wf := by
  refine ⟨?_, fun n => ?_⟩
  · have hlen : (r.next i).window.length ≤ 16 := by
      cases hf : i.flush with
      | true => simp [window_next_of_flush hl hf]
      | false =>
        rw [window_next hw hl hf]
        refine Nat.le_trans (Fifo.shift_sublist _ _ _).length_le ?_
        have hb := hw.bound
        rw [List.length_append, window, Ring.length_window]
        cases hi : i.issueWen with
        | false => simpa [occupancy] using hb
        | true => simpa [occupancy] using Nat.succ_le_of_lt (hw.occupancy_lt hl hi)
    rwa [window, Ring.length_window] at hlen
  · cases slotStep hw hl n with
    | free out state => simp [out, state]
    | fresh noFlush wen slot new state issue =>
      rw [state, mem_window_next hw hl noFlush]
      simp [wen, slot]
    | kept noFlush mem noWb notHead state issue rdData info csrData =>
      rw [state, mem_window_next hw hl noFlush, hw.live]
      simp [mem, notHead]
    | written noFlush mem u hits mapped state issue rdData info csrData =>
      have hh : ¬(r.ren i.commitValid = true ∧ n = r.head) := by
        rintro ⟨hr, rfl⟩
        rw [ren_state hr] at mapped
        exact SlotState.noConfusion mapped
      rw [state, mem_window_next hw hl noFlush]
      simp [mem, hh]

end Step

end HiCore.Rob
