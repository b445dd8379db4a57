import HiCore.Refine.Rob

-- Runs of the reorder buffer from reset, for any inputs its callers may give.
namespace HiCore.Rob

open SlotState

structure Run where
  power : Rob
  ins : Nat → In

namespace Run

def st (R : Run) : Nat → Rob
  | 0 => R.power.reset
  | t + 1 => (R.st t).next (R.ins t)

def commits (R : Run) (t : Nat) : Bool := (R.st t).ren (R.ins t).commitValid

-- The cycle in which a slot was last allocated.
def alloc (R : Run) : Nat → BitVec 4 → Nat
  | 0, _ => 0
  | t + 1, n => if (R.ins t).issueWen && n == (R.st t).tail then t else R.alloc t n

-- The abstract buffer: the allocation cycles of the entries that are neither
-- committed nor flushed, oldest first.
def pending (R : Run) : Nat → List Nat
  | 0 => []
  | t + 1 =>
    if (R.ins t).flush then []
    else Fifo.shift (R.commits t) (if (R.ins t).issueWen then [t] else []) (R.pending t)

-- Unit `u` wrote slot `n` in cycle `w`, and the slot shows what it was given.
structure Written (R : Run) (t : Nat) (n : BitVec 4) (w : Nat) (u : WbUnit) : Prop where
  after : R.alloc t n < w
  before : w < t
  hits : ((R.ins w).port u).hits n = true
  rdData : (R.st t).rdData n = ((R.ins w).port u).rdData
  info : (R.st t).info n = ((R.ins w).port u).info
  csrData : u = .csr → (R.st t).csrData n = (R.ins w).csrWbCsrData
  once : ∀ v, R.alloc t n < v → v < t → wbWen (R.ins v) n = true → v = w

structure Holds (R : Run) (t : Nat) (n : BitVec 4) : Prop where
  lt : R.alloc t n < t
  wen : (R.ins (R.alloc t n)).issueWen = true
  slot : (R.st (R.alloc t n)).tail = n
  issue : (R.st t).issue n = (R.ins (R.alloc t n)).issue
  waits : (R.st t).state n = MAPPED_S →
    ∀ v, R.alloc t n < v → v < t → wbWen (R.ins v) n = false
  written : (R.st t).state n = WRITEBACK_S → ∃ w u, R.Written t n w u

-- The entry of cycle `a` is at the commit port: the fields of its allocation,
-- and the data and info of its only write-back.
def Presents (R : Run) (t a : Nat) : Prop :=
  (R.ins a).issueWen = true ∧ (R.st a).tail = (R.st t).head ∧
    (R.st t).issue (R.st t).head = (R.ins a).issue ∧
    ∃ w u, a < w ∧ w < t ∧ ((R.ins w).port u).hits (R.st t).head = true ∧
      (R.st t).rdData (R.st t).head = ((R.ins w).port u).rdData ∧
      (R.st t).info (R.st t).head = ((R.ins w).port u).info ∧
      (u = .csr → (R.st t).csrData (R.st t).head = (R.ins w).csrWbCsrData) ∧
      ∀ v, a < v → v < t → wbWen (R.ins v) (R.st t).head = true → v = w

section Legal

variable {R : Run} {t : Nat} {n : BitVec 4}

theorem wf (h : ∀ u < t, Legal (R.st u) (R.ins u)) : (R.st t).Wf := by
  induction t with
  | zero => exact wf_reset _
  | succ t ih => exact wf_next (ih fun u hu => h u (by omega)) (h t (by omega))

theorem alloc_of_mem (hw : (R.st t).Wf) (hl : Legal (R.st t) (R.ins t)) (n : BitVec 4)
    (hm : n ∈ (R.st t).window) : R.alloc (t + 1) n = R.alloc t n := by
  have hi := issueWenAt_eq_false hw hl n hm
  rw [alloc, if_neg]
  rw [issueWenAt] at hi
  exact Bool.not_eq_true _ ▸ hi

theorem alloc_tail (h : (R.ins t).issueWen = true) : R.alloc (t + 1) (R.st t).tail = t := by
  simp [alloc, h]

theorem pending_eq (h : ∀ u < t, Legal (R.st u) (R.ins u)) :
    R.pending t = (R.st t).window.map (R.alloc t) := by
  induction t with
  | zero => simp [pending, st, window, reset]
  | succ t ih =>
    have hl := h t (by omega)
    have hw : (R.st t).Wf := wf fun u hu => h u (by omega)
    rw [pending, st]
    cases hf : (R.ins t).flush with
    | true => simp [window_next_of_flush hl hf]
    | false =>
      rw [window_next hw hl hf, Fifo.map_shift, ih fun u hu => h u (by omega),
        List.map_congr_left fun n hn => alloc_of_mem hw hl n hn]
      cases hi : (R.ins t).issueWen with
      | false => rfl
      | true => simp [commits, alloc_tail hi]

theorem mem_pending_lt (R : Run) (t a : Nat) (h : a ∈ R.pending t) : a < t := by
  induction t with
  | zero => simp [pending] at h
  | succ t ih =>
    rw [pending] at h
    split at h
    · simp at h
    · rcases List.mem_append.mp ((Fifo.shift_sublist _ _ _).subset h) with hm | hm
      · exact Nat.lt_succ_of_lt (ih hm)
      · split at hm
        · exact Nat.lt_succ_of_le (List.mem_singleton.mp hm).le
        · simp at hm

-- The abstract buffer is ordered by age.
theorem pending_pairwise (R : Run) (t : Nat) : (R.pending t).Pairwise (· < ·) := by
  induction t with
  | zero => exact .nil
  | succ t ih =>
    rw [pending]
    split
    · exact .nil
    · refine List.Pairwise.sublist (Fifo.shift_sublist _ _ _) ?_
      refine List.pairwise_append.mpr ⟨ih, ?_, fun a ha b hb => ?_⟩
      · split <;> simp
      · split at hb
        · rw [List.mem_singleton.mp hb]
          exact mem_pending_lt R t a ha
        · simp at hb

theorem mem_pending_succ (R : Run) (t a : Nat) (h : a ∈ R.pending (t + 1)) :
    a ∈ R.pending t ∨ a = t := by
  rw [pending] at h
  split at h
  · simp at h
  · rcases List.mem_append.mp ((Fifo.shift_sublist _ _ _).subset h) with hm | hm
    · exact .inl hm
    · split at hm
      · exact .inr (List.mem_singleton.mp hm)
      · simp at hm

-- What is still pending after a commit was allocated after the entry that left.
theorem lt_of_commit (R : Run) (s t a b : Nat) (hst : s < t) (hc : R.commits s = true)
    (ha : (R.pending s).head? = some a) (hb : b ∈ R.pending t) : a < b := by
  obtain ⟨rest, hp⟩ : ∃ rest, R.pending s = a :: rest := List.head?_eq_some_iff.mp ha
  have hlt : a < s := mem_pending_lt R s a (by simp [hp])
  have hsort := R.pending_pairwise s
  rw [hp, List.pairwise_cons] at hsort
  induction t, hst using Nat.le_induction with
  | base =>
    rw [pending, hc, hp] at hb
    split at hb
    · simp at hb
    · rw [Fifo.shift, if_pos rfl, List.cons_append, List.tail_cons, List.mem_append] at hb
      rcases hb with hm | hm
      · exact hsort.1 b hm
      · split at hm
        · rwa [List.mem_singleton.mp hm]
        · simp at hm
  | succ t hst ih =>
    rcases mem_pending_succ R t b hb with hm | rfl
    · exact ih hm
    · exact Nat.lt_trans hlt hst

theorem holds_fresh (hl : Legal (R.st t) (R.ins t))
    (hi : (R.ins t).issueWen = true) : R.Holds (t + 1) (R.st t).tail := by
  have ha := alloc_tail (R := R) hi
  have hs : (R.st (t + 1)).state (R.st t).tail = MAPPED_S := state_next_tail hl hi
  have hd : (R.st (t + 1)).issue (R.st t).tail = (R.ins t).issue := by
    simp [st, next, issueWenAt, hi]
  exact {
    lt := by omega
    wen := by rwa [ha]
    slot := by rw [ha]
    issue := by rwa [ha]
    waits := fun _ v hv hvt => by omega
    written := fun hwb => SlotState.noConfusion (hs.symm.trans hwb) }

theorem holds_kept (ho : R.Holds t n) (ha : R.alloc (t + 1) n = R.alloc t n)
    (hwb : wbWen (R.ins t) n = false) (hs : (R.st (t + 1)).state n = (R.st t).state n)
    (hi : (R.st (t + 1)).issue n = (R.st t).issue n)
    (hd : (R.st (t + 1)).rdData n = (R.st t).rdData n)
    (hinf : (R.st (t + 1)).info n = (R.st t).info n)
    (hcd : (R.st (t + 1)).csrData n = (R.st t).csrData n) : R.Holds (t + 1) n where
  lt := by rw [ha]; exact Nat.lt_succ_of_lt ho.lt
  wen := by rw [ha]; exact ho.wen
  slot := by rw [ha]; exact ho.slot
  issue := by rw [ha]; exact hi.trans ho.issue
  waits := by
    intro hm v hv hvt
    rw [ha] at hv
    rcases Nat.lt_succ_iff_lt_or_eq.mp hvt with hlt | rfl
    · exact ho.waits (hs.symm.trans hm) v hv hlt
    · exact hwb
  written := by
    intro hm
    obtain ⟨w, u, hw⟩ := ho.written (hs.symm.trans hm)
    refine ⟨w, u, ha ▸ hw.after, Nat.lt_succ_of_lt hw.before, hw.hits, hd.trans hw.rdData,
      hinf.trans hw.info, fun hu => hcd.trans (hw.csrData hu), fun v hv hvt hvw => ?_⟩
    rw [ha] at hv
    rcases Nat.lt_succ_iff_lt_or_eq.mp hvt with hlt | rfl
    · exact hw.once v hv hlt hvw
    · exact Bool.noConfusion (hwb.symm.trans hvw)

theorem holds_written (ho : R.Holds t n) (ha : R.alloc (t + 1) n = R.alloc t n) (u : WbUnit)
    (hits : ((R.ins t).port u).hits n = true) (hm : (R.st t).state n = MAPPED_S)
    (hs : (R.st (t + 1)).state n = WRITEBACK_S) (hi : (R.st (t + 1)).issue n = (R.st t).issue n)
    (hd : (R.st (t + 1)).rdData n = ((R.ins t).port u).rdData)
    (hinf : (R.st (t + 1)).info n = ((R.ins t).port u).info)
    (hcd : u = .csr → (R.st (t + 1)).csrData n = (R.ins t).csrWbCsrData) :
    R.Holds (t + 1) n where
  lt := by rw [ha]; exact Nat.lt_succ_of_lt ho.lt
  wen := by rw [ha]; exact ho.wen
  slot := by rw [ha]; exact ho.slot
  issue := by rw [ha]; exact hi.trans ho.issue
  waits := fun hm' => SlotState.noConfusion (hs.symm.trans hm')
  written := by
    intro _
    refine ⟨t, u, ha ▸ ho.lt, Nat.lt_succ_self t, hits, hd, hinf, hcd, fun v hv hvt hvw => ?_⟩
    rw [ha] at hv
    rcases Nat.lt_succ_iff_lt_or_eq.mp hvt with hlt | rfl
    · exact Bool.noConfusion ((ho.waits hm v hv hlt).symm.trans hvw)
    · rfl

theorem holds (h : ∀ u < t, Legal (R.st u) (R.ins u)) (n : BitVec 4)
    (hm : n ∈ (R.st t).window) : R.Holds t n := by
  induction t with
  | zero => simp [st, window, reset] at hm
  | succ t ih =>
    have hl := h t (by omega)
    have hw : (R.st t).Wf := wf fun u hu => h u (by omega)
    cases slotStep hw hl n with
    | free out state => exact absurd hm out
    | fresh noFlush wen slot new state issue => exact slot ▸ holds_fresh hl wen
    | kept noFlush mem noWb notHead state issue rdData info csrData =>
      exact holds_kept (ih (fun u hu => h u (by omega)) mem) (alloc_of_mem hw hl n mem) noWb
        state issue rdData info csrData
    | written noFlush mem u hits mapped state issue rdData info csrData =>
      exact holds_written (ih (fun u hu => h u (by omega)) mem) (alloc_of_mem hw hl n mem) u hits
        mapped state issue rdData info csrData

-- The oldest pending entry is the one under the head pointer.
theorem head?_pending (h : ∀ u < t, Legal (R.st u) (R.ins u)) (hc : 0 < (R.st t).occupancy) :
    (R.pending t).head? = some (R.alloc t (R.st t).head) := by
  obtain ⟨rest, hr, -⟩ := (wf h).window_eq_cons hc
  rw [pending_eq h, hr]
  rfl

theorem presents (h : ∀ u < t, Legal (R.st u) (R.ins u)) (hc : R.commits t = true) :
    R.Presents t (R.alloc t (R.st t).head) := by
  have ho := holds h _ ((wf h).head_mem hc)
  obtain ⟨w, u, hwr⟩ := ho.written (ren_state hc)
  exact ⟨ho.wen, ho.slot, ho.issue, w, u, hwr.after, hwr.before, hwr.hits, hwr.rdData, hwr.info,
    hwr.csrData, hwr.once⟩

theorem in_order_retirement (R : Run) (h : ∀ t, Legal (R.st t) (R.ins t)) :
    (∀ t, (R.st t).occupancy ≤ 16 ∧
      (∀ n, (R.st t).state n ≠ EMPTY_S ↔ n ∈ (R.st t).window) ∧
      ((R.st t).full = true ↔ (R.st t).occupancy = 16) ∧
      ((R.st t).empty = true ↔ (R.st t).occupancy = 0) ∧
      ((R.ins t).flush = true → (R.st (t + 1)).occupancy = 0)) ∧
    (∀ t, R.commits t = true → ∃ a, (R.pending t).head? = some a ∧ R.Presents t a) ∧
    (∀ s t a b, s < t → R.commits s = true → R.commits t = true →
      (R.pending s).head? = some a → (R.pending t).head? = some b → a < b) := by
  refine ⟨fun t => ?_, fun t hc => ?_, fun s t a b hst hs _ ha hb => ?_⟩
  · have hw : (R.st t).Wf := wf fun u _ => h u
    refine ⟨hw.bound, hw.live, full_iff _, empty_iff _, fun hf => ?_⟩
    have he := congrArg List.length (window_next_of_flush (h t) hf)
    rwa [window, Ring.length_window] at he
  · have hw : (R.st t).Wf := wf fun u _ => h u
    exact ⟨_, head?_pending (fun u _ => h u) (hw.occupancy_pos hc), presents (fun u _ => h u) hc⟩
  · exact lt_of_commit R s t a b hst hs ha (List.mem_of_head? hb)

end Legal

-- Three instructions: the second is written back before the first, both commit in order, and the
-- second flushes the third.

def noPort : WbPort := { wen := false, ptr := 0#4, rdData := 0#32, info := default }

def idleIn : In where
  issueWen := false
  issue := default
  bjpWb := noPort
  aluWb := noPort
  lsuWb := noPort
  csrWb := noPort
  csrWbCsrData := 0#32
  nopWbWen := false
  nopWbPtr := 0#4
  nopWbInfo := default
  commitValid := true
  flush := false

def allocIn (rdIdx : BitVec 5) : In :=
  { idleIn with issueWen := true, issue := { (default : RobIssue) with rdIdx := rdIdx } }

def outOfOrder : Run where
  power := ⟨fun _ => default, fun _ => 0#32, fun _ => default, fun _ => 0#32, fun _ => EMPTY_S, 0#5,
    0#5⟩
  ins
    | 0 => allocIn 1#5
    | 1 => allocIn 2#5
    | 2 => { allocIn 3#5 with aluWb := { wen := true, ptr := 1#4, rdData := 9#32, info := default } }
    | 3 => { idleIn with lsuWb := { wen := true, ptr := 0#4, rdData := 7#32, info := default } }
    | 5 => { idleIn with flush := true }
    | _ => idleIn

theorem legal_idleIn (r : Rob) : Legal r idleIn where
  issue_full := fun h => Bool.noConfusion h
  issue_flush := fun h => Bool.noConfusion h
  flush_commit := fun h => Bool.noConfusion h
  wb_mapped := fun u _ h => by cases u <;> exact Bool.noConfusion h
  wb_single := fun u _ _ h => by cases u <;> exact Bool.noConfusion h

-- With one write-back port in use the rules are about one slot.
theorem legal_of_port {r : Rob} {i : In} (u : WbUnit) (n : BitVec 4)
    (hits : ∀ v m, (i.port v).hits m = true → v = u ∧ m = n) (mapped : r.state n = MAPPED_S)
    (full : i.issueWen = true → r.full = false) (hf : i.flush = false) : Legal r i where
  issue_full := full
  issue_flush := fun _ => hf
  flush_commit := fun h => Bool.noConfusion (hf.symm.trans h)
  wb_mapped := fun v m h => (hits v m h).2 ▸ mapped
  wb_single := fun v w m hv hw => (hits v m hv).1.trans (hits w m hw).1.symm

theorem legal_outOfOrder (t : Nat) : Legal (outOfOrder.st t) (outOfOrder.ins t) := by
  match t with
  | 0 =>
    exact { legal_idleIn (outOfOrder.st 0) with
      issue_full := fun _ => by decide
      issue_flush := fun _ => rfl }
  | 1 =>
    exact { legal_idleIn (outOfOrder.st 1) with
      issue_full := fun _ => by decide
      issue_flush := fun _ => rfl }
  | 2 =>
    refine legal_of_port .alu 1#4 (fun v m h => ?_) (by decide) (fun _ => by decide) rfl
    cases v with
    | alu => exact ⟨rfl, (beq_iff_eq.mp h).symm⟩
    | bjp | lsu | csr | nop => exact Bool.noConfusion h
  | 3 =>
    refine legal_of_port .lsu 0#4 (fun v m h => ?_) (by decide) (fun h => Bool.noConfusion h) rfl
    cases v with
    | lsu => exact ⟨rfl, (beq_iff_eq.mp h).symm⟩
    | bjp | alu | csr | nop => exact Bool.noConfusion h
  | 5 =>
    exact { legal_idleIn (outOfOrder.st 5) with
      issue_full := fun h => Bool.noConfusion h
      issue_flush := fun h => Bool.noConfusion h
      flush_commit := fun _ => by decide }
  | 4 | t + 6 => exact legal_idleIn _

theorem in_order_retirement_outOfOrder :
    (outOfOrder.st 4).rdData (outOfOrder.st 4).head = 7#32 ∧
      (outOfOrder.st 5).rdData (outOfOrder.st 5).head = 9#32 ∧
      (∃ a b, outOfOrder.Presents 4 a ∧ outOfOrder.Presents 5 b ∧ a < b) ∧
      (outOfOrder.st 5).occupancy = 2 ∧ (outOfOrder.st 6).occupancy = 0 := by
  obtain ⟨hinv, hpres, horder⟩ := in_order_retirement outOfOrder legal_outOfOrder
  obtain ⟨a, ha, hpa⟩ := hpres 4 (by decide)
  obtain ⟨b, hb, hpb⟩ := hpres 5 (by decide)
  have hab := horder 4 5 a b (by decide) (by decide) (by decide) ha hb
  exact ⟨by decide, by decide, ⟨a, b, hpa, hpb, hab⟩, by decide, (hinv 5).2.2.2.2 rfl⟩

end Run

end HiCore.Rob
