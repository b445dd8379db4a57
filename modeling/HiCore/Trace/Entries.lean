import HiCore.Trace.Inflight

-- The reorder buffer of the core is used as its specification asks, and its
-- waiting entries are the instructions in flight.
namespace HiCore.Run

open Rob (WbUnit)
open SlotState

variable (r : Run)

structure Tracked (t : Nat) : Prop where
  nodup : (r.tags t).inflight.Nodup
  mapped : ∀ d, d ∈ (r.tags t).inflight ↔
    ∃ n, (r.st t).rob.state n = MAPPED_S ∧ r.owner t n = d

-- The callers' rules hold in cycle `t`.
def Lawful (t : Nat) : Prop := Rob.Legal (r.rob.st t) (r.rob.ins t)

variable {r} {t : Nat}

theorem WritesBack.mem_inflight {u : WbUnit} {n : BitVec 4} {d : Nat}
    (h : r.WritesBack t u n d) : d ∈ (r.tags t).inflight := by
  have hm : (d, false) ∈ (r.tags t).writer (r.st t) u := by simp [h.writer]
  simp only [Tags.inflight, Multiset.mem_add, Fifo.mem_live]
  cases u with
  | bjp => exact .inl (.inl (.inl (.inl (.inl hm))))
  | nop => exact .inl (.inl (.inl (.inl (.inl hm))))
  | alu => exact .inl (.inl (.inl (.inl (.inr hm))))
  | csr => exact .inl (.inl (.inl (.inr hm)))
  | lsu =>
    simp only [Tags.writer] at hm
    split at hm
    · exact .inr (List.mem_of_mem_take hm)
    · exact .inl (.inr hm)

section Legal

variable (hl : ∀ u < t, r.Lawful u)
include hl

theorem wf_rob : (r.st t).rob.Wf := r.rob_st t ▸ Rob.Run.wf hl

theorem holds_of_mem (n : BitVec 4) (hm : n ∈ (r.st t).rob.window) : r.rob.Holds t n := by
  rw [← r.rob_st] at hm
  exact Rob.Run.holds hl n hm

theorem mem_window_of_mapped (n : BitVec 4) (h : (r.st t).rob.state n = MAPPED_S) :
    n ∈ (r.st t).rob.window := by
  rw [← (wf_rob hl).live, h]
  decide

theorem ptrOf_owner (n : BitVec 4) (hm : n ∈ (r.st t).rob.window) : r.ptrOf (r.owner t n) = n := by
  have hs := (holds_of_mem hl n hm).slot
  rwa [r.rob_st] at hs

theorem owner_next (hlt : r.Lawful t) (n : BitVec 4) (hm : n ∈ (r.st t).rob.window) :
    r.owner (t + 1) n = r.owner t n := by
  rw [← r.rob_st] at hm
  exact Rob.Run.alloc_of_mem (Rob.Run.wf hl) hlt n hm

theorem Tracked.owner_of_mem (hi : r.Tracked t) (d : Nat) (hd : d ∈ (r.tags t).inflight) :
    (r.st t).rob.state (r.ptrOf d) = MAPPED_S ∧ r.owner t (r.ptrOf d) = d := by
  obtain ⟨n, hs, rfl⟩ := (hi.mapped d).mp hd
  rw [ptrOf_owner hl n (mem_window_of_mapped hl n hs)]
  exact ⟨hs, rfl⟩

theorem Tracked.lt_of_mem (hi : r.Tracked t) (d : Nat) (hd : d ∈ (r.tags t).inflight) : d < t := by
  obtain ⟨n, hs, rfl⟩ := (hi.mapped d).mp hd
  exact (holds_of_mem hl n (mem_window_of_mapped hl n hs)).lt

theorem Tracked.owner_of_hits (hi : r.Tracked t) (u : WbUnit) (n : BitVec 4) (d : Nat)
    (h : r.WritesBack t u n d) : (r.st t).rob.state n = MAPPED_S ∧ r.owner t n = d := by
  have := hi.owner_of_mem hl d h.mem_inflight
  rwa [h.ptr] at this

theorem Tracked.lawful (hi : r.Tracked t) : r.Lawful t := by
  refine ⟨?_, ?_, ?_, ?_, ?_⟩
  · intro h
    have hw : (r.st t).robWen = true := h
    simp only [Cpu.robWen, Cpu.deValid, Cpu.dep, Decode.dep, Bool.and_eq_true, Bool.not_eq_true',
      Bool.or_eq_false_iff] at hw
    rw [r.rob_st]
    exact hw.1.1.1.2.2
  · intro h
    have hw : (r.st t).robWen = true := h
    simp only [Cpu.robWen, Bool.and_eq_true, Bool.not_eq_true'] at hw
    exact hw.2
  · intro h
    have hf : (r.st t).flush = true := h
    rw [r.rob_st]
    exact (Bool.and_eq_true_iff.mp hf).1
  · intro u n h
    obtain ⟨d, hd⟩ := r.writesBack_of_hits t u n h
    rw [r.rob_st]
    exact (hi.owner_of_hits hl u n d hd).1
  · intro u v n hu hv
    obtain ⟨d, hd⟩ := r.writesBack_of_hits t u n hu
    obtain ⟨e, he⟩ := r.writesBack_of_hits t v n hv
    have hde : d = e := (hi.owner_of_hits hl u n d hd).2.symm.trans (hi.owner_of_hits hl v n e he).2
    rw [← hd.unit, ← he.unit, hde]

end Legal

theorem tracked_zero (r : Run) : r.Tracked 0 := by
  refine ⟨?_, fun d => ?_⟩
  · simp [tags, Tags.reset, Tags.inflight]
  · simp [tags, Tags.reset, Tags.inflight, st, Cpu.reset, Rob.reset]

-- A unit whose result leaves in a cycle without flush raises its write enable.

theorem aluWb_wen (hf : (r.st t).flush = false) (d : Nat) (h : (d, false) ∈ (r.tags t).alu) :
    (r.st t).aluWb.wen = true := by
  cases hv : (r.st t).alu2wb.vld with
  | false => simp [Pipe.rel_of_not_vld (r.rel_alu t) hv] at h
  | true =>
    obtain ⟨e, he, -⟩ := Pipe.rel_of_vld (r.rel_alu t) hv
    rw [he, List.mem_singleton, Prod.mk.injEq] at h
    simp [Cpu.aluWb, hv, ← h.2, hf]

theorem csrWb_wen (hf : (r.st t).flush = false) (d : Nat) (h : (d, false) ∈ (r.tags t).csr) :
    (r.st t).csrWb.wen = true := by
  cases hv : (r.st t).csr.csr2wb.vld with
  | false => simp [Pipe.rel_of_not_vld (r.rel_csr t) hv] at h
  | true =>
    obtain ⟨e, he, -⟩ := Pipe.rel_of_vld (r.rel_csr t) hv
    rw [he, List.mem_singleton, Prod.mk.injEq] at h
    simp [Cpu.csrWb, hv, ← h.2, hf]

theorem lsuWb_wen_of_excp (hp : (r.st t).excpPop = true) (d : Nat)
    (h : (d, false) ∈ (r.tags t).excp) :
    (r.st t).lsuRspValid = false ∧ (r.st t).lsuWb.wen = true := by
  obtain ⟨hv, hr⟩ := Bool.and_eq_true_iff.mp hp
  obtain ⟨e, he, -⟩ := Pipe.rel_of_vld (r.rel_excp t) hv
  rw [he, List.mem_singleton, Prod.mk.injEq] at h
  have hr' : (r.st t).lsuRspValid = false := by simpa [Lsu.oExcpQueueReady] using hr
  exact ⟨hr', by simp [Cpu.lsuWb, Lsu.wbWen, Lsu.oExcpQueueReady, hr', hv, ← h.2]⟩

theorem lsuWb_wen_of_mem (hp : (r.st t).memPop = true) (d : Nat)
    (h : (d, false) ∈ (r.tags t).memq.take 1) :
    (r.st t).lsuRspValid = true ∧ (r.st t).lsuWb.wen = true := by
  obtain ⟨hv, hr⟩ := Bool.and_eq_true_iff.mp hp
  obtain ⟨e, rest, he, -⟩ := Queue.rel_of_oValid (r.rel_memq t) hv
  rw [he, List.take_succ_cons, List.take_zero, List.mem_singleton, Prod.mk.injEq] at h
  have hr' : (r.st t).lsuRspValid = true := hr
  exact ⟨hr', by simp [Cpu.lsuWb, Lsu.wbWen, Lsu.rspReady, hr', hv, ← h.2]⟩

-- What leaves the units in a cycle without flush hits its own slot.
theorem writesBack_of_written (hf : (r.st t).flush = false) (d : Nat)
    (h : d ∈ (r.tags t).written (r.st t)) : ∃ u, r.WritesBack t u (r.ptrOf d) d := by
  -- It is enough to find the port; its writer is then the only candidate.
  have key : ∀ u, ((r.st t).robIn.port u).wen = true →
      (d, false) ∈ (r.tags t).writer (r.st t) u → ∃ u, r.WritesBack t u (r.ptrOf d) d := by
    intro u hw hm
    obtain ⟨e, he⟩ := r.writesBack_of_hits t u _ ((hits_iff _ _).mpr ⟨hw, rfl⟩)
    rw [he.writer, List.mem_singleton, Prod.mk.injEq] at hm
    obtain ⟨rfl, -⟩ := hm
    exact ⟨u, he.ptr.symm ▸ he⟩
  simp only [Tags.written, Multiset.mem_add] at h
  rcases h with (((h | h) | h) | h) | h
  · split at h
    · next hw =>
      rw [Fifo.mem_live] at h
      rcases Bool.or_eq_true_iff.mp hw with hw | hw
      · exact key .bjp hw h
      · exact key .nop hw h
    · simp at h
  · rw [Fifo.mem_live] at h
    exact key .alu (aluWb_wen hf d h) h
  · rw [Fifo.mem_live] at h
    exact key .csr (csrWb_wen hf d h) h
  · split at h
    · next hp =>
      rw [Fifo.mem_live] at h
      obtain ⟨hr, hw⟩ := lsuWb_wen_of_excp hp d h
      exact key .lsu hw (by simpa [Tags.writer, hr] using h)
    · simp at h
  · split at h
    · next hp =>
      rw [Fifo.mem_live] at h
      obtain ⟨hr, hw⟩ := lsuWb_wen_of_mem hp d h
      exact key .lsu hw (by simpa [Tags.writer, hr] using h)
    · simp at h

theorem WritesBack.mem_written {u : WbUnit} {n : BitVec 4} {d : Nat}
    (h : r.WritesBack t u n d) : d ∈ (r.tags t).written (r.st t) := by
  have hm : (d, false) ∈ (r.tags t).writer (r.st t) u := by simp [h.writer]
  have hw := ((hits_iff _ _).mp h.hits).1
  simp only [Tags.written, Multiset.mem_add]
  cases u with
  | bjp =>
    have hw' : (r.st t).bjpWb.wen = true := hw
    exact .inl (.inl (.inl (.inl (by simpa [hw', Fifo.mem_live, Tags.writer] using hm))))
  | nop =>
    have hw' : (r.st t).nopWbWen = true := hw
    exact .inl (.inl (.inl (.inl (by simpa [hw', Fifo.mem_live, Tags.writer] using hm))))
  | alu => exact .inl (.inl (.inl (.inr ((Fifo.mem_live _ _).mpr hm))))
  | csr => exact .inl (.inl (.inr ((Fifo.mem_live _ _).mpr hm)))
  | lsu =>
    have hw' : (r.st t).lsu.wbWen (r.st t).lsuRspValid = true := hw
    cases hr : (r.st t).lsuRspValid with
    | true =>
      have hp : (r.st t).memPop = true := by
        simp [Lsu.wbWen, hr, Lsu.oExcpQueueReady, Lsu.rspReady] at hw'
        simp [Cpu.memPop, Queue.ren, Lsu.memQueueIn, Cpu.lsuIn, hr, hw'.1]
      refine .inr ?_
      simpa [hp, Fifo.mem_live, Tags.writer, hr] using hm
    | false =>
      have hp : (r.st t).excpPop = true := by
        simp [Lsu.wbWen, hr, Lsu.oExcpQueueReady] at hw'
        simp [Cpu.excpPop, Pipe.vldClr, Lsu.oExcpQueueReady, hr, hw'.1]
      refine .inl (.inr ?_)
      simpa [hp, Fifo.mem_live, Tags.writer, hr] using hm

-- With no flush the survivors are what was here or came in, less what was
-- written back.
theorem Tracked.mem_next (hi : r.Tracked t) (hl : ∀ u < t, r.Lawful u)
    (hf : (r.st t).flush = false) :
    (r.tags (t + 1)).inflight.Nodup ∧ ∀ d, d ∈ (r.tags (t + 1)).inflight ↔
      (d ∈ (r.tags t).inflight ∨ ((r.st t).robWen = true ∧ d = t)) ∧
        d ∉ (r.tags t).written (r.st t) := by
  have hc := r.inflight_next t hf
  have hadd : ∀ d, d ∈ (r.tags t).inflight + (if (r.st t).robWen then {t} else 0) ↔
      d ∈ (r.tags t).inflight ∨ ((r.st t).robWen = true ∧ d = t) := by
    intro d
    cases (r.st t).robWen <;> simp
  have hnd : ((r.tags t).inflight + (if (r.st t).robWen then {t} else 0)).Nodup := by
    refine Multiset.nodup_add.mpr ⟨hi.nodup, ?_, ?_⟩
    · split <;> simp
    · rw [Multiset.disjoint_left]
      intro d hd ht
      split at ht
      · exact absurd (hi.lt_of_mem hl d hd) (by rw [Multiset.mem_singleton.mp ht]; omega)
      · simp at ht
  rw [← hc] at hnd
  obtain ⟨hn, -, hdis⟩ := Multiset.nodup_add.mp hnd
  refine ⟨hn, fun d => ?_⟩
  rw [← hadd, ← hc, Multiset.mem_add]
  constructor
  · exact fun h => ⟨.inl h, Multiset.disjoint_left.mp hdis h⟩
  · rintro ⟨h | h, hw⟩
    · exact h
    · exact absurd h hw

theorem Tracked.next_of_flush (hlt : r.Lawful t) (hf : (r.st t).flush = true) :
    r.Tracked (t + 1) := by
  rw [Lawful, r.rob_st] at hlt
  have hz := r.inflight_next_of_flush t hf
  refine ⟨by simp [hz], fun d => ?_⟩
  have he : ∀ n, (r.st (t + 1)).rob.state n ≠ MAPPED_S := by
    intro n hn
    change ((r.st t).rob.next (r.st t).robIn).state n = MAPPED_S at hn
    cases Rob.slotStep_of_flush hlt hf n with
    | free out state => exact SlotState.noConfusion (state.symm.trans hn)
    | fresh noFlush | kept noFlush | written noFlush =>
      exact Bool.noConfusion (noFlush.symm.trans hf)
  simp [hz, he]

section Step

variable (hi : r.Tracked t) (hl : ∀ u < t, r.Lawful u) (hlt : r.Lawful t)
include hi hl hlt

theorem Tracked.mapped_next (hf : (r.st t).flush = false) (d : Nat)
    (hd : d ∈ (r.tags t).inflight) (hnw : d ∉ (r.tags t).written (r.st t)) :
    (r.st (t + 1)).rob.state (r.ptrOf d) = MAPPED_S := by
  have hw := wf_rob hl
  have hlt' : Rob.Legal (r.st t).rob (r.st t).robIn := by rwa [Lawful, r.rob_st] at hlt
  obtain ⟨hs, ho⟩ := hi.owner_of_mem hl d hd
  have hm := mem_window_of_mapped hl _ hs
  change ((r.st t).rob.next (r.st t).robIn).state _ = MAPPED_S
  cases Rob.slotStep hw hlt' (r.ptrOf d) with
  | free out state =>
    -- The head is written back, so a waiting entry is not the one that leaves.
    refine absurd ((Rob.mem_window_next hw hlt' hf _).mpr (.inl ⟨hm, ?_⟩)) out
    rintro ⟨hr, he⟩
    rw [he, Rob.ren_state hr] at hs
    exact SlotState.noConfusion hs
  | fresh noFlush wen slot new => exact absurd hm new
  | kept noFlush mem noWb notHead state => exact state.trans hs
  | written noFlush mem u hits =>
    obtain ⟨e, he⟩ := r.writesBack_of_hits t u _ hits
    rw [(hi.owner_of_hits hl u _ e he).2] at ho
    exact absurd (ho ▸ he.mem_written) hnw

theorem Tracked.of_mapped_next (hf : (r.st t).flush = false) (n : BitVec 4)
    (hs : (r.st (t + 1)).rob.state n = MAPPED_S) :
    (r.owner (t + 1) n ∈ (r.tags t).inflight ∨
      ((r.st t).robWen = true ∧ r.owner (t + 1) n = t)) ∧
        r.owner (t + 1) n ∉ (r.tags t).written (r.st t) := by
  have hw := wf_rob hl
  have hlt' : Rob.Legal (r.st t).rob (r.st t).robIn := by rwa [Lawful, r.rob_st] at hlt
  change ((r.st t).rob.next (r.st t).robIn).state n = MAPPED_S at hs
  cases Rob.slotStep hw hlt' n with
  | free out state => exact SlotState.noConfusion (state.symm.trans hs)
  | fresh noFlush wen slot new state =>
    have ht : r.owner (t + 1) n = t := by
      have := Rob.Run.alloc_tail (R := r.rob) (t := t) wen
      rwa [r.rob_st, ← slot] at this
    rw [ht]
    refine ⟨.inr ⟨wen, rfl⟩, fun hd => ?_⟩
    obtain ⟨u, hu⟩ := writesBack_of_written hf t hd
    have := hi.lt_of_mem hl t hu.mem_inflight
    omega
  | kept noFlush mem noWb notHead state =>
    rw [owner_next hl hlt n mem]
    refine ⟨.inl ((hi.mapped _).mpr ⟨n, state.symm.trans hs, rfl⟩), fun hd => ?_⟩
    obtain ⟨u, hu⟩ := writesBack_of_written hf _ hd
    rw [ptrOf_owner hl n mem] at hu
    rw [(Rob.wbWen_iff _ _).mpr ⟨u, hu.hits⟩] at noWb
    exact Bool.noConfusion noWb
  | written noFlush mem u hits mapped state =>
    exact SlotState.noConfusion (state.symm.trans hs)

theorem Tracked.next : r.Tracked (t + 1) := by
  cases hf : (r.st t).flush with
  | true => exact .next_of_flush hlt hf
  | false =>
    obtain ⟨hnd, hmem⟩ := hi.mem_next hl hf
    have hlt' : Rob.Legal (r.st t).rob (r.st t).robIn := by rwa [Lawful, r.rob_st] at hlt
    refine ⟨hnd, fun d => ?_⟩
    rw [hmem]
    constructor
    · rintro ⟨hd | ⟨hwen, rfl⟩, hnw⟩
      · obtain ⟨hs, ho⟩ := hi.owner_of_mem hl d hd
        refine ⟨r.ptrOf d, hi.mapped_next hl hlt hf d hd hnw, ?_⟩
        exact (owner_next hl hlt _ (mem_window_of_mapped hl _ hs)).trans ho
      · refine ⟨(r.st d).rob.tail, Rob.state_next_tail hlt' hwen, ?_⟩
        have := Rob.Run.alloc_tail (R := r.rob) (t := d) hwen
        rwa [r.rob_st] at this
    · rintro ⟨n, hs, rfl⟩
      exact hi.of_mapped_next hl hlt hf n hs

end Step

theorem lawful_tracked (r : Run) (t : Nat) : (∀ u < t, r.Lawful u) ∧ r.Tracked t := by
  induction t with
  | zero => exact ⟨fun u hu => absurd hu (Nat.not_lt_zero u), r.tracked_zero⟩
  | succ t ih =>
    obtain ⟨hl, hi⟩ := ih
    have hlt := hi.lawful hl
    refine ⟨fun u hu => ?_, hi.next hl hlt⟩
    rcases Nat.lt_succ_iff_lt_or_eq.mp hu with h | rfl
    · exact hl u h
    · exact hlt

theorem lawful (r : Run) (t : Nat) : r.Lawful t := (r.lawful_tracked (t + 1)).1 t (Nat.lt_succ_self t)

theorem tracked (r : Run) (t : Nat) : r.Tracked t := (r.lawful_tracked t).2

-- The same facts, over the state of the core.

theorem legal (r : Run) (t : Nat) : Rob.Legal (r.st t).rob (r.st t).robIn := by
  have h := r.lawful t
  rwa [Lawful, r.rob_st] at h

theorem wf (r : Run) (t : Nat) : (r.st t).rob.Wf := wf_rob fun u _ => r.lawful u

theorem mem_of_mapped (r : Run) (t : Nat) (n : BitVec 4) (h : (r.st t).rob.state n = MAPPED_S) :
    n ∈ (r.st t).rob.window := mem_window_of_mapped (fun u _ => r.lawful u) n h

theorem head_mem (r : Run) (t : Nat) (h : (r.st t).commits = true) :
    (r.st t).rob.head ∈ (r.st t).rob.window := (r.wf t).head_mem (i := (r.st t).robIn) h

theorem slotStep (r : Run) (t : Nat) (n : BitVec 4) :
    Rob.SlotStep (r.st t).rob (r.st t).robIn n := Rob.slotStep (r.wf t) (r.legal t) n

theorem holds (r : Run) (t : Nat) (n : BitVec 4) (hm : n ∈ (r.st t).rob.window) :
    r.rob.Holds t n := holds_of_mem (fun u _ => r.lawful u) n hm

theorem owner_lt (r : Run) (t : Nat) (n : BitVec 4) (hm : n ∈ (r.st t).rob.window) :
    r.owner t n < t := (r.holds t n hm).lt

theorem robWen_owner (r : Run) (t : Nat) (n : BitVec 4) (hm : n ∈ (r.st t).rob.window) :
    (r.st (r.owner t n)).robWen = true := (r.holds t n hm).wen

theorem issue_owner (r : Run) (t : Nat) (n : BitVec 4) (hm : n ∈ (r.st t).rob.window) :
    (r.st t).rob.issue n = (r.st (r.owner t n)).robIssue := by
  have h := (r.holds t n hm).issue
  rwa [r.rob_st] at h

theorem owner_succ (r : Run) (t : Nat) (n : BitVec 4) (hm : n ∈ (r.st t).rob.window) :
    r.owner (t + 1) n = r.owner t n := owner_next (fun u _ => r.lawful u) (r.lawful t) n hm

theorem owner_tail (r : Run) (t : Nat) (h : (r.st t).robWen = true) :
    r.owner (t + 1) (r.st t).rob.tail = t := by
  have ha := Rob.Run.alloc_tail (R := r.rob) (t := t) h
  rwa [r.rob_st] at ha

theorem pending_eq_owners (r : Run) (t : Nat) :
    r.rob.pending t = (r.st t).rob.window.map (r.owner t) := by
  have h := Rob.Run.pending_eq (R := r.rob) (t := t) fun u _ => r.lawful u
  rwa [r.rob_st] at h

theorem pending_succ (r : Run) (t : Nat) : r.rob.pending (t + 1) =
    if (r.st t).flush then [] else
      Fifo.shift (r.st t).commits (if (r.st t).robWen then [t] else []) (r.rob.pending t) := by
  rw [Rob.Run.pending, Rob.Run.commits, r.rob_st]
  rfl

theorem pending_eq_cons (r : Run) (t : Nat) (h : (r.st t).commits = true) :
    ∃ rest, r.rob.pending t = r.owner t (r.st t).rob.head :: rest := by
  obtain ⟨rest, hr, -⟩ := (r.wf t).window_eq_cons ((r.wf t).occupancy_pos (i := (r.st t).robIn) h)
  exact ⟨rest.map (r.owner t), by rw [pending_eq_owners, hr, List.map_cons]⟩

-- How many of the entries in cycle `u` are older than cycle `t`.
def older (r : Run) (t u : Nat) : Nat := (r.rob.pending u).countP (· < t)

-- The instruction that commits is the oldest.
theorem older_succ (r : Run) {t u : Nat} (htu : t ≤ u) (hf : (r.st u).flush = false) :
    r.older t (u + 1) +
      ((r.st u).commits && decide (r.owner u (r.st u).rob.head < t)).toNat = r.older t u := by
  have hnew : (if (r.st u).robWen then [u] else []).countP (· < t) = 0 := by
    split
    · simpa using htu
    · rfl
  rw [older, older, pending_succ, hf, if_neg Bool.false_ne_true, Fifo.shift]
  cases hc : (r.st u).commits with
  | false => simp [hnew]
  | true =>
    obtain ⟨rest, hp⟩ := r.pending_eq_cons u hc
    rw [hp, if_pos rfl, List.cons_append, List.tail_cons, List.countP_append, hnew,
      List.countP_cons, Bool.true_and]
    cases decide (r.owner u (r.st u).rob.head < t) <;> simp

theorem owners_pairwise (r : Run) (t : Nat) :
    ((r.st t).rob.window.map (r.owner t)).Pairwise (· < ·) := by
  rw [← pending_eq_owners]
  exact r.rob.pending_pairwise t

-- The entry under the head pointer is the oldest.
theorem owner_head_lt (r : Run) (t : Nat) (n : BitVec 4) (hm : n ∈ (r.st t).rob.window)
    (hn : n ≠ (r.st t).rob.head) : r.owner t (r.st t).rob.head < r.owner t n := by
  have hpos : 0 < (r.st t).rob.occupancy := by
    have := List.length_pos_of_mem hm
    rwa [Rob.window, Ring.length_window] at this
  obtain ⟨rest, hr, -⟩ := (r.wf t).window_eq_cons hpos
  have hp := r.owners_pairwise t
  rw [hr, List.map_cons, List.pairwise_cons] at hp
  rw [hr, List.mem_cons] at hm
  rcases hm with rfl | hm
  · exact absurd rfl hn
  · exact hp.1 _ (List.mem_map_of_mem hm)

-- An entry of the next cycle is an entry of this one or the one allocated now.
theorem mem_window_succ (r : Run) (t : Nat) (n : BitVec 4) (hm : n ∈ (r.st (t + 1)).rob.window) :
    (r.st t).flush = false ∧
      ((n ∈ (r.st t).rob.window ∧ ¬((r.st t).commits = true ∧ n = (r.st t).rob.head)) ∨
        ((r.st t).robWen = true ∧ n = (r.st t).rob.tail)) := by
  cases hf : (r.st t).flush with
  | true =>
    have hw := Rob.window_next_of_flush (r.legal t) hf
    change n ∈ ((r.st t).rob.next (r.st t).robIn).window at hm
    rw [hw] at hm
    exact absurd hm List.not_mem_nil
  | false => exact ⟨rfl, (Rob.mem_window_next (r.wf t) (r.legal t) hf n).mp hm⟩

-- An entry was there, with the same owner, in every cycle since its allocation.
theorem live_between (r : Run) (t u : Nat) (n : BitVec 4) (hm : n ∈ (r.st u).rob.window)
    (hlt : r.owner u n < t) (hle : t ≤ u) :
    n ∈ (r.st t).rob.window ∧ r.owner t n = r.owner u n := by
  induction u, hle using Nat.le_induction with
  | base => exact ⟨hm, rfl⟩
  | succ u hle ih =>
    obtain ⟨-, ⟨hm', -⟩ | ⟨hw, rfl⟩⟩ := r.mem_window_succ u n hm
    · rw [r.owner_succ u n hm'] at hlt ⊢
      exact ih hm' hlt
    · rw [r.owner_tail u hw] at hlt
      omega

-- What leaves the units in a cycle without flush has its result in the next one.
theorem state_of_written (r : Run) (t d : Nat) (hf : (r.st t).flush = false)
    (hd : d ∈ (r.tags t).written (r.st t)) :
    (r.st (t + 1)).rob.state (r.ptrOf d) = WRITEBACK_S := by
  obtain ⟨u, hu⟩ := writesBack_of_written hf d hd
  obtain ⟨hmap, -⟩ := (r.tracked t).owner_of_hits (fun v _ => r.lawful v) u _ d hu
  have hm := r.mem_of_mapped t _ hmap
  cases r.slotStep t (r.ptrOf d) with
  | free out state =>
    -- The head has its result, so a waiting entry is not the one that leaves.
    refine absurd ((Rob.mem_window_next (r.wf t) (r.legal t) hf _).mpr (.inl ⟨hm, ?_⟩)) out
    rintro ⟨hr, he⟩
    rw [he, Rob.ren_state hr] at hmap
    exact SlotState.noConfusion hmap
  | fresh noFlush wen slot new => exact absurd hm new
  | kept noFlush mem noWb =>
    rw [(Rob.wbWen_iff _ _).mpr ⟨u, hu.hits⟩] at noWb
    exact Bool.noConfusion noWb
  | written noFlush mem v hits mapped state => exact state

-- Nothing flushes while an entry is there.
theorem flush_between (r : Run) (t u : Nat) (n : BitVec 4) (hm : n ∈ (r.st u).rob.window)
    (hle : r.owner u n ≤ t) (hlt : t < u) : (r.st t).flush = false := by
  obtain ⟨hm', -⟩ := r.live_between (t + 1) u n hm (Nat.lt_succ_of_le hle) hlt
  exact (r.mem_window_succ t n hm').1

-- What commits between the decode and the commit of an instruction is older.
theorem owner_lt_of_between (r : Run) (t c : Nat) (hc : (r.st c).commits = true)
    (hct : (r.st t).commits = true) (hle : r.owner c (r.st c).rob.head ≤ t) (hlt : t < c) :
    r.owner t (r.st t).rob.head < r.owner c (r.st c).rob.head := by
  have hm := r.head_mem c hc
  rcases Nat.lt_or_eq_of_le hle with h | h
  · obtain ⟨hl, ho⟩ := r.live_between t c _ hm h hlt.le
    rw [← ho]
    refine r.owner_head_lt t _ hl fun he => ?_
    -- The entry is still there in the next cycle, so it is not the one that leaves.
    obtain ⟨hl', -⟩ := r.live_between (t + 1) c _ hm (Nat.lt_succ_of_lt h) hlt
    obtain ⟨-, ⟨-, hn⟩ | ⟨hwen, ht⟩⟩ := r.mem_window_succ t _ hl'
    · exact hn ⟨hct, he⟩
    · exact (r.wf t).tail_notMem (r.legal t) hwen (ht ▸ hl)
  · rw [h]
    exact r.owner_lt t _ (r.head_mem t hct)

-- It was in the reorder buffer when the instruction was decoded.
theorem head_at_decode (r : Run) (t c : Nat) (hc : (r.st c).commits = true)
    (hct : (r.st t).commits = true) (hle : r.owner c (r.st c).rob.head ≤ t) (hlt : t < c) :
    (r.st t).rob.head ∈ (r.st (r.owner c (r.st c).rob.head)).rob.window ∧
      (r.st t).rob.issue (r.st t).rob.head =
        (r.st (r.owner c (r.st c).rob.head)).rob.issue (r.st t).rob.head := by
  have hmt := r.head_mem t hct
  obtain ⟨hw, how⟩ := r.live_between _ t _ hmt (r.owner_lt_of_between t c hc hct hle hlt) hle
  refine ⟨hw, ?_⟩
  rw [r.issue_owner t _ hmt, r.issue_owner _ _ hw, how]

-- An instruction stays in the reorder buffer while an older one is there.
theorem live_behind (r : Run) (d T : Nat) (m : BitVec 4) (hw : (r.st d).robWen = true)
    (hm : m ∈ (r.st T).rob.window) (hlt : r.owner T m < d) (t : Nat) (hdt : d < t) (htT : t ≤ T) :
    ∃ n ∈ (r.st t).rob.window, r.owner t n = d := by
  induction t, hdt using Nat.le_induction with
  | base =>
    have hf : (r.st d).robIn.flush = false := (r.legal d).issue_flush hw
    exact ⟨_, (Rob.mem_window_next (r.wf d) (r.legal d) hf _).mpr (.inr ⟨hw, rfl⟩),
      r.owner_tail d hw⟩
  | succ t hdt ih =>
    obtain ⟨n, hn, ho⟩ := ih (by omega)
    have hf := r.flush_between t T m hm (by omega) htT
    obtain ⟨hl, hlo⟩ := r.live_between t T m hm (by omega) (by omega)
    refine ⟨n, (Rob.mem_window_next (r.wf t) (r.legal t) hf n).mpr (.inl ⟨hn, ?_⟩),
      (r.owner_succ t n hn).trans ho⟩
    -- The head is older still, so it is not this one that commits.
    rintro ⟨-, rfl⟩
    by_cases he : m = (r.st t).rob.head
    · rw [← he] at ho
      omega
    · have := r.owner_head_lt t m hl he
      omega

end HiCore.Run
