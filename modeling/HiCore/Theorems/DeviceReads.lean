import HiCore.Theorems.Stores
import HiCore.Trace.CsrPath
import HiCore.Trace.Drain

-- Loads go to the bus as soon as they issue. When a read of the PLIC, which may
-- claim an interrupt, is undone by the flush of an older instruction.
namespace HiCore.Run

open SlotState

variable (r : Run)

-- The PLIC accepts a read in cycle `u`, and it is that of instruction `d`.
def PlicReads (u d : Nat) : Prop :=
  (r.st u).plic.cmdRdHsked ((r.st u).plicIn (r.pins u)) = true ∧ (r.tags u).onBus (r.st u) = [d]

theorem PlicReads.sends {r : Run} {u d : Nat} (h : r.PlicReads u d) : r.Sends u d := by
  obtain ⟨hh, hb⟩ := h
  simp only [Plic.cmdRdHsked, Bool.and_eq_true] at hh
  exact ⟨cmdFires_of_port _ 2 hh.1.1 ((slaveCmdReady_port _).2.2.trans hh.1.2), hb⟩

-- Only an instruction with an entry gets as far as the command buffer.

theorem robWen_of_cmdPush (t d : Nat) (hp : (r.st t).cmdPush = true)
    (hm : d ∈ Fifo.tags (r.tags t).agu) : (r.st d).robWen = true := by
  simp only [Cpu.cmdPush, Lsu.iMemFifoVld, Bool.and_eq_true, Bool.not_eq_true'] at hp
  obtain ⟨⟨⟨⟨hv, -⟩, hc⟩, -⟩, -⟩ := hp
  obtain ⟨e, he, -⟩ := r.agu_of_vld t hv
  rw [he, hc] at hm
  obtain rfl : d = e := List.mem_singleton.mp hm
  have hi := r.mem_inflight_agu t d (by rw [he, hc]; exact List.mem_singleton.mpr rfl)
  obtain ⟨hs, ho⟩ := (r.tracked t).owner_of_mem (fun v _ => r.lawful v) d hi
  exact ho ▸ r.robWen_owner t _ (r.mem_of_mapped t _ hs)

theorem robWen_of_cmd (t d : Nat) (h : d ∈ Fifo.tags (r.tags t).cmd) : (r.st d).robWen = true := by
  induction t with
  | zero => simp [tags, Tags.reset] at h
  | succ t ih =>
    rw [tags_cmd_succ] at h
    rcases List.mem_append.mp ((Fifo.shift_sublist _ _ _).subset h) with hm | hm
    · exact ih hm
    · rw [Tags.arriving, tags_ite] at hm
      split at hm
      · next hp => exact r.robWen_of_cmdPush t d hp hm
      · exact absurd hm List.not_mem_nil

theorem Sends.robWen {r : Run} {u d : Nat} (h : r.Sends u d) : (r.st d).robWen = true := by
  have hm : d ∈ (r.tags u).onBus (r.st u) := by simp [h.2]
  rw [Tags.onBus, Fifo.tags_append] at hm
  rcases List.mem_append.mp (List.mem_of_mem_take hm) with hc | ha
  · exact r.robWen_of_cmd u d hc
  · rw [Tags.arriving, tags_ite] at ha
    split at ha
    · next hp => exact r.robWen_of_cmdPush u d hp ha
    · exact absurd ha List.not_mem_nil

-- The load is the oldest of those that have not had their command accepted.
theorem Sends.le_waiting {r : Run} {u d : Nat} (h : r.Sends u d) : ∀ e ∈ r.waiting u, d ≤ e := by
  have hhead : (r.waiting u).head? = some d := by
    have hb := h.2
    rw [Tags.onBus, Fifo.tags_append, Tags.arriving, tags_ite] at hb
    rw [waiting]
    cases hc : Fifo.tags (r.tags u).cmd with
    | cons x l =>
      rw [hc] at hb
      exact congrArg List.head? hb
    | nil =>
      rw [hc, List.nil_append] at hb
      split at hb
      · cases ha : Fifo.tags (r.tags u).agu with
        | cons x l =>
          rw [ha] at hb
          exact congrArg List.head? hb
        | nil => exact absurd (ha ▸ hb) (by simp)
      · exact absurd hb (by simp)
  obtain ⟨rest, hr⟩ := List.head?_eq_some_iff.mp hhead
  have hp := (List.pairwise_append.mp (r.path_sorted u).1).2.1
  rw [hr, List.pairwise_cons] at hp
  intro e he
  rw [hr, List.mem_cons] at he
  rcases he with rfl | he
  · exact Nat.le_refl e
  · exact (hp.1 e he).le

-- It has left the issue register, which takes it two cycles.
theorem Sends.succ_lt {r : Run} {u d : Nat} (h : r.Sends u d) : d + 1 < u := by
  have hm : d ∈ (r.tags u).onBus (r.st u) := by simp [h.2]
  rw [Tags.onBus, Fifo.tags_append, Tags.arriving, tags_ite] at hm
  cases u with
  | zero => exact absurd h.lt (Nat.not_lt_zero d)
  | succ v =>
    have hw : d ∈ r.waiting v := by
      rw [waiting]
      rcases List.mem_append.mp (List.mem_of_mem_take hm) with hc | ha
      · rw [tags_cmd_succ, Tags.arriving, tags_ite] at hc
        rcases List.mem_append.mp ((Fifo.shift_sublist _ _ _).subset hc) with h1 | h1
        · exact List.mem_append_left _ h1
        · split at h1
          · exact List.mem_append_right _ (List.mem_append_left _ h1)
          · exact absurd h1 List.not_mem_nil
      · have ha' : d ∈ Fifo.tags (r.tags (v + 1)).agu := by
          split at ha
          · exact ha
          · exact absurd ha List.not_mem_nil
        change d ∈ Fifo.tags (Fifo.next _ _ (if (r.st v).aguPush then _ else _) _) at ha'
        rw [Fifo.tags_next, tags_ite] at ha'
        rcases List.mem_append.mp ((Fifo.shift_sublist _ _ _).subset ha') with h1 | h1
        · exact List.mem_append_right _ (List.mem_append_left _ h1)
        · split at h1
          · exact List.mem_append_right _ (List.mem_append_right _ h1)
          · exact absurd h1 List.not_mem_nil
    exact Nat.succ_lt_succ ((r.path_sorted v).2 d (List.mem_append_right _ hw))

-- By then every older instruction has its result, but for an access that reports an exception.
theorem Sends.older_written {r : Run} {u d : Nat} (h : r.Sends u d) (n : BitVec 4)
    (hm : n ∈ (r.st u).rob.window) (hlt : r.owner u n < d) :
    (r.st u).rob.state n = WRITEBACK_S ∨ (r.owner u n, false) ∈ (r.tags u).excp := by
  cases hs : (r.st u).rob.state n with
  | EMPTY_S => exact absurd hs (((r.wf u).live n).mpr hm)
  | WRITEBACK_S => exact .inl rfl
  | MAPPED_S =>
    right
    have hsucc := h.succ_lt
    have hin := ((r.tracked u).mapped (r.owner u n)).mpr ⟨n, hs, rfl⟩
    have notWaiting : r.owner u n ∉ r.waiting u := fun hw => by
      have := h.le_waiting _ hw
      omega
    have tag : ∀ {l : List (Nat × Bool)}, (r.owner u n, false) ∈ l → r.owner u n ∈ Fifo.tags l :=
      fun hl => List.mem_map_of_mem (f := Prod.fst) hl
    simp only [Tags.inflight, Multiset.mem_add, Fifo.mem_live] at hin
    rcases hin with ((((hde | halu) | hcsr) | hagu) | hexcp) | hmemq
    · exact absurd (List.mem_append_right _ (List.mem_append_right _ (tag hde))) notWaiting
    · have := r.alu_of_mem u _ _ halu
      omega
    · have := (r.csr2wb_of_mem u _ _ hcsr).1
      omega
    · exact absurd (List.mem_append_right _ (List.mem_append_left _ (tag hagu))) notWaiting
    · exact hexcp
    · -- The bus is free for the load, so what is outstanding waits behind it.
      have hq := tag hmemq
      rw [r.tags_memq, r.tags_biu_of_not_vld u (biu_not_vld_of_cmdFires _ h.1)] at hq
      exact absurd (List.mem_append_left _ hq) notWaiting

theorem excp_of_mem (u e : Nat) (h : (e, false) ∈ (r.tags u).excp) :
    (r.resultInfo e).excp ≠ 0#16 := by
  cases hv : (r.st u).lsu.excpQueue.vld with
  | false =>
    rw [Pipe.rel_of_not_vld (r.rel_excp u) hv] at h
    exact absurd h List.not_mem_nil
  | true =>
    obtain ⟨d, hd, hu, hx, -⟩ := Pipe.rel_of_vld (r.rel_excp u) hv
    rw [hd, List.mem_singleton, Prod.mk.injEq] at h
    rw [h.1, Ne, excp_resultInfo d hu, hx]
    exact Bool.noConfusion

-- Such an access has its result a cycle later, since no response comes now.
theorem Sends.written_of_excp {r : Run} {u d : Nat} (h : r.Sends u d) (e : Nat)
    (he : (e, false) ∈ (r.tags u).excp) (hf : (r.st u).flush = false) :
    (r.st (u + 1)).rob.state (r.ptrOf e) = WRITEBACK_S := by
  have hv : (r.st u).lsu.excpQueue.vld = true := by
    rw [← Bool.not_eq_false]
    intro hv
    rw [Pipe.rel_of_not_vld (r.rel_excp u) hv] at he
    exact List.not_mem_nil he
  have hr : (r.st u).lsuRspValid = false := by
    rw [← Bool.not_eq_true]
    intro hr
    exact Bool.noConfusion ((biu_vld_of_rspValid _ hr).symm.trans (biu_not_vld_of_cmdFires _ h.1))
  have hp : (r.st u).excpPop = true := by
    rw [Cpu.excpPop, Pipe.vldClr, hv, hr]
    rfl
  refine r.state_of_written u e hf ?_
  simp only [Tags.written, Multiset.mem_add]
  refine .inl (.inr ?_)
  rw [hp, if_pos rfl, Fifo.mem_live]
  exact he

theorem flush_of_excp (t : Nat) (hs : (r.st t).rob.state (r.st t).rob.head = WRITEBACK_S)
    (hx : (r.resultInfo (r.owner t (r.st t).rob.head)).excp ≠ 0#16) : (r.st t).flush = true := by
  have hc := r.commits_of_state t hs
  rw [← Bool.not_eq_false, not_flush_iff _ hc]
  rintro ⟨he, -⟩
  rw [← r.info_of_commits t hc] at hx
  exact hx he

-- At the head it flushes then.
theorem Sends.flush_of_excp_head {r : Run} {u d : Nat} (h : r.Sends u d) (n : BitVec 4)
    (hhead : (r.st u).rob.head = n) (hm : n ∈ (r.st u).rob.window)
    (hx : (r.owner u n, false) ∈ (r.tags u).excp) :
    (r.st (u + 1)).flush = true ∧ (r.st (u + 1)).rob.head = n ∧ n ∈ (r.st (u + 1)).rob.window ∧
      r.owner (u + 1) n = r.owner u n := by
  have hptr := ptrOf_owner (fun v _ => r.lawful v) n hm
  have hs : (r.st u).rob.state n = MAPPED_S := by
    have hin : r.owner u n ∈ (r.tags u).inflight := by
      simp only [Tags.inflight, Multiset.mem_add, Fifo.mem_live]
      exact .inl (.inr hx)
    have hmap := ((r.tracked u).owner_of_mem (fun v _ => r.lawful v) _ hin).1
    rwa [hptr] at hmap
  have hwait : r.HeadWaits u (r.owner u n) :=
    ⟨hptr.trans hhead.symm, by rw [hhead]; exact hs, by rw [hhead]⟩
  have hc := hwait.not_commits
  obtain ⟨hp1, hm1, ho1⟩ := r.head_until_commit u _ hwait (u + 1) (Nat.le_succ u) fun w h1 h2 =>
    (Nat.le_antisymm (Nat.le_of_lt_succ h2) h1) ▸ hc
  have hs1 := h.written_of_excp _ hx (flush_of_not_commits _ hc)
  have hh1 : (r.st (u + 1)).rob.head = n := hp1.trans hptr
  rw [← hp1] at hs1
  exact ⟨r.flush_of_excp _ hs1 (ho1 ▸ r.excp_of_mem u _ hx), hh1, hh1 ▸ hm1, hh1 ▸ ho1⟩

-- The first older entry that is not quiet flushes.
theorem Sends.flush_of_not_quiet {r : Run} {u d : Nat} (h : r.Sends u d) (l rest : List (BitVec 4))
    (n : BitVec 4) (hw : (r.st u).rob.window = l ++ n :: rest) (hlt : r.owner u n < d)
    (hl : (r.st u).QuietFront l) (hq : ¬ (r.st u).Quiet l n) :
    ∃ t, u ≤ t ∧ (r.st t).flush = true ∧ (r.st t).rob.head = n ∧ n ∈ (r.st t).rob.window ∧
      r.owner t n = r.owner u n := by
  have hm : n ∈ (r.st u).rob.window := by simp [hw]
  have hou := r.owner_lt u n hm
  -- It is at the head when the entries in front of it have committed.
  obtain ⟨hfl, ⟨new, hnew⟩, hown, hmask⟩ := r.drains u l (n :: rest) hw hl
  have ho := hown n List.mem_cons_self
  have hhead := r.head_of_window _ n _ hnew
  have hmt : n ∈ (r.st (u + l.length)).rob.window := by simp [hnew]
  rcases h.older_written n hm hlt with hs | hx
  · have hsame := r.sameEntry_of_le u (u + l.length) n hs hmt (ho ▸ hou) (Nat.le_add_right _ _)
    have hc := r.commits_of_state _ (hhead ▸ hsame.state.trans hs)
    refine ⟨u + l.length, Nat.le_add_right _ _, ?_, hhead, hmt, ho⟩
    rw [← Bool.not_eq_false, r.flush_iff_quiet _ hc, hhead, hsame.quiet_iff hmask]
    exact hq
  · cases l with
    | nil => exact ⟨u + 1, Nat.le_succ u, h.flush_of_excp_head n hhead hm hx⟩
    | cons m l =>
      have hle : u + 1 ≤ u + (m :: l).length := by
        rw [List.length_cons]
        omega
      have hs1 := h.written_of_excp _ hx (hfl u (Nat.le_refl u) hle)
      rw [ptrOf_owner (fun v _ => r.lawful v) n hm] at hs1
      have hsame := r.sameEntry_of_le (u + 1) _ n hs1 hmt (by omega) hle
      have hst := hsame.state.trans hs1
      refine ⟨_, Nat.le_add_right _ _, r.flush_of_excp _ (hhead ▸ hst) ?_, hhead, hmt, ho⟩
      rw [hhead, ho]
      exact r.excp_of_mem u _ hx

-- Every entry in front of instruction `d` is quiet in cycle `u`.
def QuietBefore (u d : Nat) : Prop :=
  ∀ older n younger, (r.st u).rob.window = older ++ n :: younger → r.owner u n < d →
    (r.st u).Quiet older n

-- The entries in front of one that is in front of the load are too.
theorem owner_lt_of_window (u : Nat) (l rest : List (BitVec 4)) (n : BitVec 4)
    (hw : (r.st u).rob.window = l ++ n :: rest) : ∀ m ∈ l, r.owner u m < r.owner u n := by
  have hp := r.owners_pairwise u
  rw [hw, List.map_append, List.map_cons] at hp
  intro m hm
  exact (List.pairwise_append.mp hp).2.2 _ (List.mem_map_of_mem hm) _ List.mem_cons_self

theorem quietFront_of_quietBefore (u d : Nat) (h : r.QuietBefore u d) (l rest : List (BitVec 4))
    (n : BitVec 4) (hw : (r.st u).rob.window = l ++ n :: rest) (hlt : r.owner u n < d) :
    (r.st u).QuietFront l := by
  rintro older m younger rfl
  refine h older m (younger ++ n :: rest) (by simp [hw]) ?_
  exact (r.owner_lt_of_window u _ rest n hw m (by simp)).trans hlt

-- A flush comes while the load is behind the head exactly when an older entry is not quiet.

theorem Sends.not_flushed {r : Run} {u d : Nat} (h : r.Sends u d) (hq : r.QuietBefore u d) (t : Nat)
    (hut : u ≤ t) (n : BitVec 4) (hn : n ∈ (r.st t).rob.window) (hne : n ≠ (r.st t).rob.head)
    (hd : r.owner t n = d) : (r.st t).flush = false := by
  subst hd
  by_contra hf
  rw [Bool.not_eq_false] at hf
  have hc : (r.st t).commits = true := (Bool.and_eq_true_iff.mp hf).1
  have hlt := r.owner_head_lt t n hn hne
  obtain ⟨hl, hlo⟩ := r.live_between u t _ (r.head_mem t hc) (hlt.trans h.lt) hut
  obtain ⟨l, rest, hw⟩ := List.append_of_mem hl
  have hlt' := hlo ▸ hlt
  have hfront := r.quietFront_of_quietBefore u _ hq l rest _ hw hlt'
  -- The head of cycle `t` is at the head `l.length` cycles after cycle `u`, and commits then.
  obtain ⟨hfl, ⟨new, hnew⟩, hown, hmask⟩ := r.drains u l _ hw hfront
  have hhead := r.head_of_window _ _ _ hnew
  have ho := hown _ List.mem_cons_self
  have hou := r.owner_lt u _ hl
  have hquiet := hq l _ rest hw hlt'
  have hsame := r.sameEntry_of_le u (u + l.length) _ hquiet.state (by simp [hnew]) (ho ▸ hou)
    (Nat.le_add_right _ _)
  have hc0 := r.commits_of_state _ (hhead ▸ hsame.state.trans hquiet.state)
  have hf0 : (r.st (u + l.length)).flush = false := by
    rw [r.flush_iff_quiet _ hc0, hhead, hsame.quiet_iff hmask]
    exact hquiet
  rcases Nat.lt_trichotomy t (u + l.length) with hlt0 | rfl | hgt
  · exact Bool.noConfusion ((hfl t hut hlt0).symm.trans hf)
  · exact Bool.noConfusion (hf0.symm.trans hf)
  · have := r.owner_lt_of_between _ t hc hc0 (by omega) hgt
    rw [hhead, ho] at this
    omega

theorem Sends.flushed {r : Run} {u d : Nat} (h : r.Sends u d) (hq : ¬ r.QuietBefore u d) :
    ∃ t, u ≤ t ∧ (r.st t).flush = true ∧
      ∃ n ∈ (r.st t).rob.window, n ≠ (r.st t).rob.head ∧ r.owner t n = d := by
  by_contra hno
  refine hq fun older => ?_
  -- The entries in front of a quiet one are shorter prefixes of the window.
  induction hk : older.length using Nat.strong_induction_on generalizing older with
  | _ k ih =>
    intro n younger hw hlt
    by_contra hnq
    have hfront : (r.st u).QuietFront older := by
      rintro a m b rfl
      refine ih a.length (by simp [← hk]) a rfl m (b ++ n :: younger) (by simp [hw]) ?_
      exact (r.owner_lt_of_window u _ younger n hw m (by simp)).trans hlt
    obtain ⟨t, hut, hf, hhead, hm, ho⟩ := h.flush_of_not_quiet older younger n hw hlt hfront hnq
    obtain ⟨m, hmw, hmo⟩ := r.live_behind d t n h.robWen hm (ho ▸ hlt) t
      (h.lt.trans_le hut) (Nat.le_refl t)
    refine hno ⟨t, hut, hf, m, hmw, ?_, hmo⟩
    rintro rfl
    rw [hhead] at hmo
    omega

-- While its command waits the load is in the reorder buffer, or a flush has taken it out.
theorem Sends.live_or_flushed {r : Run} {u d : Nat} (h : r.Sends u d) (t : Nat) (hdt : d < t)
    (htu : t ≤ u) : (∃ n ∈ (r.st t).rob.window, r.owner t n = d) ∨
      ∃ v < t, (r.st v).flush = true ∧
        ∃ n ∈ (r.st v).rob.window, n ≠ (r.st v).rob.head ∧ r.owner v n = d := by
  induction t, hdt using Nat.le_induction with
  | base =>
    have hf : (r.st d).robIn.flush = false := (r.legal d).issue_flush h.robWen
    exact .inl ⟨_, (Rob.mem_window_next (r.wf d) (r.legal d) hf _).mpr (.inr ⟨h.robWen, rfl⟩),
      r.owner_tail d h.robWen⟩
  | succ t hdt ih =>
    rcases ih (by omega) with ⟨n, hn, ho⟩ | ⟨v, hv, hrest⟩
    · -- It has not committed, since its command is still to come.
      have hnc : ¬ ((r.st t).commits = true ∧ n = (r.st t).rob.head) := by
        rintro ⟨hc, rfl⟩
        have hu := h.cmd.1
        have hx : ((r.st t).rob.info (r.st t).rob.head).excp = 0#16 := by
          rw [r.info_of_commits t hc, ho, excp_resultInfo d hu.1]
          exact hu.2
        obtain ⟨v, hv, hs⟩ := sends_of_commits t hc (ho ▸ hu.1) hx
        have := (ho ▸ hs).unique h
        omega
      cases hf : (r.st t).flush with
      | false =>
        exact .inl ⟨n, (Rob.mem_window_next (r.wf t) (r.legal t) hf n).mpr (.inl ⟨hn, hnc⟩),
          (r.owner_succ t n hn).trans ho⟩
      | true =>
        have hc : (r.st t).commits = true := (Bool.and_eq_true_iff.mp hf).1
        exact .inr ⟨t, Nat.lt_succ_self t, hf, n, hn, fun hh => hnc ⟨hc, hh⟩, ho⟩
    · exact .inr ⟨v, Nat.lt_succ_of_lt hv, hrest⟩

-- No flush comes while an instruction behind the one that commits has had a read accepted by the
-- PLIC, in the cycle of the flush or before.
def ReadsKept : Prop :=
  ∀ t, (r.st t).flush = true → ∀ n ∈ (r.st t).rob.window, n ≠ (r.st t).rob.head →
    ∀ u ≤ t, ¬ r.PlicReads u (r.owner t n)

-- Nor does the PLIC accept one after the flush, from the command buffer.
def FlushedReadNothing : Prop :=
  ∀ t, (r.st t).flush = true → ∀ n ∈ (r.st t).rob.window, n ≠ (r.st t).rob.head →
    ∀ u, ¬ r.PlicReads u (r.owner t n)

theorem plic_reads_kept_iff (r : Run) :
    (r.ReadsKept ↔ ∀ u d, r.PlicReads u d → r.QuietBefore u d) ∧
    (r.FlushedReadNothing ↔ ∀ u d, r.PlicReads u d →
      (∃ n ∈ (r.st u).rob.window, r.owner u n = d) ∧ r.QuietBefore u d) := by
  have kept : r.ReadsKept ↔ ∀ u d, r.PlicReads u d → r.QuietBefore u d := by
    constructor
    · intro h u d hd
      by_contra hq
      obtain ⟨t, hut, hf, n, hn, hne, rfl⟩ := hd.sends.flushed hq
      exact h t hf n hn hne u hut hd
    · intro h t hf n hn hne u hut hd
      exact Bool.noConfusion ((hd.sends.not_flushed (h u _ hd) t hut n hn hne rfl).symm.trans hf)
  refine ⟨kept, fun h u d hd => ⟨?_, ?_⟩, fun h t hf n hn hne u hd => ?_⟩
  · rcases hd.sends.live_or_flushed u hd.sends.lt (Nat.le_refl u) with hl | ⟨v, -, hf, n, hn, hne, rfl⟩
    · exact hl
    · exact absurd hd (h v hf n hn hne u)
  · exact kept.mp (fun t hf n hn hne u _ => h t hf n hn hne u) u d hd
  · obtain ⟨⟨m, hm, hmo⟩, -⟩ := h u _ hd
    rcases Nat.lt_or_ge t u with htu | hut
    · -- A flush takes everything out of the reorder buffer.
      have hlt := r.owner_lt t n hn
      exact Bool.noConfusion ((r.flush_between t u m hm (by omega) htu).symm.trans hf)
    · exact kept.mpr (fun u d hd => (h u d hd).2) t hf n hn hne u hut hd

-- `lui x5,0xF1200; lui x6,0x80000; lw x7,0(x6); ecall; lw x8,4(x5)`: the PLIC
-- accepts the claim in cycle 10, and the ecall commits in cycle 11.
def lostClaim : Run :=
  program false [0xF12002B7#32, 0x80000337#32, 0x00032383#32, 0x00000073#32, 0x0042A403#32]

theorem lostClaim_reads_lost : ¬ lostClaim.ReadsKept := by
  intro h
  refine h 11 (by decide +kernel) 4#4 (by decide +kernel) (by decide +kernel) 10 (by decide) ?_
  exact ⟨by decide +kernel, by decide +kernel⟩

end HiCore.Run
