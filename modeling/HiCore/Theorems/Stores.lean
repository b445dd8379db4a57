import HiCore.Theorems.WriteBack
import HiCore.Trace.MemPath
import HiCore.Trace.Program

-- Stores reach the bus at the head of the reorder buffer, once each.
namespace HiCore.Run

open SlotState

variable (r : Run)

-- The command of instruction `d` is accepted in cycle `u`.
def Sends (u d : Nat) : Prop := (r.st u).cmdFires = true ∧ (r.tags u).onBus (r.st u) = [d]

-- The response of instruction `d` arrives in cycle `w`.
def Pairs (w d : Nat) : Prop := (r.st w).memPop = true ∧ Fifo.tags (r.tags w).biu = [d]

-- The AGU accepts instruction `d` in cycle `a`, and it is not cancelled.
def AguTakes (a d : Nat) : Prop := (r.st a).aguPush = true ∧ (r.tags a).de2ex = [(d, false)]

-- The command of a store, from what decode read for it.
def storeCmd (d : Nat) : IcbCmd where
  read := false
  wmask := Agu.wmask (r.aguIn d)
  wdata := Agu.wdata (r.aguIn d)
  addr := Agu.addr (r.aguIn d)

variable {r}

theorem Sends.mem_waiting {u d : Nat} (h : r.Sends u d) : d ∈ r.waiting u := by
  have hm : d ∈ (r.tags u).onBus (r.st u) := by simp [h.2]
  rw [Tags.onBus, Fifo.tags_append] at hm
  rcases List.mem_append.mp (List.mem_of_mem_take hm) with hc | ha
  · exact List.mem_append_left _ hc
  · rw [Tags.arriving, tags_ite] at ha
    split at ha
    · exact List.mem_append_right _ (List.mem_append_left _ ha)
    · exact absurd ha List.not_mem_nil

theorem Sends.lt {u d : Nat} (h : r.Sends u d) : d < u :=
  (r.path_sorted u).2 d (List.mem_append_right _ h.mem_waiting)

-- What waits after a command is accepted is younger.
theorem Sends.lt_waiting {u d : Nat} (h : r.Sends u d) (t : Nat) (hut : u < t) :
    ∀ e ∈ r.waiting t, d < e := by
  induction t, hut using Nat.le_induction with
  | base =>
    have hs := r.waiting_succ u
    rw [h.1, if_pos rfl, h.2] at hs
    have hp : (r.waiting u ++ [u]).Pairwise (· < ·) := by
      obtain ⟨hp, hlt⟩ := r.path_sorted u
      refine List.pairwise_append.mpr ⟨(List.pairwise_append.mp hp).2.1, by simp, ?_⟩
      intro a ha b hb
      rw [List.mem_singleton.mp hb]
      exact hlt a (List.mem_append_right _ ha)
    exact (List.pairwise_cons.mp (hp.sublist hs)).1
  | succ t hut ih =>
    intro e he
    have hsub := (List.sublist_append_right _ _).trans (r.waiting_succ t)
    rcases List.mem_append.mp (hsub.subset he) with hm | hm
    · exact ih e hm
    · rw [List.mem_singleton.mp hm]
      exact Nat.lt_trans h.lt hut

theorem Sends.unique {u v d : Nat} (hu : r.Sends u d) (hv : r.Sends v d) : u = v := by
  rcases Nat.lt_trichotomy u v with h | h | h
  · exact absurd (hu.lt_waiting v h d hv.mem_waiting) (Nat.lt_irrefl d)
  · exact h
  · exact absurd (hv.lt_waiting u h d hu.mem_waiting) (Nat.lt_irrefl d)

-- An outstanding access was accepted before.
theorem sends_of_biu (t d : Nat) (h : d ∈ Fifo.tags (r.tags t).biu) : ∃ u < t, r.Sends u d := by
  induction t with
  | zero => simp [tags, Tags.reset] at h
  | succ t ih =>
    rw [tags_biu_succ] at h
    rcases List.mem_append.mp ((Fifo.shift_sublist _ _ _).subset h) with hm | hm
    · obtain ⟨u, hu, hs⟩ := ih hm
      exact ⟨u, Nat.lt_succ_of_lt hu, hs⟩
    · split at hm
      · next hf =>
        obtain ⟨e, he, -⟩ := r.onBus_of_cmdValid t (Bool.and_eq_true_iff.mp hf).1
        rw [he, List.mem_singleton] at hm
        exact ⟨t, Nat.lt_succ_self t, hf, hm ▸ he⟩
      · exact absurd hm List.not_mem_nil

-- The command that is accepted is the instruction's own.
theorem Sends.cmd {u d : Nat} (h : r.Sends u d) :
    r.IsAccess d ∧ (r.st u).lsuCmd = Lsu.iMemFifoWdat (r.aguOf d) := by
  obtain ⟨e, he, hc⟩ := r.onBus_of_cmdValid u (Bool.and_eq_true_iff.mp h.1).1
  rw [h.2, List.cons.injEq] at he
  rw [he.1]
  exact hc

theorem Sends.storeCmd {u d : Nat} (h : r.Sends u d) (hs : r.IsStore d) :
    (r.st u).lsuCmd = r.storeCmd d := by
  obtain ⟨⟨hu, -⟩, hc⟩ := h.cmd
  have hread := (r.isStore_iff d hu).mp hs
  rw [hc, Lsu.iMemFifoWdat, Run.storeCmd, ← r.agu_info d hu, hread]
  rfl

-- Since the AGU took it, a store has been waiting at the head.
theorem aguTakes_of_store (t d : Nat) (hs : r.IsStore d)
    (h : (d, false) ∈ (r.tags t).agu ∨ ∃ c, (d, c) ∈ (r.tags t).memq) :
    ∃ a < t, r.AguTakes a d ∧ ∀ v, a ≤ v → v ≤ t → r.HeadWaits v d := by
  induction t with
  | zero => simp [tags, Tags.reset] at h
  | succ t ih =>
    have hnow : r.HeadWaits (t + 1) d := by
      rcases h with h | ⟨c, h⟩
      · exact (r.storesAtHead (t + 1)).agu d hs h
      · exact ((r.storesAtHead (t + 1)).memq d c hs h).2
    have extend : (∃ a < t, r.AguTakes a d ∧ ∀ v, a ≤ v → v ≤ t → r.HeadWaits v d) →
        ∃ a < t + 1, r.AguTakes a d ∧ ∀ v, a ≤ v → v ≤ t + 1 → r.HeadWaits v d := by
      rintro ⟨a, ha, htake, hall⟩
      refine ⟨a, Nat.lt_succ_of_lt ha, htake, fun v hav hvt => ?_⟩
      rcases Nat.lt_or_eq_of_le hvt with hlt | rfl
      · exact hall v hav (Nat.le_of_lt_succ hlt)
      · exact hnow
    rcases h with h | ⟨c, h⟩
    · obtain ⟨-, ho | hn⟩ := Fifo.mem_next_unmarked _ _ _ _ _ h
      · exact extend (ih (.inl ho))
      · split at hn
        · next hp =>
          obtain ⟨hv, -⟩ := r.de2ex_of_aguPush t hp
          obtain ⟨e, he, -⟩ := r.de2ex_of_vld t hv
          have hm := hn
          rw [he, List.mem_singleton, Prod.mk.injEq] at hm
          refine ⟨t, Nat.lt_succ_self t, ⟨hp, by rw [he, ← hm.1, ← hm.2]⟩, fun v hav hvt => ?_⟩
          rcases Nat.lt_or_eq_of_le hvt with hlt | rfl
          · rw [Nat.le_antisymm (Nat.le_of_lt_succ hlt) hav]
            exact r.headWaits_of_aguPush t d hs hp hn
          · exact hnow
        · exact absurd hn List.not_mem_nil
    · obtain ⟨c', ho | hn, -⟩ := Fifo.mem_next _ _ _ _ _ _ h
      · exact extend (ih (.inr ⟨c', ho⟩))
      · split at hn
        · next hp =>
          obtain ⟨hv, -, hcan, -⟩ := (memPush_iff _).mp hp
          obtain ⟨e, he, -⟩ := r.agu_of_vld t hv
          refine extend (ih (.inl ?_))
          rw [he, List.mem_singleton, Prod.mk.injEq] at hn
          rw [he, hn.1, hcan]
          exact List.mem_singleton_self _
        · exact absurd hn List.not_mem_nil

theorem Sends.aguTakes {u d : Nat} (h : r.Sends u d) (hs : r.IsStore d) :
    ∃ a < u, r.AguTakes a d ∧ ∀ v, a ≤ v → v ≤ u → r.HeadWaits v d := by
  refine aguTakes_of_store u d hs ?_
  have hm : d ∈ (r.tags u).onBus (r.st u) := by simp [h.2]
  rw [Tags.onBus, Fifo.tags_append] at hm
  rcases List.mem_append.mp (List.mem_of_mem_take hm) with hc | ha
  · have hq : d ∈ Fifo.tags (r.tags u).memq := by
      rw [tags_memq]
      exact List.mem_append_right _ hc
    obtain ⟨⟨e, c⟩, hx, rfl⟩ := List.mem_map.mp hq
    exact .inr ⟨c, hx⟩
  · rw [Tags.arriving] at ha
    split at ha
    · next hp =>
      rw [cmdPush_eq] at hp
      obtain ⟨hv, -, hcan, -⟩ := (memPush_iff _).mp hp
      obtain ⟨e, he, -⟩ := r.agu_of_vld u hv
      rw [he, hcan] at ha ⊢
      obtain rfl : d = e := List.mem_singleton.mp ha
      exact .inl (List.mem_singleton_self _)
    · exact absurd ha List.not_mem_nil

-- The head stays where it is until something commits.
theorem head_until_commit (a d : Nat) (hw : r.HeadWaits a d) (v : Nat) (hav : a ≤ v)
    (hn : ∀ w, a ≤ w → w < v → (r.st w).commits = false) :
    (r.st v).rob.head = r.ptrOf d ∧ (r.st v).rob.head ∈ (r.st v).rob.window ∧
      r.owner v (r.st v).rob.head = d := by
  induction v, hav using Nat.le_induction with
  | base => exact ⟨hw.ptr.symm, hw.mem, hw.owner⟩
  | succ v hav ih =>
    obtain ⟨hp, hm, ho⟩ := ih fun w haw hwv => hn w haw (Nat.lt_succ_of_lt hwv)
    have hc := hn v hav (Nat.lt_succ_self v)
    have hh := r.head_succ_of_not_commits v hc
    rw [hh]
    refine ⟨hp, ?_, (r.owner_succ v _ hm).trans ho⟩
    refine (Rob.mem_window_next (r.wf v) (r.legal v) (flush_of_not_commits _ hc) _).mpr (.inl ⟨hm, ?_⟩)
    exact fun h => Bool.noConfusion (hc.symm.trans h.1)

theorem excp_resultInfo (d : Nat) (hu : r.unitOf d = .lsu) :
    (r.resultInfo d).excp = 0#16 ↔ Lsu.hasExcp (r.aguOf d) = false := by
  rw [r.resultInfo_of_lsu d hu, Lsu.hasExcp, Bool.not_eq_false', beq_iff_eq]

-- An access that commits without exception has had its response.
theorem pairs_of_commits (c : Nat) (hc : (r.st c).commits = true)
    (hs : r.unitOf (r.owner c (r.st c).rob.head) = .lsu)
    (he : ((r.st c).rob.info (r.st c).rob.head).excp = 0#16) :
    ∃ w < c, r.Pairs w (r.owner c (r.st c).rob.head) := by
  have hm := r.head_mem c hc
  obtain ⟨w, u, -, hwc, hwb, hi⟩ :=
    r.written_owner c _ hm (Rob.ren_state (i := (r.st c).robIn) hc)
  rw [hi, excp_resultInfo _ hs] at he
  have hwr := hwb.writer
  rw [← hwb.unit, hs, Tags.writer] at hwr
  split at hwr
  · next hr =>
    obtain ⟨b, hb, -⟩ := r.tags_biu_of_vld w (biu_vld_of_rspValid _ hr)
    have hq := congrArg Fifo.tags hwr
    rw [Fifo.tags, List.map_take, ← Fifo.tags, tags_memq, hb] at hq
    obtain rfl : b = r.owner c (r.st c).rob.head := by simpa [Fifo.tags] using hq
    exact ⟨w, hwc, r.memPop_of_rspValid w hr, hb⟩
  · -- The exception register only holds accesses that never reach the bus.
    have hv : (r.st w).lsu.excpQueue.vld = true := by
      by_contra hv
      rw [Pipe.rel_of_not_vld (r.rel_excp w) (Bool.not_eq_true _ ▸ hv)] at hwr
      exact absurd hwr (by simp)
    obtain ⟨e, hd, -, hx, -⟩ := Pipe.rel_of_vld (r.rel_excp w) hv
    rw [hd, List.cons.injEq, Prod.mk.injEq] at hwr
    rw [← hwr.1.1, hx] at he
    exact Bool.noConfusion he

theorem Pairs.sends {w d : Nat} (h : r.Pairs w d) : ∃ u < w, r.Sends u d :=
  sends_of_biu w d (by rw [h.2]; exact List.mem_singleton_self d)

theorem sends_of_commits (c : Nat) (hc : (r.st c).commits = true)
    (hs : r.unitOf (r.owner c (r.st c).rob.head) = .lsu)
    (he : ((r.st c).rob.info (r.st c).rob.head).excp = 0#16) :
    ∃ u < c, r.Sends u (r.owner c (r.st c).rob.head) := by
  obtain ⟨w, hw, hp⟩ := pairs_of_commits c hc hs he
  obtain ⟨u, hu, hsend⟩ := hp.sends
  exact ⟨u, Nat.lt_trans hu hw, hsend⟩

-- A store flushes only when an interrupt is taken as it commits.
theorem irq_of_flush (c : Nat) (hf : (r.st c).flush = true)
    (hs : r.unitOf (r.owner c (r.st c).rob.head) = .lsu)
    (he : ((r.st c).rob.info (r.st c).rob.head).excp = 0#16) :
    Commit.csrIrq (r.st c).commitIn ≠ 0#12 := by
  have hc : (r.st c).commits = true := (Bool.and_eq_true_iff.mp hf).1
  have hm := r.head_mem c hc
  have hu : Decode.unit (r.st (r.owner c (r.st c).rob.head)).if2de.intr = .lsu := hs
  have hn : Decode.nopSel (r.st (r.owner c (r.st c).rob.head)).if2de.intr = false := by
    rw [(Decode.sel_unit _).2.2.2.2, hu]
    rfl
  have hi : (r.st c).commitIn.issue = (r.st (r.owner c (r.st c).rob.head)).robIssue :=
    r.issue_owner c _ hm
  intro hq
  have hnf : (r.st c).flush = false := by
    rw [not_flush_iff _ hc, hi]
    exact ⟨he, hq, by simp [Cpu.robIssue, hn], by simp [Cpu.robIssue, hn]⟩
  exact Bool.noConfusion (hnf.symm.trans hf)

theorem stores_once_at_head (r : Run) :
    (∀ u, (r.st u).cmdFires = true → (r.st u).lsuCmd.read = false →
      ∃ d a, (r.tags u).onBus (r.st u) = [d] ∧ Decode.storeOp (r.st d).if2de.intr = true ∧
        a < u ∧ r.AguTakes a d ∧ (r.st a).rob.head = r.ptrOf d ∧
        ∀ v, a ≤ v → (∀ w, a ≤ w → w < v → (r.st w).commits = false) →
          (r.st v).rob.head = r.ptrOf d ∧ r.owner v (r.st v).rob.head = d ∧
          (∀ w, a ≤ w → w < v → (r.st w).flush = false) ∧
          ((r.st v).commits = true → ((r.st v).rob.info (r.st v).rob.head).excp = 0#16 ∧
            ((r.st v).flush = true → Commit.csrIrq (r.st v).commitIn ≠ 0#12))) ∧
    (∀ c d, (r.st c).commits = true → r.owner c (r.st c).rob.head = d →
      Decode.storeOp (r.st d).if2de.intr = true →
      ((r.st c).rob.info (r.st c).rob.head).excp = 0#16 →
      ∃ u < c, r.Sends u d ∧ (r.st u).lsuCmd = r.storeCmd d ∧ ∀ v, r.Sends v d → v = u) := by
  refine ⟨fun u hf hr => ?_, fun c d hc ho hs he => ?_⟩
  · obtain ⟨d, hd, ⟨hu, hx⟩, hcmd⟩ := r.onBus_of_cmdValid u (Bool.and_eq_true_iff.mp hf).1
    have hread : (r.aguOf d).read = false := by
      rw [hcmd] at hr
      exact hr
    have hs := (r.isStore_iff d hu).mpr hread
    obtain ⟨a, hau, htake, hall⟩ := Sends.aguTakes ⟨hf, hd⟩ hs
    have hw := hall a (Nat.le_refl a) hau.le
    refine ⟨d, a, hd, hs, hau, htake, hw.ptr.symm, fun v hav hn => ?_⟩
    obtain ⟨hp, -, ho⟩ := head_until_commit a d hw v hav hn
    refine ⟨hp, ho, fun w haw hwv => flush_of_not_commits _ (hn w haw hwv), fun hc => ?_⟩
    have he : ((r.st v).rob.info (r.st v).rob.head).excp = 0#16 := by
      rw [r.info_of_commits v hc, ho, excp_resultInfo d hu]
      exact hx
    exact ⟨he, fun hfl => irq_of_flush v hfl (by rw [ho]; exact hu) he⟩
  · obtain ⟨u, hu, hsend⟩ := sends_of_commits c hc
      (by rw [ho]; exact Decode.unit_of_storeOp _ hs) he
    rw [ho] at hsend
    exact ⟨u, hu, hsend, hsend.storeCmd hs, fun v hv => hv.unique hsend⟩

theorem store_storeLoad : (∃ a < 8, storeLoad.AguTakes a 6) ∧ ∃ u < 10, storeLoad.Sends u 6 ∧
    (storeLoad.st u).lsuCmd = storeLoad.storeCmd 6 ∧ ∀ v, storeLoad.Sends v 6 → v = u := by
  obtain ⟨hfirst, hsecond⟩ := stores_once_at_head storeLoad
  obtain ⟨d, a, hd, -, ha, htake, -⟩ := hfirst 8 (by decide +kernel) (by decide +kernel)
  have hsix : (storeLoad.tags 8).onBus (storeLoad.st 8) = [6] := by decide +kernel
  obtain rfl : d = 6 := List.singleton_inj.mp (hd.symm.trans hsix)
  exact ⟨⟨a, ha, htake⟩, hsecond 10 6 (by decide +kernel) (by decide +kernel) (by decide +kernel)
    (by decide +kernel)⟩

end HiCore.Run
