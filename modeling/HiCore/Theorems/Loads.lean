import HiCore.Theorems.Stores
import HiCore.Trace.Dtcm

-- A load from the DTCM sees the stores that commit before it, and no others.
namespace HiCore.Run

-- The stores that commit before cycle `t` without exception, in program order.
def committedStores (r : Run) : Nat → List Nat
  | 0 => []
  | t + 1 =>
    if (r.st t).commits && Decode.storeOp (r.st (r.owner t (r.st t).rob.head)).if2de.intr &&
        ((r.st t).rob.info (r.st t).rob.head).excp == 0#16
    then r.committedStores t ++ [r.owner t (r.st t).rob.head] else r.committedStores t

-- The stores whose commands are accepted before cycle `t`, in that order.
def sentStores (r : Run) : Nat → List Nat
  | 0 => []
  | t + 1 =>
    if (r.st t).cmdFires && !(r.st t).lsuCmd.read
    then r.sentStores t ++ (r.tags t).onBus (r.st t) else r.sentStores t

-- The DTCM after the writes of some stores, from what it holds at reset.
def dtcmAfter (r : Run) (ds : List Nat) : BitVec 12 → BitVec 32 :=
  ds.foldl (fun m d => applyCmd (r.storeCmd d) m) (r.st 0).dtcm.ram.memR

-- The store at the head has sent its command.
structure Uncommitted (r : Run) (t d : Nat) : Prop where
  store : r.IsStore d
  sent : ∃ u < t, r.Sends u d
  mem : (r.st t).rob.head ∈ (r.st t).rob.window
  owner : r.owner t (r.st t).rob.head = d

variable {r : Run}

theorem applyCmd_of_read (c : IcbCmd) (m : BitVec 12 → BitVec 32) (h : c.read = true) :
    applyCmd c m = m := by
  funext a
  simp [applyCmd, h]

theorem store_of_fires (t : Nat) (h : ((r.st t).cmdFires && !(r.st t).lsuCmd.read) = true) :
    ∃ d, r.Sends t d ∧ r.IsStore d := by
  obtain ⟨hf, hr⟩ := Bool.and_eq_true_iff.mp h
  obtain ⟨d, hd, ⟨hu, -⟩, hc⟩ := r.onBus_of_cmdValid t (Bool.and_eq_true_iff.mp hf).1
  refine ⟨d, ⟨hf, hd⟩, (r.isStore_iff d hu).mpr ?_⟩
  rw [hc] at hr
  exact (Bool.not_eq_true' _).mp hr

theorem Sends.fires_iff {t d : Nat} (h : r.Sends t d) :
    ((r.st t).cmdFires && !(r.st t).lsuCmd.read) = true ↔ r.IsStore d := by
  obtain ⟨⟨hu, -⟩, hc⟩ := h.cmd
  rw [h.1, Bool.true_and, Bool.not_eq_true', r.isStore_iff d hu, hc]
  rfl

-- The DTCM holds the writes that were sent.
theorem dtcm_eq (t : Nat) : (r.st t).dtcm.ram.memR = r.dtcmAfter (r.sentStores t) := by
  induction t with
  | zero => rfl
  | succ t ih =>
    rw [dtcm_mem_succ, sentStores, ih]
    cases hf : (r.st t).cmdFires with
    | false => rfl
    | true =>
      cases hr : (r.st t).lsuCmd.read with
      | true => exact applyCmd_of_read _ _ hr
      | false =>
        obtain ⟨d, hd, hs⟩ := store_of_fires (r := r) t (by rw [hf, hr]; rfl)
        rw [hd.2, hd.storeCmd hs, dtcmAfter, dtcmAfter, Bool.not_false, Bool.and_true, if_pos rfl,
          if_pos rfl, List.foldl_append]
        rfl

theorem Sends.headWaits {u d : Nat} (h : r.Sends u d) (hs : r.IsStore d) : r.HeadWaits u d := by
  obtain ⟨a, hau, -, hall⟩ := h.aguTakes hs
  exact hall u hau.le (Nat.le_refl u)

-- The step cases: a store is sent, or the head commits, or neither happens.

theorem uncommitted_of_sends (t e : Nat) (h : r.Sends t e) (hs : r.IsStore e) :
    (∀ d, ¬r.Uncommitted t d) ∧ ∀ d, r.Uncommitted (t + 1) d ↔ d = e := by
  have hw := h.headWaits hs
  obtain ⟨-, hm, ho⟩ := head_until_commit t e hw (t + 1) (Nat.le_succ t) fun w htw hwt => by
    rw [← Nat.le_antisymm htw (Nat.le_of_lt_succ hwt)]
    exact hw.not_commits
  refine ⟨fun d hd => ?_, fun d => ⟨fun hd => hd.owner.symm.trans ho, ?_⟩⟩
  · obtain ⟨u, hut, hsend⟩ := hd.sent
    rw [← hd.owner, hw.owner] at hsend
    exact absurd (hsend.unique h) (Nat.ne_of_lt hut)
  · rintro rfl
    exact ⟨hs, ⟨t, Nat.lt_succ_self t, h⟩, hm, ho⟩

theorem uncommitted_of_commits (t : Nat) (hc : (r.st t).commits = true) :
    (∀ d, ¬r.Uncommitted (t + 1) d) ∧ (∀ d, r.Uncommitted t d ↔
      d = r.owner t (r.st t).rob.head ∧ r.IsStore d ∧
        ((r.st t).rob.info (r.st t).rob.head).excp = 0#16) := by
  have hm := r.head_mem t hc
  refine ⟨fun d hd => ?_, fun d => ⟨fun hd => ?_, ?_⟩⟩
  · -- It was at the head when it was sent, and so not younger than the one that leaves.
    obtain ⟨u, hut, hsend⟩ := hd.sent
    have hw := hsend.headWaits hd.store
    obtain ⟨-, ⟨hm', hne⟩ | ⟨hwen, htail⟩⟩ := r.mem_window_succ t _ hd.mem
    · have ho := hd.owner
      rw [r.owner_succ t _ hm'] at ho
      have hlt := r.owner_head_lt t _ hm' fun h => hne ⟨hc, h⟩
      rw [ho] at hlt
      have hut' : u < t := by
        rcases Nat.lt_succ_iff_lt_or_eq.mp hut with h | rfl
        · exact h
        · exact absurd hc (Bool.not_eq_true _ ▸ hw.not_commits)
      obtain ⟨hmu, hou⟩ := r.live_between u t _ hm (Nat.lt_trans hlt hsend.lt) hut'.le
      by_cases hh : (r.st t).rob.head = (r.st u).rob.head
      · rw [hh, hw.owner] at hou
        rw [← hh] at hou
        omega
      · have := r.owner_head_lt u _ hmu hh
        rw [hw.owner, hou] at this
        omega
    · have ho := hd.owner
      rw [htail, r.owner_tail t hwen] at ho
      have := hsend.lt
      omega
  · obtain ⟨u, hut, hsend⟩ := hd.sent
    obtain ⟨⟨hu, hx⟩, -⟩ := hsend.cmd
    refine ⟨hd.owner.symm, hd.store, ?_⟩
    rw [r.info_of_commits t hc, hd.owner, excp_resultInfo d hu]
    exact hx
  · rintro ⟨rfl, hs, he⟩
    exact ⟨hs, sends_of_commits t hc (Decode.unit_of_storeOp _ hs) he, hm, rfl⟩

theorem uncommitted_of_neither (t : Nat) (hc : (r.st t).commits = false)
    (hn : ∀ d, r.Sends t d → ¬r.IsStore d) (d : Nat) :
    r.Uncommitted (t + 1) d ↔ r.Uncommitted t d := by
  have hh := r.head_succ_of_not_commits t hc
  constructor
  · rintro ⟨hs, ⟨u, hut, hsend⟩, hm, ho⟩
    have hut' : u < t := by
      rcases Nat.lt_succ_iff_lt_or_eq.mp hut with h | rfl
      · exact h
      · exact absurd hs (hn d hsend)
    rw [hh] at hm ho
    obtain ⟨-, ⟨hm', -⟩ | ⟨hwen, htail⟩⟩ := r.mem_window_succ t _ hm
    · exact ⟨hs, ⟨u, hut', hsend⟩, hm', (r.owner_succ t _ hm').symm.trans ho⟩
    · rw [htail, r.owner_tail t hwen] at ho
      have := hsend.lt
      omega
  · rintro ⟨hs, ⟨u, hut, hsend⟩, hm, ho⟩
    refine ⟨hs, ⟨u, Nat.lt_succ_of_lt hut, hsend⟩, ?_, ?_⟩
    · rw [hh]
      refine (Rob.mem_window_next (r.wf t) (r.legal t) (flush_of_not_commits _ hc) _).mpr
        (.inl ⟨hm, fun h => ?_⟩)
      exact Bool.noConfusion (hc.symm.trans h.1)
    · rw [hh]
      exact (r.owner_succ t _ hm).trans ho

-- The stores that were sent are those that committed and the one at the head.
theorem sentStores_eq (t : Nat) :
    (∀ d, r.Uncommitted t d → r.sentStores t = r.committedStores t ++ [d]) ∧
      ((∀ d, ¬r.Uncommitted t d) → r.sentStores t = r.committedStores t) := by
  induction t with
  | zero => exact ⟨fun d hd => absurd hd.sent (by simp), fun _ => rfl⟩
  | succ t ih =>
    obtain ⟨hsome, hnone⟩ := ih
    rw [sentStores, committedStores]
    by_cases hf : ((r.st t).cmdFires && !(r.st t).lsuCmd.read) = true
    · obtain ⟨e, he, hs⟩ := store_of_fires t hf
      obtain ⟨hold, hnew⟩ := uncommitted_of_sends t e he hs
      rw [if_pos hf, (he.headWaits hs).not_commits, hnone hold, he.2]
      exact ⟨fun d hd => by rw [(hnew d).mp hd]; rfl, fun h => absurd ((hnew e).mpr rfl) (h e)⟩
    · rw [if_neg hf]
      cases hc : (r.st t).commits with
      | true =>
        obtain ⟨hnew, hold⟩ := uncommitted_of_commits t hc
        refine ⟨fun d hd => absurd hd (hnew d), fun _ => ?_⟩
        split
        · next hx =>
          rw [Bool.true_and, Bool.and_eq_true, beq_iff_eq] at hx
          exact hsome _ ((hold _).mpr ⟨rfl, hx⟩)
        · next hx =>
          rw [Bool.true_and, Bool.and_eq_true, beq_iff_eq] at hx
          refine hnone fun d hd => hx ?_
          obtain ⟨rfl, hd⟩ := (hold d).mp hd
          exact hd
      | false =>
        have hiff := uncommitted_of_neither t hc fun d hd hs => hf (hd.fires_iff.mpr hs)
        exact ⟨fun d hd => hsome d ((hiff d).mp hd),
          fun h => hnone fun d hd => h d ((hiff d).mpr hd)⟩

-- No store is sent between a load's command and its commit.
theorem Sends.sentStores_eq {u d : Nat} (h : r.Sends u d) (hload : ¬r.IsStore d) (c : Nat)
    (n : BitVec 4) (hm : n ∈ (r.st c).rob.window) (ho : r.owner c n = d) (huc : u < c) :
    r.sentStores c = r.sentStores u := by
  have step : ∀ t, u ≤ t → t < c → r.sentStores (t + 1) = r.sentStores t := by
    intro t hut htc
    rw [sentStores, if_neg]
    intro hf
    rcases Nat.lt_or_eq_of_le hut with hlt | rfl
    · obtain ⟨e, he, hs⟩ := store_of_fires t hf
      have hde := h.lt_waiting t hlt e he.mem_waiting
      have hw := he.headWaits hs
      obtain ⟨hmt, hot⟩ := r.live_between t c n hm (by rw [ho]; exact Nat.lt_trans h.lt hlt) htc.le
      have hne : n ≠ (r.st t).rob.head := by
        rintro rfl
        rw [hw.owner, ho] at hot
        omega
      have := r.owner_head_lt t n hmt hne
      rw [hw.owner, hot, ho] at this
      omega
    · exact hload (h.fires_iff.mp hf)
  have run : ∀ t, u ≤ t → t ≤ c → r.sentStores t = r.sentStores u := by
    intro t hut
    induction t, hut using Nat.le_induction with
    | base => exact fun _ => rfl
    | succ t hut ih => exact fun htc => (step t hut htc).trans (ih (Nat.le_of_succ_le htc))
  exact run c huc.le (Nat.le_refl c)

-- After the response nothing older is on the path.
theorem Pairs.lt_path {w d : Nat} (h : r.Pairs w d) (t : Nat) (hwt : w < t) :
    ∀ e ∈ r.path t, d < e := by
  obtain ⟨u, huw, hsend⟩ := h.sends
  induction t, hwt using Nat.le_induction with
  | base =>
    intro e he
    have hv : (r.st w).biu.splitFifo.vld = true := by
      have hp := h.1
      rw [← rspFires_eq] at hp
      exact (Bool.and_eq_true_iff.mp hp).1
    rw [path, tags_biu_succ, h.1, h.2, not_cmdFires_of_biu_vld _ hv] at he
    exact hsend.lt_waiting (w + 1) (Nat.lt_succ_of_lt huw) e he
  | succ t hwt ih =>
    intro e he
    rcases List.mem_append.mp ((r.path_succ t).subset he) with hm | hm
    · exact ih e hm
    · rw [List.mem_singleton.mp hm]
      exact Nat.lt_trans hsend.lt (Nat.lt_trans huw hwt)

theorem Pairs.unique {v w d : Nat} (hv : r.Pairs v d) (hw : r.Pairs w d) : v = w := by
  have mem : ∀ t, r.Pairs t d → d ∈ r.path t := by
    intro t ht
    rw [path, ht.2]
    exact List.mem_append_left _ (List.mem_singleton_self d)
  rcases Nat.lt_trichotomy v w with h | h | h
  · exact absurd (hv.lt_path w h d (mem w hw)) (Nat.lt_irrefl d)
  · exact h
  · exact absurd (hw.lt_path v h d (mem v hv)) (Nat.lt_irrefl d)

-- The response word is the DTCM's at the load's address.
theorem Pairs.rdata {w d : Nat} (h : r.Pairs w d)
    (hreg : (Biu.spltIndic (r.aguOf d).addr).getLsbD 0 = true) (hread : (r.aguOf d).read = true) :
    (r.st w).lsuRspRdata = (r.st w).dtcm.ram.memR (Tcm.index (r.aguOf d).addr) := by
  have hv : (r.st w).biu.splitFifo.vld = true := by
    by_contra hv
    have hnil := r.tags_biu_of_not_vld w (Bool.not_eq_true _ ▸ hv)
    rw [h.2] at hnil
    exact absurd hnil (by simp)
  obtain ⟨e, he, hx⟩ := r.tags_biu_of_vld w hv
  rw [h.2, List.cons.injEq] at he
  obtain ⟨rfl, -⟩ := he
  rw [lsuRspRdata_dtcm _ hv (hx.trans (spltIndic_of_dtcm _ hreg)), r.dtcm_addr w d h.2 hreg hread]

theorem loads_see_older_stores (r : Run) (c d : Nat) (hc : (r.st c).commits = true)
    (ho : r.owner c (r.st c).rob.head = d) (hl : Decode.loadOp (r.st d).if2de.intr = true)
    (he : ((r.st c).rob.info (r.st c).rob.head).excp = 0#16)
    (hreg : (Agu.addr (r.aguIn d)).extractLsb' 16 16 = 0x8000#16) :
    ∃ w < c, r.Pairs w d ∧ (∀ v, r.Pairs v d → v = w) ∧
      (r.st w).lsuRspRdata = r.dtcmAfter (r.committedStores c)
        ((Agu.addr (r.aguIn d)).extractLsb' 2 12) := by
  subst ho
  have hu := Decode.unit_of_loadOp _ hl
  obtain ⟨w, hwc, hp⟩ := pairs_of_commits c hc hu he
  refine ⟨w, hwc, hp, fun v hv => hv.unique hp, ?_⟩
  have hread : (r.aguOf (r.owner c (r.st c).rob.head)).read = true := by
    rw [aguOf, r.agu_info _ hu]
    exact hl
  have haddr : (r.aguOf (r.owner c (r.st c).rob.head)).addr =
      Agu.addr (r.aguIn (r.owner c (r.st c).rob.head)) := by
    rw [aguOf, r.agu_info _ hu]
    rfl
  have hload : ¬r.IsStore (r.owner c (r.st c).rob.head) := by
    rw [r.isStore_iff _ hu, hread]
    exact Bool.noConfusion
  have hm := r.head_mem c hc
  obtain ⟨u, huw, hsend⟩ := hp.sends
  have hcw := hsend.sentStores_eq hload c _ hm rfl (Nat.lt_trans huw hwc)
  obtain ⟨hmw, how⟩ := r.live_between w c _ hm (Nat.lt_trans hsend.lt huw) hwc.le
  have hww := hsend.sentStores_eq hload w _ hmw how huw
  have hcommit := (sentStores_eq c).2 fun e h => hload (h.owner ▸ h.store)
  have hdtcm : (Biu.spltIndic (r.aguOf (r.owner c (r.st c).rob.head)).addr).getLsbD 0 = true := by
    rw [spltIndic_dtcm, haddr, hreg]
    rfl
  rw [hp.rdata hdtcm hread, dtcm_eq, hww, ← hcw, hcommit, haddr]
  rfl

-- The word that the load finds is the one that the store before it wrote.
theorem load_storeLoad : ∃ w < 12, storeLoad.Pairs w 7 ∧ (∀ v, storeLoad.Pairs v 7 → v = w) ∧
    (storeLoad.st w).lsuRspRdata = 5#32 := by
  have hload : (storeLoad.st 12).commits = true ∧
      storeLoad.owner 12 (storeLoad.st 12).rob.head = 7 ∧
      Decode.loadOp (storeLoad.st 7).if2de.intr = true ∧
      ((storeLoad.st 12).rob.info (storeLoad.st 12).rob.head).excp = 0#16 ∧
      (Agu.addr (storeLoad.aguIn 7)).extractLsb' 16 16 = 0x8000#16 := by decide +kernel
  obtain ⟨hc, ho, hl, he, hreg⟩ := hload
  obtain ⟨w, hw, hp, huniq, hdata⟩ := loads_see_older_stores storeLoad 12 7 hc ho hl he hreg
  exact ⟨w, hw, hp, huniq, hdata.trans (by decide +kernel)⟩

end HiCore.Run
