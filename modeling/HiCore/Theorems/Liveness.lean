import HiCore.Theorems.ProgramRun
import HiCore.Theorems.Progress

-- The core goes on: an empty reorder buffer is filled in a bounded number of cycles, unless a store
-- that a flush has left in the issue register keeps decode shut.
namespace HiCore.Run

open Progress
open SlotState

variable {r : Run} {t : Nat}

theorem not_empty_of_state {n : BitVec 4} (hs : (r.st t).rob.state n ≠ EMPTY_S) :
    (r.st t).rob.empty = false := by
  have hl := List.length_pos_of_mem (((r.wf t).live n).mp hs)
  rw [Rob.window, Ring.length_window] at hl
  rw [← Bool.not_eq_true, Rob.empty_iff, Rob.occupancy]
  exact Nat.ne_of_gt hl

-- With an empty reorder buffer nothing is in flight.

theorem inflight_of_empty (he : (r.st t).rob.empty = true) : (r.tags t).inflight = 0 := by
  refine Multiset.eq_zero_of_forall_notMem fun d hd => ?_
  obtain ⟨hs, -⟩ := (r.tracked t).owner_of_mem (fun u _ => r.lawful u) d hd
  rw [not_empty_of_state (by rw [hs]; decide)] at he
  exact Bool.noConfusion he

theorem agu_cancel_of_empty (he : (r.st t).rob.empty = true) (hv : (r.st t).agu2lsu.vld = true) :
    (r.st t).agu2lsu.cancel = true := by
  rw [← Bool.not_eq_false]
  intro hc
  obtain ⟨d, hd, -⟩ := r.agu_of_vld t hv
  have hi := r.mem_inflight_agu t d (by rw [hd, hc]; exact List.mem_cons_self)
  rw [inflight_of_empty he] at hi
  exact Multiset.notMem_zero d hi

theorem aguPipeReady_of_empty (he : (r.st t).rob.empty = true) : (r.st t).aguPipeReady = true := by
  rw [Cpu.aguPipeReady, Pipe.iRdy, if_neg Bool.false_ne_true]
  cases hv : (r.st t).agu2lsu.vld with
  | false => rfl
  | true =>
    have hc := agu_cancel_of_empty he hv
    simp [Pipe.vldClr, hv, Cpu.agu2lsuReady, Lsu.iAgu2lsuReady, hc]

theorem memPush_of_empty (he : (r.st t).rob.empty = true) : (r.st t).memPush = false := by
  rw [← Bool.not_eq_true, memPush_iff]
  rintro ⟨hv, -, hc, -⟩
  rw [agu_cancel_of_empty he hv] at hc
  exact Bool.noConfusion hc

-- Nor is anything in its way.

theorem deReady_of_empty (he : (r.st t).rob.empty = true) (hw : ¬ r.Wedged t) :
    (r.st t).deReady = true := by
  rw [Cpu.deReady, Pipe.iRdy, if_neg Bool.false_ne_true]
  cases hv : (r.st t).de2ex.vld with
  | false => rfl
  | true =>
    have hr : (r.st t).de2issueReady = true := by
      refine (r.de2issueReady_iff t hv).mpr fun _ => ⟨aguPipeReady_of_empty he, fun hs => ?_⟩
      by_contra hp
      exact hw ⟨he, hv, hs, hp⟩
    rw [Pipe.vldClr, hv, hr]
    rfl

theorem dep_of_empty (he : (r.st t).rob.empty = true) : (r.st t).dep = false := by
  have hst : ∀ n, (r.st t).rob.state n = EMPTY_S := by
    intro n
    by_contra hn
    rw [not_empty_of_state hn] at he
    exact Bool.noConfusion he
  have hfull : (r.st t).rob.full = false := by
    rw [← Bool.not_eq_true, Rob.full_iff, (Rob.empty_iff _).mp he]
    decide
  have hdep : (r.st t).depend = false := by
    simp [Cpu.depend, Rob.deDepend, Rob.anySlot, Rob.rsDepend, Rob.csrDepend, hst]
  simp [Cpu.dep, Decode.dep, hdep, hfull, he]

theorem ifBufPop_of_empty (he : (r.st t).rob.empty = true) (hw : ¬ r.Wedged t) :
    (r.st t).ifBufPop = (r.st t).if2deValid := by
  rw [Cpu.ifBufPop, Cpu.if2deReady, Cpu.deValid, deReady_of_empty he hw, dep_of_empty he]
  cases (r.st t).if2deValid <;> rfl

-- The accesses that a flush has left on the memory path.
def drain (r : Run) (t : Nat) : Nat :=
  2 * (r.tags t).memq.length - (r.st t).biu.splitFifo.vld.toNat

theorem memq_of_biu_vld (hv : (r.st t).biu.splitFifo.vld = true) : 0 < (r.tags t).memq.length := by
  obtain ⟨d, hd, -⟩ := r.tags_biu_of_vld t hv
  have hq := congrArg List.length (r.tags_memq t)
  rw [hd, List.length_append, Fifo.tags, List.length_map] at hq
  rw [hq]
  exact Nat.lt_of_lt_of_le Nat.one_pos (Nat.le_add_right _ _)

theorem drain_succ (he : (r.st t).rob.empty = true) (hf : r.Fetches t) :
    r.drain (t + 1) = r.drain t - 1 := by
  have hc := r.commits_of_empty t he
  have hs := memq_succ (flush_of_not_commits _ hc)
  rw [memPush_of_empty he, if_neg Bool.false_ne_true, Fifo.shift_nil] at hs
  have hv := r.biu_vld_succ t
  rw [r.cmdFires_eq t hf] at hv
  rw [drain, drain, hs, hv]
  cases hb : (r.st t).biu.splitFifo.vld with
  | true =>
    have hpos := memq_of_biu_vld hb
    rw [if_pos rfl, List.length_tail, Bool.not_true, Bool.and_false, Bool.toNat_true,
      Bool.toNat_false]
    omega
  | false =>
    by_cases hm : (r.tags t).memq = []
    · simp [hm]
    · rw [lsuCmdValid_of_memq hb hm]
      rfl

-- The reorder buffer stays empty until decode allocates.
theorem empty_succ (he : (r.st t).rob.empty = true) (hw : (r.st t).robWen = false) :
    (r.st (t + 1)).rob.empty = true := by
  have hc := r.commits_of_empty t he
  have hf : (r.st t).robIn.flush = false := flush_of_not_commits _ hc
  have hi : (r.st t).robIn.issueWen = false := hw
  have hr : (r.st t).rob.ren (r.st t).robIn.commitValid = false := hc
  have hn : (r.st (t + 1)).rob = (r.st t).rob.next (r.st t).robIn := rfl
  rw [Rob.empty] at he ⊢
  simpa [hn, Rob.next, hf, hi, hr] using he

theorem not_empty_succ (hw : (r.st t).robWen = true) : (r.st (t + 1)).rob.empty = false := by
  have hs : (r.st (t + 1)).rob.state (r.st t).rob.tail = MAPPED_S :=
    Rob.state_next_tail (r.legal t) hw
  exact not_empty_of_state (by rw [hs]; decide)

-- A word in front of decode is offered to it.
theorem if2deValid_of_front (hl : ∀ u < t, r.LegalFetch u) (hne : r.front t ≠ []) :
    (r.st t).if2deValid = true := by
  refine (Bypbuf.oVld_iff _ _).mpr ?_
  by_cases hb : (r.st t).ifetch.memBypbuf.items = []
  · right
    have hq : (r.st t).ifetch.memQueue.items ≠ [] := by
      intro hq
      have h1 := r.rel_ifBuf t
      have h2 := r.rel_ifq t
      rw [hb] at h1
      rw [hq] at h2
      rw [front, List.forall₂_nil_left_iff.mp h1, List.forall₂_nil_left_iff.mp h2] at hne
      exact hne rfl
    have hv : (r.st t).if2icacheRspValid = true := by
      have h := (r.fetchPort.rspValid_iff t).mpr
      rw [r.fetchPort_st] at h
      exact h hq
    have hready := (Bool.and_eq_true_iff.mp (r.fetches_of_legal t hl hv)).2
    rw [Ifetch.iIf2deReady] at hready
    rw [Ifetch.iIf2deValid, hv, r.oValid_of_rspValid t hv, hready]
    rfl
  · exact .inl hb

theorem not_redirects_of_not_valid (he : (r.st t).rob.empty = true)
    (hv : (r.st t).if2deValid = false) : (r.st t).redirects = false := by
  rw [Cpu.redirects, flush_of_not_commits _ (r.commits_of_empty t he), Cpu.branch, Branch.branch,
    Cpu.branchEn, Cpu.deValid, hv]
  rfl

-- With nothing in front of decode and nothing on the memory path the next word is fetched.

theorem items_of_front (hn : r.front t = []) : (r.st t).ifetch.memBypbuf.items = [] ∧
    (r.st t).ifetch.memQueue.items = [] := by
  obtain ⟨hb, hq⟩ := List.append_eq_nil_iff.mp hn
  have h1 := r.rel_ifBuf t
  have h2 := r.rel_ifq t
  rw [hb] at h1
  rw [hq] at h2
  exact ⟨List.forall₂_nil_right_iff.mp h1, List.forall₂_nil_right_iff.mp h2⟩

theorem not_if2deValid_of_front (hl : ∀ u < t, r.LegalFetch u) (hn : r.front t = []) :
    (r.st t).if2deValid = false := by
  rw [← Bool.not_eq_true]
  intro hv
  have hh := head?_front t (excpPipe_not_vld hl) hv
  rw [hn] at hh
  exact absurd hh (by simp)

theorem if2icacheCmdReady_of_idle (he : (r.st t).rob.empty = true) (hf : r.Fetches t)
    (hm : (r.tags t).memq = []) : (r.st t).if2icacheCmdReady = true := by
  have hv : (r.st t).biu.splitFifo.vld = false := by
    rw [← Bool.not_eq_true]
    intro hv
    have := memq_of_biu_vld hv
    rw [hm] at this
    exact Nat.not_lt_zero _ this
  have hcmd : (r.st t).lsuCmdValid = false := by
    rw [← Bool.not_eq_true]
    intro hc
    have hpush : (r.st t).cmdPush = false := (cmdPush_eq _).trans (memPush_of_empty he)
    have hq := r.tags_memq t
    rw [hm, r.tags_biu_of_not_vld t hv] at hq
    have hcn : (r.tags t).cmd = [] := List.map_eq_nil_iff.mp hq.symm
    have hrel := r.rel_cmd t
    rw [hcn] at hrel
    rcases (Bypbuf.oVld_iff _ _).mp hc with h | h
    · exact h (List.forall₂_nil_right_iff.mp hrel)
    · exact Bool.noConfusion (hpush.symm.trans h)
  have hd : r.memBus.held .itcm t = false := by
    rw [MemBus.Run.held, memBus_st]
    exact Bool.and_eq_false_imp.mpr fun h => Bool.noConfusion (hv.symm.trans h)
  have hport : (r.st t).slaveCmdValid.getLsbD 1 = false := by
    rw [slaveCmdValid_port, hcmd]
    rfl
  rw [Cpu.if2icacheCmdReady, Cpu.itcmPortCmdReady, Arbt.cmdReady, r.arbt_room t,
    r.itcmCmdReady_of_free t hf hd, Arbt.grtVec, Cpu.itcmPortCmdValid, hport]
  cases (r.st t).if2icacheCmdValid <;> rfl

theorem ifqPush_of_idle (hl : ∀ u < t + 1, r.LegalFetch u) (he : (r.st t).rob.empty = true)
    (hn : r.front t = []) (hm : (r.tags t).memq = []) : (r.st t).ifqPush = true := by
  have hl' : ∀ u < t, r.LegalFetch u := fun u hu => hl u (Nat.lt_succ_of_lt hu)
  obtain ⟨hbuf, hque⟩ := items_of_front hn
  have hr := not_redirects_of_not_valid he (not_if2deValid_of_front hl' hn)
  have hpc := hl t (Nat.lt_succ_self t) hr
  obtain ⟨hflush, hbranch⟩ := Bool.or_eq_false_iff.mp hr
  have hready : (r.st t).ifetch.memQueue.iReady = true := by
    rw [Queue.iReady_iff, hque]
    decide
  have hhalf : (r.st t).ifetch.memBypbuf.fifoHalfFull = false := by
    have hw := r.fetchPort.wf_buf t
    have hc := r.fetchPort.counted_buf t
    rw [r.fetchPort_st] at hw hc
    refine (Bypbuf.not_fifoHalfFull_iff (r.st t).ifetch.memBypbuf hw hc).mpr (.inl ?_)
    rw [hbuf]
    decide
  rw [Cpu.ifqPush_iff, if2icacheCmdReady_of_idle he (r.fetches_of_legal t hl') hm,
    Cpu.if2icacheCmdValid, Ifetch.cmdValid, hflush, hbranch, legal_of_pc _ hpc.1 hpc.2, hready,
    hhalf]
  rfl

-- The cycles until decode allocates an entry: two for each word that a redirect has left in front
-- of it, those that the memory path needs the ITCM for, and one for the fetch.
def Idle (r : Run) (t k : Nat) : Prop := (r.st t).rob.empty = true ∧
  k = 2 * (r.front t).countP Prod.snd + r.drain t + if r.front t = [] then 1 else 0

theorem Idle.step_of_front {k : Nat} (h : r.Idle t k) (hl : ∀ u < t, r.LegalFetch u)
    (hne : r.front t ≠ []) (hw : ¬ r.Wedged t) (hr : (r.st t).robWen = false) :
    ∃ j < k, r.Idle (t + 1) j := by
  obtain ⟨he, rfl⟩ := h
  have hx := excpPipe_not_vld hl
  have hv := if2deValid_of_front hl hne
  have hp := ifBufPop_of_empty he hw
  have hf := flush_of_not_commits _ (r.commits_of_empty t he)
  rw [hv] at hp
  -- The word in decode is cancelled, so that there is no redirect either.
  have hc : (r.st t).if2deCancel = true := by
    rw [← Bool.not_eq_false]
    intro hc
    rw [robWen_of_decodes _ hp hc hf] at hr
    exact Bool.noConfusion hr
  have hb : (r.st t).branch = false := by
    rw [← Bool.not_eq_true]
    intro hb
    rw [(robWen_of_branch _ hb hf).1] at hr
    exact Bool.noConfusion hr
  have hred : (r.st t).redirects = false := by rw [Cpu.redirects, hf, hb]; rfl
  have hs := congrArg (List.countP Prod.snd) (front_succ t hx hred)
  have hd := drain_succ he (r.fetches_of_legal t hl)
  have hpush : (if (r.st t).ifqPush then [(t, false)] else []).countP Prod.snd = 0 := by
    split <;> rfl
  rw [hp, hc, if_pos rfl, List.countP_append, List.countP_append, hpush] at hs
  refine ⟨_, ?_, empty_succ he hr, rfl⟩
  have h1 : [(r.fetchOf t, true)].countP Prod.snd = 1 := rfl
  rw [hd, if_neg hne]
  split <;> omega

theorem Idle.step_of_empty {k : Nat} (h : r.Idle t k) (hl : ∀ u < t + 1, r.LegalFetch u)
    (hn : r.front t = []) : (r.st t).robWen = false ∧ ∃ j < k, r.Idle (t + 1) j := by
  obtain ⟨he, rfl⟩ := h
  have hl' : ∀ u < t, r.LegalFetch u := fun u hu => hl u (Nat.lt_succ_of_lt hu)
  have hv := not_if2deValid_of_front hl' hn
  have hr : (r.st t).robWen = false := by
    rw [Cpu.robWen, Cpu.deValid, hv]
    rfl
  have hp : (r.st t).ifBufPop = false := by rw [Cpu.ifBufPop, hv]; rfl
  have hs := front_succ t (excpPipe_not_vld hl') (not_redirects_of_not_valid he hv)
  have hd := drain_succ he (r.fetches_of_legal t hl')
  rw [hp, if_neg Bool.false_ne_true, List.nil_append, hn, List.nil_append] at hs
  refine ⟨hr, _, ?_, empty_succ he hr, rfl⟩
  cases hq : (r.st t).ifqPush with
  | true =>
    rw [hq, if_pos rfl] at hs
    rw [hs, hn, hd, if_neg (List.cons_ne_nil _ _), if_pos rfl]
    change 2 * 0 + (r.drain t - 1) + 0 < 2 * 0 + r.drain t + 1
    omega
  | false =>
    have hm : (r.tags t).memq ≠ [] := by
      intro hm
      rw [ifqPush_of_idle hl he hn hm] at hq
      exact Bool.noConfusion hq
    have hpos : 0 < r.drain t := by
      have hlen := List.length_pos_iff.mpr hm
      have hle := Bool.toNat_le (r.st t).biu.splitFifo.vld
      rw [drain]
      omega
    rw [hq, if_neg Bool.false_ne_true] at hs
    rw [hs, hn, hd, if_pos rfl]
    omega

theorem Idle.step {k : Nat} (h : r.Idle t k) (hl : ∀ u < t + 1, r.LegalFetch u) :
    ((r.st t).robWen = true ∨ r.Wedged t) ∨ ∃ j < k, r.Idle (t + 1) j := by
  by_cases hn : r.front t = []
  · exact .inr (h.step_of_empty hl hn).2
  by_cases hw : r.Wedged t
  · exact .inl (.inr hw)
  cases hr : (r.st t).robWen with
  | true => exact .inl (.inl rfl)
  | false => exact .inr (h.step_of_front (fun u hu => hl u (Nat.lt_succ_of_lt hu)) hn hw hr)

theorem idle_le (he : (r.st t).rob.empty = true) (hl : ∀ u < t, r.LegalFetch u) :
    ∃ k ≤ 18, r.Idle t k := by
  refine ⟨_, ?_, he, rfl⟩
  have hm := r.length_memq_le t
  have hf := r.length_front_le t hl
  have hc := List.countP_le_length (p := Prod.snd) (l := r.front t)
  rw [drain]
  split
  · next hn =>
    rw [hn, List.countP_nil]
    omega
  · omega

theorem robWen_or_wedged (hl : ∀ u ≤ t + 18, r.LegalFetch u) (he : (r.st t).rob.empty = true) :
    Within (fun u => (r.st u).robWen = true ∨ r.Wedged u) 18 t := by
  obtain ⟨k, hk, hi⟩ := idle_le he fun u hu => hl u (by omega)
  refine Within.mono (within_of_rank r.Idle (fun u j _ hun h => ?_) hi) hk
  exact h.step fun v hv => hl v (by omega)

theorem commits_or_wedged (hl : ∀ u ≤ t + 31, r.LegalFetch u) :
    r.Commits 31 t ∨ Within r.Wedged 18 t := by
  have hf : ∀ u ≤ t + 31, r.Fetches u := fun u hu =>
    r.fetches_of_legal u fun v hv => hl v (by omega)
  cases he : (r.st t).rob.empty with
  | false => exact .inl ((commits_of_not_empty hf (by omega) he).mono (by decide))
  | true =>
    obtain ⟨u, hu, hun, hw | hw⟩ := robWen_or_wedged (fun v hv => hl v (by omega)) he
    · obtain ⟨v, hv, hvn, hc⟩ := commits_of_not_empty hf (by omega) (not_empty_succ hw)
      exact .inl ⟨v, by omega, by omega, hc⟩
    · exact .inr ⟨u, hu, hun, hw⟩

-- The only way to stop.
theorem core_goes_on (r : Run) (t : Nat) (hl : ∀ u ≤ t + 31, r.LegalFetch u) :
    (∃ u, t ≤ u ∧ u ≤ t + 31 ∧ (r.st u).commits = true) ∨
      ((∃ u, t ≤ u ∧ u ≤ t + 18 ∧ r.Wedged u) ∧ ∀ u ≥ t, (r.st u).commits = false) := by
  rcases commits_or_wedged hl with hc | hw
  · exact .inl hc
  by_cases hc : r.Commits 31 t
  · exact .inl hc
  refine .inr ⟨hw, fun v hv => ?_⟩
  obtain ⟨u, hu, hun, hw⟩ := hw
  rcases Nat.lt_or_ge v u with h | h
  · rw [← Bool.not_eq_true]
    exact fun hcv => hc ⟨v, hv, by omega, hcv⟩
  · exact hw.forever v h

-- A flush that is not safe stops the core, and nothing else does.

theorem wedged_of_not_flushSafe {u : Nat} (h : ¬ (r.st u).FlushSafe) :
    (r.st u).flush = true ∧ r.Wedged (u + 1) := by
  rw [Cpu.FlushSafe] at h
  push Not at h
  obtain ⟨hf, info, hheld, hs, hp⟩ := h
  obtain ⟨hvi, hinfo⟩ := r.de2ex_succ u
  obtain ⟨-, hhead, hempty⟩ := r.tail_succ_of_flush u hf
  refine ⟨hf, hempty, hvi.mpr ⟨info, hheld⟩, ?_, ?_⟩
  · rw [hinfo info hheld]
    exact hs
  · rw [hinfo info hheld, hhead]
    exact hp

-- A cancelled store waits for the tail, unless a flush has left it behind.
theorem robPtr_or_flush (hv : (r.st t).de2ex.vld = true) (hc : (r.st t).de2ex.cancel = true)
    (hs : Cpu.isStore (r.st t).deInfo = true) :
    Issue.robPtr (r.st t).deInfo = (r.st t).rob.tail ∨ ∃ u < t, ¬ (r.st u).FlushSafe := by
  induction t with
  | zero => exact Bool.noConfusion hv
  | succ t ih =>
    obtain ⟨hvi, hinfo⟩ := r.de2ex_succ t
    obtain ⟨info, hheld⟩ := hvi.mp hv
    rw [hinfo info hheld] at hs ⊢
    by_cases hsafe : (r.st t).FlushSafe
    swap
    · exact .inr ⟨t, Nat.lt_succ_self t, hsafe⟩
    cases hf : (r.st t).flush with
    | true =>
      rw [(r.tail_succ_of_flush t hf).1]
      exact .inl (hsafe hf info hheld hs)
    | false =>
      rw [r.cancel_succ, hf, Bool.false_or] at hc
      rw [Cpu.held] at hheld
      cases hd : (r.st t).decodes with
      | true =>
        rw [hd, if_pos rfl] at hc hheld
        have hw : (r.st t).robWen = false := by simp [Cpu.robWen, hc]
        rw [r.tail_succ_of_not_robWen t hf hw, ← Option.some.inj hheld]
        exact .inl (Decode.robPtr_bus _ _)
      | false =>
        rw [hd, if_neg Bool.false_ne_true] at hc hheld
        have hw : (r.st t).robWen = false := by
          rw [decodes_eq] at hd
          simp [Cpu.robWen, hd]
        rw [r.tail_succ_of_not_robWen t hf hw]
        split at hheld
        · next hv' =>
          obtain rfl := Option.some.inj hheld
          rcases ih (Bool.and_eq_true_iff.mp hv').1 hc hs with hp | ⟨u, hu, hn⟩
          · exact .inl hp
          · exact .inr ⟨u, Nat.lt_succ_of_lt hu, hn⟩
        · exact absurd hheld (by simp)

theorem Wedged.cause (h : r.Wedged t) : ∃ u < t, ¬ (r.st u).FlushSafe := by
  rcases robPtr_or_flush h.vld (r.cancel_of_empty t h.empty h.vld) h.store with hp | hu
  · have he : (r.st t).rob.headPtr = (r.st t).rob.tailPtr := beq_iff_eq.mp h.empty
    refine absurd ?_ h.ptr
    rw [hp, Rob.tail, Rob.head, he]
  · exact hu

theorem core_stops_iff (r : Run) (t : Nat) (hl : ∀ u ≤ t + 31, r.LegalFetch u) :
    (∀ u ≥ t, (r.st u).commits = false) ↔ ∃ u < t, ¬ (r.st u).FlushSafe := by
  constructor
  · intro h
    rcases commits_or_wedged hl with ⟨u, hu, -, hc⟩ | ⟨v, hv, -, hw⟩
    · exact Bool.noConfusion ((h u hu).symm.trans hc)
    · obtain ⟨u, hu, hn⟩ := hw.cause
      refine ⟨u, ?_, hn⟩
      -- The flush itself comes with a commit.
      by_contra hge
      have hf := (wedged_of_not_flushSafe hn).1
      rw [flush_of_not_commits _ (h u (by omega))] at hf
      exact Bool.noConfusion hf
  · rintro ⟨u, hut, hn⟩ v hv
    exact (wedged_of_not_flushSafe hn).2.forever v (by omega)

-- `ecall; addi x0,x0,0; sw x0,0(x0)`: the store is decoded in the cycle in which the ecall commits.
def strandedStore : Run := program false [0x00000073#32, 0x00000013#32, 0x00002023#32]

theorem core_stops_strandedStore : ¬ (strandedStore.st 3).FlushSafe ∧
    ∀ u ≥ 4, (strandedStore.st u).commits = false := by
  have hl : ∀ u < 36, strandedStore.LegalFetch u := by
    unfold LegalFetch
    decide +kernel
  have h : (strandedStore.st 3).flush = true ∧ (strandedStore.st 3).decodes = true ∧
      Cpu.isStore (strandedStore.st 3).iDe2issueInfo = true ∧
      Issue.robPtr (strandedStore.st 3).iDe2issueInfo ≠ (strandedStore.st 3).nextHead := by
    decide +kernel
  obtain ⟨hf, hd, hs, hp⟩ := h
  have hn : ¬ (strandedStore.st 3).FlushSafe := fun hn => hp (hn hf _ (if_pos hd) hs)
  exact ⟨hn, (core_stops_iff strandedStore 4 fun u hu => hl u (by omega)).mpr ⟨3, by decide, hn⟩⟩

-- The first cycles of `storeLoad`. Its store never waits behind an empty reorder buffer.
theorem storeLoad_regular : ∀ u < 160, storeLoad.LegalFetch u ∧
    (Cpu.isStore (storeLoad.st u).deInfo = true → (storeLoad.st u).rob.empty = false) := by
  unfold LegalFetch
  decide +kernel

theorem core_goes_on_storeLoad : ∃ u ≤ 31, (storeLoad.st u).commits = true := by
  rcases core_goes_on storeLoad 0 fun u hu => (storeLoad_regular u (by omega)).1 with
    ⟨u, -, hu, hc⟩ | ⟨-, hn⟩
  · exact ⟨u, by omega, hc⟩
  · have hc : (storeLoad.st 12).commits = true := by decide +kernel
    exact Bool.noConfusion ((hn 12 (Nat.zero_le 12)).symm.trans hc)

-- The instructions of a program commit one after the other, and what they leave behind is what the
-- machine computes.

theorem length_events (r : Run) (t : Nat) :
    (r.events t).length = History.times (fun u => (r.st u).commits) t := by
  induction t with
  | zero => rfl
  | succ t ih =>
    rw [events, History.times_succ, ← ih]
    cases (r.st t).commits <;> simp

theorem program_completes (r : Run) (p : BitVec 12 → Option Isa.Instr) (n : Nat) (hp : r.Loads p)
    (hl : ∀ u < 32 * n + 32, r.LegalFetch u) (hw : ∀ u < 32 * n + 32, ¬ r.Wedged u) :
    ∃ t ≤ 32 * n, (r.events t).length = n ∧ ∀ m, Isa.Machine.run p
      (Isa.Machine.reset (Bytes.ofWords (r.st 0).dtcm.ram.memR)) (r.events t) = some m →
        r.arch t = m := by
  have hcommits : ∀ u, u < 0 + n * (31 + 1) →
      Within (fun v => (fun w => (r.st w).commits) v = true) 31 u := by
    intro u hu
    rcases commits_or_wedged (t := u) fun v hv => hl v (by omega) with hc | ⟨v, -, hv, hwv⟩
    · exact hc
    · exact absurd hwv (hw v (by omega))
  have hle := le_times hcommits
  obtain ⟨t, ht, hk⟩ := exists_times_eq (Nat.le_of_add_left_le hle)
  refine ⟨t, by omega, (r.length_events t).trans hk, fun m hm => ?_⟩
  exact (run_covers hp (fun u hu => hl u (by omega)) (r.arch_zero ▸ hm)).1

-- The fourth instruction is the load of the word just stored.
theorem program_completes_storeLoad : ∃ t ≤ 128, (storeLoad.events t).length = 4 ∧
    (storeLoad.arch t).pc = 16#32 ∧ (storeLoad.arch t).x 3#5 = 5#32 ∧
      (storeLoad.arch t).mem 0#14 = 5#8 := by
  obtain ⟨t, ht, hlen, hrun⟩ := program_completes storeLoad _ 4 storeLoad_loads
    (fun u hu => (storeLoad_regular u hu).1) fun u hu hw =>
      Bool.noConfusion (((storeLoad_regular u hu).2 hw.store).symm.trans hw.empty)
  -- It commits in cycle 12, and the next one in cycle 13.
  have hcount : History.times (fun u => (storeLoad.st u).commits) 12 = 3 ∧
      History.times (fun u => (storeLoad.st u).commits) 14 = 5 := by decide +kernel
  have htimes := (storeLoad.length_events t).symm.trans hlen
  obtain rfl : t = 13 := by
    rcases Nat.lt_trichotomy t 13 with h | h | h
    · have := History.times_mono (fun u => (storeLoad.st u).commits) (show t ≤ 12 by omega)
      omega
    · exact h
    · have := History.times_mono (fun u => (storeLoad.st u).commits) (show 14 ≤ t from h)
      omega
  have hm : (Isa.Machine.run (fun a => storeLoadCode[a.toNat]?)
      (Isa.Machine.reset (Bytes.ofWords (storeLoad.st 0).dtcm.ram.memR)) (storeLoad.events 13)).map
        (fun m => (m.pc, m.x 3#5, m.mem 0#14)) = some (16#32, 5#32, 5#8) := by decide +kernel
  obtain ⟨m, hm, hv⟩ := Option.map_eq_some_iff.mp hm
  refine ⟨13, ht, hlen, ?_⟩
  rw [hrun m hm]
  simpa using hv

end HiCore.Run
