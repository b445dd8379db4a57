import HiCore.Theorems.FetchOrder

-- The first entry that the decoder gets after a redirect. It is that of the target,
-- unless the target is a fetch exception that a word overtakes.
namespace HiCore.FetchPort.Run

variable (r : Run)

-- A fetch is accepted while a fetch exception, and nothing else, is on its way to
-- the decoder and stays in its pipe.
def Passes (t : Nat) : Prop :=
  (r.st t).ifqPush (r.ins t) = true ∧ r.lane t = [] ∧ r.faults t ≠ [] ∧ (r.st t).excpPop = false

-- The target is next to be fetched; its exception waits; `x` is first in the lane.

structure Idle (rp : BitVec 32) (t : Nat) : Prop where
  lane : r.lane t = []
  faults : r.faults t = []
  pc : (r.st t).ifetch.pc = rp

structure Faulting (rp : BitVec 32) (t : Nat) : Prop where
  lane : r.lane t = []
  faults : r.faults t = [rp]
  pc : (r.st t).ifetch.pc = rp + 4#32

def Leads (x : BitVec 32) (t : Nat) : Prop := ∃ rest, r.lane t = x :: rest

section Step

variable {r} {t : Nat} {rp x : BitVec 32}

theorem idle_of_starts (h : r.Starts t rp) : r.Idle rp t := by
  obtain ⟨hw, hpc⟩ := r.start t rp h
  obtain ⟨hl, hf⟩ := List.append_eq_nil_iff.mp hw
  exact ⟨hl, hf, hpc⟩

theorem Leads.succ (h : r.Leads x t) (hr : redirects (r.ins t) = false) (hd : r.delivers t = []) :
    r.Leads x (t + 1) := by
  obtain ⟨rest, hl⟩ := h
  have hs := r.lane_succ t hr
  rw [hd, List.nil_append, hl, List.cons_append] at hs
  exact ⟨_, hs⟩

theorem Idle.succ (h : r.Idle rp t) (hr : redirects (r.ins t) = false) :
    r.Idle rp (t + 1) ∨ r.Faulting rp (t + 1) ∨ r.Leads rp (t + 1) := by
  have hd : r.delivers t = [] := by
    have hp := r.delivers_prefix t
    rw [waiting_eq, h.lane, h.faults] at hp
    exact List.prefix_nil.mp hp
  have hnone : (if (r.st t).excpPop then r.faults t else []) = [] := by
    rw [h.faults]
    cases (r.st t).excpPop <;> rfl
  have hl : r.lane (t + 1) = r.fetched t := by
    have hs := r.lane_succ t hr
    rwa [hd, h.lane, hnone, List.nil_append, List.nil_append, List.nil_append] at hs
  have hf : r.faults (t + 1) = r.faulted t := by
    have hs : (if (r.st t).excpPop then r.faults t else []) ++ r.faults (t + 1) =
      r.faults t ++ r.faulted t := r.excp_succ t hr
    rwa [hnone, h.faults, List.nil_append, List.nil_append] at hs
  obtain ⟨hpc, -⟩ := r.pc_succ t hr
  rw [fetched] at hl
  rw [faulted] at hf
  rw [fetched, faulted, h.pc] at hpc
  cases hq : (r.st t).ifqPush (r.ins t) with
  | true =>
    rw [hq, if_pos rfl, h.pc] at hl
    exact .inr (.inr ⟨[], hl⟩)
  | false =>
    rw [hq] at hl hpc
    cases hx : (r.st t).excpPush (r.ins t) with
    | true =>
      rw [hx] at hf hpc
      rw [if_pos rfl, h.pc] at hf
      exact .inr (.inl ⟨hl, hf, hpc⟩)
    | false =>
      rw [hx] at hf hpc
      exact .inl ⟨hl, hf, hpc.trans (BitVec.add_zero _)⟩

-- The exception stays alone in its pipe, or enters the lane; or a fetch is before it.
theorem Faulting.succ (h : r.Faulting rp t) (hr : redirects (r.ins t) = false)
    (hd : r.delivers t = []) : (r.Passes t ∧ r.Leads (rp + 4#32) (t + 1)) ∨
      (¬ r.Passes t ∧ (r.Faulting rp (t + 1) ∨ r.Leads rp (t + 1))) := by
  have hl := r.lane_succ t hr
  rw [hd, List.nil_append, h.lane, List.nil_append] at hl
  have hne : r.faults t ≠ [] := by
    rw [h.faults]
    exact List.cons_ne_nil _ _
  have hv := ((r.excp_ne_nil_iff t).mp hne).1
  cases hx : (r.st t).excpPop with
  | true =>
    rw [hx, if_pos rfl, h.faults] at hl
    refine .inr ⟨fun hp => ?_, .inr ⟨_, hl⟩⟩
    exact Bool.noConfusion (hx.symm.trans hp.2.2.2)
  | false =>
    rw [hx, if_neg Bool.false_ne_true, List.nil_append] at hl
    have hn : (r.st t).excpPush (r.ins t) = false := by
      have hi : (r.st t).ifetch.excpPipe.iRdy false
          ((r.st t).ifetch.oExcpQueueReady (r.st t).rspValid) = false := by
        rw [excpPop] at hx
        rw [Pipe.iRdy, hv, hx]
        rfl
      rw [excpPush, Pipe.vldSet]
      exact Bool.and_eq_false_iff.mpr (.inr hi)
    have hf : r.faults (t + 1) = [rp] := by
      have hs : (if (r.st t).excpPop then r.faults t else []) ++ r.faults (t + 1) =
        r.faults t ++ r.faulted t := r.excp_succ t hr
      rw [hx, if_neg Bool.false_ne_true, faulted, hn, h.faults] at hs
      exact hs
    obtain ⟨hpc, -⟩ := r.pc_succ t hr
    rw [fetched, faulted, hn, h.pc] at hpc
    rw [fetched, h.pc] at hl
    cases hq : (r.st t).ifqPush (r.ins t) with
    | true =>
      rw [hq] at hl
      exact .inl ⟨⟨hq, h.lane, hne, hx⟩, _, hl⟩
    | false =>
      rw [hq] at hl hpc
      refine .inr ⟨fun hp => ?_, .inl ⟨hl, hf, hpc.trans (BitVec.add_zero _)⟩⟩
      exact Bool.noConfusion (hq.symm.trans hp.1)

theorem Leads.not_passes (h : r.Leads x t) : ¬ r.Passes t := by
  obtain ⟨rest, hl⟩ := h
  rintro ⟨-, hn, -⟩
  rw [hl] at hn
  exact List.cons_ne_nil _ _ hn

theorem Idle.not_passes (h : r.Idle rp t) : ¬ r.Passes t := fun hp => hp.2.2.1 h.faults

-- What the decoder gets while `x` is first in the lane.
theorem Leads.delivers_eq (h : r.Leads x t) {p : BitVec 32} (hd : r.delivers t = [p]) : p = x := by
  obtain ⟨rest, hl⟩ := h
  have hp := r.delivers_prefix t
  rw [hd, waiting_eq, hl, List.cons_append, List.cons_prefix_cons] at hp
  exact hp.1

end Step

-- Nothing has been delivered since the redirect.
theorem first_waiting (a n : Nat) (rp : BitVec 32) (hs : r.Starts a rp)
    (hr : ∀ t, a ≤ t → t < a + n → redirects (r.ins t) = false)
    (hd : ∀ t, a ≤ t → t < a + n → r.delivers t = []) :
    ((∀ t, a ≤ t → t < a + n → ¬ r.Passes t) ∧
      (r.Idle rp (a + n) ∨ r.Faulting rp (a + n) ∨ r.Leads rp (a + n))) ∨
    ((∃ t, (a ≤ t ∧ t < a + n) ∧ r.Passes t) ∧ r.Leads (rp + 4#32) (a + n)) := by
  induction n with
  | zero => exact .inl ⟨fun t h1 h2 => by omega, .inl (idle_of_starts hs)⟩
  | succ n ih =>
    have hr' := hr (a + n) (by omega) (by omega)
    have hd' := hd (a + n) (by omega) (by omega)
    have hext : (∀ t, a ≤ t → t < a + n → ¬ r.Passes t) → ¬ r.Passes (a + n) →
        ∀ t, a ≤ t → t < a + (n + 1) → ¬ r.Passes t := by
      intro hp hn t h1 h2
      rcases Nat.lt_or_ge t (a + n) with h | h
      · exact hp t h1 h
      · obtain rfl : t = a + n := by omega
        exact hn
    rcases ih (fun t h1 h2 => hr t h1 (by omega)) (fun t h1 h2 => hd t h1 (by omega)) with
      ⟨hp, hi | hf | hl⟩ | ⟨⟨u, hu, hp⟩, hl⟩
    · exact .inl ⟨hext hp hi.not_passes, hi.succ hr'⟩
    · rcases hf.succ hr' hd' with ⟨hn, hl⟩ | ⟨hn, hl⟩
      · exact .inr ⟨⟨a + n, by omega, hn⟩, hl⟩
      · exact .inl ⟨hext hp hn, .inr hl⟩
    · exact .inl ⟨hext hp hl.not_passes, .inr (.inr (hl.succ hr' hd'))⟩
    · exact .inr ⟨⟨u, by omega, hp⟩, hl.succ hr' hd'⟩

-- The first entry, in cycle `a + n`.
theorem first_delivered (a n : Nat) (rp p : BitVec 32) (hs : r.Starts a rp)
    (hr : ∀ t, a ≤ t → t < a + n → redirects (r.ins t) = false)
    (hd : ∀ t, a ≤ t → t < a + n → r.delivers t = []) (hp : r.delivers (a + n) = [p]) :
    ((∀ t, a ≤ t → t < a + n → ¬ r.Passes t) ∧ p = rp) ∨
    ((∃ t, (a ≤ t ∧ t < a + n) ∧ r.Passes t) ∧ p = rp + 4#32) := by
  have hpre := r.delivers_prefix (a + n)
  rw [hp, waiting_eq] at hpre
  rcases r.first_waiting a n rp hs hr hd with ⟨hn, hi | hf | hl⟩ | ⟨hn, hl⟩
  · rw [hi.lane, hi.faults] at hpre
    exact absurd (List.prefix_nil.mp hpre) (List.cons_ne_nil _ _)
  · rw [hf.lane, hf.faults, List.nil_append, List.cons_prefix_cons] at hpre
    exact .inl ⟨hn, hpre.1⟩
  · exact .inl ⟨hn, hl.delivers_eq hp⟩
  · exact .inr ⟨hn, hl.delivers_eq hp⟩

-- Every entry reports its own address if it is misaligned.

theorem getLsbD_excpCode (f : Ifetch) :
    f.excpCode.getLsbD 0 = !(f.pc.extractLsb' 0 2 == 0#2) := by
  rw [Ifetch.excpCode, BitVec.getLsbD_append]
  simp

-- In a queue that only takes the fetches of a cycle.
theorem excp_entries {q : Nat → List (FetchInfo × Bool)} {push pop : Nat → Bool} (h0 : q 0 = [])
    (hq : ∀ t, q (t + 1) = Fifo.next (redirects (r.ins t)) (pop t)
      (if push t then [((r.st t).ifetch.fetchInfo, false)] else []) (q t))
    (t : Nat) (x : FetchInfo) (c : Bool) (h : (x, c) ∈ q t) :
    x.excp.getLsbD 0 = !(x.pc.extractLsb' 0 2 == 0#2) := by
  induction t generalizing c with
  | zero =>
    rw [h0] at h
    exact absurd h List.not_mem_nil
  | succ t ih =>
    rw [hq] at h
    obtain ⟨c', ho | hn, -⟩ := Fifo.mem_next _ _ _ _ _ _ h
    · exact ih c' ho
    · split at hn
      · obtain ⟨rfl, -⟩ := Prod.mk.inj (List.mem_singleton.mp hn)
        exact getLsbD_excpCode _
      · exact absurd hn List.not_mem_nil

theorem excp_ifq (t : Nat) (x : FetchInfo) (c : Bool)
    (h : (x, c) ∈ (r.st t).ifetch.memQueue.items) :
    x.excp.getLsbD 0 = !(x.pc.extractLsb' 0 2 == 0#2) :=
  r.excp_entries (q := fun t => (r.st t).ifetch.memQueue.items) (Queue.items_reset _)
    r.items_ifq_succ t x c h

theorem excp_excpPipe (t : Nat) (x : FetchInfo) (c : Bool)
    (h : (x, c) ∈ (r.st t).ifetch.excpPipe.items) :
    x.excp.getLsbD 0 = !(x.pc.extractLsb' 0 2 == 0#2) :=
  r.excp_entries (q := fun t => (r.st t).ifetch.excpPipe.items) Pipe.items_reset
    r.items_excp_succ t x c h

theorem excp_arrives (t : Nat) (x : If2de) (c : Bool) (h : (x, c) ∈ r.arrives t) :
    x.excp.getLsbD 0 = !(x.pc.extractLsb' 0 2 == 0#2) := by
  rw [arrives, Bypbuf.arrival] at h
  split at h
  · next hp =>
    obtain ⟨rfl, -⟩ := Prod.mk.inj (List.mem_singleton.mp h)
    have hi : (r.st t).ifetch.iIf2deValid (r.st t).rspValid = true := (Bool.and_eq_true_iff.mp hp).1
    cases hv : (r.st t).rspValid with
    | true =>
      have hm := List.mem_of_head? (Queue.head?_items _ (r.oValid_of_rspValid t hv))
      have hz : (0#14 ++ BitVec.ofBool (r.st t).itcm.rspErr ++ 0#1).getLsbD 0 = false := by
        rw [BitVec.getLsbD_append]
        rfl
      rw [Ifetch.iIf2deInfo, if_pos rfl, ← r.excp_ifq t _ _ hm, BitVec.getLsbD_or, hz,
        Bool.or_false]
    | false =>
      have hx : (r.st t).ifetch.excpPipe.vld = true := by simpa [Ifetch.iIf2deValid, hv] using hi
      rw [Ifetch.iIf2deInfo, if_neg Bool.false_ne_true]
      refine r.excp_excpPipe t _ (r.st t).ifetch.excpPipe.cancel ?_
      rw [Pipe.items_of_vld _ hx]
      exact List.mem_singleton_self _
  · exact absurd h List.not_mem_nil

theorem excp_buf (t : Nat) (x : If2de) (c : Bool)
    (h : (x, c) ∈ (r.st t).ifetch.memBypbuf.items) :
    x.excp.getLsbD 0 = !(x.pc.extractLsb' 0 2 == 0#2) := by
  induction t generalizing c with
  | zero =>
    change (x, c) ∈ (Bypbuf.reset _).items at h
    simp at h
  | succ t ih =>
    rw [items_buf_succ] at h
    obtain ⟨c', ho | hn, -⟩ := Fifo.mem_next _ _ _ _ _ _ h
    · exact ih c' ho
    · exact r.excp_arrives t x c' hn

theorem excp_if2de (t : Nat) (h : (r.st t).if2deValid = true) :
    (r.st t).if2de.excp.getLsbD 0 = !((r.st t).if2de.pc.extractLsb' 0 2 == 0#2) := by
  have hh : ((r.st t).ifetch.memBypbuf.items ++ r.arrives t).head? =
    some ((r.st t).if2de, (r.st t).if2deCancel) := Bypbuf.head?_items _ _ _ _ h
  rcases List.mem_append.mp (List.mem_of_head? hh) with hm | hm
  · exact r.excp_buf t _ _ hm
  · exact r.excp_arrives t _ _ hm

end HiCore.FetchPort.Run
