import HiCore.Lib.History

-- Buffers between two handshakes, by what is seen at their ends in every cycle. An
-- item is accepted, some cycles later it is presented, and it leaves in the cycle in
-- which it is presented and the other side is ready for it.
namespace HiCore.History

structure Channel (α : Type) where
  dat : Nat → α
  cancel : Nat → Bool
  flush : Nat → Bool
  accept : Nat → Bool
  offer : Nat → Bool
  ready : Nat → Bool
  out : Nat → α
  outCancel : Nat → Bool

namespace Channel

variable {α : Type}

def leave (c : Channel α) (t : Nat) : Bool := c.offer t && c.ready t

-- A first-in first-out buffer of `depth` places with a sticky cancel flag. An item is
-- presented `delay` cycles after it came at the earliest.
structure Lossless (c : Channel α) (delay depth : Nat) : Prop where
  -- Presented is the first of the items that have not left, cancelled if it came so or
  -- if there was a flush since.
  inOrder : ∀ t, c.offer t = true → ∃ u, u + delay ≤ t ∧ Nth c.accept (times c.leave t) u ∧
    c.out t = c.dat u ∧
    (c.outCancel t = true ↔ c.cancel u = true ∨ ∃ v, u ≤ v ∧ v < t ∧ c.flush v = true)
  -- What has left is what came first, each item once.
  sequence : ∀ t, (cycles c.leave t).map c.out =
    ((cycles c.accept t).map c.dat).take (times c.leave t)
  -- Whatever has come and not left is presented.
  offered : ∀ t, c.offer t = true ↔ times c.leave t < times c.accept (t + 1 - delay)
  bounded : ∀ t, times c.leave t ≤ times c.accept t ∧ times c.accept t ≤ times c.leave t + depth
  kept : ∀ t, c.offer t = true → c.ready t = false →
    c.offer (t + 1) = true ∧ c.out (t + 1) = c.out t
  -- When the other side never stops asking, every item leaves in one cycle of its own.
  once : (∀ t, ∃ v, t ≤ v ∧ c.ready v = true) → ∀ u, c.accept u = true →
    ∃! t, u + delay ≤ t ∧ Nth c.leave (times c.accept u) t ∧ c.out t = c.dat u

section Lossless

variable {c : Channel α} {delay depth : Nat} {items : Nat → List (α × Bool)}

theorem offered_of_registered (h : IsQueue c.dat c.cancel c.accept c.leave c.flush items)
    (ho : ∀ t, c.offer t = true ↔ items t ≠ []) (t : Nat) :
    c.offer t = true ↔ times c.leave t < times c.accept (t + 1 - 1) := by
  have hl := h.length t
  rw [ho, ← List.length_pos_iff, Nat.add_sub_cancel]
  omega

theorem offered_of_bypass (h : IsQueue c.dat c.cancel c.accept c.leave c.flush items)
    (ho : ∀ t, c.offer t = true ↔ items t ≠ [] ∨ c.accept t = true) (t : Nat) :
    c.offer t = true ↔ times c.leave t < times c.accept (t + 1 - 0) := by
  have hl := h.length t
  rw [ho, ← List.length_pos_iff, Nat.sub_zero, times_succ]
  cases c.accept t with
  | false =>
    rw [or_iff_left Bool.false_ne_true, Bool.toNat_false]
    omega
  | true =>
    refine iff_of_true (.inr rfl) ?_
    rw [Bool.toNat_true]
    omega

theorem map_out_eq_take
    (hin : ∀ t, c.leave t = true → ∃ u ≤ t, Nth c.accept (times c.leave t) u ∧ c.out t = c.dat u)
    (hle : ∀ t, times c.leave t ≤ times c.accept t) (t : Nat) :
    (cycles c.leave t).map c.out = ((cycles c.accept t).map c.dat).take (times c.leave t) := by
  induction t with
  | zero => simp [cycles]
  | succ t ih =>
    have hk : ((cycles c.accept t).map c.dat).take (times c.leave t) =
        ((cycles c.accept (t + 1)).map c.dat).take (times c.leave t) := by
      rw [cycles_eq_take c.accept (Nat.le_succ t), List.map_take, List.take_take,
        Nat.min_eq_left (hle t)]
    rw [cycles_succ, List.map_append, ih, hk, times_succ]
    cases hv : c.leave t with
    | false => simp
    | true =>
      obtain ⟨u, hu, hn, hx⟩ := hin t hv
      have hg := (getElem?_cycles c.accept (t + 1) _ u).mpr ⟨by omega, hn⟩
      rw [Bool.toNat_true, List.take_add_one, List.getElem?_map, hg, if_pos rfl]
      simp [hx]

-- The count of the items that have left passes every number of one that has come.
theorem exists_times_leave (hf : ∀ t, ∃ v, t ≤ v ∧ c.ready v = true)
    (ho : ∀ t, c.offer t = true ↔ times c.leave t < times c.accept (t + 1 - delay))
    {u : Nat} (hu : c.accept u = true) (n : Nat) (hn : n ≤ times c.accept u + 1) :
    ∃ t, n ≤ times c.leave t := by
  induction n with
  | zero => exact ⟨0, Nat.zero_le _⟩
  | succ n ih =>
    obtain ⟨t, ht⟩ := ih (by omega)
    obtain ⟨v, hv, hr⟩ := hf (max t (u + delay))
    have hm := times_mono c.leave (show t ≤ v by omega)
    rcases Nat.lt_or_ge n (times c.leave v) with hlt | hge
    · exact ⟨v, hlt⟩
    -- Number `n` has not left when the other side asks, so that it is presented.
    · have ha := times_mono c.accept (show u + 1 ≤ v + 1 - delay by omega)
      rw [times_succ, hu, Bool.toNat_true] at ha
      have hov := (ho v).mpr (by omega)
      refine ⟨v + 1, ?_⟩
      rw [times_succ, leave, hov, hr, Bool.and_true, Bool.toNat_true]
      omega

theorem lossless_of_isQueue (h : IsQueue c.dat c.cancel c.accept c.leave c.flush items)
    (ho : ∀ t, c.offer t = true ↔ times c.leave t < times c.accept (t + 1 - delay))
    (hh : ∀ t, c.offer t = true →
      (items t ++ if c.accept t then [(c.dat t, c.cancel t)] else []).head? =
        some (c.out t, c.outCancel t))
    (hd : ∀ t, (items t).length ≤ depth) : c.Lossless delay depth := by
  have hin : ∀ t, c.offer t = true → ∃ u, u + delay ≤ t ∧ Nth c.accept (times c.leave t) u ∧
      c.out t = c.dat u ∧ c.outCancel t = marked c.cancel c.flush u t := by
    intro t hv
    obtain ⟨u, -, hn, hx, hm⟩ := h.head? t _ _ (hh t hv)
    obtain ⟨w, hw, hnw⟩ := exists_nth c.accept ((ho t).mp hv)
    obtain rfl := hnw.unique hn
    exact ⟨w, by omega, hn, hx, hm⟩
  constructor
  · intro t hv
    obtain ⟨u, hu, hn, hx, hm⟩ := hin t hv
    exact ⟨u, hu, hn, hx, by rw [hm, marked_iff]⟩
  · refine map_out_eq_take (fun t hv => ?_) fun t => ?_
    · obtain ⟨u, hu, hn, hx, -⟩ := hin t (Bool.and_eq_true_iff.mp hv).1
      exact ⟨u, by omega, hn, hx⟩
    · have hl := h.length t
      omega
  · exact ho
  · intro t
    have hl := h.length t
    have := hd t
    omega
  · intro t hv hr
    have hs : times c.leave (t + 1) = times c.leave t := by
      rw [times_succ, leave, hr, Bool.and_false, Bool.toNat_false, Nat.add_zero]
    have hm := times_mono c.accept (show t + 1 - delay ≤ t + 1 + 1 - delay by omega)
    have hlt := (ho t).mp hv
    have hv' := (ho (t + 1)).mpr (by omega)
    obtain ⟨u, -, hn, hx, -⟩ := hin t hv
    obtain ⟨u', -, hn', hx', -⟩ := hin (t + 1) hv'
    rw [hs] at hn'
    rw [hn'.unique hn] at hx'
    exact ⟨hv', hx'.trans hx.symm⟩
  · intro hf u hu
    obtain ⟨t, ht⟩ := exists_times_leave hf ho hu _ (Nat.le_refl _)
    obtain ⟨v, -, hv⟩ := exists_nth c.leave (Nat.lt_of_succ_le ht)
    obtain ⟨w, hw, hn, hx, -⟩ := hin v (Bool.and_eq_true_iff.mp hv.1).1
    rw [hv.2] at hn
    obtain rfl : w = u := hn.unique ⟨hu, rfl⟩
    exact ⟨v, ⟨hw, hv, hx⟩, fun x hy => hy.2.1.unique hv⟩

end Lossless

end Channel

end HiCore.History
