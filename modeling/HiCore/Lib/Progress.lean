import HiCore.Lib.History

-- Events that come in a bounded number of cycles.
namespace HiCore.Progress

open History

-- `p` holds in a cycle from `t` on, and by `t + n`.
def Within (p : Nat → Prop) (n t : Nat) : Prop := ∃ u, t ≤ u ∧ u ≤ t + n ∧ p u

variable {p q : Nat → Prop} {m n t : Nat}

theorem Within.now (h : p t) : Within p n t := ⟨t, Nat.le_refl t, Nat.le_add_right t n, h⟩

theorem Within.later (h : Within p n (t + 1)) : Within p (n + 1) t := by
  obtain ⟨u, hu, hn, hp⟩ := h
  exact ⟨u, by omega, by omega, hp⟩

theorem Within.mono (h : Within p m t) (hmn : m ≤ n) : Within p n t := by
  obtain ⟨u, hu, hm, hp⟩ := h
  exact ⟨u, hu, by omega, hp⟩

-- A rank that falls in every cycle in which `p` does not hold; `inv u k` says that it is `k` in
-- cycle `u`.
theorem within_of_rank (inv : Nat → Nat → Prop)
    (hs : ∀ u k, t ≤ u → u ≤ t + n → inv u k → p u ∨ ∃ j < k, inv (u + 1) j) (h : inv t n) :
    Within p n t := by
  induction n using Nat.strong_induction_on generalizing t with
  | _ n ih =>
    rcases hs t n (Nat.le_refl t) (Nat.le_add_right t n) h with hp | ⟨j, hj, hi⟩
    · exact .now hp
    · exact (ih j hj (fun u k hu hn => hs u k (by omega) (by omega)) hi).later.mono hj

-- An event that never stays away for more than `n` cycles happens `k` times in `k * (n + 1)`.
theorem le_times {p : Nat → Bool} {k : Nat}
    (h : ∀ u, u < t + k * (n + 1) → Within (fun v => p v = true) n u) :
    times p t + k ≤ times p (t + k * (n + 1)) := by
  induction k with
  | zero => rw [Nat.zero_mul]; exact Nat.le_refl _
  | succ k ih =>
    have hk := ih fun u hu => h u (by rw [Nat.succ_mul]; omega)
    obtain ⟨u, hu, hn, hp⟩ := h (t + k * (n + 1)) (by rw [Nat.succ_mul]; omega)
    have h1 := times_mono p hu
    have h2 := times_mono p (show u + 1 ≤ t + (k + 1) * (n + 1) by rw [Nat.succ_mul]; omega)
    rw [times_succ, hp, Bool.toNat_true] at h2
    omega

-- A count takes every value on its way.
theorem exists_times_eq {p : Nat → Bool} {k : Nat} (h : k ≤ times p t) : ∃ u ≤ t, times p u = k := by
  induction t with
  | zero => exact ⟨0, Nat.le_refl 0, Nat.le_antisymm (Nat.zero_le k) h⟩
  | succ t ih =>
    rcases Nat.lt_or_ge (times p t) k with hlt | hge
    · have hs := times_succ p t
      have hb := Bool.toNat_le (p t)
      exact ⟨t + 1, Nat.le_refl _, by omega⟩
    · obtain ⟨u, hu, hk⟩ := ih hge
      exact ⟨u, Nat.le_succ_of_le hu, hk⟩

end HiCore.Progress
