import HiCore.Lib.Fifo

-- Runs of clocked machines, the cycles in which something happens in them, and
-- what a queue with marks holds after any number of cycles.
namespace HiCore.History

def run {σ ι : Type} (step : σ → ι → σ) (init : σ) (ins : Nat → ι) : Nat → σ
  | 0 => init
  | t + 1 => step (run step init ins t) (ins t)

-- Whatever moves like a run is that run.
theorem run_eq {σ ι : Type} {step : σ → ι → σ} {init : σ} {ins : Nat → ι} {f : Nat → σ}
    (h0 : f 0 = init) (hs : ∀ t, f (t + 1) = step (f t) (ins t)) (t : Nat) :
    run step init ins t = f t := by
  induction t with
  | zero => exact h0.symm
  | succ t ih => rw [run, ih, hs]

-- What a step keeps exactly under a condition holds always exactly when the
-- condition does.
theorem always_iff {P C : Nat → Prop} (h0 : P 0) (hs : ∀ t, P t → (P (t + 1) ↔ C t)) :
    (∀ t, P t) ↔ ∀ t, C t := by
  constructor
  · intro h t
    exact (hs t (h t)).mp (h (t + 1))
  · intro h t
    induction t with
    | zero => exact h0
    | succ t ih => exact (hs t ih).mpr (h t)

-- How often `p` holds before cycle `t`.
def times (p : Nat → Bool) (t : Nat) : Nat := (List.range t).countP p

-- Cycle `u` is the one in which `p` holds for the time number `k`, from 0 on.
def Nth (p : Nat → Bool) (k u : Nat) : Prop := p u = true ∧ times p u = k

-- The cycles before `t` in which `p` holds, the oldest first.
def cycles (p : Nat → Bool) (t : Nat) : List Nat := (List.range t).filter p

section Times

variable (p q : Nat → Bool)

theorem times_succ (t : Nat) : times p (t + 1) = times p t + (p t).toNat := by
  rw [times, List.range_succ, List.countP_append, List.countP_singleton]
  cases p t <;> rfl

theorem times_mono {t u : Nat} (h : t ≤ u) : times p t ≤ times p u := by
  induction u, h using Nat.le_induction with
  | base => exact Nat.le_refl _
  | succ u _ ih =>
    rw [times_succ]
    omega

theorem cycles_succ (t : Nat) : cycles p (t + 1) = cycles p t ++ if p t then [t] else [] := by
  rw [cycles, List.range_succ, List.filter_append, cycles]
  cases h : p t <;> simp [h]

theorem length_cycles (t : Nat) : (cycles p t).length = times p t :=
  List.countP_eq_length_filter.symm

theorem mem_cycles {t u : Nat} : u ∈ cycles p t ↔ u < t ∧ p u = true := by
  simp [cycles]

theorem Nth.unique {p : Nat → Bool} {k u v : Nat} (hu : Nth p k u) (hv : Nth p k v) : u = v := by
  have key : ∀ a b, Nth p k a → Nth p k b → ¬ a < b := by
    intro a b ha hb hlt
    have hm := times_mono p (Nat.succ_le_of_lt hlt)
    rw [times_succ, ha.1, ha.2, hb.2] at hm
    exact absurd hm (Nat.not_succ_le_self k)
  have := key u v hu hv
  have := key v u hv hu
  omega

theorem getElem?_cycles (t k u : Nat) : (cycles p t)[k]? = some u ↔ u < t ∧ Nth p k u := by
  induction t with
  | zero => simp [cycles]
  | succ t ih =>
    have hl := length_cycles p t
    rw [cycles_succ]
    rcases Nat.lt_or_ge k (times p t) with hk | hk
    · rw [List.getElem?_append_left (by omega), ih]
      refine and_congr_left fun hn => ⟨fun h => by omega, fun h => ?_⟩
      rcases Nat.lt_succ_iff_lt_or_eq.mp h with hlt | rfl
      · exact hlt
      · exact absurd hn.2 (by omega)
    · rw [List.getElem?_append_right (by omega), hl]
      constructor
      · intro h
        cases hp : p t with
        | false => simp [hp] at h
        | true =>
          rw [hp, if_pos rfl, List.getElem?_singleton] at h
          split at h
          · next he =>
            obtain rfl := Option.some.inj h
            exact ⟨Nat.lt_succ_self _, hp, by omega⟩
          · exact absurd h (by simp)
      · rintro ⟨hlt, hp, hn⟩
        rcases Nat.lt_succ_iff_lt_or_eq.mp hlt with h | rfl
        · have hm := times_mono p (Nat.succ_le_of_lt h)
          rw [times_succ, hp, Bool.toNat_true] at hm
          omega
        · simp [hp, hn]

-- Whatever has happened more than `k` times happened for the time number `k`.
theorem exists_nth {t k : Nat} (h : k < times p t) : ∃ u < t, Nth p k u := by
  have hl := length_cycles p t
  have hk : k < (cycles p t).length := by omega
  exact ⟨_, (getElem?_cycles p t k _).mp (List.getElem?_eq_getElem hk)⟩

theorem Nth.lt_times {p : Nat → Bool} {k u t : Nat} (h : Nth p k u) (hu : u < t) : k < times p t := by
  have hm := times_mono p (Nat.succ_le_of_lt hu)
  rw [times_succ, h.1, h.2, Bool.toNat_true] at hm
  exact hm

-- The time number `k` lies between the cycles in which the count says so.
theorem existsUnique_nth {k u t : Nat} (h0 : times p (u + 1) ≤ k) (h1 : k < times p (t + 1)) :
    ∃! v, (u < v ∧ v ≤ t) ∧ Nth p k v := by
  obtain ⟨v, hv, hn⟩ := exists_nth p h1
  refine ⟨v, ⟨⟨?_, Nat.le_of_lt_succ hv⟩, hn⟩, fun w hw => hw.2.unique hn⟩
  by_contra hle
  have := hn.lt_times (show v < u + 1 by omega)
  omega

-- Nothing happens between two cycles with the same count.
theorem not_of_times_eq {p : Nat → Bool} {a b v : Nat} (h : times p a = times p b) (ha : a ≤ v)
    (hb : v < b) : p v = false := by
  by_contra hv
  rw [Bool.not_eq_false] at hv
  have hm := times_mono p ha
  have := Nth.lt_times ⟨hv, rfl⟩ hb
  omega

theorem cycles_eq_take {u t : Nat} (h : u ≤ t) : cycles p u = (cycles p t).take (times p u) := by
  have hp : cycles p u <+: cycles p t := by
    refine List.IsPrefix.filter p ?_
    rw [← Nat.add_sub_cancel' h, List.range_add]
    exact List.prefix_append _ _
  rw [← length_cycles]
  exact List.prefix_iff_eq_take.mp hp

-- Of the times that `p` holds, those in which `q` does.
theorem times_and (t : Nat) : times (fun v => p v && q v) t = (cycles p t).countP q := by
  rw [times, cycles, List.countP_filter]
  refine List.countP_congr fun v _ => ?_
  rw [Bool.and_comm]

end Times

-- Two streams in step: the event number `k` of the second is of the kind `d` when
-- that of the first is of the kind `c`. Then the kind's own numbers agree too.
section Kinds

variable {push pop c d : Nat → Bool}

theorem times_kind (h : ∀ t, pop t = true → ∃ u < t, Nth push (times pop t) u ∧ d t = c u)
    (t : Nat) : times (fun v => pop v && d v) t = ((cycles push t).take (times pop t)).countP c := by
  have hle : ∀ t, times pop t ≤ (cycles push t).length := by
    intro t
    induction t with
    | zero => simp [times]
    | succ t ih =>
      have hm := times_mono push (Nat.le_succ t)
      rw [length_cycles] at ih ⊢
      rw [times_succ]
      cases hp : pop t with
      | false => exact ih.trans hm
      | true =>
        obtain ⟨u, hu, hn, -⟩ := h t hp
        exact (Nat.succ_le_of_lt (hn.lt_times hu)).trans hm
  induction t with
  | zero => simp [times, cycles]
  | succ t ih =>
    rw [times_succ, ih, times_succ, cycles_succ]
    cases hp : pop t with
    | false => rw [Bool.toNat_false, Nat.add_zero, List.take_append_of_le_length (hle t)]; simp
    | true =>
      obtain ⟨u, hu, hn, hd⟩ := h t hp
      have hl := hn.lt_times hu
      have hg := (getElem?_cycles push t _ u).mpr ⟨hu, hn⟩
      rw [← length_cycles push] at hl
      rw [Bool.toNat_true, List.take_append_of_le_length hl, List.take_add_one, hg,
        List.countP_append, hd]
      cases hc : c u <;> simp [hc]

theorem times_kind_eq (h : ∀ t, pop t = true → ∃ u < t, Nth push (times pop t) u ∧ d t = c u)
    {t u : Nat} (hu : u ≤ t) (hn : times push u = times pop t) :
    times (fun v => push v && c v) u = times (fun v => pop v && d v) t := by
  rw [times_kind h, times_and, cycles_eq_take push hu, hn]

end Kinds

-- What only changes in certain cycles is the same before and after a stretch
-- without them.
theorem eq_of_quiet {β : Type} {f : Nat → β} {a b : Nat} (hab : a ≤ b)
    (h : ∀ v, a ≤ v → v < b → f (v + 1) = f v) : f b = f a := by
  induction b, hab using Nat.le_induction with
  | base => rfl
  | succ b hab ih =>
    rw [h b hab (Nat.lt_succ_self b)]
    exact ih fun v h1 h2 => h v h1 (Nat.lt_succ_of_lt h2)

-- An item that came in cycle `u` is marked in cycle `t`.
def marked (cancel flush : Nat → Bool) (u t : Nat) : Bool :=
  cancel u || (List.range t).any fun v => decide (u ≤ v) && flush v

theorem marked_iff (cancel flush : Nat → Bool) (u t : Nat) : marked cancel flush u t = true ↔
    cancel u = true ∨ ∃ v, u ≤ v ∧ v < t ∧ flush v = true := by
  simp only [marked, Bool.or_eq_true, List.any_eq_true, List.mem_range, Bool.and_eq_true,
    decide_eq_true_eq]
  exact or_congr_right ⟨fun ⟨v, ht, hu, hf⟩ => ⟨v, hu, ht, hf⟩, fun ⟨v, hu, ht, hf⟩ => ⟨v, ht, hu, hf⟩⟩

theorem marked_succ (cancel flush : Nat → Bool) (u t : Nat) (h : u ≤ t) :
    marked cancel flush u (t + 1) = (marked cancel flush u t || flush t) := by
  rw [marked, marked, List.range_succ, List.any_append, List.any_cons, List.any_nil, Bool.or_false,
    Bool.or_assoc, decide_eq_true h, Bool.true_and]

theorem marked_self (cancel flush : Nat → Bool) (t : Nat) : marked cancel flush t t = cancel t := by
  rw [marked, Bool.or_eq_left_iff_imp]
  intro h
  obtain ⟨v, hv, hd⟩ := List.any_eq_true.mp h
  rw [Bool.and_eq_true, decide_eq_true_eq] at hd
  exact absurd (List.mem_range.mp hv) (Nat.not_lt.mpr hd.1)

-- The queue that starts empty and in every cycle takes the item of the cycle when
-- `push` holds, gives one up when `pop` holds and marks all when `flush` holds.
structure IsQueue {α : Type} (dat : Nat → α) (cancel push pop flush : Nat → Bool)
    (items : Nat → List (α × Bool)) : Prop where
  start : items 0 = []
  step : ∀ t, items (t + 1) = Fifo.next (flush t) (pop t)
    (if push t then [(dat t, cancel t)] else []) (items t)
  nonempty : ∀ t, pop t = true → items t ≠ [] ∨ push t = true

section Queue

variable {α : Type} {dat : Nat → α} {cancel push pop flush : Nat → Bool}
  {items : Nat → List (α × Bool)}

theorem IsQueue.length (h : IsQueue dat cancel push pop flush items) (t : Nat) :
    times pop t + (items t).length = times push t := by
  induction t with
  | zero => simp [times, h.start]
  | succ t ih =>
    have hn := h.nonempty t
    rw [times_succ, times_succ, h.step, Fifo.next, Fifo.mark, List.length_map, Fifo.shift]
    cases hp : pop t with
    | false => cases push t <;> simp <;> omega
    | true =>
      rcases hn hp with hne | hpush
      · have := List.length_pos_iff.mpr hne
        cases push t <;> simp <;> omega
      · simp [hpush]
        omega

-- What the queue holds are the items that have come and not left, in order.
theorem IsQueue.items_eq (h : IsQueue dat cancel push pop flush items) (t : Nat) :
    items t = ((cycles push t).drop (times pop t)).map fun u => (dat u, marked cancel flush u t) := by
  induction t with
  | zero => simp [h.start, cycles]
  | succ t ih =>
    have hl := h.length t
    have hle : times pop t ≤ (cycles push t).length := by
      rw [length_cycles]
      omega
    have hmark : ∀ l : List Nat, (∀ u ∈ l, u ≤ t) →
        Fifo.mark (flush t) (l.map fun u => (dat u, marked cancel flush u t)) =
          l.map fun u => (dat u, marked cancel flush u (t + 1)) := by
      intro l hm
      rw [Fifo.mark, List.map_map]
      refine List.map_congr_left fun u hu => ?_
      rw [marked_succ _ _ _ _ (hm u hu)]
      rfl
    have hnew : (if push t then [(dat t, cancel t)] else []) =
        (if push t then [t] else []).map fun u => (dat u, marked cancel flush u t) := by
      cases push t with
      | false => rfl
      | true => simp [marked_self]
    have hdrop : Fifo.shift (pop t) (if push t then [t] else [])
        ((cycles push t).drop (times pop t)) = (cycles push (t + 1)).drop (times pop (t + 1)) := by
      rw [cycles_succ, times_succ, Fifo.shift, ← List.drop_append_of_le_length hle]
      cases pop t with
      | false => rfl
      | true => simp
    rw [h.step, ih, hnew, Fifo.next, ← Fifo.map_shift, hdrop, hmark]
    intro u hu
    have := ((mem_cycles push).mp (List.mem_of_mem_drop hu)).1
    omega

-- The item that is at the head in a cycle is the one that came as the first of
-- those that have not left, with a mark if one was set since.
theorem IsQueue.head? (h : IsQueue dat cancel push pop flush items) (t : Nat) (x : α) (c : Bool)
    (hh : (items t ++ if push t then [(dat t, cancel t)] else []).head? = some (x, c)) :
    ∃ u ≤ t, Nth push (times pop t) u ∧ x = dat u ∧ c = marked cancel flush u t := by
  have hl := h.length t
  cases hi : items t with
  | nil =>
    rw [hi] at hh hl
    cases hp : push t with
    | false => simp [hp] at hh
    | true =>
      rw [hp, List.nil_append, if_pos rfl, List.head?_cons, Option.some.injEq, Prod.mk.injEq] at hh
      refine ⟨t, Nat.le_refl t, ⟨hp, by simpa using hl.symm⟩, hh.1.symm, ?_⟩
      rw [marked_self]
      exact hh.2.symm
  | cons y l =>
    rw [hi, List.cons_append, List.head?_cons] at hh
    have he := congrArg List.head? (h.items_eq t)
    rw [hi, List.head?_cons, hh, List.head?_map, List.head?_drop] at he
    obtain ⟨u, hu, hx⟩ := Option.map_eq_some_iff.mp he.symm
    obtain ⟨hlt, hn⟩ := (getElem?_cycles _ _ _ _).mp hu
    rw [Prod.mk.injEq] at hx
    exact ⟨u, hlt.le, hn, hx.1.symm, hx.2.symm⟩

-- At the head of a queue that only gives up what it holds.
theorem IsQueue.head?_items (h : IsQueue dat cancel push pop flush items) (t : Nat) (x : α)
    (c : Bool) (hh : (items t).head? = some (x, c)) :
    ∃ u < t, Nth push (times pop t) u ∧ x = dat u ∧ c = marked cancel flush u t := by
  obtain ⟨l, hi⟩ := List.head?_eq_some_iff.mp hh
  obtain ⟨u, hu, hn, hx⟩ := h.head? t x c (by rw [hi]; rfl)
  refine ⟨u, Nat.lt_of_le_of_ne hu ?_, hn, hx⟩
  rintro rfl
  have hl := h.length u
  have := hn.2
  rw [hi, List.length_cons] at hl
  omega

end Queue

end HiCore.History
