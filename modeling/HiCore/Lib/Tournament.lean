import Mathlib.Order.Defs.LinearOrder
import Mathlib.Tactic.Ring

-- A knockout in levels: of two neighbours the better one goes on, and the left one on a tie.
namespace HiCore.Tournament

variable {α κ : Type} [LinearOrder κ] (key : α → κ)

def better (a b : α) : α := if key a < key b then b else a

-- The winner among the `2 ^ k` leaves from `i * 2 ^ k` on.
def winner (leaf : Nat → α) : Nat → Nat → α
  | 0, i => leaf i
  | k + 1, i => better key (winner leaf k (2 * i)) (winner leaf k (2 * i + 1))

-- Leaf `j` is the first of the best ones from `a` on and before `b`.
structure First (leaf : Nat → α) (a b j : Nat) : Prop where
  ge : a ≤ j
  lt : j < b
  best : ∀ m, a ≤ m → m < b → key (leaf m) ≤ key (leaf j)
  first : ∀ m, a ≤ m → m < j → key (leaf m) < key (leaf j)

variable {key} {leaf : Nat → α} {a b c j k : Nat}

theorem First.unique (hj : First key leaf a b j) (hk : First key leaf a b k) : j = k := by
  rcases Nat.lt_trichotomy j k with h | h | h
  · exact absurd (hk.first j hj.ge h) (not_lt_of_ge (hj.best k hk.ge hk.lt))
  · exact h
  · exact absurd (hj.first k hk.ge h) (not_lt_of_ge (hk.best j hj.ge hj.lt))

-- The better of two neighbouring ranges.

theorem First.left (hj : First key leaf a b j) (hk : First key leaf b c k)
    (h : key (leaf k) ≤ key (leaf j)) : First key leaf a c j where
  ge := hj.ge
  lt := Nat.lt_trans hj.lt (Nat.lt_of_le_of_lt hk.ge hk.lt)
  best m ha hc := by
    rcases Nat.lt_or_ge m b with hb | hb
    · exact hj.best m ha hb
    · exact le_trans (hk.best m hb hc) h
  first := hj.first

theorem First.right (hj : First key leaf a b j) (hk : First key leaf b c k)
    (h : key (leaf j) < key (leaf k)) : First key leaf a c k where
  ge := Nat.le_trans hj.ge (Nat.le_trans hj.lt.le hk.ge)
  lt := hk.lt
  best m ha hc := by
    rcases Nat.lt_or_ge m b with hb | hb
    · exact le_trans (hj.best m ha hb) h.le
    · exact hk.best m hb hc
  first m ha hm := by
    rcases Nat.lt_or_ge m b with hb | hb
    · exact lt_of_le_of_lt (hj.best m ha hb) h
    · exact hk.first m hb hm

-- Leaves that are not better than the winner may be added behind.
theorem First.extend (hj : First key leaf a b j) (h : ∀ m, b ≤ m → key (leaf m) ≤ key (leaf j))
    (hbc : b ≤ c) : First key leaf a c j where
  ge := hj.ge
  lt := Nat.lt_of_lt_of_le hj.lt hbc
  best m ha _ := by
    rcases Nat.lt_or_ge m b with hb | hb
    · exact hj.best m ha hb
    · exact h m hb
  first := hj.first

variable (key) in
theorem exists_first (leaf : Nat → α) (k i : Nat) :
    ∃ j, First key leaf (i * 2 ^ k) ((i + 1) * 2 ^ k) j ∧ winner key leaf k i = leaf j := by
  induction k generalizing i with
  | zero =>
    refine ⟨i, ⟨by omega, by omega, fun m h1 h2 => ?_, fun m h1 h2 => by omega⟩, rfl⟩
    obtain rfl : m = i := by omega
    exact le_rfl
  | succ k ih =>
    obtain ⟨j, hj, hl⟩ := ih (2 * i)
    obtain ⟨m, hm, hr⟩ := ih (2 * i + 1)
    have h1 : 2 * i * 2 ^ k = i * 2 ^ (k + 1) := by ring
    have h2 : (2 * i + 1 + 1) * 2 ^ k = (i + 1) * 2 ^ (k + 1) := by ring
    rw [h1] at hj
    rw [h2] at hm
    rw [winner, better, hl, hr]
    split
    · next h => exact ⟨m, hj.right hm h, rfl⟩
    · next h => exact ⟨j, hj.left hm (not_lt.mp h), rfl⟩

end HiCore.Tournament
