import HiCore.Lib.Word

-- A memory of 32-bit words seen as bytes in little-endian order.
namespace HiCore.Bytes

variable {n : Nat}

def ofWords (w : BitVec n → BitVec 32) (b : BitVec (n + 2)) : BitVec 8 :=
  (w (b.extractLsb' 2 n)).extractLsb' (8 * (b.toNat % 4)) 8

def word (mem : BitVec (n + 2) → BitVec 8) (a : BitVec (n + 2)) : BitVec 32 :=
  mem (a + BitVec.ofNat _ 3) ++ mem (a + BitVec.ofNat _ 2) ++ mem (a + BitVec.ofNat _ 1) ++
    mem (a + BitVec.ofNat _ 0)

-- The low `k` bytes of `v` go to the `k` bytes from `a` on.
def write (k : Nat) (a : BitVec (n + 2)) (v : BitVec 32) (mem : BitVec (n + 2) → BitVec 8)
    (b : BitVec (n + 2)) : BitVec 8 :=
  if (b - a).toNat < k then v.extractLsb' (8 * (b - a).toNat) 8 else mem b

theorem toNat_lt (b : BitVec (n + 2)) : b.toNat < 4 * 2 ^ n := by
  have h := b.isLt
  rw [Nat.pow_add] at h
  omega

theorem toNat_index (b : BitVec (n + 2)) : (b.extractLsb' 2 n).toNat = b.toNat / 4 := by
  have h := toNat_lt b
  rw [BitVec.extractLsb'_toNat, Nat.shiftRight_eq_div_pow, Nat.mod_eq_of_lt (by omega)]

theorem index_eq_iff (a b : BitVec (n + 2)) :
    b.extractLsb' 2 n = a.extractLsb' 2 n ↔ b.toNat / 4 = a.toNat / 4 := by
  rw [← BitVec.toNat_inj, toNat_index, toNat_index]

-- Within a word an address does not wrap around.
theorem toNat_add (a : BitVec (n + 2)) (j : Nat) (h : a.toNat % 4 + j < 4) :
    (a + BitVec.ofNat _ j).toNat = a.toNat + j := by
  have ha := toNat_lt a
  have hp : 2 ^ (n + 2) = 4 * 2 ^ n := by rw [Nat.pow_add, Nat.mul_comm]
  rw [BitVec.toNat_add, BitVec.toNat_ofNat, Nat.add_mod_mod, hp, Nat.mod_eq_of_lt (by omega)]

theorem ofWords_add (w : BitVec n → BitVec 32) (a : BitVec (n + 2)) (j : Nat)
    (h : a.toNat % 4 + j < 4) : ofWords w (a + BitVec.ofNat _ j) =
      (w (a.extractLsb' 2 n)).extractLsb' (8 * (a.toNat % 4 + j)) 8 := by
  have hj := toNat_add a j h
  have hi : (a + BitVec.ofNat _ j).extractLsb' 2 n = a.extractLsb' 2 n := by
    rw [index_eq_iff, hj]
    omega
  rw [ofWords, hi, hj]
  congr 2
  omega

-- A read that stays within its word.
theorem word_ofWords (w : BitVec n → BitVec 32) (a : BitVec (n + 2)) (k : Nat)
    (h : a.toNat % 4 + k ≤ 4) : (word (ofWords w) a).extractLsb' 0 (8 * k) =
      (w (a.extractLsb' 2 n)).extractLsb' (8 * (a.toNat % 4)) (8 * k) := by
  refine (Word.extractLsb'_eq_of_bytes _ _ _ _ fun j hj => ?_).symm
  rw [word, Word.extractLsb'_bytes (fun j => ofWords w (a + BitVec.ofNat _ j)) j (by omega),
    ofWords_add w a j (by omega)]

-- How far `b` is behind the first of `k` bytes that stay within a word.
theorem toNat_sub_lt_iff (a b : BitVec (n + 2)) (k : Nat) (h : a.toNat % 4 + k ≤ 4) :
    (b - a).toNat < k ↔ a.toNat ≤ b.toNat ∧ b.toNat < a.toNat + k := by
  have ha := toNat_lt a
  have hb := toNat_lt b
  have hp : 2 ^ (n + 2) = 4 * 2 ^ n := by rw [Nat.pow_add, Nat.mul_comm]
  rw [BitVec.toNat_sub, hp]
  by_cases hab : a.toNat ≤ b.toNat
  · rw [show 4 * 2 ^ n - a.toNat + b.toNat = b.toNat - a.toNat + 4 * 2 ^ n by omega,
      Nat.add_mod_right, Nat.mod_eq_of_lt (by omega)]
    omega
  · rw [Nat.mod_eq_of_lt (by omega)]
    omega

-- A word that changes in `k` of its bytes is a write of these.
theorem ofWords_eq_write (w w' : BitVec n → BitVec 32) (a : BitVec (n + 2)) (k : Nat)
    (v : BitVec 32) (h : a.toNat % 4 + k ≤ 4)
    (hoff : ∀ i, i ≠ a.extractLsb' 2 n → w' i = w i)
    (hon : ∀ j < 4, (w' (a.extractLsb' 2 n)).extractLsb' (8 * j) 8 =
      if a.toNat % 4 ≤ j ∧ j < a.toNat % 4 + k then v.extractLsb' (8 * (j - a.toNat % 4)) 8
      else (w (a.extractLsb' 2 n)).extractLsb' (8 * j) 8) :
    ofWords w' = write k a v (ofWords w) := by
  funext b
  rw [write, ofWords, ofWords]
  by_cases hi : b.extractLsb' 2 n = a.extractLsb' 2 n
  · have hd := (index_eq_iff a b).mp hi
    rw [hi, hon _ (Nat.mod_lt _ (by omega))]
    by_cases hk : a.toNat ≤ b.toNat ∧ b.toNat < a.toNat + k
    · rw [if_pos ((toNat_sub_lt_iff a b k h).mpr hk), if_pos (by omega),
        BitVec.toNat_sub_of_le hk.1]
      congr 2
      omega
    · rw [if_neg (mt (toNat_sub_lt_iff a b k h).mp hk), if_neg (by omega)]
  · have hd := mt (index_eq_iff a b).mpr hi
    rw [hoff _ hi, if_neg (mt (toNat_sub_lt_iff a b k h).mp (by omega))]

end HiCore.Bytes
