import Mathlib.Data.BitVec

-- Machine words: one adder for sums, differences and comparisons, one left
-- shifter for all shifts, and a word cut into fields.
namespace HiCore.Word

variable {w : Nat}

theorem add_not_add_one (x y : BitVec w) : x + ~~~y + 1#w = x - y := by
  rw [BitVec.add_assoc, BitVec.sub_eq_add_neg, BitVec.neg_eq_not_add]

theorem setWidth_sub {v : Nat} (x y : BitVec w) (h : v ≤ w) :
    (x - y).setWidth v = x.setWidth v - y.setWidth v := by
  rw [BitVec.sub_eq_add_neg, BitVec.setWidth_add _ _ h, BitVec.setWidth_neg_of_le h,
    ← BitVec.sub_eq_add_neg]

theorem cons_msb_eq_signExtend (x : BitVec w) :
    (BitVec.ofBool x.msb ++ x).cast (Nat.add_comm 1 w) = x.signExtend (w + 1) := by
  ext i hi
  rw [BitVec.getElem_cast, BitVec.getElem_append, BitVec.getElem_signExtend]
  by_cases h : i < w
  · simp [h]
  · simp [h]

-- The two extensions of a 32-bit operand by the bit that the adder adds.

theorem extend_signed (x : BitVec 32) : BitVec.ofBool (x.getLsbD 31) ++ x = x.signExtend 33 := by
  exact cons_msb_eq_signExtend x

theorem extend_unsigned (x : BitVec 32) : BitVec.ofBool false ++ x = x.setWidth 33 := by
  exact (BitVec.setWidth_eq_append (by omega)).symm

-- One bit more than the operands have is room for the sign of the difference.
theorem msb_sub_signExtend (x y : BitVec w) :
    (x.signExtend (w + 1) - y.signExtend (w + 1)).msb = decide (x.toInt < y.toInt) := by
  have hx := BitVec.two_mul_toInt_lt (x := x)
  have hx' := BitVec.le_two_mul_toInt (x := x)
  have hy := BitVec.two_mul_toInt_lt (x := y)
  have hy' := BitVec.le_two_mul_toInt (x := y)
  have h : (x.signExtend (w + 1) - y.signExtend (w + 1)).toInt = x.toInt - y.toInt := by
    rw [BitVec.toInt_sub, BitVec.toInt_signExtend_of_le (by omega),
      BitVec.toInt_signExtend_of_le (by omega)]
    apply Int.bmod_eq_of_le <;> push_cast [Nat.pow_succ] <;> omega
  rw [BitVec.msb_eq_toInt, h]
  simp only [decide_eq_decide]
  omega

theorem msb_sub_setWidth (x y : BitVec w) :
    (x.setWidth (w + 1) - y.setWidth (w + 1)).msb = decide (x.toNat < y.toNat) := by
  have hx := x.isLt
  have hy := y.isLt
  have hp : 2 ^ (w + 1) = 2 * 2 ^ w := by rw [Nat.pow_succ, Nat.mul_comm]
  rw [BitVec.msb_eq_decide, BitVec.toNat_sub, BitVec.toNat_setWidth_of_le (by omega),
    BitVec.toNat_setWidth_of_le (by omega), Nat.add_sub_cancel, decide_eq_decide, hp]
  by_cases h : x.toNat < y.toNat
  · rw [Nat.mod_eq_of_lt (by omega)]
    omega
  · -- No borrow: the modulus drops out once.
    have he : 2 * 2 ^ w - y.toNat + x.toNat = x.toNat - y.toNat + 2 * 2 ^ w := by omega
    rw [he, Nat.add_mod_right, Nat.mod_eq_of_lt (by omega)]
    omega

theorem reverse_shiftLeft_reverse (x : BitVec w) (n : Nat) :
    (x.reverse <<< n).reverse = x >>> n := by
  ext i hi
  rw [BitVec.getElem_reverse, BitVec.getMsbD_shiftLeft, BitVec.getMsbD_reverse,
    BitVec.getElem_ushiftRight, Nat.add_comm]

-- An arithmetic shift is a logical one with the vacated bits filled.
theorem sshiftRight_eq_fill (x : BitVec w) (n : Nat) :
    x.sshiftRight n =
      x >>> n ||| ((if x.msb then BitVec.allOnes w else 0#w) &&& ~~~(BitVec.allOnes w >>> n)) := by
  ext i hi
  rw [BitVec.getElem_sshiftRight, BitVec.getElem_or, BitVec.getElem_ushiftRight, BitVec.getElem_and,
    BitVec.getElem_not, BitVec.getElem_ushiftRight]
  by_cases h : n + i < w
  · simp [h, BitVec.getLsbD_eq_getElem]
  · cases hm : x.msb <;> simp [h, BitVec.getLsbD_of_ge x (n + i) (by omega)]

theorem extractLsb'_ushiftRight (x : BitVec w) (n k : Nat) :
    (x >>> n).extractLsb' 0 k = x.extractLsb' n k := by
  ext i hi
  simp

-- The bytes of a word put together from four.
theorem extractLsb'_bytes (x : Nat → BitVec 8) (j : Nat) (h : j < 4) :
    (x 3 ++ x 2 ++ x 1 ++ x 0).extractLsb' (8 * j) 8 = x j := by
  rcases j with _ | _ | _ | _ | j
  · rw [BitVec.extractLsb'_append_eq_of_add_le (by omega)]
    simp
  · rw [BitVec.extractLsb'_append_eq_of_le (by omega),
      BitVec.extractLsb'_append_eq_of_add_le (by omega)]
    simp
  · rw [BitVec.extractLsb'_append_eq_of_le (by omega),
      BitVec.extractLsb'_append_eq_of_le (by omega),
      BitVec.extractLsb'_append_eq_of_add_le (by omega)]
    simp
  · rw [BitVec.extractLsb'_append_eq_of_le (by omega),
      BitVec.extractLsb'_append_eq_of_le (by omega),
      BitVec.extractLsb'_append_eq_of_le (by omega)]
    simp
  · omega

theorem extractLsb'_halves (x : BitVec 16) (j : Nat) (h : j < 4) :
    (x ++ x).extractLsb' (8 * j) 8 = x.extractLsb' (8 * (j % 2)) 8 := by
  rcases j with _ | _ | _ | _ | j
  · rw [BitVec.extractLsb'_append_eq_of_add_le (by omega)]
  · rw [BitVec.extractLsb'_append_eq_of_add_le (by omega)]
  · rw [BitVec.extractLsb'_append_eq_of_le (by omega)]
  · rw [BitVec.extractLsb'_append_eq_of_le (by omega)]
  · omega

-- Fields of whole bytes are equal when their bytes are.
theorem extractLsb'_eq_of_bytes {v : Nat} (x : BitVec w) (y : BitVec v) (k n : Nat)
    (h : ∀ j < n, x.extractLsb' (8 * (k + j)) 8 = y.extractLsb' (8 * j) 8) :
    x.extractLsb' (8 * k) (8 * n) = y.extractLsb' 0 (8 * n) := by
  ext i hi
  have hb := congrArg (BitVec.getLsbD · (i % 8)) (h (i / 8) (by omega))
  simp only [BitVec.getLsbD_extractLsb', show i % 8 < 8 by omega, decide_true, Bool.true_and] at hb
  rw [BitVec.getElem_extractLsb', BitVec.getElem_extractLsb', Nat.zero_add]
  rwa [show 8 * (k + i / 8) + i % 8 = 8 * k + i by omega, show 8 * (i / 8) + i % 8 = i by omega] at hb

-- Two words agree under a mask when they agree on its bits.
theorem and_eq_and_iff (x y m : BitVec w) :
    x &&& m = y &&& m ↔ ∀ i < w, m.getLsbD i = true → x.getLsbD i = y.getLsbD i := by
  constructor
  · intro h i _ hm
    have hb := congrArg (BitVec.getLsbD · i) h
    simpa [hm] using hb
  · intro h
    refine BitVec.eq_of_getLsbD_eq fun i hi => ?_
    rw [BitVec.getLsbD_and, BitVec.getLsbD_and]
    cases hm : m.getLsbD i with
    | false => simp
    | true => rw [h i hi hm]

-- Clearing the lowest bit.

theorem and_not_one_eq_iff (x : BitVec w) : x &&& ~~~1#w = x ↔ x.getLsbD 0 = false := by
  constructor
  · intro h
    rw [← h]
    simp
  · intro h
    refine BitVec.eq_of_getLsbD_eq fun i hi => ?_
    rw [BitVec.getLsbD_and, BitVec.getLsbD_not, BitVec.getLsbD_one]
    by_cases h0 : i = 0
    · subst h0
      rw [h, Bool.false_and]
    · simp [h0, hi]

theorem and_not_one_ne_add (x y : BitVec w) (hy : y ≠ 0#w) (h0 : y.getLsbD 0 = false) :
    x &&& ~~~1#w ≠ x + y := by
  intro h
  cases hb : x.getLsbD 0 with
  | false =>
    rw [(and_not_one_eq_iff x).mpr hb] at h
    exact hy (left_eq_add.mp h)
  | true =>
    have hw : 0 < w := BitVec.lt_of_getLsbD hb
    have hl := congrArg (fun v => v.getLsbD 0) h
    rw [BitVec.getLsbD_add hw, hb, h0, BitVec.carry_zero] at hl
    simp at hl

-- A counter in two halves: the low half carries when it is all ones.
theorem append_add_one {v : Nat} (x : BitVec w) (y : BitVec v) :
    (x ++ y) + 1#(w + v) = (if y = BitVec.allOnes v then x + 1#w else x) ++ (y + 1#v) := by
  have hy := y.isLt
  have hx := x.isLt
  have hcat (a : BitVec w) (b : BitVec v) : (a ++ b).toNat = a.toNat * 2 ^ v + b.toNat := by
    rw [BitVec.toNat_append, ← Nat.shiftLeft_add_eq_or_of_lt b.isLt, Nat.shiftLeft_eq]
  apply BitVec.eq_of_toNat_eq
  rw [BitVec.toNat_add, hcat, hcat, BitVec.toNat_add, BitVec.toNat_ofNat, BitVec.toNat_ofNat,
    Nat.add_mod_mod, Nat.add_mod_mod]
  by_cases h : y = BitVec.allOnes v
  · have hyv : y.toNat + 1 = 2 ^ v := by
      rw [h, BitVec.toNat_allOnes]
      omega
    rw [if_pos h, Nat.add_assoc, hyv, Nat.mod_self, Nat.add_zero, BitVec.toNat_add,
      BitVec.toNat_ofNat, Nat.add_mod_mod, Nat.pow_add, ← Nat.succ_mul, Nat.mul_mod_mul_right]
  · have hyv : y.toNat + 1 < 2 ^ v := by
      have hne : y.toNat ≠ 2 ^ v - 1 := fun he =>
        h (BitVec.eq_of_toNat_eq (he.trans BitVec.toNat_allOnes.symm))
      omega
    have hlt : x.toNat * 2 ^ v + y.toNat + 1 < 2 ^ (w + v) := by
      rw [Nat.pow_add]
      calc
        x.toNat * 2 ^ v + y.toNat + 1 < (x.toNat + 1) * 2 ^ v := by rw [Nat.succ_mul]; omega
        _ ≤ 2 ^ w * 2 ^ v := Nat.mul_le_mul_right _ hx
    rw [if_neg h, Nat.mod_eq_of_lt hlt, Nat.mod_eq_of_lt hyv, Nat.add_assoc]

-- A word by its two halves.
theorem eq_append_iff {v : Nat} (a : BitVec (w + v)) (x : BitVec w) (y : BitVec v) :
    a = x ++ y ↔ a.extractLsb' v w = x ∧ a.extractLsb' 0 v = y := by
  constructor
  · rintro rfl
    constructor
    · rw [BitVec.extractLsb'_append_eq_of_le (Nat.le_refl v)]
      simp
    · rw [BitVec.extractLsb'_append_eq_of_add_le (by omega)]
      simp
  · rintro ⟨rfl, rfl⟩
    refine BitVec.eq_of_getLsbD_eq fun i hi => ?_
    rw [BitVec.getLsbD_append, BitVec.getLsbD_extractLsb', BitVec.getLsbD_extractLsb']
    by_cases h : i < v
    · simp [h]
    · rw [if_neg h, decide_eq_true (show i - v < w by omega), Nat.add_sub_cancel' (by omega)]
      rfl

end HiCore.Word
