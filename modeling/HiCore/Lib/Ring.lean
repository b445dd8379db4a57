import HiCore.Lib.Fifo
import Mathlib.Data.BitVec
import Mathlib.Data.List.Nodup
import Mathlib.Data.List.Range
import Mathlib.Tactic.Ring

-- Circular buffers of `2 ^ k` slots addressed by two pointers of `k + 1` bits.
-- The extra bit tells a full buffer from an empty one.
namespace HiCore.Ring

variable {k : Nat}

def slot (p : BitVec (k + 1)) : BitVec k := p.setWidth k

def count (rd wr : BitVec (k + 1)) : Nat := (wr - rd).toNat

-- The occupied slots, oldest first.
def window (rd wr : BitVec (k + 1)) : List (BitVec k) :=
  (List.range (count rd wr)).map fun i => slot (rd + BitVec.ofNat (k + 1) i)

def isEmpty (rd wr : BitVec (k + 1)) : Bool := rd == wr

def isFull (rd wr : BitVec (k + 1)) : Bool :=
  (rd.getLsbD k ^^ wr.getLsbD k) && (slot rd == slot wr)

@[simp] theorem count_self (p : BitVec (k + 1)) : count p p = 0 := by
  simp [count]

theorem count_lt (rd wr : BitVec (k + 1)) : count rd wr < 2 ^ (k + 1) := (wr - rd).isLt

theorem add_count (rd wr : BitVec (k + 1)) :
    rd + BitVec.ofNat (k + 1) (count rd wr) = wr := by
  rw [count, BitVec.ofNat_toNat, BitVec.setWidth_eq]
  ring

theorem toNat_add_one (p : BitVec (k + 1)) (h : p.toNat + 1 < 2 ^ (k + 1)) :
    (p + 1#(k + 1)).toNat = p.toNat + 1 := by
  rw [BitVec.toNat_add, BitVec.toNat_ofNat, Nat.add_mod_mod, Nat.mod_eq_of_lt h]

theorem count_push (rd wr : BitVec (k + 1)) (h : count rd wr < 2 ^ k) :
    count rd (wr + 1#(k + 1)) = count rd wr + 1 := by
  have he : wr + 1#(k + 1) - rd = (wr - rd) + 1#(k + 1) := by ring
  have hp := Nat.two_pow_pos k
  rw [count, he]
  refine toNat_add_one _ ?_
  rw [Nat.pow_succ]
  simp only [count] at h
  omega

theorem count_pop (rd wr : BitVec (k + 1)) (h : 0 < count rd wr) :
    count (rd + 1#(k + 1)) wr + 1 = count rd wr := by
  have he : wr - rd = (wr - (rd + 1#(k + 1))) + 1#(k + 1) := by ring
  have hlt := count_lt (rd + 1#(k + 1)) wr
  simp only [count] at h hlt ⊢
  by_cases hw : (wr - (rd + 1#(k + 1))).toNat + 1 = 2 ^ (k + 1)
  · rw [he, BitVec.toNat_add, BitVec.toNat_ofNat, Nat.add_mod_mod, hw, Nat.mod_self] at h
    omega
  · rw [he, toNat_add_one _ (by omega)]

@[simp] theorem window_self (p : BitVec (k + 1)) : window p p = [] := by
  simp [window]

@[simp] theorem length_window (rd wr : BitVec (k + 1)) :
    (window rd wr).length = count rd wr := by
  simp [window]

theorem window_push (rd wr : BitVec (k + 1)) (h : count rd wr < 2 ^ k) :
    window rd (wr + 1#(k + 1)) = window rd wr ++ [slot wr] := by
  simp only [window, count_push rd wr h, List.range_succ, List.map_append, List.map_cons,
    List.map_nil, add_count]

theorem window_pop (rd wr : BitVec (k + 1)) (h : 0 < count rd wr) :
    window rd wr = slot rd :: window (rd + 1#(k + 1)) wr := by
  simp only [window, ← count_pop rd wr h, List.range_succ_eq_map, List.map_cons, List.map_map]
  congr 1
  · simp
  · apply List.map_congr_left
    intro i _
    simp only [Function.comp_apply, Nat.succ_eq_add_one, BitVec.ofNat_add]
    congr 1
    ring

-- One cycle of a buffer: the pointers that move, and the slots that are then
-- occupied.
theorem window_step (rd wr : BitVec (k + 1)) (pop push : Bool)
    (hpop : pop = true → 0 < count rd wr) (hpush : push = true → count rd wr < 2 ^ k) :
    window (if pop then rd + 1#(k + 1) else rd) (if push then wr + 1#(k + 1) else wr) =
      Fifo.shift pop (if push then [slot wr] else []) (window rd wr) := by
  cases pop with
  | false =>
    cases push with
    | false => simp
    | true => simpa using window_push rd wr (hpush rfl)
  | true =>
    cases push with
    | false => simp [window_pop rd wr (hpop rfl)]
    | true =>
      have hc := count_push rd wr (hpush rfl)
      have hd := window_pop rd (wr + 1#(k + 1)) (by omega)
      simp only [if_true, Fifo.shift]
      rw [← window_push rd wr (hpush rfl), hd, List.tail_cons]

-- Two offsets that fall on one slot differ by a multiple of the capacity.
theorem slot_add_inj (p : BitVec (k + 1)) (i j : Nat) (hi : i < 2 ^ k) (hj : j < 2 ^ k)
    (h : slot (p + BitVec.ofNat (k + 1) i) = slot (p + BitVec.ofNat (k + 1) j)) : i = j := by
  have hd : 2 ^ k ∣ 2 ^ (k + 1) := ⟨2, by rw [Nat.pow_succ]⟩
  have hn := congrArg BitVec.toNat h
  simp only [slot, BitVec.toNat_setWidth, BitVec.toNat_add, BitVec.toNat_ofNat,
    Nat.add_mod_mod, Nat.mod_mod_of_dvd _ hd] at hn
  have hm : i % 2 ^ k = j % 2 ^ k := Nat.ModEq.add_left_cancel' p.toNat hn
  rwa [Nat.mod_eq_of_lt hi, Nat.mod_eq_of_lt hj] at hm

theorem window_nodup (rd wr : BitVec (k + 1)) (h : count rd wr ≤ 2 ^ k) :
    (window rd wr).Nodup := by
  refine List.Nodup.map_on ?_ List.nodup_range
  intro i hi j hj he
  rw [List.mem_range] at hi hj
  exact slot_add_inj rd i j (by omega) (by omega) he

theorem slot_notMem_window (rd wr : BitVec (k + 1)) (h : count rd wr < 2 ^ k) :
    slot wr ∉ window rd wr := by
  have hc := count_push rd wr h
  have hn := window_nodup rd (wr + 1#(k + 1)) (by omega)
  rw [window_push rd wr h] at hn
  exact fun hm => (List.nodup_append.mp hn).2.2 _ hm _ (by simp) rfl

theorem isEmpty_iff (rd wr : BitVec (k + 1)) : isEmpty rd wr = true ↔ count rd wr = 0 := by
  rw [isEmpty, beq_iff_eq]
  constructor
  · rintro rfl
    simp
  · intro h
    have ha := add_count rd wr
    rw [h] at ha
    simpa using ha

theorem isEmpty_iff_window (rd wr : BitVec (k + 1)) :
    isEmpty rd wr = true ↔ window rd wr = [] := by
  rw [isEmpty_iff, ← length_window, List.length_eq_zero_iff]

theorem getLsbD_top (p : BitVec (k + 1)) : p.getLsbD k = decide (2 ^ k ≤ p.toNat) := by
  have h := BitVec.msb_eq_decide p
  rwa [BitVec.msb_eq_getLsbD_last] at h

theorem mod_two_pow_of_le (n : Nat) (hl : 2 ^ k ≤ n) (hu : n < 2 ^ (k + 1)) :
    n % 2 ^ k = n - 2 ^ k := by
  rw [Nat.pow_succ] at hu
  rw [Nat.mod_eq_sub_mod hl, Nat.mod_eq_of_lt (by omega)]

-- The wrap bits differ and the slots agree exactly one lap apart.
theorem isFull_iff (rd wr : BitVec (k + 1)) : isFull rd wr = true ↔ count rd wr = 2 ^ k := by
  have hr := rd.isLt
  have hw := wr.isLt
  have hk : 2 ^ (k + 1) = 2 * 2 ^ k := by rw [Nat.pow_succ, Nat.mul_comm]
  have hp := Nat.two_pow_pos k
  have hc : count rd wr = if rd.toNat ≤ wr.toNat then wr.toNat - rd.toNat
      else 2 ^ (k + 1) - rd.toNat + wr.toNat := by
    rw [count, BitVec.toNat_sub]
    split
    · rw [show 2 ^ (k + 1) - rd.toNat + wr.toNat = 2 ^ (k + 1) + (wr.toNat - rd.toNat) by omega,
        Nat.add_mod_left, Nat.mod_eq_of_lt (by omega)]
    · exact Nat.mod_eq_of_lt (by omega)
  have hs : slot rd = slot wr ↔ rd.toNat % 2 ^ k = wr.toNat % 2 ^ k := by
    simp [slot, ← BitVec.toNat_inj]
  rw [isFull, Bool.and_eq_true, beq_iff_eq, hs, getLsbD_top, getLsbD_top, hc]
  by_cases ha : 2 ^ k ≤ rd.toNat <;> by_cases hb : 2 ^ k ≤ wr.toNat <;>
    simp only [ha, hb, decide_true, decide_false, Bool.xor_self, Bool.xor_true, Bool.xor_false,
      Bool.not_false, Bool.false_eq_true, false_and, true_and, false_iff]
  · split <;> omega
  · rw [mod_two_pow_of_le _ ha hr, Nat.mod_eq_of_lt (by omega)]
    split <;> omega
  · rw [mod_two_pow_of_le _ hb hw, Nat.mod_eq_of_lt (by omega)]
    split <;> omega
  · split <;> omega

end HiCore.Ring
