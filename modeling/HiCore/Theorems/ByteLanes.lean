import HiCore.Lib.Word
import HiCore.Refine.Encoding
import HiCore.Theorems.Stores
import HiCore.Theorems.Tcm

-- The byte lanes of a word: where a store puts its bytes, where a load finds
-- them, and what becomes of accesses that are not aligned.
namespace HiCore.Agu

open Issue (Agu)
open Isa (StoreOp LoadOp)

structure IsStore (a : Agu) (op : StoreOp) : Prop where
  storeOp : a.storeOp = true
  loadOp : a.loadOp = false
  msg : a.aguMsg = op.funct3

structure IsLoad (a : Agu) (op : LoadOp) : Prop where
  loadOp : a.loadOp = true
  storeOp : a.storeOp = false
  msg : a.aguMsg = op.funct3

-- The first byte of an access, within its word.
def lane (a : Agu) : Nat := (addr a).toNat % 4

def Aligned (size : Nat) (a : Agu) : Prop := (addr a).toNat % size = 0

-- What the LSU writes back of a word for a load.
def loaded (a : Agu) (w : BitVec 32) : BitVec 32 :=
  Lsu.rdData (Lsu.iMemQueueInfo (iAgu2lsuInfo a)) w

-- What a store leaves of a word.
def stored (a : Agu) (w : BitVec 32) : BitVec 32 := SimRam.merge (wmask a) (wdata a) w

variable (a : Agu)

theorem toNat_low : ((addr a).extractLsb' 0 2).toNat = lane a := by
  rw [BitVec.extractLsb'_toNat, lane, Nat.shiftRight_zero]

theorem low_high : (addr a).extractLsb' 1 1 = ((addr a).extractLsb' 0 2).extractLsb' 1 1 := by
  rw [BitVec.extractLsb'_extractLsb'_of_le (by omega)]

-- Stores.

theorem getLsbD_wmask (op : StoreOp) (h : a.aguMsg = op.funct3) (ha : Aligned op.size a) (j : Fin 4) :
    (wmask a).getLsbD j = decide (lane a ≤ j ∧ j < lane a + op.size) := by
  have hl := toNat_low a
  rw [wmask, byteAccess, shortAccess, wordAccess, h, low_high]
  rw [Aligned] at ha
  generalize hx : (addr a).extractLsb' 0 2 = x at hl ⊢
  rw [← hl]
  cases op with
  | sb =>
    clear ha hl hx
    revert x j
    decide
  | sh =>
    have hx2 : x.toNat % 2 = 0 := by
      rw [lane] at hl
      have : (addr a).toNat % 2 = 0 := ha
      omega
    clear ha hl hx
    revert x j
    decide
  | sw =>
    have hx4 : x.toNat = 0 := by
      rw [hl]
      exact ha
    clear ha hl hx
    revert x j
    decide

theorem byte_wdata (op : StoreOp) (h : a.aguMsg = op.funct3) (ha : Aligned op.size a) (j : Nat)
    (hj : j < 4) (h1 : lane a ≤ j) (h2 : j < lane a + op.size) :
    (wdata a).extractLsb' (8 * j) 8 = a.aguSrc3.extractLsb' (8 * (j - lane a)) 8 := by
  cases op with
  | sb =>
    have hd : wdata a = a.aguSrc3.extractLsb' 0 8 ++ a.aguSrc3.extractLsb' 0 8 ++
        a.aguSrc3.extractLsb' 0 8 ++ a.aguSrc3.extractLsb' 0 8 := by
      simp [wdata, byteAccess, shortAccess, wordAccess, h, StoreOp.funct3]
    obtain rfl : j = lane a := by
      have : j < lane a + 1 := h2
      omega
    rw [hd, Nat.sub_self]
    exact Word.extractLsb'_bytes (fun _ => a.aguSrc3.extractLsb' 0 8) _ hj
  | sh =>
    have hd : wdata a = a.aguSrc3.extractLsb' 0 16 ++ a.aguSrc3.extractLsb' 0 16 := by
      simp [wdata, byteAccess, shortAccess, wordAccess, h, StoreOp.funct3]
    have hk : j - lane a = j % 2 := by
      have h3 : j < lane a + 2 := h2
      have h4 : (addr a).toNat % 2 = 0 := ha
      rw [lane] at h1 h3 ⊢
      omega
    rw [hd, hk, Word.extractLsb'_halves _ _ hj, BitVec.extractLsb'_extractLsb'_of_le (by omega)]
  | sw =>
    have hd : wdata a = a.aguSrc3 := by
      simp [wdata, byteAccess, shortAccess, wordAccess, h, StoreOp.funct3]
    have hl : lane a = 0 := ha
    rw [hd, hl, Nat.sub_zero]

-- Exactly the addressed bytes change, to the low bytes of the value.
theorem byte_stored (op : StoreOp) (h : IsStore a op) (ha : Aligned op.size a) (w : BitVec 32)
    (j : Nat) (hj : j < 4) : (stored a w).extractLsb' (8 * j) 8 =
      if lane a ≤ j ∧ j < lane a + op.size then a.aguSrc3.extractLsb' (8 * (j - lane a)) 8
      else w.extractLsb' (8 * j) 8 := by
  have hm := getLsbD_wmask a op h.msg ha ⟨j, hj⟩
  rw [stored, SimRam.extractLsb'_merge _ _ _ _ hj, SimRam.byte, hm]
  by_cases hl : lane a ≤ j ∧ j < lane a + op.size
  · rw [if_pos hl, decide_eq_true hl, if_pos rfl, byte_wdata a op h.msg ha j hj hl.1 hl.2]
  · rw [if_neg hl, decide_eq_false hl, if_neg Bool.false_ne_true]

-- Loads.

theorem rep_append_eq_signExtend {w : Nat} (n : Nat) (x : BitVec w) :
    rep n x.msb ++ x = x.signExtend (n + w) := by
  ext i hi
  rw [BitVec.getElem_append, BitVec.getElem_signExtend]
  by_cases h : i < w
  · rw [dif_pos h, dif_pos h]
  · rw [dif_neg h, dif_neg h, Decode.getElem_rep]

theorem rspRdataAlgn_eq (w : BitVec 32) :
    Lsu.rspRdataAlgn (Lsu.iMemQueueInfo (iAgu2lsuInfo a)) w = w >>> (8 * lane a) := by
  have hs : ((addr a).extractLsb' 0 2 ++ 0#3).toNat = 8 * lane a := by
    rw [BitVec.toNat_append, toNat_low]
    simp [Nat.shiftLeft_eq, Nat.mul_comm]
  rw [← hs]
  rfl

-- One of the five forms is chosen by the size and the sign of the load.
theorem loaded_form (op : LoadOp) (h : IsLoad a op) (w : BitVec 32) : loaded a w =
    match op with
    | .lbu => 0#24 ++ w.extractLsb' (8 * lane a) 8
    | .lb => rep 24 (w.extractLsb' (8 * lane a) 8).msb ++ w.extractLsb' (8 * lane a) 8
    | .lhu => 0#16 ++ w.extractLsb' (8 * lane a) 16
    | .lh => rep 16 (w.extractLsb' (8 * lane a) 16).msb ++ w.extractLsb' (8 * lane a) 16
    | .lw => w >>> (8 * lane a) := by
  have hb : (Lsu.iMemQueueInfo (iAgu2lsuInfo a)).byteAccess = (op.funct3.extractLsb' 0 2 == 0b00#2) := by
    rw [← h.msg]
    rfl
  have hs : (Lsu.iMemQueueInfo (iAgu2lsuInfo a)).shortAccess =
      (op.funct3.extractLsb' 0 2 == 0b01#2) := by
    rw [← h.msg]
    rfl
  have hw : (Lsu.iMemQueueInfo (iAgu2lsuInfo a)).wordAccess = (op.funct3.extractLsb' 0 2 == 0b10#2) := by
    rw [← h.msg]
    rfl
  have hu : (Lsu.iMemQueueInfo (iAgu2lsuInfo a)).isUnsigned = op.funct3.getLsbD 2 := by
    change (a.loadOp && a.aguMsg.getLsbD 2) = _
    rw [h.loadOp, h.msg, Bool.true_and]
  have h8 : (w >>> (8 * lane a)).getLsbD 7 = (w.extractLsb' (8 * lane a) 8).msb := by
    rw [← Word.extractLsb'_ushiftRight, BitVec.msb_eq_getLsbD_last, BitVec.getLsbD_extractLsb']
    rfl
  have h16 : (w >>> (8 * lane a)).getLsbD 15 = (w.extractLsb' (8 * lane a) 16).msb := by
    rw [← Word.extractLsb'_ushiftRight, BitVec.msb_eq_getLsbD_last, BitVec.getLsbD_extractLsb']
    rfl
  rw [loaded, Lsu.rdData, rspRdataAlgn_eq, hb, hs, hw, hu, h8, h16, Word.extractLsb'_ushiftRight,
    Word.extractLsb'_ushiftRight]
  cases op <;> simp [LoadOp.funct3]

theorem loaded_eq (op : LoadOp) (h : IsLoad a op) (ha : Aligned op.size a) (w : BitVec 32) :
    loaded a w = op.value w (lane a) := by
  rw [loaded_form a op h]
  cases op with
  | lbu => exact (BitVec.setWidth_eq_append (by omega)).symm
  | lhu => exact (BitVec.setWidth_eq_append (by omega)).symm
  | lb => exact rep_append_eq_signExtend 24 _
  | lh => exact rep_append_eq_signExtend 16 _
  | lw =>
    have hl : lane a = 0 := ha
    simp [LoadOp.value, LoadOp.isUnsigned, LoadOp.size, hl]

-- A load finds what a store of its size has put there.
theorem loaded_stored (b : Agu) (sop : StoreOp) (lop : LoadOp) (hs : IsStore a sop)
    (hl : IsLoad b lop) (hsize : lop.size = sop.size) (haddr : addr b = addr a)
    (ha : Aligned sop.size a) (w : BitVec 32) :
    loaded b (stored a w) = lop.value a.aguSrc3 0 := by
  have hlane : lane b = lane a := by rw [lane, lane, haddr]
  have hb : Aligned lop.size b := by
    rw [Aligned, haddr, hsize]
    exact ha
  have hroom : lane a + sop.size ≤ 4 := by
    rw [Aligned] at ha
    rw [lane]
    cases sop <;> simp only [StoreOp.size] at ha ⊢ <;> omega
  have he : (stored a w).extractLsb' (8 * lane a) (8 * lop.size) =
      a.aguSrc3.extractLsb' 0 (8 * lop.size) := by
    refine Word.extractLsb'_eq_of_bytes _ _ _ _ fun j hj => ?_
    rw [byte_stored a sop hs ha w (lane a + j) (by omega), if_pos (by omega), Nat.add_sub_cancel_left]
  rw [loaded_eq b lop hl hb, LoadOp.value, LoadOp.value, hlane, he]

-- Accesses that are not aligned.

-- The low bits of `agu_msg` are the logarithm of the size.
theorem memAddrErr_iff (size : Nat) (h : (a.aguMsg.extractLsb' 0 2 = 0b00#2 ∧ size = 1) ∨
      (a.aguMsg.extractLsb' 0 2 = 0b01#2 ∧ size = 2) ∨
      (a.aguMsg.extractLsb' 0 2 = 0b10#2 ∧ size = 4)) :
    memAddrErr a = true ↔ ¬ Aligned size a := by
  have h0 : (addr a).getLsbD 0 = ((addr a).extractLsb' 0 2).getLsbD 0 := by simp
  have hl := toNat_low a
  rw [lane] at hl
  rw [memAddrErr, wordErr, shortErr, wordAccess, shortAccess, h0, Aligned]
  generalize (addr a).extractLsb' 0 2 = x at hl ⊢
  rcases h with ⟨hm, rfl⟩ | ⟨hm, rfl⟩ | ⟨hm, rfl⟩
  · rw [hm]
    simp [Nat.mod_one]
  · have key : ∀ x : BitVec 2, (((0b01#2 == 0b10#2 && !(x == 0#2)) || (0b01#2 == 0b01#2 && x.getLsbD 0)) =
        true) ↔ ¬ x.toNat % 2 = 0 := by decide
    rw [hm, key, hl]
    omega
  · have key : ∀ x : BitVec 2, (((0b10#2 == 0b10#2 && !(x == 0#2)) || (0b10#2 == 0b01#2 && x.getLsbD 0)) =
        true) ↔ ¬ x.toNat = 0 := by decide
    rw [hm, key, hl]

theorem memAddrErr_of_store (op : StoreOp) (h : IsStore a op) (hn : ¬ Aligned op.size a) :
    memAddrErr a = true := by
  refine (memAddrErr_iff a op.size ?_).mpr hn
  rw [h.msg]
  cases op <;> decide

theorem memAddrErr_of_load (op : LoadOp) (h : IsLoad a op) (hn : ¬ Aligned op.size a) :
    memAddrErr a = true := by
  refine (memAddrErr_iff a op.size ?_).mpr hn
  rw [h.msg]
  cases op <;> decide

theorem getLsbD_excp : (excp a).getLsbD 6 =
      (a.aguInfo.wb.excp.getLsbD 6 || (memAddrErr a && a.storeOp)) ∧
    (excp a).getLsbD 4 = (a.aguInfo.wb.excp.getLsbD 4 || (memAddrErr a && a.loadOp)) := by
  rw [excp, getLsbD_or_excp, getLsbD_or_excp]
  simp

-- An access with an exception goes to the exception queue of the LSU and not to
-- the bus.
theorem not_sends_of_excp (i : Nat) (h : (excp a).getLsbD i = true) (r : Run) (d u : Nat)
    (hd : Issue.agu (r.info d) = a) : ¬ r.Sends u d := by
  intro hs
  have he : Lsu.hasExcp (r.aguOf d) = false := hs.cmd.1.2
  have hz : excp a = 0#16 := by
    rw [Lsu.hasExcp, Bool.not_eq_false', beq_iff_eq, Run.aguOf, hd] at he
    exact he
  rw [hz, BitVec.getLsbD_zero] at h
  exact Bool.noConfusion h

theorem byte_lanes (a b : Agu) (sop : StoreOp) (lop : LoadOp) (hs : IsStore a sop)
    (hl : IsLoad b lop) :
    (Aligned sop.size a → ∀ w j, j < 4 → (stored a w).extractLsb' (8 * j) 8 =
      if lane a ≤ j ∧ j < lane a + sop.size then a.aguSrc3.extractLsb' (8 * (j - lane a)) 8
      else w.extractLsb' (8 * j) 8) ∧
    (Aligned lop.size b → ∀ w, loaded b w = lop.value w (lane b)) ∧
    (Aligned sop.size a → lop.size = sop.size → addr b = addr a →
      ∀ w, loaded b (stored a w) = lop.value a.aguSrc3 0) ∧
    (¬ Aligned sop.size a → (iAgu2lsuInfo a).info.wb.excp.getLsbD 6 = true ∧
      ∀ (r : Run) (d u : Nat), Issue.agu (r.info d) = a → ¬ r.Sends u d) ∧
    (¬ Aligned lop.size b → (iAgu2lsuInfo b).info.wb.excp.getLsbD 4 = true ∧
      ∀ (r : Run) (d u : Nat), Issue.agu (r.info d) = b → ¬ r.Sends u d) := by
  refine ⟨fun ha => byte_stored a sop hs ha, fun hb => loaded_eq b lop hl hb,
    fun ha hsize haddr => loaded_stored a b sop lop hs hl hsize haddr ha, fun ha => ?_, fun hb => ?_⟩
  · have he : (excp a).getLsbD 6 = true := by
      rw [(getLsbD_excp a).1, memAddrErr_of_store a sop hs ha, hs.storeOp, Bool.true_and, Bool.or_true]
    exact ⟨he, not_sends_of_excp a 6 he⟩
  · have he : (excp b).getLsbD 4 = true := by
      rw [(getLsbD_excp b).2, memAddrErr_of_load b lop hl hb, hl.loadOp, Bool.true_and, Bool.or_true]
    exact ⟨he, not_sends_of_excp b 4 he⟩

-- `sh` of 0xBEEF to the upper half of a word of ones, and the `lh` that follows.
def shHigh : Agu where
  storeOp := true
  loadOp := false
  aguMsg := 0b001#3
  aguSrc3 := 0xBEEF#32
  aguSrc2 := 0x80000000#32
  aguSrc1 := 2#32
  aguInfo := default

theorem byte_lanes_half :
    loaded { shHigh with storeOp := false, loadOp := true } (stored shHigh 0xFFFFFFFF#32) =
      0xFFFFBEEF#32 := by
  have h := (byte_lanes shHigh { shHigh with storeOp := false, loadOp := true } .sh .lh
    ⟨rfl, rfl, rfl⟩ ⟨rfl, rfl, rfl⟩).2.2.1 (by rw [Aligned]; decide) rfl rfl 0xFFFFFFFF#32
  exact h.trans (by decide)

end HiCore.Agu
