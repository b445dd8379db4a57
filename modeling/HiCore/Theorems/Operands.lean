import HiCore.Trace.Entries
import HiCore.Trace.Program

-- The scoreboard: an instruction reads its registers in decode, and they keep
-- their values until it commits.
namespace HiCore.Run

open SlotState

variable (r : Run)

-- The instruction in decode in cycle `d` needs register `x`.
def Reads (d : Nat) (x : BitVec 5) : Prop :=
  ((r.st d).rs1Need = true ∧ Decode.rs1Idx (r.st d).if2de.intr = x) ∨
    ((r.st d).rs2Need = true ∧ Decode.rs2Idx (r.st d).if2de.intr = x)

-- Register `x` will not change before slot `n` commits.
structure Stable (t : Nat) (n : BitVec 4) (x : BitVec 5) : Prop where
  value : (r.st t).regfile.read x = (r.st (r.owner t n)).regfile.read x
  older : ∀ m ∈ (r.st t).rob.window, r.owner t m < r.owner t n → x ≠ 0#5 →
    ((r.st t).rob.issue m).rdIdx ≠ x

theorem anySlot_eq_false (f : BitVec 4 → Bool) (h : Rob.anySlot f = false) (n : BitVec 4) :
    f n = false := by
  rw [Rob.anySlot, List.any_eq_false] at h
  have hn := h n.toNat (List.mem_range.mpr n.isLt)
  rwa [BitVec.ofNat_toNat, BitVec.setWidth_eq, Bool.not_eq_true] at hn

-- An instruction that depends on a live entry does not leave decode.
theorem not_rdIdx_of_robWen (d : Nat) (x : BitVec 5) (hw : (r.st d).robWen = true)
    (hr : r.Reads d x) (m : BitVec 4) (hm : m ∈ (r.st d).rob.window) (hx : x ≠ 0#5) :
    ((r.st d).rob.issue m).rdIdx ≠ x := by
  have hs : (r.st d).rob.state m ≠ EMPTY_S := ((r.wf d).live m).mpr hm
  simp only [Cpu.robWen, Cpu.deValid, Cpu.dep, Decode.dep, Cpu.depend, Rob.deDepend,
    Bool.and_eq_true, Bool.not_eq_true', Bool.or_eq_false_iff] at hw
  obtain ⟨⟨⟨⟨-, ⟨⟨⟨⟨h1, h2⟩, -⟩, -⟩, -⟩⟩, -⟩, -⟩, -⟩ := hw
  intro he
  rcases hr with ⟨hn, hi⟩ | ⟨hn, hi⟩
  · have := anySlot_eq_false _ h1 m
    simp [Rob.rsDepend, hn, hi, hs, he, hx] at this
  · have := anySlot_eq_false _ h2 m
    simp [Rob.rsDepend, hn, hi, hs, he, hx] at this

-- A commit changes no register but the one it names.
theorem read_succ (t : Nat) (x : BitVec 5)
    (h : (r.st t).commits = true → x ≠ 0#5 → ((r.st t).rob.issue (r.st t).rob.head).rdIdx ≠ x) :
    (r.st (t + 1)).regfile.read x = (r.st t).regfile.read x := by
  change ((r.st t).regfile.next _ _ _).read x = _
  by_cases hx : x = 0#5
  · simp [Regfile.read, hx]
  · have hen : (x != 0#5 && (r.st t).regWen &&
        ((r.st t).rob.issue (r.st t).rob.head).rdIdx == x) = false := by
      cases hw : (r.st t).regWen with
      | false => simp
      | true =>
        have hc : (r.st t).commits = true := by
          simp only [Cpu.regWen, Commit.regWen, Bool.and_eq_true] at hw
          exact hw.1.1
        simp [h hc hx]
    simp only [Regfile.read, Regfile.next, hen, dfflr_false]

theorem stable_fresh (t : Nat) (hw : (r.st t).robWen = true) (x : BitVec 5) (hr : r.Reads t x) :
    r.Stable (t + 1) (r.st t).rob.tail x := by
  have ho := r.owner_tail t hw
  refine ⟨?_, ?_⟩
  · rw [ho]
    refine r.read_succ t x fun hc hx => ?_
    exact r.not_rdIdx_of_robWen t x hw hr _ (r.head_mem t hc) hx
  · intro m hm hlt hx
    rw [ho] at hlt
    obtain ⟨-, ⟨hm', -⟩ | ⟨-, rfl⟩⟩ := r.mem_window_succ t m hm
    · rw [r.issue_owner _ m hm, r.owner_succ t m hm', ← r.issue_owner _ m hm']
      exact r.not_rdIdx_of_robWen t x hw hr m hm' hx
    · omega

theorem stable_kept (t : Nat) (n : BitVec 4) (x : BitVec 5) (hm : n ∈ (r.st t).rob.window)
    (hn : ¬((r.st t).commits = true ∧ n = (r.st t).rob.head)) (hs : r.Stable t n x) :
    r.Stable (t + 1) n x := by
  have ho := r.owner_succ t n hm
  refine ⟨?_, ?_⟩
  · rw [ho, ← hs.value]
    -- What commits is older than `n`, so it does not name `x`.
    refine r.read_succ t x fun hc hx => ?_
    have hh := r.head_mem t hc
    exact hs.older _ hh (r.owner_head_lt t n hm fun he => hn ⟨hc, he⟩) hx
  · intro m hm' hlt hx
    rw [ho] at hlt
    obtain ⟨-, ⟨hmt, -⟩ | ⟨hw, rfl⟩⟩ := r.mem_window_succ t m hm'
    · rw [r.owner_succ t m hmt] at hlt
      rw [r.issue_owner _ m hm', r.owner_succ t m hmt, ← r.issue_owner _ m hmt]
      exact hs.older m hmt hlt hx
    · rw [r.owner_tail t hw] at hlt
      have := r.owner_lt t n hm
      omega

theorem stable (t : Nat) (n : BitVec 4) (hm : n ∈ (r.st t).rob.window) (x : BitVec 5)
    (hr : r.Reads (r.owner t n) x) : r.Stable t n x := by
  induction t with
  | zero => simp [st, Cpu.reset, Rob.reset, Rob.window] at hm
  | succ t ih =>
    obtain ⟨-, ⟨hm', hn⟩ | ⟨hw, rfl⟩⟩ := r.mem_window_succ t n hm
    · rw [r.owner_succ t n hm'] at hr
      exact r.stable_kept t n x hm' hn (ih hm' hr)
    · rw [r.owner_tail t hw] at hr
      exact r.stable_fresh t hw x hr

-- Register `x` keeps its value from cycle `d` up to cycle `c`, and no commit in
-- between writes it.
def Unwritten (d c : Nat) (x : BitVec 5) : Prop :=
  (r.st c).regfile.read x = (r.st d).regfile.read x ∧
    ∀ t, d ≤ t → t < c → (r.st t).regWen = true →
      ((r.st t).rob.issue (r.st t).rob.head).rdIdx = x → x = 0#5

theorem unwritten_of_reads (d c : Nat) (x : BitVec 5) (hc : (r.st c).commits = true)
    (ho : r.owner c (r.st c).rob.head = d) (hr : r.Reads d x) : r.Unwritten d c x := by
  have hm := r.head_mem c hc
  refine ⟨ho ▸ (r.stable c _ hm x (ho ▸ hr)).value, fun t hdt htc hw he => ?_⟩
  by_contra hx
  have hct : (r.st t).commits = true := by
    simp only [Cpu.regWen, Commit.regWen, Bool.and_eq_true] at hw
    exact hw.1.1
  -- The writer was in the reorder buffer when the reader was decoded.
  obtain ⟨hmt, hi⟩ := r.head_at_decode t c hc hct (ho ▸ hdt) htc
  rw [ho] at hmt hi
  refine r.not_rdIdx_of_robWen d x (ho ▸ r.robWen_owner c _ hm) hr _ hmt hx ?_
  rwa [hi] at he

theorem operands_architectural (r : Run) (d c : Nat) (hc : (r.st c).commits = true)
    (ho : r.owner c (r.st c).rob.head = d) :
    ((r.st d).rs1Need = true → r.Unwritten d c (Decode.rs1Idx (r.st d).if2de.intr)) ∧
      ((r.st d).rs2Need = true → r.Unwritten d c (Decode.rs2Idx (r.st d).if2de.intr)) ∧
      (Decode.branchIn (r.st d).operands).readSrc1Dat =
        (r.st d).regfile.read (Decode.rs1Idx (r.st d).if2de.intr) ∧
      (Decode.branchIn (r.st d).operands).readSrc2Dat =
        (r.st d).regfile.read (Decode.rs2Idx (r.st d).if2de.intr) :=
  ⟨fun hn => r.unwritten_of_reads d c _ hc ho (.inl ⟨hn, rfl⟩),
    fun hn => r.unwritten_of_reads d c _ hc ho (.inr ⟨hn, rfl⟩), rfl, rfl⟩

theorem operands_storeLoad : storeLoad.Unwritten 6 10 2#5 ∧ storeLoad.Unwritten 6 10 1#5 := by
  obtain ⟨h1, h2, -⟩ := operands_architectural storeLoad 6 10 (by decide +kernel) (by decide +kernel)
  exact ⟨h1 (by decide +kernel), h2 (by decide +kernel)⟩

end HiCore.Run
