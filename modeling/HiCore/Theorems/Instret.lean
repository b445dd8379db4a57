import HiCore.Theorems.Issue
import HiCore.Trace.CsrPath

-- The minstret counter. It advances with every commit, trapping ones included, is read when the
-- reader issues, before older instructions have committed, and a csrr writes back what it has read.
namespace HiCore.Run

open History (times times_succ)
open Isa (CsrOp)

variable (r : Run)

-- Commits before cycle `t`, those of them without an exception, and the others.

def committed (t : Nat) : Nat := times (fun u => (r.st u).commits) t

def retired (t : Nat) : Nat :=
  times (fun u => (r.st u).commits && ((r.st u).rob.info (r.st u).rob.head).excp == 0#16) t

def trapped (t : Nat) : Nat :=
  times (fun u => (r.st u).commits && !((r.st u).rob.info (r.st u).rob.head).excp == 0#16) t

-- What the csr instructions on register `idx` that commit before cycle `t` take off a counter that
-- stands at `count`: all that it has counted since they read it.
def takenBack (idx : BitVec 12) (count : Nat → Nat) : Nat → Nat
  | 0 => 0
  | t + 1 => takenBack idx count t +
      if Csr.wr idx (r.st t).csrIn.commit
      then count (t + 1) - count (r.owner t (r.st t).rob.head + 1) else 0

-- The commits before cycle `t` with which the lower half starts again at 0.
def carried (t : Nat) : Nat :=
  times (fun u => (r.st u).commits &&
    decide (r.committed u + 1 ≡ r.takenBack Csr.minstretIdx r.committed u [MOD 2 ^ 32])) t

theorem committed_eq (t : Nat) : r.committed t = r.retired t + r.trapped t := by
  induction t with
  | zero => rfl
  | succ t ih =>
    rw [committed, retired, trapped, times_succ, times_succ, times_succ, ← committed, ← retired,
      ← trapped, ih]
    cases (r.st t).commits <;>
      cases ((r.st t).rob.info (r.st t).rob.head).excp == 0#16 <;> simp <;> omega

-- An instruction on either half commits in cycle `t`, and it is not one of the csrr forms, which
-- only read.
def WritesInstret (t : Nat) : Prop :=
  (Csr.wr Csr.minstretIdx (r.st t).csrIn.commit = true ∨
      Csr.wr Csr.minstrethIdx (r.st t).csrIn.commit = true) ∧
    ¬ ∃ d op rd idx, r.CsrCommits t d op rd 0#5 idx ∧ op ≠ .rw ∧ op ≠ .rwi

variable {r}

-- A counter that advances with `count`, and that only csrr's access, stands at the count less what
-- they have taken back.
theorem value_of_count (idx : BitVec 12) {count : Nat → Nat} {c : Nat} (hi : idx ∈ Csr.counters)
    (hv : (r.st 0).csr.value idx = 0#32) (h0 : count 0 = 0)
    (hs : ∀ t < c, count (t + 1) =
      count t + ((r.st t).csr.tick (r.st t).csrIn.commit idx).toNat)
    (hw : ∀ t < c, Csr.wr idx (r.st t).csrIn.commit = true →
      ∃ d op rd, r.CsrCommits t d op rd 0#5 idx ∧ op ≠ .rw ∧ op ≠ .rwi) (t : Nat) (ht : t ≤ c) :
    (r.st t).csr.value idx + BitVec.ofNat 32 (r.takenBack idx count t) =
      BitVec.ofNat 32 (count t) := by
  induction t using Nat.strong_induction_on with
  | _ t ih =>
    cases t with
    | zero =>
      rw [hv, h0]
      rfl
    | succ t =>
      have hn : (r.st (t + 1)).csr = (r.st t).csr.next (r.st t).csrIn := rfl
      have hstep := hs t ht
      have iht := ih t (Nat.lt_succ_self t) (by omega)
      cases hwr : Csr.wr idx (r.st t).csrIn.commit with
      | false =>
        have htick : (BitVec.ofBool ((r.st t).csr.tick (r.st t).csrIn.commit idx)).setWidth 32 =
            BitVec.ofNat 32 ((r.st t).csr.tick (r.st t).csrIn.commit idx).toNat := by
          cases (r.st t).csr.tick (r.st t).csrIn.commit idx <;> rfl
        rw [hn, Csr.value_next_of_mem _ _ _ hwr hi, takenBack, hwr, if_neg Bool.false_ne_true,
          Nat.add_zero, hstep, BitVec.ofNat_add, ← iht, htick]
        ac_rfl
      | true =>
        -- Nothing else has taken anything back since the csrr read the counter.
        obtain ⟨d, op, rd, h, hop⟩ := hw t ht hwr
        have hlt := h.lt
        have hsame : ∀ u, d + 1 ≤ u → u ≤ t →
            r.takenBack idx count u = r.takenBack idx count (d + 1) ∧ count (d + 1) ≤ count u := by
          intro u hdu
          induction u, hdu using Nat.le_induction with
          | base => exact fun _ => ⟨rfl, Nat.le_refl _⟩
          | succ u hdu ihu =>
            intro hut
            obtain ⟨he, hle⟩ := ihu (by omega)
            rw [takenBack, h.not_wr u (by omega) hut, if_neg Bool.false_ne_true, hs u (by omega)]
            exact ⟨he, by omega⟩
        obtain ⟨he, hle⟩ := hsame t hlt (Nat.le_refl t)
        have ihd := ih (d + 1) (by omega) (by omega)
        have hsub : count (d + 1) + (count (t + 1) - count (d + 1)) = count (t + 1) := by omega
        rw [hn, Csr.value_next_of_wr_counter _ _ _ hwr hi, h.csrData_of_csrr hop, takenBack, hwr,
          if_pos rfl, h.owner, he, BitVec.ofNat_add, ← BitVec.add_assoc, ihd, ← BitVec.ofNat_add,
          hsub]

theorem csrr_of_wr {t : Nat} {idx : BitVec 12} (hi : idx = Csr.minstretIdx ∨ idx = Csr.minstrethIdx)
    (hn : ¬ r.WritesInstret t) (hw : Csr.wr idx (r.st t).csrIn.commit = true) :
    ∃ d op rd, r.CsrCommits t d op rd 0#5 idx ∧ op ≠ .rw ∧ op ≠ .rwi := by
  have hwr : Csr.wr Csr.minstretIdx (r.st t).csrIn.commit = true ∨
      Csr.wr Csr.minstrethIdx (r.st t).csrIn.commit = true := by
    rcases hi with rfl | rfl
    · exact .inl hw
    · exact .inr hw
  obtain ⟨d, op, rd, idx', h, hop⟩ := not_not.mp fun hex => hn ⟨hwr, hex⟩
  have hidx : (r.st t).csrIn.commit.csrIdx = idx :=
    beq_iff_eq.mp (Bool.and_eq_true_iff.mp hw).1
  rw [h.csrWrEn.2] at hidx
  exact ⟨d, op, rd, hidx ▸ h, hop⟩

theorem ofNat_eq_iff (a b : Nat) :
    BitVec.ofNat 32 a = BitVec.ofNat 32 b ↔ a ≡ b [MOD 2 ^ 32] := by
  rw [← BitVec.toNat_inj, BitVec.toNat_ofNat, BitVec.toNat_ofNat, Nat.ModEq]

theorem eq_ofNat_iff {x : BitVec 32} {a b : Nat} (h : x + BitVec.ofNat 32 b = BitVec.ofNat 32 a)
    (n : Nat) : x = BitVec.ofNat 32 n ↔ a ≡ n + b [MOD 2 ^ 32] := by
  rw [← ofNat_eq_iff, ← h, BitVec.ofNat_add, BitVec.add_left_inj]

-- The lower half counts the commits, and the upper half how often the lower one starts again.

theorem minstret_of_committed {c : Nat} (hw : ∀ t < c, ¬ r.WritesInstret t) (t : Nat) (ht : t ≤ c) :
    (r.st t).csr.minstret + BitVec.ofNat 32 (r.takenBack Csr.minstretIdx r.committed t) =
      BitVec.ofNat 32 (r.committed t) := by
  refine value_of_count Csr.minstretIdx (by decide) rfl rfl (fun t _ => ?_)
    (fun t ht h => csrr_of_wr (.inl rfl) (hw t ht) h) t ht
  exact times_succ _ t

theorem minstreth_of_carried {c : Nat} (hw : ∀ t < c, ¬ r.WritesInstret t) (t : Nat) (ht : t ≤ c) :
    (r.st t).csr.minstreth + BitVec.ofNat 32 (r.takenBack Csr.minstrethIdx r.carried t) =
      BitVec.ofNat 32 (r.carried t) := by
  refine value_of_count Csr.minstrethIdx (by decide) rfl rfl (fun t ht => ?_)
    (fun t ht h => csrr_of_wr (.inr rfl) (hw t ht) h) t ht
  have hlow := minstret_of_committed hw t ht.le
  have hall : (r.st t).csr.minstret = BitVec.allOnes 32 ↔
      r.committed t + 1 ≡ r.takenBack Csr.minstretIdx r.committed t [MOD 2 ^ 32] := by
    have hones : BitVec.allOnes 32 = BitVec.ofNat 32 (2 ^ 32 - 1) := by decide
    rw [hones, eq_ofNat_iff hlow, Nat.ModEq, Nat.ModEq]
    omega
  have htick : (r.st t).csr.tick (r.st t).csrIn.commit Csr.minstrethIdx =
      ((r.st t).commits && (r.st t).csr.minstret == BitVec.allOnes 32) := rfl
  rw [carried, times_succ, ← carried, htick]
  congr 3
  rw [Bool.eq_iff_iff, decide_eq_true_iff, beq_iff_eq, hall]

-- The entries in front of the instruction that decode accepts in cycle `d`.
def ahead (d : Nat) : Nat := (r.st (d + 1)).rob.occupancy - 1

theorem older_eq_ahead {d : Nat} (hw : (r.st d).robWen = true) :
    r.older d (d + 1) = r.ahead d := by
  have hf : (r.st d).flush = false := (r.legal d).issue_flush hw
  -- It is the last one in the next cycle.
  obtain ⟨l, hl⟩ : ∃ l, r.rob.pending (d + 1) = l ++ [d] := by
    rw [r.pending_succ, hf, hw, if_neg Bool.false_ne_true, if_pos rfl, Fifo.shift]
    cases hc : (r.st d).commits with
    | false => exact ⟨_, rfl⟩
    | true =>
      obtain ⟨rest, hp⟩ := r.pending_eq_cons d hc
      exact ⟨rest, by rw [hp]; rfl⟩
  have hlt : ∀ e ∈ l, e < d := by
    have hp := r.rob.pending_pairwise (d + 1)
    rw [hl, List.pairwise_append] at hp
    exact fun e he => hp.2.2 e he d (List.mem_singleton_self d)
  have hlen : (r.st (d + 1)).rob.occupancy = l.length + 1 := by
    have h := congrArg List.length hl
    rwa [r.pending_eq_owners, List.length_map, Rob.window, Ring.length_window,
      List.length_append] at h
  have hcount : l.countP (· < d) = l.length :=
    List.countP_eq_length.mpr fun e he => decide_eq_true (hlt e he)
  rw [older, ahead, hl, hlen, List.countP_append, hcount, List.countP_singleton,
    decide_eq_false (Nat.lt_irrefl d), Nat.add_sub_cancel]
  rfl

section CsrCommits

variable {c d : Nat} {op : CsrOp} {rd src : BitVec 5} {idx : BitVec 12}

-- They all retire before it, or they would take it away.

theorem CsrCommits.retired_succ (h : r.CsrCommits c d op rd src idx) {t : Nat} (hdt : d < t)
    (htc : t < c) : r.retired (t + 1) + r.older d (t + 1) = r.retired t + r.older d t := by
  have hf := h.flush t hdt.le htc
  rw [← r.older_succ hdt.le hf, retired, times_succ, ← retired]
  cases hc : (r.st t).commits with
  | false => rfl
  | true =>
    have hx : ((r.st t).rob.info (r.st t).rob.head).excp = 0#16 := ((not_flush_iff _ hc).mp hf).1
    have hlt : r.owner t (r.st t).rob.head < d :=
      h.owner ▸ r.owner_lt_of_between t c h.commits hc (h.owner.trans_le hdt.le) htc
    rw [hx, decide_eq_true hlt, beq_self_eq_true, Bool.and_self, Bool.toNat_true]
    omega

theorem CsrCommits.older_eq_zero (h : r.CsrCommits c d op rd src idx) : r.older d c = 0 := by
  obtain ⟨rest, hr⟩ := r.pending_eq_cons c h.commits
  have hp := r.rob.pending_pairwise c
  rw [hr, h.owner, List.pairwise_cons] at hp
  rw [older, hr, h.owner, List.countP_eq_zero]
  intro e he
  rw [decide_eq_true_eq]
  rcases List.mem_cons.mp he with rfl | he
  · exact Nat.lt_irrefl e
  · exact (hp.1 e he).not_gt

theorem CsrCommits.retired_eq (h : r.CsrCommits c d op rd src idx) :
    r.retired c = r.retired (d + 1) + r.ahead d := by
  have hrun : ∀ t, d + 1 ≤ t → t ≤ c →
      r.retired t + r.older d t = r.retired (d + 1) + r.older d (d + 1) := by
    intro t hdt
    induction t, hdt using Nat.le_induction with
    | base => exact fun _ => rfl
    | succ t hdt ih => exact fun htc => (h.retired_succ hdt htc).trans (ih (Nat.le_of_succ_le htc))
  have hc := hrun c h.lt (Nat.le_refl c)
  rwa [h.older_eq_zero, Nat.add_zero, older_eq_ahead h.robWen] at hc

end CsrCommits

-- What a read that commits in cycle `c` should put in its register.
def instretHalf (c : Nat) (idx : BitVec 12) : BitVec 32 :=
  if idx = Csr.minstretIdx then (BitVec.ofNat 64 (r.retired c)).extractLsb' 0 32
  else (BitVec.ofNat 64 (r.retired c)).extractLsb' 32 32

-- A read that decode accepts in cycle `d` issues in the next one. The traps counted by then are as
-- many as the entries in front of it and what csrr's have taken back, modulo 2^32; for the upper
-- half only the carries matter.
def InstretRight (d : Nat) (idx : BitVec 12) : Prop :=
  if idx = Csr.minstretIdx
  then r.trapped (d + 1) ≡
    r.ahead d + r.takenBack Csr.minstretIdx r.committed (d + 1) [MOD 2 ^ 32]
  else r.carried (d + 1) ≡ (r.retired (d + 1) + r.ahead d) / 2 ^ 32 +
    r.takenBack Csr.minstrethIdx r.carried (d + 1) [MOD 2 ^ 32]

theorem minstret_counts_retired_iff (r : Run) (c d : Nat) (op : CsrOp) (rd src : BitVec 5)
    (idx : BitVec 12) (h : r.CsrCommits c d op rd src idx)
    (hi : idx = Csr.minstretIdx ∨ idx = Csr.minstrethIdx) (hw : ∀ t < c, ¬ r.WritesInstret t) :
    (r.st c).rob.rdData (r.st c).rob.head = r.instretHalf c idx ↔ r.InstretRight d idx := by
  have hlt := h.lt
  rw [h.result.1, instretHalf, InstretRight, h.retired_eq]
  rcases hi with rfl | rfl
  · have hhalf : (BitVec.ofNat 64 (r.retired (d + 1) + r.ahead d)).extractLsb' 0 32 =
        BitVec.ofNat 32 (r.retired (d + 1) + r.ahead d) := by
      apply BitVec.eq_of_toNat_eq
      simp only [BitVec.extractLsb'_toNat, BitVec.toNat_ofNat]
      omega
    rw [if_pos rfl, if_pos rfl, Csr.value_minstret, hhalf,
      eq_ofNat_iff (minstret_of_committed hw (d + 1) hlt), committed_eq, Nat.add_assoc]
    exact Nat.ModEq.add_iff_left rfl
  · have hhalf : (BitVec.ofNat 64 (r.retired (d + 1) + r.ahead d)).extractLsb' 32 32 =
        BitVec.ofNat 32 ((r.retired (d + 1) + r.ahead d) / 2 ^ 32) := by
      apply BitVec.eq_of_toNat_eq
      simp only [BitVec.extractLsb'_toNat, BitVec.toNat_ofNat]
      omega
    rw [if_neg (by decide), if_neg (by decide), Csr.value_minstreth, hhalf,
      eq_ofNat_iff (minstreth_of_carried hw (d + 1) hlt)]

-- Neither half is accessed in cycle `t`.
theorem not_writesInstret_of_not_wr (t : Nat)
    (hl : Csr.wr Csr.minstretIdx (r.st t).csrIn.commit = false)
    (hh : Csr.wr Csr.minstrethIdx (r.st t).csrIn.commit = false) : ¬ r.WritesInstret t := by
  rintro ⟨hw | hw, -⟩
  · exact Bool.noConfusion (hl.symm.trans hw)
  · exact Bool.noConfusion (hh.symm.trans hw)

theorem not_wr_of_not_commits (t : Nat) (idx : BitVec 12) (h : (r.st t).commits = false) :
    Csr.wr idx (r.st t).csrIn.commit = false := by
  have hv : (r.st t).csrIn.commit.valid = false := h
  simp [Csr.wr, Csr.csrWrEn, hv]

-- `addi x0,x0,0; csrrs x6,minstreth,x0; fence.i; csrrs x5,minstret,x0`.
def fencedRead : Run :=
  program false [0x00000013#32, 0xB8202373#32, 0x0000100F#32, 0xB02022F3#32]

-- Three instructions have retired before it, a read of the other half among them.
theorem minstret_counts_fencedRead : (fencedRead.st 11).rob.rdData 3#4 = 3#32 := by
  have hk : ∀ t < 11, t ≠ 5 → Csr.wr Csr.minstretIdx (fencedRead.st t).csrIn.commit = false ∧
      Csr.wr Csr.minstrethIdx (fencedRead.st t).csrIn.commit = false := by decide +kernel
  have hother : fencedRead.CsrCommits 5 2 .rs 6#5 0#5 Csr.minstrethIdx := by decide +kernel
  have hw : ∀ t < 11, ¬ fencedRead.WritesInstret t := by
    intro t ht
    by_cases h5 : t = 5
    · subst h5
      exact fun hn => hn.2 ⟨2, .rs, 6#5, _, hother, by decide⟩
    · exact not_writesInstret_of_not_wr t (hk t ht h5).1 (hk t ht h5).2
  have h := minstret_counts_retired_iff fencedRead 11 8 .rs 5#5 0#5 Csr.minstretIdx
    (by decide +kernel) (.inl rfl) hw
  have hhead : (fencedRead.st 11).rob.head = 3#4 ∧
      fencedRead.instretHalf 11 Csr.minstretIdx = 3#32 := by decide +kernel
  rw [hhead.1, hhead.2] at h
  refine h.mpr ?_
  rw [InstretRight, if_pos rfl]
  decide +kernel

-- `addi x0,x0,0` twice, `csrrs x5,minstret,x0`, and the three instructions after which the core
-- stops.
def readInstret : Run :=
  program false [0x00000013#32, 0x00000013#32, 0xB02022F3#32, 0x00000073#32, 0x00000013#32,
    0x00002023#32]

-- Two instructions have retired before it, and the read returns 0.
theorem minstret_misses_inflight :
    (∀ t, ¬ readInstret.WritesInstret t) ∧
      readInstret.CsrCommits 6 3 .rs 5#5 0#5 Csr.minstretIdx ∧
      (readInstret.st 6).rob.rdData (readInstret.st 6).rob.head ≠
        readInstret.instretHalf 6 Csr.minstretIdx := by
  have hread : readInstret.CsrCommits 6 3 .rs 5#5 0#5 Csr.minstretIdx := by decide +kernel
  refine ⟨fun t => ?_, hread, by decide +kernel⟩
  rcases Nat.lt_or_ge t 8 with ht | ht
  · have hk : ∀ t < 8, t ≠ 6 → Csr.wr Csr.minstretIdx (readInstret.st t).csrIn.commit = false ∧
        Csr.wr Csr.minstrethIdx (readInstret.st t).csrIn.commit = false := by decide +kernel
    by_cases h6 : t = 6
    · subst h6
      exact fun hn => hn.2 ⟨3, .rs, 5#5, _, hread, by decide⟩
    · exact not_writesInstret_of_not_wr t (hk t ht h6).1 (hk t ht h6).2
  · have hst : (readInstret.st 8).rob.empty = true ∧ (readInstret.st 8).de2ex.vld = true ∧
        Cpu.isStore (readInstret.st 8).deInfo = true ∧
        Issue.robPtr (readInstret.st 8).deInfo ≠ (readInstret.st 8).rob.head := by decide +kernel
    have hs : readInstret.Wedged 8 := ⟨hst.1, hst.2.1, hst.2.2.1, hst.2.2.2⟩
    have hc := hs.forever t ht
    exact not_writesInstret_of_not_wr t (not_wr_of_not_commits t _ hc)
      (not_wr_of_not_commits t _ hc)

end HiCore.Run
