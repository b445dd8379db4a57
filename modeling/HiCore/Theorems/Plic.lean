import HiCore.Lib.History
import HiCore.Rtl.PlicTree

-- The interrupt controller: which request it presents, and what becomes of a request from the
-- gateway over the claim to the completion.
namespace HiCore

open History

namespace PlicTree

variable {w : Nat} (g : Nat) (s : Sources w)

-- Source `i` asks for the target.
def Requests (i : Nat) : Prop := 0 < i ∧ i < s.irqNum ∧ s.irqPend i = true ∧ enab s i = true

instance (i : Nat) : Decidable (Requests s i) := inferInstanceAs (Decidable (_ ∧ _ ∧ _ ∧ _))

-- The priority with which a source takes part.
def effPrio (i : Nat) : Nat := if Requests s i then (s.irqPrio i).toNat else 0

theorem key_lvl10 (i : Nat) : key g (lvl10 g s i) = effPrio s i := by
  rw [key, lvl10, effPrio]
  by_cases h0 : i = 0
  · simp [h0, Requests]
  by_cases hn : i < s.irqNum
  · rw [if_neg h0, if_pos hn]
    cases hp : s.irqPend i <;> cases he : enab s i <;>
      simp [irqPrioMasked, Requests, hp, he, hn, rep, Nat.pos_of_ne_zero h0]
  · rw [if_neg h0, if_neg hn, if_neg fun h => hn h.2.1]
    rfl

theorem ip_lvl10 (i : Nat) : (lvl10 g s i).ip = decide (Requests s i) := by
  rw [lvl10]
  by_cases h0 : i = 0
  · simp [h0, Requests]
  by_cases hn : i < s.irqNum
  · rw [if_neg h0, if_pos hn]
    simp [Requests, hn, Nat.pos_of_ne_zero h0, Bool.decide_and]
  · rw [if_neg h0, if_neg hn]
    simp [Requests, hn]

theorem id_lvl10 (i : Nat) : (lvl10 g s i).id = BitVec.ofNat g i := by
  rw [lvl10]
  by_cases h0 : i = 0
  · simp [h0]
  by_cases hn : i < s.irqNum
  · rw [if_neg h0, if_pos hn]
  · rw [if_neg h0, if_neg hn]

-- The tree finds the first of the sources with the highest priority, and source 0 if none asks
-- with a priority above 0.
theorem exists_top (hn : 0 < s.irqNum) (h1 : s.irqNum ≤ 1024) :
    ∃ j < s.irqNum, top g s = lvl10 g s j ∧ (∀ i, effPrio s i ≤ effPrio s j) ∧
      ∀ i < j, effPrio s i < effPrio s j := by
  obtain ⟨j, hj, he⟩ := Tournament.exists_first (key g) (lvl10 g s) 10 0
  rw [Nat.zero_mul, Nat.zero_add, Nat.one_mul] at hj
  have hout : ∀ i, s.irqNum ≤ i → effPrio s i = 0 := by
    intro i hi
    rw [effPrio, if_neg]
    intro h
    exact absurd h.2.1 (Nat.not_lt.mpr hi)
  have hfirst : ∀ i < j, effPrio s i < effPrio s j := by
    intro i hi
    rw [← key_lvl10 g, ← key_lvl10 g]
    exact hj.first i (Nat.zero_le i) hi
  have hjn : j < s.irqNum := by
    by_contra hge
    have h0 := hfirst 0 (by omega)
    rw [hout j (by omega)] at h0
    exact Nat.not_lt_zero _ h0
  refine ⟨j, hjn, he, fun i => ?_, hfirst⟩
  rcases Nat.lt_or_ge i 1024 with hi | hi
  · rw [← key_lvl10 g, ← key_lvl10 g]
    exact hj.best i (Nat.zero_le i) hi
  · rw [hout i (by omega)]
    exact Nat.zero_le _

theorem irqO_iff (hn : 0 < s.irqNum) (h1 : s.irqNum ≤ 1024) :
    irqO g s = true ↔ ∃ i, Requests s i ∧ s.irqThod.toNat < (s.irqPrio i).toNat := by
  obtain ⟨j, -, ht, hbest, -⟩ := exists_top g s hn h1
  have hp : (top g s).prio.toNat = effPrio s j := by
    rw [ht]
    exact key_lvl10 g s j
  have hip : (top g s).ip = decide (Requests s j) := by
    rw [ht, ip_lvl10]
  rw [irqO, Bool.and_eq_true, BitVec.ult_eq_decide, decide_eq_true_eq, hp, hip, decide_eq_true_eq]
  constructor
  · rintro ⟨hr, hlt⟩
    rw [effPrio, if_pos hr] at hlt
    exact ⟨j, hr, hlt⟩
  · rintro ⟨i, hr, hlt⟩
    have hi := hbest i
    rw [effPrio, if_pos hr] at hi
    -- A priority above the threshold is not 0, so the winner asks too.
    have hj : Requests s j := by
      by_contra hj
      rw [effPrio, if_neg hj] at hi
      omega
    exact ⟨hj, by omega⟩

-- The request that the tree presents, and when there is one.
theorem tree_selects {w : Nat} (g : Nat) (s : Sources w) (hn : 0 < s.irqNum)
    (h1 : s.irqNum ≤ 1024) (hg : s.irqNum ≤ 2 ^ g) :
    (top g s).id.toNat < s.irqNum ∧ (top g s).prio.toNat = effPrio s (top g s).id.toNat ∧
    (∀ i, effPrio s i ≤ effPrio s (top g s).id.toNat) ∧
    (∀ i < (top g s).id.toNat, effPrio s i < effPrio s (top g s).id.toNat) ∧
    ((top g s).ip = true ↔ Requests s (top g s).id.toNat) ∧
    (irqO g s = true ↔ ∃ i, Requests s i ∧ s.irqThod.toNat < (s.irqPrio i).toNat) := by
  obtain ⟨j, hj, ht, hbest, hfirst⟩ := exists_top g s hn h1
  have hid : (top g s).id.toNat = j := by
    rw [ht, id_lvl10, BitVec.toNat_ofNat]
    exact Nat.mod_eq_of_lt (Nat.lt_of_lt_of_le hj hg)
  rw [hid]
  refine ⟨hj, ?_, hbest, hfirst, ?_, irqO_iff g s hn h1⟩
  · rw [ht]
    exact key_lvl10 g s j
  · rw [ht, ip_lvl10, decide_eq_true_eq]

-- Sources 1 and 2 ask with the same priority, above source 3: source 1 is presented.
def threeAsk : Sources 2 where
  irqNum := 4
  irqPend _ := true
  irqPrio i := if i = 3 then 1#2 else 2#2
  irqEnab _ := 0xE#32
  irqThod := 0#2

theorem tree_selects_threeAsk : (top 2 threeAsk).id = 1#2 ∧ irqO 2 threeAsk = true ∧
    effPrio threeAsk 1 = 2 := by
  obtain ⟨hlt, -, hbest, hfirst, -, ho⟩ :=
    tree_selects 2 threeAsk (by decide) (by decide) (by decide)
  have hid : ∀ k < 4, (∀ i < 4, effPrio threeAsk i ≤ effPrio threeAsk k) →
      (∀ i < k, effPrio threeAsk i < effPrio threeAsk k) → k = 1 := by decide
  exact ⟨BitVec.eq_of_toNat_eq (hid _ hlt (fun i _ => hbest i) hfirst),
    ho.mpr ⟨1, by decide, by decide⟩, by decide⟩

end PlicTree

namespace Plic

variable (p : Plic)

def ofLeaf (l : PlicTree.Leaf 2 2) : Leaf where
  prio := l.prio
  id := l.id
  ip := l.ip

theorem higher_ofLeaf (a b : PlicTree.Leaf 2 2) :
    higher (ofLeaf a) (ofLeaf b) = ofLeaf (Tournament.better (PlicTree.key 2) a b) := by
  have hu : (ofLeaf a).prio.ult (ofLeaf b).prio =
      decide (PlicTree.key 2 a < PlicTree.key 2 b) := BitVec.ult_eq_decide
  rw [higher, Tournament.better, hu]
  by_cases h : PlicTree.key 2 a < PlicTree.key 2 b <;> simp [h]

theorem leaf_eq (n : Nat) (hn : n < 4) :
    p.leaf (BitVec.ofNat 2 n) = ofLeaf (PlicTree.lvl10 2 p.sources n) := by
  rcases n with _ | _ | _ | _ | n
  · rfl
  · rfl
  · rfl
  · rfl
  · omega

-- What four sources leave of the tree.
theorem top_eq : p.top = ofLeaf (PlicTree.top 2 p.sources) := by
  have h2 : p.top = ofLeaf (PlicTree.lvl 2 p.sources 2 0) := by
    have h := p.leaf_eq
    rw [top, h 0 (by decide), h 1 (by decide), h 2 (by decide), h 3 (by decide), higher_ofLeaf,
      higher_ofLeaf, higher_ofLeaf]
    rfl
  obtain ⟨j, hj, hej⟩ := Tournament.exists_first (PlicTree.key 2) (PlicTree.lvl10 2 p.sources) 2 0
  obtain ⟨k, hk, hek⟩ := Tournament.exists_first (PlicTree.key 2) (PlicTree.lvl10 2 p.sources) 10 0
  have hout : ∀ m, (0 + 1) * 2 ^ 2 ≤ m → PlicTree.key 2 (PlicTree.lvl10 2 p.sources m) ≤
      PlicTree.key 2 (PlicTree.lvl10 2 p.sources j) := by
    intro m hm
    rw [PlicTree.key_lvl10, PlicTree.effPrio, if_neg fun h => Nat.not_lt.mpr hm h.2.1]
    exact Nat.zero_le _
  have hjk : j = k := (hj.extend hout (by decide)).unique hk
  rw [h2, PlicTree.top, PlicTree.lvl, PlicTree.lvl, hej, hek, hjk]

-- A run from reset, for any traffic on the bus and any interrupt lines.
structure Run where
  ins : Nat → In

namespace Run

variable (r : Run)

def st : Nat → Plic
  | 0 => reset
  | t + 1 => (st t).next (r.ins t)

-- The gateway hands a request of source `n` on; the core claims it; the core completes it.

def accepts (n : BitVec 2) (t : Nat) : Bool := (r.st t).pendSet n

def claims (n : BitVec 2) (t : Nat) : Bool := (r.st t).claimIrq (r.ins t) n

def completes (n : BitVec 2) (t : Nat) : Bool := (r.st t).completeIrq (r.ins t) n

-- A read of the claim register is accepted.
def claimReads (t : Nat) : Bool := selClam (r.ins t) && (r.st t).cmdRdHsked (r.ins t)

end Run

-- What the target is asked for: source `n` is pending and enabled.
def asks (n : BitVec 2) : Bool := n != 0#2 && p.irqPend n && p.irqEnab.getLsbD n.toNat

def effPrio (n : BitVec 2) : Nat := if p.asks n then (p.irqPrio n).toNat else 0

theorem requests_iff (n : BitVec 2) : PlicTree.Requests p.sources n.toNat ↔ p.asks n = true := by
  have hn : n.toNat < 4 := n.isLt
  have h0 : n.toNat ≠ 0 ↔ n ≠ 0#2 := by
    rw [ne_eq, ne_eq, ← BitVec.toNat_inj]
    rfl
  have hpend : p.sources.irqPend n.toNat = p.irqPend n := by simp [sources]
  have henab : PlicTree.enab p.sources n.toNat = p.irqEnab.getLsbD n.toNat := by
    rw [PlicTree.enab, show n.toNat / 32 = 0 by omega, show n.toNat % 32 = n.toNat by omega]
    rfl
  rw [PlicTree.Requests, asks, Nat.pos_iff_ne_zero, h0, hpend, henab, Bool.and_eq_true,
    Bool.and_eq_true, bne_iff_ne]
  exact ⟨fun ⟨ha, _, hb, hc⟩ => ⟨⟨ha, hb⟩, hc⟩, fun ⟨⟨ha, hb⟩, hc⟩ => ⟨ha, hn, hb, hc⟩⟩

theorem effPrio_eq (n : BitVec 2) : PlicTree.effPrio p.sources n.toNat = p.effPrio n := by
  rw [PlicTree.effPrio, effPrio]
  simp only [requests_iff]
  simp [sources]

-- The source that is presented is the first among those of the highest priority.
theorem top_spec : (∀ n, p.effPrio n ≤ p.effPrio p.top.id) ∧
    (∀ n, n.toNat < p.top.id.toNat → p.effPrio n < p.effPrio p.top.id) := by
  obtain ⟨j, hj, ht, hbest, hfirst⟩ := PlicTree.exists_top 2 p.sources (Nat.succ_pos 3)
    (show 4 ≤ 1024 by decide)
  have hid : p.top.id.toNat = j := by
    rw [top_eq, ht]
    change (PlicTree.lvl10 2 p.sources j).id.toNat = j
    rw [PlicTree.id_lvl10, BitVec.toNat_ofNat]
    exact Nat.mod_eq_of_lt hj
  constructor
  · intro n
    rw [← effPrio_eq, ← effPrio_eq, hid]
    exact hbest _
  · intro n hn
    rw [← effPrio_eq, ← effPrio_eq, hid]
    exact hfirst _ (hid ▸ hn)

theorem irqO_iff : (p.top.ip && p.irqThod.ult p.top.prio) = true ↔
    ∃ n, p.asks n = true ∧ p.irqThod.toNat < (p.irqPrio n).toNat := by
  have h : (p.top.ip && p.irqThod.ult p.top.prio) = PlicTree.irqO 2 p.sources := by
    rw [top_eq]
    rfl
  rw [h, PlicTree.irqO_iff 2 p.sources (Nat.succ_pos 3) (show 4 ≤ 1024 by decide)]
  constructor
  · rintro ⟨i, hr, hlt⟩
    obtain ⟨n, rfl⟩ : ∃ n : BitVec 2, n.toNat = i :=
      ⟨BitVec.ofNat 2 i, (BitVec.toNat_ofNat i 2).trans (Nat.mod_eq_of_lt hr.2.1)⟩
    refine ⟨n, (p.requests_iff n).mp hr, ?_⟩
    simpa [sources] using hlt
  · rintro ⟨n, hr, hlt⟩
    refine ⟨n.toNat, (p.requests_iff n).mpr hr, ?_⟩
    simpa [sources] using hlt

-- The register that a claim reads.
theorem rspRdataNxt_of_selClam (i : In) (h : selClam i = true) :
    p.rspRdataNxt i = p.irqId.setWidth 32 := by
  have ha : cmdAddr i = 0x200004#24 := beq_iff_eq.mp h
  have hp : ∀ n, selPrio i n = false := by
    intro n
    rw [selPrio, ha]
    revert n
    decide
  have hd : selPend i = false := by rw [selPend, ha]; decide
  have he : selEnab i = false := by rw [selEnab, ha]; decide
  have ht : selThod i = false := by rw [selThod, ha]; decide
  rw [rspRdataNxt, rspRdataPrio, rspRdataPend, rspRdataTarg, hp, hp, hp, hd, he, ht, h]
  simp only [rep_and, if_true, Bool.false_eq_true, if_false, BitVec.or_zero, BitVec.zero_or]

theorem claimIrq_eq (i : In) (n : BitVec 2) :
    p.claimIrq i n = (p.irqId == n && (selClam i && p.cmdRdHsked i)) := by
  rw [claimIrq, Bool.and_assoc]
  cases hs : selClam i with
  | false => simp
  | true =>
    have hw : (p.irqId.setWidth 32 == n.setWidth 32) = (p.irqId == n) := by
      generalize p.irqId = m
      revert m n
      decide
    rw [p.rspRdataNxt_of_selClam i hs, hw]

namespace Run

variable (r : Run)

-- A source that has won the comparison is pending and enabled.
theorem asks_of_irqId (t : Nat) (h : (r.st (t + 1)).irqId ≠ 0#2) :
    (r.st t).asks (r.st (t + 1)).irqId = true := by
  change (r.st t).top.id ≠ 0#2 at h
  change (r.st t).asks (r.st t).top.id = true
  have hpos : (0#2).toNat < (r.st t).top.id.toNat :=
    Nat.pos_of_ne_zero fun h0 => h (BitVec.eq_of_toNat_eq h0)
  have hlt := (r.st t).top_spec.2 0#2 hpos
  by_contra hn
  rw [effPrio, effPrio, if_neg hn] at hlt
  exact Nat.not_lt_zero _ hlt

-- The response register takes one command in two cycles.
theorem not_claimReads_succ (t : Nat) (h : r.claimReads t = true) :
    r.claimReads (t + 1) = false := by
  have hv : (r.ins t).cmdValid = true ∧ (r.st t).cmdReady = true := by
    simp only [claimReads, cmdRdHsked, Bool.and_eq_true] at h
    exact h.2.1
  have hset : (r.st (t + 1)).pipe.vld = true := by
    have hr : (r.st t).pipe.iRdy true (r.ins t).rspReady = true := hv.2
    change dfflr ((r.ins t).cmdValid && (r.st t).pipe.iRdy true (r.ins t).rspReady || _)
      ((r.ins t).cmdValid && (r.st t).pipe.iRdy true (r.ins t).rspReady || _) _ = true
    rw [hr, hv.1]
    rfl
  have hbusy : (r.st (t + 1)).cmdReady = false := by
    rw [cmdReady, Pipe.iRdy, hset]
    rfl
  simp [claimReads, cmdRdHsked, hbusy]

theorem claims_eq (n : BitVec 2) (t : Nat) :
    r.claims n t = ((r.st t).irqId == n && r.claimReads t) := claimIrq_eq _ _ _

theorem irqPend_succ (n : BitVec 2) (hn : n ≠ 0#2) (t : Nat) : (r.st (t + 1)).irqPend n =
    (r.accepts n t || ((r.st t).irqPend n && !r.claims n t)) := by
  change (if n == 0#2 then false else dfflr (r.accepts n t || r.claims n t)
    (r.accepts n t || !r.claims n t) ((r.st t).irqPend n)) = _
  rw [if_neg (by simpa using hn)]
  cases r.accepts n t <;> cases r.claims n t <;> cases (r.st t).irqPend n <;> rfl

-- A claim takes a request that is there.
theorem irqPend_of_claims (n : BitVec 2) (hn : n ≠ 0#2) (t : Nat) (h : r.claims n t = true) :
    (r.st t).irqPend n = true := by
  rw [claims_eq, Bool.and_eq_true, beq_iff_eq] at h
  obtain ⟨hid, hread⟩ := h
  cases t with
  | zero => exact absurd hid.symm hn
  | succ t =>
    have ha := r.asks_of_irqId t (hid ▸ hn)
    rw [hid, asks, Bool.and_eq_true, Bool.and_eq_true] at ha
    have hq : r.claimReads t = false := by
      by_contra hc
      rw [r.not_claimReads_succ t (Bool.not_eq_false _ ▸ hc)] at hread
      exact Bool.noConfusion hread
    rw [r.irqPend_succ n hn, ha.1.2, claims_eq, hq]
    simp

theorem rspRdata_of_claimReads (t : Nat) (h : r.claimReads t = true) :
    (r.st (t + 1)).rspRdata = (r.st t).irqId.setWidth 32 := by
  rw [claimReads, cmdRdHsked, Bool.and_eq_true, Bool.and_eq_true, Bool.and_eq_true] at h
  have hr : (r.st t).pipe.iRdy true (r.ins t).rspReady = true := h.2.1.2
  rw [← (r.st t).rspRdataNxt_of_selClam (r.ins t) h.1]
  change dfflr ((r.ins t).cmdValid && (r.st t).pipe.iRdy true (r.ins t).rspReady) _ _ = _
  rw [hr, h.2.1.1]
  rfl

theorem plic_presents (r : Run) (t : Nat) :
    ((r.st (t + 1)).plicExtIrq = true ↔
      ∃ n, (r.st t).asks n = true ∧ (r.st t).irqThod.toNat < ((r.st t).irqPrio n).toNat) ∧
    (∀ n, (r.st t).effPrio n ≤ (r.st t).effPrio (r.st (t + 1)).irqId) ∧
    (∀ n, n.toNat < (r.st (t + 1)).irqId.toNat →
      (r.st t).effPrio n < (r.st t).effPrio (r.st (t + 1)).irqId) ∧
    (r.claimReads (t + 1) = true → (r.st (t + 2)).rspRdata = (r.st (t + 1)).irqId.setWidth 32) :=
  ⟨(r.st t).irqO_iff, (r.st t).top_spec.1, (r.st t).top_spec.2, r.rspRdata_of_claimReads (t + 1)⟩

-- Every request that the gateway hands on is claimed at most once, and none is lost.
theorem accepts_eq (n : BitVec 2) (hn : n ≠ 0#2) (t : Nat) :
    times (r.accepts n) t = times (r.claims n) t + ((r.st t).irqPend n).toNat := by
  induction t with
  | zero => rfl
  | succ t ih =>
    have hset : r.accepts n t = true → (r.st t).irqPend n = false := by
      intro h
      rw [accepts, pendSet, Bool.and_eq_true, gatedReady, Bool.not_eq_true'] at h
      exact h.2
    have hclaim := r.irqPend_of_claims n hn t
    rw [times_succ, times_succ, ih, r.irqPend_succ n hn]
    cases ha : r.accepts n t with
    | true =>
      have hp := hset ha
      have hc : r.claims n t = false := by
        rw [← Bool.not_eq_true]
        exact fun h => Bool.noConfusion (hp.symm.trans (hclaim h))
      simp [hp, hc]
    | false =>
      cases hc : r.claims n t with
      | true => simp [hclaim hc]
      | false => simp

-- The gateway waits for a completion before it hands the next request on.
theorem accepts_le (n : BitVec 2) (t : Nat) :
    times (r.accepts n) t ≤ times (r.completes n) t + ((r.st t).inFlight n).toNat := by
  induction t with
  | zero => exact Nat.le_refl 0
  | succ t ih =>
    have hf : (r.st (t + 1)).inFlight n = if r.completes n t then false
        else if (r.st t).irqIR.getLsbD n.toNat && (r.st t).gatedReady n then true
        else (r.st t).inFlight n := rfl
    have ha : r.accepts n t = ((r.st t).irqIR.getLsbD n.toNat && !(r.st t).inFlight n &&
        (r.st t).gatedReady n) := rfl
    rw [times_succ, times_succ, hf, ha]
    cases hc : r.completes n t <;> cases hi : (r.st t).inFlight n <;>
      cases (r.st t).irqIR.getLsbD n.toNat <;> cases (r.st t).gatedReady n <;>
      simp [hi] at ih ⊢ <;> omega

theorem plic_accounts (r : Run) (n : BitVec 2) (hn : n ≠ 0#2) :
    (∀ t, r.claims n t = true → (r.st t).irqPend n = true ∧ (r.st (t + 1)).irqPend n = false) ∧
    (∀ t, times (r.accepts n) t = times (r.claims n) t + ((r.st t).irqPend n).toNat) ∧
    (∀ t, times (r.accepts n) t ≤ times (r.completes n) t + ((r.st t).inFlight n).toNat) := by
  refine ⟨fun t h => ⟨r.irqPend_of_claims n hn t h, ?_⟩, r.accepts_eq n hn, r.accepts_le n⟩
  have hp := r.irqPend_of_claims n hn t h
  rw [r.irqPend_succ n hn, h, accepts, pendSet, gatedReady, hp]
  simp

-- The first source asks all the time. It is given priority 1 and enabled, claimed in cycle 4 and
-- completed in cycle 6.
def uartClaimed : Run where
  ins t :=
    { cmdValid := t % 2 == 0
      cmd := { read := t != 0 && t != 2 && t != 6
               wmask := 0xF#4
               wdata := if t = 2 then 2#32 else 1#32
               addr := if t = 0 then 0xF1000004#32 else if t = 2 then 0xF1002000#32
                 else 0xF1200004#32 }
      rspReady := true
      uartIrq := true
      extIrq0 := false
      extIrq1 := false }

theorem plic_accounts_uart : uartClaimed.claims 1#2 4 = true ∧
    (uartClaimed.st 5).irqPend 1#2 = false ∧
    times (uartClaimed.accepts 1#2) 8 = times (uartClaimed.claims 1#2) 8 + 1 := by
  obtain ⟨hc, ha, -⟩ := plic_accounts uartClaimed 1#2 (by decide)
  have h4 : uartClaimed.claims 1#2 4 = true ∧ (uartClaimed.st 8).irqPend 1#2 = true := by
    decide +kernel
  refine ⟨h4.1, (hc 4 h4.1).2, ?_⟩
  rw [ha 8, h4.2]
  rfl

end Run

end Plic

end HiCore
