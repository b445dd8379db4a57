import HiCore.Trace.Lockstep

-- The instructions between decode and write-back are the entries of the reorder
-- buffer that wait for their result.
namespace HiCore

open Rob (WbUnit)
open SlotState

namespace Tags

def inflight (g : Tags) : Multiset Nat :=
  Fifo.live g.de2ex + Fifo.live g.alu + Fifo.live g.csr + Fifo.live g.agu + Fifo.live g.excp +
    Fifo.live g.memq

-- The queue whose oldest item a unit is writing back.
def writer (g : Tags) (s : Cpu) : WbUnit → List (Nat × Bool)
  | .bjp => g.de2ex
  | .alu => g.alu
  | .lsu => if s.lsuRspValid then g.memq.take 1 else g.excp
  | .csr => g.csr
  | .nop => g.de2ex

-- The instructions that leave the units in a cycle without flush.
def written (g : Tags) (s : Cpu) : Multiset Nat :=
  (if s.bjpWb.wen || s.nopWbWen then Fifo.live g.de2ex else 0) + Fifo.live g.alu + Fifo.live g.csr +
    (if s.excpPop then Fifo.live g.excp else 0) + (if s.memPop then Fifo.live (g.memq.take 1) else 0)

end Tags

namespace Run

variable (r : Run)

-- What the write-back of an instruction reports.
def resultInfo (d : Nat) : WbInfo :=
  if r.unitOf d = .lsu then (r.aguOf d).info.wb else Issue.wbInfo (r.info d)

-- One equation for each slice between decode and write-back.
theorem live_pipe {α β : Type} {R : α → β → Prop} {p : Pipe α} {g : List (β × Bool)}
    (h : Fifo.Rel R p.items g) (pop : Bool) (push : List (β × Bool)) (hp : pop = true → p.vld = true) :
    Fifo.live (Fifo.next false pop push g) + (if pop then Fifo.live g else 0) =
      Fifo.live g + Fifo.live push := by
  rw [← Fifo.live_next pop push g]
  cases pop with
  | false => rfl
  | true =>
    obtain ⟨d, hd, -⟩ := Pipe.rel_of_vld h (hp rfl)
    rw [hd]
    rfl

theorem issues_of_unit (t d : Nat) (hv : (r.st t).de2ex.vld = true)
    (hi : (r.st t).deInfo = r.info d) :
    (r.st t).issues = (if r.unitOf d = .lsu then (r.st t).aguReady else true) ∧
      (r.st t).aluPush = decide (r.unitOf d = .alu) ∧
      (r.st t).csrPush = decide (r.unitOf d = .csr) ∧
      (r.st t).aguPush = (decide (r.unitOf d = .lsu) && (r.st t).aguReady) ∧
      (r.st t).bjpValid = decide (r.unitOf d = .bjp) ∧
      (r.st t).nopValid = decide (r.unitOf d = .nop) := by
  obtain ⟨hb, ha, hl, hc, hn⟩ := r.unitOf_of_sel d
  have hagu : (r.st t).aguPush = (r.st t).aguReady := rfl
  have hz : r.unitOf d ≠ .lsu → (r.st t).aguReady = false := by
    intro hne
    simp [Cpu.aguReady, Cpu.aguPipeValid, Agu.iAgu2lsuValid, Cpu.aguValid, hi, hl, hne]
  have halu : (r.st t).aluPush = (r.st t).aluValid := by
    simp [Cpu.aluPush, Pipe.vldSet, Cpu.alu2wbIn, Pipe.iRdy_true]
  have hcsr : (r.st t).csrPush = (r.st t).csrValid := by
    simp [Cpu.csrPush, Pipe.vldSet, Csr.csr2wbIn, Cpu.csrIn, Pipe.iRdy_true]
  rw [hagu, halu, hcsr, Cpu.issues, Pipe.vldClr, Cpu.de2issueReady, Issue.iDe2issueReady,
    Cpu.aluValid, Cpu.csrValid, Cpu.bjpValid, Cpu.nopValid, hi, hb, ha, hl, hc, hn, hv]
  cases hu : r.unitOf d <;> simp [Cpu.issueReady, Pipe.iRdy_true, hu] at hz ⊢ <;> exact hz

-- What leaves the issue register goes to one unit or is written back.
theorem issue_split (t : Nat) (hf : (r.st t).flush = false) :
    (if (r.st t).issues then Fifo.live (r.tags t).de2ex else 0) =
      Fifo.live (if (r.st t).aluPush then (r.tags t).de2ex else []) +
        Fifo.live (if (r.st t).csrPush then (r.tags t).de2ex else []) +
        Fifo.live (if (r.st t).aguPush then (r.tags t).de2ex else []) +
        (if (r.st t).bjpWb.wen || (r.st t).nopWbWen then Fifo.live (r.tags t).de2ex else 0) := by
  cases hv : (r.st t).de2ex.vld with
  | false =>
    rw [Pipe.rel_of_not_vld (r.rel_de2ex t) hv]
    simp
  | true =>
    obtain ⟨d, hd, hi⟩ := r.de2ex_of_vld t hv
    obtain ⟨h1, h2, h3, h4, h5, h6⟩ := r.issues_of_unit t d hv hi
    rw [hd, h1, h2, h3, h4, Cpu.bjpWb, Cpu.nopWbWen, h5, h6, hf]
    cases hc : (r.st t).de2ex.cancel with
    | true => simp
    | false => cases hu : r.unitOf d <;> simp

theorem agu_split (t : Nat) :
    (if (r.st t).aguPop then Fifo.live (r.tags t).agu else 0) =
      Fifo.live (if (r.st t).excpPush then (r.tags t).agu else []) +
        Fifo.live (if (r.st t).memPush then (r.tags t).agu else []) := by
  cases hv : (r.st t).agu2lsu.vld with
  | false =>
    rw [Pipe.rel_of_not_vld (r.rel_agu t) hv]
    simp
  | true =>
    obtain ⟨d, hd, -, -⟩ := r.agu_of_vld t hv
    cases hc : (r.st t).agu2lsu.cancel with
    | true => simp [hd, hc]
    | false =>
      have hep := excpPush_iff (r.st t)
      have hmp := memPush_iff (r.st t)
      have hap : (r.st t).aguPop = (r.st t).agu2lsuReady := by simp [Cpu.aguPop, Pipe.vldClr, hv]
      rw [hap, Cpu.agu2lsuReady, Lsu.iAgu2lsuReady, hc, hd]
      cases he : Lsu.hasExcp (r.st t).agu2lsu.dat with
      | true => simp_all
      | false => simp_all [and_comm]

theorem live_memq (t : Nat) (push : List (Nat × Bool)) :
    Fifo.live (Fifo.next false (r.st t).memPop push (r.tags t).memq) +
        (if (r.st t).memPop then Fifo.live ((r.tags t).memq.take 1) else 0) =
      Fifo.live (r.tags t).memq + Fifo.live push := by
  rw [← Fifo.live_next (r.st t).memPop]
  cases hp : (r.st t).memPop with
  | false => rfl
  | true =>
    obtain ⟨d, rest, hd, -⟩ := Queue.rel_of_oValid (r.rel_memq t) (Bool.and_eq_true_iff.mp hp).1
    rw [hd]
    rfl

theorem decodes_eq (s : Cpu) : s.decodes = (s.deValid && s.deReady) := rfl

-- Conservation: with no flush, an instruction enters when decode allocates it
-- and leaves when it is written back.
theorem inflight_next (t : Nat) (hf : (r.st t).flush = false) :
    (r.tags (t + 1)).inflight + (r.tags t).written (r.st t) =
      (r.tags t).inflight + (if (r.st t).robWen then {t} else 0) := by
  have hde := live_pipe (r.rel_de2ex t) (r.st t).issues
    (if (r.st t).decodes then [(t, (r.st t).if2deCancel)] else [])
    (fun h => (Bool.and_eq_true_iff.mp h).1)
  have halu := live_pipe (r.rel_alu t) (r.st t).alu2wb.vld
    (if (r.st t).aluPush then (r.tags t).de2ex else []) id
  have hcsr := live_pipe (r.rel_csr t) (r.st t).csr.csr2wb.vld
    (if (r.st t).csrPush then (r.tags t).de2ex else []) id
  have hagu := live_pipe (r.rel_agu t) (r.st t).aguPop
    (if (r.st t).aguPush then (r.tags t).de2ex else []) (fun h => (Bool.and_eq_true_iff.mp h).1)
  have hexcp := live_pipe (r.rel_excp t) (r.st t).excpPop
    (if (r.st t).excpPush then (r.tags t).agu else []) (fun h => (Bool.and_eq_true_iff.mp h).1)
  have hmem := r.live_memq t (if (r.st t).memPush then (r.tags t).agu else [])
  have hissue := r.issue_split t hf
  have hsplit := r.agu_split t
  -- An empty slice has nothing to give up.
  have hz : ∀ {α : Type} {R : α → Nat → Prop} {p : Pipe α} {g : List (Nat × Bool)},
      Fifo.Rel R p.items g → (if p.vld then Fifo.live g else 0) = Fifo.live g := by
    intro α R p g h
    cases hv : p.vld with
    | false => rw [Pipe.rel_of_not_vld h hv]; rfl
    | true => rfl
  rw [hz (r.rel_alu t)] at halu
  rw [hz (r.rel_csr t)] at hcsr
  have hwen : Fifo.live (if (r.st t).decodes then [(t, (r.st t).if2deCancel)] else []) =
      if (r.st t).robWen then {t} else 0 := by
    rw [Cpu.robWen, hf, decodes_eq]
    cases (r.st t).deValid <;> cases (r.st t).deReady <;> cases (r.st t).if2deCancel <;> simp
  rw [hwen] at hde
  simp only [tags, Tags.next, Tags.inflight, Tags.written, hf]
  ext d
  have h1 := congrArg (Multiset.count d) hde
  have h2 := congrArg (Multiset.count d) halu
  have h3 := congrArg (Multiset.count d) hcsr
  have h4 := congrArg (Multiset.count d) hagu
  have h5 := congrArg (Multiset.count d) hexcp
  have h6 := congrArg (Multiset.count d) hmem
  have h7 := congrArg (Multiset.count d) hissue
  have h8 := congrArg (Multiset.count d) hsplit
  simp only [Multiset.count_add] at h1 h2 h3 h4 h5 h6 h7 h8 ⊢
  omega

theorem inflight_next_of_flush (t : Nat) (hf : (r.st t).flush = true) :
    (r.tags (t + 1)).inflight = 0 := by
  simp [tags, Tags.next, Tags.inflight, hf, Fifo.next]

-- The unit's oldest instruction is the one that a write-back is for.

theorem lsuRspErr_eq (s : Cpu) : s.lsuRspErr = false := by
  simp [Cpu.lsuRspErr, Biu.rspErr, Cpu.slaveRspErr, NopSlave.rspErr, Clint.rspErr, Plic.rspErr,
    Tcm.rspErr]

theorem robPtr_info (d : Nat) : Issue.robPtr (r.info d) = r.ptrOf d := Decode.robPtr_bus _ _

theorem robPtr_aguOf (d : Nat) : (r.aguOf d).info.robPtr = r.ptrOf d := Decode.robPtr_bus _ _

-- A write-back of unit `u` names slot `n`, and the unit's oldest item is the
-- instruction decoded in cycle `d`.
structure WritesBack (t : Nat) (u : WbUnit) (n : BitVec 4) (d : Nat) : Prop where
  hits : ((r.st t).robIn.port u).hits n = true
  writer : (r.tags t).writer (r.st t) u = [(d, false)]
  unit : r.unitOf d = u
  ptr : r.ptrOf d = n
  info : ((r.st t).robIn.port u).info = r.resultInfo d

theorem hits_iff (w : WbPort) (n : BitVec 4) : w.hits n = true ↔ w.wen = true ∧ w.ptr = n := by
  simp [WbPort.hits]

theorem resultInfo_of_ne (d : Nat) (h : r.unitOf d ≠ .lsu) :
    r.resultInfo d = Issue.wbInfo (r.info d) := if_neg h

theorem resultInfo_of_lsu (d : Nat) (h : r.unitOf d = .lsu) :
    r.resultInfo d = (r.aguOf d).info.wb := if_pos h

theorem writesBack_bjp (t : Nat) (n : BitVec 4) (h : (r.st t).bjpWb.hits n = true) :
    ∃ d, r.WritesBack t .bjp n d := by
  obtain ⟨hw, hp⟩ := (hits_iff _ _).mp h
  simp only [Cpu.bjpWb, Cpu.bjpValid, Bool.and_eq_true, Bool.not_eq_true'] at hw
  obtain ⟨⟨⟨hs, hv⟩, hc⟩, -⟩ := hw
  obtain ⟨d, hd, hi⟩ := r.de2ex_of_vld t hv
  rw [hi, (r.unitOf_of_sel d).1, decide_eq_true_iff] at hs
  refine ⟨d, h, by rw [Tags.writer, hd, hc], hs, ?_, ?_⟩
  · rw [← r.robPtr_info, ← hi]
    exact hp
  · rw [r.resultInfo_of_ne d (by rw [hs]; decide), ← hi]
    rfl

theorem writesBack_nop (t : Nat) (n : BitVec 4)
    (h : ((r.st t).robIn.port .nop).hits n = true) : ∃ d, r.WritesBack t .nop n d := by
  obtain ⟨hw, hp⟩ := (hits_iff _ _).mp h
  have hw' : (r.st t).nopWbWen = true := hw
  simp only [Cpu.nopWbWen, Cpu.nopValid, Bool.and_eq_true, Bool.not_eq_true'] at hw'
  obtain ⟨⟨⟨hs, hv⟩, hc⟩, -⟩ := hw'
  obtain ⟨d, hd, hi⟩ := r.de2ex_of_vld t hv
  rw [hi, (r.unitOf_of_sel d).2.2.2.2, decide_eq_true_iff] at hs
  refine ⟨d, h, by rw [Tags.writer, hd, hc], hs, ?_, ?_⟩
  · rw [← r.robPtr_info, ← hi]
    exact hp
  · rw [r.resultInfo_of_ne d (by rw [hs]; decide), ← hi]
    rfl

theorem writesBack_alu (t : Nat) (n : BitVec 4) (h : (r.st t).aluWb.hits n = true) :
    ∃ d, r.WritesBack t .alu n d := by
  obtain ⟨hw, hp⟩ := (hits_iff _ _).mp h
  simp only [Cpu.aluWb, Bool.and_eq_true, Bool.not_eq_true'] at hw
  obtain ⟨⟨hv, hc⟩, -⟩ := hw
  obtain ⟨d, hd, hu, hx⟩ := Pipe.rel_of_vld (r.rel_alu t) hv
  refine ⟨d, h, by rw [Tags.writer, hd, hc], hu, ?_, ?_⟩
  · rw [← r.robPtr_info, ← hp]
    exact (congrArg (fun x => x.info.robPtr) hx).symm
  · rw [r.resultInfo_of_ne d (by rw [hu]; decide)]
    exact congrArg (fun x => x.info.wb) hx

theorem writesBack_csr (t : Nat) (n : BitVec 4) (h : (r.st t).csrWb.hits n = true) :
    ∃ d, r.WritesBack t .csr n d := by
  obtain ⟨hw, hp⟩ := (hits_iff _ _).mp h
  simp only [Cpu.csrWb, Bool.and_eq_true, Bool.not_eq_true'] at hw
  obtain ⟨⟨hv, hc⟩, -⟩ := hw
  obtain ⟨d, hd, hu, hx⟩ := Pipe.rel_of_vld (r.rel_csr t) hv
  refine ⟨d, h, by rw [Tags.writer, hd, hc], hu, ?_, ?_⟩
  · rw [← r.robPtr_info, ← hp]
    exact (congrArg IssueInfo.robPtr hx).symm
  · rw [r.resultInfo_of_ne d (by rw [hu]; decide)]
    exact congrArg IssueInfo.wb hx

-- The LSU's port serves the response queue, and the exception register only
-- when there is no response.
theorem writesBack_lsu (t : Nat) (n : BitVec 4) (h : (r.st t).lsuWb.hits n = true) :
    ∃ d, r.WritesBack t .lsu n d := by
  obtain ⟨hw, hp⟩ := (hits_iff _ _).mp h
  simp only [Cpu.lsuWb, Lsu.wbWen, Lsu.wbPtr, Lsu.oExcpQueueReady] at hw hp
  cases hr : (r.st t).lsuRspValid with
  | true =>
    rw [hr] at hw hp
    simp only [Bool.true_and, Bool.not_true, Bool.and_false, Bool.false_and, Bool.or_false,
      Bool.and_eq_true, Bool.not_eq_true', if_true, Lsu.rspReady] at hw hp
    obtain ⟨hv, hc⟩ := hw
    obtain ⟨d, rest, hd, ⟨hu, -⟩, hx⟩ := Queue.rel_of_oValid (r.rel_memq t) hv
    refine ⟨d, h, by rw [Tags.writer, hr, if_pos rfl, hd, hc]; rfl, hu, ?_, ?_⟩
    · rw [← r.robPtr_aguOf, ← hp, hx]
      rfl
    · rw [r.resultInfo_of_lsu d hu]
      simp only [Rob.In.port, Cpu.robIn, Cpu.lsuWb, Lsu.wbInfo, hr, if_true, lsuRspErr_eq, hx,
        Lsu.rspExcp, Lsu.iMemQueueInfo]
      simp
  | false =>
    rw [hr] at hw hp
    simp only [Bool.false_and, Bool.not_false, Bool.and_true, Bool.false_or, Bool.and_eq_true,
      Bool.not_eq_true', Bool.false_eq_true, if_false] at hw hp
    obtain ⟨hv, hc⟩ := hw
    obtain ⟨d, hd, hu, -, hx⟩ := Pipe.rel_of_vld (r.rel_excp t) hv
    refine ⟨d, h, by rw [Tags.writer, hr, if_neg Bool.false_ne_true, hd, hc], hu, ?_, ?_⟩
    · rw [← r.robPtr_aguOf, ← hp, hx]
    · rw [r.resultInfo_of_lsu d hu]
      simp only [Rob.In.port, Cpu.robIn, Cpu.lsuWb, Lsu.wbInfo, hr, Bool.false_eq_true, if_false,
        hx]

theorem writesBack_of_hits (t : Nat) (u : WbUnit) (n : BitVec 4)
    (h : ((r.st t).robIn.port u).hits n = true) : ∃ d, r.WritesBack t u n d := by
  cases u with
  | bjp => exact r.writesBack_bjp t n h
  | alu => exact r.writesBack_alu t n h
  | lsu => exact r.writesBack_lsu t n h
  | csr => exact r.writesBack_csr t n h
  | nop => exact r.writesBack_nop t n h

end Run

end HiCore
