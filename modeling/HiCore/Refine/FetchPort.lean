import HiCore.Refine.Bus
import HiCore.Rtl.FetchPort

-- The fetch unit and the ITCM port as queues. The arbiter keeps the order of the
-- commands, so every response finds its fetch at the head of the fetch queue.
namespace HiCore.FetchPort

section Handshakes

variable (s : FetchPort) (i : In)

-- A command enters the ITCM, from either port, and a response leaves it.

def itcmPush : Bool := s.arbt.oCmdValid (s.portCmdValid i) && s.itcmCmdReady i

def itcmPop : Bool := s.itcm.pipe.vldClr (s.itcmRspReady i)

-- A fetch command is accepted, and its response.

def ifqPush : Bool := s.ifetch.memQueue.wen (s.ifetch.memQueueIn (s.ifetchIn i))

def ifqPop : Bool := s.ifetch.memQueue.ren (s.ifetch.memQueueIn (s.ifetchIn i))

-- A fetch exception enters its pipe and leaves it.

def excpPush : Bool := s.ifetch.excpPipe.vldSet false (s.ifetch.excpPipeIn (s.ifetchIn i))

def excpPop : Bool := s.ifetch.excpPipe.vldClr (s.ifetch.oExcpQueueReady s.rspValid)

-- The decoder takes an entry from the fetch buffer.

def bufPop : Bool := s.if2deValid && i.if2deReady

def redirects : Bool := i.flush || i.branch

theorem arbtPush_eq : s.arbt.arbtQueue.wen (s.arbt.queueIn (s.arbtIn i)) = s.itcmPush i :=
  s.arbt.wen_eq (s.arbtIn i)

theorem arbtPop_eq : s.arbt.arbtQueue.ren (s.arbt.queueIn (s.arbtIn i)) = s.itcmPop i :=
  s.arbt.ren_eq (s.arbtIn i)

-- A place in the fetch queue is taken when the fetch command is accepted.
theorem ifqPush_iff : s.ifqPush i = (s.cmdValid i && s.cmdReady i) := by
  simp only [ifqPush, Queue.wen, Ifetch.memQueueIn, Ifetch.iMemQueueValid, ifetchIn, cmdValid,
    Ifetch.cmdValid]
  ac_rfl

-- The fetch unit is served when the LSU does not ask for the ITCM.
theorem ifqPush_eq : s.ifqPush i = (s.itcmPush i && Arbt.indicId (s.portCmdValid i) == 1#1) := by
  rw [ifqPush_iff, cmdReady, portCmdReady, itcmPush, Arbt.cmdReady, Arbt.oCmdValid, portCmdValid]
  cases s.cmdValid i <;> cases i.lsuCmdValid <;> cases s.itcmCmdReady i <;>
    cases s.arbt.rspidFifoFull <;> rfl

theorem ifqPop_eq : s.ifqPop i = (s.itcmPop i && s.arbt.rspPortId == 1#1) := by
  have hr : (s.portRspReady i).getLsbD 1 = s.ifetch.rspReady := by
    rw [portRspReady, rspReady]
    cases s.ifetch.rspReady <;> cases i.lsuRspReady <;> rfl
  rw [ifqPop, itcmPop, Queue.ren, Ifetch.memQueueIn, ifetchIn, rspValid, Arbt.rspValid,
    Pipe.vldClr, itcmRspReady, Arbt.oRspReady, Tcm.rspValid]
  by_cases hp : s.arbt.rspPortId = 1#1
  · have ht : s.arbt.rspPortId.toNat = 1 := by rw [hp]; rfl
    rw [ht, hr, hp, Ifetch.rspReady]
    simp only [beq_self_eq_true, Bool.and_true]
    cases s.itcm.pipe.vld <;> cases s.arbt.rspidFifoEmpty <;> cases s.ifetch.memQueue.oValid <;> rfl
  · simp [beq_eq_false_iff_ne.mpr hp]

theorem oCmd_of_fetch (h : Arbt.indicId (s.portCmdValid i) = 1#1) :
    Arbt.oCmd (s.portCmdValid i) (s.portCmd i) = s.ifetch.cmd := by
  have hsel : ∀ v : BitVec 2, Arbt.indicId v = 1#1 → Arbt.sel v = 2#2 := by decide
  rw [Arbt.oCmd, hsel _ h]
  simp [portCmd, Ifetch.cmd]

-- A command of the LSU is served first.

theorem oCmd_of_lsu (h : i.lsuCmdValid = true) :
    Arbt.oCmd (s.portCmdValid i) (s.portCmd i) = i.lsuCmd := by
  have hsel : Arbt.sel (s.portCmdValid i) = 1#2 := by
    rw [portCmdValid, h]
    cases s.cmdValid i <;> rfl
  rw [Arbt.oCmd, hsel]
  simp [portCmd]

theorem itcmPush_of_lsu (h : i.lsuCmdValid = true) :
    s.itcmPush i = (s.portCmdReady i).getLsbD 0 := by
  rw [itcmPush, portCmdReady, Arbt.cmdReady, Arbt.oCmdValid, portCmdValid, h]
  cases s.cmdValid i <;> cases s.itcmCmdReady i <;> cases s.arbt.rspidFifoFull <;> rfl

theorem legal_of_ifqPush (h : s.ifqPush i = true) : redirects i = false ∧ s.ifetch.legal = true ∧
    s.ifetch.memBypbuf.fifoHalfFull = false := by
  rw [ifqPush_iff, cmdValid, Ifetch.cmdValid] at h
  simp only [Bool.and_eq_true, Bool.not_eq_true'] at h
  obtain ⟨⟨⟨⟨⟨hb, hf⟩, hl⟩, -⟩, hh⟩, -⟩ := h
  exact ⟨by rw [redirects, hb, hf]; rfl, hl, hh⟩

theorem illegal_of_excpPush (h : s.excpPush i = true) :
    redirects i = false ∧ s.ifetch.legal = false := by
  have hv : s.ifetch.iExcpQueueValid i.branch i.flush = true := (Bool.and_eq_true_iff.mp h).1
  simp only [Ifetch.iExcpQueueValid, Bool.and_eq_true, Bool.not_eq_true'] at hv
  rw [redirects, hv.1.1, hv.1.2, Ifetch.legal, ← Bool.not_or, hv.2]
  exact ⟨rfl, rfl⟩

theorem rspPortId_of_items (x : BitVec 1 × Bool) (l : List (BitVec 1 × Bool))
    (h : s.arbt.arbtQueue.items = x :: l) : s.arbt.rspPortId = x.1 := by
  have hv : s.arbt.arbtQueue.oValid = true := by
    rw [Queue.oValid_iff, h]
    exact List.cons_ne_nil _ _
  have hh := Queue.head?_items _ hv
  rw [h] at hh
  simp [Arbt.rspPortId, Arbt.rspidFifoEmpty, hv, Option.some.inj hh]

end Handshakes

-- The commands of the fetch unit among those that the arbiter remembers.
def fetches (l : List (BitVec 1 × Bool)) : Nat := (l.filter fun x => x.1 == 1#1).length

namespace Run

variable (r : Run)

theorem wf_ifq (t : Nat) : (r.st t).ifetch.memQueue.Wf := by
  induction t with
  | zero => exact Queue.wf_reset _
  | succ t ih => exact Queue.wf_next _ _ ih

theorem wf_buf (t : Nat) : (r.st t).ifetch.memBypbuf.Wf := by
  induction t with
  | zero => exact Bypbuf.wf_reset _
  | succ t ih => exact Bypbuf.wf_next _ _ ih

theorem counted_buf (t : Nat) : (r.st t).ifetch.memBypbuf.Counted := by
  induction t with
  | zero => exact Bypbuf.counted_reset _
  | succ t ih => exact Bypbuf.counted_next _ _ (r.wf_buf t) ih

theorem wf_arbt (t : Nat) : (r.st t).arbt.arbtQueue.Wf := by
  induction t with
  | zero => exact Queue.wf_reset _
  | succ t ih => exact Queue.wf_next _ _ ih

-- The four queues after a cycle.

theorem items_arbt_succ (t : Nat) : (r.st (t + 1)).arbt.arbtQueue.items =
    Fifo.next false ((r.st t).itcmPop (r.ins t))
      (if (r.st t).itcmPush (r.ins t) then
        [(Arbt.indicId ((r.st t).portCmdValid (r.ins t)), false)] else [])
      (r.st t).arbt.arbtQueue.items := by
  have h := Queue.items_next (r.st t).arbt.arbtQueue
    ((r.st t).arbt.queueIn ((r.st t).arbtIn (r.ins t))) (r.wf_arbt t)
  rw [arbtPush_eq, arbtPop_eq] at h
  exact h

theorem items_ifq_succ (t : Nat) : (r.st (t + 1)).ifetch.memQueue.items =
    Fifo.next (redirects (r.ins t)) ((r.st t).ifqPop (r.ins t))
      (if (r.st t).ifqPush (r.ins t) then [((r.st t).ifetch.fetchInfo, false)] else [])
      (r.st t).ifetch.memQueue.items :=
  Queue.items_next _ _ (r.wf_ifq t)

theorem items_excp_succ (t : Nat) : (r.st (t + 1)).ifetch.excpPipe.items =
    Fifo.next (redirects (r.ins t)) (r.st t).excpPop
      (if (r.st t).excpPush (r.ins t) then [((r.st t).ifetch.fetchInfo, false)] else [])
      (r.st t).ifetch.excpPipe.items :=
  Pipe.items_next _ _ _

-- What reaches the fetch buffer in a cycle.
def arrives (t : Nat) : List (If2de × Bool) :=
  (r.st t).ifetch.memBypbuf.arrival ((r.st t).ifetch.iIf2deValid (r.st t).rspValid)
    ((r.st t).ifetch.iIf2deInfo (r.st t).rspValid (r.st t).itcm.rspRdata (r.st t).itcm.rspErr)
    ((r.st t).ifetch.iIf2deCancel (r.st t).rspValid)

theorem items_buf_succ (t : Nat) : (r.st (t + 1)).ifetch.memBypbuf.items =
    Fifo.next (redirects (r.ins t)) ((r.st t).bufPop (r.ins t)) (r.arrives t)
      (r.st t).ifetch.memBypbuf.items :=
  Bypbuf.items_next _ _ (r.wf_buf t)

-- The arbiter remembers one command for each that is in the ITCM.
theorem rel_arbt (t : Nat) : Fifo.Rel (fun _ _ => True) (r.st t).itcm.pipe.items
    (r.st t).arbt.arbtQueue.items := by
  induction t with
  | zero =>
    rw [Run.st, FetchPort.reset, Arbt.reset, Queue.items_reset]
    exact .nil
  | succ t ih =>
    rw [items_arbt_succ]
    refine (Pipe.items_next false (r.st t).itcm.pipe
      (Tcm.pipeIn _ ((r.st t).itcmRspReady (r.ins t)))).symm ▸ Fifo.Rel.next _ _ ih ?_
    change Fifo.Rel _ (if (r.st t).itcmPush (r.ins t) then _ else _) _
    split
    · exact .single _ _ _ trivial
    · exact .nil

-- The fetch queue has an entry for each of the fetch unit's commands.
theorem length_ifq (t : Nat) : (r.st t).ifetch.memQueue.items.length =
    fetches (r.st t).arbt.arbtQueue.items := by
  induction t with
  | zero =>
    rw [Run.st, FetchPort.reset, Arbt.reset, Ifetch.reset, Queue.items_reset, Queue.items_reset]
    rfl
  | succ t ih =>
    rw [items_ifq_succ, items_arbt_succ, ifqPush_eq, ifqPop_eq, Fifo.next, Fifo.next,
      Fifo.mark_false, Fifo.mark, List.length_map]
    cases hq : (r.st t).arbt.arbtQueue.items with
    | nil =>
      have hp : (r.st t).itcmPop (r.ins t) = false := by
        have hrel := r.rel_arbt t
        rw [hq] at hrel
        rw [itcmPop, Pipe.vldClr,
          (Pipe.items_eq_nil_iff _).mp (List.forall₂_nil_right_iff.mp hrel)]
        rfl
      rw [hq] at ih
      rw [hp, List.eq_nil_of_length_eq_zero ih]
      cases (r.st t).itcmPush (r.ins t) with
      | false => rfl
      | true =>
        cases h : Arbt.indicId ((r.st t).portCmdValid (r.ins t)) == 1#1 <;> simp [fetches, h]
    | cons x l =>
      rw [rspPortId_of_items _ x l hq]
      rw [hq] at ih
      cases hx : x.1 == 1#1 <;> cases (r.st t).itcmPop (r.ins t) <;>
        cases (r.st t).itcmPush (r.ins t) <;>
        cases h : Arbt.indicId ((r.st t).portCmdValid (r.ins t)) == 1#1 <;>
        simp [fetches, hx, h, Fifo.shift] at ih ⊢ <;> omega

-- The ITCM serves one command at a time.
theorem length_ifq_le (t : Nat) : (r.st t).ifetch.memQueue.items.length ≤ 1 := by
  rw [r.length_ifq t]
  refine (List.length_filter_le _ _).trans ?_
  rw [← (r.rel_arbt t).length_eq, Pipe.items]
  split <;> simp

-- There is a response for the fetch unit exactly when a fetch is outstanding.
theorem rspValid_iff (t : Nat) :
    (r.st t).rspValid = true ↔ (r.st t).ifetch.memQueue.items ≠ [] := by
  have hrel := r.rel_arbt t
  rw [← List.length_pos_iff, r.length_ifq t, rspValid, Arbt.rspValid, Arbt.rspidFifoEmpty,
    Bool.not_not, Tcm.rspValid]
  cases hv : (r.st t).itcm.pipe.vld with
  | false =>
    rw [Pipe.rel_of_not_vld hrel hv]
    simp [fetches]
  | true =>
    obtain ⟨d, hd, -⟩ := Pipe.rel_of_vld hrel hv
    have ho : (r.st t).arbt.arbtQueue.oValid = true := by
      rw [Queue.oValid_iff, hd]
      exact List.cons_ne_nil _ _
    rw [ho, rspPortId_of_items _ _ _ hd, hd]
    by_cases h1 : d = 1#1
    · simp [fetches, h1]
    · simp [fetches, h1]

theorem oValid_of_rspValid (t : Nat) (h : (r.st t).rspValid = true) :
    (r.st t).ifetch.memQueue.oValid = true := by
  rw [Queue.oValid_iff, ← r.rspValid_iff t]
  exact h

-- A fetch that waits for its response keeps every other command out.
theorem not_itcmPush_of_stuck (t : Nat) (hq : (r.st t).ifetch.memQueue.items ≠ [])
    (hp : (r.st t).ifqPop (r.ins t) = false) : (r.st t).itcmPush (r.ins t) = false := by
  have hv := (r.rspValid_iff t).mpr hq
  simp only [rspValid, Arbt.rspValid, Bool.and_eq_true, Tcm.rspValid] at hv
  obtain ⟨⟨-, hv⟩, h1⟩ := hv
  rw [ifqPop_eq, h1, Bool.and_true, itcmPop] at hp
  rw [itcmPush, itcmCmdReady, Tcm.cmdReady, Pipe.iRdy, hv, hp]
  exact Bool.and_false _

theorem itcm_ram_succ (t : Nat) : (r.st (t + 1)).itcm.ram =
    (r.st t).itcm.ram.next ((r.st t).itcmPush (r.ins t))
      (!(Arbt.oCmd ((r.st t).portCmdValid (r.ins t)) ((r.st t).portCmd (r.ins t))).read)
      (Tcm.index (Arbt.oCmd ((r.st t).portCmdValid (r.ins t)) ((r.st t).portCmd (r.ins t))).addr)
      (Arbt.oCmd ((r.st t).portCmdValid (r.ins t)) ((r.st t).portCmd (r.ins t))).wmask
      (Arbt.oCmd ((r.st t).portCmdValid (r.ins t)) ((r.st t).portCmd (r.ins t))).wdata := rfl

theorem itcm_of_ifqPush (t : Nat) (h : (r.st t).ifqPush (r.ins t) = true) :
    (r.st (t + 1)).itcm.ram = ⟨(r.st t).itcm.ram.memR, Tcm.index (r.st t).ifetch.pc⟩ := by
  rw [ifqPush_eq, Bool.and_eq_true, beq_iff_eq] at h
  rw [itcm_ram_succ, oCmd_of_fetch _ _ h.2, h.1, SimRam.next]
  simp [Ifetch.cmd]

-- Until then the ITCM stays as it is.
theorem itcm_of_not_ifqPop (t : Nat) (hq : (r.st t).ifetch.memQueue.items ≠ [])
    (hp : (r.st t).ifqPop (r.ins t) = false) : (r.st (t + 1)).itcm.ram = (r.st t).itcm.ram := by
  rw [itcm_ram_succ, r.not_itcmPush_of_stuck t hq hp]
  rfl

end Run

end HiCore.FetchPort
