import HiCore.Lib.History
import HiCore.Refine.Buffers
import HiCore.Rtl.Lsu

-- The LSU between the AGU and the bus, for any requests, flushes and slave that
-- answers in order. A request enters the memory queue and the command buffer in
-- the same cycle, so the two number their entries alike.
namespace HiCore.Lsu

structure Run where
  power : Lsu
  ins : Nat → In

namespace Run

open History

variable (r : Run)

def st (t : Nat) : Lsu := History.run Lsu.next r.power.reset r.ins t

-- A request is accepted from the AGU that is neither cancelled nor has an exception.
def requests (t : Nat) : Bool :=
  (r.ins t).agu2lsuValid &&
    (r.st t).iAgu2lsuReady (r.ins t).agu2lsuCancel (r.ins t).agu2lsu (r.ins t).rspValid &&
    !(r.ins t).agu2lsuCancel && !hasExcp (r.ins t).agu2lsu

-- The bus takes a command, and the LSU takes a response.

def sends (t : Nat) : Bool :=
  (r.st t).cmdValid (r.ins t).agu2lsuValid (r.ins t).agu2lsuCancel (r.ins t).agu2lsu &&
    (r.ins t).cmdReady

def answered (t : Nat) : Bool := (r.ins t).rspValid && (r.st t).rspReady

-- The slave responds to commands it took in earlier cycles, once to each.
def InOrder : Prop := ∀ t, (r.ins t).rspValid = true → times r.answered t < times r.sends t

theorem requests_eq (t : Nat) : r.requests t = ((r.ins t).agu2lsuValid && !hasExcp (r.ins t).agu2lsu &&
    !(r.ins t).agu2lsuCancel && (r.st t).memQueue.iReady && (r.st t).memBypbuf.iRdy) := by
  rw [requests, iAgu2lsuReady]
  cases (r.ins t).agu2lsuValid <;> cases (r.ins t).agu2lsuCancel <;>
    cases hasExcp (r.ins t).agu2lsu <;> simp

theorem memQueue_wen (t : Nat) :
    (r.st t).memQueue.wen ((r.st t).memQueueIn (r.ins t)) = r.requests t := by
  simp only [requests_eq, Queue.wen, memQueueIn, iMemQueueValid]
  ac_rfl

theorem memQueue_ren (t : Nat) :
    (r.st t).memQueue.ren ((r.st t).memQueueIn (r.ins t)) = r.answered t := Bool.and_comm _ _

theorem isQueue_memQueue : IsQueue (fun t => iMemQueueInfo (r.ins t).agu2lsu) (fun _ => false)
    r.requests r.answered (fun t => (r.ins t).flush) fun t => (r.st t).memQueue.items := by
  have h := Queue.isQueue (q := fun t => (r.st t).memQueue)
    (i := fun t => (r.st t).memQueueIn (r.ins t)) (Queue.items_reset _) (Queue.wf_reset _) fun _ => rfl
  simp only [memQueue_wen, memQueue_ren] at h
  exact h

theorem memBypbuf_push (t : Nat) :
    ((r.st t).iMemFifoVld (r.ins t).agu2lsuValid (r.ins t).agu2lsuCancel (r.ins t).agu2lsu &&
      (r.st t).memBypbuf.iRdy) = r.requests t := by
  rw [requests_eq, iMemFifoVld]

theorem isQueue_memBypbuf : IsQueue (fun t => iMemFifoWdat (r.ins t).agu2lsu) (fun _ => false)
    r.requests r.sends (fun _ => false) fun t => (r.st t).memBypbuf.items := by
  have h := Bypbuf.isQueue (b := fun t => (r.st t).memBypbuf)
    (i := fun t => (r.st t).memBypbufIn (r.ins t)) (Bypbuf.items_reset _) (Bypbuf.wf_reset _)
    fun _ => rfl
  simp only [memBypbufIn, memBypbuf_push] at h
  exact h

-- The two queues differ by what the bus holds.
theorem length_memQueue (t : Nat) : (r.st t).memQueue.items.length + times r.answered t =
    (r.st t).memBypbuf.items.length + times r.sends t := by
  have hq := r.isQueue_memQueue.length t
  have hb := r.isQueue_memBypbuf.length t
  omega

theorem rspReady_of_outstanding (t : Nat) (h : times r.answered t < times r.sends t) :
    (r.st t).rspReady = true := by
  have hl := r.length_memQueue t
  rw [rspReady, Queue.oValid_iff, ← List.length_pos_iff]
  omega

-- A command that leaves is that of the first request that has not left.
theorem cmd_of_sends (t : Nat) (h : r.sends t = true) : ∃ u ≤ t, Nth r.requests (times r.sends t) u ∧
    (r.st t).cmd (r.ins t).agu2lsu = iMemFifoWdat (r.ins u).agu2lsu := by
  have hh := Bypbuf.head?_items (r.st t).memBypbuf _ (iMemFifoWdat (r.ins t).agu2lsu) false
    (Bool.and_eq_true_iff.mp h).1
  rw [Bypbuf.arrival, memBypbuf_push] at hh
  obtain ⟨u, hu, hn, hx, -⟩ := r.isQueue_memBypbuf.head? t _ _ hh
  exact ⟨u, hu, hn, hx⟩

theorem memQueue_head (t : Nat) (h : (r.st t).rspReady = true) :
    ∃ u < t, Nth r.requests (times r.answered t) u ∧
      (r.st t).memQueue.oInfo = iMemQueueInfo (r.ins u).agu2lsu ∧
      ((r.st t).memQueue.oCancel = true ↔ ∃ v, u ≤ v ∧ v < t ∧ (r.ins v).flush = true) := by
  obtain ⟨u, hu, hn, hx, hc⟩ := r.isQueue_memQueue.head?_items t _ _ (Queue.head?_items _ h)
  refine ⟨u, hu, hn, hx, ?_⟩
  rw [hc, marked_iff]
  simp

-- While a response is there, the other source of results waits.
theorem wbWen_of_rspValid (l : Lsu) (h : l.rspReady = true) : l.wbWen true = !l.memQueue.oCancel := by
  simp [wbWen, oExcpQueueReady, h]

-- The LSU in cycle `t`, as seen from its ports. The number of a response is that
-- of the command and of the request it belongs to.
structure Pairs (t : Nat) : Prop where
  command : r.sends t = true → ∃ u ≤ t, Nth r.requests (times r.sends t) u ∧
    (r.st t).cmd (r.ins t).agu2lsu = iMemFifoWdat (r.ins u).agu2lsu
  buffered : times r.sends t + (r.st t).memBypbuf.items.length = times r.requests t
  length : (r.st t).memQueue.items.length + times r.answered t =
    (r.st t).memBypbuf.items.length + times r.sends t
  ready : (r.ins t).rspValid = true → (r.st t).rspReady = true
  response : (r.ins t).rspValid = true → ∃ u < t, Nth r.requests (times r.answered t) u ∧
    ((r.st t).wbWen true = false ↔ ∃ v, u ≤ v ∧ v < t ∧ (r.ins v).flush = true) ∧
    (r.st t).wbPtr true = (r.ins u).agu2lsu.info.robPtr ∧
    (r.st t).wbInfo true (r.ins t).rspErr = { (r.ins u).agu2lsu.info.wb with
      excp := (r.ins u).agu2lsu.info.wb.excp |||
        rspExcp (iMemQueueInfo (r.ins u).agu2lsu) (r.ins t).rspErr } ∧
    (r.st t).wbRdData (r.ins t).rspRdata = rdData (iMemQueueInfo (r.ins u).agu2lsu) (r.ins t).rspRdata

theorem lsu_pairs (r : Run) (hs : r.InOrder) (t : Nat) : r.Pairs t where
  command := r.cmd_of_sends t
  buffered := r.isQueue_memBypbuf.length t
  length := r.length_memQueue t
  ready h := r.rspReady_of_outstanding t (hs t h)
  response h := by
    have hr := r.rspReady_of_outstanding t (hs t h)
    obtain ⟨u, hu, hn, hi, hc⟩ := r.memQueue_head t hr
    refine ⟨u, hu, hn, ?_, ?_, ?_, ?_⟩
    · rw [wbWen_of_rspValid _ hr, Bool.not_eq_false', hc]
    · rw [wbPtr, if_pos rfl, hi]
      rfl
    · rw [wbInfo, if_pos rfl, hi]
      rfl
    · rw [wbRdData, hi]

-- Two loads with a flush between them, both on the bus when the first response comes.
def flushedLoad : Run where
  power :=
    { excpQueue := Pipe.reset
      memQueue :=
        { wrPtr := 0#3, rdPtr := 0#3, queueRam := fun _ => iMemQueueInfo default,
          queueCancel := fun _ => false }
      memBypbuf :=
        { fifo := { wrPtr := 0#3, rdPtr := 0#3, queueRam := fun _ => default,
                    queueCancel := fun _ => false }
          fifoCnt := 0#2 } }
  ins t :=
    { agu2lsuValid := t == 0 || t == 2
      agu2lsuCancel := false
      agu2lsu :=
        { (default : Agu.Agu2lsu) with
          wordAccess := true, read := true, addr := 0x80000010#32,
          info := { robPtr := BitVec.ofNat 4 t, wb := default } }
      cmdReady := t != 0
      rspValid := t == 3 || t == 4
      rspErr := false
      rspRdata := BitVec.ofNat 32 t
      flush := t == 1 }

-- The first load is dropped and the second one gets its own word.
theorem lsu_pairs_flushedLoad : flushedLoad.InOrder ∧
    ((flushedLoad.st 3).memQueue.items.length = 2 ∧ (flushedLoad.st 3).wbWen true = false) ∧
    (flushedLoad.st 4).wbWen true = true ∧ (flushedLoad.st 4).wbPtr true = 2#4 ∧
      (flushedLoad.st 4).wbRdData 4#32 = 4#32 := by
  have h : flushedLoad.InOrder := by
    intro t ht
    have ht' : t = 3 ∨ t = 4 := by simpa [flushedLoad] using ht
    rcases ht' with rfl | rfl <;> decide
  have h3 := (lsu_pairs flushedLoad h 3).response rfl
  have h4 := (lsu_pairs flushedLoad h 4).response rfl
  have hn3 : ∀ u < 3, Nth flushedLoad.requests (times flushedLoad.answered 3) u → u = 0 := by
    unfold Nth
    decide
  have hn4 : ∀ u < 4, Nth flushedLoad.requests (times flushedLoad.answered 4) u → u = 2 := by
    unfold Nth
    decide
  obtain ⟨u, hu, hn, hw, -⟩ := h3
  obtain ⟨v, hv, hn', hw', hp, -, hd⟩ := h4
  obtain rfl := hn3 u hu hn
  obtain rfl := hn4 v hv hn'
  refine ⟨h, ⟨by decide, hw.mpr ⟨1, by decide⟩⟩, ?_, hp, hd.trans (by decide)⟩
  rw [← Bool.not_eq_false, hw']
  rintro ⟨t, h2, -, hf⟩
  obtain rfl : t = 1 := beq_iff_eq.mp hf
  omega

end Run

end HiCore.Lsu
