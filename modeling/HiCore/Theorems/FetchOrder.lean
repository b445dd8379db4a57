import HiCore.Theorems.FetchPort

-- The order in which the fetch unit delivers. Words and fetch exceptions reach
-- the buffer on two ways, and only a word can overtake: one that is asked for
-- while an exception waits in front of a full buffer.
namespace HiCore.FetchPort

-- Where a redirect leads.
def target (i : In) : BitVec 32 := if i.flush then i.flushPc else i.branchPc

-- The `m` addresses from `a` on.
def addresses (a : BitVec 32) (m : Nat) : List (BitVec 32) :=
  (List.range m).map fun k => a + BitVec.ofNat 32 (4 * k)

-- The addresses of the entries that are not cancelled.
def pcs {α : Type} (pc : α → BitVec 32) (l : List (α × Bool)) : List (BitVec 32) :=
  (Fifo.unmarked l).map pc

section Pcs

variable {α : Type} (pc : α → BitVec 32)

@[simp] theorem pcs_nil : pcs pc [] = [] := rfl

@[simp] theorem pcs_append (l m : List (α × Bool)) : pcs pc (l ++ m) = pcs pc l ++ pcs pc m := by
  simp [pcs]

theorem pcs_single (x : α) (c : Bool) : pcs pc [(x, c)] = if c then [] else [pc x] := by
  cases c <;> rfl

theorem pcs_next (pop : Bool) (push l : List (α × Bool)) :
    (if pop then pcs pc ((l ++ push).take 1) else []) ++ pcs pc (Fifo.next false pop push l) =
      pcs pc l ++ pcs pc push := by
  have h := congrArg (List.map pc) (Fifo.unmarked_next pop push l)
  rw [List.map_append, List.map_append] at h
  refine Eq.trans ?_ h
  cases pop <;> rfl

theorem pcs_next_of_redirect (pop : Bool) (push l : List (α × Bool)) :
    pcs pc (Fifo.next true pop push l) = [] := by
  rw [pcs, Fifo.next, Fifo.unmarked_mark_true]
  rfl

end Pcs

@[simp] theorem length_addresses (a : BitVec 32) (m : Nat) : (addresses a m).length = m := by
  simp [addresses]

-- A prefix of such a list is such a list.
theorem eq_addresses_of_prefix (a : BitVec 32) (l : List (BitVec 32)) (m : Nat)
    (h : l <+: addresses a m) : l = addresses a l.length := by
  have hl := h.length_le
  rw [length_addresses] at hl
  rw [List.prefix_iff_eq_take.mp h, addresses, ← List.map_take, List.take_range, addresses]
  simp [Nat.min_eq_left hl]

namespace Run

variable (r : Run)

-- The entry that the decoder takes in cycle `t`.
def delivers (t : Nat) : List (BitVec 32) :=
  if (r.st t).bufPop (r.ins t) && !(r.st t).if2deCancel then [(r.st t).if2de.pc] else []

-- What it takes in the `n` cycles from cycle `a` on.
def delivered (a n : Nat) : List (BitVec 32) := (List.range n).flatMap fun k => r.delivers (a + k)

-- What is on its way to the decoder, the oldest first.
def waiting (t : Nat) : List (BitVec 32) :=
  pcs If2de.pc (r.st t).ifetch.memBypbuf.items ++ pcs FetchInfo.pc (r.st t).ifetch.memQueue.items ++
    pcs FetchInfo.pc (r.st t).ifetch.excpPipe.items

-- The addresses that go on their way in cycle `t`.

def fetched (t : Nat) : List (BitVec 32) :=
  if (r.st t).ifqPush (r.ins t) then [(r.st t).ifetch.pc] else []

def faulted (t : Nat) : List (BitVec 32) :=
  if (r.st t).excpPush (r.ins t) then [(r.st t).ifetch.pc] else []

-- A fetch command is accepted while an exception waits in front of a full buffer.
def Overtakes (t : Nat) : Prop :=
  ((r.st t).cmdValid (r.ins t) = true ∧ (r.st t).cmdReady (r.ins t) = true) ∧
    (r.st t).ifetch.memBypbuf.iRdy = false ∧ (r.st t).ifetch.excpPipe.vld = true ∧
    (r.st t).ifetch.excpPipe.cancel = false

theorem delivers_eq (t : Nat) : r.delivers t = if (r.st t).bufPop (r.ins t) then
    pcs If2de.pc (((r.st t).ifetch.memBypbuf.items ++ r.arrives t).take 1) else [] := by
  rw [delivers]
  cases hp : (r.st t).bufPop (r.ins t) with
  | false => rfl
  | true =>
    have hv : (r.st t).if2deValid = true := (Bool.and_eq_true_iff.mp hp).1
    have hh : ((r.st t).ifetch.memBypbuf.items ++ r.arrives t).head? =
        some ((r.st t).if2de, (r.st t).if2deCancel) := Bypbuf.head?_items _ _ _ _ hv
    obtain ⟨rest, hl⟩ := List.head?_eq_some_iff.mp hh
    rw [hl, if_pos rfl, List.take_succ_cons, List.take_zero, pcs_single]
    cases (r.st t).if2deCancel <;> rfl

-- Both ways into the buffer. A fetch that is outstanding has its response there.

theorem arrives_of_rspValid (t : Nat) (h : (r.st t).rspValid = true) :
    pcs If2de.pc (r.arrives t) = (if (r.st t).ifqPop (r.ins t) then
      pcs FetchInfo.pc ((r.st t).ifetch.memQueue.items.take 1) else []) ∧
    (r.st t).excpPop = false := by
  have ho := r.oValid_of_rspValid t h
  obtain ⟨rest, hl⟩ := List.head?_eq_some_iff.mp (Queue.head?_items _ ho)
  have hpop : (r.st t).ifqPop (r.ins t) = (r.st t).ifetch.memBypbuf.iRdy := by
    simp [ifqPop, Queue.ren, Ifetch.memQueueIn, ifetchIn, Ifetch.iIf2deReady, h, ho]
  refine ⟨?_, by simp [excpPop, Pipe.vldClr, Ifetch.oExcpQueueReady, h]⟩
  rw [hpop, hl, List.take_succ_cons, List.take_zero, pcs_single, arrives, Bypbuf.arrival,
    Ifetch.iIf2deValid, h, ho, Ifetch.iIf2deInfo, Ifetch.iIf2deCancel]
  cases (r.st t).ifetch.memBypbuf.iRdy with
  | false => simp
  | true => simp [pcs_single]

theorem arrives_of_not_rspValid (t : Nat) (h : (r.st t).rspValid = false) :
    pcs If2de.pc (r.arrives t) = (if (r.st t).excpPop then
      pcs FetchInfo.pc (r.st t).ifetch.excpPipe.items else []) ∧
    (r.st t).ifetch.memQueue.items = [] := by
  refine ⟨?_, ?_⟩
  · rw [arrives, Bypbuf.arrival, Ifetch.iIf2deValid, h, excpPop, Pipe.vldClr,
      Ifetch.oExcpQueueReady, h, Ifetch.iIf2deReady, Ifetch.iIf2deInfo, Ifetch.iIf2deCancel]
    cases hv : (r.st t).ifetch.excpPipe.vld with
    | false => simp
    | true =>
      rw [Pipe.items_of_vld _ hv]
      cases (r.st t).ifetch.memBypbuf.iRdy with
      | false => simp
      | true => simp [pcs_single]
  · by_contra hn
    rw [(r.rspValid_iff t).mpr hn] at h
    exact Bool.noConfusion h

-- The fetch queue and the exception pipe after a cycle without a redirect.

theorem ifq_succ (t : Nat) (h : redirects (r.ins t) = false) :
    (if (r.st t).ifqPop (r.ins t) then pcs FetchInfo.pc ((r.st t).ifetch.memQueue.items.take 1)
      else []) ++ pcs FetchInfo.pc (r.st (t + 1)).ifetch.memQueue.items =
    pcs FetchInfo.pc (r.st t).ifetch.memQueue.items ++ r.fetched t := by
  have hn := pcs_next FetchInfo.pc ((r.st t).ifqPop (r.ins t))
    (if (r.st t).ifqPush (r.ins t) then [((r.st t).ifetch.fetchInfo, false)] else [])
    (r.st t).ifetch.memQueue.items
  have hpush : pcs FetchInfo.pc (if (r.st t).ifqPush (r.ins t) then
      [((r.st t).ifetch.fetchInfo, false)] else []) = r.fetched t := by
    rw [fetched]
    cases (r.st t).ifqPush (r.ins t) <;> rfl
  rw [items_ifq_succ, h, ← hpush, ← hn]
  cases hp : (r.st t).ifqPop (r.ins t) with
  | false => rfl
  | true =>
    have ho : (r.st t).ifetch.memQueue.oValid = true := (Bool.and_eq_true_iff.mp hp).1
    rw [if_pos rfl, if_pos rfl, List.take_append_of_le_length]
    exact List.length_pos_iff.mpr ((Queue.oValid_iff _).mp ho)

theorem excp_succ (t : Nat) (h : redirects (r.ins t) = false) :
    (if (r.st t).excpPop then pcs FetchInfo.pc (r.st t).ifetch.excpPipe.items else []) ++
      pcs FetchInfo.pc (r.st (t + 1)).ifetch.excpPipe.items =
    pcs FetchInfo.pc (r.st t).ifetch.excpPipe.items ++ r.faulted t := by
  have hn := pcs_next FetchInfo.pc (r.st t).excpPop
    (if (r.st t).excpPush (r.ins t) then [((r.st t).ifetch.fetchInfo, false)] else [])
    (r.st t).ifetch.excpPipe.items
  have hpush : pcs FetchInfo.pc (if (r.st t).excpPush (r.ins t) then
      [((r.st t).ifetch.fetchInfo, false)] else []) = r.faulted t := by
    rw [faulted]
    cases (r.st t).excpPush (r.ins t) <;> rfl
  rw [items_excp_succ, h, ← hpush, ← hn]
  cases hp : (r.st t).excpPop with
  | false => rfl
  | true =>
    have hv : (r.st t).ifetch.excpPipe.vld = true := (Bool.and_eq_true_iff.mp hp).1
    rw [if_pos rfl, if_pos rfl, Pipe.items_of_vld _ hv]
    rfl

-- What is on the way through the buffer, and what waits in the exception pipe.

def lane (t : Nat) : List (BitVec 32) :=
  pcs If2de.pc (r.st t).ifetch.memBypbuf.items ++ pcs FetchInfo.pc (r.st t).ifetch.memQueue.items

def faults (t : Nat) : List (BitVec 32) := pcs FetchInfo.pc (r.st t).ifetch.excpPipe.items

theorem waiting_eq (t : Nat) : r.waiting t = r.lane t ++ r.faults t := rfl

-- An exception enters the lane when it leaves its pipe, before the fetch of the cycle.
theorem lane_succ (t : Nat) (h : redirects (r.ins t) = false) : r.delivers t ++ r.lane (t + 1) =
    r.lane t ++ ((if (r.st t).excpPop then r.faults t else []) ++ r.fetched t) := by
  have hbuf := pcs_next If2de.pc ((r.st t).bufPop (r.ins t)) (r.arrives t)
    (r.st t).ifetch.memBypbuf.items
  have hq := r.ifq_succ t h
  rw [← r.delivers_eq, ← h, ← items_buf_succ] at hbuf
  rw [lane, lane, ← List.append_assoc, hbuf]
  cases hv : (r.st t).rspValid with
  | true =>
    obtain ⟨ha, hpop⟩ := r.arrives_of_rspValid t hv
    rw [ha, hpop, List.append_assoc, List.append_assoc, hq]
    rfl
  | false =>
    obtain ⟨ha, hnil⟩ := r.arrives_of_not_rspValid t hv
    have hnone : (if (r.st t).ifqPop (r.ins t) then
        pcs FetchInfo.pc ((r.st t).ifetch.memQueue.items.take 1) else []) = [] := by
      rw [hnil]
      cases (r.st t).ifqPop (r.ins t) <;> rfl
    rw [hnone, hnil, List.nil_append, pcs_nil, List.nil_append] at hq
    rw [ha, hnil, hq, pcs_nil, List.append_nil, List.append_assoc]
    rfl

-- An exception that waits behind a response finds the buffer nearly full.
def Behind (t : Nat) : Prop :=
  pcs FetchInfo.pc (r.st t).ifetch.excpPipe.items ≠ [] → (r.st t).rspValid = true →
    7 ≤ (r.st t).ifetch.memBypbuf.items.length

theorem excp_ne_nil_iff (t : Nat) : pcs FetchInfo.pc (r.st t).ifetch.excpPipe.items ≠ [] ↔
    (r.st t).ifetch.excpPipe.vld = true ∧ (r.st t).ifetch.excpPipe.cancel = false := by
  rw [Pipe.items]
  cases (r.st t).ifetch.excpPipe.vld with
  | false => simp
  | true =>
    rw [if_pos rfl, pcs_single]
    cases (r.st t).ifetch.excpPipe.cancel <;> simp

-- No exception is left behind a fetch.
theorem excp_of_ifqPush (t : Nat) (hb : r.Behind t) (ho : ¬ r.Overtakes t)
    (hp : (r.st t).ifqPush (r.ins t) = true) :
    r.faulted t = [] ∧ pcs FetchInfo.pc (r.st (t + 1)).ifetch.excpPipe.items = [] := by
  obtain ⟨hr, hl, -⟩ := (r.st t).legal_of_ifqPush (r.ins t) hp
  have hf : r.faulted t = [] := by
    rw [faulted, if_neg]
    intro he
    rw [((r.st t).illegal_of_excpPush (r.ins t) he).2] at hl
    exact Bool.noConfusion hl
  refine ⟨hf, ?_⟩
  have hs := r.excp_succ t hr
  rw [hf, List.append_nil] at hs
  by_cases he : pcs FetchInfo.pc (r.st t).ifetch.excpPipe.items = []
  · rw [he] at hs
    exact (List.append_eq_nil_iff.mp hs).2
  · -- It is there, so it leaves: the buffer has room and no response comes first.
    obtain ⟨hv, hc⟩ := (r.excp_ne_nil_iff t).mp he
    have hroom : (r.st t).ifetch.memBypbuf.iRdy = true := by
      rw [← Bool.not_eq_false]
      intro hfull
      rw [ifqPush_iff, Bool.and_eq_true] at hp
      exact ho ⟨hp, hfull, hv, hc⟩
    have hrsp : (r.st t).rspValid = false := by
      rw [← Bool.not_eq_true]
      intro hrv
      have h7 := hb he hrv
      rcases r.length_buf_of_ifqPush t hp with h4 | hfull
      · omega
      · rw [hroom] at hfull
        exact Bool.noConfusion hfull
    have hpop : (r.st t).excpPop = true := by
      simp [excpPop, Pipe.vldClr, Ifetch.oExcpQueueReady, Ifetch.iIf2deReady, hv, hrsp, hroom]
    rw [hpop, if_pos rfl] at hs
    exact List.append_cancel_left (hs.trans (List.append_nil _).symm)

theorem behind_succ (t : Nat) (hb : r.Behind t) (ho : ¬ r.Overtakes t) : r.Behind (t + 1) := by
  intro he hv
  rcases r.rspValid_succ t hv with hp | ⟨hv', hr'⟩
  · exact absurd (r.excp_of_ifqPush t hb ho hp).2 he
  · have hfull : (r.st t).ifetch.memBypbuf.iRdy = false := by
      rw [← Bool.not_eq_true, ← r.rspReady_iff t hv', hr']
      exact Bool.false_ne_true
    rw [r.length_buf_succ_of_full t hfull]
    split <;> omega

-- One cycle: what the decoder takes and what still waits is what waited and what
-- goes on its way.
theorem waiting_succ (t : Nat) (h : redirects (r.ins t) = false) (hb : r.Behind t)
    (ho : ¬ r.Overtakes t) :
    r.delivers t ++ r.waiting (t + 1) = r.waiting t ++ (r.fetched t ++ r.faulted t) := by
  have hl := r.lane_succ t h
  have hx : (if (r.st t).excpPop then r.faults t else []) ++ r.faults (t + 1) =
    r.faults t ++ r.faulted t := r.excp_succ t h
  rw [waiting_eq, waiting_eq, ← List.append_assoc, hl, List.append_assoc, List.append_assoc,
    List.append_assoc]
  by_cases hf : r.fetched t = []
  · rw [hf, List.nil_append, hx, List.nil_append]
  · -- The fetch leaves no exception behind.
    obtain ⟨h1, h2⟩ := r.excp_of_ifqPush t hb ho (by
      by_contra hp
      exact hf (by rw [fetched, if_neg hp]))
    have hn : r.faults (t + 1) = [] := h2
    rw [hn, h1, List.append_nil, List.append_nil] at hx
    rw [hn, h1, hx]

-- In the cycle of a redirect too the decoder takes the oldest entry.
theorem delivers_prefix (t : Nat) : r.delivers t <+: r.waiting t := by
  have hbuf := pcs_next If2de.pc ((r.st t).bufPop (r.ins t)) (r.arrives t)
    (r.st t).ifetch.memBypbuf.items
  rw [← r.delivers_eq] at hbuf
  have hd : r.delivers t <+: pcs If2de.pc (r.st t).ifetch.memBypbuf.items ++
      pcs If2de.pc (r.arrives t) := ⟨_, hbuf⟩
  refine hd.trans ?_
  rw [waiting, List.append_assoc]
  refine (List.prefix_append_right_inj _).mpr ?_
  cases hv : (r.st t).rspValid with
  | true =>
    rw [(r.arrives_of_rspValid t hv).1]
    refine List.IsPrefix.trans ?_ (List.prefix_append _ _)
    split
    · refine ⟨pcs FetchInfo.pc ((r.st t).ifetch.memQueue.items.drop 1), ?_⟩
      rw [← pcs_append, List.take_append_drop]
    · exact List.nil_prefix
  | false =>
    obtain ⟨ha, hnil⟩ := r.arrives_of_not_rspValid t hv
    rw [ha, hnil, pcs_nil, List.nil_append]
    split
    · exact List.prefix_rfl
    · exact List.nil_prefix

theorem waiting_of_redirect (t : Nat) (h : redirects (r.ins t) = true) : r.waiting (t + 1) = [] := by
  rw [waiting, items_buf_succ, items_ifq_succ, items_excp_succ, h, pcs_next_of_redirect,
    pcs_next_of_redirect, pcs_next_of_redirect]
  rfl

theorem pc_of_redirect (t : Nat) (h : redirects (r.ins t) = true) :
    (r.st (t + 1)).ifetch.pc = target (r.ins t) := by
  change dfflr ((r.st t).ifetch.pcEna ((r.st t).ifetchIn (r.ins t)))
    ((r.st t).ifetch.pcNext ((r.st t).ifetchIn (r.ins t))) _ = _
  have he : (r.st t).ifetch.pcEna ((r.st t).ifetchIn (r.ins t)) = true := by
    rw [redirects] at h
    simp only [Ifetch.pcEna, ifetchIn, Bool.or_assoc, Bool.or_comm (r.ins t).branch, h,
      Bool.or_true]
  rw [he, dfflr_true, Ifetch.pcNext, target, ifetchIn]
  rw [redirects] at h
  cases hf : (r.ins t).flush with
  | true => rfl
  | false =>
    rw [hf, Bool.false_or] at h
    simp [h]

-- The address advances with every entry that goes on its way.
theorem pc_succ (t : Nat) (h : redirects (r.ins t) = false) : (r.st (t + 1)).ifetch.pc =
    (r.st t).ifetch.pc + BitVec.ofNat 32 (4 * (r.fetched t ++ r.faulted t).length) ∧
    r.fetched t ++ r.faulted t = addresses (r.st t).ifetch.pc (r.fetched t ++ r.faulted t).length := by
  obtain ⟨hf, hb⟩ := Bool.or_eq_false_iff.mp h
  have he : (r.st t).ifetch.pcEna ((r.st t).ifetchIn (r.ins t)) =
      ((r.st t).ifqPush (r.ins t) || (r.st t).excpPush (r.ins t)) := by
    have hx : (r.st t).excpPush (r.ins t) = ((r.st t).ifetch.iExcpQueueValid (r.ins t).branch
      (r.ins t).flush && (r.st t).ifetch.excpPipe.iRdy false
        ((r.st t).ifetch.oExcpQueueReady (r.st t).rspValid)) := rfl
    rw [ifqPush_iff, hx]
    simp [Ifetch.pcEna, ifetchIn, hf, hb, cmdValid]
  have hn : (r.st (t + 1)).ifetch.pc =
      dfflr ((r.st t).ifetch.pcEna ((r.st t).ifetchIn (r.ins t)))
        ((r.st t).ifetch.pc + 4#32) (r.st t).ifetch.pc := by
    change dfflr _ ((r.st t).ifetch.pcNext ((r.st t).ifetchIn (r.ins t))) _ = _
    simp [Ifetch.pcNext, ifetchIn, hf, hb]
  rw [hn, he, fetched, faulted]
  cases hp : (r.st t).ifqPush (r.ins t) with
  | true =>
    -- A legal address makes no exception.
    have hx : (r.st t).excpPush (r.ins t) = false := by
      obtain ⟨-, hl, -⟩ := (r.st t).legal_of_ifqPush (r.ins t) hp
      by_contra hx
      rw [Bool.not_eq_false] at hx
      rw [((r.st t).illegal_of_excpPush (r.ins t) hx).2] at hl
      exact Bool.noConfusion hl
    simp [hx, addresses]
  | false => cases (r.st t).excpPush (r.ins t) <;> simp [addresses]

theorem delivered_succ (a n : Nat) :
    r.delivered a (n + 1) = r.delivered a n ++ r.delivers (a + n) := by
  simp [delivered, List.range_succ]

-- Fetching starts at address `rp` in cycle `a`: after reset, or after a redirect.
def Starts (a : Nat) (rp : BitVec 32) : Prop :=
  (a = 0 ∧ rp = 0#32) ∨ ∃ b, a = b + 1 ∧ redirects (r.ins b) = true ∧ target (r.ins b) = rp

theorem start (a : Nat) (rp : BitVec 32) (h : r.Starts a rp) :
    r.waiting a = [] ∧ (r.st a).ifetch.pc = rp := by
  rcases h with ⟨rfl, rfl⟩ | ⟨b, rfl, hb, rfl⟩
  · refine ⟨?_, rfl⟩
    change pcs _ (Bypbuf.reset _).items ++ pcs _ (Queue.reset _).items ++ pcs _ Pipe.reset.items = []
    rw [Bypbuf.items_reset, Queue.items_reset, Pipe.items_reset]
    rfl
  · exact ⟨r.waiting_of_redirect b hb, r.pc_of_redirect b hb⟩

theorem addresses_append (a : BitVec 32) (m n : Nat) : addresses a m ++
    addresses (a + BitVec.ofNat 32 (4 * m)) n = addresses a (m + n) := by
  rw [addresses, addresses, addresses, List.range_add, List.map_append, List.map_map]
  refine congrArg _ (List.map_congr_left fun k _ => ?_)
  rw [Function.comp_apply, Nat.mul_add, BitVec.ofNat_add, BitVec.add_assoc]

-- What was delivered since, and then what waits, are the addresses up to the pc.
theorem delivered_waiting (a : Nat) (rp : BitVec 32) (hs : r.Starts a rp) (n : Nat)
    (hr : ∀ t, a ≤ t → t < a + n → redirects (r.ins t) = false)
    (ho : ∀ t, a ≤ t → t < a + n → ¬ r.Overtakes t) :
    r.Behind (a + n) ∧ ∃ m, r.delivered a n ++ r.waiting (a + n) = addresses rp m ∧
      (r.st (a + n)).ifetch.pc = rp + BitVec.ofNat 32 (4 * m) := by
  induction n with
  | zero =>
    obtain ⟨hw, hpc⟩ := r.start a rp hs
    refine ⟨fun he _ => absurd ?_ he, 0, ?_, ?_⟩
    · rw [waiting] at hw
      exact (List.append_eq_nil_iff.mp hw).2
    · exact hw
    · rw [Nat.add_zero, hpc]
      exact (BitVec.add_zero _).symm
  | succ n ih =>
    obtain ⟨hb, m, hd, hpc⟩ := ih (fun t h1 h2 => hr t h1 (by omega))
      (fun t h1 h2 => ho t h1 (by omega))
    have hr' := hr (a + n) (by omega) (by omega)
    have ho' := ho (a + n) (by omega) (by omega)
    obtain ⟨hpc', hnew⟩ := r.pc_succ (a + n) hr'
    refine ⟨r.behind_succ _ hb ho', m + (r.fetched (a + n) ++ r.faulted (a + n)).length, ?_, ?_⟩
    · have hw := r.waiting_succ (a + n) hr' hb ho'
      rw [r.delivered_succ, List.append_assoc, ← Nat.add_assoc, hw, ← List.append_assoc, hd, hnew,
        hpc, length_addresses, addresses_append]
    · rw [← Nat.add_assoc, hpc', hpc, Nat.mul_add, BitVec.ofNat_add, BitVec.add_assoc]

-- Between two redirects the decoder gets one address after the other, each once.
-- The cycle of the second redirect still belongs to what comes before it.
def InOrder : Prop :=
  ∀ a rp n, r.Starts a rp → (∀ t, a ≤ t → t < a + n → redirects (r.ins t) = false) →
    r.delivered a (n + 1) = addresses rp (r.delivered a (n + 1)).length

end Run

theorem fetch_in_order (r : Run) (a n : Nat) (rp : BitVec 32) (hs : r.Starts a rp)
    (hr : ∀ t, a ≤ t → t < a + n → redirects (r.ins t) = false)
    (ho : ∀ t, a ≤ t → t < a + n → ¬ r.Overtakes t) :
    r.delivered a (n + 1) = addresses rp (r.delivered a (n + 1)).length := by
  obtain ⟨-, m, hd, -⟩ := r.delivered_waiting a rp hs n hr ho
  refine eq_addresses_of_prefix rp _ m ?_
  rw [r.delivered_succ, ← hd]
  exact (List.prefix_append_right_inj _).mpr (r.delivers_prefix (a + n))

-- The decoder takes what it gets, from reset on.
def flowing : Run where
  power := (Cpu.powerOn (HiCore.Run.image [])).fetchPort
  ins _ := quietIn true none

theorem flowing_in_order : flowing.delivered 0 4 = [0#32, 4#32, 8#32] := by
  have hempty : ∀ t < 3, (flowing.st t).ifetch.memBypbuf.iRdy = true := by decide +kernel
  have h := fetch_in_order flowing 0 3 0#32 (.inl ⟨rfl, rfl⟩) (fun _ _ _ => rfl) fun t _ ht ho => by
    have hf := ho.2.1
    rw [hempty t (by omega)] at hf
    exact Bool.noConfusion hf
  have hl : (flowing.delivered 0 (3 + 1)).length = 3 := by decide +kernel
  rw [hl] at h
  exact h.trans (by decide)

-- The decoder stands still for twelve cycles after a redirect to 0xFFFFFFDC. Eight
-- exceptions fill the buffer, the ninth waits, and the word at 0 is asked for.
def wrapped : Run where
  power := (Cpu.powerOn (HiCore.Run.image [])).fetchPort
  ins t := quietIn (decide (12 ≤ t)) (if t = 0 then some 0xFFFFFFDC#32 else none)

theorem wrapped_out_of_order : ¬ wrapped.InOrder := by
  intro h
  have hd := h 1 0xFFFFFFDC#32 20 (.inr ⟨0, rfl, rfl, rfl⟩) fun t h1 _ => by
    have h0 : t ≠ 0 := by omega
    simp [wrapped, quietIn, redirects, h0]
  revert hd
  decide +kernel

end HiCore.FetchPort
