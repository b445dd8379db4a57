import Mathlib.Data.List.Forall2
import Mathlib.Data.Multiset.AddSub

-- Queues whose items carry a mark. An item may be marked as cancelled while it
-- waits; it still takes its turn. In one cycle a queue accepts `push`, gives up
-- its oldest item when `pop` holds and marks everything when `flush` holds. An
-- item that is pushed into an empty queue may leave in the same cycle.
namespace HiCore.Fifo

variable {α β γ : Type}

def shift (pop : Bool) (push l : List γ) : List γ := if pop then (l ++ push).tail else l ++ push

def mark (flush : Bool) (l : List (α × Bool)) : List (α × Bool) :=
  l.map fun x => (x.1, x.2 || flush)

def next (flush pop : Bool) (push l : List (α × Bool)) : List (α × Bool) :=
  mark flush (shift pop push l)

def tags (l : List (α × Bool)) : List α := l.map Prod.fst

-- The unmarked items, in order and as a multiset.

def unmarked (l : List (α × Bool)) : List α := (l.filter fun x => !x.2).map Prod.fst

def live (l : List (α × Bool)) : Multiset α := (unmarked l : List α)

-- Two queues in lockstep: the same marks, and payloads related one by one.
def Rel (R : α → β → Prop) (l : List (α × Bool)) (g : List (β × Bool)) : Prop :=
  List.Forall₂ (fun x y => x.2 = y.2 ∧ R x.1 y.1) l g

@[simp] theorem shift_nil (pop : Bool) (l : List γ) :
    shift pop [] l = if pop then l.tail else l := by
  simp [shift]

@[simp] theorem shift_false (push l : List γ) : shift false push l = l ++ push := rfl

theorem shift_sublist (pop : Bool) (push l : List γ) : (shift pop push l).Sublist (l ++ push) := by
  unfold shift
  split
  · exact List.tail_sublist _
  · exact List.Sublist.refl _

-- What leaves a queue, followed by what stays, is what was there followed by
-- what came.
theorem take_append_shift (pop : Bool) (push l : List γ) :
    (if pop then (l ++ push).take 1 else []) ++ shift pop push l = l ++ push := by
  cases pop with
  | false => rfl
  | true => cases h : l ++ push <;> simp [shift, h]

-- A queue of one place that hands its item on keeps the order.
theorem forward_sublist (forward pop : Bool) (push l : List γ) (hl : l.length ≤ 1)
    (hf : forward = true → pop = true) :
    ((if forward then l else []) ++ shift pop push l).Sublist (l ++ push) := by
  cases forward with
  | false => exact shift_sublist pop push l
  | true =>
    rw [hf rfl, if_pos rfl, shift, if_pos rfl]
    match l, hl with
    | [], _ => exact List.tail_sublist _
    | [x], _ => exact List.Sublist.refl _

theorem map_shift (f : γ → β) (pop : Bool) (push l : List γ) :
    (shift pop push l).map f = shift pop (push.map f) (l.map f) := by
  unfold shift
  split <;> simp

@[simp] theorem mark_false (l : List (α × Bool)) : mark false l = l := by
  simp [mark]

@[simp] theorem tags_mark (flush : Bool) (l : List (α × Bool)) : tags (mark flush l) = tags l := by
  simp [tags, mark]

@[simp] theorem tags_append (l m : List (α × Bool)) : tags (l ++ m) = tags l ++ tags m := by
  simp [tags]

@[simp] theorem tags_nil : tags ([] : List (α × Bool)) = [] := rfl

theorem tags_next (flush pop : Bool) (push l : List (α × Bool)) :
    tags (next flush pop push l) = shift pop (tags push) (tags l) := by
  rw [next, tags_mark, tags, map_shift]
  rfl

theorem mem_mark (flush : Bool) (l : List (α × Bool)) (x : α) (c : Bool) :
    (x, c) ∈ mark flush l ↔ ∃ c', (x, c') ∈ l ∧ c = (c' || flush) := by
  simp only [mark, List.mem_map, Prod.mk.injEq, Prod.exists]
  constructor
  · rintro ⟨y, c', hm, rfl, rfl⟩
    exact ⟨c', hm, rfl⟩
  · rintro ⟨c', hm, rfl⟩
    exact ⟨x, c', hm, rfl, rfl⟩

theorem mem_next (flush pop : Bool) (push l : List (α × Bool)) (x : α) (c : Bool)
    (h : (x, c) ∈ next flush pop push l) :
    ∃ c', ((x, c') ∈ l ∨ (x, c') ∈ push) ∧ c = (c' || flush) := by
  obtain ⟨c', hm, hc⟩ := (mem_mark _ _ _ _).mp h
  exact ⟨c', List.mem_append.mp ((shift_sublist _ _ _).subset hm), hc⟩

-- An unmarked item of the next cycle was unmarked before, and nothing flushed.
theorem mem_next_unmarked (flush pop : Bool) (push l : List (α × Bool)) (x : α)
    (h : (x, false) ∈ next flush pop push l) :
    flush = false ∧ ((x, false) ∈ l ∨ (x, false) ∈ push) := by
  obtain ⟨c', hm, hc⟩ := mem_next _ _ _ _ _ _ h
  obtain ⟨rfl, rfl⟩ := Bool.or_eq_false_iff.mp hc.symm
  exact ⟨rfl, hm⟩

-- A queue of one place that gives up its item keeps only what comes in.
theorem mem_next_of_pop (flush : Bool) (push l : List (α × Bool)) (hl : l.length ≤ 1) (x : α)
    (c : Bool) (h : (x, c) ∈ next flush true push l) : ∃ c', (x, c') ∈ push := by
  obtain ⟨c', hm, -⟩ := (mem_mark _ _ _ _).mp h
  refine ⟨c', ?_⟩
  rw [shift, if_pos rfl] at hm
  match l, hl with
  | [], _ => exact List.mem_of_mem_tail hm
  | [y], _ => exact hm

-- What comes in stays, when something else leaves.
theorem mem_next_of_push (pop : Bool) (push l : List (α × Bool)) (x : α) (hx : (x, false) ∈ push)
    (hp : pop = true → l ≠ []) : (x, false) ∈ next false pop push l := by
  rw [next, mark_false]
  cases pop with
  | false => exact List.mem_append_right l hx
  | true =>
    cases l with
    | nil => exact absurd rfl (hp rfl)
    | cons y l => exact List.mem_append_right l hx

@[simp] theorem unmarked_append (l m : List (α × Bool)) :
    unmarked (l ++ m) = unmarked l ++ unmarked m := by
  simp [unmarked]

@[simp] theorem unmarked_mark_true (l : List (α × Bool)) : unmarked (mark true l) = [] := by
  simp [unmarked, mark]

-- What leaves unmarked, followed by the unmarked items that stay.
theorem unmarked_next (pop : Bool) (push l : List (α × Bool)) :
    (if pop then unmarked ((l ++ push).take 1) else []) ++ unmarked (next false pop push l) =
      unmarked l ++ unmarked push := by
  have h := congrArg unmarked (take_append_shift pop push l)
  rw [unmarked_append, unmarked_append] at h
  rw [next, mark_false, ← h]
  cases pop <;> rfl

@[simp] theorem live_nil : live ([] : List (α × Bool)) = 0 := rfl

@[simp] theorem live_append (l m : List (α × Bool)) : live (l ++ m) = live l + live m := by
  simp [live, unmarked]

@[simp] theorem live_single (x : α) (c : Bool) : live [(x, c)] = if c then 0 else {x} := by
  cases c <;> rfl

@[simp] theorem live_ite (c : Prop) [Decidable c] (l : List (α × Bool)) :
    live (if c then l else []) = if c then live l else 0 := by
  split <;> rfl

@[simp] theorem live_mark_true (l : List (α × Bool)) : live (mark true l) = 0 := by
  simp [live, unmarked, mark]

theorem mem_live (l : List (α × Bool)) (x : α) : x ∈ live l ↔ (x, false) ∈ l := by
  simp [live, unmarked]

-- Nothing is lost and nothing appears: what is here afterwards together with
-- what left is what was here together with what came.
theorem live_next (pop : Bool) (push l : List (α × Bool)) :
    live (next false pop push l) + (if pop then live ((l ++ push).take 1) else 0) =
      live l + live push := by
  cases pop with
  | false => simp [next]
  | true =>
    rw [← live_append, next, mark_false, shift, if_pos rfl, if_pos rfl]
    cases l ++ push with
    | nil => rfl
    | cons x m =>
      rw [List.tail_cons, List.take_succ_cons, List.take_zero, Multiset.add_comm, ← live_append]
      rfl

namespace Rel

variable {R S : α → β → Prop} {l m : List (α × Bool)} {g h : List (β × Bool)}

theorem nil : Rel R ([] : List (α × Bool)) ([] : List (β × Bool)) := List.Forall₂.nil

theorem single (x : α) (y : β) (c : Bool) (hr : R x y) : Rel R [(x, c)] [(y, c)] :=
  List.Forall₂.cons ⟨rfl, hr⟩ List.Forall₂.nil

theorem append (hl : Rel R l g) (hm : Rel R m h) : Rel R (l ++ m) (g ++ h) :=
  List.rel_append hl hm

theorem tail (hl : Rel R l g) : Rel R l.tail g.tail := by
  cases hl with
  | nil => exact .nil
  | cons _ ht => exact ht

theorem mark (flush : Bool) (hl : Rel R l g) : Rel R (Fifo.mark flush l) (Fifo.mark flush g) := by
  refine List.forall₂_map_left_iff.mpr (List.forall₂_map_right_iff.mpr ?_)
  exact List.Forall₂.imp (fun _ _ hp => ⟨by rw [hp.1], hp.2⟩) hl

theorem next (flush pop : Bool) (hl : Rel R l g) (hm : Rel R m h) :
    Rel R (Fifo.next flush pop m l) (Fifo.next flush pop h g) := by
  refine Rel.mark flush ?_
  cases pop with
  | false => exact hl.append hm
  | true => exact (hl.append hm).tail

theorem length_eq (hl : Rel R l g) : l.length = g.length := List.Forall₂.length_eq hl

theorem head? (hl : Rel R l g) (x : α) (c : Bool) (hx : l.head? = some (x, c)) :
    ∃ y, g.head? = some (y, c) ∧ R x y := by
  cases hl with
  | nil => simp at hx
  | @cons a b _ _ hp _ =>
    obtain ⟨y, c'⟩ := b
    simp only [List.head?_cons, Option.some.injEq] at hx
    subst hx
    obtain ⟨rfl, hr⟩ := hp
    exact ⟨y, rfl, hr⟩

end Rel

end HiCore.Fifo
