import Mathlib.Data.List.Basic

-- Lists of steps in which each step starts where the one before it ended.
namespace HiCore

variable {α β : Type} {src dst : α → β} {a b c : β} {l m : List α}

def Linked (src dst : α → β) : β → List α → β → Prop
  | a, [], b => a = b
  | a, x :: l, b => src x = a ∧ Linked src dst (dst x) l b

namespace Linked

theorem append (h : Linked src dst a l b) (h' : Linked src dst b m c) :
    Linked src dst a (l ++ m) c := by
  induction l generalizing a with
  | nil =>
    obtain rfl : a = b := h
    exact h'
  | cons y l ih => exact ⟨h.1, ih h.2⟩

theorem single (x : α) : Linked src dst (src x) [x] (dst x) := ⟨rfl, rfl⟩

end Linked

end HiCore
