import VeloxHash.FinNumerals
import Mathlib.Algebra.Group.Fin.Basic
import Mathlib.Data.Fin.Basic
import Mathlib.Data.List.OfFn
import Mathlib.Tactic

/-! A ring that each new element overwrites at its oldest cell, and the walk back over it. -/

namespace VeloxHash

structure RingBuffer (α : Type*) (n : Nat) where
  cells : Fin (n + 1) → α
  top : Fin (n + 1)

namespace RingBuffer

variable {α : Type*} {n : Nat}

def empty (n : Nat) (a : α) : RingBuffer α n := ⟨fun _ => a, 0⟩

def push (r : RingBuffer α n) (a : α) : RingBuffer α n where
  cells := Function.update r.cells r.top a
  top := r.top + 1

/-- The cells from the newest one back. -/
def view (r : RingBuffer α n) : List α := List.ofFn fun k => r.cells (r.top - 1 - k)

section Walk

variable (p : α → Bool)

theorem val_back {start i : Fin (n + 1)} (h : i - 1 ≠ start) :
    (start - (i - 1)).val = (start - i).val + 1 := by
  have hsub : start - (i - 1) = start - i + 1 := by rw [sub_sub_eq_add_sub, add_sub_right_comm]
  have hlast : start - i ≠ Fin.last n := fun heq => h (by
    rw [eq_comm, ← sub_eq_zero, hsub, heq, Fin.last_add_one])
  rw [hsub, Fin.val_add_one_of_lt (Fin.lt_last_iff_ne_last.mpr hlast)]

/-- The walk back from `start` to the first cell of the kind, with the cell after it if the walk
has passed one. -/
def walk (r : RingBuffer α n) (start i : Fin (n + 1)) : Option (α × Option α) :=
  if p (r.cells i) then some (r.cells i, if i ≠ start then some (r.cells (i + 1)) else none)
  else if i - 1 = start then none
  else r.walk start (i - 1)
termination_by n + 1 - (start - i).val
decreasing_by
  have := val_back ‹_›
  have := (start - (i - 1)).isLt
  omega

variable {p}

end Walk

end RingBuffer

end VeloxHash
