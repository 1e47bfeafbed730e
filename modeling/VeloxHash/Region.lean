import Mathlib.Tactic
import Mathlib.Data.Set.Lattice
import Mathlib.Order.CompletePartialOrder

/-! Regions of memory that lie apart or one within the other. -/

namespace VeloxHash

structure Region where
  base : Nat
  size : Nat
  deriving DecidableEq, Repr

namespace Region

def Apart (r s : Region) : Prop := r.base + r.size ≤ s.base ∨ s.base + s.size ≤ r.base

def Within (r s : Region) : Prop := s.base ≤ r.base ∧ r.base + r.size ≤ s.base + s.size

/-- The addresses in a region. -/
def bytes (r : Region) : Set Nat := {a | r.base ≤ a ∧ a < r.base + r.size}

instance (r s : Region) : Decidable (r.Apart s) := inferInstanceAs (Decidable (_ ∨ _))

instance (r s : Region) : Decidable (r.Within s) := inferInstanceAs (Decidable (_ ∧ _))

variable {r s t u : Region}

theorem Apart.symm (h : r.Apart s) : s.Apart r := Or.symm h

theorem Within.refl (r : Region) : r.Within r := ⟨le_rfl, le_rfl⟩

theorem Within.trans (h : r.Within s) (h' : s.Within t) : r.Within t :=
  ⟨h'.1.trans h.1, h.2.trans h'.2⟩

/-- What lies in regions that are apart is apart. -/
theorem Apart.within (h : r.Apart s) (ht : t.Within r) (hu : u.Within s) : t.Apart u :=
  h.imp (fun hle => ht.2.trans (hle.trans hu.1)) fun hle => hu.2.trans (hle.trans ht.1)

theorem Within.subset (h : r.Within s) : r.bytes ⊆ s.bytes :=
  fun _ ha => ⟨h.1.trans ha.1, ha.2.trans_le h.2⟩

theorem Apart.disjoint (h : r.Apart s) : Disjoint r.bytes s.bytes := by
  rw [Set.disjoint_left]
  rintro a ⟨hlow, hhigh⟩ ⟨hlow', hhigh'⟩
  rcases h with h | h <;> omega

end Region

end VeloxHash
