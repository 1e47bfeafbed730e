import Mathlib.Data.List.Basic

/-! Values with the demands that were made on the way to them, in order. A demand is a condition
that a partial operation sets on its arguments; nothing stops at one that is not met. -/

namespace VeloxHash

structure Demanding (δ α : Type) where
  value : α
  demands : List δ

namespace Demanding

variable {δ α β : Type} {P : δ → Prop}

protected def pure (a : α) : Demanding δ α := ⟨a, []⟩

protected def bind (x : Demanding δ α) (f : α → Demanding δ β) : Demanding δ β :=
  ⟨(f x.value).value, x.demands ++ (f x.value).demands⟩

instance : Monad (Demanding δ) where
  pure := Demanding.pure
  bind := Demanding.bind

def demand (d : δ) : Demanding δ Unit := ⟨(), [d]⟩

def demandAll (ds : List δ) : Demanding δ Unit := ⟨(), ds⟩

/-- All demands meet the condition. -/
def Met (P : δ → Prop) (x : Demanding δ α) : Prop := ∀ d ∈ x.demands, P d

@[simp] theorem value_pure (a : α) : (Pure.pure a : Demanding δ α).value = a := rfl

@[simp] theorem value_bind (x : Demanding δ α) (f : α → Demanding δ β) :
    (x >>= f).value = (f x.value).value := rfl

@[simp] theorem value_demand (d : δ) : (demand d).value = () := rfl

@[simp] theorem met_pure (a : α) : Met P (Pure.pure a : Demanding δ α) := fun _ hd => nomatch hd

@[simp] theorem met_bind (x : Demanding δ α) (f : α → Demanding δ β) :
    Met P (x >>= f) ↔ Met P x ∧ Met P (f x.value) :=
  List.forall_mem_append

@[simp] theorem met_demand (d : δ) : Met P (demand d) ↔ P d := List.forall_mem_singleton

@[simp] theorem met_demandAll (ds : List δ) : Met P (demandAll ds) ↔ ∀ d ∈ ds, P d := Iff.rfl

end Demanding

end VeloxHash
