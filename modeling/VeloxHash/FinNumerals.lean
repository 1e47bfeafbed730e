import Mathlib.Algebra.GroupWithZero.Nat

/-! The sizes of the register files, lanes and counters of the model. A numeral of `Fin n` rests on
`n` being positive, by a fact of its own. -/

namespace VeloxHash

instance two_neZero : NeZero 2 := ⟨by decide⟩

instance four_neZero : NeZero 4 := ⟨by decide⟩

instance five_neZero : NeZero 5 := ⟨by decide⟩

instance six_neZero : NeZero 6 := ⟨by decide⟩

instance eight_neZero : NeZero 8 := ⟨by decide⟩

instance nine_neZero : NeZero 9 := ⟨by decide⟩

instance fifteen_neZero : NeZero 15 := ⟨by decide⟩

instance sixteen_neZero : NeZero 16 := ⟨by decide⟩

instance thirtyTwo_neZero : NeZero 32 := ⟨by decide⟩

end VeloxHash
