import Mathlib.Data.Nat.Digits.Lemmas

/-! Numerals of a fixed width, the most significant digit in front. -/

namespace VeloxHash.Radix

/-- The number that digits stand for in base `b`. -/
def value (b : Nat) (digits : List Nat) : Nat := Nat.ofDigits b digits.reverse

/-- `width` digits of a number below `b ^ width`. -/
def fixed (b width n : Nat) : List Nat := (Nat.digitsAppend b width n).reverse

variable {b width n d : Nat} {ds es : List Nat}

theorem value_cons : value b (d :: ds) = value b ds + b ^ ds.length * d := by
  rw [value, List.reverse_cons, Nat.ofDigits_append, Nat.ofDigits_singleton, List.length_reverse,
    value]

theorem value_lt (hb : 1 < b) (h : ∀ d ∈ ds, d < b) : value b ds < b ^ ds.length := by
  rw [← List.length_reverse]
  exact Nat.ofDigits_lt_base_pow_length hb fun d hd => h d (List.mem_reverse.mp hd)

theorem length_fixed (hb : 1 < b) (hn : n < b ^ width) : (fixed b width n).length = width := by
  rw [fixed, List.length_reverse, Nat.length_digitsAppend hb width hn]

theorem lt_of_mem_fixed (hb : 1 < b) (h : d ∈ fixed b width n) : d < b :=
  Nat.lt_of_mem_digitsAppend hb width d (List.mem_reverse.mp h)

theorem value_fixed (hb : 1 < b) (hn : n < b ^ width) : value b (fixed b width n) = n := by
  rw [value, fixed, List.reverse_reverse]
  exact (Nat.setInvOn_digitsAppend_ofDigits hb width).2 hn

theorem fixed_value (hb : 1 < b) (h : ∀ d ∈ ds, d < b) : fixed b ds.length (value b ds) = ds := by
  rw [← List.length_reverse, fixed, value]
  have hdigits : ds.reverse ∈ {l : List Nat | l.length = ds.reverse.length ∧ ∀ x ∈ l, x < b} :=
    ⟨rfl, fun d hd => h d (List.mem_reverse.mp hd)⟩
  rw [(Nat.setInvOn_digitsAppend_ofDigits hb ds.reverse.length).1 hdigits, List.reverse_reverse]

/-- Numerals of one width are told apart by what they stand for. -/
theorem value_inj (hb : 1 < b) (hds : ∀ d ∈ ds, d < b) (hes : ∀ d ∈ es, d < b)
    (hlength : ds.length = es.length) (h : value b ds = value b es) : ds = es := by
  rw [← fixed_value hb hds, ← fixed_value hb hes, hlength, h]

end VeloxHash.Radix
