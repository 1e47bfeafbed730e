import Mathlib.Tactic

/-! Counting the bits of a word by masks and shifts: the counts of pairs, of nibbles and of bytes
are made within the word, byte by byte, and a multiplication sums the bytes. -/

namespace VeloxHash.PopulationCount

/-- The bits that are set below `width`. -/
def ones (width n : Nat) : Nat := (List.range width).countP n.testBit

/-- `byte` repeated. -/
def fill (byte : Nat) : Nat → Nat
  | 0 => 0
  | k + 1 => byte + 256 * fill byte k

def pairs (mask x : Nat) : Nat := x - (x >>> 1 &&& mask)

def nibbles (mask x : Nat) : Nat := (x &&& mask) + (x >>> 2 &&& mask)

def bytes (mask x : Nat) : Nat := (x + x >>> 4) &&& mask

/-- All three stages on a word of `k` bytes. -/
def counts (k x : Nat) : Nat :=
  bytes (fill 0x0F k) (nibbles (fill 0x33 k) (pairs (fill 0x55 k) x))

theorem ones_byte_le : ∀ b < 256, ones 8 b ≤ 8 := by decide +kernel

/-- The masks take away what a shift brings in from the next byte. -/
theorem masks_byte : (∀ b < 256, ∀ c < 2, (b >>> 1 + 128 * c) &&& 0x55 = b >>> 1 &&& 0x55) ∧
    (∀ b < 256, ∀ c < 4, (b >>> 2 + 64 * c) &&& 0x33 = b >>> 2 &&& 0x33) ∧
    ∀ b < 0x45, ∀ c ≤ 4, (b + b >>> 4 + 16 * c) &&& 0x0F = (b + b >>> 4) &&& 0x0F := by
  decide +kernel

variable {b m r : Nat}

theorem and_byte (b b' r r' : Nat) (hb : b < 256) (hb' : b' < 256) :
    (b + 256 * r) &&& (b' + 256 * r') = (b &&& b') + 256 * (r &&& r') := by
  have hlow : ((b + 256 * r) &&& (b' + 256 * r')) % 2 ^ 8 = b &&& b' := by
    rw [Nat.and_mod_two_pow]
    congr 1 <;> omega
  have hhigh : ((b + 256 * r) &&& (b' + 256 * r')) / 2 ^ 8 = r &&& r' := by
    rw [Nat.and_div_two_pow]
    congr 1 <;> omega
  omega

theorem shiftRight_byte (s : Nat) (hs : s ≤ 8) (b r : Nat) :
    (b + 256 * r) >>> s = b >>> s + 2 ^ (8 - s) * (r % 2 ^ s) + 256 * (r >>> s) := by
  simp only [Nat.shiftRight_eq_div_pow]
  interval_cases s <;> omega

theorem pairs_byte (hb : b < 256) :
    pairs (0x55 + 256 * m) (b + 256 * r) = pairs 0x55 b + 256 * pairs m r := by
  have hmask := masks_byte.1
  have hbound : b >>> 1 + 128 * (r % 2) < 256 := by
    rw [Nat.shiftRight_eq_div_pow]
    omega
  have hshift : (b + 256 * r) >>> 1 = b >>> 1 + 128 * (r % 2) + 256 * (r >>> 1) :=
    shiftRight_byte 1 (by decide) b r
  have hlow : (b >>> 1 &&& 0x55) ≤ b := Nat.and_le_left.trans (Nat.shiftRight_le b 1)
  have hhigh : (r >>> 1 &&& m) ≤ r := Nat.and_le_left.trans (Nat.shiftRight_le r 1)
  unfold pairs
  rw [hshift, and_byte _ _ _ _ hbound (by decide), hmask b hb (r % 2) (Nat.mod_lt _ two_pos)]
  omega

theorem nibbles_byte (hb : b < 256) :
    nibbles (0x33 + 256 * m) (b + 256 * r) = nibbles 0x33 b + 256 * nibbles m r := by
  have hmask := masks_byte.2.1
  have hbound : b >>> 2 + 64 * (r % 4) < 256 := by
    rw [Nat.shiftRight_eq_div_pow]
    omega
  have hshift : (b + 256 * r) >>> 2 = b >>> 2 + 64 * (r % 4) + 256 * (r >>> 2) :=
    shiftRight_byte 2 (by decide) b r
  unfold nibbles
  rw [hshift, and_byte _ _ _ _ hbound (by decide), and_byte _ _ _ _ hb (by decide),
    hmask b hb (r % 4) (Nat.mod_lt _ (by decide))]
  omega

theorem bytes_byte (hb : b < 0x45) (hr : r % 16 ≤ 4) :
    bytes (0x0F + 256 * m) (b + 256 * r) = bytes 0x0F b + 256 * bytes m r := by
  have hmask := masks_byte.2.2
  have hbound : b + b >>> 4 + 16 * (r % 16) < 256 := by
    rw [Nat.shiftRight_eq_div_pow]
    omega
  have hshift : (b + 256 * r) >>> 4 = b >>> 4 + 16 * (r % 16) + 256 * (r >>> 4) :=
    shiftRight_byte 4 (by decide) b r
  have hsum : b + 256 * r + (b + 256 * r) >>> 4 =
      b + b >>> 4 + 16 * (r % 16) + 256 * (r + r >>> 4) := by
    omega
  unfold bytes
  rw [hsum, and_byte _ _ _ _ hbound (by decide), hmask b hb (r % 16) hr]

/-- What the first two stages leave in a byte leaves room for the third. -/
theorem nibbles_pairs_byte : ∀ b < 256, nibbles 0x33 (pairs 0x55 b) < 0x45 ∧
    nibbles 0x33 (pairs 0x55 b) % 16 ≤ 4 ∧ pairs 0x55 b < 256 ∧
      bytes 0x0F (nibbles 0x33 (pairs 0x55 b)) = ones 8 b := by
  decide +kernel

theorem nibbles_mod (k : Nat) (x : Nat) :
    nibbles (fill 0x33 k) (pairs (fill 0x55 k) x) % 16 ≤ 4 := by
  cases k with
  | zero =>
    unfold nibbles fill
    rw [Nat.and_zero, Nat.and_zero]
    decide
  | succ k =>
    have hsplit : x = x % 256 + 256 * (x / 256) := (Nat.mod_add_div x 256).symm
    have hb : x % 256 < 256 := Nat.mod_lt _ (by decide)
    obtain ⟨-, hmod, hpairs, -⟩ := nibbles_pairs_byte _ hb
    rw [hsplit, fill, fill, pairs_byte hb, nibbles_byte hpairs]
    omega

theorem counts_byte (k : Nat) {b : Nat} (hb : b < 256) (r : Nat) :
    counts (k + 1) (b + 256 * r) = ones 8 b + 256 * counts k r := by
  obtain ⟨hlt, -, hpairs, hones⟩ := nibbles_pairs_byte b hb
  unfold counts
  rw [fill, fill, fill, pairs_byte hb, nibbles_byte hpairs, bytes_byte hlt (nibbles_mod k r), hones]

theorem counts_zero (k : Nat) : counts k 0 = 0 := by
  unfold counts pairs nibbles bytes
  simp only [Nat.zero_shiftRight, Nat.zero_and, Nat.zero_sub, Nat.add_zero]

theorem ones_byte (width : Nat) {b : Nat} (hb : b < 256) (r : Nat) :
    ones (8 + width) (b + 256 * r) = ones 8 b + ones width r := by
  have hlow : ∀ i ∈ List.range 8, (b + 256 * r).testBit i = b.testBit i := fun i hi => by
    have hmod : (b + 256 * r) % 2 ^ 8 = b := by omega
    have hbit := Nat.testBit_mod_two_pow (b + 256 * r) 8 i
    rwa [hmod, decide_eq_true (List.mem_range.mp hi), Bool.true_and, eq_comm] at hbit
  have hhigh (i : Nat) : (b + 256 * r).testBit (8 + i) = r.testBit i := by
    have hdiv : (b + 256 * r) / 2 ^ 8 = r := by omega
    have hbit := @Nat.testBit_div_two_pow 8 (b + 256 * r) i
    rwa [hdiv, Nat.add_comm i, eq_comm] at hbit
  unfold ones
  rw [List.range_add, List.countP_append, List.countP_map,
    List.countP_congr fun i hi => by rw [hlow i hi]]
  exact congrArg _ (List.countP_congr fun i _ => by rw [Function.comp_apply, hhigh])

/-- The byte above the others that four bytes of small counts leave in a product with ones. -/
theorem sum_bytes {c₀ c₁ c₂ c₃ : Nat} (h₀ : c₀ ≤ 8) (h₁ : c₁ ≤ 8) (h₂ : c₂ ≤ 8) (h₃ : c₃ ≤ 8) :
    (c₀ + 256 * (c₁ + 256 * (c₂ + 256 * c₃))) * fill 1 8 % 2 ^ 64 / 2 ^ 56 =
      c₀ + (c₁ + (c₂ + c₃)) := by
  obtain ⟨low, hlow⟩ : ∃ low, low = c₀ + 256 * (c₀ + c₁) + 256 ^ 2 * (c₀ + c₁ + c₂) +
      (256 ^ 3 + 256 ^ 4 + 256 ^ 5 + 256 ^ 6) * (c₀ + c₁ + c₂ + c₃) := ⟨_, rfl⟩
  have hproduct : (c₀ + 256 * (c₁ + 256 * (c₂ + 256 * c₃))) * fill 1 8 =
      low + 2 ^ 56 * (c₀ + (c₁ + (c₂ + c₃))) +
        2 ^ 64 * (c₁ + c₂ + c₃ + 256 * (c₂ + c₃) + 256 ^ 2 * c₃) := by
    rw [hlow, show fill 1 8 = 0x0101010101010101 from rfl]
    ring
  have hlt : low < 2 ^ 56 := by omega
  rw [hproduct, Nat.add_mul_mod_self_left, Nat.mod_eq_of_lt (by omega),
    Nat.add_mul_div_left _ _ (by decide), Nat.div_eq_of_lt hlt, Nat.zero_add]

/-- The multiplication sums the counts of four bytes. -/
theorem sum_counts {x : Nat} (hx : x < 2 ^ 32) :
    counts 8 x * fill 1 8 % 2 ^ 64 / 2 ^ 56 = ones 32 x := by
  obtain ⟨b₀, b₁, b₂, b₃, h₀, h₁, h₂, h₃, rfl⟩ : ∃ b₀ b₁ b₂ b₃, b₀ < 256 ∧ b₁ < 256 ∧ b₂ < 256 ∧
      b₃ < 256 ∧ x = b₀ + 256 * (b₁ + 256 * (b₂ + 256 * (b₃ + 256 * 0))) :=
    ⟨x % 256, x / 256 % 256, x / 256 / 256 % 256, x / 256 / 256 / 256, by omega, by omega,
      by omega, by omega, by omega⟩
  have hones : ones 32 (b₀ + 256 * (b₁ + 256 * (b₂ + 256 * (b₃ + 256 * 0)))) =
      ones 8 b₀ + (ones 8 b₁ + (ones 8 b₂ + (ones 8 b₃ + 0))) := by
    rw [show 32 = 8 + (8 + (8 + (8 + 0))) from rfl, ones_byte _ h₀, ones_byte _ h₁, ones_byte _ h₂,
      ones_byte _ h₃]
    rfl
  rw [counts_byte 7 h₀, counts_byte 6 h₁, counts_byte 5 h₂, counts_byte 4 h₃, counts_zero, hones,
    Nat.mul_zero, Nat.add_zero]
  exact sum_bytes (ones_byte_le b₀ h₀) (ones_byte_le b₁ h₁) (ones_byte_le b₂ h₂)
    (ones_byte_le b₃ h₃)

end VeloxHash.PopulationCount
