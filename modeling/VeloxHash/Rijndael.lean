import VeloxHash.FinNumerals
import Mathlib.Data.Fin.VecNotation
import Mathlib.Tactic

/-! The rounds of AES on four columns of four bytes, and how tables of columns replace all of a
round but its key. -/

namespace VeloxHash.Rijndael

/-- The product with `x` modulo `x ^ 8 + x ^ 4 + x ^ 3 + x + 1`; the bits of a number are the
coefficients of a polynomial. -/
def xtime (a : Nat) : Nat := 2 * a ^^^ a / 128 * 0x11B

/-- The multiples of `a` for the bits of `b`, added up. -/
def product (a b : Nat) : Nat :=
  let a1 := xtime a
  let a2 := xtime a1
  let a3 := xtime a2
  let a4 := xtime a3
  let a5 := xtime a4
  let a6 := xtime a5
  let a7 := xtime a6
  b % 2 * a ^^^ b / 2 % 2 * a1 ^^^ b / 4 % 2 * a2 ^^^ b / 8 % 2 * a3 ^^^ b / 16 % 2 * a4 ^^^
    b / 32 % 2 * a5 ^^^ b / 64 % 2 * a6 ^^^ b / 128 % 2 * a7

def square (a : Nat) : Nat := product a a

/-- `a ^ 254`, the inverse of `a` unless `a` is 0. -/
def inverse (a : Nat) : Nat :=
  let a2 := square a
  let a3 := product a2 a
  let a12 := square (square a3)
  let a15 := product a12 a3
  product (product (square^[4] a15) a12) a2

def rotate (a k : Nat) : Nat := a * 2 ^ k % 256 ||| a / 2 ^ (8 - k)

def affine (a : Nat) : Nat :=
  a ^^^ rotate a 1 ^^^ rotate a 2 ^^^ rotate a 3 ^^^ rotate a 4 ^^^ 0x63

def invAffine (a : Nat) : Nat := rotate a 1 ^^^ rotate a 3 ^^^ rotate a 6 ^^^ 0x05

def mul (a b : UInt8) : UInt8 := .ofNat (product a.toNat b.toNat)

def subByte (a : UInt8) : UInt8 := .ofNat (affine (inverse a.toNat))

def invSubByte (a : UInt8) : UInt8 := .ofNat (inverse (invAffine a.toNat))

theorem mul_one (a : UInt8) : mul a 1 = a := by
  have hone : product a.toNat 1 = a.toNat := by simp [product]
  exact (congrArg UInt8.ofNat hone).trans UInt8.ofNat_toNat

attribute [irreducible] mul

abbrev Column := Fin 4 → UInt8

/-- The bytes by column and row. -/
abbrev State := Fin 4 → Column

def shiftRows (s : State) : State := fun c r => s (c + r) r

def invShiftRows (s : State) : State := fun c r => s (c - r) r

/-- The product with `coeff 0 + coeff 3 * y + coeff 2 * y ^ 2 + coeff 1 * y ^ 3`, modulo
`y ^ 4 + 1`. -/
def mixColumn (coeff a : Column) : Column := fun r =>
  mul (a r) (coeff 0) ^^^ mul (a (r + 1)) (coeff 1) ^^^ mul (a (r + 2)) (coeff 2) ^^^
    mul (a (r + 3)) (coeff 3)

def mixCoeff : Column := ![2, 3, 1, 1]

def invMixCoeff : Column := ![0x0E, 0x0B, 0x0D, 0x09]

def addRoundKey (key s : State) : State := fun c r => s c r ^^^ key c r

/-- A round of encryption. -/
def encRound (s key : State) : State :=
  addRoundKey key fun c => mixColumn mixCoeff (shiftRows (fun c r => subByte (s c r)) c)

/-- A round of decryption by the equivalent inverse cipher. -/
def decRound (s key : State) : State :=
  addRoundKey key fun c => mixColumn invMixCoeff (invShiftRows (fun c r => invSubByte (s c r)) c)

/-- What a byte of the first row adds to its column. -/
def table (coeff : Column) (a : UInt8) : Column := fun r => mul a (coeff (-r))

theorem table_eq (coeff : Column) (a : UInt8) :
    table coeff a = ![mul a (coeff 0), mul a (coeff 3), mul a (coeff 2), mul a (coeff 1)] := by
  funext r
  fin_cases r <;> rfl

theorem mixColumn_table (coeff a : Column) (r : Fin 4) :
    mixColumn coeff a r = table coeff (a 0) r ^^^ table coeff (a 1) (r - 1) ^^^
      table coeff (a 2) (r - 2) ^^^ table coeff (a 3) (r - 3) := by
  unfold mixColumn table
  fin_cases r
  · rfl
  · change mul (a 1) _ ^^^ mul (a 2) _ ^^^ mul (a 3) _ ^^^ mul (a 0) _ =
      mul (a 0) _ ^^^ mul (a 1) _ ^^^ mul (a 2) _ ^^^ mul (a 3) _
    ac_rfl
  · change mul (a 2) _ ^^^ mul (a 3) _ ^^^ mul (a 0) _ ^^^ mul (a 1) _ =
      mul (a 0) _ ^^^ mul (a 1) _ ^^^ mul (a 2) _ ^^^ mul (a 3) _
    ac_rfl
  · change mul (a 3) _ ^^^ mul (a 0) _ ^^^ mul (a 1) _ ^^^ mul (a 2) _ =
      mul (a 0) _ ^^^ mul (a 1) _ ^^^ mul (a 2) _ ^^^ mul (a 3) _
    ac_rfl

theorem encRound_apply (s key : State) (c r : Fin 4) : encRound s key c r =
    mixColumn mixCoeff ![subByte (s c 0), subByte (s (c + 1) 1), subByte (s (c + 2) 2),
      subByte (s (c + 3) 3)] r ^^^ key c r := by
  refine congrArg (fun a => mixColumn mixCoeff a r ^^^ key c r) (funext fun q => ?_)
  fin_cases q
  · exact congrArg (fun i => subByte (s i 0)) (add_zero c)
  all_goals rfl

theorem decRound_apply (s key : State) (c r : Fin 4) : decRound s key c r =
    mixColumn invMixCoeff ![invSubByte (s c 0), invSubByte (s (c - 1) 1), invSubByte (s (c - 2) 2),
      invSubByte (s (c - 3) 3)] r ^^^ key c r := by
  refine congrArg (fun a => mixColumn invMixCoeff a r ^^^ key c r) (funext fun q => ?_)
  fin_cases q
  · exact congrArg (fun i => invSubByte (s i 0)) (sub_zero c)
  all_goals rfl

end VeloxHash.Rijndael
