import Mathlib.Data.UInt
import Mathlib.Tactic
import VeloxHash.Radix

/-! Hexadecimal numbers as `printf` writes them, and numbers as `strtoull` reads them when the
base is left to the text. -/

namespace VeloxHash.CNumeral

def digitValue (c : Char) : Option Nat :=
  if '0' ≤ c ∧ c ≤ '9' then some (c.toNat - 48)
  else if 'a' ≤ c ∧ c ≤ 'z' then some (c.toNat - 87)
  else if 'A' ≤ c ∧ c ≤ 'Z' then some (c.toNat - 55)
  else none

/-- The longest run of digits at the front. -/
def digits (base : Nat) : List Char → List Nat
  | [] => []
  | c :: cs =>
    match digitValue c with
    | some d => if d < base then d :: digits base cs else []
    | none => []

def isSpace (c : Char) : Bool := c = ' ' ∨ (9 ≤ c.toNat ∧ c.toNat ≤ 13)

def sign : List Char → Bool × List Char
  | '+' :: rest => (false, rest)
  | '-' :: rest => (true, rest)
  | text => (false, text)

/-- `0x` in front of a digit stands for base 16, and another `0` for base 8. -/
def detect : List Char → Nat × List Char
  | '0' :: x :: rest =>
    if (x = 'x' ∨ x = 'X') ∧ digits 16 rest ≠ [] then (16, rest) else (8, '0' :: x :: rest)
  | '0' :: [] => (8, ['0'])
  | text => (10, text)

/-- `strtoull(text, nullptr, 0)`. -/
def strtoull (text : List Char) : UInt64 :=
  let (negative, unsigned) := sign (text.dropWhile isSpace)
  let (base, rest) := detect unsigned
  let n := Radix.value base (digits base rest)
  if 2 ^ 64 ≤ n then 0xFFFFFFFFFFFFFFFF
  else if negative then -UInt64.ofNat n else UInt64.ofNat n

/-- `0x%x`. -/
def hex (n : Nat) : List Char := '0' :: 'x' :: Nat.toDigits 16 n

end VeloxHash.CNumeral
