import Mathlib.Data.UInt
import VeloxHash.Splice

/-! Hexadecimal text as bytes: two digits a byte, high half first. Text that is patched byte
by byte decodes to the patched bytes. -/

namespace VeloxHash.Hex

open Splice

/-- The value of a digit, in either case. -/
def value (c : UInt8) : Option UInt8 :=
  let num := c ^^^ 48
  let alpha := (c &&& ~~~32) - 55
  if num < 10 then some num else if 10 ≤ alpha ∧ alpha < 16 then some alpha else none

/-- Digits are written in lower case. -/
def digit (x : UInt8) : UInt8 := if x < 10 then 48 + x else 87 + x

def pair (b : UInt8) : List UInt8 := [digit (b >>> 4), digit (b &&& 15)]

def encode (bytes : List UInt8) : List UInt8 := bytes.flatMap pair

def decode : List UInt8 → Option (List UInt8)
  | [] => some []
  | [_] => none
  | c :: d :: rest => do
    let x ← value c
    let y ← value d
    let bytes ← decode rest
    return (x * 16 ||| y) :: bytes

/-- The bytes in front of the first character that is no digit. -/
def leading : List UInt8 → List UInt8
  | c :: d :: rest =>
    match value c, value d with
    | some x, some y => (x * 16 ||| y) :: leading rest
    | _, _ => []
  | _ => []

theorem length_leading (hex : List UInt8) : (leading hex).length ≤ hex.length := by
  induction hex using leading.induct with
  | case1 c d rest x y hx hy ih =>
    rw [leading, hx, hy]
    exact Nat.succ_le_succ (ih.trans (Nat.le_succ _))
  | case2 c d rest hnone =>
    rw [leading]
    split
    · rename_i x y hx hy
      exact (hnone x y hx hy).elim
    · exact Nat.zero_le _
  | case3 hex hshort =>
    rw [leading]
    · exact Nat.zero_le _
    · exact hshort

/-- A buffer that text is decoded into: resized, and overwritten as far as the digits go. -/
def into (buffer hex : List UInt8) : List UInt8 :=
  let resized := (buffer ++ List.replicate (hex.length / 2) 0).take (hex.length / 2)
  leading hex ++ resized.drop (leading hex).length

/-- The text stands for the bytes. -/
inductive Decodes : List UInt8 → List UInt8 → Prop
  | nil : Decodes [] []
  | cons {c d x y : UInt8} {rest bytes : List UInt8} :
      value c = some x → value d = some y → Decodes rest bytes →
        Decodes (c :: d :: rest) ((x * 16 ||| y) :: bytes)

variable {hex hex' bytes bytes' b : List UInt8}

theorem decodes_of_decode (h : decode hex = some bytes) : Decodes hex bytes := by
  induction hex using decode.induct generalizing bytes with
  | case1 =>
    obtain rfl : [] = bytes := Option.some.inj h
    exact .nil
  | case2 c => exact nomatch h
  | case3 c d rest ih =>
    obtain ⟨x, hx, h⟩ := Option.bind_eq_some_iff.mp h
    obtain ⟨y, hy, h⟩ := Option.bind_eq_some_iff.mp h
    obtain ⟨others, hothers, h⟩ := Option.bind_eq_some_iff.mp h
    obtain rfl : (x * 16 ||| y) :: others = bytes := Option.some.inj h
    exact .cons hx hy (ih hothers)

theorem Decodes.decode_eq (h : Decodes hex bytes) : decode hex = some bytes := by
  induction h with
  | nil => rfl
  | cons hx hy _ ih => rw [decode, hx, hy, ih]; rfl

theorem Decodes.leading_eq (h : Decodes hex bytes) : leading hex = bytes := by
  induction h with
  | nil => rfl
  | cons hx hy _ ih => rw [leading, hx, hy, ih]

theorem Decodes.length_eq (h : Decodes hex bytes) : hex.length = bytes.length * 2 := by
  induction h with
  | nil => rfl
  | cons _ _ _ ih =>
    simp only [List.length_cons]
    omega

/-- Text of the buffer's own bytes overwrites all of it. -/
theorem Decodes.into_eq (h : Decodes hex bytes) (buffer : List UInt8) :
    into buffer hex = bytes := by
  have hlength := h.length_eq
  have hdrop : ((buffer ++ List.replicate (hex.length / 2) 0).take (hex.length / 2)).drop
      bytes.length = [] := by
    apply List.drop_eq_nil_of_le
    rw [List.length_take]
    omega
  rw [into, h.leading_eq, hdrop, List.append_nil]

theorem Decodes.append (h : Decodes hex bytes) (h' : Decodes hex' bytes') :
    Decodes (hex ++ hex') (bytes ++ bytes') := by
  induction h with
  | nil => exact h'
  | cons hx hy _ ih => exact .cons hx hy ih

theorem Decodes.take (h : Decodes hex bytes) (p : Nat) :
    Decodes (hex.take (p * 2)) (bytes.take p) := by
  induction h generalizing p with
  | nil =>
    rw [List.take_nil, List.take_nil]
    exact .nil
  | cons hx hy _ ih =>
    cases p with
    | zero => exact .nil
    | succ p =>
      rw [Nat.succ_mul]
      exact .cons hx hy (ih p)

theorem Decodes.drop (h : Decodes hex bytes) (p : Nat) :
    Decodes (hex.drop (p * 2)) (bytes.drop p) := by
  induction h generalizing p with
  | nil =>
    rw [List.drop_nil, List.drop_nil]
    exact .nil
  | cons hx hy hrest ih =>
    cases p with
    | zero => exact .cons hx hy hrest
    | succ p =>
      rw [Nat.succ_mul]
      exact ih p

/-- Every byte reads back from its two digits. -/
theorem decodes_pair (b : UInt8) : Decodes (pair b) [b] := by
  have hall : ∀ i : Fin 256, value (digit (UInt8.ofFin i >>> 4)) = some (UInt8.ofFin i >>> 4) ∧
      value (digit (UInt8.ofFin i &&& 15)) = some (UInt8.ofFin i &&& 15) ∧
      (UInt8.ofFin i >>> 4) * 16 ||| (UInt8.ofFin i &&& 15) = UInt8.ofFin i := by
    decide +kernel
  obtain ⟨hhigh, hlow, hboth⟩ := hall b.toFin
  have hdecodes := Decodes.cons hhigh hlow .nil
  rwa [hboth] at hdecodes

theorem decodes_encode (bytes : List UInt8) : Decodes (encode bytes) bytes := by
  induction bytes with
  | nil => exact .nil
  | cons b bytes ih => exact (decodes_pair b).append ih

/-- Bytes are patched by patching their digits. -/
theorem Decodes.splice (h : Decodes hex bytes) (p : Nat) (b : List UInt8) :
    Decodes (splice hex (p * 2) (encode b)) (Splice.splice bytes p b) := by
  unfold Splice.splice
  rw [(decodes_encode b).length_eq, ← Nat.add_mul]
  exact ((h.take p).append (decodes_encode b)).append (h.drop (p + b.length))

end VeloxHash.Hex
