import Mathlib.Data.Nat.Digits.Lemmas
import Mathlib.Tactic

/-! JSON texts without white space, byte by byte, and decimal numbers as texts. -/

namespace VeloxHash.JsonText

def ascii (s : String) : List UInt8 := s.toList.map fun c => .ofNat c.toNat

def IsDigit (c : UInt8) : Prop := 48 ≤ c ∧ c ≤ 57

def IsHexDigit (c : UInt8) : Prop := IsDigit c ∨ 65 ≤ c ∧ c ≤ 70 ∨ 97 ≤ c ∧ c ≤ 102

/-- A byte that stands for itself in a string: no control character, quotation mark or backslash. -/
def Plain (c : UInt8) : Prop := 32 ≤ c ∧ c ≠ 34 ∧ c ≠ 92

instance : DecidablePred Plain := fun _ => inferInstanceAs (Decidable (_ ∧ _))

/-- The bytes that may follow a backslash alone. -/
def shortEscapes : List UInt8 := ascii "\"\\/bfnrt"

/-- The contents of a string. -/
inductive Chars : List UInt8 → Prop
  | nil : Chars []
  | plain {c : UInt8} {rest : List UInt8} : Plain c → Chars rest → Chars (c :: rest)
  | short {c : UInt8} {rest : List UInt8} :
      c ∈ shortEscapes → Chars rest → Chars (92 :: c :: rest)
  | unicode {a b c d : UInt8} {rest : List UInt8} : IsHexDigit a → IsHexDigit b → IsHexDigit c →
      IsHexDigit d → Chars rest → Chars (92 :: 117 :: a :: b :: c :: d :: rest)

/-- No leading zero but that of zero itself. -/
inductive Natural : List UInt8 → Prop
  | zero : Natural [48]
  | digits {c : UInt8} {rest : List UInt8} :
      IsDigit c → c ≠ 48 → (∀ d ∈ rest, IsDigit d) → Natural (c :: rest)

inductive Fraction : List UInt8 → Prop
  | none : Fraction []
  | digits {c : UInt8} {rest : List UInt8} :
      (∀ d ∈ c :: rest, IsDigit d) → Fraction (46 :: c :: rest)

inductive Exponent : List UInt8 → Prop
  | none : Exponent []
  | digits {e c : UInt8} {sign rest : List UInt8} : e = 69 ∨ e = 101 →
      sign ∈ [[], [43], [45]] → (∀ d ∈ c :: rest, IsDigit d) → Exponent (e :: sign ++ c :: rest)

inductive Number : List UInt8 → Prop
  | positive {n f e : List UInt8} : Natural n → Fraction f → Exponent e → Number (n ++ f ++ e)
  | negative {n f e : List UInt8} : Natural n → Fraction f → Exponent e → Number (45 :: n ++ f ++ e)

/-- Between quotation marks. -/
def quoted (t : List UInt8) : List UInt8 := 34 :: t ++ [34]

mutual

/-- A document. -/
inductive IsValue : List UInt8 → Prop
  | null : IsValue (ascii "null")
  | true : IsValue (ascii "true")
  | false : IsValue (ascii "false")
  | number {t : List UInt8} : Number t → IsValue t
  | string {t : List UInt8} : Chars t → IsValue (quoted t)
  | emptyArray : IsValue [91, 93]
  | array {t : List UInt8} : Elements t → IsValue (91 :: t ++ [93])
  | emptyObject : IsValue [123, 125]
  | object {t : List UInt8} : Members t → IsValue (123 :: t ++ [125])

inductive Elements : List UInt8 → Prop
  | last {t : List UInt8} : IsValue t → Elements t
  | cons {t rest : List UInt8} : IsValue t → Elements rest → Elements (t ++ 44 :: rest)

inductive Members : List UInt8 → Prop
  | last {k t : List UInt8} : Chars k → IsValue t → Members (quoted k ++ 58 :: t)
  | cons {k t rest : List UInt8} : Chars k → IsValue t → Members rest →
      Members (quoted k ++ 58 :: t ++ 44 :: rest)

end

theorem chars_append {s t : List UInt8} (hs : Chars s) (ht : Chars t) : Chars (s ++ t) := by
  induction hs with
  | nil => exact ht
  | plain h _ ih => exact .plain h ih
  | short h _ ih => exact .short h ih
  | unicode ha hb hc hd _ ih => exact .unicode ha hb hc hd ih

/-- The decimal digits, the first of which is not zero. -/
def natural (n : Nat) : List UInt8 :=
  if n = 0 then [48] else (Nat.digits 10 n).reverse.map fun d => 48 + .ofNat d

def integer (i : Int) : List UInt8 := if i < 0 then 45 :: natural i.natAbs else natural i.natAbs

theorem isDigit_ofNat : ∀ d < 10, IsDigit (48 + .ofNat d) ∧ (d ≠ 0 → 48 + UInt8.ofNat d ≠ 48) := by
  unfold IsDigit
  decide

theorem natural_spec (n : Nat) : Natural (natural n) := by
  unfold natural
  split
  · exact .zero
  next hn =>
    have hdigits : ∀ d ∈ (Nat.digits 10 n).reverse, d < 10 := fun d hd =>
      Nat.digits_lt_base (by decide) (List.mem_reverse.mp hd)
    have hne : Nat.digits 10 n ≠ [] := Nat.digits_ne_nil_iff_ne_zero.mpr hn
    have hhead : (Nat.digits 10 n).reverse.head (List.reverse_ne_nil_iff.mpr hne) ≠ 0 := by
      rw [List.head_reverse]
      exact Nat.getLast_digit_ne_zero 10 hn
    cases h : (Nat.digits 10 n).reverse with
    | nil => exact absurd (List.reverse_eq_nil_iff.mp h) hne
    | cons d rest =>
      simp only [h, List.head_cons] at hhead hdigits
      obtain ⟨hdigit, hzero⟩ := isDigit_ofNat d (hdigits d List.mem_cons_self)
      refine .digits hdigit (hzero hhead) fun c hc => ?_
      obtain ⟨e, he, rfl⟩ := List.mem_map.mp hc
      exact (isDigit_ofNat e (hdigits e (List.mem_cons_of_mem d he))).1

theorem integer_spec (i : Int) : IsValue (integer i) := by
  have hnatural := natural_spec i.natAbs
  unfold integer
  split
  · have hnumber := Number.negative hnatural .none .none
    rw [List.append_nil, List.append_nil] at hnumber
    exact .number hnumber
  · have hnumber := Number.positive hnatural .none .none
    rw [List.append_nil, List.append_nil] at hnumber
    exact .number hnumber

end VeloxHash.JsonText
