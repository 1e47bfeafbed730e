import Mathlib.Data.UInt
import Mathlib.Tactic

/-! Numbers in groups of seven bits, the lowest in front; all bytes but the last have their
highest bit set. -/

namespace VeloxHash.Varint

variable {v : Nat} {t : UInt8} {bytes rest : List UInt8}

/-- The shortest form. -/
def encode (v : Nat) : List UInt8 :=
  if v < 128 then [UInt8.ofNat v] else UInt8.ofNat (v % 128 + 128) :: encode (v / 128)

theorem encode_small (h : v < 128) : encode v = [UInt8.ofNat v] := by rw [encode, if_pos h]

theorem encode_large (h : ¬ v < 128) :
    encode v = UInt8.ofNat (v % 128 + 128) :: encode (v / 128) := by rw [encode, if_neg h]

theorem encode_ne_nil (v : Nat) : encode v ≠ [] := by
  rw [encode]
  split <;> exact List.cons_ne_nil _ _

theorem toNat_small (h : v < 128) : (UInt8.ofNat v).toNat = v :=
  UInt8.toNat_ofNat_of_lt' (by change v < 256; omega)

theorem toNat_large (v : Nat) : (UInt8.ofNat (v % 128 + 128)).toNat = v % 128 + 128 :=
  UInt8.toNat_ofNat_of_lt' (by change _ < 256; omega)

def value : List UInt8 → Nat
  | [] => 0
  | t :: rest => t.toNat % 128 + 128 * value rest

theorem value_cons (t : UInt8) (rest : List UInt8) :
    value (t :: rest) = t.toNat % 128 + 128 * value rest := rfl

theorem value_encode (v : Nat) : value (encode v) = v := by
  induction v using encode.induct with
  | case1 v h =>
    rw [encode_small h, value_cons, toNat_small h]
    change _ + 128 * 0 = v
    omega
  | case2 v h ih =>
    rw [encode_large h, value_cons, ih, toNat_large]
    omega

/-- Where the first varint of some bytes ends. -/
def size : List UInt8 → Nat
  | t :: rest => if t &&& 0x80 = 0 then 1 else size rest + 1
  | [] => 1

theorem size_cons (t : UInt8) (rest : List UInt8) :
    size (t :: rest) = if t &&& 0x80 = 0 then 1 else size rest + 1 := rfl

theorem high_iff (t : UInt8) : t &&& 0x80 = 0 ↔ t.toNat < 128 := by
  have hbits : ∀ b : BitVec 8, b &&& 0x80 = 0 ↔ b.toNat < 128 := by decide +kernel
  rw [← UInt8.toBitVec_inj]
  exact hbits t.toBitVec

theorem low_eq (t : UInt8) : (t &&& 0x7f).toNat = t.toNat % 128 :=
  (UInt8.toNat_and ..).trans (Nat.and_two_pow_sub_one_eq_mod t.toNat 7)

theorem size_encode (v : Nat) (rest : List UInt8) :
    size (encode v ++ rest) = (encode v).length := by
  induction v using encode.induct with
  | case1 v h =>
    rw [encode_small h, List.singleton_append, size_cons, if_pos ((high_iff _).mpr _)]
    · rfl
    · rwa [toNat_small h]
  | case2 v h ih =>
    have hhigh : ¬ UInt8.ofNat (v % 128 + 128) &&& 0x80 = 0 := by
      rw [high_iff, toNat_large]
      omega
    rw [encode_large h, List.cons_append, size_cons, if_neg hhigh, ih, List.length_cons]

theorem size_pos (bytes : List UInt8) : 0 < size bytes := by
  cases bytes with
  | nil => exact Nat.one_pos
  | cons t rest =>
    rw [size_cons]
    split
    · exact Nat.one_pos
    · exact Nat.succ_pos _

/-- The first varint ends where its own bytes do. -/
theorem size_take (h : size bytes ≤ bytes.length) :
    size (bytes.take (size bytes)) = (bytes.take (size bytes)).length := by
  induction bytes with
  | nil => exact absurd h (by decide)
  | cons t rest ih =>
    rw [size_cons] at h ⊢
    split
    case isTrue hlow => rw [List.take_succ_cons, size_cons, if_pos hlow, List.take_zero]; rfl
    case isFalse hhigh =>
      rw [if_neg hhigh, List.length_cons] at h
      rw [List.take_succ_cons, size_cons, if_neg hhigh, List.length_cons,
        ih (Nat.le_of_succ_le_succ h)]

/-- No group of zeros at the end. -/
def Minimal (bytes : List UInt8) : Prop := 1 < bytes.length → bytes.getLast? ≠ some 0

theorem minimal_encode (v : Nat) : Minimal (encode v) := by
  induction v using encode.induct with
  | case1 v h =>
    intro hlength
    rw [encode_small h] at hlength
    exact absurd hlength (lt_irrefl 1)
  | case2 v h ih =>
    intro _
    rw [encode_large h, List.getLast?_cons_of_ne_nil (encode_ne_nil _)]
    by_cases hlong : 1 < (encode (v / 128)).length
    · exact ih hlong
    · have hshort : v / 128 < 128 := by
        by_contra hlarge
        rw [encode_large hlarge, List.length_cons] at hlong
        have := List.length_pos_of_ne_nil (encode_ne_nil (v / 128 / 128))
        omega
      rw [encode_small hshort, List.getLast?_singleton]
      intro hzero
      have := congrArg UInt8.toNat (Option.some.inj hzero)
      rw [toNat_small hshort] at this
      change v / 128 = 0 at this
      omega

/-- A minimal form is the shortest one. -/
theorem encode_value (hfront : size bytes = bytes.length) (h : Minimal bytes) :
    encode (value bytes) = bytes := by
  induction bytes with
  | nil => exact absurd hfront (by decide)
  | cons t rest ih =>
    rw [size_cons] at hfront
    have hbyte := t.toNat_lt
    split at hfront
    case isTrue hlow =>
      obtain rfl : rest = [] := List.eq_nil_of_length_eq_zero (by simpa using hfront.symm)
      rw [high_iff] at hlow
      have hvalue : value [t] = t.toNat := by
        rw [value_cons]
        change _ + 128 * 0 = _
        omega
      rw [hvalue, encode_small hlow, UInt8.ofNat_toNat]
    case isFalse hhigh =>
      rw [high_iff] at hhigh
      have hne : rest ≠ [] := by
        rintro rfl
        cases hfront
      have hrest : Minimal rest := by
        intro hlong
        have hlast := h (by rw [List.length_cons]; omega)
        rwa [List.getLast?_cons_of_ne_nil hne] at hlast
      have hnext := ih (Nat.succ_injective hfront) hrest
      have hpos : value rest ≠ 0 := by
        intro hzero
        rw [hzero, encode_small (by decide)] at hnext
        refine h ?_ ?_
        · rw [← hnext]
          exact Nat.lt_add_one 1
        · rw [← hnext]
          rfl
      have hlarge : ¬ value (t :: rest) < 128 := by
        rw [value_cons]
        omega
      rw [encode_large hlarge]
      congr 1
      · have hgroup : value (t :: rest) % 128 + 128 = t.toNat := by
          rw [value_cons]
          omega
        rw [hgroup, UInt8.ofNat_toNat]
      · have hmore : value (t :: rest) / 128 = value rest := by
          rw [value_cons]
          omega
        rw [hmore, hnext]

end VeloxHash.Varint
