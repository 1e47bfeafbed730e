import Mathlib.Data.List.GetD
import Mathlib.Tactic
import VeloxHash.Splice

/-! Byte-addressed memory and the straight-line emission of machine code into it.
A `Store` may write more bytes than the cursor then moves over: the surplus is
overwritten by the store that follows, and only what the cursor has passed is code. -/

namespace VeloxHash.CodeBuffer

abbrev Memory := Nat → UInt8

def write (m : Memory) (p : Nat) (bytes : List UInt8) : Memory :=
  fun a => if a < p then m a else bytes.getD (a - p) (m a)

def read (m : Memory) (p n : Nat) : List UInt8 := (List.range n).map fun k => m (p + k)

/-- The low `n` bytes of a number, little-endian. -/
def le (v : Nat) : Nat → List UInt8
  | 0 => []
  | n + 1 => UInt8.ofNat v :: le (v / 256) n

/-- The number that little-endian bytes spell. -/
def ofLe : List UInt8 → Nat
  | [] => 0
  | b :: rest => b.toNat + 256 * ofLe rest

/-- One store at the cursor, and how far the cursor moves. -/
structure Store where
  bytes : List UInt8
  advance : Nat
  advance_le : advance ≤ bytes.length

namespace Store

/-- `*(uint32_t*)(code + pos) = v; pos += n`. -/
def put32 (v : UInt32) (n : Fin 5) : Store := ⟨le v.toNat 4, n, by simp [le]; omega⟩

/-- `*(uint64_t*)(code + pos) = v; pos += n`. -/
def put64 (v : UInt64) (n : Fin 9) : Store := ⟨le v.toNat 8, n, by simp [le]; omega⟩

/-- `memcpy(code + pos, bytes, n); pos += n`. -/
def put (bytes : List UInt8) : Store := ⟨bytes, bytes.length, le_rfl⟩

def code (s : Store) : List UInt8 := s.bytes.take s.advance

end Store

variable {m : Memory} {p q n : Nat} {bytes : List UInt8}

@[simp] theorem length_read (m : Memory) (p n : Nat) : (read m p n).length = n := by simp [read]

@[simp] theorem length_le (v n : Nat) : (le v n).length = n := by
  induction n generalizing v with
  | zero => rfl
  | succ n ih => rw [le, List.length_cons, ih]

theorem ofLe_le (v n : Nat) : ofLe (le v n) = v % 256 ^ n := by
  induction n generalizing v with
  | zero => simp [le, ofLe, Nat.mod_one]
  | succ n ih =>
    rw [le, ofLe, ih, UInt8.toNat_ofNat', pow_succ' 256 n, Nat.mod_mul]

theorem le_ofLe (bytes : List UInt8) : le (ofLe bytes) bytes.length = bytes := by
  induction bytes with
  | nil => rfl
  | cons b rest ih =>
    have hb := b.toNat_lt
    rw [List.length_cons, ofLe, le, show (b.toNat + 256 * ofLe rest) / 256 = ofLe rest by omega, ih]
    congr 1
    apply UInt8.toNat.inj
    rw [UInt8.toNat_ofNat']
    omega

theorem ofLe_lt (bytes : List UInt8) : ofLe bytes < 256 ^ bytes.length := by
  have h := ofLe_le (ofLe bytes) bytes.length
  rw [le_ofLe] at h
  exact h ▸ Nat.mod_lt _ (by positivity)

theorem ofLe_append (a b : List UInt8) : ofLe (a ++ b) = ofLe a + 256 ^ a.length * ofLe b := by
  induction a with
  | nil => simp [ofLe]
  | cons x a ih =>
    rw [List.cons_append, ofLe, ofLe, ih, List.length_cons, pow_succ']
    ring

/-- A doubleword reads back from its bytes. -/
theorem ofNat_ofLe_le (v : UInt64) : UInt64.ofNat (ofLe (le v.toNat 8)) = v := by
  rw [ofLe_le, Nat.mod_eq_of_lt (v.toNat_lt.trans_eq (by norm_num)), UInt64.ofNat_toNat]

@[simp] theorem length_code (s : Store) : s.code.length = s.advance := by
  simp [Store.code, s.advance_le]

theorem write_below {a : Nat} (h : a < p) : write m p bytes a = m a := if_pos h

theorem write_above {a : Nat} (h : p + bytes.length ≤ a) : write m p bytes a = m a := by
  rw [write, if_neg (by omega), List.getD_eq_default _ _ (by omega)]

theorem read_congr {m' : Memory} (h : ∀ a, p ≤ a → a < p + n → m' a = m a) :
    read m' p n = read m p n := by
  apply List.map_congr_left
  intro k hk
  exact h _ (by omega) (by have := List.mem_range.mp hk; omega)

theorem read_add (m : Memory) (p n k : Nat) :
    read m p (n + k) = read m p n ++ read m (p + n) k := by
  simp only [read, List.range_add, List.map_append, List.map_map, Function.comp_def,
    Nat.add_assoc]

theorem read_write_take (h : n ≤ bytes.length) : read (write m p bytes) p n = bytes.take n := by
  apply List.ext_getElem (by simp [h])
  intro k hk _
  have hlt : k < n := by simpa using hk
  simp only [read, List.getElem_map, List.getElem_range, List.getElem_take]
  rw [write, if_neg (by omega), Nat.add_sub_cancel_left]
  exact List.getD_eq_getElem _ _ (by omega)

/-- Run a list of stores from the cursor. -/
def emit (m : Memory) (p : Nat) : List Store → Memory
  | [] => m
  | s :: rest => emit (write m p s.bytes) (p + s.advance) rest

def size (stores : List Store) : Nat := (stores.map Store.advance).sum

def code (stores : List Store) : List UInt8 := stores.flatMap Store.code

@[simp] theorem size_nil : size [] = 0 := rfl

@[simp] theorem size_cons (s : Store) (rest : List Store) :
    size (s :: rest) = s.advance + size rest := by simp [size]

@[simp] theorem size_append (xs ys : List Store) : size (xs ++ ys) = size xs + size ys := by
  simp [size]

@[simp] theorem length_code_list (stores : List Store) : (code stores).length = size stores := by
  induction stores with
  | nil => rfl
  | cons s rest ih => simp only [code, List.flatMap_cons, List.length_append, length_code,
      size_cons] at ih ⊢; omega

theorem emit_below (stores : List Store) {a : Nat} (h : a < p) : emit m p stores a = m a := by
  induction stores generalizing m p with
  | nil => rfl
  | cons s rest ih => rw [emit, ih (by omega), write_below h]

theorem emit_append (xs ys : List Store) :
    emit m p (xs ++ ys) = emit (emit m p xs) (p + size xs) ys := by
  induction xs generalizing m p with
  | nil => rfl
  | cons s rest ih => rw [List.cons_append, emit, ih, emit, size_cons, Nat.add_assoc]

/-- What the cursor has passed reads back as the code of the stores. -/
theorem read_emit (stores : List Store) : read (emit m p stores) p (size stores) = code stores := by
  induction stores generalizing m p with
  | nil => rfl
  | cons s rest ih =>
    have hkept : read (emit m p (s :: rest)) p s.advance = s.code := by
      rw [emit, read_congr fun a _ hlt => emit_below rest hlt, read_write_take s.advance_le,
        Store.code]
    rw [size_cons, read_add, hkept, emit, ih, code, code, List.flatMap_cons]

theorem read_emit_below (stores : List Store) (h : p + n ≤ q) :
    read (emit m q stores) p n = read m p n :=
  read_congr fun _ _ hlt => emit_below stores (by omega)

theorem read_write_disjoint (h : p + n ≤ q ∨ q + bytes.length ≤ p) :
    read (write m q bytes) p n = read m p n := by
  refine read_congr fun a hle hlt => ?_
  rcases h with h | h
  · exact write_below (by omega)
  · exact write_above (by omega)

theorem write_nil (m : Memory) (p : Nat) : write m p [] = m := by
  funext a
  by_cases h : a < p
  · exact write_below h
  · exact write_above (Nat.le_of_not_lt h)

theorem write_append (m : Memory) (p : Nat) (xs ys : List UInt8) :
    write (write m p xs) (p + xs.length) ys = write m p (xs ++ ys) := by
  funext a
  by_cases hlow : a < p
  · rw [write_below (by omega), write_below hlow, write_below hlow]
  · by_cases hmid : a < p + xs.length
    · rw [write_below hmid, write, if_neg hlow, write, if_neg hlow, List.getD_append _ _ _ _ (by omega)]
    · rw [write, if_neg hmid, write_above (by omega), write, if_neg hlow,
        List.getD_append_right _ _ _ _ (by omega), Nat.sub_sub]

/-- What lies behind may also be written first. -/
theorem write_behind (m : Memory) (p : Nat) (xs ys : List UInt8) :
    write (write m (p + xs.length) ys) p xs = write m p (xs ++ ys) := by
  rw [← write_append]
  funext a
  by_cases hlow : a < p
  · rw [write_below hlow, write_below (by omega), write_below (by omega), write_below hlow]
  · by_cases hmid : a < p + xs.length
    · have hin : a - p < xs.length := by omega
      have hfirst (m' : Memory) : write m' p xs a = xs[a - p] := by
        rw [write, if_neg hlow, List.getD_eq_getElem _ _ hin]
      rw [write_below hmid, hfirst, hfirst]
    · rw [write_above (by omega), write, if_neg hmid, write, if_neg hmid, write_above (by omega)]

/-- A store inside a window is an overwrite of what the window reads. -/
theorem read_write_splice {o : Nat} (h : o + bytes.length ≤ n) :
    read (write m (p + o) bytes) p n = Splice.splice (read m p n) o bytes := by
  have hsplice := Splice.splice_getElem? (l := read m p n) (p := o) (b := bytes) (by simpa using h)
  apply List.ext_getElem?
  intro k
  rw [hsplice]
  by_cases hk : k < n
  · simp only [read, List.getElem?_map, List.getElem?_range hk, Option.map_some]
    by_cases hin : o ≤ k ∧ k < o + bytes.length
    · rw [if_pos hin, write, if_neg (by omega), show p + k - (p + o) = k - o by omega,
        List.getElem?_eq_getElem (by omega), List.getD_eq_getElem _ _ (by omega)]
    · rw [if_neg hin]
      by_cases hlow : k < o
      · rw [write_below (by omega)]
      · rw [write_above (by omega)]
  · have hnone (m' : Memory) : (read m' p n)[k]? = none :=
      List.getElem?_eq_none (by simpa using hk)
    rw [hnone, hnone, if_neg (by omega)]

theorem read_slice {o k : Nat} (h : o + k ≤ n) : Splice.slice (read m p n) o k = read m (p + o) k := by
  apply List.ext_getElem?
  intro i
  rw [Splice.slice_getElem?]
  by_cases hi : i < k
  · simp only [if_pos hi, read, List.getElem?_map, List.getElem?_range hi,
      List.getElem?_range (show o + i < n by omega), Option.map_some, Nat.add_assoc]
  · rw [if_neg hi, List.getElem?_eq_none (by simpa using hi)]

end VeloxHash.CodeBuffer
