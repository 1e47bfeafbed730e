import Mathlib.Data.UInt

/-! `keccak`: the sponge over 25 lanes of 64 bits. -/

namespace VeloxHash.Keccak

/-- `HASH_DATA_AREA`. -/
def hashDataArea : Nat := 136

/-- `ROTL64`. -/
def rotl64 (x y : UInt64) : UInt64 := x <<< y ||| x >>> (64 - y)

def keccakfRndc : List UInt64 :=
  [0x0000000000000001, 0x0000000000008082, 0x800000000000808a, 0x8000000080008000,
    0x000000000000808b, 0x0000000080000001, 0x8000000080008081, 0x8000000000008009,
    0x000000000000008a, 0x0000000000000088, 0x0000000080008009, 0x000000008000000a,
    0x000000008000808b, 0x800000000000008b, 0x8000000000008089, 0x8000000000008003,
    0x8000000000008002, 0x8000000000000080, 0x000000000000800a, 0x800000008000000a,
    0x8000000080008081, 0x8000000000008080, 0x0000000080000001, 0x8000000080008008]

abbrev State := List UInt64

def lane (st : State) (i : Nat) : UInt64 := st.getD i 0

def theta (st : State) : State :=
  let bc := (List.range 5).map fun i =>
    lane st i ^^^ lane st (i + 5) ^^^ lane st (i + 10) ^^^ lane st (i + 15) ^^^ lane st (i + 20)
  let t := (List.range 5).map fun i => lane bc ((i + 4) % 5) ^^^ rotl64 (lane bc ((i + 1) % 5)) 1
  st.mapIdx fun i x => x ^^^ lane t (i % 5)

/-- The assignments of `Rho Pi`, in order: a lane, the one it is taken from, and the turn. -/
def rhoPiSteps : List (Nat × Nat × UInt64) :=
  [(1, 6, 44), (6, 9, 20), (9, 22, 61), (22, 14, 39), (14, 20, 18), (20, 2, 62), (2, 12, 43),
    (12, 13, 25), (13, 19, 8), (19, 23, 56), (23, 15, 41), (15, 4, 27), (4, 24, 14), (24, 21, 2),
    (21, 8, 55), (8, 16, 45), (16, 5, 36), (5, 3, 28), (3, 18, 21), (18, 17, 15), (17, 11, 10),
    (11, 7, 6), (7, 10, 3)]

def rhoPi (st : State) : State :=
  (rhoPiSteps.foldl (fun st step => st.set step.1 (rotl64 (lane st step.2.1) step.2.2)) st).set 10
    (rotl64 (lane st 1) 1)

/-- Each row of five lanes, from what the row held before. -/
def chi (st : State) : State :=
  st.mapIdx fun i x =>
    let j := 5 * (i / 5)
    x ^^^ (~~~ lane st (j + (i + 1) % 5) &&& lane st (j + (i + 2) % 5))

def iota (rndc : UInt64) (st : State) : State := st.set 0 (lane st 0 ^^^ rndc)

def keccakf (st : State) : State :=
  keccakfRndc.foldl (fun st rndc => iota rndc (chi (rhoPi (theta st)))) st

/-- Eight bytes, the lowest in front. -/
def word (bytes : List UInt8) : UInt64 := bytes.foldr (fun b w => b.toUInt64 ||| w <<< 8) 0

def words : (rsizw : Nat) → List UInt8 → List UInt64
  | 0, _ => []
  | rsizw + 1, bytes => word (bytes.take 8) :: words rsizw (bytes.drop 8)

/-- The first `rsizw` words are added to the state. -/
def absorb (rsizw : Nat) (st : State) (bytes : List UInt8) : State :=
  keccakf ((st.zipWith (· ^^^ ·) (words rsizw bytes)) ++ st.drop rsizw)

def absorbAll (rsiz : Nat) : (blocks : Nat) → State → List UInt8 → State × List UInt8
  | 0, st, input => (st, input)
  | blocks + 1, st, input =>
    absorbAll rsiz blocks (absorb (rsiz / 8) st (input.take rsiz)) (input.drop rsiz)

/-- `temp`: a one, zeros, and the highest bit of the last byte. -/
def pad (rsiz : Nat) (input : List UInt8) : List UInt8 :=
  let temp := input ++ [1] ++ List.replicate (rsiz - (input.length + 1)) 0
  temp.set (rsiz - 1) (temp.getD (rsiz - 1) 0 ||| 0x80)

def laneBytes (x : UInt64) : List UInt8 := (List.range 8).map fun i =>
  (x >>> (8 * UInt64.ofNat i)).toUInt8

theorem length_rhoPi (st : State) : (rhoPi st).length = st.length := by
  have hsteps (steps : List (Nat × Nat × UInt64)) (st : State) :
      (steps.foldl (fun st step => st.set step.1 (rotl64 (lane st step.2.1) step.2.2)) st).length =
        st.length := by
    induction steps generalizing st with
    | nil => rfl
    | cons step steps ih => rw [List.foldl_cons, ih, List.length_set]
  rw [rhoPi, List.length_set, hsteps]

theorem length_keccakf (st : State) : (keccakf st).length = st.length := by
  unfold keccakf
  induction keccakfRndc generalizing st with
  | nil => rfl
  | cons rndc rndcs ih =>
    rw [List.foldl_cons, ih, iota, List.length_set, chi, List.length_mapIdx, length_rhoPi, theta,
      List.length_mapIdx]

theorem length_words (rsizw : Nat) (bytes : List UInt8) : (words rsizw bytes).length = rsizw := by
  induction rsizw generalizing bytes with
  | zero => rfl
  | succ rsizw ih => rw [words, List.length_cons, ih]

theorem length_absorb {rsizw : Nat} {st : State} (h : rsizw ≤ st.length) (bytes : List UInt8) :
    (absorb rsizw st bytes).length = st.length := by
  rw [absorb, length_keccakf, List.length_append, List.length_zipWith, length_words,
    List.length_drop]
  omega

theorem length_absorbAll {rsiz : Nat} {st : State} (h : rsiz / 8 ≤ st.length) (blocks : Nat)
    (input : List UInt8) : (absorbAll rsiz blocks st input).1.length = st.length := by
  induction blocks generalizing st input with
  | zero => rfl
  | succ blocks ih => rw [absorbAll, ih (by rwa [length_absorb h]), length_absorb h]

end VeloxHash.Keccak

namespace VeloxHash

open Keccak

/-- `keccak(in, inlen, md)`: all 200 bytes of the state. -/
def keccak (input : List UInt8) : List UInt8 :=
  let absorbed := absorbAll hashDataArea (input.length / hashDataArea) (List.replicate 25 0) input
  (absorb (hashDataArea / 8) absorbed.1 (pad hashDataArea absorbed.2)).flatMap laneBytes

theorem length_keccak (input : List UInt8) : (keccak input).length = 200 := by
  have hstart : hashDataArea / 8 ≤ (List.replicate 25 (0 : UInt64)).length := by decide
  have hlanes (st : State) : (st.flatMap laneBytes).length = 8 * st.length := by
    induction st with
    | nil => rfl
    | cons x st ih =>
      rw [List.flatMap_cons, List.length_append, ih, List.length_cons, laneBytes, List.length_map,
        List.length_range]
      omega
  have hrest := length_absorbAll hstart (input.length / hashDataArea) input
  rw [keccak, hlanes, length_absorb (hrest.symm ▸ hstart), hrest, List.length_replicate]

end VeloxHash
