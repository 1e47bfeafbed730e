import VeloxHash.PopulationCount
import Mathlib.Tactic

/-! `KPHash::calculate` from the choice of its random program to the end of one DAG access. -/

namespace VeloxHash.KPHash

def epochLength : Nat := 7500

def periodLength : UInt32 := 3

def cntCache : Nat := 11

def cntMath : Nat := 18

def regs : Nat := 32

def lanes : Nat := 16

/-- `KPCache::l1_cache_num_items`. -/
def l1CacheNumItems : Nat := 4096

def numWordsPerLane : Nat := 256 / (4 * lanes)

def fnvPrime : UInt32 := 0x01000193

def fnvOffsetBasis : UInt32 := 0x811C9DC5

def fnv1a (u v : UInt32) : UInt32 := (u ^^^ v) * fnvPrime

structure Kiss99 where
  z : UInt32
  w : UInt32
  jsr : UInt32
  jcong : UInt32

/-- The next number, and the state behind it. -/
def kiss99 (s : Kiss99) : UInt32 × Kiss99 :=
  let z := (36969 : UInt32) * (s.z &&& (0xFFFF : UInt32)) + s.z >>> 16
  let w := (18000 : UInt32) * (s.w &&& (0xFFFF : UInt32)) + s.w >>> 16
  let jcong := 69069 * s.jcong + 1234567
  let jsr := s.jsr ^^^ s.jsr <<< 17
  let jsr := jsr ^^^ jsr >>> 13
  let jsr := jsr ^^^ jsr <<< 5
  (((z <<< 16 + w) ^^^ jcong) + jsr, ⟨z, w, jsr, jcong⟩)

def rotl (n c : UInt32) : UInt32 :=
  let c := c &&& 31
  n <<< c ||| n >>> ((0 - c) &&& 31)

def rotr (n c : UInt32) : UInt32 :=
  let c := c &&& 31
  n >>> c ||| n <<< ((0 - c) &&& 31)

def randomMerge (a b selector : UInt32) : UInt32 :=
  let x := (selector >>> 16) % 31 + 1
  match selector % 4 with
  | 0 => a * 33 + b
  | 1 => (a ^^^ b) * 33
  | 2 => rotl a x ^^^ b
  | _ => rotr a x ^^^ b

/-- `__builtin_clz`, for arguments that are not zero. -/
def builtinClz (a : UInt32) : UInt32 := UInt32.ofNat (31 - a.toNat.log2)

def clz (a : UInt32) : UInt32 := if a ≠ 0 then builtinClz a else 32

/-- `__builtin_popcount`. -/
def popcount (a : UInt32) : UInt32 := UInt32.ofNat (PopulationCount.ones 32 a.toNat)

def popcountSoft (x : UInt64) : UInt32 :=
  let x := x - (x >>> 1 &&& (0x5555555555555555 : UInt64))
  let x := (x &&& (0x3333333333333333 : UInt64)) + (x >>> 2 &&& (0x3333333333333333 : UInt64))
  let x := (x + x >>> 4) &&& (0x0F0F0F0F0F0F0F0F : UInt64)
  ((x * 0x0101010101010101) >>> 56).toUInt32

def randomMath (a b selector : UInt32) (hasPopcnt : Bool) : UInt32 :=
  match selector % 11 with
  | 0 => a + b
  | 1 => a * b
  | 2 => ((a.toUInt64 * b.toUInt64) >>> 32).toUInt32
  | 3 => if a < b then a else b
  | 4 => rotl a b
  | 5 => rotr a b
  | 6 => a &&& b
  | 7 => a ||| b
  | 8 => a ^^^ b
  | 9 => clz a + clz b
  | _ =>
    if hasPopcnt then popcount a + popcount b
    else popcountSoft a.toUInt64 + popcountSoft b.toUInt64

/-- `dst_seq` and `src_seq`, and the numbers that are left. -/
structure Program where
  dst : List Nat
  src : List Nat
  rnd : Kiss99

/-- `std::swap` of two places. -/
def swap (seq : List Nat) (i j : Nat) : List Nat :=
  (seq.set i (seq.getD j 0)).set j (seq.getD i 0)

def seed (progNumber : UInt32) : Kiss99 :=
  let z := fnv1a fnvOffsetBasis progNumber
  let w := fnv1a z 0
  let jsr := fnv1a w progNumber
  ⟨z, w, jsr, fnv1a jsr 0⟩

/-- The loop that shuffles, from `i` down to 2. -/
def shuffle : Nat → Program → Program
  | 0, p => p
  | 1, p => p
  | i + 2, p =>
    let (r, rnd) := kiss99 p.rnd
    let dst := swap p.dst (i + 1) (r.toNat % (i + 2))
    let (r, rnd) := kiss99 rnd
    let src := swap p.src (i + 1) (r.toNat % (i + 2))
    shuffle (i + 1) ⟨dst, src, rnd⟩

def program (blockHeight : UInt32) : Program :=
  shuffle regs ⟨List.range regs, List.range regs, seed (blockHeight / periodLength)⟩

/-- The registers of one lane. -/
abbrev Lane := List UInt32

abbrev Mix := List Lane

/-- What is done to every lane. -/
inductive Operation
  | load (src dst : Nat) (sel : UInt32)
  | math (src₁ src₂ : Nat) (sel₁ : UInt32) (dst : Nat) (sel₂ : UInt32)
  | merge (word dst : Nat) (sel : UInt32)
  deriving DecidableEq

/-- One DAG access; the ghost `performed` lists its operations. -/
structure Access where
  rnd : Kiss99
  dstCounter : Nat := 0
  srcCounter : Nat := 0
  mix : Mix
  performed : List Operation := []

def mergeInto (lane : Lane) (dst : Nat) (b sel : UInt32) : Lane :=
  lane.set dst (randomMerge (lane.getD dst 0) b sel)

/-- The machine and the cache that `calculate` runs with. -/
structure Machine where
  hasPopcnt : Bool
  l1Cache : Nat → UInt32

section Loop

variable (m : Machine) (p : Program)

def cacheStep (s : Access) : Access :=
  let src := p.src.getD (s.srcCounter % regs) 0
  let dst := p.dst.getD (s.dstCounter % regs) 0
  let (sel, rnd) := kiss99 s.rnd
  { rnd
    srcCounter := s.srcCounter + 1
    dstCounter := s.dstCounter + 1
    mix := s.mix.map fun lane =>
      mergeInto lane dst (m.l1Cache ((lane.getD src 0).toNat % l1CacheNumItems)) sel
    performed := s.performed ++ [.load src dst sel] }

def mathStep (s : Access) : Access :=
  let (r, rnd) := kiss99 s.rnd
  let srcRnd := r.toNat % (regs * (regs - 1))
  let src₁ := srcRnd % regs
  let src₂ := srcRnd / regs
  let src₂ := if src₂ ≥ src₁ then src₂ + 1 else src₂
  let (sel₁, rnd) := kiss99 rnd
  let dst := p.dst.getD (s.dstCounter % regs) 0
  let (sel₂, rnd) := kiss99 rnd
  { s with
    rnd
    dstCounter := s.dstCounter + 1
    mix := s.mix.map fun lane => mergeInto lane dst
      (randomMath (lane.getD src₁ 0) (lane.getD src₂ 0) sel₁ m.hasPopcnt) sel₂
    performed := s.performed ++ [.math src₁ src₂ sel₁ dst sel₂] }

def operationStep (s : Access) (i : Nat) : Access :=
  let s := if i < cntCache then cacheStep m p s else s
  if i < cntMath then mathStep m p s else s

/-- The destinations and selectors of the DAG words. -/
def drawWord (s : Access × List (Nat × UInt32)) (i : Nat) : Access × List (Nat × UInt32) :=
  let (dst, dstCounter) :=
    if i = 0 then (0, s.1.dstCounter)
    else (p.dst.getD (s.1.dstCounter % regs) 0, s.1.dstCounter + 1)
  let (sel, rnd) := kiss99 s.1.rnd
  ({ s.1 with rnd, dstCounter }, s.2 ++ [(dst, sel)])

/-- The merges of the DAG words into a lane. -/
def mergeWords (item : Nat → UInt32) (offset : Nat) (words : List (Nat × UInt32)) (lane : Lane) :
    Lane :=
  words.zipIdx.foldl (fun lane w => mergeInto lane w.1.1 (item (offset + w.2)) w.1.2) lane

def wordOffset (r l : Nat) : Nat := (l ^^^ r) % lanes * numWordsPerLane

/-- The body of the loop over the DAG accesses, once the item is known. -/
def access (r : Nat) (item : Nat → UInt32) (mix : Mix) : Access :=
  let s := (List.range (max cntCache cntMath)).foldl (operationStep m p) { rnd := p.rnd, mix }
  let (s, words) := (List.range numWordsPerLane).foldl (drawWord p) (s, [])
  { s with
    mix := s.mix.mapIdx fun l => mergeWords item (wordOffset r l) words
    performed := s.performed ++ words.zipIdx.map fun w => .merge w.2 w.1.1 w.1.2 }

end Loop

end VeloxHash.KPHash
