import VeloxHash.CodeBuffer
import VeloxHash.FinNumerals
import VeloxHash.ForkJoin

/-! GhostRider on eight lanes (`ghostrider.cpp`). A call of `hash_octa` is a list of phases: what
the calling thread does, and what the helper thread does meanwhile. The order in which the tuning
table groups the lanes, and the scratchpads it gives them, is part of the actions. -/

namespace VeloxHash.GhostRider

open CodeBuffer ForkJoin

/-! ### The seed -/

/-- `indices` and `selected`, filled together. -/
structure Selection (N : Nat) where
  indices : List (Fin N)
  selected : Fin N → Bool
  nodup : indices.Nodup
  mem_iff : ∀ i, i ∈ indices ↔ selected i = true

namespace Selection

variable {N : Nat}

def empty : Selection N := ⟨[], fun _ => false, List.nodup_nil, by simp⟩

def push (s : Selection N) (i : Fin N) (h : s.selected i = false) : Selection N where
  indices := s.indices ++ [i]
  selected := Function.update s.selected i true
  nodup := by
    refine s.nodup.append (List.nodup_singleton i) ?_
    simp [s.mem_iff, h]
  mem_iff j := by
    by_cases hj : j = i
    · simp [hj]
    · simp [hj, s.mem_iff]

/-- The indices the seed did not name, in order. -/
def fill (s : Selection N) : Selection N :=
  (List.finRange N).foldl (fun s i => if h : s.selected i = false then s.push i h else s) s

end Selection

variable {N : Nat}

def nibble (seed : Memory) (i : Nat) : Nat :=
  ((seed (i / 2) >>> UInt8.ofNat ((i &&& 1) * 4)) &&& 0xF).toNat

/-- The loop over the nibbles; it returns as soon as all indices are chosen. -/
def scan [NeZero N] (seed : Memory) : List Nat → Selection N → Selection N
  | [], s => s.fill
  | i :: rest, s =>
    let index := Fin.ofNat N (nibble seed i)
    if h : s.selected index = false then
      let s := s.push index h
      if N ≤ s.indices.length then s else scan seed rest s
    else scan seed rest s

def selectIndices (N : Nat) [NeZero N] (seed : Memory) : List (Fin N) :=
  (scan seed (List.range 64) Selection.empty).indices

theorem Selection.complete (s : Selection N) (h : N ≤ s.indices.length) (i : Fin N) :
    i ∈ s.indices := by
  have hcard : s.indices.toFinset.card = s.indices.length := List.toFinset_card_of_nodup s.nodup
  have hle := Finset.card_le_univ s.indices.toFinset
  rw [Fintype.card_fin] at hle
  have huniv : s.indices.toFinset = Finset.univ :=
    (Finset.card_eq_iff_eq_univ _).mp (by rw [Fintype.card_fin]; omega)
  exact List.mem_toFinset.mp (huniv ▸ Finset.mem_univ i)

theorem Selection.mem_push {s : Selection N} {i j : Fin N} {h : s.selected i = false} :
    j ∈ (s.push i h).indices ↔ j ∈ s.indices ∨ j = i := by
  simp [Selection.push]

theorem Selection.mem_fill (s : Selection N) (i : Fin N) : i ∈ s.fill.indices := by
  have hloop (l : List (Fin N)) (s : Selection N) (hi : i ∈ l ∨ i ∈ s.indices) :
      i ∈ (l.foldl (fun s i => if h : s.selected i = false then s.push i h else s) s).indices := by
    induction l generalizing s with
    | nil => simpa using hi
    | cons j l ih =>
      rw [List.foldl_cons]
      apply ih
      by_cases hj : s.selected j = false
      · rw [dif_pos hj, mem_push]
        rcases hi with hi | hi
        · exact (List.mem_cons.mp hi).symm.imp_right .inr
        · exact .inr (.inl hi)
      · rw [dif_neg hj]
        rcases hi with hi | hi
        · rcases List.mem_cons.mp hi with rfl | hi
          · exact .inr ((s.mem_iff i).mpr (Bool.eq_true_of_not_eq_false hj))
          · exact .inl hi
        · exact .inr hi
  exact hloop _ s (.inl (List.mem_finRange i))

theorem mem_scan [NeZero N] (seed : Memory) (is : List Nat) (s : Selection N) (j : Fin N) :
    j ∈ (scan seed is s).indices := by
  induction is generalizing s with
  | nil => exact s.mem_fill j
  | cons i is ih =>
    rw [scan]
    split
    · dsimp only
      split
      · exact Selection.complete _ ‹_› j
      · exact ih _
    · exact ih s

/-- Whatever the seed, every index is chosen once. -/
theorem selectIndices_perm (N : Nat) [NeZero N] (seed : Memory) :
    (selectIndices N seed).Perm (List.finRange N) :=
  (List.perm_ext_iff_of_nodup (Selection.nodup _) (List.nodup_finRange N)).mpr fun j =>
    ⟨fun _ => List.mem_finRange j, fun _ => mem_scan seed _ _ j⟩

theorem length_selectIndices (N : Nat) [NeZero N] (seed : Memory) :
    (selectIndices N seed).length = N := by
  rw [(selectIndices_perm N seed).length_eq, List.length_finRange]

/-- The seed is 32 bytes long. -/
theorem selectIndices_congr (N : Nat) [NeZero N] {seed seed' : Memory}
    (h : ∀ i < 32, seed i = seed' i) : selectIndices N seed = selectIndices N seed' := by
  have hscan (is : List Nat) (s : Selection N) (his : ∀ i ∈ is, i < 64) :
      scan seed is s = scan seed' is s := by
    induction is generalizing s with
    | nil => rfl
    | cons i is ih =>
      have hi : i / 2 < 32 := by
        have := his i List.mem_cons_self
        omega
      have hnibble : nibble seed i = nibble seed' i := by rw [nibble, nibble, h _ hi]
      have hrest (s : Selection N) := ih s fun j hj => his j (List.mem_cons_of_mem i hj)
      simp only [scan, hrest]
      rw [hnibble]
  rw [selectIndices, selectIndices, hscan _ _ fun i hi => List.mem_range.mp hi]

/-! ### Scratchpads and tuning -/

/-- `Algorithm::l3`: bits 16 to 23 of the id are the binary logarithm. -/
def l3 (id : Nat) : Nat := 1 <<< ((id >>> 16) &&& 0xff)

def GHOSTRIDER_RTM : Nat := 0x6c150000

/-- `cn_hash`: CN_GR_0 to CN_GR_5. -/
def cnHash : Fin 6 → Nat :=
  ![0x63130100, 0x63130101, 0x63150102, 0x63140103, 0x63120104, 0x63120105]

def cnSizes : Fin 6 → Nat :=
  ![l3 (cnHash 0), l3 (cnHash 1) / 2, l3 (cnHash 2), l3 (cnHash 3), l3 (cnHash 4),
    l3 (cnHash 5) / 2]

/-- What `benchmark` leaves for an algorithm: `step` lanes to a call, on one thread or on two. -/
structure AlgoTune where
  step : Nat := 1
  threads : Nat := 1
  step_mem : step ∈ [1, 2, 4] := by decide
  threads_mem : threads ∈ [1, 2] := by decide

structure HelperThread where
  is8MB : Bool

/-- `CnCtx::create`: the scratchpads of the contexts lie one behind the other. -/
def CnCtx.create (memory size : Nat) : Nat → Nat := fun i => memory + i * size

/-- The hash functions. A CryptoNight function works on the context of each of its lanes in
three stages: the scratchpad is filled from the input, the main loop works on it, the digest is
drawn from it. `W` is what the context keeps besides. -/
structure Kernels (W : Type) where
  core : Fin 15 → List UInt8 → Vector UInt8 64
  explode : (a : Fin 6) → List UInt8 → W × Vector UInt8 (cnSizes a)
  iterations : Fin 6 → Nat
  iterate : (a : Fin 6) → W × Vector UInt8 (cnSizes a) → W × Vector UInt8 (cnSizes a)
  implode : (a : Fin 6) → W × Vector UInt8 (cnSizes a) →
    (W × Vector UInt8 (cnSizes a)) × Vector UInt8 32

/-- `tmp`, `output`, the scratchpad memory, `ctx[i]->memory` and the rest of each context. -/
structure State (W : Type) where
  tmp : Memory
  output : Memory
  scratch : Memory
  memory : Nat → Nat
  work : Nat → W

/-- `f(tmp + lane * 64, 64, output + lane * 32, ctx + first, 0)` for `step` lanes. -/
structure Call where
  algo : Fin 6
  step : Nat
  ctx : Nat
  lane : Nat

inductive Action
  | setMemory (i p : Nat)
  | core (fromData : Bool) (index : Fin 15) (lane : Nat)
  | explode (c : Call) (l : Nat)
  | iterate (c : Call) (l : Nat)
  | implode (c : Call) (l : Nat)
  | copy (lane : Nat)

def getPad (m : Memory) (p n : Nat) : Vector UInt8 n := Vector.ofFn fun i => m (p + i)

variable {W : Type}

namespace State

def load (s : State W) (c : Call) (l : Nat) : W × Vector UInt8 (cnSizes c.algo) :=
  (s.work (c.ctx + l), getPad s.scratch (s.memory (c.ctx + l)) (cnSizes c.algo))

def store (s : State W) (c : Call) (l : Nat) (v : W × Vector UInt8 (cnSizes c.algo)) : State W :=
  { s with
    work := Function.update s.work (c.ctx + l) v.1
    scratch := write s.scratch (s.memory (c.ctx + l)) v.2.toList }

end State

def blob (data : Memory) (size lane : Nat) : List UInt8 := read data (lane * size) size

/-- A digest as the next input: 32 bytes and 32 zero bytes. -/
def padded (digest : List UInt8) : List UInt8 := digest ++ List.replicate 32 0

def act (k : Kernels W) (data : Memory) (size : Nat) : Action → State W → State W
  | .setMemory i p, s => { s with memory := Function.update s.memory i p }
  | .core fromData index lane, s =>
    let input := if fromData then blob data size lane else read s.tmp (lane * 64) 64
    { s with tmp := write s.tmp (lane * 64) (k.core index input).toList }
  | .explode c l, s => s.store c l (k.explode c.algo (read s.tmp ((c.lane + l) * 64) 64))
  | .iterate c l, s => s.store c l (k.iterate c.algo (s.load c l))
  | .implode c l, s =>
    let r := k.implode c.algo (s.load c l)
    { s.store c l r.1 with output := write s.output ((c.lane + l) * 32) r.2.toList }
  | .copy lane, s =>
    { s with tmp := write s.tmp (lane * 64) (padded (read s.output (lane * 32) 32)) }

/-! ### The program -/

/-- `k` and `p` for context `i`; `first` is the context in whose block the loop starts. -/
def nextPad (ctxMemory : Nat → Nat) (step first i k p : Nat) : Nat × Nat :=
  if i % step = 0 then (first, ctxMemory first)
  else if 1 <<< 21 ≤ p - ctxMemory k then (k + 1, ctxMemory (k + 1))
  else (k, p)

/-- An allocation loop over the contexts `is`, and the `p` it ends with. -/
def allocate (ctxMemory : Nat → Nat) (size step first : Nat) :
    List Nat → Nat → Nat → List Action × Nat
  | [], _, p => ([], p)
  | i :: is, k, p =>
    let next := nextPad ctxMemory step first i k p
    let rest := allocate ctxMemory size step first is next.1 (next.2 + size)
    (.setMemory i next.2 :: rest.1, rest.2)

/-- `for (i = lo, k = first; i < hi; ++i)`. -/
def allocatePads (ctxMemory : Nat → Nat) (size step first lo hi p : Nat) : List Action × Nat :=
  allocate ctxMemory size step first (List.range' lo (hi - lo)) first p

def call (k : Kernels W) (c : Call) : List Action :=
  (List.range c.step).map (.explode c) ++
    ((List.range (k.iterations c.algo)).flatMap fun _ => (List.range c.step).map (.iterate c)) ++
    (List.range c.step).map (.implode c)

/-- One of the three parts on the lanes from `lo` to `hi`, with the contexts from `lo` on. -/
def hashPart (k : Kernels W) (coreIndices : List (Fin 15)) (algo : Fin 6) (step part lo hi : Nat) :
    List Action :=
  ((List.range 5).flatMap fun i => (List.range (hi - lo)).map fun q =>
      .core (part = 0 ∧ i = 0) (coreIndices.getD (part * 5 + i) 0) (lo + q)) ++
    ((List.range ((hi - lo + step - 1) / step)).flatMap fun q =>
      call k ⟨algo, step, lo, lo + q * step⟩) ++
    (List.range (hi - lo)).map fun q => .copy (lo + q)

def restore (ctxMemory : Nat → Nat) : List Action :=
  (List.range 8).map fun i => .setMemory i (ctxMemory i)

def seed (data : Memory) : Memory := fun i => data (4 + i)

def tuneOf (helper : Option HelperThread) (tuneDefault tune8MB : Fin 6 → AlgoTune) :
    Fin 6 → AlgoTune :=
  match helper with
  | some h => if h.is8MB then tune8MB else tuneDefault
  | none => tuneDefault

/-- `hash_octa` with hwloc. -/
def hashOcta (k : Kernels W) (data : Memory) (ctxMemory : Nat → Nat) (helper : Option HelperThread)
    (tuneDefault tune8MB : Fin 6 → AlgoTune) : List (Phase Action) :=
  let coreIndices := selectIndices 15 (seed data)
  let cnIndices := selectIndices 6 (seed data)
  let algo (part : Nat) := cnIndices.getD part 0
  let t (part : Nat) := tuneOf helper tuneDefault tune8MB (algo part)
  let pads (part : Nat) := allocatePads ctxMemory (cnSizes (algo part)) (t part).step
  let lanes (part : Nat) := hashPart k coreIndices (algo part) (t part).step part
  (if helper.isSome ∧ (t 0).threads = 2 ∧ (t 1).threads = 2 ∧ (t 2).threads = 2 then
    [⟨(List.range 3).flatMap fun part => (pads part 0 0 4 (ctxMemory 0)).1 ++ lanes part 0 4,
      (List.range 3).flatMap fun part => (pads part 4 4 8 (ctxMemory 4)).1 ++ lanes part 4 8⟩]
  else
    (List.range 3).flatMap fun part =>
      let n := 8 / (t part).threads
      let one := pads part 0 0 n (ctxMemory 0)
      let two := pads part 4 n 8 one.2
      [⟨one.1 ++ two.1, []⟩,
        if helper.isSome ∧ (t part).threads = 2 then ⟨lanes part 0 4, lanes part 4 8⟩
        else ⟨lanes part 0 8, []⟩]) ++
    [⟨restore ctxMemory, []⟩]

/-- The steps of a build without hwloc, on ARM and RISC-V and elsewhere. -/
def plainStep (armOrRiscv : Bool) : Fin 6 → Nat :=
  if armOrRiscv then fun _ => 1 else ![4, 4, 1, 2, 4, 4]

/-- `hash_octa` without hwloc. -/
def hashOctaPlain (k : Kernels W) (data : Memory) (ctxMemory : Nat → Nat) (armOrRiscv : Bool) :
    List (Phase Action) :=
  let coreIndices := selectIndices 15 (seed data)
  let cnIndices := selectIndices 6 (seed data)
  let algo (part : Nat) := cnIndices.getD part 0
  let step (part : Nat) := plainStep armOrRiscv (algo part)
  [⟨((List.range 3).flatMap fun part =>
      (allocatePads ctxMemory (cnSizes (algo part)) (step part) 0 0 8 (ctxMemory 0)).1 ++
        hashPart k coreIndices (algo part) (step part) part 0 8) ++ restore ctxMemory, []⟩]

/-- A build of the program and what `hash_octa` gets there besides the lanes. -/
inductive Build
  | hwloc (helper : Option HelperThread) (tuneDefault tune8MB : Fin 6 → AlgoTune)
  | plain (armOrRiscv : Bool)

def Build.phases (build : Build) (k : Kernels W) (data : Memory) (ctxMemory : Nat → Nat) :
    List (Phase Action) :=
  match build with
  | .hwloc helper tuneDefault tune8MB => hashOcta k data ctxMemory helper tuneDefault tune8MB
  | .plain armOrRiscv => hashOctaPlain k data ctxMemory armOrRiscv

/-! ### One lane -/

/-- A CryptoNight function on one lane. -/
def cryptonight (k : Kernels W) (a : Fin 6) (input : List UInt8) : List UInt8 :=
  (k.implode a ((k.iterate a)^[k.iterations a] (k.explode a input))).2.toList

/-- One part: five core hashes, then a CryptoNight function. -/
def lanePart (k : Kernels W) (cores : List (Fin 15)) (algo : Fin 6) (input : List UInt8) :
    List UInt8 :=
  cryptonight k algo (cores.foldl (fun x i => (k.core i x).toList) input)

/-- The fifteen core hashes and three CryptoNight functions in the order of a seed. -/
def laneHash (k : Kernels W) (seed : Memory) (blob : List UInt8) : List UInt8 :=
  let cores := selectIndices 15 seed
  let cn := selectIndices 6 seed
  let first := lanePart k (cores.take 5) (cn.getD 0 0) blob
  let second := lanePart k ((cores.drop 5).take 5) (cn.getD 1 0) (padded first)
  lanePart k ((cores.drop 10).take 5) (cn.getD 2 0) (padded second)

/-- GhostRider of one block header; bytes 4 to 35 of it are the seed. -/
def ghostrider (k : Kernels W) (blob : List UInt8) : List UInt8 :=
  laneHash k (seed fun i => blob.getD i 0) blob

/-! ### Scratchpads in use -/

def Action.call? : Action → Option Call
  | .explode c _ | .iterate c _ | .implode c _ => some c
  | _ => none

/-- Start and size of the scratchpads of a call. -/
def Call.pads (c : Call) (s : State W) : List (Nat × Nat) :=
  (List.range c.step).map fun l => (s.memory (c.ctx + l), cnSizes c.algo)

/-- The scratchpads of the call an action belongs to. -/
def padsOf (a : Option Action) (s : State W) : List (Nat × Nat) :=
  match a.bind Action.call? with
  | some c => c.pads s
  | none => []

def Apart (p q : Nat × Nat) : Prop := p.1 + p.2 ≤ q.1 ∨ q.1 + q.2 ≤ p.1

/-- What the two threads are about to use lies apart and inside the block. -/
def Safe (lo hi : Nat) (a b : Option Action) (s : State W) : Prop :=
  (padsOf a s ++ padsOf b s).Pairwise Apart ∧
    ∀ p ∈ padsOf a s ++ padsOf b s, lo ≤ p.1 ∧ p.1 + p.2 ≤ hi

end VeloxHash.GhostRider
