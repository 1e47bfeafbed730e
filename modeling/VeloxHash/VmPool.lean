import Mathlib.Logic.Function.Basic
import Mathlib.Tactic

/-! `randomx_create_vm` and `randomx_destroy_vm`: VMs in a ring of memory for each NUMA node.
A VM is placed where the one before it ends; `destroy` gives no memory back. -/

namespace VeloxHash

/-- The classes that the switch chooses from. -/
inductive VmClass
  | interpretedLightVmDefault
  | interpretedVmDefault
  | compiledLightVmDefault
  | compiledVmDefault
  | interpretedLightVmHardAes
  | interpretedVmHardAes
  | compiledLightVmHardAes
  | compiledVmHardAes
  deriving DecidableEq, Repr

/-- The flags that the switch looks at. -/
structure VmFlags where
  fullMem : Bool
  jit : Bool
  hardAes : Bool
  deriving DecidableEq, Repr

def VmFlags.vmClass : VmFlags → VmClass
  | ⟨false, false, false⟩ => .interpretedLightVmDefault
  | ⟨true, false, false⟩ => .interpretedVmDefault
  | ⟨false, true, false⟩ => .compiledLightVmDefault
  | ⟨true, true, false⟩ => .compiledVmDefault
  | ⟨false, false, true⟩ => .interpretedLightVmHardAes
  | ⟨true, false, true⟩ => .interpretedVmHardAes
  | ⟨false, true, true⟩ => .compiledLightVmHardAes
  | ⟨true, true, true⟩ => .compiledVmHardAes

/-- `VM_POOL_SIZE`. -/
def vmPoolSize : Nat := 2 * 1024 * 1024

/-- A VM at `start` of the pool of `node`; `pooled` if there is memory behind that pool. -/
structure Vm where
  id : Nat
  node : Nat
  pooled : Bool
  start : Nat
  size : Nat
  deriving DecidableEq, Repr

namespace Vm

def Inside (v : Vm) : Prop := v.pooled = true ∧ v.start + v.size ≤ vmPoolSize

def Apart (v w : Vm) : Prop :=
  v.node = w.node → v.start + v.size ≤ w.start ∨ w.start + w.size ≤ v.start

theorem Apart.symm {v w : Vm} (h : v.Apart w) : w.Apart v := fun hnode => (h hnode.symm).symm

end Vm

/-- `vm_pool`, as far as there is one, `vm_pool_offset`, and the VMs that are alive. -/
structure VmPool where
  pool : Nat → Bool := fun _ => false
  offset : Nat → Nat := fun _ => 0
  live : List Vm := []
  count : Nat := 0

/-- A call; `memory` is the outcome of the allocations of a pool, and `constructs` is whether
the constructor returns. -/
inductive VmCall
  | create (flags : VmFlags) (node : Nat) (memory constructs : Bool)
  | destroy (id : Nat)
  deriving DecidableEq, Repr

namespace VmPool

def poolNode (node : Nat) : Nat := if 64 ≤ node then 0 else node

/-- The VM that `create` makes; `sizeOf` is `sizeof` of a class. -/
def placed (sizeOf : VmClass → Nat) (s : VmPool) (flags : VmFlags) (node : Nat) (memory : Bool) :
    Vm where
  id := s.count
  node := poolNode node
  pooled := s.pool (poolNode node) || memory
  start := s.offset (poolNode node)
  size := sizeOf flags.vmClass

/-- `randomx_create_vm`. -/
def create (sizeOf : VmClass → Nat) (s : VmPool) (flags : VmFlags) (node : Nat)
    (memory constructs : Bool) : VmPool :=
  let vm := s.placed sizeOf flags node memory
  let pool := Function.update s.pool vm.node vm.pooled
  if constructs then
    let offset := vm.start + vm.size
    { pool
      offset := Function.update s.offset vm.node (if offset + 4096 > vmPoolSize then 0 else offset)
      live := vm :: s.live
      count := s.count + 1 }
  else { s with pool }

/-- `randomx_destroy_vm`. -/
def destroy (s : VmPool) (id : Nat) : VmPool :=
  { s with live := s.live.filter fun vm => vm.id ≠ id }

def step (sizeOf : VmClass → Nat) (s : VmPool) : VmCall → VmPool
  | .create flags node memory constructs => s.create sizeOf flags node memory constructs
  | .destroy id => s.destroy id

def run (sizeOf : VmClass → Nat) (s : VmPool) (calls : List VmCall) : VmPool :=
  calls.foldl (step sizeOf) s

/-- Every VM that is alive lies in its pool, and no two of them overlap. -/
structure Separate (s : VmPool) : Prop where
  inside : ∀ v ∈ s.live, v.Inside
  apart : s.live.Pairwise Vm.Apart

/-- A new VM ends inside the pool, and before the next VM of its node that is alive. -/
def Ahead (sizeOf : VmClass → Nat) (s : VmPool) : VmCall → Prop
  | .create flags node memory true =>
    let vm := s.placed sizeOf flags node memory
    vm.Inside ∧ ∀ v ∈ s.live, v.node = vm.node → vm.start ≤ v.start → vm.start + vm.size ≤ v.start
  | _ => True

/-- The ring: VMs of this turn lie behind the offset, those of earlier ones before it. -/
structure Ring (s : VmPool) : Prop extends Separate s where
  sides : ∀ v ∈ s.live, v.start + v.size ≤ s.offset v.node ∨ s.offset v.node ≤ v.start
  pos : ∀ v ∈ s.live, 0 < v.size

theorem ring_initial : Ring {} where
  inside _ hv := absurd hv List.not_mem_nil
  apart := .nil
  sides _ hv := absurd hv List.not_mem_nil
  pos _ hv := absurd hv List.not_mem_nil

variable {sizeOf : VmClass → Nat} {s : VmPool} {c : VmCall}

theorem ring_destroy (h : Ring s) (id : Nat) : Ring (s.destroy id) where
  inside v hv := h.inside v (List.mem_of_mem_filter hv)
  apart := h.apart.filter _
  sides v hv := h.sides v (List.mem_of_mem_filter hv)
  pos v hv := h.pos v (List.mem_of_mem_filter hv)

/-- A new VM in front of what is alive. -/
theorem ring_create (hpos : ∀ k, 0 < sizeOf k) (h : Ring s) (flags : VmFlags) (node : Nat)
    (memory : Bool) (hahead : Ahead sizeOf s (.create flags node memory true)) :
    Ring (s.create sizeOf flags node memory true) := by
  obtain ⟨hinside, hnext⟩ := hahead
  have hstart : (s.placed sizeOf flags node memory).start =
      s.offset (s.placed sizeOf flags node memory).node := rfl
  have hsize : 0 < (s.placed sizeOf flags node memory).size := hpos _
  simp only [create, if_true]
  generalize s.placed sizeOf flags node memory = vm at hinside hnext hstart hsize
  refine ⟨⟨List.forall_mem_cons.mpr ⟨hinside, h.inside⟩, List.pairwise_cons.mpr ⟨?_, h.apart⟩⟩,
    List.forall_mem_cons.mpr ⟨?_, ?_⟩, List.forall_mem_cons.mpr ⟨hsize, h.pos⟩⟩
  · intro v hv hnode
    rcases h.sides v hv with hbehind | hbefore
    · rw [← hnode, ← hstart] at hbehind
      exact .inr hbehind
    · rw [← hnode, ← hstart] at hbefore
      exact .inl (hnext v hv hnode.symm hbefore)
  · dsimp only
    rw [Function.update_self]
    split
    · exact .inr (Nat.zero_le _)
    · exact .inl le_rfl
  · intro v hv
    dsimp only
    by_cases hnode : v.node = vm.node
    case neg =>
      rw [Function.update_of_ne hnode]
      exact h.sides v hv
    case pos =>
      have hside := h.sides v hv
      rw [hnode, ← hstart] at hside
      rw [hnode, Function.update_self]
      split
      · exact .inr (Nat.zero_le _)
      · rcases hside with hbehind | hbefore
        · exact .inl (hbehind.trans (Nat.le_add_right _ _))
        · exact .inr (hnext v hv hnode hbefore)

/-- In a ring, the next state is in order exactly if the call is ahead. -/
theorem separate_step_iff (hpos : ∀ k, 0 < sizeOf k) (h : Ring s) :
    (Separate (step sizeOf s c) ↔ Ahead sizeOf s c) ∧
      (Ahead sizeOf s c → Ring (step sizeOf s c)) := by
  cases c with
  | destroy id =>
    have hring := ring_destroy h id
    exact ⟨iff_of_true hring.toSeparate trivial, fun _ => hring⟩
  | create flags node memory constructs =>
    cases constructs with
    | false =>
      have hring : Ring (s.create sizeOf flags node memory false) :=
        ⟨⟨h.inside, h.apart⟩, h.sides, h.pos⟩
      exact ⟨iff_of_true hring.toSeparate trivial, fun _ => hring⟩
    | true =>
      have hring := ring_create hpos h flags node memory
      refine ⟨⟨fun hseparate => ⟨?_, fun v hv hnode hbefore => ?_⟩, fun hahead => (hring hahead).1⟩,
        hring⟩
      · exact hseparate.inside _ List.mem_cons_self
      · have happart := (List.pairwise_cons.mp hseparate.apart).1 v hv hnode.symm
        have hsize := h.pos v hv
        omega

theorem run_separate_iff (hpos : ∀ k, 0 < sizeOf k) (h : Ring s) (calls : List VmCall) :
    (∀ k ≤ calls.length, Separate (run sizeOf s (calls.take k))) ↔
      ∀ k (hk : k < calls.length), Ahead sizeOf (run sizeOf s (calls.take k)) calls[k] := by
  induction calls generalizing s with
  | nil =>
    refine ⟨fun _ k hk => absurd hk (Nat.not_lt_zero k), fun _ k _ => ?_⟩
    rw [List.take_nil]
    exact h.1
  | cons c calls ih =>
    obtain ⟨hiff, hring⟩ := separate_step_iff (c := c) hpos h
    constructor
    · intro hall k hk
      have hahead := hiff.mp (hall 1 (by rw [List.length_cons]; omega))
      cases k with
      | zero => exact hahead
      | succ k =>
        refine (ih (hring hahead)).mp (fun j hj => ?_) k (Nat.lt_of_succ_lt_succ hk)
        exact hall (j + 1) (Nat.succ_le_succ hj)
    · intro hall k hk
      have hahead := hall 0 (Nat.succ_pos _)
      cases k with
      | zero => exact h.1
      | succ k =>
        refine (ih (hring hahead)).mpr (fun j hj => ?_) k (Nat.le_of_succ_le_succ hk)
        exact hall (j + 1) (Nat.succ_lt_succ hj)

/-- In a run of calls, the VMs alive always lie apart in their pools if every VM is created
ahead of what is alive, and only then. -/
theorem separate_iff_ahead (sizeOf : VmClass → Nat) (hpos : ∀ k, 0 < sizeOf k)
    (calls : List VmCall) :
    (∀ k ≤ calls.length, Separate (run sizeOf {} (calls.take k))) ↔
      ∀ k (hk : k < calls.length), Ahead sizeOf (run sizeOf {} (calls.take k)) calls[k] :=
  run_separate_iff hpos ring_initial calls

/-- `sizeof` of the classes on x86-64. -/
def sizes : VmClass → Nat
  | .interpretedLightVmDefault | .interpretedVmDefault => 11776
  | .interpretedLightVmHardAes | .interpretedVmHardAes => 11776
  | .compiledLightVmDefault | .compiledVmDefault => 2944
  | .compiledLightVmHardAes | .compiledVmHardAes => 2944

theorem sizes_pos (k : VmClass) : 0 < sizes k := by cases k <;> decide

/-- A VM on each of two nodes. -/
theorem separate_iff_ahead_two :
    (∀ k ≤ [VmCall.create ⟨true, true, true⟩ 0 true true,
        .create ⟨true, true, true⟩ 1 true true].length,
      Separate (run sizes {} ([VmCall.create ⟨true, true, true⟩ 0 true true,
        .create ⟨true, true, true⟩ 1 true true].take k))) ↔
      ∀ k (hk : k < [VmCall.create ⟨true, true, true⟩ 0 true true,
          .create ⟨true, true, true⟩ 1 true true].length),
        Ahead sizes (run sizes {} ([VmCall.create ⟨true, true, true⟩ 0 true true,
          .create ⟨true, true, true⟩ 1 true true].take k))
          [VmCall.create ⟨true, true, true⟩ 0 true true,
            .create ⟨true, true, true⟩ 1 true true][k] :=
  separate_iff_ahead sizes sizes_pos _

/-- A worker's VM on node 0, and checks that each create a VM there and destroy it. -/
def checks (n : Nat) : List VmCall :=
  .create ⟨true, true, true⟩ 0 true true :: (List.range n).flatMap fun i =>
    [.create ⟨true, true, true⟩ 0 true true, .destroy (i + 1)]

/-- After 710 checks the ring starts again, and the next VM is placed on the worker's. -/
theorem overlapping_check :
    (run sizes {} (checks 710 ++ [.create ⟨true, true, true⟩ 0 true true])).live =
        [⟨711, 0, true, 0, 2944⟩, ⟨0, 0, true, 0, 2944⟩] ∧
      ¬ Separate (run sizes {} (checks 710 ++ [.create ⟨true, true, true⟩ 0 true true])) := by
  have hlive : (run sizes {} (checks 710 ++ [.create ⟨true, true, true⟩ 0 true true])).live =
      [⟨711, 0, true, 0, 2944⟩, ⟨0, 0, true, 0, 2944⟩] := by decide +kernel
  refine ⟨hlive, fun h => ?_⟩
  have happart := h.apart
  rw [hlive] at happart
  have hone := (List.pairwise_cons.mp happart).1 _ List.mem_cons_self rfl
  exact absurd hone (by decide)

/-- An interpreted VM is larger than the reserve at the end of the pool. -/
example : ¬ Ahead sizes (run sizes {} (checks 709)) (.create ⟨true, false, true⟩ 0 true true) := by
  rintro ⟨⟨-, hend⟩, -⟩
  exact absurd hend (by decide +kernel)

end VmPool

end VeloxHash
