import VeloxHash.SuperscalarExecution

/-! Whole programs: the emitted bytes at any place in the code buffer, run on the machine,
against `executeSuperscalar`. -/

namespace VeloxHash.SuperscalarCode

open Randomx CodeBuffer JitCompilerX86 BytecodeMachine Superscalar EncodedMachine X86Machine
  WordArithmetic

section Broadcast

variable {s : State} {v : UInt64}

/-- A broadcast finds the constant of the `mov` before it. -/
theorem loadRelative_movImm {m : Memory} {p n : Nat} {displacement : UInt32}
    (hread : read m p (encode (.movImm rax v)).length = encode (.movImm rax v))
    (hn : (n : Int) + displacement.toBitVec.toInt = 2) :
    loadRelative m (p + n) displacement = v := by
  have himm : read m (p + 2) (le v.toNat 8).length = le v.toNat 8 :=
    (read_append (show read m p ([0x48, 0xB8] ++ le v.toNat 8).length = _ from hread)).2
  have hp : ((p + n : Nat) + displacement.toBitVec.toInt).toNat = p + 2 := by omega
  rw [loadRelative, hp, show 8 = (le v.toNat 8).length from rfl, himm, ofNat_ofLe_le]

/-- A broadcast and then instructions within the lanes. -/
theorem block_broadcast {dst : Register} {displacement : UInt32} {is : List Instr}
    (hload : loadRelative s.memory (s.rip + (encode (.broadcast dst displacement)).length) displacement = v)
    (h : ∀ i ∈ is, OfLane i) (k : Fin 4) :
    (fun r => (block processor encode (.broadcast dst displacement :: is) s).ymm r k) =
      laneRun v (fun r => s.ymm r k) (.broadcast dst displacement :: is) := by
  rw [block_cons, block_lane v h, laneRun, laneRun, List.foldl_cons]
  congr 1
  funext r
  simp only [processor, Instr.apply, State.setYmm, laneStep, Function.update_apply, hload]
  split <;> rfl

end Broadcast

/-- The instructions that leave the general-purpose registers alone. -/
def OfVector : Instr → Prop
  | .lane .. | .shift .. | .broadcast .. => True
  | _ => False

variable {s : State} {instr : Instruction} {type : SuperscalarInstructionType}

theorem block_gpr {is : List Instr} (h : ∀ i ∈ is, OfVector i) (s : State) :
    (block processor encode is s).gpr = s.gpr := by
  induction is generalizing s with
  | nil => rfl
  | cons i is ih =>
    rw [block_cons, ih fun j hj => h j (List.mem_cons_of_mem i hj)]
    have hi := h i List.mem_cons_self
    cases i with
    | lane | shift | broadcast => rfl
    | _ => exact absurd hi (by simp [OfVector])

theorem vectorCode_ofVector (instr : Instruction) (type : SuperscalarInstructionType) :
    ∀ i ∈ vectorCode instr type, OfVector i := by
  cases type with
  | iaddRs =>
    rw [vectorCode]
    split <;> simp [OfVector]
  | _ => simp [vectorCode, constantLanes, productLanes, middleLanes, OfVector]

theorem vector_lane {p : Nat}
    (hread : read s.memory p (assemble encode (compiled true instr type)).length =
      assemble encode (compiled true instr type))
    (hrip : s.rip = p + (assemble encode (scalarCode true instr type)).length) (k : Fin 4) :
    (fun r => (block processor encode (vectorCode instr type) s).ymm r k) =
      laneRun (broadcastWord instr type) (fun r => s.ymm r k) (vectorCode instr type) := by
  cases type with
  | iaddRs =>
    refine block_lane _ ?_ s k
    rw [vectorCode]
    split <;> simp [OfLane]
  | isubR | ixorR | imulR | irorC | imulhR | ismulhR =>
    refine block_lane _ ?_ s k
    simp [vectorCode, productLanes, middleLanes, OfLane]
  | iaddC7 | iaddC8 | iaddC9 | ixorC7 | ixorC8 | ixorC9 =>
    refine block_broadcast ?_ (by simp [OfLane]) k
    rw [hrip, Nat.add_assoc]
    exact loadRelative_movImm (read_append hread).1 (by rfl)
  | imulRcp =>
    refine block_broadcast ?_ (by simp [OfLane, productLanes]) k
    rw [hrip, Nat.add_assoc]
    exact loadRelative_movImm (read_append hread).1 (by rfl)

/-- One instruction of the program, run from the state `s` to the state `t`. -/
structure Executed (avx2 : Bool) (instr : Instruction) (s t : State) : Prop where
  scalars_eq : scalars t = executeInstruction (scalars s) instr
  lanes_eq : avx2 = true → ∀ k, lanes t k = executeInstruction (lanes s k) instr
  constants : avx2 = true → Constants t

theorem vector_executed (hvalid : Valid instr) (htype : superscalarType instr = some type)
    (hconstants : Constants s) {p : Nat}
    (hread : read s.memory p (assemble encode (compiled true instr type)).length =
      assemble encode (compiled true instr type))
    (hrip : s.rip = p + (assemble encode (scalarCode true instr type)).length) :
    let t := block processor encode (vectorCode instr type) s
    (∀ k, lanes t k = executeInstruction (lanes s k) instr) ∧ Constants t := by
  intro t
  have hlane (k : Fin 4) := vector_lane hread hrip k
  have hleaves (k : Fin 4) :=
    vector_leaves (fun r => s.ymm r k) hvalid htype (hconstants.sign k) (hconstants.carry k)
  refine ⟨fun k => ?_, ⟨fun k => ?_, fun k => ?_⟩⟩
  · funext i
    have hi := (hleaves k).registers i
    rw [← hlane k] at hi
    rw [executeInstruction_eq htype, Function.update_apply]
    exact hi
  · have h := (hleaves k).sign
    rw [← hlane k] at h
    exact h.trans (hconstants.sign k)
  · have h := (hleaves k).carry
    rw [← hlane k] at h
    exact h.trans (hconstants.carry k)

theorem compiled_executed (avx2 : Bool) (hvalid : Valid instr)
    (htype : superscalarType instr = some type) (hconstants : avx2 = true → Constants s)
    (hread : read s.memory s.rip (assemble encode (compiled avx2 instr type)).length =
      assemble encode (compiled avx2 instr type)) :
    Executed avx2 instr s (block processor encode (compiled avx2 instr type) s) := by
  rw [compiled, block_append]
  have hscalar := (scalar_result s hvalid htype avx2).trans
    (executeInstruction_eq htype (scalars s)).symm
  have hymm := scalar_ymm s avx2 instr type
  have hrip : (block processor encode (scalarCode avx2 instr type) s).rip =
      s.rip + (assemble encode (scalarCode avx2 instr type)).length :=
    pc_block fun i _ => straight i
  have hmemory : (block processor encode (scalarCode avx2 instr type) s).memory = s.memory :=
    memory_block fun i _ => straight i
  generalize block processor encode (scalarCode avx2 instr type) s = t at *
  cases avx2 with
  | false => exact ⟨hscalar, fun h => absurd h (by simp), fun h => absurd h (by simp)⟩
  | true =>
    have hkept : ∀ k, lanes t k = lanes s k := fun k =>
      congrArg (fun f : Register → Fin 4 → UInt64 => fun i => f (ymmOf i) k) hymm
    have hready : Constants t := by
      obtain ⟨hsign, hcarry⟩ := hconstants rfl
      exact ⟨hymm ▸ hsign, hymm ▸ hcarry⟩
    obtain ⟨hlanes, hconst⟩ := vector_executed hvalid htype hready (hmemory ▸ hread) hrip
    refine ⟨?_, fun _ k => hkept k ▸ hlanes k, fun _ => hconst⟩
    rw [← hscalar]
    exact congrArg (· ∘ gprOf) (block_gpr (vectorCode_ofVector instr type) t)

/-- The base of the `lea` can be named because `IADD_RS` never writes to `r5`. -/
theorem compiled_encodes (avx2 : Bool) (hvalid : Valid instr)
    (htype : superscalarType instr = some type) :
    ∀ i ∈ compiled avx2 instr type, processor.Encodes (encode i) i := by
  intro i hi
  apply encodes
  rcases List.mem_append.mp hi with hi | hi
  · cases type with
    | iaddRs =>
      have hdst := hvalid.iaddRs htype
      obtain rfl := List.mem_singleton.mp hi
      refine ⟨?_, ?_⟩
      · generalize instr.dst = d at hdst
        revert d
        decide
      · generalize instr.src = r
        revert r
        decide
    | isubR | ixorR | imulR | irorC => exact List.mem_singleton.mp hi ▸ trivial
    | iaddC7 | iaddC8 | iaddC9 | ixorC7 | ixorC8 | ixorC9 =>
      cases avx2 <;> simp [scalarCode, constantScalar] at hi
      · exact hi ▸ trivial
      · rcases hi with rfl | rfl <;> trivial
    | imulhR | ismulhR =>
      simp [scalarCode, highScalar] at hi
      rcases hi with rfl | rfl | rfl <;> trivial
    | imulRcp =>
      simp [scalarCode] at hi
      rcases hi with rfl | rfl <;> trivial
  · have hvector : OfVector i := by
      refine vectorCode_ofVector instr type i ?_
      cases avx2
      · exact absurd hi (by simp)
      · exact hi
    cases i with
    | lea => exact absurd hvector (by simp [OfVector])
    | _ => trivial

/-- The bytes of one instruction at the program counter run to the state behind them. -/
theorem run_instruction (avx2 : Bool) (hvalid : Valid instr)
    (hconstants : avx2 = true → Constants s)
    (hread : read s.memory s.rip (size (generateSuperscalarCode avx2 instr)) =
      code (generateSuperscalarCode avx2 instr)) :
    ∃ t, processor.Reaches s t ∧ t.memory = s.memory ∧
      t.rip = s.rip + size (generateSuperscalarCode avx2 instr) ∧ Executed avx2 instr s t := by
  obtain ⟨type, htype⟩ := Option.isSome_iff_exists.mp hvalid.known
  have hcode : code (generateSuperscalarCode avx2 instr) =
      assemble encode (compiled avx2 instr type) := by
    rw [generateSuperscalarCode, htype]
    exact code_stores avx2 instr type
  rw [← length_code_list, hcode] at hread ⊢
  have hstraight : ∀ i ∈ compiled avx2 instr type, processor.Straight i := fun i _ => straight i
  exact ⟨_, reaches_block (compiled_encodes avx2 hvalid htype) hstraight hread,
    memory_block hstraight, pc_block hstraight, compiled_executed avx2 hvalid htype hconstants hread⟩

/-- A whole program, wherever it lies in the code. -/
theorem run_program (avx2 : Bool) {prog : List Instruction} (hvalid : ∀ instr ∈ prog, Valid instr)
    {s : State} (hconstants : avx2 = true → Constants s)
    (hread : read s.memory s.rip (size (prog.flatMap (generateSuperscalarCode avx2))) =
      code (prog.flatMap (generateSuperscalarCode avx2))) :
    ∃ t, processor.Reaches s t ∧
      t.rip = s.rip + size (prog.flatMap (generateSuperscalarCode avx2)) ∧
      scalars t = executeSuperscalar (scalars s) prog ∧
      (avx2 = true → ∀ k, lanes t k = executeSuperscalar (lanes s k) prog) := by
  induction prog generalizing s with
  | nil => exact ⟨s, .refl, rfl, rfl, fun _ _ => rfl⟩
  | cons instr rest ih =>
    rw [List.flatMap_cons, code_append, size_append, read_add] at hread
    obtain ⟨hhead, htail⟩ := List.append_inj hread (by simp)
    obtain ⟨t, hrun, hmemory, hrip, hexec⟩ := run_instruction avx2 (hvalid instr List.mem_cons_self)
      hconstants hhead
    obtain ⟨u, hrest, hrip', hscalars, hlanes⟩ :=
      ih (fun i hi => hvalid i (List.mem_cons_of_mem instr hi)) hexec.constants
        (hmemory ▸ hrip ▸ htail)
    refine ⟨u, hrun.trans hrest, ?_, ?_, fun havx2 k => ?_⟩
    · rw [hrip', hrip, List.flatMap_cons, size_append, Nat.add_assoc]
    · rw [hscalars, hexec.scalars_eq]
      rfl
    · rw [hlanes havx2, hexec.lanes_eq havx2]
      rfl

/-- The code that the generator leaves in the buffer computes the interpreter's registers,
also under whatever is emitted behind it. -/
theorem generated_exact (avx2 : Bool) (buffer : Memory) (prog : List Instruction)
    (hvalid : ∀ instr ∈ prog, Valid instr) (later : List Store) (s : State)
    (hmemory : s.memory =
      emit buffer s.rip (prog.flatMap (generateSuperscalarCode avx2) ++ later))
    (hconstants : avx2 = true → Constants s) :
    ∃ t, processor.Reaches s t ∧
      t.rip = s.rip + size (prog.flatMap (generateSuperscalarCode avx2)) ∧
      scalars t = executeSuperscalar (scalars s) prog ∧
      (avx2 = true → ∀ k, lanes t k = executeSuperscalar (lanes s k) prog) := by
  refine run_program avx2 hvalid hconstants ?_
  rw [hmemory, emit_append, read_emit_below later le_rfl, read_emit]

/-- `IMULH_R r1, r0` at operands whose middle products carry. -/
theorem generated_exact_carry :
    ∃ t, processor.Reaches
        { gpr := fun _ => 0xFFFFFFFFFFFFFFFE
          ymm := fun r _ => if r = 14 then signBit else if r = 15 then carryBit
            else 0xFFFFFFFFFFFFFFFE
          memory := emit (fun _ => 0) 0
            ([⟨11, 1, 0, 0, 0⟩].flatMap (generateSuperscalarCode true) ++ [])
          rip := 0 } t ∧
      scalars t 1 = 0xFFFFFFFFFFFFFFFC ∧ ∀ k, lanes t k 1 = 0xFFFFFFFFFFFFFFFC := by
  have hvalid : ∀ instr ∈ [(⟨11, 1, 0, 0, 0⟩ : Instruction)], Valid instr := by
    intro instr h
    obtain rfl := List.mem_singleton.mp h
    exact ⟨by decide, by decide, by decide, by decide⟩
  obtain ⟨t, hrun, _, hscalars, hlanes⟩ := generated_exact true (fun _ => 0)
    [⟨11, 1, 0, 0, 0⟩] hvalid []
    { gpr := fun _ => 0xFFFFFFFFFFFFFFFE
      ymm := fun r _ => if r = 14 then signBit else if r = 15 then carryBit
        else 0xFFFFFFFFFFFFFFFE
      memory := emit (fun _ => 0) 0
        ([⟨11, 1, 0, 0, 0⟩].flatMap (generateSuperscalarCode true) ++ [])
      rip := 0 } rfl fun _ => ⟨fun _ => rfl, fun _ => rfl⟩
  refine ⟨t, hrun, ?_, fun k => ?_⟩
  · rw [hscalars]
    decide
  · rw [hlanes rfl k]
    revert k
    decide

end VeloxHash.SuperscalarCode
