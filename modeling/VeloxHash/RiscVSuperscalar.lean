import VeloxHash.RiscVMachine
import VeloxHash.SuperscalarSound

/-! The literals of superscalar programs, and what it means that RISC-V code computes a program, on
one or several choices of registers at once. -/

namespace VeloxHash.RiscVSuperscalar

open CodeBuffer Randomx BytecodeMachine Superscalar EncodedMachine RiscVMachine
open SuperscalarGenerator (SuperscalarProgram)

section Literals

def isRcp (isn : Instruction) : Bool := superscalarType isn = some .imulRcp

/-- The reciprocal that an instruction needs as a literal. -/
def literalsOf (isn : Instruction) : List UInt64 :=
  if isRcp isn then [randomxReciprocal isn.imm32] else []

def programLiterals (prog : List Instruction) : List UInt64 := prog.flatMap literalsOf

/-- The literals of all programs. -/
def hashLiterals (programs : List SuperscalarProgram) : List UInt64 :=
  programs.flatMap fun prog => programLiterals prog.instructions

theorem programLiterals_cons (isn : Instruction) (rest : List Instruction) :
    programLiterals (isn :: rest) = literalsOf isn ++ programLiterals rest := List.flatMap_cons

theorem literalsOf_rcp {isn : Instruction} (h : isRcp isn = true) :
    literalsOf isn = [randomxReciprocal isn.imm32] := if_pos h

/-- The literal of the first instruction behind those of what stands before it. -/
theorem literal_head (before after : List UInt64) {isn : Instruction} (rest : List Instruction)
    (h : isRcp isn = true) : (before ++ programLiterals (isn :: rest) ++ after)[before.length]? =
      some (randomxReciprocal isn.imm32) := by
  rw [programLiterals_cons, literalsOf_rcp h, List.append_assoc, List.getElem?_append_right le_rfl,
    Nat.sub_self]
  rfl

theorem hashLiterals_cons (prog : SuperscalarProgram) (rest : List SuperscalarProgram) :
    hashLiterals (prog :: rest) = programLiterals prog.instructions ++ hashLiterals rest :=
  List.flatMap_cons

theorem length_literalsOf (isn : Instruction) : (literalsOf isn).length ≤ 1 := by
  unfold literalsOf
  split
  · exact le_rfl
  · exact Nat.zero_le _

theorem length_programLiterals (prog : List Instruction) :
    (programLiterals prog).length ≤ prog.length := by
  induction prog with
  | nil => exact le_rfl
  | cons isn rest ih =>
    have hfirst := length_literalsOf isn
    rw [programLiterals_cons, List.length_append, List.length_cons]
    omega

theorem length_hashLiterals {size : Nat} {programs : List SuperscalarProgram}
    (h : ∀ prog ∈ programs, prog.programBuffer.length ≤ size) :
    (hashLiterals programs).length ≤ programs.length * size := by
  induction programs with
  | nil => exact Nat.zero_le _
  | cons prog rest ih =>
    have hprog := length_programLiterals prog.instructions
    have hsize := h prog List.mem_cons_self
    have hrest := ih fun p hp => h p (List.mem_cons_of_mem _ hp)
    rw [SuperscalarProgram.instructions, List.length_map] at hprog
    rw [hashLiterals_cons, List.length_append, List.length_cons, Nat.add_one_mul,
      SuperscalarProgram.instructions]
    omega

end Literals

section Execution

/-- The register that an instruction multiplies by. -/
def factor : Op → Option Register
  | .alu .mul _ _ rs2 => some rs2
  | .lane .mul _ _ (.scalar rs1) => some rs1
  | _ => none

/-- The instruction at the program counter multiplies by a value. -/
def MultipliesBy (s : State) (v : UInt64) : Prop :=
  ∃ i n r, processor.decode (read s.memory s.pc processor.window) = some (i, n) ∧
    factor i.op = some r ∧ s.get r = v

variable {κ : Type} (view : κ → State → Registers)

/-- From `s` to `t` a program is executed as the interpreter does, and each of its `IMUL_RCP`
multiplies by the reciprocal of its own divisor. -/
structure Computes (prog : List Instruction) (s t : State) : Prop where
  reaches : processor.Reaches s t
  memory : t.memory = s.memory
  registers : ∀ k, view k t = executeSuperscalar (view k s) prog
  factors : ∀ before isn after, prog = before ++ isn :: after →
    superscalarType isn = some .imulRcp → ∃ u, processor.Reaches s u ∧ processor.Reaches u t ∧
      (∀ k, view k u = executeSuperscalar (view k s) before) ∧
      MultipliesBy u (randomxReciprocal isn.imm32)

variable {view} {s t u : State} {isn : Instruction} {prog : List Instruction}

theorem Computes.nil (s : State) : Computes view [] s s :=
  ⟨.refl, rfl, fun _ => rfl, fun before _ _ h => by cases before <;> cases h⟩

/-- One instruction. -/
theorem computes_single (hreaches : processor.Reaches s t) (hmemory : t.memory = s.memory)
    (hregisters : ∀ k, view k t = executeInstruction (view k s) isn)
    (hfactor : superscalarType isn = some .imulRcp → ∃ u, processor.Reaches s u ∧
      processor.Reaches u t ∧ (∀ k, view k u = view k s) ∧
      MultipliesBy u (randomxReciprocal isn.imm32)) : Computes view [isn] s t := by
  refine ⟨hreaches, hmemory, hregisters, fun before isn' after heq hrcp => ?_⟩
  cases before with
  | nil =>
    obtain ⟨rfl, -⟩ := List.cons.inj heq
    exact hfactor hrcp
  | cons first before => cases before <;> cases (List.cons.inj heq).2

theorem Computes.cons (h : Computes view [isn] s t) (h' : Computes view prog t u) :
    Computes view (isn :: prog) s u := by
  refine ⟨h.reaches.trans h'.reaches, h'.memory.trans h.memory, fun k => ?_,
    fun before isn' after heq hrcp => ?_⟩
  · rw [h'.registers, h.registers]
    rfl
  · cases before with
    | nil =>
      obtain ⟨rfl, -⟩ := List.cons.inj heq
      obtain ⟨v, hv, hvt, hregisters, hfactor⟩ := h.factors [] isn [] rfl hrcp
      exact ⟨v, hv, hvt.trans h'.reaches, hregisters, hfactor⟩
    | cons first before =>
      obtain ⟨rfl, hrest⟩ := List.cons.inj heq
      obtain ⟨v, hv, hvu, hregisters, hfactor⟩ := h'.factors before isn' after hrest hrcp
      refine ⟨v, h.reaches.trans hv, hvu, fun k => ?_, hfactor⟩
      rw [hregisters, h.registers]
      rfl

end Execution

end VeloxHash.RiscVSuperscalar
