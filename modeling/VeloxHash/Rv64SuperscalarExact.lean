import VeloxHash.Rv64SuperscalarHash
import VeloxHash.Rv64VectorRun

/-! The code that both generators make of a list of superscalar programs does, program after
program, what the interpreter does. -/

namespace VeloxHash.Rv64SuperscalarExact

open CodeBuffer EncodedMachine RiscVMachine RiscVSuperscalar LiteralPool Randomx Rv64VectorEmission
  Rv64VectorRun
open Rv64VectorHash (Assembly Emitter Returned imulRcpLiterals literalsSize emitInstruction emitProgram)
open SuperscalarGenerator (Entry SuperscalarProgram Produced)

section Counts

theorem length_literalsOf_entry (e : Entry) :
    (literalsOf e.instruction).length = if Rv64VectorHash.isRcp e then 1 else 0 := by
  have hiff : isRcp e.instruction = Rv64VectorHash.isRcp e := by
    rw [isRcp, e.superscalarType_instruction, Rv64VectorHash.isRcp]
  rw [literalsOf, hiff]
  split <;> rfl

theorem length_entries (entries : List Entry) :
    (programLiterals (entries.map Entry.instruction)).length =
      entries.countP Rv64VectorHash.isRcp := by
  induction entries with
  | nil => rfl
  | cons e rest ih =>
    rw [List.map_cons, programLiterals_cons, List.length_append, ih, length_literalsOf_entry,
      List.countP_cons, Nat.add_comm]

/-- Both generators store as many literals as there are `IMUL_RCP`. -/
theorem length_hashLiterals_eq (programs : List SuperscalarProgram) :
    (hashLiterals programs).length = (programs.map Rv64VectorHash.rcpCount).sum := by
  induction programs with
  | nil => rfl
  | cons program rest ih =>
    rw [hashLiterals_cons, List.length_append, ih, List.map_cons, List.sum_cons]
    exact congrArg (· + _) (length_entries _)

end Counts

section Vector

/-- What the code between two programs leaves alone. -/
structure LaneBetween (s t : State) : Prop where
  memory : t.memory = s.memory
  pointer : t.x 15 = s.x 15

variable {buf : Nat} (asm : Assembly) {literals before : List UInt64} {emitter : Emitter} {s : State}

/-- The code of a program, from behind the prefetch. -/
theorem program_run {program : SuperscalarProgram} {after : List UInt64}
    (hvalid : ∀ e ∈ program.programBuffer, e.Valid)
    (hliterals : literals = before ++ programLiterals program.instructions ++ after)
    (hcounted : Counted before.length before.length emitter)
    (hpos : imulRcpLiterals + literalsSize ≤ emitter.p) (hfits : Rv64VectorRun.Fits buf literals)
    (hheld : Holds (literalTable buf) s.memory 0 literals) (h : Pointed buf before.length s)
    (hpc : s.pc = buf + (emitter.append asm.prefetch.bytes).p)
    (hread : read s.memory (buf + emitter.p) (programBytes asm before.length program).length =
      programBytes asm before.length program) :
    ∃ t, Computes lanes program.instructions s t ∧
      t.pc = buf + (program.programBuffer.foldl emitInstruction
        (emitter.append asm.prefetch.bytes)).p ∧
      Pointed buf (before.length + (programLiterals program.instructions).length) t := by
  have hroom := hfits.room
  rw [hliterals, List.length_append, List.length_append] at hroom
  have hprefetch := (appends_append emitter asm.prefetch.bytes).emits buf s.memory hcounted
  have hinstructions := instructions_emit buf s.memory hvalid hprefetch.counted
    (hprefetch.p ▸ hpos.trans (Nat.le_add_right _ _))
    (show before.length + (programLiterals program.instructions).length ≤ _ by omega)
  rw [programBytes] at hread
  obtain ⟨-, hcode⟩ := read_append (read_append hread).1
  rw [Nat.add_assoc, ← hprefetch.p, ← hpc] at hcode
  obtain ⟨t, ht, htpc, htpointed⟩ := programCode_run hvalid hliterals hfits hheld h hcode
  refine ⟨t, ht, ?_, htpointed⟩
  rw [htpc, hinstructions.p, hpc, Nat.add_assoc]
  rfl

/-- The programs from memory, behind the literals `before`. -/
theorem programs_sequence {programs : List SuperscalarProgram}
    (hvalid : ∀ program ∈ programs, ∀ e ∈ program.programBuffer, e.Valid)
    (hliterals : literals = before ++ hashLiterals programs)
    (hcounted : Counted before.length before.length emitter)
    (hpos : imulRcpLiterals + literalsSize ≤ emitter.p) (hfits : Rv64VectorRun.Fits buf literals)
    (hheld : Holds (literalTable buf) s.memory 0 literals) (h : Pointed buf before.length s)
    (hread : read s.memory (buf + emitter.p) (programsBytes asm before.length programs).length =
      programsBytes asm before.length programs) :
    Sequence processor (Computes lanes) LaneBetween (pieces buf asm programs emitter) s := by
  induction programs generalizing before emitter s with
  | nil => trivial
  | cons program rest ih =>
    intro hpc
    have hsplit : literals = before ++ programLiterals program.instructions ++ hashLiterals rest := by
      rw [hliterals, hashLiterals_cons, ← List.append_assoc]
    have hprogram := hvalid program List.mem_cons_self
    have hroom := hfits.room
    rw [hsplit, List.length_append, List.length_append] at hroom
    cases rest with
    | nil =>
      obtain ⟨t, ht, htpc, -⟩ := program_run asm hprogram hsplit hcounted hpos hfits hheld h hpc hread
      exact ⟨t, ht.reaches, htpc, ht, fun _ _ => trivial⟩
    | cons next rest =>
      obtain ⟨hfirst, hothers⟩ := read_append hread
      obtain ⟨t, ht, htpc, htpointed⟩ := program_run asm hprogram hsplit hcounted hpos hfits hheld h hpc
        (read_append hfirst).1
      have hemits := emitProgram_emits buf s.memory asm hprogram hcounted hpos (by omega)
      have hindex := (appends_emit (emitProgram asm program emitter)
        (asm.setCacheIndex (program.addrReg * 4))).emits buf s.memory hemits.counted
      have hboth := hemits.trans hindex hpos (by rw [List.length_nil]; omega)
      refine ⟨t, ht.reaches, htpc, ht, fun u hu => ?_⟩
      refine ih (fun p hp => hvalid p (List.mem_cons_of_mem _ hp)) hsplit ?_
        (hboth.p ▸ hpos.trans (Nat.le_add_right _ _)) ?_ ?_ ?_
      · rw [List.length_append]
        have hcounted' := hboth.counted
        rwa [List.append_nil] at hcounted'
      · rw [hu.memory, ht.memory]
        exact hheld
      · rw [List.length_append]
        exact (congrArg UInt64.toNat hu.pointer).trans htpointed
      · rw [hu.memory, ht.memory, List.length_append, hboth.p, ← Nat.add_assoc]
        exact hothers

/-- The buffer is in memory from its start on, over `m`, and `x15` points to the literals. -/
structure LaneReady (asm : Assembly) (programs : List SuperscalarProgram) (buf : Nat) (m : Memory)
    (s : State) : Prop where
  layout : imulRcpLiterals + literalsSize ≤ asm.generatedInstructions
  addresses : buf + imulRcpLiterals + literalsSize ≤ 2 ^ 64
  memory : let emitter := Rv64VectorHash.generateDatasetInitVectorRV64 asm programs
    ∀ p, buf ≤ p → p < buf + emitter.p → s.memory p = image buf m emitter p
  pointer : (s.x 15).toNat = buf + imulRcpLiterals

/-- Where the generator starts. -/
def start : Emitter := ⟨.start (Rv64VectorHash.base asm), imulRcpLiterals⟩

/-- The vector code of the programs does in every lane what the interpreter does. -/
theorem vector_sequence {programs : List SuperscalarProgram} {m : Memory}
    (hvalid : ∀ program ∈ programs, ∀ e ∈ program.programBuffer, e.Valid)
    (hroom : (hashLiterals programs).length ≤ 512) (hready : LaneReady asm programs buf m s) :
    Sequence processor (Computes lanes) LaneBetween (pieces buf asm programs (start asm)) s := by
  have hpos := hready.layout
  have hemits := generateDatasetInit_emits buf m asm hvalid hpos hroom
  have hslot : ∀ n < (literalTable buf).limit, buf ≤ (literalTable buf).slot n := fun n _ => by
    change buf ≤ buf + 128 + 8 * n
    omega
  have hbase : (literalTable buf).base ≤
      (cursor buf m (start asm)).position := by
    change buf + imulRcpLiterals + literalsSize ≤ buf + asm.generatedInstructions
    omega
  have hcount := hemits.counted.count.le.trans ((Nat.zero_add _).trans_le hroom)
  obtain ⟨hcode, hheld⟩ := hemits.emitted.agree hslot (Nat.le_add_right _ _) hcount hbase hready.memory
  refine programs_sequence asm hvalid (List.nil_append (hashLiterals programs)).symm
    (counted_start asm) hpos ⟨hready.addresses, hroom⟩ hheld hready.pointer ?_
  exact (read_append hcode).1

end Vector

section Exactness

open JitCompilerRv64 (Extensions Fragments Buffer)

/-- `SuperscalarMaxLatency` of the configurations. -/
def superscalarMaxLatency : Nat := 170

/-- The scalar code and, as long as its table holds the literals, each lane of the vector code. -/
theorem superscalarCode_exact {latency : Nat} (hlatency : latency ≤ superscalarMaxLatency)
    {programs : List SuperscalarProgram}
    (hlength : programs.length ≤ JitCompilerRv64.cacheMaxAccesses)
    (hproduced : ∀ program ∈ programs, Produced latency program) :
    (∀ (ext : Extensions) (fragments : Fragments) (b : Buffer) (s : State),
      JitCompilerRv64.Ready ext fragments programs b s →
        Sequence processor (Computes JitCompilerRv64.scalarView) JitCompilerRv64.Between
          (JitCompilerRv64.pieces ext (JitCompilerRv64.lastLiteral programs) fragments 0 programs
            (JitCompilerRv64.hashStart fragments b)) s) ∧
      ((programs.map Rv64VectorHash.rcpCount).sum ≤ 512 →
        ∀ (asm : Assembly) (buf : Nat) (m : Memory) (s : State), LaneReady asm programs buf m s →
          Sequence processor (Computes lanes) LaneBetween (pieces buf asm programs (start asm)) s) := by
  have hle : latency ≤ 170 := hlatency
  have hgenerated := fun program hp => (hproduced program hp).generated (hle.trans (by decide))
  have hvalid : ∀ program ∈ programs, ∀ e ∈ program.programBuffer, e.Valid :=
    fun program hp => (hgenerated program hp).valid
  refine ⟨fun ext fragments b s hready => ?_, fun hcount asm buf m s hready => ?_⟩
  · refine JitCompilerRv64.scalar_sequence ext fragments hvalid ?_ hready
    have hsize := length_hashLiterals fun program hp => (hgenerated program hp).size
    have hbuffer : programs.length * (3 * latency + 2) ≤ 16 * 512 := Nat.mul_le_mul hlength (by omega)
    exact hsize.trans hbuffer
  · exact vector_sequence asm hvalid ((length_hashLiterals_eq programs).le.trans hcount) hready

section Twos

open JitCompilerRv64 (generateSuperscalarHash hashStart lastLiteral scalarView Between Ready reg
  sshPoolReg superScalarLiteralPoolRefOffset)
open Rv64VectorHash (ofTwos twos ofTwos_ok assembled rcpCount generateDatasetInitVectorRV64)

/-- An empty buffer at address zero, and fixed code of zeros. -/
def empty : Buffer := ⟨0, fun _ => 0, 0, 0⟩

def zeros : Fragments := ⟨List.replicate 92 0, List.replicate 68 0, List.replicate 12 0, by decide⟩

/-- At the first program of the scalar code. -/
def entered (ext : Extensions) (programs : List SuperscalarProgram) : State :=
  let memory := (generateSuperscalarHash ext zeros programs empty).memory
  { x r := if r = reg sshPoolReg then .ofNat superScalarLiteralPoolRefOffset
      else .ofNat (ofLe (read memory (superScalarLiteralPoolRefOffset + 2040) 8))
    v _ _ := 0
    memory
    pc := (hashStart zeros empty).codePos }

/-- At the first program of the vector code. -/
def laneEntered (programs : List SuperscalarProgram) : State where
  x _ := .ofNat imulRcpLiterals
  v _ _ := 0
  memory := image 0 (fun _ => 0) (generateDatasetInitVectorRV64 assembled programs)
  pc := ((start assembled).append assembled.prefetch.bytes).p

theorem entered_ready (ext : Extensions) (programs : List SuperscalarProgram) :
    Ready ext zeros programs empty (entered ext programs) :=
  ⟨by decide, fun _ _ _ => rfl, rfl, rfl⟩

theorem laneEntered_ready (programs : List SuperscalarProgram) :
    LaneReady assembled programs 0 (fun _ => 0) (laneEntered programs) :=
  ⟨by decide, by decide, fun _ _ _ => rfl, rfl⟩

/-- Six programs with 84 literals each, so that both generators move their registers on. -/
theorem superscalarCode_exact_twos : ∃ r, ofTwos = .ok r ∧
    Sequence processor (Computes scalarView) Between
      (JitCompilerRv64.pieces ⟨true, true⟩ (lastLiteral (List.replicate 6 r.1)) zeros 0
        (List.replicate 6 r.1) (hashStart zeros empty)) (entered ⟨true, true⟩ (List.replicate 6 r.1)) ∧
    Sequence processor (Computes lanes) LaneBetween
      (pieces 0 assembled (List.replicate 6 r.1) (start assembled))
      (laneEntered (List.replicate 6 r.1)) := by
  obtain ⟨r, hr, hrcp⟩ := ofTwos_ok
  have hproduced : ∀ program ∈ List.replicate 6 r.1, Produced 170 program := fun program hp =>
    List.eq_of_mem_replicate hp ▸ ⟨twos, _, 1, r, hr, rfl⟩
  have hcount : ((List.replicate 6 r.1).map rcpCount).sum ≤ 512 := by
    rw [List.map_replicate, List.sum_replicate, hrcp]
    decide
  obtain ⟨hscalar, hvector⟩ := superscalarCode_exact le_rfl
    (by rw [List.length_replicate]; decide) hproduced
  exact ⟨r, hr, hscalar _ _ _ _ (entered_ready _ _), hvector hcount _ _ _ _ (laneEntered_ready _)⟩

end Twos

end Exactness

end VeloxHash.Rv64SuperscalarExact
