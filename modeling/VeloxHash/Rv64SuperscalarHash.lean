import VeloxHash.Rv64SuperscalarRun

/-! The scalar code of all superscalar programs, one after the other. -/

namespace VeloxHash.JitCompilerRv64

open CodeBuffer EncodedMachine RiscVMachine RiscVSuperscalar BytecodeMachine LiteralPool Randomx
  Superscalar
open SuperscalarGenerator (SuperscalarProgram)

section Bytes

variable (ext : Extensions) (last : Option (Nat × Nat)) (fragments : Fragments)

/-- The instruction that the compiler puts at the head of the prefetch. -/
def prefetchBytes (prog : SuperscalarProgram) : List UInt8 :=
  emit32 (rvi opAnd (.ofNat superscalarReg) (.ofNat (regSS prog.addrReg)) (.ofNat superscalarReg))

/-- What stands behind a program. -/
def loadBytes (prog : SuperscalarProgram) (more : Bool) : List UInt8 :=
  if more then
    Splice.splice (fragments.sshLoad ++ fragments.sshPrefetch) fragments.sshLoad.length
      (prefetchBytes prog)
  else fragments.sshLoad

def programsBytes (j n : Nat) : List SuperscalarProgram → List UInt8
  | [] => []
  | prog :: rest =>
    assemble Instr.bytes (programCode ext last j 0 n prog.instructions) ++
      loadBytes fragments prog (!rest.isEmpty) ++
      programsBytes (j + 1) (n + (programLiterals prog.instructions).length) rest

/-- Where the programs start and end. -/
def pieces (j : Nat) : List SuperscalarProgram → Buffer → List (Piece (List Instruction))
  | [], _ => []
  | prog :: rest, b =>
    let done := generateProgram ext last j 0 prog.instructions b
    ⟨b.code + b.codePos, done.code + done.codePos, prog.instructions⟩ ::
      pieces (j + 1) rest (generateLoad fragments prog (!rest.isEmpty) done)

end Bytes

section Emission

variable (fragments : Fragments) {b : Buffer}

theorem generateLoad_emits (prog : SuperscalarProgram) (more : Bool)
    (hpos : superScalarHashOffset ≤ b.codePos)
    (hcount : b.rcpCount ≤ superscalarLiteraPoolSize / 8) :
    Emits b (generateLoad fragments prog more b) (loadBytes fragments prog more) [] := by
  cases more with
  | false => exact emits_emit b fragments.sshLoad
  | true =>
    have hboth := emits_emit b (fragments.sshLoad ++ fragments.sshPrefetch)
    rw [← Buffer.emit_emit] at hboth
    have hfixed := fragments.fixed
    have hpatch := hboth.emitted.patch fragments.sshLoad.length (prefetchBytes prog)
      (by rw [prefetchBytes, emit32, length_le, List.length_append]; omega) hcount
      (Nat.add_le_add_left hpos _)
    have hcursor : (generateLoad fragments prog true b).cursor =
        { ((b.emit fragments.sshLoad).emit fragments.sshPrefetch).cursor with
          memory := write ((b.emit fragments.sshLoad).emit fragments.sshPrefetch).cursor.memory
            (b.cursor.position + fragments.sshLoad.length) (prefetchBytes prog) } := by
      have hplace : b.cursor.position + fragments.sshLoad.length =
          b.code + (b.codePos + fragments.sshLoad.length) := Nat.add_assoc ..
      rw [hplace]
      rfl
    exact ⟨rfl, hcursor ▸ hpatch⟩

variable (ext : Extensions) (last : Option (Nat × Nat))

/-- What a program and the code behind it leave to the rest. -/
theorem program_emits (j : Nat) (prog : SuperscalarProgram) (more : Bool)
    (hpos : superScalarHashOffset ≤ b.codePos)
    (hcount : b.rcpCount + (programLiterals prog.instructions).length ≤
      superscalarLiteraPoolSize / 8) :
    Emits b (generateLoad fragments prog more (generateProgram ext last j 0 prog.instructions b))
      (assemble Instr.bytes (programCode ext last j 0 b.rcpCount prog.instructions) ++
        loadBytes fragments prog more) (programLiterals prog.instructions) := by
  have hprog := generateProgram_emits ext last j 0 prog.instructions b hpos hcount
  have hload := generateLoad_emits fragments prog more
    (hprog.codePos ▸ hpos.trans (Nat.le_add_right _ _)) (hprog.rcpCount ▸ hcount)
  have hboth := hprog.trans hload hpos hcount
  rwa [List.append_nil] at hboth

theorem generatePrograms_emits (j : Nat) (programs : List SuperscalarProgram) (b : Buffer)
    (hpos : superScalarHashOffset ≤ b.codePos)
    (hcount : b.rcpCount + (hashLiterals programs).length ≤ superscalarLiteraPoolSize / 8) :
    Emits b (generatePrograms ext last fragments j programs b)
      (programsBytes ext last fragments j b.rcpCount programs) (hashLiterals programs) := by
  induction programs generalizing j b with
  | nil => exact .refl b
  | cons prog rest ih =>
    rw [hashLiterals_cons, List.length_append] at hcount
    have hfirst := program_emits fragments ext last j prog (!rest.isEmpty) hpos
      (show b.rcpCount + (programLiterals prog.instructions).length ≤ _ by omega)
    have hrest := ih (j + 1) _ (hfirst.codePos ▸ hpos.trans (Nat.le_add_right _ _))
      (by rw [hfirst.rcpCount]; omega)
    rw [hfirst.rcpCount] at hrest
    rw [generatePrograms, programsBytes, hashLiterals_cons]
    exact hfirst.trans hrest hpos (by omega)

end Emission

section LastLiteral

theorem lastLiteral_eq_none_iff (programs : List SuperscalarProgram) :
    lastLiteral programs = none ↔ hashLiterals programs = [] := by
  induction programs with
  | nil => exact ⟨fun _ => rfl, fun _ => rfl⟩
  | cons prog rest ih =>
    rw [lastLiteral, hashLiterals_cons, List.append_eq_nil_iff, ← ih, ← programLiterals_eq_nil_iff,
      Option.or_eq_none_iff, Option.map_eq_none_iff, Option.map_eq_none_iff, and_comm]

/-- The instruction that the search from the end finds. -/
theorem lastLiteral_eq_iff (before : List SuperscalarProgram) (prog : SuperscalarProgram)
    (after : List SuperscalarProgram) {pre post : List Instruction} {isn : Instruction}
    (hprog : prog.instructions = pre ++ isn :: post) (h : isRcp isn = true) :
    lastLiteral (before ++ prog :: after) = some (before.length, pre.length) ↔
      programLiterals post = [] ∧ hashLiterals after = [] := by
  induction before with
  | nil =>
    rw [List.nil_append, lastLiteral, hprog, ← lastRcp_eq_iff pre post h, ← lastLiteral_eq_none_iff]
    cases lastLiteral after with
    | none => simp
    | some k => simp
  | cons first before ih =>
    rw [List.cons_append, lastLiteral, List.length_cons, ← ih]
    cases hlast : lastLiteral (before ++ prog :: after) with
    | none =>
      have hnone := (lastLiteral_eq_none_iff _).mp hlast
      rw [hashLiterals, List.flatMap_append, List.flatMap_cons, hprog, programLiterals,
        List.flatMap_append, List.flatMap_cons, literalsOf_rcp h] at hnone
      exact absurd hnone (by simp)
    | some k => simp [Prod.ext_iff]

end LastLiteral

section Sequence

/-- What the code between two programs leaves alone. -/
structure Between (s t : State) : Prop where
  memory : t.memory = s.memory
  pool : t.x (reg sshPoolReg) = s.x (reg sshPoolReg)
  rcp : t.x (reg sshRcpReg) = s.x (reg sshRcpReg)

variable (ext : Extensions) (last : Option (Nat × Nat)) (fragments : Fragments) {code : Nat}
  {literals : List UInt64}

/-- The programs from memory, behind the literals `before`. -/
theorem programs_sequence {programs : List SuperscalarProgram} {before : List UInt64} {j : Nat}
    {b : Buffer} {s : State}
    (hvalid : ∀ prog ∈ programs, ∀ isn ∈ prog.instructions, Superscalar.Valid isn)
    (hliterals : literals = before ++ hashLiterals programs) (hcount : b.rcpCount = before.length)
    (hfits : Fits b.code literals) (hpos : superScalarHashOffset ≤ b.codePos)
    (hheld : Holds (literalPool b.code) s.memory 0 literals)
    (hlast : ∀ ps prog qs pre isn post, programs = ps ++ prog :: qs →
      prog.instructions = pre ++ isn :: post → isRcp isn = true →
      (last = some (j + ps.length, pre.length) ↔ programLiterals post = [] ∧ hashLiterals qs = []))
    (hloaded : Loaded b.code literals before.length s)
    (hread : read s.memory (b.code + b.codePos)
        (programsBytes ext last fragments j before.length programs).length =
      programsBytes ext last fragments j before.length programs) :
    Sequence processor (Computes scalarView) Between (pieces ext last fragments j programs b) s := by
  induction programs generalizing before j b s with
  | nil => trivial
  | cons prog rest ih =>
    intro hpc
    have hroom := hfits.room
    rw [hliterals, hashLiterals_cons, List.length_append, List.length_append] at hroom
    rw [programsBytes] at hread
    obtain ⟨hfirst, hrest⟩ := read_append hread
    obtain ⟨hprog, -⟩ := read_append hfirst
    have hemits := generateProgram_emits ext last j 0 prog.instructions b hpos (by omega)
    have hboth := program_emits fragments ext last j prog (!rest.isEmpty) hpos
      (show b.rcpCount + (programLiterals prog.instructions).length ≤ _ by omega)
    rw [hcount] at hemits hboth
    have hpc' : s.pc = b.code + b.codePos := hpc
    have hsplit : literals = before ++ programLiterals prog.instructions ++ hashLiterals rest := by
      rw [hliterals, hashLiterals_cons, ← List.append_assoc]
    rw [← hpc'] at hprog
    obtain ⟨t, ht, htpc, htloaded⟩ := programCode_run ext (hvalid prog List.mem_cons_self)
      hsplit hfits hheld
      (fun pre isn post heq hrcp => by
        have hiff := hlast [] prog rest pre isn post rfl heq hrcp
        rwa [List.length_nil, Nat.add_zero, ← Nat.zero_add pre.length] at hiff)
      hloaded hprog
    refine ⟨t, ht.reaches, ?_, ht, fun u hu => ih ?_ hsplit ?_ ?_ ?_ ?_ ?_ ?_ ?_⟩
    · change t.pc = _ + _
      rw [htpc, hpc', hemits.code, hemits.codePos, Nat.add_assoc]
    · exact fun p hp => hvalid p (List.mem_cons_of_mem _ hp)
    · rw [hboth.rcpCount, hcount, List.length_append]
    · exact hboth.code ▸ hfits
    · exact hboth.codePos ▸ hpos.trans (Nat.le_add_right _ _)
    · rw [hboth.code, hu.memory, ht.memory]
      exact hheld
    · intro ps p qs pre isn post heq hp hrcp
      have hiff := hlast (prog :: ps) p qs pre isn post (by rw [heq]; rfl) hp hrcp
      rwa [List.length_cons, ← Nat.add_assoc, Nat.add_right_comm] at hiff
    · rw [hboth.code, List.length_append]
      exact ⟨fun hn => (congrArg UInt64.toNat hu.pool).trans (htloaded.pool hn),
        fun v hv => hu.rcp.trans (htloaded.next v hv)⟩
    · rw [← List.length_append] at hrest
      rw [hu.memory, ht.memory, hboth.code, hboth.codePos, ← Nat.add_assoc]
      exact hrest

theorem code_le_slot (code : Nat) : ∀ n < (literalPool code).limit, code ≤ (literalPool code).slot n := by
  intro n hn
  change n < 8192 at hn
  change code ≤ code + 88064 + 2040 - 8 * n
  omega

/-- The buffer is in memory from its start on, and the code in front of the first program has
loaded the pool register and the first literal. -/
structure Ready (ext : Extensions) (fragments : Fragments) (programs : List SuperscalarProgram)
    (b : Buffer) (s : State) : Prop where
  addresses : b.code + superScalarHashOffset ≤ 2 ^ 64
  memory : let b' := generateSuperscalarHash ext fragments programs b
    ∀ p, b.code ≤ p → p < b'.code + b'.codePos → s.memory p = b'.memory p
  pool : (s.x (reg sshPoolReg)).toNat = b.code + superScalarLiteralPoolRefOffset
  rcp : s.x (reg sshRcpReg) = s.load (b.code + superScalarLiteralPoolRefOffset + 2040)

/-- The scalar code of the programs does what the interpreter does. -/
theorem scalar_sequence {programs : List SuperscalarProgram} {b : Buffer} {s : State}
    (hvalid : ∀ prog ∈ programs, ∀ e ∈ prog.programBuffer, e.Valid)
    (hroom : (hashLiterals programs).length ≤ superscalarLiteraPoolSize / 8)
    (hready : Ready ext fragments programs b s) :
    Sequence processor (Computes scalarView) Between
      (pieces ext (lastLiteral programs) fragments 0 programs (hashStart fragments b)) s := by
  have hpos : superScalarHashOffset ≤ (hashStart fragments b).codePos := Nat.le_add_right _ _
  have hall := generatePrograms_emits fragments ext (lastLiteral programs) 0 programs
    (hashStart fragments b) hpos ((Nat.zero_add _).trans_le hroom)
  have hemits := hall.trans (emits_emit _ (emit16 (rvc 0x8082 0 0))) hpos
    ((Nat.zero_add _).trans_le hroom)
  rw [List.append_nil] at hemits
  have hcount := hemits.rcpCount
  have hposition : b.code ≤ (hashStart fragments b).cursor.position := Nat.le_add_right _ _
  obtain ⟨hcode, hheld⟩ := hemits.emitted.agree (code_le_slot b.code) hposition
    (hcount.le.trans ((Nat.zero_add _).trans_le hroom)) (Nat.add_le_add_left hpos _) hready.memory
  refine programs_sequence ext (lastLiteral programs) fragments ?_
    (List.nil_append (hashLiterals programs)).symm rfl ⟨hready.addresses, hroom⟩ hpos hheld ?_ ?_ ?_
  · intro prog hp isn hisn
    obtain ⟨e, he, rfl⟩ := List.mem_map.mp hisn
    exact (hvalid prog hp e he).instruction
  · intro ps prog qs pre isn post heq hp hrcp
    rw [Nat.zero_add, heq]
    exact lastLiteral_eq_iff ps prog qs hp hrcp
  · refine ⟨fun _ => hready.pool, fun v hv => ?_⟩
    obtain ⟨hlt, hget⟩ := List.getElem?_eq_some_iff.mp hv
    have hslot : read s.memory (b.code + superScalarLiteralPoolRefOffset + 2040) 8 =
        le (hashLiterals programs)[0].toNat 8 := hheld 0 hlt
    rw [hready.rcp, State.load, hslot, ofNat_ofLe_le]
    exact hget
  · exact (read_append hcode).1

end Sequence

end VeloxHash.JitCompilerRv64
