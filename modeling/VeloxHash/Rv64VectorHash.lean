import VeloxHash.BumpWriter
import VeloxHash.CodeBuffer
import VeloxHash.ReciprocalWords
import VeloxHash.SuperscalarSound

/-! `generateDatasetInitVectorRV64`: superscalar programs become vector instructions behind one
pointer and the reciprocals of their divisors a table behind another. -/

namespace VeloxHash.Rv64VectorHash

open Checked CodeBuffer HashedStream SuperscalarGenerator
open ReciprocalWords (randomxReciprocalFast)

/-- A piece of the assembly: at most `n` instructions, of two or four bytes each. -/
structure Fragment (n : Nat) where
  bytes : List UInt8
  even : 2 ∣ bytes.length
  length_le : bytes.length ≤ 4 * n

/-- What the assembler makes of the static code. Four bytes of `setCacheIndex` are copied, from an
offset on. -/
structure Assembly where
  generatedInstructions : Nat
  prefetch : Fragment 15
  xor : Fragment 23
  setCacheIndex : Nat → UInt32

/-- Offset of `randomx_riscv64_vector_sshash_imul_rcp_literals`. -/
def imulRcpLiterals : Nat := 8 * (8 + 4 + 4)

def literalsSize : Nat := 512 * 8

/-- `RANDOMX_CACHE_ACCESSES` of the assembly. -/
def cacheAccesses : Nat := 16

def generatedSize : Nat := cacheAccesses * 2048 * 4

inductive Region
  | code
  | literals
  deriving DecidableEq

/-- The pointers `p` and `cur_literal` with what they have written, and `literals`. -/
structure Emitter where
  writer : BumpWriter.Writer Region UInt8
  literals : Nat

namespace Emitter

def p (s : Emitter) : Nat := s.writer.pointer .code

def curLiteral (s : Emitter) : Nat := s.writer.pointer .literals

def append (s : Emitter) (bytes : List UInt8) : Emitter :=
  { s with writer := s.writer.put .code bytes }

def emit (s : Emitter) (data : UInt32) : Emitter := s.append (le data.toNat 4)

def storeLiteral (s : Emitter) (r : UInt64) : Emitter :=
  { s with writer := s.writer.put .literals (le r.toNat 8) }

end Emitter

section Instructions

def emitRotation (dst imm32 : UInt32) (s : Emitter) : Emitter :=
  let shiftRight := imm32 &&& 63
  let shiftLeft := 64 - shiftRight
  let s :=
    if shiftRight < 32 then s.emit ((0xA2003957 : UInt32) ||| shiftRight <<< 15 ||| dst <<< 20)
    else
      let s := s.emit ((0x00000293 : UInt32) ||| shiftRight <<< 20)
      s.emit ((0xA202C957 : UInt32) ||| dst <<< 20)
  let s :=
    if shiftLeft < 32 then
      s.emit ((0x96003057 : UInt32) ||| dst <<< 7 ||| shiftLeft <<< 15 ||| dst <<< 20)
    else
      let s := s.emit ((0x00000293 : UInt32) ||| shiftLeft <<< 20)
      s.emit ((0x9602C057 : UInt32) ||| dst <<< 7 ||| dst <<< 20)
  s.emit ((0x2B200057 : UInt32) ||| dst <<< 7 ||| dst <<< 15)

/-- `lui` and `addiw` of a constant, and the instruction that takes it. -/
def emitConstant (op dst imm32 : UInt32) (s : Emitter) : Emitter :=
  let s := s.emit ((0x000002B7 : UInt32) ||| (imm32 + (imm32 &&& 0x800) <<< 1) &&& 0xFFFFF000)
  let s := s.emit ((0x0002829B : UInt32) ||| (imm32 &&& 0x00000FFF) <<< 20)
  s.emit (op ||| dst <<< 7 ||| dst <<< 20)

/-- Beyond the reach of an offset, the register that points to the literals is moved on. -/
def moveLiterals (s : Emitter) : Emitter :=
  if UInt32.ofNat (s.curLiteral - s.literals) = 2040 then
    { s with literals := s.literals + 2040 }.emit 0x7F878793
  else s

def emitReciprocal (dst imm32 : UInt32) (s : Emitter) : Emitter :=
  let s := moveLiterals s
  let offset := UInt32.ofNat (s.curLiteral - s.literals)
  let s := s.storeLiteral (randomxReciprocalFast imm32.toUInt64)
  let s := s.emit ((0x0007B283 : UInt32) ||| offset <<< 20)
  s.emit ((0x9602E057 : UInt32) ||| dst <<< 7 ||| dst <<< 20)

def emitInstruction (s : Emitter) (instr : Entry) : Emitter :=
  let dst := UInt32.ofNat instr.dst &&& 7
  let src := UInt32.ofNat instr.src &&& 7
  let modShift := (instr.mod.toUInt32 >>> 2) &&& 3
  match instr.opcode with
  | some .isubR => s.emit ((0x0A000057 : UInt32) ||| dst <<< 7 ||| src <<< 15 ||| dst <<< 20)
  | some .ixorR => s.emit ((0x2E000057 : UInt32) ||| dst <<< 7 ||| src <<< 15 ||| dst <<< 20)
  | some .iaddRs =>
    (s.emit ((0x96003957 : UInt32) ||| modShift <<< 15 ||| src <<< 20)).emit
      ((0x02090057 : UInt32) ||| dst <<< 7 ||| dst <<< 20)
  | some .imulR => s.emit ((0x96002057 : UInt32) ||| dst <<< 7 ||| src <<< 15 ||| dst <<< 20)
  | some .irorC => emitRotation dst instr.imm32 s
  | some .iaddC7 | some .iaddC8 | some .iaddC9 => emitConstant 0x0202C057 dst instr.imm32 s
  | some .ixorC7 | some .ixorC8 | some .ixorC9 => emitConstant 0x2E02C057 dst instr.imm32 s
  | some .imulhR => s.emit ((0x92002057 : UInt32) ||| dst <<< 7 ||| src <<< 15 ||| dst <<< 20)
  | some .ismulhR => s.emit ((0x9E002057 : UInt32) ||| dst <<< 7 ||| src <<< 15 ||| dst <<< 20)
  | some .imulRcp => emitReciprocal dst instr.imm32 s
  | none => s

end Instructions

section Programs

variable (asm : Assembly)

/-- Steps 4 to 6. -/
def emitProgram (program : SuperscalarProgram) (s : Emitter) : Emitter :=
  (program.programBuffer.foldl emitInstruction (s.append asm.prefetch.bytes)).append asm.xor.bytes

/-- The loop over the programs, with step 7 after each but the last. -/
def emitPrograms : List SuperscalarProgram → Emitter → Emitter
  | [], s => s
  | [program], s => emitProgram asm program s
  | program :: programs, s =>
    emitPrograms programs
      ((emitProgram asm program s).emit (asm.setCacheIndex (program.addrReg * 4)))

/-- Where the regions start. -/
def base : Region → Nat
  | .code => asm.generatedInstructions
  | .literals => imulRcpLiterals

def generated (programs : List SuperscalarProgram) : Emitter :=
  emitPrograms asm programs ⟨.start (base asm), imulRcpLiterals⟩

def generatedInstructionsEnd : Nat := asm.generatedInstructions + generatedSize

/-- `J` over a distance. -/
def jump (k : UInt32) : UInt32 :=
  (0x6F : UInt32) ||| (k &&& 0x7FE) <<< 20 ||| (k &&& 0x800) <<< 9 ||| k &&& 0xFF000

/-- The last jump, to the end of the generated instructions. -/
def lastJump (s : Emitter) : UInt32 :=
  jump (.ofNat (generatedInstructionsEnd asm) - .ofNat s.p)

def generateDatasetInitVectorRV64 (programs : List SuperscalarProgram) : Emitter :=
  let s := generated asm programs
  s.emit (lastJump asm s)

end Programs

/-- The distance that the processor takes from a `J`. -/
def jumpDistance (inst : UInt32) : Int :=
  (inst >>> 12 &&& 0xFF).toNat * 2 ^ 12 + (inst >>> 20 &&& 1).toNat * 2 ^ 11 +
    (inst >>> 21 &&& 0x3FF).toNat * 2 - (inst >>> 31).toNat * 2 ^ 20

/-- The table and the code hold what is written to them, and the last jump reaches its target. -/
structure Fits (asm : Assembly) (programs : List SuperscalarProgram) : Prop where
  stored : (generateDatasetInitVectorRV64 asm programs).writer.count .literals ≤ 512
  table :
    (generateDatasetInitVectorRV64 asm programs).writer.Inside (base asm) .literals literalsSize
  code : (generateDatasetInitVectorRV64 asm programs).writer.Inside (base asm) .code generatedSize
  jumps : ((generated asm programs).p : Int) +
    jumpDistance (lastJump asm (generated asm programs)) = generatedInstructionsEnd asm

section Growth

/-- At most `code` instructions and exactly `literals` literals have been written. -/
structure Grows (code literals : Nat) (s t : Emitter) : Prop where
  packed : ∀ base, s.writer.Packed base → t.writer.Packed base
  code : ∃ n ≤ 2 * code, t.p = s.p + 2 * n
  curLiteral : t.curLiteral = s.curLiteral + 8 * literals
  count : t.writer.count .literals = s.writer.count .literals + literals

variable {s t u : Emitter} {m n k l : Nat}

theorem Grows.refl (s : Emitter) : Grows 0 0 s s :=
  ⟨fun _ h => h, ⟨0, le_rfl, rfl⟩, rfl, rfl⟩

theorem Grows.trans (h : Grows m k s t) (h' : Grows n l t u) : Grows (m + n) (k + l) s u := by
  obtain ⟨i, hi, hp⟩ := h.code
  obtain ⟨j, hj, hp'⟩ := h'.code
  refine ⟨fun base hs => h'.packed base (h.packed base hs), ⟨i + j, by omega, by omega⟩, ?_, ?_⟩
  · rw [h'.curLiteral, h.curLiteral]
    omega
  · rw [h'.count, h.count, Nat.add_assoc]

theorem Grows.mono (h : Grows m k s t) (hle : m ≤ n) : Grows n k s t := by
  obtain ⟨i, hi, hp⟩ := h.code
  exact ⟨h.packed, ⟨i, by omega, hp⟩, h.curLiteral, h.count⟩

theorem grows_append (s : Emitter) (f : Fragment n) : Grows n 0 s (s.append f.bytes) := by
  obtain ⟨bytes, ⟨i, hi⟩, hle⟩ := f
  have hp := s.writer.pointer_put_self .code bytes
  refine ⟨fun base hs => hs.put .code bytes, ⟨i, by omega, hp.trans (by rw [hi]; rfl)⟩, ?_, ?_⟩
  · exact s.writer.pointer_put_of_ne (by decide : Region.literals ≠ .code) bytes
  · exact s.writer.count_put_of_ne (by decide : Region.literals ≠ .code) bytes

/-- An instruction of four bytes. -/
def word (data : UInt32) : Fragment 1 where
  bytes := le data.toNat 4
  even := by rw [length_le]; decide
  length_le := (length_le _ _).le

theorem grows_emit (s : Emitter) (data : UInt32) : Grows 1 0 s (s.emit data) :=
  grows_append s (word data)

theorem grows_storeLiteral (s : Emitter) (r : UInt64) : Grows 0 1 s (s.storeLiteral r) := by
  refine ⟨fun base hs => hs.put .literals _, ⟨0, le_rfl, ?_⟩, ?_, ?_⟩
  · exact s.writer.pointer_put_of_ne (by decide : Region.code ≠ .literals) _
  · exact (s.writer.pointer_put_self .literals _).trans (by rw [length_le]; rfl)
  · exact s.writer.count_put_self .literals _

theorem grows_rebase (s : Emitter) (literals : Nat) :
    Grows 0 0 s { s with literals } := ⟨fun _ h => h, ⟨0, le_rfl, rfl⟩, rfl, rfl⟩

theorem emitRotation_grows (dst imm32 : UInt32) (s : Emitter) :
    Grows 5 0 s (emitRotation dst imm32 s) := by
  unfold emitRotation
  dsimp only
  split <;> split
  · exact (((grows_emit s _).trans (grows_emit _ _)).trans (grows_emit _ _)).mono (by decide)
  · exact ((grows_emit s _).trans (((grows_emit _ _).trans (grows_emit _ _)).trans
      (grows_emit _ _))).mono (by decide)
  · exact (((grows_emit s _).trans (grows_emit _ _)).trans ((grows_emit _ _).trans
      (grows_emit _ _))).mono (by decide)
  · exact ((grows_emit s _).trans (grows_emit _ _)).trans (((grows_emit _ _).trans
      (grows_emit _ _)).trans (grows_emit _ _))

theorem emitConstant_grows (op dst imm32 : UInt32) (s : Emitter) :
    Grows 3 0 s (emitConstant op dst imm32 s) :=
  ((grows_emit _ _).trans (grows_emit _ _)).trans (grows_emit _ _)

theorem moveLiterals_grows (s : Emitter) : Grows 1 0 s (moveLiterals s) := by
  unfold moveLiterals
  split
  · exact (grows_rebase s _).trans (grows_emit _ _)
  · exact (Grows.refl s).mono (by decide)

theorem emitReciprocal_grows (dst imm32 : UInt32) (s : Emitter) :
    Grows 3 1 s (emitReciprocal dst imm32 s) :=
  (((moveLiterals_grows s).trans (grows_storeLiteral _ _)).trans (grows_emit _ _)).trans
    (grows_emit _ _)

def isRcp (instr : Entry) : Bool := instr.opcode = some .imulRcp

theorem emitInstruction_grows (s : Emitter) (instr : Entry) :
    Grows 5 (isRcp instr).toNat s (emitInstruction s instr) := by
  unfold emitInstruction isRcp
  cases instr.opcode with
  | none => exact (Grows.refl s).mono (by decide)
  | some type =>
    cases type with
    | isubR | ixorR | imulR | imulhR | ismulhR => exact (grows_emit s _).mono (by decide)
    | iaddRs => exact ((grows_emit s _).trans (grows_emit _ _)).mono (by decide)
    | irorC => exact emitRotation_grows _ _ s
    | iaddC7 | iaddC8 | iaddC9 | ixorC7 | ixorC8 | ixorC9 =>
      exact (emitConstant_grows _ _ _ s).mono (by decide)
    | imulRcp => exact (emitReciprocal_grows _ _ s).mono (by decide)

theorem instructions_grow (s : Emitter) (instrs : List Entry) :
    Grows (5 * instrs.length) (instrs.countP isRcp) s (instrs.foldl emitInstruction s) := by
  induction instrs generalizing s with
  | nil => exact Grows.refl s
  | cons instr instrs ih =>
    have hgrows := (emitInstruction_grows s instr).trans (ih (emitInstruction s instr))
    rw [List.countP_cons, List.length_cons, List.foldl_cons, Nat.add_comm (List.countP _ _),
      show (if isRcp instr = true then 1 else 0) = (isRcp instr).toNat by cases isRcp instr <;> rfl]
    exact hgrows.mono (by omega)

variable (asm : Assembly)

/-- The literals of a program. -/
def rcpCount (program : SuperscalarProgram) : Nat := program.programBuffer.countP isRcp

theorem emitProgram_grows (program : SuperscalarProgram) (s : Emitter) :
    Grows (5 * program.programBuffer.length + 38) (rcpCount program) s
      (emitProgram asm program s) := by
  have hinstructions := instructions_grow (s.append asm.prefetch.bytes) program.programBuffer
  have hgrows := ((grows_append s asm.prefetch).trans hinstructions).trans (grows_append _ asm.xor)
  rw [Nat.zero_add, Nat.add_zero] at hgrows
  exact hgrows.mono (by omega)

theorem emitPrograms_grows {size : Nat} {programs : List SuperscalarProgram}
    (hsize : ∀ program ∈ programs, program.programBuffer.length ≤ size) (s : Emitter) :
    Grows (programs.length * (5 * size + 39)) (programs.map rcpCount).sum s
      (emitPrograms asm programs s) := by
  fun_induction emitPrograms asm programs s with
  | case1 s => exact (Grows.refl s).mono (Nat.zero_le _)
  | case2 program s =>
    have hle := hsize program List.mem_cons_self
    exact (emitProgram_grows asm program s).mono (by simp only [List.length_singleton]; omega)
  | case3 program programs s _ ih =>
    have hle := hsize program List.mem_cons_self
    have hrest := ih fun p hp => hsize p (List.mem_cons_of_mem _ hp)
    have hgrows := ((emitProgram_grows asm program s).trans (grows_emit _ _)).trans hrest
    rw [List.map_cons, List.sum_cons]
    refine hgrows.mono ?_
    rw [List.length_cons, Nat.add_one_mul programs.length]
    omega

end Growth

section Jumps

theorem jump_fields (k : UInt32) :
    jump k >>> 12 &&& (0xFF : UInt32) = k >>> 12 &&& (0xFF : UInt32) ∧
      jump k >>> 20 &&& (1 : UInt32) = k >>> 11 &&& (1 : UInt32) ∧
      jump k >>> 21 &&& (0x3FF : UInt32) = k >>> 1 &&& (0x3FF : UInt32) ∧
      jump k >>> 31 = 0 := by
  unfold jump
  refine ⟨?_, ?_, ?_, ?_⟩
  all_goals
    refine UInt32.toBitVec_inj.mp (BitVec.eq_of_getLsbD_eq fun i hi => ?_)
    interval_cases i <;> simp

theorem jumpDistance_jump {k : UInt32} (hlt : k.toNat < 2 ^ 20) (heven : 2 ∣ k.toNat) :
    jumpDistance (jump k) = k.toNat := by
  obtain ⟨hhigh, hbit, hlow, hsign⟩ := jump_fields k
  have hhigh' : (k >>> 12 &&& (0xFF : UInt32)).toNat = k.toNat / 2 ^ 12 % 2 ^ 8 := by
    rw [UInt32.toNat_and, UInt32.toNat_shiftRight, Nat.shiftRight_eq_div_pow]
    exact Nat.and_two_pow_sub_one_eq_mod _ 8
  have hbit' : (k >>> 11 &&& (1 : UInt32)).toNat = k.toNat / 2 ^ 11 % 2 ^ 1 := by
    rw [UInt32.toNat_and, UInt32.toNat_shiftRight, Nat.shiftRight_eq_div_pow]
    exact Nat.and_two_pow_sub_one_eq_mod _ 1
  have hlow' : (k >>> 1 &&& (0x3FF : UInt32)).toNat = k.toNat / 2 ^ 1 % 2 ^ 10 := by
    rw [UInt32.toNat_and, UInt32.toNat_shiftRight, Nat.shiftRight_eq_div_pow]
    exact Nat.and_two_pow_sub_one_eq_mod _ 10
  rw [jumpDistance, hhigh, hbit, hlow, hsign, hhigh', hbit', hlow', UInt32.toNat_zero]
  omega

end Jumps

section Capacity

/-- A program that `generateSuperscalar` returns on some stream of bytes. -/
def Returned (program : SuperscalarProgram) : Prop :=
  ∃ rxBlake2b gen n r, generateSuperscalar rxBlake2b 170 gen n = .ok r ∧ r.1 = program

theorem Returned.size {program : SuperscalarProgram} (h : Returned program) :
    program.programBuffer.length ≤ 512 := by
  have hproduced : Produced 170 program := h
  exact (hproduced.generated (by decide)).size

variable (asm : Assembly) {programs : List SuperscalarProgram}

/-- What is written for eight programs, before the last jump. -/
theorem generated_grows (hlength : programs.length = 8)
    (hreturned : ∀ program ∈ programs, Returned program) :
    Grows (8 * 2599) (programs.map rcpCount).sum ⟨.start (base asm), imulRcpLiterals⟩
      (generated asm programs) :=
  hlength ▸ emitPrograms_grows asm (fun program hp => (hreturned program hp).size) _

theorem count_generated (hlength : programs.length = 8)
    (hreturned : ∀ program ∈ programs, Returned program) :
    (generateDatasetInitVectorRV64 asm programs).writer.count .literals =
      (programs.map rcpCount).sum := by
  have hgrows := (generated_grows asm hlength hreturned).trans
    (grows_emit _ (lastJump asm (generated asm programs)))
  exact hgrows.count.trans (Nat.zero_add _)

theorem lastJump_reaches {s : Emitter} {d : Nat} (hd : s.p + d = generatedInstructionsEnd asm)
    (hlt : d < 2 ^ 20) (heven : 2 ∣ d) : jumpDistance (lastJump asm s) = d := by
  have hk : UInt32.ofNat (generatedInstructionsEnd asm) - UInt32.ofNat s.p = .ofNat d := by
    rw [← hd, UInt32.ofNat_add, UInt32.add_comm, UInt32.add_sub_cancel]
  have hnat : (UInt32.ofNat d).toNat = d := UInt32.toNat_ofNat_of_lt' (hlt.trans (by decide))
  rw [lastJump, hk, jumpDistance_jump (hnat.symm ▸ hlt) (hnat.symm ▸ heven), hnat]

/-- The code of eight programs always fits, the literals only up to the size of their table. -/
theorem generateDatasetInit_fits_iff (hlength : programs.length = 8)
    (hreturned : ∀ program ∈ programs, Returned program) :
    Fits asm programs ↔ (programs.map rcpCount).sum ≤ 512 := by
  have hgenerated := generated_grows asm hlength hreturned
  have hgrows := hgenerated.trans (grows_emit _ (lastJump asm (generated asm programs)))
  have hcount := count_generated asm hlength hreturned
  have hpacked := hgrows.packed _ (BumpWriter.Writer.packed_start _)
  constructor
  · exact fun h => hcount ▸ h.stored
  · intro hle
    obtain ⟨n, hn, hp⟩ := hgenerated.code
    obtain ⟨n', hn', hp'⟩ := hgrows.code
    refine ⟨hcount ▸ hle, (hpacked.inside_iff _ _).mpr ?_, (hpacked.inside_iff _ _).mpr ?_, ?_⟩
    · refine hgrows.curLiteral.le.trans ?_
      exact Nat.add_le_add_left (by unfold literalsSize; omega) _
    · refine hp'.le.trans ?_
      exact Nat.add_le_add_left (by unfold generatedSize cacheAccesses; omega) _
    · have hd : (generated asm programs).p + (generatedSize - 2 * n) =
          generatedInstructionsEnd asm := by
        rw [hp, generatedInstructionsEnd, Nat.add_assoc,
          Nat.add_sub_cancel' (by unfold generatedSize cacheAccesses; omega)]
        rfl
      rw [lastJump_reaches asm hd (by unfold generatedSize cacheAccesses; omega)
        (by unfold generatedSize cacheAccesses; omega)]
      exact_mod_cast hd

/-- A stream that repeats one byte. -/
def twos (_ : Nat) (_ : Table 64 UInt8) : Table 64 UInt8 := .filled 64 2

def ofTwos : Except Retrying.Fault (SuperscalarProgram × Blake2Generator) :=
  generateSuperscalar twos 170 ⟨.filled 64 2, 64, 0⟩ 1

/-- Every second window holds an `IMUL_RCP`. -/
theorem rcpCount_ofTwos : (ofTwos.toOption.elim 0 fun r => rcpCount r.1) = 84 := by decide +kernel

theorem ofTwos_ok : ∃ r, ofTwos = .ok r ∧ rcpCount r.1 = 84 := by
  have hcount := rcpCount_ofTwos
  cases h : ofTwos with
  | error e =>
    rw [h] at hcount
    cases hcount
  | ok r =>
    rw [h] at hcount
    exact ⟨r, rfl, hcount⟩

/-- Instructions of four bytes throughout. -/
def assembled : Assembly where
  generatedInstructions := imulRcpLiterals + literalsSize + 57 * 4
  prefetch := ⟨List.replicate 60 0, by decide, by decide⟩
  xor := ⟨List.replicate 92 0, by decide, by decide⟩
  setCacheIndex k := (0x5E0004D7 : UInt32) ||| UInt32.ofNat (k / 4) <<< 15

theorem generateDatasetInit_fits_iff_twos : ∃ r, ofTwos = .ok r ∧
    (Fits assembled (List.replicate 8 r.1) ↔
      ((List.replicate 8 r.1).map rcpCount).sum ≤ 512) := by
  obtain ⟨r, hr, -⟩ := ofTwos_ok
  refine ⟨r, hr, generateDatasetInit_fits_iff assembled List.length_replicate fun program hp => ?_⟩
  exact List.eq_of_mem_replicate hp ▸ ⟨twos, _, 1, r, hr, rfl⟩

/-- Eight times the program of this stream has more literals than the table holds. -/
theorem generateDatasetInit_overruns : ∃ r, ofTwos = .ok r ∧
    (∀ program ∈ List.replicate 8 r.1, Returned program) ∧
    (generateDatasetInitVectorRV64 assembled (List.replicate 8 r.1)).writer.count .literals = 672 ∧
    ¬Fits assembled (List.replicate 8 r.1) := by
  obtain ⟨r, hr, hrcp⟩ := ofTwos_ok
  have hreturned : ∀ program ∈ List.replicate 8 r.1, Returned program := fun program hp =>
    List.eq_of_mem_replicate hp ▸ ⟨twos, _, 1, r, hr, rfl⟩
  have hcount := count_generated assembled List.length_replicate hreturned
  rw [List.map_replicate, List.sum_replicate, hrcp] at hcount
  refine ⟨r, hr, hreturned, hcount, fun h => ?_⟩
  have hstored := h.stored
  rw [hcount] at hstored
  exact absurd hstored (by decide)

end Capacity

end VeloxHash.Rv64VectorHash
