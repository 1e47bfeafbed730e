import VeloxHash.A64SuperscalarRun

/-! The whole emission: it stays in its part of the buffer, and each program in it computes the
interpreter's registers with the literals of its own pool. -/

namespace VeloxHash.JitCompilerA64

open CodeBuffer Randomx BytecodeMachine Superscalar EncodedMachine A64Machine

section Layout

variable (imulRcpLiteralsEnd : Nat) (asm : Assembly) (log2CacheSize : UInt32)

/-- What stands in front of the jump of a program. -/
def accessPrefix : List UInt8 :=
  encode ((0x92400000 : UInt32) ||| (11 : UInt32) ||| (0x140 : UInt32) |||
    (log2CacheSize - 1) <<< 10) ++ asm.prefetch.drop 4

def accessSuffix (prog : Program) : List UInt8 :=
  asm.mix ++ encode (movReg ||| (10 : UInt32) ||| UInt32.ofNat prog.addressRegister <<< 16)

def accessBytes (prog : Program) : List UInt8 :=
  accessPrefix asm log2CacheSize ++ programBytes prog.instructions ++ accessSuffix asm prog

def hashBytes (programs : List Program) : List UInt8 :=
  asm.calcDatasetItem ++ programs.flatMap (accessBytes asm log2CacheSize) ++ asm.storeResult

variable {e : Emitter} (hfull : ¬e.num32bitLiterals < 64)

theorem emitPrefetch_eq (e : Emitter) :
    emitPrefetch asm log2CacheSize e = e.append (accessPrefix asm log2CacheSize) := by
  rw [emitPrefetch, Emitter.emit32, Emitter.append_append]
  rfl

include hfull

theorem emitCacheAccess_eq (prog : Program) :
    emitCacheAccess imulRcpLiteralsEnd asm log2CacheSize e prog =
      e.append (accessBytes asm log2CacheSize prog) := by
  unfold emitCacheAccess
  dsimp only
  rw [emitPrefetch_eq, emitProgram_eq, Emitter.emit32, Emitter.append_append, Emitter.append_append,
    Emitter.append_append, accessBytes, accessSuffix, List.append_assoc]
  · rfl
  · exact hfull

theorem emitCacheAccesses_eq (programs : List Program) :
    programs.foldl (emitCacheAccess imulRcpLiteralsEnd asm log2CacheSize) e =
      e.append (programs.flatMap (accessBytes asm log2CacheSize)) := by
  induction programs generalizing e with
  | nil => exact e.append_nil.symm
  | cons prog rest ih =>
    rw [List.foldl_cons, emitCacheAccess_eq _ _ _ hfull, ih, Emitter.append_append, List.flatMap_cons]
    exact hfull

omit hfull

theorem generateSuperscalarHash_eq (codeSize : Nat) (programs : List Program) (e : Emitter) :
    generateSuperscalarHash imulRcpLiteralsEnd asm log2CacheSize codeSize programs e =
      { e with codePos := codeSize, num32bitLiterals := 64 }.append
        (hashBytes asm log2CacheSize (programs.take cacheAccesses)) := by
  have hitem : emitItem asm codeSize e =
      { e with codePos := codeSize, num32bitLiterals := 64 }.append asm.calcDatasetItem := rfl
  unfold generateSuperscalarHash
  dsimp only
  rw [emitCacheAccesses_eq _ _ _ (by decide : ¬64 < 64), hitem, Emitter.append_append,
    Emitter.append_append, hashBytes, List.append_assoc]

end Layout

/-- What `generateSuperscalar` makes sure of. -/
structure Produced (prog : Program) : Prop where
  size : prog.instructions.length ≤ superscalarMaxLatency * 3 + 2
  valid : ∀ instr ∈ prog.instructions, Superscalar.Valid instr

section Sizes

variable (asm : Assembly) (log2CacheSize : UInt32)

theorem length_accessBytes {prog : Program} (hprog : Produced prog) :
    (accessBytes asm log2CacheSize prog).length ≤
      asm.prefetch.length + 4 + (superscalarMaxLatency * 3 + 2) * 16 + asm.mix.length + 4 := by
  have hbytes := length_programBytes prog.instructions
  have hsize := hprog.size
  have hreplaced := asm.replaced
  rw [accessBytes, accessPrefix, accessSuffix, List.length_append, List.length_append,
    List.length_append, List.length_append, length_encode, length_encode, List.length_drop]
  omega

theorem length_accesses {programs : List Program} (hprograms : ∀ prog ∈ programs, Produced prog) :
    (programs.flatMap (accessBytes asm log2CacheSize)).length ≤ programs.length *
      (asm.prefetch.length + 4 + (superscalarMaxLatency * 3 + 2) * 16 + asm.mix.length + 4) := by
  induction programs with
  | nil => exact Nat.zero_le _
  | cons prog rest ih =>
    have hprog := length_accessBytes asm log2CacheSize (hprograms prog List.mem_cons_self)
    have hrest := ih fun p hp => hprograms p (List.mem_cons_of_mem _ hp)
    rw [List.flatMap_cons, List.length_append, List.length_cons, Nat.succ_mul]
    omega

/-- The emission fits. -/
theorem length_hashBytes {programs : List Program} (hprograms : ∀ prog ∈ programs, Produced prog)
    (hcount : programs.length ≤ cacheAccesses) :
    (hashBytes asm log2CacheSize programs).length ≤ calcDatasetItemSize asm := by
  have haccesses := length_accesses asm log2CacheSize hprograms
  have hmul := Nat.mul_le_mul_right
    (asm.prefetch.length + 4 + (superscalarMaxLatency * 3 + 2) * 16 + asm.mix.length + 4) hcount
  rw [hashBytes, List.length_append, List.length_append, calcDatasetItemSize]
  omega

end Sizes

section Runs

/-- What a program in the buffer does: the jump, which ends behind the pool, then its
instructions. -/
structure Computes (prog : List Instruction) (s t : State) : Prop where
  jump : processor.step s = some { s with pc := s.pc + 4 + 8 * prog.countP isRcp }
  reaches : processor.Reaches s t
  memory : t.memory = s.memory
  pc : t.pc = s.pc + (programBytes prog).length
  scalars_eq : scalars t = executeSuperscalar (scalars s) prog
  kept : Kept s t
  follows : Follows (s.pc + 4) prog { s with pc := s.pc + 4 + 8 * prog.countP isRcp } t

theorem run_program {prog : Program} (hprog : Produced prog) {s : State}
    (hread : read s.memory s.pc (programBytes prog.instructions).length =
      programBytes prog.instructions) : ∃ t, Computes prog.instructions s t := by
  have hsize := hprog.size
  have hpool := length_poolBytes prog.instructions
  have hbody := length_body (poolBytes prog.instructions).length prog.instructions
  obtain ⟨hhead, hcode⟩ := read_append hread
  obtain ⟨hfirst, hliterals⟩ := read_append hhead
  rw [length_encode] at hfirst hliterals
  rw [List.length_append, length_encode, ← Nat.add_assoc] at hcode
  unfold superscalarMaxLatency at hsize
  have hjump := run_jump hfirst (by omega)
  have hembedded : Embedded (poolBytes prog.instructions).length prog.instructions
      { s with pc := s.pc + 4 + (poolBytes prog.instructions).length } := by
    refine ⟨hcode, ?_, Nat.le_add_left _ _, le_rfl, by omega, by omega⟩
    dsimp only
    rw [Nat.add_sub_cancel]
    exact hliterals
  obtain ⟨t, hreaches, hmemory, hpc, hscalars, hkept, hfollows⟩ := run_body hembedded hprog.valid
  dsimp only at hpc hfollows
  rw [Nat.add_sub_cancel] at hfollows
  rw [hpool] at hjump hreaches hfollows
  refine ⟨t, hjump, .head hjump hreaches, hmemory, ?_, hscalars, ⟨hkept.x, hkept.sp⟩, hfollows⟩
  rw [hpc, programBytes, List.length_append, List.length_append, length_encode, length_assemble]
  omega

/-- Bytes between others that are written. -/
theorem read_write_between (m : Memory) (p : Nat) (xs ys zs : List UInt8) :
    read (write m p (xs ++ ys ++ zs)) (p + xs.length) ys.length = ys := by
  have hall : read (write m p (xs ++ ys ++ zs)) p (xs ++ ys ++ zs).length = xs ++ ys ++ zs :=
    (read_write_take le_rfl).trans (List.take_length ..)
  exact (read_append (read_append hall).1).2

variable (imulRcpLiteralsEnd : Nat) (asm : Assembly) (log2CacheSize : UInt32)

/-- The emission lies in its part of the buffer, and wherever a program was emitted, the processor
computes with it what the interpreter computes. -/
theorem generateSuperscalarHash_exact (codeSize : Nat) (programs : List Program) (e : Emitter)
    (hprograms : ∀ prog ∈ programs, Produced prog) :
    let emitted := generateSuperscalarHash imulRcpLiteralsEnd asm log2CacheSize codeSize programs e
    emitted.codePos ≤ codeSize + calcDatasetItemSize asm ∧
    (∀ a, a < e.code + codeSize ∨ e.code + codeSize + calcDatasetItemSize asm ≤ a →
      emitted.memory a = e.memory a) ∧
    ∀ before prog after, programs.take cacheAccesses = before ++ prog :: after →
      ∀ s : State, s.memory = emitted.memory →
        s.pc = e.code + (emitPrefetch asm log2CacheSize (before.foldl
          (emitCacheAccess imulRcpLiteralsEnd asm log2CacheSize)
          (emitItem asm codeSize e))).codePos →
        ∃ t, Computes prog.instructions s t := by
  intro emitted
  have htaken : ∀ prog ∈ programs.take cacheAccesses, Produced prog := fun prog hp =>
    hprograms prog (List.mem_of_mem_take hp)
  have hfits := length_hashBytes asm log2CacheSize htaken (List.length_take_le ..)
  have hemitted : emitted = { e with codePos := codeSize, num32bitLiterals := 64 }.append
      (hashBytes asm log2CacheSize (programs.take cacheAccesses)) :=
    generateSuperscalarHash_eq imulRcpLiteralsEnd asm log2CacheSize codeSize programs e
  rw [hemitted]
  refine ⟨Nat.add_le_add_left hfits codeSize, fun a ha => ?_, fun before prog after hsplit s hmemory
    hpc => ?_⟩
  · rcases ha with hbelow | habove
    · exact write_below hbelow
    · exact write_above (le_trans (Nat.add_le_add_left hfits _) habove)
  · refine run_program (htaken prog (hsplit ▸ by simp)) ?_
    have hitem : emitItem asm codeSize e =
        { e with codePos := codeSize, num32bitLiterals := 64 }.append asm.calcDatasetItem := rfl
    have hbytes : hashBytes asm log2CacheSize (programs.take cacheAccesses) =
        asm.calcDatasetItem ++ before.flatMap (accessBytes asm log2CacheSize) ++
            accessPrefix asm log2CacheSize ++ programBytes prog.instructions ++
          (accessSuffix asm prog ++ after.flatMap (accessBytes asm log2CacheSize) ++
            asm.storeResult) := by
      rw [hashBytes, hsplit, List.flatMap_append, List.flatMap_cons, accessBytes]
      simp only [List.append_assoc]
    rw [emitCacheAccesses_eq _ _ _ (by decide : ¬64 < 64), emitPrefetch_eq, hitem,
      Emitter.append_append, Emitter.append_append, ← List.append_assoc] at hpc
    have hposition : s.pc = e.code + codeSize + (asm.calcDatasetItem ++
        before.flatMap (accessBytes asm log2CacheSize) ++ accessPrefix asm log2CacheSize).length :=
      hpc.trans (Nat.add_assoc ..).symm
    rw [hmemory, hbytes, hposition]
    exact read_write_between ..

/-- `IMUL_RCP r1, 3` and `IADD_C7 r2, -1` on ones. -/
theorem generateSuperscalarHash_exact_three :
    ∃ t, processor.Reaches
        { x := fun _ => 1
          sp := 0
          memory := (generateSuperscalarHash 0 ⟨[], [0, 0, 0, 0], le_rfl, [], []⟩ 21 16
            [⟨[⟨13, 1, 1, 0, 3⟩, ⟨5, 2, 2, 0, 0xFFFFFFFF⟩], 0⟩] ⟨0, fun _ => 0, 0, 0⟩).memory
          pc := 20 } t ∧
      scalars t 1 = 0xAAAAAAAAAAAAAAAA ∧ scalars t 2 = 0 := by
  have hproduced : ∀ prog ∈ [(⟨[⟨13, 1, 1, 0, 3⟩, ⟨5, 2, 2, 0, 0xFFFFFFFF⟩], 0⟩ : Program)],
      Produced prog := by
    intro prog hp
    obtain rfl := List.mem_singleton.mp hp
    refine ⟨by decide, fun instr hi => ?_⟩
    simp only [List.mem_cons, List.not_mem_nil, or_false] at hi
    rcases hi with rfl | rfl
    · exact ⟨by decide, by decide, by decide, by decide⟩
    · exact ⟨by decide, by decide, by decide, by decide⟩
  obtain ⟨t, ht⟩ := (generateSuperscalarHash_exact 0 ⟨[], [0, 0, 0, 0], le_rfl, [], []⟩ 21 16
    [⟨[⟨13, 1, 1, 0, 3⟩, ⟨5, 2, 2, 0, 0xFFFFFFFF⟩], 0⟩] ⟨0, fun _ => 0, 0, 0⟩ hproduced).2.2 [] _ []
    rfl ⟨fun _ => 1, 0, _, 20⟩ rfl rfl
  refine ⟨t, ht.reaches, ?_, ?_⟩
  · rw [ht.scalars_eq]
    decide +kernel
  · rw [ht.scalars_eq]
    decide +kernel

end Runs

end VeloxHash.JitCompilerA64
