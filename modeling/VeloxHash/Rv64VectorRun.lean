import VeloxHash.Rv64SuperscalarRun
import VeloxHash.Rv64VectorEmission

/-! The vector code of superscalar programs against the interpreter, lane by lane. -/

namespace VeloxHash.Rv64VectorRun

open CodeBuffer EncodedMachine RiscVMachine RiscVSuperscalar BytecodeMachine LiteralPool Randomx
  Superscalar WordArithmetic Rv64VectorCode Rv64VectorEmission
open JitCompilerRv64 (uimm limm signExtendWord_parts rotate_shifts)
open Rv64VectorHash (imulRcpLiterals literalsSize)
open SuperscalarGenerator (Entry SuperscalarProgram)

section Lanes

/-- The registers in one lane. -/
def lanes (k : Fin 4) (s : State) : Registers := fun r => s.v (vOf r) k

theorem vOf_injective : Function.Injective vOf := by decide

theorem vOf_ne (r : Fin 8) : vOf r ≠ 18 := by
  revert r
  decide

/-- What the vector code leaves alone: all but `x5` and the vector registers named. -/
structure LaneKeeps (vs : List Register) (s t : State) : Prop where
  x : ∀ r, r ≠ 5 → t.x r = s.x r
  v : ∀ r, r ∉ vs → t.v r = s.v r
  memory : t.memory = s.memory

variable {s t u : State} {vs ws : List Register}

theorem LaneKeeps.trans (h : LaneKeeps vs s t) (h' : LaneKeeps vs t u) : LaneKeeps vs s u :=
  ⟨fun r hr => (h'.x r hr).trans (h.x r hr), fun r hr => (h'.v r hr).trans (h.v r hr),
    h'.memory.trans h.memory⟩

theorem LaneKeeps.mono (h : LaneKeeps vs s t) (hsub : vs ⊆ ws) : LaneKeeps ws s t :=
  ⟨h.x, fun r hr => h.v r fun hmem => hr (hsub hmem), h.memory⟩

/-- A result in every lane of the target, and nothing else changed but the temporaries. -/
structure Assigns (dst : Fin 8) (f : Fin 4 → UInt64) (s t : State) : Prop where
  result : t.v (vOf dst) = f
  keeps : LaneKeeps [vOf dst, 18] s t

theorem Assigns.lanes_eq {dst : Fin 8} {f : Fin 4 → UInt64} (h : Assigns dst f s t) (k : Fin 4) :
    lanes k t = Function.update (lanes k s) dst (f k) := by
  funext r
  by_cases hr : r = dst
  · rw [hr, Function.update_self]
    exact congrFun h.result k
  · rw [Function.update_of_ne hr]
    refine congrFun (h.keeps.v _ ?_) k
    simp only [List.mem_cons, List.not_mem_nil, or_false, not_or]
    exact ⟨fun he => hr (vOf_injective he), vOf_ne r⟩

theorem Assigns.after {dst : Fin 8} {f : Fin 4 → UInt64} (h : Assigns dst f u t)
    (hkeeps : LaneKeeps [18] s u) : Assigns dst f s t :=
  ⟨h.result, (hkeeps.mono (by simp)).trans h.keeps⟩

end Lanes

section Operations

variable {s u : State} (dst src : Fin 8)

/-- A vector operation. -/
theorem lane_run (w : UInt32) (op : LaneOp) (vd vs2 : Register) (source : LaneSource) (s : State) :
    let t := processor.exec (wordOf w (.lane op vd vs2 source)) 4 s
    (t.v vd = fun k => op.apply (s.v vs2 k) (s.source k source)) ∧ LaneKeeps [vd] s t := by
  refine ⟨Function.update_self .., fun r _ => rfl, fun r hr => ?_, rfl⟩
  exact Function.update_of_ne (by simpa using hr) _ _

/-- A vector operation with the target as target. -/
theorem assigns_lane (w : UInt32) (op : LaneOp) (vs2 : Register) (source : LaneSource) (s : State) :
    Assigns dst (fun k => op.apply (s.v vs2 k) (s.source k source)) s
      (processor.exec (wordOf w (.lane op (vOf dst) vs2 source)) 4 s) := by
  obtain ⟨hv, hkeeps⟩ := lane_run w op (vOf dst) vs2 source s
  exact ⟨hv, hkeeps.mono (by simp)⟩

theorem lanes_keeps (h : LaneKeeps [18] s u) (r : Fin 8) : u.v (vOf r) = s.v (vOf r) :=
  h.v _ (by simpa using vOf_ne r)

/-- The shifts of `UInt64` take the count modulo the width themselves. -/
theorem shift_mod (a b : UInt64) : a <<< (b % 64) = a <<< b ∧ a >>> (b % 64) = a >>> b := by
  have hmod : (b % 64).toBitVec % 64 = b.toBitVec % 64 :=
    BitVec.eq_of_toNat_eq (Nat.mod_mod b.toNat 64)
  refine ⟨UInt64.toBitVec_inj.mp ?_, UInt64.toBitVec_inj.mp ?_⟩
  · rw [UInt64.toBitVec_shiftLeft, UInt64.toBitVec_shiftLeft, hmod]
  · rw [UInt64.toBitVec_shiftRight, UInt64.toBitVec_shiftRight, hmod]

/-- `li`: the temporary gets a small number. -/
theorem li_run (n : Nat) (s : State) :
    let t := processor.exec (li n) 4 s
    t.x 5 = .ofNat n ∧ LaneKeeps [] s t := by
  intro t
  have hx : t.x 5 = s.get 0 + .ofInt (n : Int) := Function.update_self 5 _ s.x
  have hn : UInt64.ofInt (n : Int) = .ofNat n := by
    apply UInt64.toNat.inj
    rw [JitCompilerRv64.toNat_ofInt64, UInt64.toNat_ofNat']
    omega
  refine ⟨?_, fun r hr => Function.update_of_ne hr _ _, fun _ _ => rfl, rfl⟩
  rw [hx, hn]
  exact UInt64.zero_add _

/-- An operation with a vector and the temporary, which holds `a`. -/
theorem assigns_scalar (w : UInt32) (op : LaneOp) {a : UInt64} (ha : u.x 5 = a)
    (hkeeps : LaneKeeps [18] s u) :
    Assigns dst (fun k => op.apply (lanes k s dst) a) s
      (processor.exec (wordOf w (.lane op (vOf dst) (vOf dst) (.scalar 5))) 4 u) := by
  have hassigns := assigns_lane dst w op (vOf dst) (.scalar 5) u
  have hget : u.get 5 = a := (u.get_of_ne_zero (by decide)).trans ha
  simp only [State.source, hget, lanes_keeps hkeeps dst] at hassigns
  exact hassigns.after hkeeps

/-- The shift with an immediate count, or the count in the temporary. -/
theorem shiftRight_run (n : Nat) (s : State) :
    let t := block processor Instr.bytes (shiftRightCode dst n) s
    (t.v 18 = fun k => lanes k s dst >>> .ofNat n) ∧ LaneKeeps [18] s t := by
  unfold shiftRightCode
  split
  · obtain ⟨hv, hkeeps⟩ := lane_run ((0xA2003957 : UInt32) ||| UInt32.ofNat n <<< 15 |||
      UInt32.ofNat dst <<< 20) .srl 18 (vOf dst) (.imm n) s
    refine ⟨hv.trans (funext fun k => ?_), hkeeps⟩
    exact (shift_mod _ _).2
  · obtain ⟨hx, hli⟩ := li_run n s
    obtain ⟨hv, hkeeps⟩ := lane_run ((0xA202C957 : UInt32) ||| UInt32.ofNat dst <<< 20) .srl 18
      (vOf dst) (.scalar 5) (processor.exec (li n) 4 s)
    refine ⟨hv.trans (funext fun k => ?_), (hli.mono (by simp)).trans hkeeps⟩
    rw [State.source, State.get_of_ne_zero _ (by decide), hx, hli.v _ (by simp)]
    exact (shift_mod _ _).2

theorem shiftLeft_run (n : Nat) (s : State) :
    let t := block processor Instr.bytes (shiftLeftCode dst n) s
    (t.v (vOf dst) = fun k => lanes k s dst <<< .ofNat n) ∧ LaneKeeps [vOf dst] s t := by
  unfold shiftLeftCode
  split
  · obtain ⟨hv, hkeeps⟩ := lane_run ((0x96003057 : UInt32) ||| UInt32.ofNat dst <<< 7 |||
      UInt32.ofNat n <<< 15 ||| UInt32.ofNat dst <<< 20) .sll (vOf dst) (vOf dst) (.imm n) s
    refine ⟨hv.trans (funext fun k => ?_), hkeeps⟩
    exact (shift_mod _ _).1
  · obtain ⟨hx, hli⟩ := li_run n s
    obtain ⟨hv, hkeeps⟩ := lane_run ((0x9602C057 : UInt32) ||| UInt32.ofNat dst <<< 7 |||
      UInt32.ofNat dst <<< 20) .sll (vOf dst) (vOf dst) (.scalar 5) (processor.exec (li n) 4 s)
    refine ⟨hv.trans (funext fun k => ?_), (hli.mono (by simp)).trans hkeeps⟩
    rw [State.source, State.get_of_ne_zero _ (by decide), hx, hli.v _ (by simp)]
    exact (shift_mod _ _).1

theorem rotation_assigns {imm : UInt32} (h : 1 ≤ imm.toNat ∧ imm.toNat ≤ 63) (s : State) :
    Assigns dst (fun k => rotr64 (lanes k s dst) imm.toNat) s
      (block processor Instr.bytes (rotationCode dst imm) s) := by
  obtain ⟨hright, hs⟩ := shiftRight_run dst (imm.toNat % 64) s
  rw [rotationCode, block_append, block_append]
  generalize block processor Instr.bytes (shiftRightCode dst (imm.toNat % 64)) s = u at *
  obtain ⟨hleft, hu⟩ := shiftLeft_run dst (64 - imm.toNat % 64) u
  generalize block processor Instr.bytes (shiftLeftCode dst (64 - imm.toNat % 64)) u = w at *
  have hor := assigns_lane dst ((0x2B200057 : UInt32) ||| UInt32.ofNat dst <<< 7 |||
    UInt32.ofNat dst <<< 15) .or 18 (.vector (vOf dst)) w
  have h18 : w.v 18 = u.v 18 := hu.v _ (by simpa using (vOf_ne dst).symm)
  refine ⟨hor.result.trans (funext fun k => ?_),
    ((hs.mono (by simp)).trans (hu.mono (by simp))).trans hor.keeps⟩
  have hmod : imm.toNat % 64 = imm.toNat := Nat.mod_eq_of_lt (by omega)
  have hcount : (64 - imm.toNat) % 64 = 64 - imm.toNat := Nat.mod_eq_of_lt (by omega)
  have hrotate := rotate_shifts (lanes k s dst) h
  rw [hcount] at hrotate
  rw [h18, hright, State.source, hleft, hmod]
  change lanes k s dst >>> .ofNat imm.toNat ||| u.v (vOf dst) k <<< .ofNat (64 - imm.toNat) = _
  rw [lanes_keeps hs dst, UInt64.or_comm, rotr64]
  exact hrotate

/-- The temporary gets the sign-extended constant. -/
theorem constant_run (imm : UInt32) (s : State) :
    let t := block processor Instr.bytes [luiCode imm, addiwCode imm] s
    t.x 5 = signExtend2sCompl imm ∧ LaneKeeps [] s t := by
  intro t
  let u : State := { s.set 5 (signExtendWord ((uimm imm % 2 ^ 20).toNat * 2 ^ 12)) with pc := s.pc + 4 }
  have ht : t = { u.set 5 (signExtendWord (u.get 5 + .ofInt (limm imm)).toNat) with
    pc := s.pc + 4 + 4 } := rfl
  have hu : u.get 5 = signExtendWord ((uimm imm % 2 ^ 20).toNat * 2 ^ 12) :=
    Function.update_self 5 _ s.x
  have hkept : ∀ r, r ≠ 5 → u.x r = s.x r := fun r hr => Function.update_of_ne hr _ s.x
  rw [ht, hu, signExtendWord_parts]
  exact ⟨Function.update_self 5 _ u.x,
    fun r hr => (Function.update_of_ne hr _ u.x).trans (hkept r hr), fun _ _ => rfl, rfl⟩

theorem constantCode_assigns (flags : UInt32) (op : LaneOp) (imm : UInt32) (s : State) :
    Assigns dst (fun k => op.apply (lanes k s dst) (signExtend2sCompl imm)) s
      (block processor Instr.bytes (constantCode flags op dst imm) s) := by
  obtain ⟨hx, hkeeps⟩ := constant_run imm s
  have hcode : constantCode flags op dst imm =
      [luiCode imm, addiwCode imm] ++ [withScalar flags op dst] := rfl
  rw [hcode, block_append]
  exact assigns_scalar dst _ op hx (hkeeps.mono (by simp))

theorem shiftedSum_assigns (modShift : Nat) (s : State) :
    Assigns dst (fun k => lanes k s dst + lanes k s src <<< .ofNat modShift) s
      (block processor Instr.bytes (shiftedSum modShift dst src) s) := by
  obtain ⟨hv, hkeeps⟩ := lane_run ((0x96003957 : UInt32) ||| UInt32.ofNat modShift <<< 15 |||
    UInt32.ofNat src <<< 20) .sll 18 (vOf src) (.imm modShift) s
  rw [shiftedSum, block_cons]
  change Assigns dst _ s (block processor Instr.bytes _ (processor.exec _ 4 s))
  generalize processor.exec _ 4 s = u at *
  have hadd := assigns_lane dst ((0x02090057 : UInt32) ||| UInt32.ofNat dst <<< 7 |||
    UInt32.ofNat dst <<< 20) .add (vOf dst) (.vector 18) u
  refine Assigns.after ⟨hadd.result.trans (funext fun k => ?_), hadd.keeps⟩ hkeeps
  rw [lanes_keeps hkeeps, State.source, hv]
  exact congrArg (s.v (vOf dst) k + ·) (shift_mod _ _).1

/-- What every instruction but `IMUL_RCP` does in every lane. -/
theorem instrCode_assigns (n : Nat) {e : Entry} {type : SuperscalarInstructionType} (s : State)
    (hvalid : Superscalar.Valid e.instruction) (htype : superscalarType e.instruction = some type)
    (hrcp : type ≠ .imulRcp) :
    Assigns e.instruction.dst (fun k => superscalarResult e.instruction
        (lanes k s e.instruction.dst) (lanes k s e.instruction.src) type) s
      (block processor Instr.bytes (instrCode n e type) s) := by
  cases type with
  | isubR => exact assigns_lane e.instruction.dst _ .sub _ (.vector (vOf e.instruction.src)) s
  | ixorR => exact assigns_lane e.instruction.dst _ .xor _ (.vector (vOf e.instruction.src)) s
  | imulR => exact assigns_lane e.instruction.dst _ .mul _ (.vector (vOf e.instruction.src)) s
  | imulhR => exact assigns_lane e.instruction.dst _ .mulhu _ (.vector (vOf e.instruction.src)) s
  | ismulhR => exact assigns_lane e.instruction.dst _ .mulh _ (.vector (vOf e.instruction.src)) s
  | iaddRs => exact shiftedSum_assigns _ _ _ s
  | irorC => exact rotation_assigns _ (hvalid.irorC htype) s
  | iaddC7 | iaddC8 | iaddC9 => exact constantCode_assigns e.instruction.dst _ .add e.imm32 s
  | ixorC7 | ixorC8 | ixorC9 => exact constantCode_assigns e.instruction.dst _ .xor e.imm32 s
  | imulRcp => exact absurd rfl hrcp

end Operations

section Literals

variable {buf n : Nat} {literals : List UInt64} {s t : State} {v : UInt64}

/-- Where `x15` points when `n` literals have been loaded. -/
def Pointed (buf n : Nat) (s : State) : Prop :=
  (s.x 15).toNat = buf + imulRcpLiterals + moved n

/-- What the table of literals needs of the addresses. -/
structure Fits (buf : Nat) (literals : List UInt64) : Prop where
  memory : buf + imulRcpLiterals + literalsSize ≤ 2 ^ 64
  room : literals.length ≤ literalsSize / 8

theorem moved_le (n : Nat) : moved (n + 1) ≤ 8 * n := by
  unfold moved
  omega

/-- The pointer moved on by an immediate. -/
theorem toNat_add_imm (hfits : Fits buf literals) (hn : n < literals.length) {a : UInt64} {k m : Nat}
    (ha : a.toNat = buf + imulRcpLiterals + k) (hle : k + m ≤ 8 * n) :
    (a + .ofInt (m : Int)).toNat = buf + imulRcpLiterals + (k + m) := by
  have hmemory : buf + 128 + 4096 ≤ 2 ^ 64 := hfits.memory
  have hroom : literals.length ≤ 512 := hfits.room
  have ha' : a.toNat = buf + 128 + k := ha
  change (a + .ofInt (m : Int)).toNat = buf + 128 + (k + m)
  rw [UInt64.toNat_add, JitCompilerRv64.toNat_ofInt64, ha']
  omega

/-- The move, if the next literal is out of reach. -/
theorem move_run (hfits : Fits buf literals) (hn : n < literals.length) (h : Pointed buf n s) :
    let t := block processor Instr.bytes (if 8 * n - moved n = 2040 then [moveCode] else []) s
    Pointed buf (n + 1) t ∧ t.v = s.v ∧ t.memory = s.memory := by
  have hnext := moved_succ n
  have hle := moved_le n
  by_cases heq : 8 * n - moved n = 2040
  · rw [if_pos heq] at hnext ⊢
    rw [hnext] at hle
    refine ⟨?_, rfl, rfl⟩
    change (Function.update s.x 15 (s.get 15 + .ofInt (2040 : Nat)) 15).toNat = _
    rw [Function.update_self, s.get_of_ne_zero (by decide), toNat_add_imm hfits hn h hle, hnext]
  · rw [if_neg heq] at hnext ⊢
    refine ⟨?_, rfl, rfl⟩
    rw [Pointed, hnext]
    exact h

/-- The load of the next literal. -/
theorem literalCode_run (hfits : Fits buf literals)
    (hheld : Holds (literalTable buf) s.memory 0 literals) (h : Pointed buf n s)
    (hv : literals[n]? = some v) :
    let t := block processor Instr.bytes (literalCode n) s
    t.x 5 = v ∧ Pointed buf (n + 1) t ∧ t.v = s.v ∧ t.memory = s.memory := by
  obtain ⟨hn, hget⟩ := List.getElem?_eq_some_iff.mp hv
  obtain ⟨hpointed, hregs, hmemory⟩ := move_run hfits hn h
  rw [literalCode, block_append]
  generalize block processor Instr.bytes _ s = u at *
  have hle := moved_le n
  have haddress : u.address 15 (8 * n - moved (n + 1) : Nat) = (literalTable buf).slot (0 + n) := by
    rw [State.address, u.get_of_ne_zero (by decide), toNat_add_imm hfits hn hpointed (by omega),
      Nat.add_sub_cancel' hle, Nat.zero_add]
    rfl
  have hload : u.load (u.address 15 (8 * n - moved (n + 1) : Nat)) = v := by
    rw [haddress, State.load, hmemory, hheld n hn, hget, ofNat_ofLe_le]
  exact ⟨(Function.update_self 5 _ u.x).trans hload, hpointed, hregs, hmemory⟩

end Literals

section Programs

variable {buf n : Nat} {literals : List UInt64} {s : State} {e : Entry}

theorem codeOf_encodes (n : Nat) (e : Entry) : ∀ i ∈ codeOf n e, processor.Encodes i.bytes i := by
  unfold codeOf
  cases e.opcode with
  | none => exact nofun
  | some type => exact instrCode_encodes n e type

/-- The multiplication behind a load. -/
theorem reciprocal_run (he : superscalarType e.instruction = some .imulRcp)
    (hfits : Fits buf literals) (hheld : Holds (literalTable buf) s.memory 0 literals)
    (h : Pointed buf n s) (hv : literals[n]? = some (randomxReciprocal e.imm32))
    (hread : read s.memory s.pc (assemble Instr.bytes (codeOf n e)).length =
      assemble Instr.bytes (codeOf n e)) :
    ∃ t, Computes lanes [e.instruction] s t ∧
      t.pc = s.pc + (assemble Instr.bytes (codeOf n e)).length ∧ Pointed buf (n + 1) t := by
  have hopcode : e.opcode = some .imulRcp := e.superscalarType_instruction.symm.trans he
  have hcode : codeOf n e = literalCode n ++ [withScalar 0x9602E057 .mul e.instruction.dst] := by
    rw [codeOf, hopcode]
    rfl
  have hencodes := codeOf_encodes n e
  have hstraight : ∀ i ∈ codeOf n e, processor.Straight i := fun i _ => straight i
  have hpc := @pc_block _ _ processor Instr.bytes s _ hstraight
  have hmemory := @memory_block _ _ processor Instr.bytes s _ hstraight
  rw [hcode] at hencodes hstraight hread hpc hmemory ⊢
  obtain ⟨hload, hmul, hlast⟩ := reaches_between hencodes hstraight hread
  obtain ⟨hx, hpointed, hregs, -⟩ := literalCode_run hfits hheld h hv
  rw [block_append] at hpc hmemory hmul
  generalize block processor Instr.bytes (literalCode n) s = u at *
  have hassigns := assigns_lane e.instruction.dst ((0x9602E057 : UInt32) |||
    UInt32.ofNat e.instruction.dst <<< 7 ||| UInt32.ofNat e.instruction.dst <<< 20) .mul
    (vOf e.instruction.dst) (.scalar 5) u
  have hget : u.get 5 = randomxReciprocal e.imm32 := (u.get_of_ne_zero (by decide)).trans hx
  have hlanes : ∀ k, lanes k u = lanes k s := fun k => funext fun r => by rw [lanes, hregs, lanes]
  refine ⟨_, computes_single (hload.trans hmul) hmemory (fun k => ?_) fun _ => ?_, hpc, ?_⟩
  · rw [executeInstruction_eq he, ← hlanes]
    refine (hassigns.lanes_eq k).trans (congrArg _ ?_)
    rw [State.source, hget]
    rfl
  · rw [assemble_singleton] at hlast
    exact ⟨u, hload, hmul, hlanes, _, _, _,
      decode_of_encodes (hencodes _ (List.mem_append_right _ (List.mem_singleton_self _))) hlast, rfl,
      hget⟩
  · exact (congrArg UInt64.toNat (hassigns.keeps.x 15 (by decide))).trans hpointed

/-- One instruction from memory. -/
theorem codeOf_run (he : e.Valid) (hfits : Fits buf literals)
    (hheld : Holds (literalTable buf) s.memory 0 literals) (h : Pointed buf n s)
    (hliteral : isRcp e.instruction = true → literals[n]? = some (randomxReciprocal e.imm32))
    (hread : read s.memory s.pc (assemble Instr.bytes (codeOf n e)).length =
      assemble Instr.bytes (codeOf n e)) :
    ∃ t, Computes lanes [e.instruction] s t ∧
      t.pc = s.pc + (assemble Instr.bytes (codeOf n e)).length ∧
      Pointed buf (n + (literalsOf e.instruction).length) t := by
  obtain ⟨type, htype⟩ := Option.isSome_iff_exists.mp he.instruction.known
  by_cases hrcp : type = .imulRcp
  · subst hrcp
    have hisRcp : isRcp e.instruction = true := decide_eq_true htype
    rw [literalsOf_rcp hisRcp]
    exact reciprocal_run htype hfits hheld h (hliteral hisRcp) hread
  · have hopcode : e.opcode = some type := e.superscalarType_instruction.symm.trans htype
    have hnone : literalsOf e.instruction = [] := by
      rw [literalsOf, isRcp, htype, if_neg (by simpa using hrcp)]
    have hassigns := instrCode_assigns n s he.instruction htype hrcp
    have hcode : codeOf n e = instrCode n e type := by rw [codeOf, hopcode, Option.elim_some]
    have hstraight : ∀ i ∈ codeOf n e, processor.Straight i := fun i _ => straight i
    rw [hnone]
    rw [← hcode] at hassigns
    refine ⟨_, computes_single (reaches_block (codeOf_encodes n e) hstraight hread)
      (memory_block hstraight) (fun k => ?_) (fun h => ?_), pc_block hstraight, ?_⟩
    · rw [executeInstruction_eq htype]
      exact hassigns.lanes_eq k
    · exact absurd (Option.some.inj (htype.symm.trans h)) hrcp
    · exact (congrArg UInt64.toNat (hassigns.keeps.x 15 (by decide))).trans h

/-- A program from memory, behind the literals `before`. -/
theorem programCode_run {before after : List UInt64} {entries : List Entry}
    (hvalid : ∀ e ∈ entries, e.Valid)
    (hliterals : literals = before ++ programLiterals (entries.map Entry.instruction) ++ after)
    (hfits : Fits buf literals) (hheld : Holds (literalTable buf) s.memory 0 literals)
    (h : Pointed buf before.length s)
    (hread : read s.memory s.pc (assemble Instr.bytes (programCode before.length entries)).length =
      assemble Instr.bytes (programCode before.length entries)) :
    ∃ t, Computes lanes (entries.map Entry.instruction) s t ∧
      t.pc = s.pc + (assemble Instr.bytes (programCode before.length entries)).length ∧
      Pointed buf (before.length + (programLiterals (entries.map Entry.instruction)).length) t := by
  induction entries generalizing before s with
  | nil => exact ⟨s, .nil s, rfl, h⟩
  | cons e rest ih =>
    rw [programCode, assemble_append] at hread ⊢
    obtain ⟨hfirst, hrest⟩ := read_append hread
    obtain ⟨u, hu, hupc, hupointed⟩ := codeOf_run (hvalid e List.mem_cons_self) hfits hheld h
      (fun hrcp => hliterals ▸ literal_head before after _ hrcp) hfirst
    rw [← hupc, ← hu.memory] at hrest
    rw [← List.length_append] at hupointed hrest
    obtain ⟨t, ht, htpc, htpointed⟩ := ih (fun e' he' => hvalid e' (List.mem_cons_of_mem _ he'))
      (by rw [hliterals, List.map_cons, programLiterals_cons]; simp only [List.append_assoc])
      (hu.memory.symm ▸ hheld) hupointed hrest
    refine ⟨t, hu.cons ht, ?_, ?_⟩
    · rw [htpc, hupc, List.length_append, List.length_append, Nat.add_assoc]
    · rw [List.map_cons, programLiterals_cons, List.length_append, ← Nat.add_assoc,
        ← List.length_append]
      exact htpointed

end Programs

end VeloxHash.Rv64VectorRun
