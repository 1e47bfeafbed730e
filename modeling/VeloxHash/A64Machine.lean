import VeloxHash.EncodedMachine
import VeloxHash.FinNumerals
import VeloxHash.WordArithmetic

/-! The A64 instructions on 64-bit registers that move constants, load literals, compute with two
registers and branch, decoded from words. -/

namespace VeloxHash.A64Machine

open CodeBuffer EncodedMachine WordArithmetic

abbrev Register := Fin 32

/-- `x 31` is never read. -/
structure State where
  x : Register → UInt64
  sp : UInt64
  memory : Memory
  pc : Nat

inductive RegisterOp
  | add | sub | eor
  deriving DecidableEq, Repr

inductive HighOp
  | smulh | umulh
  deriving DecidableEq, Repr

inductive WideOp
  | movn | movz | movk
  deriving DecidableEq, Repr

inductive Op
  /-- The second operand is shifted to the left. -/
  | register (op : RegisterOp) (rd rn rm : Register) (count : Nat)
  | addImm (rd rn : Register) (imm : Nat)
  | madd (rd rn rm ra : Register)
  | high (op : HighOp) (rd rn rm : Register)
  | extr (rd rn rm : Register) (lsb : Nat)
  | wide (op : WideOp) (rd : Register) (imm position : Nat)
  | ldrLiteral (rt : Register) (offset : Int)
  | b (offset : Int)
  deriving DecidableEq, Repr

section Semantics

def RegisterOp.apply : RegisterOp → UInt64 → UInt64 → UInt64
  | .add, a, b => a + b
  | .sub, a, b => a - b
  | .eor, a, b => a ^^^ b

def HighOp.apply : HighOp → UInt64 → UInt64 → UInt64
  | .smulh, a, b => highSigned a b
  | .umulh, a, b => WordArithmetic.high a b

/-- The sixteen bits at a position of a register. -/
def WideOp.apply (imm position : Nat) (old : UInt64) : WideOp → UInt64
  | .movn => ~~~.ofNat (imm * 2 ^ position)
  | .movz => .ofNat (imm * 2 ^ position)
  | .movk => .ofNat (old.toNat / 2 ^ (position + 16) * 2 ^ (position + 16) + imm * 2 ^ position +
      old.toNat % 2 ^ position)

/-- Bits from the second operand on, those of the first behind them. -/
def extract (a b : UInt64) (lsb : Nat) : UInt64 :=
  .ofNat ((a.toNat * 2 ^ 64 + b.toNat) / 2 ^ lsb)

namespace State

variable (s : State)

/-- The register 31 reads as zero, or as the stack pointer. -/
def get (r : Register) : UInt64 := if r = 31 then 0 else s.x r

def getSp (r : Register) : UInt64 := if r = 31 then s.sp else s.x r

def set (r : Register) (a : UInt64) : State :=
  if r = 31 then s else { s with x := Function.update s.x r a }

def setSp (r : Register) (a : UInt64) : State :=
  if r = 31 then { s with sp := a } else { s with x := Function.update s.x r a }

def load (a : Nat) : UInt64 := .ofNat (ofLe (read s.memory a 8))

def target (offset : Int) : Nat := (s.pc + offset).toNat

end State

/-- The effect of an instruction of `n` bytes, the program counter of `s` still on it. -/
def Op.apply (n : Nat) (s : State) : Op → State
  | .register op rd rn rm count =>
    { s.set rd (op.apply (s.get rn) (s.get rm <<< .ofNat count)) with pc := s.pc + n }
  | .addImm rd rn imm => { s.setSp rd (s.getSp rn + .ofNat imm) with pc := s.pc + n }
  | .madd rd rn rm ra => { s.set rd (s.get ra + s.get rn * s.get rm) with pc := s.pc + n }
  | .high op rd rn rm => { s.set rd (op.apply (s.get rn) (s.get rm)) with pc := s.pc + n }
  | .extr rd rn rm lsb => { s.set rd (extract (s.get rn) (s.get rm) lsb) with pc := s.pc + n }
  | .wide op rd imm position =>
    { s.set rd (op.apply imm position (s.get rd)) with pc := s.pc + n }
  | .ldrLiteral rt offset => { s.set rt (s.load (s.target offset)) with pc := s.pc + n }
  | .b offset => { s with pc := s.target offset }

end Semantics

section Decoding

/-- The register in the five bits from position `p` of a word. -/
def field (w p : Nat) : Register := .ofNat 32 (w / 2 ^ p % 32)

def decodeRegister (op : RegisterOp) (w : Nat) : Option Op :=
  if w / 2 ^ 21 % 8 = 0 then
    some (.register op (field w 0) (field w 5) (field w 16) (w / 2 ^ 10 % 64))
  else none

def decodeWide (op : WideOp) (w : Nat) : Option Op :=
  if w / 2 ^ 23 % 2 = 1 then
    some (.wide op (field w 0) (w / 2 ^ 5 % 2 ^ 16) (16 * (w / 2 ^ 21 % 4)))
  else none

def decodeProduct (w : Nat) : Option Op :=
  let rd := field w 0
  let rn := field w 5
  let rm := field w 16
  match w / 2 ^ 21 % 8, w / 2 ^ 15 % 2 with
  | 0, 0 => some (.madd rd rn rm (field w 10))
  | 2, 0 => some (.high .smulh rd rn rm)
  | 6, 0 => some (.high .umulh rd rn rm)
  | _, _ => none

def decodeWord (w : Nat) : Option Op :=
  if w / 2 ^ 26 = 0x05 then some (.b (signed 26 (w % 2 ^ 26) * 4))
  else match w / 2 ^ 24 with
    | 0x58 => some (.ldrLiteral (field w 0) (signed 19 (w / 2 ^ 5 % 2 ^ 19) * 4))
    | 0x8B => decodeRegister .add w
    | 0xCB => decodeRegister .sub w
    | 0xCA => decodeRegister .eor w
    | 0x91 =>
      if w / 2 ^ 23 % 2 = 0 then
        some (.addImm (field w 0) (field w 5)
          (w / 2 ^ 10 % 2 ^ 12 * if w / 2 ^ 22 % 2 = 1 then 2 ^ 12 else 1))
      else none
    | 0x92 => decodeWide .movn w
    | 0xD2 => decodeWide .movz w
    | 0xF2 => decodeWide .movk w
    | 0x93 =>
      if w / 2 ^ 21 % 8 = 6 then
        some (.extr (field w 0) (field w 5) (field w 16) (w / 2 ^ 10 % 64))
      else none
    | 0x9B => decodeProduct w
    | _ => none

def decode (bytes : List UInt8) : Option (UInt32 × Nat) :=
  match bytes with
  | b0 :: b1 :: b2 :: b3 :: _ =>
    let w := UInt32.ofNat (ofLe [b0, b1, b2, b3])
    (decodeWord w.toNat).map fun _ => (w, 4)
  | _ => none

end Decoding

def encode (w : UInt32) : List UInt8 := le w.toNat 4

/-- The instructions are their words. -/
def processor : Processor UInt32 State where
  window := 4
  decode := decode
  pc := State.pc
  memory := State.memory
  exec w n s := ((decodeWord w.toNat).map fun op => op.apply n s).getD s

section Straight

variable {w : UInt32} {op : Op}

@[simp] theorem length_encode (w : UInt32) : (encode w).length = 4 := length_le ..

theorem length_assemble (ws : List UInt32) : (assemble encode ws).length = 4 * ws.length := by
  induction ws with
  | nil => rfl
  | cons w ws ih => rw [assemble_cons, List.length_append, ih, length_encode, List.length_cons]; omega

theorem encodes (h : decodeWord w.toNat = some op) : processor.Encodes (encode w) w := by
  refine ⟨(length_encode w).le, fun rest => ?_⟩
  have hle : ofLe (le w.toNat 4) = w.toNat := by
    rw [ofLe_le]
    exact Nat.mod_eq_of_lt w.toNat_lt
  have hbytes : decode (encode w ++ rest) =
      (decodeWord (UInt32.ofNat (ofLe (le w.toNat 4))).toNat).map fun _ =>
        (UInt32.ofNat (ofLe (le w.toNat 4)), 4) := rfl
  rw [show processor.decode = decode from rfl, hbytes, hle, UInt32.ofNat_toNat, h, length_encode]
  rfl

/-- The instructions but the branch. -/
def Op.Plain : Op → Prop
  | .b _ => False
  | _ => True

theorem exec_eq (h : decodeWord w.toNat = some op) (n : Nat) (s : State) :
    processor.exec w n s = op.apply n s := by
  change ((decodeWord w.toNat).map _).getD s = _
  rw [h]
  rfl

@[simp] theorem pc_set (s : State) (r : Register) (a : UInt64) : (s.set r a).pc = s.pc := by
  unfold State.set
  split <;> rfl

@[simp] theorem memory_set (s : State) (r : Register) (a : UInt64) :
    (s.set r a).memory = s.memory := by
  unfold State.set
  split <;> rfl

@[simp] theorem memory_setSp (s : State) (r : Register) (a : UInt64) :
    (s.setSp r a).memory = s.memory := by
  unfold State.setSp
  split <;> rfl

theorem straight (h : decodeWord w.toNat = some op) (hop : op.Plain) : processor.Straight w where
  pc_exec n s := by
    rw [exec_eq h]
    cases op with
    | b => exact hop.elim
    | _ => rfl
  memory_exec n s := by
    rw [exec_eq h]
    cases op with
    | b => exact hop.elim
    | addImm rd rn imm => exact memory_setSp ..
    | _ => exact memory_set ..

end Straight

section Blocks

/-- Words that stand for operations without a branch. -/
structure Stands (ws : List UInt32) (ops : List Op) : Prop where
  decodes : ws.map (fun w => decodeWord w.toNat) = ops.map some
  plain : ∀ op ∈ ops, op.Plain

def runOps (ops : List Op) (s : State) : State := ops.foldl (fun s op => op.apply 4 s) s

theorem Stands.append {ws vs : List UInt32} {os ps : List Op} (h : Stands ws os) (k : Stands vs ps) :
    Stands (ws ++ vs) (os ++ ps) :=
  ⟨by rw [List.map_append, List.map_append, h.decodes, k.decodes],
    fun op hop => (List.mem_append.mp hop).elim (h.plain op) (k.plain op)⟩

theorem Stands.decode {ws : List UInt32} {ops : List Op} (h : Stands ws ops) {w : UInt32}
    (hw : w ∈ ws) : ∃ op ∈ ops, decodeWord w.toNat = some op := by
  have hmem : decodeWord w.toNat ∈ ops.map some :=
    h.decodes ▸ List.mem_map_of_mem (f := fun w : UInt32 => decodeWord w.toNat) hw
  obtain ⟨op, hop, heq⟩ := List.mem_map.mp hmem
  exact ⟨op, hop, heq.symm⟩

theorem Stands.block {ws : List UInt32} {ops : List Op} (h : Stands ws ops) (s : State) :
    block processor encode ws s = runOps ops s := by
  obtain ⟨h, -⟩ := h
  induction ws generalizing ops s with
  | nil =>
    rw [List.map_eq_nil_iff.mp h.symm]
    rfl
  | cons w ws ih =>
    obtain ⟨op, ops, rfl⟩ : ∃ op rest, ops = op :: rest := by
      cases ops with
      | nil => nomatch h
      | cons op rest => exact ⟨op, rest, rfl⟩
    obtain ⟨hw, hws⟩ := List.cons.inj h
    rw [block_cons, length_encode, exec_eq hw, ih _ hws]
    rfl

/-- Where the words lie at the program counter, their operations run. -/
theorem Stands.run {ws : List UInt32} {ops : List Op} (h : Stands ws ops) {s : State}
    (hread : read s.memory s.pc (assemble encode ws).length = assemble encode ws) :
    processor.Reaches s (runOps ops s) ∧ (runOps ops s).memory = s.memory ∧
      (runOps ops s).pc = s.pc + (assemble encode ws).length := by
  have hencodes : ∀ w ∈ ws, processor.Encodes (encode w) w := fun w hw =>
    let ⟨_, _, heq⟩ := h.decode hw
    encodes heq
  have hstraight : ∀ w ∈ ws, processor.Straight w := fun w hw =>
    let ⟨op, hop, heq⟩ := h.decode hw
    straight heq (h.plain op hop)
  rw [← h.block]
  exact ⟨reaches_block hencodes hstraight hread, memory_block hstraight, pc_block hstraight⟩

end Blocks

end VeloxHash.A64Machine
