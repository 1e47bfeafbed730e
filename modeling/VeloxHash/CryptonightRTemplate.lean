import VeloxHash.V4RandomMath
import VeloxHash.X86Machine

/-! The assembler templates of CryptoNight-R: for each operation and each pair of registers a few
x86-64 instructions, and the move that loads the count of a rotation. The variables are in `rbx`,
`rsi`, `rdi` and `rbp`, the constants in `rsp`, `r15`, `rax`, `rdx` and `r9`, of each the low half. -/

namespace VeloxHash.CryptonightRTemplate

open CodeBuffer EncodedMachine X86Machine V4RandomMath

section Machine

inductive WordOp
  | add | sub | xor | mov
  deriving DecidableEq, Repr

inductive Instr
  | word (op : WordOp) (dst src : Register)
  | imul (wide : Bool) (dst src : Register)
  | addImm (dst : Register) (imm : UInt32)
  /-- A rotation of the low half by `cl`. -/
  | rotate (left : Bool) (dst : Register)
  deriving DecidableEq, Repr

def rcx : Register := 1

def WordOp.apply : WordOp → UInt64 → UInt64 → UInt64
  | .add, a, b => a + b
  | .sub, a, b => a - b
  | .xor, a, b => a ^^^ b
  | .mov, _, b => b

/-- The processor masks the count to five bits. -/
def turned (left : Bool) (x : UInt32) (count : UInt8) : UInt32 :=
  if left then ⟨x.toBitVec.rotateLeft (count.toNat % 32)⟩
  else ⟨x.toBitVec.rotateRight (count.toNat % 32)⟩

/-- An operation on low halves clears the high half. -/
def Instr.apply (s : State) : Instr → State
  | .word op dst src => s.setGpr dst (op.apply (s.gpr dst) (s.gpr src))
  | .imul true dst src => s.setGpr dst (s.gpr dst * s.gpr src)
  | .imul false dst src =>
    s.setGpr dst ((s.gpr dst).toUInt32 * (s.gpr src).toUInt32).toUInt64
  | .addImm dst imm => s.setGpr dst (s.gpr dst + signExtend imm)
  | .rotate left dst =>
    s.setGpr dst (turned left (s.gpr dst).toUInt32 (s.gpr rcx).toUInt8).toUInt64

def wordOp (opcode : UInt8) : Option WordOp :=
  if opcode = 0x01 then some .add
  else if opcode = 0x29 then some .sub
  else if opcode = 0x31 then some .xor
  else if opcode = 0x89 then some .mov
  else none

/-- Behind a prefix of length `n` with the bits `W`, `R` and `B`, all clear where there is none. -/
def decodeOpcode (n : Nat) (w r b : Bool) : List UInt8 → Option (Instr × Nat)
  | 0x0F :: 0xAF :: m :: _ =>
    if top m = 3 then some (.imul w (register r (mid m)) (register b (bottom m)), n + 3) else none
  | 0x81 :: m :: i0 :: i1 :: i2 :: i3 :: _ =>
    if w ∧ top m = 3 ∧ mid m = 0 then
      some (.addImm (register b (bottom m)) (.ofNat (ofLe [i0, i1, i2, i3])), n + 6)
    else none
  | 0xD3 :: m :: _ =>
    if ¬w ∧ top m = 3 ∧ mid m ≤ 1 then
      some (.rotate (mid m == 0) (register b (bottom m)), n + 2)
    else none
  | opcode :: m :: _ =>
    if w ∧ top m = 3 then (wordOp opcode).map fun op =>
      (.word op (register b (bottom m)) (register r (mid m)), n + 2) else none
  | _ => none

def decode : List UInt8 → Option (Instr × Nat)
  | p :: rest =>
    if p.toNat / 16 = 4 then decodeOpcode 1 (bit p 3) (bit p 2) (bit p 0) rest
    else decodeOpcode 0 false false false (p :: rest)
  | [] => none

def processor : Processor Instr State where
  window := 15
  decode := decode
  pc := State.rip
  memory := State.memory
  exec i n s := i.apply { s with rip := s.rip + n }

def WordOp.code : WordOp → UInt8
  | .add => 0x01
  | .sub => 0x29
  | .xor => 0x31
  | .mov => 0x89

/-- The prefix of an operation on low halves, which the first eight registers do without. -/
def narrowPrefix (b : Register) : List UInt8 := if extended b then [0x41] else []

/-- The bytes that the assembler makes of an instruction. -/
def encode : Instr → List UInt8
  | .word op dst src => [rex src 0 dst, op.code, fields 3 src dst]
  | .imul true dst src => [rex dst 0 src, 0x0F, 0xAF, fields 3 dst src]
  | .imul false dst src => narrowPrefix src ++ [0x0F, 0xAF, fields 3 dst src]
  | .addImm dst imm => [rex 0 0 dst, 0x81, fields 3 0 dst] ++ le imm.toNat 4
  | .rotate left dst => narrowPrefix dst ++ [0xD3, fields 3 (if left then 0 else 1) dst]

/-- The prefix of the product of low halves extends only its source. -/
def Instr.Encodable : Instr → Prop
  | .imul false dst _ => extended dst = false
  | _ => True

end Machine

section Templates

def regOf : Nat → Register
  | 0 => 3
  | 1 => 6
  | 2 => 7
  | 3 => 5
  | 4 => 4
  | 5 => 15
  | 6 => 0
  | 7 => 2
  | _ => 9

/-- The code from the label of this number to the next. Three bits are the operation, two the
target and three the source; where they are one, `add`, `sub` and `xor` take `r9`. -/
def instruction (c : Nat) : List Instr :=
  let dst := regOf (c / 8 % 4)
  let src := regOf (c / 32)
  let operand := if c / 32 = c / 8 % 4 then regOf 8 else src
  match c % 8 with
  | 0 | 1 | 2 => [.imul true dst src]
  | 3 => [.word .add dst operand, .addImm dst 2147483647]
  | 4 => [.word .sub dst operand]
  | 5 => [.rotate false dst]
  | 6 => [.rotate true dst]
  | _ => [.word .xor dst operand]

def instructionMov (c : Nat) : List Instr :=
  match c % 8 with
  | 5 | 6 => [.word .mov rcx (regOf (c / 32))]
  | _ => []

end Templates

section RoundTrip

theorem straight (i : Instr) : processor.Straight i := by
  constructor <;> intro n s <;> rcases i with _ | ⟨wide, _, _⟩ | _ | _ <;>
    first | rfl | cases wide <;> rfl

theorem rex_prefix (r b : Register) :
    (rex r 0 b).toNat / 16 = 4 ∧ bit (rex r 0 b) 3 = true ∧ bit (rex r 0 b) 2 = extended r ∧
      bit (rex r 0 b) 0 = extended b := by
  unfold rex
  cases extended r <;> cases extended b <;> decide

theorem decode_rex (r b : Register) (rest : List UInt8) :
    decode (rex r 0 b :: rest) = decodeOpcode 1 true (extended r) (extended b) rest := by
  obtain ⟨h4, hw, hr, hb⟩ := rex_prefix r b
  simp only [decode, if_pos h4, hw, hr, hb]

theorem decode_narrow (b : Register) {opcode : UInt8} (h : ¬opcode.toNat / 16 = 4)
    (rest : List UInt8) :
    decode (narrowPrefix b ++ opcode :: rest) =
      decodeOpcode (narrowPrefix b).length false false (extended b) (opcode :: rest) := by
  unfold narrowPrefix
  cases hb : extended b with
  | false => simp [decode, h]
  | true =>
    simp only [if_true, List.cons_append, List.nil_append, decode]
    rfl

theorem decodeOpcode_addImm (n : Nat) (r b : Bool) (m : UInt8) (imm : UInt32) (rest : List UInt8) :
    decodeOpcode n true r b (0x81 :: m :: (le imm.toNat 4 ++ rest)) =
      if top m = 3 ∧ mid m = 0 then some (.addImm (register b (bottom m)) imm, n + 6) else none := by
  conv_rhs => rw [← ofLe_imm32 imm]
  simp [le, decodeOpcode]

/-- Every instruction decodes from its bytes, whatever follows them. -/
theorem encodes {i : Instr} (h : i.Encodable) : processor.Encodes (encode i) i := by
  have hnarrow (b : Register) : (narrowPrefix b).length ≤ 1 := by
    unfold narrowPrefix
    split <;> decide
  cases i with
  | word op dst src =>
    refine ⟨by simp [processor, encode], fun rest => ?_⟩
    cases op <;> simp [processor, encode, decode_rex, decodeOpcode, WordOp.code, wordOp]
  | imul wide dst src =>
    cases wide with
    | true =>
      refine ⟨by simp [processor, encode], fun rest => ?_⟩
      simp [processor, encode, decode_rex, decodeOpcode]
    | false =>
      refine ⟨by have := hnarrow src; simp [processor, encode]; omega, fun rest => ?_⟩
      have hdst : register false (dst.val % 8) = dst := by
        rw [← show extended dst = false from h, register_extended]
      simp [processor, encode, decode_narrow, decodeOpcode, hdst]
  | addImm dst imm =>
    refine ⟨by simp [processor, encode], fun rest => ?_⟩
    simp [processor, encode, decode_rex, decodeOpcode_addImm]
  | rotate left dst =>
    refine ⟨by have := hnarrow dst; simp [processor, encode]; omega, fun rest => ?_⟩
    cases left <;> simp [processor, encode, decode_narrow, decodeOpcode]

end RoundTrip

end VeloxHash.CryptonightRTemplate
