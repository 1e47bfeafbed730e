import VeloxHash.EncodedMachine
import VeloxHash.FinNumerals
import VeloxHash.WordArithmetic

/-! RV64 instructions on integer registers, with some of the extensions M, Zba and Zbb, the load of
a doubleword, and the vector instructions on 64-bit elements, decoded from words and from the half
words of the compressed extension. -/

namespace VeloxHash.RiscVMachine

open CodeBuffer EncodedMachine WordArithmetic

abbrev Register := Fin 32

/-- `v` has four elements of 64 bits; `x 0` is never read. -/
structure State where
  x : Register → UInt64
  v : Register → Fin 4 → UInt64
  memory : Memory
  pc : Nat

inductive AluOp
  | add | sub | xor | or | and | mul | mulh | mulhu | sh1add | sh2add | sh3add
  deriving DecidableEq, Repr

inductive ShiftOp
  | slli | srli | rori
  deriving DecidableEq, Repr

inductive LaneOp
  | add | sub | or | xor | sll | srl | mul | mulh | mulhu
  deriving DecidableEq, Repr

/-- The second operand of a vector instruction. -/
inductive LaneSource
  | vector (r : Register)
  | scalar (r : Register)
  | imm (n : Nat)
  deriving DecidableEq, Repr

inductive Op
  /-- `lui`: the upper twenty bits. -/
  | lui (rd : Register) (imm : Nat)
  | addi (rd rs1 : Register) (imm : Int)
  | addiw (rd rs1 : Register) (imm : Int)
  | shift (op : ShiftOp) (rd rs1 : Register) (count : Nat)
  | alu (op : AluOp) (rd rs1 rs2 : Register)
  | ld (rd rs1 : Register) (imm : Int)
  | lane (op : LaneOp) (vd vs2 : Register) (source : LaneSource)
  deriving DecidableEq, Repr

/-- An instruction with the bytes it was read from. -/
structure Instr where
  bytes : List UInt8
  op : Op
  deriving DecidableEq, Repr

section Semantics

def signExtendWord (n : Nat) : UInt64 := .ofInt (signed 32 (n % 2 ^ 32))

def AluOp.apply : AluOp → UInt64 → UInt64 → UInt64
  | .add, a, b => a + b
  | .sub, a, b => a - b
  | .xor, a, b => a ^^^ b
  | .or, a, b => a ||| b
  | .and, a, b => a &&& b
  | .mul, a, b => a * b
  | .mulh, a, b => highSigned a b
  | .mulhu, a, b => high a b
  | .sh1add, a, b => a <<< 1 + b
  | .sh2add, a, b => a <<< 2 + b
  | .sh3add, a, b => a <<< 3 + b

def ShiftOp.apply : ShiftOp → UInt64 → Nat → UInt64
  | .slli, a, n => a <<< .ofNat n
  | .srli, a, n => a >>> .ofNat n
  | .rori, a, n => ⟨a.toBitVec.rotateRight n⟩

def LaneOp.apply : LaneOp → UInt64 → UInt64 → UInt64
  | .add, a, b => a + b
  | .sub, a, b => a - b
  | .or, a, b => a ||| b
  | .xor, a, b => a ^^^ b
  | .sll, a, b => a <<< (b % 64)
  | .srl, a, b => a >>> (b % 64)
  | .mul, a, b => a * b
  | .mulh, a, b => highSigned a b
  | .mulhu, a, b => high a b

namespace State

variable (s : State)

/-- `x0` reads as zero. -/
def get (r : Register) : UInt64 := if r = 0 then 0 else s.x r

def set (r : Register) (a : UInt64) : State := { s with x := Function.update s.x r a }

def address (rs1 : Register) (imm : Int) : Nat := (s.get rs1 + .ofInt imm).toNat

def load (a : Nat) : UInt64 := .ofNat (ofLe (read s.memory a 8))

def source (k : Fin 4) : LaneSource → UInt64
  | .vector r => s.v r k
  | .scalar r => s.get r
  | .imm n => .ofNat n

theorem get_of_ne_zero {r : Register} (h : r ≠ 0) : s.get r = s.x r := if_neg h

end State

/-- The effect of an instruction of `n` bytes, the program counter of `s` still on it. -/
def Op.apply (n : Nat) (s : State) : Op → State
  | .lui rd imm => { s.set rd (signExtendWord (imm * 2 ^ 12)) with pc := s.pc + n }
  | .addi rd rs1 imm => { s.set rd (s.get rs1 + .ofInt imm) with pc := s.pc + n }
  | .addiw rd rs1 imm =>
    { s.set rd (signExtendWord (s.get rs1 + .ofInt imm).toNat) with pc := s.pc + n }
  | .shift op rd rs1 count => { s.set rd (op.apply (s.get rs1) count) with pc := s.pc + n }
  | .alu op rd rs1 rs2 => { s.set rd (op.apply (s.get rs1) (s.get rs2)) with pc := s.pc + n }
  | .ld rd rs1 imm => { s.set rd (s.load (s.address rs1 imm)) with pc := s.pc + n }
  | .lane op vd vs2 source =>
    { s with
      v := Function.update s.v vd fun k => op.apply (s.v vs2 k) (s.source k source)
      pc := s.pc + n }

end Semantics

section Decoding

/-- The register in the five bits from position `p` of a word. -/
def regField (w p : Nat) : Register := .ofNat 32 (w / 2 ^ p % 32)

/-- The compressed register in the three bits from position `p`. -/
def field3 (w p : Nat) : Register := .ofNat 32 (w / 2 ^ p % 8 + 8)

def funct3 (w : Nat) : Nat := w / 2 ^ 12 % 8
def funct7 (w : Nat) : Nat := w / 2 ^ 25

/-- The signed immediate of a load and of an operation with an immediate. -/
def immI (w : Nat) : Int := signed 12 (w / 2 ^ 20)

def aluOp : Nat → Nat → Option AluOp
  | 0x00, 0 => some .add
  | 0x20, 0 => some .sub
  | 0x00, 4 => some .xor
  | 0x00, 6 => some .or
  | 0x00, 7 => some .and
  | 0x01, 0 => some .mul
  | 0x01, 1 => some .mulh
  | 0x01, 3 => some .mulhu
  | 0x10, 2 => some .sh1add
  | 0x10, 4 => some .sh2add
  | 0x10, 6 => some .sh3add
  | _, _ => none

def shiftOp : Nat → Nat → Option ShiftOp
  | 0x00, 1 => some .slli
  | 0x00, 5 => some .srli
  | 0x18, 5 => some .rori
  | _, _ => none

/-- The integer operations of the vector extension by `funct6`, of the two groups. -/
def laneOp : Bool → Nat → Option LaneOp
  | false, 0x00 => some .add
  | false, 0x02 => some .sub
  | false, 0x0A => some .or
  | false, 0x0B => some .xor
  | false, 0x25 => some .sll
  | false, 0x28 => some .srl
  | true, 0x24 => some .mulhu
  | true, 0x25 => some .mul
  | true, 0x27 => some .mulh
  | _, _ => none

/-- Unmasked vector operations; an immediate that is not a shift count is signed, and only
shift counts occur here. -/
def decodeLane (w : Nat) : Option Op :=
  if w / 2 ^ 25 % 2 = 1 then
    let rs1 := regField w 15
    let group := funct3 w
    let source : Option LaneSource :=
      if group = 0 ∨ group = 2 then some (.vector rs1)
      else if group = 3 then some (.imm rs1)
      else if group = 4 ∨ group = 6 then some (.scalar rs1)
      else none
    source.bind fun source =>
      (laneOp (group = 2 ∨ group = 6) (w / 2 ^ 26)).bind fun op =>
        if group = 3 ∧ op ≠ .sll ∧ op ≠ .srl then none
        else some (.lane op (regField w 7) (regField w 20) source)
  else none

def decodeWord (w : Nat) : Option Op :=
  let rd := regField w 7
  let rs1 := regField w 15
  let rs2 := regField w 20
  match w % 128, funct3 w with
  | 0x37, _ => some (.lui rd (w / 2 ^ 12))
  | 0x13, 0 => some (.addi rd rs1 (immI w))
  | 0x13, n => (shiftOp (w / 2 ^ 26) n).map fun op => .shift op rd rs1 (w / 2 ^ 20 % 64)
  | 0x1b, 0 => some (.addiw rd rs1 (immI w))
  | 0x33, n => (aluOp (funct7 w) n).map fun op => .alu op rd rs1 rs2
  | 0x03, 3 => some (.ld rd rs1 (immI w))
  | 0x57, _ => decodeLane w
  | _, _ => none

/-- The operations of two compressed registers. -/
def compressedOp : Nat → AluOp
  | 0 => .sub
  | 1 => .xor
  | 2 => .or
  | _ => .and

def decodeHalf (w : Nat) : Option Op :=
  let rd := regField w 7
  let rs2 := regField w 2
  let imm6 := w / 2 ^ 12 % 2 * 2 ^ 5 + w / 2 ^ 2 % 32
  match w % 4, w / 2 ^ 13 with
  | 1, 3 =>
    if rd ≠ 0 ∧ rd ≠ 2 ∧ imm6 ≠ 0 then
      some (.lui rd (if imm6 < 32 then imm6 else imm6 + (2 ^ 20 - 2 ^ 6)))
    else none
  | 1, 4 =>
    if w / 2 ^ 10 % 8 = 3 then
      some (.alu (compressedOp (w / 2 ^ 5 % 4)) (field3 w 7) (field3 w 7) (field3 w 2))
    else none
  | 2, 0 => if rd ≠ 0 then some (.shift .slli rd rd imm6) else none
  | 2, 4 =>
    if rd ≠ 0 ∧ rs2 ≠ 0 then
      some (.alu .add rd (if w / 2 ^ 12 % 2 = 0 then 0 else rd) rs2)
    else none
  | _, _ => none

def decodeOp : List UInt8 → Option (Op × Nat)
  | b0 :: b1 :: rest =>
    if b0.toNat % 4 = 3 then
      match rest with
      | b2 :: b3 :: _ => (decodeWord (ofLe [b0, b1, b2, b3])).map fun op => (op, 4)
      | _ => none
    else (decodeHalf (ofLe [b0, b1])).map fun op => (op, 2)
  | _ => none

def decode (bytes : List UInt8) : Option (Instr × Nat) :=
  (decodeOp bytes).map fun (op, n) => (⟨bytes.take n, op⟩, n)

end Decoding

def processor : Processor Instr State where
  window := 4
  decode := decode
  pc := State.pc
  memory := State.memory
  exec i n s := i.op.apply n s

section Encoding

/-- The instruction of a 32-bit word. -/
def wordOf (w : UInt32) (op : Op) : Instr := ⟨le w.toNat 4, op⟩

/-- The instruction of a half word. -/
def halfOf (w : UInt16) (op : Op) : Instr := ⟨le w.toNat 2, op⟩

variable {op : Op}

/-- The two low bits tell a word from a half word. -/
theorem low_of_decodeWord {w : Nat} (h : decodeWord w = some op) : w % 4 = 3 := by
  unfold decodeWord at h
  dsimp only at h
  split at h
  all_goals first | omega | exact absurd h (by simp)

theorem low_of_decodeHalf {w : Nat} (h : decodeHalf w = some op) : w % 4 ≠ 3 := by
  unfold decodeHalf at h
  dsimp only at h
  split at h
  all_goals first | omega | exact absurd h (by simp)

theorem encodes_word {w : UInt32} (h : decodeWord w.toNat = some op) :
    processor.Encodes (wordOf w op).bytes (wordOf w op) := by
  have hlow := low_of_decodeWord h
  refine ⟨by simp [processor, wordOf], fun rest => ?_⟩
  have hle : ofLe (le w.toNat 4) = w.toNat := by
    rw [ofLe_le]
    exact Nat.mod_eq_of_lt w.toNat_lt
  have hbyte : (UInt8.ofNat w.toNat).toNat % 4 = 3 := by
    rw [UInt8.toNat_ofNat']
    omega
  have hop : decodeOp (le w.toNat 4 ++ rest) = some (op, 4) := by
    have hcases : decodeOp (le w.toNat 4 ++ rest) =
        (decodeWord (ofLe (le w.toNat 4))).map fun op => (op, 4) := if_pos hbyte
    rw [hcases, hle, h, Option.map_some]
  simp [processor, decode, wordOf, hop]

theorem encodes_half {w : UInt16} (h : decodeHalf w.toNat = some op) :
    processor.Encodes (halfOf w op).bytes (halfOf w op) := by
  have hlow := low_of_decodeHalf h
  refine ⟨by simp [processor, halfOf], fun rest => ?_⟩
  have hle : ofLe (le w.toNat 2) = w.toNat := by
    rw [ofLe_le]
    exact Nat.mod_eq_of_lt w.toNat_lt
  have hbyte : ¬(UInt8.ofNat w.toNat).toNat % 4 = 3 := by
    rw [UInt8.toNat_ofNat']
    omega
  have hop : decodeOp (le w.toNat 2 ++ rest) = some (op, 2) := by
    have hcases : decodeOp (le w.toNat 2 ++ rest) =
        (decodeHalf (ofLe (le w.toNat 2))).map fun op => (op, 2) := if_neg hbyte
    rw [hcases, hle, h, Option.map_some]
  simp [processor, decode, halfOf, hop]

theorem straight (i : Instr) : processor.Straight i := by
  obtain ⟨bytes, op⟩ := i
  cases op <;> exact ⟨fun _ _ => rfl, fun _ _ => rfl⟩

/-- The fields of a word put together from them. -/
theorem fields_of_word {w hi rs1 f3 rd opcode : Nat}
    (hw : w = hi * 2 ^ 20 + rs1 * 2 ^ 15 + f3 * 2 ^ 12 + rd * 2 ^ 7 + opcode) (hrs1 : rs1 < 32)
    (hf3 : f3 < 8) (hrd : rd < 32) (hopcode : opcode < 128) :
    w % 128 = opcode ∧ funct3 w = f3 ∧ regField w 7 = .ofNat 32 rd ∧ regField w 15 = .ofNat 32 rs1 ∧
      w / 2 ^ 20 = hi := by
  have h7 : w / 2 ^ 7 % 32 = rd := by omega
  have h15 : w / 2 ^ 15 % 32 = rs1 := by omega
  refine ⟨by omega, by unfold funct3; omega, ?_, ?_, by omega⟩
  · rw [regField, h7]
  · rw [regField, h15]

end Encoding

/-- What a piece of code leaves alone: every register but those named, and the memory. -/
structure Keeps (rs : List Register) (s t : State) : Prop where
  x : ∀ r, r ∉ rs → t.x r = s.x r
  v : t.v = s.v
  memory : t.memory = s.memory

theorem Keeps.refl (rs : List Register) (s : State) : Keeps rs s s := ⟨fun _ _ => rfl, rfl, rfl⟩

theorem Keeps.trans {rs : List Register} {s t u : State} (h : Keeps rs s t) (h' : Keeps rs t u) :
    Keeps rs s u :=
  ⟨fun r hr => (h'.x r hr).trans (h.x r hr), h'.v.trans h.v, h'.memory.trans h.memory⟩

theorem Keeps.mono {rs rs' : List Register} {s t : State} (h : Keeps rs s t) (hsub : rs ⊆ rs') :
    Keeps rs' s t :=
  ⟨fun r hr => h.x r fun hmem => hr (hsub hmem), h.v, h.memory⟩

/-- The operations that write one integer register. -/
theorem keeps_set (rs : List Register) (s : State) {r : Register} (hr : r ∈ rs) (a : UInt64)
    (pc : Nat) : Keeps rs s { s.set r a with pc := pc } :=
  ⟨fun _ h => Function.update_of_ne (fun e => h (by rw [e]; exact hr)) _ _, rfl, rfl⟩

end VeloxHash.RiscVMachine
