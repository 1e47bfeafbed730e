import Mathlib.Logic.Relation
import VeloxHash.CodeBuffer

/-! A processor that runs instructions from the bytes of its memory. The rule for
straight-line code: where an assembled block that stores nothing lies at the program
counter, running it from memory is running its instructions in order. -/

namespace VeloxHash.EncodedMachine

open CodeBuffer Relation

/-- `decode` gives the instruction at the head of the bytes and its length; an instruction
is at most `window` bytes long. -/
structure Processor (ι σ : Type*) where
  window : Nat
  decode : List UInt8 → Option (ι × Nat)
  pc : σ → Nat
  memory : σ → Memory
  exec : ι → Nat → σ → σ

variable {ι σ : Type*}

namespace Processor

variable (p : Processor ι σ)

def step (s : σ) : Option σ :=
  (p.decode (read (p.memory s) (p.pc s) p.window)).map fun (i, n) => p.exec i n s

def Reaches : σ → σ → Prop := ReflTransGen fun s t => p.step s = some t

/-- Whatever follows, the bytes decode to the instruction. -/
def Encodes (bytes : List UInt8) (i : ι) : Prop :=
  bytes.length ≤ p.window ∧ ∀ rest, p.decode (bytes ++ rest) = some (i, bytes.length)

/-- An instruction that stores nothing and goes on to the one behind it. -/
structure Straight (i : ι) : Prop where
  pc_exec : ∀ n s, p.pc (p.exec i n s) = p.pc s + n
  memory_exec : ∀ n s, p.memory (p.exec i n s) = p.memory s

end Processor

section Blocks

variable (p : Processor ι σ) (encode : ι → List UInt8)

def assemble (is : List ι) : List UInt8 := is.flatMap encode

/-- The instructions of a block one after the other. -/
def block (is : List ι) (s : σ) : σ := is.foldl (fun s i => p.exec i (encode i).length s) s

@[simp] theorem assemble_nil : assemble encode [] = [] := rfl

@[simp] theorem assemble_cons (i : ι) (is : List ι) :
    assemble encode (i :: is) = encode i ++ assemble encode is := rfl

theorem assemble_singleton (i : ι) : assemble encode [i] = encode i := by simp

@[simp] theorem assemble_append (is js : List ι) :
    assemble encode (is ++ js) = assemble encode is ++ assemble encode js := List.flatMap_append

@[simp] theorem block_nil (s : σ) : block p encode [] s = s := rfl

@[simp] theorem block_cons (i : ι) (is : List ι) (s : σ) :
    block p encode (i :: is) s =
      block p encode is (p.exec i (encode i).length s) := rfl

theorem block_append (is js : List ι) (s : σ) :
    block p encode (is ++ js) s = block p encode js (block p encode is s) :=
  List.foldl_append

end Blocks

variable {p : Processor ι σ} {encode : ι → List UInt8} {s : σ}

/-- What lies at the program counter is what the processor reads. -/
theorem decode_of_encodes {bytes : List UInt8} {i : ι} (h : p.Encodes bytes i)
    (hread : read (p.memory s) (p.pc s) bytes.length = bytes) :
    p.decode (read (p.memory s) (p.pc s) p.window) = some (i, bytes.length) := by
  have hwindow : read (p.memory s) (p.pc s) p.window =
      bytes ++ read (p.memory s) (p.pc s + bytes.length) (p.window - bytes.length) := by
    conv_lhs => rw [← Nat.add_sub_cancel' h.1, read_add, hread]
  rw [hwindow, h.2]

/-- One instruction whose bytes lie at the program counter. -/
theorem step_of_encodes {bytes : List UInt8} {i : ι} (h : p.Encodes bytes i)
    (hread : read (p.memory s) (p.pc s) bytes.length = bytes) :
    p.step s = some (p.exec i bytes.length s) := by
  rw [Processor.step, decode_of_encodes h hread, Option.map_some]

theorem pc_block {is : List ι} (hstraight : ∀ i ∈ is, p.Straight i) :
    p.pc (block p encode is s) = p.pc s + (assemble encode is).length := by
  induction is generalizing s with
  | nil => rfl
  | cons i is ih =>
    rw [block_cons, ih fun j hj => hstraight j (List.mem_cons_of_mem i hj),
      (hstraight i List.mem_cons_self).pc_exec, assemble_cons, List.length_append, Nat.add_assoc]

theorem memory_block {is : List ι} (hstraight : ∀ i ∈ is, p.Straight i) :
    p.memory (block p encode is s) = p.memory s := by
  induction is generalizing s with
  | nil => rfl
  | cons i is ih =>
    rw [block_cons, ih fun j hj => hstraight j (List.mem_cons_of_mem i hj),
      (hstraight i List.mem_cons_self).memory_exec]

/-- A window of memory that reads as two pieces reads as each of them. -/
theorem read_append {m : Memory} {xs ys : List UInt8} {a : Nat}
    (h : read m a (xs ++ ys).length = xs ++ ys) :
    read m a xs.length = xs ∧ read m (a + xs.length) ys.length = ys := by
  rw [List.length_append, read_add] at h
  exact List.append_inj h (length_read ..)

theorem reaches_block {is : List ι} (hencodes : ∀ i ∈ is, p.Encodes (encode i) i)
    (hstraight : ∀ i ∈ is, p.Straight i)
    (hread : read (p.memory s) (p.pc s) (assemble encode is).length = assemble encode is) :
    p.Reaches s (block p encode is s) := by
  induction is generalizing s with
  | nil => exact .refl
  | cons i is ih =>
    obtain ⟨hhead, htail⟩ := read_append hread
    have hi := hstraight i List.mem_cons_self
    refine .head (step_of_encodes (hencodes i List.mem_cons_self) hhead) ?_
    refine ih (fun j hj => hencodes j (List.mem_cons_of_mem i hj))
      (fun j hj => hstraight j (List.mem_cons_of_mem i hj)) ?_
    rw [hi.pc_exec, hi.memory_exec]
    exact htail

/-- Between two blocks that lie one behind the other. -/
theorem reaches_between {is js : List ι} (hencodes : ∀ i ∈ is ++ js, p.Encodes (encode i) i)
    (hstraight : ∀ i ∈ is ++ js, p.Straight i)
    (hread : read (p.memory s) (p.pc s) (assemble encode (is ++ js)).length =
      assemble encode (is ++ js)) :
    let t := block p encode is s
    p.Reaches s t ∧ p.Reaches t (block p encode (is ++ js) s) ∧
      read (p.memory t) (p.pc t) (assemble encode js).length = assemble encode js := by
  intro t
  have hfirst := fun i hi => hstraight i (List.mem_append_left js hi)
  have hsecond := fun j hj => hstraight j (List.mem_append_right is hj)
  rw [assemble_append] at hread
  obtain ⟨hhead, htail⟩ := read_append hread
  rw [← pc_block hfirst, ← memory_block hfirst] at htail
  refine ⟨reaches_block (fun i hi => hencodes i (List.mem_append_left js hi)) hfirst hhead, ?_, htail⟩
  rw [block_append]
  exact reaches_block (fun j hj => hencodes j (List.mem_append_right is hj)) hsecond htail

section Sequences

/-- A piece of code, the places it starts and ends at, and what it was made of. -/
structure Piece (α : Type*) where
  start : Nat
  stop : Nat
  source : α

/-- Each piece in its turn takes a state to one that it computes. Between two pieces the state may
become any other one that `between` allows. -/
def Sequence {α : Type*} (p : Processor ι σ) (computes : α → σ → σ → Prop) (between : σ → σ → Prop) :
    List (Piece α) → σ → Prop
  | [], _ => True
  | piece :: rest, s =>
    p.pc s = piece.start → ∃ t, p.Reaches s t ∧ p.pc t = piece.stop ∧ computes piece.source s t ∧
      ∀ u, between t u → Sequence p computes between rest u

end Sequences

end VeloxHash.EncodedMachine
