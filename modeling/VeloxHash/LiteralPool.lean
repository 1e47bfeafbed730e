import VeloxHash.CodeBuffer

/-! Code that grows upwards while the constants it loads go into numbered slots below it.
What a piece of the emission leaves in memory, and how two pieces compose. -/

namespace VeloxHash.LiteralPool

open CodeBuffer

/-- Slots of eight bytes that do not meet, all of them below `base`. -/
structure Pool where
  slot : Nat → Nat
  limit : Nat
  base : Nat
  below : ∀ i < limit, slot i + 8 ≤ base
  apart : ∀ i < limit, ∀ j < limit, i ≠ j → slot i + 8 ≤ slot j ∨ slot j + 8 ≤ slot i

/-- Where the next code and the next constant go. -/
structure Cursor where
  memory : Memory
  position : Nat
  count : Nat

def Cursor.put (c : Cursor) (bytes : List UInt8) : Cursor where
  memory := write c.memory c.position bytes
  position := c.position + bytes.length
  count := c.count

theorem Cursor.put_put (c : Cursor) (xs ys : List UInt8) : (c.put xs).put ys = c.put (xs ++ ys) := by
  unfold Cursor.put
  dsimp only
  rw [write_append, List.length_append, Nat.add_assoc]

theorem Cursor.put_nil (c : Cursor) : c.put [] = c := by
  unfold Cursor.put
  rw [write_nil]
  rfl

variable {pool : Pool} {a b c : Cursor} {code code' : List UInt8} {literals literals' : List UInt64}

/-- The slots `m` holds from number `n` on. -/
def Holds (pool : Pool) (m : Memory) (n : Nat) (literals : List UInt64) : Prop :=
  ∀ i (h : i < literals.length), read m (pool.slot (n + i)) 8 = le literals[i].toNat 8

/-- From `a` to `b` the code was put down and the literals were filled in, and nothing else
below the code was touched. -/
structure Emitted (pool : Pool) (a b : Cursor) (code : List UInt8) (literals : List UInt64) : Prop where
  position : b.position = a.position + code.length
  count : b.count = a.count + literals.length
  code : read b.memory a.position code.length = code
  literals : Holds pool b.memory a.count literals
  kept : ∀ p n, p + n ≤ a.position →
    (∀ k, a.count ≤ k → k < b.count → p + n ≤ pool.slot k ∨ pool.slot k + 8 ≤ p) →
    read b.memory p n = read a.memory p n

theorem Emitted.refl (pool : Pool) (a : Cursor) : Emitted pool a a [] [] :=
  ⟨rfl, rfl, rfl, nofun, fun _ _ _ _ => rfl⟩

theorem emitted_put (pool : Pool) (a : Cursor) (bytes : List UInt8) :
    Emitted pool a (a.put bytes) bytes [] where
  position := rfl
  count := rfl
  code := (read_write_take le_rfl).trans (List.take_length ..)
  literals := nofun
  kept := fun _ _ hle _ => read_write_disjoint (.inl hle)

theorem emitted_literal (pool : Pool) (a : Cursor) (v : UInt64) :
    Emitted pool a ⟨write a.memory (pool.slot a.count) (le v.toNat 8), a.position, a.count + 1⟩
      [] [v] where
  position := rfl
  count := rfl
  code := rfl
  literals := by
    intro i hi
    obtain rfl : i = 0 := by simpa using hi
    refine (read_write_take (by simp)).trans ?_
    exact List.take_of_length_le (by simp)
  kept := by
    intro p n _ hapart
    refine read_write_disjoint ?_
    have := hapart a.count le_rfl (Nat.lt_succ_self _)
    rwa [length_le]

namespace Emitted

/-- The slots that a later piece fills lie apart from the code and the slots of an earlier one. -/
theorem append (h : Emitted pool a b code literals) (h' : Emitted pool b c code' literals')
    (hlimit : c.count ≤ pool.limit) (hbase : pool.base ≤ a.position) :
    Emitted pool a c (code ++ code') (literals ++ literals') where
  position := by rw [h'.position, h.position, List.length_append, Nat.add_assoc]
  count := by rw [h'.count, h.count, List.length_append, Nat.add_assoc]
  code := by
    have hkept : read c.memory a.position code.length = read b.memory a.position code.length := by
      refine h'.kept _ _ (by rw [h.position]) fun k _ hk => .inr ?_
      have := pool.below k (by omega)
      omega
    rw [List.length_append, read_add, hkept, h.code, ← h.position, h'.code]
  literals := by
    intro i hi
    have hcount := h.count
    have hcount' := h'.count
    have hposition := h.position
    by_cases hlt : i < literals.length
    · have hslot : read c.memory (pool.slot (a.count + i)) 8 =
          read b.memory (pool.slot (a.count + i)) 8 := by
        refine h'.kept _ _ ?_ fun k hk hk' => pool.apart _ (by omega) _ (by omega) (by omega)
        have := pool.below (a.count + i) (by omega)
        omega
      rw [hslot, List.getElem_append_left hlt, h.literals i hlt]
    · rw [List.length_append] at hi
      rw [List.getElem_append_right (by omega), ← h'.literals (i - literals.length) (by omega)]
      congr 2
      omega
  kept := by
    have hcount := h.count
    have hcount' := h'.count
    have hposition := h.position
    intro p n hle hapart
    rw [h'.kept p n (by omega) fun k hk hk' => hapart k (by omega) hk',
      h.kept p n hle fun k hk hk' => hapart k hk (by omega)]

/-- Bytes overwritten within the code just put down. -/
theorem patch (h : Emitted pool a b code literals) (o : Nat) (bytes : List UInt8)
    (ho : o + bytes.length ≤ code.length) (hlimit : b.count ≤ pool.limit)
    (hbase : pool.base ≤ a.position) :
    Emitted pool a { b with memory := write b.memory (a.position + o) bytes }
      (Splice.splice code o bytes) literals where
  position := by rw [Splice.length_splice ho, ← h.position]
  count := h.count
  code := by rw [Splice.length_splice ho, read_write_splice ho, h.code]
  literals := by
    intro i hi
    have hcount := h.count
    have := pool.below (a.count + i) (by omega)
    rw [← h.literals i hi]
    exact read_write_disjoint (.inl (by omega))
  kept := by
    intro p n hle hapart
    rw [← h.kept p n hle hapart]
    exact read_write_disjoint (.inl (by omega))

/-- A memory that is the same from `low` to the end of the code holds both. -/
theorem agree (h : Emitted pool a b code literals) {m : Memory} {low : Nat}
    (hslot : ∀ n < pool.limit, low ≤ pool.slot n) (hlow : low ≤ a.position)
    (hlimit : b.count ≤ pool.limit) (hbase : pool.base ≤ a.position)
    (hm : ∀ p, low ≤ p → p < b.position → m p = b.memory p) :
    read m a.position code.length = code ∧ Holds pool m a.count literals := by
  have hposition := h.position
  have hcount := h.count
  refine ⟨?_, fun i hi => ?_⟩
  · rw [read_congr fun p hp hlt => hm p (hlow.trans hp) (by omega)]
    exact h.code
  · have hbelow := pool.below (a.count + i) (by omega)
    have hle := hslot (a.count + i) (by omega)
    rw [read_congr fun p hp hlt => hm p (hle.trans hp) (by omega)]
    exact h.literals i hi

end Emitted

theorem Holds.tail {m : Memory} {n : Nat} {v : UInt64} (h : Holds pool m n (v :: literals)) :
    Holds pool m (n + 1) literals := by
  intro i hi
  have := h (i + 1) (by simpa using hi)
  rwa [List.getElem_cons_succ, show n + (i + 1) = n + 1 + i by omega] at this

theorem Holds.head {m : Memory} {n : Nat} {v : UInt64} (h : Holds pool m n (v :: literals)) :
    read m (pool.slot n) 8 = le v.toNat 8 := h 0 (by simp)

end VeloxHash.LiteralPool
