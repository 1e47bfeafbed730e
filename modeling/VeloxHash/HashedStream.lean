import VeloxHash.Checked

/-! A stream of bytes from a block that is hashed anew when too few of its bytes are left. The
hash is any function of the block and of the number of times it was taken. -/

namespace VeloxHash.HashedStream

open Checked

/-- `calls` counts how often the block was hashed anew. -/
structure Stream (n : Nat) where
  data : Table n UInt8
  dataIndex : Nat
  calls : Nat

variable {n : Nat}

section Draws

variable (hash : Nat → Table n UInt8 → Table n UInt8)

def checkData (bytesNeeded : Nat) (s : Stream n) : Stream n :=
  if n < s.dataIndex + bytesNeeded then ⟨hash s.calls s.data, 0, s.calls + 1⟩ else s

def nextByte (s : Stream n) : Option (UInt8 × Stream n) := do
  let s := checkData hash 1 s
  let c ← s.data.read s.dataIndex
  return (c, { s with dataIndex := s.dataIndex + 1 })

/-- Four bytes, the low one first. -/
def nextWord (s : Stream n) : Option (UInt32 × Stream n) := do
  let s := checkData hash 4 s
  let t0 ← s.data.read s.dataIndex
  let t1 ← s.data.read (s.dataIndex + 1)
  let t2 ← s.data.read (s.dataIndex + 2)
  let t3 ← s.data.read (s.dataIndex + 3)
  return (t0.toUInt32 ||| t1.toUInt32 <<< 8 ||| t2.toUInt32 <<< 16 ||| t3.toUInt32 <<< 24,
    { s with dataIndex := s.dataIndex + 4 })

end Draws

section Bounds

variable {hash : Nat → Table n UInt8 → Table n UInt8} {s : Stream n}

theorem checkData_index {k : Nat} (hk : k ≤ n) : (checkData hash k s).dataIndex + k ≤ n := by
  unfold checkData
  split
  · exact (Nat.zero_add k).symm ▸ hk
  · omega

theorem nextByte_spec (hn : 1 ≤ n) : Ensures (nextByte hash s) fun r => r.2.dataIndex ≤ n := by
  have hindex := @checkData_index n hash s 1 hn
  simp only [nextByte, ensures_bind, Table.ensures_read, ensures_pure]
  omega

theorem nextWord_spec (hn : 4 ≤ n) : Ensures (nextWord hash s) fun r => r.2.dataIndex ≤ n := by
  have hindex := @checkData_index n hash s 4 hn
  simp only [nextWord, ensures_bind, Table.ensures_read, ensures_pure]
  omega

/-- The streams that draws of bytes and words lead to. -/
inductive Reaches (hash : Nat → Table n UInt8 → Table n UInt8) (s : Stream n) : Stream n → Prop
  | start : Reaches hash s s
  | byte {t : Stream n} {r : UInt8 × Stream n} :
    Reaches hash s t → nextByte hash t = some r → Reaches hash s r.2
  | word {t : Stream n} {r : UInt32 × Stream n} :
    Reaches hash s t → nextWord hash t = some r → Reaches hash s r.2

theorem nextByte_reaches {t : Stream n} (hn : 1 ≤ n) (ht : Reaches hash s t) :
    Ensures (nextByte hash t) fun r => Reaches hash s r.2 := by
  obtain ⟨r, hr, -⟩ := @nextByte_spec n hash t hn
  exact ⟨r, hr, ht.byte hr⟩

theorem nextWord_reaches {t : Stream n} (hn : 4 ≤ n) (ht : Reaches hash s t) :
    Ensures (nextWord hash t) fun r => Reaches hash s r.2 := by
  obtain ⟨r, hr, -⟩ := @nextWord_spec n hash t hn
  exact ⟨r, hr, ht.word hr⟩

end Bounds

end VeloxHash.HashedStream
