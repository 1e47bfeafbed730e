import VeloxHash.BlobReader

/-! What the reads of a `BlobReader` come to, inside the blob and past its end. -/

namespace VeloxHash

/-- The low seven bits of the bytes of a varint, each group at its shift. -/
def Varint.word (shift : UInt64) : List UInt8 → UInt64
  | [] => 0
  | t :: rest =>
    (t &&& 0x7f).toUInt64 <<< shift |||
      (if t &&& 0x80 = 0 then 0 else Varint.word (shift + 7) rest)

namespace ReaderProgram

variable {ω α β : Type} {env : Env} {p : Prog ω α} {f : α → Prog ω β}

theorem run_bind_ok {a : α} {checks : List Jump} {events : List ω}
    (h : p.run env = ⟨.ok a, checks, events⟩) : (p >>= f).run env =
      ⟨((f a).run env).outcome, checks ++ ((f a).run env).checks,
        events ++ ((f a).run env).events⟩ := by
  rw [run_bind, h]
  rfl

theorem run_bind_stopped {reason : Stop} {checks : List Jump} {events : List ω}
    (h : p.run env = ⟨.stopped reason, checks, events⟩) :
    (p >>= f).run env = ⟨.stopped reason, checks, events⟩ := by
  rw [run_bind, h]
  rfl

end ReaderProgram

namespace BlobReader

open ReaderProgram

variable {ω : Type} {data size : Nat} {memory : List UInt8} {allocates : Nat → Bool}

/-- The check of a read of `n` bytes. -/
def jump (ar : BlobReader data size) (n : UInt64) : Jump :=
  ⟨data, size, ar.index, n, 0, ar.index_le, ar.size_lt⟩

theorem run_advance (ar : BlobReader data size) {n : UInt64}
    (h : (ar.index + n.toNat) % 2 ^ 64 ≤ size) :
    (ar.advance n 0 : Prog ω _).run (machine memory allocates) =
      ⟨.ok ⟨(ar.index + n.toNat) % 2 ^ 64, h, ar.size_lt⟩, [ar.jump n], []⟩ := by
  have hallowed : ¬ (machine memory allocates).refuses (ar.jump n) = true := Bool.false_ne_true
  exact (if_neg hallowed).trans (dif_pos h)

theorem run_advance_past (ar : BlobReader data size) {n : UInt64}
    (h : size < (ar.index + n.toNat) % 2 ^ 64) :
    (ar.advance n 0 : Prog ω _).run (machine memory allocates) = ⟨.stopped .outOfRange, [], []⟩ := by
  have hallowed : ¬ (machine memory allocates).refuses (ar.jump n) = true := Bool.false_ne_true
  exact (if_neg hallowed).trans (dif_neg (Nat.not_le.mpr h))

theorem run_array (ar : BlobReader data size) {n : UInt64} (hin : data + size ≤ memory.length)
    (h : ar.index + n.toNat ≤ size) :
    (ar.array n : Prog ω _).run (machine memory allocates) =
      ⟨.ok (Splice.slice memory (data + ar.index) n.toNat, ⟨ar.index + n.toNat, h, ar.size_lt⟩),
        [ar.jump n], []⟩ := by
  have hsize := ar.size_lt
  have hmod : (ar.index + n.toNat) % 2 ^ 64 = ar.index + n.toNat := Nat.mod_eq_of_lt (by omega)
  have hload : data + ar.index + n.toNat ≤ memory.length := by omega
  refine (run_bind_ok (run_advance ar (hmod.trans_le h))).trans ?_
  rw [run_bind]
  have hread : (Prog.load (data + ar.index) n.toNat .pure : Prog ω _).run (machine memory allocates) =
      ⟨.ok (Splice.slice memory (data + ar.index) n.toNat), [], []⟩ := if_pos hload
  rw [hread]
  simp only [Run.bind, run_pure, hmod, List.append_nil]

theorem run_array_past (ar : BlobReader data size) {n : UInt64} (hsmall : size + n.toNat < 2 ^ 64)
    (h : size < ar.index + n.toNat) :
    (ar.array n : Prog ω _).run (machine memory allocates) = ⟨.stopped .outOfRange, [], []⟩ := by
  have hindex := ar.index_le
  have hmod : (ar.index + n.toNat) % 2 ^ 64 = ar.index + n.toNat := Nat.mod_eq_of_lt (by omega)
  exact run_bind_stopped (run_advance_past ar (h.trans_eq hmod.symm))

theorem run_getByte_eq (ar : BlobReader data size) {t : UInt8} {rest : List UInt8}
    (hin : data + size ≤ memory.length) (hindex : ar.index < size)
    (hdrop : memory.drop (data + ar.index) = t :: rest) :
    (ar.getByte : Prog ω _).run (machine memory allocates) =
      ⟨.ok (t, ⟨ar.index + 1, hindex, ar.size_lt⟩), [], []⟩ := by
  have hload : data + ar.index + 1 ≤ (machine memory allocates).memory.length := by
    change data + ar.index + 1 ≤ memory.length
    omega
  unfold getByte
  rw [dif_neg (Nat.not_le.mpr hindex), Prog.run, if_pos hload]
  have hslice : Splice.slice memory (data + ar.index) 1 = [t] := by
    rw [Splice.slice, hdrop]
    rfl
  change (Prog.pure ((Splice.slice memory (data + ar.index) 1).headD 0, _)).run _ = _
  rw [hslice]
  rfl

theorem run_getVarintLoop (left : Nat) (ar : BlobReader data size) (shift result : UInt64)
    (hin : data + size ≤ memory.length) (hleft : ar.index + left = size)
    (hend : Varint.size (memory.drop (data + ar.index)) ≤ left) :
    ∃ h, (getVarintLoop left ar shift result : Prog ω _).run (machine memory allocates) =
      ⟨.ok (result ||| Varint.word shift (memory.drop (data + ar.index)),
        ⟨ar.index + Varint.size (memory.drop (data + ar.index)), h, ar.size_lt⟩), [], []⟩ := by
  have hlast : ar.index + Varint.size (memory.drop (data + ar.index)) ≤ size := by omega
  refine ⟨hlast, ?_⟩
  induction left generalizing ar shift result with
  | zero =>
    have hpos := Varint.size_pos (memory.drop (data + ar.index))
    omega
  | succ left ih =>
    have hindex : ar.index < size := by omega
    obtain ⟨t, rest, hdrop⟩ : ∃ t rest, memory.drop (data + ar.index) = t :: rest :=
      ⟨_, _, List.drop_eq_getElem_cons (by omega)⟩
    have hrest : memory.drop (data + (ar.index + 1)) = rest := by
      rw [← Nat.add_assoc, ← List.drop_drop, hdrop]
      rfl
    refine (run_bind_ok (run_getByte_eq ar hin hindex hdrop)).trans ?_
    simp only [hdrop, Varint.size, Varint.word] at hend hlast ⊢
    by_cases hhigh : t &&& 0x80 = 0
    · simp only [hhigh, if_true, run_pure, List.nil_append, UInt64.or_zero]
    · rw [if_neg hhigh] at hend hlast
      have hnext := ih ⟨ar.index + 1, hindex, ar.size_lt⟩ (shift + 7)
        (result ||| (t &&& 0x7f).toUInt64 <<< shift) (by dsimp only; omega)
        (by dsimp only; rw [hrest]; omega) (by dsimp only; rw [hrest]; omega)
      simp only [hhigh, if_false, hnext, hrest, List.nil_append, UInt64.or_assoc]
      simp only [Nat.add_assoc, Nat.add_comm 1]

theorem run_getVarintLoop_past (left : Nat) (ar : BlobReader data size) (shift result : UInt64)
    (hin : data + size ≤ memory.length) (hleft : ar.index + left = size)
    (hend : left < Varint.size (memory.drop (data + ar.index))) :
    (getVarintLoop left ar shift result : Prog ω _).run (machine memory allocates) =
      ⟨.stopped .outOfRange, [], []⟩ := by
  induction left generalizing ar shift result with
  | zero => rfl
  | succ left ih =>
    have hindex : ar.index < size := by omega
    obtain ⟨t, rest, hdrop⟩ : ∃ t rest, memory.drop (data + ar.index) = t :: rest :=
      ⟨_, _, List.drop_eq_getElem_cons (by omega)⟩
    have hrest : memory.drop (data + (ar.index + 1)) = rest := by
      rw [← Nat.add_assoc, ← List.drop_drop, hdrop]
      rfl
    refine (run_bind_ok (run_getByte_eq ar hin hindex hdrop)).trans ?_
    rw [hdrop, Varint.size] at hend
    by_cases hhigh : t &&& 0x80 = 0
    · rw [if_pos hhigh] at hend
      omega
    · rw [if_neg hhigh] at hend
      have hnext := ih ⟨ar.index + 1, hindex, ar.size_lt⟩ (shift + 7)
        (result ||| (t &&& 0x7f).toUInt64 <<< shift) (by dsimp only; omega)
        (by dsimp only; rw [hrest]; omega)
      simp only [hhigh, if_false, hnext, List.nil_append]

theorem run_getVarint (ar : BlobReader data size) (hin : data + size ≤ memory.length)
    (h : ar.index + Varint.size (memory.drop (data + ar.index)) ≤ size) :
    (ar.getVarint : Prog ω _).run (machine memory allocates) =
      ⟨.ok (Varint.word 0 (memory.drop (data + ar.index)),
        ⟨ar.index + Varint.size (memory.drop (data + ar.index)), h, ar.size_lt⟩), [], []⟩ := by
  have hindex := ar.index_le
  exact (run_getVarintLoop _ ar 0 0 hin (by omega) (by omega)).elim fun _ hrun =>
    hrun.trans (by rw [UInt64.zero_or])

theorem run_getVarint_past (ar : BlobReader data size) (hin : data + size ≤ memory.length)
    (h : size < ar.index + Varint.size (memory.drop (data + ar.index))) :
    (ar.getVarint : Prog ω _).run (machine memory allocates) = ⟨.stopped .outOfRange, [], []⟩ := by
  have hindex := ar.index_le
  exact run_getVarintLoop_past _ ar 0 0 hin (by omega) (by omega)

end BlobReader

end VeloxHash
