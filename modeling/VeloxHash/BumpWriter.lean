import Mathlib.Logic.Function.Basic
import Mathlib.Tactic

/-! Writes through one pointer for each region, which is moved past what is written and never
checked. A region holds what is written to it if and only if it holds its pointer in the end. -/

namespace VeloxHash.BumpWriter

structure Write (ι α : Type*) where
  region : ι
  pos : Nat
  data : List α

structure Writer (ι α : Type*) where
  pointer : ι → Nat
  writes : List (Write ι α)

variable {ι α : Type*} {base : ι → Nat} {s : Writer ι α} {i : ι}

def Write.stop (w : Write ι α) : Nat := w.pos + w.data.length

namespace Writer

def start (base : ι → Nat) : Writer ι α := ⟨base, []⟩

/-- The writes to a region lie between its base and its pointer and reach up to the pointer. -/
structure Packed (base : ι → Nat) (s : Writer ι α) : Prop where
  low : ∀ w ∈ s.writes, base w.region ≤ w.pos
  high : ∀ w ∈ s.writes, w.stop ≤ s.pointer w.region
  reached : ∀ i, s.pointer i = base i ∨ ∃ w ∈ s.writes, w.region = i ∧ w.stop = s.pointer i

/-- All writes to a region lie within its first `size` places. -/
def Inside (base : ι → Nat) (s : Writer ι α) (i : ι) (size : Nat) : Prop :=
  ∀ w ∈ s.writes, w.region = i → base i ≤ w.pos ∧ w.stop ≤ base i + size

theorem packed_start (base : ι → Nat) : (start base : Writer ι α).Packed base :=
  ⟨nofun, nofun, fun _ => .inl rfl⟩

theorem Packed.base_le (h : s.Packed base) (i : ι) : base i ≤ s.pointer i := by
  rcases h.reached i with heq | ⟨w, hw, rfl, heq⟩
  · exact heq.ge
  · exact (h.low w hw).trans ((Nat.le_add_right _ _).trans heq.le)

theorem Packed.inside_iff (h : s.Packed base) (i : ι) (size : Nat) :
    s.Inside base i size ↔ s.pointer i ≤ base i + size := by
  constructor
  · intro hinside
    rcases h.reached i with heq | ⟨w, hw, hregion, heq⟩
    · exact heq.le.trans (Nat.le_add_right _ _)
    · exact heq ▸ (hinside w hw hregion).2
  · rintro hle w hw rfl
    exact ⟨h.low w hw, (h.high w hw).trans hle⟩

variable [DecidableEq ι]

def put (s : Writer ι α) (i : ι) (data : List α) : Writer ι α where
  pointer := Function.update s.pointer i (s.pointer i + data.length)
  writes := s.writes ++ [⟨i, s.pointer i, data⟩]

/-- How many writes a region has got. -/
def count (s : Writer ι α) (i : ι) : Nat := s.writes.countP (·.region = i)

@[simp] theorem pointer_put_self (s : Writer ι α) (i : ι) (data : List α) :
    (s.put i data).pointer i = s.pointer i + data.length := Function.update_self ..

@[simp] theorem pointer_put_of_ne (s : Writer ι α) {i j : ι} (h : j ≠ i) (data : List α) :
    (s.put i data).pointer j = s.pointer j := Function.update_of_ne h ..

@[simp] theorem count_put_self (s : Writer ι α) (i : ι) (data : List α) :
    (s.put i data).count i = s.count i + 1 := by
  rw [count, count, put, List.countP_append, List.countP_singleton, if_pos (decide_eq_true rfl)]

@[simp] theorem count_put_of_ne (s : Writer ι α) {i j : ι} (h : j ≠ i) (data : List α) :
    (s.put i data).count j = s.count j := by
  rw [count, count, put, List.countP_append, List.countP_singleton,
    if_neg (by simpa using h.symm), Nat.add_zero]

theorem pointer_le_put (s : Writer ι α) (i j : ι) (data : List α) :
    s.pointer j ≤ (s.put i data).pointer j := by
  by_cases h : j = i
  · subst h
    rw [pointer_put_self]
    exact Nat.le_add_right _ _
  · rw [pointer_put_of_ne s h]

theorem Packed.put (h : s.Packed base) (i : ι) (data : List α) : (s.put i data).Packed base where
  low w hw := by
    rcases List.mem_append.mp hw with hw | hw
    · exact h.low w hw
    · rw [List.mem_singleton.mp hw]
      exact h.base_le i
  high w hw := by
    rcases List.mem_append.mp hw with hw | hw
    · exact (h.high w hw).trans (pointer_le_put s i _ data)
    · rw [List.mem_singleton.mp hw, pointer_put_self]
      exact le_rfl
  reached j := by
    by_cases hj : j = i
    · subst hj
      refine .inr ⟨⟨j, s.pointer j, data⟩, ?_, rfl, (pointer_put_self s j data).symm⟩
      exact List.mem_append_right _ (List.mem_singleton_self _)
    · rw [pointer_put_of_ne s hj]
      refine (h.reached j).imp_right fun ⟨w, hw, hregion, hstop⟩ => ⟨w, ?_, hregion, hstop⟩
      exact List.mem_append_left _ hw

end Writer

end VeloxHash.BumpWriter
