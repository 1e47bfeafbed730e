import Mathlib.Data.List.Basic
import Mathlib.Tactic

/-! Overwriting a stretch of a list. All facts are read off `splice_getElem?`, which
says entry by entry what an overwrite leaves. -/

namespace VeloxHash.Splice

variable {α : Type*} {l a b : List α} {p q : Nat}

/-- `l` with the entries from `p` on replaced by `b`. -/
def splice (l : List α) (p : Nat) (b : List α) : List α :=
  l.take p ++ b ++ l.drop (p + b.length)

/-- The `n` entries of `l` from `p` on. -/
def slice (l : List α) (p n : Nat) : List α := (l.drop p).take n

theorem length_splice (h : p + b.length ≤ l.length) : (splice l p b).length = l.length := by
  simp only [splice, List.length_append, List.length_take, List.length_drop]
  omega

theorem length_slice (h : p + q ≤ l.length) : (slice l p q).length = q := by
  simp only [slice, List.length_take, List.length_drop]
  omega

theorem splice_getElem? (h : p + b.length ≤ l.length) (k : Nat) :
    (splice l p b)[k]? = if p ≤ k ∧ k < p + b.length then b[k - p]? else l[k]? := by
  have htake : (l.take p).length = p := by rw [List.length_take]; omega
  rw [splice, List.append_assoc]
  by_cases hk : k < p
  · rw [List.getElem?_append_left (by omega), List.getElem?_take, if_pos hk, if_neg (by omega)]
  · rw [List.getElem?_append_right (by omega), htake]
    by_cases hb : k < p + b.length
    · rw [List.getElem?_append_left (by omega), if_pos (by omega)]
    · rw [List.getElem?_append_right (by omega), List.getElem?_drop, if_neg (by omega)]
      congr 1
      omega

theorem slice_getElem? (l : List α) (p n k : Nat) :
    (slice l p n)[k]? = if k < n then l[p + k]? else none := by
  rw [slice, List.getElem?_take, List.getElem?_drop]

/-- The later of two overwrites of one stretch stands. -/
theorem splice_splice (h : p + b.length ≤ l.length) (hab : a.length = b.length) :
    splice (splice l p a) p b = splice l p b := by
  have ha : p + a.length ≤ l.length := by omega
  apply List.ext_getElem?
  intro k
  rw [splice_getElem? (by rwa [length_splice ha]), splice_getElem? h, splice_getElem? ha]
  split_ifs <;> first | rfl | omega

/-- Overwrites of two stretches that do not meet commute. -/
theorem splice_comm (ha : p + a.length ≤ l.length) (hb : q + b.length ≤ l.length)
    (h : p + a.length ≤ q ∨ q + b.length ≤ p) :
    splice (splice l p a) q b = splice (splice l q b) p a := by
  apply List.ext_getElem?
  intro k
  rw [splice_getElem? (by rwa [length_splice ha]), splice_getElem? ha,
    splice_getElem? (by rwa [length_splice hb]), splice_getElem? hb]
  split_ifs <;> first | rfl | omega

theorem slice_splice_self (h : p + b.length ≤ l.length) :
    slice (splice l p b) p b.length = b := by
  apply List.ext_getElem?
  intro k
  rw [slice_getElem?, splice_getElem? h]
  by_cases hk : k < b.length
  · rw [if_pos hk, if_pos (by omega)]
    congr 1
    omega
  · rw [if_neg hk, List.getElem?_eq_none (by omega)]

theorem slice_splice_disjoint {n : Nat} (hb : p + b.length ≤ l.length)
    (h : p + b.length ≤ q ∨ q + n ≤ p) : slice (splice l p b) q n = slice l q n := by
  apply List.ext_getElem?
  intro k
  rw [slice_getElem?, slice_getElem?, splice_getElem? hb]
  split_ifs <;> first | rfl | omega

/-- Writing back what a stretch holds changes nothing. -/
theorem splice_slice {n : Nat} (h : p + n ≤ l.length) : splice l p (slice l p n) = l := by
  have hlen := length_slice h
  apply List.ext_getElem?
  intro k
  rw [splice_getElem? (by omega), slice_getElem?]
  split_ifs with hk hn
  · congr 1
    omega
  · omega
  · rfl

end VeloxHash.Splice
