import Mathlib.Data.List.Perm.Subperm
import Mathlib.Tactic

/-! Elements dealt from rows, one of each row in a round, the rows in the other order in the next
round. -/

namespace VeloxHash.RoundRobin

variable {α : Type*} {rows : List (List α)} {k n : Nat}

/-- The elements of one round. -/
def level (k : Nat) (rows : List (List α)) : List α := rows.filterMap (·[k]?)

/-- What is left before round `k`. -/
def above (k : Nat) (rows : List (List α)) : List α := rows.flatMap (·.drop k)

theorem above_zero (rows : List (List α)) : above 0 rows = rows.flatten := List.flatMap_id'

theorem level_cons_none {row : List α} (h : row[k]? = none) :
    level k (row :: rows) = level k rows := List.filterMap_cons_none (f := (·[k]?)) h

theorem level_cons_some {row : List α} {a : α} (h : row[k]? = some a) :
    level k (row :: rows) = a :: level k rows := List.filterMap_cons_some (f := (·[k]?)) h

theorem level_append_above (k : Nat) (rows : List (List α)) :
    (level k rows ++ above (k + 1) rows).Perm (above k rows) := by
  induction rows with
  | nil => rfl
  | cons row rows ih =>
    rw [above, above, List.flatMap_cons, List.flatMap_cons, ← above, ← above]
    cases h : row[k]? with
    | none =>
      have hlength := List.getElem?_eq_none_iff.mp h
      rw [level_cons_none h, List.drop_eq_nil_of_le hlength, List.drop_eq_nil_of_le (by omega)]
      exact ih
    | some a =>
      obtain ⟨hlt, rfl⟩ := List.getElem?_eq_some_iff.mp h
      rw [level_cons_some h, List.drop_eq_getElem_cons hlt, List.cons_append, List.cons_append]
      have hswap : (level k rows ++ (row.drop (k + 1) ++ above (k + 1) rows)).Perm
          (row.drop (k + 1) ++ (level k rows ++ above (k + 1) rows)) := by
        rw [← List.append_assoc, ← List.append_assoc]
        exact List.perm_append_comm.append_right _
      exact (hswap.trans (ih.append_left _)).cons _

theorem above_reverse (k : Nat) (rows : List (List α)) :
    (above k rows.reverse).Perm (above k rows) := (List.reverse_perm rows).flatMap_right _

theorem above_of_level (h : level k rows = []) : above k rows = [] := by
  refine List.flatMap_eq_nil_iff.mpr fun row hrow => List.drop_eq_nil_of_le ?_
  exact List.getElem?_eq_none_iff.mp (List.filterMap_eq_nil_iff.mp h row hrow)

/-- At most `n` elements, each round in an order of its own. -/
def deal (arrange : Nat → List α → List α) (k : Nat) (rows : List (List α)) (n : Nat) : List α :=
  if (level k rows).take n = [] then []
  else arrange k ((level k rows).take n) ++
    deal arrange (k + 1) rows.reverse (n - ((level k rows).take n).length)
termination_by n
decreasing_by
  have hpos := List.length_pos_iff.mpr ‹_›
  have := List.length_take_le n (level k rows)
  omega

variable {arrange : Nat → List α → List α} (harrange : ∀ k l, (arrange k l).Perm l)
include harrange

theorem length_deal : (deal arrange k rows n).length = min n (above k rows).length := by
  induction n using Nat.strongRecOn generalizing k rows with
  | ind n ih =>
    rw [deal]
    by_cases h : (level k rows).take n = []
    · rw [if_pos h]
      rcases List.take_eq_nil_iff.mp h with rfl | h
      · simp
      · simp [above_of_level h]
    · have hpos := List.length_pos_iff.mpr h
      have htake := List.length_take (i := n) (l := level k rows)
      have hsum := (level_append_above k rows).length_eq
      have hreverse := (above_reverse (k + 1) rows).length_eq
      rw [List.length_append] at hsum
      rw [if_neg h, List.length_append, (harrange _ _).length_eq, ih _ (by omega), hreverse]
      omega

theorem deal_subperm : (deal arrange k rows n).Subperm (above k rows) := by
  induction n using Nat.strongRecOn generalizing k rows with
  | ind n ih =>
    rw [deal]
    by_cases h : (level k rows).take n = []
    · rw [if_pos h]
      exact List.nil_subperm
    · have hpos := List.length_pos_iff.mpr h
      have htake := List.length_take (i := n) (l := level k rows)
      have hround : (arrange k ((level k rows).take n)).Subperm (level k rows) :=
        (harrange _ _).subperm.trans (List.take_sublist _ _).subperm
      have hrest : (deal arrange (k + 1) rows.reverse (n - ((level k rows).take n).length)).Subperm
          (above (k + 1) rows.reverse) := ih _ (by omega)
      rw [if_neg h]
      exact (hround.append (hrest.trans (above_reverse (k + 1) rows).subperm)).trans
        (level_append_above k rows).subperm

end VeloxHash.RoundRobin
