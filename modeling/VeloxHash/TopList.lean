import Mathlib.Data.List.Sort
import Mathlib.Tactic

/-! The `n` first elements of a list in the order of a relation, kept up to date by comparing
each new element with the last one only. -/

namespace VeloxHash.TopList

variable {α : Type*} (r : α → α → Prop) [DecidableRel r]

/-- The first `n` of a list after sorting. -/
def top (n : Nat) (l : List α) : List α := (l.insertionSort r).take n

/-- The new element takes the place of the last one and the list is sorted again. -/
def offer (l : List α) (h : l ≠ []) (a : α) : List α :=
  if r (l.getLast h) a then l else (l.dropLast ++ [a]).insertionSort r

theorem length_offer (l : List α) (h : l ≠ []) (a : α) : (offer r l h a).length = l.length := by
  unfold offer
  split
  · rfl
  · have := List.length_pos_iff.mpr h
    rw [List.length_insertionSort, List.length_append, List.length_dropLast, List.length_singleton]
    omega

theorem take_orderedInsert (a : α) (l : List α) (n : Nat) :
    (l.orderedInsert r a).take n = ((l.take n).orderedInsert r a).take n := by
  induction n generalizing l with
  | zero => rfl
  | succ n ih =>
    cases l with
    | nil => rfl
    | cons b l =>
      rw [List.take_succ_cons, List.orderedInsert_cons, List.orderedInsert_cons]
      by_cases h : r a b
      · rw [if_pos h, if_pos h, List.take_succ_cons, List.take_succ_cons]
        cases n with
        | zero => rfl
        | succ n => rw [List.take_succ_cons, List.take_succ_cons, List.take_take, min_eq_left (by omega)]
      · rw [if_neg h, if_neg h, List.take_succ_cons, List.take_succ_cons, ih]

theorem top_cons (a : α) (l : List α) (n : Nat) :
    top r n (a :: l) = ((top r n l).orderedInsert r a).take n := take_orderedInsert r a _ n

section Order

variable [Std.Total r] [IsTrans α r]

theorem pairwise_top (n : Nat) (l : List α) : (top r n l).Pairwise r :=
  (List.pairwise_insertionSort r l).take

variable [Std.Antisymm r]

theorem top_perm {n : Nat} {l l' : List α} (h : l.Perm l') : top r n l = top r n l' := by
  have hperm : (l.insertionSort r).Perm (l'.insertionSort r) :=
    ((List.perm_insertionSort r l).trans h).trans (List.perm_insertionSort r l').symm
  rw [top, top, hperm.eq_of_pairwise' (List.pairwise_insertionSort r l)
    (List.pairwise_insertionSort r l')]

/-- One comparison decides about an element of a sorted list. -/
theorem offer_eq {l : List α} (h : l ≠ []) (hsorted : l.Pairwise r) (a : α) :
    offer r l h a = (l.orderedInsert r a).take l.length := by
  have hsplit := List.dropLast_append_getLast h
  have hinsert := List.Pairwise.orderedInsert a l hsorted
  have hperm := List.perm_orderedInsert r a l
  have hlast : ∀ b ∈ l, b = l.getLast h ∨ r b (l.getLast h) := by
    intro b hb
    rw [← hsplit, List.mem_append, List.mem_singleton] at hb
    rcases hb with hb | hb
    · rw [← hsplit] at hsorted
      exact .inr ((List.pairwise_append.mp hsorted).2.2 b hb _ (List.mem_singleton.mpr rfl))
    · exact .inl hb
  unfold offer
  by_cases hr : r (l.getLast h) a
  · -- the element belongs behind the whole list
    have hbehind : (l ++ [a]).Pairwise r := by
      refine List.pairwise_append.mpr ⟨hsorted, List.pairwise_singleton r a, fun b hb c hc => ?_⟩
      rw [List.mem_singleton.mp hc]
      rcases hlast b hb with rfl | hb
      · exact hr
      · exact IsTrans.trans _ _ _ hb hr
    have heq := (hperm.trans (List.perm_append_singleton a l).symm).eq_of_pairwise' hinsert hbehind
    rw [if_pos hr, heq, List.take_left]
  · -- the last element is pushed out
    have hbefore : r a (l.getLast h) := (Std.Total.total (r := r) a (l.getLast h)).resolve_right hr
    have hpushed : ((l.dropLast ++ [a]).insertionSort r ++ [l.getLast h]).Pairwise r := by
      refine List.pairwise_append.mpr
        ⟨List.pairwise_insertionSort r _, List.pairwise_singleton r _, fun b hb c hc => ?_⟩
      rw [List.mem_singleton.mp hc]
      rw [List.mem_insertionSort, List.mem_append, List.mem_singleton] at hb
      rcases hb with hb | rfl
      · rw [← hsplit] at hsorted
        exact (List.pairwise_append.mp hsorted).2.2 b hb _ (List.mem_singleton.mpr rfl)
      · exact hbefore
    have hsame : (a :: l).Perm ((l.dropLast ++ [a]).insertionSort r ++ [l.getLast h]) := by
      have hmoved : (a :: l).Perm ((l.dropLast ++ [a]) ++ [l.getLast h]) := by
        rw [List.append_assoc, List.singleton_append]
        nth_rewrite 1 [← hsplit]
        exact List.perm_middle.symm
      exact hmoved.trans ((List.perm_insertionSort r _).symm.append_right _)
    have hlength : ((l.dropLast ++ [a]).insertionSort r).length = l.length := by
      have := List.length_pos_iff.mpr h
      rw [List.length_insertionSort, List.length_append, List.length_dropLast, List.length_singleton]
      omega
    have heq := (hperm.trans hsame).eq_of_pairwise' hinsert hpushed
    rw [if_neg hr, heq, List.take_left' hlength]

/-- The list of the first `n` under one more element. -/
theorem offer_top {n : Nat} {l : List α} (hn : n ≤ l.length) (h : top r n l ≠ []) (a : α) :
    offer r (top r n l) h a = top r n (a :: l) := by
  have hlength : (top r n l).length = n := by
    rw [top, List.length_take, List.length_insertionSort]
    omega
  rw [offer_eq r h (pairwise_top r n l), hlength, top_cons]

end Order

end VeloxHash.TopList
