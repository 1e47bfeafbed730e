import Mathlib.Data.Nat.Log
import Mathlib.Tactic

/-! The tree hash of a non-empty list of leaves: the last leaves are paired until the nodes
are as many as a power of two, then the nodes are hashed pairwise. The siblings of the
leftmost path do not depend on the first leaf. -/

namespace VeloxHash.TreeHash

variable {α : Type*}

/-- Adjacent nodes are hashed together; a last one without a partner is left out. -/
def pairs (hash : α → α → α) : List α → List α
  | a :: b :: rest => hash a b :: pairs hash rest
  | _ => []

/-- `k` rounds of hashing pairwise. -/
def rounds (hash : α → α → α) : Nat → List α → List α
  | 0, nodes => nodes
  | k + 1, nodes => rounds hash k (pairs hash nodes)

/-- The first leaves as they are and the last ones paired, so that `cnt` nodes remain. -/
def pairUp (hash : α → α → α) (cnt : Nat) (leaves : List α) : List α :=
  leaves.take (2 * cnt - leaves.length) ++ pairs hash (leaves.drop (2 * cnt - leaves.length))

/-- The root over `first` and the leaves after it. The nodes of the full tree are as many as
the largest power of two below the number of leaves. -/
def treeHash (hash : α → α → α) (first : α) (others : List α) : α :=
  if others = [] then first
  else (rounds hash (Nat.log 2 others.length)
    (pairUp hash (2 ^ Nat.log 2 others.length) (first :: others))).headD first

/-- The second node of every level. -/
def siblings (hash : α → α → α) : Nat → List α → List α
  | 0, _ => []
  | k + 1, nodes => (nodes.drop 1).take 1 ++ siblings hash k (pairs hash nodes)

/-- What the first leaf is hashed with on its way to the root. -/
def branch (hash : α → α → α) (first : α) (others : List α) : List α :=
  siblings hash (Nat.log 2 (others.length + 1))
    (pairUp hash (2 ^ Nat.log 2 (others.length + 1)) (first :: others))

variable {hash : α → α → α} {first : α} {others nodes : List α} {k : Nat}

theorem pairs_short (h : nodes.length < 2) : pairs hash nodes = [] := by
  match nodes with
  | [] | [_] => rfl

theorem length_pairs (nodes : List α) : (pairs hash nodes).length = nodes.length / 2 := by
  induction nodes using pairs.induct with
  | case1 a b rest ih =>
    rw [pairs, List.length_cons, ih, List.length_cons, List.length_cons]
    omega
  | case2 nodes hshort =>
    have hlength : nodes.length < 2 := by
      match nodes with
      | [] | [_] => simp
      | a :: b :: rest => exact (hshort a b rest rfl).elim
    rw [pairs_short hlength, List.length_nil]
    omega

/-- One pairing of nodes that are listed by their places. -/
theorem pairs_range (f : Nat → α) (n : Nat) : pairs hash ((List.range (2 * n)).map f) =
    (List.range n).map fun i => hash (f (2 * i)) (f (2 * i + 1)) := by
  induction n generalizing f with
  | zero => rfl
  | succ n ih =>
    have hrange : (List.range (2 * (n + 1))).map f =
        f 0 :: f 1 :: (List.range (2 * n)).map fun i => f (i + 2) := by
      rw [show 2 * (n + 1) = 2 * n + 1 + 1 by ring, List.range_succ_eq_map, List.range_succ_eq_map]
      simp [Function.comp_def]
    rw [hrange, pairs, ih, List.range_succ_eq_map, List.map_cons, List.map_map]
    rfl

theorem rounds_succ (k : Nat) (nodes : List α) :
    rounds hash (k + 1) nodes = pairs hash (rounds hash k nodes) := by
  induction k generalizing nodes with
  | zero => rfl
  | succ k ih => rw [rounds, ih, rounds]

/-- The second node of the last round but one is the last sibling. -/
theorem siblings_succ (k : Nat) (nodes : List α) : siblings hash (k + 1) nodes =
    siblings hash k nodes ++ ((rounds hash k nodes).drop 1).take 1 := by
  induction k generalizing nodes with
  | zero => exact (List.append_nil _).trans (List.nil_append _).symm
  | succ k ih => rw [siblings, ih, siblings, rounds, List.append_assoc]

theorem length_pairUp (hash : α → α → α) {cnt : Nat} {leaves : List α} (hle : cnt ≤ leaves.length)
    (hlt : leaves.length ≤ 2 * cnt) : (pairUp hash cnt leaves).length = cnt := by
  rw [pairUp, List.length_append, List.length_take, length_pairs, List.length_drop]
  omega

/-- All leaves are nodes. -/
theorem pairUp_length (leaves : List α) : pairUp hash leaves.length leaves = leaves := by
  rw [pairUp, show 2 * leaves.length - leaves.length = leaves.length by omega, List.take_length,
    List.drop_length, pairs, List.append_nil]
  rintro _ _ _ ⟨⟩

/-- All leaves are paired. -/
theorem pairUp_half {cnt : Nat} {leaves : List α} (h : leaves.length = 2 * cnt) :
    pairUp hash cnt leaves = pairs hash leaves := by
  rw [pairUp, h, Nat.sub_self, List.take_zero, List.drop_zero, List.nil_append]

/-- With a power of two of leaves the first pairing is a round. -/
theorem treeHash_eq (hash : α → α → α) (first : α) (hne : others ≠ []) :
    treeHash hash first others =
      (rounds hash (Nat.log 2 (others.length + 1))
        (pairUp hash (2 ^ Nat.log 2 (others.length + 1)) (first :: others))).headD first := by
  have hpos : others.length ≠ 0 := fun h => hne (List.length_eq_zero_iff.mp h)
  have hlow := Nat.pow_log_le_self 2 hpos
  have hhigh := Nat.lt_pow_succ_log_self Nat.one_lt_two others.length
  rw [treeHash, if_neg hne]
  by_cases hpow : others.length + 1 = 2 ^ (Nat.log 2 others.length + 1)
  case pos =>
    have hlog : Nat.log 2 (others.length + 1) = Nat.log 2 others.length + 1 := by
      rw [hpow, Nat.log_pow Nat.one_lt_two]
    have hhalf : (first :: others).length = 2 * 2 ^ Nat.log 2 others.length := by
      rw [List.length_cons, hpow, pow_succ, mul_comm]
    have hfull : 2 ^ (Nat.log 2 others.length + 1) = (first :: others).length := hpow.symm
    rw [hlog, rounds, hfull, pairUp_length, pairUp_half hhalf]
  case neg =>
    have hlog : Nat.log 2 (others.length + 1) = Nat.log 2 others.length :=
      (Nat.log_eq_iff (.inr ⟨Nat.one_lt_two, Nat.succ_ne_zero _⟩)).mpr ⟨by omega, by omega⟩
    rw [hlog]

/-- The siblings lead from the first node to the root. -/
theorem rounds_eq_foldl (h : (first :: nodes).length = 2 ^ k) :
    rounds hash k (first :: nodes) = [(siblings hash k (first :: nodes)).foldl hash first] := by
  induction k generalizing first nodes with
  | zero =>
    have hnil : nodes = [] := List.length_eq_zero_iff.mp (Nat.succ.inj h)
    rw [hnil]
    rfl
  | succ k ih =>
    match nodes with
    | [] => exact absurd h (Nat.one_lt_two_pow (Nat.succ_ne_zero k)).ne
    | second :: nodes =>
      have hhalf : (hash first second :: pairs hash nodes).length = 2 ^ k := by
        rw [List.length_cons, List.length_cons, pow_succ] at h
        rw [List.length_cons, length_pairs]
        omega
      exact ih hhalf

/-- The first node is not among its siblings. -/
theorem siblings_first (a b : α) (nodes : List α) :
    siblings hash k (a :: nodes) = siblings hash k (b :: nodes) := by
  induction k generalizing a b nodes with
  | zero => rfl
  | succ k ih =>
    match nodes with
    | [] => rfl
    | second :: nodes =>
      rw [siblings, siblings, pairs, pairs]
      exact congrArg _ (ih ..)

/-- The first leaf is a node of the full tree. -/
theorem pairUp_cons (hash : α → α → α) {cnt : Nat} (h : others.length + 1 < 2 * cnt) :
    ∃ nodes, ∀ first, pairUp hash cnt (first :: others) = first :: nodes := by
  obtain ⟨keep, hkeep⟩ : ∃ keep, 2 * cnt - (others.length + 1) = keep + 1 :=
    ⟨2 * cnt - others.length - 2, by omega⟩
  refine ⟨others.take keep ++ pairs hash (others.drop keep), fun first => ?_⟩
  rw [pairUp, List.length_cons, hkeep, List.take_succ_cons, List.drop_succ_cons, List.cons_append]

/-- The branch leads from the first leaf to the root, whatever the first leaf is replaced by. -/
theorem foldl_branch (a b : α) (others : List α) :
    (branch hash a others).foldl hash b = treeHash hash b others := by
  have hlow : 2 ^ Nat.log 2 (others.length + 1) ≤ others.length + 1 :=
    Nat.pow_log_le_self 2 (Nat.succ_ne_zero _)
  have hhigh := Nat.lt_pow_succ_log_self Nat.one_lt_two (others.length + 1)
  rw [pow_succ] at hhigh
  obtain ⟨nodes, hnodes⟩ := pairUp_cons hash
    (show others.length + 1 < 2 * 2 ^ Nat.log 2 (others.length + 1) by omega)
  have hlength := length_pairUp hash (show _ ≤ (b :: others).length from hlow)
    (show others.length + 1 ≤ _ by omega)
  rw [hnodes] at hlength
  rw [branch, hnodes, siblings_first a b]
  by_cases hne : others = []
  · subst hne
    rfl
  · rw [treeHash_eq hash b hne, hnodes, rounds_eq_foldl hlength, List.headD_cons]

end VeloxHash.TreeHash
