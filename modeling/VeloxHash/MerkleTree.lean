import VeloxHash.Job
import VeloxHash.TreeHash

/-! The transaction hashes of a block template: `calculateMerkleTreeHash` reduces them in
place and notes the branch of the miner transaction, which `calculateRootHash` folds again.
`keccak` is a parameter. -/

namespace VeloxHash.MerkleTree

open TreeHash

/-- The hash of the base RCT of a miner transaction, a single zero byte. -/
def knownSecondHash : Hash :=
  ⟨#[188, 54, 120, 158, 122, 30, 40, 20, 54, 70, 66, 41, 130, 143, 129, 125, 102, 18, 247, 180,
    119, 214, 101, 145, 255, 150, 169, 224, 100, 188, 201, 138], rfl⟩

def noHash : Hash := Vector.replicate 32 0

variable (keccak : List UInt8 → Hash)

def calculateMinerTxHash (minerTxPrefix : List UInt8) : Hash :=
  keccak ((keccak minerTxPrefix).toList ++ knownSecondHash.toList ++ noHash.toList)

/-- `keccak` of two hashes side by side. -/
def hashPair (a b : Hash) : Hash := keccak (a.toList ++ b.toList)

/-- The loop of `calculateRootHash`. -/
def foldBranch (rootHash : Hash) (minerTxMerkleTreeBranch : List Hash) : Hash :=
  minerTxMerkleTreeBranch.foldl (hashPair keccak) rootHash

def calculateRootHash (minerTxPrefix : List UInt8) (minerTxMerkleTreeBranch : List Hash) : Hash :=
  foldBranch keccak (calculateMinerTxHash keccak minerTxPrefix) minerTxMerkleTreeBranch

/-- `for (; cnt <= count; cnt <<= 1) {}`, from one on. There are never so many hashes in
memory that `cnt` would overflow. -/
def grow (count cnt : Nat) : Nat :=
  if 0 < cnt ∧ cnt ≤ count then grow count (cnt <<< 1) else cnt
termination_by count + 1 - cnt
decreasing_by
  rw [Nat.shiftLeft_eq]
  omega

/-- The buffer of nodes, and the branch so far. -/
structure Nodes where
  ints : Nat → Hash
  branch : List Hash

/-- `for (; j < cnt; i += 2, ++j)`, reading the nodes of `source`. -/
def pairLoop (source : Nodes → Nat → Hash) (cnt : Nat) (n : Nodes) (i j : Nat) : Nodes :=
  if j < cnt then
    let branch := if i = 0 then n.branch ++ [source n 1] else n.branch
    let ints := Function.update n.ints j (hashPair keccak (source n i) (source n (i + 1)))
    pairLoop source cnt { ints, branch } (i + 2) (j + 1)
  else n
termination_by cnt - j

/-- `while (cnt > 2)`, in place. -/
def halve (n : Nodes) (cnt : Nat) : Nodes :=
  if 2 < cnt then halve (pairLoop keccak Nodes.ints (cnt >>> 1) n 0 0) (cnt >>> 1) else n
termination_by cnt
decreasing_by
  rw [Nat.shiftRight_eq_div_pow]
  omega

/-- The root of the `count` hashes at `h`, and the branch of the first one. -/
def calculateMerkleTreeHash (count : Nat) (h : Nat → Hash) : Hash × List Hash :=
  if count = 1 then (h 0, [])
  else if count = 2 then (hashPair keccak (h 0) (h 1), [h 1])
  else
    let cnt := grow count 1 >>> 1
    let keep := cnt * 2 - count
    let copied : Nodes := { ints := fun i => if i < keep then h i else noHash, branch := [] }
    let nodes := halve keccak (pairLoop keccak (fun _ => h) cnt copied keep keep) cnt
    (hashPair keccak (nodes.ints 0) (nodes.ints 1), nodes.branch ++ [nodes.ints 1])

variable {keccak} {count cnt : Nat}

/-- The nodes that a buffer starts with. -/
def view (ints : Nat → Hash) (n : Nat) : List Hash := (List.range n).map ints

theorem grow_pow {k : Nat} (hk : 2 ^ k ≤ count) : grow count (2 ^ k) = grow count (2 ^ (k + 1)) := by
  rw [grow, if_pos ⟨Nat.two_pow_pos k, hk⟩, Nat.shiftLeft_eq, pow_one, pow_succ 2 k]

theorem grow_one (hcount : count ≠ 0) : grow count 1 = 2 ^ (Nat.log 2 count + 1) := by
  have hgrow (k : Nat) (hk : k ≤ Nat.log 2 count + 1) : grow count 1 = grow count (2 ^ k) := by
    induction k with
    | zero => rfl
    | succ k ih =>
      exact (ih (by omega)).trans (grow_pow (Nat.pow_le_of_le_log hcount (by omega)))
  have hhigh := Nat.lt_pow_succ_log_self Nat.one_lt_two count
  rw [hgrow _ le_rfl, grow, if_neg (by omega)]

section Loop

variable {source : Nodes → Nat → Hash} {i j : Nat}

/-- A round of the loop writes below all that later rounds read. -/
def Stable (source : Nodes → Nat → Hash) : Prop :=
  ∀ (n : Nodes) branch j v y, j < y → source ⟨Function.update n.ints j v, branch⟩ y = source n y

theorem stable_ints : Stable Nodes.ints := fun _ _ _ _ _ h => Function.update_of_ne h.ne' ..

theorem stable_leaves (h : Nat → Hash) : Stable fun _ => h := fun _ _ _ _ _ _ => rfl

theorem pairLoop_branch (cnt : Nat) (n : Nodes) (i j : Nat) :
    (pairLoop keccak source cnt n i j).branch =
      if i = 0 ∧ j < cnt then n.branch ++ [source n 1] else n.branch := by
  induction hd : cnt - j generalizing n i j with
  | zero => rw [pairLoop, if_neg (by omega), if_neg (by omega)]
  | succ d ih =>
    rw [pairLoop, if_pos (by omega), ih _ _ _ (by omega), if_neg (by omega)]
    by_cases hi : i = 0
    · rw [if_pos hi, if_pos ⟨hi, by omega⟩]
    · rw [if_neg hi, if_neg fun h => hi h.1]

theorem pairLoop_ints (hstable : Stable source) (cnt : Nat) (n : Nodes) (hij : j ≤ i) (x : Nat) :
    (pairLoop keccak source cnt n i j).ints x =
      if j ≤ x ∧ x < cnt then
        hashPair keccak (source n (i + 2 * (x - j))) (source n (i + 2 * (x - j) + 1))
      else n.ints x := by
  induction hd : cnt - j generalizing n i j with
  | zero => rw [pairLoop, if_neg (by omega), if_neg (by omega)]
  | succ d ih =>
    rw [pairLoop, if_pos (by omega), ih _ (by omega) (by omega)]
    by_cases hx : j + 1 ≤ x ∧ x < cnt
    · have hin : j ≤ x ∧ x < cnt := ⟨by omega, hx.2⟩
      rw [if_pos hx, if_pos hin, hstable _ _ _ _ _ (by omega), hstable _ _ _ _ _ (by omega),
        show i + 2 + 2 * (x - (j + 1)) = i + 2 * (x - j) by omega]
    · rw [if_neg hx]
      by_cases hj : x = j
      · subst hj
        have hin : x ≤ x ∧ x < cnt := ⟨le_rfl, by omega⟩
        rw [if_pos hin, Nat.sub_self, mul_zero, add_zero]
        exact Function.update_self ..
      · have hout : ¬ (j ≤ x ∧ x < cnt) := by omega
        rw [if_neg hout]
        exact Function.update_of_ne hj ..

end Loop

theorem view_pairs (ints : Nat → Hash) (n : Nat) : pairs (hashPair keccak) (view ints (2 * n)) =
    view (fun i => hashPair keccak (ints (2 * i)) (ints (2 * i + 1))) n := pairs_range ints n

theorem view_congr {f g : Nat → Hash} {n : Nat} (h : ∀ i < n, f i = g i) : view f n = view g n :=
  List.map_congr_left fun i hi => h i (List.mem_range.mp hi)

theorem view_add (ints : Nat → Hash) (m n : Nat) :
    view ints (m + n) = view ints m ++ view (fun i => ints (m + i)) n := by
  simp only [view, List.range_add, List.map_append, List.map_map, Function.comp_def]

/-- The first pairing: the last leaves are paired, and no branch is noted. -/
theorem pairLoop_leaves (keccak : List UInt8 → Hash) {h ints : Nat → Hash} {keep : Nat}
    (hcnt : cnt ≤ count) (hkeep : keep + count = 2 * cnt) (hpos : 0 < keep)
    (hints : ∀ i < keep, ints i = h i) :
    (pairLoop keccak (fun _ => h) cnt ⟨ints, []⟩ keep keep).branch = [] ∧
      view (pairLoop keccak (fun _ => h) cnt ⟨ints, []⟩ keep keep).ints cnt =
        pairUp (hashPair keccak) cnt (view h count) := by
  refine ⟨?_, ?_⟩
  · rw [pairLoop_branch, if_neg (by omega)]
  · have hlength : 2 * cnt - (view h count).length = keep := by
      rw [view, List.length_map, List.length_range]
      omega
    have hsplit : view h count = view h keep ++ view (fun i => h (keep + i)) (2 * (cnt - keep)) := by
      rw [← view_add, show keep + 2 * (cnt - keep) = count by omega]
    have htaken : (view h keep).length = keep := by rw [view, List.length_map, List.length_range]
    have hkept : view (pairLoop keccak (fun _ => h) cnt ⟨ints, []⟩ keep keep).ints keep =
        view h keep := by
      refine view_congr fun i hi => ?_
      rw [pairLoop_ints (stable_leaves h) _ _ le_rfl, if_neg (by omega)]
      exact hints i hi
    have hpaired : view (fun i => (pairLoop keccak (fun _ => h) cnt ⟨ints, []⟩ keep keep).ints
          (keep + i)) (cnt - keep) =
        view (fun i => hashPair keccak (h (keep + 2 * i)) (h (keep + (2 * i + 1)))) (cnt - keep) := by
      refine view_congr fun i hi => ?_
      rw [pairLoop_ints (stable_leaves h) _ _ le_rfl, if_pos (by omega), Nat.add_sub_cancel_left,
        add_assoc]
    have hview := view_add (pairLoop keccak (fun _ => h) cnt ⟨ints, []⟩ keep keep).ints keep
      (cnt - keep)
    rw [show keep + (cnt - keep) = cnt by omega, hkept, hpaired] at hview
    rw [hview, pairUp, hlength, hsplit, List.take_left' htaken, List.drop_left' htaken, view_pairs]

/-- One round in place. -/
theorem pairLoop_round (keccak : List UInt8 → Hash) (ints : Nat → Hash) (branch : List Hash) (hcnt : 0 < cnt) :
    (pairLoop keccak Nodes.ints cnt ⟨ints, branch⟩ 0 0).branch = branch ++ [ints 1] ∧
      view (pairLoop keccak Nodes.ints cnt ⟨ints, branch⟩ 0 0).ints cnt =
        pairs (hashPair keccak) (view ints (2 * cnt)) := by
  refine ⟨by rw [pairLoop_branch, if_pos ⟨rfl, hcnt⟩], ?_⟩
  rw [view_pairs]
  refine view_congr fun i hi => ?_
  rw [pairLoop_ints stable_ints _ _ le_rfl, if_pos ⟨Nat.zero_le i, hi⟩, Nat.sub_zero, zero_add]

theorem halve_rounds (keccak : List UInt8 → Hash) {k : Nat} (n : Nodes) :
    (halve keccak n (2 ^ (k + 1))).branch =
        n.branch ++ siblings (hashPair keccak) k (view n.ints (2 ^ (k + 1))) ∧
      view (halve keccak n (2 ^ (k + 1))).ints 2 =
        rounds (hashPair keccak) k (view n.ints (2 ^ (k + 1))) := by
  induction k generalizing n with
  | zero =>
    rw [halve, if_neg (by omega)]
    exact ⟨(List.append_nil _).symm, rfl⟩
  | succ k ih =>
    have hpos := Nat.two_pow_pos k
    have hhalf : 2 ^ (k + 1 + 1) >>> 1 = 2 ^ (k + 1) := by
      rw [Nat.shiftRight_eq_div_pow, pow_one, pow_succ 2 (k + 1), Nat.mul_div_cancel _ Nat.two_pos]
    obtain ⟨hbranch, hview⟩ := pairLoop_round keccak n.ints n.branch
      (Nat.two_pow_pos (k + 1))
    rw [halve, if_pos (by rw [pow_succ, pow_succ]; omega), hhalf]
    obtain ⟨hnext, hlast⟩ := ih (pairLoop keccak Nodes.ints (2 ^ (k + 1)) n 0 0)
    rw [hnext, hlast, hview, hbranch, ← pow_succ', List.append_assoc]
    refine ⟨congrArg (n.branch ++ ·) ?_, rfl⟩
    have hsecond : ((view n.ints (2 ^ (k + 1 + 1))).drop 1).take 1 = [n.ints 1] := by
      rw [show 2 ^ (k + 1 + 1) = 2 + (2 ^ (k + 1 + 1) - 2) by rw [pow_succ, pow_succ]; omega,
        view_add]
      rfl
    rw [siblings, hsecond]

/-- The leaves of a buffer. -/
def leafAt (leaves : List Hash) (i : Nat) : Hash := leaves.getD i noHash

theorem view_leafAt (leaves : List Hash) : view (leafAt leaves) leaves.length = leaves := by
  refine List.ext_getElem (by simp [view]) fun i hi _ => ?_
  have hlt : i < leaves.length := by simpa [view] using hi
  simp only [view, leafAt, List.getElem_map, List.getElem_range]
  exact List.getD_eq_getElem _ _ hlt

theorem rounds_of_three (keccak : List UInt8 → Hash) {leaves : List Hash} {k : Nat}
    (hlog : Nat.log 2 leaves.length = k + 1) (hthree : 3 ≤ leaves.length) :
    [(calculateMerkleTreeHash keccak leaves.length (leafAt leaves)).1] =
        rounds (hashPair keccak) (k + 1) (pairUp (hashPair keccak) (2 ^ (k + 1)) leaves) ∧
      (calculateMerkleTreeHash keccak leaves.length (leafAt leaves)).2 =
        siblings (hashPair keccak) (k + 1) (pairUp (hashPair keccak) (2 ^ (k + 1)) leaves) := by
  have hlow : 2 ^ Nat.log 2 leaves.length ≤ leaves.length := Nat.pow_log_le_self 2 (by omega)
  have hhigh := Nat.lt_pow_succ_log_self Nat.one_lt_two leaves.length
  rw [hlog] at hlow hhigh
  rw [pow_succ] at hhigh
  have hcnt : grow leaves.length 1 >>> 1 = 2 ^ (k + 1) := by
    rw [grow_one (by omega), Nat.shiftRight_eq_div_pow, pow_one, pow_succ,
      Nat.mul_div_cancel _ Nat.two_pos, hlog]
  unfold calculateMerkleTreeHash
  rw [if_neg (by omega), if_neg (by omega)]
  simp only [hcnt]
  set keep := 2 ^ (k + 1) * 2 - leaves.length with hkeep
  have hints (i : Nat) (hi : i < keep) : (if i < keep then leafAt leaves i else noHash) =
      leafAt leaves i := if_pos hi
  obtain ⟨hnone, hview⟩ := pairLoop_leaves keccak hlow (show keep + leaves.length = _ by omega)
    (show 0 < keep by omega) hints
  rw [view_leafAt] at hview
  obtain ⟨hnext, hlast⟩ := halve_rounds keccak (k := k) (pairLoop keccak (fun _ => leafAt leaves)
    (2 ^ (k + 1)) ⟨fun i => if i < keep then leafAt leaves i else noHash, []⟩ keep keep)
  rw [hview] at hnext hlast
  rw [rounds_succ, siblings_succ, ← hlast, hnext, hnone, List.nil_append]
  exact ⟨rfl, rfl⟩

theorem calculateMerkleTreeHash_eq (keccak : List UInt8 → Hash) (first : Hash) (others : List Hash) :
    calculateMerkleTreeHash keccak (others.length + 1) (leafAt (first :: others)) =
      (treeHash (hashPair keccak) first others, branch (hashPair keccak) first others) := by
  match others with
  | [] => rfl
  | [second] =>
    have hlog : Nat.log 2 2 = 1 := by decide
    have htree : treeHash (hashPair keccak) first [second] = hashPair keccak first second := by
      simp [treeHash, pairUp, pairs, rounds]
    have hbranch : branch (hashPair keccak) first [second] = [second] := by
      simp [branch, pairUp, siblings, hlog]
    rw [htree, hbranch]
    rfl
  | second :: third :: others =>
    have hthree : 3 ≤ (first :: second :: third :: others).length := by simp
    obtain ⟨k, hk⟩ : ∃ k, Nat.log 2 (first :: second :: third :: others).length = k + 1 :=
      Nat.exists_eq_add_one_of_ne_zero (Nat.log_pos Nat.one_lt_two (by omega)).ne'
    obtain ⟨hroot, hbranch⟩ := rounds_of_three keccak hk hthree
    have htree := treeHash_eq (hashPair keccak) first (List.cons_ne_nil second (third :: others))
    rw [branch, htree]
    rw [List.length_cons] at hk hroot hbranch
    rw [hk, ← hroot, ← hbranch]
    rfl

/-- The root is the tree hash of the leaves, and so is what the branch leads to from any
first leaf, that of another miner transaction for one. -/
theorem merkleTree_root (keccak : List UInt8 → Hash) (first : Hash) (others : List Hash) :
    let tree := calculateMerkleTreeHash keccak (others.length + 1) (leafAt (first :: others))
    tree.1 = treeHash (hashPair keccak) first others ∧ foldBranch keccak first tree.2 = tree.1 ∧
      (∀ leaf, foldBranch keccak leaf tree.2 = treeHash (hashPair keccak) leaf others) ∧
      ∀ minerTxPrefix, calculateRootHash keccak minerTxPrefix tree.2 =
        treeHash (hashPair keccak) (calculateMinerTxHash keccak minerTxPrefix) others := by
  rw [calculateMerkleTreeHash_eq]
  exact ⟨rfl, foldl_branch first first others, fun leaf => foldl_branch first leaf others,
    fun minerTxPrefix => foldl_branch first _ others⟩

end VeloxHash.MerkleTree
