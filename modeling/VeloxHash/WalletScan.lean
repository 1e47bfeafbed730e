import VeloxHash.WalletReading

/-! The loops of `WalletAddress::decode` with the accesses they make: positions of the address and
indices of `reverse_alphabet`. -/

namespace VeloxHash.WalletAddress

open Splice

inductive Access
  | text (position : Nat)
  | table (index : Int)
  deriving DecidableEq

/-- A character of the text and its place in the table. -/
def accessesAt (text : List UInt8) (position : Nat) : List Access :=
  [.text position, .table (text.getD position 0).toInt8.toInt]

variable (below : Int → Int8) (text : List UInt8)

/-- The characters in front of `address_data[j]`, from the last on; `address_data` is at `base`. -/
def scanBlock (base : Nat) : (j : Nat) → (num order : UInt64) → List Access × Option UInt64
  | 0, num, _ => ([], some num)
  | j + 1, num, order =>
    let digit := digit below (text.getD (base + j) 0)
    if digit < 0 then (accessesAt text (base + j), none)
    else
      let (lo, hi) := umul128 order (UInt64.ofNat digit.toNatClampNeg)
      if num + lo < num ∨ hi ≠ 0 then (accessesAt text (base + j), none)
      else
        let later := scanBlock base j (num + lo) (order * alphabetSize)
        (accessesAt text (base + j) ++ later.1, later.2)

/-- The blocks from `base` on, with `left` full ones left. -/
def scanBlocks (lastBlockSize lastBlockSizeIndex : Nat) :
    (left base : Nat) → List Access × Option (List UInt8)
  | 0, base =>
    let block := scanBlock below text base lastBlockSize 0 1
    (block.1, block.2.map (emit lastBlockSizeIndex))
  | left + 1, base =>
    let block := scanBlock below text base 11 0 1
    match block.2 with
    | none => (block.1, none)
    | some num =>
      let later := scanBlocks lastBlockSize lastBlockSizeIndex left (base + 11)
      (block.1 ++ later.1, later.2.map fun rest => emit 8 num ++ rest)

def scan : List Access × Option (List UInt8) :=
  if text.length < minSize ∨ maxSize < text.length then ([], none)
  else
    match blockSizes.idxOf? (text.length % 11) with
    | none => ([], none)
    | some lastBlockSizeIndex =>
      if text.length / 11 * 8 + lastBlockSizeIndex < minDataSize then ([], none)
      else scanBlocks below text (text.length % 11) lastBlockSizeIndex (text.length / 11) 0

/-- `strncmp` and the two `switch`es. -/
def prefixAccesses (address : List UInt8) : List Access :=
  if address.length < 4 then []
  else if address.getD 0 0 ≠ 84 then [.text 0]
  else if address.getD 1 0 ≠ 70 then [.text 0, .text 1]
  else if address.getD 2 0 ≠ 49 ∧ address.getD 2 0 ≠ 50 then [.text 0, .text 1, .text 2]
  else [.text 0, .text 1, .text 2, .text 3]

def Access.shift (n : Nat) : Access → Access
  | .text position => .text (n + position)
  | .table index => .table index

/-- All accesses of `decode` to the address and to the table. -/
def accesses (address : List UInt8) : List Access :=
  prefixAccesses address ++
    match townforge address with
    | none => []
    | some (_, text) => (scan below text).1.map (Access.shift (address.length - text.length))

/-- The characters of a block. -/
def block (i : Nat) : List UInt8 := slice text (11 * i) 11

/-- The characters of its block that are read before a character. -/
def behindOf (p : Nat) : List UInt8 := (block text (p / 11)).drop (p % 11 + 1)

/-- All that is read before a character is accepted. -/
def Reached (p : Nat) : Prop :=
  (∀ i < p / 11, (decodeBlock below (block text i)).isSome) ∧
    (decodeBlock below (behindOf text p)).isSome

/-- The checks in front of the loops are passed. -/
def Entered : Prop :=
  (minSize ≤ text.length ∧ text.length ≤ maxSize) ∧
    ∃ k, blockSizes.idxOf? (text.length % 11) = some k ∧ minDataSize ≤ text.length / 11 * 8 + k

section Block

variable {below text} {chars : List UInt8} {base j m : Nat} {num order : UInt64} {access : Access}

theorem decodeBlock_append_none {front : List UInt8} (h : decodeBlock below chars = none) :
    decodeBlock below (front ++ chars) = none := by
  induction front with
  | nil => exact h
  | cons c front ih =>
    rw [List.cons_append, decodeBlock, ih]

theorem decodeBlock_drop_none {i : Nat} (hi : i ≤ j) (h : decodeBlock below (chars.drop j) = none) :
    decodeBlock below (chars.drop i) = none := by
  obtain ⟨d, rfl⟩ := Nat.exists_eq_add_of_le hi
  have hsplit : chars.drop i = (chars.drop i).take d ++ chars.drop (i + d) := by
    rw [← List.drop_drop, List.take_append_drop]
  rw [hsplit]
  exact decodeBlock_append_none h

/-- The rest of a block is read as it is decoded. -/
theorem scanBlock_spec (hm : base + m ≤ text.length) (hj : j ≤ m)
    (h : decodeBlock below ((slice text base m).drop j) = some (num, order)) :
    (scanBlock below text base j num order).2 =
        (decodeBlock below (slice text base m)).map Prod.fst ∧
      ∀ access, access ∈ (scanBlock below text base j num order).1 ↔
        ∃ q < j, (decodeBlock below ((slice text base m).drop (q + 1))).isSome ∧
          access ∈ accessesAt text (base + q) := by
  induction j generalizing num order with
  | zero =>
    rw [List.drop_zero] at h
    refine ⟨by rw [h]; rfl, fun access => ?_⟩
    exact iff_of_false List.not_mem_nil fun ⟨q, hq, _⟩ => absurd hq (Nat.not_lt_zero q)
  | succ j ih =>
    have hlength : (slice text base m).length = m := length_slice hm
    have hchar : (slice text base m).drop j =
        text.getD (base + j) 0 :: (slice text base m).drop (j + 1) := by
      rw [List.drop_eq_getElem_cons (by omega)]
      congr 1
      rw [List.getD_eq_getElem?_getD, List.getElem?_eq_getElem (by omega), Option.getD_some]
      simp only [slice, List.getElem_take, List.getElem_drop]
    have hstop (hnone : decodeBlock below ((slice text base m).drop j) = none)
        (hscan : scanBlock below text base (j + 1) num order =
          (accessesAt text (base + j), none)) :
        (scanBlock below text base (j + 1) num order).2 =
            (decodeBlock below (slice text base m)).map Prod.fst ∧
          ∀ access, access ∈ (scanBlock below text base (j + 1) num order).1 ↔
            ∃ q < j + 1, (decodeBlock below ((slice text base m).drop (q + 1))).isSome ∧
              access ∈ accessesAt text (base + q) := by
      have hall : decodeBlock below (slice text base m) = none :=
        decodeBlock_drop_none (Nat.zero_le j) hnone
      rw [hscan, hall]
      refine ⟨rfl, fun access => ⟨fun hin => ⟨j, Nat.lt_succ_self j, by rw [h]; rfl, hin⟩, ?_⟩⟩
      rintro ⟨q, hq, hsome, hin⟩
      rcases Nat.lt_succ_iff_lt_or_eq.mp hq with hlt | rfl
      · rw [decodeBlock_drop_none hlt hnone] at hsome
        exact absurd hsome Bool.false_ne_true
      · exact hin
    generalize hd : digit below (text.getD (base + j) 0) = d
    by_cases hdigit : d < 0
    · refine hstop ?_ ?_
      · rw [hchar, decodeBlock, h]
        exact if_pos (hd ▸ hdigit)
      · rw [scanBlock, hd]
        exact if_pos hdigit
    generalize hproduct : umul128 order (UInt64.ofNat d.toNatClampNeg) = product
    by_cases hcarry : num + product.1 < num ∨ product.2 ≠ 0
    · refine hstop ?_ ?_
      · rw [hchar, decodeBlock, h]
        dsimp only
        rw [hd, hproduct]
        exact (if_neg hdigit).trans (if_pos hcarry)
      · rw [scanBlock, hd]
        dsimp only
        rw [hproduct]
        exact (if_neg hdigit).trans (if_pos hcarry)
    have hnext : decodeBlock below ((slice text base m).drop j) =
        some (num + product.1, order * alphabetSize) := by
      rw [hchar, decodeBlock, h]
      dsimp only
      rw [hd, hproduct]
      exact (if_neg hdigit).trans (if_neg hcarry)
    obtain ⟨hresult, hmem⟩ := ih (Nat.le_of_succ_le hj) hnext
    have hscan : scanBlock below text base (j + 1) num order =
        (accessesAt text (base + j) ++
          (scanBlock below text base j (num + product.1) (order * alphabetSize)).1,
        (scanBlock below text base j (num + product.1) (order * alphabetSize)).2) := by
      rw [scanBlock, hd]
      dsimp only
      rw [hproduct]
      exact (if_neg hdigit).trans (if_neg hcarry)
    rw [hscan]
    refine ⟨hresult, fun access => ?_⟩
    rw [List.mem_append, hmem]
    constructor
    · rintro (hin | ⟨q, hq, hsome, hin⟩)
      · exact ⟨j, Nat.lt_succ_self j, by rw [h]; rfl, hin⟩
      · exact ⟨q, Nat.lt_succ_of_lt hq, hsome, hin⟩
    · rintro ⟨q, hq, hsome, hin⟩
      rcases Nat.lt_succ_iff_lt_or_eq.mp hq with hlt | rfl
      · exact .inr ⟨q, hlt, hsome, hin⟩
      · exact .inl hin

theorem scanBlock_whole (below : Int → Int8) {text : List UInt8} {base m : Nat}
    (hm : base + m ≤ text.length) :
    (scanBlock below text base m 0 1).2 = (decodeBlock below (slice text base m)).map Prod.fst ∧
      ∀ access, access ∈ (scanBlock below text base m 0 1).1 ↔
        ∃ q < m, (decodeBlock below ((slice text base m).drop (q + 1))).isSome ∧
          access ∈ accessesAt text (base + q) := by
  refine scanBlock_spec hm le_rfl ?_
  rw [List.drop_of_length_le (length_slice hm).le]
  rfl

end Block

section Blocks

variable {below text} {i k last left : Nat}

/-- The last block ends with the text. -/
theorem block_last (hlength : text.length = 11 * i + last) (hlast : last < 11) :
    block text i = text.drop (11 * i) ∧ slice text (11 * i) last = text.drop (11 * i) := by
  have hdrop : (text.drop (11 * i)).length = last := by
    rw [List.length_drop, hlength, Nat.add_sub_cancel_left]
  exact ⟨List.take_of_length_le (by omega), List.take_of_length_le hdrop.le⟩

/-- The blocks are read as they are decoded. -/
theorem scanBlocks_spec (hlength : text.length = 11 * (i + left) + last) (hlast : last < 11) :
    (scanBlocks below text last k left (11 * i)).2 =
        decodeBlocks below k left (text.drop (11 * i)) ∧
      ∀ access, access ∈ (scanBlocks below text last k left (11 * i)).1 ↔
        ∃ p, 11 * i ≤ p ∧ p < text.length ∧
          (∀ n, i ≤ n → n < p / 11 → (decodeBlock below (block text n)).isSome) ∧
            (decodeBlock below (behindOf text p)).isSome ∧ access ∈ accessesAt text p := by
  induction left generalizing i with
  | zero =>
    obtain ⟨hblock, hslice⟩ := block_last (i := i) hlength hlast
    obtain ⟨hresult, hmem⟩ := scanBlock_whole below (show 11 * i + last ≤ text.length by omega)
    rw [hslice] at hresult hmem
    refine ⟨?_, fun access => (hmem access).trans ?_⟩
    · rw [scanBlocks, decodeBlocks, hresult, Option.map_map]
      rfl
    constructor
    · rintro ⟨q, hq, hsome, hin⟩
      have hdiv : (11 * i + q) / 11 = i := by omega
      have hmod : (11 * i + q) % 11 = q := by omega
      refine ⟨11 * i + q, by omega, by omega, fun n hn hlt => by omega, ?_, hin⟩
      rwa [behindOf, hdiv, hmod, hblock]
    · rintro ⟨p, hp, hlt, -, hsome, hin⟩
      have hdiv : p / 11 = i := by omega
      rw [behindOf, hdiv, hblock] at hsome
      refine ⟨p % 11, by omega, hsome, ?_⟩
      rwa [show 11 * i + p % 11 = p by omega]
  | succ left ih =>
    obtain ⟨hresult, hmem⟩ := scanBlock_whole below (show 11 * i + 11 ≤ text.length by omega)
    obtain ⟨hlater, hlaterMem⟩ := ih (i := i + 1) (by omega)
    have hfirst (access : Access) : access ∈ (scanBlock below text (11 * i) 11 0 1).1 ↔
        ∃ p, 11 * i ≤ p ∧ p < 11 * (i + 1) ∧ (decodeBlock below (behindOf text p)).isSome ∧
          access ∈ accessesAt text p := by
      rw [hmem]
      constructor
      · rintro ⟨q, hq, hsome, hin⟩
        have hdiv : (11 * i + q) / 11 = i := by omega
        have hmod : (11 * i + q) % 11 = q := by omega
        refine ⟨11 * i + q, by omega, by omega, ?_, hin⟩
        rwa [behindOf, hdiv, hmod]
      · rintro ⟨p, hp, hlt, hsome, hin⟩
        have hdiv : p / 11 = i := by omega
        rw [behindOf, hdiv] at hsome
        refine ⟨p % 11, by omega, hsome, ?_⟩
        rwa [show 11 * i + p % 11 = p by omega]
    have hdrop : (text.drop (11 * i)).drop 11 = text.drop (11 * (i + 1)) := by
      rw [List.drop_drop]
      rfl
    have htake : (text.drop (11 * i)).take 11 = block text i := rfl
    rw [scanBlocks, decodeBlocks, hdrop, htake]
    dsimp only
    rw [show slice text (11 * i) 11 = block text i from rfl] at hresult
    rw [hresult]
    cases hdecode : decodeBlock below (block text i) with
    | none =>
      refine ⟨rfl, fun access => (hfirst access).trans ⟨?_, ?_⟩⟩
      · rintro ⟨p, hp, hlt, hsome, hin⟩
        exact ⟨p, hp, by omega, fun n hn hn' => by omega, hsome, hin⟩
      · rintro ⟨p, hp, -, hbefore, hsome, hin⟩
        refine ⟨p, hp, Nat.lt_of_not_le fun hle => ?_, hsome, hin⟩
        have hfail := hbefore i le_rfl (by omega)
        rw [hdecode] at hfail
        exact Bool.false_ne_true hfail
    | some found =>
      obtain ⟨num, order⟩ := found
      refine ⟨congrArg (Option.map fun rest => emit 8 num ++ rest) hlater, fun access => ?_⟩
      change access ∈ _ ++ (scanBlocks below text last k left (11 * (i + 1))).1 ↔ _
      rw [List.mem_append, hfirst, hlaterMem]
      constructor
      · rintro (⟨p, hp, hlt, hsome, hin⟩ | ⟨p, hp, hlt, hbefore, hsome, hin⟩)
        · exact ⟨p, hp, by omega, fun n hn hn' => by omega, hsome, hin⟩
        · refine ⟨p, by omega, hlt, fun n hn hn' => ?_, hsome, hin⟩
          rcases hn.eq_or_lt with rfl | hlater
          · rw [hdecode]
            rfl
          · exact hbefore n hlater hn'
      · rintro ⟨p, hp, hlt, hbefore, hsome, hin⟩
        rcases Nat.lt_or_ge p (11 * (i + 1)) with hnear | hfar
        · exact .inl ⟨p, hp, hnear, hsome, hin⟩
        · exact .inr ⟨p, hfar, hlt, fun n hn hn' => hbefore n (by omega) hn', hsome, hin⟩

theorem scan_entered {k : Nat} (hsize : minSize ≤ text.length ∧ text.length ≤ maxSize)
    (hindex : blockSizes.idxOf? (text.length % 11) = some k)
    (hmin : minDataSize ≤ text.length / 11 * 8 + k) :
    scan below text = scanBlocks below text (text.length % 11) k (text.length / 11) (11 * 0) := by
  unfold scan
  rw [if_neg (by omega), hindex]
  exact if_neg (by omega)

theorem scan_refused (h : ¬ Entered text) : scan below text = ([], none) := by
  unfold scan
  by_cases hsize : text.length < minSize ∨ maxSize < text.length
  · exact if_pos hsize
  rw [if_neg hsize]
  cases hindex : blockSizes.idxOf? (text.length % 11) with
  | none => rfl
  | some k => exact if_pos (Nat.lt_of_not_le fun hmin => h ⟨by omega, k, hindex, hmin⟩)

/-- The loops make what `decodeData` makes. -/
theorem scan_result (below : Int → Int8) (text : List UInt8) :
    (scan below text).2 = (decodeData below text).map Subtype.val := by
  by_cases hentered : Entered text
  · obtain ⟨hsize, k, hindex, hmin⟩ := hentered
    have hlength : text.length = 11 * (0 + text.length / 11) + text.length % 11 := by omega
    obtain ⟨hspec, -⟩ := scanBlocks_spec hlength (Nat.mod_lt _ (by decide))
    rw [scan_entered hsize hindex hmin, hspec, Nat.mul_zero, List.drop_zero]
    cases hblocks : decodeBlocks below k (text.length / 11) text with
    | none =>
      cases hdata : decodeData below text with
      | none => rfl
      | some data =>
        obtain ⟨-, k', hindex', -, hsome⟩ := decodeData_eq_some.mp hdata
        obtain rfl := Option.some.inj (hindex.symm.trans hindex')
        exact nomatch hblocks.symm.trans hsome
    | some bytes =>
      have hbytes := length_decodeBlocks hblocks
      have hk : k < 9 := (List.idxOf?_eq_some_iff.mp hindex).1
      have hmax : text.length ≤ 256 := hsize.2
      have hdata : decodeData below text = some ⟨bytes, by omega⟩ :=
        decodeData_eq_some.mpr ⟨hsize, k, hindex, hmin, hblocks⟩
      rw [hdata]
      rfl
  · rw [scan_refused hentered]
    cases hdata : decodeData below text with
    | none => rfl
    | some data =>
      obtain ⟨hsize, k, hindex, hmin, -⟩ := decodeData_eq_some.mp hdata
      exact absurd ⟨hsize, k, hindex, hmin⟩ hentered

/-- The loops access the characters that they reach. -/
theorem mem_scan_iff {access : Access} : access ∈ (scan below text).1 ↔ Entered text ∧
    ∃ p < text.length, Reached below text p ∧ access ∈ accessesAt text p := by
  by_cases hentered : Entered text
  · rw [and_iff_right hentered]
    obtain ⟨hsize, k, hindex, hmin⟩ := hentered
    rw [scan_entered hsize hindex hmin]
    have hlength : text.length = 11 * (0 + text.length / 11) + text.length % 11 := by omega
    refine ((scanBlocks_spec hlength (Nat.mod_lt _ (by decide))).2 access).trans ?_
    constructor
    · rintro ⟨p, -, hp, hbefore, hbehind, hin⟩
      exact ⟨p, hp, ⟨fun n hn => hbefore n (Nat.zero_le n) hn, hbehind⟩, hin⟩
    · rintro ⟨p, hp, ⟨hbefore, hbehind⟩, hin⟩
      exact ⟨p, Nat.zero_le p, hp, fun n _ hn => hbefore n hn, hbehind, hin⟩
  · rw [scan_refused hentered]
    exact iff_of_false List.not_mem_nil fun h => hentered h.1

end Blocks

end VeloxHash.WalletAddress
