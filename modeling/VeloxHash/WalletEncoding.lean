import VeloxHash.Radix
import VeloxHash.WalletAddress

/-! Base58 by blocks, and what the loops of `decode` make of it: a block is read as the number
that its characters stand for, and refused from `2 ^ 64` on. -/

namespace VeloxHash.WalletAddress

open Radix

/-- The number of a block of bytes. -/
def word (block : List UInt8) : Nat := value 256 (block.map UInt8.toNat)

/-- Up to eight bytes, as the number they stand for. -/
def encodeBlock (block : List UInt8) : List UInt8 :=
  (fixed 58 (blockSizes.getD block.length 0) (word block)).map fun d => alphabet.getD d 0

def encodeBlocks : (left : Nat) → List UInt8 → List UInt8
  | 0, data => encodeBlock data
  | left + 1, data => encodeBlock (data.take 8) ++ encodeBlocks left (data.drop 8)

def encode (data : List UInt8) : List UInt8 := encodeBlocks (data.length / 8) data

/-- The characters of a block as digits. -/
def digits (below : Int → Int8) (chars : List UInt8) : List Nat :=
  chars.map fun c => (digit below c).toNatClampNeg

variable {below : Int → Int8} {c : UInt8} {chars block data : List UInt8} {d k left : Nat}

theorem digit_alphabet (below : Int → Int8) (hd : d < 58) :
    ¬ digit below (alphabet.getD d 0) < 0 ∧
      (digit below (alphabet.getD d 0)).toNatClampNeg = d := by
  have htable : ∀ d < 58, ¬ (alphabet.getD d 0).toInt8.toInt < 0 ∧
      ¬ reverseAlphabet (alphabet.getD d 0).toInt8.toInt.toNat < 0 ∧
        (reverseAlphabet (alphabet.getD d 0).toInt8.toInt.toNat).toNatClampNeg = d := by
    decide +kernel
  obtain ⟨hindex, hdigit⟩ := htable d hd
  rw [digit, if_neg hindex]
  exact hdigit

/-- Characters of the alphabet stand for their places in it. -/
theorem digit_mem (below : Int → Int8) (hc : c ∈ alphabet) :
    ¬ digit below c < 0 ∧ (digit below c).toNatClampNeg = alphabet.idxOf c ∧
      alphabet.idxOf c < 58 ∧ alphabet.getD (alphabet.idxOf c) 0 = c := by
  have hlt : alphabet.idxOf c < alphabet.length := List.idxOf_lt_length_iff.mpr hc
  have hget : alphabet.getD (alphabet.idxOf c) 0 = c := by
    rw [List.getD_eq_getElem?_getD, List.getElem?_eq_getElem hlt, Option.getD_some,
      List.getElem_idxOf]
  have hdigit := digit_alphabet below hlt
  rw [hget] at hdigit
  exact ⟨hdigit.1, hdigit.2, hlt, hget⟩

theorem toNat_order {n : Nat} (h : n ≤ 10) : (UInt64.ofNat (58 ^ n)).toNat = 58 ^ n := by
  refine UInt64.toNat_ofNat_of_lt' ?_
  calc 58 ^ n ≤ 58 ^ 10 := Nat.pow_le_pow_right (by decide) h
    _ < UInt64.size := by decide

/-- The check notices every overflow. -/
theorem carry_iff (num order digit : UInt64) :
    (num + (umul128 order digit).1 < num ∨ (umul128 order digit).2 ≠ 0) ↔
      2 ^ 64 ≤ num.toNat + order.toNat * digit.toNat := by
  have hnum := num.toNat_lt
  have hproduct : order.toNat * digit.toNat < 2 ^ 64 * 2 ^ 64 :=
    Nat.mul_lt_mul'' order.toNat_lt digit.toNat_lt
  have hhigh : (umul128 order digit).2.toNat = order.toNat * digit.toNat / 2 ^ 64 := by
    refine UInt64.toNat_ofNat_of_lt' ?_
    change _ < 2 ^ 64
    omega
  rw [UInt64.lt_iff_toNat_lt, UInt64.toNat_add, ne_eq, ← UInt64.toNat_inj, hhigh]
  change (num.toNat + (order * digit).toNat) % 2 ^ 64 < _ ∨ ¬ _ = 0 ↔ _
  rw [UInt64.toNat_mul]
  omega

/-- What a block is read as. -/
def number (below : Int → Int8) (chars : List UInt8) : Nat := value 58 (digits below chars)

/-- All characters have a digit, and the number fits a word. -/
structure Reads (below : Int → Int8) (chars : List UInt8) : Prop where
  digits : ∀ c ∈ chars, ¬ digit below c < 0
  number_lt : number below chars < 2 ^ 64

theorem number_cons (below : Int → Int8) (c : UInt8) (later : List UInt8) :
    number below (c :: later) =
      number below later + 58 ^ later.length * (digit below c).toNatClampNeg := by
  rw [number, digits, List.map_cons, value_cons, List.length_map, number, digits]

theorem reads_cons {later : List UInt8} : Reads below (c :: later) ↔
    Reads below later ∧ ¬ digit below c < 0 ∧ number below (c :: later) < 2 ^ 64 := by
  constructor
  · rintro ⟨hdigits, hlt⟩
    refine ⟨⟨fun d hd => hdigits d (List.mem_cons_of_mem _ hd), ?_⟩,
      hdigits c List.mem_cons_self, hlt⟩
    rw [number_cons] at hlt
    exact (Nat.le_add_right _ _).trans_lt hlt
  · rintro ⟨hlater, hc, hlt⟩
    exact ⟨List.forall_mem_cons.mpr ⟨hc, hlater.digits⟩, hlt⟩

theorem decodeBlock_eq_some {b : UInt64 × UInt64} (h : chars.length ≤ 11) :
    decodeBlock below chars = some b ↔ Reads below chars ∧
      b = (UInt64.ofNat (number below chars), UInt64.ofNat (58 ^ chars.length)) := by
  induction chars generalizing b with
  | nil =>
    rw [decodeBlock, Option.some_inj, eq_comm]
    exact (and_iff_right ⟨fun c hc => absurd hc List.not_mem_nil, Nat.two_pow_pos 64⟩).symm
  | cons c later ih =>
    have hlater : later.length ≤ 10 := Nat.le_of_succ_le_succ h
    rw [decodeBlock, reads_cons]
    cases hblock : decodeBlock below later with
    | none =>
      refine iff_of_false (Option.some_ne_none b).symm fun hreads => ?_
      have hsome := (ih (hlater.trans (by decide))).mpr ⟨hreads.1.1, rfl⟩
      exact Option.some_ne_none _ (hsome.symm.trans hblock)
    | some block =>
      obtain ⟨hreads, rfl⟩ := (ih (hlater.trans (by decide))).mp hblock
      have hnum : (UInt64.ofNat (number below later)).toNat = number below later :=
        UInt64.toNat_ofNat_of_lt' hreads.number_lt
      have hdigit : (UInt64.ofNat (digit below c).toNatClampNeg).toNat =
          (digit below c).toNatClampNeg := by
        refine UInt64.toNat_ofNat_of_lt' ?_
        have hbyte := (digit below c).toInt_lt
        change (digit below c).toInt.toNat < 2 ^ 64
        omega
      have hcarry := carry_iff (UInt64.ofNat (number below later))
        (UInt64.ofNat (58 ^ later.length)) (UInt64.ofNat (digit below c).toNatClampNeg)
      rw [hnum, hdigit, toNat_order hlater, ← number_cons] at hcarry
      dsimp only
      by_cases hc : digit below c < 0
      · rw [if_pos hc]
        exact iff_of_false (Option.some_ne_none b).symm fun hall => hall.1.2.1 hc
      rw [if_neg hc]
      by_cases hover : 2 ^ 64 ≤ number below (c :: later)
      · rw [if_pos (hcarry.mpr hover)]
        exact iff_of_false (Option.some_ne_none b).symm fun hall =>
          Nat.not_lt.mpr hover hall.1.2.2
      · have hnext : UInt64.ofNat (number below (c :: later)) = UInt64.ofNat (number below later) +
            UInt64.ofNat (58 ^ later.length) * UInt64.ofNat (digit below c).toNatClampNeg := by
          rw [number_cons, UInt64.ofNat_add, UInt64.ofNat_mul]
        have horder : UInt64.ofNat (58 ^ (c :: later).length) =
            UInt64.ofNat (58 ^ later.length) * alphabetSize := by
          rw [List.length_cons, pow_succ, UInt64.ofNat_mul]
          rfl
        rw [if_neg fun hor => hover (hcarry.mp hor), Option.some_inj, eq_comm, hnext, horder]
        exact (and_iff_right ⟨hreads, hc, Nat.lt_of_not_le hover⟩).symm

/-- The bytes that are given out spell the number, as far as they go. -/
theorem value_emit (hk : k ≤ 8) (num : UInt64) :
    value 256 ((emit k num).map UInt8.toNat) = num.toNat % 256 ^ k := by
  induction k with
  | zero => exact (Nat.mod_one _).symm
  | succ k ih =>
    have hshift : (8 * UInt64.ofNat k).toNat % 64 = 8 * k := by
      have hsmall : (UInt64.ofNat k).toNat = k :=
        UInt64.toNat_ofNat_of_lt' (by change k < 2 ^ 64; omega)
      rw [UInt64.toNat_mul, hsmall]
      change 8 * k % 2 ^ 64 % 64 = _
      omega
    have hbyte : (num >>> (8 * UInt64.ofNat k)).toUInt8.toNat = num.toNat / 256 ^ k % 256 := by
      rw [UInt64.toNat_toUInt8, UInt64.toNat_shiftRight, hshift, Nat.shiftRight_eq_div_pow, pow_mul]
      rfl
    rw [emit, List.map_cons, value_cons, ih (by omega), hbyte, List.length_map, length_emit,
      Nat.mod_pow_succ]

theorem bytes_lt (block : List UInt8) : ∀ d ∈ block.map UInt8.toNat, d < 256 := by
  intro d hd
  obtain ⟨b, -, rfl⟩ := List.mem_map.mp hd
  exact b.toNat_lt

theorem word_lt (block : List UInt8) : word block < 256 ^ block.length := by
  rw [word, ← List.length_map UInt8.toNat]
  exact value_lt (by decide) (bytes_lt block)

theorem word_inj (hlength : block.length = data.length) (h : word block = word data) :
    block = data := by
  have hmap := value_inj (by decide) (bytes_lt block) (bytes_lt data)
    (by rw [List.length_map, List.length_map, hlength]) h
  exact List.map_injective_iff.mpr (fun _ _ => UInt8.toNat_inj.mp) hmap

/-- The characters of a block are enough for its bytes. -/
theorem pow_le_pow : ∀ k ≤ 8, 256 ^ k ≤ 58 ^ blockSizes.getD k 0 := by decide

theorem blockSize_le : ∀ k ≤ 8, blockSizes.getD k 0 ≤ 11 := by decide

theorem word_lt_pow (h : block.length ≤ 8) : word block < 58 ^ blockSizes.getD block.length 0 :=
  (word_lt block).trans_le (pow_le_pow _ h)

theorem length_encodeBlock (h : block.length ≤ 8) :
    (encodeBlock block).length = blockSizes.getD block.length 0 := by
  rw [encodeBlock, List.length_map, length_fixed (by decide) (word_lt_pow h)]

theorem mem_encodeBlock (hc : c ∈ encodeBlock block) : c ∈ alphabet := by
  obtain ⟨d, hd, rfl⟩ := List.mem_map.mp hc
  have hlt : d < alphabet.length := lt_of_mem_fixed (b := 58) (by decide) hd
  rw [List.getD_eq_getElem?_getD, List.getElem?_eq_getElem hlt, Option.getD_some]
  exact List.getElem_mem hlt

theorem number_encodeBlock (below : Int → Int8) (h : block.length ≤ 8) :
    number below (encodeBlock block) = word block := by
  have hdigits : digits below (encodeBlock block) =
      fixed 58 (blockSizes.getD block.length 0) (word block) := by
    rw [digits, encodeBlock, List.map_map]
    refine (List.map_congr_left fun d hd => ?_).trans (List.map_id _)
    exact (digit_alphabet below (lt_of_mem_fixed (by decide) hd)).2
  rw [number, hdigits, value_fixed (by decide) (word_lt_pow h)]

theorem reads_encodeBlock (below : Int → Int8) (h : block.length ≤ 8) :
    Reads below (encodeBlock block) where
  digits _ hc := (digit_mem below (mem_encodeBlock hc)).1
  number_lt := by
    rw [number_encodeBlock below h]
    calc word block < 256 ^ block.length := word_lt block
      _ ≤ 256 ^ 8 := Nat.pow_le_pow_right (by decide) h

/-- A block is read back. -/
theorem emit_encodeBlock (below : Int → Int8) (h : block.length ≤ 8) :
    emit block.length (UInt64.ofNat (number below (encodeBlock block))) = block := by
  refine word_inj (length_emit _ _) ?_
  have hnum : (UInt64.ofNat (number below (encodeBlock block))).toNat = word block := by
    rw [UInt64.toNat_ofNat_of_lt' (reads_encodeBlock below h).number_lt,
      number_encodeBlock below h]
  rw [word, value_emit h, hnum, Nat.mod_eq_of_lt (word_lt block)]

/-- Characters of the alphabet that stand for no more than the bytes hold are written again. -/
theorem encodeBlock_emit (hmem : ∀ c ∈ chars, c ∈ alphabet) (hk : k ≤ 8)
    (hlength : chars.length = blockSizes.getD k 0) (hlt : number below chars < 256 ^ k) :
    encodeBlock (emit k (UInt64.ofNat (number below chars))) = chars := by
  have hword : word (emit k (UInt64.ofNat (number below chars))) = number below chars := by
    have hsmall : number below chars < 2 ^ 64 :=
      hlt.trans_le (Nat.pow_le_pow_right (by decide : 0 < 256) hk)
    rw [word, value_emit hk, UInt64.toNat_ofNat_of_lt' hsmall, Nat.mod_eq_of_lt hlt]
  have hdigits : ∀ d ∈ digits below chars, d < 58 := by
    intro d hd
    obtain ⟨c, hc, rfl⟩ := List.mem_map.mp hd
    obtain ⟨-, hdigit, hidx, -⟩ := digit_mem below (hmem c hc)
    rwa [hdigit]
  have hfixed := fixed_value (by decide) hdigits
  rw [digits, List.length_map, hlength] at hfixed
  rw [encodeBlock, length_emit, hword, number, digits, hfixed, List.map_map]
  refine (List.map_congr_left fun c hc => ?_).trans (List.map_id _)
  obtain ⟨-, hdigit, -, hget⟩ := digit_mem below (hmem c hc)
  change alphabet.getD (digit below c).toNatClampNeg 0 = c
  rw [hdigit, hget]

/-- The last block of a text, with `left` full ones in front. -/
def lastBlock (left : Nat) (chars : List UInt8) : List UInt8 := chars.drop (11 * left)

theorem take_encodeBlocks (h : 8 ≤ data.length) (later : List UInt8) :
    (encodeBlock (data.take 8) ++ later).take 11 = encodeBlock (data.take 8) ∧
      (encodeBlock (data.take 8) ++ later).drop 11 = later := by
  have hlength : (encodeBlock (data.take 8)).length = 11 := by
    have htake : (data.take 8).length = 8 := by rw [List.length_take]; omega
    rw [length_encodeBlock htake.le, htake]
    rfl
  exact ⟨List.take_left' hlength, List.drop_left' hlength⟩

/-- What is encoded is decoded. -/
theorem decodeBlocks_encodeBlocks (below : Int → Int8) (hk : k ≤ 8)
    (hlength : data.length = 8 * left + k) :
    decodeBlocks below k left (encodeBlocks left data) = some data := by
  induction left generalizing data with
  | zero =>
    have hdata : data.length = k := by omega
    have hblock := (decodeBlock_eq_some (b := (_, _))
      (by rw [length_encodeBlock (hdata ▸ hk)]; exact blockSize_le _ (hdata ▸ hk))).mpr
      ⟨reads_encodeBlock below (hdata ▸ hk), rfl⟩
    rw [decodeBlocks, encodeBlocks, hblock, Option.map_some, ← hdata,
      emit_encodeBlock below (hdata ▸ hk)]
  | succ left ih =>
    have htake : (data.take 8).length = 8 := by rw [List.length_take]; omega
    obtain ⟨hfirst, hlater⟩ := take_encodeBlocks (show 8 ≤ data.length by omega)
      (encodeBlocks left (data.drop 8))
    have hblock := (decodeBlock_eq_some (b := (_, _))
      (by rw [length_encodeBlock htake.le]; exact blockSize_le _ htake.le)).mpr
      ⟨reads_encodeBlock below htake.le, rfl⟩
    have hrest := ih (show (data.drop 8).length = 8 * left + k by rw [List.length_drop]; omega)
    have hemit := emit_encodeBlock below htake.le
    rw [htake] at hemit
    rw [encodeBlocks, decodeBlocks, hfirst, hlater, hblock]
    dsimp only
    rw [hrest, Option.map_some, hemit, List.take_append_drop]

/-- What is decoded is encoded again, if it is written in the alphabet and the last block
stands for no more than its bytes hold. -/
theorem encodeBlocks_decodeBlocks (hmem : ∀ c ∈ chars, c ∈ alphabet) (hk : k ≤ 8)
    (hlength : chars.length = 11 * left + blockSizes.getD k 0)
    (hlast : number below (lastBlock left chars) < 256 ^ k)
    (h : decodeBlocks below k left chars = some data) : encodeBlocks left data = chars := by
  induction left generalizing chars data with
  | zero =>
    obtain ⟨block, hblock, rfl⟩ := Option.map_eq_some_iff.mp h
    have hchars : chars.length = blockSizes.getD k 0 := by omega
    obtain ⟨-, rfl⟩ := (decodeBlock_eq_some (hchars.trans_le (blockSize_le k hk))).mp hblock
    exact encodeBlock_emit hmem hk hchars hlast
  | succ left ih =>
    have htake : (chars.take 11).length = 11 := by rw [List.length_take]; omega
    rw [decodeBlocks] at h
    split at h
    · cases h
    rename_i num order hblock
    obtain ⟨hreads, hnum⟩ := (decodeBlock_eq_some htake.le).mp hblock
    obtain ⟨later, hlater, rfl⟩ := Option.map_eq_some_iff.mp h
    have hfirst := encodeBlock_emit (k := 8) (fun c hc => hmem c (List.mem_of_mem_take hc)) le_rfl
      htake hreads.number_lt
    have hrest := ih (fun c hc => hmem c (List.mem_of_mem_drop hc))
      (by rw [List.length_drop]; omega)
      (by rwa [lastBlock, List.drop_drop, Nat.add_comm, ← Nat.mul_succ]) hlater
    rw [encodeBlocks, List.take_left' (length_emit 8 num), List.drop_left' (length_emit 8 num),
      hrest, (Prod.mk.inj hnum).1, hfirst, List.take_append_drop]

theorem length_encodeBlocks (hk : k ≤ 8) (hlength : data.length = 8 * left + k) :
    (encodeBlocks left data).length = 11 * left + blockSizes.getD k 0 := by
  induction left generalizing data with
  | zero =>
    have hdata : data.length = k := by omega
    rw [encodeBlocks, length_encodeBlock (hdata ▸ hk), hdata, Nat.mul_zero, Nat.zero_add]
  | succ left ih =>
    have htake : (data.take 8).length = 8 := by rw [List.length_take]; omega
    have hfull : blockSizes.getD 8 0 = 11 := rfl
    rw [encodeBlocks, List.length_append, length_encodeBlock htake.le, htake, hfull,
      ih (by rw [List.length_drop]; omega)]
    omega

theorem blockSizes_idxOf : ∀ k < 8, blockSizes.getD k 0 < 11 ∧
    blockSizes.idxOf? (blockSizes.getD k 0) = some k ∧
      (7 ≤ blockSizes.getD k 0 → 5 ≤ k) := by decide

theorem length_encode (data : List UInt8) : (encode data).length =
    11 * (data.length / 8) + blockSizes.getD (data.length % 8) 0 :=
  length_encodeBlocks (by omega) (Nat.div_add_mod data.length 8).symm

theorem decodeData_encode (below : Int → Int8) (data : Data)
    (hmin : minSize ≤ (encode data.1).length) (hmax : (encode data.1).length ≤ maxSize) :
    decodeData below (encode data.1) = some data := by
  obtain ⟨hlast, hindex, hseven⟩ := blockSizes_idxOf (data.1.length % 8) (by omega)
  have hlength := length_encode data.1
  have hdiv : (encode data.1).length / 11 = data.1.length / 8 := by omega
  have hmod : (encode data.1).length % 11 = blockSizes.getD (data.1.length % 8) 0 := by omega
  refine decodeData_eq_some.mpr ⟨⟨hmin, hmax⟩, data.1.length % 8, hmod ▸ hindex, ?_, ?_⟩
  · simp only [minSize] at hmin
    simp only [minDataSize]
    omega
  · rw [hdiv]
    exact decodeBlocks_encodeBlocks below (by omega) (Nat.div_add_mod _ 8).symm

/-- What an address says: a tag, two keys, and more bytes, before the checksum. -/
def content (tag : UInt64) (spend view extra : List UInt8) : List UInt8 :=
  Varint.encode tag.toNat ++ spend ++ view ++ extra

/-- The text of an address. -/
def write (tag : UInt64) (spend view extra : List UInt8) : List UInt8 :=
  encode (content tag spend view extra ++ (keccak (content tag spend view extra)).take checksumSize)

theorem length_checksum (data : List UInt8) : ((keccak data).take checksumSize).length = 4 := by
  rw [List.length_take, length_keccak]
  rfl

theorem content_append (tag : UInt64) (spend view extra sum : List UInt8) :
    content tag spend view extra ++ sum =
      Varint.encode tag.toNat ++ (spend ++ (view ++ (extra ++ sum))) := by
  simp only [content, List.append_assoc]

/-- Where the parts of an address are. -/
theorem slice_content {tag : UInt64} {spend view extra sum : List UInt8} (hspend : spend.length = 32)
    (hview : view.length = 32) (hsum : sum.length = 4) {data : List UInt8}
    (hdata : data = content tag spend view extra ++ sum) :
    Varint.size data + 68 ≤ data.length ∧ Splice.slice data (Varint.size data) 32 = spend ∧
      Splice.slice data (Varint.size data + 32) 32 = view ∧
        Splice.slice data (data.length - 4) 4 = sum ∧
          data.take (data.length - 4) = content tag spend view extra := by
  have hsize : Varint.size data = (Varint.encode tag.toNat).length := by
    rw [hdata, content_append]
    exact Varint.size_encode _ _
  have hlength : data.length = (content tag spend view extra).length + 4 := by
    rw [hdata, List.length_append, hsum]
  have hcontent : (content tag spend view extra).length =
      (Varint.encode tag.toNat).length + 64 + extra.length := by
    simp only [content, List.length_append, hspend, hview]
  refine ⟨by omega, ?_, ?_, ?_, ?_⟩
  · rw [hsize, hdata, content_append, Splice.slice, List.drop_left, List.take_left' hspend]
  · rw [hsize, hdata, content_append, Splice.slice, ← List.drop_drop, List.drop_left,
      List.drop_left' hspend, List.take_left' hview]
  · rw [hlength, Nat.add_sub_cancel, hdata, Splice.slice, List.drop_left,
      List.take_of_length_le hsum.le]
  · rw [hlength, Nat.add_sub_cancel, hdata, List.take_left]

/-- An address of an allowed length is read back, whatever the object was before. -/
theorem decode_write (below : Int → Int8) (a : WalletAddress) (tag : UInt64)
    {spend view : List UInt8} (extra : List UInt8) (hspend : spend.length = 32)
    (hview : view.length = 32) (hmin : minSize ≤ (write tag spend view extra).length)
    (hmax : (write tag spend view extra).length ≤ maxSize)
    (hplain : Plain (write tag spend view extra)) :
    decode below a (write tag spend view extra) = (⟨write tag spend view extra, tag,
      (keccak (content tag spend view extra)).take checksumSize, spend, view⟩, true) := by
  have hbytes : (content tag spend view extra ++
      (keccak (content tag spend view extra)).take checksumSize).length < 2 ^ 63 := by
    have hlength := length_encode (content tag spend view extra ++
      (keccak (content tag spend view extra)).take checksumSize)
    rw [write] at hmax
    simp only [maxSize] at hmax
    omega
  let data : Data := ⟨_, hbytes⟩
  obtain ⟨hroom, hspend', hview', hsum, hcontent⟩ :=
    slice_content hspend hview (length_checksum _) (rfl : data.1 = _)
  have haccepts : Accepts data.1 := by
    refine ⟨by omega, ?_⟩
    rw [hsum, digest, checksumSize, hcontent]
  have hdecoded : decodeData below (write tag spend view extra) = some data :=
    decodeData_encode below data hmin hmax
  obtain ⟨tag', hdecode, hvalue⟩ := decode_accepts hplain (a := a) hdecoded haccepts
  have htag : tag' = tag := by
    rw [hvalue tag.toNat _ tag.toNat_lt (content_append ..), UInt64.ofNat_toNat]
  rw [hdecode, hsum, hspend', hview', htag]

theorem decode_write_ones :
    decode (fun _ => 0) {} (write 18 (List.replicate 32 1) (List.replicate 32 255) []) =
      (⟨write 18 (List.replicate 32 1) (List.replicate 32 255) [], 18,
        (keccak (content 18 (List.replicate 32 1) (List.replicate 32 255) [])).take checksumSize,
        List.replicate 32 1, List.replicate 32 255⟩, true) := by
  have hcontent : (content 18 (List.replicate 32 1) (List.replicate 32 255) []).length = 65 := by
    decide +kernel
  have hlength : (write 18 (List.replicate 32 1) (List.replicate 32 255) []).length = 95 := by
    rw [write, length_encode, List.length_append, length_checksum, hcontent]
    rfl
  exact decode_write (fun _ => 0) {} 18 [] (List.length_replicate ..) (List.length_replicate ..)
    (by rw [hlength]; decide) (by rw [hlength]; decide) (by decide +kernel)

end VeloxHash.WalletAddress
