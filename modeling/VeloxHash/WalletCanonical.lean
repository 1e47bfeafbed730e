import VeloxHash.WalletEncoding

/-! Which accepted addresses are the text that their own contents are written as. -/

namespace VeloxHash.WalletAddress

open Radix

/-- The number that characters stand for by their places in the alphabet. -/
def letters (chars : List UInt8) : Nat := value 58 (chars.map alphabet.idxOf)

/-- The last `k` bytes of it. -/
def spellBlock (k : Nat) (chars : List UInt8) : List UInt8 :=
  (fixed 256 k (letters chars % 256 ^ k)).map UInt8.ofNat

def spellBlocks (k : Nat) : (left : Nat) → List UInt8 → List UInt8
  | 0, chars => spellBlock k chars
  | left + 1, chars => spellBlock 8 (chars.take 11) ++ spellBlocks k left (chars.drop 11)

/-- The bytes that a text spells. -/
def spell (s : List UInt8) : List UInt8 :=
  spellBlocks (blockSizes.idxOf (s.length % 11)) (s.length / 11) s

/-- The bytes of the tag. -/
def tagBytes (s : List UInt8) : List UInt8 := (spell s).take (Varint.size (spell s))

/-- A text in the alphabet whose last block stands for no more than its bytes hold, with the
tag in its shortest form and the checksum behind the keys. -/
structure Regular (s : List UInt8) : Prop where
  written : ∀ c ∈ s, c ∈ alphabet
  last_lt : letters (lastBlock (s.length / 11) s) < 256 ^ blockSizes.idxOf (s.length % 11)
  minimal : Varint.Minimal (tagBytes s)
  tag_lt : Varint.value (tagBytes s) < 2 ^ 64
  room : Varint.size (spell s) + 68 ≤ (spell s).length

/-- The text is what the contents are written as. -/
structure Canonical (a : WalletAddress) (s : List UInt8) : Prop where
  spend : a.publicSpendKey.length = 32
  view : a.publicViewKey.length = 32
  checksum : a.checksum.length = 4
  text : ∃ extra, s = encode (content a.tag a.publicSpendKey a.publicViewKey extra ++ a.checksum)

variable {below : Int → Int8} {a : WalletAddress} {c : UInt8} {chars data s : List UInt8}
  {k left : Nat}

theorem number_eq_letters (below : Int → Int8) (hmem : ∀ c ∈ chars, c ∈ alphabet) :
    number below chars = letters chars := by
  rw [number, letters, digits]
  exact congrArg _ (List.map_congr_left fun c hc => (digit_mem below (hmem c hc)).2.1)

theorem emit_eq_spellBlock (hmem : ∀ c ∈ chars, c ∈ alphabet) (hk : k ≤ 8)
    (hreads : Reads below chars) : emit k (UInt64.ofNat (number below chars)) =
      spellBlock k chars := by
  have hvalue := value_emit hk (UInt64.ofNat (number below chars))
  have hfixed := fixed_value (by decide) (bytes_lt (emit k (UInt64.ofNat (number below chars))))
  rw [hvalue, List.length_map, length_emit, UInt64.toNat_ofNat_of_lt' hreads.number_lt,
    number_eq_letters below hmem] at hfixed
  rw [spellBlock, hfixed, List.map_map, number_eq_letters below hmem]
  exact ((List.map_congr_left fun b _ => UInt8.ofNat_toNat).trans (List.map_id _)).symm

/-- What is decoded is what the text spells. -/
theorem eq_spellBlocks (hmem : ∀ c ∈ chars, c ∈ alphabet) (hk : k ≤ 8)
    (hlength : chars.length = 11 * left + blockSizes.getD k 0)
    (h : decodeBlocks below k left chars = some data) : data = spellBlocks k left chars := by
  induction left generalizing chars data with
  | zero =>
    obtain ⟨block, hblock, rfl⟩ := Option.map_eq_some_iff.mp h
    have hchars : chars.length = blockSizes.getD k 0 := by omega
    obtain ⟨hreads, rfl⟩ := (decodeBlock_eq_some (hchars.trans_le (blockSize_le k hk))).mp hblock
    exact emit_eq_spellBlock hmem hk hreads
  | succ left ih =>
    have htake : (chars.take 11).length ≤ 11 := List.length_take_le _ _
    rw [decodeBlocks] at h
    split at h
    · cases h
    rename_i num order hblock
    obtain ⟨hreads, hnum⟩ := (decodeBlock_eq_some htake).mp hblock
    obtain ⟨later, hlater, rfl⟩ := Option.map_eq_some_iff.mp h
    have hrest := ih (fun c hc => hmem c (List.mem_of_mem_drop hc))
      (by rw [List.length_drop]; omega) hlater
    rw [spellBlocks, hrest, (Prod.mk.inj hnum).1,
      emit_eq_spellBlock (fun c hc => hmem c (List.mem_of_mem_take hc)) le_rfl hreads]

theorem blockSizes_idxOf_some {n : Nat} (h : blockSizes.idxOf? n = some k) :
    blockSizes.idxOf n = k ∧ k ≤ 8 ∧ blockSizes.getD k 0 = n := by
  obtain ⟨hlt, hget, -⟩ := List.idxOf?_eq_some_iff.mp h
  refine ⟨?_, Nat.le_of_lt_succ hlt, ?_⟩
  · rw [List.idxOf_eq_getD_idxOf?, h, Option.getD_some]
  · rw [List.getD_eq_getElem?_getD, List.getElem?_eq_getElem hlt, Option.getD_some, hget]

theorem mem_encodeBlocks (hc : c ∈ encodeBlocks left data) : c ∈ alphabet := by
  induction left generalizing data with
  | zero => exact mem_encodeBlock hc
  | succ left ih => exact (List.mem_append.mp hc).elim mem_encodeBlock ih

/-- The last block of what is written stands for the last bytes. -/
theorem lastBlock_encodeBlocks (hlength : data.length = 8 * left + k) (hk : k ≤ 8) :
    lastBlock left (encodeBlocks left data) = encodeBlock (data.drop (8 * left)) := by
  induction left generalizing data with
  | zero => rfl
  | succ left ih =>
    obtain ⟨-, hlater⟩ := take_encodeBlocks (show 8 ≤ data.length by omega)
      (encodeBlocks left (data.drop 8))
    have hrest := ih (show (data.drop 8).length = 8 * left + k by rw [List.length_drop]; omega)
    rw [lastBlock] at hrest
    rw [lastBlock, encodeBlocks, Nat.mul_succ, Nat.add_comm, ← List.drop_drop, hlater, hrest,
      List.drop_drop, Nat.mul_succ, Nat.add_comm]

/-- What `decode` reads off the text is what it spells, if it is written in the alphabet. -/
theorem decoded_eq_spell {data : Data} (hmem : ∀ c ∈ s, c ∈ alphabet)
    (h : decodeData below s = some data) : data.1 = spell s := by
  obtain ⟨-, k, hindex, -, hblocks⟩ := decodeData_eq_some.mp h
  obtain ⟨hk, hle, hsize⟩ := blockSizes_idxOf_some hindex
  rw [spell, hk]
  refine eq_spellBlocks hmem hle ?_ hblocks
  rw [hsize, Nat.div_add_mod]

/-- A regular text is written again. -/
theorem encode_spell {data : Data} (h : decodeData below s = some data)
    (hmem : ∀ c ∈ s, c ∈ alphabet)
    (hlast : letters (lastBlock (s.length / 11) s) < 256 ^ blockSizes.idxOf (s.length % 11)) :
    encode (spell s) = s := by
  have hspell := decoded_eq_spell hmem h
  obtain ⟨-, k, hindex, -, hblocks⟩ := decodeData_eq_some.mp h
  obtain ⟨hk, hle, hsize⟩ := blockSizes_idxOf_some hindex
  have hlength : s.length = 11 * (s.length / 11) + blockSizes.getD k 0 := by
    rw [hsize, Nat.div_add_mod]
  have hletters : letters (lastBlock (s.length / 11) s) =
      number below (lastBlock (s.length / 11) s) :=
    (number_eq_letters below fun c hc => hmem c (List.mem_of_mem_drop hc)).symm
  rw [hk, hletters] at hlast
  have hcount : data.1.length / 8 = s.length / 11 := by
    have hdata := length_decodeBlocks hblocks
    by_cases height : k = 8
    · subst height
      have heleven : s.length % 11 = 11 := hsize.symm
      omega
    · omega
  rw [← hspell, encode, hcount]
  exact encodeBlocks_decodeBlocks hmem hle hlength hlast hblocks

theorem regular_of_canonical {data : Data} (hdata : decodeData below s = some data)
    (h : Canonical a s) : Regular s := by
  obtain ⟨extra, htext⟩ := h.text
  obtain ⟨⟨hmin, hmax⟩, -⟩ := decodeData_eq_some.mp hdata
  generalize hbytes : content a.tag a.publicSpendKey a.publicViewKey extra ++ a.checksum = bytes
    at htext
  have hlength := length_encode bytes
  rw [← htext] at hlength
  have hsmall : bytes.length < 2 ^ 63 := by
    simp only [maxSize] at hmax
    omega
  obtain ⟨hlast, hindex, -⟩ := blockSizes_idxOf (bytes.length % 8) (by omega)
  have hdiv : s.length / 11 = bytes.length / 8 := by omega
  have hmod : s.length % 11 = blockSizes.getD (bytes.length % 8) 0 := by omega
  have hmem : ∀ c ∈ s, c ∈ alphabet := fun c hc => mem_encodeBlocks (htext ▸ hc)
  have hdecoded := decodeData_encode below ⟨bytes, hsmall⟩ (htext ▸ hmin) (htext ▸ hmax)
  rw [← htext] at hdecoded
  have hspell : bytes = spell s := decoded_eq_spell hmem hdecoded
  have htag : tagBytes s = Varint.encode a.tag.toNat := by
    rw [tagBytes, ← hspell, ← hbytes, content_append, Varint.size_encode, List.take_left]
  refine ⟨hmem, ?_, ?_, ?_, ?_⟩
  · have hblock : (bytes.drop (8 * (bytes.length / 8))).length = bytes.length % 8 := by
      rw [List.length_drop]
      omega
    have hle : (bytes.drop (8 * (bytes.length / 8))).length ≤ 8 := by omega
    have hwritten : lastBlock (bytes.length / 8) s =
        encodeBlock (bytes.drop (8 * (bytes.length / 8))) := by
      rw [htext]
      exact lastBlock_encodeBlocks (Nat.div_add_mod _ 8).symm (by omega)
    have hword := word_lt (bytes.drop (8 * (bytes.length / 8)))
    rw [hmod, (blockSizes_idxOf_some hindex).1, hdiv, hwritten,
      ← number_eq_letters below fun c hc => mem_encodeBlock hc, number_encodeBlock below hle]
    rwa [hblock] at hword
  · rw [htag]
    exact Varint.minimal_encode _
  · rw [htag, Varint.value_encode]
    exact a.tag.toNat_lt
  · rw [← hspell]
    exact (slice_content h.spend h.view h.checksum hbytes.symm).1

theorem canonical_of_regular {data : Data} (hplain : Plain s)
    (hdata : decodeData below s = some data) (haccepts : Accepts data.1) (h : Regular s) :
    Canonical (decode below a s).1 s := by
  have hspell := decoded_eq_spell h.written hdata
  obtain ⟨tag, hdecode, hvalue⟩ := decode_accepts hplain (a := a) hdata haccepts
  obtain ⟨hmem, hblock, hminimal, htag, hroom⟩ := h
  rw [tagBytes, ← hspell] at hminimal htag
  rw [← hspell] at hroom
  have hencoded := Varint.encode_value (Varint.size_take (by omega)) hminimal
  generalize Varint.value (data.1.take (Varint.size data.1)) = v at hencoded htag
  have hfront : data.1 = Varint.encode v ++ data.1.drop (Varint.size data.1) := by
    rw [hencoded, List.take_append_drop]
  have hpart (p q : Nat) : Splice.slice data.1 p q ++ data.1.drop (p + q) = data.1.drop p := by
    rw [Splice.slice, ← List.drop_drop, List.take_append_drop]
  have hlength {p q : Nat} (hpq : p + q ≤ data.1.length) : (Splice.slice data.1 p q).length = q :=
    Splice.length_slice hpq
  rw [hdecode]
  let extra := Splice.slice data.1 (Varint.size data.1 + 64)
    (data.1.length - 4 - (Varint.size data.1 + 64))
  refine ⟨hlength (by omega), hlength (by omega), hlength (by omega), extra, ?_⟩
  have hlast : Splice.slice data.1 (data.1.length - 4) 4 = data.1.drop (data.1.length - 4) := by
    rw [Splice.slice, List.take_of_length_le]
    rw [List.length_drop]
    omega
  have hextra : extra ++ data.1.drop (data.1.length - 4) =
      data.1.drop (Varint.size data.1 + 64) := by
    have hend : Varint.size data.1 + 64 + (data.1.length - 4 - (Varint.size data.1 + 64)) =
        data.1.length - 4 := Nat.add_sub_cancel' (by omega)
    exact hend ▸ hpart (Varint.size data.1 + 64) (data.1.length - 4 - (Varint.size data.1 + 64))
  rw [content_append, hvalue v _ htag hfront, UInt64.toNat_ofNat_of_lt' htag, hlast, hextra,
    hpart (Varint.size data.1 + 32) 32, hpart (Varint.size data.1) 32, ← hfront, hspell]
  exact (encode_spell hdata hmem hblock).symm

/-- An accepted text is canonical exactly if it is regular, and regular texts that spell the
same bytes are one text. -/
theorem decode_canonical (below : Int → Int8) (a : WalletAddress) (hplain : Plain s)
    (haccepted : (decode below a s).2 = true) :
    (Canonical (decode below a s).1 s ↔ Regular s) ∧
      ∀ s', Plain s' → (decode below a s').2 = true → Regular s → Regular s' →
        spell s' = spell s → s' = s := by
  obtain ⟨data, hdata, haccepts⟩ := accepts_of_decode hplain haccepted
  refine ⟨⟨regular_of_canonical hdata, canonical_of_regular hplain hdata haccepts⟩, ?_⟩
  intro s' hplain' haccepted' hregular hregular' hspell
  obtain ⟨data', hdata', -⟩ := accepts_of_decode hplain' haccepted'
  rw [← encode_spell hdata hregular.written hregular.last_lt,
    ← encode_spell hdata' hregular'.written hregular'.last_lt, hspell]

/-- The first bytes of the digest of tag 18 and keys of zeros. -/
def zerosSum : List UInt8 := [51, 187, 148, 65]

/-- The bytes of that address. -/
def zeros : Data :=
  ⟨18 :: List.replicate 64 0 ++ zerosSum, by decide +kernel⟩

theorem zeros_accepts : Accepts zeros.1 := ⟨by decide, by decide +kernel⟩

theorem decode_zeros (below : Int → Int8) (a : WalletAddress) (hplain : Plain s)
    (hdata : decodeData below s = some zeros) : decode below a s =
      (⟨s, 18, zerosSum, List.replicate 32 0, List.replicate 32 0⟩, true) := by
  obtain ⟨tag, hdecode, hvalue⟩ := decode_accepts hplain (a := a) hdata zeros_accepts
  rw [hdecode, hvalue 18 _ (by decide) (by rw [Varint.encode_small (by decide)]; rfl)]
  rfl

/-- Their text, up to its last block. -/
def zerosFront : List UInt8 :=
  [52, 49, 100, 55, 70, 88, 106, 115, 119, 112, 75] ++ List.replicate 77 49

def zerosWritten : List UInt8 := zerosFront ++ [49, 50, 75, 104, 78, 105, 52]

/-- The last block stands for `2 ^ 40` more. -/
def zerosOverflowing : List UInt8 := zerosFront ++ [86, 117, 86, 109, 115, 69, 103]

theorem decode_canonical_zeros :
    (Canonical (decode (fun _ => -1) {} zerosWritten).1 zerosWritten ↔ Regular zerosWritten) ∧
      ∀ s', Plain s' → (decode (fun _ => -1) {} s').2 = true → Regular zerosWritten →
        Regular s' → spell s' = spell zerosWritten → s' = zerosWritten :=
  decode_canonical (fun _ => -1) {} (by decide)
    (by rw [decode_zeros (fun _ => -1) {} (by decide) (by decide +kernel)])

/-- Two texts are accepted as the same address; one of them is not what it is written as. -/
theorem two_texts :
    decode (fun _ => -1) {} zerosWritten =
        (⟨zerosWritten, 18, zerosSum, List.replicate 32 0, List.replicate 32 0⟩, true) ∧
      decode (fun _ => -1) {} zerosOverflowing =
        (⟨zerosOverflowing, 18, zerosSum, List.replicate 32 0, List.replicate 32 0⟩, true) ∧
      zerosOverflowing ≠ zerosWritten ∧
      ¬ Canonical (decode (fun _ => -1) {} zerosOverflowing).1 zerosOverflowing := by
  have hwritten : decodeData (fun _ => -1) zerosWritten = some zeros := by decide +kernel
  have hdata : decodeData (fun _ => -1) zerosOverflowing = some zeros := by decide +kernel
  refine ⟨decode_zeros _ _ (by decide) hwritten, decode_zeros _ _ (by decide) hdata, by decide,
    fun h => ?_⟩
  have hlast := (regular_of_canonical hdata h).last_lt
  exact absurd hlast (by decide +kernel)

end VeloxHash.WalletAddress
