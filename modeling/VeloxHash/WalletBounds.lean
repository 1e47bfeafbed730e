import VeloxHash.WalletCanonical
import VeloxHash.WalletScan
import VeloxHash.WalletTags

/-! Which accesses of `WalletAddress::decode` are inside the address and inside the table, and
when the length left for the checksum is no underflow. -/

namespace VeloxHash.WalletAddress

open ReaderProgram Splice

/-- Characters of the alphabet that stand for a number of one word. -/
structure Base58 (chars : List UInt8) : Prop where
  mem : ∀ c ∈ chars, c ∈ alphabet
  lt : letters chars < 2 ^ 64

/-- All that is read before a character is base58. -/
def Passed (text : List UInt8) (p : Nat) : Prop :=
  (∀ i < p / 11, Base58 (block text i)) ∧ Base58 (behindOf text p)

variable {below : Int → Int8} {c : UInt8} {chars text address : List UInt8} {i n p k left : Nat}

section Characters

theorem toInt_lt_zero_iff (c : UInt8) : c.toInt8.toInt < 0 ↔ 128 ≤ c.toNat := by
  have hall : ∀ n < 256, (UInt8.ofNat n).toInt8.toInt < 0 ↔ 128 ≤ n := by decide +kernel
  have hc := hall c.toNat c.toNat_lt
  rwa [UInt8.ofNat_toNat] at hc

/-- A character below 0x80 has a digit only if it is in the alphabet. -/
theorem mem_alphabet_of_digit (hc : c.toNat < 128) (hdigit : ¬ digit below c < 0) :
    c ∈ alphabet := by
  have hall : ∀ n < 128, ¬ reverseAlphabet (UInt8.ofNat n).toInt8.toInt.toNat < 0 →
      UInt8.ofNat n ∈ alphabet := by decide +kernel
  have hindex : ¬ c.toInt8.toInt < 0 := fun h => absurd ((toInt_lt_zero_iff c).mp h) (by omega)
  have hmem := hall c.toNat hc
  rw [UInt8.ofNat_toNat] at hmem
  rw [digit, if_neg hindex] at hdigit
  exact hmem hdigit

theorem Base58.reads (h : Base58 chars) (below : Int → Int8) : Reads below chars where
  digits c hc := (digit_mem below (h.mem c hc)).1
  number_lt := (number_eq_letters below h.mem).trans_lt h.lt

theorem base58_of_reads (h : Reads below chars) (hascii : ∀ c ∈ chars, c.toNat < 128) :
    Base58 chars := by
  have hmem : ∀ c ∈ chars, c ∈ alphabet := fun c hc =>
    mem_alphabet_of_digit (hascii c hc) (h.digits c hc)
  exact ⟨hmem, (number_eq_letters below hmem).symm.trans_lt h.number_lt⟩

theorem isSome_decodeBlock_iff (h : chars.length ≤ 11) :
    (decodeBlock below chars).isSome ↔ Reads below chars := by
  rw [Option.isSome_iff_exists]
  constructor
  · rintro ⟨b, hb⟩
    exact ((decodeBlock_eq_some h).mp hb).1
  · intro hreads
    exact ⟨_, (decodeBlock_eq_some h).mpr ⟨hreads, rfl⟩⟩

theorem Reads.drop (h : Reads below chars) (n : Nat) : Reads below (chars.drop n) := by
  induction n generalizing chars with
  | zero => exact h
  | succ n ih =>
    cases chars with
    | nil => exact h
    | cons c later => exact ih (reads_cons.mp h).1

end Characters

section Positions

theorem length_block_le (text : List UInt8) (i : Nat) : (block text i).length ≤ 11 :=
  List.length_take_le _ _

theorem length_behindOf_le (text : List UInt8) (p : Nat) : (behindOf text p).length ≤ 11 := by
  rw [behindOf, List.length_drop]
  exact (Nat.sub_le _ _).trans (length_block_le text _)

/-- The characters of a block by their positions in the text. -/
theorem mem_block_drop (hc : c ∈ (block text i).drop n) :
    ∃ r, n ≤ r ∧ r < 11 ∧ 11 * i + r < text.length ∧ c = text.getD (11 * i + r) 0 := by
  obtain ⟨q, hq, rfl⟩ := List.mem_iff_getElem.mp hc
  have hlength : (block text i).length = min 11 (text.length - 11 * i) := by
    rw [block, slice, List.length_take, List.length_drop]
  rw [List.length_drop] at hq
  refine ⟨n + q, by omega, by omega, by omega, ?_⟩
  rw [List.getD_eq_getElem?_getD, List.getElem?_eq_getElem (by omega), Option.getD_some]
  simp only [block, slice, List.getElem_drop, List.getElem_take]

theorem reached_iff : Reached below text p ↔
    (∀ i < p / 11, Reads below (block text i)) ∧ Reads below (behindOf text p) := by
  rw [Reached, isSome_decodeBlock_iff (length_behindOf_le text p)]
  exact and_congr_left' (forall₂_congr fun i _ => isSome_decodeBlock_iff (length_block_le text i))

theorem Passed.reached (h : Passed text p) (below : Int → Int8) : Reached below text p :=
  reached_iff.mpr ⟨fun i hi => (h.1 i hi).reads below, h.2.reads below⟩

/-- Characters that come before in the loops are reached before. -/
theorem passed_of_reached (hascii : ∀ p < text.length, Passed text p → (text.getD p 0).toNat < 128)
    (h : Reached below text p) : Passed text p := by
  -- the induction is on the place of the character in the order of the loops
  induction hrank : 11 * (p / 11) + (10 - p % 11) using Nat.strong_induction_on generalizing p with
  | _ rank ih =>
    obtain ⟨hbefore, hbehind⟩ := reached_iff.mp h
    constructor
    · intro i hi
      refine base58_of_reads (hbefore i hi) fun c hc => ?_
      obtain ⟨r, -, hr, hlt, rfl⟩ := mem_block_drop (show c ∈ (block text i).drop 0 from hc)
      have hdiv : (11 * i + r) / 11 = i := by omega
      refine hascii _ hlt (ih _ (by omega) (reached_iff.mpr ⟨?_, ?_⟩) rfl)
      · exact fun i' hi' => hbefore i' (by omega)
      · rw [behindOf, hdiv]
        exact (hbefore i hi).drop _
    · refine base58_of_reads hbehind fun c hc => ?_
      obtain ⟨r, hn, hr, hlt, rfl⟩ := mem_block_drop hc
      have hdiv : (11 * (p / 11) + r) / 11 = p / 11 := by omega
      have hmod : (11 * (p / 11) + r) % 11 = r := by omega
      refine hascii _ hlt (ih _ (by omega) (reached_iff.mpr ⟨?_, ?_⟩) rfl)
      · rw [hdiv]
        exact hbefore
      · obtain ⟨d, rfl⟩ := Nat.exists_eq_add_of_le hn
        have hrest := hbehind.drop (d + 1)
        rw [behindOf, List.drop_drop] at hrest
        rw [behindOf, hdiv, hmod]
        rwa [show p % 11 + 1 + d + 1 = p % 11 + 1 + (d + 1) by omega]

theorem isSome_decodeBlocks_iff {last : Nat} (hlength : chars.length = 11 * left + last)
    (hlast : last < 11) : (decodeBlocks below k left chars).isSome ↔
      ∀ i ≤ left, Reads below (block chars i) := by
  induction left generalizing chars with
  | zero =>
    have hblock : block chars 0 = chars :=
      List.take_of_length_le (by change chars.length ≤ 11; omega)
    rw [decodeBlocks, Option.isSome_map, isSome_decodeBlock_iff (by omega)]
    constructor
    · intro hreads i hi
      obtain rfl := Nat.le_zero.mp hi
      rwa [hblock]
    · intro hall
      exact hblock ▸ hall 0 le_rfl
  | succ left ih =>
    have hlater : (decodeBlocks below k left (chars.drop 11)).isSome ↔
        ∀ i ≤ left, Reads below (block (chars.drop 11) i) := ih (by rw [List.length_drop]; omega)
    have hshift (i : Nat) : block (chars.drop 11) i = block chars (i + 1) := by
      rw [block, block, slice, slice, List.drop_drop, Nat.mul_succ, Nat.add_comm]
    have hfirst : block chars 0 = chars.take 11 := rfl
    rw [decodeBlocks]
    cases hblock : decodeBlock below (chars.take 11) with
    | none =>
      refine iff_of_false Bool.false_ne_true fun hall => ?_
      have hsome := (isSome_decodeBlock_iff (List.length_take_le _ _)).mpr
        (hfirst ▸ hall 0 (Nat.zero_le _))
      rw [hblock] at hsome
      exact Bool.false_ne_true hsome
    | some found =>
      rw [Option.isSome_map, hlater]
      constructor
      · intro hall i hi
        cases i with
        | zero =>
          rw [hfirst]
          exact (isSome_decodeBlock_iff (List.length_take_le _ _)).mp (by rw [hblock]; rfl)
        | succ i => exact hshift i ▸ hall i (by omega)
      · intro hall i hi
        exact hshift i ▸ hall (i + 1) (by omega)

end Positions

section Bounds

/-- The table is indexed inside, the address is read inside, and no length that is added to an
index of the reader has underflowed. -/
structure Bounded (below : Int → Int8) (address : List UInt8) : Prop where
  table : ∀ index, .table index ∈ accesses below address → 0 ≤ index ∧ index ≤ 255
  text : ∀ position, .text position ∈ accesses below address → position < address.length
  rest : ∀ tfTag text data, parsed below address = some (tfTag, text, data) →
    ∀ j ∈ ((members data).run (machine data.1 fun _ => true)).checks, j.wraps = false

/-- A text whose characters are below 0x80 as far as the loops come, and, if it is base58, with at
least four bytes behind its keys or no room for them at all. -/
structure Tame (text : List UInt8) : Prop where
  ascii : ∀ p < text.length, Passed text p → (text.getD p 0).toNat < 128
  room : (∀ i ≤ text.length / 11, Base58 (block text i)) →
    Varint.size (spell text) + 64 ≤ (spell text).length →
      Varint.size (spell text) + 68 ≤ (spell text).length

/-- The text behind the prefix, if it comes to the loops. -/
def Looped (address text : List UInt8) : Prop :=
  (∃ tfTag, townforge address = some (tfTag, text)) ∧ Entered text

theorem length_text_le {tfTag : UInt64} (h : townforge address = some (tfTag, text)) :
    text.length ≤ address.length := by
  rcases townforge_cases h with ⟨-, rfl, -⟩ | ⟨-, rfl, -⟩
  · rw [List.length_drop]
    exact Nat.sub_le _ _
  · exact le_rfl

theorem mem_prefixAccesses {access : Access} (h : access ∈ prefixAccesses address) :
    ∃ p < address.length, access = .text p := by
  unfold prefixAccesses at h
  split at h
  · exact absurd h List.not_mem_nil
  next hlength =>
    split at h
    · exact ⟨0, by omega, List.mem_singleton.mp h⟩
    split at h
    · simp only [List.mem_cons, List.not_mem_nil, or_false] at h
      rcases h with rfl | rfl <;> exact ⟨_, by omega, rfl⟩
    split at h <;> simp only [List.mem_cons, List.not_mem_nil, or_false] at h
    · rcases h with rfl | rfl | rfl <;> exact ⟨_, by omega, rfl⟩
    · rcases h with rfl | rfl | rfl | rfl <;> exact ⟨_, by omega, rfl⟩

theorem mem_shift_table {n : Nat} {index : Int} {scanned : List Access} :
    .table index ∈ scanned.map (Access.shift n) ↔ .table index ∈ scanned := by
  rw [List.mem_map]
  constructor
  · rintro ⟨access, hmem, hshift⟩
    cases access with
    | text position => exact nomatch hshift
    | table index' =>
      obtain rfl := Access.table.inj hshift
      exact hmem
  · exact fun hmem => ⟨_, hmem, rfl⟩

theorem mem_accessesAt_table {p : Nat} {index : Int} :
    .table index ∈ accessesAt text p ↔ index = (text.getD p 0).toInt8.toInt := by
  simp [accessesAt]

theorem mem_accesses_table {index : Int} : .table index ∈ accesses below address ↔
    ∃ text, Looped address text ∧ ∃ p < text.length, Reached below text p ∧
      index = (text.getD p 0).toInt8.toInt := by
  unfold accesses Looped
  have hmarked : Access.table index ∉ prefixAccesses address := by
    intro hmem
    obtain ⟨p, -, heq⟩ := mem_prefixAccesses hmem
    exact nomatch heq
  rw [List.mem_append, or_iff_right hmarked]
  cases htf : townforge address with
  | none => exact iff_of_false List.not_mem_nil fun ⟨_, ⟨⟨_, hno⟩, _⟩, _⟩ => nomatch hno
  | some found =>
    obtain ⟨tfTag, text⟩ := found
    refine mem_shift_table.trans (mem_scan_iff.trans ?_)
    simp only [mem_accessesAt_table]
    constructor
    · rintro ⟨hentered, hreached⟩
      exact ⟨text, ⟨⟨tfTag, rfl⟩, hentered⟩, hreached⟩
    · rintro ⟨_, ⟨⟨_, heq⟩, hentered⟩, hreached⟩
      obtain ⟨rfl, rfl⟩ := Option.some.inj heq
      exact ⟨hentered, hreached⟩

theorem mem_accesses_text {position : Nat} (h : .text position ∈ accesses below address) :
    position < address.length := by
  unfold accesses at h
  rcases List.mem_append.mp h with hmarked | hloops
  · obtain ⟨p, hp, heq⟩ := mem_prefixAccesses hmarked
    obtain rfl := Access.text.inj heq
    exact hp
  cases htf : townforge address with
  | none =>
    rw [htf] at hloops
    exact absurd hloops List.not_mem_nil
  | some found =>
    obtain ⟨tfTag, text⟩ := found
    rw [htf] at hloops
    have hlength := length_text_le htf
    obtain ⟨access, hmem, hshift⟩ := List.mem_map.mp hloops
    obtain ⟨-, p, hp, -, hat⟩ := mem_scan_iff.mp hmem
    simp only [accessesAt, List.mem_cons, List.not_mem_nil, or_false] at hat
    rcases hat with rfl | rfl
    · have hposition : address.length - text.length + p = position := Access.text.inj hshift
      omega
    · exact nomatch hshift

theorem mem_block_of_mem (hc : c ∈ text) : ∃ i ≤ text.length / 11, c ∈ block text i := by
  obtain ⟨p, hp, rfl⟩ := List.mem_iff_getElem.mp hc
  refine ⟨p / 11, Nat.div_le_div_right hp.le, List.mem_iff_getElem.mpr ⟨p % 11, ?_, ?_⟩⟩
  · rw [block, slice, List.length_take, List.length_drop]
    omega
  · simp only [block, slice, List.getElem_take, List.getElem_drop, Nat.div_add_mod]

theorem decodeData_of_base58 (below : Int → Int8) (hentered : Entered text)
    (hall : ∀ i ≤ text.length / 11, Base58 (block text i)) :
    ∃ data, decodeData below text = some data ∧ data.1 = spell text := by
  obtain ⟨hsize, k, hindex, hmin⟩ := hentered
  have hlength : text.length = 11 * (text.length / 11) + text.length % 11 := by omega
  have hsome : (decodeBlocks below k (text.length / 11) text).isSome :=
    (isSome_decodeBlocks_iff hlength (Nat.mod_lt _ (by decide))).mpr fun i hi =>
      (hall i hi).reads below
  obtain ⟨bytes, hblocks⟩ := Option.isSome_iff_exists.mp hsome
  have hbytes := length_decodeBlocks hblocks
  have hk : k < 9 := (List.idxOf?_eq_some_iff.mp hindex).1
  have hmax : text.length ≤ 256 := hsize.2
  have hdata : decodeData below text = some ⟨bytes, by omega⟩ :=
    decodeData_eq_some.mpr ⟨hsize, k, hindex, hmin, hblocks⟩
  have hmem : ∀ c ∈ text, c ∈ alphabet := by
    intro c hc
    obtain ⟨i, hi, hblock⟩ := mem_block_of_mem hc
    exact (hall i hi).mem c hblock
  exact ⟨_, hdata, decoded_eq_spell hmem hdata⟩

theorem base58_of_decodeData {data : Data} (h : decodeData below text = some data)
    (hascii : ∀ p < text.length, Passed text p → (text.getD p 0).toNat < 128) :
    ∀ i ≤ text.length / 11, Base58 (block text i) := by
  obtain ⟨-, k, -, -, hblocks⟩ := decodeData_eq_some.mp h
  have hlength : text.length = 11 * (text.length / 11) + text.length % 11 := by omega
  have hreads := (isSome_decodeBlocks_iff hlength (Nat.mod_lt _ (by decide))).mp
    (Option.isSome_of_mem hblocks)
  intro i hi
  refine base58_of_reads (hreads i hi) fun c hc => ?_
  obtain ⟨r, -, hr, hlt, rfl⟩ := mem_block_drop (show c ∈ (block text i).drop 0 from hc)
  have hdiv : (11 * i + r) / 11 = i := by omega
  have hreached : Reached below text (11 * i + r) := by
    refine reached_iff.mpr ⟨fun i' hi' => hreads i' (by omega), ?_⟩
    rw [behindOf, hdiv]
    exact (hreads i hi).drop _
  exact hascii _ hlt (passed_of_reached hascii hreached)

/-- The reads of accepted and of refused bytes add no length that has underflowed, but for keys
that end in the last three bytes. -/
theorem wraps_members_iff (data : Data) :
    (∀ j ∈ ((members data).run (machine data.1 fun _ => true)).checks, j.wraps = false) ↔
      (Varint.size data.1 + 64 ≤ data.1.length → Varint.size data.1 + 68 ≤ data.1.length) := by
  rcases Nat.lt_or_ge data.1.length (Varint.size data.1) with htag | htag
  · rw [run_members_tag data htag]
    exact iff_of_true (fun j hj => absurd hj List.not_mem_nil) fun hroom => by omega
  rcases Nat.lt_or_ge data.1.length (Varint.size data.1 + 64) with hkeys | hkeys
  · obtain ⟨checks, hrun, hwraps⟩ := run_members_keys htag hkeys
    rw [hrun]
    exact iff_of_true hwraps fun hroom => by omega
  · obtain ⟨checks, hrun, hwraps⟩ := run_members hkeys
    rw [hrun]
    exact hwraps.trans ⟨fun h _ => h, fun h => h hkeys⟩

/-- A byte from 0x80 on at the end of the first block. -/
theorem negative_index : ¬ ∀ below address, Bounded below address := by
  intro h
  have hindex := (h (fun _ => -1) (List.replicate 10 49 ++ 233 :: List.replicate 84 49)).table (-23)
    (by decide +kernel)
  exact absurd hindex.1 (by decide)

/-- Accesses are inside exactly if the text that comes to the loops is tame. -/
theorem bounded_iff (below : Int → Int8) (address : List UInt8) :
    Bounded below address ↔ ∀ text, Looped address text → Tame text := by
  constructor
  · rintro h text ⟨⟨tfTag, htf⟩, hentered⟩
    refine ⟨fun p hp hpassed => ?_, fun hall => ?_⟩
    · have hin := (h.table _ (mem_accesses_table.mpr ⟨text, ⟨⟨tfTag, htf⟩, hentered⟩, p, hp,
        hpassed.reached below, rfl⟩)).1
      have hneg := toInt_lt_zero_iff (text.getD p 0)
      omega
    · obtain ⟨data, hdata, hspell⟩ := decodeData_of_base58 below hentered hall
      have hrest := h.rest tfTag text data (parsed_eq_some.mpr ⟨htf, hdata⟩)
      exact hspell ▸ (wraps_members_iff data).mp hrest
  · intro h
    refine ⟨fun index hindex => ?_, fun position => mem_accesses_text, ?_⟩
    · obtain ⟨text, hlooped, p, hp, hreached, rfl⟩ := mem_accesses_table.mp hindex
      have hascii := (h text hlooped).ascii
      have hchar := hascii p hp (passed_of_reached hascii hreached)
      have hneg := toInt_lt_zero_iff (text.getD p 0)
      have hlt := (text.getD p 0).toInt8.toInt_lt
      omega
    · intro tfTag text data hparsed
      obtain ⟨htf, hdata⟩ := parsed_eq_some.mp hparsed
      obtain ⟨hsize, k, hindex, hmin, -⟩ := decodeData_eq_some.mp hdata
      have htame := h text ⟨⟨tfTag, htf⟩, hsize, k, hindex, hmin⟩
      have hall := base58_of_decodeData hdata htame.ascii
      have hmem : ∀ c ∈ text, c ∈ alphabet := by
        intro c hc
        obtain ⟨i, hi, hblock⟩ := mem_block_of_mem hc
        exact (hall i hi).mem c hblock
      rw [wraps_members_iff, decoded_eq_spell hmem hdata]
      exact htame.room hall

end Bounds

end VeloxHash.WalletAddress
