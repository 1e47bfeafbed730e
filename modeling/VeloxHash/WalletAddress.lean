import VeloxHash.BlobReader
import VeloxHash.Keccak
import VeloxHash.Varint

/-! `WalletAddress::decode`: base58 text by blocks of eleven characters, eight bytes each, and
the tag, keys and checksum that are read from the bytes. -/

namespace VeloxHash

open ReaderProgram

/-- `kMinSize`, `kMaxSize`, `kMinDataSize`, `kKeySize`. -/
def WalletAddress.minSize : Nat := 95

def WalletAddress.maxSize : Nat := 256

def WalletAddress.minDataSize : Nat := 69

def WalletAddress.keySize : UInt64 := 32

/-- `sizeof(m_checksum)`. -/
def WalletAddress.checksumSize : Nat := 4

structure WalletAddress where
  data : List UInt8 := []
  tag : UInt64 := 0
  checksum : List UInt8 := List.replicate 4 0
  publicSpendKey : List UInt8 := List.replicate 32 0
  publicViewKey : List UInt8 := List.replicate 32 0
  deriving DecidableEq

namespace WalletAddress

def blockSizes : List Nat := [0, 2, 3, 5, 6, 7, 9, 10, 11]

def alphabet : List UInt8 :=
  ['1', '2', '3', '4', '5', '6', '7', '8', '9', 'A', 'B', 'C', 'D', 'E', 'F', 'G', 'H', 'J', 'K',
    'L', 'M', 'N', 'P', 'Q', 'R', 'S', 'T', 'U', 'V', 'W', 'X', 'Y', 'Z', 'a', 'b', 'c', 'd', 'e',
    'f', 'g', 'h', 'i', 'j', 'k', 'm', 'n', 'o', 'p', 'q', 'r', 's', 't', 'u', 'v', 'w', 'x', 'y',
    'z'].map fun c => UInt8.ofNat c.toNat

/-- `alphabet_size`. -/
def alphabetSize : UInt64 := 58

/-- The table: the place of a character in the alphabet, or -1. -/
def reverseAlphabet (index : Nat) : Int8 :=
  match alphabet.idxOf? (UInt8.ofNat index) with
  | some i => Int8.ofNat i
  | none => -1

/-- `reverse_alphabet` at a character, which is signed; `below` is what lies in front of it. -/
def digit (below : Int → Int8) (c : UInt8) : Int8 :=
  let index := c.toInt8.toInt
  if index < 0 then below index else reverseAlphabet index.toNat

/-- `__umul128`: the low word and the high word. -/
def umul128 (a b : UInt64) : UInt64 × UInt64 :=
  (a * b, UInt64.ofNat (a.toNat * b.toNat / 2 ^ 64))

/-- The loop over a block, from its last character on: `num` and `order`. -/
def decodeBlock (below : Int → Int8) : List UInt8 → Option (UInt64 × UInt64)
  | [] => some (0, 1)
  | c :: later =>
    match decodeBlock below later with
    | none => none
    | some (num, order) =>
      if digit below c < 0 then none
      else
        let (lo, hi) := umul128 order (UInt64.ofNat (digit below c).toNatClampNeg)
        if num + lo < num ∨ hi ≠ 0 then none else some (num + lo, order * alphabetSize)

/-- The low `k` bytes of `num`, the highest in front. -/
def emit : (k : Nat) → UInt64 → List UInt8
  | 0, _ => []
  | k + 1, num => (num >>> (8 * UInt64.ofNat k)).toUInt8 :: emit k num

/-- The loop over the blocks, with `left` full ones left. -/
def decodeBlocks (below : Int → Int8) (lastBlockSizeIndex : Nat) :
    (left : Nat) → List UInt8 → Option (List UInt8)
  | 0, chars => (decodeBlock below chars).map fun block => emit lastBlockSizeIndex block.1
  | left + 1, chars =>
    match decodeBlock below (chars.take 11) with
    | none => none
    | some (num, _) => (decodeBlocks below lastBlockSizeIndex left (chars.drop 11)).map
        fun later => emit 8 num ++ later

theorem length_emit (k : Nat) (num : UInt64) : (emit k num).length = k := by
  induction k with
  | zero => rfl
  | succ k ih => rw [emit, List.length_cons, ih]

theorem length_decodeBlocks {below : Int → Int8} {k left : Nat} {chars data : List UInt8}
    (h : decodeBlocks below k left chars = some data) : data.length = 8 * left + k := by
  induction left generalizing chars data with
  | zero =>
    obtain ⟨block, -, rfl⟩ := Option.map_eq_some_iff.mp h
    rw [length_emit, Nat.mul_zero, Nat.zero_add]
  | succ left ih =>
    rw [decodeBlocks] at h
    split at h
    · cases h
    · obtain ⟨later, hlater, rfl⟩ := Option.map_eq_some_iff.mp h
      rw [List.length_append, length_emit, ih hlater]
      omega

/-- A buffer that an index in 64 bits reaches all of. -/
abbrev Data := { bytes : List UInt8 // bytes.length < 2 ^ 63 }

/-- The bytes that text stands for; none if it is refused. -/
def decodeData (below : Int → Int8) (text : List UInt8) : Option Data :=
  if hsize : text.length < minSize ∨ maxSize < text.length then none
  else
    match hindex : blockSizes.idxOf? (text.length % 11) with
    | none => none
    | some lastBlockSizeIndex =>
      if text.length / 11 * 8 + lastBlockSizeIndex < minDataSize then none
      else (decodeBlocks below lastBlockSizeIndex (text.length / 11) text).pmap Subtype.mk
        fun data hdata => by
          have hblock := (List.idxOf?_eq_some_iff.mp hindex).1
          have hlength := length_decodeBlocks hdata
          simp only [maxSize] at hsize
          simp only [blockSizes, List.length_cons, List.length_nil] at hblock
          omega

theorem decodeData_eq_some {below : Int → Int8} {text : List UInt8} {data : Data} :
    decodeData below text = some data ↔ (minSize ≤ text.length ∧ text.length ≤ maxSize) ∧
      ∃ k, blockSizes.idxOf? (text.length % 11) = some k ∧
        minDataSize ≤ text.length / 11 * 8 + k ∧
          decodeBlocks below k (text.length / 11) text = some data.1 := by
  unfold decodeData
  split
  case isTrue hsize =>
    exact iff_of_false nofun fun h => by omega
  case isFalse hsize =>
    rw [and_iff_right (by omega : minSize ≤ text.length ∧ text.length ≤ maxSize)]
    split
    case h_1 hindex =>
      exact iff_of_false nofun fun ⟨k, hk, _⟩ => nomatch hindex.symm.trans hk
    case h_2 k hindex =>
      constructor
      · intro h
        split at h
        · cases h
        · obtain ⟨bytes, hbytes, heq⟩ := Option.pmap_eq_some_iff.mp h
          obtain ⟨hblocks, rfl⟩ := heq
          exact ⟨k, hindex, by omega, hblocks⟩
      · rintro ⟨k', hk', hmin, hblocks⟩
        obtain rfl := Option.some.inj (hindex.symm.trans hk')
        rw [if_neg (by omega)]
        exact Option.pmap_eq_some_iff.mpr ⟨data.1, _, hblocks, rfl⟩

inductive Member
  | tag (value : UInt64)
  | publicSpendKey (bytes : List UInt8)
  | publicViewKey (bytes : List UInt8)
  | checksum (bytes : List UInt8)
  deriving DecidableEq, Repr

def assign (a : WalletAddress) : Member → WalletAddress
  | .tag value => { a with tag := value }
  | .publicSpendKey bytes => { a with publicSpendKey := bytes }
  | .publicViewKey bytes => { a with publicViewKey := bytes }
  | .checksum bytes => { a with checksum := bytes }

/-- `ar(member)` for a member that is an array of `n` bytes. -/
def arrayTo {size : Nat} (ar : BlobReader 0 size) (store : List UInt8 → Member) (n : UInt64) :
    Prog Member (BlobReader 0 size) := do
  let (bytes, next) ← ar.array n
  .tell (store bytes) (.pure next)

/-- `ar.remaining() - sizeof(m_checksum)`, in `size_t`. -/
def restSize {size : Nat} (ar : BlobReader 0 size) : UInt64 :=
  UInt64.ofNat (size - ar.index) - UInt64.ofNat checksumSize

/-- The reads, joined by `&&`. -/
def members (data : Data) : Prog Member Unit := do
  let ar : BlobReader 0 data.1.length := ⟨0, Nat.zero_le _, data.2.trans (by decide)⟩
  let (tag, ar) ← ar.getVarint
  let ar ← .tell (.tag tag) (.pure ar)
  let ar ← arrayTo ar .publicSpendKey keySize
  let ar ← arrayTo ar .publicViewKey keySize
  let ar ← ar.skip (restSize ar)
  let _ ← arrayTo ar .checksum (UInt64.ofNat checksumSize)
  return ()

/-- The reader at the start of the bytes. -/
def start (data : Data) : BlobReader 0 data.1.length := ⟨0, Nat.zero_le _, data.2.trans (by decide)⟩

/-- The reader behind the tag, and behind `n` bytes more. -/
def behind (data : Data) (n : Nat) (h : Varint.size data.1 + n ≤ data.1.length) : BlobReader 0 data.1.length :=
  ⟨Varint.size data.1 + n, h, data.2.trans (by decide)⟩

/-- `tf_tag` and the text behind a Townforge prefix; none if the prefix is refused. -/
def townforge (address : List UInt8) : Option (UInt64 × List UInt8) :=
  if 4 ≤ address.length ∧ address.take 2 = ['T', 'F'].map (UInt8.ofNat ·.toNat) then
    let kind := fun c : UInt8 =>
      if c = 49 then some 0 else if c = 50 then some (1 : UInt64) else none
    let net := fun c : UInt8 =>
      if c = 77 then some 0 else if c = 84 then some 0x10 else if c = 83 then some (0x20 : UInt64)
      else none
    match kind (address.getD 2 0), net (address.getD 3 0) with
    | some x, some y => some (0x424200 ||| x ||| y, address.drop 4)
    | _, _ => none
  else some (0, address)

/-- The first bytes of `md`. -/
def digest (data : List UInt8) : List UInt8 :=
  (keccak (data.take (data.length - checksumSize))).take checksumSize

def decode (below : Int → Int8) (a : WalletAddress) (address : List UInt8) :
    WalletAddress × Bool :=
  match townforge address with
  | none => (a, false)
  | some (tfTag, text) =>
    match decodeData below text with
    | none => (a, false)
    | some data =>
      let run := (members data).run (machine data.1 fun _ => true)
      let a := run.events.foldl assign a
      if run.outcome = .ok () ∧ a.checksum = digest data.1 then
        ({ a with data := text, tag := if tfTag ≠ 0 then tfTag else a.tag }, true)
      else ({ a with tag := 0 }, false)

section Members

open Splice

/-- The address that the reads leave for a tag: the checksum is the last four bytes, wherever
the keys end. -/
def readings (data : List UInt8) (tag : UInt64) : List Member :=
  [.tag tag, .publicSpendKey (slice data (Varint.size data) 32),
    .publicViewKey (slice data (Varint.size data + 32) 32),
    .checksum (slice data (data.length - 4) 4)]

variable {allocates : Nat → Bool}

theorem ends_arrayTo {size : Nat} {memory : List UInt8} (ar : BlobReader 0 size)
    (store : List UInt8 → Member) {n : UInt64} (hsmall : size + n.toNat < 2 ^ 64) :
    Ends (machine memory allocates) (arrayTo ar store n) fun next events =>
      next.index = ar.index + n.toNat ∧ events = [store (slice memory ar.index n.toNat)] := by
  refine (BlobReader.ends_array_bytes ar hsmall).bind fun x events hx => ?_
  obtain ⟨hbytes, hindex, rfl⟩ := hx
  refine ends_tell (ends_pure ⟨hindex, ?_⟩)
  rw [hbytes, Nat.zero_add]
  rfl

theorem succeeds_arrayTo {size : Nat} {memory : List UInt8} (ar : BlobReader 0 size)
    (store : List UInt8 → Member) {n : UInt64} (hsize : size ≤ memory.length)
    (h : ar.index + n.toNat ≤ size) :
    Succeeds (machine memory allocates) (arrayTo ar store n) := by
  have hsmall := ar.size_lt
  refine (BlobReader.succeeds_array ar (by omega) h).bind
    (Q := fun _ _ => True) (fun _ _ => trivial) fun x _ _ => ?_
  exact Succeeds.tell (succeeds_pure _)

/-- The reader is moved to the last four bytes, forwards or backwards. -/
theorem restSize_landing {size : Nat} (ar : BlobReader 0 size) (h : 4 ≤ size) :
    (ar.index + (restSize ar).toNat) % 2 ^ 64 = size - 4 := by
  have hindex := ar.index_le
  have hsize := ar.size_lt
  have hrest : (UInt64.ofNat (size - ar.index)).toNat = size - ar.index :=
    UInt64.toNat_ofNat_of_lt' (by change _ < 2 ^ 64; omega)
  have hfour : (UInt64.ofNat checksumSize).toNat = 4 := rfl
  rw [restSize, UInt64.toNat_sub, hrest, hfour]
  omega

theorem ends_members (data : Data) :
    Ends (machine data.1 allocates) (members data) fun _ events =>
      Varint.size data.1 + 64 ≤ data.1.length ∧ ∃ tag, events = readings data.1 tag ∧
        ∀ v rest, v < 2 ^ 64 → data.1 = Varint.encode v ++ rest → tag = UInt64.ofNat v := by
  have hsmall : data.1.length + keySize.toNat < 2 ^ 64 := by
    have hdata := data.2
    change data.1.length + 32 < 2 ^ 64
    omega
  let ar : BlobReader 0 data.1.length := ⟨0, Nat.zero_le _, data.2.trans (by decide)⟩
  have htag : Ends (machine data.1 allocates) (ar.getVarint : Prog Member _) fun x events =>
      x.2.index = Varint.size data.1 ∧ events = [] ∧
        ∀ v rest, v < 2 ^ 64 → data.1 = Varint.encode v ++ rest → x.1 = UInt64.ofNat v := by
    intro x hx
    obtain ⟨hindex, hevents⟩ := BlobReader.ends_getVarint ar x hx
    refine ⟨?_, hevents, fun v rest hv hdata => ?_⟩
    · rw [hindex, BlobReader.varintLength_eq]
      exact Nat.zero_add _
    · rw [← BlobReader.ends_getVarint_encode ar hv hdata x hx, UInt64.ofNat_toNat]
  refine htag.bind fun ⟨tag, ar₁⟩ _ ⟨hindex₁, hevents₁, hvalue⟩ => ?_
  subst hevents₁
  refine (ends_tell (ends_pure ⟨rfl, rfl⟩) : Ends _ _ fun next events =>
    next = ar₁ ∧ events = [.tag tag]).bind fun next _ ⟨hnext, hevents⟩ => ?_
  subst hnext hevents
  refine (ends_arrayTo next .publicSpendKey hsmall).bind fun ar₂ _ ⟨hindex₂, hevents⟩ => ?_
  subst hevents
  refine (ends_arrayTo ar₂ .publicViewKey hsmall).bind fun ar₃ _ ⟨hindex₃, hevents⟩ => ?_
  subst hevents
  refine (BlobReader.ends_advance_landing ar₃ (restSize ar₃) 0).bind
    fun ar₄ _ ⟨hindex₄, hevents⟩ => ?_
  subst hevents
  have hkey : keySize.toNat = 32 := rfl
  dsimp only at hindex₁
  have hroom : Varint.size data.1 + 64 ≤ data.1.length := by
    have hle := ar₃.index_le
    omega
  rw [restSize_landing ar₃ (by omega)] at hindex₄
  have hfour : (UInt64.ofNat checksumSize).toNat = 4 := rfl
  refine (ends_arrayTo ar₄ .checksum (by omega)).bind fun _ _ ⟨_, hevents⟩ => ?_
  subst hevents
  refine ends_pure ⟨hroom, tag, ?_, hvalue⟩
  rw [readings, hindex₄, hindex₂, hindex₁]
  rfl

theorem succeeds_members (data : Data) (hroom : Varint.size data.1 + 64 ≤ data.1.length) :
    Succeeds (machine data.1 allocates) (members data) := by
  have hdata := data.2
  have hkey : keySize.toNat = 32 := rfl
  have hfour : (UInt64.ofNat checksumSize).toNat = 4 := rfl
  let ar : BlobReader 0 data.1.length := ⟨0, Nat.zero_le _, data.2.trans (by decide)⟩
  have htag : Ends (machine data.1 allocates) (ar.getVarint : Prog Member _) fun x _ =>
      x.2.index = Varint.size data.1 := by
    intro x hx
    rw [(BlobReader.ends_getVarint ar x hx).1, BlobReader.varintLength_eq]
    exact Nat.zero_add _
  refine (BlobReader.succeeds_getVarint ar (by omega) ?_).bind htag fun ⟨tag, ar₁⟩ _ hindex₁ => ?_
  · change 0 + Varint.size (data.1.drop (0 + 0)) ≤ _
    rw [List.drop_zero]
    omega
  dsimp only at hindex₁
  refine (Succeeds.tell (succeeds_pure ar₁)).bind (ends_tell (ends_pure rfl) : Ends _ _ fun next _ =>
    next = ar₁) fun next _ hnext => ?_
  subst hnext
  refine (succeeds_arrayTo next .publicSpendKey le_rfl (by omega)).bind
    (ends_arrayTo next _ (by omega)) fun ar₂ _ ⟨hindex₂, _⟩ => ?_
  refine (succeeds_arrayTo ar₂ .publicViewKey le_rfl (by omega)).bind
    (ends_arrayTo ar₂ _ (by omega)) fun ar₃ _ ⟨hindex₃, _⟩ => ?_
  have hlanding := restSize_landing ar₃ (by omega)
  refine (BlobReader.succeeds_advance ar₃ 0 (by omega)).bind
    (BlobReader.ends_advance_landing ar₃ _ 0) fun ar₄ _ ⟨hindex₄, _⟩ => ?_
  rw [hlanding] at hindex₄
  exact (succeeds_arrayTo ar₄ .checksum le_rfl (by omega)).bind
    (ends_arrayTo ar₄ _ (by omega)) fun _ _ _ => succeeds_pure _

/-- Text without a Townforge prefix. -/
def Plain (address : List UInt8) : Prop := ¬ [84, 70] <+: address

instance (address : List UInt8) : Decidable (Plain address) :=
  inferInstanceAs (Decidable (¬ [84, 70] <+: address))

theorem townforge_plain {address : List UInt8} (h : Plain address) :
    townforge address = some (0, address) := by
  rw [townforge, if_neg]
  rintro ⟨-, htake⟩
  have hfront : address.take 2 = [84, 70] := htake
  exact h (hfront ▸ List.take_prefix 2 address)

/-- What `decode` accepts of the bytes. -/
structure Accepts (data : List UInt8) : Prop where
  room : Varint.size data + 64 ≤ data.length
  checksum : slice data (data.length - 4) 4 = digest data

theorem decode_accepts {below : Int → Int8} {a : WalletAddress} {address : List UInt8} {data : Data}
    (hplain : Plain address) (hdata : decodeData below address = some data)
    (haccepts : Accepts data.1) : ∃ tag,
      decode below a address = (⟨address, tag, slice data.1 (data.1.length - 4) 4,
        slice data.1 (Varint.size data.1) 32, slice data.1 (Varint.size data.1 + 32) 32⟩, true) ∧
      ∀ v rest, v < 2 ^ 64 → data.1 = Varint.encode v ++ rest → tag = UInt64.ofNat v := by
  have hsucceeds : Succeeds (machine data.1 fun _ => true) (members data) :=
    succeeds_members data haccepts.room
  obtain ⟨⟨⟩, hrun⟩ := hsucceeds
  obtain ⟨-, tag, hevents, hvalue⟩ := ends_members data () hrun
  refine ⟨tag, ?_, hvalue⟩
  rw [decode, townforge_plain hplain]
  dsimp only
  rw [hdata]
  dsimp only
  rw [hrun, hevents, if_pos ⟨rfl, haccepts.checksum⟩]
  rfl

theorem accepts_of_decode {below : Int → Int8} {a : WalletAddress} {address : List UInt8}
    (hplain : Plain address) (h : (decode below a address).2 = true) :
    ∃ data, decodeData below address = some data ∧ Accepts data.1 := by
  rw [decode, townforge_plain hplain] at h
  dsimp only at h
  split at h
  · cases h
  rename_i data hdata
  refine ⟨data, hdata, ?_⟩
  split at h
  case isFalse => cases h
  case isTrue hok =>
    obtain ⟨hrun, hchecksum⟩ := hok
    obtain ⟨hroom, tag, hevents, -⟩ := ends_members data () hrun
    rw [hevents] at hchecksum
    exact ⟨hroom, hchecksum⟩

end Members

end WalletAddress

end VeloxHash
