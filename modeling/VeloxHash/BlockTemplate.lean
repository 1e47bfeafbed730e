import VeloxHash.BlobReader
import VeloxHash.Hex
import VeloxHash.MerkleTree

/-! `BlockTemplate`: its members, and `parse` as a program that assigns them. Nothing that
`parse` does depends on what the members were before. -/

namespace VeloxHash

open ReaderProgram

inductive Coin
  | invalid
  | monero
  | sumo
  | arqma
  | graft
  | raven
  | wownero
  | zephyr
  | townforge
  | yada
  deriving DecidableEq, Repr

/-- A `std::vector` or a string is shorter than half of the address space. -/
structure Blob where
  bytes : List UInt8
  length_lt : bytes.length < 2 ^ 63

/-- The bytes that hexadecimal text stands for. -/
def Blob.decoded (hex : Blob) : Blob where
  bytes := Hex.leading hex.bytes
  length_lt := (Hex.length_leading hex.bytes).trans_lt hex.length_lt

namespace BlockTemplate

inductive Offset
  | nonce
  | minerTxPrefix
  | minerTxPrefixEnd
  | ephPublicKey
  | txExtra
  | txPubkey
  | txExtraNonce
  | txExtraMergeMiningTag
  deriving DecidableEq, Repr

/-- The members; `hash i` and `numEntries` are the entries of `m_hashes` and their number. -/
inductive Slot
  | blob
  | coin
  | offset (o : Offset)
  | majorVersion
  | minorVersion
  | timestamp
  | prevId
  | minerSignature
  | vote
  | txVersion
  | unlockTime
  | numInputs
  | inputType
  | height
  | numOutputs
  | amount
  | outputType
  | ephPublicKey
  | viewTag
  | extraSize
  | txExtraNonce
  | txMergeMiningTag
  | numHashes
  | numEntries
  | hash (i : Nat)
  | minerTxMerkleTreeBranch
  | rootHash
  | carrotViewTag
  | janusAnchor
  deriving DecidableEq, Repr

abbrev Slot.Value : Slot → Type
  | blob | vote | carrotViewTag | janusAnchor => List UInt8
  | coin => Coin
  | offset _ => UInt32
  | majorVersion | minorVersion | inputType | outputType | viewTag => UInt8
  | prevId | minerSignature | ephPublicKey | txExtraNonce | txMergeMiningTag => Span
  | numEntries => Nat
  | hash _ | rootHash => Hash
  | minerTxMerkleTreeBranch => List Hash
  | timestamp | txVersion | unlockTime | numInputs | height | numOutputs | amount | extraSize
  | numHashes => UInt64

/-- What `parse` does to the members, and the rounds of its loops: the index of the reader
before and after. -/
inductive Event
  | assign (s : Slot) (v : s.Value)
  | resize (count : Nat)
  | round (start stop : Nat)

def kHashSize : UInt64 := 32

def kKeySize : UInt64 := 32

def kNonceSize : UInt64 := 4

def kMinSize : Nat := 76

section Parse

variable {n data size : Nat}

def set (s : Slot) (v : s.Value) : Prog Event Unit := .tell (.assign s v) (.pure ())

def setOffset (o : Offset) (index : Nat) : Prog Event Unit := set (.offset o) (UInt32.ofNat index)

def round (start stop : Nat) : Prog Event Unit := .tell (.round start stop) (.pure ())

/-- `if (condition) { return false; }`. -/
def rejectIf (condition : Bool) : Prog Event Unit :=
  if condition then .stop .rejected else pure ()

/-- `if (condition) { .. }` around reads. -/
def parseIf (condition : Bool) (step : BlobReader 0 n → Prog Event (BlobReader 0 n))
    (ar : BlobReader 0 n) : Prog Event (BlobReader 0 n) :=
  if condition then step ar else pure ar

def parseHeader (ar : BlobReader 0 n) : Prog Event (UInt8 × BlobReader 0 n) := do
  let (majorVersion, ar) ← ar.getByte
  set .majorVersion majorVersion
  let (minorVersion, ar) ← ar.getByte
  set .minorVersion minorVersion
  let (timestamp, ar) ← ar.getVarint
  set .timestamp timestamp
  let ar ← ar.spanTo (.assign .prevId) kHashSize 0
  setOffset .nonce ar.index
  let ar ← ar.skip kNonceSize
  return (majorVersion, ar)

/-- Wownero templates have a miner signature from version 18 on. -/
def isSigned (coin : Coin) (majorVersion : UInt8) : Bool := coin = .wownero ∧ 18 ≤ majorVersion

def parseMinerSignature (ar : BlobReader 0 n) : Prog Event (BlobReader 0 n) := do
  let ar ← ar.spanTo (.assign .minerSignature) (UInt64.ofNat kSignatureSize) 0
  let (vote, ar) ← ar.array 2
  set .vote vote
  return ar

def parsePricingRecord (ar : BlobReader 0 n) : Prog Event (BlobReader 0 n) := do
  let (_, ar) ← ar.array 120
  return ar

def parseUnlockTime (ar : BlobReader 0 n) : Prog Event (BlobReader 0 n) := do
  let (unlockTime, ar) ← ar.getVarint
  set .unlockTime unlockTime
  return ar

/-- The height and the number of outputs. -/
def parseInput (coin : Coin) (ar : BlobReader 0 n) :
    Prog Event (UInt64 × UInt64 × BlobReader 0 n) := do
  setOffset .minerTxPrefix ar.index
  let (txVersion, ar) ← ar.getVarint
  set .txVersion txVersion
  let ar ← parseIf (coin ≠ .townforge) parseUnlockTime ar
  let (numInputs, ar) ← ar.getVarint
  set .numInputs numInputs
  rejectIf (numInputs ≠ 1)
  let (inputType, ar) ← ar.getByte
  set .inputType inputType
  rejectIf (inputType ≠ 0xff)
  let (height, ar) ← ar.getVarint
  set .height height
  let (numOutputs, ar) ← ar.getVarint
  set .numOutputs numOutputs
  rejectIf (if coin = .zephyr then numOutputs < 2 else numOutputs ≠ 1)
  return (height, numOutputs, ar)

def isFcmpPp (coin : Coin) (majorVersion : UInt8) : Bool := coin = .monero ∧ 17 ≤ majorVersion

def parseViewTag (ar : BlobReader 0 n) : Prog Event (BlobReader 0 n) := do
  let (viewTag, ar) ← ar.getByte
  set .viewTag viewTag
  return ar

def parseCarrot (ar : BlobReader 0 n) : Prog Event (BlobReader 0 n) := do
  let (carrotViewTag, ar) ← ar.array 3
  set .carrotViewTag carrotViewTag
  let (janusAnchor, ar) ← ar.array 16
  set .janusAnchor janusAnchor
  return ar

/-- The outputs of a Zephyr template behind the first one. -/
def parseZephyrOutputs : (left : Nat) → BlobReader 0 n → Prog Event (BlobReader 0 n)
  | 0, ar => return ar
  | left + 1, ar => do
    let (_, ar₁) ← ar.getVarint
    let (outputType, ar₂) ← ar₁.getByte
    rejectIf (outputType ≠ 2)
    let (_, ar₃) ← ar₂.span kKeySize 0
    let (assetTypeLen, ar₄) ← ar₃.getVarint
    -- one byte is read behind the asset type
    let ar₅ ← ar₄.advance assetTypeLen ar.index
    let (_, ar₆) ← ar₅.getByte
    round ar.index ar₆.index
    parseZephyrOutputs left ar₆

/-- The rest of the first output, and the other ones. -/
def parseZephyr (outputType : UInt8) (numOutputs : UInt64) (ar : BlobReader 0 n) :
    Prog Event (BlobReader 0 n) := do
  rejectIf (outputType ≠ 2)
  let (assetTypeLen, ar) ← ar.getVarint
  let ar ← ar.skip assetTypeLen
  let ar ← parseViewTag ar
  parseZephyrOutputs (numOutputs.toNat - 1) ar

def parseOutputs (coin : Coin) (majorVersion : UInt8) (numOutputs : UInt64) (ar : BlobReader 0 n) :
    Prog Event (BlobReader 0 n) := do
  let (amount, ar) ← ar.getVarint
  set .amount amount
  let (outputType, ar) ← ar.getByte
  set .outputType outputType
  rejectIf (!(isFcmpPp coin majorVersion && outputType == 0) && outputType != 2 && outputType != 3)
  setOffset .ephPublicKey ar.index
  let ar ← ar.spanTo (.assign .ephPublicKey) kKeySize 0
  let ar ← parseIf (isFcmpPp coin majorVersion) parseCarrot ar
  if coin = .zephyr then parseZephyr outputType numOutputs ar
  else parseIf (outputType = 3) parseViewTag ar

/-- A field of the extra with a size in front; `start` is where its round began. -/
def parseField (o : Offset) (store : Span → Event) (start : Nat) (ar : BlobReader data size) :
    Prog Event (BlobReader data size) := do
  let (fieldSize, ar) ← ar.getVarint
  setOffset o (data + ar.index)
  ar.spanTo store fieldSize (start + 1)

def setPubkeyOffset (pubkeyFirst : Bool) (index : Nat) : Prog Event Unit :=
  if pubkeyFirst then setOffset .txPubkey index else pure ()

/-- The `switch` over the tags, and whether a public key is still to come. -/
def parseEntry (tag : UInt64) (start : Nat) (pubkeyFirst : Bool) (ar : BlobReader data size) :
    Prog Event (Bool × BlobReader data size) :=
  if tag = 1 then do
    setPubkeyOffset pubkeyFirst (data + ar.index)
    let ar ← ar.advance kKeySize (start + 1)
    return (false, ar)
  else if tag = 2 then do
    let ar ← parseField .txExtraNonce (.assign .txExtraNonce) start ar
    return (pubkeyFirst, ar)
  else if tag = 3 then do
    let ar ← parseField .txExtraMergeMiningTag (.assign .txMergeMiningTag) start ar
    return (pubkeyFirst, ar)
  else .stop .rejected

/-- `while (ar_extra.index() < m_extraSize)`, for `fuel` rounds at most. -/
def parseExtra : (fuel : Nat) → (pubkeyFirst : Bool) → BlobReader data size → Prog Event Unit
  | 0, _, ar => if ar.index < size then .stop .unfinished else return
  | fuel + 1, pubkeyFirst, ar =>
    if ar.index < size then do
      let (tag, ar₁) ← ar.getVarint
      let (pubkeyFirst, ar₂) ← parseEntry tag ar.index pubkeyFirst ar₁
      round ar.index ar₂.index
      parseExtra fuel pubkeyFirst ar₂
    else return

variable (keccak : List UInt8 → Hash)

def toHash (bytes : List UInt8) : Hash := Vector.ofFn fun k : Fin 32 => bytes.getD k 0

/-- `for (; i <= m_numHashes; ++i)`, into `count` entries. -/
def hashLoop (count : Nat) : (left i : Nat) → BlobReader 0 n → Prog Event (List Hash)
  | 0, _, _ => return []
  | left + 1, i, ar => do
    let (h, ar) ← ar.span kHashSize 0
    let bytes ← .load h.data h.size .pure
    let _ ← .require (i < count) (set (.hash i) (toHash bytes))
    let others ← hashLoop count left (i + 1) ar
    return toHash bytes :: others

/-- The transaction hashes. `count` is `(m_numHashes + 1) * kHashSize` in entries, and `keccak`
takes a length that is an `int`. -/
def parseHashes (prefixBegin prefixEnd : UInt32) (numHashes : UInt64) (ar : BlobReader 0 n) :
    Prog Event Unit := do
  let count := (numHashes.toNat + 1) % 2 ^ 59
  let length := (prefixEnd - prefixBegin).toNat
  let _ ← .alloc count (.tell (.resize count) (.pure ()))
  let minerTxPrefix ← .require (length < 2 ^ 31) (.load prefixBegin.toNat length .pure)
  let minerTxHash := MerkleTree.calculateMinerTxHash keccak minerTxPrefix
  let _ ← .require (0 < count) (set (.hash 0) minerTxHash)
  let others ← hashLoop count numHashes.toNat 1 ar
  let tree := MerkleTree.calculateMerkleTreeHash keccak (numHashes.toNat + 1)
    (MerkleTree.leafAt (minerTxHash :: others))
  set .minerTxMerkleTreeBranch tree.2
  set .rootHash tree.1

def parseZephyrBurn (ar : BlobReader 0 n) : Prog Event (BlobReader 0 n) := do
  let (_, ar) ← ar.getVarint
  let (_, ar) ← ar.getVarint
  let (_, ar) ← ar.getVarint
  return ar

/-- Behind the extra. A Townforge template with a game update ends early. -/
def parseTail (coin : Coin) (hashes : Bool) (height : UInt64) (prefixBegin : UInt32)
    (ar : BlobReader 0 n) : Prog Event Unit := do
  let ar ← parseIf (coin = .zephyr) parseZephyrBurn ar
  let prefixEnd := UInt32.ofNat ar.index
  setOffset .minerTxPrefixEnd ar.index
  let (vinRctType, ar) ← ar.getByte
  if coin = .townforge ∧ height % 720 = 0 then return
  else if vinRctType ≠ 0 ∨ ar.index ≠ prefixEnd.toNat + 1 then .stop .rejected
  else do
    let atEnd ← .load prefixEnd.toNat 1 .pure
    rejectIf (atEnd.headD 0 ≠ 0)
    let (numHashes, ar) ← ar.getVarint
    set .numHashes numHashes
    if hashes then parseHashes keccak prefixBegin prefixEnd numHashes ar else return

/-- From the miner transaction's extra to the end. -/
def parseRest (coin : Coin) (hashes : Bool) (fuel : Nat) (height : UInt64) (prefixBegin : UInt32)
    (ar : BlobReader 0 n) : Prog Event Unit := do
  let (extraSize, ar) ← ar.getVarint
  set .extraSize extraSize
  setOffset .txExtra ar.index
  let extra : BlobReader (UInt32.ofNat ar.index).toNat extraSize.toNat :=
    ⟨0, Nat.zero_le _, extraSize.toNat_lt⟩
  let ar ← ar.skip extraSize
  parseExtra fuel true extra
  parseTail keccak coin hashes height prefixBegin ar

/-- `parse(bool hashes)`. -/
def parse (blob : Blob) (coin : Coin) (hashes : Bool) (fuel : Nat) : Prog Event Unit := do
  let ar : BlobReader 0 blob.bytes.length :=
    ⟨0, Nat.zero_le _, blob.length_lt.trans (by decide)⟩
  let (majorVersion, ar) ← parseHeader ar
  let ar ← parseIf (isSigned coin majorVersion) parseMinerSignature ar
  let ar ← parseIf (coin = .zephyr) parsePricingRecord ar
  let prefixBegin := UInt32.ofNat ar.index
  let (height, numOutputs, ar) ← parseInput coin ar
  let ar ← parseOutputs coin majorVersion numOutputs ar
  let ar ← parseIf (coin = .townforge) parseUnlockTime ar
  parseRest keccak coin hashes fuel height prefixBegin ar

/-- The reader at the start of a blob. -/
def opened (blob : Blob) : BlobReader 0 blob.bytes.length :=
  ⟨0, Nat.zero_le _, blob.length_lt.trans (by decide)⟩

end Parse

end BlockTemplate

open BlockTemplate

structure BlockTemplate where
  get : (s : Slot) → s.Value

namespace BlockTemplate

variable (t : BlockTemplate)

def blob : List UInt8 := t.get .blob

def offset (o : Offset) : Nat := (t.get (.offset o)).toNat

def hasMinerSignature : Bool := (t.get .minerSignature).size ≠ 0

def hashes : List Hash := (List.range (t.get .numEntries)).map fun i => t.get (.hash i)

/-- Entries that a `resize` adds are zero. -/
def resize (count : Nat) : (s : Slot) → s.Value
  | .hash i => if t.get .numEntries ≤ i then MerkleTree.noHash else t.get (.hash i)
  | .numEntries => count
  | s => t.get s

def apply : Event → BlockTemplate
  | .assign s v => ⟨Function.update t.get s v⟩
  | .resize count => ⟨t.resize count⟩
  | .round _ _ => t

def applyAll (events : List Event) : BlockTemplate := events.foldl apply t

/-- A template that has not parsed anything. -/
def initial : (s : Slot) → s.Value
  | .blob => []
  | .coin => .invalid
  | .offset _ => 0
  | .vote => List.replicate 2 0
  | .carrotViewTag => List.replicate 3 0
  | .janusAnchor => List.replicate 16 0
  | .majorVersion | .minorVersion | .inputType | .outputType | .viewTag => (0 : UInt8)
  | .prevId | .minerSignature | .ephPublicKey | .txExtraNonce | .txMergeMiningTag =>
    (⟨0, 0⟩ : Span)
  | .numEntries => (0 : Nat)
  | .hash _ | .rootHash => MerkleTree.noHash
  | .minerTxMerkleTreeBranch => []
  | .timestamp | .txVersion | .unlockTime | .numInputs | .height | .numOutputs | .amount
  | .extraSize | .numHashes => (0 : UInt64)

/-- `parse(const Buffer &blocktemplate, const Coin &coin, bool hashes)`. -/
def parseBlob (keccak : List UInt8 → Hash) (allocates : Nat → Bool) (fuel : Nat) (blob : Blob)
    (coin : Coin) (hashes : Bool) : Outcome Unit × BlockTemplate :=
  if blob.bytes.length < kMinSize then (.stopped .rejected, t)
  else
    let r := (parse keccak blob coin hashes fuel).run (machine blob.bytes allocates)
    (r.outcome, ((t.apply (.assign .blob blob.bytes)).apply (.assign .coin coin)).applyAll r.events)

/-- `parse(const char *blocktemplate, size_t size, const Coin &coin, bool hashes)`. The text
is decoded into `m_blob` in place. -/
def parseHex (keccak : List UInt8 → Hash) (allocates : Nat → Bool) (fuel : Nat) (hex : Blob)
    (coin : Coin) (hashes : Bool) : Outcome Unit × BlockTemplate :=
  if hex.bytes.length < kMinSize * 2 then (.stopped .rejected, t)
  else
    let t := t.apply (.assign .blob (Hex.into t.blob hex.bytes))
    if (Hex.decode hex.bytes).isNone then (.stopped .rejected, t)
    else
      let r := (parse keccak hex.decoded coin hashes fuel).run (machine hex.decoded.bytes allocates)
      (r.outcome, (t.apply (.assign .coin coin)).applyAll r.events)

end BlockTemplate

end VeloxHash
