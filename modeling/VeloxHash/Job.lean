import VeloxHash.Algorithm
import VeloxHash.CodeBuffer
import VeloxHash.FinNumerals
import VeloxHash.Nonce
import Mathlib.Data.Vector.Basic

/-! `Job`, as far as a CPU worker reads it. The blob is the list of its `size()` bytes.
The functions a worker hashes and signs with are parameters. -/

namespace VeloxHash

open CodeBuffer Splice

abbrev Hash := Vector UInt8 32

abbrev Signature := Vector UInt8 64

abbrev Key := Vector UInt8 32

/-- `BlockTemplate::kSignatureSize`. -/
def kSignatureSize : Nat := 64

structure Job where
  algorithm : Algorithm := .invalid
  nicehash : Bool := false
  clientId : String := ""
  extraNonce : String := ""
  id : String := ""
  height : UInt64 := 0
  target : UInt64 := 0
  blob : List UInt8 := []
  index : Fin 2 := 0
  ephPublicKey : Key := Vector.replicate 32 0
  ephSecretKey : Key := Vector.replicate 32 0
  hasMinerSignature : Bool := false
  benchSize : UInt32 := 0
  backend : Nonce.Backend := .cpu
  deriving DecidableEq

/-- What the worker calls: the two halves of a RandomX hash with the state of the machine
between them, the CryptoNight family, one lane of `ghostrider::hash_octa`, and the parts
of `generateMinerSignature`. -/
structure Primitives where
  Vm : Type
  Entropy : Type
  begin : List UInt8 → Vm
  finish : Vm → Hash
  cnHash : Algorithm → UInt64 → List UInt8 → Hash
  hashOcta : List UInt8 → Hash
  keccak : List UInt8 → List UInt8
  generateSignature : Entropy → List UInt8 → Key → Key → Signature

/-- Primitives under which every hash is below every target. -/
def zeros : Primitives where
  Vm := Unit
  Entropy := Unit
  begin := fun _ => ()
  finish := fun _ => Vector.replicate 32 0
  cnHash := fun _ _ _ => Vector.replicate 32 0
  hashOcta := fun _ => Vector.replicate 32 0
  keccak := fun _ => []
  generateSignature := fun _ _ _ _ => Vector.replicate 64 0

/-- `*reinterpret_cast<uint64_t*>(hash + 24)`. -/
def Hash.value (h : Hash) : UInt64 := UInt64.ofNat (ofLe (h.toList.drop 24))

/-- `readUnaligned` of the word at `p`. -/
def word (m : Memory) (p : Nat) : UInt32 := UInt32.ofNat (ofLe (read m p 4))

namespace Job

def size (j : Job) : Nat := j.blob.length

def nonceOffset (j : Job) : Nat := j.algorithm.nonceOffset

def nonceSize (j : Job) : Nat := j.algorithm.nonceSize

def nonceMask (j : Job) : UInt64 :=
  if j.nicehash then 0xFFFFFF
  else if j.nonceSize == 8 then 0xFFFFFFFFFFFFFFFF >>> UInt64.ofNat (j.extraNonce.utf8ByteSize * 4)
  else 0xFFFFFFFF

def isEqualBlob (j other : Job) : Bool := j.blob == other.blob

def isEqual (j other : Job) : Bool :=
  j.id == other.id && j.clientId == other.clientId && j.isEqualBlob other &&
    j.target == other.target

/-- The nonce that hashing bytes of the job carry. -/
def nonceOf (j : Job) (bytes : List UInt8) : UInt32 :=
  UInt32.ofNat (ofLe (slice bytes j.nonceOffset 4))

/-- `setBlob` on decoded bytes. -/
def setBlob (j : Job) (bytes : List UInt8) : Option Job :=
  if j.nonceOffset + j.nonceSize ≤ bytes.length ∧ bytes.length < kMaxBlobSize then
    some { j with blob := bytes, nicehash := j.nicehash || j.nonceOf bytes != 0 }
  else
    none

def setIndex (j : Job) (index : Fin 2) : Job := { j with index }

def setBackend (j : Job) (backend : Nonce.Backend) : Job := { j with backend }

/-- Where the miner signature starts. -/
def signatureOffset (j : Job) : Nat := j.nonceOffset + j.nonceSize

/-- `generateMinerSignature(blob, size, ..)`: the signature bytes are cleared first. -/
def generateMinerSignature (k : Primitives) (entropy : k.Entropy) (j : Job)
    (blob : List UInt8) : Signature :=
  let tmp := splice blob j.signatureOffset (List.replicate kSignatureSize 0)
  k.generateSignature entropy (k.keccak (tmp.take blob.length)) j.ephPublicKey j.ephSecretKey

/-- The hash of the job's algorithm. -/
def hash (k : Primitives) (j : Job) (bytes : List UInt8) : Hash :=
  if j.algorithm.isRandomX then k.finish (k.begin bytes)
  else if j.algorithm.isGhostrider then k.hashOcta bytes
  else k.cnHash j.algorithm j.height bytes

/-- The job's blob with a nonce in its place. -/
def stamp (j : Job) (nonce : UInt32) : List UInt8 := splice j.blob j.nonceOffset (le nonce.toNat 4)

/-- The job's blob with a nonce and the miner signature after it. -/
def signed (j : Job) (nonce : UInt32) (signature : Signature) : List UInt8 :=
  splice (j.stamp nonce) j.signatureOffset signature.toList

/-- A four-byte nonce lies inside the blob, and so does a miner signature. -/
structure Sound (j : Job) : Prop where
  nonceSize : j.nonceSize = 4
  nonce_le : j.nonceOffset + 4 ≤ j.size
  signature_le : j.hasMinerSignature = true → j.signatureOffset + kSignatureSize ≤ j.size

/-- The bytes are the job's blob but for its nonce and, if it has one, its signature. -/
def Carries (j : Job) (bytes : List UInt8) (nonce : UInt32) : Prop :=
  bytes = j.stamp nonce ∨ j.hasMinerSignature = true ∧ ∃ signature, bytes = j.signed nonce signature

variable {j : Job} {nonce : UInt32} {signature : Signature} {bytes : List UInt8} {k : Primitives}

@[simp] theorem length_blob (j : Job) : j.blob.length = j.size := rfl

theorem Sound.length_stamp (h : j.Sound) (nonce : UInt32) : (j.stamp nonce).length = j.size :=
  length_splice (by simpa using h.nonce_le)

theorem Sound.signature_room (h : j.Sound) (hsig : j.hasMinerSignature = true) (nonce : UInt32)
    (signature : Signature) :
    j.signatureOffset + signature.toList.length ≤ (j.stamp nonce).length := by
  rw [h.length_stamp, Vector.length_toList]
  exact h.signature_le hsig

theorem Sound.nonceOf_stamp (h : j.Sound) : j.nonceOf (j.stamp nonce) = nonce := by
  have hslice := slice_splice_self (l := j.blob) (p := j.nonceOffset) (b := le nonce.toNat 4)
    (by simpa using h.nonce_le)
  rw [length_le] at hslice
  rw [nonceOf, stamp, hslice, ofLe_le, show 256 ^ 4 = 2 ^ 32 by norm_num,
    Nat.mod_eq_of_lt nonce.toNat_lt, UInt32.ofNat_toNat]

/-- The bits of a four-byte nonce that the miner may change. -/
def nonceBits (j : Job) : Nat := if j.nicehash then 24 else 32

theorem effectiveMask_nonceMask (h : j.nonceSize = 4) :
    (Nonce.effectiveMask j.nonceMask).toNat = 2 ^ j.nonceBits - 1 := by
  have hsize : (j.nonceSize == 8) = false := by simp [h]
  rw [nonceMask, nonceBits, hsize]
  cases j.nicehash <;> simp only [Bool.false_eq_true, if_false, if_true] <;> decide

/-- The bits of an eight-byte nonce that the miner may change: never the top one. -/
def wideBits (j : Job) : Nat := min 63 (64 - j.extraNonce.utf8ByteSize * 4 % 64)

theorem effectiveMask_wide (h : j.nonceSize = 8) (hn : j.nicehash = false) :
    (Nonce.effectiveMask j.nonceMask).toNat = 2 ^ j.wideBits - 1 := by
  have hshift : (UInt64.ofNat (j.extraNonce.utf8ByteSize * 4)).toNat % 64 =
      j.extraNonce.utf8ByteSize * 4 % 64 := by
    rw [UInt64.toNat_ofNat']
    exact Nat.mod_mod_of_dvd _ (by norm_num)
  have hmask : j.nonceMask =
      0xFFFFFFFFFFFFFFFF >>> UInt64.ofNat (j.extraNonce.utf8ByteSize * 4) := by
    rw [nonceMask, hn, h]
    rfl
  rw [Nonce.effectiveMask, hmask, wideBits, UInt64.toNat_and, UInt64.toNat_shiftRight, hshift]
  change (2 ^ 64 - 1) >>> _ &&& (2 ^ 63 - 1) = _
  apply Nat.eq_of_testBit_eq
  intro i
  rw [Nat.testBit_and, Nat.testBit_shiftRight, Nat.testBit_two_pow_sub_one,
    Nat.testBit_two_pow_sub_one, Nat.testBit_two_pow_sub_one, ← Bool.decide_and]
  exact decide_eq_decide.mpr (by omega)

/-- Whatever the job, the miner may change the low bits of the nonce. -/
theorem effectiveMask_bits (j : Job) :
    ∃ k ≤ 63, (Nonce.effectiveMask j.nonceMask).toNat = 2 ^ k - 1 := by
  by_cases hn : j.nicehash = true
  · refine ⟨24, by norm_num, ?_⟩
    rw [nonceMask, if_pos hn]
    rfl
  · by_cases h8 : j.nonceSize = 8
    · exact ⟨j.wideBits, min_le_left _ _, effectiveMask_wide h8 (by simpa using hn)⟩
    · refine ⟨32, by norm_num, ?_⟩
      rw [nonceMask, if_neg hn, if_neg (by simpa using h8)]
      rfl

/-- The signature starts behind the nonce. -/
theorem Sound.nonce_signature (h : j.Sound) : j.nonceOffset + 4 ≤ j.signatureOffset := by
  rw [signatureOffset, h.nonceSize]

theorem Sound.nonceOf_carries (h : j.Sound) (hc : j.Carries bytes nonce) :
    j.nonceOf bytes = nonce := by
  rcases hc with rfl | ⟨hsig, signature, rfl⟩
  · exact h.nonceOf_stamp
  · rw [nonceOf, signed, slice_splice_disjoint (h.signature_room hsig nonce signature)
      (Or.inr h.nonce_signature), ← nonceOf, h.nonceOf_stamp]

theorem Sound.stamp_splice (h : j.Sound) (nonce' : UInt32) :
    splice (j.stamp nonce) j.nonceOffset (le nonce'.toNat 4) = j.stamp nonce' :=
  splice_splice (by simpa using h.nonce_le) (by simp)

theorem Sound.signed_splice (h : j.Sound) (hsig : j.hasMinerSignature = true) (nonce' : UInt32) :
    splice (j.signed nonce signature) j.nonceOffset (le nonce'.toNat 4) =
      j.signed nonce' signature := by
  rw [signed, splice_comm (h.signature_room hsig nonce signature)
    (by rw [h.length_stamp]; simpa using h.nonce_le)
    (Or.inr (by simpa using h.nonce_signature)), h.stamp_splice, signed]

/-- The blob carries its own nonce. -/
theorem Sound.carries_blob (h : j.Sound) : j.Carries j.blob (j.nonceOf j.blob) := by
  have hlen : (slice j.blob j.nonceOffset 4).length = 4 := length_slice h.nonce_le
  have hlt : ofLe (slice j.blob j.nonceOffset 4) < 2 ^ 32 := by
    have := ofLe_lt (slice j.blob j.nonceOffset 4)
    rw [hlen] at this
    omega
  have hle := le_ofLe (slice j.blob j.nonceOffset 4)
  rw [hlen] at hle
  refine .inl ?_
  rw [stamp, nonceOf, UInt32.toNat_ofNat', Nat.mod_eq_of_lt hlt, hle, splice_slice h.nonce_le]

/-- Another nonce may be written over the one that bytes carry. -/
theorem Sound.carries_splice (h : j.Sound) (hc : j.Carries bytes nonce) (nonce' : UInt32) :
    j.Carries (splice bytes j.nonceOffset (le nonce'.toNat 4)) nonce' := by
  rcases hc with rfl | ⟨hsig, signature, rfl⟩
  · exact .inl (h.stamp_splice nonce')
  · exact .inr ⟨hsig, signature, h.signed_splice hsig nonce'⟩

/-- Another signature may be written over the one that bytes carry. -/
theorem Sound.carries_sign (h : j.Sound) (hsig : j.hasMinerSignature = true)
    (hc : j.Carries bytes nonce) (signature : Signature) :
    splice bytes j.signatureOffset signature.toList = j.signed nonce signature := by
  rcases hc with rfl | ⟨-, old, rfl⟩
  · rfl
  · exact splice_splice (h.signature_room hsig nonce signature) (by simp)

/-- A signature is taken over the blob with its own place cleared. -/
theorem Sound.generateMinerSignature_carries (h : j.Sound) (hsig : j.hasMinerSignature = true)
    (entropy : k.Entropy) (hc : j.Carries bytes nonce) :
    j.generateMinerSignature k entropy bytes =
      j.generateMinerSignature k entropy (j.stamp nonce) := by
  rcases hc with rfl | ⟨-, old, rfl⟩
  · rfl
  · have hzero : j.signatureOffset + (List.replicate kSignatureSize (0 : UInt8)).length ≤
        (j.stamp nonce).length := by
      simpa [h.length_stamp] using h.signature_le hsig
    rw [generateMinerSignature, generateMinerSignature, signed,
      splice_splice hzero (by simp [kSignatureSize]),
      length_splice (h.signature_room hsig nonce old)]

end Job

end VeloxHash
