import VeloxHash.CodeBuffer
import VeloxHash.SoftAes
import VeloxHash.StridedLoop

/-! `aes_hash.cpp`: the scratchpad is filled by `fillAes1Rx4` and hashed by `hashAes1Rx4`, or both in
one pass by `hashAndFillAes1Rx4`. -/

namespace VeloxHash.Randomx

open CodeBuffer SoftAes StridedLoop

/-- `aesenc<softAes>`; the instruction is a round of AES. -/
def aesenc (t : Sboxes) (softAes : Fin 3) : Block → Block → Block :=
  match softAes with
  | 0 => Rijndael.encRound
  | 1 => aesenc1 t
  | 2 => aesenc2 t

def aesdec (t : Sboxes) (softAes : Fin 3) : Block → Block → Block :=
  match softAes with
  | 0 => Rijndael.decRound
  | 1 => aesdec1 t
  | 2 => aesdec2 t

/-- Four states of AES. -/
@[ext]
structure Lanes where
  state0 : Block
  state1 : Block
  state2 : Block
  state3 : Block

/-- `rx_load_vec_i128`. -/
def loadBlock (m : Memory) (p : Nat) : Block := fun c r => m (p + (4 * c.val + r.val))

def blockBytes (s : Block) : List UInt8 := List.ofFn (byte s)

def Lanes.load (m : Memory) (p : Nat) : Lanes :=
  ⟨loadBlock m p, loadBlock m (p + 16), loadBlock m (p + 32), loadBlock m (p + 48)⟩

def Lanes.bytes (s : Lanes) : List UInt8 :=
  blockBytes s.state0 ++ blockBytes s.state1 ++ blockBytes s.state2 ++ blockBytes s.state3

/-- Four times `rx_store_vec_i128`. -/
def Lanes.store (s : Lanes) (m : Memory) (p : Nat) : Memory := write m p s.bytes

section Passes

variable (t : Sboxes) (softAes : Fin 3)

/-- `AES_HASH_1R_STATE0` to `AES_HASH_1R_STATE3`. -/
def hashStart : Lanes where
  state0 := setWords 0xd7983aad 0xcc82db47 0x9fa856de 0x92b52c0d
  state1 := setWords 0xace78057 0xf59e125a 0x15c7b798 0x338d996e
  state2 := setWords 0xe8a07ce4 0x5079506b 0xae62c7d0 0x6a770017
  state3 := setWords 0x7e994948 0x79a10005 0x07ad828d 0x630a240c

/-- A round of hashing; the lanes go in turn forward and back. -/
def hashRound (s keys : Lanes) : Lanes where
  state0 := aesenc t softAes s.state0 keys.state0
  state1 := aesdec t softAes s.state1 keys.state1
  state2 := aesenc t softAes s.state2 keys.state2
  state3 := aesdec t softAes s.state3 keys.state3

/-- `HASH_STATE` of the 64 bytes at `p`. -/
def hashState (m : Memory) (p : Nat) (s : Lanes) : Lanes := hashRound t softAes s (.load m p)

/-- The two extra rounds, with `AES_HASH_1R_XKEY0` and `AES_HASH_1R_XKEY1`. -/
def hashEnd (s : Lanes) : Lanes :=
  let xkey0 := setWords 0x06890201 0x90dc56bf 0x8b24949f 0xf6fa8389
  let xkey1 := setWords 0xed18f99b 0xee1043c6 0x51f4e03c 0x61b263d1
  hashRound t softAes (hashRound t softAes s ⟨xkey0, xkey0, xkey0, xkey0⟩)
    ⟨xkey1, xkey1, xkey1, xkey1⟩

/-- `hashAes1Rx4` of the bytes from the address 0 on. -/
def hashAes1Rx4 (m : Memory) (size : Nat) : Lanes :=
  hashEnd t softAes (strided 64 (hashState t softAes m) size 0 hashStart).2

/-- `AES_GEN_1R_KEY0` to `AES_GEN_1R_KEY3`. -/
def fillKeys : Lanes where
  state0 := setWords 0xb4f44917 0xdbb5552b 0x62716609 0x6daca553
  state1 := setWords 0x0da1dc4e 0x1725d378 0x846a710d 0x6d7caf07
  state2 := setWords 0x3e20e345 0xf4c0794f 0x9f947ec6 0x3f1262f1
  state3 := setWords 0x49169154 0x16314c88 0xb1ba317c 0x6aef8135

/-- A round of filling; the lanes go in turn back and forward. -/
def fillRound (s keys : Lanes) : Lanes where
  state0 := aesdec t softAes s.state0 keys.state0
  state1 := aesenc t softAes s.state1 keys.state1
  state2 := aesdec t softAes s.state2 keys.state2
  state3 := aesenc t softAes s.state3 keys.state3

/-- `FILL_STATE` of the 64 bytes at `p`. -/
def fillState (p : Nat) (x : Lanes × Memory) : Lanes × Memory :=
  (fillRound t softAes x.1 fillKeys, (fillRound t softAes x.1 fillKeys).store x.2 p)

/-- `fillAes1Rx4`, with the state that it writes back. -/
def fillAes1Rx4 (state : Lanes) (size : Nat) (m : Memory) : Lanes × Memory :=
  (strided 64 (fillState t softAes) size 0 (state, m)).2

/-- The states of the hash and of the filling, and the scratchpad. -/
abbrev Pass := Lanes × Lanes × Memory

/-- `HASH_STATE` and then `FILL_STATE`. -/
def hashFill (p : Nat) (x : Pass) : Pass :=
  (hashState t softAes x.2.2 p x.1, fillState t softAes p x.2)

/-- How far a round of the loop in `hashAndFillAes1Rx4` goes. -/
def passWidth (softAes : Fin 3) (unroll : Nat) : ℕ+ :=
  if softAes = 0 then 128 else if unroll = 4 then 256 else if unroll = 2 then 128 else 64

/-- A round of that loop. -/
def passRound (unroll p : Nat) (x : Pass) : Pass :=
  if softAes = 0 then
    let hashed := hashState t softAes x.2.2 (p + 64) (hashState t softAes x.2.2 p x.1)
    (hashed, fillState t softAes (p + 64) (fillState t softAes p x.2))
  else if unroll = 4 then
    hashFill t softAes (p + 192) (hashFill t softAes (p + 128)
      (hashFill t softAes (p + 64) (hashFill t softAes p x)))
  else if unroll = 2 then hashFill t softAes (p + 64) (hashFill t softAes p x)
  else hashFill t softAes p x

/-- `PREFETCH_DISTANCE`. -/
def prefetchDistance : Nat := 7168

/-- `hashAndFillAes1Rx4`: the hash of the scratchpad, the fill state at the end and what the
scratchpad holds then. The two rounds of the outer loop differ in what they prefetch only. -/
def hashAndFillAes1Rx4 (unroll : Nat) (m : Memory) (size : Nat) (fill : Lanes) : Pass :=
  let pass := strided (passWidth softAes unroll) (passRound t softAes unroll)
  let first := pass (size - prefetchDistance) 0 (hashStart, fill, m)
  let second := pass size first.1 first.2
  (hashEnd t softAes second.2.1, second.2.2)

end Passes

theorem aesenc_eq {t : Sboxes} (h : Exact t) (softAes : Fin 3) :
    aesenc t softAes = Rijndael.encRound := by
  funext s key
  match softAes with
  | 0 => rfl
  | 1 => exact aesenc1_eq h s key
  | 2 => exact aesenc2_eq h s key

theorem aesdec_eq {t : Sboxes} (h : Exact t) (softAes : Fin 3) :
    aesdec t softAes = Rijndael.decRound := by
  funext s key
  match softAes with
  | 0 => rfl
  | 1 => exact aesdec1_eq h s key
  | 2 => exact aesdec2_eq h s key

theorem hashRound_eq {t : Sboxes} (h : Exact t) (softAes : Fin 3) :
    hashRound t softAes = hashRound t 0 := by
  unfold hashRound
  rw [aesenc_eq h, aesdec_eq h, aesenc_eq h, aesdec_eq h]

theorem fillRound_eq {t : Sboxes} (h : Exact t) (softAes : Fin 3) :
    fillRound t softAes = fillRound t 0 := by
  unfold fillRound
  rw [aesenc_eq h, aesdec_eq h, aesenc_eq h, aesdec_eq h]

theorem hashAes1Rx4_eq {t : Sboxes} (h : Exact t) (softAes : Fin 3) :
    hashAes1Rx4 t softAes = hashAes1Rx4 t 0 := by
  unfold hashAes1Rx4 hashState hashEnd
  rw [hashRound_eq h]

theorem fillAes1Rx4_eq {t : Sboxes} (h : Exact t) (softAes : Fin 3) :
    fillAes1Rx4 t softAes = fillAes1Rx4 t 0 := by
  unfold fillAes1Rx4 fillState
  rw [fillRound_eq h]

variable {t : Sboxes} {softAes : Fin 3} {m m' : Memory} {p q n : Nat} {s : Lanes}

@[simp] theorem length_blockBytes (s : Block) : (blockBytes s).length = 16 := List.length_ofFn

@[simp] theorem length_bytes (s : Lanes) : s.bytes.length = 64 := by
  simp [Lanes.bytes]

theorem Lanes.store_above {a : Nat} (h : p + 64 ≤ a) : s.store m p a = m a :=
  write_above ((length_bytes s).symm ▸ h)

theorem loadBlock_congr (h : ∀ a, p ≤ a → a < p + 16 → m' a = m a) :
    loadBlock m' p = loadBlock m p :=
  funext fun c => funext fun r => h _ (by omega) (by omega)

theorem Lanes.load_congr (h : ∀ a, p ≤ a → a < p + 64 → m' a = m a) :
    Lanes.load m' p = Lanes.load m p := by
  rw [Lanes.load, Lanes.load, loadBlock_congr fun a _ _ => h a (by omega) (by omega),
    loadBlock_congr fun a _ _ => h a (by omega) (by omega),
    loadBlock_congr fun a _ _ => h a (by omega) (by omega),
    loadBlock_congr fun a _ _ => h a (by omega) (by omega)]

/-- What is filled is behind what is hashed from then on. -/
theorem hashState_fill {p' : Nat} (x : Lanes × Memory) (s : Lanes) (h : p + 64 ≤ p') :
    hashState t softAes (fillState t softAes p x).2 p' s = hashState t softAes x.2 p' s := by
  have hload : Lanes.load (fillState t softAes p x).2 p' = Lanes.load x.2 p' :=
    Lanes.load_congr fun a ha _ => Lanes.store_above (h.trans ha)
  rw [hashState, hashState, hload]

/-- A round of the pass hashes and fills as many blocks of 64 bytes as it goes over. -/
theorem passRound_eq (t : Sboxes) (softAes : Fin 3) (unroll : Nat) :
    ∃ n : ℕ+, passWidth softAes unroll = n * 64 ∧
      ∀ p x, passRound t softAes unroll p x = steps 64 (hashFill t softAes) n p x := by
  unfold passWidth passRound
  split_ifs
  · refine ⟨2, rfl, fun p x => ?_⟩
    change _ = hashFill t softAes (p + 64) (hashFill t softAes p x)
    rw [hashFill, hashFill, hashState_fill _ _ le_rfl]
  · exact ⟨4, rfl, fun p x => rfl⟩
  · exact ⟨2, rfl, fun p x => rfl⟩
  · exact ⟨1, rfl, fun p x => rfl⟩

theorem hashFill_strided (m : Memory) (size : Nat) (fill : Lanes) :
    strided 64 (hashFill t softAes) size 0 (hashStart, fill, m) =
      ((strided 64 (hashState t softAes m) size 0 hashStart).1,
        (strided 64 (hashState t softAes m) size 0 hashStart).2,
        (strided 64 (fillState t softAes) size 0 (fill, m)).2) :=
  @strided_fuse Lanes (Lanes × Memory) 64 0 size hashStart
    (fun x p s => hashState t softAes x.2 p s) (fillState t softAes) (fill, m)
    fun _ x _ s h => hashState_fill x s h

theorem hashAndFillAes1Rx4_passes {unroll size : Nat} (h : Exact t)
    (hsize : (passWidth softAes unroll : ℕ) ∣ size) (plain : Fin 3) (m : Memory) (fill : Lanes) :
    hashAndFillAes1Rx4 t softAes unroll m size fill =
      (hashAes1Rx4 t plain m size, fillAes1Rx4 t plain fill size m) := by
  obtain ⟨n, hwidth, hround⟩ := passRound_eq t softAes unroll
  have hunroll : strided (passWidth softAes unroll) (passRound t softAes unroll) size 0
      (hashStart, fill, m) = strided 64 (hashFill t softAes) size 0 (hashStart, fill, m) := by
    rw [hwidth] at hsize ⊢
    exact strided_unroll hround hsize (Nat.zero_le _)
  rw [hashAes1Rx4_eq h plain, fillAes1Rx4_eq h plain, ← hashAes1Rx4_eq h softAes,
    ← fillAes1Rx4_eq h softAes]
  unfold hashAndFillAes1Rx4
  dsimp only
  rw [← strided_phase (Nat.sub_le ..), hunroll, hashFill_strided]
  rfl

/-- One pass over a scratchpad hashes what it held and fills it anew, whichever implementation of
AES it uses and however far its loop is unrolled. -/
theorem hashAndFillAes1Rx4_eq : ∃ t, initialSboxes 255 = some t ∧
    ∀ (softAes plain : Fin 3) (unroll size : Nat) (m : Memory) (fill : Lanes),
      (passWidth softAes unroll : ℕ) ∣ size →
        hashAndFillAes1Rx4 t softAes unroll m size fill =
          (hashAes1Rx4 t plain m size, fillAes1Rx4 t plain fill size m) := by
  obtain ⟨t, ht, h⟩ := initialSboxes_exact
  exact ⟨t, ht, fun _ plain _ _ m fill hsize => hashAndFillAes1Rx4_passes h hsize plain m fill⟩

theorem hashAndFillAes1Rx4_unrolled : ∃ t, initialSboxes 255 = some t ∧ ∀ m fill,
    hashAndFillAes1Rx4 t 2 4 m 2097152 fill =
      (hashAes1Rx4 t 0 m 2097152, fillAes1Rx4 t 0 fill 2097152 m) := by
  obtain ⟨t, ht, h⟩ := hashAndFillAes1Rx4_eq
  exact ⟨t, ht, fun m fill => h 2 0 4 2097152 m fill (by decide)⟩

end VeloxHash.Randomx
