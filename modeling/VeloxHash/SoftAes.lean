import VeloxHash.FinNumerals
import VeloxHash.Rijndael
import Mathlib.Data.List.GetD

/-! AES in software (`soft_aes.cpp`, `soft_aes.h`): the tables that are filled in at the start of
the program, and the rounds that look them up. -/

namespace VeloxHash.SoftAes

open Rijndael

/-- `mul_gf2`; its loop tests `k` eight times at most before it ends. -/
def mulGf2Loop : Nat → (s i j k : UInt32) → UInt32
  | 0, s, _, _, _ => s
  | rounds + 1, s, i, j, k =>
    if k < 0x100 ∧ j ≠ 0 then
      let s' := if j &&& k ≠ 0 then s ^^^ i else s
      let j' := if j &&& k ≠ 0 then j ^^^ k else j
      let i' := i <<< 1
      mulGf2Loop rounds s' (if i' &&& 0x100 ≠ 0 then i' ^^^ 0x11B else i') j' (k <<< 1)
    else s

def mulGf2 (b c : UInt32) : UInt32 := mulGf2Loop 8 0 b c 1

def rotl8 (x shift : UInt8) : UInt8 := x <<< shift ||| x >>> (8 - shift)

/-- `sbox` and `sbox_reverse`. -/
structure Sboxes where
  sbox : List UInt8
  reverse : List UInt8
  deriving DecidableEq

def Sboxes.store (t : Sboxes) (p value : UInt8) : Sboxes where
  sbox := t.sbox.set p.toNat value
  reverse := t.reverse.set value.toNat p

def nextP (p : UInt8) : UInt8 := p ^^^ p <<< 1 ^^^ if p &&& 0x80 ≠ 0 then 0x1B else 0

def nextQ (q : UInt8) : UInt8 :=
  let q := q ^^^ q <<< 1
  let q := q ^^^ q <<< 2
  let q := q ^^^ q <<< 4
  q ^^^ if q &&& 0x80 ≠ 0 then 0x09 else 0

def sboxValue (q : UInt8) : UInt8 :=
  q ^^^ rotl8 q 1 ^^^ rotl8 q 2 ^^^ rotl8 q 3 ^^^ rotl8 q 4 ^^^ 0x63

/-- The loop over the powers of 3; none when it goes on for longer than the given number of
rounds. -/
def fillSboxes : Nat → (p q : UInt8) → Sboxes → Option Sboxes
  | 0, _, _, _ => none
  | rounds + 1, p, q, t =>
    let t := t.store (nextP p) (sboxValue (nextQ q))
    if nextP p ≠ 1 then fillSboxes rounds (nextP p) (nextQ q) t else some t

/-- The boxes in `SAESInitializer`. -/
def initialSboxes (rounds : Nat) : Option Sboxes :=
  (fillSboxes rounds 1 1 ⟨List.replicate 256 0, List.replicate 256 0⟩).map (·.store 0 0x63)

/-- The bytes of a word, the lowest first. -/
def pack (p : Column) : UInt32 :=
  .ofNat ((p 0).toNat + 2 ^ 8 * (p 1).toNat + 2 ^ 16 * (p 2).toNat + 2 ^ 24 * (p 3).toNat)

def unpack (w : UInt32) : Column := fun r => .ofNat (w.toNat / 2 ^ (8 * r.val))

def rotlWord (w : UInt32) : UInt32 := w <<< 8 ||| w >>> 24

section Tables

variable (t : Sboxes)

/-- `lutEnc0` to `lutEnc3`. -/
def lutEnc (k : Fin 4) (i : UInt8) : UInt32 :=
  let s := t.sbox.getD i.toNat 0
  rotlWord^[k] (pack ![(mulGf2 s.toUInt32 2).toUInt8, s, s, (mulGf2 s.toUInt32 3).toUInt8])

/-- `lutDec0` to `lutDec3`. -/
def lutDec (k : Fin 4) (i : UInt8) : UInt32 :=
  let s := (t.reverse.getD i.toNat 0).toUInt32
  rotlWord^[k] (pack ![(mulGf2 s 0xE).toUInt8, (mulGf2 s 0x9).toUInt8, (mulGf2 s 0xD).toUInt8,
    (mulGf2 s 0xB).toUInt8])

/-- `rx_vec_i128`, as four words of four bytes. -/
abbrev Block := State

/-- `rx_set_int_vec_i128`. -/
def setWords (i3 i2 i1 i0 : UInt32) : Block := fun c => unpack (![i0, i1, i2, i3] c)

def xorBlock (a b : Block) : Block := fun c r => a c r ^^^ b c r

/-- The sixteen bytes in memory. -/
def byte (s : Block) (k : Fin 16) : UInt8 :=
  s (k.divNat (m := 4) (n := 4)) (k.modNat (m := 4) (n := 4))

/-- `aesenc<1>`, which reads its bytes one by one. -/
def aesenc1 (s key : Block) : Block :=
  let s0 := lutEnc t 0 (byte s 0) ^^^ lutEnc t 1 (byte s 5) ^^^ lutEnc t 2 (byte s 10) ^^^
    lutEnc t 3 (byte s 15)
  let s1 := lutEnc t 0 (byte s 4) ^^^ lutEnc t 1 (byte s 9) ^^^ lutEnc t 2 (byte s 14) ^^^
    lutEnc t 3 (byte s 3)
  let s2 := lutEnc t 0 (byte s 8) ^^^ lutEnc t 1 (byte s 13) ^^^ lutEnc t 2 (byte s 2) ^^^
    lutEnc t 3 (byte s 7)
  let s3 := lutEnc t 0 (byte s 12) ^^^ lutEnc t 1 (byte s 1) ^^^ lutEnc t 2 (byte s 6) ^^^
    lutEnc t 3 (byte s 11)
  xorBlock (setWords s3 s2 s1 s0) key

def aesdec1 (s key : Block) : Block :=
  let s0 := lutDec t 0 (byte s 0) ^^^ lutDec t 1 (byte s 13) ^^^ lutDec t 2 (byte s 10) ^^^
    lutDec t 3 (byte s 7)
  let s1 := lutDec t 0 (byte s 4) ^^^ lutDec t 1 (byte s 1) ^^^ lutDec t 2 (byte s 14) ^^^
    lutDec t 3 (byte s 11)
  let s2 := lutDec t 0 (byte s 8) ^^^ lutDec t 1 (byte s 5) ^^^ lutDec t 2 (byte s 2) ^^^
    lutDec t 3 (byte s 15)
  let s3 := lutDec t 0 (byte s 12) ^^^ lutDec t 1 (byte s 9) ^^^ lutDec t 2 (byte s 6) ^^^
    lutDec t 3 (byte s 3)
  xorBlock (setWords s3 s2 s1 s0) key

/-- A byte of a word, as `aesenc<2>` takes it out. -/
def wordByte (w : UInt32) (k : Fin 4) : UInt8 := (w >>> UInt32.ofNat (8 * k.val) &&& 0xFF).toUInt8

/-- `aesenc<2>`, which reads words, `s0` the highest. -/
def aesenc2 (s key : Block) : Block :=
  let s0 := pack (s 3)
  let s1 := pack (s 2)
  let s2 := pack (s 1)
  let s3 := pack (s 0)
  let out := setWords
    (lutEnc t 0 (wordByte s0 0) ^^^ lutEnc t 1 (wordByte s3 1) ^^^ lutEnc t 2 (wordByte s2 2) ^^^
      lutEnc t 3 (wordByte s1 3))
    (lutEnc t 0 (wordByte s1 0) ^^^ lutEnc t 1 (wordByte s0 1) ^^^ lutEnc t 2 (wordByte s3 2) ^^^
      lutEnc t 3 (wordByte s2 3))
    (lutEnc t 0 (wordByte s2 0) ^^^ lutEnc t 1 (wordByte s1 1) ^^^ lutEnc t 2 (wordByte s0 2) ^^^
      lutEnc t 3 (wordByte s3 3))
    (lutEnc t 0 (wordByte s3 0) ^^^ lutEnc t 1 (wordByte s2 1) ^^^ lutEnc t 2 (wordByte s1 2) ^^^
      lutEnc t 3 (wordByte s0 3))
  xorBlock out key

def aesdec2 (s key : Block) : Block :=
  let s0 := pack (s 3)
  let s1 := pack (s 2)
  let s2 := pack (s 1)
  let s3 := pack (s 0)
  let out := setWords
    (lutDec t 0 (wordByte s0 0) ^^^ lutDec t 1 (wordByte s1 1) ^^^ lutDec t 2 (wordByte s2 2) ^^^
      lutDec t 3 (wordByte s3 3))
    (lutDec t 0 (wordByte s1 0) ^^^ lutDec t 1 (wordByte s2 1) ^^^ lutDec t 2 (wordByte s3 2) ^^^
      lutDec t 3 (wordByte s0 3))
    (lutDec t 0 (wordByte s2 0) ^^^ lutDec t 1 (wordByte s3 1) ^^^ lutDec t 2 (wordByte s0 2) ^^^
      lutDec t 3 (wordByte s1 3))
    (lutDec t 0 (wordByte s3 0) ^^^ lutDec t 1 (wordByte s0 1) ^^^ lutDec t 2 (wordByte s1 2) ^^^
      lutDec t 3 (wordByte s2 3))
  xorBlock out key

end Tables

theorem unpack_pack (p : Column) : unpack (pack p) = p := by
  funext r
  have h0 := (p 0).toNat_lt
  have h1 := (p 1).toNat_lt
  have h2 := (p 2).toNat_lt
  have h3 := (p 3).toNat_lt
  apply UInt8.toNat.inj
  rw [unpack, pack, UInt8.toNat_ofNat', UInt32.toNat_ofNat']
  fin_cases r
  · change _ / 2 ^ 0 % 2 ^ 8 = (p 0).toNat
    omega
  · change _ / 2 ^ 8 % 2 ^ 8 = (p 1).toNat
    omega
  · change _ / 2 ^ 16 % 2 ^ 8 = (p 2).toNat
    omega
  · change _ / 2 ^ 24 % 2 ^ 8 = (p 3).toNat
    omega

theorem wordByte_eq (w : UInt32) (k : Fin 4) : wordByte w k = unpack w k := by
  have hk : (UInt32.ofNat (8 * k.val)).toNat % 32 = 8 * k.val := by
    rw [UInt32.toNat_ofNat']
    omega
  apply UInt8.toNat.inj
  rw [wordByte, unpack, UInt32.toNat_toUInt8, UInt32.toNat_and, UInt32.toNat_shiftRight, hk,
    UInt8.toNat_ofNat', Nat.shiftRight_eq_div_pow]
  change (_ &&& (2 ^ 8 - 1)) % 2 ^ 8 = _
  rw [Nat.and_two_pow_sub_one_eq_mod, Nat.mod_mod]

@[simp] theorem wordByte_pack (p : Column) (k : Fin 4) : wordByte (pack p) k = p k := by
  rw [wordByte_eq, unpack_pack]

theorem unpack_xor (a b : UInt32) (r : Fin 4) : unpack (a ^^^ b) r = unpack a r ^^^ unpack b r := by
  apply UInt8.toNat.inj
  rw [UInt8.toNat_xor, unpack, unpack, unpack, UInt8.toNat_ofNat', UInt8.toNat_ofNat',
    UInt8.toNat_ofNat', UInt32.toNat_xor, Nat.xor_div_two_pow, Nat.xor_mod_two_pow]

theorem unpack_rotlWord (w : UInt32) (r : Fin 4) : unpack (rotlWord w) r = unpack w (r - 1) := by
  have hw := w.toNat_lt
  have hrot : (rotlWord w).toNat = w.toNat % 2 ^ 24 * 2 ^ 8 + w.toNat / 2 ^ 24 := by
    have hlow : w.toNat / 2 ^ 24 < 2 ^ 8 := by omega
    rw [rotlWord, UInt32.toNat_or, UInt32.toNat_shiftLeft, UInt32.toNat_shiftRight]
    change w.toNat <<< 8 % 2 ^ 32 ||| w.toNat >>> 24 = _
    rw [Nat.shiftLeft_eq, Nat.shiftRight_eq_div_pow,
      show w.toNat * 2 ^ 8 % 2 ^ 32 = (w.toNat % 2 ^ 24) <<< 8 by rw [Nat.shiftLeft_eq]; omega,
      ← Nat.shiftLeft_add_eq_or_of_lt hlow, Nat.shiftLeft_eq]
  have hhigh : (rotlWord w).toNat / 2 ^ 8 = w.toNat % 2 ^ 24 := by omega
  have hlow : (rotlWord w).toNat % 2 ^ 8 = w.toNat / 2 ^ 24 := by omega
  apply UInt8.toNat.inj
  rw [unpack, unpack, UInt8.toNat_ofNat', UInt8.toNat_ofNat']
  fin_cases r
  · change _ / 2 ^ 0 % 2 ^ 8 = _ / 2 ^ 24 % 2 ^ 8
    omega
  · change _ / 2 ^ 8 % 2 ^ 8 = _ / 2 ^ 0 % 2 ^ 8
    omega
  · change _ / 2 ^ (8 + 8) % 2 ^ 8 = _ / 2 ^ 8 % 2 ^ 8
    rw [pow_add, ← Nat.div_div_eq_div_mul]
    omega
  · change _ / 2 ^ (8 + 16) % 2 ^ 8 = _ / 2 ^ 16 % 2 ^ 8
    rw [pow_add, ← Nat.div_div_eq_div_mul]
    omega

theorem unpack_rotl (w : UInt32) (k r : Fin 4) : unpack (rotlWord^[k] w) r = unpack w (r - k) := by
  fin_cases k
  · exact congrArg (unpack w) (sub_zero r).symm
  all_goals
    simp only [Function.iterate_succ, Function.iterate_zero, Function.comp_apply, id_eq,
      unpack_rotlWord]
    fin_cases r <;> rfl

/-- The tables of the two boxes. -/
structure Exact (t : Sboxes) : Prop where
  sbox (i : UInt8) : t.sbox.getD i.toNat 0 = subByte i
  reverse (i : UInt8) : t.reverse.getD i.toNat 0 = invSubByte i

theorem mulGf2_eq (s : UInt8) :
    ∀ c ∈ [2, 3, 0xE, 0x9, 0xD, 0xB], (mulGf2 s.toUInt32 (UInt8.toUInt32 c)).toUInt8 = mul s c := by
  have h : ∀ s < 256, ∀ c ∈ [2, 3, 0xE, 0x9, 0xD, 0xB],
      (mulGf2 (UInt8.ofNat s).toUInt32 (UInt8.toUInt32 c)).toUInt8 = mul (UInt8.ofNat s) c := by
    decide +kernel
  have hs := h s.toNat s.toNat_lt
  rwa [UInt8.ofNat_toNat] at hs

theorem initialSboxes_eq : initialSboxes 255 =
    some ⟨(List.range 256).map fun i => subByte (.ofNat i),
      (List.range 256).map fun i => invSubByte (.ofNat i)⟩ := by
  decide +kernel

theorem initialSboxes_exact : ∃ t, initialSboxes 255 = some t ∧ Exact t := by
  have hget (f : UInt8 → UInt8) (i : UInt8) :
      ((List.range 256).map fun i => f (.ofNat i)).getD i.toNat 0 = f i := by
    rw [List.getD_eq_getElem _ _ (by simpa using i.toNat_lt)]
    simp
  exact ⟨_, initialSboxes_eq, hget subByte, hget invSubByte⟩

section Rounds

variable {t : Sboxes} (h : Exact t)
include h

theorem unpack_lutEnc (k : Fin 4) (i : UInt8) (r : Fin 4) :
    unpack (lutEnc t k i) r = table mixCoeff (subByte i) (r - k) := by
  have h2 := mulGf2_eq (subByte i) 2 (by simp)
  have h3 := mulGf2_eq (subByte i) 3 (by simp)
  rw [lutEnc, unpack_rotl, unpack_pack, h.sbox, table_eq]
  change ![(mulGf2 (subByte i).toUInt32 (UInt8.toUInt32 2)).toUInt8, _, _,
    (mulGf2 (subByte i).toUInt32 (UInt8.toUInt32 3)).toUInt8] _ = ![mul _ 2, mul _ 1, mul _ 1, mul _ 3] _
  rw [h2, h3, mul_one]

theorem unpack_lutDec (k : Fin 4) (i : UInt8) (r : Fin 4) :
    unpack (lutDec t k i) r = table invMixCoeff (invSubByte i) (r - k) := by
  have hE := mulGf2_eq (invSubByte i) 0xE (by simp)
  have h9 := mulGf2_eq (invSubByte i) 0x9 (by simp)
  have hD := mulGf2_eq (invSubByte i) 0xD (by simp)
  have hB := mulGf2_eq (invSubByte i) 0xB (by simp)
  rw [lutDec, unpack_rotl, unpack_pack, h.reverse, table_eq]
  change ![(mulGf2 (invSubByte i).toUInt32 (UInt8.toUInt32 0xE)).toUInt8,
    (mulGf2 (invSubByte i).toUInt32 (UInt8.toUInt32 0x9)).toUInt8,
    (mulGf2 (invSubByte i).toUInt32 (UInt8.toUInt32 0xD)).toUInt8,
    (mulGf2 (invSubByte i).toUInt32 (UInt8.toUInt32 0xB)).toUInt8] _ =
      ![mul _ 0xE, mul _ 0x9, mul _ 0xD, mul _ 0xB] _
  rw [hE, h9, hD, hB]

theorem unpack_encColumn (a b c d : UInt8) (r : Fin 4) :
    unpack (lutEnc t 0 a ^^^ lutEnc t 1 b ^^^ lutEnc t 2 c ^^^ lutEnc t 3 d) r =
      mixColumn mixCoeff ![subByte a, subByte b, subByte c, subByte d] r := by
  rw [unpack_xor, unpack_xor, unpack_xor, unpack_lutEnc h, unpack_lutEnc h, unpack_lutEnc h,
    unpack_lutEnc h, mixColumn_table, sub_zero]
  rfl

theorem unpack_decColumn (a b c d : UInt8) (r : Fin 4) :
    unpack (lutDec t 0 a ^^^ lutDec t 1 b ^^^ lutDec t 2 c ^^^ lutDec t 3 d) r =
      mixColumn invMixCoeff ![invSubByte a, invSubByte b, invSubByte c, invSubByte d] r := by
  rw [unpack_xor, unpack_xor, unpack_xor, unpack_lutDec h, unpack_lutDec h, unpack_lutDec h,
    unpack_lutDec h, mixColumn_table, sub_zero]
  rfl

theorem aesenc1_eq (s key : Block) : aesenc1 t s key = encRound s key := by
  funext c r
  rw [encRound_apply]
  fin_cases c <;> exact congrArg (· ^^^ key _ r) (unpack_encColumn h _ _ _ _ r)

theorem aesdec1_eq (s key : Block) : aesdec1 t s key = decRound s key := by
  funext c r
  rw [decRound_apply]
  fin_cases c <;> exact congrArg (· ^^^ key _ r) (unpack_decColumn h _ _ _ _ r)

theorem aesenc2_eq (s key : Block) : aesenc2 t s key = encRound s key := by
  rw [← aesenc1_eq h]
  unfold aesenc2
  simp only [wordByte_pack]
  rfl

theorem aesdec2_eq (s key : Block) : aesdec2 t s key = decRound s key := by
  rw [← aesdec1_eq h]
  unfold aesdec2
  simp only [wordByte_pack]
  rfl

end Rounds

/-- With the tables filled in at the start, every implementation in software is a round of AES. -/
theorem softAes_exact : ∃ t, initialSboxes 255 = some t ∧ ∀ s key : Block,
    aesenc1 t s key = encRound s key ∧ aesenc2 t s key = encRound s key ∧
      aesdec1 t s key = decRound s key ∧ aesdec2 t s key = decRound s key := by
  obtain ⟨t, ht, h⟩ := initialSboxes_exact
  exact ⟨t, ht, fun s key =>
    ⟨aesenc1_eq h s key, aesenc2_eq h s key, aesdec1_eq h s key, aesdec2_eq h s key⟩⟩

end VeloxHash.SoftAes
