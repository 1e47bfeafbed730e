import VeloxHash.CodeBuffer
import VeloxHash.Hex

/-! `Cvt`: the two loops between bytes and hexadecimal text, with the masks that stand for
their branches, and the functions around them. -/

namespace VeloxHash.Cvt

open CodeBuffer

section Encoding

/-- The letter of a half byte; the mask takes 39 off below ten. -/
def letter (n : UInt32) : UInt8 :=
  let mask : UInt32 := (n - 10) >>> 8 &&& ~~~38
  (87 + n + mask).toUInt8

/-- `cvt_bin2hex` from position `i` on. -/
def bin2hexLoop (hexMaxlen : Nat) : List UInt8 → Nat → Memory → Memory
  | [], i, hex => if i * 2 < hexMaxlen then write hex (i * 2) [0] else hex
  | bin :: rest, i, hex =>
    let c := bin.toUInt32 &&& 0xf
    let b := bin.toUInt32 >>> 4
    let x := (letter c).toUInt32 <<< 8 ||| (letter b).toUInt32
    bin2hexLoop hexMaxlen rest (i + 1) (write hex (i * 2) [x.toUInt8, (x >>> 8).toUInt8])

/-- `SIZE_MAX`. -/
def sizeMax : Nat := 2 ^ 64 - 1

def cvtBin2hex (hex : Memory) (hexMaxlen : Nat) (bin : List UInt8) : Option Memory :=
  if sizeMax / 2 ≤ bin.length ∨ hexMaxlen < bin.length * 2 then none
  else some (bin2hexLoop hexMaxlen bin 0 hex)

/-- `Cvt::toHex` of a span; `buf` is what the new buffer holds. -/
def toHex (buf : Memory) (bin : List UInt8) : Option (List UInt8) :=
  if bin = [] then none
  else
    let hexMaxlen := bin.length * 2 + 1
    (cvtBin2hex buf hexMaxlen bin).map fun hex => (read hex 0 hexMaxlen).takeWhile (· ≠ 0)

end Encoding

section Decoding

structure Hex2bin where
  bin : Memory
  binPos : Nat
  hexPos : Nat
  ret : Int
  cAcc : UInt8
  state : UInt8

/-- `strchr`, which also finds the terminator. -/
def strchr (s : List UInt8) (c : UInt8) : Bool := c = 0 || s.contains c

variable (ignore : Option (List UInt8)) (binMaxlen : Nat)

/-- The masks that are all ones where the character is a decimal digit and where it is a letter. -/
def cNum0 (c : UInt8) : UInt8 := (((c ^^^ 48).toUInt32 - 10) >>> 8).toUInt8

def cAlpha (c : UInt8) : UInt8 := ((c.toUInt32 &&& ~~~(32 : UInt32)) - 55).toUInt8

def cAlpha0 (c : UInt8) : UInt8 :=
  ((((cAlpha c).toUInt32 - 10) ^^^ ((cAlpha c).toUInt32 - 16)) >>> 8).toUInt8

def cVal (c : UInt8) : UInt8 := (cNum0 c &&& (c ^^^ 48)) ||| (cAlpha0 c &&& cAlpha c)

def hex2binLoop : List UInt8 → Hex2bin → Hex2bin
  | [], s => s
  | c :: rest, s =>
    if cNum0 c ||| cAlpha0 c = 0 then
      if s.state = 0 ∧ ignore.any (strchr · c) then hex2binLoop rest { s with hexPos := s.hexPos + 1 }
      else s
    else if binMaxlen ≤ s.binPos then { s with ret := -1 }
    else if s.state = 0 then
      hex2binLoop rest
        { s with cAcc := cVal c * 16, state := ~~~s.state, hexPos := s.hexPos + 1 }
    else
      hex2binLoop rest
        { s with
          bin := write s.bin s.binPos [s.cAcc ||| cVal c]
          binPos := s.binPos + 1
          state := ~~~s.state
          hexPos := s.hexPos + 1 }

end Decoding

section Tables

/-- The two letters of each of the 256 bytes. -/
theorem pairs (b : UInt8) :
    let x := (letter (b.toUInt32 &&& 0xf)).toUInt32 <<< 8 ||| (letter (b.toUInt32 >>> 4)).toUInt32
    [x.toUInt8, (x >>> 8).toUInt8] = Hex.pair b ∧ (Hex.pair b).all (· ≠ 0) := by
  have hall : ∀ i : Fin 256,
      let b := UInt8.ofFin i
      let x := (letter (b.toUInt32 &&& 0xf)).toUInt32 <<< 8 ||| (letter (b.toUInt32 >>> 4)).toUInt32
      [x.toUInt8, (x >>> 8).toUInt8] = Hex.pair b ∧ (Hex.pair b).all (· ≠ 0) := by
    decide +kernel
  exact hall b.toFin

/-- The letters of a byte are its two digits. -/
theorem letters (b : UInt8) :
    let x := (letter (b.toUInt32 &&& 0xf)).toUInt32 <<< 8 ||| (letter (b.toUInt32 >>> 4)).toUInt32
    [x.toUInt8, (x >>> 8).toUInt8] = Hex.pair b :=
  (pairs b).1

/-- `[0-9a-fA-F]`. -/
def isHexDigit (c : UInt8) : Prop := 48 ≤ c ∧ c ≤ 57 ∨ 65 ≤ c ∧ c ≤ 70 ∨ 97 ≤ c ∧ c ≤ 102

instance (c : UInt8) : Decidable (isHexDigit c) := inferInstanceAs (Decidable (_ ∨ _ ∨ _))

/-- `tolower`. -/
def lower (c : UInt8) : UInt8 := if 65 ≤ c ∧ c ≤ 90 then c + 32 else c

/-- Each of the 256 characters, as the masks and as the grammar see it. -/
theorem characters (c : UInt8) :
    (cNum0 c ||| cAlpha0 c = 0 ↔ Hex.value c = none) ∧
      (isHexDigit c ↔ (Hex.value c).isSome) ∧
      (Hex.value c).all fun x => cVal c = x ∧ x < 16 ∧ Hex.digit x = lower c := by
  have hall : ∀ i : Fin 256, (cNum0 (.ofFin i) ||| cAlpha0 (.ofFin i) = 0 ↔
      Hex.value (.ofFin i) = none) ∧ (isHexDigit (.ofFin i) ↔ (Hex.value (.ofFin i)).isSome) ∧
      (Hex.value (.ofFin i)).all fun x =>
        cVal (.ofFin i) = x ∧ x < 16 ∧ Hex.digit x = lower (.ofFin i) := by
    decide +kernel
  exact hall c.toFin

theorem value_characters {c x : UInt8} (h : Hex.value c = some x) :
    cVal c = x ∧ x < 16 ∧ Hex.digit x = lower c := by
  have hc := (characters c).2.2
  rw [h] at hc
  exact of_decide_eq_true hc

/-- What the masks make of each character. -/
theorem masks (c : UInt8) :
    (cNum0 c ||| cAlpha0 c = 0 ↔ Hex.value c = none) ∧
      (∀ x, Hex.value c = some x → cVal c = x) :=
  ⟨(characters c).1, fun _ hx => (value_characters hx).1⟩

theorem isHexDigit_iff (c : UInt8) : isHexDigit c ↔ ∃ x, Hex.value c = some x :=
  (characters c).2.1.trans Option.isSome_iff_exists

theorem digit_value {c x : UInt8} (h : Hex.value c = some x) : x < 16 ∧ Hex.digit x = lower c :=
  (value_characters h).2

theorem pair_join {x y : UInt8} (hx : x < 16) (hy : y < 16) :
    Hex.pair (x * 16 ||| y) = [Hex.digit x, Hex.digit y] := by
  have hx' : x.toNat < 16 := UInt8.lt_iff_toNat_lt.mp hx
  have hy' : y.toNat < 16 := UInt8.lt_iff_toNat_lt.mp hy
  have hjoin : (x * 16 ||| y).toNat = x.toNat * 16 + y.toNat := by
    rw [UInt8.toNat_or, UInt8.toNat_mul, Nat.mod_eq_of_lt (by simp; omega)]
    have hor := Nat.shiftLeft_add_eq_or_of_lt (i := 4) hy' x.toNat
    rw [Nat.shiftLeft_eq] at hor
    exact hor.symm
  have hhigh : (x * 16 ||| y) >>> 4 = x := by
    apply UInt8.toNat_inj.mp
    rw [UInt8.toNat_shiftRight, hjoin]
    simp only [Nat.shiftRight_eq_div_pow, UInt8.reduceToNat, Nat.reduceMod, Nat.reducePow]
    omega
  have hlow : (x * 16 ||| y) &&& 15 = y := by
    apply UInt8.toNat_inj.mp
    rw [UInt8.toNat_and, hjoin, show (15 : UInt8).toNat = 2 ^ 4 - 1 from rfl,
      Nat.and_two_pow_sub_one_eq_mod]
    omega
  rw [Hex.pair, hhigh, hlow]

end Tables

section Grammar

variable {hex bytes : List UInt8}

theorem encode_decodes (h : Hex.Decodes hex bytes) : Hex.encode bytes = hex.map lower := by
  induction h with
  | nil => rfl
  | cons hx hy _ ih =>
    obtain ⟨hxlt, hxdigit⟩ := digit_value hx
    obtain ⟨hylt, hydigit⟩ := digit_value hy
    rw [Hex.encode, List.flatMap_cons, pair_join hxlt hylt, hxdigit, hydigit]
    exact congrArg _ ih

theorem digits_of_decodes (h : Hex.Decodes hex bytes) : ∀ c ∈ hex, isHexDigit c := by
  induction h with
  | nil => exact nofun
  | cons hx hy _ ih =>
    intro c hc
    rcases List.mem_cons.mp hc with rfl | hc
    · exact (isHexDigit_iff _).mpr ⟨_, hx⟩
    rcases List.mem_cons.mp hc with rfl | hc
    · exact (isHexDigit_iff _).mpr ⟨_, hy⟩
    · exact ih c hc

theorem exists_decodes (hex : List UInt8) (heven : hex.length % 2 = 0)
    (hdigits : ∀ c ∈ hex, isHexDigit c) : ∃ bytes, Hex.Decodes hex bytes := by
  induction hex using Hex.decode.induct with
  | case1 => exact ⟨[], .nil⟩
  | case2 c => exact absurd heven (by simp)
  | case3 c d rest ih =>
    obtain ⟨x, hx⟩ := (isHexDigit_iff c).mp (hdigits c (by simp))
    obtain ⟨y, hy⟩ := (isHexDigit_iff d).mp (hdigits d (by simp))
    obtain ⟨bytes, hbytes⟩ := ih (by simp only [List.length_cons] at heven; omega)
      fun c hc => hdigits c (by simp [hc])
    exact ⟨_, .cons hx hy hbytes⟩

end Grammar

section Loops

variable {ignore : Option (List UInt8)} {binMaxlen : Nat} {hex bytes rest : List UInt8} {c d x y : UInt8}

theorem bin2hexLoop_eq (hexMaxlen : Nat) (bin : List UInt8) (i : Nat) (hex : Memory) :
    bin2hexLoop hexMaxlen bin i hex = write hex (i * 2)
      (Hex.encode bin ++ if (i + bin.length) * 2 < hexMaxlen then [0] else []) := by
  induction bin generalizing i hex with
  | nil =>
    rw [bin2hexLoop, Hex.encode, List.flatMap_nil, List.nil_append, List.length_nil, Nat.add_zero]
    split
    · rfl
    · funext a
      simp [write]
  | cons b rest ih =>
    have hnext : (i + 1) * 2 = i * 2 + (Hex.pair b).length := by
      simp [Hex.pair]
      omega
    rw [bin2hexLoop, letters b, ih, hnext, write_append, ← List.append_assoc, List.length_cons,
      show i + 1 + rest.length = i + (rest.length + 1) by omega]
    rfl

/-- A digit in the first half of a byte and one in the second. -/
theorem loop_pair (hx : Hex.value c = some x) (hy : Hex.value d = some y) {s : Hex2bin}
    (hstate : s.state = 0) (hroom : s.binPos < binMaxlen) :
    hex2binLoop ignore binMaxlen (c :: d :: rest) s =
      hex2binLoop ignore binMaxlen rest
        { s with
          bin := write s.bin s.binPos [x * 16 ||| y]
          binPos := s.binPos + 1
          hexPos := s.hexPos + 2
          cAcc := x * 16
          state := 0 } := by
  obtain ⟨hc, hcval⟩ := masks c
  obtain ⟨hd, hdval⟩ := masks d
  have hcdigit : ¬cNum0 c ||| cAlpha0 c = 0 := by rw [hc, hx]; exact nofun
  have hddigit : ¬cNum0 d ||| cAlpha0 d = 0 := by rw [hd, hy]; exact nofun
  have hflip : (~~~(0 : UInt8)) ≠ 0 := by decide
  have hback : (~~~(~~~(0 : UInt8))) = 0 := by decide
  rw [hex2binLoop, if_neg hcdigit, if_neg (by omega), if_pos hstate, hex2binLoop, if_neg hddigit,
    if_neg (by simpa using hroom), if_neg (by rw [hstate]; exact hflip), hcval x hx, hdval y hy, hstate]
  simp only [hback, Nat.add_assoc]

end Loops

section Buffers

variable (ignore : Option (List UInt8)) (binMaxlen : Nat)

/-- `cvt_hex2bin`; the caller may ask for the end of the digits, and gets an error for one
before the end of the text if not. -/
def cvtHex2bin (bin : Memory) (hex : List UInt8) (wantsEnd : Bool) : Hex2bin :=
  let s := hex2binLoop ignore binMaxlen hex ⟨bin, 0, 0, 0, 0, 0⟩
  let s := if s.state ≠ 0 then { s with hexPos := s.hexPos - 1, ret := -1 } else s
  let s := if s.ret ≠ 0 then { s with binPos := 0 } else s
  if ¬wantsEnd ∧ s.hexPos ≠ hex.length then { s with ret := -1 } else s

/-- `Cvt::fromHex` into a buffer: whether it succeeds, and what the memory from `bin` on
holds then. `none` is a null pointer. -/
def fromHexInto (bin : Memory) (hex : Option (List UInt8)) : Bool × Memory :=
  match hex with
  | none | some [] => (false, bin)
  | some (c :: rest) =>
    let s := cvtHex2bin none binMaxlen bin (c :: rest) false
    (s.ret = 0, s.bin)

/-- A call succeeds if the loop ends between two digits, at the end of the text. -/
theorem fromHexInto_cons (bin : Memory) (c : UInt8) (rest : List UInt8) :
    fromHexInto binMaxlen bin (some (c :: rest)) =
      let t := hex2binLoop none binMaxlen (c :: rest) ⟨bin, 0, 0, 0, 0, 0⟩
      (decide (t.state = 0 ∧ t.ret = 0 ∧ t.hexPos = (c :: rest).length), t.bin) := by
  rw [fromHexInto, cvtHex2bin]
  generalize hex2binLoop none binMaxlen (c :: rest) ⟨bin, 0, 0, 0, 0, 0⟩ = t
  by_cases hstate : t.state = 0 <;> by_cases hret : t.ret = 0 <;>
    by_cases hpos : t.hexPos = (c :: rest).length <;> simp_all

/-- `Cvt::fromHex` to a `Buffer`, zeroed when it is resized; empty on failure. -/
def fromHex (hex : List UInt8) : List UInt8 :=
  let size := hex.length / 2
  let (ok, bin) := fromHexInto size (fun _ => 0) (some hex)
  if ok then read bin 0 size else []

end Buffers

section Runs

variable {ignore : Option (List UInt8)} {binMaxlen : Nat} {hex bytes : List UInt8}

theorem loop_decodes (h : Hex.Decodes hex bytes) {s : Hex2bin} (hstate : s.state = 0)
    (hroom : s.binPos + bytes.length ≤ binMaxlen) :
    let t := hex2binLoop ignore binMaxlen hex s
    t.bin = write s.bin s.binPos bytes ∧ t.binPos = s.binPos + bytes.length ∧
      t.hexPos = s.hexPos + hex.length ∧ t.ret = s.ret ∧ t.state = 0 := by
  induction h generalizing s with
  | nil =>
    refine ⟨?_, rfl, rfl, rfl, hstate⟩
    funext a
    simp [hex2binLoop, write]
  | cons hx hy _ ih =>
    rw [List.length_cons] at hroom
    rw [loop_pair hx hy hstate (by omega)]
    obtain ⟨hbin, hpos, hhex, hret, hzero⟩ := ih (s := { s with
      bin := write s.bin s.binPos [_]
      binPos := s.binPos + 1
      hexPos := s.hexPos + 2
      cAcc := _
      state := 0 }) rfl (by change s.binPos + 1 + _ ≤ _; omega)
    refine ⟨?_, ?_, ?_, hret, hzero⟩
    · rw [hbin]
      exact write_append s.bin s.binPos [_] _
    · rw [hpos, List.length_cons]
      dsimp only
      omega
    · rw [hhex, List.length_cons, List.length_cons]
      dsimp only
      omega

/-- A loop that ends well between two bytes has read digits only. -/
theorem decodes_of_loop {s : Hex2bin} (hstate : s.state = 0) (hret : s.ret = 0)
    (hroom : s.binPos ≤ binMaxlen)
    (h : let t := hex2binLoop none binMaxlen hex s
      t.state = 0 ∧ t.ret = 0 ∧ t.hexPos = s.hexPos + hex.length) :
    ∃ bytes, Hex.Decodes hex bytes ∧ s.binPos + bytes.length ≤ binMaxlen := by
  induction hex using Hex.decode.induct generalizing s with
  | case1 => exact ⟨[], .nil, hroom⟩
  | case2 c =>
    obtain ⟨hzero, hok, hpos⟩ := h
    rw [hex2binLoop] at hzero hok hpos
    split at hpos
    · rw [if_neg (by simp)] at hpos
      exact absurd hpos (by simp)
    · rename_i hdigit
      rw [if_neg hdigit] at hzero hok
      split at hok
      · exact absurd hok (show ¬(-1 : Int) = 0 by decide)
      · rename_i hlt
        rw [if_neg hlt, if_pos hstate, hex2binLoop, hstate] at hzero
        exact absurd hzero (show ¬(~~~0 : UInt8) = 0 by decide)
  | case3 c d rest ih =>
    cases hx : Hex.value c with
    | none =>
      obtain ⟨-, -, hpos⟩ := h
      rw [hex2binLoop, if_pos ((masks c).1.mpr hx), if_neg (by simp)] at hpos
      exact absurd hpos (by simp)
    | some x =>
      have hcdigit : ¬cNum0 c ||| cAlpha0 c = 0 := by
        rw [(masks c).1, hx]
        exact Option.some_ne_none x
      by_cases hfull : binMaxlen ≤ s.binPos
      · obtain ⟨-, hok, -⟩ := h
        rw [hex2binLoop, if_neg hcdigit, if_pos hfull] at hok
        exact absurd hok (show ¬(-1 : Int) = 0 by decide)
      · cases hy : Hex.value d with
        | none =>
          obtain ⟨hzero, -, -⟩ := h
          rw [hex2binLoop, if_neg hcdigit, if_neg hfull, if_pos hstate, hex2binLoop,
            if_pos ((masks d).1.mpr hy), if_neg (by simp), hstate] at hzero
          exact absurd hzero (show ¬(~~~0 : UInt8) = 0 by decide)
        | some y =>
          rw [loop_pair hx hy hstate (by omega)] at h
          obtain ⟨bytes, hbytes, hle⟩ := ih (s := { s with
            bin := write s.bin s.binPos [x * 16 ||| y]
            binPos := s.binPos + 1
            hexPos := s.hexPos + 2
            cAcc := x * 16
            state := 0 }) rfl hret (by change s.binPos + 1 ≤ _; omega)
            ⟨h.1, h.2.1, h.2.2.trans (by simp only [List.length_cons]; omega)⟩
          refine ⟨_, .cons hx hy hbytes, ?_⟩
          rw [List.length_cons]
          change s.binPos + 1 + _ ≤ _ at hle
          omega

/-- The loop writes a byte for every two characters, and none past the capacity. -/
theorem loop_frame (hex : List UInt8) {s : Hex2bin} (hstate : s.state = 0 ∨ s.state = 255) {a : Nat}
    (ha : s.binPos + (hex.length + if s.state = 0 then 0 else 1) / 2 ≤ a ∨ binMaxlen ≤ a) :
    (hex2binLoop ignore binMaxlen hex s).bin a = s.bin a := by
  induction hex generalizing s with
  | nil => rfl
  | cons c rest ih =>
    rw [List.length_cons] at ha
    rw [hex2binLoop]
    split
    · split
      · refine ih hstate (ha.imp_left fun h => ?_)
        change s.binPos + (rest.length + if s.state = 0 then 0 else 1) / 2 ≤ a
        omega
      · rfl
    · split
      · rfl
      · rename_i hlt
        split
        · rename_i hzero
          rw [if_pos hzero] at ha
          refine ih (.inr (by simp only [hzero]; decide)) (ha.imp_left fun h => ?_)
          rw [if_neg (by simp only [hzero]; decide)]
          change s.binPos + _ ≤ _
          omega
        · rename_i hone
          have h255 := hstate.resolve_left hone
          rw [if_neg hone] at ha
          have habove : s.binPos + 1 ≤ a := by omega
          refine (ih (.inl (by simp only [h255]; decide)) (ha.imp_left fun h => ?_)).trans
            (write_above habove)
          rw [if_pos (by simp only [h255]; decide)]
          change s.binPos + 1 + _ ≤ _
          omega

end Runs

section Text

variable {bytes : List UInt8}

theorem encode_ne_zero (bytes : List UInt8) : ∀ c ∈ Hex.encode bytes, c ≠ 0 := by
  intro c hc
  obtain ⟨b, -, hb⟩ := List.mem_flatMap.mp hc
  exact of_decide_eq_true (List.all_eq_true.mp (pairs b).2 c hb)

/-- The text of a byte string that a size can count. -/
theorem toHex_eq (buf : Memory) (hne : bytes ≠ []) (hsize : bytes.length < sizeMax / 2) :
    toHex buf bytes = some (Hex.encode bytes) := by
  have hlen : (Hex.encode bytes ++ [0]).length = bytes.length * 2 + 1 := by
    rw [List.length_append, (Hex.decodes_encode bytes).length_eq]
    rfl
  have hread : read (write buf 0 (Hex.encode bytes ++ [0])) 0 (bytes.length * 2 + 1) =
      Hex.encode bytes ++ [0] := by
    rw [read_write_take hlen.ge, ← hlen, List.take_length]
  rw [toHex, if_neg hne]
  dsimp only
  rw [cvtBin2hex, if_neg (by omega), Option.map_some, bin2hexLoop_eq,
    if_pos (by omega), Nat.zero_mul, hread, List.takeWhile_append_of_pos
      (fun c hc => decide_eq_true (encode_ne_zero bytes c hc))]
  simp

end Text

section Results

variable {bin : Memory} {binMaxlen : Nat} {hex bytes : List UInt8}

theorem fromHexInto_decodes (h : Hex.Decodes hex bytes) (hne : hex ≠ [])
    (hroom : bytes.length ≤ binMaxlen) :
    fromHexInto binMaxlen bin (some hex) = (true, write bin 0 bytes) := by
  have hloop := @loop_decodes none binMaxlen hex bytes h ⟨bin, 0, 0, 0, 0, 0⟩ rfl
    (by dsimp only; omega)
  obtain ⟨hbin, -, hpos, hret, hstate⟩ := hloop
  obtain ⟨c, rest, rfl⟩ := List.exists_cons_of_ne_nil hne
  rw [Nat.zero_add] at hpos
  rw [fromHexInto_cons]
  exact Prod.ext (decide_eq_true ⟨hstate, hret, hpos⟩) hbin

theorem decodes_of_fromHexInto (h : (fromHexInto binMaxlen bin (some hex)).1 = true) :
    hex ≠ [] ∧ ∃ bytes, Hex.Decodes hex bytes ∧ bytes.length ≤ binMaxlen := by
  cases hex with
  | nil => exact absurd h (by simp [fromHexInto])
  | cons c rest =>
    refine ⟨List.cons_ne_nil _ _, ?_⟩
    have hloop : let t := hex2binLoop none binMaxlen (c :: rest) ⟨bin, 0, 0, 0, 0, 0⟩
        t.state = 0 ∧ t.ret = 0 ∧ t.hexPos = 0 + (c :: rest).length := by
      rw [fromHexInto_cons] at h
      rw [Nat.zero_add]
      exact of_decide_eq_true h
    obtain ⟨bytes, hbytes, hle⟩ := decodes_of_loop (s := ⟨bin, 0, 0, 0, 0, 0⟩) rfl rfl
      (Nat.zero_le _) hloop
    exact ⟨bytes, hbytes, by dsimp only at hle; omega⟩

/-- What a call leaves alone, whether it succeeds or not. -/
theorem fromHexInto_frame (text : Option (List UInt8)) {a : Nat}
    (ha : (text.getD []).length / 2 ≤ a ∨ binMaxlen ≤ a) :
    (fromHexInto binMaxlen bin text).2 a = bin a := by
  match text with
  | none | some [] => rfl
  | some (c :: rest) =>
    have hframe := @loop_frame none binMaxlen (c :: rest) ⟨bin, 0, 0, 0, 0, 0⟩ (.inl rfl) a
      (ha.imp_left fun h => by simpa using h)
    rw [fromHexInto_cons]
    exact hframe

theorem fromHex_decodes (h : Hex.Decodes hex bytes) : fromHex hex = bytes := by
  cases h with
  | nil => rfl
  | cons hx hy hrest =>
    have hd := Hex.Decodes.cons hx hy hrest
    have hsize := hd.length_eq
    rw [fromHex, fromHexInto_decodes hd (List.cons_ne_nil _ _) (by omega)]
    dsimp only
    rw [if_pos rfl, hsize, Nat.mul_div_cancel _ (by decide), read_write_take le_rfl, List.take_length]

theorem fromHex_eq (hex : List UInt8) : fromHex hex = (Hex.decode hex).getD [] := by
  cases h : Hex.decode hex with
  | some bytes => exact fromHex_decodes (Hex.decodes_of_decode h)
  | none =>
    have hfails : (fromHexInto (hex.length / 2) (fun _ => 0) (some hex)).1 ≠ true := by
      intro hok
      obtain ⟨-, bytes, hbytes, -⟩ := decodes_of_fromHexInto hok
      exact absurd (hbytes.decode_eq.symm.trans h) nofun
    rw [fromHex]
    dsimp only
    rw [if_neg hfails]
    rfl

/-- The text of bytes reads back as they are; text is taken exactly if it is pairs of digits
that fit, and then the bytes' own text is the same in lower case. -/
theorem hex_exact :
    (∀ (buf : Memory) (b : List UInt8), b ≠ [] → b.length < sizeMax / 2 →
      (toHex buf b).map fromHex = some b) ∧
    ∀ (bin : Memory) (c : Nat) (s : List UInt8),
      let r := fromHexInto c bin (some s)
      (r.1 = true ↔ s ≠ [] ∧ s.length % 2 = 0 ∧ s.length ≤ 2 * c ∧ ∀ x ∈ s, isHexDigit x) ∧
      (r.1 = true → ∀ buf, s.length / 2 < sizeMax / 2 →
        toHex buf (read r.2 0 (s.length / 2)) = some (s.map lower)) ∧
      ∀ a, s.length / 2 ≤ a ∨ c ≤ a → r.2 a = bin a := by
  refine ⟨fun buf b hne hsize => ?_, fun bin c s => ?_⟩
  · rw [toHex_eq buf hne hsize, Option.map_some, fromHex_decodes (Hex.decodes_encode b)]
  refine ⟨⟨fun h => ?_, fun ⟨hne, heven, hle, hdigits⟩ => ?_⟩, fun h buf hsize => ?_, fun a ha =>
    fromHexInto_frame (some s) ha⟩
  · obtain ⟨hne, bytes, hbytes, hle⟩ := decodes_of_fromHexInto h
    have hlength := hbytes.length_eq
    exact ⟨hne, by omega, by omega, digits_of_decodes hbytes⟩
  · obtain ⟨bytes, hbytes⟩ := exists_decodes s heven hdigits
    have hlength := hbytes.length_eq
    rw [fromHexInto_decodes hbytes hne (by omega)]
  · obtain ⟨hne, bytes, hbytes, hle⟩ := decodes_of_fromHexInto h
    have hlength := hbytes.length_eq
    have hhalf : s.length / 2 = bytes.length := by omega
    have hnonempty : bytes ≠ [] := by
      rintro rfl
      exact hne (List.eq_nil_of_length_eq_zero (by simpa using hlength))
    rw [fromHexInto_decodes hbytes hne hle, hhalf, read_write_take le_rfl, List.take_length,
      toHex_eq buf hnonempty (by omega), encode_decodes hbytes]

/-- Two bytes there and back, and a byte in letters of either case. -/
theorem hex_exact_bytes :
    (toHex (fun _ => 0xFF) [0xAB, 0x0F]).map fromHex = some [0xAB, 0x0F] ∧
      toHex (fun _ => 0xFF) (read (fromHexInto 2 (fun _ => 0) (some [65, 98])).2 0 1) = some [97, 98] := by
  obtain ⟨hback, htext⟩ := hex_exact
  refine ⟨hback _ _ (by decide) (show 2 < sizeMax / 2 by norm_num [sizeMax]), ?_⟩
  have haccept := (htext (fun _ => 0) 2 [65, 98]).1.mpr
    ⟨List.cons_ne_nil _ _, rfl, by simp, by simp [isHexDigit]⟩
  exact (htext (fun _ => 0) 2 [65, 98]).2.1 haccept _ (show 1 < sizeMax / 2 by norm_num [sizeMax])

end Results

end VeloxHash.Cvt
