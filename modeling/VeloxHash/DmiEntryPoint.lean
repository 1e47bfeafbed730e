import VeloxHash.DmiDecoders
import Mathlib.Data.UInt

/-! `DmiReader::read`: where the entry point of the SMBIOS tables is looked for, and what decodes
it. Every decoding is logged with the anchor that it is for. -/

namespace VeloxHash.DmiEntryPoint

open BufferProgram Splice DmiTools

inductive Format
  | smbios3
  | smbios
  | legacy
  deriving DecidableEq, Repr

inductive Source
  | sysfs
  | efi
  | segment
  deriving DecidableEq, Repr

inductive Device
  /-- `kMemDevice`. -/
  | mem
  /-- `kSysTableFile`. -/
  | sysTable
  deriving DecidableEq, Repr

/-- What `address_from_efi` returns. -/
inductive Efi
  | notFound
  | noSmbios
  | address (base : Nat)
  deriving DecidableEq, Repr

/-- The machine: the contents of the two files, where they can be read, and what a read of the
memory device gives, if it gives anything. -/
structure Environment where
  sysEntry : Option (List UInt8)
  sysTable : Option (List UInt8)
  efi : Efi
  memory : (base len : Nat) → Option (Vector UInt8 len)
  x86 : Bool

structure EntryPoint where
  version : Nat
  size : Nat
  address : Nat
  deriving DecidableEq, Repr

/-- A table that was read, with what the entry point says of it. -/
structure Table where
  entry : EntryPoint
  bytes : List UInt8
  deriving DecidableEq, Repr

/-- `read_file` from the offset 0. -/
def readFile (maxLen : Nat) (content : Option (List UInt8)) : Option (List UInt8) :=
  content.bind fun bytes => if bytes = [] then none else some (bytes.take maxLen)

def Environment.file (env : Environment) : Device → Option (List UInt8)
  | .mem => none
  | .sysTable => env.sysTable

def memChunk (env : Environment) (base len : Nat) : Device → Option (List UInt8)
  | .mem => (env.memory base len).map Vector.toList
  | .sysTable => env.sysTable.bind fun bytes =>
    if bytes.length < base + len then none else some (slice bytes base len)

/-- `dmi_table`; `noFileOffset` is the one flag there is. -/
def dmiTable (env : Environment) (e : EntryPoint) (device : Device) (noFileOffset : Bool) :
    Option Table :=
  (if noFileOffset then readFile e.size (env.file device)
    else memChunk env e.address e.size device).map (⟨e, ·⟩)

def checksum (p len : Nat) : BufferProgram Bool := do
  let bytes ← load p len
  return bytes.sum = 0

def memcmp (p : Nat) (text : List UInt8) : BufferProgram Bool := do
  let bytes ← load p text.length
  return bytes = text

def sm3Text : List UInt8 := [0x5F, 0x53, 0x4D, 0x33, 0x5F]

def smText : List UInt8 := [0x5F, 0x53, 0x4D, 0x5F]

def dmiText : List UInt8 := [0x5F, 0x44, 0x4D, 0x49, 0x5F]

section Decoders

variable (env : Environment) (p : Nat) (device : Device) (noFileOffset : Bool)

/-- `smbios3_decode` behind its checks. -/
def smbios3Fields : BufferProgram EntryPoint := do
  let major ← read (p + 0x07)
  let minor ← read (p + 0x08)
  let docrev ← read (p + 0x09)
  let size ← dmiGet 4 (p + 0x0C)
  let l ← dmiGet 4 (p + 0x10)
  let h ← dmiGet 4 (p + 0x14)
  return {
    version := (major.toNat <<< 16) + (minor.toNat <<< 8) + docrev.toNat
    size
    address := h <<< 32 ||| l }

def smbios3Decode : BufferProgram (Option Table) := do
  let length ← read (p + 0x06)
  if 0x20 < length then return none
  else do
    let sum ← checksum p length.toNat
    if !sum then return none
    else do
      let e ← smbios3Fields p
      return dmiTable env e device noFileOffset

/-- Versions that some firmware gives wrongly. -/
def correctVersion (version : Nat) : Nat :=
  match version with
  | 0x021F => 0x0203
  | 0x0221 => 0x0203
  | 0x0233 => 0x0206
  | v => v

/-- `smbios_decode` behind its checks. -/
def smbiosFields : BufferProgram EntryPoint := do
  let major ← read (p + 0x06)
  let minor ← read (p + 0x07)
  let size ← dmiGet 2 (p + 0x16)
  let address ← dmiGet 4 (p + 0x18)
  return {
    version := correctVersion ((major.toNat <<< 8) + minor.toNat) <<< 8
    size
    address }

def smbiosDecode : BufferProgram (Option Table) := do
  let length ← read (p + 0x05)
  if 0x20 < length then return none
  else do
    let sum ← checksum p length.toNat
    if !sum then return none
    else do
      let intermediate ← memcmp (p + 0x10) dmiText
      if !intermediate then return none
      else do
        let sum ← checksum (p + 0x10) 0x0F
        if !sum then return none
        else do
          let e ← smbiosFields p
          return dmiTable env e device noFileOffset

/-- `legacy_decode` behind its check. -/
def legacyFields : BufferProgram EntryPoint := do
  let bcd ← read (p + 0x0E)
  let size ← dmiGet 2 (p + 0x06)
  let address ← dmiGet 4 (p + 0x08)
  return {
    version := ((bcd &&& 0xF0).toNat <<< 12) + ((bcd &&& 0x0F).toNat <<< 8)
    size
    address }

def legacyDecode : BufferProgram (Option Table) := do
  let sum ← checksum p 0x0F
  if !sum then return none
  else do
    let e ← legacyFields p
    return dmiTable env e device noFileOffset

/-- The decoder of a format. -/
def Format.decode : Format → BufferProgram (Option Table)
  | .smbios3 => smbios3Decode env p device noFileOffset
  | .smbios => smbiosDecode env p device noFileOffset
  | .legacy => legacyDecode env p device noFileOffset

end Decoders

/-- An anchor in the bytes that were read of a source. -/
structure Anchor where
  source : Source
  format : Format
  buf : List UInt8
  p : Nat

/-- The decoding of an anchor by the decoder of some format. -/
structure Attempt where
  anchor : Anchor
  decoder : Format
  device : Device
  noFileOffset : Bool
  result : Option Table

/-- What a part of `read` has decoded, and the table that it goes on with, if it has one. -/
structure Scan where
  log : List Attempt := []
  found : Option Table := none

section Read

variable (env : Environment)

def attempt (anchor : Anchor) (decoder : Format) (device : Device) (noFileOffset : Bool) :
    Except Fault Scan :=
  (decoder.decode env anchor.p device noFileOffset anchor.buf).map fun r =>
    ⟨[⟨anchor, decoder, device, noFileOffset, r.1⟩], r.1⟩

/-- What comes second is done if there is no table yet. -/
def firstOf (x y : Except Fault Scan) : Except Fault Scan :=
  x.bind fun r =>
    if r.found.isSome then .ok r else y.map fun r' => ⟨r.log ++ r'.log, r'.found⟩

/-- A branch on the text at a place. -/
def onText (buf : List UInt8) (p : Nat) (text : List UInt8) (yes no : Except Fault Scan) :
    Except Fault Scan :=
  (memcmp p text buf).bind fun r => if r.1 then yes else no

def readSysfs (buf : List UInt8) : Except Fault Scan :=
  let legacy :=
    if 15 ≤ buf.length then
      onText buf 0 dmiText (attempt env ⟨.sysfs, .legacy, buf, 0⟩ .legacy .sysTable true) (.ok {})
    else .ok {}
  let smbios :=
    if 31 ≤ buf.length then
      onText buf 0 smText (attempt env ⟨.sysfs, .smbios, buf, 0⟩ .smbios .sysTable true) legacy
    else legacy
  if 24 ≤ buf.length then
    onText buf 0 sm3Text (attempt env ⟨.sysfs, .smbios3, buf, 0⟩ .smbios3 .sysTable true) smbios
  else smbios

def readEfi (buf : List UInt8) : Except Fault Scan :=
  onText buf 0 sm3Text (attempt env ⟨.efi, .smbios3, buf, 0⟩ .smbios3 .mem false)
    (onText buf 0 smText (attempt env ⟨.efi, .smbios, buf, 0⟩ .smbios .sysTable false) (.ok {}))

/-- The first loop over the segment. -/
def scanSmbios3 (buf : List UInt8) : List Nat → Except Fault Scan
  | [] => .ok {}
  | fp :: rest =>
    firstOf
      (onText buf fp sm3Text (attempt env ⟨.segment, .smbios3, buf, fp⟩ .smbios3 .mem false)
        (.ok {}))
      (scanSmbios3 buf rest)

/-- The second one. -/
def scanOthers (buf : List UInt8) : List Nat → Except Fault Scan
  | [] => .ok {}
  | fp :: rest =>
    let legacy :=
      onText buf fp dmiText (attempt env ⟨.segment, .legacy, buf, fp⟩ .legacy .mem false) (.ok {})
    firstOf
      (onText buf fp smText
        (if fp ≤ 0xFFE0 then attempt env ⟨.segment, .smbios, buf, fp⟩ .smbios3 .mem false
          else legacy)
        legacy)
      (scanOthers buf rest)

def readSegment : Except Fault Scan :=
  if env.x86 then
    match memChunk env 0xF0000 0x10000 .mem with
    | none => .ok {}
    | some buf =>
      firstOf (scanSmbios3 env buf ((List.range 0xFFF).map (16 * ·)))
        (scanOthers env buf ((List.range 0x1000).map (16 * ·)))
  else .ok {}

/-- `read` behind the file of the entry point. -/
def readMemory : Except Fault Scan :=
  match env.efi with
  | .noSmbios => .ok {}
  | .notFound => readSegment env
  | .address base =>
    match memChunk env base 0x20 .mem with
    | none => .ok {}
    | some buf => firstOf (readEfi env buf) (readSegment env)

/-- `DmiReader::read` up to `decode`. -/
def read : Except Fault Scan :=
  match readFile 0x20 env.sysEntry with
  | none => readMemory env
  | some buf => firstOf (readSysfs env buf) (readMemory env)

end Read

/-- Where the table lies that goes with an entry point, and how it is read. -/
def Source.table : Source → Device × Bool
  | .sysfs => (.sysTable, true)
  | .efi => (.mem, false)
  | .segment => (.mem, false)

section Formats

variable (buf : List UInt8) (p : Nat)

def Format.text : Format → List UInt8
  | .smbios3 => sm3Text
  | .smbios => smText
  | .legacy => dmiText

/-- How many bytes an entry point has at least. -/
def Format.least : Format → Nat
  | .smbios3 => 24
  | .smbios => 31
  | .legacy => 15

/-- How many bytes its checksum is over. -/
def Format.summed : Format → Nat
  | .smbios3 => (buf.getD (p + 0x06) 0).toNat
  | .smbios => (buf.getD (p + 0x05) 0).toNat
  | .legacy => 0x0F

def Format.Valid (f : Format) : Prop :=
  f.summed buf p ≤ 0x20 ∧ (slice buf p (f.summed buf p)).sum = 0 ∧
    (f = .smbios → slice buf (p + 0x10) 5 = dmiText ∧ (slice buf (p + 0x10) 0x0F).sum = 0)

instance (f : Format) : Decidable (f.Valid buf p) := inferInstanceAs (Decidable (_ ∧ _ ∧ _))

/-- The entry point, at the offsets of its format. -/
def Format.entry : Format → EntryPoint
  | .smbios3 => {
    version := (buf.getD (p + 0x07) 0).toNat <<< 16 + (buf.getD (p + 0x08) 0).toNat <<< 8 +
      (buf.getD (p + 0x09) 0).toNat
    size := CodeBuffer.ofLe (slice buf (p + 0x0C) 4)
    address := CodeBuffer.ofLe (slice buf (p + 0x10) 8) }
  | .smbios => {
    version := correctVersion ((buf.getD (p + 0x06) 0).toNat <<< 8 +
      (buf.getD (p + 0x07) 0).toNat) <<< 8
    size := CodeBuffer.ofLe (slice buf (p + 0x16) 2)
    address := CodeBuffer.ofLe (slice buf (p + 0x18) 4) }
  | .legacy => {
    version := (buf.getD (p + 0x0E) 0 &&& 0xF0).toNat <<< 12 +
      (buf.getD (p + 0x0E) 0 &&& 0x0F).toNat <<< 8
    size := CodeBuffer.ofLe (slice buf (p + 0x06) 2)
    address := CodeBuffer.ofLe (slice buf (p + 0x08) 4) }

/-- The table that a decoder makes of a valid entry point. -/
def Format.table (env : Environment) (device : Device) (noFileOffset : Bool) (f : Format) :
    Option Table :=
  if f.Valid buf p then dmiTable env (f.entry buf p) device noFileOffset else none

/-- The text of the format is there, with room for the least entry point. -/
def Found (f : Format) : Prop :=
  p + f.least ≤ buf.length ∧ slice buf p f.text.length = f.text

instance (f : Format) : Decidable (Found buf p f) := inferInstanceAs (Decidable (_ ∧ _))

/-- The checksum is over bytes that were read, if it is made at all. -/
def Format.SumInside (f : Format) : Prop :=
  f.summed buf p ≤ 0x20 → p + f.summed buf p ≤ buf.length

end Formats

section Decoding

variable {env : Environment} {device : Device} {noFileOffset : Bool} {s : List UInt8} {p n : Nat}
  {text : List UInt8}

theorem exactly_load_any (p n : Nat) (s : List UInt8) :
    Exactly (load p n) s (p + n ≤ s.length) fun bytes t => bytes = slice s p n ∧ t = s := by
  refine ⟨fun h => ⟨_, _, if_pos h, rfl, rfl⟩, fun ⟨r, hr⟩ => ?_⟩
  unfold load at hr
  split at hr
  · assumption
  · exact nomatch hr

theorem exactly_checksum (p n : Nat) (s : List UInt8) : Exactly (checksum p n) s (p + n ≤ s.length)
    fun ok t => (ok = true ↔ (slice s p n).sum = 0) ∧ t = s := by
  refine (exactly_load_any p n s).last ?_
  rintro bytes t ⟨rfl, rfl⟩
  exact exactly_pure ⟨decide_eq_true_iff, rfl⟩

theorem exactly_memcmp (h : p + text.length ≤ s.length) : Exactly (memcmp p text) s True
    fun ok t => (ok = true ↔ slice s p text.length = text) ∧ t = s := by
  refine (exactly_load h).next ?_
  rintro bytes t ⟨rfl, rfl⟩
  exact exactly_pure ⟨decide_eq_true_iff, rfl⟩

theorem exactly_byte (h : p < s.length) :
    Exactly (BufferProgram.read p) s True fun b t => b = s.getD p 0 ∧ t = s := by
  refine (exactly_read h).mono ?_
  rintro b t ⟨rfl, rfl⟩
  exact ⟨by rw [List.getD_eq_getElem?_getD, List.getElem?_eq_getElem h, Option.getD_some], rfl⟩

/-- A number of eight bytes and its halves. -/
theorem ofLe_halves (h : p + 8 ≤ s.length) :
    CodeBuffer.ofLe (slice s (p + 4) 4) <<< 32 ||| CodeBuffer.ofLe (slice s p 4) =
      CodeBuffer.ofLe (slice s p 8) := by
  have hsplit : slice s p 8 = slice s p 4 ++ slice s (p + 4) 4 := by
    rw [slice, slice, slice, ← List.drop_drop]
    exact @List.take_add _ _ 4 4
  have hlength : (slice s p 4).length = 4 := length_slice (by omega)
  have hlt := CodeBuffer.ofLe_lt (slice s p 4)
  rw [hlength] at hlt
  rw [hsplit, CodeBuffer.ofLe_append, hlength, ← Nat.shiftLeft_add_eq_or_of_lt hlt, Nat.shiftLeft_eq]
  ring

theorem exactly_smbios3Fields (h : p + 24 ≤ s.length) :
    Exactly (smbios3Fields p) s True fun e t => e = Format.smbios3.entry s p ∧ t = s := by
  refine (exactly_byte (by omega)).next ?_
  rintro major t ⟨rfl, rfl⟩
  refine (exactly_byte (by omega)).next ?_
  rintro minor t ⟨rfl, rfl⟩
  refine (exactly_byte (by omega)).next ?_
  rintro docrev t ⟨rfl, rfl⟩
  refine (exactly_dmiGet (by omega)).next ?_
  rintro size t ⟨rfl, rfl⟩
  refine (exactly_dmiGet (by omega)).next ?_
  rintro l t ⟨rfl, rfl⟩
  refine (exactly_dmiGet (by omega)).next ?_
  rintro high t ⟨rfl, rfl⟩
  refine exactly_pure ⟨?_, rfl⟩
  rw [Format.entry, ← ofLe_halves (by omega)]

theorem exactly_smbiosFields (h : p + 31 ≤ s.length) :
    Exactly (smbiosFields p) s True fun e t => e = Format.smbios.entry s p ∧ t = s := by
  refine (exactly_byte (by omega)).next ?_
  rintro major t ⟨rfl, rfl⟩
  refine (exactly_byte (by omega)).next ?_
  rintro minor t ⟨rfl, rfl⟩
  refine (exactly_dmiGet (by omega)).next ?_
  rintro size t ⟨rfl, rfl⟩
  refine (exactly_dmiGet (by omega)).next ?_
  rintro address t ⟨rfl, rfl⟩
  exact exactly_pure ⟨rfl, rfl⟩

theorem exactly_legacyFields (h : p + 15 ≤ s.length) :
    Exactly (legacyFields p) s True fun e t => e = Format.legacy.entry s p ∧ t = s := by
  refine (exactly_byte (by omega)).next ?_
  rintro bcd t ⟨rfl, rfl⟩
  refine (exactly_dmiGet (by omega)).next ?_
  rintro size t ⟨rfl, rfl⟩
  refine (exactly_dmiGet (by omega)).next ?_
  rintro address t ⟨rfl, rfl⟩
  exact exactly_pure ⟨rfl, rfl⟩

theorem table_eq_none {f : Format} (h : ¬ f.Valid s p) :
    f.table s p env device noFileOffset = none := if_neg h

theorem table_eq {f : Format} (h : f.Valid s p) : f.table s p env device noFileOffset =
    dmiTable env (f.entry s p) device noFileOffset := if_pos h

/-- A checksum that is made after the length is found small enough. -/
theorem sumInside_iff {f : Format} (h : f.summed s p ≤ 0x20) :
    p + f.summed s p ≤ s.length ↔ f.SumInside s p :=
  ⟨fun hle _ => hle, fun hinside => hinside h⟩

theorem le_of_not_lt_byte {c : UInt8} (h : ¬ 0x20 < c) : c.toNat ≤ 0x20 :=
  Nat.le_of_not_lt fun hlt => h (UInt8.lt_iff_toNat_lt.mpr hlt)

/-- A check that every valid entry point passes. -/
theorem exactly_check {f : Format} {x : BufferProgram (Option Table)} {c : Prop} {ok : Bool}
    (hok : ok = true ↔ c) (hvalid : f.Valid s p → c)
    (hx : c → Exactly x s True fun r t => r = f.table s p env device noFileOffset ∧ t = s) :
    Exactly (if !ok then return none else x) s True
      fun r t => r = f.table s p env device noFileOffset ∧ t = s := by
  refine exactly_ite (fun hbad => ?_) fun hgood => hx (hok.mp (by simpa using hgood))
  have hnot : ¬ f.Valid s p := fun h => by
    rw [hok.mpr (hvalid h)] at hbad
    exact nomatch hbad
  exact exactly_pure ⟨(table_eq_none hnot).symm, rfl⟩

/-- The fields of an entry point that has passed the checks. -/
theorem exactly_fields {f : Format} {x : BufferProgram EntryPoint} (hvalid : f.Valid s p)
    (hx : Exactly x s True fun e t => e = f.entry s p ∧ t = s) :
    Exactly (do let e ← x; return dmiTable env e device noFileOffset) s True
      fun r t => r = f.table s p env device noFileOffset ∧ t = s := by
  refine hx.next ?_
  rintro e t ⟨rfl, rfl⟩
  exact exactly_pure ⟨(table_eq hvalid).symm, rfl⟩

/-- The two checks that the longer formats begin with. -/
theorem exactly_length {f : Format} {length : UInt8} {x : Bool → BufferProgram (Option Table)}
    (hlength : length.toNat = f.summed s p)
    (hx : ∀ ok, (ok = true ↔ (slice s p (f.summed s p)).sum = 0) → f.summed s p ≤ 0x20 →
      Exactly (x ok) s True fun r t => r = f.table s p env device noFileOffset ∧ t = s) :
    Exactly (if 0x20 < length then return none else do
      let ok ← checksum p length.toNat
      x ok) s (f.SumInside s p)
      fun r t => r = f.table s p env device noFileOffset ∧ t = s := by
  refine exactly_ite (fun hlong => ?_) fun hshort => ?_
  · have hlong := UInt8.lt_iff_toNat_lt.mp hlong
    have hnot : ¬ f.summed s p ≤ 0x20 := hlength ▸ Nat.not_le_of_lt hlong
    exact exactly_return (fun hle => absurd hle hnot)
      ⟨(table_eq_none fun hvalid => hnot hvalid.1).symm, rfl⟩
  · have hsummed : f.summed s p ≤ 0x20 := hlength ▸ le_of_not_lt_byte hshort
    rw [hlength]
    refine ((exactly_checksum _ _ _).last ?_).imp (sumInside_iff hsummed) fun _ _ => id
    rintro ok t ⟨hok, rfl⟩
    exact hx ok hok hsummed

theorem exactly_smbios3Decode (h : p + 24 ≤ s.length) :
    Exactly (smbios3Decode env p device noFileOffset) s (Format.smbios3.SumInside s p)
      fun r t => r = Format.smbios3.table s p env device noFileOffset ∧ t = s := by
  refine (exactly_byte (by omega)).next ?_
  rintro length t ⟨rfl, rfl⟩
  refine exactly_length rfl fun ok hok hsummed => ?_
  refine exactly_check hok (fun hvalid => hvalid.2.1) fun hsum => ?_
  exact exactly_fields ⟨hsummed, hsum, nofun⟩ (exactly_smbios3Fields h)

theorem exactly_smbiosDecode (h : p + 31 ≤ s.length) :
    Exactly (smbiosDecode env p device noFileOffset) s (Format.smbios.SumInside s p)
      fun r t => r = Format.smbios.table s p env device noFileOffset ∧ t = s := by
  refine (exactly_byte (by omega)).next ?_
  rintro length t ⟨rfl, rfl⟩
  refine exactly_length rfl fun ok hok hsummed => ?_
  refine exactly_check hok (fun hvalid => hvalid.2.1) fun hsum => ?_
  refine (exactly_memcmp (by change _ + 5 ≤ _; omega)).next ?_
  rintro intermediate u ⟨hinter, rfl⟩
  refine exactly_check hinter (fun hvalid => (hvalid.2.2 rfl).1) fun hsame => ?_
  refine ((exactly_checksum _ _ _).imp (iff_true_intro (by omega)) fun _ _ => id).next ?_
  rintro ok' t ⟨hok', rfl⟩
  refine exactly_check hok' (fun hvalid => (hvalid.2.2 rfl).2) fun hsum' => ?_
  exact exactly_fields ⟨hsummed, hsum, fun _ => ⟨hsame, hsum'⟩⟩ (exactly_smbiosFields h)

theorem exactly_legacyDecode (h : p + 15 ≤ s.length) :
    Exactly (legacyDecode env p device noFileOffset) s (Format.legacy.SumInside s p)
      fun r t => r = Format.legacy.table s p env device noFileOffset ∧ t = s := by
  have hsummed : (0x0F : Nat) ≤ 0x20 := by decide
  refine ((exactly_checksum _ _ _).last ?_).imp (@sumInside_iff s p .legacy hsummed) fun _ _ => id
  rintro ok t ⟨hok, rfl⟩
  refine exactly_check hok (fun hvalid => hvalid.2.1) fun hsum => ?_
  exact exactly_fields ⟨hsummed, hsum, nofun⟩ (exactly_legacyFields h)

/-- A decoder on an entry point with room for its format. -/
theorem exactly_decode {f : Format} (h : p + f.least ≤ s.length) :
    Exactly (f.decode env p device noFileOffset) s (f.SumInside s p)
      fun r t => r = f.table s p env device noFileOffset ∧ t = s := by
  cases f with
  | smbios3 => exact exactly_smbios3Decode h
  | smbios => exact exactly_smbiosDecode h
  | legacy => exact exactly_legacyDecode h

end Decoding

section Anchors

/-- The table that an anchor leads to, by its own format and from its own source. -/
def Anchor.table (env : Environment) (a : Anchor) : Option Table :=
  a.format.table a.buf a.p env a.source.table.1 a.source.table.2

def Attempt.Right (env : Environment) (a : Attempt) : Prop :=
  a.decoder = a.anchor.format ∧ (a.device, a.noFileOffset) = a.anchor.source.table ∧
    a.result = a.anchor.table env

/-- The first of some formats whose text stands at a place. -/
def anchorsAt (source : Source) (buf : List UInt8) (formats : List Format) (p : Nat) :
    List Anchor :=
  ((formats.find? fun f => decide (Found buf p f)).map fun f => ⟨source, f, buf, p⟩).toList

def segmentAnchors (env : Environment) : List Anchor :=
  if env.x86 then
    match memChunk env 0xF0000 0x10000 .mem with
    | none => []
    | some buf =>
      ((List.range 0xFFF).map (16 * ·)).flatMap (anchorsAt .segment buf [.smbios3]) ++
        ((List.range 0x1000).map (16 * ·)).flatMap (anchorsAt .segment buf [.smbios, .legacy])
  else []

def memoryAnchors (env : Environment) : List Anchor :=
  match env.efi with
  | .noSmbios => []
  | .notFound => segmentAnchors env
  | .address base =>
    match memChunk env base 0x20 .mem with
    | none => []
    | some buf => anchorsAt .efi buf [.smbios3, .smbios] 0 ++ segmentAnchors env

/-- The anchors of a machine, in the order in which they are looked for. -/
def anchors (env : Environment) : List Anchor :=
  match readFile 0x20 env.sysEntry with
  | none => memoryAnchors env
  | some buf => anchorsAt .sysfs buf [.smbios3, .smbios, .legacy] 0 ++ memoryAnchors env

variable (env : Environment)

/-- The anchors up to the first that leads to a table. -/
def reached : List Anchor → List Anchor
  | [] => []
  | a :: rest => a :: if (a.table env).isSome then [] else reached rest

def firstTable (as : List Anchor) : Option Table := as.findSome? (Anchor.table env)

/-- An anchor whose decoding is the right one and stays inside: the bytes of the entry point file
hold what the checksum is over, and elsewhere it is not of the 32-bit format. -/
def Anchor.Sound (a : Anchor) : Prop :=
  (a.source = .sysfs → a.format.SumInside a.buf a.p) ∧ (a.source ≠ .sysfs → a.format ≠ .smbios)

/-- A part of `read` does what it should do with some anchors, exactly if those that it comes to
are sound. -/
structure Reads (x : Except Fault Scan) (as : List Anchor) : Prop where
  right : (∀ a ∈ reached env as, a.Sound) → ∃ r, x = .ok r ∧
    r.log.map Attempt.anchor = reached env as ∧ (∀ a ∈ r.log, a.Right env) ∧
    r.found = firstTable env as
  wrong : ∀ r, x = .ok r → (∀ a ∈ r.log, a.Right env) → ∀ a ∈ reached env as, a.Sound

variable {env} {x y : Except Fault Scan} {as bs : List Anchor}

theorem firstTable_append (as bs : List Anchor) : firstTable env (as ++ bs) =
    (firstTable env as).or (firstTable env bs) := List.findSome?_append

theorem reached_append (as bs : List Anchor) : reached env (as ++ bs) =
    reached env as ++ if (firstTable env as).isSome then [] else reached env bs := by
  induction as with
  | nil => rfl
  | cons a as ih =>
    rw [List.cons_append, reached, reached, firstTable, List.findSome?_cons]
    cases ha : a.table env with
    | some t => rfl
    | none =>
      change a :: reached env (as ++ bs) = _
      rw [ih]
      rfl

theorem reads_nothing : Reads env (.ok {}) [] where
  right _ := ⟨{}, rfl, rfl, nofun, rfl⟩
  wrong _ _ _ := nofun

theorem Reads.firstOf (hx : Reads env x as) (hy : Reads env y bs) :
    Reads env (firstOf x y) (as ++ bs) := by
  have hfirst : ∀ r, x = .ok r → (∀ a ∈ r.log, a.Right env) → r.found = firstTable env as := by
    intro r hr hright
    obtain ⟨r', hr', -, -, hfound⟩ := hx.right (hx.wrong r hr hright)
    rw [Except.ok.inj (hr.symm.trans hr'), hfound]
  constructor
  · intro hsound
    rw [reached_append] at hsound
    obtain ⟨r, rfl, hlog, hright, hfound⟩ := hx.right fun a ha =>
      hsound a (List.mem_append_left _ ha)
    rw [reached_append, firstTable_append]
    by_cases hsome : (firstTable env as).isSome
    · obtain ⟨t, ht⟩ := Option.isSome_iff_exists.mp hsome
      refine ⟨r, ?_, ?_, hright, ?_⟩
      · change (if r.found.isSome then _ else _) = _
        rw [hfound, if_pos hsome]
      · rw [if_pos hsome, List.append_nil, hlog]
      · rw [hfound, ht, Option.some_or]
    · rw [if_neg hsome] at hsound ⊢
      obtain ⟨r', rfl, hlog', hright', hfound'⟩ := hy.right fun a ha =>
        hsound a (List.mem_append_right _ ha)
      refine ⟨⟨r.log ++ r'.log, r'.found⟩, ?_, ?_, ?_, ?_⟩
      · change (if r.found.isSome then _ else _) = _
        rw [hfound, if_neg hsome]
        rfl
      · rw [List.map_append, hlog, hlog']
      · exact fun a ha => (List.mem_append.mp ha).elim (hright a) (hright' a)
      · rw [hfound', Option.not_isSome_iff_eq_none.mp hsome, Option.none_or]
  · intro r hr hright a ha
    rw [reached_append] at ha
    cases hx' : x with
    | error e =>
      rw [hx'] at hr
      exact nomatch hr
    | ok rx =>
      rw [hx'] at hr
      by_cases hsome : rx.found.isSome
      · have hrx : rx = r := Except.ok.inj ((if_pos hsome).symm.trans hr)
        subst hrx
        rw [← hfirst rx hx' hright, if_pos hsome, List.append_nil] at ha
        exact hx.wrong rx hx' hright a ha
      · change (if rx.found.isSome then _ else _) = _ at hr
        rw [if_neg hsome] at hr
        cases hy' : y with
        | error e =>
          rw [hy'] at hr
          exact nomatch hr
        | ok ry =>
          rw [hy'] at hr
          obtain rfl := Except.ok.inj hr
          have hrightx : ∀ a ∈ rx.log, a.Right env := fun a ha =>
            hright a (List.mem_append_left _ ha)
          rw [← hfirst rx hx' hrightx, if_neg hsome] at ha
          rcases List.mem_append.mp ha with ha | ha
          · exact hx.wrong rx hx' hrightx a ha
          · exact hy.wrong ry hy' (fun a ha => hright a (List.mem_append_right _ ha)) a ha

theorem log_attempt {a : Anchor} {decoder : Format} {device : Device} {noFileOffset : Bool}
    {r : Scan} (hr : attempt env a decoder device noFileOffset = .ok r) :
    r.log = [⟨a, decoder, device, noFileOffset, r.found⟩] := by
  rw [attempt] at hr
  cases hdecode : decoder.decode env a.p device noFileOffset a.buf with
  | error e =>
    rw [hdecode] at hr
    exact nomatch hr
  | ok d =>
    rw [hdecode] at hr
    obtain rfl := Except.ok.inj hr
    rfl

/-- The decoding of an anchor by its own decoder. -/
theorem reads_attempt {a : Anchor} (hroom : a.p + a.format.least ≤ a.buf.length)
    (hmemory : a.source ≠ .sysfs → a.format ≠ .smbios ∧ a.format.SumInside a.buf a.p) :
    Reads env (attempt env a a.format a.source.table.1 a.source.table.2) [a] := by
  have hdecode := @exactly_decode env a.source.table.1 a.source.table.2 a.buf a.p a.format hroom
  have hreached : reached env [a] = [a] := by
    rw [reached, reached, ite_self]
  have hfirst : firstTable env [a] = a.table env := by
    rw [firstTable, List.findSome?_cons]
    cases a.table env <;> rfl
  have hsound : a.Sound ↔ a.format.SumInside a.buf a.p := by
    constructor
    · intro hs
      by_cases hsysfs : a.source = .sysfs
      · exact hs.1 hsysfs
      · exact (hmemory hsysfs).2
    · exact fun hinside => ⟨fun _ => hinside, fun hsysfs => (hmemory hsysfs).1⟩
  constructor
  · intro h
    rw [hreached] at h
    obtain ⟨_, _, heq, rfl, rfl⟩ := hdecode.ends (hsound.mp (h a List.mem_cons_self))
    refine ⟨⟨[⟨a, a.format, a.source.table.1, a.source.table.2, a.table env⟩], a.table env⟩, ?_,
      hreached.symm, ?_, hfirst.symm⟩
    · rw [attempt, heq]
      rfl
    · intro b hb
      obtain rfl := List.mem_singleton.mp hb
      exact ⟨rfl, rfl, rfl⟩
  · intro r hr _ b hb
    rw [hreached] at hb
    obtain rfl := List.mem_singleton.mp hb
    refine hsound.mpr (hdecode.needs ?_)
    rw [attempt] at hr
    cases hd : b.format.decode env b.p b.source.table.1 b.source.table.2 b.buf with
    | error e =>
      rw [hd] at hr
      exact nomatch hr
    | ok d => exact ⟨d, hd⟩

/-- The decoding of an anchor in a way that is not its own. -/
theorem reads_wrong {a : Anchor} {decoder : Format} {device : Device} {noFileOffset : Bool}
    (hsmbios : a.source ≠ .sysfs ∧ a.format = .smbios)
    (hwrong : decoder ≠ a.format ∨ (device, noFileOffset) ≠ a.source.table) :
    Reads env (attempt env a decoder device noFileOffset) [a] := by
  have hunsound : ¬ a.Sound := fun h => h.2 hsmbios.1 hsmbios.2
  constructor
  · exact fun h => absurd (h a List.mem_cons_self) hunsound
  · intro r hr hright
    obtain ⟨hdecoder, hdevice, -⟩ := hright _ (log_attempt hr ▸ List.mem_singleton_self _)
    exact absurd hwrong (not_or.mpr ⟨not_not.mpr hdecoder, not_not.mpr hdevice⟩)

variable {buf text : List UInt8} {p : Nat} {source : Source} {f : Format} {fs : List Format}

theorem reads_onText (hroom : p + text.length ≤ buf.length)
    (hyes : slice buf p text.length = text → Reads env x as)
    (hno : slice buf p text.length ≠ text → Reads env y as) :
    Reads env (onText buf p text x y) as := by
  obtain ⟨ok, _, heq, hok, rfl⟩ := (exactly_memcmp hroom).ends trivial
  rw [onText, heq]
  change Reads env (if ok then x else y) as
  split
  case isTrue h => exact hyes (hok.mp h)
  case isFalse h => exact hno (mt hok.mpr h)

theorem anchorsAt_found (h : Found buf p f) :
    anchorsAt source buf (f :: fs) p = [⟨source, f, buf, p⟩] := by
  rw [anchorsAt, List.find?_cons, decide_eq_true h]
  rfl

theorem anchorsAt_missing (h : ¬ Found buf p f) :
    anchorsAt source buf (f :: fs) p = anchorsAt source buf fs p := by
  rw [anchorsAt, List.find?_cons, decide_eq_false h]
  rfl

theorem text_le_least (f : Format) : f.text.length ≤ f.least := by cases f <;> decide

/-- One of the formats that are tried at a place. -/
theorem reads_format (hroom : p + f.least ≤ buf.length)
    (hyes : Reads env x [⟨source, f, buf, p⟩]) (hno : Reads env y (anchorsAt source buf fs p)) :
    Reads env (onText buf p f.text x y) (anchorsAt source buf (f :: fs) p) := by
  have hle := text_le_least f
  refine reads_onText (by omega) (fun htext => ?_) fun htext => ?_
  · rwa [anchorsAt_found ⟨hroom, htext⟩]
  · rwa [anchorsAt_missing fun h => htext h.2]

theorem reads_guarded (hyes : f.least ≤ buf.length → Reads env x [⟨source, f, buf, 0⟩])
    (hno : Reads env y (anchorsAt source buf fs 0)) :
    Reads env (if f.least ≤ buf.length then onText buf 0 f.text x y else y)
      (anchorsAt source buf (f :: fs) 0) := by
  split
  case isTrue h => exact reads_format (by omega) (hyes h) hno
  case isFalse h => rwa [anchorsAt_missing fun hfound => h (by have := hfound.1; omega)]

theorem reads_sysfs (buf : List UInt8) :
    Reads env (readSysfs env buf) (anchorsAt .sysfs buf [.smbios3, .smbios, .legacy] 0) := by
  have hattempt : ∀ f : Format, f.least ≤ buf.length →
      Reads env (attempt env ⟨.sysfs, f, buf, 0⟩ f .sysTable true) [⟨.sysfs, f, buf, 0⟩] := by
    intro f hf
    exact @reads_attempt env ⟨.sysfs, f, buf, 0⟩ (by dsimp only; omega) fun h => absurd rfl h
  exact reads_guarded (hattempt .smbios3)
    (reads_guarded (hattempt .smbios) (reads_guarded (hattempt .legacy) reads_nothing))

/-- In the memory there is room for the longest checksum. -/
theorem reads_memory (hsource : source ≠ .sysfs) (hsmbios : f ≠ .smbios)
    (hroom : p + f.least ≤ buf.length) (hlong : f = .legacy ∨ p + 0x20 ≤ buf.length) :
    Reads env (attempt env ⟨source, f, buf, p⟩ f .mem false) [⟨source, f, buf, p⟩] := by
  have hinside : f.SumInside buf p := by
    intro hle
    rcases hlong with rfl | hlong
    · exact hroom
    · omega
  cases source with
  | sysfs => exact absurd rfl hsource
  | efi => exact @reads_attempt env ⟨.efi, f, buf, p⟩ hroom fun _ => ⟨hsmbios, hinside⟩
  | segment => exact @reads_attempt env ⟨.segment, f, buf, p⟩ hroom fun _ => ⟨hsmbios, hinside⟩

theorem reads_efi (hlength : buf.length = 0x20) :
    Reads env (readEfi env buf) (anchorsAt .efi buf [.smbios3, .smbios] 0) := by
  have hroom : ∀ f : Format, 0 + f.least ≤ buf.length := by
    intro f
    cases f <;> rw [hlength] <;> decide
  refine reads_format (hroom .smbios3) ?_ (reads_format (hroom .smbios) ?_ reads_nothing)
  · exact reads_memory nofun nofun (hroom .smbios3) (.inr (by omega))
  · exact reads_wrong ⟨nofun, rfl⟩ (.inr nofun)

/-- A loop over places in the segment. -/
theorem reads_scan {scan : List Nat → Except Fault Scan} {here : Nat → Except Fault Scan}
    (hnil : scan [] = .ok {}) (hcons : ∀ p ps, scan (p :: ps) = firstOf (here p) (scan ps))
    {ps : List Nat} (hps : ∀ p ∈ ps, Reads env (here p) (anchorsAt .segment buf fs p)) :
    Reads env (scan ps) (ps.flatMap (anchorsAt .segment buf fs)) := by
  induction ps with
  | nil =>
    rw [hnil]
    exact reads_nothing
  | cons p ps ih =>
    rw [hcons, List.flatMap_cons]
    exact (hps p List.mem_cons_self).firstOf (ih fun q hq => hps q (List.mem_cons_of_mem _ hq))

theorem reads_segment : Reads env (readSegment env) (segmentAnchors env) := by
  rw [readSegment, segmentAnchors]
  split
  case isFalse => exact reads_nothing
  case isTrue =>
    cases hchunk : memChunk env 0xF0000 0x10000 .mem with
    | none => exact reads_nothing
    | some buf =>
      have hlength : buf.length = 0x10000 := by
        obtain ⟨v, -, rfl⟩ := Option.map_eq_some_iff.mp hchunk
        exact v.size_toArray
      refine Reads.firstOf ?_ ?_
      · refine reads_scan rfl (fun _ _ => rfl) fun p hp => ?_
        obtain ⟨k, hk, rfl⟩ := List.mem_map.mp hp
        have hk := List.mem_range.mp hk
        have hroom : 16 * k + Format.smbios3.least ≤ buf.length := by
          change 16 * k + 24 ≤ _
          omega
        exact reads_format hroom (reads_memory nofun nofun hroom (.inr (by omega))) reads_nothing
      · refine reads_scan rfl (fun _ _ => rfl) fun p hp => ?_
        obtain ⟨k, hk, rfl⟩ := List.mem_map.mp hp
        have hk := List.mem_range.mp hk
        have hroom : 16 * k + Format.legacy.least ≤ buf.length := by
          change 16 * k + 15 ≤ _
          omega
        have hlegacy : Reads env (onText buf (16 * k) dmiText
            (attempt env ⟨.segment, .legacy, buf, 16 * k⟩ .legacy .mem false) (.ok {}))
            (anchorsAt .segment buf [.legacy] (16 * k)) :=
          reads_format hroom (reads_memory nofun nofun hroom (.inl rfl)) reads_nothing
        refine reads_onText (by change 16 * k + 4 ≤ _; omega) (fun htext => ?_) fun htext => ?_
        · split
          case isTrue hle =>
            have hfound : Found buf (16 * k) .smbios := ⟨by change 16 * k + 31 ≤ _; omega, htext⟩
            rw [anchorsAt_found hfound]
            exact reads_wrong ⟨nofun, rfl⟩ (.inl nofun)
          case isFalse hle =>
            rwa [anchorsAt_missing fun h => hle (by have : 16 * k + 31 ≤ _ := h.1; omega)]
        · rwa [anchorsAt_missing fun h => htext h.2]

theorem reads_readMemory : Reads env (readMemory env) (memoryAnchors env) := by
  rw [readMemory, memoryAnchors]
  cases env.efi with
  | noSmbios => exact reads_nothing
  | notFound => exact reads_segment
  | address base =>
    dsimp only
    cases hchunk : memChunk env base 0x20 .mem with
    | none => exact reads_nothing
    | some buf =>
      have hlength : buf.length = 0x20 := by
        obtain ⟨v, -, rfl⟩ := Option.map_eq_some_iff.mp hchunk
        exact v.size_toArray
      exact (reads_efi hlength).firstOf reads_segment

theorem reads_read : Reads env (read env) (anchors env) := by
  rw [read, anchors]
  cases readFile 0x20 env.sysEntry with
  | none => exact reads_readMemory
  | some buf => exact (reads_sysfs buf).firstOf reads_readMemory

/-- Every anchor that `read` comes to is decoded by the decoder of its format, with the table of
its source, and every access stays inside the bytes that were read. -/
def ReadsWell (env : Environment) : Prop :=
  ∃ r, read env = .ok r ∧ r.log.map Attempt.anchor = reached env (anchors env) ∧
    (∀ a ∈ r.log, a.Right env) ∧ r.found = firstTable env (anchors env)

theorem readsWell_iff (env : Environment) :
    ReadsWell env ↔ ∀ a ∈ reached env (anchors env), a.Sound :=
  ⟨fun ⟨r, hr, _, hright, _⟩ => reads_read.wrong r hr hright, reads_read.right⟩

/-- A machine with a 32-bit entry point at the EFI address. -/
def efiMachine : Environment where
  sysEntry := none
  sysTable := none
  efi := .address 0xF0000
  memory _ _ := some (Vector.ofFn fun i => [
    0x5F, 0x53, 0x4D, 0x5F, 0x79, 0x1F, 0x02, 0x08, 0x00, 0x00, 0x00, 0x00, 0x00, 0x00, 0x00, 0x00,
    0x5F, 0x44, 0x4D, 0x49, 0x5F, 0x2D, 0x04, 0x00, 0x00, 0x00, 0x0E, 0x00, 0x01, 0x00, 0x28,
    0x00].getD i.val 0)
  x86 := false

/-- It is valid, but its table is looked for in the file. -/
theorem not_readsWell : (∃ r, read efiMachine = .ok r ∧ r.found = none) ∧
    (firstTable efiMachine (anchors efiMachine)).isSome ∧ ¬ ReadsWell efiMachine := by
  have hread : ∃ r, read efiMachine = .ok r ∧ r.found = none := ⟨_, rfl, rfl⟩
  have htable : (firstTable efiMachine (anchors efiMachine)).isSome := rfl
  refine ⟨hread, htable, fun ⟨r, hr, _, _, hfound⟩ => ?_⟩
  obtain ⟨r', hr', hnone⟩ := hread
  rw [← hfound, Except.ok.inj (hr.symm.trans hr'), hnone] at htable
  exact nomatch htable

end Anchors

end VeloxHash.DmiEntryPoint
