import VeloxHash.DmiTools

/-! `DmiBoard` and `DmiMemory`: what the decoders of the structures of types 1, 2 and 17 read. -/

namespace VeloxHash.DmiTools

open BufferProgram Splice

/-- A `String`, which can be null. -/
abbrev Text := Option (List UInt8)

structure DmiBoard where
  product : Text := none
  vendor : Text := none
  deriving DecidableEq, Repr

structure DmiMemory where
  bank : Text := none
  id : Text := none
  product : Text := none
  slot : Text := none
  vendor : Text := none
  totalWidth : Nat := 0
  voltage : Nat := 0
  width : Nat := 0
  size : Nat := 0
  speed : Nat := 0
  formFactor : UInt8 := 0
  rank : UInt8 := 0
  type : UInt8 := 0
  deriving DecidableEq, Repr

/-- `DmiBoard::decode`. -/
def DmiBoard.decode (b : DmiBoard) (h : DmiHeader) : BufferProgram DmiBoard :=
  if h.length < 0x08 then return b
  else do
    let vendor ← dmiStringCopied h 0x04
    let product ← dmiStringCopied h 0x05
    return ⟨product, vendor⟩

section Identifier

def ascii (text : String) : List UInt8 := text.toList.map fun c => .ofNat c.toNat

def isDigit (c : UInt8) : Bool := 48 ≤ c && c ≤ 57

def isUpper (c : UInt8) : Bool := 65 ≤ c && c ≤ 90

def upper (c : UInt8) : UInt8 := if 97 ≤ c && c ≤ 122 then c - 32 else c

/-- `\d+$`. -/
def digits (s : List UInt8) : Text := if s ≠ [] ∧ s.all isDigit then some s else none

/-- `^Channel([A-Z])[-_]DIMM(\d+)$`, in either case. -/
def matchChannelSlot (slot : List UInt8) : Option (UInt8 × List UInt8) :=
  match slot.drop 7 with
  | letter :: separator :: rest =>
    if (slot.take 7).map upper = ascii "CHANNEL" ∧ isUpper (upper letter) ∧
        (separator = 45 ∨ separator = 95) ∧ (rest.take 4).map upper = ascii "DIMM" then
      (digits (rest.drop 4)).map fun number => (letter, number)
    else none
  | _ => none

/-- `CHANNEL ([A-Z])$`, anywhere. -/
def searchChannel (bank : List UInt8) : Option UInt8 :=
  match bank.reverse with
  | letter :: front =>
    if isUpper letter ∧ (front.take 8).reverse = ascii "CHANNEL " then some letter else none
  | [] => none

/-- `^DIMM (\d+)$`. -/
def matchDimm (slot : List UInt8) : Text :=
  if slot.take 5 = ascii "DIMM " then digits (slot.drop 5) else none

/-- `kIdFormat`. -/
def formatId (letter : UInt8) (number : List UInt8) : List UInt8 := ascii "DIMM_" ++ letter :: number

def identify (slot bank : List UInt8) : Text :=
  match matchChannelSlot slot with
  | some (letter, number) => some (formatId letter number)
  | none =>
    match searchChannel bank with
    | some letter => (matchDimm slot).map (formatId letter)
    | none => none

end Identifier

namespace DmiMemory

/-- `setId`. -/
def setId (m : DmiMemory) (slot bank : Option Nat) : BufferProgram DmiMemory := do
  let slot ← copied slot
  let bank ← copied bank
  return { m with
    slot
    bank
    id := slot.bind fun slot => bank.bind (identify slot) }

def deviceWidth (code : Nat) : Nat := if code = 0xFFFF ∨ code = 0 then 0 else code

def deviceSpeed (code1 code2 : Nat) : Nat := if code1 = 0xFFFF then code2 else code1

/-- A size that is not extended. -/
def shortSize (size : Nat) : Nat :=
  if size ≠ 0 then 1024 * (size % 2 ^ 15) * (if 2 ^ 15 ≤ size then 1 else 1024) else 0

def extendedSize (extended : Nat) : Nat := extended % 2 ^ 31 * 1024 * 1024

/-- `m_size`. -/
def readSize (h : DmiHeader) : BufferProgram Nat := do
  let size ← dmiGet 2 (h.data + 0x0C)
  if 0x20 ≤ h.length.toNat ∧ size = 0x7FFF then do
    let extended ← dmiGet 4 (h.data + 0x1C)
    return extendedSize extended
  else return shortSize size

/-- A `DWORD` of structures that are long enough to have it. -/
def longField (h : DmiHeader) (length offset : Nat) : BufferProgram Nat :=
  if length ≤ h.length.toNat then dmiGet 4 (h.data + offset) else return 0

/-- The constructor behind `m_rank`. -/
def decodeConfigured (m : DmiMemory) (h : DmiHeader) : BufferProgram DmiMemory :=
  if h.length < 0x22 then return m
  else do
    let code1 ← dmiGet 2 (h.data + 0x20)
    let code2 ← longField h 0x5C 0x58
    let configured := deviceSpeed code1 code2 * 1000000
    let m := { m with speed := if configured ≠ 0 then configured else m.speed }
    if h.length < 0x28 then return m
    else do
      let voltage ← dmiGet 2 (h.data + 0x26)
      return { m with voltage }

/-- The constructor behind `m_speed`. -/
def decodeMaker (m : DmiMemory) (h : DmiHeader) : BufferProgram DmiMemory :=
  if h.length < 0x1B then return m
  else do
    let vendor ← dmiStringCopied h 0x17
    let product ← dmiStringCopied h 0x1A
    let m := { m with vendor, product }
    if h.length < 0x1C then return m
    else do
      let rank ← read (h.data + 0x1B)
      decodeConfigured { m with rank := rank &&& 0x0F } h

/-- The constructor of a device from a structure. -/
def decode (h : DmiHeader) : BufferProgram DmiMemory :=
  if h.length < 0x15 then return {}
  else do
    let totalWidth ← dmiGet 2 (h.data + 0x08)
    let width ← dmiGet 2 (h.data + 0x0A)
    let size ← readSize h
    let slot ← dmiString h 0x10
    let bank ← dmiString h 0x11
    let m ← setId {
      totalWidth := deviceWidth totalWidth
      width := deviceWidth width
      size } slot bank
    let formFactor ← read (h.data + 0x0E)
    let type ← read (h.data + 0x12)
    let m := { m with formFactor, type }
    if m.size = 0 ∨ h.length < 0x17 then return m
    else do
      let code1 ← dmiGet 2 (h.data + 0x15)
      let code2 ← longField h 0x5C 0x54
      decodeMaker { m with speed := deviceSpeed code1 code2 * 1000000 } h

end DmiMemory

section Kept

/-- The NULs of two areas are in the same places. -/
def SameNuls (a b : List UInt8) : Prop := a.map (· == 0) = b.map (· == 0)

variable {a b s t u : List UInt8} {q n : Nat}

theorem SameNuls.drop (h : SameNuls a b) (k : Nat) : SameNuls (a.drop k) (b.drop k) := by
  unfold SameNuls
  rw [List.map_drop, List.map_drop, h]

theorem SameNuls.cons {c d : UInt8} (h : SameNuls (c :: a) (d :: b)) :
    (c = 0 ↔ d = 0) ∧ SameNuls a b := by
  obtain ⟨hhead, htail⟩ := List.cons.inj h
  exact ⟨by simpa using hhead, htail⟩

theorem lengthOf_congr (h : SameNuls a b) : lengthOf a = lengthOf b := by
  induction a generalizing b with
  | nil =>
    obtain rfl := List.map_eq_nil_iff.mp h.symm
    rfl
  | cons c a ih =>
    obtain _ | ⟨d, b⟩ := b
    · exact nomatch List.map_eq_nil_iff.mp h
    · obtain ⟨hiff, htail⟩ := h.cons
      rw [lengthOf_cons, lengthOf_cons, ih htail]
      simp only [hiff]

theorem gap_congr (h : SameNuls a b) : gap a = gap b := by
  induction a generalizing b with
  | nil =>
    obtain rfl := List.map_eq_nil_iff.mp h.symm
    rfl
  | cons c a ih =>
    obtain _ | ⟨d, b⟩ := b
    · exact nomatch List.map_eq_nil_iff.mp h
    · obtain ⟨hiff, htail⟩ := h.cons
      obtain _ | ⟨c', a⟩ := a
      · obtain rfl := List.map_eq_nil_iff.mp htail.symm
        rfl
      · obtain _ | ⟨d', b⟩ := b
        · exact nomatch List.map_eq_nil_iff.mp htail
        · rw [gap_cons, gap_cons, ih htail]
          simp only [hiff, htail.cons.1]

theorem locate_here_congr (h : SameNuls a b) (hn : n ≤ 1) : locate n a = locate n b := by
  obtain _ | ⟨c, a⟩ := a
  · obtain rfl := List.map_eq_nil_iff.mp h.symm
    rfl
  obtain _ | ⟨d, b⟩ := b
  · exact nomatch List.map_eq_nil_iff.mp h
  rw [locate_here hn, locate_here hn, lengthOf_congr h]
  simp only [h.cons.1]

theorem locate_congr (h : SameNuls a b) (n : Nat) : locate n a = locate n b := by
  induction n generalizing a b with
  | zero => exact locate_here_congr h (Nat.zero_le 1)
  | succ n ih =>
    cases n with
    | zero => exact locate_here_congr h le_rfl
    | succ n =>
      obtain _ | ⟨c, a⟩ := a
      · obtain rfl := List.map_eq_nil_iff.mp h.symm
        rfl
      obtain _ | ⟨d, b⟩ := b
      · exact nomatch List.map_eq_nil_iff.mp h
      obtain ⟨hiff, htail⟩ := h.cons
      rw [locate_succ, locate_succ, lengthOf_congr h]
      simp only [hiff]
      cases lengthOf (d :: b) with
      | none => rfl
      | some len => simp only [ih (htail.drop len)]

/-- What the lookups in a structure whose strings begin at `q` leave: they only put dots for
characters in front of the closing NULs. -/
structure Kept (q : Nat) (s t : List UInt8) : Prop where
  front : ∀ i < q, t[i]? = s[i]?
  nuls : SameNuls t s
  back : t.drop (q + gap (s.drop q)) = s.drop (q + gap (s.drop q))

theorem Kept.refl (q : Nat) (s : List UInt8) : Kept q s s := ⟨fun _ _ => rfl, rfl, rfl⟩

theorem Kept.gap_eq (h : Kept q s t) : gap (t.drop q) = gap (s.drop q) :=
  gap_congr (h.nuls.drop q)

theorem Kept.trans (hst : Kept q s t) (htu : Kept q t u) : Kept q s u where
  front i hi := (htu.front i hi).trans (hst.front i hi)
  nuls := htu.nuls.trans hst.nuls
  back := by
    have hback := htu.back
    rw [hst.gap_eq] at hback
    exact hback.trans hst.back

theorem Kept.length_eq (h : Kept q s t) : t.length = s.length := by
  have hlength := congrArg List.length h.nuls
  rwa [List.length_map, List.length_map] at hlength

theorem kept_filtered {o len : Nat} (h : locate n (s.drop q) = some (some (o, len))) :
    Kept q s (filtered s (q + o) len) := by
  obtain ⟨hle, hlen⟩ := locate_le_gap h
  obtain ⟨x, rest, hx, hzero, rfl⟩ := lengthOf_eq_some.mp hlen
  rw [List.drop_drop] at hx
  have houtside (i : Nat) (hi : ¬ (q + o ≤ i ∧ i < q + o + x.length)) :
      (filtered s (q + o) x.length)[i]? = s[i]? := by
    rw [filtered_getElem?]
    cases s[i]? with
    | none => rfl
    | some c => exact congrArg some (if_neg hi)
  constructor
  · exact fun i hi => houtside i (by omega)
  · apply List.ext_getElem?
    intro i
    rw [List.getElem?_map, List.getElem?_map]
    by_cases hi : q + o ≤ i ∧ i < q + o + x.length
    · have hget : s[i]? = x[i - (q + o)]? := by
        have hdrop : (s.drop (q + o))[i - (q + o)]? = s[q + o + (i - (q + o))]? := List.getElem?_drop
        rw [hx, Nat.add_sub_cancel' hi.1, List.getElem?_append_left (by omega)] at hdrop
        exact hdrop.symm
      have hne : x[i - (q + o)] ≠ 0 := fun h => hzero (h ▸ List.getElem_mem (by omega))
      rw [filtered_getElem?, hget, List.getElem?_eq_getElem (by omega), Option.map_some,
        Option.map_some, Option.map_some, if_pos hi]
      simp [dotted_ne_zero, hne]
    · rw [houtside i hi]
  · apply List.ext_getElem?
    intro i
    rw [List.getElem?_drop, List.getElem?_drop]
    exact houtside _ (by omega)

theorem kept_afterLookup {found : Option (Nat × Nat)} (h : locate n (s.drop q) = some found) :
    Kept q s (afterLookup s q found) := by
  cases found with
  | none => exact Kept.refl q s
  | some found => exact kept_filtered h

end Kept

section Reads

open DmiMemory (extendedSize shortSize)

/-- A lookup by the number at an offset comes to an end within the buffer. -/
def LookupEnds (s : List UInt8) (h : DmiHeader) (offset : Nat) : Prop :=
  ∃ found, locate (s.getD (h.data + offset) 0).toNat (s.drop (h.data + h.length.toNat)) = some found

/-- `m_size` of the device in a structure. -/
def memorySize (s : List UInt8) (h : DmiHeader) : Nat :=
  let size := CodeBuffer.ofLe (slice s (h.data + 0x0C) 2)
  if 0x20 ≤ h.length.toNat ∧ size = 0x7FFF then
    extendedSize (CodeBuffer.ofLe (slice s (h.data + 0x1C) 4))
  else shortSize size

variable {s t : List UInt8} {h : DmiHeader} {p n offset : Nat}

theorem le_toNat {l n : UInt8} (h : ¬ l < n) : n.toNat ≤ l.toNat :=
  UInt8.le_iff_toNat_le.mp (UInt8.not_lt.mp h)

theorem exactly_dmiGet (h : p + n ≤ s.length) : Exactly (dmiGet n p) s True
    fun v t => v = CodeBuffer.ofLe (slice s p n) ∧ t = s := by
  refine (exactly_load h).next ?_
  rintro bytes t ⟨rfl, rfl⟩
  exact exactly_pure ⟨rfl, rfl⟩

theorem exactly_longField {length : Nat} (hfield : offset + 4 ≤ length)
    (hinside : h.data + h.length.toNat ≤ s.length) :
    Exactly (DmiMemory.longField h length offset) s True fun _ t => t = s := by
  refine exactly_ite (fun hlong => ?_) fun _ => exactly_pure rfl
  exact (exactly_dmiGet (by omega)).mono fun _ _ hr => hr.2

theorem exactly_readSize (hlong : 0x15 ≤ h.length.toNat)
    (hinside : h.data + h.length.toNat ≤ s.length) :
    Exactly (DmiMemory.readSize h) s True fun size t => size = memorySize s h ∧ t = s := by
  refine (exactly_dmiGet (by omega)).next ?_
  rintro size t ⟨hsize, rfl⟩
  unfold memorySize
  rw [← hsize]
  refine exactly_ite (fun hext => (exactly_dmiGet (by omega)).next ?_) fun hshort => ?_
  · rintro extended t ⟨rfl, rfl⟩
    exact exactly_pure ⟨(if_pos hext).symm, rfl⟩
  · exact exactly_pure ⟨(if_neg hshort).symm, rfl⟩

/-- A lookup among others, by a number in the formatted area. -/
theorem exactly_lookup (hkept : Kept (h.data + h.length.toNat) s t)
    (hinside : h.data + h.length.toNat ≤ s.length) (ho : 4 ≤ offset)
    (hlt : offset < h.length.toNat) :
    Exactly (dmiString h offset) t (LookupEnds s h offset) fun r u =>
      Kept (h.data + h.length.toNat) s u ∧
        ∀ bp, r = some bp → ∃ len, lengthOf (s.drop bp) = some len := by
  have hn : t[h.data + offset]? = some (s.getD (h.data + offset) 0) := by
    rw [hkept.front _ (by omega), List.getD_eq_getElem?_getD, List.getElem?_eq_getElem (by omega),
      Option.getD_some]
  have hnuls := hkept.nuls.drop (h.data + h.length.toNat)
  refine (exactly_dmiString ho hn).imp (by rw [locate_congr hnuls]; rfl) ?_
  rintro r u ⟨found, hfound, rfl, rfl⟩
  refine ⟨hkept.trans (kept_afterLookup hfound), fun bp hbp => ?_⟩
  obtain ⟨f, rfl, rfl⟩ := Option.map_eq_some_iff.mp hbp
  rw [locate_congr hnuls] at hfound
  have hlen := (locate_le_gap hfound).2
  rw [List.drop_drop] at hlen
  exact ⟨_, hlen⟩

theorem exactly_copiedKept {q : Nat} {r : Option Nat} (hkept : Kept q s t)
    (hr : ∀ bp, r = some bp → ∃ len, lengthOf (s.drop bp) = some len) :
    Exactly (copied r) t True fun _ u => u = t := by
  refine (exactly_copied fun bp hbp => ?_).mono fun _ _ hu => hu.1
  rw [lengthOf_congr (hkept.nuls.drop bp)]
  exact hr bp hbp

theorem exactly_lookupCopied (hkept : Kept (h.data + h.length.toNat) s t)
    (hinside : h.data + h.length.toNat ≤ s.length) (ho : 4 ≤ offset)
    (hlt : offset < h.length.toNat) :
    Exactly (dmiStringCopied h offset) t (LookupEnds s h offset) fun _ u =>
      Kept (h.data + h.length.toNat) s u := by
  refine (exactly_lookup hkept hinside ho hlt).last ?_
  rintro r u ⟨hu, hr⟩
  refine (exactly_copiedKept hu hr).mono ?_
  rintro _ _ rfl
  exact hu

end Reads

section Decoders

variable {s t : List UInt8} {h : DmiHeader}

theorem exactly_board (b : DmiBoard) (hinside : h.data + h.length.toNat ≤ s.length) :
    Exactly (b.decode h) s (h.length < 0x08 ∨ LookupEnds s h 0x04 ∧ LookupEnds s h 0x05)
      fun _ t => Kept (h.data + h.length.toNat) s t := by
  refine exactly_ite (fun hshort => ?_) fun hlong => ?_
  · exact exactly_return (.inl hshort) (Kept.refl _ s)
  · have hL : 0x08 ≤ h.length.toNat := le_toNat hlong
    refine ((exactly_lookupCopied (Kept.refl _ s) hinside (by decide) (by omega)).bind
      (Q := LookupEnds s h 0x05) fun vendor t ht => ?_).imp
      ⟨.inr, fun hor => hor.resolve_left hlong⟩ fun _ _ => id
    exact (exactly_lookupCopied ht hinside (by decide) (by omega)).last fun product u hu =>
      exactly_pure hu

theorem exactly_configured (m : DmiMemory) (hkept : Kept (h.data + h.length.toNat) s t)
    (hinside : h.data + h.length.toNat ≤ s.length) :
    Exactly (m.decodeConfigured h) t True fun _ u => Kept (h.data + h.length.toNat) s u := by
  rw [← hkept.length_eq] at hinside
  refine exactly_ite (fun _ => exactly_pure hkept) fun hlong => ?_
  have hL : 0x22 ≤ h.length.toNat := le_toNat hlong
  refine (exactly_dmiGet (by omega)).next ?_
  rintro code1 t ⟨-, rfl⟩
  refine (exactly_longField (by decide) hinside).next ?_
  rintro code2 t rfl
  refine exactly_ite (fun _ => exactly_pure hkept) fun hlong => ?_
  have hL : 0x28 ≤ h.length.toNat := le_toNat hlong
  refine (exactly_dmiGet (by omega)).next ?_
  rintro voltage t ⟨-, rfl⟩
  exact exactly_pure hkept

theorem exactly_maker (m : DmiMemory) (hkept : Kept (h.data + h.length.toNat) s t)
    (hinside : h.data + h.length.toNat ≤ s.length) :
    Exactly (m.decodeMaker h) t (h.length < 0x1B ∨ LookupEnds s h 0x17 ∧ LookupEnds s h 0x1A)
      fun _ u => Kept (h.data + h.length.toNat) s u := by
  refine exactly_ite (fun hshort => ?_) fun hlong => ?_
  · exact exactly_return (.inl hshort) hkept
  have hL : 0x1B ≤ h.length.toNat := le_toNat hlong
  refine ((exactly_lookupCopied hkept hinside (by decide) (by omega)).bind
    (Q := LookupEnds s h 0x1A) fun vendor t ht => ?_).imp
    ⟨.inr, fun hor => hor.resolve_left hlong⟩ fun _ _ => id
  refine (exactly_lookupCopied ht hinside (by decide) (by omega)).last fun product u hu => ?_
  refine exactly_ite (fun _ => exactly_pure hu) fun hlong => ?_
  have hL : 0x1C ≤ h.length.toNat := le_toNat hlong
  have hlength := hu.length_eq
  refine (exactly_read (by omega)).next ?_
  rintro rank u ⟨-, rfl⟩
  exact exactly_configured _ hu hinside

theorem exactly_setId {q : Nat} {m : DmiMemory} {slot bank : Option Nat} (hkept : Kept q s t)
    (hslot : ∀ bp, slot = some bp → ∃ len, lengthOf (s.drop bp) = some len)
    (hbank : ∀ bp, bank = some bp → ∃ len, lengthOf (s.drop bp) = some len) :
    Exactly (m.setId slot bank) t True fun m' u => m'.size = m.size ∧ u = t := by
  refine (exactly_copiedKept hkept hslot).next ?_
  rintro slot u rfl
  refine (exactly_copiedKept hkept hbank).next ?_
  rintro bank u rfl
  exact exactly_pure ⟨rfl, rfl⟩

theorem exactly_memory (hinside : h.data + h.length.toNat ≤ s.length) :
    Exactly (DmiMemory.decode h) s
      (h.length < 0x15 ∨ (LookupEnds s h 0x10 ∧ LookupEnds s h 0x11) ∧
        ((memorySize s h = 0 ∨ h.length < 0x1B) ∨ LookupEnds s h 0x17 ∧ LookupEnds s h 0x1A))
      fun _ t => Kept (h.data + h.length.toNat) s t := by
  refine exactly_ite (fun hshort => ?_) fun hlong => ?_
  · exact exactly_return (.inl hshort) (Kept.refl _ s)
  have hL : 0x15 ≤ h.length.toNat := le_toNat hlong
  refine (exactly_dmiGet (by omega)).next ?_
  rintro totalWidth s ⟨-, rfl⟩
  refine (exactly_dmiGet (by omega)).next ?_
  rintro width s ⟨-, rfl⟩
  refine (exactly_readSize hL hinside).next ?_
  rintro size s ⟨rfl, rfl⟩
  refine ((exactly_lookup (Kept.refl _ s) hinside (by decide) (by omega)).bind
    (Q := LookupEnds s h 0x11 ∧ ((memorySize s h = 0 ∨ h.length < 0x1B) ∨
      LookupEnds s h 0x17 ∧ LookupEnds s h 0x1A)) ?_).imp
    ⟨fun hP => .inr (and_assoc.mpr hP), fun hor => and_assoc.mp (hor.resolve_left hlong)⟩
    fun _ _ => id
  rintro slot t ⟨ht, hslot⟩
  refine (exactly_lookup ht hinside (by decide) (by omega)).bind ?_
  rintro bank u ⟨hu, hbank⟩
  have hlength := hu.length_eq
  refine (exactly_setId hu hslot hbank).next ?_
  rintro m u ⟨hsize, rfl⟩
  refine (exactly_read (by omega)).next ?_
  rintro formFactor u ⟨-, rfl⟩
  refine (exactly_read (by omega)).next ?_
  rintro type u ⟨-, rfl⟩
  dsimp only
  rw [hsize]
  refine exactly_ite (fun hdone => exactly_return (.inl ?_) hu) fun hmore => ?_
  · exact hdone.imp_right fun hshort => UInt8.lt_trans hshort (by decide)
  obtain ⟨hne, hlong⟩ := not_or.mp hmore
  have hL : 0x17 ≤ h.length.toNat := le_toNat hlong
  refine (exactly_dmiGet (by omega)).next ?_
  rintro code1 u ⟨-, rfl⟩
  refine (exactly_longField (by decide) (by omega)).next ?_
  rintro code2 u rfl
  refine (exactly_maker _ hu hinside).imp ?_ fun _ _ => id
  exact or_congr_left (or_iff_right hne).symm

end Decoders

end VeloxHash.DmiTools
