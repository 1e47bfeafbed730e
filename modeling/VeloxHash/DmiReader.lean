import VeloxHash.DmiDecoders

/-! `DmiReader::decode` over a table of `m_size` bytes. `apple` is the build with
`XMRIG_OS_APPLE`, which skips pairs of NULs where the others skip two bytes. -/

namespace VeloxHash.DmiTools

open BufferProgram Splice

structure DmiReader where
  board : DmiBoard := {}
  system : DmiBoard := {}
  memory : List DmiMemory := []
  deriving DecidableEq, Repr

namespace DmiReader

variable (apple : Bool) (size : Nat)

/-- The scan for two NULs from `next` on. -/
def skipStrings : (turns next : Nat) → BufferProgram Nat
  | 0, _ => fail .unfinished
  | turns + 1, next =>
    if (next + 1) % 2 ^ 32 < size then do
      let a ← read next
      if a ≠ 0 then skipStrings turns (next + 1)
      else do
        let b ← read (next + 1)
        if b ≠ 0 then skipStrings turns (next + 1) else return next
    else return next

/-- The loop of the Apple build. -/
def skipNuls : (turns next : Nat) → BufferProgram Nat
  | 0, _ => fail .unfinished
  | turns + 1, next =>
    if next + 1 < size then do
      let a ← read next
      if a = 0 then do
        let b ← read (next + 1)
        if b = 0 then skipNuls turns (next + 2) else return next
      else return next
    else return next

/-- `next += 2`, in the Apple build the body of a loop. -/
def skipEnd (steps next : Nat) : BufferProgram Nat :=
  if apple then skipNuls size steps next else return next + 2

/-- The decoders that `decode` chooses from. -/
def decodeStructure (r : DmiReader) (h : DmiHeader) : BufferProgram DmiReader :=
  if h.type = 1 then do
    let system ← r.system.decode h
    return { r with system }
  else if h.type = 2 then do
    let board ← r.board.decode h
    return { r with board }
  else if h.type = 17 then do
    let device ← DmiMemory.decode h
    return { r with memory := r.memory ++ [device] }
  else return r

/-- The loop of `decode` with `turns` turns left, each of its inner loops taking at most
`steps`. -/
def decodeLoop (steps : Nat) : (turns : Nat) → DmiReader → (data : Nat) → BufferProgram DmiReader
  | 0, _, _ => fail .unfinished
  | turns + 1, r, data =>
    if data + 4 ≤ size then do
      let h ← dmiGetHeader data
      if h.length < 4 ∨ h.type = 127 then return r
      else do
        let next ← skipStrings size steps (data + h.length.toNat)
        let next ← skipEnd apple size steps next
        if size < next % 2 ^ 32 then return r
        else do
          let r ← r.decodeStructure h
          decodeLoop steps turns r next
    else return r

/-- `DmiReader::decode` on a buffer of `m_size` bytes. -/
def decode (turns : Nat) (r : DmiReader) : BufferProgram DmiReader :=
  decodeLoop apple size turns turns r 0

end DmiReader

section Structures

/-- The NULs in pairs that an area begins with. -/
def pairs : List UInt8 → Nat
  | a :: b :: rest => if a = 0 ∧ b = 0 then pairs rest + 2 else 0
  | _ => 0

/-- The first two fields of a structure. -/
def typeOf (t : List UInt8) : UInt8 := t.getD 0 0

def lengthByte (t : List UInt8) : UInt8 := t.getD 1 0

/-- What lies behind the formatted area. -/
def stringsOf (t : List UInt8) : List UInt8 := t.drop (lengthByte t).toNat

/-- Where the next structure begins. -/
def following (apple : Bool) (t : List UInt8) : Nat :=
  let strings := stringsOf t
  (lengthByte t).toNat + gap strings + if apple then pairs (strings.drop (gap strings)) else 2

/-- A table goes on with a structure that is decoded. -/
def Begins (apple : Bool) (t : List UInt8) : Prop :=
  4 ≤ t.length ∧ ¬ (lengthByte t < 4 ∨ typeOf t = 127) ∧ following apple t ≤ t.length

instance (apple : Bool) (t : List UInt8) : Decidable (Begins apple t) :=
  inferInstanceAs (Decidable (_ ∧ _ ∧ _))

theorem Begins.length_lt {apple : Bool} {t : List UInt8} (h : Begins apple t) :
    (t.drop (following apple t)).length < t.length := by
  obtain ⟨hfour, hlength, -⟩ := h
  have hlong : 4 ≤ (lengthByte t).toNat := le_toNat (not_or.mp hlength).1
  have hfollowing : (lengthByte t).toNat ≤ following apple t :=
    (Nat.le_add_right _ _).trans (Nat.le_add_right _ _)
  rw [List.length_drop]
  omega

/-- The structures that are decoded, each with all that follows it. -/
def structures (apple : Bool) (t : List UInt8) : List (List UInt8) :=
  if h : Begins apple t then
    have := h.length_lt
    t :: structures apple (t.drop (following apple t))
  else []
termination_by t.length
decreasing_by exact this

/-- The offsets whose numbers are looked up, one decoder after the other. -/
def lookedUp (t : List UInt8) : List Nat :=
  if typeOf t = 1 ∨ typeOf t = 2 then
    if lengthByte t < 0x08 then [] else [0x04, 0x05]
  else if typeOf t = 17 then
    if lengthByte t < 0x15 then []
    else if memorySize t ⟨typeOf t, lengthByte t, 0, 0⟩ = 0 ∨ lengthByte t < 0x1B then [0x10, 0x11]
    else [0x10, 0x11, 0x17, 0x1A]
  else []

end Structures

section Scans

variable {s : List UInt8} {size turns next : Nat}

theorem pairs_cons (a b : UInt8) (rest : List UInt8) :
    pairs (a :: b :: rest) = if a = 0 ∧ b = 0 then pairs rest + 2 else 0 := rfl

theorem drop_short (h : ¬ next + 1 < s.length) :
    gap (s.drop next) = 0 ∧ pairs (s.drop next) = 0 := by
  have hlength := List.length_drop (i := next) (l := s)
  match hdrop : s.drop next with
  | [] | [_] => exact ⟨rfl, rfl⟩
  | _ :: _ :: _ =>
    rw [hdrop, List.length_cons, List.length_cons] at hlength
    omega

theorem drop_pair (h : next + 1 < s.length) :
    s.drop next = s[next] :: s[next + 1] :: s.drop (next + 2) := by
  rw [List.drop_eq_getElem_cons (by omega), List.drop_eq_getElem_cons h]

theorem exactly_skipStrings (hsize : s.length = size) (hlt : size < 2 ^ 31)
    (hnext : next ≤ size + 255) (hturns : size - next < turns) :
    Exactly (DmiReader.skipStrings size turns next) s True
      fun r t => r = next + gap (s.drop next) ∧ t = s := by
  induction turns generalizing next with
  | zero => exact absurd hturns (Nat.not_lt_zero _)
  | succ turns ih =>
    have hmod : (next + 1) % 2 ^ 32 = next + 1 := Nat.mod_eq_of_lt (by omega)
    refine exactly_ite (fun hmore => ?_) fun hend => ?_
    · rw [hmod, ← hsize] at hmore
      have hdrop := drop_pair hmore
      have hstep : s[next] ≠ 0 ∨ s[next + 1] ≠ 0 →
          Exactly (DmiReader.skipStrings size turns (next + 1)) s True
            fun r t => r = next + gap (s.drop next) ∧ t = s := by
        intro hne
        refine (ih (by omega) (by omega)).mono fun r t hr => ⟨hr.1.trans ?_, hr.2⟩
        rw [hdrop, gap_cons, if_neg (by tauto), ← List.drop_eq_getElem_cons hmore]
        omega
      refine (exactly_read (by omega)).next ?_
      rintro a t ⟨rfl, rfl⟩
      refine exactly_ite (fun ha => hstep (.inl ha)) fun ha => (exactly_read hmore).next ?_
      rintro b t ⟨rfl, rfl⟩
      refine exactly_ite (fun hb => hstep (.inr hb)) fun hb => exactly_pure ⟨?_, rfl⟩
      rw [hdrop, gap_cons, if_pos ⟨not_not.mp ha, not_not.mp hb⟩]
      rfl
    · rw [hmod, ← hsize] at hend
      exact exactly_pure ⟨by rw [(drop_short hend).1]; rfl, rfl⟩

theorem exactly_skipNuls (hsize : s.length = size) (hturns : size - next < turns) :
    Exactly (DmiReader.skipNuls size turns next) s True
      fun r t => r = next + pairs (s.drop next) ∧ t = s := by
  induction turns generalizing next with
  | zero => exact absurd hturns (Nat.not_lt_zero _)
  | succ turns ih =>
    refine exactly_ite (fun hmore => ?_) fun hend => ?_
    · rw [← hsize] at hmore
      have hdrop := drop_pair hmore
      refine (exactly_read (by omega)).next ?_
      rintro a t ⟨rfl, rfl⟩
      refine exactly_ite (fun ha => (exactly_read hmore).next ?_) fun ha => exactly_pure ⟨?_, rfl⟩
      · rintro b t ⟨rfl, rfl⟩
        refine exactly_ite (fun hb => ?_) fun hb => exactly_pure ⟨?_, rfl⟩
        · refine (ih (by omega)).mono fun r t hr => ⟨hr.1.trans ?_, hr.2⟩
          rw [hdrop, pairs_cons, if_pos ⟨ha, hb⟩]
          omega
        · rw [hdrop, pairs_cons, if_neg fun h => hb h.2]
          rfl
      · rw [hdrop, pairs_cons, if_neg fun h => ha h.1]
        rfl
    · rw [← hsize] at hend
      exact exactly_pure ⟨by rw [(drop_short hend).2]; rfl, rfl⟩

end Scans

section Runs

variable {apple : Bool} {s t u : List UInt8} {size steps turns data : Nat}

/-- Every lookup in a structure ends within the table. -/
def LookupsEnd (t : List UInt8) : Prop :=
  ∀ o ∈ lookedUp t, ∃ found, locate (t.getD o 0).toNat (stringsOf t) = some found

theorem getD_drop (s : List UInt8) (data i : Nat) :
    (s.drop data).getD i 0 = s.getD (data + i) 0 := by
  rw [List.getD_eq_getElem?_getD, List.getD_eq_getElem?_getD, List.getElem?_drop]

theorem exactly_header (h : data + 4 ≤ s.length) : Exactly (dmiGetHeader data) s True
    fun h t => t = s ∧ h.type = typeOf (s.drop data) ∧ h.length = lengthByte (s.drop data) ∧
      h.data = data := by
  have hget (i : Nat) (hi : i < s.length) : s[i] = s.getD i 0 := by
    rw [List.getD_eq_getElem?_getD, List.getElem?_eq_getElem hi, Option.getD_some]
  refine (exactly_read (by omega)).next ?_
  rintro type t ⟨rfl, rfl⟩
  refine (exactly_read (by omega)).next ?_
  rintro length t ⟨rfl, rfl⟩
  refine (exactly_dmiGet (by omega)).next ?_
  rintro handle t ⟨-, rfl⟩
  refine exactly_pure ⟨rfl, ?_, ?_, rfl⟩
  · rw [typeOf, getD_drop, ← hget _ (by omega)]
    rfl
  · rw [lengthByte, getD_drop, ← hget]

variable {h : DmiHeader}

theorem lookupEnds_iff (hlength : h.length = lengthByte (s.drop h.data)) (o : Nat) :
    LookupEnds s h o ↔ ∃ found, locate ((s.drop h.data).getD o 0).toNat
      (stringsOf (s.drop h.data)) = some found := by
  unfold LookupEnds stringsOf
  rw [getD_drop, List.drop_drop, ← hlength]

theorem memorySize_drop (s : List UInt8) (h : DmiHeader) :
    memorySize (s.drop h.data) ⟨h.type, h.length, 0, 0⟩ = memorySize s h := by
  unfold memorySize slice
  simp only [List.drop_drop, Nat.zero_add]

theorem exactly_structure (r : DmiReader) (htype : h.type = typeOf (s.drop h.data))
    (hlength : h.length = lengthByte (s.drop h.data))
    (hinside : h.data + h.length.toNat ≤ s.length) :
    Exactly (r.decodeStructure h) s (LookupsEnd (s.drop h.data))
      fun _ t => Kept (h.data + h.length.toNat) s t := by
  have hends := lookupEnds_iff hlength
  unfold LookupsEnd lookedUp
  rw [← htype, ← hlength, memorySize_drop]
  simp only [← hends]
  have hboard (b : DmiBoard) : Exactly (b.decode h) s
      (∀ o ∈ (if h.length < 0x08 then [] else [0x04, 0x05]), LookupEnds s h o)
      fun _ t => Kept (h.data + h.length.toNat) s t := by
    refine (exactly_board b hinside).imp ?_ fun _ _ => id
    split
    case isTrue hshort => simp [hshort]
    case isFalse hlong => simp [hlong]
  refine exactly_ite (fun hone => ?_) fun hone => ?_
  · rw [if_pos (.inl hone)]
    exact (hboard _).last fun system t ht => exactly_pure ht
  refine exactly_ite (fun htwo => ?_) fun htwo => ?_
  · rw [if_pos (.inr htwo)]
    exact (hboard _).last fun board t ht => exactly_pure ht
  rw [if_neg (not_or.mpr ⟨hone, htwo⟩)]
  refine exactly_ite (fun hdevice => ?_) fun hother => ?_
  · rw [if_pos hdevice]
    refine ((exactly_memory hinside).imp ?_ fun _ _ => id).last fun device t ht => exactly_pure ht
    by_cases hshort : h.length < 0x15
    · simp [hshort]
    · by_cases hdone : memorySize s h = 0 ∨ h.length < 0x1B
      · rw [if_neg hshort, if_pos hdone]
        simp [hshort, hdone]
      · rw [if_neg hshort, if_neg hdone]
        simp [hshort, hdone, and_assoc]
  · rw [if_neg hother]
    exact exactly_return nofun (Kept.refl _ s)

theorem pairs_le : (area : List UInt8) → pairs area ≤ area.length
  | a :: b :: rest => by
    have hrest := pairs_le rest
    rw [pairs_cons, List.length_cons, List.length_cons]
    split
    · omega
    · exact Nat.zero_le _
  | [] | [_] => Nat.zero_le _

theorem lengthByte_le_following (apple : Bool) (t : List UInt8) :
    (lengthByte t).toNat + gap (stringsOf t) ≤ following apple t := Nat.le_add_right _ _

theorem following_le (apple : Bool) (t : List UInt8) : following apple t ≤ t.length + 257 := by
  have hgap := gap_le (stringsOf t)
  have hpairs := pairs_le ((stringsOf t).drop (gap (stringsOf t)))
  have hlength : (stringsOf t).length = t.length - (lengthByte t).toNat := List.length_drop
  have hbyte := (lengthByte t).toNat_lt
  rw [List.length_drop] at hpairs
  unfold following
  dsimp only
  split <;> omega

theorem structures_cons (h : Begins apple t) :
    structures apple t = t :: structures apple (t.drop (following apple t)) := by
  rw [structures, dif_pos h]

theorem structures_nil (h : ¬ Begins apple t) : structures apple t = [] := by
  rw [structures, dif_neg h]

/-- The loop ends if and only if the lookups of the structures from `data` on do. -/
theorem exactly_decodeLoop (hsize : s.length = size) (hlt : size < 2 ^ 31) (hsteps : size < steps)
    (hturns : size - data < turns) (r : DmiReader) :
    Exactly (DmiReader.decodeLoop apple size steps turns r data) s
      (∀ t ∈ structures apple (s.drop data), LookupsEnd t) fun _ _ => True := by
  induction turns generalizing s data r with
  | zero => exact absurd hturns (Nat.not_lt_zero _)
  | succ turns ih =>
    have hlength : (s.drop data).length = size - data := by rw [List.length_drop, hsize]
    have hstop {t : List UInt8} (h : ¬ Begins apple (s.drop data)) :
        Exactly (pure r : BufferProgram DmiReader) t
          (∀ t ∈ structures apple (s.drop data), LookupsEnd t) fun _ _ => True := by
      rw [structures_nil h]
      exact exactly_return nofun trivial
    refine exactly_ite (fun hmore => ?_) fun hend => hstop fun h => hend ?_
    swap
    · have hfour := h.1
      omega
    refine (exactly_header (by omega)).next ?_
    rintro h s ⟨rfl, htype, hheader, rfl⟩
    refine exactly_ite (fun hdone => hstop fun hb => ?_) fun hgo => ?_
    · rw [htype, hheader] at hdone
      exact hb.2.1 hdone
    have hbyte := h.length.toNat_lt
    refine (exactly_skipStrings hsize hlt (by omega) (by omega)).next ?_
    rintro next s ⟨hnext, rfl⟩
    have hstrings : s.drop (h.data + h.length.toNat) = stringsOf (s.drop h.data) := by
      rw [stringsOf, List.drop_drop, hheader]
    rw [hstrings] at hnext
    have hfollowing : Exactly (DmiReader.skipEnd apple size steps next) s True fun r t =>
        r = h.data + following apple (s.drop h.data) ∧ t = s := by
      have hpairs : s.drop next =
          (stringsOf (s.drop h.data)).drop (gap (stringsOf (s.drop h.data))) := by
        rw [hnext, ← List.drop_drop, hstrings]
      unfold following
      refine exactly_ite (fun happle => ?_) fun happle => exactly_pure ⟨?_, rfl⟩
      · refine (exactly_skipNuls hsize (by omega)).mono fun r t hr => ⟨hr.1.trans ?_, hr.2⟩
        dsimp only
        rw [hpairs, hnext, if_pos happle, hheader]
        omega
      · dsimp only
        rw [hnext, if_neg happle, hheader]
        omega
    refine hfollowing.next ?_
    rintro next s ⟨rfl, rfl⟩
    have hbound := following_le apple (s.drop h.data)
    have hmod : (h.data + following apple (s.drop h.data)) % 2 ^ 32 =
        h.data + following apple (s.drop h.data) := Nat.mod_eq_of_lt (by omega)
    rw [hmod]
    refine exactly_ite (fun hpast => hstop fun hb => ?_) fun hinside => ?_
    · have hle := hb.2.2
      omega
    have hbegins : Begins apple (s.drop h.data) := by
      refine ⟨by omega, ?_, by omega⟩
      rwa [htype, hheader] at hgo
    have hfour : 4 ≤ (lengthByte (s.drop h.data)).toNat := le_toNat (not_or.mp hbegins.2.1).1
    have hle := lengthByte_le_following apple (s.drop h.data)
    rw [structures_cons hbegins]
    refine ((exactly_structure r htype hheader (by rw [hheader]; omega)).bind
      (Q := ∀ t ∈ structures apple ((s.drop h.data).drop (following apple (s.drop h.data))),
        LookupsEnd t) fun r t ht => ?_).imp List.forall_mem_cons.symm fun _ _ => id
    have hrest : t.drop (h.data + following apple (s.drop h.data)) =
        (s.drop h.data).drop (following apple (s.drop h.data)) := by
      have hback := ht.back
      rw [hstrings, hheader] at hback
      have hsum : h.data + following apple (s.drop h.data) =
          h.data + (lengthByte (s.drop h.data)).toNat + gap (stringsOf (s.drop h.data)) +
            (following apple (s.drop h.data) - ((lengthByte (s.drop h.data)).toNat +
              gap (stringsOf (s.drop h.data)))) := by omega
      rw [List.drop_drop, hsum, ← List.drop_drop, hback, List.drop_drop]
    rw [← hrest]
    exact ih (ht.length_eq.trans hsize) (by omega) r

end Runs

section Safety

variable {apple : Bool} {s t area x rest : List UInt8} {n turns : Nat}

/-- An area has no NUL, begins with one, or begins with a string. -/
theorem area_cases (area : List UInt8) : 0 ∉ area ∨ (∃ rest, area = 0 :: rest) ∨
    ∃ x rest, area = x ++ 0 :: rest ∧ 0 ∉ x ∧ x ≠ [] := by
  cases hlen : lengthOf area with
  | none =>
    refine .inl fun hmem => ?_
    obtain ⟨x, rest, rfl, hx⟩ := List.eq_append_cons_of_mem hmem
    rw [lengthOf_append hx] at hlen
    exact nomatch hlen
  | some len =>
    obtain ⟨x, rest, rfl, hx, -⟩ := lengthOf_eq_some.mp hlen
    by_cases hne : x = []
    · exact .inr (.inl ⟨rest, by rw [hne]; rfl⟩)
    · exact .inr (.inr ⟨x, rest, rfl, hx, hne⟩)

theorem locate_of_not_mem (h : 0 ∉ area) (n : Nat) : locate n area = none := by
  cases hlocate : locate n area with
  | none => rfl
  | some found =>
    cases area with
    | nil =>
      rw [locate_nil] at hlocate
      exact nomatch hlocate
    | cons c area =>
      have hc : c ≠ 0 := fun hc => h (hc ▸ List.mem_cons_self)
      cases found with
      | some found =>
        obtain ⟨x, rest, harea, -, -⟩ := string_of_locate hlocate
        exact absurd (harea ▸ List.mem_append_right x List.mem_cons_self) h
      | none =>
        have hlen : lengthOf (c :: area) = none := by
          cases hlen : lengthOf (c :: area) with
          | none => rfl
          | some len =>
            obtain ⟨x, rest, harea, -, -⟩ := lengthOf_eq_some.mp hlen
            exact absurd (harea ▸ List.mem_append_right x List.mem_cons_self) h
        by_cases hn : n ≤ 1
        · rw [locate_here hn, if_neg hc, hlen] at hlocate
          exact nomatch hlocate
        · obtain ⟨m, rfl⟩ : ∃ m, n = m + 2 := ⟨n - 2, by omega⟩
          rw [locate_succ, if_neg hc, hlen] at hlocate
          exact nomatch hlocate

theorem not_mem_iff (h : 0 ∉ area) (n : Nat) : (∃ found, locate n area = some found) ↔
    area.head? = some 0 ∨ max n 1 ≤ area.count 0 := by
  refine iff_of_false (fun ⟨found, hfound⟩ => ?_) (not_or.mpr ⟨fun hhead => ?_, fun hcount => ?_⟩)
  · rw [locate_of_not_mem h] at hfound
    exact nomatch hfound
  · obtain ⟨rest, rfl⟩ := List.head?_eq_some_iff.mp hhead
    exact h List.mem_cons_self
  · rw [List.count_eq_zero.mpr h] at hcount
    omega

theorem count_append (hx : 0 ∉ x) (rest : List UInt8) :
    (x ++ 0 :: rest).count 0 = rest.count 0 + 1 := by
  rw [List.count_append, List.count_eq_zero.mpr hx, List.count_cons_self, Nat.zero_add]

theorem closed_append (hx : 0 ∉ x) (rest : List UInt8) :
    Closed (x ++ 0 :: rest) ↔ rest.head? = some 0 ∨ Closed rest := by
  unfold Closed
  rw [gap_append hx, List.length_append, List.length_cons]
  cases rest with
  | nil => simp [gap]
  | cons d rest =>
    by_cases hd : d = 0
    · rw [hd, gap_cons, if_pos ⟨rfl, rfl⟩, List.length_cons, List.head?_cons]
      exact ⟨fun _ => .inl rfl, fun _ => by omega⟩
    · rw [gap_nul hd, List.head?_cons, Option.some_inj]
      constructor
      · exact fun h => .inr (by omega)
      · exact fun h => by have := h.resolve_left hd; omega

theorem mem_of_closed (h : Closed area) : 0 ∈ area := by
  obtain ⟨len, hlen⟩ := lengthOf_of_closed h
  obtain ⟨x, rest, rfl, -, -⟩ := lengthOf_eq_some.mp hlen
  exact List.mem_append_right x List.mem_cons_self

theorem locate_of_closed (h : Closed area) (n : Nat) : ∃ found, locate n area = some found := by
  induction n generalizing area with
  | zero =>
    obtain hnone | ⟨rest, rfl⟩ | ⟨x, rest, rfl, hx, hne⟩ := area_cases area
    · exact absurd (mem_of_closed h) hnone
    · exact ⟨_, locate_nul 0 rest⟩
    · exact ⟨_, locate_first hx hne rest (Nat.zero_le 1)⟩
  | succ n ih =>
    obtain hnone | ⟨rest, rfl⟩ | ⟨x, rest, rfl, hx, hne⟩ := area_cases area
    · exact absurd (mem_of_closed h) hnone
    · exact ⟨_, locate_nul (n + 1) rest⟩
    cases n with
    | zero => exact ⟨_, locate_first hx hne rest le_rfl⟩
    | succ n =>
      have hrest : ∃ found, locate (n + 1) rest = some found := by
        rcases (closed_append hx rest).mp h with hnul | hclosed
        · obtain ⟨rest, rfl⟩ := List.head?_eq_some_iff.mp hnul
          exact ⟨_, locate_nul (n + 1) rest⟩
        · exact ih hclosed
      obtain ⟨found, hfound⟩ := hrest
      exact ⟨_, by rw [locate_cons hx hne, hfound]; rfl⟩

/-- Without two NULs in a row a lookup needs as many NULs as its number says. -/
theorem locate_of_not_closed (h : ¬ Closed area) : (∃ found, locate n area = some found) ↔
    area.head? = some 0 ∨ max n 1 ≤ area.count 0 := by
  induction n generalizing area with
  | zero =>
    obtain hnone | ⟨rest, rfl⟩ | ⟨x, rest, rfl, hx, hne⟩ := area_cases area
    · exact not_mem_iff hnone 0
    · exact iff_of_true ⟨_, locate_nul 0 rest⟩ (.inl rfl)
    · exact iff_of_true ⟨_, locate_first hx hne rest (Nat.zero_le 1)⟩
        (.inr (by rw [count_append hx]; omega))
  | succ n ih =>
    obtain hnone | ⟨rest, rfl⟩ | ⟨x, rest, rfl, hx, hne⟩ := area_cases area
    · exact not_mem_iff hnone (n + 1)
    · exact iff_of_true ⟨_, locate_nul (n + 1) rest⟩ (.inl rfl)
    cases n with
    | zero =>
      exact iff_of_true ⟨_, locate_first hx hne rest le_rfl⟩
        (.inr (by rw [count_append hx]; omega))
    | succ n =>
      obtain ⟨hnul, hopen⟩ := not_or.mp (mt (closed_append hx rest).mpr h)
      have hrest := ih hopen
      rw [or_iff_right hnul] at hrest
      have hhead : (x ++ 0 :: rest).head? ≠ some 0 := by
        obtain ⟨c, x, rfl⟩ := List.exists_cons_of_ne_nil hne
        exact fun hc => hx (Option.some.inj hc ▸ List.mem_cons_self)
      rw [or_iff_right hhead, locate_cons hx hne, count_append hx]
      constructor
      · rintro ⟨found, hfound⟩
        obtain ⟨found', hfound', -⟩ := Option.map_eq_some_iff.mp hfound
        have hcount := hrest.mp ⟨found', hfound'⟩
        omega
      · intro hcount
        obtain ⟨found, hfound⟩ := hrest.mpr (by omega)
        exact ⟨_, by rw [hfound]; rfl⟩

/-- A structure is closed by two NULs, begins its strings with a NUL, or has as many NULs as the
numbers that are looked up. -/
def StringsInside (t : List UInt8) : Prop :=
  Closed (stringsOf t) ∨ (stringsOf t).head? = some 0 ∨
    ∀ o ∈ lookedUp t, max (t.getD o 0).toNat 1 ≤ (stringsOf t).count 0

theorem lookupsEnd_iff : LookupsEnd t ↔ StringsInside t := by
  unfold LookupsEnd StringsInside
  by_cases hclosed : Closed (stringsOf t)
  · exact ⟨fun _ => .inl hclosed, fun _ o _ => locate_of_closed hclosed _⟩
  · rw [or_iff_right hclosed]
    simp only [locate_of_not_closed hclosed]
    by_cases hnul : (stringsOf t).head? = some 0
    · exact ⟨fun _ => .inl hnul, fun _ o _ => .inl hnul⟩
    · simp only [hnul, false_or]

theorem closed_of_begins (h : Begins false t) : Closed (stringsOf t) := by
  obtain ⟨-, -, hle⟩ := h
  have hlength : (stringsOf t).length = t.length - (lengthByte t).toNat := List.length_drop
  have hfollowing : following false t = (lengthByte t).toNat + gap (stringsOf t) + 2 := rfl
  unfold Closed
  omega

theorem begins_of_mem {u : List UInt8} (h : u ∈ structures apple t) : Begins apple u := by
  induction t using structures.induct apple with
  | case1 t hbegins _ ih =>
    rw [structures_cons hbegins] at h
    rcases List.mem_cons.mp h with rfl | h
    · exact hbegins
    · exact ih h
  | case2 t hstop =>
    rw [structures_nil hstop] at h
    exact nomatch h

/-- `decode` ends within the bounds of every table, except that the Apple build needs its
structures to have the strings that they refer to. -/
theorem decode_inside_iff (apple : Bool) (s : List UInt8) (hsize : s.length < 2 ^ 31)
    (hturns : s.length < turns) (r : DmiReader) :
    Succeeds (DmiReader.decode apple s.length turns r) s ↔
      apple = false ∨ ∀ t ∈ structures apple s, StringsInside t := by
  have hloop : Succeeds (DmiReader.decode apple s.length turns r) s ↔
      ∀ t ∈ structures apple (s.drop 0), LookupsEnd t :=
    (exactly_decodeLoop rfl hsize hturns hturns r).succeeds_iff
  rw [List.drop_zero] at hloop
  refine hloop.trans ?_
  simp only [lookupsEnd_iff]
  refine ⟨.inr, fun h t ht => ?_⟩
  rcases h with rfl | h
  · exact .inl (closed_of_begins (begins_of_mem ht))
  · exact h t ht

/-- Board information whose string is not ended. -/
def unended : List UInt8 := [2, 8, 0, 0, 1, 1, 0, 0, 65]

theorem decode_inside_unended :
    Succeeds (DmiReader.decode true unended.length 10 {}) unended ↔
      true = false ∨ ∀ t ∈ structures true unended, StringsInside t :=
  decode_inside_iff true unended (by decide) (by decide) {}

theorem decode_outside : ¬ ∀ (apple : Bool) (s : List UInt8) (turns : Nat) (r : DmiReader),
    s.length < 2 ^ 31 → s.length < turns →
      Succeeds (DmiReader.decode apple s.length turns r) s := by
  intro h
  obtain ⟨r, hr⟩ := h true unended 10 {} (by decide) (by decide)
  have hfault : DmiReader.decode true unended.length 10 {} unended = .error .outside := by rfl
  exact nomatch hfault.symm.trans hr

end Safety

end VeloxHash.DmiTools
