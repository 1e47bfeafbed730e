import VeloxHash.BufferProgram
import VeloxHash.CodeBuffer

/-! `DmiTools`: the fields of an SMBIOS structure and the strings behind its formatted area,
which a lookup filters in place. -/

namespace VeloxHash.DmiTools

open BufferProgram Splice

structure DmiHeader where
  type : UInt8
  length : UInt8
  handle : UInt16
  data : Nat
  deriving DecidableEq, Repr

/-- `dmi_get` of a number of `n` bytes. -/
def dmiGet (n p : Nat) : BufferProgram Nat := do
  let bytes ← load p n
  return CodeBuffer.ofLe bytes

def dmiGetHeader (data : Nat) : BufferProgram DmiHeader := do
  let type ← read data
  let length ← read (data + 1)
  let handle ← dmiGet 2 (data + 2)
  return ⟨type, length, .ofNat handle, data⟩

/-- The index of the first NUL. -/
def lengthOf : List UInt8 → Option Nat
  | [] => none
  | c :: rest => if c = 0 then some 0 else (lengthOf rest).map (· + 1)

def strlen (bp : Nat) : BufferProgram Nat := fun s =>
  match lengthOf (s.drop bp) with
  | some n => .ok (n, s)
  | none => .error .outside

/-- A `String` from what a lookup returns. -/
def copied : Option Nat → BufferProgram (Option (List UInt8))
  | none => return none
  | some bp => do
    let len ← strlen bp
    let bytes ← load bp len
    return some bytes

/-- Whether a `char` is signed makes no difference here. -/
def isAscii (c : UInt8) : Bool := 32 ≤ c && c < 127

def asciiFilter : (len bp : Nat) → BufferProgram Unit
  | 0, _ => pure ()
  | len + 1, bp => do
    let c ← read bp
    if isAscii c then asciiFilter len (bp + 1)
    else do
      write bp 0x2E
      asciiFilter len (bp + 1)

/-- `_dmi_string` behind its loop. -/
def dmiStringFound (filter : Bool) (bp : Nat) : BufferProgram (Option Nat) := do
  let c ← read bp
  if c = 0 then return none
  else if filter then do
    let len ← strlen bp
    asciiFilter len bp
    return some bp
  else return some bp

/-- The loop of `_dmi_string`. -/
def dmiStringLoop (filter : Bool) : (s bp : Nat) → BufferProgram (Option Nat)
  | s + 2, bp => do
    let c ← read bp
    if c = 0 then dmiStringFound filter bp
    else do
      let len ← strlen bp
      dmiStringLoop filter (s + 1) (bp + len + 1)
  | _, bp => dmiStringFound filter bp

/-- `_dmi_string`. -/
def dmiStringAt (dm : DmiHeader) (s : UInt8) (filter : Bool) : BufferProgram (Option Nat) :=
  dmiStringLoop filter s.toNat (dm.data + dm.length.toNat)

def dmiString (dm : DmiHeader) (offset : Nat) : BufferProgram (Option Nat) :=
  if offset < 4 then return none
  else do
    let s ← read (dm.data + offset)
    dmiStringAt dm s true

/-- A string that was found behind another one, `len` bytes long. -/
def shifted (len : Nat) (found : Nat × Nat) : Nat × Nat := (len + 1 + found.1, found.2)

/-- Where the lookup of the `n`-th string ends in a string area: behind it, at no string, or at
a string with an offset and a length. -/
def locate : Nat → List UInt8 → Option (Option (Nat × Nat))
  | _, [] => none
  | n + 2, c :: rest =>
    if c = 0 then some none
    else match lengthOf (c :: rest) with
      | none => none
      | some len => (locate (n + 1) (rest.drop len)).map (Option.map (shifted len))
  | _, c :: rest =>
    if c = 0 then some none else (lengthOf (c :: rest)).map fun len => some (0, len)

/-- A lookup whose result is kept. -/
def dmiStringCopied (dm : DmiHeader) (offset : Nat) : BufferProgram (Option (List UInt8)) := do
  let bp ← dmiString dm offset
  copied bp

/-- Where the scan behind a structure stops: at two NULs, or at the last byte. -/
def gap : List UInt8 → Nat
  | a :: b :: rest => if a = 0 ∧ b = 0 then 0 else gap (b :: rest) + 1
  | _ => 0

def dotted (c : UInt8) : UInt8 := if isAscii c then c else 0x2E

/-- What the filter leaves of a buffer. -/
def filtered (s : List UInt8) (bp len : Nat) : List UInt8 :=
  s.mapIdx fun i c => if bp ≤ i ∧ i < bp + len then dotted c else c

/-- What a lookup in the area from `q` on leaves of the buffer that it ends in. -/
def afterLookup (s : List UInt8) (q : Nat) : Option (Nat × Nat) → List UInt8
  | none => s
  | some found => filtered s (q + found.1) found.2

section Area

variable {area x rest : List UInt8} {n len o : Nat}

theorem lengthOf_cons (c : UInt8) (rest : List UInt8) :
    lengthOf (c :: rest) = if c = 0 then some 0 else (lengthOf rest).map (· + 1) := rfl

theorem gap_cons (a b : UInt8) (rest : List UInt8) :
    gap (a :: b :: rest) = if a = 0 ∧ b = 0 then 0 else gap (b :: rest) + 1 := rfl

theorem locate_succ (n : Nat) (c : UInt8) (rest : List UInt8) : locate (n + 2) (c :: rest) =
    if c = 0 then some none
    else match lengthOf (c :: rest) with
      | none => none
      | some len => (locate (n + 1) (rest.drop len)).map (Option.map (shifted len)) := rfl

theorem locate_here (hn : n ≤ 1) (c : UInt8) (rest : List UInt8) : locate n (c :: rest) =
    if c = 0 then some none else (lengthOf (c :: rest)).map fun len => some (0, len) := by
  obtain rfl | rfl : n = 0 ∨ n = 1 := by omega
  · rfl
  · rfl

theorem locate_nil (n : Nat) : locate n [] = none := by
  match n with
  | 0 | 1 | _ + 2 => rfl

theorem lengthOf_append (hx : 0 ∉ x) (rest : List UInt8) :
    lengthOf (x ++ 0 :: rest) = some x.length := by
  induction x with
  | nil => rfl
  | cons c x ih =>
    have hc : c ≠ 0 := fun h => hx (h ▸ List.mem_cons_self)
    rw [List.cons_append, lengthOf_cons, if_neg hc, ih fun h => hx (List.mem_cons_of_mem c h)]
    rfl

theorem lengthOf_eq_some : lengthOf area = some len ↔
    ∃ x rest, area = x ++ 0 :: rest ∧ 0 ∉ x ∧ x.length = len := by
  constructor
  · intro h
    induction area generalizing len with
    | nil => exact nomatch h
    | cons c area ih =>
      rw [lengthOf_cons] at h
      split at h
      case isTrue hc => exact ⟨[], area, by rw [hc]; rfl, List.not_mem_nil, Option.some.inj h⟩
      case isFalse hc =>
        obtain ⟨len', hlen', rfl⟩ := Option.map_eq_some_iff.mp h
        obtain ⟨x, rest, rfl, hx, rfl⟩ := ih hlen'
        exact ⟨c :: x, rest, rfl, fun h => (List.mem_cons.mp h).elim (fun h0 => hc h0.symm) hx, rfl⟩
  · rintro ⟨x, rest, rfl, hx, rfl⟩
    exact lengthOf_append hx rest

theorem gap_append (hx : 0 ∉ x) (rest : List UInt8) :
    gap (x ++ 0 :: rest) = x.length + gap (0 :: rest) := by
  induction x with
  | nil => exact (Nat.zero_add _).symm
  | cons c x ih =>
    have hc : c ≠ 0 := fun h => hx (h ▸ List.mem_cons_self)
    have hnext := ih fun h => hx (List.mem_cons_of_mem c h)
    cases x with
    | nil =>
      rw [List.cons_append, List.nil_append, gap_cons, if_neg fun h => hc h.1, List.length_singleton]
      omega
    | cons d x =>
      rw [List.cons_append, List.cons_append, gap_cons, if_neg fun h => hc h.1, ← List.cons_append,
        hnext, List.length_cons, List.length_cons, List.length_cons]
      omega

theorem gap_nul {c : UInt8} (hc : c ≠ 0) : gap (0 :: c :: rest) = gap (c :: rest) + 1 := by
  rw [gap_cons, if_neg fun h => hc h.2]

theorem gap_le (area : List UInt8) : gap area ≤ area.length := by
  induction area using gap.induct with
  | case1 a b rest h => rw [gap_cons, if_pos h]; exact Nat.zero_le _
  | case2 a b rest h ih =>
    rw [gap_cons, if_neg h, List.length_cons]
    omega
  | case3 area h => rw [gap.eq_2 area h]; exact Nat.zero_le _

/-- An area in which the scan finds two NULs. -/
def Closed (area : List UInt8) : Prop := gap area + 1 < area.length

instance (area : List UInt8) : Decidable (Closed area) := inferInstanceAs (Decidable (_ < _))

theorem lengthOf_of_closed (h : Closed area) : ∃ len, lengthOf area = some len := by
  induction area using gap.induct with
  | case1 a b rest hab => exact ⟨0, by rw [lengthOf_cons, if_pos hab.1]⟩
  | case2 a b rest hab ih =>
    unfold Closed at h ih
    rw [gap_cons, if_neg hab, List.length_cons] at h
    obtain ⟨len, hlen⟩ := ih (by omega)
    rw [lengthOf_cons]
    split
    · exact ⟨0, rfl⟩
    · exact ⟨len + 1, by rw [hlen]; rfl⟩
  | case3 area harea =>
    unfold Closed at h
    match area, harea with
    | [], _ => exact absurd h (Nat.not_lt_zero _)
    | [_], _ => exact absurd h (Nat.lt_irrefl 1)
    | a :: b :: rest, harea => exact absurd rfl (harea a b rest)

theorem locate_cons (hx : 0 ∉ x) (hne : x ≠ []) (rest : List UInt8) (n : Nat) :
    locate (n + 2) (x ++ 0 :: rest) =
      (locate (n + 1) rest).map (Option.map (shifted x.length)) := by
  cases x with
  | nil => exact absurd rfl hne
  | cons c x =>
    have hc : c ≠ 0 := fun h => hx (h ▸ List.mem_cons_self)
    have hlen := lengthOf_append hx rest
    rw [List.cons_append] at hlen ⊢
    rw [locate_succ, if_neg hc, hlen]
    dsimp only
    rw [List.length_cons, List.drop_append, List.drop_of_length_le (Nat.le_succ _),
      Nat.succ_sub (le_refl _)]
    simp

theorem locate_first (hx : 0 ∉ x) (hne : x ≠ []) (rest : List UInt8) (hn : n ≤ 1) :
    locate n (x ++ 0 :: rest) = some (some (0, x.length)) := by
  cases x with
  | nil => exact absurd rfl hne
  | cons c x =>
    have hc : c ≠ 0 := fun h => hx (h ▸ List.mem_cons_self)
    have hlen := lengthOf_append hx rest
    rw [List.cons_append] at hlen ⊢
    rw [locate_here hn, if_neg hc, hlen]
    rfl

theorem locate_nul (n : Nat) (rest : List UInt8) : locate n (0 :: rest) = some none := by
  match n with
  | 0 | 1 | _ + 2 => rfl

theorem lengthOf_lt (h : lengthOf area = some len) : len < area.length := by
  obtain ⟨x, rest, rfl, -, rfl⟩ := lengthOf_eq_some.mp h
  rw [List.length_append, List.length_cons]
  omega

/-- Where a lookup finds a string, the area begins with one. -/
theorem string_of_locate {found : Nat × Nat} (h : locate n area = some (some found)) :
    ∃ x rest, area = x ++ 0 :: rest ∧ 0 ∉ x ∧ x ≠ [] := by
  cases area with
  | nil =>
    rw [locate_nil] at h
    exact nomatch h
  | cons c rest =>
    have hc : c ≠ 0 := by
      rintro rfl
      rw [locate_nul] at h
      exact nomatch h
    obtain ⟨len, hlen⟩ : ∃ len, lengthOf (c :: rest) = some len := by
      by_contra hnone
      have hlen : lengthOf (c :: rest) = none := by
        by_contra hsome
        exact hnone (Option.ne_none_iff_exists'.mp hsome)
      by_cases hn : n ≤ 1
      · rw [locate_here hn, if_neg hc, hlen] at h
        exact nomatch h
      · obtain ⟨m, rfl⟩ : ∃ m, n = m + 2 := ⟨n - 2, by omega⟩
        rw [locate_succ, if_neg hc, hlen] at h
        exact nomatch h
    obtain ⟨x, rest', harea, hx, -⟩ := lengthOf_eq_some.mp hlen
    refine ⟨x, rest', harea, hx, ?_⟩
    rintro rfl
    exact hc (List.cons.inj harea).1

/-- A string that is found ends in front of the closing NULs. -/
theorem locate_le_gap (h : locate n area = some (some (o, len))) :
    o + len ≤ gap area ∧ lengthOf (area.drop o) = some len := by
  induction n generalizing area o with
  | zero =>
    obtain ⟨x, rest, rfl, hx, hne⟩ := string_of_locate h
    rw [locate_first hx hne rest (Nat.zero_le 1)] at h
    obtain ⟨rfl, rfl⟩ := Prod.mk.inj (Option.some.inj (Option.some.inj h))
    rw [gap_append hx, List.drop_zero, lengthOf_append hx]
    exact ⟨by omega, rfl⟩
  | succ n ih =>
    obtain ⟨x, rest, rfl, hx, hne⟩ := string_of_locate h
    cases n with
    | zero =>
      rw [locate_first hx hne rest le_rfl] at h
      obtain ⟨rfl, rfl⟩ := Prod.mk.inj (Option.some.inj (Option.some.inj h))
      rw [gap_append hx, List.drop_zero, lengthOf_append hx]
      exact ⟨by omega, rfl⟩
    | succ n =>
      rw [locate_cons hx hne] at h
      obtain ⟨found, hfound, h⟩ := Option.map_eq_some_iff.mp h
      obtain ⟨⟨o', len'⟩, rfl, hshift⟩ := Option.map_eq_some_iff.mp h
      obtain ⟨rfl, rfl⟩ := Prod.mk.inj hshift
      obtain ⟨hle, hlen⟩ := ih hfound
      obtain ⟨y, rest', rfl, hy, hyne⟩ := string_of_locate hfound
      obtain ⟨d, y, rfl⟩ := List.exists_cons_of_ne_nil hyne
      have hd : d ≠ 0 := fun h => hy (h ▸ List.mem_cons_self)
      rw [gap_append hx, List.cons_append, gap_nul hd]
      refine ⟨by dsimp only [List.cons_append] at hle ⊢; omega, ?_⟩
      have hdrop : (x ++ 0 :: (d :: (y ++ 0 :: rest'))).drop (x.length + 1 + o') =
          (d :: (y ++ 0 :: rest')).drop o' := by
        rw [Nat.add_assoc, ← List.drop_drop, List.drop_left, Nat.add_comm 1, List.drop_succ_cons]
      exact (congrArg lengthOf hdrop).trans hlen

end Area

section Lookups

variable {s : List UInt8} {q bp : Nat}

theorem drop_eq_cons {c : UInt8} (h : s[q]? = some c) : s.drop q = c :: s.drop (q + 1) := by
  obtain ⟨hlt, rfl⟩ := List.getElem?_eq_some_iff.mp h
  exact List.drop_eq_getElem_cons hlt

theorem exactly_strlen (bp : Nat) (s : List UInt8) :
    Exactly (strlen bp) s (∃ len, lengthOf (s.drop bp) = some len)
      fun len t => lengthOf (s.drop bp) = some len ∧ t = s := by
  constructor
  · rintro ⟨len, h⟩
    refine ⟨len, s, ?_, h, rfl⟩
    unfold strlen
    rw [h]
  · rintro ⟨r, hr⟩
    unfold strlen at hr
    cases h : lengthOf (s.drop bp) with
    | none =>
      rw [h] at hr
      exact nomatch hr
    | some len => exact ⟨len, rfl⟩

theorem dotted_ne_zero (c : UInt8) : dotted c ≠ 0 := by
  by_cases hc : isAscii c = true
  · rw [dotted, if_pos hc]
    rintro rfl
    exact absurd hc (by decide)
  · rw [dotted, if_neg hc]
    decide

theorem filtered_getElem? (s : List UInt8) (bp len k : Nat) : (filtered s bp len)[k]? =
    s[k]?.map fun c => if bp ≤ k ∧ k < bp + len then dotted c else c :=
  List.getElem?_mapIdx

theorem length_filtered (s : List UInt8) (bp len : Nat) : (filtered s bp len).length = s.length :=
  List.length_mapIdx

theorem filtered_zero (s : List UInt8) (bp : Nat) : filtered s bp 0 = s := by
  apply List.ext_getElem?
  intro k
  rw [filtered_getElem?]
  cases s[k]? with
  | none => rfl
  | some c => exact congrArg some (if_neg (by omega))

theorem filtered_succ {c : UInt8} {len : Nat} (h : s[bp]? = some c) :
    filtered (s.set bp (dotted c)) (bp + 1) len = filtered s bp (len + 1) := by
  obtain ⟨hlt, rfl⟩ := List.getElem?_eq_some_iff.mp h
  apply List.ext_getElem?
  intro k
  rw [filtered_getElem?, filtered_getElem?, List.getElem?_set]
  by_cases hk : bp = k
  · subst hk
    rw [if_pos rfl, if_pos hlt, h, Option.map_some, Option.map_some, if_neg (by omega),
      if_pos (by omega)]
  · have hiff : (bp + 1 ≤ k ∧ k < bp + 1 + len) ↔ bp ≤ k ∧ k < bp + (len + 1) := by omega
    rw [if_neg hk]
    simp only [hiff]

theorem exactly_asciiFilter {len : Nat} (h : bp + len ≤ s.length) :
    Exactly (asciiFilter len bp) s True fun _ t => t = filtered s bp len := by
  induction len generalizing bp s with
  | zero => exact exactly_pure (filtered_zero s bp).symm
  | succ len ih =>
    have hlt : bp < s.length := by omega
    refine (exactly_read hlt).next ?_
    rintro c t ⟨rfl, rfl⟩
    have hnext : filtered (t.set bp (dotted t[bp])) (bp + 1) len = filtered t bp (len + 1) :=
      filtered_succ (List.getElem?_eq_getElem hlt)
    refine exactly_ite (fun hc => ?_) fun hc => ?_
    · have hsame : t.set bp (dotted t[bp]) = t := by
        rw [dotted, if_pos hc, List.set_getElem_self]
      rw [hsame] at hnext
      exact (ih (by omega)).mono fun _ t ht => ht.trans hnext
    · refine (exactly_write hlt).next ?_
      rintro _ _ rfl
      rw [dotted, if_neg hc] at hnext
      exact (ih (by rw [List.length_set]; omega)).mono fun _ t ht => ht.trans hnext

/-- What the lookup of the `n`-th string in the area from `q` on returns and leaves. -/
def LookedUp (n q : Nat) (s : List UInt8) (r : Option Nat) (t : List UInt8) : Prop :=
  ∃ found, locate n (s.drop q) = some found ∧ r = found.map (q + ·.1) ∧ t = afterLookup s q found

theorem exactly_dmiStringFound {n : Nat} (hn : n ≤ 1) (q : Nat) (s : List UInt8) :
    Exactly (dmiStringFound true q) s (∃ found, locate n (s.drop q) = some found)
      (LookedUp n q s) := by
  refine ((exactly_read_any q s).bind (Q := ∃ found, locate n (s.drop q) = some found)
    (T := LookedUp n q s) ?_).imp ⟨And.right, fun h => ⟨?_, h⟩⟩ fun _ _ => id
  · rintro c t ⟨hc, rfl⟩
    have hdrop := drop_eq_cons hc
    refine exactly_ite (fun hzero => ?_) fun hzero => ?_
    · have hnone : locate n (t.drop q) = some none := by rw [hdrop, hzero, locate_nul]
      exact (exactly_pure ⟨none, hnone, rfl, rfl⟩).imp ⟨fun _ => ⟨none, hnone⟩, fun _ => trivial⟩
        fun _ _ => id
    · have hhere : locate n (t.drop q) = (lengthOf (t.drop q)).map fun len => some (0, len) := by
        rw [hdrop, locate_here hn, if_neg hzero]
      refine ((exactly_strlen q t).last ?_).imp ?_ fun _ _ => id
      · rintro len t ⟨hlen, rfl⟩
        have hlt := lengthOf_lt hlen
        rw [List.length_drop] at hlt
        refine (exactly_asciiFilter (by omega)).next ?_
        rintro _ _ rfl
        exact exactly_pure ⟨some (0, len), by rw [hhere, hlen]; rfl, rfl, rfl⟩
      · rw [hhere]
        exact ⟨fun ⟨len, h⟩ => ⟨some (0, len), by rw [h]; rfl⟩, fun ⟨found, h⟩ =>
          let ⟨len, hlen, _⟩ := Option.map_eq_some_iff.mp h; ⟨len, hlen⟩⟩
  · obtain ⟨found, hfound⟩ := h
    by_contra hlt
    rw [List.drop_of_length_le (by omega), locate_nil] at hfound
    exact nomatch hfound

theorem locate_next {n len : Nat} {c : UInt8} (hc : s[q]? = some c) (hne : c ≠ 0)
    (hlen : lengthOf (s.drop q) = some len) : locate (n + 2) (s.drop q) =
      (locate (n + 1) (s.drop (q + len + 1))).map (Option.map (shifted len)) := by
  have hdrop := drop_eq_cons hc
  have hrest : s.drop (q + len + 1) = (s.drop (q + 1)).drop len := by
    rw [List.drop_drop]
    congr 1
    omega
  rw [hdrop] at hlen
  rw [hdrop, locate_succ, if_neg hne, hlen, hrest]

theorem exactly_dmiStringLoop (n q : Nat) (s : List UInt8) :
    Exactly (dmiStringLoop true n q) s (∃ found, locate n (s.drop q) = some found)
      (LookedUp n q s) := by
  induction n generalizing q with
  | zero => exact exactly_dmiStringFound (Nat.zero_le 1) q s
  | succ n ih =>
    cases n with
    | zero => exact exactly_dmiStringFound le_rfl q s
    | succ n =>
      have hmore : ∀ c, s[q]? = some c → Exactly
          (if c = 0 then dmiStringFound true q
            else do
              let len ← strlen q
              dmiStringLoop true (n + 1) (q + len + 1)) s
          (∃ found, locate (n + 2) (s.drop q) = some found) (LookedUp (n + 2) q s) := by
        intro c hc
        have hdrop := drop_eq_cons hc
        refine exactly_ite (fun hzero => ?_) fun hzero => ?_
        · have hsame : locate (n + 2) (s.drop q) = locate 0 (s.drop q) := by
            rw [hdrop, hzero, locate_nul, locate_nul]
          unfold LookedUp
          rw [hsame]
          exact exactly_dmiStringFound (Nat.zero_le 1) q s
        · refine ((exactly_strlen q s).bind
            (Q := ∃ found, locate (n + 2) (s.drop q) = some found) ?_).imp
            ⟨And.right, fun h => ⟨?_, h⟩⟩ fun _ _ => id
          · rintro len t ⟨hlen, rfl⟩
            have hnext := locate_next hc hzero hlen (n := n)
            refine (ih (q + len + 1)).imp ?_ ?_
            · rw [hnext]
              exact ⟨fun ⟨found, h⟩ => ⟨_, by rw [h]; rfl⟩, fun ⟨found, h⟩ =>
                let ⟨before, hbefore, _⟩ := Option.map_eq_some_iff.mp h; ⟨before, hbefore⟩⟩
            · rintro r u ⟨found, hfound, rfl, rfl⟩
              refine ⟨found.map (shifted len), by rw [hnext, hfound]; rfl, ?_, ?_⟩
              · cases found with
                | none => rfl
                | some f => exact congrArg some (by dsimp only [shifted]; omega)
              · cases found with
                | none => rfl
                | some f => exact congrArg (filtered t · f.2) (by dsimp only [shifted]; omega)
          · obtain ⟨found, hfound⟩ := h
            rw [hdrop, locate_succ, if_neg hzero, ← hdrop] at hfound
            cases hlen : lengthOf (s.drop q) with
            | none =>
              rw [hlen] at hfound
              exact nomatch hfound
            | some len => exact ⟨len, rfl⟩
      refine ((exactly_read_any q s).bind (Q := ∃ found, locate (n + 2) (s.drop q) = some found)
        (T := LookedUp (n + 2) q s) ?_).imp ⟨And.right, fun h => ⟨?_, h⟩⟩ fun _ _ => id
      · rintro c t ⟨hc, rfl⟩
        exact hmore c hc
      · obtain ⟨found, hfound⟩ := h
        by_contra hlt
        rw [List.drop_of_length_le (by omega), locate_nil] at hfound
        exact nomatch hfound

theorem exactly_copied {r : Option Nat}
    (hr : ∀ bp, r = some bp → ∃ len, lengthOf (s.drop bp) = some len) :
    Exactly (copied r) s True fun bytes t => t = s ∧ bytes = r.bind fun bp =>
      (lengthOf (s.drop bp)).map fun len => slice s bp len := by
  cases r with
  | none => exact exactly_pure ⟨rfl, rfl⟩
  | some bp =>
    obtain ⟨len, hlen⟩ := hr bp rfl
    have hlt := lengthOf_lt hlen
    rw [List.length_drop] at hlt
    refine ((exactly_strlen bp s).imp ⟨fun _ => trivial, fun _ => ⟨len, hlen⟩⟩ fun _ _ => id).next ?_
    rintro len' t ⟨hlen', rfl⟩
    obtain rfl := Option.some.inj (hlen.symm.trans hlen')
    refine (exactly_load (by omega)).next ?_
    rintro bytes _ ⟨rfl, rfl⟩
    exact exactly_pure ⟨rfl, by rw [Option.bind_some, hlen]; rfl⟩

/-- A lookup by the number at an offset of the formatted area. -/
theorem exactly_dmiString {dm : DmiHeader} {offset : Nat} {n : UInt8} (ho : 4 ≤ offset)
    (hn : s[dm.data + offset]? = some n) :
    Exactly (dmiString dm offset) s
      (∃ found, locate n.toNat (s.drop (dm.data + dm.length.toNat)) = some found)
      (LookedUp n.toNat (dm.data + dm.length.toNat) s) := by
  obtain ⟨hlt, rfl⟩ := List.getElem?_eq_some_iff.mp hn
  refine exactly_ite (fun h => absurd h (by omega)) fun _ => (exactly_read hlt).next ?_
  rintro n t ⟨rfl, rfl⟩
  exact exactly_dmiStringLoop ..

end Lookups

end VeloxHash.DmiTools
