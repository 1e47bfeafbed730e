import VeloxHash.DmiTools

/-! The strings of a well-formed structure, looked up one after another in a buffer that every
lookup filters. -/

namespace VeloxHash.DmiTools

open BufferProgram Splice

/-- The bytes of some strings, each with its NUL. -/
def terminated (strings : List (List UInt8)) : List UInt8 := strings.flatMap (· ++ [0])

/-- Behind its formatted area a structure has strings, none of them empty, and a NUL. -/
structure Formed (dm : DmiHeader) (strings : List (List UInt8)) (s : List UInt8) : Prop where
  strings_ne : ∀ x ∈ strings, x ≠ [] ∧ 0 ∉ x
  area : ∃ after, s.drop (dm.data + dm.length.toNat) = terminated strings ++ 0 :: after

/-- Where the lookup of the `n`-th string ends, the strings being `strings`. -/
def position : Nat → List (List UInt8) → Option (Nat × Nat)
  | _, [] => none
  | n + 2, x :: xs => (position (n + 1) xs).map (shifted x.length)
  | _, x :: _ => some (0, x.length)

def lookups (dm : DmiHeader) : List Nat → BufferProgram (List (Option (List UInt8)))
  | [] => return []
  | offset :: rest => do
    let r ← dmiStringCopied dm offset
    let rs ← lookups dm rest
    return r :: rs

/-- The string that a number stands for; 0 stands for none. -/
def expected (n : Nat) (strings : List (List UInt8)) : Option (List UInt8) :=
  if n = 0 then none else strings[n - 1]?.map (·.map dotted)

section Positions

variable {strings : List (List UInt8)} {n : Nat} {found : Nat × Nat}

theorem terminated_cons (x : List UInt8) (xs : List (List UInt8)) (after : List UInt8) :
    terminated (x :: xs) ++ 0 :: after = x ++ 0 :: (terminated xs ++ 0 :: after) := by
  rw [terminated, List.flatMap_cons, List.append_assoc, List.append_assoc]
  rfl

theorem terminated_append (front back : List (List UInt8)) :
    terminated (front ++ back) = terminated front ++ terminated back := List.flatMap_append

theorem locate_terminated (h : ∀ x ∈ strings, x ≠ [] ∧ 0 ∉ x) (n : Nat) (after : List UInt8) :
    locate n (terminated strings ++ 0 :: after) = some (position n strings) := by
  induction strings generalizing n with
  | nil =>
    refine (locate_nul n after).trans ?_
    match n with
    | 0 | 1 | _ + 2 => rfl
  | cons x xs ih =>
    obtain ⟨hne, hx⟩ := h x List.mem_cons_self
    rw [terminated_cons]
    match n with
    | 0 => exact locate_first hx hne _ (Nat.zero_le 1)
    | 1 => exact locate_first hx hne _ le_rfl
    | n + 2 =>
      rw [locate_cons hx hne, ih fun y hy => h y (List.mem_cons_of_mem x hy)]
      rfl

theorem position_eq_some (h : position n strings = some found) :
    ∃ front x back, strings = front ++ x :: back ∧ front.length = n - 1 ∧
      found = ((terminated front).length, x.length) := by
  induction strings generalizing n found with
  | nil =>
    match n with
    | 0 | 1 | _ + 2 => exact nomatch h
  | cons x xs ih =>
    match n with
    | 0 | 1 => exact ⟨[], x, xs, rfl, rfl, (Option.some.inj h).symm⟩
    | n + 2 =>
      obtain ⟨found', hfound', rfl⟩ := Option.map_eq_some_iff.mp h
      obtain ⟨front, y, back, rfl, hlength, rfl⟩ := ih hfound'
      refine ⟨x :: front, y, back, rfl, by rw [List.length_cons, hlength]; omega, ?_⟩
      refine Prod.ext ?_ rfl
      change x.length + 1 + _ = _
      rw [terminated, terminated, List.flatMap_cons, List.length_append, List.length_append]
      rfl

theorem position_eq_none (h : position n strings = none) : strings[n - 1]? = none := by
  induction strings generalizing n with
  | nil => rfl
  | cons x xs ih =>
    match n with
    | 0 | 1 => exact nomatch h
    | n + 2 => exact ih (Option.map_eq_none_iff.mp h)

end Positions

section Filtering

theorem dotted_dotted (c : UInt8) : dotted (dotted c) = dotted c := by
  by_cases hc : isAscii c = true
  · rw [dotted, dotted, if_pos hc, if_pos hc]
  · rw [dotted, dotted, if_neg hc]
    rfl

theorem map_dotted_dotted (x : List UInt8) : (x.map dotted).map dotted = x.map dotted := by
  rw [List.map_map]
  exact List.map_congr_left fun c _ => dotted_dotted c

theorem filtered_append (front x back : List UInt8) :
    filtered (front ++ (x ++ back)) front.length x.length = front ++ (x.map dotted ++ back) := by
  apply List.ext_getElem?
  intro k
  rw [filtered_getElem?]
  by_cases hfront : k < front.length
  · rw [List.getElem?_append_left hfront, List.getElem?_append_left hfront,
      List.getElem?_eq_getElem hfront, Option.map_some, if_neg (by omega)]
  · have hle : front.length ≤ k := Nat.le_of_not_lt hfront
    rw [List.getElem?_append_right hle, List.getElem?_append_right hle]
    by_cases hx : k - front.length < x.length
    · rw [List.getElem?_append_left hx, List.getElem?_append_left (by rwa [List.length_map]),
        List.getElem?_map, List.getElem?_eq_getElem hx, Option.map_some, Option.map_some,
        if_pos (by omega)]
    · have hrest : x.length ≤ k - front.length := Nat.le_of_not_lt hx
      rw [List.getElem?_append_right hrest,
        List.getElem?_append_right (by rwa [List.length_map]), List.length_map]
      cases back[k - front.length - x.length]? with
      | none => rfl
      | some c => exact congrArg some (if_neg (by omega))

end Filtering

section Lookups

variable {dm : DmiHeader} {strings : List (List UInt8)} {s : List UInt8}

theorem Formed.data_lt (h : Formed dm strings s) :
    dm.data + dm.length.toNat < s.length := by
  obtain ⟨after, harea⟩ := h.area
  by_contra hle
  rw [List.drop_of_length_le (by omega)] at harea
  exact absurd harea.symm (by simp)

/-- The string of a number is found with its dots, and the structure stays what it is. -/
theorem exactly_dmiStringCopied (h : Formed dm strings s) {offset : Nat} {n : UInt8}
    (ho : 4 ≤ offset) (hn : s[dm.data + offset]? = some n) :
    Exactly (dmiStringCopied dm offset) s True fun r t =>
      r = (strings.map (·.map dotted))[n.toNat - 1]? ∧
        t.take (dm.data + dm.length.toNat) = s.take (dm.data + dm.length.toNat) ∧
        ∃ strings', Formed dm strings' t ∧
          strings'.map (·.map dotted) = strings.map (·.map dotted) := by
  obtain ⟨after, harea⟩ := h.area
  have hlookup := exactly_dmiString ho hn
  rw [harea, locate_terminated h.strings_ne] at hlookup
  refine (hlookup.imp ⟨fun _ => trivial, fun _ => ⟨_, rfl⟩⟩ fun _ _ => id).next ?_
  rintro r t ⟨found, hfound, rfl, rfl⟩
  rw [harea, locate_terminated h.strings_ne] at hfound
  obtain rfl := Option.some.inj hfound
  cases hposition : position n.toNat strings with
  | none =>
    refine (exactly_copied fun bp hbp => (Option.some_ne_none bp hbp.symm).elim).mono ?_
    rintro r t ⟨rfl, rfl⟩
    refine ⟨?_, rfl, strings, h, rfl⟩
    rw [List.getElem?_map, position_eq_none hposition]
    rfl
  | some found =>
    obtain ⟨front, x, back, rfl, hlength, rfl⟩ := position_eq_some hposition
    obtain ⟨hstrings, hx⟩ := List.forall_mem_append.mp h.strings_ne
    have hdotted : 0 ∉ x.map dotted := fun hmem =>
      let ⟨c, _, hc⟩ := List.mem_map.mp hmem
      dotted_ne_zero c hc
    generalize hq : dm.data + dm.length.toNat = q at *
    have hlt : q < s.length := hq ▸ h.data_lt
    have hfront : (s.take q ++ terminated front).length = q + (terminated front).length := by
      rw [List.length_append, List.length_take, Nat.min_eq_left hlt.le]
    have hsplit : s = (s.take q ++ terminated front) ++
        (x ++ 0 :: (terminated back ++ 0 :: after)) := by
      rw [terminated_append, List.append_assoc, terminated_cons] at harea
      rw [List.append_assoc, ← harea, List.take_append_drop]
    have hafter : afterLookup s q (some ((terminated front).length, x.length)) =
        (s.take q ++ terminated front) ++ (x.map dotted ++ 0 :: (terminated back ++ 0 :: after)) := by
      have hfiltered := filtered_append (s.take q ++ terminated front) x
        (0 :: (terminated back ++ 0 :: after))
      rw [← hsplit, hfront] at hfiltered
      exact hfiltered
    rw [hafter]
    have hdrop : ((s.take q ++ terminated front) ++
        (x.map dotted ++ 0 :: (terminated back ++ 0 :: after))).drop (q + (terminated front).length) =
          x.map dotted ++ 0 :: (terminated back ++ 0 :: after) := by
      rw [← hfront, List.drop_left]
    have hlen := lengthOf_append hdotted (terminated back ++ 0 :: after)
    refine (exactly_copied ?_).mono ?_
    · rintro bp hbp
      obtain rfl := Option.some.inj hbp
      exact ⟨_, by rw [hdrop, hlen]⟩
    · rintro r t ⟨rfl, rfl⟩
      refine ⟨?_, ?_, front ++ x.map dotted :: back, ⟨?_, after, ?_⟩, ?_⟩
      · rw [Option.map_some, Option.bind_some, hdrop, hlen, Option.map_some, slice, hdrop,
          List.take_left, List.getElem?_map, ← hlength, List.getElem?_append_right le_rfl,
          Nat.sub_self]
        rfl
      · rw [List.append_assoc, List.take_left' (by rw [List.length_take, Nat.min_eq_left hlt.le])]
      · refine List.forall_mem_append.mpr ⟨hstrings, List.forall_mem_cons.mpr ⟨⟨?_, hdotted⟩, ?_⟩⟩
        · exact fun hnil => (hx x List.mem_cons_self).1 (List.map_eq_nil_iff.mp hnil)
        · exact fun y hy => hx y (List.mem_cons_of_mem x hy)
      · rw [hq, List.append_assoc, List.drop_left' (by rw [List.length_take, Nat.min_eq_left hlt.le]),
          terminated_append, List.append_assoc, terminated_cons]
      · rw [List.map_append, List.map_append, List.map_cons, List.map_cons, map_dotted_dotted]

/-- The number at an offset of the formatted area. -/
def numberAt (dm : DmiHeader) (s : List UInt8) (offset : Nat) : Nat :=
  (s.getD (dm.data + offset) 0).toNat

theorem exactly_lookups (h : Formed dm strings s) {offsets : List Nat}
    (hoffsets : ∀ o ∈ offsets, 4 ≤ o ∧ o < dm.length.toNat) :
    Exactly (lookups dm offsets) s True fun rs _ =>
      rs = offsets.map fun o => (strings.map (·.map dotted))[numberAt dm s o - 1]? := by
  induction offsets generalizing strings s with
  | nil => exact exactly_pure rfl
  | cons o rest ih =>
    obtain ⟨ho, hlt⟩ := hoffsets o List.mem_cons_self
    have hlength := h.data_lt
    have hn : s[dm.data + o]? = some (s.getD (dm.data + o) 0) := by
      rw [List.getD_eq_getElem?_getD, List.getElem?_eq_getElem (by omega), Option.getD_some]
    refine (exactly_dmiStringCopied h ho hn).next ?_
    rintro r t ⟨rfl, hfront, strings', hformed, hsame⟩
    refine (ih hformed fun o ho => hoffsets o (List.mem_cons_of_mem _ ho)).next ?_
    rintro rs u rfl
    refine exactly_pure ?_
    rw [List.map_cons, hsame]
    refine congrArg _ (List.map_congr_left fun o' ho' => ?_)
    have hkept : numberAt dm t o' = numberAt dm s o' := by
      have hlt' := (hoffsets o' (List.mem_cons_of_mem o ho')).2
      have hget := congrArg (fun front : List UInt8 => front[dm.data + o']?) hfront
      beta_reduce at hget
      rw [List.getElem?_take_of_lt (by omega), List.getElem?_take_of_lt (by omega)] at hget
      rw [numberAt, numberAt, List.getD_eq_getElem?_getD, List.getD_eq_getElem?_getD, hget]
    rw [hkept]

/-- Whatever was looked up before, a number finds its string unless it is 0 and there are
strings: then it finds the first. -/
theorem lookup_expected_iff (h : Formed dm strings s) {earlier : List Nat} {offset : Nat}
    (hearlier : ∀ o ∈ earlier, 4 ≤ o ∧ o < dm.length.toNat)
    (hoffset : 4 ≤ offset ∧ offset < dm.length.toNat) :
    (∃ rs t, lookups dm (earlier ++ [offset]) s =
        .ok (rs ++ [expected (numberAt dm s offset) strings], t)) ↔
      numberAt dm s offset ≠ 0 ∨ strings = [] := by
  have hall : ∀ o ∈ earlier ++ [offset], 4 ≤ o ∧ o < dm.length.toNat :=
    List.forall_mem_append.mpr ⟨hearlier, List.forall_mem_singleton.mpr hoffset⟩
  obtain ⟨results, t, hrun, rfl⟩ := (exactly_lookups h hall).ends trivial
  rw [hrun, List.map_append, List.map_singleton]
  constructor
  · rintro ⟨rs, u, heq⟩
    obtain ⟨hresults, -⟩ := Prod.mk.inj (Except.ok.inj heq)
    have hlast := (List.append_inj' hresults rfl).2
    by_contra hcond
    obtain ⟨hzero, hne⟩ := not_or.mp hcond
    obtain ⟨x, xs, rfl⟩ := List.exists_cons_of_ne_nil hne
    rw [not_not.mp hzero] at hlast
    exact absurd hlast (by simp [expected])
  · intro hcond
    have hlast : (strings.map (·.map dotted))[numberAt dm s offset - 1]? =
        expected (numberAt dm s offset) strings := by
      rw [List.getElem?_map, expected]
      split
      case isTrue hzero =>
        obtain rfl := hcond.resolve_left (not_not.mpr hzero)
        rfl
      case isFalse => rfl
    exact ⟨_, t, by rw [hlast]⟩

/-- Board information with one string, whose vendor has number 0. -/
def unnamed : List UInt8 := [2, 8, 0, 0, 0, 1, 0, 0, 65, 0, 0]

theorem formed_unnamed : Formed ⟨2, 8, 0, 0⟩ [[65]] unnamed :=
  ⟨by decide, [], by decide⟩

theorem lookup_expected_unnamed :
    (∃ rs t, lookups ⟨2, 8, 0, 0⟩ ([5] ++ [5]) unnamed =
        .ok (rs ++ [expected (numberAt ⟨2, 8, 0, 0⟩ unnamed 5) [[65]]], t)) ↔
      numberAt ⟨2, 8, 0, 0⟩ unnamed 5 ≠ 0 ∨ [[(65 : UInt8)]] = [] :=
  lookup_expected_iff formed_unnamed (by decide) (by decide)

theorem lookup_zero : ¬ ∀ (dm : DmiHeader) (strings : List (List UInt8)) (s : List UInt8)
    (earlier : List Nat) (offset : Nat), Formed dm strings s →
    (∀ o ∈ earlier, 4 ≤ o ∧ o < dm.length.toNat) → 4 ≤ offset ∧ offset < dm.length.toNat →
    ∃ rs t, lookups dm (earlier ++ [offset]) s =
      .ok (rs ++ [expected (numberAt dm s offset) strings], t) := by
  intro h
  obtain ⟨rs, t, hrun⟩ := h _ _ _ [] 4 formed_unnamed nofun (by decide)
  have hfirst : lookups ⟨2, 8, 0, 0⟩ [4] unnamed = .ok ([some [65]], unnamed) := by rfl
  obtain ⟨hresults, -⟩ := Prod.mk.inj (Except.ok.inj (hfirst.symm.trans hrun))
  have hlast := (@List.append_inj' _ [] _ _ _ hresults rfl).2
  exact absurd hlast (by decide)

end Lookups

end VeloxHash.DmiTools
