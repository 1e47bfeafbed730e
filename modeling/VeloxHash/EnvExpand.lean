import VeloxHash.EthStratumClient
import VeloxHash.TextSubstitution

/-! `Env::expand`: the references in a text and the variables they name. -/

namespace VeloxHash.Env

open TextSubstitution

abbrev Text := List UInt8

/-- What the process and the machine say of themselves. -/
structure Host where
  hostname : Option Text
  exepath : Option Text
  exeLocation : Option Text
  cwdLocation : Option Text
  homeLocation : Option Text
  tempLocation : Option Text
  dataLocation : Option Text
  getenv : Text → Option Text

/-- A map with `String` keys, where a value may be null. -/
abbrev Map := List (Text × Option Text)

def createVariables (host : Host) : Map :=
  [(bytesOf "VELOXHASH_VERSION", some (bytesOf "6.25.0")),
    (bytesOf "VELOXHASH_KIND", some (bytesOf "miner")),
    (bytesOf "VELOXHASH_HOSTNAME", host.hostname),
    (bytesOf "VELOXHASH_EXE", host.exepath),
    (bytesOf "VELOXHASH_EXE_DIR", host.exeLocation),
    (bytesOf "VELOXHASH_CWD", host.cwdLocation),
    (bytesOf "VELOXHASH_HOME_DIR", host.homeLocation),
    (bytesOf "VELOXHASH_TEMP_DIR", host.tempLocation),
    (bytesOf "VELOXHASH_DATA_DIR", host.dataLocation)] ++
  if (host.getenv (bytesOf "HOSTNAME")).isNone then [(bytesOf "HOSTNAME", host.hostname)] else []

def get (host : Host) (extra : Map) (name : Text) : Option Text :=
  match (createVariables host).lookup name with
  | some value => value
  | none =>
    match extra.lookup name with
    | some value => value
    | none => host.getenv name

/-- What `[^}]+` can match. -/
structure Name where
  bytes : Text
  nonempty : bytes ≠ []
  unclosed : 125 ∉ bytes
  deriving DecidableEq

/-- `m.str()` of a match of `\$\{([^}]+)\}`. -/
def reference (name : Name) : Text := 36 :: 123 :: name.bytes ++ [125]

theorem reference_ne_nil (name : Name) : reference name ≠ [] := List.cons_ne_nil _ _

theorem reference_unbordered (name : Name) : Unbordered (reference name) := by
  have hbody : 125 ∉ 36 :: 123 :: name.bytes := by simpa using name.unclosed
  exact unbordered_of_end hbody

theorem length_reference (name : Name) : 4 ≤ (reference name).length := by
  have := List.length_pos_iff.mpr name.nonempty
  simp only [reference, List.length_append, List.length_cons, List.length_nil]
  omega

theorem takeWhile_unclosed (text : Text) : 125 ∉ text.takeWhile (· != 125) := fun h => by
  simpa using List.all_eq_true.mp List.all_takeWhile _ h

/-- The match of `\$\{([^}]+)\}` that begins at the first byte: its group and what follows. -/
def matchHere : Text → Option (Name × Text)
  | 36 :: 123 :: rest =>
    match rest.dropWhile (· != 125) with
    | [] => none
    | _ :: after =>
      if h : rest.takeWhile (· != 125) = [] then none
      else some (⟨rest.takeWhile (· != 125), h, takeWhile_unclosed rest⟩, after)
  | _ => none

theorem matchHere_eq {text after : Text} {name : Name} (h : matchHere text = some (name, after)) :
    text = reference name ++ after := by
  unfold matchHere at h
  split at h
  case h_2 => cases h
  case h_1 rest =>
    have hsplit := List.takeWhile_append_dropWhile (p := (· != 125)) (l := rest)
    have hclose := List.head?_dropWhile_not (· != 125) rest
    split at h
    case h_1 => cases h
    case h_2 close after' hafter =>
      split at h
      case isTrue => cases h
      case isFalse hne =>
        rw [Option.some.injEq, Prod.mk.injEq] at h
        obtain ⟨rfl, rfl⟩ := h
        rw [hafter] at hsplit hclose
        obtain rfl : close = 125 := by simpa using hclose
        nth_rewrite 1 [reference, ← hsplit]
        simp

theorem length_matchHere {text after : Text} {name : Name}
    (h : matchHere text = some (name, after)) : after.length < text.length := by
  have := length_reference name
  rw [matchHere_eq h, List.length_append]
  omega

/-- The matches that `std::sregex_iterator` goes through, and the bytes between them. -/
def pieces : Text → List (Piece UInt8 Name)
  | [] => []
  | c :: cs =>
    match _h : matchHere (c :: cs) with
    | some (name, after) => .ref name :: pieces after
    | none => .plain c :: pieces cs
termination_by text => text.length
decreasing_by
  · exact length_matchHere ‹_›
  · simp

theorem spell_pieces (text : Text) : spell reference (pieces text) = text := by
  induction text using pieces.induct with
  | case1 => rw [pieces]; rfl
  | case2 c cs name after h ih =>
    rw [pieces, h, spell_cons, ih, matchHere_eq h]
    rfl
  | case3 c cs h ih =>
    rw [pieces, h, spell_cons, ih]
    rfl

def names (text : Text) : List Name :=
  (pieces text).filterMap fun
    | .ref name => some name
    | _ => none

theorem mem_names {text : Text} {name : Name} : name ∈ names text ↔ .ref name ∈ pieces text := by
  rw [names, List.mem_filterMap]
  constructor
  · rintro ⟨piece, hmem, heq⟩
    cases piece with
    | ref name' => rwa [← Option.some.inj heq]
    | plain c => cases heq
    | done w => cases heq
  · intro hmem
    exact ⟨_, hmem, rfl⟩

/-- The keys of `vars`, which the map keeps once and in the order of their bytes. -/
def vars (text : Text) : List Name :=
  (names text).dedup.insertionSort fun a b => reference a ≤ reference b

/-- The loop over `vars`. -/
def replaceVars (host : Host) (extra : Map) (text : Text) (order : List Name) : Text :=
  order.foldl (fun text name =>
    match get host extra name.bytes with
    | none => text
    | some value => replaceAll (reference name) value text) text

def expand (host : Host) (extra : Map) : Option Text → Option Text
  | none => none
  | some text =>
    if text.length < 4 then some text else some (replaceVars host extra text (vars text))

/-- Every reference to a defined variable is replaced by its value, and nothing else changes. -/
def substitute (host : Host) (extra : Map) (text : Text) : Text :=
  (pieces text).flatMap fun
    | .ref name => (get host extra name.bytes).getD (reference name)
    | piece => piece.spell reference

/-- The references to defined variables, in the order of the map. -/
def definedVars (host : Host) (extra : Map) (text : Text) : List Name :=
  (vars text).filter fun name => (get host extra name.bytes).isSome

def value (host : Host) (extra : Map) (name : Name) : Text := (get host extra name.bytes).getD []

/-- One simultaneous substitution: this is the result, in the order of the map and in any other,
and no replacement touches anything but one of the matches. -/
structure OneSubstitution (host : Host) (extra : Map) (text : Text) : Prop where
  expanded : expand host extra (some text) = some (substitute host extra text)
  any_order : ∀ order, order.Perm (vars text) →
    replaceVars host extra text order = substitute host extra text
  matches_only : ∀ order, order.Perm (definedVars host extra text) →
    AtOnce reference (value host extra) order (pieces text)

section Substitution

variable (host : Host) (extra : Map) (text : Text)

theorem mem_definedVars {name : Name} : name ∈ definedVars host extra text ↔
    .ref name ∈ pieces text ∧ (get host extra name.bytes).isSome := by
  rw [definedVars, List.mem_filter, vars, List.mem_insertionSort, List.mem_dedup, mem_names]

theorem nodup_definedVars : (definedVars host extra text).Nodup :=
  ((List.perm_insertionSort _ _).nodup_iff.mpr (List.nodup_dedup _)).filter _

theorem replaceVars_filter (order : List Name) :
    replaceVars host extra text order = replaceEach reference (value host extra)
      (order.filter fun name => (get host extra name.bytes).isSome) text := by
  induction order generalizing text with
  | nil => rfl
  | cons name order ih =>
    rw [replaceVars, List.foldl_cons, ← replaceVars, ih]
    cases h : get host extra name.bytes with
    | none => rw [List.filter_cons_of_neg (by simp [h])]
    | some v =>
      rw [List.filter_cons_of_pos (by simp [h]), replaceEach, replaceEach, List.foldl_cons,
        value, h, Option.getD_some]

theorem substitute_eq : substitute host extra text = spell reference
    (fill (value host extra) (definedVars host extra text).toFinset (pieces text)) := by
  rw [substitute, spell, fill, List.flatMap_map]
  refine List.flatMap_congr fun piece hpiece => ?_
  cases piece with
  | plain c => rfl
  | done w => rfl
  | ref name =>
    cases h : get host extra name.bytes with
    | none =>
      have hundefined : name ∉ (definedVars host extra text).toFinset := by
        rw [List.mem_toFinset, mem_definedVars, h]
        simp
      simp only [Piece.fill, if_neg hundefined, h]
      rfl
    | some v =>
      have hdefined : name ∈ (definedVars host extra text).toFinset := by
        rw [List.mem_toFinset, mem_definedVars, h]
        exact ⟨hpiece, rfl⟩
      simp only [Piece.fill, if_pos hdefined, value, h]
      rfl

/-- A text that is too short for a reference. -/
theorem definedVars_short (h : text.length < 4) : definedVars host extra text = [] := by
  refine List.eq_nil_iff_forall_not_mem.mpr fun name hname => ?_
  obtain ⟨before, after, heq⟩ := List.append_of_mem ((mem_definedVars host extra text).mp hname).1
  have hlength := congrArg List.length (spell_pieces text)
  have := length_reference name
  rw [heq, spell, List.flatMap_append, List.flatMap_cons, List.length_append,
    List.length_append] at hlength
  simp only [Piece.spell] at hlength
  omega

theorem expand_eq : expand host extra (some text) = some (replaceEach reference
    (value host extra) (definedVars host extra text) text) := by
  rw [expand]
  split
  · rw [definedVars_short host extra text ‹_›]
    rfl
  · rw [replaceVars_filter, ← definedVars]

theorem expand_substitution_iff : OneSubstitution host extra text ↔
    Apart reference (value host extra) (definedVars host extra text).toFinset (pieces text) := by
  rw [← atOnce_iff reference_ne_nil reference_unbordered]
  constructor
  · intro h order hnodup hset
    exact h.matches_only order
      (List.perm_of_nodup_nodup_toFinset_eq hnodup (nodup_definedVars host extra text) hset)
  · intro h
    have hperm : ∀ order, order.Perm (definedVars host extra text) →
        AtOnce reference (value host extra) order (pieces text) := fun order hperm =>
      h order (hperm.nodup_iff.mpr (nodup_definedVars host extra text))
        (List.toFinset_eq_of_perm _ _ hperm)
    have hresult : ∀ order, order.Perm (definedVars host extra text) →
        replaceEach reference (value host extra) order text = substitute host extra text := by
      intro order horder
      have hall := (hperm order horder).replaced order List.prefix_rfl
      rwa [spell_pieces, List.toFinset_eq_of_perm _ _ horder, ← substitute_eq] at hall
    refine ⟨?_, fun order horder => ?_, hperm⟩
    · rw [expand_eq, hresult _ (List.Perm.refl _)]
    · rw [replaceVars_filter, hresult _ (horder.filter _)]

end Substitution

def nameA : Name := ⟨[65], by decide, by decide⟩

def nameB : Name := ⟨[66], by decide, by decide⟩

/-- `A` is defined as a reference to `B`. -/
def nested : Host where
  hostname := none
  exepath := none
  exeLocation := none
  cwdLocation := none
  homeLocation := none
  tempLocation := none
  dataLocation := none
  getenv := fun name =>
    if name = nameA.bytes then some (reference nameB)
    else if name = nameB.bytes then some [120]
    else none

theorem expand_nested :
    expand nested [] (some (reference nameA ++ reference nameB)) = some [120, 120] ∧
      substitute nested [] (reference nameA ++ reference nameB) = reference nameB ++ [120] ∧
      ¬ OneSubstitution nested [] (reference nameA ++ reference nameB) := by
  have hexpand : expand nested [] (some (reference nameA ++ reference nameB)) =
      some [120, 120] := by
    decide +kernel
  have hsubstitute : substitute nested [] (reference nameA ++ reference nameB) =
      reference nameB ++ [120] := by
    decide +kernel
  refine ⟨hexpand, hsubstitute, fun h => ?_⟩
  have hexpanded := h.expanded
  rw [hexpand, hsubstitute] at hexpanded
  exact absurd hexpanded (by decide)

end VeloxHash.Env
