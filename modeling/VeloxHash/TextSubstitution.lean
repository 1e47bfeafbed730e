import Mathlib.Data.Finset.Basic
import Mathlib.Data.List.Infix
import Mathlib.Tactic

/-! References in a text replaced one name at a time, against all of them replaced at once. -/

namespace VeloxHash.TextSubstitution

variable {α κ : Type*}

/-- A text is copied elements, references, and what has been put in place of a reference. -/
inductive Piece (α κ : Type*)
  | plain (c : α)
  | ref (k : κ)
  | done (w : List α)

section Pieces

variable (word : κ → List α)

def Piece.spell : Piece α κ → List α
  | .plain c => [c]
  | .ref k => word k
  | .done w => w

def spell (ps : List (Piece α κ)) : List α := ps.flatMap (Piece.spell word)

@[simp] theorem spell_nil : spell word [] = [] := rfl

@[simp] theorem spell_cons (p : Piece α κ) (ps : List (Piece α κ)) :
    spell word (p :: ps) = p.spell word ++ spell word ps := List.flatMap_cons

/-- At position `i` stands one of the references to `k`. -/
def RefAt (k : κ) (ps : List (Piece α κ)) (i : Nat) : Prop :=
  ∃ before after, ps = before ++ .ref k :: after ∧ i = (spell word before).length

variable [DecidableEq κ] (value : κ → List α)

def Piece.fill (names : Finset κ) : Piece α κ → Piece α κ
  | .ref k => if k ∈ names then .done (value k) else .ref k
  | p => p

/-- All references to the names are replaced at once. -/
def fill (names : Finset κ) (ps : List (Piece α κ)) : List (Piece α κ) :=
  ps.map (Piece.fill value names)

theorem fill_empty (ps : List (Piece α κ)) : fill value ∅ ps = ps := by
  induction ps with
  | nil => rfl
  | cons p ps ih =>
    rw [fill, List.map_cons, ← fill, ih]
    cases p with
    | plain c => rfl
    | ref k => rw [Piece.fill, if_neg (Finset.notMem_empty k)]
    | done w => rfl

theorem fill_fill (names : Finset κ) (k : κ) (ps : List (Piece α κ)) :
    fill value {k} (fill value names ps) = fill value (insert k names) ps := by
  rw [fill, fill, fill, List.map_map]
  refine List.map_congr_left fun p _ => ?_
  cases p with
  | plain c => rfl
  | ref k' =>
    by_cases h : k' ∈ names
    · simp [Piece.fill, h]
    · simp [Piece.fill, h]
  | done w => rfl

end Pieces

section Search

variable [DecidableEq α] (word : List α)

def Occurs (text : List α) (i : Nat) : Prop := word <+: text.drop i

/-- One pass over the text: each word found is replaced and the search goes on behind it. -/
def replaceAll (value : List α) : List α → List α
  | [] => []
  | c :: cs =>
    if word.isPrefixOf (c :: cs) then value ++ replaceAll value (cs.drop (word.length - 1))
    else c :: replaceAll value cs
termination_by text => text.length
decreasing_by all_goals simp; try omega

/-- Where the pass finds the word. -/
def found (start : Nat) : List α → List Nat
  | [] => []
  | c :: cs =>
    if word.isPrefixOf (c :: cs) then
      start :: found (start + word.length) (cs.drop (word.length - 1))
    else found (start + 1) cs
termination_by text => text.length
decreasing_by all_goals simp; try omega

variable {word}

theorem replaceAll_skip {skipped : List α} (value rest : List α)
    (h : ∀ i < skipped.length, ¬ Occurs word (skipped ++ rest) i) :
    replaceAll word value (skipped ++ rest) = skipped ++ replaceAll word value rest := by
  induction skipped with
  | nil => rfl
  | cons c cs ih =>
    have hhead : ¬ word.isPrefixOf (c :: (cs ++ rest)) := fun hword =>
      h 0 (by simp) (List.isPrefixOf_iff_prefix.mp hword)
    have htail : ∀ i < cs.length, ¬ Occurs word (cs ++ rest) i := fun i hi hoccurs =>
      h (i + 1) (by simpa using hi) hoccurs
    rw [List.cons_append, replaceAll, if_neg hhead, ih htail, List.cons_append]

theorem replaceAll_word (hword : word ≠ []) (value rest : List α) :
    replaceAll word value (word ++ rest) = value ++ replaceAll word value rest := by
  cases word with
  | nil => exact absurd rfl hword
  | cons c cs =>
    have hfound : (c :: cs).isPrefixOf (c :: (cs ++ rest)) :=
      List.isPrefixOf_iff_prefix.mpr (List.prefix_append (c :: cs) rest)
    rw [List.cons_append, replaceAll, if_pos hfound, List.length_cons, Nat.add_sub_cancel,
      List.drop_left]

/-- No occurrence of the word begins inside another one. -/
def Unbordered (word : List α) : Prop :=
  ∀ text i, word <+: text → 0 < i → i < word.length → ¬ Occurs word text i

omit [DecidableEq α] in
theorem unbordered_of_end {body : List α} {close : α} (h : close ∉ body) :
    Unbordered (body ++ [close]) := by
  intro text i hhere hi hlength hthere
  obtain ⟨rest, rfl⟩ := hhere
  have hle : i ≤ body.length := by
    rw [List.length_append, List.length_singleton] at hlength
    omega
  obtain ⟨rest', hrest⟩ := hthere
  simp only [List.append_assoc] at hrest
  rw [List.drop_append_of_le_length hle] at hrest
  -- the end of the first occurrence lies in the body of the second one
  have hat := congrArg (·[body.length - i]?) hrest
  have hlt : body.length - i < body.length := by omega
  rw [List.getElem?_append_left hlt, List.getElem?_append_right (by simp)] at hat
  simp only [List.length_drop, Nat.sub_self, List.singleton_append, List.getElem?_cons_zero] at hat
  exact h (List.mem_of_getElem? hat)

/-- The pass finds every occurrence. -/
theorem mem_found (hword : Unbordered word) (hne : word ≠ []) (start : Nat) (text : List α)
    (p : Nat) : p ∈ found word start text ↔ ∃ i, p = start + i ∧ Occurs word text i := by
  have hpos := List.length_pos_iff.mpr hne
  induction start, text using found.induct word with
  | case1 start =>
    simp [found, Occurs, hne]
  | case2 start c cs hhere ih =>
    have hpre := List.isPrefixOf_iff_prefix.mp hhere
    have hdrop : ∀ i, (cs.drop (word.length - 1)).drop i = (c :: cs).drop (word.length + i) := by
      intro i
      rw [List.drop_drop, show word.length + i = (word.length - 1 + i) + 1 by omega,
        List.drop_succ_cons]
    rw [found, if_pos hhere, List.mem_cons]
    refine (or_congr Iff.rfl ih).trans ?_
    constructor
    · rintro (rfl | ⟨i, rfl, hi⟩)
      · exact ⟨0, rfl, hpre⟩
      · refine ⟨word.length + i, by omega, ?_⟩
        rw [Occurs, ← hdrop]
        exact hi
    · rintro ⟨i, rfl, hi⟩
      by_cases hzero : i = 0
      · exact .inl (by omega)
      · have hbehind : word.length ≤ i := by
          by_contra hinside
          exact hword _ i hpre (by omega) (by omega) hi
        refine .inr ⟨i - word.length, by omega, ?_⟩
        rw [Occurs, hdrop, show word.length + (i - word.length) = i by omega]
        exact hi
  | case3 start c cs hhere ih =>
    rw [found, if_neg hhere]
    refine ih.trans ?_
    constructor
    · rintro ⟨i, rfl, hi⟩
      exact ⟨i + 1, by omega, hi⟩
    · rintro ⟨i, rfl, hi⟩
      cases i with
      | zero => exact absurd (List.isPrefixOf_iff_prefix.mpr hi) hhere
      | succ i => exact ⟨i, by omega, hi⟩

end Search

section Passes

variable [DecidableEq α] [DecidableEq κ] (word value : κ → List α)

/-- One pass for each name. -/
def replaceEach (names : List κ) (text : List α) : List α :=
  names.foldl (fun text k => replaceAll (word k) (value k) text) text

omit [DecidableEq κ] in
theorem replaceEach_append (names : List κ) (k : κ) (text : List α) :
    replaceEach word value (names ++ [k]) text =
      replaceAll (word k) (value k) (replaceEach word value names text) := by
  rw [replaceEach, List.foldl_append, ← replaceEach]
  rfl

/-- The text holds the word of the name where a reference to it stands, and nowhere else. -/
def Alone (k : κ) (ps : List (Piece α κ)) : Prop :=
  ∀ i, Occurs (word k) (spell word ps) i → RefAt word k ps i

/-- The passes in this order find the references only, and after each of them the text is the one
where the references of the names so far have been replaced at once. -/
structure AtOnce (order : List κ) (ps : List (Piece α κ)) : Prop where
  replaced : ∀ names, names <+: order →
    replaceEach word value names (spell word ps) = spell word (fill value names.toFinset ps)
  refs : ∀ names k, names ++ [k] <+: order →
    ∀ i ∈ found (word k) 0 (replaceEach word value names (spell word ps)),
      RefAt word k (fill value names.toFinset ps) i

/-- However many of the references have been replaced, each other name is found at its
references only. -/
def Apart (names : Finset κ) (ps : List (Piece α κ)) : Prop :=
  ∀ chosen ⊆ names, ∀ k ∈ names, k ∉ chosen → Alone word k (fill value chosen ps)

variable {word value} {k : κ} {ps : List (Piece α κ)}

omit [DecidableEq α] [DecidableEq κ] in
theorem RefAt.tail {p : Piece α κ} {i : Nat} (h : RefAt word k (p :: ps) i) :
    (p = .ref k ∧ i = 0) ∨ ∃ j, i = (p.spell word).length + j ∧ RefAt word k ps j := by
  obtain ⟨before, after, heq, rfl⟩ := h
  cases before with
  | nil =>
    rw [List.nil_append, List.cons.injEq] at heq
    exact .inl ⟨heq.1, rfl⟩
  | cons q before =>
    rw [List.cons_append, List.cons.injEq] at heq
    obtain ⟨rfl, rfl⟩ := heq
    refine .inr ⟨_, ?_, before, after, rfl, rfl⟩
    rw [spell_cons, List.length_append]

variable (hne : ∀ k, word k ≠ [])
include hne

omit [DecidableEq α] [DecidableEq κ] in
theorem Alone.tail {p : Piece α κ} (h : Alone word k (p :: ps)) : Alone word k ps := by
  intro i hi
  have hbehind : Occurs (word k) (spell word (p :: ps)) ((p.spell word).length + i) := by
    rw [Occurs, spell_cons, List.drop_append, List.drop_of_length_le (Nat.le_add_right _ _),
      List.nil_append, Nat.add_sub_cancel_left]
    exact hi
  rcases (h _ hbehind).tail with ⟨rfl, hzero⟩ | ⟨j, hj, href⟩
  · have := List.length_pos_iff.mpr (hne k)
    rw [Piece.spell] at hzero
    omega
  · rwa [show i = j by omega]

/-- One pass replaces exactly the references to its name. -/
theorem Alone.replaceAll (h : Alone word k ps) :
    replaceAll (word k) (value k) (spell word ps) = spell word (fill value {k} ps) := by
  induction ps with
  | nil => simp [TextSubstitution.replaceAll, fill]
  | cons p ps ih =>
    have htail := ih (h.tail hne)
    rw [fill, List.map_cons, ← fill, spell_cons, spell_cons]
    by_cases href : p = .ref k
    · rw [href, Piece.spell, replaceAll_word (hne k), htail]
      simp [Piece.fill, Piece.spell]
    · have hother : ∀ i < (p.spell word).length,
          ¬ Occurs (word k) (p.spell word ++ spell word ps) i := by
        intro i hi hoccurs
        rw [← spell_cons] at hoccurs
        rcases (h i hoccurs).tail with ⟨heq, _⟩ | ⟨j, hj, _⟩
        · exact href heq
        · omega
      rw [replaceAll_skip _ _ hother, htail]
      cases p with
      | plain c => rfl
      | ref k' =>
        have hk : k' ∉ ({k} : Finset κ) := fun hk => href (by rw [Finset.mem_singleton.mp hk])
        rw [Piece.fill, if_neg hk]
      | done w => rfl

/-- The passes one after the other, under what each of them needs. -/
theorem replaceEach_eq (order : List κ)
    (h : ∀ names k, names ++ [k] <+: order → Alone word k (fill value names.toFinset ps)) :
    replaceEach word value order (spell word ps) = spell word (fill value order.toFinset ps) := by
  induction order using List.reverseRecOn with
  | nil => rw [List.toFinset_nil, fill_empty]; rfl
  | append_singleton names k ih =>
    have hnames := ih fun names' k' hpre => h names' k' (hpre.trans (List.prefix_append _ _))
    have hset : (names ++ [k]).toFinset = insert k names.toFinset := by
      ext k'
      simp
    rw [replaceEach_append, hnames, (h names k List.prefix_rfl).replaceAll hne, fill_fill, hset]

variable (hunbordered : ∀ k, Unbordered (word k))
include hunbordered

omit [DecidableEq κ] in
theorem mem_found_iff (text : List α) (i : Nat) :
    i ∈ found (word k) 0 text ↔ Occurs (word k) text i := by
  rw [mem_found (hunbordered k) (hne k)]
  simp

/-- The result is that of one simultaneous substitution in every order, with nothing found but
the references, exactly when no replacement ever completes the word of another name. -/
theorem atOnce_iff (names : Finset κ) :
    (∀ order : List κ, order.Nodup → order.toFinset = names → AtOnce word value order ps) ↔
      Apart word value names ps := by
  constructor
  · intro h chosen hchosen k hk hfresh
    have hkrest : k ∉ names \ insert k chosen := fun hk' =>
      (Finset.mem_sdiff.mp hk').2 (Finset.mem_insert_self k chosen)
    have hdisjoint : ∀ a ∈ chosen, a ∉ names \ insert k chosen := fun a ha ha' =>
      (Finset.mem_sdiff.mp ha').2 (Finset.mem_insert_of_mem ha)
    -- the chosen names first, then `k`, then the others
    let order := chosen.toList ++ k :: (names \ insert k chosen).toList
    have hnodup : order.Nodup := by
      refine List.nodup_append'.mpr ⟨chosen.nodup_toList,
        List.nodup_cons.mpr ⟨fun h => hkrest (Finset.mem_toList.mp h), Finset.nodup_toList _⟩, ?_⟩
      intro a ha ha'
      rw [Finset.mem_toList] at ha
      rcases List.mem_cons.mp ha' with rfl | ha'
      · exact hfresh ha
      · exact hdisjoint a ha (Finset.mem_toList.mp ha')
    have hset : order.toFinset = names := by
      ext a
      simp only [order, List.toFinset_append, List.toFinset_cons, Finset.toList_toFinset,
        Finset.mem_union, Finset.mem_insert, Finset.mem_sdiff]
      grind
    have hrun := h order hnodup hset
    have hpre : chosen.toList ++ [k] <+: order := 
      ⟨(names \ insert k chosen).toList, by simp [order]⟩
    have hfirst := hrun.replaced chosen.toList ((List.prefix_append _ _).trans hpre)
    have hrefs := hrun.refs chosen.toList k hpre
    rw [hfirst, Finset.toList_toFinset] at hrefs
    exact fun i hi => hrefs i ((mem_found_iff hne hunbordered _ i).mpr hi)
  · intro h order hnodup hset
    have halone : ∀ names' k', names' ++ [k'] <+: order →
        Alone word k' (fill value names'.toFinset ps) := by
      intro names' k' hpre
      have hsub : (names' ++ [k']).toFinset ⊆ names := by
        rw [← hset]
        exact fun a ha => List.mem_toFinset.mpr (hpre.subset (List.mem_toFinset.mp ha))
      have hfresh : k' ∉ names' := by
        have := hpre.sublist.nodup hnodup
        grind
      refine h _ (fun a ha => hsub ?_) k' (hsub (by simp)) (by simpa using hfresh)
      simp only [List.mem_toFinset] at ha ⊢
      exact List.mem_append_left _ ha
    have hreplaced : ∀ names', names' <+: order →
        replaceEach word value names' (spell word ps) =
          spell word (fill value names'.toFinset ps) := fun names' hpre =>
      replaceEach_eq hne names' fun names'' k' hpre' =>
        halone names'' k' (hpre'.trans hpre)
    refine ⟨hreplaced, fun names' k' hpre i hi => ?_⟩
    rw [hreplaced names' ((List.prefix_append _ _).trans hpre)] at hi
    exact halone names' k' hpre i ((mem_found_iff hne hunbordered _ i).mp hi)

end Passes

end VeloxHash.TextSubstitution
