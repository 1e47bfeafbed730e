import VeloxHash.ThreadProfiles
import Mathlib.Data.List.TakeWhile

/-! Thread profiles that are saved and read again. An alias without its profile comes back as a
disabled algorithm, which has no threads either. -/

namespace VeloxHash.Threads

section Names

variable {a b c : String}

theorem nameLess_iff : nameLess a b = true ↔ a ≠ "" ∧ b ≠ "" ∧ a < b := by
  rw [nameLess, decide_eq_true_eq]

theorem nameLess_trans (hab : nameLess a b = true) (hbc : nameLess b c = true) :
    nameLess a c = true := by
  rw [nameLess_iff] at hab hbc ⊢
  exact ⟨hab.1, hbc.2.1, hab.2.2.trans hbc.2.2⟩

/-- The names that a map takes for one. -/
def Alike (a b : String) : Prop := a = "" ∨ b = "" ∨ a = b

theorem alike_iff : Alike a b ↔ nameLess a b = false ∧ nameLess b a = false := by
  rw [Bool.eq_false_iff, Bool.eq_false_iff, Ne, Ne, nameLess_iff, nameLess_iff]
  unfold Alike
  constructor
  · rintro (rfl | rfl | rfl)
    · exact ⟨fun h => h.1 rfl, fun h => h.2.1 rfl⟩
    · exact ⟨fun h => h.2.1 rfl, fun h => h.1 rfl⟩
    · exact ⟨fun h => lt_irrefl _ h.2.2, fun h => lt_irrefl _ h.2.2⟩
  · rintro ⟨hab, hba⟩
    by_cases ha : a = ""
    · exact .inl ha
    by_cases hb : b = ""
    · exact .inr (.inl hb)
    refine .inr (.inr (le_antisymm ?_ ?_))
    · exact not_lt.mp fun h => hba ⟨hb, ha, h⟩
    · exact not_lt.mp fun h => hab ⟨ha, hb, h⟩

end Names

/-- The names of the profiles are in order, which leaves an empty one alone. -/
def Sorted (l : List (String × CpuThreads)) : Prop :=
  l.Pairwise fun a b => nameLess a.1 b.1 = true

section Lookup

variable {t : Threads} {name : String} {threads : CpuThreads}

/-- The profiles before the lower bound, and those from it on. -/
theorem lowerBound_spec (hsorted : Sorted t.profiles) (name : String) :
    ∃ before, t.profiles.takeWhile (fun e => nameLess e.1 name) = before ∧
      t.profiles = before ++ t.lowerBound name ∧ (∀ e ∈ before, nameLess e.1 name = true) ∧
        ∀ f rest, t.lowerBound name = f :: rest →
          nameLess f.1 name = false ∧ ∀ e ∈ rest, nameLess f.1 e.1 = true := by
  have hsplit := List.takeWhile_append_dropWhile (p := fun e => nameLess e.1 name) (l := t.profiles)
  refine ⟨_, rfl, hsplit.symm, fun e he => ?_, fun f rest hbound => ?_⟩
  · exact List.mem_takeWhile_imp (p := fun e : String × CpuThreads => nameLess e.1 name) he
  unfold Sorted at hsorted
  rw [← hsplit, List.pairwise_append] at hsorted
  have hright := hsorted.2.1
  have hhead := List.head?_dropWhile_not (fun e : String × CpuThreads => nameLess e.1 name)
    t.profiles
  unfold lowerBound at hbound
  rw [hbound] at hhead hright
  exact ⟨by simpa using hhead, (List.pairwise_cons.mp hright).1⟩

theorem has_iff (hsorted : Sorted t.profiles) :
    t.has name = true ↔ ∃ e ∈ t.profiles, Alike e.1 name := by
  obtain ⟨before, -, hsplit, hbefore, hbound⟩ := lowerBound_spec hsorted name
  have hearly (e) (he : e ∈ before) : ¬ Alike e.1 name := fun halike =>
    absurd ((hbefore e he).symm.trans (alike_iff.mp halike).1) (by decide)
  unfold has find?
  cases hlower : t.lowerBound name with
  | nil =>
    refine iff_of_false Bool.false_ne_true fun ⟨e, he, halike⟩ => hearly e ?_ halike
    rw [hsplit, hlower, List.append_nil] at he
    exact he
  | cons f rest =>
    obtain ⟨hf, hrest⟩ := hbound f rest hlower
    have hmem : f ∈ t.profiles := by
      rw [hsplit, hlower]
      exact List.mem_append_right _ List.mem_cons_self
    dsimp only
    cases hname : nameLess name f.1 with
    | false => exact iff_of_true rfl ⟨f, hmem, alike_iff.mpr ⟨hf, hname⟩⟩
    | true =>
      refine iff_of_false Bool.false_ne_true fun ⟨e, he, halike⟩ => ?_
      have hlater := (alike_iff.mp halike).2
      rw [hsplit, hlower, List.mem_append, List.mem_cons] at he
      rcases he with he | rfl | he
      · exact hearly e he halike
      · exact absurd (hname.symm.trans hlater) (by decide)
      · exact absurd ((nameLess_trans hname (hrest e he)).symm.trans hlater) (by decide)

/-- A profile that is new stands in its place. -/
theorem sorted_insert (hsorted : Sorted t.profiles) (hnew : t.has name = false) :
    Sorted ((t.profiles.takeWhile fun e => nameLess e.1 name) ++
      (name, threads) :: t.lowerBound name) := by
  have hnone (e) (he : e ∈ t.profiles) : ¬ Alike e.1 name := fun halike =>
    absurd (((has_iff hsorted).mpr ⟨e, he, halike⟩).symm.trans hnew) (by decide)
  obtain ⟨before, htake, hsplit, hbefore, hbound⟩ := lowerBound_spec hsorted name
  have hparts := hsorted
  unfold Sorted at hparts
  rw [hsplit, List.pairwise_append] at hparts
  obtain ⟨hleft, hright, hcross⟩ := hparts
  have hafter (e) (he : e ∈ t.lowerBound name) : nameLess name e.1 = true := by
    cases hlower : t.lowerBound name with
    | nil =>
      rw [hlower] at he
      exact absurd he List.not_mem_nil
    | cons f rest =>
      obtain ⟨hf, hrest⟩ := hbound f rest hlower
      have hmem : f ∈ t.profiles := by
        rw [hsplit, hlower]
        exact List.mem_append_right _ List.mem_cons_self
      have hname : nameLess name f.1 = true := Bool.eq_true_of_not_eq_false fun h =>
        hnone f hmem (alike_iff.mpr ⟨hf, h⟩)
      rw [hlower, List.mem_cons] at he
      rcases he with rfl | he
      · exact hname
      · exact nameLess_trans hname (hrest e he)
  rw [htake]
  refine List.pairwise_append.mpr ⟨hleft, List.pairwise_cons.mpr ⟨hafter, hright⟩, ?_⟩
  intro e he f hf
  rcases List.mem_cons.mp hf with rfl | hf
  · exact hbefore e he
  · exact hcross e he f hf

/-- What `move` makes of the profiles. -/
theorem mem_move {e : String × CpuThreads} (he : e ∈ (t.move name threads).profiles) :
    e ∈ t.profiles ∨ e = (name, threads) ∧ threads.isEmpty = false := by
  unfold move at he
  split at he
  · exact .inl he
  split at he
  · exact .inl he
  next hthreads =>
    rw [List.mem_append, List.mem_cons] at he
    rcases he with he | rfl | he
    · exact .inl ((List.takeWhile_sublist _).subset he)
    · exact .inr ⟨rfl, Bool.eq_false_iff.mpr hthreads⟩
    · exact .inl ((List.dropWhile_sublist _).subset he)

theorem mem_move_of_mem {e : String × CpuThreads} (he : e ∈ t.profiles) :
    e ∈ (t.move name threads).profiles := by
  unfold move
  split
  · exact he
  split
  · exact he
  · dsimp only
    rw [← List.takeWhile_append_dropWhile (p := fun e => nameLess e.1 name) (l := t.profiles),
      List.mem_append] at he
    rw [List.mem_append, List.mem_cons]
    exact he.imp_right .inr

theorem sorted_move (hsorted : Sorted t.profiles) : Sorted (t.move name threads).profiles := by
  unfold move
  split
  · exact hsorted
  next hnew =>
    split
    · exact hsorted
    · exact sorted_insert hsorted (Bool.eq_false_iff.mpr hnew)

theorem has_move (hsorted : Sorted t.profiles) {other : String} (h : t.has other = true) :
    (t.move name threads).has other = true := by
  obtain ⟨e, he, halike⟩ := (has_iff hsorted).mp h
  exact (has_iff (sorted_move hsorted)).mpr ⟨e, mem_move_of_mem he, halike⟩

/-- A name of its own is not found by another one. -/
theorem not_has_move (hsorted : Sorted t.profiles) {other : String} (h : t.has other = false)
    (hname : ¬ Alike name other) : (t.move name threads).has other = false := by
  refine Bool.eq_false_iff.mpr fun hhas => ?_
  obtain ⟨e, he, halike⟩ := (has_iff (sorted_move hsorted)).mp hhas
  rcases mem_move he with he | ⟨rfl, -⟩
  · exact absurd (((has_iff hsorted).mpr ⟨e, he, halike⟩).symm.trans h) (by decide)
  · exact hname halike

end Lookup

section Sound

variable {t : Threads} {name : String} {threads : CpuThreads} {a : Algorithm}

@[simp] theorem cString_cString (s : String) : cString (cString s) = cString s := by
  unfold cString
  rw [String.toList_ofList, List.takeWhile_idem]

/-- Profiles are read back as they are, settings are found by their names, and an alias that has
no profile is that of RandomARQ, for which there is no other one. -/
structure Sound (t : Threads) : Prop where
  sorted : Sorted t.profiles
  profiles : ∀ e ∈ t.profiles, e.2.Storable ∧ e.2.isEmpty = false ∧ cString e.1 = e.1
  disabled : ∀ a, t.disabled a = true → a.isNamed = true
  aliases : ∀ a p, t.aliases a = some p → a.isNamed = true ∧ cString p = p ∧
    (t.has p = true ∨ a = .rxArq ∧ t.has "rx/arq" = false)

theorem Sound.empty : Sound {} where
  sorted := .nil
  profiles := fun _ he => absurd he List.not_mem_nil
  disabled := fun _ h => absurd h Bool.false_ne_true
  aliases := fun _ _ h => nomatch h

theorem move_settings (t : Threads) (name : String) (threads : CpuThreads) :
    (t.move name threads).disabled = t.disabled ∧ (t.move name threads).aliases = t.aliases := by
  unfold move
  split
  · exact ⟨rfl, rfl⟩
  · split <;> exact ⟨rfl, rfl⟩

theorem Sound.move (h : Sound t) (hname : cString name = name) (hthreads : threads.Storable)
    (harq : t.aliases .rxArq = none ∨ ¬ Alike name "rx/arq") : Sound (t.move name threads) := by
  obtain ⟨hdisabled, haliases⟩ := move_settings t name threads
  refine ⟨sorted_move h.sorted, fun e he => ?_, fun a ha => ?_, fun a p hp => ?_⟩
  · rcases mem_move he with he | ⟨rfl, hsome⟩
    · exact h.profiles e he
    · exact ⟨hthreads, hsome, hname⟩
  · rw [hdisabled] at ha
    exact h.disabled a ha
  · rw [haliases] at hp
    obtain ⟨hnamed, hcut, hfound⟩ := h.aliases a p hp
    refine ⟨hnamed, hcut, ?_⟩
    rcases hfound with hhas | ⟨rfl, hnone⟩
    · exact .inl (has_move h.sorted hhas)
    · rcases harq with harq | hother
      · rw [harq] at hp
        cases hp
      · exact .inr ⟨rfl, not_has_move h.sorted hnone hother⟩

theorem Sound.disable (h : Sound t) (ha : a.isNamed = true) : Sound (t.disable a) := by
  refine ⟨h.sorted, h.profiles, fun b hb => ?_, h.aliases⟩
  by_cases heq : b = a
  · exact heq ▸ ha
  · refine h.disabled b ?_
    unfold Threads.disable at hb
    dsimp only at hb
    rwa [Function.update_of_ne heq] at hb

theorem Sound.setAlias (h : Sound t) (ha : a.isNamed = true) (hname : cString name = name)
    (hfound : t.has name = true ∨ a = .rxArq ∧ t.has "rx/arq" = false) :
    Sound (t.setAlias a name) := by
  refine ⟨h.sorted, h.profiles, h.disabled, fun b p hp => ?_⟩
  unfold Threads.setAlias at hp
  dsimp only at hp
  by_cases heq : b = a
  · subst heq
    rw [Function.update_self] at hp
    obtain rfl := Option.some.inj hp
    exact ⟨ha, hname, hfound⟩
  · rw [Function.update_of_ne heq] at hp
    exact h.aliases b p hp

theorem Sound.readProfile (h : Sound t) (hnone : t.aliases .rxArq = none)
    (member : String × Json) :
    Sound (t.readProfile member) ∧ (t.readProfile member).aliases .rxArq = none := by
  unfold Threads.readProfile
  have hread : Sound (if (CpuThreads.ofJSON member.2).isEmpty then t else
        t.move (cString member.1) (CpuThreads.ofJSON member.2)) ∧
      (if (CpuThreads.ofJSON member.2).isEmpty then t else
        t.move (cString member.1) (CpuThreads.ofJSON member.2)).aliases .rxArq = none := by
    split
    · exact ⟨h, hnone⟩
    · refine ⟨h.move (cString_cString _) (CpuThreads.storable_ofJSON _) (.inl hnone), ?_⟩
      rw [(move_settings ..).2, hnone]
  split
  · exact hread
  · exact hread
  · exact ⟨h, hnone⟩

theorem Sound.readSetting (h : Sound t) (member : String × Json) :
    Sound (t.readSetting member) := by
  unfold Threads.readSetting
  dsimp only
  split
  · exact h
  · exact h
  · split
    next ha => exact h.disable (Algorithm.isNamed_parse ha)
    next => exact h
  · split
    · exact h
    next ha =>
      rw [Bool.not_eq_true', Bool.not_eq_false] at ha
      split
      next hhas =>
        split
        · exact h
        · exact h.setAlias (Algorithm.isNamed_parse ha) (cString_cString _) (.inl hhas)
      next => exact h.disable (Algorithm.isNamed_parse ha)
  · exact h

theorem Sound.read (members : List (String × Json)) : Sound (({} : Threads).read members) := by
  have hfirst : Sound (members.foldl Threads.readProfile {}) := by
    have hkept : Sound (members.foldl Threads.readProfile {}) ∧
        (members.foldl Threads.readProfile {}).aliases .rxArq = none :=
      List.foldlRecOn members Threads.readProfile
        (motive := fun t => Sound t ∧ t.aliases .rxArq = none) ⟨.empty, rfl⟩
        fun t h member _ => h.1.readProfile h.2 member
    exact hkept.1
  exact List.foldlRecOn members Threads.readSetting (motive := Sound) hfirst
    fun t h member _ => h.readSetting member

theorem not_isExist (h : ¬ t.isExist a = true) : t.aliases a = none ∧ t.has a.nameText = false := by
  rw [isExist, Bool.or_eq_true, Bool.or_eq_true, not_or, not_or, Option.not_isSome_iff_eq_none,
    Bool.not_eq_true (t.has a.nameText)] at h
  exact ⟨h.1.2, h.2⟩

/-- A call of `generate` under its test. -/
theorem Sound.apply (h : Sound t) (call : Call) : Sound (t.apply call) := by
  have hkeys : ∀ key ∈ generatedKeys, cString key = key ∧ ¬ Alike key "rx/arq" := by
    unfold Alike
    decide +kernel
  cases call with
  | profile key a threads hkey =>
    change Sound (if _ then _ else _)
    split
    · exact h
    · exact h.move (hkeys key hkey).1 (.array threads.valid) (.inr (hkeys key hkey).2)
  | move a threads ha =>
    change Sound (if _ then _ else _)
    split
    · exact h
    next hexist =>
      have hstore : CpuThreads.Storable { data := threads.data } := .array threads.valid
      rcases ha with rfl | rfl
      · exact h.move (by decide +kernel) hstore (.inl (not_isExist hexist).1)
      · exact h.move (by decide +kernel) hstore (.inr (by unfold Alike; decide))
  | disable a ha =>
    change Sound (if _ then _ else _)
    split
    · exact h
    · rcases ha with rfl | rfl
      · exact h.disable (by decide)
      · exact h.disable (by decide)
  | setAlias =>
    change Sound (if _ then _ else _)
    split
    · exact h
    next hexist =>
      exact h.setAlias (by decide) (by decide +kernel) (.inr ⟨rfl, (not_isExist hexist).2⟩)

theorem Sound.applyAll (h : Sound t) (calls : List Call) : Sound (t.applyAll calls) :=
  List.foldlRecOn calls Threads.apply (motive := Sound) h fun _ h call _ => h.apply call

end Sound

section RoundTrip

variable {t : Threads} {a : Algorithm}

theorem readProfile_toJSON (t : Threads) (name : String) (threads : CpuThreads) :
    t.readProfile (name, threads.toJSON) =
      if (CpuThreads.ofJSON threads.toJSON).isEmpty then t
      else t.move (cString name) (CpuThreads.ofJSON threads.toJSON) := by
  unfold readProfile
  dsimp only
  rcases threads.toJSON_isProfile with h | ⟨l, h⟩
  · cases hjson : threads.toJSON with
    | object members => rfl
    | _ => simp [hjson, Json.isObject] at h
  · rw [h]

/-- A profile that comes after all others is put behind them. -/
theorem readProfile_last {l rest : List (String × CpuThreads)} {e : String × CpuThreads}
    (hsorted : Sorted (l ++ e :: rest)) (hstore : e.2.Storable) (hsome : e.2.isEmpty = false)
    (hname : cString e.1 = e.1) :
    ({ profiles := l } : Threads).readProfile (e.1, e.2.toJSON) = { profiles := l ++ [e] } := by
  obtain ⟨hleft, -, hcross⟩ := List.pairwise_append.mp hsorted
  have hbefore (f) (hf : f ∈ l) : nameLess f.1 e.1 = true := hcross f hf e List.mem_cons_self
  have hnew : ¬ ({ profiles := l } : Threads).has e.1 = true := by
    rw [has_iff (t := { profiles := l }) hleft]
    rintro ⟨f, hf, halike⟩
    exact absurd ((hbefore f hf).symm.trans (alike_iff.mp halike).1) (by decide)
  rw [readProfile_toJSON, CpuThreads.ofJSON_toJSON hstore, hname, hsome,
    if_neg Bool.false_ne_true, move, if_neg hnew, hsome, if_neg Bool.false_ne_true]
  have htake : l.takeWhile (fun f => nameLess f.1 e.1) = l := List.takeWhile_eq_self_iff.mpr hbefore
  have hdrop : ({ profiles := l } : Threads).lowerBound e.1 = [] :=
    List.dropWhile_eq_nil_iff.mpr hbefore
  dsimp only
  rw [htake, hdrop]

theorem foldl_readProfile {l rest : List (String × CpuThreads)} (hsorted : Sorted (l ++ rest))
    (hstore : ∀ e ∈ rest, e.2.Storable ∧ e.2.isEmpty = false ∧ cString e.1 = e.1) :
    (rest.map fun e => (e.1, e.2.toJSON)).foldl readProfile { profiles := l } =
      { profiles := l ++ rest } := by
  induction rest generalizing l with
  | nil => rw [List.append_nil]; rfl
  | cons e rest ih =>
    obtain ⟨hthis, hrest⟩ := List.forall_mem_cons.mp hstore
    rw [List.map_cons, List.foldl_cons, readProfile_last hsorted hthis.1 hthis.2.1 hthis.2.2]
    have happend : l ++ e :: rest = (l ++ [e]) ++ rest := by rw [List.append_assoc]; rfl
    rw [happend] at hsorted ⊢
    exact ih hsorted hrest

/-- Members that one of the loops passes over. -/
theorem foldl_skip {step : Threads → String × Json → Threads} {members : List (String × Json)}
    (h : ∀ t, ∀ m ∈ members, step t m = t) (t : Threads) : members.foldl step t = t := by
  induction members generalizing t with
  | nil => rfl
  | cons m members ih =>
    obtain ⟨hthis, hrest⟩ : step t m = t ∧ ∀ t, ∀ m ∈ members, step t m = t :=
      ⟨h t m List.mem_cons_self, fun t m hm => h t m (List.mem_cons_of_mem _ hm)⟩
    rw [List.foldl_cons, hthis]
    exact ih hrest t

theorem readSetting_profile (t : Threads) (name : String) (threads : CpuThreads) :
    t.readSetting (name, threads.toJSON) = t := by
  unfold readSetting
  dsimp only
  rcases threads.toJSON_isProfile with h | ⟨l, h⟩
  · cases hjson : threads.toJSON with
    | object members => rfl
    | _ => simp [hjson, Json.isObject] at h
  · rw [h]

theorem cString_nameText (a : Algorithm) : cString a.nameText = a.nameText := by
  have hall : ∀ a ∈ Algorithm.byId, cString a.nameText = a.nameText := by decide +kernel
  exact hall a (Algorithm.mem_byId a)

theorem isValid_of_isNamed (h : a.isNamed = true) : a.isValid = true := by
  revert h
  cases a <;> decide

theorem readSetting_false (ha : a.isNamed = true) (t : Threads) :
    t.readSetting (a.nameText, .bool false) = t.disable a := by
  unfold readSetting
  dsimp only
  rw [cString_nameText, Algorithm.parse_nameText ha, if_pos (isValid_of_isNamed ha)]

theorem readSetting_string (ha : a.isNamed = true) {p : String} (hp : cString p = p)
    (t : Threads) : t.readSetting (a.nameText, .string p) =
      if t.has p then if (t.aliases a).isSome then t else t.setAlias a p else t.disable a := by
  unfold readSetting
  dsimp only
  rw [cString_nameText, Algorithm.parse_nameText ha, hp, if_neg]
  rw [isValid_of_isNamed ha]
  decide

theorem foldl_disable {as : List Algorithm} (has : ∀ a ∈ as, a.isNamed = true) (t : Threads) :
    ((as.map fun a => (a.nameText, Json.bool false)).foldl readSetting t) =
      { t with disabled := fun a => t.disabled a || as.contains a } := by
  induction as generalizing t with
  | nil => simp
  | cons b as ih =>
    obtain ⟨hthis, hrest⟩ := List.forall_mem_cons.mp has
    rw [List.map_cons, List.foldl_cons, readSetting_false hthis, ih hrest]
    congr 1
    funext a
    unfold disable
    dsimp only
    by_cases heq : a = b
    · subst heq
      simp
    · rw [Function.update_of_ne heq, List.contains_cons, beq_false_of_ne heq, Bool.false_or]

/-- An alias comes back if its profile is there, and else its algorithm is disabled. -/
theorem foldl_alias {as : List Algorithm} {aliases : Algorithm → Option String}
    (has : ∀ a p, aliases a = some p → a.isNamed = true ∧ cString p = p) (hnodup : as.Nodup)
    (t : Threads) (hnew : ∀ a ∈ as, t.aliases a = none) :
    (as.filterMap fun a => (aliases a).map fun p => (a.nameText, Json.string p)).foldl readSetting t =
      { t with
        disabled := fun a => t.disabled a || (as.contains a && (aliases a).any (!t.has ·))
        aliases := fun a => if a ∈ as then (aliases a).filter t.has else t.aliases a } := by
  induction as generalizing t with
  | nil => simp
  | cons b as ih =>
    obtain ⟨hb, hnodup⟩ := List.nodup_cons.mp hnodup
    obtain ⟨hnone, hnew⟩ := List.forall_mem_cons.mp hnew
    cases halias : aliases b with
    | none =>
      rw [List.filterMap_cons_none (by rw [halias]; rfl), ih hnodup t hnew]
      congr 1
      · funext a
        by_cases heq : a = b
        · subst heq
          simp [halias]
        · simp [heq]
      · funext a
        by_cases heq : a = b
        · subst heq
          simp [halias, hb, hnone]
        · simp [heq]
    | some p =>
      obtain ⟨hnamed, hp⟩ := has b p halias
      rw [List.filterMap_cons_some (by rw [halias]; rfl), List.foldl_cons,
        readSetting_string hnamed hp, hnone]
      cases hfound : t.has p with
      | true =>
        have hkeep : ∀ a ∈ as, (t.setAlias b p).aliases a = none := fun a ha => by
          have hne : a ≠ b := fun heq => hb (heq ▸ ha)
          exact (Function.update_of_ne hne ..).trans (hnew a ha)
        rw [if_pos rfl, if_neg (by decide), ih hnodup _ hkeep]
        have hhas : (t.setAlias b p).has = t.has := rfl
        rw [hhas]
        unfold setAlias
        dsimp only
        congr 1
        · funext a
          by_cases heq : a = b
          · subst heq
            simp [halias, hfound, hb]
          · simp [heq]
        · funext a
          by_cases heq : a = b
          · subst heq
            simp [halias, hfound, hb, Option.filter_some]
          · simp [heq]
      | false =>
        rw [if_neg Bool.false_ne_true, ih hnodup (t.disable b) hnew]
        have hhas : (t.disable b).has = t.has := rfl
        rw [hhas]
        unfold disable
        dsimp only
        congr 1
        · funext a
          by_cases heq : a = b
          · subst heq
            simp [halias, hfound, hb]
          · simp [heq]
        · funext a
          by_cases heq : a = b
          · subst heq
            simp [halias, hfound, hb, hnone, Option.filter_some]
          · simp [heq]

/-- What is read of a configuration that is saved. -/
theorem read_toJSON (h : Sound t) : ({} : Threads).read t.toJSON =
    { profiles := t.profiles
      disabled := fun a => t.disabled a || (t.aliases a).any (!t.has ·)
      aliases := fun a => (t.aliases a).filter t.has } := by
  unfold read toJSON
  have hsetting : ∀ m ∈ (Algorithm.byId.filter t.disabled).map (fun a => (a.nameText, Json.bool false)),
      ∀ u : Threads, u.readProfile m = u := by
    intro m hm u
    obtain ⟨a, -, rfl⟩ := List.mem_map.mp hm
    rfl
  have halias : ∀ m ∈ Algorithm.byId.filterMap
      (fun a => (t.aliases a).map fun p => (a.nameText, Json.string p)),
      ∀ u : Threads, u.readProfile m = u := by
    intro m hm u
    obtain ⟨a, -, hsome⟩ := List.mem_filterMap.mp hm
    obtain ⟨p, -, rfl⟩ := Option.map_eq_some_iff.mp hsome
    rfl
  have hprofile : ∀ m ∈ t.profiles.map (fun e => (e.1, e.2.toJSON)),
      ∀ u : Threads, u.readSetting m = u := by
    intro m hm u
    obtain ⟨e, -, rfl⟩ := List.mem_map.mp hm
    exact readSetting_profile u e.1 e.2
  have hstored : (t.profiles.map fun e => (e.1, e.2.toJSON)).foldl readProfile {} =
      { profiles := [] ++ t.profiles } := foldl_readProfile h.sorted h.profiles
  have hfirst : (t.profiles.map (fun e => (e.1, e.2.toJSON)) ++
      (Algorithm.byId.filter t.disabled).map (fun a => (a.nameText, Json.bool false)) ++
        Algorithm.byId.filterMap fun a => (t.aliases a).map fun p =>
          (a.nameText, Json.string p)).foldl readProfile {} = { profiles := t.profiles } := by
    rw [List.foldl_append, List.foldl_append, hstored, List.nil_append,
      foldl_skip fun u m hm => hsetting m hm u, foldl_skip fun u m hm => halias m hm u]
  rw [hfirst, List.foldl_append, List.foldl_append, foldl_skip fun u m hm => hprofile m hm u,
    foldl_disable fun a ha => h.disabled a (List.mem_filter.mp ha).2]
  have hnodup : Algorithm.byId.Nodup := by decide
  rw [foldl_alias (fun a p hp => ⟨(h.aliases a p hp).1, (h.aliases a p hp).2.1⟩) hnodup _
    fun _ _ => rfl]
  have hhas : ({ profiles := t.profiles, disabled := fun a => false ||
      (Algorithm.byId.filter t.disabled).contains a } : Threads).has = t.has := rfl
  rw [hhas]
  congr 1
  · funext a
    have hmem := Algorithm.mem_byId a
    cases hdisabled : t.disabled a <;> simp [hmem, hdisabled]
  · funext a
    exact if_pos (Algorithm.mem_byId a)

/-- An algorithm has its threads again. -/
theorem get_of_sound (h : Sound t) (a : Algorithm) (strict : Bool) :
    (({} : Threads).read t.toJSON).get a strict = t.get a strict := by
  rw [read_toJSON h]
  generalize hread : ({
    profiles := t.profiles
    disabled := fun a => t.disabled a || (t.aliases a).any (!t.has ·)
    aliases := fun a => (t.aliases a).filter t.has } : Threads) = u
  have hhas : u.has = t.has := by rw [← hread]; rfl
  have hfind : u.find? = t.find? := by rw [← hread]; rfl
  have hdisabled : u.isDisabled a = (t.isDisabled a || (t.aliases a).any (!t.has ·)) := by
    rw [← hread]
    rfl
  have haliases : u.aliases a = (t.aliases a).filter t.has := by rw [← hread]
  have hsame (hkept : u.isDisabled a = t.isDisabled a) (halias : u.aliases a = t.aliases a) :
      u.get a strict = t.get a strict := by
    unfold get profileName
    rw [hfind, hhas, hkept, halias]
  cases halias : t.aliases a with
  | none =>
    rw [halias] at hdisabled haliases
    exact hsame (by rw [hdisabled]; exact Bool.or_false _) (haliases.trans halias.symm)
  | some p =>
    cases hfound : t.has p with
    | true =>
      rw [halias] at hdisabled haliases
      refine hsame ?_ ?_
      · rw [hdisabled, Option.any_some, hfound]
        exact Bool.or_false _
      · rw [haliases, halias, Option.filter_some, hfound]
        rfl
    | false =>
      rw [halias, Option.any_some, hfound] at hdisabled
      have hoff : u.isDisabled a = true := hdisabled.trans (Bool.or_true _)
      have hnone : u.get a strict = {} := by
        unfold get profileName
        rw [if_pos hoff]
      rw [hnone]
      unfold get profileName
      cases hself : t.isDisabled a with
      | true => rw [if_pos rfl]
      | false =>
        obtain ⟨-, -, hmissing⟩ := h.aliases a p halias
        obtain ⟨rfl, hnotArq⟩ := hmissing.resolve_left (by rw [hfound]; decide)
        have hname : t.has Algorithm.rxArq.nameText = false := hnotArq
        have hgone : t.find? p = none := Option.not_isSome_iff_eq_none.mp (by
          change ¬ t.has p = true
          rw [hfound]
          decide)
        rw [if_neg Bool.false_ne_true, hname, if_neg Bool.false_ne_true, halias,
          if_pos (Option.isSome_some (a := p))]
        dsimp only
        rw [hgone]
        rfl

end RoundTrip

/-- Threads that are read, and completed by the calls of `generate`, are the same for every
algorithm after they are saved and read again. -/
theorem get_read_toJSON (members : List (String × Json)) (calls : List Call) (a : Algorithm)
    (strict : Bool) :
    (({} : Threads).read ((({} : Threads).read members).applyAll calls).toJSON).get a strict =
      ((({} : Threads).read members).applyAll calls).get a strict :=
  get_of_sound ((Sound.read members).applyAll calls) a strict

end VeloxHash.Threads
