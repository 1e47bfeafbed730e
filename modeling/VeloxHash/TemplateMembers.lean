import VeloxHash.BlockTemplate

/-! Which members of a template a parse assigns. The stages of `parse` are gone through
once, with the members that each of them may change and those it must. -/

namespace VeloxHash.TemplateMembers

open ReaderProgram BlobReader BlockTemplate

/-- The entries of `m_hashes`, and their number. -/
def isEntry : Slot → Bool
  | .numEntries | .hash _ => true
  | _ => false

/-- The event may change the member. -/
def Touches (s : Slot) : Event → Prop
  | .assign s' _ => s' = s
  | .resize _ => isEntry s = true
  | .round _ _ => False

def Assigns (events : List Event) (s : Slot) : Prop := ∃ v, Event.assign s v ∈ events

def Resizes (events : List Event) : Prop := ∃ count, Event.resize count ∈ events

/-- The members that `parse` does not assign, or only together with all hashes. -/
def isOuter : Slot → Bool
  | .blob | .coin | .numEntries | .hash _ => true
  | _ => false

/-- The members that nothing behind the header and the miner signature assigns. -/
def isHead : Slot → Bool
  | .majorVersion | .minorVersion | .timestamp | .prevId | .offset .nonce | .minerSignature
  | .vote => true
  | s => isOuter s

/-- The members that the header and the miner signature leave to what is behind them. -/
def isLater : Slot → Bool
  | .offset .minerTxPrefix | .numHashes => true
  | s => isOuter s

/-- The members that are not assigned between the first offset of the miner transaction and the
number of the hashes behind it. -/
def isPrior : Slot → Bool
  | .offset .minerTxPrefix | .numHashes => true
  | s => isHead s

/-- The event does not change these members. -/
def Leaves (kept : Slot → Bool) (e : Event) : Prop := ∀ s, kept s = true → ¬ Touches s e

section Members

variable {t t₁ t₂ : BlockTemplate} {e : Event} {events : List Event} {s : Slot}

theorem apply_assign (t : BlockTemplate) (s : Slot) (v : s.Value) :
    (t.apply (.assign s v)).get s = v := Function.update_self ..

theorem apply_untouched (h : ¬ Touches s e) : (t.apply e).get s = t.get s := by
  cases e with
  | assign s' v => exact Function.update_of_ne (Ne.symm h) ..
  | resize count =>
    cases s
    case numEntries => exact absurd rfl h
    case hash => exact absurd rfl h
    all_goals rfl
  | round start stop => rfl

theorem apply_assign_of_ne {s' : Slot} (t : BlockTemplate) (v : s'.Value) (h : s ≠ s') :
    (t.apply (.assign s' v)).get s = t.get s := by
  have huntouched : ¬ Touches s (.assign s' v) := fun heq => h heq.symm
  exact apply_untouched huntouched

theorem applyAll_untouched (h : ∀ e ∈ events, ¬ Touches s e) :
    (t.applyAll events).get s = t.get s := by
  induction events generalizing t with
  | nil => rfl
  | cons e events ih =>
    obtain ⟨he, hrest⟩ := List.forall_mem_cons.mp h
    exact (ih hrest).trans (apply_untouched he)

theorem untouched (hkeep : Resizes events → isEntry s = false) (h : ¬ Assigns events s) :
    ∀ e ∈ events, ¬ Touches s e := by
  intro e he htouch
  cases e with
  | assign s' v =>
    obtain rfl : s' = s := htouch
    exact h ⟨v, he⟩
  | resize count =>
    have hentry : isEntry s = true := htouch
    rw [hkeep ⟨count, he⟩] at hentry
    exact Bool.false_ne_true hentry
  | round start stop => exact htouch

/-- Once a member is assigned, it is the same in all templates that parse the blob. -/
theorem applyAll_assigned (hkeep : Resizes events → isEntry s = false) (h : Assigns events s) :
    (t₁.applyAll events).get s = (t₂.applyAll events).get s := by
  induction events generalizing t₁ t₂ with
  | nil => exact absurd h.choose_spec List.not_mem_nil
  | cons e events ih =>
    have hkeep' (hresize : Resizes events) : isEntry s = false :=
      hkeep (hresize.imp fun _ => List.mem_cons_of_mem e)
    by_cases hlater : Assigns events s
    · exact ih hkeep' hlater
    · obtain ⟨v, hv⟩ := h
      obtain rfl : .assign s v = e :=
        (List.mem_cons.mp hv).resolve_right fun hmem => hlater ⟨v, hmem⟩
      have hrest := untouched hkeep' hlater
      have hset (t : BlockTemplate) : (t.applyAll (.assign s v :: events)).get s = v :=
        (applyAll_untouched hrest).trans (apply_assign t s v)
      rw [hset, hset]

/-- All entries are assigned after the last resizing. -/
def Filled (events : List Event) : Prop :=
  ∃ before count after, events = before ++ .resize count :: after ∧
    (∀ i < count, Assigns after (.hash i)) ∧ ∀ e ∈ after, ¬ Touches .numEntries e

theorem applyAll_append (t : BlockTemplate) (before after : List Event) :
    t.applyAll (before ++ after) = (t.applyAll before).applyAll after := List.foldl_append

end Members

/-- Every event is of one kind, and a run that succeeds assigns the members of a list. -/
structure RunWrites {α : Type} (keep : Event → Prop) (must : List Slot) (r : Run Event α) :
    Prop where
  keeps : ∀ e ∈ r.events, keep e
  assigns : ∀ a, r.outcome = .ok a → ∀ s ∈ must, Assigns r.events s

def Writes {α : Type} (env : Env) (keep : Event → Prop) (must : List Slot) (p : Prog Event α) :
    Prop := RunWrites keep must (p.run env)

section Rules

variable {α β : Type} {env : Env} {keep : Event → Prop} {must must₁ must₂ : List Slot}
  {p : Prog Event α} {f : α → Prog Event β} {s : Slot}

theorem assigns_append_left {before after : List Event} (h : Assigns before s) :
    Assigns (before ++ after) s := h.imp fun _ => List.mem_append_left _

theorem assigns_append_right {before after : List Event} (h : Assigns after s) :
    Assigns (before ++ after) s := h.imp fun _ => List.mem_append_right _

theorem writes_pure (a : α) : Writes env keep [] (pure a : Prog Event α) where
  keeps _ he := absurd he List.not_mem_nil
  assigns _ _ _ hs := absurd hs List.not_mem_nil

theorem writes_halted {outcome : Outcome α} (h : ∀ a, outcome ≠ .ok a) :
    RunWrites keep must ⟨outcome, [], []⟩ where
  keeps _ he := absurd he List.not_mem_nil
  assigns a ha := absurd ha (h a)

theorem writes_silent (h : BlobReader.Silent env p) : Writes env keep [] p where
  keeps e he := by
    rw [h] at he
    exact absurd he List.not_mem_nil
  assigns _ _ _ hs := absurd hs List.not_mem_nil

theorem Writes.bind (hp : Writes env keep must₁ p) (hf : ∀ a, Writes env keep must₂ (f a)) :
    Writes env keep (must₁ ++ must₂) (p >>= f) := by
  unfold Writes at hp hf ⊢
  rw [run_bind]
  generalize p.run env = r at hp
  obtain ⟨outcome, checks, events⟩ := r
  cases outcome with
  | ok a =>
    refine ⟨fun e he => (List.mem_append.mp he).elim (hp.keeps e) ((hf a).keeps e), ?_⟩
    intro b hb s hs
    rcases List.mem_append.mp hs with hs | hs
    · exact assigns_append_left (hp.assigns a rfl s hs)
    · exact assigns_append_right ((hf a).assigns b hb s hs)
  | _ => exact ⟨hp.keeps, fun _ h => nomatch h⟩

theorem Writes.next (hp : Writes env keep [] p) (hf : ∀ a, Writes env keep must (f a)) :
    Writes env keep must (p >>= f) := hp.bind hf

theorem Writes.last (hp : Writes env keep must p) (hf : ∀ a, Writes env keep [] (f a)) :
    Writes env keep must (p >>= f) := List.append_nil must ▸ hp.bind hf

theorem writes_read (hp : BlobReader.Silent env p) (hf : ∀ a, Writes env keep must (f a)) :
    Writes env keep must (p >>= f) := (writes_silent hp).next hf

theorem writes_tell {event : Event} (h : keep event) {next : Prog Event α}
    (hnext : Writes env keep must next) : Writes env keep must (.tell event next) where
  keeps e he := (List.mem_cons.mp he).elim (fun heq => heq ▸ h) (hnext.keeps e)
  assigns a ha s hs := (hnext.assigns a ha s hs).imp fun _ => List.mem_cons_of_mem _

theorem writes_assign {v : s.Value} (h : keep (.assign s v)) {next : Prog Event α}
    (hnext : Writes env keep must next) :
    Writes env keep (s :: must) (.tell (.assign s v) next) where
  keeps := (writes_tell h hnext).keeps
  assigns a ha s' hs' := by
    rcases List.mem_cons.mp hs' with rfl | hs'
    · exact ⟨v, List.mem_cons_self⟩
    · exact (writes_tell h hnext).assigns a ha s' hs'

theorem Writes.weaken (h : Writes env keep must p) : Writes env keep [] p :=
  ⟨h.keeps, fun _ _ _ hs => absurd hs List.not_mem_nil⟩

theorem Writes.imp {keep' : Event → Prop} (h : Writes env keep must p)
    (hkeep : ∀ e, keep e → keep' e) : Writes env keep' must p :=
  ⟨fun e he => hkeep e (h.keeps e he), h.assigns⟩

theorem writes_require {inside : Bool} {next : Prog Event α} (h : Writes env keep must next) :
    Writes env keep must (.require inside next) := by
  unfold Writes
  rw [Prog.run]
  split
  · exact h
  · split <;> exact writes_halted (by simp)

end Rules

section Stages

variable {env : Env} {kept : Slot → Bool} {n : Nat} (ar : BlobReader 0 n) {α : Type}
  {must : List Slot}

theorem Leaves.mono {kept' : Slot → Bool} {e : Event} (h : Leaves kept e)
    (hle : ∀ s, kept' s = true → kept s = true) : Leaves kept' e := fun s hs => h s (hle s hs)

theorem leaves_assign {s : Slot} (v : s.Value) (h : kept s = false) : Leaves kept (.assign s v) := by
  rintro s' hs' rfl
  rw [h] at hs'
  exact Bool.false_ne_true hs'

theorem writes_kept {keep : Event → Prop} {s : Slot} {v : s.Value} {f : Unit → Prog Event α}
    (h : keep (.assign s v)) (hf : ∀ a, Writes env keep must (f a)) :
    Writes env keep (s :: must) (set s v >>= f) := writes_assign h (hf ())

theorem writes_set {s : Slot} {v : s.Value} {f : Unit → Prog Event α} (h : kept s = false)
    (hf : ∀ a, Writes env (Leaves kept) must (f a)) :
    Writes env (Leaves kept) (s :: must) (set s v >>= f) := writes_kept (leaves_assign v h) hf

theorem writes_setOffset {o : Offset} {index : Nat} {f : Unit → Prog Event α}
    (h : kept (.offset o) = false) (hf : ∀ a, Writes env (Leaves kept) must (f a)) :
    Writes env (Leaves kept) (.offset o :: must) (setOffset o index >>= f) := writes_set h hf

theorem writes_spanTo {data size : Nat} (ar : BlobReader data size) {s : Slot}
    {store : Span → Event} (hstore : ∀ x, ∃ v, store x = .assign s v) (h : kept s = false)
    (length : UInt64) (floor : Nat) :
    Writes env (Leaves kept) [s] (ar.spanTo store length floor) := by
  refine writes_read (BlobReader.silent_span ar length floor) fun x => ?_
  obtain ⟨v, hv⟩ := hstore x.1
  dsimp only
  rw [hv]
  exact writes_assign (leaves_assign v h) (writes_pure x.2)

theorem writes_rejectIf (condition : Bool) : Writes env (Leaves kept) [] (rejectIf condition) := by
  unfold rejectIf
  split
  · exact writes_halted (by simp)
  · exact writes_pure ()

theorem writes_parseIf {condition : Bool} {step : BlobReader 0 n → Prog Event (BlobReader 0 n)}
    (h : Writes env (Leaves kept) must (step ar)) :
    Writes env (Leaves kept) (if condition then must else []) (parseIf condition step ar) := by
  unfold parseIf
  split
  · exact h
  · exact writes_pure ar

theorem writes_parseHeader : Writes env (Leaves isLater)
    [.majorVersion, .minorVersion, .timestamp, .prevId, .offset .nonce] (parseHeader ar) := by
  refine writes_read (BlobReader.silent_getByte ar) fun ⟨major, ar⟩ => ?_
  refine writes_set rfl fun _ => ?_
  refine writes_read (BlobReader.silent_getByte ar) fun ⟨minor, ar⟩ => ?_
  refine writes_set rfl fun _ => ?_
  refine writes_read (BlobReader.silent_getVarint ar) fun ⟨timestamp, ar⟩ => ?_
  refine writes_set rfl fun _ => ?_
  refine (writes_spanTo (s := .prevId) ar (fun x => ⟨x, rfl⟩) rfl _ _).bind fun ar => ?_
  refine writes_setOffset rfl fun _ => ?_
  exact writes_read (BlobReader.silent_advance ar _ _) fun ar => writes_pure _

theorem writes_parseMinerSignature :
    Writes env (Leaves isLater) [.minerSignature, .vote] (parseMinerSignature ar) := by
  refine (writes_spanTo (s := .minerSignature) ar (fun x => ⟨x, rfl⟩) rfl _ _).bind fun ar => ?_
  refine writes_read (BlobReader.silent_array ar _) fun ⟨vote, ar⟩ => ?_
  exact writes_set rfl fun _ => writes_pure ar

theorem writes_parsePricingRecord : Writes env (Leaves isPrior) [] (parsePricingRecord ar) :=
  writes_read (BlobReader.silent_array ar _) fun x => writes_pure x.2

theorem writes_parseUnlockTime : Writes env (Leaves isPrior) [.unlockTime] (parseUnlockTime ar) :=
  writes_read (BlobReader.silent_getVarint ar) fun x => writes_set rfl fun _ => writes_pure x.2

theorem writes_parseViewTag : Writes env (Leaves isPrior) [.viewTag] (parseViewTag ar) :=
  writes_read (BlobReader.silent_getByte ar) fun x => writes_set rfl fun _ => writes_pure x.2

/-- The members that `parseInput` assigns. -/
def inputSlots (coin : Coin) : List Slot :=
  let unlockTime : List Slot := if decide (coin ≠ .townforge) then [.unlockTime] else []
  .offset .minerTxPrefix :: .txVersion ::
    List.append unlockTime [.numInputs, .inputType, .height, .numOutputs]

theorem writes_parseInput {keep : Event → Prop} (coin : Coin)
    (hfirst : keep (.assign (.offset .minerTxPrefix) (UInt32.ofNat ar.index)))
    (hrest : ∀ e, Leaves isPrior e → keep e) :
    Writes env keep (inputSlots coin) (parseInput coin ar) := by
  refine writes_kept hfirst fun _ => Writes.imp ?_ hrest
  refine writes_read (BlobReader.silent_getVarint ar) fun ⟨txVersion, ar⟩ => ?_
  refine writes_set rfl fun _ => ?_
  refine Writes.bind (writes_parseIf ar (writes_parseUnlockTime ar)) fun ar => ?_
  refine writes_read (BlobReader.silent_getVarint ar) fun ⟨numInputs, ar⟩ => ?_
  refine writes_set rfl fun _ => (writes_rejectIf _).next fun _ => ?_
  refine writes_read (BlobReader.silent_getByte ar) fun ⟨inputType, ar⟩ => ?_
  refine writes_set rfl fun _ => (writes_rejectIf _).next fun _ => ?_
  refine writes_read (BlobReader.silent_getVarint ar) fun ⟨height, ar⟩ => ?_
  refine writes_set rfl fun _ => ?_
  refine writes_read (BlobReader.silent_getVarint ar) fun ⟨numOutputs, ar⟩ => ?_
  exact writes_set rfl fun _ => (writes_rejectIf _).next fun _ => writes_pure _

theorem writes_parseCarrot : Writes env (Leaves isPrior) [.carrotViewTag, .janusAnchor] (parseCarrot ar) := by
  refine writes_read (BlobReader.silent_array ar _) fun ⟨carrotViewTag, ar⟩ => ?_
  refine writes_set rfl fun _ => ?_
  refine writes_read (BlobReader.silent_array ar _) fun ⟨janusAnchor, ar⟩ => ?_
  exact writes_set rfl fun _ => writes_pure ar

theorem writes_round (start stop : Nat) : Writes env (Leaves isPrior) [] (round start stop) :=
  writes_tell (fun _ _ => id) (writes_pure ())

theorem writes_parseZephyrOutputs (left : Nat) :
    Writes env (Leaves isPrior) [] (parseZephyrOutputs left ar) := by
  induction left generalizing ar with
  | zero => exact writes_pure ar
  | succ left ih =>
    refine writes_read (BlobReader.silent_getVarint ar) fun ⟨_, ar₁⟩ => ?_
    refine writes_read (BlobReader.silent_getByte ar₁) fun ⟨outputType, ar₂⟩ => ?_
    refine (writes_rejectIf _).next fun _ => ?_
    refine writes_read (BlobReader.silent_span ar₂ _ _) fun ⟨_, ar₃⟩ => ?_
    refine writes_read (BlobReader.silent_getVarint ar₃) fun ⟨assetTypeLen, ar₄⟩ => ?_
    refine writes_read (BlobReader.silent_advance ar₄ _ _) fun ar₅ => ?_
    refine writes_read (BlobReader.silent_getByte ar₅) fun ⟨_, ar₆⟩ => ?_
    exact (writes_round _ _).next fun _ => ih ar₆

theorem writes_parseZephyr (outputType : UInt8) (numOutputs : UInt64) :
    Writes env (Leaves isPrior) [] (parseZephyr outputType numOutputs ar) := by
  refine (writes_rejectIf _).next fun _ => ?_
  refine writes_read (BlobReader.silent_getVarint ar) fun ⟨assetTypeLen, ar⟩ => ?_
  refine writes_read (BlobReader.silent_advance ar _ _) fun ar => ?_
  exact (writes_parseViewTag ar).weaken.next fun ar => writes_parseZephyrOutputs ar _

theorem writes_parseOutputs (coin : Coin) (majorVersion : UInt8) (numOutputs : UInt64) :
    Writes env (Leaves isPrior) [.amount, .outputType, .offset .ephPublicKey, .ephPublicKey]
      (parseOutputs coin majorVersion numOutputs ar) := by
  refine writes_read (BlobReader.silent_getVarint ar) fun ⟨amount, ar⟩ => ?_
  refine writes_set rfl fun _ => ?_
  refine writes_read (BlobReader.silent_getByte ar) fun ⟨outputType, ar⟩ => ?_
  refine writes_set rfl fun _ => (writes_rejectIf _).next fun _ => writes_setOffset rfl fun _ => ?_
  refine (writes_spanTo (s := .ephPublicKey) ar (fun x => ⟨x, rfl⟩) rfl _ _).bind fun ar => ?_
  refine (writes_parseIf ar (writes_parseCarrot ar)).weaken.next fun ar => ?_
  split
  · exact writes_parseZephyr ar outputType numOutputs
  · exact (writes_parseIf ar (writes_parseViewTag ar)).weaken

section Extra

variable {data size : Nat}

theorem writes_parseField {o : Offset} {s : Slot} {store : Span → Event}
    (ho : isPrior (.offset o) = false) (hstore : ∀ x, ∃ v, store x = .assign s v)
    (h : isPrior s = false) (start : Nat) (ar : BlobReader data size) :
    Writes env (Leaves isPrior) [.offset o, s] (parseField o store start ar) := by
  refine writes_read (BlobReader.silent_getVarint ar) fun ⟨fieldSize, ar⟩ => ?_
  exact writes_setOffset ho fun _ => writes_spanTo ar hstore h _ _

theorem writes_setPubkeyOffset (pubkeyFirst : Bool) (index : Nat) :
    Writes env (Leaves isPrior) [] (setPubkeyOffset pubkeyFirst index) := by
  unfold setPubkeyOffset
  split
  · exact (writes_assign (leaves_assign _ rfl) (writes_pure ())).weaken
  · exact writes_pure ()

theorem writes_parseEntry (tag : UInt64) (start : Nat) (pubkeyFirst : Bool)
    (ar : BlobReader data size) :
    Writes env (Leaves isPrior) [] (parseEntry tag start pubkeyFirst ar) := by
  unfold parseEntry
  split
  · refine (writes_setPubkeyOffset _ _).next fun _ => ?_
    exact writes_read (BlobReader.silent_advance ar _ _) fun ar => writes_pure _
  · split
    · exact (writes_parseField (s := .txExtraNonce) rfl (fun x => ⟨x, rfl⟩) rfl _ ar).weaken.next
        fun ar => writes_pure _
    · split
      · exact (writes_parseField (s := .txMergeMiningTag) rfl (fun x => ⟨x, rfl⟩) rfl _
          ar).weaken.next fun ar => writes_pure _
      · exact writes_halted (by simp)

theorem writes_parseExtra (fuel : Nat) (pubkeyFirst : Bool) (ar : BlobReader data size) :
    Writes env (Leaves isPrior) [] (parseExtra fuel pubkeyFirst ar) := by
  induction fuel generalizing pubkeyFirst ar with
  | zero =>
    unfold parseExtra
    split
    · exact writes_halted (by simp)
    · exact writes_pure ()
  | succ fuel ih =>
    unfold parseExtra
    split
    · refine writes_read (BlobReader.silent_getVarint ar) fun ⟨tag, ar₁⟩ => ?_
      refine (writes_parseEntry tag _ pubkeyFirst ar₁).next fun ⟨pubkeyFirst, ar₂⟩ => ?_
      exact (writes_round _ _).next fun _ => ih pubkeyFirst ar₂
    · exact writes_pure ()

end Extra

theorem writes_parseZephyrBurn : Writes env (Leaves isPrior) [] (parseZephyrBurn ar) := by
  refine writes_read (BlobReader.silent_getVarint ar) fun ⟨_, ar⟩ => ?_
  refine writes_read (BlobReader.silent_getVarint ar) fun ⟨_, ar⟩ => ?_
  exact writes_read (BlobReader.silent_getVarint ar) fun x => writes_pure x.2

end Stages

/-- The entries of `m_hashes` are left alone, or they are all assigned anew. -/
def Settled (events : List Event) : Prop := (∀ e ∈ events, Leaves isEntry e) ∨ Filled events

/-- A run that settles the entries if it succeeds and assigns the members of the list. Without
the hashes nothing that is kept changes, and that holds of all runs. -/
structure RunSettles {α : Type} (kept : Slot → Bool) (hashes : Bool) (must : List Slot)
    (r : Run Event α) : Prop where
  leaves : hashes = false → ∀ e ∈ r.events, Leaves kept e
  settled : ∀ a, r.outcome = .ok a → Settled r.events
  assigns : ∀ a, r.outcome = .ok a → ∀ s ∈ must, Assigns r.events s

def Settles {α : Type} (env : Env) (kept : Slot → Bool) (hashes : Bool) (must : List Slot)
    (p : Prog Event α) : Prop := RunSettles kept hashes must (p.run env)

section Settles

variable {α β : Type} {env : Env} {kept : Slot → Bool} {hashes : Bool}
  {must must₁ must₂ : List Slot} {p : Prog Event α} {f : α → Prog Event β} {n : Nat}
  (ar : BlobReader 0 n) (keccak : List UInt8 → Hash)

theorem isHead_of_isOuter {s : Slot} (h : isOuter s = true) : isHead s = true := by
  cases s
  case offset o => cases h
  all_goals first | rfl | exact h

theorem isOuter_of_isEntry {s : Slot} (h : isEntry s = true) : isOuter s = true := by
  cases s <;> first | rfl | exact h

theorem isPrior_of_isHead {s : Slot} (h : isHead s = true) : isPrior s = true := by
  cases s
  case offset o => cases o <;> first | rfl | exact h
  all_goals first | rfl | exact h

theorem isLater_of_isOuter {s : Slot} (h : isOuter s = true) : isLater s = true := by
  cases s
  case offset o => cases h
  all_goals first | rfl | exact h

/-- What leaves the members from before leaves those of the header. -/
theorem Writes.head (h : Writes env (Leaves isPrior) must p) : Writes env (Leaves isHead) must p :=
  h.imp fun _ he => he.mono fun _ => isPrior_of_isHead

theorem settles_halted {outcome : Outcome α} (h : ∀ a, outcome ≠ .ok a) :
    RunSettles kept hashes must ⟨outcome, [], []⟩ where
  leaves _ _ he := absurd he List.not_mem_nil
  settled a ha := absurd ha (h a)
  assigns a ha := absurd ha (h a)

theorem Filled.append {events : List Event} (h : Filled events) (first : List Event) :
    Filled (first ++ events) := by
  obtain ⟨before, count, after, rfl, hafter⟩ := h
  exact ⟨first ++ before, count, after, (List.append_assoc ..).symm, hafter⟩

section Kept

variable (hkept : ∀ s, isEntry s = true → kept s = true)

include hkept

theorem Writes.settles (h : Writes env (Leaves kept) must p) : Settles env kept hashes must p :=
  ⟨fun _ => h.keeps, fun _ _ => .inl fun e he => (h.keeps e he).mono hkept, h.assigns⟩

theorem Writes.before (hp : Writes env (Leaves kept) must₁ p)
    (hf : ∀ a, Settles env kept hashes must₂ (f a)) :
    Settles env kept hashes (must₁ ++ must₂) (p >>= f) := by
  unfold Writes Settles at *
  rw [run_bind]
  generalize p.run env = r at hp
  obtain ⟨outcome, checks, events⟩ := r
  cases outcome with
  | ok a =>
    refine ⟨fun hhashes e he => ?_, fun b hb => ?_, fun b hb s hs => ?_⟩
    · exact (List.mem_append.mp he).elim (hp.keeps e) ((hf a).leaves hhashes e)
    · rcases (hf a).settled b hb with hleaves | hfilled
      · exact .inl fun e he => (List.mem_append.mp he).elim
          (fun he => (hp.keeps e he).mono hkept) (hleaves e)
      · exact .inr (hfilled.append events)
    · rcases List.mem_append.mp hs with hs | hs
      · exact assigns_append_left (hp.assigns a rfl s hs)
      · exact assigns_append_right ((hf a).assigns b hb s hs)
  | _ => exact ⟨fun _ => hp.keeps, fun _ h => (nomatch h), fun _ h => (nomatch h)⟩

theorem Writes.nextSettles (hp : Writes env (Leaves kept) [] p)
    (hf : ∀ a, Settles env kept hashes must (f a)) : Settles env kept hashes must (p >>= f) :=
  hp.before hkept hf

end Kept

theorem writes_hashLoop {keep : Event → Prop} (hkeep : ∀ i v, keep (.assign (.hash i) v))
    (count left i : Nat) :
    Writes env keep ((List.range' i left).map .hash) (hashLoop count left i ar) := by
  induction left generalizing i ar with
  | zero => exact writes_pure []
  | succ left ih =>
    rw [List.range'_succ, List.map_cons]
    refine writes_read (BlobReader.silent_span ar _ _) fun ⟨h, ar⟩ => ?_
    refine writes_read (BlobReader.silent_load _ _) fun bytes => ?_
    have hset : Writes env keep [.hash i]
        (.require (i < count) (set (.hash i) (toHash bytes))) :=
      writes_require (writes_assign (hkeep _ _) (writes_pure ()))
    refine hset.bind fun _ => ?_
    exact (ih ar (i + 1)).last fun others => writes_pure _

theorem settles_resize {count : Nat} {next : Prog Event α}
    (h : Writes env (fun e => ¬ Touches .numEntries e) must next)
    (hall : ∀ i < count, .hash i ∈ must) :
    Settles env kept true [] (.alloc count (.tell (.resize count) next)) := by
  unfold Settles
  rw [Prog.run]
  split
  · refine ⟨by simp, fun a ha => ?_, fun _ _ _ hs => absurd hs List.not_mem_nil⟩
    refine .inr ⟨[], count, (next.run env).events, rfl, fun i hi => ?_, h.keeps⟩
    exact h.assigns a ha _ (hall i hi)
  · exact settles_halted (by simp)

theorem settles_parseHashes (prefixBegin prefixEnd : UInt32) (numHashes : UInt64) :
    Settles env kept true [] (parseHashes keccak prefixBegin prefixEnd numHashes ar) := by
  have hall (i : Nat) (hi : i < (numHashes.toNat + 1) % 2 ^ 59) :
      .hash i ∈ .hash 0 :: (List.range' 1 numHashes.toNat).map Slot.hash := by
    cases i with
    | zero => exact List.mem_cons_self
    | succ i =>
      refine List.mem_cons_of_mem _ (List.mem_map.mpr ⟨i + 1, List.mem_range'_1.mpr ?_, rfl⟩)
      omega
  refine settles_resize ?_ hall
  refine (writes_require (writes_silent (BlobReader.silent_load _ _))).next fun _ => ?_
  have hset (minerTxHash : Hash) : Writes env (fun e => ¬ Touches .numEntries e) [.hash 0]
      (.require (0 < (numHashes.toNat + 1) % 2 ^ 59) (set (.hash 0) minerTxHash)) :=
    writes_require (writes_assign nofun (writes_pure ()))
  refine (hset _).bind fun _ => (writes_hashLoop ar (fun _ _ => nofun) _ numHashes.toNat 1).last fun others => ?_
  exact writes_tell nofun (writes_tell nofun (writes_pure ()))

theorem isHead_of_isEntry (s : Slot) (h : isEntry s = true) : isHead s = true :=
  isHead_of_isOuter (isOuter_of_isEntry h)

theorem writes_one {s : Slot} {v : s.Value} (h : kept s = false) :
    Writes env (Leaves kept) [s] (set s v) := writes_assign (leaves_assign v h) (writes_pure ())

theorem settles_parseTail (coin : Coin) (hashes : Bool) (height : UInt64) (prefixBegin : UInt32) :
    Settles env isHead hashes [.offset .minerTxPrefixEnd]
      (parseTail keccak coin hashes height prefixBegin ar) := by
  have hkept := isHead_of_isEntry
  refine (writes_parseIf ar (writes_parseZephyrBurn ar)).head.weaken.nextSettles hkept fun ar => ?_
  have hset : Writes env (Leaves isHead) [.offset .minerTxPrefixEnd]
      (setOffset .minerTxPrefixEnd ar.index) := writes_one rfl
  refine hset.before hkept fun _ => ?_
  refine (writes_silent (BlobReader.silent_getByte ar)).nextSettles hkept fun ⟨vinRctType, ar⟩ => ?_
  dsimp only
  split
  · exact (writes_pure ()).settles hkept
  · split
    · exact settles_halted (by simp)
    · refine (writes_silent (BlobReader.silent_load _ _)).nextSettles hkept fun atEnd => ?_
      refine (writes_rejectIf _).nextSettles hkept fun _ => ?_
      refine (writes_silent (BlobReader.silent_getVarint ar)).nextSettles hkept
        fun ⟨numHashes, ar⟩ => ?_
      have hnumber : Writes env (Leaves isHead) [.numHashes] (set .numHashes numHashes) :=
        writes_one rfl
      refine hnumber.weaken.nextSettles hkept fun _ => ?_
      cases hashes with
      | true => exact settles_parseHashes ar keccak _ _ numHashes
      | false => exact (writes_pure ()).settles hkept

theorem settles_parseRest (coin : Coin) (hashes : Bool) (fuel : Nat) (height : UInt64)
    (prefixBegin : UInt32) :
    Settles env isHead hashes [.offset .txExtra, .offset .minerTxPrefixEnd]
      (parseRest keccak coin hashes fuel height prefixBegin ar) := by
  have hkept := isHead_of_isEntry
  refine (writes_silent (BlobReader.silent_getVarint ar)).nextSettles hkept fun ⟨extraSize, ar⟩ => ?_
  have hsize : Writes env (Leaves isHead) [.extraSize] (set .extraSize extraSize) := writes_one rfl
  refine hsize.weaken.nextSettles hkept fun _ => ?_
  have hset : Writes env (Leaves isHead) [.offset .txExtra] (setOffset .txExtra ar.index) :=
    writes_one rfl
  refine hset.before hkept fun _ => ?_
  refine (writes_silent (BlobReader.silent_advance ar _ _)).nextSettles hkept fun ar => ?_
  refine (writes_parseExtra fuel true _).head.nextSettles hkept fun _ => ?_
  exact settles_parseTail ar keccak coin hashes height prefixBegin

end Settles

section Whole

variable {env : Env} (keccak : List UInt8 → Hash)

/-- The header and the miner signature. -/
def parseHead (blob : Blob) (coin : Coin) :
    Prog Event (UInt8 × BlobReader 0 blob.bytes.length) := do
  let (majorVersion, ar) ← parseHeader (opened blob)
  let ar ← parseIf (isSigned coin majorVersion) parseMinerSignature ar
  return (majorVersion, ar)

/-- The miner transaction and what is behind it. -/
def parseBody {n : Nat} (coin : Coin) (hashes : Bool) (fuel : Nat) (majorVersion : UInt8)
    (ar : BlobReader 0 n) : Prog Event Unit := do
  let ar ← parseIf (coin = .zephyr) parsePricingRecord ar
  let prefixBegin := UInt32.ofNat ar.index
  let (height, numOutputs, ar) ← parseInput coin ar
  let ar ← parseOutputs coin majorVersion numOutputs ar
  let ar ← parseIf (coin = .townforge) parseUnlockTime ar
  parseRest keccak coin hashes fuel height prefixBegin ar

theorem parse_eq (blob : Blob) (coin : Coin) (hashes : Bool) (fuel : Nat) :
    parse keccak blob coin hashes fuel = parseHead blob coin >>= fun x =>
      parseBody keccak coin hashes fuel x.1 x.2 := by
  unfold parseHead
  rw [Prog.bind_assoc]
  refine congrArg _ (funext fun ⟨majorVersion, ar⟩ => ?_)
  change _ = (parseIf (isSigned coin majorVersion) parseMinerSignature ar >>= fun ar =>
    pure (majorVersion, ar)) >>= fun x => parseBody keccak coin hashes fuel x.1 x.2
  rw [Prog.bind_assoc]
  rfl

/-- The members behind the first ones that every parse assigns which succeeds. -/
def bodySlots (coin : Coin) : List Slot :=
  let outputs : List Slot := [.amount, .outputType, .offset .ephPublicKey, .ephPublicKey]
  let unlockTime : List Slot := if decide (coin = .townforge) then [.unlockTime] else []
  let rest : List Slot := [.offset .txExtra, .offset .minerTxPrefixEnd]
  inputSlots coin ++ (outputs ++ (unlockTime ++ rest))

def mandatory (coin : Coin) : List Slot :=
  let header : List Slot := [.majorVersion, .minorVersion, .timestamp, .prevId, .offset .nonce]
  header ++ bodySlots coin

theorem writes_parseHead (blob : Blob) (coin : Coin) : Writes env (Leaves isLater)
    [.majorVersion, .minorVersion, .timestamp, .prevId, .offset .nonce]
    (parseHead blob coin) := by
  refine (writes_parseHeader _).last fun ⟨majorVersion, ar⟩ => ?_
  exact (writes_parseIf ar (writes_parseMinerSignature ar)).weaken.next fun ar => writes_pure _

theorem settles_parseBody {n : Nat} (coin : Coin) (hashes : Bool) (fuel : Nat)
    (majorVersion : UInt8) (ar : BlobReader 0 n) : Settles env isHead hashes (bodySlots coin)
      (parseBody keccak coin hashes fuel majorVersion ar) := by
  have hkept := isHead_of_isEntry
  refine (writes_parseIf ar (writes_parsePricingRecord ar)).head.weaken.nextSettles hkept fun ar => ?_
  have hinput : Writes env (Leaves isHead) (inputSlots coin) (parseInput coin ar) :=
    writes_parseInput ar coin (leaves_assign _ rfl) fun _ he => he.mono fun _ => isPrior_of_isHead
  refine hinput.before hkept fun ⟨height, numOutputs, ar⟩ => ?_
  refine (writes_parseOutputs ar coin _ _).head.before hkept fun ar => ?_
  refine (writes_parseIf ar (writes_parseUnlockTime ar)).head.before hkept fun ar => ?_
  exact settles_parseRest ar keccak coin hashes fuel height _

theorem settles_parse (blob : Blob) (coin : Coin) (hashes : Bool) (fuel : Nat) :
    Settles env isOuter hashes (mandatory coin) (parse keccak blob coin hashes fuel) := by
  rw [parse_eq]
  have hhead : Writes env (Leaves isOuter) _ (parseHead blob coin) :=
    (writes_parseHead blob coin).imp fun _ he => he.mono fun _ => isLater_of_isOuter
  refine hhead.before (fun s => isOuter_of_isEntry) fun x => ?_
  have hbody : Settles env isHead hashes _ (parseBody keccak coin hashes fuel x.1 x.2) :=
    settles_parseBody keccak coin hashes fuel x.1 x.2
  exact ⟨fun hhashes e he => (hbody.leaves hhashes e he).mono fun s => isHead_of_isOuter,
    hbody.settled, hbody.assigns⟩

end Whole

section Loaded

variable (keccak : List UInt8 → Hash) (allocates : Nat → Bool) (fuel : Nat) (blob : Blob)
  (coin : Coin) (hashes : Bool)

/-- The run of `parse` on a blob, whatever the members were. -/
def parseRun : Run Event Unit :=
  (parse keccak blob coin hashes fuel).run (machine blob.bytes allocates)

/-- The template before `parse` runs on its blob. -/
def loaded (t : BlockTemplate) : BlockTemplate :=
  (t.apply (.assign .blob blob.bytes)).apply (.assign .coin coin)

theorem loaded_get {t : BlockTemplate} {s : Slot} (hblob : s ≠ .blob) (hcoin : s ≠ .coin) :
    (loaded blob coin t).get s = t.get s := by
  unfold loaded
  rw [apply_assign_of_ne _ _ hcoin, apply_assign_of_ne _ _ hblob]

theorem loaded_blob (t : BlockTemplate) : (loaded blob coin t).get .blob = blob.bytes := by
  unfold loaded
  rw [apply_assign_of_ne _ _ (show Slot.blob ≠ .coin by decide), apply_assign]

theorem loaded_coin (t : BlockTemplate) : (loaded blob coin t).get .coin = coin := apply_assign ..

theorem loaded_same {s : Slot} (t₁ t₂ : BlockTemplate) (h : s = .blob ∨ s = .coin) :
    (loaded blob coin t₁).get s = (loaded blob coin t₂).get s := by
  rcases h with rfl | rfl
  · rw [loaded_blob, loaded_blob]
  · rw [loaded_coin, loaded_coin]

variable {events : List Event}

/-- Nothing that is kept changes. -/
theorem applyAll_kept {kept : Slot → Bool} (h : ∀ e ∈ events, Leaves kept e) (t : BlockTemplate)
    {s : Slot} (hs : kept s = true) : (t.applyAll events).get s = t.get s :=
  applyAll_untouched fun e he => h e he s hs

/-- The same events once more change nothing. -/
theorem applyAll_again (h : ∀ e ∈ events, Leaves isOuter e) (t : BlockTemplate) :
    (loaded blob coin ((loaded blob coin t).applyAll events)).applyAll events =
      (loaded blob coin t).applyAll events := by
  have hnone (hresizes : Resizes events) (s : Slot) : isEntry s = false := by
    obtain ⟨count, hcount⟩ := hresizes
    exact absurd rfl (h _ hcount .numEntries rfl)
  refine congrArg BlockTemplate.mk (funext fun s => ?_)
  by_cases hassigned : Assigns events s
  · exact applyAll_assigned (fun hresizes => hnone hresizes s) hassigned
  · have hrest := untouched (fun hresizes => hnone hresizes s) hassigned
    refine (applyAll_untouched hrest).trans ?_
    by_cases hgiven : s = .blob ∨ s = .coin
    · refine (loaded_same blob coin _ t hgiven).trans (applyAll_untouched hrest).symm
    · obtain ⟨hblob, hcoin⟩ := not_or.mp hgiven
      exact loaded_get blob coin hblob hcoin

end Loaded

section Header

variable {memory : List UInt8} {allocates : Nat → Bool}

/-- Where the nonce of a template starts. -/
def nonceStart (bytes : List UInt8) : Nat := 2 + varintLength (bytes.drop 2) + 32

theorem ends_parseHeader (ar : BlobReader 0 memory.length) (hindex : ar.index = 0)
    (hsmall : memory.length < 2 ^ 63) : Ends (machine memory allocates) (parseHeader ar)
      fun x events => x.1 = memory.headD 0 ∧ x.2.index = nonceStart memory + 4 ∧
        ∃ minorVersion timestamp prevId, events = [.assign .majorVersion x.1,
          .assign .minorVersion minorVersion, .assign .timestamp timestamp,
          .assign .prevId prevId, .assign (.offset .nonce) (UInt32.ofNat (nonceStart memory))] := by
  refine (ends_getByte ar).bind fun ⟨major, ar₁⟩ events₁ h₁ => ?_
  obtain ⟨⟨rest, hrest⟩, hindex₁, rfl⟩ := h₁
  refine ends_tell ((ends_getByte ar₁).bind fun ⟨minor, ar₂⟩ events₂ h₂ => ?_)
  obtain ⟨_, hindex₂, rfl⟩ := h₂
  refine ends_tell ((ends_getVarint ar₂).bind fun ⟨timestamp, ar₃⟩ events₃ h₃ => ?_)
  obtain ⟨hindex₃, rfl⟩ := h₃
  refine ends_tell ((ends_spanTo ar₃ 0 (by change _ + 32 < _; omega)).bind fun ar₄ events₄ h₄ => ?_)
  obtain ⟨hindex₄, rfl⟩ := h₄
  refine ends_tell ((ends_advance ar₄ 0 (by change _ + 4 < _; omega)).bind
    fun ar₅ events₅ h₅ => ?_)
  obtain ⟨hindex₅, rfl⟩ := h₅
  dsimp only at hrest hindex₁ hindex₂ hindex₃
  change ar₄.index = ar₃.index + 32 at hindex₄
  change ar₅.index = ar₄.index + 4 at hindex₅
  have htwo : 0 + ar₂.index = 2 := by omega
  have hnonce : ar₄.index = nonceStart memory := by
    rw [htwo] at hindex₃
    rw [hindex₄, hindex₃, nonceStart]
    omega
  refine ends_pure ⟨?_, hindex₅.trans (hnonce ▸ rfl), minor, timestamp,
    ⟨0 + ar₃.index, kHashSize.toNat⟩, ?_⟩
  · rw [hindex, Nat.add_zero, List.drop_zero] at hrest
    have hhead : memory.headD 0 = major := by rw [hrest]; rfl
    exact hhead.symm
  · rw [← hnonce]
    rfl

/-- What the header and the miner signature make of a template. -/
structure Headed (blob : Blob) (coin : Coin) (t after : BlockTemplate) : Prop where
  room : nonceStart blob.bytes + 4 + (if isSigned coin (blob.bytes.headD 0) then 66 else 0) ≤
    blob.bytes.length
  majorVersion : after.get .majorVersion = blob.bytes.headD 0
  nonce : after.get (.offset .nonce) = UInt32.ofNat (nonceStart blob.bytes)
  minerSignature : after.get .minerSignature = if isSigned coin (blob.bytes.headD 0) then
    ⟨nonceStart blob.bytes + 4, kSignatureSize⟩ else t.get .minerSignature

theorem ends_parseMinerSignature {n : Nat} (ar : BlobReader 0 n) (hsmall : n < 2 ^ 63) :
    Ends (machine memory allocates) (parseMinerSignature ar) fun _ events =>
      ar.index + 66 ≤ n ∧ ∃ vote, events =
        [.assign .minerSignature ⟨ar.index, kSignatureSize⟩, .assign .vote vote] := by
  refine (ends_spanTo ar 0 (by change n + 64 < _; omega)).bind fun ar₁ events₁ h₁ => ?_
  obtain ⟨hindex₁, rfl⟩ := h₁
  refine (ends_array ar₁ (by change n + 2 < _; omega)).bind fun ⟨vote, ar₂⟩ events₂ h₂ => ?_
  obtain ⟨hindex₂, rfl⟩ := h₂
  change ar₁.index = ar.index + 64 at hindex₁
  change ar₂.index = ar₁.index + 2 at hindex₂
  have hend := ar₂.index_le
  refine ends_tell (ends_pure ⟨by omega, vote, ?_⟩)
  rw [Nat.zero_add]
  rfl

theorem ends_parseHead (blob : Blob) (coin : Coin) :
    Ends (machine blob.bytes allocates) (parseHead blob coin) fun _ events =>
      ∀ t : BlockTemplate, Headed blob coin t (t.applyAll events) := by
  have hsmall := blob.length_lt
  refine (ends_parseHeader _ rfl hsmall).bind fun ⟨majorVersion, ar⟩ events h => ?_
  obtain ⟨hmajor, hindex, minorVersion, timestamp, prevId, rfl⟩ := h
  dsimp only at hmajor hindex
  subst hmajor
  have hend := ar.index_le
  dsimp only
  cases hsigned : isSigned coin (blob.bytes.headD 0) with
  | true =>
    refine (ends_parseMinerSignature ar hsmall).bind fun next later h => ends_pure fun t => ?_
    obtain ⟨hroom, vote, rfl⟩ := h
    refine ⟨?_, rfl, ?_, ?_⟩
    · rw [hsigned, if_pos rfl]
      omega
    · rfl
    · rw [hsigned]
      exact congrArg (fun index => (⟨index, kSignatureSize⟩ : Span)) hindex
  | false =>
    refine ends_pure fun t => ⟨?_, rfl, rfl, ?_⟩
    · rw [hsigned]
      simpa [hindex] using hend
    · rw [hsigned]
      rfl

theorem Headed.later {blob : Blob} {coin : Coin} {t u : BlockTemplate} {events : List Event}
    (h : Headed blob coin t u) (hleaves : ∀ e ∈ events, Leaves isHead e) :
    Headed blob coin t (u.applyAll events) where
  room := h.room
  majorVersion := (applyAll_kept hleaves u rfl).trans h.majorVersion
  nonce := (applyAll_kept hleaves u rfl).trans h.nonce
  minerSignature := (applyAll_kept hleaves u rfl).trans h.minerSignature

/-- A parse without the hashes leaves the header and the signature of its blob, or else the
signature from before. -/
theorem headed_of_parse (keccak : List UInt8 → Hash) (fuel : Nat) (blob : Blob) (coin : Coin)
    (t : BlockTemplate)
    (hok : (parseRun keccak allocates fuel blob coin false).outcome = .ok ()) :
    Headed blob coin t
      ((loaded blob coin t).applyAll (parseRun keccak allocates fuel blob coin false).events) := by
  have hends : Ends (machine blob.bytes allocates) (parse keccak blob coin false fuel)
      fun _ events => ∀ t, Headed blob coin t (t.applyAll events) := by
    rw [parse_eq]
    refine (ends_parseHead blob coin).bind fun x events hhead _ _ t => ?_
    rw [applyAll_append]
    exact (hhead t).later ((settles_parseBody keccak coin false fuel x.1 x.2).leaves rfl)
  have hheaded := hends () hok (loaded blob coin t)
  refine ⟨hheaded.room, hheaded.majorVersion, hheaded.nonce, hheaded.minerSignature.trans ?_⟩
  rw [loaded_get blob coin (show Slot.minerSignature ≠ .blob by decide) (by decide)]

end Header

end VeloxHash.TemplateMembers
