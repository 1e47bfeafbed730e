import VeloxHash.TemplateBounds

/-! Whether `BlockTemplate::parse` gets ahead. Its loops over the extra and over the Zephyr
outputs move a reader by the sizes they read. -/

namespace VeloxHash.TemplateProgress

open ReaderProgram BlockTemplate TemplateBounds

/-- A round that ends no further than it began. -/
def Falls : Event → Prop
  | .round start stop => stop ≤ start
  | .assign _ _ | .resize _ => False

instance : DecidablePred Falls := fun event => by
  unfold Falls
  cases event <;> infer_instance

section Stages

variable {memory : List UInt8} {allocates : Nat → Bool} {enough : Prop} {n : Nat}
  (ar : BlobReader 0 n)

theorem climbs_set (s : Slot) (v : s.Value) :
    Climbs memory allocates Falls enough (set s v) fun _ => True :=
  Climbs.tell id (Climbs.pure trivial)

theorem climbs_setOffset (o : Offset) (index : Nat) :
    Climbs memory allocates Falls enough (setOffset o index) fun _ => True := climbs_set ..

theorem climbs_rejectIf (condition : Bool) :
    Climbs memory allocates Falls enough (rejectIf condition) fun _ => True := by
  unfold rejectIf
  split
  · exact Climbs.stop fun _ => nofun
  · exact Climbs.pure trivial

theorem climbs_parseIf (condition : Bool) {step : BlobReader 0 n → Prog Event (BlobReader 0 n)}
    (h : Climbs memory allocates Falls enough (step ar) fun _ => True) :
    Climbs memory allocates Falls enough (parseIf condition step ar) fun _ => True := by
  unfold parseIf
  split
  · exact h
  · exact Climbs.pure trivial

theorem climbs_parseHeader :
    Climbs memory allocates Falls enough (parseHeader ar) fun _ => True := by
  refine (BlobReader.climbs_getByte ar).bind fun ⟨major, ar⟩ _ => ?_
  refine (climbs_set _ _).bind fun _ _ => ?_
  refine (BlobReader.climbs_getByte ar).bind fun ⟨minor, ar⟩ _ => ?_
  refine (climbs_set _ _).bind fun _ _ => ?_
  refine (BlobReader.climbs_getVarint ar).bind fun ⟨timestamp, ar⟩ _ => ?_
  refine (climbs_set _ _).bind fun _ _ => ?_
  refine (BlobReader.climbs_spanTo ar (fun _ => id) _).bind fun ar _ => ?_
  refine (climbs_setOffset _ _).bind fun _ _ => ?_
  exact (BlobReader.climbs_skip ar _).bind fun ar _ => Climbs.pure trivial

theorem climbs_parseMinerSignature :
    Climbs memory allocates Falls enough (parseMinerSignature ar) fun _ => True := by
  refine (BlobReader.climbs_spanTo ar (fun _ => id) _).bind fun ar _ => ?_
  refine (BlobReader.climbs_array ar _).bind fun ⟨vote, ar⟩ _ => ?_
  exact (climbs_set _ _).bind fun _ _ => Climbs.pure trivial

theorem climbs_parsePricingRecord :
    Climbs memory allocates Falls enough (parsePricingRecord ar) fun _ => True :=
  (BlobReader.climbs_array ar _).bind fun _ _ => Climbs.pure trivial

theorem climbs_parseUnlockTime :
    Climbs memory allocates Falls enough (parseUnlockTime ar) fun _ => True :=
  (BlobReader.climbs_getVarint ar).bind fun _ _ =>
    (climbs_set _ _).bind fun _ _ => Climbs.pure trivial

theorem climbs_parseViewTag :
    Climbs memory allocates Falls enough (parseViewTag ar) fun _ => True :=
  (BlobReader.climbs_getByte ar).bind fun _ _ =>
    (climbs_set _ _).bind fun _ _ => Climbs.pure trivial

theorem climbs_parseInput (coin : Coin) :
    Climbs memory allocates Falls enough (parseInput coin ar) fun _ => True := by
  refine (climbs_setOffset _ _).bind fun _ _ => ?_
  refine (BlobReader.climbs_getVarint ar).bind fun ⟨txVersion, ar⟩ _ => ?_
  refine (climbs_set _ _).bind fun _ _ => ?_
  refine (climbs_parseIf ar _ (climbs_parseUnlockTime ar)).bind fun ar _ => ?_
  refine (BlobReader.climbs_getVarint ar).bind fun ⟨numInputs, ar⟩ _ => ?_
  refine (climbs_set _ _).bind fun _ _ => ?_
  refine (climbs_rejectIf _).bind fun _ _ => ?_
  refine (BlobReader.climbs_getByte ar).bind fun ⟨inputType, ar⟩ _ => ?_
  refine (climbs_set _ _).bind fun _ _ => ?_
  refine (climbs_rejectIf _).bind fun _ _ => ?_
  refine (BlobReader.climbs_getVarint ar).bind fun ⟨height, ar⟩ _ => ?_
  refine (climbs_set _ _).bind fun _ _ => ?_
  refine (BlobReader.climbs_getVarint ar).bind fun ⟨numOutputs, ar⟩ _ => ?_
  refine (climbs_set _ _).bind fun _ _ => ?_
  exact (climbs_rejectIf _).bind fun _ _ => Climbs.pure trivial

theorem climbs_parseCarrot :
    Climbs memory allocates Falls enough (parseCarrot ar) fun _ => True := by
  refine (BlobReader.climbs_array ar _).bind fun ⟨carrotViewTag, ar⟩ _ => ?_
  refine (climbs_set _ _).bind fun _ _ => ?_
  refine (BlobReader.climbs_array ar _).bind fun ⟨janusAnchor, ar⟩ _ => ?_
  exact (climbs_set _ _).bind fun _ _ => Climbs.pure trivial

theorem climbs_hashLoop (count left i : Nat) :
    Climbs memory allocates Falls enough (hashLoop count left i ar) fun _ => True := by
  induction left generalizing i ar with
  | zero => exact Climbs.pure trivial
  | succ left ih =>
    refine (BlobReader.climbs_span ar _).bind fun ⟨h, ar⟩ _ => ?_
    refine Climbs.bind (Climbs.load fun _ => Climbs.pure trivial) fun bytes (_ : True) => ?_
    refine Climbs.bind (Climbs.require (climbs_set _ _)) fun _ _ => ?_
    exact (ih ar (i + 1)).bind fun _ _ => Climbs.pure trivial

theorem climbs_parseHashes (keccak : List UInt8 → Hash) (prefixBegin prefixEnd : UInt32)
    (numHashes : UInt64) : Climbs memory allocates Falls enough
      (parseHashes keccak prefixBegin prefixEnd numHashes ar) fun _ => True := by
  refine Climbs.bind (Climbs.alloc (Climbs.tell id (Climbs.pure trivial))) fun _ (_ : True) => ?_
  refine Climbs.bind (Climbs.require (Climbs.load fun _ => Climbs.pure trivial))
    fun _ (_ : True) => ?_
  refine Climbs.bind (Climbs.require (climbs_set _ _)) fun _ _ => ?_
  refine (climbs_hashLoop ar _ _ _).bind fun _ _ => ?_
  exact (climbs_set _ _).bind fun _ _ => climbs_set _ _

theorem climbs_parseZephyrBurn :
    Climbs memory allocates Falls enough (parseZephyrBurn ar) fun _ => True := by
  refine (BlobReader.climbs_getVarint ar).bind fun ⟨_, ar⟩ _ => ?_
  refine (BlobReader.climbs_getVarint ar).bind fun ⟨_, ar⟩ _ => ?_
  exact (BlobReader.climbs_getVarint ar).bind fun _ _ => Climbs.pure trivial

theorem climbs_parseTail (keccak : List UInt8 → Hash) (coin : Coin) (hashes : Bool)
    (height : UInt64) (prefixBegin : UInt32) : Climbs memory allocates Falls enough
      (parseTail keccak coin hashes height prefixBegin ar) fun _ => True := by
  refine (climbs_parseIf ar _ (climbs_parseZephyrBurn ar)).bind fun ar _ => ?_
  refine (climbs_setOffset _ _).bind fun _ _ => ?_
  refine (BlobReader.climbs_getByte ar).bind fun ⟨vinRctType, ar⟩ _ => ?_
  dsimp only
  split
  · exact Climbs.pure trivial
  · split
    · exact Climbs.stop fun _ => nofun
    · refine Climbs.bind (Climbs.load fun _ => Climbs.pure trivial) fun _ (_ : True) => ?_
      refine (climbs_rejectIf _).bind fun _ _ => ?_
      refine (BlobReader.climbs_getVarint ar).bind fun ⟨numHashes, ar⟩ _ => ?_
      refine (climbs_set _ _).bind fun _ _ => ?_
      dsimp only
      split
      · exact climbs_parseHashes ar keccak _ _ _
      · exact Climbs.pure trivial

end Stages

section Loops

variable {memory : List UInt8} {allocates : Nat → Bool} {enough : Prop} {data size : Nat}

theorem climbs_round {start stop : Nat} (h : start < stop) :
    Climbs memory allocates Falls enough (round start stop) fun _ => True :=
  Climbs.tell (Nat.not_le.mpr h) (Climbs.pure trivial)

/-- One byte is read behind the jump, so that it may land where the round began. -/
theorem climbs_parseZephyrOutputs (hmemory : memory.length < 2 ^ 63) (left : Nat)
    (ar : BlobReader 0 memory.length) :
    Climbs memory allocates Falls enough (parseZephyrOutputs left ar) fun _ => True := by
  induction left generalizing ar with
  | zero => exact Climbs.pure trivial
  | succ left ih =>
    refine (BlobReader.climbs_getVarint ar).bind fun ⟨amount, ar₁⟩ h₁ => ?_
    refine (BlobReader.climbs_getByte ar₁).bind fun ⟨outputType, ar₂⟩ h₂ => ?_
    refine (climbs_rejectIf _).bind fun _ _ => ?_
    refine (BlobReader.climbs_span ar₂ _).bind fun ⟨key, ar₃⟩ h₃ => ?_
    have hkey : kKeySize.toNat = 32 := rfl
    have h₃ := h₃ (by omega)
    refine (BlobReader.climbs_getVarint ar₃).bind fun ⟨assetTypeLen, ar₄⟩ h₄ => ?_
    dsimp only at *
    refine BlobReader.climbs_advance ar₄ _ (by omega) (fun ar₅ hfall => ?_) fun ar₅ hfloor => ?_
    · have hin := ar.index_le
      obtain ⟨viewTag, hbyte⟩ := @BlobReader.run_getByte Event _ _ (machine memory allocates) ar₅
        (by omega) (Nat.zero_add _).le
      refine ⟨.round ar.index (ar₅.index + 1), ?_, hfall⟩
      rw [run_bind, hbyte]
      exact List.mem_cons_self
    · refine (BlobReader.climbs_getByte ar₅).bind fun ⟨viewTag, ar₆⟩ h₆ => ?_
      dsimp only at h₆ ⊢
      exact (climbs_round (by omega)).bind fun _ _ => ih ar₆

/-- A sized field whose span ends the round. -/
theorem climbs_parseField {α : Type} (o : Offset) {store : Span → Event}
    (hstore : ∀ s, ¬ Falls (store s)) {start : Nat} (ar : BlobReader data size)
    (hstart : start < ar.index) {rest : BlobReader data size → Prog Event α}
    (hfall : ∀ next : BlobReader data size, next.index ≤ start →
      ∃ event ∈ ((rest next).run (machine memory allocates)).events, Falls event)
    (hclimb : ∀ next : BlobReader data size, start < next.index →
      Climbs memory allocates Falls enough (rest next) fun _ => True) :
    Climbs memory allocates Falls enough (parseField o store start ar >>= rest) fun _ => True := by
  unfold parseField
  rw [Prog.bind_assoc]
  refine (BlobReader.climbs_getVarint ar).bind fun ⟨fieldSize, ar₁⟩ h₁ => ?_
  dsimp only at h₁ ⊢
  have hfloor : start + 1 ≤ ar₁.index := by omega
  rw [Prog.bind_assoc]
  refine (climbs_setOffset o (data + ar₁.index)).bind fun _ _ => ?_
  have hspan : Climbs memory allocates Falls enough (ar₁.advance fieldSize (start + 1) >>=
      fun next => .tell (store ⟨data + ar₁.index, fieldSize.toNat⟩) (rest next)) fun _ => True := by
    refine BlobReader.climbs_advance ar₁ fieldSize hfloor (fun next hnext => ?_)
      fun next hnext => ?_
    · obtain ⟨event, hevent, hfalls⟩ := hfall next (Nat.le_of_lt_succ hnext)
      exact ⟨event, List.mem_cons_of_mem _ hevent, hfalls⟩
    · exact Climbs.tell (hstore _) (hclimb next hnext)
  exact hspan

theorem climbs_setPubkeyOffset (pubkeyFirst : Bool) (index : Nat) :
    Climbs memory allocates Falls enough (setPubkeyOffset pubkeyFirst index) fun _ => True := by
  unfold setPubkeyOffset
  split
  · exact climbs_setOffset _ _
  · exact Climbs.pure trivial

theorem climbs_parseEntry {α : Type} (tag : UInt64) {start : Nat} (pubkeyFirst : Bool)
    (ar : BlobReader data size) (hstart : start < ar.index)
    {rest : Bool × BlobReader data size → Prog Event α}
    (hfall : ∀ x : Bool × BlobReader data size, x.2.index ≤ start →
      ∃ event ∈ ((rest x).run (machine memory allocates)).events, Falls event)
    (hclimb : ∀ x : Bool × BlobReader data size, start < x.2.index →
      Climbs memory allocates Falls enough (rest x) fun _ => True) :
    Climbs memory allocates Falls enough (parseEntry tag start pubkeyFirst ar >>= rest)
      fun _ => True := by
  unfold parseEntry
  split
  · rw [Prog.bind_assoc]
    refine (climbs_setPubkeyOffset _ _).bind fun _ _ => ?_
    rw [Prog.bind_assoc]
    exact BlobReader.climbs_advance ar kKeySize hstart
      (fun next hnext => hfall (false, next) (Nat.le_of_lt_succ hnext))
      fun next hnext => hclimb (false, next) hnext
  · split
    · rw [Prog.bind_assoc]
      exact climbs_parseField _ (fun _ => id) ar hstart (fun next => hfall (pubkeyFirst, next))
        fun next => hclimb (pubkeyFirst, next)
    · split
      · rw [Prog.bind_assoc]
        exact climbs_parseField _ (fun _ => id) ar hstart (fun next => hfall (pubkeyFirst, next))
          fun next => hclimb (pubkeyFirst, next)
      · exact Climbs.stop fun _ => nofun

/-- A round for each byte is enough. -/
theorem climbs_parseExtra (fuel : Nat) (pubkeyFirst : Bool) (ar : BlobReader data size) :
    Climbs memory allocates Falls (size ≤ fuel + ar.index) (parseExtra fuel pubkeyFirst ar)
      fun _ => True := by
  induction fuel generalizing pubkeyFirst ar with
  | zero =>
    unfold parseExtra
    split
    · exact Climbs.stop fun henough => by omega
    · exact Climbs.pure trivial
  | succ fuel ih =>
    unfold parseExtra
    split
    · refine (BlobReader.climbs_getVarint ar).bind fun x h₁ => ?_
      obtain ⟨tag, ar₁⟩ := x
      refine climbs_parseEntry tag pubkeyFirst ar₁ h₁ (fun x hx => ?_) fun x hx => ?_
      · exact ⟨.round ar.index x.2.index, List.mem_cons_self, hx⟩
      · refine (climbs_round hx).bind fun _ _ => ?_
        exact (ih x.1 x.2).mono (fun henough => by omega) fun _ => id
    · exact Climbs.pure trivial

end Loops

section Whole

variable (keccak : List UInt8 → Hash) {memory : List UInt8} {allocates : Nat → Bool} {fuel : Nat}
  (hmemory : memory.length < 2 ^ 63) (ar : BlobReader 0 memory.length)

include hmemory

theorem climbs_parseZephyr {enough : Prop} (outputType : UInt8) (numOutputs : UInt64) :
    Climbs memory allocates Falls enough (parseZephyr outputType numOutputs ar) fun _ => True := by
  refine (climbs_rejectIf _).bind fun _ _ => ?_
  refine (BlobReader.climbs_getVarint ar).bind fun ⟨assetTypeLen, ar⟩ _ => ?_
  refine (BlobReader.climbs_skip ar _).bind fun ar _ => ?_
  exact (climbs_parseViewTag ar).bind fun ar _ => climbs_parseZephyrOutputs hmemory _ ar

theorem climbs_parseOutputs {enough : Prop} (coin : Coin) (majorVersion : UInt8)
    (numOutputs : UInt64) : Climbs memory allocates Falls enough
      (parseOutputs coin majorVersion numOutputs ar) fun _ => True := by
  refine (BlobReader.climbs_getVarint ar).bind fun ⟨amount, ar⟩ _ => ?_
  refine (climbs_set _ _).bind fun _ _ => ?_
  refine (BlobReader.climbs_getByte ar).bind fun ⟨outputType, ar⟩ _ => ?_
  refine (climbs_set _ _).bind fun _ _ => ?_
  refine (climbs_rejectIf _).bind fun _ _ => ?_
  refine (climbs_setOffset _ _).bind fun _ _ => ?_
  refine (BlobReader.climbs_spanTo ar (fun _ => id) _).bind fun ar _ => ?_
  refine (climbs_parseIf ar _ (climbs_parseCarrot ar)).bind fun ar _ => ?_
  split
  · exact climbs_parseZephyr hmemory ar _ _
  · exact climbs_parseIf ar _ (climbs_parseViewTag ar)

omit hmemory in
theorem climbs_parseRest (coin : Coin) (hashes : Bool) (height : UInt64) (prefixBegin : UInt32) :
    Climbs memory allocates Falls (2 ^ 64 ≤ fuel)
      (parseRest keccak coin hashes fuel height prefixBegin ar) fun _ => True := by
  refine (BlobReader.climbs_getVarint ar).bind fun ⟨extraSize, ar⟩ _ => ?_
  refine (climbs_set _ _).bind fun _ _ => ?_
  refine (climbs_setOffset _ _).bind fun _ _ => ?_
  refine (BlobReader.climbs_skip ar _).bind fun ar _ => ?_
  have hsize := extraSize.toNat_lt
  refine ((climbs_parseExtra fuel true _).mono (fun henough => ?_) fun _ => id).bind
    fun _ _ => climbs_parseTail ar keccak coin hashes height prefixBegin
  change extraSize.toNat ≤ fuel + 0
  omega

end Whole

theorem climbs_parse (keccak : List UInt8 → Hash) (allocates : Nat → Bool) (blob : Blob)
    (coin : Coin) (hashes : Bool) (fuel : Nat) : Climbs blob.bytes allocates Falls (2 ^ 64 ≤ fuel)
      (parse keccak blob coin hashes fuel) fun _ => True := by
  have hmemory := blob.length_lt
  refine (climbs_parseHeader _).bind fun ⟨majorVersion, ar⟩ _ => ?_
  refine (climbs_parseIf ar _ (climbs_parseMinerSignature ar)).bind fun ar _ => ?_
  refine (climbs_parseIf ar _ (climbs_parsePricingRecord ar)).bind fun ar _ => ?_
  refine (climbs_parseInput ar coin).bind fun ⟨height, numOutputs, ar⟩ _ => ?_
  refine (climbs_parseOutputs hmemory ar coin _ _).bind fun ar _ => ?_
  refine (climbs_parseIf ar _ (climbs_parseUnlockTime ar)).bind fun ar _ => ?_
  exact climbs_parseRest keccak ar coin hashes height _

/-- The parse ends, and every round of its loops moves the reader on. -/
structure Progresses (runs : Nat → Run Event Unit) : Prop where
  ends : ∃ fuel, (runs fuel).outcome ≠ .stopped .unfinished
  rounds : ∀ fuel start stop, .round start stop ∈ (runs fuel).events → start < stop

/-- The extra is a nonce of 2^64 - 11 bytes, whose size ends at the eleventh byte. -/
def circular : Blob where
  bytes := opening [11] ++ [2, 0xf5] ++ List.replicate 8 0xff ++ [1]
  length_lt := by decide

/-- The first round over the extra ends where it began. -/
theorem extra_stalls : ¬ ∀ (keccak : List UInt8 → Hash) (allocates : Nat → Bool) (blob : Blob)
    (coin : Coin) (hashes : Bool), Progresses fun fuel =>
      (parse keccak blob coin hashes fuel).run (machine blob.bytes allocates) := by
  intro h
  have hrounds := (h (fun _ => MerkleTree.noHash) (fun _ => true) circular .monero false).rounds 1
  have hfalls : ∃ event ∈ ((parse (fun _ => MerkleTree.noHash) circular .monero false 1).run
      (machine circular.bytes fun _ => true)).events, Falls event := by decide +kernel
  obtain ⟨event, hevent, hfalls⟩ := hfalls
  cases event with
  | round start stop => exact absurd (hrounds start stop hevent) (Nat.not_lt.mpr hfalls)
  | assign s v => exact hfalls
  | resize count => exact hfalls

/-- The parse gets ahead exactly if it meets no size that wraps around and takes the reader
back to where the round of the loop began, or before it. -/
theorem parse_progresses (keccak : List UInt8 → Hash) (allocates : Nat → Bool) (blob : Blob)
    (coin : Coin) (hashes : Bool) :
    Progresses (fun fuel => (parse keccak blob coin hashes fuel).run
        (machine blob.bytes allocates)) ↔
      ∀ fuel, ((parse keccak blob coin hashes fuel).run (climbing blob.bytes allocates)).outcome ≠
        .refused := by
  have hclimbs := climbs_parse keccak allocates blob coin hashes
  constructor
  · intro h fuel hrefused
    obtain ⟨event, hevent, hfalls⟩ := (hclimbs fuel).refused_iff.mp hrefused
    cases event with
    | round start stop => exact absurd (h.rounds fuel start stop hevent) (Nat.not_lt.mpr hfalls)
    | assign s v => exact hfalls
    | resize count => exact hfalls
  · intro h
    have hclean (fuel : Nat) : ∀ event ∈ ((parse keccak blob coin hashes fuel).run
        (machine blob.bytes allocates)).events, ¬ Falls event :=
      fun event hevent hfalls => h fuel ((hclimbs fuel).refused_iff.mpr ⟨event, hevent, hfalls⟩)
    exact ⟨⟨2 ^ 64, (hclimbs _).ends le_rfl (hclean _)⟩, fun fuel start stop hevent =>
      Nat.lt_of_not_le (hclean fuel _ hevent)⟩

end VeloxHash.TemplateProgress
