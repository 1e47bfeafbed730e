import VeloxHash.TemplateHistory

/-! `BlockTemplate::generateHashingBlob` of a template that was accepted, and the number at
its end read back by a `BlobReader`. -/

namespace VeloxHash.HashingBlob

open ReaderProgram BlobReader BlockTemplate TemplateMembers

/-- The bytes that the loop over `k` puts out. -/
def varintLoop (k : UInt64) : List UInt8 :=
  if 0x80 ≤ k then (k.toUInt8 &&& 0x7F ||| 0x80) :: varintLoop (k >>> 7) else [k.toUInt8]
termination_by k.toNat
decreasing_by
  rename_i h
  have hk := UInt64.le_iff_toNat_le.mp h
  change 128 ≤ k.toNat at hk
  rw [UInt64.toNat_shiftRight, Nat.shiftRight_eq_div_pow]
  change k.toNat / 2 ^ 7 < _
  omega

/-- `none` where the offset is behind the blob. -/
def generateHashingBlob (t : BlockTemplate) : Option (List UInt8) :=
  if t.offset .minerTxPrefix ≤ t.blob.length then
    some (t.blob.take (t.offset .minerTxPrefix) ++ (t.get .rootHash).toList ++
      varintLoop (t.get .numHashes + 1))
  else none

section Varint

theorem group_eq {t : UInt8} : (t &&& 0x7F ||| 0x80).toNat = t.toNat % 128 + 128 := by
  have hle : (t &&& 0x7F).toNat < 2 ^ 7 := by
    rw [Varint.low_eq]
    omega
  rw [UInt8.toNat_or, Nat.or_comm]
  exact (Nat.two_pow_add_eq_or_of_lt hle 1).symm.trans (by rw [Varint.low_eq]; omega)

theorem varintLoop_eq (k : UInt64) : varintLoop k = Varint.encode k.toNat := by
  induction k using varintLoop.induct with
  | case1 k h ih =>
    have hk := UInt64.le_iff_toNat_le.mp h
    change 128 ≤ k.toNat at hk
    have hshift : (k >>> 7).toNat = k.toNat / 128 := by
      rw [UInt64.toNat_shiftRight, Nat.shiftRight_eq_div_pow]
      rfl
    rw [varintLoop, if_pos h, ih, hshift, Varint.encode_large (v := k.toNat) (by omega)]
    congr 1
    apply UInt8.toNat.inj
    rw [group_eq, Varint.toNat_large, UInt64.toNat_toUInt8]
    omega
  | case2 k h =>
    have hk := mt UInt64.le_iff_toNat_le.mpr h
    change ¬ 128 ≤ k.toNat at hk
    rw [varintLoop, if_neg h, Varint.encode_small (by omega)]
    congr 1

/-- A reader in front of these bytes reads the number and takes nothing but them. -/
def ReadsBack (k : UInt64) (bytes : List UInt8) : Prop :=
  ∀ (memory : List UInt8) (allocates : Nat → Bool) (data size : Nat) (ar : BlobReader data size)
    (rest : List UInt8), data + size ≤ memory.length →
    memory.drop (data + ar.index) = bytes ++ rest → ar.index + bytes.length ≤ size →
    ∃ next : BlobReader data size, ((ar.getVarint : Prog Event _).run
      (machine memory allocates)).outcome = .ok (k, next) ∧ next.index = ar.index + bytes.length

theorem readsBack_varintLoop (k : UInt64) : ReadsBack k (varintLoop k) := by
  intro memory allocates data size ar rest hin hdrop hroom
  rw [varintLoop_eq] at hdrop hroom ⊢
  have hsize : Varint.size (memory.drop (data + ar.index)) = (Varint.encode k.toNat).length := by
    rw [hdrop, Varint.size_encode]
  obtain ⟨⟨v, next⟩, hok⟩ : Succeeds (machine memory allocates) (ar.getVarint : Prog Event _) :=
    succeeds_getVarint ar hin (by rw [hsize]; exact hroom)
  have hindex := (ends_getVarint ar (v, next) hok).1
  have hvalue := ends_getVarint_encode ar k.toNat_lt hdrop (v, next) hok
  rw [varintLength_eq, hsize] at hindex
  obtain rfl : v = k := UInt64.toNat.inj hvalue
  exact ⟨next, hok, hindex⟩

end Varint

/-- The last number of hashes that one more than it is not a word. -/
def tooMany : UInt64 := 0xFFFFFFFFFFFFFFFF

/-- What an event of a parse over a blob of `n` bytes leaves for the hashing blob. -/
structure Sound (n : Nat) (hashes : Bool) (e : Event) : Prop where
  blob : ¬ Touches .blob e
  minerTxPrefix : ∀ v, e = .assign (.offset .minerTxPrefix) v → v.toNat ≤ n
  numHashes : hashes = true → e ≠ .assign .numHashes tooMany

section Parse

variable {n : Nat} {hashes : Bool} {allocates : Nat → Bool} {e : Event} {env : Env}

theorem sound_of_leaves {kept : Slot → Bool} (h : Leaves kept e) (hblob : kept .blob = true)
    (hfirst : kept (.offset .minerTxPrefix) = true) (hnumber : kept .numHashes = true) :
    Sound n hashes e where
  blob := h _ hblob
  minerTxPrefix _ he := absurd (show Touches _ e from he ▸ rfl) (h _ hfirst)
  numHashes _ he := h _ hnumber (he ▸ rfl)

theorem sound_of_prior (h : Leaves isPrior e) : Sound n hashes e := sound_of_leaves h rfl rfl rfl

theorem sound_of_later (h : Leaves isLater e) : Sound n hashes e := sound_of_leaves h rfl rfl rfl

/-- The members that only the offset of the prefix and the number of the hashes are none of. -/
def isCritical : Slot → Bool
  | .blob | .offset .minerTxPrefix | .numHashes => true
  | _ => false

theorem sound_assign {s : Slot} (v : s.Value) (h : isCritical s = false) :
    Sound n hashes (.assign s v) := sound_of_leaves (leaves_assign v h) rfl rfl rfl

/-- All events of a run that succeeds are sound. -/
def Soundly {α : Type} (env : Env) (n : Nat) (hashes : Bool) (p : Prog Event α) : Prop :=
  Ends env p fun _ events => ∀ e ∈ events, Sound n hashes e

variable {α β : Type} {p : Prog Event α} {f : α → Prog Event β} {must : List Slot}

theorem Soundly.bind (hp : Soundly env n hashes p) (hf : ∀ a, Soundly env n hashes (f a)) :
    Soundly env n hashes (p >>= f) :=
  Ends.bind hp fun a _ hevents => (hf a).mono fun _ _ hlater e he =>
    (List.mem_append.mp he).elim (hevents e) (hlater e)

theorem soundly_of_writes (h : Writes env (Sound n hashes) must p) : Soundly env n hashes p :=
  fun _ _ => h.keeps

theorem soundly_of_silent (h : Silent env p) : Soundly env n hashes p :=
  soundly_of_writes (writes_silent h)

theorem soundly_of_prior (h : Writes env (Leaves isPrior) must p) : Soundly env n hashes p :=
  soundly_of_writes (h.imp fun _ => sound_of_prior)

theorem soundly_set {s : Slot} (v : s.Value) (h : isCritical s = false) :
    Soundly env n hashes (set s v) :=
  soundly_of_writes (writes_assign (sound_assign v h) (writes_pure ()))

theorem soundly_halted {outcome : Outcome α} (hrun : p.run env = ⟨outcome, [], []⟩)
    (h : ∀ a, outcome ≠ .ok a) : Soundly env n hashes p := ends_halted hrun h

theorem soundly_pure (a : α) : Soundly env n hashes (pure a : Prog Event α) :=
  soundly_of_silent rfl

variable (keccak : List UInt8 → Hash) (ar : BlobReader 0 n)

theorem ends_alloc {Q : α → List Event → Prop} {count : Nat} (h : Ends env p Q) :
    Ends env (.alloc count p) Q := by
  unfold Ends
  rw [Prog.run]
  split
  · exact h
  · intro _ ha
    cases ha

theorem ends_require {Q : α → List Event → Prop} {inside : Bool}
    (h : inside = true → Ends env p Q) : Ends env (.require inside p) Q := by
  unfold Ends
  rw [Prog.run]
  split
  · exact h ‹_›
  · split <;> intro _ ha <;> cases ha

theorem soundly_parseHashes (prefixBegin prefixEnd : UInt32) (numHashes : UInt64) :
    Soundly env n hashes (parseHashes keccak prefixBegin prefixEnd numHashes ar) := by
  have hresize (count : Nat) : Sound n hashes (.resize count) := ⟨nofun, nofun, fun _ => nofun⟩
  refine Soundly.bind (ends_alloc (soundly_of_writes (writes_tell (hresize _) (writes_pure ()))))
    fun _ => ?_
  refine Soundly.bind (ends_require fun _ => soundly_of_silent (silent_load _ _)) fun _ => ?_
  refine Soundly.bind (ends_require fun _ => soundly_set (s := .hash 0) _ rfl) fun _ => ?_
  have hloop : Writes env (Sound n hashes) _ (hashLoop _ numHashes.toNat 1 ar) :=
    writes_hashLoop ar (fun _ _ => sound_assign _ rfl) ((numHashes.toNat + 1) % 2 ^ 59) _ _
  refine (soundly_of_writes hloop).bind fun _ => ?_
  exact (soundly_set (s := .minerTxMerkleTreeBranch) _ rfl).bind fun _ =>
    soundly_set (s := .rootHash) _ rfl

/-- With the hashes, their number leaves room for one more: else there is none to write. -/
theorem ends_parseHashes (prefixBegin prefixEnd : UInt32) (numHashes : UInt64) :
    Ends env (parseHashes keccak prefixBegin prefixEnd numHashes ar) fun _ _ =>
      numHashes ≠ tooMany := by
  refine Ends.bind (Q := fun _ _ => True) (fun _ _ => trivial) fun _ _ _ => ?_
  refine Ends.bind (Q := fun _ _ => True) (fun _ _ => trivial) fun _ _ _ => ?_
  refine Ends.bind (Q := fun _ _ => numHashes ≠ tooMany) (ends_require fun h _ _ => ?_)
    fun _ _ h _ _ => h
  rintro rfl
  exact absurd h (by decide)

theorem soundly_parseTail (coin : Coin) (hashes : Bool) (height : UInt64) (prefixBegin : UInt32) :
    Soundly env n hashes (parseTail keccak coin hashes height prefixBegin ar) := by
  refine (soundly_of_prior (writes_parseIf ar (writes_parseZephyrBurn ar))).bind fun ar => ?_
  refine (soundly_set (s := .offset .minerTxPrefixEnd) _ rfl).bind fun _ => ?_
  refine (soundly_of_silent (silent_getByte ar)).bind fun ⟨vinRctType, ar⟩ => ?_
  dsimp only
  split
  · exact soundly_pure ()
  · split
    · exact soundly_halted rfl (by simp)
    · refine (soundly_of_silent (silent_load _ _)).bind fun atEnd => ?_
      refine (soundly_of_prior (writes_rejectIf _)).bind fun _ => ?_
      refine (soundly_of_silent (silent_getVarint ar)).bind fun ⟨numHashes, ar⟩ => ?_
      cases hashes with
      | false =>
        have hset : Sound n false (.assign .numHashes numHashes) := ⟨nofun, nofun, nofun⟩
        exact soundly_of_writes (writes_assign hset (writes_pure ()))
      | true =>
        refine ends_tell fun a ha => ?_
        have hroom := ends_parseHashes keccak ar _ _ numHashes a ha
        have hset : Sound n true (.assign .numHashes numHashes) :=
          ⟨nofun, nofun, fun _ he => hroom (by cases he; rfl)⟩
        exact List.forall_mem_cons.mpr ⟨hset, soundly_parseHashes keccak ar _ _ numHashes a ha⟩

theorem soundly_parseRest (coin : Coin) (hashes : Bool) (fuel : Nat) (height : UInt64)
    (prefixBegin : UInt32) :
    Soundly env n hashes (parseRest keccak coin hashes fuel height prefixBegin ar) := by
  refine (soundly_of_silent (silent_getVarint ar)).bind fun ⟨extraSize, ar⟩ => ?_
  refine (soundly_set (s := .extraSize) _ rfl).bind fun _ => ?_
  refine (soundly_set (s := .offset .txExtra) _ rfl).bind fun _ => ?_
  refine (soundly_of_silent (silent_advance ar _ _)).bind fun ar => ?_
  refine (soundly_of_prior (writes_parseExtra fuel true _)).bind fun _ => ?_
  exact soundly_parseTail keccak ar coin hashes height prefixBegin

theorem soundly_parseBody (coin : Coin) (hashes : Bool) (fuel : Nat) (majorVersion : UInt8) :
    Soundly env n hashes (parseBody keccak coin hashes fuel majorVersion ar) := by
  refine (soundly_of_prior (writes_parseIf ar (writes_parsePricingRecord ar))).bind fun ar => ?_
  have hfirst : Sound n hashes (.assign (.offset .minerTxPrefix) (UInt32.ofNat ar.index)) := by
    refine ⟨nofun, fun v hv => ?_, fun _ => nofun⟩
    cases hv
    exact (Nat.mod_le ..).trans ar.index_le
  have hinput : Writes env (Sound n hashes) (inputSlots coin) (parseInput coin ar) :=
    writes_parseInput ar coin hfirst fun _ => sound_of_prior
  refine (soundly_of_writes hinput).bind fun ⟨height, numOutputs, ar⟩ => ?_
  refine (soundly_of_prior (writes_parseOutputs ar coin _ _)).bind fun ar => ?_
  refine (soundly_of_prior (writes_parseIf ar (writes_parseUnlockTime ar))).bind fun ar => ?_
  exact soundly_parseRest keccak ar coin hashes fuel height _

theorem soundly_parse (blob : Blob) (coin : Coin) (hashes : Bool) (fuel : Nat) :
    Soundly env blob.bytes.length hashes (parse keccak blob coin hashes fuel) := by
  rw [parse_eq]
  have hhead : Writes env (Sound blob.bytes.length hashes) _ (parseHead blob coin) :=
    (writes_parseHead blob coin).imp fun _ => sound_of_later
  exact (soundly_of_writes hhead).bind fun x => soundly_parseBody keccak x.2 coin hashes fuel x.1

end Parse

section Accepted

variable (keccak : List UInt8 → Hash) (allocates : Nat → Bool) (fuel : Nat) (coin : Coin)
  (hashes : Bool)

/-- A template that has accepted a blob, as it is or as hexadecimal text. -/
def Accepted (t t' : BlockTemplate) : Prop :=
  (∃ blob, t.parseBlob keccak allocates fuel blob coin hashes = (.ok (), t')) ∨
    ∃ hex, t.parseHex keccak allocates fuel hex coin hashes = (.ok (), t')

variable {keccak allocates fuel coin hashes} {t t' : BlockTemplate}

/-- What is assigned last, if anything. -/
theorem applyAll_last {s : Slot} (hentry : isEntry s = false) (events : List Event)
    (t : BlockTemplate) :
    (¬ Assigns events s ∧ (t.applyAll events).get s = t.get s) ∨
      ∃ v, .assign s v ∈ events ∧ (t.applyAll events).get s = v := by
  by_cases h : Assigns events s
  · right
    induction events generalizing t with
    | nil => exact absurd h.choose_spec List.not_mem_nil
    | cons e events ih =>
      by_cases hlater : Assigns events s
      · obtain ⟨v, hv, hget⟩ := ih (t.apply e) hlater
        exact ⟨v, List.mem_cons_of_mem _ hv, hget⟩
      · obtain ⟨v, hv⟩ := h
        obtain rfl : .assign s v = e :=
          (List.mem_cons.mp hv).resolve_right fun hmem => hlater ⟨v, hmem⟩
        have hrest := applyAll_untouched (t := t.apply (.assign s v))
          (untouched (fun _ => hentry) hlater)
        exact ⟨v, hv, hrest.trans (apply_assign t s v)⟩
  · exact .inl ⟨h, applyAll_untouched (untouched (fun _ => hentry) h)⟩

/-- Either way a blob is loaded and parsed. -/
theorem Accepted.run (h : Accepted keccak allocates fuel coin hashes t t') : ∃ blob : Blob,
    (parseRun keccak allocates fuel blob coin hashes).outcome = .ok () ∧ t' =
      (loaded blob coin t).applyAll (parseRun keccak allocates fuel blob coin hashes).events := by
  rcases h with ⟨blob, h⟩ | ⟨hex, h⟩
  · unfold parseBlob at h
    split at h
    · exact nomatch h
    · exact ⟨blob, congrArg Prod.fst h, (congrArg Prod.snd h).symm⟩
  · unfold parseHex at h
    split at h
    · exact nomatch h
    · dsimp only at h
      cases hdecode : Hex.decode hex.bytes with
      | none =>
        rw [hdecode] at h
        exact nomatch h
      | some bytes =>
        have hdecodes := Hex.decodes_of_decode hdecode
        have hbytes : hex.decoded.bytes = bytes := hdecodes.leading_eq
        rw [hdecode, hdecodes.into_eq, ← hbytes] at h
        exact ⟨hex.decoded, congrArg Prod.fst h, (congrArg Prod.snd h).symm⟩

/-- The bytes in front of the prefix are there, and with the hashes their number leaves room
for one more unless it was there before. -/
theorem Accepted.members (h : Accepted keccak allocates fuel coin hashes t t') :
    t'.offset .minerTxPrefix ≤ t'.blob.length ∧
      (hashes = true → t.get .numHashes ≠ tooMany → t'.get .numHashes ≠ tooMany) := by
  obtain ⟨blob, hok, rfl⟩ := h.run
  have hsound := soundly_parse keccak blob coin hashes fuel () hok
  have hsettles : Settles (machine blob.bytes allocates) isOuter hashes (mandatory coin) _ :=
    settles_parse keccak blob coin hashes fuel
  have hmust := hsettles.assigns () hok (.offset .minerTxPrefix)
    (by simp [mandatory, bodySlots, inputSlots])
  constructor
  · have hblob : ((loaded blob coin t).applyAll
        (parseRun keccak allocates fuel blob coin hashes).events).blob = blob.bytes :=
      (applyAll_untouched fun e he => (hsound e he).blob).trans (loaded_blob blob coin t)
    rw [hblob]
    rcases applyAll_last (s := .offset .minerTxPrefix) rfl _ (loaded blob coin t) with
      ⟨hnone, _⟩ | ⟨v, hv, hget⟩
    · exact absurd hmust hnone
    · exact (congrArg UInt32.toNat hget).trans_le ((hsound _ hv).minerTxPrefix v rfl)
  · intro hhashes hbefore
    rcases applyAll_last (s := .numHashes) rfl _ (loaded blob coin t) with
      ⟨_, hget⟩ | ⟨v, hv, hget⟩
    · rw [hget, loaded_get blob coin (by decide) (by decide)]
      exact hbefore
    · rw [hget]
      rintro rfl
      exact (hsound _ hv).numHashes hhashes rfl

/-- The bytes of a hashing blob, and its last number as a reader finds it behind the root. -/
structure Emitted (t : BlockTemplate) (out : List UInt8) : Prop where
  inside : t.offset .minerTxPrefix ≤ t.blob.length
  bytes : out = t.blob.take (t.offset .minerTxPrefix) ++ (t.get .rootHash).toList ++
    Varint.encode (t.get .numHashes + 1).toNat
  readsBack : ∀ (allocates : Nat → Bool) (ar : BlobReader 0 out.length),
    ar.index = t.offset .minerTxPrefix + 32 → ∃ next : BlobReader 0 out.length,
      ((ar.getVarint : Prog Event _).run (machine out allocates)).outcome =
        .ok (t.get .numHashes + 1, next) ∧ next.index = out.length

theorem emitted_generateHashingBlob (h : t.offset .minerTxPrefix ≤ t.blob.length) :
    ∃ out, generateHashingBlob t = some out ∧ Emitted t out := by
  refine ⟨_, if_pos h, h, by rw [varintLoop_eq], fun allocates ar hindex => ?_⟩
  have hfront : (t.blob.take (t.offset .minerTxPrefix) ++ (t.get .rootHash).toList).length =
      ar.index := by
    rw [List.length_append, List.length_take, Nat.min_eq_left h, Vector.length_toList, hindex]
  have hread := readsBack_varintLoop (t.get .numHashes + 1) _ allocates 0 _ ar []
    (Nat.zero_add _).le
  rw [List.append_nil, Nat.zero_add, ← hfront, List.drop_left] at hread
  obtain ⟨next, hok, hnext⟩ := hread rfl (List.length_append ..).ge
  exact ⟨next, hok, hnext.trans (List.length_append ..).symm⟩

/-- An accepted template puts out a hashing blob whose last number is read back, and so is every
number in the form that it puts out. -/
theorem generateHashingBlob_reads_back (h : Accepted keccak allocates fuel coin hashes t t') :
    (∃ out, generateHashingBlob t' = some out ∧ Emitted t' out) ∧
      (hashes = true → t.get .numHashes ≠ tooMany →
        (t'.get .numHashes + 1).toNat = (t'.get .numHashes).toNat + 1) ∧
      ∀ k, ReadsBack k (varintLoop k) := by
  obtain ⟨hinside, hroom⟩ := h.members
  refine ⟨emitted_generateHashingBlob hinside, fun hhashes hbefore => ?_, readsBack_varintLoop⟩
  have hlt := (t'.get .numHashes).toNat_lt
  have hne : (t'.get .numHashes).toNat ≠ 2 ^ 64 - 1 := fun heq =>
    hroom hhashes hbefore (UInt64.toNat.inj heq)
  rw [UInt64.toNat_add, UInt64.toNat_one, Nat.mod_eq_of_lt (by omega)]

/-- A template without transactions, parsed with the hashes. -/
def parsed : BlockTemplate :=
  ((⟨initial⟩ : BlockTemplate).parseBlob (fun _ => MerkleTree.noHash) (fun _ => true) 1
    TemplateHistory.unsigned .monero true).2

theorem generateHashingBlob_reads_back_parsed :
    ∃ out, generateHashingBlob parsed = some out ∧ Emitted parsed out := by
  have hok : ((⟨initial⟩ : BlockTemplate).parseBlob (fun _ => MerkleTree.noHash) (fun _ => true) 1
      TemplateHistory.unsigned .monero true).1 = .ok () := by decide +kernel
  exact (generateHashingBlob_reads_back (.inl ⟨TemplateHistory.unsigned, Prod.ext hok rfl⟩)).1

end Accepted

end VeloxHash.HashingBlob
