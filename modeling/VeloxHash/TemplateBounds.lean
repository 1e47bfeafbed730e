import VeloxHash.BlockTemplate

/-! What `BlockTemplate::parse` reads and writes. The lengths in a template are 64 bits wide,
and the bounds checks of the reader add them to its index. -/

namespace VeloxHash.TemplateBounds

open ReaderProgram BlockTemplate

/-- The members that point into the blob. -/
def spans : Event → List Span
  | .assign .prevId v | .assign .minerSignature v | .assign .ephPublicKey v
  | .assign .txExtraNonce v | .assign .txMergeMiningTag v => [v]
  | _ => []

/-- What an event leaves behind points into the memory. -/
def Points (memory : List UInt8) (e : Event) : Prop :=
  ∀ s ∈ spans e, s.data + s.size ≤ memory.length

/-- Reads stay inside the blob and writes inside `m_hashes`, no bounds check is passed by an
index that wrapped around, and the spans that are stored lie in the blob. -/
structure Inside (memory : List UInt8) (r : Run Event Unit) : Prop where
  access : r.outcome ≠ .fault
  noWrap : ∀ j ∈ r.checks, j.target ≤ j.size
  checks : ∀ j ∈ r.checks, j.base + j.target ≤ memory.length
  spans : ∀ e ∈ r.events, Points memory e

section Stages

variable {memory : List UInt8} {allocates : Nat → Bool}

theorem points_of_spans {e : Event} (h : spans e = []) : Points memory e := by
  intro s hs
  rw [h] at hs
  exact absurd hs List.not_mem_nil

theorem points_of_span {e : Event} {s : Span} (h : spans e = [s])
    (hs : s.data + s.size ≤ memory.length) : Points memory e := by
  intro s' hs'
  rw [h, List.mem_singleton] at hs'
  exact hs' ▸ hs

theorem safe_set {s : Slot} {v : s.Value} (h : spans (.assign s v) = []) :
    Safe memory allocates (Points memory) (set s v) fun _ => True :=
  Safe.tell (points_of_spans h) (Safe.pure trivial)

theorem safe_setOffset (o : Offset) (index : Nat) :
    Safe memory allocates (Points memory) (setOffset o index) fun _ => True := safe_set rfl

theorem safe_rejectIf (condition : Bool) :
    Safe memory allocates (Points memory) (rejectIf condition) fun _ => True := by
  unfold rejectIf
  split
  · exact Safe.stop _
  · exact Safe.pure trivial

variable (ar : BlobReader 0 memory.length)

theorem inside_blob : 0 + memory.length ≤ memory.length := (Nat.zero_add _).le

theorem safe_parseHeader : Safe memory allocates (Points memory) (parseHeader ar) fun _ => True := by
  refine (BlobReader.safe_getByte inside_blob ar).bind fun ⟨major, ar⟩ _ => ?_
  refine (safe_set rfl).bind fun _ _ => ?_
  refine (BlobReader.safe_getByte inside_blob ar).bind fun ⟨minor, ar⟩ _ => ?_
  refine (safe_set rfl).bind fun _ _ => ?_
  refine (BlobReader.safe_getVarint inside_blob ar).bind fun ⟨timestamp, ar⟩ _ => ?_
  refine (safe_set rfl).bind fun _ _ => ?_
  refine (BlobReader.safe_spanTo inside_blob ar (fun s => points_of_span rfl) _ _).bind
    fun ar _ => ?_
  refine (safe_setOffset _ _).bind fun _ _ => ?_
  exact (BlobReader.safe_advance inside_blob ar _ _).bind fun ar _ => Safe.pure trivial

theorem safe_parseMinerSignature :
    Safe memory allocates (Points memory) (parseMinerSignature ar) fun _ => True := by
  refine (BlobReader.safe_spanTo inside_blob ar (fun s => points_of_span rfl) _ _).bind
    fun ar _ => ?_
  refine (BlobReader.safe_array inside_blob ar _).bind fun ⟨vote, ar⟩ _ => ?_
  exact (safe_set rfl).bind fun _ _ => Safe.pure trivial

theorem safe_parsePricingRecord :
    Safe memory allocates (Points memory) (parsePricingRecord ar) fun _ => True :=
  (BlobReader.safe_array inside_blob ar _).bind fun _ _ => Safe.pure trivial

/-- A varint that is stored. -/
theorem safe_parseUnlockTime : Safe memory allocates (Points memory) (parseUnlockTime ar)
    fun next => ar.index ≤ next.index := by
  refine (BlobReader.safe_getVarint inside_blob ar).bind fun ⟨unlockTime, next⟩ hnext => ?_
  exact (safe_set rfl).bind fun _ _ => Safe.pure hnext.le

theorem safe_parseViewTag : Safe memory allocates (Points memory) (parseViewTag ar)
    fun next => ar.index ≤ next.index := by
  refine (BlobReader.safe_getByte inside_blob ar).bind fun ⟨viewTag, next⟩ hnext => ?_
  exact (safe_set rfl).bind fun _ _ => Safe.pure (by dsimp only at hnext; omega)

theorem safe_parseIf {condition : Bool}
    {step : BlobReader 0 memory.length → Prog Event (BlobReader 0 memory.length)}
    (h : Safe memory allocates (Points memory) (step ar) fun next => ar.index ≤ next.index) :
    Safe memory allocates (Points memory) (parseIf condition step ar)
      fun next => ar.index ≤ next.index := by
  unfold parseIf
  split
  · exact h
  · exact Safe.pure le_rfl

theorem safe_parseInput (coin : Coin) : Safe memory allocates (Points memory) (parseInput coin ar)
    fun x => ar.index ≤ x.2.2.index := by
  refine (safe_setOffset _ _).bind fun _ _ => ?_
  refine (BlobReader.safe_getVarint inside_blob ar).bind fun ⟨txVersion, ar₁⟩ h₁ => ?_
  refine (safe_set rfl).bind fun _ _ => ?_
  refine (safe_parseIf ar₁ (safe_parseUnlockTime ar₁)).bind fun ar₂ h₂ => ?_
  refine (BlobReader.safe_getVarint inside_blob ar₂).bind fun ⟨numInputs, ar₃⟩ h₃ => ?_
  refine (safe_set rfl).bind fun _ _ => ?_
  refine (safe_rejectIf _).bind fun _ _ => ?_
  refine (BlobReader.safe_getByte inside_blob ar₃).bind fun ⟨inputType, ar₄⟩ h₄ => ?_
  refine (safe_set rfl).bind fun _ _ => ?_
  refine (safe_rejectIf _).bind fun _ _ => ?_
  refine (BlobReader.safe_getVarint inside_blob ar₄).bind fun ⟨height, ar₅⟩ h₅ => ?_
  refine (safe_set rfl).bind fun _ _ => ?_
  refine (BlobReader.safe_getVarint inside_blob ar₅).bind fun ⟨numOutputs, ar₆⟩ h₆ => ?_
  refine (safe_set rfl).bind fun _ _ => ?_
  refine (safe_rejectIf _).bind fun _ _ => Safe.pure ?_
  dsimp only at *
  omega

theorem safe_parseCarrot : Safe memory allocates (Points memory) (parseCarrot ar)
    fun next => ar.index ≤ next.index := by
  refine (BlobReader.safe_array inside_blob ar _).bind fun ⟨carrotViewTag, ar₁⟩ h₁ => ?_
  refine (safe_set rfl).bind fun _ _ => ?_
  refine (BlobReader.safe_array inside_blob ar₁ _).bind fun ⟨janusAnchor, ar₂⟩ h₂ => ?_
  exact (safe_set rfl).bind fun _ _ => Safe.pure (h₁.trans h₂)

theorem safe_round (start stop : Nat) :
    Safe memory allocates (Points memory) (round start stop) fun _ => True :=
  Safe.tell (points_of_spans rfl) (Safe.pure trivial)

theorem safe_parseZephyrOutputs (left : Nat) : Safe memory allocates (Points memory)
    (parseZephyrOutputs left ar) fun next => ar.index ≤ next.index := by
  induction left generalizing ar with
  | zero => exact Safe.pure le_rfl
  | succ left ih =>
    refine (BlobReader.safe_getVarint inside_blob ar).bind fun ⟨amount, ar₁⟩ h₁ => ?_
    refine (BlobReader.safe_getByte inside_blob ar₁).bind fun ⟨outputType, ar₂⟩ h₂ => ?_
    refine (safe_rejectIf _).bind fun _ _ => ?_
    refine (BlobReader.safe_span inside_blob ar₂ _ _).bind fun ⟨key, ar₃⟩ h₃ => ?_
    refine (BlobReader.safe_getVarint inside_blob ar₃).bind fun ⟨assetTypeLen, ar₄⟩ h₄ => ?_
    refine (BlobReader.safe_advance inside_blob ar₄ _ _).bind fun ar₅ h₅ => ?_
    refine (BlobReader.safe_getByte inside_blob ar₅).bind fun ⟨viewTag, ar₆⟩ h₆ => ?_
    refine (safe_round _ _).bind fun _ _ => (ih ar₆).mono fun next hnext => ?_
    dsimp only at *
    omega

theorem safe_parseZephyr (outputType : UInt8) (numOutputs : UInt64) :
    Safe memory allocates (Points memory) (parseZephyr outputType numOutputs ar)
      fun next => ar.index ≤ next.index := by
  refine (safe_rejectIf _).bind fun _ _ => ?_
  refine (BlobReader.safe_getVarint inside_blob ar).bind fun ⟨assetTypeLen, ar₁⟩ h₁ => ?_
  refine (BlobReader.safe_advance inside_blob ar₁ _ _).bind fun ar₂ h₂ => ?_
  refine (safe_parseViewTag ar₂).bind fun ar₃ h₃ => ?_
  refine (safe_parseZephyrOutputs ar₃ _).mono fun next hnext => ?_
  dsimp only at *
  omega

theorem safe_parseOutputs (coin : Coin) (majorVersion : UInt8) (numOutputs : UInt64) :
    Safe memory allocates (Points memory) (parseOutputs coin majorVersion numOutputs ar)
      fun next => ar.index ≤ next.index := by
  refine (BlobReader.safe_getVarint inside_blob ar).bind fun ⟨amount, ar₁⟩ h₁ => ?_
  refine (safe_set rfl).bind fun _ _ => ?_
  refine (BlobReader.safe_getByte inside_blob ar₁).bind fun ⟨outputType, ar₂⟩ h₂ => ?_
  refine (safe_set rfl).bind fun _ _ => ?_
  refine (safe_rejectIf _).bind fun _ _ => ?_
  refine (safe_setOffset _ _).bind fun _ _ => ?_
  refine (BlobReader.safe_spanTo inside_blob ar₂ (fun s => points_of_span rfl) _ _).bind
    fun ar₃ h₃ => ?_
  refine (safe_parseIf ar₃ (safe_parseCarrot ar₃)).bind fun ar₄ h₄ => ?_
  have hrest : Safe memory allocates (Points memory) (if coin = .zephyr then
      parseZephyr outputType numOutputs ar₄
      else parseIf (outputType = 3) parseViewTag ar₄)
      fun next => ar₄.index ≤ next.index := by
    split
    · exact safe_parseZephyr ar₄ _ _
    · exact safe_parseIf ar₄ (safe_parseViewTag ar₄)
  refine hrest.mono fun next hnext => ?_
  dsimp only at *
  omega

end Stages

section Extra

variable {memory : List UInt8} {allocates : Nat → Bool} {data size : Nat}
  (hin : data + size ≤ memory.length)

include hin

theorem safe_parseField (o : Offset) {store : Span → Event} (hstore : ∀ s, spans (store s) = [s])
    (start : Nat) (ar : BlobReader data size) :
    Safe memory allocates (Points memory) (parseField o store start ar) fun _ => True := by
  refine (BlobReader.safe_getVarint hin ar).bind fun ⟨fieldSize, ar₁⟩ _ => ?_
  refine (safe_setOffset _ _).bind fun _ _ => ?_
  exact (BlobReader.safe_spanTo hin ar₁ (fun s => points_of_span (hstore s)) _ _).mono
    fun _ _ => trivial

omit hin in
theorem safe_setPubkeyOffset (pubkeyFirst : Bool) (index : Nat) :
    Safe memory allocates (Points memory) (setPubkeyOffset pubkeyFirst index) fun _ => True := by
  unfold setPubkeyOffset
  split
  · exact safe_setOffset _ _
  · exact Safe.pure trivial

theorem safe_parseEntry (tag : UInt64) (start : Nat) (pubkeyFirst : Bool)
    (ar : BlobReader data size) : Safe memory allocates (Points memory)
      (parseEntry tag start pubkeyFirst ar) fun _ => True := by
  unfold parseEntry
  split
  · refine (safe_setPubkeyOffset _ _).bind fun _ _ => ?_
    exact (BlobReader.safe_advance hin ar _ _).bind fun _ _ => Safe.pure trivial
  · split
    · exact (safe_parseField hin _ (fun _ => rfl) _ ar).bind fun _ _ => Safe.pure trivial
    · split
      · exact (safe_parseField hin _ (fun _ => rfl) _ ar).bind fun _ _ => Safe.pure trivial
      · exact Safe.stop _

theorem safe_parseExtra (fuel : Nat) (pubkeyFirst : Bool) (ar : BlobReader data size) :
    Safe memory allocates (Points memory) (parseExtra fuel pubkeyFirst ar) fun _ => True := by
  induction fuel generalizing pubkeyFirst ar with
  | zero =>
    unfold parseExtra
    split
    · exact Safe.stop _
    · exact Safe.pure trivial
  | succ fuel ih =>
    unfold parseExtra
    split
    · refine (BlobReader.safe_getVarint hin ar).bind fun ⟨tag, ar₁⟩ _ => ?_
      refine (safe_parseEntry hin tag _ pubkeyFirst ar₁).bind fun ⟨pubkeyFirst, ar₂⟩ _ => ?_
      exact (safe_round _ _).bind fun _ _ => ih pubkeyFirst ar₂
    · exact Safe.pure trivial

end Extra

section Whole

variable (keccak : List UInt8 → Hash) {memory : List UInt8} {allocates : Nat → Bool}
  (ar : BlobReader 0 memory.length)

theorem safe_hashLoop (count left i : Nat) : Safe memory allocates (Points memory)
    (hashLoop count left i ar) fun _ => True := by
  induction left generalizing i ar with
  | zero => exact Safe.pure trivial
  | succ left ih =>
    refine (BlobReader.safe_span inside_blob ar _ _).bind fun ⟨h, next⟩ hh => ?_
    have hload : Safe memory allocates (Points memory) (.load h.data h.size .pure) fun _ => True :=
      Safe.load hh.1 fun _ => Safe.pure trivial
    refine hload.bind fun bytes _ => ?_
    refine (Safe.require fun _ => safe_set rfl).bind fun _ _ => ?_
    exact (ih next (i + 1)).bind fun _ _ => Safe.pure trivial

theorem safe_parseHashes {prefixBegin prefixEnd : UInt32} (hle : prefixBegin ≤ prefixEnd)
    (hend : prefixEnd.toNat ≤ memory.length) (numHashes : UInt64) :
    Safe memory allocates (Points memory) (parseHashes keccak prefixBegin prefixEnd numHashes ar)
      fun _ => True := by
  have hlength := UInt32.toNat_sub_of_le _ _ hle
  have hbegin := UInt32.le_iff_toNat_le.mp hle
  have hresize : Safe memory allocates (Points memory)
      (.alloc ((numHashes.toNat + 1) % 2 ^ 59)
        (.tell (.resize ((numHashes.toNat + 1) % 2 ^ 59)) (.pure ()))) fun _ => True :=
    Safe.alloc (Safe.tell (points_of_spans rfl) (Safe.pure trivial))
  refine hresize.bind fun _ _ => ?_
  refine Safe.bind (Safe.require fun _ => Safe.load (by omega) fun _ => Safe.pure trivial)
    fun _ _ => ?_
  refine (Safe.require fun _ => safe_set rfl).bind fun _ _ => ?_
  refine (safe_hashLoop ar _ _ _).bind fun _ _ => ?_
  exact (safe_set rfl).bind fun _ _ => safe_set rfl

theorem safe_parseZephyrBurn : Safe memory allocates (Points memory) (parseZephyrBurn ar)
    fun next => ar.index ≤ next.index := by
  refine (BlobReader.safe_getVarint inside_blob ar).bind fun ⟨_, ar₁⟩ h₁ => ?_
  refine (BlobReader.safe_getVarint inside_blob ar₁).bind fun ⟨_, ar₂⟩ h₂ => ?_
  refine (BlobReader.safe_getVarint inside_blob ar₂).bind fun ⟨_, ar₃⟩ h₃ => Safe.pure ?_
  dsimp only at *
  omega

/-- The prefix that is hashed ends where the check behind it says. -/
theorem safe_parseTail (coin : Coin) (hashes : Bool) (height : UInt64) {prefixBegin : UInt32}
    (hbegin : prefixBegin.toNat ≤ ar.index) : Safe memory allocates (Points memory)
      (parseTail keccak coin hashes height prefixBegin ar) fun _ => True := by
  refine (safe_parseIf ar (safe_parseZephyrBurn ar)).bind fun ar₁ h₁ => ?_
  refine (safe_setOffset _ _).bind fun _ _ => ?_
  refine (BlobReader.safe_getByte inside_blob ar₁).bind fun ⟨vinRctType, ar₂⟩ h₂ => ?_
  dsimp only
  split
  · exact Safe.pure trivial
  · split
    · exact Safe.stop _
    · rename_i hcheck
      dsimp only at h₂
      have hend : (UInt32.ofNat ar₁.index).toNat = ar₁.index := by omega
      have hin := ar₂.index_le
      refine Safe.bind (Safe.load (by omega) fun _ => Safe.pure trivial) fun atEnd _ => ?_
      refine (safe_rejectIf _).bind fun _ _ => ?_
      refine (BlobReader.safe_getVarint inside_blob ar₂).bind fun ⟨numHashes, ar₃⟩ _ => ?_
      refine (safe_set rfl).bind fun _ _ => ?_
      dsimp only
      split
      · exact safe_parseHashes keccak ar₃ (UInt32.le_iff_toNat_le.mpr (by omega)) (by omega) _
      · exact Safe.pure trivial

theorem safe_parseRest (coin : Coin) (hashes : Bool) (fuel : Nat) (height : UInt64)
    {prefixBegin : UInt32} (hbegin : prefixBegin.toNat ≤ ar.index) :
    Safe memory allocates (Points memory)
      (parseRest keccak coin hashes fuel height prefixBegin ar) fun _ => True := by
  refine (BlobReader.safe_getVarint inside_blob ar).bind fun ⟨extraSize, ar₁⟩ h₁ => ?_
  refine (safe_set rfl).bind fun _ _ => ?_
  refine (safe_setOffset _ _).bind fun _ _ => ?_
  refine (BlobReader.safe_advance inside_blob ar₁ _ _).bind fun ar₂ h₂ => ?_
  have hoffset : (UInt32.ofNat ar₁.index).toNat ≤ ar₁.index := Nat.mod_le ..
  have hend := ar₂.index_le
  dsimp only at *
  refine (safe_parseExtra (by omega) fuel true _).bind fun _ _ => ?_
  exact safe_parseTail keccak ar₂ coin hashes height (by omega)

end Whole

theorem safe_parse (keccak : List UInt8 → Hash) (allocates : Nat → Bool) (blob : Blob) (coin : Coin)
    (hashes : Bool) (fuel : Nat) : Safe blob.bytes allocates (Points blob.bytes)
      (parse keccak blob coin hashes fuel) fun _ => True := by
  refine (safe_parseHeader _).bind fun ⟨majorVersion, ar₁⟩ _ => ?_
  have hsigned : Safe blob.bytes allocates (Points blob.bytes)
      (parseIf (isSigned coin majorVersion) parseMinerSignature ar₁) fun _ => True := by
    unfold parseIf
    split
    · exact safe_parseMinerSignature ar₁
    · exact Safe.pure trivial
  refine hsigned.bind fun ar₂ _ => ?_
  have hrecord : Safe blob.bytes allocates (Points blob.bytes)
      (parseIf (coin = .zephyr) parsePricingRecord ar₂) fun _ => True := by
    unfold parseIf
    split
    · exact safe_parsePricingRecord ar₂
    · exact Safe.pure trivial
  refine hrecord.bind fun ar₃ _ => ?_
  refine (safe_parseInput ar₃ coin).bind fun ⟨height, numOutputs, ar₄⟩ h₄ => ?_
  refine (safe_parseOutputs ar₄ coin _ _).bind fun ar₅ h₅ => ?_
  refine (safe_parseIf ar₅ (safe_parseUnlockTime ar₅)).bind fun ar₆ h₆ => ?_
  have hbegin : (UInt32.ofNat ar₃.index).toNat ≤ ar₃.index := Nat.mod_le ..
  dsimp only at h₄
  exact safe_parseRest keccak ar₆ coin hashes fuel height (by omega)

/-- A header, and a miner transaction up to its extra. -/
def opening (extraSize : List UInt8) : List UInt8 :=
  [16, 16, 1] ++ List.replicate 36 0 ++ [2, 60, 1, 0xff, 5, 1, 9, 2] ++ List.replicate 32 0 ++
    extraSize

/-- The extra is to be 2^64 - 1 bytes long, and one public key of it is there. -/
def endless : Blob where
  bytes := opening (List.replicate 9 0xff ++ [1]) ++ [1] ++ List.replicate 32 0
  length_lt := by decide

/-- The size of the extra wraps around, and the loop over it reads behind the blob. -/
theorem reads_outside : ¬ ∀ (keccak : List UInt8 → Hash) (allocates : Nat → Bool) (blob : Blob)
    (coin : Coin) (hashes : Bool) (fuel : Nat), Inside blob.bytes
      ((parse keccak blob coin hashes fuel).run (machine blob.bytes allocates)) := by
  intro h
  have haccess := (h (fun _ => MerkleTree.noHash) (fun _ => true) endless .monero false 2).access
  exact haccess (by decide +kernel)

/-- The parse stays inside exactly if unbounded arithmetic meets no length that would wrap
around, no prefix too long for `keccak`, and no hash behind the end of `m_hashes`. -/
theorem parse_inside (keccak : List UInt8 → Hash) (allocates : Nat → Bool) (blob : Blob)
    (coin : Coin) (hashes : Bool) (fuel : Nat) :
    Inside blob.bytes ((parse keccak blob coin hashes fuel).run (machine blob.bytes allocates)) ↔
      ((parse keccak blob coin hashes fuel).run (unbounded blob.bytes allocates)).outcome ≠
        .refused := by
  constructor
  · intro h hrefused
    rcases refused_unbounded _ hrefused with hfault | ⟨j, hj, hwraps⟩
    · exact h.access hfault
    · have hfar : 2 ^ 64 ≤ j.target := of_decide_eq_true hwraps
      have hsize := j.size_lt
      have hle := h.noWrap j hj
      omega
  · intro h
    have hsafe := safe_parse keccak allocates blob coin hashes fuel
    unfold Safe at hsafe
    rw [run_of_not_refused _ h] at hsafe
    exact ⟨hsafe.noFault, fun j hj => (hsafe.checks j hj).1, fun j hj => (hsafe.checks j hj).2,
      hsafe.events⟩

end VeloxHash.TemplateBounds
