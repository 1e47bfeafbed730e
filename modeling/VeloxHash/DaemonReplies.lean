import VeloxHash.TemplateHistory
import VeloxHash.DaemonJob

/-! What replies that `parseJob` rejects leave behind. They are compared with the client that
they do not change. -/

namespace VeloxHash.DaemonReplies

open ReaderProgram TransitionSystem TemplateMembers DaemonJob

variable {keccak : List UInt8 → Hash} {allocates : Nat → Bool} {fuel : Nat} {k : Signatures}
  {pool : Pool} {c c' m : Client} {reply : Reply} {jobId : String} {a : Action}

/-- The reply has no template that is parsed, or decodes to the bytes that are held. -/
def Harmless (c : Client) (reply : Reply) : Prop :=
  ∀ hex, reply.blocktemplate = some hex → hex.bytes.length < BlockTemplate.kMinSize * 2 ∨
    Hex.into c.blocktemplate.blob hex.bytes = c.blocktemplate.blob

/-- Only a harmless reply may fail. -/
def Spares (keccak : List UInt8 → Hash) (allocates : Nat → Bool) (fuel : Nat) (k : Signatures)
    (pool : Pool) (c : Client) : Action → Prop
  | .reply reply jobId => ∀ e c',
      c.parseJob keccak allocates fuel k pool reply jobId = some (.error e, c') → Harmless c reply
  | .submit _ => True

/-- The parsed template is new, or it is what a parse of its own bytes makes of a template. -/
def Parsed (keccak : List UInt8 → Hash) (allocates : Nat → Bool) (fuel : Nat) (pool : Pool)
    (c : Client) : Prop :=
  c.blocktemplate.blob = [] ∨ ∃ blob t, c.blocktemplate = (loaded blob pool.coin t).applyAll
    (parseRun keccak allocates fuel blob pool.coin false).events

theorem parsed_blob (blob : Blob) (t : BlockTemplate) :
    ((loaded blob pool.coin t).applyAll
      (parseRun keccak allocates fuel blob pool.coin false).events).blob = blob.bytes :=
  (applyAll_kept (parseRun_leaves blob) _ rfl).trans (loaded_blob ..)

/-- A parse of the bytes that are held changes nothing. -/
theorem parseHex_same {hex : Blob} (hc : Parsed keccak allocates fuel pool c)
    (hlong : ¬ hex.bytes.length < BlockTemplate.kMinSize * 2)
    (hinto : Hex.into c.blocktemplate.blob hex.bytes = c.blocktemplate.blob) :
    (c.blocktemplate.parseHex keccak allocates fuel hex pool.coin false).2 = c.blocktemplate := by
  cases hdecode : Hex.decode hex.bytes with
  | none =>
    rw [parseHex_of_invalid hlong hdecode, hinto]
    exact congrArg BlockTemplate.mk (Function.update_eq_self ..)
  | some bytes =>
    have hheld : c.blocktemplate.blob = hex.decoded.bytes := by
      rw [decoded_bytes hdecode, ← hinto]
      exact (Hex.decodes_of_decode hdecode).into_eq _
    rcases hc with hnew | ⟨blob, t, hparsed⟩
    · have hlength := (Hex.decodes_of_decode hdecode).length_eq
      rw [← decoded_bytes hdecode, ← hheld, hnew] at hlength
      exact absurd (hlength ▸ Nat.zero_lt_succ _) hlong
    · have hbytes : hex.decoded = blob := by
        rw [hparsed, parsed_blob] at hheld
        cases hblob : hex.decoded
        cases blob
        rw [hblob] at hheld
        cases hheld
        rfl
      rw [parseHex_of_valid hlong hdecode, hbytes, hparsed]
      exact applyAll_again blob pool.coin (parseRun_leaves blob) t

/-- A harmless reply that fails changes nothing at all. -/
theorem parseJob_harmless {e : JobError} (hc : Parsed keccak allocates fuel pool c)
    (hharmless : Harmless c reply)
    (h : c.parseJob keccak allocates fuel k pool reply jobId = some (.error e, c')) : c' = c := by
  rcases parseJob_error h with ⟨_, rfl⟩ | ⟨hex, hblob, rfl⟩
  · rfl
  · by_cases hshort : hex.bytes.length < BlockTemplate.kMinSize * 2
    · rw [parseHex_of_short hshort]
    · rw [parseHex_same hc hshort ((hharmless hex hblob).resolve_left hshort)]

/-- A reply that fails and changes nothing is harmless. -/
theorem harmless_of_unchanged {e : JobError}
    (h : c.parseJob keccak allocates fuel k pool reply jobId = some (.error e, c)) :
    Harmless c reply := by
  intro hex hblob
  rcases parseJob_error h with ⟨hnone, _⟩ | ⟨hex', hblob', hsame⟩
  · rw [hnone] at hblob
    exact nomatch hblob
  · obtain rfl := Option.some.inj (hblob.symm.trans hblob')
    refine or_iff_not_imp_left.mpr fun hlong => ?_
    have hheld := congrArg (fun c => c.blocktemplate.blob) hsame
    exact (parseHex_blob hlong).symm.trans hheld.symm

theorem submit_blocktemplate {result : JobResult} (h : c.submit result = some c') :
    c'.blocktemplate = c.blocktemplate := by
  unfold Client.submit at h
  split at h
  · exact congrArg _ (Option.some.inj h).symm
  · obtain ⟨text, _, rfl⟩ := Option.map_eq_some_iff.mp h
    rfl

theorem step_reply (h : step keccak allocates fuel k pool c (.reply reply jobId) = some c') :
    ∃ result, c.parseJob keccak allocates fuel k pool reply jobId = some (result, c') := by
  obtain ⟨⟨result, d⟩, hparse, rfl⟩ := Option.map_eq_some_iff.mp h
  exact ⟨result, hparse⟩

theorem parsed_step (hc : Parsed keccak allocates fuel pool c)
    (hspares : Spares keccak allocates fuel k pool c a)
    (h : step keccak allocates fuel k pool c a = some c') :
    Parsed keccak allocates fuel pool c' := by
  cases a with
  | submit result =>
    unfold Parsed
    rw [submit_blocktemplate h]
    exact hc
  | reply reply jobId =>
    obtain ⟨result, hparse⟩ := step_reply h
    cases result with
    | error e =>
      rw [parseJob_harmless hc (hspares e c' hparse) hparse]
      exact hc
    | ok u =>
      obtain ⟨hex, job, _, hreturned, _, rfl⟩ := parseJob_ok hparse
      obtain ⟨bytes, _, _, hparsed⟩ := parseHex_ok hreturned
      exact .inr ⟨hex.decoded, c.blocktemplate, hparsed⟩

theorem atomicStep_ok
    (h : c.parseJob keccak allocates fuel k pool reply jobId = some (.ok (), c')) :
    atomicStep keccak allocates fuel k pool c (.reply reply jobId) = some c' := by
  unfold atomicStep
  dsimp only
  rw [h]
  rfl

theorem atomicStep_error {e : JobError}
    (h : c.parseJob keccak allocates fuel k pool reply jobId = some (.error e, c')) :
    atomicStep keccak allocates fuel k pool c (.reply reply jobId) = some c := by
  unfold atomicStep
  dsimp only
  rw [h]
  rfl

/-- A step that spares the members is a step of the client whose failed replies change nothing,
and only such a step is. -/
theorem atomicStep_iff (hc : Parsed keccak allocates fuel pool c)
    (h : step keccak allocates fuel k pool c a = some c') :
    atomicStep keccak allocates fuel k pool c a = some c' ↔
      Spares keccak allocates fuel k pool c a := by
  cases a with
  | submit result => exact iff_of_true h trivial
  | reply reply jobId =>
    obtain ⟨result, hparse⟩ := step_reply h
    cases result with
    | ok u =>
      refine iff_of_true (atomicStep_ok hparse) fun e d herror => ?_
      rw [hparse] at herror
      exact nomatch congrArg Prod.fst (Option.some.inj herror)
    | error e =>
      rw [atomicStep_error hparse]
      constructor
      · intro hsame
        obtain rfl := Option.some.inj hsame
        exact fun _ _ _ => harmless_of_unchanged hparse
      · intro hspares
        rw [parseJob_harmless hc (hspares e c' hparse) hparse]

/-- The two clients agree in every state of a run exactly if all replies that fail in it are
harmless. -/
theorem atomic_iff {actions : List Action} (hc : Parsed keccak allocates fuel pool c)
    (hrun : exec (step keccak allocates fuel k pool) c actions = some c') :
    (∀ n, exec (atomicStep keccak allocates fuel k pool) c (actions.take n) =
        exec (step keccak allocates fuel k pool) c (actions.take n)) ↔
      Run (step keccak allocates fuel k pool) (Spares keccak allocates fuel k pool) c actions
        c' := by
  induction actions generalizing c with
  | nil =>
    obtain rfl : c = c' := Option.some.inj hrun
    exact iff_of_true (fun n => by rw [List.take_nil]; rfl) (.nil c)
  | cons a actions ih =>
    obtain ⟨m, hm, hrest⟩ := Option.bind_eq_some_iff.mp hrun
    constructor
    · intro hagree
      have hfirst : atomicStep keccak allocates fuel k pool c a = some m := by
        have hone := hagree 1
        rw [List.take_succ_cons, List.take_zero, exec, exec, hm] at hone
        obtain ⟨m', hm', heq⟩ := Option.bind_eq_some_iff.mp hone
        exact hm'.trans heq
      have hspares := (atomicStep_iff hc hm).mp hfirst
      refine .cons hspares hm ((ih (parsed_step hc hspares hm) hrest).mp fun n => ?_)
      have hlater := hagree (n + 1)
      rwa [List.take_succ_cons, exec, exec, hm, hfirst] at hlater
    · intro hspared n
      cases hspared with
      | cons hspares hm' hlater =>
        obtain rfl := Option.some.inj (hm.symm.trans hm')
        cases n with
        | zero => rfl
        | succ n =>
          rw [List.take_succ_cons, exec, exec, hm, (atomicStep_iff hc hm).mpr hspares]
          exact (ih (parsed_step hc hspares hm) hrest).mpr hlater n

/-- A Wownero pool without a spend key. -/
def wownero : Pool where
  algorithm := .rxWow
  coin := .wownero
  spendSecretKey := []
  wallet := none

/-- No key is valid. -/
def noSignatures : Signatures where
  secretKeyToPublicKey := fun _ => none
  deriveViewSecretKey := id
  generateKeyDerivation := fun _ _ => none
  deriveSecretKey := fun _ _ key => key

def unsignedReply : Reply where
  blocktemplate := some ⟨Hex.encode TemplateHistory.unsigned.bytes, by decide +kernel⟩
  blockhashingblob := some (Hex.encode (List.replicate 43 0))
  height := 5
  difficulty := 1

theorem unsigned_hex : (Hex.encode TemplateHistory.unsigned.bytes).length < 2 ^ 63 := by
  decide +kernel

def signedReply : Reply where
  blocktemplate := some ⟨Hex.encode TemplateHistory.signed.bytes, by decide +kernel⟩
  blockhashingblob := some (Hex.encode (List.replicate 43 0))
  height := 6
  difficulty := 1

/-- A template is accepted, one with a miner signature is not, and then a share of the first
one is submitted. -/
def mixed : List Action :=
  [.reply unsignedReply "first", .reply signedReply "second", .submit ⟨"first", 1, none⟩]

/-- The submit asks for the signature that the rejected template has. -/
theorem submits_rejected_signature : ¬ ∀ (keccak : List UInt8 → Hash) (allocates : Nat → Bool)
    (fuel : Nat) (k : Signatures) (pool : Pool) (actions : List Action),
    exec (atomicStep keccak allocates fuel k pool) {} actions =
      exec (step keccak allocates fuel k pool) {} actions := by
  intro h
  have hsame := congrArg (fun c => c.isSome) (h (fun _ => MerkleTree.noHash) (fun _ => true) 1
    noSignatures wownero mixed)
  revert hsame
  decide +kernel

/-- In a run from the start, failed replies change nothing exactly if each of them has no
template that is parsed, or decodes to the bytes that are held. -/
theorem replies_atomic {actions : List Action}
    (hrun : exec (step keccak allocates fuel k pool) {} actions = some c) :
    (∀ n, exec (atomicStep keccak allocates fuel k pool) {} (actions.take n) =
        exec (step keccak allocates fuel k pool) {} (actions.take n)) ↔
      Run (step keccak allocates fuel k pool) (Spares keccak allocates fuel k pool) {} actions
        c :=
  atomic_iff (.inl rfl) hrun

/-- A reply without a template fails between an accepted one and a submit. -/
def spared : List Action :=
  [.reply unsignedReply "first", .reply ⟨none, none, 0, 0⟩ "second", .submit ⟨"first", 1, none⟩]

theorem replies_atomic_spared : ∃ c : Client,
    exec (step (fun _ => MerkleTree.noHash) (fun _ => true) 1 noSignatures wownero) {} spared =
        some c ∧
      ((∀ n, exec (atomicStep (fun _ => MerkleTree.noHash) (fun _ => true) 1 noSignatures wownero)
            {} (spared.take n) =
          exec (step (fun _ => MerkleTree.noHash) (fun _ => true) 1 noSignatures wownero) {}
            (spared.take n)) ↔
        Run (step (fun _ => MerkleTree.noHash) (fun _ => true) 1 noSignatures wownero)
          (Spares (fun _ => MerkleTree.noHash) (fun _ => true) 1 noSignatures wownero) {} spared
          c) := by
  have hsome : (exec (step (fun _ => MerkleTree.noHash) (fun _ => true) 1 noSignatures wownero) {}
      spared).isSome = true := by decide +kernel
  obtain ⟨c, hc⟩ := Option.isSome_iff_exists.mp hsome
  exact ⟨c, hc, replies_atomic hc⟩

end VeloxHash.DaemonReplies
