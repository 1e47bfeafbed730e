import VeloxHash.TransitionSystem
import VeloxHash.Job
import VeloxHash.TemplateMembers

/-! `DaemonClient::parseJob` and `submit`, with the members they share: the parsed template,
its text, the job made of it and the id of that job. A submit patches the text and reads the
parsed template. -/

namespace VeloxHash

open ReaderProgram Splice CodeBuffer TransitionSystem TemplateMembers

/-- The algorithm of `coinInfo`. -/
def Coin.algorithm : Coin → Algorithm
  | .invalid => .invalid
  | .monero | .zephyr | .townforge => .rx0
  | .sumo => .cnR
  | .arqma => .rxArq
  | .graft => .rxGraft
  | .raven => .kawpowRvn
  | .wownero => .rxWow
  | .yada => .rxYada

/-- `Job::toDiff`. -/
def toDiff (target : UInt64) : UInt64 := if target = 0 then 0 else 0xFFFFFFFFFFFFFFFF / target

def Job.setEphemeralKeys (j : Job) (publicKey secretKey : Key) : Job :=
  { j with hasMinerSignature := true, ephPublicKey := publicKey, ephSecretKey := secretKey }

namespace DaemonJob

/-- The functions of `Signatures.cpp`. -/
structure Signatures where
  secretKeyToPublicKey : Key → Option Key
  deriveViewSecretKey : Key → Key
  generateKeyDerivation : Key → Key → Option Key
  deriveSecretKey : Key → Nat → Key → Key

/-- The pool with `m_coin`; `wallet` are the spend key and the view key of its user, if that is
a wallet address. -/
structure Pool where
  algorithm : Algorithm
  coin : Coin
  spendSecretKey : List UInt8
  wallet : Option (Key × Key)

/-- The members of a reply that are read, as C strings. -/
structure Reply where
  blocktemplate : Option Blob
  blockhashingblob : Option (List UInt8)
  height : UInt64
  difficulty : UInt64

structure JobError where
  code : Nat
  message : String
  deriving DecidableEq, Repr

structure JobResult where
  jobId : String
  nonce : UInt64
  minerSignature : Option Signature

/-- `sent` are the templates that submits have sent, the last one first. -/
structure Client where
  blocktemplate : BlockTemplate := ⟨BlockTemplate.initial⟩
  blocktemplateStr : List UInt8 := []
  job : Job := {}
  currentJobId : Option String := none
  sent : List (List UInt8) := []

/-- The key at an offset of the blob; `none` if it is not inside. -/
def keyAt (t : BlockTemplate) (o : BlockTemplate.Offset) : Option Key :=
  if t.offset o + 32 ≤ t.blob.length then
    some (BlockTemplate.toHash (slice t.blob (t.offset o) 32))
  else none

/-- The ephemeral keys of a template with a miner signature. -/
def ephemeralKeys (k : Signatures) (pool : Pool) (t : BlockTemplate) :
    ExceptT JobError Option (Key × Key) := do
  if pool.spendSecretKey.isEmpty then throw ⟨1, "Secret spend key is not set."⟩
  if pool.spendSecretKey.length ≠ 64 then
    throw ⟨1, "Secret spend key has invalid length. It must be 64 hex characters."⟩
  let some bytes := Hex.decode pool.spendSecretKey
    | throw ⟨1, "Secret spend key is not a valid hex data."⟩
  let secretSpendKey := BlockTemplate.toHash bytes
  let some publicSpendKey := k.secretKeyToPublicKey secretSpendKey
    | throw ⟨1, "Secret spend key is invalid."⟩
  let secretViewKey := k.deriveViewSecretKey secretSpendKey
  let some publicViewKey := k.secretKeyToPublicKey secretViewKey
    | throw ⟨1, "Secret view key is invalid."⟩
  let txPubkey ← (keyAt t .txPubkey : Option Key)
  let some derivation := k.generateKeyDerivation txPubkey secretViewKey
    | throw ⟨1, "Failed to generate key derivation for miner signature."⟩
  let some (spendKey, viewKey) := pool.wallet
    | throw ⟨1, "Invalid wallet address."⟩
  if spendKey ≠ publicSpendKey then throw ⟨1, "Wallet address and spend key don't match."⟩
  if viewKey ≠ publicViewKey then throw ⟨1, "Wallet address and view key don't match."⟩
  let ephPublicKey ← (keyAt t .ephPublicKey : Option Key)
  return (ephPublicKey, k.deriveSecretKey derivation 0 secretSpendKey)

/-- The job with the keys it signs with. -/
def signingJob (k : Signatures) (pool : Pool) (t : BlockTemplate) : ExceptT JobError Option Job :=
  if t.hasMinerSignature then do
    let keys ← ephemeralKeys k pool t
    return ({ algorithm := pool.algorithm } : Job).setEphemeralKeys keys.1 keys.2
  else return { algorithm := pool.algorithm }

/-- `parseJob` behind the parse of the template. -/
def jobOf (k : Signatures) (pool : Pool) (t : BlockTemplate) (reply : Reply) (jobId : String) :
    ExceptT JobError Option Job := do
  let job ← signingJob k pool t
  let job := if pool.coin = .invalid then job else { job with algorithm := pool.coin.algorithm }
  let some job := (reply.blockhashingblob.bind Hex.decode).bind job.setBlob
    | throw ⟨3, ""⟩
  return { job with height := reply.height, target := toDiff reply.difficulty, id := jobId }

/-- What `BlockTemplate::parse` returns; `none` if it does not. -/
def returned : Outcome Unit → Option Bool
  | .ok _ => some true
  | .stopped .rejected | .stopped .outOfRange | .badAlloc => some false
  | .stopped .unfinished | .fault | .refused => none

namespace Client

variable (keccak : List UInt8 → Hash) (allocates : Nat → Bool) (fuel : Nat) (k : Signatures)
  (pool : Pool)

/-- `parseJob`; `jobId` is made of random bytes. `none` if it does not return. -/
def parseJob (c : Client) (reply : Reply) (jobId : String) :
    Option (Except JobError Unit × Client) :=
  match reply.blocktemplate with
  | none => some (.error ⟨1, "Empty block template received from daemon."⟩, c)
  | some hex =>
    let parsed := c.blocktemplate.parseHex keccak allocates fuel hex pool.coin false
    let c := { c with blocktemplate := parsed.2 }
    match returned parsed.1 with
    | none => none
    | some false => some (.error ⟨1, "Invalid block template received from daemon."⟩, c)
    | some true => (jobOf k pool parsed.2 reply jobId).run.map fun
      | .error e => (.error e, c)
      | .ok job =>
        (.ok (), { c with blocktemplateStr := hex.bytes, job, currentJobId := some jobId })

/-- `Cvt::toHex` into the text; `none` if that ends behind it. -/
def patch (text : List UInt8) (offset : Nat) (bytes : List UInt8) : Option (List UInt8) :=
  if offset * 2 + (Hex.encode bytes).length ≤ text.length then
    some (splice text (offset * 2) (Hex.encode bytes))
  else none

/-- The text with a nonce and, if the parsed template has one, the miner signature. A result
without a signature is a null pointer there. -/
def patched (c : Client) (result : JobResult) : Option (List UInt8) := do
  let text ← patch c.blocktemplateStr c.job.nonceOffset (le result.nonce.toNat 4)
  if c.blocktemplate.hasMinerSignature then
    let signature ← result.minerSignature
    patch text c.job.signatureOffset signature.toList
  else return text

def submit (c : Client) (result : JobResult) : Option Client :=
  if c.currentJobId ≠ some result.jobId then some c
  else (c.patched result).map fun text =>
    { c with blocktemplateStr := text, sent := text :: c.sent }

end Client

inductive Action
  | reply (reply : Reply) (jobId : String)
  | submit (result : JobResult)

section Runs

variable (keccak : List UInt8 → Hash) (allocates : Nat → Bool) (fuel : Nat) (k : Signatures)
  (pool : Pool)

def step (c : Client) : Action → Option Client
  | .reply reply jobId => (c.parseJob keccak allocates fuel k pool reply jobId).map Prod.snd
  | .submit result => c.submit result

/-- The client whose failed replies change nothing. -/
def atomicStep (c : Client) : Action → Option Client
  | .reply reply jobId => (c.parseJob keccak allocates fuel k pool reply jobId).map fun r =>
    match r.1 with
    | .ok _ => r.2
    | .error _ => c
  | .submit result => c.submit result

end Runs

section Template

variable {keccak : List UInt8 → Hash} {allocates : Nat → Bool} {fuel : Nat} {hex : Blob}
  {coin : Coin} {bytes : List UInt8} {t : BlockTemplate}

theorem decoded_bytes (h : Hex.decode hex.bytes = some bytes) : hex.decoded.bytes = bytes :=
  (Hex.decodes_of_decode h).leading_eq

theorem parseHex_of_short (h : hex.bytes.length < BlockTemplate.kMinSize * 2) :
    t.parseHex keccak allocates fuel hex coin false = (.stopped .rejected, t) := if_pos h

theorem parseHex_of_invalid (hlong : ¬ hex.bytes.length < BlockTemplate.kMinSize * 2)
    (h : Hex.decode hex.bytes = none) : t.parseHex keccak allocates fuel hex coin false =
      (.stopped .rejected, t.apply (.assign .blob (Hex.into t.blob hex.bytes))) := by
  unfold BlockTemplate.parseHex
  rw [if_neg hlong, h]
  rfl

/-- Text of bytes is parsed like these bytes. -/
theorem parseHex_of_valid (hlong : ¬ hex.bytes.length < BlockTemplate.kMinSize * 2)
    (h : Hex.decode hex.bytes = some bytes) : t.parseHex keccak allocates fuel hex coin false =
      ((parseRun keccak allocates fuel hex.decoded coin false).outcome,
        (loaded hex.decoded coin t).applyAll
          (parseRun keccak allocates fuel hex.decoded coin false).events) := by
  have hinto := (Hex.decodes_of_decode h).into_eq t.blob
  unfold BlockTemplate.parseHex
  rw [if_neg hlong, h, hinto, ← decoded_bytes h]
  rfl

theorem parseRun_leaves (blob : Blob) :
    ∀ e ∈ (parseRun keccak allocates fuel blob coin false).events, Leaves isOuter e :=
  (settles_parse keccak blob coin false fuel).leaves rfl

/-- Whatever becomes of the parse, the text is decoded into the blob. -/
theorem parseHex_blob (hlong : ¬ hex.bytes.length < BlockTemplate.kMinSize * 2) :
    (t.parseHex keccak allocates fuel hex coin false).2.blob = Hex.into t.blob hex.bytes := by
  cases h : Hex.decode hex.bytes with
  | none =>
    rw [parseHex_of_invalid hlong h]
    exact apply_assign ..
  | some bytes =>
    rw [parseHex_of_valid hlong h, (Hex.decodes_of_decode h).into_eq, ← decoded_bytes h]
    exact (applyAll_kept (parseRun_leaves _) _ rfl).trans (loaded_blob ..)

/-- A parse succeeds on a text of bytes that it succeeds on. -/
theorem parseHex_ok
    (h : returned (t.parseHex keccak allocates fuel hex coin false).1 = some true) :
    ∃ bytes, Hex.decode hex.bytes = some bytes ∧
      (parseRun keccak allocates fuel hex.decoded coin false).outcome = .ok () ∧
      (t.parseHex keccak allocates fuel hex coin false).2 = (loaded hex.decoded coin t).applyAll
        (parseRun keccak allocates fuel hex.decoded coin false).events := by
  by_cases hshort : hex.bytes.length < BlockTemplate.kMinSize * 2
  · rw [parseHex_of_short hshort] at h
    exact nomatch (Option.some.inj h)
  · cases hdecode : Hex.decode hex.bytes with
    | none =>
      rw [parseHex_of_invalid hshort hdecode] at h
      exact nomatch (Option.some.inj h)
    | some bytes =>
      rw [parseHex_of_valid hshort hdecode] at h ⊢
      refine ⟨bytes, rfl, ?_, rfl⟩
      dsimp only at h
      unfold returned at h
      split at h
      · rename_i heq
        exact heq
      all_goals exact absurd h (by decide)

end Template

section Parsed

variable {keccak : List UInt8 → Hash} {allocates : Nat → Bool} {fuel : Nat} {k : Signatures}
  {pool : Pool} {c c' : Client} {reply : Reply} {jobId : String} {e : JobError}

/-- A reply that fails changes the parsed template at most. -/
theorem parseJob_error
    (h : c.parseJob keccak allocates fuel k pool reply jobId = some (.error e, c')) :
    reply.blocktemplate = none ∧ c' = c ∨ ∃ hex, reply.blocktemplate = some hex ∧ c' =
      { c with blocktemplate :=
        (c.blocktemplate.parseHex keccak allocates fuel hex pool.coin false).2 } := by
  unfold Client.parseJob at h
  cases hblob : reply.blocktemplate with
  | none =>
    rw [hblob] at h
    exact .inl ⟨rfl, (congrArg Prod.snd (Option.some.inj h)).symm⟩
  | some hex =>
    rw [hblob] at h
    refine .inr ⟨hex, rfl, ?_⟩
    dsimp only at h
    split at h
    · exact nomatch h
    · exact (congrArg Prod.snd (Option.some.inj h)).symm
    · obtain ⟨result, _, hresult⟩ := Option.map_eq_some_iff.mp h
      cases result with
      | error e' => exact (congrArg Prod.snd hresult).symm
      | ok job => exact nomatch congrArg Prod.fst hresult

theorem parseJob_ok
    (h : c.parseJob keccak allocates fuel k pool reply jobId = some (.ok (), c')) :
    ∃ hex job, reply.blocktemplate = some hex ∧
      returned (c.blocktemplate.parseHex keccak allocates fuel hex pool.coin false).1 =
        some true ∧
      (jobOf k pool (c.blocktemplate.parseHex keccak allocates fuel hex pool.coin false).2 reply
        jobId).run = some (.ok job) ∧
      c' = { c with
        blocktemplate := (c.blocktemplate.parseHex keccak allocates fuel hex pool.coin false).2
        blocktemplateStr := hex.bytes
        job := job
        currentJobId := some jobId } := by
  unfold Client.parseJob at h
  cases hblob : reply.blocktemplate with
  | none =>
    rw [hblob] at h
    exact nomatch congrArg Prod.fst (Option.some.inj h)
  | some hex =>
    rw [hblob] at h
    dsimp only at h
    split at h
    · exact nomatch h
    · exact nomatch congrArg Prod.fst (Option.some.inj h)
    · rename_i hreturned
      obtain ⟨result, hjob, hresult⟩ := Option.map_eq_some_iff.mp h
      cases result with
      | error e' => exact nomatch congrArg Prod.fst hresult
      | ok job => exact ⟨hex, job, rfl, hreturned, hjob, (congrArg Prod.snd hresult).symm⟩

end Parsed

end DaemonJob

end VeloxHash
