import VeloxHash.TransitionSystem
import VeloxHash.Algorithm
import VeloxHash.Json
import Mathlib.Tactic

/-! `SelfSelectClient`: the pool names a wallet and an extra nonce, the client has a daemon
make the block template, and mines on it once the pool has accepted it. Ghosts number the
pool's jobs and the template requests, and keep the templates taken and the job ids the pool
has accepted. -/

namespace VeloxHash.SelfSelectClient

open TransitionSystem

def hexDigit (c : Char) : Option UInt8 :=
  if '0' ≤ c ∧ c ≤ '9' then some (c.toNat - 48).toUInt8
  else if 'a' ≤ c ∧ c ≤ 'f' then some (c.toNat - 87).toUInt8
  else if 'A' ≤ c ∧ c ≤ 'F' then some (c.toNat - 55).toUInt8
  else none

/-- `Cvt::fromHex`: the bytes written, and whether all of the string is hex. -/
def fromHex : List Char → List UInt8 × Bool
  | hi :: lo :: rest =>
    match hexDigit hi, hexDigit lo with
    | some h, some l => ((h * 16 + l) :: (fromHex rest).1, (fromHex rest).2)
    | _, _ => ([], false)
  | [] => ([], true)
  | [_] => ([], false)

/-- `Job::kMaxSeedSize`. -/
def kMaxSeedSize : Nat := 32

structure Job where
  algorithm : Algorithm := .invalid
  nicehash : Bool := false
  clientId : Option String := none
  id : Option String := none
  poolWallet : Option String := none
  extraNonce : Option String := none
  blob : List UInt8 := []
  height : Nat := 0
  seed : List UInt8 := []
  deriving DecidableEq, Repr

namespace Job

/-- `m_blob` after bytes are written at its start, up to `m_size`. -/
def overwrite (j : Job) (bytes : List UInt8) : Job :=
  { j with blob := (bytes ++ j.blob.drop bytes.length).take j.blob.length }

def setBlob (j : Job) (data : Option String) : Job × Bool :=
  match data with
  | none => (j, false)
  | some s =>
    let chars := s.toList
    let size := chars.length / 2
    let offset := j.algorithm.nonceOffset
    if chars.length % 2 ≠ 0 then (j, false)
    else if size < offset + j.algorithm.nonceSize ∨ kMaxBlobSize ≤ size then (j, false)
    else
      let (bytes, ok) := fromHex chars
      if !ok then (j.overwrite bytes, false)
      else
        let nicehash := j.nicehash || (bytes.drop offset).take 4 != [0, 0, 0, 0]
        ({ j with blob := bytes, nicehash }, true)

/-- `setSeedHash`: a hash of the wrong length is not taken, one that is no hex clears the
seed. -/
def seedOf : Option String → Option (List UInt8)
  | none => none
  | some s =>
    if s.toList.length ≠ kMaxSeedSize * 2 then none
    else
      let (bytes, ok) := fromHex s.toList
      some (if ok then bytes else [])

def setSeedHash (j : Job) (hash : Option String) : Job :=
  { j with seed := (seedOf hash).getD j.seed }

end Job

inductive State
  | idle
  | wait
  | retry
  deriving DecidableEq, Repr

/-- A request to the daemon. Of a template request, `serial` is its number and `job` the
number of the pool job it was made for. -/
inductive Request
  | template (id serial job : Nat) (wallet extraNonce : Option String)
  | submitBlock (id : Nat)
  deriving DecidableEq, Repr

/-- What a `block_template` message tells the pool of `m_job`. -/
structure Message where
  clientId : Option String
  jobId : Option String
  height : Nat
  deriving DecidableEq, Repr

/-- A template with the wallet and the extra nonce it was requested with. -/
structure Template where
  wallet : Option String
  extraNonce : Option String
  blob : List UInt8
  height : Nat
  seed : List UInt8
  deriving DecidableEq, Repr

structure HttpData where
  status : Int
  body : Option Json

inductive Call
  | loginSuccess
  | close (failures : Int)
  | jobReceived (job : Job)
  | request (r : Request)
  | blockTemplate (m : Message)
  deriving DecidableEq, Repr

/-- `fetches` are the requests the daemon has not answered, `messages` the `block_template`
messages whose callback has not run. The ghost `filled` says that `m_job` has taken a
template asked for since the last pool job, and its bytes and seed have not been disturbed. -/
structure Client where
  submitToOrigin : Bool
  coin : Option (UInt8 → Algorithm)
  retries : Int := 5
  retryPause : Nat := 5000
  active : Bool := false
  failures : Int := 0
  sequence : Nat := 1
  job : Job := {}
  state : State := .idle
  timestamp : Nat := 0
  blockDiff : Nat := 0
  fetches : List Request := []
  messages : List Message := []
  calls : List Call := []
  jobs : Nat := 0
  requested : Nat := 0
  filled : Bool := false
  templates : List Template := []
  accepted : List (Option String) := []

namespace Client

def emit (c : Client) (call : Call) : Client := { c with calls := call :: c.calls }

def setState (c : Client) (state : State) (now : Nat) : Client :=
  if c.state = state then c
  else
    match state with
    | .idle => { c with state, timestamp := 0, failures := 0 }
    | .wait => { c with state, timestamp := now }
    | .retry =>
      let c := { c with timestamp := now }
      let c := if c.retries < c.failures then c.emit (.close c.failures) else c
      { c with state, failures := c.failures + 1 }

def retry (c : Client) (now : Nat) : Client := c.setState .retry now

def fetch (c : Client) (r : Request) : Client :=
  { c with fetches := c.fetches ++ [r] }.emit (.request r)

def getBlockTemplate (c : Client) (now : Nat) : Client :=
  let c := c.setState .wait now
  let r := .template c.sequence (c.requested + 1) c.jobs c.job.poolWallet c.job.extraNonce
  { c.fetch r with sequence := c.sequence + 1, requested := c.requested + 1 }

def onJobReceived (c : Client) (job : Job) (now : Nat) : Client :=
  { c with job, jobs := c.jobs + 1, filled := false }.getBlockTemplate now

def submitBlockTemplate (c : Client) (result : Json) : Client :=
  let m : Message := { clientId := c.job.clientId, jobId := c.job.id, height := c.job.height }
  { c with
    blockDiff := result.getUint64 "difficulty"
    messages := c.messages ++ [m] }.emit (.blockTemplate m)

def requiredFields : List String :=
  ["blocktemplate_blob", "blockhashing_blob", "height", "difficulty", "prev_hash"]

/-- The algorithm of the coin for the version in the first byte of the blob. -/
def setAlgorithm (c : Client) (blobData : Option String) : Job :=
  match c.coin with
  | none => c.job
  | some algorithm =>
    let version := (blobData.bind fun s => (fromHex (s.toList.take 2)).1.head?).getD 0
    { c.job with algorithm := algorithm version }

/-- The result passes the checks of `parseResponse` that come before `m_job` is touched. -/
def holdsTemplate (id : Int) (result error : Json) : Bool :=
  id ≠ -1 ∧ !error.isObject ∧ result.isObject ∧ requiredFields.all result.hasMember

/-- The template that a reply to `r` brings, once its blob is in the job. -/
def templateOf (r : Request) (job : Job) (result : Json) : List Template :=
  match r with
  | .template _ _ _ wallet extraNonce =>
    [{ wallet, extraNonce, blob := job.blob, height := result.getUint64 "height",
       seed := (Job.seedOf (result.getString "seed_hash")).getD [] }]
  | .submitBlock _ => []

/-- `r` was sent for the pool job that `m_job` is. -/
def isCurrent (c : Client) : Request → Bool
  | .template _ _ job _ _ => job = c.jobs
  | .submitBlock _ => false

/-- Height and seed of the template go into the job that has its blob. -/
def takeTemplate (c : Client) (r : Request) (job : Job) (result : Json) : Client :=
  let seedHash := result.getString "seed_hash"
  { c with
    filled := c.isCurrent r && ((Job.seedOf seedHash).isSome || c.job.seed = [])
    templates := templateOf r job result ++ c.templates
    job := { job with height := result.getUint64 "height" }.setSeedHash seedHash }

def parseResponse (c : Client) (r : Request) (id : Int) (result error : Json) : Client × Bool :=
  if !holdsTemplate id result error then (c, false)
  else
    let blobData := result.getString "blockhashing_blob"
    let (job, ok) := (c.setAlgorithm blobData).setBlob blobData
    if !ok then ({ c with job, filled := c.filled && job.blob = c.job.blob }, false)
    else ((c.takeTemplate r job result).submitBlockTemplate result, true)

/-- `onHttpData` past the test of the id. -/
def process (c : Client) (r : Request) (data : HttpData) (now : Nat) : Client :=
  match data.status == 200, data.body with
  | true, some doc =>
    let next := c.parseResponse r (doc.getInt64 "id" (-1)) (doc.getValue "result")
      (doc.getObject "error")
    if next.2 then next.1 else next.1.retry now
  | _, _ => c.retry now

def onHttpData (c : Client) (r : Request) (data : HttpData) (now : Nat) : Client :=
  if data.status ≠ 200 then c.retry now
  else
    match data.body with
    | none => c.retry now
    | some doc =>
      let id := doc.getInt64 "id" (-1)
      if 0 < id ∧ (c.sequence : Int) - id ≠ 1 then c
      else
        let next := c.parseResponse r id (doc.getValue "result") (doc.getObject "error")
        if next.2 then next.1 else next.1.retry now

/-- The callback of `submitBlockTemplate`. -/
def onBlockTemplate (c : Client) (success : Bool) (now : Nat) : Client :=
  if !success then c.retry now
  else if !c.active then c
  else
    let c := if c.retries < c.failures then c.emit .loginSuccess else c
    let c := c.setState .idle now
    c.emit (.jobReceived c.job)

def submitOriginDaemon (c : Client) (diff actualDiff : Nat) : Client :=
  if diff = 0 ∨ c.blockDiff = 0 then c
  else if actualDiff < c.blockDiff then c
  else c.fetch (.submitBlock c.sequence)

def submit (c : Client) (diff actualDiff now : Nat) : Client :=
  if c.submitToOrigin then (c.submitOriginDaemon diff actualDiff).getBlockTemplate now else c

def tick (c : Client) (now : Nat) : Client :=
  if c.state = .retry then
    if now - c.timestamp < c.retryPause then c else c.getBlockTemplate now
  else c

def onClose (c : Client) (failures : Int) (now : Nat) : Client :=
  { (c.emit (.close failures)).setState .idle now with active := false }

def onLoginSuccess (c : Client) (now : Nat) : Client :=
  { (c.emit .loginSuccess).setState .idle now with active := true }

end Client

/-- `reply` answers the request to the daemon at that position, `answer` the message to the
pool at that position. -/
inductive Event
  | loginSuccess (now : Nat)
  | close (failures : Int) (now : Nat)
  | jobReceived (job : Job) (now : Nat)
  | reply (index : Nat) (data : HttpData) (now : Nat)
  | answer (index : Nat) (success : Bool) (now : Nat)
  | submit (diff actualDiff now : Nat)
  | tick (now : Nat)

namespace Client

def forget (c : Client) (index : Nat) : Client :=
  { c with fetches := c.fetches.eraseIdx index }

def answered (c : Client) (index : Nat) (m : Message) (success : Bool) : Client :=
  { c with
    messages := c.messages.eraseIdx index
    accepted := if success then m.jobId :: c.accepted else c.accepted }

def step (c : Client) : Event → Option Client
  | .loginSuccess now => some (c.onLoginSuccess now)
  | .close failures now => some (c.onClose failures now)
  | .jobReceived job now => some (c.onJobReceived job now)
  | .reply index data now =>
    c.fetches[index]?.map fun r => (c.forget index).onHttpData r data now
  | .answer index success now =>
    c.messages[index]?.map fun m => (c.answered index m success).onBlockTemplate success now
  | .submit diff actualDiff now => some (c.submit diff actualDiff now)
  | .tick now => some (c.tick now)

theorem setState_calls {c : Client} {state : State} {now : Nat} {j : Job}
    (h : .jobReceived j ∈ (c.setState state now).calls) : .jobReceived j ∈ c.calls := by
  unfold setState at h
  split_ifs at h
  · exact h
  cases state with
  | idle => exact h
  | wait => exact h
  | retry =>
    dsimp only at h
    split_ifs at h
    · simpa [emit] using h
    · exact h

/-- `setState` touches the retry state and the listener only. -/
theorem setState_frame (c : Client) (state : State) (now : Nat) :
    (c.setState state now).job = c.job ∧ (c.setState state now).jobs = c.jobs ∧
      (c.setState state now).filled = c.filled ∧
      (c.setState state now).templates = c.templates ∧
      (c.setState state now).accepted = c.accepted ∧
      (c.setState state now).fetches = c.fetches ∧
      (c.setState state now).sequence = c.sequence ∧
      (c.setState state now).requested = c.requested := by
  unfold setState
  split_ifs
  · exact ⟨rfl, rfl, rfl, rfl, rfl, rfl, rfl, rfl⟩
  cases state with
  | idle => exact ⟨rfl, rfl, rfl, rfl, rfl, rfl, rfl, rfl⟩
  | wait => exact ⟨rfl, rfl, rfl, rfl, rfl, rfl, rfl, rfl⟩
  | retry =>
    dsimp only
    split_ifs <;> exact ⟨rfl, rfl, rfl, rfl, rfl, rfl, rfl, rfl⟩

end Client

/-! ### Pairing of jobs -/

/-- The job carries the template and asks for its wallet and extra nonce. -/
structure Template.Matches (t : Template) (j : Job) : Prop where
  wallet : t.wallet = j.poolWallet
  extraNonce : t.extraNonce = j.extraNonce
  blob : t.blob = j.blob
  height : t.height = j.height
  seed : t.seed = j.seed

/-- Every job announced carries a template made for it and bears an accepted id. -/
def JobsPaired (c : Client) : Prop :=
  ∀ j, .jobReceived j ∈ c.calls → (∃ t ∈ c.templates, t.Matches j) ∧ j.id ∈ c.accepted

/-- The pool accepts a message while `m_job` holds a template, and the message or one
accepted before was for this job's id. -/
def timely (c : Client) : Event → Bool
  | .answer index true _ => !c.active || c.messages[index]?.all fun m =>
    c.filled ∧ (m.jobId = c.job.id ∨ c.job.id ∈ c.accepted)
  | _ => true

namespace Job

/-- `setBlob` leaves what the pool said of the job. -/
theorem setBlob_frame (j : Job) (data : Option String) :
    (j.setBlob data).1.poolWallet = j.poolWallet ∧
      (j.setBlob data).1.extraNonce = j.extraNonce ∧ (j.setBlob data).1.id = j.id ∧
      (j.setBlob data).1.height = j.height ∧ (j.setBlob data).1.seed = j.seed := by
  cases data with
  | none => exact ⟨rfl, rfl, rfl, rfl, rfl⟩
  | some s =>
    simp only [setBlob]
    split_ifs <;> exact ⟨rfl, rfl, rfl, rfl, rfl⟩

end Job

namespace Client

theorem setAlgorithm_frame (c : Client) (blobData : Option String) :
    (c.setAlgorithm blobData).poolWallet = c.job.poolWallet ∧
      (c.setAlgorithm blobData).extraNonce = c.job.extraNonce ∧
      (c.setAlgorithm blobData).id = c.job.id ∧
      (c.setAlgorithm blobData).height = c.job.height ∧
      (c.setAlgorithm blobData).seed = c.job.seed := by
  unfold setAlgorithm
  cases c.coin <;> exact ⟨rfl, rfl, rfl, rfl, rfl⟩

structure Inv (c : Client) : Prop where
  filled : c.filled = true → ∃ t ∈ c.templates, t.Matches c.job
  numbered : ∀ id serial job wallet extraNonce,
    .template id serial job wallet extraNonce ∈ c.fetches → job ≤ c.jobs
  current : ∀ id serial wallet extraNonce,
    .template id serial c.jobs wallet extraNonce ∈ c.fetches →
      wallet = c.job.poolWallet ∧ extraNonce = c.job.extraNonce
  paired : JobsPaired c

/-- What a step that does not touch `m_job` has to leave. -/
theorem Inv.frame {c c' : Client} (h : Inv c) (hjob : c'.job = c.job) (hjobs : c'.jobs = c.jobs)
    (hfilled : c'.filled = c.filled) (htemplates : c'.templates = c.templates)
    (haccepted : c.accepted ⊆ c'.accepted) (hfetches : c'.fetches ⊆ c.fetches)
    (hcalls : ∀ j, .jobReceived j ∈ c'.calls → .jobReceived j ∈ c.calls) : Inv c' where
  filled hf := by
    rw [htemplates, hjob]
    exact h.filled (hfilled ▸ hf)
  numbered id serial job wallet extraNonce hm :=
    hjobs ▸ h.numbered id serial job wallet extraNonce (hfetches hm)
  current id serial wallet extraNonce hm := by
    rw [hjob]
    exact h.current id serial wallet extraNonce (hfetches (hjobs ▸ hm))
  paired j hj := by
    obtain ⟨ht, ha⟩ := h.paired j (hcalls j hj)
    exact ⟨htemplates ▸ ht, haccepted ha⟩

theorem Inv.setState {c : Client} (h : Inv c) (state : State) (now : Nat) :
    Inv (c.setState state now) := by
  obtain ⟨hjob, hjobs, hfilled, htemplates, haccepted, hfetches, -, -⟩ :=
    setState_frame c state now
  exact h.frame hjob hjobs hfilled htemplates (haccepted ▸ List.Subset.refl _)
    (hfetches ▸ List.Subset.refl _) fun _ hj => setState_calls hj

theorem Inv.emit {c : Client} (h : Inv c) (call : Call) (hc : ∀ j, call ≠ .jobReceived j) :
    Inv (c.emit call) :=
  h.frame rfl rfl rfl rfl (List.Subset.refl _) (List.Subset.refl _)
    fun j hj => (List.mem_cons.mp hj).resolve_left (hc j).symm

/-- A new request is for the present job. -/
theorem Inv.fetch {c : Client} {r : Request} (h : Inv c)
    (hr : ∀ id serial job wallet extraNonce, r = .template id serial job wallet extraNonce →
      job = c.jobs ∧ wallet = c.job.poolWallet ∧ extraNonce = c.job.extraNonce) :
    Inv (c.fetch r) where
  filled := h.filled
  numbered id serial job wallet extraNonce hm := by
    rcases List.mem_append.mp hm with hm | hm
    · exact h.numbered id serial job wallet extraNonce hm
    · exact (hr _ _ _ _ _ (List.mem_singleton.mp hm).symm).1.le
  current id serial wallet extraNonce hm := by
    rcases List.mem_append.mp hm with hm | hm
    · exact h.current id serial wallet extraNonce hm
    · exact (hr _ _ _ _ _ (List.mem_singleton.mp hm).symm).2
  paired j hj := h.paired j ((List.mem_cons.mp hj).resolve_left (by simp))

theorem Inv.getBlockTemplate {c : Client} (h : Inv c) (now : Nat) :
    Inv (c.getBlockTemplate now) := by
  have hwait := h.setState .wait now
  have hfetch := hwait.fetch (r := .template (c.setState .wait now).sequence
    ((c.setState .wait now).requested + 1) (c.setState .wait now).jobs
    (c.setState .wait now).job.poolWallet (c.setState .wait now).job.extraNonce)
    (by rintro id serial job wallet extraNonce ⟨⟩; exact ⟨rfl, rfl, rfl⟩)
  exact hfetch.frame rfl rfl rfl rfl (List.Subset.refl _) (List.Subset.refl _) fun _ hj => hj

/-- No request in flight was made for a job that has just come. -/
theorem Inv.onJobReceived {c : Client} (h : Inv c) (job : Job) (now : Nat) :
    Inv (c.onJobReceived job now) := by
  have hjob : Inv { c with job, jobs := c.jobs + 1, filled := false } := by
    refine ⟨by simp, fun id serial job wallet extraNonce hm => ?_,
      fun id serial wallet extraNonce hm => ?_, h.paired⟩
    · exact (h.numbered id serial job wallet extraNonce hm).trans (Nat.le_succ _)
    · exact absurd (h.numbered id serial _ wallet extraNonce hm) (Nat.not_succ_le_self _)
  exact hjob.getBlockTemplate now

theorem Inv.submitBlockTemplate {c : Client} (h : Inv c) (result : Json) :
    Inv (c.submitBlockTemplate result) := by
  have hemit := h.emit (.blockTemplate
    { clientId := c.job.clientId, jobId := c.job.id, height := c.job.height }) (by simp)
  exact hemit.frame rfl rfl rfl rfl (List.Subset.refl _) (List.Subset.refl _) fun _ hj => hj

/-- A reply to a request of the present job brings a template for it. -/
theorem matches_templateOf {c : Client} {r : Request} {job : Job} (result : Json)
    (hr : c.isCurrent r = true)
    (hcurrent : ∀ id serial wallet extraNonce,
      r = .template id serial c.jobs wallet extraNonce →
        wallet = c.job.poolWallet ∧ extraNonce = c.job.extraNonce)
    (hwallet : job.poolWallet = c.job.poolWallet) (hextra : job.extraNonce = c.job.extraNonce)
    (hseed : (Job.seedOf (result.getString "seed_hash")).isSome = true ∨ job.seed = []) :
    ∃ t ∈ templateOf r job result, t.Matches
      ({ job with height := result.getUint64 "height" }.setSeedHash
        (result.getString "seed_hash")) := by
  cases r with
  | submitBlock id => simp [isCurrent] at hr
  | template id serial n wallet extraNonce =>
    obtain rfl : n = c.jobs := of_decide_eq_true hr
    obtain ⟨rfl, rfl⟩ := hcurrent id serial wallet extraNonce rfl
    refine ⟨_, List.mem_singleton_self _, hwallet.symm, hextra.symm, rfl, rfl, ?_⟩
    cases hs : Job.seedOf (result.getString "seed_hash") with
    | some seed => simp [Job.setSeedHash, hs]
    | none =>
      obtain hseed : job.seed = [] := by simpa [hs] using hseed
      simp [Job.setSeedHash, hs, hseed]

theorem Inv.takeTemplate {c : Client} (h : Inv c) {r : Request} {job : Job} {result : Json}
    (hcurrent : ∀ id serial wallet extraNonce,
      r = .template id serial c.jobs wallet extraNonce →
        wallet = c.job.poolWallet ∧ extraNonce = c.job.extraNonce)
    (hwallet : job.poolWallet = c.job.poolWallet) (hextra : job.extraNonce = c.job.extraNonce)
    (hseed : job.seed = c.job.seed) : Inv (c.takeTemplate r job result) where
  filled hf := by
    obtain ⟨hr, hs⟩ := (Bool.and_eq_true _ _).mp hf
    obtain ⟨t, ht, hmatch⟩ := matches_templateOf result hr hcurrent hwallet hextra
      (((Bool.or_eq_true _ _).mp hs).imp_right fun h => hseed.trans (of_decide_eq_true h))
    exact ⟨t, List.mem_append_left _ ht, hmatch⟩
  numbered := h.numbered
  current id serial wallet extraNonce hm := by
    obtain ⟨hw, he⟩ := h.current id serial wallet extraNonce hm
    exact ⟨hw.trans hwallet.symm, he.trans hextra.symm⟩
  paired j hj := by
    obtain ⟨⟨t, ht, hmatch⟩, ha⟩ := h.paired j hj
    exact ⟨⟨t, List.mem_append_right _ ht, hmatch⟩, ha⟩

theorem Inv.parseResponse {c : Client} (h : Inv c) {r : Request}
    (hcurrent : ∀ id serial wallet extraNonce,
      r = .template id serial c.jobs wallet extraNonce →
        wallet = c.job.poolWallet ∧ extraNonce = c.job.extraNonce)
    (id : Int) (result error : Json) : Inv (c.parseResponse r id result error).1 := by
  unfold Client.parseResponse
  split_ifs
  · exact h
  dsimp only
  obtain ⟨hwallet, hextra, -, hheight, hseed⟩ :=
    Job.setBlob_frame (c.setAlgorithm (result.getString "blockhashing_blob"))
      (result.getString "blockhashing_blob")
  obtain ⟨hwallet', hextra', -, hheight', hseed'⟩ :=
    setAlgorithm_frame c (result.getString "blockhashing_blob")
  generalize (c.setAlgorithm (result.getString "blockhashing_blob")).setBlob
    (result.getString "blockhashing_blob") = next at *
  obtain ⟨job, ok⟩ := next
  have hwallet := hwallet.trans hwallet'
  have hextra := hextra.trans hextra'
  cases ok with
  | true =>
    exact (h.takeTemplate hcurrent hwallet hextra (hseed.trans hseed')).submitBlockTemplate result
  | false =>
    refine ⟨fun hf => ?_, h.numbered, fun id serial wallet extraNonce hm => ?_, h.paired⟩
    · obtain ⟨hf, hblob⟩ := (Bool.and_eq_true _ _).mp hf
      obtain ⟨t, ht, hmatch⟩ := h.filled hf
      exact ⟨t, ht, hmatch.wallet.trans hwallet.symm, hmatch.extraNonce.trans hextra.symm,
        hmatch.blob.trans (of_decide_eq_true hblob).symm,
        hmatch.height.trans (hheight.trans hheight').symm,
        hmatch.seed.trans (hseed.trans hseed').symm⟩
    · obtain ⟨hw, he⟩ := h.current id serial wallet extraNonce hm
      exact ⟨hw.trans hwallet.symm, he.trans hextra.symm⟩

theorem Inv.onHttpData {c : Client} (h : Inv c) {r : Request}
    (hcurrent : ∀ id serial wallet extraNonce,
      r = .template id serial c.jobs wallet extraNonce →
        wallet = c.job.poolWallet ∧ extraNonce = c.job.extraNonce)
    (data : HttpData) (now : Nat) : Inv (c.onHttpData r data now) := by
  unfold Client.onHttpData
  split_ifs
  · exact h.setState .retry now
  cases data.body with
  | none => exact h.setState .retry now
  | some doc =>
    have hparse := h.parseResponse hcurrent (doc.getInt64 "id" (-1)) (doc.getValue "result")
      (doc.getObject "error")
    dsimp only
    split_ifs
    · exact h
    · exact hparse
    · exact hparse.setState .retry now

theorem Inv.announce {c : Client} (h : Inv c) (hf : c.filled = true)
    (hid : c.job.id ∈ c.accepted) (now : Nat) :
    Inv ((c.setState .idle now).emit (.jobReceived (c.setState .idle now).job)) := by
  obtain ⟨hjob, -, -, htemplates, haccepted, -, -, -⟩ := setState_frame c .idle now
  have hidle := h.setState .idle now
  refine ⟨hidle.filled, hidle.numbered, hidle.current, fun j hj => ?_⟩
  rcases List.mem_cons.mp hj with hj | hj
  · obtain rfl := Call.jobReceived.inj hj
    show (∃ t ∈ (c.setState .idle now).templates, t.Matches (c.setState .idle now).job) ∧
      (c.setState .idle now).job.id ∈ (c.setState .idle now).accepted
    rw [hjob, htemplates, haccepted]
    exact ⟨h.filled hf, hid⟩
  · exact hidle.paired j hj

theorem Inv.onBlockTemplate {c : Client} (h : Inv c) {success : Bool} (now : Nat)
    (hok : success = true → c.active = true → c.filled = true ∧ c.job.id ∈ c.accepted) :
    Inv (c.onBlockTemplate success now) := by
  unfold Client.onBlockTemplate
  split_ifs with hs ha hretry
  · exact h.setState .retry now
  · exact h
  all_goals
    obtain ⟨hf, hid⟩ := hok (by simpa using hs) (by simpa using ha)
  · exact (h.emit .loginSuccess (by simp)).announce hf hid now
  · exact h.announce hf hid now

theorem inv_step {c c' : Client} {e : Event} (h : Inv c) (hok : timely c e = true)
    (hstep : c.step e = some c') : Inv c' := by
  cases e with
  | loginSuccess now =>
    obtain rfl := Option.some.inj hstep
    have hstate := (h.emit .loginSuccess (by simp)).setState .idle now
    exact hstate.frame rfl rfl rfl rfl (List.Subset.refl _) (List.Subset.refl _) fun _ hj => hj
  | close failures now =>
    obtain rfl := Option.some.inj hstep
    have hstate := (h.emit (.close failures) (by simp)).setState .idle now
    exact hstate.frame rfl rfl rfl rfl (List.Subset.refl _) (List.Subset.refl _) fun _ hj => hj
  | jobReceived job now =>
    obtain rfl := Option.some.inj hstep
    exact h.onJobReceived job now
  | reply index data now =>
    obtain ⟨r, hr, rfl⟩ := Option.map_eq_some_iff.mp hstep
    have hforget : Inv (c.forget index) :=
      h.frame rfl rfl rfl rfl (List.Subset.refl _) (List.eraseIdx_subset) fun _ hj => hj
    refine hforget.onHttpData (fun id serial wallet extraNonce hrt => ?_) data now
    exact h.current id serial wallet extraNonce (hrt ▸ List.mem_of_getElem? hr)
  | answer index success now =>
    obtain ⟨m, hm, rfl⟩ := Option.map_eq_some_iff.mp hstep
    have hsub : c.accepted ⊆ (c.answered index m success).accepted := by
      cases success with
      | true => exact List.subset_cons_self _ _
      | false => exact List.Subset.refl _
    have hanswered : Inv (c.answered index m success) :=
      h.frame rfl rfl rfl rfl hsub (List.Subset.refl _) fun _ hj => hj
    refine hanswered.onBlockTemplate now fun hs ha => ?_
    subst hs
    have ha : c.active = true := ha
    obtain ⟨hf, hid⟩ : c.filled = true ∧ (m.jobId = c.job.id ∨ c.job.id ∈ c.accepted) := by
      simpa [timely, ha, hm] using hok
    exact ⟨hf, hid.elim (fun hid => hid ▸ List.mem_cons_self) (List.mem_cons_of_mem _)⟩
  | submit diff actualDiff now =>
    obtain rfl := Option.some.inj hstep
    unfold submit submitOriginDaemon
    split_ifs
    · exact h.getBlockTemplate now
    · exact h.getBlockTemplate now
    · exact (h.fetch (by simp)).getBlockTemplate now
    · exact h
  | tick now =>
    obtain rfl := Option.some.inj hstep
    unfold tick
    split_ifs
    · exact h
    · exact h.getBlockTemplate now
    · exact h

end Client

open Client

def start (submitToOrigin : Bool) (coin : Option (UInt8 → Algorithm)) (retries : Int)
    (retryPause : Nat) : Client := { submitToOrigin, coin, retries, retryPause }

theorem inv_start (submitToOrigin : Bool) (coin : Option (UInt8 → Algorithm)) (retries : Int)
    (retryPause : Nat) : Inv (start submitToOrigin coin retries retryPause) :=
  ⟨nofun, by simp [start], by simp [start], by simp [JobsPaired, start]⟩

def zeros : String := String.ofList (List.replicate 86 '0')

/-- A daemon's reply with a template of that height for the request of that id. -/
def templateReply (id height : Int) (seed : String) : HttpData where
  status := 200
  body := some (.object [("id", .int id), ("result", .object
    [("blocktemplate_blob", .string zeros), ("blockhashing_blob", .string zeros),
      ("height", .int height), ("difficulty", .int 1), ("prev_hash", .string "ab"),
      ("seed_hash", .string seed)])])

def poolJob (id : String) : Job :=
  { algorithm := .rx0, id := some id, poolWallet := some "wallet", extraNonce := some id }

/-- The pool sends a job before it answers the message for the last one. -/
theorem job_unpaired : ¬ ∀ (submitToOrigin : Bool) (coin : Option (UInt8 → Algorithm))
    (retries : Int) (retryPause : Nat) (events : List Event) (c : Client),
    exec step (start submitToOrigin coin retries retryPause) events = some c → JobsPaired c := by
  intro h
  have hrun := h false none 5 5000
    [.loginSuccess 0, .jobReceived (poolJob "1") 0, .reply 0 (templateReply 1 7 "") 1,
      .jobReceived (poolJob "2") 2, .answer 0 true 3] _ rfl
  obtain ⟨⟨t, ht, hmatch⟩, -⟩ := hrun _ List.mem_cons_self
  obtain rfl := List.mem_singleton.mp ht
  exact absurd hmatch.extraNonce (by decide)

/-- In every run whose accepted messages are timely, jobs are paired with their templates. -/
theorem jobs_paired {submitToOrigin : Bool} {coin : Option (UInt8 → Algorithm)} {retries : Int}
    {retryPause : Nat} {events : List Event} {c : Client}
    (hrun : Run step (fun c e => timely c e = true) (start submitToOrigin coin retries retryPause)
      events c) :
    JobsPaired c :=
  (hrun.invariant (fun _ _ _ hok h hstep => inv_step h hok hstep)
    (inv_start submitToOrigin coin retries retryPause)).paired

/-- Two jobs, the second announced when the pool has accepted its template. -/
theorem jobs_paired_run :
    (exec (guarded timely step) (start false none 5 5000)
      [.loginSuccess 0, .jobReceived (poolJob "1") 0, .reply 0 (templateReply 1 7 "") 1,
        .jobReceived (poolJob "2") 2, .reply 0 (templateReply 2 8 "") 3, .answer 1 true 4]).map
      (fun c => c.calls.head?) = some (some (.jobReceived
        { poolJob "2" with height := 8, blob := List.replicate 43 0 })) ∧
    ∃ c : Client, c.calls.head? = some (.jobReceived
      { poolJob "2" with height := 8, blob := List.replicate 43 0 }) ∧ JobsPaired c := by
  have hrun : (exec (guarded timely step) (start false none 5 5000)
      [.loginSuccess 0, .jobReceived (poolJob "1") 0, .reply 0 (templateReply 1 7 "") 1,
        .jobReceived (poolJob "2") 2, .reply 0 (templateReply 2 8 "") 3, .answer 1 true 4]).map
      (fun c => c.calls.head?) = some (some (.jobReceived
        { poolJob "2" with height := 8, blob := List.replicate 43 0 })) := by decide
  obtain ⟨c, hexec, hc⟩ := Option.map_eq_some_iff.mp hrun
  exact ⟨hrun, c, hc, jobs_paired (run_of_guarded (fun _ _ => id) hexec)⟩

/-! ### Pairing of replies -/

/-- The id of a reply that gets to the test of the id. -/
def HttpData.id? (data : HttpData) : Option Int :=
  if data.status = 200 then data.body.map fun doc => doc.getInt64 "id" (-1) else none

def HttpData.holdsTemplate (data : HttpData) : Bool :=
  data.status = 200 ∧ data.body.any fun doc =>
    Client.holdsTemplate (doc.getInt64 "id" (-1)) (doc.getValue "result") (doc.getObject "error")

/-- The id is positive and not that of the last template request. -/
def ignored (c : Client) (data : HttpData) : Bool :=
  data.id?.any fun n : Int => 0 < n ∧ n + 1 ≠ c.sequence

/-- A reply to the last template request bears its id, if it bears one; a reply to an older
one is ignored for its id, and so is one to a submitted block, whose id is the next template
request's, unless it finds the client waiting to retry and has no template. -/
def replyMatched (c : Client) (r : Request) (data : HttpData) : Bool :=
  match r with
  | .template id serial .. =>
    if serial = c.requested then data.id?.all fun n : Int => n ≤ 0 ∨ n = id else ignored c data
  | .submitBlock _ => ignored c data || c.state = .retry && !data.holdsTemplate

def matched (c : Client) : Event → Bool
  | .reply index data _ => c.fetches[index]?.all fun r => replyMatched c r data
  | _ => true

/-- What a reply may do: the last template request's is processed, an older one's is not, and
one to a submitted block leaves job and retry state. -/
def ReplyPaired (c c' : Client) (r : Request) (data : HttpData) (now : Nat) : Prop :=
  match r with
  | .template _ serial .. => c' = if serial = c.requested then c.process r data now else c
  | .submitBlock _ => c'.job = c.job ∧ c'.state = c.state ∧ c'.timestamp = c.timestamp ∧
    c'.failures = c.failures

theorem onHttpData_of_ignored {c : Client} {r : Request} {data : HttpData} {now : Nat}
    (h : ignored c data = true) : c.onHttpData r data now = c := by
  unfold ignored HttpData.id? at h
  unfold onHttpData
  by_cases hs : data.status = 200
  · rw [if_neg (not_not.mpr hs)]
    rw [if_pos hs] at h
    cases hb : data.body with
    | none => simp [hb] at h
    | some doc =>
      obtain ⟨hpos, hne⟩ : 0 < doc.getInt64 "id" (-1) ∧
          doc.getInt64 "id" (-1) + 1 ≠ (c.sequence : Int) := by simpa [hb] using h
      exact if_pos ⟨hpos, by omega⟩
  · simp [hs] at h

theorem onHttpData_of_not_ignored {c : Client} {r : Request} {data : HttpData} {now : Nat}
    (h : ignored c data = false) : c.onHttpData r data now = c.process r data now := by
  unfold ignored HttpData.id? at h
  unfold onHttpData process
  by_cases hs : data.status = 200
  · rw [if_neg (not_not.mpr hs)]
    rw [if_pos hs] at h
    cases hb : data.body with
    | none => simp [hs]
    | some doc =>
      have hid : ¬(0 < doc.getInt64 "id" (-1) ∧
          (c.sequence : Int) - doc.getInt64 "id" (-1) ≠ 1) := by
        simp only [hb, Option.map_some, Option.any_some, decide_eq_false_iff_not] at h
        omega
      simp only [if_neg hid, hs, beq_self_eq_true]
  · simp [hs]

/-- A reply without a template finds nothing to change when the client waits to retry. -/
theorem process_retry {c : Client} {r : Request} {data : HttpData} {now : Nat}
    (hstate : c.state = .retry) (h : data.holdsTemplate = false) : c.process r data now = c := by
  have hretry : c.retry now = c := if_pos hstate
  unfold process
  by_cases hs : data.status = 200
  · cases hb : data.body with
    | none => simpa [hs] using hretry
    | some doc =>
      have hdoc : Client.holdsTemplate (doc.getInt64 "id" (-1)) (doc.getValue "result")
          (doc.getObject "error") = false := by
        simpa [HttpData.holdsTemplate, hs, hb] using h
      simpa [hs, parseResponse, hdoc] using hretry
  · simpa [hs] using hretry

/-- Template requests bear their numbers as ids. -/
structure Numbered (c : Client) : Prop where
  sequence : c.sequence = c.requested + 1
  fetches : ∀ id serial job wallet extraNonce,
    .template id serial job wallet extraNonce ∈ c.fetches → id = serial

theorem Numbered.frame {c c' : Client} (h : Numbered c) (hsequence : c'.sequence = c.sequence)
    (hrequested : c'.requested = c.requested) (hfetches : c'.fetches ⊆ c.fetches) :
    Numbered c' :=
  ⟨by rw [hsequence, hrequested, h.sequence], fun id serial job wallet extraNonce hm =>
    h.fetches id serial job wallet extraNonce (hfetches hm)⟩

theorem Numbered.setState {c : Client} (h : Numbered c) (state : State) (now : Nat) :
    Numbered (c.setState state now) := by
  obtain ⟨-, -, -, -, -, hfetches, hsequence, hrequested⟩ := setState_frame c state now
  exact h.frame hsequence hrequested (hfetches ▸ List.Subset.refl _)

theorem Numbered.getBlockTemplate {c : Client} (h : Numbered c) (now : Nat) :
    Numbered (c.getBlockTemplate now) := by
  have hwait := h.setState .wait now
  refine ⟨congrArg (· + 1) hwait.sequence, fun id serial job wallet extraNonce hm => ?_⟩
  rcases List.mem_append.mp hm with hm | hm
  · exact hwait.fetches id serial job wallet extraNonce hm
  · obtain ⟨rfl, rfl, -⟩ := Request.template.inj (List.mem_singleton.mp hm)
    exact hwait.sequence

theorem Numbered.parseResponse {c : Client} (h : Numbered c) (r : Request) (id : Int)
    (result error : Json) : Numbered (c.parseResponse r id result error).1 := by
  unfold Client.parseResponse
  split_ifs
  · exact h
  dsimp only
  split_ifs
  · exact h.frame rfl rfl (List.Subset.refl _)
  · exact h.frame rfl rfl (List.Subset.refl _)

theorem Numbered.onHttpData {c : Client} (h : Numbered c) (r : Request) (data : HttpData)
    (now : Nat) : Numbered (c.onHttpData r data now) := by
  unfold Client.onHttpData
  split_ifs
  · exact h.setState .retry now
  cases data.body with
  | none => exact h.setState .retry now
  | some doc =>
    have hparse := h.parseResponse r (doc.getInt64 "id" (-1)) (doc.getValue "result")
      (doc.getObject "error")
    dsimp only
    split_ifs
    · exact h
    · exact hparse
    · exact hparse.setState .retry now

theorem Numbered.onBlockTemplate {c : Client} (h : Numbered c) (success : Bool) (now : Nat) :
    Numbered (c.onBlockTemplate success now) := by
  unfold Client.onBlockTemplate
  dsimp only
  split_ifs
  · exact h.setState .retry now
  · exact h
  · have hlogin : Numbered (c.emit .loginSuccess) := h.frame rfl rfl (List.Subset.refl _)
    exact (hlogin.setState .idle now).frame rfl rfl (List.Subset.refl _)
  · exact (h.setState .idle now).frame rfl rfl (List.Subset.refl _)

theorem numbered_step {c c' : Client} {e : Event} (h : Numbered c)
    (hstep : c.step e = some c') : Numbered c' := by
  cases e with
  | loginSuccess now =>
    obtain rfl := Option.some.inj hstep
    have hemit : Numbered (c.emit .loginSuccess) := h.frame rfl rfl (List.Subset.refl _)
    exact (hemit.setState .idle now).frame rfl rfl (List.Subset.refl _)
  | close failures now =>
    obtain rfl := Option.some.inj hstep
    have hemit : Numbered (c.emit (.close failures)) := h.frame rfl rfl (List.Subset.refl _)
    exact (hemit.setState .idle now).frame rfl rfl (List.Subset.refl _)
  | jobReceived job now =>
    obtain rfl := Option.some.inj hstep
    have hjob : Numbered { c with job, jobs := c.jobs + 1, filled := false } :=
      h.frame rfl rfl (List.Subset.refl _)
    exact hjob.getBlockTemplate now
  | reply index data now =>
    obtain ⟨r, -, rfl⟩ := Option.map_eq_some_iff.mp hstep
    have hforget : Numbered (c.forget index) := h.frame rfl rfl List.eraseIdx_subset
    exact hforget.onHttpData r data now
  | answer index success now =>
    obtain ⟨m, -, rfl⟩ := Option.map_eq_some_iff.mp hstep
    have hanswered : Numbered (c.answered index m success) := h.frame rfl rfl (List.Subset.refl _)
    exact hanswered.onBlockTemplate success now
  | submit diff actualDiff now =>
    obtain rfl := Option.some.inj hstep
    have hsubmit : Numbered (c.fetch (.submitBlock c.sequence)) :=
      ⟨h.sequence, fun id serial job wallet extraNonce hm => h.fetches id serial job wallet
        extraNonce ((List.mem_append.mp hm).resolve_right (by simp))⟩
    unfold submit submitOriginDaemon
    split_ifs
    · exact h.getBlockTemplate now
    · exact h.getBlockTemplate now
    · exact hsubmit.getBlockTemplate now
    · exact h
  | tick now =>
    obtain rfl := Option.some.inj hstep
    unfold tick
    split_ifs
    · exact h
    · exact h.getBlockTemplate now
    · exact h

/-- The daemon rejects a submitted block; its reply bears the id of the template request that
followed, and the client retries. -/
theorem submit_reply_retried : ¬ ∀ (submitToOrigin : Bool) (coin : Option (UInt8 → Algorithm))
    (retries : Int) (retryPause : Nat) (events : List Event) (c c' : Client) (index : Nat)
    (r : Request) (data : HttpData) (now : Nat),
    exec step (start submitToOrigin coin retries retryPause) events = some c →
    c.fetches[index]? = some r → c.step (.reply index data now) = some c' →
    ReplyPaired (c.forget index) c' r data now := by
  intro h
  have hpair := h true none 5 5000
    [.loginSuccess 0, .jobReceived (poolJob "1") 0, .reply 0 (templateReply 1 7 "") 1,
      .answer 0 true 2, .submit 5 5 3] _ _ 0 (.submitBlock 2)
    { status := 200, body := some (.object [("id", .int 2), ("error", .object
      [("code", .int (-7)), ("message", .string "Block not accepted")])]) } 4 rfl rfl rfl
  exact absurd hpair.2.1 (by decide)

/-- In every run each reply that is matched is paired with its request. -/
theorem replies_matched {submitToOrigin : Bool} {coin : Option (UInt8 → Algorithm)}
    {retries : Int} {retryPause : Nat} {events : List Event} {c c' : Client} {index : Nat}
    {r : Request} {data : HttpData} {now : Nat}
    (hrun : Run step (fun c e => matched c e = true)
      (start submitToOrigin coin retries retryPause) events c)
    (hr : c.fetches[index]? = some r) (hok : matched c (.reply index data now) = true)
    (hstep : c.step (.reply index data now) = some c') :
    ReplyPaired (c.forget index) c' r data now := by
  have hnum : Numbered c := hrun.invariant (fun _ _ _ _ h hst => numbered_step h hst)
    ⟨rfl, by simp [start]⟩
  have hok : replyMatched (c.forget index) r data = true := by
    rw [matched, hr, Option.all_some] at hok
    exact hok
  simp only [step, hr, Option.map_some, Option.some.injEq] at hstep
  subst hstep
  cases r with
  | template id serial job wallet extraNonce =>
    obtain rfl := hnum.fetches id serial job wallet extraNonce (List.mem_of_getElem? hr)
    show _ = ite _ _ _
    simp only [replyMatched] at hok
    split_ifs at hok ⊢ with hlast
    · refine onHttpData_of_not_ignored ?_
      have hseq : (c.forget index).sequence = id + 1 := hnum.sequence.trans (by rw [hlast]; rfl)
      unfold ignored
      cases hid : data.id? with
      | none => rfl
      | some n =>
        have hn : n ≤ 0 ∨ n = id := by simpa [hid] using hok
        simp only [Option.any_some, decide_eq_false_iff_not, hseq]
        omega
    · exact onHttpData_of_ignored hok
  | submitBlock id =>
    rcases (Bool.or_eq_true _ _).mp hok with hign | hretry
    · rw [onHttpData_of_ignored hign]
      exact ⟨rfl, rfl, rfl, rfl⟩
    · cases hign : ignored (c.forget index) data with
      | true =>
        rw [onHttpData_of_ignored hign]
        exact ⟨rfl, rfl, rfl, rfl⟩
      | false =>
        obtain ⟨hstate, hnone⟩ := (Bool.and_eq_true _ _).mp hretry
        rw [onHttpData_of_not_ignored hign,
          process_retry (of_decide_eq_true hstate) (by simpa using hnone)]
        exact ⟨rfl, rfl, rfl, rfl⟩

def submitReply : HttpData where
  status := 200
  body := some (.object [("id", .int 2), ("result", .object [("status", .string "OK")])])

/-- The daemon answers a submitted block when the client has asked for two more templates. -/
theorem replies_matched_run : ∃ c c' : Client,
    c.fetches = [.submitBlock 2, .template 2 2 1 (some "wallet") (some "1"),
      .template 3 3 1 (some "wallet") (some "1")] ∧
    c.step (.reply 0 submitReply 9) = some c' ∧
    ReplyPaired (c.forget 0) c' (.submitBlock 2) submitReply 9 := by
  have hrun : (exec (guarded matched step) (start true none 5 5000)
      [.loginSuccess 0, .jobReceived (poolJob "1") 0, .reply 0 (templateReply 1 7 "") 1,
        .answer 0 true 2, .submit 5 5 3, .submit 5 0 4]).map
      (fun c => (c.fetches, matched c (.reply 0 submitReply 9))) =
      some ([.submitBlock 2, .template 2 2 1 (some "wallet") (some "1"),
        .template 3 3 1 (some "wallet") (some "1")], true) := by decide
  obtain ⟨c, hexec, hc⟩ := Option.map_eq_some_iff.mp hrun
  obtain ⟨hfetches, hok⟩ := Prod.mk.inj hc
  have hr : c.fetches[0]? = some (.submitBlock 2) := by rw [hfetches]; rfl
  have hstep : c.step (.reply 0 submitReply 9) =
      some ((c.forget 0).onHttpData (.submitBlock 2) submitReply 9) := by
    rw [step, hr, Option.map_some]
  exact ⟨c, _, hfetches, hstep,
    replies_matched (run_of_guarded (fun _ _ => id) hexec) hr hok hstep⟩

end VeloxHash.SelfSelectClient
