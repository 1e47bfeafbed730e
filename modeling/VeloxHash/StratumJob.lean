import VeloxHash.PoolConfig
import VeloxHash.Cvt
import VeloxHash.EthStratumClient

/-! The job of a stratum `Client`: what `parseJob` makes of the members that a pool sends,
the target and the difficulty it sets, and when the job is published. -/

namespace VeloxHash

/-- `kMaxSeedSize`. -/
def kMaxSeedSize : Nat := 32

/-- A `Job` with the members that only its makers read. -/
structure StratumJob extends Job where
  diff : UInt64 := 0
  seed : List UInt8 := []
  poolWallet : Option String := none

namespace StratumJob

section Target

variable (j : StratumJob)

/-- What a target stands for; `none` is a division by zero. -/
def parseTarget (target : List UInt8) : Option UInt64 :=
  if j.algorithm = .rxYada then some (strtoull target)
  else
    let raw := Cvt.fromHex target
    if raw.length = 4 then
      let compact := UInt64.ofNat (CodeBuffer.ofLe raw)
      if compact = 0 then none
      else if 0xFFFFFFFF / compact = 0 then none
      else some (0xFFFFFFFFFFFFFFFF / (0xFFFFFFFF / compact))
    else if raw.length = 8 then some (.ofNat (CodeBuffer.ofLe raw))
    else some 0

/-- `setTarget`; `none` if it does not return. -/
def setTarget (target : Option (List UInt8)) : Option (Bool × StratumJob) :=
  let text := target.getD []
  if text.length < 4 then some (false, j)
  else (j.parseTarget text).map fun t =>
    let j := { j with target := t }
    if t = 0 then (false, j) else (true, { j with diff := Job.toDiff t })

def setDiff (diff : UInt64) : StratumJob := { j with diff, target := Job.toDiff diff }

end Target

/-- `JobResult::actualDiff`. -/
def actualDiff (value : UInt64) : UInt64 := Job.toDiff value

section Members

variable (j : StratumJob)

def setBlobText (blob : Option (List UInt8)) : Option StratumJob :=
  let hex := blob.getD []
  if blob = none ∨ hex.length % 2 ≠ 0 then none
  else
    let bytes := Cvt.fromHex hex
    if bytes = [] then none else (j.toJob.setBlob bytes).map fun job => { j with toJob := job }

def setSeedHash (hash : Option (List UInt8)) : Option StratumJob :=
  let hex := hash.getD []
  if hex.length ≠ kMaxSeedSize * 2 then none
  else
    let seed := Cvt.fromHex hex
    if seed = [] then none else some { j with seed }

def toKey (bytes : List UInt8) : Key := Vector.ofFn fun i => bytes.getD i 0

def setSigKey (sigKey : Option (List UInt8)) : StratumJob :=
  let hex := sigKey.getD []
  if hex.length ≠ 64 * 2 then j
  else
    let buf := Cvt.fromHex hex
    if buf.length = 64 then
      { j with
        hasMinerSignature := true
        ephPublicKey := toKey (buf.take 32)
        ephSecretKey := toKey (buf.drop 32) }
    else j

end Members

/-- The pool, the extensions of the session and the listener's `onVerifyAlgorithm`. -/
structure Surroundings where
  nicehash : Bool
  algorithm : Algorithm
  coinAlgorithm : Option (UInt8 → Algorithm)
  selfSelect : Bool
  verifies : Algorithm → Bool

structure Client where
  rpcId : Option String := none
  job : StratumJob := {}
  jobs : Nat := 0
  connected : Bool := true
  published : List StratumJob := []

section Parsing

variable (k : Surroundings) (c : Client) (params : Json)

/-- A member as a C string. -/
def member (key : String) : Option (List UInt8) := (params.getString key).map text

/-- The algorithm of a job: named, of the coin, or the pool's. -/
def jobAlgorithm : Algorithm :=
  match params.getString "algo", k.coinAlgorithm with
  | some algo, _ => Algorithm.parse (cString algo)
  | none, some algorithm =>
    algorithm (((member params "blob").bind fun blob =>
      some ((Cvt.fromHexInto 1 (fun _ => 0) (some (blob.take 2))).2 0)).getD 0)
  | none, none => k.algorithm

/-- `parseJob` as far as the target. -/
def blobJob : Except Nat StratumJob :=
  if params.isObject then
    match params.getString "job_id" with
    | none => .error 3
    | some id =>
      let job : StratumJob :=
        { nicehash := k.nicehash, algorithm := jobAlgorithm k params, clientId := c.rpcId.getD ""
          id := cString id }
      if k.selfSelect then
        match params.getString "extra_nonce", params.getString "pool_wallet" with
        | some extraNonce, some poolWallet =>
          .ok { job with extraNonce := cString extraNonce, poolWallet := some (cString poolWallet) }
        | _, _ => .error 4
      else
        match job.setBlobText (member params "blob") with
        | some job => .ok job
        | none => .error 4
  else .error 2

/-- The rest behind a target that was set. -/
def finishJob (job : StratumJob) : Except Nat StratumJob :=
  let job := { job with height := .ofNat (params.getUint64 "height") }
  if !job.algorithm.isValid || !k.verifies job.algorithm then .error 6
  else if !k.selfSelect && job.algorithm.isRandomX then
    match job.setSeedHash (member params "seed_hash") with
    | some job => .ok (job.setSigKey (member params "sig_key"))
    | none => .error 7
  else .ok (job.setSigKey (member params "sig_key"))

/-- The job that the members make; `none` if `setTarget` does not return. -/
def jobOf : Option (Except Nat StratumJob) :=
  match blobJob k c params with
  | .error code => some (.error code)
  | .ok job => (job.setTarget (member params "target")).map fun
    | (false, _) => .error 5
    | (true, job) => finishJob k params job

def Client.close : Client := { c with connected := false }

/-- `parseJob`: whether there is a job to publish, the error code, and the client. -/
def parseJob : Option (Bool × Option Nat × Client) :=
  (jobOf k c params).map fun
  | .error code => (false, some code, c)
  | .ok job =>
    let c := { c with job := { c.job with clientId := c.rpcId.getD "" } }
    if !c.job.isEqual job.toJob then (true, none, { c with jobs := c.jobs + 1, job })
    else if c.jobs = 0 then (false, none, c)
    else (false, none, c.close)

/-- `Job::isValid`. -/
def isValid (j : StratumJob) : Bool :=
  j.blob ≠ [] ∧ 0 < j.diff ∨ j.poolWallet.any (· ≠ "")

def Client.publish : Client := { c with published := c.job :: c.published }

/-- The notification `job`. -/
def notification : Option Client :=
  (parseJob k c params).map fun (ok, _, c) => if ok then c.publish else c.close

/-- The reply to the login, with the job in it. -/
def loginReply (result : Json) : Option Client :=
  let c := { c with rpcId := (result.getString "id").map cString }
  if c.rpcId = none then some c.close
  else (parseJob k c (result.getObject "job")).map fun (ok, _, c) =>
    let c := { c with jobs := 0 }
    if ok then if isValid c.job then c.publish else c else c.close

end Parsing

section Division

/-- A word divided by a small number, and by what comes of it. -/
theorem div_div_self {n q : Nat} (hq : 0 < q) (h : q * q ≤ n) : n / (n / q) = q := by
  have hle : q ≤ n / q := (Nat.le_div_iff_mul_le hq).mpr h
  have hmod := Nat.div_add_mod n q
  have hlt := Nat.mod_lt n hq
  refine Nat.div_eq_of_lt_le ?_ ?_
  · omega
  · rw [Nat.succ_mul]
    omega

/-- Below a quotient the divisor that gave it is reached again. -/
theorem le_div_of_lt_div {n d v : Nat} (hv : 0 < v) (h : v < n / d) : d ≤ n / v := by
  rw [Nat.le_div_iff_mul_le hv, Nat.mul_comm]
  exact (Nat.mul_le_mul_right d h.le).trans (Nat.div_mul_le_self n d)

theorem toNat_toDiff {t : UInt64} (h : t ≠ 0) : (Job.toDiff t).toNat = (2 ^ 64 - 1) / t.toNat := by
  rw [Job.toDiff, if_neg h, UInt64.toNat_div]
  rfl

theorem toNat_pos {t : UInt64} (h : t ≠ 0) : 0 < t.toNat :=
  Nat.pos_of_ne_zero fun h0 => h (UInt64.toNat.inj h0)

theorem toDiff_pos {t : UInt64} (h : t ≠ 0) : 1 ≤ (Job.toDiff t).toNat := by
  have hlt := t.toNat_lt
  rw [toNat_toDiff h, Nat.le_div_iff_mul_le (toNat_pos h)]
  omega

end Division

section Targets

/-- The number that a target of four bytes stands for. -/
def compact (text : List UInt8) : Option UInt32 :=
  let raw := Cvt.fromHex text
  if raw.length = 4 then some (.ofNat (CodeBuffer.ofLe raw)) else none

variable {j j' : StratumJob} {text : List UInt8} {t : UInt32}

theorem compact_eq (h : compact text = some t) :
    (Cvt.fromHex text).length = 4 ∧ CodeBuffer.ofLe (Cvt.fromHex text) = t.toNat := by
  unfold compact at h
  dsimp only at h
  split at h
  · rename_i hlen
    have hlt := CodeBuffer.ofLe_lt (Cvt.fromHex text)
    rw [hlen] at hlt
    refine ⟨hlen, ?_⟩
    rw [← Option.some.inj h, UInt32.toNat_ofNat', Nat.mod_eq_of_lt (by simpa using hlt)]
  · exact absurd h nofun

/-- Text of four bytes is eight characters long. -/
theorem length_fromHex (text : List UInt8) : (Cvt.fromHex text).length ≤ text.length / 2 := by
  rw [Cvt.fromHex_eq]
  cases h : Hex.decode text with
  | none => exact Nat.zero_le _
  | some bytes =>
    have := (Hex.decodes_of_decode h).length_eq
    rw [Option.getD_some]
    omega

theorem parseTarget_compact (halgorithm : j.algorithm ≠ .rxYada) (h : compact text = some t)
    (ht : t ≠ 0) :
    ∃ target, j.parseTarget text = some target ∧
      target.toNat = (2 ^ 64 - 1) / ((2 ^ 32 - 1) / t.toNat) := by
  obtain ⟨hlen, hvalue⟩ := compact_eq h
  have hlt := t.toNat_lt
  have hpos : 0 < t.toNat := Nat.pos_of_ne_zero fun h0 => ht (UInt32.toNat.inj h0)
  have hword : (UInt64.ofNat t.toNat).toNat = t.toNat := by
    rw [UInt64.toNat_ofNat']
    omega
  have hne : UInt64.ofNat t.toNat ≠ 0 := by
    intro h0
    rw [h0] at hword
    exact hpos.ne hword
  have hquotient : (0xFFFFFFFF / UInt64.ofNat t.toNat : UInt64).toNat = (2 ^ 32 - 1) / t.toNat := by
    rw [UInt64.toNat_div, hword]
    rfl
  have hq : 0xFFFFFFFF / UInt64.ofNat t.toNat ≠ 0 := by
    intro h0
    rw [h0] at hquotient
    exact (Nat.div_pos (by omega) hpos).ne hquotient
  refine ⟨0xFFFFFFFFFFFFFFFF / (0xFFFFFFFF / UInt64.ofNat t.toNat), ?_, ?_⟩
  · rw [parseTarget, if_neg halgorithm]
    dsimp only
    rw [if_pos hlen, hvalue, if_neg hne, if_neg hq]
  · rw [UInt64.toNat_div, hquotient]
    rfl

theorem setTarget_compact (halgorithm : j.algorithm ≠ .rxYada) (h : compact text = some t)
    (ht : t ≠ 0) :
    ∃ j', j.setTarget (some text) = some (true, j') ∧ j'.diff.toNat = (2 ^ 32 - 1) / t.toNat ∧
      j'.target.toNat = (2 ^ 64 - 1) / ((2 ^ 32 - 1) / t.toNat) := by
  obtain ⟨target, hparse, htarget⟩ := parseTarget_compact halgorithm h ht
  have hlt := t.toNat_lt
  have hpos : 0 < t.toNat := Nat.pos_of_ne_zero fun h0 => ht (UInt32.toNat.inj h0)
  have hlen : 4 ≤ text.length := by
    have := length_fromHex text
    have := (compact_eq h).1
    omega
  have hq : 0 < (2 ^ 32 - 1) / t.toNat := Nat.div_pos (by omega) hpos
  have hqle : (2 ^ 32 - 1) / t.toNat ≤ 2 ^ 32 - 1 := Nat.div_le_self _ _
  have hsquare : (2 ^ 32 - 1) / t.toNat * ((2 ^ 32 - 1) / t.toNat) ≤ 2 ^ 64 - 1 :=
    (Nat.mul_le_mul hqle hqle).trans (by norm_num)
  have hne : target ≠ 0 := by
    rintro rfl
    refine absurd htarget (Nat.div_pos ?_ hq).ne
    omega
  refine ⟨{ j with target, diff := Job.toDiff target }, ?_, ?_, htarget⟩
  · rw [setTarget, Option.getD_some, if_neg (by omega), hparse, Option.map_some, if_neg hne]
  · rw [toNat_toDiff hne, htarget, div_div_self hq hsquare]

/-- The jobs whose target was set, from a pool's text or from a difficulty. -/
inductive Targeted : StratumJob → Prop
  | target {j j' : StratumJob} {text : Option (List UInt8)} :
      j.setTarget text = some (true, j') → Targeted j'
  | diff (j : StratumJob) (diff : UInt64) : Targeted (j.setDiff diff)

theorem setTarget_true {text : Option (List UInt8)} (h : j.setTarget text = some (true, j')) :
    j'.target ≠ 0 ∧ j'.diff = Job.toDiff j'.target := by
  unfold setTarget at h
  dsimp only at h
  split at h
  · exact absurd h (by simp)
  · obtain ⟨target, -, h⟩ := Option.map_eq_some_iff.mp h
    split at h
    · exact absurd h (by simp)
    · rename_i hne
      obtain rfl := (Prod.mk.inj h).2
      exact ⟨hne, rfl⟩

theorem Targeted.diff_le (h : Targeted j) {v : UInt64} (hv : 0 < v) (hlt : v < j.target) :
    j.diff.toNat ≤ (2 ^ 64 - 1) / v.toNat := by
  have hpos : 0 < v.toNat := UInt64.lt_iff_toNat_lt.mp hv
  have hlt' := UInt64.lt_iff_toNat_lt.mp hlt
  cases h with
  | target hset =>
    obtain ⟨hne, hdiff⟩ := setTarget_true hset
    rw [hdiff, toNat_toDiff hne]
    exact Nat.div_le_div_left hlt'.le hpos
  | diff j d =>
    by_cases hd : d = 0
    · subst hd
      exact Nat.zero_le _
    · change v.toNat < (Job.toDiff d).toNat at hlt'
      rw [toNat_toDiff hd] at hlt'
      exact le_div_of_lt_div hpos hlt'

/-- A compact target gives its own difficulty and a target that follows its order, and a
nonzero hash below a job's target has at least the job's difficulty. -/
theorem target_diff_agree :
    (∀ (j : StratumJob) (text : List UInt8) (t : UInt32), j.algorithm ≠ .rxYada →
      compact text = some t → t ≠ 0 →
        ∃ j', j.setTarget (some text) = some (true, j') ∧ j'.diff.toNat = (2 ^ 32 - 1) / t.toNat) ∧
    (∀ (j j₁ j₂ : StratumJob) (text₁ text₂ : List UInt8) (t₁ t₂ : UInt32), j.algorithm ≠ .rxYada →
      compact text₁ = some t₁ → compact text₂ = some t₂ → t₁ ≠ 0 → t₁ ≤ t₂ →
        j.setTarget (some text₁) = some (true, j₁) → j.setTarget (some text₂) = some (true, j₂) →
          j₁.target ≤ j₂.target) ∧
    ∀ (j : StratumJob) (v : UInt64), Targeted j → 0 < v → v < j.target →
      (actualDiff v).toNat = (2 ^ 64 - 1) / v.toNat ∧ j.diff ≤ actualDiff v := by
  refine ⟨fun j text t halgorithm h ht => ?_, fun j j₁ j₂ text₁ text₂ t₁ t₂ halgorithm h₁ h₂ ht hle
    hset₁ hset₂ => ?_, fun j v h hv hlt => ?_⟩
  · obtain ⟨j', hset, hdiff, -⟩ := setTarget_compact halgorithm h ht
    exact ⟨j', hset, hdiff⟩
  · have hpos : 0 < t₁.toNat := Nat.pos_of_ne_zero fun h0 => ht (UInt32.toNat.inj h0)
    have hle' := UInt32.le_iff_toNat_le.mp hle
    have ht₂ : t₂ ≠ 0 := by
      rintro rfl
      exact absurd hle' (by simpa using hpos.ne')
    have hlt₂ := t₂.toNat_lt
    obtain ⟨j₁', hset₁', -, htarget₁⟩ := setTarget_compact halgorithm h₁ ht
    obtain ⟨j₂', hset₂', -, htarget₂⟩ := setTarget_compact halgorithm h₂ ht₂
    obtain rfl : j₁' = j₁ := (Prod.mk.inj (Option.some.inj (hset₁'.symm.trans hset₁))).2
    obtain rfl : j₂' = j₂ := (Prod.mk.inj (Option.some.inj (hset₂'.symm.trans hset₂))).2
    rw [UInt64.le_iff_toNat_le, htarget₁, htarget₂]
    exact Nat.div_le_div_left (Nat.div_le_div_left hle' hpos) (Nat.div_pos (by omega) (by omega))
  · have hne : v ≠ 0 := fun h0 => absurd hv (by rw [h0]; decide)
    refine ⟨toNat_toDiff hne, ?_⟩
    rw [UInt64.le_iff_toNat_le, actualDiff, toNat_toDiff hne]
    exact h.diff_le hv hlt

/-- The compact target 0x00068DB8, and a hash below the target of difficulty 10000. -/
theorem target_diff_agree_compact :
    (∃ j', ({ algorithm := .rx0 } : StratumJob).setTarget (some [98, 56, 56, 100, 48, 54, 48, 48]) =
      some (true, j') ∧ j'.diff.toNat = 10000) ∧
    10000 ≤ actualDiff 0x00068DB8BAC710CA := by
  obtain ⟨hcompact, -, hshare⟩ := target_diff_agree
  constructor
  · obtain ⟨j', hset, hdiff⟩ := hcompact { algorithm := .rx0 } [98, 56, 56, 100, 48, 54, 48, 48]
      0x00068DB8 (by decide) (by decide +kernel) (by decide)
    exact ⟨j', hset, hdiff⟩
  · exact (hshare (({} : StratumJob).setDiff 10000) 0x00068DB8BAC710CA (.diff _ _) (by decide)
      (by decide)).2

end Targets

section Publication

variable (j : StratumJob) (text : Option (List UInt8))

/-- What `setTarget` is to do for a job and a target: return, accept only what has a
difficulty, and keep the client from publishing what it does not accept. -/
structure Total : Prop where
  returns : (j.setTarget text).isSome
  accepted : ∀ j', j.setTarget text = some (true, j') →
    j'.target ≠ 0 ∧ j'.diff.toNat = (2 ^ 64 - 1) / j'.target.toNat ∧ 1 ≤ j'.diff.toNat
  notification : ∀ k c params j' c', blobJob k c params = .ok j → member params "target" = text →
    j.setTarget text = some (false, j') → notification k c params = some c' →
      c'.published = c.published
  loginReply : ∀ k c result j' c',
    blobJob k { c with rpcId := (result.getString "id").map cString } (result.getObject "job") = .ok j →
      member (result.getObject "job") "target" = text → j.setTarget text = some (false, j') →
        loginReply k c result = some c' → c'.published = c.published

variable {j text}

theorem parseJob_refused {k : Surroundings} {c : Client} {params : Json} {j' : StratumJob}
    (hjob : blobJob k c params = .ok j) (hfalse : j.setTarget (member params "target") = some (false, j')) :
    parseJob k c params = some (false, some 5, c) := by
  have hcode : jobOf k c params = some (.error 5) := by
    rw [jobOf, hjob]
    dsimp only
    rw [hfalse]
    rfl
  rw [parseJob, hcode]
  rfl

/-- Eight characters of zeros, the target that divides by zero. -/
def zeros : List UInt8 := List.replicate 8 48

/-- Only the digit zero stands for zero. -/
theorem value_zero {c : UInt8} (h : Hex.value c = some 0) : c = 48 := by
  have hall : ∀ i : Fin 256, Hex.value (.ofFin i) = some 0 → UInt8.ofFin i = 48 := by decide +kernel
  exact hall c.toFin h

theorem halves_zero {x y : UInt8} (hx : x < 16) (hy : y < 16) (h : x * 16 ||| y = 0) : x = 0 ∧ y = 0 := by
  have hall : ∀ i j : Fin 16, UInt8.ofNat i * 16 ||| UInt8.ofNat j = 0 →
      UInt8.ofNat i = 0 ∧ UInt8.ofNat j = 0 := by
    decide +kernel
  have hj := hall ⟨x.toNat, UInt8.lt_iff_toNat_lt.mp hx⟩ ⟨y.toNat, UInt8.lt_iff_toNat_lt.mp hy⟩
  simpa using hj (by simpa using h)

theorem decodes_zeros {hex : List UInt8} {n : Nat} (h : Hex.Decodes hex (List.replicate n 0)) :
    hex = List.replicate (n * 2) 48 := by
  induction n generalizing hex with
  | zero =>
    cases h
    rfl
  | succ n ih =>
    rw [List.replicate_succ] at h
    generalize hb : (0 : UInt8) = b at h
    cases h with
    | cons hx hy hrest =>
      obtain ⟨hx0, hy0⟩ := halves_zero (Cvt.digit_value hx).1 (Cvt.digit_value hy).1 hb.symm
      rw [hx0] at hx
      rw [hy0] at hy
      rw [← hb] at hrest
      rw [value_zero hx, value_zero hy, ih hrest, Nat.succ_mul]
      rfl

/-- Four bytes of zeros come of eight zeros only. -/
theorem fromHex_zero_iff (hex : List UInt8) :
    (Cvt.fromHex hex).length = 4 ∧ CodeBuffer.ofLe (Cvt.fromHex hex) = 0 ↔ hex = zeros := by
  constructor
  · rintro ⟨hlen, hvalue⟩
    have hbytes := CodeBuffer.le_ofLe (Cvt.fromHex hex)
    rw [hlen, hvalue] at hbytes
    rw [Cvt.fromHex_eq] at hbytes
    cases h : Hex.decode hex with
    | none => exact absurd hbytes (by rw [h]; decide)
    | some bytes =>
      rw [h, Option.getD_some] at hbytes
      have hdecodes := Hex.decodes_of_decode h
      rw [← hbytes] at hdecodes
      exact decodes_zeros (n := 4) hdecodes
  · rintro rfl
    decide +kernel

theorem parseTarget_eq_none_iff (j : StratumJob) (hex : List UInt8) :
    j.parseTarget hex = none ↔ j.algorithm ≠ .rxYada ∧ hex = zeros := by
  by_cases halgorithm : j.algorithm = .rxYada
  · rw [parseTarget, if_pos halgorithm]
    exact ⟨nofun, fun h => absurd halgorithm h.1⟩
  · cases hc : compact hex with
    | none =>
      have hlen : (Cvt.fromHex hex).length ≠ 4 := by
        intro h
        rw [compact, if_pos h] at hc
        exact absurd hc nofun
      rw [parseTarget, if_neg halgorithm]
      dsimp only
      rw [if_neg hlen]
      constructor
      · intro h
        split at h <;> exact absurd h nofun
      · rintro ⟨-, hzeros⟩
        exact absurd ((fromHex_zero_iff hex).mpr hzeros).1 hlen
    | some t =>
      obtain ⟨hlen, hvalue⟩ := compact_eq hc
      by_cases ht : t = 0
      · subst ht
        have hzeros := (fromHex_zero_iff hex).mp ⟨hlen, hvalue⟩
        refine ⟨fun _ => ⟨halgorithm, hzeros⟩, fun _ => ?_⟩
        rw [parseTarget, if_neg halgorithm]
        dsimp only
        rw [if_pos hlen, hvalue]
        rfl
      · obtain ⟨target, hparse, -⟩ := parseTarget_compact halgorithm hc ht
        rw [hparse]
        refine ⟨nofun, fun ⟨_, hzeros⟩ => ?_⟩
        have hzero : t.toNat = (0 : UInt32).toNat :=
          hvalue.symm.trans ((fromHex_zero_iff hex).mpr hzeros).2
        exact absurd (UInt32.toNat.inj hzero) ht

/-- `setTarget` does all it is to do, but for a job that is not of `rx/yada` and the target
`00000000`. -/
theorem total_iff (j : StratumJob) (text : Option (List UInt8)) :
    Total j text ↔ ¬(j.algorithm ≠ .rxYada ∧ text = some zeros) := by
  have hreturns : j.setTarget text = none ↔ j.algorithm ≠ .rxYada ∧ text = some zeros := by
    unfold setTarget
    dsimp only
    split
    · rename_i hshort
      refine ⟨nofun, fun ⟨_, hzeros⟩ => ?_⟩
      rw [hzeros] at hshort
      exact absurd hshort (by decide)
    · rename_i hlong
      rw [Option.map_eq_none_iff, parseTarget_eq_none_iff]
      cases text with
      | none => exact absurd (by decide) hlong
      | some hex => simp
  constructor
  · intro h hzeros
    have := h.returns
    rw [hreturns.mpr hzeros] at this
    exact absurd this (by decide)
  · intro h
    refine ⟨?_, fun j' htrue => ?_, fun k c params j' c' hjob htext hfalse hdone => ?_,
      fun k c result j' c' hjob htext hfalse hdone => ?_⟩
    · rw [Option.isSome_iff_ne_none]
      exact fun hnone => h (hreturns.mp hnone)
    · obtain ⟨hne, hdiff⟩ := setTarget_true htrue
      rw [hdiff]
      exact ⟨hne, toNat_toDiff hne, toDiff_pos hne⟩
    · rw [notification, parseJob_refused hjob (htext ▸ hfalse)] at hdone
      rw [← Option.some.inj hdone]
      rfl
    · unfold loginReply at hdone
      dsimp only at hdone
      split at hdone
      · rw [← Option.some.inj hdone]
        rfl
      · rw [parseJob_refused hjob (htext ▸ hfalse)] at hdone
        rw [← Option.some.inj hdone]
        rfl

/-- The target `00000000` of a pool divides by zero. -/
theorem total_iff_zeros : ¬Total { algorithm := .rx0 } (some zeros) := by
  intro h
  exact absurd h.returns (by decide +kernel)

end Publication

end StratumJob

end VeloxHash
