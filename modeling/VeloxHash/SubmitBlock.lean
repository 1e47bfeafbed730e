import VeloxHash.DaemonReplies

/-! What `DaemonClient::submit` makes of an accepted template. It patches the text at the
nonce offset of the job's algorithm, and the parser has one of its own. -/

namespace VeloxHash.SubmitBlock

open ReaderProgram Splice CodeBuffer TransitionSystem TemplateMembers DaemonJob

/-- The algorithm of the jobs that are made for the pool. -/
def jobAlgorithm (pool : Pool) : Algorithm :=
  if pool.coin = .invalid then pool.algorithm else pool.coin.algorithm

section Accepted

variable {k : Signatures} {pool : Pool} {t : BlockTemplate} {reply : Reply} {jobId : String}
  {job : Job}

theorem run_bind_ok {α β ε : Type} {x : ExceptT ε Option α} {f : α → ExceptT ε Option β} {b : β} :
    (x >>= f).run = some (.ok b) ↔ ∃ a, x.run = some (.ok a) ∧ (f a).run = some (.ok b) := by
  rw [ExceptT.run_bind]
  constructor
  · intro h
    obtain ⟨r, hr, h⟩ := Option.bind_eq_some_iff.mp h
    cases r with
    | ok a => exact ⟨a, hr, h⟩
    | error e => exact nomatch h
  · rintro ⟨a, hx, hf⟩
    rw [hx]
    exact hf

theorem setBlob_job {job' : Job} {bytes : List UInt8} (h : job.setBlob bytes = some job') :
    job'.algorithm = job.algorithm ∧ job'.hasMinerSignature = job.hasMinerSignature := by
  obtain ⟨_, h⟩ := Option.ite_none_right_eq_some.mp h
  obtain rfl := Option.some.inj h
  exact ⟨rfl, rfl⟩

theorem signingJob_ok (h : (signingJob k pool t).run = some (.ok job)) :
    job.algorithm = pool.algorithm ∧ job.hasMinerSignature = t.hasMinerSignature := by
  unfold signingJob at h
  cases hsigned : t.hasMinerSignature with
  | true =>
    rw [hsigned, if_pos rfl] at h
    obtain ⟨keys, _, h⟩ := run_bind_ok.mp h
    obtain rfl := Except.ok.inj (Option.some.inj h)
    exact ⟨rfl, rfl⟩
  | false =>
    rw [hsigned, if_neg Bool.false_ne_true] at h
    obtain rfl := Except.ok.inj (Option.some.inj h)
    exact ⟨rfl, rfl⟩

/-- A job signs exactly if the parsed template has a signature. -/
theorem jobOf_ok (h : (jobOf k pool t reply jobId).run = some (.ok job)) :
    job.algorithm = jobAlgorithm pool ∧ job.hasMinerSignature = t.hasMinerSignature := by
  obtain ⟨signing, hsigning, h⟩ := run_bind_ok.mp h
  obtain ⟨halgorithm, hsigned⟩ := signingJob_ok hsigning
  dsimp only at h
  split at h
  · rename_i blobbed hblob
    obtain ⟨bytes, _, hset⟩ := Option.bind_eq_some_iff.mp hblob
    obtain ⟨hsame, hsignature⟩ := setBlob_job hset
    obtain rfl := Except.ok.inj (Option.some.inj h)
    refine ⟨hsame.trans ?_, hsignature.trans (Eq.trans ?_ hsigned)⟩
    · unfold jobAlgorithm
      split
      · exact halgorithm
      · rfl
    · split <;> rfl
  · exact nomatch h

end Accepted

/-- The bytes with the nonce of a result at one place and, where that is asked for, its miner
signature at another. -/
def stamped (bytes : List UInt8) (offset signatureOffset : Nat) (signed : Bool) (r : JobResult) :
    List UInt8 :=
  let bytes := splice bytes offset (le r.nonce.toNat 4)
  match signed, r.minerSignature with
  | true, some signature => splice bytes signatureOffset signature.toList
  | _, _ => bytes

/-- The template's bytes with the nonce of a result where the parser found the nonce, and with
the signature behind it. -/
def expected (bytes : List UInt8) (offset : Nat) (signed : Bool) (r : JobResult) : List UInt8 :=
  stamped bytes offset (offset + 4) signed r

section Patch

variable {text bytes b : List UInt8} {offset : Nat} {c : Client} {r : JobResult}

theorem patch_of_room (h : Hex.Decodes text bytes) (hroom : offset + b.length ≤ bytes.length) :
    ∃ text', Client.patch text offset b = some text' ∧
      Hex.Decodes text' (splice bytes offset b) := by
  have htext := h.length_eq
  have hb := (Hex.decodes_encode b).length_eq
  refine ⟨_, if_pos ?_, h.splice offset b⟩
  omega

theorem decodes_of_patch {text' : List UInt8} (h : Hex.Decodes text bytes)
    (hpatch : Client.patch text offset b = some text') :
    offset + b.length ≤ bytes.length ∧ Hex.Decodes text' (splice bytes offset b) := by
  have htext := h.length_eq
  have hb := (Hex.decodes_encode b).length_eq
  obtain ⟨hroom, hsplice⟩ := Option.ite_none_right_eq_some.mp hpatch
  obtain rfl := Option.some.inj hsplice
  exact ⟨by omega, h.splice offset b⟩

/-- What `submit` sends decodes to the bytes stamped at the places of the job. -/
theorem decodes_of_patched (h : Hex.Decodes c.blocktemplateStr bytes)
    (hpatched : c.patched r = some text) :
    c.job.nonceOffset + 4 ≤ bytes.length ∧
      (c.blocktemplate.hasMinerSignature = true → c.job.signatureOffset + 64 ≤ bytes.length) ∧
      Hex.Decodes text (stamped bytes c.job.nonceOffset c.job.signatureOffset
        c.blocktemplate.hasMinerSignature r) := by
  obtain ⟨text₁, hnonce, hpatched⟩ := Option.bind_eq_some_iff.mp hpatched
  obtain ⟨hroom, hdecodes⟩ := decodes_of_patch h hnonce
  rw [length_le] at hroom
  cases hsigned : c.blocktemplate.hasMinerSignature with
  | false =>
    rw [hsigned, if_neg Bool.false_ne_true] at hpatched
    obtain rfl := Option.some.inj hpatched
    exact ⟨hroom, nofun, hdecodes⟩
  | true =>
    rw [hsigned, if_pos rfl] at hpatched
    obtain ⟨signature, hsignature, hpatch⟩ := Option.bind_eq_some_iff.mp hpatched
    obtain ⟨hroom', hdecodes'⟩ := decodes_of_patch hdecodes hpatch
    rw [Vector.length_toList, length_splice (by rwa [length_le])] at hroom'
    refine ⟨hroom, fun _ => hroom', ?_⟩
    unfold stamped
    rw [hsignature]
    exact hdecodes'

theorem patched_of_room (h : Hex.Decodes c.blocktemplateStr bytes)
    (hroom : c.job.nonceOffset + 4 ≤ bytes.length)
    (hsigned : c.blocktemplate.hasMinerSignature = true →
      c.job.signatureOffset + 64 ≤ bytes.length ∧ r.minerSignature.isSome = true) :
    ∃ text, c.patched r = some text := by
  obtain ⟨text₁, hnonce, hdecodes⟩ :=
    patch_of_room (b := le r.nonce.toNat 4) h (by rwa [length_le])
  unfold Client.patched
  rw [hnonce]
  cases hflag : c.blocktemplate.hasMinerSignature with
  | false => exact ⟨text₁, rfl⟩
  | true =>
    obtain ⟨hroom', hsome⟩ := hsigned hflag
    obtain ⟨signature, hsignature⟩ := Option.isSome_iff_exists.mp hsome
    have hlength : c.job.signatureOffset + signature.toList.length ≤
        (splice bytes c.job.nonceOffset (le r.nonce.toNat 4)).length := by
      rw [Vector.length_toList, length_splice (by rwa [length_le])]
      exact hroom'
    obtain ⟨text₂, hpatch, _⟩ := patch_of_room hdecodes hlength
    rw [hsignature]
    exact ⟨text₂, hpatch⟩

end Patch

section Stamps

variable {bytes : List UInt8} {offset signatureOffset : Nat} {signed : Bool} {r : JobResult}

theorem stamped_signed {signature : Signature} (h : r.minerSignature = some signature) :
    stamped bytes offset signatureOffset true r =
      splice (splice bytes offset (le r.nonce.toNat 4)) signatureOffset signature.toList := by
  unfold stamped
  rw [h]

theorem length_stamped (hroom : offset + 4 ≤ bytes.length)
    (hsigned : signed = true → signatureOffset + 64 ≤ bytes.length) :
    (stamped bytes offset signatureOffset signed r).length = bytes.length := by
  have hnonce : (splice bytes offset (le r.nonce.toNat 4)).length = bytes.length :=
    length_splice (by rwa [length_le])
  unfold stamped
  split
  · rw [length_splice (by rw [Vector.length_toList, hnonce]; exact hsigned rfl), hnonce]
  · exact hnonce

/-- The nonce that is stamped last stands, and so does the signature. -/
theorem expected_expected {r' : JobResult}
    (hroom : offset + 4 + (if signed then 64 else 0) ≤ bytes.length)
    (hsame : signed = true → r.minerSignature.isSome = true ∧ r'.minerSignature.isSome = true) :
    expected (expected bytes offset signed r) offset signed r' =
      expected bytes offset signed r' := by
  have hnonce : offset + (le r'.nonce.toNat 4).length ≤ bytes.length := by
    rw [length_le]
    omega
  have hlast : splice (splice bytes offset (le r.nonce.toNat 4)) offset (le r'.nonce.toNat 4) =
      splice bytes offset (le r'.nonce.toNat 4) := splice_splice hnonce (by simp)
  unfold expected
  cases signed with
  | false => exact hlast
  | true =>
    obtain ⟨hsome, hsome'⟩ := hsame rfl
    obtain ⟨signature, hsignature⟩ := Option.isSome_iff_exists.mp hsome
    obtain ⟨signature', hsignature'⟩ := Option.isSome_iff_exists.mp hsome'
    rw [if_pos rfl] at hroom
    have hlength (n : Nat) : (splice bytes offset (le n 4)).length = bytes.length :=
      length_splice (by rw [length_le]; omega)
    have hswap : splice (splice (splice bytes offset (le r.nonce.toNat 4)) (offset + 4)
        signature.toList) offset (le r'.nonce.toNat 4) =
        splice (splice bytes offset (le r'.nonce.toNat 4)) (offset + 4) signature.toList := by
      rw [splice_comm (by rw [Vector.length_toList, hlength]; exact hroom)
        (by rw [hlength]; exact hnonce) (.inr (by rw [length_le])), hlast]
    rw [stamped_signed hsignature', stamped_signed hsignature', stamped_signed hsignature, hswap,
      splice_splice (by rw [Vector.length_toList, hlength]; exact hroom) (by simp)]

end Stamps

/-- The result is one for the client's job: it has a signature if that job signs. -/
structure IsResult (c : Client) (r : JobResult) : Prop where
  jobId : c.currentJobId = some r.jobId
  minerSignature : r.minerSignature.isSome = c.job.hasMinerSignature

/-- However many results are submitted, each text that is sent decodes to the template with
nothing but the nonce and the signature of that result. -/
def SendsTemplate (c : Client) (bytes : List UInt8) (offset : Nat) (signed : Bool) : Prop :=
  ∀ results : List JobResult, (∀ r ∈ results, IsResult c r) →
    ∃ d texts, exec Client.submit c results = some d ∧ d.sent = texts.reverse ++ c.sent ∧
      List.Forall₂ (fun r text => Hex.decode text = some (expected bytes offset signed r)) results
        texts

/-- The client patches the text at the template's own places, and there is room for it. -/
structure Matches (c : Client) (bytes : List UInt8) (offset : Nat) (signed : Bool) : Prop where
  nonceOffset : c.job.nonceOffset = offset
  flag : c.blocktemplate.hasMinerSignature = signed
  signs : c.job.hasMinerSignature = signed
  signatureOffset : signed = true → c.job.signatureOffset = offset + 4
  room : offset + 4 + (if signed then 64 else 0) ≤ bytes.length

section Submits

variable {c : Client} {bytes b text : List UInt8} {offset : Nat} {signed : Bool} {r : JobResult}
  {results : List JobResult}

theorem submit_of_patched (hr : IsResult c r) (h : c.patched r = some text) :
    c.submit r = some { c with blocktemplateStr := text, sent := text :: c.sent } := by
  unfold Client.submit
  rw [if_neg (not_not_intro hr.jobId), h]
  rfl

/-- One submit, when the text decodes to bytes that differ from the template in the nonce and
the signature alone. -/
theorem Matches.submit (h : Matches c bytes offset signed) (hr : IsResult c r)
    (hstr : Hex.Decodes c.blocktemplateStr b) (hlength : b.length = bytes.length)
    (hb : ∀ r, (signed = true → r.minerSignature.isSome = true) →
      expected b offset signed r = expected bytes offset signed r) :
    ∃ text, c.patched r = some text ∧ Hex.Decodes text (expected bytes offset signed r) := by
  have hroom := h.room
  have hsome (hsigned : signed = true) : r.minerSignature.isSome = true :=
    hr.minerSignature.trans (h.signs.trans hsigned)
  have hspace (hflag : c.blocktemplate.hasMinerSignature = true) :
      c.job.signatureOffset + 64 ≤ b.length ∧ r.minerSignature.isSome = true := by
    have hsigned : signed = true := h.flag.symm.trans hflag
    rw [if_pos hsigned] at hroom
    rw [h.signatureOffset hsigned, hlength]
    exact ⟨hroom, hsome hsigned⟩
  obtain ⟨text, htext⟩ := patched_of_room hstr (by rw [h.nonceOffset]; omega) hspace
  obtain ⟨_, _, hdecodes⟩ := decodes_of_patched hstr htext
  refine ⟨text, htext, ?_⟩
  rw [← hb r hsome]
  rw [h.nonceOffset, h.flag] at hdecodes
  cases hsigned : signed with
  | false =>
    rw [hsigned] at hdecodes
    exact hdecodes
  | true =>
    rw [h.signatureOffset hsigned, hsigned] at hdecodes
    exact hdecodes

theorem Matches.submits (h : Matches c bytes offset signed)
    (hstr : Hex.Decodes c.blocktemplateStr b) (hlength : b.length = bytes.length)
    (hb : ∀ r, (signed = true → r.minerSignature.isSome = true) →
      expected b offset signed r = expected bytes offset signed r)
    (hresults : ∀ r ∈ results, IsResult c r) :
    ∃ d texts, exec Client.submit c results = some d ∧ d.sent = texts.reverse ++ c.sent ∧
      List.Forall₂ (fun r text => Hex.decode text = some (expected bytes offset signed r)) results
        texts := by
  induction results generalizing c b with
  | nil => exact ⟨c, [], rfl, rfl, .nil⟩
  | cons r results ih =>
    obtain ⟨hr, hrest⟩ := List.forall_mem_cons.mp hresults
    obtain ⟨text, htext, hdecodes⟩ := h.submit hr hstr hlength hb
    have hsome (hsigned : signed = true) : r.minerSignature.isSome = true :=
      hr.minerSignature.trans (h.signs.trans hsigned)
    have hroom := h.room
    have hlength' : (expected bytes offset signed r).length = bytes.length := by
      refine length_stamped (by omega) fun hsigned => ?_
      rw [if_pos hsigned] at hroom
      exact hroom
    have hnext : Matches { c with blocktemplateStr := text, sent := text :: c.sent } bytes offset
        signed := ⟨h.nonceOffset, h.flag, h.signs, h.signatureOffset, h.room⟩
    obtain ⟨d, texts, hexec, hsent, hall⟩ := ih hnext hdecodes hlength'
      (fun r' hr' => expected_expected h.room fun hsigned => ⟨hsome hsigned, hr' hsigned⟩)
      fun r' hr' => ⟨(hrest r' hr').jobId, (hrest r' hr').minerSignature⟩
    refine ⟨d, text :: texts, ?_, ?_, .cons hdecodes.decode_eq hall⟩
    · rw [exec, submit_of_patched hr htext]
      exact hexec
    · rw [hsent, List.reverse_cons, List.append_assoc]
      rfl

theorem Matches.sends (h : Matches c bytes offset signed)
    (hstr : Hex.Decodes c.blocktemplateStr bytes) : SendsTemplate c bytes offset signed :=
  fun _ hresults => h.submits hstr rfl (fun _ _ => rfl) hresults

/-- What one result shows. -/
theorem SendsTemplate.stamped_eq (h : SendsTemplate c bytes offset signed)
    (hstr : Hex.Decodes c.blocktemplateStr bytes) (hr : IsResult c r) :
    c.job.nonceOffset + 4 ≤ bytes.length ∧
      (c.blocktemplate.hasMinerSignature = true → c.job.signatureOffset + 64 ≤ bytes.length) ∧
      stamped bytes c.job.nonceOffset c.job.signatureOffset c.blocktemplate.hasMinerSignature r =
        expected bytes offset signed r := by
  obtain ⟨d, texts, hexec, hsent, hall⟩ := h [r] (List.forall_mem_singleton.mpr hr)
  obtain ⟨d', hsubmit, hd⟩ := Option.bind_eq_some_iff.mp hexec
  obtain rfl : d' = d := Option.some.inj hd
  unfold Client.submit at hsubmit
  rw [if_neg (not_not_intro hr.jobId)] at hsubmit
  obtain ⟨text, htext, rfl⟩ := Option.map_eq_some_iff.mp hsubmit
  obtain ⟨hroom, hsigned, hdecodes⟩ := decodes_of_patched hstr htext
  refine ⟨hroom, hsigned, ?_⟩
  cases hall with
  | cons hfirst hnil =>
    cases hnil
    rename_i text'
    have htexts : text = text' := (List.cons.inj hsent).1
    rw [← htexts, hdecodes.decode_eq] at hfirst
    exact Option.some.inj hfirst

end Submits

/-- A result with one byte of nonce, and one byte throughout the signature. -/
def probe (c : Client) (jobId : String) (nonce : UInt64) (b : UInt8) : JobResult where
  jobId := jobId
  nonce := nonce
  minerSignature := if c.job.hasMinerSignature then some (Vector.replicate 64 b) else none

section Probes

variable {c : Client} {bytes : List UInt8} {offset : Nat} {signed : Bool} {jobId : String}

theorem isResult_probe (hid : c.currentJobId = some jobId) (nonce : UInt64) (b : UInt8) :
    IsResult c (probe c jobId nonce b) := by
  refine ⟨hid, ?_⟩
  unfold probe
  cases c.job.hasMinerSignature <;> rfl

/-- The first byte of the nonce is all that the probes differ in. -/
theorem le_probe {k : Nat} (hk : k ≠ 0) : (le 1 4)[k]? = (le 2 4)[k]? := by
  have hone : le 1 4 = [1, 0, 0, 0] := rfl
  have htwo : le 2 4 = [2, 0, 0, 0] := rfl
  rw [hone, htwo]
  cases k with
  | zero => exact absurd rfl hk
  | succ k => rfl

theorem splice_probe {p i : Nat} (hroom : p + 4 ≤ bytes.length) (hi : p ≠ i) :
    (splice bytes p (le 1 4))[i]? = (splice bytes p (le 2 4))[i]? := by
  rw [splice_getElem? (by rwa [length_le]), splice_getElem? (by rwa [length_le]), length_le,
    length_le]
  split
  · rename_i hin
    exact le_probe (by omega)
  · rfl

/-- Only at the nonce offset can the probes make a difference. -/
theorem stamped_probe (c : Client) (jobId : String) {p q i : Nat} {flag : Bool} (hroom : p + 4 ≤ bytes.length)
    (hsigned : flag = true → q + 64 ≤ bytes.length) (hi : p ≠ i) :
    (stamped bytes p q flag (probe c jobId 1 0))[i]? =
      (stamped bytes p q flag (probe c jobId 2 0))[i]? := by
  have hsplice := splice_probe hroom hi
  cases flag with
  | false => exact hsplice
  | true =>
    cases hsigns : c.job.hasMinerSignature with
    | false =>
      unfold stamped probe
      rw [hsigns]
      exact hsplice
    | true =>
      have hprobe (n : UInt64) : (probe c jobId n 0).minerSignature =
          some (Vector.replicate 64 0) := if_pos hsigns
      have hlength (n : Nat) : (splice bytes p (le n 4)).length = bytes.length :=
        length_splice (by rwa [length_le])
      have hend (n : Nat) : q + (Vector.replicate 64 (0 : UInt8)).toList.length ≤
          (splice bytes p (le n 4)).length := by
        rw [Vector.length_toList, hlength]
        exact hsigned rfl
      rw [stamped_signed (hprobe 1), stamped_signed (hprobe 2), splice_getElem? (hend _),
        splice_getElem? (hend _)]
      split
      · rfl
      · exact hsplice

theorem expected_probe (hroom : offset + 4 + (if signed then 64 else 0) ≤ bytes.length)
    (nonce : UInt64) (b : UInt8) : (expected bytes offset signed (probe c jobId nonce b))[offset]? =
      (le nonce.toNat 4)[0]? := by
  have hlength : (splice bytes offset (le nonce.toNat 4)).length = bytes.length :=
    length_splice (by rw [length_le]; omega)
  have hsplice : (splice bytes offset (le nonce.toNat 4))[offset]? = (le nonce.toNat 4)[0]? := by
    rw [splice_getElem? (by rw [length_le]; omega), length_le, if_pos (by omega), Nat.sub_self]
  unfold expected
  cases signed with
  | false => exact hsplice
  | true =>
    cases hsigns : c.job.hasMinerSignature with
    | false =>
      unfold stamped probe
      rw [hsigns]
      exact hsplice
    | true =>
      have hprobe : (probe c jobId nonce b).minerSignature = some (Vector.replicate 64 b) :=
        if_pos hsigns
      rw [if_pos rfl] at hroom
      rw [stamped_signed hprobe, splice_getElem?, if_neg (by omega)]
      · exact hsplice
      · rw [Vector.length_toList]
        exact hroom.trans hlength.ge

theorem SendsTemplate.nonceOffset (h : SendsTemplate c bytes offset signed)
    (hstr : Hex.Decodes c.blocktemplateStr bytes) (hid : c.currentJobId = some jobId)
    (hroom : offset + 4 + (if signed then 64 else 0) ≤ bytes.length) :
    c.job.nonceOffset = offset := by
  by_contra hne
  obtain ⟨hspace, hsigned, hone⟩ := h.stamped_eq hstr (isResult_probe hid 1 0)
  obtain ⟨_, _, htwo⟩ := h.stamped_eq hstr (isResult_probe hid 2 0)
  have hsame := stamped_probe c jobId hspace hsigned hne
  rw [hone, htwo, expected_probe hroom, expected_probe hroom] at hsame
  exact absurd hsame (by decide)

/-- A signature that is patched into a template without one shows. -/
theorem SendsTemplate.signed_of_flag (h : SendsTemplate c bytes offset signed)
    (hstr : Hex.Decodes c.blocktemplateStr bytes) (hid : c.currentJobId = some jobId)
    (hsigns : c.job.hasMinerSignature = true)
    (hflag : c.blocktemplate.hasMinerSignature = true) : signed = true := by
  by_contra hne
  obtain rfl : signed = false := Bool.eq_false_iff.mpr hne
  obtain ⟨hspace, hsigned, hzero⟩ := h.stamped_eq hstr (isResult_probe hid 1 0)
  obtain ⟨_, _, hone⟩ := h.stamped_eq hstr (isResult_probe hid 1 1)
  have hend := hsigned hflag
  have hprobe (b : UInt8) : (probe c jobId 1 b).minerSignature = some (Vector.replicate 64 b) :=
    if_pos hsigns
  have hlength : (splice bytes c.job.nonceOffset (le (1 : UInt64).toNat 4)).length =
      bytes.length := length_splice (by rwa [length_le])
  have hfirst (b : UInt8) : (stamped bytes c.job.nonceOffset c.job.signatureOffset true
      (probe c jobId 1 b))[c.job.signatureOffset]? = some b := by
    rw [stamped_signed (hprobe b), splice_getElem?, Vector.length_toList, if_pos (by omega),
      Nat.sub_self]
    · rfl
    · rw [Vector.length_toList]
      exact hend.trans hlength.ge
  rw [hflag] at hzero hone
  have hsame := (hfirst 0).symm.trans ((congrArg (·[c.job.signatureOffset]?)
    (hzero.trans hone.symm)).trans (hfirst 1))
  exact absurd hsame (by decide)

end Probes

section Whole

variable {keccak : List UInt8 → Hash} {allocates : Nat → Bool} {fuel : Nat} {k : Signatures}
  {pool : Pool} {c c' : Client} {reply : Reply} {jobId : String} {hex : Blob}

/-- A client that has accepted a template. -/
structure Accepted (pool : Pool) (c c' : Client) (blob : Blob) (jobId : String) : Prop where
  text : Hex.Decodes c'.blocktemplateStr blob.bytes
  headed : Headed blob pool.coin c.blocktemplate c'.blocktemplate
  algorithm : c'.job.algorithm = jobAlgorithm pool
  signs : c'.job.hasMinerSignature = c'.blocktemplate.hasMinerSignature
  currentJobId : c'.currentJobId = some jobId

theorem accepted (hhex : reply.blocktemplate = some hex)
    (h : c.parseJob keccak allocates fuel k pool reply jobId = some (.ok (), c')) :
    Accepted pool c c' hex.decoded jobId := by
  obtain ⟨hex', job, hhex', hreturned, hjob, rfl⟩ := parseJob_ok h
  obtain rfl := Option.some.inj (hhex'.symm.trans hhex)
  obtain ⟨bytes, hdecode, hok, hparsed⟩ := parseHex_ok hreturned
  obtain ⟨halgorithm, hsigns⟩ := jobOf_ok hjob
  refine ⟨?_, ?_, halgorithm, hsigns, rfl⟩
  · rw [decoded_bytes hdecode]
    exact Hex.decodes_of_decode hdecode
  · dsimp only
    rw [hparsed]
    exact headed_of_parse keccak fuel hex'.decoded pool.coin c.blocktemplate hok

/-- A template with a signature is a Wownero template. -/
theorem nonceSize_of_signed {majorVersion : UInt8}
    (h : BlockTemplate.isSigned pool.coin majorVersion = true) :
    (jobAlgorithm pool).nonceSize = 4 := by
  obtain ⟨hcoin, _⟩ : pool.coin = .wownero ∧ 18 ≤ majorVersion := of_decide_eq_true h
  unfold jobAlgorithm
  rw [hcoin, if_neg (by decide)]
  rfl

theorem Accepted.nonce {blob : Blob} (h : Accepted pool c c' blob jobId) :
    c'.blocktemplate.offset .nonce = nonceStart blob.bytes % 2 ^ 32 := by
  unfold BlockTemplate.offset
  rw [h.headed.nonce]
  rfl

theorem Accepted.flag {blob : Blob} (h : Accepted pool c c' blob jobId) :
    c'.blocktemplate.hasMinerSignature =
      (BlockTemplate.isSigned pool.coin (blob.bytes.headD 0) ||
        c.blocktemplate.hasMinerSignature) := by
  unfold BlockTemplate.hasMinerSignature
  rw [h.headed.minerSignature]
  cases BlockTemplate.isSigned pool.coin (blob.bytes.headD 0) with
  | true => rfl
  | false => rfl

theorem Accepted.room {blob : Blob} (h : Accepted pool c c' blob jobId) :
    c'.blocktemplate.offset .nonce + 4 +
      (if BlockTemplate.isSigned pool.coin (blob.bytes.headD 0) then 64 else 0) ≤
        blob.bytes.length := by
  have hroom := h.headed.room
  have hle : nonceStart blob.bytes % 2 ^ 32 ≤ nonceStart blob.bytes := Nat.mod_le ..
  rw [h.nonce]
  split <;> split at hroom <;> omega

/-- A template with a timestamp of one byte. -/
def early : Reply where
  blocktemplate := some ⟨Hex.encode TemplateHistory.unsigned.bytes, DaemonReplies.unsigned_hex⟩
  blockhashingblob := some (Hex.encode (List.replicate 43 0))
  height := 5
  difficulty := 1

def moneroPool : Pool where
  algorithm := .rx0
  coin := .monero
  spendSecretKey := []
  wallet := none

/-- The timestamp of the template is one byte long, and the nonce is patched four bytes behind
its place. -/
theorem patches_elsewhere : ¬ ∀ (keccak : List UInt8 → Hash) (allocates : Nat → Bool) (fuel : Nat)
    (k : Signatures) (pool : Pool) (c c' : Client) (reply : Reply) (jobId : String) (hex : Blob),
    reply.blocktemplate = some hex →
    c.parseJob keccak allocates fuel k pool reply jobId = some (.ok (), c') →
      SendsTemplate c' hex.decoded.bytes (c'.blocktemplate.offset .nonce)
        (BlockTemplate.isSigned pool.coin (hex.decoded.bytes.headD 0)) := by
  intro h
  have hrun : ((({} : Client).parseJob (fun _ => MerkleTree.noHash) (fun _ => true) 1
      DaemonReplies.noSignatures moneroPool early "first").map fun r =>
        (r.1.toBool, r.2.job.nonceOffset, r.2.blocktemplate.offset .nonce)) =
      some (true, 39, 35) := by decide +kernel
  obtain ⟨⟨result, c'⟩, hparse, hvalues⟩ := Option.map_eq_some_iff.mp hrun
  cases result with
  | error e => exact nomatch congrArg Prod.fst hvalues
  | ok u =>
    have haccepted := accepted rfl hparse
    have hsends := h _ _ _ _ _ _ _ _ _ _ rfl hparse
    have hoffset := hsends.nonceOffset haccepted.text haccepted.currentJobId haccepted.room
    have hjob := congrArg (fun v => v.2.1) hvalues
    have htemplate := congrArg (fun v => v.2.2) hvalues
    dsimp only at hjob htemplate
    omega

/-- Submits send the template with nothing but nonce and signature replaced exactly if the
parser's nonce offset is the one of the algorithm and no signature of an earlier template is
left in the parsed one. -/
theorem submit_patches (hhex : reply.blocktemplate = some hex)
    (haccepted : c.parseJob keccak allocates fuel k pool reply jobId = some (.ok (), c')) :
    SendsTemplate c' hex.decoded.bytes (c'.blocktemplate.offset .nonce)
        (BlockTemplate.isSigned pool.coin (hex.decoded.bytes.headD 0)) ↔
      (jobAlgorithm pool).nonceOffset = nonceStart hex.decoded.bytes % 2 ^ 32 ∧
        (c.blocktemplate.hasMinerSignature = true →
          BlockTemplate.isSigned pool.coin (hex.decoded.bytes.headD 0) = true) := by
  have h := accepted hhex haccepted
  have hjob : c'.job.nonceOffset = (jobAlgorithm pool).nonceOffset :=
    congrArg Algorithm.nonceOffset h.algorithm
  constructor
  · intro hsends
    refine ⟨?_, fun hold => ?_⟩
    · rw [← hjob, ← h.nonce]
      exact hsends.nonceOffset h.text h.currentJobId h.room
    · have hflag : c'.blocktemplate.hasMinerSignature = true := by
        rw [h.flag, hold, Bool.or_true]
      exact hsends.signed_of_flag h.text h.currentJobId (h.signs.trans hflag) hflag
  · rintro ⟨hoffset, hnone⟩
    have hnonce : c'.job.nonceOffset = c'.blocktemplate.offset .nonce := by
      rw [hjob, hoffset, h.nonce]
    have hflag : c'.blocktemplate.hasMinerSignature =
        BlockTemplate.isSigned pool.coin (hex.decoded.bytes.headD 0) := by
      rw [h.flag, Bool.or_eq_left_iff_imp]
      exact hnone
    refine Matches.sends ⟨hnonce, hflag, h.signs.trans hflag, fun hsigned => ?_, h.room⟩ h.text
    have hsize : c'.job.nonceSize = 4 :=
      (congrArg Algorithm.nonceSize h.algorithm).trans (nonceSize_of_signed hsigned)
    unfold Job.signatureOffset
    rw [hnonce, hsize]

/-- A Monero template with a timestamp of five bytes. -/
def timely : Reply where
  blocktemplate := some ⟨Hex.encode ([16, 16, 0x80, 0x80, 0x80, 0x80, 1] ++ List.replicate 36 0 ++
    [2, 60, 1, 0xff, 5, 1, 9, 2] ++ List.replicate 32 0 ++ [33, 1] ++ List.replicate 32 0 ++
    [0, 0]), by decide +kernel⟩
  blockhashingblob := some (Hex.encode (List.replicate 43 0))
  height := 5
  difficulty := 1

theorem submit_patches_timely : ∃ (c' : Client) (hex : Blob),
    ({} : Client).parseJob (fun _ => MerkleTree.noHash) (fun _ => true) 1
        DaemonReplies.noSignatures moneroPool timely "first" = some (.ok (), c') ∧
      (SendsTemplate c' hex.decoded.bytes (c'.blocktemplate.offset .nonce)
          (BlockTemplate.isSigned .monero (hex.decoded.bytes.headD 0)) ↔
        (jobAlgorithm moneroPool).nonceOffset = nonceStart hex.decoded.bytes % 2 ^ 32 ∧
          (({} : Client).blocktemplate.hasMinerSignature = true →
            BlockTemplate.isSigned .monero (hex.decoded.bytes.headD 0) = true)) := by
  have hrun : ((({} : Client).parseJob (fun _ => MerkleTree.noHash) (fun _ => true) 1
      DaemonReplies.noSignatures moneroPool timely "first").map fun r => r.1.toBool) =
      some true := by decide +kernel
  obtain ⟨⟨result, c'⟩, hparse, hvalues⟩ := Option.map_eq_some_iff.mp hrun
  cases result with
  | error e => exact nomatch hvalues
  | ok u => exact ⟨c', _, hparse, submit_patches rfl hparse⟩

end Whole

end VeloxHash.SubmitBlock
