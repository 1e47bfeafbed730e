import VeloxHash.FallibleRun
import VeloxHash.DaemonClient
import VeloxHash.SelfSelectClient
import VeloxHash.ClientRequests

/-! The reply handlers of the daemon, self-select and pool clients with what each read of a JSON
value takes for granted: that it is of the type it is read as, that it has the member, and that a
string is there for a place of text. `parseJob` reads through the accessors that check. -/

namespace VeloxHash.ReplyHandlers

open FallibleRun

/-- A read that takes something for granted which is not so. -/
inductive Misuse
  | notObject
  | noMember (key : String)
  | notString
  | notInt
  | nullString
  deriving DecidableEq, Repr

/-- `operator[]`. -/
def member (key : String) : Json → Except Misuse Json
  | .object members => (Json.findMember key members).elim (.error (.noMember key)) .ok
  | _ => .error .notObject

/-- `HasMember`. -/
def hasMember (key : String) : Json → Except Misuse Bool
  | .object members => .ok (Json.findMember key members).isSome
  | _ => .error .notObject

/-- `GetString`. -/
def asString : Json → Except Misuse String
  | .string s => .ok s
  | _ => .error .notString

/-- `IsInt`. -/
def isInt : Json → Bool
  | .int i => -2 ^ 31 ≤ i ∧ i < 2 ^ 31
  | _ => false

/-- `GetInt`. -/
def asInt (v : Json) : Except Misuse Int :=
  match v with
  | .int i => if isInt v then .ok i else .error .notInt
  | _ => .error .notInt

/-- A pointer in a place of text, such as a `%s`. -/
def cString : Option String → Except Misuse String
  | some s => .ok s
  | none => .error .nullString

/-- A read behind a test. -/
def skipIf {α : Type} (skip : Bool) (read : Except Misuse α) : Except Misuse Unit :=
  if skip then .ok () else read >>= fun _ => .ok ()

/-- The daemon client with the text of its template, which `submit` writes into. -/
structure Daemon where
  client : DaemonClient.Client
  quiet : Bool
  blocktemplateStr : Option String := none

namespace Daemon

variable (accepts : DaemonClient.Pool → String → Option String → Bool)

def parseResponse (d : Daemon) (now : Nat) (jobId : String) (id : Int) (result error : Json) :
    Except Misuse (Daemon × Bool) :=
  if id = -1 then .ok (d, false)
  else if error.isObject then do
    let _ ← member "message" error >>= asString
    let next := d.client.handleSubmitResponse id
    skipIf (next.2 || d.quiet) (member "code" error >>= asInt)
    return ({ d with client := next.1 }, false)
  else if !result.isObject then .ok (d, false)
  else do
    if ← hasMember "top_block_hash" result then
      let client := if d.client.prevHash ≠ result.getString "top_block_hash" then
        d.client.getBlockTemplate else d.client
      return ({ d with client }, true)
    else if (← hasMember "blocktemplate_blob" result) ∧ d.client.acceptsJob accepts result then
      return ({ d with
        client := d.client.takeJob now jobId result
        blocktemplateStr := result.getString "blocktemplate_blob" }, true)
    else
      let next := d.client.handleSubmitResponse id
      let client := if next.2 ∧ next.1.pool.zmqPort < 0 then next.1.getBlockTemplate else next.1
      return ({ d with client }, next.2)

def onHttpData (d : Daemon) (r : DaemonClient.Request) (data : DaemonClient.HttpData) (now : Nat)
    (jobId : String) : Except Misuse Daemon :=
  if data.status ≠ 200 then .ok { d with client := d.client.retry }
  else
    match data.body with
    | none => .ok { d with client := d.client.retry }
    | some doc =>
      match r with
      | .getHeight => do
        if !(← hasMember "hash" doc) then
          return { d with
            client := { d.client with apiVersion := .cryptonoteDefault }.fetch .getInfo }
        else
          return { d with
            client := d.client.onHeight now (doc.getUint64 "height") (doc.getString "hash") }
      | .getInfo => .ok { d with
          client := d.client.onHeight now (doc.getUint64 "height")
            (doc.getString "top_block_hash") }
      | .rpc .. => do
        let next ← d.parseResponse accepts now jobId (doc.getInt64 "id" (-1))
          (doc.getObject "result") (doc.getObject "error")
        return if next.2 then next.1 else { next.1 with client := next.1.client.retry }

/-- The nonce goes into the text of the template. -/
def submit (d : Daemon) (jobId : String) : Except Misuse Daemon :=
  if d.client.currentJobId ≠ some jobId then .ok d
  else do
    let _ ← cString d.blocktemplateStr
    return { d with client := d.client.submit jobId }

end Daemon

/-- The self-select client with the text of its template, for the daemon it is submitted to. -/
structure SelfSelect where
  client : SelfSelectClient.Client
  blocktemplate : Option String := none

namespace SelfSelect

/-- The members of a template that are sent to the pool. -/
def sentMembers : List String :=
  ["blocktemplate_blob", "difficulty", "prev_hash", "seed_hash", "next_seed_hash"]

def submitBlockTemplate (s : SelfSelect) (result : Json) : Except Misuse SelfSelect := do
  let _ ← sentMembers.mapM fun key => member key result
  return {
    client := s.client.submitBlockTemplate result
    blocktemplate := result.getString "blocktemplate_blob" }

def parseResponse (s : SelfSelect) (r : SelfSelectClient.Request) (id : Int)
    (result error : Json) : Except Misuse (SelfSelect × Bool) :=
  if id = -1 then .ok (s, false)
  else if error.isObject then do
    let _ ← cString (error.getString "message")
    return (s, false)
  else if !result.isObject then .ok (s, false)
  else do
    let found ← SelfSelectClient.Client.requiredFields.mapM fun key => hasMember key result
    if !found.all (fun has => has) then return (s, false)
    else
      let (job, ok) := (s.client.setAlgorithm (result.getString "blockhashing_blob")).setBlob
        (result.getString "blockhashing_blob")
      if !ok then
        let filled := s.client.filled && job.blob = s.client.job.blob
        return ({ s with client := { s.client with job, filled } }, false)
      else do
        let next ← { s with client := s.client.takeTemplate r job result }.submitBlockTemplate
          result
        return (next, true)

def onHttpData (s : SelfSelect) (r : SelfSelectClient.Request) (data : SelfSelectClient.HttpData)
    (now : Nat) : Except Misuse SelfSelect :=
  if data.status ≠ 200 then .ok { s with client := s.client.retry now }
  else
    match data.body with
    | none => .ok { s with client := s.client.retry now }
    | some doc =>
      let id := doc.getInt64 "id" (-1)
      if 0 < id ∧ (s.client.sequence : Int) - id ≠ 1 then .ok s
      else do
        let result ← member "result" doc
        let next ← s.parseResponse r id result (doc.getObject "error")
        return if next.2 then next.1 else { next.1 with client := next.1.client.retry now }

/-- The nonce goes into the text of the template. -/
def submitOriginDaemon (s : SelfSelect) (diff actualDiff : Nat) : Except Misuse SelfSelect :=
  if diff = 0 ∨ s.client.blockDiff = 0 then .ok s
  else if actualDiff < s.client.blockDiff then .ok s
  else do
    let _ ← cString s.blocktemplate
    return { s with client := s.client.submitOriginDaemon diff actualDiff }

def submit (s : SelfSelect) (diff actualDiff now : Nat) : Except Misuse SelfSelect :=
  if s.client.submitToOrigin then do
    let s ← s.submitOriginDaemon diff actualDiff
    return { s with client := s.client.getBlockTemplate now }
  else .ok s

end SelfSelect

/-- The pool client, whose callbacks are those of `submitBlockTemplate`. -/
structure Stratum where
  client : ClientRequests.Client
  quiet : Bool

namespace Stratum

/-- The names of the extensions in a login reply. -/
def parseExtensions (result : Json) : Except Misuse (List String) := do
  if !(← hasMember "extensions" result) then return []
  match ← member "extensions" result with
  | .array elements => (elements.filter Json.isString).mapM asString
  | _ => return []

/-- `handleResponse`, with the callback. -/
def handleResponse (s : Stratum) (id : Int) (error : Json) : Except Misuse Stratum := do
  skipIf (!error.isObject || s.quiet) (cString (error.getString "message"))
  return { s with
    client := { s.client with callbacks := Function.update s.client.callbacks id false } }

def parseLogin (s : Stratum) (result : Json) (accepts : Bool) : Except Misuse Stratum := do
  skipIf (result.getString "id").isNone (parseExtensions result)
  return { s with client := s.client.parseLogin result accepts }

def parseResponse (s : Stratum) (accepts : Bool) (id : Int) (result error : Json) :
    Except Misuse Stratum :=
  if s.client.isCallback id then s.handleResponse id error
  else if error.isObject then do
    let message ← member "message" error >>= asString
    let client := s.client.handleSubmitResponse id (some message) true
    return { s with
      client := if client.id = 1 ∨ ClientRequests.isCriticalError (some message) then client.close
        else client }
  else if !result.isObject then .ok s
  else if id = 1 then s.parseLogin result accepts
  else .ok { s with client := s.client.handleSubmitResponse id none false }

/-- `StringRef` takes the length of the id. -/
def submit (s : Stratum) (result : ClientRequests.JobResult)
    (outcome : ClientRequests.SendOutcome) : Except Misuse Stratum :=
  if s.client.refuses result ∨ result.diff = 0 then
    .ok { s with client := s.client.submit result outcome }
  else do
    let _ ← cString s.client.rpcId
    return { s with client := s.client.submit result outcome }

end Stratum

section Access

variable {v : Json} {key : String}

theorem hasMember_eq (h : v.isObject = true) (key : String) :
    hasMember key v = .ok (v.hasMember key) := by
  cases v with
  | object members => rfl
  | _ => exact absurd h Bool.false_ne_true

theorem succeeds_hasMember (key : String) : Succeeds (hasMember key v) ↔ v.isObject = true := by
  cases v with
  | object members => exact iff_of_true ⟨_, rfl⟩ rfl
  | _ => exact iff_of_false (not_succeeds_error _) Bool.false_ne_true

theorem member_eq (h : v.hasMember key = true) : member key v = .ok (v.getValue key) := by
  cases v with
  | object members =>
    obtain ⟨value, hvalue⟩ := Option.isSome_iff_exists.mp h
    rw [member, Json.getValue, hvalue]
    rfl
  | _ => exact absurd h Bool.false_ne_true

theorem succeeds_member : Succeeds (member key v) ↔ v.hasMember key = true := by
  refine ⟨fun h => ?_, fun h => ⟨_, member_eq h⟩⟩
  cases v with
  | object members =>
    cases hfind : Json.findMember key members with
    | none =>
      rw [member, hfind] at h
      exact absurd h (not_succeeds_error _)
    | some value => simp [Json.hasMember, hfind]
  | _ => exact absurd h (not_succeeds_error _)

/-- A member that is missing is read like one that is null. -/
theorem getValue_of_not_hasMember (h : v.hasMember key = false) : v.getValue key = .null := by
  cases v with
  | object members =>
    rw [Json.hasMember, Option.isSome_eq_false_iff, Option.isNone_iff_eq_none] at h
    rw [Json.getValue, h]
    rfl
  | _ => rfl

/-- A reader that refuses null reads a member exactly if it reads what `getValue` gives. -/
theorem succeeds_member_bind {α : Type} {read : Json → Except Misuse α}
    (hnull : ¬ Succeeds (read .null)) :
    Succeeds (member key v >>= read) ↔ Succeeds (read (v.getValue key)) := by
  cases h : v.hasMember key with
  | true =>
    rw [member_eq h]
    exact Iff.rfl
  | false =>
    rw [getValue_of_not_hasMember h, succeeds_bind]
    refine iff_of_false (fun ⟨value, hvalue, _⟩ => ?_) hnull
    exact absurd (succeeds_member.mp ⟨value, hvalue⟩) (by rw [h]; decide)

theorem succeeds_message :
    Succeeds (member key v >>= asString) ↔ (v.getString key).isSome = true := by
  rw [succeeds_member_bind (not_succeeds_error _), Json.getString]
  cases v.getValue key with
  | string s => exact iff_of_true ⟨s, rfl⟩ rfl
  | _ => exact iff_of_false (not_succeeds_error _) Bool.false_ne_true

theorem succeeds_asInt : Succeeds (asInt v) ↔ isInt v = true := by
  cases v with
  | int i =>
    rw [asInt]
    cases h : isInt (.int i) with
    | true => exact iff_of_true ⟨i, rfl⟩ rfl
    | false => exact iff_of_false (not_succeeds_error _) Bool.false_ne_true
  | _ => exact iff_of_false (not_succeeds_error _) Bool.false_ne_true

theorem succeeds_code : Succeeds (member key v >>= asInt) ↔ isInt (v.getValue key) = true := by
  rw [succeeds_member_bind (not_succeeds_error _), succeeds_asInt]

theorem succeeds_cString {s : Option String} : Succeeds (cString s) ↔ s.isSome = true := by
  cases s with
  | none => exact iff_of_false (not_succeeds_error _) Bool.false_ne_true
  | some s => exact iff_of_true ⟨s, rfl⟩ rfl

theorem succeeds_skipIf {α : Type} {skip : Bool} {read : Except Misuse α} :
    Succeeds (skipIf skip read) ↔ skip = true ∨ Succeeds read := by
  unfold skipIf
  split
  next h => exact iff_of_true (succeeds_ok _) (.inl h)
  next h =>
    rw [succeeds_bind_const, or_iff_right h]
    exact and_iff_left (succeeds_ok _)

/-- A list of reads succeeds if each of them does. -/
theorem succeeds_mapM {α β : Type} {read : α → Except Misuse β} {as : List α} :
    Succeeds (as.mapM read) ↔ ∀ a ∈ as, Succeeds (read a) := by
  induction as with
  | nil => exact iff_of_true ⟨[], rfl⟩ fun _ h => absurd h List.not_mem_nil
  | cons a as ih =>
    rw [List.mapM_cons, List.forall_mem_cons, ← ih, succeeds_bind]
    constructor
    · rintro ⟨b, hb, hrest⟩
      obtain ⟨bs, hbs, -⟩ := succeeds_bind.mp hrest
      exact ⟨⟨b, hb⟩, ⟨bs, hbs⟩⟩
    · rintro ⟨⟨b, hb⟩, bs, hbs⟩
      exact ⟨b, hb, succeeds_bind.mpr ⟨bs, hbs, succeeds_pure _⟩⟩

end Access

namespace Daemon

variable {accepts : DaemonClient.Pool → String → Option String → Bool} {d d' : Daemon}
  {now : Nat} {jobId : String} {r : DaemonClient.Request} {data : DaemonClient.HttpData}

/-- An error has a message, and a code if that is written to the log. -/
def ErrorFits (d : Daemon) (id : Int) (error : Json) : Prop :=
  (error.getString "message").isSome = true ∧
    (id ∈ d.client.results ∨ d.quiet = true ∨ isInt (error.getValue "code") = true)

/-- A reply to a request of the height is an object, and an error of a call is complete. -/
def Fits (d : Daemon) (r : DaemonClient.Request) (data : DaemonClient.HttpData) : Prop :=
  data.status = 200 → ∀ doc, data.body = some doc →
    match r with
    | .getHeight => doc.isObject = true
    | .getInfo => True
    | .rpc .. => doc.getInt64 "id" (-1) ≠ -1 → (doc.getObject "error").isObject = true →
        d.ErrorFits (doc.getInt64 "id" (-1)) (doc.getObject "error")

theorem handleSubmitResponse_snd (c : DaemonClient.Client) (id : Int) :
    (c.handleSubmitResponse id).2 = true ↔ id ∈ c.results := by
  unfold DaemonClient.Client.handleSubmitResponse
  split
  next h => exact iff_of_true rfl h
  next h => exact iff_of_false Bool.false_ne_true h

theorem succeeds_parseResponse (accepts : DaemonClient.Pool → String → Option String → Bool)
    (now : Nat) (jobId : String) {id : Int} (result : Json) {error : Json} :
    Succeeds (d.parseResponse accepts now jobId id result error) ↔
      (id ≠ -1 → error.isObject = true → d.ErrorFits id error) := by
  unfold parseResponse
  split
  next hid => exact iff_of_true (succeeds_ok _) fun h => absurd hid h
  next hid =>
    split
    next herror =>
      rw [succeeds_bind_const, succeeds_message, succeeds_bind_const]
      have hcode : Succeeds (skipIf ((d.client.handleSubmitResponse id).2 || d.quiet)
          (member "code" error >>= asInt)) ↔
          id ∈ d.client.results ∨ d.quiet = true ∨ isInt (error.getValue "code") = true := by
        rw [succeeds_skipIf, succeeds_code, Bool.or_eq_true, handleSubmitResponse_snd, or_assoc]
      rw [hcode]
      exact ⟨fun ⟨hmessage, hcode, _⟩ _ _ => ⟨hmessage, hcode⟩,
        fun h => ⟨(h hid herror).1, (h hid herror).2, succeeds_pure _⟩⟩
    next herror =>
      refine iff_of_true ?_ fun _ h => absurd h herror
      split
      · exact succeeds_ok _
      next hresult =>
        rw [Bool.not_eq_true', Bool.not_eq_false] at hresult
        rw [hasMember_eq hresult, hasMember_eq hresult]
        refine succeeds_bind.mpr ⟨_, rfl, ?_⟩
        split
        · exact succeeds_pure _
        · refine succeeds_bind.mpr ⟨_, rfl, ?_⟩
          split <;> exact succeeds_pure _

theorem succeeds_onHttpData : Succeeds (d.onHttpData accepts r data now jobId) ↔ d.Fits r data := by
  unfold onHttpData Fits
  split
  next hstatus => exact iff_of_true (succeeds_ok _) fun h => absurd h hstatus
  next hstatus =>
    rw [Ne, not_not] at hstatus
    rw [forall_prop_of_true hstatus]
    cases data.body with
    | none => exact iff_of_true (succeeds_ok _) nofun
    | some doc =>
      simp only [Option.some.injEq, forall_eq']
      cases r with
      | getHeight =>
        dsimp only
        rw [succeeds_bind, ← succeeds_hasMember "hash"]
        refine ⟨fun ⟨b, hb, _⟩ => ⟨b, hb⟩, fun ⟨b, hb⟩ => ⟨b, hb, ?_⟩⟩
        split <;> exact succeeds_pure _
      | getInfo => exact iff_of_true (succeeds_ok _) trivial
      | rpc method id =>
        dsimp only
        rw [← succeeds_parseResponse accepts now jobId (doc.getObject "result"), succeeds_bind]
        exact ⟨fun ⟨next, hnext, _⟩ => ⟨next, hnext⟩,
          fun ⟨next, hnext⟩ => ⟨next, hnext, succeeds_pure _⟩⟩

/-- Where every read is right, the client is the one that does not check. -/
theorem parseResponse_client {id : Int} {result error : Json} {next : Daemon × Bool}
    (h : d.parseResponse accepts now jobId id result error = .ok next) :
    (next.1.client, next.2) = d.client.parseResponse accepts now jobId id result error := by
  unfold parseResponse at h
  unfold DaemonClient.Client.parseResponse
  split at h
  next hid => rw [if_pos hid, ← Except.ok.inj h]
  next hid =>
    rw [if_neg hid]
    split at h
    next herror =>
      obtain ⟨_, -, h⟩ := bind_eq_ok.mp h
      obtain ⟨_, -, h⟩ := bind_eq_ok.mp h
      rw [if_pos herror, ← Except.ok.inj h]
    next herror =>
      rw [if_neg herror]
      split at h
      next hresult => rw [if_pos hresult, ← Except.ok.inj h]
      next hresult =>
        rw [if_neg hresult]
        rw [Bool.not_eq_true', Bool.not_eq_false] at hresult
        rw [hasMember_eq hresult, hasMember_eq hresult] at h
        obtain ⟨top, htop, h⟩ := bind_eq_ok.mp h
        obtain rfl := Except.ok.inj htop
        split at h
        next htop => rw [if_pos htop, ← Except.ok.inj h]
        next htop =>
          rw [if_neg htop]
          obtain ⟨blob, hblob, h⟩ := bind_eq_ok.mp h
          obtain rfl := Except.ok.inj hblob
          split at h
          next htake => rw [if_pos htake, ← Except.ok.inj h]
          next htake =>
            rw [if_neg htake, ← Except.ok.inj h]
            dsimp only
            cases (d.client.handleSubmitResponse id).2 with
            | true => simp
            | false => simp

theorem onHttpData_client (h : d.onHttpData accepts r data now jobId = .ok d') :
    d'.client = d.client.onHttpData accepts r data now jobId := by
  unfold onHttpData at h
  unfold DaemonClient.Client.onHttpData
  split at h
  next hstatus => rw [if_pos hstatus, ← Except.ok.inj h]
  next hstatus =>
    rw [if_neg hstatus]
    cases hbody : data.body with
    | none =>
      rw [hbody] at h
      rw [← Except.ok.inj h]
    | some doc =>
      rw [hbody] at h
      cases r with
      | getHeight =>
        obtain ⟨has, hhas, h⟩ := bind_eq_ok.mp h
        have hobject := (succeeds_hasMember "hash").mp ⟨has, hhas⟩
        rw [hasMember_eq hobject] at hhas
        obtain rfl := Except.ok.inj hhas
        dsimp only
        split at h
        next hnone => rw [if_pos hnone, ← Except.ok.inj h]
        next hsome => rw [if_neg hsome, ← Except.ok.inj h]
      | getInfo => rw [← Except.ok.inj h]
      | rpc method id =>
        obtain ⟨next, hnext, h⟩ := bind_eq_ok.mp h
        have hclient := parseResponse_client hnext
        dsimp only
        rw [← hclient, ← Except.ok.inj h]
        split <;> rfl

end Daemon

namespace SelfSelect

variable {s s' : SelfSelect} {r : SelfSelectClient.Request} {data : SelfSelectClient.HttpData}
  {now : Nat} {id : Int} {result error : Json}

/-- A template of which the job takes the blob has the seeds, too. -/
def TemplateFits (s : SelfSelect) (result : Json) : Prop :=
  result.isObject = true → SelfSelectClient.Client.requiredFields.all result.hasMember = true →
    ((s.client.setAlgorithm (result.getString "blockhashing_blob")).setBlob
      (result.getString "blockhashing_blob")).2 = true →
      result.hasMember "seed_hash" = true ∧ result.hasMember "next_seed_hash" = true

/-- A reply that is not too old has a result; its error has a message, or its template fits. -/
def Fits (s : SelfSelect) (data : SelfSelectClient.HttpData) : Prop :=
  data.status = 200 → ∀ doc, data.body = some doc →
    0 < doc.getInt64 "id" (-1) ∧ (s.client.sequence : Int) - doc.getInt64 "id" (-1) ≠ 1 ∨
      doc.hasMember "result" = true ∧ (doc.getInt64 "id" (-1) ≠ -1 →
        if (doc.getObject "error").isObject then
          ((doc.getObject "error").getString "message").isSome = true
        else s.TemplateFits (doc.getValue "result"))

/-- A share that is good enough for the daemon finds a template that was text. -/
def OriginFits (s : SelfSelect) (diff actualDiff : Nat) : Prop :=
  s.client.submitToOrigin = true → diff ≠ 0 → s.client.blockDiff ≠ 0 →
    s.client.blockDiff ≤ actualDiff → s.blocktemplate.isSome = true

theorem succeeds_submitBlockTemplate
    (hfields : SelfSelectClient.Client.requiredFields.all result.hasMember = true) :
    Succeeds (s.submitBlockTemplate result) ↔
      result.hasMember "seed_hash" = true ∧ result.hasMember "next_seed_hash" = true := by
  unfold submitBlockTemplate
  rw [succeeds_bind_const, and_iff_left (succeeds_pure _), succeeds_mapM]
  simp only [SelfSelectClient.Client.requiredFields, List.all_cons, List.all_nil,
    Bool.and_eq_true, and_true] at hfields
  obtain ⟨hblob, -, -, hdifficulty, hprev⟩ := hfields
  simp only [sentMembers, List.forall_mem_cons, succeeds_member, hblob, hdifficulty, hprev,
    true_and, List.not_mem_nil, IsEmpty.forall_iff, implies_true, and_true]

theorem mapM_hasMember (hobject : result.isObject = true) (keys : List String) :
    keys.mapM (fun key => hasMember key result) = .ok (keys.map result.hasMember) := by
  induction keys with
  | nil => rfl
  | cons key keys ih =>
    rw [List.mapM_cons, hasMember_eq hobject, ih]
    rfl

theorem succeeds_parseResponse :
    Succeeds (s.parseResponse r id result error) ↔ (id ≠ -1 → if error.isObject then
      (error.getString "message").isSome = true else s.TemplateFits result) := by
  unfold parseResponse
  split
  next hid => exact iff_of_true (succeeds_ok _) fun h => absurd hid h
  next hid =>
    rw [forall_prop_of_true hid]
    split
    next herror =>
      rw [succeeds_bind_const, and_iff_left (succeeds_pure _), succeeds_cString]
    next herror =>
      split
      next hresult =>
        rw [Bool.not_eq_true'] at hresult
        refine iff_of_true (succeeds_ok _) fun hobject => ?_
        exact absurd (hobject.symm.trans hresult) (by decide)
      next hresult =>
        rw [Bool.not_eq_true', Bool.not_eq_false] at hresult
        unfold TemplateFits
        rw [forall_prop_of_true hresult, mapM_hasMember hresult, succeeds_bind]
        simp only [Except.ok.injEq, exists_eq_left', List.all_map]
        split
        next hmissing =>
          refine iff_of_true (succeeds_pure _) fun hfields => ?_
          rw [Bool.not_eq_true'] at hmissing
          exact absurd (hfields.symm.trans hmissing) (by decide)
        next hfields =>
          rw [Bool.not_eq_true', Bool.not_eq_false] at hfields
          have hfields' : SelfSelectClient.Client.requiredFields.all result.hasMember = true :=
            hfields
          rw [forall_prop_of_true hfields']
          split
          next hblob =>
            refine iff_of_true (succeeds_pure _) fun hok => ?_
            rw [Bool.not_eq_true'] at hblob
            exact absurd (hok.symm.trans hblob) (by decide)
          next hblob =>
            rw [Bool.not_eq_true', Bool.not_eq_false] at hblob
            rw [forall_prop_of_true hblob, ← succeeds_submitBlockTemplate hfields',
              succeeds_bind]
            exact ⟨fun ⟨next, hnext, _⟩ => ⟨next, hnext⟩,
              fun ⟨next, hnext⟩ => ⟨next, hnext, succeeds_pure _⟩⟩

theorem succeeds_onHttpData : Succeeds (s.onHttpData r data now) ↔ s.Fits data := by
  unfold onHttpData Fits
  split
  next hstatus => exact iff_of_true (succeeds_ok _) fun h => absurd h hstatus
  next hstatus =>
    rw [Ne, not_not] at hstatus
    rw [forall_prop_of_true hstatus]
    cases data.body with
    | none => exact iff_of_true (succeeds_ok _) nofun
    | some doc =>
      simp only [Option.some.injEq, forall_eq']
      split
      next hold => exact iff_of_true (succeeds_ok _) (.inl hold)
      next hnew =>
        rw [or_iff_right hnew, ← succeeds_parseResponse (r := r)]
        cases hresult : doc.hasMember "result" with
        | true =>
          rw [member_eq hresult, and_iff_right rfl, succeeds_bind]
          simp only [Except.ok.injEq, exists_eq_left']
          rw [succeeds_bind]
          exact ⟨fun ⟨next, hnext, _⟩ => ⟨next, hnext⟩,
            fun ⟨next, hnext⟩ => ⟨next, hnext, succeeds_pure _⟩⟩
        | false =>
          refine iff_of_false (fun hok => ?_) fun h => absurd h.1 Bool.false_ne_true
          obtain ⟨value, hvalue, -⟩ := succeeds_bind.mp hok
          exact absurd (succeeds_member.mp ⟨value, hvalue⟩) (by rw [hresult]; decide)

theorem succeeds_submit {diff actualDiff : Nat} :
    Succeeds (s.submit diff actualDiff now) ↔ s.OriginFits diff actualDiff := by
  unfold submit OriginFits submitOriginDaemon
  split
  next horigin =>
    rw [forall_prop_of_true horigin]
    split
    next hnone =>
      refine iff_of_true ⟨_, rfl⟩ fun hdiff hblock => ?_
      exact (hnone.elim hdiff hblock).elim
    next hsome =>
      rw [not_or] at hsome
      rw [forall_prop_of_true hsome.1, forall_prop_of_true hsome.2]
      split
      next hlow => exact iff_of_true ⟨_, rfl⟩ fun hle => absurd hlow (Nat.not_lt.mpr hle)
      next hhigh =>
        rw [forall_prop_of_true (Nat.not_lt.mp hhigh), ← succeeds_cString, succeeds_bind]
        constructor
        · rintro ⟨next, hnext, -⟩
          exact (succeeds_bind_const.mp ⟨next, hnext⟩).1
        · intro htext
          obtain ⟨next, hnext⟩ := succeeds_bind_const.mpr ⟨htext, succeeds_pure _⟩
          exact ⟨next, hnext, succeeds_pure _⟩
  next horigin => exact iff_of_true (succeeds_ok _) fun h => absurd h horigin

/-- Where every read is right, the client is the one that does not check. -/
theorem parseResponse_client {next : SelfSelect × Bool}
    (h : s.parseResponse r id result error = .ok next) :
    (next.1.client, next.2) = s.client.parseResponse r id result error := by
  unfold parseResponse at h
  unfold SelfSelectClient.Client.parseResponse SelfSelectClient.Client.holdsTemplate
  split at h
  next hid => rw [← Except.ok.inj h, if_pos (by simp [hid])]
  next hid =>
    split at h
    next herror =>
      obtain ⟨_, -, h⟩ := bind_eq_ok.mp h
      rw [← Except.ok.inj h, if_pos (by simp [herror])]
    next herror =>
      split at h
      next hresult =>
        rw [Bool.not_eq_true'] at hresult
        rw [← Except.ok.inj h, if_pos (by simp [hresult])]
      next hresult =>
        rw [Bool.not_eq_true', Bool.not_eq_false] at hresult
        rw [mapM_hasMember hresult] at h
        obtain ⟨found, hfound, h⟩ := bind_eq_ok.mp h
        obtain rfl := Except.ok.inj hfound
        rw [List.all_map] at h
        split at h
        next hmissing =>
          rw [Bool.not_eq_true'] at hmissing
          rw [← Except.ok.inj h, if_pos ?_]
          rw [Bool.not_eq_true', decide_eq_false_iff_not]
          exact fun hall => absurd (hall.2.2.2.symm.trans hmissing) (by decide)
        next hfields =>
          rw [Bool.not_eq_true', Bool.not_eq_false] at hfields
          rw [if_neg]
          · dsimp only
            generalize (s.client.setAlgorithm (result.getString "blockhashing_blob")).setBlob
              (result.getString "blockhashing_blob") = placed at h ⊢
            obtain ⟨job, ok⟩ := placed
            dsimp only at h ⊢
            split at h
            next hblob => rw [if_pos hblob, ← Except.ok.inj h]
            next hblob =>
              rw [if_neg hblob]
              obtain ⟨taken, htaken, h⟩ := bind_eq_ok.mp h
              obtain ⟨_, -, htaken⟩ := bind_eq_ok.mp htaken
              rw [← Except.ok.inj h, ← Except.ok.inj htaken]
          · rw [Bool.not_eq_true', decide_eq_false_iff_not, not_not]
            refine ⟨hid, ?_, hresult, hfields⟩
            rw [Bool.not_eq_true', Bool.eq_false_iff]
            exact herror

theorem onHttpData_client (h : s.onHttpData r data now = .ok s') :
    s'.client = s.client.onHttpData r data now := by
  unfold onHttpData at h
  unfold SelfSelectClient.Client.onHttpData
  split at h
  next hstatus => rw [if_pos hstatus, ← Except.ok.inj h]
  next hstatus =>
    rw [if_neg hstatus]
    cases hbody : data.body with
    | none =>
      rw [hbody] at h
      rw [← Except.ok.inj h]
    | some doc =>
      rw [hbody] at h
      dsimp only at h ⊢
      split at h
      next hold => rw [if_pos hold, ← Except.ok.inj h]
      next hnew =>
        rw [if_neg hnew]
        obtain ⟨result, hresult, hparse⟩ := bind_eq_ok.mp h
        obtain ⟨next, hnext, hend⟩ := bind_eq_ok.mp hparse
        rw [member_eq (succeeds_member.mp ⟨result, hresult⟩)] at hresult
        rw [Except.ok.inj hresult, ← parseResponse_client hnext, ← Except.ok.inj hend]
        split <;> rfl

end SelfSelect

namespace Stratum

variable {s s' : Stratum} {id : Int} {result error : Json}

/-- An error has a message, unless it is for a callback that does not log it. -/
def Fits (s : Stratum) (id : Int) (error : Json) : Prop :=
  error.isObject = true → s.client.isCallback id = true ∧ s.quiet = true ∨
    (error.getString "message").isSome = true

theorem succeeds_parseExtensions (hobject : result.isObject = true) :
    Succeeds (parseExtensions result) := by
  unfold parseExtensions
  rw [hasMember_eq hobject]
  refine succeeds_bind.mpr ⟨_, rfl, ?_⟩
  cases hmember : result.hasMember "extensions" with
  | false => exact succeeds_pure _
  | true =>
    refine succeeds_bind.mpr ⟨_, member_eq hmember, ?_⟩
    split
    · refine succeeds_mapM.mpr fun element helement => ?_
      obtain ⟨-, hstring⟩ := List.mem_filter.mp helement
      cases element with
      | string name => exact succeeds_ok _
      | _ => exact absurd hstring Bool.false_ne_true
    · exact succeeds_pure _

theorem succeeds_parseResponse (accepts : Bool) :
    Succeeds (s.parseResponse accepts id result error) ↔ s.Fits id error := by
  unfold parseResponse Fits
  split
  next hcallback =>
    unfold handleResponse
    rw [succeeds_bind_const, and_iff_left (succeeds_pure _), succeeds_skipIf, Bool.or_eq_true,
      Bool.not_eq_true', succeeds_cString, hcallback]
    cases error.isObject with
    | true => simp
    | false => simp
  next hcallback =>
    split
    next herror =>
      rw [forall_prop_of_true herror, or_iff_right fun h => hcallback h.1, ← succeeds_message,
        succeeds_bind]
      exact ⟨fun ⟨message, hmessage, _⟩ => ⟨message, hmessage⟩,
        fun ⟨message, hmessage⟩ => ⟨message, hmessage, succeeds_pure _⟩⟩
    next herror =>
      refine iff_of_true ?_ fun h => absurd h herror
      split
      · exact succeeds_ok _
      next hresult =>
        rw [Bool.not_eq_true', Bool.not_eq_false] at hresult
        split
        · exact succeeds_bind_const.mpr
            ⟨succeeds_skipIf.mpr (.inr (succeeds_parseExtensions hresult)), succeeds_pure _⟩
        · exact succeeds_ok _

/-- Where every read is right, the client is the one that does not check. -/
theorem parseResponse_client {line : ClientRequests.Line}
    (h : s.parseResponse line.accepts id result error = .ok s') :
    s'.client = s.client.parseResponse line id result error := by
  unfold parseResponse at h
  unfold ClientRequests.Client.parseResponse
  split at h
  next hcallback =>
    rw [if_pos hcallback]
    obtain ⟨_, -, h⟩ := bind_eq_ok.mp h
    rw [← Except.ok.inj h]
  next hcallback =>
    rw [if_neg hcallback]
    split at h
    next herror =>
      rw [if_pos herror]
      obtain ⟨message, hmessage, h⟩ := bind_eq_ok.mp h
      obtain ⟨value, hvalue, hstring⟩ := bind_eq_ok.mp hmessage
      rw [member_eq (succeeds_member.mp ⟨value, hvalue⟩)] at hvalue
      have hraw : ClientRequests.Client.errorMessage line error = some message := by
        unfold ClientRequests.Client.errorMessage
        rw [Except.ok.inj hvalue]
        cases value with
        | string s => exact congrArg some (Except.ok.inj hstring)
        | _ => exact nomatch hstring
      rw [hraw, ← Except.ok.inj h]
    next herror =>
      rw [if_neg herror]
      split at h
      next hresult => rw [if_pos hresult, ← Except.ok.inj h]
      next hresult =>
        rw [if_neg hresult]
        split at h
        next hid =>
          rw [if_pos hid]
          obtain ⟨_, -, h⟩ := bind_eq_ok.mp h
          rw [← Except.ok.inj h]
        next hid => rw [if_neg hid, ← Except.ok.inj h]

/-- A client without an id of its own submits nothing. -/
theorem succeeds_submit (result : ClientRequests.JobResult)
    (outcome : ClientRequests.SendOutcome) : Succeeds (s.submit result outcome) := by
  unfold submit
  split
  · exact succeeds_ok _
  next hsubmit =>
    rw [not_or, ClientRequests.Client.refuses, Bool.not_eq_true, Bool.or_eq_false_iff,
      Bool.or_eq_false_iff] at hsubmit
    refine succeeds_bind_const.mpr ⟨succeeds_cString.mpr ?_, succeeds_pure _⟩
    rw [← Option.not_isNone, hsubmit.1.1.2]
    rfl

end Stratum

end VeloxHash.ReplyHandlers
