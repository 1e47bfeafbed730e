import VeloxHash.ReplyHandlers

/-! Replies of any shape, in any order, and the submits that use what they have stored. The
handlers take too much for granted of an error, of the result of a self-select reply, and of the
reply to a request of the height. -/

namespace VeloxHash.HostileReplies

open FallibleRun ReplyHandlers

structure Clients where
  daemon : Daemon
  selfSelect : SelfSelect
  pool : Stratum

/-- `other` is what else happens in between; only a template changes the id of the job that is
mined for a daemon. -/
inductive Event
  | daemonReply (r : DaemonClient.Request) (data : DaemonClient.HttpData) (now : Nat)
      (jobId : String)
  | daemonSubmit (jobId : String)
  | selfSelectReply (r : SelfSelectClient.Request) (data : SelfSelectClient.HttpData) (now : Nat)
  | selfSelectSubmit (diff actualDiff now : Nat)
  | poolReply (accepts : Bool) (id : Int) (result error : Json)
  | poolSubmit (result : ClientRequests.JobResult) (outcome : ClientRequests.SendOutcome)
  | other (daemon : DaemonClient.Client) (selfSelect : SelfSelectClient.Client)
      (pool : ClientRequests.Client)

def step (accepts : DaemonClient.Pool → String → Option String → Bool) (c : Clients) :
    Event → Except Misuse Clients
  | .daemonReply r data now jobId => do
    return { c with daemon := ← c.daemon.onHttpData accepts r data now jobId }
  | .daemonSubmit jobId => do return { c with daemon := ← c.daemon.submit jobId }
  | .selfSelectReply r data now => do
    return { c with selfSelect := ← c.selfSelect.onHttpData r data now }
  | .selfSelectSubmit diff actualDiff now => do
    return { c with selfSelect := ← c.selfSelect.submit diff actualDiff now }
  | .poolReply accepts id result error => do
    return { c with pool := ← c.pool.parseResponse accepts id result error }
  | .poolSubmit result outcome => do return { c with pool := ← c.pool.submit result outcome }
  | .other daemon selfSelect pool => return {
      daemon := { c.daemon with
        client := { daemon with currentJobId := c.daemon.client.currentJobId } }
      selfSelect := { c.selfSelect with client := selfSelect }
      pool := { c.pool with client := pool } }

/-- The clients before their first reply, in any state but that no template was taken. -/
def start (daemon : DaemonClient.Client) (selfSelect : SelfSelectClient.Client)
    (pool : ClientRequests.Client) (quiet : Bool) : Clients where
  daemon := { client := { daemon with currentJobId := none }, quiet }
  selfSelect := { client := selfSelect }
  pool := { client := pool, quiet }

/-- What a reply has to have. -/
def Fits (c : Clients) : Event → Prop
  | .daemonReply r data _ _ => c.daemon.Fits r data
  | .selfSelectReply _ data _ => c.selfSelect.Fits data
  | .selfSelectSubmit diff actualDiff _ => c.selfSelect.OriginFits diff actualDiff
  | .poolReply _ id _ error => c.pool.Fits id error
  | .daemonSubmit _ | .poolSubmit .. | .other .. => True

section Stored

variable {accepts : DaemonClient.Pool → String → Option String → Bool} {d d' : Daemon}
  {now : Nat} {jobId : String}

/-- There is a text for the job that is mined. -/
def Stored (d : Daemon) : Prop :=
  d.client.currentJobId.isSome = true → d.blocktemplateStr.isSome = true

theorem setState_currentJobId (c : DaemonClient.Client) (state : DaemonClient.SocketState) :
    (c.setState state).currentJobId = c.currentJobId := by
  unfold DaemonClient.Client.setState
  split
  · rfl
  · cases state <;> rfl

theorem retry_currentJobId (c : DaemonClient.Client) : c.retry.currentJobId = c.currentJobId := by
  unfold DaemonClient.Client.retry
  dsimp only
  split
  · rfl
  · split
    · exact setState_currentJobId _ _
    · rfl

theorem handleSubmitResponse_currentJobId (c : DaemonClient.Client) (id : Int) :
    (c.handleSubmitResponse id).1.currentJobId = c.currentJobId := by
  unfold DaemonClient.Client.handleSubmitResponse
  split <;> rfl

theorem onHeight_currentJobId (c : DaemonClient.Client) (now height : Nat)
    (hash : Option String) : (c.onHeight now height hash).currentJobId = c.currentJobId := by
  unfold DaemonClient.Client.onHeight
  split <;> rfl

theorem submit_currentJobId (c : DaemonClient.Client) (jobId : String) :
    (c.submit jobId).currentJobId = c.currentJobId := by
  unfold DaemonClient.Client.submit
  split <;> rfl

/-- A client that mines the same job. -/
theorem Stored.same (h : Stored d) {c : DaemonClient.Client}
    (hsame : c.currentJobId = d.client.currentJobId) : Stored { d with client := c } := by
  unfold Stored
  rw [hsame]
  exact h

theorem Stored.parseResponse (h : Stored d) {id : Int} {result error : Json}
    {next : Daemon × Bool}
    (hnext : d.parseResponse accepts now jobId id result error = .ok next) : Stored next.1 := by
  unfold Daemon.parseResponse at hnext
  split at hnext
  · exact Except.ok.inj hnext ▸ h
  split at hnext
  · obtain ⟨_, -, hnext⟩ := bind_eq_ok.mp hnext
    obtain ⟨_, -, hnext⟩ := bind_eq_ok.mp hnext
    exact Except.ok.inj hnext ▸ h.same (handleSubmitResponse_currentJobId ..)
  split at hnext
  · exact Except.ok.inj hnext ▸ h
  obtain ⟨_, -, hnext⟩ := bind_eq_ok.mp hnext
  split at hnext
  · refine Except.ok.inj hnext ▸ h.same ?_
    split <;> rfl
  obtain ⟨_, -, hnext⟩ := bind_eq_ok.mp hnext
  split at hnext
  next htake =>
    refine Except.ok.inj hnext ▸ fun _ => ?_
    have haccepts := htake.2
    unfold DaemonClient.Client.acceptsJob at haccepts
    dsimp only
    cases hblob : result.getString "blocktemplate_blob" with
    | none =>
      rw [hblob] at haccepts
      exact absurd haccepts Bool.false_ne_true
    | some blob => rfl
  · refine Except.ok.inj hnext ▸ h.same ?_
    split <;> exact handleSubmitResponse_currentJobId ..

theorem Stored.onHttpData (h : Stored d) {r : DaemonClient.Request} {data : DaemonClient.HttpData}
    (hd : d.onHttpData accepts r data now jobId = .ok d') : Stored d' := by
  unfold Daemon.onHttpData at hd
  split at hd
  · exact Except.ok.inj hd ▸ h.same (retry_currentJobId _)
  split at hd
  · exact Except.ok.inj hd ▸ h.same (retry_currentJobId _)
  split at hd
  · obtain ⟨_, -, hd⟩ := bind_eq_ok.mp hd
    split at hd
    · exact Except.ok.inj hd ▸ h.same rfl
    · exact Except.ok.inj hd ▸ h.same (onHeight_currentJobId ..)
  · exact Except.ok.inj hd ▸ h.same (onHeight_currentJobId ..)
  · obtain ⟨next, hnext, hd⟩ := bind_eq_ok.mp hd
    have hstored := h.parseResponse hnext
    refine Except.ok.inj hd ▸ ?_
    split
    · exact hstored
    · exact hstored.same (retry_currentJobId _)

theorem Stored.submit (h : Stored d) (hd : d.submit jobId = .ok d') : Stored d' := by
  unfold Daemon.submit at hd
  split at hd
  · exact Except.ok.inj hd ▸ h
  · obtain ⟨_, -, hd⟩ := bind_eq_ok.mp hd
    exact Except.ok.inj hd ▸ h.same (submit_currentJobId ..)

/-- A share for the daemon has a text to go into. -/
theorem Stored.succeeds_submit (h : Stored d) (jobId : String) : Succeeds (d.submit jobId) := by
  unfold Daemon.submit
  split
  · exact succeeds_ok _
  next hjob =>
    rw [Ne, not_not] at hjob
    refine succeeds_bind_const.mpr ⟨succeeds_cString.mpr (h ?_), succeeds_pure _⟩
    rw [hjob]
    rfl

end Stored

section Steps

variable {accepts : DaemonClient.Pool → String → Option String → Bool} {c t : Clients}

/-- A field of the result does not matter to its success. -/
theorem succeeds_field {α : Type} {x : Except Misuse α} {f : α → Clients} :
    Succeeds (do return f (← x)) ↔ Succeeds x := by
  rw [succeeds_bind]
  exact ⟨fun ⟨a, ha, _⟩ => ⟨a, ha⟩, fun ⟨a, ha⟩ => ⟨a, ha, succeeds_pure _⟩⟩

theorem succeeds_step (h : Stored c.daemon) (event : Event) :
    Succeeds (step accepts c event) ↔ Fits c event := by
  cases event with
  | daemonReply r data now jobId => exact succeeds_field.trans Daemon.succeeds_onHttpData
  | daemonSubmit jobId => exact iff_of_true (succeeds_field.mpr (h.succeeds_submit jobId)) trivial
  | selfSelectReply r data now => exact succeeds_field.trans SelfSelect.succeeds_onHttpData
  | selfSelectSubmit diff actualDiff now => exact succeeds_field.trans SelfSelect.succeeds_submit
  | poolReply accepts id result error =>
    exact succeeds_field.trans (Stratum.succeeds_parseResponse accepts)
  | poolSubmit result outcome =>
    exact iff_of_true (succeeds_field.mpr (Stratum.succeeds_submit result outcome)) trivial
  | other daemon selfSelect pool => exact iff_of_true (succeeds_pure _) trivial

theorem stored_step (h : Stored c.daemon) {event : Event} (ht : step accepts c event = .ok t) :
    Stored t.daemon := by
  cases event with
  | daemonReply r data now jobId =>
    obtain ⟨d, hd, ht⟩ := bind_eq_ok.mp ht
    exact Except.ok.inj ht ▸ h.onHttpData hd
  | daemonSubmit jobId =>
    obtain ⟨d, hd, ht⟩ := bind_eq_ok.mp ht
    exact Except.ok.inj ht ▸ h.submit hd
  | selfSelectReply | selfSelectSubmit | poolReply | poolSubmit =>
    obtain ⟨_, -, ht⟩ := bind_eq_ok.mp ht
    exact Except.ok.inj ht ▸ h
  | other daemon selfSelect pool => exact Except.ok.inj ht ▸ h.same rfl

end Steps

/-- A daemon that reports an error without a message. -/
def errorWithoutMessage : Json :=
  .object [("id", .int 1), ("error", .object [("code", .int (-32603))])]

def idleDaemon : DaemonClient.Client where
  pool := ⟨.rx0, some .rx0, true, -1, 15000, 1000⟩

def idleSelfSelect : SelfSelectClient.Client where
  submitToOrigin := true
  coin := none

theorem error_without_message_misread :
    ¬ ∀ (accepts : DaemonClient.Pool → String → Option String → Bool)
      (daemon : DaemonClient.Client) (selfSelect : SelfSelectClient.Client)
      (pool : ClientRequests.Client) (quiet : Bool) (events : List Event),
      Succeeds (run (step accepts) (start daemon selfSelect pool quiet) events) := by
  intro h
  obtain ⟨c, hc⟩ := h (fun _ _ _ => true) idleDaemon idleSelfSelect { id := 0, sequence := 1 } false
    [.daemonReply (.rpc "getblocktemplate" 1) ⟨200, some errorWithoutMessage⟩ 0 "job"]
  have hok := congrArg Except.isOk hc
  change _ = true at hok
  exact absurd hok (by decide +kernel)

/-- In a run from the start every read of a reply, and every submit that uses what a reply has
stored, is right exactly if the replies have what the handlers do not check. -/
theorem replies_fit_iff (accepts : DaemonClient.Pool → String → Option String → Bool)
    (daemon : DaemonClient.Client) (selfSelect : SelfSelectClient.Client)
    (pool : ClientRequests.Client) (quiet : Bool) (events : List Event) :
    Succeeds (run (step accepts) (start daemon selfSelect pool quiet) events) ↔
      ∀ k (hk : k < events.length) c,
        run (step accepts) (start daemon selfSelect pool quiet) (events.take k) = .ok c →
          Fits c events[k] :=
  have hstart : Stored (start daemon selfSelect pool quiet).daemon := fun hnone =>
    absurd hnone Bool.false_ne_true
  run_succeeds_iff (I := fun c => Stored c.daemon) (fun _ event h => succeeds_step h event)
    (fun _ _ _ h ht => stored_step h ht) hstart events

end VeloxHash.HostileReplies
