import VeloxHash.ClientRequests
import VeloxHash.TransitionSystem
import Mathlib.Tactic

/-! Which submitted results are reported, and how. An entry of `m_results` may outlive its
failed send only while no line can reach the client before the next login clears the map. -/

namespace VeloxHash.ClientRequests

open TransitionSystem

/-- No result is reported twice, none whose request was not sent, and none as accepted by a
reply that has an error object. -/
structure Accounted (c : Client) : Prop where
  once : (c.reports.map fun r => r.result.share).Nodup
  sent : ∀ r ∈ c.reports, r.result.share ∈ c.sent
  refused : ∀ r ∈ c.reports, r.message = none → r.errorObject = false

/-- The line answers a pending result with an error object whose message reads as null. -/
def Silent (c : Client) (line : Line) : Prop :=
  line.doc.getString "method" ≠ some "client.reconnect" ∧
  ∃ id, (line.doc.getValue "id").toInt64? = some id ∧ c.isCallback id = false ∧
    (c.results id).isSome ∧ (line.doc.getValue "error").isObject = true ∧
    Client.errorMessage line (line.doc.getValue "error") = none

/-- The send of a submit leaves no connection behind that is still listened to, and an error
object for a pending result has a message. -/
def Answerable (c : Client) : Event → Prop
  | .submit result outcome =>
    c.refuses result = true ∨ result.diff = 0 ∨
      match outcome with
      | .sent => True
      | .failed => c.hears = false
      | .broken | .tooLong => c.leaked = false
  | .parse => ∀ line ∈ c.unparsed.head?, ¬ Silent c line
  | _ => True

structure Inv (c : Client) : Prop where
  accounted : Accounted c
  pendingFresh : ∀ id x, c.results id = some x → x.share < c.submitted
  reportedFresh : ∀ r ∈ c.reports, r.result.share < c.submitted
  sentFresh : ∀ share ∈ c.sent, share < c.submitted
  distinct : ∀ id id' x y, c.results id = some x → c.results id' = some y →
    x.share = y.share → id = id'
  unreported : ∀ id x, c.results id = some x → ∀ r ∈ c.reports, r.result.share ≠ x.share
  wire : c.hears = true ∨ c.unparsed ≠ [] → ∀ id x, c.results id = some x → x.share ∈ c.sent

/-- A client as constructed, with the static counter where other clients left it. -/
def start (id sequence : Int) : Client := { id, sequence }

theorem inv_start (id sequence : Int) : Inv (start id sequence) where
  accounted := ⟨List.nodup_nil, nofun, nofun⟩
  pendingFresh := nofun
  reportedFresh := nofun
  sentFresh := nofun
  distinct := nofun
  unreported := nofun
  wire _ := nofun

section Steps

variable {c t : Client}

/-- The invariant looks at the maps and the ghosts, and may lose sockets and lines. -/
theorem inv_frame (hc : Inv c) (hresults : t.results = c.results)
    (hsubmitted : t.submitted = c.submitted) (hsent : t.sent = c.sent)
    (hreports : t.reports = c.reports)
    (hwire : t.hears = true ∨ t.unparsed ≠ [] → c.hears = true ∨ c.unparsed ≠ []) : Inv t where
  accounted := by
    refine ⟨?_, ?_, ?_⟩
    · rw [hreports]; exact hc.accounted.once
    · rw [hreports, hsent]; exact hc.accounted.sent
    · rw [hreports]; exact hc.accounted.refused
  pendingFresh := by rw [hresults, hsubmitted]; exact hc.pendingFresh
  reportedFresh := by rw [hreports, hsubmitted]; exact hc.reportedFresh
  sentFresh := by rw [hsent, hsubmitted]; exact hc.sentFresh
  distinct := by rw [hresults]; exact hc.distinct
  unreported := by rw [hresults, hreports]; exact hc.unreported
  wire h := by rw [hresults, hsent]; exact hc.wire (hwire h)

theorem close_hears (c : Client) : c.close.hears = c.leaked := by
  simp [Client.close, Client.hears]

theorem inv_close (hc : Inv c) : Inv c.close :=
  inv_frame hc rfl rfl rfl rfl fun h => by
    rw [close_hears] at h
    exact h.imp_left fun hleaked => by simp [Client.hears, hleaked]

/-- A send closes the connection or changes the sequence at most. -/
theorem send_frame (c : Client) (outcome : SendOutcome) :
    ((c.send outcome).1 = c.close ∧ (outcome = .broken ∨ outcome = .tooLong)) ∨
      ∃ sequence, (c.send outcome).1 = { c with sequence } := by
  by_cases hconnected : c.connected = true
  · cases outcome with
    | sent => exact .inr ⟨c.sequence + 1, by simp [Client.send, hconnected]⟩
    | failed => exact .inr ⟨c.sequence, rfl⟩
    | broken => exact .inl ⟨by simp [Client.send, hconnected], .inl rfl⟩
    | tooLong => exact .inl ⟨rfl, .inr rfl⟩
  · cases outcome with
    | sent => exact .inr ⟨c.sequence, by simp only [Client.send, if_neg hconnected]⟩
    | failed => exact .inr ⟨c.sequence, rfl⟩
    | broken => exact .inr ⟨c.sequence, by simp only [Client.send, if_neg hconnected]⟩
    | tooLong => exact .inl ⟨rfl, .inr rfl⟩

theorem inv_send (hc : Inv c) (outcome : SendOutcome) : Inv (c.send outcome).1 := by
  rcases send_frame c outcome with ⟨h, -⟩ | ⟨sequence, h⟩
  · rw [h]
    exact inv_close hc
  · rw [h]
    exact inv_frame hc rfl rfl rfl rfl id

/-- All of the invariant but its last clause, after a registration; the clause itself if the
entry is listed as sent. -/
theorem inv_register (hc : Inv c) (result : JobResult) {t : Client}
    (hresults : t.results = (c.register result).results)
    (hsubmitted : t.submitted = c.submitted + 1) (hreports : t.reports = c.reports)
    (hsent : t.sent = c.sent ∨ t.sent = c.submitted :: c.sent)
    (hwire : t.hears = true ∨ t.unparsed ≠ [] →
      t.sent = c.submitted :: c.sent ∧ (c.hears = true ∨ c.unparsed ≠ [])) : Inv t := by
  have hentry (id : Int) (x : SubmitResult) (h : t.results id = some x) :
      id = c.sequence ∧ x.share = c.submitted ∨
        id ≠ c.sequence ∧ c.results id = some x := by
    rw [hresults] at h
    simp only [Client.register] at h
    by_cases hid : id = c.sequence
    · subst hid
      simp only [Function.update_self, Option.some.injEq] at h
      exact .inl ⟨rfl, by rw [← h]⟩
    · rw [Function.update_of_ne hid] at h
      exact .inr ⟨hid, h⟩
  have hmono : ∀ share ∈ c.sent, share ∈ t.sent := fun share hshare => by
    rcases hsent with h | h <;> simp [h, hshare]
  refine ⟨⟨?_, ?_, ?_⟩, ?_, ?_, ?_, ?_, ?_, ?_⟩
  · rw [hreports]; exact hc.accounted.once
  · rw [hreports]; exact fun r hr => hmono _ (hc.accounted.sent r hr)
  · rw [hreports]; exact hc.accounted.refused
  · intro id x h
    rw [hsubmitted]
    rcases hentry id x h with ⟨-, hshare⟩ | ⟨-, hold⟩
    · omega
    · exact Nat.lt_succ_of_lt (hc.pendingFresh id x hold)
  · intro r hr
    rw [hreports] at hr
    rw [hsubmitted]
    exact Nat.lt_succ_of_lt (hc.reportedFresh r hr)
  · intro share hshare
    rw [hsubmitted]
    rcases hsent with h | h
    · exact Nat.lt_succ_of_lt (hc.sentFresh share (h ▸ hshare))
    · rcases List.mem_cons.mp (h ▸ hshare) with rfl | hold
      · exact Nat.lt_succ_self _
      · exact Nat.lt_succ_of_lt (hc.sentFresh share hold)
  · intro id id' x y hx hy hxy
    rcases hentry id x hx with ⟨hid, hshare⟩ | ⟨-, hold⟩ <;>
      rcases hentry id' y hy with ⟨hid', hshare'⟩ | ⟨-, hold'⟩
    · rw [hid, hid']
    · have := hc.pendingFresh id' y hold'
      omega
    · have := hc.pendingFresh id x hold
      omega
    · exact hc.distinct id id' x y hold hold' hxy
  · intro id x hx r hr
    rw [hreports] at hr
    rcases hentry id x hx with ⟨-, hshare⟩ | ⟨-, hold⟩
    · have := hc.reportedFresh r hr
      omega
    · exact hc.unreported id x hold r hr
  · intro h id x hx
    obtain ⟨hlisted, hbefore⟩ := hwire h
    rcases hentry id x hx with ⟨-, hshare⟩ | ⟨-, hold⟩
    · rw [hlisted, hshare]
      exact List.mem_cons_self
    · exact hmono _ (hc.wire hbefore id x hold)

theorem refuses_connected {result : JobResult} (h : c.refuses result = false) :
    c.connected = true := by
  simp only [Client.refuses, Bool.or_eq_false_iff, Bool.not_eq_false'] at h
  exact h.2

/-- What the three ways out of `submit` past its checks leave. -/
theorem inv_submit (hc : Inv c) (hidle : c.unparsed = []) {result : JobResult}
    {outcome : SendOutcome} (hguard : Answerable c (.submit result outcome)) :
    Inv (c.submit result outcome) := by
  have hskip {t : Client} (ht : Inv t) (hsubmitted : t.submitted = c.submitted) :
      Inv { t with submitted := c.submitted + 1 } := by
    refine ⟨⟨ht.accounted.once, ht.accounted.sent, ht.accounted.refused⟩, fun id x h => ?_,
      fun r hr => ?_, fun share h => ?_, ht.distinct, ht.unreported, ht.wire⟩
    · exact Nat.lt_succ_of_lt (hsubmitted ▸ ht.pendingFresh id x h)
    · exact Nat.lt_succ_of_lt (hsubmitted ▸ ht.reportedFresh r hr)
    · exact Nat.lt_succ_of_lt (hsubmitted ▸ ht.sentFresh share h)
  unfold Client.submit
  split_ifs with hrefused hdiff
  · exact hskip hc rfl
  · exact hskip (inv_close hc) rfl
  · have hconnected := refuses_connected (Bool.eq_false_of_not_eq_true hrefused)
    have hregister : (c.register result).connected = true := hconnected
    have hout := (hguard.resolve_left hrefused).resolve_left hdiff
    cases outcome with
    | sent =>
      simp only [Client.send, hregister, if_true]
      exact inv_register hc result rfl rfl rfl (.inr rfl) fun h => ⟨rfl, h⟩
    | failed =>
      simp only [Client.send, Bool.false_eq_true, if_false]
      refine inv_register hc result rfl rfl rfl (.inl rfl) fun h => ?_
      have hheard : c.hears = true ∨ c.unparsed ≠ [] := h
      simp [hidle, show c.hears = false from hout] at hheard
    | broken =>
      simp only [Client.send, hregister, if_true, Bool.false_eq_true, if_false]
      refine inv_register hc result rfl rfl rfl (.inl rfl) fun h => ?_
      have hheard : c.leaked = true ∨ c.unparsed ≠ [] := by
        rwa [close_hears] at h
      simp [hidle, show c.leaked = false from hout] at hheard
    | tooLong =>
      simp only [Client.send, Bool.false_eq_true, if_false]
      refine inv_register hc result rfl rfl rfl (.inl rfl) fun h => ?_
      have hheard : c.leaked = true ∨ c.unparsed ≠ [] := by
        rwa [close_hears] at h
      simp [hidle, show c.leaked = false from hout] at hheard

theorem inv_login (hc : Inv c) (outcome : SendOutcome) : Inv (c.login outcome) := by
  have hcleared : Inv { c with results := fun _ => none, listening := true } :=
    ⟨⟨hc.accounted.once, hc.accounted.sent, hc.accounted.refused⟩, fun _ _ h => by simp at h,
      hc.reportedFresh, hc.sentFresh, fun _ _ _ _ h => by simp at h, fun _ _ h => by simp at h,
      fun _ _ _ h => by simp at h⟩
  exact inv_send hcleared outcome

/-- Handling a reply is done while lines arrive, so what is pending was sent. -/
theorem inv_handleSubmitResponse (hc : Inv c)
    (hsent : ∀ id x, c.results id = some x → x.share ∈ c.sent) {id : Int}
    {message : Option String} {errorObject : Bool}
    (hclean : (c.results id).isSome → message = none → errorObject = false) :
    Inv (c.handleSubmitResponse id message errorObject) := by
  unfold Client.handleSubmitResponse
  split
  case h_1 => exact hc
  case h_2 result hresult =>
    have hother (id' : Int) (x : SubmitResult)
        (h : Function.update c.results id none id' = some x) :
        id' ≠ id ∧ c.results id' = some x := by
      by_cases hid : id' = id
      · subst hid
        simp at h
      · exact ⟨hid, by rwa [Function.update_of_ne hid] at h⟩
    refine ⟨⟨?_, ?_, ?_⟩, ?_, ?_, hc.sentFresh, ?_, ?_, ?_⟩
    · rw [List.map_cons, List.nodup_cons]
      refine ⟨fun hmem => ?_, hc.accounted.once⟩
      obtain ⟨r, hr, hshare⟩ := List.mem_map.mp hmem
      exact hc.unreported id result hresult r hr hshare
    · exact List.forall_mem_cons.mpr ⟨hsent id result hresult, hc.accounted.sent⟩
    · exact List.forall_mem_cons.mpr ⟨hclean (by simp [hresult]), hc.accounted.refused⟩
    · exact fun id' x h => hc.pendingFresh id' x (hother id' x h).2
    · exact List.forall_mem_cons.mpr ⟨hc.pendingFresh id result hresult, hc.reportedFresh⟩
    · exact fun id' id'' x y hx hy hxy =>
        hc.distinct id' id'' x y (hother id' x hx).2 (hother id'' y hy).2 hxy
    · intro id' x h
      obtain ⟨hid, hold⟩ := hother id' x h
      refine List.forall_mem_cons.mpr ⟨fun hshare => hid ?_, hc.unreported id' x hold⟩
      exact (hc.distinct id id' result x hresult hold hshare).symm
    · exact fun _ id' x h => hsent id' x (hother id' x h).2

theorem inv_parseLogin (hc : Inv c) (result : Json) (accepts : Bool) :
    Inv (c.parseLogin result accepts) := by
  have hnamed : Inv { c with rpcId := result.getString "id" } :=
    inv_frame hc rfl rfl rfl rfl fun h => h
  unfold Client.parseLogin
  dsimp only
  split_ifs
  · exact inv_close hnamed
  · exact hnamed

theorem inv_parseResponse (hc : Inv c)
    (hsent : ∀ id x, c.results id = some x → x.share ∈ c.sent) {line : Line} {id : Int}
    {result error : Json}
    (hclean : c.isCallback id = false → (c.results id).isSome → error.isObject = true →
      Client.errorMessage line error ≠ none) :
    Inv (c.parseResponse line id result error) := by
  unfold Client.parseResponse
  by_cases hcallback : c.isCallback id = true
  · rw [if_pos hcallback]
    exact inv_frame hc rfl rfl rfl rfl fun h => h
  rw [if_neg hcallback]
  by_cases herror : error.isObject = true
  · rw [if_pos herror]
    have hanswered : Inv (c.handleSubmitResponse id (Client.errorMessage line error) true) :=
      inv_handleSubmitResponse hc hsent fun hpending hnull =>
        absurd hnull (hclean (Bool.eq_false_of_not_eq_true hcallback) hpending herror)
    dsimp only
    split_ifs
    · exact inv_close hanswered
    · exact hanswered
  rw [if_neg herror]
  split_ifs
  · exact hc
  · exact inv_parseLogin hc result line.accepts
  · exact inv_handleSubmitResponse hc hsent fun _ _ => rfl

theorem inv_parse (hc : Inv c)
    (hsent : ∀ id x, c.results id = some x → x.share ∈ c.sent) {line : Line}
    (hclean : ¬ Silent c line) : Inv (c.parse line) := by
  have hresolve : Inv c.resolve := inv_frame hc rfl rfl rfl rfl fun h => h
  unfold Client.parse
  by_cases hmethod : line.doc.getString "method" = some "client.reconnect"
  · rw [if_pos hmethod]
    split_ifs
    · exact hresolve
    · exact hc
  rw [if_neg hmethod]
  cases hid : (line.doc.getValue "id").toInt64? with
  | some id =>
    exact inv_parseResponse hc hsent fun hcallback hpending herror hnull =>
      hclean ⟨hmethod, id, hid, hcallback, hpending, herror, hnull⟩
  | none =>
    dsimp only
    split_ifs
    · exact inv_close hc
    · exact hc

theorem inv_step {e : Event} (hc : Inv c) (hguard : Answerable c e) (h : step c e = some t) :
    Inv t := by
  unfold step at h
  cases hlines : c.unparsed with
  | cons line rest =>
    rw [hlines] at h
    cases e with
    | parse =>
      obtain rfl := Option.some.inj h
      have hsent := hc.wire (.inr (by simp [hlines]))
      have hrest : Inv { c with unparsed := rest } :=
        inv_frame hc rfl rfl rfl rfl fun _ => .inr (by simp [hlines])
      exact inv_parse hrest hsent (hguard line (by simp [hlines]))
    | _ => cases h
  | nil =>
    rw [hlines] at h
    cases e with
    | submit result outcome =>
      obtain rfl := Option.some.inj h
      exact inv_submit hc hlines hguard
    | ping outcome =>
      obtain ⟨-, rfl⟩ : outcome ≠ .tooLong ∧ c.ping outcome = t := by simpa using h
      exact inv_send hc outcome
    | request outcome =>
      obtain rfl := Option.some.inj h
      have hcallback : Inv { c with callbacks := Function.update c.callbacks c.sequence true } :=
        inv_frame hc rfl rfl rfl rfl fun h => h
      exact inv_send hcallback outcome
    | read lines =>
      obtain ⟨hhears, ht⟩ := Option.ite_none_right_eq_some.mp h
      obtain rfl := Option.some.inj ht
      exact inv_frame hc rfl rfl rfl rfl fun _ => .inl hhears
    | parse => cases h
    | close =>
      obtain rfl := Option.some.inj h
      exact inv_close hc
    | resolve =>
      obtain rfl := Option.some.inj h
      exact inv_frame hc rfl rfl rfl rfl fun h => h
    | connected =>
      obtain ⟨-, rfl⟩ : c.connected ≠ true ∧ c.onConnect = t := by simpa using h
      exact inv_frame hc rfl rfl rfl rfl fun h => h.imp_left fun hleaked => by
        simpa [Client.hears, Client.onConnect] using hleaked
    | login outcome =>
      obtain ⟨-, ht⟩ := Option.ite_none_right_eq_some.mp h
      obtain rfl := Option.some.inj ht
      exact inv_login hc outcome
    | others n =>
      obtain rfl := Option.some.inj h
      exact inv_frame hc rfl rfl rfl rfl fun h => h

end Steps

section Misreports

variable {c t : Client}

/-- An error reply to a pending result is reported with the message it carries. -/
theorem parse_error {line : Line} {id : Int} {x : SubmitResult}
    (hmethod : line.doc.getString "method" ≠ some "client.reconnect")
    (hid : (line.doc.getValue "id").toInt64? = some id) (hcallback : c.isCallback id = false)
    (herror : (line.doc.getValue "error").isObject = true) (hpending : c.results id = some x) :
    (c.parse line).reports =
        ⟨x, Client.errorMessage line (line.doc.getValue "error"), true⟩ :: c.reports ∧
      (c.parse line).sent = c.sent := by
  simp only [Client.parse, if_neg hmethod, hid, Client.parseResponse, hcallback,
    Bool.false_eq_true, if_false, herror, if_true]
  split_ifs <;> simp [Client.handleSubmitResponse, hpending, Client.close]

/-- An error for `id` with a message. -/
def errorLine (id : Int) : Line where
  doc := .object [("id", .int id), ("error", .object [("message", .string "Low difficulty")])]

theorem errorLine_id {id : Int} (hid : -2 ^ 63 ≤ id ∧ id < 2 ^ 63) :
    ((errorLine id).doc.getValue "id").toInt64? = some id := by
  simp only [errorLine, Json.getValue, Json.findMember, if_true, Option.getD_some,
    Json.toInt64?, if_pos hid]

theorem errorLine_method (id : Int) : (errorLine id).doc.getString "method" = none := by
  simp [errorLine, Json.getString, Json.getValue, Json.findMember]

theorem errorLine_error (id : Int) : ((errorLine id).doc.getValue "error").isObject = true := by
  simp [errorLine, Json.getValue, Json.findMember, Json.isObject]

theorem errorLine_reported {id : Int} (hid : -2 ^ 63 ≤ id ∧ id < 2 ^ 63) {x : SubmitResult}
    (hcallback : c.isCallback id = false) (hpending : c.results id = some x)
    (hunsent : x.share ∉ c.sent) : ¬ Accounted (c.parse (errorLine id)) := by
  intro haccounted
  obtain ⟨hreports, hsent⟩ := parse_error (by simp [errorLine_method]) (errorLine_id hid)
    hcallback (errorLine_error id) hpending
  have hreported := haccounted.sent ⟨x, _, true⟩ (by rw [hreports]; exact List.mem_cons_self)
  rw [hsent] at hreported
  exact hunsent hreported

/-- A callback under the same id takes the first reply, not the second. -/
theorem unsent_reported (hidle : c.unparsed = []) (hhears : c.hears = true) {id : Int}
    (hid : -2 ^ 63 ≤ id ∧ id < 2 ^ 63) {x : SubmitResult} (hpending : c.results id = some x)
    (hunsent : x.share ∉ c.sent) :
    ∃ rest u, exec step c rest = some u ∧ ¬ Accounted u := by
  cases hcallback : c.isCallback id with
  | false =>
    refine ⟨[.read [errorLine id], .parse], _, ?_,
      errorLine_reported (c := { c with unparsed := [] }) hid hcallback hpending hunsent⟩
    simp [exec, step, hidle, hhears]
  | true =>
    let swallowed : Client :=
      { c with unparsed := [], callbacks := Function.update c.callbacks id false }
    refine ⟨[.read [errorLine id, errorLine id], .parse, .parse],
      swallowed.parse (errorLine id), ?_, errorLine_reported (c := swallowed) hid
        (by simp [swallowed, Client.isCallback]) hpending hunsent⟩
    have hfirst : Client.parse { c with unparsed := [errorLine id] } (errorLine id) =
        { c with unparsed := [errorLine id],
                 callbacks := Function.update c.callbacks id false } := by
      simp only [Client.parse, errorLine_method, reduceCtorEq, if_false, errorLine_id hid,
        Client.parseResponse]
      rw [if_pos (show Client.isCallback { c with unparsed := [errorLine id] } id = true from
        hcallback)]
    simp [exec, step, hidle, hhears, hfirst, swallowed]

theorem unanswerable_submit (hc : Inv c) (hidle : c.unparsed = []) {result : JobResult}
    {outcome : SendOutcome} (hguard : ¬ Answerable c (.submit result outcome))
    (hid : -2 ^ 63 ≤ c.sequence ∧ c.sequence < 2 ^ 63) :
    ∃ rest u, exec step (c.submit result outcome) rest = some u ∧ ¬ Accounted u := by
  obtain ⟨hrefused, hrest⟩ := not_or.mp hguard
  obtain ⟨hdiff, hout⟩ := not_or.mp hrest
  have hconnected : (c.register result).connected = true :=
    refuses_connected (Bool.eq_false_of_not_eq_true hrefused)
  have hunsent : c.submitted ∉ c.sent := fun h => Nat.lt_irrefl _ (hc.sentFresh _ h)
  have hpending : (c.register result).results c.sequence = some
      ⟨c.submitted, c.sequence, result.diff, result.actualDiff, 0, result.backend⟩ := by
    simp [Client.register]
  cases outcome with
  | sent => exact absurd trivial hout
  | failed =>
    have hleft : c.submit result .failed = c.register result := by
      simp [Client.submit, hrefused, hdiff, Client.send]
    rw [hleft]
    have hhears : (c.register result).hears = true := Bool.eq_true_of_not_eq_false hout
    exact unsent_reported hidle hhears hid hpending hunsent
  | broken =>
    have hleft : c.submit result .broken = (c.register result).close := by
      simp [Client.submit, hrefused, hdiff, Client.send, hconnected]
    rw [hleft]
    have hhears : (c.register result).close.hears = true := by
      simpa [close_hears, Client.register] using hout
    exact unsent_reported hidle hhears hid hpending hunsent
  | tooLong =>
    have hleft : c.submit result .tooLong = (c.register result).close := by
      simp [Client.submit, hrefused, hdiff, Client.send]
    rw [hleft]
    have hhears : (c.register result).close.hears = true := by
      simpa [close_hears, Client.register] using hout
    exact unsent_reported hidle hhears hid hpending hunsent

theorem silent_parse {line : Line} (h : Silent c line) : ¬ Accounted (c.parse line) := by
  intro haccounted
  obtain ⟨hmethod, id, hid, hcallback, hpending, herror, hnull⟩ := h
  obtain ⟨x, hx⟩ := Option.isSome_iff_exists.mp hpending
  obtain ⟨hreports, -⟩ := parse_error hmethod hid hcallback herror hx
  have hclean := haccounted.refused ⟨x, _, true⟩ (by rw [hreports]; exact List.mem_cons_self)
    hnull
  cases hclean

/-- An event that breaks the condition is a misreport or can be followed by one. -/
theorem unanswerable_step {e : Event} (hc : Inv c) (h : step c e = some t)
    (hguard : ¬ Answerable c e) (hid : -2 ^ 63 ≤ c.sequence ∧ c.sequence < 2 ^ 63) :
    ∃ rest u, exec step t rest = some u ∧ ¬ Accounted u := by
  cases e with
  | submit result outcome =>
    cases hlines : c.unparsed with
    | cons line rest => simp [step, hlines] at h
    | nil =>
      obtain rfl : c.submit result outcome = t := by simpa [step, hlines] using h
      exact unanswerable_submit hc hlines hguard hid
  | parse =>
    cases hlines : c.unparsed with
    | nil => simp [step, hlines] at h
    | cons line rest =>
      obtain rfl : Client.parse { c with unparsed := rest } line = t := by
        simpa [step, hlines] using h
      have hsilent : Silent { c with unparsed := rest } line := by
        simpa [Answerable, hlines, Silent, Client.isCallback] using hguard
      exact ⟨[], _, rfl, silent_parse hsilent⟩
  | _ => exact absurd trivial hguard

end Misreports

/-- In a run that keeps the condition every report is accounted for; one more event that
breaks it makes a misreport possible. -/
theorem share_accounting {id sequence : Int} {events : List Event} {c : Client}
    (hrun : Run step Answerable (start id sequence) events c) :
    Accounted c ∧ ∀ e t, step c e = some t → ¬ Answerable c e →
      -2 ^ 63 ≤ c.sequence ∧ c.sequence < 2 ^ 63 →
      ∃ rest u, exec step t rest = some u ∧ ¬ Accounted u := by
  have hc : Inv c := hrun.invariant
    (fun _ _ _ hguard hinv hstep => inv_step hinv hguard hstep) (inv_start id sequence)
  exact ⟨hc.accounted, fun e t hstep hguard hid => unanswerable_step hc hstep hguard hid⟩

/-- A login reply, and the reply to a keepalive or a share that is fine. -/
def loginLine : Line where
  doc := .object [("id", .int 1), ("result", .object [("id", .string "a")])]

def okLine (id : Int) : Line where
  doc := .object [("id", .int id), ("result", .object [("status", .string "OK")])]

theorem not_silent {c : Client} {line : Line}
    (h : (line.doc.getValue "error").isObject = false) : ¬ Silent c line := by
  rintro ⟨-, -, -, -, -, herror, -⟩
  rw [h] at herror
  cases herror

/-- Submits that are sent and replies without an error object. -/
def plain (c : Client) : Event → Bool
  | .submit _ outcome => outcome == .sent
  | .parse => c.unparsed.head?.all fun line => !(line.doc.getValue "error").isObject
  | _ => true

theorem answerable_of_plain (c : Client) (e : Event) (h : plain c e = true) :
    Answerable c e := by
  cases e with
  | submit result outcome =>
    obtain rfl : outcome = .sent := by simpa [plain] using h
    exact .inr (.inr trivial)
  | parse =>
    intro line hline
    simp only [plain, Option.mem_def.mp hline, Option.all_some, Bool.not_eq_true'] at h
    exact not_silent h
  | _ => trivial

/-- A share that is sent and answered. -/
theorem share_accounting_answered :
    ∃ c : Client, c.reports = [⟨⟨0, 2, 5, 5, 0, 0⟩, none, false⟩] ∧ Accounted c := by
  have hanswered : (exec (guarded plain step) (start 0 1) [.connected, .login .sent,
      .read [loginLine], .parse, .submit ⟨some "a", 5, 5, 0⟩ .sent, .read [okLine 2],
      .parse]).map Client.reports = some [⟨⟨0, 2, 5, 5, 0, 0⟩, none, false⟩] := by decide
  obtain ⟨c, hc, hreports⟩ := Option.map_eq_some_iff.mp hanswered
  exact ⟨c, hreports, (share_accounting (run_of_guarded answerable_of_plain hc)).1⟩

/-- The reply to a keepalive that took over the id of a share that was never sent. -/
theorem keepalive_misreport :
    ¬ ∀ (id sequence : Int) (events : List Event) (c : Client),
      exec step (start id sequence) events = some c → Accounted c := by
  intro h
  have haccounted := h 0 1 [.connected, .login .sent, .read [loginLine], .parse,
    .submit ⟨some "a", 5, 5, 0⟩ .failed, .ping .sent, .read [okLine 2], .parse] _ rfl
  have hsent := haccounted.sent ⟨⟨0, 2, 5, 5, 0, 0⟩, none, false⟩ (by decide)
  revert hsent
  decide

end VeloxHash.ClientRequests
