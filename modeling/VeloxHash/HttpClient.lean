import VeloxHash.HttpPieces

/-! `HttpClient`: one fetch from the DNS request to the end of the connection, callback by
callback. A name that is not resolved, or a connect that cannot be started, ends nothing. -/

namespace VeloxHash

/-- The flags say which callbacks are pending; that of the timer comes once. `deleted` is the
callback of `uv_close`, and `expired` means that the listener died. -/
structure HttpClient where
  context : HttpContext
  timeout : Bool
  dns : Bool := false
  connecting : Bool := false
  reading : Bool := false
  timer : Bool := false
  deleted : Bool := false
  expired : Bool := false
  deriving DecidableEq

namespace HttpClient

open HttpPieces TransitionSystem

def UV_ECANCELED : Int := -125

def UV_ETIMEDOUT : Int := -110

def UV_EPROTO : Int := -71

/-- The constructor, and `connect`. -/
def fetch (req : HttpData) (timeout : Bool) : HttpClient where
  context := { isRequest := false, data := req }
  timeout := timeout
  timer := timeout
  dns := true

def close (c : HttpClient) (status : Int) : HttpClient :=
  { c with context := c.context.close status }

/-- `rc` is what `uv_tcp_connect` returns, which calls back only for zero. -/
def onResolved (c : HttpClient) (status : Int) (isEmpty : Bool) (rc : Int) : HttpClient :=
  let c := { c with context.data.status := status, dns := false }
  if status < 0 ∧ isEmpty then c else { c with connecting := rc == 0 }

def onTimer (c : HttpClient) : HttpClient := { c with timer := false }.close UV_ETIMEDOUT

/-- The request is written, and its headers and body are gone. -/
def handshake (c : HttpClient) : HttpClient :=
  { c with context.data := { c.context.data with headers := [], body := "" } }

def onConnect (c : HttpClient) (status : Int) : HttpClient :=
  let c := { c with connecting := false }
  if status < 0 then c.close (if status = UV_ECANCELED then UV_ETIMEDOUT else status)
  else { c with reading := true }.handshake

/-- The parser calls back, and says whether it understood. -/
def read (c : HttpClient) (callbacks : List HttpCallback) (ok : Bool) : HttpClient :=
  let c := { c with context := c.context.feed callbacks }
  if ok then c else c.close UV_EPROTO

inductive Event
  | resolved (status : Int) (isEmpty : Bool) (rc : Int)
  | connected (status : Int)
  | read (callbacks : List HttpCallback) (ok : Bool)
  | readError (nread : Int)
  | timer
  | deleted
  | expire

/-- Nothing is read from a handle that is closing, and it is deleted after its connect was
cancelled. -/
def step (c : HttpClient) : Event → Option HttpClient
  | .resolved status isEmpty rc => if c.dns then some (c.onResolved status isEmpty rc) else none
  | .connected status => if c.connecting then some (c.onConnect status) else none
  | .read callbacks ok =>
    if c.reading ∧ c.context.closing = false then some (c.read callbacks ok) else none
  | .readError nread =>
    if c.reading ∧ c.context.closing = false ∧ nread < 0 then some (c.close nread) else none
  | .timer => if c.timer then some c.onTimer else none
  | .deleted =>
    if c.context.closing ∧ c.connecting = false then
      some { c with dns := false, reading := false, timer := false, deleted := true }
    else none
  | .expire => some { c with context.listener := false, expired := true }

/-- No callback is pending. -/
def Idle (c : HttpClient) : Prop :=
  c.dns = false ∧ c.connecting = false ∧ ¬ (c.reading = true ∧ c.context.closing = false) ∧
    c.timer = false

instance (c : HttpClient) : Decidable (Idle c) := inferInstanceAs (Decidable (_ ∧ _))

/-- The listener was called at most once, and once if nothing is left to come. -/
def Served (c : HttpClient) : Prop :=
  c.context.handed.length ≤ 1 ∧
    (Idle c → c.expired = false → c.context.handed.length = 1)

/-- The connection is not even started. -/
def Event.stuck : Event → Bool
  | .resolved status isEmpty rc => (decide (status < 0) && isEmpty) || rc != 0
  | _ => false

/-- A client that gets stuck has a timer, or no listener. -/
def Allowed (c : HttpClient) (event : Event) : Prop :=
  event.stuck = true → c.timeout = true ∨ c.expired = true

section Step

variable {c t : HttpClient}

/-- What holds also in the middle of a callback. -/
structure Kept (c : HttpClient) : Prop where
  once : Once c.context
  untimed : c.timeout = false → c.timer = false
  early : c.dns = true → c.connecting = false ∧ c.reading = false ∧
    (c.timeout = false → c.context.handed = [])
  closed : c.context.closing = false → c.context.stored = true
  served : c.expired = true ∨ c.context.handed ≠ [] ∨
    Waiting c.context ∧ c.context.closing = false

structure Inv (c : HttpClient) : Prop extends Kept c where
  timed : c.timeout = true → c.timer = true ∨ c.context.closing = true
  pending : c.context.closing = false → c.expired = true ∨ c.context.handed ≠ [] ∨
    c.dns = true ∨ c.connecting = true ∨ c.reading = true ∨ c.timer = true

theorem Inv.idle (h : Inv c) : Served c := by
  refine ⟨h.once.le, fun ⟨hdns, hconnecting, hreading, htimer⟩ hexpired => ?_⟩
  have hsome (hsome : c.context.handed ≠ []) : c.context.handed.length = 1 :=
    le_antisymm h.once.le (List.length_pos_iff.mpr hsome)
  rcases h.served with hgone | hserved | ⟨-, hopen⟩
  · exact absurd (hexpired.symm.trans hgone) Bool.false_ne_true
  · exact hsome hserved
  · have hpending := h.pending hopen
    rw [hexpired, hdns, hconnecting, htimer] at hpending
    simp only [Bool.false_eq_true, false_or, or_false] at hpending
    exact hpending.elim hsome fun hread => absurd ⟨hread, hopen⟩ hreading

/-- A close with an error leaves nobody waiting. -/
theorem Kept.close (h : Kept c) {status : Int} (hstatus : status < 0)
    (hdns : c.dns = true → c.timeout = true) : Inv (c.close status) := by
  have hclosing : (c.context.close status).closing = true := by
    cases hstored : c.context.stored with
    | true => exact close_closing hstored status
    | false =>
      have hself : c.context.close status = c.context := if_pos (by simp [hstored])
      rw [hself]
      cases hclosing : c.context.closing with
      | true => rfl
      | false => exact absurd ((h.closed hclosing).symm.trans hstored) (by decide)
  refine ⟨⟨h.once.close status, h.untimed, fun hpending => ?_, fun hopen => ?_, ?_⟩,
    fun _ => .inr hclosing, fun hopen => ?_⟩
  · obtain ⟨hconnecting, hreading, -⟩ := h.early hpending
    refine ⟨hconnecting, hreading, fun hnone => ?_⟩
    exact absurd ((hdns hpending).symm.trans hnone) (by decide)
  · exact absurd (hclosing.symm.trans hopen) (by decide)
  · rcases h.served with hgone | hsome | ⟨hwaiting, hopen⟩
    · exact .inl hgone
    · exact .inr (.inl (close_handed hsome status))
    · exact .inr (.inl (hwaiting.close (h.closed hopen) hstatus))
  · exact absurd (hclosing.symm.trans hopen) (by decide)

theorem Inv.fetch (req : HttpData) (timeout : Bool) : Inv (fetch req timeout) where
  once := ⟨Nat.zero_le 1, .inl rfl⟩
  untimed := id
  early := fun _ => ⟨rfl, rfl, fun _ => rfl⟩
  closed := fun _ => rfl
  served := .inr (.inr ⟨.inl rfl, rfl⟩)
  timed := .inl
  pending := fun _ => .inr (.inr (.inl rfl))

/-- An answer starts the connect, unless the client gets stuck. -/
theorem onResolved_eq (hconnecting : c.connecting = false) (status : Int) (isEmpty : Bool)
    (rc : Int) :
    c.onResolved status isEmpty rc =
      { c with
        context.data.status := status
        dns := false
        connecting := !(Event.resolved status isEmpty rc).stuck } := by
  unfold onResolved Event.stuck
  dsimp only
  split
  next herror => simp [herror, hconnecting]
  next hok =>
    have hanswer : (decide (status < 0) && isEmpty) = false := by
      rw [Bool.eq_false_iff, Ne, Bool.and_eq_true, decide_eq_true_eq]
      exact hok
    rw [hanswer, Bool.false_or]
    cases hrc : rc == 0 <;> simp [bne, hrc]

theorem Inv.onResolved (h : Inv c) (hdns : c.dns = true) {status : Int} {isEmpty : Bool}
    {rc : Int} (hallowed : Allowed c (.resolved status isEmpty rc)) :
    Inv (c.onResolved status isEmpty rc) := by
  obtain ⟨hconnecting, hreading, -⟩ := h.early hdns
  rw [onResolved_eq hconnecting]
  refine ⟨⟨⟨h.once.le, h.once.last⟩, h.untimed, fun hpending => ?_, h.closed, h.served⟩,
    h.timed, fun hopen => ?_⟩
  · exact absurd hpending Bool.false_ne_true
  · cases hstuck : (Event.resolved status isEmpty rc).stuck with
    | false => exact .inr (.inr (.inr (.inl rfl)))
    | true =>
      refine (hallowed hstuck).symm.imp_right fun htimeout => ?_
      have htimer := (h.timed htimeout).resolve_right fun hclosing =>
        absurd (hclosing.symm.trans hopen) (by decide)
      exact .inr (.inr (.inr (.inr htimer)))

theorem Kept.dns_eq_false (h : Kept c) (hlate : c.connecting = true ∨ c.reading = true) :
    c.dns = false := by
  refine Bool.eq_false_iff.mpr fun hdns => ?_
  obtain ⟨hconnecting, hreading, -⟩ := h.early hdns
  rw [hconnecting, hreading] at hlate
  exact absurd hlate (by decide)

theorem Inv.onConnect (h : Inv c) (hconnecting : c.connecting = true) (status : Int) :
    Inv (c.onConnect status) := by
  have hdns := h.dns_eq_false (.inl hconnecting)
  have hlate (hpending : c.dns = true) : False := absurd (hpending.symm.trans hdns) (by decide)
  unfold HttpClient.onConnect
  dsimp only
  split
  next hstatus =>
    have herror : (if status = UV_ECANCELED then UV_ETIMEDOUT else status) < 0 := by
      split
      · decide
      · exact hstatus
    have hkept : Kept { c with connecting := false } :=
      ⟨h.once, h.untimed, fun hpending => (hlate hpending).elim, h.closed, h.served⟩
    exact hkept.close herror fun hpending => (hlate hpending).elim
  next =>
    refine ⟨⟨⟨h.once.le, h.once.last⟩, h.untimed, fun hpending => (hlate hpending).elim, h.closed,
      h.served⟩, h.timed, fun _ => ?_⟩
    exact .inr (.inr (.inr (.inr (.inl rfl))))

theorem Inv.read (h : Inv c) (hreading : c.reading = true) (hopen : c.context.closing = false)
    (callbacks : List HttpCallback) (ok : Bool) : Inv (c.read callbacks ok) := by
  have hdns := h.dns_eq_false (.inr hreading)
  have hlate (hpending : c.dns = true) : False := absurd (hpending.symm.trans hdns) (by decide)
  obtain ⟨hstored, hopen', honce, hwaiting⟩ := feed_frame hopen callbacks
  have hserved : c.expired = true ∨ (c.context.feed callbacks).handed ≠ [] ∨
      Waiting (c.context.feed callbacks) ∧ (c.context.feed callbacks).closing = false := by
    refine h.served.imp_right fun hserved => ?_
    have hwait : Waiting c.context := hserved.elim .inr And.left
    exact .inr ⟨hwaiting hwait, hopen'⟩
  have hkept : Kept { c with context := c.context.feed callbacks } :=
    ⟨honce h.once, h.untimed, fun hpending => (hlate hpending).elim,
      fun _ => hstored.trans (h.closed hopen), hserved⟩
  unfold HttpClient.read
  cases ok with
  | true =>
    refine ⟨hkept, fun htimeout => ?_, fun _ => .inr (.inr (.inr (.inr (.inl hreading))))⟩
    refine .inl ((h.timed htimeout).resolve_right fun hclosing => ?_)
    exact absurd (hclosing.symm.trans hopen) (by decide)
  | false => exact hkept.close (by decide) fun hpending => (hlate hpending).elim

theorem Inv.onTimer (h : Inv c) (htimer : c.timer = true) : Inv c.onTimer := by
  have htimeout : c.timeout = true := by
    refine Bool.eq_true_of_not_eq_false fun hnone => ?_
    exact absurd (htimer.symm.trans (h.untimed hnone)) (by decide)
  have hkept : Kept { c with timer := false } :=
    ⟨h.once, fun _ => rfl, h.early, h.closed, h.served⟩
  exact hkept.close (by decide) fun _ => htimeout

/-- What a callback preserves, if the client does not get stuck in it. -/
theorem Inv.step (h : Inv c) {event : Event} (hstep : c.step event = some t)
    (hallowed : Allowed c event) : Inv t := by
  cases event with
  | resolved status isEmpty rc =>
    obtain ⟨hdns, heq⟩ := Option.ite_none_right_eq_some.mp hstep
    exact Option.some.inj heq ▸ h.onResolved hdns hallowed
  | connected status =>
    obtain ⟨hconnecting, heq⟩ := Option.ite_none_right_eq_some.mp hstep
    exact Option.some.inj heq ▸ h.onConnect hconnecting status
  | read callbacks ok =>
    obtain ⟨⟨hreading, hopen⟩, heq⟩ := Option.ite_none_right_eq_some.mp hstep
    exact Option.some.inj heq ▸ h.read hreading hopen callbacks ok
  | readError nread =>
    obtain ⟨⟨hreading, -, hnread⟩, heq⟩ := Option.ite_none_right_eq_some.mp hstep
    have hdns := h.dns_eq_false (.inr hreading)
    have hlate (hpending : c.dns = true) : c.timeout = true :=
      absurd (hpending.symm.trans hdns) (by decide)
    exact Option.some.inj heq ▸ h.close hnread hlate
  | timer =>
    obtain ⟨htimer, heq⟩ := Option.ite_none_right_eq_some.mp hstep
    exact Option.some.inj heq ▸ h.onTimer htimer
  | deleted =>
    obtain ⟨⟨hclosing, -⟩, heq⟩ := Option.ite_none_right_eq_some.mp hstep
    obtain rfl := Option.some.inj heq
    refine ⟨⟨h.once, fun _ => rfl, fun hpending => ?_, h.closed, h.served⟩,
      fun _ => .inr hclosing, fun hopen => ?_⟩
    · exact absurd hpending Bool.false_ne_true
    · exact absurd (hclosing.symm.trans hopen) (by decide)
  | expire =>
    obtain rfl := Option.some.inj hstep
    exact ⟨⟨⟨h.once.le, .inr (.inl rfl)⟩, h.untimed, h.early, h.closed, .inl rfl⟩, h.timed,
      fun _ => .inl rfl⟩

/-- A client that gets stuck without a timer will never call its listener. -/
theorem Inv.served_step (h : Inv c) {event : Event} (hstep : c.step event = some t) :
    Served t ↔ Allowed c event := by
  refine ⟨fun hserved hstuck => ?_, fun hallowed => (h.step hstep hallowed).idle⟩
  cases event with
  | resolved status isEmpty rc =>
    obtain ⟨hdns, heq⟩ := Option.ite_none_right_eq_some.mp hstep
    obtain ⟨hconnecting, hreading, hearly⟩ := h.early hdns
    obtain rfl := Option.some.inj heq
    rw [onResolved_eq hconnecting, hstuck] at hserved
    refine or_iff_not_imp_left.mpr fun htimeout => ?_
    have hnone := Bool.eq_false_iff.mpr htimeout
    refine Bool.eq_true_of_not_eq_false fun hexpired => ?_
    have hidle := hserved.2 ⟨rfl, rfl, fun hread => ?_, h.untimed hnone⟩ hexpired
    · change c.context.handed.length = 1 at hidle
      rw [hearly hnone] at hidle
      exact absurd hidle (by decide)
    · exact absurd (hread.1.symm.trans hreading) (by decide)
  | _ => exact absurd hstuck Bool.false_ne_true

end Step

/-- A host name that nobody knows, asked for without a timeout. -/
theorem dns_error_lost : ¬ ∀ (req : HttpData) (timeout : Bool) (events : List Event) (c : HttpClient),
    exec step (fetch req timeout) events = some c → Served c := by
  intro h
  have hrun : (exec step (fetch {} false) [.resolved (-3008) true 0]).map
      (fun c => decide (Idle c ∧ c.expired = false ∧ c.context.handed.length = 0)) = some true := by
    decide +kernel
  obtain ⟨c, hexec, hc⟩ := Option.map_eq_some_iff.mp hrun
  obtain ⟨hidle, hexpired, hnone⟩ := of_decide_eq_true hc
  have hone := (h {} false _ c hexec).2 hidle hexpired
  exact absurd (hnone.symm.trans hone) (by decide)

/-- A fetch is lost in no state of a schedule exactly if it gets stuck only with a timer set, or
without a listener. -/
theorem served_iff (req : HttpData) (timeout : Bool) (events : List Event) :
    (∀ k c, exec step (fetch req timeout) (events.take k) = some c → Served c) ↔
      ∀ k (hk : k < events.length) c t, exec step (fetch req timeout) (events.take k) = some c →
        c.step events[k] = some t → Allowed c events[k] :=
  forall_take_iff (fun _ => Inv.idle)
    (fun _ _ _ h hstep => ⟨Inv.served_step h hstep, Inv.step h hstep⟩) (.fetch req timeout) events

end HttpClient

end VeloxHash
