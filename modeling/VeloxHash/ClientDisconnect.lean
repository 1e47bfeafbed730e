import VeloxHash.ClientConnection
import VeloxHash.TransitionSystem
import Mathlib.Tactic

/-! `Client::disconnect` and what can still happen after it. A disconnect that finds no
lookup in flight, no socket read besides `m_socket` and nothing to announce in the rest of
the current read leaves the client still, and it stays so until its owner connects it. -/

namespace VeloxHash.ClientConnection

open ClientRequests (SendOutcome)
open TransitionSystem

/-- A line `parse` answers with `onLoginSuccess` or `onJobReceived`. -/
def Line.announces : Line → Bool
  | .login true _ true | .job true => true
  | _ => false

def Call.isClose : Call → Bool
  | .close _ => true
  | _ => false

/-- After a disconnect no login was sent, and the listener was called by `onClose` only. -/
def Final (c : Client) : Prop := ∀ entry ∈ c.calls, entry.2 = true → entry.1.isClose = true

/-- When `disconnect` may be called. -/
structure Quiet (c : Client) : Prop where
  lookup : c.lookup = false
  readers : ∀ k, c.handles k = .reading → c.socket = some k
  announce : c.announce = false
  unparsed : ∀ line ∈ c.unparsed, line.announces = false

def DisconnectsQuietly (c : Client) : Event → Prop
  | .disconnect => Quiet c
  | _ => True

/-- The state and `m_socket` agree on what there is to close. -/
structure Base (c : Client) : Prop where
  unconnected : c.state = .unconnected → c.socket = none
  closing : c.state = .closing → ∃ k b, c.socket = some k ∧ c.handles k = .closing b
  alive : ∀ k, c.socket = some k → c.handles k ≠ .unused ∧ c.handles k ≠ .closed

/-- A disconnected client that no completion and no timer can bring back. -/
structure Still (c : Client) : Prop where
  lookup : c.lookup = false
  readers : ∀ k, c.handles k ≠ .reading
  socket : ∀ k, c.socket = some k → ∃ b, c.handles k = .closing b
  announce : c.announce = false
  unparsed : ∀ line ∈ c.unparsed, line.announces = false
  failures : c.failures = -1
  timer : c.state = .reconnecting → c.expire = false

/-- What all steps but the owner's do: they keep `Base` and `Still`, and a still client
calls the listener by `onClose` only. -/
structure Moves (c t : Client) : Prop where
  flag : t.disconnected = c.disconnected
  calls : ∀ entry ∈ t.calls, entry ∈ c.calls ∨
    entry.2 = c.disconnected ∧ (Still c → entry.1.isClose = true)
  base : Base c → Base t
  still : Still c → Still t

section Moves

variable {c t u : Client}

theorem Moves.refl (c : Client) : Moves c c := ⟨rfl, fun _ => .inl, id, id⟩

theorem Moves.trans (h : Moves c t) (h' : Moves t u) : Moves c u where
  flag := h'.flag.trans h.flag
  calls entry hentry := by
    rcases h'.calls entry hentry with hold | ⟨hflag, hclose⟩
    · exact h.calls entry hold
    · exact .inr ⟨hflag.trans h.flag, fun hstill => hclose (h.still hstill)⟩
  base hbase := h'.base (h.base hbase)
  still hstill := h'.still (h.still hstill)

/-- A change of timers and handshake flags only. -/
theorem moves_frame (hstate : t.state = c.state) (hsocket : t.socket = c.socket)
    (hhandles : t.handles = c.handles) (hlookup : t.lookup = c.lookup)
    (hfailures : t.failures = c.failures) (hunparsed : t.unparsed = c.unparsed)
    (hannounce : t.announce = c.announce) (hflag : t.disconnected = c.disconnected)
    (hcalls : t.calls = c.calls)
    (hexpire : c.state = .reconnecting → c.expire = false → t.expire = false) : Moves c t where
  flag := hflag
  calls _ h := .inl (hcalls ▸ h)
  base h := by
    refine ⟨?_, ?_, ?_⟩
    · rw [hstate, hsocket]; exact h.unconnected
    · rw [hstate, hsocket, hhandles]; exact h.closing
    · rw [hsocket, hhandles]; exact h.alive
  still h := by
    refine ⟨?_, ?_, ?_, ?_, ?_, ?_, ?_⟩
    · rw [hlookup]; exact h.lookup
    · rw [hhandles]; exact h.readers
    · rw [hsocket, hhandles]; exact h.socket
    · rw [hannounce]; exact h.announce
    · rw [hunparsed]; exact h.unparsed
    · rw [hfailures]; exact h.failures
    · rw [hstate]; exact fun hs => hexpire hs (h.timer hs)

theorem emit_moves {call : Call} (hcall : Still c → call.isClose = true) :
    Moves c (c.emit call) where
  flag := rfl
  calls entry h := by
    rcases List.mem_cons.mp h with rfl | hold
    · exact .inr ⟨rfl, hcall⟩
    · exact .inl hold
  base h := ⟨h.unconnected, h.closing, h.alive⟩
  still h := ⟨h.lookup, h.readers, h.socket, h.announce, h.unparsed, h.failures, h.timer⟩

/-- For a step that a still client cannot take. -/
theorem moves_of_not_still (hstill : ¬ Still c) (hflag : t.disconnected = c.disconnected)
    (hcalls : ∀ entry ∈ t.calls, entry ∈ c.calls ∨ entry.2 = c.disconnected)
    (hbase : Base c → Base t) : Moves c t where
  flag := hflag
  calls entry h := (hcalls entry h).imp_right fun hf => ⟨hf, fun hs => absurd hs hstill⟩
  base := hbase
  still h := absurd h hstill

/-- `close` does nothing, or closes the handle of `m_socket`. -/
theorem close_cases (c : Client) :
    c.close = c ∨ ∃ k, c.socket = some k ∧ c.close = (c.setState .closing).uvClose k := by
  unfold Client.close
  cases c.socket with
  | none => exact .inl rfl
  | some k =>
    dsimp only
    split_ifs
    · exact .inl rfl
    · exact .inr ⟨k, rfl, rfl⟩

theorem setState_closing (c : Client) : c.setState .closing = { c with state := .closing } := by
  unfold Client.setState
  split_ifs with h
  · rw [← h]
  · rfl

theorem uvClose_handles (c : Client) (k : Nat) :
    ∃ h, c.uvClose k = c.setHandle k h ∧ h ≠ .reading ∧
      (c.handles k ≠ .unused → c.handles k ≠ .closed → ∃ b, h = .closing b) ∧
      (∀ b, c.handles k = .closing b → h = .closing b) := by
  have hsame : c.setHandle k (c.handles k) = c := by
    simp [Client.setHandle]
  unfold Client.uvClose
  split
  case h_1 h => exact ⟨_, rfl, by simp, fun _ _ => ⟨_, rfl⟩, fun b hb => by simp [h] at hb⟩
  case h_2 h => exact ⟨_, rfl, by simp, fun _ _ => ⟨_, rfl⟩, fun b hb => by simp [h] at hb⟩
  case h_3 h => exact ⟨_, rfl, by simp, fun _ _ => ⟨_, rfl⟩, fun b hb => by simp [h] at hb⟩
  case h_4 h => exact ⟨_, rfl, by simp, fun _ _ => ⟨_, rfl⟩, fun b hb => by simp [h] at hb⟩
  case h_5 hconnecting hidle hconnected hreading =>
    refine ⟨c.handles k, hsame.symm, fun h => hreading h, fun hu hcl => ?_, fun b hb => hb⟩
    cases h : c.handles k with
    | closing b => exact ⟨b, rfl⟩
    | unused => exact absurd h hu
    | closed => exact absurd h hcl
    | connecting => exact absurd h hconnecting
    | idle => exact absurd h hidle
    | connected => exact absurd h hconnected
    | reading => exact absurd h hreading

theorem close_moves (c : Client) : Moves c c.close := by
  rcases close_cases c with h | ⟨k, hsocket, h⟩
  · rw [h]
    exact .refl c
  rw [h, setState_closing]
  obtain ⟨handle, hclose, hreading, hclosing, hkept⟩ :=
    uvClose_handles { c with state := .closing } k
  rw [hclose]
  refine ⟨rfl, fun _ => .inl, fun hbase => ⟨nofun, fun _ => ?_, fun j hj => ?_⟩, fun hstill => ?_⟩
  · obtain ⟨hunused, hclosed⟩ := hbase.alive k hsocket
    obtain ⟨b, rfl⟩ := hclosing hunused hclosed
    exact ⟨k, b, hsocket, by simp [Client.setHandle]⟩
  · obtain rfl : k = j := Option.some.inj (hsocket.symm.trans hj)
    obtain ⟨hunused, hclosed⟩ := hbase.alive k hsocket
    obtain ⟨b, rfl⟩ := hclosing hunused hclosed
    simp [Client.setHandle]
  · obtain ⟨b, hb⟩ := hstill.socket k hsocket
    obtain rfl := hkept b hb
    have hsame : Function.update c.handles k (.closing b) = c.handles := by
      rw [← hb, Function.update_eq_self]
    refine ⟨hstill.lookup, ?_, ?_, hstill.announce, hstill.unparsed, hstill.failures, nofun⟩
    · simpa only [Client.setHandle, hsame] using hstill.readers
    · simpa only [Client.setHandle, hsame] using hstill.socket

/-- Entering a state that says nothing about `m_socket`. -/
theorem base_setState (state : SocketState) (hbase : Base c) (hu : state ≠ .unconnected)
    (hcl : state ≠ .closing) : Base (c.setState state) := by
  unfold Client.setState
  split_ifs
  · exact hbase
  · exact ⟨fun h => absurd h hu, fun h => absurd h hcl, hbase.alive⟩

theorem setState_frame (c : Client) (state : SocketState) :
    (c.setState state).disconnected = c.disconnected ∧ (c.setState state).calls = c.calls ∧
      (c.setState state).socket = c.socket ∧ (c.setState state).handles = c.handles ∧
      (c.setState state).state = state := by
  unfold Client.setState
  split_ifs with h
  · exact ⟨rfl, rfl, rfl, rfl, h⟩
  · exact ⟨rfl, rfl, rfl, rfl, rfl⟩

theorem reconnect_moves (c : Client) : Moves c c.reconnect := by
  have hquiet : Moves c { c with keepAlive := false } :=
    moves_frame rfl rfl rfl rfl rfl rfl rfl rfl rfl fun _ h => h
  unfold Client.reconnect
  dsimp only
  split_ifs with hfailures
  · exact hquiet.trans (emit_moves fun _ => rfl)
  · obtain ⟨hflag, hcalls, -⟩ := setState_frame { c with keepAlive := false } .reconnecting
    refine moves_of_not_still (fun h => hfailures h.failures) hflag (fun entry h => ?_)
      fun h => ?_
    · rcases List.mem_cons.mp h with rfl | hold
      · exact .inr hflag
      · exact .inl (hcalls ▸ hold)
    · have hbase := base_setState .reconnecting (hquiet.base h) nofun nofun
      exact ⟨hbase.unconnected, hbase.closing, hbase.alive⟩

theorem not_writable (h : Still c) : c.writable = false := by
  unfold Client.writable
  cases hsocket : c.socket with
  | none => rfl
  | some k =>
    obtain ⟨b, hb⟩ := h.socket k hsocket
    simp [hb]

/-- A send closes, arms the response timer of a connected client, or does nothing; a still
client sends nothing. -/
theorem send_moves (c : Client) (outcome : SendOutcome) :
    Moves c (c.send outcome).1 ∧ ((c.send outcome).2 = true → ¬ Still c) := by
  unfold Client.send
  split_ifs with hlong hready
  · exact ⟨close_moves c, nofun⟩
  · exact ⟨.refl c, nofun⟩
  · obtain ⟨hconnected, hwritable⟩ := not_or.mp hready
    have hstill : ¬ Still c := fun h => by simp [not_writable h] at hwritable
    cases outcome with
    | sent =>
      refine ⟨moves_frame rfl rfl rfl rfl rfl rfl rfl rfl rfl fun h => ?_, fun _ => hstill⟩
      simp [not_not.mp hconnected] at h
    | broken => exact ⟨close_moves c, nofun⟩
    | failed => exact ⟨.refl c, nofun⟩
    | tooLong => exact absurd rfl hlong

theorem login_moves (c : Client) (outcome : SendOutcome) : Moves c (c.login outcome) := by
  obtain ⟨hsend, hsent⟩ := send_moves c outcome
  unfold Client.login
  dsimp only
  split_ifs with h
  · have hemit : ∀ entry ∈ ((c.send outcome).1.emit .login).calls,
        entry ∈ c.calls ∨ entry.2 = c.disconnected := by
      intro entry hentry
      rcases List.mem_cons.mp hentry with rfl | hold
      · exact .inr hsend.flag
      · exact (hsend.calls entry hold).imp_right And.left
    refine moves_of_not_still (hsent h) hsend.flag hemit fun hbase => ?_
    exact ⟨(hsend.base hbase).unconnected, (hsend.base hbase).closing, (hsend.base hbase).alive⟩
  · exact hsend

theorem write_moves (c : Client) (outcome : SendOutcome) : Moves c (c.write outcome) := by
  unfold Client.write
  split_ifs
  · exact close_moves c
  · exact .refl c

theorem handshake_moves (hstate : Still c → c.state ≠ .reconnecting) (outcome : SendOutcome) :
    Moves c (c.handshake outcome) := by
  unfold Client.handshake
  split_ifs
  · exact write_moves c outcome
  · refine Moves.trans (t := { c with expire := true }) ?_ (write_moves _ outcome)
    refine ⟨rfl, fun _ => .inl, fun h => ⟨h.unconnected, h.closing, h.alive⟩, fun h => ?_⟩
    exact ⟨h.lookup, h.readers, h.socket, h.announce, h.unparsed, h.failures,
      fun hs => absurd hs (hstate h)⟩
  · exact login_moves c outcome

/-- Handles may change as long as none begins to be read and `m_socket` stays as it is. -/
theorem setHandle_moves {k : Nat} {h : Handle} (hreading : h ≠ .reading)
    (halive : h ≠ .unused ∧ h ≠ .closed)
    (hsocket : c.socket = some k → (∃ b, c.handles k = .closing b) → ∃ b, h = .closing b) :
    Moves c (c.setHandle k h) where
  flag := rfl
  calls _ := .inl
  base hbase := by
    refine ⟨hbase.unconnected, fun hs => ?_, fun j hj => ?_⟩
    · obtain ⟨j, b, hj, hb⟩ := hbase.closing hs
      by_cases hjk : j = k
      · subst hjk
        obtain ⟨b', rfl⟩ := hsocket hj ⟨b, hb⟩
        exact ⟨j, b', hj, by simp [Client.setHandle]⟩
      · exact ⟨j, b, hj, by simp [Client.setHandle, hjk, hb]⟩
    · by_cases hjk : j = k
      · subst hjk
        simpa [Client.setHandle] using halive
      · simpa [Client.setHandle, hjk] using hbase.alive j hj
  still hstill := by
    refine ⟨hstill.lookup, fun j => ?_, fun j hj => ?_, hstill.announce, hstill.unparsed,
      hstill.failures, hstill.timer⟩
    · by_cases hjk : j = k
      · subst hjk
        simpa [Client.setHandle] using hreading
      · simpa [Client.setHandle, hjk] using hstill.readers j
    · by_cases hjk : j = k
      · subst hjk
        obtain ⟨b, rfl⟩ := hsocket hj (hstill.socket j hj)
        exact ⟨b, by simp [Client.setHandle]⟩
      · simpa [Client.setHandle, hjk] using hstill.socket j hj

theorem onResolved_moves (hlookup : c.lookup = true) (ok started : Bool) :
    Moves c (c.onResolved ok started) := by
  have hstill : ¬ Still c := fun h => by simp [h.lookup] at hlookup
  obtain ⟨hflag, hcalls, -, -, hstate⟩ := setState_frame { c with lookup := false } .connecting
  unfold Client.onResolved
  dsimp only
  split_ifs
  · refine moves_of_not_still hstill hflag (fun entry h => .inl (hcalls ▸ h)) fun h => ?_
    refine ⟨fun hs => ?_, fun hs => ?_, fun k hk => ?_⟩
    · cases hstate.symm.trans hs
    · cases hstate.symm.trans hs
    · obtain rfl := Option.some.inj hk
      cases started <;> simp [Client.connectTo, Client.setHandle]
  · have hreconnect := reconnect_moves { c with lookup := false }
    exact moves_of_not_still hstill hreconnect.flag
      (fun entry h => (hreconnect.calls entry h).imp_right And.left)
      fun h => hreconnect.base ⟨h.unconnected, h.closing, h.alive⟩

theorem readStart_frame (c : Client) (k : Nat) (h : Still c) (hk : c.socket = some k) :
    c.readStart k = c := by
  obtain ⟨b, hb⟩ := h.socket k hk
  simp [Client.readStart, hb]

/-- A still client may see a socket connect that nothing denotes any more: it is not read. -/
theorem connected_moves {k : Nat} (hk : c.socket = some k) :
    Moves c ((c.setState .connected).readStart k) := by
  obtain ⟨hflag, hcalls, hsocket, hhandles, hstate⟩ := setState_frame c .connected
  have hset : Moves c (c.setState .connected) := by
    refine ⟨hflag, fun entry h => .inl (hcalls ▸ h), fun h => base_setState _ h nofun nofun,
      fun h => ?_⟩
    unfold Client.setState
    split_ifs
    · exact h
    · exact ⟨h.lookup, h.readers, h.socket, h.announce, h.unparsed, h.failures, nofun⟩
  refine hset.trans ?_
  unfold Client.readStart
  split_ifs with hconnected
  · refine moves_of_not_still (fun h => ?_) rfl (fun _ => .inl) fun h => ⟨?_, ?_, fun j hj => ?_⟩
    · obtain ⟨b, hb⟩ := h.socket k (hsocket.trans hk)
      rw [hconnected] at hb
      cases hb
    · exact fun hs => nomatch hstate.symm.trans hs
    · exact fun hs => nomatch hstate.symm.trans hs
    · by_cases hjk : j = k
      · subst hjk
        simp [Client.setHandle]
      · simpa [Client.setHandle, hjk] using h.alive j hj
  · exact .refl _

theorem onConnect_moves {k : Nat} {ok : Bool} {outcome : SendOutcome}
    (hhandle : c.handles k = .connecting ∨ c.handles k = .closing true ∧ ok = false)
    (h : c.onConnect k ok outcome = some t) : Moves c t := by
  unfold Client.onConnect at h
  cases ok with
  | true =>
    have hconnecting := hhandle.resolve_right fun hc => by simp at hc
    have hset : Moves c (c.setHandle k .connected) :=
      setHandle_moves nofun (by simp) fun _ ⟨b, hb⟩ => by simp [hconnecting] at hb
    simp only [if_true] at h
    split_ifs at h with hconnected
    · obtain rfl := Option.some.inj h
      exact hset
    · obtain ⟨j, hj, rfl⟩ := Option.map_eq_some_iff.mp h
      have hread := hset.trans (connected_moves hj)
      refine hread.trans (handshake_moves (fun _ => ?_) outcome)
      obtain ⟨-, -, -, -, hstate⟩ := setState_frame (c.setHandle k .connected) .connected
      unfold Client.readStart
      split_ifs
      · exact fun hs => nomatch hstate.symm.trans hs
      · exact fun hs => nomatch hstate.symm.trans hs
  | false =>
    have hset : Moves c (c.setHandle k
        (if c.handles k = .connecting then .idle else .closing false)) := by
      rcases hhandle with hc | ⟨hc, -⟩
      · exact setHandle_moves (by simp [hc]) (by simp [hc]) fun _ ⟨b, hb⟩ => by simp [hc] at hb
      · exact setHandle_moves (by simp [hc]) (by simp [hc]) fun _ _ => ⟨false, by simp [hc]⟩
    simp only [Bool.false_eq_true, if_false, Option.some.injEq] at h
    rw [← h]
    by_cases hstate : (c.setHandle k
        (if c.handles k = .connecting then .idle else .closing false)).state = .connecting
    · rw [if_pos hstate]
      exact hset.trans (close_moves _)
    · rw [if_neg hstate]
      exact hset

theorem readHandshake_moves {k : Nat} (hreading : c.handles k = .reading)
    (progress : Handshake) (outcome : SendOutcome) :
    Moves c (c.readHandshake progress outcome) := by
  have hframe (socks5 : Bool) (tls : Option Bool) : Moves c { c with socks5, tls } :=
    moves_frame rfl rfl rfl rfl rfl rfl rfl rfl rfl fun _ h => h
  unfold Client.readHandshake
  cases progress with
  | pending => exact write_moves c outcome
  | refused => exact close_moves c
  | ready =>
    by_cases hsocks : c.socks5 = true
    · simp only [hsocks, if_true]
      refine (hframe _ _).trans (handshake_moves (fun h => ?_) outcome)
      exact absurd hreading (h.readers k)
    · simp only [Bool.eq_false_of_not_eq_true hsocks, Bool.false_eq_true, if_false]
      exact (hframe _ _).trans (login_moves _ outcome)

theorem startTimeout_moves (c : Client) : Moves c c.startTimeout :=
  moves_frame rfl rfl rfl rfl rfl rfl rfl rfl rfl fun _ _ => rfl

/-- A call of the listener that a still client does not make. -/
theorem announce_moves (hstill : ¬ Still c) {call : Call}
    (hstate : t.state = c.state) (hsocket : t.socket = c.socket) (hhandles : t.handles = c.handles)
    (hflag : t.disconnected = c.disconnected) (hcalls : t.calls = c.calls) :
    Moves c (t.emit call) := by
  refine moves_of_not_still hstill hflag (fun entry he => ?_) fun h => ⟨?_, ?_, ?_⟩
  · rcases List.mem_cons.mp he with rfl | hold
    · exact .inr hflag
    · exact .inl (hcalls ▸ hold)
  · rw [show (t.emit call).state = c.state from hstate,
      show (t.emit call).socket = c.socket from hsocket]
    exact h.unconnected
  · rw [show (t.emit call).state = c.state from hstate,
      show (t.emit call).socket = c.socket from hsocket,
      show (t.emit call).handles = c.handles from hhandles]
    exact h.closing
  · rw [show (t.emit call).socket = c.socket from hsocket,
      show (t.emit call).handles = c.handles from hhandles]
    exact h.alive

/-- Lines that announce nothing reconnect, close, or change timers. -/
theorem parseLine_moves {line : Line} (hline : line.announces = false) :
    Moves c (c.parseLine line) := by
  have htimeout := startTimeout_moves c
  unfold Client.parseLine
  cases line with
  | reconnect => exact htimeout.trans (reconnect_moves _)
  | login hasId keepAlive accepts =>
    cases hasId with
    | false => exact htimeout.trans (close_moves _)
    | true =>
      cases accepts with
      | false =>
        have hframe : Moves c.startTimeout { c.startTimeout with extension := keepAlive } :=
          moves_frame rfl rfl rfl rfl rfl rfl rfl rfl rfl fun _ h => h
        exact htimeout.trans (hframe.trans (close_moves _))
      | true => cases hline
  | job accepts =>
    cases accepts with
    | false => exact htimeout.trans (close_moves _)
    | true => cases hline
  | critical => exact htimeout.trans (close_moves _)
  | other => exact htimeout

theorem parse_moves (h : c.parse = some t) : Moves c t := by
  unfold Client.parse at h
  split_ifs at h with hannounce
  · obtain rfl := Option.some.inj h
    exact announce_moves (fun hs => by simp [hs.announce] at hannounce) rfl rfl rfl rfl rfl
  · cases hlines : c.unparsed with
    | nil => simp [hlines] at h
    | cons line rest =>
      simp only [hlines, Option.some.injEq] at h
      obtain rfl := h
      cases hline : line.announces with
      | false =>
        have hdrop : Moves c { c with unparsed := rest } := by
          refine ⟨rfl, fun _ => .inl, fun hb => ⟨hb.unconnected, hb.closing, hb.alive⟩,
            fun hs => ⟨hs.lookup, hs.readers, hs.socket, hs.announce, fun l hl => ?_, hs.failures,
              hs.timer⟩⟩
          exact hs.unparsed l (by simp [hlines, hl])
        exact hdrop.trans (parseLine_moves hline)
      | true =>
        have hstill : ¬ Still c := fun hs => by
          simp [hs.unparsed line (by simp [hlines])] at hline
        cases line with
        | login hasId keepAlive accepts =>
          cases hasId with
          | false => cases hline
          | true =>
            cases accepts with
            | false => cases hline
            | true => exact announce_moves hstill rfl rfl rfl rfl rfl
        | job accepts =>
          cases accepts with
          | false => cases hline
          | true => exact announce_moves hstill rfl rfl rfl rfl rfl
        | _ => cases hline

/-- The close callback leaves no `m_socket`, and a still client still. -/
theorem onClose_moves {k : Nat} (h : c.onClose k = some t) : Moves c t := by
  unfold Client.onClose at h
  dsimp only at h
  split_ifs at h
  obtain rfl := Option.some.inj h
  obtain ⟨hflag, hcalls, hsocket, hhandles, -⟩ :=
    setState_frame { c.setHandle k .closed with socket := none, tls := none } .unconnected
  refine Moves.trans (t := Client.setState
    { c.setHandle k .closed with socket := none, tls := none } .unconnected) ?_ (reconnect_moves _)
  refine ⟨hflag, fun entry he => .inl (hcalls ▸ he), fun _ => ⟨fun _ => hsocket, ?_, ?_⟩,
    fun hs => ?_⟩
  · rw [hsocket]
    unfold Client.setState
    split_ifs with hu
    · exact fun hc => nomatch hu.symm.trans hc
    · exact nofun
  · rw [hsocket]
    exact nofun
  · have hread (j : Nat) : Function.update c.handles k .closed j ≠ .reading := by
      by_cases hjk : j = k
      · simp [hjk]
      · simpa [hjk] using hs.readers j
    unfold Client.setState
    split_ifs with hu
    · exact ⟨hs.lookup, hread, nofun, hs.announce, hs.unparsed, hs.failures,
        fun hc => nomatch hu.symm.trans hc⟩
    · exact ⟨hs.lookup, hread, nofun, hs.announce, hs.unparsed, hs.failures, nofun⟩

/-- The owner's `connect` and the one of `tick`: a new lookup. -/
theorem connect_base (c : Client) (hbase : Base c) :
    c.connect.disconnected = c.disconnected ∧ c.connect.calls = c.calls ∧ Base c.connect := by
  have hresolve (d : Client) (hd : Base d) : d.resolve.disconnected = d.disconnected ∧
      d.resolve.calls = d.calls ∧ Base d.resolve := by
    obtain ⟨hflag, hcalls, -⟩ := setState_frame d .hostLookup
    have hnew := base_setState .hostLookup hd nofun nofun
    exact ⟨hflag, hcalls, hnew.unconnected, hnew.closing, hnew.alive⟩
  unfold Client.connect
  split_ifs
  · exact hresolve _ ⟨hbase.unconnected, hbase.closing, hbase.alive⟩
  · exact hresolve _ ⟨hbase.unconnected, hbase.closing, hbase.alive⟩
  · exact hresolve c hbase

theorem tick_moves (hbase : Base c) (late due : Bool) (outcome : SendOutcome) :
    Moves c (c.tick late due outcome) := by
  unfold Client.tick
  cases hstate : c.state with
  | connected =>
    dsimp only
    split_ifs
    · exact close_moves c
    · refine (send_moves c outcome).1.trans ?_
      exact moves_frame rfl rfl rfl rfl rfl rfl rfl rfl rfl fun _ h => h
    · exact .refl c
  | reconnecting =>
    dsimp only
    split_ifs with hlate
    · obtain ⟨hflag, hcalls, hnew⟩ := connect_base c hbase
      refine moves_of_not_still (fun hs => ?_) hflag (fun entry he => .inl (hcalls ▸ he))
        fun _ => hnew
      simp [hs.timer hstate] at hlate
    · exact .refl c
  | connecting =>
    dsimp only
    split_ifs
    · exact close_moves c
    · exact .refl c
  | _ => exact .refl c

/-- Every step but those of the owner. -/
theorem step_moves {e : Event} (hbase : Base c) (hconnect : e ≠ .connect)
    (hdisconnect : e ≠ .disconnect) (h : step c e = some t) : Moves c t := by
  cases e with
  | connect => exact absurd rfl hconnect
  | disconnect => exact absurd rfl hdisconnect
  | parse => exact parse_moves h
  | resolved ok started =>
    obtain ⟨⟨-, hlookup⟩, ht⟩ := Option.ite_none_right_eq_some.mp h
    obtain rfl := Option.some.inj ht
    exact onResolved_moves hlookup ok started
  | connectDone k ok outcome =>
    obtain ⟨⟨-, hhandle⟩, ht⟩ := Option.ite_none_right_eq_some.mp h
    exact onConnect_moves hhandle ht
  | readError k =>
    obtain ⟨⟨-, hreading⟩, ht⟩ := Option.ite_none_right_eq_some.mp h
    obtain rfl := Option.some.inj ht
    refine Moves.trans (t := c.setHandle k .idle) ?_ (close_moves _)
    exact setHandle_moves nofun (by simp) fun _ ⟨b, hb⟩ => by simp [hreading] at hb
  | readHandshake k progress outcome =>
    obtain ⟨⟨-, hreading, -⟩, ht⟩ := Option.ite_none_right_eq_some.mp h
    obtain rfl := Option.some.inj ht
    exact readHandshake_moves hreading progress outcome
  | readLines k lines =>
    obtain ⟨⟨-, hreading, -⟩, ht⟩ := Option.ite_none_right_eq_some.mp h
    obtain rfl := Option.some.inj ht
    exact moves_of_not_still (fun hs => hs.readers k hreading) rfl (fun _ => .inl)
      fun hb => ⟨hb.unconnected, hb.closing, hb.alive⟩
  | closed k =>
    obtain ⟨-, ht⟩ := Option.ite_none_right_eq_some.mp h
    exact onClose_moves ht
  | tick late due outcome =>
    obtain ⟨-, ht⟩ := Option.ite_none_right_eq_some.mp h
    obtain rfl := Option.some.inj ht
    exact tick_moves hbase late due outcome

end Moves

structure Inv (c : Client) : Prop where
  base : Base c
  still : c.disconnected = true → Still c
  final : Final c

theorem inv_start (pool : Pool) : Inv { pool } where
  base := ⟨fun _ => rfl, nofun, nofun⟩
  still := nofun
  final := nofun

section Inv

variable {c t : Client}

theorem inv_moves (hc : Inv c) (h : Moves c t) : Inv t where
  base := h.base hc.base
  still hflag := h.still (hc.still (h.flag ▸ hflag))
  final entry hentry hflag := by
    rcases h.calls entry hentry with hold | ⟨hsame, hclose⟩
    · exact hc.final entry hold hflag
    · exact hclose (hc.still (hsame ▸ hflag))

/-- After `close` the handle of `m_socket`, if there is one, is closing. -/
theorem close_socket (hbase : Base c) :
    (c.close = c ∧ ∀ k, c.socket = some k → ∃ b, c.handles k = .closing b) ∨
      ∃ k b, c.socket = some k ∧
        c.close = { c with state := .closing, handles := Function.update c.handles k (.closing b) } := by
  unfold Client.close
  split
  case h_1 hsocket => exact .inl ⟨rfl, by simp [hsocket]⟩
  case h_2 k hsocket =>
    split_ifs with hstate
    · refine .inl ⟨rfl, fun j hj => ?_⟩
      have hclosing := hstate.resolve_right fun hu => by simp [hbase.unconnected hu] at hsocket
      obtain ⟨i, b, hi, hb⟩ := hbase.closing hclosing
      obtain rfl : i = j := Option.some.inj (hi.symm.trans hj)
      exact ⟨b, hb⟩
    · obtain ⟨hunused, hclosed⟩ := hbase.alive k hsocket
      obtain ⟨handle, hclose, -, hclosing, -⟩ := uvClose_handles { c with state := .closing } k
      obtain ⟨b, rfl⟩ := hclosing hunused hclosed
      exact .inr ⟨k, b, hsocket, by rw [setState_closing, hclose]; rfl⟩

/-- A quiet client that gave up its failures and its timer is still once it is closed. -/
theorem close_still (hbase : Base c) (hquiet : Quiet c) (hfailures : c.failures = -1)
    (hexpire : c.expire = false) : Still c.close := by
  rcases close_socket hbase with ⟨hclose, hsocket⟩ | ⟨k, b, hsocket, hclose⟩
  · rw [hclose]
    refine ⟨hquiet.lookup, fun k hk => ?_, hsocket, hquiet.announce, hquiet.unparsed, hfailures,
      fun _ => hexpire⟩
    obtain ⟨b, hb⟩ := hsocket k (hquiet.readers k hk)
    rw [hk] at hb
    cases hb
  · rw [hclose]
    refine ⟨hquiet.lookup, fun i hi => ?_, fun i hi => ?_, hquiet.announce, hquiet.unparsed,
      hfailures, nofun⟩
    · by_cases hik : i = k
      · simp [hik] at hi
      · have hread : c.handles i = .reading := by simpa [hik] using hi
        exact hik (Option.some.inj ((hquiet.readers i hread).symm.trans hsocket))
    · obtain rfl : k = i := Option.some.inj (hsocket.symm.trans hi)
      exact ⟨b, by simp⟩

theorem disconnect_still (hbase : Base c) (hquiet : Quiet c) : Still c.disconnect :=
  close_still ⟨hbase.unconnected, hbase.closing, hbase.alive⟩
    ⟨hquiet.lookup, hquiet.readers, hquiet.announce, hquiet.unparsed⟩ rfl rfl

theorem disconnect_frame (hbase : Base c) : c.disconnect.calls = c.calls ∧ Base c.disconnect := by
  have hready : Base { c with keepAlive := false, expire := false, failures := -1 } :=
    ⟨hbase.unconnected, hbase.closing, hbase.alive⟩
  refine ⟨?_, (close_moves _).base hready⟩
  rcases close_socket hready with ⟨hclose, -⟩ | ⟨k, b, -, hclose⟩
  · rw [Client.disconnect, hclose]
  · rw [Client.disconnect, hclose]

theorem inv_step {e : Event} (hc : Inv c) (hguard : DisconnectsQuietly c e)
    (h : step c e = some t) : Inv t := by
  by_cases hconnect : e = .connect
  · subst hconnect
    obtain rfl := Option.some.inj h
    obtain ⟨hflag, hcalls, hnew⟩ := connect_base { c with disconnected := false }
      ⟨hc.base.unconnected, hc.base.closing, hc.base.alive⟩
    refine ⟨hnew, fun hd => by simp [hflag] at hd, fun entry hentry => ?_⟩
    exact hc.final entry (hcalls ▸ hentry)
  by_cases hdisconnect : e = .disconnect
  · subst hdisconnect
    obtain rfl := Option.some.inj h
    have hstill := disconnect_still hc.base hguard
    obtain ⟨hcalls, hnew⟩ := disconnect_frame hc.base
    refine ⟨⟨hnew.unconnected, hnew.closing, hnew.alive⟩, fun _ => ?_, fun entry hentry => ?_⟩
    · exact ⟨hstill.lookup, hstill.readers, hstill.socket, hstill.announce, hstill.unparsed,
        hstill.failures, hstill.timer⟩
    · exact hc.final entry (hcalls ▸ hentry)
  exact inv_moves hc (step_moves hc.base hconnect hdisconnect h)

end Inv

/-- In a run whose disconnects are all quiet, no login is sent and nothing is announced
between a disconnect and the next `connect` of the owner. -/
theorem disconnect_final {pool : Pool} {events : List Event} {c : Client}
    (hrun : Run step DisconnectsQuietly { pool } events c) : Final c :=
  (hrun.invariant (fun _ _ _ hguard hinv hstep => inv_step hinv hguard hstep)
    (inv_start pool)).final

/-- A session that its owner ends after the first job. -/
theorem disconnect_final_session :
    ∃ c : Client, c.calls = [(.close (-1), true), (.jobReceived, false), (.loginSuccess, false),
      (.login, false)] ∧ Final c := by
  have hsession : (exec (guarded (fun _ e => e != .disconnect) step)
      { pool := ⟨false, false, false⟩ } [.connect, .resolved true true,
        .connectDone 0 true .sent, .readLines 0 [.login true false true], .parse,
        .parse]).map (fun c => (c.lookup, c.socket, c.handles, c.announce, c.unparsed)) =
      some (false, some 0, Function.update (Function.update (Function.update
        (fun _ => .unused) 0 .connecting) 0 .connected) 0 .reading, false, []) := rfl
  obtain ⟨c, hc, hfields⟩ := Option.map_eq_some_iff.mp hsession
  simp only [Prod.mk.injEq] at hfields
  obtain ⟨hlookup, hsocket, hhandles, hannounce, hunparsed⟩ := hfields
  have hguard (c : Client) (e : Event) (h : (e != .disconnect) = true) :
      DisconnectsQuietly c e := by
    cases e with
    | disconnect => simp at h
    | _ => trivial
  have hquiet : Quiet c := by
    refine ⟨hlookup, fun k hk => ?_, hannounce, by simp [hunparsed]⟩
    by_cases hzero : k = 0
    · rw [hsocket, hzero]
    · simp [hhandles, hzero] at hk
  have hend : (exec step { pool := ⟨false, false, false⟩ } [.connect, .resolved true true,
      .connectDone 0 true .sent, .readLines 0 [.login true false true], .parse, .parse,
      .disconnect, .closed 0]).map Client.calls = some [(.close (-1), true),
        (.jobReceived, false), (.loginSuccess, false), (.login, false)] := by decide
  obtain ⟨t, ht, hcalls⟩ := Option.map_eq_some_iff.mp hend
  have hrest : exec step c [.disconnect, .closed 0] = some t := by
    have hbefore := exec_of_run (run_of_guarded hguard hc)
    rw [show ([.connect, .resolved true true, .connectDone 0 true .sent,
      .readLines 0 [.login true false true], .parse, .parse, .disconnect, .closed 0] :
        List Event) = [.connect, .resolved true true, .connectDone 0 true .sent,
          .readLines 0 [.login true false true], .parse, .parse] ++ [.disconnect, .closed 0]
      from rfl, exec_append, hbefore, Option.bind_some] at ht
    exact ht
  obtain ⟨m, hm, hlast⟩ := Option.bind_eq_some_iff.mp hrest
  obtain ⟨u, hu, hdone⟩ := Option.bind_eq_some_iff.mp hlast
  obtain rfl := Option.some.inj hdone
  have hclose : Run step DisconnectsQuietly c [.disconnect, .closed 0] u :=
    .cons hquiet hm (.cons trivial hu (.nil u))
  exact ⟨u, hcalls, disconnect_final ((run_of_guarded hguard hc).append hclose)⟩

/-- The lookup that was in flight at the disconnect ends in a login. -/
theorem disconnect_during_lookup :
    ¬ ∀ (pool : Pool) (events : List Event) (c : Client),
      exec step { pool } events = some c → Final c := by
  intro h
  have hlate := h ⟨false, false, false⟩ [.connect, .disconnect, .resolved true true,
    .connectDone 0 true .sent] _ rfl (.login, true) (by decide) rfl
  cases hlate

end VeloxHash.ClientConnection
