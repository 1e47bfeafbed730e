import VeloxHash.JsonText
import VeloxHash.Splice
import VeloxHash.TransitionSystem

/-! How a stratum `Client` puts its requests into `m_sendBuf`: documents through the writer of the
JSON library, the keepalive through `snprintf`. -/

namespace VeloxHash.ClientFraming

open JsonText Splice TransitionSystem

/-- A JSON value as far as requests use it: they have no floating-point number. -/
inductive Value
  | null
  | bool (b : Bool)
  | int (i : Int)
  | string (s : List UInt8)
  | array (elements : List Value)
  | object (members : List (List UInt8 × Value))

section Writer

def hexDigits : List UInt8 := ascii "0123456789ABCDEF"

/-- One byte of a string as `WriteString` writes it. -/
def escape (c : UInt8) : List UInt8 :=
  if c = 34 ∨ c = 92 then [92, c]
  else if c = 8 then [92, 98]
  else if c = 9 then [92, 116]
  else if c = 10 then [92, 110]
  else if c = 12 then [92, 102]
  else if c = 13 then [92, 114]
  else if c < 32 then
    [92, 117, 48, 48, hexDigits.getD (c >>> 4).toNat 0, hexDigits.getD (c &&& 15).toNat 0]
  else [c]

def writeString (s : List UInt8) : List UInt8 := quoted (s.flatMap escape)

mutual

def write : Value → List UInt8
  | .null => ascii "null"
  | .bool true => ascii "true"
  | .bool false => ascii "false"
  | .int i => integer i
  | .string s => writeString s
  | .array elements => 91 :: writeElements elements ++ [93]
  | .object members => 123 :: writeMembers members ++ [125]

def writeElements : List Value → List UInt8
  | [] => []
  | [v] => write v
  | v :: w :: rest => write v ++ 44 :: writeElements (w :: rest)

def writeMembers : List (List UInt8 × Value) → List UInt8
  | [] => []
  | [(k, v)] => writeString k ++ 58 :: write v
  | (k, v) :: m :: rest => writeString k ++ 58 :: write v ++ 44 :: writeMembers (m :: rest)

end

theorem escape_of_plain {c : UInt8} (h : Plain c) : escape c = [c] := by
  obtain ⟨hlow, hquote, hslash⟩ := h
  have hne (d : UInt8) (hd : d < 32) : c ≠ d := fun heq => absurd hlow (heq ▸ UInt8.not_le.mpr hd)
  rw [escape, if_neg (not_or.mpr ⟨hquote, hslash⟩), if_neg (hne 8 (by decide)),
    if_neg (hne 9 (by decide)), if_neg (hne 10 (by decide)), if_neg (hne 12 (by decide)),
    if_neg (hne 13 (by decide)), if_neg (UInt8.not_lt.mpr hlow)]

theorem hexDigits_isHexDigit : ∀ i < 16, IsHexDigit (hexDigits.getD i 0) := by
  unfold IsHexDigit IsDigit
  decide +kernel

theorem chars_escape (c : UInt8) : Chars (escape c) := by
  have hshort {d : UInt8} (hd : d ∈ shortEscapes) : Chars [92, d] := .short hd .nil
  have hzero : IsHexDigit 48 := hexDigits_isHexDigit 0 (by decide)
  unfold escape
  split
  next h =>
    refine hshort ?_
    rcases h with rfl | rfl <;> decide +kernel
  next h =>
    split
    · exact hshort (by decide +kernel)
    split
    · exact hshort (by decide +kernel)
    split
    · exact hshort (by decide +kernel)
    split
    · exact hshort (by decide +kernel)
    split
    · exact hshort (by decide +kernel)
    split
    next hlow =>
      have hlt := c.toNat_lt
      refine .unicode hzero hzero (hexDigits_isHexDigit _ ?_) (hexDigits_isHexDigit _ ?_) .nil
      · rw [UInt8.toNat_shiftRight, Nat.shiftRight_eq_div_pow]
        exact Nat.div_lt_of_lt_mul hlt
      · rw [UInt8.toNat_and]
        exact Nat.lt_succ_of_le Nat.and_le_right
    next hlow => exact .plain ⟨UInt8.not_lt.mp hlow, not_or.mp h⟩ .nil

theorem chars_writeString (s : List UInt8) : Chars (s.flatMap escape) := by
  induction s with
  | nil => exact .nil
  | cons c s ih => exact chars_append (chars_escape c) ih

mutual

/-- The writer spells documents. -/
theorem isValue_write : ∀ v : Value, IsValue (write v)
  | .null => .null
  | .bool true => .true
  | .bool false => .false
  | .int i => integer_spec i
  | .string s => .string (chars_writeString s)
  | .array [] => .emptyArray
  | .array (v :: rest) => .array (elements_write (v :: rest) (List.cons_ne_nil v rest))
  | .object [] => .emptyObject
  | .object (m :: rest) => .object (members_write (m :: rest) (List.cons_ne_nil m rest))

theorem elements_write : ∀ l : List Value, l ≠ [] → Elements (writeElements l)
  | [], h => absurd rfl h
  | [v], _ => .last (isValue_write v)
  | v :: w :: rest, _ =>
    .cons (isValue_write v) (elements_write (w :: rest) (List.cons_ne_nil w rest))

theorem members_write : ∀ l : List (List UInt8 × Value), l ≠ [] → Members (writeMembers l)
  | [], h => absurd rfl h
  | [(k, v)], _ => .last (chars_writeString k) (isValue_write v)
  | (k, v) :: m :: rest, _ =>
    .cons (chars_writeString k) (isValue_write v)
      (members_write (m :: rest) (List.cons_ne_nil m rest))

end

end Writer

/-- One call of `send(size)`, with `m_sendBuf` at that moment. -/
structure Call where
  size : Nat
  buf : List UInt8

/-- The call sends one document and a newline, all of it from the buffer. -/
def Call.Framed (call : Call) : Prop :=
  call.size ≤ call.buf.length ∧ ∃ doc, IsValue doc ∧ call.buf.take call.size = doc ++ [10]

/-- `sent` lists the calls, the last one first. -/
structure Client where
  sendBuf : List UInt8
  sequence : Int
  rpcId : Option (List UInt8)
  sent : List Call

def start (sequence : Int) : Client := ⟨List.replicate 1024 0, sequence, none, []⟩

def kMaxSendBufferSize : Nat := 1024 * 16

namespace Client

/-- `send(size)`, which counts the request if it could be sent. -/
def sendSize (c : Client) (size : Nat) (done : Bool) : Client :=
  { c with
    sent := ⟨size, c.sendBuf⟩ :: c.sent
    sequence := if done then c.sequence + 1 else c.sequence }

/-- `std::vector::resize`. -/
def resize (buf : List UInt8) (n : Nat) : List UInt8 :=
  (buf ++ List.replicate (n - buf.length) 0).take n

/-- `send(obj)`; a document that is too long closes the connection instead. -/
def send (c : Client) (obj : Value) (done : Bool) : Client :=
  let text := write obj
  let size := text.length
  if kMaxSendBufferSize < size then c
  else
    let sendBuf :=
      if c.sendBuf.length - 2 < size then resize c.sendBuf (((size + 1) / 1024 + 1) * 1024)
      else c.sendBuf
    sendSize { c with sendBuf := splice sendBuf 0 (text ++ [10, 0]) } (size + 1) done

/-- What `%s` prints of a null pointer. -/
def nullId : List UInt8 := ascii "(null)"

/-- The line that `ping` prints, with the id as it is. -/
def keepalive (c : Client) : List UInt8 :=
  ascii "\x7b\"id\":" ++ integer c.sequence ++
    ascii ",\"jsonrpc\":\"2.0\",\"method\":\"keepalived\",\"params\":\x7b\"id\":\"" ++
    c.rpcId.getD nullId ++ ascii "\"\x7d\x7d\n"

/-- The buffer after `snprintf`, which returns the length of the whole text. -/
def snprintf (buf text : List UInt8) : List UInt8 :=
  splice buf 0 (text.take (buf.length - 1) ++ [0])

def ping (c : Client) (done : Bool) : Client :=
  sendSize { c with sendBuf := snprintf c.sendBuf c.keepalive } c.keepalive.length done

/-- `setRpcId` with the string of a login reply, which ends at its first zero byte. -/
def setRpcId (c : Client) (id : Option (List UInt8)) : Client :=
  { c with rpcId := id.map (·.takeWhile (· ≠ 0)) }

end Client

/-- Requests of all kinds are a `send`; `others` are requests of other clients. -/
inductive Event
  | login (id : Option (List UInt8))
  | send (obj : Value) (done : Bool)
  | ping (done : Bool)
  | others (n : Nat)

def step (c : Client) : Event → Option Client
  | .login id => some (c.setRpcId id)
  | .send obj done => some (c.send obj done)
  | .ping done => some (c.ping done)
  | .others n => some { c with sequence := c.sequence + n }

/-- The keepalive is shorter than the buffer, and the id needs no escape in it. -/
def PingFits (c : Client) : Event → Prop
  | .ping _ => c.keepalive.length < c.sendBuf.length ∧ ∀ b ∈ c.rpcId.getD Client.nullId, Plain b
  | _ => True

section Calls

variable {c t : Client} {e : Event}

structure Inv (c : Client) : Prop where
  room : 1024 ≤ c.sendBuf.length
  framed : ∀ call ∈ c.sent, call.Framed

theorem inv_start (sequence : Int) : Inv (start sequence) :=
  ⟨List.length_replicate.ge, nofun⟩

theorem Inv.sendSize (h : Inv c) {buf : List UInt8} (hbuf : 1024 ≤ buf.length) {size : Nat}
    (hcall : Call.Framed ⟨size, buf⟩) (done : Bool) :
    Inv (Client.sendSize { c with sendBuf := buf } size done) where
  room := hbuf
  framed := List.forall_mem_cons.mpr ⟨hcall, h.framed⟩

theorem length_resize (buf : List UInt8) (n : Nat) : (Client.resize buf n).length = n := by
  rw [Client.resize, List.length_take, List.length_append, List.length_replicate]
  omega

/-- A text at the front of a buffer that has room for it. -/
theorem take_splice (buf text rest : List UInt8) :
    (splice buf 0 (text ++ rest)).take text.length = text := by
  rw [splice, List.take_zero, List.nil_append, List.append_assoc, List.take_left]

theorem Inv.send (h : Inv c) (obj : Value) (done : Bool) : Inv (c.send obj done) := by
  unfold Client.send
  dsimp only
  split
  · exact h
  · have hroom := h.room
    generalize hbuf : (if c.sendBuf.length - 2 < (write obj).length then
      Client.resize c.sendBuf ((((write obj).length + 1) / 1024 + 1) * 1024) else c.sendBuf) = buf
    have hlength : 1024 ≤ buf.length ∧ (write obj).length + 2 ≤ buf.length := by
      rw [← hbuf]
      split
      · rw [length_resize]
        omega
      · omega
    have hsplice : (splice buf 0 (write obj ++ [10, 0])).length = buf.length := by
      refine length_splice ?_
      rw [Nat.zero_add, List.length_append]
      exact hlength.2
    refine h.sendSize (hsplice ▸ hlength.1) ⟨?_, write obj, isValue_write obj, ?_⟩ done
    · rw [hsplice]
      exact (Nat.le_succ _).trans hlength.2
    · have htake := take_splice buf (write obj ++ [10]) [0]
      rwa [List.append_assoc, List.length_append] at htake

/-- The document that a keepalive should be. -/
def keepaliveRequest (c : Client) : Value := .object [
  (ascii "id", .int c.sequence), (ascii "jsonrpc", .string (ascii "2.0")),
  (ascii "method", .string (ascii "keepalived")),
  (ascii "params", .object [(ascii "id", .string (c.rpcId.getD Client.nullId))])]

theorem writeString_of_plain {s : List UInt8} (h : ∀ b ∈ s, Plain b) :
    writeString s = quoted s := by
  rw [writeString, List.flatMap_congr fun b hb => escape_of_plain (h b hb)]
  exact congrArg quoted (List.flatMap_singleton' s)

/-- With no byte to escape, `ping` prints that document. -/
theorem keepalive_eq (hplain : ∀ b ∈ c.rpcId.getD Client.nullId, Plain b) :
    c.keepalive = write (keepaliveRequest c) ++ [10] := by
  have hopen : ascii "\x7b\"id\":" = 123 :: writeString (ascii "id") ++ [58] := by decide +kernel
  have hmiddle : ascii ",\"jsonrpc\":\"2.0\",\"method\":\"keepalived\",\"params\":\x7b\"id\":\"" =
      44 :: writeString (ascii "jsonrpc") ++ 58 :: writeString (ascii "2.0") ++
      44 :: writeString (ascii "method") ++ 58 :: writeString (ascii "keepalived") ++
      44 :: writeString (ascii "params") ++ 58 :: 123 :: writeString (ascii "id") ++ [58, 34] := by
    decide +kernel
  have hclose : ascii "\"\x7d\x7d\n" = [34, 125, 125, 10] := by decide +kernel
  rw [Client.keepalive, keepaliveRequest, hopen, hmiddle, hclose]
  simp only [write, writeMembers, writeString_of_plain hplain]
  simp only [quoted, List.append_assoc, List.cons_append, List.nil_append]

theorem Inv.ping (h : Inv c) (hlt : c.keepalive.length < c.sendBuf.length)
    (hplain : ∀ b ∈ c.rpcId.getD Client.nullId, Plain b) (done : Bool) : Inv (c.ping done) := by
  have hroom := h.room
  have htext : c.keepalive.take (c.sendBuf.length - 1) = c.keepalive :=
    List.take_of_length_le (by omega)
  have hsplice : (splice c.sendBuf 0 (c.keepalive ++ [0])).length = c.sendBuf.length := by
    refine length_splice ?_
    rw [Nat.zero_add, List.length_append]
    exact hlt
  unfold Client.ping Client.snprintf
  rw [htext]
  refine h.sendSize (hsplice ▸ hroom) ⟨hsplice ▸ hlt.le, write (keepaliveRequest c),
    isValue_write _, ?_⟩ done
  exact (take_splice c.sendBuf c.keepalive [0]).trans (keepalive_eq hplain)

theorem inv_step (h : Inv c) (hfits : PingFits c e) (hstep : step c e = some t) : Inv t := by
  cases e with
  | login id =>
    cases hstep
    exact ⟨h.room, h.framed⟩
  | send obj done =>
    cases hstep
    exact h.send obj done
  | ping done =>
    cases hstep
    exact h.ping hfits.1 hfits.2 done
  | others n =>
    cases hstep
    exact ⟨h.room, h.framed⟩

/-- In every run whose keepalives fit, every call of `send(size)` stays in the buffer and sends one
document and a newline. -/
theorem calls_framed {sequence : Int} {es : List Event}
    (hrun : Run step PingFits (start sequence) es c) : ∀ call ∈ c.sent, call.Framed :=
  (hrun.invariant (fun _ _ _ hp hi hs => inv_step hi hp hs) (inv_start sequence)).framed

/-- A login, a request and a keepalive. -/
theorem calls_framed_two :
    ∃ c : Client, c.sent.length = 2 ∧ ∀ call ∈ c.sent, call.Framed := by
  let c := (start 1).setRpcId (some (ascii "f00"))
  have hfits : PingFits (c.send (.object []) true) (.ping true) := by
    refine ⟨?_, ?_⟩
    · decide +kernel
    · decide +kernel
  have hping : Run step PingFits (c.send (.object []) true) [.ping true]
      ((c.send (.object []) true).ping true) := .cons hfits rfl (.nil _)
  have hsend : Run step PingFits c [.send (.object []) true, .ping true]
      ((c.send (.object []) true).ping true) := .cons trivial rfl hping
  have hrun : Run step PingFits (start 1)
      [.login (some (ascii "f00")), .send (.object []) true, .ping true]
      ((c.send (.object []) true).ping true) := .cons trivial rfl hsend
  exact ⟨_, rfl, calls_framed hrun⟩

/-- An id of the pool that the first buffer has no room for. -/
theorem keepalive_overflow : ∃ c,
    exec step (start 1) [.login (some (List.replicate 1000 97)), .ping true] = some c ∧
    ∃ call ∈ c.sent, call.buf.length < call.size ∧ ¬ call.Framed := by
  refine ⟨_, rfl, _, List.mem_cons_self, ?_, fun h => ?_⟩
  · decide +kernel
  · exact absurd h.1 (by decide +kernel)

end Calls

end VeloxHash.ClientFraming
