import VeloxHash.CodeBuffer
import VeloxHash.DaemonClient

/-! What a conforming daemon sends over a ZMQ connection, and what `ZMQRead` makes of it for
every way of splitting it into reads. `ZMQParse` takes at most one message from each read. -/

namespace VeloxHash.ZmqStream

open CodeBuffer DaemonClient

/-- A frame of a message; its size takes one byte or eight. -/
structure Frame where
  long : Bool
  payload : List UInt8
  fits : long = true ∨ payload.length < 256

def Frame.flags (f : Frame) (more : Bool) : UInt8 :=
  (if more then 1 else 0) ||| (if f.long then 2 else 0)

def Frame.sizeField (f : Frame) : List UInt8 := (le f.payload.length (if f.long then 8 else 1)).reverse

def Frame.encode (f : Frame) (more : Bool) : List UInt8 := f.flags more :: (f.sizeField ++ f.payload)

def encodeFrames (frames : List Frame) (last : Frame) : List UInt8 :=
  frames.flatMap (·.encode true) ++ last.encode false

def payloadSize (frames : List Frame) : Nat := (frames.map (·.payload.length)).sum

structure Message where
  frames : List Frame
  last : Frame
  fits : payloadSize frames + last.payload.length ≤ 1024

def Message.encode (m : Message) : List UInt8 := encodeFrames m.frames m.last

section Frames

variable {f : Frame} {more : Bool} {rest : List UInt8}

theorem flags_more (f : Frame) (more : Bool) : (f.flags more &&& 1 ≠ 0) = (more = true) := by
  unfold Frame.flags
  cases more <;> cases f.long <;> decide

theorem flags_long (f : Frame) (more : Bool) : (f.flags more &&& 2 ≠ 0) = (f.long = true) := by
  unfold Frame.flags
  cases more <;> cases f.long <;> decide

theorem flags_command (f : Frame) (more : Bool) : f.flags more &&& 4 = 0 := by
  unfold Frame.flags
  cases more <;> cases f.long <;> decide

theorem length_sizeField (f : Frame) : f.sizeField.length = if f.long then 8 else 1 := by
  rw [Frame.sizeField, List.length_reverse, length_le]

/-- Big-endian bytes, read from the left. -/
theorem foldl_reverse_le (v n : Nat) :
    (le v n).reverse.foldl (fun n b => n * 256 + b.toNat) 0 = v % 256 ^ n := by
  rw [← ofLe_le, List.foldl_reverse]
  induction le v n with
  | nil => rfl
  | cons b bytes ih => rw [List.foldr_cons, ih, ofLe]; ring

theorem frameSize_encode (f : Frame) (more : Bool) (rest : List UInt8)
    (h : f.payload.length ≤ 1024) :
    frameSize (f.flags more) (f.sizeField ++ rest) = some (f.payload.length, rest) := by
  have hlength := length_sizeField f
  have hwidth : (if f.flags more &&& 2 ≠ 0 then 8 else 1) = f.sizeField.length := by
    simp only [flags_long, hlength]
  have hfits : f.payload.length < 256 ^ (if f.long then 8 else 1) := by
    rcases f.fits with hlong | hshort
    · rw [if_pos hlong]
      omega
    · split <;> omega
  have henough : ¬ (f.sizeField ++ rest).length < f.sizeField.length := by
    rw [List.length_append]
    omega
  unfold frameSize
  dsimp only
  rw [hwidth, if_neg henough, List.take_left, List.drop_left, Frame.sizeField, foldl_reverse_le,
    Nat.mod_eq_of_lt hfits]

theorem frameSize_short (f : Frame) (more : Bool) {data : List UInt8}
    (h : data.length < f.sizeField.length) : frameSize (f.flags more) data = none := by
  unfold frameSize
  simp only [flags_long, ← length_sizeField]
  exact if_pos h

variable {msgSize fuel k : Nat}

theorem scanFrames_encode (h : msgSize + f.payload.length ≤ 1024) :
    scanFrames (fuel + 1) (f.encode more ++ rest) msgSize =
      if more then scanFrames fuel rest (msgSize + f.payload.length) else .complete rest := by
  rw [Frame.encode, List.cons_append, List.append_assoc, scanFrames,
    frameSize_encode f more _ (by omega)]
  dsimp only
  rw [if_neg (by omega), if_neg (by rw [List.length_append]; omega), List.drop_left]
  simp only [flags_more, flags_command, if_true]

theorem scanFrames_nil (fuel msgSize : Nat) : scanFrames fuel [] msgSize = .incomplete := by
  cases fuel <;> rfl

/-- A frame that has not arrived whole. -/
theorem scanFrames_take (h : msgSize + f.payload.length ≤ 1024) (hk : k < (f.encode more).length) :
    scanFrames fuel ((f.encode more).take k) msgSize = .incomplete := by
  match fuel, k with
  | 0, _ => rfl
  | _, 0 => rw [List.take_zero, scanFrames_nil]
  | fuel + 1, k + 1 =>
    rw [Frame.encode, List.length_cons, List.length_append] at hk
    rw [Frame.encode, List.take_succ_cons, scanFrames]
    by_cases hsize : k < f.sizeField.length
    · rw [frameSize_short f more (by rw [List.length_take]; omega)]
    · rw [List.take_append, List.take_of_length_le (by omega), frameSize_encode f more _ (by omega)]
      dsimp only
      rw [if_neg (by omega), if_pos (by rw [List.length_take]; omega)]

end Frames

section Messages

variable {frames : List Frame} {last : Frame} {rest : List UInt8} {msgSize fuel k : Nat}

theorem scanFrames_message (h : msgSize + payloadSize frames + last.payload.length ≤ 1024)
    (hfuel : frames.length < fuel) :
    scanFrames fuel (encodeFrames frames last ++ rest) msgSize = .complete rest := by
  induction frames generalizing fuel msgSize with
  | nil =>
    obtain ⟨fuel, rfl⟩ := Nat.exists_eq_add_one_of_ne_zero (Nat.ne_zero_of_lt hfuel)
    exact scanFrames_encode (by simpa [payloadSize] using h)
  | cons f frames ih =>
    obtain ⟨fuel, rfl⟩ := Nat.exists_eq_add_one_of_ne_zero (Nat.ne_zero_of_lt hfuel)
    rw [payloadSize, List.map_cons, List.sum_cons, ← payloadSize] at h
    rw [List.length_cons] at hfuel
    have hcons : encodeFrames (f :: frames) last ++ rest =
        f.encode true ++ (encodeFrames frames last ++ rest) := by
      simp only [encodeFrames, List.flatMap_cons, List.append_assoc]
    rw [hcons, scanFrames_encode (by omega), if_pos rfl]
    exact ih (by omega) (by omega)

theorem scanFrames_partial (h : msgSize + payloadSize frames + last.payload.length ≤ 1024)
    (hk : k < (encodeFrames frames last).length) :
    scanFrames fuel ((encodeFrames frames last).take k) msgSize = .incomplete := by
  induction frames generalizing fuel msgSize k with
  | nil => exact scanFrames_take (by simpa [payloadSize] using h) hk
  | cons f frames ih =>
    rw [payloadSize, List.map_cons, List.sum_cons, ← payloadSize] at h
    have hcons : encodeFrames (f :: frames) last = f.encode true ++ encodeFrames frames last := by
      simp only [encodeFrames, List.flatMap_cons, List.append_assoc]
    rw [hcons] at hk ⊢
    rw [List.take_append]
    by_cases hframe : k < (f.encode true).length
    · rw [show k - (f.encode true).length = 0 by omega, List.take_zero, List.append_nil]
      exact scanFrames_take (by omega) hframe
    · rw [List.take_of_length_le (by omega)]
      cases fuel with
      | zero => rfl
      | succ fuel =>
        rw [scanFrames_encode (by omega), if_pos rfl]
        rw [List.length_append] at hk
        exact ih (by omega) (by omega)

theorem length_lt_encodeFrames (frames : List Frame) (last : Frame) :
    frames.length < (encodeFrames frames last).length := by
  induction frames with
  | nil => simp [encodeFrames, Frame.encode]
  | cons f frames ih =>
    simp only [encodeFrames, List.flatMap_cons, List.append_assoc, List.length_append,
      Frame.encode, List.length_cons] at ih ⊢
    omega

theorem length_encode_pos (m : Message) : 0 < m.encode.length :=
  Nat.zero_lt_of_lt (length_lt_encodeFrames m.frames m.last)

theorem scanMessage_encode (m : Message) (rest : List UInt8) :
    scanMessage (m.encode ++ rest) = .complete rest := by
  refine scanFrames_message (by simpa using m.fits) ?_
  have hframes := length_lt_encodeFrames m.frames m.last
  rw [List.length_append]
  exact Nat.lt_add_right _ hframes

theorem scanMessage_take (m : Message) (hk : k < m.encode.length) :
    scanMessage (m.encode.take k) = .incomplete := scanFrames_partial (by simpa using m.fits) hk

end Messages

def wire (messages : List Message) : List UInt8 := messages.flatMap Message.encode

/-- How many messages end within the first `room` bytes. -/
def arrived : List Message → Nat → Nat
  | [], _ => 0
  | m :: messages, room =>
    if m.encode.length ≤ room then arrived messages (room - m.encode.length) + 1 else 0

/-- A greeting and a handshake of ZMTP 3 without security, and messages. -/
structure Session where
  greeting : List UInt8
  ready : List UInt8
  messages : List Message
  length_greeting : greeting.length = 64
  signature : greeting[0]? = some 0xff ∧ greeting[9]? = some 0x7f
  version : greeting[10]? = some 3
  mechanism : (greeting.drop 12).take 20 = (DaemonClient.greeting.drop 12).take 20
  length_ready : 18 ≤ ready.length ∧ ready.length < 256
  socketType : ready.take 18 = (DaemonClient.handshake.drop 2).take 18

namespace Session

def handshake (s : Session) : List UInt8 := 4 :: UInt8.ofNat s.ready.length :: s.ready

def opening (s : Session) : List UInt8 := s.greeting ++ s.handshake

def stream (s : Session) : List UInt8 := s.opening ++ wire s.messages

/-- How many messages are complete after `r` bytes. -/
def arrivedBy (s : Session) (r : Nat) : Nat := arrived s.messages (r - s.opening.length)

end Session

section Scans

variable {s : Session} {messages : List Message} {m : Message} {rest : List UInt8} {r k : Nat}

theorem arrived_le (messages : List Message) (room : Nat) : arrived messages room ≤ messages.length := by
  induction messages generalizing room with
  | nil => exact le_rfl
  | cons m messages ih =>
    rw [arrived]
    split
    · exact Nat.succ_le_succ (ih _)
    · exact Nat.zero_le _

@[simp] theorem wire_nil : wire [] = [] := rfl

@[simp] theorem wire_cons (m : Message) (messages : List Message) :
    wire (m :: messages) = m.encode ++ wire messages := rfl

theorem wire_append (done messages : List Message) :
    wire (done ++ messages) = wire done ++ wire messages := List.flatMap_append

theorem arrived_append (done : List Message) {room : Nat} (h : (wire done).length ≤ room) :
    arrived (done ++ messages) room = done.length + arrived messages (room - (wire done).length) := by
  induction done generalizing room with
  | nil => simp [wire]
  | cons m done ih =>
    rw [wire_cons, List.length_append] at h
    rw [List.cons_append, arrived, if_pos (by omega), ih (by omega), wire_cons,
      List.length_append, List.length_cons, Nat.sub_add_eq]
    omega

theorem scanMessage_wire (m : Message) (messages : List Message) (k : Nat) :
    scanMessage ((wire (m :: messages)).take k) =
      if m.encode.length ≤ k then .complete ((wire messages).take (k - m.encode.length))
      else .incomplete := by
  rw [wire_cons, List.take_append]
  split
  case isTrue h => rw [List.take_of_length_le h, scanMessage_encode]
  case isFalse h =>
    rw [show k - m.encode.length = 0 by omega, List.take_zero, List.append_nil,
      scanMessage_take m (by omega)]

theorem stream_eq (s : Session) : s.stream = s.greeting ++ (s.handshake ++ wire s.messages) :=
  List.append_assoc ..

theorem length_handshake (s : Session) : s.handshake.length = s.ready.length + 2 := rfl

theorem take_getElem? (hr : 11 ≤ r) {i : Nat} (hi : i < 11) :
    (s.stream.take r)[i]? = s.greeting[i]? := by
  have := s.length_greeting
  rw [List.getElem?_take_of_lt (by omega), stream_eq, List.getElem?_append_left (by omega)]

theorem scanGreeting1_take (hr : r ≤ s.stream.length) :
    scanGreeting1 (s.stream.take r) = if r < 11 then .incomplete else .complete (s.stream.take r) := by
  unfold scanGreeting1 greetingSize1
  rw [List.length_take, min_eq_left hr]
  by_cases hshort : r < 11
  · rw [if_pos hshort, if_pos hshort]
  · have h11 : 11 ≤ r := by omega
    rw [if_neg hshort, if_neg hshort, take_getElem? h11 (by omega), take_getElem? h11 (by omega),
      take_getElem? h11 (by omega), if_pos ⟨s.signature.1, s.signature.2, s.version⟩]

theorem scanGreeting2_take (hr : r ≤ s.stream.length) :
    scanGreeting2 (s.stream.take r) =
      if r < 64 then .incomplete else .complete ((s.handshake ++ wire s.messages).take (r - 64)) := by
  have hgreeting := s.length_greeting
  have hlength : DaemonClient.greeting.length = 64 := rfl
  unfold scanGreeting2
  rw [List.length_take, min_eq_left hr, hlength]
  by_cases hshort : r < 64
  · rw [if_pos hshort, if_pos hshort]
  · have hsplit : s.stream.take r =
        s.greeting ++ (s.handshake ++ wire s.messages).take (r - 64) := by
      rw [stream_eq, List.take_append, List.take_of_length_le (by omega), hgreeting]
    have hmechanism : ((s.stream.take r).drop 12).take 20 =
        (DaemonClient.greeting.drop 12).take 20 := by
      rw [hsplit, List.drop_append_of_le_length (by omega),
        List.take_append_of_le_length (by rw [List.length_drop]; omega), s.mechanism]
    rw [if_neg hshort, if_neg hshort, if_pos hmechanism, hsplit, List.drop_left' hgreeting]

theorem scanHandshake_take (rest : List UInt8) (hk : k ≤ (s.handshake ++ rest).length) :
    scanHandshake ((s.handshake ++ rest).take k) =
      if k < s.handshake.length then .incomplete
      else .complete (rest.take (k - s.handshake.length)) := by
  obtain ⟨hlow, hhigh⟩ := s.length_ready
  rw [length_handshake]
  rw [List.length_append, length_handshake] at hk
  match k with
  | 0 => rfl
  | 1 =>
    rw [if_pos (by omega)]
    rfl
  | k + 2 =>
    have hsize : (UInt8.ofNat s.ready.length).toNat = s.ready.length := by
      rw [UInt8.toNat_ofNat', Nat.mod_eq_of_lt hhigh]
    have hbig : ¬ UInt8.ofNat s.ready.length < 18 := by
      rw [UInt8.lt_iff_toNat_lt, hsize]
      exact Nat.not_lt.mpr hlow
    have htake : (s.handshake ++ rest).take (k + 2) =
        4 :: UInt8.ofNat s.ready.length :: (s.ready ++ rest).take k := rfl
    have hlength : ((s.ready ++ rest).take k).length = k := by
      rw [List.length_take, List.length_append]
      omega
    have htag : ¬ ((4 : UInt8) ≠ 4 ∨ UInt8.ofNat s.ready.length < 18) :=
      not_or.mpr ⟨not_not.mpr rfl, hbig⟩
    rw [htake, scanHandshake, if_neg htag, hlength, hsize]
    by_cases hshort : k < s.ready.length
    · rw [if_pos hshort, if_pos (by omega)]
    · have hready : (s.ready ++ rest).take k = s.ready ++ rest.take (k - s.ready.length) := by
        rw [List.take_append, List.take_of_length_le (by omega)]
      have hlate : ¬ k + 2 < s.ready.length + 2 := by omega
      rw [if_neg hshort, if_neg hlate, hready, List.take_append_of_le_length hlow,
        s.socketType, if_pos rfl, List.drop_left, Nat.add_sub_add_right]

end Scans

/-- How many height requests the client has sent. -/
def heights (c : Client) : Nat := c.calls.count (.request .getHeight)

/-- Every write succeeds. -/
def written : Client.Writes := ⟨true, true, true⟩

/-- After the handshake, when `r` bytes have come: the messages that were answered, on top of
`n` requests, and those that are left. -/
structure Connected (s : Session) (r n : Nat) (done rest : List Message) (c : Client) : Prop where
  split : s.messages = done ++ rest
  room : s.opening.length + (wire done).length ≤ r
  state : c.zmq = .connected
  buf : c.zmqRecvBuf = (wire rest).take (r - s.opening.length - (wire done).length)
  heights : heights c = n + done.length

/-- Before the end of the handshake. -/
structure Opening (s : Session) (r n : Nat) (c : Client) : Prop where
  short : r < s.opening.length
  heights : heights c = n
  stage : r < 11 ∧ c.zmq = .greeting1 ∧ c.zmqRecvBuf = s.stream.take r ∨
    11 ≤ r ∧ r < 64 ∧ c.zmq = .greeting2 ∧ c.zmqRecvBuf = s.stream.take r ∨
    64 ≤ r ∧ c.zmq = .handshake ∧ c.zmqRecvBuf = (s.handshake ++ wire s.messages).take (r - 64)

/-- `k` messages were answered. -/
def At (s : Session) (r n k : Nat) (c : Client) : Prop :=
  k = 0 ∧ Opening s r n c ∨ ∃ done rest, done.length = k ∧ Connected s r n done rest c

section Reads

variable {s : Session} {r n k : Nat} {c : Client} {done rest : List Message}

/-- What one call of `ZMQParse` does. -/
theorem zmqParse_connected (h : Connected s r n done rest c) :
    At s r n (if done.length < s.arrivedBy r then done.length + 1 else done.length) c.zmqParse := by
  have hroom := h.room
  have harrived : s.arrivedBy r = done.length +
      arrived rest (r - s.opening.length - (wire done).length) := by
    rw [Session.arrivedBy, h.split, arrived_append done (by omega)]
  rw [harrived]
  cases rest with
  | nil =>
    have hscan : scanMessage c.zmqRecvBuf = .incomplete := by
      rw [h.buf, wire_nil, List.take_nil]
      rfl
    have hsame : c.zmqParse = c := by rw [Client.zmqParse, hscan]
    rw [hsame, arrived, if_neg (by omega)]
    exact .inr ⟨done, [], rfl, h⟩
  | cons m rest =>
    have hscan := scanMessage_wire m rest (r - s.opening.length - (wire done).length)
    rw [← h.buf] at hscan
    rw [arrived]
    by_cases hwhole : m.encode.length ≤ r - s.opening.length - (wire done).length
    · rw [if_pos hwhole] at hscan
      rw [if_pos hwhole, if_pos (by omega)]
      refine .inr ⟨done ++ [m], rest, by simp, ?_⟩
      have hlength : (wire (done ++ [m])).length = (wire done).length + m.encode.length := by
        rw [wire_append, List.length_append, wire_cons, wire_nil, List.append_nil]
      have hparse : c.zmqParse.zmq = c.zmq ∧ c.zmqParse.zmqRecvBuf =
          (wire rest).take (r - s.opening.length - (wire done).length - m.encode.length) ∧
          VeloxHash.ZmqStream.heights c.zmqParse = VeloxHash.ZmqStream.heights c + 1 := by
        rw [Client.zmqParse, hscan]
        exact ⟨rfl, rfl, List.count_cons_self⟩
      obtain ⟨hstate, hbuf, hheights⟩ := hparse
      refine ⟨by rw [h.split, List.append_assoc]; rfl, by omega, hstate.trans h.state, ?_, ?_⟩
      · rw [hbuf, hlength, Nat.sub_add_eq]
      · rw [hheights, h.heights, List.length_append, List.length_singleton, Nat.add_assoc]
    · rw [if_neg hwhole] at hscan
      have hsame : c.zmqParse = c := by rw [Client.zmqParse, hscan]
      rw [hsame, if_neg hwhole, if_neg (by omega)]
      exact .inr ⟨done, m :: rest, rfl, h⟩

/-- Nothing is complete before the end of the handshake. -/
theorem arrivedBy_opening (h : r < s.opening.length) : s.arrivedBy r = 0 := by
  rw [Session.arrivedBy, show r - s.opening.length = 0 by omega]
  cases s.messages with
  | nil => rfl
  | cons m messages =>
    have hpos := length_encode_pos m
    exact if_neg (by omega)

theorem Opening.at (h : Opening s r n c) : At s r n (if 0 < s.arrivedBy r then 1 else 0) c := by
  rw [arrivedBy_opening h.short, if_neg (lt_irrefl 0)]
  exact .inl ⟨rfl, h⟩

theorem length_opening (s : Session) : s.opening.length = 64 + s.handshake.length := by
  rw [Session.opening, List.length_append, s.length_greeting]

theorem zmqHandshake_at (hr : r ≤ s.stream.length) (h64 : 64 ≤ r) (hstate : c.zmq = .handshake)
    (hbuf : c.zmqRecvBuf = (s.handshake ++ wire s.messages).take (r - 64))
    (hheights : heights c = n) :
    At s r n (if 0 < s.arrivedBy r then 1 else 0) (c.zmqHandshake written) := by
  have hopening := length_opening s
  have hlength : r - 64 ≤ (s.handshake ++ wire s.messages).length := by
    rw [stream_eq, List.length_append, s.length_greeting] at hr
    omega
  have hscan := scanHandshake_take (wire s.messages) hlength
  rw [← hbuf] at hscan
  unfold Client.zmqHandshake
  rw [hscan]
  by_cases hshort : r - 64 < s.handshake.length
  · rw [if_pos hshort]
    exact Opening.at ⟨by omega, hheights, .inr (.inr ⟨h64, hstate, hbuf⟩)⟩
  · rw [if_neg hshort]
    refine @zmqParse_connected s r n _ [] s.messages ⟨rfl, ?_, rfl, ?_, ?_⟩
    · rw [wire_nil, List.length_nil]
      omega
    · rw [wire_nil, List.length_nil, hopening, Nat.sub_add_eq, Nat.sub_zero]
      rfl
    · exact (List.count_cons_of_ne (by simp)).trans hheights

theorem zmqGreeting2_at (hr : r ≤ s.stream.length) (h11 : 11 ≤ r) (hstate : c.zmq = .greeting2)
    (hbuf : c.zmqRecvBuf = s.stream.take r) (hheights : heights c = n) :
    At s r n (if 0 < s.arrivedBy r then 1 else 0) (c.zmqGreeting2 written) := by
  have hopening := length_opening s
  have hscan := scanGreeting2_take hr
  rw [← hbuf] at hscan
  unfold Client.zmqGreeting2
  rw [hscan]
  by_cases hshort : r < 64
  · rw [if_pos hshort]
    exact Opening.at ⟨by omega, hheights, .inr (.inl ⟨h11, hshort, hstate, hbuf⟩)⟩
  · rw [if_neg hshort]
    exact zmqHandshake_at hr (by omega) rfl rfl hheights

theorem zmqGreeting1_at (hr : r ≤ s.stream.length) (hstate : c.zmq = .greeting1)
    (hbuf : c.zmqRecvBuf = s.stream.take r) (hheights : heights c = n) :
    At s r n (if 0 < s.arrivedBy r then 1 else 0) (c.zmqGreeting1 written) := by
  have hopening := length_opening s
  have hscan := scanGreeting1_take hr
  rw [← hbuf] at hscan
  unfold Client.zmqGreeting1
  rw [hscan]
  by_cases hshort : r < 11
  · rw [if_pos hshort]
    exact Opening.at ⟨by omega, hheights, .inl ⟨hshort, hstate, hbuf⟩⟩
  · rw [if_neg hshort]
    exact zmqGreeting2_at hr (by omega) rfl hbuf hheights

/-- What is left of a stream behind a part of it that has come. -/
theorem take_extend {p x chunk : List UInt8} {m : Nat} (hr : p.length ≤ r)
    (h : (p ++ x).take r ++ chunk = (p ++ x).take (r + m)) :
    x.take (r - p.length) ++ chunk = x.take (r + m - p.length) := by
  rw [List.take_append, List.take_append, List.take_of_length_le hr,
    List.take_of_length_le (show p.length ≤ r + m by omega), List.append_assoc] at h
  exact List.append_cancel_left h

/-- What one read does. -/
theorem zmqRead_at {chunk : List UInt8} (h : At s r n k c) (hchunk : chunk ≠ [])
    (hr : r + chunk.length ≤ s.stream.length)
    (hstream : s.stream.take r ++ chunk = s.stream.take (r + chunk.length)) :
    At s (r + chunk.length) n
      (if k < s.arrivedBy (r + chunk.length) then k + 1 else k) (c.zmqRead chunk written) := by
  rw [Client.zmqRead, if_neg hchunk]
  generalize hc : ({ c with zmqRecvBuf := c.zmqRecvBuf ++ chunk } : Client) = c'
  have hstate : c'.zmq = c.zmq := hc ▸ rfl
  have hbuf : c'.zmqRecvBuf = c.zmqRecvBuf ++ chunk := hc ▸ rfl
  have hheights : heights c' = heights c := hc ▸ rfl
  unfold Client.zmqStage
  rw [hstate]
  rcases h with ⟨rfl, h⟩ | ⟨done, rest, rfl, h⟩
  · rcases h.stage with ⟨_, hold, hcome⟩ | ⟨h11, _, hold, hcome⟩ | ⟨h64, hold, hcome⟩
    all_goals
      rw [hold]
      rw [hold] at hstate
      rw [hcome] at hbuf
    · exact zmqGreeting1_at hr hstate (hbuf.trans hstream) (hheights.trans h.heights)
    · exact zmqGreeting2_at hr (by omega) hstate (hbuf.trans hstream) (hheights.trans h.heights)
    · refine zmqHandshake_at hr (by omega) hstate ?_ (hheights.trans h.heights)
      have hgreeting := s.length_greeting
      rw [stream_eq] at hstream
      have hextend := take_extend (by omega) hstream
      rw [hgreeting] at hextend
      exact hbuf.trans hextend
  · rw [h.state]
    have hroom := h.room
    refine zmqParse_connected ⟨h.split, by omega, hstate.trans h.state, ?_,
      hheights.trans h.heights⟩
    rw [hbuf, h.buf]
    rw [Session.stream, h.split, wire_append, ← List.append_assoc] at hstream
    have hextend := take_extend (by rw [List.length_append]; omega) hstream
    rwa [List.length_append, Nat.sub_add_eq, Nat.sub_add_eq] at hextend

/-- The client after reads. -/
def reads (c : Client) (chunks : List (List UInt8)) : Client :=
  chunks.foldl (fun c chunk => c.zmqRead chunk written) c

/-- Of the messages that are not complete after some of the reads, there are no more than
reads left. -/
def Paced (s : Session) (r : Nat) (chunks : List (List UInt8)) : Prop :=
  ∀ j ≤ chunks.length,
    s.messages.length - s.arrivedBy (r + (chunks.take j).flatten.length) ≤ chunks.length - j

theorem paced_cons {chunk : List UInt8} {chunks : List (List UInt8)} :
    Paced s r (chunk :: chunks) ↔ s.messages.length - s.arrivedBy r ≤ chunks.length + 1 ∧
      Paced s (r + chunk.length) chunks := by
  constructor
  · intro h
    refine ⟨by simpa using h 0 (Nat.zero_le _), fun j hj => ?_⟩
    have hnext := h (j + 1) (by rw [List.length_cons]; omega)
    rw [List.take_succ_cons, List.flatten_cons, List.length_append, List.length_cons,
      ← Nat.add_assoc] at hnext
    omega
  · rintro ⟨hfirst, hrest⟩ j hj
    cases j with
    | zero => simpa using hfirst
    | succ j =>
      have hnext := hrest j (by rw [List.length_cons] at hj; omega)
      rw [List.take_succ_cons, List.flatten_cons, List.length_append, List.length_cons,
        ← Nat.add_assoc]
      omega

theorem arrived_mono (messages : List Message) {room room' : Nat} (h : room ≤ room') :
    arrived messages room ≤ arrived messages room' := by
  induction messages generalizing room room' with
  | nil => exact le_rfl
  | cons m messages ih =>
    rw [arrived, arrived]
    split
    case isTrue hm =>
      rw [if_pos (hm.trans h)]
      exact Nat.succ_le_succ (ih (Nat.sub_le_sub_right h _))
    case isFalse => exact Nat.zero_le _

theorem arrivedBy_mono {r r' : Nat} (h : r ≤ r') : s.arrivedBy r ≤ s.arrivedBy r' :=
  arrived_mono _ (Nat.sub_le_sub_right h _)

theorem arrivedBy_le (s : Session) (r : Nat) : s.arrivedBy r ≤ s.messages.length := arrived_le ..

/-- All messages are answered if, and only if, the reads keep up with them. -/
theorem reads_at {chunks : List (List UInt8)} (h : At s r n k c) (hk : k ≤ s.arrivedBy r)
    (hr : r ≤ s.stream.length) (hchunks : ∀ chunk ∈ chunks, chunk ≠ [])
    (hstream : s.stream.take r ++ chunks.flatten = s.stream) :
    ∃ k', At s s.stream.length n k' (reads c chunks) ∧ (k' = s.messages.length ↔
      s.messages.length - k ≤ chunks.length ∧ Paced s r chunks) := by
  induction chunks generalizing r k c with
  | nil =>
    have hall : r = s.stream.length := by
      have hlength := congrArg List.length hstream
      rw [List.flatten_nil, List.append_nil, List.length_take] at hlength
      omega
    have hbound := arrivedBy_le s r
    subst hall
    refine ⟨k, h, fun hall => ⟨by omega, fun j _ => ?_⟩, fun ⟨hleft, _⟩ => ?_⟩
    · have hsame : s.arrivedBy s.stream.length = s.messages.length := by omega
      rw [List.take_nil, List.flatten_nil, List.length_nil, Nat.add_zero, hsame, Nat.sub_self]
      exact Nat.zero_le _
    · rw [List.length_nil] at hleft
      omega
  | cons chunk chunks ih =>
    obtain ⟨hchunk, hrest⟩ := List.forall_mem_cons.mp hchunks
    rw [List.flatten_cons, ← List.append_assoc] at hstream
    have hlength : (s.stream.take r ++ chunk).length = r + chunk.length := by
      rw [List.length_append, List.length_take, min_eq_left hr]
    have htaken : s.stream.take r ++ chunk = s.stream.take (r + chunk.length) := by
      have hprefix := congrArg (List.take (r + chunk.length)) hstream
      rwa [List.take_left' hlength] at hprefix
    have hr' : r + chunk.length ≤ s.stream.length := by
      have htotal := congrArg List.length hstream
      rw [List.length_append, hlength] at htotal
      omega
    have hread := zmqRead_at h hchunk hr' htaken
    have hmono : s.arrivedBy r ≤ s.arrivedBy (r + chunk.length) := arrivedBy_mono (by omega)
    have hk' : (if k < s.arrivedBy (r + chunk.length) then k + 1 else k) ≤
        s.arrivedBy (r + chunk.length) := by
      split <;> omega
    rw [htaken] at hstream
    obtain ⟨k', hat, hiff⟩ := ih hread hk' hr' hrest hstream
    refine ⟨k', hat, hiff.trans ?_⟩
    rw [paced_cons, List.length_cons]
    constructor
    · rintro ⟨hleft, hpaced⟩
      refine ⟨?_, ?_, hpaced⟩
      all_goals
        split at hleft <;> omega
    · rintro ⟨hleft, hnow, hpaced⟩
      refine ⟨?_, hpaced⟩
      have hnext := hpaced 0 (Nat.zero_le _)
      rw [List.take_zero, List.flatten_nil, List.length_nil, Nat.add_zero, Nat.sub_zero] at hnext
      split <;> omega

end Reads

/-- A message of one short frame. -/
def announcement : Message := ⟨[], ⟨false, [1, 2, 3], by decide⟩, by decide⟩

/-- A daemon that publishes two blocks. -/
def twoBlocks : Session where
  greeting := DaemonClient.greeting
  ready := DaemonClient.handshake.drop 2
  messages := [announcement, announcement]
  length_greeting := rfl
  signature := ⟨rfl, rfl⟩
  version := rfl
  mechanism := rfl
  length_ready := by decide
  socketType := rfl

def subscriber : Client where
  pool := ⟨.rx0, none, true, 1, 15000, 1000⟩

/-- Two messages in one read: the second one stays in the buffer. -/
theorem message_left : ¬ ∀ (s : Session) (chunks : List (List UInt8)) (c : Client),
    (∀ chunk ∈ chunks, chunk ≠ []) → chunks.flatten = s.stream → c.zmqRecvBuf = [] →
      (reads (c.zmqConnected true) chunks).zmq = .connected ∧
        (reads (c.zmqConnected true) chunks).zmqRecvBuf = [] ∧
        heights (reads (c.zmqConnected true) chunks) = heights c + s.messages.length := by
  intro h
  have hempty := (h twoBlocks [twoBlocks.opening, wire twoBlocks.messages] subscriber (by decide)
    (by decide) rfl).2.1
  exact absurd hempty (by decide)

/-- However a session is split into reads, the connection is established; every message is
answered, and the buffer empty, exactly if no last reads complete more messages than they are. -/
theorem messages_answered (s : Session) {chunks : List (List UInt8)} {c : Client}
    (hchunks : ∀ chunk ∈ chunks, chunk ≠ []) (hstream : chunks.flatten = s.stream)
    (hbuf : c.zmqRecvBuf = []) :
    (reads (c.zmqConnected true) chunks).zmq = .connected ∧
      ((reads (c.zmqConnected true) chunks).zmqRecvBuf = [] ∧
        heights (reads (c.zmqConnected true) chunks) = heights c + s.messages.length ↔
      ∀ j ≤ chunks.length, s.messages.length - s.arrivedBy (chunks.take j).flatten.length ≤
        chunks.length - j) := by
  have hstart : At s 0 (heights c) 0 (c.zmqConnected true) :=
    .inl ⟨rfl, by rw [length_opening]; omega, rfl, .inl ⟨by omega, rfl, hbuf⟩⟩
  obtain ⟨k, hat, hiff⟩ := reads_at hstart (Nat.zero_le _) (Nat.zero_le _) hchunks
    (by rw [List.take_zero, List.nil_append, hstream])
  have hpaced : (∀ j ≤ chunks.length, s.messages.length -
      s.arrivedBy (chunks.take j).flatten.length ≤ chunks.length - j) ↔ Paced s 0 chunks := by
    simp only [Paced, Nat.zero_add]
  have hzero : Paced s 0 chunks → s.messages.length - 0 ≤ chunks.length := by
    intro h
    have hfirst := h 0 (Nat.zero_le _)
    rw [List.take_zero, List.flatten_nil, List.length_nil,
      arrivedBy_opening (by rw [length_opening]; omega)] at hfirst
    exact hfirst
  rw [hpaced, ← and_iff_right_of_imp hzero, ← hiff]
  rcases hat with ⟨-, h⟩ | ⟨done, rest, rfl, h⟩
  · have hshort := h.short
    rw [Session.stream, List.length_append] at hshort
    omega
  · refine ⟨h.state, ?_⟩
    have hlength : s.messages.length = done.length + rest.length := by
      rw [h.split, List.length_append]
    have hleft : (reads (c.zmqConnected true) chunks).zmqRecvBuf = wire rest := by
      rw [h.buf, List.take_of_length_le]
      rw [Session.stream, List.length_append, h.split, wire_append, List.length_append]
      omega
    rw [hleft, h.heights, hlength]
    cases rest with
    | nil => simp
    | cons m rest =>
      have hpos := length_encode_pos m
      constructor
      · rintro ⟨-, hcount⟩
        omega
      · intro hcount
        rw [List.length_cons] at hcount
        omega

/-- The handshake in two reads, and a message in each of two more. -/
theorem messages_answered_apart :
    (reads (subscriber.zmqConnected true) [twoBlocks.greeting, twoBlocks.handshake,
      announcement.encode, announcement.encode]).zmqRecvBuf = [] ∧
    heights (reads (subscriber.zmqConnected true) [twoBlocks.greeting, twoBlocks.handshake,
      announcement.encode, announcement.encode]) = 2 :=
  (messages_answered twoBlocks (by decide) (by decide) rfl).2.mpr (by decide)

end VeloxHash.ZmqStream
