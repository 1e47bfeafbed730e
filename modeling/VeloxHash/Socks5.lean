import Mathlib.Data.List.Basic

/-! `Client::Socks5` and the reads of a client behind a proxy. The reader keeps nothing of a read,
and takes an answer for complete by the size of the read alone. -/

namespace VeloxHash

/-- An address as the protocol has it, in a request and in a reply. -/
inductive SocksAddress
  | ipv4 (a : Vector UInt8 4)
  | ipv6 (a : Vector UInt8 16)
  | domain (host : List UInt8)
  deriving DecidableEq

/-- The length of a name is cut to a byte. -/
def SocksAddress.bytes : SocksAddress → List UInt8
  | .ipv4 a => 0x01 :: a.toList
  | .ipv6 a => 0x04 :: a.toList
  | .domain host => 0x03 :: UInt8.ofNat host.length :: host

/-- `htons`. -/
def portBytes (port : UInt16) : List UInt8 := [(port >>> 8).toUInt8, port.toUInt8]

namespace Socks5

inductive State
  | created
  | sentInitialHandshake
  | sentFinalHandshake
  | ready
  deriving DecidableEq

end Socks5

structure Socks5 where
  nextSize : Nat := 0
  state : Socks5.State := .created
  deriving DecidableEq

/-- What a client writes: bytes for the proxy, and its handshake with the pool. -/
inductive ProxyClient.Output
  | socks (bytes : List UInt8)
  | handshake (isTLS : Bool)
  deriving DecidableEq

/-- `address` is what the addresses of libuv make of the host of the pool, and every write goes
through. -/
structure ProxyClient where
  address : SocksAddress
  port : UInt16
  isTLS : Bool
  socks5 : Option Socks5 := some {}
  tls : Bool := false
  closed : Bool := false
  sent : List ProxyClient.Output := []
  tlsRead : List UInt8 := []
  lineRead : List UInt8 := []

namespace ProxyClient

def write (c : ProxyClient) (bytes : List UInt8) : ProxyClient :=
  { c with sent := c.sent ++ [.socks bytes] }

def close (c : ProxyClient) : ProxyClient := { c with closed := true }

end ProxyClient

namespace Socks5

open ProxyClient

def isReady (s : Socks5) : Bool := s.state == .ready

def handshake (c : ProxyClient) : ProxyClient :=
  { c with socks5 := some ⟨2, .sentInitialHandshake⟩ }.write [0x05, 0x01, 0x00]

def request (c : ProxyClient) : List UInt8 :=
  [0x05, 0x01, 0x00] ++ c.address.bytes ++ portBytes c.port

def connect (c : ProxyClient) : ProxyClient :=
  { c with socks5 := some ⟨5, .sentFinalHandshake⟩ }.write (request c)

def accepts (data : List UInt8) : Bool := data[0]? = some 0x05 ∧ data[1]? = some 0x00

def read (c : ProxyClient) (s : Socks5) (data : List UInt8) : ProxyClient :=
  if data.length < s.nextSize then c
  else if accepts data then
    if s.state = .sentInitialHandshake then connect c
    else { c with socks5 := some { s with state := .ready } }
  else c.close

end Socks5

namespace ProxyClient

def handshake (c : ProxyClient) : ProxyClient :=
  match c.socks5 with
  | some _ => Socks5.handshake c
  | none => { c with sent := c.sent ++ [.handshake c.tls] }

/-- Nothing is read after a close. -/
def read (c : ProxyClient) (data : List UInt8) : ProxyClient :=
  if c.closed then c
  else
    match c.socks5 with
    | some s =>
      let c := Socks5.read c s data
      if c.socks5.any Socks5.isReady then { c with socks5 := none, tls := c.isTLS }.handshake
      else c
    | none =>
      if c.tls then { c with tlsRead := c.tlsRead ++ data }
      else { c with lineRead := c.lineRead ++ data }

def reads (c : ProxyClient) (chunks : List (List UInt8)) : ProxyClient := chunks.foldl read c

/-- The client when it is connected to its proxy. -/
def start (address : SocksAddress) (port : UInt16) (isTLS : Bool) : ProxyClient :=
  { address, port, isTLS : ProxyClient }.handshake

/-- What reached the layer that speaks with the pool, and the other one. -/
def reached (c : ProxyClient) : List UInt8 × List UInt8 :=
  if c.isTLS then (c.tlsRead, c.lineRead) else (c.lineRead, c.tlsRead)

end ProxyClient

/-- A success reply. The name of an address fits in its length. -/
structure SocksReply where
  address : SocksAddress
  port : UInt16
  full : ∀ host, address = .domain host → host.length < 256

/-- The method selection, and the reply. -/
def SocksReply.stream (reply : SocksReply) : List UInt8 :=
  [0x05, 0x00] ++ [0x05, 0x00, 0x00] ++ reply.address.bytes ++ portBytes reply.port

/-- The handshake over the chunks of a stream: one request, no proxy left exactly when the reply is
complete, and the bytes behind it for the layer that speaks with the pool. -/
structure Negotiated (address : SocksAddress) (port : UInt16) (isTLS : Bool) (reply : SocksReply)
    (chunks : List (List UInt8)) : Prop where
  request : ((ProxyClient.start address port isTLS).reads chunks).sent.count
    (.socks (Socks5.request (.start address port isTLS))) = 1
  ready : ∀ k, ((ProxyClient.start address port isTLS).reads (chunks.take k)).socks5 = none ↔
    reply.stream.length ≤ (chunks.take k).flatten.length
  reached : ∀ k, ((ProxyClient.start address port isTLS).reads (chunks.take k)).reached =
    ((chunks.take k).flatten.drop reply.stream.length, [])

/-- The first read of two bytes or more, and the first of five or more after it, begin with a
success, and the reply ends with the latter. -/
def Aligned (chunks : List (List UInt8)) (rest : List UInt8) : Prop :=
  ∃ first selection second reply after,
    chunks = first ++ selection :: (second ++ reply :: after) ∧
      (∀ data ∈ first, data.length < 2) ∧ 2 ≤ selection.length ∧ Socks5.accepts selection ∧
      (∀ data ∈ second, data.length < 5) ∧ 5 ≤ reply.length ∧ Socks5.accepts reply ∧
      after.flatten = rest

namespace ProxyClient

section Reads

variable {c : ProxyClient} {s : Socks5} {data : List UInt8} {chunks : List (List UInt8)}

theorem reads_append (c : ProxyClient) (as bs : List (List UInt8)) :
    c.reads (as ++ bs) = (c.reads as).reads bs := List.foldl_append

theorem reads_cons (c : ProxyClient) (data : List UInt8) (chunks : List (List UInt8)) :
    c.reads (data :: chunks) = (c.read data).reads chunks := rfl

theorem reads_closed (h : c.closed = true) (chunks : List (List UInt8)) : c.reads chunks = c := by
  induction chunks with
  | nil => rfl
  | cons data chunks ih =>
    have hread : c.read data = c := if_pos h
    rw [reads_cons, hread, ih]

theorem read_waiting (hopen : c.closed = false) (hs : c.socks5 = some s) (data : List UInt8) :
    c.read data =
      if (Socks5.read c s data).socks5.any Socks5.isReady then
        { Socks5.read c s data with
          socks5 := none, tls := (Socks5.read c s data).isTLS }.handshake
      else Socks5.read c s data := by
  unfold read
  rw [if_neg (by rw [hopen]; decide), hs]

/-- A read that is too short for an answer is forgotten. -/
theorem reads_short (hopen : c.closed = false) (hs : c.socks5 = some s)
    (hready : s.isReady = false) (h : ∀ data ∈ chunks, data.length < s.nextSize) :
    c.reads chunks = c := by
  induction chunks with
  | nil => rfl
  | cons data chunks ih =>
    have hself : Socks5.read c s data = c := if_pos (h data List.mem_cons_self)
    have hread : c.read data = c := by
      rw [read_waiting hopen hs, hself, hs]
      exact if_neg (by simp [hready])
    rw [reads_cons, hread]
    exact ih fun data hdata => h data (List.mem_cons_of_mem _ hdata)

theorem read_refused (hopen : c.closed = false) (hs : c.socks5 = some s)
    (hready : s.isReady = false) (hlong : s.nextSize ≤ data.length)
    (hdata : Socks5.accepts data = false) : c.read data = c.close := by
  have hclose : Socks5.read c s data = c.close := by
    unfold Socks5.read
    rw [if_neg (Nat.not_lt.mpr hlong), if_neg (by simp [hdata])]
  rw [read_waiting hopen hs, hclose]
  refine if_neg ?_
  change ¬ c.socks5.any Socks5.isReady = true
  rw [hs]
  simp [hready]

theorem read_ready (h : c.socks5 = none) (data : List UInt8) : (c.read data).socks5 = none := by
  unfold read
  rw [h]
  dsimp only
  split
  · exact h
  · split <;> rfl

theorem reads_ready (h : c.socks5 = none) (chunks : List (List UInt8)) :
    (c.reads chunks).socks5 = none := by
  induction chunks generalizing c with
  | nil => exact h
  | cons data chunks ih => exact ih (read_ready h data)

/-- A client behind its proxy. -/
structure Through (c : ProxyClient) : Prop where
  isOpen : c.closed = false
  ready : c.socks5 = none
  tls : c.tls = c.isTLS

/-- Behind the proxy a read goes to the layer that speaks with the pool. -/
theorem Through.read (h : Through c) (data : List UInt8) :
    Through (c.read data) ∧ (c.read data).sent = c.sent ∧
      (c.read data).reached = (c.reached.1 ++ data, c.reached.2) := by
  have hread : c.read data =
      if c.tls then { c with tlsRead := c.tlsRead ++ data }
      else { c with lineRead := c.lineRead ++ data } := by
    unfold ProxyClient.read
    rw [if_neg (by rw [h.isOpen]; decide), h.ready]
  have htls := h.tls
  rw [hread]
  unfold reached
  split
  next hc =>
    rw [hc] at htls
    exact ⟨⟨h.isOpen, h.ready, h.tls⟩, rfl, by rw [if_pos htls.symm, if_pos htls.symm]⟩
  next hc =>
    have hTLS : ¬ c.isTLS = true := fun hTLS => hc (h.tls.trans hTLS)
    exact ⟨⟨h.isOpen, h.ready, h.tls⟩, rfl, by rw [if_neg hTLS, if_neg hTLS]⟩

theorem Through.reads (h : Through c) (chunks : List (List UInt8)) :
    (c.reads chunks).sent = c.sent ∧
      (c.reads chunks).reached = (c.reached.1 ++ chunks.flatten, c.reached.2) := by
  induction chunks generalizing c with
  | nil => exact ⟨rfl, by rw [List.flatten_nil, List.append_nil]; rfl⟩
  | cons data chunks ih =>
    obtain ⟨hthrough, hsent, hreached⟩ := h.read data
    obtain ⟨hsent', hreached'⟩ := ih hthrough
    refine ⟨hsent'.trans hsent, hreached'.trans ?_⟩
    rw [hreached, List.flatten_cons, List.append_assoc]

end Reads

section Start

variable (address : SocksAddress) (port : UInt16) (isTLS : Bool)

/-- The client that waits for the reply. -/
abbrev requested : ProxyClient := Socks5.connect (start address port isTLS)

/-- The client that starts its handshake with the pool. -/
abbrev through : ProxyClient :=
  { requested address port isTLS with socks5 := none, tls := isTLS }.handshake

theorem read_selection {data : List UInt8} (hlong : 2 ≤ data.length)
    (hdata : Socks5.accepts data = true) :
    (start address port isTLS).read data = requested address port isTLS := by
  have hread : Socks5.read (start address port isTLS) ⟨2, .sentInitialHandshake⟩ data =
      requested address port isTLS := by
    unfold Socks5.read
    rw [if_neg (Nat.not_lt.mpr hlong), if_pos hdata]
    rfl
  rw [read_waiting rfl rfl, hread]
  rfl

theorem read_reply {data : List UInt8} (hlong : 5 ≤ data.length)
    (hdata : Socks5.accepts data = true) :
    (requested address port isTLS).read data = through address port isTLS := by
  have hread : Socks5.read (requested address port isTLS) ⟨5, .sentFinalHandshake⟩ data =
      { requested address port isTLS with socks5 := some ⟨5, .ready⟩ } := by
    unfold Socks5.read
    rw [if_neg (Nat.not_lt.mpr hlong), if_pos hdata]
    rfl
  rw [read_waiting rfl rfl, hread]
  rfl

theorem through_through : Through (through address port isTLS) := ⟨rfl, rfl, rfl⟩

theorem through_reached : (through address port isTLS).reached = ([], []) := by
  cases isTLS <;> rfl

theorem start_count : (start address port isTLS).sent.count
    (.socks (Socks5.request (start address port isTLS))) = 0 := by
  refine List.count_eq_zero_of_not_mem fun hmem => ?_
  have heq := Output.socks.inj (List.mem_singleton.mp hmem)
  have hlength := congrArg List.length heq
  unfold Socks5.request portBytes at hlength
  cases hc : (start address port isTLS).address <;>
    simp [hc, SocksAddress.bytes] at hlength

theorem through_count : (through address port isTLS).sent.count
    (.socks (Socks5.request (start address port isTLS))) = 1 := by
  have hsent : (through address port isTLS).sent = (start address port isTLS).sent ++
      [.socks (Socks5.request (start address port isTLS)), .handshake isTLS] := rfl
  rw [hsent, List.count_append, start_count, List.count_cons_self, List.count_cons_of_ne]
  · rfl
  · exact fun heq => Output.noConfusion heq

end Start

/-- The first chunk that is long enough, if there is one. -/
theorem short_or_split (n : Nat) (chunks : List (List UInt8)) :
    (∀ data ∈ chunks, data.length < n) ∨
      ∃ short data after, chunks = short ++ data :: after ∧
        (∀ data ∈ short, data.length < n) ∧ n ≤ data.length := by
  induction chunks with
  | nil => exact .inl fun _ hdata => absurd hdata List.not_mem_nil
  | cons data chunks ih =>
    rcases Nat.lt_or_ge data.length n with hshort | hlong
    · rcases ih with hall | ⟨short, found, after, rfl, hall, hfound⟩
      · exact .inl (List.forall_mem_cons.mpr ⟨hshort, hall⟩)
      · exact .inr ⟨data :: short, found, after, rfl, List.forall_mem_cons.mpr ⟨hshort, hall⟩,
          hfound⟩
    · exact .inr ⟨[], data, chunks, rfl, fun _ hdata => absurd hdata List.not_mem_nil, hlong⟩

/-- As long as the proxy is there, it gets every read. -/
theorem reads_waiting {c : ProxyClient} {chunks : List (List UInt8)}
    (h : (c.reads chunks).socks5 ≠ none) : (c.reads chunks).reached = c.reached := by
  induction chunks generalizing c with
  | nil => rfl
  | cons data chunks ih =>
    refine (ih h).trans ?_
    have hwaiting : c.socks5 ≠ none := fun hready =>
      h (reads_ready (read_ready hready data) chunks)
    obtain ⟨s, hs⟩ := Option.ne_none_iff_exists'.mp hwaiting
    have hsocks : (Socks5.read c s data).reached = c.reached := by
      unfold Socks5.read
      split
      · rfl
      · split
        · split <;> rfl
        · rfl
    unfold read
    rw [hs]
    dsimp only
    split
    · rfl
    · split
      · exact hsocks
      · exact hsocks

theorem reads_requested (address : SocksAddress) (port : UInt16) (isTLS : Bool)
    {first second : List (List UInt8)} {selection : List UInt8}
    (hfirst : ∀ data ∈ first, data.length < 2) (hselection : 2 ≤ selection.length)
    (haccepts : Socks5.accepts selection = true) (hsecond : ∀ data ∈ second, data.length < 5) :
    (start address port isTLS).reads (first ++ selection :: second) =
      requested address port isTLS := by
  have hshort : (start address port isTLS).reads first = start address port isTLS :=
    reads_short (s := ⟨2, .sentInitialHandshake⟩) rfl rfl rfl hfirst
  rw [reads_append, hshort, reads_cons, read_selection address port isTLS hselection haccepts]
  exact reads_short (s := ⟨5, .sentFinalHandshake⟩) rfl rfl rfl hsecond

section Front

variable {address : SocksAddress} {port : UInt16} {isTLS : Bool} {reply : SocksReply}
  {front after : List (List UInt8)} {last : List UInt8}

/-- Before the read with the end of the reply. -/
theorem reads_before (hrequested : (start address port isTLS).reads front =
    requested address port isTLS) (hlast : 5 ≤ last.length)
    (hreply : (front ++ [last]).flatten = reply.stream) (k : Nat) :
    ((start address port isTLS).reads (front.take k)).socks5 ≠ none ∧
      ((start address port isTLS).reads (front.take k)).reached = ([], []) ∧
      (front.take k).flatten.length < reply.stream.length := by
  have hwaiting : ((start address port isTLS).reads (front.take k)).socks5 ≠ none := by
    intro hready
    have hfrontReady := reads_ready hready (front.drop k)
    rw [← reads_append, List.take_append_drop, hrequested] at hfrontReady
    exact absurd hfrontReady (Option.some_ne_none _)
  refine ⟨hwaiting, ?_, ?_⟩
  · rw [reads_waiting hwaiting]
    cases isTLS <;> rfl
  · have hparts : (front.take k).flatten.length + (front.drop k).flatten.length =
        front.flatten.length := by
      rw [← List.length_append, ← List.flatten_append, List.take_append_drop]
    have hwhole := congrArg List.length hreply
    rw [List.flatten_append, List.length_append, List.flatten_singleton] at hwhole
    omega

/-- After it. -/
theorem reads_after (hrequested : (start address port isTLS).reads front =
    requested address port isTLS) (hlast : 5 ≤ last.length) (hlastOk : Socks5.accepts last = true)
    (after : List (List UInt8)) :
    (start address port isTLS).reads ((front ++ [last]) ++ after) =
      (through address port isTLS).reads after := by
  have hthrough : (start address port isTLS).reads (front ++ [last]) =
      through address port isTLS := by
    rw [reads_append, hrequested]
    exact read_reply address port isTLS hlast hlastOk
  rw [reads_append, hthrough]

theorem negotiated_of_front (hrequested : (start address port isTLS).reads front =
    requested address port isTLS) (hlast : 5 ≤ last.length) (hlastOk : Socks5.accepts last = true)
    (hreply : (front ++ [last]).flatten = reply.stream) (after : List (List UInt8)) :
    Negotiated address port isTLS reply ((front ++ [last]) ++ after) := by
  have hkept := (through_through address port isTLS).reads
  have hpast (k : Nat) (hk : (front ++ [last]).length ≤ k) :
      ((front ++ [last]) ++ after).take k =
        (front ++ [last]) ++ after.take (k - (front ++ [last]).length) := by
    rw [List.take_append, List.take_of_length_le hk]
  have hearly (k : Nat) (hk : k < (front ++ [last]).length) :
      ((front ++ [last]) ++ after).take k = front.take k := by
    rw [List.length_append] at hk
    rw [List.append_assoc, List.take_append_of_le_length (Nat.lt_succ_iff.mp hk)]
  refine ⟨?_, fun k => ?_, fun k => ?_⟩
  · rw [reads_after hrequested hlast hlastOk, (hkept after).1]
    exact through_count address port isTLS
  · rcases Nat.lt_or_ge k (front ++ [last]).length with hlt | hge
    · obtain ⟨hwaiting, -, hshort⟩ := reads_before hrequested hlast hreply k
      rw [hearly k hlt]
      exact iff_of_false hwaiting (Nat.not_le.mpr hshort)
    · rw [hpast k hge, reads_after hrequested hlast hlastOk, List.flatten_append, hreply]
      refine iff_of_true (reads_ready rfl _) ?_
      rw [List.length_append]
      exact Nat.le_add_right _ _
  · rcases Nat.lt_or_ge k (front ++ [last]).length with hlt | hge
    · obtain ⟨-, hreached, hshort⟩ := reads_before hrequested hlast hreply k
      rw [hearly k hlt, hreached, List.drop_eq_nil_of_le (Nat.le_of_lt hshort)]
    · rw [hpast k hge, reads_after hrequested hlast hlastOk, List.flatten_append, hreply,
        List.drop_left, (hkept _).2, through_reached]
      rfl

end Front

end ProxyClient

open ProxyClient

/-- Reads that negotiate are aligned. -/
theorem Negotiated.aligned {address : SocksAddress} {port : UInt16} {isTLS : Bool}
    {reply : SocksReply} {rest : List UInt8} {chunks : List (List UInt8)}
    (h : Negotiated address port isTLS reply chunks)
    (hstream : chunks.flatten = reply.stream ++ rest) : Aligned chunks rest := by
  have hend := h.ready chunks.length
  rw [List.take_length, hstream, List.length_append] at hend
  have hready := hend.mpr (Nat.le_add_right _ _)
  have hreached := h.reached chunks.length
  rw [List.take_length, hstream, List.drop_left] at hreached
  have hcount := h.request
  rcases short_or_split 2 chunks with hall | ⟨first, selection, tail, rfl, hfirst, hselection⟩
  · have hself : (start address port isTLS).reads chunks = start address port isTLS :=
      reads_short (s := ⟨2, .sentInitialHandshake⟩) rfl rfl rfl hall
    rw [hself, start_count] at hcount
    exact absurd hcount (by decide)
  cases haccepts : Socks5.accepts selection with
  | false =>
    have hshort : (start address port isTLS).reads first = start address port isTLS :=
      reads_short (s := ⟨2, .sentInitialHandshake⟩) rfl rfl rfl hfirst
    have hread := read_refused (c := start address port isTLS) rfl rfl rfl hselection haccepts
    rw [reads_append, hshort, reads_cons, hread, reads_closed rfl] at hready
    exact absurd hready (Option.some_ne_none _)
  | true =>
    rcases short_or_split 5 tail with hall | ⟨second, last, after, rfl, hsecond, hlast⟩
    · rw [reads_requested address port isTLS hfirst hselection haccepts hall] at hready
      exact absurd hready (Option.some_ne_none _)
    have hrequested := reads_requested address port isTLS hfirst hselection haccepts hsecond
    have hreads :
        (start address port isTLS).reads (first ++ selection :: (second ++ last :: after)) =
          ((requested address port isTLS).read last).reads after := by
      rw [← List.cons_append, ← List.append_assoc, reads_append, hrequested, reads_cons]
    rw [hreads] at hready hreached
    cases hlastOk : Socks5.accepts last with
    | false =>
      rw [read_refused (c := requested address port isTLS) rfl rfl rfl hlast hlastOk,
        reads_closed rfl] at hready
      exact absurd hready (Option.some_ne_none _)
    | true =>
      rw [read_reply address port isTLS hlast hlastOk,
        ((through_through address port isTLS).reads after).2, through_reached] at hreached
      exact ⟨first, selection, second, last, after, rfl, hfirst, hselection, haccepts, hsecond,
        hlast, hlastOk, (Prod.ext_iff.mp hreached).1⟩

theorem Aligned.negotiated {reply : SocksReply} {rest : List UInt8} {chunks : List (List UInt8)}
    (h : Aligned chunks rest) (hstream : chunks.flatten = reply.stream ++ rest)
    (address : SocksAddress) (port : UInt16) (isTLS : Bool) :
    Negotiated address port isTLS reply chunks := by
  obtain ⟨first, selection, second, last, after, rfl, hfirst, hselection, haccepts, hsecond,
    hlast, hlastOk, rfl⟩ := h
  have hrequested := reads_requested address port isTLS hfirst hselection haccepts hsecond
  have hsplit : first ++ selection :: (second ++ last :: after) =
      ((first ++ selection :: second) ++ [last]) ++ after := by
    rw [List.append_assoc, List.append_assoc, List.cons_append, List.singleton_append]
  rw [hsplit] at hstream ⊢
  rw [List.flatten_append] at hstream
  exact negotiated_of_front hrequested hlast hlastOk (List.append_cancel_right hstream) after

def localReply : SocksReply := ⟨.ipv4 #v[127, 0, 0, 1], 1080, nofun⟩

/-- Each answer in a read of its own. -/
def wholeReads : List (List UInt8) := [[5, 0], [5, 0, 0, 1, 127, 0, 0, 1, 4, 56], [123]]

/-- A reply of which the end comes in a second read. -/
theorem split_reply_refused : ¬ ∀ (address : SocksAddress) (port : UInt16) (isTLS : Bool)
    (reply : SocksReply) (rest : List UInt8) (chunks : List (List UInt8)),
    (∀ data ∈ chunks, data ≠ []) → chunks.flatten = reply.stream ++ rest →
      Negotiated address port isTLS reply chunks := by
  intro h
  have hneg := h (.domain []) 3333 false localReply []
    [[5, 0], [5, 0, 0, 1], [127, 0, 0, 1, 4, 56]] (by decide) (by decide)
  exact absurd ((hneg.ready 3).mpr (by decide)) (by decide)

/-- The handshake succeeds exactly if the ends of the reads fit to it. -/
theorem negotiated_iff (address : SocksAddress) (port : UInt16) (isTLS : Bool)
    (reply : SocksReply) (rest : List UInt8) (chunks : List (List UInt8))
    (hstream : chunks.flatten = reply.stream ++ rest) :
    Negotiated address port isTLS reply chunks ↔ Aligned chunks rest :=
  ⟨fun h => h.aligned hstream, fun h => h.negotiated hstream address port isTLS⟩

theorem negotiated_iff_whole : Negotiated (.domain []) 3333 false localReply wholeReads ↔
    Aligned wholeReads [123] :=
  negotiated_iff (.domain []) 3333 false localReply [123] wholeReads (by decide)

end VeloxHash
