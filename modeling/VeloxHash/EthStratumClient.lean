import VeloxHash.Hex
import VeloxHash.Job
import VeloxHash.Json
import VeloxHash.Radix

/-! `EthStratumClient::parseNotification` and `setExtraNonce`, with what the pool's values can
do to them beside the returns of their own. -/

namespace VeloxHash

open CodeBuffer

/-- The C string behind a `GetString()`. -/
def cString (s : String) : String := String.ofList (s.toList.takeWhile (· ≠ '\x00'))

def bytesOf (s : String) : List UInt8 := s.toByteArray.data.toList

def text (s : String) : List UInt8 := bytesOf (cString s)

/-- `resize(n, '0')`. -/
def resize (text : List UInt8) (n : Nat) : List UInt8 :=
  (text ++ List.replicate (n - text.length) 48).take n

namespace Strtoull

def isSpace (c : UInt8) : Bool := c == 32 || (9 ≤ c && c ≤ 13)

def digits (text : List UInt8) : List UInt8 := text.takeWhile fun c => (Hex.value c).isSome

def number (digits : List UInt8) : Nat :=
  Radix.value 16 (digits.map fun c => ((Hex.value c).getD 0).toNat)

def sign : List UInt8 → Bool × List UInt8
  | 43 :: rest => (false, rest)
  | 45 :: rest => (true, rest)
  | text => (false, text)

/-- `0x` belongs to the number if a digit follows. -/
def dropBase : List UInt8 → List UInt8
  | 48 :: x :: rest => if (x = 120 ∨ x = 88) ∧ digits rest ≠ [] then rest else 48 :: x :: rest
  | text => text

/-- The sign and the magnitude that `strtoull(text, nullptr, 16)` reads, if there are any. -/
def scan (text : List UInt8) : Option (Bool × Nat) :=
  let (negative, rest) := sign (text.dropWhile isSpace)
  let found := digits (dropBase rest)
  if found = [] then none else some (negative, number found)

def signed (negative : Bool) (n : Nat) : UInt64 :=
  if negative then -UInt64.ofNat n else UInt64.ofNat n

end Strtoull

def strtoull (text : List UInt8) : UInt64 :=
  match Strtoull.scan text with
  | none => 0
  | some (negative, n) => if n < 2 ^ 64 then Strtoull.signed negative n else 0xFFFFFFFFFFFFFFFF

namespace Job

def toDiff (target : UInt64) : UInt64 := if target = 0 then 0 else 0xFFFFFFFFFFFFFFFF / target

def setDiff (j : Job) (diff : UInt64) : Job := { j with target := toDiff diff }

/-- `setBlob` on text, its result ignored. -/
def setBlobText (j : Job) (hex : List UInt8) : Job :=
  ((Hex.decode hex).bind j.setBlob).getD j

end Job

namespace EthStratumClient

/-- An exception that leaves the handler, a value read as a type that it is not, a null
`String` read as text, and an access outside a decoded buffer. -/
inductive Fault
  | exception (what : String)
  | wrongType
  | nullString
  | outside
  deriving DecidableEq, Repr

inductive Outcome
  | ignored
  | stored
  | rejected (message : String)
  | closed
  | received (login : Bool)
  deriving DecidableEq, Repr

/-- Memory, the listener's `onVerifyAlgorithm`, `ceil(diff * 65536.0)`, and the double hash. -/
structure Surroundings where
  allocates : Nat → Bool
  verifies : Algorithm → Bool
  scale : Json → UInt64
  sha256d : List UInt8 → Hash

structure Client where
  algorithm : Algorithm := .invalid
  coinAlgorithm : Algorithm := .invalid
  extraNonce : UInt64 × Option String := (0, none)
  extraNonce2Size : UInt64 := 0
  nextDifficulty : UInt64 := 0
  ntime : List UInt8 := []
  authorized : Bool := false
  job : Job := {}

/-- `std::stoull(text, nullptr, 16)`. -/
def stoull (text : List UInt8) : Except Fault UInt64 :=
  match Strtoull.scan text with
  | none => .error (.exception "stoull")
  | some (negative, n) =>
    if n < 2 ^ 64 then .ok (Strtoull.signed negative n) else .error (.exception "stoull")

/-- The characters after `0x`. -/
def dropPrefix (s : String) : String :=
  if s.toList.take 2 = ['0', 'x'] then String.ofList (s.toList.drop 2) else s

def setExtraNonce : Json → Except Fault (UInt64 × String)
  | .string nonce =>
    let s := dropPrefix nonce
    if s.utf8ByteSize % 2 = 1 then
      .error (.exception
        "invalid mining.subscribe response: extra nonce has an odd number of hex chars")
    else if 8 < s.utf8ByteSize then
      .error (.exception "Invalid mining.subscribe response: extra nonce is too long")
    else do
      let value ← stoull (resize (text s) 16)
      return (value, cString s)
  | _ => .error (.exception "invalid mining.subscribe response: extra nonce is not a string")

/-- `GetString()` where nothing has checked the type. -/
def getString : Json → Except Fault (List UInt8)
  | .string s => .ok (text s)
  | _ => .error .wrongType

def getUint64 : Json → Except Fault UInt64
  | .int i => if 0 ≤ i ∧ i < 2 ^ 64 then .ok (UInt64.ofNat i.toNat) else .error .wrongType
  | _ => .error .wrongType

/-- The nonce template. -/
def nonceTemplate (extraNonce : UInt64) : List UInt8 := Hex.encode (le extraNonce.toNat 8)

def blobText (header : List UInt8) (extraNonce : UInt64) : List UInt8 :=
  resize (header ++ nonceTemplate extraNonce) (76 * 2)

/-- The branch of `mining.notify` for KawPow. -/
def kawpowJob (extraNonce : UInt64) (job : Job) (arr : List Json) : Except Fault Job := do
  let header ← getString (arr.getD 1 .null)
  let job := job.setBlobText (blobText header extraNonce)
  let target ← getString (arr.getD 3 .null)
  let job := job.setDiff (Job.toDiff (strtoull (resize target 16)))
  let height ← getUint64 (arr.getD 5 .null)
  return { job with height }

def byteAt (buf : List UInt8) (p : Nat) : Except Fault UInt8 :=
  match buf[p]? with
  | some b => .ok b
  | none => .error .outside

/-- `while ((p < m) && !stop(*p)) ++p`, with `n` bytes left before `m`. -/
def skip (stop : UInt8 → Bool) (buf : List UInt8) : Nat → Nat → Except Fault Nat
  | 0, p => .ok p
  | n + 1, p => do
    let b ← byteAt buf p
    if stop b then return p else skip stop buf n (p + 1)

/-- The height behind the length byte at `p + 1`. -/
def heightAt (buf : List UInt8) (p : Nat) : Except Fault Nat := do
  let lo ← byteAt buf (p + 2)
  let hi ← byteAt buf (p + 3)
  let size ← byteAt buf (p + 1)
  let height := lo.toNat + hi.toNat * 256
  if size = 4 then
    let a ← byteAt buf (p + 4)
    let b ← byteAt buf (p + 5)
    return height + (a.toNat + b.toNat * 256) * 0x10000
  else if size = 3 then
    let a ← byteAt buf (p + 4)
    return height + a.toNat * 0x10000
  else
    return height

/-- The height from the coinbase. -/
def coinbaseHeight (buf : List UInt8) : Except Fault Nat := do
  let p ← skip (· == 0xff) buf 128 32
  let p ← skip (· != 0xff) buf (160 - p) p
  if p < 160 then
    let last ← byteAt buf (p - 1)
    let previous ← byteAt buf (p - 2)
    if last = 0xff ∧ previous = 0xff then heightAt buf p else return 0
  else
    return 0

/-- The loop over the merkle branches; `none` for a branch that is not 32 bytes of hex. -/
def merkleRoot (k : Surroundings) (root : Hash) : List Json → Option Hash
  | [] => some root
  | b :: rest =>
    let buf := match b with
      | .string s => (Hex.decode (bytesOf s)).getD []
      | _ => []
    if buf.length ≠ 32 then none else merkleRoot k (k.sha256d (root.toList ++ buf)) rest

/-- `ethash_swap_u32` on the words before byte 36 and from byte 68 on. -/
def swapWords : Nat → List UInt8 → List UInt8
  | i, a :: b :: c :: d :: rest =>
    (if i < 36 ∨ 68 ≤ i then [d, c, b, a] else [a, b, c, d]) ++ swapWords (i + 4) rest
  | _, rest => rest

/-- The parameters 1 to 7 of `mining.notify` for GhostRider. -/
structure GhostriderParams where
  previous : String
  first : String
  second : String
  branches : List Json
  version : String
  nbits : String
  ntime : String

def ghostriderParams : List Json → Option GhostriderParams
  | _ :: .string previous :: .string first :: .string second :: .array branches ::
      .string version :: .string nbits :: .string ntime :: _ =>
    some ⟨previous, first, second, branches, version, nbits, ntime⟩
  | _ => none

/-- `blob += m_extraNonce.second` needs a string. -/
def extraNonceText (c : Client) : Except Fault (List UInt8) :=
  match c.extraNonce.2 with
  | some s => .ok (bytesOf s)
  | none => .error .nullString

/-- The coinbase transaction in hex: the pool's two halves around the extra nonces. -/
def coinbaseText (c : Client) (extraNonce : List UInt8) (params : GhostriderParams) :
    List UInt8 :=
  text params.first ++ extraNonce ++ List.replicate (c.extraNonce2Size * 2).toNat 48 ++
    text params.second

def coinbase (k : Surroundings) (c : Client) (params : GhostriderParams) :
    Except Fault (List UInt8) := do
  let extraNonce ← extraNonceText c
  if k.allocates ((text params.first ++ extraNonce).length + (c.extraNonce2Size * 2).toNat) then
    return coinbaseText c extraNonce params
  else
    .error (.exception "basic_string::append")

/-- The block header in hex, without its last four bytes. -/
def headerText (params : GhostriderParams) (root : Hash) : List UInt8 :=
  text params.version ++ text params.previous ++ Hex.encode root.toList ++ text params.ntime ++
    text params.nbits

/-- The job for a header, or a message. -/
def headerJob (c : Client) (job : Job) (header : List UInt8) : Except Fault (Except String Job) :=
  if header.length ≠ 76 * 2 then
    return .error "invalid mining.notify notification: invalid blob size"
  else
    match Hex.decode (resize header (80 * 2)) with
    -- the loop that swaps the words runs over the empty buffer
    | none => .error .outside
    | some bytes =>
      return .ok ((job.setBlobText (Hex.encode (swapWords 0 bytes))).setDiff c.nextDifficulty)

/-- The branch of `mining.notify` for GhostRider. -/
def ghostriderJob (k : Surroundings) (c : Client) (job : Job) (params : GhostriderParams) :
    Except Fault (Client × Except String Job) := do
  let blob ← coinbase k c params
  let buf := (Hex.decode blob).getD []
  let height ← coinbaseHeight buf
  match merkleRoot k (k.sha256d buf) params.branches with
  | none => return (c, .error "invalid mining.notify notification: param 4 is invalid")
  | some root =>
    let built ← headerJob c { job with height := UInt64.ofNat height } (headerText params root)
    return ({ c with ntime := text params.ntime }, built)

/-- What `mining.notify` does with a job that is built. -/
def offer (k : Surroundings) (c : Client) (job : Job) : Client × Outcome :=
  if k.verifies job.algorithm = false then (c, .closed)
  else if c.job.isEqual job then (c, .closed)
  else ({ c with job, authorized := true }, .received (!c.authorized))

/-- The algorithm of the pool, or else that of its coin. -/
def algo (c : Client) : Algorithm :=
  if c.algorithm = .invalid then c.coinAlgorithm else c.algorithm

def minArrSize (c : Client) : Nat := if algo c = .ghostriderRtm then 8 else 6

/-- A job before its blob. -/
def newJob (c : Client) (id : String) : Job where
  id := cString id
  algorithm := algo c
  extraNonce := c.extraNonce.2.getD ""

def notify (k : Surroundings) (c : Client) : Json → Except Fault (Client × Outcome)
  | .array arr =>
    if arr.length < minArrSize c then
      return (c, .rejected "invalid mining.notify notification: params array has wrong size")
    else
      match arr.head? with
      | some (.string id) =>
        if algo c = .ghostriderRtm then
          match ghostriderParams arr with
          | none => return (c, .rejected "invalid mining.notify notification: invalid param array")
          | some params => do
            let (c, built) ← ghostriderJob k c (newJob c id) params
            return match built with
              | .error message => (c, .rejected message)
              | .ok job => offer k c job
        else do
          let job ← kawpowJob c.extraNonce.1 (newJob c id) arr
          return offer k c job
      | _ => return (c, .rejected "invalid mining.notify notification: invalid job id")
  | _ => return (c, .rejected "invalid mining.notify notification: params is not an array")

def setDifficulty (k : Surroundings) (c : Client) : Json → Client × Outcome
  | .array arr =>
    if c.algorithm ≠ .ghostriderRtm then (c, .ignored)
    else
      match arr with
      | [] =>
        (c, .rejected "invalid mining.set_difficulty notification: params array is empty")
      | .double bits :: _ => ({ c with nextDifficulty := k.scale (.double bits) }, .stored)
      | .int i :: _ =>
        if 0 ≤ i ∧ i < 2 ^ 64 then ({ c with nextDifficulty := k.scale (.int i) }, .stored)
        else
          (c, .rejected
            "invalid mining.set_difficulty notification: difficulty is not a number")
      | _ =>
        (c, .rejected "invalid mining.set_difficulty notification: difficulty is not a number")
  | _ =>
    (c, .rejected "invalid mining.set_difficulty notification: params is not an array")

def setExtranonce (c : Client) : Json → Except Fault (Client × Outcome)
  | .array [] =>
    return (c, .rejected "invalid mining.set_extranonce notification: params array is empty")
  | .array (nonce :: _) => do
    let (value, s) ← setExtraNonce nonce
    return ({ c with extraNonce := (value, some s) }, .stored)
  | _ =>
    return (c, .rejected "invalid mining.set_extranonce notification: params is not an array")

def parseNotification (k : Surroundings) (c : Client) (method : String) (params : Json) :
    Except Fault (Client × Outcome) :=
  if method = "mining.set_target" then return (c, .ignored)
  else if method = "mining.set_extranonce" then setExtranonce c params
  else if method = "mining.set_difficulty" then return setDifficulty k c params
  else if method = "mining.notify" then notify k c params
  else return (c, .ignored)

end EthStratumClient

end VeloxHash
