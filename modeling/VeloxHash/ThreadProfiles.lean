import VeloxHash.PoolConfig
import VeloxHash.CpuThreads
import Mathlib.Data.String.Basic

/-! `Threads<CpuThreads>`: the profiles, aliases and disabled algorithms of a configuration, which
share the names of one JSON object, and what `CpuConfig::generate` adds to them. -/

namespace VeloxHash

/-- `String::operator<`; an empty name is neither less nor greater than another one. -/
def nameLess (a b : String) : Bool := a ≠ "" ∧ b ≠ "" ∧ a < b

/-- `m_profiles` is in the order of the names. -/
structure Threads where
  profiles : List (String × CpuThreads) := []
  disabled : Algorithm → Bool := fun _ => false
  aliases : Algorithm → Option String := fun _ => none

namespace Threads

/-- `std::map::lower_bound`. -/
def lowerBound (t : Threads) (name : String) : List (String × CpuThreads) :=
  t.profiles.dropWhile fun e => nameLess e.1 name

def find? (t : Threads) (name : String) : Option CpuThreads :=
  match t.lowerBound name with
  | [] => none
  | e :: _ => if nameLess name e.1 then none else some e.2

def has (t : Threads) (name : String) : Bool := (t.find? name).isSome

def isDisabled (t : Threads) (a : Algorithm) : Bool := t.disabled a

def isExist (t : Threads) (a : Algorithm) : Bool :=
  t.isDisabled a || (t.aliases a).isSome || t.has a.nameText

def move (t : Threads) (name : String) (threads : CpuThreads) : Threads :=
  if t.has name then t
  else if threads.isEmpty then t
  else
    { t with
      profiles := (t.profiles.takeWhile fun e => nameLess e.1 name) ++
        (name, threads) :: t.lowerBound name }

def disable (t : Threads) (a : Algorithm) : Threads :=
  { t with disabled := Function.update t.disabled a true }

def setAlias (t : Threads) (a : Algorithm) (profile : String) : Threads :=
  { t with aliases := Function.update t.aliases a (some profile) }

/-- The first loop of `read`. -/
def readProfile (t : Threads) (member : String × Json) : Threads :=
  match member.2 with
  | .array _ | .object _ =>
    let threads := CpuThreads.ofJSON member.2
    if threads.isEmpty then t else t.move (cString member.1) threads
  | _ => t

/-- The second loop of `read`; `std::map::insert` keeps an alias that is there. -/
def readSetting (t : Threads) (member : String × Json) : Threads :=
  let a := Algorithm.parse (cString member.1)
  match member.2 with
  | .array _ | .object _ => t
  | .bool false => if a.isValid then t.disable a else t
  | .string s =>
    if !a.isValid then t
    else if t.has (cString s) then
      if (t.aliases a).isSome then t else t.setAlias a (cString s)
    else t.disable a
  | _ => t

def read (t : Threads) (members : List (String × Json)) : Threads :=
  members.foldl readSetting (members.foldl readProfile t)

def toJSON (t : Threads) : List (String × Json) :=
  t.profiles.map (fun e => (e.1, e.2.toJSON)) ++
    (Algorithm.byId.filter t.disabled).map (fun a => (a.nameText, .bool false)) ++
      Algorithm.byId.filterMap fun a => (t.aliases a).map fun p => (a.nameText, .string p)

/-- `Algorithm::base()` is `CN_2`. -/
def isBaseCn2 (a : Algorithm) : Bool := a.isCN && (a.id &&& 0xff00) == 0x200

/-- The part of a name before its first slash. -/
def baseName (name : String) : Option String :=
  if name.toList.contains '/' then some (String.ofList (name.toList.takeWhile (· ≠ '/'))) else none

def profileName (t : Threads) (a : Algorithm) (strict : Bool) : Option String :=
  if t.isDisabled a then none
  else if t.has a.nameText then some a.nameText
  else if (t.aliases a).isSome then t.aliases a
  else if strict then none
  else if a.family = 0x63150000 ∧ isBaseCn2 a ∧ t.has "cn/2" then some "cn/2"
  else if (baseName a.nameText).any t.has then baseName a.nameText
  else if t.has "*" then some "*"
  else none

def get (t : Threads) (a : Algorithm) (strict : Bool) : CpuThreads :=
  match t.profileName a strict with
  | none => {}
  | some name => (t.find? name).getD {}

end Threads

/-- What `Cpu::info()->threads` gives: threads with or without a unit of the topology. -/
structure InfoThreads where
  data : List CpuThread
  valid : ∀ t ∈ data, t.isValid = true ∧ CpuThread.isInt t.affinity = true

namespace Threads

def generateProfile (t : Threads) (key : String) (a : Algorithm) (threads : InfoThreads) :
    Threads :=
  if t.isExist a || t.has key then t else t.move key { data := threads.data }

def disableNew (t : Threads) (a : Algorithm) : Threads := if t.isExist a then t else t.disable a

def moveNew (t : Threads) (a : Algorithm) (threads : InfoThreads) : Threads :=
  if t.isExist a then t else t.move a.nameText { data := threads.data }

def aliasNew (t : Threads) (a : Algorithm) (profile : String) : Threads :=
  if t.isExist a then t else t.setAlias a profile

section Generate

variable (info : Algorithm → Nat → InfoThreads) (limit : Nat)

def generateRandomX (t : Threads) : Threads :=
  let wow := info .rxWow limit
  let arq := info .rxArq limit
  let t := if arq.data = wow.data then t.aliasNew .rxArq "rx/wow" else t.moveNew .rxArq arq
  let t := t.moveNew .rxWow wow
  t.generateProfile "rx" .rx0 (info .rx0 limit)

/-- `CpuConfig::generate`. -/
def generate (t : Threads) (enabled : Bool) : Threads :=
  if !enabled || t.has "*" then t
  else
    let t := t.generateProfile "cn" .cn1 (info .cn1 limit)
    let t := t.disableNew .cn0
    let t := t.generateProfile "cn-lite" .cnLite1 (info .cnLite1 limit)
    let t := t.disableNew .cnLite0
    let t := t.generateProfile "cn-heavy" .cnHeavy0 (info .cnHeavy0 limit)
    let t := t.generateProfile "cn-pico" .cnPico0 (info .cnPico0 limit)
    let t := t.generateProfile "cn/upx2" .cnUpx2 (info .cnUpx2 limit)
    let t := t.generateRandomX info limit
    let t := t.generateProfile "argon2" .ar2ChukwaV2 (info .ar2ChukwaV2 limit)
    t.generateProfile "ghostrider" .ghostriderRtm (info .ghostriderRtm limit)

end Generate

/-- The keys of generated profiles. -/
def generatedKeys : List String :=
  ["cn", "cn-lite", "cn-heavy", "cn-pico", "cn/upx2", "rx", "argon2", "ghostrider"]

/-- The calls that `generate` makes. -/
inductive Call
  | profile (key : String) (a : Algorithm) (threads : InfoThreads) (h : key ∈ generatedKeys)
  | move (a : Algorithm) (threads : InfoThreads) (h : a = .rxArq ∨ a = .rxWow)
  | disable (a : Algorithm) (h : a = .cn0 ∨ a = .cnLite0)
  | setAlias

def apply (t : Threads) : Call → Threads
  | .profile key a threads _ => t.generateProfile key a threads
  | .move a threads _ => t.moveNew a threads
  | .disable a _ => t.disableNew a
  | .setAlias => t.aliasNew .rxArq "rx/wow"

def applyAll (t : Threads) (calls : List Call) : Threads := calls.foldl apply t

/-- `generate` makes a sequence of these calls. -/
theorem generate_eq_applyAll (info : Algorithm → Nat → InfoThreads) (limit : Nat) (t : Threads)
    (enabled : Bool) : ∃ calls, t.generate info limit enabled = t.applyAll calls := by
  unfold generate
  split
  · exact ⟨[], rfl⟩
  · refine ⟨[.profile "cn" .cn1 (info .cn1 limit) (by decide), .disable .cn0 (.inl rfl),
      .profile "cn-lite" .cnLite1 (info .cnLite1 limit) (by decide), .disable .cnLite0 (.inr rfl),
      .profile "cn-heavy" .cnHeavy0 (info .cnHeavy0 limit) (by decide),
      .profile "cn-pico" .cnPico0 (info .cnPico0 limit) (by decide),
      .profile "cn/upx2" .cnUpx2 (info .cnUpx2 limit) (by decide),
      if (info .rxArq limit).data = (info .rxWow limit).data then .setAlias
        else .move .rxArq (info .rxArq limit) (.inl rfl),
      .move .rxWow (info .rxWow limit) (.inr rfl),
      .profile "rx" .rx0 (info .rx0 limit) (by decide),
      .profile "argon2" .ar2ChukwaV2 (info .ar2ChukwaV2 limit) (by decide),
      .profile "ghostrider" .ghostriderRtm (info .ghostriderRtm limit) (by decide)], ?_⟩
    unfold generateRandomX
    dsimp only
    split <;> rfl

end Threads

end VeloxHash
