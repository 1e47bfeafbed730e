import VeloxHash.ConfigReader
import VeloxHash.ThreadProfiles

/-! `CpuConfig::read`, where `none` is a JSON value read as a type that it does not have. -/

namespace VeloxHash

section Guarded

variable {σ α β : Type*} {p : α → Bool}

theorem mapM_guarded {f : α → Option β} {g : α → β}
    (h : ∀ a, f a = if p a then some (g a) else none) (l : List α) :
    l.mapM f = if l.all p then some (l.map g) else none := by
  induction l with
  | nil => rfl
  | cons a l ih =>
    rw [List.mapM_cons, ih, h]
    cases ha : p a <;> cases hl : l.all p <;> simp [ha, hl]

theorem foldlM_guarded {f : σ → α → Option σ} {g : σ → α → σ}
    (h : ∀ s a, f s a = if p a then some (g s a) else none) (s : σ) (l : List α) :
    l.foldlM f s = if l.all p then some (l.foldl g s) else none := by
  induction l generalizing s with
  | nil => rfl
  | cons a l ih =>
    rw [List.foldlM_cons, h]
    cases ha : p a with
    | false => simp [ha]
    | true => simp [ha, ih]

end Guarded

namespace ConfigReader

theorem eq_of_asUint {v : Json} {n : Nat} (h : asUint v = some n) : v = .int n ∧ n < 2 ^ 32 := by
  unfold asUint at h
  split at h
  case h_1 i =>
    split at h
    case isTrue hrange =>
      cases h
      exact ⟨congrArg Json.int (Int.toNat_of_nonneg hrange.1).symm, by omega⟩
    case isFalse => cases h
  case h_2 => cases h

theorem eq_of_asInt {v : Json} {i : Int} (h : asInt v = some i) :
    v = .int i ∧ CpuThread.isInt i = true := by
  unfold asInt at h
  split at h
  case h_1 =>
    split at h
    case isTrue hrange =>
      cases h
      exact ⟨rfl, decide_eq_true hrange⟩
    case isFalse => cases h
  case h_2 => cases h

end ConfigReader

namespace CpuThread

/-- `CpuThread::CpuThread(value)`, which asks neither of the first two elements for its type. -/
def read : Json → Option CpuThread
  | .array (intensity :: affinity :: _) => do
    let intensity ← ConfigReader.asUint intensity
    let affinity ← ConfigReader.asInt affinity
    some ⟨affinity, intensity⟩
  | .int i => if isInt i then some ⟨i, 0⟩ else some {}
  | _ => some {}

/-- An array of two or more elements begins with an unsigned and a signed number. -/
def typed : Json → Bool
  | .array (intensity :: affinity :: _) =>
    (ConfigReader.asUint intensity).isSome && (ConfigReader.asInt affinity).isSome
  | _ => true

theorem read_eq (v : Json) : read v = if typed v then some (ofJSON v) else none := by
  unfold read
  split
  case h_1 intensity affinity rest =>
    rw [typed, ofJSON]
    cases hintensity : ConfigReader.asUint intensity with
    | none => rfl
    | some n =>
      cases haffinity : ConfigReader.asInt affinity with
      | none => rfl
      | some i =>
        obtain ⟨rfl, hn⟩ := ConfigReader.eq_of_asUint hintensity
        obtain ⟨rfl, hi⟩ := ConfigReader.eq_of_asInt haffinity
        rw [getUint_of_lt hn, getInt_of_isInt hi]
        rfl
  case h_2 i =>
    rw [typed, ofJSON]
    · split <;> simp [*]
    · intro _ _ _ h
      cases h
  case h_3 =>
    rw [typed, ofJSON]
    · rfl
    all_goals assumption

end CpuThread

namespace CpuThreads

def read : Json → Option CpuThreads
  | .array elements => do
    let threads ← elements.mapM CpuThread.read
    some { data := threads.filter CpuThread.isValid }
  | v => some (ofJSON v)

def typed : Json → Bool
  | .array elements => elements.all CpuThread.typed
  | _ => true

theorem read_eq (v : Json) : read v = if typed v then some (ofJSON v) else none := by
  unfold read
  split
  case h_1 elements =>
    rw [mapM_guarded CpuThread.read_eq, typed, ofJSON]
    split <;> rfl
  case h_2 =>
    rw [typed]
    · rfl
    · assumption

end CpuThreads

namespace Threads

def profileStep (t : Threads) (member : String × Json) : Option Threads :=
  match member.2 with
  | .array _ | .object _ => do
    let threads ← CpuThreads.read member.2
    some (if threads.isEmpty then t else t.move (cString member.1) threads)
  | _ => some t

/-- `Threads::read`. -/
def readChecked (t : Threads) (members : List (String × Json)) : Option Threads := do
  let t ← members.foldlM profileStep t
  some (members.foldl readSetting t)

theorem profileStep_eq (t : Threads) (member : String × Json) : t.profileStep member =
    if CpuThreads.typed member.2 then some (t.readProfile member) else none := by
  obtain ⟨key, value⟩ := member
  cases value with
  | array elements =>
    simp only [profileStep, CpuThreads.read_eq, readProfile]
    cases CpuThreads.typed (.array elements) <;> rfl
  | object members => rfl
  | null | bool | int | double | string => rfl

theorem readChecked_eq (t : Threads) (members : List (String × Json)) : t.readChecked members =
    if members.all fun member => CpuThreads.typed member.2 then some (t.read members)
    else none := by
  rw [readChecked, foldlM_guarded profileStep_eq]
  split <;> rfl

end Threads

inductive AesMode
  | auto
  | hw
  | soft
  deriving DecidableEq

namespace Assembly

inductive Id
  | none
  | auto
  | intel
  | ryzen
  | bulldozer
  deriving DecidableEq

def name : Id → String
  | .none => "none"
  | .auto => "auto"
  | .intel => "intel"
  | .ryzen => "ryzen"
  | .bulldozer => "bulldozer"

/-- `Assembly::parse`. -/
def parse (value : Json) (default : Id) : Id :=
  match value with
  | .bool b => if b then .auto else .none
  | .string s =>
    (([.none, .auto, .intel, .ryzen, .bulldozer] : List Id).find? fun id =>
      BenchConfig.sameText (cString s) (name id)).getD default
  | _ => default

end Assembly

structure CpuConfig where
  aes : AesMode := .auto
  assembly : Assembly.Id := .auto
  enabled : Bool := true
  hugePagesJit : Bool := false
  yield : Bool := true
  memoryPool : Int := 0
  priority : Int := -1
  hugePageSize : Nat := 2048
  argon2Impl : Option String := none
  threads : Threads := {}
  limit : Nat := 100

namespace CpuConfig

def aesMode : Json → AesMode
  | .bool b => if b then .hw else .soft
  | _ => .auto

def readHugePages (size : Nat) : Json → Nat
  | .bool b => if b then 2048 else 0
  | .int i =>
    match ConfigReader.asUint (.int i) with
    | some size => if size < 1048576 then size else 2048
    | none => size
  | _ => size

def readMemoryPool (pool : Int) : Json → Int
  | .bool b => if b then -1 else 0
  | .int i => (ConfigReader.asInt (.int i)).getD pool
  | _ => pool

def toPriority (priority : Int) : Int := if -1 ≤ priority ∧ priority ≤ 5 then priority else -1

section Read

variable (info : Algorithm → Nat → InfoThreads)

/-- `CpuConfig::generate`. -/
def generate (config : CpuConfig) : CpuConfig :=
  { config with threads := config.threads.generate info config.limit config.enabled }

def read (config : CpuConfig) : Json → Option CpuConfig
  | .object members => do
    let object := ConfigReader.value (.object members)
    let threads ← config.threads.readChecked members
    some <| generate info {
      enabled := object.getBool "enabled" config.enabled
      hugePagesJit := object.getBool "huge-pages-jit" config.hugePagesJit
      limit := object.getUint "max-threads-hint" config.limit
      yield := object.getBool "yield" config.yield
      aes := aesMode (object.getValue "hw-aes")
      hugePageSize := readHugePages config.hugePageSize (object.getValue "huge-pages")
      memoryPool := readMemoryPool config.memoryPool (object.getValue "memory-pool")
      priority := toPriority (object.getInt "priority" (-1))
      assembly := Assembly.parse (object.getValue "asm") .auto
      argon2Impl := object.getString "argon2-impl"
      threads }
  | .bool b => some (generate info { config with enabled := b })
  | _ => some (generate info config)

end Read

/-- Where the CPU index of a thread comes from: a number of a list, a pair of a list, a bit of a
mask, or the topology. -/
inductive Given (info : Algorithm → Nat → InfoThreads) (limit : Nat) (v : Json) :
    CpuThread → Prop
  | number {key : String} {elements : List Json} {i : Int} {intensity : Nat} :
      (key, .array elements) ∈ ConfigReader.membersOf v → .int i ∈ elements →
        Given info limit v ⟨i, intensity⟩
  | pair {key : String} {elements rest : List Json} {i : Int} {intensity : Nat} :
      (key, .array elements) ∈ ConfigReader.membersOf v →
        .array (.int intensity :: .int i :: rest) ∈ elements → Given info limit v ⟨i, intensity⟩
  | bit {key : String} {members : List (String × Json)} {i intensity : Nat} :
      (key, .object members) ∈ ConfigReader.membersOf v → i < 64 →
        (CpuThreads.getAffinityMask ((Json.object members).getValue "affinity") %
          2 ^ 64).toNat.testBit i → Given info limit v ⟨i, intensity⟩
  | topology {a : Algorithm} {t : CpuThread} : t ∈ (info a limit).data → Given info limit v t

/-- A thread with a valid intensity whose affinity, if it has one, is the index that was given. -/
def Sound (info : Algorithm → Nat → InfoThreads) (limit : Nat) (v : Json) (t : CpuThread) : Prop :=
  t.intensity ≤ 8 ∧ (t.affinity = -1 ∨ Given info limit v t)

/-- Reading finishes, reads no value as a type that it does not have, and stores sound threads
only. -/
def ReadsSoundly (info : Algorithm → Nat → InfoThreads) (v : Json) : Prop :=
  ∃ config, read info {} v = some config ∧ ∀ profile ∈ config.threads.profiles,
    ∀ t ∈ profile.2.data, Sound info config.limit v t

/-- In every list of the section, each entry that is an array of two or more elements begins with
an unsigned and a signed number. -/
def Typed (v : Json) : Prop :=
  ∀ member ∈ ConfigReader.membersOf v, CpuThreads.typed member.2 = true

end CpuConfig

namespace Threads

variable {Q : CpuThread → Prop} {t : Threads}

/-- All threads of the profiles are of the kind. -/
def Stores (Q : CpuThread → Prop) (t : Threads) : Prop :=
  ∀ profile ∈ t.profiles, ∀ thread ∈ profile.2.data, Q thread

theorem Stores.move (h : Stores Q t) (name : String) {threads : CpuThreads}
    (hthreads : ∀ thread ∈ threads.data, Q thread) : Stores Q (t.move name threads) := by
  unfold Threads.move
  split
  · exact h
  · split
    · exact h
    · intro profile hprofile
      rcases List.mem_append.mp hprofile with hbefore | hafter
      · exact h profile ((List.takeWhile_sublist _).subset hbefore)
      · rcases List.mem_cons.mp hafter with rfl | hafter
        · exact hthreads
        · exact h profile ((List.dropWhile_sublist _).subset hafter)

theorem readSetting_profiles (t : Threads) (member : String × Json) :
    (t.readSetting member).profiles = t.profiles := by
  unfold readSetting
  dsimp only
  split
  · rfl
  · rfl
  · split <;> rfl
  · split
    · rfl
    · split
      · split <;> rfl
      · rfl
  · rfl

theorem read_profiles (t : Threads) (members : List (String × Json)) :
    (t.read members).profiles = (members.foldl readProfile t).profiles := by
  rw [Threads.read]
  generalize members.foldl readProfile t = t
  induction members generalizing t with
  | nil => rfl
  | cons member members ih => rw [List.foldl_cons, ih, readSetting_profiles]

theorem Stores.read (h : Stores Q t) {members : List (String × Json)}
    (hmembers : ∀ member ∈ members, ∀ thread ∈ (CpuThreads.ofJSON member.2).data, Q thread) :
    Stores Q (t.read members) := by
  have hfold : Stores Q (members.foldl readProfile t) := by
    induction members generalizing t with
    | nil => exact h
    | cons member members ih =>
      refine ih ?_ fun m hm => hmembers m (List.mem_cons_of_mem _ hm)
      have hmember := hmembers member (List.mem_cons_self ..)
      unfold readProfile
      split
      · dsimp only
        split
        · exact h
        · exact h.move _ hmember
      · dsimp only
        split
        · exact h
        · exact h.move _ hmember
      · exact h
  intro profile hprofile
  rw [read_profiles] at hprofile
  exact hfold profile hprofile

section Generate

variable {info : Algorithm → Nat → InfoThreads} {limit : Nat}

theorem Stores.disableNew (h : Stores Q t) (a : Algorithm) : Stores Q (t.disableNew a) := by
  unfold Threads.disableNew
  split <;> exact h

theorem Stores.aliasNew (h : Stores Q t) (a : Algorithm) (profile : String) :
    Stores Q (t.aliasNew a profile) := by
  unfold Threads.aliasNew
  split <;> exact h

variable (hinfo : ∀ a, ∀ thread ∈ (info a limit).data, Q thread)
include hinfo

theorem Stores.generateProfile (h : Stores Q t) (key : String) (a : Algorithm) :
    Stores Q (t.generateProfile key a (info a limit)) := by
  unfold Threads.generateProfile
  split
  · exact h
  · exact h.move key (hinfo a)

theorem Stores.moveNew (h : Stores Q t) (a : Algorithm) :
    Stores Q (t.moveNew a (info a limit)) := by
  unfold Threads.moveNew
  split
  · exact h
  · exact h.move _ (hinfo a)

theorem Stores.generateRandomX (h : Stores Q t) : Stores Q (t.generateRandomX info limit) := by
  unfold Threads.generateRandomX
  dsimp only
  split
  · exact ((h.aliasNew .rxArq "rx/wow").moveNew hinfo .rxWow).generateProfile hinfo "rx" .rx0
  · exact ((h.moveNew hinfo .rxArq).moveNew hinfo .rxWow).generateProfile hinfo "rx" .rx0

theorem Stores.generate (h : Stores Q t) (enabled : Bool) :
    Stores Q (t.generate info limit enabled) := by
  unfold Threads.generate
  split
  · exact h
  · have hcn := (h.generateProfile hinfo "cn" .cn1).disableNew .cn0
    have hlite := (hcn.generateProfile hinfo "cn-lite" .cnLite1).disableNew .cnLite0
    have hheavy := hlite.generateProfile hinfo "cn-heavy" .cnHeavy0
    have hpico := hheavy.generateProfile hinfo "cn-pico" .cnPico0
    have hrandomX := (hpico.generateProfile hinfo "cn/upx2" .cnUpx2).generateRandomX hinfo
    exact (hrandomX.generateProfile hinfo "argon2" .ar2ChukwaV2).generateProfile hinfo "ghostrider"
      .ghostriderRtm

end Generate

end Threads

namespace CpuConfig

section Sound

variable {info : Algorithm → Nat → InfoThreads} {limit : Nat} {v : Json}

theorem sound_topology (a : Algorithm) :
    ∀ t ∈ (info a limit).data, Sound info limit v t := fun t ht => by
  have hvalid := ((info a limit).valid t ht).1
  rw [CpuThread.isValid, decide_eq_true_eq] at hvalid
  exact ⟨hvalid, .inr (.topology ht)⟩

theorem getAffinity_bit (index : Nat) (mask : Int) : CpuThreads.getAffinity index mask = -1 ∨
    ∃ i < 64, (mask % 2 ^ 64).toNat.testBit i ∧ CpuThreads.getAffinity index mask = (i : Nat) := by
  unfold CpuThreads.getAffinity
  split
  · exact .inl rfl
  · dsimp only
    cases hbit : ((List.range 64).filter fun i => (mask % 2 ^ 64).toNat.testBit i)[index]? with
    | none => exact .inl rfl
    | some i =>
      obtain ⟨hrange, hset⟩ := List.mem_filter.mp (List.mem_of_getElem? hbit)
      exact .inr ⟨i, List.mem_range.mp hrange, hset, rfl⟩

theorem sound_element {key : String} {elements : List Json} {element : Json}
    (hmem : (key, .array elements) ∈ ConfigReader.membersOf v) (helement : element ∈ elements)
    (htyped : CpuThread.typed element = true) (hvalid : (CpuThread.ofJSON element).isValid = true) :
    Sound info limit v (CpuThread.ofJSON element) := by
  rw [CpuThread.isValid, decide_eq_true_eq] at hvalid
  refine ⟨hvalid, ?_⟩
  unfold CpuThread.typed at htyped
  split at htyped
  case h_1 intensity affinity rest =>
    rw [Bool.and_eq_true, Option.isSome_iff_exists, Option.isSome_iff_exists] at htyped
    obtain ⟨⟨n, hn⟩, i, hi⟩ := htyped
    obtain ⟨rfl, hlt⟩ := ConfigReader.eq_of_asUint hn
    obtain ⟨rfl, hrange⟩ := ConfigReader.eq_of_asInt hi
    rw [CpuThread.ofJSON, CpuThread.getUint_of_lt hlt, CpuThread.getInt_of_isInt hrange]
    exact .inr (.pair hmem helement)
  case h_2 hother =>
    unfold CpuThread.ofJSON
    split
    case h_1 => exact absurd rfl (hother _ _ _)
    case h_2 i =>
      split
      · exact .inr (.number hmem helement)
      · exact .inl rfl
    case h_3 => exact .inl rfl

theorem sound_member {member : String × Json} (hmem : member ∈ ConfigReader.membersOf v)
    (htyped : CpuThreads.typed member.2 = true) :
    ∀ t ∈ (CpuThreads.ofJSON member.2).data, Sound info limit v t := by
  intro t ht
  obtain ⟨key, value⟩ := member
  cases value with
  | array elements =>
    obtain ⟨ht, hvalid⟩ := List.mem_filter.mp ht
    obtain ⟨element, helement, rfl⟩ := List.mem_map.mp ht
    exact sound_element hmem helement (List.all_eq_true.mp htyped element helement) hvalid
  | object members =>
    obtain ⟨i, -, rfl⟩ := List.mem_map.mp ht
    refine ⟨?_, ?_⟩
    · dsimp only
      split <;> omega
    · rcases getAffinity_bit i (CpuThreads.getAffinityMask ((Json.object members).getValue
        "affinity")) with hnone | ⟨bit, hbit, hset, heq⟩
      · exact .inl hnone
      · rw [heq]
        exact .inr (.bit hmem hbit hset)
  | null | bool | int | double | string => exact absurd ht List.not_mem_nil

theorem readsSoundly_iff (info : Algorithm → Nat → InfoThreads) (v : Json) :
    ReadsSoundly info v ↔ Typed v := by
  have hempty : ∀ Q, Threads.Stores Q {} := fun Q profile hprofile =>
    absurd hprofile List.not_mem_nil
  cases v with
  | object members =>
    have hchecked := Threads.readChecked_eq {} members
    constructor
    · rintro ⟨config, hread, -⟩
      rw [read, hchecked] at hread
      split at hread
      case isTrue hall => exact fun member hmem => List.all_eq_true.mp hall member hmem
      case isFalse => cases hread
    · intro htyped
      have hall : (members.all fun member => CpuThreads.typed member.2) = true :=
        List.all_eq_true.mpr htyped
      rw [if_pos hall] at hchecked
      refine ⟨_, by rw [read]; simp only [hchecked]; rfl, ?_⟩
      exact ((hempty _).read fun member hmem => sound_member hmem (htyped member hmem)).generate
        (fun a => sound_topology a) _
  | bool b =>
    refine iff_of_true ⟨_, rfl, ?_⟩ fun member hmem => absurd hmem List.not_mem_nil
    exact (hempty _).generate (fun a => sound_topology a) b
  | null | int | double | string | array =>
    refine iff_of_true ⟨_, rfl, ?_⟩ fun member hmem => absurd hmem List.not_mem_nil
    exact (hempty _).generate (fun a => sound_topology a) true

/-- A profile with a text where the intensity belongs. -/
def textEntry : Json := .object [("rx", .array [.array [.string "a", .int 0]])]

theorem read_textEntry :
    read (fun _ _ => ⟨[], nofun⟩) {} textEntry = none ∧
      ¬ ReadsSoundly (fun _ _ => ⟨[], nofun⟩) textEntry :=
  ⟨rfl, fun ⟨_, hread, _⟩ => nomatch hread⟩

end Sound

end CpuConfig

end VeloxHash
