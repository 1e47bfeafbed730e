import VeloxHash.EthStratumClient
import VeloxHash.SelfSelectClient

/-! `CpuThread` and `CpuThreads`, from JSON and to it. -/

namespace VeloxHash

structure CpuThread where
  affinity : Int := -1
  intensity : Nat := 0
  deriving DecidableEq, Repr

namespace CpuThread

/-- `IsInt`. -/
def isInt (i : Int) : Bool := -2 ^ 31 ≤ i ∧ i < 2 ^ 31

/-- `GetUint` of a number: its low 32 bits. -/
def getUint : Json → Nat
  | .int i => (i % 2 ^ 32).toNat
  | _ => 0

/-- `GetInt` of a number: its low 32 bits with their sign. -/
def getInt (v : Json) : Int :=
  if getUint v < 2 ^ 31 then getUint v else (getUint v : Int) - 2 ^ 32

def ofJSON : Json → CpuThread
  | .array (intensity :: affinity :: _) => ⟨getInt affinity, getUint intensity⟩
  | .int i => if isInt i then ⟨i, 0⟩ else {}
  | _ => {}

def toJSON (t : CpuThread) : Json :=
  if t.intensity = 0 then .int t.affinity else .array [.int t.intensity, .int t.affinity]

def isValid (t : CpuThread) : Bool := t.intensity ≤ 8

/-- What `intensity()` returns. -/
def effectiveIntensity (t : CpuThread) : Nat := if t.intensity = 0 then 1 else t.intensity

theorem getUint_of_lt {n : Nat} (h : n < 2 ^ 32) : getUint (.int n) = n := by
  unfold getUint
  dsimp only
  omega

theorem getInt_range (v : Json) : isInt (getInt v) = true := by
  have hlt : getUint v < 2 ^ 32 := by
    unfold getUint
    split <;> omega
  unfold isInt getInt
  rw [decide_eq_true_eq]
  split <;> omega

theorem affinity_ofJSON (v : Json) : isInt (ofJSON v).affinity = true := by
  unfold ofJSON
  split
  · exact getInt_range _
  · split
    next h => exact h
    next => rfl
  · rfl

theorem getInt_of_isInt {i : Int} (h : isInt i = true) : getInt (.int i) = i := by
  unfold isInt at h
  rw [decide_eq_true_eq] at h
  unfold getInt getUint
  dsimp only
  split <;> omega

/-- A valid thread is read as it is written. -/
theorem ofJSON_toJSON {t : CpuThread} (hvalid : t.isValid = true)
    (hint : isInt t.affinity = true) : ofJSON t.toJSON = t := by
  unfold isValid at hvalid
  rw [decide_eq_true_eq] at hvalid
  obtain ⟨affinity, intensity⟩ := t
  unfold toJSON
  split
  next hzero =>
    obtain rfl : intensity = 0 := hzero
    exact if_pos hint
  next =>
    have hlt : intensity < 2 ^ 32 := lt_of_le_of_lt hvalid (by norm_num)
    change (⟨getInt (.int affinity), getUint (.int intensity)⟩ : CpuThread) = _
    rw [getInt_of_isInt hint, getUint_of_lt hlt]

end CpuThread

namespace Strtoll

def clamp (i : Int) : Int := max (-2 ^ 63) (min i (2 ^ 63 - 1))

def signed (negative : Bool) (n : Nat) : Int := if negative then -n else n

/-- `strtoll(text, nullptr, 16)`. -/
def hex (text : List UInt8) : Int :=
  match Strtoull.scan text with
  | none => 0
  | some (negative, n) => clamp (signed negative n)

/-- `strtoll(text, nullptr, 10)`. -/
def decimal (text : List UInt8) : Int :=
  let (negative, rest) := Strtoull.sign (text.dropWhile Strtoull.isSpace)
  let digits := rest.takeWhile fun c => 48 ≤ c ∧ c ≤ 57
  clamp (signed negative (Radix.value 10 (digits.map fun c => c.toNat - 48)))

/-- `strstr(text, "0x")`. -/
def findPrefix : List UInt8 → Option (List UInt8)
  | [] => none
  | c :: rest => if c = 48 ∧ rest.head? = some 120 then some (c :: rest) else findPrefix rest

end Strtoll

structure CpuThreads where
  isObject : Bool := false
  affinity : Int := -1
  data : List CpuThread := []
  deriving DecidableEq, Repr

namespace CpuThreads

def getAffinityMask : Json → Int
  | .int i => if -2 ^ 63 ≤ i ∧ i < 2 ^ 63 then i else -1
  | .string s =>
    match Strtoll.findPrefix (text s) with
    | some p => Strtoll.hex p
    | none => Strtoll.decimal (text s)
  | _ => -1

/-- The set bits of the mask from the lowest one on. -/
def getAffinity (index : Nat) (affinity : Int) : Int :=
  if affinity = -1 then -1
  else
    let bits := (List.range 64).filter fun i => (affinity % 2 ^ 64).toNat.testBit i
    (bits[index]?.map Int.ofNat).getD (-1)

/-- `Json::getUint`. -/
def getUint (key : String) (v : Json) (default : Nat) : Nat :=
  match v.getValue key with
  | .int i => if 0 ≤ i ∧ i < 2 ^ 32 then i.toNat else default
  | _ => default

/-- The threads of an object. -/
def build (affinity : Int) (intensity threads : Nat) : CpuThreads where
  isObject := true
  affinity := affinity
  data := (List.range threads).map fun i => ⟨getAffinity i affinity, intensity⟩

def ofJSON (v : Json) : CpuThreads :=
  match v with
  | .array elements => { data := (elements.map CpuThread.ofJSON).filter CpuThread.isValid }
  | .object _ =>
    let intensity := getUint "intensity" v 1
    let threads := min (getUint "threads" v 0) 1024
    build (getAffinityMask (v.getValue "affinity"))
      (if intensity < 1 ∨ 5 < intensity then 1 else intensity) threads
  | _ => {}

def toJSON (t : CpuThreads) : Json :=
  if t.isObject then
    .object [
      ("intensity", .int (t.data.head?.elim 1 CpuThread.effectiveIntensity : Nat)),
      ("threads", .int t.data.length),
      ("affinity", .int t.affinity)]
  else .array (t.data.map CpuThread.toJSON)

def isEmpty (t : CpuThreads) : Bool := t.data.isEmpty

/-- Threads that are read back as they are. -/
inductive Storable : CpuThreads → Prop
  | array {data : List CpuThread} :
      (∀ t ∈ data, t.isValid = true ∧ CpuThread.isInt t.affinity = true) → Storable { data }
  | object {affinity : Int} {intensity threads : Nat} :
      -2 ^ 63 ≤ affinity → affinity < 2 ^ 63 → 1 ≤ intensity → intensity ≤ 5 → threads ≤ 1024 →
        Storable (build affinity intensity threads)

theorem mask_range (v : Json) : -2 ^ 63 ≤ getAffinityMask v ∧ getAffinityMask v < 2 ^ 63 := by
  have hclamp (i : Int) : -2 ^ 63 ≤ Strtoll.clamp i ∧ Strtoll.clamp i < 2 ^ 63 := by
    unfold Strtoll.clamp
    omega
  have hhex (text : List UInt8) : -2 ^ 63 ≤ Strtoll.hex text ∧ Strtoll.hex text < 2 ^ 63 := by
    unfold Strtoll.hex
    split
    · decide
    · exact hclamp _
  unfold getAffinityMask
  split
  · split
    next h => exact h
    next => decide
  · split
    · exact hhex _
    · exact hclamp _
  · decide

/-- Whatever is read is read again as it is written. -/
theorem storable_ofJSON (v : Json) : Storable (ofJSON v) := by
  cases v with
  | array elements =>
    refine .array fun t ht => ?_
    obtain ⟨hmem, hvalid⟩ := List.mem_filter.mp ht
    obtain ⟨element, -, rfl⟩ := List.mem_map.mp hmem
    exact ⟨hvalid, CpuThread.affinity_ofJSON element⟩
  | object members =>
    obtain ⟨hlow, hhigh⟩ := mask_range ((Json.object members).getValue "affinity")
    refine .object hlow hhigh ?_ ?_ (Nat.min_le_right _ _)
    · split
      · exact Nat.le_refl 1
      next h => exact Nat.not_lt.mp fun hlt => h (.inl hlt)
    · split
      · decide
      next h => exact Nat.not_lt.mp fun hlt => h (.inr hlt)
  | _ => exact .array fun t ht => absurd ht List.not_mem_nil

theorem build_length (affinity : Int) (intensity threads : Nat) :
    (build affinity intensity threads).data.length = threads := by
  rw [build, List.length_map, List.length_range]

/-- The intensity that is written for an object, where it has threads. -/
theorem build_intensity {affinity : Int} {intensity threads : Nat} (hpos : 1 ≤ intensity)
    (hthreads : threads ≠ 0) :
    (build affinity intensity threads).data.head?.elim 1 CpuThread.effectiveIntensity =
      intensity := by
  obtain ⟨n, rfl⟩ := Nat.exists_eq_succ_of_ne_zero hthreads
  unfold build
  rw [List.range_succ_eq_map, List.map_cons, List.head?_cons]
  exact if_neg (Nat.one_le_iff_ne_zero.mp hpos)

theorem getUint_of_lt {key : String} {v : Json} {n : Nat} (h : v.getValue key = .int (n : Nat))
    (hlt : n < 2 ^ 32) (default : Nat) : getUint key v default = n := by
  unfold getUint
  rw [h]
  dsimp only
  rw [if_pos (by omega), Int.toNat_natCast]

theorem ofJSON_object {affinity : Int} {intensity threads : Nat} (hlow : -2 ^ 63 ≤ affinity)
    (hhigh : affinity < 2 ^ 63) (hpos : 1 ≤ intensity) (hfive : intensity ≤ 5)
    (hthreads : threads ≤ 1024) :
    ofJSON (.object [("intensity", .int (intensity : Nat)), ("threads", .int (threads : Nat)),
      ("affinity", .int affinity)]) = build affinity intensity threads := by
  unfold ofJSON
  dsimp only
  have hmask : getAffinityMask (.int affinity) = affinity := if_pos ⟨hlow, hhigh⟩
  rw [getUint_of_lt (n := intensity) (by simp [Json.getValue, Json.findMember]) (by omega),
    getUint_of_lt (n := threads) (by simp [Json.getValue, Json.findMember]) (by omega),
    if_neg (by omega), Nat.min_eq_left hthreads]
  have hvalue : (Json.object [("intensity", .int (intensity : Nat)),
      ("threads", .int (threads : Nat)), ("affinity", .int affinity)]).getValue "affinity" =
        .int affinity := by simp [Json.getValue, Json.findMember]
  rw [hvalue, hmask]

/-- Storable threads are read as they are written. -/
theorem ofJSON_toJSON {t : CpuThreads} (h : Storable t) : ofJSON t.toJSON = t := by
  cases h with
  | @array data hdata =>
    have hsame : (data.map CpuThread.toJSON).map CpuThread.ofJSON = data := by
      rw [List.map_map]
      refine (List.map_congr_left fun t ht => ?_).trans (List.map_id data)
      exact CpuThread.ofJSON_toJSON (hdata t ht).1 (hdata t ht).2
    have hkept : data.filter CpuThread.isValid = data :=
      List.filter_eq_self.mpr fun t ht => (hdata t ht).1
    have hread : ofJSON (toJSON { data }) = {
        data := ((data.map CpuThread.toJSON).map CpuThread.ofJSON).filter CpuThread.isValid } := rfl
    rw [hread, hsame, hkept]
  | @object affinity intensity threads hlow hhigh hpos hfive hthreads =>
    have hobject : (build affinity intensity threads).isObject = true := rfl
    unfold toJSON
    rw [if_pos hobject, build_length]
    by_cases hzero : threads = 0
    · rw [hzero]
      exact ofJSON_object hlow hhigh (Nat.le_refl 1) (show 1 ≤ 5 by decide) (Nat.zero_le _)
    · rw [build_intensity hpos hzero]
      exact ofJSON_object hlow hhigh hpos hfive hthreads

theorem toJSON_isProfile (t : CpuThreads) : t.toJSON.isObject = true ∨ ∃ l, t.toJSON = .array l := by
  unfold toJSON
  split
  · exact .inl rfl
  · exact .inr ⟨_, rfl⟩

end CpuThreads

end VeloxHash
