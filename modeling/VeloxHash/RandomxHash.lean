import VeloxHash.InterpretedVm

/-! `randomx_calculate_hash`, and the same hash in two halves: `randomx_calculate_hash_next` ends
the hash of one input and fills the scratchpad for the next in the same pass. -/

namespace VeloxHash.RandomxHash

open Randomx BytecodeMachine CodeBuffer Confinement SoftAes StridedLoop InterpretedVm

/-- A block as two doublewords. -/
def vecOf (s : Block) : Vec128 :=
  ⟨.ofNat (ofLe ((blockBytes s).take 8)), .ofNat (ofLe ((blockBytes s).drop 8))⟩

/-- The bytes of a `RegisterFile`. -/
def registerBytes (reg : RegisterFile) : List UInt8 :=
  (List.ofFn reg.r).flatMap (fun x => le x.toNat 8) ++ (List.ofFn reg.f).flatMap Vec128.bytes ++
    (List.ofFn reg.e).flatMap Vec128.bytes ++ (List.ofFn reg.a).flatMap Vec128.bytes

/-- The hash of a scratchpad, written over `reg.a`. -/
def withHash (reg : RegisterFile) (s : Lanes) : RegisterFile :=
  { reg with a := ![vecOf s.state0, vecOf s.state1, vecOf s.state2, vecOf s.state3] }

section Model

variable (config : VmConfig) (fp : FloatArithmetic) (lines : Fin datasetItemCount → Fin 8 → UInt64)
  (fuel : Nat) (t : Sboxes) (softAes : Fin 3) (blake2b : Nat → List UInt8 → List UInt8)

/-- `tempHash`, from 64 bytes of BLAKE2b. -/
def tempHash (input : List UInt8) : Lanes :=
  .load (fun a => (blake2b 64 input).getD a 0) 0

def scratchpadSize : Nat := config.scratchpadL3Size.toNat

/-- `initScratchpad`, which writes the state of the filling back to its seed. -/
def initScratchpad (x : Vm × Lanes) : Vm × Lanes :=
  let filled := fillAes1Rx4 t softAes x.2 (scratchpadSize config) x.1.scratchpad
  ({ x.1 with scratchpad := filled.2 }, filled.1)

def resetRoundingMode (x : Vm × Lanes) : Vm × Lanes := ({ x.1 with mode := 0 }, x.2)

/-- A program of the chain, and the seed of the program behind it. -/
def link (x : Vm × Lanes) : Option (Vm × Lanes) :=
  (run config fp lines fuel t softAes x.2 x.1).map fun vm =>
    (vm, tempHash blake2b (registerBytes vm.reg))

/-- All programs of a hash. -/
def programs (x : Vm × Lanes) : Option Vm :=
  (rounds (link config fp lines fuel t softAes blake2b) (config.programCount - 1).toNat x).bind
    fun y => run config fp lines fuel t softAes y.2 y.1

/-- `getFinalResult`. -/
def getFinalResult (vm : Vm) : List UInt8 × Vm :=
  let reg := withHash vm.reg (hashAes1Rx4 t softAes vm.scratchpad (scratchpadSize config))
  (blake2b 32 (registerBytes reg), { vm with reg })

/-- `randomx_calculate_hash`. -/
def calculateHash (vm : Vm) (input : List UInt8) : Option (List UInt8 × Vm) :=
  (programs config fp lines fuel t softAes blake2b (resetRoundingMode
    (initScratchpad config t softAes (vm, tempHash blake2b input)))).map
      (getFinalResult config t softAes blake2b)

/-- `randomx_calculate_hash_first`. -/
def calculateHashFirst (vm : Vm) (input : List UInt8) : Vm × Lanes :=
  initScratchpad config t softAes (vm, tempHash blake2b input)

/-- `hashAndFill` with one of the instances of `hashAndFillAes1Rx4`. -/
def hashAndFill (passAes : Fin 3) (unroll : Nat) (x : Vm × Lanes) :
    List UInt8 × Vm × Lanes :=
  let pass := hashAndFillAes1Rx4 t passAes unroll x.1.scratchpad (scratchpadSize config) x.2
  let reg := withHash x.1.reg pass.1
  (blake2b 32 (registerBytes reg), { x.1 with reg, scratchpad := pass.2.2 }, pass.2.1)

/-- `randomx_calculate_hash_next`. -/
def calculateHashNext (passAes : Fin 3) (unroll : Nat) (x : Vm × Lanes) (nextInput : List UInt8) :
    Option (List UInt8 × Vm × Lanes) :=
  (programs config fp lines fuel t softAes blake2b (resetRoundingMode x)).map fun vm =>
    hashAndFill config t blake2b passAes unroll (vm, tempHash blake2b nextInput)

/-- What a worker does: the outputs for inputs that follow each other. -/
def pipelined (passAes : Fin 3) (unroll : Nat) :
    Vm × Lanes → List (List UInt8) → Option (List (List UInt8))
  | _, [] => some []
  | x, nextInput :: rest =>
    (calculateHashNext config fp lines fuel t softAes blake2b passAes unroll x nextInput).bind
      fun y => (pipelined passAes unroll y.2 rest).map (y.1 :: ·)

end Model

section Scratchpad

variable {t : Sboxes} {softAes : Fin 3} {m m' : Memory}

theorem hashState_congr {p : Nat} {s : Lanes} (h : ∀ a, p ≤ a → a < p + 64 → m a = m' a) :
    hashState t softAes m p s = hashState t softAes m' p s := by
  rw [hashState, Lanes.load_congr h, hashState]

/-- The hash of a scratchpad depends on its own bytes. -/
theorem hashAes1Rx4_congr {n : Nat} (hn : 64 ∣ n) (h : ∀ a < n, m a = m' a) :
    hashAes1Rx4 t softAes m n = hashAes1Rx4 t softAes m' n := by
  have hrelated := @strided_related Lanes Lanes 64 (hashState t softAes m) 0 n hashStart
    (hashState t softAes m') hashStart (fun p x y => x = y ∧ 64 ∣ p) ⟨rfl, dvd_zero 64⟩
    fun p x y hlt hxy => by
      obtain ⟨rfl, hp⟩ := hxy
      have hroom : p + 64 ≤ n := by omega
      exact ⟨hashState_congr fun a _ ha => h a (by omega), Nat.dvd_add hp (dvd_refl 64)⟩
  rw [hashAes1Rx4, hrelated.2.1, hashAes1Rx4]

theorem fillState_agree {p : Nat} {x y : Lanes × Memory} (h : Agree p x y) :
    Agree (p + 64) (fillState t softAes p x) (fillState t softAes p y) := by
  obtain ⟨hstate, hmemory⟩ := h
  unfold fillState
  rw [hstate]
  exact ⟨rfl, store_covers _ hmemory⟩

/-- A scratchpad that was filled depends on the seed alone. -/
theorem fillAes1Rx4_agree (t : Sboxes) (softAes : Fin 3) (state : Lanes) (n : Nat)
    (m m' : Memory) :
    Agree n (fillAes1Rx4 t softAes state n m) (fillAes1Rx4 t softAes state n m') :=
  strided_agree (fun _ _ _ => fillState_agree) ⟨rfl, fun a ha => absurd ha (Nat.not_lt_zero a)⟩

end Scratchpad

section Chain

variable {config : VmConfig} (fp : FloatArithmetic) (lines : Fin datasetItemCount → Fin 8 → UInt64)
  (fuel : Nat) (t : Sboxes) (softAes : Fin 3) (blake2b : Nat → List UInt8 → List UInt8)

/-- What a program of the chain takes: a seed, the rounding mode and the scratchpad. -/
def seeded : View (Vm × Lanes) (UInt32 × Lanes) where
  rest x := (x.1.mode, x.2)
  memory x := x.1.scratchpad

theorem confined_seeded (h : config.Sized) (hiterations : 0 < config.programIterations.toNat) :
    Confined seeded Vm.after config.scratchpadL3Size.toNat
      fun x => run config fp lines fuel t softAes x.2 x.1 := by
  refine (Confined.dependent (v := seeded) (f := fun rest x =>
    run config fp lines fuel t softAes rest.2 x.1) fun rest => ?_).congr fun _ => rfl
  have hvm : Confined seeded Vm.before config.scratchpadL3Size.toNat
      fun x : Vm × Lanes => some x.1 :=
    .some (fun x y hxy => ⟨(Prod.mk.inj hxy.1).1, hxy.2⟩) fun _ _ _ => rfl
  exact (hvm.bind (confined_run h hiterations rest.2)).congr fun _ => rfl

theorem reg_of_after {n : Nat} {vm vm' : Vm} (h : Vm.after.Same n vm vm') :
    vm.reg = vm'.reg ∧ vm.mode = vm'.mode := by
  have hrest := Vm.mk.inj h.1
  exact ⟨hrest.2.1, hrest.2.2.2.2.2.2.2⟩

theorem confined_link (h : config.Sized) (hiterations : 0 < config.programIterations.toNat) :
    Confined seeded seeded config.scratchpadL3Size.toNat
      (link config fp lines fuel t softAes blake2b) := by
  have hnext : Confined Vm.after seeded config.scratchpadL3Size.toNat
      fun vm => some (vm, tempHash blake2b (registerBytes vm.reg)) := by
    refine .some (fun vm vm' hsame => ⟨?_, hsame.2⟩) fun _ _ _ => rfl
    obtain ⟨hreg, hmode⟩ := reg_of_after hsame
    change Prod.mk _ _ = Prod.mk _ _
    rw [hreg, hmode]
  exact ((confined_seeded fp lines fuel t softAes h hiterations).bind hnext).congr
    fun _ => Option.map_eq_bind ..

theorem confined_programs (h : config.Sized) (hiterations : 0 < config.programIterations.toNat) :
    Confined seeded Vm.after config.scratchpadL3Size.toNat
      (programs config fp lines fuel t softAes blake2b) :=
  ((confined_link fp lines fuel t softAes blake2b h hiterations).rounds _).bind
    (confined_seeded fp lines fuel t softAes h hiterations)

theorem programs_total (config : VmConfig) (x : Vm × Lanes) :
    ∃ vm, programs config fp lines (3 * config.programSize + 1) t softAes blake2b x = some vm := by
  obtain ⟨y, hy, -⟩ := rounds_total (I := fun _ => True)
    (f := link config fp lines (3 * config.programSize + 1) t softAes blake2b)
    (fun x _ => by
      obtain ⟨vm, hvm⟩ := run_total (t := t) x.1 x.2
      exact ⟨_, by rw [link, hvm]; rfl, trivial⟩)
    (config.programCount - 1).toNat (s := x) trivial
  unfold programs
  rw [hy, Option.bind_some]
  exact run_total y.1 y.2

/-- The programs of a hash end alike from virtual machines that are seeded alike. -/
theorem programs_same (h : config.Sized) (hiterations : 0 < config.programIterations.toNat)
    {x y : Vm × Lanes} (hxy : seeded.Same config.scratchpadL3Size.toNat x y) :
    ∃ vm vm',
      programs config fp lines (3 * config.programSize + 1) t softAes blake2b x = some vm ∧
      programs config fp lines (3 * config.programSize + 1) t softAes blake2b y = some vm' ∧
      Vm.after.Same config.scratchpadL3Size.toNat vm vm' := by
  obtain ⟨vm, hvm⟩ := programs_total fp lines t softAes blake2b config x
  obtain ⟨vm', hvm'⟩ := programs_total fp lines t softAes blake2b config y
  have hsame := (confined_programs fp lines (3 * config.programSize + 1) t softAes blake2b h
    hiterations).reads x y hxy
  rw [hvm, hvm'] at hsame
  cases hsame with
  | some hsame => exact ⟨vm, vm', hvm, hvm', hsame⟩

end Chain

section Hash

variable {config : VmConfig} (fp : FloatArithmetic) (lines : Fin datasetItemCount → Fin 8 → UInt64)
  {t : Sboxes} {softAes : Fin 3} {blake2b : Nat → List UInt8 → List UInt8}

theorem calculateHash_eq {fuel : Nat} (h : Exact t) (softAes : Fin 3) :
    calculateHash config fp lines fuel t softAes blake2b =
      calculateHash config fp lines fuel t 0 blake2b := by
  unfold calculateHash programs link initScratchpad getFinalResult
  rw [run_eq h, fillAes1Rx4_eq h, hashAes1Rx4_eq h]

/-- The virtual machine is to hash an input: it could as well have been any other one before. -/
def Loaded (config : VmConfig) (t : Sboxes) (softAes : Fin 3)
    (blake2b : Nat → List UInt8 → List UInt8) (input : List UInt8) (x : Vm × Lanes) : Prop :=
  ∀ vm, seeded.Same config.scratchpadL3Size.toNat (resetRoundingMode x)
    (resetRoundingMode (initScratchpad config t softAes (vm, tempHash blake2b input)))

theorem loaded_initScratchpad {input : List UInt8} (vm : Vm) : Loaded config t softAes blake2b input
    (initScratchpad config t softAes (vm, tempHash blake2b input)) := by
  intro vm'
  have hfill := fillAes1Rx4_agree t softAes (tempHash blake2b input) (scratchpadSize config)
    vm.scratchpad vm'.scratchpad
  exact ⟨Prod.ext rfl hfill.1, hfill.2⟩

theorem passWidth_dvd (h : config.Sized) (passAes : Fin 3) (unroll : Nat) :
    (passWidth passAes unroll : ℕ) ∣ scratchpadSize config := by
  refine Nat.dvd_trans ?_ h.l3.2
  unfold passWidth
  split_ifs <;> decide

/-- `hashAndFill` hashes the scratchpad and fills it from the state it is given. -/
theorem hashAndFill_eq (he : Exact t) (h : config.Sized) (softAes passAes : Fin 3) (unroll : Nat)
    (x : Vm × Lanes) : hashAndFill config t blake2b passAes unroll x =
      ((getFinalResult config t softAes blake2b x.1).1,
        (initScratchpad config t softAes
          ((getFinalResult config t softAes blake2b x.1).2, x.2))) := by
  unfold hashAndFill
  rw [hashAndFillAes1Rx4_passes he (passWidth_dvd h passAes unroll) softAes]
  rfl

theorem getFinalResult_same (h : config.Sized) {vm vm' : Vm}
    (hsame : Vm.after.Same config.scratchpadL3Size.toNat vm vm') :
    (getFinalResult config t softAes blake2b vm).1 =
      (getFinalResult config t softAes blake2b vm').1 := by
  have hhash : hashAes1Rx4 t softAes vm.scratchpad (scratchpadSize config) =
      hashAes1Rx4 t softAes vm'.scratchpad (scratchpadSize config) :=
    hashAes1Rx4_congr (Nat.dvd_trans (by decide) h.l3.2) hsame.2
  unfold getFinalResult
  rw [hhash, (reg_of_after hsame).1]

/-- A step of the pipeline: what comes out is the hash of the input that was loaded, and the next
input is loaded. -/
theorem calculateHashNext_of_loaded (he : Exact t) (h : config.Sized)
    (hiterations : 0 < config.programIterations.toNat) {input : List UInt8} {x : Vm × Lanes}
    (hx : Loaded config t softAes blake2b input x) (passAes : Fin 3) (unroll : Nat)
    (nextInput : List UInt8) :
    ∃ y, calculateHashNext config fp lines (3 * config.programSize + 1) t softAes blake2b passAes
        unroll x nextInput = some y ∧
      Loaded config t softAes blake2b nextInput y.2 ∧
      ∀ vm, ∃ vm', calculateHash config fp lines (3 * config.programSize + 1) t softAes blake2b vm
        input = some (y.1, vm') := by
  obtain ⟨ended, hended⟩ :=
    programs_total fp lines t softAes blake2b config (resetRoundingMode x)
  refine ⟨_, by rw [calculateHashNext, hended, Option.map_some, hashAndFill_eq he h softAes], ?_,
    fun vm => ?_⟩
  · exact loaded_initScratchpad _
  · obtain ⟨w, w', hw, hw', hsame⟩ := programs_same fp lines t softAes blake2b h
      hiterations (hx vm)
    obtain rfl := Option.some.inj (hended.symm.trans hw)
    refine ⟨(getFinalResult config t softAes blake2b w').2, ?_⟩
    rw [calculateHash, hw', Option.map_some, getFinalResult_same h hsame]

theorem pipelined_of_loaded (he : Exact t) (h : config.Sized)
    (hiterations : 0 < config.programIterations.toNat) {hash : List UInt8 → List UInt8}
    (hhash : ∀ vm input, ∃ vm', calculateHash config fp lines (3 * config.programSize + 1) t
      softAes blake2b vm input = some (hash input, vm')) (passAes : Fin 3) (unroll : Nat)
    (nexts : List (List UInt8)) {input : List UInt8} {x : Vm × Lanes}
    (hx : Loaded config t softAes blake2b input x) :
    pipelined config fp lines (3 * config.programSize + 1) t softAes blake2b passAes unroll x
      nexts = some ((input :: nexts).dropLast.map hash) := by
  induction nexts generalizing input x with
  | nil => rfl
  | cons nextInput rest ih =>
    obtain ⟨y, hy, hloaded, hplain⟩ :=
      calculateHashNext_of_loaded fp lines he h hiterations hx passAes unroll nextInput
    obtain ⟨vm', hvm'⟩ := hplain x.1
    obtain ⟨_, hvm⟩ := hhash x.1 input
    have hout : y.1 = hash input :=
      congrArg Prod.fst (Option.some.inj (hvm'.symm.trans hvm))
    rw [pipelined, hy, Option.bind_some, ih hloaded, hout]
    rfl

end Hash

/-- RandomX is a function of its input, whatever the virtual machine did before and whichever
implementation of AES it uses; and the pipeline of a worker gives for each input that function. -/
theorem pipelined_exact {config : VmConfig} (h : config.Sized)
    (hiterations : 0 < config.programIterations.toNat) (fp : FloatArithmetic)
    (lines : Fin datasetItemCount → Fin 8 → UInt64) (blake2b : Nat → List UInt8 → List UInt8) :
    ∃ t hash, initialSboxes 255 = some t ∧
      (∀ softAes vm input, ∃ vm', calculateHash config fp lines (3 * config.programSize + 1) t
        softAes blake2b vm input = some (hash input, vm')) ∧
      ∀ softAes passAes unroll vm first nexts,
        pipelined config fp lines (3 * config.programSize + 1) t softAes blake2b passAes unroll
          (calculateHashFirst config t softAes blake2b vm first) nexts =
            some ((first :: nexts).dropLast.map hash) := by
  obtain ⟨t, ht, he⟩ := initialSboxes_exact
  have hloaded (softAes : Fin 3) (vm : Vm) (input : List UInt8) : Loaded config t softAes blake2b
      input (calculateHashFirst config t softAes blake2b vm input) := loaded_initScratchpad vm
  have hfunction (input : List UInt8) : ∃ out, ∀ vm, ∃ vm', calculateHash config fp lines
      (3 * config.programSize + 1) t 0 blake2b vm input = some (out, vm') := by
    obtain ⟨y, -, -, hy⟩ :=
      calculateHashNext_of_loaded fp lines he h hiterations (hloaded 0 default input) 0 1 []
    exact ⟨y.1, hy⟩
  choose hash hhash using hfunction
  have hsame (softAes : Fin 3) (vm : Vm) (input : List UInt8) : ∃ vm', calculateHash config fp lines
      (3 * config.programSize + 1) t softAes blake2b vm input = some (hash input, vm') := by
    rw [calculateHash_eq fp lines he]
    exact hhash input vm
  exact ⟨t, hash, ht, hsame, fun softAes passAes unroll vm first nexts =>
    pipelined_of_loaded fp lines he h hiterations (hsame softAes) passAes unroll nexts
      (hloaded softAes vm first)⟩

theorem pipelined_exact_monero : VmConfig.monero.Sized ∧ ∀ fp lines blake2b,
    ∃ t hash, initialSboxes 255 = some t ∧
      (∀ softAes vm input, ∃ vm', calculateHash VmConfig.monero fp lines (3 * 256 + 1) t softAes
        blake2b vm input = some (hash input, vm')) ∧
      ∀ softAes passAes unroll vm first nexts,
        pipelined VmConfig.monero fp lines (3 * 256 + 1) t softAes blake2b passAes unroll
          (calculateHashFirst VmConfig.monero t softAes blake2b vm first) nexts =
            some ((first :: nexts).dropLast.map hash) :=
  ⟨sized_monero, fun fp lines blake2b =>
    pipelined_exact sized_monero (by decide) fp lines blake2b⟩

end VeloxHash.RandomxHash
