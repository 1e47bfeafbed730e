import VeloxHash.Algorithm
import VeloxHash.KPCache
import VeloxHash.TransitionSystem

/-! The heights of KawPow jobs on their way through the OpenCL and CUDA runners, the builder of
programs and the check of results. Each critical section is one step, so runs are all interleavings
of the threads. -/

namespace VeloxHash.KawPowHeight

open Demanding KPCache TransitionSystem

/-- What a program is built for. -/
structure Runner where
  algorithm : Algorithm
  worksize : UInt32
  deviceIndex : UInt32
  deriving DecidableEq

structure Program where
  runner : Runner
  period : UInt64
  dagElements : ℕ

def Program.isExpired (p : Program) (period : UInt64) : Bool := p.period + 1 < period

structure State where
  cache : KPCache := {}
  programs : List Program := []
  batons : List (Runner × UInt64) := []
  /-- `m_epoch` of each `OclKawPowRunner`. -/
  epochs : ℕ → UInt32 := fun _ => 0xFFFFFFFF
  /-- All demands made so far. -/
  demands : List Demand := []

/-- How far OpenCL gets with the source of a program. -/
inductive Outcome
  | noProgram
  | noKernel
  | built

def periodOf (height : UInt32) : UInt64 := height.toUInt64 / KPHash.periodLength.toUInt64

/-- The epoch that `KawPowBuilder::build` looks the size of the DAG up for. -/
def periodEpoch (period : UInt64) : UInt64 :=
  period * KPHash.periodLength.toUInt64 / UInt64.ofNat KPHash.epochLength

namespace State

variable (s : State)

def search (runner : Runner) (period : UInt64) : Bool :=
  s.programs.any fun p => p.runner = runner ∧ p.period = period

/-- `KawPowCache::add`; the order of the programs that stay does not matter. -/
def add (p : Program) : State :=
  if s.search p.runner p.period then s
  else
    let kept := s.programs.filter fun q => !q.isExpired p.period
    { s with programs := kept ++ [p] }

/-- `KawPowBuilder::build`. -/
def build (runner : Runner) (period : UInt64) (outcome : Outcome) : Checked State := do
  if s.search runner period then
    return s
  else
    demandAll shuffleDivisors
    match outcome with
    | .noProgram => return s
    | .noKernel =>
      let _ ← dagSizeAt (periodEpoch period).toNat
      return s
    | .built =>
      let dagSize ← dagSizeAt (periodEpoch period).toNat
      return s.add ⟨runner, period, dagSize / 256⟩

/-- `OclKawPow::get`, which has the program of the next period built in the background. -/
def get (runner : Runner) (height : UInt32) (outcome : Outcome) : Checked State := do
  let period := periodOf height
  let s := if s.search runner (period + 1) then s
    else { s with batons := s.batons ++ [(runner, period + 1)] }
  s.build runner period outcome

/-- The thread of the builder takes the next baton, if there is one. -/
def buildNext (outcome : Outcome) : Checked State :=
  match s.batons with
  | [] => return s
  | (runner, period) :: batons => { s with batons }.build runner period outcome

/-- What `OclKawPowRunner::set` does once it has a program. -/
def prepare (hw : ℕ) (runner : ℕ) (blockHeight : UInt32) : Checked State := do
  let epoch := epochOf blockHeight
  if epoch = s.epochs runner then
    return s
  else
    let (_, cache) ← s.cache.init hw epoch
    let _ ← calculateFastModData (UInt32.ofNat (cache.size / 64))
    return { s with cache, epochs := Function.update s.epochs runner epoch }

/-- The part of `CudaKawPowRunner::set` that touches the cache. -/
def cudaSet (hw : ℕ) (height : UInt64) : Checked State := do
  let (_, cache) ← s.cache.init hw (height / UInt64.ofNat KPHash.epochLength).toUInt32
  return { s with cache }

/-- One nonce in `getResults`. -/
def checkResult (hw : ℕ) (height : UInt64) (operands : List UInt32) : Checked State := do
  let (_, cache) ← s.cache.init hw (height / UInt64.ofNat KPHash.epochLength).toUInt32
  cache.calculate height.toUInt32 operands
  return { s with cache }

end State

inductive Action
  | get (runner : Runner) (height : UInt64) (outcome : Outcome)
  | buildNext (outcome : Outcome)
  | clear
  | prepare (runner : ℕ) (height : UInt64)
  | cudaSet (height : UInt64)
  | checkResult (height : UInt64) (operands : List UInt32)

/-- `m_blockHeight` has 32 bits. -/
def perform (hw : ℕ) (s : State) : Action → Checked State
  | .get runner height outcome => s.get runner height.toUInt32 outcome
  | .buildNext outcome => s.buildNext outcome
  | .clear => pure { s with programs := [] }
  | .prepare runner height => s.prepare hw runner height.toUInt32
  | .cudaSet height => s.cudaSet hw height
  | .checkResult height operands => s.checkResult hw height operands

/-- Nothing was asked for that is not there. -/
def State.Safe (s : State) : Prop := ∀ d ∈ s.demands, d.Holds

def step (hw : ℕ) (s : State) (a : Action) : Option State :=
  let next := perform hw s a
  some { next.value with demands := s.demands ++ next.demands }

/-- The heights for which an action stays inside the tables. -/
def Action.InRange : Action → Prop
  | get _ height _ => height.toNat % 2 ^ 32 < 2048 * 7500 - 3
  | buildNext _ => True
  | clear => True
  | prepare _ height => height.toNat % 2 ^ 32 < 2048 * 7500
  | cudaSet _ => True
  | checkResult height _ => height.toNat % (7500 * 2 ^ 32) < 2048 * 7500

section Arithmetic

theorem toNat_epochOf (height : UInt64) :
    (epochOf height.toUInt32).toNat = height.toNat % 2 ^ 32 / 7500 := by
  rw [epochOf, UInt32.toNat_div, UInt64.toNat_toUInt32]
  rfl

theorem toNat_quotient (height : UInt64) :
    (height / UInt64.ofNat KPHash.epochLength).toUInt32.toNat = height.toNat / 7500 % 2 ^ 32 := by
  rw [UInt64.toNat_toUInt32, UInt64.toNat_div]
  rfl

/-- A quotient that fits into 32 bits again is inside the tables only with the epoch of the
height that does. -/
theorem quotient_eq (h : ℕ) (hlt : h % (7500 * 2 ^ 32) < 2048 * 7500) :
    h / 7500 % 2 ^ 32 = h % 2 ^ 32 / 7500 ∧ h / 7500 % 2 ^ 32 < 2048 := by
  omega

theorem quotient_ge (h : ℕ) (hge : ¬ h % (7500 * 2 ^ 32) < 2048 * 7500) :
    2048 ≤ h / 7500 % 2 ^ 32 := by
  omega

theorem toNat_periodOf (height : UInt32) : (periodOf height).toNat = height.toNat / 3 := by
  rw [periodOf, UInt64.toNat_div]
  rfl

theorem toNat_nextPeriod (height : UInt32) :
    (periodOf height + 1).toNat = height.toNat / 3 + 1 := by
  have hlt := height.toNat_lt
  rw [UInt64.toNat_add, toNat_periodOf]
  change (height.toNat / 3 + 1) % 2 ^ 64 = _
  omega

theorem toNat_periodEpoch (period : UInt64) (h : period.toNat < 2 ^ 32) :
    (periodEpoch period).toNat = period.toNat * 3 / 7500 := by
  rw [periodEpoch, UInt64.toNat_div, UInt64.toNat_mul]
  change period.toNat * 3 % 2 ^ 64 / 7500 = _
  omega

end Arithmetic

section Safety

variable {hw : ℕ} {s t : State} {a : Action}

structure Inv (s : State) : Prop where
  cache : s.cache.Consistent
  batons : ∀ b ∈ s.batons, b.2.toNat * 3 / 7500 < 2048
  demands : ∀ d ∈ s.demands, d.Holds

theorem inv_init : Inv {} := ⟨.inl rfl, fun _ hb => (nomatch hb), fun _ hd => (nomatch hd)⟩

theorem holds_dagSizeAt {i : ℕ} (h : i < 2048) : (dagSizeAt i).Met Demand.Holds := by
  refine (met_bind _ _).mpr ⟨(met_demand _).mpr ?_, met_pure _⟩
  change i < DataSizes.dagSizes.length
  rwa [DataSizes.length_dagSizes]

theorem add_frame (p : Program) : (s.add p).cache = s.cache ∧ (s.add p).batons = s.batons := by
  unfold State.add
  split
  · exact ⟨rfl, rfl⟩
  · exact ⟨rfl, rfl⟩

theorem build_frame (runner : Runner) (period : UInt64) (outcome : Outcome) :
    (s.build runner period outcome).value.cache = s.cache ∧
      (s.build runner period outcome).value.batons = s.batons := by
  unfold State.build
  split
  · exact ⟨rfl, rfl⟩
  · cases outcome with
    | noProgram => exact ⟨rfl, rfl⟩
    | noKernel => exact ⟨rfl, rfl⟩
    | built => exact add_frame _

theorem holds_build {period : UInt64} (h : period.toNat * 3 / 7500 < 2048) (runner : Runner)
    (outcome : Outcome) : (s.build runner period outcome).Met Demand.Holds := by
  have hepoch : (periodEpoch period).toNat < 2048 := by
    rwa [toNat_periodEpoch period (by omega)]
  unfold State.build
  split
  · exact met_pure _
  · refine (met_bind _ _).mpr ⟨holds_shuffleDivisors, ?_⟩
    cases outcome with
    | noProgram => exact met_pure _
    | noKernel => exact (met_bind _ _).mpr ⟨holds_dagSizeAt hepoch, met_pure _⟩
    | built => exact (met_bind _ _).mpr ⟨holds_dagSizeAt hepoch, met_pure _⟩

/-- What an action must leave behind. -/
structure Sound (x : Checked State) : Prop where
  demands : x.Met Demand.Holds
  cache : x.value.cache.Consistent
  batons : ∀ b ∈ x.value.batons, b.2.toNat * 3 / 7500 < 2048

theorem sound_build (hs : Inv s) {period : UInt64} (h : period.toNat * 3 / 7500 < 2048)
    (runner : Runner) (outcome : Outcome) : Sound (s.build runner period outcome) := by
  obtain ⟨hcache, hbatons⟩ := @build_frame s runner period outcome
  exact ⟨holds_build h runner outcome, hcache ▸ hs.cache, hbatons ▸ hs.batons⟩

theorem sound_get (hs : Inv s) {height : UInt32} (h : height.toNat < 2048 * 7500 - 3)
    (runner : Runner) (outcome : Outcome) : Sound (s.get runner height outcome) := by
  have hperiod : (periodOf height).toNat * 3 / 7500 < 2048 := by
    rw [toNat_periodOf]
    omega
  have hnext : (periodOf height + 1).toNat * 3 / 7500 < 2048 := by
    rw [toNat_nextPeriod]
    omega
  unfold State.get
  dsimp only
  split
  · exact sound_build hs hperiod runner outcome
  · have hbatons : ∀ b ∈ s.batons ++ [(runner, periodOf height + 1)],
        b.2.toNat * 3 / 7500 < 2048 :=
      List.forall_mem_append.mpr ⟨hs.batons, List.forall_mem_singleton.mpr hnext⟩
    have hs' : Inv { s with batons := s.batons ++ [(runner, periodOf height + 1)] } :=
      ⟨hs.cache, hbatons, hs.demands⟩
    exact sound_build hs' hperiod runner outcome

theorem sound_buildNext (hs : Inv s) (outcome : Outcome) : Sound (s.buildNext outcome) := by
  unfold State.buildNext
  split
  · exact ⟨met_pure _, hs.cache, hs.batons⟩
  · next runner period batons heq =>
    have hall := hs.batons
    rw [heq] at hall
    obtain ⟨hfirst, hrest⟩ := List.forall_mem_cons.mp hall
    have hs' : Inv { s with batons } := ⟨hs.cache, hrest, hs.demands⟩
    exact sound_build hs' hfirst runner outcome

theorem sound_prepare (hs : Inv s) {height : UInt64}
    (h : height.toNat % 2 ^ 32 < 2048 * 7500) (runner : ℕ) :
    Sound (s.prepare hw runner height.toUInt32) := by
  have hepoch : (epochOf height.toUInt32).toNat < 2048 := by
    rw [toNat_epochOf]
    omega
  have hinit := @value_init_lt hw _ _ hs.cache hepoch
  have hmet := holds_init hw s.cache (epochOf height.toUInt32)
  unfold State.prepare
  dsimp only
  split
  · exact ⟨met_pure _, hs.cache, hs.batons⟩
  · generalize s.cache.init hw (epochOf height.toUInt32) = x at hinit hmet ⊢
    refine ⟨(met_bind _ _).mpr ⟨hmet, ?_⟩, .inr ⟨_, hinit⟩, hs.batons⟩
    exact (met_bind _ _).mpr
      ⟨(holds_fastMod_iff _).mpr (nodes_ne_zero hinit.size_mem), met_pure _⟩

theorem sound_cudaSet (hs : Inv s) (height : UInt64) : Sound (s.cudaSet hw height) := by
  obtain ⟨epoch, hepoch⟩ : ∃ epoch,
    epoch = (height / UInt64.ofNat KPHash.epochLength).toUInt32 := ⟨_, rfl⟩
  have hinit := hs.cache.init hw epoch
  have hmet := holds_init hw s.cache epoch
  unfold State.cudaSet
  rw [← hepoch]
  generalize s.cache.init hw epoch = x at hinit hmet ⊢
  exact ⟨(met_bind _ _).mpr ⟨hmet, met_pure _⟩, hinit, hs.batons⟩

theorem sound_checkResult (hs : Inv s) {height : UInt64}
    (h : height.toNat % (7500 * 2 ^ 32) < 2048 * 7500) (operands : List UInt32) :
    Sound (s.checkResult hw height operands) := by
  obtain ⟨heq, hlt⟩ := quotient_eq height.toNat h
  have hepoch : (height / UInt64.ofNat KPHash.epochLength).toUInt32 = epochOf height.toUInt32 := by
    apply UInt32.toNat_inj.mp
    rw [toNat_quotient, toNat_epochOf, heq]
  have hinit : (s.cache.init hw (epochOf height.toUInt32)).value.2.InitialisedFor
      (epochOf height.toUInt32) := by
    refine value_init_lt hs.cache ?_
    rwa [toNat_epochOf, ← heq]
  have hmet := holds_init hw s.cache (epochOf height.toUInt32)
  unfold State.checkResult
  rw [hepoch]
  generalize s.cache.init hw (epochOf height.toUInt32) = x at hinit hmet ⊢
  refine ⟨(met_bind _ _).mpr ⟨hmet, ?_⟩, .inr ⟨_, hinit⟩, hs.batons⟩
  exact (met_bind _ _).mpr ⟨holds_calculate hinit operands, met_pure _⟩

theorem sound_perform (hs : Inv s) (ha : a.InRange) : Sound (perform hw s a) := by
  cases a with
  | get runner height outcome =>
    refine sound_get hs ?_ runner outcome
    rw [UInt64.toNat_toUInt32]
    exact ha
  | buildNext outcome => exact sound_buildNext hs outcome
  | clear => exact ⟨met_pure _, hs.cache, hs.batons⟩
  | prepare runner height => exact sound_prepare hs ha runner
  | cudaSet height => exact sound_cudaSet hs height
  | checkResult height operands => exact sound_checkResult hs ha operands

theorem inv_step (hs : Inv s) (ha : a.InRange) (h : step hw s a = some t) : Inv t := by
  obtain rfl := Option.some.inj h
  have hsound := @sound_perform hw s a hs ha
  exact ⟨hsound.cache, hsound.batons, List.forall_mem_append.mpr ⟨hs.demands, hsound.demands⟩⟩

end Safety

section Exactness

variable {hw : ℕ} {s : State} {a : Action} {runner : Runner} {outcome : Outcome}

theorem search_nil {batons : List (Runner × UInt64)} (period : UInt64) :
    State.search { batons } runner period = false := rfl

/-- From the start, a build leaves no program but its own. -/
theorem build_programs {batons : List (Runner × UInt64)} {period : UInt64} :
    ∀ p ∈ (State.build { batons } runner period outcome).value.programs, p.period = period := by
  unfold State.build
  rw [if_neg (by rw [search_nil]; exact Bool.false_ne_true)]
  cases outcome with
  | noProgram => exact fun p hp => (nomatch hp)
  | noKernel => exact fun p hp => (nomatch hp)
  | built =>
    change ∀ p ∈ (State.add { batons } _).programs, p.period = period
    unfold State.add
    rw [search_nil, if_neg Bool.false_ne_true]
    exact fun p hp => congrArg Program.period (List.mem_singleton.mp hp)

/-- A build of a program that is not there yet looks up the epoch of its period. -/
theorem build_unsafe {period : UInt64} (hsearch : s.search runner period = false)
    (hepoch : 2048 ≤ (periodEpoch period).toNat) :
    ¬ (s.build runner period .built).Met Demand.Holds := by
  unfold State.build
  rw [hsearch, if_neg Bool.false_ne_true]
  intro h
  have hdag := ((met_bind _ _).mp ((met_bind _ _).mp h).2).1
  have hlt : Demand.Holds (.dagSizes (periodEpoch period).toNat) :=
    (met_demand _).mp ((met_bind _ _).mp hdag).1
  change _ < DataSizes.dagSizes.length at hlt
  rw [DataSizes.length_dagSizes] at hlt
  omega

theorem step_violates (h : ¬ (perform hw s a).Met Demand.Holds) :
    ∃ t, step hw s a = some t ∧ ¬ t.Safe :=
  ⟨_, rfl, fun hsafe => h (List.forall_mem_append.mp hsafe).2⟩

theorem get_violates {height : UInt64} (h : ¬ height.toNat % 2 ^ 32 < 2048 * 7500 - 3) :
    ∃ s, exec (step hw) {} [.get runner height outcome, .buildNext .built] = some s ∧
      ¬ s.Safe := by
  obtain ⟨period, hperiod⟩ : ∃ period, period = periodOf height.toUInt32 := ⟨_, rfl⟩
  have hnext : (period + 1).toNat = height.toNat % 2 ^ 32 / 3 + 1 := by
    rw [hperiod, toNat_nextPeriod, UInt64.toNat_toUInt32]
  have hepoch : 2048 ≤ (periodEpoch (period + 1)).toNat := by
    rw [toNat_periodEpoch (period + 1) (by omega)]
    omega
  have hget : State.get {} runner height.toUInt32 outcome =
      State.build { batons := [(runner, period + 1)] } runner period outcome := by
    rw [hperiod]
    rfl
  obtain ⟨-, hbatons⟩ := @build_frame { batons := [(runner, period + 1)] } runner period outcome
  have hprograms := @build_programs runner outcome [(runner, period + 1)] period
  obtain ⟨t, ht⟩ : ∃ t, step hw {} (.get runner height outcome) = some t := ⟨_, rfl⟩
  have htbatons : t.batons = [(runner, period + 1)] := by
    obtain rfl := Option.some.inj ht
    change (State.get {} runner height.toUInt32 outcome).value.batons = _
    rw [hget, hbatons]
  have htsearch : State.search { t with batons := [] } runner (period + 1) = false := by
    obtain rfl := Option.some.inj ht
    refine List.any_eq_false.mpr fun p hp => ?_
    change p ∈ (State.get {} runner height.toUInt32 outcome).value.programs at hp
    rw [hget] at hp
    rw [decide_eq_true_iff, hprograms p hp]
    exact fun heq => by
      have := congrArg UInt64.toNat heq.2
      rw [hnext, hperiod, toNat_periodOf, UInt64.toNat_toUInt32] at this
      omega
  have hbuild : perform hw t (.buildNext .built) =
      State.build { t with batons := [] } runner (period + 1) .built := by
    change State.buildNext t .built = _
    unfold State.buildNext
    rw [htbatons]
  obtain ⟨u, hu, hunsafe⟩ := @step_violates hw t (.buildNext .built)
    (hbuild ▸ build_unsafe htsearch hepoch)
  refine ⟨u, ?_, hunsafe⟩
  rw [exec, ht, Option.bind_some, exec, hu, Option.bind_some, exec]

theorem prepare_violates {height : UInt64} (h : ¬ height.toNat % 2 ^ 32 < 2048 * 7500) (n : ℕ) :
    ¬ (State.prepare {} hw n height.toUInt32).Met Demand.Holds := by
  have hepoch : 2048 ≤ (epochOf height.toUInt32).toNat := by
    rw [toNat_epochOf]
    omega
  have hne : epochOf height.toUInt32 ≠ 0xFFFFFFFF := fun heq => by
    have := congrArg UInt32.toNat heq
    rw [toNat_epochOf] at this
    change _ = 4294967295 at this
    omega
  have hvalue := @value_init_ge hw {} _ hepoch
  unfold State.prepare
  dsimp only
  rw [if_neg hne]
  intro hmet
  have hmod := ((met_bind _ _).mp ((met_bind _ _).mp hmet).2).1
  rw [hvalue] at hmod
  exact (holds_fastMod_iff _).mp hmod rfl

theorem checkResult_violates {height : UInt64}
    (h : ¬ height.toNat % (7500 * 2 ^ 32) < 2048 * 7500) (operands : List UInt32) :
    ¬ (State.checkResult {} hw height operands).Met Demand.Holds := by
  obtain ⟨epoch, hepoch⟩ : ∃ epoch,
    epoch = (height / UInt64.ofNat KPHash.epochLength).toUInt32 := ⟨_, rfl⟩
  have hge : 2048 ≤ epoch.toNat := by
    rw [hepoch, toNat_quotient]
    exact quotient_ge height.toNat h
  have hvalue : (init hw (State.cache {}) epoch).value = (false, {}) := value_init_ge hge
  unfold State.checkResult
  rw [← hepoch]
  generalize init hw (State.cache {}) epoch = x at hvalue ⊢
  intro hmet
  have hcalc : (x.value.2.calculate height.toUInt32 operands).Met Demand.Holds :=
    ((met_bind _ _).mp ((met_bind _ _).mp hmet).2).1
  rw [hvalue] at hcalc
  have hready : Demand.Holds (.calculate height.toUInt32 {}) :=
    (met_demand _).mp ((met_bind _ _).mp hcalc).1
  exact nomatch hready.2.1

end Exactness

/-- Runs whose heights are in range are safe, and each height that is not is unsafe in a run
whose other steps are in range. -/
theorem heights_safe (hw : ℕ) :
    (∀ as s, Run (step hw) (fun _ a => a.InRange) {} as s → s.Safe) ∧
      ∀ a : Action, ¬ a.InRange → ∃ as s, a ∈ as ∧ (∀ b ∈ as, b = a ∨ b.InRange) ∧
        exec (step hw) {} as = some s ∧ ¬ s.Safe := by
  constructor
  · intro as s hrun
    exact (hrun.invariant (fun _ _ _ ha hs h => inv_step hs ha h) inv_init).demands
  · intro a ha
    have hsingle (h : ¬ (perform hw {} a).Met Demand.Holds) : ∃ as s, a ∈ as ∧
        (∀ b ∈ as, b = a ∨ b.InRange) ∧ exec (step hw) {} as = some s ∧ ¬ s.Safe := by
      obtain ⟨t, ht, hunsafe⟩ := step_violates h
      refine ⟨[a], t, List.mem_singleton_self a, fun b hb => .inl (List.mem_singleton.mp hb),
        ?_, hunsafe⟩
      rw [exec, ht, Option.bind_some, exec]
    cases a with
    | get runner height outcome =>
      obtain ⟨s, hs, hunsafe⟩ := @get_violates hw runner outcome height ha
      refine ⟨_, s, List.mem_cons_self, ?_, hs, hunsafe⟩
      intro b hb
      rcases List.mem_pair.mp hb with rfl | rfl
      · exact .inl rfl
      · exact .inr trivial
    | buildNext outcome => exact absurd trivial ha
    | clear => exact absurd trivial ha
    | prepare runner height => exact hsingle (prepare_violates ha runner)
    | cudaSet height => exact absurd trivial ha
    | checkResult height operands => exact hsingle (checkResult_violates ha operands)

/-- One runner on a graphics card, through the last height in range. -/
def card : Runner := ⟨.kawpowRvn, 256, 0⟩

theorem heights_safe_last : ∃ s, Run (step 4) (fun _ a => a.InRange) {}
    [.get card 15359996 .built, .buildNext .built, .prepare 0 15359996, .cudaSet 15367500,
      .checkResult 15359996 [0, 7]] s ∧ s.Safe := by
  have hrun : Run (step 4) (fun _ a => a.InRange) {}
      [.get card 15359996 .built, .buildNext .built, .prepare 0 15359996, .cudaSet 15367500,
        .checkResult 15359996 [0, 7]] _ :=
    .cons (show _ < _ by decide) rfl (.cons trivial rfl (.cons (show _ < _ by decide) rfl
      (.cons trivial rfl (.cons (show _ < _ by decide) rfl (.nil _)))))
  exact ⟨_, hrun, (heights_safe 4).1 _ _ hrun⟩

/-- A job of the first height behind the tables: its program looks up an epoch that is not there,
the runner scans 0 for bits, and a result is checked with a cache that was never computed. -/
theorem height_unsafe : ∃ s, exec (step 4) {}
      [.get card 15360000 .built, .prepare 0 15360000, .checkResult 15360000 []] = some s ∧
    .dagSizes 2048 ∈ s.demands ∧ .clz 0 ∈ s.demands ∧ .calculate 15360000 {} ∈ s.demands ∧
    ¬ s.Safe := by
  have hdemands : (exec (step 4) {} [.get card 15360000 .built, .prepare 0 15360000,
      .checkResult 15360000 []]).map (fun s => decide (.dagSizes 2048 ∈ s.demands ∧
        .clz 0 ∈ s.demands ∧ .calculate 15360000 {} ∈ s.demands)) = some true := by
    decide +kernel
  obtain ⟨s, hexec, hall⟩ := Option.map_eq_some_iff.mp hdemands
  obtain ⟨hdag, hclz, hcalculate⟩ := of_decide_eq_true hall
  exact ⟨s, hexec, hdag, hclz, hcalculate, fun hsafe => hsafe _ hclz rfl⟩

end VeloxHash.KawPowHeight
