import VeloxHash.JobChange
import VeloxHash.NonceTickets

/-! Any number of CPU workers next to the main thread, in any order of their accesses: no
nonce is hashed twice for a blob. The ghosts `drawn` and `stale` list the blobs for which
nonces were fetched since the last reset of a counter, and before it. -/

namespace VeloxHash.NonceUniqueness

open CodeBuffer TransitionSystem CpuWorker NonceTickets TicketBook

variable {ι : Type*} {k : Primitives}

structure World (ι : Type*) (k : Primitives) where
  shared : Nonce.Shared := {}
  miner : JobChange.Miner := {}
  workers : ι → Worker k
  events : List Event := []
  drawn : Fin 2 → List (List UInt8) := fun _ => []
  stale : Fin 2 → List (List UInt8) := fun _ => []

/-- An access of the main thread or of a worker, with what the worker finds on its stack,
in `BenchState` and in the source of randomness. -/
inductive Access (ι : Type*) (k : Primitives)
  | main (event : JobChange.Event)
  | worker (i : ι) (benchData : UInt64) (stack : Signature) (entropy : Fin 2 → k.Entropy)

def World.environment (s : World ι k) (benchData : UInt64) (stack : Signature)
    (entropy : Fin 2 → k.Entropy) : Environment k where
  shared := s.shared
  job := s.miner.job
  benchData := benchData
  stack := stack
  entropy := entropy

/-- The blobs for which events reserve nonces. -/
def drawnBy (index : Fin 2) (events : List Event) : List (List UInt8) :=
  events.filterMap fun
    | .reserved i blob => if i = index then some blob else none
    | _ => none

def World.main (s : World ι k) (event : JobChange.Event) : Option (World ι k) :=
  (s.miner.step s.shared event).map fun (miner, shared) =>
    match s.miner.resets event with
    | none => { s with miner, shared }
    | some index =>
      { s with
        miner, shared
        stale := Function.update s.stale index (s.drawn index ++ s.stale index)
        drawn := Function.update s.drawn index [] }

def World.work [DecidableEq ι] (s : World ι k) (i : ι) (effect : Effect k) : World ι k :=
  { s with
    shared := effect.shared
    workers := Function.update s.workers i effect.worker
    events := s.events ++ effect.events
    drawn := fun index => drawnBy index effect.events ++ s.drawn index }

def step [DecidableEq ι] (data : ι → CpuLaunchData) (s : World ι k) :
    Access ι k → Option (World ι k)
  | .main event => s.main event
  | .worker i benchData stack entropy =>
    (CpuWorker.step (data i) (s.environment benchData stack entropy) (s.workers i)).map (s.work i)

/-- A worker hashes only if its last reservations for the job succeeded, and it fetches no
nonces for a blob for which some were fetched before the counter was reset. The counter
does not overflow. -/
def Allowed (data : ι → CpuLaunchData) (s : World ι k) : Access ι k → Prop
  | .main _ => True
  | .worker i benchData stack entropy =>
    (Enters (data i) (s.environment benchData stack entropy) (s.workers i) →
      (s.workers i).granted (s.workers i).job.index = true) ∧
    (fetches (s.workers i).pc = true →
      (s.workers i).job.currentJob.blob ∉ s.stale (s.workers i).job.index ∧
        (s.shared.nonces (s.workers i).job.index).toNat + (s.workers i).count.toNat < 2 ^ 64)

instance (data : ι → CpuLaunchData) (s : World ι k) (a : Access ι k) :
    Decidable (Allowed data s a) := by
  cases a <;> unfold Allowed <;> infer_instance

/-- The jobs that the miner is given. -/
def given (schedule : List (Access ι k)) : List Job :=
  schedule.filterMap fun
    | .main (.setJob job _ _) => some job
    | _ => none

/-- What was hashed: index and blob of the job, and the nonce. -/
def hashed (events : List Event) : List (Fin 2 × List UInt8 × UInt32) :=
  events.filterMap fun
    | .hashed work _ => some (work.job.index, work.job.blob, work.nonce)
    | _ => none

def start (blob : ι → Memory) (hash : ι → Nat → Hash) (vm : ι → k.Vm) : World ι k where
  workers := fun i => launch (blob i) (hash i) (vm i)

/-- Where the jobs of the workers come from. -/
def Known (jobs : List Job) (job : Job) : Prop :=
  job = {} ∨ ∃ j ∈ jobs, ∃ index, job = j.setIndex index

/-- The tickets of a key start at the base of its blob, unless its counter was reset. -/
def limit (base : List UInt8 → Nat) (s : World ι k) (key : WorkKey) : Option Nat :=
  if key.2 ∈ s.stale key.1 then none else some (base key.2 + (s.shared.nonces key.1).toNat)

/-- Who holds which nonces. -/
def book (data : ι → CpuLaunchData) (base : List UInt8 → Nat) (s : World ι k) :
    Book WorkKey (ι × Fin 2) where
  spent := spent s.events
  held := fun p => held (data p.1) base (s.workers p.1) p.2

structure Inv [Fintype ι] (data : ι → CpuLaunchData) (jobs : List Job) (base : List UInt8 → Nat)
    (s : World ι k) : Prop where
  workers : ∀ i, NonceTickets.Inv (data i) (Known jobs) (s.workers i)
  job : Known jobs s.miner.job
  coming : ∀ job, s.miner.pc.job = some job → job ∈ jobs
  fair : (book data base s).Fair (limit base s)
  known : ∀ t ∈ (book data base s).issued, t.1.2 ∈ s.drawn t.1.1 ∨ t.1.2 ∈ s.stale t.1.1

section Step

variable [Fintype ι] {data : ι → CpuLaunchData} {jobs : List Job} {base : List UInt8 → Nat}
  {bench : List UInt8 → UInt32} {s t : World ι k}

omit [Fintype ι] in
theorem limit_congr {key : WorkKey} (hstale : t.stale key.1 = s.stale key.1)
    (hnonces : t.shared.nonces key.1 = s.shared.nonces key.1) : limit base t key = limit base s key := by
  simp only [limit, hstale, hnonces]

theorem inv_main {event : JobChange.Event} (h : Inv data jobs base s)
    (hevent : ∀ job donate isReady, event = .setJob job donate isReady → job ∈ jobs)
    (hstep : s.main event = some t) : Inv data jobs base t := by
  obtain ⟨⟨miner, shared⟩, hmain, rfl⟩ := Option.map_eq_some_iff.mp hstep
  have hnonces := JobChange.step_nonces hmain
  obtain ⟨hjob, hcoming⟩ := JobChange.step_job hmain
  have hjob' : Known jobs miner.job := by
    rcases hjob with hsame | ⟨job, index, hpc, hnew⟩
    · exact hsame.symm ▸ h.job
    · exact .inr ⟨job, h.coming job hpc, index, hnew⟩
  have hcoming' (job : Job) (hpc : miner.pc.job = some job) : job ∈ jobs := by
    rcases hcoming job hpc with hold | ⟨donate, isReady, heq⟩
    · exact h.coming job hold
    · exact hevent job donate isReady heq
  have hzero (index : Fin 2) (hreset : s.miner.resets event ≠ some index) :
      shared.nonces index = s.shared.nonces index := by
    rw [hnonces]
    split
    case h_1 other hother =>
      refine Function.update_of_ne (fun heq => hreset ?_) ..
      rw [hother, heq]
    case h_2 => rfl
  cases hresets : s.miner.resets event with
  | none =>
    refine ⟨h.workers, hjob', hcoming', h.fair.relimit fun ticket _ c hc => ⟨c, le_rfl, ?_⟩, h.known⟩
    have hkeep : s.miner.resets event ≠ some ticket.1.1 := by simp [hresets]
    have hsame : limit base { s with miner, shared } ticket.1 = limit base s ticket.1 :=
      limit_congr rfl (hzero ticket.1.1 hkeep)
    exact hsame.symm.trans hc
  | some index =>
    refine ⟨h.workers, hjob', hcoming', h.fair.relimit fun ticket hticket c hc => ?_,
      fun ticket hticket => ?_⟩
    · by_cases hindex : ticket.1.1 = index
      · -- what was fetched before the reset is stale now
        have hstale : ticket.1.2 ∈ s.drawn index ++ s.stale index := by
          rw [← hindex]
          exact List.mem_append.mpr (h.known ticket hticket)
        have hclosed : ticket.1.2 ∈ Function.update s.stale index
            (s.drawn index ++ s.stale index) ticket.1.1 := by
          rw [hindex, Function.update_self]
          exact hstale
        have hnone := hc.symm.trans (if_pos hclosed)
        exact absurd hnone (Option.some_ne_none _)
      · refine ⟨c, le_rfl, ?_⟩
        rw [← hc]
        refine (limit_congr (Function.update_of_ne hindex ..) (hzero _ fun heq => hindex ?_)).symm
        rw [hresets] at heq
        exact (Option.some.inj heq).symm
    · have hold := h.known ticket hticket
      dsimp only
      by_cases hindex : ticket.1.1 = index
      · rw [← hindex, Function.update_self, Function.update_self]
        exact .inr (List.mem_append.mpr hold)
      · rw [Function.update_of_ne hindex, Function.update_of_ne hindex]
        exact hold

omit [Fintype ι] in
/-- The books after a step of a worker. -/
theorem book_work [DecidableEq ι] {i : ι} {effect : Effect k}
    (hothers : ∀ index ≠ effect.worker.job.index,
      held (data i) base effect.worker index = held (data i) base (s.workers i) index) :
    book data base (s.work i effect) = (book data base s).exchange (i, effect.worker.job.index)
      (spent effect.events) (held (data i) base effect.worker effect.worker.job.index) := by
  have hheld : (book data base (s.work i effect)).held =
      Function.update (book data base s).held (i, effect.worker.job.index)
        (held (data i) base effect.worker effect.worker.job.index) := by
    funext ⟨j, index⟩
    change held (data j) base (Function.update s.workers i effect.worker j) index = _
    by_cases hj : j = i
    · subst hj
      rw [Function.update_self]
      by_cases hindex : index = effect.worker.job.index
      · subst hindex
        rw [Function.update_self]
      · rw [Function.update_of_ne (fun heq => hindex (congrArg Prod.snd heq))]
        exact hothers index hindex
    · rw [Function.update_of_ne hj, Function.update_of_ne fun heq => hj (congrArg Prod.fst heq)]
      rfl
  have hspent : (book data base (s.work i effect)).spent =
      (book data base s).spent + spent effect.events := spent_append ..
  exact congrArg₂ Book.mk hspent hheld

theorem inv_work [DecidableEq ι] {i : ι} {benchData : UInt64} {stack : Signature}
    {entropy : Fin 2 → k.Entropy} {effect : Effect k} (h : Inv data jobs base s)
    (hallowed : Allowed data s (.worker i benchData stack entropy))
    (hbalanced : Balanced (data i) (Known jobs) base (s.environment benchData stack entropy)
      (s.workers i) effect) : Inv data jobs base (s.work i effect) := by
  obtain ⟨n, hnonces, hfetch, hbalance⟩ := hbalanced.fetch
  have hbook := book_work (s := s) hbalanced.others
  have hfresh : n = 0 ∨ (key effect.worker).2 ∉ s.stale (key effect.worker).1 ∧
      (s.shared.nonces (key effect.worker).1).toNat + n.toNat < 2 ^ 64 := by
    refine hfetch.imp_right fun ⟨hpc, hcount, hkey, _⟩ => ?_
    rw [hkey, hcount]
    exact hallowed.2 hpc
  have hzero (hn : n = 0) : n.toNat = 0 := by rw [hn]; rfl
  have hlimit : (key effect.worker).2 ∉ s.stale (key effect.worker).1 →
      limit base s (key effect.worker) = some (base effect.worker.job.currentJob.blob +
        (s.shared.nonces effect.worker.job.index).toNat) := fun hstale => if_neg hstale
  have hcounter (hn : n ≠ 0) : (effect.shared.nonces effect.worker.job.index).toNat =
      (s.shared.nonces effect.worker.job.index).toNat + n.toNat := by
    rw [hnonces, Nonce.Shared.fetchAdd_nonces_self, UInt64.toNat_add, UInt32.toNat_toUInt64]
    exact Nat.mod_eq_of_lt (hfresh.resolve_left hn).2
  have hother (index : Fin 2) (hne : index ≠ effect.worker.job.index) :
      effect.shared.nonces index = s.shared.nonces index := by
    rw [hnonces]
    exact Function.update_of_ne hne ..
  have hfair : (book data base (s.work i effect)).Fair (limit base (s.work i effect)) := by
    rw [hbook]
    refine h.fair.draw (hfresh.imp hzero fun hstale => hlimit hstale.1) hbalance fun key' c hc => ?_
    by_cases hindex : key'.1 = effect.worker.job.index
    case neg =>
      have hsame : limit base (s.work i effect) key' = limit base s key' :=
        limit_congr rfl (hother _ hindex)
      exact ⟨c, le_rfl, hsame ▸ hc, .inr (.inl fun heq => hindex (congrArg Prod.fst heq))⟩
    case pos =>
      by_cases hn : n = 0
      · have hsame : limit base (s.work i effect) key' = limit base s key' := by
          refine limit_congr rfl (congrFun (hnonces.trans ?_) _)
          rw [hn, Nonce.Shared.fetchAdd_zero]
          rfl
        exact ⟨c, le_rfl, hsame ▸ hc, .inl (hzero hn)⟩
      · by_cases hstale : key'.2 ∈ s.stale key'.1
        · exact absurd (hc.symm.trans (if_pos hstale)) (Option.some_ne_none c)
        · have hnew : c = base key'.2 + (effect.shared.nonces key'.1).toNat :=
            Option.some.inj (hc.symm.trans (if_neg hstale))
          rw [hindex, hcounter hn] at hnew
          refine ⟨base key'.2 + (s.shared.nonces key'.1).toNat, ?_, if_neg hstale, ?_⟩
          · rw [hindex]
            omega
          · by_cases hkey : key' = key effect.worker
            · refine .inr (.inr ?_)
              subst hkey
              exact (Nat.add_assoc ..).trans_le hnew.ge
            · exact .inr (.inl hkey)
  refine ⟨fun j => ?_, h.job, h.coming, hfair, fun ticket hticket => ?_⟩
  · change NonceTickets.Inv _ _ (Function.update s.workers i effect.worker j)
    by_cases hj : j = i
    · subst hj
      rw [Function.update_self]
      exact hbalanced.inv
    · rw [Function.update_of_ne hj]
      exact h.workers j
  · rw [hbook] at hticket
    rcases Multiset.mem_add.mp (Multiset.mem_of_le (Book.issued_exchange hbalance) hticket) with
      hold | hnew
    · exact (h.known ticket hold).imp_left (List.mem_append_right _ ·)
    · obtain ⟨hkey, hfirst, hlast⟩ := mem_stretch.mp hnew
      rcases hfetch with hn | ⟨-, -, hsame, hreserved⟩
      · rw [hzero hn] at hlast
        omega
      · refine .inl (List.mem_append_left _ (List.mem_filterMap.mpr ⟨_, hreserved, ?_⟩))
        rw [hkey, hsame]
        exact if_pos rfl

theorem inv_step [DecidableEq ι] {access : Access ι k} (terms : Terms (Known jobs) base bench)
    (h : Inv data jobs base s) (hallowed : Allowed data s access)
    (hgiven : ∀ job donate isReady, access = .main (.setJob job donate isReady) → job ∈ jobs)
    (hstep : step data s access = some t) : Inv data jobs base t := by
  cases access with
  | main event =>
    refine inv_main h (fun job donate isReady heq => ?_) hstep
    exact hgiven job donate isReady (congrArg Access.main heq)
  | worker i benchData stack entropy =>
    obtain ⟨effect, hwork, rfl⟩ := Option.map_eq_some_iff.mp hstep
    exact inv_work h hallowed (balanced_step terms (h.workers i) hallowed.1 h.job hwork)

theorem inv_start (blob : ι → Memory) (hash : ι → Nat → Hash) (vm : ι → k.Vm) :
    Inv data jobs base (start blob hash vm) := by
  have hissued : (book data base (start blob hash vm)).issued = 0 := by
    refine (zero_add _).trans (Finset.sum_eq_zero fun p _ => ?_)
    exact (@inv_launch _ (data p.1) (Known jobs) base (blob p.1) (hash p.1) (vm p.1)).2 p.2
  refine ⟨fun i => (inv_launch base (blob i) (hash i) (vm i)).1, .inl rfl, fun job hjob => ?_,
    ⟨hissued ▸ Multiset.nodup_zero, fun t ht => ?_⟩, fun t ht => ?_⟩
  · exact absurd hjob.symm (Option.some_ne_none job)
  · exact absurd (hissued ▸ ht) (Multiset.notMem_zero t)
  · exact absurd (hissued ▸ ht) (Multiset.notMem_zero t)

end Step

section Given

variable {jobs : List Job}

/-- A value that the given jobs with one blob agree on is a function of the blob. -/
theorem exists_of_blob {β : Type*} (f : Job → β) (hjobs : ∀ job ∈ jobs, job.blob ≠ [])
    (hindex : ∀ (job : Job) index, f (job.setIndex index) = f job)
    (hagree : ∀ i ∈ jobs, ∀ j ∈ jobs, i.blob = j.blob → f i = f j) :
    ∃ g : List UInt8 → β, ∀ job, Known jobs job → f job = g job.blob := by
  classical
  refine ⟨fun blob => if h : ∃ j ∈ jobs, j.blob = blob then f h.choose else f {}, ?_⟩
  rintro job (rfl | ⟨j, hj, index, rfl⟩) <;> dsimp only
  · have hnone : ¬ ∃ j ∈ jobs, j.blob = [] := fun ⟨j, hj, hblob⟩ => hjobs j hj hblob
    rw [dif_neg hnone]
  · have hsome : ∃ i ∈ jobs, i.blob = (j.setIndex index).blob := ⟨j, hj, rfl⟩
    obtain ⟨hmem, hblob⟩ := hsome.choose_spec
    rw [hindex, dif_pos hsome]
    exact hagree j hj _ hmem hblob.symm

/-- Jobs that `setBlob` lets pass, and that agree in all that a blob stands for. -/
theorem exists_terms (hjobs : ∀ job ∈ jobs, job.Accepted)
    (halike : ∀ i ∈ jobs, ∀ j ∈ jobs, i.blob = j.blob →
      i.nonceOffset = j.nonceOffset ∧ i.benchSize = j.benchSize) :
    ∃ base bench, Terms (Known jobs) base bench := by
  have hblob : ∀ job ∈ jobs, job.blob ≠ [] := fun job hjob => (hjobs job hjob).blob_ne_nil
  obtain ⟨base, hbase⟩ := exists_of_blob Job.base hblob (fun _ _ => rfl) fun i hi j hj heq =>
    (hjobs i hi).base_eq (hjobs j hj) heq (halike i hi j hj heq).1
  obtain ⟨bench, hbench⟩ := exists_of_blob Job.benchSize hblob (fun _ _ => rfl)
    fun i hi j hj heq => (halike i hi j hj heq).2
  refine ⟨base, bench, .inl rfl, fun job hknown => hknown.imp_right ?_, hbase, hbench⟩
  rintro ⟨j, hj, index, rfl⟩
  exact ⟨(hjobs j hj).placed, (hjobs j hj).nicehash⟩

end Given

/-- The tickets that were spent are the nonces that were hashed. -/
theorem nodup_hashed {events : List Event} (h : (spent events).Nodup) : (hashed events).Nodup := by
  have hspent : spent events = (hashed events).map fun w => ((w.1, w.2.1), w.2.2.toNat) := by
    simp only [spent, hashed, List.map_filterMap]
    refine congrArg _ (List.filterMap_congr fun e _ => ?_)
    cases e <;> rfl
  rw [hspent] at h
  exact Multiset.coe_nodup.mp (Multiset.Nodup.of_map _ h)

/-- Two workers that mine RandomX. -/
def twins : Fin 2 → CpuLaunchData := fun _ => ⟨.rx0, 1, 2, by decide, by decide⟩

def launched : World (Fin 2) zeros :=
  start (fun _ _ => 0) (fun _ _ => Vector.replicate 32 0) fun _ => ()

def rxJob (id : String) (last : UInt8) : Job where
  algorithm := .rx0
  id := id
  target := 1
  blob := List.replicate 43 0 ++ [last]

/-- The main thread goes on in the function it is in. -/
def proceeds (n : Nat) : List (Access (Fin 2) zeros) := List.replicate n (.main (.proceed true))

def turns (i : Fin 2) (n : Nat) : List (Access (Fin 2) zeros) :=
  List.replicate n (.worker i 0 (Vector.replicate 64 0) fun _ => ())

/-- The dataset for the first job is announced after a second job that found it ready: the
counter is set to zero for both. -/
def announcedLate : List (Access (Fin 2) zeros) :=
  [.main (.setJob (rxJob "1" 1) false false), .main (.proceed false),
    .main (.setJob (rxJob "2" 2) false true)] ++ proceeds 6 ++ turns 0 11 ++
    .main (.datasetReady true) :: proceeds 5 ++ turns 1 11

theorem nonce_repeated : ¬ ∀ (data : Fin 2 → CpuLaunchData) (blob : Fin 2 → Memory)
    (hash : Fin 2 → Nat → Hash) (vm : Fin 2 → zeros.Vm) (schedule : List (Access (Fin 2) zeros))
    (s : World (Fin 2) zeros), (∀ job ∈ given schedule, job.Accepted) →
      exec (step data) (start blob hash vm) schedule = some s → (hashed s.events).Nodup := by
  intro h
  have hrun : (exec (step twins) launched announcedLate).map (fun s => hashed s.events) =
      some (List.replicate 2 (0, (rxJob "2" 2).blob, 0)) := by decide +kernel
  obtain ⟨s, hexec, hsame⟩ := Option.map_eq_some_iff.mp hrun
  have hnodup := h twins _ _ _ announcedLate s (by decide) hexec
  rw [hsame] at hnodup
  exact absurd hnodup (by decide)

/-- In every run in which workers hash only what was granted to them and fetch nothing for
a blob that was fetched for before a reset, no nonce is hashed twice for a blob. -/
theorem nonces_unique [Fintype ι] [DecidableEq ι] {data : ι → CpuLaunchData} {blob : ι → Memory}
    {hash : ι → Nat → Hash} {vm : ι → k.Vm} {schedule : List (Access ι k)} {s : World ι k}
    (hrun : Run (step data) (Allowed data) (start blob hash vm) schedule s)
    (hjobs : ∀ job ∈ given schedule, job.Accepted)
    (halike : ∀ i ∈ given schedule, ∀ j ∈ given schedule, i.blob = j.blob →
      i.nonceOffset = j.nonceOffset ∧ i.benchSize = j.benchSize) :
    (hashed s.events).Nodup := by
  obtain ⟨base, bench, terms⟩ := exists_terms hjobs halike
  have hlabels := hrun.labels (R := fun access => ∀ job donate isReady,
      access = .main (.setJob job donate isReady) → job ∈ given schedule)
    fun access haccess job donate isReady heq =>
      List.mem_filterMap.mpr ⟨access, haccess, heq ▸ rfl⟩
  have hinv := hlabels.invariant (I := Inv data (given schedule) base)
    (fun _ _ _ hallowed h hstep => inv_step terms h hallowed.1 hallowed.2 hstep)
    (inv_start blob hash vm)
  exact nodup_hashed hinv.fair.spent_nodup

/-- Two workers share a job, and one of them goes on to the next. -/
def changedOnce : List (Access (Fin 2) zeros) :=
  .main (.setJob (rxJob "1" 1) false true) :: proceeds 6 ++ turns 0 11 ++ turns 1 11 ++
    .main (.setJob (rxJob "2" 2) false true) :: proceeds 6 ++ turns 0 9

theorem nonces_unique_run :
    (exec (guarded (fun s access => decide (Allowed twins s access)) (step twins)) launched
      changedOnce).map (fun s => hashed s.events) =
      some [(0, (rxJob "1" 1).blob, 0), (0, (rxJob "1" 1).blob, 32768),
        (0, (rxJob "2" 2).blob, 0)] ∧
    [((0 : Fin 2), (rxJob "1" 1).blob, (0 : UInt32)), (0, (rxJob "1" 1).blob, 32768),
      (0, (rxJob "2" 2).blob, 0)].Nodup := by
  have hrun : (exec (guarded (fun s access => decide (Allowed twins s access)) (step twins))
      launched changedOnce).map (fun s => hashed s.events) =
      some [(0, (rxJob "1" 1).blob, 0), (0, (rxJob "1" 1).blob, 32768),
        (0, (rxJob "2" 2).blob, 0)] := by decide +kernel
  obtain ⟨s, hexec, hsame⟩ := Option.map_eq_some_iff.mp hrun
  have hnodup := nonces_unique (run_of_guarded (fun _ _ => of_decide_eq_true) hexec)
    (by decide) (by decide)
  exact ⟨hrun, hsame ▸ hnodup⟩

end VeloxHash.NonceUniqueness
