import VeloxHash.CpuWorker

/-! No finished work of a CPU worker is dropped: what is hashed, or begun by a first RandomX
half, is compared with the target of its job once. A nonce is taken as the lane it stands
in together with the number of its batch. -/

namespace VeloxHash.WorkComparison

open CodeBuffer TransitionSystem CpuWorker

variable {k : Primitives} {data : CpuLaunchData}

def comparisons (events : List Event) : List (Work × Hash) :=
  events.filterMap fun
    | .compared work hash => some (work, hash)
    | _ => none

def submissions (events : List Event) : List (Job × UInt32 × Hash) :=
  events.filterMap fun
    | .submit s => some (s.job, s.nonce, s.hash)
    | _ => none

/-- The submission that a comparison leads to. -/
def won (c : Work × Hash) : Option (Job × UInt32 × Hash) :=
  if c.2.value < c.1.job.target then some (c.1.job, c.1.nonce, c.2) else none

/-- The work whose hash an event computes or begins, and what its hash is. -/
def due (k : Primitives) : Event → Option (Work × Hash)
  | .hashed work hash => some (work, hash)
  | .started work bytes => some (work, k.finish (k.begin bytes))
  | _ => none

/-- The next step is a `fetch_add` of `nextRound`. -/
def fetches : Pc → Bool
  | .nextRound _ (.pause _ _) _ => false
  | .nextRound _ _ _ => true
  | _ => false

/-- What the accesses of `nextRound` find: the counter leaves room for a range. -/
def Room (env : Environment k) (w : Worker k) : Prop :=
  fetches w.pc = true → (env.shared.nonces w.job.index).toNat + (w.count.toNat - 1) ≤
    (Nonce.effectiveMask w.job.mask).toNat

/-- The worker takes no part in a benchmark, and its reservations succeed. -/
def Allowed (data : CpuLaunchData) (w : Worker k) (env : Environment k) : Prop :=
  (Enters data env w → w.benchSize = 0) ∧ Room env w

instance (env : Environment k) (w : Worker k) : Decidable (Room env w) := by
  unfold Room; infer_instance

instance (data : CpuLaunchData) (w : Worker k) (env : Environment k) :
    Decidable (Allowed data w env) := by
  unfold Allowed; infer_instance

/-- What the end of an iteration compares among the work that is due. -/
def owed (w : Worker k) (it : Iteration) : List (Work × Hash) :=
  if w.job.currentJob.algorithm.isRandomX then
    (it.nonces.take 1).map fun nonce => (w.work 0 nonce, k.finish w.vm)
  else if it.valid then
    it.nonces.zipIdx.map fun (nonce, lane) => (w.work lane nonce, w.hash lane)
  else
    []

/-- An iteration whose nonces are being replaced. -/
structure InFlight (data : CpuLaunchData) (w : Worker k) (lane : Nat) (call : Nonce.Pc)
    (it : Iteration) : Prop where
  lane : lane < data.width
  benchSize : w.benchSize = 0
  l3 : w.job.currentJob.algorithm.l3 = data.algorithm.l3
  valid : w.job.currentJob.algorithm.isRandomX = true → it.valid = true
  call : ∀ counter short, call = .pause counter short → short = false

def Phase (data : CpuLaunchData) (w : Worker k) : Prop :=
  match w.pc with
  | .nextRound lane call it => InFlight data w lane call it
  | _ => True

/-- What the end of the present iteration will compare. -/
def pending (w : Worker k) : List (Work × Hash) :=
  match w.pc with
  | .nextRound _ _ it => owed w it
  | _ => []

/-- The account of a history: all that is due has been compared or is pending, comparisons
are of earlier batches, and those that win were submitted. -/
structure Account (k : Primitives) (batch : Nat) (events : List Event)
    (pending : List (Work × Hash)) : Prop where
  below : ∀ c ∈ comparisons events, c.1.batch < batch
  once : ((comparisons events).map fun c => (c.1.batch, c.1.lane)).Nodup
  submitted : submissions events = (comparisons events).filterMap won
  due : ∀ e ∈ events, ∀ c, due k e = some c → c ∈ comparisons events ∨ c ∈ pending

structure Inv (data : CpuLaunchData) (h : History k) : Prop where
  masked : h.worker.job.Masked
  phase : Phase data h.worker
  account : Account k h.worker.batch h.events (pending h.worker)

section Account

variable {batch : Nat} {events new : List Event} {pend : List (Work × Hash)}

@[simp] theorem comparisons_append (xs ys : List Event) :
    comparisons (xs ++ ys) = comparisons xs ++ comparisons ys := List.filterMap_append

@[simp] theorem submissions_append (xs ys : List Event) :
    submissions (xs ++ ys) = submissions xs ++ submissions ys := List.filterMap_append

/-- Events that compare nothing; what they make due is pending. -/
theorem Account.defer (h : Account k batch events pend) {batch' : Nat}
    {pend' : List (Work × Hash)} (hcomparisons : comparisons new = [])
    (hsubmissions : submissions new = []) (hbatch : batch ≤ batch') (hpend : pend ⊆ pend')
    (hdue : ∀ e ∈ new, ∀ c, WorkComparison.due k e = some c → c ∈ pend') :
    Account k batch' (events ++ new) pend' := by
  constructor
  · simpa only [comparisons_append, hcomparisons, List.append_nil] using fun c hc =>
      (h.below c hc).trans_le hbatch
  · simpa only [comparisons_append, hcomparisons, List.append_nil] using h.once
  · simpa only [comparisons_append, submissions_append, hcomparisons, hsubmissions,
      List.append_nil] using h.submitted
  · intro e he c hc
    simp only [comparisons_append, hcomparisons, List.append_nil]
    rcases List.mem_append.mp he with he | he
    · exact (h.due e he c hc).imp_right (hpend ·)
    · exact .inr (hdue e he c hc)

/-- Nothing happens, and no less is pending. -/
theorem Account.idle (h : Account k batch events pend) {batch' : Nat}
    {pend' : List (Work × Hash)} (hbatch : batch ≤ batch') (hpend : pend ⊆ pend') :
    Account k batch' (events ++ []) pend' :=
  h.defer rfl rfl hbatch hpend fun _ he => absurd he List.not_mem_nil

/-- Events that compare a batch, and with it all that was pending. -/
theorem Account.settle (h : Account k batch events pend)
    (hbatch : ∀ c ∈ comparisons new, c.1.batch = batch)
    (hlanes : ((comparisons new).map fun c => c.1.lane).Nodup)
    (hsubmitted : submissions new = (comparisons new).filterMap won)
    (hpend : pend ⊆ comparisons new)
    (hdue : ∀ e ∈ new, ∀ c, WorkComparison.due k e = some c → c ∈ comparisons new) :
    Account k (batch + 1) (events ++ new) [] := by
  constructor
  · intro c hc
    rw [comparisons_append] at hc
    rcases List.mem_append.mp hc with hc | hc
    · exact (h.below c hc).trans (Nat.lt_succ_self batch)
    · exact (hbatch c hc).trans_lt (Nat.lt_succ_self batch)
  · rw [comparisons_append, List.map_append]
    refine h.once.append (List.Nodup.of_map Prod.snd ?_) ?_
    · rwa [List.map_map]
    · intro p hold hnew
      obtain ⟨c, hc, rfl⟩ := List.mem_map.mp hold
      obtain ⟨d, hd, hcd⟩ := List.mem_map.mp hnew
      have hlt := h.below c hc
      have heq := hbatch d hd
      have hsame : d.1.batch = c.1.batch := congrArg Prod.fst hcd
      omega
  · rw [submissions_append, comparisons_append, List.filterMap_append, h.submitted, hsubmitted]
  · intro e he c hc
    refine .inl ?_
    rw [comparisons_append]
    rcases List.mem_append.mp he with he | he
    · rcases h.due e he c hc with hc | hc
      · exact List.mem_append_left _ hc
      · exact List.mem_append_right _ (hpend hc)
    · exact List.mem_append_right _ (hdue e he c hc)

end Account

/-- Events that make work due compare and submit nothing. -/
theorem silent_of_due {events : List Event} (h : ∀ e ∈ events, (due k e).isSome = true) :
    comparisons events = [] ∧ submissions events = [] := by
  constructor <;>
  · refine List.filterMap_eq_nil_iff.mpr fun e he => ?_
    have hdue := h e he
    cases e <;> simp_all [due]

theorem due_results {w : Worker k} {it : Iteration} {e : Event} (he : e ∈ w.results it) :
    due k e = none := by
  unfold Worker.results at he
  split at he
  case isFalse => cases he
  case isTrue =>
    obtain ⟨⟨nonce, lane⟩, -, he⟩ := List.mem_flatMap.mp he
    unfold Worker.compare at he
    dsimp only at he
    split_ifs at he <;> simp only [List.mem_cons, List.not_mem_nil, or_false] at he <;>
      rcases he with rfl | rfl <;> rfl

section Results

variable {w : Worker k} {it : Iteration} (hbench : w.benchSize = 0)

include hbench

theorem comparisons_compare (it : Iteration) (lane : Nat) (nonce : UInt32) :
    comparisons (w.compare it lane nonce) = [(w.work lane nonce, w.hash lane)] := by
  unfold Worker.compare
  simp only [hbench, bne_self_eq_false, Bool.false_eq_true, if_false]
  split <;> rfl

theorem submissions_compare (it : Iteration) (lane : Nat) (nonce : UInt32) :
    submissions (w.compare it lane nonce) =
      ([(w.work lane nonce, w.hash lane)] : List (Work × Hash)).filterMap won := by
  unfold Worker.compare won
  simp only [hbench, bne_self_eq_false, Bool.false_eq_true, if_false, Worker.work,
    List.filterMap_cons, List.filterMap_nil]
  split <;> rfl

theorem comparisons_results (hvalid : it.valid = true) : comparisons (w.results it) =
    it.nonces.zipIdx.map fun p => (w.work p.2 p.1, w.hash p.2) := by
  rw [Worker.results, if_pos hvalid]
  induction it.nonces.zipIdx with
  | nil => rfl
  | cons p rest ih =>
    rw [List.flatMap_cons, comparisons_append, ih, List.map_cons]
    exact congrArg (· ++ _) (comparisons_compare hbench it p.2 p.1)

theorem submissions_results : submissions (w.results it) =
    (comparisons (w.results it)).filterMap won := by
  unfold Worker.results
  split
  case isFalse => rfl
  case isTrue =>
    induction it.nonces.zipIdx with
    | nil => rfl
    | cons p rest ih =>
      rw [List.flatMap_cons, comparisons_append, submissions_append, ih, List.filterMap_append]
      have hone := submissions_compare hbench it p.2 p.1
      rw [← comparisons_compare hbench it] at hone
      exact congrArg (· ++ _) hone

end Results

section Iteration

variable {w : Worker k} {it : Iteration} {env : Environment k} {events : List Event}

/-- The results of a batch settle all that is pending of it. -/
theorem account_results (hbench : w.benchSize = 0) (hvalid : it.valid = true)
    {pend : List (Work × Hash)} (first : List Event) (h : Account k w.batch events pend)
    (hpend : pend ⊆ it.nonces.zipIdx.map fun p => (w.work p.2 p.1, w.hash p.2))
    (hcomparisons : comparisons first = []) (hsubmissions : submissions first = [])
    (hdue : ∀ e ∈ first, ∀ c, due k e = some c →
      c ∈ it.nonces.zipIdx.map fun p => (w.work p.2 p.1, w.hash p.2)) :
    Account k (w.batch + 1) (events ++ (first ++ w.results it)) [] := by
  have hall : comparisons (first ++ w.results it) =
      it.nonces.zipIdx.map fun p => (w.work p.2 p.1, w.hash p.2) := by
    rw [comparisons_append, hcomparisons, List.nil_append, comparisons_results hbench hvalid]
  refine h.settle ?_ ?_ ?_ ?_ ?_
  · intro c hc
    rw [hall] at hc
    obtain ⟨p, -, rfl⟩ := List.mem_map.mp hc
    rfl
  · rw [hall, List.map_map]
    have hsnd : (it.nonces.zipIdx.map Prod.snd).Nodup := by
      rw [List.zipIdx_map_snd]
      exact List.nodup_range'
    exact hsnd
  · rw [submissions_append, hsubmissions, List.nil_append, submissions_results hbench,
      comparisons_append, hcomparisons, List.nil_append]
  · rwa [hall]
  · intro e he c hc
    rcases List.mem_append.mp he with he | he
    · rw [hall]
      exact hdue e he c hc
    · rw [due_results he] at hc
      cases hc

/-- The first lane is among those compared. -/
theorem first_mem_zipIdx {c : Work × Hash} {f : UInt32 × Nat → Work × Hash}
    (hc : c ∈ (it.nonces.take 1).map fun nonce => f (nonce, 0)) : c ∈ it.nonces.zipIdx.map f := by
  obtain ⟨nonce, hnonce, rfl⟩ := List.mem_map.mp hc
  refine List.mem_map.mpr ⟨(nonce, 0), List.mk_mem_zipIdx_iff_getElem?.mpr ?_, rfl⟩
  cases hn : it.nonces with
  | nil => simp [hn] at hnonce
  | cons n rest => simpa [hn, eq_comm] using hnonce

theorem account_finish (hbench : w.benchSize = 0)
    (hvalid : w.job.currentJob.algorithm.isRandomX = true → it.valid = true)
    (h : Account k w.batch events (owed w it)) (shared : Nonce.Shared) :
    Account k (finish env shared w it).worker.batch (events ++ (finish env shared w it).events)
      (pending (finish env shared w it).worker) := by
  unfold owed at h
  unfold finish
  dsimp only
  split
  case isTrue hrx =>
    rw [if_pos hrx] at h
    have hvalid := hvalid hrx
    generalize hit : (if w.job.currentJob.hasMinerSignature = true then
      { it with saved := w.job.signature } else it) = it'
    obtain ⟨hnonces, hvalid'⟩ : it'.nonces = it.nonces ∧ it'.valid = it.valid := by
      subst hit
      split <;> exact ⟨rfl, rfl⟩
    have hwork : (fun nonce => ((w.next (env.entropy 1)).work 0 nonce,
        (w.next (env.entropy 1)).hash 0)) = fun nonce => (w.work 0 nonce, k.finish w.vm) := by
      funext nonce
      rw [w.next_work, w.next_hash_zero]
    rw [← hwork, ← hnonces] at h
    refine account_results (w := w.next (env.entropy 1)) hbench (hvalid'.trans hvalid) _ h ?_ ?_ ?_ ?_
    · exact fun c hc => first_mem_zipIdx (f := fun p => ((w.next (env.entropy 1)).work p.2 p.1,
        (w.next (env.entropy 1)).hash p.2)) hc
    · exact (silent_of_due (k := k) (List.forall_mem_map.mpr fun _ _ => rfl)).1
    · exact (silent_of_due (k := k) (List.forall_mem_map.mpr fun _ _ => rfl)).2
    · intro e he c hc
      obtain ⟨nonce, hnonce, rfl⟩ := List.mem_map.mp he
      obtain rfl := Option.some.inj hc
      refine first_mem_zipIdx (f := fun p => ((w.next (env.entropy 1)).work p.2 p.1,
        (w.next (env.entropy 1)).hash p.2)) (List.mem_map.mpr ⟨nonce, hnonce, ?_⟩)
      rw [w.next_work]
  case isFalse hrx =>
    rw [if_neg hrx] at h
    by_cases hvalid : it.valid = true
    · rw [if_pos hvalid] at h
      exact account_results hbench hvalid [] h (List.Subset.refl _) rfl rfl (by simp)
    · have hnone : w.results it = [] := if_neg hvalid
      rw [if_neg hvalid] at h
      rw [hnone]
      exact h.defer rfl rfl (Nat.le_succ _) (List.Subset.refl _) (by simp)

/-- What a step adds to a history keeps its account. -/
structure Kept (data : CpuLaunchData) (events : List Event) (effect : Effect k) : Prop where
  masked : effect.worker.job.Masked
  phase : Phase data effect.worker
  account : Account k effect.worker.batch (events ++ effect.events) (pending effect.worker)

theorem Kept.prepend {effect : Effect k} {first : List Event}
    (h : Kept data (events ++ first) effect) :
    Kept data events { effect with events := first ++ effect.events } := by
  refine ⟨h.masked, h.phase, ?_⟩
  have haccount := h.account
  rwa [List.append_assoc] at haccount

theorem kept_finish (hmasked : w.job.Masked) (hbench : w.benchSize = 0)
    (hvalid : w.job.currentJob.algorithm.isRandomX = true → it.valid = true)
    (h : Account k w.batch events (owed w it)) (shared : Nonce.Shared) :
    Kept data events (finish env shared w it) := by
  refine ⟨?_, ?_, account_finish hbench hvalid h shared⟩
  · unfold finish Worker.next Worker.begin
    dsimp only
    split
    case isTrue => split <;> exact hmasked
    case isFalse => exact hmasked
  · rw [Phase, finish_pc]
    trivial

theorem kept_startRound (env : Environment k) (hmasked : w.job.Masked) (hbench : w.benchSize = 0)
    (hl3 : w.job.currentJob.algorithm.l3 = data.algorithm.l3)
    (hvalid : w.job.currentJob.algorithm.isRandomX = true → it.valid = true)
    (h : Account k w.batch events (owed w it)) : Kept data events (startRound data env w it) := by
  unfold startRound
  dsimp only
  split
  case isTrue =>
    exact ⟨hmasked, ⟨data.pos, hbench, hl3, hvalid, nofun⟩, h.idle le_rfl (List.Subset.refl _)⟩
  case isFalse =>
    exact kept_finish (w := { w with job := w.job.countRound.bump 1 data.width }) hmasked hbench
      hvalid h env.shared

theorem compute_job (data : CpuLaunchData) (env : Environment k) (w : Worker k) (it : Iteration) :
    (compute data env w it).1.job.currentJob = w.job.currentJob ∧
    (compute data env w it).1.batch = w.batch ∧
    (compute data env w it).1.benchSize = w.benchSize ∧
    (w.job.Masked → (compute data env w it).1.job.Masked) := by
  unfold compute
  split_ifs
  · refine ⟨w.begin_currentJob _, rfl, rfl, fun h => ?_⟩
    unfold Worker.begin
    dsimp only
    split <;> exact h
  · exact ⟨rfl, rfl, rfl, id⟩
  · exact ⟨rfl, rfl, rfl, id⟩
  · exact ⟨rfl, rfl, rfl, id⟩

theorem owed_randomX (it : Iteration) (hrx : w.job.currentJob.algorithm.isRandomX = true) :
    owed w it = (it.nonces.take 1).map fun nonce => (w.work 0 nonce, k.finish w.vm) := if_pos hrx

theorem owed_valid (it : Iteration) (hrx : ¬ w.job.currentJob.algorithm.isRandomX = true)
    (hvalid : it.valid = true) :
    owed w it = it.nonces.zipIdx.map fun p => (w.work p.2 p.1, w.hash p.2) :=
  (if_neg hrx).trans (if_pos hvalid)

/-- What the hashing makes due is owed. -/
theorem account_compute (data : CpuLaunchData) (env : Environment k) (it : Iteration)
    (h : Account k w.batch events []) : Account k
    (compute data env w it).1.batch (events ++ (compute data env w it).2)
    (owed (compute data env w it).1 it) := by
  unfold compute
  split_ifs with hrx hfirst hvalid
  · have howed := owed_randomX it ((w.begin_currentJob (env.entropy 0)).symm ▸ hrx)
    refine h.defer ?_ ?_ le_rfl (List.nil_subset _) ?_
    · exact (silent_of_due (k := k) (List.forall_mem_map.mpr fun _ _ => rfl)).1
    · exact (silent_of_due (k := k) (List.forall_mem_map.mpr fun _ _ => rfl)).2
    · intro e he c hc
      obtain ⟨nonce, hnonce, rfl⟩ := List.mem_map.mp he
      obtain rfl := Option.some.inj hc
      refine howed ▸ List.mem_map.mpr ⟨nonce, hnonce, Prod.ext ?_ rfl⟩
      simp only [Worker.work, w.begin_currentJob]
      rfl
  · exact h.idle le_rfl (List.nil_subset _)
  · have howed := owed_valid (w := w.hashAll data.width) it hrx hvalid
    refine h.defer ?_ ?_ le_rfl (List.nil_subset _) ?_
    · exact (silent_of_due (k := k) (List.forall_mem_map.mpr fun _ _ => rfl)).1
    · exact (silent_of_due (k := k) (List.forall_mem_map.mpr fun _ _ => rfl)).2
    · intro e he c hc
      obtain ⟨p, hp, rfl⟩ := List.mem_map.mp he
      obtain rfl := Option.some.inj hc
      exact howed ▸ List.mem_map.mpr ⟨p, hp, rfl⟩
  · exact h.idle le_rfl (List.nil_subset _)

theorem kept_body (hmasked : w.job.Masked) (hbench : w.benchSize = 0)
    (hl3 : w.job.currentJob.algorithm.l3 = data.algorithm.l3)
    (h : Account k w.batch events []) : Kept data events (body data env w) := by
  have hnone : (w.benchSize != 0) = false := by simp [hbench]
  unfold body
  simp only [hnone, Bool.false_and, Bool.false_eq_true, if_false]
  generalize hit : (⟨(List.range data.width).map w.job.nonce, _, env.stack⟩ : Iteration) = it
  obtain ⟨hjob, hbatch, hsize, hmask⟩ := compute_job data env w it
  have hvalid (hrx : (compute data env w it).1.job.currentJob.algorithm.isRandomX = true) :
      it.valid = true := by
    rw [hjob] at hrx
    subst hit
    simp [Algorithm.isGhostrider_of_isRandomX hrx]
  have hkept := kept_startRound env (hmask hmasked) (hsize.trans hbench)
    (hjob.symm ▸ hl3) hvalid (account_compute data env it h)
  exact hkept.prepend

theorem account_reservation {batch : Nat} {pend : List (Work × Hash)}
    (h : Account k batch events pend) (w : Worker k) (call : Nonce.Pc) :
    Account k batch (events ++ reservation w call) pend := by
  refine h.defer ?_ ?_ le_rfl (List.Subset.refl _) fun e he c hc => ?_
  · cases call <;> rfl
  · cases call <;> rfl
  · cases call <;> simp [reservation] at he <;> subst he <;> cases hc

theorem kept_advance {lane : Nat} {call : Nonce.Pc} (hmasked : w.job.Masked)
    (hflight : InFlight data w lane call it) (h : Account k w.batch events (owed w it))
    (shared : Nonce.Shared) (counter : UInt64) :
    Kept data events (advance data env shared w lane counter it) := by
  have hsync : (w.job.storeNonce lane counter).syncNonce = w.job.storeNonce lane counter :=
    WorkerJob.syncNonce_eq (data.of_l3 hflight.l3).1
  unfold advance
  dsimp only
  rw [hsync, ite_self]
  split
  case isTrue hlane =>
    exact ⟨hmasked, ⟨hlane, hflight.benchSize, hflight.l3, hflight.valid, nofun⟩,
      h.idle le_rfl (List.Subset.refl _)⟩
  case isFalse =>
    exact kept_finish (w := { w with job := w.job.storeNonce lane counter }) hmasked
      hflight.benchSize hflight.valid h shared

/-- With room for a range an access takes it, at once or after pausing everyone. -/
theorem step_room {lane : Nat} {call call' : Nonce.Pc} {shared : Nonce.Shared}
    (hmasked : w.job.Masked) (hflight : InFlight data w lane call it)
    (hpc : w.pc = .nextRound lane call it) (hroom : Room env w)
    (hstep : call.step (w.job.args w.count) env.shared = some (shared, call')) :
    (∃ counter, call' = .done (some counter)) ∨
      (∀ counter short, call ≠ .pause counter short) ∧ ∃ counter, call' = .pause counter false := by
  obtain ⟨hsize, hvalid⟩ := data.of_l3 hflight.l3
  have hmask := hmasked.effectiveMask_lt hsize hvalid
  have hcount := w.one_le_count
  have hfetch (hroom : (env.shared.nonces w.job.index).toNat + (w.count.toNat - 1) ≤
      (Nonce.effectiveMask w.job.mask).toNat)
      (hcall : call' = Nonce.Pc.afterFetch (w.job.args w.count) (env.shared.nonces w.job.index))
      (hpause : ∀ counter short, call ≠ .pause counter short) :
      (∃ counter, call' = .done (some counter)) ∨
        (∀ counter short, call ≠ .pause counter short) ∧
          ∃ counter, call' = .pause counter false := by
    rcases Nonce.afterFetch_room (a := w.job.args w.count) hmask hcount hroom with h | h
    · exact .inr ⟨hpause, _, hcall.trans h⟩
    · exact .inl ⟨_, hcall.trans h⟩
  cases call with
  | enter =>
    have hroom := hroom (hpc ▸ rfl)
    have hrefuses : Nonce.refuses (w.job.args w.count) = false :=
      Nonce.not_refuses hcount ((Nat.le_add_left _ _).trans hroom)
    rw [Nonce.Pc.step, hrefuses] at hstep
    exact hfetch hroom (congrArg Prod.snd (Option.some.inj hstep)).symm nofun
  | fetch =>
    exact hfetch (hroom (hpc ▸ rfl)) (congrArg Prod.snd (Option.some.inj hstep)).symm nofun
  | pause counter short =>
    obtain rfl := hflight.call counter short rfl
    exact .inl ⟨counter, (congrArg Prod.snd (Option.some.inj hstep)).symm⟩
  | done result => cases hstep

theorem kept_nextRoundStep {lane : Nat} {call : Nonce.Pc} {effect : Effect k}
    (hmasked : w.job.Masked) (hflight : InFlight data w lane call it)
    (hpc : w.pc = .nextRound lane call it) (hroom : Room env w)
    (h : Account k w.batch events (owed w it))
    (hstep : nextRoundStep data env w lane call it = some effect) : Kept data events effect := by
  obtain ⟨⟨shared, call'⟩, hcall, rfl⟩ := Option.map_eq_some_iff.mp hstep
  have haccount := account_reservation h w call
  rcases step_room hmasked hflight hpc hroom hcall with ⟨counter, rfl⟩ | ⟨-, counter, rfl⟩
  · exact (kept_advance hmasked hflight haccount shared counter).prepend
  · have hwait : Kept data (events ++ reservation w call)
        ⟨{ w with pc := .nextRound lane (.pause counter false) it }, shared, []⟩ :=
      ⟨hmasked, ⟨hflight.lane, hflight.benchSize, hflight.l3, hflight.valid, by simp⟩,
        haccount.idle le_rfl (List.Subset.refl _)⟩
    exact hwait.prepend

end Iteration

section Step

variable {w : Worker k} {env : Environment k} {events : List Event} {effect : Effect k}

/-- A step outside an iteration that emits nothing. -/
theorem kept_quiet {v : Worker k} {shared : Nonce.Shared} (hmasked : v.job.Masked)
    (hphase : Phase data v) (hbatch : w.batch ≤ v.batch) (h : Account k w.batch events []) :
    Kept data events ⟨v, shared, []⟩ :=
  ⟨hmasked, hphase, h.idle hbatch (List.nil_subset _)⟩

theorem kept_add (hmasked : w.job.Masked) (h : Account k w.batch events []) (job : Job)
    (sequence : UInt64) (resume : Resume) :
    Kept data events (quiet env (w.add job sequence resume)) := by
  have hmasked' : WorkerJob.Masked { w.job with sequence } := hmasked
  unfold Worker.add
  dsimp only
  generalize { w.job with sequence } = old at *
  split
  case h_1 kept hkept =>
    have hkept := hmasked'.keep hkept
    cases resume <;> exact kept_quiet hkept trivial le_rfl h
  case h_2 => exact kept_quiet (hmasked'.select job) trivial (Nat.le_succ _) h

theorem kept_saveStep {lane : Nat} {call : Nonce.Pc} {resume : Resume} (hmasked : w.job.Masked)
    (h : Account k w.batch events [])
    (hstep : saveStep data env w lane call resume = some effect) : Kept data events effect := by
  obtain ⟨⟨shared, call'⟩, -, rfl⟩ := Option.map_eq_some_iff.mp hstep
  have haccount := account_reservation h w call
  have hsaved (result : Option UInt64) :
      (w.saved data.width lane resume result).job.Masked ∧
        Phase data (w.saved data.width lane resume result) ∧
        (w.saved data.width lane resume result).batch = w.batch ∧
        pending (w.saved data.width lane resume result) = [] := by
    unfold Worker.saved
    dsimp only
    cases result <;> split <;> cases resume <;> exact ⟨hmasked, trivial, rfl, rfl⟩
  cases call' with
  | done result =>
    obtain ⟨hmasked, hphase, hbatch, hpending⟩ := hsaved result
    refine ⟨hmasked, hphase, ?_⟩
    simp only [hbatch, hpending]
    exact haccount
  | _ => exact ⟨hmasked, trivial, haccount⟩

theorem kept_step (h : Inv data ⟨w, events⟩) (hallowed : Allowed data w env)
    (hstep : step data env w = some effect) : Kept data events effect := by
  have hmasked := h.masked
  have hphase := h.phase
  have haccount := h.account
  unfold Phase at hphase
  unfold pending at haccount
  unfold step at hstep
  dsimp only at hstep hphase haccount hmasked
  cases hpc : w.pc <;> simp only [hpc] at hphase haccount hstep
  case save lane call resume => exact kept_saveStep hmasked haccount hstep
  case add job resume =>
    cases hstep
    exact kept_add hmasked haccount job _ resume
  case load resume =>
    cases hstep
    exact kept_quiet hmasked trivial le_rfl haccount
  case iterate =>
    cases hstep
    unfold iterate
    split
    case isTrue => exact kept_quiet hmasked trivial le_rfl haccount
    case isFalse hcurrent =>
      split
      case isTrue => exact kept_quiet hmasked trivial le_rfl haccount
      case isFalse hl3 =>
        have hl3 := not_not.mp hl3
        have hbench := hallowed.1 ⟨hpc, Bool.of_not_eq_true hcurrent, hl3⟩
        exact kept_body hmasked hbench hl3 haccount
  case nextRound lane call it =>
    exact kept_nextRoundStep hmasked hphase hpc hallowed.2 haccount hstep
  case pausedTest =>
    split at hstep <;> cases hstep <;> exact kept_quiet hmasked trivial le_rfl haccount
  case consume resume =>
    split at hstep <;> cases hstep
    · cases resume <;> exact kept_quiet hmasked trivial le_rfl haccount
    · exact kept_quiet hmasked trivial le_rfl haccount
  case returned => cases hstep
  all_goals
    split at hstep <;> cases hstep <;> exact kept_quiet hmasked trivial le_rfl haccount

end Step

section Progress

variable {w : Worker k} {env : Environment k} {effect : Effect k} {c : Work × Hash}

/-- Accesses an iteration can still make. -/
def remaining (data : CpuLaunchData) (w : Worker k) : Nat :=
  match w.pc with
  | .nextRound lane (.pause _ _) _ => 2 * (data.width - lane) - 1
  | .nextRound lane _ _ => 2 * (data.width - lane)
  | _ => 0

end Progress

theorem inv_launch (blob : Memory) (hash : Nat → Hash) (vm : k.Vm) :
    Inv data ⟨launch blob hash vm, []⟩ :=
  ⟨fun _ => .inl rfl, trivial, fun _ hc => absurd hc List.not_mem_nil, List.nodup_nil, rfl,
    fun _ he => absurd he List.not_mem_nil⟩

theorem inv_step {h h' : History k} {env : Environment k} (hallowed : Allowed data h.worker env)
    (hinv : Inv data h) (hstep : History.step data h env = some h') : Inv data h' := by
  obtain ⟨effect, heffect, rfl⟩ := Option.map_eq_some_iff.mp hstep
  have hkept := kept_step hinv hallowed heffect
  exact ⟨hkept.masked, hkept.phase, hkept.account⟩

/-- A RandomX benchmark of ten hashes. -/
def benchJob : Job where
  algorithm := .rx0
  id := "1"
  target := 1
  blob := List.replicate 76 0
  benchSize := 10

/-- The same blob outside a benchmark. -/
def poolJob : Job := { benchJob with benchSize := 0 }

end VeloxHash.WorkComparison
