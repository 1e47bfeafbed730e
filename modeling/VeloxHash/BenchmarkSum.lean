import VeloxHash.BenchmarkLedger

/-! The checksum of a benchmark. When `BenchState` reports that all workers are done, the words of
all nonces below the size have been added, each once. -/

namespace VeloxHash.Benchmark

open TransitionSystem CpuWorker Relation

theorem sum_update {n : Nat} {α : Type*} (f : α → Nat) (t : Fin n → α) (i : Fin n) (a : α) :
    ∑ j, f (Function.update t i a j) + f (t i) = ∑ j, f (t j) + f a := by
  have hold := Finset.sum_eq_add_sum_sdiff_singleton_of_mem (Finset.mem_univ i) fun j => f (t j)
  have hnew := Finset.sum_eq_add_sum_sdiff_singleton_of_mem (Finset.mem_univ i) fun j =>
    f (Function.update t i a j)
  have hrest : ∑ j ∈ Finset.univ \ {i}, f (Function.update t i a j) =
      ∑ j ∈ Finset.univ \ {i}, f (t j) := by
    refine Finset.sum_congr rfl fun j hj => ?_
    rw [Function.update_of_ne (by simpa using hj)]
  rw [hold, hnew, hrest, Function.update_self]
  omega

section Report

variable {x : Setup} {s : State x} {g g' : Shared} {w w' : Worker} {i : Fin x.threads}

theorem saveLane_ne_finished (w : Worker) (lane : Nat) (resume : Resume)
    (result : Option UInt64) : (w.saveLane x lane resume result).pc ≠ .finished := by
  unfold Worker.saveLane
  dsimp only
  split
  · exact nofun
  · cases resume <;> exact nofun

theorem roundLane_ne_finished (w : Worker) (lane : Nat) (result : Option UInt64) :
    (w.roundLane x lane result).pc ≠ .finished := by
  cases result with
  | none => exact nofun
  | some counter =>
    unfold Worker.roundLane Worker.hashNext
    dsimp only
    split
    · exact nofun
    · split <;> exact nofun

theorem iterate_ne_finished (w : Worker) (g : Shared) : (w.iterate x g).pc ≠ .finished := by
  unfold Worker.iterate Worker.hashAll
  split
  · exact nofun
  · split
    · exact nofun
    · split <;> exact nofun

theorem addResult_quiet (w : Worker) (g : Shared) (lane : Nat) :
    (w.addResult x g lane).2.pc ≠ .finished ∧ (w.addResult x g lane).1.remaining = g.remaining ∧
      (w.addResult x g lane).1.started = g.started ∧
        (w.addResult x g lane).1.reported = g.reported := by
  unfold Worker.addResult
  dsimp only
  constructor
  · split <;> exact nofun
  · split <;> exact ⟨rfl, rfl, rfl⟩

/-- `BenchState::done` is called by a worker that returns, and by no other. -/
theorem report_step (h : w.step x g = some (g', w')) : w.pc ≠ .finished ∧
    (w'.pc = .finished ∧ g' = g.done ∨ w'.pc ≠ .finished ∧ g'.remaining = g.remaining ∧
      g'.started = g.started ∧ g'.reported = g.reported) := by
  unfold Worker.step at h
  dsimp only at h
  cases hpc : w.pc with
  | running | sleeping | sleepingTest | woken | leave =>
    rw [hpc] at h
    obtain ⟨rfl, rfl⟩ := Prod.mk.inj (Option.some.inj h)
    refine ⟨nofun, .inr ⟨?_, rfl, rfl, rfl⟩⟩
    dsimp only
    split <;> exact nofun
  | pausedTest =>
    rw [hpc] at h
    dsimp only at h
    split at h <;>
    · obtain ⟨rfl, rfl⟩ := Prod.mk.inj (Option.some.inj h)
      exact ⟨nofun, .inr ⟨nofun, rfl, rfl, rfl⟩⟩
  | consume resume =>
    rw [hpc] at h
    dsimp only at h
    split at h
    · obtain ⟨rfl, rfl⟩ := Prod.mk.inj (Option.some.inj h)
      refine ⟨nofun, .inr ⟨?_, rfl, rfl, rfl⟩⟩
      cases resume <;> exact nofun
    · obtain ⟨rfl, rfl⟩ := Prod.mk.inj (Option.some.inj h)
      exact ⟨nofun, .inr ⟨nofun, rfl, rfl, rfl⟩⟩
  | add resume =>
    rw [hpc] at h
    obtain ⟨rfl, rfl⟩ := Prod.mk.inj (Option.some.inj h)
    refine ⟨nofun, .inr ⟨?_, rfl, rfl, rfl⟩⟩
    split
    · cases resume <;> exact nofun
    · exact nofun
  | save lane call resume =>
    rw [hpc] at h
    obtain ⟨⟨nonce, call'⟩, -, heq⟩ := Option.map_eq_some_iff.mp h
    obtain ⟨rfl, rfl⟩ := Prod.mk.inj heq
    refine ⟨nofun, .inr ⟨?_, rfl, rfl, rfl⟩⟩
    cases call' with
    | done result => exact saveLane_ne_finished w lane resume result
    | _ => exact nofun
  | iterate =>
    rw [hpc] at h
    obtain ⟨rfl, rfl⟩ := Prod.mk.inj (Option.some.inj h)
    exact ⟨nofun, .inr ⟨iterate_ne_finished w _, rfl, rfl, rfl⟩⟩
  | nextRound lane call =>
    rw [hpc] at h
    obtain ⟨⟨nonce, call'⟩, -, heq⟩ := Option.map_eq_some_iff.mp h
    obtain ⟨rfl, rfl⟩ := Prod.mk.inj heq
    refine ⟨nofun, .inr ⟨?_, rfl, rfl, rfl⟩⟩
    cases call' with
    | done result => exact roundLane_ne_finished w lane result
    | _ => exact nofun
  | addResult lane =>
    rw [hpc] at h
    obtain ⟨rfl, rfl⟩ := Prod.mk.inj (Option.some.inj h)
    exact ⟨nofun, .inr (addResult_quiet w g lane)⟩
  | done =>
    rw [hpc] at h
    obtain ⟨rfl, rfl⟩ := Prod.mk.inj (Option.some.inj h)
    exact ⟨nofun, .inl ⟨rfl, rfl⟩⟩
  | finished | returned =>
    rw [hpc] at h
    exact nomatch h

def returns (w : Worker) : Nat := if w.pc = .finished then 1 else 0

theorem sum_returns_le (workers : Fin x.threads → Worker) :
    ∑ i, returns (workers i) ≤ x.threads := by
  refine (Finset.sum_le_card_nsmul _ _ 1 fun i _ => ?_).trans ?_
  · unfold returns
    split <;> omega
  · rw [Finset.card_fin, smul_eq_mul, Nat.mul_one]

theorem finished_of_sum {workers : Fin x.threads → Worker}
    (h : x.threads ≤ ∑ i, returns (workers i)) (i : Fin x.threads) :
    (workers i).pc = .finished := by
  by_contra hne
  have hsum := sum_update returns workers i { workers i with pc := .finished }
  have hle := sum_returns_le (Function.update workers i { workers i with pc := .finished })
  have hold : returns (workers i) = 0 := if_neg hne
  have hnew : returns { workers i with pc := .finished } = 1 := if_pos rfl
  omega

/-- The count of workers that `BenchState` waits for. Before `start` it goes below zero. -/
structure Report (s : State x) : Prop where
  reported : s.shared.reported = true → ∀ i, (s.workers i).pc = .finished
  started : s.shared.started = true →
    x.threads ≤ s.shared.remaining.toNat + ∑ i, returns (s.workers i)
  early : s.shared.started = false →
    s.shared.remaining.toNat = 0 ∧ ∑ i, returns (s.workers i) = 0 ∨
      s.shared.remaining.toNat + ∑ i, returns (s.workers i) = 2 ^ 32

theorem Report.worker (h : Report s) (hthreads : x.threads < 2 ^ 32)
    (hstep : (s.workers i).step x s.shared = some (g', w')) :
    Report ⟨g', Function.update s.workers i w'⟩ := by
  have hsum := sum_update returns s.workers i w'
  have hle := sum_returns_le (Function.update s.workers i w')
  obtain ⟨hrunning, ⟨hpc, rfl⟩ | ⟨hpc, hremaining, hstarted, hreported⟩⟩ := report_step hstep
  · have hold : returns (s.workers i) = 0 := if_neg hrunning
    have hnew : returns w' = 1 := if_pos hpc
    have hremaining := s.shared.remaining.toNat_lt
    have hless : s.shared.remaining.toNat ≠ 0 →
        (s.shared.remaining - 1).toNat = s.shared.remaining.toNat - 1 := fun hne =>
      UInt32.toNat_sub_of_le _ _ (UInt32.le_iff_toNat_le.mpr (Nat.one_le_iff_ne_zero.mpr hne))
    have hwrap : s.shared.remaining.toNat = 0 → (s.shared.remaining - 1).toNat = 2 ^ 32 - 1 := by
      intro hzero
      rw [UInt32.toNat_inj.mp (hzero.trans UInt32.toNat_zero.symm)]
      rfl
    refine ⟨fun hreported => ?_, fun hstarted => ?_, fun hstarted => ?_⟩
    · rcases Bool.or_eq_true_iff.mp hreported with hbefore | hlast
      · exact absurd (h.reported hbefore i) hrunning
      · have hlast : (s.shared.remaining - 1).toNat = 0 := by
          rw [beq_iff_eq.mp hlast]
          rfl
        refine finished_of_sum ?_
        change x.threads ≤ ∑ j, returns (Function.update s.workers i w' j)
        cases hstarted : s.shared.started with
        | true =>
          have hcount := h.started hstarted
          omega
        | false =>
          have hearly := h.early hstarted
          omega
    · have hcount := h.started hstarted
      change x.threads ≤ (s.shared.remaining - 1).toNat + _
      dsimp only
      omega
    · have hearly := h.early hstarted
      change (s.shared.remaining - 1).toNat = 0 ∧ _ ∨ (s.shared.remaining - 1).toNat + _ = 2 ^ 32
      dsimp only
      omega
  · have hold : returns (s.workers i) = 0 := if_neg hrunning
    have hnew : returns w' = 0 := if_neg hpc
    have hsame : ∑ j, returns (Function.update s.workers i w' j) = ∑ j, returns (s.workers j) := by
      omega
    refine ⟨fun hbefore => absurd (h.reported (hreported ▸ hbefore) i) hrunning, fun hafter => ?_,
      fun hafter => ?_⟩
    · dsimp only
      rw [hsame, hremaining]
      exact h.started (hstarted ▸ hafter)
    · dsimp only
      rw [hsame, hremaining]
      exact h.early (hstarted ▸ hafter)

end Report

section Run

variable {x : Setup} {s s' : State x} {event : Event x}

/-- The nonces below the size are all fetched, in order, and each is counted or with one worker. -/
structure Inv (s : State x) : Prop where
  ledger : ∃ t : Fin x.threads → List UInt32,
    (∀ i, Owns x s.shared.counter (s.workers i) (t i)) ∧
    ∀ n < x.size, s.shared.counted.count n + ∑ i, (t i).count n =
      if n.toNat < s.shared.counter then 1 else 0
  sums : Sums x s.shared
  report : Report s

/-- The steps of workers are orderly. -/
def Kept (s : State x) : Event x → Prop
  | .worker i => Orderly x s.shared (s.workers i)
  | _ => True

theorem inv_init : Inv (init x) where
  ledger := by
    have hnone (i : Fin x.threads) : tickets ((init x).workers i) = [] := rfl
    refine ⟨fun _ => [], fun i => .inl ⟨⟨List.length_replicate, fun n hn => (nomatch hnone i ▸ hn),
      nofun⟩, rfl⟩, fun n _ => ?_⟩
    change [].count n + ∑ i : Fin x.threads, [].count n = if n.toNat < 0 then 1 else 0
    simp
  sums := ⟨nofun, rfl⟩
  report := by
    have hnone : ∑ i, returns ((init x).workers i) = 0 := Finset.sum_eq_zero fun i _ => rfl
    exact ⟨nofun, nofun, fun _ => .inl ⟨rfl, hnone⟩⟩

theorem inv_worker (hthreads : x.threads < 2 ^ 32) (h : Inv s) (i : Fin x.threads)
    (horderly : Orderly x s.shared (s.workers i)) (hstep : step s (.worker i) = some s') :
    Inv s' := by
  obtain ⟨⟨g', w'⟩, hworker, rfl⟩ := Option.map_eq_some_iff.mp hstep
  obtain ⟨t, howns, hledger⟩ := h.ledger
  obtain ⟨t', hmoves⟩ := owns_step (howns i) horderly hworker
  refine ⟨⟨Function.update t i t', fun j => ?_, fun n hn => ?_⟩, hmoves.sums h.sums,
    h.report.worker hthreads hworker⟩
  · by_cases hj : j = i
    · subst hj
      simp only [Function.update_self]
      exact hmoves.owns
    · simp only [Function.update_of_ne hj]
      exact (howns j).mono hmoves.le
  · have hsum := sum_update (List.count n) t i t'
    have hcount := hmoves.count n hn
    have hbefore := hledger n hn
    have hle := hmoves.le
    dsimp only
    split_ifs at hcount hbefore ⊢ <;> omega

/-- What the main thread writes is not on the ledger. -/
theorem Inv.main (h : Inv s) {g' : Shared} (hcounter : g'.counter = s.shared.counter)
    (hcounted : g'.counted = s.shared.counted) (hdata : g'.data = s.shared.data)
    (hreport : Report ⟨g', s.workers⟩) : Inv ⟨g', s.workers⟩ := by
  obtain ⟨t, howns, hledger⟩ := h.ledger
  refine ⟨⟨t, fun i => hcounter ▸ howns i, fun n hn => ?_⟩, ⟨hcounted ▸ h.sums.below, ?_⟩, hreport⟩
  · dsimp only
    rw [hcounted, hcounter]
    exact hledger n hn
  · dsimp only
    rw [hdata, hcounted]
    exact h.sums.data

theorem inv_step (hthreads : x.threads < 2 ^ 32) (hkept : Kept s event) (h : Inv s)
    (hstep : step s event = some s') : Inv s' := by
  cases event with
  | worker i => exact inv_worker hthreads h i hkept hstep
  | start =>
    obtain ⟨hnot, hs'⟩ := Option.ite_none_left_eq_some.mp hstep
    obtain rfl := Option.some.inj hs'
    refine h.main rfl rfl rfl ⟨h.report.reported, fun _ => ?_, nofun⟩
    have hcount : (UInt32.ofNat x.threads).toNat = x.threads := UInt32.toNat_ofNat_of_lt' hthreads
    change x.threads ≤ (UInt32.ofNat x.threads).toNat + _
    omega
  | pause | touch | stop =>
    obtain rfl := Option.some.inj hstep
    exact h.main rfl rfl rfl ⟨h.report.reported, h.report.started, h.report.early⟩

/-- The checksum of all nonces below the size. -/
def checksum (x : Setup) : UInt64 :=
  ((List.range x.size.toNat).map fun n => x.word (UInt32.ofNat n)).foldr (· ^^^ ·) 0

/-- The nonces counted are those below the size, each once. -/
structure Complete (x : Setup) (g : Shared) : Prop where
  counted : g.counted.Perm ((List.range x.size.toNat).map UInt32.ofNat)
  data : g.data = checksum x

theorem complete_of_inv (h : Inv s) (hreported : s.shared.reported = true) :
    Complete x s.shared := by
  obtain ⟨t, howns, hledger⟩ := h.ledger
  have hfinished := h.report.reported hreported
  have hfirst : 0 < x.threads := Nat.zero_lt_of_lt x.one_lt_threads
  have hall := (howns ⟨0, hfirst⟩).finished (hfinished ⟨0, hfirst⟩)
  have hlt (n : Nat) (hn : n < x.size.toNat) : n < 2 ^ 32 := hn.trans x.size.toNat_lt
  have hnodup : ((List.range x.size.toNat).map UInt32.ofNat).Nodup := by
    refine List.Nodup.map_on (fun m hm n hn heq => ?_) List.nodup_range
    have heq' := congrArg UInt32.toNat heq
    rwa [UInt32.toNat_ofNat_of_lt' (hlt m (List.mem_range.mp hm)),
      UInt32.toNat_ofNat_of_lt' (hlt n (List.mem_range.mp hn))] at heq'
  have hperm : s.shared.counted.Perm ((List.range x.size.toNat).map UInt32.ofNat) := by
    refine List.perm_iff_count.mpr fun n => ?_
    by_cases hn : n < x.size
    · have hnone : ∑ i, (t i).count n = 0 := Finset.sum_eq_zero fun i _ =>
        List.count_eq_zero_of_not_mem fun hmem =>
          absurd hn (UInt32.not_lt.mpr (((howns i).finished (hfinished i)).1 n hmem))
      have hfetched : n.toNat < s.shared.counter :=
        (UInt32.lt_iff_toNat_lt.mp hn).trans_le hall.2
      have hcount := hledger n hn
      rw [hnone, if_pos hfetched, Nat.add_zero] at hcount
      rw [hcount, List.count_eq_one_of_mem hnodup]
      exact List.mem_map.mpr ⟨n.toNat, List.mem_range.mpr (UInt32.lt_iff_toNat_lt.mp hn),
        UInt32.ofNat_toNat⟩
    · rw [List.count_eq_zero_of_not_mem fun hmem => hn (h.sums.below n hmem),
        List.count_eq_zero_of_not_mem]
      intro hmem
      obtain ⟨m, hm, rfl⟩ := List.mem_map.mp hmem
      refine hn (UInt32.lt_iff_toNat_lt.mpr ?_)
      rw [UInt32.toNat_ofNat_of_lt' (hlt m (List.mem_range.mp hm))]
      exact List.mem_range.mp hm
  refine ⟨hperm, ?_⟩
  have hcomm : LeftCommutative fun a b : UInt64 => a ^^^ b := ⟨fun a b d => by
    rw [← UInt64.xor_assoc, UInt64.xor_comm a b, UInt64.xor_assoc]⟩
  rw [h.sums.data, checksum]
  have hfold := (hperm.map x.word).foldr_eq (f := fun a b : UInt64 => a ^^^ b) 0
  rw [List.map_map] at hfold
  exact hfold

/-- As long as no worker that drew a nonce beyond the size finds none left for a further lane, and
the counter does not wrap around, a report comes after every word was added, each once. -/
theorem reported_complete (hthreads : x.threads < 2 ^ 32) {events : List (Event x)}
    (hrun : Run step Kept (init x) events s) (hreported : s.shared.reported = true) :
    Complete x s.shared :=
  complete_of_inv (hrun.invariant (fun _ _ _ hkept h hstep => inv_step hthreads hkept h hstep)
    inv_init) hreported

end Run

section Pair

/-- Nonces are left. -/
def early {x : Setup} (s : State x) : Event x → Bool := fun _ => s.shared.counter + 1 < 2 ^ 32

theorem kept_of_early {x : Setup} (s : State x) (event : Event x) (h : early s event = true) :
    Kept s event := by
  have hlt : s.shared.counter + 1 < 2 ^ 32 := of_decide_eq_true h
  cases event with
  | worker i =>
    change Orderly x s.shared (s.workers i)
    unfold Orderly
    split
    · exact fun _ => by omega
    · exact fun _ => ⟨by omega, fun _ hlarge => by omega⟩
    · trivial
  | start | pause | touch | stop => trivial

/-- Two RandomX workers and two nonces. -/
def pair : Setup where
  threads := 2
  lanes := 1
  randomX := true
  size := 2
  word n := n.toUInt64 + 7
  one_lt_threads := by decide
  lanes_pos := Nat.one_pos
  lanes_randomX _ := rfl
  size_ne := by decide

/-- The two take turns. -/
def turns : List (Event pair) :=
  .pause false :: .start :: (List.replicate 14 [.worker (0 : Fin 2), .worker (1 : Fin 2)]).flatten

theorem reported_complete_pair : ∃ s, exec (guarded early step) (init pair) turns = some s ∧
    s.shared.reported = true ∧ Complete pair s.shared := by
  have hrun : (exec (guarded early step) (init pair) turns).map (·.shared.reported) = some true := by
    decide +kernel
  obtain ⟨s, hexec, hreported⟩ := Option.map_eq_some_iff.mp hrun
  exact ⟨s, hexec, hreported,
    reported_complete (by decide) (run_of_guarded kept_of_early hexec) hreported⟩

end Pair

section Alone

variable {x : Setup}

/-- Steps of one worker while the others stand still. -/
def Goes (x : Setup) : Shared × Worker → Shared × Worker → Prop :=
  ReflTransGen fun p q => p.2.step x p.1 = some q

theorem exec_of_goes {s : State x} {i : Fin x.threads} {g : Shared} {w : Worker}
    (h : Goes x (s.shared, s.workers i) (g, w)) :
    ∃ events, exec step s events = some ⟨g, Function.update s.workers i w⟩ := by
  suffices hall : ∀ p : Shared × Worker, Goes x (s.shared, s.workers i) p →
      ∃ events, exec step s events = some ⟨p.1, Function.update s.workers i p.2⟩ from hall _ h
  intro p hp
  induction hp with
  | refl => exact ⟨[], by rw [Function.update_eq_self]; rfl⟩
  | tail _ hstep ih =>
    obtain ⟨events, hexec⟩ := ih
    refine ⟨events ++ [.worker i], ?_⟩
    rw [exec_append, hexec, Option.bind_some, exec, step]
    simp only [Function.update_self, hstep, Option.map_some, Option.bind_some,
      Function.update_idem]
    rfl

/-- What is shared in a benchmark that has begun, with `c` nonces fetched. -/
def shared (paused : Bool) (remaining : UInt32) (c : Nat) (data : UInt64) (counted : List UInt32) :
    Shared where
  nonce := {
    paused
    sequence := fun _ => 1
    nonces := Function.update (fun _ => 0) 0 (UInt64.ofNat c) }
  data
  remaining
  started := true
  counted

/-- A worker in the middle of it. -/
def worker (pc : Pc) (nonces current : List UInt32) (hash : List UInt64) : Worker where
  pc
  saved := true
  sequence := 1
  nonces
  current
  hash

/-- The nonces of a round that is drawn without a break. -/
def batch (x : Setup) (c : Nat) : List UInt32 := (List.range x.lanes).map fun k => UInt32.ofNat (c + k)

/-- The first lanes have drawn new nonces. -/
def mixed (old : List UInt32) (new : List UInt32) (lane : Nat) : List UInt32 :=
  new.take lane ++ old.drop lane

variable {p : Bool} {r : UInt32} {c lane m : Nat} {d : UInt64} {l old cur : List UInt32}
  {h : List UInt64}

theorem toNat_counter (hc : c < 2 ^ 64) : (UInt64.ofNat c).toNat = c :=
  UInt64.toNat_ofNat_of_lt' hc

theorem step_enter :
    Nonce.Pc.enter.step args (shared p r c d l).nonce =
      some ((shared p r (c + 1) d l).nonce, Nonce.Pc.afterFetch args (UInt64.ofNat c)) := by
  have hnext : (shared p r c d l).nonce.fetchAdd 0 1 = (shared p r (c + 1) d l).nonce := by
    dsimp only [shared, Nonce.Shared.fetchAdd]
    rw [Function.update_self, Function.update_idem, UInt64.ofNat_add]
    rfl
  have hcounter : (shared p r c d l).nonce.nonces 0 = UInt64.ofNat c := by
    dsimp only [shared]
    rw [Function.update_self]
  rw [← hnext, ← hcounter]
  rfl

theorem step_inside (hc : c < 2 ^ 32 - 1) :
    Nonce.Pc.enter.step args (shared p r c d l).nonce =
      some ((shared p r (c + 1) d l).nonce, .done (some (UInt64.ofNat c))) := by
  rw [step_enter, afterFetch_args, toNat_counter (by omega), if_neg (by omega), if_neg (by omega)]

theorem set_mixed {old new : List UInt32} (hold : lane < old.length) (hnew : lane < new.length) :
    (mixed old new lane).set lane new[lane] = mixed old new (lane + 1) := by
  have hlen : (new.take lane).length = lane := List.length_take_of_le hnew.le
  unfold mixed
  rw [List.set_append_right _ _ hlen.le, hlen, Nat.sub_self, ← List.getElem_cons_drop hold,
    List.set_cons_zero, List.take_add_one, List.getElem?_eq_getElem hnew, Option.toList_some,
    List.append_assoc]
  rfl

theorem length_batch (x : Setup) (c : Nat) : (batch x c).length = x.lanes := by
  rw [batch, List.length_map, List.length_range]

/-- A lane is given the nonce that was fetched for it. -/
theorem store_mixed (pc : Pc) (hold : old.length = x.lanes) (hlane : lane < x.lanes)
    (hc : c + lane < 2 ^ 32) :
    (worker pc (mixed old (batch x c) lane) cur h).store lane (UInt64.ofNat (c + lane)) =
      worker pc (mixed old (batch x c) (lane + 1)) cur h := by
  have hnew : lane < (batch x c).length := by rwa [length_batch]
  have hword : (UInt64.ofNat (c + lane)).toUInt32 = (batch x c)[lane] := by
    apply UInt32.toNat_inj.mp
    rw [UInt64.toNat_toUInt32, toNat_counter (by omega), Nat.mod_eq_of_lt hc]
    simp only [batch, List.getElem_map, List.getElem_range]
    rw [UInt32.toNat_ofNat_of_lt' hc]
  unfold Worker.store
  dsimp only
  rw [write_lo _ _ (by rw [toNat_counter (by omega)]; exact hc), hword]
  change worker pc ((mixed old (batch x c) lane).set lane (batch x c)[lane]) cur h = _
  rw [set_mixed (hold ▸ hlane) hnew]

theorem mixed_lanes (hold : old.length = x.lanes) (c : Nat) :
    mixed old (batch x c) x.lanes = batch x c := by
  rw [mixed, ← length_batch x c, List.take_length, List.drop_of_length_le (by rw [length_batch, hold]),
    List.append_nil]

theorem step_nextRound {g : Shared} {w : Worker} {call : Nonce.Pc} {nonce : Nonce.Shared}
    {result : Option UInt64} (hpc : w.pc = .nextRound lane call)
    (hcall : call.step args g.nonce = some (nonce, .done result)) :
    w.step x g = some ({ g with nonce }, w.roundLane x lane result) := by
  unfold Worker.step
  rw [hpc]
  dsimp only
  rw [hcall]
  rfl

theorem step_save {g : Shared} {w : Worker} {call : Nonce.Pc} {nonce : Nonce.Shared}
    {result : Option UInt64} {resume : Resume} (hpc : w.pc = .save lane call resume)
    (hcall : call.step args g.nonce = some (nonce, .done result)) :
    w.step x g = some ({ g with nonce }, w.saveLane x lane resume result) := by
  unfold Worker.step
  rw [hpc]
  dsimp only
  rw [hcall]
  rfl

/-- What a worker finds and has while it draws: `old` is what its lanes had before. -/
theorem goes_draw (hold : old.length = x.lanes) (hc : c + lane < 2 ^ 32 - 1)
    (hlane : lane + 1 < x.lanes) :
    Goes x
      (shared p r (c + lane) d l,
        worker (.nextRound lane .enter) (mixed old (batch x c) lane) cur h)
      (shared p r (c + lane + 1) d l,
        worker (.nextRound (lane + 1) .enter) (mixed old (batch x c) (lane + 1)) cur h) := by
  refine .single ((step_nextRound rfl (step_inside hc)).trans (congrArg some (Prod.ext rfl ?_)))
  unfold Worker.roundLane
  dsimp only
  rw [store_mixed _ hold (by omega) (by omega), if_pos hlane]
  rfl

theorem goes_draws (hold : old.length = x.lanes) (hc : c + m < 2 ^ 32) (hm : m < x.lanes) :
    Goes x (shared p r c d l, worker (.nextRound 0 .enter) old cur h)
      (shared p r (c + m) d l, worker (.nextRound m .enter) (mixed old (batch x c) m) cur h) := by
  induction m with
  | zero => exact .refl
  | succ m ih => exact (ih (by omega) (by omega)).trans (goes_draw hold (by omega) hm)

/-- The last lane of a round. -/
theorem goes_lastDraw (hx : x.randomX = false) (hold : old.length = x.lanes)
    (hc : c + x.lanes < 2 ^ 32) :
    Goes x (shared p r c d l, worker (.nextRound 0 .enter) old cur h)
      (shared p r (c + x.lanes) d l, worker (.addResult 0) (batch x c) cur h) := by
  have hpos := x.lanes_pos
  obtain ⟨m, hm⟩ := Nat.exists_eq_add_one.mpr hpos
  refine (goes_draws (m := m) hold (by omega) (by omega)).tail ?_
  rw [hm]
  refine (step_nextRound rfl (step_inside (by omega))).trans (congrArg some (Prod.ext rfl ?_))
  unfold Worker.roundLane Worker.hashNext
  dsimp only
  rw [store_mixed _ hold (by omega) (by omega), if_neg (by omega), hx, ← hm, mixed_lanes hold]
  rfl

/-- What is added for nonces other than zero leaves zero uncounted. -/
theorem goes_add {ns : List UInt32} (hlane : lane < cur.length) (hne : 0 ∉ cur) (hl : 0 ∉ l) :
    ∃ d' l', 0 ∉ l' ∧ Goes x (shared p r c d l, worker (.addResult lane) ns cur h)
      (shared p r c d' l',
        worker (if lane + 1 < x.lanes then .addResult (lane + 1) else .iterate) ns cur h) := by
  have hnonce : cur.getD lane 0 ≠ 0 := by
    rw [List.getD_eq_getElem?_getD, List.getElem?_eq_getElem hlane, Option.getD_some]
    exact fun heq => hne (heq ▸ List.getElem_mem hlane)
  obtain ⟨d', l', hl', hshared⟩ : ∃ d' l', 0 ∉ l' ∧
      ((worker (.addResult lane) ns cur h).addResult x (shared p r c d l) lane).1 =
        shared p r c d' l' := by
    unfold Worker.addResult
    dsimp only [worker]
    split
    · exact ⟨_, cur.getD lane 0 :: l, by simpa using ⟨hnonce.symm, hl⟩, rfl⟩
    · exact ⟨d, l, hl, rfl⟩
  exact ⟨d', l', hl', .single (congrArg some (Prod.ext hshared rfl))⟩

theorem goes_adds {ns : List UInt32} (hlen : cur.length = x.lanes) (hne : 0 ∉ cur)
    (hrest : lane + m + 1 = x.lanes) (hl : 0 ∉ l) :
    ∃ d' l', 0 ∉ l' ∧ Goes x (shared p r c d l, worker (.addResult lane) ns cur h)
      (shared p r c d' l', worker .iterate ns cur h) := by
  induction m generalizing lane d l with
  | zero =>
    obtain ⟨d', l', hl', hgoes⟩ := goes_add (x := x) (p := p) (r := r) (c := c) (d := d) (h := h)
      (by omega : lane < cur.length) hne hl
    rw [if_neg (by omega)] at hgoes
    exact ⟨d', l', hl', hgoes⟩
  | succ m ih =>
    obtain ⟨d₁, l₁, hl₁, hgoes₁⟩ := goes_add (x := x) (p := p) (r := r) (c := c) (d := d) (h := h)
      (by omega : lane < cur.length) hne hl
    rw [if_pos (by omega)] at hgoes₁
    obtain ⟨d', l', hl', hgoes⟩ := ih (d := d₁)
      (show lane + 1 + m + 1 = x.lanes by omega) hl₁
    exact ⟨d', l', hl', hgoes₁.trans hgoes⟩

theorem iterate_worker (x : Setup) {ns : List UInt32} :
    (worker .iterate ns cur h).iterate x (shared p r c d l) =
      if x.size ≤ ns.headD 0 then worker .done ns cur h
      else (worker .iterate ns cur h).hashAll x := by
  have hcurrent : ((shared p r c d l).nonce.isOutdated .cpu (worker .iterate ns cur h).sequence ||
      !(worker .iterate ns cur h).saved) = false := rfl
  unfold Worker.iterate
  rw [hcurrent]
  rfl

theorem goes_begin {ns : List UInt32} (hx : x.randomX = false) (hsize : ns.headD 0 < x.size) :
    Goes x (shared p r c d l, worker .iterate ns cur h)
      (shared p r c d l, worker (.nextRound 0 .enter) ns ns (ns.map x.word)) := by
  have hbegun : (worker .iterate ns cur h).iterate x (shared p r c d l) =
      worker (.nextRound 0 .enter) ns ns (ns.map x.word) := by
    rw [iterate_worker, if_neg (UInt32.not_le.mpr hsize), Worker.hashAll, hx]
    rfl
  exact .single (congrArg some (Prod.ext rfl hbegun))

theorem goes_finish {ns : List UInt32} (hsize : x.size ≤ ns.headD 0) :
    Goes x (shared p r c d l, worker .iterate ns cur h)
      ((shared p r c d l).done, worker .finished ns cur h) := by
  have hdone : (worker .iterate ns cur h).iterate x (shared p r c d l) = worker .done ns cur h :=
    (iterate_worker x).trans (if_pos hsize)
  have hstep : (worker .iterate ns cur h).step x (shared p r c d l) =
      some (shared p r c d l, worker .done ns cur h) := congrArg some (Prod.ext rfl hdone)
  exact .head hstep (.single rfl)

theorem shared_done (hr : (r - 1 == 0) = false) :
    (shared p r c d l).done = shared p (r - 1) c d l := by
  unfold Shared.done shared
  dsimp only
  rw [hr]
  rfl

/-- Through the outer loop, which finds nothing paused. -/
theorem goes_around {ns : List UInt32} :
    Goes x (shared false r c d l, worker .running ns cur h)
      (shared false r c d l, worker .iterate ns cur h) :=
  .head (show _ = some (shared false r c d l, worker .pausedTest ns cur h) from rfl) (.single rfl)

theorem goes_back {ns : List UInt32} :
    Goes x (shared false r c d l, worker .leave ns cur h)
      (shared false r c d l, worker .iterate ns cur h) :=
  .head (show _ = some (shared false r c d l, worker (.consume .outer) ns cur h) from rfl) <|
    .head (show _ = some (shared false r c d l, worker (.add .outer) ns cur h) from rfl) <|
      .head (show _ = some (shared false r c d l, worker .running ns cur h) from rfl) goes_around

theorem zero_notMem_batch (hc : c ≠ 0) (hlanes : c + x.lanes ≤ 2 ^ 32) : 0 ∉ batch x c := by
  intro hmem
  obtain ⟨k, hk, hzero⟩ := List.mem_map.mp hmem
  have hword : (UInt32.ofNat (c + k)).toNat = c + k :=
    UInt32.toNat_ofNat_of_lt' ((Nat.add_lt_add_left (List.mem_range.mp hk) c).trans_le hlanes)
  rw [hzero] at hword
  have hnone : (0 : UInt32).toNat = 0 := rfl
  omega

theorem head_batch (hc : c < 2 ^ 32) : ((batch x c).headD 0).toNat = c := by
  have hne : List.range x.lanes = 0 :: (List.range x.lanes).tail := by
    obtain ⟨m, hm⟩ := Nat.exists_eq_add_one.mpr x.lanes_pos
    rw [hm, List.range_succ_eq_map]
    rfl
  rw [batch, hne, List.map_cons, List.headD_cons]
  exact UInt32.toNat_ofNat_of_lt' hc

/-- A whole round of a worker with no zero among its nonces. -/
theorem goes_round (hx : x.randomX = false) (hold : old.length = x.lanes) (hne : 0 ∉ old)
    (hsize : old.headD 0 < x.size) (hc : c + x.lanes < 2 ^ 32) (hl : 0 ∉ l) :
    ∃ d' l' h', 0 ∉ l' ∧ Goes x (shared p r c d l, worker .iterate old cur h)
      (shared p r (c + x.lanes) d' l', worker .iterate (batch x c) old h') := by
  have hbegin : Goes x (shared p r c d l, worker .iterate old cur h)
      (shared p r c d l, worker (.nextRound 0 .enter) old old (old.map x.word)) :=
    goes_begin hx hsize
  have hdraw := hbegin.trans (goes_lastDraw hx hold hc)
  obtain ⟨m, hm⟩ := Nat.exists_eq_add_one.mpr x.lanes_pos
  obtain ⟨d', l', hl', hadds⟩ := goes_adds (x := x) hold hne
    (show 0 + m + 1 = x.lanes by omega) hl
  exact ⟨d', l', _, hl', hdraw.trans hadds⟩

/-- Round after round by the worker that drew the last nonces. -/
theorem goes_rounds {k : Nat} (hx : x.randomX = false) (hc : c ≠ 0)
    (hsize : c + k * x.lanes < x.size.toNat + x.lanes)
    (hroom : c + k * x.lanes + x.lanes < 2 ^ 32) (hl : 0 ∉ l) :
    ∃ d' l' cur' h', 0 ∉ l' ∧
      Goes x (shared p r (c + x.lanes) d l, worker .iterate (batch x c) cur h)
        (shared p r (c + k * x.lanes + x.lanes) d' l',
          worker .iterate (batch x (c + k * x.lanes)) cur' h') := by
  induction k with
  | zero =>
    rw [Nat.zero_mul, Nat.add_zero]
    exact ⟨d, l, cur, h, hl, .refl⟩
  | succ k ih =>
    rw [Nat.succ_mul] at hsize hroom
    obtain ⟨d₁, l₁, cur₁, h₁, hl₁, hbefore⟩ := ih (by omega) (by omega)
    have hhead : (batch x (c + k * x.lanes)).headD 0 < x.size := by
      rw [UInt32.lt_iff_toNat_lt, head_batch (by omega)]
      omega
    obtain ⟨d', l', h', hl', hround⟩ : ∃ d' l' h', 0 ∉ l' ∧
        Goes x (shared p r (c + k * x.lanes + x.lanes) d₁ l₁,
            worker .iterate (batch x (c + k * x.lanes)) cur₁ h₁)
          (shared p r (c + k * x.lanes + x.lanes + x.lanes) d' l',
            worker .iterate (batch x (c + k * x.lanes + x.lanes)) (batch x (c + k * x.lanes)) h') :=
      goes_round hx (length_batch x _) (zero_notMem_batch (by omega) (by omega)) hhead (by omega) hl₁
    rw [Nat.succ_mul, ← Nat.add_assoc]
    exact ⟨d', l', _, h', hl', hbefore.trans hround⟩

theorem goes_saves (hold : old.length = x.lanes) (hc : c + m < 2 ^ 32) (hm : m < x.lanes) :
    Goes x (shared p r c d l, worker (.save 0 .enter .outer) old cur h)
      (shared p r (c + m) d l,
        worker (.save m .enter .outer) (mixed old (batch x c) m) cur h) := by
  induction m with
  | zero => exact .refl
  | succ m ih =>
    have hsaved : (worker (.save m .enter .outer) (mixed old (batch x c) m) cur h).saveLane x m
        .outer (some (UInt64.ofNat (c + m))) =
          worker (.save (m + 1) .enter .outer) (mixed old (batch x c) (m + 1)) cur h := by
      unfold Worker.saveLane
      dsimp only
      rw [store_mixed _ hold (by omega) (by omega), if_pos hm]
      rfl
    exact (ih (by omega) (by omega)).tail
      ((step_save rfl (step_inside (by omega))).trans (congrArg some (Prod.ext rfl hsaved)))

/-- A worker starts: the default job ends the inner loop, and the first nonces are saved. -/
theorem goes_start (hc : c + x.lanes < 2 ^ 32) :
    Goes x (shared false r c d l, { nonces := List.replicate x.lanes 0 })
      (shared false r (c + x.lanes) d l, worker .iterate (batch x c) [] []) := by
  obtain ⟨m, hm⟩ := Nat.exists_eq_add_one.mpr x.lanes_pos
  have hold : (List.replicate x.lanes (0 : UInt32)).length = x.lanes := List.length_replicate
  have hentered : Goes x (shared false r c d l, { nonces := List.replicate x.lanes 0 })
      (shared false r c d l, worker (.save 0 .enter .outer) (List.replicate x.lanes 0) [] []) := by
    let blank (pc : Pc) : Worker := { pc, nonces := List.replicate x.lanes 0 }
    refine .head (b := (shared false r c d l, blank .pausedTest)) rfl ?_
    refine .head (b := (shared false r c d l, blank .iterate)) rfl ?_
    refine .head (b := (shared false r c d l, blank .leave)) rfl ?_
    refine .head (b := (shared false r c d l, blank (.consume .outer))) rfl ?_
    exact .head (b := (shared false r c d l, blank (.add .outer))) rfl (.single rfl)
  have hsaved : (worker (.save m .enter .outer) (mixed (List.replicate x.lanes 0) (batch x c) m)
      [] []).saveLane x m .outer (some (UInt64.ofNat (c + m))) =
        worker .running (batch x c) [] [] := by
    unfold Worker.saveLane
    dsimp only
    rw [store_mixed _ hold (by omega) (by omega), if_neg (by omega), ← hm, mixed_lanes hold]
    rfl
  have hlast : (worker (.save m .enter .outer) (mixed (List.replicate x.lanes 0) (batch x c) m)
      [] []).step x (shared false r (c + m) d l) =
        some (shared false r (c + x.lanes) d l, worker .running (batch x c) [] []) := by
    refine (step_save rfl (step_inside (by omega))).trans (congrArg some (Prod.ext ?_ hsaved))
    rw [hm]
    rfl
  have hdrawn : Goes x (shared false r c d l,
        worker (.save 0 .enter .outer) (List.replicate x.lanes 0) [] [])
      (shared false r (c + m) d l, worker (.save m .enter .outer)
        (mixed (List.replicate x.lanes 0) (batch x c) m) [] []) :=
    goes_saves hold (by omega) (by omega)
  exact ((hentered.trans hdrawn).tail hlast).trans goes_around

/-- No nonce is left for a lane, and what was drawn and hashed before is dropped. -/
theorem goes_none {ns : List UInt32} (hc : 2 ^ 32 ≤ c) (hwrap : c < 2 ^ 64) :
    Goes x (shared false r c d l, worker (.nextRound lane .enter) ns cur h)
      (shared false r (c + 1) d l, worker .iterate ns cur h) := by
  have hcall : Nonce.Pc.enter.step args (shared false r c d l).nonce =
      some ((shared false r (c + 1) d l).nonce, .done none) := by
    rw [step_enter, afterFetch_args, toNat_counter hwrap, if_pos hc]
  exact .head (step_nextRound rfl hcall) goes_back

/-- The last nonce of all is fetched, and the worker is about to pause the others. -/
theorem step_last {ns : List UInt32} (hc : c = 2 ^ 32 - 1) :
    (worker (.nextRound lane .enter) ns cur h).step x (shared p r c d l) =
      some (shared p r (c + 1) d l,
        worker (.nextRound lane (.pause (UInt64.ofNat c) false)) ns cur h) := by
  unfold Worker.step
  dsimp only [worker]
  rw [step_enter, afterFetch_args, toNat_counter (by omega), if_neg (by omega), if_pos hc]
  rfl

theorem step_pause {a : Nat} (hx : x.randomX = false) (hold : old.length = x.lanes)
    (hlane : lane + 1 = x.lanes) (ha : a + lane < 2 ^ 32) :
    (worker (.nextRound lane (.pause (UInt64.ofNat (a + lane)) false))
        (mixed old (batch x a) lane) cur h).step x (shared p r c d l) =
      some (shared true r c d l, worker (.addResult 0) (batch x a) cur h) := by
  have hround : (worker (.nextRound lane (.pause (UInt64.ofNat (a + lane)) false))
      (mixed old (batch x a) lane) cur h).roundLane x lane (some (UInt64.ofNat (a + lane))) =
        worker (.addResult 0) (batch x a) cur h := by
    unfold Worker.roundLane Worker.hashNext
    dsimp only
    rw [store_mixed _ hold (by omega) ha, if_neg (by omega), hx, hlane, mixed_lanes hold]
    rfl
  exact (step_nextRound rfl rfl).trans (congrArg some (Prod.ext rfl hround))

theorem head_mixed {m : Nat} (hc : c < 2 ^ 32) :
    ((mixed old (batch x c) (m + 1)).headD 0).toNat = c := by
  have hhead : (mixed old (batch x c) (m + 1)).headD 0 = (batch x c).headD 0 := by
    obtain ⟨n, rest, hbatch⟩ := List.exists_cons_of_length_pos
      ((length_batch x c).symm ▸ x.lanes_pos)
    rw [hbatch]
    rfl
  rw [hhead, head_batch hc]

end Alone

section Loss

/-- Three GhostRider workers of eight lanes. -/
def ghost : Setup where
  threads := 3
  lanes := 8
  randomX := false
  size := 0xFFFFFFF0
  word n := if n = 0 then 1 else 0
  one_lt_threads := by decide
  lanes_pos := by decide
  lanes_randomX := nofun
  size_ne := by decide

def crew (w₀ w₁ w₂ : Worker) : Fin ghost.threads → Worker := (![w₀, w₁, w₂] : Fin 3 → Worker)

variable {g g' : Shared} {w₀ w₁ w₂ w : Worker}

theorem update_first : Function.update (crew w₀ w₁ w₂) (0 : Fin 3) w = crew w w₁ w₂ :=
  funext fun (i : Fin 3) => match i with
    | 0 => rfl
    | 1 => rfl
    | 2 => rfl

theorem update_second : Function.update (crew w₀ w₁ w₂) (1 : Fin 3) w = crew w₀ w w₂ :=
  funext fun (i : Fin 3) => match i with
    | 0 => rfl
    | 1 => rfl
    | 2 => rfl

theorem update_third : Function.update (crew w₀ w₁ w₂) (2 : Fin 3) w = crew w₀ w₁ w :=
  funext fun (i : Fin 3) => match i with
    | 0 => rfl
    | 1 => rfl
    | 2 => rfl

def Reached (g : Shared) (workers : Fin ghost.threads → Worker) : Prop :=
  ∃ events, exec step (init ghost) events = some ⟨g, workers⟩

theorem Reached.move {workers : Fin ghost.threads → Worker} (h : Reached g workers)
    (i : Fin ghost.threads) (hgoes : Goes ghost (g, workers i) (g', w)) :
    Reached g' (Function.update workers i w) := by
  obtain ⟨before, hbefore⟩ := h
  obtain ⟨after, hafter⟩ := exec_of_goes (s := ⟨g, workers⟩) hgoes
  exact ⟨before ++ after, by rw [exec_append, hbefore, Option.bind_some, hafter]⟩

theorem Reached.first (h : Reached g (crew w₀ w₁ w₂)) (hgoes : Goes ghost (g, w₀) (g', w)) :
    Reached g' (crew w w₁ w₂) :=
  update_first ▸ h.move (0 : Fin 3) hgoes

theorem Reached.second (h : Reached g (crew w₀ w₁ w₂)) (hgoes : Goes ghost (g, w₁) (g', w)) :
    Reached g' (crew w₀ w w₂) :=
  update_second ▸ h.move (1 : Fin 3) hgoes

theorem Reached.third (h : Reached g (crew w₀ w₁ w₂)) (hgoes : Goes ghost (g, w₂) (g', w)) :
    Reached g' (crew w₀ w₁ w) :=
  update_third ▸ h.move (2 : Fin 3) hgoes

def blank : Worker := { nonces := List.replicate 8 0 }

theorem reached_begin : Reached (shared false 3 0 0 []) (crew blank blank blank) := by
  have hcounters : Function.update (fun _ => 0 : Fin 2 → UInt64) 0 (UInt64.ofNat 0) =
      fun _ => 0 := Function.update_eq_self 0 _
  have hworkers : crew blank blank blank = (init ghost).workers :=
    funext fun (i : Fin 3) => match i with
      | 0 => rfl
      | 1 => rfl
      | 2 => rfl
  refine ⟨[.pause false, .start], ?_⟩
  unfold shared
  rw [hcounters, hworkers]
  rfl

/-- All three have saved their first nonces, and the third has drawn and added all others but the
last sixteen. -/
theorem reached_rounds : ∃ d l cur h, 0 ∉ l ∧ Reached (shared false 3 (2 ^ 32 - 16) d l)
    (crew (worker .iterate (batch ghost 0) [] []) (worker .iterate (batch ghost 8) [] [])
      (worker .iterate (batch ghost (2 ^ 32 - 24)) cur h)) := by
  have h₁ : Reached (shared false 3 8 0 [])
      (crew (worker .iterate (batch ghost 0) [] []) blank blank) :=
    reached_begin.first (goes_start (x := ghost) (c := 0) (by decide))
  have h₂ : Reached (shared false 3 16 0 [])
      (crew (worker .iterate (batch ghost 0) [] []) (worker .iterate (batch ghost 8) [] [])
        blank) :=
    h₁.second (goes_start (x := ghost) (c := 8) (by decide))
  have h₃ : Reached (shared false 3 24 0 [])
      (crew (worker .iterate (batch ghost 0) [] []) (worker .iterate (batch ghost 8) [] [])
        (worker .iterate (batch ghost 16) [] [])) :=
    h₂.third (goes_start (x := ghost) (c := 16) (by decide))
  obtain ⟨d, l, cur, h, hl, hrounds⟩ : ∃ d l cur h, 0 ∉ l ∧
      Goes ghost (shared false 3 (16 + ghost.lanes) 0 [], worker .iterate (batch ghost 16) [] [])
        (shared false 3 (16 + 536870907 * ghost.lanes + ghost.lanes) d l,
          worker .iterate (batch ghost (16 + 536870907 * ghost.lanes)) cur h) :=
    goes_rounds rfl (by decide) (by decide) (by decide) List.not_mem_nil
  exact ⟨d, l, cur, h, hl, h₃.third hrounds⟩

/-- The first worker finds no nonce left for its fifth lane while the third has the last nonce and
has not paused the others yet. It drops the hashes of its first nonces and is done. -/
theorem reached_loss : ∃ c d l workers, 0 ∉ l ∧ Reached (shared true 1 c d l).done workers := by
  have hx : ghost.randomX = false := rfl
  have hlanes : ghost.lanes = 8 := rfl
  have hlength (c : Nat) : (batch ghost c).length = ghost.lanes := length_batch ghost c
  have hbegins (c : Nat) (hc : c < 2 ^ 32 - 16) : (batch ghost c).headD 0 < ghost.size := by
    rw [UInt32.lt_iff_toNat_lt, head_batch (by omega)]
    exact hc
  have hends (c : Nat) (hc : 2 ^ 32 - 16 ≤ c) (hlt : c < 2 ^ 32) (old : List UInt32) :
      ghost.size ≤ (mixed old (batch ghost c) 4).headD 0 := by
    rw [UInt32.le_iff_toNat_le, head_mixed hlt]
    exact hc
  obtain ⟨d, l, cur, h, hl, h₄⟩ := reached_rounds
  obtain ⟨a, ha⟩ : ∃ a, a = 2 ^ 32 - 24 := ⟨_, rfl⟩
  obtain ⟨c, hc⟩ : ∃ c, c = 2 ^ 32 - 16 := ⟨_, rfl⟩
  rw [← ha, ← hc] at h₄
  -- the first two stop in the middle of a round, and the third before its pause
  have h₅ := (h₄.first (goes_begin hx (hbegins 0 (by decide)))).first
    (goes_draws (m := 4) (hlength 0) (by omega) (by omega))
  have h₆ := (h₅.second (goes_begin hx (hbegins 8 (by decide)))).second
    (goes_draws (m := 4) (hlength 8) (by omega) (by omega))
  have h₇ := (h₆.third (goes_begin hx (hbegins a (by omega)))).third
    (goes_draws (m := 7) (hlength a) (by omega) (by omega))
  have h₈ := h₇.third (.single (step_last (by omega)))
  -- the first two find no more nonces and are done
  have h₉ := (h₈.first (goes_none (by omega) (by omega))).first
    (goes_finish (hends c (by omega) (by omega) _))
  rw [shared_done rfl] at h₉
  have h₁₀ := (h₉.second (goes_none (by omega) (by omega))).second
    (goes_finish (hends (c + 4) (by omega) (by omega) _))
  rw [shared_done rfl] at h₁₀
  -- the third pauses the others, adds what it has and is the last one to be done
  have h₁₁ := h₁₀.third (.single (step_pause hx (hlength a) hlanes.symm (by omega)))
  obtain ⟨d', l', hl', hadds⟩ : ∃ d' l', 0 ∉ l' ∧
      Goes ghost (shared true 1 (c + 4 + 4 + 7 + 1 + 1 + 1) d l,
          worker (.addResult 0) (batch ghost (c + 4 + 4)) (batch ghost a)
            ((batch ghost a).map ghost.word))
        (shared true 1 (c + 4 + 4 + 7 + 1 + 1 + 1) d' l', worker .iterate
          (batch ghost (c + 4 + 4)) (batch ghost a) ((batch ghost a).map ghost.word)) :=
    goes_adds (m := 7) (hlength a) (zero_notMem_batch (by omega) (by omega)) rfl hl
  have hlast : ghost.size ≤ (batch ghost (c + 4 + 4)).headD 0 := by
    rw [UInt32.le_iff_toNat_le, head_batch (by omega)]
    change 2 ^ 32 - 16 ≤ c + 4 + 4
    omega
  exact ⟨_, d', l', _, hl', (h₁₁.third hadds).third (goes_finish hlast)⟩

/-- Completion is reported, and nonce 0 was never counted. -/
theorem lost_words : ∃ (events : List (Event ghost)) (s : State ghost),
    exec step (init ghost) events = some s ∧ s.shared.reported = true ∧
      ¬Complete ghost s.shared := by
  obtain ⟨c, d, l, workers, hl, events, hexec⟩ := reached_loss
  have hreported : (shared true 1 c d l).done.reported = true := by
    change (false || (1 : UInt32) - 1 == 0) = true
    rfl
  have hzero : (0 : UInt32) ∈ (List.range ghost.size.toNat).map UInt32.ofNat :=
    List.mem_map.mpr ⟨0, List.mem_range.mpr (by decide), rfl⟩
  exact ⟨events, _, hexec, hreported, fun h => hl (h.counted.mem_iff.mpr hzero)⟩

end Loss

end VeloxHash.Benchmark
