import VeloxHash.RxQueue

/-! What the queue publishes. The invariant ties `m_seed` and `m_state` to the queue and to
the item in flight; from it follow the seed behind every answer and the return to idle. -/

namespace VeloxHash.RxQueue

open TransitionSystem

variable {Storage Dataset Outcome : Type*}

/-- The seed of the newest request that is still queued or in flight. -/
def Queue.requested (q : Queue Storage) : Option RxSeed :=
  match q.queue.getLast? with
  | some item => some item.seed
  | none => q.inFlight.map RxQueueItem.seed

/-- While the state is pending `m_seed` is what the queue will serve last; while it is idle
nothing is queued or in flight and `m_seed` is what was served last. -/
structure Inv (q : Queue Storage) : Prop where
  pending : q.state = .pending → q.requested = some q.seed
  idle : q.state = .idle → q.queue = [] ∧ q.inFlight = none
  newest : q.state ≠ .shutdown → q.storage.isSome → q.enqueued.head? = some q.seed
  served : q.state = .idle → q.storage.isSome → q.completed.head? = some q.seed
  fresh : q.storage = none → q.enqueued = [] ∧ q.completed = [] ∧ q.queue = [] ∧
    q.inFlight = none ∧ q.state ≠ .pending
  publishing : ∀ item, q.background = .publish item → q.completed.head? = some item.seed
  awake : q.background = .wait → q.state = .idle ∨ 0 < q.unnotified
  running : q.background = .exit → q.state = .shutdown

section Invariant

variable {ops : IRxStorage Storage Dataset Outcome} {q t : Queue Storage}

theorem inv_start : Inv ({} : Queue Storage) where
  pending := nofun
  idle _ := ⟨rfl, rfl⟩
  newest _ := nofun
  served _ := nofun
  fresh _ := ⟨rfl, rfl, rfl, rfl, nofun⟩
  publishing := fun _ => nofun
  awake := nofun
  running := nofun

theorem inv_enqueue (hq : Inv q) (hstate : q.state ≠ .shutdown) (item : RxQueueItem) :
    Inv (q.enqueue ops item) := by
  unfold Queue.enqueue
  split_ifs with hsame
  · obtain ⟨hpending, hseed⟩ := hsame
    exact {
      pending := hq.pending
      idle := fun h => hq.idle h
      newest := fun _ _ => by rw [List.head?_cons, hseed]
      served := fun h => by simp [hpending] at h
      fresh := nofun
      publishing := hq.publishing
      awake := hq.awake
      running := hq.running }
  · exact {
      pending := fun _ => by simp [Queue.requested]
      idle := nofun
      newest := fun _ _ => rfl
      served := nofun
      fresh := nofun
      publishing := hq.publishing
      awake := fun _ => .inr (Nat.succ_pos _)
      running := fun h => absurd (hq.running h) hstate }

theorem inv_shutdown (hq : Inv q) : Inv q.shutdown where
  pending := nofun
  idle := nofun
  newest h := absurd rfl h
  served := nofun
  fresh h := by
    obtain ⟨henq, hcomp, hqueue, hflight, -⟩ := hq.fresh h
    exact ⟨henq, hcomp, hqueue, hflight, nofun⟩
  publishing := hq.publishing
  awake _ := .inr (Nat.succ_pos _)
  running _ := rfl

/-- The invariant survives a move of the background thread that leaves its item alone. -/
theorem inv_background (hq : Inv q) (background : Background) (unnotified : Nat)
    (hflight : ({ q with background } : Queue Storage).inFlight = q.inFlight)
    (hpublish : ∀ item, background ≠ .publish item)
    (hwait : background = .wait → q.state = .idle)
    (hexit : background = .exit → q.state = .shutdown) :
    Inv { q with background, unnotified } where
  pending h := by
    have := hq.pending h
    simp only [Queue.requested] at this ⊢
    rw [show ({ q with background, unnotified } : Queue Storage).inFlight = q.inFlight from
      hflight]
    exact this
  idle h := ⟨(hq.idle h).1, hflight.trans (hq.idle h).2⟩
  newest := hq.newest
  served := hq.served
  fresh h := by
    obtain ⟨henq, hcomp, hqueue, hnone, hstate⟩ := hq.fresh h
    exact ⟨henq, hcomp, hqueue, hflight.trans hnone, hstate⟩
  publishing item h := absurd h (hpublish item)
  awake h := .inl (hwait h)
  running := hexit

theorem inv_notify (hq : Inv q) : Inv q.notify := by
  unfold Queue.notify
  split_ifs with hwait
  · exact inv_background hq .woken _ (by simp [Queue.inFlight, hwait]) (fun _ => nofun) nofun
      nofun
  · exact {
      pending := hq.pending
      idle := hq.idle
      newest := hq.newest
      served := hq.served
      fresh := hq.fresh
      publishing := hq.publishing
      awake := fun h => absurd h hwait
      running := hq.running }

theorem inv_take (hq : Inv q) (hflight : q.inFlight = none) (hidle : q.state ≠ .idle)
    (h : q.take = some t) : Inv t := by
  unfold Queue.take at h
  split_ifs at h with hpending
  · obtain ⟨item, hitem, rfl⟩ := Option.map_eq_some_iff.mp h
    have hseed := hq.pending hpending
    rw [Queue.requested, hitem] at hseed
    exact {
      pending := fun _ => by simpa [Queue.requested, Queue.inFlight] using hseed
      idle := fun h => absurd h hidle
      newest := hq.newest
      served := fun h => absurd h hidle
      fresh := fun h => absurd hpending (hq.fresh h).2.2.2.2
      publishing := fun _ => nofun
      awake := nofun
      running := nofun }
  · obtain rfl := Option.some.inj h
    exact inv_background hq .test _ (by rw [hflight]; rfl) (fun _ => nofun) nofun nofun

theorem inv_complete (hq : Inv q) {item : RxQueueItem} (hinit : q.background = .init item)
    (storage : Storage) : Inv (q.complete item storage) := by
  have hflight : q.inFlight = some item := by simp [Queue.inFlight, hinit]
  have hbusy : q.state ≠ .idle := fun h => by simp [(hq.idle h).2] at hflight
  have hstorage : q.storage.isSome := by
    rw [Option.isSome_iff_ne_none]
    intro hnone
    simp [(hq.fresh hnone).2.2.2.1] at hflight
  exact {
    pending := fun h => by
      have := hq.pending h
      rw [Queue.requested, hflight] at this
      exact this
    idle := fun h => absurd h hbusy
    newest := fun h _ => hq.newest h hstorage
    served := fun h => absurd h hbusy
    fresh := nofun
    publishing := fun _ h => by
      obtain rfl : item = _ := Background.publish.inj h
      rfl
    awake := nofun
    running := nofun }

theorem inv_publish (hq : Inv q) {item : RxQueueItem} (hitem : q.background = .publish item) :
    Inv (q.publish item) := by
  have hflight : q.inFlight = some item := by simp [Queue.inFlight, hitem]
  have hbusy : q.state ≠ .idle := fun h => by simp [(hq.idle h).2] at hflight
  have hstorage : q.storage ≠ none := fun hnone => by
    simp [(hq.fresh hnone).2.2.2.1] at hflight
  unfold Queue.publish
  split_ifs with hdrop
  · exact {
      pending := fun h => by
        have hqueue := hdrop.resolve_left fun hs => nomatch hs.symm.trans h
        have hseed := hq.pending h
        rw [Queue.requested, List.getLast?_eq_some_getLast hqueue] at hseed ⊢
        exact hseed
      idle := fun h => absurd h hbusy
      newest := hq.newest
      served := fun h => absurd h hbusy
      fresh := fun h => absurd h hstorage
      publishing := fun _ => nofun
      awake := nofun
      running := nofun }
  · obtain ⟨hrunning, hqueue⟩ := not_or.mp hdrop
    have hpending : q.state = .pending := by
      cases hs : q.state with
      | idle => exact absurd hs hbusy
      | pending => rfl
      | shutdown => exact absurd hs hrunning
    have hseed := hq.pending hpending
    rw [Queue.requested, not_not.mp hqueue, hflight] at hseed
    have hsame : item.seed = q.seed := by simpa using hseed
    exact {
      pending := nofun
      idle := fun _ => ⟨not_not.mp hqueue, rfl⟩
      newest := fun _ h => by rw [hsame]; exact hq.newest hrunning h
      served := fun _ _ => hq.publishing item hitem
      fresh := fun h => absurd h hstorage
      publishing := fun _ => nofun
      awake := nofun
      running := nofun }

theorem inv_backgroundInit (hq : Inv q) {outcome : Outcome}
    (h : q.backgroundInit ops outcome = some t) : Inv t := by
  have hlocked (hflight : q.inFlight = none)
      (h : (if q.state = .idle then some { q with background := .wait } else q.take) =
        some t) : Inv t := by
    split_ifs at h with hidle
    · obtain rfl := Option.some.inj h
      exact inv_background hq .wait _ (by rw [hflight]; rfl) (fun _ => nofun) (fun _ => hidle) nofun
    · exact inv_take hq hflight hidle h
  cases hpc : q.background with
  | test =>
    simp only [Queue.backgroundInit, hpc, Option.some.injEq] at h
    have hflight : q.inFlight = none := by simp [Queue.inFlight, hpc]
    obtain rfl := h
    split_ifs with hs
    · exact inv_background hq .exit _ (by rw [hflight]; rfl) (fun _ => nofun) nofun (fun _ => hs)
    · exact inv_background hq .lock _ (by rw [hflight]; rfl) (fun _ => nofun) nofun nofun
  | lock | woken =>
    simp only [Queue.backgroundInit, hpc] at h
    exact hlocked (by simp [Queue.inFlight, hpc]) h
  | wait | exit => simp [Queue.backgroundInit, hpc] at h
  | init item =>
    simp only [Queue.backgroundInit, hpc] at h
    obtain ⟨storage, -, rfl⟩ := Option.map_eq_some_iff.mp h
    exact inv_complete hq hpc _
  | publish item =>
    simp only [Queue.backgroundInit, hpc, Option.some.injEq] at h
    obtain rfl := h
    exact inv_publish hq hpc

theorem inv_step {e : Event Outcome} (hq : Inv q) (h : step ops q e = some t) : Inv t := by
  cases e with
  | enqueue item =>
    obtain ⟨hs, rfl⟩ : q.state ≠ .shutdown ∧ q.enqueue ops item = t := by simpa [step] using h
    exact inv_enqueue hq hs item
  | shutdown =>
    obtain rfl := Option.some.inj h
    exact inv_shutdown hq
  | notify =>
    obtain ⟨-, rfl⟩ : q.unnotified ≠ 0 ∧ q.notify = t := by simpa [step] using h
    exact inv_notify hq
  | spurious =>
    obtain ⟨hwait, ht⟩ := Option.ite_none_right_eq_some.mp h
    obtain rfl := Option.some.inj ht
    exact inv_background hq .woken _ (by simp [Queue.inFlight, hwait]) (fun _ => nofun) nofun
      nofun
  | background outcome => exact inv_backgroundInit hq h
  | onReady =>
    obtain ⟨-, rfl⟩ : q.async = true ∧ { q with async := false } = t := by simpa [step] using h
    exact ⟨hq.pending, hq.idle, hq.newest, hq.served, hq.fresh, hq.publishing, hq.awake,
      hq.running⟩

theorem inv_exec {schedule : List (Event Outcome)} (h : exec (step ops) {} schedule = some q) :
    Inv q :=
  (run_of_exec h).invariant (fun _ _ _ _ hs hst => inv_step hs hst) inv_start

end Invariant

section Liveness

variable {ops : IRxStorage Storage Dataset Outcome} {q m : Queue Storage} {n : Nat}

/-- A step of the background thread or a wake-up that is due. -/
def Event.isInternal : Event Outcome → Bool
  | .notify | .background _ => true
  | _ => false

/-- Within `n` internal steps the queue is idle, with no request made meanwhile. -/
def Settles (ops : IRxStorage Storage Dataset Outcome) (n : Nat) (q : Queue Storage) : Prop :=
  ∃ schedule, schedule.length ≤ n ∧ (∀ e ∈ schedule, e.isInternal = true) ∧
    ∃ t, exec (step ops) q schedule = some t ∧ t.state = .idle ∧ t.enqueued = q.enqueued

theorem settles_idle (h : q.state = .idle) : Settles ops n q :=
  ⟨[], Nat.zero_le _, by simp, q, rfl, h, rfl⟩

theorem settles_step (e : Event Outcome) (he : e.isInternal = true)
    (hstep : step ops q e = some m) (hsame : m.enqueued = q.enqueued) (h : Settles ops n m) :
    Settles ops (n + 1) q := by
  obtain ⟨schedule, hlength, hinternal, t, hexec, hidle, henqueued⟩ := h
  refine ⟨e :: schedule, Nat.succ_le_succ hlength, ?_, t, ?_, hidle, henqueued.trans hsame⟩
  · exact List.forall_mem_cons.mpr ⟨he, hinternal⟩
  · rw [exec, hstep, Option.bind_some, hexec]

theorem Settles.mono {k : Nat} (h : Settles ops n q) (hle : n ≤ k) : Settles ops k q := by
  obtain ⟨schedule, hlength, hrest⟩ := h
  exact ⟨schedule, hlength.trans hle, hrest⟩

variable (outcome : Outcome)
include outcome

theorem settles_publish {item : RxQueueItem} (hpc : q.background = .publish item)
    (hs : q.state = .pending) (hqueue : q.queue = []) : Settles ops 1 q := by
  refine settles_step (.background outcome) rfl (m := q.publish item) ?_ ?_ ?_
  · simp [step, Queue.backgroundInit, hpc]
  · simp [Queue.publish, hs, hqueue]
  · exact settles_idle (by simp [Queue.publish, hs, hqueue])

theorem settles_init {item : RxQueueItem} {storage : Storage} (hpc : q.background = .init item)
    (hs : q.state = .pending) (hqueue : q.queue = []) (hstorage : q.storage = some storage) :
    Settles ops 2 q := by
  refine settles_step (.background outcome) rfl
    (m := q.complete item (ops.init storage item outcome)) ?_ rfl ?_
  · simp [step, Queue.backgroundInit, hpc, hstorage]
  · exact settles_publish outcome rfl hs hqueue

/-- The mutex is free to take and an item is waiting in the queue. -/
theorem settles_lock {storage : Storage} (hpc : q.background = .lock ∨ q.background = .woken)
    (hs : q.state = .pending) (hqueue : q.queue ≠ []) (hstorage : q.storage = some storage) :
    Settles ops 3 q := by
  refine settles_step (.background outcome) rfl
    (m := { q with queue := [], background := .init (q.queue.getLast hqueue) }) ?_ rfl ?_
  · have htake : q.backgroundInit ops outcome = q.take := by
      rcases hpc with hpc | hpc <;> simp [Queue.backgroundInit, hpc, hs]
    simp [step, htake, Queue.take, hs, List.getLast?_eq_some_getLast hqueue]
  · exact settles_init outcome rfl hs rfl hstorage

theorem settles_test {storage : Storage} (hpc : q.background = .test) (hs : q.state = .pending)
    (hqueue : q.queue ≠ []) (hstorage : q.storage = some storage) : Settles ops 4 q := by
  refine settles_step (.background outcome) rfl (m := { q with background := .lock }) ?_ rfl ?_
  · simp [step, Queue.backgroundInit, hpc, hs]
  · exact settles_lock outcome (.inl rfl) hs hqueue hstorage

/-- A newer request makes the thread drop the item it has just initialised. -/
theorem settles_drop {item : RxQueueItem} {storage : Storage}
    (hpc : q.background = .publish item) (hs : q.state = .pending) (hqueue : q.queue ≠ [])
    (hstorage : q.storage = some storage) : Settles ops 5 q := by
  refine settles_step (.background outcome) rfl (m := { q with background := .test }) ?_ rfl ?_
  · simp [step, Queue.backgroundInit, hpc, Queue.publish, hqueue]
  · exact settles_test outcome rfl hs hqueue hstorage

theorem settles (hq : Inv q) (hrunning : q.state ≠ .shutdown) : Settles ops 6 q := by
  cases hs : q.state with
  | idle => exact settles_idle hs
  | shutdown => exact absurd hs hrunning
  | pending =>
    obtain ⟨storage, hstorage⟩ := Option.ne_none_iff_exists'.mp
      fun hnone => (hq.fresh hnone).2.2.2.2 hs
    have hrequested := hq.pending hs
    have hwaiting (hflight : q.inFlight = none) : q.queue ≠ [] := by
      intro hqueue
      simp [Queue.requested, hqueue, hflight] at hrequested
    cases hpc : q.background with
    | test =>
      exact (settles_test outcome hpc hs (hwaiting (by simp [Queue.inFlight, hpc]))
        hstorage).mono (by omega)
    | lock =>
      exact (settles_lock outcome (.inl hpc) hs (hwaiting (by simp [Queue.inFlight, hpc]))
        hstorage).mono (by omega)
    | woken =>
      exact (settles_lock outcome (.inr hpc) hs (hwaiting (by simp [Queue.inFlight, hpc]))
        hstorage).mono (by omega)
    | wait =>
      have hdue : q.unnotified ≠ 0 := by
        have := (hq.awake hpc).resolve_left (by simp [hs])
        omega
      have hstep : step ops q .notify = some q.notify := by simp [step, hdue]
      exact (settles_step .notify rfl hstep rfl
        (settles_lock outcome (.inr (by simp [Queue.notify, hpc])) hs
          (hwaiting (by simp [Queue.inFlight, hpc])) hstorage)).mono (by omega)
    | init item =>
      by_cases hqueue : q.queue = []
      · exact (settles_init outcome hpc hs hqueue hstorage).mono (by omega)
      · exact settles_step (.background outcome) rfl
          (m := q.complete item (ops.init storage item outcome))
          (by simp [step, Queue.backgroundInit, hpc, hstorage]) rfl
          (settles_drop outcome rfl hs hqueue rfl)
    | publish item =>
      by_cases hqueue : q.queue = []
      · exact (settles_publish outcome hpc hs hqueue).mono (by omega)
      · exact (settles_drop outcome hpc hs hqueue hstorage).mono (by omega)
    | exit => exact absurd (hq.running hpc) hrunning

end Liveness

section Publication

variable {ops : IRxStorage Storage Dataset Outcome} {q : Queue Storage}

theorem isReady_iff {seed : RxSeed} :
    q.isReady ops seed = true ↔
      (∃ storage, q.storage = some storage ∧ ops.isAllocated storage = true) ∧
        q.state = .idle ∧ q.seed = seed := by
  unfold Queue.isReady
  cases q.storage with
  | none => simp
  | some storage => simp [and_assoc]

theorem dataset_isSome {seed : RxSeed} {nodeId : UInt32}
    (h : (q.dataset ops seed nodeId).isSome) : q.isReady ops seed = true := by
  by_contra hready
  simp [Queue.dataset, hready] at h

theorem not_initInProgress (hq : Inv q) (hidle : q.state = .idle) : ¬ q.initInProgress := by
  rintro ⟨item, hinit⟩
  have hflight := (hq.idle hidle).2
  simp [Queue.inFlight, hinit] at hflight

theorem idle_served (hq : Inv q) (hidle : q.state = .idle) :
    q.completed.head? = q.enqueued.head? := by
  by_cases hstorage : q.storage = none
  · obtain ⟨henqueued, hcompleted, -⟩ := hq.fresh hstorage
    rw [henqueued, hcompleted]
  · have hsome := Option.isSome_iff_ne_none.mpr hstorage
    rw [hq.served hidle hsome, hq.newest (by simp [hidle]) hsome]

/-- A query is answered for the seed of the last completed init and of the newest request
only, and never during an init; an idle queue has served its newest request, and from any
state short of shutdown the background thread gets there by itself. -/
theorem dataset_publication {schedule : List (Event Outcome)}
    (hrun : exec (step ops) {} schedule = some q) :
    (∀ seed nodeId, q.isReady ops seed = true ∨ (q.dataset ops seed nodeId).isSome →
      q.completed.head? = some seed ∧ ¬ q.initInProgress ∧ q.enqueued.head? = some seed) ∧
    (q.state = .idle → q.completed.head? = q.enqueued.head?) ∧
    (q.state ≠ .shutdown → ∀ _ : Outcome, ∃ rest, rest.length ≤ 6 ∧
      (∀ e ∈ rest, e.isInternal = true) ∧ ∃ t, exec (step ops) q rest = some t ∧
        t.state = .idle ∧ t.completed.head? = q.enqueued.head?) := by
  have hq := inv_exec hrun
  refine ⟨fun seed nodeId h => ?_, idle_served hq, fun hrunning outcome => ?_⟩
  · obtain ⟨⟨storage, hstorage, -⟩, hidle, rfl⟩ := isReady_iff.mp (h.elim id dataset_isSome)
    have hsome : q.storage.isSome := by rw [hstorage]; rfl
    exact ⟨hq.served hidle hsome, not_initInProgress hq hidle,
      hq.newest (by simp [hidle]) hsome⟩
  · have hsettles : Settles ops 6 q := settles outcome hq hrunning
    obtain ⟨rest, hlength, hinternal, t, hexec, hidle, hsame⟩ := hsettles
    refine ⟨rest, hlength, hinternal, t, hexec, hidle, ?_⟩
    rw [← hsame]
    exact idle_served (inv_exec (by rw [exec_append, hrun, Option.bind_some, hexec])) hidle

/-- Requests A, B, A, the last two made during the init for the first. -/
theorem dataset_publication_overtaken :
    let ops : IRxStorage Unit Unit Unit := ⟨fun _ => (), fun _ => true, fun _ _ _ => some (),
      fun _ _ _ => ()⟩
    let item (byte : UInt8) : RxQueueItem :=
      ⟨false, false, 0, .auto, ⟨.rx0, [byte]⟩, [], 1⟩
    ∃ q, exec (step ops) {} [.enqueue (item 1), .background (), .background (),
        .enqueue (item 2), .enqueue (item 1), .background (), .background (), .background (),
        .background (), .background (), .background ()] = some q ∧
      q.isReady ops ⟨.rx0, [1]⟩ = true ∧ q.completed.head? = some ⟨.rx0, [1]⟩ := by
  intro ops item
  obtain ⟨q, hrun⟩ := Option.isSome_iff_exists.mp (show (exec (step ops) {}
    [.enqueue (item 1), .background (), .background (), .enqueue (item 2), .enqueue (item 1),
      .background (), .background (), .background (), .background (), .background (),
      .background ()]).isSome from rfl)
  have hready : q.isReady ops ⟨.rx0, [1]⟩ = true := by
    obtain rfl := Option.some.inj hrun
    rfl
  exact ⟨q, hrun, hready, ((dataset_publication hrun).1 _ 0 (.inl hready)).1⟩

end Publication

end VeloxHash.RxQueue
