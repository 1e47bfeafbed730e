import VeloxHash.TransitionSystem
import Mathlib.Tactic

/-! `DnsUvBackend`: the lookups of one host, with a cache. `notify` calls the listeners of a
queue it iterates over, and a listener may call `resolve` again; the loops that are running
are a stack. The ghosts `mutated` and `released` say that the queue has changed under a
running loop and that `m_req` has been dropped before its callback ran. -/

namespace VeloxHash.DnsUvBackend

open TransitionSystem

inductive Family
  | unspec
  | inet
  | inet6
  deriving DecidableEq, Repr

structure Address where
  family : Family
  ip : String
  deriving DecidableEq, Repr

/-- `UV_EAI_NONAME`. -/
def noName : Int := -3008

/-- `DnsRecords(res, ai_family)`: IPv4 addresses are taken when there are no IPv6 ones. -/
def dnsRecords (res : List Address) (family : Family) : List Address :=
  let family :=
    if family = .inet6 ∧ !res.any (fun a => a.family = .inet6) then .inet else family
  res.filter fun a => a.family ≠ .unspec ∧ (family = .unspec ∨ a.family = family)

/-- A running `notify` loop: its position, the end it was started with, and whether it is in
`onResolved` of a listener. -/
structure Frame where
  next : Nat
  last : Nat
  inCallback : Bool := false
  deriving DecidableEq, Repr

/-- What a request was told. -/
structure Answer where
  request : Nat
  status : Int
  records : List Address
  deriving DecidableEq, Repr

/-- `lookups` are the calls of `getaddrinfo` that libuv is working on, `held` the requests
whose owner keeps them; requests and lookups are numbered. -/
structure Backend where
  records : List Address := []
  family : Family := .unspec
  status : Int := 0
  queue : List Nat := []
  req : Option Nat := none
  ts : UInt64 := 0
  lookups : List Nat := []
  frames : List Frame := []
  requests : Nat := 0
  started : Nat := 0
  held : List Nat := []
  answers : List Answer := []
  mutated : Bool := false
  released : Bool := false
  deriving DecidableEq, Repr

/-- `resolve` is called by a listener or from the event loop; `status` is what
`uv_getaddrinfo` returns if it gets called. `onResolved` is the callback of a lookup.
`deliver`, `return` and `finish` are the steps of the innermost loop. -/
inductive Event
  | resolve (now ttl : UInt64) (family : Family) (status : Int)
  | onResolved (lookup : Nat) (now : UInt64) (status : Int) (res : List Address)
  | deliver
  | return
  | finish
  | drop (request : Nat)
  deriving DecidableEq, Repr

namespace Backend

def notify (b : Backend) : Backend :=
  { b with frames := { next := 0, last := b.queue.length } :: b.frames }

/-- `resolve(host)`. -/
def lookup (b : Backend) (status : Int) : Backend :=
  { b with
    req := some b.started
    status
    started := b.started + 1
    lookups := if status = 0 then b.started :: b.lookups else b.lookups }

def enqueue (b : Backend) : Backend :=
  { b with
    queue := b.queue ++ [b.requests]
    requests := b.requests + 1
    held := b.requests :: b.held
    mutated := b.mutated || b.frames ≠ [] }

/-- The answer in the cache is young enough; the clock is that of the wall. -/
def isFresh (b : Backend) (now ttl : UInt64) : Bool := now - b.ts ≤ ttl

def resolve (b : Backend) (now ttl : UInt64) (family : Family) (status : Int) : Backend :=
  let b := b.enqueue
  if b.isFresh now ttl then b.notify
  else if b.req.isSome then b
  else
    let b := { b with family }.lookup status
    if status = 0 then b else b.notify

def onResolved (b : Backend) (now : UInt64) (status : Int) (res : List Address) : Backend :=
  let b := { b with status, ts := now }
  if status < 0 then { b with records := [] }.notify
  else
    let records := dnsRecords res b.family
    { b with records, status := if records = [] then noName else status }.notify

/-- One element of the queue; `lock()` fails for a request that has been dropped. -/
def deliver (b : Backend) (f : Frame) (rest : List Frame) : Option Backend :=
  if f.next < f.last then
    b.queue[f.next]?.map fun request =>
      if request ∈ b.held then
        { b with
          frames := { f with inCallback := true } :: rest
          answers := { request, status := b.status, records := b.records } :: b.answers }
      else { b with frames := { f with next := f.next + 1 } :: rest }
  else none

/-- The end of `notify`: `m_queue.clear()` and `m_req.reset()`. -/
def finish (b : Backend) (f : Frame) (rest : List Frame) : Option Backend :=
  if f.next = f.last then
    some { b with
      frames := rest
      queue := []
      req := none
      mutated := b.mutated || rest ≠ []
      released := b.released || b.req.any fun r => r ∈ b.lookups }
  else none

def step (b : Backend) : Event → Option Backend
  | .resolve now ttl family status =>
    if b.frames.head?.all Frame.inCallback then some (b.resolve now ttl family status) else none
  | .onResolved lookup now status res =>
    if b.frames = [] ∧ lookup ∈ b.lookups then
      some ({ b with lookups := b.lookups.erase lookup }.onResolved now status res)
    else none
  | .deliver =>
    match b.frames with
    | f :: rest => if f.inCallback then none else b.deliver f rest
    | [] => none
  | .return =>
    match b.frames with
    | f :: rest =>
      if f.inCallback then
        some { b with frames := { f with next := f.next + 1, inCallback := false } :: rest }
      else none
    | [] => none
  | .finish =>
    match b.frames with
    | f :: rest => if f.inCallback then none else b.finish f rest
    | [] => none
  | .drop request => some { b with held := b.held.erase request }

def answered (b : Backend) : List Nat := b.answers.map Answer.request

end Backend

open Backend

/-- No request is answered twice, none that is held waits when neither a lookup nor a loop is
there to answer it, no loop sees its queue change, and no lookup loses its handle. -/
structure Sound (b : Backend) : Prop where
  once : b.answered.Nodup
  served : b.lookups = [] → b.frames = [] → ∀ request ∈ b.held, request ∈ b.answered
  stable : b.mutated = false
  kept : b.released = false

/-- `resolve` is not called from `onResolved`, and finds no fresh answer in the cache while a
lookup is in flight. -/
def quiet (b : Backend) : Event → Bool
  | .resolve now ttl _ _ => b.frames = [] ∧ (b.isFresh now ttl → b.req = none)
  | _ => true

/-- The first `n` of the queue are done with; the rest wait, and hold every request that is
held and has no answer. -/
structure Served (b : Backend) (n : Nat) : Prop where
  queued : ∀ request ∈ b.queue, request < b.requests
  known : ∀ request ∈ b.answered, request < b.requests
  owned : ∀ request ∈ b.held, request < b.requests
  nodup : b.queue.Nodup
  waiting : ∀ request ∈ b.queue.drop n, request ∉ b.answered
  served : ∀ request ∈ b.held, request ∈ b.answered ∨ request ∈ b.queue.drop n
  once : b.answered.Nodup

theorem Served.congr {b b' : Backend} {n : Nat} (h : Served b n) (hqueue : b'.queue = b.queue)
    (hrequests : b'.requests = b.requests) (hheld : b'.held ⊆ b.held)
    (hanswers : b'.answers = b.answers) : Served b' n := by
  have hanswered : b'.answered = b.answered := congrArg (List.map Answer.request) hanswers
  refine ⟨?_, ?_, ?_, ?_, ?_, ?_, ?_⟩
  · rw [hqueue, hrequests]
    exact h.queued
  · rw [hanswered, hrequests]
    exact h.known
  · rw [hrequests]
    exact fun request hm => h.owned request (hheld hm)
  · rw [hqueue]
    exact h.nodup
  · rw [hqueue, hanswered]
    exact h.waiting
  · rw [hqueue, hanswered]
    exact fun request hm => h.served request (hheld hm)
  · rw [hanswered]
    exact h.once

theorem Served.enqueue {b : Backend} (h : Served b 0) : Served b.enqueue 0 where
  queued request hm := by
    rcases List.mem_append.mp hm with hm | hm
    · exact Nat.lt_succ_of_lt (h.queued request hm)
    · exact List.mem_singleton.mp hm ▸ Nat.lt_succ_self _
  known request hm := Nat.lt_succ_of_lt (h.known request hm)
  owned request hm := by
    rcases List.mem_cons.mp hm with rfl | hm
    · exact Nat.lt_succ_self _
    · exact Nat.lt_succ_of_lt (h.owned request hm)
  nodup := by
    refine List.nodup_append.mpr ⟨h.nodup, List.nodup_singleton _, fun request hm new hnew => ?_⟩
    rw [List.mem_singleton.mp hnew]
    exact (h.queued request hm).ne
  waiting request hm ha := by
    rcases List.mem_append.mp hm with hm | hm
    · exact h.waiting request hm ha
    · exact absurd (h.known request ha) (by rw [List.mem_singleton.mp hm]; exact lt_irrefl _)
  served request hm := by
    rcases List.mem_cons.mp hm with rfl | hm
    · exact .inr (List.mem_append_right _ (List.mem_singleton_self _))
    · exact (h.served request hm).imp_right (List.mem_append_left _)
  once := h.once

/-- What is behind the head of the rest of the queue is behind the head or it. -/
theorem mem_drop_iff {queue : List Nat} {n request r : Nat} (hn : queue[n]? = some request) :
    r ∈ queue.drop n ↔ r = request ∨ r ∈ queue.drop (n + 1) := by
  obtain ⟨hlt, hget⟩ := List.getElem?_eq_some_iff.mp hn
  rw [List.drop_eq_getElem_cons hlt, hget, List.mem_cons]

theorem not_mem_drop_succ {queue : List Nat} {n request : Nat} (h : queue.Nodup)
    (hn : queue[n]? = some request) : request ∉ queue.drop (n + 1) := by
  obtain ⟨hlt, hget⟩ := List.getElem?_eq_some_iff.mp hn
  have hdrop : (queue.drop n).Nodup := h.sublist (List.drop_sublist n queue)
  rw [List.drop_eq_getElem_cons hlt, hget] at hdrop
  exact (List.nodup_cons.mp hdrop).1

theorem Served.answer {b : Backend} {n request : Nat} (h : Served b n)
    (hn : b.queue[n]? = some request) {a : Answer} (ha : a.request = request) :
    Served { b with answers := a :: b.answers } (n + 1) where
  queued := h.queued
  known r hm := by
    rcases List.mem_cons.mp hm with rfl | hm
    · exact ha ▸ h.queued request (List.mem_of_getElem? hn)
    · exact h.known r hm
  owned := h.owned
  nodup := h.nodup
  waiting r hm hr := by
    rcases List.mem_cons.mp hr with rfl | hr
    · exact not_mem_drop_succ h.nodup hn (ha ▸ hm)
    · exact h.waiting r ((mem_drop_iff hn).mpr (.inr hm)) hr
  served r hm := by
    rcases h.served r hm with hr | hr
    · exact .inl (List.mem_cons_of_mem _ hr)
    rcases (mem_drop_iff hn).mp hr with rfl | hr
    · exact .inl (ha ▸ List.mem_cons_self)
    · exact .inr hr
  once := List.nodup_cons.mpr
    ⟨ha ▸ h.waiting request ((mem_drop_iff hn).mpr (.inl rfl)), h.once⟩

theorem Served.skip {b : Backend} {n request : Nat} (h : Served b n)
    (hn : b.queue[n]? = some request) (hheld : request ∉ b.held) : Served b (n + 1) where
  queued := h.queued
  known := h.known
  owned := h.owned
  nodup := h.nodup
  waiting r hm := h.waiting r ((mem_drop_iff hn).mpr (.inr hm))
  served r hm := (h.served r hm).imp_right fun hr =>
    ((mem_drop_iff hn).mp hr).resolve_left fun heq => hheld (heq ▸ hm)
  once := h.once

theorem Served.finish {b : Backend} (h : Served b b.queue.length) :
    Served { b with queue := [] } 0 where
  queued := nofun
  known := h.known
  owned := h.owned
  nodup := List.nodup_nil
  waiting := nofun
  served r hm := .inl ((h.served r hm).resolve_right (by simp))
  once := h.once

/-- What the backend is about: nothing, a lookup, or the answers of one loop. -/
inductive Phase (b : Backend) : Prop
  | idle : b.frames = [] → b.req = none → b.lookups = [] → b.queue = [] → Phase b
  | looking (l : Nat) : b.frames = [] → b.req = some l → b.lookups = [l] → Phase b
  | notifying (f : Frame) : b.frames = [f] → b.lookups = [] → f.last = b.queue.length →
    (f.inCallback = true → f.next < f.last) → f.next ≤ f.last → Phase b

/-- Elements of the queue that the running loop has served. -/
def served (b : Backend) : Nat :=
  match b.frames with
  | [] => 0
  | f :: _ => if f.inCallback then f.next + 1 else f.next

structure Inv (b : Backend) : Prop where
  phase : Phase b
  served : Served b (served b)
  stable : b.mutated = false
  kept : b.released = false

theorem Inv.sound {b : Backend} (h : Inv b) : Sound b := by
  refine ⟨h.served.once, fun hlookups hframes request hm => ?_, h.stable, h.kept⟩
  have hserved := h.served.served request hm
  cases h.phase with
  | idle _ _ _ hqueue => exact hserved.resolve_right (by simp [hqueue])
  | looking l _ _ hl => simp [hl] at hlookups
  | notifying f hf => simp [hf] at hframes

theorem Phase.frames_nil {b : Backend} (h : Phase b) (hframes : b.frames = []) :
    b.lookups = b.req.toList := by
  cases h with
  | idle _ hreq hlookups => rw [hreq, hlookups]; rfl
  | looking l _ hreq hlookups => rw [hreq, hlookups]; rfl
  | notifying f hf => simp [hframes] at hf

theorem Phase.frames_cons {b : Backend} {f : Frame} {rest : List Frame} (h : Phase b)
    (hframes : b.frames = f :: rest) : rest = [] ∧ b.lookups = [] ∧
      f.last = b.queue.length ∧ f.next ≤ f.last := by
  cases h with
  | idle hf => simp [hf] at hframes
  | looking l hf => simp [hf] at hframes
  | notifying g hf hlookups hlast _ hle =>
    obtain ⟨rfl, rfl⟩ := List.cons.inj (hf.symm.trans hframes)
    exact ⟨rfl, hlookups, hlast, hle⟩

theorem inv_deliver {b b' : Backend} {f : Frame} {rest : List Frame} (h : Inv b)
    (hframes : b.frames = f :: rest) (hf : f.inCallback = false)
    (hstep : b.deliver f rest = some b') : Inv b' := by
  obtain ⟨rfl, hlookups, hlast, -⟩ := h.phase.frames_cons hframes
  obtain ⟨hlt, hstep⟩ := Option.ite_none_right_eq_some.mp hstep
  obtain ⟨request, hn, hstep⟩ := Option.map_eq_some_iff.mp hstep
  have hserved : Served b f.next := by
    have hs : served b = f.next := by simp [served, hframes, hf]
    exact hs ▸ h.served
  split_ifs at hstep with hheld
  · subst hstep
    refine ⟨.notifying _ rfl hlookups hlast (fun _ => hlt) hlt.le, ?_, h.stable, h.kept⟩
    exact (hserved.answer hn rfl).congr rfl rfl (List.Subset.refl _) rfl
  · subst hstep
    refine ⟨.notifying _ rfl hlookups hlast (by simp [hf]) hlt, ?_, h.stable, h.kept⟩
    simp only [served, hf]
    exact (hserved.skip hn hheld).congr rfl rfl (List.Subset.refl _) rfl

theorem inv_return {b b' : Backend} {f : Frame} {rest : List Frame} (h : Inv b)
    (hframes : b.frames = f :: rest) (hf : f.inCallback = true)
    (hstep : { b with frames := { f with next := f.next + 1, inCallback := false } :: rest } = b') :
    Inv b' := by
  subst hstep
  have hserved : Served b (f.next + 1) := by
    have hs : served b = f.next + 1 := by simp [served, hframes, hf]
    exact hs ▸ h.served
  have hphase := h.phase
  cases hphase with
  | idle hnil => simp [hnil] at hframes
  | looking l hnil => simp [hnil] at hframes
  | notifying g hg hlookups hlast hlt _ =>
    obtain ⟨rfl, rfl⟩ := List.cons.inj (hg.symm.trans hframes)
    refine ⟨.notifying _ rfl hlookups hlast nofun (hlt hf), ?_, h.stable, h.kept⟩
    exact hserved.congr rfl rfl (List.Subset.refl _) rfl

theorem inv_finish {b b' : Backend} {f : Frame} {rest : List Frame} (h : Inv b)
    (hframes : b.frames = f :: rest) (hf : f.inCallback = false)
    (hstep : b.finish f rest = some b') : Inv b' := by
  obtain ⟨rfl, hlookups, hlast, -⟩ := h.phase.frames_cons hframes
  obtain ⟨hend, hstep⟩ := Option.ite_none_right_eq_some.mp hstep
  obtain rfl := Option.some.inj hstep
  have hserved : Served b b.queue.length := by
    have hs : served b = b.queue.length := by simp [served, hframes, hf, hend, hlast]
    exact hs ▸ h.served
  refine ⟨.idle rfl rfl hlookups rfl, ?_, by simp [h.stable], by simp [h.kept, hlookups]⟩
  exact hserved.finish.congr rfl rfl (List.Subset.refl _) rfl

theorem inv_notify {b : Backend} (h : Served b 0) (hframes : b.frames = [])
    (hlookups : b.lookups = []) (hstable : b.mutated = false) (hkept : b.released = false) :
    Inv b.notify where
  phase := .notifying _ (by rw [notify, hframes]) hlookups rfl (by simp) (Nat.zero_le _)
  served := by
    show Served b.notify 0
    exact h.congr rfl rfl (List.Subset.refl _) rfl
  stable := hstable
  kept := hkept

theorem inv_resolve {b : Backend} (h : Inv b) {now ttl : UInt64} {family : Family} {status : Int}
    (hframes : b.frames = []) (hfresh : b.isFresh now ttl = true → b.req = none) :
    Inv (b.resolve now ttl family status) := by
  have hzero : served b = 0 := by rw [served, hframes]
  have henqueue : Served b.enqueue 0 := (hzero ▸ h.served).enqueue
  have hstable : b.enqueue.mutated = false := by simp [enqueue, h.stable, hframes]
  have hlookups : b.enqueue.lookups = b.enqueue.req.toList := h.phase.frames_nil hframes
  unfold resolve
  dsimp only
  split_ifs with hf hreq hstatus
  · have hnone : b.enqueue.req = none := hfresh hf
    rw [hnone] at hlookups
    exact inv_notify henqueue hframes hlookups hstable h.kept
  · obtain ⟨l, hl⟩ := Option.isSome_iff_exists.mp hreq
    rw [hl] at hlookups
    refine ⟨.looking l hframes hl hlookups, ?_, hstable, h.kept⟩
    have hserved : served b.enqueue = 0 := hzero
    rw [hserved]
    exact henqueue
  all_goals
    have hnone : b.enqueue.req = none := by simpa using hreq
    have hlookups : b.lookups = [] := hlookups.trans (congrArg Option.toList hnone)
  · refine ⟨.looking b.started hframes rfl ?_, ?_, hstable, h.kept⟩
    · simp [lookup, hstatus, hlookups, enqueue]
    · have hserved : served ({ b.enqueue with family }.lookup status) = 0 := hzero
      rw [hserved]
      exact henqueue.congr rfl rfl (List.Subset.refl _) rfl
  · refine inv_notify (henqueue.congr rfl rfl (List.Subset.refl _) rfl) hframes ?_ hstable h.kept
    simp [lookup, hstatus, hlookups, enqueue]

theorem inv_onResolved {b : Backend} (h : Inv b) {l : Nat} {now : UInt64} {status : Int}
    {res : List Address} (hframes : b.frames = []) (hl : l ∈ b.lookups) :
    Inv ({ b with lookups := b.lookups.erase l }.onResolved now status res) := by
  have hzero : served b = 0 := by rw [served, hframes]
  have hserved : Served b 0 := hzero ▸ h.served
  have herase : b.lookups.erase l = [] := by
    cases h.phase with
    | idle _ _ hlookups => simp [hlookups]
    | looking m _ _ hlookups =>
      obtain rfl : l = m := by simpa [hlookups] using hl
      simp [hlookups]
    | notifying f hf => simp [hframes] at hf
  unfold onResolved
  dsimp only
  split_ifs
  all_goals
    exact inv_notify (hserved.congr rfl rfl (List.Subset.refl _) rfl) hframes herase h.stable h.kept

theorem inv_step {b b' : Backend} {e : Event} (h : Inv b) (hq : quiet b e = true)
    (hstep : b.step e = some b') : Inv b' := by
  cases e with
  | resolve now ttl family status =>
    obtain ⟨-, hstep⟩ := Option.ite_none_right_eq_some.mp hstep
    obtain rfl := Option.some.inj hstep
    obtain ⟨hframes, hfresh⟩ := of_decide_eq_true hq
    exact inv_resolve h hframes hfresh
  | onResolved l now status res =>
    obtain ⟨⟨hframes, hl⟩, hstep⟩ := Option.ite_none_right_eq_some.mp hstep
    obtain rfl := Option.some.inj hstep
    exact inv_onResolved h hframes hl
  | drop request =>
    obtain rfl := Option.some.inj hstep
    refine ⟨?_, h.served.congr rfl rfl List.erase_subset rfl, h.stable, h.kept⟩
    cases h.phase with
    | idle hf hr hl hq => exact .idle hf hr hl hq
    | looking l hf hr hl => exact .looking l hf hr hl
    | notifying f hf hl hlast hc hn => exact .notifying f hf hl hlast hc hn
  | deliver =>
    cases hframes : b.frames with
    | nil => simp [step, hframes] at hstep
    | cons f rest =>
      simp only [step, hframes] at hstep
      obtain ⟨hf, hstep⟩ := Option.ite_none_left_eq_some.mp hstep
      exact inv_deliver h hframes (by simpa using hf) hstep
  | «return» =>
    cases hframes : b.frames with
    | nil => simp [step, hframes] at hstep
    | cons f rest =>
      simp only [step, hframes] at hstep
      obtain ⟨hf, hstep⟩ := Option.ite_none_right_eq_some.mp hstep
      exact inv_return h hframes hf (Option.some.inj hstep)
  | finish =>
    cases hframes : b.frames with
    | nil => simp [step, hframes] at hstep
    | cons f rest =>
      simp only [step, hframes] at hstep
      obtain ⟨hf, hstep⟩ := Option.ite_none_left_eq_some.mp hstep
      exact inv_finish h hframes (by simpa using hf) hstep

theorem inv_start : Inv {} where
  phase := .idle rfl rfl rfl rfl
  served := ⟨nofun, nofun, nofun, List.nodup_nil, nofun, nofun, List.nodup_nil⟩
  stable := rfl
  kept := rfl

end VeloxHash.DnsUvBackend
