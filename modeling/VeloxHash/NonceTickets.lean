import VeloxHash.CpuWorker
import VeloxHash.LaneNonce
import VeloxHash.NonceReservation
import VeloxHash.TicketBook

/-! The nonces that a CPU worker has reserved and not hashed yet, as tickets under the index
and the blob of their job. No step of a worker makes a ticket: what is hashed and what is
left come from what the worker had and from the range it fetched. -/

namespace VeloxHash.NonceTickets

open CodeBuffer CpuWorker TicketBook

variable {k : Primitives} {data : CpuLaunchData} {known : Job → Prop} {base : List UInt8 → Nat}
  {bench : List UInt8 → UInt32}

/-- The index and the blob of a job. -/
abbrev WorkKey := Fin 2 × List UInt8

/-- What is known of the jobs that the miner gives out. `base` and `bench` say that jobs
with one blob have their nonces in one block and are part of one benchmark. -/
structure Terms (known : Job → Prop) (base : List UInt8 → Nat) (bench : List UInt8 → UInt32) :
    Prop where
  start : known {}
  accepted : ∀ job, known job → job = {} ∨ job.Accepted
  base : ∀ job, known job → job.base = base job.blob
  benchSize : ∀ job, known job → job.benchSize = bench job.blob

/-- What a worker keeps of one of its two jobs. -/
structure Side where
  job : Job
  mask : UInt64
  rounds : UInt32
  nonce : Nat → UInt32
  granted : Bool

def side (w : Worker k) (index : Fin 2) : Side where
  job := w.job.jobs index
  mask := w.job.nonceMask index
  rounds := w.job.rounds index
  nonce := w.job.laneNonce index
  granted := w.granted index

namespace Side

/-- The size of the ranges that are reserved for the job. -/
def count (s : Side) : Nat := (reserveCount s.job.benchSize).toNat

/-- How many nonces of a range are left, the present one included. -/
def left (s : Side) : Nat := s.count - s.rounds.toNat % s.count

def tickets (s : Side) (index : Fin 2) (lane : Nat) : Multiset (WorkKey × Nat) :=
  stretch (index, s.job.blob) (s.nonce lane).toNat s.left

/-- The tickets of the first `n` lanes. -/
def kept (s : Side) (index : Fin 2) (n : Nat) : Multiset (WorkKey × Nat) :=
  if s.granted = true ∧ s.job.Placed then (Multiset.range n).bind (s.tickets index) else 0

/-- The first `copied` lanes hold nonces of the block; the first `stored` ones hold ranges
if all were granted. -/
structure Holds (known : Job → Prop) (index : Fin 2) (s : Side) (copied stored : Nat) : Prop where
  taken : s.job = {} ∨ ∃ job, known job ∧ job.index = index ∧ s.job = job.setBackend .cpu
  mask : s.job = {} ∨ s.mask = s.job.nonceMask
  copied : s.job.Placed → ∀ lane < copied, s.job.Within (s.nonce lane) 1
  room : s.granted = true → s.job.Placed → ∀ lane < stored, s.job.Within (s.nonce lane) s.left

variable {s t : Side} {index : Fin 2} {copied stored : Nat}

theorem one_le_count (s : Side) : 1 ≤ s.count := by
  unfold count reserveCount
  split <;> decide

theorem one_le_left (s : Side) : 1 ≤ s.left := by
  have := Nat.mod_lt s.rounds.toNat s.one_le_count
  unfold left
  omega

theorem Holds.of_placed (h : s.Holds known index copied stored) (hp : s.job.Placed) :
    (∃ job, known job ∧ job.index = index ∧ s.job = job.setBackend .cpu) ∧
      s.mask = s.job.nonceMask := by
  have hne : s.job ≠ {} := by
    intro hdefault
    rw [hdefault] at hp
    exact absurd hp (by decide)
  exact ⟨h.taken.resolve_left hne, h.mask.resolve_left hne⟩

theorem Holds.base_eq (h : s.Holds known index copied stored) (terms : Terms known base bench)
    (hp : s.job.Placed) : s.job.base = base s.job.blob := by
  obtain ⟨⟨job, hjob, -, heq⟩, -⟩ := h.of_placed hp
  rw [heq]
  exact terms.base job hjob

theorem Holds.benchSize_eq (h : s.Holds known index copied stored)
    (terms : Terms known base bench) : s.job.benchSize = bench s.job.blob := by
  rcases h.taken with heq | ⟨job, hjob, -, heq⟩
  · rw [heq]
    exact terms.benchSize _ terms.start
  · rw [heq]
    exact terms.benchSize job hjob

/-- Only the nonces of the lanes in question matter. -/
theorem Holds.congr (h : s.Holds known index copied stored) {copied' stored' : Nat}
    (hjob : t.job = s.job) (hmask : t.mask = s.mask) (hrounds : t.rounds = s.rounds)
    (hgranted : t.granted = s.granted) (hcopied : copied' ≤ copied) (hstored : stored' ≤ stored)
    (hnonce : s.job.Placed → ∀ lane < max copied' stored', t.nonce lane = s.nonce lane) :
    t.Holds known index copied' stored' := by
  have hleft : t.left = s.left := by simp only [left, count, hjob, hrounds]
  refine ⟨hjob ▸ h.taken, by rw [hmask, hjob]; exact h.mask, fun hp lane hlane => ?_,
    fun hg hp lane hlane => ?_⟩
  · rw [hjob] at hp ⊢
    rw [hnonce hp lane (by omega)]
    exact h.copied hp lane (by omega)
  · rw [hjob] at hp ⊢
    rw [hnonce hp lane (by omega), hleft]
    exact h.room (hgranted ▸ hg) hp lane (by omega)

theorem kept_congr {n : Nat} (hjob : t.job = s.job) (hrounds : t.rounds = s.rounds)
    (hgranted : t.granted = s.granted)
    (hnonce : s.job.Placed → ∀ lane < n, t.nonce lane = s.nonce lane) :
    t.kept index n = s.kept index n := by
  have hleft : t.left = s.left := by simp only [left, count, hjob, hrounds]
  unfold kept
  rw [hgranted, hjob]
  split
  case isTrue h =>
    refine Multiset.bind_congr fun lane hlane => ?_
    rw [tickets, tickets, hleft, hjob, hnonce h.2 lane (Multiset.mem_range.mp hlane)]
  case isFalse => rfl

theorem kept_zero (s : Side) (index : Fin 2) : s.kept index 0 = 0 := by
  unfold kept
  split <;> rfl

/-- With one more lane there is what that lane holds. -/
theorem kept_succ_le (s : Side) (index : Fin 2) (n : Nat) :
    s.kept index (n + 1) ≤ s.kept index n + s.tickets index n := by
  unfold kept
  split
  case isTrue => rw [Multiset.range_succ, Multiset.cons_bind, add_comm]
  case isFalse => exact Multiset.zero_le _

theorem kept_of_not_placed {n : Nat} (h : ¬ s.job.Placed) : s.kept index n = 0 :=
  if_neg fun hg => h hg.2

theorem kept_of_not_granted {n : Nat} (h : s.granted = false) : s.kept index n = 0 :=
  if_neg fun hg => by rw [h] at hg; exact absurd hg.1 Bool.false_ne_true

/-- A fresh range is stored in a lane. Of the lanes those below `n` are hashed. -/
theorem store (nonces : Nat → UInt32) {n c lane : Nat} {nonce count : UInt32} {counter : UInt64}
    (terms : Terms known base bench) (h : s.Holds known index (min c n) (min lane n))
    (hc : lane < c) (hcount : s.count = count.toNat) (hfresh : s.rounds.toNat % s.count = 0)
    (hnonces : s.job.Placed → ∀ other, nonces other = if other = lane then nonce else s.nonce other)
    (hnonce : s.job.Placed → s.job.Within (s.nonce lane) 1 →
      nonce.toNat = s.job.base + counter.toNat ∧ s.job.Within nonce count.toNat) :
    { s with nonce := nonces }.Holds known index (min c n) (min (lane + 1) n) ∧
      { s with nonce := nonces }.kept index (min (lane + 1) n) ≤ s.kept index (min lane n) +
        stretch (index, s.job.blob) (base s.job.blob + counter.toNat) count.toNat := by
  by_cases hp : s.job.Placed
  case neg =>
    refine ⟨⟨h.taken, h.mask, fun hp' => absurd hp' hp, fun _ hp' => absurd hp' hp⟩, ?_⟩
    have hnone : { s with nonce := nonces }.kept index (min (lane + 1) n) = 0 :=
      kept_of_not_placed hp
    rw [hnone]
    exact Multiset.zero_le _
  case pos =>
    by_cases hlane : lane < n
    case neg =>
      -- a lane that is not hashed holds nothing
      have hsame (other : Nat) (hlt : other < n) : nonces other = s.nonce other := by
        rw [hnonces hp, if_neg (by omega)]
      refine ⟨h.congr rfl rfl rfl rfl le_rfl (by omega) fun _ other _ => hsame other (by omega), ?_⟩
      rw [show min (lane + 1) n = min lane n by omega]
      refine (le_of_eq ?_).trans (Multiset.le_add_right _ _)
      exact kept_congr rfl rfl rfl fun _ other _ => hsame other (by omega)
    case pos =>
      obtain ⟨hvalue, hwithin⟩ := hnonce hp (h.copied hp lane (by omega))
      have hleft : s.left = count.toNat := by rw [left, hfresh, Nat.sub_zero, hcount]
      refine ⟨⟨h.taken, h.mask, fun _ other hlt => ?_, fun hgranted _ other hlt => ?_⟩, ?_⟩
      · simp only [hnonces hp]
        split
        · exact hwithin.mono (hcount ▸ s.one_le_count)
        · exact h.copied hp other hlt
      · change s.job.Within (nonces other) s.left
        rw [hnonces hp]
        split
        · rw [hleft]
          exact hwithin
        · exact h.room hgranted hp other (by omega)
      · rw [show min (lane + 1) n = lane + 1 by omega, show min lane n = lane by omega]
        refine (kept_succ_le _ _ _).trans (add_le_add (le_of_eq ?_) (le_of_eq ?_))
        · refine kept_congr rfl rfl rfl fun _ other hlt => ?_
          simp only [hnonces hp]
          rw [if_neg (by omega)]
        · change stretch (index, s.job.blob) (nonces lane).toNat s.left = _
          rw [hnonces hp, if_pos rfl, hvalue, h.base_eq terms hp, hleft]

/-- The blob is copied to a lane. -/
theorem copy (nonces : Nat → UInt32) {n lane : Nat}
    (h : s.Holds known index (min lane n) (min lane n))
    (hnonces : s.job.Placed → ∀ other,
      nonces other = if other = lane then s.job.nonceOf s.job.blob else s.nonce other) :
    { s with nonce := nonces }.Holds known index (min (lane + 1) n) (min lane n) ∧
      { s with nonce := nonces }.kept index (min lane n) = s.kept index (min lane n) := by
  refine ⟨⟨h.taken, h.mask, fun hp other hlt => ?_, fun hgranted hp other hlt => ?_⟩, ?_⟩
  · simp only [hnonces hp]
    split
    · exact s.job.within_blob
    · exact h.copied hp other (by omega)
  · change s.job.Within (nonces other) s.left
    rw [hnonces hp, if_neg (by omega)]
    exact h.room hgranted hp other hlt
  · refine kept_congr rfl rfl rfl fun hp other hlt => ?_
    simp only [hnonces hp]
    rw [if_neg (by omega)]

/-- The nonces of the first `n` lanes. -/
def heads (s : Side) (index : Fin 2) (n : Nat) : Multiset (WorkKey × Nat) :=
  (Multiset.range n).map fun lane => ((index, s.job.blob), (s.nonce lane).toNat)

/-- What is left of the ranges behind these nonces. -/
def tails (s : Side) (index : Fin 2) (n : Nat) : Multiset (WorkKey × Nat) :=
  (Multiset.range n).bind fun lane =>
    stretch (index, s.job.blob) ((s.nonce lane).toNat + 1) (s.left - 1)

theorem kept_eq_heads_add (hgranted : s.granted = true) (hp : s.job.Placed) (index : Fin 2)
    (n : Nat) : s.kept index n = s.heads index n + s.tails index n := by
  rw [kept, if_pos ⟨hgranted, hp⟩, heads, ← Multiset.bind_singleton, tails, ← Multiset.bind_add]
  refine Multiset.bind_congr fun lane _ => ?_
  obtain ⟨m, hm⟩ := Nat.exists_eq_add_of_le' s.one_le_left
  rw [tickets, hm, stretch_succ, Nat.add_sub_cancel]

theorem count_eq_pow (s : Side) : ∃ j ≤ 32, s.count = 2 ^ j := by
  unfold count reserveCount
  split
  · exact ⟨0, by decide, rfl⟩
  · exact ⟨15, by decide, rfl⟩

/-- The count of rounds may wrap. -/
theorem rounds_succ_mod (s : Side) :
    (s.rounds + 1).toNat % s.count = (s.rounds.toNat + 1) % s.count := by
  obtain ⟨j, hj, hcount⟩ := s.count_eq_pow
  rw [UInt32.toNat_add, hcount, show (1 : UInt32).toNat = 1 from rfl,
    Nat.mod_mod_of_dvd _ (pow_dvd_pow 2 hj)]

/-- Inside a range the nonces move on by one. -/
theorem bump (nonces : Nat → UInt32) {n : Nat} (h : s.Holds known index n n)
    (hgranted : s.granted = true) (hp : s.job.Placed)
    (hround : (s.rounds + 1).toNat % s.count ≠ 0)
    (hnonces : ∀ lane < n, nonces lane = s.nonce lane + 1) :
    { s with rounds := s.rounds + 1, nonce := nonces }.Holds known index n n ∧
      { s with rounds := s.rounds + 1, nonce := nonces }.kept index n = s.tails index n := by
  have hlt := Nat.mod_lt s.rounds.toNat s.one_le_count
  have hmod : (s.rounds + 1).toNat % s.count = s.rounds.toNat % s.count + 1 := by
    rw [s.rounds_succ_mod, ← Nat.mod_add_mod] at hround ⊢
    refine Nat.mod_eq_of_lt (lt_of_le_of_ne hlt fun hfull => hround ?_)
    rw [hfull, Nat.mod_self]
  have hone : 1 ≤ s.left - 1 := by
    have hnext := Nat.mod_lt (s.rounds + 1).toNat s.one_le_count
    unfold left
    omega
  have hleft : ({ s with rounds := s.rounds + 1, nonce := nonces } : Side).left = s.left - 1 := by
    change s.count - (s.rounds + 1).toNat % s.count = s.count - s.rounds.toNat % s.count - 1
    omega
  have hnext (lane : Nat) (hlane : lane < n) :
      (nonces lane).toNat = (s.nonce lane).toNat + 1 ∧ s.job.Within (nonces lane) (s.left - 1) := by
    have hroom := h.room hgranted hp lane hlane
    obtain ⟨m, hm⟩ := Nat.exists_eq_add_of_le' (show 2 ≤ s.left by omega)
    rw [hm] at hroom ⊢
    rw [hnonces lane hlane]
    exact hroom.succ
  refine ⟨⟨h.taken, h.mask, fun _ lane hlane => (hnext lane hlane).2.mono hone,
    fun _ _ lane hlane => ?_⟩, ?_⟩
  · rw [hleft]
    exact (hnext lane hlane).2
  · rw [kept, if_pos ⟨hgranted, hp⟩, tails]
    refine Multiset.bind_congr fun lane hlane => ?_
    rw [tickets, hleft]
    exact congrArg (stretch _ · _) (hnext lane (Multiset.mem_range.mp hlane)).1

/-- Two sides that differ in lanes from `n` on at most. -/
structure Agrees (n : Nat) (s t : Side) : Prop where
  job : t.job = s.job
  mask : t.mask = s.mask
  rounds : t.rounds = s.rounds
  granted : t.granted = s.granted
  nonce : s.job.Placed → ∀ lane < n, t.nonce lane = s.nonce lane

theorem Agrees.holds {n : Nat} (h : Agrees n s t) (hs : s.Holds known index copied stored)
    (hcopied : copied ≤ n) (hstored : stored ≤ n) : t.Holds known index copied stored :=
  hs.congr h.job h.mask h.rounds h.granted le_rfl le_rfl fun hp lane hlt =>
    h.nonce hp lane (by omega)

theorem Agrees.kept {n m : Nat} (h : Agrees n s t) (hm : m ≤ n) (index : Fin 2) :
    t.kept index m = s.kept index m :=
  kept_congr h.job h.rounds h.granted fun hp lane hlt => h.nonce hp lane (hlt.trans_le hm)

theorem Agrees.tails {n : Nat} (h : Agrees n s t) (hp : s.job.Placed) (index : Fin 2) :
    t.tails index n = s.tails index n := by
  have hleft : t.left = s.left := by simp only [left, count, h.job, h.rounds]
  refine Multiset.bind_congr fun lane hlane => ?_
  rw [h.job, hleft, h.nonce hp lane (Multiset.mem_range.mp hlane)]

/-- A reservation failed. -/
theorem Holds.refuse (h : s.Holds known index copied stored) (stored' : Nat) :
    { s with granted := false }.Holds known index copied stored' :=
  ⟨h.taken, h.mask, h.copied, fun hgranted => absurd hgranted Bool.false_ne_true⟩

end Side

/-- The lanes of a job that are hashed. -/
def hashes (data : CpuLaunchData) (job : Job) : Nat := if job.algorithm.isRandomX then 1 else data.width

/-- The lanes of a job that count when those of the current one count up to `n`. -/
def lanes (data : CpuLaunchData) (w : Worker k) (n : Nat) (index : Fin 2) : Nat :=
  min (if index = w.job.index then n else data.width) (hashes data (w.job.jobs index))

/-- The lanes of the current job that the blob was copied to. -/
def copied (data : CpuLaunchData) (w : Worker k) : Nat :=
  match w.pc with
  | .save lane _ _ => lane + 1
  | _ => data.width

/-- The lanes of the current job whose ranges are in place. -/
def stored (data : CpuLaunchData) (w : Worker k) : Nat :=
  match w.pc with
  | .save lane _ _ => lane
  | .nextRound lane _ _ => lane
  | _ => data.width

def key (w : Worker k) : WorkKey := (w.job.index, w.job.currentJob.blob)

/-- The range that a call of `Nonce::next` has taken. -/
def taken (base : List UInt8 → Nat) (w : Worker k) : Nonce.Pc → Multiset (WorkKey × Nat)
  | .pause counter false | .done (some counter) =>
    stretch (key w) (base w.job.currentJob.blob + counter.toNat) w.count.toNat
  | _ => 0

/-- The nonce whose RandomX hash is begun while it is being replaced. -/
def begun (w : Worker k) (it : Iteration) : Multiset (WorkKey × Nat) :=
  if w.job.currentJob.algorithm.isRandomX then
    ((it.nonces.take 1).map fun nonce => (key w, nonce.toNat) : List (WorkKey × Nat))
  else
    0

/-- What a worker holds besides the ranges of its lanes. -/
def loose (base : List UInt8 → Nat) (w : Worker k) : Multiset (WorkKey × Nat) :=
  match w.pc with
  | .save _ call _ => taken base w call
  | .nextRound _ call it => taken base w call + begun w it
  | _ => 0

/-- The tickets of a worker for one of its jobs. -/
def held (data : CpuLaunchData) (base : List UInt8 → Nat) (w : Worker k) (index : Fin 2) :
    Multiset (WorkKey × Nat) :=
  (side w index).kept index (lanes data w (stored data w) index) +
    if index = w.job.index then loose base w else 0

/-- The ticket that an event spends. -/
def ticket : Event → Option (WorkKey × Nat)
  | .hashed work _ => some ((work.job.index, work.job.blob), work.nonce.toNat)
  | _ => none

def spent (events : List Event) : Multiset (WorkKey × Nat) := events.filterMap ticket

/-- A call that takes a range takes one that fits the job. -/
def CallFits (w : Worker k) (call : Nonce.Pc) : Prop :=
  w.job.currentJob.Placed → ∀ counter, NonceReservation.Pc.takes call counter →
    Nonce.Fits (Nonce.effectiveMask w.job.currentJob.nonceMask) w.count counter

/-- The reservations of the worker are of the size that the current job asks for. -/
def Counts (w : Worker k) : Prop := w.benchSize = w.job.currentJob.benchSize

def Lanes (data : CpuLaunchData) (known : Job → Prop) (w : Worker k) (copied stored : Nat) : Prop :=
  ∀ index, (side w index).Holds known index (lanes data w copied index) (lanes data w stored index)

/-- A call of `Nonce::next` is under way for a lane, at the start of a range. -/
structure Calling (data : CpuLaunchData) (w : Worker k) (lane : Nat) (call : Nonce.Pc) : Prop where
  lane : lane < data.width
  counts : Counts w
  fresh : (side w w.job.index).rounds.toNat % (side w w.job.index).count = 0
  fits : CallFits w call

def Phase (data : CpuLaunchData) (known : Job → Prop) (w : Worker k) : Prop :=
  match w.pc with
  | .add job _ => known job ∧ w.benchSize = job.benchSize
  | .save lane call _ => Calling data w lane call
  | .nextRound lane call _ => Calling data w lane call ∧ w.job.currentJob.Placed
  | _ => Counts w

structure Inv (data : CpuLaunchData) (known : Job → Prop) (w : Worker k) : Prop where
  lanes : Lanes data known w (copied data w) (stored data w)
  phase : Phase data known w

/-- Outside `save` and `nextRound`. -/
def Plain : Pc → Prop
  | .save _ _ _ | .nextRound _ _ _ => False
  | _ => True

/-- The next step is a call's `fetch_add`. -/
def fetches : Pc → Bool
  | .save _ (.pause _ _) _ | .nextRound _ (.pause _ _) _ => false
  | .save _ _ _ | .nextRound _ _ _ => true
  | _ => false

/-- What a step spends and leaves was there before or is the range it fetched. -/
structure Balanced (data : CpuLaunchData) (known : Job → Prop) (base : List UInt8 → Nat)
    (env : Environment k) (w : Worker k) (effect : Effect k) : Prop where
  inv : Inv data known effect.worker
  others : ∀ index ≠ effect.worker.job.index,
    held data base effect.worker index = held data base w index
  fetch : ∃ n : UInt32,
    effect.shared.nonces = (env.shared.fetchAdd effect.worker.job.index n).nonces ∧
    (n = 0 ∨ fetches w.pc = true ∧ n = w.count ∧ key effect.worker = key w ∧
      .reserved w.job.index w.job.currentJob.blob ∈ effect.events) ∧
    spent effect.events + held data base effect.worker effect.worker.job.index ≤
      held data base w effect.worker.job.index +
        stretch (key effect.worker) (base effect.worker.job.currentJob.blob +
          (env.shared.nonces effect.worker.job.index).toNat) n.toNat

section Lanes

variable {w w' : Worker k} {index : Fin 2} {n c d : Nat}

theorem hashes_le (data : CpuLaunchData) (job : Job) : hashes data job ≤ data.width := by
  have := data.pos
  unfold hashes
  split <;> omega

theorem lanes_self (data : CpuLaunchData) (w : Worker k) (n : Nat) :
    lanes data w n w.job.index = min n (hashes data w.job.currentJob) := by
  rw [lanes, if_pos rfl, WorkerJob.currentJob]

theorem lanes_ne (h : index ≠ w.job.index) (n : Nat) :
    lanes data w n index = hashes data (w.job.jobs index) := by
  rw [lanes, if_neg h, min_eq_right (hashes_le data _)]

theorem lanes_width (data : CpuLaunchData) (w : Worker k) (index : Fin 2) :
    lanes data w data.width index = hashes data (w.job.jobs index) := by
  rw [lanes, ite_self, min_eq_right (hashes_le data _)]

/-- The other job is as it was. -/
theorem Lanes.of_ne (h : Lanes data known w c d) (hne : index ≠ w.job.index) :
    (side w index).Holds known index (hashes data (w.job.jobs index))
      (hashes data (w.job.jobs index)) := by
  have hlanes := h index
  rwa [lanes_ne hne, lanes_ne hne] at hlanes

theorem Lanes.current (h : Lanes data known w c d) :
    (side w w.job.index).Holds known w.job.index (min c (hashes data w.job.currentJob))
      (min d (hashes data w.job.currentJob)) := by
  have hlanes := h w.job.index
  rwa [lanes_self, lanes_self] at hlanes

theorem Lanes.intro (hother : ∀ index ≠ w.job.index, (side w index).Holds known index
      (hashes data (w.job.jobs index)) (hashes data (w.job.jobs index)))
    (hcurrent : (side w w.job.index).Holds known w.job.index
      (min c (hashes data w.job.currentJob)) (min d (hashes data w.job.currentJob))) :
    Lanes data known w c d := by
  intro index
  by_cases h : index = w.job.index
  · subst h
    rwa [lanes_self, lanes_self]
  · rw [lanes_ne h, lanes_ne h]
    exact hother index h

/-- Another worker state with the same other job. -/
theorem Lanes.other (h : Lanes data known w c d) (hindex : w'.job.index = w.job.index)
    (hside : ∀ index ≠ w.job.index, side w' index = side w index) :
    ∀ index ≠ w'.job.index, (side w' index).Holds known index
      (hashes data (w'.job.jobs index)) (hashes data (w'.job.jobs index)) := by
  intro index hne
  rw [hindex] at hne
  have hjob : w'.job.jobs index = w.job.jobs index := congrArg Side.job (hside index hne)
  rw [hside index hne, hjob]
  exact h.of_ne hne

theorem held_other (data : CpuLaunchData) (base : List UInt8 → Nat) (hne : index ≠ w.job.index) :
    held data base w index = (side w index).kept index (hashes data (w.job.jobs index)) := by
  rw [held, lanes_ne hne, if_neg hne, add_zero]

theorem held_ne (hside : side w' index = side w index) (hne : index ≠ w.job.index)
    (hne' : index ≠ w'.job.index) : held data base w' index = held data base w index := by
  have hjob : w'.job.jobs index = w.job.jobs index := congrArg Side.job hside
  rw [held_other data base hne, held_other data base hne', hside, hjob]

theorem held_self (data : CpuLaunchData) (base : List UInt8 → Nat) (w : Worker k) :
    held data base w w.job.index = (side w w.job.index).kept w.job.index
      (min (stored data w) (hashes data w.job.currentJob)) + loose base w := by
  rw [held, lanes_self, if_pos rfl]

theorem side_withBlob_ne (h : index ≠ w.job.index) (m : Memory) :
    side { w with job := w.job.withBlob m } index = side w index := by
  have hnonce : (w.job.withBlob m).laneNonce index = w.job.laneNonce index :=
    funext fun lane => WorkerJob.laneNonce_withBlob_ne h m lane
  exact congrArg (Side.mk _ _ _ · _) hnonce

theorem copied_plain (h : Plain w.pc) : copied data w = data.width := by
  unfold Plain at h
  unfold copied
  split at h <;> simp_all

theorem stored_plain (h : Plain w.pc) : stored data w = data.width := by
  unfold Plain at h
  unfold stored
  split at h <;> simp_all

theorem loose_plain (h : Plain w.pc) : loose base w = 0 := by
  unfold Plain at h
  unfold loose
  split at h <;> simp_all

theorem held_plain (data : CpuLaunchData) (base : List UInt8 → Nat) (h : Plain w.pc)
    (index : Fin 2) : held data base w index =
    (side w index).kept index (hashes data (w.job.jobs index)) := by
  rw [held, stored_plain h, lanes_width, loose_plain h, ite_self, add_zero]

theorem Inv.holds_plain (h : Inv data known w) (hplain : Plain w.pc) (index : Fin 2) :
    (side w index).Holds known index (hashes data (w.job.jobs index))
      (hashes data (w.job.jobs index)) := by
  have hlanes := h.lanes index
  rwa [copied_plain hplain, stored_plain hplain, lanes_width] at hlanes

theorem Inv.of_plain (hplain : Plain w.pc) (hphase : Phase data known w)
    (h : ∀ index, (side w index).Holds known index (hashes data (w.job.jobs index))
      (hashes data (w.job.jobs index))) : Inv data known w := by
  refine ⟨fun index => ?_, hphase⟩
  rw [copied_plain hplain, stored_plain hplain, lanes_width]
  exact h index

end Lanes

section Step

variable {w : Worker k} {env : Environment k} {effect : Effect k}

/-- A step that fetches nothing. -/
theorem Balanced.quiet (hinv : Inv data known effect.worker)
    (hothers : ∀ index ≠ effect.worker.job.index,
      held data base effect.worker index = held data base w index)
    (hshared : effect.shared.nonces = env.shared.nonces)
    (hbalance : spent effect.events + held data base effect.worker effect.worker.job.index ≤
      held data base w effect.worker.job.index) : Balanced data known base env w effect := by
  refine ⟨hinv, hothers, 0, ?_, .inl rfl, ?_⟩
  · rw [hshared, Nonce.Shared.fetchAdd_zero]
  · exact hbalance.trans (le_of_eq (add_zero _).symm)

/-- A step between two points outside `save` and `nextRound` that leaves the jobs alone. -/
theorem Balanced.plain (h : Inv data known w) (hplain : Plain w.pc)
    (hplain' : Plain effect.worker.pc) (hside : ∀ index, side effect.worker index = side w index)
    (hphase : Phase data known effect.worker) (hshared : effect.shared.nonces = env.shared.nonces)
    (hspent : spent effect.events = 0) : Balanced data known base env w effect := by
  have hjob (index : Fin 2) : effect.worker.job.jobs index = w.job.jobs index :=
    congrArg Side.job (hside index)
  have hheld (index : Fin 2) : held data base effect.worker index = held data base w index := by
    rw [held_plain data base hplain, held_plain data base hplain', hside, hjob]
  refine .quiet (.of_plain hplain' hphase fun index => ?_) (fun index _ => hheld index) hshared ?_
  · rw [hside, hjob]
    exact h.holds_plain hplain index
  · rw [hspent, zero_add, hheld]

end Step

section Call

variable {w w' : Worker k} {lane c d c' d' : Nat} {counter : UInt64} {call call' : Nonce.Pc}

/-- A change to the current job's side alone. -/
theorem Lanes.replace (h : Lanes data known w c d) (hindex : w'.job.index = w.job.index)
    (hjob : w'.job.currentJob = w.job.currentJob)
    (hside : ∀ index ≠ w.job.index, side w' index = side w index)
    (hcurrent : (side w' w.job.index).Holds known w.job.index
      (min c' (hashes data w.job.currentJob)) (min d' (hashes data w.job.currentJob))) :
    Lanes data known w' c' d' := by
  refine .intro (h.other hindex hside) ?_
  rw [hindex, hjob]
  exact hcurrent

/-- A call that returns true. -/
theorem lanes_storeNonce (terms : Terms known base bench) (h : Lanes data known w c lane)
    (hc : lane < c) (hcalling : Calling data w lane call)
    (htakes : NonceReservation.Pc.takes call counter) :
    Lanes data known { w with job := w.job.storeNonce lane counter } c (lane + 1) ∧
    (side { w with job := w.job.storeNonce lane counter } w.job.index).kept w.job.index
        (min (lane + 1) (hashes data w.job.currentJob)) ≤
      (side w w.job.index).kept w.job.index (min lane (hashes data w.job.currentJob)) +
        stretch (key w) (base w.job.currentJob.blob + counter.toNat) w.count.toNat := by
  have hcurrent := h.current
  have hcount : (side w w.job.index).count = w.count.toNat := by
    rw [Side.count, Worker.count, hcalling.counts]
    rfl
  have hmask (hp : w.job.currentJob.Placed) : w.job.mask = w.job.currentJob.nonceMask :=
    (hcurrent.of_placed hp).2
  obtain ⟨hholds, hkept⟩ := Side.store
    ((w.job.storeNonce lane counter).laneNonce w.job.index) terms hcurrent hc hcount
    hcalling.fresh
    (fun hp other => WorkerJob.nonce_storeNonce hp (hmask hp) counter lane other)
    (fun hp hold => Job.Within.write hp.1
      ⟨w.job.nonce lane, word w.job.blob (w.job.nonceAt lane + 4)⟩ hold
      (hcalling.fits hp counter htakes))
  exact ⟨h.replace rfl rfl (fun index hne => side_withBlob_ne hne _) hholds, hkept⟩

/-- The blob is copied to the next lane. -/
theorem lanes_copyLane (h : Lanes data known w lane lane) :
    Lanes data known { w with job := w.job.copyLane lane } (lane + 1) lane ∧
    (side { w with job := w.job.copyLane lane } w.job.index).kept w.job.index
        (min lane (hashes data w.job.currentJob)) =
      (side w w.job.index).kept w.job.index (min lane (hashes data w.job.currentJob)) := by
  obtain ⟨hholds, hkept⟩ := Side.copy
    ((w.job.copyLane lane).laneNonce w.job.index) h.current
    fun hp other => WorkerJob.nonce_copyLane hp lane other
  exact ⟨h.replace rfl rfl (fun index hne => side_withBlob_ne hne _) hholds, hkept⟩

theorem side_grant_ne {index : Fin 2} (h : index ≠ w.job.index) (granted : Bool) :
    side (w.grant w.job.index granted) index = side w index :=
  congrArg (Side.mk _ _ _ _) (Function.update_of_ne h ..)

/-- A call that returns false. -/
theorem lanes_refuse (h : Lanes data known w c d) (d' : Nat) :
    Lanes data known (w.grant w.job.index false) c d' ∧
      ∀ n, (side (w.grant w.job.index false) w.job.index).kept w.job.index n = 0 := by
  have hgranted : (side (w.grant w.job.index false) w.job.index).granted = false :=
    Function.update_self ..
  refine ⟨h.replace rfl rfl (fun index hne => side_grant_ne hne false) ?_,
    fun n => Side.kept_of_not_granted hgranted⟩
  have hside : side (w.grant w.job.index false) w.job.index =
      { side w w.job.index with granted := false } := congrArg (Side.mk _ _ _ _) hgranted
  rw [hside]
  exact h.current.refuse _

theorem taken_takes (w : Worker k) (h : NonceReservation.Pc.takes call counter) :
    taken base w call =
      stretch (key w) (base w.job.currentJob.blob + counter.toNat) w.count.toNat := by
  rcases h with rfl | rfl <;> rfl

theorem taken_eq_zero (w : Worker k) (h : ∀ counter, ¬ NonceReservation.Pc.takes call counter) :
    taken base w call = 0 := by
  unfold taken
  split
  · exact absurd (.inl rfl) (h _)
  · exact absurd (.inr rfl) (h _)
  · rfl

/-- What a call has taken after an access is accounted for. -/
theorem taken_step (base : List UInt8 → Nat) {g g' : Nonce.Shared} (h : Lanes data known w c d) (hfits : CallFits w call)
    (hstep : call.step (w.job.args w.count) g = some (g', call')) :
    ∃ n : UInt32, g'.nonces = (g.fetchAdd w.job.index n).nonces ∧
      (n = 0 ∨ n = w.count ∧ ∀ c short, call ≠ .pause c short) ∧ CallFits w call' ∧
      taken base w call' ≤ taken base w call + stretch (key w)
        (base w.job.currentJob.blob + (g.nonces w.job.index).toNat) n.toNat := by
  obtain ⟨n, hnonces, hn, htakes⟩ := NonceReservation.call_step hstep
  refine ⟨n, hnonces, hn, fun hp counter hcounter => ?_, ?_⟩
  · rcases htakes counter hcounter with hold | ⟨-, -, hafter⟩
    · exact hfits hp counter hold
    · have hmask : w.job.mask = w.job.currentJob.nonceMask := (h.current.of_placed hp).2
      have hbits : (Nonce.effectiveMask (w.job.args w.count).mask).toNat =
          2 ^ w.job.currentJob.nonceBits - 1 := by
        change (Nonce.effectiveMask w.job.mask).toNat = _
        rw [hmask, Job.effectiveMask_nonceMask hp.1]
      have hrange := NonceReservation.afterFetch_takes hbits w.one_le_count hafter
      rw [← hmask]
      exact hrange
  · by_cases hsome : ∃ counter, NonceReservation.Pc.takes call' counter
    · obtain ⟨counter, hcounter⟩ := hsome
      rw [taken_takes w hcounter]
      rcases htakes counter hcounter with hold | ⟨rfl, rfl, -⟩
      · rw [taken_takes w hold]
        exact Multiset.le_add_right _ _
      · exact Multiset.le_add_left _ _
    · rw [taken_eq_zero w fun counter hcounter => hsome ⟨counter, hcounter⟩]
      exact Multiset.zero_le _

end Call

section Save

variable {w w' : Worker k} {env : Environment k} {effect : Effect k} {lane : Nat}
  {call : Nonce.Pc} {resume : Resume}

/-- A step that leaves the other job and the name of the current one alone. -/
theorem Balanced.current {shared : Nonce.Shared} {events : List Event}
    (hinv : Inv data known w') (hindex : w'.job.index = w.job.index)
    (hjob : w'.job.currentJob = w.job.currentJob)
    (hside : ∀ index ≠ w.job.index, side w' index = side w index) {n : UInt32}
    (hnonces : shared.nonces = (env.shared.fetchAdd w.job.index n).nonces)
    (hn : n = 0 ∨ fetches w.pc = true ∧ n = w.count ∧
      .reserved w.job.index w.job.currentJob.blob ∈ events)
    (hbalance : spent events + held data base w' w.job.index ≤ held data base w w.job.index +
      stretch (key w) (base w.job.currentJob.blob + (env.shared.nonces w.job.index).toNat)
        n.toNat) : Balanced data known base env w ⟨w', shared, events⟩ := by
  have hkey : key w' = key w := by rw [key, key, hindex, hjob]
  refine ⟨hinv, fun index hne => ?_, n, ?_, ?_, ?_⟩
  · have hne' : index ≠ w.job.index := hindex ▸ hne
    exact held_ne (hside index hne') hne' hne
  · exact hindex.symm ▸ hnonces
  · exact hn.imp_right fun ⟨hpc, hcount, hreserved⟩ => ⟨hpc, hcount, hkey, hreserved⟩
  · rw [hindex, hjob, hkey]
    exact hbalance

/-- The loop of `save` goes on, or ends. -/
theorem saved_next (v : Worker k) (h : Lanes data known w (lane + 1) (lane + 1))
    (hlane : lane < data.width)
    (hcounts : Counts w)
    (hfresh : (side w w.job.index).rounds.toNat % (side w w.job.index).count = 0)
    (hv : v = if lane + 1 < data.width then
        { w with pc := .save (lane + 1) .enter resume, job := w.job.copyLane (lane + 1) }
      else w.resume resume) :
    Inv data known v ∧ v.job.index = w.job.index ∧ v.job.currentJob = w.job.currentJob ∧
      (∀ index ≠ w.job.index, side v index = side w index) ∧
      held data base v w.job.index =
        (side w w.job.index).kept w.job.index (min (lane + 1) (hashes data w.job.currentJob)) := by
  split at hv
  case isTrue hnext =>
    subst hv
    obtain ⟨hlanes, hkept⟩ := lanes_copyLane h
    refine ⟨⟨hlanes, hnext, hcounts, hfresh, fun _ counter hc => ?_⟩, rfl, rfl,
      fun index hne => side_withBlob_ne hne _, ?_⟩
    · simp [NonceReservation.Pc.takes] at hc
    · exact (held_self ..).trans ((add_zero _).trans hkept)
  case isFalse hlast =>
    have hwidth : lane + 1 = data.width := by omega
    rw [hwidth] at h ⊢
    have hplain : Plain v.pc := by
      subst hv
      cases resume <;> trivial
    have hside (index : Fin 2) : side v index = side w index := by
      subst hv
      cases resume <;> rfl
    have hjob : v.job = w.job := by
      subst hv
      cases resume <;> rfl
    refine ⟨.of_plain hplain ?_ fun index => ?_, by rw [hjob], by rw [hjob],
      fun index _ => hside index, ?_⟩
    · subst hv
      cases resume <;> exact hcounts
    · have hholds := h index
      rw [lanes_width] at hholds
      rw [hside, hjob]
      exact hholds
    · rw [held_plain data base hplain, hside, hjob, min_eq_right (hashes_le data _)]
      rfl

theorem spent_reservation (w : Worker k) (call : Nonce.Pc) : spent (reservation w call) = 0 := by
  cases call <;> rfl

/-- A `fetch_add` is on record. -/
theorem fetches_reserved (hcall : (∃ resume, w.pc = .save lane call resume) ∨
      ∃ it, w.pc = .nextRound lane call it) (hpause : ∀ c short, call ≠ .pause c short) :
    fetches w.pc = true ∧ .reserved w.job.index w.job.currentJob.blob ∈ reservation w call := by
  rcases hcall with ⟨resume, h⟩ | ⟨it, h⟩ <;>
  · rw [h]
    cases call with
    | pause counter short => exact absurd rfl (hpause counter short)
    | _ => exact ⟨rfl, List.mem_singleton_self _⟩

theorem balanced_saveStep (terms : Terms known base bench) (h : Inv data known w)
    (hpc : w.pc = .save lane call resume)
    (hstep : saveStep data env w lane call resume = some effect) :
    Balanced data known base env w effect := by
  have hlanes : Lanes data known w (lane + 1) lane := by
    have hlanes := h.lanes
    rwa [copied, stored, hpc] at hlanes
  have hcalling : Calling data w lane call := by
    have hphase := h.phase
    rwa [Phase, hpc] at hphase
  have hheld : held data base w w.job.index = (side w w.job.index).kept w.job.index
      (min lane (hashes data w.job.currentJob)) + taken base w call := by
    rw [held_self, stored, loose, hpc]
  obtain ⟨⟨shared, call'⟩, hcall, rfl⟩ := Option.map_eq_some_iff.mp hstep
  obtain ⟨n, hnonces, hn, hfits, htaken⟩ := taken_step base hlanes hcalling.fits hcall
  have hn' : n = 0 ∨ fetches w.pc = true ∧ n = w.count ∧
      .reserved w.job.index w.job.currentJob.blob ∈ reservation w call := by
    refine hn.imp_right fun ⟨hcount, hpause⟩ => ?_
    obtain ⟨hfetches, hreserved⟩ := fetches_reserved (.inl ⟨resume, hpc⟩) hpause
    exact ⟨hfetches, hcount, hreserved⟩
  have hbalance {m : Multiset (WorkKey × Nat)} (hm : m ≤ (side w w.job.index).kept w.job.index
      (min lane (hashes data w.job.currentJob)) + taken base w call') :
      spent (reservation w call) + m ≤ held data base w w.job.index + stretch (key w)
        (base w.job.currentJob.blob + (env.shared.nonces w.job.index).toNat) n.toNat := by
    rw [spent_reservation, zero_add, hheld, add_assoc]
    exact hm.trans (add_le_add_right htaken _)
  cases call' with
  | done result =>
    cases result with
    | none =>
      obtain ⟨hrefused, hkept⟩ := lanes_refuse hlanes (lane + 1)
      obtain ⟨hinv, hindex, hjob, hside, hheld'⟩ := saved_next (w := w.grant w.job.index false)
        (w.saved data.width lane resume none) hrefused hcalling.lane hcalling.counts
        hcalling.fresh rfl
      refine .current hinv hindex hjob (fun index hne => ?_) hnonces hn' (hbalance ?_)
      · exact (hside index hne).trans (side_grant_ne hne false)
      · exact (le_of_eq (hheld'.trans (hkept _))).trans (Multiset.zero_le _)
    | some counter =>
      have htakes : NonceReservation.Pc.takes (.done (some counter)) counter := .inr rfl
      obtain ⟨hstored, hkept⟩ := lanes_storeNonce terms hlanes (Nat.lt_succ_self lane)
        { hcalling with fits := hfits } htakes
      obtain ⟨hinv, hindex, hjob, hside, hheld'⟩ := saved_next
        (w := { w with job := w.job.storeNonce lane counter })
        (w.saved data.width lane resume (some counter)) hstored hcalling.lane
        hcalling.counts hcalling.fresh rfl
      refine .current hinv hindex hjob (fun index hne => ?_) hnonces hn' (hbalance ?_)
      · exact (hside index hne).trans (side_withBlob_ne hne _)
      · exact (le_of_eq hheld').trans hkept
  | enter | fetch | pause =>
    refine .current ⟨hlanes, hcalling.lane, hcalling.counts, hcalling.fresh, hfits⟩ rfl rfl
      (fun _ _ => rfl) hnonces hn' (hbalance ?_)
    exact le_of_eq (held_self ..)

end Save

section Finish

variable {w w' : Worker k} {env : Environment k} {shared : Nonce.Shared} {it : Iteration}
  {c d : Nat}

theorem spent_append (xs ys : List Event) : spent (xs ++ ys) = spent xs + spent ys := by
  rw [spent, List.filterMap_append]
  rfl

theorem spent_eq_zero {events : List Event} (h : ∀ e ∈ events, ticket e = none) :
    spent events = 0 := congrArg _ (List.filterMap_eq_nil_iff.mpr h)

theorem spent_results (w : Worker k) (it : Iteration) : spent (w.results it) = 0 := by
  refine spent_eq_zero fun e he => ?_
  unfold Worker.results at he
  split at he
  case isFalse => cases he
  case isTrue =>
    obtain ⟨⟨nonce, lane⟩, -, he⟩ := List.mem_flatMap.mp he
    unfold Worker.compare at he
    dsimp only at he
    split_ifs at he <;> simp only [List.mem_cons, List.not_mem_nil, or_false] at he <;>
      rcases he with rfl | rfl <;> rfl

/-- The job that a worker hashes carries the index under which it is kept. -/
theorem work_index (h : Lanes data known w c d) (hp : w.job.currentJob.Placed) :
    w.job.currentJob.index = w.job.index := by
  obtain ⟨⟨job, -, hindex, heq⟩, -⟩ := h.current.of_placed hp
  have hjob : w.job.currentJob = job.setBackend .cpu := heq
  rw [hjob]
  exact hindex

/-- Signing leaves the one lane alone that RandomX hashes. -/
theorem side_begin (data : CpuLaunchData) (hrx : w.job.currentJob.algorithm.isRandomX = true) (entropy : k.Entropy) :
    (w.begin entropy).job.index = w.job.index ∧
      (∀ index ≠ w.job.index, side (w.begin entropy) index = side w index) ∧
      Side.Agrees (hashes data w.job.currentJob) (side w w.job.index)
        (side (w.begin entropy) w.job.index) := by
  have hone : hashes data w.job.currentJob = 1 := if_pos hrx
  rw [hone]
  by_cases hsig : w.job.currentJob.hasMinerSignature = true
  · have hjob : (w.begin entropy).job = w.job.sign
        (w.job.currentJob.generateMinerSignature k entropy (w.job.bytes 0)) := by
      rw [Worker.begin, if_pos hsig]
    refine ⟨by rw [hjob]; rfl, fun index hne => ?_, by rw [side, hjob]; rfl, by rw [side, hjob]; rfl,
      by rw [side, hjob]; rfl, rfl, fun hp lane hlt => ?_⟩
    · rw [side, hjob]
      exact side_withBlob_ne hne _
    · obtain rfl : lane = 0 := by omega
      rw [side, hjob]
      exact WorkerJob.nonce_sign hp _
  · have hjob : (w.begin entropy).job = w.job := by rw [Worker.begin, if_neg hsig]
    have hside (index : Fin 2) : side (w.begin entropy) index = side w index := by
      rw [side, hjob]
      rfl
    refine ⟨by rw [hjob], fun index _ => hside index, ?_⟩
    rw [hside]
    exact ⟨rfl, rfl, rfl, rfl, fun _ _ _ => rfl⟩

theorem lanes_begin (hrx : w.job.currentJob.algorithm.isRandomX = true)
    (h : Lanes data known w c d) (entropy : k.Entropy) :
    Lanes data known (w.begin entropy) c d := by
  obtain ⟨hindex, hside, hagrees⟩ := side_begin data hrx entropy
  exact h.replace hindex (w.begin_currentJob entropy) hside
    (hagrees.holds h.current (min_le_right ..) (min_le_right ..))

/-- The end of an iteration hashes what was begun. -/
theorem finish_spec (base : List UInt8 → Nat) (h : Lanes data known w data.width data.width)
    (hcounts : Counts w) (hp : w.job.currentJob.Placed) (env : Environment k) (shared : Nonce.Shared) (it : Iteration) :
    Inv data known (finish env shared w it).worker ∧
      (finish env shared w it).worker.job.index = w.job.index ∧
      (finish env shared w it).worker.job.currentJob = w.job.currentJob ∧
      (∀ index ≠ w.job.index, side (finish env shared w it).worker index = side w index) ∧
      (finish env shared w it).shared = shared ∧
      spent (finish env shared w it).events + held data base (finish env shared w it).worker
          w.job.index =
        (side w w.job.index).kept w.job.index (hashes data w.job.currentJob) + begun w it := by
  have hplain : Plain (finish env shared w it).worker.pc := by
    rw [finish_pc]
    trivial
  have hphase (hcounts' : Counts (finish env shared w it).worker) :
      Phase data known (finish env shared w it).worker := by
    rw [Phase, finish_pc]
    exact hcounts'
  unfold finish at hplain hphase ⊢
  dsimp only at hplain hphase ⊢
  split
  case isTrue hrx =>
    rw [if_pos hrx] at hplain hphase
    have hlanes := lanes_begin hrx h (env.entropy 1)
    obtain ⟨hindex, hside, hagrees⟩ := side_begin data hrx (env.entropy 1)
    have hindex : (w.next (env.entropy 1)).job.index = w.job.index := hindex
    have hjob := w.next_currentJob (env.entropy 1)
    refine ⟨.of_plain hplain (hphase (hcounts.trans (congrArg Job.benchSize hjob.symm)))
      fun index => ?_, hindex, hjob, hside, rfl, ?_⟩
    · have hholds := hlanes index
      rwa [lanes_width] at hholds
    · generalize hit : (if w.job.currentJob.hasMinerSignature = true then
        { it with saved := w.job.signature } else it) = it'
      have hnonces : it'.nonces = it.nonces := by
        subst hit
        split <;> rfl
      have hjobs : (w.next (env.entropy 1)).job.jobs w.job.index = w.job.currentJob := by
        rw [← hjob, WorkerJob.currentJob, hindex]
      have hheld := hagrees.kept le_rfl w.job.index
      have hbegun : spent ((it'.nonces.take 1).map fun nonce =>
          .hashed (w.work 0 nonce) ((w.next (env.entropy 1)).hash 0)) = begun w it := by
        rw [begun, if_pos hrx, hnonces, key, ← work_index h hp, spent, List.filterMap_map]
        exact congrArg _ (congrFun List.filterMap_eq_map _)
      rw [spent_append, spent_results, add_zero, hbegun, add_comm,
        held_plain data base hplain]
      exact congrArg (· + begun w it) ((congrArg _ (congrArg _ hjobs)).trans hheld)
  case isFalse hrx =>
    rw [if_neg hrx] at hplain hphase
    refine ⟨.of_plain hplain (hphase hcounts) fun index => ?_, rfl, rfl, fun _ _ => rfl, rfl, ?_⟩
    · have hholds := h index
      rwa [lanes_width] at hholds
    · rw [spent_results, zero_add, begun, if_neg hrx, add_zero]
      exact held_plain data base hplain _

end Finish

section NextRound

variable {w w' : Worker k} {env : Environment k} {effect : Effect k} {lane : Nat}
  {call : Nonce.Pc} {it : Iteration} {counter : UInt64}

/-- `nextRound` goes on, or the iteration ends, once a range is in place. -/
theorem advance_spec (terms : Terms known base bench) (h : Lanes data known w data.width lane)
    (hcalling : Calling data w lane call) (hp : w.job.currentJob.Placed)
    (htakes : NonceReservation.Pc.takes call counter) (env : Environment k)
    (shared : Nonce.Shared) (it : Iteration) :
    Inv data known (advance data env shared w lane counter it).worker ∧
      (advance data env shared w lane counter it).worker.job.index = w.job.index ∧
      (advance data env shared w lane counter it).worker.job.currentJob = w.job.currentJob ∧
      (∀ index ≠ w.job.index,
        side (advance data env shared w lane counter it).worker index = side w index) ∧
      (advance data env shared w lane counter it).shared = shared ∧
      spent (advance data env shared w lane counter it).events +
          held data base (advance data env shared w lane counter it).worker w.job.index ≤
        (side w w.job.index).kept w.job.index (min lane (hashes data w.job.currentJob)) +
          taken base w call + begun w it := by
  have hsync : (w.job.storeNonce lane counter).syncNonce = w.job.storeNonce lane counter :=
    WorkerJob.syncNonce_eq hp.1
  obtain ⟨hstored, hkept⟩ := lanes_storeNonce terms h hcalling.lane hcalling htakes
  rw [← taken_takes w htakes] at hkept
  unfold advance
  dsimp only
  rw [hsync, ite_self]
  split
  case isTrue hnext =>
    refine ⟨⟨hstored, ⟨hnext, hcalling.counts, hcalling.fresh, fun _ c hc => ?_⟩, hp⟩, rfl, rfl,
      fun index hne => side_withBlob_ne hne _, rfl, ?_⟩
    · simp [NonceReservation.Pc.takes] at hc
    · refine (le_of_eq ?_).trans (add_le_add_left hkept (begun w it))
      exact (zero_add _).trans ((held_self ..).trans (congrArg _ (zero_add _)))
  case isFalse hlast =>
    have hwidth : lane + 1 = data.width := by
      have := hcalling.lane
      omega
    rw [hwidth] at hstored hkept
    obtain ⟨hinv, hindex, hjob, hside, hshared, hspent⟩ := finish_spec base
      (w := { w with job := w.job.storeNonce lane counter }) hstored hcalling.counts hp env shared it
    refine ⟨hinv, hindex, hjob, fun index hne => ?_, hshared, ?_⟩
    · exact (hside index hne).trans (side_withBlob_ne hne _)
    · rw [min_eq_right (hashes_le data _)] at hkept
      exact (le_of_eq hspent).trans (add_le_add_left hkept (begun w it))

theorem balanced_nextRoundStep (terms : Terms known base bench) (h : Inv data known w)
    (hpc : w.pc = .nextRound lane call it)
    (hstep : nextRoundStep data env w lane call it = some effect) :
    Balanced data known base env w effect := by
  have hlanes : Lanes data known w data.width lane := by
    have hlanes := h.lanes
    rwa [copied, stored, hpc] at hlanes
  obtain ⟨hcalling, hp⟩ : Calling data w lane call ∧ w.job.currentJob.Placed := by
    have hphase := h.phase
    rwa [Phase, hpc] at hphase
  have hheld : held data base w w.job.index = (side w w.job.index).kept w.job.index
      (min lane (hashes data w.job.currentJob)) + (taken base w call + begun w it) := by
    rw [held_self, stored, loose, hpc]
  obtain ⟨⟨shared, call'⟩, hcall, rfl⟩ := Option.map_eq_some_iff.mp hstep
  obtain ⟨n, hnonces, hn, hfits, htaken⟩ := taken_step base hlanes hcalling.fits hcall
  have hn' (events : List Event) : n = 0 ∨ fetches w.pc = true ∧ n = w.count ∧
      .reserved w.job.index w.job.currentJob.blob ∈ reservation w call ++ events := by
    refine hn.imp_right fun ⟨hcount, hpause⟩ => ?_
    obtain ⟨hfetches, hreserved⟩ := fetches_reserved (.inr ⟨it, hpc⟩) hpause
    exact ⟨hfetches, hcount, List.mem_append_left _ hreserved⟩
  have hbalance {events : List Event} {m : Multiset (WorkKey × Nat)}
      (hm : spent events + m ≤ (side w w.job.index).kept w.job.index
        (min lane (hashes data w.job.currentJob)) + taken base w call' + begun w it) :
      spent (reservation w call ++ events) + m ≤ held data base w w.job.index + stretch (key w)
        (base w.job.currentJob.blob + (env.shared.nonces w.job.index).toNat) n.toNat := by
    rw [spent_append, spent_reservation, zero_add, hheld]
    refine hm.trans ((add_le_add_left (add_le_add_right htaken _) _).trans (le_of_eq ?_))
    abel
  cases call' with
  | done result =>
    cases result with
    | none =>
      obtain ⟨hrefused, hkept⟩ := lanes_refuse hlanes data.width
      have hplain : Plain ({ w.grant w.job.index false with pc := .leave } : Worker k).pc := trivial
      refine .current (.of_plain hplain hcalling.counts fun index => ?_) rfl rfl
        (fun index hne => side_grant_ne hne false) hnonces (hn' _) (hbalance ?_)
      · have hholds := hrefused index
        rwa [lanes_width] at hholds
      · have hnone := (held_plain data base hplain w.job.index).trans (hkept _)
        rw [hnone]
        exact Multiset.zero_le _
    | some counter =>
      obtain ⟨hinv, hindex, hjob, hside, hshared, hspent⟩ := advance_spec terms hlanes
        { hcalling with fits := hfits } hp (.inr rfl) env shared it
      refine .current hinv hindex hjob hside ?_ (hn' _) (hbalance hspent)
      rw [hshared]
      exact hnonces
  | enter | fetch | pause =>
    refine .current ⟨hlanes, ⟨hcalling.lane, hcalling.counts, hcalling.fresh, hfits⟩, hp⟩ rfl rfl
      (fun _ _ => rfl) hnonces (hn' _) (hbalance ?_)
    refine (le_of_eq ?_).trans (le_of_eq (add_assoc ..).symm)
    exact (zero_add _).trans (held_self ..)

end NextRound

section Round

variable {w w' : Worker k} {env : Environment k} {effect : Effect k} {it : Iteration}
  {c d : Nat} {index : Fin 2}

theorem side_countRound_ne (h : index ≠ w.job.index) :
    side { w with job := w.job.countRound } index = side w index := by
  have hrounds : w.job.countRound.rounds index = w.job.rounds index := Function.update_of_ne h ..
  exact congrArg (Side.mk _ _ · _ _) hrounds

theorem side_countRound (w : Worker k) : side { w with job := w.job.countRound } w.job.index =
    { side w w.job.index with rounds := (side w w.job.index).rounds + 1 } :=
  congrArg (Side.mk _ _ · _ _) (Function.update_self ..)

/-- `nextRound` either goes to a new range or moves on inside the present one. -/
theorem startRound_spec (base : List UInt8 → Nat) (h : Lanes data known w data.width data.width)
    (hcounts : Counts w) (hp : w.job.currentJob.Placed) (hgranted : w.granted w.job.index = true)
    (env : Environment k) (it : Iteration) :
    Inv data known (startRound data env w it).worker ∧
      (startRound data env w it).worker.job.index = w.job.index ∧
      (startRound data env w it).worker.job.currentJob = w.job.currentJob ∧
      (∀ index ≠ w.job.index, side (startRound data env w it).worker index = side w index) ∧
      (startRound data env w it).shared = env.shared ∧
      spent (startRound data env w it).events +
          held data base (startRound data env w it).worker w.job.index ≤
        (side w w.job.index).tails w.job.index (hashes data w.job.currentJob) + begun w it := by
  have hcurrent := h.current
  rw [min_eq_right (hashes_le data _)] at hcurrent
  have hcount : w.count.toNat = (side w w.job.index).count := by
    rw [Side.count, Worker.count, hcounts]
    rfl
  obtain ⟨j, -, hpow⟩ := (side w w.job.index).count_eq_pow
  have hround : w.job.countRound.roundOver w.count = true ↔
      ((side w w.job.index).rounds + 1).toNat % (side w w.job.index).count = 0 := by
    have hrounds : w.job.countRound.rounds w.job.countRound.index =
        (side w w.job.index).rounds + 1 := Function.update_self ..
    rw [WorkerJob.roundOver_iff (hcount.trans hpow), hrounds, hcount]
  have hside (index : Fin 2) (hne : index ≠ w.job.index) :
      side { w with job := w.job.countRound } index = side w index := side_countRound_ne hne
  unfold startRound
  dsimp only
  split
  case isTrue hover =>
    have hfresh := hround.mp hover
    refine ⟨⟨h.replace rfl rfl hside ?_, ⟨data.pos, hcounts, ?_, fun _ c hc => ?_⟩, hp⟩, rfl, rfl,
      hside, rfl, ?_⟩
    · have hholds : { side w w.job.index with
          rounds := (side w w.job.index).rounds + 1 }.Holds known w.job.index
            (min data.width (hashes data w.job.currentJob)) (min 0 (hashes data w.job.currentJob)) :=
        ⟨hcurrent.taken, hcurrent.mask, fun hp' lane hlt => hcurrent.copied hp' lane (by omega),
          fun _ _ lane hlt => by omega⟩
      rw [← side_countRound] at hholds
      exact hholds
    · have hrounds := side_countRound w
      change (side { w with job := w.job.countRound } w.job.index).rounds.toNat %
        (side { w with job := w.job.countRound } w.job.index).count = 0
      rw [hrounds]
      exact hfresh
    · simp [NonceReservation.Pc.takes] at hc
    · refine (le_of_eq ?_).trans (Multiset.le_add_left _ _)
      refine (zero_add _).trans ((held_self ..).trans ?_)
      have hzero : min 0 (hashes data w.job.currentJob) = 0 := Nat.zero_min _
      have hkept := (congrArg (Side.kept (side { w with job := w.job.countRound } w.job.index)
        w.job.index) hzero).trans (Side.kept_zero _ _)
      exact (congrArg₂ (· + ·) hkept (zero_add _)).trans (zero_add _)
  case isFalse hinside =>
    have hround' : ((side w w.job.index).rounds + 1).toNat % (side w w.job.index).count ≠ 0 :=
      fun hzero => hinside (hround.mpr hzero)
    obtain ⟨hholds, hkept⟩ := Side.bump
      ((w.job.countRound.bump 1 data.width).laneNonce w.job.index) hcurrent hgranted hp hround'
      fun lane hlane => WorkerJob.nonce_bump (w := w.job.countRound) hp 1
        (hlane.trans_le (hashes_le data _))
    have hbumped : side { w with job := w.job.countRound.bump 1 data.width } w.job.index =
        { side w w.job.index with
          rounds := (side w w.job.index).rounds + 1
          nonce := (w.job.countRound.bump 1 data.width).laneNonce w.job.index } :=
      congrArg (Side.mk _ _ · _ _) (Function.update_self ..)
    rw [← hbumped] at hholds hkept
    have hside' (index : Fin 2) (hne : index ≠ w.job.index) :
        side { w with job := w.job.countRound.bump 1 data.width } index = side w index :=
      (side_withBlob_ne (w := { w with job := w.job.countRound }) hne _).trans (hside index hne)
    have hlanes : Lanes data known { w with job := w.job.countRound.bump 1 data.width }
        data.width data.width := by
      refine h.replace rfl rfl hside' ?_
      rw [min_eq_right (hashes_le data _)]
      exact hholds
    obtain ⟨hinv, hindex, hjob, hsides, hshared, hspent⟩ := finish_spec base hlanes hcounts hp env
      env.shared it
    refine ⟨hinv, hindex, hjob, fun index hne => (hsides index hne).trans (hside' index hne),
      hshared, le_of_eq (hspent.trans ?_)⟩
    exact congrArg (· + begun w it) hkept

/-- The hashing spends the present nonces, or a first RandomX half begins one. -/
theorem compute_spec (h : Lanes data known w c d) (hp : w.job.currentJob.Placed)
    (hnonces : it.nonces = (List.range data.width).map w.job.nonce) (env : Environment k) :
    Lanes data known (compute data env w it).1 c d ∧
      (compute data env w it).1.job.index = w.job.index ∧
      (compute data env w it).1.job.currentJob = w.job.currentJob ∧
      (compute data env w it).1.benchSize = w.benchSize ∧
      (compute data env w it).1.granted = w.granted ∧
      (∀ index ≠ w.job.index, side (compute data env w it).1 index = side w index) ∧
      Side.Agrees (hashes data w.job.currentJob) (side w w.job.index)
        (side (compute data env w it).1 w.job.index) ∧
      spent (compute data env w it).2 + begun (compute data env w it).1 it ≤
        (side w w.job.index).heads w.job.index (hashes data w.job.currentJob) := by
  have hindex := work_index h hp
  have hsame (v : Worker k) (hv : side v = side w) : Side.Agrees (hashes data w.job.currentJob)
      (side w w.job.index) (side v w.job.index) := by
    rw [hv]
    exact ⟨rfl, rfl, rfl, rfl, fun _ _ _ => rfl⟩
  have hfirst (v : Worker k) (hindex' : v.job.index = w.job.index)
      (hjob : v.job.currentJob = w.job.currentJob)
      (hrx : w.job.currentJob.algorithm.isRandomX = true) : begun v it =
        (side w w.job.index).heads w.job.index (hashes data w.job.currentJob) := by
    have hone : hashes data w.job.currentJob = 1 := if_pos hrx
    have htake : it.nonces.take 1 = [w.job.nonce 0] := by
      obtain ⟨n, hn⟩ := Nat.exists_eq_add_of_le' data.pos
      rw [hnonces, hn, List.range_succ_eq_map]
      rfl
    rw [begun, hjob, if_pos hrx, htake, hone, key, hindex', hjob]
    rfl
  unfold compute
  split
  case isTrue hrx =>
    split
    case isTrue =>
      have hjob := w.begin_currentJob (env.entropy 0)
      obtain ⟨hbegin, hside, hagrees⟩ := side_begin data hrx (env.entropy 0)
      refine ⟨lanes_begin hrx h _, hbegin, hjob, rfl, rfl, hside, hagrees, ?_⟩
      rw [hfirst _ hbegin hjob hrx, spent_eq_zero (List.forall_mem_map.mpr fun _ _ => rfl), zero_add]
    case isFalse =>
      refine ⟨h, rfl, rfl, rfl, rfl, fun _ _ => rfl, hsame w rfl, ?_⟩
      exact (zero_add _).trans_le (le_of_eq (hfirst w rfl rfl hrx))
  case isFalse hrx =>
    have hwidth : hashes data w.job.currentJob = data.width := if_neg hrx
    split
    case isTrue =>
      refine ⟨h, rfl, rfl, rfl, rfl, fun _ _ => rfl, hsame _ rfl, ?_⟩
      have hnone : begun (w.hashAll data.width) it = 0 := if_neg hrx
      have hspent : (it.nonces.zipIdx.map fun p => Event.hashed (w.work p.2 p.1)
          ((w.hashAll data.width).hash p.2)).filterMap ticket =
          (List.range data.width).map fun lane =>
            ((w.job.index, w.job.currentJob.blob), (w.job.nonce lane).toNat) := by
        calc (it.nonces.zipIdx.map fun p => Event.hashed (w.work p.2 p.1)
              ((w.hashAll data.width).hash p.2)).filterMap ticket
            = (it.nonces.zipIdx.map Prod.fst).map fun nonce =>
                ((w.job.index, w.job.currentJob.blob), nonce.toNat) := by
              rw [List.filterMap_map, List.map_map, ← hindex]
              exact congrFun List.filterMap_eq_map _
          _ = _ := by rw [List.zipIdx_map_fst, hnonces, List.map_map]; rfl
      rw [hnone, add_zero, hwidth]
      exact le_of_eq (congrArg _ hspent)
    case isFalse =>
      refine ⟨h, rfl, rfl, rfl, rfl, fun _ _ => rfl, hsame w rfl, ?_⟩
      have hnone : begun w it = 0 := if_neg hrx
      rw [hnone]
      exact Multiset.zero_le _

end Round

section Body

variable {w w' : Worker k} {env : Environment k} {effect : Effect k} {it : Iteration} {c d : Nat}

/-- Only a job that came from the miner has the memory of the worker's algorithm. -/
theorem placed_of_l3 (terms : Terms known base bench) (h : Lanes data known w c d)
    (hl3 : w.job.currentJob.algorithm.l3 = data.algorithm.l3) : w.job.currentJob.Placed := by
  obtain ⟨hsize, hvalid⟩ := data.of_l3 hl3
  have hne (job : Job) (heq : w.job.currentJob = job.setBackend .cpu) : job ≠ {} := by
    rintro rfl
    exact hvalid (congrArg Job.algorithm heq)
  rcases h.current.taken with heq | ⟨job, hjob, -, heq⟩
  · exact absurd rfl (hne {} heq)
  · have hplaced := ((terms.accepted job hjob).resolve_left (hne job heq)).placed
    have hjobs : w.job.currentJob = job.setBackend .cpu := heq
    have hsize' : job.nonceSize = 4 := by
      rw [hjobs] at hsize
      exact hsize
    rw [hsize'] at hplaced
    rw [hjobs]
    exact ⟨hsize', hplaced⟩

theorem side_mix (w : Worker k) (data : UInt64) (index : Fin 2) :
    side { w with job := w.job.mix data } index = side w index := by
  by_cases h : index = w.job.index
  · subst h
    have hnonce : (w.job.mix data).laneNonce w.job.index = w.job.laneNonce w.job.index :=
      funext fun lane => WorkerJob.nonce_mix data lane
    exact congrArg (Side.mk _ _ _ · _) hnonce
  · exact side_withBlob_ne h _

/-- The hashing with the `nextRound` that follows. -/
theorem hash_spec (base : List UInt8 → Nat) (h : Lanes data known w data.width data.width)
    (hcounts : Counts w) (hp : w.job.currentJob.Placed) (hgranted : w.granted w.job.index = true)
    (hnonces : it.nonces = (List.range data.width).map w.job.nonce) (env : Environment k) :
    Inv data known (startRound data env (compute data env w it).1 it).worker ∧
      (startRound data env (compute data env w it).1 it).worker.job.index = w.job.index ∧
      (startRound data env (compute data env w it).1 it).worker.job.currentJob =
        w.job.currentJob ∧
      (∀ index ≠ w.job.index,
        side (startRound data env (compute data env w it).1 it).worker index = side w index) ∧
      (startRound data env (compute data env w it).1 it).shared = env.shared ∧
      spent ((compute data env w it).2 ++ (startRound data env (compute data env w it).1 it).events) +
          held data base (startRound data env (compute data env w it).1 it).worker w.job.index ≤
        (side w w.job.index).kept w.job.index (hashes data w.job.currentJob) := by
  obtain ⟨hcomputed, hindex, hjob, hsize, hgrant, hside, hagrees, hspent⟩ :=
    compute_spec h hp hnonces env
  obtain ⟨hinv, hindex', hjob', hside', hshared, hleft⟩ := startRound_spec base hcomputed
    (hsize.trans (hcounts.trans (congrArg _ hjob.symm))) (hjob.symm ▸ hp)
    (by rw [hgrant, hindex]; exact hgranted) env it
  rw [hindex, hjob, hagrees.tails hp] at hleft
  refine ⟨hinv, hindex'.trans hindex, hjob'.trans hjob, fun index hne => ?_, hshared, ?_⟩
  · rw [hside' index (by rwa [hindex]), hside index hne]
  · rw [Side.kept_eq_heads_add hgranted hp, spent_append, add_assoc]
    calc _ ≤ spent (compute data env w it).2 +
          ((side w w.job.index).tails w.job.index (hashes data w.job.currentJob) +
            begun (compute data env w it).1 it) := add_le_add_right hleft _
      _ = spent (compute data env w it).2 + begun (compute data env w it).1 it +
          (side w w.job.index).tails w.job.index (hashes data w.job.currentJob) := by abel
      _ ≤ _ := add_le_add_left hspent _

theorem balanced_body (terms : Terms known base bench) (h : Inv data known w)
    (hpc : w.pc = .iterate) (hl3 : w.job.currentJob.algorithm.l3 = data.algorithm.l3)
    (hgranted : w.granted w.job.index = true) : Balanced data known base env w (body data env w) := by
  have hplain : Plain w.pc := hpc ▸ trivial
  have hcounts : Counts w := by
    have hphase := h.phase
    rwa [Phase, hpc] at hphase
  have hlanes : Lanes data known w data.width data.width := by
    have hlanes := h.lanes
    rwa [copied_plain hplain, stored_plain hplain] at hlanes
  have hp := placed_of_l3 terms hlanes hl3
  unfold body
  dsimp only
  split
  case isTrue => exact .plain h hplain trivial (fun _ => rfl) hcounts rfl rfl
  case isFalse =>
    generalize hmixed : (if (w.benchSize != 0 && data.threads == 1) = true then
      { w with job := w.job.mix env.benchData } else w) = v
    generalize hit : (⟨(List.range data.width).map w.job.nonce, _, env.stack⟩ : Iteration) = it
    obtain ⟨hindex, hjob, hside, hsize, hgrant⟩ : v.job.index = w.job.index ∧
        v.job.currentJob = w.job.currentJob ∧ (∀ index, side v index = side w index) ∧
        v.benchSize = w.benchSize ∧ v.granted = w.granted := by
      subst hmixed
      split
      · exact ⟨rfl, rfl, side_mix w env.benchData, rfl, rfl⟩
      · exact ⟨rfl, rfl, fun _ => rfl, rfl, rfl⟩
    have hlanes' : Lanes data known v data.width data.width := by
      refine hlanes.replace hindex hjob (fun index _ => hside index) ?_
      rw [hside]
      exact hlanes.current
    have hnonces : it.nonces = (List.range data.width).map v.job.nonce := by
      have hnonce : v.job.laneNonce v.job.index = w.job.laneNonce w.job.index :=
        hindex ▸ congrArg Side.nonce (hside w.job.index)
      subst hit
      exact congrArg (List.map · _) hnonce.symm
    obtain ⟨hinv, hindex', hjob', hside', hshared, hspent⟩ := hash_spec base hlanes'
      (hsize.trans (hcounts.trans (congrArg _ hjob.symm))) (hjob.symm ▸ hp)
      (by rw [hgrant, hindex]; exact hgranted) hnonces env
    refine .current hinv (hindex'.trans hindex) (hjob'.trans hjob) (fun index hne => ?_)
      (n := 0) ?_ (.inl rfl) ?_
    · rw [hside' index (by rwa [hindex]), hside]
    · rw [Nonce.Shared.fetchAdd_zero]
      exact congrArg _ hshared
    · rw [hindex, hside, hjob] at hspent
      rw [held_plain data base hplain]
      exact hspent.trans (Multiset.le_add_right _ _)

end Body

section Step

variable {w w' : Worker k} {env : Environment k} {effect : Effect k}

/-- A worker that keeps a job keeps its ranges and the size of its reservations. -/
theorem keep_spec (terms : Terms known base bench) (h : Lanes data known w data.width data.width)
    {job : Job} (hjob : known job) {kept : WorkerJob} (hkept : w.job.keep job = some kept) :
    kept.currentJob.benchSize = job.benchSize ∧
      ∀ index, side { w with job := kept } index = side w index := by
  have hbench (index : Fin 2) (hblob : (w.job.jobs index).blob = job.blob) :
      (w.job.jobs index).benchSize = job.benchSize := by
    have hsize := (h index).benchSize_eq terms
    rw [terms.benchSize job hjob, ← hblob]
    exact hsize
  unfold WorkerJob.keep at hkept
  split_ifs at hkept with hequal hback
  · cases hkept
    simp only [Job.isEqual, Job.isEqualBlob, Bool.and_eq_true, beq_iff_eq] at hequal
    exact ⟨hbench _ hequal.1.2, fun _ => rfl⟩
  · cases hkept
    have hequal := hback.2.2
    simp only [Job.isEqual, Job.isEqualBlob, Bool.and_eq_true, beq_iff_eq] at hequal
    exact ⟨hbench 0 hequal.1.2.symm, fun _ => rfl⟩

/-- `save` starts with no range at all. -/
theorem lanes_select (h : ∀ index, (side w index).Holds known index
      (hashes data (w.job.jobs index)) (hashes data (w.job.jobs index)))
    {job : Job} (hjob : known job) :
    Lanes data known { w.grant job.index true with job := w.job.select job } 0 0 ∧
      ∀ index ≠ job.index,
        side { w.grant job.index true with job := w.job.select job } index = side w index := by
  have hside (index : Fin 2) (hne : index ≠ job.index) :
      side { w.grant job.index true with job := w.job.select job } index = side w index := by
    have hjobs : (w.job.select job).jobs index = w.job.jobs index := Function.update_of_ne hne ..
    have hrounds : (w.job.select job).rounds index = w.job.rounds index :=
      Function.update_of_ne hne ..
    have hmask : (w.job.select job).nonceMask index = w.job.nonceMask index :=
      Function.update_of_ne hne ..
    have hgranted : (w.grant job.index true).granted index = w.granted index :=
      Function.update_of_ne hne ..
    have hnonce : (w.job.select job).laneNonce index = w.job.laneNonce index := by
      funext lane
      unfold WorkerJob.laneNonce
      rw [hjobs]
      rfl
    simp only [side, hjobs, hrounds, hmask, hgranted, hnonce]
  refine ⟨.intro (fun index hne => ?_) ⟨.inr ⟨job, hjob, rfl, ?_⟩, .inr ?_, ?_, ?_⟩, hside⟩
  · have hjobs : (w.job.select job).jobs index = w.job.jobs index := Function.update_of_ne hne ..
    rw [hside index hne]
    exact hjobs.symm ▸ h index
  · exact Function.update_self ..
  · have hjobs : (w.job.select job).jobs job.index = job.setBackend .cpu := Function.update_self ..
    have hmask : (w.job.select job).nonceMask job.index = job.nonceMask := Function.update_self ..
    change (w.job.select job).nonceMask job.index = ((w.job.select job).jobs job.index).nonceMask
    rw [hjobs, hmask]
    rfl
  · exact fun _ lane hlt => by omega
  · exact fun _ _ lane hlt => by omega

theorem select_spec (base : List UInt8 → Nat)
    (h : ∀ index, (side w index).Holds known index (hashes data (w.job.jobs index))
      (hashes data (w.job.jobs index)))
    {job : Job} (hjob : known job) (hbench : w.benchSize = job.benchSize) (resume : Resume) :
    Inv data known { w.grant job.index true with
        pc := .save 0 .enter resume
        job := (w.job.select job).copyLane 0
        batch := w.batch + 1 } ∧
      (∀ index ≠ job.index, held data base { w.grant job.index true with
          pc := .save 0 .enter resume
          job := (w.job.select job).copyLane 0
          batch := w.batch + 1 } index =
        (side w index).kept index (hashes data (w.job.jobs index))) ∧
      held data base { w.grant job.index true with
        pc := .save 0 .enter resume
        job := (w.job.select job).copyLane 0
        batch := w.batch + 1 } job.index = 0 := by
  obtain ⟨hselect, hside⟩ := lanes_select h hjob
  obtain ⟨hcopied, hkept⟩ := lanes_copyLane hselect
  have hrounds : (w.job.select job).rounds job.index = 0 := Function.update_self ..
  have hcurrent : (w.job.select job).currentJob = job.setBackend .cpu := Function.update_self ..
  refine ⟨⟨hcopied, data.pos, ?_, ?_, fun _ c hc => ?_⟩, fun index hne => ?_, ?_⟩
  · change w.benchSize = (w.job.select job).currentJob.benchSize
    rw [hcurrent]
    exact hbench
  · have hzero : ((w.job.select job).rounds job.index).toNat = 0 := by rw [hrounds]; rfl
    exact (congrArg (· % _) hzero).trans (Nat.zero_mod _)
  · simp [NonceReservation.Pc.takes] at hc
  · have hjobs : (w.job.select job).jobs index = w.job.jobs index := Function.update_of_ne hne ..
    have hsides : side { w.grant job.index true with job := (w.job.select job).copyLane 0 } index =
        side w index :=
      (side_withBlob_ne (w := { w.grant job.index true with job := w.job.select job })
        hne _).trans (hside index hne)
    exact (held_other data base hne).trans
      (congrArg₂ (fun s n => Side.kept s index n) hsides (congrArg (hashes data) hjobs))
  · refine (held_self ..).trans ((add_zero _).trans (hkept.trans ?_))
    exact (congrArg (Side.kept _ _) (Nat.zero_min _)).trans (Side.kept_zero _ _)

theorem balanced_add (terms : Terms known base bench) (h : Inv data known w) {job : Job}
    {resume : Resume} (hpc : w.pc = .add job resume) (sequence : UInt64) :
    Balanced data known base env w (quiet env (w.add job sequence resume)) := by
  have hplain : Plain w.pc := hpc ▸ trivial
  obtain ⟨hjob, hbench⟩ : known job ∧ w.benchSize = job.benchSize := by
    have hphase := h.phase
    rwa [Phase, hpc] at hphase
  have hlanes : Lanes data known w data.width data.width := by
    have hlanes := h.lanes
    rwa [copied_plain hplain, stored_plain hplain] at hlanes
  unfold Worker.add quiet
  dsimp only
  split
  case h_1 kept hkept =>
    have hlanes' : Lanes data known { w with job := { w.job with sequence } } data.width
        data.width := hlanes
    obtain ⟨hsize, hsides⟩ := keep_spec terms hlanes' hjob hkept
    have hside (index : Fin 2) :
        side (Worker.resume { w with job := kept } resume) index = side w index := by
      cases resume <;> exact hsides index
    have hcounts : w.benchSize = kept.currentJob.benchSize := hbench.trans hsize.symm
    refine .plain h hplain ?_ hside ?_ rfl rfl <;> cases resume
    · trivial
    · trivial
    · exact hcounts
    · exact hcounts
  case h_2 =>
    obtain ⟨hinv, hothers, hnone⟩ := select_spec base (w := { w with job := { w.job with sequence } })
      (h.holds_plain hplain) hjob hbench resume
    refine .quiet hinv (fun index hne => ?_) rfl ?_
    · exact (hothers index hne).trans (held_plain data base hplain index).symm
    · exact (zero_add _).trans_le ((le_of_eq hnone).trans (Multiset.zero_le _))

/-- A worker that hashes only what was granted makes no ticket of its own. -/
theorem balanced_step (terms : Terms known base bench) (h : Inv data known w)
    (hgranted : Enters data env w → w.granted w.job.index = true) (hjob : known env.job)
    (hstep : step data env w = some effect) : Balanced data known base env w effect := by
  have hphase := h.phase
  unfold Phase at hphase
  unfold step at hstep
  dsimp only at hstep
  cases hpc : w.pc <;> simp only [hpc] at hphase hstep
  case pausedTest =>
    split at hstep <;> cases hstep <;>
      exact .plain h (hpc ▸ trivial) trivial (fun _ => rfl) hphase rfl rfl
  case consume resume =>
    split at hstep <;> cases hstep <;> cases resume <;>
      exact .plain h (hpc ▸ trivial) trivial (fun _ => rfl) hphase rfl rfl
  case load resume =>
    cases hstep
    exact .plain h (hpc ▸ trivial) trivial (fun _ => rfl) ⟨hjob, rfl⟩ rfl rfl
  case add job resume =>
    cases hstep
    exact balanced_add terms h hpc _
  case save lane call resume => exact balanced_saveStep terms h hpc hstep
  case iterate =>
    cases hstep
    unfold iterate
    split
    case isTrue => exact .plain h (hpc ▸ trivial) trivial (fun _ => rfl) hphase rfl rfl
    case isFalse hcurrent =>
      split
      case isTrue => exact .plain h (hpc ▸ trivial) trivial (fun _ => rfl) hphase rfl rfl
      case isFalse hl3 =>
        have hl3 := not_not.mp hl3
        exact balanced_body terms h hpc hl3 (hgranted ⟨hpc, Bool.of_not_eq_true hcurrent, hl3⟩)
  case nextRound lane call it => exact balanced_nextRoundStep terms h hpc hstep
  case returned => cases hstep
  -- the other steps only move on
  all_goals
    split at hstep <;> cases hstep <;>
      exact .plain h (hpc ▸ trivial) trivial (fun _ => rfl) hphase rfl rfl

theorem inv_launch (base : List UInt8 → Nat) (blob : Memory) (hash : Nat → Hash) (vm : k.Vm) :
    Inv data known (launch blob hash vm) ∧
      ∀ index, held data base (launch blob hash vm : Worker k) index = 0 := by
  have hplain : Plain (launch blob hash vm : Worker k).pc := trivial
  refine ⟨.of_plain hplain rfl fun index => ⟨.inl rfl, .inl rfl, fun hp => ?_, nofun⟩, fun index => ?_⟩
  · exact absurd hp (show ¬ ({} : Job).Placed by decide)
  · rw [held_plain data base hplain]
    exact Side.kept_of_not_granted rfl

end Step

end VeloxHash.NonceTickets
