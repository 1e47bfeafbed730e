import VeloxHash.Benchmark

/-! Where the nonces of a benchmark are. Every nonce below the size is fetched once and then
either counted or with one worker; a worker returns only when it has none left. -/

namespace VeloxHash.Benchmark

open TransitionSystem CpuWorker

section Call

theorem afterFetch_args (c : UInt64) : Nonce.Pc.afterFetch args c =
    if 2 ^ 32 ≤ c.toNat then .done none
    else if c.toNat = 2 ^ 32 - 1 then .pause c false
    else .done (some c) := by
  have hmask : Nonce.effectiveMask args.mask = 0xFFFFFFFF := by decide
  have hcount : args.reserveCount = 1 := by decide
  have hzero : (1 : UInt32) - 1 = 0 := by decide
  have hword : (0 : UInt32).toUInt64 = 0 := rfl
  have hbeyond : (0xFFFFFFFF : UInt64) < c ↔ 2 ^ 32 ≤ c.toNat := by
    rw [UInt64.lt_iff_toNat_lt]
    exact Nat.lt_iff_add_one_le
  unfold Nonce.Pc.afterFetch Nonce.examine
  rw [hmask, hcount, hzero, hword]
  by_cases hlarge : 2 ^ 32 ≤ c.toNat
  · rw [if_pos hlarge, if_pos (hbeyond.mpr hlarge)]
  · have hroom : ((0xFFFFFFFF : UInt64) - c).toNat = 2 ^ 32 - 1 - c.toNat :=
      Nonce.toNat_room fun h => hlarge (hbeyond.mp h)
    have hlast : (0xFFFFFFFF : UInt64) - c ≤ 0 ↔ c.toNat = 2 ^ 32 - 1 := by
      rw [UInt64.le_iff_toNat_le, hroom, UInt64.toNat_zero]
      omega
    rw [if_neg hlarge, if_neg fun h => hlarge (hbeyond.mp h)]
    by_cases hc : c.toNat = 2 ^ 32 - 1
    · rw [if_pos hc, if_pos (hlast.mpr hc), if_neg UInt64.not_lt_zero]
    · rw [if_neg hc, if_neg fun h => hc (hlast.mp h), if_neg UInt32.not_lt_zero]

/-- The write replaces the whole nonce. -/
theorem write_lo (c : UInt64) (n : UInt32) (h : c.toNat < 2 ^ 32) :
    (Nonce.write (Nonce.effectiveMask args.mask) c ⟨n, 0⟩).lo = c.toUInt32 := by
  have hmask : (Nonce.effectiveMask args.mask).toNat = 2 ^ 32 - 1 := by decide
  have hmod : c.toUInt32.toNat = c.toNat := by
    rw [UInt64.toNat_toUInt32, Nat.mod_eq_of_lt h]
  apply UInt32.toNat_inj.mp
  rw [hmod]
  apply Nat.eq_of_testBit_eq
  intro j
  by_cases hj : j < 32
  · rw [Nonce.write_lo_testBit hmask _ hj]
    simp [hj]
  · have hpow : 2 ^ 32 ≤ 2 ^ j := Nat.pow_le_pow_right (by norm_num) (Nat.not_lt.mp hj)
    rw [Nat.testBit_lt_two_pow ((UInt32.toNat_lt _).trans_le hpow),
      Nat.testBit_lt_two_pow (h.trans_le hpow)]

variable {g g' : Nonce.Shared} {call call' : Nonce.Pc}

/-- Where a call stands between two of its accesses: before its fetch, or about to pause with
the last nonce of all. -/
inductive Calling (c : Nat) : Nonce.Pc → Prop
  | enter : Calling c .enter
  | last {v : UInt64} (hv : v.toNat = 2 ^ 32 - 1) (hc : 2 ^ 32 ≤ c) : Calling c (.pause v false)

/-- The nonce that a call has fetched and not yet written. -/
def held : Nonce.Pc → List UInt32
  | .pause v _ => [v.toUInt32]
  | _ => []

/-- A call fetches a nonce, finds none left, or comes back with the last one. -/
theorem call_step {c : Nat} (h : Calling c call) (hc : (g.nonces 0).toNat = c)
    (hwrap : call = .enter → c + 1 < 2 ^ 64) (hstep : call.step args g = some (g', call')) :
    call = .enter ∧ (g'.nonces 0).toNat = c + 1 ∧ (2 ^ 32 ≤ c ∧ call' = .done none ∨
      c = 2 ^ 32 - 1 ∧ call' = .pause (g.nonces 0) false ∨
      c < 2 ^ 32 - 1 ∧ call' = .done (some (g.nonces 0))) ∨
    ∃ v : UInt64, call = .pause v false ∧ v.toNat = 2 ^ 32 - 1 ∧ g' = g.pause true ∧
      call' = .done (some v) := by
  cases h with
  | enter =>
    obtain ⟨rfl, rfl⟩ := Prod.mk.inj (Option.some.inj hstep)
    refine .inl ⟨rfl, ?_, ?_⟩
    · change ((g.fetchAdd 0 1).nonces 0).toNat = _
      rw [Nonce.Shared.fetchAdd_nonces_self, UInt64.toNat_add, hc]
      exact Nat.mod_eq_of_lt (hwrap rfl)
    · change 2 ^ 32 ≤ c ∧ Nonce.Pc.afterFetch args (g.nonces 0) = _ ∨
        c = 2 ^ 32 - 1 ∧ Nonce.Pc.afterFetch args (g.nonces 0) = _ ∨
        c < 2 ^ 32 - 1 ∧ Nonce.Pc.afterFetch args (g.nonces 0) = _
      rw [afterFetch_args, hc]
      by_cases hlarge : 2 ^ 32 ≤ c
      · exact .inl ⟨hlarge, if_pos hlarge⟩
      · rw [if_neg hlarge]
        by_cases hlast : c = 2 ^ 32 - 1
        · exact .inr (.inl ⟨hlast, if_pos hlast⟩)
        · exact .inr (.inr ⟨by omega, if_neg hlast⟩)
  | last hv _ =>
    obtain ⟨rfl, rfl⟩ := Prod.mk.inj (Option.some.inj hstep)
    exact .inr ⟨_, rfl, hv, rfl, rfl⟩

end Call

section Tickets

variable {x : Setup} {w w' : Worker} {t : List UInt32} {c c' : Nat}

/-- The nonces that a worker has fetched and whose words it has not added yet. -/
def tickets (w : Worker) : List UInt32 :=
  match w.pc with
  | .save lane call _ => w.nonces.take lane ++ held call
  | .nextRound lane call => w.nonces.take lane ++ held call ++ w.current
  | .addResult lane => w.nonces ++ w.current.drop lane
  | _ => if w.saved then w.nonces else []

/-- The nonce of the first lane is the smallest of a round. -/
def Leads (nonces : List UInt32) (lanes : Nat) : Prop :=
  ∀ n ∈ nonces.take lanes, nonces.headD 0 ≤ n

/-- Before `nextRound` and after it: the hashes are, or will be, those of `current`. -/
def Hashed (x : Setup) (w : Worker) : Prop :=
  if x.randomX then w.first = false ∧ w.begun = w.current.headD 0 else w.hash = w.current.map x.word

def Phase (x : Setup) (c : Nat) (w : Worker) : Prop :=
  match w.pc with
  | .save lane call _ => w.saved ∧ lane < x.lanes ∧ Calling c call ∧ Leads w.nonces lane
  | .nextRound lane call =>
    w.saved ∧ lane < x.lanes ∧ Calling c call ∧ Leads w.nonces lane ∧ Hashed x w ∧
      w.current.length = x.lanes ∧ Leads w.current x.lanes ∧ (lane = 0 → w.current = w.nonces)
  | .addResult lane =>
    w.saved ∧ lane < x.lanes ∧ w.current.length = x.lanes ∧ w.hash = w.current.map x.word ∧
      Leads w.nonces x.lanes ∧ (x.randomX → w.first = false ∧ w.begun = w.nonces.headD 0)
  | .iterate =>
    (w.saved → Leads w.nonces x.lanes) ∧
      (x.randomX → w.first = false → w.begun = w.nonces.headD 0)
  | .done | .finished => w.saved ∧ Leads w.nonces x.lanes ∧ x.size ≤ w.nonces.headD 0
  | _ => w.saved → Leads w.nonces x.lanes

/-- A worker all of whose lanes have nonces of their own. -/
structure Live (x : Setup) (c : Nat) (w : Worker) : Prop where
  length : w.nonces.length = x.lanes
  below : ∀ n ∈ tickets w, n.toNat < c
  phase : Phase x c w

/-- A worker that found no nonce left for some lane. It adds nothing any more, and returns only
if nothing it holds counts. -/
structure Dead (x : Setup) (c : Nat) (w : Worker) (t : List UInt32) : Prop where
  exhausted : 2 ^ 32 ≤ c
  saved : w.saved
  safe : x.size ≤ w.nonces.headD 0 → ∀ n ∈ t, x.size ≤ n
  phase : match w.pc with
    | .save _ call _ => call = .enter
    | .nextRound lane call => lane = 0 ∧ call = .enter
    | .addResult _ => False
    | .done | .finished => x.size ≤ w.nonces.headD 0
    | _ => True

def Owns (x : Setup) (c : Nat) (w : Worker) (t : List UInt32) : Prop :=
  Live x c w ∧ t = tickets w ∨ Dead x c w t

theorem Calling.mono {call : Nonce.Pc} (h : Calling c call) (hc : c ≤ c') : Calling c' call := by
  cases h with
  | enter => exact .enter
  | last hv hlarge => exact .last hv (hlarge.trans hc)

theorem Owns.mono (h : Owns x c w t) (hc : c ≤ c') : Owns x c' w t := by
  rcases h with ⟨hlive, ht⟩ | hdead
  · refine .inl ⟨⟨hlive.length, fun n hn => (hlive.below n hn).trans_le hc, ?_⟩, ht⟩
    have hphase := hlive.phase
    unfold Phase at hphase ⊢
    split
    case h_1 hpc =>
      rw [hpc] at hphase
      exact ⟨hphase.1, hphase.2.1, hphase.2.2.1.mono hc, hphase.2.2.2⟩
    case h_2 hpc =>
      rw [hpc] at hphase
      exact ⟨hphase.1, hphase.2.1, hphase.2.2.1.mono hc, hphase.2.2.2⟩
    all_goals simpa only [*] using hphase
  · exact .inr ⟨hdead.exhausted.trans hc, hdead.saved, hdead.safe, hdead.phase⟩

/-- A worker that is done holds nothing that counts, and all that counts is fetched. -/
theorem Owns.finished (h : Owns x c w t) (hpc : w.pc = .finished) :
    (∀ n ∈ t, x.size ≤ n) ∧ x.size.toNat ≤ c := by
  rcases h with ⟨hlive, rfl⟩ | hdead
  · have hphase := hlive.phase
    have hlength := hlive.length
    unfold Phase at hphase
    simp only [hpc] at hphase
    obtain ⟨hsaved, hleads, hsize⟩ := hphase
    have htickets : tickets w = w.nonces := by
      unfold tickets
      rw [hpc]
      exact if_pos hsaved
    have hpos := x.lanes_pos
    have hhead : w.nonces.headD 0 ∈ w.nonces := by
      cases hnonces : w.nonces with
      | nil =>
        rw [hnonces, List.length_nil] at hlength
        omega
      | cons n rest => exact List.mem_cons_self
    unfold Leads at hleads
    rw [← hlength, List.take_length] at hleads
    constructor
    · intro n hn
      exact UInt32.le_trans hsize (hleads n (htickets ▸ hn))
    · have hlt := hlive.below (w.nonces.headD 0) (by rwa [htickets])
      exact (UInt32.le_iff_toNat_le.mp hsize).trans hlt.le
  · have hsize := hdead.phase
    simp only [hpc] at hsize
    exact ⟨hdead.safe hsize, (UInt32.toNat_lt _).le.trans hdead.exhausted⟩

end Tickets

section Step

variable {x : Setup} {g g' : Shared} {w w' : Worker} {t : List UInt32} {c : Nat} {lane : Nat}
  {l : List UInt32} {a : UInt32}

theorem take_set (h : lane < l.length) (a : UInt32) :
    (l.set lane a).take (lane + 1) = l.take lane ++ [a] := by
  rw [List.take_add_one, List.take_set_of_le le_rfl, List.getElem?_set_self h, Option.toList_some]

theorem leads_set (h : lane < l.length) (hleads : Leads l lane) (hle : ∀ n ∈ l.take lane, n ≤ a) :
    Leads (l.set lane a) (lane + 1) := by
  unfold Leads at hleads ⊢
  rw [take_set h]
  cases l with
  | nil => exact absurd h (Nat.not_lt_zero _)
  | cons b rest =>
    cases lane with
    | zero =>
      intro n hn
      rw [List.take_zero, List.nil_append, List.mem_singleton] at hn
      exact hn ▸ UInt32.le_refl a
    | succ k =>
      rw [List.set_cons_succ, List.headD_cons]
      rw [List.headD_cons] at hleads
      intro n hn
      rcases List.mem_append.mp hn with hold | hnew
      · exact hleads n hold
      · rw [List.mem_singleton.mp hnew]
        exact hle b (by rw [List.take_succ_cons]; exact List.mem_cons_self)

/-- What is added is the words of what is counted. -/
structure Sums (x : Setup) (g : Shared) : Prop where
  below : ∀ n ∈ g.counted, n < x.size
  data : g.data = (g.counted.map x.word).foldr (· ^^^ ·) 0

/-- A step of a worker: fetched nonces go to the worker, and from there to those counted. -/
structure Moves (x : Setup) (g : Shared) (t : List UInt32) (g' : Shared) (w' : Worker)
    (t' : List UInt32) : Prop where
  owns : Owns x g'.counter w' t'
  le : g.counter ≤ g'.counter
  sums : Sums x g → Sums x g'
  count : ∀ n < x.size, g'.counted.count n + t'.count n = g.counted.count n + t.count n +
    if g.counter ≤ n.toNat ∧ n.toNat < g'.counter then 1 else 0

/-- A step that fetches nothing and adds nothing. -/
theorem Moves.quiet {t' : List UInt32} (howns : Owns x g.counter w' t')
    (hcount : ∀ n, t'.count n = t.count n) (hcounter : g'.counter = g.counter)
    (hcounted : g'.counted = g.counted) (hdata : g'.data = g.data) : Moves x g t g' w' t' where
  owns := hcounter ▸ howns
  le := hcounter.ge
  sums h := ⟨hcounted ▸ h.below, by rw [hdata, hcounted, h.data]⟩
  count n _ := by
    rw [hcounter, hcounted, hcount, if_neg (by omega), Nat.add_zero]

/-- A fetch. -/
theorem Moves.fetch {t' : List UInt32} {shared : Nonce.Shared}
    (howns : Owns x (g.counter + 1) w' t') (hcounter : (shared.nonces 0).toNat = g.counter + 1)
    (hcount : ∀ n, t'.count n = t.count n + if n.toNat = g.counter then 1 else 0) :
    Moves x g t { g with nonce := shared } w' t' where
  owns := by
    unfold Shared.counter
    rwa [hcounter]
  le := by
    rw [show Shared.counter { g with nonce := shared } = g.counter + 1 from hcounter]
    omega
  sums h := ⟨h.below, h.data⟩
  count n _ := by
    have hiff : g.counter ≤ n.toNat ∧ n.toNat < Shared.counter { g with nonce := shared } ↔
        n.toNat = g.counter := by
      have : Shared.counter { g with nonce := shared } = g.counter + 1 := hcounter
      omega
    rw [hcount, ← Nat.add_assoc]
    congr 1
    exact if_congr hiff.symm rfl rfl

theorem count_fetched {v : UInt64} (hv : v.toNat < 2 ^ 32) (n : UInt32) :
    [v.toUInt32].count n = if n.toNat = v.toNat then 1 else 0 := by
  rw [List.count_singleton]
  refine if_congr ?_ rfl rfl
  rw [beq_iff_eq, ← UInt32.toNat_inj, UInt64.toNat_toUInt32, Nat.mod_eq_of_lt hv]
  exact eq_comm

/-- The control points at which a worker holds the nonces of its lanes. -/
def Plain : Pc → Prop
  | .save .. | .nextRound .. | .addResult _ | .done | .finished => False
  | _ => True

theorem tickets_plain (h : Plain w.pc) : tickets w = if w.saved then w.nonces else [] := by
  unfold tickets
  cases hpc : w.pc with
  | save | nextRound | addResult =>
    rw [hpc] at h
    exact h.elim
  | _ => rfl

theorem leads_of_plain (h : Plain w.pc) (hphase : Phase x c w) (hsaved : w.saved) :
    Leads w.nonces x.lanes := by
  unfold Phase at hphase
  cases hpc : w.pc with
  | save | nextRound | addResult | done | finished =>
    rw [hpc] at h
    exact h.elim
  | iterate =>
    rw [hpc] at hphase
    exact hphase.1 hsaved
  | _ =>
    rw [hpc] at hphase
    exact hphase hsaved

/-- Control passes with the lanes as they are; the inner loop is entered anew. -/
theorem phase_plain (h : Plain w.pc) (hleads : w.saved → Leads w.nonces x.lanes)
    (hfirst : w.pc = .iterate → w.first = true) : Phase x c w := by
  unfold Phase
  cases hpc : w.pc with
  | save | nextRound | addResult | done | finished =>
    rw [hpc] at h
    exact h.elim
  | iterate => exact ⟨hleads, fun _ hnot => nomatch hnot.symm.trans (hfirst hpc)⟩
  | _ => exact hleads

theorem Dead.plain (h : Dead x c w t) (hplain : Plain w'.pc) (hnonces : w'.nonces = w.nonces)
    (hsaved : w'.saved = w.saved) : Dead x c w' t where
  exhausted := h.exhausted
  saved := hsaved ▸ h.saved
  safe := hnonces ▸ h.safe
  phase := by
    cases hpc : w'.pc with
    | save | nextRound | addResult | done | finished =>
      rw [hpc] at hplain
      exact hplain.elim
    | _ => trivial

theorem Owns.plain (h : Owns x c w t) (hplain : Plain w.pc) (hplain' : Plain w'.pc)
    (hnonces : w'.nonces = w.nonces) (hsaved : w'.saved = w.saved)
    (hfirst : w'.pc = .iterate → w'.first = true) : Owns x c w' t := by
  rcases h with ⟨hlive, rfl⟩ | hdead
  · have htickets : tickets w' = tickets w := by
      rw [tickets_plain hplain, tickets_plain hplain', hnonces, hsaved]
    refine .inl ⟨⟨hnonces ▸ hlive.length, htickets ▸ hlive.below, ?_⟩, htickets.symm⟩
    refine phase_plain hplain' (fun hs => ?_) hfirst
    rw [hnonces]
    exact leads_of_plain hplain hlive.phase (hsaved ▸ hs)
  · exact .inr (hdead.plain hplain' hnonces hsaved)

/-- The worker's own store of a nonce that it fetched. -/
theorem store_nonces (w : Worker) (lane : Nat) {v : UInt64} (hv : v.toNat < 2 ^ 32) :
    (w.store lane v).nonces = w.nonces.set lane v.toUInt32 := by
  unfold Worker.store
  dsimp only
  rw [write_lo v _ hv]

/-- A lane of `save` that gets none. -/
theorem dead_saveLane (hlarge : 2 ^ 32 ≤ c) (hsaved : w.saved)
    (hsafe : x.size ≤ w.nonces.headD 0 → ∀ n ∈ t, x.size ≤ n) (lane : Nat) (resume : Resume) :
    Dead x c (w.saveLane x lane resume none) t := by
  unfold Worker.saveLane
  dsimp only
  split
  · exact ⟨hlarge, hsaved, hsafe, rfl⟩
  · cases resume <;> exact ⟨hlarge, hsaved, hsafe, trivial⟩

/-- A lane of `save` that gets a nonce. -/
theorem live_saveLane {v : UInt64} (hlength : w.nonces.length = x.lanes) (hsaved : w.saved)
    (hlane : lane < x.lanes) (hleads : Leads w.nonces lane) (hv : v.toNat < 2 ^ 32)
    (hbelow : ∀ n ∈ w.nonces.take lane, n.toNat ≤ v.toNat ∧ n.toNat < c) (hvc : v.toNat < c)
    (resume : Resume) :
    Live x c (w.saveLane x lane resume (some v)) ∧
      tickets (w.saveLane x lane resume (some v)) = w.nonces.take lane ++ [v.toUInt32] := by
  have hstore := store_nonces w lane hv
  have hlt : lane < w.nonces.length := hlength.symm ▸ hlane
  have hword : v.toUInt32.toNat = v.toNat := by
    rw [UInt64.toNat_toUInt32, Nat.mod_eq_of_lt hv]
  have hleads' := leads_set hlt hleads fun n hn => UInt32.le_iff_toNat_le.mpr
    (hword ▸ (hbelow n hn).1)
  have htake := take_set hlt v.toUInt32
  have hall : ∀ n ∈ w.nonces.take lane ++ [v.toUInt32], n.toNat < c := by
    intro n hn
    rcases List.mem_append.mp hn with hold | hnew
    · exact (hbelow n hold).2
    · rw [List.mem_singleton.mp hnew, hword]
      exact hvc
  unfold Worker.saveLane
  dsimp only
  split
  case isTrue hnext =>
    have htickets : tickets { w.store lane v with pc := .save (lane + 1) .enter resume } =
        w.nonces.take lane ++ [v.toUInt32] := by
      rw [← htake, ← hstore]
      exact List.append_nil _
    refine ⟨⟨?_, htickets ▸ hall, hsaved, hnext, .enter, ?_⟩, htickets⟩
    · change (w.store lane v).nonces.length = _
      rw [hstore, List.length_set, hlength]
    · change Leads (w.store lane v).nonces _
      rwa [hstore]
  case isFalse hlast =>
    have hlanes : lane + 1 = x.lanes := by omega
    have hplain : Plain ((w.store lane v).resume resume).pc := by cases resume <;> trivial
    have hnonces : ((w.store lane v).resume resume).nonces = (w.store lane v).nonces := by
      cases resume <;> rfl
    have hsaved' : ((w.store lane v).resume resume).saved = true := by
      cases resume <;> exact hsaved
    have htickets : tickets ((w.store lane v).resume resume) =
        w.nonces.take lane ++ [v.toUInt32] := by
      rw [tickets_plain hplain, if_pos hsaved', hnonces, hstore, ← htake, hlanes, ← hlength,
        ← List.length_set, List.take_length]
    refine ⟨⟨?_, htickets ▸ hall, phase_plain hplain (fun _ => ?_) fun hpc => ?_⟩, htickets⟩
    · rw [hnonces, hstore, List.length_set, hlength]
    · rwa [hnonces, hstore, ← hlanes]
    · cases resume with
      | inner => rfl
      | outer => exact nomatch hpc

section Draw

variable {nonce : Nonce.Shared} {call call' : Nonce.Pc} {resume : Resume}

theorem toNat_ne_of_exhausted {c : Nat} (h : 2 ^ 32 ≤ c) (n : UInt32) : ¬n.toNat = c := by
  have := n.toNat_lt
  omega

/-- A call of a dead worker gets nothing. -/
theorem call_exhausted (hlarge : 2 ^ 32 ≤ g.counter) (hwrap : g.counter + 1 < 2 ^ 64)
    (hstep : Nonce.Pc.enter.step args g.nonce = some (nonce, call')) :
    (nonce.nonces 0).toNat = g.counter + 1 ∧ call' = .done none := by
  rcases call_step .enter rfl (fun _ => hwrap) hstep with ⟨-, hcount, hcases⟩ | ⟨v, hbad, -⟩
  · refine ⟨hcount, ?_⟩
    rcases hcases with ⟨-, hdone⟩ | ⟨hlast, -⟩ | ⟨hinside, -⟩
    · exact hdone
    · unfold Shared.counter at hlarge
      omega
    · unfold Shared.counter at hlarge
      omega
  · exact nomatch hbad

theorem owns_save (h : Owns x g.counter w t) (hpc : w.pc = .save lane call resume)
    (hwrap : call = .enter → g.counter + 1 < 2 ^ 64)
    (hstep : call.step args g.nonce = some (nonce, call')) :
    ∃ t', Moves x g t { g with nonce } (match call' with
      | .done result => w.saveLane x lane resume result
      | _ => { w with pc := .save lane call' resume }) t' := by
  have hdef : g.counter = (g.nonce.nonces 0).toNat := rfl
  rcases h with ⟨hlive, rfl⟩ | hdead
  · have hphase := hlive.phase
    unfold Phase at hphase
    rw [hpc] at hphase
    obtain ⟨hsaved, hlane, hcalling, hleads⟩ := hphase
    have htickets : tickets w = w.nonces.take lane ++ held call := by
      unfold tickets
      rw [hpc]
    have hbelow := hlive.below
    rw [htickets] at hbelow ⊢
    have hold : ∀ n ∈ w.nonces.take lane, n.toNat < g.counter := fun n hn =>
      hbelow n (List.mem_append_left _ hn)
    rcases call_step hcalling rfl hwrap hstep with ⟨rfl, hcount, hcases⟩ | ⟨v, rfl, hv, rfl, rfl⟩
    · rw [show held .enter = [] from rfl, List.append_nil]
      rcases hcases with ⟨hlarge, rfl⟩ | ⟨hlast, rfl⟩ | ⟨hinside, rfl⟩
      · have hdead := dead_saveLane (x := x) (hlarge.trans (Nat.le_succ _)) hsaved
          (fun hsize n hn => UInt32.le_trans hsize (hleads n hn)) lane resume
        refine ⟨w.nonces.take lane, .fetch (.inr hdead) hcount fun n => ?_⟩
        rw [if_neg (toNat_ne_of_exhausted hlarge n), Nat.add_zero]
      · have hv : (g.nonce.nonces 0).toNat < 2 ^ 32 := by omega
        refine ⟨w.nonces.take lane ++ [(g.nonce.nonces 0).toUInt32],
          .fetch (.inl ⟨⟨hlive.length, fun n hn => ?_, hsaved, hlane, .last hlast ?_, hleads⟩, rfl⟩)
            hcount fun n => ?_⟩
        · rcases List.mem_append.mp hn with hn | hn
          · exact (hold n hn).trans (Nat.lt_succ_self _)
          · rw [List.mem_singleton.mp hn, UInt64.toNat_toUInt32, Nat.mod_eq_of_lt hv]
            exact Nat.lt_succ_self _
        · change 2 ^ 32 ≤ (g.nonce.nonces 0).toNat + 1
          omega
        · rw [List.count_append, count_fetched hv]
          rfl
      · have hv : (g.nonce.nonces 0).toNat < 2 ^ 32 := by omega
        obtain ⟨hnew, hnewTickets⟩ := live_saveLane (c := g.counter + 1) hlive.length hsaved hlane
          hleads hv (fun n hn => ⟨(hold n hn).le, (hold n hn).trans (Nat.lt_succ_self _)⟩)
          (Nat.lt_succ_self _) resume
        refine ⟨_, .fetch (.inl ⟨hnew, rfl⟩) hcount fun n => ?_⟩
        rw [hnewTickets, List.count_append, count_fetched hv]
        rfl
    · have hv' : v.toNat < 2 ^ 32 := by omega
      have hlarge : 2 ^ 32 ≤ g.counter := by
        cases hcalling with
        | last _ hc => exact hc
      obtain ⟨hnew, hnewTickets⟩ := live_saveLane (c := g.counter) hlive.length hsaved hlane
        hleads hv' (fun n hn => ⟨by have := n.toNat_lt; omega, hold n hn⟩) (by omega) resume
      refine ⟨_, .quiet (.inl ⟨hnew, rfl⟩) (fun n => ?_) rfl rfl rfl⟩
      rw [hnewTickets]
      rfl
  · have hphase := hdead.phase
    rw [hpc] at hphase
    obtain rfl : call = .enter := hphase
    obtain ⟨hcount, rfl⟩ := call_exhausted hdead.exhausted (hwrap rfl) hstep
    have hdead' := dead_saveLane (hdead.exhausted.trans (Nat.le_succ _)) hdead.saved hdead.safe
      lane resume
    refine ⟨t, .fetch (.inr hdead') hcount fun n => ?_⟩
    rw [if_neg (toNat_ne_of_exhausted hdead.exhausted n), Nat.add_zero]

/-- A lane of `nextRound` that gets a nonce. -/
theorem live_roundLane {v : UInt64} (hlength : w.nonces.length = x.lanes) (hsaved : w.saved)
    (hlane : lane < x.lanes) (hleads : Leads w.nonces lane) (hashed : Hashed x w)
    (hcurrent : w.current.length = x.lanes) (hfirst : Leads w.current x.lanes)
    (hv : v.toNat < 2 ^ 32)
    (hbelow : ∀ n ∈ w.nonces.take lane, n.toNat ≤ v.toNat ∧ n.toNat < c) (hvc : v.toNat < c)
    (hbelow' : ∀ n ∈ w.current, n.toNat < c) :
    Live x c (w.roundLane x lane (some v)) ∧
      tickets (w.roundLane x lane (some v)) =
        w.nonces.take lane ++ [v.toUInt32] ++ w.current := by
  have hstore := store_nonces w lane hv
  have hlt : lane < w.nonces.length := hlength.symm ▸ hlane
  have hword : v.toUInt32.toNat = v.toNat := by
    rw [UInt64.toNat_toUInt32, Nat.mod_eq_of_lt hv]
  have hleads' := leads_set hlt hleads fun n hn => UInt32.le_iff_toNat_le.mpr
    (hword ▸ (hbelow n hn).1)
  have htake := take_set hlt v.toUInt32
  have hall : ∀ n ∈ w.nonces.take lane ++ [v.toUInt32] ++ w.current, n.toNat < c := by
    intro n hn
    rcases List.mem_append.mp hn with hn | hn
    · rcases List.mem_append.mp hn with hold | hnew
      · exact (hbelow n hold).2
      · rw [List.mem_singleton.mp hnew, hword]
        exact hvc
    · exact hbelow' n hn
  unfold Worker.roundLane
  dsimp only
  split
  case isTrue hnext =>
    have htickets : tickets { w.store lane v with pc := .nextRound (lane + 1) .enter } =
        w.nonces.take lane ++ [v.toUInt32] ++ w.current := by
      rw [← htake, ← hstore]
      exact congrArg (· ++ w.current) (List.append_nil _)
    refine ⟨⟨?_, htickets ▸ hall, hsaved, hnext, .enter, ?_, hashed, hcurrent, hfirst, nofun⟩,
      htickets⟩
    · change (w.store lane v).nonces.length = _
      rw [hstore, List.length_set, hlength]
    · change Leads (w.store lane v).nonces _
      rwa [hstore]
  case isFalse hlast =>
    have hlanes : lane + 1 = x.lanes := by omega
    have hset : (w.nonces.set lane v.toUInt32).take x.lanes = w.nonces.set lane v.toUInt32 := by
      rw [← hlength, ← List.length_set, List.take_length]
    have htickets : (w.store lane v).nonces ++ w.current.drop 0 =
        w.nonces.take lane ++ [v.toUInt32] ++ w.current := by
      rw [hstore, ← htake, hlanes, hset, List.drop_zero]
    have hnewLength : (w.store lane v).nonces.length = x.lanes := by
      rw [hstore, List.length_set, hlength]
    have hnewLeads : Leads (w.store lane v).nonces x.lanes := by
      rwa [hstore, ← hlanes]
    unfold Worker.hashNext
    unfold Hashed at hashed
    split
    case isTrue hx =>
      rw [if_pos hx] at hashed
      refine ⟨⟨hnewLength, fun n hn => hall n (htickets ▸ hn), hsaved, x.lanes_pos, hcurrent, ?_,
        hnewLeads, fun _ => ⟨hashed.1, rfl⟩⟩, htickets⟩
      change [x.word w.begun] = w.current.map x.word
      rw [x.lanes_randomX hx] at hcurrent
      obtain ⟨n, hn⟩ := List.length_eq_one_iff.mp hcurrent
      rw [hashed.2, hn]
      rfl
    case isFalse hx =>
      rw [if_neg hx] at hashed
      exact ⟨⟨hnewLength, fun n hn => hall n (htickets ▸ hn), hsaved, x.lanes_pos, hcurrent, hashed,
        hnewLeads, fun h => absurd h hx⟩, htickets⟩

/-- A worker that gets no nonce for a further lane must not have one for the first lane that ends
its work, as `nextRound` has written over the nonces of the round. -/
theorem owns_nextRound (h : Owns x g.counter w t) (hpc : w.pc = .nextRound lane call)
    (hwrap : call = .enter → g.counter + 1 < 2 ^ 64)
    (hlost : call = .enter → 0 < lane → 2 ^ 32 ≤ g.counter → w.nonces.headD 0 < x.size)
    (hstep : call.step args g.nonce = some (nonce, call')) :
    ∃ t', Moves x g t { g with nonce } (match call' with
      | .done result => w.roundLane x lane result
      | _ => { w with pc := .nextRound lane call' }) t' := by
  have hdef : g.counter = (g.nonce.nonces 0).toNat := rfl
  rcases h with ⟨hlive, rfl⟩ | hdead
  · have hphase := hlive.phase
    unfold Phase at hphase
    rw [hpc] at hphase
    obtain ⟨hsaved, hlane, hcalling, hleads, hashed, hcurrent, hfirst, hzero⟩ := hphase
    have htickets : tickets w = w.nonces.take lane ++ held call ++ w.current := by
      unfold tickets
      rw [hpc]
    have hbelow := hlive.below
    rw [htickets] at hbelow ⊢
    have hold : ∀ n ∈ w.nonces.take lane, n.toNat < g.counter := fun n hn =>
      hbelow n (List.mem_append_left _ (List.mem_append_left _ hn))
    have hold' : ∀ n ∈ w.current, n.toNat < g.counter := fun n hn =>
      hbelow n (List.mem_append_right _ hn)
    rcases call_step hcalling rfl hwrap hstep with ⟨rfl, hcount, hcases⟩ | ⟨v, rfl, hv, rfl, rfl⟩
    · rw [show held .enter = [] from rfl, List.append_nil]
      rcases hcases with ⟨hlarge, rfl⟩ | ⟨hlast, rfl⟩ | ⟨hinside, rfl⟩
      · have hnone (n : UInt32) : ¬n.toNat = g.counter := toNat_ne_of_exhausted hlarge n
        rcases Nat.eq_zero_or_pos lane with rfl | hpos
        · have hsame := hzero rfl
          have hleave : tickets { w with pc := .leave } = w.current := by
            change (if w.saved then w.nonces else []) = w.current
            rw [if_pos hsaved, hsame]
          refine ⟨w.current, .fetch (.inl ⟨⟨hlive.length, fun n hn => ?_,
            phase_plain trivial (fun _ => hsame ▸ hfirst) nofun⟩, hleave.symm⟩) hcount fun n => ?_⟩
          · exact (hold' n (hleave ▸ hn)).trans (Nat.lt_succ_self _)
          · rw [if_neg (hnone n), List.take_zero, List.nil_append, Nat.add_zero]
        · have hhead := hlost rfl hpos hlarge
          have hdead : Dead x (g.counter + 1) { w with pc := .leave }
              (w.nonces.take lane ++ w.current) :=
            ⟨hlarge.trans (Nat.le_succ _), hsaved, fun hsize => absurd hhead (UInt32.not_lt.mpr hsize),
              trivial⟩
          refine ⟨_, .fetch (.inr hdead) hcount fun n => ?_⟩
          rw [if_neg (hnone n), Nat.add_zero]
      · have hv : (g.nonce.nonces 0).toNat < 2 ^ 32 := by omega
        refine ⟨w.nonces.take lane ++ [(g.nonce.nonces 0).toUInt32] ++ w.current,
          .fetch (.inl ⟨⟨hlive.length, fun n hn => ?_, hsaved, hlane, .last hlast ?_, hleads, hashed,
            hcurrent, hfirst, hzero⟩, rfl⟩) hcount fun n => ?_⟩
        · rcases List.mem_append.mp hn with hn | hn
          · rcases List.mem_append.mp hn with hn | hn
            · exact (hold n hn).trans (Nat.lt_succ_self _)
            · rw [List.mem_singleton.mp hn, UInt64.toNat_toUInt32, Nat.mod_eq_of_lt hv]
              exact Nat.lt_succ_self _
          · exact (hold' n hn).trans (Nat.lt_succ_self _)
        · change 2 ^ 32 ≤ (g.nonce.nonces 0).toNat + 1
          omega
        · rw [List.count_append, List.count_append, List.count_append, count_fetched hv]
          exact Nat.add_right_comm ..
      · have hv : (g.nonce.nonces 0).toNat < 2 ^ 32 := by omega
        obtain ⟨hnew, hnewTickets⟩ := live_roundLane (c := g.counter + 1) hlive.length hsaved hlane
          hleads hashed hcurrent hfirst hv
          (fun n hn => ⟨(hold n hn).le, (hold n hn).trans (Nat.lt_succ_self _)⟩)
          (Nat.lt_succ_self _) (fun n hn => (hold' n hn).trans (Nat.lt_succ_self _))
        refine ⟨_, .fetch (.inl ⟨hnew, rfl⟩) hcount fun n => ?_⟩
        rw [hnewTickets, List.count_append, List.count_append, List.count_append, count_fetched hv]
        exact Nat.add_right_comm ..
    · have hv' : v.toNat < 2 ^ 32 := by omega
      have hlarge : 2 ^ 32 ≤ g.counter := by
        cases hcalling with
        | last _ hc => exact hc
      obtain ⟨hnew, hnewTickets⟩ := live_roundLane (c := g.counter) hlive.length hsaved hlane
        hleads hashed hcurrent hfirst hv'
        (fun n hn => ⟨by have := n.toNat_lt; omega, hold n hn⟩) (by omega) hold'
      refine ⟨_, .quiet (.inl ⟨hnew, rfl⟩) (fun n => ?_) rfl rfl rfl⟩
      rw [hnewTickets]
      rfl
  · have hphase := hdead.phase
    rw [hpc] at hphase
    obtain ⟨rfl, rfl⟩ := hphase
    obtain ⟨hcount, rfl⟩ := call_exhausted hdead.exhausted (hwrap rfl) hstep
    refine ⟨t, .fetch (.inr ⟨hdead.exhausted.trans (Nat.le_succ _), hdead.saved, hdead.safe,
      trivial⟩) hcount fun n => ?_⟩
    rw [if_neg (toNat_ne_of_exhausted hdead.exhausted n), Nat.add_zero]

end Draw

theorem live_addResult (hlive : Live x c w) (hpc : w.pc = .addResult lane) :
    Live x c (w.addResult x g lane).2 ∧
      tickets (w.addResult x g lane).2 = w.nonces ++ w.current.drop (lane + 1) := by
  have hphase := hlive.phase
  unfold Phase at hphase
  rw [hpc] at hphase
  obtain ⟨hsaved, hlane, hcurrent, hhash, hleads, hbegun⟩ := hphase
  have htickets : tickets w = w.nonces ++ w.current.drop lane := by
    unfold tickets
    rw [hpc]
  have hall : ∀ n ∈ w.nonces ++ w.current.drop (lane + 1), n.toNat < c := by
    intro n hn
    refine hlive.below n (htickets ▸ List.mem_append.mpr ?_)
    exact (List.mem_append.mp hn).imp_right fun h =>
      List.drop_subset_drop_left _ (Nat.le_succ lane) h
  unfold Worker.addResult
  dsimp only
  split
  case isTrue hnext =>
    exact ⟨⟨hlive.length, hall, hsaved, hnext, hcurrent, hhash, hleads, hbegun⟩, rfl⟩
  case isFalse hlast =>
    have hnew : tickets { w with pc := .iterate } = w.nonces ++ w.current.drop (lane + 1) := by
      rw [List.drop_of_length_le (by omega), List.append_nil]
      exact if_pos hsaved
    exact ⟨⟨hlive.length, hnew ▸ hall, fun _ => hleads, fun hx _ => (hbegun hx).2⟩, hnew⟩

theorem owns_addResult (h : Owns x g.counter w t) (hpc : w.pc = .addResult lane) :
    ∃ t', Moves x g t (w.addResult x g lane).1 (w.addResult x g lane).2 t' := by
  rcases h with ⟨hlive, rfl⟩ | hdead
  · obtain ⟨hnew, hnewTickets⟩ := live_addResult (g := g) hlive hpc
    have hphase := hlive.phase
    unfold Phase at hphase
    rw [hpc] at hphase
    obtain ⟨-, hlane, hcurrent, hhash, -, -⟩ := hphase
    rw [← hcurrent] at hlane
    have hnonce : w.current.getD lane 0 = w.current[lane] := by
      rw [List.getD_eq_getElem?_getD, List.getElem?_eq_getElem hlane, Option.getD_some]
    have hvalue : w.hash.getD lane 0 = x.word w.current[lane] := by
      rw [hhash, List.getD_eq_getElem?_getD, List.getElem?_map, List.getElem?_eq_getElem hlane,
        Option.map_some, Option.getD_some]
    have htickets : tickets w = w.nonces ++ w.current[lane] :: w.current.drop (lane + 1) := by
      unfold tickets
      rw [hpc, List.getElem_cons_drop]
    refine ⟨tickets (w.addResult x g lane).2, ?_⟩
    rw [htickets]
    by_cases hsize : w.current[lane] < x.size
    · have hadd : (w.addResult x g lane).1 = g.add w.current[lane] (x.word w.current[lane]) := by
        unfold Worker.addResult
        dsimp only
        rw [hnonce, if_pos hsize, hvalue]
      rw [hadd]
      refine ⟨.inl ⟨hnew, rfl⟩, le_rfl, fun hsums => ⟨?_, ?_⟩, fun n hn => ?_⟩
      · exact List.forall_mem_cons.mpr ⟨hsize, hsums.below⟩
      · change g.data ^^^ _ = _ ^^^ (g.counted.map x.word).foldr _ 0
        rw [hsums.data, UInt64.xor_comm]
      · have hnone : ¬(g.counter ≤ n.toNat ∧
            n.toNat < (g.add w.current[lane] (x.word w.current[lane])).counter) :=
          fun h => absurd h.2 (Nat.not_lt.mpr h.1)
        rw [hnewTickets, if_neg hnone]
        change (w.current[lane] :: g.counted).count n + _ = _
        rw [List.count_append, List.count_append, List.count_cons, List.count_cons]
        omega
    · have hskip : (w.addResult x g lane).1 = g := by
        unfold Worker.addResult
        dsimp only
        rw [hnonce, if_neg hsize]
      rw [hskip]
      refine ⟨.inl ⟨hnew, rfl⟩, le_rfl, id, fun n hn => ?_⟩
      have hne : (w.current[lane] == n) = false :=
        beq_eq_false_iff_ne.mpr fun h => hsize (h ▸ hn)
      have hnone : ¬(g.counter ≤ n.toNat ∧ n.toNat < g.counter) :=
        fun h => absurd h.2 (Nat.not_lt.mpr h.1)
      rw [hnewTickets, if_neg hnone, List.count_append, List.count_append, List.count_cons, hne]
      rfl
  · have hphase := hdead.phase
    rw [hpc] at hphase
    exact hphase.elim

/-- A worker starts the next round, is done, or leaves the inner loop. -/
theorem owns_iterate (h : Owns x c w t) (hpc : w.pc = .iterate) :
    Owns x c (w.iterate x g) t := by
  unfold Worker.iterate
  split
  case isTrue => exact h.plain (hpc ▸ trivial) trivial rfl rfl nofun
  case isFalse hin =>
    have hsaved : w.saved = true := by
      cases hs : w.saved with
      | true => rfl
      | false => simp [hs] at hin
    rcases h with ⟨hlive, rfl⟩ | hdead
    · have hphase := hlive.phase
      unfold Phase at hphase
      rw [hpc] at hphase
      have hleads := hphase.1 hsaved
      have htickets : tickets w = w.nonces := by
        rw [tickets_plain (hpc ▸ trivial), if_pos hsaved]
      have hbelow := hlive.below
      rw [htickets] at hbelow ⊢
      split
      case isTrue hsize =>
        have hdone : tickets { w with pc := .done } = w.nonces := if_pos hsaved
        exact .inl ⟨⟨hlive.length, fun n hn => hbelow n (hdone ▸ hn), hsaved, hleads, hsize⟩, hdone.symm⟩
      case isFalse =>
        have hnone : Leads w.nonces 0 := fun n hn => nomatch List.take_zero ▸ hn
        unfold Worker.hashAll
        split
        case isTrue hx =>
          refine .inl ⟨⟨hlive.length, hbelow, hsaved, x.lanes_pos, .enter, hnone, ?_, hlive.length,
            hleads, fun _ => rfl⟩, rfl⟩
          unfold Hashed
          rw [if_pos hx]
          refine ⟨rfl, ?_⟩
          dsimp only
          split
          case isTrue => rfl
          case isFalse hfirst => exact hphase.2 hx (Bool.eq_false_iff.mpr hfirst)
        case isFalse hx =>
          refine .inl ⟨⟨hlive.length, hbelow, hsaved, x.lanes_pos, .enter, hnone, ?_, hlive.length,
            hleads, fun _ => rfl⟩, rfl⟩
          unfold Hashed
          rw [if_neg hx]
    · split
      case isTrue hsize => exact .inr ⟨hdead.exhausted, hdead.saved, hdead.safe, hsize⟩
      case isFalse =>
        unfold Worker.hashAll
        split <;> exact .inr ⟨hdead.exhausted, hdead.saved, hdead.safe, rfl, rfl⟩

theorem resume_plain (w : Worker) (resume : Resume) : Plain (w.resume resume).pc ∧
    (w.resume resume).nonces = w.nonces ∧ (w.resume resume).saved = w.saved ∧
    ((w.resume resume).pc = .iterate → (w.resume resume).first = true) := by
  cases resume with
  | inner => exact ⟨trivial, rfl, rfl, fun _ => rfl⟩
  | outer => exact ⟨trivial, rfl, rfl, nofun⟩

theorem Owns.resume (h : Owns x c w t) (hplain : Plain w.pc) (hnonces : w'.nonces = w.nonces)
    (hsaved : w'.saved = w.saved) (resume : Resume) : Owns x c (w'.resume resume) t := by
  obtain ⟨hpc, hnonces', hsaved', hfirst⟩ := resume_plain w' resume
  exact h.plain hplain hpc (hnonces'.trans hnonces) (hsaved'.trans hsaved) hfirst

/-- A worker begins to save the job. -/
theorem Owns.select (h : Owns x c w t) (hplain : Plain w.pc) (hsaved : w.saved = false)
    (sequence : UInt64) (resume : Resume) :
    Owns x c { w with sequence, saved := true, pc := .save 0 .enter resume } t := by
  rcases h with ⟨hlive, rfl⟩ | hdead
  · have hnone : tickets w = [] := by
      rw [tickets_plain hplain, hsaved]
      rfl
    have hnew : tickets { w with sequence, saved := true, pc := .save 0 .enter resume } = [] := rfl
    exact .inl ⟨⟨hlive.length, fun n hn => (nomatch hnew ▸ hn), rfl, x.lanes_pos, .enter,
      fun n hn => (nomatch List.take_zero ▸ hn)⟩, hnone⟩
  · exact nomatch hsaved.symm.trans hdead.saved

theorem Owns.leaveDone (h : Owns x c w t) (hpc : w.pc = .done) :
    Owns x c { w with pc := .finished } t := by
  rcases h with ⟨hlive, rfl⟩ | hdead
  · have hphase := hlive.phase
    unfold Phase at hphase
    rw [hpc] at hphase
    have htickets : tickets w = tickets { w with pc := .finished } := by
      unfold tickets
      rw [hpc]
    exact .inl ⟨⟨hlive.length, htickets ▸ hlive.below, hphase⟩, htickets⟩
  · have hphase := hdead.phase
    rw [hpc] at hphase
    exact .inr ⟨hdead.exhausted, hdead.saved, hdead.safe, hphase⟩

/-- The counter does not wrap around, and no worker that drew a nonce beyond the size for its first
lane finds none left for a further one. -/
def Orderly (x : Setup) (g : Shared) (w : Worker) : Prop :=
  match w.pc with
  | .save _ call _ => call = .enter → g.counter + 1 < 2 ^ 64
  | .nextRound lane call => call = .enter → g.counter + 1 < 2 ^ 64 ∧
      (0 < lane → 2 ^ 32 ≤ g.counter → w.nonces.headD 0 < x.size)
  | _ => True

theorem owns_step (h : Owns x g.counter w t) (horderly : Orderly x g w)
    (hstep : w.step x g = some (g', w')) : ∃ t', Moves x g t g' w' t' := by
  have hquiet {w' : Worker} (howns : Owns x g.counter w' t) : ∃ t', Moves x g t g w' t' :=
    ⟨t, .quiet howns (fun _ => rfl) rfl rfl rfl⟩
  unfold Worker.step at hstep
  dsimp only at hstep
  unfold Orderly at horderly
  cases hpc : w.pc with
  | running | sleeping | sleepingTest | woken | leave =>
    rw [hpc] at hstep
    obtain ⟨rfl, rfl⟩ := Prod.mk.inj (Option.some.inj hstep)
    refine hquiet (h.plain (hpc ▸ trivial) ?_ rfl rfl fun hbad => ?_)
    · dsimp only
      split <;> trivial
    · dsimp only at hbad
      split at hbad <;> exact nomatch hbad
  | pausedTest =>
    rw [hpc] at hstep
    dsimp only at hstep
    split at hstep
    · obtain ⟨rfl, rfl⟩ := Prod.mk.inj (Option.some.inj hstep)
      exact hquiet (h.plain (hpc ▸ trivial) trivial rfl rfl nofun)
    · obtain ⟨rfl, rfl⟩ := Prod.mk.inj (Option.some.inj hstep)
      exact hquiet (h.resume (hpc ▸ trivial) rfl rfl .inner)
  | consume resume =>
    rw [hpc] at hstep
    dsimp only at hstep
    split at hstep
    · obtain ⟨rfl, rfl⟩ := Prod.mk.inj (Option.some.inj hstep)
      exact hquiet (h.resume (hpc ▸ trivial) rfl rfl resume)
    · obtain ⟨rfl, rfl⟩ := Prod.mk.inj (Option.some.inj hstep)
      exact hquiet (h.plain (hpc ▸ trivial) trivial rfl rfl nofun)
  | add resume =>
    rw [hpc] at hstep
    obtain ⟨rfl, rfl⟩ := Prod.mk.inj (Option.some.inj hstep)
    split
    case isTrue => exact hquiet (h.resume (hpc ▸ trivial) (by rfl) (by rfl) resume)
    case isFalse hsaved =>
      exact hquiet (h.select (hpc ▸ trivial) (Bool.eq_false_iff.mpr hsaved) _ resume)
  | save lane call resume =>
    rw [hpc] at hstep horderly
    obtain ⟨⟨nonce, call'⟩, hcall, heq⟩ := Option.map_eq_some_iff.mp hstep
    obtain ⟨rfl, rfl⟩ := Prod.mk.inj heq
    exact owns_save h hpc horderly hcall
  | iterate =>
    rw [hpc] at hstep
    obtain ⟨rfl, rfl⟩ := Prod.mk.inj (Option.some.inj hstep)
    exact hquiet (owns_iterate h hpc)
  | nextRound lane call =>
    rw [hpc] at hstep horderly
    obtain ⟨⟨nonce, call'⟩, hcall, heq⟩ := Option.map_eq_some_iff.mp hstep
    obtain ⟨rfl, rfl⟩ := Prod.mk.inj heq
    exact owns_nextRound h hpc (fun henter => (horderly henter).1)
      (fun henter => (horderly henter).2) hcall
  | addResult lane =>
    rw [hpc] at hstep
    obtain ⟨rfl, rfl⟩ := Prod.mk.inj (Option.some.inj hstep)
    exact owns_addResult h hpc
  | done =>
    rw [hpc] at hstep
    obtain ⟨rfl, rfl⟩ := Prod.mk.inj (Option.some.inj hstep)
    exact ⟨t, .quiet (h.leaveDone hpc) (fun _ => rfl) rfl rfl rfl⟩
  | finished | returned =>
    rw [hpc] at hstep
    exact nomatch hstep

end Step

end VeloxHash.Benchmark
