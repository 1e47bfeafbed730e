import VeloxHash.GhostRiderLanes

/-! `hash_octa` gives every lane the hash the lane has alone, however the tuning table groups the
lanes and however the two threads are scheduled. -/

namespace VeloxHash.GhostRider

open CodeBuffer ForkJoin TransitionSystem

variable {W : Type} {s t : State W} {k : Kernels W} {data : Memory} {size base lo hi step : Nat}
  {algo : Fin 6}

/-! ### A lane from part to part -/

section Lanes

variable (k : Kernels W) (cores : List (Fin 15)) (cn : List (Fin 6)) (blob : List UInt8)

def partCores (part : Nat) : List (Fin 15) := (cores.drop (part * 5)).take 5

/-- The digest a lane has after part `part`. -/
def digest : Nat → List UInt8
  | 0 => lanePart k (partCores cores 0) (cn.getD 0 0) blob
  | part + 1 =>
    lanePart k (partCores cores (part + 1)) (cn.getD (part + 1) 0) (padded (digest part))

def laneInput : Nat → List UInt8
  | 0 => blob
  | part + 1 => padded (digest k cores cn blob part)

theorem digest_eq (part : Nat) :
    digest k cores cn blob part =
      lanePart k (partCores cores part) (cn.getD part 0) (laneInput k cores cn blob part) := by
  cases part <;> rfl

/-- A lane before part `part`. -/
def LaneAt (part : Nat) (lane : Nat) (s : State W) : Prop :=
  match part with
  | 0 => True
  | part + 1 => read s.output (lane * 32) 32 = digest k cores cn blob part ∧
      read s.tmp (lane * 64) 64 = padded (digest k cores cn blob part)

end Lanes

variable {cores : List (Fin 15)} {cn : List (Fin 6)} {part : Nat}

theorem LaneAt.congr {b : List UInt8} {j : Nat} (h : LaneAt k cores cn b part j s)
    (hst : SameArea base lo hi s t) (hlo : lo ≤ j) (hhi : j < hi) :
    LaneAt k cores cn b part j t := by
  cases part with
  | zero => trivial
  | succ part =>
    obtain ⟨hout, htmp⟩ := h
    refine ⟨?_, ?_⟩
    · rw [← hst.output.read (by omega) (by omega), hout]
    · rw [← hst.tmp.read (by omega) (by omega), htmp]

theorem LaneAt.of_memory {b : List UInt8} {j : Nat} (h : LaneAt k cores cn b part j s)
    (memory : Nat → Nat) : LaneAt k cores cn b part j { s with memory := memory } := by
  cases part with
  | zero => trivial
  | succ part => exact h

/-- The cores of a part, one by one. -/
theorem partCores_eq (hcores : part * 5 + 5 ≤ cores.length) :
    partCores cores part = (List.range 5).map fun i => cores.getD (part * 5 + i) 0 := by
  apply List.ext_getElem
  · simp only [partCores, List.length_take, List.length_drop, List.length_map, List.length_range]
    omega
  · intro i hi hi'
    simp only [List.length_map, List.length_range] at hi'
    simp only [partCores, List.getElem_take, List.getElem_drop, List.getElem_map,
      List.getElem_range]
    rw [List.getD_eq_getElem _ _ (by omega)]

/-- The lane's input after the first `n` core hashes of a part. -/
def coreChain (k : Kernels W) (cores : List (Fin 15)) (part n : Nat) (input : List UInt8) :
    List UInt8 :=
  ((List.range n).map fun i => cores.getD (part * 5 + i) 0).foldl
    (fun x i => (k.core i x).toList) input

theorem coreChain_succ (n : Nat) (input : List UInt8) :
    coreChain k cores part (n + 1) input =
      (k.core (cores.getD (part * 5 + n) 0) (coreChain k cores part n input)).toList := by
  rw [coreChain, List.range_succ, List.map_append, List.foldl_append]
  rfl

/-- One core hash on the lanes of a thread. -/
theorem run_core (fromData : Bool) (index : Fin 15) (n : Nat)
    (hplaced : Placed base lo step n s) :
    let t := run (act k data size)
      ((List.range (hi - lo)).map fun q => .core fromData index (lo + q)) s
    Placed base lo step n t ∧ ∀ m < hi - lo, read t.tmp ((lo + m) * 64) 64 =
      (k.core index (if fromData then blob data size (lo + m)
        else read s.tmp ((lo + m) * 64) 64)).toList := by
  intro t
  have hviews := foldl_views (V := fun m (u : State W) => read u.tmp ((lo + m) * 64) 64)
    (M := fun _ => True) (I := Placed base lo step n)
    (g := fun m x => (k.core index (if fromData then blob data size (lo + m) else x)).toList)
    (F := fun q => act k data size (.core fromData index (lo + q))) id (hi - lo)
    (fun _ _ _ hu => hu)
    (fun q _ u _ m _ => by
      simp only [act, id]
      rw [read_digest _ _ _ _ Vector.length_toList]
      by_cases h : m = q
      · rw [if_pos h, if_pos (by omega), h]
      · rw [if_neg h, if_neg (by omega)])
    hplaced
  rw [← run_map] at hviews
  exact ⟨hviews.1, fun m hm => (hviews.2 m trivial).trans (if_pos hm)⟩

theorem run_cores (cn : List (Fin 6)) {n : Nat} (hplaced : Placed base lo step n s)
    (hlanes : ∀ j, lo ≤ j → j < hi → LaneAt k cores cn (blob data size j) part j s) (r : Nat) :
    let t := run (act k data size) ((List.range r).flatMap fun i =>
      (List.range (hi - lo)).map fun q =>
        .core (part = 0 ∧ i = 0) (cores.getD (part * 5 + i) 0) (lo + q)) s
    Placed base lo step n t ∧ ∀ j, lo ≤ j → j < hi → (part = 0 ∧ r = 0) ∨
      read t.tmp (j * 64) 64 =
        coreChain k cores part r (laneInput k cores cn (blob data size j) part) := by
  induction r with
  | zero =>
    refine ⟨hplaced, fun j hlo hhi => ?_⟩
    cases part with
    | zero => exact .inl ⟨rfl, rfl⟩
    | succ part => exact .inr (hlanes j hlo hhi).2
  | succ r ih =>
    obtain ⟨hp, hchain⟩ := ih
    rw [List.range_succ, List.flatMap_append, run_append, List.flatMap_cons, List.flatMap_nil,
      List.append_nil]
    obtain ⟨hp', hcore⟩ := run_core (k := k) (decide (part = 0 ∧ r = 0))
      (cores.getD (part * 5 + r) 0) n hp
    refine ⟨hp', fun j hlo hhi => .inr ?_⟩
    have hj := hcore (j - lo) (by omega)
    rw [Nat.add_sub_cancel' hlo] at hj
    rw [hj, coreChain_succ]
    by_cases hfirst : part = 0 ∧ r = 0
    · rw [if_pos (by simpa using hfirst)]
      obtain ⟨rfl, rfl⟩ := hfirst
      rfl
    · rw [if_neg (by simpa using hfirst), (hchain j hlo hhi).resolve_left hfirst]

/-- The CryptoNight calls of a part. -/
theorem run_calls (k : Kernels W) (data : Memory) (size : Nat) (h : Grouped step lo hi)
    (hplaced : Placed base lo step (cnSizes algo) s) :
    let t := run (act k data size) ((List.range ((hi - lo + step - 1) / step)).flatMap fun q =>
      call k ⟨algo, step, lo, lo + q * step⟩) s
    Placed base lo step (cnSizes algo) t ∧ ∀ j, lo ≤ j → j < hi →
      read t.output (j * 32) 32 = cryptonight k algo (read s.tmp (j * 64) 64) := by
  intro t
  have hpos : 0 < step := by rcases h.cases with rfl | rfl | rfl <;> decide
  have hviews := foldl_views
    (V := fun m (u : State W) => (read u.tmp ((lo + m) * 64) 64, read u.output ((lo + m) * 32) 32))
    (M := fun _ => True) (I := Placed base lo step (cnSizes algo))
    (g := fun _ v => (v.1, cryptonight k algo v.1))
    (F := fun q u => run (act k data size) (call k ⟨algo, step, lo, lo + q * step⟩) u)
    (fun m => m / step) ((hi - lo + step - 1) / step)
    (fun q _ u hu => by
      rw [Placed, (run_call k data size (hu.padApart (lo + q * step))).1]
      exact hu)
    (fun q _ u hu m _ => by
      obtain ⟨-, htmp, hout⟩ := run_call k data size (hu.padApart (lo + q * step))
      have hgroup : m / step = q ↔ lo + q * step ≤ lo + m ∧ lo + m < lo + q * step + step := by
        rw [Nat.div_eq_iff hpos]
        omega
      by_cases hm : m / step = q
      · rw [if_pos hm]
        exact Prod.ext (by rw [htmp]) (by rw [hout, if_pos (hgroup.mp hm)])
      · rw [if_neg hm]
        exact Prod.ext (by rw [htmp]) (by rw [hout, if_neg fun h => hm (hgroup.mpr h)]))
    hplaced
  rw [← run_flatMap] at hviews
  refine ⟨hviews.1, fun j hlo hhi => ?_⟩
  have hin : (j - lo) / step < (hi - lo + step - 1) / step := by
    rw [Nat.div_lt_iff_lt_mul hpos, h.calls]
    omega
  have hj := congrArg Prod.snd ((hviews.2 (j - lo) trivial).trans (if_pos hin))
  simpa only [Nat.add_sub_cancel' hlo] using hj

/-- The digests become the next inputs. -/
theorem run_copies (k : Kernels W) (data : Memory) (size n : Nat)
    (hplaced : Placed base lo step n s) :
    let t := run (act k data size) ((List.range (hi - lo)).map fun q => .copy (lo + q)) s
    Placed base lo step n t ∧ ∀ j, lo ≤ j → j < hi →
      read t.output (j * 32) 32 = read s.output (j * 32) 32 ∧
      read t.tmp (j * 64) 64 = padded (read s.output (j * 32) 32) := by
  intro t
  have hviews := foldl_views
    (V := fun m (u : State W) => (read u.tmp ((lo + m) * 64) 64, read u.output ((lo + m) * 32) 32))
    (M := fun _ => True) (I := Placed base lo step n) (g := fun _ v => (padded v.2, v.2))
    (F := fun q => act k data size (.copy (lo + q))) id (hi - lo)
    (fun _ _ _ hu => hu)
    (fun q _ u _ m _ => by
      have htmp := read_digest u.tmp (lo + q) (lo + m) (padded (read u.output ((lo + q) * 32) 32))
        (n := 64) (by simp [padded])
      simp only [act, id]
      by_cases h : m = q
      · rw [if_pos (by omega)] at htmp
        rw [if_pos h]
        exact Prod.ext (by rw [htmp, h]) rfl
      · rw [if_neg (by omega)] at htmp
        rw [if_neg h]
        exact Prod.ext htmp rfl)
    hplaced
  rw [← run_map] at hviews
  refine ⟨hviews.1, fun j hlo hhi => ?_⟩
  have hin : id (j - lo) < hi - lo := by simp only [id]; omega
  have hj := (hviews.2 (j - lo) trivial).trans (if_pos hin)
  rw [Prod.mk.injEq] at hj
  simpa only [Nat.add_sub_cancel' hlo, and_comm] using hj

/-- One part takes each lane one part further. -/
theorem run_hashPart (h : Grouped step lo hi)
    (hplaced : Placed base lo step (cnSizes (cn.getD part 0)) s)
    (hcores : part * 5 + 5 ≤ cores.length)
    (hlanes : ∀ j, lo ≤ j → j < hi → LaneAt k cores cn (blob data size j) part j s) (j : Nat)
    (hlo : lo ≤ j) (hhi : j < hi) :
    LaneAt k cores cn (blob data size j) (part + 1) j
      (run (act k data size) (hashPart k cores (cn.getD part 0) step part lo hi) s) := by
  obtain ⟨hplaced₁, hchain⟩ := run_cores cn hplaced hlanes 5
  obtain ⟨hplaced₂, hcalls⟩ := run_calls k data size h hplaced₁
  obtain ⟨-, hcopies⟩ := run_copies k data size _ hplaced₂
  obtain ⟨hout, htmp⟩ := hcopies j hlo hhi
  have hinput := (hchain j hlo hhi).resolve_left (by omega)
  have hdigest := (hcalls j hlo hhi).trans (congrArg (cryptonight k _) hinput)
  rw [coreChain, ← partCores_eq hcores] at hdigest
  have heq := digest_eq k cores cn (blob data size j) part
  rw [lanePart, ← hdigest] at heq
  rw [hashPart, run_append, run_append]
  exact ⟨hout.trans heq.symm, htmp.trans (congrArg padded heq.symm)⟩

/-! ### Allocation -/

theorem run_setMemory (k : Kernels W) (data : Memory) (size : Nat) (is : List Nat) (f : Nat → Nat) :
    run (act k data size) (is.map fun i => .setMemory i (f i)) s =
      { s with memory := fun i => if i ∈ is then f i else s.memory i } := by
  induction is generalizing s with
  | nil => simp
  | cons i is ih =>
    rw [List.map_cons, run_cons, ih]
    simp only [act, State.mk.injEq, true_and, and_true]
    funext j
    by_cases hj : j ∈ is
    · rw [if_pos hj, if_pos (List.mem_cons_of_mem i hj)]
    · rw [if_neg hj]
      by_cases hji : j = i
      · rw [hji, Function.update_self, if_pos List.mem_cons_self]
      · rw [Function.update_of_ne hji, if_neg (by simp [hji, hj])]

theorem confined_setMemory {lo' hi' : Nat} (hdisjoint : hi ≤ lo' ∨ hi' ≤ lo) {is : List Nat}
    (his : ∀ i ∈ is, lo ≤ i ∧ i < hi) (f : Nat → Nat) :
    Confined (act k data size) (area base lo hi) (area base lo' hi') (PadsIn base lo hi)
      (is.map fun i => .setMemory i (f i)) s := by
  refine Confined.of_invariant (I := fun _ => True) trivial fun a ha u _ => ⟨trivial, ?_⟩
  obtain ⟨i, hi, rfl⟩ := List.mem_map.mp ha
  exact act_confined hdisjoint (his i hi) ⟨List.Pairwise.nil, by simp [padsOf, Action.call?]⟩

abbrev blocks (base : Nat) : Nat → Nat := CnCtx.create base blockSize

theorem allocatePads_eq (h : Grouped step lo hi) (algo : Fin 6) (p : Nat) :
    (allocatePads (blocks base) (cnSizes algo) step lo lo hi p).1 =
      (List.range' lo (hi - lo)).map fun i =>
        .setMemory i (blocks base lo + i % step * cnSizes algo) := by
  refine allocate_fst (fun _ => rfl) (cnSizes_dvd algo) h.step_mem _ lo (.inl ?_)
  rcases h.cases with hstep | hstep | hstep
  all_goals
    have := h.lo_mod
    rw [hstep]
    omega

theorem placed_allocatePads (h : Grouped step lo hi) (algo : Fin 6) (p : Nat) :
    Placed base lo step (cnSizes algo)
      (run (act k data size) (allocatePads (blocks base) (cnSizes algo) step lo lo hi p).1 s) := by
  intro l hl
  have hle := h.step_le
  rw [allocatePads_eq h, run_setMemory]
  simp only [List.mem_range'_1]
  rw [if_pos (by omega), h.mod hl]
  rfl

theorem laneAt_allocatePads (h : Grouped step lo hi) (algo : Fin 6) (p : Nat) {b : List UInt8}
    {j : Nat} (hlane : LaneAt k cores cn b part j s) :
    LaneAt k cores cn b part j
      (run (act k data size) (allocatePads (blocks base) (cnSizes algo) step lo lo hi p).1 s) := by
  rw [allocatePads_eq h, run_setMemory]
  exact hlane.of_memory _

theorem confined_allocatePads {lo' hi' : Nat} (hdisjoint : hi ≤ lo' ∨ hi' ≤ lo)
    (h : Grouped step lo hi) (algo : Fin 6) (p : Nat) :
    Confined (act k data size) (area base lo hi) (area base lo' hi') (PadsIn base lo hi)
      (allocatePads (blocks base) (cnSizes algo) step lo lo hi p).1 s := by
  rw [allocatePads_eq h]
  refine confined_setMemory hdisjoint (fun i hi => ?_) _
  have := List.mem_range'_1.mp hi
  have := h.lt
  omega

/-! ### A thread from part to part -/

/-- What a thread does that does not wait between the parts. -/
def threadParts (k : Kernels W) (base : Nat) (cores : List (Fin 15)) (cn : List (Fin 6))
    (steps : Nat → Nat) (lo hi r : Nat) : List Action :=
  (List.range r).flatMap fun part =>
    (allocatePads (blocks base) (cnSizes (cn.getD part 0)) (steps part) lo lo hi
      (blocks base lo)).1 ++
    hashPart k cores (cn.getD part 0) (steps part) part lo hi

theorem threadParts_sound (k : Kernels W) (data : Memory) (size base : Nat) (cn : List (Fin 6))
    (s : State W) {steps : Nat → Nat} {lo' hi' : Nat} (hdisjoint : hi ≤ lo' ∨ hi' ≤ lo)
    (h : ∀ part, Grouped (steps part) lo hi) (hcores : cores.length = 15) {r : Nat} (hr : r ≤ 3) :
    Confined (act k data size) (area base lo hi) (area base lo' hi') (PadsIn base lo hi)
        (threadParts k base cores cn steps lo hi r) s ∧
      ∀ j, lo ≤ j → j < hi → LaneAt k cores cn (blob data size j) r j
        (run (act k data size) (threadParts k base cores cn steps lo hi r) s) := by
  induction r with
  | zero => exact ⟨trivial, fun _ _ _ => trivial⟩
  | succ r ih =>
    obtain ⟨hconfined, hlanes⟩ := ih (by omega)
    have hsplit : threadParts k base cores cn steps lo hi (r + 1) =
        threadParts k base cores cn steps lo hi r ++
          ((allocatePads (blocks base) (cnSizes (cn.getD r 0)) (steps r) lo lo hi
            (blocks base lo)).1 ++ hashPart k cores (cn.getD r 0) (steps r) r lo hi) := by
      simp only [threadParts, List.range_succ, List.flatMap_append, List.flatMap_cons,
        List.flatMap_nil, List.append_nil]
    rw [hsplit, run_append, run_append]
    have hplaced : Placed base lo (steps r) (cnSizes (cn.getD r 0)) (run (act k data size)
        (allocatePads (blocks base) (cnSizes (cn.getD r 0)) (steps r) lo lo hi (blocks base lo)).1
        (run (act k data size) (threadParts k base cores cn steps lo hi r) s)) :=
      placed_allocatePads (h r) _ _
    refine ⟨hconfined.append ((confined_allocatePads hdisjoint (h r) _ _).append
      (confined_hashPart hdisjoint (h r) hplaced cores)), ?_⟩
    exact run_hashPart (h r) hplaced (by omega) fun j hlo hhi =>
      laneAt_allocatePads (h r) _ _ (hlanes j hlo hhi)

/-! ### Phases -/

/-- What `hash_octa` leaves behind. -/
def Finished (k : Kernels W) (data : Memory) (size base : Nat) (cores : List (Fin 15))
    (cn : List (Fin 6)) (s : State W) : Prop :=
  (∀ i < 8, s.memory i = blocks base i) ∧
    ∀ j < 8, read s.output (j * 32) 32 = digest k cores cn (blob data size j) 2

def Hashes (k : Kernels W) (data : Memory) (size base : Nat) (cores : List (Fin 15))
    (cn : List (Fin 6)) : List (Phase Action) → State W → Prop :=
  Correct (act k data size) (Safe base (base + 8 * blockSize)) (Finished k data size base cores cn)

theorem hashes_cons {mid : Nat} (hmid : mid ≤ 8) {p : Phase Action} {rest : List (Phase Action)}
    (hmain : Confined (act k data size) (area base 0 mid) (area base mid 8) (PadsIn base 0 mid)
      p.main s)
    (hhelper : Confined (act k data size) (area base mid 8) (area base 0 mid) (PadsIn base mid 8)
      p.helper s)
    (hnext : ∀ t, SameArea base 0 mid (run (act k data size) p.main s) t →
      SameArea base mid 8 (run (act k data size) p.helper s) t →
      Hashes k data size base cores cn rest t) :
    Hashes k data size base cores cn (p :: rest) s :=
  ⟨split base mid, split_covers hmid, hmain, hhelper, hnext⟩

/-- The pointers are restored, the digests stay. -/
theorem hashes_restore
    (hlanes : ∀ j < 8, LaneAt k cores cn (blob data size j) 3 j s) :
    Hashes k data size base cores cn [⟨restore (blocks base), []⟩] s := by
  refine hashes_cons le_rfl (confined_setMemory (.inl le_rfl) (fun i hi => ?_) _) trivial ?_
  · exact ⟨Nat.zero_le i, List.mem_range.mp hi⟩
  · intro t ht _
    rw [restore, run_setMemory] at ht
    constructor
    · intro i hi
      rw [← ht.memory i (Nat.zero_le i) hi]
      exact if_pos (List.mem_range.mpr hi)
    · intro j hj
      rw [← ht.output.read (by omega) (by omega)]
      exact (hlanes j hj).1

/-- The pointers of a part: both threads start with a block of their own. -/
theorem allocation_eq (tune : AlgoTune) (algo : Fin 6) (base : Nat) :
    ∃ f : Nat → Nat,
      (let pads := allocatePads (blocks base) (cnSizes algo) tune.step
       let one := pads 0 0 (8 / tune.threads) (blocks base 0)
       one.1 ++ (pads 4 (8 / tune.threads) 8 one.2).1 =
         (List.range 8).map fun i => Action.setMemory i (f i)) ∧
      (∀ l < tune.step, f (0 + l) = base + 0 * blockSize + l * cnSizes algo) ∧
      (tune.threads = 2 →
        ∀ l < tune.step, f (4 + l) = base + 4 * blockSize + l * cnSizes algo) := by
  have hall : Grouped tune.step 0 8 := ⟨tune.step_mem, rfl, rfl, by omega⟩
  have hlow : Grouped tune.step 0 4 := ⟨tune.step_mem, rfl, rfl, by omega⟩
  have hhigh : Grouped tune.step 4 8 := ⟨tune.step_mem, rfl, rfl, by omega⟩
  have hthreads : tune.threads = 1 ∨ tune.threads = 2 := by simpa using tune.threads_mem
  rcases hthreads with hone | htwo
  · refine ⟨fun i => blocks base 0 + i % tune.step * cnSizes algo, ?_, fun l hl => ?_, by omega⟩
    · have hnone (p : Nat) :
          (allocatePads (blocks base) (cnSizes algo) tune.step 4 8 8 p).1 = [] := rfl
      simp only [hone, Nat.div_one, hnone, List.append_nil]
      exact allocatePads_eq hall algo _
    · dsimp only
      rw [hall.mod hl]
      rfl
  · refine ⟨fun i => blocks base (if i < 4 then 0 else 4) + i % tune.step * cnSizes algo, ?_,
      fun l hl => ?_, fun _ l hl => ?_⟩
    · simp only [htwo]
      have hrange : List.range 8 = List.range' 0 (4 - 0) ++ List.range' 4 (8 - 4) := rfl
      rw [allocatePads_eq hlow, allocatePads_eq hhigh, hrange, List.map_append]
      refine congrArg₂ _ (List.map_congr_left fun i hi => ?_) (List.map_congr_left fun i hi => ?_)
      · rw [if_pos (by have := List.mem_range'_1.mp hi; omega)]
      · rw [if_neg (by have := List.mem_range'_1.mp hi; omega)]
    · have := hlow.step_le
      dsimp only
      rw [if_pos (by omega), hlow.mod hl]
      rfl
    · dsimp only
      rw [if_neg (by omega), hhigh.mod hl]
      rfl

/-- One part, in phases: allocation, then one or two threads. -/
theorem hashes_part (part : Nat) {rest : List (Phase Action)} (hpart : part < 3)
    (hcores : cores.length = 15)
    (tune : AlgoTune) (parallel : Prop) [Decidable parallel]
    (hparallel : parallel → tune.threads = 2)
    (hrest : ∀ t, (∀ j < 8, LaneAt k cores cn (blob data size j) (part + 1) j t) →
      Hashes k data size base cores cn rest t)
    (hlanes : ∀ j < 8, LaneAt k cores cn (blob data size j) part j s) :
    let pads := allocatePads (blocks base) (cnSizes (cn.getD part 0)) tune.step
    let one := pads 0 0 (8 / tune.threads) (blocks base 0)
    let lanes := hashPart k cores (cn.getD part 0) tune.step part
    Hashes k data size base cores cn
      (⟨one.1 ++ (pads 4 (8 / tune.threads) 8 one.2).1, []⟩ ::
        (if parallel then ⟨lanes 0 4, lanes 4 8⟩ else ⟨lanes 0 8, []⟩) :: rest) s := by
  intro pads one lanes
  obtain ⟨f, heq, hlow, hhigh⟩ := allocation_eq tune (cn.getD part 0) base
  refine hashes_cons le_rfl ?_ trivial fun t ht _ => ?_
  · exact heq ▸ confined_setMemory (.inl le_rfl)
      (fun i hi => ⟨Nat.zero_le i, List.mem_range.mp hi⟩) f
  have ht : SameArea base 0 8
      { s with memory := fun i => if i ∈ List.range 8 then f i else s.memory i } t := by
    rw [← run_setMemory k data size, ← heq]
    exact ht
  have hlanes' (j : Nat) (hj : j < 8) : LaneAt k cores cn (blob data size j) part j t :=
    ((hlanes j hj).of_memory _).congr ht (Nat.zero_le j) hj
  have hmemory (i : Nat) (hi : i < 8) : t.memory i = f i := by
    rw [← ht.memory i (Nat.zero_le i) hi]
    exact if_pos (List.mem_range.mpr hi)
  have hgrouped (lo hi : Nat) (hlo : lo % 4 = 0) (hhi : hi % 4 = 0) (hlt : lo < hi) :
      Grouped tune.step lo hi := ⟨tune.step_mem, hlo, hhi, hlt⟩
  have hstep := (hgrouped 0 4 rfl rfl (by omega)).step_le
  have hplaced : Placed base 0 tune.step (cnSizes (cn.getD part 0)) t := fun l hl => by
    rw [hmemory _ (by omega), hlow l hl]
  by_cases hp : parallel
  · have hplaced' : Placed base 4 tune.step (cnSizes (cn.getD part 0)) t := fun l hl => by
      rw [hmemory _ (by omega), hhigh (hparallel hp) l hl]
    have h₁ := hgrouped 0 4 rfl rfl (by omega)
    have h₂ := hgrouped 4 8 rfl rfl (by omega)
    rw [if_pos hp]
    refine hashes_cons (by omega) (confined_hashPart (.inl le_rfl) h₁ hplaced cores)
      (confined_hashPart (.inr le_rfl) h₂ hplaced' cores) fun u hu hu' => hrest u fun j hj => ?_
    by_cases hj' : j < 4
    · exact (run_hashPart h₁ hplaced (by omega) (fun j _ hj => hlanes' j (by omega)) j
        (Nat.zero_le j) hj').congr hu (Nat.zero_le j) hj'
    · exact (run_hashPart h₂ hplaced' (by omega) (fun j _ hj => hlanes' j (by omega)) j
        (by omega) hj).congr hu' (by omega) hj
  · have h := hgrouped 0 8 rfl rfl (by omega)
    rw [if_neg hp]
    refine hashes_cons le_rfl (confined_hashPart (.inl le_rfl) h hplaced cores) trivial
      fun u hu _ => hrest u fun j hj => ?_
    exact (run_hashPart h hplaced (by omega) (fun j _ hj => hlanes' j hj) j
      (Nat.zero_le j) hj).congr hu (Nat.zero_le j) hj

theorem hashes_hashOcta (helper : Option HelperThread) (tuneDefault tune8MB : Fin 6 → AlgoTune)
    (s : State W) :
    Hashes k data size base (selectIndices 15 (seed data)) (selectIndices 6 (seed data))
      (hashOcta k data (blocks base) helper tuneDefault tune8MB) s := by
  have hcores := length_selectIndices 15 (seed data)
  let t (part : Nat) :=
    tuneOf helper tuneDefault tune8MB ((selectIndices 6 (seed data)).getD part 0)
  have hstep (lo hi : Nat) (hlo : lo % 4 = 0) (hhi : hi % 4 = 0) (hlt : lo < hi) (part : Nat) :
      Grouped (t part).step lo hi := ⟨(t part).step_mem, hlo, hhi, hlt⟩
  unfold hashOcta
  dsimp only
  split
  case isTrue hall =>
    have hmain := threadParts_sound k data size base (selectIndices 6 (seed data)) s
      (.inl le_rfl : 4 ≤ 4 ∨ 8 ≤ 0)
      (hstep 0 4 rfl rfl (by omega)) hcores le_rfl
    have hhelper := threadParts_sound k data size base (selectIndices 6 (seed data)) s
      (.inr le_rfl : 8 ≤ 0 ∨ 4 ≤ 4)
      (hstep 4 8 rfl rfl (by omega)) hcores le_rfl
    refine hashes_cons (by omega) hmain.1 hhelper.1 fun u hu hu' =>
      hashes_restore fun j hj => ?_
    by_cases hj' : j < 4
    · exact (hmain.2 j (Nat.zero_le j) hj').congr hu (Nat.zero_le j) hj'
    · exact (hhelper.2 j (by omega) hj).congr hu' (by omega) hj
  case isFalse =>
    exact hashes_part 0 (by omega) hcores (t 0) _ (fun h => h.2)
      (fun _ h₁ => hashes_part 1 (by omega) hcores (t 1) _ (fun h => h.2)
        (fun _ h₂ => hashes_part 2 (by omega) hcores (t 2) _ (fun h => h.2)
          (fun _ h₃ => hashes_restore h₃) h₂) h₁) fun _ _ => trivial

theorem hashes_hashOctaPlain (armOrRiscv : Bool) (s : State W) :
    Hashes k data size base (selectIndices 15 (seed data)) (selectIndices 6 (seed data))
      (hashOctaPlain k data (blocks base) armOrRiscv) s := by
  have hstep (part : Nat) :
      Grouped (plainStep armOrRiscv ((selectIndices 6 (seed data)).getD part 0)) 0 8 := by
    have h : ∀ (b : Bool) (a : Fin 6), plainStep b a ∈ [1, 2, 4] := by decide
    exact ⟨h _ _, rfl, rfl, by omega⟩
  have hmain := threadParts_sound k data size base (selectIndices 6 (seed data)) s
      (.inl le_rfl : 8 ≤ 8 ∨ 8 ≤ 0) hstep
    (length_selectIndices 15 (seed data)) le_rfl
  refine hashes_cons le_rfl (hmain.1.append (confined_setMemory (.inl le_rfl) (fun i hi => ?_) _))
    trivial fun u hu _ => ?_
  · exact ⟨Nat.zero_le i, List.mem_range.mp hi⟩
  · dsimp only at hu
    rw [run_append, restore, run_setMemory] at hu
    constructor
    · intro i hi
      rw [← hu.memory i (Nat.zero_le i) hi]
      exact if_pos (List.mem_range.mpr hi)
    · intro j hj
      rw [← hu.output.read (by omega) (by omega)]
      exact (hmain.2 j (Nat.zero_le j) hj).1

/-- A block header that carries the seed of the first lane has its own hash. -/
theorem laneHash_eq_ghostrider {j : Nat} (hsize : 36 ≤ size)
    (hseed : ∀ i < 32, data (j * size + 4 + i) = data (4 + i)) :
    laneHash k (seed data) (blob data size j) = ghostrider k (blob data size j) := by
  have hsame (i : Nat) (hi : i < 32) :
      seed data i = seed (fun i => (blob data size j).getD i 0) i := by
    rw [seed, seed, ← hseed i hi, List.getD_eq_getElem _ _ (by rw [blob, length_read]; omega)]
    simp only [blob, CodeBuffer.read, List.getElem_map, List.getElem_range, Nat.add_assoc]
  rw [ghostrider, laneHash, laneHash, selectIndices_congr 15 hsame, selectIndices_congr 6 hsame]

/-- Whatever the build, the tuning and the schedule, every lane gets its own hash; the scratchpads
in use lie apart inside the allocated block, and the pointers to them are restored. -/
theorem hashOcta_lanes (k : Kernels W) (build : Build) (data : Memory) (size base : Nat)
    (s : State W) :
    (selectIndices 15 (seed data)).Perm (List.finRange 15) ∧
    (selectIndices 6 (seed data)).Perm (List.finRange 6) ∧
    let ctxMemory := CnCtx.create base (l3 GHOSTRIDER_RTM)
    let entry := start (build.phases k data ctxMemory) { s with memory := ctxMemory }
    ∀ turns c, exec (ForkJoin.step (act k data size)) entry turns = some c →
      Safe base (base + 8 * l3 GHOSTRIDER_RTM) c.main.head? c.helper.head? c.state ∧
      turns.length ≤ entry.size ∧
      (∃ more d, exec (ForkJoin.step (act k data size)) c more = some d ∧ d.Done) ∧
      (c.Done →
        (∀ i < 8, c.state.memory i = ctxMemory i) ∧
        ∀ j < 8,
          read c.state.output (j * 32) 32 = laneHash k (seed data) (blob data size j) ∧
          (36 ≤ size → (∀ i < 32, data (j * size + 4 + i) = data (4 + i)) →
            read c.state.output (j * 32) 32 = ghostrider k (blob data size j))) := by
  refine ⟨selectIndices_perm 15 _, selectIndices_perm 6 _, ?_⟩
  intro ctxMemory entry turns c hexec
  have hphases : Hashes k data size base (selectIndices 15 (seed data))
      (selectIndices 6 (seed data)) (build.phases k data (blocks base))
      { s with memory := blocks base } := by
    cases build with
    | hwloc helper tuneDefault tune8MB => exact hashes_hashOcta helper tuneDefault tune8MB _
    | plain armOrRiscv => exact hashes_hashOctaPlain armOrRiscv _
  have hsafe (u : State W) : Safe base (base + 8 * blockSize) none none u :=
    ⟨List.Pairwise.nil, by simp [padsOf]⟩
  obtain ⟨hpads, hpost⟩ := correct_sound hsafe hphases hexec
  refine ⟨hpads, ?_, exec_ends _ c, fun hdone => ?_⟩
  · have := exec_size hexec
    omega
  · obtain ⟨hmemory, hdigests⟩ := hpost hdone
    refine ⟨hmemory, fun j hj => ⟨hdigests j hj, fun hsize hseed => ?_⟩⟩
    exact (hdigests j hj).trans (laneHash_eq_ghostrider hsize hseed)

end VeloxHash.GhostRider
