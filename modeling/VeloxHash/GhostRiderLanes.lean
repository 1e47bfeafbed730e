import VeloxHash.GhostRiderThreads

/-! What a thread of GhostRider computes when it runs alone: each lane goes through five core
hashes and a CryptoNight function as if it were the only one. -/

namespace VeloxHash.GhostRider

open CodeBuffer ForkJoin

variable {W : Type} {s t : State W} {k : Kernels W} {data : Memory} {size base lo hi step : Nat}
  {a : Action} {c : Call} {algo : Fin 6}

/-! ### One call -/

def padApart (c : Call) (s : State W) : Prop :=
  ∀ l < c.step, ∀ m < c.step, l ≠ m →
    Apart (s.memory (c.ctx + l), cnSizes c.algo) (s.memory (c.ctx + m), cnSizes c.algo)

theorem getPad_write {n : Nat} (m : Memory) (p : Nat) (v : Vector UInt8 n) :
    getPad (write m p v.toList) p n = v := by
  apply Vector.ext
  intro i hi
  simp only [getPad, Vector.getElem_ofFn, write]
  rw [if_neg (by omega), Nat.add_sub_cancel_left, List.getD_eq_getElem _ _ (by simpa using hi)]
  exact Vector.getElem_toList (by simpa using hi)

theorem getPad_write_apart {n : Nat} {p q : Nat} (m : Memory) (v : Vector UInt8 n)
    (h : Apart (p, n) (q, n)) : getPad (write m p v.toList) q n = getPad m q n := by
  apply Vector.ext
  intro i hi
  simp only [getPad, Vector.getElem_ofFn]
  rcases h with h | h
  · exact write_above (by rw [Vector.length_toList]; simp only at h; omega)
  · exact write_below (by simp only at h; omega)

theorem load_store (hapart : padApart c s) {l m : Nat} (hl : l < c.step) (hm : m < c.step)
    (v : W × Vector UInt8 (cnSizes c.algo)) :
    (s.store c l v).load c m = if m = l then v else s.load c m := by
  by_cases h : m = l
  · rw [if_pos h, h]
    simp only [State.load, State.store, Function.update_self, getPad_write]
  · rw [if_neg h]
    simp only [State.load, State.store]
    rw [Function.update_of_ne (by omega), getPad_write_apart _ _ (hapart l hl m hm (Ne.symm h))]

/-- What a call leaves alone. -/
structure CallFrame (c : Call) (s t : State W) : Prop where
  memory : t.memory = s.memory
  tmp : t.tmp = s.tmp
  output : ∀ j, j < c.lane ∨ c.lane + c.step ≤ j →
    read t.output (j * 32) 32 = read s.output (j * 32) 32

theorem CallFrame.apart (h : CallFrame c s t) (hapart : padApart c s) : padApart c t := by
  rw [padApart, h.memory]
  exact hapart

theorem CallFrame.store (h : CallFrame c s t) (l : Nat) (v : W × Vector UInt8 (cnSizes c.algo)) :
    CallFrame c s (t.store c l v) := ⟨h.memory, h.tmp, h.output⟩

theorem read_digest {n : Nat} (m : Memory) (i j : Nat) (bytes : List UInt8)
    (hbytes : bytes.length = n) :
    read (write m (i * n) bytes) (j * n) n = if j = i then bytes else read m (j * n) n := by
  by_cases h : j = i
  · rw [if_pos h, h, read_write_take (by omega), ← hbytes, List.take_length]
  · rw [if_neg h]
    refine read_write_disjoint ?_
    rcases Nat.lt_or_gt_of_ne h with h | h
    · have := Nat.mul_le_mul_right n h
      rw [Nat.succ_mul] at this
      exact .inl this
    · have := Nat.mul_le_mul_right n h
      rw [Nat.succ_mul] at this
      exact .inr (by omega)

theorem CallFrame.explode (h : CallFrame c s t) (l : Nat) :
    CallFrame c s (act k data size (.explode c l) t) := h.store l _

theorem CallFrame.iterate (h : CallFrame c s t) (l : Nat) :
    CallFrame c s (act k data size (.iterate c l) t) := h.store l _

theorem CallFrame.implode (h : CallFrame c s t) {l : Nat} (hl : l < c.step) :
    CallFrame c s (act k data size (.implode c l) t) where
  memory := h.memory
  tmp := h.tmp
  output j hj := by
    simp only [act]
    rw [read_digest _ _ _ _ (Vector.length_toList), if_neg (by omega), h.output j hj]

theorem run_explode (k : Kernels W) (data : Memory) (size : Nat) (hapart : padApart c s) :
    let t := run (act k data size) ((List.range c.step).map (.explode c)) s
    CallFrame c s t ∧ ∀ l < c.step,
      t.load c l = k.explode c.algo (read s.tmp ((c.lane + l) * 64) 64) := by
  intro t
  have hviews := foldl_views (V := fun l (u : State W) => u.load c l) (M := fun l => l < c.step)
    (g := fun l _ => k.explode c.algo (read s.tmp ((c.lane + l) * 64) 64))
    (I := CallFrame c s) (F := fun l => act k data size (.explode c l)) id c.step
    (fun l _ u hu => hu.explode l)
    (fun l hl u hu m hm => by
      simp only [act, load_store (hu.apart hapart) hl hm, hu.tmp, id]
      by_cases h : m = l
      · rw [if_pos h, if_pos h, h]
      · rw [if_neg h, if_neg h])
    (s := s) ⟨rfl, rfl, fun _ _ => rfl⟩
  rw [← run_map] at hviews
  exact ⟨hviews.1, fun l hl => (hviews.2 l hl).trans (if_pos hl)⟩

theorem run_iterate (k : Kernels W) (data : Memory) (size : Nat) (hapart : padApart c s)
    (hframe : CallFrame c s t) :
    let u := run (act k data size) ((List.range c.step).map (.iterate c)) t
    CallFrame c s u ∧ ∀ l < c.step, u.load c l = k.iterate c.algo (t.load c l) := by
  intro u
  have hviews := foldl_views (V := fun l (u : State W) => u.load c l) (M := fun l => l < c.step)
    (g := fun _ v => k.iterate c.algo v)
    (I := CallFrame c s) (F := fun l => act k data size (.iterate c l)) id c.step
    (fun l _ u hu => hu.iterate l)
    (fun l hl u hu m hm => by
      simp only [act, load_store (hu.apart hapart) hl hm, id]
      by_cases h : m = l
      · rw [if_pos h, if_pos h, h]
      · rw [if_neg h, if_neg h])
    hframe
  rw [← run_map] at hviews
  exact ⟨hviews.1, fun l hl => (hviews.2 l hl).trans (if_pos hl)⟩

theorem run_rounds (k : Kernels W) (data : Memory) (size : Nat) (hapart : padApart c s)
    (hframe : CallFrame c s t) (n : Nat) :
    let u := run (act k data size)
      ((List.range n).flatMap fun _ => (List.range c.step).map (.iterate c)) t
    CallFrame c s u ∧ ∀ l < c.step, u.load c l = (k.iterate c.algo)^[n] (t.load c l) := by
  induction n with
  | zero => exact ⟨hframe, fun _ _ => rfl⟩
  | succ n ih =>
    intro u
    obtain ⟨hn, hload⟩ := ih
    have hu : u = run (act k data size) ((List.range c.step).map (.iterate c))
        (run (act k data size)
          ((List.range n).flatMap fun _ => (List.range c.step).map (.iterate c)) t) := by
      rw [← run_append]
      simp only [u, List.range_succ, List.flatMap_append, List.flatMap_cons, List.flatMap_nil,
        List.append_nil]
    rw [hu]
    obtain ⟨hlast, hload'⟩ := run_iterate k data size hapart hn
    exact ⟨hlast, fun l hl => by rw [hload' l hl, hload l hl, Function.iterate_succ_apply']⟩

theorem run_implode (k : Kernels W) (data : Memory) (size : Nat) (hapart : padApart c s)
    (hframe : CallFrame c s t) :
    let u := run (act k data size) ((List.range c.step).map (.implode c)) t
    CallFrame c s u ∧ ∀ l < c.step, read u.output ((c.lane + l) * 32) 32 =
      (k.implode c.algo (t.load c l)).2.toList := by
  intro u
  have hviews := foldl_views
    (V := fun l (u : State W) => (u.load c l, read u.output ((c.lane + l) * 32) 32))
    (M := fun l => l < c.step)
    (g := fun _ v => ((k.implode c.algo v.1).1, (k.implode c.algo v.1).2.toList))
    (I := CallFrame c s) (F := fun l => act k data size (.implode c l)) id c.step
    (fun l hl u hu => hu.implode hl)
    (fun l hl u hu m hm => by
      have hload := load_store (hu.apart hapart) hl hm (k.implode c.algo (u.load c l)).1
      have hout := read_digest u.output (c.lane + l) (c.lane + m)
        (k.implode c.algo (u.load c l)).2.toList Vector.length_toList
      simp only [act, id]
      by_cases h : m = l
      · rw [if_pos h] at hload ⊢
        rw [if_pos (by omega)] at hout
        rw [h] at hload hout ⊢
        exact Prod.ext hload hout
      · rw [if_neg h] at hload ⊢
        rw [if_neg (by omega)] at hout
        exact Prod.ext hload hout)
    hframe
  rw [← run_map] at hviews
  exact ⟨hviews.1, fun l hl => congrArg Prod.snd ((hviews.2 l hl).trans (if_pos hl))⟩

/-- A call gives each of its lanes the digest it would give it alone. -/
theorem run_call (k : Kernels W) (data : Memory) (size : Nat) (hapart : padApart c s) :
    let t := run (act k data size) (call k c) s
    t.memory = s.memory ∧ t.tmp = s.tmp ∧ ∀ j, read t.output (j * 32) 32 =
      if c.lane ≤ j ∧ j < c.lane + c.step then cryptonight k c.algo (read s.tmp (j * 64) 64)
      else read s.output (j * 32) 32 := by
  intro t
  obtain ⟨hfilled, hfill⟩ := run_explode k data size hapart
  obtain ⟨hlooped, hloop⟩ := run_rounds k data size hapart hfilled
    (k.iterations c.algo)
  obtain ⟨hframe, hdigest⟩ := run_implode k data size hapart hlooped
  have ht : t = run (act k data size) ((List.range c.step).map (.implode c))
      (run (act k data size)
        ((List.range (k.iterations c.algo)).flatMap fun _ => (List.range c.step).map (.iterate c))
        (run (act k data size) ((List.range c.step).map (.explode c)) s)) := by
    rw [← run_append, ← run_append, ← List.append_assoc]
    rfl
  rw [← ht] at hframe hdigest
  refine ⟨hframe.memory, hframe.tmp, fun j => ?_⟩
  by_cases hj : c.lane ≤ j ∧ j < c.lane + c.step
  · rw [if_pos hj]
    have hl : j - c.lane < c.step := by omega
    have hlane : c.lane + (j - c.lane) = j := by omega
    have h := hdigest (j - c.lane) hl
    rw [hloop _ hl, hfill _ hl, hlane] at h
    rw [h, cryptonight]
  · rw [if_neg hj]
    exact hframe.output j (by omega)

/-! ### One part -/

/-- The lanes are grouped by `step` from `lo` on. -/
structure Grouped (step lo hi : Nat) : Prop where
  step_mem : step ∈ [1, 2, 4]
  lo_mod : lo % 4 = 0
  hi_mod : hi % 4 = 0
  lt : lo < hi

theorem Grouped.cases (h : Grouped step lo hi) : step = 1 ∨ step = 2 ∨ step = 4 := by
  simpa using h.step_mem

theorem Grouped.mod (h : Grouped step lo hi) {l : Nat} (hl : l < step) : (lo + l) % step = l := by
  have hlo := h.lo_mod
  rcases h.cases with rfl | rfl | rfl <;> omega

theorem Grouped.step_le (h : Grouped step lo hi) : lo + step ≤ hi := by
  have hlo := h.lo_mod
  have hhi := h.hi_mod
  have hlt := h.lt
  rcases h.cases with rfl | rfl | rfl <;> omega

/-- The groups fill the lanes. -/
theorem Grouped.calls (h : Grouped step lo hi) : (hi - lo + step - 1) / step * step = hi - lo := by
  have hlo := h.lo_mod
  have hhi := h.hi_mod
  have hlt := h.lt
  rcases h.cases with rfl | rfl | rfl <;> omega

theorem Grouped.group (h : Grouped step lo hi) {q : Nat} (hq : q < (hi - lo + step - 1) / step) :
    lo + q * step + step ≤ hi := by
  have hcalls := h.calls
  have hle := Nat.mul_le_mul_right step (Nat.succ_le_of_lt hq)
  rw [Nat.succ_mul] at hle
  have hlt := h.lt
  omega

/-- The scratchpads of the contexts from `lo` on lie one behind the other. -/
def Placed (base lo step n : Nat) (s : State W) : Prop :=
  ∀ l < step, s.memory (lo + l) = base + lo * blockSize + l * n

theorem Placed.apart (hplaced : Placed base lo step (cnSizes algo) s) {l m : Nat} (hlm : l < m)
    (hm : m < step) : s.memory (lo + l) + cnSizes algo ≤ s.memory (lo + m) := by
  rw [hplaced l (by omega), hplaced m hm]
  have hmul := Nat.mul_le_mul_right (cnSizes algo) (Nat.succ_le_of_lt hlm)
  rw [Nat.succ_mul] at hmul
  omega

theorem Placed.within (hplaced : Placed base lo step (cnSizes algo) s) (h : Grouped step lo hi)
    {l : Nat} (hl : l < step) :
    base + lo * blockSize ≤ s.memory (lo + l) ∧
      s.memory (lo + l) + cnSizes algo ≤ base + hi * blockSize := by
  have hle := h.step_le
  rw [hplaced l hl]
  have hend : l * cnSizes algo + cnSizes algo ≤ step * blockSize := by
    rw [← Nat.succ_mul]
    exact Nat.mul_le_mul (Nat.succ_le_of_lt hl) (cnSizes_le algo)
  have hblocks := Nat.mul_le_mul_right blockSize hle
  rw [Nat.add_mul] at hblocks
  omega

theorem Placed.padApart (hplaced : Placed base lo step (cnSizes algo) s) (lane : Nat) :
    padApart ⟨algo, step, lo, lane⟩ s := by
  intro l hl m hm hlm
  rcases Nat.lt_or_gt_of_ne hlm with hlm | hlm
  · exact .inl (hplaced.apart hlm hm)
  · exact .inr (hplaced.apart hlm hl)

/-- What one part consists of. -/
def InPart (algo : Fin 6) (step lo hi : Nat) (a : Action) : Prop :=
  a.Owned lo hi ∧ (∀ i p, a ≠ .setMemory i p) ∧
    ∀ c ∈ a.call?, c.algo = algo ∧ c.step = step ∧ c.ctx = lo

theorem mem_hashPart {coreIndices : List (Fin 15)} {part : Nat} (h : Grouped step lo hi)
    (ha : a ∈ hashPart k coreIndices algo step part lo hi) : InPart algo step lo hi a := by
  have hle := h.step_le
  simp only [hashPart, call, List.mem_append, List.mem_flatMap, List.mem_map, List.mem_range] at ha
  have hcall {q : Nat} (hq : q < (hi - lo + step - 1) / step) {l : Nat} (hl : l < step)
      {f : Call → Nat → Action} (hf : f = .explode ∨ f = .iterate ∨ f = .implode) :
      InPart algo step lo hi (f ⟨algo, step, lo, lo + q * step⟩ l) := by
    have hgroup := h.group hq
    rcases hf with rfl | rfl | rfl
    all_goals
      refine ⟨⟨hl, le_rfl, hle, Nat.le_add_right _ _, hgroup⟩, fun _ _ => Action.noConfusion, ?_⟩
      rintro c ⟨⟩
      exact ⟨rfl, rfl, rfl⟩
  rcases ha with (⟨i, -, q, hq, rfl⟩ | ⟨q, hq, hcalls⟩) | ⟨q, hq, rfl⟩
  · exact ⟨⟨by omega, by omega⟩, fun _ _ => Action.noConfusion, nofun⟩
  · rcases hcalls with (⟨l, hl, rfl⟩ | ⟨i, -, l, hl, rfl⟩) | ⟨l, hl, rfl⟩
    · exact hcall hq hl (.inl rfl)
    · exact hcall hq hl (.inr (.inl rfl))
    · exact hcall hq hl (.inr (.inr rfl))
  · exact ⟨⟨by omega, by omega⟩, fun _ _ => Action.noConfusion, nofun⟩

theorem act_memory (h : ∀ i p, a ≠ .setMemory i p) : (act k data size a s).memory = s.memory := by
  cases a with
  | setMemory i p => exact absurd rfl (h i p)
  | _ => rfl

theorem InPart.placed (ha : InPart algo step lo hi a) {n : Nat} (h : Placed base lo step n s) :
    Placed base lo step n (act k data size a s) := by
  rw [Placed, act_memory ha.2.1]
  exact h

theorem InPart.padsIn (ha : InPart algo step lo hi a) (h : Grouped step lo hi)
    (hplaced : Placed base lo step (cnSizes algo) s) : PadsIn base lo hi a s := by
  rw [PadsIn, padsOf, Option.bind_some]
  cases hc : a.call? with
  | none => exact ⟨List.Pairwise.nil, by simp⟩
  | some c =>
    obtain ⟨halgo, hstep, hctx⟩ := ha.2.2 c hc
    simp only [Call.pads, halgo, hstep, hctx]
    constructor
    · refine List.pairwise_map.mpr (List.pairwise_lt_range.imp_of_mem fun _ hm hlm => ?_)
      exact .inl (hplaced.apart hlm (List.mem_range.mp hm))
    · intro p hp
      obtain ⟨l, hl, rfl⟩ := List.mem_map.mp hp
      exact hplaced.within h (List.mem_range.mp hl)

theorem confined_hashPart {lo' hi' part : Nat} (hdisjoint : hi ≤ lo' ∨ hi' ≤ lo)
    (h : Grouped step lo hi) (hplaced : Placed base lo step (cnSizes algo) s)
    (coreIndices : List (Fin 15)) :
    Confined (act k data size) (area base lo hi) (area base lo' hi') (PadsIn base lo hi)
      (hashPart k coreIndices algo step part lo hi) s :=
  Confined.of_invariant hplaced fun _ ha _ hs =>
    have hin := mem_hashPart h ha
    ⟨hin.placed hs, act_confined hdisjoint hin.1 (hin.padsIn h hs)⟩

end VeloxHash.GhostRider
