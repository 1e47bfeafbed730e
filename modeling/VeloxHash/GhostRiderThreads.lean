import VeloxHash.GhostRider

/-! Who touches what in GhostRider. A thread that works on the lanes from `lo` to `hi` owns these
lanes of `tmp` and `output`, these contexts and their blocks of scratchpad memory. Its actions
read and write nothing else, and the scratchpads of its calls lie apart. -/

namespace VeloxHash.GhostRider

open CodeBuffer ForkJoin

/-! ### Agreement on a window -/

def AgreeOn {β : Type*} (lo hi : Nat) (f g : Nat → β) : Prop := ∀ p, lo ≤ p → p < hi → f p = g p

section AgreeOn

variable {β : Type*} {f g h : Nat → β} {m m' : Memory} {lo hi p n i : Nat} {bytes : List UInt8}

theorem AgreeOn.symm (hfg : AgreeOn lo hi f g) : AgreeOn lo hi g f :=
  fun p hlo hhi => (hfg p hlo hhi).symm

theorem AgreeOn.trans (hfg : AgreeOn lo hi f g) (hgh : AgreeOn lo hi g h) : AgreeOn lo hi f h :=
  fun p hlo hhi => (hfg p hlo hhi).trans (hgh p hlo hhi)

theorem AgreeOn.write (h : AgreeOn lo hi m m') :
    AgreeOn lo hi (write m p bytes) (write m' p bytes) := by
  intro a hlo hhi
  simp only [CodeBuffer.write, h a hlo hhi]

theorem AgreeOn.read (h : AgreeOn lo hi m m') (hlo : lo ≤ p) (hhi : p + n ≤ hi) :
    read m p n = read m' p n :=
  read_congr fun a hp hlt => h a (by omega) (by omega)

theorem AgreeOn.getPad (h : AgreeOn lo hi m m') (hlo : lo ≤ p) (hhi : p + n ≤ hi) :
    getPad m p n = getPad m' p n := by
  apply Vector.ext
  intro i hi
  simp only [GhostRider.getPad, Vector.getElem_ofFn]
  exact h _ (by omega) (by omega)

theorem AgreeOn.update (h : AgreeOn lo hi f g) (i : Nat) (v : β) :
    AgreeOn lo hi (Function.update f i v) (Function.update g i v) := by
  intro p hlo hhi
  by_cases hp : p = i
  · rw [hp, Function.update_self, Function.update_self]
  · rw [Function.update_of_ne hp, Function.update_of_ne hp, h p hlo hhi]

theorem agreeOn_write (h : p + bytes.length ≤ lo ∨ hi ≤ p) : AgreeOn lo hi m (write m p bytes) := by
  intro a hlo hhi
  rcases h with h | h
  · rw [write_above (by omega)]
  · rw [write_below (by omega)]

theorem agreeOn_update (h : i < lo ∨ hi ≤ i) (v : β) : AgreeOn lo hi f (Function.update f i v) := by
  intro p hlo hhi
  rw [Function.update_of_ne (by omega)]

end AgreeOn

/-! ### The part of a thread -/

variable {W : Type} {s t : State W} {k : Kernels W} {data : Memory}
  {size base lo hi lo' hi' : Nat} {a : Action} {c : Call}

def blockSize : Nat := 1 <<< 21

/-- What the thread of the lanes from `lo` to `hi` owns. -/
structure SameArea (base lo hi : Nat) (s t : State W) : Prop where
  tmp : AgreeOn (lo * 64) (hi * 64) s.tmp t.tmp
  output : AgreeOn (lo * 32) (hi * 32) s.output t.output
  scratch : AgreeOn (base + lo * blockSize) (base + hi * blockSize) s.scratch t.scratch
  memory : AgreeOn lo hi s.memory t.memory
  work : AgreeOn lo hi s.work t.work

def area (base lo hi : Nat) : Setoid (State W) where
  r := SameArea base lo hi
  iseqv := {
    refl := fun _ => ⟨fun _ _ _ => rfl, fun _ _ _ => rfl, fun _ _ _ => rfl, fun _ _ _ => rfl,
      fun _ _ _ => rfl⟩
    symm := fun h => ⟨h.tmp.symm, h.output.symm, h.scratch.symm, h.memory.symm, h.work.symm⟩
    trans := fun h h' => ⟨h.tmp.trans h'.tmp, h.output.trans h'.output,
      h.scratch.trans h'.scratch, h.memory.trans h'.memory, h.work.trans h'.work⟩ }

/-- The lane and the context of an action are among those of the thread. -/
def Action.Owned (lo hi : Nat) : Action → Prop
  | .setMemory i _ => lo ≤ i ∧ i < hi
  | .core _ _ lane | .copy lane => lo ≤ lane ∧ lane < hi
  | .explode c l | .iterate c l | .implode c l =>
    l < c.step ∧ lo ≤ c.ctx ∧ c.ctx + c.step ≤ hi ∧ lo ≤ c.lane ∧ c.lane + c.step ≤ hi

/-- The scratchpads an action may touch lie apart, in the blocks of the thread. -/
def PadsIn (base lo hi : Nat) (a : Action) (s : State W) : Prop :=
  (padsOf (some a) s).Pairwise Apart ∧
    ∀ p ∈ padsOf (some a) s, base + lo * blockSize ≤ p.1 ∧ p.1 + p.2 ≤ base + hi * blockSize

theorem padsOf_congr (howned : a.Owned lo hi) (h : SameArea base lo hi s t) :
    padsOf (some a) s = padsOf (some a) t := by
  have hcall {c : Call} {l : Nat}
      (hc : l < c.step ∧ lo ≤ c.ctx ∧ c.ctx + c.step ≤ hi ∧ lo ≤ c.lane ∧ c.lane + c.step ≤ hi) :
      c.pads s = c.pads t := by
    refine List.map_congr_left fun m hm => ?_
    rw [h.memory _ (by omega) (by have := List.mem_range.mp hm; omega)]
  cases a with
  | setMemory i p => rfl
  | core fromData index lane => rfl
  | explode c l => exact hcall howned
  | iterate c l => exact hcall howned
  | implode c l => exact hcall howned
  | copy lane => rfl

theorem PadsIn.congr (hpads : PadsIn base lo hi a s) (howned : a.Owned lo hi)
    (h : SameArea base lo hi s t) : PadsIn base lo hi a t := by
  rw [PadsIn, ← padsOf_congr howned h]
  exact hpads

/-- The calling thread owns the lanes below `mid`, the helper the others. -/
def split (base mid : Nat) : Split Action (State W) :=
  ⟨area base 0 mid, area base mid 8, PadsIn base 0 mid, PadsIn base mid 8⟩

theorem padsOf_within (x : Option Action) (h : ∀ a ∈ x, PadsIn base lo hi a s) :
    (padsOf x s).Pairwise Apart ∧
      ∀ p ∈ padsOf x s, base + lo * blockSize ≤ p.1 ∧ p.1 + p.2 ≤ base + hi * blockSize := by
  cases x with
  | none => exact ⟨List.Pairwise.nil, by simp [padsOf]⟩
  | some a => exact h a rfl

theorem split_covers {mid : Nat} (hmid : mid ≤ 8) :
    (split base mid : Split Action (State W)).Covers (Safe base (base + 8 * blockSize)) := by
  intro x y s hx hy
  obtain ⟨hmain, hmain'⟩ := padsOf_within x hx
  obtain ⟨hhelper, hhelper'⟩ := padsOf_within y hy
  have hblocks := Nat.mul_le_mul_right blockSize hmid
  constructor
  · refine List.pairwise_append.mpr ⟨hmain, hhelper, fun p hp q hq => ?_⟩
    exact .inl ((hmain' p hp).2.trans (hhelper' q hq).1)
  · intro p hp
    rcases List.mem_append.mp hp with hp | hp
    · have := hmain' p hp
      omega
    · have := hhelper' p hp
      omega

/-! ### Confinement -/

theorem pad_within {l : Nat} (hpads : PadsIn base lo hi a s) (ha : a.call? = some c)
    (hl : l < c.step) :
    base + lo * blockSize ≤ s.memory (c.ctx + l) ∧
      s.memory (c.ctx + l) + cnSizes c.algo ≤ base + hi * blockSize := by
  have hpad : (s.memory (c.ctx + l), cnSizes c.algo) ∈ padsOf (some a) s := by
    rw [padsOf, Option.bind_some, ha]
    exact List.mem_map.mpr ⟨l, List.mem_range.mpr hl, rfl⟩
  exact hpads.2 _ hpad

theorem load_congr {l : Nat} (h : SameArea base lo hi s t) (hlo : lo ≤ c.ctx + l)
    (hhi : c.ctx + l < hi) (hpad : base + lo * blockSize ≤ s.memory (c.ctx + l) ∧
      s.memory (c.ctx + l) + cnSizes c.algo ≤ base + hi * blockSize) :
    s.load c l = t.load c l := by
  rw [State.load, State.load, ← h.memory _ hlo hhi, h.work _ hlo hhi,
    h.scratch.getPad hpad.1 hpad.2]

theorem store_congr {l : Nat} (h : SameArea base lo hi s t) (hlo : lo ≤ c.ctx + l)
    (hhi : c.ctx + l < hi) (v : W × Vector UInt8 (cnSizes c.algo)) :
    SameArea base lo hi (s.store c l v) (t.store c l v) where
  tmp := h.tmp
  output := h.output
  scratch := by
    simp only [State.store, ← h.memory _ hlo hhi]
    exact h.scratch.write
  memory := h.memory
  work := h.work.update _ _

theorem store_other {l : Nat} (hdisjoint : hi ≤ lo' ∨ hi' ≤ lo) (hlo : lo ≤ c.ctx + l)
    (hhi : c.ctx + l < hi) (hpad : base + lo * blockSize ≤ s.memory (c.ctx + l) ∧
      s.memory (c.ctx + l) + cnSizes c.algo ≤ base + hi * blockSize)
    (v : W × Vector UInt8 (cnSizes c.algo)) : SameArea base lo' hi' s (s.store c l v) where
  tmp := fun _ _ _ => rfl
  output := fun _ _ _ => rfl
  scratch := by
    refine agreeOn_write ?_
    rw [Vector.length_toList]
    rcases hdisjoint with h | h
    · have := Nat.mul_le_mul_right blockSize h
      omega
    · have := Nat.mul_le_mul_right blockSize h
      omega
  memory := fun _ _ _ => rfl
  work := agreeOn_update (by omega) _

theorem act_congr (howned : a.Owned lo hi) (hpads : PadsIn base lo hi a s)
    (h : SameArea base lo hi s t) :
    SameArea base lo hi (act k data size a s) (act k data size a t) := by
  cases a with
  | setMemory i p => exact { h with memory := h.memory.update i p }
  | core fromData index lane =>
    obtain ⟨hlo, hhi⟩ := howned
    simp only [act, ← h.tmp.read (p := lane * 64) (n := 64) (by omega) (by omega)]
    exact { h with tmp := h.tmp.write }
  | explode c l =>
    obtain ⟨hl, hc, hc', hlane, hlane'⟩ := howned
    simp only [act, ← h.tmp.read (p := (c.lane + l) * 64) (n := 64) (by omega) (by omega)]
    exact store_congr h (by omega) (by omega) _
  | iterate c l =>
    obtain ⟨hl, hc, hc', hlane, hlane'⟩ := howned
    simp only [act, ← load_congr h (by omega) (by omega) (pad_within hpads rfl hl)]
    exact store_congr h (by omega) (by omega) _
  | implode c l =>
    obtain ⟨hl, hc, hc', hlane, hlane'⟩ := howned
    simp only [act, ← load_congr h (by omega) (by omega) (pad_within hpads rfl hl)]
    exact { store_congr h (by omega) (by omega) _ with output := h.output.write }
  | copy lane =>
    obtain ⟨hlo, hhi⟩ := howned
    simp only [act, ← h.output.read (p := lane * 32) (n := 32) (by omega) (by omega)]
    exact { h with tmp := h.tmp.write }

theorem act_other (hdisjoint : hi ≤ lo' ∨ hi' ≤ lo) (howned : a.Owned lo hi)
    (hpads : PadsIn base lo hi a s) : SameArea base lo' hi' s (act k data size a s) := by
  have hrefl : SameArea base lo' hi' s s := (area base lo' hi').refl s
  cases a with
  | setMemory i p =>
    obtain ⟨hlo, hhi⟩ := howned
    exact { hrefl with memory := agreeOn_update (by omega) p }
  | core fromData index lane =>
    obtain ⟨hlo, hhi⟩ := howned
    exact { hrefl with tmp := agreeOn_write (by rw [Vector.length_toList]; omega) }
  | explode c l =>
    obtain ⟨hl, hc, hc', -, -⟩ := howned
    exact store_other hdisjoint (by omega) (by omega) (pad_within hpads rfl hl) _
  | iterate c l =>
    obtain ⟨hl, hc, hc', -, -⟩ := howned
    exact store_other hdisjoint (by omega) (by omega) (pad_within hpads rfl hl) _
  | implode c l =>
    obtain ⟨hl, hc, hc', hlane, hlane'⟩ := howned
    have hstore := store_other hdisjoint (by omega) (by omega) (pad_within hpads rfl hl)
      (k.implode c.algo (s.load c l)).1
    exact { hstore with output := agreeOn_write (by rw [Vector.length_toList]; omega) }
  | copy lane =>
    obtain ⟨hlo, hhi⟩ := howned
    have hlength : (padded (read s.output (lane * 32) 32)).length = 64 := by simp [padded]
    exact { hrefl with tmp := agreeOn_write (by rw [hlength]; omega) }

/-- The step rule of both threads. -/
theorem act_confined (hdisjoint : hi ≤ lo' ∨ hi' ≤ lo) (howned : a.Owned lo hi)
    (hpads : PadsIn base lo hi a s) (t : State W) (h : (area base lo hi).r s t) :
    PadsIn base lo hi a t ∧ (area base lo hi).r (act k data size a s) (act k data size a t) ∧
      (area base lo' hi').r t (act k data size a t) :=
  ⟨hpads.congr howned h, act_congr howned hpads h,
    act_other hdisjoint howned (hpads.congr howned h)⟩

/-! ### Allocation -/

theorem cnSizes_dvd (a : Fin 6) : cnSizes a ∣ blockSize := by
  have h : ∀ a : Fin 6, cnSizes a ∣ blockSize := by decide +kernel
  exact h a

theorem cnSizes_le (a : Fin 6) : cnSizes a ≤ blockSize := Nat.le_of_dvd (by decide) (cnSizes_dvd a)

/-- Between two resets `p` is `i % step` scratchpads behind the start, and within a block or at its
end. -/
theorem allocate_fst {ctxMemory : Nat → Nat} {step first : Nat} {j p : Nat}
    (hmem : ∀ i, ctxMemory i = base + i * blockSize) (hsize : size ∣ blockSize)
    (hstep : step ∈ [1, 2, 4]) (n i : Nat)
    (hp : i % step = 0 ∨ (p = ctxMemory first + i % step * size ∧
      ∃ q, p = ctxMemory j + q * size ∧ q * size ≤ blockSize)) :
    (allocate ctxMemory size step first (List.range' i n) j p).1 =
      (List.range' i n).map fun i => .setMemory i (ctxMemory first + i % step * size) := by
  induction n generalizing i j p with
  | zero => rfl
  | succ n ih =>
    obtain ⟨d, hd⟩ := hsize
    have hblock : 0 < blockSize := by decide
    have hpos : 0 < size := Nat.pos_of_ne_zero fun h => by rw [h, Nat.zero_mul] at hd; omega
    have hnext : (nextPad ctxMemory step first i j p).2 = ctxMemory first + i % step * size ∧
        ∃ q, (nextPad ctxMemory step first i j p).2 =
            ctxMemory (nextPad ctxMemory step first i j p).1 + q * size ∧ q * size < blockSize := by
      unfold nextPad
      split
      case isTrue h => exact ⟨by rw [h, Nat.zero_mul, Nat.add_zero], 0, by simp, by omega⟩
      case isFalse hreset =>
        obtain ⟨hfirst, q, hq, hle⟩ := hp.resolve_left hreset
        split
        case isTrue hfull =>
          have hfull : blockSize ≤ p - ctxMemory j := hfull
          have hend : ctxMemory (j + 1) = p := by
            rw [hmem, Nat.succ_mul, ← Nat.add_assoc, ← hmem j]
            omega
          exact ⟨hend.trans hfirst, 0, by simp, by omega⟩
        case isFalse hroom =>
          have hroom : ¬blockSize ≤ p - ctxMemory j := hroom
          exact ⟨hfirst, q, hq, by omega⟩
    obtain ⟨hpad, q, hq, hlt⟩ := hnext
    rw [List.range'_succ, List.map_cons]
    simp only [allocate]
    rw [hpad]
    refine congrArg _ (ih (i + 1) ?_)
    have hmod : (i + 1) % step = 0 ∨ (i + 1) % step = i % step + 1 := by
      simp only [List.mem_cons, List.not_mem_nil, or_false] at hstep
      rcases hstep with rfl | rfl | rfl <;> omega
    refine hmod.imp_right fun h => ⟨?_, q + 1, ?_, ?_⟩
    · rw [h, Nat.succ_mul, Nat.add_assoc]
    · rw [← hpad, hq, Nat.succ_mul, Nat.add_assoc]
    · -- both are whole numbers of scratchpads
      rw [hd, Nat.mul_comm size d] at hlt ⊢
      exact Nat.mul_le_mul_right size (Nat.lt_of_mul_lt_mul_right hlt)

end VeloxHash.GhostRider
