import VeloxHash.Region
import VeloxHash.TransitionSystem

/-! `MemPool<CHUNK_SIZE, INIT_SIZE>`: chunks of pools of `INIT_SIZE` chunks, which the pool takes
one by one from the heap and never gives back. -/

namespace VeloxHash

structure MemPool where
  /-- The keys are pointers. -/
  used : List (Nat × Nat) := []
  /-- The addresses of the arrays in `m_data`. -/
  data : List Nat := []
  free : Finset Nat := ∅
  deriving DecidableEq

namespace MemPool

open TransitionSystem

variable (chunkSize initSize : Nat)

def freeSize (m : MemPool) : Nat := m.free.card * chunkSize

def size (m : MemPool) : Nat := m.data.length * chunkSize * initSize

/-- `resize`, the new array being at `base`. -/
def resize (m : MemPool) (base : Nat) : MemPool :=
  { m with
    data := m.data ++ [base]
    free := m.free ∪ (Finset.range initSize).image (m.data.length * initSize + ·) }

/-- Where the chunk of an index lies. -/
def address (m : MemPool) (i : Nat) : Nat :=
  let r := i / initSize
  m.data.getD r 0 + (i - r * initSize) * chunkSize

/-- `m_used.insert({ ptr, i })`, which leaves an entry that is there. -/
def insertUsed (used : List (Nat × Nat)) (ptr i : Nat) : List (Nat × Nat) :=
  if (used.lookup ptr).isSome then used else (ptr, i) :: used

def take (m : MemPool) (i : Nat) : MemPool × Nat :=
  let ptr := m.address chunkSize initSize i
  ({ m with used := insertUsed m.used ptr i, free := m.free.erase i }, ptr)

/-- `allocate`; a new array, if there has to be one, is at `base`. -/
def allocate (m : MemPool) (base : Nat) : Option (MemPool × Nat) :=
  let m := if m.free = ∅ then m.resize initSize base else m
  match m.free.min with
  | some i => some (m.take chunkSize initSize i)
  | none => none

def deallocate (m : MemPool) (ptr : Nat) : MemPool :=
  if ptr = 0 then m
  else { m with
    used := m.used.filter (·.1 ≠ ptr)
    free := insert ((m.used.lookup ptr).getD 0) m.free }

/-- The array at an address. -/
def array (base : Nat) : Region := ⟨base, chunkSize * initSize⟩

def chunk (ptr : Nat) : Region := ⟨ptr, chunkSize⟩

def Live (m : MemPool) (ptr : Nat) : Prop := ∃ i, (ptr, i) ∈ m.used

inductive Call
  | allocate (base : Nat)
  | deallocate (ptr : Nat)
  deriving DecidableEq, Repr

/-- What the heap and the callers promise: an array that is taken lies apart from the others, and
a pointer that is given back is null or live. -/
def Allowed (m : MemPool) : Call → Prop
  | .allocate base => m.free = ∅ →
    0 < base ∧ ∀ b ∈ m.data, (array chunkSize initSize base).Apart (array chunkSize initSize b)
  | .deallocate ptr => ptr = 0 ∨ m.Live ptr

def step (m : MemPool) : Call → Option MemPool
  | .allocate base => (m.allocate chunkSize initSize base).map Prod.fst
  | .deallocate ptr => some (m.deallocate ptr)

/-- The indices of the live chunks and of the free ones are all there are. -/
structure Inv (m : MemPool) : Prop where
  count : ∀ i, i ∈ m.free ∨ i ∈ m.used.map Prod.snd ↔ i < m.data.length * initSize
  exclusive : ∀ i ∈ m.free, i ∉ m.used.map Prod.snd
  address : ∀ e ∈ m.used, e.1 = m.address chunkSize initSize e.2
  nodup : (m.used.map Prod.snd).Nodup
  apart : m.data.Pairwise fun b c =>
    (array chunkSize initSize b).Apart (array chunkSize initSize c)
  pos : ∀ b ∈ m.data, 0 < b

theorem inv_start : Inv chunkSize initSize {} where
  count i := ⟨fun h => h.elim (absurd · (Finset.notMem_empty i)) nofun,
    fun h => absurd h (by simp)⟩
  exclusive := nofun
  address := nofun
  nodup := List.nodup_nil
  apart := .nil
  pos := nofun

variable {chunkSize initSize : Nat} {m n : MemPool} {i j ptr base : Nat}

section Addresses

variable (hchunk : 0 < chunkSize) (hinit : 0 < initSize)

theorem address_eq (m : MemPool) (i : Nat) : m.address chunkSize initSize i =
    m.data.getD (i / initSize) 0 + i % initSize * chunkSize := by
  rw [Nat.mod_eq_sub_div_mul]
  rfl

theorem address_resize (hi : i < m.data.length * initSize) :
    (m.resize initSize base).address chunkSize initSize i = m.address chunkSize initSize i := by
  have hr : i / initSize < m.data.length := Nat.div_lt_of_lt_mul (Nat.mul_comm .. ▸ hi)
  rw [address_eq, address_eq, resize]
  dsimp only
  rw [List.getD_eq_getElem?_getD, List.getD_eq_getElem?_getD, List.getElem?_append_left hr]

include hinit

theorem chunk_within (hi : i < m.data.length * initSize) :
    m.data.getD (i / initSize) 0 ∈ m.data ∧
      (chunk chunkSize (m.address chunkSize initSize i)).Within
        (array chunkSize initSize (m.data.getD (i / initSize) 0)) := by
  have hr : i / initSize < m.data.length := Nat.div_lt_of_lt_mul (Nat.mul_comm .. ▸ hi)
  have hget : m.data.getD (i / initSize) 0 = m.data[i / initSize] := by
    rw [List.getD_eq_getElem?_getD, List.getElem?_eq_getElem hr, Option.getD_some]
  refine ⟨hget ▸ List.getElem_mem hr, ?_, ?_⟩
  · rw [chunk, address_eq]
    exact Nat.le_add_right _ _
  · have hk : i % initSize + 1 ≤ initSize := Nat.mod_lt i hinit
    have hmul := Nat.mul_le_mul_right chunkSize hk
    rw [chunk, array, address_eq]
    dsimp only
    rw [Nat.add_mul, Nat.one_mul, Nat.mul_comm initSize] at hmul
    omega

/-- The chunks of different indices lie apart. -/
theorem Inv.chunk_apart (h : Inv chunkSize initSize m) (hi : i < m.data.length * initSize)
    (hj : j < m.data.length * initSize) (hne : i ≠ j) :
    (chunk chunkSize (m.address chunkSize initSize i)).Apart
      (chunk chunkSize (m.address chunkSize initSize j)) := by
  by_cases hr : i / initSize = j / initSize
  · rw [address_eq, address_eq, hr]
    have hmod : i % initSize ≠ j % initSize := by
      intro hmod
      refine hne ?_
      rw [← Nat.div_add_mod i initSize, ← Nat.div_add_mod j initSize, hr, hmod]
    rcases lt_or_gt_of_ne hmod with hlt | hlt
    · have hmul := Nat.mul_le_mul_right chunkSize (Nat.succ_le_of_lt hlt)
      rw [Nat.succ_mul] at hmul
      exact .inl (by dsimp only [chunk]; omega)
    · have hmul := Nat.mul_le_mul_right chunkSize (Nat.succ_le_of_lt hlt)
      rw [Nat.succ_mul] at hmul
      exact .inr (by dsimp only [chunk]; omega)
  · have hri : i / initSize < m.data.length := Nat.div_lt_of_lt_mul (Nat.mul_comm .. ▸ hi)
    have hrj : j / initSize < m.data.length := Nat.div_lt_of_lt_mul (Nat.mul_comm .. ▸ hj)
    have hpools := List.pairwise_iff_getElem.mp h.apart
    have hpool : (array chunkSize initSize (m.data.getD (i / initSize) 0)).Apart
        (array chunkSize initSize (m.data.getD (j / initSize) 0)) := by
      rw [List.getD_eq_getElem?_getD, List.getD_eq_getElem?_getD, List.getElem?_eq_getElem hri,
        List.getElem?_eq_getElem hrj, Option.getD_some, Option.getD_some]
      rcases lt_or_gt_of_ne hr with hlt | hlt
      · exact hpools _ _ hri hrj hlt
      · exact (hpools _ _ hrj hri hlt).symm
    exact hpool.within (chunk_within hinit hi).2 (chunk_within hinit hj).2

include hchunk

theorem Inv.address_inj (h : Inv chunkSize initSize m) (hi : i < m.data.length * initSize)
    (hj : j < m.data.length * initSize)
    (heq : m.address chunkSize initSize i = m.address chunkSize initSize j) : i = j := by
  by_contra hne
  have hapart := h.chunk_apart hinit hi hj hne
  rw [heq] at hapart
  rcases hapart with hle | hle <;> exact absurd hle (by dsimp only [chunk]; omega)

end Addresses

section Entries

variable (hchunk : 0 < chunkSize) (hinit : 0 < initSize)

theorem Inv.lt_of_mem (h : Inv chunkSize initSize m) (hmem : (ptr, i) ∈ m.used) :
    i < m.data.length * initSize :=
  (h.count i).mp (.inr (List.mem_map_of_mem hmem))

theorem lookup_of_mem {used : List (Nat × Nat)} (hmem : (ptr, i) ∈ used)
    (hunique : ∀ k, (ptr, k) ∈ used → k = i) : used.lookup ptr = some i := by
  induction used with
  | nil => exact nomatch hmem
  | cons e used ih =>
    obtain ⟨p, k⟩ := e
    rw [List.lookup_cons]
    by_cases hp : ptr = p
    · subst hp
      rw [beq_self_eq_true, hunique k List.mem_cons_self]
    · have hbeq : (ptr == p) = false := beq_false_of_ne hp
      rw [hbeq]
      have hrest : (ptr, i) ∈ used := (List.mem_cons.mp hmem).resolve_left fun h =>
        hp (Prod.mk.inj h).1
      exact ih hrest fun k hk => hunique k (List.mem_cons_of_mem _ hk)

theorem lookup_eq_none {used : List (Nat × Nat)} (h : ∀ k, (ptr, k) ∉ used) :
    used.lookup ptr = none := by
  induction used with
  | nil => rfl
  | cons e used ih =>
    obtain ⟨p, k⟩ := e
    have hp : ptr ≠ p := by
      rintro rfl
      exact h k List.mem_cons_self
    rw [List.lookup_cons, beq_false_of_ne hp]
    exact ih fun k hk => h k (List.mem_cons_of_mem _ hk)

theorem mem_resize : i ∈ (m.resize initSize base).free ↔ i ∈ m.free ∨
    m.data.length * initSize ≤ i ∧ i < m.data.length * initSize + initSize := by
  rw [resize, Finset.mem_union, Finset.mem_image]
  refine or_congr_right ⟨?_, fun ⟨hle, hlt⟩ => ?_⟩
  · rintro ⟨k, hk, rfl⟩
    have hlt := Finset.mem_range.mp hk
    omega
  · exact ⟨i - m.data.length * initSize, Finset.mem_range.mpr (by omega), by omega⟩

/-- A pool that has just been taken. -/
theorem Inv.resize (h : Inv chunkSize initSize m) (hfree : m.free = ∅) (hpos : 0 < base)
    (hfresh : ∀ b ∈ m.data, (array chunkSize initSize base).Apart (array chunkSize initSize b)) :
    Inv chunkSize initSize (m.resize initSize base) where
  count i := by
    have hcount := h.count i
    have hlength : (m.resize initSize base).data.length = m.data.length + 1 := List.length_append
    have hused : (m.resize initSize base).used = m.used := rfl
    rw [mem_resize, or_right_comm, hused, hcount, hlength, Nat.add_one_mul]
    omega
  exclusive i hi hmem := by
    have hlt := (h.count i).mp (.inr hmem)
    rcases mem_resize.mp hi with hold | hnew
    · rw [hfree] at hold
      exact absurd hold (Finset.notMem_empty i)
    · omega
  address e he := by
    rw [address_resize (h.lt_of_mem he)]
    exact h.address e he
  nodup := h.nodup
  apart := List.pairwise_append.mpr ⟨h.apart, List.pairwise_singleton _ _, fun b hb c hc => by
    rw [List.mem_singleton.mp hc]
    exact (hfresh b hb).symm⟩
  pos b hb := by
    rcases List.mem_append.mp hb with hb | hb
    · exact h.pos b hb
    · rwa [List.mem_singleton.mp hb]

include hchunk hinit

theorem Inv.eq_of_mem (h : Inv chunkSize initSize m) (hi : (ptr, i) ∈ m.used)
    (hj : (ptr, j) ∈ m.used) : i = j :=
  h.address_inj hchunk hinit (h.lt_of_mem hi) (h.lt_of_mem hj)
    ((h.address _ hi).symm.trans (h.address _ hj))

/-- The address of a free chunk is not live. -/
theorem Inv.address_not_mem (h : Inv chunkSize initSize m) (hi : i ∈ m.free) (k : Nat) :
    (m.address chunkSize initSize i, k) ∉ m.used := by
  intro hmem
  have hlt := (h.count i).mp (.inl hi)
  obtain rfl := h.address_inj hchunk hinit hlt (h.lt_of_mem hmem) (h.address _ hmem)
  exact h.exclusive i hi (List.mem_map_of_mem hmem)

theorem Inv.take_used (h : Inv chunkSize initSize m) (hi : i ∈ m.free) :
    (m.take chunkSize initSize i).1.used = (m.address chunkSize initSize i, i) :: m.used := by
  rw [take, insertUsed, lookup_eq_none (h.address_not_mem hchunk hinit hi)]
  rfl

theorem Inv.take (h : Inv chunkSize initSize m) (hi : i ∈ m.free) :
    Inv chunkSize initSize (m.take chunkSize initSize i).1 := by
  have hused := h.take_used hchunk hinit hi
  have hfree : (m.take chunkSize initSize i).1.free = m.free.erase i := rfl
  have hlt := (h.count i).mp (.inl hi)
  constructor
  · intro j
    change _ ↔ j < m.data.length * initSize
    rw [hused, hfree, List.map_cons, List.mem_cons, Finset.mem_erase, ← h.count j]
    by_cases hj : j = i
    · subst hj
      exact iff_of_true (.inr (.inl rfl)) (.inl hi)
    · simp only [hj, ne_eq, not_false_eq_true, true_and, false_or]
  · intro j hj hmem
    rw [hused, List.map_cons] at hmem
    rw [hfree, Finset.mem_erase] at hj
    exact (List.mem_cons.mp hmem).elim hj.1 (h.exclusive j hj.2)
  · intro e he
    rw [hused] at he
    rcases List.mem_cons.mp he with rfl | he
    · rfl
    · exact h.address e he
  · rw [hused, List.map_cons, List.nodup_cons]
    exact ⟨h.exclusive i hi, h.nodup⟩
  · exact h.apart
  · exact h.pos

theorem Inv.mem_filter (h : Inv chunkSize initSize m) (hptr : (ptr, i) ∈ m.used) :
    j ∈ (m.used.filter (·.1 ≠ ptr)).map Prod.snd ↔ j ∈ m.used.map Prod.snd ∧ j ≠ i := by
  constructor
  · intro hj
    obtain ⟨⟨p, k⟩, he, rfl⟩ := List.mem_map.mp hj
    obtain ⟨he, hp⟩ := List.mem_filter.mp he
    refine ⟨List.mem_map_of_mem he, ?_⟩
    rintro rfl
    exact of_decide_eq_true hp ((h.address _ he).trans (h.address _ hptr).symm)
  · rintro ⟨hj, hne⟩
    obtain ⟨⟨p, k⟩, he, rfl⟩ := List.mem_map.mp hj
    refine List.mem_map_of_mem (List.mem_filter.mpr ⟨he, decide_eq_true ?_⟩)
    rintro rfl
    exact hne (h.eq_of_mem hchunk hinit he hptr)

theorem Inv.deallocate (h : Inv chunkSize initSize m) (hptr : ptr = 0 ∨ m.Live ptr) :
    Inv chunkSize initSize (m.deallocate ptr) := by
  rw [MemPool.deallocate]
  split
  case isTrue => exact h
  case isFalse hne =>
    obtain ⟨i, hi⟩ := hptr.resolve_left hne
    rw [lookup_of_mem hi fun k hk => h.eq_of_mem hchunk hinit hk hi, Option.getD_some]
    constructor
    · intro j
      rw [Finset.mem_insert, h.mem_filter hchunk hinit hi, ← h.count j]
      by_cases hj : j = i
      · subst hj
        exact iff_of_true (.inl (.inl rfl)) (.inr (List.mem_map_of_mem hi))
      · simp only [hj, false_or, ne_eq, not_false_eq_true, and_true]
    · intro j hj hmem
      obtain ⟨hmem, hji⟩ := (h.mem_filter hchunk hinit hi).mp hmem
      exact (Finset.mem_insert.mp hj).elim hji fun hj => h.exclusive j hj hmem
    · exact fun e he => h.address e (List.mem_of_mem_filter he)
    · exact h.nodup.sublist (List.filter_sublist.map Prod.snd)
    · exact h.apart
    · exact h.pos

end Entries

section Calls

variable (hchunk : 0 < chunkSize) (hinit : 0 < initSize)

/-- What `allocate` takes the chunk from: the pool, grown if nothing was free. -/
def grown (initSize : Nat) (m : MemPool) (base : Nat) : MemPool :=
  if m.free = ∅ then m.resize initSize base else m

theorem grown_used (m : MemPool) (base : Nat) : (m.grown initSize base).used = m.used := by
  rw [MemPool.grown]
  split <;> rfl

include hinit

theorem Inv.grown (h : Inv chunkSize initSize m)
    (hok : Allowed chunkSize initSize m (.allocate base)) :
    Inv chunkSize initSize (m.grown initSize base) ∧ (m.grown initSize base).free.Nonempty := by
  rw [MemPool.grown]
  split
  case isTrue hfree =>
    obtain ⟨hpos, hfresh⟩ := hok hfree
    have hnew := (@mem_resize initSize m (m.data.length * initSize) base).mpr
      (.inr ⟨le_rfl, Nat.lt_add_of_pos_right hinit⟩)
    exact ⟨h.resize hfree hpos hfresh, _, hnew⟩
  case isFalse hfree => exact ⟨h, Finset.nonempty_iff_ne_empty.mpr hfree⟩

/-- An allocation takes a chunk that was free. -/
theorem allocate_eq (h : Inv chunkSize initSize m)
    (hok : Allowed chunkSize initSize m (.allocate base)) :
    ∃ i ∈ (m.grown initSize base).free, m.allocate chunkSize initSize base =
      some ((m.grown initSize base).take chunkSize initSize i) := by
  obtain ⟨-, hnonempty⟩ := h.grown hinit hok
  obtain ⟨i, hi⟩ := Finset.min_of_nonempty hnonempty
  refine ⟨i, Finset.mem_of_min hi, ?_⟩
  change (match (m.grown initSize base).free.min with
    | some i => some ((m.grown initSize base).take chunkSize initSize i)
    | none => none) = _
  rw [hi]

include hchunk

theorem Inv.step {c : Call} (h : Inv chunkSize initSize m) (hok : Allowed chunkSize initSize m c)
    (hstep : m.step chunkSize initSize c = some n) : Inv chunkSize initSize n := by
  cases c with
  | allocate base =>
    obtain ⟨i, hi, halloc⟩ := allocate_eq hinit h hok
    rw [MemPool.step, halloc] at hstep
    obtain rfl := Option.some.inj hstep
    exact (h.grown hinit hok).1.take hchunk hinit hi
  | deallocate ptr =>
    obtain rfl := Option.some.inj hstep
    exact h.deallocate hchunk hinit hok

end Calls

section Memory

/-- The memory of the pools, of the free chunks and of the live ones. -/
def poolBytes (chunkSize initSize : Nat) (m : MemPool) : Set Nat :=
  ⋃ b ∈ m.data, (array chunkSize initSize b).bytes

def freeBytes (chunkSize initSize : Nat) (m : MemPool) : Set Nat :=
  ⋃ i ∈ m.free, (chunk chunkSize (m.address chunkSize initSize i)).bytes

def liveBytes (chunkSize : Nat) (m : MemPool) : Set Nat :=
  ⋃ ptr ∈ {ptr | m.Live ptr}, (chunk chunkSize ptr).bytes

/-- What holds of a pool between two calls. -/
structure Sound (chunkSize initSize : Nat) (m : MemPool) : Prop where
  apart : ∀ p q, m.Live p → m.Live q → p ≠ q → (chunk chunkSize p).Apart (chunk chunkSize q)
  covered : poolBytes chunkSize initSize m = freeBytes chunkSize initSize m ∪ liveBytes chunkSize m
  disjoint : Disjoint (freeBytes chunkSize initSize m) (liveBytes chunkSize m)
  /-- The next chunk is a new one. -/
  handed : ∀ base, Allowed chunkSize initSize m (.allocate base) →
    ∃ n ptr, m.allocate chunkSize initSize base = some (n, ptr) ∧ ptr ≠ 0 ∧ ¬ m.Live ptr ∧
      ∀ p, n.Live p ↔ p = ptr ∨ m.Live p
  empty : m.freeSize chunkSize = m.size chunkSize initSize ↔ ∀ p, ¬ m.Live p

theorem mem_freeBytes {a : Nat} : a ∈ freeBytes chunkSize initSize m ↔
    ∃ i ∈ m.free, a ∈ (chunk chunkSize (m.address chunkSize initSize i)).bytes := by
  simp only [freeBytes, Set.mem_iUnion, exists_prop]

theorem mem_liveBytes {a : Nat} : a ∈ liveBytes chunkSize m ↔
    ∃ ptr, m.Live ptr ∧ a ∈ (chunk chunkSize ptr).bytes := by
  simp only [liveBytes, Set.mem_iUnion, exists_prop, Set.mem_ofPred_eq]

/-- A byte of a pool lies in one of its chunks. -/
theorem exists_chunk {r a : Nat} (hr : r < m.data.length)
    (ha : a ∈ (array chunkSize initSize m.data[r]).bytes) :
    ∃ i < m.data.length * initSize,
      a ∈ (chunk chunkSize (m.address chunkSize initSize i)).bytes := by
  obtain ⟨hlow, hhigh⟩ := ha
  dsimp only [array] at hlow hhigh
  have hchunk : 0 < chunkSize := by
    rcases Nat.eq_zero_or_pos chunkSize with hzero | hpos
    · rw [hzero, Nat.zero_mul] at hhigh
      omega
    · exact hpos
  have hk : (a - m.data[r]) / chunkSize < initSize :=
    Nat.div_lt_of_lt_mul (Nat.sub_lt_left_of_lt_add hlow hhigh)
  have hinit : 0 < initSize := Nat.zero_lt_of_lt hk
  refine ⟨r * initSize + (a - m.data[r]) / chunkSize, ?_, ?_⟩
  · calc r * initSize + (a - m.data[r]) / chunkSize < r * initSize + initSize := by omega
      _ = (r + 1) * initSize := (Nat.succ_mul r initSize).symm
      _ ≤ m.data.length * initSize := Nat.mul_le_mul_right _ hr
  · have hdiv : (r * initSize + (a - m.data[r]) / chunkSize) / initSize = r := by
      rw [Nat.mul_comm, Nat.mul_add_div hinit, Nat.div_eq_of_lt hk, Nat.add_zero]
    have hmod : (r * initSize + (a - m.data[r]) / chunkSize) % initSize =
        (a - m.data[r]) / chunkSize := by
      rw [Nat.mul_comm, Nat.mul_add_mod, Nat.mod_eq_of_lt hk]
    have hget : m.data.getD r 0 = m.data[r] := by
      rw [List.getD_eq_getElem?_getD, List.getElem?_eq_getElem hr, Option.getD_some]
    rw [address_eq, hdiv, hmod, hget]
    have hsplit := Nat.div_add_mod (a - m.data[r]) chunkSize
    have hrest := Nat.mod_lt (a - m.data[r]) hchunk
    rw [Nat.mul_comm] at hsplit
    constructor <;> dsimp only [chunk] <;> omega

theorem Inv.freeSize_eq_size (hchunk : 0 < chunkSize) (h : Inv chunkSize initSize m) :
    m.freeSize chunkSize = m.size chunkSize initSize ↔ ∀ p, ¬ m.Live p := by
  have hall : m.freeSize chunkSize = m.size chunkSize initSize ↔
      m.free.card = (Finset.range (m.data.length * initSize)).card := by
    rw [freeSize, size, Finset.card_range, Nat.mul_right_comm]
    exact Nat.mul_left_inj hchunk.ne'
  have hsubset : m.free ⊆ Finset.range (m.data.length * initSize) := fun i hi =>
    Finset.mem_range.mpr ((h.count i).mp (.inl hi))
  rw [hall]
  constructor
  · rintro hcard p ⟨i, hi⟩
    have hfree : i ∈ m.free := by
      rw [Finset.eq_of_subset_of_card_le hsubset hcard.ge]
      exact Finset.mem_range.mpr (h.lt_of_mem hi)
    exact h.exclusive i hfree (List.mem_map_of_mem hi)
  · intro hlive
    refine congrArg Finset.card (hsubset.antisymm fun i hi => ?_)
    refine ((h.count i).mpr (Finset.mem_range.mp hi)).resolve_right fun hused => ?_
    obtain ⟨⟨p, k⟩, he, -⟩ := List.mem_map.mp hused
    exact hlive p ⟨k, he⟩

variable (hchunk : 0 < chunkSize) (hinit : 0 < initSize)

include hinit

/-- The pools are their chunks. -/
theorem mem_poolBytes {a : Nat} : a ∈ poolBytes chunkSize initSize m ↔
    ∃ i < m.data.length * initSize,
      a ∈ (chunk chunkSize (m.address chunkSize initSize i)).bytes := by
  simp only [poolBytes, Set.mem_iUnion, exists_prop]
  constructor
  · rintro ⟨b, hb, ha⟩
    obtain ⟨r, hr, rfl⟩ := List.getElem_of_mem hb
    exact exists_chunk hr ha
  · rintro ⟨i, hi, ha⟩
    obtain ⟨hmem, hwithin⟩ := chunk_within hinit hi
    exact ⟨_, hmem, hwithin.subset ha⟩

/-- Every chunk is free or live. -/
theorem Inv.poolBytes_eq (h : Inv chunkSize initSize m) : poolBytes chunkSize initSize m =
    freeBytes chunkSize initSize m ∪ liveBytes chunkSize m := by
  ext a
  rw [Set.mem_union, mem_poolBytes hinit, mem_freeBytes, mem_liveBytes]
  constructor
  · rintro ⟨i, hi, ha⟩
    rcases (h.count i).mpr hi with hfree | hused
    · exact .inl ⟨i, hfree, ha⟩
    · obtain ⟨⟨ptr, k⟩, he, rfl⟩ := List.mem_map.mp hused
      exact .inr ⟨ptr, ⟨k, he⟩, by rwa [show ptr = _ from h.address _ he]⟩
  · rintro (⟨i, hi, ha⟩ | ⟨ptr, ⟨i, hi⟩, ha⟩)
    · exact ⟨i, (h.count i).mp (.inl hi), ha⟩
    · exact ⟨i, h.lt_of_mem hi, by rwa [show ptr = _ from h.address _ hi] at ha⟩

theorem Inv.disjoint (h : Inv chunkSize initSize m) :
    Disjoint (freeBytes chunkSize initSize m) (liveBytes chunkSize m) := by
  rw [Set.disjoint_left]
  intro a hfree hlive
  obtain ⟨i, hi, hai⟩ := mem_freeBytes.mp hfree
  obtain ⟨ptr, ⟨j, hj⟩, haj⟩ := mem_liveBytes.mp hlive
  rw [show ptr = _ from h.address _ hj] at haj
  have hne : i ≠ j := by
    rintro rfl
    exact h.exclusive i hi (List.mem_map_of_mem hj)
  have hapart := h.chunk_apart hinit ((h.count i).mp (.inl hi)) (h.lt_of_mem hj) hne
  exact Set.disjoint_left.mp hapart.disjoint hai haj

theorem Inv.live_apart (h : Inv chunkSize initSize m) {p q : Nat} (hp : m.Live p) (hq : m.Live q)
    (hne : p ≠ q) : (chunk chunkSize p).Apart (chunk chunkSize q) := by
  obtain ⟨i, hi⟩ := hp
  obtain ⟨j, hj⟩ := hq
  have hpi : p = _ := h.address _ hi
  have hqj : q = _ := h.address _ hj
  rw [hpi, hqj]
  refine h.chunk_apart hinit (h.lt_of_mem hi) (h.lt_of_mem hj) ?_
  rintro rfl
  exact hne (hpi.trans hqj.symm)

include hchunk

theorem Inv.handed (h : Inv chunkSize initSize m)
    (hok : Allowed chunkSize initSize m (.allocate base)) :
    ∃ n ptr, m.allocate chunkSize initSize base = some (n, ptr) ∧ ptr ≠ 0 ∧ ¬ m.Live ptr ∧
      ∀ p, n.Live p ↔ p = ptr ∨ m.Live p := by
  obtain ⟨i, hi, halloc⟩ := allocate_eq hinit h hok
  obtain ⟨hinv, -⟩ := h.grown hinit hok
  refine ⟨((m.grown initSize base).take chunkSize initSize i).1, _, halloc, ?_, ?_, fun p => ?_⟩
  · have hlt := (hinv.count i).mp (.inl hi)
    obtain ⟨hmem, hwithin⟩ := @chunk_within chunkSize _ _ _ hinit hlt
    exact Nat.pos_iff_ne_zero.mp ((hinv.pos _ hmem).trans_le hwithin.1)
  · rintro ⟨k, hk⟩
    rw [← @grown_used initSize m base] at hk
    exact hinv.address_not_mem hchunk hinit hi k hk
  · rw [Live, hinv.take_used hchunk hinit hi, grown_used]
    simp only [List.mem_cons, exists_or]
    refine or_congr_left ⟨fun ⟨_, hk⟩ => (Prod.mk.inj hk).1, ?_⟩
    rintro rfl
    exact ⟨i, rfl⟩

theorem Inv.sound (h : Inv chunkSize initSize m) : Sound chunkSize initSize m where
  apart _ _ hp hq hne := h.live_apart hinit hp hq hne
  covered := h.poolBytes_eq hinit
  disjoint := h.disjoint hinit
  handed _ hok := h.handed hchunk hinit hok
  empty := h.freeSize_eq_size hchunk

end Memory

/-- Between any two calls the live chunks lie apart, they and the free ones are the memory of the
pools, and an allocation hands out a chunk that is not live. -/
theorem run_sound {calls : List Call} (hchunk : 0 < chunkSize) (hinit : 0 < initSize)
    (hrun : Run (step chunkSize initSize) (Allowed chunkSize initSize) {} calls m) :
    Sound chunkSize initSize m := by
  have hinv : Inv chunkSize initSize m := hrun.invariant
    (fun _ _ _ hok h hstep => h.step hchunk hinit hok hstep) (inv_start chunkSize initSize)
  exact hinv.sound hchunk hinit

/-- Two chunks are taken and the first is given back. -/
theorem run_sound_reuse : ∃ m, Sound 4 2 m ∧ m.Live 104 ∧ ¬ m.Live 100 := by
  have hrun : Run (step 4 2) (Allowed 4 2) {} [.allocate 100, .allocate 0, .deallocate 100]
      ⟨[(104, 1)], [100], {0}⟩ := by
    refine .cons (t := ⟨[(100, 0)], [100], {1}⟩) (fun _ => ⟨by decide, nofun⟩) (by decide) ?_
    refine .cons (t := ⟨[(104, 1), (100, 0)], [100], ∅⟩) (fun h => absurd h (by decide))
      (by decide) ?_
    exact .cons (.inr ⟨0, by decide⟩) (by decide) (.nil _)
  exact ⟨_, run_sound (by decide) (by decide) hrun, ⟨1, List.mem_singleton_self _⟩,
    fun ⟨k, hk⟩ => absurd (List.mem_singleton.mp hk) (by simp)⟩

end MemPool

end VeloxHash
