import VeloxHash.RxBasicStorage
import Mathlib.Tactic

/-! How `RxDataset::init` divides the items among its threads, in the widths of the code: the
borders are 64-bit divisions cut to 32 bits, and a slice that is no multiple of the batch is
made in two calls that overlap. -/

namespace VeloxHash.RxDatasetSplit

open RxBasicStorage

/-- A call of `randomx_init_dataset`. -/
structure Call where
  startItem : UInt32
  itemCount : UInt32
  deriving DecidableEq, Repr

section Split

variable (p : Platform)

/-- The whole batches from the start, and the last batch counted back from the end. -/
def batches (batch startItem itemCount : UInt32) : List Call :=
  [⟨startItem, itemCount - itemCount % batch⟩, ⟨startItem + itemCount - batch, batch⟩]

def initDatasetWrapper (startItem itemCount : UInt32) : List Call :=
  if p.avx2 ∧ itemCount % 5 ≠ 0 then batches 5 startItem itemCount
  else if p.riscv ∧ itemCount % 4 ≠ 0 then batches 4 startItem itemCount
  else [⟨startItem, itemCount⟩]

/-- The calls of each thread; the item count is `randomx_dataset_item_count()`. -/
def init (datasetItemCount : UInt64) (numThreads : UInt32) : List (List Call) :=
  if 1 < numThreads then
    (List.range numThreads.toNat).map fun i =>
      let a := (datasetItemCount * .ofNat i / numThreads.toUInt64).toUInt32
      let b := (datasetItemCount * (.ofNat i + 1) / numThreads.toUInt64).toUInt32
      initDatasetWrapper p a (b - a)
  else [initDatasetWrapper p 0 datasetItemCount.toUInt32]

end Split

def randomxDatasetItemCount : UInt64 := (2147483648 + 33554368) / 64

/-- The first item of the slice of number `i`. -/
def border (items threads i : Nat) : Nat := items * i / threads

/-- The items that a call makes. -/
def Call.Makes (c : Call) (x : Nat) : Prop :=
  c.startItem.toNat ≤ x ∧ x < c.startItem.toNat + c.itemCount.toNat

section Wrapper

variable {p : Platform} {start count : UInt32}

/-- What a thread does with its slice. -/
structure Fills (p : Platform) (start count : Nat) (calls : List Call) : Prop where
  covers : ∀ x, (∃ c ∈ calls, c.Makes x) ↔ start ≤ x ∧ x < start + count
  within : ∀ c ∈ calls, start ≤ c.startItem.toNat ∧
    c.startItem.toNat + c.itemCount.toNat ≤ start + count
  avx2 : p.avx2 ∧ ¬p.riscv → ∀ c ∈ calls, 5 ∣ c.itemCount.toNat
  riscv : p.riscv ∧ ¬p.avx2 → ∀ c ∈ calls, 4 ∣ c.itemCount.toNat

/-- The two overlapping calls, for a batch no longer than the slice. -/
theorem batches_fill {batch : UInt32} (hbatch : 0 < batch.toNat) (hle : batch.toNat ≤ count.toNat)
    (hbound : start.toNat + count.toNat < 2 ^ 32) :
    let calls := batches batch start count
    (∀ x, (∃ c ∈ calls, c.Makes x) ↔ start.toNat ≤ x ∧ x < start.toNat + count.toNat) ∧
      (∀ c ∈ calls, start.toNat ≤ c.startItem.toNat ∧
        c.startItem.toNat + c.itemCount.toNat ≤ start.toNat + count.toNat) ∧
      ∀ c ∈ calls, batch.toNat ∣ c.itemCount.toNat := by
  have hmod : (count - count % batch).toNat = count.toNat - count.toNat % batch.toNat := by
    have hsmall := Nat.mod_le count.toNat batch.toNat
    rw [UInt32.toNat_sub_of_le _ _ (by
      rw [UInt32.le_iff_toNat_le, UInt32.toNat_mod]
      exact hsmall), UInt32.toNat_mod]
  have hlast : (start + count - batch).toNat = start.toNat + count.toNat - batch.toNat := by
    have hsum : (start + count).toNat = start.toNat + count.toNat := by
      rw [UInt32.toNat_add, Nat.mod_eq_of_lt hbound]
    rw [UInt32.toNat_sub_of_le _ _ (by
      rw [UInt32.le_iff_toNat_le, hsum]
      omega), hsum]
  have hlt := Nat.mod_lt count.toNat hbatch
  have hdvd : batch.toNat ∣ count.toNat - count.toNat % batch.toNat := Nat.dvd_sub_mod _
  refine ⟨fun x => ?_, ?_, ?_⟩
  · simp only [batches, List.mem_cons, List.not_mem_nil, or_false, exists_eq_or_imp, exists_eq_left,
      Call.Makes, hmod, hlast]
    generalize count.toNat % batch.toNat = r at *
    omega
  · simp only [batches, List.mem_cons, List.not_mem_nil, or_false, forall_eq_or_imp, forall_eq, hmod,
      hlast]
    generalize count.toNat % batch.toNat = r at *
    omega
  · simp only [batches, List.mem_cons, List.not_mem_nil, or_false, forall_eq_or_imp, forall_eq, hmod]
    exact ⟨hdvd, dvd_rfl⟩

theorem wrapper_fills (hcount : 5 ≤ count.toNat) (hbound : start.toNat + count.toNat < 2 ^ 32) :
    Fills p start.toNat count.toNat (initDatasetWrapper p start count) := by
  have hzero {n : UInt32} (h : ¬count % n ≠ 0) : n.toNat ∣ count.toNat := by
    have hmod := congrArg UInt32.toNat (not_not.mp h)
    rw [UInt32.toNat_mod] at hmod
    exact Nat.dvd_of_mod_eq_zero hmod
  unfold initDatasetWrapper
  split
  · rename_i h5
    have hbatch : (5 : UInt32).toNat ≤ count.toNat := hcount
    obtain ⟨hcovers, hwithin, hdvd⟩ := batches_fill (by decide) hbatch hbound
    exact ⟨hcovers, hwithin, fun _ => hdvd, fun h => absurd h5.1 h.2⟩
  · rename_i h5
    split
    · rename_i h4
      have hbatch : (4 : UInt32).toNat ≤ count.toNat := le_trans (by decide) hcount
      obtain ⟨hcovers, hwithin, hdvd⟩ := batches_fill (by decide) hbatch hbound
      exact ⟨hcovers, hwithin, fun h => absurd h4.1 h.2, fun _ => hdvd⟩
    · rename_i h4
      refine ⟨fun x => by simp [Call.Makes], by simp, fun h c hc => ?_, fun h c hc => ?_⟩
      · rw [List.mem_singleton.mp hc]
        exact hzero fun hne => h5 ⟨h.1, hne⟩
      · rw [List.mem_singleton.mp hc]
        exact hzero fun hne => h4 ⟨h.1, hne⟩

end Wrapper

section Borders

variable {items threads : Nat}

theorem border_zero : border items threads 0 = 0 := by
  rw [border, Nat.mul_zero, Nat.zero_div]

theorem border_self (h : 0 < threads) : border items threads threads = items :=
  Nat.mul_div_cancel _ h

theorem border_mono (items threads : Nat) : Monotone (border items threads) := fun _ _ h =>
  Nat.div_le_div_right (Nat.mul_le_mul_left items h)

/-- Every item below the last border lies in a slice. -/
theorem exists_slice {n x : Nat} (hx : x < border items threads n) :
    ∃ i < n, border items threads i ≤ x ∧ x < border items threads (i + 1) := by
  induction n with
  | zero => exact absurd hx (by rw [border_zero]; exact Nat.not_lt_zero x)
  | succ n ih =>
    by_cases h : x < border items threads n
    · obtain ⟨i, hi, hslice⟩ := ih h
      exact ⟨i, by omega, hslice⟩
    · exact ⟨n, Nat.lt_succ_self n, by omega, hx⟩

end Borders

section Init

variable {p : Platform} {items : UInt64} {threads : UInt32}

/-- No border leaves 32 bits. -/
theorem toNat_border (hitems : items.toNat < 2 ^ 32) {i : Nat} (hi : i ≤ threads.toNat) {n : UInt64}
    (hn : n.toNat = i) :
    (items * n / threads.toUInt64).toUInt32.toNat = border items.toNat threads.toNat i := by
  have hthreads := threads.toNat_lt
  have hproduct : items.toNat * i < 2 ^ 64 := by
    calc items.toNat * i ≤ items.toNat * threads.toNat := Nat.mul_le_mul_left _ hi
      _ < 2 ^ 32 * 2 ^ 32 := Nat.mul_lt_mul'' hitems hthreads
  have hle : border items.toNat threads.toNat i ≤ items.toNat := by
    by_cases h0 : threads.toNat = 0
    · rw [border, h0, Nat.div_zero]
      exact Nat.zero_le _
    · exact (border_mono _ _ hi).trans (border_self (Nat.pos_of_ne_zero h0)).le
  rw [UInt64.toNat_toUInt32, UInt64.toNat_div, UInt64.toNat_mul, hn, UInt32.toNat_toUInt64,
    Nat.mod_eq_of_lt hproduct]
  exact Nat.mod_eq_of_lt (hle.trans_lt hitems)

theorem slice_fills (hitems : items.toNat < 2 ^ 32) {i : Nat} (hi : i < threads.toNat)
    (hslice : 5 ≤ border items.toNat threads.toNat (i + 1) - border items.toNat threads.toNat i) :
    let a := (items * .ofNat i / threads.toUInt64).toUInt32
    let b := (items * (.ofNat i + 1) / threads.toUInt64).toUInt32
    Fills p (border items.toNat threads.toNat i)
      (border items.toNat threads.toNat (i + 1) - border items.toNat threads.toNat i)
      (initDatasetWrapper p a (b - a)) := by
  intro a b
  have hthreads := threads.toNat_lt
  have hindex : (UInt64.ofNat i).toNat = i := by
    rw [UInt64.toNat_ofNat']
    omega
  have hnext : (UInt64.ofNat i + 1).toNat = i + 1 := by
    rw [UInt64.toNat_add, hindex]
    change (i + 1) % 2 ^ 64 = i + 1
    omega
  have ha : a.toNat = border items.toNat threads.toNat i := toNat_border hitems hi.le hindex
  have hb : b.toNat = border items.toNat threads.toNat (i + 1) := toNat_border hitems hi hnext
  have hblt := b.toNat_lt
  have hcount : (b - a).toNat =
      border items.toNat threads.toNat (i + 1) - border items.toNat threads.toNat i := by
    rw [UInt32.toNat_sub_of_le _ _ (by rw [UInt32.le_iff_toNat_le]; omega), ha, hb]
  rw [← hcount, ← ha]
  exact wrapper_fills (by omega) (by omega)

/-- The calls of each thread fill the slice of its number. -/
theorem init_fills (hitems : items.toNat < 2 ^ 32) (hthreads : 1 ≤ threads.toNat)
    (hslices : ∀ i < threads.toNat,
      5 ≤ border items.toNat threads.toNat (i + 1) - border items.toNat threads.toNat i) :
    (init p items threads).length = threads.toNat ∧
      ∀ i calls, (init p items threads)[i]? = some calls →
        Fills p (border items.toNat threads.toNat i)
          (border items.toNat threads.toNat (i + 1) - border items.toNat threads.toNat i) calls := by
  unfold init
  split
  · refine ⟨by simp, fun i calls h => ?_⟩
    rw [List.getElem?_map, Option.map_eq_some_iff] at h
    obtain ⟨j, hj, rfl⟩ := h
    obtain ⟨hlt, rfl⟩ := List.getElem?_eq_some_iff.mp hj
    rw [List.getElem_range] at *
    rw [List.length_range] at hlt
    exact slice_fills hitems hlt (hslices i hlt)
  · rename_i hone
    have hthreads1 : threads.toNat = 1 := by
      have := UInt32.lt_iff_toNat_lt.not.mp hone
      change ¬1 < threads.toNat at this
      omega
    rw [hthreads1] at hslices ⊢
    refine ⟨rfl, fun i calls h => ?_⟩
    obtain ⟨hi, hcalls⟩ := List.getElem?_eq_some_iff.mp h
    obtain rfl : i = 0 := by simpa using hi
    have hcount : items.toUInt32.toNat = items.toNat := by
      rw [UInt64.toNat_toUInt32]
      exact Nat.mod_eq_of_lt hitems
    have hwhole : border items.toNat 1 1 = items.toNat := border_self (by decide)
    have hfive := hslices 0 (by decide)
    rw [border_zero, Nat.zero_add, hwhole, Nat.sub_zero] at hfive ⊢
    rw [← hcount] at hfive ⊢
    rw [← hcalls]
    have hbound : (0 : UInt32).toNat + items.toUInt32.toNat < 2 ^ 32 := by
      rw [UInt32.toNat_zero, Nat.zero_add]
      exact items.toUInt32.toNat_lt
    exact wrapper_fills hfive hbound

/-- The threads together make every item and no other, each within its own slice, in calls
that are multiples of the platform's batch. -/
theorem init_covers (p : Platform) (items : UInt64) (threads : UInt32) (hitems : items.toNat < 2 ^ 32)
    (hthreads : 1 ≤ threads.toNat)
    (hslices : ∀ i < threads.toNat,
      5 ≤ border items.toNat threads.toNat (i + 1) - border items.toNat threads.toNat i) :
    (∀ x, (∃ calls ∈ init p items threads, ∃ c ∈ calls, c.Makes x) ↔ x < items.toNat) ∧
    (∀ i calls, (init p items threads)[i]? = some calls → ∀ c ∈ calls,
      border items.toNat threads.toNat i ≤ c.startItem.toNat ∧
        c.startItem.toNat + c.itemCount.toNat ≤ border items.toNat threads.toNat (i + 1)) ∧
    (p.avx2 ∧ ¬p.riscv → ∀ calls ∈ init p items threads, ∀ c ∈ calls, 5 ∣ c.itemCount.toNat) ∧
    (p.riscv ∧ ¬p.avx2 → ∀ calls ∈ init p items threads, ∀ c ∈ calls, 4 ∣ c.itemCount.toNat) := by
  obtain ⟨hlength, hfills⟩ := init_fills (p := p) hitems hthreads hslices
  have hself : border items.toNat threads.toNat threads.toNat = items.toNat := border_self hthreads
  have hnumber {calls : List Call} (h : calls ∈ init p items threads) :
      ∃ i < threads.toNat, (init p items threads)[i]? = some calls := by
    obtain ⟨i, hi, rfl⟩ := List.mem_iff_getElem.mp h
    exact ⟨i, hlength ▸ hi, List.getElem?_eq_getElem hi⟩
  refine ⟨fun x => ⟨?_, fun hx => ?_⟩, fun i calls hcalls c hc => ?_, fun h calls hcalls => ?_,
    fun h calls hcalls => ?_⟩
  · rintro ⟨calls, hcalls, c, hc, hmakes⟩
    obtain ⟨i, hi, hat⟩ := hnumber hcalls
    have hx := ((hfills i calls hat).covers x).mp ⟨c, hc, hmakes⟩
    have hlast := border_mono items.toNat threads.toNat (show i + 1 ≤ threads.toNat from hi)
    have := hslices i hi
    omega
  · obtain ⟨i, hi, hlow, hhigh⟩ := exists_slice (hself ▸ hx : x < border items.toNat _ threads.toNat)
    have hlt : i < (init p items threads).length := hlength ▸ hi
    have hat := List.getElem?_eq_getElem hlt
    obtain ⟨c, hc, hmakes⟩ := ((hfills i _ hat).covers x).mpr ⟨hlow, by omega⟩
    exact ⟨_, List.getElem_mem hlt, c, hc, hmakes⟩
  · obtain ⟨hlow, hhigh⟩ := (hfills i calls hcalls).within c hc
    have hmono : border items.toNat threads.toNat i ≤ border items.toNat threads.toNat (i + 1) :=
      border_mono _ _ (Nat.le_succ i)
    exact ⟨hlow, by omega⟩
  · obtain ⟨i, -, hat⟩ := hnumber hcalls
    exact (hfills i calls hat).avx2 h
  · obtain ⟨i, -, hat⟩ := hnumber hcalls
    exact (hfills i calls hat).riscv h

theorem init_covers_dataset :
    ∃ calls ∈ init ⟨true, false⟩ randomxDatasetItemCount 4, ∃ c ∈ calls, c.Makes 34078718 :=
  ((init_covers ⟨true, false⟩ randomxDatasetItemCount 4 (by decide) (by decide) (by decide)).1
    34078718).mpr (by decide)

end Init

end VeloxHash.RxDatasetSplit
