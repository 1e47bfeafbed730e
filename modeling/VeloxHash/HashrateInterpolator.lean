import Mathlib.Data.UInt
import VeloxHash.PiecewiseLinear

/-! The hash counts between two samples in `HashrateInterpolator`. -/

namespace VeloxHash.HashrateInterpolator

open PiecewiseLinear

structure Sample where
  count : UInt64
  time : UInt64

def lagMS : UInt64 := 4000

def addDataPoint (data : List Sample) (sample : Sample) : List Sample :=
  data.dropWhile (fun s => sample.time - s.time > lagMS * 2) ++ [sample]

def run (calls : List Sample) : List Sample := calls.foldl addDataPoint []

/-- The value on the way from `a` to `b`; `none` is a division by zero. -/
def between (a b : Sample) (time : UInt64) : Option UInt64 :=
  if b.time - a.time = 0 then none
  else some (a.count + (b.count - a.count) * (time - a.time) / (b.time - a.time))

def interpolate (data : List Sample) (timeStamp : UInt64) : Option UInt64 :=
  match neighbours Sample.time (timeStamp - lagMS) data with
  | some (a, b) => between a b (timeStamp - lagMS)
  | none => some 0

def Sample.place (s : Sample) : ℚ := s.time.toNat

def Sample.total (s : Sample) : ℚ := s.count.toNat

/-- The value on the way from `a` to `b` over exact arithmetic. -/
def exact (a b : Sample) (time : UInt64) : ℚ := line Sample.place Sample.total a b time.toNat

/-- Every query is answered, by a value between the counts of its neighbours that moves with the
time of the query. -/
structure Interpolates (data : List Sample) : Prop where
  answered : ∀ query, interpolate data query ≠ none
  bounded : ∀ query a b, neighbours Sample.time (query - lagMS) data = some (a, b) →
    [a, b] <:+: data ∧
      min a.total b.total ≤ exact a b (query - lagMS) ∧
      exact a b (query - lagMS) ≤ max a.total b.total
  within : ∀ query query' a b, query - lagMS ≤ query' - lagMS →
    neighbours Sample.time (query - lagMS) data = some (a, b) →
    neighbours Sample.time (query' - lagMS) data = some (a, b) →
    (a.count ≤ b.count → exact a b (query - lagMS) ≤ exact a b (query' - lagMS)) ∧
      (b.count ≤ a.count → exact a b (query' - lagMS) ≤ exact a b (query - lagMS))
  monotone : (data.Pairwise fun a b => a.count ≤ b.count) → ∀ query query' a b c d,
    query - lagMS ≤ query' - lagMS →
    neighbours Sample.time (query - lagMS) data = some (a, b) →
    neighbours Sample.time (query' - lagMS) data = some (c, d) →
    exact a b (query - lagMS) ≤ exact c d (query' - lagMS)

def older (newest s : Sample) : Bool := newest.time.toNat - s.time.toNat > 8000

/-- The samples from the first one that is at most eight seconds older than the newest. -/
def recent (calls : List Sample) : List Sample :=
  match calls.getLast? with
  | some newest => calls.dropWhile (older newest)
  | none => []

theorem cast_le (u v : UInt64) : (u.toNat : ℚ) ≤ v.toNat ↔ u ≤ v := by
  rw [Nat.cast_le, UInt64.le_iff_toNat_le]

theorem neighbours_cast (time : UInt64) (data : List Sample) :
    neighbours Sample.place time.toNat data = neighbours Sample.time time data :=
  neighbours_map (fun u : UInt64 => (u.toNat : ℚ)) cast_le time data

section Data

variable {data : List Sample} {a b : Sample} {time : UInt64}

theorem place_le : a.place ≤ b.place ↔ a.time ≤ b.time := cast_le _ _

theorem total_le : a.total ≤ b.total ↔ a.count ≤ b.count := cast_le _ _

theorem exact_mono {time' : UInt64} (h : a.time ≤ b.time) (hcount : a.count ≤ b.count)
    (hle : time ≤ time') : exact a b time ≤ exact a b time' :=
  line_mono (place_le.mpr h) (total_le.mpr hcount) ((cast_le _ _).mpr hle)

theorem exact_anti {time' : UInt64} (h : a.time ≤ b.time) (hcount : b.count ≤ a.count)
    (hle : time ≤ time') : exact a b time' ≤ exact a b time :=
  line_anti (place_le.mpr h) (total_le.mpr hcount) ((cast_le _ _).mpr hle)

theorem exact_between (h : neighbours Sample.time time data = some (a, b)) :
    min a.total b.total ≤ exact a b time ∧ exact a b time ≤ max a.total b.total := by
  obtain ⟨ha, hb⟩ := neighbours_inside h
  exact line_between (x := Sample.place) (y := Sample.total) ((cast_le _ _).mpr ha)
    ((cast_le _ _).mpr hb)

theorem exact_le_exact {time' : UInt64} {c d : Sample}
    (hsorted : data.Pairwise fun a b => a.time ≤ b.time)
    (hcounts : data.Pairwise fun a b => a.count ≤ b.count)
    (h : neighbours Sample.time time data = some (a, b))
    (h' : neighbours Sample.time time' data = some (c, d)) (hle : time ≤ time') :
    exact a b time ≤ exact c d time' := by
  rw [← neighbours_cast] at h h'
  exact line_le_line (hsorted.imp place_le.mpr) (hcounts.imp total_le.mpr) h h'
    ((cast_le _ _).mpr hle)

/-- A division by zero comes from the two oldest samples. -/
theorem interpolate_none_iff (hsorted : data.Pairwise fun a b => a.time ≤ b.time)
    (query : UInt64) : interpolate data query = none ↔
      ∃ a b rest, data = a :: b :: rest ∧ a.time = query - lagMS ∧ b.time = query - lagMS := by
  constructor
  · intro h
    rw [interpolate] at h
    split at h
    case h_1 a b hfound =>
      rw [between] at h
      split at h
      case isTrue hzero =>
        have htie : b.time = a.time := by simpa [sub_eq_zero] using hzero
        have hcast := neighbours_cast (query - lagMS) data
        rw [hfound] at hcast
        obtain ⟨rest, heq⟩ := neighbours_tie (hsorted.imp place_le.mpr) hcast
          (by rw [Sample.place, Sample.place, htie])
        obtain ⟨ha, hb⟩ := neighbours_inside hfound
        exact ⟨a, b, rest, heq, UInt64.le_antisymm ha (htie ▸ hb),
          UInt64.le_antisymm (htie ▸ ha) hb⟩
      case isFalse => cases h
    case h_2 => cases h
  · rintro ⟨a, b, rest, rfl, ha, hb⟩
    have hfound : neighbours Sample.time (query - lagMS) (a :: b :: rest) = some (a, b) := by
      rw [neighbours, if_pos ⟨ha ▸ UInt64.le_refl _, hb ▸ UInt64.le_refl _⟩]
    rw [interpolate, hfound]
    simp [between, ha, hb]

theorem interpolates_iff_head (hsorted : data.Pairwise fun a b => a.time ≤ b.time) :
    Interpolates data ↔ ¬ ∃ a b rest, data = a :: b :: rest ∧ a.time = b.time := by
  constructor
  · rintro h ⟨a, b, rest, heq, htie⟩
    have hquery : a.time + lagMS - lagMS = a.time := UInt64.add_sub_cancel _ _
    exact h.answered (a.time + lagMS) ((interpolate_none_iff hsorted _).mpr
      ⟨a, b, rest, heq, hquery.symm, (hquery.trans htie).symm⟩)
  · intro h
    refine ⟨fun query hnone => ?_, fun query a b hfound => ?_,
      fun query query' a b hle hfound hfound' => ?_,
      fun hcounts query query' a b c d hle hfound hfound' => ?_⟩
    · obtain ⟨a, b, rest, heq, ha, hb⟩ := (interpolate_none_iff hsorted query).mp hnone
      exact h ⟨a, b, rest, heq, ha.trans hb.symm⟩
    · exact ⟨neighbours_adjacent hfound, exact_between hfound⟩
    · obtain ⟨ha, hb⟩ := neighbours_inside hfound
      exact ⟨fun hcount => exact_mono (UInt64.le_trans ha hb) hcount hle,
        fun hcount => exact_anti (UInt64.le_trans ha hb) hcount hle⟩
    · exact exact_le_exact hsorted hcounts hfound hfound' hle

end Data

theorem dropWhile_dropWhile {p q : Sample → Bool} (h : ∀ s, q s → p s) (data : List Sample) :
    (data.dropWhile q).dropWhile p = data.dropWhile p := by
  induction data with
  | nil => rfl
  | cons s data ih =>
    by_cases hq : q s
    · rw [List.dropWhile_cons_of_pos hq, List.dropWhile_cons_of_pos (h s hq), ih]
    · rw [List.dropWhile_cons_of_neg hq]

/-- On samples that are not newer, the subtraction of the code does not wrap. -/
theorem addDataPoint_eq {data : List Sample} {newest : Sample}
    (h : ∀ s ∈ data, s.time ≤ newest.time) :
    addDataPoint data newest = data.dropWhile (older newest) ++ [newest] := by
  have hage : ∀ s ∈ data, decide (newest.time - s.time > lagMS * 2) = older newest s := by
    intro s hs
    rw [older, decide_eq_decide, gt_iff_lt, UInt64.lt_iff_toNat_lt,
      UInt64.toNat_sub_of_le _ _ (h s hs)]
    rfl
  rw [addDataPoint, List.append_left_inj]
  induction data with
  | nil => rfl
  | cons s data ih =>
    rw [List.dropWhile_cons, List.dropWhile_cons, hage s (List.mem_cons_self ..)]
    split
    · exact ih (fun s' hs' => h s' (List.mem_cons_of_mem s hs')) fun s' hs' =>
        hage s' (List.mem_cons_of_mem s hs')
    · rfl

/-- The history that is kept. -/
theorem run_eq (calls : List Sample) (hsorted : calls.Pairwise fun a b => a.time ≤ b.time) :
    run calls = recent calls := by
  induction calls using List.reverseRecOn with
  | nil => rfl
  | append_singleton calls newest ih =>
    obtain ⟨hcalls, -, hnewest⟩ := List.pairwise_append.mp hsorted
    have hle : ∀ s ∈ calls, s.time ≤ newest.time := fun s hs =>
      hnewest s hs newest (List.mem_singleton.mpr rfl)
    have hself : older newest newest = false := by simp [older]
    have hlast : recent (calls ++ [newest]) = calls.dropWhile (older newest) ++ [newest] := by
      rw [recent, List.getLast?_concat]
      simp only [List.dropWhile_append, List.dropWhile_cons, hself]
      split
      case isTrue hempty => simp [List.isEmpty_iff.mp hempty]
      case isFalse => rfl
    have hpruned : (recent calls).dropWhile (older newest) = calls.dropWhile (older newest) := by
      rw [recent]
      split
      case h_1 last hlast =>
        have hnewer := UInt64.le_iff_toNat_le.mp (hle last (List.mem_of_getLast? hlast))
        refine dropWhile_dropWhile (fun s hs => ?_) calls
        rw [older, decide_eq_true_eq] at hs ⊢
        omega
      case h_2 hnone => rw [List.getLast?_eq_none_iff.mp hnone]
    have hrun : run (calls ++ [newest]) = addDataPoint (recent calls) newest := by
      rw [run, List.foldl_append, ← run, ih hcalls]
      rfl
    have hkept : ∀ s ∈ recent calls, s.time ≤ newest.time := fun s hs =>
      hle s (by
        rw [recent] at hs
        split at hs
        · exact List.dropWhile_subset _ hs
        · cases hs)
    rw [hrun, addDataPoint_eq hkept, hpruned, hlast]

theorem sorted_recent {calls : List Sample}
    (hsorted : calls.Pairwise fun a b => a.time ≤ b.time) :
    (recent calls).Pairwise fun a b => a.time ≤ b.time := by
  rw [recent]
  split
  · exact hsorted.sublist (List.dropWhile_sublist _)
  · exact List.Pairwise.nil

/-- The interpolation is right unless the two oldest samples that are kept have one time. -/
theorem run_interpolates_iff (calls : List Sample)
    (hsorted : calls.Pairwise fun a b => a.time ≤ b.time) :
    Interpolates (run calls) ↔
      ¬ ∃ a b rest, recent calls = a :: b :: rest ∧ a.time = b.time := by
  rw [run_eq calls hsorted]
  exact interpolates_iff_head (sorted_recent hsorted)

theorem run_interpolates_iff_two :
    Interpolates (run [⟨0, 5000⟩, ⟨900, 6000⟩]) ↔
      ¬ ∃ a b rest, recent [⟨0, 5000⟩, ⟨900, 6000⟩] = a :: b :: rest ∧ a.time = b.time :=
  run_interpolates_iff _ (by decide)

theorem interpolate_tie :
    ([⟨5, 10000⟩, ⟨7, 10000⟩] : List Sample).Pairwise (fun a b => a.time ≤ b.time) ∧
      interpolate (run [⟨5, 10000⟩, ⟨7, 10000⟩]) 14000 = none := by
  decide

/-- What the words hold, where the counts rise and the product fits. -/
theorem between_floor {a b : Sample} {time : UInt64} (htime : a.time < b.time)
    (ha : a.time ≤ time) (hb : time ≤ b.time) (hcount : a.count ≤ b.count)
    (hfits : (b.count.toNat - a.count.toNat) * (time.toNat - a.time.toNat) < 2 ^ 64) :
    ∃ v, between a b time = some v ∧ (v.toNat : ℤ) = ⌊exact a b time⌋ := by
  rw [UInt64.lt_iff_toNat_lt] at htime
  rw [UInt64.le_iff_toNat_le] at ha hb hcount
  have hwidth : (b.time - a.time).toNat = b.time.toNat - a.time.toNat :=
    UInt64.toNat_sub_of_le _ _ (UInt64.le_iff_toNat_le.mpr htime.le)
  have hpart : (time - a.time).toNat = time.toNat - a.time.toNat :=
    UInt64.toNat_sub_of_le _ _ (UInt64.le_iff_toNat_le.mpr ha)
  have hrise : (b.count - a.count).toNat = b.count.toNat - a.count.toNat :=
    UInt64.toNat_sub_of_le _ _ (UInt64.le_iff_toNat_le.mpr hcount)
  have hne : b.time - a.time ≠ 0 := fun hzero => by
    rw [hzero] at hwidth
    have : (0 : UInt64).toNat = 0 := rfl
    omega
  have hstep : (b.count.toNat - a.count.toNat) * (time.toNat - a.time.toNat) /
      (b.time.toNat - a.time.toNat) ≤ b.count.toNat - a.count.toNat :=
    Nat.div_le_of_le_mul (by
      rw [Nat.mul_comm (b.time.toNat - _)]
      exact Nat.mul_le_mul_left _ (by omega))
  have hbound := b.count.toNat_lt
  refine ⟨_, by rw [between, if_neg hne], ?_⟩
  rw [UInt64.toNat_add, UInt64.toNat_div, UInt64.toNat_mul, hwidth, hpart, hrise,
    Nat.mod_eq_of_lt hfits, Nat.mod_eq_of_lt (by omega), exact, line, Sample.total, Sample.total,
    Sample.place, Sample.place, ← Nat.cast_sub hcount, ← Nat.cast_sub ha, ← Nat.cast_sub htime.le,
    ← Nat.cast_mul, Int.floor_natCast_add, Rat.floor_natCast_div_natCast]
  push_cast
  rfl

end VeloxHash.HashrateInterpolator
