import Mathlib.Algebra.Order.Field.Basic
import Mathlib.Data.List.Infix
import Mathlib.Tactic

/-! The neighbours of a point among ordered samples, and the line between them. -/

namespace VeloxHash.PiecewiseLinear

variable {σ : Type*}

section Lookup

variable {τ : Type*} [LE τ] [DecidableLE τ] (x : σ → τ)

/-- The first two neighbours with the point between them. -/
def neighbours (t : τ) : List σ → Option (σ × σ)
  | a :: b :: rest => if x a ≤ t ∧ t ≤ x b then some (a, b) else neighbours t (b :: rest)
  | _ => none

variable {x} {t : τ} {a b : σ} {samples : List σ}

theorem neighbours_inside (h : neighbours x t samples = some (a, b)) : x a ≤ t ∧ t ≤ x b := by
  fun_induction neighbours x t samples with
  | case1 a' b' rest hin =>
    cases h
    exact hin
  | case2 a' b' rest hout ih => exact ih h
  | case3 => cases h

theorem neighbours_adjacent (h : neighbours x t samples = some (a, b)) : [a, b] <:+: samples := by
  fun_induction neighbours x t samples with
  | case1 a' b' rest hin =>
    cases h
    exact (List.prefix_append [a, b] rest).isInfix
  | case2 a' b' rest hout ih => exact (ih h).trans (List.suffix_cons a' _).isInfix
  | case3 => cases h

theorem neighbours_mem (h : neighbours x t samples = some (a, b)) : a ∈ samples :=
  (neighbours_adjacent h).subset (List.mem_cons_self ..)

theorem neighbours_map {τ' : Type*} [LE τ'] [DecidableLE τ'] (f : τ → τ')
    (hf : ∀ u v, f u ≤ f v ↔ u ≤ v) (t : τ) (samples : List σ) :
    neighbours (fun s => f (x s)) (f t) samples = neighbours x t samples := by
  fun_induction neighbours x t samples with
  | case1 a b rest hin =>
    have hin' : f (x a) ≤ f t ∧ f t ≤ f (x b) := by rwa [hf, hf]
    rw [neighbours, if_pos hin']
  | case2 a b rest hout ih =>
    have hout' : ¬ (f (x a) ≤ f t ∧ f t ≤ f (x b)) := by rwa [hf, hf]
    rw [neighbours, if_neg hout', ih]
  | case3 =>
    rw [neighbours]
    assumption

/-- Two neighbours at one place are found only at the head of the samples: elsewhere the place
already belongs to the pair before. -/
theorem neighbours_tie {τ : Type*} [LinearOrder τ] {x : σ → τ} {t : τ}
    (hsorted : samples.Pairwise fun a b => x a ≤ x b)
    (h : neighbours x t samples = some (a, b)) (htie : x a = x b) :
    ∃ rest, samples = a :: b :: rest := by
  fun_induction neighbours x t samples with
  | case1 a' b' rest hin =>
    cases h
    exact ⟨rest, rfl⟩
  | case2 a' b' rest hout ih =>
    obtain ⟨hhead, htail⟩ := List.pairwise_cons.mp hsorted
    obtain ⟨rest', heq⟩ := ih htail h
    obtain ⟨rfl, _⟩ := List.cons.inj heq
    have hinside := neighbours_inside h
    have ht : t = x b' := le_antisymm (htie ▸ hinside.2) hinside.1
    exact absurd ⟨ht ▸ hhead b' (List.mem_cons_self ..), ht.le⟩ hout
  | case3 => cases h

end Lookup

section Line

variable {K : Type*} [Field K] [LinearOrder K] [IsStrictOrderedRing K] (x y : σ → K)

def line (a b : σ) (t : K) : K := y a + (y b - y a) * (t - x a) / (x b - x a)

variable {x y} {a b : σ} {t t' : K}

omit [LinearOrder K] [IsStrictOrderedRing K] in
theorem line_eq (a b : σ) (t : K) :
    line x y a b t = y a + (y b - y a) * ((t - x a) / (x b - x a)) := by
  rw [line, mul_div_assoc]

theorem share_bounds (h : x a ≤ t) (h' : t ≤ x b) :
    0 ≤ (t - x a) / (x b - x a) ∧ (t - x a) / (x b - x a) ≤ 1 :=
  ⟨div_nonneg (by linarith) (by linarith), div_le_one_of_le₀ (by linarith) (by linarith)⟩

theorem line_between (h : x a ≤ t) (h' : t ≤ x b) :
    min (y a) (y b) ≤ line x y a b t ∧ line x y a b t ≤ max (y a) (y b) := by
  obtain ⟨hzero, hone⟩ := share_bounds h h'
  rw [line_eq]
  rcases le_total (y a) (y b) with hy | hy
  · rw [min_eq_left hy, max_eq_right hy]
    constructor <;> nlinarith
  · rw [min_eq_right hy, max_eq_left hy]
    constructor <;> nlinarith

theorem line_mono (hx : x a ≤ x b) (hy : y a ≤ y b) (h : t ≤ t') :
    line x y a b t ≤ line x y a b t' := by
  rw [line_eq, line_eq]
  have hshare := div_le_div_of_nonneg_right (sub_le_sub_right h (x a)) (sub_nonneg.mpr hx)
  gcongr

theorem line_anti (hx : x a ≤ x b) (hy : y b ≤ y a) (h : t ≤ t') :
    line x y a b t' ≤ line x y a b t := by
  rw [line_eq, line_eq]
  have hshare := div_le_div_of_nonneg_right (sub_le_sub_right h (x a)) (sub_nonneg.mpr hx)
  nlinarith

/-- Over samples that rise, the line rises from one pair of neighbours to the next. -/
theorem line_le_line {samples : List σ} {c d : σ} (hx : samples.Pairwise fun a b => x a ≤ x b)
    (hy : samples.Pairwise fun a b => y a ≤ y b) (h : neighbours x t samples = some (a, b))
    (h' : neighbours x t' samples = some (c, d)) (hle : t ≤ t') :
    line x y a b t ≤ line x y c d t' := by
  fun_induction neighbours x t samples with
  | case1 a' b' rest hin =>
    cases h
    have hyhead := (List.pairwise_cons.mp hy).1 b (List.mem_cons_self ..)
    rw [neighbours] at h'
    split at h'
    · cases h'
      exact line_mono (hin.1.trans hin.2) hyhead hle
    · have htail := (List.pairwise_cons.mp hy).2
      have hc : y b ≤ y c := by
        rcases List.mem_cons.mp (neighbours_mem h') with rfl | hmem
        · exact le_rfl
        · exact (List.pairwise_cons.mp htail).1 c hmem
      have hcd : y c ≤ y d :=
        List.rel_of_pairwise_cons (htail.sublist (neighbours_adjacent h').sublist)
          (List.mem_singleton.mpr rfl)
      have hinside := neighbours_inside h'
      calc line x y a b t ≤ max (y a) (y b) := (line_between hin.1 hin.2).2
        _ = min (y b) (y b) := by rw [max_eq_right hyhead, min_self]
        _ ≤ min (y c) (y d) := min_le_min hc (hc.trans hcd)
        _ ≤ line x y c d t' := (line_between hinside.1 hinside.2).1
  | case2 a' b' rest hout ih =>
    obtain ⟨hxhead, hxtail⟩ := List.pairwise_cons.mp hx
    have hb : x b' ≤ t := by
      refine le_trans ?_ (neighbours_inside h).1
      rcases List.mem_cons.mp (neighbours_mem h) with rfl | hmem
      · exact le_rfl
      · exact (List.pairwise_cons.mp hxtail).1 a hmem
    -- the later point is not before the second sample, where the first pair would have the earlier
    have hout' : ¬ (x a' ≤ t' ∧ t' ≤ x b') := fun hin =>
      hout ⟨(hxhead b' (List.mem_cons_self ..)).trans hb, hle.trans hin.2⟩
    rw [neighbours, if_neg hout'] at h'
    exact ih hxtail (List.pairwise_cons.mp hy).2 h h'
  | case3 => cases h

end Line

end VeloxHash.PiecewiseLinear
