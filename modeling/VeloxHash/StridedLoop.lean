import Mathlib.Data.PNat.Basic
import Mathlib.Tactic

/-! Loops that go over a stretch of addresses in steps of one width: how a loop goes on from
another one, how its body may be unrolled, and when two loops are one. -/

namespace VeloxHash.StridedLoop

variable {σ τ : Type*} {w : ℕ+} {body : Nat → σ → σ} {p q n : Nat} {s : σ}

/-- `while (p < q) { body; p += w; }`, with the address at its end. -/
def strided (w : ℕ+) (body : Nat → σ → σ) (q p : Nat) (s : σ) : Nat × σ :=
  if p < q then strided w body q (p + w) (body p s) else (p, s)
termination_by q - p
decreasing_by
  have := w.pos
  omega

theorem strided_lt (h : p < q) : strided w body q p s = strided w body q (p + w) (body p s) := by
  rw [strided, if_pos h]

theorem strided_done (h : q ≤ p) : strided w body q p s = (p, s) := by
  rw [strided, if_neg (Nat.not_lt_of_le h)]

theorem le_strided : q ≤ (strided w body q p s).1 := by
  induction hk : q - p using Nat.strong_induction_on generalizing p s with
  | _ k ih =>
    by_cases hlt : p < q
    · have hpos := w.pos
      rw [strided_lt hlt]
      exact ih (q - (p + w)) (by omega) rfl
    · rw [strided_done (Nat.le_of_not_lt hlt)]
      exact Nat.le_of_not_lt hlt

/-- A loop to an earlier end, and one that goes on from there. -/
theorem strided_phase {q' : Nat} (h : q' ≤ q) : strided w body q p s =
    strided w body q (strided w body q' p s).1 (strided w body q' p s).2 := by
  induction hk : q' - p using Nat.strong_induction_on generalizing p s with
  | _ k ih =>
    by_cases hlt : p < q'
    · have hpos := w.pos
      rw [strided_lt (hlt.trans_le h), strided_lt hlt, ih (q' - (p + w)) (by omega) rfl]
    · rw [strided_done (Nat.le_of_not_lt hlt)]

/-- The body at the next `n` addresses. -/
def steps (w : ℕ+) (body : Nat → σ → σ) : (n p : Nat) → σ → σ
  | 0, _, s => s
  | n + 1, p, s => steps w body n (p + w) (body p s)

theorem strided_steps (h : p + n * w ≤ q) :
    strided w body q p s = strided w body q (p + n * w) (steps w body n p s) := by
  induction n generalizing p s with
  | zero => rw [Nat.zero_mul, Nat.add_zero, steps]
  | succ n ih =>
    have hpos := w.pos
    rw [Nat.succ_mul] at h
    rw [strided_lt (by omega), ih (by omega), steps, Nat.succ_mul]
    congr 1
    omega

/-- A loop whose body is `n` rounds of another one. -/
theorem strided_unroll {n : ℕ+} {unrolled : Nat → σ → σ}
    (hbody : ∀ p s, unrolled p s = steps w body n p s) (h : (n * w : ℕ) ∣ q - p) (hle : p ≤ q) :
    strided (n * w) unrolled q p s = strided w body q p s := by
  induction hk : q - p using Nat.strong_induction_on generalizing p s with
  | _ k ih =>
    by_cases hlt : p < q
    · have hpos : 0 < (n * w : ℕ) := Nat.mul_pos n.pos w.pos
      have hroom : (n * w : ℕ) ≤ q - p := Nat.le_of_dvd (by omega) h
      have hrest : (n * w : ℕ) ∣ q - (p + n * w) := by
        rw [Nat.sub_add_eq]
        exact Nat.dvd_sub h (dvd_refl _)
      have hwide : strided (n * w) unrolled q p s =
          strided (n * w) unrolled q (p + n * w) (steps w body n p s) :=
        (strided_lt hlt).trans (by rw [hbody, PNat.mul_coe])
      have hnarrow : strided w body q p s = strided w body q (p + n * w) (steps w body n p s) :=
        strided_steps (by omega)
      rw [hwide, hnarrow]
      exact ih (q - (p + n * w)) (by omega) hrest (by omega) rfl
    · rw [strided_done (Nat.le_of_not_lt hlt), strided_done (Nat.le_of_not_lt hlt)]

/-- Two loops in lockstep. -/
theorem strided_related {g : Nat → τ → τ} {t : τ} {R : Nat → σ → τ → Prop} (hR : R p s t)
    (hstep : ∀ p s t, p < q → R p s t → R (p + w) (body p s) (g p t)) :
    (strided w body q p s).1 = (strided w g q p t).1 ∧
      R (strided w body q p s).1 (strided w body q p s).2 (strided w g q p t).2 := by
  induction hk : q - p using Nat.strong_induction_on generalizing p s t with
  | _ k ih =>
    by_cases hlt : p < q
    · have hpos := w.pos
      rw [strided_lt hlt, @strided_lt _ _ g _ _ _ hlt]
      exact ih (q - (p + w)) (by omega) (hstep p s t hlt hR) rfl
    · rw [strided_done (Nat.le_of_not_lt hlt), strided_done (Nat.le_of_not_lt hlt)]
      exact ⟨rfl, hR⟩

/-- A loop over a pair, the first part of which reads the second part only where the second
part has not been changed yet. -/
theorem strided_fuse {f : τ → Nat → σ → σ} {g : Nat → τ → τ} {t : τ}
    (h : ∀ (p : Nat) t p' s, p + w ≤ p' → f (g p t) p' s = f t p' s) :
    strided w (fun p st => (f st.2 p st.1, g p st.2)) q p (s, t) =
      ((strided w (f t) q p s).1, (strided w (f t) q p s).2, (strided w g q p t).2) := by
  have hread (p₀ : Nat) (t : τ) (p : Nat) (s : σ) : p₀ + w ≤ p →
      strided w (f (g p₀ t)) q p s = strided w (f t) q p s := by
    induction hk : q - p using Nat.strong_induction_on generalizing p s with
    | _ k ih =>
      intro hp
      by_cases hlt : p < q
      · have hpos := w.pos
        rw [strided_lt hlt, strided_lt hlt, h p₀ t p s hp]
        exact ih (q - (p + w)) (by omega) _ _ rfl (by omega)
      · rw [strided_done (Nat.le_of_not_lt hlt), strided_done (Nat.le_of_not_lt hlt)]
  induction hk : q - p using Nat.strong_induction_on generalizing p s t with
  | _ k ih =>
    by_cases hlt : p < q
    · have hpos := w.pos
      rw [strided_lt hlt, ih (q - (p + w)) (by omega) rfl, hread p t _ _ le_rfl,
        @strided_lt _ _ (f t) _ _ _ hlt, @strided_lt _ _ g _ _ _ hlt]
    · rw [strided_done (Nat.le_of_not_lt hlt), strided_done (Nat.le_of_not_lt hlt),
        strided_done (Nat.le_of_not_lt hlt)]

end VeloxHash.StridedLoop
