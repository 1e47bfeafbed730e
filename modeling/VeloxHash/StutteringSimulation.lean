import Mathlib.Tactic

/-! Simulation between two deterministic machines of which the second may skip steps of
the first. A relation that one step of the first machine keeps, with or without a step of
the second, ties whole runs of both together, in either direction. -/

namespace VeloxHash.StutteringSimulation

variable {σ τ : Type*}

/-- `n` steps of a partial step function. -/
def steps (step : σ → Option σ) : Nat → σ → Option σ
  | 0, s => some s
  | n + 1, s => (step s).bind (steps step n)

variable {stepS : σ → Option σ} {stepT : τ → Option τ} {R : σ → τ → Prop} {rank : σ → Nat}

/-- One step of the first machine is skipped, at the cost of `rank`, or matched. -/
def Simulates (stepS : σ → Option σ) (stepT : τ → Option τ) (R : σ → τ → Prop)
    (rank : σ → Nat) : Prop :=
  ∀ s t, R s t → ∃ s', stepS s = some s' ∧
    (R s' t ∧ rank s' < rank s ∨ ∃ t', stepT t = some t' ∧ R s' t')

theorem Simulates.forward (h : Simulates stepS stepT R rank) (n : Nat) {s : σ} {t : τ}
    (hst : R s t) :
    ∃ s' k t', steps stepS n s = some s' ∧ k ≤ n ∧ steps stepT k t = some t' ∧ R s' t' := by
  induction n generalizing s t with
  | zero => exact ⟨s, 0, t, rfl, le_rfl, rfl, hst⟩
  | succ n ih =>
    obtain ⟨m, hm, ⟨hR, -⟩ | ⟨t', ht, hR⟩⟩ := h s t hst
    · obtain ⟨s', k, t', hs, hk, ht, hR'⟩ := ih hR
      exact ⟨s', k, t', by rw [steps, hm, Option.bind_some, hs], by omega, ht, hR'⟩
    · obtain ⟨s', k, u, hs, hk, hu, hR'⟩ := ih hR
      exact ⟨s', k + 1, u, by rw [steps, hm, Option.bind_some, hs], by omega,
        by rw [steps, ht, Option.bind_some, hu], hR'⟩

/-- Skipping ends, so the second machine is never ahead for want of a match. -/
theorem Simulates.next (h : Simulates stepS stepT R rank) {s : σ} {t : τ} (hst : R s t) :
    ∃ n s' t', steps stepS n s = some s' ∧ stepT t = some t' ∧ R s' t' := by
  induction hr : rank s using Nat.strong_induction_on generalizing s with
  | _ r ih =>
    obtain ⟨m, hm, ⟨hR, hlt⟩ | ⟨t', ht, hR⟩⟩ := h s t hst
    · obtain ⟨n, s', t', hs, ht, hR'⟩ := ih (rank m) (hr ▸ hlt) hR rfl
      exact ⟨n + 1, s', t', by rw [steps, hm, Option.bind_some, hs], ht, hR'⟩
    · exact ⟨1, m, t', by rw [steps, hm, Option.bind_some, steps], ht, hR⟩

theorem steps_add (step : σ → Option σ) (m n : Nat) (s : σ) :
    steps step (m + n) s = (steps step m s).bind (steps step n) := by
  induction m generalizing s with
  | zero => rw [Nat.zero_add, steps, Option.bind_some]
  | succ m ih =>
    rw [Nat.succ_add, steps, steps, Option.bind_assoc]
    exact congrArg _ (funext fun s => ih s)

theorem Simulates.backward (h : Simulates stepS stepT R rank) (k : Nat) {s : σ} {t : τ}
    (hst : R s t) :
    ∃ t' n s', steps stepT k t = some t' ∧ steps stepS n s = some s' ∧ R s' t' := by
  induction k generalizing s t with
  | zero => exact ⟨t, 0, s, rfl, rfl, hst⟩
  | succ k ih =>
    obtain ⟨n, m, u, hm, hu, hR⟩ := h.next hst
    obtain ⟨t', n', s', ht, hs, hR'⟩ := ih hR
    exact ⟨t', n + n', s', by rw [steps, hu, Option.bind_some, ht],
      by rw [steps_add, hm, Option.bind_some, hs], hR'⟩

end VeloxHash.StutteringSimulation
