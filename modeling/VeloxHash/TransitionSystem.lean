import Mathlib.Data.List.Basic

/-! Labelled transition systems given by a partial step function.
`exec` runs a schedule; `Run` is the same notion as a relation, with a guard
that every step of the run meets. The rules below carry the inductions on schedules of this
development. -/

namespace VeloxHash.TransitionSystem

variable {σ α : Type*}

/-- Execute a schedule from left to right; `none` when some step is disabled. -/
def exec (step : σ → α → Option σ) : σ → List α → Option σ
  | s, [] => some s
  | s, a :: as => (step s a).bind fun t => exec step t as

/-- A run whose every step is enabled and meets `P` in the state it is taken. -/
inductive Run (step : σ → α → Option σ) (P : σ → α → Prop) : σ → List α → σ → Prop
  | nil (s : σ) : Run step P s [] s
  | cons {s t u : σ} {a : α} {as : List α} :
      P s a → step s a = some t → Run step P t as u → Run step P s (a :: as) u

variable {step : σ → α → Option σ} {P Q : σ → α → Prop} {s t u : σ} {as bs : List α}

theorem run_of_exec (h : exec step s as = some t) : Run step (fun _ _ => True) s as t := by
  induction as generalizing s with
  | nil =>
    obtain rfl : s = t := by simpa [exec] using h
    exact .nil s
  | cons a as ih =>
    obtain ⟨m, hm, hrest⟩ := Option.bind_eq_some_iff.mp h
    exact .cons trivial hm (ih hrest)

theorem exec_of_run (h : Run step P s as t) : exec step s as = some t := by
  induction h with
  | nil s => rfl
  | cons _ hstep _ ih => rw [exec, hstep, Option.bind_some, ih]

theorem exec_append (as bs : List α) (s : σ) :
    exec step s (as ++ bs) = (exec step s as).bind fun t => exec step t bs := by
  induction as generalizing s with
  | nil => rfl
  | cons a as ih => simp only [List.cons_append, exec, Option.bind_assoc, ih]

/-- The step with a test in front of it, for guards that can be computed. -/
def guarded (ok : σ → α → Bool) (step : σ → α → Option σ) (s : σ) (a : α) : Option σ :=
  if ok s a then step s a else none

theorem run_of_guarded {ok : σ → α → Bool} (hok : ∀ s a, ok s a = true → P s a)
    (h : exec (guarded ok step) s as = some t) : Run step P s as t := by
  induction as generalizing s with
  | nil =>
    obtain rfl : s = t := by simpa [exec] using h
    exact .nil s
  | cons a as ih =>
    obtain ⟨m, hm, hrest⟩ := Option.bind_eq_some_iff.mp h
    obtain ⟨ha, hstep⟩ := Option.ite_none_right_eq_some.mp hm
    exact .cons (hok s a ha) hstep (ih hrest)

theorem Run.append (h : Run step P s as t) (h' : Run step P t bs u) :
    Run step P s (as ++ bs) u := by
  induction h with
  | nil s => exact h'
  | cons hp hstep _ ih => exact .cons hp hstep (ih h')

/-- A guard that an invariant draws from another one. -/
theorem Run.mono {I : σ → Prop} (h : Run step P s as t)
    (hguard : ∀ s a t, P s a → I s → step s a = some t → Q s a)
    (hstep : ∀ s a t, Q s a → I s → step s a = some t → I t) (hs : I s) : Run step Q s as t := by
  induction h with
  | nil s => exact .nil s
  | cons hp hst _ ih =>
    have hq := hguard _ _ _ hp hs hst
    exact .cons hq hst (ih (hstep _ _ _ hq hs hst))

/-- The guard may speak of the labels of the run. -/
theorem Run.labels {R : α → Prop} (h : Run step P s as t) (hR : ∀ a ∈ as, R a) :
    Run step (fun s a => P s a ∧ R a) s as t := by
  induction h with
  | nil s => exact .nil s
  | @cons s m u a as hp hst _ ih =>
    exact .cons ⟨hp, hR a List.mem_cons_self⟩ hst
      (ih fun b hb => hR b (List.mem_cons_of_mem a hb))

/-- A state property that steps only ever lose holds throughout a run that ends in it. -/
theorem Run.bounded {B : σ → Prop} (h : Run step P s as t)
    (hback : ∀ s a t, step s a = some t → B t → B s) (ht : B t) :
    Run step (fun s a => P s a ∧ ∀ t, step s a = some t → B t) s as t ∧ B s := by
  induction h with
  | nil s => exact ⟨.nil s, ht⟩
  | cons hp hst _ ih =>
    obtain ⟨hrun, hb⟩ := ih ht
    refine ⟨.cons ⟨hp, fun u hu => ?_⟩ hst hrun, hback _ _ _ hst hb⟩
    rwa [Option.some.inj (hu.symm.trans hst)]

/-- The prefix rule: if under `I` a step leads to `C` exactly when it meets `G`, and then keeps
`I`, the states of a schedule all have `C` exactly when its steps all meet `G`. -/
theorem forall_take_iff {I C : σ → Prop} {G : σ → α → Prop} (hI : ∀ s, I s → C s)
    (hstep : ∀ s a t, I s → step s a = some t → (C t ↔ G s a) ∧ (G s a → I t))
    (hs : I s) (as : List α) :
    (∀ k t, exec step s (as.take k) = some t → C t) ↔
      ∀ k (hk : k < as.length) t u, exec step s (as.take k) = some t →
        step t as[k] = some u → G t as[k] := by
  induction as generalizing s with
  | nil =>
    refine ⟨fun _ k hk => absurd hk (Nat.not_lt_zero k), fun _ k t h => ?_⟩
    rw [List.take_nil] at h
    exact Option.some.inj h ▸ hI s hs
  | cons a as ih =>
    constructor
    · intro hall k hk t u ht hu
      cases k with
      | zero =>
        obtain rfl : s = t := Option.some.inj ht
        refine (hstep s a u hs hu).1.mp (hall 1 u ?_)
        exact Option.bind_eq_some_iff.mpr ⟨u, hu, rfl⟩
      | succ k =>
        obtain ⟨m, hm, hrest⟩ := Option.bind_eq_some_iff.mp ht
        obtain ⟨hiff, hinv⟩ := hstep s a m hs hm
        have hm' : exec step s ((a :: as).take 1) = some m :=
          Option.bind_eq_some_iff.mpr ⟨m, hm, rfl⟩
        refine (ih (hinv (hiff.mp (hall 1 m hm')))).mp (fun j v hv => ?_) k
          (Nat.lt_of_succ_lt_succ hk) t u hrest hu
        exact hall (j + 1) v (Option.bind_eq_some_iff.mpr ⟨m, hm, hv⟩)
    · intro hall k t ht
      cases k with
      | zero => exact Option.some.inj ht ▸ hI s hs
      | succ k =>
        obtain ⟨m, hm, hrest⟩ := Option.bind_eq_some_iff.mp ht
        have hguard := hall 0 (Nat.succ_pos _) s m rfl hm
        refine (ih ((hstep s a m hs hm).2 hguard)).mpr (fun j hj v u hv hu => ?_) k t hrest
        exact hall (j + 1) (Nat.succ_lt_succ hj) v u (Option.bind_eq_some_iff.mpr ⟨m, hm, hv⟩) hu

/-- The invariant rule: what every guarded step preserves, every guarded run preserves. -/
theorem Run.invariant {I : σ → Prop} (h : Run step P s as t)
    (hstep : ∀ s a t, P s a → I s → step s a = some t → I t) (hs : I s) : I t := by
  induction h with
  | nil s => exact hs
  | cons hp hst _ ih => exact ih (hstep _ _ _ hp hs hst)

/-- The measure rule: if each step that `pays` costs one unit of `μ` and no step refunds
any, a run from `s` holds at most `μ s` paying steps. -/
theorem Run.countP_le {I : σ → Prop} {μ : σ → Nat} {pays : α → Bool}
    (h : Run step P s as t) (hs : I s)
    (hinv : ∀ s a t, P s a → I s → step s a = some t → I t)
    (hpay : ∀ s a t, pays a = true → P s a → I s → step s a = some t → μ t + 1 ≤ μ s)
    (hkeep : ∀ s a t, pays a = false → P s a → I s → step s a = some t → μ t ≤ μ s) :
    as.countP pays + μ t ≤ μ s := by
  induction h with
  | nil s => simp
  | @cons s m u a as hp hst _ ih =>
    have hrest := ih (hinv _ _ _ hp hs hst)
    rw [List.countP_cons]
    cases ha : pays a with
    | true =>
      have := hpay _ _ _ ha hp hs hst
      simp only [if_true]
      omega
    | false =>
      have := hkeep _ _ _ ha hp hs hst
      simp only [Bool.false_eq_true, if_false]
      omega

/-- The progress rule: while `D` does not hold every step lowers `μ`, so that `D` holds at
the end of a run of `μ s` steps. -/
theorem Run.reaches {I D : σ → Prop} {μ : σ → Nat} (h : Run step P s as t) (hs : I s)
    (hlen : D s ∨ μ s ≤ as.length)
    (hinv : ∀ s a t, P s a → I s → step s a = some t → I t)
    (hkeep : ∀ s a t, P s a → I s → D s → step s a = some t → D t)
    (hpos : ∀ s, I s → D s ∨ 0 < μ s)
    (hpay : ∀ s a t, P s a → I s → step s a = some t → D s ∨ D t ∨ μ t + 1 ≤ μ s) : D t := by
  induction h with
  | nil s =>
    rcases hlen with hD | hzero
    · exact hD
    · exact (hpos s hs).resolve_right (by simpa using hzero)
  | @cons s m u a as hp hst _ ih =>
    refine ih (hinv _ _ _ hp hs hst) ?_
    rcases hlen with hD | hle
    · exact .inl (hkeep _ _ _ hp hs hD hst)
    · rcases hpay _ _ _ hp hs hst with hD | hD | hlt
      · exact .inl (hkeep _ _ _ hp hs hD hst)
      · exact .inl hD
      · refine .inr ?_
        rw [List.length_cons] at hle
        omega

end VeloxHash.TransitionSystem
