import Mathlib.Data.List.Basic

/-! Steps that may fail, and runs of them. A run fails exactly at the first step that does. -/

namespace VeloxHash.FallibleRun

universe u

variable {ε σ α β : Type u}

/-- The result is no failure. -/
def Succeeds (x : Except ε α) : Prop := ∃ a, x = .ok a

@[simp] theorem succeeds_ok (a : α) : Succeeds (.ok a : Except ε α) := ⟨a, rfl⟩

@[simp] theorem succeeds_pure (a : α) : Succeeds (pure a : Except ε α) := ⟨a, rfl⟩

@[simp] theorem not_succeeds_error (e : ε) : ¬ Succeeds (.error e : Except ε α) :=
  fun ⟨_, h⟩ => nomatch h

theorem succeeds_bind {x : Except ε α} {f : α → Except ε β} :
    Succeeds (x >>= f) ↔ ∃ a, x = .ok a ∧ Succeeds (f a) := by
  cases x with
  | error e => exact iff_of_false (not_succeeds_error e) fun ⟨_, h, _⟩ => nomatch h
  | ok a => exact ⟨fun h => ⟨a, rfl, h⟩, fun ⟨_, h, hf⟩ => Except.ok.inj h ▸ hf⟩

/-- The value of the first step does not matter to what follows. -/
theorem succeeds_bind_const {x : Except ε α} {y : Except ε β} :
    Succeeds (x >>= fun _ => y) ↔ Succeeds x ∧ Succeeds y := by
  rw [succeeds_bind]
  exact ⟨fun ⟨a, hx, hy⟩ => ⟨⟨a, hx⟩, hy⟩, fun ⟨⟨a, hx⟩, hy⟩ => ⟨a, hx, hy⟩⟩

theorem bind_eq_ok {x : Except ε α} {f : α → Except ε β} {b : β} :
    (x >>= f) = .ok b ↔ ∃ a, x = .ok a ∧ f a = .ok b := by
  cases x with
  | error e => exact iff_of_false (nomatch ·) fun ⟨_, h, _⟩ => nomatch h
  | ok a => exact ⟨fun h => ⟨a, rfl, h⟩, fun ⟨_, h, hf⟩ => Except.ok.inj h ▸ hf⟩

/-- The steps of a schedule from left to right. -/
def run (step : σ → α → Except ε σ) (s : σ) (as : List α) : Except ε σ := as.foldlM step s

variable {step : σ → α → Except ε σ} {I : σ → Prop} {G : σ → α → Prop}

theorem run_cons (step : σ → α → Except ε σ) (s : σ) (a : α) (as : List α) :
    run step s (a :: as) = step s a >>= fun t => run step t as := rfl

/-- A run succeeds exactly if each of its steps meets, in the state it is taken, the condition
under which a step succeeds. -/
theorem run_succeeds_iff (hstep : ∀ s a, I s → (Succeeds (step s a) ↔ G s a))
    (hkeep : ∀ s a t, I s → step s a = .ok t → I t) {s : σ} (hs : I s) (as : List α) :
    Succeeds (run step s as) ↔
      ∀ k (hk : k < as.length) t, run step s (as.take k) = .ok t → G t as[k] := by
  induction as generalizing s with
  | nil => exact iff_of_true ⟨s, rfl⟩ fun k hk => absurd hk (Nat.not_lt_zero k)
  | cons a as ih =>
    rw [run_cons, succeeds_bind]
    constructor
    · rintro ⟨m, hm, hrest⟩ k hk t ht
      cases k with
      | zero =>
        obtain rfl : s = t := Except.ok.inj ht
        exact (hstep s a hs).mp ⟨m, hm⟩
      | succ k =>
        rw [List.take_succ_cons, run_cons, hm] at ht
        exact (ih (hkeep s a m hs hm)).mp hrest k (Nat.lt_of_succ_lt_succ hk) t ht
    · intro hall
      have hfirst : G s a := hall 0 (Nat.zero_lt_succ _) s rfl
      obtain ⟨m, hm⟩ := (hstep s a hs).mpr hfirst
      refine ⟨m, hm, (ih (hkeep s a m hs hm)).mpr fun k hk t ht => ?_⟩
      refine hall (k + 1) (Nat.succ_lt_succ hk) t ?_
      rw [List.take_succ_cons, run_cons, hm]
      exact ht

end VeloxHash.FallibleRun
