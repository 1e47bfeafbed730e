import VeloxHash.CodeBuffer

/-! Computations that stay below a bound of the memory of their state: what lies above takes no
part in them and does not change. -/

namespace VeloxHash.Confinement

open CodeBuffer

/-- A state as its memory and the rest of it. -/
structure View (σ ρ : Type*) where
  rest : σ → ρ
  memory : σ → Memory

variable {σ τ υ ρ ρ' ρ'' : Type*} {v : View σ ρ} {w : View τ ρ'} {x : View υ ρ''} {n : Nat}

/-- Two states that differ at most in what their memories hold from `n` on. -/
def View.Same (v : View σ ρ) (n : Nat) (s t : σ) : Prop :=
  v.rest s = v.rest t ∧ ∀ a < n, v.memory s a = v.memory t a

/-- A state together with what was computed from it. -/
def View.pair (v : View σ ρ) (w : View τ ρ') : View (σ × τ) (ρ × ρ') where
  rest x := (v.rest x.1, w.rest x.2)
  memory x := w.memory x.2

/-- Below `n`, and on the rest of the state, a computation does the same whatever the memory holds
from `n` on, and from `n` on the memory stays as it is. -/
structure Confined (v : View σ ρ) (w : View τ ρ') (n : Nat) (f : σ → Option τ) : Prop where
  reads : ∀ s t, v.Same n s t → Option.Rel (w.Same n) (f s) (f t)
  writes : ∀ s t, f s = some t → ∀ a, n ≤ a → w.memory t a = v.memory s a

theorem Confined.some {f : σ → τ} (hreads : ∀ s t, v.Same n s t → w.Same n (f s) (f t))
    (hwrites : ∀ s a, n ≤ a → w.memory (f s) a = v.memory s a) :
    Confined v w n fun s => Option.some (f s) where
  reads s t h := .some (hreads s t h)
  writes s _ h a ha := Option.some.inj h ▸ hwrites s a ha

theorem Confined.none : Confined v w n fun _ => Option.none where
  reads _ _ _ := .none
  writes _ _ h := by cases h

/-- What a computation does may depend on all of the state but its memory. -/
theorem Confined.dependent {f : ρ → σ → Option τ} (h : ∀ r, Confined v w n (f r)) :
    Confined v w n fun s => f (v.rest s) s where
  reads s t hst := by
    rw [← hst.1]
    exact (h (v.rest s)).reads s t hst
  writes s := (h (v.rest s)).writes s

theorem Confined.bind {f : σ → Option τ} {g : τ → Option υ} (hf : Confined v w n f)
    (hg : Confined w x n g) : Confined v x n fun s => (f s).bind g where
  reads s t hst := by
    have h := hf.reads s t hst
    cases hs : f s with
    | none =>
      cases ht : f t with
      | none => exact .none
      | some _ =>
        rw [hs, ht] at h
        cases h
    | some s' =>
      cases ht : f t with
      | none =>
        rw [hs, ht] at h
        cases h
      | some t' =>
        rw [hs, ht] at h
        cases h with
        | some h => exact hg.reads s' t' h
  writes s u hu a ha := by
    obtain ⟨t, ht, hu⟩ := Option.bind_eq_some_iff.mp hu
    exact (hg.writes t u hu a ha).trans (hf.writes s t ht a ha)

theorem Confined.pair {f : σ → Option τ} (hf : Confined v w n f) :
    Confined v (v.pair w) n fun s => (f s).map fun t => (s, t) where
  reads s t hst := by
    have h := hf.reads s t hst
    change Option.Rel _ ((f s).map _) ((f t).map _)
    generalize f s = x at h ⊢
    generalize f t = y at h ⊢
    cases h with
    | none => exact .none
    | some h => exact .some ⟨Prod.ext hst.1 h.1, h.2⟩
  writes s x hx a ha := by
    obtain ⟨t, ht, rfl⟩ := Option.map_eq_some_iff.mp hx
    exact hf.writes s t ht a ha

/-- A computation that needs less of the state than a view shows. -/
theorem Confined.of_same {v' : View σ ρ''} {f : σ → Option τ} (hf : Confined v w n f)
    (hsame : ∀ s t, v'.Same n s t → v.Same n s t) (hmemory : ∀ s, v.memory s = v'.memory s) :
    Confined v' w n f where
  reads s t h := hf.reads s t (hsame s t h)
  writes s t h a ha := (hf.writes s t h a ha).trans (congrFun (hmemory s) a)

theorem Confined.congr {f g : σ → Option τ} (hf : Confined v w n f) (h : ∀ s, g s = f s) :
    Confined v w n g :=
  (funext h : g = f) ▸ hf

/-- A computation again and again. -/
def rounds (f : σ → Option σ) : Nat → σ → Option σ
  | 0, s => some s
  | count + 1, s => (f s).bind (rounds f count)

theorem Confined.rounds {f : σ → Option σ} (hf : Confined v v n f) (count : Nat) :
    Confined v v n (rounds f count) := by
  induction count with
  | zero => exact .some (fun _ _ h => h) fun _ _ _ => rfl
  | succ count ih => exact hf.bind ih

/-- What each round keeps and needs, all of them keep, and none of them fails. -/
theorem rounds_total {f : σ → Option σ} {I : σ → Prop}
    (h : ∀ s, I s → ∃ t, f s = some t ∧ I t) (count : Nat) {s : σ} (hs : I s) :
    ∃ t, rounds f count s = some t ∧ I t := by
  induction count generalizing s with
  | zero => exact ⟨s, rfl, hs⟩
  | succ count ih =>
    obtain ⟨t, ht, hI⟩ := h s hs
    obtain ⟨u, hu, hI'⟩ := ih hI
    exact ⟨u, by rw [rounds, ht, Option.bind_some, hu], hI'⟩

theorem write_congr {m m' : Memory} {n p : Nat} {bytes : List UInt8} (h : ∀ a < n, m a = m' a) :
    ∀ a < n, write m p bytes a = write m' p bytes a := by
  intro a ha
  unfold write
  rw [h a ha]

end VeloxHash.Confinement
