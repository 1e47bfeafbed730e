import VeloxHash.Checked

/-! Programs with loops that draw again until a value is acceptable. A program is given a number of
tries for each such loop; one that settles ends with every access in its table unless a loop
refuses that many values, and more tries do not change how it ends. If each such loop is left, then
tries enough make it end. -/

namespace VeloxHash

namespace Retrying

open Checked

inductive Fault
  /-- An access outside of a table. -/
  | outside
  /-- A loop has used up its tries. -/
  | refused
  /-- A loop that should end has taken more turns than it is given. -/
  | endless
  deriving DecidableEq, Repr

end Retrying

def Retrying (α : Type) := Nat → Except Retrying.Fault α

namespace Retrying

open Checked

variable {α β σ τ : Type}

protected def pure (a : α) : Retrying α := fun _ => .ok a

protected def bind (x : Retrying α) (f : α → Retrying β) : Retrying β := fun n =>
  match x n with
  | .ok a => f a n
  | .error e => .error e

instance : Monad Retrying where
  pure := Retrying.pure
  bind := Retrying.bind

def access (x : Option α) : Retrying α := fun _ =>
  match x with
  | some a => .ok a
  | none => .error .outside

/-- Draws until a value is accepted. -/
def search (draw : σ → Option (β × σ)) (accept : β → Bool) : Nat → σ → Except Fault (β × σ)
  | 0, _ => .error .refused
  | n + 1, s =>
    match draw s with
    | none => .error .outside
    | some (b, t) => if accept b then .ok (b, t) else search draw accept n t

def retry (draw : σ → Option (β × σ)) (accept : β → Bool) (s : σ) : Retrying (β × σ) :=
  fun n => search draw accept n s

/-- A loop whose body goes on with a state or leaves with a result. -/
def loop (body : σ → Retrying (σ ⊕ τ)) : Nat → σ → Retrying τ
  | 0, _ => fun _ => .error .endless
  | turns + 1, s => do
    match ← body s with
    | .inl s => loop body turns s
    | .inr t => return t

/-- Under `H` the loops are left. -/
structure Settles (H : Prop) (x : Retrying α) (Q : α → Prop) : Prop where
  ends : ∀ n, x n = .error .refused ∨ ∃ a, x n = .ok a ∧ Q a
  stable : ∀ n m, n ≤ m → x n ≠ .error .refused → x m = x n
  left : H → ∃ n, x n ≠ .error .refused

section Rules

variable {H : Prop} {x : Retrying α} {f : α → Retrying β} {P Q : α → Prop} {R : β → Prop}

theorem settles_pure {a : α} (h : Q a) : Settles H (pure a : Retrying α) Q where
  ends _ := .inr ⟨a, rfl, h⟩
  stable _ _ _ _ := rfl
  left _ := ⟨0, nofun⟩

theorem settles_access {x : Option α} (h : Ensures x Q) : Settles H (access x) Q := by
  obtain ⟨a, rfl, ha⟩ := h
  exact ⟨fun _ => .inr ⟨a, rfl, ha⟩, fun _ _ _ _ => rfl, fun _ => ⟨0, nofun⟩⟩

theorem Settles.mono (h : Settles H x P) (hPQ : ∀ a, P a → Q a) : Settles H x Q where
  ends n := (h.ends n).imp_right fun ⟨a, ha, hp⟩ => ⟨a, ha, hPQ a hp⟩
  stable := h.stable
  left := h.left

theorem bind_ok {n : Nat} {a : α} (h : x n = .ok a) : (x >>= f) n = f a n := by
  change Retrying.bind x f n = _
  rw [Retrying.bind, h]

theorem bind_error {n : Nat} {e : Fault} (h : x n = .error e) : (x >>= f) n = .error e := by
  change Retrying.bind x f n = _
  rw [Retrying.bind, h]

theorem Settles.ok (h : Settles H x Q) {n : Nat} (hn : x n ≠ .error .refused) :
    ∃ a, Q a ∧ ∀ m, n ≤ m → x m = .ok a := by
  obtain ⟨a, ha, hq⟩ := (h.ends n).resolve_left hn
  exact ⟨a, hq, fun m hle => (h.stable n m hle hn).trans ha⟩

theorem Settles.bind (h : Settles H x P) (hf : ∀ a, P a → Settles H (f a) R) :
    Settles H (x >>= f) R where
  ends n := by
    rcases h.ends n with hx | ⟨a, hx, ha⟩
    · exact .inl (bind_error hx)
    · rw [bind_ok hx]
      exact (hf a ha).ends n
  stable n m hle hne := by
    have hn : x n ≠ .error .refused := fun hx => hne (bind_error hx)
    obtain ⟨a, ha, hx⟩ := h.ok hn
    rw [bind_ok (hx n (Nat.le_refl n))] at hne ⊢
    rw [bind_ok (hx m hle)]
    exact (hf a ha).stable n m hle hne
  left hleft := by
    obtain ⟨n, hn⟩ := h.left hleft
    obtain ⟨a, ha, hx⟩ := h.ok hn
    obtain ⟨k, hk⟩ := (hf a ha).left hleft
    refine ⟨max n k, ?_⟩
    rw [bind_ok (hx _ (Nat.le_max_left n k)), (hf a ha).stable k _ (Nat.le_max_right n k) hk]
    exact hk

theorem settles_ite {c : Prop} [Decidable c] {x y : Retrying α} (ht : c → Settles H x Q)
    (he : ¬c → Settles H y Q) : Settles H (if c then x else y) Q := by
  split
  · exact ht ‹c›
  · exact he ‹¬c›

section Search

variable {draw : σ → Option (β × σ)} {accept : β → Bool} {I : σ → Prop} {s : σ}

theorem search_ends (hdraw : ∀ s, I s → Ensures (draw s) fun r => I r.2) (hs : I s) (n : Nat) :
    search draw accept n s = .error .refused ∨
      ∃ r, search draw accept n s = .ok r ∧ accept r.1 = true ∧ I r.2 := by
  induction n generalizing s with
  | zero => exact .inl rfl
  | succ n ih =>
    obtain ⟨⟨b, t⟩, hb, ht⟩ := hdraw s hs
    rw [search, hb]
    dsimp only
    split
    · exact .inr ⟨_, rfl, ‹_›, ht⟩
    · exact ih ht

theorem search_stable {n m : Nat} (hle : n ≤ m) (hne : search draw accept n s ≠ .error .refused) :
    search draw accept m s = search draw accept n s := by
  induction n generalizing s m with
  | zero => exact absurd rfl hne
  | succ n ih =>
    obtain ⟨m, rfl⟩ := Nat.exists_eq_succ_of_ne_zero (Nat.ne_zero_of_lt hle)
    rw [search] at hne ⊢
    rw [search]
    cases hb : draw s with
    | none => rfl
    | some r =>
      rw [hb] at hne
      dsimp only at hne ⊢
      split
      · rfl
      · rename_i hrefused
        rw [if_neg hrefused] at hne
        exact ih (Nat.le_of_succ_le_succ hle) hne

/-- The draws keep an invariant, and the test holds of what a loop leaves with. -/
theorem settles_retry (hdraw : ∀ s, I s → Ensures (draw s) fun r => I r.2) (hs : I s)
    (hleft : H → ∃ n, search draw accept n s ≠ .error .refused) :
    Settles H (retry draw accept s) fun r => accept r.1 = true ∧ I r.2 where
  ends n := search_ends hdraw hs n
  stable _ _ hle hne := search_stable hle hne
  left := hleft

end Search

/-- A turn goes on with the invariant and a smaller measure or leaves with the result. -/
def Advances (I : σ → Prop) (measure : σ → Nat) (T : τ → Prop) (s : σ) : σ ⊕ τ → Prop
  | .inl t => I t ∧ measure t < measure s
  | .inr t => T t

/-- A loop that is given more turns than the measure. -/
theorem settles_loop {body : σ → Retrying (σ ⊕ τ)} {I : σ → Prop} {measure : σ → Nat} {T : τ → Prop}
    (hbody : ∀ s, I s → Settles H (body s) (Advances I measure T s)) (turns : Nat) {s : σ}
    (hs : I s) (hturns : measure s < turns) : Settles H (loop body turns s) T := by
  induction turns generalizing s with
  | zero => exact absurd hturns (Nat.not_lt_zero _)
  | succ turns ih =>
    rw [loop]
    refine (hbody s hs).bind fun r hr => ?_
    cases r with
    | inl t => exact ih hr.1 (Nat.lt_of_lt_of_le hr.2 (Nat.le_of_lt_succ hturns))
    | inr t => exact settles_pure hr

/-- Where the loops are left, one result stands for all numbers of tries from some on. -/
theorem Settles.result (h : Settles H x Q) (hleft : H) : ∃ a, Q a ∧ ∃ n, ∀ m, n ≤ m → x m = .ok a := by
  obtain ⟨n, hn⟩ := h.left hleft
  obtain ⟨a, ha, hx⟩ := h.ok hn
  exact ⟨a, ha, n, hx⟩

end Rules

end Retrying

end VeloxHash
