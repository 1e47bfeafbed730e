import Mathlib.Data.Setoid.Basic
import Mathlib.Tactic
import VeloxHash.TransitionSystem

/-! Two threads that work through lists of actions on one state, phase after phase: the helper
gets its list when a phase begins, and the next phase waits for both lists to be empty.
A thread is confined when its actions read what the thread owns and leave the part of the other
alone. Whatever the schedule, each thread then does to its own part what it does alone. -/

namespace VeloxHash.ForkJoin

open TransitionSystem

structure Phase (α : Type*) where
  main : List α
  helper : List α

structure Config (α σ : Type*) where
  main : List α
  helper : List α
  rest : List (Phase α)
  state : σ

/-- Who moves next; `join` begins the next phase. -/
inductive Turn
  | main
  | helper
  | join
  deriving DecidableEq, Repr

variable {α σ : Type*} (act : α → σ → σ)

def step (c : Config α σ) : Turn → Option (Config α σ)
  | .main =>
    match c.main with
    | [] => none
    | a :: main => some { c with main := main, state := act a c.state }
  | .helper =>
    match c.helper with
    | [] => none
    | b :: helper => some { c with helper := helper, state := act b c.state }
  | .join =>
    match c.main, c.helper, c.rest with
    | [], [], p :: rest => some ⟨p.main, p.helper, rest, c.state⟩
    | _, _, _ => none

def start (phases : List (Phase α)) (s : σ) : Config α σ := ⟨[], [], phases, s⟩

def Config.Done (c : Config α σ) : Prop := c.main = [] ∧ c.helper = [] ∧ c.rest = []

/-- One thread alone. -/
def run (actions : List α) (s : σ) : σ := actions.foldl (fun s a => act a s) s

variable {act} {c c' : Config α σ} {turn : Turn}

theorem step_cases (h : step act c turn = some c') :
    (∃ a main, turn = .main ∧ c.main = a :: main ∧
      c' = { c with main := main, state := act a c.state }) ∨
    (∃ b helper, turn = .helper ∧ c.helper = b :: helper ∧
      c' = { c with helper := helper, state := act b c.state }) ∨
    (∃ p rest, turn = .join ∧ c.main = [] ∧ c.helper = [] ∧ c.rest = p :: rest ∧
      c' = ⟨p.main, p.helper, rest, c.state⟩) := by
  obtain ⟨main, helper, rest, s⟩ := c
  cases turn with
  | main =>
    cases main with
    | nil => cases h
    | cons a main => exact .inl ⟨a, main, rfl, rfl, (Option.some.inj h).symm⟩
  | helper =>
    cases helper with
    | nil => cases h
    | cons b helper => exact .inr (.inl ⟨b, helper, rfl, rfl, (Option.some.inj h).symm⟩)
  | join =>
    cases main with
    | cons a main => cases h
    | nil =>
      cases helper with
      | cons b helper => cases h
      | nil =>
        cases rest with
        | nil => cases h
        | cons p rest => exact .inr (.inr ⟨p, rest, rfl, rfl, rfl, rfl, (Option.some.inj h).symm⟩)

/-! ### Every schedule ends -/

/-- What is left to do, the joins included. -/
def Config.size (c : Config α σ) : Nat :=
  c.main.length + c.helper.length +
    (c.rest.map fun p => p.main.length + p.helper.length + 1).sum

theorem step_size (h : step act c turn = some c') : c'.size + 1 = c.size := by
  rcases step_cases h with ⟨a, main, -, hmain, rfl⟩ | ⟨b, helper, -, hhelper, rfl⟩ |
    ⟨p, rest, -, hmain, hhelper, hrest, rfl⟩
  · simp only [Config.size, hmain, List.length_cons]
    omega
  · simp only [Config.size, hhelper, List.length_cons]
    omega
  · simp only [Config.size, hmain, hhelper, hrest, List.length_nil, List.map_cons, List.sum_cons]
    omega

theorem exec_size {turns : List Turn} (h : exec (step act) c turns = some c') :
    c'.size + turns.length = c.size := by
  induction turns generalizing c with
  | nil =>
    obtain rfl : c = c' := Option.some.inj h
    rfl
  | cons turn turns ih =>
    obtain ⟨d, hstep, hrest⟩ := Option.bind_eq_some_iff.mp h
    have hsize := step_size hstep
    have hih := ih hrest
    rw [List.length_cons]
    omega

/-- Nothing blocks: some thread can move until all is done. -/
theorem step_enabled (act : α → σ → σ) (h : ¬c.Done) : ∃ turn c', step act c turn = some c' := by
  obtain ⟨main, helper, rest, s⟩ := c
  cases main with
  | cons a main => exact ⟨.main, _, rfl⟩
  | nil =>
    cases helper with
    | cons b helper => exact ⟨.helper, _, rfl⟩
    | nil =>
      cases rest with
      | nil => exact absurd ⟨rfl, rfl, rfl⟩ h
      | cons p rest => exact ⟨.join, _, rfl⟩

theorem exec_ends (act : α → σ → σ) (c : Config α σ) :
    ∃ turns c', exec (step act) c turns = some c' ∧ c'.Done := by
  induction hsize : c.size generalizing c with
  | zero =>
    by_cases hdone : c.Done
    · exact ⟨[], c, rfl, hdone⟩
    · obtain ⟨turn, c', hstep⟩ := step_enabled act hdone
      have := step_size hstep
      omega
  | succ n ih =>
    by_cases hdone : c.Done
    · exact ⟨[], c, rfl, hdone⟩
    · obtain ⟨turn, d, hstep⟩ := step_enabled act hdone
      obtain ⟨turns, c', hrest, hend⟩ := ih d (by have := step_size hstep; omega)
      exact ⟨turn :: turns, c', by rw [exec, hstep, Option.bind_some, hrest], hend⟩

/-! ### Confined threads -/

variable (act) in
/-- In whatever state the other thread leaves its own part, each action meets the guard, has on
`own` the effect it has when the thread runs alone, and does not change `other`. -/
def Confined (own other : Setoid σ) (Guard : α → σ → Prop) : List α → σ → Prop
  | [], _ => True
  | a :: actions, s =>
    (∀ t, own.r s t → Guard a t ∧ own.r (act a s) (act a t) ∧ other.r t (act a t)) ∧
      Confined own other Guard actions (act a s)

/-- Who owns what during a phase, and what the guards of the two threads are. -/
structure Split (α σ : Type*) where
  main : Setoid σ
  helper : Setoid σ
  mainGuard : α → σ → Prop
  helperGuard : α → σ → Prop

/-- The guards of the two threads make what they do next safe to do at once. -/
def Split.Covers (d : Split α σ) (Safe : Option α → Option α → σ → Prop) : Prop :=
  ∀ (a b : Option α) (s : σ), (∀ x ∈ a, d.mainGuard x s) → (∀ y ∈ b, d.helperGuard y s) → Safe a b s

variable (act) in
/-- Every phase has a split, and from what the two threads do alone the next phase follows. -/
def Correct (Safe : Option α → Option α → σ → Prop) (Q : σ → Prop) : List (Phase α) → σ → Prop
  | [], s => Q s
  | p :: rest, s => ∃ d : Split α σ, d.Covers Safe ∧
      Confined act d.main d.helper d.mainGuard p.main s ∧
      Confined act d.helper d.main d.helperGuard p.helper s ∧
      ∀ t, d.main.r (run act p.main s) t → d.helper.r (run act p.helper s) t →
        Correct Safe Q rest t

variable {own other : Setoid σ} {Guard : α → σ → Prop} {Safe : Option α → Option α → σ → Prop}
  {Q : σ → Prop} {xs ys : List α} {s t : σ}

@[simp] theorem run_nil (s : σ) : run act [] s = s := rfl

@[simp] theorem run_cons (a : α) (xs : List α) (s : σ) :
    run act (a :: xs) s = run act xs (act a s) := rfl

theorem run_append (xs ys : List α) (s : σ) :
    run act (xs ++ ys) s = run act ys (run act xs s) := List.foldl_append

theorem run_flatMap {β : Type*} (f : β → List α) (bs : List β) (s : σ) :
    run act (bs.flatMap f) s = bs.foldl (fun s b => run act (f b) s) s := by
  induction bs generalizing s with
  | nil => rfl
  | cons b bs ih => rw [List.flatMap_cons, run_append, ih, List.foldl_cons]

theorem run_map {β : Type*} (f : β → α) (bs : List β) (s : σ) :
    run act (bs.map f) s = bs.foldl (fun s b => act (f b) s) s := List.foldl_map

theorem Confined.append (h : Confined act own other Guard xs s)
    (h' : Confined act own other Guard ys (run act xs s)) :
    Confined act own other Guard (xs ++ ys) s := by
  induction xs generalizing s with
  | nil => exact h'
  | cons a xs ih => exact ⟨h.1, ih h.2 h'⟩

/-- Actions that keep an invariant under which each of them is confined. -/
theorem Confined.of_invariant {I : σ → Prop} (hs : I s)
    (hstep : ∀ a ∈ xs, ∀ s, I s → I (act a s) ∧
      ∀ t, own.r s t → Guard a t ∧ own.r (act a s) (act a t) ∧ other.r t (act a t)) :
    Confined act own other Guard xs s := by
  induction xs generalizing s with
  | nil => trivial
  | cons a xs ih =>
    obtain ⟨hI, hconfined⟩ := hstep a List.mem_cons_self s hs
    exact ⟨hconfined, ih hI fun b hb => hstep b (List.mem_cons_of_mem a hb)⟩

/-! ### The invariant of all schedules -/

variable (act Safe Q) in
/-- Each thread is where its own run has brought it, as far as it can see. -/
def Inv (c : Config α σ) : Prop :=
  ∃ (d : Split α σ) (s t : σ), d.Covers Safe ∧ d.main.r s c.state ∧ d.helper.r t c.state ∧
    Confined act d.main d.helper d.mainGuard c.main s ∧
    Confined act d.helper d.main d.helperGuard c.helper t ∧
    ∀ u, d.main.r (run act c.main s) u → d.helper.r (run act c.helper t) u →
      Correct act Safe Q c.rest u

theorem step_inv (hinv : Inv act Safe Q c) (h : step act c turn = some c') : Inv act Safe Q c' := by
  obtain ⟨d, s, t, hcovers, hs, ht, hmain, hhelper, hnext⟩ := hinv
  rcases step_cases h with ⟨a, main, -, hc, rfl⟩ | ⟨b, helper, -, hc, rfl⟩ |
    ⟨p, rest, -, hcm, hch, hcr, rfl⟩
  · rw [hc] at hmain hnext
    obtain ⟨-, hown, hother⟩ := hmain.1 c.state hs
    exact ⟨d, act a s, t, hcovers, hown, d.helper.trans ht hother, hmain.2, hhelper, hnext⟩
  · rw [hc] at hhelper hnext
    obtain ⟨-, hown, hother⟩ := hhelper.1 c.state ht
    exact ⟨d, s, act b t, hcovers, d.main.trans hs hother, hown, hmain, hhelper.2, hnext⟩
  · rw [hcm, hch, hcr] at hnext
    obtain ⟨d', hcovers', hmain', hhelper', hnext'⟩ := hnext c.state hs ht
    exact ⟨d', c.state, c.state, hcovers', d'.main.refl _, d'.helper.refl _, hmain', hhelper',
      hnext'⟩

theorem exec_inv {turns : List Turn} (hinv : Inv act Safe Q c)
    (h : exec (step act) c turns = some c') : Inv act Safe Q c' := by
  induction turns generalizing c with
  | nil => exact Option.some.inj h ▸ hinv
  | cons turn turns ih =>
    obtain ⟨d, hstep, hrest⟩ := Option.bind_eq_some_iff.mp h
    exact ih (step_inv hinv hstep) hrest

theorem Inv.safe (hinv : Inv act Safe Q c) : Safe c.main.head? c.helper.head? c.state := by
  obtain ⟨d, s, t, hcovers, hs, ht, hmain, hhelper, -⟩ := hinv
  apply hcovers
  · intro a ha
    obtain ⟨rest, hc⟩ := List.head?_eq_some_iff.mp ha
    rw [hc] at hmain
    exact (hmain.1 c.state hs).1
  · intro b hb
    obtain ⟨rest, hc⟩ := List.head?_eq_some_iff.mp hb
    rw [hc] at hhelper
    exact (hhelper.1 c.state ht).1

theorem Inv.post (hinv : Inv act Safe Q c) (hdone : c.Done) : Q c.state := by
  obtain ⟨d, s, t, -, hs, ht, -, -, hnext⟩ := hinv
  obtain ⟨hmain, hhelper, hrest⟩ := hdone
  rw [hmain, hhelper, hrest] at hnext
  exact hnext c.state hs ht

theorem inv_start (hsafe : ∀ s, Safe none none s) {phases : List (Phase α)}
    (h : Correct act Safe Q phases s) : Inv act Safe Q (start phases s) := by
  refine ⟨⟨⊥, ⊥, fun _ _ => False, fun _ _ => False⟩, s, s, ?_, rfl, rfl, trivial, trivial, ?_⟩
  · rintro (_ | a) (_ | b) s ha hb
    · exact hsafe s
    · exact (hb b rfl).elim
    · exact (ha a rfl).elim
    · exact (ha a rfl).elim
  · intro u hu _
    obtain rfl : s = u := hu
    exact h

/-- What holds of correct phases under every schedule. -/
theorem correct_sound (hsafe : ∀ s, Safe none none s) {phases : List (Phase α)}
    (h : Correct act Safe Q phases s) {turns : List Turn}
    (hexec : exec (step act) (start phases s) turns = some c) :
    Safe c.main.head? c.helper.head? c.state ∧ (c.Done → Q c.state) := by
  have hinv := exec_inv (inv_start hsafe h) hexec
  exact ⟨hinv.safe, hinv.post⟩

/-! ### Steps that each change the views of their own -/

/-- Where step `q` changes just the views that belong to `q`, a loop changes each view once. -/
theorem foldl_views {β : Type*} {V : Nat → σ → β} {g : Nat → β → β} {M : Nat → Prop}
    {I : σ → Prop} {F : Nat → σ → σ} (owner : Nat → Nat) (n : Nat)
    (hI : ∀ q < n, ∀ s, I s → I (F q s))
    (hV : ∀ q < n, ∀ s, I s → ∀ m, M m → V m (F q s) = if owner m = q then g m (V m s) else V m s)
    (hs : I s) :
    I ((List.range n).foldl (fun s q => F q s) s) ∧
      ∀ m, M m → V m ((List.range n).foldl (fun s q => F q s) s) =
        if owner m < n then g m (V m s) else V m s := by
  induction n with
  | zero => exact ⟨hs, fun m _ => (if_neg (Nat.not_lt_zero _)).symm⟩
  | succ n ih =>
    obtain ⟨hIn, hVn⟩ := ih (fun q hq => hI q (by omega)) (fun q hq => hV q (by omega))
    rw [List.range_succ, List.foldl_append, List.foldl_cons, List.foldl_nil]
    refine ⟨hI n (by omega) _ hIn, fun m hm => ?_⟩
    rw [hV n (by omega) _ hIn m hm, hVn m hm]
    by_cases hlast : owner m = n
    · rw [if_pos hlast, if_neg (by omega), if_pos (by omega)]
    · rw [if_neg hlast]
      by_cases hlt : owner m < n
      · rw [if_pos hlt, if_pos (by omega)]
      · rw [if_neg hlt, if_neg (by omega)]

end VeloxHash.ForkJoin
