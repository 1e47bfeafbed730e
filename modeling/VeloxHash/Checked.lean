import Mathlib.Logic.Function.Basic
import Mathlib.Tactic.Common

/-! Programs that stop at an access outside of a table, and what they ensure: that no such access
is made, together with a condition on the result. -/

namespace VeloxHash.Checked

variable {α β : Type}

def Ensures (x : Option α) (Q : α → Prop) : Prop := ∃ a, x = some a ∧ Q a

section Rules

variable {x : Option α} {f : α → Option β} {P Q : α → Prop} {R : β → Prop}

@[simp] theorem ensures_some (a : α) (Q : α → Prop) : Ensures (some a) Q ↔ Q a :=
  ⟨fun ⟨_, h, hq⟩ => Option.some.inj h ▸ hq, fun hq => ⟨a, rfl, hq⟩⟩

@[simp] theorem ensures_pure (a : α) (Q : α → Prop) : Ensures (pure a) Q ↔ Q a := ensures_some a Q

@[simp] theorem ensures_bind (x : Option α) (f : α → Option β) (R : β → Prop) :
    Ensures (x >>= f) R ↔ Ensures x fun a => Ensures (f a) R := by
  cases x with
  | none => exact ⟨fun ⟨_, h, _⟩ => (nomatch h), fun ⟨_, h, _⟩ => (nomatch h)⟩
  | some a => rw [ensures_some]; rfl

theorem Ensures.mono (h : Ensures x P) (hPQ : ∀ a, P a → Q a) : Ensures x Q :=
  let ⟨a, hx, ha⟩ := h
  ⟨a, hx, hPQ a ha⟩

theorem Ensures.bind (h : Ensures x P) (hf : ∀ a, P a → Ensures (f a) R) : Ensures (x >>= f) R :=
  (ensures_bind x f R).mpr (h.mono hf)

theorem Ensures.of_eq_some (h : Ensures x Q) {a : α} (ha : x = some a) : Q a := by
  rw [ha] at h
  exact (ensures_some a Q).mp h

theorem ensures_ite {c : Prop} [Decidable c] {x y : Option α} (ht : c → Ensures x Q)
    (he : ¬c → Ensures y Q) : Ensures (if c then x else y) Q := by
  split
  · exact ht ‹c›
  · exact he ‹¬c›

theorem ensures_getElem? {l : List α} {i : Nat} (h : i < l.length) (hl : ∀ a ∈ l, Q a) :
    Ensures l[i]? Q := ⟨l[i], List.getElem?_eq_getElem h, hl _ (List.getElem_mem h)⟩

end Rules

/-- An array of `n` cells. -/
structure Table (n : Nat) (α : Type) where
  cell : Nat → α

namespace Table

variable {n i : Nat} {t : Table n α} {a : α}

def filled (n : Nat) (a : α) : Table n α := ⟨fun _ => a⟩

def ofList (l : List α) (a : α) : Table l.length α := ⟨fun i => l.getD i a⟩

def read (t : Table n α) (i : Nat) : Option α := if i < n then some (t.cell i) else none

def write (t : Table n α) (i : Nat) (a : α) : Option (Table n α) :=
  if i < n then some ⟨Function.update t.cell i a⟩ else none

@[simp] theorem ensures_read (t : Table n α) (i : Nat) (Q : α → Prop) :
    Ensures (t.read i) Q ↔ i < n ∧ Q (t.cell i) := by
  unfold read
  split
  · simp [*]
  · exact ⟨fun ⟨_, h, _⟩ => (nomatch h), fun h => absurd h.1 ‹_›⟩

@[simp] theorem ensures_write (t : Table n α) (i : Nat) (a : α) (Q : Table n α → Prop) :
    Ensures (t.write i a) Q ↔ i < n ∧ Q ⟨Function.update t.cell i a⟩ := by
  unfold write
  split
  · simp [*]
  · exact ⟨fun ⟨_, h, _⟩ => (nomatch h), fun h => absurd h.1 ‹_›⟩

end Table

/-- The room that is left in an array which is filled from its start. -/
def push (capacity : Nat) (l : List α) (a : α) : Option (List α) :=
  if l.length < capacity then some (l ++ [a]) else none

@[simp] theorem ensures_push (capacity : Nat) (l : List α) (a : α) (Q : List α → Prop) :
    Ensures (push capacity l a) Q ↔ l.length < capacity ∧ Q (l ++ [a]) := by
  unfold push
  split
  · simp [*]
  · exact ⟨fun ⟨_, h, _⟩ => (nomatch h), fun h => absurd h.1 ‹_›⟩

end VeloxHash.Checked
