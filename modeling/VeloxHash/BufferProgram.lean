import VeloxHash.Splice

/-! Programs on one buffer of bytes that stop at an access outside of it. `Exactly` says at once
what a program needs to come to its end and what holds when it does. -/

namespace VeloxHash

namespace BufferProgram

inductive Fault
  /-- An access outside of the buffer. -/
  | outside
  /-- A loop has taken more turns than it is given. -/
  | unfinished
  deriving DecidableEq, Repr

end BufferProgram

def BufferProgram (α : Type) := List UInt8 → Except BufferProgram.Fault (α × List UInt8)

namespace BufferProgram

open Splice

variable {α β : Type}

protected def pure (a : α) : BufferProgram α := fun s => .ok (a, s)

protected def bind (x : BufferProgram α) (f : α → BufferProgram β) : BufferProgram β := fun s =>
  match x s with
  | .ok (a, t) => f a t
  | .error e => .error e

instance : Monad BufferProgram where
  pure := BufferProgram.pure
  bind := BufferProgram.bind

def fail (e : Fault) : BufferProgram α := fun _ => .error e

def read (p : Nat) : BufferProgram UInt8 := fun s =>
  if h : p < s.length then .ok (s[p], s) else .error .outside

def write (p : Nat) (b : UInt8) : BufferProgram Unit := fun s =>
  if p < s.length then .ok ((), s.set p b) else .error .outside

/-- The `n` bytes at `p`. -/
def load (p n : Nat) : BufferProgram (List UInt8) := fun s =>
  if p + n ≤ s.length then .ok (slice s p n, s) else .error .outside

def Succeeds (x : BufferProgram α) (s : List UInt8) : Prop := ∃ r, x s = .ok r

/-- From `s` the program ends exactly if `P`, and then with a result and a buffer in `R`. -/
structure Exactly (x : BufferProgram α) (s : List UInt8) (P : Prop)
    (R : α → List UInt8 → Prop) : Prop where
  ends : P → ∃ a t, x s = .ok (a, t) ∧ R a t
  needs : Succeeds x s → P

section Rules

variable {x y : BufferProgram α} {f : α → BufferProgram β} {s t : List UInt8} {P P' Q : Prop}
  {R R' : α → List UInt8 → Prop} {T : β → List UInt8 → Prop} {p n : Nat} {b : UInt8}

theorem Exactly.succeeds_iff (h : Exactly x s P R) : Succeeds x s ↔ P :=
  ⟨h.needs, fun hP => let ⟨a, t, hx, _⟩ := h.ends hP; ⟨(a, t), hx⟩⟩

theorem Exactly.bind (hx : Exactly x s P R) (hf : ∀ a t, R a t → Exactly (f a) t Q T) :
    Exactly (x >>= f) s (P ∧ Q) T := by
  change Exactly (BufferProgram.bind x f) s (P ∧ Q) T
  constructor
  · rintro ⟨hP, hQ⟩
    obtain ⟨a, t, hxs, hR⟩ := hx.ends hP
    unfold BufferProgram.bind
    rw [hxs]
    exact (hf a t hR).ends hQ
  · rintro ⟨r, hr⟩
    unfold BufferProgram.bind at hr
    cases hxs : x s with
    | error e =>
      rw [hxs] at hr
      exact nomatch hr
    | ok at' =>
      obtain ⟨a, t⟩ := at'
      have hP := hx.needs ⟨_, hxs⟩
      obtain ⟨a', t', hxs', hR⟩ := hx.ends hP
      obtain ⟨rfl, rfl⟩ := Prod.mk.inj (Except.ok.inj (hxs.symm.trans hxs'))
      rw [hxs] at hr
      exact ⟨hP, (hf a t hR).needs ⟨r, hr⟩⟩

theorem Exactly.imp (h : Exactly x s P R) (hP : P ↔ P') (hR : ∀ a t, R a t → R' a t) :
    Exactly x s P' R' where
  ends hP' := let ⟨a, t, hx, hr⟩ := h.ends (hP.mpr hP'); ⟨a, t, hx, hR a t hr⟩
  needs hx := hP.mp (h.needs hx)

theorem Exactly.mono (h : Exactly x s P R) (hR : ∀ a t, R a t → R' a t) : Exactly x s P R' :=
  h.imp Iff.rfl hR

/-- A step that always ends. -/
theorem Exactly.next (hx : Exactly x s True R) (hf : ∀ a t, R a t → Exactly (f a) t Q T) :
    Exactly (x >>= f) s Q T := (hx.bind hf).imp (Iff.of_eq (true_and Q)) fun _ _ => id

theorem exactly_pure {a : α} (h : R a s) : Exactly (pure a : BufferProgram α) s True R :=
  ⟨fun _ => ⟨a, s, rfl, h⟩, fun _ => trivial⟩

theorem exactly_return {a : α} (hP : P) (h : R a s) : Exactly (pure a : BufferProgram α) s P R :=
  ⟨fun _ => ⟨a, s, rfl, h⟩, fun _ => hP⟩

/-- A step behind which nothing is needed. -/
theorem Exactly.last (hx : Exactly x s P R) (hf : ∀ a t, R a t → Exactly (f a) t True T) :
    Exactly (x >>= f) s P T := (hx.bind hf).imp (Iff.of_eq (and_true P)) fun _ _ => id

theorem exactly_fail {e : Fault} : Exactly (fail e : BufferProgram α) s False R :=
  ⟨False.elim, fun ⟨_, h⟩ => nomatch h⟩

theorem exactly_ite {c : Prop} [Decidable c] (ht : c → Exactly x s P R)
    (he : ¬ c → Exactly y s P R) : Exactly (if c then x else y) s P R := by
  split
  · exact ht ‹c›
  · exact he ‹¬ c›

theorem exactly_read (h : p < s.length) :
    Exactly (read p) s True fun b t => b = s[p] ∧ t = s :=
  ⟨fun _ => ⟨s[p], s, dif_pos h, rfl, rfl⟩, fun _ => trivial⟩

/-- A read that may be outside. -/
theorem exactly_read_any (p : Nat) (s : List UInt8) :
    Exactly (read p) s (p < s.length) fun b t => s[p]? = some b ∧ t = s := by
  refine ⟨fun h => ⟨s[p], s, dif_pos h, List.getElem?_eq_getElem h, rfl⟩, fun ⟨r, hr⟩ => ?_⟩
  unfold read at hr
  split at hr
  · assumption
  · exact nomatch hr

theorem exactly_write (h : p < s.length) :
    Exactly (write p b) s True fun _ t => t = s.set p b :=
  ⟨fun _ => ⟨(), s.set p b, if_pos h, rfl⟩, fun _ => trivial⟩

theorem exactly_load (h : p + n ≤ s.length) :
    Exactly (load p n) s True fun bytes t => bytes = slice s p n ∧ t = s :=
  ⟨fun _ => ⟨slice s p n, s, if_pos h, rfl, rfl⟩, fun _ => trivial⟩

end Rules

end BufferProgram

end VeloxHash
