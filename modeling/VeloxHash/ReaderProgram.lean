import VeloxHash.Splice

/-! Programs that read a byte string through readers with an index in 64 bits. A program is
a tree of the accesses it makes; running it checks each of them, and a run may refuse a
length before it is added to an index. -/

namespace VeloxHash.ReaderProgram

open Splice

/-- Why a program stops by itself. -/
inductive Stop
  | rejected
  | outOfRange
  | unfinished
  deriving DecidableEq, Repr

/-- A reader of `size` bytes at `base` is moved on by `length`. A jump that wraps and lands
below `floor` ends a round of a loop no further than where the round began. -/
structure Jump where
  base : Nat
  size : Nat
  index : Nat
  length : UInt64
  floor : Nat
  index_le : index ≤ size
  size_lt : size < 2 ^ 64
  deriving DecidableEq

namespace Jump

def target (j : Jump) : Nat := j.index + j.length.toNat

/-- The new index. -/
def landing (j : Jump) : Nat := j.target % 2 ^ 64

def wraps (j : Jump) : Bool := 2 ^ 64 ≤ j.target

/-- The jump ends a round of a loop that gets nowhere. -/
def stalls (j : Jump) : Bool := j.wraps && j.landing < j.floor

variable {j : Jump}

theorem landing_of_not_wraps (h : j.wraps = false) : j.landing = j.target :=
  Nat.mod_eq_of_lt (by simpa [wraps] using h)

theorem landing_of_wraps (h : j.wraps = true) : j.landing + 2 ^ 64 = j.target := by
  have hindex := j.index_le.trans_lt j.size_lt
  have hlength := j.length.toNat_lt
  have hfar : 2 ^ 64 ≤ j.index + j.length.toNat := of_decide_eq_true h
  simp only [target, landing]
  omega

/-- A bounds check does not notice that the index wraps. -/
theorem landing_le_of_wraps (h : j.wraps = true) : j.landing ≤ j.size := by
  have hland := landing_of_wraps h
  have hlength := j.length.toNat_lt
  have hindex := j.index_le
  simp only [target] at hland
  omega

end Jump

/-- Accesses to the memory, moves of a reader, accesses to other memory that are inside or
not, allocations, and events to note. -/
inductive Prog (ω α : Type) : Type
  | pure (a : α)
  | stop (reason : Stop)
  | load (position count : Nat) (next : List UInt8 → Prog ω α)
  | jump (j : Jump) (next : (e : Nat) → e ≤ j.size → Prog ω α)
  | require (inside : Bool) (next : Prog ω α)
  | alloc (count : Nat) (next : Prog ω α)
  | tell (event : ω) (next : Prog ω α)

namespace Prog

variable {ω α β : Type}

def bind (p : Prog ω α) (f : α → Prog ω β) : Prog ω β :=
  match p with
  | pure a => f a
  | stop reason => stop reason
  | load position count next => load position count fun bytes => (next bytes).bind f
  | jump j next => jump j fun e h => (next e h).bind f
  | require inside next => require inside (next.bind f)
  | alloc count next => alloc count (next.bind f)
  | tell event next => tell event (next.bind f)

instance : Monad (Prog ω) where
  pure := Prog.pure
  bind := Prog.bind

end Prog

theorem Prog.bind_assoc {ω α β γ : Type} (p : Prog ω α) (f : α → Prog ω β) (g : β → Prog ω γ) :
    p >>= f >>= g = p >>= fun a => f a >>= g := by
  change (p.bind f).bind g = p.bind fun a => (f a).bind g
  induction p with
  | pure a => rfl
  | stop reason => rfl
  | load position count next ih => exact congrArg _ (funext ih)
  | jump j next ih => exact congrArg _ (funext fun e => funext fun h => ih e h)
  | require inside next ih => exact congrArg _ ih
  | alloc count next ih => exact congrArg _ ih
  | tell event next ih => exact congrArg _ ih

inductive Outcome (α : Type)
  | ok (a : α)
  | stopped (reason : Stop)
  | badAlloc
  | fault
  | refused
  deriving DecidableEq

/-- What a program is run in; `guards` refuses an access that is not inside. -/
structure Env where
  memory : List UInt8
  allocates : Nat → Bool
  refuses : Jump → Bool
  guards : Bool

/-- The arithmetic of the machine refuses nothing. -/
def machine (memory : List UInt8) (allocates : Nat → Bool) : Env :=
  ⟨memory, allocates, fun _ => false, false⟩

/-- Unbounded arithmetic: no length that would wrap around is added. -/
def unbounded (memory : List UInt8) (allocates : Nat → Bool) : Env :=
  ⟨memory, allocates, Jump.wraps, true⟩

/-- No length is added that would end a round of a loop where it began. -/
def climbing (memory : List UInt8) (allocates : Nat → Bool) : Env :=
  ⟨memory, allocates, Jump.stalls, false⟩

/-- The outcome, the checks that were passed, and the events. -/
structure Run (ω α : Type) where
  outcome : Outcome α
  checks : List Jump := []
  events : List ω := []

namespace Run

variable {ω α β : Type}

def pass (r : Run ω α) (j : Jump) : Run ω α := { r with checks := j :: r.checks }

def note (r : Run ω α) (event : ω) : Run ω α := { r with events := event :: r.events }

def bind (r : Run ω α) (f : α → Run ω β) : Run ω β :=
  match r.outcome with
  | .ok a => ⟨(f a).outcome, r.checks ++ (f a).checks, r.events ++ (f a).events⟩
  | .stopped reason => ⟨.stopped reason, r.checks, r.events⟩
  | .badAlloc => ⟨.badAlloc, r.checks, r.events⟩
  | .fault => ⟨.fault, r.checks, r.events⟩
  | .refused => ⟨.refused, r.checks, r.events⟩

end Run

section Semantics

variable {ω α β : Type}

def Prog.run (env : Env) : Prog ω α → Run ω α
  | .pure a => ⟨.ok a, [], []⟩
  | .stop reason => ⟨.stopped reason, [], []⟩
  | .load position count next =>
    if position + count ≤ env.memory.length then (next (slice env.memory position count)).run env
    else ⟨.fault, [], []⟩
  | .jump j next =>
    if env.refuses j then ⟨.refused, [], []⟩
    else if h : j.landing ≤ j.size then ((next j.landing h).run env).pass j
    else ⟨.stopped .outOfRange, [], []⟩
  | .require inside next =>
    if inside then next.run env else if env.guards then ⟨.refused, [], []⟩ else ⟨.fault, [], []⟩
  | .alloc count next => if env.allocates count then next.run env else ⟨.badAlloc, [], []⟩
  | .tell event next => (next.run env).note event

variable {env : Env} {p : Prog ω α} {f : α → Prog ω β}

@[simp] theorem Run.bind_pass (r : Run ω α) (j : Jump) (f : α → Run ω β) :
    (r.pass j).bind f = (r.bind f).pass j := by
  unfold Run.bind Run.pass
  dsimp only
  cases r.outcome <;> rfl

@[simp] theorem Run.bind_note (r : Run ω α) (event : ω) (f : α → Run ω β) :
    (r.note event).bind f = (r.bind f).note event := by
  unfold Run.bind Run.note
  dsimp only
  cases r.outcome <;> rfl

@[simp] theorem run_pure (env : Env) (a : α) : (pure a : Prog ω α).run env = ⟨.ok a, [], []⟩ := rfl

@[simp] theorem run_bind (env : Env) (p : Prog ω α) (f : α → Prog ω β) :
    (p >>= f).run env = (p.run env).bind fun a => (f a).run env := by
  change (p.bind f).run env = _
  induction p with
  | pure a => rfl
  | stop reason => rfl
  | load position count next ih =>
    rw [Prog.bind, Prog.run, Prog.run]
    split
    · exact ih _
    · rfl
  | jump j next ih =>
    rw [Prog.bind, Prog.run, Prog.run]
    split
    · rfl
    · split
      · rw [ih, Run.bind_pass]
      · rfl
  | require inside next ih =>
    rw [Prog.bind, Prog.run, Prog.run]
    split
    · exact ih
    · split <;> rfl
  | alloc count next ih =>
    rw [Prog.bind, Prog.run, Prog.run]
    split
    · exact ih
    · rfl
  | tell event next ih => rw [Prog.bind, Prog.run, Prog.run, ih, Run.bind_note]

/-- A run that refuses nothing is the machine's. -/
theorem run_of_not_refused (p : Prog ω α) (h : (p.run env).outcome ≠ .refused) :
    p.run env = p.run (machine env.memory env.allocates) := by
  induction p with
  | pure a => rfl
  | stop reason => rfl
  | load position count next ih =>
    rw [Prog.run] at h ⊢
    rw [Prog.run]
    change _ = if position + count ≤ env.memory.length then _ else _
    split
    case isTrue hin =>
      rw [if_pos hin] at h
      exact ih _ h
    case isFalse => rfl
  | jump j next ih =>
    rw [Prog.run] at h ⊢
    rw [Prog.run]
    cases hrefuses : env.refuses j with
    | true =>
      rw [hrefuses, if_pos rfl] at h
      exact absurd rfl h
    | false =>
      rw [hrefuses, if_neg Bool.false_ne_true] at h
      rw [if_neg Bool.false_ne_true, if_neg (show ¬ (machine _ _).refuses j = true by simp [machine])]
      split
      case isTrue hin =>
        rw [dif_pos hin] at h
        rw [ih _ _ h]
      case isFalse => rfl
  | require inside next ih =>
    rw [Prog.run] at h ⊢
    rw [Prog.run]
    cases inside with
    | true => exact ih h
    | false =>
      cases hguards : env.guards with
      | true =>
        rw [hguards] at h
        exact absurd rfl h
      | false => rfl
  | alloc count next ih =>
    rw [Prog.run] at h ⊢
    rw [Prog.run]
    change _ = if env.allocates count then _ else _
    split
    case isTrue hin =>
      rw [if_pos hin] at h
      exact ih h
    case isFalse => rfl
  | tell event next ih =>
    rw [Prog.run] at h ⊢
    rw [Prog.run, ih h]

/-- What holds of the result and of the events if the program succeeds. -/
def Ends (env : Env) (p : Prog ω α) (Q : α → List ω → Prop) : Prop :=
  ∀ a, (p.run env).outcome = .ok a → Q a (p.run env).events

section Ends

variable {Q Q' : α → List ω → Prop} {R : β → List ω → Prop}

theorem Ends.mono (h : Ends env p Q) (hQ : ∀ a events, Q a events → Q' a events) :
    Ends env p Q' := fun a ha => hQ a _ (h a ha)

theorem ends_pure {a : α} (h : Q a []) : Ends env (pure a : Prog ω α) Q :=
  fun _ ha => Outcome.ok.inj ha ▸ h

theorem ends_halted {outcome : Outcome α} (hrun : p.run env = ⟨outcome, [], []⟩)
    (h : ∀ a, outcome ≠ .ok a) : Ends env p Q := by
  intro a ha
  rw [hrun] at ha
  exact absurd ha (h a)

theorem ends_tell {event : ω} {next : Prog ω α}
    (h : Ends env next fun a events => Q a (event :: events)) : Ends env (.tell event next) Q :=
  h

theorem Ends.bind (hp : Ends env p Q)
    (hf : ∀ a events, Q a events → Ends env (f a) fun b later => R b (events ++ later)) :
    Ends env (p >>= f) R := by
  unfold Ends at hp hf ⊢
  rw [run_bind]
  generalize p.run env = r at hp
  obtain ⟨outcome, checks, events⟩ := r
  cases outcome with
  | ok a => exact hf a events (hp a rfl)
  | _ => exact fun _ h => nomatch h

/-- The program comes to its end. -/
def Succeeds (env : Env) (p : Prog ω α) : Prop := ∃ a, (p.run env).outcome = .ok a

theorem succeeds_pure (a : α) : Succeeds env (pure a : Prog ω α) := ⟨a, rfl⟩

theorem Succeeds.tell {event : ω} {next : Prog ω α} (h : Succeeds env next) :
    Succeeds env (.tell event next) := h

theorem Succeeds.bind (hp : Succeeds env p) (hends : Ends env p Q)
    (hf : ∀ a events, Q a events → Succeeds env (f a)) : Succeeds env (p >>= f) := by
  obtain ⟨a, ha⟩ := hp
  obtain ⟨b, hb⟩ := hf a _ (hends a ha)
  refine ⟨b, ?_⟩
  rw [run_bind, Run.bind, ha]
  exact hb

end Ends

/-- What unbounded arithmetic refuses, the machine does not notice. -/
theorem refused_unbounded {memory : List UInt8} {allocates : Nat → Bool} (p : Prog ω α)
    (h : (p.run (unbounded memory allocates)).outcome = .refused) :
    (p.run (machine memory allocates)).outcome = .fault ∨
      ∃ j ∈ (p.run (machine memory allocates)).checks, j.wraps = true := by
  induction p with
  | pure a => exact nomatch (show Outcome.ok a = .refused from h)
  | stop reason => exact nomatch (show (.stopped reason : Outcome α) = .refused from h)
  | load position count next ih =>
    rw [Prog.run] at h ⊢
    change (if position + count ≤ memory.length then _ else _ : Run ω α).outcome = _ at h
    change (if position + count ≤ memory.length then _ else _ : Run ω α).outcome = _ ∨
      ∃ j ∈ (if position + count ≤ memory.length then _ else _ : Run ω α).checks, _
    split
    case isTrue hin =>
      rw [if_pos hin] at h
      exact ih _ h
    case isFalse => exact .inl rfl
  | jump j next ih =>
    rw [Prog.run] at h ⊢
    rw [if_neg (show ¬ (machine _ _).refuses j = true by simp [machine])]
    cases hwraps : j.wraps with
    | true =>
      rw [dif_pos (Jump.landing_le_of_wraps hwraps)]
      exact .inr ⟨j, List.mem_cons_self, hwraps⟩
    | false =>
      rw [show (unbounded memory allocates).refuses j = false from hwraps,
        if_neg Bool.false_ne_true] at h
      split at h
      case isTrue hin =>
        rw [dif_pos hin]
        rcases ih _ _ h with hfault | ⟨j', hj', hwraps'⟩
        · exact .inl hfault
        · exact .inr ⟨j', List.mem_cons_of_mem _ hj', hwraps'⟩
      case isFalse => exact nomatch h
  | require inside next ih =>
    rw [Prog.run] at h ⊢
    cases inside with
    | true => exact ih h
    | false => exact .inl rfl
  | alloc count next ih =>
    rw [Prog.run] at h ⊢
    change (if allocates count then _ else _ : Run ω α).outcome = _ at h
    change (if allocates count then _ else _ : Run ω α).outcome = _ ∨
      ∃ j ∈ (if allocates count then _ else _ : Run ω α).checks, _
    split
    case isTrue hin =>
      rw [if_pos hin] at h
      exact ih h
    case isFalse hout =>
      rw [if_neg hout] at h
      exact nomatch h
  | tell event next ih => exact ih h

end Semantics

section Rules

variable {ω α β : Type} {memory : List UInt8} {allocates : Nat → Bool} {P : ω → Prop}
  {p : Prog ω α} {f : α → Prog ω β} {Q : α → Prop} {R : β → Prop}

/-- A run that keeps to the memory, whose events have `P` and whose result has `Q`. -/
structure Run.Keeps (memory : List UInt8) (P : ω → Prop) (Q : α → Prop) (r : Run ω α) : Prop where
  noFault : r.outcome ≠ .fault
  checks : ∀ j ∈ r.checks, j.target ≤ j.size ∧ j.base + j.target ≤ memory.length
  events : ∀ e ∈ r.events, P e
  post : ∀ a, r.outcome = .ok a → Q a

theorem Run.keeps_halted {outcome : Outcome α} (hfault : outcome ≠ .fault)
    (hok : ∀ a, outcome ≠ .ok a) : Run.Keeps memory P Q ⟨outcome, [], []⟩ where
  noFault := hfault
  checks _ hj := absurd hj List.not_mem_nil
  events _ he := absurd he List.not_mem_nil
  post a ha := absurd ha (hok a)

/-- Unbounded arithmetic keeps the program to the memory. -/
def Safe (memory : List UInt8) (allocates : Nat → Bool) (P : ω → Prop) (p : Prog ω α)
    (Q : α → Prop) : Prop := (p.run (unbounded memory allocates)).Keeps memory P Q

theorem Safe.pure {a : α} (h : Q a) : Safe memory allocates P (pure a) Q where
  noFault := nofun
  checks _ hj := absurd hj List.not_mem_nil
  events _ he := absurd he List.not_mem_nil
  post _ ha := Outcome.ok.inj ha ▸ h

theorem Safe.stop (reason : Stop) : Safe memory allocates P (.stop reason) Q :=
  Run.keeps_halted nofun nofun

theorem Safe.mono {S : α → Prop} (h : Safe memory allocates P p Q) (hQ : ∀ a, Q a → S a) :
    Safe memory allocates P p S :=
  ⟨h.noFault, h.checks, h.events, fun a ha => hQ a (h.post a ha)⟩

theorem Safe.bind (hp : Safe memory allocates P p Q)
    (hf : ∀ a, Q a → Safe memory allocates P (f a) R) : Safe memory allocates P (p >>= f) R := by
  unfold Safe at hp hf ⊢
  rw [run_bind]
  generalize p.run (unbounded memory allocates) = r at hp
  obtain ⟨outcome, checks, events⟩ := r
  cases outcome with
  | ok a =>
    have hnext := hf a (hp.post a rfl)
    exact ⟨hnext.noFault, fun j hj => (List.mem_append.mp hj).elim (hp.checks j) (hnext.checks j),
      fun e he => (List.mem_append.mp he).elim (hp.events e) (hnext.events e), hnext.post⟩
  | fault => exact absurd rfl hp.noFault
  | _ => exact ⟨nofun, hp.checks, hp.events, nofun⟩

theorem Safe.tell {event : ω} {next : Prog ω α} (hevent : P event)
    (h : Safe memory allocates P next Q) : Safe memory allocates P (.tell event next) Q :=
  ⟨h.noFault, h.checks, fun e he => (List.mem_cons.mp he).elim (fun heq => heq ▸ hevent)
    (h.events e), h.post⟩

theorem Safe.load {position count : Nat} {next : List UInt8 → Prog ω α}
    (hin : position + count ≤ memory.length) (h : ∀ bytes, Safe memory allocates P (next bytes) Q) :
    Safe memory allocates P (.load position count next) Q := by
  unfold Safe
  rw [Prog.run]
  exact (if_pos hin).symm ▸ h (slice memory position count)

theorem Safe.require {inside : Bool} {next : Prog ω α}
    (h : inside = true → Safe memory allocates P next Q) :
    Safe memory allocates P (.require inside next) Q := by
  unfold Safe
  rw [Prog.run]
  cases inside with
  | true => exact h rfl
  | false => exact Run.keeps_halted nofun nofun

theorem Safe.alloc {count : Nat} {next : Prog ω α} (h : Safe memory allocates P next Q) :
    Safe memory allocates P (.alloc count next) Q := by
  unfold Safe
  rw [Prog.run]
  split
  · exact h
  · exact Run.keeps_halted nofun nofun

theorem Safe.jump {j : Jump} {next : (e : Nat) → e ≤ j.size → Prog ω α}
    (hin : j.base + j.size ≤ memory.length)
    (h : ∀ e (he : e ≤ j.size), e = j.target → Safe memory allocates P (next e he) Q) :
    Safe memory allocates P (.jump j next) Q := by
  unfold Safe
  rw [Prog.run]
  split
  · exact Run.keeps_halted nofun nofun
  · rename_i hallowed
    have htarget := Jump.landing_of_not_wraps (Bool.of_not_eq_true hallowed)
    split
    · rename_i hle
      have hnext := h j.landing hle htarget
      refine ⟨hnext.noFault, fun k hk => ?_, hnext.events, hnext.post⟩
      rcases List.mem_cons.mp hk with rfl | hk
      · omega
      · exact hnext.checks k hk
    · exact Run.keeps_halted nofun nofun

/-- The run that must climb is refused exactly when the machine's has a `bad` event; the
machine does not stop for want of fuel if there is `enough` of it and there is no such event. -/
structure Run.Climbs (bad : ω → Prop) (enough : Prop) (Q : α → Prop) (climbing machine : Run ω α) :
    Prop where
  refused_iff : climbing.outcome = .refused ↔ ∃ e ∈ machine.events, bad e
  ends : enough → (∀ e ∈ machine.events, ¬ bad e) → machine.outcome ≠ .stopped .unfinished
  post : ∀ a, machine.outcome = .ok a → Q a

/-- Every round of the program's loops gets ahead, or is refused. -/
def Climbs (memory : List UInt8) (allocates : Nat → Bool) (bad : ω → Prop) (enough : Prop)
    (p : Prog ω α) (Q : α → Prop) : Prop :=
  Run.Climbs bad enough Q (p.run (climbing memory allocates)) (p.run (machine memory allocates))

variable {bad : ω → Prop} {enough : Prop}

theorem Run.climbs_halted {outcome : Outcome α} (hrefused : outcome ≠ .refused)
    (hends : enough → outcome ≠ .stopped .unfinished) (hok : ∀ a, outcome ≠ .ok a) :
    Run.Climbs bad enough Q ⟨outcome, [], []⟩ ⟨outcome, ([] : List Jump), ([] : List ω)⟩ where
  refused_iff := iff_of_false hrefused fun ⟨_, he, _⟩ => absurd he List.not_mem_nil
  ends henough _ := hends henough
  post a ha := absurd ha (hok a)

theorem Climbs.pure {a : α} (h : Q a) : Climbs memory allocates bad enough (pure a) Q where
  refused_iff := iff_of_false nofun fun ⟨_, he, _⟩ => absurd he List.not_mem_nil
  ends _ _ := nofun
  post _ ha := Outcome.ok.inj ha ▸ h

theorem Climbs.stop {reason : Stop} (h : enough → reason ≠ .unfinished) :
    Climbs memory allocates bad enough (.stop reason) Q :=
  Run.climbs_halted nofun (fun henough heq => h henough (Outcome.stopped.inj heq)) nofun

theorem Climbs.mono {enough' : Prop} {S : α → Prop} (h : Climbs memory allocates bad enough p Q)
    (henough : enough' → enough) (hQ : ∀ a, Q a → S a) :
    Climbs memory allocates bad enough' p S :=
  ⟨h.refused_iff, fun h' => h.ends (henough h'), fun a ha => hQ a (h.post a ha)⟩

theorem Climbs.bind (hp : Climbs memory allocates bad enough p Q)
    (hf : ∀ a, Q a → Climbs memory allocates bad enough (f a) R) :
    Climbs memory allocates bad enough (p >>= f) R := by
  unfold Climbs at hp hf ⊢
  rw [run_bind, run_bind]
  by_cases hrefused : (p.run (climbing memory allocates)).outcome = .refused
  · obtain ⟨e, he, hbad⟩ := hp.refused_iff.mp hrefused
    generalize p.run (climbing memory allocates) = c at hp hrefused
    generalize p.run (machine memory allocates) = r at hp he
    obtain ⟨outcome, checks, events⟩ := r
    have hstill : (c.bind fun a => (f a).run (climbing memory allocates)).outcome = .refused := by
      rw [Run.bind, hrefused]
    have hkept (g : α → Run ω β) : e ∈ ((⟨outcome, checks, events⟩ : Run ω α).bind g).events := by
      cases outcome with
      | ok a => exact List.mem_append_left _ he
      | _ => exact he
    refine ⟨iff_of_true hstill ⟨e, hkept _, hbad⟩, fun _ hnone => absurd hbad (hnone e (hkept _)),
      fun b hb => ?_⟩
    cases outcome with
    | ok a => exact (hf a (hp.post a rfl)).post b hb
    | _ => exact nomatch hb
  · have hsame : p.run (climbing memory allocates) = p.run (machine memory allocates) :=
      run_of_not_refused p hrefused
    rw [hsame] at hp hrefused ⊢
    generalize p.run (machine memory allocates) = r at hp hrefused
    have hclean : ¬ ∃ e ∈ r.events, bad e := fun h => hrefused (hp.refused_iff.mpr h)
    obtain ⟨outcome, checks, events⟩ := r
    cases outcome with
    | ok a =>
      have hnext := hf a (hp.post a rfl)
      refine ⟨hnext.refused_iff.trans ⟨?_, ?_⟩, fun henough hnone => hnext.ends henough fun e he =>
        hnone e (List.mem_append_right _ he), hnext.post⟩
      · exact fun ⟨e, he, hbad⟩ => ⟨e, List.mem_append_right _ he, hbad⟩
      · rintro ⟨e, he, hbad⟩
        rcases List.mem_append.mp he with he | he
        · exact absurd ⟨e, he, hbad⟩ hclean
        · exact ⟨e, he, hbad⟩
    | stopped reason =>
      exact ⟨iff_of_false nofun hclean, fun henough hnone heq =>
        hp.ends henough hnone (congrArg Outcome.stopped (Outcome.stopped.inj heq)), nofun⟩
    | refused => exact absurd rfl hrefused
    | _ => exact ⟨iff_of_false nofun hclean, fun _ _ => nofun, nofun⟩

theorem Climbs.tell {event : ω} {next : Prog ω α} (hevent : ¬ bad event)
    (h : Climbs memory allocates bad enough next Q) :
    Climbs memory allocates bad enough (.tell event next) Q where
  refused_iff := h.refused_iff.trans ⟨fun ⟨e, he, hbad⟩ => ⟨e, List.mem_cons_of_mem _ he, hbad⟩, by
    rintro ⟨e, he, hbad⟩
    rcases List.mem_cons.mp he with rfl | he
    · exact absurd hbad hevent
    · exact ⟨e, he, hbad⟩⟩
  ends henough hnone := h.ends henough fun e he => hnone e (List.mem_cons_of_mem _ he)
  post := h.post

theorem Climbs.load {position count : Nat} {next : List UInt8 → Prog ω α}
    (h : ∀ bytes, Climbs memory allocates bad enough (next bytes) Q) :
    Climbs memory allocates bad enough (.load position count next) Q := by
  unfold Climbs
  rw [Prog.run, Prog.run]
  change Run.Climbs bad enough Q (if position + count ≤ memory.length then _ else _)
    (if position + count ≤ memory.length then _ else _)
  split
  · exact h _
  · exact Run.climbs_halted nofun (fun _ => nofun) nofun

theorem Climbs.require {inside : Bool} {next : Prog ω α}
    (h : Climbs memory allocates bad enough next Q) :
    Climbs memory allocates bad enough (.require inside next) Q := by
  unfold Climbs
  rw [Prog.run, Prog.run]
  cases inside with
  | true => exact h
  | false => exact Run.climbs_halted nofun (fun _ => nofun) nofun

theorem Climbs.alloc {count : Nat} {next : Prog ω α}
    (h : Climbs memory allocates bad enough next Q) :
    Climbs memory allocates bad enough (.alloc count next) Q := by
  unfold Climbs
  rw [Prog.run, Prog.run]
  change Run.Climbs bad enough Q (if allocates count then _ else _)
    (if allocates count then _ else _)
  split
  · exact h
  · exact Run.climbs_halted nofun (fun _ => nofun) nofun

/-- A jump below its floor leads to a `bad` event. -/
theorem Climbs.jump {j : Jump} {next : (e : Nat) → e ≤ j.size → Prog ω α}
    (hfloor : j.floor ≤ j.index)
    (hfall : ∀ e (he : e ≤ j.size), e < j.floor →
      ∃ event ∈ ((next e he).run (machine memory allocates)).events, bad event)
    (hclimb : ∀ e (he : e ≤ j.size), j.floor ≤ e → (j.wraps = false → e = j.target) →
      Climbs memory allocates bad enough (next e he) Q)
    (hpost : ∀ e (he : e ≤ j.size), e < j.floor → ∀ a,
      ((next e he).run (machine memory allocates)).outcome = .ok a → Q a) :
    Climbs memory allocates bad enough (.jump j next) Q := by
  have hallowed : ¬ (machine memory allocates).refuses j = true := Bool.false_ne_true
  unfold Climbs
  rw [Prog.run, Prog.run, if_neg hallowed]
  by_cases hstalls : j.stalls = true
  · obtain ⟨hwraps, hbelow⟩ := Bool.and_eq_true_iff.mp hstalls
    have hbelow : j.landing < j.floor := of_decide_eq_true hbelow
    have hle := Jump.landing_le_of_wraps hwraps
    obtain ⟨event, hevent, hbad⟩ := hfall j.landing hle hbelow
    rw [if_pos (show (climbing memory allocates).refuses j = true from hstalls), dif_pos hle]
    exact ⟨iff_of_true rfl ⟨event, hevent, hbad⟩, fun _ hnone => absurd hbad (hnone event hevent),
      hpost j.landing hle hbelow⟩
  · rw [if_neg (show ¬ (climbing memory allocates).refuses j = true from hstalls)]
    split
    · rename_i hle
      have habove : j.floor ≤ j.landing := by
        cases hwraps : j.wraps with
        | true =>
          have hnot : ¬ j.landing < j.floor := fun h => hstalls (by simp [Jump.stalls, hwraps, h])
          omega
        | false =>
          rw [Jump.landing_of_not_wraps hwraps, Jump.target]
          omega
      have hnext := hclimb j.landing hle habove Jump.landing_of_not_wraps
      exact ⟨hnext.refused_iff, hnext.ends, hnext.post⟩
    · exact Run.climbs_halted nofun (fun _ => nofun) nofun

end Rules

end VeloxHash.ReaderProgram
