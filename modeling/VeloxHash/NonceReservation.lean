import VeloxHash.FinNumerals
import VeloxHash.Nonce
import VeloxHash.TransitionSystem
import Mathlib.Order.CompletePartialOrder
import Mathlib.Order.Interval.Set.Basic

/-! Any number of `Nonce::next` calls racing for one counter, from a reset of that
counter on. A schedule picks the call that makes the next shared access; the other
static members may change arbitrarily in between. The ghost `total` is the sum of
the amounts added so far, so that overflow of the counter is visible. -/

namespace VeloxHash.NonceReservation

open Nonce TransitionSystem

variable {ι : Type*} [DecidableEq ι]

structure Call where
  pc : Pc
  words : Words
  deriving DecidableEq, Repr

structure State (ι : Type*) where
  shared : Shared
  calls : ι → Call
  total : Nat

inductive Event (ι : Type*)
  | call (i : ι)
  | other (shared : Shared)

/-- The event is an access of call `i`. -/
def Event.isCall (i : ι) : Event ι → Bool
  | .call j => decide (j = i)
  | .other _ => false

/-- Amount the next access of a call adds to the counter. -/
def added (a : Args) : Pc → Nat
  | .enter => if refuses a then 0 else a.reserveCount.toNat
  | .fetch => a.reserveCount.toNat
  | _ => 0

/-- The nonce words are written on the way to `return true` only. -/
def Call.moveTo (a : Args) (c : Call) (pc : Pc) : Call where
  pc := pc
  words := match pc with
    | .done (some counter) => write (effectiveMask a.mask) counter c.words
    | _ => c.words

/-- Call `i` moves to `pc` after an access that added `amount` to the counter. -/
def State.move (args : ι → Args) (s : State ι) (i : ι) (shared : Shared) (pc : Pc)
    (amount : Nat) : State ι where
  shared := shared
  calls := Function.update s.calls i ((s.calls i).moveTo (args i) pc)
  total := s.total + amount

def step (args : ι → Args) (index : Fin 2) (s : State ι) : Event ι → Option (State ι)
  | .call i =>
    ((s.calls i).pc.step (args i) s.shared).map fun next =>
      s.move args i next.1 next.2 (added (args i) (s.calls i).pc)
  | .other shared =>
    if shared.nonces index = s.shared.nonces index then some { s with shared } else none

/-- Every call about to start, the counter just reset. -/
def start (shared : Shared) (words : ι → Words) : State ι where
  shared := shared
  calls := fun i => ⟨.enter, words i⟩
  total := 0

/-- The range `[c, c + reserveCount - 1]` of a call that took `c`. -/
def range (a : Args) (counter : UInt64) : Set Nat :=
  Set.Icc counter.toNat (counter.toNat + (a.reserveCount.toNat - 1))

/-- `writeUnaligned(nonce, readUnaligned(nonce) + m)`. -/
def bump (w : Words) (m : UInt32) : Words := { w with lo := w.lo + m }

section Words

variable {k : Nat} {mask counter : UInt64} {reserveCount m : UInt32}

theorem lo_eq_value_mod (w : Words) : w.lo.toNat = w.value % 2 ^ 32 := by
  have := w.lo.toNat_lt
  rw [Words.value]
  omega

theorem bump_value (w : Words) (m : UInt32) (h : w.lo.toNat + m.toNat < 2 ^ 32) :
    (bump w m).value = w.value + m.toNat := by
  simp only [bump, Words.value, UInt32.toNat_add, Nat.mod_eq_of_lt h]
  omega

theorem write_lo_room (hk : k ≤ 63) (hmask : mask.toNat = 2 ^ k - 1)
    (hfits : Fits mask reserveCount counter) (hm : m.toNat < reserveCount.toNat) (w : Words) :
    (write mask counter w).lo.toNat + m.toNat < 2 ^ 32 := by
  have hle := hfits.le_mask
  have hlow := hfits.low_word
  have hval := (write_value hk hmask (show counter.toNat ≤ mask.toNat by omega) w).1
  have hpos := Nat.two_pow_pos k
  rw [lo_eq_value_mod]
  rcases Nat.le_total k 32 with h32 | h32
  · obtain ⟨d, hd⟩ := Nat.exists_eq_add_of_le h32
    have htop := Nat.mod_lt ((write mask counter w).value / 2 ^ k) (Nat.two_pow_pos d)
    have hmul := Nat.mul_le_mul_left (2 ^ k) htop
    rw [hd, pow_add, Nat.mod_mul, hval]
    rw [Nat.mul_add_one] at hmul
    omega
  · have hdvd : 2 ^ 32 ∣ 2 ^ k := pow_dvd_pow 2 h32
    rw [← Nat.mod_mod_of_dvd _ hdvd, hval]
    omega

/-- Later increments of the low word walk through the range and touch nothing else. -/
theorem bump_write_value (hk : k ≤ 63) (hmask : mask.toNat = 2 ^ k - 1)
    (hfits : Fits mask reserveCount counter) (hm : m.toNat < reserveCount.toNat) (w : Words) :
    (bump (write mask counter w) m).value % 2 ^ k = counter.toNat + m.toNat ∧
      (bump (write mask counter w) m).value / 2 ^ k = w.value / 2 ^ k := by
  have hle := hfits.le_mask
  have hpos := Nat.two_pow_pos k
  obtain ⟨hmod, hdiv⟩ := write_value hk hmask (show counter.toNat ≤ mask.toNat by omega) w
  rw [bump_value _ _ (write_lo_room hk hmask hfits hm w), ← hdiv]
  have hsum : (write mask counter w).value + m.toNat =
      2 ^ k * ((write mask counter w).value / 2 ^ k) + (counter.toNat + m.toNat) := by
    have := Nat.div_add_mod (write mask counter w).value (2 ^ k)
    omega
  have hlt : counter.toNat + m.toNat < 2 ^ k := by omega
  rw [hsum]
  exact ⟨by rw [Nat.mul_add_mod, Nat.mod_eq_of_lt hlt],
    by rw [Nat.mul_add_div hpos, Nat.div_eq_of_lt hlt, Nat.add_zero]⟩

end Words

section Step

variable {args : ι → Args} {index : Fin 2} {s t : State ι} {i : ι}

/-- What one access of a call can be: a refusal, a `fetch_add`, or `pause(true)`. -/
inductive Access (args : ι → Args) (s : State ι) (i : ι) : State ι → Prop
  | refuse : (s.calls i).pc = .enter → refuses (args i) = true →
      Access args s i (s.move args i s.shared (.done none) 0)
  | fetch : (s.calls i).pc = .enter ∧ refuses (args i) = false ∨ (s.calls i).pc = .fetch →
      Access args s i (s.move args i (s.shared.fetchAdd (args i).index (args i).reserveCount)
        (.afterFetch (args i) (s.shared.nonces (args i).index)) (args i).reserveCount.toNat)
  | pause (counter : UInt64) (short : Bool) : (s.calls i).pc = .pause counter short →
      Access args s i
        (s.move args i (s.shared.pause true) (.done (if short then none else some counter)) 0)

theorem step_call (h : step args index s (.call i) = some t) : Access args s i t := by
  obtain ⟨next, hnext, rfl⟩ := Option.map_eq_some_iff.mp h
  cases hpc : (s.calls i).pc with
  | enter =>
    rw [hpc, Pc.step] at hnext
    obtain rfl := Option.some.inj hnext
    cases hr : refuses (args i) with
    | true => simpa [hr, added] using Access.refuse (s := s) hpc hr
    | false => simpa [hr, added, Pc.fetchStep] using Access.fetch (Or.inl ⟨hpc, hr⟩)
  | fetch =>
    rw [hpc, Pc.step] at hnext
    obtain rfl := Option.some.inj hnext
    exact Access.fetch (Or.inr hpc)
  | pause counter short =>
    rw [hpc, Pc.step] at hnext
    obtain rfl := Option.some.inj hnext
    exact Access.pause counter short hpc
  | done result =>
    rw [hpc, Pc.step] at hnext
    cases hnext

/-- A call that has not returned is never blocked. -/
theorem step_call_isSome (h : ∀ result, (s.calls i).pc ≠ .done result) :
    (step args index s (.call i)).isSome := by
  cases hpc : (s.calls i).pc with
  | done result => exact absurd hpc (h result)
  | _ => simp [step, hpc, Pc.step]

@[simp] theorem move_calls_self (shared : Shared) (pc : Pc) (amount : Nat) :
    (s.move args i shared pc amount).calls i = (s.calls i).moveTo (args i) pc := by
  simp [State.move]

theorem move_calls_ne {j : ι} (hj : j ≠ i) (shared : Shared) (pc : Pc) (amount : Nat) :
    (s.move args i shared pc amount).calls j = s.calls j := by
  simp [State.move, hj]

theorem afterFetch_holds {a : Args} {c d : UInt64}
    (h : (Pc.afterFetch a c).holds = some d) : d = c := by
  unfold Pc.afterFetch at h
  split at h <;> simp_all [Pc.holds]

end Step

section Invariant

variable {args : ι → Args} {index : Fin 2} {words : ι → Words} {k : Nat}

/-- A call that goes on to return true. -/
def Pc.takes (pc : Pc) (counter : UInt64) : Prop :=
  pc = .pause counter false ∨ pc = .done (some counter)

structure Inv (args : ι → Args) (index : Fin 2) (words : ι → Words) (s : State ι) : Prop where
  counter : (s.shared.nonces index).toNat = s.total
  below : ∀ i c, (s.calls i).pc.holds = some c →
    c.toNat + (args i).reserveCount.toNat ≤ s.total
  apart : ∀ i j c d, i ≠ j → (s.calls i).pc.holds = some c → (s.calls j).pc.holds = some d →
    c.toNat + (args i).reserveCount.toNat ≤ d.toNat ∨
      d.toNat + (args j).reserveCount.toNat ≤ c.toNat
  fits : ∀ i c, Pc.takes (s.calls i).pc c →
    Fits (effectiveMask (args i).mask) (args i).reserveCount c
  words : ∀ i, (s.calls i).words = match (s.calls i).pc with
    | .done (some c) => write (effectiveMask (args i).mask) c (words i)
    | _ => words i

omit [DecidableEq ι] in
theorem inv_start (shared : Shared) (hreset : shared.nonces index = 0) :
    Inv args index words (start shared words) where
  counter := by simp [start, hreset]
  below := by simp [start, Pc.holds]
  apart := by simp [start, Pc.holds]
  fits := by simp [start, Pc.takes]
  words := by simp [start]

theorem takes_holds {pc : Pc} {c : UInt64} (h : Pc.takes pc c) : pc.holds = some c := by
  rcases h with rfl | rfl <;> rfl

theorem afterFetch_takes {a : Args} (hmask : (effectiveMask a.mask).toNat = 2 ^ k - 1)
    (hcount : 1 ≤ a.reserveCount.toNat) {c d : UInt64} (h : Pc.takes (Pc.afterFetch a c) d) :
    Fits (effectiveMask a.mask) a.reserveCount d := by
  obtain rfl := afterFetch_holds (takes_holds h)
  unfold Pc.afterFetch at h
  split at h <;> rename_i hv
  · simp [Pc.takes] at h
  · simp [Pc.takes] at h
  · exact examine_last hmask hcount hv
  · simp [Pc.takes] at h
  · exact examine_inside hcount hv

/-- An access of a call adds nothing or a range to the counter, and what the call has taken
afterwards it had taken before, or it is that range. -/
theorem call_step {a : Args} {g g' : Shared} {call call' : Pc}
    (h : call.step a g = some (g', call')) :
    ∃ n : UInt32, g'.nonces = (g.fetchAdd a.index n).nonces ∧
      (n = 0 ∨ n = a.reserveCount ∧ ∀ c short, call ≠ .pause c short) ∧
      ∀ c, Pc.takes call' c → Pc.takes call c ∨
        n = a.reserveCount ∧ c = g.nonces a.index ∧
          Pc.takes (Pc.afterFetch a (g.nonces a.index)) c := by
  have hzero : g.nonces = (g.fetchAdd a.index 0).nonces := (g.fetchAdd_zero a.index).symm
  have hfetch (hcall : ∀ c short, call ≠ .pause c short)
      (heq : Pc.fetchStep a g = (g', call')) :
      ∃ n : UInt32, g'.nonces = (g.fetchAdd a.index n).nonces ∧
        (n = 0 ∨ n = a.reserveCount ∧ ∀ c short, call ≠ .pause c short) ∧
        ∀ c, Pc.takes call' c → Pc.takes call c ∨
          n = a.reserveCount ∧ c = g.nonces a.index ∧
            Pc.takes (Pc.afterFetch a (g.nonces a.index)) c := by
    obtain ⟨rfl, rfl⟩ := Prod.mk.inj heq
    exact ⟨a.reserveCount, rfl, .inr ⟨rfl, hcall⟩, fun c hc => .inr
      ⟨rfl, afterFetch_holds (takes_holds hc), hc⟩⟩
  cases call with
  | enter =>
    rw [Pc.step] at h
    split at h
    · cases h
      refine ⟨0, hzero, .inl rfl, fun c hc => ?_⟩
      simp [Pc.takes] at hc
    · exact hfetch (by simp) (Option.some.inj h)
  | fetch => exact hfetch (by simp) (Option.some.inj h)
  | pause c short =>
    cases h
    refine ⟨0, hzero, .inl rfl, fun d hd => .inl ?_⟩
    cases short
    · exact .inl (by simpa [Pc.takes] using hd)
    · simp [Pc.takes] at hd
  | done result => cases h

omit [DecidableEq ι] in
theorem moveTo_words {s : State ι} (hinv : Inv args index words s) (i : ι) (pc : Pc)
    (hpc : ∀ c, (s.calls i).pc ≠ .done (some c)) :
    ((s.calls i).moveTo (args i) pc).words = match pc with
      | .done (some c) => write (effectiveMask (args i).mask) c (words i)
      | _ => words i := by
  have hw : (s.calls i).words = words i := by
    rw [hinv.words i]
    split
    · exact absurd ‹_› (hpc _)
    · rfl
  simp only [Call.moveTo, hw]

/-- The effect of an access on the invariant, whatever the access was: only call `i`
moves, the total grows by `amount`, and a range that `i` holds afterwards is either the
one it held or starts at the old total. -/
theorem inv_move {s : State ι} (hinv : Inv args index words s) {i : ι} {shared : Shared}
    {pc : Pc} {amount : Nat}
    (hcounter : (shared.nonces index).toNat = s.total + amount)
    (hpc : ∀ c, (s.calls i).pc ≠ .done (some c))
    (hholds : ∀ c, pc.holds = some c → (s.calls i).pc.holds = some c ∨
      c.toNat = s.total ∧ amount = (args i).reserveCount.toNat)
    (hfits : ∀ c, Pc.takes pc c → Fits (effectiveMask (args i).mask) (args i).reserveCount c) :
    Inv args index words (s.move args i shared pc amount) := by
  have hnew (c : UInt64) (h : pc.holds = some c) :
      c.toNat + (args i).reserveCount.toNat ≤ s.total + amount := by
    rcases hholds c h with hold | ⟨hc, ha⟩
    · exact (hinv.below i c hold).trans (Nat.le_add_right _ _)
    · omega
  have hapart (j : ι) (hj : j ≠ i) (c d : UInt64) (h : pc.holds = some c)
      (hd : (s.calls j).pc.holds = some d) :
      c.toNat + (args i).reserveCount.toNat ≤ d.toNat ∨
        d.toNat + (args j).reserveCount.toNat ≤ c.toNat := by
    rcases hholds c h with hold | ⟨hc, -⟩
    · exact hinv.apart i j c d hj.symm hold hd
    · exact Or.inr (hc ▸ hinv.below j d hd)
  constructor
  · exact hcounter
  · intro j c h
    by_cases hj : j = i
    · subst hj
      rw [move_calls_self] at h
      exact hnew c h
    · rw [move_calls_ne hj] at h
      exact (hinv.below j c h).trans (Nat.le_add_right _ _)
  · intro j l c d hjl hc hd
    by_cases hj : j = i
    · subst hj
      rw [move_calls_self] at hc
      rw [move_calls_ne hjl.symm] at hd
      exact hapart l hjl.symm c d hc hd
    · rw [move_calls_ne hj] at hc
      by_cases hl : l = i
      · subst hl
        rw [move_calls_self] at hd
        exact (hapart j hj d c hd hc).symm
      · rw [move_calls_ne hl] at hd
        exact hinv.apart j l c d hjl hc hd
  · intro j c h
    by_cases hj : j = i
    · subst hj
      rw [move_calls_self] at h
      exact hfits c h
    · rw [move_calls_ne hj] at h
      exact hinv.fits j c h
  · intro j
    by_cases hj : j = i
    · subst hj
      rw [move_calls_self]
      exact moveTo_words hinv j pc hpc
    · rw [move_calls_ne hj]
      exact hinv.words j

theorem inv_access (hindex : ∀ i, (args i).index = index)
    (hcount : ∀ i, 1 ≤ (args i).reserveCount.toNat)
    (hmask : ∀ i, (effectiveMask (args i).mask).toNat = 2 ^ k - 1) {s t : State ι} {i : ι}
    (hinv : Inv args index words s) (h : Access args s i t) (htotal : t.total < 2 ^ 64) :
    Inv args index words t := by
  have hcounter := hinv.counter
  cases h with
  | refuse hpc _ =>
    refine inv_move hinv hcounter (by simp [hpc]) (by simp [Pc.holds]) (by simp [Pc.takes])
  | fetch hpc =>
    have hlt : s.total + (args i).reserveCount.toNat < 2 ^ 64 := htotal
    refine inv_move hinv ?_ ?_ ?_ ?_
    · rw [hindex i, Shared.fetchAdd_nonces_self, UInt64.toNat_add, UInt32.toNat_toUInt64,
        hcounter, Nat.mod_eq_of_lt hlt]
    · rcases hpc with ⟨hpc, -⟩ | hpc <;> simp [hpc]
    · intro c hc
      rw [afterFetch_holds hc, hindex i]
      exact Or.inr ⟨hcounter, rfl⟩
    · intro c hc
      exact afterFetch_takes (hmask i) (hcount i) hc
  | pause counter short hpc =>
    refine inv_move hinv hcounter (by simp [hpc]) ?_ ?_
    · cases short <;> simp [Pc.holds, hpc]
    · cases short with
      | false =>
        intro c hc
        simp only [Pc.takes, Bool.false_eq_true, if_false, reduceCtorEq, Pc.done.injEq,
          Option.some.injEq, false_or] at hc
        exact hinv.fits i c (Or.inl (by rw [hpc, hc]))
      | true => simp [Pc.takes]

theorem access_total {s t : State ι} {i : ι} (h : Access args s i t) : s.total ≤ t.total := by
  cases h <;> simp [State.move]

theorem step_total {s t : State ι} {e : Event ι} (h : step args index s e = some t) :
    s.total ≤ t.total := by
  cases e with
  | call i => exact access_total (step_call h)
  | other shared =>
    obtain ⟨-, ht⟩ := Option.ite_none_right_eq_some.mp h
    rw [← Option.some.inj ht]

theorem inv_step (hindex : ∀ i, (args i).index = index)
    (hcount : ∀ i, 1 ≤ (args i).reserveCount.toNat)
    (hmask : ∀ i, (effectiveMask (args i).mask).toNat = 2 ^ k - 1) {s t : State ι} {e : Event ι}
    (hs : Inv args index words s) (h : step args index s e = some t)
    (htotal : t.total < 2 ^ 64) : Inv args index words t := by
  cases e with
  | call i => exact inv_access hindex hcount hmask hs (step_call h) htotal
  | other shared =>
    obtain ⟨heq, ht⟩ := Option.ite_none_right_eq_some.mp h
    obtain rfl := Option.some.inj ht
    exact ⟨by simpa [heq] using hs.counter, hs.below, hs.apart, hs.fits, hs.words⟩

/-- While the counter does not overflow, a schedule is a run that never lets it. -/
theorem run_bounded {s t : State ι} {schedule : List (Event ι)}
    (h : exec (step args index) s schedule = some t) (htotal : t.total < 2 ^ 64) :
    Run (step args index)
      (fun s e => True ∧ ∀ t, step args index s e = some t → t.total < 2 ^ 64) s schedule t :=
  ((run_of_exec h).bounded (B := fun s => s.total < 2 ^ 64)
    (fun _ _ _ hst ht => (step_total hst).trans_lt ht) htotal).1

theorem inv_exec (hindex : ∀ i, (args i).index = index)
    (hcount : ∀ i, 1 ≤ (args i).reserveCount.toNat)
    (hmask : ∀ i, (effectiveMask (args i).mask).toNat = 2 ^ k - 1) {shared : Shared}
    (hreset : shared.nonces index = 0) {s : State ι} {schedule : List (Event ι)}
    (hrun : exec (step args index) (start shared words) schedule = some s)
    (htotal : s.total < 2 ^ 64) : Inv args index words s :=
  (run_bounded hrun htotal).invariant
    (fun _ _ _ hp hs h => inv_step hindex hcount hmask hs h (hp.2 _ h)) (inv_start shared hreset)

omit [DecidableEq ι] in
theorem range_disjoint (hcount : ∀ i, 1 ≤ (args i).reserveCount.toNat) {s : State ι}
    (hinv : Inv args index words s) {i j : ι} {c d : UInt64} (hij : i ≠ j)
    (hc : (s.calls i).pc = .done (some c)) (hd : (s.calls j).pc = .done (some d)) :
    Disjoint (range (args i) c) (range (args j) d) := by
  have hi := hcount i
  have hj := hcount j
  rw [Set.disjoint_left]
  rintro n ⟨hcn, hnc⟩ ⟨hdn, hnd⟩
  rcases hinv.apart i j c d hij (by rw [hc]; rfl) (by rw [hd]; rfl) with h | h <;> omega

omit [DecidableEq ι] in
theorem range_written {s : State ι} {i : ι} {c : UInt64} (hk : k ≤ 63)
    (hmask : (effectiveMask (args i).mask).toNat = 2 ^ k - 1)
    (hinv : Inv args index words s) (hc : (s.calls i).pc = .done (some c)) :
    range (args i) c ⊆ Set.Icc 0 (2 ^ k - 1) ∧
      (s.calls i).words.value % 2 ^ k = c.toNat ∧
      (s.calls i).words.value / 2 ^ k = (words i).value / 2 ^ k ∧
      ∀ m : UInt32, m.toNat < (args i).reserveCount.toNat →
        (s.calls i).words.lo.toNat + m.toNat < 2 ^ 32 ∧
        (bump (s.calls i).words m).value % 2 ^ k = c.toNat + m.toNat ∧
        (bump (s.calls i).words m).value / 2 ^ k = (words i).value / 2 ^ k := by
  have hfits := hinv.fits i c (Or.inr hc)
  have hle := hfits.le_mask
  have hwords : (s.calls i).words = write (effectiveMask (args i).mask) c (words i) := by
    rw [hinv.words i, hc]
  have hval := write_value hk hmask (show c.toNat ≤ _ by omega) (words i)
  rw [hwords]
  refine ⟨fun n hn => ⟨Nat.zero_le n, hn.2.trans (by omega)⟩, hval.1, hval.2, fun m hm => ?_⟩
  exact ⟨write_lo_room hk hmask hfits hm _, bump_write_value hk hmask hfits hm _⟩

end Invariant

section Termination

variable {args : ι → Args} {index : Fin 2} {words : ι → Words} {k : Nat}

/-- Accesses a call can still make: each retry leaves `reserveCount` less room under
the mask, and a call that is done retrying makes at most one more. -/
def budget (a : Args) (total : Nat) : Pc → Nat
  | .enter => (effectiveMask a.mask).toNat / a.reserveCount.toNat + 2
  | .fetch => ((effectiveMask a.mask).toNat - total) / a.reserveCount.toNat + 2
  | .pause _ _ => 1
  | .done _ => 0

theorem budget_mono (a : Args) {m n : Nat} (h : m ≤ n) (pc : Pc) :
    budget a n pc ≤ budget a m pc := by
  cases pc with
  | fetch =>
    have := Nat.div_le_div_right (c := a.reserveCount.toNat)
      (Nat.sub_le_sub_left h (effectiveMask a.mask).toNat)
    simpa only [budget, Nat.add_le_add_iff_right] using this
  | _ => exact Nat.le_refl _

theorem budget_afterFetch {a : Args} (hcount : 1 ≤ a.reserveCount.toNat) (c : UInt64) :
    budget a (c.toNat + a.reserveCount.toNat) (Pc.afterFetch a c) + 1 ≤
      budget a c.toNat .fetch := by
  unfold Pc.afterFetch
  split
  case h_4 hv =>
    have hroom := examine_retry hcount hv
    have hsplit : (effectiveMask a.mask).toNat - c.toNat =
        (effectiveMask a.mask).toNat - (c.toNat + a.reserveCount.toNat) +
          a.reserveCount.toNat := by omega
    simp only [budget, hsplit, Nat.add_div_right _ hcount]
    omega
  all_goals
    simp only [budget]
    generalize ((effectiveMask a.mask).toNat - c.toNat) / a.reserveCount.toNat = q
    omega

theorem budget_access (hindex : ∀ i, (args i).index = index)
    (hcount : ∀ i, 1 ≤ (args i).reserveCount.toNat) {s t : State ι} {i : ι}
    (hinv : Inv args index words s) (h : Access args s i t) :
    budget (args i) t.total (t.calls i).pc + 1 ≤ budget (args i) s.total (s.calls i).pc := by
  cases h with
  | refuse hpc _ => simp [budget, hpc, Call.moveTo]
  | fetch hpc =>
    have hafter := budget_afterFetch (hcount i) (s.shared.nonces index)
    rw [hinv.counter] at hafter
    simp only [move_calls_self, Call.moveTo, hindex i]
    refine hafter.trans ?_
    rcases hpc with ⟨hpc, -⟩ | hpc
    · rw [hpc]
      exact Nat.add_le_add_right (Nat.div_le_div_right (Nat.sub_le _ _)) 2
    · rw [hpc]
  | pause counter short hpc => simp [budget, hpc, Call.moveTo]

theorem budget_other {s t : State ι} {e : Event ι} {i : ι}
    (h : step args index s e = some t) (hne : e.isCall i = false) :
    budget (args i) t.total (t.calls i).pc ≤ budget (args i) s.total (s.calls i).pc := by
  have hpc : (t.calls i).pc = (s.calls i).pc := by
    cases e with
    | call j =>
      have hj : i ≠ j := fun hij => by simp [Event.isCall, hij] at hne
      cases step_call h <;> rw [move_calls_ne hj]
    | other shared =>
      obtain ⟨-, ht⟩ := Option.ite_none_right_eq_some.mp h
      rw [← Option.some.inj ht]
  rw [hpc]
  exact budget_mono _ (step_total h) _

theorem accesses_le (hindex : ∀ i, (args i).index = index)
    (hcount : ∀ i, 1 ≤ (args i).reserveCount.toNat)
    (hmask : ∀ i, (effectiveMask (args i).mask).toNat = 2 ^ k - 1) {shared : Shared}
    (hreset : shared.nonces index = 0) {s : State ι} {schedule : List (Event ι)}
    (hrun : exec (step args index) (start shared words) schedule = some s)
    (htotal : s.total < 2 ^ 64) (i : ι) :
    schedule.countP (Event.isCall i) ≤
      (effectiveMask (args i).mask).toNat / (args i).reserveCount.toNat + 2 := by
  refine le_trans (Nat.le_add_right _ _) ((run_bounded hrun htotal).countP_le
    (μ := fun s => budget (args i) s.total (s.calls i).pc)
    (show Inv args index words (start shared words) from inv_start shared hreset)
    (fun _ _ _ hp hs h => inv_step hindex hcount hmask hs h (hp.2 _ h)) ?_ ?_)
  · intro s e t he _ hs h
    cases e with
    | call j =>
      obtain rfl : j = i := by simpa [Event.isCall] using he
      exact budget_access hindex hcount hs (step_call h)
    | other shared => simp [Event.isCall] at he
  · intro s e t he _ _ h
    exact budget_other h he

end Termination

/-- Racing calls of `Nonce::next` between two resets of their counter, all with the same
mask of `k` low bits: the ranges taken are pairwise disjoint, lie under the mask, never
wrap the low word however far it is bumped inside the range, and are written over the
masked bits only; a call returns after a number of accesses that no schedule can exceed
and is enabled until it does. -/
theorem next_race {args : ι → Args} {index : Fin 2} {words : ι → Words} {k : Nat}
    (hindex : ∀ i, (args i).index = index)
    (hcount : ∀ i, 1 ≤ (args i).reserveCount.toNat) (hk : 1 ≤ k ∧ k ≤ 63)
    (hmask : ∀ i, (effectiveMask (args i).mask).toNat = 2 ^ k - 1) {shared : Shared}
    (hreset : shared.nonces index = 0) {schedule : List (Event ι)} {s : State ι}
    (hrun : exec (step args index) (start shared words) schedule = some s)
    (htotal : s.total < 2 ^ 64) :
    (∀ i j c d, i ≠ j → (s.calls i).pc = .done (some c) → (s.calls j).pc = .done (some d) →
      Disjoint (range (args i) c) (range (args j) d)) ∧
    (∀ i c, (s.calls i).pc = .done (some c) →
      range (args i) c ⊆ Set.Icc 0 (2 ^ k - 1) ∧
      (s.calls i).words.value % 2 ^ k = c.toNat ∧
      (s.calls i).words.value / 2 ^ k = (words i).value / 2 ^ k ∧
      ∀ m : UInt32, m.toNat < (args i).reserveCount.toNat →
        (s.calls i).words.lo.toNat + m.toNat < 2 ^ 32 ∧
        (bump (s.calls i).words m).value % 2 ^ k = c.toNat + m.toNat ∧
        (bump (s.calls i).words m).value / 2 ^ k = (words i).value / 2 ^ k) ∧
    ∀ i, schedule.countP (Event.isCall i) ≤ (2 ^ k - 1) / (args i).reserveCount.toNat + 2 ∧
      ((∀ result, (s.calls i).pc ≠ .done result) → (step args index s (.call i)).isSome) := by
  have hinv := inv_exec hindex hcount hmask hreset hrun htotal
  refine ⟨fun i j c d hij hc hd => ?_, fun i c hc => ?_, fun i => ⟨?_, step_call_isSome⟩⟩
  · exact range_disjoint hcount hinv hij hc hd
  · exact range_written hk.2 (hmask i) hinv hc
  · rw [← hmask i]
    exact accesses_le hindex hcount hmask hreset hrun htotal i

/-- Two calls of three nonces each under a 24-bit mask. -/
theorem next_race_two_calls :
    (exec (step (fun _ : Fin 2 => ⟨0, 3, 0xFFFFFF⟩) 0) (start {} fun _ => ⟨0xAB000000, 7⟩)
        [.call 1, .call 0]).map (fun s => (s.total, (s.calls 0).pc, (s.calls 1).pc)) =
      some (6, .done (some 3), .done (some 0)) ∧
    Disjoint (range ⟨0, 3, 0xFFFFFF⟩ 3) (range ⟨0, 3, 0xFFFFFF⟩ 0) := by
  have hpcs : (exec (step (fun _ : Fin 2 => ⟨0, 3, 0xFFFFFF⟩) 0)
      (start {} fun _ => ⟨0xAB000000, 7⟩) [.call 1, .call 0]).map
        (fun s => (s.total, (s.calls 0).pc, (s.calls 1).pc)) =
      some (6, .done (some 3), .done (some 0)) := by decide
  obtain ⟨s, hs, hpc⟩ := Option.map_eq_some_iff.mp hpcs
  obtain ⟨htotal, h0, h1⟩ : s.total = 6 ∧ (s.calls 0).pc = .done (some 3) ∧
      (s.calls 1).pc = .done (some 0) := by simpa using hpc
  exact ⟨hpcs, (next_race (k := 24) (fun _ => rfl) (fun _ => by decide) (by decide)
    (fun _ => by decide) rfl hs (by omega)).1 0 1 3 0 (by decide) h0 h1⟩

end VeloxHash.NonceReservation
