import Mathlib.Algebra.BigOperators.Group.Finset.Piecewise
import Mathlib.Algebra.Order.Group.Multiset
import Mathlib.Data.Multiset.Bind
import Mathlib.Tactic

/-! Numbered tickets that are handed out in stretches. Whoever holds tickets may drop or
spend them, and may be given a stretch beyond all that was handed out under its key. Then
no ticket is spent twice. -/

namespace VeloxHash.TicketBook

variable {κ ι : Type*}

/-- `n` tickets of a key, from `first` on. -/
def stretch (key : κ) (first n : Nat) : Multiset (κ × Nat) :=
  (Multiset.range n).map fun r => (key, first + r)

variable {key : κ} {first n : Nat}

@[simp] theorem stretch_zero (key : κ) (first : Nat) : stretch key first 0 = 0 := rfl

theorem mem_stretch {t : κ × Nat} :
    t ∈ stretch key first n ↔ t.1 = key ∧ first ≤ t.2 ∧ t.2 < first + n := by
  rw [stretch, Multiset.mem_map]
  constructor
  · rintro ⟨r, hr, rfl⟩
    have hr := Multiset.mem_range.mp hr
    exact ⟨rfl, by omega, by omega⟩
  · rintro ⟨rfl, hle, hlt⟩
    exact ⟨t.2 - first, Multiset.mem_range.mpr (by omega), Prod.ext rfl (by simp only; omega)⟩

theorem nodup_stretch (key : κ) (first n : Nat) : (stretch key first n).Nodup := by
  refine (Multiset.nodup_range n).map fun r s h => ?_
  have hsum : first + r = first + s := congrArg Prod.snd h
  omega

/-- The first ticket of a stretch, and the rest. -/
theorem stretch_succ (key : κ) (first n : Nat) :
    stretch key first (n + 1) = {(key, first)} + stretch key (first + 1) n := by
  rw [stretch, Nat.add_comm n 1, Multiset.range_add, Multiset.map_add, Multiset.map_map, stretch]
  refine congrArg₂ (· + ·) rfl (Multiset.map_congr rfl fun r _ => ?_)
  simp only [Function.comp_apply, Nat.add_assoc]

/-- The tickets that were spent, and those that each holder has. -/
structure Book (κ ι : Type*) where
  spent : Multiset (κ × Nat)
  held : ι → Multiset (κ × Nat)

variable [Fintype ι]

def Book.issued (b : Book κ ι) : Multiset (κ × Nat) := b.spent + ∑ i, b.held i

/-- A holder spends tickets and is left with others. -/
def Book.exchange [DecidableEq ι] (b : Book κ ι) (i : ι) (spends holds : Multiset (κ × Nat)) : Book κ ι where
  spent := b.spent + spends
  held := Function.update b.held i holds

/-- No ticket exists twice. Those of a key with a limit are below it; a key without one is
closed. -/
structure Book.Fair (b : Book κ ι) (limit : κ → Option Nat) : Prop where
  nodup : b.issued.Nodup
  below : ∀ t ∈ b.issued, ∀ c, limit t.1 = some c → t.2 < c

variable {b : Book κ ι} {limit limit' : κ → Option Nat}

theorem Book.Fair.spent_nodup (h : b.Fair limit) : b.spent.Nodup :=
  (Multiset.nodup_add.mp h.nodup).1

/-- Limits may rise, and keys be closed; a key under which nothing was issued may get any
limit. -/
theorem Book.Fair.relimit (h : b.Fair limit)
    (hlimit : ∀ t ∈ b.issued, ∀ c', limit' t.1 = some c' → ∃ c ≤ c', limit t.1 = some c) :
    b.Fair limit' := by
  refine ⟨h.nodup, fun t ht c' hc' => ?_⟩
  obtain ⟨c, hle, hc⟩ := hlimit t ht c' hc'
  exact (h.below t ht c hc).trans_le hle

variable [DecidableEq ι] {i : ι} {spends holds fresh : Multiset (κ × Nat)}

theorem Book.issued_exchange (h : spends + holds ≤ b.held i + fresh) :
    (b.exchange i spends holds).issued ≤ b.issued + fresh := by
  have hold := Finset.sum_eq_add_sum_sdiff_singleton_of_mem (Finset.mem_univ i) b.held
  have hnew : ∑ j, Function.update b.held i holds j =
      holds + ∑ j ∈ Finset.univ \ {i}, b.held j := Finset.sum_update_of_mem (Finset.mem_univ i) ..
  simp only [Book.issued, Book.exchange, hold, hnew]
  calc b.spent + spends + (holds + ∑ j ∈ Finset.univ \ {i}, b.held j)
      = spends + holds + (b.spent + ∑ j ∈ Finset.univ \ {i}, b.held j) := by abel
    _ ≤ b.held i + fresh + (b.spent + ∑ j ∈ Finset.univ \ {i}, b.held j) :=
      add_le_add_left h _
    _ = _ := by abel

/-- A holder draws a stretch that starts at the limit of its key. -/
theorem Book.Fair.draw (h : b.Fair limit) (hkey : n = 0 ∨ limit key = some first)
    (hexchange : spends + holds ≤ b.held i + stretch key first n)
    (hlimit : ∀ k c', limit' k = some c' → ∃ c ≤ c', limit k = some c ∧
      (n = 0 ∨ k ≠ key ∨ first + n ≤ c')) :
    (b.exchange i spends holds).Fair limit' := by
  have hle := Book.issued_exchange hexchange
  refine ⟨Multiset.nodup_of_le hle (Multiset.nodup_add.mpr ⟨h.nodup, nodup_stretch _ _ _, ?_⟩), ?_⟩
  · rw [Multiset.disjoint_left]
    intro t ht hnew
    obtain ⟨rfl, hfirst, hlast⟩ := mem_stretch.mp hnew
    have hlt := h.below t ht first (hkey.resolve_left (by omega))
    omega
  · intro t ht c' hc'
    obtain ⟨c, hcc, hc, hrise⟩ := hlimit t.1 c' hc'
    rcases Multiset.mem_add.mp (Multiset.mem_of_le hle ht) with hold | hnew
    · exact (h.below t hold c hc).trans_le hcc
    · obtain ⟨hsame, hfirst, hlast⟩ := mem_stretch.mp hnew
      rcases hrise with hnone | hne | hroom
      · omega
      · exact absurd hsame hne
      · omega

end VeloxHash.TicketBook
