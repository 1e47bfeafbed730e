import VeloxHash.TicketBook

/-! Tickets numbered by counters that may be set back to zero. What was drawn under a counter
before it was set back is stale, and nothing is drawn for it any more. -/

namespace VeloxHash.CounterLedger

open TicketBook

variable {γ β ι : Type*} [DecidableEq γ] [DecidableEq β] [Fintype ι]

structure Ledger (γ β ι : Type*) where
  book : Book (γ × β) ι
  counter : γ → ℕ
  drawn : γ → List β
  stale : γ → List β

namespace Ledger

def limit (l : Ledger γ β ι) (key : γ × β) : Option ℕ :=
  if key.2 ∈ l.stale key.1 then none else some (l.counter key.1)

structure Sound (l : Ledger γ β ι) : Prop where
  fair : l.book.Fair l.limit
  known : ∀ t ∈ l.book.issued, t.1.2 ∈ l.drawn t.1.1 ∨ t.1.2 ∈ l.stale t.1.1

/-- A counter starts again from zero. -/
def setBack (l : Ledger γ β ι) (c : γ) : Ledger γ β ι where
  book := l.book
  counter := Function.update l.counter c 0
  drawn := Function.update l.drawn c []
  stale := Function.update l.stale c (l.drawn c ++ l.stale c)

variable {l l' : Ledger γ β ι}

theorem Sound.setBack (h : l.Sound) (c : γ) : (l.setBack c).Sound := by
  refine ⟨h.fair.relimit fun t ht n hn => ?_, fun t ht => ?_⟩
  · by_cases hc : t.1.1 = c
    · have hstale : t.1.2 ∈ (l.setBack c).stale t.1.1 := by
        change t.1.2 ∈ Function.update l.stale c (l.drawn c ++ l.stale c) t.1.1
        rw [hc, Function.update_self, ← hc]
        exact List.mem_append.mpr (h.known t ht)
      exact absurd (hn.symm.trans (if_pos hstale)) (Option.some_ne_none n)
    · refine ⟨n, le_rfl, hn ▸ ?_⟩
      simp only [limit, Ledger.setBack, Function.update_of_ne hc]
  · have hold := h.known t ht
    simp only [Ledger.setBack]
    by_cases hc : t.1.1 = c
    · rw [hc] at hold ⊢
      rw [Function.update_self, Function.update_self]
      exact .inr (List.mem_append.mpr hold)
    · rwa [Function.update_of_ne hc, Function.update_of_ne hc]

omit [DecidableEq γ] in
/-- Counters may rise without a draw. -/
theorem Sound.raise (h : l.Sound) {counter : γ → ℕ} (hle : ∀ c, l.counter c ≤ counter c) :
    ({ l with counter } : Ledger γ β ι).Sound := by
  refine ⟨h.fair.relimit fun t _ n hn => ?_, h.known⟩
  by_cases hstale : t.1.2 ∈ l.stale t.1.1
  · exact absurd (hn.symm.trans (if_pos hstale)) (Option.some_ne_none n)
  · have hlimit : n = counter t.1.1 := Option.some.inj (hn.symm.trans (if_neg hstale))
    exact ⟨_, (hle t.1.1).trans_eq hlimit.symm, if_neg hstale⟩

variable [DecidableEq ι] {i : ι} {key : γ × β} {n : ℕ} {spends holds : Multiset ((γ × β) × ℕ)}

/-- A holder draws the next `n` tickets, for something that is not stale. -/
theorem Sound.draw (h : l.Sound) (hfresh : n = 0 ∨ key.2 ∉ l.stale key.1)
    (hexchange : spends + holds ≤ l.book.held i + stretch key (l.counter key.1) n)
    (hbook : l'.book = l.book.exchange i spends holds)
    (hcounter : l'.counter = Function.update l.counter key.1 (l.counter key.1 + n))
    (hstale : l'.stale = l.stale) (hdrawn : ∀ c, ∀ b ∈ l.drawn c, b ∈ l'.drawn c)
    (hkey : n = 0 ∨ key.2 ∈ l'.drawn key.1) : l'.Sound := by
  refine ⟨?_, fun t ht => ?_⟩
  · rw [hbook]
    refine h.fair.draw (hfresh.imp_right fun hne => if_neg hne) hexchange fun k m hm => ?_
    by_cases hk : k.2 ∈ l.stale k.1
    · have hnone : l'.limit k = none := if_pos (hstale ▸ hk)
      exact absurd (hm.symm.trans hnone) (Option.some_ne_none m)
    · have hlimit : l'.limit k = some (l'.counter k.1) := if_neg (hstale ▸ hk)
      obtain rfl : m = l'.counter k.1 := Option.some.inj (hm.symm.trans hlimit)
      refine ⟨l.counter k.1, ?_, if_neg hk, ?_⟩
      · rw [hcounter, Function.update_apply]
        split
        case isTrue heq => rw [heq]; omega
        case isFalse => exact le_rfl
      · by_cases hsame : k = key
        · refine .inr (.inr ?_)
          rw [hcounter, hsame, Function.update_self]
        · exact .inr (.inl hsame)
  · rw [hbook] at ht
    rw [hstale]
    rcases Multiset.mem_add.mp (Multiset.mem_of_le (Book.issued_exchange hexchange) ht) with
      hold | hnew
    · exact (h.known t hold).imp_left (hdrawn _ _)
    · obtain ⟨hsame, hfirst, hlast⟩ := mem_stretch.mp hnew
      rw [hsame]
      exact .inl (hkey.resolve_left (by omega))

end Ledger

end VeloxHash.CounterLedger
