import VeloxHash.JitBranchTarget

/-! The rounding-mode changes in the finished buffer: each reads back as emitted or as
no-ops, and one that reads back as no-ops is masked by a later change. -/

namespace VeloxHash.JitRounding

open Randomx CodeBuffer CodeBuffer.Store JitCompilerX86 BytecodeMachine JitLayout

/-- From `lo` to `hi` nothing rounds and no branch leads back before `lo`. -/
structure Quiet (b : Build) (lo hi : Nat) : Prop where
  calm : ∀ j instr type, lo ≤ j → j < hi → b.Has j instr type → type.rounds = false
  inside : ∀ j instr, lo ≤ j → j < hi → b.Has j instr .cbranch →
    lo ≤ (b.usageAt j instr.dst + 1).toNat

/-- Every path from instruction `i` meets a rounding-mode change before it rounds. -/
def Masked (b : Build) (i : Nat) : Prop :=
  ∃ lo hi instr, lo ≤ i ∧ i ≤ hi ∧ b.Has hi instr .cfround ∧ Quiet b lo hi

variable {b : Build} {c k lo : Nat} {instr : Instruction} {type : InstructionType}

theorem Quiet.refl (b : Build) (k : Nat) : Quiet b k k :=
  ⟨fun _ _ _ _ _ => by omega, fun _ _ _ _ => by omega⟩

theorem Quiet.extend (hq : Quiet b lo k) (h : b.Has k instr type) (hcalm : type.rounds = false)
    (hinside : type = .cbranch → lo ≤ (b.usageAt k instr.dst + 1).toNat) :
    Quiet b lo (k + 1) where
  calm j instr' type' hlo hj hhas := by
    rcases Nat.lt_succ_iff_lt_or_eq.mp hj with hlt | rfl
    · exact hq.calm j instr' type' hlo hlt hhas
    · exact (h.unique hhas).2 ▸ hcalm
  inside j instr' hlo hj hhas := by
    rcases Nat.lt_succ_iff_lt_or_eq.mp hj with hlt | rfl
    · exact hq.inside j instr' hlo hlt hhas
    · obtain ⟨rfl, htype⟩ := h.unique hhas
      exact hinside htype

/-- What `prevFPOperation` stands for: since the instruction it points at nothing has
rounded, and no branch has led back to it. -/
theorem prevFPOperation_barrier (b : Build) (k : Nat) (hk : k ≤ b.instrs.length) :
    ∃ lo ≤ k, Quiet b lo k ∧
      ∀ i, (b.stateAt k).prevFPOperation < b.start i → lo ≤ i := by
  induction k with
  | zero => exact ⟨0, le_rfl, Quiet.refl b 0, fun _ _ => Nat.zero_le _⟩
  | succ k ih =>
    obtain ⟨instr, hget⟩ : ∃ instr, b.instrs[k]? = some instr :=
      ⟨_, List.getElem?_eq_getElem hk⟩
    obtain ⟨type, h⟩ : ∃ type, b.Has k instr type := ⟨_, b.has_of_get hget⟩
    obtain ⟨lo, hlo, hq, hpast⟩ := ih (by omega)
    -- a step that moves the note to itself starts a new quiet stretch
    have hmoved (hnote : (b.stateAt (k + 1)).prevFPOperation = b.start k) :
        ∃ lo ≤ k + 1, Quiet b lo (k + 1) ∧
          ∀ i, (b.stateAt (k + 1)).prevFPOperation < b.start i → lo ≤ i := by
      refine ⟨k + 1, le_rfl, Quiet.refl b _, fun i hi => ?_⟩
      by_contra hlt
      have := b.start_mono (show i ≤ k by omega)
      omega
    have hsame (hnote : (b.stateAt (k + 1)).prevFPOperation = (b.stateAt k).prevFPOperation)
        (hq' : Quiet b lo (k + 1)) :
        ∃ lo ≤ k + 1, Quiet b lo (k + 1) ∧
          ∀ i, (b.stateAt (k + 1)).prevFPOperation < b.start i → lo ≤ i :=
      ⟨lo, by omega, hq', fun i hi => hpast i (hnote ▸ hi)⟩
    by_cases hround : type = .cfround
    · subst hround
      refine hsame ?_ (hq.extend h rfl (by simp))
      rw [h.stateAt_succ, handler_cfround, roundHandler, put_prevFPOperation]
      split <;> rfl
    · by_cases hbranch : type = .cbranch
      · subst hbranch
        have hnote := (handler_cbranch b.host b.config instr (b.stateAt k)).2.2.2
        rw [← h.stateAt_succ, (b.registerUsage_eq k (by omega) instr.dst).2.2] at hnote
        by_cases hover : (b.start (b.usageAt k instr.dst + 1).toNat : Int) ≤
            (b.stateAt k).prevFPOperation
        · rw [if_pos hover] at hnote
          exact hmoved hnote
        · rw [if_neg hover] at hnote
          exact hsame hnote (hq.extend h rfl fun _ => hpast _ (by omega))
      · have hnote := (handler_notes b.host b.config instr (b.stateAt k) type hround hbranch).2
        rw [← h.stateAt_succ] at hnote
        cases hfp : type.rounds with
        | true =>
          rw [hfp] at hnote
          exact hmoved hnote
        | false =>
          rw [hfp] at hnote
          exact hsame hnote (hq.extend h hfp fun hb => absurd hb hbranch)

/-- Dropping a rounding-mode change is sound. -/
theorem masked_of_drops (hdrop : b.Drops k) (hck : c < k)
    (hnote : (b.stateAt k).prevCFROUND = b.start c) : Masked b (c + 1) := by
  obtain ⟨⟨instr, h⟩, hlt⟩ := hdrop
  have hk : k < b.instrs.length := (List.getElem?_eq_some_iff.mp h.get).1
  obtain ⟨lo, -, hq, hpast⟩ := prevFPOperation_barrier b k hk.le
  have hlo : lo ≤ c := hpast c (hnote ▸ hlt)
  exact ⟨lo, k, instr, by omega, hck, h, hq⟩

/-- The code of a rounding-mode change: as emitted, or no-ops and masked. -/
theorem read_cfround (h : b.Has c instr .cfround) (hck : c < k) :
    read (b.stateAt k).code (b.start c) (roundSize b.host) =
        CodeBuffer.code (roundCode b.host instr) ∨
      read (b.stateAt k).code (b.start c) (roundSize b.host) = roundNops b.host ∧
        Masked b (c + 1) := by
  induction k, hck using Nat.le_induction with
  | base =>
    left
    rw [h.stateAt_succ, handler_cfround, roundHandler, put_code, ← size_roundCode b.host instr]
    split <;> exact read_emit _
  | succ k hck ih =>
    by_cases hdrop : b.Drops k ∧ (b.stateAt k).prevCFROUND = b.start c
    · obtain ⟨hd, hnote⟩ := hdrop
      refine .inr ⟨?_, masked_of_drops hd hck hnote⟩
      obtain ⟨⟨instr', h'⟩, hlt⟩ := hd
      have hend : b.start c + roundSize b.host ≤ (b.stateAt k).codePos := by
        rw [← h.start_cfround]
        exact b.start_mono hck
      rw [h'.stateAt_succ, handler_cfround, roundHandler, if_pos hlt, put_code]
      refine (read_emit_below _ hend).trans ?_
      simp only [Jit.patch, hnote, Int.toNat_natCast]
      rw [read_write_take (length_roundNops b.host).ge, ← length_roundNops, List.take_length]
    · rw [b.step_keeps hck h.start_cfround.ge fun hd => .inl fun hnote => hdrop ⟨hd, hnote⟩]
      exact ih

section Masked

variable {i : Nat}

theorem Masked.lt (hm : Masked b i) : i < b.instrs.length := by
  obtain ⟨lo, hi, instr, -, hle, h, -⟩ := hm
  have := (List.getElem?_eq_some_iff.mp h.get).1
  omega

theorem Masked.not_rounds (hm : Masked b i) (h : b.Has i instr type) : type.rounds = false := by
  obtain ⟨lo, hi, instr', hlo, hle, hround, hq⟩ := hm
  rcases Nat.lt_or_eq_of_le hle with hlt | rfl
  · exact hq.calm i instr type hlo hlt h
  · rw [(h.unique hround).2]
    rfl

theorem Masked.succ (hm : Masked b i) (h : b.Has i instr type) (hround : type ≠ .cfround) :
    Masked b (i + 1) := by
  obtain ⟨lo, hi, instr', hlo, hle, hhi, hq⟩ := hm
  have hne : i ≠ hi := fun heq => hround ((heq ▸ h).unique hhi).2
  exact ⟨lo, hi, instr', by omega, by omega, hhi, hq⟩

theorem Masked.branch (hm : Masked b i) (h : b.Has i instr .cbranch) :
    Masked b (b.usageAt i instr.dst + 1).toNat := by
  have hi := hm.lt
  obtain ⟨-, hback, -⟩ := b.registerUsage_eq i hi.le instr.dst
  obtain ⟨lo, hi, instr', hlo, hle, hhi, hq⟩ := hm
  have hne : i ≠ hi := fun heq => by cases ((heq ▸ h).unique hhi).2
  exact ⟨lo, hi, instr', hq.inside i instr hlo (by omega) h, by omega, hhi, hq⟩

end Masked

end VeloxHash.JitRounding
