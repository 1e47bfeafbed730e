import VeloxHash.SuperscalarInstructions
import Mathlib.Tactic

/-! What holds of an instruction of a superscalar program while it is put together: its constants
from the start, its registers from the operations on that they are chosen for. -/

namespace VeloxHash.SuperscalarGenerator

open Checked HashedStream Retrying Randomx Superscalar SuperscalarInstruction

/-- What `create` fixes. -/
structure Constants (s : SuperscalarInstruction) : Prop where
  reuse : s.canReuse = true ↔ s.type = some .imulhR ∨ s.type = some .ismulhR
  irorC : s.type = some .irorC → 1 ≤ s.imm32.toNat ∧ s.imm32.toNat ≤ 63
  imulRcp : s.type = some .imulRcp → isZeroOrPowerOf2 s.imm32 = false

/-- The target is chosen if its operation is one of the first `d`, the source if its operation is
one of the first `r`. -/
structure Formed (s : SuperscalarInstruction) (d r : Nat) : Prop where
  constants : Constants s
  dstOpen : d ≤ (info s.type).dstOp → s.dst = none
  dstChosen : (info s.type).dstOp < d → ∃ i < 8, s.dst = some i
  noSource : (info s.type).srcOp = none → s.src = none
  srcChosen : ∀ k, (info s.type).srcOp = some k → k < r → ∃ i < 8, s.src = some i
  distinct : s.canReuse = false → ∀ i, s.dst = some i → s.src ≠ some i
  iaddRs : s.type = some .iaddRs → s.dst ≠ some registerNeedsDisplacement

/-- The source is chosen after the target only if they may be the same. -/
theorem Constants.reuse_of_dstOp_lt {s : SuperscalarInstruction} (h : Constants s) {k : Nat}
    (hsrc : (info s.type).srcOp = some k) (hk : (info s.type).dstOp < k) : s.canReuse = true := by
  rw [h.reuse]
  cases htype : s.type with
  | none =>
    rw [htype] at hsrc hk
    exact absurd (Option.some.inj hsrc) (Nat.ne_of_lt hk)
  | some type =>
    rw [htype] at hsrc hk
    cases type with
    | imulhR => exact .inl rfl
    | ismulhR => exact .inr rfl
    | irorC | iaddC7 | iaddC8 | iaddC9 | ixorC7 | ixorC8 | ixorC9 | imulRcp => nomatch hsrc
    | isubR | ixorR | iaddRs | imulR => exact absurd (Option.some.inj hsrc) (Nat.ne_of_lt hk)

/-- An instruction without registers. -/
theorem Constants.formed {s : SuperscalarInstruction} (h : Constants s) (hsrc : s.src = none)
    (hdst : s.dst = none) : Formed s 0 0 where
  constants := h
  dstOpen _ := hdst
  dstChosen := nofun
  noSource _ := hsrc
  srcChosen _ _ := nofun
  distinct _ i hi := by rw [hdst] at hi; nomatch hi
  iaddRs _ := by rw [hdst]; nofun

section Creation

variable {rxBlake2b : Nat → Table 64 UInt8 → Table 64 UInt8} {gen₀ gen : Blake2Generator}

/-- The loops of `create` are left on all of the stream. -/
def LoopsLeft (rxBlake2b : Nat → Table 64 UInt8 → Table 64 UInt8) (gen₀ : Blake2Generator) : Prop :=
  ∀ gen, Reaches rxBlake2b gen₀ gen →
    (∃ n, search (nextByte rxBlake2b) (fun b => b &&& 63 ≠ 0) n gen ≠ .error .refused) ∧
    ∃ n, search (nextWord rxBlake2b) (fun x => !isZeroOrPowerOf2 x) n gen ≠ .error .refused

theorem count_range : ∀ i : Fin 256, UInt8.ofFin i &&& 63 ≠ 0 →
    1 ≤ (UInt8.ofFin i &&& 63).toUInt32.toNat ∧ (UInt8.ofFin i &&& 63).toUInt32.toNat ≤ 63 := by
  decide +kernel

theorem create_spec (s : SuperscalarInstruction) (type : SuperscalarInstructionType)
    (hgen : Reaches rxBlake2b gen₀ gen) :
    Settles (LoopsLeft rxBlake2b gen₀) (create rxBlake2b s type gen) fun r =>
      (Formed r.1 0 0 ∧ r.1.type = some type) ∧ Reaches rxBlake2b gen₀ r.2 := by
  have hbyte := settles_access (H := LoopsLeft rxBlake2b gen₀)
    (nextByte_reaches (by decide : 1 ≤ 64) hgen)
  have hword := settles_access (H := LoopsLeft rxBlake2b gen₀)
    (nextWord_reaches (by decide : 4 ≤ 64) hgen)
  cases type with
  | isubR | ixorR | imulR =>
    refine settles_pure ⟨⟨Constants.formed ⟨?_, ?_, ?_⟩ rfl rfl, rfl⟩, hgen⟩
    all_goals simp
  | iaddRs =>
    refine hbyte.bind fun r hr => settles_pure ⟨⟨Constants.formed ⟨?_, ?_, ?_⟩ rfl rfl, rfl⟩, hr⟩
    all_goals simp
  | iaddC7 | iaddC8 | iaddC9 | ixorC7 | ixorC8 | ixorC9 | imulhR | ismulhR =>
    refine hword.bind fun r hr => settles_pure ⟨⟨Constants.formed ⟨?_, ?_, ?_⟩ rfl rfl, rfl⟩, hr⟩
    all_goals simp
  | irorC =>
    have hretry := settles_retry (I := Reaches rxBlake2b gen₀)
      (fun g hg => nextByte_reaches (by decide : 1 ≤ 64) hg) hgen
      fun hleft : LoopsLeft rxBlake2b gen₀ => (hleft gen hgen).1
    refine hretry.bind fun r hr =>
      settles_pure ⟨⟨Constants.formed ⟨?_, ?_, ?_⟩ rfl rfl, rfl⟩, hr.2⟩
    · simp
    · exact fun _ => count_range r.1.toFin (of_decide_eq_true hr.1)
    · simp
  | imulRcp =>
    have hretry := settles_retry (I := Reaches rxBlake2b gen₀)
      (fun g hg => nextWord_reaches (by decide : 4 ≤ 64) hg) hgen
      fun hleft : LoopsLeft rxBlake2b gen₀ => (hleft gen hgen).2
    refine hretry.bind fun r hr =>
      settles_pure ⟨⟨Constants.formed ⟨?_, ?_, ?_⟩ rfl rfl, rfl⟩, hr.2⟩
    · simp
    · simp
    · exact fun _ => by simpa using hr.1

theorem pick_spec {α : Type} (l : List α) {mask : UInt8} (hmask : mask.toNat < l.length)
    (hgen : Reaches rxBlake2b gen₀ gen) :
    Ensures (pick rxBlake2b l mask gen) fun r => r.1 ∈ l ∧ Reaches rxBlake2b gen₀ r.2 := by
  refine (nextByte_reaches (by decide) hgen).bind fun r hr => ?_
  have hlt : (r.1 &&& mask).toNat < l.length := by
    rw [UInt8.toNat_and]
    exact Nat.and_le_right.trans_lt hmask
  exact (ensures_getElem? hlt fun _ ha => ha).bind fun _ ha => (ensures_pure _ _).mpr ⟨ha, hr⟩

def slotSizes : List Nat := [3, 4, 7, 8, 9, 10]

abbrev Fillable (buffer : DecoderBuffer) : Prop :=
  buffer.counts.length ≤ 4 ∧ ∀ c ∈ buffer.counts, c ∈ slotSizes

theorem fetchNext_spec (type : Option SuperscalarInstructionType) (cycle mulCount : Nat)
    (hgen : Reaches rxBlake2b gen₀ gen) :
    Ensures (fetchNext rxBlake2b type cycle mulCount gen) fun r =>
      Fillable r.1 ∧ Reaches rxBlake2b gen₀ r.2 := by
  refine ensures_ite (fun _ => ?_) fun _ => ensures_ite (fun _ => ?_) fun _ =>
    ensures_ite (fun _ => ?_) fun _ => ?_
  · exact (ensures_some _ _).mpr ⟨(by decide : Fillable decodeBuffer3310), hgen⟩
  · exact (ensures_some _ _).mpr ⟨(by decide : Fillable decodeBuffer4444), hgen⟩
  · refine (pick_spec _ (by decide) hgen).mono fun r hr => ⟨?_, hr.2⟩
    simp only [List.mem_cons, List.not_mem_nil, or_false] at hr
    rcases hr.1 with h | h <;> rw [h] <;> decide
  · refine (pick_spec _ (by decide) hgen).mono fun r hr => ⟨?_, hr.2⟩
    simp only [decodeBuffers, List.mem_cons, List.not_mem_nil, or_false] at hr
    rcases hr.1 with h | h | h | h <;> rw [h] <;> decide

/-- A slot with one type, or a mask for its types. -/
theorem slotTypes_spec {slotSize : Nat} (hslot : slotSize ∈ slotSizes) (fetchType : Nat)
    (isLast : Bool) : Ensures (slotTypes slotSize fetchType isLast) fun r =>
      r.2.toNat < r.1.length := by
  simp only [slotSizes, List.mem_cons, List.not_mem_nil, or_false] at hslot
  rcases hslot with h | h | h | h | h | h <;> subst h <;> unfold slotTypes
  · exact ensures_ite (fun _ => by simp) fun _ => by simp
  · exact ensures_ite (fun _ => by simp) fun _ => by simp
  all_goals simp

theorem createForSlot_spec (s : SuperscalarInstruction) {slotSize : Nat}
    (hslot : slotSize ∈ slotSizes) (fetchType : Nat) (isLast : Bool)
    (hgen : Reaches rxBlake2b gen₀ gen) :
    Settles (LoopsLeft rxBlake2b gen₀)
      (createForSlot rxBlake2b s slotSize fetchType isLast gen) fun r =>
      (Formed r.1 0 0 ∧ r.1.type.isSome) ∧ Reaches rxBlake2b gen₀ r.2 := by
  have hcreate (type : SuperscalarInstructionType) {gen : Blake2Generator}
      (hgen : Reaches rxBlake2b gen₀ gen) := (create_spec s type hgen).mono
    fun r hr => (⟨⟨hr.1.1, by rw [hr.1.2]; rfl⟩, hr.2⟩ :
      (Formed r.1 0 0 ∧ r.1.type.isSome) ∧ Reaches rxBlake2b gen₀ r.2)
  refine (settles_access (slotTypes_spec hslot fetchType isLast)).bind fun types htypes => ?_
  dsimp only
  split
  · exact hcreate _ hgen
  · exact (settles_access (pick_spec types.1 htypes hgen)).bind fun r hr => hcreate r.1 hr.2

end Creation

section Selection

variable {rxBlake2b : Nat → Table 64 UInt8 → Table 64 UInt8} {gen₀ gen : Blake2Generator}
variable {s : SuperscalarInstruction} {m : Nat}

theorem selectRegister_spec (availableRegisters : List Nat) (hgen : Reaches rxBlake2b gen₀ gen) :
    Ensures (selectRegister rxBlake2b availableRegisters gen) fun r =>
      (∀ i, r.1 = some i → i ∈ availableRegisters) ∧ Reaches rxBlake2b gen₀ r.2 := by
  unfold selectRegister
  split
  · exact (ensures_some _ _).mpr ⟨nofun, hgen⟩
  · exact (ensures_some _ _).mpr ⟨fun i hi => by simpa using hi.symm, hgen⟩
  · rename_i hempty _
    refine (nextWord_reaches (by decide) hgen).bind fun r hr => ?_
    have hlt : r.1.toNat % availableRegisters.length < availableRegisters.length :=
      Nat.mod_lt _ (List.length_pos_iff.mpr hempty)
    refine (ensures_getElem? hlt fun _ ha => ha).bind fun reg hreg => (ensures_pure _ _).mpr ⟨?_, hr⟩
    rintro _ ⟨⟩
    exact hreg

theorem mem_available {registers : Table 8 RegisterInfo} {p : Nat → RegisterInfo → Bool} {i : Nat} :
    i ∈ available registers p ↔ i < 8 ∧ p i (registers.cell i) = true := by
  rw [available, List.mem_filter, List.mem_range]

/-- What a selection for the operation `m` does: it succeeds, or the instruction is unchanged. -/
structure Selected (s t : SuperscalarInstruction) (d r : Nat) (found : Bool) : Prop where
  type : t.type = s.type
  formed : found = true → Formed t d r
  unchanged : found = false → t = s

theorem Formed.withSource (h : Formed s m m) (hop : (info s.type).srcOp = some m) {r : Nat}
    (hr : r < 8) (par : UInt32) :
    Formed { s with src := some r, opGroupPar := par } m (m + 1) where
  constants := ⟨h.constants.reuse, h.constants.irorC, h.constants.imulRcp⟩
  dstOpen := h.dstOpen
  dstChosen := h.dstChosen
  noSource hnone := by rw [hop] at hnone; nomatch hnone
  srcChosen _ _ _ := ⟨r, hr, rfl⟩
  distinct hreuse i hi := by
    -- a target before the source belongs to an instruction that may reuse it
    rcases Nat.lt_or_ge (info s.type).dstOp m with hlt | hge
    · have hcan := h.constants.reuse_of_dstOp_lt hop hlt
      rw [hreuse] at hcan
      nomatch hcan
    · have hnone := h.dstOpen hge
      rw [hnone] at hi
      nomatch hi
  iaddRs := h.iaddRs

theorem selectSource_spec (h : Formed s m m) (hop : (info s.type).srcOp = some m) (cycle : Nat)
    (registers : Table 8 RegisterInfo) (hgen : Reaches rxBlake2b gen₀ gen) :
    Ensures (selectSource rxBlake2b s cycle registers gen) fun r =>
      Selected s r.2.1 m (m + 1) r.1 ∧ Reaches rxBlake2b gen₀ r.2.2 := by
  unfold selectSource
  dsimp only
  refine ensures_ite (fun _ => ?_) fun _ => ?_
  · exact (ensures_some _ _).mpr
      ⟨⟨rfl, fun _ => h.withSource hop (by decide) _, nofun⟩, hgen⟩
  · refine (selectRegister_spec _ hgen).bind fun r hr => ?_
    obtain ⟨reg, gen⟩ := r
    cases reg with
    | none => exact (ensures_pure _ _).mpr ⟨⟨rfl, nofun, fun _ => rfl⟩, hr.2⟩
    | some i =>
      have hi := (mem_available.mp (hr.1 i rfl)).1
      exact (ensures_pure _ _).mpr ⟨⟨rfl, fun _ => h.withSource hop hi _, nofun⟩, hr.2⟩

theorem Formed.withDestination (h : Formed s m (m + 1)) (hop : m = (info s.type).dstOp) {d : Nat}
    (hd : d < 8) (hdistinct : s.canReuse = false → some d ≠ s.src)
    (hdisplacement : s.type = some .iaddRs → d ≠ registerNeedsDisplacement) :
    Formed { s with dst := some d } (m + 1) (m + 1) where
  constants := ⟨h.constants.reuse, h.constants.irorC, h.constants.imulRcp⟩
  dstOpen hle := absurd (hop ▸ hle) (Nat.not_succ_le_self m)
  dstChosen _ := ⟨d, hd, rfl⟩
  noSource := h.noSource
  srcChosen := h.srcChosen
  distinct hreuse i hi := by
    rw [← Option.some.inj hi]
    exact (hdistinct hreuse).symm
  iaddRs htype := by
    intro heq
    exact hdisplacement htype (Option.some.inj heq)

theorem selectDestination_spec (h : Formed s m (m + 1)) (hop : m = (info s.type).dstOp)
    (cycle : Nat) (allowChainedMul : Bool) (registers : Table 8 RegisterInfo)
    (hgen : Reaches rxBlake2b gen₀ gen) :
    Ensures (selectDestination rxBlake2b s cycle allowChainedMul registers gen) fun r =>
      Selected s r.2.1 (m + 1) (m + 1) r.1 ∧ Reaches rxBlake2b gen₀ r.2.2 := by
  unfold selectDestination
  dsimp only
  refine (selectRegister_spec _ hgen).bind fun r hr => ?_
  obtain ⟨reg, gen⟩ := r
  cases reg with
  | none => exact (ensures_pure _ _).mpr ⟨⟨rfl, nofun, fun _ => rfl⟩, hr.2⟩
  | some d =>
    obtain ⟨hd, haccepted⟩ := mem_available.mp (hr.1 d rfl)
    simp only [decide_eq_true_eq] at haccepted
    obtain ⟨-, hsource, -, -, hdisplacement⟩ := haccepted
    refine (ensures_pure _ _).mpr ⟨⟨rfl, fun _ => h.withDestination hop hd ?_ ?_, nofun⟩, hr.2⟩
    · intro hreuse
      exact hsource.resolve_left (by rw [hreuse]; decide)
    · intro htype
      exact hdisplacement.resolve_left (not_not_intro htype)

end Selection

end VeloxHash.SuperscalarGenerator
