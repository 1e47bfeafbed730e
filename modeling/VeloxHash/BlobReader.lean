import Mathlib.Data.UInt
import VeloxHash.ReaderProgram
import VeloxHash.Varint

/-! `BlobReader<true>` over `size` bytes of a blob that start at `data`. -/

namespace VeloxHash

open ReaderProgram

/-- A stretch of the blob; nothing is read of it yet. -/
structure Span where
  data : Nat
  size : Nat
  deriving DecidableEq, Repr

structure BlobReader (data size : Nat) where
  index : Nat
  index_le : index ≤ size
  size_lt : size < 2 ^ 64

namespace BlobReader

variable {ω : Type} {data size : Nat}

/-- `m_index + n > m_size` and `m_index += n`. -/
def advance (ar : BlobReader data size) (n : UInt64) (floor : Nat) : Prog ω (BlobReader data size) :=
  .jump ⟨data, size, ar.index, n, floor, ar.index_le, ar.size_lt⟩ fun index h =>
    .pure ⟨index, h, ar.size_lt⟩

def skip (ar : BlobReader data size) (n : UInt64) : Prog ω (BlobReader data size) := ar.advance n 0

/-- The reads into an array. -/
def array (ar : BlobReader data size) (n : UInt64) :
    Prog ω (List UInt8 × BlobReader data size) := do
  let next ← ar.advance n 0
  let bytes ← .load (data + ar.index) n.toNat .pure
  return (bytes, next)

def span (ar : BlobReader data size) (n : UInt64) (floor : Nat) :
    Prog ω (Span × BlobReader data size) := do
  let next ← ar.advance n floor
  return (⟨data + ar.index, n.toNat⟩, next)

/-- The reads into a member that is a `Span`. -/
def spanTo (ar : BlobReader data size) (store : Span → ω) (n : UInt64) (floor : Nat) :
    Prog ω (BlobReader data size) := do
  let (bytes, next) ← ar.span n floor
  .tell (store bytes) (.pure next)

def getByte (ar : BlobReader data size) : Prog ω (UInt8 × BlobReader data size) :=
  if h : size ≤ ar.index then .stop .outOfRange
  else .load (data + ar.index) 1 fun bytes =>
    .pure (bytes.headD 0, ⟨ar.index + 1, Nat.lt_of_not_le h, ar.size_lt⟩)

/-- The loop of `getVarint`, with `left` bytes left to read. A shift takes its lowest six bits. -/
def getVarintLoop : (left : Nat) → BlobReader data size → (shift result : UInt64) →
    Prog ω (UInt64 × BlobReader data size)
  | 0, _, _, _ => .stop .outOfRange
  | left + 1, ar, shift, result => do
    let (t, ar) ← ar.getByte
    if t &&& 0x80 = 0 then return (result ||| (t &&& 0x7f).toUInt64 <<< shift, ar)
    getVarintLoop left ar (shift + 7) (result ||| (t &&& 0x7f).toUInt64 <<< shift)

def getVarint (ar : BlobReader data size) : Prog ω (UInt64 × BlobReader data size) :=
  getVarintLoop (size - ar.index) ar 0 0

theorem run_getByte {env : Env} (ar : BlobReader data size) (hindex : ar.index < size)
    (hin : data + size ≤ env.memory.length) : ∃ b, (ar.getByte : Prog ω _).run env =
      ⟨.ok (b, ⟨ar.index + 1, hindex, ar.size_lt⟩), [], []⟩ := by
  have hload : data + ar.index + 1 ≤ env.memory.length := by omega
  unfold getByte
  rw [dif_neg (Nat.not_le.mpr hindex), Prog.run, if_pos hload]
  exact ⟨_, rfl⟩

section Results

variable {memory : List UInt8} {allocates : Nat → Bool}

/-- The index moves modulo `2 ^ 64`. -/
theorem ends_advance_landing (ar : BlobReader data size) (n : UInt64) (floor : Nat) :
    Ends (machine memory allocates) (ar.advance n floor : Prog ω _) fun next events =>
      next.index = (ar.index + n.toNat) % 2 ^ 64 ∧ events = [] := by
  intro next hnext
  unfold advance at hnext ⊢
  rw [Prog.run, if_neg (show ¬ (machine memory allocates).refuses _ = true by simp [machine])]
    at hnext ⊢
  split at hnext
  · rename_i hin
    rw [dif_pos hin]
    exact ⟨Outcome.ok.inj hnext ▸ rfl, rfl⟩
  · cases hnext

theorem succeeds_advance (ar : BlobReader data size) {n : UInt64} (floor : Nat)
    (h : (ar.index + n.toNat) % 2 ^ 64 ≤ size) :
    Succeeds (machine memory allocates) (ar.advance n floor : Prog ω _) := by
  have hallowed : ¬ (machine memory allocates).refuses
      ⟨data, size, ar.index, n, floor, ar.index_le, ar.size_lt⟩ = true := Bool.false_ne_true
  unfold advance Succeeds
  rw [Prog.run, if_neg hallowed]
  split
  · exact ⟨_, rfl⟩
  · rename_i hout
    exact absurd h hout

theorem ends_advance (ar : BlobReader data size) {n : UInt64} (floor : Nat)
    (hsmall : size + n.toNat < 2 ^ 64) :
    Ends (machine memory allocates) (ar.advance n floor : Prog ω _) fun next events =>
      next.index = ar.index + n.toNat ∧ events = [] := by
  refine (ends_advance_landing ar n floor).mono fun next events hnext => ⟨?_, hnext.2⟩
  have hindex := ar.index_le
  rw [hnext.1, Nat.mod_eq_of_lt (by omega)]

theorem ends_span (ar : BlobReader data size) {n : UInt64} (floor : Nat)
    (hsmall : size + n.toNat < 2 ^ 64) :
    Ends (machine memory allocates) (ar.span n floor : Prog ω _) fun x events =>
      x.1 = ⟨data + ar.index, n.toNat⟩ ∧ x.2.index = ar.index + n.toNat ∧ events = [] := by
  refine (ends_advance ar floor hsmall).bind fun next events hnext => ends_pure ?_
  obtain ⟨hindex, rfl⟩ := hnext
  exact ⟨rfl, hindex, rfl⟩

theorem ends_spanTo (ar : BlobReader data size) {store : Span → ω} {n : UInt64} (floor : Nat)
    (hsmall : size + n.toNat < 2 ^ 64) :
    Ends (machine memory allocates) (ar.spanTo store n floor) fun next events =>
      next.index = ar.index + n.toNat ∧ events = [store ⟨data + ar.index, n.toNat⟩] := by
  refine (ends_span ar floor hsmall).bind fun x events hx => ?_
  obtain ⟨hspan, hindex, rfl⟩ := hx
  exact ends_tell (ends_pure ⟨hindex, hspan ▸ rfl⟩)

theorem ends_getByte (ar : BlobReader data size) :
    Ends (machine memory allocates) (ar.getByte : Prog ω _) fun x events =>
      (∃ rest, memory.drop (data + ar.index) = x.1 :: rest) ∧ x.2.index = ar.index + 1 ∧
        events = [] := by
  by_cases hend : size ≤ ar.index
  · have hstop : (ar.getByte : Prog ω _) = .stop .outOfRange := dif_pos hend
    rw [hstop]
    exact ends_halted rfl (by simp)
  · intro x hx
    unfold getByte at hx ⊢
    rw [dif_neg hend, Prog.run] at hx ⊢
    by_cases hin : data + ar.index + 1 ≤ memory.length
    · have hdrop : memory.drop (data + ar.index) =
          memory[data + ar.index] :: memory.drop (data + ar.index + 1) :=
        List.drop_eq_getElem_cons (by omega)
      rw [if_pos (show data + ar.index + 1 ≤ (machine memory allocates).memory.length from hin)]
        at hx ⊢
      obtain rfl := Outcome.ok.inj hx
      refine ⟨⟨memory.drop (data + ar.index + 1), ?_⟩, rfl, rfl⟩
      dsimp only [machine, Splice.slice]
      rw [hdrop]
      rfl
    · rw [if_neg (show ¬ data + ar.index + 1 ≤ (machine memory allocates).memory.length from hin)]
        at hx
      cases hx

/-- The length of the varint in front. -/
def varintLength : List UInt8 → Nat
  | t :: rest => if t &&& 0x80 = 0 then 1 else varintLength rest + 1
  | [] => 1

theorem ends_getVarintLoop (left : Nat) (ar : BlobReader data size) (shift result : UInt64) :
    Ends (machine memory allocates) (getVarintLoop left ar shift result : Prog ω _)
      fun x events => x.2.index = ar.index + varintLength (memory.drop (data + ar.index)) ∧
        events = [] := by
  induction left generalizing ar shift result with
  | zero => exact ends_halted rfl (by simp)
  | succ left ih =>
    refine (ends_getByte ar).bind fun ⟨t, next⟩ events h => ?_
    obtain ⟨⟨rest, hrest⟩, hindex, rfl⟩ := h
    dsimp only at hindex
    have hdrop : memory.drop (data + next.index) = rest := by
      rw [hindex, ← Nat.add_assoc, ← List.drop_drop, hrest]
      rfl
    rw [hrest, varintLength]
    dsimp only
    split
    · exact ends_pure ⟨hindex, rfl⟩
    · refine (ih next _ _).mono fun x events hx => ⟨?_, hx.2⟩
      rw [hx.1, hdrop, hindex]
      omega

theorem ends_getVarint (ar : BlobReader data size) :
    Ends (machine memory allocates) (ar.getVarint : Prog ω _) fun x events =>
      x.2.index = ar.index + varintLength (memory.drop (data + ar.index)) ∧ events = [] :=
  ends_getVarintLoop _ ar 0 0

theorem varintLength_eq (bytes : List UInt8) : varintLength bytes = Varint.size bytes := by
  induction bytes with
  | nil => rfl
  | cons t rest ih => rw [varintLength, Varint.size, ih]

theorem succeeds_getByte (ar : BlobReader data size) (hindex : ar.index < size)
    (hin : data + size ≤ memory.length) :
    Succeeds (machine memory allocates) (ar.getByte : Prog ω _) := by
  have hrun : ∃ b, (ar.getByte : Prog ω _).run (machine memory allocates) = _ :=
    run_getByte ar hindex hin
  obtain ⟨b, hrun⟩ := hrun
  exact ⟨_, congrArg Run.outcome hrun⟩

/-- A varint that ends inside is read. -/
theorem succeeds_getVarintLoop (left : Nat) (ar : BlobReader data size) (shift result : UInt64)
    (hin : data + size ≤ memory.length) (hleft : ar.index + left = size)
    (hend : Varint.size (memory.drop (data + ar.index)) ≤ left) :
    Succeeds (machine memory allocates) (getVarintLoop left ar shift result : Prog ω _) := by
  induction left generalizing ar shift result with
  | zero =>
    exfalso
    cases hdrop : memory.drop (data + ar.index) <;> rw [hdrop, Varint.size] at hend
    · omega
    · split at hend <;> omega
  | succ left ih =>
    refine (succeeds_getByte ar (by omega) hin).bind (ends_getByte ar) fun ⟨t, next⟩ events h => ?_
    obtain ⟨⟨rest, hrest⟩, hindex, -⟩ := h
    dsimp only at hrest hindex ⊢
    have hdrop : memory.drop (data + next.index) = rest := by
      rw [hindex, ← Nat.add_assoc, ← List.drop_drop, hrest]
      rfl
    rw [hrest, Varint.size] at hend
    split
    · exact succeeds_pure _
    · rename_i hhigh
      rw [if_neg hhigh] at hend
      exact ih next _ _ (by omega) (by rw [hdrop]; omega)

theorem succeeds_getVarint (ar : BlobReader data size) (hin : data + size ≤ memory.length)
    (hend : ar.index + Varint.size (memory.drop (data + ar.index)) ≤ size) :
    Succeeds (machine memory allocates) (ar.getVarint : Prog ω _) := by
  have hindex := ar.index_le
  exact succeeds_getVarintLoop _ ar 0 0 hin (by omega) (by omega)

/-- A group is set above the bits that are there. -/
theorem toNat_group (result : UInt64) (t : UInt8) {s : Nat} (hs : s < 64)
    (hresult : result.toNat < 2 ^ s) (ht : t.toNat % 128 * 2 ^ s < 2 ^ 64) :
    (result ||| (t &&& 0x7f).toUInt64 <<< UInt64.ofNat s).toNat =
      result.toNat + t.toNat % 128 * 2 ^ s := by
  have hshift : (UInt64.ofNat s).toNat % 64 = s := by
    rw [UInt64.toNat_ofNat_of_lt' (by change s < 2 ^ 64; omega), Nat.mod_eq_of_lt hs]
  rw [UInt64.toNat_or, UInt64.toNat_shiftLeft, hshift, UInt8.toNat_toUInt64, Varint.low_eq,
    Nat.shiftLeft_eq, Nat.mod_eq_of_lt ht, Nat.or_comm, Nat.mul_comm,
    ← Nat.two_pow_add_eq_or_of_lt hresult, Nat.add_comm]

/-- The shortest form of a number below `2 ^ 64` is read as the number. -/
theorem ends_getVarintLoop_encode (v left : Nat) (ar : BlobReader data size) (result : UInt64)
    {s : Nat} {rest : List UInt8} (hs : s < 64) (hv : v * 2 ^ s < 2 ^ 64)
    (hresult : result.toNat < 2 ^ s)
    (hmemory : memory.drop (data + ar.index) = Varint.encode v ++ rest) :
    Ends (machine memory allocates) (getVarintLoop left ar (UInt64.ofNat s) result : Prog ω _)
      fun x _ => x.1.toNat = result.toNat + v * 2 ^ s := by
  induction left generalizing v ar result s with
  | zero => exact ends_halted rfl (by simp)
  | succ left ih =>
    refine (ends_getByte ar).bind fun ⟨t, next⟩ events h => ?_
    obtain ⟨⟨later, hlater⟩, hindex, -⟩ := h
    dsimp only at hlater hindex ⊢
    have hdrop : memory.drop (data + next.index) = later := by
      rw [hindex, ← Nat.add_assoc, ← List.drop_drop, hlater]
      rfl
    rw [hlater] at hmemory
    by_cases hsmall : v < 128
    · rw [Varint.encode_small hsmall] at hmemory
      obtain ⟨rfl, -⟩ := List.cons.inj hmemory
      have hv' : (UInt8.ofNat v).toNat = v := Varint.toNat_small hsmall
      have hgroup := toNat_group result (UInt8.ofNat v) hs hresult
        (by rwa [hv', Nat.mod_eq_of_lt hsmall])
      rw [hv', Nat.mod_eq_of_lt hsmall] at hgroup
      rw [if_pos ((Varint.high_iff _).mpr (hv'.trans_lt hsmall))]
      exact ends_pure hgroup
    · rw [Varint.encode_large hsmall] at hmemory
      obtain ⟨rfl, hmore⟩ := List.cons.inj hmemory
      have ht := Varint.toNat_large v
      have hsplit : v % 128 * 2 ^ s + v / 128 * 2 ^ (s + 7) = v * 2 ^ s := by
        rw [pow_add, ← Nat.mul_assoc, Nat.mul_right_comm, ← Nat.add_mul]
        congr 1
        omega
      have hlow : (UInt8.ofNat (v % 128 + 128)).toNat % 128 = v % 128 := by rw [ht]; omega
      have hgroup := toNat_group result (UInt8.ofNat (v % 128 + 128)) hs hresult
        (by rw [hlow]; omega)
      rw [hlow] at hgroup
      have hnext : v % 128 * 2 ^ s + 2 ^ s ≤ 2 ^ (s + 7) := by
        rw [pow_add, ← Nat.succ_mul, Nat.mul_comm]
        exact Nat.mul_le_mul_left _ (by omega)
      have hshort : s + 7 < 64 := by
        refine (Nat.pow_lt_pow_iff_right (by decide : 1 < 2)).mp ?_
        have hone : 1 * 2 ^ (s + 7) ≤ v / 128 * 2 ^ (s + 7) := Nat.mul_le_mul_right _ (by omega)
        omega
      rw [if_neg (by rw [Varint.high_iff, ht]; omega)]
      have hshift : UInt64.ofNat s + 7 = UInt64.ofNat (s + 7) := by rw [UInt64.ofNat_add]; rfl
      rw [hshift]
      refine (ih (v / 128) next _ hshort (by omega) (by omega) (hdrop.trans hmore)).mono
        fun x _ hx => ?_
      rw [hx, hgroup]
      omega

theorem ends_getVarint_encode {v : Nat} {rest : List UInt8} (ar : BlobReader data size)
    (hv : v < 2 ^ 64) (hmemory : memory.drop (data + ar.index) = Varint.encode v ++ rest) :
    Ends (machine memory allocates) (ar.getVarint : Prog ω _) fun x _ => x.1.toNat = v := by
  refine (ends_getVarintLoop_encode v _ ar 0 (by decide) ?_ (by decide) hmemory).mono
    fun x _ hx => ?_
  · rwa [pow_zero, Nat.mul_one]
  · rw [hx, pow_zero, Nat.mul_one]
    exact Nat.zero_add v

end Results

/-- Reads are no events. -/
def Silent {α : Type} (env : Env) (p : Prog ω α) : Prop := (p.run env).events = []

section Silent

variable {env : Env} {α β : Type}

theorem Silent.bind {p : Prog ω α} {f : α → Prog ω β} (hp : Silent env p)
    (hf : ∀ a, Silent env (f a)) : Silent env (p >>= f) := by
  unfold Silent at hp hf ⊢
  rw [run_bind, Run.bind]
  split
  · rw [hp, hf]
    rfl
  all_goals exact hp

theorem silent_load (position count : Nat) :
    Silent env (.load position count .pure : Prog ω (List UInt8)) := by
  unfold Silent
  rw [Prog.run]
  split <;> rfl

theorem silent_advance (ar : BlobReader data size) (n : UInt64) (floor : Nat) :
    Silent env (ar.advance n floor : Prog ω _) := by
  unfold Silent advance
  rw [Prog.run]
  split
  · rfl
  · split <;> rfl

theorem silent_array (ar : BlobReader data size) (n : UInt64) :
    Silent env (ar.array n : Prog ω _) :=
  (silent_advance ar n 0).bind fun _ => (silent_load _ _).bind fun _ => rfl

theorem silent_span (ar : BlobReader data size) (n : UInt64) (floor : Nat) :
    Silent env (ar.span n floor : Prog ω _) := (silent_advance ar n floor).bind fun _ => rfl

theorem silent_getByte (ar : BlobReader data size) : Silent env (ar.getByte : Prog ω _) := by
  unfold Silent getByte
  split
  · rfl
  · rw [Prog.run]
    split <;> rfl

theorem silent_getVarintLoop (left : Nat) (ar : BlobReader data size) (shift result : UInt64) :
    Silent env (getVarintLoop left ar shift result : Prog ω _) := by
  induction left generalizing ar shift result with
  | zero => rfl
  | succ left ih =>
    refine (silent_getByte ar).bind fun x => ?_
    dsimp only
    split
    · rfl
    · exact ih x.2 _ _

theorem silent_getVarint (ar : BlobReader data size) : Silent env (ar.getVarint : Prog ω _) :=
  silent_getVarintLoop _ ar 0 0

end Silent

theorem Silent.ends {α : Type} {env : Env} {p : Prog ω α} (h : Silent env p) :
    Ends env p fun _ events => events = [] := fun _ _ => h

theorem ends_load {memory : List UInt8} {allocates : Nat → Bool} (position count : Nat) :
    Ends (machine memory allocates) (.load position count .pure : Prog ω _) fun bytes events =>
      bytes = Splice.slice memory position count ∧ events = [] := by
  intro bytes hbytes
  refine ⟨?_, silent_load position count⟩
  rw [Prog.run] at hbytes
  split at hbytes
  · exact (Outcome.ok.inj hbytes).symm
  · cases hbytes

theorem ends_array_bytes {memory : List UInt8} {allocates : Nat → Bool} (ar : BlobReader data size)
    {n : UInt64} (hsmall : size + n.toNat < 2 ^ 64) :
    Ends (machine memory allocates) (ar.array n : Prog ω _) fun x events =>
      x.1 = Splice.slice memory (data + ar.index) n.toNat ∧ x.2.index = ar.index + n.toNat ∧
        events = [] := by
  refine (ends_advance ar 0 hsmall).bind fun next events hnext => ?_
  obtain ⟨hindex, rfl⟩ := hnext
  refine (ends_load _ _).bind fun bytes events hbytes => ?_
  obtain ⟨hslice, rfl⟩ := hbytes
  exact ends_pure ⟨hslice, hindex, rfl⟩

theorem ends_array {memory : List UInt8} {allocates : Nat → Bool} (ar : BlobReader data size)
    {n : UInt64} (hsmall : size + n.toNat < 2 ^ 64) :
    Ends (machine memory allocates) (ar.array n : Prog ω _) fun x events =>
      x.2.index = ar.index + n.toNat ∧ events = [] :=
  (ends_array_bytes ar hsmall).mono fun _ _ h => h.2

theorem succeeds_array {memory : List UInt8} {allocates : Nat → Bool} (ar : BlobReader data size)
    {n : UInt64} (hin : data + size ≤ memory.length) (h : ar.index + n.toNat ≤ size) :
    Succeeds (machine memory allocates) (ar.array n : Prog ω _) := by
  have hsize := ar.size_lt
  refine (succeeds_advance ar 0 ?_).bind (ends_advance_landing ar n 0) fun next _ _ => ?_
  · rw [Nat.mod_eq_of_lt (by omega)]
    exact h
  refine Succeeds.bind ?_ (ends_load _ _) fun bytes _ _ => succeeds_pure _
  have hload : data + ar.index + n.toNat ≤ (machine memory allocates).memory.length := by
    change data + ar.index + n.toNat ≤ memory.length
    omega
  unfold Succeeds
  rw [Prog.run, if_pos hload]
  exact ⟨_, rfl⟩

section Bounds

variable {memory : List UInt8} {allocates : Nat → Bool} {P : ω → Prop}

theorem safe_advance (hin : data + size ≤ memory.length) (ar : BlobReader data size) (n : UInt64)
    (floor : Nat) : Safe memory allocates P (ar.advance n floor) fun next =>
      next.index = ar.index + n.toNat :=
  Safe.jump hin fun _ _ he => Safe.pure he

theorem safe_array (hin : data + size ≤ memory.length) (ar : BlobReader data size) (n : UInt64) :
    Safe memory allocates P (ar.array n) fun x => ar.index ≤ x.2.index := by
  refine (safe_advance hin ar n 0).bind fun next hnext => ?_
  have hle := next.index_le
  exact Safe.load (by omega) fun bytes => Safe.pure (by dsimp only; omega)

theorem safe_span (hin : data + size ≤ memory.length) (ar : BlobReader data size) (n : UInt64)
    (floor : Nat) : Safe memory allocates P (ar.span n floor) fun x =>
      x.1.data + x.1.size ≤ memory.length ∧ x.1.size = n.toNat ∧ ar.index ≤ x.2.index := by
  refine (safe_advance hin ar n floor).bind fun next hnext => Safe.pure ⟨?_, rfl, ?_⟩
  · have hle := next.index_le
    change data + ar.index + n.toNat ≤ memory.length
    omega
  · change ar.index ≤ next.index
    omega

theorem safe_spanTo (hin : data + size ≤ memory.length) (ar : BlobReader data size)
    {store : Span → ω} (hstore : ∀ s : Span, s.data + s.size ≤ memory.length → P (store s))
    (n : UInt64) (floor : Nat) :
    Safe memory allocates P (ar.spanTo store n floor) fun next => ar.index ≤ next.index :=
  (safe_span hin ar n floor).bind fun x hx => Safe.tell (hstore x.1 hx.1) (Safe.pure hx.2.2)

theorem safe_getByte (hin : data + size ≤ memory.length) (ar : BlobReader data size) :
    Safe memory allocates P ar.getByte fun x => x.2.index = ar.index + 1 := by
  unfold getByte
  split
  · exact Safe.stop _
  · exact Safe.load (by omega) fun bytes => Safe.pure rfl

theorem safe_getVarintLoop (hin : data + size ≤ memory.length) (left : Nat)
    (ar : BlobReader data size) (shift result : UInt64) :
    Safe memory allocates P (getVarintLoop left ar shift result) fun x => ar.index < x.2.index := by
  induction left generalizing ar shift result with
  | zero => exact Safe.stop _
  | succ left ih =>
    refine (safe_getByte hin ar).bind fun x hx => ?_
    dsimp only
    split
    · exact Safe.pure (by dsimp only; omega)
    · exact (ih x.2 _ _).mono fun y hy => by omega

theorem safe_getVarint (hin : data + size ≤ memory.length) (ar : BlobReader data size) :
    Safe memory allocates P ar.getVarint fun x => ar.index < x.2.index :=
  safe_getVarintLoop hin _ ar 0 0

end Bounds

section Progress

variable {memory : List UInt8} {allocates : Nat → Bool} {bad : ω → Prop} {enough : Prop}

/-- A jump without a floor. -/
theorem climbs_skip (ar : BlobReader data size) (n : UInt64) :
    Climbs memory allocates bad enough (ar.advance n 0) fun next =>
      size + n.toNat < 2 ^ 64 → ar.index ≤ next.index := by
  refine Climbs.jump (Nat.zero_le _) (fun e he h => absurd h (Nat.not_lt_zero e))
    (fun e he _ htarget => Climbs.pure fun hsmall => ?_)
    (fun e he h => absurd h (Nat.not_lt_zero e))
  have hin := ar.index_le
  have hlands := htarget (decide_eq_false (by dsimp only [Jump.target]; omega))
  exact (Nat.le_add_right ..).trans hlands.ge

theorem climbs_array (ar : BlobReader data size) (n : UInt64) :
    Climbs memory allocates bad enough (ar.array n) fun _ => True :=
  (climbs_skip ar n).bind fun _ _ => Climbs.load fun _ => Climbs.pure trivial

theorem climbs_span (ar : BlobReader data size) (n : UInt64) :
    Climbs memory allocates bad enough (ar.span n 0) fun x =>
      size + n.toNat < 2 ^ 64 → ar.index ≤ x.2.index :=
  (climbs_skip ar n).bind fun _ hnext => Climbs.pure hnext

theorem climbs_spanTo (ar : BlobReader data size) {store : Span → ω}
    (hstore : ∀ s, ¬ bad (store s)) (n : UInt64) :
    Climbs memory allocates bad enough (ar.spanTo store n 0) fun _ => True :=
  (climbs_span ar n).bind fun x _ => Climbs.tell (hstore x.1) (Climbs.pure trivial)

theorem climbs_getByte (ar : BlobReader data size) :
    Climbs memory allocates bad enough ar.getByte fun x => x.2.index = ar.index + 1 := by
  unfold getByte
  split
  · exact Climbs.stop fun _ => nofun
  · exact Climbs.load fun _ => Climbs.pure rfl

theorem climbs_getVarintLoop (left : Nat) (ar : BlobReader data size) (shift result : UInt64) :
    Climbs memory allocates bad enough (getVarintLoop left ar shift result) fun x =>
      ar.index < x.2.index := by
  induction left generalizing ar shift result with
  | zero => exact Climbs.stop fun _ => nofun
  | succ left ih =>
    refine (climbs_getByte ar).bind fun x hx => ?_
    dsimp only
    split
    · exact Climbs.pure (by dsimp only; omega)
    · exact (ih x.2 _ _).mono id fun y hy => by omega

theorem climbs_getVarint (ar : BlobReader data size) :
    Climbs memory allocates bad enough ar.getVarint fun x => ar.index < x.2.index :=
  climbs_getVarintLoop _ ar 0 0

/-- The jump that ends a round, with what is left of the round. -/
theorem climbs_advance {α : Type} (ar : BlobReader data size) (n : UInt64) {floor : Nat}
    {rest : BlobReader data size → Prog ω α} (hfloor : floor ≤ ar.index)
    (hfall : ∀ next : BlobReader data size, next.index < floor →
      ∃ event ∈ ((rest next).run (machine memory allocates)).events, bad event)
    (hclimb : ∀ next : BlobReader data size, floor ≤ next.index →
      Climbs memory allocates bad enough (rest next) fun _ => True) :
    Climbs memory allocates bad enough (ar.advance n floor >>= rest) fun _ => True :=
  Climbs.jump hfloor (fun e he h => hfall ⟨e, he, ar.size_lt⟩ h)
    (fun e he h _ => hclimb ⟨e, he, ar.size_lt⟩ h) fun _ _ _ _ _ => trivial

end Progress

end BlobReader

end VeloxHash
