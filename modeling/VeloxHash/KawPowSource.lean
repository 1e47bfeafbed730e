import VeloxHash.KPHash
import VeloxHash.WordArithmetic

/-! The OpenCL program that `KawPowBuilder` writes for a period, and that its statements compute
what `KPHash` computes. The two markers of the kernel are replaced by the two lists of
statements. -/

namespace VeloxHash.KawPowSource

open KPHash WordArithmetic

/-- The variables of the kernel that statements assign. -/
inductive Var
  | mix (i : Nat)
  | data
  | offset
  deriving DecidableEq

inductive Expr
  | var (v : Var)
  | dataDag (i : Nat)
  | cDag
  | cacheWords
  | num (n : Nat)
  | paren (a : Expr)
  | add (a b : Expr)
  | mul (a b : Expr)
  | xor (a b : Expr)
  | and (a b : Expr)
  | or (a b : Expr)
  | mod (a b : Expr)
  | mulHi (a b : Expr)
  | min (a b : Expr)
  | rotl32 (a b : Expr)
  | rotr32 (a b : Expr)
  | clz (a : Expr)
  | popcount (a : Expr)
  deriving DecidableEq

structure Stmt where
  target : Var
  value : Expr
  deriving DecidableEq

section Text

def Var.text : Var → String
  | mix i => "mix[" ++ toString i ++ "]"
  | data => "data"
  | offset => "offset"

def Expr.text : Expr → String
  | var v => v.text
  | dataDag i => "data_dag.s[" ++ toString i ++ "]"
  | cDag => "c_dag[offset]"
  | cacheWords => "PROGPOW_CACHE_WORDS"
  | num n => toString n
  | paren a => "(" ++ a.text ++ ")"
  | add a b => a.text ++ " + " ++ b.text
  | mul a b => a.text ++ " * " ++ b.text
  | xor a b => a.text ++ " ^ " ++ b.text
  | and a b => a.text ++ " & " ++ b.text
  | or a b => a.text ++ " | " ++ b.text
  | mod a b => a.text ++ " % " ++ b.text
  | mulHi a b => "mul_hi(" ++ a.text ++ ", " ++ b.text ++ ")"
  | min a b => "min(" ++ a.text ++ ", " ++ b.text ++ ")"
  | rotl32 a b => "ROTL32(" ++ a.text ++ ", " ++ b.text ++ ")"
  | rotr32 a b => "ROTR32(" ++ a.text ++ ", " ++ b.text ++ ")"
  | clz a => "clz(" ++ a.text ++ ")"
  | popcount a => "popcount(" ++ a.text ++ ")"

def Stmt.text (s : Stmt) : String := s.target.text ++ " = " ++ s.value.text ++ ";\n"

end Text

/-- What a work item has in reach: the cache and the words of its part of the DAG item. -/
structure Env where
  cache : Nat → UInt32
  dag : Nat → UInt32

structure Item where
  mix : Lane
  data : UInt32
  offset : UInt32

section Meaning

variable (env : Env) (s : Item)

def Var.eval : Var → UInt32
  | mix i => s.mix.getD i 0
  | data => s.data
  | offset => s.offset

/-- The functions of OpenCL, and the macros for rotations, have their standard meaning. -/
def Expr.eval : Expr → UInt32
  | var v => v.eval s
  | dataDag i => env.dag i
  | cDag => env.cache s.offset.toNat
  | cacheWords => 4096
  | num n => UInt32.ofNat n
  | paren a => a.eval
  | add a b => a.eval + b.eval
  | mul a b => a.eval * b.eval
  | xor a b => a.eval ^^^ b.eval
  | and a b => a.eval &&& b.eval
  | or a b => a.eval ||| b.eval
  | mod a b => a.eval % b.eval
  | mulHi a b => UInt32.ofNat (a.eval.toNat * b.eval.toNat / 2 ^ 32)
  | min a b => if a.eval ≤ b.eval then a.eval else b.eval
  | rotl32 a b => ⟨a.eval.toBitVec.rotateLeft b.eval.toNat⟩
  | rotr32 a b => ⟨a.eval.toBitVec.rotateRight b.eval.toNat⟩
  | clz a => ⟨a.eval.toBitVec.clz⟩
  | popcount a => UInt32.ofNat (PopulationCount.ones 32 a.eval.toNat)

def Stmt.exec (stmt : Stmt) : Item :=
  match stmt.target with
  | .mix i => { s with mix := s.mix.set i (stmt.value.eval env s) }
  | .data => { s with data := stmt.value.eval env s }
  | .offset => { s with offset := stmt.value.eval env s }

def run (stmts : List Stmt) : Item := stmts.foldl (fun s stmt => stmt.exec env s) s

end Meaning

section Builder

def fnv1a (h d : UInt32) : UInt32 := (h ^^^ d) * 0x1000193

def kiss99 (st : Kiss99) : UInt32 × Kiss99 :=
  let z := (36969 : UInt32) * (st.z &&& (65535 : UInt32)) + st.z >>> 16
  let w := (18000 : UInt32) * (st.w &&& (65535 : UInt32)) + st.w >>> 16
  let mwc := z <<< 16 + w
  let jsr := st.jsr ^^^ st.jsr <<< 17
  let jsr := jsr ^^^ jsr >>> 13
  let jsr := jsr ^^^ jsr <<< 5
  let jcong := 69069 * st.jcong + 1234567
  ((mwc ^^^ jcong) + jsr, ⟨z, w, jsr, jcong⟩)

def merge (a : Var) (b : Expr) (r : UInt32) : Stmt :=
  let x := Expr.num (((r >>> 16) % 31) + 1).toNat
  match r % 4 with
  | 0 => ⟨a, .add (.paren (.mul (.var a) (.num 33))) b⟩
  | 1 => ⟨a, .mul (.paren (.xor (.var a) b)) (.num 33)⟩
  | 2 => ⟨a, .xor (.rotl32 (.var a) x) b⟩
  | _ => ⟨a, .xor (.rotr32 (.var a) x) b⟩

def math (d : Var) (a b : Expr) (r : UInt32) : Stmt :=
  match r % 11 with
  | 0 => ⟨d, .add a b⟩
  | 1 => ⟨d, .mul a b⟩
  | 2 => ⟨d, .mulHi a b⟩
  | 3 => ⟨d, .min a b⟩
  | 4 => ⟨d, .rotl32 a (.mod b (.num 32))⟩
  | 5 => ⟨d, .rotr32 a (.mod b (.num 32))⟩
  | 6 => ⟨d, .and a b⟩
  | 7 => ⟨d, .or a b⟩
  | 8 => ⟨d, .xor a b⟩
  | 9 => ⟨d, .add (.clz a) (.clz b)⟩
  | _ => ⟨d, .add (.popcount a) (.popcount b)⟩

/-- The loop that shuffles, from `i` down to 1. -/
def shuffle : Nat → Program → Program
  | 0, p => p
  | i + 1, p =>
    let (r, rnd) := kiss99 p.rnd
    let dst := swap p.dst (i + 1) (r.toNat % (i + 1 + 1))
    let (r, rnd) := kiss99 rnd
    let src := swap p.src (i + 1) (r.toNat % (i + 1 + 1))
    shuffle i ⟨dst, src, rnd⟩

def rndState (progSeed : UInt64) : Kiss99 :=
  let seed₀ := progSeed.toUInt32
  let seed₁ := (progSeed >>> 32).toUInt32
  let z := fnv1a 0x811C9DC5 seed₀
  let w := fnv1a z seed₁
  let jsr := fnv1a w seed₀
  ⟨z, w, jsr, fnv1a jsr seed₁⟩

structure Builder where
  rnd : Kiss99
  mixSeqDstCnt : Nat := 0
  mixSeqCacheCnt : Nat := 0
  ret : List Stmt := []

variable (p : Program)

def cacheLoad (g : Builder) : Builder :=
  let src := p.src.getD (g.mixSeqCacheCnt % regs) 0
  let dest := p.dst.getD (g.mixSeqDstCnt % regs) 0
  let (r, rnd) := kiss99 g.rnd
  { rnd
    mixSeqCacheCnt := g.mixSeqCacheCnt + 1
    mixSeqDstCnt := g.mixSeqDstCnt + 1
    ret := g.ret ++
      [⟨.offset, .mod (.var (.mix src)) .cacheWords⟩, ⟨.data, .cDag⟩,
        merge (.mix dest) (.var .data) r] }

def randomMath (g : Builder) : Builder :=
  let (r, rnd) := kiss99 g.rnd
  let srcRnd := r.toNat % ((regs - 1) * regs)
  let src₁ := srcRnd % regs
  let src₂ := srcRnd / regs
  let src₂ := if src₂ ≥ src₁ then src₂ + 1 else src₂
  let (r₁, rnd) := kiss99 rnd
  let dest := p.dst.getD (g.mixSeqDstCnt % regs) 0
  let (r₂, rnd) := kiss99 rnd
  { g with
    rnd
    mixSeqDstCnt := g.mixSeqDstCnt + 1
    ret := g.ret ++
      [math .data (.var (.mix src₁)) (.var (.mix src₂)) r₁, merge (.mix dest) (.var .data) r₂] }

def mathLoop (g : Builder) (i : Nat) : Builder :=
  let g := if i < cntCache then cacheLoad p g else g
  if i < cntMath then randomMath p g else g

/-- The merges of the DAG words behind the first one. -/
def dataLoad (g : Builder) (i : Nat) : Builder :=
  let dest := p.dst.getD (g.mixSeqDstCnt % regs) 0
  let (r, rnd) := kiss99 g.rnd
  { g with
    rnd
    mixSeqDstCnt := g.mixSeqDstCnt + 1
    ret := g.ret ++ [merge (.mix dest) (.dataDag i) r] }

/-- What replaces the two markers of the kernel. -/
structure Source where
  randomMath : List Stmt
  dataLoads : List Stmt

def getSource (progSeed : UInt64) : Source :=
  let p := shuffle (regs - 1) ⟨List.range regs, List.range regs, rndState progSeed⟩
  let g := (List.range (max cntCache cntMath)).foldl (mathLoop p) { rnd := p.rnd }
  let (r, rnd) := kiss99 g.rnd
  let first : Builder := { g with rnd, ret := [merge (.mix 0) (.dataDag 0) r] }
  let last := (List.range' 1 (numWordsPerLane - 1)).foldl (dataLoad p) first
  ⟨g.ret, last.ret⟩

end Builder

section Functions

theorem toNat_rotation (c : UInt32) :
    (c &&& 31).toNat = c.toNat % 32 ∧ ((0 - (c &&& 31)) &&& 31).toNat = (32 - c.toNat % 32) % 32 := by
  have hmask (x : UInt32) : (x &&& 31).toNat = x.toNat % 32 := by
    rw [UInt32.toNat_and]
    exact Nat.and_two_pow_sub_one_eq_mod x.toNat 5
  refine ⟨hmask c, ?_⟩
  rw [hmask, UInt32.toNat_sub, hmask, UInt32.toNat_zero]
  omega

theorem rotl_toBitVec (n c : UInt32) : (rotl n c).toBitVec = n.toBitVec.rotateLeft c.toNat := by
  obtain ⟨hshift, hback⟩ := toNat_rotation c
  apply BitVec.eq_of_toNat_eq
  rw [BitVec.toNat_rotateLeft]
  change (n <<< (c &&& 31) ||| n >>> (0 - (c &&& 31) &&& 31)).toNat = _
  rw [UInt32.toNat_or, UInt32.toNat_shiftLeft, UInt32.toNat_shiftRight, hshift, hback, Nat.mod_mod,
    Nat.mod_mod]
  exact rotation_halves n.toNat (c.toNat % 32) n.toNat_lt (Nat.mod_lt _ (by decide))

theorem rotr_toBitVec (n c : UInt32) : (rotr n c).toBitVec = n.toBitVec.rotateRight c.toNat := by
  obtain ⟨hshift, hback⟩ := toNat_rotation c
  apply BitVec.eq_of_toNat_eq
  rw [BitVec.toNat_rotateRight]
  change (n >>> (c &&& 31) ||| n <<< (0 - (c &&& 31) &&& 31)).toNat = _
  rw [UInt32.toNat_or, UInt32.toNat_shiftLeft, UInt32.toNat_shiftRight, hshift, hback, Nat.mod_mod,
    Nat.mod_mod]
  exact rotation_halves_right n.toNat (c.toNat % 32) n.toNat_lt (Nat.mod_lt _ (by decide))

theorem builtinClz_toBitVec {a : UInt32} (h : a ≠ 0) :
    (builtinClz a).toBitVec = a.toBitVec.clz := by
  have hne : a.toBitVec ≠ 0#32 := fun heq => h (UInt32.toBitVec_inj.mp heq)
  have hlow := BitVec.two_pow_sub_clz_le_toNat_of_ne_zero (by decide : 0 < 32) hne
  have hhigh := @BitVec.toNat_lt_two_pow_sub_clz 32 a.toBitVec
  have hlt : a.toBitVec.clz.toNat < 32 := BitVec.lt_def.mp (BitVec.clz_lt_iff_ne_zero.mpr hne)
  have hlog : a.toNat.log2 = 31 - a.toBitVec.clz.toNat := by
    refine (Nat.log2_eq_iff (fun hzero => hne (BitVec.eq_of_toNat_eq hzero))).mpr ⟨hlow, ?_⟩
    rw [show 31 - a.toBitVec.clz.toNat + 1 = 32 - a.toBitVec.clz.toNat by omega]
    exact hhigh
  apply BitVec.eq_of_toNat_eq
  change (builtinClz a).toNat = _
  rw [builtinClz, hlog, UInt32.toNat_ofNat_of_lt' (Nat.lt_of_le_of_lt (Nat.sub_le _ _) (by decide))]
  omega

theorem clz_toBitVec (a : UInt32) : (clz a).toBitVec = a.toBitVec.clz := by
  unfold clz
  split
  · next h => exact builtinClz_toBitVec h
  · next h =>
    rw [not_not.mp h]
    rfl

/-- None of the stages goes beyond the word. -/
theorem popcountSoft_stages (x : UInt64) : popcountSoft x =
    UInt32.ofNat (PopulationCount.counts 8 x.toNat * PopulationCount.fill 1 8 % 2 ^ 64 / 2 ^ 56) := by
  have hpairs : (x - (x >>> 1 &&& 0x5555555555555555)).toNat =
      PopulationCount.pairs (PopulationCount.fill 0x55 8) x.toNat := by
    have hle : x >>> 1 &&& 0x5555555555555555 ≤ x := by
      rw [UInt64.le_iff_toNat_le, UInt64.toNat_and, UInt64.toNat_shiftRight]
      exact Nat.and_le_left.trans (Nat.shiftRight_le _ _)
    rw [UInt64.toNat_sub_of_le _ _ hle, UInt64.toNat_and, UInt64.toNat_shiftRight]
    rfl
  obtain ⟨y, hy⟩ : ∃ y, y = x - (x >>> 1 &&& 0x5555555555555555) := ⟨_, rfl⟩
  rw [← hy] at hpairs
  have hbound (a : Nat) : a &&& 0x3333333333333333 ≤ 0x3333333333333333 := Nat.and_le_right
  have hnibbles : ((y &&& (0x3333333333333333 : UInt64)) +
        (y >>> 2 &&& (0x3333333333333333 : UInt64))).toNat =
      PopulationCount.nibbles (PopulationCount.fill 0x33 8) y.toNat ∧
        PopulationCount.nibbles (PopulationCount.fill 0x33 8) y.toNat ≤ 0x6666666666666666 := by
    have hfill : PopulationCount.fill 0x33 8 = 0x3333333333333333 := rfl
    have hle := hbound y.toNat
    have hle' := hbound (y.toNat >>> 2)
    unfold PopulationCount.nibbles
    rw [hfill, UInt64.toNat_add, UInt64.toNat_and, UInt64.toNat_and, UInt64.toNat_shiftRight]
    change ((y.toNat &&& 0x3333333333333333) + (y.toNat >>> 2 &&& 0x3333333333333333)) % 2 ^ 64 = _ ∧ _
    omega
  obtain ⟨z, hz⟩ : ∃ z, z = (y &&& (0x3333333333333333 : UInt64)) +
      (y >>> 2 &&& (0x3333333333333333 : UInt64)) := ⟨_, rfl⟩
  rw [← hz] at hnibbles
  have hbytes : ((z + z >>> 4) &&& 0x0F0F0F0F0F0F0F0F).toNat =
      PopulationCount.bytes (PopulationCount.fill 0x0F 8) z.toNat := by
    have hshift : z.toNat >>> 4 ≤ z.toNat := Nat.shiftRight_le _ _
    have hright : (z >>> 4).toNat = z.toNat >>> 4 := UInt64.toNat_shiftRight z 4
    have hsum : (z + z >>> 4).toNat = z.toNat + z.toNat >>> 4 := by
      rw [UInt64.toNat_add, hright]
      exact Nat.mod_eq_of_lt (by omega)
    rw [UInt64.toNat_and, hsum]
    rfl
  unfold popcountSoft
  dsimp only
  rw [← hy, ← hz]
  apply UInt32.toNat_inj.mp
  have hplace : (56 : UInt64).toNat % 64 = 56 := rfl
  rw [UInt64.toNat_toUInt32, UInt64.toNat_shiftRight, UInt64.toNat_mul, hbytes, hnibbles.1, hpairs,
    hplace, Nat.shiftRight_eq_div_pow, UInt32.toNat_ofNat']
  rfl

theorem popcountSoft_eq (a : UInt32) : popcountSoft a.toUInt64 = popcount a := by
  rw [popcountSoft_stages, UInt32.toNat_toUInt64, PopulationCount.sum_counts a.toNat_lt]
  rfl

end Functions

section Statements

variable {env : Env} {s : Item} {hasPopcnt : Bool}

theorem run_append (env : Env) (s : Item) (before after : List Stmt) :
    run env s (before ++ after) = run env (run env s before) after := List.foldl_append

theorem merge_target (a : Var) (b : Expr) (r : UInt32) : (merge a b r).target = a := by
  unfold merge
  dsimp only
  split <;> rfl

theorem math_target (d : Var) (a b : Expr) (r : UInt32) : (math d a b r).target = d := by
  unfold math
  split <;> rfl

theorem mod_four_cases (r : UInt32) : r % 4 = 0 ∨ r % 4 = 1 ∨ r % 4 = 2 ∨ r % 4 = 3 := by
  have hlt : r.toNat % 4 < 4 := Nat.mod_lt _ (by decide)
  simp only [← UInt32.toNat_inj, UInt32.toNat_mod, UInt32.reduceToNat]
  omega

theorem mod_eleven_cases (r : UInt32) : r % 11 = 0 ∨ r % 11 = 1 ∨ r % 11 = 2 ∨ r % 11 = 3 ∨
    r % 11 = 4 ∨ r % 11 = 5 ∨ r % 11 = 6 ∨ r % 11 = 7 ∨ r % 11 = 8 ∨ r % 11 = 9 ∨ r % 11 = 10 := by
  have hlt : r.toNat % 11 < 11 := Nat.mod_lt _ (by decide)
  simp only [← UInt32.toNat_inj, UInt32.toNat_mod, UInt32.reduceToNat]
  omega

theorem rotateLeft_eq (a x : UInt32) : (⟨a.toBitVec.rotateLeft x.toNat⟩ : UInt32) = rotl a x :=
  UInt32.toBitVec_inj.mp (rotl_toBitVec a x).symm

theorem rotateRight_eq (a x : UInt32) : (⟨a.toBitVec.rotateRight x.toNat⟩ : UInt32) = rotr a x :=
  UInt32.toBitVec_inj.mp (rotr_toBitVec a x).symm

/-- The number of a rotation is the one that `random_merge` has. -/
theorem merge_value (a : Var) (b : Expr) (r : UInt32) :
    (merge a b r).value.eval env s = randomMerge (a.eval s) (b.eval env s) r := by
  have hnum : UInt32.ofNat ((r >>> 16) % 31 + 1).toNat = (r >>> 16) % 31 + 1 := UInt32.ofNat_toNat
  unfold merge randomMerge
  dsimp only
  rcases mod_four_cases r with h | h | h | h <;> rw [h]
  · rfl
  · rfl
  · change (⟨BitVec.rotateLeft _ (UInt32.ofNat _).toNat⟩ : UInt32) ^^^ _ = _
    rw [hnum, rotateLeft_eq]
    rfl
  · change (⟨BitVec.rotateRight _ (UInt32.ofNat _).toNat⟩ : UInt32) ^^^ _ = _
    rw [hnum, rotateRight_eq]
    rfl

theorem rotl_mod (a n : UInt32) : rotl a (n % 32) = rotl a n := by
  rw [← rotateLeft_eq, ← rotateLeft_eq, UInt32.toNat_mod]
  exact congrArg UInt32.ofBitVec BitVec.rotateLeft_mod_eq_rotateLeft

theorem rotr_mod (a n : UInt32) : rotr a (n % 32) = rotr a n := by
  rw [← rotateRight_eq, ← rotateRight_eq, UInt32.toNat_mod]
  exact congrArg UInt32.ofBitVec BitVec.rotateRight_mod_eq_rotateRight

theorem mulHi_eq (a b : UInt32) : UInt32.ofNat (a.toNat * b.toNat / 2 ^ 32) =
    ((a.toUInt64 * b.toUInt64) >>> 32).toUInt32 := by
  have hplace : (32 : UInt64).toNat % 64 = 32 := rfl
  have hlt : a.toNat * b.toNat < 2 ^ 64 :=
    (Nat.mul_lt_mul'' a.toNat_lt b.toNat_lt).trans_eq (by norm_num)
  apply UInt32.toNat_inj.mp
  rw [UInt64.toNat_toUInt32, UInt64.toNat_shiftRight, UInt64.toNat_mul, UInt32.toNat_toUInt64,
    UInt32.toNat_toUInt64, hplace, Nat.shiftRight_eq_div_pow, Nat.mod_eq_of_lt hlt,
    UInt32.toNat_ofNat']

theorem min_eq (a b : UInt32) : (if a ≤ b then a else b) = if a < b then a else b := by
  split_ifs with hle hlt hlt
  · rfl
  · exact UInt32.le_antisymm hle (UInt32.not_lt.mp hlt)
  · exact absurd (UInt32.le_of_lt hlt) hle
  · rfl

/-- A statement of random math computes what `random_math` does, whichever way this counts bits. -/
theorem math_value (d : Var) (a b : Expr) (r : UInt32) (hasPopcnt : Bool) :
    (math d a b r).value.eval env s =
      KPHash.randomMath (a.eval env s) (b.eval env s) r hasPopcnt := by
  unfold math KPHash.randomMath
  rcases mod_eleven_cases r with h | h | h | h | h | h | h | h | h | h | h <;> rw [h]
  · rfl
  · rfl
  · exact mulHi_eq _ _
  · exact min_eq _ _
  · exact (rotateLeft_eq _ _).trans (rotl_mod _ _)
  · exact (rotateRight_eq _ _).trans (rotr_mod _ _)
  · rfl
  · rfl
  · rfl
  · have hclz (x : UInt32) : (⟨x.toBitVec.clz⟩ : UInt32) = clz x :=
      UInt32.toBitVec_inj.mp (clz_toBitVec x).symm
    change (⟨BitVec.clz _⟩ : UInt32) + ⟨BitVec.clz _⟩ = _
    rw [hclz, hclz]
    rfl
  · change popcount _ + popcount _ = if hasPopcnt then _ else _
    rw [popcountSoft_eq, popcountSoft_eq, ite_self]

/-- What `calculate` does to one lane; the lane's part of the item is in `env`. -/
def perform (hasPopcnt : Bool) (env : Env) (lane : Lane) : Operation → Lane
  | .load src dst sel =>
    mergeInto lane dst (env.cache ((lane.getD src 0).toNat % l1CacheNumItems)) sel
  | .math src₁ src₂ sel₁ dst sel₂ =>
    mergeInto lane dst (KPHash.randomMath (lane.getD src₁ 0) (lane.getD src₂ 0) sel₁ hasPopcnt) sel₂
  | .merge word dst sel => mergeInto lane dst (env.dag word) sel

/-- The statements that the builder writes for an operation. -/
def statements : Operation → List Stmt
  | .load src dst sel =>
    [⟨.offset, .mod (.var (.mix src)) .cacheWords⟩, ⟨.data, .cDag⟩,
      merge (.mix dst) (.var .data) sel]
  | .math src₁ src₂ sel₁ dst sel₂ =>
    [math .data (.var (.mix src₁)) (.var (.mix src₂)) sel₁, merge (.mix dst) (.var .data) sel₂]
  | .merge word dst sel => [merge (.mix dst) (.dataDag word) sel]

theorem merge_exec (dst : Nat) (b : Expr) (r : UInt32) :
    (merge (.mix dst) b r).exec env s = { s with mix := mergeInto s.mix dst (b.eval env s) r } := by
  unfold Stmt.exec
  rw [merge_target, merge_value]
  rfl

theorem math_exec (a b : Expr) (r : UInt32) (hasPopcnt : Bool) :
    (math .data a b r).exec env s =
      { s with data := KPHash.randomMath (a.eval env s) (b.eval env s) r hasPopcnt } := by
  unfold Stmt.exec
  rw [math_target, math_value _ _ _ _ hasPopcnt]

/-- The statements of an operation do to a lane what the operation does. -/
theorem run_statements (hasPopcnt : Bool) (op : Operation) :
    (run env s (statements op)).mix = perform hasPopcnt env s.mix op := by
  cases op with
  | load src dst sel =>
    unfold statements run
    rw [List.foldl_cons, List.foldl_cons, List.foldl_cons, List.foldl_nil, merge_exec]
    rfl
  | math src₁ src₂ sel₁ dst sel₂ =>
    unfold statements run
    rw [List.foldl_cons, List.foldl_cons, List.foldl_nil, merge_exec,
      math_exec _ _ _ hasPopcnt]
    rfl
  | merge word dst sel =>
    unfold statements run
    rw [List.foldl_cons, List.foldl_nil, merge_exec]
    rfl

theorem run_flatMap (hasPopcnt : Bool) (ops : List Operation) (s : Item) :
    (run env s (ops.flatMap statements)).mix = ops.foldl (perform hasPopcnt env) s.mix := by
  induction ops generalizing s with
  | nil => rfl
  | cons op ops ih =>
    rw [List.flatMap_cons, run_append, ih, run_statements hasPopcnt, List.foldl_cons]

end Statements

section Agreement

variable {m : Machine} {p : Program} {mix : Mix} {env : Nat → Env} {s : Access} {g : Builder}

theorem kiss99_eq (st : Kiss99) : kiss99 st = KPHash.kiss99 st := rfl

theorem rndState_eq (height : UInt32) :
    rndState (height.toUInt64 / 3) = seed (height / periodLength) := by
  have hlow : (height.toUInt64 / 3).toUInt32 = height / 3 := by
    apply UInt32.toNat_inj.mp
    rw [UInt64.toNat_toUInt32, UInt64.toNat_div, UInt32.toNat_div, UInt32.toNat_toUInt64]
    exact Nat.mod_eq_of_lt ((Nat.div_le_self _ _).trans_lt height.toNat_lt)
  have hhigh : ((height.toUInt64 / 3) >>> 32).toUInt32 = 0 := by
    apply UInt32.toNat_inj.mp
    have hplace : (32 : UInt64).toNat % 64 = 32 := rfl
    rw [UInt64.toNat_toUInt32, UInt64.toNat_shiftRight, UInt64.toNat_div, UInt32.toNat_toUInt64,
      hplace, Nat.shiftRight_eq_div_pow,
      Nat.div_eq_of_lt ((Nat.div_le_self _ _).trans_lt height.toNat_lt)]
    rfl
  unfold rndState
  rw [hlow, hhigh]
  rfl

theorem shuffle_eq (i : Nat) (p : Program) : shuffle i p = KPHash.shuffle (i + 1) p := by
  induction i generalizing p with
  | zero => rfl
  | succ i ih => exact ih _

/-- Both stand at the same place of the random numbers and of the two sequences, and have written
or performed the same operations. -/
structure Agrees (m : Machine) (env : Nat → Env) (mix : Mix) (s : Access) (g : Builder) : Prop where
  rnd : g.rnd = s.rnd
  dst : g.mixSeqDstCnt = s.dstCounter
  src : g.mixSeqCacheCnt = s.srcCounter
  ret : g.ret = s.performed.flatMap statements
  mix : s.mix = mix.mapIdx fun l lane => s.performed.foldl (perform m.hasPopcnt (env l)) lane

theorem mapIdx_perform (ops : List Operation) (op : Operation) :
    (mix.mapIdx fun l lane => (ops ++ [op]).foldl (perform m.hasPopcnt (env l)) lane) =
      (mix.mapIdx fun l lane => ops.foldl (perform m.hasPopcnt (env l)) lane).mapIdx
        fun l lane => perform m.hasPopcnt (env l) lane op := by
  rw [List.mapIdx_mapIdx]
  simp only [List.foldl_append, List.foldl_cons, List.foldl_nil]
  rfl

theorem map_eq_mapIdx {α β : Type} (f : α → β) (as : List α) : as.map f = as.mapIdx fun _ => f :=
  List.ext_getElem (by rw [List.length_map, List.length_mapIdx]) fun i hi hi' => by
    rw [List.getElem_map, List.getElem_mapIdx]

/-- One operation more on both sides. -/
theorem performed_mix {op : Operation} (h : Agrees m env mix s g) {f : Lane → Lane}
    (hop : ∀ l lane, perform m.hasPopcnt (env l) lane op = f lane) :
    s.mix.map f = mix.mapIdx fun l lane =>
      (s.performed ++ [op]).foldl (perform m.hasPopcnt (env l)) lane := by
  rw [mapIdx_perform, ← h.mix, map_eq_mapIdx]
  simp only [hop]

theorem performed_ret (h : Agrees m env mix s g) (op : Operation) :
    g.ret ++ statements op = (s.performed ++ [op]).flatMap statements := by
  rw [List.flatMap_append, h.ret, List.flatMap_singleton]

theorem Agrees.cacheLoad (h : Agrees m env mix s g) (hcache : ∀ l, (env l).cache = m.l1Cache) :
    Agrees m env mix (cacheStep m p s) (cacheLoad p g) := by
  unfold cacheStep KawPowSource.cacheLoad
  rw [h.rnd, h.dst, h.src, kiss99_eq]
  generalize p.src.getD (s.srcCounter % regs) 0 = src
  generalize p.dst.getD (s.dstCounter % regs) 0 = dst
  generalize KPHash.kiss99 s.rnd = next
  obtain ⟨sel, rnd⟩ := next
  refine ⟨rfl, rfl, rfl, performed_ret h (.load src dst sel), performed_mix h fun l lane => ?_⟩
  unfold perform
  rw [hcache]

theorem Agrees.randomMath (h : Agrees m env mix s g) :
    Agrees m env mix (mathStep m p s) (randomMath p g) := by
  obtain ⟨⟨r, rnd₁⟩, hr⟩ : ∃ next, KPHash.kiss99 s.rnd = next := ⟨_, rfl⟩
  obtain ⟨⟨sel₁, rnd₂⟩, hsel₁⟩ : ∃ next, KPHash.kiss99 rnd₁ = next := ⟨_, rfl⟩
  obtain ⟨⟨sel₂, rnd₃⟩, hsel₂⟩ : ∃ next, KPHash.kiss99 rnd₂ = next := ⟨_, rfl⟩
  unfold mathStep KawPowSource.randomMath
  rw [h.rnd, h.dst, Nat.mul_comm (regs - 1) regs]
  simp only [kiss99_eq, hr, hsel₁, hsel₂]
  exact ⟨rfl, rfl, h.src, performed_ret h (.math _ _ sel₁ _ sel₂),
    performed_mix h fun l lane => rfl⟩

theorem Agrees.mathLoop (h : Agrees m env mix s g) (hcache : ∀ l, (env l).cache = m.l1Cache)
    (i : Nat) : Agrees m env mix (operationStep m p s i) (mathLoop p g i) := by
  unfold operationStep KawPowSource.mathLoop
  dsimp only
  have hload : Agrees m env mix (if i < cntCache then cacheStep m p s else s)
      (if i < cntCache then KawPowSource.cacheLoad p g else g) := by
    split
    · exact h.cacheLoad hcache
    · exact h
  split
  · exact hload.randomMath
  · exact hload

theorem Agrees.loop (h : Agrees m env mix s g) (hcache : ∀ l, (env l).cache = m.l1Cache)
    (is : List Nat) :
    Agrees m env mix (is.foldl (operationStep m p) s) (is.foldl (KawPowSource.mathLoop p) g) := by
  induction is generalizing s g with
  | nil => exact h
  | cons i is ih => exact ih (h.mathLoop hcache i)

/-- The merge of one of the words that were drawn. -/
def wordMerge (w : (Nat × UInt32) × Nat) : Operation := .merge w.2 w.1.1 w.1.2

/-- As many words are drawn as there are merges of words in the source. -/
structure Draws (t : Access × List (Nat × UInt32)) (g : Builder) : Prop where
  rnd : g.rnd = t.1.rnd
  dst : g.mixSeqDstCnt = t.1.dstCounter
  ret : g.ret = (t.2.zipIdx.map wordMerge).flatMap statements

theorem wordMerges_append (words : List (Nat × UInt32)) (w : Nat × UInt32) :
    ((words ++ [w]).zipIdx.map wordMerge).flatMap statements =
      (words.zipIdx.map wordMerge).flatMap statements ++
        [merge (.mix w.1) (.dataDag words.length) w.2] := by
  rw [List.zipIdx_append, List.map_append, List.flatMap_append, Nat.zero_add]
  rfl

theorem Draws.dataLoad {t : Access × List (Nat × UInt32)} {i : Nat} (h : Draws t g)
    (hlength : t.2.length = i) (hi : i ≠ 0) : Draws (drawWord p t i) (dataLoad p g i) := by
  obtain ⟨⟨sel, rnd⟩, hsel⟩ : ∃ next, KPHash.kiss99 t.1.rnd = next := ⟨_, rfl⟩
  unfold drawWord KawPowSource.dataLoad
  rw [h.rnd, h.dst, if_neg hi]
  simp only [kiss99_eq, hsel]
  refine ⟨rfl, rfl, ?_⟩
  rw [wordMerges_append, h.ret, hlength]

theorem drawWord_length (t : Access × List (Nat × UInt32)) (i : Nat) :
    (drawWord p t i).2.length = t.2.length + 1 := by
  unfold drawWord
  exact List.length_append

theorem Draws.loads {t : Access × List (Nat × UInt32)} {i n : Nat} (h : Draws t g)
    (hlength : t.2.length = i) (hi : i ≠ 0) :
    Draws ((List.range' i n).foldl (drawWord p) t)
      ((List.range' i n).foldl (KawPowSource.dataLoad p) g) := by
  induction n generalizing i t g with
  | zero => exact h
  | succ n ih =>
    rw [List.range'_succ, List.foldl_cons, List.foldl_cons]
    exact ih (h.dataLoad hlength hi) ((drawWord_length t i).trans (congrArg (· + 1) hlength))
      (Nat.succ_ne_zero i)

/-- Drawing a word touches no lane and performs nothing. -/
theorem drawWords_frame (is : List Nat) (t : Access × List (Nat × UInt32)) :
    (is.foldl (drawWord p) t).1.mix = t.1.mix ∧
      (is.foldl (drawWord p) t).1.performed = t.1.performed := by
  induction is generalizing t with
  | nil => exact ⟨rfl, rfl⟩
  | cons i is ih => exact ih (drawWord p t i)

theorem mergeWords_eq (hasPopcnt : Bool) (item : Nat → UInt32) (offset : Nat)
    (words : List (Nat × UInt32)) (lane : Lane) {env : Env}
    (henv : ∀ i, env.dag i = item (offset + i)) :
    mergeWords item offset words lane =
      (words.zipIdx.map wordMerge).foldl (perform hasPopcnt env) lane := by
  unfold mergeWords
  rw [List.foldl_map]
  refine List.foldl_ext _ _ _ fun lane w _ => ?_
  unfold perform wordMerge
  dsimp only
  rw [henv]

/-- The cache and the words of the DAG item that a lane of the program has. -/
def laneEnv (m : Machine) (r : Nat) (item : Nat → UInt32) (l : Nat) : Env where
  cache := m.l1Cache
  dag i := item (wordOffset r l + i)

theorem getSource_performed (height : UInt32) (m : Machine) (r : Nat) (item : Nat → UInt32)
    (mix : Mix) :
    (getSource (height.toUInt64 / 3)).randomMath ++ (getSource (height.toUInt64 / 3)).dataLoads =
        (access m (program height) r item mix).performed.flatMap statements ∧
      (access m (program height) r item mix).mix = mix.mapIdx fun l lane =>
        (access m (program height) r item mix).performed.foldl
          (perform m.hasPopcnt (laneEnv m r item l)) lane := by
  have hprogram : shuffle (regs - 1) ⟨List.range regs, List.range regs,
      rndState (height.toUInt64 / 3)⟩ = program height := by
    rw [shuffle_eq, rndState_eq]
    rfl
  have hstart : Agrees m (laneEnv m r item) mix { rnd := (program height).rnd, mix }
      { rnd := (program height).rnd } := ⟨rfl, rfl, rfl, rfl, by
    refine (List.ext_getElem (List.length_mapIdx).symm fun i hi hi' => ?_)
    rw [List.getElem_mapIdx]
    rfl⟩
  have hloop := hstart.loop (p := program height) (fun _ => rfl)
    (List.range (max cntCache cntMath))
  unfold getSource access
  dsimp only
  rw [hprogram]
  generalize (List.range (max cntCache cntMath)).foldl
    (operationStep m (program height)) { rnd := (program height).rnd, mix } = s at hloop ⊢
  generalize (List.range (max cntCache cntMath)).foldl
    (mathLoop (program height)) { rnd := (program height).rnd } = g at hloop ⊢
  obtain ⟨⟨sel, rnd⟩, hsel⟩ : ∃ next, KPHash.kiss99 s.rnd = next := ⟨_, rfl⟩
  have hrange : List.range numWordsPerLane = 0 :: List.range' 1 (numWordsPerLane - 1) := rfl
  have hfirst : Draws (drawWord (program height) (s, []) 0)
      { g with rnd, ret := [merge (.mix 0) (.dataDag 0) sel] } := by
    unfold drawWord
    simp only [hsel]
    exact ⟨rfl, hloop.dst, rfl⟩
  have hlength : (drawWord (program height) (s, []) 0).2.length = 1 := drawWord_length (s, []) 0
  have hdraws := hfirst.loads (p := program height) (i := 1) (n := numWordsPerLane - 1)
    hlength one_ne_zero
  obtain ⟨hmix, hperformed⟩ := drawWords_frame (p := program height) (List.range numWordsPerLane)
    (s, [])
  rw [hloop.rnd]
  simp only [kiss99_eq, hsel]
  rw [hrange, List.foldl_cons] at hmix hperformed ⊢
  generalize (List.range' 1 (numWordsPerLane - 1)).foldl (drawWord (program height))
    (drawWord (program height) (s, []) 0) = t at hdraws hmix hperformed ⊢
  obtain ⟨t, words⟩ := t
  constructor
  · rw [hdraws.ret, hloop.ret, hperformed, ← List.flatMap_append]
    rfl
  · dsimp only
    rw [hmix, hperformed, hloop.mix, List.mapIdx_mapIdx]
    refine List.ext_getElem (by rw [List.length_mapIdx, List.length_mapIdx]) fun l hl hl' => ?_
    rw [List.getElem_mapIdx, List.getElem_mapIdx, List.foldl_append]
    exact mergeWords_eq m.hasPopcnt item (wordOffset r l) words _ fun i => rfl

/-- The program for the period of a height has, statement by statement, the operations that
`calculate` performs in every DAG access for that height, and each work item ends the access with
the registers of its lane. -/
theorem getSource_agrees (height : UInt32) (m : Machine) (r : Nat) (item : Nat → UInt32)
    (mix : Mix) (data offset : UInt32) :
    let source := getSource (height.toUInt64 / periodLength.toUInt64)
    let result := access m (program height) r item mix
    source.randomMath ++ source.dataLoads = result.performed.flatMap statements ∧
      (∀ env s a b r, (merge a b r).value.eval env s =
        randomMerge (a.eval s) (b.eval env s) r) ∧
      (∀ env s d a b r, (math d a b r).value.eval env s =
        KPHash.randomMath (a.eval env s) (b.eval env s) r m.hasPopcnt) ∧
      (∀ env s op, (run env s (statements op)).mix = perform m.hasPopcnt env s.mix op) ∧
      result.mix = mix.mapIdx fun l lane =>
        (run (laneEnv m r item l) ⟨lane, data, offset⟩
          (source.randomMath ++ source.dataLoads)).mix := by
  obtain ⟨hstatements, hmix⟩ := getSource_performed height m r item mix
  refine ⟨hstatements, fun env s a b r => merge_value a b r,
    fun env s d a b r => math_value d a b r m.hasPopcnt,
    fun env s op => run_statements m.hasPopcnt op, ?_⟩
  change (access m (program height) r item mix).mix = mix.mapIdx fun l lane =>
    (run (laneEnv m r item l) ⟨lane, data, offset⟩
      ((getSource (height.toUInt64 / 3)).randomMath ++
        (getSource (height.toUInt64 / 3)).dataLoads)).mix
  rw [hstatements, hmix]
  simp only [run_flatMap m.hasPopcnt]

end Agreement

end VeloxHash.KawPowSource
