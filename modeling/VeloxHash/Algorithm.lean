import Mathlib.Data.UInt

/-! `Algorithm::Id` with its encoding: one byte of family, one of L3 size, one of L2
size or base variant, one of coin. -/

namespace VeloxHash

inductive Algorithm
  | invalid
  | cn0 | cn1 | cn2 | cnR | cnFast | cnHalf | cnXao | cnRto | cnRwz | cnZls | cnDouble | cnCcx
  | cnLite0 | cnLite1
  | cnHeavy0 | cnHeavyTube | cnHeavyXhv
  | cnPico0 | cnPicoTlo
  | cnUpx2
  | cnGr0 | cnGr1 | cnGr2 | cnGr3 | cnGr4 | cnGr5
  | ghostriderRtm
  | rx0 | rxWow | rxArq | rxGraft | rxSfx | rxYada
  | ar2Chukwa | ar2ChukwaV2 | ar2Wrkz
  | kawpowRvn
  deriving DecidableEq, Repr

namespace Algorithm

def id : Algorithm → UInt32
  | invalid => 0
  | cn0 => 0x63150000
  | cn1 => 0x63150100
  | cn2 => 0x63150200
  | cnR => 0x63150272
  | cnFast => 0x63150166
  | cnHalf => 0x63150268
  | cnXao => 0x63150078
  | cnRto => 0x63150172
  | cnRwz => 0x63150277
  | cnZls => 0x6315027a
  | cnDouble => 0x63150264
  | cnCcx => 0x63150063
  | cnLite0 => 0x63140000
  | cnLite1 => 0x63140100
  | cnHeavy0 => 0x63160000
  | cnHeavyTube => 0x63160172
  | cnHeavyXhv => 0x63160068
  | cnPico0 => 0x63120200
  | cnPicoTlo => 0x63120274
  | cnUpx2 => 0x63110200
  | cnGr0 => 0x63130100
  | cnGr1 => 0x63130101
  | cnGr2 => 0x63150102
  | cnGr3 => 0x63140103
  | cnGr4 => 0x63120104
  | cnGr5 => 0x63120105
  | ghostriderRtm => 0x6c150000
  | rx0 => 0x72151200
  | rxWow => 0x72141177
  | rxArq => 0x72121061
  | rxGraft => 0x72151267
  | rxSfx => 0x72151273
  | rxYada => 0x72151279
  | ar2Chukwa => 0x61130000
  | ar2ChukwaV2 => 0x61140000
  | ar2Wrkz => 0x61120000
  | kawpowRvn => 0x6b0f0000

def isCN (a : Algorithm) : Bool := a.id &&& 0xff000000 == 0x63000000

def family (a : Algorithm) : UInt32 :=
  a.id &&& (if a.isCN then 0xffff0000 else 0xff000000)

/-- `Algorithm::RANDOM_X` of the enumeration `Family`. -/
def familyRandomX : UInt32 := 0x72000000

def familyKawpow : UInt32 := 0x6b000000

def familyGhostrider : UInt32 := 0x6c000000

def isRandomX (a : Algorithm) : Bool := a.family == familyRandomX

def isKawpow (a : Algorithm) : Bool := a.family == familyKawpow

def isGhostrider (a : Algorithm) : Bool := a.family == familyGhostrider

def l3 (a : Algorithm) : Nat := 1 <<< ((a.id >>> 16) &&& 0xff).toNat

/-- `Job::nonceOffset` and `Job::nonceSize`. -/
def nonceOffset (a : Algorithm) : Nat :=
  if a.isKawpow then 32
  else if a.isGhostrider then 76
  else if a = rxYada then 147
  else 39

def nonceSize (a : Algorithm) : Nat := if a.isKawpow then 8 else 4

theorem nonceSize_pos (a : Algorithm) : 0 < a.nonceSize := by
  unfold nonceSize
  split <;> decide

theorem isGhostrider_of_isRandomX {a : Algorithm} (h : a.isRandomX = true) :
    a.isGhostrider = false := by
  cases a <;> first | rfl | cases h

theorem not_isRandomX_invalid : invalid.isRandomX = false := by decide

end Algorithm

/-- `Job::kMaxBlobSize`. -/
def kMaxBlobSize : Nat := 408

end VeloxHash
