import VeloxHash.TemplateBounds
import VeloxHash.TemplateMembers

/-! What a parse leaves of the members from before. Which members it assigns is decided by
the blob alone, and the members off its path keep their values. -/

namespace VeloxHash.TemplateHistory

open ReaderProgram BlockTemplate TemplateBounds TemplateMembers

section Whole

variable (keccak : List UInt8 → Hash) (allocates : Nat → Bool) (fuel : Nat) (blob : Blob)
  (coin : Coin) (hashes : Bool)

section Events

variable {events : List Event} {coin} (t₁ t₂ : BlockTemplate)
  (hsettled : Settled events) (hmust : ∀ s ∈ mandatory coin, Assigns events s)

end Events

/-- What `parse` is called with. -/
structure Call where
  blob : Blob
  coin : Coin
  hashes : Bool
  fuel : Nat

/-- A Wownero template with a signature. -/
def signed : Blob where
  bytes := [18, 1, 1] ++ List.replicate 102 0 ++ [2, 60, 1, 0xff, 5, 1, 9, 2] ++
    List.replicate 32 0 ++ [33, 1] ++ List.replicate 32 0 ++ [0, 0]
  length_lt := by decide +kernel

def unsigned : Blob where
  bytes := opening [33] ++ [1] ++ List.replicate 32 0 ++ [0, 0]
  length_lt := by decide

end Whole

end VeloxHash.TemplateHistory
