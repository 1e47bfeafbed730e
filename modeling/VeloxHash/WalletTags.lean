import VeloxHash.BlockTemplate
import VeloxHash.WalletAddress

/-! What the tag of an address says of it. -/

namespace VeloxHash.WalletAddress

inductive Net
  | mainnet
  | testnet
  | stagenet
  deriving DecidableEq

inductive AddressType
  | ordinary
  | integrated
  | subaddress
  deriving DecidableEq

structure TagInfo where
  coin : Coin
  net : Net
  type : AddressType
  rpcPort : UInt16
  zmqPort : UInt16
  deriving DecidableEq

/-- The map of `tagInfo`; `PUBLIC` is `ordinary`. -/
def tags : List (UInt64 × TagInfo) := [
  (0x12, ⟨.monero, .mainnet, .ordinary, 18081, 18082⟩),
  (0x13, ⟨.monero, .mainnet, .integrated, 18081, 18082⟩),
  (0x2a, ⟨.monero, .mainnet, .subaddress, 18081, 18082⟩),
  (0x35, ⟨.monero, .testnet, .ordinary, 28081, 28082⟩),
  (0x36, ⟨.monero, .testnet, .integrated, 28081, 28082⟩),
  (0x3f, ⟨.monero, .testnet, .subaddress, 28081, 28082⟩),
  (0x18, ⟨.monero, .stagenet, .ordinary, 38081, 38082⟩),
  (0x19, ⟨.monero, .stagenet, .integrated, 38081, 38082⟩),
  (0x24, ⟨.monero, .stagenet, .subaddress, 38081, 38082⟩),
  (0x2bb39a, ⟨.sumo, .mainnet, .ordinary, 19734, 19735⟩),
  (0x29339a, ⟨.sumo, .mainnet, .integrated, 19734, 19735⟩),
  (0x8319a, ⟨.sumo, .mainnet, .subaddress, 19734, 19735⟩),
  (0x37751a, ⟨.sumo, .testnet, .ordinary, 29734, 29735⟩),
  (0x34f51a, ⟨.sumo, .testnet, .integrated, 29734, 29735⟩),
  (0x1d351a, ⟨.sumo, .testnet, .subaddress, 29734, 29735⟩),
  (0x2cca, ⟨.arqma, .mainnet, .ordinary, 19994, 19995⟩),
  (0x116bc7, ⟨.arqma, .mainnet, .integrated, 19994, 19995⟩),
  (0x6847, ⟨.arqma, .mainnet, .subaddress, 19994, 19995⟩),
  (0x53ca, ⟨.arqma, .testnet, .ordinary, 29994, 29995⟩),
  (0x504a, ⟨.arqma, .testnet, .integrated, 29994, 29995⟩),
  (0x524a, ⟨.arqma, .testnet, .subaddress, 29994, 29995⟩),
  (0x39ca, ⟨.arqma, .stagenet, .ordinary, 39994, 39995⟩),
  (0x1742ca, ⟨.arqma, .stagenet, .integrated, 39994, 39995⟩),
  (0x1d84ca, ⟨.arqma, .stagenet, .subaddress, 39994, 39995⟩),
  (0x1032, ⟨.wownero, .mainnet, .ordinary, 34568, 34569⟩),
  (0x1a9a, ⟨.wownero, .mainnet, .integrated, 34568, 34569⟩),
  (0x2fb0, ⟨.wownero, .mainnet, .subaddress, 34568, 34569⟩),
  (0x5a, ⟨.graft, .mainnet, .ordinary, 18981, 18982⟩),
  (0x5b, ⟨.graft, .mainnet, .integrated, 18981, 18982⟩),
  (0x66, ⟨.graft, .mainnet, .subaddress, 18981, 18982⟩),
  (0x54, ⟨.graft, .testnet, .ordinary, 28881, 28882⟩),
  (0x55, ⟨.graft, .testnet, .integrated, 28881, 28882⟩),
  (0x70, ⟨.graft, .testnet, .subaddress, 28881, 28882⟩),
  (0x424200, ⟨.townforge, .mainnet, .ordinary, 18881, 18882⟩),
  (0x424201, ⟨.townforge, .mainnet, .subaddress, 18881, 18882⟩),
  (0x424210, ⟨.townforge, .testnet, .ordinary, 28881, 28882⟩),
  (0x424211, ⟨.townforge, .testnet, .subaddress, 28881, 28882⟩),
  (0x424220, ⟨.townforge, .stagenet, .ordinary, 38881, 38882⟩),
  (0x424221, ⟨.townforge, .stagenet, .subaddress, 38881, 38882⟩)]

def tagInfo (tag : UInt64) : TagInfo :=
  (tags.lookup tag).getD ⟨.invalid, .mainnet, .ordinary, 0, 0⟩

variable (a : WalletAddress)

def isValid : Bool := 0 < a.tag && minSize ≤ a.data.length

def coin : Coin := (tagInfo a.tag).coin

def net : Net := (tagInfo a.tag).net

def type : AddressType := (tagInfo a.tag).type

/-- The tags that a Townforge prefix stands for. -/
def townforgeTags : List UInt64 := [0x424200, 0x424201, 0x424210, 0x424211, 0x424220, 0x424221]

theorem townforgeTags_spec : ∀ tag ∈ townforgeTags, tag ≠ 0 ∧ (tagInfo tag).coin = .townforge := by
  have hall : townforgeTags.all fun tag => tag ≠ 0 ∧ (tagInfo tag).coin = .townforge := by
    decide +kernel
  exact fun tag htag => of_decide_eq_true (List.all_eq_true.mp hall tag htag)

/-- A prefix is cut off and gives the tag; without one the text stays as it is. -/
theorem townforge_cases {address text : List UInt8} {tfTag : UInt64}
    (h : townforge address = some (tfTag, text)) :
    (4 ≤ address.length ∧ text = address.drop 4 ∧ tfTag ∈ townforgeTags) ∨
      (¬ (4 ≤ address.length ∧ [84, 70] <+: address) ∧ text = address ∧ tfTag = 0) := by
  have hfront : (['T', 'F'].map fun c => UInt8.ofNat c.toNat) = [84, 70] := by decide
  unfold townforge at h
  rw [hfront] at h
  by_cases hmarked : 4 ≤ address.length ∧ address.take 2 = [84, 70]
  · rw [if_pos hmarked] at h
    dsimp only at h
    refine .inl ⟨hmarked.1, ?_⟩
    split at h
    case h_2 => exact nomatch h
    case h_1 x y hkind hnet =>
      obtain ⟨rfl, rfl⟩ := Prod.mk.inj (Option.some.inj h)
      refine ⟨rfl, ?_⟩
      have hx : x = 0 ∨ x = 1 := by
        split at hkind
        · exact .inl (Option.some.inj hkind).symm
        · split at hkind
          · exact .inr (Option.some.inj hkind).symm
          · exact nomatch hkind
      have hy : y = 0 ∨ y = 0x10 ∨ y = 0x20 := by
        split at hnet
        · exact .inl (Option.some.inj hnet).symm
        · split at hnet
          · exact .inr (.inl (Option.some.inj hnet).symm)
          · split at hnet
            · exact .inr (.inr (Option.some.inj hnet).symm)
            · exact nomatch hnet
      rcases hx with rfl | rfl <;> rcases hy with rfl | rfl | rfl <;> decide
  · rw [if_neg hmarked] at h
    obtain ⟨rfl, rfl⟩ := Prod.mk.inj (Option.some.inj h)
    refine .inr ⟨fun hplain => hmarked ⟨hplain.1, ?_⟩, rfl, rfl⟩
    exact (List.prefix_iff_eq_take.mp hplain.2).symm

end VeloxHash.WalletAddress
