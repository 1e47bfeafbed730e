import VeloxHash.WalletCanonical
import VeloxHash.WalletReading
import VeloxHash.WalletTags

/-! One `WalletAddress` that decodes a sequence of texts. -/

namespace VeloxHash.WalletAddress

/-- A call of `decode`, with the memory in front of the table at that time. -/
structure Call where
  below : Int → Int8
  address : List UInt8

def call (a : WalletAddress) (c : Call) : WalletAddress × Bool := decode c.below a c.address

/-- The object after a sequence of calls. -/
def calls (a : WalletAddress) (cs : List Call) : WalletAddress :=
  cs.foldl (fun a c => (a.call c).1) a

variable (a : WalletAddress) (c : Call)

/-- After a call the object tells whether it succeeded, and is what a new one would be. -/
structure LikeNew : Prop where
  isValid : (a.call c).1.isValid = (a.call c).2
  tag : (a.call c).1.tag = (call {} c).1.tag
  spendKey : (a.call c).1.publicSpendKey = (call {} c).1.publicSpendKey
  viewKey : (a.call c).1.publicViewKey = (call {} c).1.publicViewKey
  checksum : (a.call c).1.checksum = (call {} c).1.checksum
  coin : (a.call c).1.coin = (call {} c).1.coin
  data : (a.call c).1.data = (call {} c).1.data

/-- What refused bytes do not overwrite is still that of a new object. -/
structure Blank (bytes : List UInt8) : Prop where
  data : a.data = []
  spendKey : bytes.length < Varint.size bytes + 32 → a.publicSpendKey = List.replicate 32 0
  viewKey : bytes.length < Varint.size bytes + 64 → a.publicViewKey = List.replicate 32 0
  checksum : bytes.length < Varint.size bytes + 64 → a.checksum = List.replicate 4 0

/-- A text that is accepted has a tag other than zero; one that is refused finds nothing of an
address before it that it does not overwrite. -/
def Unmarked : Prop :=
  match parsed c.below c.address with
  | none => a = {}
  | some (tfTag, _, data) =>
    (Accepts data.1 → tfTag ≠ 0 ∨ tagOf data.1 ≠ 0) ∧ (¬ Accepts data.1 → a.Blank data.1)

variable {a c} {tfTag : UInt64} {text : List UInt8} {data : Data}

theorem likeNew_unparsed (h : parsed c.below c.address = none) : LikeNew a c ↔ a = {} := by
  have hcall (b : WalletAddress) : b.call c = (b, false) := decode_unparsed b h
  constructor
  · intro hlike
    have htag := hlike.tag
    have hspend := hlike.spendKey
    have hview := hlike.viewKey
    have hchecksum := hlike.checksum
    have hdata := hlike.data
    rw [hcall, hcall] at htag hspend hview hchecksum hdata
    obtain ⟨data, tag, checksum, spend, view⟩ := a
    exact (WalletAddress.mk.injEq ..).mpr ⟨hdata, htag, hchecksum, hspend, hview⟩
  · rintro rfl
    refine ⟨?_, rfl, rfl, rfl, rfl, rfl, rfl⟩
    rw [hcall]
    rfl

theorem likeNew_accepted (h : parsed c.below c.address = some (tfTag, text, data))
    (haccepts : Accepts data.1) : LikeNew a c ↔ tfTag ≠ 0 ∨ tagOf data.1 ≠ 0 := by
  have hcall (b : WalletAddress) : b.call c = (accepted tfTag text data.1, true) :=
    decode_accepted b h haccepts
  have hsize : minSize ≤ (accepted tfTag text data.1).data.length :=
    (decodeData_eq_some.mp (parsed_eq_some.mp h).2).1.1
  have hvalid : (accepted tfTag text data.1).isValid = true ↔ tfTag ≠ 0 ∨ tagOf data.1 ≠ 0 := by
    rw [isValid, Bool.and_eq_true, decide_eq_true_iff, decide_eq_true_iff, and_iff_left hsize,
      UInt64.pos_iff_ne_zero, accepted]
    by_cases htf : tfTag = 0
    · rw [if_neg (not_not.mpr htf)]
      exact (or_iff_right (not_not.mpr htf)).symm
    · rw [if_pos htf]
      exact iff_of_true htf (.inl htf)
  constructor
  · intro hlike
    have hlikeValid := hlike.isValid
    rw [hcall] at hlikeValid
    exact hvalid.mp hlikeValid
  · intro htag
    refine ⟨?_, ?_, ?_, ?_, ?_, ?_, ?_⟩
    · rw [hcall]
      exact hvalid.mpr htag
    all_goals rw [hcall, hcall]

theorem ite_eq_ite_iff_of_not {α : Type} {p : Prop} [Decidable p] {x y z : α} :
    (if p then x else y) = (if p then x else z) ↔ (¬ p → y = z) := by
  by_cases hp : p
  · rw [if_pos hp, if_pos hp]
    exact iff_of_true rfl fun hno => absurd hp hno
  · rw [if_neg hp, if_neg hp]
    exact ⟨fun h _ => h, fun h => h hp⟩

theorem likeNew_spoilt (h : parsed c.below c.address = some (tfTag, text, data))
    (hrefused : ¬ Accepts data.1) : LikeNew a c ↔ a.Blank data.1 := by
  have hcall (b : WalletAddress) : b.call c = (b.spoilt data.1, false) := decode_spoilt b h hrefused
  constructor
  · intro hlike
    have hspend := hlike.spendKey
    have hview := hlike.viewKey
    have hchecksum := hlike.checksum
    have hdata := hlike.data
    rw [hcall, hcall] at hspend hview hchecksum hdata
    exact ⟨hdata, fun hshort => ite_eq_ite_iff_of_not.mp hspend (Nat.not_le.mpr hshort),
      fun hshort => ite_eq_ite_iff_of_not.mp hview (Nat.not_le.mpr hshort),
      fun hshort => ite_eq_ite_iff_of_not.mp hchecksum (Nat.not_le.mpr hshort)⟩
  · intro hblank
    refine ⟨?_, ?_, ?_, ?_, ?_, ?_, ?_⟩ <;> rw [hcall]
    · rfl
    all_goals rw [hcall]
    · rfl
    · exact ite_eq_ite_iff_of_not.mpr fun hshort => hblank.spendKey (Nat.lt_of_not_le hshort)
    · exact ite_eq_ite_iff_of_not.mpr fun hshort => hblank.viewKey (Nat.lt_of_not_le hshort)
    · exact ite_eq_ite_iff_of_not.mpr fun hshort => hblank.checksum (Nat.lt_of_not_le hshort)
    · rfl
    · exact hblank.data

theorem likeNew_iff : LikeNew a c ↔ Unmarked a c := by
  unfold Unmarked
  cases h : parsed c.below c.address with
  | none => exact likeNew_unparsed h
  | some found =>
    obtain ⟨tfTag, text, data⟩ := found
    by_cases haccepts : Accepts data.1
    · rw [likeNew_accepted h haccepts]
      exact ⟨fun htag => ⟨fun _ => htag, fun hno => absurd haccepts hno⟩, fun hall => hall.1 haccepts⟩
    · rw [likeNew_spoilt h haccepts]
      exact ⟨fun hblank => ⟨fun hyes => absurd hyes haccepts, fun _ => hblank⟩,
        fun hall => hall.2 haccepts⟩

/-- The zeros again, and a text that is too short. -/
def zerosThenNothing : List Call :=
  [⟨fun _ => -1, zerosWritten⟩, ⟨fun _ => -1, []⟩]

theorem address_kept : ¬ ∀ cs before c after, cs = before ++ c :: after →
    LikeNew (calls {} before) c := by
  intro h
  have hkept := h zerosThenNothing [⟨fun _ => -1, zerosWritten⟩] ⟨fun _ => -1, []⟩ [] rfl
  have hfirst : calls {} [⟨fun _ => -1, zerosWritten⟩] =
      ⟨zerosWritten, 18, zerosSum, List.replicate 32 0, List.replicate 32 0⟩ := by
    rw [calls, List.foldl_cons, List.foldl_nil, call,
      decode_zeros (fun _ => -1) {} (by decide) (by decide +kernel)]
  have hnew := (likeNew_unparsed (show parsed (fun _ => -1) [] = none from rfl)).mp hkept
  rw [hfirst] at hnew
  exact absurd (congrArg tag hnew) (by decide)

/-- In a sequence of calls every one leaves what a new object would be exactly if no address
shows through. -/
theorem likeNew_calls_iff (cs : List Call) :
    (∀ before c after, cs = before ++ c :: after → LikeNew (calls {} before) c) ↔
      ∀ before c after, cs = before ++ c :: after → Unmarked (calls {} before) c := by
  constructor
  · intro h before c after hcs
    exact likeNew_iff.mp (h before c after hcs)
  · intro h before c after hcs
    exact likeNew_iff.mpr (h before c after hcs)

end VeloxHash.WalletAddress
