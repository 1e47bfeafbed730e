import VeloxHash.WalletBounds

/-! The text that `WalletAddress` keeps of an address, decoded again. -/

namespace VeloxHash.WalletAddress

/-- A new object that decodes the text of an address is the same address. -/
structure Restored (below : Int → Int8) (a : WalletAddress) : Prop where
  succeeds : (decode below {} a.data).2 = true
  tag : (decode below {} a.data).1.tag = a.tag
  coin : (decode below {} a.data).1.coin = a.coin
  net : (decode below {} a.data).1.net = a.net
  type : (decode below {} a.data).1.type = a.type
  spendKey : (decode below {} a.data).1.publicSpendKey = a.publicSpendKey
  viewKey : (decode below {} a.data).1.publicViewKey = a.publicViewKey

/-- The kept text has no prefix of its own and the bytes have the tag of the address, or it has
the prefix of the address once more and stands for the same keys behind it. -/
inductive Restores (tfTag : UInt64) (text data : List UInt8) : Prop
  | whole (hplain : townforge text = some (0, text)) (hascii : ∀ c ∈ text, c.toNat < 128)
      (htag : tfTag = 0 ∨ tagOf data = tfTag)
  | again (text' : List UInt8) (data' : Data) (hmarked : tfTag ≠ 0)
      (htf : townforge text = some (tfTag, text'))
      (hdata : decodeData (fun _ => -1) text' = some data') (haccepts : Accepts data'.1)
      (hspend : Splice.slice data'.1 (Varint.size data'.1) 32 =
        Splice.slice data (Varint.size data) 32)
      (hview : Splice.slice data'.1 (Varint.size data'.1 + 32) 32 =
        Splice.slice data (Varint.size data + 32) 32)

def Restorable (below : Int → Int8) (s : List UInt8) : Prop :=
  ∃ tfTag text data, parsed below s = some (tfTag, text, data) ∧ Restores tfTag text data.1

variable {below below' : Int → Int8} {a : WalletAddress} {c : UInt8} {chars s text : List UInt8}
  {tfTag : UInt64} {data : Data}

section Ascii

/-- The memory in front of the table is read for bytes from 0x80 on only. -/
theorem digit_ascii (below below' : Int → Int8) (hc : c.toNat < 128) :
    digit below c = digit below' c := by
  have hindex : ¬ c.toInt8.toInt < 0 := fun h => absurd ((toInt_lt_zero_iff c).mp h) (by omega)
  rw [digit, digit, if_neg hindex, if_neg hindex]

theorem decodeBlock_ascii (h : ∀ c ∈ chars, c.toNat < 128) :
    decodeBlock below chars = decodeBlock below' chars := by
  induction chars with
  | nil => rfl
  | cons c later ih =>
    obtain ⟨hc, hlater⟩ := List.forall_mem_cons.mp h
    rw [decodeBlock, decodeBlock, ih hlater, digit_ascii below below' hc]

theorem decodeBlocks_ascii {k left : Nat} (h : ∀ c ∈ chars, c.toNat < 128) :
    decodeBlocks below k left chars = decodeBlocks below' k left chars := by
  induction left generalizing chars with
  | zero => rw [decodeBlocks, decodeBlocks, decodeBlock_ascii h]
  | succ left ih =>
    have htake : decodeBlock below (chars.take 11) = decodeBlock below' (chars.take 11) :=
      decodeBlock_ascii fun c hc => h c (List.mem_of_mem_take hc)
    rw [decodeBlocks, decodeBlocks, htake, ih fun c hc => h c (List.mem_of_mem_drop hc)]

theorem decodeData_ascii (h : ∀ c ∈ text, c.toNat < 128)
    (hdata : decodeData below text = some data) : decodeData below' text = some data := by
  obtain ⟨hsize, k, hindex, hmin, hblocks⟩ := decodeData_eq_some.mp hdata
  exact decodeData_eq_some.mpr ⟨hsize, k, hindex, hmin, decodeBlocks_ascii h ▸ hblocks⟩

/-- With no digits in front of the table only bytes below 0x80 are decoded. -/
theorem ascii_of_decodeData (h : decodeData (fun _ => -1) text = some data) :
    ∀ c ∈ text, c.toNat < 128 := by
  intro c hc
  obtain ⟨-, k, -, -, hblocks⟩ := decodeData_eq_some.mp h
  have hlength : text.length = 11 * (text.length / 11) + text.length % 11 := by omega
  have hreads := (isSome_decodeBlocks_iff hlength (Nat.mod_lt _ (by decide))).mp
    (Option.isSome_of_mem hblocks)
  obtain ⟨i, hi, hblock⟩ := mem_block_of_mem hc
  by_contra hlarge
  have hdigit := (hreads i hi).digits c hblock
  rw [digit, if_pos ((toInt_lt_zero_iff c).mpr (Nat.le_of_not_lt hlarge))] at hdigit
  exact hdigit (by decide)

end Ascii

theorem townforge_plain_iff : townforge text = some (0, text) ↔
    ∃ kept, townforge text = some (0, kept) := by
  refine ⟨fun h => ⟨text, h⟩, fun ⟨kept, h⟩ => ?_⟩
  rcases townforge_cases h with ⟨-, -, htag⟩ | ⟨-, rfl, -⟩
  · exact absurd rfl (townforgeTags_spec 0 htag).1
  · exact h

theorem accepted_data (tfTag : UInt64) (text data : List UInt8) :
    (accepted tfTag text data).data = text := rfl

theorem accepted_tag {data : List UInt8} (h : tfTag ≠ 0) :
    (accepted tfTag text data).tag = tfTag := if_pos h

theorem restored_of_accepted {text' : List UInt8} {tfTag' : UInt64} {data' : Data}
    (hparsed : parsed below text = some (tfTag', text', data')) (haccepts : Accepts data'.1)
    (htag : (accepted tfTag' text' data'.1).tag = (accepted tfTag text data.1).tag)
    (hspend : (accepted tfTag' text' data'.1).publicSpendKey =
      (accepted tfTag text data.1).publicSpendKey)
    (hview : (accepted tfTag' text' data'.1).publicViewKey =
      (accepted tfTag text data.1).publicViewKey) :
    Restored below (accepted tfTag text data.1) := by
  have hdecode : decode below {} (accepted tfTag text data.1).data =
      (accepted tfTag' text' data'.1, true) := decode_accepted {} hparsed haccepts
  refine ⟨?_, ?_, ?_, ?_, ?_, ?_, ?_⟩ <;> rw [hdecode]
  · exact htag
  · exact congrArg (fun tag => (tagInfo tag).coin) htag
  · exact congrArg (fun tag => (tagInfo tag).net) htag
  · exact congrArg (fun tag => (tagInfo tag).type) htag
  · exact hspend
  · exact hview

/-- An accepted address comes back from its text exactly if the text restores it. -/
theorem restored_accepted_iff (hparsed : parsed below s = some (tfTag, text, data))
    (haccepts : Accepts data.1) :
    (∀ below', Restored below' (accepted tfTag text data.1)) ↔ Restores tfTag text data.1 := by
  obtain ⟨htf, hdata⟩ := parsed_eq_some.mp hparsed
  constructor
  · intro h
    have hrestored := h fun _ => -1
    obtain ⟨tfTag', text', data', hparsed', haccepts'⟩ := (decode_eq_true_iff {}).mp hrestored.succeeds
    have hdecode : decode (fun _ => -1) {} (accepted tfTag text data.1).data =
        (accepted tfTag' text' data'.1, true) := decode_accepted {} hparsed' haccepts'
    have htag := hrestored.tag
    have hspend := hrestored.spendKey
    have hview := hrestored.viewKey
    rw [hdecode] at htag hspend hview
    obtain ⟨htf', hdata'⟩ := parsed_eq_some.mp hparsed'
    change townforge text = _ at htf'
    by_cases hzero : tfTag' = 0
    · subst hzero
      have hplain := townforge_plain_iff.mpr ⟨text', htf'⟩
      obtain rfl : text = text' := (Prod.mk.inj (Option.some.inj (hplain.symm.trans htf'))).2
      have hascii := ascii_of_decodeData hdata'
      obtain rfl : data = data' :=
        Option.some.inj ((decodeData_ascii hascii hdata).symm.trans hdata')
      refine .whole hplain hascii ?_
      by_cases hnone : tfTag = 0
      · exact .inl hnone
      · exact .inr (htag.trans (if_pos hnone))
    · have hmarked : tfTag ≠ 0 := by
        rintro rfl
        rcases townforge_cases htf with ⟨-, -, hmem⟩ | ⟨-, rfl, -⟩
        · exact (townforgeTags_spec 0 hmem).1 rfl
        · exact hzero (Prod.mk.inj (Option.some.inj (htf'.symm.trans htf))).1
      have hsame : tfTag' = tfTag := by
        have htags : (if tfTag' ≠ 0 then tfTag' else tagOf data'.1) =
            if tfTag ≠ 0 then tfTag else tagOf data.1 := htag
        rwa [if_pos hzero, if_pos hmarked] at htags
      subst hsame
      exact .again text' data' hmarked htf' hdata' haccepts' hspend hview
  · intro h below'
    cases h with
    | whole hplain hascii htag =>
      have hagain : parsed below' text = some (0, text, data) :=
        parsed_eq_some.mpr ⟨hplain, decodeData_ascii hascii hdata⟩
      refine restored_of_accepted hagain haccepts ?_ rfl rfl
      change tagOf data.1 = if tfTag ≠ 0 then tfTag else tagOf data.1
      rcases htag with rfl | htag
      · rfl
      · rw [htag, ite_self]
    | again text' data' hmarked htf' hdata' haccepts' hspend hview =>
      have hagain : parsed below' text = some (tfTag, text', data') :=
        parsed_eq_some.mpr ⟨htf', decodeData_ascii (ascii_of_decodeData hdata') hdata'⟩
      refine restored_of_accepted hagain haccepts' ?_ hspend hview
      exact (if_pos hmarked).trans (if_pos hmarked).symm

/-- The address of the zeros behind a prefix of Townforge. -/
theorem townforge_forgotten : ¬ ∀ below a s, (decode below a s).2 = true →
    ∀ below', Restored below' (decode below a s).1 := by
  intro h
  have hparsed : parsed (fun _ => -1) ([84, 70, 49, 77] ++ zerosWritten) =
      some (0x424200, zerosWritten, zeros) :=
    parsed_eq_some.mpr ⟨by decide +kernel, by decide +kernel⟩
  have hdecode := decode_accepted {} hparsed zeros_accepts
  have hrestored := h (fun _ => -1) {} ([84, 70, 49, 77] ++ zerosWritten) (by rw [hdecode])
    fun _ => -1
  rw [hdecode] at hrestored
  dsimp only at hrestored
  have hagain : decode (fun _ => -1) {} zerosWritten = _ :=
    decode_zeros (fun _ => -1) {} (by decide) (by decide +kernel)
  have htag := hrestored.tag
  rw [accepted_data, hagain, accepted_tag (by decide)] at htag
  exact absurd htag (by decide)

/-- An accepted address comes back from the text that is kept of it exactly if it had no prefix,
or the tag of its bytes is that of the prefix, or the text has the prefix twice. -/
theorem restored_iff (haccepted : (decode below a s).2 = true) :
    (∀ below', Restored below' (decode below a s).1) ↔ Restorable below s := by
  obtain ⟨tfTag, text, data, hparsed, haccepts⟩ := (decode_eq_true_iff a).mp haccepted
  rw [decode_accepted a hparsed haccepts, restored_accepted_iff hparsed haccepts]
  constructor
  · exact fun h => ⟨tfTag, text, data, hparsed, h⟩
  · rintro ⟨_, _, _, heq, h⟩
    obtain ⟨rfl, rfl, rfl⟩ := Option.some.inj (hparsed.symm.trans heq)
    exact h

theorem restored_iff_zeros :
    (∀ below', Restored below' (decode (fun _ => -1) {} zerosWritten).1) ↔
      Restorable (fun _ => -1) zerosWritten :=
  restored_iff (by rw [decode_zeros (fun _ => -1) {} (by decide) (by decide +kernel)])

end VeloxHash.WalletAddress
