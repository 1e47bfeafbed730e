import VeloxHash.ReaderRuns
import VeloxHash.WalletAddress

/-! What `WalletAddress::decode` leaves in the object, whether it accepts the text or not. -/

namespace VeloxHash.WalletAddress

open ReaderProgram Splice

/-- `tf_tag`, the text behind the prefix and its bytes; none if the reads are not reached. -/
def parsed (below : Int → Int8) (address : List UInt8) : Option (UInt64 × List UInt8 × Data) :=
  match townforge address with
  | none => none
  | some (tfTag, text) => (decodeData below text).map fun data => (tfTag, text, data)

/-- The tag in front of the bytes. -/
def tagOf (data : List UInt8) : UInt64 := Varint.word 0 data

/-- The address that accepted bytes stand for. -/
def accepted (tfTag : UInt64) (text data : List UInt8) : WalletAddress where
  data := text
  tag := if tfTag ≠ 0 then tfTag else tagOf data
  checksum := slice data (data.length - 4) 4
  publicSpendKey := slice data (Varint.size data) 32
  publicViewKey := slice data (Varint.size data + 32) 32

/-- What is left of an address when bytes are refused. -/
def spoilt (a : WalletAddress) (data : List UInt8) : WalletAddress where
  data := a.data
  tag := 0
  checksum :=
    if Varint.size data + 64 ≤ data.length then slice data (data.length - 4) 4 else a.checksum
  publicSpendKey :=
    if Varint.size data + 32 ≤ data.length then slice data (Varint.size data) 32
    else a.publicSpendKey
  publicViewKey :=
    if Varint.size data + 64 ≤ data.length then slice data (Varint.size data + 32) 32
    else a.publicViewKey

section Members

variable {allocates : Nat → Bool} (data : Data)

theorem run_arrayTo {size : Nat} {memory : List UInt8} (ar : BlobReader 0 size)
    (store : List UInt8 → Member) {n : UInt64} (hsize : size ≤ memory.length)
    (h : ar.index + n.toNat ≤ size) :
    (arrayTo ar store n).run (machine memory allocates) =
      ⟨.ok ⟨ar.index + n.toNat, h, ar.size_lt⟩, [ar.jump n],
        [store (slice memory ar.index n.toNat)]⟩ := by
  refine (run_bind_ok (BlobReader.run_array ar (by omega) h)).trans ?_
  rw [Nat.zero_add]
  rfl

theorem run_arrayTo_past {size : Nat} {memory : List UInt8} (ar : BlobReader 0 size)
    (store : List UInt8 → Member) {n : UInt64} (hsmall : size + n.toNat < 2 ^ 64)
    (h : size < ar.index + n.toNat) :
    (arrayTo ar store n).run (machine memory allocates) = ⟨.stopped .outOfRange, [], []⟩ :=
  run_bind_stopped (BlobReader.run_array_past ar hsmall h)

/-- The tag does not end. -/
theorem run_members_tag (h : data.1.length < Varint.size data.1) :
    (members data).run (machine data.1 allocates) = ⟨.stopped .outOfRange, [], []⟩ :=
  run_bind_stopped (BlobReader.run_getVarint_past (start data) (Nat.zero_add _).le
    (h.trans_eq (Nat.zero_add _).symm))

theorem run_tag (h : Varint.size data.1 ≤ data.1.length) :
    ((start data).getVarint : Prog Member _).run (machine data.1 allocates) =
      ⟨.ok (tagOf data.1, behind data 0 h), [], []⟩ := by
  refine (BlobReader.run_getVarint (start data) (Nat.zero_add _).le
    ((Nat.zero_add _).trans_le h)).trans ?_
  simp only [start, behind, tagOf, Nat.zero_add, Nat.add_zero, List.drop_zero]

variable {data}

theorem jump_wraps {size : Nat} (ar : BlobReader 0 size) {n : UInt64}
    (hsmall : size + n.toNat < 2 ^ 64) : (ar.jump n).wraps = false := by
  have hindex := ar.index_le
  exact decide_eq_false (by change ¬ 2 ^ 64 ≤ ar.index + n.toNat; omega)

theorem run_key {n : Nat} (store : List UInt8 → Member)
    (hn : Varint.size data.1 + n ≤ data.1.length)
    (h : Varint.size data.1 + (n + 32) ≤ data.1.length) :
    (arrayTo (behind data n hn) store keySize).run (machine data.1 allocates) =
      ⟨.ok (behind data (n + 32) h), [(behind data n hn).jump keySize],
        [store (slice data.1 (Varint.size data.1 + n) 32)]⟩ := by
  have hkey : keySize.toNat = 32 := rfl
  have hroom : (behind data n hn).index + keySize.toNat ≤ data.1.length :=
    (Nat.add_assoc _ _ _).trans_le h
  refine (run_arrayTo (behind data n hn) store le_rfl hroom).trans ?_
  simp only [behind, hkey, Nat.add_assoc]

theorem run_key_past {n : Nat} (store : List UInt8 → Member)
    (hn : Varint.size data.1 + n ≤ data.1.length)
    (h : data.1.length < Varint.size data.1 + (n + 32)) :
    (arrayTo (behind data n hn) store keySize).run (machine data.1 allocates) =
      ⟨.stopped .outOfRange, [], []⟩ := by
  have hsmall := data.2
  have hkey : keySize.toNat = 32 := rfl
  exact run_arrayTo_past (behind data n hn) store (by omega) h

/-- The reader moves to the last four bytes; the move wraps around if fewer are left. -/
theorem run_skip (h : Varint.size data.1 + 64 ≤ data.1.length) (hlast : 4 ≤ data.1.length) :
    ((behind data 64 h).skip (restSize (behind data 64 h)) : Prog Member _).run
        (machine data.1 allocates) =
      ⟨.ok ⟨data.1.length - 4, Nat.sub_le _ _, data.2.trans (by decide)⟩,
        [(behind data 64 h).jump (restSize (behind data 64 h))], []⟩ := by
  have hlanding := restSize_landing (behind data 64 h) hlast
  refine (BlobReader.run_advance _ (hlanding.trans_le (Nat.sub_le _ _))).trans ?_
  simp only [hlanding]

theorem skip_wraps_iff (h : Varint.size data.1 + 64 ≤ data.1.length) :
    ((behind data 64 h).jump (restSize (behind data 64 h))).wraps = false ↔
      Varint.size data.1 + 68 ≤ data.1.length := by
  have hdata := data.2
  have hrest : (restSize (behind data 64 h)).toNat =
      (2 ^ 64 - 4 + (data.1.length - (Varint.size data.1 + 64))) % 2 ^ 64 := by
    have hleft : (UInt64.ofNat (data.1.length - (Varint.size data.1 + 64))).toNat =
        data.1.length - (Varint.size data.1 + 64) :=
      UInt64.toNat_ofNat_of_lt' (by change _ < 2 ^ 64; omega)
    refine (UInt64.toNat_sub ..).trans ?_
    change (2 ^ 64 - 4 + (UInt64.ofNat (data.1.length - (Varint.size data.1 + 64))).toNat) % _ = _
    rw [hleft]
  have htarget : ((behind data 64 h).jump (restSize (behind data 64 h))).target =
      Varint.size data.1 + 64 + (restSize (behind data 64 h)).toNat := rfl
  rw [Jump.wraps, decide_eq_false_iff_not, htarget, hrest]
  omega

/-- What follows the tag. -/
theorem run_members_tail (allocates : Nat → Bool) (h : Varint.size data.1 ≤ data.1.length) :
    (members data).run (machine data.1 allocates) =
      (((arrayTo (behind data 0 h) .publicSpendKey keySize).run (machine data.1 allocates)).bind
        fun ar => ((arrayTo ar .publicViewKey keySize).run (machine data.1 allocates)).bind
          fun ar => ((ar.skip (restSize ar)).run (machine data.1 allocates)).bind
            fun ar => ((arrayTo ar .checksum (UInt64.ofNat checksumSize)).run
              (machine data.1 allocates)).bind fun _ => ⟨.ok (), [], []⟩).note
        (.tag (tagOf data.1)) := by
  have hstart : (members data).run (machine data.1 allocates) = _ := run_bind_ok (run_tag data h)
  simp only [run_bind, run_pure] at hstart
  rw [hstart]
  rfl

/-- The tag ends, but the keys do not both fit behind it. -/
theorem run_members_keys (htag : Varint.size data.1 ≤ data.1.length)
    (h : data.1.length < Varint.size data.1 + 64) :
    ∃ checks, (members data).run (machine data.1 allocates) =
      ⟨.stopped .outOfRange, checks, .tag (tagOf data.1) ::
        if Varint.size data.1 + 32 ≤ data.1.length then
          [.publicSpendKey (slice data.1 (Varint.size data.1) 32)]
        else []⟩ ∧ ∀ j ∈ checks, j.wraps = false := by
  have hdata := data.2
  have hkey : keySize.toNat = 32 := rfl
  rw [run_members_tail allocates htag]
  by_cases hspend : Varint.size data.1 + 32 ≤ data.1.length
  · rw [if_pos hspend, run_key .publicSpendKey htag hspend]
    dsimp only [Run.bind]
    rw [run_key_past .publicViewKey hspend h]
    refine ⟨_, rfl, fun j hj => ?_⟩
    obtain rfl := List.mem_singleton.mp hj
    exact jump_wraps _ (by omega)
  · rw [if_neg hspend, run_key_past .publicSpendKey htag (by omega)]
    exact ⟨_, rfl, fun j hj => absurd hj List.not_mem_nil⟩

theorem run_members (h : Varint.size data.1 + 64 ≤ data.1.length) :
    ∃ checks, (members data).run (machine data.1 allocates) =
      ⟨.ok (), checks, readings data.1 (tagOf data.1)⟩ ∧
        ((∀ j ∈ checks, j.wraps = false) ↔ Varint.size data.1 + 68 ≤ data.1.length) := by
  have hdata := data.2
  have hkey : keySize.toNat = 32 := rfl
  have hfour : (UInt64.ofNat checksumSize).toNat = 4 := rfl
  have hpos := Varint.size_pos data.1
  let last : BlobReader 0 data.1.length :=
    ⟨data.1.length - 4, Nat.sub_le _ _, data.2.trans (by decide)⟩
  have hlast : last.index + (UInt64.ofNat checksumSize).toNat ≤ data.1.length := by
    change data.1.length - 4 + 4 ≤ _
    omega
  rw [run_members_tail allocates (by omega), run_key .publicSpendKey _ (by omega)]
  dsimp only [Run.bind]
  rw [run_key .publicViewKey _ h]
  dsimp only
  rw [run_skip h (by omega)]
  dsimp only
  rw [run_arrayTo last .checksum le_rfl hlast]
  refine ⟨_, rfl, ?_⟩
  rw [← skip_wraps_iff h]
  constructor
  · intro hall
    exact hall _ (by simp)
  · intro hskip j hj
    simp only [List.mem_append, List.mem_singleton, List.not_mem_nil, or_false] at hj
    rcases hj with rfl | rfl | rfl | rfl
    · exact jump_wraps _ (by omega)
    · exact jump_wraps _ (by omega)
    · exact hskip
    · exact jump_wraps _ (by omega)

end Members

section Decode

variable {below : Int → Int8} {address text : List UInt8} {tfTag : UInt64} {data : Data}

theorem parsed_eq_some : parsed below address = some (tfTag, text, data) ↔
    townforge address = some (tfTag, text) ∧ decodeData below text = some data := by
  unfold parsed
  cases townforge address with
  | none => exact ⟨nofun, fun h => nomatch h.1⟩
  | some prefixed =>
    obtain ⟨tag, rest⟩ := prefixed
    simp only [Option.map_eq_some_iff, Option.some.injEq, Prod.mk.injEq]
    constructor
    · rintro ⟨bytes, hbytes, rfl, rfl, rfl⟩
      exact ⟨⟨rfl, rfl⟩, hbytes⟩
    · rintro ⟨⟨rfl, rfl⟩, hbytes⟩
      exact ⟨data, hbytes, rfl, rfl, rfl⟩

theorem decode_unparsed (a : WalletAddress) (h : parsed below address = none) :
    decode below a address = (a, false) := by
  unfold parsed at h
  unfold decode
  cases htf : townforge address with
  | none => rfl
  | some found =>
    rw [htf] at h
    dsimp only at h ⊢
    rw [Option.map_eq_none_iff.mp h]

theorem decode_parsed (a : WalletAddress) (h : parsed below address = some (tfTag, text, data)) :
    decode below a address =
      (let run := (members data).run (machine data.1 fun _ => true)
      let a := run.events.foldl assign a
      if run.outcome = .ok () ∧ a.checksum = digest data.1 then
        ({ a with data := text, tag := if tfTag ≠ 0 then tfTag else a.tag }, true)
      else ({ a with tag := 0 }, false)) := by
  obtain ⟨htf, hdata⟩ := parsed_eq_some.mp h
  unfold decode
  rw [htf]
  dsimp only
  rw [hdata]

theorem decode_accepted (a : WalletAddress) (h : parsed below address = some (tfTag, text, data))
    (haccepts : Accepts data.1) :
    decode below a address = (accepted tfTag text data.1, true) := by
  obtain ⟨checks, hrun, -⟩ := run_members haccepts.room
  rw [decode_parsed a h, hrun]
  exact if_pos ⟨rfl, haccepts.checksum⟩

theorem decode_spoilt (a : WalletAddress) (h : parsed below address = some (tfTag, text, data))
    (hrefused : ¬ Accepts data.1) : decode below a address = (a.spoilt data.1, false) := by
  rw [decode_parsed a h, spoilt]
  rcases Nat.lt_or_ge data.1.length (Varint.size data.1) with htag | htag
  · rw [run_members_tag data htag, if_neg (show ¬ _ + 64 ≤ _ by omega),
      if_neg (show ¬ _ + 64 ≤ _ by omega), if_neg (show ¬ _ + 32 ≤ _ by omega)]
    exact if_neg fun hok => nomatch hok.1
  rcases Nat.lt_or_ge data.1.length (Varint.size data.1 + 64) with hkeys | hkeys
  · obtain ⟨checks, hrun, -⟩ := run_members_keys htag hkeys
    rw [hrun, if_neg (Nat.not_le.mpr hkeys), if_neg (Nat.not_le.mpr hkeys)]
    refine (if_neg fun hok => nomatch hok.1).trans ?_
    split <;> rfl
  · obtain ⟨checks, hrun, -⟩ := run_members hkeys
    rw [hrun, if_pos hkeys, if_pos hkeys, if_pos (show _ + 32 ≤ _ by omega)]
    exact if_neg fun hok => hrefused ⟨hkeys, hok.2⟩

/-- Whether an address is accepted does not depend on the one before. -/
theorem decode_eq_true_iff (a : WalletAddress) : (decode below a address).2 = true ↔
    ∃ tfTag text data, parsed below address = some (tfTag, text, data) ∧ Accepts data.1 := by
  cases h : parsed below address with
  | none =>
    rw [decode_unparsed a h]
    exact iff_of_false Bool.false_ne_true nofun
  | some found =>
    obtain ⟨tfTag, text, data⟩ := found
    by_cases haccepts : Accepts data.1
    · rw [decode_accepted a h haccepts]
      exact iff_of_true rfl ⟨tfTag, text, data, rfl, haccepts⟩
    · rw [decode_spoilt a h haccepts]
      refine iff_of_false Bool.false_ne_true ?_
      rintro ⟨_, _, _, heq, haccepts'⟩
      obtain ⟨rfl, rfl, rfl⟩ := Option.some.inj heq
      exact haccepts haccepts'

end Decode

end VeloxHash.WalletAddress
