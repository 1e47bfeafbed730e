import Mathlib.Data.List.TakeWhile
import VeloxHash.EthStratumClient
import VeloxHash.WideNonce

/-! The extra nonce of a KawPow pool, from its text over the nonce template in the blob to the
leading bits of the nonces that `Nonce::next` makes of it. -/

namespace VeloxHash

open CodeBuffer Splice TransitionSystem

namespace Strtoull

variable {a b ds es : List UInt8}

theorem value_lt (c : UInt8) : ((Hex.value c).getD 0).toNat < 16 := by
  have hall : ∀ i : Fin 256, ((Hex.value (UInt8.ofFin i)).getD 0).toNat < 16 := by decide +kernel
  exact hall c.toFin

theorem number_append (a b : List UInt8) :
    number (a ++ b) = number a * 16 ^ b.length + number b := by
  rw [number, List.map_append, Radix.value, List.reverse_append, Nat.ofDigits_append,
    List.length_reverse, List.length_map, Nat.add_comm, Nat.mul_comm]
  rfl

theorem number_lt (ds : List UInt8) : number ds < 16 ^ ds.length := by
  have hdigits : ∀ d ∈ ds.map fun c => ((Hex.value c).getD 0).toNat, d < 16 := by
    intro d hd
    obtain ⟨c, -, rfl⟩ := List.mem_map.mp hd
    exact value_lt c
  have hlt := Radix.value_lt (by norm_num) hdigits
  rwa [List.length_map] at hlt

/-- The leading digits of a number. -/
theorem number_take (ds : List UInt8) (n : Nat) :
    number ds / 16 ^ (ds.length - n) = number (ds.take n) := by
  have hsplit := number_append (ds.take n) (ds.drop n)
  rw [List.take_append_drop, List.length_drop] at hsplit
  have hlt := number_lt (ds.drop n)
  rw [List.length_drop] at hlt
  rw [hsplit, Nat.mul_comm, Nat.mul_add_div (by positivity), Nat.div_eq_of_lt hlt, Nat.add_zero]

def IsHex (ds : List UInt8) : Prop := ∀ c ∈ ds, (Hex.value c).isSome

instance (ds : List UInt8) : Decidable (IsHex ds) := List.decidableBAll _ ds

/-- Digits are told apart by what they stand for, but for their case. -/
theorem number_inj (hds : IsHex ds) (hes : IsHex es) (hlength : ds.length = es.length) :
    number ds = number es ↔ ds.map Hex.value = es.map Hex.value := by
  have hsome (l : List UInt8) (hl : IsHex l) : l.map Hex.value =
      (l.map fun c => ((Hex.value c).getD 0).toNat).map fun n => some (UInt8.ofNat n) := by
    rw [List.map_map]
    refine List.map_congr_left fun c hc => ?_
    obtain ⟨x, hx⟩ := Option.isSome_iff_exists.mp (hl c hc)
    simp [hx]
  constructor
  · intro h
    have hmaps := Radix.value_inj (b := 16) (by norm_num)
      (List.forall_mem_map.mpr fun c _ => value_lt c)
      (List.forall_mem_map.mpr fun c _ => value_lt c) (by simpa using hlength) h
    rw [hsome ds hds, hsome es hes, hmaps]
  · intro h
    have hmaps := congrArg (List.map fun x : Option UInt8 => (x.getD 0).toNat) h
    rw [List.map_map, List.map_map] at hmaps
    exact congrArg (Radix.value 16) hmaps

/-- `0` to the right of digits. -/
theorem number_zeros (n : Nat) : number (List.replicate n 48) = 0 := by
  induction n with
  | zero => rfl
  | succ n ih => rw [List.replicate_succ', number_append, ih]; rfl

theorem digits_eq_self (h : IsHex ds) : digits ds = ds :=
  List.takeWhile_eq_self_iff.mpr h

theorem hex_ne {c : UInt8} (h : (Hex.value c).isSome) :
    isSpace c = false ∧ c ≠ 43 ∧ c ≠ 45 ∧ c ≠ 120 ∧ c ≠ 88 := by
  have hall : ∀ i : Fin 256, (Hex.value (UInt8.ofFin i)).isSome →
      isSpace (UInt8.ofFin i) = false ∧ UInt8.ofFin i ≠ 43 ∧ UInt8.ofFin i ≠ 45 ∧
        UInt8.ofFin i ≠ 120 ∧ UInt8.ofFin i ≠ 88 := by decide +kernel
  exact hall c.toFin h

/-- Digits alone are read as they stand. -/
theorem scan_hex (h : IsHex ds) (hne : ds ≠ []) : scan ds = some (false, number ds) := by
  obtain ⟨c, rest, rfl⟩ := List.exists_cons_of_ne_nil hne
  obtain ⟨hspace, hplus, hminus, -, -⟩ := hex_ne (h c List.mem_cons_self)
  have hdrop : (c :: rest).dropWhile isSpace = c :: rest := by
    rw [List.dropWhile_cons, hspace]
    rfl
  have hsign : sign (c :: rest) = (false, c :: rest) := by
    unfold sign
    split
    case h_1 heq => exact absurd (List.cons.inj heq).1 hplus
    case h_2 heq => exact absurd (List.cons.inj heq).1 hminus
    case h_3 => rfl
  have hbase : dropBase (c :: rest) = c :: rest := by
    unfold dropBase
    split
    case h_2 => rfl
    case h_1 x rest' heq =>
      obtain ⟨-, rfl⟩ := List.cons.inj heq
      obtain ⟨-, -, -, hx, hX⟩ := hex_ne (h x (by simp))
      rw [if_neg fun hbase => hbase.1.elim hx hX]
      exact heq.symm
  rw [scan, hdrop, hsign]
  dsimp only
  rw [hbase, digits_eq_self h, if_neg hne]

end Strtoull

open Strtoull

/-- Two digits a byte, the last byte in front. -/
def reversePairs : List UInt8 → List UInt8
  | c :: d :: rest => reversePairs rest ++ [c, d]
  | _ => []

theorem length_reversePairs {hex bytes : List UInt8} (h : Hex.Decodes hex bytes) :
    (reversePairs hex).length = hex.length := by
  induction h with
  | nil => rfl
  | cons _ _ _ ih =>
    rw [reversePairs, List.length_append, ih]
    rfl

theorem isHex_reversePairs {hex bytes : List UInt8} (h : Hex.Decodes hex bytes) :
    IsHex (reversePairs hex) := by
  induction h with
  | nil => exact fun c hc => absurd hc List.not_mem_nil
  | cons hx hy _ ih =>
    intro c hc
    rcases List.mem_append.mp hc with hc | hc
    · exact ih c hc
    · rcases List.mem_pair.mp hc with rfl | rfl
      · rw [hx]
        rfl
      · rw [hy]
        rfl

/-- Bytes in memory order are a number whose digits come in pairs from the end. -/
theorem number_reversePairs {hex bytes : List UInt8} (h : Hex.Decodes hex bytes) :
    number (reversePairs hex) = ofLe bytes := by
  induction h with
  | nil => rfl
  | @cons c d x y rest bytes hx hy _ ih =>
    have hall : ∀ i j : Fin 16, (UInt8.ofNat i * 16 ||| UInt8.ofNat j).toNat = i * 16 + j := by
      decide +kernel
    have hx16 := value_lt c
    have hy16 := value_lt d
    rw [hx, Option.getD_some] at hx16
    rw [hy, Option.getD_some] at hy16
    have hbyte : (x * 16 ||| y).toNat = x.toNat * 16 + y.toNat := by
      simpa using hall ⟨x.toNat, hx16⟩ ⟨y.toNat, hy16⟩
    have hpair : number [c, d] = x.toNat * 16 + y.toNat := by
      rw [show [c, d] = [c] ++ [d] from rfl, number_append]
      simp [number, Radix.value, hx, hy]
    rw [reversePairs, number_append, ih, hpair, ofLe, hbyte, show [c, d].length = 2 from rfl]
    omega

/-- The nonce in the blob of a job. -/
def Job.nonceWords (j : Job) : Nonce.Words := ⟨j.nonceOf j.blob, j.highWord⟩

theorem Job.nonceWords_value {j : Job} (hsize : j.nonceOffset + 8 ≤ j.blob.length) :
    j.nonceWords.value = ofLe (slice j.blob j.nonceOffset 8) := by
  have hword {p : Nat} (hp : p + 4 ≤ j.blob.length) :
      (UInt32.ofNat (ofLe (slice j.blob p 4))).toNat = ofLe (slice j.blob p 4) := by
    have hlt := ofLe_lt (slice j.blob p 4)
    rw [length_slice hp] at hlt
    rw [UInt32.toNat_ofNat']
    exact Nat.mod_eq_of_lt hlt
  have hsplit : slice j.blob j.nonceOffset 8 =
      slice j.blob j.nonceOffset 4 ++ slice j.blob (j.nonceOffset + 4) 4 := by
    rw [slice, slice, slice, ← List.drop_drop]
    exact List.take_add (l := j.blob.drop j.nonceOffset) (i := 4) (j := 4)
  rw [hsplit, ofLe_append, length_slice (by omega), Nonce.Words.value, nonceWords, nonceOf,
    highWord, hword (by omega), hword hsize]
  omega

namespace EthStratumClient

/-- Calls of `Nonce::next` on one nonce, one after another, and what they have made of it. -/
structure Series where
  words : Nonce.Words
  shared : Nonce.Shared
  call : Option (Nonce.Args × Nonce.Pc) := none
  obtained : List Nonce.Words := []

inductive SeriesEvent
  | next (index : Fin 2) (reserveCount : UInt32)
  | access
  | others (shared : Nonce.Shared)

/-- A call moves on to its next access, or returns. -/
def Series.move (s : Series) (a : Nonce.Args) (shared : Nonce.Shared) : Nonce.Pc → Series
  | .done (some counter) =>
    let words := Nonce.write (Nonce.effectiveMask a.mask) counter s.words
    ⟨words, shared, none, words :: s.obtained⟩
  | .done none => { s with shared, call := none }
  | pc => { s with shared, call := some (a, pc) }

def seriesStep (mask : UInt64) (s : Series) : SeriesEvent → Option Series
  | .next index reserveCount =>
    if s.call = none then some { s with call := some (⟨index, reserveCount, mask⟩, .enter) }
    else none
  | .access => s.call.bind fun (a, pc) =>
    (pc.step a s.shared).map fun next => s.move a next.1 next.2
  | .others shared => some { s with shared }

/-- A nonce that calls of `Nonce::next` with the job's mask make in the job's blob. -/
def Obtained (job : Job) (words : Nonce.Words) : Prop :=
  ∃ shared events s, exec (seriesStep job.nonceMask) { words := job.nonceWords, shared } events =
    some s ∧ words ∈ s.obtained

/-- The leading bits of a nonce are the digits of the extra nonce. -/
def Leads (digits : List UInt8) (words : Nonce.Words) : Prop :=
  IsHex digits ∧ words.value / 2 ^ (64 - 4 * digits.length) = number digits

section Series

variable {mask : UInt64} {s t : Series} {e : SeriesEvent} {k top : Nat}

/-- The bits above the mask stay, in the blob and in all that was made of it. -/
structure SeriesInv (mask : UInt64) (k top : Nat) (s : Series) : Prop where
  words : s.words.value / 2 ^ k = top
  obtained : ∀ w ∈ s.obtained, w.value / 2 ^ k = top
  call : ∀ a pc, s.call = some (a, pc) → a.mask = mask ∧
    ∀ counter, pc.holds = some counter → counter ≤ Nonce.effectiveMask mask

theorem seriesInv_move (hk : k ≤ 63) (hmask : (Nonce.effectiveMask mask).toNat = 2 ^ k - 1)
    (hs : SeriesInv mask k top s) {a : Nonce.Args} {pc : Nonce.Pc} (hcall : s.call = some (a, pc))
    {next : Nonce.Shared × Nonce.Pc} (hnext : pc.step a s.shared = some next) :
    SeriesInv mask k top (s.move a next.1 next.2) := by
  obtain ⟨hamask, hle⟩ := hs.call a pc hcall
  have hnextle {counter : UInt64} (h : next.2.holds = some counter) :
      counter ≤ Nonce.effectiveMask mask := by
    have := Nonce.step_le hnext (hamask.symm ▸ hle) h
    rwa [hamask] at this
  obtain ⟨shared, pc'⟩ := next
  have hstay : SeriesInv mask k top { s with shared, call := some (a, pc') } := by
    refine ⟨hs.words, hs.obtained, fun a' pc'' h => ?_⟩
    cases h
    exact ⟨hamask, fun counter h => hnextle h⟩
  cases pc' with
  | enter => exact hstay
  | fetch => exact hstay
  | pause counter short => exact hstay
  | done result =>
    cases result with
    | none => exact ⟨hs.words, hs.obtained, fun _ _ h => nomatch h⟩
    | some counter =>
      have hwritten := (Nonce.write_value hk hmask (UInt64.le_iff_toNat_le.mp (hnextle rfl))
        s.words).2
      rw [hs.words] at hwritten
      have hmove : s.move a shared (.done (some counter)) =
          ⟨Nonce.write (Nonce.effectiveMask a.mask) counter s.words, shared, none,
            Nonce.write (Nonce.effectiveMask a.mask) counter s.words :: s.obtained⟩ := rfl
      rw [hmove, hamask]
      exact ⟨hwritten, List.forall_mem_cons.mpr ⟨hwritten, hs.obtained⟩,
        fun _ _ h => (Option.some_ne_none _ h.symm).elim⟩

theorem seriesInv_step (hk : k ≤ 63) (hmask : (Nonce.effectiveMask mask).toNat = 2 ^ k - 1)
    (hs : SeriesInv mask k top s) (h : seriesStep mask s e = some t) :
    SeriesInv mask k top t := by
  cases e with
  | next index reserveCount =>
    obtain ⟨-, h⟩ := Option.ite_none_right_eq_some.mp h
    obtain rfl := Option.some.inj h
    refine ⟨hs.words, hs.obtained, fun a pc hcall => ?_⟩
    cases hcall
    exact ⟨rfl, fun _ h => nomatch h⟩
  | access =>
    obtain ⟨⟨a, pc⟩, hcall, h⟩ := Option.bind_eq_some_iff.mp h
    obtain ⟨next, hnext, rfl⟩ := Option.map_eq_some_iff.mp h
    exact seriesInv_move hk hmask hs hcall hnext
  | others shared =>
    obtain rfl := Option.some.inj h
    exact ⟨hs.words, hs.obtained, hs.call⟩

end Series

/-- What `Nonce::next` never touches. -/
theorem obtained_top {job : Job} {words : Nonce.Words} {k : Nat} (hk : k ≤ 63)
    (hmask : (Nonce.effectiveMask job.nonceMask).toNat = 2 ^ k - 1) (h : Obtained job words) :
    words.value / 2 ^ k = job.nonceWords.value / 2 ^ k := by
  obtain ⟨shared, events, s, hrun, hmem⟩ := h
  have hinv := (run_of_exec hrun).invariant
    (I := SeriesInv job.nonceMask k (job.nonceWords.value / 2 ^ k))
    (fun _ _ _ _ hs h => seriesInv_step hk hmask hs h)
    ⟨rfl, fun _ h => absurd h List.not_mem_nil, fun _ _ h => nomatch h⟩
  exact hinv.obtained words hmem

/-- There is always a first nonce. -/
theorem obtained_first {job : Job} {k : Nat} (hk : 0 < k)
    (hmask : (Nonce.effectiveMask job.nonceMask).toNat = 2 ^ k - 1) :
    ∃ words, Obtained job words := by
  have hpos : 0 < (Nonce.effectiveMask job.nonceMask).toNat := by
    have := Nat.one_lt_two_pow (Nat.pos_iff_ne_zero.mp hk)
    omega
  let shared : Nonce.Shared := {}
  let a : Nonce.Args := ⟨0, 1, job.nonceMask⟩
  have hrefuses : Nonce.refuses a = false :=
    Nonce.not_refuses (show 1 ≤ (1 : UInt32).toNat by decide) (Nat.zero_le _)
  have hexamine : Nonce.examine (Nonce.effectiveMask job.nonceMask) 1 0 = .inside := by
    unfold Nonce.examine
    rw [if_neg (UInt64.not_lt.mpr (UInt64.zero_le)), if_neg, if_neg (by decide)]
    rw [UInt64.sub_zero, UInt64.le_iff_toNat_le]
    change ¬ _ ≤ 0
    omega
  have hfetch : Nonce.Pc.afterFetch a 0 = .done (some 0) := by
    unfold Nonce.Pc.afterFetch
    rw [hexamine]
  have hstep : Nonce.Pc.enter.step a shared = some (shared.fetchAdd 0 1, .done (some 0)) := by
    rw [Nonce.Pc.step, hrefuses, if_neg Bool.false_ne_true, Nonce.Pc.fetchStep]
    exact congrArg (fun pc => some (shared.fetchAdd 0 1, pc)) hfetch
  let words := Nonce.write (Nonce.effectiveMask job.nonceMask) 0 job.nonceWords
  refine ⟨words, shared, [.next 0 1, .access], ⟨words, shared.fetchAdd 0 1, none, [words]⟩, ?_,
    List.mem_cons_self⟩
  simp only [exec, seriesStep, if_true, Option.bind_some]
  change ((Nonce.Pc.enter.step a shared).map _).bind _ = _
  rw [hstep]
  rfl

theorem setBlobText_spec {j : Job} {hex : List UInt8} (hempty : j.blob = [])
    (h : (j.setBlobText hex).blob ≠ []) : ∃ bytes nicehash, Hex.Decodes hex bytes ∧
      j.nonceOffset + j.nonceSize ≤ bytes.length ∧
        j.setBlobText hex = { j with blob := bytes, nicehash } := by
  unfold Job.setBlobText at h ⊢
  cases hdecode : Hex.decode hex with
  | none =>
    rw [hdecode] at h
    exact absurd hempty h
  | some bytes =>
    rw [hdecode] at h
    change ((j.setBlob bytes).getD j).blob ≠ [] at h
    change ∃ bytes' nicehash, _ ∧ _ ∧ (j.setBlob bytes).getD j = _
    unfold Job.setBlob at h ⊢
    split at h
    case isFalse => exact absurd hempty h
    case isTrue hsize =>
      rw [if_pos hsize]
      exact ⟨bytes, _, Hex.decodes_of_decode hdecode, hsize.1, rfl⟩

/-- The nonce field of a blob text, as digits from the leading one on. -/
def fieldDigits (header : List UInt8) (extraNonce : UInt64) : List UInt8 :=
  reversePairs (slice (blobText header extraNonce) 64 16)

/-- The nonce field starts with the digits. -/
def InPlace (header : List UInt8) (extraNonce : UInt64) (digits : List UInt8) : Prop :=
  ((fieldDigits header extraNonce).take digits.length).map Hex.value = digits.map Hex.value

instance (header : List UInt8) (extraNonce : UInt64) (digits : List UInt8) :
    Decidable (InPlace header extraNonce digits) := by unfold InPlace; infer_instance

theorem resize_short {l : List UInt8} {n : Nat} (h : l.length ≤ n) :
    resize l n = l ++ List.replicate (n - l.length) 48 := by
  rw [resize, List.take_of_length_le]
  rw [List.length_append, List.length_replicate]
  omega

theorem slice_blobText {header : List UInt8} (h : header.length = 64) (extraNonce : UInt64) :
    slice (blobText header extraNonce) 64 16 = nonceTemplate extraNonce := by
  have htemplate : (nonceTemplate extraNonce).length = 16 := by
    rw [nonceTemplate, (Hex.decodes_encode _).length_eq, length_le]
  rw [blobText, resize_short (by rw [List.length_append]; omega), slice, List.append_assoc,
    ← h, List.drop_left, ← htemplate, List.take_left]

/-- The padded digits are the extra nonce. -/
theorem stoull_hex {ds : List UInt8} (hhex : IsHex ds) (hlen : ds.length ≤ 16) {v : UInt64}
    (h : stoull (resize ds 16) = .ok v) : v.toNat = number ds * 16 ^ (16 - ds.length) := by
  have hpad : IsHex (resize ds 16) := by
    rw [resize_short hlen]
    intro c hc
    rcases List.mem_append.mp hc with hc | hc
    · exact hhex c hc
    · rw [List.eq_of_mem_replicate hc]
      rfl
  have hne : resize ds 16 ≠ [] := by
    rw [resize_short hlen]
    intro hnil
    have hlength := congrArg List.length hnil
    rw [List.length_append, List.length_replicate, List.length_nil] at hlength
    omega
  have hnumber : number (resize ds 16) = number ds * 16 ^ (16 - ds.length) := by
    rw [resize_short hlen, number_append, number_zeros, List.length_replicate, Nat.add_zero]
  have hlt : number (resize ds 16) < 2 ^ 64 := by
    have := number_lt (resize ds 16)
    rw [resize_short hlen, List.length_append, List.length_replicate, Nat.add_sub_cancel' hlen]
      at this
    rwa [resize_short hlen]
  rw [stoull, scan_hex hpad hne] at h
  dsimp only at h
  rw [if_pos hlt] at h
  obtain rfl := Except.ok.inj h
  rw [signed, if_neg Bool.false_ne_true, UInt64.toNat_ofNat', Nat.mod_eq_of_lt hlt, hnumber]

theorem inPlace_of_length {header ds : List UInt8} {v : UInt64} (hheader : header.length = 64)
    (hhex : IsHex ds) (hlen : ds.length ≤ 16) (h : stoull (resize ds 16) = .ok v) :
    InPlace header v ds := by
  have hdecodes := Hex.decodes_encode (le v.toNat 8)
  have hlength : (fieldDigits header v).length = 16 := by
    rw [fieldDigits, slice_blobText hheader]
    refine (length_reversePairs hdecodes).trans ?_
    rw [hdecodes.length_eq, length_le]
  have hnumber : number (fieldDigits header v) = v.toNat := by
    rw [fieldDigits, slice_blobText hheader]
    refine (number_reversePairs hdecodes).trans ?_
    rw [ofLe_le]
    exact Nat.mod_eq_of_lt v.toNat_lt
  have hfield : IsHex (fieldDigits header v) := by
    rw [fieldDigits, slice_blobText hheader]
    exact isHex_reversePairs hdecodes
  refine (number_inj (fun c hc => hfield c (List.mem_of_mem_take hc)) hhex ?_).mp ?_
  · rw [List.length_take, hlength]
    omega
  · rw [← number_take, hlength, hnumber, stoull_hex hhex hlen h]
    exact Nat.mul_div_cancel _ (by positivity)

theorem utf8ByteSize_cString_le (s : String) : (cString s).utf8ByteSize ≤ s.utf8ByteSize := by
  have happend (a b : List Char) :
      String.ofList (a ++ b) = String.ofList a ++ String.ofList b := by
    rw [← String.toByteArray_inj]
    simp
  have hsplit : s = cString s ++ String.ofList (s.toList.dropWhile (· ≠ '\x00')) := by
    rw [cString, ← happend, List.takeWhile_append_dropWhile, String.ofList_toList]
  rw [hsplit, String.utf8ByteSize_append, ← hsplit]
  exact Nat.le_add_right _ _

theorem length_bytesOf (s : String) : (bytesOf s).length = s.utf8ByteSize := by
  rw [bytesOf, Array.length_toList]
  rfl

theorem setExtraNonce_eq_ok {nonce : Json} {v : UInt64} {e : String}
    (h : setExtraNonce nonce = .ok (v, e)) :
    (bytesOf e).length ≤ 8 ∧ stoull (resize (bytesOf e) 16) = .ok v := by
  cases nonce with
  | string s =>
    unfold setExtraNonce at h
    dsimp only at h
    split at h
    case isTrue => exact nomatch h
    case isFalse =>
      split at h
      case isTrue => exact nomatch h
      case isFalse hlong =>
        cases hvalue : stoull (resize (text (dropPrefix s)) 16) with
        | error e' =>
          rw [hvalue] at h
          exact nomatch h
        | ok value =>
          rw [hvalue] at h
          obtain ⟨rfl, rfl⟩ := Prod.mk.inj (Except.ok.inj h)
          refine ⟨?_, hvalue⟩
          rw [length_bytesOf]
          exact (utf8ByteSize_cString_le _).trans (Nat.not_lt.mp hlong)
  | _ => exact nomatch h

theorem kawpowJob_eq_ok {v : UInt64} {j job : Job} {arr : List Json} {header : List UInt8}
    (hheader : getString (arr.getD 1 .null) = .ok header) (h : kawpowJob v j arr = .ok job) :
    ∃ target height, job = { (j.setBlobText (blobText header v)).setDiff target with height } := by
  unfold kawpowJob at h
  rw [hheader] at h
  change (getString (arr.getD 3 .null) >>= fun target =>
    getUint64 (arr.getD 5 .null) >>= _) = _ at h
  cases htarget : getString (arr.getD 3 .null) with
  | error e =>
    rw [htarget] at h
    exact nomatch h
  | ok target =>
    rw [htarget] at h
    cases hheight : getUint64 (arr.getD 5 .null) with
    | error e =>
      rw [hheight] at h
      exact nomatch h
    | ok height =>
      rw [hheight] at h
      exact ⟨_, height, (Except.ok.inj h).symm⟩

theorem field_spec {job : Job} {header : List UInt8} {v : UInt64}
    (hdecodes : Hex.Decodes (blobText header v) job.blob) (hoffset : job.nonceOffset = 32)
    (hsize : 40 ≤ job.blob.length) : IsHex (fieldDigits header v) ∧
      (fieldDigits header v).length = 16 ∧
        number (fieldDigits header v) = job.nonceWords.value := by
  have hfield : Hex.Decodes (slice (blobText header v) 64 16) (slice job.blob 32 8) :=
    (hdecodes.drop 32).take 8
  refine ⟨isHex_reversePairs hfield, (length_reversePairs hfield).trans ?_,
    (number_reversePairs hfield).trans ?_⟩
  · rw [hfield.length_eq, length_slice (by omega)]
  · rw [Job.nonceWords_value (by omega), hoffset]

/-- No nonce differs from the pool's in the bits of the extra nonce. -/
theorem obtained_leading {job : Job} (h8 : job.nonceSize = 8) (hplain : job.nicehash = false)
    (hlen : job.extraNonce.utf8ByteSize ≤ 8) {words : Nonce.Words} (h : Obtained job words) :
    words.value / 2 ^ (64 - 4 * job.extraNonce.utf8ByteSize) =
      job.nonceWords.value / 2 ^ (64 - 4 * job.extraNonce.utf8ByteSize) := by
  have hvalue (w : Nonce.Words) : w.value < 2 ^ 64 := by
    have hlo := w.lo.toNat_lt
    have hhi := w.hi.toNat_lt
    rw [Nonce.Words.value]
    omega
  rcases Nat.eq_zero_or_pos job.extraNonce.utf8ByteSize with hzero | hpos
  · rw [hzero, Nat.div_eq_of_lt (hvalue words), Nat.div_eq_of_lt (hvalue job.nonceWords)]
  · have hbits : job.wideBits = 64 - 4 * job.extraNonce.utf8ByteSize := by
      rw [Job.wideBits]
      omega
    have hmask := Job.effectiveMask_wide h8 hplain
    rw [hbits] at hmask
    exact obtained_top (by omega) hmask h

/-- The nonces of a KawPow job lead with the extra nonce exactly if that is a hex number, in
its place in the blob. -/
theorem leads_iff {c : Client} {nonce : Json} {v : UInt64} {e id : String} {arr : List Json}
    {header : List UInt8} {job : Job} (hnonce : setExtraNonce nonce = .ok (v, e))
    (hc : c.extraNonce = (v, some e)) (halgo : algo c = .kawpowRvn)
    (hheader : getString (arr.getD 1 .null) = .ok header)
    (hjob : kawpowJob v (newJob c id) arr = .ok job) (hblob : job.blob ≠ [])
    (hplain : job.nicehash = false) :
    (∀ words, Obtained job words → Leads (bytesOf e) words) ↔
      IsHex (bytesOf e) ∧ (header.length = 64 ∨ InPlace header v (bytesOf e)) := by
  obtain ⟨hlen, hstoull⟩ := setExtraNonce_eq_ok hnonce
  obtain ⟨target, height, hjob⟩ := kawpowJob_eq_ok hheader hjob
  have hset : ((newJob c id).setBlobText (blobText header v)).blob ≠ [] := by
    rw [hjob] at hblob
    exact hblob
  obtain ⟨bytes, nicehash, hdecodes, hsize, heq⟩ := setBlobText_spec rfl hset
  rw [heq] at hjob
  have hextra : job.extraNonce = e := by
    rw [hjob]
    change c.extraNonce.2.getD "" = e
    rw [hc]
    rfl
  have halgorithm : job.algorithm = .kawpowRvn := by
    rw [hjob]
    exact halgo
  have hsize' : 40 ≤ job.blob.length := by
    have hnewJob : (newJob c id).algorithm = .kawpowRvn := halgo
    rw [Job.nonceOffset, Job.nonceSize, hnewJob] at hsize
    rw [hjob]
    exact hsize
  have hblob' : Hex.Decodes (blobText header v) job.blob := by
    rw [hjob]
    exact hdecodes
  have hoffset : job.nonceOffset = 32 := by
    rw [Job.nonceOffset, halgorithm]
    rfl
  obtain ⟨hhex, hlength, hnumber⟩ := field_spec hblob' hoffset hsize'
  have h8 : job.nonceSize = 8 := by
    rw [Job.nonceSize, halgorithm]
    rfl
  have hbytes : (bytesOf e).length = job.extraNonce.utf8ByteSize := by rw [hextra, length_bytesOf]
  have hpow : 2 ^ (64 - 4 * (bytesOf e).length) = 16 ^ (16 - (bytesOf e).length) := by
    rw [show 16 = 2 ^ 4 by norm_num, ← pow_mul]
    congr 1
    omega
  -- the leading bits of every nonce are the leading digits of the field
  have hleading {words : Nonce.Words} (h : Obtained job words) :
      words.value / 2 ^ (64 - 4 * (bytesOf e).length) =
        number ((fieldDigits header v).take (bytesOf e).length) := by
    have htop := obtained_leading h8 hplain (by omega) h
    rw [← hbytes] at htop
    rw [htop, ← hnumber, hpow, ← number_take, hlength]
  have hplace (he : IsHex (bytesOf e)) :
      number ((fieldDigits header v).take (bytesOf e).length) = number (bytesOf e) ↔
        InPlace header v (bytesOf e) := by
    refine number_inj (fun d hd => hhex d (List.mem_of_mem_take hd)) he ?_
    rw [List.length_take, hlength]
    omega
  constructor
  · intro h
    obtain ⟨words, hwords⟩ := obtained_first (k := job.wideBits) (by
      rw [Job.wideBits]
      omega) (Job.effectiveMask_wide h8 hplain)
    obtain ⟨he, hlead⟩ := h words hwords
    exact ⟨he, .inr ((hplace he).mp ((hleading hwords).symm.trans hlead))⟩
  · rintro ⟨he, hheader⟩ words hwords
    refine ⟨he, (hleading hwords).trans ((hplace he).mpr ?_)⟩
    exact hheader.elim (inPlace_of_length · he (by omega) hstoull) fun h => h

/-- The client of a KawPow pool with an extra nonce. -/
def kawpowClient (extraNonce : UInt64) (e : String) : Client where
  algorithm := .kawpowRvn
  extraNonce := (extraNonce, some e)

def zeroHeader (n : Nat) : String := String.ofList (List.replicate n '0')

def kawpowParams (n : Nat) : List Json :=
  [.string "1", .string (zeroHeader n), .null, .string "00ff", .null, .int 7]

/-- The job for such parameters. -/
def zeroJob (e : String) (nonce : List UInt8) : Job where
  algorithm := .kawpowRvn
  id := "1"
  extraNonce := e
  height := 7
  target := 0x00FF00FF00FF00FF
  blob := List.replicate 32 0 ++ nonce ++ List.replicate 36 0

theorem kawpowJob_abcd : kawpowJob 0xABCD000000000000
    (newJob (kawpowClient 0xABCD000000000000 "abcd") "1") (kawpowParams 64) =
      .ok (zeroJob "abcd" [0, 0, 0, 0, 0, 0, 0xCD, 0xAB]) := by decide +kernel

theorem leads_iff_abcd :
    (∀ words, Obtained (zeroJob "abcd" [0, 0, 0, 0, 0, 0, 0xCD, 0xAB]) words →
      Leads (bytesOf "abcd") words) ↔ IsHex (bytesOf "abcd") ∧
        ((text (zeroHeader 64)).length = 64 ∨
          InPlace (text (zeroHeader 64)) 0xABCD000000000000 (bytesOf "abcd")) :=
  have hnonce : setExtraNonce (.string "0xabcd") = .ok (0xABCD000000000000, "abcd") := by
    decide +kernel
  leads_iff hnonce rfl rfl rfl kawpowJob_abcd (List.cons_ne_nil _ _) rfl

/-- `stoull` reads `0g12` as zero, and a header of 62 digits shifts the nonce template by a byte. -/
theorem lost_digits :
    (setExtraNonce (.string "0g12") = .ok (0, "0g12") ∧
      kawpowJob 0 (newJob (kawpowClient 0 "0g12") "1") (kawpowParams 64) =
        .ok (zeroJob "0g12" [0, 0, 0, 0, 0, 0, 0, 0]) ∧
      ∃ words, Obtained (zeroJob "0g12" [0, 0, 0, 0, 0, 0, 0, 0]) words ∧
        words.value / 2 ^ 48 = 0 ∧ ¬ Leads (bytesOf "0g12") words) ∧
    setExtraNonce (.string "abcd") = .ok (0xABCD000000000000, "abcd") ∧
      kawpowJob 0xABCD000000000000 (newJob (kawpowClient 0xABCD000000000000 "abcd") "1")
        (kawpowParams 62) = .ok (zeroJob "abcd" [0, 0, 0, 0, 0, 0xCD, 0xAB, 0]) ∧
      ∃ words, Obtained (zeroJob "abcd" [0, 0, 0, 0, 0, 0xCD, 0xAB, 0]) words ∧
        words.value / 2 ^ 48 = 0x00AB ∧ ¬ Leads (bytesOf "abcd") words := by
  refine ⟨⟨by decide +kernel, by decide +kernel, ?_⟩, by decide +kernel, by decide +kernel, ?_⟩
  · have hobtained : ∃ words, Obtained (zeroJob "0g12" [0, 0, 0, 0, 0, 0, 0, 0]) words :=
      obtained_first (k := 48) (by norm_num) (Job.effectiveMask_wide rfl rfl)
    obtain ⟨words, hwords⟩ := hobtained
    have htop := obtained_leading rfl rfl (by decide) hwords
    refine ⟨words, hwords, htop.trans (by decide +kernel), fun h => ?_⟩
    exact absurd h.1 (by decide +kernel)
  · have hobtained : ∃ words, Obtained (zeroJob "abcd" [0, 0, 0, 0, 0, 0xCD, 0xAB, 0]) words :=
      obtained_first (k := 48) (by norm_num) (Job.effectiveMask_wide rfl rfl)
    obtain ⟨words, hwords⟩ := hobtained
    have htop : words.value / 2 ^ 48 = 0x00AB :=
      (obtained_leading rfl rfl (by decide) hwords).trans (by decide +kernel)
    refine ⟨words, hwords, htop, fun h => ?_⟩
    exact absurd (htop.symm.trans h.2) (by decide +kernel)

end EthStratumClient

end VeloxHash
