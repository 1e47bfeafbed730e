import VeloxHash.EthStratumClient

/-! The notifications that `parseNotification` survives: exactly those whose values the
unchecked reads happen to suit. -/

namespace VeloxHash.EthStratumClient

variable {α β : Type} {k : Surroundings} {c : Client}

/-- A return of the handler's own. -/
def Survives (x : Except Fault α) : Prop := ∃ a, x = .ok a

@[simp] theorem survives_ok (a : α) : Survives (.ok a : Except Fault α) := ⟨a, rfl⟩

@[simp] theorem survives_pure (a : α) : Survives (pure a : Except Fault α) := ⟨a, rfl⟩

@[simp] theorem not_survives_error (e : Fault) : ¬ Survives (.error e : Except Fault α) :=
  fun ⟨_, h⟩ => nomatch h

theorem survives_bind {x : Except Fault α} {f : α → Except Fault β} :
    Survives (x >>= f) ↔ ∃ a, x = .ok a ∧ Survives (f a) := by
  cases x with
  | error e => exact iff_of_false (not_survives_error e) fun ⟨_, h, _⟩ => nomatch h
  | ok a => exact ⟨fun h => ⟨a, rfl, h⟩, fun ⟨_, h, hf⟩ => Except.ok.inj h ▸ hf⟩

section Coinbase

variable {buf : List UInt8} {p n : Nat}

theorem byteAt_eq_ok_iff {b : UInt8} : byteAt buf p = .ok b ↔ buf[p]? = some b := by
  unfold byteAt
  cases buf[p]? with
  | none => exact iff_of_false (nomatch ·) (nomatch ·)
  | some a =>
    exact ⟨fun h => congrArg some (Except.ok.inj h),
      fun h => congrArg Except.ok (Option.some.inj h)⟩

theorem survives_byteAt : Survives (byteAt buf p) ↔ p < buf.length := by
  simp only [Survives, byteAt_eq_ok_iff, ← Option.isSome_iff_exists]
  simp

/-- A loop stops where its bytes do, unless it comes to the end of the buffer first. -/
theorem skip_eq (stop : UInt8 → Bool) (buf : List UInt8) (n p : Nat) :
    skip stop buf n p =
      let window := (buf.drop p).take n
      let run := window.takeWhile (! stop ·)
      if run.length < window.length ∨ window.length = n then .ok (p + run.length)
      else .error .outside := by
  induction n generalizing p with
  | zero => simp [skip]
  | succ n ih =>
    cases hb : buf[p]? with
    | none =>
      have hlen : buf.length ≤ p := List.getElem?_eq_none_iff.mp hb
      rw [List.drop_eq_nil_of_le hlen]
      simp [skip, byteAt, hb]
      rfl
    | some b =>
      obtain ⟨hlt, hget⟩ := List.getElem?_eq_some_iff.mp hb
      have hdrop : buf.drop p = b :: buf.drop (p + 1) := by
        rw [List.drop_eq_getElem_cons hlt, hget]
      have hbyte : byteAt buf p = .ok b := byteAt_eq_ok_iff.mpr hb
      rw [skip, hbyte]
      change (if stop b then Except.ok p else skip stop buf n (p + 1)) = _
      rw [hdrop, List.take_succ_cons]
      cases hstop : stop b with
      | true => simp [hstop]
      | false =>
        rw [if_neg Bool.false_ne_true, ih]
        simp only [List.takeWhile_cons, hstop, Bool.not_false, if_true, List.length_cons,
          Nat.add_lt_add_iff_right, Nat.add_right_cancel_iff]
        congr 2
        omega

/-- Where the first run of `0xff` from byte 32 on ends, or the 128 bytes that are searched. -/
def markEnd (buf : List UInt8) : Nat :=
  let window := (buf.drop 32).take 128
  let plain := window.takeWhile (· != 0xff)
  32 + plain.length + ((window.drop plain.length).takeWhile (· == 0xff)).length

/-- The buffer goes on behind the length byte at `p + 1` as far as that says. -/
def HeightInside (buf : List UInt8) (p : Nat) : Prop :=
  p + 3 < buf.length ∧ (buf[p + 1]? = some 4 → p + 5 < buf.length) ∧
    (buf[p + 1]? = some 3 → p + 4 < buf.length)

/-- The coinbase holds all that is read of it. -/
def Covered (buf : List UInt8) : Prop :=
  (markEnd buf < buf.length ∨ 160 ≤ buf.length) ∧
    (markEnd buf < 160 → buf[markEnd buf - 1]? = some 0xff → buf[markEnd buf - 2]? = some 0xff →
      HeightInside buf (markEnd buf))

theorem survives_heightAt : Survives (heightAt buf p) ↔ HeightInside buf p := by
  have hlast {q : Nat} {b : UInt8} (h : byteAt buf q = .ok b) : q < buf.length :=
    survives_byteAt.mp ⟨b, h⟩
  unfold heightAt HeightInside
  constructor
  · intro h
    obtain ⟨lo, -, h⟩ := survives_bind.mp h
    obtain ⟨hi, hhi, h⟩ := survives_bind.mp h
    obtain ⟨size, hsize, h⟩ := survives_bind.mp h
    rw [byteAt_eq_ok_iff] at hsize
    refine ⟨hlast hhi, fun hfour => ?_, fun hthree => ?_⟩
    · obtain rfl : size = 4 := Option.some.inj (hsize.symm.trans hfour)
      obtain ⟨a, -, h⟩ := survives_bind.mp h
      obtain ⟨b, hb, -⟩ := survives_bind.mp h
      exact hlast hb
    · obtain rfl : size = 3 := Option.some.inj (hsize.symm.trans hthree)
      obtain ⟨a, ha, -⟩ := survives_bind.mp h
      exact hlast ha
  · rintro ⟨hend, hfour, hthree⟩
    obtain ⟨lo, hlo⟩ := survives_byteAt.mpr (show p + 2 < buf.length by omega)
    obtain ⟨hi, hhi⟩ := survives_byteAt.mpr hend
    obtain ⟨size, hsize⟩ := survives_byteAt.mpr (show p + 1 < buf.length by omega)
    refine survives_bind.mpr ⟨lo, hlo, survives_bind.mpr ⟨hi, hhi, ?_⟩⟩
    refine survives_bind.mpr ⟨size, hsize, ?_⟩
    rw [byteAt_eq_ok_iff] at hsize
    dsimp only
    split
    case isTrue h4 =>
      subst h4
      have hroom := hfour hsize
      obtain ⟨a, ha⟩ := survives_byteAt.mpr (show p + 4 < buf.length by omega)
      obtain ⟨b, hb⟩ := survives_byteAt.mpr hroom
      exact survives_bind.mpr ⟨a, ha, survives_bind.mpr ⟨b, hb, survives_pure _⟩⟩
    case isFalse =>
      split
      case isTrue h3 =>
        subst h3
        obtain ⟨a, ha⟩ := survives_byteAt.mpr (hthree hsize)
        exact survives_bind.mpr ⟨a, ha, survives_pure _⟩
      case isFalse => exact survives_pure _

/-- The two loops. -/
theorem skips_eq (buf : List UInt8) :
    (skip (· == 0xff) buf 128 32 >>= fun p => skip (· != 0xff) buf (160 - p) p) =
      if markEnd buf < buf.length ∨ 160 ≤ buf.length then .ok (markEnd buf)
      else .error .outside := by
  have hwindow : ((buf.drop 32).take 128).length = min 128 (buf.length - 32) := by
    rw [List.length_take, List.length_drop]
  obtain ⟨a, ha⟩ : ∃ a, (((buf.drop 32).take 128).takeWhile (· != 0xff)).length = a := ⟨_, rfl⟩
  have hle : a ≤ min 128 (buf.length - 32) := by
    rw [← hwindow, ← ha]
    exact (List.takeWhile_prefix _).length_le
  have hrun : (((buf.drop 32).take 128).drop a).takeWhile (! (· != (0xff : UInt8)) ·) =
      (((buf.drop 32).take 128).drop a).takeWhile (· == 0xff) := by
    congr 1
    funext b
    exact Bool.not_not _
  have hle' : ((((buf.drop 32).take 128).drop a).takeWhile (· == 0xff)).length ≤
      min 128 (buf.length - 32) - a := by
    rw [← hwindow, ← List.length_drop]
    exact (List.takeWhile_prefix _).length_le
  have hnext : (buf.drop (32 + a)).take (160 - (32 + a)) = ((buf.drop 32).take 128).drop a := by
    rw [List.drop_take, List.drop_drop]
    congr 1
    omega
  have hfirst : skip (· == 0xff) buf 128 32 =
      if a < min 128 (buf.length - 32) ∨ min 128 (buf.length - 32) = 128 then .ok (32 + a)
      else .error .outside := by
    rw [skip_eq, ← hwindow, ← ha]
    rfl
  have hsecond : skip (· != 0xff) buf (160 - (32 + a)) (32 + a) =
      if ((((buf.drop 32).take 128).drop a).takeWhile (· == 0xff)).length <
          min 128 (buf.length - 32) - a ∨ min 128 (buf.length - 32) - a = 160 - (32 + a) then
        .ok (32 + a + ((((buf.drop 32).take 128).drop a).takeWhile (· == 0xff)).length)
      else .error .outside := by
    rw [skip_eq, hnext, ← hwindow, ← List.length_drop, ← hrun]
  have hmark : markEnd buf =
      32 + a + ((((buf.drop 32).take 128).drop a).takeWhile (· == 0xff)).length := by
    unfold markEnd
    dsimp only
    rw [ha]
  rw [hfirst, hmark]
  split
  case isTrue h =>
    change skip (· != 0xff) buf (160 - (32 + a)) (32 + a) = _
    rw [hsecond]
    exact if_congr (by omega) rfl rfl
  case isFalse h =>
    rw [if_neg (by omega)]
    rfl

theorem survives_coinbaseHeight : Survives (coinbaseHeight buf) ↔ Covered buf := by
  have hsplit : coinbaseHeight buf =
      (skip (· == 0xff) buf 128 32 >>= fun p => skip (· != 0xff) buf (160 - p) p) >>= fun p =>
        if p < 160 then do
          let last ← byteAt buf (p - 1)
          let previous ← byteAt buf (p - 2)
          if last = 0xff ∧ previous = 0xff then heightAt buf p else return 0
        else return 0 := by
    unfold coinbaseHeight
    rw [bind_assoc]
  rw [hsplit, skips_eq, Covered]
  by_cases hinside : markEnd buf < buf.length ∨ 160 ≤ buf.length
  case neg =>
    rw [if_neg hinside]
    exact iff_of_false (not_survives_error _) fun h => hinside h.1
  rw [if_pos hinside, and_iff_right hinside]
  change Survives (if markEnd buf < 160 then _ else _) ↔ _
  split
  case isFalse hend => exact iff_of_true (survives_pure _) fun h => absurd h hend
  case isTrue hend =>
    have hstart : 32 ≤ markEnd buf := Nat.le_add_right_of_le (Nat.le_add_right 32 _)
    obtain ⟨last, hlast⟩ := survives_byteAt.mpr (show markEnd buf - 1 < buf.length by omega)
    obtain ⟨previous, hprevious⟩ := survives_byteAt.mpr (show markEnd buf - 2 < buf.length by omega)
    rw [hlast, hprevious, byteAt_eq_ok_iff.mp hlast, byteAt_eq_ok_iff.mp hprevious]
    change Survives (if last = 0xff ∧ previous = 0xff then _ else _) ↔ _
    split
    case isTrue hmark =>
      rw [survives_heightAt, hmark.1, hmark.2]
      exact ⟨fun h _ _ _ => h, fun h => h hend rfl rfl⟩
    case isFalse hmark =>
      refine iff_of_true (survives_pure _) fun _ h h' => ?_
      exact absurd ⟨Option.some.inj h, Option.some.inj h'⟩ hmark

end Coinbase

/-- An extra nonce that `setExtraNonce` takes: a string of an even number of characters, at most
eight after `0x`, that starts with a number for `strtoull`. -/
def Acceptable (nonce : Json) : Prop :=
  ∃ s, nonce = .string s ∧ (dropPrefix s).utf8ByteSize % 2 = 0 ∧
    (dropPrefix s).utf8ByteSize ≤ 8 ∧
    ∃ negative n, Strtoull.scan (resize (text (dropPrefix s)) 16) = some (negative, n) ∧ n < 2 ^ 64

theorem survives_setExtraNonce {nonce : Json} :
    Survives (setExtraNonce nonce) ↔ Acceptable nonce := by
  cases nonce with
  | string s =>
    have hparts : Acceptable (.string s) ↔ (dropPrefix s).utf8ByteSize % 2 = 0 ∧
        (dropPrefix s).utf8ByteSize ≤ 8 ∧ ∃ negative n,
          Strtoull.scan (resize (text (dropPrefix s)) 16) = some (negative, n) ∧ n < 2 ^ 64 := by
      constructor
      · rintro ⟨s', hs, h⟩
        obtain rfl := Json.string.inj hs
        exact h
      · exact fun h => ⟨s, rfl, h⟩
    rw [hparts, setExtraNonce]
    split
    case isTrue hodd => exact iff_of_false (not_survives_error _) (by omega)
    case isFalse hodd =>
      split
      case isTrue hlong => exact iff_of_false (not_survives_error _) (by omega)
      case isFalse hlong =>
        rw [and_iff_right (by omega), and_iff_right (by omega), survives_bind]
        unfold stoull
        cases hscan : Strtoull.scan (resize (text (dropPrefix s)) 16) with
        | none => exact iff_of_false (fun ⟨_, h, _⟩ => nomatch h) (fun ⟨_, _, h, _⟩ => nomatch h)
        | some found =>
          obtain ⟨negative, n⟩ := found
          dsimp only
          split
          case isTrue hn => exact iff_of_true ⟨_, rfl, survives_pure _⟩ ⟨_, _, rfl, hn⟩
          case isFalse hn =>
            refine iff_of_false (fun ⟨_, h, _⟩ => nomatch h) ?_
            rintro ⟨_, _, h, hlt⟩
            cases h
            exact hn hlt
  | _ => exact iff_of_false (not_survives_error _) fun ⟨_, h, _⟩ => nomatch h

/-- What the KawPow branch takes for granted. -/
def KawpowTyped (arr : List Json) : Prop :=
  (∃ s, arr.getD 1 .null = .string s) ∧ (∃ s, arr.getD 3 .null = .string s) ∧
    ∃ i, arr.getD 5 .null = .int i ∧ 0 ≤ i ∧ i < 2 ^ 64

theorem survives_getString {v : Json} : Survives (getString v) ↔ ∃ s, v = .string s := by
  cases v with
  | string s => exact iff_of_true (survives_ok _) ⟨s, rfl⟩
  | _ => exact iff_of_false (not_survives_error _) fun ⟨_, h⟩ => nomatch h

theorem survives_getUint64 {v : Json} :
    Survives (getUint64 v) ↔ ∃ i, v = .int i ∧ 0 ≤ i ∧ i < 2 ^ 64 := by
  cases v with
  | int i =>
    rw [getUint64]
    split
    case isTrue h => exact iff_of_true (survives_ok _) ⟨i, rfl, h⟩
    case isFalse h =>
      refine iff_of_false (not_survives_error _) fun ⟨j, hj, hrange⟩ => ?_
      obtain rfl := Json.int.inj hj
      exact h hrange
  | _ => exact iff_of_false (not_survives_error _) fun ⟨_, h, _⟩ => nomatch h

theorem survives_kawpowJob {extraNonce : UInt64} {job : Job} {arr : List Json} :
    Survives (kawpowJob extraNonce job arr) ↔ KawpowTyped arr := by
  unfold kawpowJob KawpowTyped
  rw [← survives_getString, ← survives_getString, ← survives_getUint64]
  constructor
  · intro h
    obtain ⟨header, hheader, h⟩ := survives_bind.mp h
    obtain ⟨target, htarget, h⟩ := survives_bind.mp h
    obtain ⟨height, hheight, -⟩ := survives_bind.mp h
    exact ⟨⟨header, hheader⟩, ⟨target, htarget⟩, ⟨height, hheight⟩⟩
  · rintro ⟨⟨header, hheader⟩, ⟨target, htarget⟩, ⟨height, hheight⟩⟩
    exact survives_bind.mpr ⟨header, hheader, survives_bind.mpr ⟨target, htarget,
      survives_bind.mpr ⟨height, hheight, survives_pure _⟩⟩⟩

section Ghostrider

variable {params : GhostriderParams}

theorem coinbase_eq_ok_iff {blob : List UInt8} : coinbase k c params = .ok blob ↔
    ∃ s, c.extraNonce.2 = some s ∧
      k.allocates ((text params.first ++ bytesOf s).length + (c.extraNonce2Size * 2).toNat) ∧
        coinbaseText c (bytesOf s) params = blob := by
  unfold coinbase extraNonceText
  cases c.extraNonce.2 with
  | none => exact iff_of_false (nomatch ·) fun ⟨_, h, _⟩ => nomatch h
  | some s =>
    change (if _ then _ else _) = _ ↔ _
    split
    case isTrue hfits =>
      constructor
      · exact fun h => ⟨s, rfl, hfits, Except.ok.inj h⟩
      · rintro ⟨s', hs, -, rfl⟩
        obtain rfl := Option.some.inj hs
        rfl
    case isFalse hfull =>
      refine iff_of_false (nomatch ·) fun ⟨s', hs, hfits, _⟩ => ?_
      obtain rfl := Option.some.inj hs
      exact hfull hfits

/-- A header of the right length is hex. -/
def HeaderHex (header : List UInt8) : Prop :=
  header.length = 76 * 2 → (Hex.decode (resize header (80 * 2))).isSome

theorem survives_headerJob {job : Job} {header : List UInt8} :
    Survives (headerJob c job header) ↔ HeaderHex header := by
  unfold headerJob HeaderHex
  split
  case isTrue h => exact iff_of_true (survives_pure _) fun h' => absurd h' h
  case isFalse h =>
    cases Hex.decode (resize header (80 * 2)) with
    | none => exact iff_of_false (not_survives_error _) fun h' => nomatch h' (not_not.mp h)
    | some bytes => exact iff_of_true (survives_pure _) fun _ => rfl

/-- What the GhostRider branch takes for granted: an extra nonce that is set, memory for what the
pool wants beside it, a coinbase that goes on as far as it is read, and a header in hex. -/
def GhostriderSafe (k : Surroundings) (c : Client) (params : GhostriderParams) : Prop :=
  ∃ s, c.extraNonce.2 = some s ∧
    k.allocates ((text params.first ++ bytesOf s).length + (c.extraNonce2Size * 2).toNat) ∧
      let buf := (Hex.decode (coinbaseText c (bytesOf s) params)).getD []
      Covered buf ∧ ∀ root, merkleRoot k (k.sha256d buf) params.branches = some root →
        HeaderHex (headerText params root)

theorem survives_ghostriderJob {job : Job} :
    Survives (ghostriderJob k c job params) ↔ GhostriderSafe k c params := by
  constructor
  · intro h
    obtain ⟨blob, hblob, h⟩ := survives_bind.mp h
    obtain ⟨height, hheight, h⟩ := survives_bind.mp h
    obtain ⟨s, hs, hfits, rfl⟩ := coinbase_eq_ok_iff.mp hblob
    refine ⟨s, hs, hfits, survives_coinbaseHeight.mp ⟨height, hheight⟩, fun root hroot => ?_⟩
    rw [hroot] at h
    obtain ⟨built, hbuilt, -⟩ := survives_bind.mp h
    exact survives_headerJob.mp ⟨built, hbuilt⟩
  · rintro ⟨s, hs, hfits, hcovered, hhex⟩
    have hblob : coinbase k c params = .ok _ := coinbase_eq_ok_iff.mpr ⟨s, hs, hfits, rfl⟩
    obtain ⟨height, hheight⟩ := survives_coinbaseHeight.mpr hcovered
    refine survives_bind.mpr ⟨_, hblob, survives_bind.mpr ⟨height, hheight, ?_⟩⟩
    cases hroot : merkleRoot k
        (k.sha256d ((Hex.decode (coinbaseText c (bytesOf s) params)).getD [])) params.branches with
    | none => exact survives_pure _
    | some root =>
      obtain ⟨built, hbuilt⟩ := survives_headerJob.mpr (hhex root hroot)
      exact survives_bind.mpr ⟨built, hbuilt, survives_pure _⟩

end Ghostrider

/-- What `parseNotification` takes for granted. -/
def Trusted (k : Surroundings) (c : Client) (method : String) (params : Json) : Prop :=
  (method = "mining.set_extranonce" →
    ∀ nonce rest, params = .array (nonce :: rest) → Acceptable nonce) ∧
  (method = "mining.notify" →
    ∀ id rest, params = .array (.string id :: rest) → minArrSize c ≤ rest.length + 1 →
      if algo c = .ghostriderRtm then
        ∀ typed, ghostriderParams (.string id :: rest) = some typed → GhostriderSafe k c typed
      else
        KawpowTyped (.string id :: rest))

theorem survives_setExtranonce {params : Json} : Survives (setExtranonce c params) ↔
    ∀ nonce rest, params = .array (nonce :: rest) → Acceptable nonce := by
  unfold setExtranonce
  split
  case h_1 => exact iff_of_true (survives_pure _) fun _ _ h => nomatch h
  case h_2 nonce rest =>
    rw [survives_bind]
    constructor
    · rintro ⟨found, hfound, -⟩ nonce' rest' h
      cases h
      exact survives_setExtraNonce.mp ⟨found, hfound⟩
    · intro h
      obtain ⟨found, hfound⟩ := survives_setExtraNonce.mpr (h nonce rest rfl)
      exact ⟨found, hfound, survives_pure _⟩
  case h_3 hnil hcons => exact iff_of_true (survives_pure _) fun _ _ h => (hcons _ _ h).elim

theorem survives_notify {params : Json} : Survives (notify k c params) ↔
    ∀ id rest, params = .array (.string id :: rest) → minArrSize c ≤ rest.length + 1 →
      if algo c = .ghostriderRtm then
        ∀ typed, ghostriderParams (.string id :: rest) = some typed → GhostriderSafe k c typed
      else
        KawpowTyped (.string id :: rest) := by
  unfold notify
  split
  case h_2 hnot => exact iff_of_true (survives_pure _) fun _ _ h => (hnot _ h).elim
  case h_1 arr =>
    split
    case isTrue hshort =>
      refine iff_of_true (survives_pure _) fun id rest h hsize => ?_
      rw [Json.array.inj h, List.length_cons] at hshort
      omega
    case isFalse hsize =>
      split
      case h_2 hnot =>
        refine iff_of_true (survives_pure _) fun id rest h _ => (hnot id ?_).elim
        rw [Json.array.inj h, List.head?_cons]
      case h_1 id hhead =>
        obtain ⟨rest, rfl⟩ := List.head?_eq_some_iff.mp hhead
        have hsize' : minArrSize c ≤ rest.length + 1 := Nat.not_lt.mp hsize
        constructor
        · intro h id' rest' hcons _
          cases hcons
          split
          case isTrue halgo =>
            rw [if_pos halgo] at h
            intro typed htyped
            rw [htyped] at h
            obtain ⟨built, hbuilt, -⟩ := survives_bind.mp h
            exact survives_ghostriderJob.mp ⟨built, hbuilt⟩
          case isFalse halgo =>
            rw [if_neg halgo] at h
            obtain ⟨job, hjob, -⟩ := survives_bind.mp h
            exact survives_kawpowJob.mp ⟨job, hjob⟩
        · intro h
          have hsafe := h id rest rfl hsize'
          split
          case isTrue halgo =>
            rw [if_pos halgo] at hsafe
            cases htyped : ghostriderParams (.string id :: rest) with
            | none => exact survives_pure _
            | some typed =>
              obtain ⟨built, hbuilt⟩ := survives_ghostriderJob.mpr (hsafe typed htyped)
              exact survives_bind.mpr ⟨built, hbuilt, survives_pure _⟩
          case isFalse halgo =>
            rw [if_neg halgo] at hsafe
            obtain ⟨job, hjob⟩ := survives_kawpowJob.mpr hsafe
            exact survives_bind.mpr ⟨job, hjob, survives_pure _⟩

/-- A notification comes to an end of the handler's own exactly if the values it holds suit the
reads that check nothing. -/
theorem parseNotification_total_iff (k : Surroundings) (c : Client) (method : String)
    (params : Json) :
    (∃ c' outcome, parseNotification k c method params = .ok (c', outcome)) ↔
      Trusted k c method params := by
  have hpair : (∃ c' outcome, parseNotification k c method params = .ok (c', outcome)) ↔
      Survives (parseNotification k c method params) :=
    (Prod.exists (p := fun r => parseNotification k c method params = .ok r)).symm
  rw [hpair, Trusted, ← survives_setExtranonce, ← survives_notify]
  unfold parseNotification
  by_cases htarget : method = "mining.set_target"
  · subst htarget
    exact iff_of_true (survives_pure _) ⟨(nomatch ·), (nomatch ·)⟩
  rw [if_neg htarget]
  by_cases hextra : method = "mining.set_extranonce"
  · subst hextra
    rw [if_pos rfl, forall_prop_of_true rfl, and_iff_left (nomatch ·)]
  rw [if_neg hextra, and_iff_right fun h => (hextra h).elim]
  by_cases hdifficulty : method = "mining.set_difficulty"
  · subst hdifficulty
    exact iff_of_true (survives_pure _) fun h => nomatch h
  rw [if_neg hdifficulty]
  by_cases hnotify : method = "mining.notify"
  · rw [if_pos hnotify, forall_prop_of_true hnotify]
  · rw [if_neg hnotify]
    exact iff_of_true (survives_pure _) fun h => (hnotify h).elim

/-- A place for examples: memory for everything, every algorithm enabled. -/
def anywhere : Surroundings where
  allocates _ := true
  verifies _ := true
  scale _ := 0
  sha256d _ := Vector.replicate 32 0

/-- A header hash that is no string, an extra nonce that is none, and a coinbase of no bytes. -/
theorem hostile_notifications :
    parseNotification anywhere { algorithm := .kawpowRvn } "mining.notify"
        (.array [.string "1", .null, .null, .null, .null, .null]) = .error .wrongType ∧
      parseNotification anywhere { algorithm := .kawpowRvn } "mining.set_extranonce"
        (.array [.null]) = .error (.exception
          "invalid mining.subscribe response: extra nonce is not a string") ∧
      parseNotification anywhere { algorithm := .ghostriderRtm, extraNonce := (0, some "") }
        "mining.notify" (.array [.string "1", .string "", .string "", .string "", .array [],
          .string "", .string "", .string ""]) = .error .outside :=
  ⟨rfl, rfl, rfl⟩

/-- A set of parameters with nothing to object to. -/
example : ((parseNotification anywhere { algorithm := .kawpowRvn } "mining.notify"
    (.array [.string "1", .string "00", .null, .string "00ff", .bool true, .int 7])).map
      (·.2)).toOption = some (.received true) := by decide +kernel

end VeloxHash.EthStratumClient
