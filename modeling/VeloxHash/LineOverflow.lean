import VeloxHash.LineReader

/-! What `LineReader` makes of lines of any length. `add` drops a piece that does not fit, and
the rest of the line is still delivered. -/

namespace VeloxHash.LineReader

open CodeBuffer

/-- A reader at a newline, with what the chunk has of the line in front of it. -/
abbrev Closing := LineReader × List UInt8

def closings (fresh : Memory) (r : LineReader) (data : List UInt8) : List Closing :=
  match _h : memchr data with
  | some (line, rest) => (r, line) :: closings fresh (r.closeLine fresh line).1 rest
  | none => []
termination_by data.length
decreasing_by exact memchr_length _h

/-- The newlines of a stream, in order. -/
def runClosings (fresh : Memory) (r : LineReader) : List (List UInt8) → List Closing
  | [] => []
  | chunk :: chunks => closings fresh r chunk ++ runClosings fresh (r.parse fresh chunk).1 chunks

/-- The byte behind the line that `onLine` gets; `none` for a null pointer. -/
def behind (fresh : Memory) (r : LineReader) (line : List UInt8) : Option UInt8 :=
  let start := line ++ [0]
  if r.pos ≠ 0 then
    let r := r.add fresh start
    r.buf.map fun m => m (r.pos - 1)
  else start[start.length - 1]?

/-- If `onLine` is called at this newline, then with the line that ends here, closed by zero. -/
def Delivers (fresh : Memory) (c : Closing) (line : List UInt8) : Prop :=
  ∀ call ∈ (c.1.closeLine fresh c.2).2,
    call = (line, line.length) ∧ newline ∉ line ∧ c.1.behind fresh c.2 = some 0

variable {fresh : Memory} {r : LineReader} {start line rest data more : List UInt8}

theorem memchr_eq_none (h : newline ∉ data) : memchr data = none := by
  cases hfound : memchr data with
  | none => rfl
  | some found =>
    exact absurd ((memchr_some hfound).1 ▸ List.mem_append_right _ List.mem_cons_self) h

theorem closings_some (h : memchr data = some (line, rest)) : closings fresh r data =
    (r, line) :: closings fresh (r.closeLine fresh line).1 rest := by
  rw [closings]
  split
  case h_1 hfound =>
    cases hfound.symm.trans h
    rfl
  case h_2 hfound => exact absurd (hfound.symm.trans h) (Option.some_ne_none _).symm

theorem closings_none (h : memchr data = none) : closings fresh r data = [] := by
  rw [closings]
  split
  case h_1 hfound => exact absurd (hfound.symm.trans h) (Option.some_ne_none _)
  case h_2 => rfl

theorem getline_calls (fresh : Memory) (r : LineReader) (data : List UInt8) :
    (r.getline fresh data).2 =
      (closings fresh r data).flatMap fun c => (c.1.closeLine fresh c.2).2 := by
  induction r, data using getline.induct fresh with
  | case1 r data line rest hfound ih =>
    rw [getline_some hfound, closings_some hfound, List.flatMap_cons, after, ih]
  | case2 r hfound => rw [getline_none hfound, closings_none hfound, if_pos rfl]; rfl
  | case3 r data hfound hdata => rw [getline_none hfound, closings_none hfound, if_neg hdata]; rfl

/-- All calls of a run are made at its newlines. -/
theorem run_calls (fresh : Memory) (r : LineReader) (chunks : List (List UInt8)) :
    (run fresh r chunks).2 =
      (runClosings fresh r chunks).flatMap fun c => (c.1.closeLine fresh c.2).2 := by
  induction chunks generalizing r with
  | nil => rfl
  | cons chunk chunks ih =>
    have hchunk : (r.parse fresh chunk).2 =
        (closings fresh r chunk).flatMap fun c => (c.1.closeLine fresh c.2).2 := by
      rw [parse]
      split
      case isTrue hnil =>
        rw [hnil, closings_none rfl]
        rfl
      case isFalse => exact getline_calls fresh r chunk
    rw [run, runClosings, List.flatMap_append, after, hchunk, ih]

/-- The buffer holds the start of a line, or a line that is too long for it has lost bytes. -/
structure Holds (r : LineReader) (start : List UInt8) : Prop where
  pos_le : r.pos ≤ chunkSize
  opened : newline ∉ start
  held : Carries r start ∨ chunkSize < start.length ∧ 0 < r.pos ∧ r.buf.isSome = true

theorem holds_zero (h : r.pos = 0) : Holds r [] :=
  ⟨h ▸ Nat.zero_le _, List.not_mem_nil, .inl (carries_zero h)⟩

theorem add_pos_le (fresh : Memory) (h : r.pos ≤ chunkSize) (data : List UInt8) :
    (r.add fresh data).pos ≤ chunkSize := by
  unfold add
  split
  · exact h
  · cases r.buf <;> dsimp <;> omega

theorem add_full (fresh : Memory) (h : data.length + r.pos > chunkSize) : r.add fresh data = r := by
  rw [add, if_pos h]

theorem add_isSome (fresh : Memory) (h : r.buf.isSome = true) (data : List UInt8) :
    (r.add fresh data).buf.isSome = true := by
  unfold add
  split
  · exact h
  · rw [if_neg (by rw [Option.isNone_iff_eq_none]; exact Option.isSome_iff_ne_none.mp h)]
    rw [Option.isSome_map, h]

theorem le_add_pos (fresh : Memory) (h : r.buf.isSome = true) (data : List UInt8) :
    r.pos ≤ (r.add fresh data).pos := by
  unfold add
  split
  · exact le_rfl
  · rw [if_neg (by rw [Option.isNone_iff_eq_none]; exact Option.isSome_iff_ne_none.mp h)]
    exact Nat.le_add_right _ _

/-- The size that is announced for a line out of the buffer. -/
theorem closeLine_size (fresh : Memory) (hpos : r.pos ≠ 0) (line : List UInt8) :
    (r.closeLine fresh line).2 =
      [(r.add fresh (line ++ [0])).bufLine ((r.add fresh (line ++ [0])).pos - 1)] := by
  rw [closeLine, if_pos hpos]

theorem closeLine_pos (fresh : Memory) (r : LineReader) (line : List UInt8) :
    (r.closeLine fresh line).1.pos = 0 := by
  rw [closeLine]
  split
  case isTrue => rfl
  case isFalse hpos =>
    split
    · exact not_not.mp hpos
    · exact not_not.mp hpos

/-- A size that is not the line's is a wrong delivery. -/
theorem not_delivers (hpos : r.pos ≠ 0)
    (hsize : (r.add fresh (line ++ [0])).pos - 1 ≠ start.length) :
    ¬ Delivers fresh (r, line) start := by
  intro h
  have hcall := (h _ (by rw [closeLine_size fresh hpos]; exact List.mem_singleton_self _)).1
  exact hsize (congrArg Prod.snd hcall)

theorem delivers_carried (h : Carries r start) (hline : newline ∉ line)
    (hfits : (start ++ line).length + 1 ≤ chunkSize) :
    Delivers fresh (r, line) (start ++ line) := by
  intro call hcall
  rw [(closeLine_carried fresh h hfits).1] at hcall
  refine ⟨?_, by simp [h.opened, hline], ?_⟩
  · obtain ⟨whole, hwhole, rfl⟩ := List.mem_map.mp hcall
    rw [List.mem_singleton.mp (List.mem_filter.mp hwhole).1]
  by_cases hpos : r.pos = 0
  case pos =>
    rw [behind, if_neg (not_not.mpr hpos)]
    simp
  case neg =>
    have hroom : (line ++ [0]).length + start.length ≤ chunkSize := by
      simp only [List.length_append, List.length_singleton] at hfits ⊢
      omega
    obtain ⟨hend, m, hbuf, hbytes⟩ := add_bytes fresh h hroom
    have hsplit : start.length + (line ++ [0]).length = (start ++ line).length + 1 := by
      simp only [List.length_append, List.length_singleton]
      omega
    rw [hsplit] at hend hbytes
    rw [← List.append_assoc, read_add] at hbytes
    have hzero : read m (0 + (start ++ line).length) 1 = [0] :=
      List.append_inj_right hbytes (length_read ..)
    rw [zero_add] at hzero
    rw [behind, if_pos hpos]
    dsimp only
    rw [hbuf, hend, Nat.add_sub_cancel, Option.map_some]
    exact congrArg some (List.head_eq_of_cons_eq hzero)

/-- A line is delivered as it is, or dropped, exactly when the buffer has room for it. -/
theorem delivers_iff (h : Holds r start) (hline : newline ∉ line)
    (hpiece : line.length + 1 ≤ chunkSize) :
    Delivers fresh (r, line) (start ++ line) ↔ (start ++ line).length + 1 ≤ chunkSize := by
  constructor
  case mpr =>
    intro hfits
    rcases h.held with hcarries | ⟨hlong, -, -⟩
    · exact delivers_carried hcarries hline hfits
    · rw [List.length_append] at hfits
      omega
  case mp =>
    intro hdelivers
    by_contra hlong
    rw [List.length_append] at hlong
    rcases h.held with hcarries | ⟨hover, hpos, -⟩
    · have hstart : start.length ≠ 0 := by omega
      have hpos : r.pos ≠ 0 := hcarries.pos ▸ hstart
      refine not_delivers hpos ?_ hdelivers
      have hfull : (line ++ [0]).length + r.pos > chunkSize := by
        rw [hcarries.pos, List.length_append, List.length_singleton]
        omega
      rw [add_full fresh hfull, hcarries.pos, List.length_append]
      omega
    · refine not_delivers hpos.ne' ?_ hdelivers
      have hle := add_pos_le fresh h.pos_le (line ++ [0])
      rw [List.length_append]
      omega

/-- A piece without a newline keeps what is held of the line, or makes it too long. -/
theorem holds_add (fresh : Memory) (h : Holds r start) (hdata : newline ∉ data)
    (hpiece : data.length ≤ chunkSize) : Holds (r.add fresh data) (start ++ data) := by
  refine ⟨add_pos_le fresh h.pos_le data, by simp [h.opened, hdata], ?_⟩
  rcases h.held with hcarries | ⟨hover, hpos, hbuf⟩
  · by_cases hroom : data.length + start.length ≤ chunkSize
    case pos =>
      obtain ⟨hend, m, hbuf, hbytes⟩ := add_bytes fresh hcarries hroom
      rw [← List.length_append] at hend hbytes
      exact .inl ⟨hend, .inr ⟨m, hbuf, hbytes⟩, by simp [h.opened, hdata]⟩
    case neg =>
      rw [add_full fresh (by rw [hcarries.pos]; omega)]
      have hstart : 0 < start.length := by omega
      refine .inr ⟨by rw [List.length_append]; omega, hcarries.pos ▸ hstart, ?_⟩
      rcases hcarries.held with rfl | ⟨m, hbuf, -⟩
      · cases hstart
      · rw [hbuf, Option.isSome_some]
  · refine .inr ⟨by rw [List.length_append]; omega, ?_, add_isSome fresh hbuf data⟩
    exact hpos.trans_le (le_add_pos fresh hbuf data)

/-- What is said of the newlines of a chunk, and of the reader behind them. -/
theorem getline_delivers (fresh : Memory) (h : Holds r start) (hempty : data = [] → start = [])
    (hsize : data.length ≤ chunkSize) (more : List UInt8) :
    ∃ lines rest, completeLines (start ++ data ++ more) = lines ++ completeLines (rest ++ more) ∧
      List.Forall₂ (fun c line => Delivers fresh c line ↔ line.length + 1 ≤ chunkSize)
        (closings fresh r data) lines ∧ Holds (r.getline fresh data).1 rest := by
  induction r, data using getline.induct fresh generalizing start with
  | case1 r data line rest hfound ih =>
    obtain ⟨hdata, hline⟩ := memchr_some hfound
    have hopen : newline ∉ start ++ line := by simp [h.opened, hline]
    have hlength : data.length = line.length + (rest.length + 1) := by
      rw [hdata, List.length_append, List.length_cons]
    have hstream : completeLines (start ++ data ++ more) =
        (start ++ line) :: completeLines ([] ++ rest ++ more) := by
      rw [hdata, List.nil_append, ← completeLines_cons hopen]
      simp only [List.append_assoc, List.cons_append]
    obtain ⟨lines, left, hlines, hnext, hleft⟩ :=
      ih (holds_zero (closeLine_pos fresh r line)) (fun _ => rfl) (by omega)
    rw [getline_some hfound, closings_some hfound, after]
    refine ⟨(start ++ line) :: lines, left, ?_, .cons ?_ hnext, hleft⟩
    · rw [hstream, hlines, List.cons_append]
    · exact delivers_iff h hline (by omega)
  | case2 r hfound =>
    obtain rfl := hempty rfl
    rw [getline_none hfound, closings_none hfound, if_pos rfl]
    refine ⟨[], [], rfl, .nil, holds_zero ?_⟩
    rcases h.held with hcarries | ⟨hover, -, -⟩
    · exact (carries_reset hcarries.pos).pos
    · cases hover
  | case3 r data hfound hdata =>
    rw [getline_none hfound, closings_none hfound, if_neg hdata]
    exact ⟨[], start ++ data, rfl, .nil, holds_add fresh h (memchr_none hfound) hsize⟩

theorem runClosings_delivers (fresh : Memory) {chunks : List (List UInt8)} (h : Holds r start)
    (hsize : ∀ chunk ∈ chunks, chunk.length ≤ chunkSize) :
    List.Forall₂ (fun c line => Delivers fresh c line ↔ line.length + 1 ≤ chunkSize)
      (runClosings fresh r chunks) (completeLines (start ++ chunks.flatten)) := by
  induction chunks generalizing r start with
  | nil =>
    rw [List.flatten_nil, List.append_nil, completeLines_open h.opened]
    exact .nil
  | cons chunk chunks ih =>
    obtain ⟨hchunk, hrest⟩ := List.forall_mem_cons.mp hsize
    rw [List.flatten_cons, ← List.append_assoc, runClosings, parse]
    split
    case isTrue hnil =>
      rw [hnil, closings_none rfl, List.append_nil]
      exact ih h hrest
    case isFalse hne =>
      obtain ⟨lines, rest, hlines, hnow, hholds⟩ :=
        getline_delivers fresh h (fun hnil => absurd hnil hne) hchunk chunks.flatten
      rw [hlines]
      exact List.rel_append hnow (ih hholds hrest)

theorem forall₂_iff {α β : Type} {p : α → β → Prop} {q : β → Prop} {as : List α} {bs : List β}
    (h : List.Forall₂ (fun a b => p a b ↔ q b) as bs) : List.Forall₂ p as bs ↔ ∀ b ∈ bs, q b := by
  induction h with
  | nil => exact ⟨fun _ _ hb => (nomatch hb), fun _ => .nil⟩
  | cons hab _ ih => rw [List.forall₂_cons, List.forall_mem_cons, hab, ih]

/-- Every call is made at a newline. Each is right, in a run, if no line is too long for the
buffer, and only then. -/
theorem lines_delivered_or_dropped (fresh : Memory) {chunks : List (List UInt8)}
    (hsize : ∀ chunk ∈ chunks, chunk.length ≤ chunkSize) :
    (run fresh {} chunks).2 =
        (runClosings fresh {} chunks).flatMap (fun c => (c.1.closeLine fresh c.2).2) ∧
      (List.Forall₂ (Delivers fresh) (runClosings fresh {} chunks)
          (completeLines chunks.flatten) ↔
        ∀ line ∈ completeLines chunks.flatten, line.length + 1 ≤ chunkSize) :=
  ⟨run_calls fresh {} chunks, forall₂_iff (runClosings_delivers fresh (holds_zero rfl) hsize)⟩

theorem lines_delivered_or_dropped_two :
    (run (fun _ => 1) {} [[65], [66, 10]]).2 =
        (runClosings (fun _ => 1) {} [[65], [66, 10]]).flatMap
          (fun c => (c.1.closeLine (fun _ => 1) c.2).2) ∧
      (List.Forall₂ (Delivers fun _ => 1) (runClosings (fun _ => 1) {} [[65], [66, 10]])
          (completeLines [[65], [66, 10]].flatten) ↔
        ∀ line ∈ completeLines [[65], [66, 10]].flatten, line.length + 1 ≤ chunkSize) :=
  lines_delivered_or_dropped (fun _ => 1) (by decide)

/-- A line of 65536 bytes in one chunk, its newline in the next: all but the last byte of it
is delivered, with that byte in the place of the zero. -/
theorem truncated_line :
    (run (fun _ => 0) {} [List.replicate chunkSize 97, [newline]]).2 =
        [(List.replicate (chunkSize - 1) 97, chunkSize - 1)] ∧
      ¬ List.Forall₂ (Delivers fun _ => 0)
        (runClosings (fun _ => 0) {} [List.replicate chunkSize 97, [newline]])
        (completeLines [List.replicate chunkSize 97, [newline]].flatten) := by
  have hopen : newline ∉ List.replicate chunkSize (97 : UInt8) := by
    rw [List.mem_replicate]
    exact fun hmem => absurd hmem.2 (by decide)
  have hstream : [List.replicate chunkSize (97 : UInt8), [newline]].flatten =
      List.replicate chunkSize 97 ++ newline :: [] := by
    simp only [List.flatten_cons, List.flatten_nil, List.append_nil]
  constructor
  · have hne : List.replicate chunkSize (97 : UInt8) ≠ [] := List.cons_ne_nil _ _
    have hfits : (List.replicate chunkSize (97 : UInt8)).length + ([] : List UInt8).length ≤
        chunkSize := by
      rw [List.length_replicate]
      rfl
    obtain ⟨hpos, m, hbuf, hbytes⟩ := add_bytes (fun _ => 0) (carries_zero (r := {}) rfl) hfits
    rw [List.length_replicate, List.length_nil, zero_add] at hpos hbytes
    rw [List.nil_append] at hbytes
    have hshort : read m 0 (chunkSize - 1) = List.replicate (chunkSize - 1) 97 := by
      have hsplit : read m 0 (chunkSize - 1 + 1) = List.replicate (chunkSize - 1 + 1) 97 := hbytes
      rw [read_add, List.replicate_add] at hsplit
      refine List.append_inj_left hsplit ?_
      rw [length_read, List.length_replicate]
    have hclose : (closeLine (fun _ => 0) (add (fun _ => 0) {} (List.replicate chunkSize 97)) []).2 =
        [(List.replicate (chunkSize - 1) 97, chunkSize - 1)] := by
      have hnonzero : (add (fun _ => 0) {} (List.replicate chunkSize 97)).pos ≠ 0 := by
        rw [hpos]
        decide
      rw [closeLine_size _ hnonzero, add_full _ (by rw [hpos]; decide), bufLine, hpos, hbuf,
        Option.getD_some, hshort]
    have hfirst : parse (fun _ => 0) {} (List.replicate chunkSize 97) =
        (add (fun _ => 0) {} (List.replicate chunkSize 97), []) := by
      rw [parse, if_neg hne, getline_none (memchr_eq_none hopen), if_neg hne]
    have hsecond (r : LineReader) :
        (r.parse (fun _ => 0) [newline]).2 = (r.closeLine (fun _ => 0) []).2 := by
      rw [parse, if_neg (List.cons_ne_nil _ _), getline_some (show memchr [newline] = some ([], []) from rfl),
        after, getline_none rfl, if_pos rfl, List.append_nil]
    rw [run, run, run, hfirst, after, after, hsecond, hclose]
    rfl
  · intro h
    have hsize : ∀ chunk ∈ [List.replicate chunkSize (97 : UInt8), [newline]],
        chunk.length ≤ chunkSize := by
      intro chunk hchunk
      rcases List.mem_pair.mp hchunk with rfl | rfl
      · rw [List.length_replicate]
      · decide
    have hiff := runClosings_delivers (fun _ => 0) (holds_zero (r := {}) rfl) hsize
    rw [List.nil_append] at hiff
    have hall := (forall₂_iff hiff).mp h (List.replicate chunkSize 97)
      (by rw [hstream, completeLines_cons hopen]; exact List.mem_cons_self)
    rw [List.length_replicate] at hall
    omega

end VeloxHash.LineReader
