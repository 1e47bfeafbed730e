import VeloxHash.CodeBuffer

/-! `LineReader`: lines out of chunks of a stream. A line that ends in a later chunk than it
starts in is put together in a buffer of the pool. -/

namespace VeloxHash

open CodeBuffer

/-- `XMRIG_NET_BUFFER_CHUNK_SIZE`. -/
def chunkSize : Nat := 64 * 1024

def newline : UInt8 := 10

/-- The complete lines of a stream, without their newlines. -/
def completeLines (stream : List UInt8) : List (List UInt8) := (stream.splitOn newline).dropLast

/-- `memchr(data, '\n', size)`: the bytes before the newline, and those after it. -/
def memchr : List UInt8 → Option (List UInt8 × List UInt8)
  | [] => none
  | b :: rest =>
    if b = newline then some ([], rest)
    else (memchr rest).map fun found => (b :: found.1, found.2)

theorem memchr_some {data line rest : List UInt8} (h : memchr data = some (line, rest)) :
    data = line ++ newline :: rest ∧ newline ∉ line := by
  induction data generalizing line with
  | nil => cases h
  | cons b data ih =>
    rw [memchr] at h
    split at h
    case isTrue hb =>
      cases h
      exact ⟨by rw [hb, List.nil_append], List.not_mem_nil⟩
    case isFalse hb =>
      obtain ⟨⟨line', rest'⟩, hfound, heq⟩ := Option.map_eq_some_iff.mp h
      cases heq
      obtain ⟨hdata, hline⟩ := ih hfound
      exact ⟨by rw [hdata, List.cons_append],
        List.not_mem_cons_of_ne_of_not_mem (Ne.symm hb) hline⟩

theorem memchr_none {data : List UInt8} (h : memchr data = none) : newline ∉ data := by
  induction data with
  | nil => exact List.not_mem_nil
  | cons b data ih =>
    rw [memchr] at h
    split at h
    case isTrue => cases h
    case isFalse hb =>
      exact List.not_mem_cons_of_ne_of_not_mem (Ne.symm hb) (ih (Option.map_eq_none_iff.mp h))

theorem memchr_length {data line rest : List UInt8} (h : memchr data = some (line, rest)) :
    rest.length < data.length := by
  rw [(memchr_some h).1, List.length_append, List.length_cons]
  omega

structure LineReader where
  buf : Option Memory := none
  pos : Nat := 0

namespace LineReader

/-- Contents and length, as `onLine` gets them. -/
abbrev Line := List UInt8 × Nat

def reset (r : LineReader) : LineReader :=
  if r.buf.isSome then { buf := none, pos := 0 } else r

/-- `fresh` is what a buffer of the pool holds. -/
def add (fresh : Memory) (r : LineReader) (data : List UInt8) : LineReader :=
  if data.length + r.pos > chunkSize then r
  else
    let r := if r.buf.isNone then { buf := some fresh, pos := 0 } else r
    { buf := r.buf.map (write · r.pos data), pos := r.pos + data.length }

/-- `onLine(m_buf, size)`. -/
def bufLine (r : LineReader) (size : Nat) : Line := (read (r.buf.getD fun _ => 0) 0 size, size)

/-- One round of the loop of `getline`: `line` is closed by a zero byte now. -/
def closeLine (fresh : Memory) (r : LineReader) (line : List UInt8) : LineReader × List Line :=
  let start := line ++ [0]
  if r.pos ≠ 0 then
    let r := r.add fresh start
    ({ r with pos := 0 }, [r.bufLine (r.pos - 1)])
  else if start.length > 1 then (r, [(start.take (start.length - 1), start.length - 1)])
  else (r, [])

/-- What was delivered before, in front. -/
def after (lines : List Line) (next : LineReader × List Line) : LineReader × List Line :=
  (next.1, lines ++ next.2)

def getline (fresh : Memory) (r : LineReader) (data : List UInt8) : LineReader × List Line :=
  match _h : memchr data with
  | some (line, rest) =>
    after (r.closeLine fresh line).2 (getline fresh (r.closeLine fresh line).1 rest)
  | none => if data = [] then (r.reset, []) else (r.add fresh data, [])
termination_by data.length
decreasing_by exact memchr_length _h

/-- With a listener. -/
def parse (fresh : Memory) (r : LineReader) (data : List UInt8) : LineReader × List Line :=
  if data = [] then (r, []) else r.getline fresh data

def run (fresh : Memory) (r : LineReader) : List (List UInt8) → LineReader × List Line
  | [] => (r, [])
  | chunk :: chunks => after (r.parse fresh chunk).2 (run fresh (r.parse fresh chunk).1 chunks)

/-- The calls of `onLine` for lines: none for an empty one. -/
def calls (lines : List (List UInt8)) : List Line :=
  (lines.filter fun line => line ≠ []).map fun line => (line, line.length)

theorem calls_append (xs ys : List (List UInt8)) : calls (xs ++ ys) = calls xs ++ calls ys := by
  simp only [calls, List.filter_append, List.map_append]

section Lines

variable {line rest : List UInt8}

theorem completeLines_cons (h : newline ∉ line) (rest : List UInt8) :
    completeLines (line ++ newline :: rest) = line :: completeLines rest := by
  have hne : rest.splitOn newline ≠ [] := by simp
  rw [completeLines, List.splitOn_append_cons_self_of_not_mem h,
    List.dropLast_cons_of_ne_nil hne, completeLines]

theorem completeLines_open (h : newline ∉ line) : completeLines line = [] := by
  rw [completeLines, List.splitOn_eq_singleton h]
  rfl

/-- A line that is not complete goes on in what follows, if a newline does. -/
theorem exists_line (h : newline ∉ line) (hrest : newline ∈ rest) :
    ∃ l ∈ completeLines (line ++ rest), line.length ≤ l.length := by
  cases hfound : memchr rest with
  | none => exact absurd hrest (memchr_none hfound)
  | some found =>
    obtain ⟨after, more⟩ := found
    obtain ⟨hdata, hline⟩ := memchr_some hfound
    have hwhole : newline ∉ line ++ after := by simp [h, hline]
    refine ⟨line ++ after, ?_, by simp⟩
    rw [hdata, ← List.append_assoc, completeLines_cons hwhole]
    exact List.mem_cons_self

end Lines

/-- The buffer holds the start of a line. -/
structure Carries (r : LineReader) (start : List UInt8) : Prop where
  pos : r.pos = start.length
  held : start = [] ∨ ∃ m, r.buf = some m ∧ read m 0 start.length = start
  opened : newline ∉ start

variable {fresh : Memory} {r : LineReader} {start line data more : List UInt8}

theorem carries_zero (h : r.pos = 0) : Carries r [] := ⟨h, .inl rfl, List.not_mem_nil⟩

theorem carries_reset (h : r.pos = 0) : Carries r.reset [] := by
  refine carries_zero ?_
  unfold reset
  split
  · rfl
  · exact h

theorem add_bytes (fresh : Memory) (h : Carries r start) (hfits : data.length + start.length ≤ chunkSize) :
    (r.add fresh data).pos = start.length + data.length ∧
      ∃ m, (r.add fresh data).buf = some m ∧
        read m 0 (start.length + data.length) = start ++ data := by
  have hroom : ¬ data.length + r.pos > chunkSize := by
    rw [h.pos]
    omega
  have hbytes (m : Memory) (hm : start = [] ∨ read m 0 start.length = start) :
      read (write m start.length data) 0 (start.length + data.length) = start ++ data := by
    have hkept : read (write m start.length data) 0 start.length = start := by
      rw [read_write_disjoint (.inl (zero_add _).le)]
      rcases hm with rfl | hm
      · rfl
      · exact hm
    rw [read_add, hkept, zero_add, read_write_take le_rfl, List.take_length]
  unfold add
  rw [if_neg hroom]
  rcases h.held with rfl | ⟨m, hbuf, hm⟩
  · cases hbuf : r.buf with
    | none => exact ⟨rfl, _, rfl, hbytes fresh (.inl rfl)⟩
    | some m =>
      simp only [hbuf, h.pos, Option.isNone_some, Bool.false_eq_true, if_false, Option.map_some]
      exact ⟨trivial, _, rfl, hbytes m (.inl rfl)⟩
  · simp only [hbuf, h.pos, Option.isNone_some, Bool.false_eq_true, if_false, Option.map_some]
    exact ⟨trivial, _, rfl, hbytes m (.inr hm)⟩

theorem closeLine_carried (fresh : Memory) (h : Carries r start) (hfits : (start ++ line).length < chunkSize) :
    (r.closeLine fresh line).2 = calls [start ++ line] ∧ (r.closeLine fresh line).1.pos = 0 := by
  unfold closeLine
  by_cases hstart : start = []
  · have hpos : r.pos = 0 := by rw [h.pos, hstart, List.length_nil]
    rw [if_neg (not_not.mpr hpos), hstart, List.nil_append]
    cases line with
    | nil => exact ⟨rfl, hpos⟩
    | cons b line => simp [calls, hpos]
  · have hlength : 0 < start.length := List.length_pos_of_ne_nil hstart
    have hpos : r.pos ≠ 0 := by rw [h.pos]; omega
    have hroom : (line ++ [0]).length + start.length ≤ chunkSize := by
      simp only [List.length_append, List.length_singleton] at hfits ⊢
      omega
    obtain ⟨hend, m, hbuf, hbytes⟩ := add_bytes fresh h hroom
    have hsize : start.length + (line ++ [0]).length - 1 = (start ++ line).length := by
      simp only [List.length_append, List.length_singleton]
      omega
    have hwhole : (start ++ line).length + 1 = start.length + (line ++ [0]).length := by
      simp only [List.length_append, List.length_singleton]
      omega
    have hline : read m 0 (start ++ line).length = start ++ line := by
      rw [← hwhole, read_add, ← List.append_assoc] at hbytes
      exact List.append_inj_left hbytes (length_read ..)
    rw [if_pos hpos]
    refine ⟨?_, rfl⟩
    simp only [bufLine, hend, hbuf, hsize, Option.getD_some, hline]
    simp [calls, hstart]

theorem getline_some {rest : List UInt8} (h : memchr data = some (line, rest)) :
    r.getline fresh data =
      after (r.closeLine fresh line).2 (getline fresh (r.closeLine fresh line).1 rest) := by
  rw [getline]
  split
  case h_1 hfound =>
    cases hfound.symm.trans h
    rfl
  case h_2 hfound => exact absurd (hfound.symm.trans h) (Option.some_ne_none _).symm

theorem getline_none (h : memchr data = none) :
    r.getline fresh data = if data = [] then (r.reset, []) else (r.add fresh data, []) := by
  rw [getline]
  split
  case h_1 hfound => exact absurd (hfound.symm.trans h) (Option.some_ne_none _)
  case h_2 => rfl

/-- What `getline` delivers, before `more` of the stream. -/
theorem getline_carried (fresh : Memory) (h : Carries r start) (hempty : data = [] → start = [])
    (hfits : ∀ l ∈ completeLines (start ++ data ++ more), l.length < chunkSize) :
    ∃ lines rest, completeLines (start ++ data ++ more) = lines ++ completeLines (rest ++ more) ∧
      (r.getline fresh data).2 = calls lines ∧ newline ∉ rest ∧
        (Carries (r.getline fresh data).1 rest ∨ newline ∉ more) := by
  induction r, data using getline.induct fresh generalizing start with
  | case1 r data line rest hfound ih =>
    obtain ⟨hdata, hline⟩ := memchr_some hfound
    have hopen : newline ∉ start ++ line := by simp [h.opened, hline]
    have hstream : completeLines (start ++ data ++ more) =
        (start ++ line) :: completeLines ([] ++ rest ++ more) := by
      rw [hdata, List.nil_append, ← completeLines_cons hopen]
      simp only [List.append_assoc, List.cons_append]
    rw [hstream] at hfits
    obtain ⟨hcalls, hpos⟩ := closeLine_carried fresh h (hfits _ List.mem_cons_self)
    obtain ⟨lines, left, hlines, hnext, hleft, hcarries⟩ :=
      ih (carries_zero hpos) (fun _ => rfl) fun l hl => hfits l (List.mem_cons_of_mem _ hl)
    rw [getline_some hfound]
    refine ⟨(start ++ line) :: lines, left, ?_, ?_, hleft, hcarries⟩
    · rw [hstream, hlines, List.cons_append]
    · rw [after, hcalls, hnext]
      exact (calls_append [start ++ line] lines).symm
  | case2 r hfound =>
    obtain rfl := hempty rfl
    rw [getline_none hfound, if_pos rfl]
    exact ⟨[], [], rfl, rfl, List.not_mem_nil, .inl (carries_reset h.pos)⟩
  | case3 r data hfound hdata =>
    have hopen : newline ∉ start ++ data := by simp [h.opened, memchr_none hfound]
    rw [getline_none hfound, if_neg hdata]
    refine ⟨[], start ++ data, rfl, rfl, hopen, ?_⟩
    by_cases hroom : data.length + start.length ≤ chunkSize
    case pos =>
      obtain ⟨hpos, m, hbuf, hbytes⟩ := add_bytes fresh h hroom
      rw [← List.length_append] at hpos hbytes
      exact .inl ⟨hpos, .inr ⟨m, hbuf, hbytes⟩, hopen⟩
    case neg =>
      refine .inr fun hmore => hroom ?_
      obtain ⟨l, hl, hle⟩ := exists_line hopen hmore
      have hlt := hfits l hl
      rw [List.length_append] at hle
      omega

/-- Without a newline nothing is delivered. -/
theorem run_open {chunks : List (List UInt8)} (h : newline ∉ chunks.flatten) :
    (run fresh r chunks).2 = [] := by
  induction chunks generalizing r with
  | nil => rfl
  | cons chunk chunks ih =>
    rw [List.flatten_cons, List.mem_append, not_or] at h
    have hchunk : (r.parse fresh chunk).2 = [] := by
      cases hfound : memchr chunk with
      | some found =>
        obtain ⟨line, rest⟩ := found
        obtain ⟨hdata, -⟩ := memchr_some hfound
        exact absurd (hdata ▸ List.mem_append_right _ List.mem_cons_self) h.1
      | none =>
        rw [parse, getline_none hfound]
        split <;> rfl
    rw [run, after, hchunk, ih h.2]
    rfl

theorem run_carried {chunks : List (List UInt8)} (h : Carries r start)
    (hfits : ∀ l ∈ completeLines (start ++ chunks.flatten), l.length < chunkSize) :
    (run fresh r chunks).2 = calls (completeLines (start ++ chunks.flatten)) := by
  induction chunks generalizing r start with
  | nil =>
    rw [List.flatten_nil, List.append_nil, completeLines_open h.opened]
    rfl
  | cons chunk chunks ih =>
    rw [List.flatten_cons, ← List.append_assoc] at hfits ⊢
    rw [run, after, parse]
    split
    case isTrue hchunk =>
      rw [hchunk, List.append_nil] at hfits ⊢
      exact ih h hfits
    case isFalse hchunk =>
      obtain ⟨lines, rest, hlines, hcalls, hrest, hnext⟩ :=
        getline_carried fresh h (fun hnil => absurd hnil hchunk) hfits
      rw [hlines] at hfits ⊢
      rw [hcalls, calls_append]
      refine congrArg (calls lines ++ ·) ?_
      rcases hnext with hcarries | hopen
      · exact ih hcarries fun l hl => hfits l (List.mem_append_right _ hl)
      · have hnone : newline ∉ rest ++ chunks.flatten := by
          rw [List.mem_append, not_or]
          exact ⟨hrest, hopen⟩
        rw [run_open hopen, completeLines_open hnone]
        rfl

/-- However a stream is split, its complete lines are delivered, save the empty ones. -/
theorem lines_delivered (fresh : Memory) {chunks : List (List UInt8)}
    (hfits : ∀ line ∈ completeLines chunks.flatten, line.length + 1 ≤ chunkSize) :
    (run fresh {} chunks).2 = calls (completeLines chunks.flatten) :=
  run_carried (carries_zero rfl) hfits

/-- A line over three chunks, and empty lines in front of and after it. -/
theorem lines_delivered_three :
    (run (fun _ => 1) {} [[10, 65], [66], [10, 10]]).2 = [([65, 66], 2)] :=
  (lines_delivered (fun _ => 1) (by decide)).trans (by decide)

end LineReader

end VeloxHash
