import VeloxHash.HttpContext
import Mathlib.Tactic

/-! The message that a listener is handed, against the pieces in which the parser delivered it. -/

namespace VeloxHash.HttpPieces

open HttpContext TransitionSystem

/-- Something that the parser delivers in one or more pieces. -/
structure Item where
  first : String
  rest : List String := []
  deriving DecidableEq

namespace Item

def pieces (item : Item) : List String := item.first :: item.rest

def text (item : Item) : String := item.rest.foldl (· ++ ·) item.first

/-- The same in a single piece. -/
def whole (item : Item) : Item := ⟨item.text, []⟩

def last (item : Item) : String := item.rest.foldl (fun _ piece => piece) item.first

end Item

/-- A message with the pieces of each of its items: there is no URL in a response, and a chunked
message may have headers behind its body. -/
structure Delivery where
  url : Option Item := none
  headers : List (Item × Item) := []
  status : Int := 0
  method : Int := 0
  body : Option Item := none
  trailers : List (Item × Item) := []

def headerCallbacks (header : Item × Item) : List HttpCallback :=
  header.1.pieces.map .headerField ++ header.2.pieces.map .headerValue

namespace Delivery

def callbacks (d : Delivery) : List HttpCallback :=
  (d.url.elim [] fun url => url.pieces.map .url) ++ d.headers.flatMap headerCallbacks ++
    [.headersComplete d.status d.method] ++ (d.body.elim [] fun body => body.pieces.map .body) ++
    d.trailers.flatMap headerCallbacks ++ [.messageComplete]

/-- Every item arrives in a single piece. -/
def whole (d : Delivery) : Delivery where
  url := d.url.map Item.whole
  headers := d.headers.map fun h => (h.1.whole, h.2.whole)
  status := d.status
  method := d.method
  body := d.body.map Item.whole
  trailers := d.trailers.map fun h => (h.1.whole, h.2.whole)

end Delivery

section Feed

variable {c : HttpContext}

theorem feed_append (c : HttpContext) (a b : List HttpCallback) :
    c.feed (a ++ b) = (c.feed a).feed b := List.foldl_append

/-- Only the last piece of a URL is kept. -/
theorem feed_url (c : HttpContext) (item : Item) :
    c.feed (item.pieces.map .url) = { c with data.url := item.last } := by
  obtain ⟨first, rest⟩ := item
  induction rest generalizing c first with
  | nil => rfl
  | cons piece rest ih => exact ih { c with data.url := first } piece

theorem append_foldl (s first : String) (rest : List String) :
    rest.foldl (· ++ ·) (s ++ first) = s ++ rest.foldl (· ++ ·) first := by
  induction rest generalizing first with
  | nil => rfl
  | cons piece rest ih => rw [List.foldl_cons, List.foldl_cons, String.append_assoc, ih]

theorem feed_body (c : HttpContext) (item : Item) :
    c.feed (item.pieces.map .body) = { c with data.body := c.data.body ++ item.text } := by
  have hpieces (body : String) (pieces : List String) :
      ({ c with data.body := body } : HttpContext).feed (pieces.map .body) =
        { c with data.body := pieces.foldl (· ++ ·) body } := by
    induction pieces generalizing body with
    | nil => rfl
    | cons piece pieces ih => exact ih (body ++ piece)
  rw [Item.text, ← append_foldl]
  exact hpieces c.data.body item.pieces

/-- The rest of a header name. -/
theorem feed_fields (h : c.wasHeaderValue = false) (pieces : List String) :
    c.feed (pieces.map .headerField) =
      { c with lastHeaderField := pieces.foldl (· ++ ·) c.lastHeaderField } := by
  induction pieces generalizing c with
  | nil => rfl
  | cons piece pieces ih =>
    have hpiece : c.onHeaderField piece = { c with lastHeaderField := c.lastHeaderField ++ piece } :=
      if_neg (by simp [h])
    change (c.onHeaderField piece).feed (pieces.map .headerField) = _
    rw [hpiece]
    exact ih h

/-- The rest of a header value. -/
theorem feed_values (h : c.wasHeaderValue = true) (pieces : List String) :
    c.feed (pieces.map .headerValue) =
      { c with lastHeaderValue := pieces.foldl (· ++ ·) c.lastHeaderValue } := by
  induction pieces generalizing c with
  | nil => rfl
  | cons piece pieces ih =>
    have hpiece : c.onHeaderValue piece = { c with lastHeaderValue := c.lastHeaderValue ++ piece } :=
      if_neg (by simp [h])
    change (c.onHeaderValue piece).feed (pieces.map .headerValue) = _
    rw [hpiece]
    exact ih h

/-- Between two headers nothing of a name was read that is not complete. -/
def Between (c : HttpContext) : Prop := c.wasHeaderValue = true ∨ c.lastHeaderField = ""

/-- The header that was read last goes into the map. -/
def flushed (c : HttpContext) : HttpContext :=
  if c.wasHeaderValue ∧ c.lastHeaderField ≠ "" then c.setHeader else c

/-- What is left of a header does not depend on its pieces. -/
theorem feed_header (h : Between c) (header : Item × Item) :
    c.feed (headerCallbacks header) =
      { flushed c with
        wasHeaderValue := true
        lastHeaderField := header.1.text
        lastHeaderValue := header.2.text } := by
  obtain ⟨⟨field, fields⟩, value, values⟩ := header
  have hfield : c.onHeaderField field =
      { flushed c with wasHeaderValue := false, lastHeaderField := field } := by
    unfold HttpContext.onHeaderField flushed
    cases hwas : c.wasHeaderValue with
    | true =>
      rw [if_pos rfl]
      by_cases hempty : c.lastHeaderField = "" <;> simp [hempty]
    | false =>
      have hempty : c.lastHeaderField = "" := h.resolve_left (by simp [hwas])
      rw [if_neg Bool.false_ne_true, if_neg (by simp), hempty, String.empty_append, ← hwas]
  have hvalue (c' : HttpContext) (hwas : c'.wasHeaderValue = false) :
      c'.onHeaderValue value = { c' with lastHeaderValue := value, wasHeaderValue := true } :=
    if_pos (by simp [hwas])
  unfold headerCallbacks
  rw [feed_append]
  change ((c.onHeaderField field).feed (fields.map .headerField)).feed
    (.headerValue value :: values.map .headerValue) = _
  rw [hfield, feed_fields rfl]
  change (HttpContext.onHeaderValue _ value).feed (values.map .headerValue) = _
  rw [hvalue _ rfl, feed_values rfl]
  rfl

/-- Headers that agree in their texts leave the same. -/
theorem feed_headers (h : Between c) (headers : List (Item × Item)) :
    c.feed (headers.flatMap headerCallbacks) =
      c.feed ((headers.map fun h => (h.1.whole, h.2.whole)).flatMap headerCallbacks) := by
  induction headers generalizing c with
  | nil => rfl
  | cons header headers ih =>
    rw [List.map_cons, List.flatMap_cons, List.flatMap_cons, feed_append, feed_append,
      feed_header h, feed_header h]
    exact ih (.inl rfl)

theorem between_headers (h : Between c) (headers : List (Item × Item)) :
    Between (c.feed (headers.flatMap headerCallbacks)) := by
  induction headers generalizing c with
  | nil => exact h
  | cons header headers ih =>
    rw [List.flatMap_cons, feed_append, feed_header h]
    exact ih (.inl rfl)

theorem between_headersComplete (h : Between c) (status method : Int) :
    Between (c.onHeadersComplete status method) := by
  unfold HttpContext.onHeadersComplete
  dsimp only
  split <;> split
  · exact .inr rfl
  · exact h
  · exact .inr rfl
  · exact h

end Feed

section Handed

variable {c c' : HttpContext} {d : Delivery}

/-- The URL, what was handed over, and whether more may be. -/
structure Keeps (c c' : HttpContext) : Prop where
  url : c'.data.url = c.data.url
  listener : c'.listener = c.listener
  stored : c'.stored = c.stored
  closing : c'.closing = c.closing
  handed : c'.handed = c.handed

theorem Keeps.trans {c'' : HttpContext} (h : Keeps c c') (h' : Keeps c' c'') : Keeps c c'' :=
  ⟨h'.url.trans h.url, h'.listener.trans h.listener, h'.stored.trans h.stored,
    h'.closing.trans h.closing, h'.handed.trans h.handed⟩

/-- A callback that neither brings a URL nor ends the message. -/
def Inner : HttpCallback → Prop
  | .url _ | .messageComplete => False
  | _ => True

theorem Keeps.callback {callback : HttpCallback} (h : Inner callback) :
    Keeps c (c.callback callback) := by
  cases callback with
  | url piece => exact h.elim
  | messageComplete => exact h.elim
  | body piece => exact ⟨rfl, rfl, rfl, rfl, rfl⟩
  | headerField piece =>
    change Keeps c (c.onHeaderField piece)
    unfold HttpContext.onHeaderField
    dsimp only
    split
    · split <;> exact ⟨rfl, rfl, rfl, rfl, rfl⟩
    · exact ⟨rfl, rfl, rfl, rfl, rfl⟩
  | headerValue piece =>
    change Keeps c (c.onHeaderValue piece)
    unfold HttpContext.onHeaderValue
    split <;> exact ⟨rfl, rfl, rfl, rfl, rfl⟩
  | headersComplete status method =>
    change Keeps c (c.onHeadersComplete status method)
    unfold HttpContext.onHeadersComplete
    dsimp only
    split <;> split <;> exact ⟨rfl, rfl, rfl, rfl, rfl⟩

theorem Keeps.feed {callbacks : List HttpCallback} (h : ∀ callback ∈ callbacks, Inner callback) :
    Keeps c (c.feed callbacks) := by
  induction callbacks generalizing c with
  | nil => exact ⟨rfl, rfl, rfl, rfl, rfl⟩
  | cons callback callbacks ih =>
    obtain ⟨hfirst, hrest⟩ := List.forall_mem_cons.mp h
    exact (Keeps.callback hfirst).trans (ih hrest)

/-- The callbacks between the URL and the end of the message. -/
def inner (d : Delivery) : List HttpCallback :=
  d.headers.flatMap headerCallbacks ++ [.headersComplete d.status d.method] ++
    (d.body.elim [] fun body => body.pieces.map .body) ++ d.trailers.flatMap headerCallbacks

theorem feed_callbacks (c : HttpContext) (d : Delivery) :
    c.feed d.callbacks = (c.feed (d.url.elim [] fun url => url.pieces.map .url)).feed
      (inner d ++ [.messageComplete]) := by
  rw [← feed_append]
  simp only [Delivery.callbacks, inner, List.append_assoc]

theorem inner_inner (d : Delivery) : ∀ callback ∈ inner d, Inner callback := by
  have hheaders (headers : List (Item × Item)) :
      ∀ callback ∈ headers.flatMap headerCallbacks, Inner callback := by
    intro callback hmem
    obtain ⟨header, -, hcallback⟩ := List.mem_flatMap.mp hmem
    rcases List.mem_append.mp hcallback with hfield | hvalue
    · obtain ⟨piece, -, rfl⟩ := List.mem_map.mp hfield
      trivial
    · obtain ⟨piece, -, rfl⟩ := List.mem_map.mp hvalue
      trivial
  have hbody : ∀ callback ∈ d.body.elim [] fun body => body.pieces.map .body, Inner callback := by
    cases d.body with
    | none => exact fun _ h => absurd h List.not_mem_nil
    | some body =>
      intro callback hmem
      obtain ⟨piece, -, rfl⟩ := List.mem_map.mp hmem
      trivial
  intro callback hmem
  rcases List.mem_append.mp hmem with hmem | htrailers
  · rcases List.mem_append.mp hmem with hmem | hmem
    · rcases List.mem_append.mp hmem with hmem | hcomplete
      · exact hheaders _ _ hmem
      · rw [List.mem_singleton.mp hcomplete]
        trivial
    · exact hbody _ hmem
  · exact hheaders _ _ htrailers

/-- Past the URL the pieces make no difference. -/
theorem feed_inner (h : Between c) (d : Delivery) : c.feed (inner d) = c.feed (inner d.whole) := by
  have hbody (c : HttpContext) : c.feed (d.body.elim [] fun body => body.pieces.map .body) =
      c.feed (d.whole.body.elim [] fun body => body.pieces.map .body) := by
    cases hd : d.body with
    | none => simp [Delivery.whole, hd]
    | some body =>
      have hwhole : d.whole.body = some body.whole := congrArg (Option.map Item.whole) hd
      rw [hwhole]
      exact (feed_body c body).trans (feed_body c body.whole).symm
  have hbetween (c : HttpContext) (h : Between c) :
      Between (c.feed (d.whole.body.elim [] fun body => body.pieces.map .body)) := by
    cases d.whole.body with
    | none => exact h
    | some body =>
      rw [Option.elim_some, feed_body]
      exact h
  have hcomplete := between_headersComplete
    (between_headers h (d.headers.map fun h => (h.1.whole, h.2.whole))) d.status d.method
  unfold inner
  rw [feed_append, feed_append, feed_append, feed_append, feed_append, feed_append, feed_headers h,
    hbody]
  exact feed_headers (hbetween _ hcomplete) d.trailers

/-- A message is handed over with the URL that is there when it ends. -/
theorem handed_of_inner (hlistener : c.listener = true) (d : Delivery) :
    ∃ data, (c.feed (inner d ++ [.messageComplete])).handed = c.handed ++ [data] ∧
      data.url = c.data.url := by
  have hkeeps : Keeps c (c.feed (inner d)) := .feed (inner_inner d)
  rw [feed_append]
  refine ⟨(c.feed (inner d)).data, ?_, hkeeps.url⟩
  change (c.feed (inner d)).hand.handed = _
  unfold HttpContext.hand
  rw [if_pos (hkeeps.listener.trans hlistener)]
  exact congrArg (· ++ [(c.feed (inner d)).data]) hkeeps.handed

end Handed

section Url

theorem last_length_le (item : Item) : item.last.length ≤ item.text.length := by
  obtain ⟨first, rest⟩ := item
  induction rest generalizing first with
  | nil => exact le_rfl
  | cons piece rest ih =>
    have htext : (⟨first, piece :: rest⟩ : Item).text = first ++ (⟨piece, rest⟩ : Item).text :=
      append_foldl first piece rest
    rw [htext, String.length_append]
    exact (ih piece).trans (Nat.le_add_left _ _)

/-- The last piece is all of an item if there is nothing in the others. -/
theorem last_eq_text_iff (item : Item) :
    item.last = item.text ↔ ∀ piece ∈ item.pieces.dropLast, piece = "" := by
  obtain ⟨first, rest⟩ := item
  induction rest generalizing first with
  | nil => exact iff_of_true rfl fun _ h => absurd h List.not_mem_nil
  | cons piece rest ih =>
    have htext : (⟨first, piece :: rest⟩ : Item).text = first ++ (⟨piece, rest⟩ : Item).text :=
      append_foldl first piece rest
    have hlast : (⟨first, piece :: rest⟩ : Item).last = (⟨piece, rest⟩ : Item).last := rfl
    have hpieces : (⟨first, piece :: rest⟩ : Item).pieces.dropLast =
        first :: (⟨piece, rest⟩ : Item).pieces.dropLast := rfl
    rw [htext, hlast, hpieces, List.forall_mem_cons, ← ih]
    constructor
    · intro heq
      have hlength := congrArg String.length heq
      have hle := last_length_le ⟨piece, rest⟩
      rw [String.length_append] at hlength
      have hempty : first = "" := String.length_eq_zero_iff.mp (by omega)
      refine ⟨hempty, ?_⟩
      rw [heq, hempty, String.empty_append]
    · rintro ⟨rfl, heq⟩
      rw [String.empty_append, heq]

end Url

section Once

variable {c c' : HttpContext}

/-- What was handed over was the last. -/
structure Once (c : HttpContext) : Prop where
  le : c.handed.length ≤ 1
  last : c.handed = [] ∨ c.listener = false ∨ c.stored = false ∧ c.closing = true

theorem Once.hand (h : Once c) (hlistener : c.listener = true)
    (hopen : c.stored = true ∨ c.closing = false) (data : HttpData) :
    (c.handed ++ [data]).length ≤ 1 := by
  rcases h.last with hnone | hreset | ⟨hstored, hclosing⟩
  · rw [hnone]
    exact le_rfl
  · rw [hreset] at hlistener
    exact absurd hlistener Bool.false_ne_true
  · rw [hstored, hclosing] at hopen
    exact absurd hopen (by decide)

theorem Once.step {event : HttpContext.Event} (h : Once c) (hstep : c.step event = some c') :
    Once c' := by
  cases event with
  | expire =>
    obtain rfl := Option.some.inj hstep
    exact ⟨h.le, .inr (.inl rfl)⟩
  | close status =>
    obtain rfl := Option.some.inj hstep
    unfold HttpContext.close
    split
    · exact h
    next hstored =>
      have hstored' : c.stored = true := by simpa using hstored
      refine ⟨?_, .inr (.inr ⟨rfl, rfl⟩)⟩
      dsimp only
      split
      next hhand =>
        unfold HttpContext.hand
        rw [if_pos hhand.2]
        exact h.hand hhand.2 (.inl hstored') _
      · exact h.le
  | callback callback =>
    have hopen : c.closing = false := by
      cases hclosing : c.closing with
      | false => rfl
      | true => simp [HttpContext.step, hclosing] at hstep
    have hself : c.callback callback = c' := by
      simpa [HttpContext.step, hopen] using hstep
    subst hself
    have hkept (hinner : Inner callback) : Once (c.callback callback) := by
      have hkeeps : Keeps c (c.callback callback) := .callback hinner
      refine ⟨hkeeps.handed ▸ h.le, ?_⟩
      rw [hkeeps.handed, hkeeps.listener, hkeeps.stored, hkeeps.closing]
      exact h.last
    cases callback with
    | url piece => exact ⟨h.le, h.last⟩
    | messageComplete =>
      refine ⟨?_, .inr (.inl rfl)⟩
      change c.hand.handed.length ≤ 1
      unfold HttpContext.hand
      split
      next hlistener => exact h.hand hlistener (.inr hopen) _
      · exact h.le
    | _ => exact hkept trivial

/-- In no run more than one message is handed over. -/
theorem Once.exec {events : List HttpContext.Event} (h : Once c)
    (hexec : exec HttpContext.step c events = some c') : Once c' :=
  (run_of_exec hexec).invariant (fun _ _ _ _ h hstep => h.step hstep) h

end Once

section Waiting

variable {c : HttpContext}

theorem callback_frame (c : HttpContext) (callback : HttpCallback) :
    (c.callback callback).stored = c.stored ∧ (c.callback callback).closing = c.closing := by
  have hinner (h : Inner callback) := Keeps.callback (c := c) h
  cases callback with
  | url piece => exact ⟨rfl, rfl⟩
  | messageComplete =>
    change c.hand.stored = _ ∧ c.hand.closing = _
    unfold HttpContext.hand
    split <;> exact ⟨rfl, rfl⟩
  | _ => exact ⟨(hinner trivial).stored, (hinner trivial).closing⟩

/-- The listener waits for a message, or was handed one. -/
def Waiting (c : HttpContext) : Prop := c.listener = true ∨ c.handed ≠ []

theorem Waiting.callback (h : Waiting c) (callback : HttpCallback) :
    Waiting (c.callback callback) := by
  have hinner (hi : Inner callback) : Waiting (c.callback callback) := by
    have hkeeps : Keeps c (c.callback callback) := .callback hi
    unfold Waiting
    rw [hkeeps.listener, hkeeps.handed]
    exact h
  cases callback with
  | url piece => exact h
  | messageComplete =>
    refine .inr ?_
    change c.hand.handed ≠ []
    unfold HttpContext.hand
    split
    · exact List.append_ne_nil_of_right_ne_nil _ (List.cons_ne_nil _ _)
    next hlistener => exact h.resolve_left hlistener
  | _ => exact hinner trivial

/-- What a read does to a context that is open. -/
theorem feed_frame (hopen : c.closing = false) (callbacks : List HttpCallback) :
    (c.feed callbacks).stored = c.stored ∧ (c.feed callbacks).closing = false ∧
      (Once c → Once (c.feed callbacks)) ∧ (Waiting c → Waiting (c.feed callbacks)) := by
  induction callbacks generalizing c with
  | nil => exact ⟨rfl, hopen, id, id⟩
  | cons callback callbacks ih =>
    obtain ⟨hstored, hclosing⟩ := callback_frame c callback
    obtain ⟨hstored', hclosing', honce, hwaiting⟩ := ih (hclosing.trans hopen)
    have hstep : c.step (.callback callback) = some (c.callback callback) := if_neg (by simp [hopen])
    exact ⟨hstored'.trans hstored, hclosing', fun h => honce (h.step hstep),
      fun h => hwaiting (h.callback callback)⟩

theorem Once.close (h : Once c) (status : Int) : Once (c.close status) :=
  have hstep : c.step (.close status) = some (c.close status) := rfl
  h.step hstep

/-- A close with an error calls a listener that waits. -/
theorem Waiting.close (h : Waiting c) (hstored : c.stored = true) {status : Int}
    (hstatus : status < 0) : (c.close status).handed ≠ [] := by
  unfold HttpContext.close
  rw [if_neg (by simp [hstored])]
  dsimp only
  split
  next hlistener =>
    unfold HttpContext.hand
    rw [if_pos hlistener.2]
    exact List.append_ne_nil_of_right_ne_nil _ (List.cons_ne_nil _ _)
  next hnone => exact h.resolve_left fun hlistener => hnone ⟨hstatus, hlistener⟩

theorem close_handed (h : c.handed ≠ []) (status : Int) : (c.close status).handed ≠ [] := by
  unfold HttpContext.close HttpContext.hand
  split
  · exact h
  · split
    · split
      · exact List.append_ne_nil_of_left_ne_nil h _
      · exact h
    · exact h

theorem close_closing (hstored : c.stored = true) (status : Int) :
    (c.close status).closing = true := by
  unfold HttpContext.close
  rw [if_neg (by simp [hstored])]

end Waiting

/-- A message without a URL, or with one that comes in one piece. -/
def UrlInOnePiece (d : Delivery) : Prop :=
  ∀ url, d.url = some url → ∀ piece ∈ url.pieces.dropLast, piece = ""

/-- A request for a page of which the parser sees the name in two reads. -/
def splitUrl : Delivery where
  url := some ⟨"/1/", ["summary"]⟩
  headers := [(⟨"Host", []⟩, ⟨"localhost", []⟩)]
  method := HttpData.HTTP_GET

theorem url_lost : ¬ ∀ (isRequest : Bool) (data : HttpData) (d : Delivery),
    (({ isRequest, data } : HttpContext).feed d.callbacks).handed =
      (({ isRequest, data } : HttpContext).feed d.whole.callbacks).handed := by
  intro h
  exact absurd (h true {} splitUrl) (by decide +kernel)

/-- A message is handed over as if every item came in one piece exactly if its URL does; and no
context hands over more than one. -/
theorem pieces_iff (isRequest : Bool) (data : HttpData) (d : Delivery) :
    ((({ isRequest, data } : HttpContext).feed d.callbacks).handed =
        (({ isRequest, data } : HttpContext).feed d.whole.callbacks).handed ∧
      ∀ events c, exec HttpContext.step { isRequest, data } events = some c →
        c.handed.length ≤ 1) ↔ UrlInOnePiece d := by
  have honce : ∀ events c, exec HttpContext.step { isRequest, data } events = some c →
      c.handed.length ≤ 1 := fun events c hexec =>
    (Once.exec (c := { isRequest, data }) ⟨Nat.zero_le 1, .inl rfl⟩ hexec).le
  rw [and_iff_left honce, feed_callbacks, feed_callbacks]
  have hrest {c : HttpContext} (h : Between c) :
      c.feed (inner d ++ [.messageComplete]) = c.feed (inner d.whole ++ [.messageComplete]) := by
    rw [feed_append, feed_append, feed_inner h]
  cases hurl : d.url with
  | none =>
    have hwhole : d.whole.url = none := congrArg (Option.map Item.whole) hurl
    refine iff_of_true ?_ fun url hsome => ?_
    · rw [hwhole]
      exact congrArg HttpContext.handed (hrest (.inr rfl))
    · rw [hurl] at hsome
      cases hsome
  | some url =>
    have hwhole : d.whole.url = some url.whole := congrArg (Option.map Item.whole) hurl
    rw [hwhole, Option.elim_some, Option.elim_some, feed_url, feed_url]
    have hiff : UrlInOnePiece d ↔ url.last = url.text := by
      rw [last_eq_text_iff]
      refine ⟨fun h => h url hurl, fun h url' hsome => ?_⟩
      obtain rfl := Option.some.inj (hurl.symm.trans hsome)
      exact h
    rw [hiff, hrest (.inr rfl)]
    constructor
    · intro heq
      obtain ⟨one, hone, hlast⟩ := handed_of_inner
        (c := { isRequest, data := { data with url := url.last } }) rfl d.whole
      obtain ⟨other, hother, htext⟩ := handed_of_inner
        (c := { isRequest, data := { data with url := url.whole.last } }) rfl d.whole
      have hsame : [one] = [other] := hone.symm.trans (heq.trans hother)
      rw [← List.singleton_inj.mp hsame, hlast] at htext
      exact htext
    · intro hsame
      have hlast : url.whole.last = url.last := hsame.symm
      rw [hlast]

end VeloxHash.HttpPieces
