import VeloxHash.HttpApiRequest
import Mathlib.Tactic

/-! How often a request to the API is answered. `done` of a JSON-RPC request ends the response
through `setRpcError` or `setRpcResult`, and then again. -/

namespace VeloxHash.ApiAnswers

open HttpApiRequest Request

variable {lib : HttpLibrary} {r : Request}

/-- The members of a complete JSON-RPC reply to a request with this id. -/
def IsReply (id : Json) (members : List (String × Json)) : Prop :=
  (members.filter fun m => m.1 = "result" ∨ m.1 = "error").length = 1 ∧
    (members.filter fun m => m.1 = "id").map Prod.snd = [id]

/-- What the parser makes of the body; there is nothing in one that it refuses. -/
def document (lib : HttpLibrary) (data : HttpData) : Json :=
  if data.body = "" then .null
  else
    match lib.parse data.body with
    | .ok body => body
    | .error _ => .null

def methodOf (lib : HttpLibrary) (data : HttpData) : String :=
  Json.zeroTerminated (((document lib data).getString "method").getD "")

def idOf (lib : HttpLibrary) (data : HttpData) : Json := (document lib data).getValue "id"

def IsJsonRpc (data : HttpData) : Prop :=
  data.method = HttpData.HTTP_POST ∧ data.url = "/json_rpc"

instance (data : HttpData) : Decidable (IsJsonRpc data) := inferInstanceAs (Decidable (_ ∧ _))

/-- One answer was sent, and that to a JSON-RPC request is a reply to it. -/
def AnsweredOnce (lib : HttpLibrary) (data : HttpData) (ends : List HttpAnswer) : Prop :=
  ∃ answer, ends = [answer] ∧ (IsJsonRpc data →
    ∃ members, answer.doc = some (.object members) ∧ IsReply (idOf lib data) members)

/-- The calls up to the one that ends the request. -/
def untilFinal : List Script → List Call × Option Final
  | [] => ([], none)
  | script :: rest =>
    match script.final with
    | some final => (script.calls, some final)
    | none => (script.calls ++ (untilFinal rest).1, (untilFinal rest).2)

/-- What a call does to the reply to a JSON-RPC request. -/
def fill (doc : Json) : Call → Json
  | .addMember key value => doc.addMember key value
  | .setDoc doc => doc
  | _ => doc

def isAccept : Call → Bool
  | .accept => true
  | _ => false

/-- The call that ends a request that is new or accepted; without one it is the call of `exec`. -/
def closing (accepted : Bool) : Option Final → Final
  | some final => final
  | none => .done (if accepted then 200 else 404)

/-- A call that ends a request with these members in its reply answers it by itself, or with a
reply that was put together before. -/
def Final.Answers (id : Json) (members : List (String × Json)) : Final → Prop
  | .done status => status = 200 ∧ (∃ m ∈ members, m.1 = "result") ∧ IsReply id members
  | _ => ∀ m ∈ members, m.1 ≠ "result" ∧ m.1 ≠ "error" ∧ m.1 ≠ "id"

/-- The listeners answer a JSON-RPC request. -/
def Answered (id : Json) (scripts : List Script) : Prop :=
  let (calls, final) := untilFinal scripts
  ∃ members, calls.foldl fill (.object []) = .object members ∧
    Final.Answers id members (closing (calls.any isAccept) final)

section Ends

/-- The body that goes with a status that is no error. -/
def bodyOf : Json → Option Json
  | .object [] => none
  | doc => some doc

/-- `endApi` sends one answer to a client that is alive. -/
theorem endApi_ends (lib : HttpLibrary) (halive : r.alive = true) :
    ∃ answer, (r.endApi lib).ends = r.ends ++ [answer] ∧
      (r.res.statusCode = 200 → answer.doc = bodyOf r.res.doc) := by
  have hhttp (res : HttpApiResponse) (doc : Option Json) :
      ∃ answer, (res.endHttp lib r.alive doc).2 = [answer] ∧ answer.doc = doc := by
    rw [halive]
    exact ⟨_, rfl, rfl⟩
  have hok (hstatus : r.res.statusCode = 200) :
      (r.res.allowOrigins.nameError lib).doc = r.res.doc := by
    have hcode : ¬ 400 ≤ r.res.allowOrigins.statusCode := by
      change ¬ 400 ≤ r.res.statusCode
      rw [hstatus]
      decide
    rw [HttpApiResponse.nameError, if_neg hcode]
    rfl
  have hends : ∃ answer, (r.res.endApi lib r.alive).2 = [answer] ∧
      (r.res.statusCode = 200 → answer.doc = bodyOf r.res.doc) := by
    unfold HttpApiResponse.endApi
    dsimp only
    split
    next hdoc =>
      obtain ⟨answer, hanswer, hnone⟩ := hhttp (r.res.allowOrigins.nameError lib) none
      exact ⟨answer, hanswer, fun hstatus => by rw [hnone, ← hok hstatus, hdoc, bodyOf]⟩
    next hdoc =>
      obtain ⟨answer, hanswer, hsome⟩ := hhttp (HttpApiResponse.setHeader _ _ _) (some _)
      refine ⟨answer, hanswer, fun hstatus => ?_⟩
      rw [hsome, ← hok hstatus]
      unfold bodyOf
      split
      next hnil => exact absurd hnil hdoc
      next => rfl
  obtain ⟨answer, hanswer, hdoc⟩ := hends
  exact ⟨answer, congrArg (r.ends ++ ·) hanswer, hdoc⟩

end Ends

section Calls

variable {r' : Request}

/-- Nothing was sent yet. -/
structure Open (r : Request) : Prop where
  alive : r.alive = true
  state : r.isDone = false
  ends : r.ends = []

theorem accept_frame (lib : HttpLibrary) (r : Request) :
    (r.accept lib).1.type = r.type ∧ (r.accept lib).1.data = r.data ∧
      (r.accept lib).1.alive = r.alive ∧ (r.accept lib).1.ends = r.ends ∧
        (r.accept lib).1.state = .accepted := by
  unfold accept
  dsimp only
  split
  case isFalse => exact ⟨rfl, rfl, rfl, rfl, rfl⟩
  case isTrue =>
    split
    · exact ⟨rfl, rfl, rfl, rfl, rfl⟩
    · split <;> exact ⟨rfl, rfl, rfl, rfl, rfl⟩

theorem perform_frame (lib : HttpLibrary) (r : Request) (call : Call) :
    (r.perform lib call).type = r.type ∧ (r.perform lib call).data = r.data ∧
      (r.perform lib call).ends = r.ends := by
  cases call with
  | accept =>
    obtain ⟨htype, hdata, -, hends, -⟩ := accept_frame lib r
    exact ⟨htype, hdata, hends⟩
  | _ => exact ⟨rfl, rfl, rfl⟩

theorem calls_frame (lib : HttpLibrary) (r : Request) (calls : List Call) :
    (calls.foldl (perform lib) r).type = r.type ∧ (calls.foldl (perform lib) r).data = r.data ∧
      (calls.foldl (perform lib) r).ends = r.ends := by
  induction calls generalizing r with
  | nil => exact ⟨rfl, rfl, rfl⟩
  | cons call calls ih =>
    obtain ⟨htype, hdata, hends⟩ := perform_frame lib r call
    obtain ⟨htype', hdata', hends'⟩ := ih (r.perform lib call)
    exact ⟨htype'.trans htype, hdata'.trans hdata, hends'.trans hends⟩

theorem Open.call (h : Open r) (call : Call) : Open (r.perform lib call) := by
  cases call with
  | accept =>
    obtain ⟨-, -, halive, hends, hstate⟩ := accept_frame lib r
    refine ⟨halive.trans h.alive, ?_, hends.trans h.ends⟩
    change ((r.accept lib).1.state == .done) = false
    rw [hstate]
    rfl
  | _ => exact ⟨h.alive, h.state, h.ends⟩

theorem Open.calls (h : Open r) (calls : List Call) : Open (calls.foldl (perform lib) r) := by
  induction calls generalizing r with
  | nil => exact h
  | cons call calls ih => exact ih (h.call call)

theorem done_isDone (r : Request) (status : Int) : (r.done lib status).isDone = true := by
  change ((r.done lib status).state == .done) = true
  unfold Request.done
  dsimp only
  split
  · split
    · rfl
    · split <;> rfl
  · rfl

theorem conclude_isDone (r : Request) (final : Final) : (r.conclude lib final).isDone = true := by
  cases final with
  | done status => exact done_isDone r status
  | _ => rfl

/-- The listeners do what the calls up to the final one do. -/
theorem offer_eq (h : Open r) (scripts : List Script) :
    r.offer lib scripts =
      match (untilFinal scripts).2 with
      | some final =>
        (((untilFinal scripts).1.foldl (perform lib) r).conclude lib final, true)
      | none => ((untilFinal scripts).1.foldl (perform lib) r, false) := by
  induction scripts generalizing r with
  | nil => rfl
  | cons script rest ih =>
    have hcalls : Open (script.calls.foldl (Request.perform lib) r) := h.calls script.calls
    cases hfinal : script.final with
    | some final =>
      have hrequest : r.onRequest lib script =
          (script.calls.foldl (perform lib) r).conclude lib final := by
        rw [onRequest, hfinal]
      rw [offer, hrequest, if_pos (conclude_isDone _ _), untilFinal, hfinal]
    | none =>
      have hrequest : r.onRequest lib script = script.calls.foldl (perform lib) r := by
        rw [onRequest, hfinal]
      have hopen : ¬ (script.calls.foldl (perform lib) r).isDone = true := by
        rw [hcalls.state]
        exact Bool.false_ne_true
      rw [offer, hrequest, if_neg hopen, ih hcalls, untilFinal, hfinal]
      dsimp only
      rw [List.foldl_append]

/-- A request as `exec` offers it to the listeners. -/
theorem prepared_plain (h : Open r) (htype : r.type ≠ .jsonRpc) (api : Api) :
    Open (if r.type = .summary then api.summary lib r else r) ∧
      (if r.type = .summary then api.summary lib r else r).type ≠ .jsonRpc := by
  split
  · rw [Api.summary_eq, (calls_frame lib r _).1]
    exact ⟨h.calls _, htype⟩
  · exact ⟨h, htype⟩

/-- `exec` ends a request that the listeners left open. -/
theorem exec_eq (h : Open r) (api : Api) (scripts : List Script) :
    api.exec lib r scripts =
      let r' := (untilFinal scripts).1.foldl (perform lib)
        (if r.type = .summary then api.summary lib r else r)
      r'.conclude lib (closing (!r'.isNew) (untilFinal scripts).2) := by
  have hopen : Open (if r.type = .summary then api.summary lib r else r) := by
    split
    · exact h.calls (api.summaryCalls _)
    · exact h
  unfold Api.exec
  dsimp only
  rw [offer_eq hopen]
  cases (untilFinal scripts).2 with
  | some final => rfl
  | none =>
    generalize (untilFinal scripts).1.foldl (perform lib) _ = r'
    dsimp only [closing]
    cases r'.isNew <;> rfl

end Calls

section Conclude

theorem findMember_isSome {key : String} {members : List (String × Json)} :
    (Json.findMember key members).isSome = true ↔ ∃ m ∈ members, m.1 = key := by
  induction members with
  | nil => simp [Json.findMember]
  | cons m members ih =>
    obtain ⟨name, value⟩ := m
    rw [Json.findMember]
    split
    case isTrue heq => simp [heq]
    case isFalse hne => simp [hne, ih]

/-- A request that is no JSON-RPC is answered once, whatever ends it. -/
theorem conclude_plain (h : Open r) (htype : r.type ≠ .jsonRpc) (final : Final) :
    ∃ answer, (r.conclude lib final).ends = [answer] := by
  have hend {r' : Request} (halive : r'.alive = r.alive) (hends : r'.ends = r.ends) :
      ∃ answer, (r'.endApi lib).ends = [answer] := by
    obtain ⟨answer, hanswer, -⟩ := endApi_ends (r := r') lib (halive.trans h.alive)
    refine ⟨answer, hanswer.trans ?_⟩
    rw [hends, h.ends, List.nil_append]
  cases final with
  | done status =>
    change ∃ answer, (r.done lib status).ends = [answer]
    unfold Request.done
    dsimp only
    rw [if_neg htype]
    exact hend rfl rfl
  | setRpcError code message => exact hend rfl rfl
  | setRpcResult result => exact hend rfl rfl

/-- What `rpcDone` makes of the reply. -/
def completed (r : Request) (key : String) (value : Json) : Json :=
  ((r.res.doc.addMember key value).addMember "jsonrpc" (.string "2.0")).addMember "id"
    (r.body.getValue "id")

theorem rpcDone_ends (lib : HttpLibrary) (halive : r.alive = true) (key : String) (value : Json) :
    ∃ answer, (r.rpcDone lib key value).ends = r.ends ++ [answer] ∧
      answer.doc = bodyOf (completed r key value) := by
  obtain ⟨answer, hends, hdoc⟩ := endApi_ends lib
    (r := { r with
      state := .done
      res.doc := completed r key value
      res.statusCode := 200 }) halive
  exact ⟨answer, hends, hdoc rfl⟩

/-- What `done` does for most JSON-RPC requests. -/
theorem rpcDone_twice (lib : HttpLibrary) (halive : r.alive = true) (key : String) (value : Json) :
    2 ≤ ((r.rpcDone lib key value).endApi lib).ends.length := by
  obtain ⟨answer, hends, -⟩ := rpcDone_ends lib halive key value
  obtain ⟨answer', hends', -⟩ := endApi_ends lib (r := r.rpcDone lib key value) halive
  rw [hends', hends, List.append_assoc, List.length_append]
  exact Nat.le_add_left _ _

/-- A reply is complete when `rpcDone` adds what it lacked. -/
theorem isReply_completed {id value : Json} {key : String} {members : List (String × Json)}
    (hkey : key = "result" ∨ key = "error") :
    IsReply id (members ++ [(key, value)] ++ [("jsonrpc", .string "2.0")] ++ [("id", id)]) ↔
      ∀ m ∈ members, m.1 ≠ "result" ∧ m.1 ≠ "error" ∧ m.1 ≠ "id" := by
  have hne : key ≠ "id" := by rcases hkey with rfl | rfl <;> decide
  have hanswer : (members ++ [(key, value)] ++ [("jsonrpc", Json.string "2.0")] ++ [("id", id)]).filter
      (fun m => m.1 = "result" ∨ m.1 = "error") =
        members.filter (fun m => m.1 = "result" ∨ m.1 = "error") ++ [(key, value)] := by
    simp [hkey]
  have hid : ((members ++ [(key, value)] ++ [("jsonrpc", Json.string "2.0")] ++ [("id", id)]).filter
      fun m => m.1 = "id").map Prod.snd =
        (members.filter fun m => m.1 = "id").map Prod.snd ++ [id] := by
    simp [hne]
  rw [IsReply, hanswer, hid]
  constructor
  · rintro ⟨hone, hself⟩ m hm
    have hnone : members.filter (fun m => m.1 = "result" ∨ m.1 = "error") = [] := by
      rw [List.length_append] at hone
      exact List.length_eq_zero_iff.mp (Nat.succ_injective hone)
    have hnone' : members.filter (fun m => m.1 = "id") = [] :=
      List.map_eq_nil_iff.mp (List.append_left_eq_self.mp hself)
    have hm' := List.filter_eq_nil_iff.mp hnone m hm
    have hm'' := List.filter_eq_nil_iff.mp hnone' m hm
    simp only [decide_eq_true_eq, not_or] at hm' hm''
    exact ⟨hm'.1, hm'.2, hm''⟩
  · intro h
    have hnone : members.filter (fun m => m.1 = "result" ∨ m.1 = "error") = [] := by
      refine List.filter_eq_nil_iff.mpr fun m hm => ?_
      simp [(h m hm).1, (h m hm).2.1]
    have hnone' : members.filter (fun m => m.1 = "id") = [] := by
      refine List.filter_eq_nil_iff.mpr fun m hm => ?_
      simp [(h m hm).2.2]
    rw [hnone, hnone']
    exact ⟨rfl, rfl⟩

/-- What was sent is one reply. -/
def Replied (id : Json) (ends : List HttpAnswer) : Prop :=
  ∃ answer, ends = [answer] ∧ ∃ members, answer.doc = some (.object members) ∧ IsReply id members

theorem not_replied {id : Json} {ends : List HttpAnswer} (h : 2 ≤ ends.length) :
    ¬ Replied id ends := by
  rintro ⟨answer, rfl, -⟩
  exact absurd h (by simp)

/-- An answer with this document is a reply if the members of an object are one. -/
theorem replied_iff {id doc : Json} {ends : List HttpAnswer} {answer : HttpAnswer}
    (hends : ends = [answer]) (hdoc : answer.doc = bodyOf doc) :
    Replied id ends ↔ ∃ members, doc = .object members ∧ IsReply id members := by
  have hself {members : List (String × Json)} (hreply : IsReply id members) :
      bodyOf (.object members) = some (.object members) := by
    cases members with
    | nil => exact absurd hreply.1 (by simp)
    | cons m members => rfl
  constructor
  · rintro ⟨answer', hanswer, members, hmembers, hreply⟩
    obtain rfl := List.singleton_inj.mp (hends.symm.trans hanswer)
    rw [hdoc] at hmembers
    unfold bodyOf at hmembers
    split at hmembers
    · cases hmembers
    · exact ⟨members, Option.some.inj hmembers, hreply⟩
  · rintro ⟨members, rfl, hreply⟩
    exact ⟨answer, hends, members, hdoc.trans (hself hreply), hreply⟩

theorem rpcDone_replied (h : Open r) {key : String} (hkey : key = "result" ∨ key = "error")
    (value : Json) :
    Replied (r.body.getValue "id") (r.rpcDone lib key value).ends ↔
      ∃ members, r.res.doc = .object members ∧
        ∀ m ∈ members, m.1 ≠ "result" ∧ m.1 ≠ "error" ∧ m.1 ≠ "id" := by
  obtain ⟨answer, hends, hdoc⟩ := rpcDone_ends lib h.alive key value
  rw [h.ends, List.nil_append] at hends
  rw [replied_iff hends hdoc, completed]
  constructor
  · rintro ⟨members, hobject, hreply⟩
    cases hold : r.res.doc with
    | object old =>
      rw [hold] at hobject
      obtain rfl := Json.object.inj hobject
      exact ⟨old, rfl, (isReply_completed hkey).mp hreply⟩
    | _ =>
      rw [hold] at hobject
      cases hobject
  · rintro ⟨members, hold, hfree⟩
    rw [hold]
    exact ⟨_, rfl, (isReply_completed hkey).mpr hfree⟩

/-- What ends a JSON-RPC request sends one reply exactly if it answers it. -/
theorem conclude_replied (lib : HttpLibrary) (h : Open r) (htype : r.type = .jsonRpc)
    (final : Final) :
    Replied (r.body.getValue "id") (r.conclude lib final).ends ↔
      ∃ members, r.res.doc = .object members ∧
        Final.Answers (r.body.getValue "id") members final := by
  cases final with
  | setRpcError code message => exact rpcDone_replied h (.inr rfl) _
  | setRpcResult result => exact rpcDone_replied h (.inl rfl) _
  | done status =>
    change Replied _ (r.done lib status).ends ↔ _
    have htwice (key : String) (value : Json) := rpcDone_twice lib
      (r := { r with state := .done, res := r.res.setStatus 200 }) h.alive key value
    unfold Request.done
    dsimp only
    rw [if_pos htype]
    split
    case isTrue hstatus =>
      refine iff_of_false (not_replied (htwice _ _)) ?_
      rintro ⟨members, -, hok, -⟩
      exact hstatus hok
    case isFalse hstatus =>
      have hok : status = 200 := not_not.mp hstatus
      split
      case isTrue hmember =>
        refine iff_of_false (not_replied (htwice _ _)) ?_
        rintro ⟨members, hdoc, -, hresult, -⟩
        have hsome : r.res.doc.hasMember "result" = true := by
          rw [hdoc]
          exact findMember_isSome.mpr hresult
        have hnone : (!r.res.doc.hasMember "result") = true := hmember
        rw [hsome] at hnone
        exact Bool.false_ne_true hnone
      case isFalse hmember =>
        have hsome : r.res.doc.hasMember "result" = true := by
          change ¬ (!r.res.doc.hasMember "result") = true at hmember
          simpa using hmember
        obtain ⟨answer, hends, hdoc⟩ := endApi_ends lib
          (r := { r with state := .done, res := r.res.setStatus 200 }) h.alive
        have hends' : _ = [answer] := hends.trans (by
          change r.ends ++ [answer] = [answer]
          rw [h.ends, List.nil_append])
        rw [replied_iff hends' (hdoc rfl)]
        constructor
        · rintro ⟨members, hobject, hreply⟩
          have hobject' : r.res.doc = .object members := hobject
          rw [hobject'] at hsome
          exact ⟨members, hobject', hok, findMember_isSome.mp hsome, hreply⟩
        · rintro ⟨members, hobject, -, -, hreply⟩
          exact ⟨members, hobject, hreply⟩

end Conclude

section Growth

/-- What was sent stays sent. -/
theorem endApi_le (lib : HttpLibrary) (r : Request) :
    r.ends.length ≤ (r.endApi lib).ends.length := by
  change r.ends.length ≤ (r.ends ++ _).length
  rw [List.length_append]
  exact Nat.le_add_right _ _

theorem rpcDone_le (lib : HttpLibrary) (r : Request) (key : String) (value : Json) :
    r.ends.length ≤ (r.rpcDone lib key value).ends.length :=
  endApi_le lib
    { r with
      state := .done
      res.doc := completed r key value
      res.statusCode := 200 }

theorem conclude_le (lib : HttpLibrary) (r : Request) (final : Final) :
    r.ends.length ≤ (r.conclude lib final).ends.length := by
  cases final with
  | setRpcError code message => exact rpcDone_le lib r _ _
  | setRpcResult result => exact rpcDone_le lib r _ _
  | done status =>
    change r.ends.length ≤ (r.done lib status).ends.length
    unfold Request.done
    dsimp only
    refine le_trans ?_ (endApi_le lib _)
    split
    · split
      · exact rpcDone_le lib { r with state := .done, res := r.res.setStatus 200 } _ _
      · split
        · exact rpcDone_le lib { r with state := .done, res := r.res.setStatus 200 } _ _
        · exact le_rfl
    · exact le_rfl

theorem offer_le (lib : HttpLibrary) (r : Request) (scripts : List Script) :
    r.ends.length ≤ (r.offer lib scripts).1.ends.length := by
  induction scripts generalizing r with
  | nil => exact le_rfl
  | cons script rest ih =>
    have hrequest : r.ends.length ≤ (r.onRequest lib script).ends.length := by
      obtain ⟨-, -, hends⟩ := calls_frame lib r script.calls
      unfold onRequest
      dsimp only
      split
      · rw [← hends]
        exact conclude_le lib _ _
      · rw [hends]
    rw [offer]
    split
    · exact hrequest
    · exact hrequest.trans (ih _)

theorem exec_le (lib : HttpLibrary) (api : Api) (r : Request) (htype : r.type = .jsonRpc)
    (scripts : List Script) : r.ends.length ≤ (api.exec lib r scripts).ends.length := by
  unfold Api.exec
  rw [if_neg (by rw [htype]; decide)]
  dsimp only
  split
  · exact offer_le lib r scripts
  · exact (offer_le lib r scripts).trans (conclude_le lib _ (.done _))

end Growth

section JsonRpc

variable {data : HttpData} {restricted : Bool}

/-- The body of a JSON-RPC request was parsed. -/
structure Rpc (lib : HttpLibrary) (r : Request) : Prop where
  type : r.type = .jsonRpc
  body : r.body = document lib r.data
  parsed : ¬ (r.parsed = 0 ∧ r.data.body ≠ "")

/-- What a call does to a JSON-RPC request. -/
theorem Rpc.call (h : Rpc lib r) (call : Call) :
    Rpc lib (r.perform lib call) ∧ (r.perform lib call).res.doc = fill r.res.doc call ∧
      (r.perform lib call).isNew = (r.isNew && !isAccept call) := by
  cases call with
  | accept =>
    have haccept : (r.accept lib).1 = { r with state := .accepted } := by
      unfold accept
      dsimp only
      rw [if_neg h.parsed]
    change Rpc lib (r.accept lib).1 ∧ (r.accept lib).1.res.doc = _ ∧ (r.accept lib).1.isNew = _
    rw [haccept]
    exact ⟨⟨h.type, h.body, h.parsed⟩, rfl, (Bool.and_false _).symm⟩
  | _ => exact ⟨⟨h.type, h.body, h.parsed⟩, rfl, (Bool.and_true _).symm⟩

theorem Rpc.calls (h : Rpc lib r) (calls : List Call) :
    Rpc lib (calls.foldl (perform lib) r) ∧
      (calls.foldl (perform lib) r).res.doc = calls.foldl fill r.res.doc ∧
        (calls.foldl (perform lib) r).isNew = (r.isNew && !calls.any isAccept) := by
  induction calls generalizing r with
  | nil => exact ⟨h, rfl, (Bool.and_true _).symm⟩
  | cons call calls ih =>
    obtain ⟨hrpc, hdoc, hnew⟩ := h.call call
    obtain ⟨hrpc', hdoc', hnew'⟩ := ih hrpc
    refine ⟨hrpc', by rw [List.foldl_cons, hdoc', hdoc, List.foldl_cons], ?_⟩
    rw [List.foldl_cons, hnew', hnew, List.any_cons, Bool.not_or, Bool.and_assoc]

/-- The first `accept` of a JSON-RPC request parses the body. -/
theorem accept_first (lib : HttpLibrary) (htype : r.type = .jsonRpc) (hparsed : r.parsed = 0) (hbody : r.body = .null) :
    (r.accept lib).1.body = document lib r.data ∧
      ((r.accept lib).1.hasParseError = true → document lib r.data = .null) ∧
        ¬ ((r.accept lib).1.parsed = 0 ∧ r.data.body ≠ "") ∧
          (r.accept lib).1.res = r.res := by
  unfold accept document
  dsimp only
  by_cases hempty : r.data.body = ""
  · rw [if_neg (fun h => h.2 hempty), if_pos hempty]
    exact ⟨hbody, fun _ => rfl, fun h => h.2 hempty, rfl⟩
  · rw [if_pos ⟨hparsed, hempty⟩, if_neg hempty]
    cases hparse : lib.parse r.data.body with
    | ok body => exact ⟨rfl, fun h => absurd h Bool.false_ne_true, by simp, rfl⟩
    | error text =>
      dsimp only
      rw [if_pos htype]
      exact ⟨hbody, fun _ => rfl, by simp, rfl⟩

theorem done_twice (halive : r.alive = true) (htype : r.type = .jsonRpc) {status : Int}
    (hstatus : status ≠ 200) : 2 ≤ (r.done lib status).ends.length := by
  unfold Request.done
  dsimp only
  rw [if_pos htype, if_pos hstatus]
  exact rpcDone_twice lib (r := { r with state := .done, res := r.res.setStatus 200 }) halive _ _

theorem done_type (r : Request) (status : Int) : (r.done lib status).type = r.type := by
  unfold Request.done
  dsimp only
  split
  · split
    · rfl
    · split <;> rfl
  · rfl

/-- A request without a method is answered twice at once; one with a method is open. -/
theorem parseRpc_cases (lib : HttpLibrary) (data : HttpData) (restricted : Bool) :
    let r := ({ data, restricted, alive := true } : Request).parseRpc lib
    r.type = .jsonRpc ∧ (methodOf lib data = "" → 2 ≤ r.ends.length) ∧
      (methodOf lib data ≠ "" → Open r ∧ Rpc lib r ∧ r.data = data ∧ r.res.doc = .object [] ∧
        r.isNew = true) := by
  obtain ⟨hbody, herror, hparsed, hres⟩ := accept_first lib
    (r := { data, restricted, alive := true, type := .jsonRpc }) rfl rfl rfl
  obtain ⟨htype, hdata, halive, hends, -⟩ := accept_frame lib
    { data, restricted, alive := true, type := .jsonRpc }
  unfold parseRpc
  dsimp only at hbody herror hparsed hres htype hdata halive hends ⊢
  generalize (Request.accept lib { data, restricted, alive := true, type := .jsonRpc }).1 = accepted
    at *
  have hmethod : methodOf lib data = Json.zeroTerminated ((accepted.body.getString "method").getD "") := by
    rw [hbody]
    rfl
  split
  case isTrue hfailed =>
    refine ⟨(done_type _ _).trans htype, fun _ => done_twice halive htype (by decide), fun hne => ?_⟩
    refine absurd ?_ hne
    rw [hmethod, hbody, herror hfailed]
    decide
  case isFalse =>
    split
    case isTrue hempty =>
      refine ⟨?_, fun _ => ?_, fun hne => absurd (hmethod.trans hempty) hne⟩
      · rw [done_type]
        exact htype
      · refine done_twice ?_ ?_ (by decide)
        · exact halive
        · exact htype
    case isFalse hsome =>
      refine ⟨htype, fun heq => absurd (hmethod.symm.trans heq) hsome, fun _ => ?_⟩
      refine ⟨⟨halive, rfl, hends⟩, ⟨htype, ?_, ?_⟩, hdata, ?_, rfl⟩
      · exact hbody.trans (congrArg _ hdata.symm)
      · dsimp only
        rw [hdata]
        exact hparsed
      · exact congrArg HttpApiResponse.doc hres

theorem ofData_rpc (lib : HttpLibrary) (h : IsJsonRpc data) :
    ofData lib data restricted true = ({ data, restricted, alive := true } : Request).parseRpc lib := by
  have hget : ¬ (data.method = HttpData.HTTP_GET ∧
      data.url ∈ ["/1/summary", "/2/summary", "/api.json"]) := by
    rw [h.1]
    exact fun heq => absurd heq.1 (by decide)
  unfold ofData
  dsimp only
  rw [if_neg hget]
  exact if_pos h

theorem ofData_plain (lib : HttpLibrary) (restricted : Bool) (h : ¬ IsJsonRpc data) :
    Open (ofData lib data restricted true) ∧ (ofData lib data restricted true).type ≠ .jsonRpc := by
  have h' : ¬ (data.method = HttpData.HTTP_POST ∧ data.url = "/json_rpc") := h
  unfold ofData
  dsimp only
  rw [if_neg h']
  split <;> split <;> exact ⟨⟨rfl, rfl, rfl⟩, fun heq => by cases heq⟩

end JsonRpc

def pauseLibrary : HttpLibrary where
  parse := fun text =>
    if text = "\x7b\"method\":\"pause\",\"id\":1\x7d" then
      .ok (.object [("method", .string "pause"), ("id", .int 1)])
    else .error "Invalid value."
  print := fun _ => ""
  statusName := fun _ => "OK"

def pauseRequest : HttpData where
  method := HttpData.HTTP_POST
  url := "/json_rpc"
  body := "\x7b\"method\":\"pause\",\"id\":1\x7d"

/-- The miner accepts the request to pause, and `exec` calls `done`. -/
theorem pause_answered_twice : ¬ ∀ (lib : HttpLibrary) (api : Api) (facts : Facts) (data : HttpData)
    (restricted : Bool), AnsweredOnce lib data (api.request lib data restricted true
      (scripts lib facts (.ofData lib data restricted true))).ends := by
  intro h
  obtain ⟨answer, hends, -⟩ := h pauseLibrary {} {} pauseRequest false
  have htwice : (({} : Api).request pauseLibrary pauseRequest false true
      (scripts pauseLibrary {} (.ofData pauseLibrary pauseRequest false true))).ends.length = 2 := by
    decide +kernel
  rw [hends] at htwice
  exact absurd htwice (by simp)

/-- A request is answered once exactly if it is no JSON-RPC request, or one with a method that
the listeners answer. -/
theorem answered_once_iff (lib : HttpLibrary) (api : Api) (data : HttpData) (restricted : Bool)
    (scripts : List Script) :
    AnsweredOnce lib data (api.request lib data restricted true scripts).ends ↔
      (IsJsonRpc data → methodOf lib data ≠ "" ∧ Answered (idOf lib data) scripts) := by
  unfold Api.request
  by_cases h : IsJsonRpc data
  case neg =>
    refine iff_of_true ?_ fun hrpc => absurd hrpc h
    obtain ⟨hopen, htype⟩ := ofData_plain lib restricted h
    obtain ⟨hprepared, htype'⟩ := prepared_plain hopen htype api
    rw [exec_eq hopen]
    obtain ⟨answer, hends⟩ := conclude_plain (hprepared.calls (untilFinal scripts).1)
      (fun heq => htype' ((calls_frame lib _ _).1.symm.trans heq)) _
    exact ⟨answer, hends, fun hrpc => absurd hrpc h⟩
  case pos =>
    rw [ofData_rpc lib h]
    obtain ⟨htype, hempty, hmethod⟩ := parseRpc_cases lib data restricted
    generalize ({ data, restricted, alive := true } : Request).parseRpc lib = r at *
    have hiff : AnsweredOnce lib data (api.exec lib r scripts).ends ↔
        Replied (idOf lib data) (api.exec lib r scripts).ends :=
      ⟨fun ⟨answer, hends, hreply⟩ => ⟨answer, hends, hreply h⟩,
        fun ⟨answer, hends, hreply⟩ => ⟨answer, hends, fun _ => hreply⟩⟩
    rw [hiff]
    by_cases hnone : methodOf lib data = ""
    · refine iff_of_false (not_replied ?_) fun hall => (hall h).1 hnone
      exact (hempty hnone).trans (exec_le lib api r htype scripts)
    · obtain ⟨hopen, hrpc, hdata, hdoc, hnew⟩ := hmethod hnone
      obtain ⟨hrpc', hdoc', hnew'⟩ := hrpc.calls (untilFinal scripts).1
      have hbody := hrpc'.body
      rw [(calls_frame lib _ _).2.1, hdata] at hbody
      have hconclude := conclude_replied lib (hopen.calls (untilFinal scripts).1) hrpc'.type
        (closing ((untilFinal scripts).1.any isAccept) (untilFinal scripts).2)
      rw [hbody, hdoc', hdoc] at hconclude
      rw [exec_eq hopen, if_neg (by rw [htype]; decide)]
      dsimp only
      rw [hnew', hnew, Bool.true_and, Bool.not_not]
      exact hconclude.trans ⟨fun hanswered _ => ⟨hnone, hanswered⟩, fun hall => (hall h).2⟩

end VeloxHash.ApiAnswers
