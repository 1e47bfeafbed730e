import VeloxHash.HttpApiRequest
import Mathlib.Data.List.TakeWhile
import Mathlib.Tactic

/-! `Httpd`: which requests reach the API, and what they can make the miner do. -/

namespace VeloxHash.Httpd

open HttpApiRequest

/-- What `Http` says about access. The token was read as a string that ends at its first zero. -/
structure Http where
  restricted : Bool := true
  token : Option String := none
  zeroFree : ∀ t ∈ token, '\x00' ∉ t.toList := by simp

def Http.isAuthRequired (http : Http) : Bool := !http.restricted || http.token.isSome

def Http.load (old : Http) (http : Json) : Http :=
  if !http.isObject then old
  else
    { restricted :=
        match http.getValue "restricted" with
        | .bool b => b
        | _ => true
      token := (http.getString "access-token").map Json.zeroTerminated
      zeroFree := by
        intro t ht hzero
        obtain ⟨s, -, rfl⟩ := Option.map_eq_some_iff.mp ht
        rw [Json.zeroTerminated, String.toList_ofList] at hzero
        simpa using List.mem_takeWhile_imp hzero }

/-- Whether `strncmp` of two strings that end with a zero gives zero. -/
def strncmp : List Char → List Char → ℕ → Bool
  | _, _, 0 => true
  | s, t, n + 1 =>
    if s.headD '\x00' ≠ t.headD '\x00' then false
    else if s.headD '\x00' = '\x00' then true
    else strncmp s.tail t.tail n

def kAuthorization : String := "authorization"

def auth (http : Http) (req : HttpData) : Int :=
  match req.headers.find kAuthorization with
  | none => if http.isAuthRequired then 401 else 200
  | some header =>
    match http.token with
    | none => 401
    | some token =>
      let size := header.length
      if size < 8 ∨ token.length ≠ size - 7 ∨ header.toList.take 7 ≠ "Bearer ".toList then 403
      else if strncmp token.toList (header.toList.drop 7) token.length then 200
      else 403

/-- Where a request ends up. -/
inductive Route
  | options
  | favicon
  | dashboard
  | refused (status : Int)
  | api
  deriving DecidableEq

def isDashboardRoute (data : HttpData) : Bool :=
  data.method == HttpData.HTTP_GET &&
    (data.url == "/" || data.url == "/index.html" || data.url == "/dashboard")

def onHttpData (http : Http) (data : HttpData) : Route :=
  if data.method = HttpData.HTTP_OPTIONS then .options
  else if data.method = HttpData.HTTP_GET ∧ data.url = "/favicon.ico" then .favicon
  else if isDashboardRoute data then .dashboard
  else if 4 < data.method then .refused 405
  else if auth http data ≠ 200 then .refused (auth http data)
  else if data.method ≠ HttpData.HTTP_GET ∧ http.restricted then .refused 403
  else if data.method ≠ HttpData.HTTP_GET ∧
      data.headers.find HttpData.kContentTypeL ≠ some HttpData.kApplicationJson then .refused 415
  else .api

variable (lib : HttpLibrary) (facts : Facts)

/-- What the listeners do for a request, before they or `exec` answer it. -/
def actions (api : Api) (http : Http) (alive : Bool) (data : HttpData) : List Action :=
  match onHttpData http data with
  | .api =>
    (api.request lib data http.restricted alive
      (scripts lib facts (.ofData lib data http.restricted alive))).actions
  | _ => []

section Auth

variable {http : Http} {data : HttpData}

theorem strncmp_iff {s t : List Char} (hzero : '\x00' ∉ s) (hlength : s.length = t.length) :
    strncmp s t s.length = true ↔ s = t := by
  induction s generalizing t with
  | nil => simp [strncmp, List.length_eq_zero_iff.mp hlength.symm]
  | cons a s ih =>
    cases t with
    | nil => cases hlength
    | cons b t =>
      obtain ⟨ha, hs⟩ := not_or.mp (List.mem_cons.not.mp hzero)
      rw [List.length_cons, strncmp, List.headD_cons, List.headD_cons, List.tail_cons,
        List.tail_cons, if_neg (Ne.symm ha)]
      by_cases hab : a = b
      · rw [if_neg (not_not.mpr hab), ih hs (Nat.succ_injective hlength), hab, List.cons_inj_right]
      · rw [if_pos hab]
        simp [hab]

/-- The header that goes with a token. -/
def bearer (token : String) : String := "Bearer " ++ token

/-- A request may reach the API without a header when the configuration is restricted and has no
token, and else with the token in the header. -/
def Granted (http : Http) (data : HttpData) : Prop :=
  data.headers.find kAuthorization = none ∧ http.restricted = true ∧ http.token = none ∨
    ∃ token, http.token = some token ∧ token ≠ "" ∧
      data.headers.find kAuthorization = some (bearer token)

/-- The three tests of `auth` let only the one header pass. -/
theorem bearer_iff (header : String) {token : String} (hzero : '\x00' ∉ token.toList) :
    (¬ (header.length < 8 ∨ token.length ≠ header.length - 7 ∨
        header.toList.take 7 ≠ "Bearer ".toList) ∧
      strncmp token.toList (header.toList.drop 7) token.length = true) ↔
      token ≠ "" ∧ header = bearer token := by
  constructor
  · rintro ⟨htests, hsame⟩
    simp only [not_or, not_lt, not_not] at htests
    obtain ⟨hsize, htoken, hword⟩ := htests
    have hlength : token.toList.length = (header.toList.drop 7).length := by
      rw [List.length_drop, String.length_toList, String.length_toList, htoken]
    rw [← String.length_toList, strncmp_iff hzero hlength] at hsame
    refine ⟨fun hempty => ?_, String.toList_inj.mp ?_⟩
    · rw [hempty] at htoken
      have hnone : 0 = header.length - 7 := htoken
      omega
    · rw [bearer, String.toList_append, hsame, ← hword, List.take_append_drop]
  · rintro ⟨hne, rfl⟩
    have hword : "Bearer ".toList.length = 7 := rfl
    have hlist : (bearer token).toList = "Bearer ".toList ++ token.toList := String.toList_append
    have hsize : (bearer token).length = 7 + token.length := by
      rw [← String.length_toList, hlist, List.length_append, hword, String.length_toList]
    have hpos : 0 < token.length := by
      refine Nat.pos_of_ne_zero fun hzero => hne (String.toList_inj.mp ?_)
      rw [← String.length_toList] at hzero
      exact List.length_eq_zero_iff.mp hzero
    have htake : (bearer token).toList.take 7 = "Bearer ".toList := by
      rw [hlist]
      exact List.take_left' hword
    have hdrop : (bearer token).toList.drop 7 = token.toList := by
      rw [hlist]
      exact List.drop_left' hword
    rw [hdrop, htake, hsize, ← String.length_toList (s := token)]
    refine ⟨?_, (strncmp_iff hzero rfl).mpr rfl⟩
    rw [String.length_toList]
    simp only [not_or, not_lt, not_not]
    exact ⟨by omega, by omega, trivial⟩

theorem auth_iff : auth http data = 200 ↔ Granted http data := by
  unfold auth Granted
  cases hheader : data.headers.find kAuthorization with
  | none =>
    dsimp only [Http.isAuthRequired]
    obtain ⟨restricted, token, -⟩ := http
    cases restricted <;> cases token <;> simp
  | some header =>
    dsimp only
    cases htoken : http.token with
    | none => simp
    | some token =>
      have hiff := bearer_iff header (http.zeroFree token htoken)
      dsimp only
      constructor
      · intro h
        refine .inr ⟨token, rfl, ?_⟩
        split at h
        · cases h
        next htests =>
          split at h
          next hsame =>
            obtain ⟨hne, hbearer⟩ := hiff.mp ⟨htests, hsame⟩
            exact ⟨hne, congrArg some hbearer⟩
          · cases h
      · rintro (⟨hnone, -⟩ | ⟨token', hsome, hne, hbearer⟩)
        · cases hnone
        · obtain rfl := Option.some.inj hsome
          obtain ⟨htests, hsame⟩ := hiff.mpr ⟨hne, Option.some.inj hbearer⟩
          rw [if_neg htests, if_pos hsame]

end Auth

section Actions

variable {r : Request} {a : Action}

theorem accept_actions (lib : HttpLibrary) (r : Request) :
    (r.accept lib).1.actions = r.actions ∧ (r.accept lib).1.data = r.data ∧
      (r.accept lib).1.restricted = r.restricted := by
  unfold Request.accept
  dsimp only
  split
  · split
    · exact ⟨rfl, rfl, rfl⟩
    · split <;> exact ⟨rfl, rfl, rfl⟩
  · exact ⟨rfl, rfl, rfl⟩

theorem done_actions (lib : HttpLibrary) (r : Request) (status : Int) :
    (r.done lib status).actions = r.actions ∧ (r.done lib status).data = r.data ∧
      (r.done lib status).restricted = r.restricted := by
  unfold Request.done
  dsimp only
  split
  · split
    · exact ⟨rfl, rfl, rfl⟩
    · split <;> exact ⟨rfl, rfl, rfl⟩
  · exact ⟨rfl, rfl, rfl⟩

theorem ofData_frame (lib : HttpLibrary) (data : HttpData) (restricted alive : Bool) :
    (Request.ofData lib data restricted alive).actions = [] ∧
      (Request.ofData lib data restricted alive).data = data ∧
        (Request.ofData lib data restricted alive).restricted = restricted := by
  have hrpc (r : Request) : (r.parseRpc lib).actions = r.actions ∧ (r.parseRpc lib).data = r.data ∧
      (r.parseRpc lib).restricted = r.restricted := by
    obtain ⟨hactions, hdata, hrestricted⟩ := accept_actions lib { r with type := .jsonRpc }
    have hdone (r' : Request) (status : Int) (ha : r'.actions = r.actions) (hd : r'.data = r.data)
        (hr : r'.restricted = r.restricted) : (r'.done lib status).actions = r.actions ∧
          (r'.done lib status).data = r.data ∧ (r'.done lib status).restricted = r.restricted := by
      obtain ⟨hactions', hdata', hrestricted'⟩ := done_actions lib r' status
      exact ⟨hactions'.trans ha, hdata'.trans hd, hrestricted'.trans hr⟩
    unfold Request.parseRpc
    dsimp only
    split
    · exact hdone _ _ hactions hdata hrestricted
    · split
      · exact hdone _ _ hactions hdata hrestricted
      · exact ⟨hactions, hdata, hrestricted⟩
  unfold Request.ofData
  dsimp only
  repeat' split
  all_goals first | exact ⟨rfl, rfl, rfl⟩ | exact hrpc _

/-- What is done is what listeners do. -/
theorem calls_actions (calls : List Call) (h : a ∈ (calls.foldl (Request.perform lib) r).actions) :
    a ∈ r.actions ∨ .act a ∈ calls := by
  induction calls generalizing r with
  | nil => exact .inl h
  | cons call calls ih =>
    rcases ih h with hnow | hlater
    · cases call with
      | accept => exact .inl ((accept_actions lib r).1 ▸ hnow)
      | act action =>
        refine (List.mem_append.mp hnow).imp_right fun hself => ?_
        rw [List.mem_singleton.mp hself]
        exact List.mem_cons_self
      | _ => exact .inl hnow
    · exact .inr (List.mem_cons_of_mem _ hlater)

theorem onRequest_actions (script : Script) (h : a ∈ (r.onRequest lib script).actions) :
    a ∈ r.actions ∨ .act a ∈ script.calls := by
  unfold Request.onRequest at h
  refine calls_actions lib script.calls ?_
  cases hfinal : script.final with
  | none =>
    rw [hfinal] at h
    exact h
  | some final =>
    rw [hfinal] at h
    cases final with
    | done status => exact (done_actions lib _ status).1 ▸ h
    | _ => exact h

theorem offer_actions (scripts : List Script) (h : a ∈ (r.offer lib scripts).1.actions) :
    a ∈ r.actions ∨ ∃ script ∈ scripts, .act a ∈ script.calls := by
  induction scripts generalizing r with
  | nil => exact .inl h
  | cons script rest ih =>
    have hfirst (hnow : a ∈ (r.onRequest lib script).actions) :
        a ∈ r.actions ∨ ∃ s ∈ script :: rest, .act a ∈ s.calls :=
      (onRequest_actions lib script hnow).imp_right fun hact => ⟨script, List.mem_cons_self, hact⟩
    rw [Request.offer] at h
    split at h
    · exact hfirst h
    · rcases ih h with hnow | ⟨s, hs, hact⟩
      · exact hfirst hnow
      · exact .inr ⟨s, List.mem_cons_of_mem _ hs, hact⟩

theorem exec_actions (api : Api) (scripts : List Script)
    (h : a ∈ (api.exec lib r scripts).actions) :
    a ∈ r.actions ∨ ∃ script ∈ scripts, .act a ∈ script.calls := by
  have hprepared (hnow : a ∈ (if r.type = .summary then api.summary lib r else r).actions) :
      a ∈ r.actions := by
    split at hnow
    · rw [Api.summary_eq] at hnow
      exact (calls_actions lib _ hnow).resolve_right (by simp [Api.summaryCalls])
    · exact hnow
  unfold Api.exec at h
  dsimp only at h
  generalize (if r.type = .summary then api.summary lib r else r) = r' at h hprepared
  refine (offer_actions lib scripts ?_).imp_left hprepared
  split at h
  · exact h
  · exact (done_actions lib _ _).1 ▸ h

/-- A listener shows the configuration when nothing is restricted, and changes something for a
method other than GET. -/
theorem scripts_act {script : Script} (hscript : script ∈ scripts lib facts r)
    (h : .act a ∈ script.calls) :
    a = .getConfig ∧ r.restricted = false ∨ r.data.method ≠ HttpData.HTTP_GET := by
  have hmembers (members : List (String × Json)) : .act a ∉ addMembers members := by
    simp [addMembers]
  simp only [scripts, List.mem_cons, List.not_mem_nil, or_false] at hscript
  rcases hscript with rfl | rfl | rfl | rfl
  · unfold Base.onRequest at h
    split at h
    · split at h
      · split at h
        · cases h
        next hrestricted =>
          refine .inl ⟨?_, Bool.eq_false_iff.mpr hrestricted⟩
          simpa using h
      · cases h
    next hmethod => exact .inr hmethod
  · unfold Network.onRequest at h
    split at h
    · exact absurd h (by simpa using hmembers _)
    · cases h
  · unfold HwApi.onRequest at h
    split at h
    · split at h
      · exact absurd h (by simpa using hmembers _)
      · cases h
    · cases h
  · refine .inr fun hget => ?_
    unfold Miner.onRequest Miner.handleRequest at h
    rw [if_pos hget] at h
    have hpages : .act a ∉ (if r.type = .summary then
        [Call.addMember "hugepages" (facts.hugePages r.version)] else []) := by
      split <;> simp
    refine absurd h (List.mem_append.not.mpr (not_or.mpr ⟨?_, hpages⟩))
    split
    · simpa using hmembers _
    · split <;> simp

end Actions

section Access

variable {http : Http} {data : HttpData}

/-- What lets a request reach the API. -/
theorem onHttpData_api (h : onHttpData http data = .api) :
    Granted http data ∧ (data.method ≠ HttpData.HTTP_GET → http.restricted = false ∧
      data.headers.find HttpData.kContentTypeL = some HttpData.kApplicationJson) := by
  unfold onHttpData at h
  split_ifs at h with hoptions hicon hroute hmethod hauth hrestricted htype
  refine ⟨auth_iff.mp (not_not.mp hauth), fun hget => ⟨?_, ?_⟩⟩
  · exact Bool.eq_false_iff.mpr fun htrue => hrestricted ⟨hget, htrue⟩
  · exact not_not.mp fun hne => htype ⟨hget, hne⟩

/-- No request reaches the API without its token, unless the configuration is restricted and has
none; none is shown the configuration or changes something where that is restricted. -/
theorem access_controlled (lib : HttpLibrary) (facts : Facts) (api : Api) (http : Http)
    (alive : Bool) (data : HttpData) :
    (onHttpData http data = .api → Granted http data) ∧
      ∀ a ∈ actions lib facts api http alive data,
        http.restricted = false ∧
        (∃ token, http.token = some token ∧ token ≠ "" ∧
          data.headers.find kAuthorization = some (bearer token)) ∧
        (a ≠ .getConfig → data.method ≠ HttpData.HTTP_GET ∧
          data.headers.find HttpData.kContentTypeL = some HttpData.kApplicationJson) := by
  refine ⟨fun h => (onHttpData_api h).1, fun a ha => ?_⟩
  unfold actions at ha
  split at ha
  case h_2 => cases ha
  case h_1 hroute =>
    obtain ⟨hgranted, hchange⟩ := onHttpData_api hroute
    obtain ⟨hnone, hdata, hsame⟩ := ofData_frame lib data http.restricted alive
    unfold Api.request at ha
    have hact := (exec_actions lib api _ ha).resolve_left fun hold => by
      rw [hnone] at hold
      cases hold
    obtain ⟨script, hscript, hcall⟩ := hact
    have hcases := scripts_act lib facts hscript hcall
    rw [hdata, hsame] at hcases
    have hopen : http.restricted = false := by
      rcases hcases with ⟨-, hopen⟩ | hmethod
      · exact hopen
      · exact (hchange hmethod).1
    refine ⟨hopen, ?_, fun hne => ?_⟩
    · refine hgranted.resolve_left fun ⟨_, hrestricted, _⟩ => ?_
      rw [hopen] at hrestricted
      exact Bool.false_ne_true hrestricted
    · have hmethod := hcases.resolve_left fun h => hne h.1
      exact ⟨hmethod, (hchange hmethod).2⟩

def tokenOnly : Http where
  restricted := false
  token := some "secret"
  zeroFree := by decide

def pauseData : HttpData where
  method := HttpData.HTTP_POST
  url := "/json_rpc"
  headers := [("authorization", "Bearer secret"), ("content-type", "application/json")]
  body := "pause"

/-- A parser for one request. -/
def onePause : HttpLibrary where
  parse := fun _ => .ok (.object [("method", .string "pause")])
  print := fun _ => ""
  statusName := fun _ => "OK"

theorem access_controlled_pause :
    Granted tokenOnly pauseData ∧
      ∃ a ∈ actions onePause {} {} tokenOnly true pauseData, a ≠ .getConfig ∧
        tokenOnly.restricted = false ∧ pauseData.method ≠ HttpData.HTTP_GET := by
  obtain ⟨hgranted, hactions⟩ := access_controlled onePause {} {} tokenOnly true pauseData
  have hpause : Action.setEnabled false ∈ actions onePause {} {} tokenOnly true pauseData :=
    List.mem_singleton.mpr rfl
  have hne : Action.setEnabled false ≠ .getConfig := fun heq => by cases heq
  obtain ⟨hopen, -, hchange⟩ := hactions _ hpause
  exact ⟨hgranted (by decide), _, hpause, hne, hopen, (hchange hne).1⟩

end Access

end VeloxHash.Httpd
