import DecisionMaker.Library.JsonRender
import DecisionMaker.Server.Auth
import DecisionMaker.Value

/-!
# The correlation id of a response

The middleware of the application runs inside the `ServerErrorMiddleware` of Starlette, which makes a
response of its own where an exception comes through, and outside the `ExceptionMiddleware`, which runs
the registered handlers. The header is set on the way out, on a response that comes back.
-/

namespace DecisionMaker.Server

open Library

/-- Names are stored in lower case. -/
abbrev Headers := List (String × String)

def CORRELATION_HEADER : String := "x-correlation-id"

/-- `headers[name] = value`: the first entry of that name is replaced and the others go. -/
def Headers.set : Headers → String → String → Headers
  | [], name, value => [(name, value)]
  | entry :: entries, name, value =>
      if entry.1 = name then (name, value) :: entries.filter fun other => other.1 ≠ name
      else entry :: set entries name value

def Headers.named (headers : Headers) (name : String) : Headers :=
  headers.filter fun entry => entry.1 = name

theorem Headers.named_set (headers : Headers) (name value : String) :
    (headers.set name value).named name = [(name, value)] := by
  induction headers with
  | nil => simp [set, named]
  | cons entry entries ih =>
      by_cases same : entry.1 = name
      · simp [set, named, same]
      · rw [named] at ih
        simp [set, named, same, ih]

inductive Content
  | empty
  | text (body : String)
  | json (value : Json)

structure Response where
  statusCode : Nat
  headers : Headers
  content : Content

def Response.Carries (response : Response) (correlationId : String) : Prop :=
  response.headers.named CORRELATION_HEADER = [(CORRELATION_HEADER, correlationId)]

instance (response : Response) (correlationId : String) : Decidable (response.Carries correlationId) :=
  inferInstanceAs (Decidable (_ = _))

def jsonText (s : String) : Json := .str (Str.ofString s)

def jsonObject (entries : List (String × Json)) : Json :=
  .object (entries.map fun entry => (Str.ofString entry.1, entry.2))

theorem renders_jsonText (nesting : Nat) (s : String) : Json.Renders nesting (jsonText s) :=
  .str nesting (Str.ofString_wellFormed s)

theorem renders_jsonObject {nesting : Nat} {entries : List (String × Json)}
    (all : ∀ entry ∈ entries, Json.Renders nesting entry.2) :
    Json.Renders (nesting + 1) (jsonObject entries) := by
  constructor
  · intro member inside
    obtain ⟨entry, -, rfl⟩ := List.mem_map.mp inside
    exact Str.ofString_wellFormed entry.1
  · intro member inside
    obtain ⟨entry, listed, rfl⟩ := List.mem_map.mp inside
    exact all entry listed

/-- What the stack leaves to a handler that renders its answer: two containers at least. -/
structure Rendering where
  nesting : Nat
  shallow : 2 ≤ nesting

theorem Rendering.renders (r : Rendering) {value : Json} (shallow : Json.Renders 2 value) :
    Json.Renders r.nesting value :=
  shallow.mono r.shallow

inductive HandlerException
  | httpException (statusCode : Nat) (detail : Json) (headers : Headers)
  -- with what `jsonable_encoder` makes of the errors, or raises
  | requestValidationError (errors : Except PyException (List Json))
  | authError (reason : AuthReason)
  | llmTimeoutError
  | configError
  -- what a node of the graph raises, `JsonParseError` among it
  | nodeError (e : NodeError)
  | other (name : String)

def exceptionName : PyException → String
  | .keyError => "KeyError"
  | .typeError => "TypeError"
  | .attributeError => "AttributeError"
  | .overflowError => "OverflowError"
  | .recursionError => "RecursionError"
  | .valueError => "ValueError"
  | .jsonDecodeError => "JSONDecodeError"
  | .unicodeEncodeError => "UnicodeEncodeError"
  | .unicodeDecodeError => "UnicodeDecodeError"

def AuthReason.text : AuthReason → String
  | .malformed => "malformed"
  | .badVersion => "bad_version"
  | .badSignature => "bad_signature"
  | .expired => "expired"
  | .wrongService => "wrong_service"
  | .missingSession => "missing_session"

def errorDetail (error correlationId : String) : Json :=
  jsonObject [("error", jsonText error), ("correlation_id", jsonText correlationId)]

/-- `JSONResponse`: the content type stands behind the headers that are given. -/
def jsonResponse (r : Rendering) (statusCode : Nat) (content : Json) (headers : Headers) :
    Except HandlerException Response :=
  match Json.render r.nesting content with
  | .error e => .error (.other (exceptionName e))
  | .ok () => .ok ⟨statusCode, headers ++ [("content-type", "application/json")], .json content⟩

def toHttpException (exc : HandlerException) (correlationId : String) :
    Except HandlerException (Nat × Json) :=
  match exc with
  | .authError reason =>
      .ok (if reason = .wrongService then 403 else 401, errorDetail reason.text correlationId)
  | .llmTimeoutError => .ok (408, errorDetail "llm_timeout" correlationId)
  | .configError => .ok (500, errorDetail "config_error" correlationId)
  | exc => .error exc

def domainErrorHandler (r : Rendering) (stateId : Option String) (exc : HandlerException) :
    Except HandlerException Response := do
  let cid := stateId.getD "unknown"
  let (statusCode, detail) ← toHttpException exc cid
  jsonResponse r statusCode detail [(CORRELATION_HEADER, cid)]

def isBodyAllowed (statusCode : Nat) : Bool := 200 ≤ statusCode && !([204, 205, 304].contains statusCode)

/-- FastAPI's own handlers for an `HTTPException` and for an invalid request, and those of `create_app`. -/
def exceptionHandler (r : Rendering) (stateId : Option String) :
    HandlerException → Option (Except HandlerException Response)
  | .httpException statusCode detail headers =>
      some <|
        if isBodyAllowed statusCode then jsonResponse r statusCode (jsonObject [("detail", detail)]) headers
        else .ok ⟨statusCode, headers, .empty⟩
  | .requestValidationError errors =>
      some <| match errors with
        | .error e => .error (.other (exceptionName e))
        | .ok errors => jsonResponse r 422 (jsonObject [("detail", .array errors)]) []
  | .authError reason => some (domainErrorHandler r stateId (.authError reason))
  | .llmTimeoutError => some (domainErrorHandler r stateId .llmTimeoutError)
  | .configError => some (domainErrorHandler r stateId .configError)
  | .nodeError _ | .other _ => none

/-- What a handler raises goes on like what no handler is registered for. -/
def exceptionMiddleware (r : Rendering) (stateId : Option String)
    (outcome : Except HandlerException Response) : Except HandlerException Response :=
  match outcome with
  | .ok response => .ok response
  | .error exc => (exceptionHandler r stateId exc).getD (.error exc)

def serverErrorMiddleware (outcome : Except HandlerException Response) : Response :=
  match outcome with
  | .ok response => response
  | .error _ => ⟨500, [("content-type", "text/plain; charset=utf-8")], .text "Internal Server Error"⟩

def isIdChar (c : Char) : Bool :=
  'a' ≤ c ∧ c ≤ 'z' || 'A' ≤ c ∧ c ≤ 'Z' || '0' ≤ c ∧ c ≤ '9' || c = '_' || c = '-'

def correlationIdMatch (raw : String) : Bool :=
  let body := raw.toList.takeWhile isIdChar
  let rest := raw.toList.dropWhile isIdChar
  decide (8 ≤ body.length ∧ body.length ≤ 64 ∧ (rest = [] ∨ rest = ['\n']))

def correlationId (uuid4Hex : String) (rawCid : Option String) : String :=
  match rawCid with
  | none => uuid4Hex
  | some raw => if correlationIdMatch raw then raw else uuid4Hex

def dispatch (uuid4Hex : String) (rawCid : Option String)
    (callNext : Option String → Except HandlerException Response) : Except HandlerException Response := do
  let cid := correlationId uuid4Hex rawCid
  let response ← callNext (some cid)
  return { response with headers := response.headers.set CORRELATION_HEADER cid }

def createApp (r : Rendering) (endpoint : Option String → Except HandlerException Response)
    (uuid4Hex : String) (rawCid : Option String) : Response :=
  serverErrorMiddleware <| dispatch uuid4Hex rawCid fun stateId =>
    exceptionMiddleware r stateId (endpoint stateId)

/-- A handler is registered for the exception, and its answer has a text. -/
def HandlerException.Answered (r : Rendering) : HandlerException → Prop
  | .httpException statusCode detail _ =>
      isBodyAllowed statusCode = true → Json.Renders r.nesting (jsonObject [("detail", detail)])
  | .requestValidationError errors => ∃ encoded, errors = .ok encoded ∧
      Json.Renders r.nesting (jsonObject [("detail", .array encoded)])
  | .authError _ | .llmTimeoutError | .configError => True
  | .nodeError _ | .other _ => False

def HandlerException.statusCode : HandlerException → Nat
  | .httpException statusCode _ _ => statusCode
  | .requestValidationError _ => 422
  | .authError reason => if reason = .wrongService then 403 else 401
  | .llmTimeoutError => 408
  | .configError | .nodeError _ | .other _ => 500

section
variable {r : Rendering} {stateId : Option String}

theorem jsonResponse_of_renders {content : Json} (renders : Json.Renders r.nesting content) (statusCode : Nat)
    (headers : Headers) : jsonResponse r statusCode content headers =
      .ok ⟨statusCode, headers ++ [("content-type", "application/json")], .json content⟩ := by
  rw [jsonResponse, renders.render]

theorem jsonResponse_eq_ok {statusCode : Nat} {content : Json} {headers : Headers} {response : Response}
    (answered : jsonResponse r statusCode content headers = .ok response) :
    response.statusCode = statusCode ∧ Json.Renders r.nesting content := by
  unfold jsonResponse at answered
  split at answered
  · cases answered
  · rename_i rendered
    cases answered
    exact ⟨rfl, Json.render_ok_iff.mp rendered⟩

theorem renders_errorDetail (error correlationId : String) :
    Json.Renders r.nesting (errorDetail error correlationId) := by
  refine r.renders (renders_jsonObject fun entry listed => ?_)
  simp only [List.mem_cons, List.not_mem_nil, or_false] at listed
  rcases listed with rfl | rfl <;> exact renders_jsonText 1 _

theorem domainErrorHandler_answers {exc : HandlerException} {statusCode : Nat} {error : String}
    (translated : toHttpException exc (stateId.getD "unknown") =
      .ok (statusCode, errorDetail error (stateId.getD "unknown"))) :
    ∃ response, domainErrorHandler r stateId exc = .ok response ∧ response.statusCode = statusCode := by
  let cid := stateId.getD "unknown"
  have response := jsonResponse_of_renders (@renders_errorDetail r error cid) statusCode [(CORRELATION_HEADER, cid)]
  have handled : domainErrorHandler r stateId exc =
      jsonResponse r statusCode (errorDetail error cid) [(CORRELATION_HEADER, cid)] := by
    simp only [domainErrorHandler, translated, bind, Except.bind, cid]
  exact ⟨_, handled.trans response, rfl⟩

theorem HandlerException.Answered.handled {exc : HandlerException} (answered : exc.Answered r)
    (stateId : Option String) : ∃ response, exceptionMiddleware r stateId (.error exc) = .ok response ∧
      response.statusCode = exc.statusCode := by
  cases exc with
  | httpException statusCode detail headers =>
      by_cases allowed : isBodyAllowed statusCode = true
      · have response := jsonResponse_of_renders (answered allowed) statusCode headers
        exact ⟨_, by rw [exceptionMiddleware, exceptionHandler, if_pos allowed, response]; rfl, rfl⟩
      · exact ⟨_, by rw [exceptionMiddleware, exceptionHandler, if_neg allowed]; rfl, rfl⟩
  | requestValidationError errors =>
      obtain ⟨encoded, rfl, renders⟩ := answered
      have response := jsonResponse_of_renders renders 422 []
      exact ⟨_, by rw [exceptionMiddleware, exceptionHandler, response]; rfl, rfl⟩
  | authError reason => exact domainErrorHandler_answers rfl
  | llmTimeoutError => exact domainErrorHandler_answers rfl
  | configError => exact domainErrorHandler_answers rfl
  | nodeError e => cases answered
  | other name => cases answered

theorem HandlerException.answered_of_handled {exc : HandlerException} {response : Response}
    (handled : exceptionMiddleware r stateId (.error exc) = .ok response) : exc.Answered r := by
  cases exc with
  | httpException statusCode detail headers =>
      intro allowed
      simp only [exceptionMiddleware, exceptionHandler, if_pos allowed, Option.getD_some] at handled
      exact (jsonResponse_eq_ok handled).2
  | requestValidationError errors =>
      cases errors with
      | error e => cases handled
      | ok encoded => exact ⟨encoded, rfl, (jsonResponse_eq_ok handled).2⟩
  | authError reason => trivial
  | llmTimeoutError => trivial
  | configError => trivial
  | nodeError e => cases handled
  | other name => cases handled

theorem exceptionMiddleware_ok_iff {outcome : Except HandlerException Response} :
    (∃ response, exceptionMiddleware r stateId outcome = .ok response) ↔
      ∀ exc, outcome = .error exc → exc.Answered r := by
  cases outcome with
  | ok response => simp [exceptionMiddleware]
  | error exc =>
      constructor
      · rintro ⟨response, handled⟩ _ ⟨⟩
        exact HandlerException.answered_of_handled handled
      · intro answered
        obtain ⟨response, handled, -⟩ := (answered exc rfl).handled stateId
        exact ⟨response, handled⟩

end

theorem carries_iff_handled {r : Rendering} {endpoint : Option String → Except HandlerException Response}
    {uuid4Hex : String} {rawCid : Option String} :
    (createApp r endpoint uuid4Hex rawCid).Carries (correlationId uuid4Hex rawCid) ↔
      ∃ response, exceptionMiddleware r (some (correlationId uuid4Hex rawCid))
        (endpoint (some (correlationId uuid4Hex rawCid))) = .ok response := by
  unfold createApp dispatch
  cases outcome : exceptionMiddleware r (some (correlationId uuid4Hex rawCid))
      (endpoint (some (correlationId uuid4Hex rawCid))) with
  | error exc => simp [outcome, bind, Except.bind, serverErrorMiddleware, Response.Carries,
      Headers.named, CORRELATION_HEADER]
  | ok response =>
      have set := response.headers.named_set CORRELATION_HEADER (correlationId uuid4Hex rawCid)
      simpa [outcome, bind, Except.bind, pure, Except.pure, serverErrorMiddleware,
        Response.Carries] using set

/-- Whatever the endpoint comes to, the client receives the correlation id of the request exactly
where the endpoint returns a response or raises what a handler can answer. -/
theorem createApp_carries_iff (r : Rendering) (endpoint : Option String → Except HandlerException Response)
    (uuid4Hex : String) (rawCid : Option String) :
    (createApp r endpoint uuid4Hex rawCid).Carries (correlationId uuid4Hex rawCid) ↔
      ∀ exc, endpoint (some (correlationId uuid4Hex rawCid)) = .error exc → exc.Answered r :=
  carries_iff_handled.trans exceptionMiddleware_ok_iff

section
variable {r : Rendering} {endpoint : Option String → Except HandlerException Response} {uuid4Hex : String}
  {rawCid : Option String}

theorem createApp_returned {response : Response}
    (served : endpoint (some (correlationId uuid4Hex rawCid)) = .ok response) :
    createApp r endpoint uuid4Hex rawCid =
      { response with headers := response.headers.set CORRELATION_HEADER (correlationId uuid4Hex rawCid) } := by
  rw [createApp, dispatch, served]
  rfl

theorem createApp_error {exc : HandlerException}
    (raised : endpoint (some (correlationId uuid4Hex rawCid)) = .error exc) :
    (exc.Answered r → (createApp r endpoint uuid4Hex rawCid).statusCode = exc.statusCode) ∧
      (¬exc.Answered r → (createApp r endpoint uuid4Hex rawCid).statusCode = 500) := by
  simp only [createApp, dispatch, raised]
  constructor
  · intro answered
    obtain ⟨response, handled, status⟩ := answered.handled (some (correlationId uuid4Hex rawCid))
    rw [handled]
    exact status
  · intro unanswered
    cases handled : exceptionMiddleware r (some (correlationId uuid4Hex rawCid)) (.error exc) with
    | ok response => exact absurd (HandlerException.answered_of_handled handled) unanswered
    | error other => rfl

end

def nanMessage : Json :=
  jsonObject [("type", jsonText "string_type"), ("loc", .array [jsonText "body", jsonText "message"]),
    ("msg", jsonText "Input should be a valid string"), ("input", .float Binary64.nan)]

def sampleRendering : Rendering := ⟨900, Nat.le_add_left 2 898⟩

def tracedAnswer (exc : HandlerException) : Response :=
  createApp sampleRendering (fun _ => .error exc) "0f8fad5bd9cb469fa16570867728950e" (some "trace-0001")

theorem parse_error_without_header :
    ((tracedAnswer (.nodeError .jsonParseError)).statusCode = 500 ∧
      ¬(tracedAnswer (.nodeError .jsonParseError)).Carries
        (correlationId "0f8fad5bd9cb469fa16570867728950e" (some "trace-0001"))) ∧
    (tracedAnswer (.requestValidationError (.ok [nanMessage]))).statusCode = 500 ∧
      ¬(tracedAnswer (.requestValidationError (.ok [nanMessage]))).Carries
        (correlationId "0f8fad5bd9cb469fa16570867728950e" (some "trace-0001")) := by
  refine ⟨⟨rfl, fun carried => ?_⟩, rfl, fun carried => ?_⟩
  · have absent : ([] : Headers) = [(CORRELATION_HEADER, _)] := carried
    cases absent
  · have absent : ([] : Headers) = [(CORRELATION_HEADER, _)] := carried
    cases absent

end DecisionMaker.Server
