import DecisionMaker.Graph.Capped
import DecisionMaker.Graph.Provenance
import DecisionMaker.Server.Chunks
import DecisionMaker.Server.CorrelationId

/-!
# A turn from the request to the response

The layers of the server put together: the middleware, the dependency that verifies the bearer, the
handlers, the cache and the graph. Requests are served one at a time here.
-/

namespace DecisionMaker.Server

open Library DecisionMaker.Graph

/-- What a process is started with, and what it gets from its libraries. -/
structure App where
  py : Runtime
  rendering : Rendering
  secret : List Byte
  sha256Hex : String → String
  -- the text of an `AuthError`
  message : Option Str → AuthReason → String
  sweepThresholdSecs : Int
  -- the channels of LangGraph's own
  internal : Checkpoint → Dict
  undeclared : ∀ cp, "messages" ∉ (internal cp).map Prod.fst

/-- What FastAPI makes of a body: it is read as JSON before the dependencies of the route are resolved,
and validated after them. -/
inductive Body (α : Type)
  -- what its reading raises is no `JSONDecodeError`
  | unparsable
  | unreadable (errors : Except PyException (List Json))
  | invalid (errors : Except PyException (List Json))
  | valid (body : α)

structure HttpRequest (α : Type) where
  correlationId : Option String
  authorization : Option Str
  body : Body α

structure TurnBody where
  request : TurnRequest
  idempotencyKey : Option String

/-- How an `aget_tuple` ends: it touches behind its read, and the row can be written where it raises. -/
inductive AgetTuple
  | returned (nowUnix : Int)
  | raised (name : String) (touched : Option Int)

def AgetTuple.touched : AgetTuple → Option Int
  | .returned nowUnix => some nowUnix
  | .raised _ touched => touched

structure Surroundings where
  uuid4Hex : String
  uuid : ThreadId
  now : Int
  -- the two reads of the session that the body names
  lookup : AgetTuple
  count : AgetTuple
  worlds : List World
  -- the leg comes to its first write
  written : Bool
  delivered : Bool
  -- what ends a leg that no node ends: the timeout, or an exception of that name
  stopped : Option String
  -- the last touch of the leg
  touched : Option Int
  elapsed : ℚ
  forward : 0 ≤ elapsed

/-- What happens outside of the handler while it ends a session: how it is read, and how many statements of
`adelete_thread` are executed. The handler swallows what the deletion raises. -/
structure DoneSurroundings where
  uuid4Hex : String
  now : Int
  lookup : AgetTuple
  executed : Nat

structure Backend where
  clock : ℚ := 0
  cache : IdempotencyCache TurnResponse := .empty
  threads : ThreadId → Option Thread := fun _ => none
  -- `_brainstorm_meta`, with the thread ids as they were given
  lastTouched : List (String × Int) := []
  -- what the sweeper has listed and not yet deleted
  stale : List String := []
  issued : List ThreadId := []
  -- for the statements: the calls that have run the graph, session by session
  turns : ThreadId → List Attempt := fun _ => []

def App.authenticate (app : App) (authorization : Option Str) (now : Int) :
    Except HandlerException TokenClaims :=
  match requireService app.py (Str.ofString "brainstorm") authorization now app.secret with
  | .authenticated claims => .ok claims
  | .httpException statusCode reason =>
      .error (.httpException statusCode (jsonObject [("error", jsonText reason.text),
        ("message", jsonText (app.message authorization reason))]) [])
  | .internalServerError e => .error (.other (exceptionName e))

def App.resolve {α : Type} (app : App) (request : HttpRequest α) (now : Int) : Except HandlerException α :=
  match request.body with
  | .unparsable => .error (.httpException 400 (jsonText "There was an error parsing the body") [])
  | .unreadable errors => .error (.requestValidationError errors)
  | .invalid errors => do
      let _ ← app.authenticate request.authorization now
      .error (.requestValidationError errors)
  | .valid body => do
      let _ ← app.authenticate request.authorization now
      return body

def okResponse (content : Json) : Response := ⟨200, [("content-type", "application/json")], .json content⟩

def TurnState.text : TurnState → String
  | .running => "running"
  | .done => "done"

def TurnResponse.dump (response : TurnResponse) : Json :=
  jsonObject [("session_id", jsonText response.sessionId), ("reply", jsonText response.reply),
    ("state", jsonText response.state.text),
    ("metadata", jsonObject [("turn_n", .int response.metadata.turnN),
      ("reply_chars", .int response.metadata.replyChars),
      ("duration_ms", .int response.metadata.durationMs)])]

def TurnRequest.call (request : TurnRequest) : Call :=
  if request.sessionId.isNone then .start request.message else .resume request.message

def sessionFp (sha256Hex : String → String) (sessionId : String) : String :=
  "sha256:" ++ String.ofList ((sha256Hex sessionId).toList.take 8)

def sessionNotFound (sha256Hex : String → String) (correlationId sessionId : String) : HandlerException :=
  .httpException 404 (jsonObject [("error", jsonText "session_not_found"),
    ("correlation_id", jsonText correlationId),
    ("session_fp", jsonText (sessionFp sha256Hex sessionId))]) []

/-- The stream of a leg under `asyncio.wait_for`; there is no record of a leg that has written nothing. -/
def awaitLeg (threadId : ThreadId) (record : Option CallRecord) (stopped : Option String) :
    Except HandlerException (Value × TurnState) :=
  match record with
  | none => .error (stopped.elim .llmTimeoutError .other)
  | some record =>
      match record.status, record.sentinel with
      | .raised e, _ => .error (.nodeError e)
      | _, some _ => .ok (collectChunks (Ui.streamResumeSession threadId.id record).chunks)
      | _, none => .error (stopped.elim .llmTimeoutError .other)

namespace Backend

/-- `_touch`, where it is executed: an empty thread id counts as none. -/
def touchRow (rows : List (String × Int)) (sessionId : String) (nowUnix : Option Int) : List (String × Int) :=
  match nowUnix with
  | none => rows
  | some nowUnix => if sessionId = "" then rows else (sessionId, nowUnix) :: rows.filter fun row => row.1 ≠ sessionId

def touch (b : Backend) (sessionId : String) (nowUnix : Option Int) : Backend :=
  { b with lastTouched := touchRow b.lastTouched sessionId nowUnix }

def find (b : Backend) (sessionId : String) : Option ThreadId :=
  (ThreadId.ofString sessionId).filter fun threadId => (b.threads threadId).isSome

/-- `adelete_thread`: the first of its statements takes the checkpoints, the last the row. -/
def adeleteThread (b : Backend) (sessionId : String) (executed : Nat) : Backend :=
  { b with
    threads := fun threadId =>
      if threadId.id = sessionId ∧ 1 ≤ executed then none else b.threads threadId
    lastTouched :=
      if 3 ≤ executed then b.lastTouched.filter fun row => row.1 ≠ sessionId else b.lastTouched }

def attemptOf (body : TurnBody) (w : Surroundings) : Attempt := ⟨body.request.call, w.worlds, w.delivered⟩

def record (b : Backend) (threadId : ThreadId) (body : TurnBody) (w : Surroundings) : Option CallRecord :=
  if w.written then some (((b.threads threadId).getD {}).record (attemptOf body w)) else none

/-- Any leg takes its time and can touch, also one that writes nothing. -/
def runLeg (b : Backend) (threadId : ThreadId) (body : TurnBody) (w : Surroundings) : Backend :=
  { b with
    clock := b.clock + w.elapsed
    issued := threadId :: b.issued
    lastTouched := touchRow b.lastTouched threadId.id w.touched
    threads := if w.written then Function.update b.threads threadId
        (some (((b.threads threadId).getD {}).perform (attemptOf body w)))
      else b.threads
    turns := if w.written then Function.update b.turns threadId (b.turns threadId ++ [attemptOf body w])
      else b.turns }

local instance capacity_ne_zero : NeZero 10000 := ⟨by decide⟩

def takeTurn (app : App) (b : Backend) (body : TurnBody) (w : Surroundings) (threadId : ThreadId) :
    Except HandlerException TurnResponse × Backend :=
  let incoming : Incoming := ⟨body.request, body.idempotencyKey⟩
  let checkpoint := (b.threads threadId).bind Thread.checkpoint
  match incoming.turnNumber (checkpoint.map fun cp => ⟨cp.values, app.internal cp, app.undeclared cp⟩) with
  | .error e => (.error (.nodeError e), b)
  | .ok turnN =>
      let key := cacheKey app.sha256Hex incoming threadId turnN
      match b.cache.get b.clock key with
      | (some response, cache) => (.ok response, { b with cache })
      | (none, cache) =>
          let ran := { b with cache }.runLeg threadId body w
          match awaitLeg threadId (b.record threadId body w) w.stopped with
          | .error exc => (.error exc, ran)
          | .ok collected =>
              match respond threadId turnN w.elapsed collected with
              | none => (.error (.other "ValidationError"), ran)
              | some response =>
                  (.ok response, { ran with cache := ran.cache.set ran.clock key response })

def handleTurn (app : App) (b : Backend) (correlationId : String) (body : TurnBody)
    (w : Surroundings) : Except HandlerException TurnResponse × Backend :=
  match body.request.sessionId with
  | none => b.takeTurn app body w w.uuid
  | some sessionId =>
      let b := b.touch sessionId w.lookup.touched
      match w.lookup, b.find sessionId with
      | .raised name _, _ => (.error (.other name), b)
      | .returned _, none => (.error (sessionNotFound app.sha256Hex correlationId sessionId), b)
      | .returned _, some threadId =>
          let b := b.touch sessionId w.count.touched
          match w.count with
          | .raised name _ => (.error (.other name), b)
          | .returned _ => b.takeTurn app body w threadId

def turnEndpoint (app : App) (b : Backend) (request : HttpRequest TurnBody) (w : Surroundings)
    (stateId : Option String) : Except HandlerException Response × Backend :=
  match app.resolve request w.now with
  | .error exc => (.error exc, b)
  | .ok body =>
      let served := b.handleTurn app (stateId.getD "unknown") body w
      (served.1.map fun response => okResponse response.dump, served.2)

def postTurn (app : App) (b : Backend) (request : HttpRequest TurnBody) (w : Surroundings) :
    Response × Backend :=
  (createApp app.rendering (fun stateId => (b.turnEndpoint app request w stateId).1) w.uuid4Hex
      request.correlationId,
    (b.turnEndpoint app request w (some (Server.correlationId w.uuid4Hex request.correlationId))).2)

def handleDone (b : Backend) (sessionId : String) (w : DoneSurroundings) :
    Except HandlerException Response × Backend :=
  let b := b.touch sessionId w.lookup.touched
  match w.lookup with
  | .raised name _ => (.error (.other name), b)
  | .returned _ =>
      (.ok (okResponse (jsonObject [("acknowledged", .bool true)])),
        if (b.find sessionId).isSome then b.adeleteThread sessionId w.executed else b)

def postDone (app : App) (b : Backend) (request : HttpRequest String) (w : DoneSurroundings) :
    Response × Backend :=
  match app.resolve request w.now with
  | .error exc => (createApp app.rendering (fun _ => .error exc) w.uuid4Hex request.correlationId, b)
  | .ok sessionId =>
      let served := b.handleDone sessionId w
      (createApp app.rendering (fun _ => served.1) w.uuid4Hex request.correlationId, served.2)

def listStale (b : Backend) (now threshold : Int) : List String :=
  (b.lastTouched.filter fun row => row.2 < now - threshold).map Prod.fst

end Backend

inductive HttpEvent
  | turn (request : HttpRequest TurnBody) (w : Surroundings)
  | done (request : HttpRequest String) (w : DoneSurroundings)
  -- a tick of the sweeper lists, and then deletes one listed session after the other
  | list (now : Int)
  | sweep (executed : Nat)
  | advance (seconds : ℚ) (forward : 0 ≤ seconds)

def Backend.step (app : App) (b : Backend) : HttpEvent → Option Backend
  | .turn request w =>
      -- a UUID is fresh
      if w.uuid ∈ b.issued then none else some (b.postTurn app request w).2
  | .done request w => some (b.postDone app request w).2
  | .list now =>
      match b.stale with
      | [] => some { b with stale := b.listStale now app.sweepThresholdSecs }
      | _ :: _ => none
  | .sweep executed =>
      match b.stale with
      | [] => none
      | sessionId :: stale => some { b.adeleteThread sessionId executed with stale }
  | .advance seconds _ => some { b with clock := b.clock + seconds }

namespace Backend
variable {app : App} {b : Backend} {body : TurnBody} {w : Surroundings} {correlationId : String}

theorem find_eq_some {sessionId : String} {threadId : ThreadId} :
    b.find sessionId = some threadId ↔ sessionId = threadId.id ∧ ∃ t, b.threads threadId = some t := by
  rw [find, Option.filter_eq_some_iff, ThreadId.ofString_eq_some, Option.isSome_iff_exists]

def Routed (b : Backend) (body : TurnBody) (w : Surroundings) (threadId : ThreadId) : Prop :=
  body.request.sessionId = none ∧ threadId = w.uuid ∨
    body.request.sessionId = some threadId.id ∧ ∃ t, b.threads threadId = some t

/-- The ways through `handle_turn`, but for the rows of `_brainstorm_meta`. -/
inductive HandlesTurn (b : Backend) (app : App) (correlationId : String) (body : TurnBody) (w : Surroundings) :
    Except HandlerException TurnResponse → Backend → Prop
  | unknown {sessionId : String} {rows : List (String × Int)} (named : body.request.sessionId = some sessionId)
      (lost : b.find sessionId = none) :
      HandlesTurn b app correlationId body w (.error (sessionNotFound app.sha256Hex correlationId sessionId))
        { b with lastTouched := rows }
  | unread {name : String} {rows : List (String × Int)} :
      HandlesTurn b app correlationId body w (.error (.other name)) { b with lastTouched := rows }
  | cached {threadId : ThreadId} {response : TurnResponse} {cache : IdempotencyCache TurnResponse}
      {rows : List (String × Int)} (routed : b.Routed body w threadId)
      (answer : b.cache.peek b.clock
        (cacheKey app.sha256Hex ⟨body.request, body.idempotencyKey⟩ threadId 0) = some response)
      (kept : ∀ t key, cache.peek t key = b.cache.peek t key) :
      HandlesTurn b app correlationId body w (.ok response) { b with cache, lastTouched := rows }
  | ran {threadId : ThreadId} {outcome : Except HandlerException TurnResponse}
      {cache : IdempotencyCache TurnResponse} {rows : List (String × Int)} (routed : b.Routed body w threadId)
      (failed : ∀ exc, outcome = .error exc → exc = .llmTimeoutError ∨ exc.statusCode = 500)
      (replied : ∀ response, outcome = .ok response → ∃ collected,
        awaitLeg threadId (b.record threadId body w) w.stopped = .ok collected ∧
          respond threadId 0 w.elapsed collected = some response)
      (kept : ∀ t key response, cache.peek t key = some response →
        b.cache.peek t key = some response ∨ outcome = .ok response) :
      HandlesTurn b app correlationId body w outcome
        { b.runLeg threadId body w with cache, lastTouched := rows }

theorem awaitLeg_error {threadId : ThreadId} {record : Option CallRecord} {stopped : Option String}
    {exc : HandlerException} (raised : awaitLeg threadId record stopped = .error exc) :
    exc = .llmTimeoutError ∨ exc.statusCode = 500 := by
  have ended : (stopped.elim HandlerException.llmTimeoutError .other) = .llmTimeoutError ∨
      (stopped.elim HandlerException.llmTimeoutError .other).statusCode = 500 := by
    cases stopped with
    | none => exact .inl rfl
    | some name => exact .inr rfl
  unfold awaitLeg at raised
  split at raised
  · cases raised
    exact ended
  · split at raised
    · cases raised
      exact .inr rfl
    · cases raised
    · cases raised
      exact ended

theorem takeTurn_cases (app : App) (correlationId : String) (rows : List (String × Int)) {threadId : ThreadId}
    (routed : b.Routed body w threadId) : HandlesTurn b app correlationId body w
      (Backend.takeTurn app { b with lastTouched := rows } body w threadId).1
      (Backend.takeTurn app { b with lastTouched := rows } body w threadId).2 := by
  unfold takeTurn
  simp only [Incoming.turnNumber_eq]
  have unread (t : ℚ) (key : String) : (b.cache.get b.clock
      (cacheKey app.sha256Hex ⟨body.request, body.idempotencyKey⟩ threadId 0)).2.peek t key =
      b.cache.peek t key := TtlCache.peek_get
  split
  · rename_i response cache looked
    rw [looked] at unread
    refine .cached routed ?_ unread
    rw [← TtlCache.get_fst, looked]
  · rename_i cache looked
    rw [looked] at unread
    have before (t : ℚ) (key : String) (response : TurnResponse)
        (answer : cache.peek t key = some response) : b.cache.peek t key = some response :=
      (unread t key).symm.trans answer
    split
    · rename_i exc raised
      refine .ran routed (fun other same => ?_) (fun response same => ?_)
        fun t key response answer => .inl (before t key response answer)
      · cases same
        exact awaitLeg_error raised
      · cases same
    · rename_i collected awaited
      split
      · refine .ran routed (fun exc same => ?_) (fun response same => ?_)
          fun t key response answer => .inl (before t key response answer)
        · cases same
          exact .inr rfl
        · cases same
      · rename_i response built
        refine .ran routed (fun exc same => ?_) (fun answer same => ?_) (fun t key said answer => ?_)
        · cases same
        · cases same
          exact ⟨collected, awaited, built⟩
        · rcases TtlCache.peek_set answer with ⟨-, rfl⟩ | ⟨-, earlier⟩
          · exact .inr rfl
          · exact .inl (before t key said earlier)

theorem handleTurn_cases (app : App) (b : Backend) (correlationId : String) (body : TurnBody)
    (w : Surroundings) : HandlesTurn b app correlationId body w
      (b.handleTurn app correlationId body w).1 (b.handleTurn app correlationId body w).2 := by
  unfold handleTurn
  split
  · rename_i new
    exact takeTurn_cases app correlationId b.lastTouched (.inl ⟨new, rfl⟩)
  · rename_i sessionId named
    dsimp only
    cases w.lookup with
    | raised name touched => exact .unread
    | returned nowUnix =>
        have same : (b.touch sessionId (AgetTuple.returned nowUnix).touched).find sessionId = b.find sessionId := rfl
        rw [same]
        cases found : b.find sessionId with
        | none => exact .unknown named found
        | some threadId =>
            obtain ⟨rfl, stored⟩ := find_eq_some.mp found
            dsimp only
            cases w.count with
            | raised name touched => exact .unread
            | returned again => exact takeTurn_cases app correlationId _ (.inr ⟨named, stored⟩)

end Backend

end DecisionMaker.Server
