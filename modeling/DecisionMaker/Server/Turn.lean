import DecisionMaker.Graph.Engine
import DecisionMaker.Library.Schedule
import DecisionMaker.Server.Idempotency
import Mathlib.Algebra.Order.Floor.Ring
import Mathlib.Data.Rat.Floor
import Mathlib.Logic.Function.Basic

/-!
# The turn handler

`handle_turn` from its first await to its last, for any number of requests on one process. The
graph is known to it by the checkpoints a running stream writes and by the item the stream ends
with.
-/

namespace DecisionMaker.Server

open Library

structure TurnRequest where
  sessionId : Option String := none
  message : String
  minLength : 1 ≤ message.length
  maxLength : message.length ≤ 4000

structure Incoming where
  body : TurnRequest
  idempotencyKey : Option String := none

inductive TurnState
  | running
  | done
  deriving DecidableEq, Repr

structure TurnMetadata where
  turnN : Nat
  replyChars : Nat
  durationMs : Int
  deriving DecidableEq, Repr

structure TurnResponse where
  sessionId : String
  reply : String
  state : TurnState
  metadata : TurnMetadata
  deriving DecidableEq, Repr

inductive TurnError
  | sessionNotFound
  | llmTimeout
  | internal
  deriving DecidableEq, Repr

/-- The id of a session, `uuid.uuid4().hex`: only that it contains no NUL is made use of. -/
@[ext] structure ThreadId where
  id : String
  free : Char.ofNat 0 ∉ id.toList
  deriving DecidableEq

def ThreadId.ofString (sessionId : String) : Option ThreadId :=
  if free : Char.ofNat 0 ∉ sessionId.toList then some ⟨sessionId, free⟩ else none

theorem ThreadId.ofString_eq_some {sessionId : String} {threadId : ThreadId} :
    ofString sessionId = some threadId ↔ sessionId = threadId.id := by
  unfold ofString
  split
  · simp [ThreadId.ext_iff]
  · rename_i forbidden
    simp only [reduceCtorEq, false_iff]
    intro named
    subst named
    exact forbidden threadId.free

@[simp] theorem ThreadId.ofString_id (threadId : ThreadId) : ofString threadId.id = some threadId :=
  ofString_eq_some.mpr rfl

/-- `checkpoint["channel_values"]`: the declared channels, and channels of LangGraph's own, none of
which is called `messages`. -/
structure ChannelValues where
  state : Graph.DecisionMakerState
  internal : Dict
  undeclared : "messages" ∉ internal.map Prod.fst

def ChannelValues.entries (values : ChannelValues) : Dict := values.state.channels ++ values.internal

def turnNumber (checkpoint : Option ChannelValues) : Except NodeError Nat :=
  match checkpoint with
  | none => .ok 0
  | some values => (values.entries.get "messages" (.list [])).len

@[simp] theorem turnNumber_eq (checkpoint : Option ChannelValues) : turnNumber checkpoint = .ok 0 := by
  cases checkpoint with
  | none => rfl
  | some values =>
      have absent : values.entries.lookup "messages" = none := by
        rw [List.lookup_eq_none_iff]
        intro entry member
        rw [bne_iff_ne]
        intro named
        rcases List.mem_append.mp member with declared | internal
        · exact values.state.messages_not_channel (named ▸ List.mem_map_of_mem declared)
        · exact values.undeclared (named ▸ List.mem_map_of_mem internal)
      simp [turnNumber, Dict.get, absent, Value.len]

def Incoming.turnNumber (request : Incoming) (checkpoint : Option ChannelValues) :
    Except NodeError Nat :=
  if request.body.sessionId.isNone then .ok 0 else Server.turnNumber checkpoint

@[simp] theorem Incoming.turnNumber_eq (request : Incoming) (checkpoint : Option ChannelValues) :
    request.turnNumber checkpoint = .ok 0 := by
  simp [Incoming.turnNumber]

def cacheKey (sha256Hex : String → String) (request : Incoming) (threadId : ThreadId)
    (turnN : Nat) : String :=
  (makeKeyFromHeader request.idempotencyKey).getD
    (makeKeyFromTuple sha256Hex threadId.id request.body.message turnN)

theorem cacheKey_of_header {sha256Hex : String → String} {request : Incoming} {threadId : ThreadId}
    {turnN : Nat} {key : String} (valid : makeKeyFromHeader request.idempotencyKey = some key) :
    cacheKey sha256Hex request threadId turnN = key := by
  rw [cacheKey, valid, Option.getD_some]

theorem cacheKey_of_no_header {sha256Hex : String → String} {request : Incoming}
    {threadId : ThreadId} {turnN : Nat} (absent : makeKeyFromHeader request.idempotencyKey = none) :
    cacheKey sha256Hex request threadId turnN =
      makeKeyFromTuple sha256Hex threadId.id request.body.message turnN := by
  rw [cacheKey, absent, Option.getD_none]

def collectStream : Graph.Sentinel → Value × TurnState
  | .awaitingUser lastQuestion => (lastQuestion, .running)
  | .done finalAnswer => (.str finalAnswer, .done)

/-- From what `_collect_stream` returns. Where the reply is no string, `len(reply)` or the validation of the
response raises. -/
def respond (threadId : ThreadId) (turnN : Nat) (elapsed : ℚ) : Value × TurnState → Option TurnResponse
  | (.str reply, state) =>
      some { sessionId := threadId.id, reply, state
             metadata := { turnN, replyChars := reply.length, durationMs := ⌊elapsed * 1000⌋ } }
  | _ => none

def buildResponse (threadId : ThreadId) (turnN : Nat) (sentinel : Graph.Sentinel) (elapsed : ℚ) :
    Option TurnResponse :=
  respond threadId turnN elapsed (collectStream sentinel)

structure Ticket where
  threadId : ThreadId
  turnN : Nat
  cacheKey : String
  deriving DecidableEq

inductive TurnPhase (ι : Type*)
  | waiting
  | routed (threadId : ThreadId)
  | keyed (ticket : Ticket)
  | running (ticket : Ticket)
  | collected (ticket : Ticket) (response : TurnResponse)
  -- a response from the cache is answered with the request that stored it
  | answered (ticket : Ticket) (response : TurnResponse) (servedBy : Option ι)
  | failed (error : TurnError)

def TurnPhase.ticket {ι : Type*} : TurnPhase ι → Option Ticket
  | .keyed ticket | .running ticket | .collected ticket _ | .answered ticket _ _ => some ticket
  | _ => none

structure CachedTurn (ι : Type*) where
  response : TurnResponse
  owner : ι

/-- A step of a handler up to its next await, a checkpoint that its running stream writes, the
removal of a session by the sweeper or by `/done`, or the passing of time. -/
inductive TurnEvent (ι : Type*)
  | arrive (request : ι) (uuid : ThreadId)
  | count (request : ι)
  | lookup (request : ι)
  | commit (request : ι) (values : ChannelValues)
  | collect (request : ι) (sentinel : Graph.Sentinel)
  | store (request : ι)
  | abort (request : ι) (error : TurnError)
  | drop (threadId : ThreadId)
  | advance (seconds : ℚ)

structure Process (ι : Type*) where
  clock : ℚ := 0
  cache : IdempotencyCache (CachedTurn ι) := .empty
  threads : ThreadId → Option ChannelValues := fun _ => none
  phase : ι → TurnPhase ι := fun _ => .waiting
  startTime : ι → ℚ := fun _ => 0
  issued : List ThreadId := []
  -- for the statements: every run with the key that was looked up, and the turns in their order
  runs : List (ι × String) := []
  completed : List ι := []

section
variable {ι : Type*} [DecidableEq ι]

namespace Process

def move (s : Process ι) (i : ι) (phase : TurnPhase ι) : Process ι :=
  { s with phase := Function.update s.phase i phase }

def step (sha256Hex : String → String) (request : ι → Incoming) (s : Process ι) :
    TurnEvent ι → Option (Process ι)
  | .arrive i uuid =>
      match s.phase i with
      | .waiting =>
          match (request i).body.sessionId with
          | none =>
              -- a UUID is fresh
              if uuid ∉ s.issued ∧ (s.threads uuid).isNone then
                some { s.move i (.routed uuid) with
                  startTime := Function.update s.startTime i s.clock
                  issued := uuid :: s.issued }
              else none
          | some sessionId =>
              match (ThreadId.ofString sessionId).filter fun id => (s.threads id).isSome with
              | none => some (s.move i (.failed .sessionNotFound))
              | some threadId =>
                  some { s.move i (.routed threadId) with
                    startTime := Function.update s.startTime i s.clock }
      | _ => none
  | .count i =>
      match s.phase i with
      | .routed threadId =>
          match (request i).turnNumber (s.threads threadId) with
          | .error _ => some (s.move i (.failed .internal))
          | .ok turnN =>
              some (s.move i (.keyed ⟨threadId, turnN, cacheKey sha256Hex (request i) threadId turnN⟩))
      | _ => none
  | .lookup i =>
      match s.phase i with
      | .keyed ticket =>
          match s.cache.get s.clock ticket.cacheKey with
          | (some cached, cache) =>
              some { s.move i (.answered ticket cached.response (some cached.owner)) with cache }
          | (none, cache) =>
              some { s.move i (.running ticket) with cache, runs := s.runs ++ [(i, ticket.cacheKey)] }
      | _ => none
  | .commit i values =>
      match s.phase i with
      | .running ticket =>
          some { s with threads := Function.update s.threads ticket.threadId (some values) }
      | _ => none
  | .collect i sentinel =>
      match s.phase i with
      | .running ticket =>
          match buildResponse ticket.threadId ticket.turnN sentinel (s.clock - s.startTime i) with
          | some response => some (s.move i (.collected ticket response))
          | none => some (s.move i (.failed .internal))
      | _ => none
  | .store i =>
      match s.phase i with
      | .collected ticket response =>
          some { s.move i (.answered ticket response none) with
            cache := s.cache.set s.clock ticket.cacheKey ⟨response, i⟩
            completed := s.completed ++ [i] }
      | _ => none
  | .abort i error =>
      match s.phase i with
      | .running _ => some (s.move i (.failed error))
      | _ => none
  | .drop threadId => some { s with threads := Function.update s.threads threadId none }
  | .advance seconds => if 0 ≤ seconds then some { s with clock := s.clock + seconds } else none

inductive Steps (sha256Hex : String → String) (request : ι → Incoming) (s : Process ι) :
    TurnEvent ι → Process ι → Prop
  | arriveNew {i : ι} {uuid : ThreadId} (at' : s.phase i = .waiting)
      (new : (request i).body.sessionId = none) (fresh : uuid ∉ s.issued)
      (unknown : s.threads uuid = none) :
      Steps sha256Hex request s (.arrive i uuid)
        { s.move i (.routed uuid) with
          startTime := Function.update s.startTime i s.clock
          issued := uuid :: s.issued }
  | arriveKnown {i : ι} {uuid threadId : ThreadId} (at' : s.phase i = .waiting)
      (known : (request i).body.sessionId = some threadId.id) (stored : (s.threads threadId).isSome) :
      Steps sha256Hex request s (.arrive i uuid)
        { s.move i (.routed threadId) with
          startTime := Function.update s.startTime i s.clock }
  | arriveUnknown {i : ι} {uuid : ThreadId} {sessionId : String} (at' : s.phase i = .waiting)
      (known : (request i).body.sessionId = some sessionId)
      (unknown : ∀ threadId, threadId.id = sessionId → s.threads threadId = none) :
      Steps sha256Hex request s (.arrive i uuid) (s.move i (.failed .sessionNotFound))
  | count {i : ι} {threadId : ThreadId} (at' : s.phase i = .routed threadId) :
      Steps sha256Hex request s (.count i)
        (s.move i (.keyed ⟨threadId, 0, cacheKey sha256Hex (request i) threadId 0⟩))
  | hit {i : ι} {ticket : Ticket} {cached : CachedTurn ι} (at' : s.phase i = .keyed ticket)
      (answer : s.cache.peek s.clock ticket.cacheKey = some cached) :
      Steps sha256Hex request s (.lookup i)
        { s.move i (.answered ticket cached.response (some cached.owner)) with
          cache := (s.cache.get s.clock ticket.cacheKey).2 }
  | miss {i : ι} {ticket : Ticket} (at' : s.phase i = .keyed ticket)
      (answer : s.cache.peek s.clock ticket.cacheKey = none) :
      Steps sha256Hex request s (.lookup i)
        { s.move i (.running ticket) with
          cache := (s.cache.get s.clock ticket.cacheKey).2
          runs := s.runs ++ [(i, ticket.cacheKey)] }
  | commit {i : ι} {values : ChannelValues} {ticket : Ticket} (at' : s.phase i = .running ticket) :
      Steps sha256Hex request s (.commit i values)
        { s with threads := Function.update s.threads ticket.threadId (some values) }
  | collect {i : ι} {sentinel : Graph.Sentinel} {ticket : Ticket} {response : TurnResponse}
      (at' : s.phase i = .running ticket)
      (built : buildResponse ticket.threadId ticket.turnN sentinel (s.clock - s.startTime i) =
        some response) :
      Steps sha256Hex request s (.collect i sentinel) (s.move i (.collected ticket response))
  | refuse {i : ι} {sentinel : Graph.Sentinel} {ticket : Ticket} (at' : s.phase i = .running ticket) :
      Steps sha256Hex request s (.collect i sentinel) (s.move i (.failed .internal))
  | store {i : ι} {ticket : Ticket} {response : TurnResponse}
      (at' : s.phase i = .collected ticket response) :
      Steps sha256Hex request s (.store i)
        { s.move i (.answered ticket response none) with
          cache := s.cache.set s.clock ticket.cacheKey ⟨response, i⟩
          completed := s.completed ++ [i] }
  | abort {i : ι} {error : TurnError} {ticket : Ticket} (at' : s.phase i = .running ticket) :
      Steps sha256Hex request s (.abort i error) (s.move i (.failed error))
  | drop (threadId : ThreadId) :
      Steps sha256Hex request s (.drop threadId)
        { s with threads := Function.update s.threads threadId none }
  | advance {seconds : ℚ} (forward : 0 ≤ seconds) :
      Steps sha256Hex request s (.advance seconds) { s with clock := s.clock + seconds }

theorem step_cases {sha256Hex : String → String} {request : ι → Incoming} {s s' : Process ι}
    {e : TurnEvent ι} (taken : s.step sha256Hex request e = some s') :
    Steps sha256Hex request s e s' := by
  cases e with
  | arrive i uuid =>
      simp only [step] at taken
      split at taken
      · split at taken
        · split at taken <;> cases taken
          rename_i fresh
          exact .arriveNew ‹_› ‹_› fresh.1 (by simpa using fresh.2)
        · split at taken <;> rename_i found <;> cases taken
          · refine .arriveUnknown ‹_› ‹_› fun threadId named => ?_
            simpa [← named] using found
          · obtain ⟨named, stored⟩ := Option.filter_eq_some_iff.mp found
            obtain rfl := ThreadId.ofString_eq_some.mp named
            exact .arriveKnown ‹_› ‹_› stored
      · cases taken
  | count i =>
      simp only [step, Incoming.turnNumber_eq] at taken
      split at taken <;> cases taken
      exact .count ‹_›
  | lookup i =>
      simp only [step] at taken
      split at taken
      · rename_i ticket at'
        have answer : (s.cache.get s.clock ticket.cacheKey).1 = _ := TtlCache.get_fst
        split at taken <;> rename_i got <;> rw [got] at answer <;> cases taken
        · have cache := congrArg Prod.snd got
          subst cache
          exact .hit at' answer.symm
        · have cache := congrArg Prod.snd got
          subst cache
          exact .miss at' answer.symm
      · cases taken
  | commit i values =>
      simp only [step] at taken
      split at taken <;> cases taken
      exact .commit ‹_›
  | collect i sentinel =>
      simp only [step] at taken
      split at taken
      · split at taken <;> cases taken
        · exact .collect ‹_› ‹_›
        · exact .refuse ‹_›
      · cases taken
  | store i =>
      simp only [step] at taken
      split at taken <;> cases taken
      exact .store ‹_›
  | abort i error =>
      simp only [step] at taken
      split at taken <;> cases taken
      exact .abort ‹_›
  | drop threadId => cases taken; exact .drop threadId
  | advance seconds =>
      simp only [step] at taken
      split at taken <;> cases taken
      exact .advance ‹_›

theorem step_hit {sha256Hex : String → String} {request : ι → Incoming} {s : Process ι} {i : ι}
    {ticket : Ticket} {cached : CachedTurn ι} (at' : s.phase i = .keyed ticket)
    (answer : s.cache.peek s.clock ticket.cacheKey = some cached) :
    s.step sha256Hex request (.lookup i) =
      some { s.move i (.answered ticket cached.response (some cached.owner)) with
        cache := (s.cache.get s.clock ticket.cacheKey).2 } := by
  rw [← TtlCache.get_fst] at answer
  simp only [step, at']
  split <;> rename_i got <;> rw [got] at answer <;> cases answer
  rw [got]

end Process

end

end DecisionMaker.Server
