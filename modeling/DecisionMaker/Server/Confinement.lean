import DecisionMaker.Server.Ledger

namespace DecisionMaker.Server

open Library

inductive MayServe (sha256Hex : String → String) (owner : Incoming) (ownerId : ThreadId)
    (asked : Incoming) (askedId : ThreadId) : Prop
  | sameTurn (session : ownerId = askedId) (message : owner.body.message = asked.body.message)
  | sameHeader {key : String} (stored : makeKeyFromHeader owner.idempotencyKey = some key)
      (sent : makeKeyFromHeader asked.idempotencyKey = some key)
  | headerIsDigest (one : (makeKeyFromHeader owner.idempotencyKey).isSome ≠
        (makeKeyFromHeader asked.idempotencyKey).isSome)
      (same : cacheKey sha256Hex owner ownerId 0 = cacheKey sha256Hex asked askedId 0)
  | collision (different : rawInput ownerId.id owner.body.message 0 ≠
        rawInput askedId.id asked.body.message 0)
      (same : makeKeyFromTuple sha256Hex ownerId.id owner.body.message 0 =
        makeKeyFromTuple sha256Hex askedId.id asked.body.message 0)

theorem mayServe_of_cacheKey {sha256Hex : String → String} {owner asked : Incoming}
    {ownerId askedId : ThreadId}
    (same : cacheKey sha256Hex owner ownerId 0 = cacheKey sha256Hex asked askedId 0) :
    MayServe sha256Hex owner ownerId asked askedId := by
  cases stored : makeKeyFromHeader owner.idempotencyKey with
  | none =>
      cases sent : makeKeyFromHeader asked.idempotencyKey with
      | none =>
          rw [cacheKey_of_no_header stored, cacheKey_of_no_header sent] at same
          by_cases input : rawInput ownerId.id owner.body.message 0 =
              rawInput askedId.id asked.body.message 0
          · obtain ⟨session, message⟩ := rawInput_session_message ownerId.free askedId.free input
            exact .sameTurn (ThreadId.ext session) message
          · exact .collision input same
      | some key => exact .headerIsDigest (by simp [stored, sent]) same
  | some key =>
      cases sent : makeKeyFromHeader asked.idempotencyKey with
      | none => exact .headerIsDigest (by simp [stored, sent]) same
      | some key' =>
          rw [cacheKey_of_header stored, cacheKey_of_header sent] at same
          exact .sameHeader stored (same ▸ sent)

namespace Process

section
variable {ι : Type*} [DecidableEq ι] {sha256Hex : String → String} {request : ι → Incoming}

/-- A response served from the cache was stored by a run of the graph for the same session and
message, or for the same valid header; the other cases are coincidences of digests. -/
theorem served_confined (clock : ℚ) (threads : ThreadId → Option ChannelValues)
    {es : List (TurnEvent ι)} {s : Process ι}
    (taken : run (step sha256Hex request) (boot clock threads) es = some s) {i j : ι}
    {ticket : Ticket} {response : TurnResponse}
    (served : s.phase i = .answered ticket response (some j)) :
    ∃ owned, s.phase j = .answered owned response none ∧
      (request j).OfSession owned.threadId ∧ (request i).OfSession ticket.threadId ∧
      MayServe sha256Hex (request j) owned.threadId (request i) ticket.threadId := by
  have sound := run_sound taken
  have phase := sound.phases i
  rw [served] at phase
  obtain ⟨asked, owned, stored, same⟩ := phase
  have owner : owned.For sha256Hex (request j) := sound.ticket (congrArg TurnPhase.ticket stored)
  have keys : cacheKey sha256Hex (request j) owned.threadId 0 =
      cacheKey sha256Hex (request i) ticket.threadId 0 := by
    rw [← owner.key, ← asked.key, same]
  exact ⟨owned, stored, owner.session, asked.session, mayServe_of_cacheKey keys⟩

end

def houseId : ThreadId := ⟨"33333333333333333333333333333333", by decide⟩

def crossing : Bool → Incoming
  | false =>
      { body := { message := "Should I change jobs?", minLength := by decide, maxLength := by decide }
        idempotencyKey := some "retry-0001" }
  | true =>
      { body := { sessionId := some houseId.id, message := "Should I sell the house?"
                  minLength := by decide, maxLength := by decide }
        idempotencyKey := some "retry-0001" }

def houseThreads : ThreadId → Option ChannelValues :=
  fun threadId => if threadId = houseId then some ⟨{}, [], List.not_mem_nil⟩ else none

def crossingEvents : List (TurnEvent Bool) :=
  [.arrive false ⟨"44444444444444444444444444444444", by decide⟩, .count false, .lookup false,
    .collect false (.awaitingUser (.str "What does the new job pay?")), .store false,
    .arrive true houseId, .count true]

theorem crossing_served (sha256Hex : String → String) :
    ∃ s ticket response,
      run (step sha256Hex crossing) (boot 0 houseThreads) (crossingEvents ++ [.lookup true]) = some s ∧
      s.phase true = .answered ticket response (some false) := by
  obtain ⟨t, threadId, response, taken, at', clock, cache⟩ : ∃ t threadId response,
      run (step sha256Hex crossing) (boot 0 houseThreads) crossingEvents = some t ∧
      t.phase true = .keyed ⟨threadId, 0, "retry-0001"⟩ ∧ t.clock = 0 ∧
      t.cache = TtlCache.set .empty 0 "retry-0001" ⟨response, false⟩ :=
    ⟨_, _, _, rfl, rfl, rfl, rfl⟩
  have answer : t.cache.peek t.clock "retry-0001" = some ⟨response, false⟩ := by
    rw [cache, clock]
    exact TtlCache.peek_set_self (by norm_num)
  exact ⟨_, _, _, (run_concat _).mpr ⟨t, taken, step_hit at' answer⟩, rfl⟩

theorem served_confined_crossing :
    ∃ ownerId askedId, MayServe (fun raw => raw) (crossing false) ownerId (crossing true) askedId := by
  obtain ⟨s, ticket, response, taken, served⟩ := crossing_served fun raw => raw
  obtain ⟨owned, -, -, -, may⟩ := served_confined 0 houseThreads taken served
  exact ⟨owned.threadId, ticket.threadId, may⟩

theorem header_crosses_sessions :
    ¬ ∃ sha256Hex, ∀ (request : Bool → Incoming) (threads : ThreadId → Option ChannelValues)
      (es : List (TurnEvent Bool)) (s : Process Bool) (i j : Bool) (ticket : Ticket)
      (response : TurnResponse),
      run (step sha256Hex request) (boot 0 threads) es = some s →
      s.phase i = .answered ticket response (some j) →
      (request i).body.sessionId = (request j).body.sessionId ∧
        (request i).body.message = (request j).body.message := by
  intro ⟨sha256Hex, confined⟩
  obtain ⟨s, ticket, response, taken, served⟩ := crossing_served sha256Hex
  have same := (confined _ _ _ _ _ _ _ _ taken served).2
  exact absurd same (by decide)

end Process

end DecisionMaker.Server
