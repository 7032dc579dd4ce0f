import DecisionMaker.Server.Ledger

namespace DecisionMaker.Server

open Library

def TurnPhase.threadId {ι : Type*} : TurnPhase ι → Option ThreadId
  | .routed threadId => some threadId
  | phase => phase.ticket.map Ticket.threadId

namespace Process

section
variable {ι : Type*}

/-- The number of a turn is above those of the completed turns of its session, and a cached
response is served only if no other turn of the session has completed since it was stored. -/
def TurnsSeparated (request : ι → Incoming) (s : Process ι) : TurnEvent ι → Prop
  | .count i => ∀ threadId turnN, s.phase i = .routed threadId →
      (request i).turnNumber (s.threads threadId) = .ok turnN →
      ∀ j ∈ s.completed, ∀ ticket response, s.Stored j ticket response →
        ticket.threadId = threadId → ticket.turnN < turnN
  | .lookup i => ∀ ticket cached, s.phase i = .keyed ticket →
      (s.cache.get s.clock ticket.cacheKey).1 = some cached →
      ∃ before since, s.completed = before ++ cached.owner :: since ∧
        ∀ j ∈ since, ∀ other response, s.Stored j other response → other.threadId ≠ ticket.threadId
  | _ => True

def sessionKey (sha256Hex : String → String) (request : ι → Incoming) (session : ThreadId) (i : ι) :
    String :=
  makeKeyFromTuple sha256Hex session.id (request i).body.message 0

def NothingToSeparate (sha256Hex : String → String) (request : ι → Incoming) (session : ThreadId)
    (s : Process ι) : TurnEvent ι → Prop
  | .count _ => s.completed = []
  | .lookup i => s.cache.peek s.clock (sessionKey sha256Hex request session i) = none ∨
      ∃ last, s.completed.getLast? = some last ∧
        sessionKey sha256Hex request session last = sessionKey sha256Hex request session i
  | _ => True

structure OneSession (sha256Hex : String → String) (request : ι → Incoming) (session : ThreadId)
    (s : Process ι) : Prop where
  sound : Sound sha256Hex request s
  works : ∀ i threadId, (s.phase i).threadId = some threadId → threadId = session
  latest : ∀ t key cached, s.cache.peek t key = some cached →
    ∃ before since, s.completed = before ++ cached.owner :: since ∧
      ∀ j ∈ since, sessionKey sha256Hex request session j ≠ key

variable {sha256Hex : String → String} {request : ι → Incoming} {session : ThreadId}
  {s s' : Process ι}

theorem OneSession.key (one : OneSession sha256Hex request session s)
    (plain : ∀ i, makeKeyFromHeader (request i).idempotencyKey = none) {i : ι} {ticket : Ticket}
    (held : (s.phase i).ticket = some ticket) :
    ticket.threadId = session ∧ ticket.cacheKey = sessionKey sha256Hex request session i := by
  have same : ticket.threadId = session := by
    apply one.works i
    cases at' : s.phase i <;> rw [at'] at held <;> cases held <;> rfl
  exact ⟨same, by rw [(one.sound.ticket held).key, cacheKey_of_no_header (plain i), same, sessionKey]⟩

theorem OneSession.same (one : OneSession sha256Hex request session s)
    (sound : Sound sha256Hex request s')
    (works : ∀ i threadId, (s'.phase i).threadId = some threadId → threadId = session)
    (cache : ∀ t key, s'.cache.peek t key = s.cache.peek t key)
    (completed : s'.completed = s.completed) : OneSession sha256Hex request session s' where
  sound
  works := works
  latest t key cached answer := by
    rw [completed]
    exact one.latest t key cached (cache t key ▸ answer)

theorem OneSession.completed (one : OneSession sha256Hex request session s) {j : ι}
    (done : j ∈ s.completed) :
    ∃ ticket response, s.Stored j ticket response ∧ ticket.threadId = session := by
  obtain ⟨ticket, response, stored⟩ := one.sound.completed j done
  exact ⟨ticket, response, stored, one.works j _ (by rw [stored]; rfl)⟩

theorem OneSession.count_iff (one : OneSession sha256Hex request session s) {i : ι}
    {threadId : ThreadId} (at' : s.phase i = .routed threadId) :
    TurnsSeparated request s (.count i) ↔
      NothingToSeparate sha256Hex request session s (.count i) := by
  have works := one.works i threadId (by rw [at']; rfl)
  constructor
  · intro separated
    show s.completed = []
    rw [List.eq_nil_iff_forall_not_mem]
    intro j done
    obtain ⟨ticket, response, stored, same⟩ := one.completed done
    exact absurd (separated threadId 0 at' (Incoming.turnNumber_eq ..) j done ticket response stored
      (same.trans works.symm)) (Nat.not_lt_zero _)
  · intro nothing threadId' turnN _ _ j done
    rw [show s.completed = [] from nothing] at done
    cases done

theorem OneSession.lookup_iff (one : OneSession sha256Hex request session s)
    (plain : ∀ i, makeKeyFromHeader (request i).idempotencyKey = none) {i : ι} {ticket : Ticket}
    (at' : s.phase i = .keyed ticket) :
    TurnsSeparated request s (.lookup i) ↔
      NothingToSeparate sha256Hex request session s (.lookup i) := by
  obtain ⟨works, key⟩ := one.key plain (congrArg TurnPhase.ticket at')
  constructor
  · intro separated
    cases answer : s.cache.peek s.clock (sessionKey sha256Hex request session i) with
    | none => exact .inl answer
    | some cached =>
        rw [← key] at answer
        obtain ⟨before, since, split, apart⟩ :=
          separated ticket cached at' (TtlCache.get_fst.trans answer)
        have none_since : since = [] := by
          rw [List.eq_nil_iff_forall_not_mem]
          intro j member
          have done : j ∈ s.completed := by simp [split, member]
          obtain ⟨other, response, stored, same⟩ := one.completed done
          exact apart j member other response stored (same.trans works.symm)
        subst none_since
        obtain ⟨owned, stored, same⟩ := one.sound.cached _ _ _ answer
        refine .inr ⟨cached.owner, by simp [split], ?_⟩
        rw [← (one.key plain (congrArg TurnPhase.ticket stored)).2, same, key]
  · rintro nothing ticket' cached at'' answer
    obtain rfl := TurnPhase.keyed.inj (at'.symm.trans at'')
    rw [TtlCache.get_fst] at answer
    obtain ⟨before, since, split, apart⟩ := one.latest _ _ _ answer
    refine ⟨before, since, split, fun j member => ?_⟩
    rcases nothing with gone | ⟨last, final, same⟩
    · rw [← key, answer] at gone
      cases gone
    · -- the last turn has the key, so it is the owner and none is later
      exfalso
      apply apart last _ (same.trans key.symm)
      rw [split, List.getLast?_append_of_ne_nil _ (by simp),
        List.getLast?_cons_of_ne_nil (List.ne_nil_of_mem member)] at final
      exact List.mem_of_getLast? final

variable [DecidableEq ι]

theorem OneSession.works_of_move (one : OneSession sha256Hex request session s) {i : ι}
    {phase : TurnPhase ι} (moved : s'.phase = Function.update s.phase i phase)
    (stays : ∀ threadId, phase.threadId = some threadId → threadId = session) (j : ι)
    (threadId : ThreadId) (works : (s'.phase j).threadId = some threadId) : threadId = session := by
  rw [moved] at works
  by_cases same : j = i
  · subst same
    rw [Function.update_self] at works
    exact stays threadId works
  · rw [Function.update_of_ne same] at works
    exact one.works j threadId works

theorem OneSession.step {e : TurnEvent ι} (one : OneSession sha256Hex request session s)
    (plain : ∀ i, makeKeyFromHeader (request i).idempotencyKey = none)
    (single : ∀ i uuid, e = .arrive i uuid →
      (request i).body.sessionId.getD uuid.id = session.id)
    (taken : Steps sha256Hex request s e s') : OneSession sha256Hex request session s' := by
  have sound := one.sound.step taken
  cases taken with
  | @arriveNew i uuid at' new =>
      have same : uuid = session := ThreadId.ext (by simpa [new] using single i uuid rfl)
      exact one.same sound (one.works_of_move rfl (by simp [TurnPhase.threadId, same]))
        (fun _ _ => rfl) rfl
  | @arriveKnown i uuid threadId at' known =>
      have same : threadId = session := ThreadId.ext (by simpa [known] using single i uuid rfl)
      exact one.same sound (one.works_of_move rfl (by simp [TurnPhase.threadId, same]))
        (fun _ _ => rfl) rfl
  | arriveUnknown | refuse | abort =>
      exact one.same sound (one.works_of_move rfl (by simp [TurnPhase.threadId, TurnPhase.ticket]))
        (fun _ _ => rfl) rfl
  | @count i threadId at' =>
      have works := one.works i threadId (by rw [at']; rfl)
      exact one.same sound
        (one.works_of_move rfl (by simp [TurnPhase.threadId, TurnPhase.ticket, works]))
        (fun _ _ => rfl) rfl
  | @collect i _ ticket _ at' =>
      have works := one.works i ticket.threadId (by rw [at']; rfl)
      exact one.same sound
        (one.works_of_move rfl (by simp [TurnPhase.threadId, TurnPhase.ticket, works]))
        (fun _ _ => rfl) rfl
  | @hit i ticket _ at' | @miss i ticket at' =>
      have works := one.works i ticket.threadId (by rw [at']; rfl)
      exact one.same sound
        (one.works_of_move rfl (by simp [TurnPhase.threadId, TurnPhase.ticket, works]))
        (fun _ _ => TtlCache.peek_get) rfl
  | commit | drop | advance => exact one.same sound one.works (fun _ _ => rfl) rfl
  | @store i ticket response at' =>
      obtain ⟨works, own⟩ := one.key plain (congrArg TurnPhase.ticket at')
      refine ⟨sound, one.works_of_move rfl (by simp [TurnPhase.threadId, TurnPhase.ticket, works]),
        fun t key cached answer => ?_⟩
      rcases TtlCache.peek_set answer with ⟨rfl, rfl⟩ | ⟨other, earlier⟩
      · exact ⟨s.completed, [], rfl, by simp⟩
      · obtain ⟨before, since, split, apart⟩ := one.latest t key cached earlier
        refine ⟨before, since ++ [i], by simp [split], fun j member => ?_⟩
        rcases List.mem_append.mp member with former | latest
        · exact apart j former
        · obtain rfl := List.mem_singleton.mp latest
          exact own ▸ other.symm

theorem turnsSeparated_iff (clock : ℚ) (threads : ThreadId → Option ChannelValues)
    {es : List (TurnEvent ι)} (session : ThreadId)
    (plain : ∀ i, makeKeyFromHeader (request i).idempotencyKey = none)
    (single : ∀ i uuid, .arrive i uuid ∈ es → (request i).body.sessionId.getD uuid.id = session.id)
    (taken : run (step sha256Hex request) (boot clock threads) es = some s) :
    EachStep (step sha256Hex request) (TurnsSeparated request) (boot clock threads) es ↔
      EachStep (step sha256Hex request) (NothingToSeparate sha256Hex request session)
        (boot clock threads) es := by
  refine eachStep_congr (I := OneSession sha256Hex request session)
    (A := fun _ e => ∀ i uuid, e = .arrive i uuid →
      (request i).body.sessionId.getD uuid.id = session.id)
    (fun s e s' one single taken => one.step plain single (step_cases taken))
    (fun s e s' one _ taken => ?_) ⟨boot_sound, ?_, ?_⟩
    (.of_forall ?_) taken
  · cases step_cases taken with
    | count at' => exact one.count_iff at'
    | hit at' | miss at' => exact one.lookup_iff plain at'
    | _ => exact Iff.rfl
  · intro i threadId works
    cases works
  · intro t key cached answer
    simp [boot] at answer
  · rintro e member i uuid rfl
    exact single i uuid member

end

def jobId : ThreadId := ⟨"55555555555555555555555555555555", by decide⟩

def jobDigest (raw : String) : String :=
  if raw = rawInput jobId.id "Job or study?" 0 then
    "044f31f94bec3ff17b97d8f5a3cdedb92f1e158478bd7ab2035436b16c4d0bde"
  else if raw = rawInput jobId.id "about five" 0 then
    "bf368e8e9a2e2b7bd7ed0e41e5371218acf23b1a0fb66a5339061679cdb9e5ef"
  else ""

def repeating : Fin 3 → Incoming
  | 0 => { body := { message := "Job or study?", minLength := by decide, maxLength := by decide } }
  | 1 =>
      { body := { sessionId := some jobId.id, message := "about five"
                  minLength := by decide, maxLength := by decide } }
  | 2 =>
      { body := { sessionId := some jobId.id, message := "Job or study?"
                  minLength := by decide, maxLength := by decide } }

def asks (text : String) : Graph.Sentinel := .awaitingUser (.str text)

def firstTurn : List (TurnEvent (Fin 3)) :=
  [.arrive 0 jobId, .count 0, .lookup 0, .commit 0 ⟨{}, [], List.not_mem_nil⟩,
    .collect 0 (asks "How well does it pay?"), .store 0]

def secondTurn : List (TurnEvent (Fin 3)) :=
  [.arrive 1 jobId, .count 1, .lookup 1, .collect 1 (asks "And the colleagues?"), .store 1,
    .arrive 2 jobId, .count 2]

theorem repeating_run :
    ∃ t reply reply',
      run (step jobDigest repeating) (boot 0 fun _ => none) (firstTurn ++ secondTurn) = some t ∧
      t.phase 2 = .keyed ⟨jobId, 0, "044f31f94bec3ff17b97d8f5a3cdedb9"⟩ ∧
      t.Stored 1 ⟨jobId, 0, "bf368e8e9a2e2b7bd7ed0e41e5371218"⟩ reply' ∧
      t.clock = 0 ∧ t.completed = [0, 1] ∧
      t.cache = (TtlCache.set .empty 0 "044f31f94bec3ff17b97d8f5a3cdedb9" ⟨reply, 0⟩).set 0
        "bf368e8e9a2e2b7bd7ed0e41e5371218" ⟨reply', 1⟩ :=
  ⟨_, _, _, rfl, rfl, rfl, rfl, rfl, rfl⟩

theorem repeating_plain (i : Fin 3) : makeKeyFromHeader (repeating i).idempotencyKey = none := by
  match i with
  | 0 | 1 | 2 => rfl

theorem repeating_single {i : Fin 3} {uuid : ThreadId}
    (arrives : .arrive i uuid ∈ firstTurn ++ secondTurn ++ [.lookup 2]) :
    (repeating i).body.sessionId.getD uuid.id = jobId.id := by
  simp only [firstTurn, secondTurn, List.cons_append, List.nil_append, List.mem_cons,
    TurnEvent.arrive.injEq, reduceCtorEq, false_or, List.not_mem_nil, or_false] at arrives
  rcases arrives with ⟨rfl, rfl⟩ | ⟨rfl, rfl⟩ | ⟨rfl, rfl⟩ <;> rfl

theorem turnsSeparated_iff_repeating :
    EachStep (step jobDigest repeating) (TurnsSeparated repeating) (boot 0 fun _ => none)
        (firstTurn ++ secondTurn) ↔
      EachStep (step jobDigest repeating) (NothingToSeparate jobDigest repeating jobId)
        (boot 0 fun _ => none) (firstTurn ++ secondTurn) := by
  obtain ⟨t, _, _, taken, -⟩ := repeating_run
  exact turnsSeparated_iff 0 _ jobId repeating_plain
    (fun i uuid arrives => repeating_single (List.mem_append_left _ arrives)) taken

theorem repeated_message_swallowed :
    ¬ ∀ (es : List (TurnEvent (Fin 3))) (s : Process (Fin 3)),
      (∀ i uuid, .arrive i uuid ∈ es → (repeating i).body.sessionId.getD uuid.id = jobId.id) →
      run (step jobDigest repeating) (boot 0 fun _ => none) es = some s →
      EachStep (step jobDigest repeating) (TurnsSeparated repeating) (boot 0 fun _ => none) es := by
  intro all
  obtain ⟨t, reply, reply', taken, at', stored, clock, completed, cache⟩ := repeating_run
  have answer : t.cache.peek t.clock "044f31f94bec3ff17b97d8f5a3cdedb9" = some ⟨reply, 0⟩ := by
    rw [cache, clock]
    exact TtlCache.peek_set_of_ne (lt_of_le_of_lt (TtlCache.size_le ..) (by norm_num : 1 < 10000))
      (by decide) le_rfl (TtlCache.peek_set_self (by norm_num))
  have each := all (firstTurn ++ secondTurn ++ [.lookup 2]) _ (fun _ _ => repeating_single)
    ((run_concat _).mpr ⟨t, taken, step_hit at' answer⟩)
  have separated : TurnsSeparated repeating t (.lookup 2) :=
    EachStep.after (show EachStep _ _ _ ((firstTurn ++ secondTurn) ++ .lookup 2 :: []) from each) taken
  obtain ⟨before, since, split, apart⟩ := separated _ _ at' (TtlCache.get_fst.trans answer)
  have latest : 1 ∈ since := by
    rw [completed] at split
    rcases before with _ | ⟨_, _ | ⟨_, rest⟩⟩
    · cases split
      exact List.mem_singleton_self 1
    · simp at split
    · simp at split
  exact apart 1 latest _ _ stored rfl

end Process

end DecisionMaker.Server
