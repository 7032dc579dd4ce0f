import DecisionMaker.Server.Turn

namespace DecisionMaker.Server

open Library

def Incoming.OfSession (request : Incoming) (threadId : ThreadId) : Prop :=
  request.body.sessionId.getD threadId.id = threadId.id

structure Ticket.For (sha256Hex : String → String) (request : Incoming) (ticket : Ticket) : Prop where
  session : request.OfSession ticket.threadId
  number : ticket.turnN = 0
  key : ticket.cacheKey = Server.cacheKey sha256Hex request ticket.threadId 0

namespace Process

section
variable {ι : Type*} {sha256Hex : String → String} {request : ι → Incoming}

def boot (clock : ℚ) (threads : ThreadId → Option ChannelValues) : Process ι := { clock, threads }

def Stored (s : Process ι) (i : ι) (ticket : Ticket) (response : TurnResponse) : Prop :=
  s.phase i = .answered ticket response none

structure Grows (s s' : Process ι) : Prop where
  runs : s.runs <+: s'.runs
  completed : s.completed <+: s'.completed
  answered : ∀ {i ticket response servedBy},
    s.phase i = .answered ticket response servedBy → s'.phase i = .answered ticket response servedBy

theorem Grows.of_move [DecidableEq ι] {s s' : Process ι} {i : ι} {phase : TurnPhase ι}
    (pending : ∀ ticket response servedBy, s.phase i ≠ .answered ticket response servedBy)
    (moved : s'.phase = Function.update s.phase i phase) (runs : s.runs <+: s'.runs)
    (completed : s.completed <+: s'.completed) : Grows s s' where
  runs
  completed
  answered {j} ticket response servedBy answered := by
    have ne : j ≠ i := by
      intro same
      subst same
      exact pending _ _ _ answered
    rw [moved, Function.update_of_ne ne, answered]

theorem Steps.grows [DecidableEq ι] {s s' : Process ι} {e : TurnEvent ι}
    (taken : Steps sha256Hex request s e s') : Grows s s' := by
  cases taken with
  | arriveNew at' | arriveKnown at' | arriveUnknown at' =>
      exact .of_move (by simp [at']) rfl List.prefix_rfl List.prefix_rfl
  | count at' | hit at' | collect at' | refuse at' | abort at' =>
      exact .of_move (by simp [at']) rfl List.prefix_rfl List.prefix_rfl
  | miss at' => exact .of_move (by simp [at']) rfl (List.prefix_append ..) List.prefix_rfl
  | store at' => exact .of_move (by simp [at']) rfl List.prefix_rfl (List.prefix_append ..)
  | commit | drop | advance => exact ⟨List.prefix_rfl, List.prefix_rfl, id⟩

def PhaseSound (sha256Hex : String → String) (request : ι → Incoming) (s : Process ι) (i : ι) :
    TurnPhase ι → Prop
  | .waiting | .failed _ => True
  | .routed threadId => (request i).OfSession threadId
  | .keyed ticket => ticket.For sha256Hex (request i)
  | .running ticket | .collected ticket _ =>
      ticket.For sha256Hex (request i) ∧ (i, ticket.cacheKey) ∈ s.runs
  | .answered ticket _ none =>
      ticket.For sha256Hex (request i) ∧ (i, ticket.cacheKey) ∈ s.runs ∧ i ∈ s.completed
  | .answered ticket response (some j) =>
      ticket.For sha256Hex (request i) ∧
        ∃ owned, s.Stored j owned response ∧ owned.cacheKey = ticket.cacheKey

theorem PhaseSound.mono {s s' : Process ι} {i : ι} {phase : TurnPhase ι} (grows : Grows s s')
    (sound : s.PhaseSound sha256Hex request i phase) :
    s'.PhaseSound sha256Hex request i phase := by
  cases phase with
  | waiting | routed | keyed | failed => exact sound
  | running | collected => exact ⟨sound.1, grows.runs.subset sound.2⟩
  | answered ticket response servedBy =>
      cases servedBy with
      | none => exact ⟨sound.1, grows.runs.subset sound.2.1, grows.completed.subset sound.2.2⟩
      | some j =>
          obtain ⟨fits, owned, stored, same⟩ := sound
          exact ⟨fits, owned, grows.answered stored, same⟩

structure Sound (sha256Hex : String → String) (request : ι → Incoming) (s : Process ι) : Prop where
  phases : ∀ i, s.PhaseSound sha256Hex request i (s.phase i)
  cached : ∀ t key cached, s.cache.peek t key = some cached →
    ∃ ticket, s.Stored cached.owner ticket cached.response ∧ ticket.cacheKey = key
  completed : ∀ i ∈ s.completed, ∃ ticket response, s.Stored i ticket response

theorem boot_sound {clock : ℚ} {threads : ThreadId → Option ChannelValues} :
    Sound sha256Hex request (boot clock threads) where
  phases _ := True.intro
  cached _ _ _ answer := by simp [boot] at answer
  completed _ member := absurd member List.not_mem_nil

theorem Sound.ticket {s : Process ι} (sound : Sound sha256Hex request s) {i : ι} {ticket : Ticket}
    (held : (s.phase i).ticket = some ticket) : ticket.For sha256Hex (request i) := by
  have phase := sound.phases i
  cases at' : s.phase i with
  | waiting | routed | failed => simp [at', TurnPhase.ticket] at held
  | keyed =>
      rw [at'] at phase held
      cases held
      exact phase
  | running | collected =>
      rw [at'] at phase held
      cases held
      exact phase.1
  | answered _ _ servedBy =>
      rw [at'] at phase held
      cases held
      cases servedBy <;> exact phase.1

variable {s s' : Process ι}

theorem Sound.owner (sound : Sound sha256Hex request s) {t : ℚ} {key : String}
    {cached : CachedTurn ι} (answer : s.cache.peek t key = some cached) :
    (cached.owner, key) ∈ s.runs ∧ cached.owner ∈ s.completed := by
  obtain ⟨ticket, stored, rfl⟩ := sound.cached t key cached answer
  have phase : s.PhaseSound sha256Hex request cached.owner (.answered ticket cached.response none) :=
    stored ▸ sound.phases cached.owner
  exact phase.2

theorem Sound.same (sound : Sound sha256Hex request s) (grows : Grows s s')
    (phases : s'.phase = s.phase) (cache : s'.cache = s.cache)
    (completed : s'.completed = s.completed) : Sound sha256Hex request s' where
  phases j := phases ▸ (sound.phases j).mono grows
  cached t key cached answer := by
    obtain ⟨ticket, stored, same⟩ := sound.cached t key cached (cache ▸ answer)
    exact ⟨ticket, grows.answered stored, same⟩
  completed j member := by
    obtain ⟨ticket, response, stored⟩ := sound.completed j (completed ▸ member)
    exact ⟨ticket, response, grows.answered stored⟩

variable [DecidableEq ι]

theorem Sound.phases_of_move (sound : Sound sha256Hex request s) (grows : Grows s s') {i : ι}
    {phase : TurnPhase ι} (moved : s'.phase = Function.update s.phase i phase)
    (holds : s'.PhaseSound sha256Hex request i phase) (j : ι) :
    s'.PhaseSound sha256Hex request j (s'.phase j) := by
  rw [moved]
  by_cases same : j = i
  · subst same
    rwa [Function.update_self]
  · rw [Function.update_of_ne same]
    exact (sound.phases j).mono grows

theorem Sound.moved (sound : Sound sha256Hex request s) (grows : Grows s s') {i : ι}
    {phase : TurnPhase ι} (moved : s'.phase = Function.update s.phase i phase)
    (holds : s'.PhaseSound sha256Hex request i phase)
    (cache : ∀ t key, s'.cache.peek t key = s.cache.peek t key)
    (completed : s'.completed = s.completed) : Sound sha256Hex request s' where
  phases := sound.phases_of_move grows moved holds
  cached t key cached answer := by
    obtain ⟨ticket, stored, same⟩ := sound.cached t key cached (cache t key ▸ answer)
    exact ⟨ticket, grows.answered stored, same⟩
  completed j member := by
    obtain ⟨ticket, response, stored⟩ := sound.completed j (completed ▸ member)
    exact ⟨ticket, response, grows.answered stored⟩

theorem Sound.step {e : TurnEvent ι} (sound : Sound sha256Hex request s)
    (taken : Steps sha256Hex request s e s') : Sound sha256Hex request s' := by
  have grows := taken.grows
  cases taken with
  | arriveNew at' new =>
      exact sound.moved grows rfl (by simp [PhaseSound, Incoming.OfSession, new]) (fun _ _ => rfl) rfl
  | arriveKnown at' known =>
      exact sound.moved grows rfl (by simp [PhaseSound, Incoming.OfSession, known]) (fun _ _ => rfl) rfl
  | arriveUnknown => exact sound.moved grows rfl True.intro (fun _ _ => rfl) rfl
  | @count i threadId at' =>
      have routed : s.PhaseSound sha256Hex request i (.routed threadId) := at' ▸ sound.phases i
      exact sound.moved grows rfl ⟨routed, rfl, rfl⟩ (fun _ _ => rfl) rfl
  | @hit i ticket cached at' answer =>
      obtain ⟨owned, stored, same⟩ := sound.cached _ _ _ answer
      have keyed : s.PhaseSound sha256Hex request i (.keyed ticket) := at' ▸ sound.phases i
      exact sound.moved grows rfl ⟨keyed, owned, grows.answered stored, same⟩
        (fun _ _ => TtlCache.peek_get) rfl
  | @miss i ticket at' =>
      have keyed : s.PhaseSound sha256Hex request i (.keyed ticket) := at' ▸ sound.phases i
      exact sound.moved grows rfl ⟨keyed, List.mem_append_right _ (List.mem_singleton_self _)⟩
        (fun _ _ => TtlCache.peek_get) rfl
  | @collect i _ ticket response at' =>
      have running : s.PhaseSound sha256Hex request i (.running ticket) := at' ▸ sound.phases i
      exact sound.moved grows rfl running (fun _ _ => rfl) rfl
  | refuse => exact sound.moved grows rfl True.intro (fun _ _ => rfl) rfl
  | abort => exact sound.moved grows rfl True.intro (fun _ _ => rfl) rfl
  | commit | drop | advance => exact sound.same grows rfl rfl rfl
  | @store i ticket response at' =>
      have collected : s.PhaseSound sha256Hex request i (.collected ticket response) :=
        at' ▸ sound.phases i
      refine ⟨sound.phases_of_move grows rfl ⟨collected.1, collected.2, ?_⟩,
        fun t key cached answer => ?_, fun j member => ?_⟩
      · exact List.mem_append_right _ (List.mem_singleton_self _)
      · rcases TtlCache.peek_set answer with ⟨rfl, rfl⟩ | ⟨-, earlier⟩
        · exact ⟨ticket, Function.update_self .., rfl⟩
        · obtain ⟨owned, stored, same⟩ := sound.cached t key cached earlier
          exact ⟨owned, grows.answered stored, same⟩
      · rcases List.mem_append.mp member with earlier | latest
        · obtain ⟨owned, reply, stored⟩ := sound.completed j earlier
          exact ⟨owned, reply, grows.answered stored⟩
        · obtain rfl := List.mem_singleton.mp latest
          exact ⟨ticket, response, Function.update_self ..⟩

theorem run_sound {clock : ℚ} {threads : ThreadId → Option ChannelValues} {es : List (TurnEvent ι)}
    (taken : run (step sha256Hex request) (boot clock threads) es = some s) :
    Sound sha256Hex request s :=
  run_invariant (fun _ _ _ sound taken => sound.step (step_cases taken)) boot_sound taken

end

end Process

end DecisionMaker.Server
