import DecisionMaker.Server.Ledger

namespace DecisionMaker.Server

open Library

namespace Process

section
variable {ι : Type*}

def runsFor (s : Process ι) (key : String) : List (ι × String) :=
  s.runs.filter fun entry => entry.2 = key

theorem mem_runsFor {s : Process ι} {key : String} {i : ι} :
    (i, key) ∈ s.runsFor key ↔ (i, key) ∈ s.runs := by
  simp [runsFor]

theorem runsFor_concat {s s' : Process ι} {key : String} {i : ι}
    (runs : s'.runs = s.runs ++ [(i, key)]) : s'.runsFor key = s.runsFor key ++ [(i, key)] := by
  simp [runsFor, runs]

theorem runsFor_concat_of_ne {s s' : Process ι} {key other : String} {i : ι} (ne : other ≠ key)
    (runs : s'.runs = s.runs ++ [(i, other)]) : s'.runsFor key = s.runsFor key := by
  simp [runsFor, runs, ne]

structure AtMostOnce (key : String) (s : Process ι) : Prop where
  runs : (s.runsFor key).length ≤ 1
  bodies : ∀ {i j ticket ticket' response response' servedBy servedBy'},
    s.phase i = .answered ticket response servedBy → ticket.cacheKey = key →
    s.phase j = .answered ticket' response' servedBy' → ticket'.cacheKey = key →
    response = response'

/-- No response for the key is lost before the deadline: its TTL is not over by then, and no store
finds the cache full. -/
def KeepsUntil (key : String) (deadline : ℚ) (s : Process ι) (e : TurnEvent ι) : Prop :=
  s.clock ≤ deadline ∧
    ∀ i ticket response, e = .store i → s.phase i = .collected ticket response →
      s.cache.size s.clock < 10000 ∧ (ticket.cacheKey = key → deadline < s.clock + 600)

def Settled (key : String) (s : Process ι) (e : TurnEvent ι) : Prop :=
  ∀ i ticket, e = .lookup i → s.phase i = .keyed ticket → ticket.cacheKey = key →
    ∀ j, (j, key) ∈ s.runs → ∃ owned response, s.Stored j owned response ∧ owned.cacheKey = key

theorem AtMostOnce.unique {s : Process ι} {key : String} (few : (s.runsFor key).length ≤ 1) {i j : ι}
    (ran : (i, key) ∈ s.runs) (ran' : (j, key) ∈ s.runs) : i = j := by
  have first := mem_runsFor.mpr ran
  have second := mem_runsFor.mpr ran'
  cases runs : s.runsFor key with
  | nil => simp [runs] at first
  | cons entry rest =>
      obtain rfl : rest = [] := by simpa [runs] using few
      rw [runs, List.mem_singleton] at first second
      exact congrArg Prod.fst (first.trans second.symm)

variable {sha256Hex : String → String} {request : ι → Incoming} {key : String} {deadline : ℚ}
  {s s' : Process ι}

theorem Sound.origin (sound : Sound sha256Hex request s) {i : ι} {ticket : Ticket}
    {response : TurnResponse} {servedBy : Option ι}
    (answered : s.phase i = .answered ticket response servedBy) :
    ∃ j owned, s.Stored j owned response ∧ (j, ticket.cacheKey) ∈ s.runs := by
  have phase := sound.phases i
  rw [answered] at phase
  cases servedBy with
  | none => exact ⟨i, ticket, answered, phase.2.1⟩
  | some j =>
      obtain ⟨-, owned, stored, same⟩ := phase
      have owner : s.PhaseSound sha256Hex request j (.answered owned response none) :=
        stored ▸ sound.phases j
      exact ⟨j, owned, stored, same ▸ owner.2.1⟩

theorem Sound.atMostOnce (sound : Sound sha256Hex request s) (few : (s.runsFor key).length ≤ 1) :
    AtMostOnce key s where
  runs := few
  bodies := by
    intro i j ticket ticket' response response' servedBy servedBy' answered own answered' same
    subst own
    obtain ⟨k, owned, stored, ran⟩ := sound.origin answered
    obtain ⟨k', owned', stored', ran'⟩ := sound.origin answered'
    obtain rfl := AtMostOnce.unique few ran (same ▸ ran')
    cases stored.symm.trans stored'
    rfl

structure Once (sha256Hex : String → String) (request : ι → Incoming) (key : String) (deadline : ℚ)
    (s : Process ι) : Prop where
  sound : Sound sha256Hex request s
  runs : (s.runsFor key).length ≤ 1
  kept : ∀ i ticket response, s.Stored i ticket response → ticket.cacheKey = key →
    (s.cache.peek deadline key).isSome

theorem Once.first (once : Once sha256Hex request key deadline s) (early : s.clock ≤ deadline)
    (miss : s.cache.peek s.clock key = none)
    (settled : ∀ j, (j, key) ∈ s.runs → ∃ owned response, s.Stored j owned response ∧
      owned.cacheKey = key) : s.runsFor key = [] := by
  rw [List.eq_nil_iff_forall_not_mem]
  intro ⟨j, other⟩ ran
  obtain rfl : other = key := by simpa [runsFor] using (List.mem_filter.mp ran).2
  obtain ⟨owned, response, stored, same⟩ := settled j (mem_runsFor.mp ran)
  obtain ⟨cached, answer⟩ := Option.isSome_iff_exists.mp (once.kept j owned response stored same)
  rw [TtlCache.peek_mono early answer] at miss
  cases miss

theorem Once.runs_of_eq (once : Once sha256Hex request key deadline s) (runs : s'.runs = s.runs) :
    (s'.runsFor key).length ≤ 1 := by
  simpa only [runsFor, runs] using once.runs

theorem Once.same (once : Once sha256Hex request key deadline s) (sound : Sound sha256Hex request s')
    (runs : s'.runs = s.runs)
    (stored : ∀ i ticket response, s'.Stored i ticket response → s.Stored i ticket response)
    (cache : s'.cache.peek deadline key = s.cache.peek deadline key) :
    Once sha256Hex request key deadline s' where
  sound
  runs := once.runs_of_eq runs
  kept i ticket response later same := cache ▸ once.kept i ticket response (stored _ _ _ later) same

variable [DecidableEq ι]

theorem stored_of_move {i j : ι} {phase : TurnPhase ι} {ticket : Ticket} {response : TurnResponse}
    (moved : s'.phase = Function.update s.phase i phase)
    (pending : ∀ ticket response, phase ≠ .answered ticket response none)
    (stored : s'.Stored j ticket response) : s.Stored j ticket response := by
  unfold Stored at stored
  rw [moved] at stored
  by_cases same : j = i
  · subst same
    rw [Function.update_self] at stored
    exact absurd stored (pending _ _)
  · rwa [Function.update_of_ne same] at stored

theorem Once.step {e : TurnEvent ι} (once : Once sha256Hex request key deadline s)
    (keeps : KeepsUntil key deadline s e) (settled : Settled key s e)
    (taken : Steps sha256Hex request s e s') : Once sha256Hex request key deadline s' := by
  have sound := once.sound.step taken
  cases taken with
  | arriveNew | arriveKnown | arriveUnknown | count | collect | refuse | abort =>
      exact once.same sound rfl (fun _ _ _ => stored_of_move rfl (by simp)) rfl
  | commit | drop | advance => exact once.same sound rfl (fun _ _ _ => id) rfl
  | hit => exact once.same sound rfl (fun _ _ _ => stored_of_move rfl (by simp)) TtlCache.peek_get
  | @miss i ticket at' answer =>
      refine ⟨sound, ?_, fun j owned response stored same => ?_⟩
      · by_cases same : ticket.cacheKey = key
        · subst same
          have first := once.first keeps.1 answer (settled i ticket rfl at' rfl)
          rw [runsFor_concat rfl, first]
          exact Nat.le_refl 1
        · rw [runsFor_concat_of_ne same rfl]
          exact once.runs
      · rw [TtlCache.peek_get]
        exact once.kept j owned response (stored_of_move rfl (by simp) stored) same
  | @store i ticket response at' =>
      obtain ⟨early, within⟩ := keeps
      obtain ⟨room, fresh⟩ := within i ticket response rfl at'
      refine ⟨sound, once.runs_of_eq rfl, fun j owned reply stored same => ?_⟩
      by_cases hit : ticket.cacheKey = key
      · subst hit
        exact Option.isSome_iff_exists.mpr ⟨_, TtlCache.peek_set_self (fresh rfl)⟩
      · have ne : j ≠ i := by
          intro same'
          subst same'
          cases (Function.update_self ..).symm.trans stored
          exact hit same
        have earlier : s.Stored j owned reply := (Function.update_of_ne ne ..).symm.trans stored
        obtain ⟨cached, answer⟩ := Option.isSome_iff_exists.mp (once.kept j owned reply earlier same)
        exact Option.isSome_iff_exists.mpr
          ⟨cached, TtlCache.peek_set_of_ne room (Ne.symm hit) early answer⟩

theorem AtMostOnce.before {e : TurnEvent ι} (taken : Steps sha256Hex request s e s')
    (once : AtMostOnce key s') : AtMostOnce key s where
  runs := ((taken.grows.runs.filter _).length_le).trans once.runs
  bodies answered same answered' same' :=
    once.bodies (taken.grows.answered answered) same (taken.grows.answered answered') same'

theorem Once.broken {e : TurnEvent ι} (once : Once sha256Hex request key deadline s)
    (unsettled : ¬ Settled key s e) (taken : Steps sha256Hex request s e s') :
    ¬ AtMostOnce key s' := by
  simp only [Settled, not_forall] at unsettled
  obtain ⟨i, ticket, rfl, at', rfl, j, ran, open'⟩ := unsettled
  cases taken with
  | hit at'' answer =>
      obtain rfl := TurnPhase.keyed.inj (at'.symm.trans at'')
      obtain ⟨owned, stored, same⟩ := once.sound.cached _ _ _ answer
      obtain rfl := AtMostOnce.unique once.runs (once.sound.owner answer).1 ran
      exact absurd ⟨owned, _, stored, same⟩ open'
  | miss at'' =>
      obtain rfl := TurnPhase.keyed.inj (at'.symm.trans at'')
      intro again
      have first := List.length_pos_of_mem (mem_runsFor.mpr ran)
      have second := again.runs
      rw [runsFor_concat rfl, List.length_append, List.length_singleton] at second
      omega

/-- The graph is run at most once for a key, with one body for all its requests, exactly when every
lookup of the key comes after the run of the graph for it, if there has been one, has stored. -/
theorem atMostOnce_iff (clock : ℚ) (threads : ThreadId → Option ChannelValues)
    {es : List (TurnEvent ι)} (key : String) (deadline : ℚ)
    (keeps : EachStep (step sha256Hex request) (KeepsUntil key deadline) (boot clock threads) es)
    (taken : run (step sha256Hex request) (boot clock threads) es = some s) :
    AtMostOnce key s ↔ EachStep (step sha256Hex request) (Settled key) (boot clock threads) es := by
  refine run_iff_eachStep (I := Once sha256Hex request key deadline)
    (fun s e s' once keeps settled taken => once.step keeps settled (step_cases taken))
    (fun s once => once.sound.atMostOnce once.runs)
    (fun s e s' taken => AtMostOnce.before (step_cases taken))
    (fun s e s' once keeps unsettled taken => once.broken unsettled (step_cases taken))
    ⟨boot_sound, Nat.zero_le _, ?_⟩ keeps taken
  intro i ticket response stored
  cases stored

end

def hello : TurnRequest := { message := "hello", minLength := by decide, maxLength := by decide }

def helloOnce : Incoming := { body := hello, idempotencyKey := some "retry-0001" }

def firstId : ThreadId := ⟨"11111111111111111111111111111111", by decide⟩

def secondId : ThreadId := ⟨"22222222222222222222222222222222", by decide⟩

def question : Graph.Sentinel := .awaitingUser (.str "What matters most?")

theorem atMostOnce_iff_replay :
    ∃ s, run (step (fun raw => raw) fun _ : Bool => helloOnce) (boot 0 fun _ => none)
        [.arrive false firstId, .count false, .lookup false, .collect false question, .store false,
          .arrive true secondId, .count true, .lookup true] = some s ∧
      (AtMostOnce "retry-0001" s ↔
        EachStep (step (fun raw => raw) fun _ : Bool => helloOnce) (Settled "retry-0001")
          (boot 0 fun _ => none)
          [.arrive false firstId, .count false, .lookup false, .collect false question,
            .store false, .arrive true secondId, .count true, .lookup true]) := by
  have keeps {s : Process Bool} {e : TurnEvent Bool} (now : s.clock = 0)
      (few : s.cache.entries.length ≤ 1) : KeepsUntil "retry-0001" 0 s e :=
    ⟨now.le, fun _ _ _ _ _ => ⟨by have := s.cache.size_le s.clock; omega, fun _ => by norm_num [now]⟩⟩
  obtain ⟨s, taken⟩ := Option.isSome_iff_exists.mp (by decide +kernel : (run
    (step (fun raw => raw) fun _ : Bool => helloOnce) (boot 0 fun _ => none)
    [.arrive false firstId, .count false, .lookup false, .collect false question, .store false,
      .arrive true secondId, .count true, .lookup true]).isSome)
  refine ⟨s, taken, atMostOnce_iff 0 _ "retry-0001" 0 ?_ taken⟩
  iterate 7 refine .cons rfl (keeps rfl (by decide)) ?_
  exact ⟨keeps rfl (by decide), fun _ _ => True.intro⟩

theorem overlapping_duplicates_run_twice :
    ¬ ∃ sha256Hex, ∀ (es : List (TurnEvent Bool)) (s : Process Bool),
      EachStep (step sha256Hex fun _ => helloOnce) (KeepsUntil "retry-0001" 0)
        (boot 0 fun _ => none) es →
      run (step sha256Hex fun _ => helloOnce) (boot 0 fun _ => none) es = some s →
      AtMostOnce "retry-0001" s := by
  intro ⟨sha256Hex, all⟩
  have keeps {s : Process Bool} {e : TurnEvent Bool} (now : s.clock = 0)
      (other : ∀ i, e ≠ .store i) : KeepsUntil "retry-0001" 0 s e :=
    ⟨now.le, fun i _ _ store => absurd store (other i)⟩
  have once := (all [.arrive false firstId, .arrive true secondId, .count false, .count true,
    .lookup false, .lookup true] _ ?_ rfl).runs
  · exact Nat.not_succ_le_self 1 once
  · iterate 6 refine .cons rfl (keeps rfl nofun) ?_
    exact True.intro

end Process

end DecisionMaker.Server
