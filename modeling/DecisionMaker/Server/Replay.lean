import DecisionMaker.Library.Retention
import DecisionMaker.Server.AtMostOnce

namespace DecisionMaker.Server

open Library

namespace Process

section
variable {ι : Type*}

/-- The step may store other keys, and may serve them from the cache. -/
def UsesOnly (key : String) (others : Finset String) (s : Process ι) : TurnEvent ι → Prop
  | .lookup i => ∀ ticket, s.phase i = .keyed ticket →
      (s.cache.peek s.clock ticket.cacheKey).isSome → ticket.cacheKey = key ∨ ticket.cacheKey ∈ others
  | .store i => ∀ ticket response, s.phase i = .collected ticket response →
      ticket.cacheKey ≠ key ∧ ticket.cacheKey ∈ others
  | _ => True

def Keeps (entry : CacheEntry String (CachedTurn ι)) (others : Finset String) (s : Process ι) : Prop :=
  s.clock < entry.expires → s.cache.Recent entry others

variable [DecidableEq ι] {sha256Hex : String → String} {request : ι → Incoming} {s s' t : Process ι}
  {entry : CacheEntry String (CachedTurn ι)} {others : Finset String}

theorem Keeps.step {e : TurnEvent ι} (few : others.card < 10000) (keeps : s.Keeps entry others)
    (uses : UsesOnly entry.key others s e) (taken : Steps sha256Hex request s e s') :
    s'.Keeps entry others := by
  cases taken with
  | arriveNew | arriveKnown | arriveUnknown | count | collect | refuse | abort | commit | drop => exact keeps
  | hit at' answer | miss at' answer => exact fun live => (keeps live).get (uses _ at')
  | store at' =>
      obtain ⟨other, counted⟩ := uses _ _ at'
      exact fun live => (keeps live).set live other counted few
  | advance forward => exact fun live => keeps ((le_add_of_nonneg_right forward).trans_lt live)

/-- A retry within the time to live is answered with the response that the turn has stored, and the
graph is not run for it, however many other turns there were in between and however they interleaved. -/
theorem retry_served {i j : ι} {ticket asked : Ticket} {response : TurnResponse}
    {es : List (TurnEvent ι)} (collected : s.phase i = .collected ticket response)
    (stored : s.step sha256Hex request (.store i) = some s')
    (taken : run (step sha256Hex request) s' es = some t) (few : others.card < 10000)
    (uses : EachStep (step sha256Hex request) (UsesOnly ticket.cacheKey others) s' es)
    (asks : t.phase j = .keyed asked) (same : asked.cacheKey = ticket.cacheKey)
    (early : t.clock < s.clock + 600) :
    ∃ u, t.step sha256Hex request (.lookup j) = some u ∧
      u.phase j = .answered asked response (some i) ∧ u.runs = t.runs := by
  have start : s'.Keeps ⟨ticket.cacheKey, ⟨response, i⟩, s.clock + 600⟩ others := by
    cases step_cases stored with
    | store at' =>
        cases collected.symm.trans at'
        exact fun _ => TtlCache.recent_set
  have keeps : t.Keeps ⟨ticket.cacheKey, ⟨response, i⟩, s.clock + 600⟩ others :=
    run_invariant_of (fun _ _ _ keeps uses taken => keeps.step few uses (step_cases taken)) start uses taken
  have answer : t.cache.peek t.clock asked.cacheKey = some ⟨response, i⟩ := by
    rw [same]
    exact (keeps early).peek early
  exact ⟨_, step_hit asks answer, Function.update_self .., rfl⟩

end

def thirdId : ThreadId := ⟨"77777777777777777777777777777777", by decide⟩

def retriedRequest (i : Nat) : Incoming :=
  if i = 2 then { body := hello, idempotencyKey := some "other-0001" } else helloOnce

/-- The third request runs and is stored while the retry is under way, which is late in the time to live. -/
def retried : List (TurnEvent (Nat)) :=
  [.arrive 2 thirdId, .count 2, .arrive 1 secondId, .lookup 2, .advance 599, .count 1, .collect 2 question, .store 2]

theorem retry_served_after : ∃ r s t u response,
    run (step (fun raw => raw) retriedRequest) (boot 0 fun _ => none)
      [.arrive 0 firstId, .count 0, .lookup 0, .collect 0 question] = some r ∧
    r.step (fun raw => raw) retriedRequest (.store 0) = some s ∧
    run (step (fun raw => raw) retriedRequest) s retried = some t ∧ t.completed.length = 2 ∧
    t.step (fun raw => raw) retriedRequest (.lookup 1) = some u ∧
    u.phase 1 = .answered ⟨secondId, 0, "retry-0001"⟩ response (some 0) ∧ u.runs = t.runs := by
  obtain ⟨r, s, t, response, first, collected, stored, taken, both, asks, started, now, uses⟩ :
      ∃ (r s t : Process (Nat)) (response : TurnResponse),
        run (step (fun raw => raw) retriedRequest) (boot 0 fun _ => none)
          [.arrive 0 firstId, .count 0, .lookup 0, .collect 0 question] = some r ∧
        r.phase 0 = .collected ⟨firstId, 0, "retry-0001"⟩ response ∧
        r.step (fun raw => raw) retriedRequest (.store 0) = some s ∧
        run (step (fun raw => raw) retriedRequest) s retried = some t ∧ t.completed.length = 2 ∧
        t.phase 1 = .keyed ⟨secondId, 0, "retry-0001"⟩ ∧ r.clock = 0 ∧ t.clock = 599 ∧
        EachStep (step (fun raw => raw) retriedRequest) (UsesOnly "retry-0001" {"other-0001"}) s retried := by
    refine ⟨_, _, _, _, rfl, rfl, rfl, rfl, rfl, rfl, rfl, zero_add 599, ?_⟩
    iterate 3 refine .cons rfl True.intro ?_
    refine .cons rfl (fun ticket keyed _ => ?_) ?_
    · obtain rfl := TurnPhase.keyed.inj (show TurnPhase.keyed ⟨thirdId, 0, "other-0001"⟩ = _ from keyed)
      exact .inr (Finset.mem_singleton_self _)
    iterate 3 refine .cons rfl True.intro ?_
    refine ⟨fun ticket response collected => ?_, fun _ _ => True.intro⟩
    obtain ⟨rfl, -⟩ := TurnPhase.collected.inj
      (show TurnPhase.collected ⟨thirdId, 0, "other-0001"⟩ _ = _ from collected)
    exact ⟨by decide, Finset.mem_singleton_self _⟩
  obtain ⟨u, looked, answered, runs⟩ :=
    retry_served collected stored taken (by decide) uses asks rfl (by norm_num [started, now])
  exact ⟨r, s, t, u, response, first, stored, taken, both, looked, answered, runs⟩

end Process

end DecisionMaker.Server
