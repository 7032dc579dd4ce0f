import DecisionMaker.Graph.SearchLoop

namespace DecisionMaker.Graph

open Library

def contextAnalyzer.needsData (parsed : Dict) : Bool := (parsed.get "needs_data" (.bool false)).truthy

def contextAnalyzer.readyForWeights (parsed : Dict) : Bool :=
  (parsed.get "ready_for_weights" (.bool false)).truthy

def contextAnalyzer.asksSearch (parsed : Dict) : Bool :=
  contextAnalyzer.needsData parsed && match parsed.get "search_queries" (.list []) with
    | .list items => !items.isEmpty
    | _ => false

def intendedRoute (parsed : Dict) : Except NodeError ContextRoute :=
  if contextAnalyzer.needsData parsed && contextAnalyzer.readyForWeights parsed then
    .error .doubleTrueError
  else .ok (if contextAnalyzer.asksSearch parsed then .tool else .questioner)

def analyzeAndRoute (raw : String) (parsed : Dict) (state : DecisionMakerState)
    (explicitNeedsData explicitReadyForWeights : Value) : Except NodeError ContextRoute := do
  let update ← contextAnalyzer (.fixed raw parsed) state
  routeFromContext (state.merge update) explicitNeedsData explicitReadyForWeights

/-- The reply does not set both flags, and where it asks for data its queries are a list or falsy. -/
def LawfulReply (parsed : Dict) : Prop :=
  ¬ (contextAnalyzer.needsData parsed = true ∧ contextAnalyzer.readyForWeights parsed = true) ∧
    (contextAnalyzer.needsData parsed = true →
      (parsed.get "search_queries" (.list [])).truthy = true →
        ∃ items, parsed.get "search_queries" (.list []) = .list items)

structure FlagsAgree (parsed : Dict) (explicitNeedsData explicitReadyForWeights : Value) : Prop where
  sized : contextAnalyzer.needsData parsed = true → ∃ n, (Analyst.queries parsed).len = .ok n
  guarded : (explicitNeedsData.truthy = true ∧ explicitReadyForWeights.truthy = true) ↔
    (contextAnalyzer.needsData parsed = true ∧ contextAnalyzer.readyForWeights parsed = true)
  searches : ¬ (contextAnalyzer.needsData parsed = true ∧
      contextAnalyzer.readyForWeights parsed = true) →
    explicitNeedsData.truthy = contextAnalyzer.asksSearch parsed

section
variable {raw : String} {parsed : Dict} {state : DecisionMakerState} {needs ready : Value}

theorem analyzeAndRoute_eq : analyzeAndRoute raw parsed state needs ready =
    routeFromContext (state.merge (contextAnalyzer.stateWrite parsed)) needs ready := rfl

theorem analyzeAndRoute_unflagged (absent : needs = .none ∨ ready = .none) :
    analyzeAndRoute raw parsed state needs ready =
      if contextAnalyzer.needsData parsed then
        (fun n => if 0 < n then .tool else .questioner) <$> (Analyst.queries parsed).len
      else .ok .questioner := by
  have unread : routeFromContext (state.merge (contextAnalyzer.stateWrite parsed)) needs ready =
      routeFromContext (state.merge (contextAnalyzer.stateWrite parsed)) := by
    rcases absent with rfl | rfl
    · rfl
    · cases needs <;> rfl
  rw [analyzeAndRoute_eq, unread, routeFromContext_analyzed]
  rfl

def flaggedRoute (needs ready : Value) : Except NodeError ContextRoute :=
  if needs.truthy && ready.truthy then .error .doubleTrueError
  else .ok (if needs.truthy then .tool else .questioner)

theorem analyzeAndRoute_flagged (first : needs ≠ .none) (second : ready ≠ .none) :
    analyzeAndRoute raw parsed state needs ready =
      if contextAnalyzer.needsData parsed then
        (Analyst.queries parsed).len >>= fun _ => flaggedRoute needs ready
      else flaggedRoute needs ready := by
  have written : (state.merge (contextAnalyzer.stateWrite parsed)).isDataSufficient.getD false =
      !contextAnalyzer.needsData parsed := rfl
  rw [analyzeAndRoute_eq]
  cases asked : contextAnalyzer.needsData parsed with
  | false =>
      rw [asked] at written
      simp only [routeFromContext, written, flaggedRoute]
      cases needs.truthy <;> cases ready.truthy <;> rfl
  | true =>
      have queries : getOr (state.merge (contextAnalyzer.stateWrite parsed)).searchQueries (.list []) =
          Analyst.queries parsed := by
        simp only [contextAnalyzer.needsData] at asked
        simp [DecisionMakerState.merge, contextAnalyzer.stateWrite, asked, getOr, Analyst.queries]
      rw [asked] at written
      simp only [routeFromContext, written, queries, flaggedRoute]
      cases (Analyst.queries parsed).len <;> cases needs.truthy <;> cases ready.truthy <;> rfl

end

theorem route_of_queries (queries : Value) :
    ((fun n => if 0 < n then ContextRoute.tool else .questioner) <$> (queries.orElse (.list [])).len =
        .ok (if (match queries with
          | .list items => !items.isEmpty
          | _ => false) = true then .tool else .questioner)) ↔
      (queries.truthy = true → ∃ items, queries = .list items) := by
  cases truth : queries.truthy with
  | false =>
      have empty : queries.orElse (.list []) = .list [] := by simp [Value.orElse, truth]
      rw [empty]
      cases queries with
      | list items =>
          have none : items = [] := by simpa using truth
          simp [none, Value.len, Functor.map, Except.map]
      | _ => simp [Value.len, Functor.map, Except.map]
  | true =>
      have kept : queries.orElse (.list []) = queries := by simp [Value.orElse, truth]
      rw [kept]
      cases queries with
      | list items =>
          have some : items ≠ [] := by simpa using truth
          simp [Value.len, Functor.map, Except.map, List.length_pos_iff, some]
      | str text =>
          have some : 0 < text.length := by
            rw [Nat.pos_iff_ne_zero, ne_eq, String.length_eq_zero_iff]
            simpa using truth
          simp [Value.len, Functor.map, Except.map, some]
      | dict entries =>
          have some : 0 < entries.length := by
            rw [List.length_pos_iff]
            simpa [Value.truthy] using truth
          simp [Value.len, Functor.map, Except.map, some]
      | _ => simp [Value.len, Functor.map, Except.map]

section
variable {parsed : Dict}

theorem len_ne_doubleTrueError (v : Value) {α : Type} (f : Nat → α) :
    f <$> v.len ≠ .error .doubleTrueError := by
  cases v <;> simp [Value.len, Functor.map, Except.map]

theorem analyzeAndRoute_ne_doubleTrueError (raw : String) (state : DecisionMakerState)
    {needs ready : Value} (absent : needs = .none ∨ ready = .none) :
    analyzeAndRoute raw parsed state needs ready ≠ .error .doubleTrueError := by
  rw [analyzeAndRoute_unflagged absent]
  split_ifs
  · exact len_ne_doubleTrueError _ _
  · simp

theorem unflagged_lawful_iff :
    (if contextAnalyzer.needsData parsed then
        (fun n => if 0 < n then ContextRoute.tool else .questioner) <$> (Analyst.queries parsed).len
      else .ok .questioner) = intendedRoute parsed ↔ LawfulReply parsed := by
  cases needs : contextAnalyzer.needsData parsed with
  | false => simp [intendedRoute, LawfulReply, needs, contextAnalyzer.asksSearch]
  | true =>
      cases ready : contextAnalyzer.readyForWeights parsed with
      | true => simp [intendedRoute, LawfulReply, needs, ready, len_ne_doubleTrueError]
      | false =>
          have routed := route_of_queries (parsed.get "search_queries" (.list []))
          simpa [intendedRoute, LawfulReply, needs, ready, contextAnalyzer.asksSearch,
            Analyst.queries] using routed

theorem flaggedRoute_eq_intended_iff {needs ready : Value} :
    flaggedRoute needs ready = intendedRoute parsed ↔
      ((needs.truthy = true ∧ ready.truthy = true) ↔
        (contextAnalyzer.needsData parsed = true ∧ contextAnalyzer.readyForWeights parsed = true)) ∧
      (¬ (contextAnalyzer.needsData parsed = true ∧ contextAnalyzer.readyForWeights parsed = true) →
        needs.truthy = contextAnalyzer.asksSearch parsed) := by
  unfold flaggedRoute intendedRoute
  cases needs.truthy <;> cases ready.truthy <;> cases contextAnalyzer.needsData parsed <;>
    cases contextAnalyzer.readyForWeights parsed <;> cases contextAnalyzer.asksSearch parsed <;> simp

theorem routingLaw_iff (raw : String) (parsed : Dict) (state : DecisionMakerState)
    (explicitNeedsData explicitReadyForWeights : Value) :
    analyzeAndRoute raw parsed state explicitNeedsData explicitReadyForWeights = intendedRoute parsed ↔
      ((explicitNeedsData = .none ∨ explicitReadyForWeights = .none) → LawfulReply parsed) ∧
        (explicitNeedsData ≠ .none → explicitReadyForWeights ≠ .none →
          FlagsAgree parsed explicitNeedsData explicitReadyForWeights) := by
  by_cases absent : explicitNeedsData = .none ∨ explicitReadyForWeights = .none
  · rw [analyzeAndRoute_unflagged absent, unflagged_lawful_iff]
    constructor
    · exact fun lawful => ⟨fun _ => lawful, fun first second => absurd absent (not_or.mpr ⟨first, second⟩)⟩
    · exact fun both => both.1 absent
  · obtain ⟨first, second⟩ := not_or.mp absent
    have agree : FlagsAgree parsed explicitNeedsData explicitReadyForWeights ↔
        (contextAnalyzer.needsData parsed = true → ∃ n, (Analyst.queries parsed).len = .ok n) ∧
          flaggedRoute explicitNeedsData explicitReadyForWeights = intendedRoute parsed := by
      rw [flaggedRoute_eq_intended_iff]
      exact ⟨fun flags => ⟨flags.sized, flags.guarded, flags.searches⟩,
        fun flags => ⟨flags.1, flags.2.1, flags.2.2⟩⟩
    have routed : analyzeAndRoute raw parsed state explicitNeedsData explicitReadyForWeights =
        intendedRoute parsed ↔ FlagsAgree parsed explicitNeedsData explicitReadyForWeights := by
      rw [agree, analyzeAndRoute_flagged first second]
      cases needs : contextAnalyzer.needsData parsed with
      | false => simp
      | true =>
          cases sized : (Analyst.queries parsed).len with
          | ok n => simp [bind, Except.bind]
          | error e =>
              have other : (.error e : Except NodeError ContextRoute) ≠ intendedRoute parsed := by
                intro same
                unfold intendedRoute at same
                split_ifs at same
                cases same
                apply len_ne_doubleTrueError (Analyst.queries parsed) id
                rw [sized]
                rfl
              simpa [bind, Except.bind] using other
    rw [routed]
    constructor
    · exact fun flags => ⟨fun none => absurd none absent, fun _ _ => flags⟩
    · exact fun both => both.2 first second

end

def doubleTrueReply : Dict :=
  [("needs_data", .bool true), ("ready_for_weights", .bool true),
    ("search_queries", .list [.str "mortgage rates"])]

theorem double_true_searches :
    analyzeAndRoute "" doubleTrueReply {} .none .none = .ok .tool ∧
      ¬ analyzeAndRoute "" doubleTrueReply {} .none .none = intendedRoute doubleTrueReply := by
  have searches : analyzeAndRoute "" doubleTrueReply {} .none .none = .ok .tool := rfl
  refine ⟨searches, fun lawful => ?_⟩
  rw [searches] at lawful
  cases lawful

end DecisionMaker.Graph
