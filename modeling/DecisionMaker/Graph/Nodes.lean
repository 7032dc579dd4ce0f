import DecisionMaker.Graph.State

namespace DecisionMaker.Graph

inductive Prompt
  | contextAnalyzer (userInput : String) (toolFacts : List Value)
  | weightQuestioner (userInput : String) (dilemma : Value) (toolFacts : List Value)
  | weightParser (lastQuestion : Value) (userAnswer : String)
  | draftGenerator (userInput : String) (dilemma weights : Value) (toolFacts : List Value)
      (critiqueFeedback : Value)
  | coveCritique (userInput : String) (dilemma weights : Value) (toolFacts : List Value)
      (draftAnalysis : String) (rewriteCount : Int)
  | finalSynthesizer (verifiedDraft userInput : String) (dilemma weights : Value)
  deriving Inhabited

/-- What a node calls: the LLM (its reply as `_invoke_llm_async` returns it), the reply parser and
the search. A world is fixed for one node execution, so an LLM that is no function of its prompt
is a sequence of worlds. -/
structure World where
  invokeLlmAsync : Prompt → Except NodeError String
  safeJsonParse : String → Except NodeError Dict
  searchFn : Value → Except NodeError (List Value)

def World.fixed (raw : String) (parsed : Dict) (facts : List Value := []) : World where
  invokeLlmAsync _ := .ok raw
  safeJsonParse _ := .ok parsed
  searchFn _ := .ok facts

def contextAnalyzer.stateWrite (parsed : Dict) : DecisionMakerState :=
  let needsData := (parsed.get "needs_data" (.bool false)).truthy
  { dilemma := some (parsed.get "dilemma" (.str ""))
    isDataSufficient := some (!needsData)
    searchQueries := some (if needsData then parsed.get "search_queries" (.list []) else .list []) }

def contextAnalyzer (w : World) (state : DecisionMakerState) : Except NodeError DecisionMakerState := do
  let raw ← w.invokeLlmAsync
    (.contextAnalyzer (state.userInput.getD "") (state.toolFacts.getD []))
  let parsed ← w.safeJsonParse raw
  return contextAnalyzer.stateWrite parsed

def toolNode (w : World) (state : DecisionMakerState) : Except NodeError DecisionMakerState := do
  let queries := getOr state.searchQueries (.list [])
  -- the entry log takes the length before anything is searched
  let _ ← queries.len
  let existingFacts := state.toolFacts.getD []
  let coros ← queries.iter
  let gatheredResults ← coros.mapM w.searchFn
  return { toolFacts := some (existingFacts ++ gatheredResults.flatten) }

def weightQuestioner.stateWrite (parsed : Dict) : DecisionMakerState :=
  { lastQuestion := some (parsed.get "last_question" (.str "")) }

def weightQuestioner (w : World) (state : DecisionMakerState) : Except NodeError DecisionMakerState := do
  let raw ← w.invokeLlmAsync
    (.weightQuestioner (state.userInput.getD "") (getOr state.dilemma (.str ""))
      (state.toolFacts.getD []))
  let parsed ← w.safeJsonParse raw
  return weightQuestioner.stateWrite parsed

def weightParser.stateWrite (parsed : Dict) : DecisionMakerState :=
  let assumptions := (parsed.get "assumptions" .none).orElse (.str "")
  { weights := some ((parsed.get "weights" .none).orElse (.dict []))
    assumptions := if assumptions.truthy then some assumptions else none }

def weightParser (w : World) (state : DecisionMakerState) : Except NodeError DecisionMakerState := do
  let raw ← w.invokeLlmAsync
    (.weightParser (getOr state.lastQuestion (.str "")) (state.userAnswer.getD ""))
  let parsed ← w.safeJsonParse raw
  return weightParser.stateWrite parsed

def draftGenerator (w : World) (state : DecisionMakerState) : Except NodeError DecisionMakerState := do
  let raw ← w.invokeLlmAsync
    (.draftGenerator (state.userInput.getD "") (getOr state.dilemma (.str ""))
      (getOr state.weights (.dict [])) (state.toolFacts.getD [])
      (getOr state.critiqueFeedback (.str "")))
  return { draftAnalysis := some raw }

def coveCritique.needsRewrite (currentRewriteCount : Int) (parsed : Dict) : Bool :=
  let needsRewrite := (parsed.get "needs_rewrite" (.bool false)).truthy
  if currentRewriteCount ≥ 2 then false else needsRewrite

theorem coveCritique.needsRewrite_capped (count : Int) (parsed : Dict) :
    coveCritique.needsRewrite count parsed =
      (decide (count < 2) && (parsed.get "needs_rewrite" (.bool false)).truthy) := by
  by_cases capped : count < 2
  · simp [coveCritique.needsRewrite, capped]
  · simp [coveCritique.needsRewrite, capped, Int.not_lt.mp capped]

def coveCritique.stateWrite (currentRewriteCount : Int) (parsed : Dict) : DecisionMakerState :=
  { critiqueFeedback := some ((parsed.get "critique_feedback" .none).orElse (.str ""))
    rewriteCount := some
      (if coveCritique.needsRewrite currentRewriteCount parsed then currentRewriteCount + 1
        else currentRewriteCount) }

def coveCritique (w : World) (state : DecisionMakerState) : Except NodeError DecisionMakerState := do
  let currentRewriteCount := state.rewriteCount.getD 0
  let raw ← w.invokeLlmAsync
    (.coveCritique (state.userInput.getD "") (getOr state.dilemma (.str ""))
      (getOr state.weights (.dict [])) (state.toolFacts.getD [])
      (state.draftAnalysis.getD "") currentRewriteCount)
  let parsed ← w.safeJsonParse raw
  return coveCritique.stateWrite currentRewriteCount parsed

def finalSynthesizer (w : World) (state : DecisionMakerState) : Except NodeError DecisionMakerState := do
  let raw ← w.invokeLlmAsync
    (.finalSynthesizer (state.draftAnalysis.getD "") (state.userInput.getD "")
      (getOr state.dilemma (.str "")) (getOr state.weights (.dict [])))
  return { finalAnswer := some raw }

inductive ContextRoute
  | tool
  | questioner
  deriving DecidableEq, Repr

/-- The two explicit flags are keys that only a direct caller can put into the state: they are no
channels of the graph, so in a run of the graph both are absent. -/
def routeFromContext (state : DecisionMakerState)
    (explicitNeedsData explicitReadyForWeights : Value := .none) :
    Except NodeError ContextRoute := do
  let searchQueries := getOr state.searchQueries (.list [])
  let needsData ←
    if state.isDataSufficient.getD false then pure false
    else (fun n => decide (0 < n)) <$> searchQueries.len
  let needsData ←
    match explicitNeedsData, explicitReadyForWeights with
    | .none, _ | _, .none => pure needsData
    | needs, ready =>
        if needs.truthy && ready.truthy then throw .doubleTrueError else pure needs.truthy
  return if needsData then .tool else .questioner

inductive CritiqueRoute
  | rewrite
  | finalize
  deriving DecidableEq, Repr

def routeFromCritique (state : DecisionMakerState) : CritiqueRoute :=
  let critiqueFeedback := getOr state.critiqueFeedback (.str "")
  let rewriteCount := state.rewriteCount.getD 0
  if critiqueFeedback.truthy && rewriteCount < 2 then .rewrite else .finalize

theorem routeFromContext_congr {s t : DecisionMakerState}
    (sufficient : s.isDataSufficient = t.isDataSufficient)
    (queries : s.searchQueries = t.searchQueries) :
    routeFromContext s = routeFromContext t := by
  simp only [routeFromContext, sufficient, queries]

theorem routeFromCritique_congr {s t : DecisionMakerState}
    (feedback : s.critiqueFeedback = t.critiqueFeedback)
    (count : s.rewriteCount = t.rewriteCount) :
    routeFromCritique s = routeFromCritique t := by
  simp only [routeFromCritique, feedback, count]

theorem routeFromCritique_eq_rewrite {s : DecisionMakerState} :
    routeFromCritique s = .rewrite ↔
      (s.critiqueFeedback.getD .none).truthy = true ∧ s.rewriteCount.getD 0 < 2 := by
  simp [routeFromCritique]

theorem routeFromCritique_eq_finalize {s : DecisionMakerState} :
    routeFromCritique s = .finalize ↔
      ((s.critiqueFeedback.getD .none).truthy = true → 2 ≤ s.rewriteCount.getD 0) := by
  have other : routeFromCritique s = .finalize ↔ ¬ routeFromCritique s = .rewrite := by
    cases routeFromCritique s <;> simp
  rw [other, routeFromCritique_eq_rewrite, not_and, Int.not_lt]

end DecisionMaker.Graph
