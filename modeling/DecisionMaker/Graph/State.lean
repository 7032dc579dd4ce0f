import DecisionMaker.Value

namespace DecisionMaker.Graph

/-- Fields that a node copies from the parsed reply of the LLM hold any JSON value. -/
structure DecisionMakerState where
  userInput : Option String := none
  dilemma : Option Value := none
  weights : Option Value := none
  toolFacts : Option (List Value) := none
  lastQuestion : Option Value := none
  draftAnalysis : Option String := none
  critiqueFeedback : Option Value := none
  rewriteCount : Option Int := none
  isDataSufficient : Option Bool := none
  userAnswer : Option String := none
  searchQueries : Option Value := none
  finalAnswer : Option String := none
  assumptions : Option Value := none
  deriving Inhabited

namespace DecisionMakerState

def merge (s update : DecisionMakerState) : DecisionMakerState where
  userInput := update.userInput.or s.userInput
  dilemma := update.dilemma.or s.dilemma
  weights := update.weights.or s.weights
  toolFacts := update.toolFacts.or s.toolFacts
  lastQuestion := update.lastQuestion.or s.lastQuestion
  draftAnalysis := update.draftAnalysis.or s.draftAnalysis
  critiqueFeedback := update.critiqueFeedback.or s.critiqueFeedback
  rewriteCount := update.rewriteCount.or s.rewriteCount
  isDataSufficient := update.isDataSufficient.or s.isDataSufficient
  userAnswer := update.userAnswer.or s.userAnswer
  searchQueries := update.searchQueries.or s.searchQueries
  finalAnswer := update.finalAnswer.or s.finalAnswer
  assumptions := update.assumptions.or s.assumptions

def initial (userInput : String) : DecisionMakerState where
  userInput := some userInput
  toolFacts := some []
  rewriteCount := some 0

def answer (userAnswer : String) : DecisionMakerState where
  userAnswer := some userAnswer

theorem merge_answer_eq {s : DecisionMakerState} {a : String} (given : s.userAnswer = some a) :
    s.merge (answer a) = s := by
  cases s
  simp_all [merge, answer]

@[simp] theorem merge_answer_userAnswer (s : DecisionMakerState) (a : String) :
    (s.merge (answer a)).userAnswer = some a := rfl

@[simp] theorem merge_answer_critiqueFeedback (s : DecisionMakerState) (a : String) :
    (s.merge (answer a)).critiqueFeedback = s.critiqueFeedback := rfl

@[simp] theorem merge_answer_rewriteCount (s : DecisionMakerState) (a : String) :
    (s.merge (answer a)).rewriteCount = s.rewriteCount := rfl

@[simp] theorem merge_answer_isDataSufficient (s : DecisionMakerState) (a : String) :
    (s.merge (answer a)).isDataSufficient = s.isDataSufficient := rfl

@[simp] theorem merge_answer_searchQueries (s : DecisionMakerState) (a : String) :
    (s.merge (answer a)).searchQueries = s.searchQueries := rfl

@[simp] theorem merge_answer_finalAnswer (s : DecisionMakerState) (a : String) :
    (s.merge (answer a)).finalAnswer = s.finalAnswer := rfl

end DecisionMakerState

def DecisionMakerState.channels (s : DecisionMakerState) : List (String × Value) :=
  [("user_input", s.userInput.map Value.str), ("dilemma", s.dilemma), ("weights", s.weights),
   ("tool_facts", s.toolFacts.map Value.list), ("last_question", s.lastQuestion),
   ("draft_analysis", s.draftAnalysis.map Value.str), ("critique_feedback", s.critiqueFeedback),
   ("rewrite_count", s.rewriteCount.map Value.int),
   ("is_data_sufficient", s.isDataSufficient.map Value.bool),
   ("user_answer", s.userAnswer.map Value.str), ("search_queries", s.searchQueries),
   ("final_answer", s.finalAnswer.map Value.str), ("assumptions", s.assumptions)].filterMap
    fun channel => channel.2.map fun value => (channel.1, value)

def DecisionMakerState.fieldNames : List String :=
  ["user_input", "dilemma", "weights", "tool_facts", "last_question", "draft_analysis",
   "critique_feedback", "rewrite_count", "is_data_sufficient", "user_answer", "search_queries",
   "final_answer", "assumptions"]

theorem DecisionMakerState.channel_declared {s : DecisionMakerState} {name : String}
    (member : name ∈ s.channels.map Prod.fst) : name ∈ fieldNames := by
  simp only [channels, List.mem_map, List.mem_filterMap, Option.map_eq_some_iff] at member
  obtain ⟨channel, ⟨field, declared, value, -, rfl⟩, rfl⟩ := member
  have named := List.mem_map_of_mem (f := Prod.fst) declared
  exact named

theorem DecisionMakerState.messages_not_channel (s : DecisionMakerState) :
    "messages" ∉ s.channels.map Prod.fst := by
  intro member
  have declared := channel_declared member
  simp [fieldNames] at declared

theorem DecisionMakerState.get_undeclared (s : DecisionMakerState) {name : String}
    (undeclared : name ∉ fieldNames) (default : Value) :
    Dict.get s.channels name default = default := by
  have absent : List.lookup name s.channels = none := by
    rw [List.lookup_eq_none_iff]
    intro channel member
    have other : name ≠ channel.1 := by
      rintro rfl
      exact undeclared (channel_declared (List.mem_map_of_mem member))
    simpa using other
  rw [Dict.get, absent, Option.getD_none]

end DecisionMaker.Graph
