import DecisionMaker.Graph.Counter
import DecisionMaker.Graph.FreshStart
import DecisionMaker.Server.Turn

namespace DecisionMaker.Value

def isStr : Value → Bool
  | .str _ => true
  | _ => false

-- `bool` is a subclass of `int`
def isInt : Value → Bool
  | .bool _ | .int _ => true
  | _ => false

def isOptionalStr : Value → Bool
  | .none | .str _ => true
  | _ => false

def isOptionalWeights : Value → Bool
  | .none => true
  | .dict entries => entries.all fun entry => entry.2.isInt
  | _ => false

def isOptionalStrList : Value → Bool
  | .none => true
  | .list items => items.all isStr
  | _ => false

end DecisionMaker.Value

namespace DecisionMaker.Graph

open Library

/-- The annotations of the fields that hold a value of the reply; the other fields carry theirs in
the type of the record. -/
structure DecisionMakerState.Typed (s : DecisionMakerState) : Prop where
  dilemma : ∀ v ∈ s.dilemma, v.isOptionalStr = true
  weights : ∀ v ∈ s.weights, v.isOptionalWeights = true
  lastQuestion : ∀ v ∈ s.lastQuestion, v.isOptionalStr = true
  critiqueFeedback : ∀ v ∈ s.critiqueFeedback, v.isOptionalStr = true
  searchQueries : ∀ v ∈ s.searchQueries, v.isOptionalStrList = true
  assumptions : ∀ v ∈ s.assumptions, v.isOptionalStr = true

theorem forall_mem_or {P : Value → Prop} {old : Option Value} (new : Option Value)
    (kept : ∀ v ∈ old, P v) :
    (∀ v ∈ new.or old, P v) ↔ ∀ v ∈ new, P v := by
  cases new with
  | none => simpa using kept
  | some v => simp

namespace DecisionMakerState

theorem typed_empty : Typed {} := by
  constructor <;> intro v written <;> cases written

theorem Typed.merge {s : DecisionMakerState} (typed : s.Typed) (update : DecisionMakerState) :
    (s.merge update).Typed ↔ update.Typed := by
  have dilemma := forall_mem_or update.dilemma typed.dilemma
  have weights := forall_mem_or update.weights typed.weights
  have lastQuestion := forall_mem_or update.lastQuestion typed.lastQuestion
  have critiqueFeedback := forall_mem_or update.critiqueFeedback typed.critiqueFeedback
  have searchQueries := forall_mem_or update.searchQueries typed.searchQueries
  have assumptions := forall_mem_or update.assumptions typed.assumptions
  constructor
  · intro merged
    exact ⟨dilemma.mp merged.dilemma, weights.mp merged.weights,
      lastQuestion.mp merged.lastQuestion, critiqueFeedback.mp merged.critiqueFeedback,
      searchQueries.mp merged.searchQueries, assumptions.mp merged.assumptions⟩
  · intro written
    exact ⟨dilemma.mpr written.dilemma, weights.mpr written.weights,
      lastQuestion.mpr written.lastQuestion, critiqueFeedback.mpr written.critiqueFeedback,
      searchQueries.mpr written.searchQueries, assumptions.mpr written.assumptions⟩

theorem typed_initial (userInput : String) : (initial userInput).Typed := by
  constructor <;> intro v written <;> cases written

theorem typed_answer (userAnswer : String) : (answer userAnswer).Typed := by
  constructor <;> intro v written <;> cases written

end DecisionMakerState

/-- What a reply must give for the writes of the node to be typed: a value that the node passes
through `or` may also be falsy. -/
def Node.TypedReply (parsed : Dict) : Node → Prop
  | .contextAnalyzer =>
      (parsed.get "dilemma" (.str "")).isOptionalStr = true ∧
        ((parsed.get "needs_data" (.bool false)).truthy = true →
          (parsed.get "search_queries" (.list [])).isOptionalStrList = true)
  | .weightQuestioner => (parsed.get "last_question" (.str "")).isOptionalStr = true
  | .weightParser =>
      ((parsed.get "weights" .none).truthy = true →
          (parsed.get "weights" .none).isOptionalWeights = true) ∧
        ((parsed.get "assumptions" .none).truthy = true →
          (parsed.get "assumptions" .none).isOptionalStr = true)
  | .coveCritique =>
      (parsed.get "critique_feedback" .none).truthy = true →
        (parsed.get "critique_feedback" .none).isOptionalStr = true
  | .toolNode | .draftGenerator | .finalSynthesizer => True

def Node.reply (w : World) (s : DecisionMakerState) (n : Node) : Option (Except NodeError Dict) :=
  (n.prompt s).map fun prompt => w.invokeLlmAsync prompt >>= w.safeJsonParse

def Exec.TypedReply (w : World) (x : Exec) : Prop :=
  ∀ parsed, x.node.reply w x.read = some (.ok parsed) → x.node.TypedReply parsed

theorem typed_orElse_iff {v d : Value} {P : Value → Bool} (default : P d = true) :
    P (v.orElse d) = true ↔ (v.truthy = true → P v = true) := by
  unfold Value.orElse
  split_ifs with truth <;> simp [truth, default]

section
variable {parsed : Dict}

theorem contextAnalyzer.stateWrite_typed :
    (contextAnalyzer.stateWrite parsed).Typed ↔ Node.contextAnalyzer.TypedReply parsed := by
  constructor
  · intro typed
    refine ⟨typed.dilemma _ rfl, fun needs => ?_⟩
    have queries := typed.searchQueries _ rfl
    rwa [if_pos needs] at queries
  · intro reply
    obtain ⟨dilemma, queries⟩ := reply
    constructor
    case dilemma => intro v written; cases written; exact dilemma
    case searchQueries =>
      intro v written
      cases written
      split_ifs with needs
      · exact queries needs
      · rfl
    all_goals intro v written; cases written

theorem weightQuestioner.stateWrite_typed :
    (weightQuestioner.stateWrite parsed).Typed ↔ Node.weightQuestioner.TypedReply parsed := by
  constructor
  · exact fun typed => typed.lastQuestion _ rfl
  · intro reply
    constructor
    case lastQuestion => intro v written; cases written; exact reply
    all_goals intro v written; cases written

theorem weightParser.stateWrite_typed :
    (weightParser.stateWrite parsed).Typed ↔ Node.weightParser.TypedReply parsed := by
  have weights := typed_orElse_iff (v := parsed.get "weights" .none) (d := .dict [])
    (P := Value.isOptionalWeights) rfl
  have assumptions := typed_orElse_iff (v := parsed.get "assumptions" .none) (d := .str "")
    (P := Value.isOptionalStr) rfl
  constructor
  · intro typed
    refine ⟨weights.mp (typed.weights _ rfl), fun truth => assumptions.mp ?_ truth⟩
    apply typed.assumptions
    simp [weightParser.stateWrite, truth]
  · intro reply
    constructor
    case weights => intro v written; cases written; exact weights.mpr reply.1
    case assumptions =>
      intro v written
      simp only [weightParser.stateWrite, Option.mem_def, Option.ite_none_right_eq_some,
        Option.some.injEq] at written
      rw [← written.2]
      exact assumptions.mpr reply.2
    all_goals intro v written; cases written

theorem coveCritique.stateWrite_typed (count : Int) :
    (coveCritique.stateWrite count parsed).Typed ↔ Node.coveCritique.TypedReply parsed := by
  have feedback := typed_orElse_iff (v := parsed.get "critique_feedback" .none) (d := .str "")
    (P := Value.isOptionalStr) rfl
  constructor
  · exact fun typed => feedback.mp (typed.critiqueFeedback _ rfl)
  · intro reply
    constructor
    case critiqueFeedback => intro v written; cases written; exact feedback.mpr reply
    all_goals intro v written; cases written

end

section
variable {n : Node} {w : World} {s u : DecisionMakerState}

theorem Node.written_typed {prompt : Prompt} {write : Dict → DecisionMakerState}
    (asks : n.prompt s = some prompt)
    (ran : (w.invokeLlmAsync prompt >>= fun raw => write <$> w.safeJsonParse raw) = .ok u)
    (writes : ∀ parsed, (write parsed).Typed ↔ n.TypedReply parsed) :
    u.Typed ↔ ∀ parsed, n.reply w s = some (.ok parsed) → n.TypedReply parsed := by
  obtain ⟨raw, invoked, wrote⟩ := bind_eq_ok.mp ran
  cases parses : w.safeJsonParse raw with
  | error e => rw [parses] at wrote; cases wrote
  | ok parsed =>
      rw [parses] at wrote
      cases wrote
      have reply : n.reply w s = some (.ok parsed) := by
        rw [Node.reply, asks, Option.map_some, invoked]
        exact congrArg some parses
      simp only [reply, Option.some.injEq, Except.ok.injEq, forall_eq', writes]

theorem Node.run_typed (ran : n.run w s = .ok u) :
    u.Typed ↔ ∀ parsed, n.reply w s = some (.ok parsed) → n.TypedReply parsed := by
  cases n with
  | contextAnalyzer => exact written_typed rfl ran fun _ => contextAnalyzer.stateWrite_typed
  | weightQuestioner => exact written_typed rfl ran fun _ => weightQuestioner.stateWrite_typed
  | weightParser => exact written_typed rfl ran fun _ => weightParser.stateWrite_typed
  | coveCritique => exact written_typed rfl ran fun _ => coveCritique.stateWrite_typed _
  | toolNode | draftGenerator | finalSynthesizer =>
      refine iff_of_true ?_ fun _ _ => True.intro
      obtain ⟨_, rfl⟩ := Node.run_writes ran
      constructor <;> intro v written <;> cases written

end

section
variable {cp cp' : Checkpoint} {w : World} {n : Node} {x : Exec}

theorem Checkpoint.commit_typed (action : cp.commit w n = .ok (x, cp')) (typed : cp.values.Typed) :
    cp'.values.Typed ↔ x.TypedReply w := by
  obtain ⟨node, read, ran, -, values⟩ := commit_ok.mp action
  rw [values, typed.merge, Node.run_typed ran, Exec.TypedReply, node, read]

def TypedLeg (worlds : List World) (cp : Checkpoint) : Prop :=
  ∀ k, (astream (worlds.take k) cp).checkpoint.values.Typed

def RepliesTyped (worlds : List World) (cp : Checkpoint) : Prop :=
  ∀ p ∈ worlds.zip (astream worlds cp).executed, p.2.TypedReply p.1

theorem TypedLeg.iff_here (typed : cp.values.Typed) {worlds : List World} :
    TypedLeg worlds cp ↔ ∀ k, (astream (worlds.take (k + 1)) cp).checkpoint.values.Typed := by
  constructor
  · exact fun states k => states (k + 1)
  · intro states k
    cases k with
    | zero =>
        rw [List.take_zero]
        exact typed
    | succ k => exact states k

theorem typedLeg_iff (worlds : List World) (typed : cp.values.Typed) :
    TypedLeg worlds cp ↔ RepliesTyped worlds cp := by
  induction worlds generalizing cp with
  | nil => simpa [TypedLeg, RepliesTyped, astream] using typed
  | cons w worlds ih =>
      rw [TypedLeg.iff_here typed, RepliesTyped]
      simp only [List.take_succ_cons]
      cases pending : cp.next with
      | none => simpa [astream_finished pending] using typed
      | some n =>
          cases action : cp.commit w n with
          | error e => simpa [astream_raised pending action] using typed
          | ok result =>
              obtain ⟨x, cp'⟩ := result
              have here := Checkpoint.commit_typed action typed
              by_cases gate : n ∈ interruptAfter
              · simp [astream_interrupted pending action gate, here]
              · simp only [astream_committed pending action gate, LegResult.cons_checkpoint,
                  LegResult.cons_executed, List.zip_cons_cons, List.forall_mem_cons, ← here]
                constructor
                · intro states
                  have typed := states 0
                  rw [List.take_zero] at typed
                  exact ⟨typed, (ih typed).mp states⟩
                · intro replies
                  exact (ih replies.1).mpr replies.2

end

def Thread.Typed (t : Thread) : Prop := ∀ cp ∈ t.checkpoint, cp.values.Typed

theorem Thread.Typed.entry {t : Thread} (typed : t.Typed) (c : Call) :
    (c.entry t.checkpoint).values.Typed := by
  have stored : (t.checkpoint.getD .empty).values.Typed := by
    cases found : t.checkpoint with
    | none => exact DecisionMakerState.typed_empty
    | some cp => exact typed cp found
  cases c with
  | start userInput => exact (stored.merge _).mpr (DecisionMakerState.typed_initial userInput)
  | resume userAnswer => exact (stored.merge _).mpr (DecisionMakerState.typed_answer userAnswer)

theorem Call.sentinel_string {values : DecisionMakerState} (typed : values.Typed) (c : Call) :
    (∃ question, c.sentinel values = .awaitingUser (.str question)) ∨
      ∃ answer, c.sentinel values = .done answer := by
  cases c with
  | resume => exact .inr ⟨_, rfl⟩
  | start =>
      refine .inl ?_
      cases written : values.lastQuestion with
      | none => exact ⟨"", by simp [Call.sentinel, written, getOr, Value.orElse]⟩
      | some v =>
          have declared := typed.lastQuestion v written
          cases v with
          | none => exact ⟨"", by simp [Call.sentinel, written, getOr, Value.orElse]⟩
          | str question =>
              simp only [Call.sentinel, written, getOr, Option.getD_some, Value.orElse]
              split_ifs
              · exact ⟨question, rfl⟩
              · exact ⟨"", rfl⟩
          | _ => cases declared

end DecisionMaker.Graph

namespace DecisionMaker.Server

open Library DecisionMaker.Graph

/-- What one call on a thread owes: typed states throughout its leg, and a reply that `handle_turn`
can build from the sentinel it delivers. -/
structure TypedCall (t : Thread) (attempt : Attempt) : Prop where
  states : TypedLeg attempt.worlds (attempt.call.entry t.checkpoint)
  response : ∀ sentinel ∈ (t.record attempt).sentinel, ∀ threadId turnN elapsed,
    (buildResponse threadId turnN sentinel elapsed).isSome = true

def TypedReplies (t : Thread) (attempt : Attempt) : Prop :=
  RepliesTyped attempt.worlds (attempt.call.entry t.checkpoint)

abbrev EachCall (P : Thread → Attempt → Prop) : List Attempt → Prop :=
  EachStep (fun t attempt => some (t.perform attempt)) P {}

theorem buildResponse_isSome {values : DecisionMakerState} (typed : values.Typed) (c : Call)
    (threadId : ThreadId) (turnN : Nat) (elapsed : ℚ) :
    (buildResponse threadId turnN (c.sentinel values) elapsed).isSome = true := by
  rcases c.sentinel_string typed with ⟨question, asked⟩ | ⟨answer, done⟩
  · rw [asked]
    rfl
  · rw [done]
    rfl

theorem typedCall_iff {t : Thread} (typed : t.Typed) (attempt : Attempt) :
    TypedCall t attempt ↔ TypedReplies t attempt := by
  have leg := typedLeg_iff attempt.worlds (typed.entry attempt.call)
  constructor
  · exact fun call => leg.mp call.states
  · intro replies
    have states := leg.mpr replies
    refine ⟨states, fun sentinel delivered threadId turnN elapsed => ?_⟩
    obtain ⟨-, -, rfl⟩ := Thread.record_sentinel.mp delivered
    have final := states attempt.worlds.length
    rw [List.take_length] at final
    exact buildResponse_isSome final _ _ _ _

theorem TypedReplies.perform {t : Thread} {attempt : Attempt} (typed : t.Typed)
    (replies : TypedReplies t attempt) : (t.perform attempt).Typed := by
  intro cp stored
  rw [Thread.perform_checkpoint, Option.mem_some] at stored
  have final := ((typedCall_iff typed attempt).mpr replies).states attempt.worlds.length
  rwa [List.take_length, stored] at final

/-- In every history the states keep their declared types and the replies can be built exactly when
every parsed reply that was written is typed. -/
theorem typedHistory_iff (history : List Attempt) :
    EachCall TypedCall history ↔ EachCall TypedReplies history := by
  apply EachStep.congr_of (I := Thread.Typed)
  · exact fun t attempt typed => typedCall_iff typed attempt
  · intro t attempt t' typed replies performed
    cases performed
    exact replies.perform typed
  · intro cp stored
    cases stored

def listedQuestion : List Attempt :=
  [⟨.start "Buy or rent?",
    [.fixed "" [], .fixed "" [("last_question", .list [.str "How long will you stay?"])]], true⟩]

theorem listed_question_unanswered :
    (∀ threadId turnN elapsed, ((Thread.after listedQuestion).log.map fun record =>
      record.sentinel.map fun sentinel => buildResponse threadId turnN sentinel elapsed) =
        [some none]) ∧
    ¬ EachCall TypedCall listedQuestion := by
  refine ⟨fun _ _ _ => rfl, fun typed => ?_⟩
  have state := (typed.1.states 2).lastQuestion _ rfl
  cases state

end DecisionMaker.Server
