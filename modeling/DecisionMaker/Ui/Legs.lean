import DecisionMaker.Ui.Controllers

/-!
# The events of a leg

`orchestrate_start` and `orchestrate_resume` turn the chunks of a stream into the events of the page,
which are dictionaries. A sentinel comes through the same channel as the chunks of the nodes. Of the
log lines there is only what they ask of a value: one takes the length of the final answer.
-/

namespace DecisionMaker.Ui.Legs

open DecisionMaker.Graph

structure PyError where
  typeName : String
  message : String
  deriving DecidableEq

def typeName : Value → String
  | .none => "NoneType"
  | .bool _ => "bool"
  | .int _ => "int"
  | .float _ => "float"
  | .str _ => "str"
  | .list _ => "list"
  | .dict _ => "dict"

def noAttribute (v : Value) (name : String) : PyError :=
  ⟨"AttributeError", "'" ++ typeName v ++ "' object has no attribute '" ++ name ++ "'"⟩

def noLength (v : Value) : PyError :=
  ⟨"TypeError", "object of type '" ++ typeName v ++ "' has no len()"⟩

inductive EventKind
  | sessionStarted | nodeStarted | nodeCompleted | stateSnapshot | coveRewrite | awaitingUser
  | resumeStarted | finalAnswer | error
  deriving DecidableEq

def EventKind.all : List EventKind :=
  [.sessionStarted, .nodeStarted, .nodeCompleted, .stateSnapshot, .coveRewrite, .awaitingUser,
    .resumeStarted, .finalAnswer, .error]

def EventKind.name : EventKind → String
  | .sessionStarted => "session_started"
  | .nodeStarted => "node_started"
  | .nodeCompleted => "node_completed"
  | .stateSnapshot => "state_snapshot"
  | .coveRewrite => "cove_rewrite"
  | .awaitingUser => "awaiting_user"
  | .resumeStarted => "resume_started"
  | .finalAnswer => "final_answer"
  | .error => "error"

def nodeCompletedEvent (nodeId : String) (stateDelta : Value) (threadId : String) : Dict :=
  [("kind", .str EventKind.nodeCompleted.name), ("node", .str nodeId), ("state_delta", stateDelta),
    ("thread_id", .str threadId)]

def stateSnapshotEvent (nodeId : String) (stateDelta : Value) (threadId : String) : Dict :=
  [("kind", .str EventKind.stateSnapshot.name), ("node", .str nodeId), ("state_snapshot", stateDelta),
    ("thread_id", .str threadId)]

def coveRewriteEvent (critiqueFeedback : Value) (threadId : String) : Dict :=
  [("kind", .str EventKind.coveRewrite.name), ("critique_feedback", critiqueFeedback),
    ("thread_id", .str threadId)]

def errorEvent (e : PyError) (threadId : String) : Dict :=
  [("kind", .str EventKind.error.name), ("error_message", .str (e.typeName ++ ": " ++ e.message)),
    ("thread_id", .str threadId)]

structure ChunkStream where
  chunks : List Dict
  raised : Option PyError

structure EventStream where
  events : List Dict
  raised : Option PyError

/-- What one of the two generators has of its own. -/
structure Leg where
  started : EventKind
  sentinelKey : String
  textKey : String
  terminal : EventKind
  terminalField : String
  -- what the log line behind the sentinel does with the text
  log : Value → Except PyError Unit

namespace Leg

def startedEvent (leg : Leg) (threadId : String) : Dict :=
  [("kind", .str leg.started.name), ("thread_id", .str threadId)]

def terminalEvent (leg : Leg) (text : Value) (threadId : String) : Dict :=
  [("kind", .str leg.terminal.name), (leg.terminalField, text), ("thread_id", .str threadId)]

def rewriteFields : Option UIEvent → Option Dict
  | some (.coveRewrite critiqueFeedback threadId) => some (coveRewriteEvent critiqueFeedback threadId)
  | _ => none

def rewriteEvent (nodeId : String) (stateDelta : Value) (threadId : String) :
    Except PyError (Option Dict) :=
  if nodeId = COVE_NODE_ID then
    match stateDelta with
    | .dict entries => .ok (rewriteFields (extractCoveRewriteEvent entries threadId))
    | other => .error (noAttribute other "get")
  else .ok none

def emit (events : List Dict) (stream : EventStream) : EventStream :=
  ⟨events ++ stream.events, stream.raised⟩

/-- The handler of the exceptions: one last event, and the exception again. -/
def fail (threadId : String) (e : PyError) : EventStream := ⟨[errorEvent e threadId], some e⟩

def finish (leg : Leg) (threadId : String) (text : Value) : EventStream :=
  match leg.log text with
  | .ok () => ⟨[leg.terminalEvent text threadId], none⟩
  | .error e => fail threadId e

def loop (leg : Leg) (threadId : String) (raised : Option PyError) : List Dict → EventStream
  | [] =>
      match raised with
      | some e => fail threadId e
      | none => ⟨[], none⟩
  | chunk :: chunks =>
      if (chunk.get leg.sentinelKey .none).truthy then
        leg.finish threadId (chunk.get leg.textKey (.str ""))
      else
        match chunk with
        | [] => loop leg threadId raised chunks
        | (nodeId, stateDelta) :: _ =>
            match rewriteEvent nodeId stateDelta threadId with
            | .error e => fail threadId e
            | .ok event =>
                emit (event.toList ++ [nodeCompletedEvent nodeId stateDelta threadId,
                    stateSnapshotEvent nodeId stateDelta threadId])
                  (loop leg threadId raised chunks)

def orchestrate (leg : Leg) (threadId : String) (stream : ChunkStream) : EventStream :=
  emit [leg.startedEvent threadId] (leg.loop threadId stream.raised stream.chunks)

def start : Leg where
  started := .sessionStarted
  sentinelKey := "__awaiting_user__"
  textKey := "last_question"
  terminal := .awaitingUser
  terminalField := "question"
  log _ := .ok ()

def resume : Leg where
  started := .resumeStarted
  sentinelKey := DONE_SENTINEL_KEY
  textKey := "final_answer"
  terminal := .finalAnswer
  terminalField := "final_answer"
  log finalAnswer :=
    match finalAnswer.len with
    | .ok _ => .ok ()
    | .error _ => .error (noLength finalAnswer)

end Leg

def orchestrateStart (threadId : String) (stream : ChunkStream) : EventStream :=
  Leg.start.orchestrate threadId stream

def orchestrateResume (threadId : String) (stream : ChunkStream) : EventStream :=
  Leg.resume.orchestrate threadId stream

inductive Ending
  | sentinel (text : String)
  | raised (e : PyError)

/-- Chunks of nodes and empty chunks, up to the sentinel of the leg or an exception. -/
structure LegStream (leg : Leg) where
  items : List (Option (String × Value))
  ending : Ending
  isNode : ∀ node delta, some (node, delta) ∈ items → node ≠ leg.sentinelKey
  isDelta : ∀ delta, some (COVE_NODE_ID, delta) ∈ items → ∃ entries, delta = .dict entries

def itemChunk : Option (String × Value) → Dict
  | none => []
  | some (node, delta) => [(node, delta)]

namespace LegStream

variable {leg : Leg}

def nodes (s : LegStream leg) : List (String × Value) := s.items.reduceOption

def closing (leg : Leg) (threadId : String) : Ending → ChunkStream
  | .sentinel text =>
      ⟨[[(leg.sentinelKey, .bool true), (leg.textKey, .str text), ("thread_id", .str threadId)]], none⟩
  | .raised e => ⟨[], some e⟩

def stream (s : LegStream leg) (threadId : String) : ChunkStream where
  chunks := s.items.map itemChunk ++ (closing leg threadId s.ending).chunks
  raised := (closing leg threadId s.ending).raised

end LegStream

inductive NodeEvents (threadId node : String) (delta : Value) : List Dict → Prop
  | plain : NodeEvents threadId node delta
      [nodeCompletedEvent node delta threadId, stateSnapshotEvent node delta threadId]
  | rewrite (critiqueFeedback : Value) (critique : node = COVE_NODE_ID) :
      NodeEvents threadId node delta [coveRewriteEvent critiqueFeedback threadId,
        nodeCompletedEvent node delta threadId, stateSnapshotEvent node delta threadId]

def Closes (leg : Leg) (threadId : String) (last : Dict) (raised : Option PyError) : Ending → Prop
  | .sentinel text => last = leg.terminalEvent (.str text) threadId ∧ raised = none
  | .raised e => last = errorEvent e threadId ∧ raised = some e

structure Grammatical {leg : Leg} (threadId : String) (s : LegStream leg) (run : EventStream) : Prop where
  events : ∃ blocks last, run.events = leg.startedEvent threadId :: blocks.flatten ++ [last] ∧
    List.Forall₂ (fun node block => NodeEvents threadId node.1 node.2 block) s.nodes blocks ∧
    Closes leg threadId last run.raised s.ending

theorem extractCoveRewriteEvent_cases (stateDelta : Dict) (threadId : String) :
    extractCoveRewriteEvent stateDelta threadId = none ∨
      ∃ critiqueFeedback, extractCoveRewriteEvent stateDelta threadId =
        some (.coveRewrite critiqueFeedback threadId) := by
  unfold extractCoveRewriteEvent
  dsimp only
  split_ifs
  · exact .inr ⟨_, rfl⟩
  · exact .inl rfl

namespace Leg

variable {leg : Leg} {threadId : String}

theorem emit_emit (events more : List Dict) (stream : EventStream) :
    emit events (emit more stream) = emit (events ++ more) stream := by
  simp only [emit, List.append_assoc]

section
variable {raised : Option PyError}

theorem loop_node {node : String} {delta : Value} {more : Dict} {event : Option Dict}
    (running : (Dict.get ((node, delta) :: more) leg.sentinelKey .none).truthy = false)
    (read : rewriteEvent node delta threadId = .ok event) (chunks : List Dict) :
    leg.loop threadId raised (((node, delta) :: more) :: chunks) =
      emit (event.toList ++ [nodeCompletedEvent node delta threadId,
        stateSnapshotEvent node delta threadId]) (leg.loop threadId raised chunks) := by
  simp only [loop, running, read, Bool.false_eq_true, if_false]

theorem rewriteEvent_read (threadId : String) {node : String} {delta : Value}
    (isDelta : node = COVE_NODE_ID → ∃ entries, delta = .dict entries) :
    ∃ event, rewriteEvent node delta threadId = .ok event ∧ NodeEvents threadId node delta
      (event.toList ++ [nodeCompletedEvent node delta threadId, stateSnapshotEvent node delta threadId]) := by
  by_cases critique : node = COVE_NODE_ID
  · obtain ⟨entries, same⟩ := isDelta critique
    cases same
    refine ⟨_, if_pos critique, ?_⟩
    rcases extractCoveRewriteEvent_cases entries threadId with silent | ⟨critiqueFeedback, asks⟩
    · rw [silent]
      exact .plain
    · rw [asks]
      exact .rewrite critiqueFeedback critique
  · exact ⟨none, if_neg critique, .plain⟩

theorem loop_items (items : List (Option (String × Value)))
    (isNode : ∀ node delta, some (node, delta) ∈ items → node ≠ leg.sentinelKey)
    (isDelta : ∀ delta, some (COVE_NODE_ID, delta) ∈ items → ∃ entries, delta = .dict entries)
    (chunks : List Dict) :
    ∃ blocks, leg.loop threadId raised (items.map itemChunk ++ chunks) =
        emit blocks.flatten (leg.loop threadId raised chunks) ∧
      List.Forall₂ (fun node block => NodeEvents threadId node.1 node.2 block) items.reduceOption blocks := by
  induction items with
  | nil => exact ⟨[], rfl, .nil⟩
  | cons item items ih =>
      obtain ⟨blocks, later, grammatical⟩ :=
        ih (fun node delta member => isNode node delta (.tail _ member))
          (fun delta member => isDelta delta (.tail _ member))
      cases item with
      | none => exact ⟨blocks, later, grammatical⟩
      | some entry =>
          obtain ⟨node, delta⟩ := entry
          have dict : node = COVE_NODE_ID → ∃ entries, delta = .dict entries := by
            intro critique
            exact isDelta delta (critique ▸ List.mem_cons_self)
          have running : (Dict.get [(node, delta)] leg.sentinelKey .none).truthy = false := by
            rw [Dict.get_cons, if_neg (isNode node delta List.mem_cons_self).symm]
            rfl
          obtain ⟨event, read, block⟩ := rewriteEvent_read threadId dict
          refine ⟨_ :: blocks, ?_, .cons block grammatical⟩
          rw [List.map_cons, List.cons_append, itemChunk, loop_node running read, later, emit_emit,
            List.flatten_cons]

end

theorem loop_closing (loggable : ∀ text, leg.log (.str text) = .ok ())
    (apart : leg.textKey ≠ leg.sentinelKey) (threadId : String) (ending : Ending) :
    ∃ last raised, leg.loop threadId (LegStream.closing leg threadId ending).raised
        (LegStream.closing leg threadId ending).chunks = ⟨[last], raised⟩ ∧
      Closes leg threadId last raised ending := by
  cases ending with
  | sentinel text =>
      refine ⟨leg.terminalEvent (.str text) threadId, none, ?_, rfl, rfl⟩
      simp [LegStream.closing, loop, Dict.get_cons, apart, finish, loggable]
  | raised e => exact ⟨_, _, rfl, rfl, rfl⟩

theorem orchestrate_grammatical (loggable : ∀ text, leg.log (.str text) = .ok ())
    (apart : leg.textKey ≠ leg.sentinelKey) (s : LegStream leg) (threadId : String) :
    Grammatical threadId s (leg.orchestrate threadId (s.stream threadId)) := by
  obtain ⟨last, raised, ends, closes⟩ := loop_closing loggable apart threadId s.ending
  obtain ⟨blocks, items, grammatical⟩ := loop_items s.items s.isNode s.isDelta
    (LegStream.closing leg threadId s.ending).chunks
  have run : leg.orchestrate threadId (s.stream threadId) =
      emit [leg.startedEvent threadId] (emit blocks.flatten ⟨[last], raised⟩) := by
    rw [← ends, ← items]
    rfl
  rw [run]
  exact ⟨blocks, last, rfl, grammatical, closes⟩

end Leg

def fields (describe : NodeError → PyError) : UIEvent → Dict
  | .resumeStarted threadId => Leg.resume.startedEvent threadId
  | .coveRewrite critiqueFeedback threadId => coveRewriteEvent critiqueFeedback threadId
  | .nodeCompleted node stateDelta threadId => nodeCompletedEvent node stateDelta threadId
  | .stateSnapshot node stateSnapshot threadId => stateSnapshotEvent node stateSnapshot threadId
  | .finalAnswer finalAnswer threadId => Leg.resume.terminalEvent finalAnswer threadId
  | .error e threadId => errorEvent (describe e) threadId

def Regular (chunk : Dict) : Prop :=
  (∃ length, (chunk.get "final_answer" (.str "")).len = .ok length) ∧
    ∀ delta, chunk.head? = some (COVE_NODE_ID, delta) → ∃ entries, delta = .dict entries

theorem rewriteEvent_fields (describe : NodeError → PyError) (threadId : String) {node : String}
    {delta : Value} (isDelta : node = COVE_NODE_ID → ∃ entries, delta = .dict entries) :
    ∃ event, coveEvent node delta threadId = .ok event ∧
      Leg.rewriteEvent node delta threadId = .ok (event.map (fields describe)) := by
  by_cases critique : node = COVE_NODE_ID
  · obtain ⟨entries, same⟩ := isDelta critique
    cases same
    refine ⟨extractCoveRewriteEvent entries threadId, if_pos critique, ?_⟩
    rw [Leg.rewriteEvent, if_pos critique]
    rcases extractCoveRewriteEvent_cases entries threadId with silent | ⟨critiqueFeedback, asks⟩
    · rw [silent]
      rfl
    · rw [asks]
      rfl
  · exact ⟨none, if_neg critique, if_neg critique⟩

theorem loop_fields (describe : NodeError → PyError) (threadId : String) (raised : Option NodeError)
    {chunks : List Dict} (regular : ∀ chunk ∈ chunks, Regular chunk) :
    (Leg.resume.loop threadId (raised.map describe) chunks).events =
      (streamLoop threadId raised chunks).map (fields describe) := by
  induction chunks with
  | nil => cases raised <;> rfl
  | cons chunk chunks ih =>
      obtain ⟨⟨⟨length, sized⟩, isDelta⟩, later⟩ := List.forall_mem_cons.mp regular
      by_cases done : (chunk.get DONE_SENTINEL_KEY .none).truthy
      · simp [Leg.loop, streamLoop, done, Leg.finish, Leg.resume, sized, fields]
      · cases chunk with
        | nil => exact ih later
        | cons entry more =>
            obtain ⟨node, delta⟩ := entry
            obtain ⟨event, old, read⟩ := rewriteEvent_fields describe threadId
              fun critique : node = COVE_NODE_ID => isDelta delta (critique ▸ rfl)
            rw [Leg.loop_node (eq_false_of_ne_true done) read, Leg.emit, ih later]
            simp only [streamLoop, done, old, Bool.false_eq_true, if_false, List.map_append, List.map_cons,
              fields, Option.toList_map, List.append_assoc, List.cons_append, List.nil_append]

theorem regular_nodeChunk (x : Exec) : Regular (nodeChunk x) := by
  have other : "final_answer" ≠ x.node.id := by cases x.node <;> decide
  refine ⟨⟨0, ?_⟩, ?_⟩
  · rw [nodeChunk, Dict.get_cons, if_neg other]
    rfl
  · intro delta first
    exact ⟨_, (congrArg Prod.snd (Option.some.inj first)).symm⟩

theorem regular_interruptChunk (executed : List Exec) : ∀ chunk ∈ interruptChunk executed, Regular chunk := by
  unfold interruptChunk
  split
  · intro chunk member
    cases List.mem_singleton.mp member
    exact ⟨⟨0, rfl⟩, by simp [COVE_NODE_ID]⟩
  · exact fun _ member => absurd member List.not_mem_nil

theorem regular_sentinelChunk (threadId : String) (sentinel : Sentinel) :
    Regular (sentinelChunk threadId sentinel) := by
  cases sentinel with
  | awaitingUser lastQuestion => exact ⟨⟨0, rfl⟩, by simp [sentinelChunk, COVE_NODE_ID]⟩
  | done finalAnswer => exact ⟨⟨finalAnswer.length, rfl⟩, by simp [sentinelChunk, COVE_NODE_ID]⟩

theorem regular_streamResumeSession (threadId : String) (record : CallRecord) :
    ∀ chunk ∈ (streamResumeSession threadId record).chunks, Regular chunk := by
  intro chunk member
  rcases List.mem_append.mp member with engine | last
  · rcases List.mem_append.mp engine with node | gate
    · obtain ⟨x, -, same⟩ := List.mem_map.mp node
      exact same ▸ regular_nodeChunk x
    · exact regular_interruptChunk record.executed chunk gate
  · obtain ⟨sentinel, -, same⟩ := Option.map_eq_some_iff.mp (Option.mem_toList.mp last)
    exact same ▸ regular_sentinelChunk threadId sentinel

theorem orchestrateResume_session (describe : NodeError → PyError) (threadId : String)
    (record : CallRecord) :
    (orchestrateResume threadId ⟨(streamResumeSession threadId record).chunks,
        (streamResumeSession threadId record).raised.map describe⟩).events =
      (Ui.orchestrateResume threadId (streamResumeSession threadId record)).map (fields describe) :=
  congrArg _ (loop_fields describe threadId _ (regular_streamResumeSession threadId record))

/-- Each leg speaks its grammar, and it ends the way its stream ends. -/
theorem orchestrate_grammar (threadId : String) (first : LegStream .start) (second : LegStream .resume) :
    Grammatical threadId first (orchestrateStart threadId (first.stream threadId)) ∧
      Grammatical threadId second (orchestrateResume threadId (second.stream threadId)) := by
  constructor
  · exact Leg.orchestrate_grammatical (fun _ => rfl) (by decide) first threadId
  · exact Leg.orchestrate_grammatical (fun _ => rfl) (by decide) second threadId

end DecisionMaker.Ui.Legs
