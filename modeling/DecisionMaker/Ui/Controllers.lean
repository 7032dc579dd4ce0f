import DecisionMaker.Graph.Counter

namespace DecisionMaker.Ui

open DecisionMaker.Graph

inductive UIEvent
  | resumeStarted (threadId : String)
  | coveRewrite (critiqueFeedback : Value) (threadId : String)
  | nodeCompleted (node : String) (stateDelta : Value) (threadId : String)
  | stateSnapshot (node : String) (stateSnapshot : Value) (threadId : String)
  | finalAnswer (finalAnswer : Value) (threadId : String)
  | error (errorMessage : NodeError) (threadId : String)

def COVE_NODE_ID : String := "5_CoVe_Critique"
def DONE_SENTINEL_KEY : String := "__done__"

def extractCoveRewriteEvent (stateDelta : Dict) (threadId : String) : Option UIEvent :=
  let decision := (stateDelta.get "decision" .none).orElse (stateDelta.get "needs_rewrite" .none)
  let critiqueFeedback := stateDelta.get "critique_feedback" (.str "")
  let isRewriteDecision :=
    match decision with
    | .str s => s == "rewrite"
    | .bool b => b
    | _ => false
  if isRewriteDecision && critiqueFeedback.truthy then some (.coveRewrite critiqueFeedback threadId)
  else none

def coveEvent (nodeId : String) (stateDelta : Value) (threadId : String) :
    Except NodeError (Option UIEvent) :=
  if nodeId = COVE_NODE_ID then
    match stateDelta with
    | .dict entries => .ok (extractCoveRewriteEvent entries threadId)
    | _ => .error .typeError
  else .ok none

/-- What the consumer sees of a stream: its chunks, and the exception it ends with, if any. -/
structure Stream where
  chunks : List Dict
  raised : Option NodeError

def streamLoop (threadId : String) (raised : Option NodeError) : List Dict → List UIEvent
  | [] => (raised.map fun e => .error e threadId).toList
  | chunk :: chunks =>
      if (chunk.get DONE_SENTINEL_KEY .none).truthy then
        [.finalAnswer (chunk.get "final_answer" (.str "")) threadId]
      else
        match chunk with
        | [] => streamLoop threadId raised chunks
        | (nodeId, stateDelta) :: _ =>
            match coveEvent nodeId stateDelta threadId with
            | .error e => [.error e threadId]
            | .ok event =>
                event.toList ++ .nodeCompleted nodeId stateDelta threadId ::
                  .stateSnapshot nodeId stateDelta threadId :: streamLoop threadId raised chunks

def orchestrateResume (threadId : String) (stream : Stream) : List UIEvent :=
  .resumeStarted threadId :: streamLoop threadId stream.raised stream.chunks

def nodeChunk (x : Exec) : Dict := [(x.node.id, .dict x.update.channels)]

def sentinelChunk (threadId : String) : Sentinel → Dict
  | .awaitingUser lastQuestion =>
      [("__awaiting_user__", .bool true), ("last_question", lastQuestion), ("thread_id", .str threadId)]
  | .done finalAnswer =>
      [("__done__", .bool true), ("final_answer", .str finalAnswer), ("thread_id", .str threadId)]

/-- Where a leg stops behind the gate, the engine says so in a chunk of its own. -/
def interruptChunk (executed : List Exec) : List Dict :=
  if executed.getLast?.any fun x => x.node ∈ interruptAfter then [[("__interrupt__", .list [])]] else []

def streamResumeSession (threadId : String) (record : CallRecord) : Stream where
  chunks := record.executed.map nodeChunk ++ interruptChunk record.executed ++
    (record.sentinel.map (sentinelChunk threadId)).toList
  raised :=
    match record.status with
    | .raised e => some e
    | .ended | .cut => none

def UIEvent.isCoveRewrite : UIEvent → Bool
  | .coveRewrite _ _ => true
  | _ => false

def dueEvents (threadId : String) (x : Exec) : List UIEvent :=
  (if x.node = .coveCritique ∧ x.route = .rewrite then
      [.coveRewrite (x.update.critiqueFeedback.getD .none) threadId]
    else []) ++
  [.nodeCompleted x.node.id (.dict x.update.channels) threadId,
   .stateSnapshot x.node.id (.dict x.update.channels) threadId]

def OneEventPerRewrite (threadId : String) (record : CallRecord) : Prop :=
  ∃ rest, orchestrateResume threadId (streamResumeSession threadId record) =
      .resumeStarted threadId :: record.executed.flatMap (dueEvents threadId) ++ rest ∧
    ∀ event ∈ rest, event.isCoveRewrite = false

theorem extractCoveRewriteEvent_update (update : DecisionMakerState) (threadId : String) :
    extractCoveRewriteEvent update.channels threadId = none := by
  -- no node writes either of the two fields that are read
  have decision : Dict.get update.channels "decision" .none = .none :=
    update.get_undeclared (by decide) .none
  have rewrite : Dict.get update.channels "needs_rewrite" .none = .none :=
    update.get_undeclared (by decide) .none
  simp [extractCoveRewriteEvent, decision, rewrite, Value.orElse]

section
variable {threadId : String} {raised : Option NodeError}

theorem streamLoop_silent {nodeId : String} {stateDelta : Value} {more : Dict}
    (running : (Dict.get ((nodeId, stateDelta) :: more) DONE_SENTINEL_KEY .none).truthy = false)
    (silent : coveEvent nodeId stateDelta threadId = .ok none) (chunks : List Dict) :
    streamLoop threadId raised (((nodeId, stateDelta) :: more) :: chunks) =
      .nodeCompleted nodeId stateDelta threadId :: .stateSnapshot nodeId stateDelta threadId ::
        streamLoop threadId raised chunks := by
  simp [streamLoop, running, silent]

theorem streamLoop_nodeChunk (x : Exec) (chunks : List Dict) :
    streamLoop threadId raised (nodeChunk x :: chunks) =
      .nodeCompleted x.node.id (.dict x.update.channels) threadId ::
        .stateSnapshot x.node.id (.dict x.update.channels) threadId ::
          streamLoop threadId raised chunks := by
  apply streamLoop_silent
  · cases x.node <;> simp [Node.id, Dict.get_cons, DONE_SENTINEL_KEY]
  · simp [coveEvent, extractCoveRewriteEvent_update]

theorem streamLoop_nodeChunks (xs : List Exec) (chunks : List Dict) :
    streamLoop threadId raised (xs.map nodeChunk ++ chunks) =
      xs.flatMap (fun x => [.nodeCompleted x.node.id (.dict x.update.channels) threadId,
        .stateSnapshot x.node.id (.dict x.update.channels) threadId]) ++
        streamLoop threadId raised chunks := by
  induction xs with
  | nil => rfl
  | cons x xs ih =>
      rw [List.map_cons, List.cons_append, streamLoop_nodeChunk, ih]
      rfl

theorem streamLoop_sentinel (sentinel : Option Sentinel) :
    ∀ event ∈ streamLoop threadId raised (sentinel.map (sentinelChunk threadId)).toList,
      event.isCoveRewrite = false := by
  have ends : ∀ event ∈ streamLoop threadId raised [], event.isCoveRewrite = false := by
    cases raised <;> simp [streamLoop, UIEvent.isCoveRewrite]
  rcases sentinel with _ | question | answer
  · exact ends
  · simp only [Option.map_some, Option.toList_some, sentinelChunk]
    rw [streamLoop_silent (by simp [Dict.get_cons, DONE_SENTINEL_KEY])
      (by simp [coveEvent, COVE_NODE_ID])]
    exact List.forall_mem_cons.mpr ⟨rfl, List.forall_mem_cons.mpr ⟨rfl, ends⟩⟩
  · simp [streamLoop, sentinelChunk, Dict.get_cons, DONE_SENTINEL_KEY, UIEvent.isCoveRewrite]

variable (threadId raised) in
theorem streamLoop_tail (xs : List Exec) (sentinel : Option Sentinel) :
    ∀ event ∈ streamLoop threadId raised
        (interruptChunk xs ++ (sentinel.map (sentinelChunk threadId)).toList),
      event.isCoveRewrite = false := by
  unfold interruptChunk
  split
  · rw [List.singleton_append, streamLoop_silent (by simp [Dict.get_cons, DONE_SENTINEL_KEY])
      (by simp [coveEvent, COVE_NODE_ID])]
    exact List.forall_mem_cons.mpr ⟨rfl, List.forall_mem_cons.mpr ⟨rfl, streamLoop_sentinel sentinel⟩⟩
  · exact streamLoop_sentinel sentinel

theorem orchestrateResume_eq (threadId : String) (record : CallRecord) :
    ∃ rest, orchestrateResume threadId (streamResumeSession threadId record) =
        .resumeStarted threadId ::
          record.executed.flatMap (fun x =>
            [.nodeCompleted x.node.id (.dict x.update.channels) threadId,
              .stateSnapshot x.node.id (.dict x.update.channels) threadId]) ++ rest ∧
      ∀ event ∈ rest, event.isCoveRewrite = false := by
  have silent := streamLoop_tail threadId (streamResumeSession threadId record).raised record.executed
    record.sentinel
  refine ⟨_, ?_, silent⟩
  rw [orchestrateResume, streamResumeSession, List.append_assoc, streamLoop_nodeChunks]
  rfl

end

/-- A resume leg emits the events it owes exactly when no critique of it is followed by a rewrite. -/
theorem oneEventPerRewrite_iff (t : Thread) (userAnswer threadId : String) (worlds : List World)
    (delivered : Bool) :
    OneEventPerRewrite threadId (t.record ⟨.resume userAnswer, worlds, delivered⟩) ↔
      ∀ x ∈ (t.record ⟨.resume userAnswer, worlds, delivered⟩).executed,
        ¬ (x.node = .coveCritique ∧ x.route = .rewrite) := by
  generalize t.record ⟨.resume userAnswer, worlds, delivered⟩ = record
  obtain ⟨tail, emitted, last⟩ := orchestrateResume_eq threadId record
  rw [OneEventPerRewrite, emitted]
  constructor
  · intro owed x member rewrites
    obtain ⟨rest, same, -⟩ := owed
    have due : .coveRewrite (x.update.critiqueFeedback.getD .none) threadId ∈
        dueEvents threadId x := by
      simp [dueEvents, rewrites]
    have received : UIEvent.coveRewrite (x.update.critiqueFeedback.getD .none) threadId ∈
        (UIEvent.resumeStarted threadId :: record.executed.flatMap (dueEvents threadId)) ++ rest :=
      List.mem_append_left _ (.tail _ (List.mem_flatMap.mpr ⟨x, member, due⟩))
    rw [← same] at received
    rcases List.mem_append.mp received with chunk | late
    · simp at chunk
    · exact absurd (last _ late) (by simp [UIEvent.isCoveRewrite])
  · intro none
    refine ⟨tail, ?_, last⟩
    congr 2
    apply List.flatMap_congr
    intro x member
    simp [dueEvents, none x member]

def rewritingReply : Dict :=
  [("needs_rewrite", .bool true), ("critique_feedback", .str "Check the rates.")]

def startedThread : Thread :=
  Thread.after [⟨.start "Buy or rent?", List.replicate 2 (.fixed "Rent." []), true⟩]

def rewritingResume : Attempt :=
  ⟨.resume "Stability", List.replicate 6 (.fixed "Rent." rewritingReply), true⟩

theorem rewrite_without_event :
    ¬ OneEventPerRewrite "t1" (startedThread.record rewritingResume) := by
  intro owed
  obtain ⟨rest, same, -⟩ := owed
  have third := congrArg (fun events => events[5]?) same
  have events : some (UIEvent.nodeCompleted "5_CoVe_Critique" _ "t1") =
      some (UIEvent.coveRewrite (.str "Check the rates.") "t1") := third
  cases events

end DecisionMaker.Ui
