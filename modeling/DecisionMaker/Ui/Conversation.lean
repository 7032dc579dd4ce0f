import DecisionMaker.Graph.Session
import DecisionMaker.Ui.Wiring

namespace DecisionMaker.Ui

open DecisionMaker.Library DecisionMaker.Graph DecisionMaker.Ui.Legs DecisionMaker.Ui.Presenter
open DecisionMaker.Ui.Submit DecisionMaker.Ui.Wiring

structure Conversation where
  page : Page
  threads : String → Thread

/-- What the world does to one submit. Where the stream is left without a sentinel an exception may
come through it all the same: the recursion limit, or a snapshot that cannot be read. -/
structure Behaviour where
  worlds : List World
  delivered : Bool
  stopped : Option PyError

def legChunks (describe : NodeError → PyError) (stopped : Option PyError) (threadId : String)
    (record : CallRecord) : ChunkStream where
  chunks := (streamResumeSession threadId record).chunks
  raised :=
    match record.status with
    | .raised e => some (describe e)
    | .ended | .cut => if record.sentinel.isSome then none else stopped

namespace Conversation

def threadId (c : Conversation) : String := c.page .stateThreadId

def thread (c : Conversation) : Thread := c.threads c.threadId

def checkpoint (c : Conversation) : Checkpoint := c.thread.checkpoint.getD .empty

def call (c : Conversation) : Call :=
  if c.page .stateMode = AWAITING_SUBMIT then .start (c.page .textbox) else .resume (c.page .textbox)

def attempt (c : Conversation) (b : Behaviour) : Attempt := ⟨c.call, b.worlds, b.delivered⟩

def record (c : Conversation) (b : Behaviour) : CallRecord := c.thread.record (c.attempt b)

section
variable (str : Value → Except PyError String) (describe : NodeError → PyError)

def shownPages (c : Conversation) (b : Behaviour) : List Page :=
  submitPages str
    (fun _ threadId => orchestrateStart threadId (legChunks describe b.stopped threadId (c.record b)))
    (fun _ threadId => Legs.orchestrateResume threadId (legChunks describe b.stopped threadId (c.record b)))
    c.page

end

def submit (c : Conversation) (b : Behaviour) (shown : Page) : Conversation :=
  ⟨shown, Function.update c.threads c.threadId (c.thread.perform (c.attempt b))⟩

end Conversation

/-- One page, one submit at a time, over a database that holds whatever it holds. The tuples of a
submit reach the page up to any of them; other pages and the server work on other threads. -/
inductive Conversation.Reachable (str : Value → Except PyError String) (describe : NodeError → PyError) :
    Conversation → Prop
  | built (initialThreadId : String) (threads : String → Thread) :
      Reachable str describe ⟨buildUi initialThreadId, threads⟩
  | typed {c : Conversation} (text : String) : Reachable str describe c →
      Reachable str describe { c with page := Function.update c.page .textbox text }
  | submitted {c : Conversation} (b : Behaviour) {shown : Page} : Reachable str describe c →
      shown ∈ c.page :: c.shownPages str describe b → Reachable str describe (c.submit b shown)
  | newSession {c : Conversation} (newThreadId : String) : Reachable str describe c →
      Reachable str describe { c with page := c.page.write newSessionOutputs newThreadId }
  | elsewhere {c : Conversation} (other : String) (t : Thread) : Reachable str describe c →
      other ≠ c.threadId → Reachable str describe { c with threads := Function.update c.threads other t }

theorem kindOf_rewriteEvent {nodeId threadId : String} {stateDelta : Value} {event : Option Dict}
    (read : Leg.rewriteEvent nodeId stateDelta threadId = .ok event) :
    ∀ e ∈ event, kindOf e = some .coveRewrite := by
  unfold Leg.rewriteEvent at read
  split at read
  · split at read
    · obtain rfl := Except.ok.inj read
      intro e member
      rcases extractCoveRewriteEvent_cases _ threadId with silent | ⟨critiqueFeedback, asks⟩
      · rw [silent] at member
        cases member
      · rw [asks] at member
        obtain rfl := Option.mem_some_iff.mp member
        rfl
    · cases read
  · obtain rfl := Except.ok.inj read
    rintro _ ⟨⟩

theorem mem_loop_awaitingUser {leg : Leg} {threadId : String} {raised : Option PyError} {event : Dict}
    (asks : kindOf event = some .awaitingUser) {chunks : List Dict}
    (member : event ∈ (leg.loop threadId raised chunks).events) :
    ∃ chunk ∈ chunks, (chunk.get leg.sentinelKey .none).truthy = true ∧
      event = leg.terminalEvent (chunk.get leg.textKey (.str "")) threadId := by
  have failed : ∀ e, event ∉ (Leg.fail threadId e).events := by
    intro e inside
    obtain rfl := List.mem_singleton.mp inside
    rw [kindOf_errorEvent] at asks
    cases asks
  induction chunks with
  | nil =>
      unfold Leg.loop at member
      cases raised with
      | some e => exact absurd member (failed e)
      | none => cases member
  | cons chunk chunks ih =>
      unfold Leg.loop at member
      split at member
      · rename_i ends
        unfold Leg.finish at member
        split at member
        · exact ⟨chunk, List.mem_cons_self, ends, List.mem_singleton.mp member⟩
        · exact absurd member (failed _)
      · have later : event ∈ (leg.loop threadId raised chunks).events := by
          split at member
          · exact member
          · split at member
            · exact absurd member (failed _)
            · rename_i read
              simp only [Leg.emit, List.mem_append, Option.mem_toList, List.mem_cons,
                List.not_mem_nil, or_false] at member
              rcases member with (rewrite | rfl | rfl) | later
              · rw [kindOf_rewriteEvent read event rewrite] at asks
                cases asks
              · rw [kindOf_nodeCompletedEvent] at asks
                cases asks
              · rw [kindOf_stateSnapshotEvent] at asks
                cases asks
              · exact later
        obtain ⟨chunk', inside, found⟩ := ih later
        exact ⟨chunk', List.mem_cons_of_mem _ inside, found⟩

theorem awaitingUser_chunk {threadId : String} {record : CallRecord} {chunk : Dict}
    (member : chunk ∈ (streamResumeSession threadId record).chunks)
    (sentinel : (chunk.get Leg.start.sentinelKey .none).truthy = true) :
    ∃ question, record.sentinel = some (.awaitingUser question) ∧
      chunk.get Leg.start.textKey (.str "") = question := by
  simp only [streamResumeSession, List.mem_append, List.mem_map, Option.mem_toList,
    Option.map_eq_some_iff] at member
  rcases member with (⟨x, -, rfl⟩ | gate) | ⟨last, given, rfl⟩
  · have other : Leg.start.sentinelKey ≠ x.node.id := by cases x.node <;> decide
    rw [nodeChunk, Dict.get_cons, if_neg other] at sentinel
    cases sentinel
  · unfold interruptChunk at gate
    split at gate
    · obtain rfl := List.mem_singleton.mp gate
      cases sentinel
    · cases gate
  · cases last with
    | awaitingUser question => exact ⟨question, given, rfl⟩
    | done finalAnswer => cases sentinel

section
variable {str : Value → Except PyError String} {raised : Option PyError} {current : Update}
variable {events : List Dict}

def Stands (content : Value) (chat : Chat) : Prop :=
  ∃ before after, chat = before ++ assistantMessage content :: after

theorem Stands.append {content : Value} {chat : Chat} (stands : Stands content chat) (more : Chat) :
    Stands content (chat ++ more) := by
  obtain ⟨before, after, rfl⟩ := stands
  exact ⟨before, after ++ more, by simp⟩

theorem render_awaitingUser {event : Dict} {chat : Chat} {snapshot : Dict} {rendered : Rendered}
    (asks : kindOf event = some .awaitingUser) (shown : render str event chat snapshot = .ok rendered) :
    rendered.chat = chat ++ [assistantMessage (event.get "question" (.str ""))] := by
  simp only [render, asks] at shown
  obtain ⟨status, -, same⟩ := bind_eq_ok.mp shown
  cases same
  rfl

def Asks (mode : String) (events : List Dict) (shown : Update) : Prop :=
  shown.mode = AWAITING_USER_ANSWER → mode = AWAITING_USER_ANSWER ∨
    ∃ event ∈ events, kindOf event = some .awaitingUser ∧
      Stands (event.get "question" (.str "")) shown.chat

theorem submitLoop_events {P : Update → Prop} (start : P current)
    (keeps : ∀ {previous event next}, P previous → Answers str previous event next →
      (∀ e, event = some e → e ∈ events) → P next) :
    ∀ next ∈ (submitLoop str raised current events).updates, P next := by
  have holds : ∀ before, before <+: (submitLoop str raised current events).updates →
      P (before.getLastD current) := by
    intro before
    induction before using List.reverseRecOn with
    | nil => exact fun _ => start
    | append_singleton before next ih =>
        rintro ⟨after, split⟩
        rw [List.append_assoc, List.singleton_append] at split
        rw [List.getLastD_concat]
        refine keeps (ih ⟨next :: after, split⟩) (submitLoop_answers split.symm) fun e read => ?_
        exact List.mem_of_getElem? read
  intro next member
  obtain ⟨before, after, split⟩ := List.append_of_mem member
  have last := holds (before ++ [next]) ⟨after, by simp [split]⟩
  rwa [List.getLastD_concat] at last

theorem submitLoop_asks (mode : String) (start : current.mode = mode) :
    ∀ next ∈ (submitLoop str raised current events).updates, Asks mode events next := by
  apply submitLoop_events (P := Asks mode events) fun asked => .inl (start ▸ asked)
  intro previous event next asks answers inside asked
  have same : next.mode = previous.mode → mode = AWAITING_USER_ANSWER ∨
      ∃ event ∈ events, kindOf event = some .awaitingUser ∧
        Stands (event.get "question" (.str "")) next.chat := by
    intro same
    rcases asks (same ▸ asked) with before | ⟨event, member, kind, stands⟩
    · exact .inl before
    · refine .inr ⟨event, member, kind, ?_⟩
      rcases answers.grows with kept | ⟨content, grown⟩
      · exact kept ▸ stands
      · exact grown ▸ stands.append _
  rcases answers.turns with kept | ⟨kind, -⟩ | ⟨-, submit⟩
  · exact same kept
  · cases answers with
    | @event event rendered shown =>
        refine .inr ⟨event, inside event rfl, kind, previous.chat, [], ?_⟩
        rw [← render_awaitingUser kind shown]
        rfl
    | exception event exc => exact same rfl
  · rw [submit] at asked
    exact absurd asked (by decide)

end

theorem Leg.behind {cp : Checkpoint} {r : LegResult} (leg : Graph.Leg cp r) (behind : cp.Behind) :
    r.checkpoint.Behind ∧ r.checkpoint.values.lastQuestion = cp.values.lastQuestion ∧
      ∀ x ∈ r.executed, x.node.afterGate = true ∧ x.read.lastQuestion = cp.values.lastQuestion := by
  induction leg with
  | finished | stopped => exact ⟨behind, rfl, by simp⟩
  | interrupted pending action gate => exact absurd gate (Node.afterGate_through (behind _ pending))
  | @committed cp cp' w n x r pending action through rest ih =>
      obtain ⟨node, read, ran, -, values⟩ := Checkpoint.commit_ok.mp action
      have after := behind n pending
      have silent := (Node.run_writes ran).lastQuestion
      have other : n ≠ .weightQuestioner := by
        rintro rfl
        cases after
      rw [decide_eq_false other] at silent
      have kept : cp'.values.lastQuestion = cp.values.lastQuestion := by
        have unwritten : x.update.lastQuestion = none := by simpa using silent
        simp [values, DecisionMakerState.merge, unwritten]
      obtain ⟨stays, question, executed⟩ := ih (behind.commit pending action)
      refine ⟨stays, question.trans kept, fun y member => ?_⟩
      rcases List.mem_cons.mp member with rfl | member
      · exact ⟨node ▸ after, read ▸ rfl⟩
      · exact ⟨(executed y member).1, (executed y member).2.trans kept⟩

theorem start_asked {worlds : List World} {userInput : String} {stored : Option Checkpoint}
    (ended : (astream worlds ((Call.start userInput).entry stored)).status = .ended) :
    (astream worlds ((Call.start userInput).entry stored)).checkpoint.Behind := by
  have leg := astream_leg worlds ((Call.start userInput).entry stored)
  obtain ⟨front, x, executed, node, -⟩ := (leg.before_gate ⟨.contextAnalyzer, rfl, rfl⟩).2 ended
  have standing := Standing.leg leg (Standing.begin rfl)
  have writer := (standing.last x (by simp [executed])).writer
  exact (Checkpoint.behind_of_asked (node ▸ writer)).2

namespace Conversation

def question (c : Conversation) : Value := getOr c.checkpoint.values.lastQuestion (.str "")

structure Agrees (c : Conversation) : Prop where
  known : c.page .stateMode ∈ MODES
  asked : c.page .stateMode = AWAITING_USER_ANSWER →
    c.checkpoint.Behind ∧ Stands c.question (c.page .chatbot)

theorem agrees_ready {c : Conversation} (ready : c.page .stateMode = AWAITING_SUBMIT) : c.Agrees := by
  refine ⟨by simp [ready, MODES], fun asked => ?_⟩
  rw [ready] at asked
  exact absurd asked (by decide)

variable {str : Value → Except PyError String} {describe : NodeError → PyError} {c : Conversation}

@[simp] theorem submit_checkpoint {b : Behaviour} {shown : Page} (same : shown .stateThreadId = c.threadId) :
    (c.submit b shown).checkpoint =
      (astream b.worlds (c.call.entry c.thread.checkpoint)).checkpoint := by
  simp [checkpoint, thread, threadId, submit, same, attempt]

structure Shown (c : Conversation) (events : List Dict) (shown : Page) : Prop where
  thread : shown .stateThreadId = c.threadId
  known : shown .stateMode ∈ MODES
  chat : c.page .chatbot <+: shown .chatbot
  asks : shown .stateMode = AWAITING_USER_ANSWER → c.page .stateMode = AWAITING_USER_ANSWER ∨
    ∃ event ∈ events, kindOf event = some .awaitingUser ∧
      Stands (event.get "question" (.str "")) (shown .chatbot)

theorem mem_shownPages {page shown : Page} {tuples : List Update}
    (member : shown ∈ Wiring.shownPages page tuples) :
    ∃ tuple ∈ tuples, shown .stateThreadId = tuple.threadId ∧ shown .stateMode = tuple.mode ∧
      shown .chatbot = tuple.chat := by
  induction tuples generalizing page with
  | nil => cases member
  | cons tuple tuples ih =>
      rcases List.mem_cons.mp member with rfl | later
      · exact ⟨tuple, List.mem_cons_self, rfl, rfl, rfl⟩
      · obtain ⟨tuple', inside, found⟩ := ih later
        exact ⟨tuple', List.mem_cons_of_mem _ inside, found⟩

def stream (c : Conversation) (describe : NodeError → PyError) (b : Behaviour) : EventStream :=
  generator
    (fun _ threadId => orchestrateStart threadId (legChunks describe b.stopped threadId (c.record b)))
    (fun _ threadId => Legs.orchestrateResume threadId (legChunks describe b.stopped threadId (c.record b)))
    (c.page .textbox) c.threadId (c.page .stateMode)

theorem shown_of_mem {b : Behaviour} {shown : Page} (known : c.page .stateMode ∈ MODES)
    (member : shown ∈ c.shownPages str describe b) : Shown c (c.stream describe b).events shown := by
  obtain ⟨tuple, inside, thread, mode, chat⟩ := mem_shownPages member
  have opened : Held (withUserTurn (c.page .chatbot) (c.page .textbox)) c.threadId
      (opening (c.page .textbox) c.threadId (c.page .stateMode) (c.page .chatbot)
        (c.page .stateStateSnapshot)) :=
    ⟨List.prefix_rfl, rfl, known⟩
  have held := submitLoop_invariant opened (fun held answers => answers.held held) tuple inside
  have asks := submitLoop_asks (c.page .stateMode) rfl tuple inside
  refine ⟨thread.trans held.thread, mode ▸ held.known, ?_, ?_⟩
  · rw [chat]
    refine List.IsPrefix.trans ?_ held.history
    unfold withUserTurn
    split
    · exact List.prefix_rfl
    · exact List.prefix_append _ _
  · rw [mode, chat]
    exact asks

theorem start_question {b : Behaviour} {event : Dict} (ready : c.page .stateMode = AWAITING_SUBMIT)
    (member : event ∈ (c.stream describe b).events) (asks : kindOf event = some .awaitingUser) :
    (astream b.worlds (c.call.entry c.thread.checkpoint)).status = .ended ∧
      event.get "question" (.str "") =
        getOr (astream b.worlds (c.call.entry c.thread.checkpoint)).checkpoint.values.lastQuestion
          (.str "") := by
  rw [stream, generator, if_pos ready] at member
  rcases List.mem_append.mp member with first | later
  · obtain rfl := List.mem_singleton.mp first
    cases asks
  · obtain ⟨chunk, inside, sentinel, rfl⟩ := mem_loop_awaitingUser asks later
    obtain ⟨question, given, text⟩ := awaitingUser_chunk inside sentinel
    obtain ⟨ended, -, same⟩ := Thread.record_sentinel.mp given
    refine ⟨ended, ?_⟩
    rw [attempt, call, if_pos ready] at same
    cases same
    rw [call, if_pos ready, ← text]
    rfl

theorem resume_asks {b : Behaviour} {event : Dict} (waiting : c.page .stateMode = AWAITING_USER_ANSWER)
    (member : event ∈ (c.stream describe b).events) : kindOf event ≠ some .awaitingUser := by
  intro asks
  have other : ¬ c.page .stateMode = AWAITING_SUBMIT := by
    rw [waiting]
    decide
  rw [stream, generator, if_neg other] at member
  rcases List.mem_append.mp member with first | later
  · obtain rfl := List.mem_singleton.mp first
    cases asks
  · obtain ⟨chunk, -, -, rfl⟩ := mem_loop_awaitingUser asks later
    cases asks

theorem call_resume (waiting : c.page .stateMode = AWAITING_USER_ANSWER) :
    c.call = .resume (c.page .textbox) := by
  rw [call, if_neg]
  rw [waiting]
  decide

theorem Agrees.submit {b : Behaviour} {shown : Page} (agrees : c.Agrees)
    (member : shown ∈ c.page :: c.shownPages str describe b) : (c.submit b shown).Agrees := by
  have moved : Shown c (c.stream describe b).events shown := by
    rcases List.mem_cons.mp member with rfl | member
    · exact ⟨rfl, agrees.known, List.prefix_rfl, .inl⟩
    · exact shown_of_mem agrees.known member
  refine ⟨moved.known, fun asked => ?_⟩
  have checkpoint := submit_checkpoint (b := b) moved.thread
  rw [question, checkpoint]
  rcases moved.asks asked with waiting | ⟨event, inside, kind, stands⟩
  · obtain ⟨behind, stands⟩ := agrees.asked waiting
    rw [call_resume waiting]
    have leg := astream_leg b.worlds ((Call.resume (c.page .textbox)).entry c.thread.checkpoint)
    obtain ⟨stays, kept, -⟩ := Leg.behind leg behind
    refine ⟨stays, ?_⟩
    obtain ⟨more, grown⟩ := moved.chat
    rw [kept]
    change Stands c.question (shown .chatbot)
    rw [← grown]
    exact stands.append more
  · rcases List.mem_pair.mp agrees.known with ready | waiting
    · obtain ⟨ended, text⟩ := start_question ready inside kind
      rw [text] at stands
      refine ⟨?_, stands⟩
      rw [call, if_pos ready] at ended ⊢
      exact start_asked ended
    · exact absurd kind (resume_asks waiting inside)

theorem Reachable.agrees (reached : Reachable str describe c) : c.Agrees := by
  induction reached with
  | built | newSession => exact agrees_ready rfl
  | typed text _ ih => exact ⟨ih.known, ih.asked⟩
  | submitted b _ member ih => exact ih.submit member
  | @elsewhere c other t reached apart ih =>
      refine ⟨ih.known, fun asked => ?_⟩
      have same : Function.update c.threads other t c.threadId = c.thread :=
        Function.update_of_ne apart.symm _ _
      have checkpoint : ({ c with threads := Function.update c.threads other t } : Conversation).checkpoint =
          c.checkpoint := congrArg (fun t : Thread => t.checkpoint.getD .empty) same
      rw [question, checkpoint]
      exact ih.asked asked

/-- In its one mode the page begins a session, and nothing behind the gate runs. In the other it goes
on with one: nothing before the gate runs, and what is parsed is the text of the user, against a
question that the page shows. -/
structure Addressed (c : Conversation) (record : CallRecord) : Prop where
  start : c.page .stateMode = AWAITING_SUBMIT → ∀ x ∈ record.executed, x.node.afterGate = false
  answer : c.page .stateMode = AWAITING_USER_ANSWER → ∀ x ∈ record.executed, x.node.afterGate = true ∧
    (x.node = .weightParser → x.read.userAnswer = some (c.page .textbox) ∧
      Stands (getOr x.read.lastQuestion (.str "")) (c.page .chatbot))
  known : c.page .stateMode = AWAITING_SUBMIT ∨ c.page .stateMode = AWAITING_USER_ANSWER

/-- Wherever a page stands after whatever submits, broken off or not, and new sessions. -/
theorem Reachable.addressed (reached : Reachable str describe c) (b : Behaviour) :
    Addressed c (c.record b) := by
  have agrees := reached.agrees
  refine ⟨fun ready => ?_, fun waiting x member => ?_, List.mem_pair.mp agrees.known⟩
  · have early : ∃ n, (c.call.entry c.thread.checkpoint).next = some n ∧ n.afterGate = false := by
      rw [call, if_pos ready]
      exact ⟨.contextAnalyzer, rfl, rfl⟩
    exact ((astream_leg b.worlds _).before_gate early).1
  · obtain ⟨behind, stands⟩ := agrees.asked waiting
    have resumed : (c.record b).executed =
        (astream b.worlds ((Call.resume (c.page .textbox)).entry c.thread.checkpoint)).executed := by
      rw [record, Thread.record, attempt, call_resume waiting]
    rw [resumed] at member
    have leg := astream_leg b.worlds ((Call.resume (c.page .textbox)).entry c.thread.checkpoint)
    obtain ⟨after, kept⟩ := (Leg.behind leg behind).2.2 x member
    refine ⟨after, fun node => ⟨?_, ?_⟩⟩
    · obtain ⟨front, back, executed⟩ := List.append_of_mem member
      obtain ⟨-, -, read⟩ := leg.parser_first executed node
      rw [read]
      rfl
    · rw [kept]
      exact stands

def typedConversation : Conversation where
  page := Function.update (buildUi "t1") .textbox "Buy or rent?"
  threads _ := {}

def askingBehaviour : Behaviour := ⟨List.replicate 2 (.fixed "What matters most?" []), true, none⟩

def askedConversation : Conversation :=
  let shown := typedConversation.page ::
    typedConversation.shownPages (fun _ => .ok "") (fun _ => ⟨"", ""⟩) askingBehaviour
  let asked := typedConversation.submit askingBehaviour (shown.getLast (List.cons_ne_nil _ _))
  { asked with page := Function.update asked.page .textbox "Stability" }

theorem Reachable.addressed_asked :
    askedConversation.page .stateMode = AWAITING_USER_ANSWER ∧
      (askedConversation.record ⟨List.replicate 4 (.fixed "Rent." []), true, none⟩).executed.length = 4 ∧
      Addressed askedConversation
        (askedConversation.record ⟨List.replicate 4 (.fixed "Rent." []), true, none⟩) := by
  have typed : Reachable (fun _ => .ok "") (fun _ => ⟨"", ""⟩) typedConversation :=
    .typed "Buy or rent?" (.built "t1" fun _ => {})
  have reached : Reachable (fun _ => .ok "") (fun _ => ⟨"", ""⟩) askedConversation :=
    .typed "Stability" (.submitted askingBehaviour typed (List.getLast_mem _))
  exact ⟨rfl, rfl, Reachable.addressed reached _⟩

end Conversation

end DecisionMaker.Ui
