import DecisionMaker.Library.Re
import DecisionMaker.Ui.Presenter

namespace DecisionMaker.Ui.Submit

open DecisionMaker.Library DecisionMaker.Ui.Legs DecisionMaker.Ui.Presenter

def AWAITING_SUBMIT : String := "awaiting_submit"
def AWAITING_USER_ANSWER : String := "awaiting_user_answer"

def MODES : List String := [AWAITING_SUBMIT, AWAITING_USER_ANSWER]

structure Update where
  chat : Chat
  snapshot : Dict
  statusMd : String
  mode : String
  threadId : String
  textbox : String

structure Submission where
  updates : List Update
  caught : Option PyError

def userMessage (content : String) : Dict := [("role", .str "user"), ("content", .str content)]

def withUserTurn (chatHistory : Chat) (userInput : String) : Chat :=
  if (Re.strip (Str.ofString userInput)).isEmpty then chatHistory
  else chatHistory ++ [userMessage userInput]

def newMode (event : Dict) (currentMode : String) : String :=
  match kindOf event with
  | some .awaitingUser => AWAITING_USER_ANSWER
  | some .finalAnswer => AWAITING_SUBMIT
  | _ => currentMode

def advance (current : Update) (event : Dict) (rendered : Rendered) : Update where
  chat := rendered.chat
  snapshot := rendered.snapshot
  statusMd := rendered.status
  mode := newMode event current.mode
  threadId := current.threadId
  textbox := ""

def failure (current : Update) (exc : PyError) : Update where
  chat := current.chat ++ [assistantMessage (.str ("❌ Ошибка обработки: " ++ exc.message))]
  snapshot := current.snapshot
  statusMd := "❌ Критическая ошибка"
  mode := current.mode
  threadId := current.threadId
  textbox := ""

section
variable (str : Value → Except PyError String)

/-- What is shown stands in `current`, of which the status line and the textbox are never read. -/
def submitLoop (raised : Option PyError) (current : Update) : List Dict → Submission
  | [] =>
      match raised with
      | some exc => ⟨[failure current exc], some exc⟩
      | none => ⟨[], none⟩
  | event :: events =>
      match render str event current.chat current.snapshot with
      | .error exc => ⟨[failure current exc], some exc⟩
      | .ok rendered =>
          let next := advance current event rendered
          let rest := submitLoop raised next events
          ⟨next :: rest.updates, rest.caught⟩

def opening (userInput threadId mode : String) (chatHistory : Chat) (stateSnapshot : Dict) : Update where
  chat := withUserTurn chatHistory userInput
  snapshot := stateSnapshot
  statusMd := ""
  mode := mode
  threadId := threadId
  textbox := userInput

def generator (start resume : String → String → EventStream) (userInput threadId mode : String) :
    EventStream :=
  if mode = AWAITING_SUBMIT then start userInput threadId else resume userInput threadId

def onSubmit (start resume : String → String → EventStream) (userInput threadId mode : String)
    (chatHistory : Chat) (stateSnapshot : Dict) : Submission :=
  let stream := generator start resume userInput threadId mode
  submitLoop str stream.raised (opening userInput threadId mode chatHistory stateSnapshot) stream.events

end

section
variable {str : Value → Except PyError String}

theorem render_chat {event : Dict} {chat : Chat} {snapshot : Dict} {rendered : Rendered}
    (shown : render str event chat snapshot = .ok rendered) :
    rendered.chat = chat ∨ ∃ content, rendered.chat = chat ++ [assistantMessage content] := by
  unfold render at shown
  split at shown
  case h_3 | h_4 =>
    obtain ⟨filtered, -, later⟩ := bind_eq_ok.mp shown
    obtain ⟨status, -, same⟩ := bind_eq_ok.mp later
    cases same
    exact .inl rfl
  case h_5 | h_9 =>
    obtain ⟨text, -, later⟩ := bind_eq_ok.mp shown
    obtain ⟨status, -, same⟩ := bind_eq_ok.mp later
    cases same
    exact .inr ⟨_, rfl⟩
  all_goals
    obtain ⟨status, -, same⟩ := bind_eq_ok.mp shown
    cases same
    first | exact .inl rfl | exact .inr ⟨_, rfl⟩

inductive Answers (str : Value → Except PyError String) (previous : Update) : Option Dict → Update → Prop
  | event {event : Dict} {rendered : Rendered}
      (shown : render str event previous.chat previous.snapshot = .ok rendered) :
      Answers str previous (some event) (advance previous event rendered)
  | exception (event : Option Dict) (exc : PyError) : Answers str previous event (failure previous exc)

variable {raised : Option PyError} {current : Update} {event : Dict} {events : List Dict}

theorem submitLoop_ok {rendered : Rendered}
    (shown : render str event current.chat current.snapshot = .ok rendered) :
    submitLoop str raised current (event :: events) =
      ⟨advance current event rendered ::
          (submitLoop str raised (advance current event rendered) events).updates,
        (submitLoop str raised (advance current event rendered) events).caught⟩ := by
  simp only [submitLoop, shown]

theorem submitLoop_error {exc : PyError}
    (shown : render str event current.chat current.snapshot = .error exc) :
    submitLoop str raised current (event :: events) = ⟨[failure current exc], some exc⟩ := by
  simp only [submitLoop, shown]

theorem answers_failure {exc : PyError} {next : Update} {before after : List Update}
    (split : [failure current exc] = before ++ next :: after) (event : Option Dict) :
    Answers str (before.getLastD current) event next := by
  cases before with
  | nil =>
      cases split
      exact .exception event exc
  | cons first before =>
      have long := congrArg List.length split
      simp only [List.length_append, List.length_cons, List.length_nil] at long
      omega

theorem submitLoop_answers {next : Update} {before after : List Update}
    (split : (submitLoop str raised current events).updates = before ++ next :: after) :
    Answers str (before.getLastD current) events[before.length]? next := by
  induction events generalizing current before with
  | nil =>
      cases raised with
      | some exc => exact answers_failure split _
      | none => simp [submitLoop] at split
  | cons event events ih =>
      cases shown : render str event current.chat current.snapshot with
      | error exc =>
          rw [submitLoop_error shown] at split
          exact answers_failure split _
      | ok rendered =>
          rw [submitLoop_ok shown] at split
          cases before with
          | nil =>
              cases split
              exact .event shown
          | cons first before =>
              obtain ⟨same, rest⟩ := List.cons_eq_cons.mp split
              cases same
              rw [List.getLastD_cons]
              exact ih rest

theorem submitLoop_invariant {P : Update → Prop} (start : P current)
    (keeps : ∀ {previous event next}, P previous → Answers str previous event next → P next) :
    ∀ next ∈ (submitLoop str raised current events).updates, P next := by
  induction events generalizing current with
  | nil =>
      cases raised with
      | some exc =>
          intro next member
          cases List.mem_singleton.mp member
          exact keeps start (.exception none exc)
      | none => exact fun next member => absurd member List.not_mem_nil
  | cons event events ih =>
      cases shown : render str event current.chat current.snapshot with
      | error exc =>
          rw [submitLoop_error shown]
          intro next member
          cases List.mem_singleton.mp member
          exact keeps start (.exception none exc)
      | ok rendered =>
          have first : P (advance current event rendered) := keeps start (.event shown)
          rw [submitLoop_ok shown]
          exact List.forall_mem_cons.mpr ⟨first, ih first⟩

theorem submitLoop_caught {exc : PyError}
    (caught : (submitLoop str raised current events).caught = some exc) :
    ∃ before, (submitLoop str raised current events).updates =
      before ++ [failure (before.getLastD current) exc] := by
  induction events generalizing current with
  | nil =>
      cases raised with
      | some raisedExc =>
          cases caught
          exact ⟨[], rfl⟩
      | none => cases caught
  | cons event events ih =>
      cases shown : render str event current.chat current.snapshot with
      | error renderExc =>
          rw [submitLoop_error shown] at caught ⊢
          cases caught
          exact ⟨[], rfl⟩
      | ok rendered =>
          rw [submitLoop_ok shown] at caught ⊢
          obtain ⟨before, updates⟩ := ih caught
          refine ⟨advance current event rendered :: before, ?_⟩
          rw [List.getLastD_cons, List.cons_append, ← updates]

theorem submitLoop_raised (raises : raised.isSome) :
    (submitLoop str raised current events).caught.isSome := by
  induction events generalizing current with
  | nil =>
      obtain ⟨exc, same⟩ := Option.isSome_iff_exists.mp raises
      cases same
      rfl
  | cons event events ih =>
      cases shown : render str event current.chat current.snapshot with
      | error exc =>
          rw [submitLoop_error shown]
          rfl
      | ok rendered =>
          rw [submitLoop_ok shown]
          exact ih

end

structure Held (history : Chat) (threadId : String) (shown : Update) : Prop where
  history : history <+: shown.chat
  thread : shown.threadId = threadId
  known : shown.mode ∈ MODES

structure Keeps (history : Chat) (threadId : String) (previous : Update) (event : Option Dict)
    (next : Update) : Prop extends Held history threadId next where
  grows : next.chat = previous.chat ∨ ∃ content, next.chat = previous.chat ++ [assistantMessage content]
  turns : next.mode = previous.mode ∨
    event.bind kindOf = some .awaitingUser ∧ next.mode = AWAITING_USER_ANSWER ∨
    event.bind kindOf = some .finalAnswer ∧ next.mode = AWAITING_SUBMIT

structure Fails (previous last : Update) (exc : PyError) : Prop where
  mode : last.mode = previous.mode
  snapshot : last.snapshot = previous.snapshot
  chat : last.chat = previous.chat ++ [assistantMessage (.str ("❌ Ошибка обработки: " ++ exc.message))]

section
variable {str : Value → Except PyError String} {previous next : Update} {event : Option Dict}

theorem Answers.grows (answers : Answers str previous event next) :
    next.chat = previous.chat ∨ ∃ content, next.chat = previous.chat ++ [assistantMessage content] := by
  cases answers with
  | event shown => exact render_chat shown
  | exception event exc => exact .inr ⟨_, rfl⟩

theorem Answers.thread (answers : Answers str previous event next) : next.threadId = previous.threadId := by
  cases answers <;> rfl

theorem Answers.turns (answers : Answers str previous event next) :
    next.mode = previous.mode ∨ event.bind kindOf = some .awaitingUser ∧ next.mode = AWAITING_USER_ANSWER ∨
      event.bind kindOf = some .finalAnswer ∧ next.mode = AWAITING_SUBMIT := by
  cases answers with
  | @event event rendered shown =>
      rw [advance, Option.bind_some, newMode]
      split
      case h_1 kind => exact .inr (.inl ⟨kind, rfl⟩)
      case h_2 kind => exact .inr (.inr ⟨kind, rfl⟩)
      case h_3 => exact .inl rfl
  | exception event exc => exact .inl rfl

theorem Answers.held (answers : Answers str previous event next) {history : Chat} {threadId : String}
    (held : Held history threadId previous) : Held history threadId next where
  history := by
    rcases answers.grows with same | ⟨content, same⟩
    · rw [same]
      exact held.history
    · rw [same]
      exact held.history.trans (List.prefix_append _ _)
  thread := answers.thread.trans held.thread
  known := by
    rcases answers.turns with same | ⟨-, same⟩ | ⟨-, same⟩
    · rw [same]
      exact held.known
    · simp [same, MODES]
    · simp [same, MODES]

end

theorem onSubmit_invariant (str : Value → Except PyError String)
    (start resume : String → String → EventStream) (userInput threadId : String) {mode : String}
    (known : mode ∈ MODES) (chatHistory : Chat) (stateSnapshot : Dict) :
    (∀ before next after,
      (onSubmit str start resume userInput threadId mode chatHistory stateSnapshot).updates =
          before ++ next :: after →
        Keeps (withUserTurn chatHistory userInput) threadId
          (before.getLastD (opening userInput threadId mode chatHistory stateSnapshot))
          (generator start resume userInput threadId mode).events[before.length]? next) ∧
    (∀ exc, (onSubmit str start resume userInput threadId mode chatHistory stateSnapshot).caught = some exc →
      ∃ before last,
        (onSubmit str start resume userInput threadId mode chatHistory stateSnapshot).updates =
            before ++ [last] ∧
          Fails (before.getLastD (opening userInput threadId mode chatHistory stateSnapshot)) last exc) ∧
    ((generator start resume userInput threadId mode).raised.isSome →
      (onSubmit str start resume userInput threadId mode chatHistory stateSnapshot).caught.isSome) := by
  refine ⟨?_, ?_, submitLoop_raised⟩
  · intro before next after split
    have answers := submitLoop_answers split
    have all : ∀ update ∈
        (onSubmit str start resume userInput threadId mode chatHistory stateSnapshot).updates,
        Held (withUserTurn chatHistory userInput) threadId update :=
      submitLoop_invariant ⟨List.prefix_refl _, rfl, known⟩ fun held answers => answers.held held
    have held := all next (split ▸ List.mem_append_right _ List.mem_cons_self)
    exact ⟨held, answers.grows, answers.turns⟩
  · intro exc caught
    obtain ⟨before, updates⟩ := submitLoop_caught caught
    exact ⟨before, _, updates, rfl, rfl, rfl⟩

def failingStart (_ threadId : String) : EventStream :=
  ⟨[Leg.start.startedEvent threadId, Leg.start.terminalEvent (.str "Why?") threadId], some ⟨"OSError", "gone"⟩⟩

theorem onSubmit_invariant_failing :
    AWAITING_SUBMIT ∈ MODES ∧
    ∃ before last, (onSubmit (fun _ => .ok "") failingStart failingStart "Rent?" "t1" AWAITING_SUBMIT [] []).updates =
        before ++ [last] ∧
      Fails (before.getLastD (opening "Rent?" "t1" AWAITING_SUBMIT [] [])) last ⟨"OSError", "gone"⟩ := by
  have known : AWAITING_SUBMIT ∈ MODES := by decide
  exact ⟨known, (onSubmit_invariant (fun _ => .ok "") failingStart failingStart "Rent?" "t1" known [] []).2.1
    ⟨"OSError", "gone"⟩ rfl⟩

end DecisionMaker.Ui.Submit
