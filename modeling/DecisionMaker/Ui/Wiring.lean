import DecisionMaker.Ui.Submit

namespace DecisionMaker.Ui.Wiring

open DecisionMaker.Library DecisionMaker.Ui.Legs DecisionMaker.Ui.Presenter DecisionMaker.Ui.Submit

inductive Component
  | textbox | stateThreadId | stateMode | chatbot | stateStateSnapshot | stateXray | statusMd
  deriving DecidableEq

abbrev Component.Content : Component → Type
  | .textbox => String
  | .stateThreadId => String
  | .stateMode => String
  | .chatbot => Chat
  | .stateStateSnapshot => Dict
  | .stateXray => Dict
  | .statusMd => String

abbrev Page := (component : Component) → component.Content

/-- One place of a list of outputs: a component and the part of the tuple that goes there. -/
structure Output (τ : Type) where
  component : Component
  value : τ → component.Content

def Page.write {τ : Type} (page : Page) (outputs : List (Output τ)) (tuple : τ) : Page :=
  outputs.foldl (fun page output => Function.update page output.component (output.value tuple)) page

def submitOutputs : List (Output Update) :=
  [⟨.chatbot, Update.chat⟩, ⟨.stateXray, Update.snapshot⟩, ⟨.statusMd, Update.statusMd⟩,
    ⟨.stateMode, Update.mode⟩, ⟨.stateThreadId, Update.threadId⟩, ⟨.textbox, Update.textbox⟩]

def newSessionOutputs : List (Output String) :=
  [⟨.stateThreadId, id⟩, ⟨.chatbot, fun _ => []⟩, ⟨.stateXray, fun _ => []⟩,
    ⟨.stateMode, fun _ => AWAITING_SUBMIT⟩, ⟨.statusMd, fun _ => "Готов принять дилемму."⟩]

def buildUi (initialThreadId : String) : Page
  | .textbox => ""
  | .stateThreadId => initialThreadId
  | .stateMode => AWAITING_SUBMIT
  | .chatbot => []
  | .stateStateSnapshot => []
  | .stateXray => []
  | .statusMd => "Готов принять дилемму."

def shownPages (page : Page) : List Update → List Page
  | [] => []
  | tuple :: tuples => page.write submitOutputs tuple :: shownPages (page.write submitOutputs tuple) tuples

section
variable (str : Value → Except PyError String) (start resume : String → String → EventStream)

def submission (page : Page) : Submission :=
  onSubmit str start resume (page .textbox) (page .stateThreadId) (page .stateMode) (page .chatbot)
    (page .stateStateSnapshot)

def submitPages (page : Page) : List Page := shownPages page (submission str start resume page).updates

def afterSubmit (page : Page) : Page := (submitPages str start resume page).getLastD page

end

inductive Reachable (str : Value → Except PyError String) : Page → Prop
  | built (initialThreadId : String) : Reachable str (buildUi initialThreadId)
  | typed {page : Page} (text : String) : Reachable str page →
      Reachable str (Function.update page .textbox text)
  | submitted {page shown : Page} (start resume : String → String → EventStream) : Reachable str page →
      shown ∈ submitPages str start resume page → Reachable str shown
  | newSession {page : Page} (newThreadId : String) : Reachable str page →
      Reachable str (page.write newSessionOutputs newThreadId)

/-- Each field of the panel stays there, with its value unless an event so far has overwritten it. -/
def Accumulates (panel : Dict) (events : List Dict) (pages : List Page) : Prop :=
  ∀ i page, pages[i]? = some page → ∀ field value, (field, value) ∈ panel →
    ∃ now, (field, now) ∈ page .stateXray ∧
      (now = value ∨ ∃ event ∈ events.take (i + 1), field ∈ keys (payload event))

def answered (str : Value → Except PyError String) (start resume : String → String → EventStream)
    (page : Page) (answer : String) : Page :=
  Function.update (afterSubmit str start resume page) .textbox answer

def startLeg (first : LegStream .start) (_userInput threadId : String) : EventStream :=
  orchestrateStart threadId (first.stream threadId)

def resumeLeg (second : LegStream .resume) (_userAnswer threadId : String) : EventStream :=
  Legs.orchestrateResume threadId (second.stream threadId)

def AccumulatesAcross (str : Value → Except PyError String) (first : LegStream .start)
    (second : LegStream .resume) (page : Page) (answer : String) : Prop :=
  Accumulates (answered str (startLeg first) (resumeLeg second) page answer .stateXray)
    (resumeLeg second answer
      (answered str (startLeg first) (resumeLeg second) page answer .stateThreadId)).events
    (submitPages str (startLeg first) (resumeLeg second)
      (answered str (startLeg first) (resumeLeg second) page answer))

theorem write_other {τ : Type} {outputs : List (Output τ)} {component : Component}
    (other : ∀ output ∈ outputs, output.component ≠ component) (page : Page) (tuple : τ) :
    page.write outputs tuple component = page component := by
  induction outputs generalizing page with
  | nil => rfl
  | cons output outputs ih =>
      obtain ⟨different, later⟩ := List.forall_mem_cons.mp other
      have rest := ih later (Function.update page output.component (output.value tuple))
      rw [Function.update_of_ne different.symm] at rest
      exact rest

theorem shownPages_snapshot {page shown : Page} {tuples : List Update}
    (member : shown ∈ shownPages page tuples) : shown .stateStateSnapshot = page .stateStateSnapshot := by
  induction tuples generalizing page with
  | nil => cases member
  | cons tuple tuples ih =>
      have kept : (page.write submitOutputs tuple) .stateStateSnapshot = page .stateStateSnapshot :=
        write_other (by decide) page tuple
      rcases List.mem_cons.mp member with first | later
      · rw [first, kept]
      · rw [ih later, kept]

theorem Reachable.snapshot {str : Value → Except PyError String} {page : Page}
    (reached : Reachable str page) : page .stateStateSnapshot = [] := by
  induction reached with
  | built initialThreadId => rfl
  | typed text reached ih => exact ih
  | submitted start resume reached member ih => rw [shownPages_snapshot member, ih]
  | @newSession page newThreadId reached ih => rw [write_other (by decide) page newThreadId, ih]

theorem afterSubmit_snapshot (str : Value → Except PyError String)
    (start resume : String → String → EventStream) (page : Page) :
    afterSubmit str start resume page .stateStateSnapshot = page .stateStateSnapshot := by
  rcases List.mem_cons.mp List.getLastD_mem_cons with same | member
  · rw [afterSubmit, same]
  · exact shownPages_snapshot member

section
variable {str : Value → Except PyError String}

structure Shows (page : Page) (shown : Update) : Prop where
  snapshot : page .stateXray = shown.snapshot
  mode : page .stateMode = shown.mode

theorem shows_write (page : Page) (tuple : Update) : Shows (page.write submitOutputs tuple) tuple :=
  ⟨rfl, rfl⟩

theorem shownPages_last (page : Page) {tuples : List Update} (yields : tuples ≠ []) (shown : Update) :
    Shows ((shownPages page tuples).getLastD page) (tuples.getLastD shown) := by
  induction tuples generalizing page shown with
  | nil => exact absurd rfl yields
  | cons tuple tuples ih =>
      rw [shownPages, List.getLastD_cons, List.getLastD_cons]
      cases tuples with
      | nil => exact shows_write page tuple
      | cons next tuples => exact ih _ (List.cons_ne_nil _ _) tuple

theorem submitLoop_yields {raised : Option PyError} {current : Update} {event : Dict} {events : List Dict} :
    (submitLoop str raised current (event :: events)).updates ≠ [] := by
  cases shown : render str event current.chat current.snapshot with
  | error exc =>
      rw [submitLoop_error shown]
      exact List.cons_ne_nil _ _
  | ok rendered =>
      rw [submitLoop_ok shown]
      exact List.cons_ne_nil _ _

theorem submitLoop_rendered {raised : Option PyError} {current : Update} {events : List Dict}
    (caught : (submitLoop str raised current events).caught = none) :
    ∃ chat, renderAll str events current.chat current.snapshot =
      .ok (chat, ((submitLoop str raised current events).updates.getLastD current).snapshot) := by
  induction events generalizing current with
  | nil =>
      cases raised with
      | some exc => cases caught
      | none => exact ⟨current.chat, rfl⟩
  | cons event events ih =>
      cases shown : render str event current.chat current.snapshot with
      | error exc =>
          rw [submitLoop_error shown] at caught
          cases caught
      | ok rendered =>
          rw [submitLoop_ok shown] at caught ⊢
          obtain ⟨chat, later⟩ := ih caught
          refine ⟨chat, bind_eq_ok.mpr ⟨rendered, shown, ?_⟩⟩
          rw [List.getLastD_cons]
          exact later

theorem newMode_quiet {event : Dict} (quiet : kindOf event ≠ some .awaitingUser) :
    newMode event AWAITING_SUBMIT = AWAITING_SUBMIT := by
  unfold newMode
  split
  case h_1 kind => exact absurd kind quiet
  case h_2 => rfl
  case h_3 => rfl

theorem submitLoop_turned {raised : Option PyError} {current : Update} {quiet : List Dict} {last : Dict}
    (ready : current.mode = AWAITING_SUBMIT) (silent : ∀ event ∈ quiet, kindOf event ≠ some .awaitingUser)
    (ends : raised.isSome → kindOf last ≠ some .awaitingUser)
    (turned : ((submitLoop str raised current (quiet ++ [last])).updates.getLastD current).mode =
      AWAITING_USER_ANSWER) :
    (submitLoop str raised current (quiet ++ [last])).caught = none := by
  have stays : current.mode ≠ AWAITING_USER_ANSWER := by
    rw [ready]
    decide
  induction quiet generalizing current with
  | nil =>
      cases shown : render str last current.chat current.snapshot with
      | error exc =>
          rw [List.nil_append, submitLoop_error shown] at turned
          exact absurd turned stays
      | ok rendered =>
          rw [List.nil_append, submitLoop_ok shown] at turned ⊢
          cases raised with
          | none => rfl
          | some exc =>
              have unturned := newMode_quiet (ends rfl)
              rw [← ready] at unturned
              exact absurd (unturned.symm.trans turned) stays
  | cons event quiet ih =>
      obtain ⟨first, later⟩ := List.forall_mem_cons.mp silent
      rw [List.cons_append] at turned ⊢
      cases shown : render str event current.chat current.snapshot with
      | error exc =>
          rw [submitLoop_error shown] at turned
          exact absurd turned stays
      | ok rendered =>
          rw [submitLoop_ok shown] at turned ⊢
          rw [List.getLastD_cons] at turned
          have kept : (advance current event rendered).mode = AWAITING_SUBMIT := by
            rw [advance, ready]
            exact newMode_quiet first
          exact ih kept later turned (kept ▸ by decide)

end

theorem mem_keys_filterEntries {rawState : Dict} {key : String} :
    key ∈ keys (filterEntries rawState) ↔ key ∈ keys rawState ∧ key ∈ STATE_DISPLAY_FIELDS := by
  rw [filterEntries_eq, mem_keys_update, keys_view, List.mem_filter, decide_eq_true_eq]
  simp

theorem mem_keys_merge {payloads : List Dict} {key : String} :
    key ∈ keys (merge payloads) ↔ ∃ entries ∈ payloads, key ∈ keys entries := by
  induction payloads using List.reverseRecOn with
  | nil => simp [merge]
  | append_singleton payloads last ih =>
      rw [merge, List.foldl_append]
      refine mem_keys_update.trans ?_
      rw [← merge, ih]
      simp [or_and_right, exists_or]

theorem sinceStart_cons {first : Dict} (start : starts first = true) {later : List Dict}
    (silent : ∀ event ∈ later, starts event = false) : sinceStart (first :: later) = later := by
  induction later using List.reverseRecOn with
  | nil => simp [sinceStart, start, List.rtakeWhile]
  | append_singleton later last ih =>
      have before := ih fun event member => silent event (List.mem_append_left _ member)
      have stays := silent last (by simp)
      rw [sinceStart, ← List.cons_append, List.rtakeWhile_concat_pos _ _ _ (by simp [stays]), ← sinceStart,
        before]

theorem displayed_eq_nil_iff (events : List Dict) :
    displayed events = [] ↔
      ∀ event ∈ sinceStart events, ∀ key ∈ keys (payload event), key ∉ STATE_DISPLAY_FIELDS := by
  have fields (key : String) : key ∈ keys (displayed events) ↔
      (∃ event ∈ sinceStart events, key ∈ keys (payload event)) ∧ key ∈ STATE_DISPLAY_FIELDS := by
    rw [displayed, mem_keys_filterEntries, mem_keys_merge]
    simp only [List.mem_map, exists_exists_and_eq_and]
  constructor
  · intro empty event member key inside listed
    have present := (fields key).mpr ⟨⟨event, member, inside⟩, listed⟩
    rw [empty] at present
    cases present
  · intro none
    rw [List.eq_nil_iff_forall_not_mem]
    intro entry member
    obtain ⟨⟨event, inside, has⟩, listed⟩ := (fields entry.1).mp (List.mem_map_of_mem member)
    exact none event inside entry.1 has listed

structure Quiet (event : Dict) : Prop where
  running : starts event = false
  silent : kindOf event ≠ some .awaitingUser

theorem nodeEvents_quiet {threadId node : String} {delta : Value} {block : List Dict}
    (events : NodeEvents threadId node delta block) : ∀ event ∈ block, Quiet event := by
  have completed : Quiet (nodeCompletedEvent node delta threadId) := ⟨rfl, by simp⟩
  have snapshot : Quiet (stateSnapshotEvent node delta threadId) := ⟨rfl, by simp⟩
  cases events with
  | plain => simp [completed, snapshot]
  | rewrite critiqueFeedback critique =>
      have rewrite : Quiet (coveRewriteEvent critiqueFeedback threadId) := ⟨rfl, by simp⟩
      simp [completed, snapshot, rewrite]

theorem nodeEvents_payload {threadId node : String} {delta : Value} {block : List Dict}
    (events : NodeEvents threadId node delta block) (key : String) :
    (∃ event ∈ block, key ∈ keys (payload event)) ↔ key ∈ keys (entriesOf delta) := by
  have completed : payload (nodeCompletedEvent node delta threadId) = entriesOf delta := rfl
  have snapshot : payload (stateSnapshotEvent node delta threadId) = entriesOf delta := rfl
  cases events with
  | plain => simp [completed, snapshot]
  | rewrite critiqueFeedback critique =>
      have rewrite : payload (coveRewriteEvent critiqueFeedback threadId) = [] := rfl
      simp [completed, snapshot, rewrite]

section
variable {threadId : String} {nodes : List (String × Value)} {blocks : List (List Dict)}

theorem blocks_quiet
    (events : List.Forall₂ (fun node block => NodeEvents threadId node.1 node.2 block) nodes blocks) :
    ∀ event ∈ blocks.flatten, Quiet event := by
  induction events with
  | nil => exact fun _ member => absurd member List.not_mem_nil
  | cons block later ih =>
      rw [List.flatten_cons, List.forall_mem_append]
      exact ⟨nodeEvents_quiet block, ih⟩

theorem blocks_payload
    (events : List.Forall₂ (fun node block => NodeEvents threadId node.1 node.2 block) nodes blocks)
    (key : String) : (∃ event ∈ blocks.flatten, key ∈ keys (payload event)) ↔
      ∃ node ∈ nodes, key ∈ keys (entriesOf node.2) := by
  induction events with
  | nil => simp
  | cons block later ih =>
      rw [List.exists_mem_cons_iff, ← ih, ← nodeEvents_payload block key]
      simp only [List.flatten_cons, List.mem_append, or_and_right, exists_or]

end

theorem startLeg_events (first : LegStream .start) (threadId : String) :
    ∃ quiet last, (orchestrateStart threadId (first.stream threadId)).events =
        Leg.start.startedEvent threadId :: quiet ++ [last] ∧
      (∀ event ∈ quiet, Quiet event) ∧ starts last = false ∧
      ((orchestrateStart threadId (first.stream threadId)).raised.isSome →
        kindOf last ≠ some .awaitingUser) ∧
      ∀ key, (∃ event ∈ quiet ++ [last], key ∈ keys (payload event)) ↔
        ∃ node ∈ first.nodes, key ∈ keys (entriesOf node.2) := by
  obtain ⟨blocks, last, events, grammatical, closes⟩ :=
    (Leg.orchestrate_grammatical (fun _ => rfl) (by decide) first threadId).events
  have closing : starts last = false ∧ payload last = [] ∧
      ((orchestrateStart threadId (first.stream threadId)).raised.isSome →
        kindOf last ≠ some .awaitingUser) := by
    cases ending : first.ending with
    | sentinel text =>
        rw [ending] at closes
        obtain ⟨same, returned⟩ := closes
        cases same
        refine ⟨rfl, rfl, fun raises => ?_⟩
        rw [orchestrateStart, returned] at raises
        cases raises
    | raised e =>
        rw [ending] at closes
        obtain ⟨same, -⟩ := closes
        cases same
        exact ⟨rfl, rfl, fun _ => by simp⟩
  obtain ⟨running, bare, silent⟩ := closing
  refine ⟨blocks.flatten, last, events, blocks_quiet grammatical, running, silent, ?_⟩
  intro key
  rw [← blocks_payload grammatical key]
  simp [bare, or_and_right, exists_or]

section
variable {str : Value → Except PyError String} {page : Page}

theorem startLeg_displayed (empty : page .stateStateSnapshot = []) (ready : page .stateMode = AWAITING_SUBMIT)
    (first : LegStream .start) (resume : String → String → EventStream)
    (asked : afterSubmit str (startLeg first) resume page .stateMode = AWAITING_USER_ANSWER) :
    afterSubmit str (startLeg first) resume page .stateXray =
      displayed (orchestrateStart (page .stateThreadId) (first.stream (page .stateThreadId))).events := by
  obtain ⟨quiet, last, events, silent, -, ends, -⟩ := startLeg_events first (page .stateThreadId)
  have run : submission str (startLeg first) resume page =
      submitLoop str (orchestrateStart (page .stateThreadId) (first.stream (page .stateThreadId))).raised
        (opening (page .textbox) (page .stateThreadId) (page .stateMode) (page .chatbot) [])
        (Leg.start.startedEvent (page .stateThreadId) :: quiet ++ [last]) := by
    rw [submission, onSubmit, generator, if_pos ready, empty, ← events]
    rfl
  have shows : Shows (afterSubmit str (startLeg first) resume page) _ :=
    shownPages_last page (run ▸ submitLoop_yields)
      (opening (page .textbox) (page .stateThreadId) (page .stateMode) (page .chatbot) [])
  rw [run] at shows
  have started : kindOf (Leg.start.startedEvent (page .stateThreadId)) ≠ some .awaitingUser := by simp
  have before : ∀ event ∈ Leg.start.startedEvent (page .stateThreadId) :: quiet,
      kindOf event ≠ some .awaitingUser :=
    List.forall_mem_cons.mpr ⟨started, fun event member => (silent event member).silent⟩
  have caught := submitLoop_turned ready before ends (shows.mode ▸ asked)
  obtain ⟨chat, rendered⟩ := submitLoop_rendered caught
  rw [shows.snapshot, events]
  exact renderAll_snapshot [] rendered

theorem startLeg_panel (empty : page .stateStateSnapshot = []) (ready : page .stateMode = AWAITING_SUBMIT)
    (first : LegStream .start) (resume : String → String → EventStream)
    (asked : afterSubmit str (startLeg first) resume page .stateMode = AWAITING_USER_ANSWER) :
    afterSubmit str (startLeg first) resume page .stateXray = [] ↔
      ∀ node ∈ first.nodes, ∀ key ∈ keys (entriesOf node.2), key ∉ STATE_DISPLAY_FIELDS := by
  obtain ⟨quiet, last, events, silent, running, -, written⟩ := startLeg_events first (page .stateThreadId)
  have later : ∀ event ∈ quiet ++ [last], starts event = false := by
    rw [List.forall_mem_append, List.forall_mem_singleton]
    exact ⟨fun event member => (silent event member).running, running⟩
  rw [startLeg_displayed empty ready first resume asked, displayed_eq_nil_iff, events, List.cons_append,
    sinceStart_cons rfl later]
  constructor
  · intro none node member key inside
    obtain ⟨event, present, has⟩ := (written key).mpr ⟨node, member, inside⟩
    exact none event present key has
  · intro none event present key has
    obtain ⟨node, member, inside⟩ := (written key).mp ⟨event, present, has⟩
    exact none node member key inside

theorem resumeLeg_first {page : Page} (empty : page .stateStateSnapshot = [])
    (asked : page .stateMode = AWAITING_USER_ANSWER) (start : String → String → EventStream)
    (second : LegStream .resume) :
    ∃ shown, (submitPages str start (resumeLeg second) page)[0]? = some shown ∧ shown .stateXray = [] := by
  have other : page .stateMode ≠ AWAITING_SUBMIT := by
    rw [asked]
    decide
  have run : submission str start (resumeLeg second) page = submitLoop str
      (resumeLeg second (page .textbox) (page .stateThreadId)).raised
      (opening (page .textbox) (page .stateThreadId) (page .stateMode) (page .chatbot) [])
      (resumeLeg second (page .textbox) (page .stateThreadId)).events := by
    rw [submission, onSubmit, generator, if_neg other, empty]
  rw [submitPages, run]
  exact ⟨_, rfl, rfl⟩

end

/-- The fields are kept exactly where the start leg has shown none. -/
theorem xray_accumulates_iff {str : Value → Except PyError String} {page : Page}
    (reached : Reachable str page) (ready : page .stateMode = AWAITING_SUBMIT) (first : LegStream .start)
    (second : LegStream .resume) (answer : String)
    (asked : afterSubmit str (startLeg first) (resumeLeg second) page .stateMode = AWAITING_USER_ANSWER) :
    AccumulatesAcross str first second page answer ↔
      ∀ node ∈ first.nodes, ∀ key ∈ keys (entriesOf node.2), key ∉ STATE_DISPLAY_FIELDS := by
  rw [← startLeg_panel reached.snapshot ready first (resumeLeg second) asked]
  constructor
  · intro accumulates
    have kept : answered str (startLeg first) (resumeLeg second) page answer .stateStateSnapshot = [] :=
      (afterSubmit_snapshot _ _ _ page).trans reached.snapshot
    obtain ⟨shown, yielded, bare⟩ := resumeLeg_first kept asked (startLeg first) second
    rw [List.eq_nil_iff_forall_not_mem]
    intro entry member
    obtain ⟨now, there, -⟩ := accumulates 0 shown yielded entry.1 entry.2 member
    exact absurd (bare ▸ there) List.not_mem_nil
  · intro empty i shown yielded field value member
    have same : answered str (startLeg first) (resumeLeg second) page answer .stateXray = [] := empty
    rw [same] at member
    cases member

def weighingLeg : LegStream .start where
  items := [some ("1_Context_Analyzer", .dict [("dilemma", .str "Rent or buy?")])]
  ending := .sentinel "What matters most?"
  isNode := by simp [Leg.start]
  isDelta := by simp [COVE_NODE_ID]

def answeringLeg : LegStream .resume where
  items := []
  ending := .sentinel "Rent."
  isNode := by simp
  isDelta := by simp

theorem dilemma_vanishes :
    ¬ AccumulatesAcross (fun _ => .ok "") weighingLeg answeringLeg (buildUi "t1") "Stability" := by
  intro accumulates
  have panel : answered (fun _ => .ok "") (startLeg weighingLeg) (resumeLeg answeringLeg) (buildUi "t1")
      "Stability" .stateXray = [("dilemma", .str "Rent or buy?")] := rfl
  obtain ⟨now, there, -⟩ := accumulates 0 _ rfl "dilemma" (.str "Rent or buy?") (panel ▸ List.mem_cons_self)
  exact absurd there List.not_mem_nil

theorem xray_accumulates_iff_asked :
    Reachable (fun _ => .ok "") (buildUi "t1") ∧ buildUi "t1" .stateMode = AWAITING_SUBMIT ∧
      afterSubmit (fun _ => .ok "") (startLeg weighingLeg) (resumeLeg answeringLeg) (buildUi "t1") .stateMode =
        AWAITING_USER_ANSWER ∧
      (AccumulatesAcross (fun _ => .ok "") weighingLeg answeringLeg (buildUi "t1") "Stability" ↔
        ∀ node ∈ weighingLeg.nodes, ∀ key ∈ keys (entriesOf node.2), key ∉ STATE_DISPLAY_FIELDS) := by
  have reached : Reachable (fun _ => .ok "") (buildUi "t1") := .built "t1"
  exact ⟨reached, rfl, rfl, xray_accumulates_iff reached rfl weighingLeg answeringLeg "Stability" rfl⟩

end DecisionMaker.Ui.Wiring
