import DecisionMaker.Library.Except
import DecisionMaker.Library.Keyed
import DecisionMaker.Ui.Legs
import Mathlib.Data.List.DropRight

namespace DecisionMaker.Ui.Presenter

open DecisionMaker.Library DecisionMaker.Ui.Legs

def NODE_DISPLAY_NAMES : List (String × String) :=
  [("1_Context_Analyzer", "Анализ контекста"),
    ("2_Tool_Node", "Поиск данных"),
    ("3_Weight_Questioner", "Формирование вопроса"),
    ("3.5_Weight_Parser", "Разбор приоритетов"),
    ("4_Draft_Generator", "Генерация черновика"),
    ("5_CoVe_Critique", "Самокритика (CoVe)"),
    ("6_Final_Synthesizer", "Финальный синтез")]

def STATE_DISPLAY_FIELDS : List String :=
  ["dilemma", "search_queries", "tool_facts", "weights", "rewrite_count", "critique_feedback",
    "decision", "final_answer", "last_question", "needs_rewrite"]

def MAX_VALUE_LENGTH : Nat := 500

def truncateText : Value → Value
  | .str s =>
      if MAX_VALUE_LENGTH < s.length then .str (String.ofList (s.toList.take MAX_VALUE_LENGTH) ++ "...")
      else .str s
  | v => v

def truncateItem : Value → Value
  | .dict entries => .dict (entries.map fun entry => (entry.1, truncateText entry.2))
  | item => truncateText item

def truncateValue : Value → Value
  | .list items => .list (items.map truncateItem)
  | v => truncateText v

def filterEntries (rawState : Dict) : Dict :=
  rawState.foldl (fun result entry =>
    if entry.1 ∈ STATE_DISPLAY_FIELDS then setEntry entry.1 (truncateValue entry.2) result else result) []

def filterStateForDisplay (rawState : Value) : Except PyError Dict :=
  if rawState.truthy then
    match rawState with
    | .dict entries => .ok (filterEntries entries)
    | other => .error (noAttribute other "items")
  else .ok []

section
variable (str : Value → Except PyError String)

def format : Value → Except PyError String
  | .str s => .ok s
  | v => str v

def nodeDisplay (nodeName : Value) : Except PyError Value :=
  match nodeName.orElse (.str "") with
  | .str s => .ok (.str ((NODE_DISPLAY_NAMES.lookup s).getD s))
  | .list _ => .error ⟨"TypeError", "unhashable type: 'list'"⟩
  | .dict _ => .error ⟨"TypeError", "unhashable type: 'dict'"⟩
  | v => .ok v

def shownText (v : Value) : Except PyError (Option String) :=
  if v.truthy then some <$> format str v else .ok none

def formatStatus (eventKind : EventKind) (nodeName rewriteCount : Value) : Except PyError String := do
  -- every text of the table is built before one is picked
  let node ← shownText str (← nodeDisplay nodeName)
  let count ← shownText str rewriteCount
  .ok <|
    match eventKind with
    | .sessionStarted => "⏳ Сессия запущена, анализирую дилемму..."
    | .nodeStarted => node.elim "⏳ Обработка..." fun name => "⏳ Узел " ++ name ++ ": начало обработки..."
    | .nodeCompleted => node.elim "✅ Узел завершён" fun name => "✅ Узел " ++ name ++ ": завершено"
    | .stateSnapshot =>
        node.elim "📊 Состояние обновлено" fun name => "📊 Состояние обновлено (" ++ name ++ ")"
    | .coveRewrite =>
        count.elim "🚨 Критик нашёл ошибку, переписываю..." fun attempt =>
          "🚨 Критик нашёл ошибку, переписываю (попытка " ++ attempt ++ "/2)"
    | .awaitingUser => "🤔 Нужен ваш ответ:"
    | .resumeStarted => "▶ Продолжаю сессию с вашим ответом..."
    | .finalAnswer => "✅ Готово"
    | .error => "❌ Произошла ошибка"

abbrev Chat := List Dict

def assistantMessage (content : Value) : Dict := [("role", .str "assistant"), ("content", content)]

structure Rendered where
  chat : Chat
  snapshot : Dict
  status : String

def kindOf (event : Dict) : Option EventKind :=
  match event.get "kind" (.str "") with
  | .str s => EventKind.all.find? fun kind => kind.name == s
  | _ => none

def render (event : Dict) (chatHistory : Chat) (stateSnapshot : Dict) : Except PyError Rendered :=
  match kindOf event with
  | some .sessionStarted => do
      let status ← formatStatus str .sessionStarted .none .none
      .ok ⟨chatHistory, [], status⟩
  | some .nodeStarted => do
      let status ← formatStatus str .nodeStarted (event.get "node" (.str "")) .none
      .ok ⟨chatHistory, stateSnapshot, status⟩
  | some .nodeCompleted => do
      let filtered ← filterStateForDisplay ((event.get "state_delta" .none).orElse (.dict []))
      let status ← formatStatus str .nodeCompleted (event.get "node" (.str "")) .none
      .ok ⟨chatHistory, update stateSnapshot filtered, status⟩
  | some .stateSnapshot => do
      let filtered ← filterStateForDisplay ((event.get "state_snapshot" .none).orElse (.dict []))
      let status ← formatStatus str .stateSnapshot (event.get "node" (.str "")) .none
      .ok ⟨chatHistory, update stateSnapshot filtered, status⟩
  | some .coveRewrite => do
      let critiqueFeedback ← format str (event.get "critique_feedback" (.str ""))
      let status ← formatStatus str .coveRewrite .none (stateSnapshot.get "rewrite_count" .none)
      .ok ⟨chatHistory ++ [assistantMessage (.str ("⚠️ CoVe-критика:\n\n" ++ critiqueFeedback))],
        stateSnapshot, status⟩
  | some .awaitingUser => do
      let status ← formatStatus str .awaitingUser .none .none
      .ok ⟨chatHistory ++ [assistantMessage (event.get "question" (.str ""))], stateSnapshot, status⟩
  | some .resumeStarted => do
      let status ← formatStatus str .resumeStarted .none .none
      .ok ⟨chatHistory, stateSnapshot, status⟩
  | some .finalAnswer => do
      let status ← formatStatus str .finalAnswer .none .none
      .ok ⟨chatHistory ++ [assistantMessage (event.get "final_answer" (.str ""))], stateSnapshot, status⟩
  | some .error => do
      let errorMessage ← format str (event.get "error_message" (.str "Неизвестная ошибка"))
      let status ← formatStatus str .error .none .none
      .ok ⟨chatHistory ++ [assistantMessage (.str ("❌ Ошибка: " ++ errorMessage))], stateSnapshot, status⟩
  | none => do
      let kind ← format str (event.get "kind" (.str ""))
      .ok ⟨chatHistory, stateSnapshot, "ℹ️ " ++ kind⟩

end

@[simp] theorem kindOf_startedEvent (threadId : String) :
    kindOf (Leg.start.startedEvent threadId) = some .sessionStarted := rfl

@[simp] theorem kindOf_nodeCompletedEvent (nodeId : String) (stateDelta : Value) (threadId : String) :
    kindOf (nodeCompletedEvent nodeId stateDelta threadId) = some .nodeCompleted := rfl

@[simp] theorem kindOf_stateSnapshotEvent (nodeId : String) (stateDelta : Value) (threadId : String) :
    kindOf (stateSnapshotEvent nodeId stateDelta threadId) = some .stateSnapshot := rfl

@[simp] theorem kindOf_coveRewriteEvent (critiqueFeedback : Value) (threadId : String) :
    kindOf (coveRewriteEvent critiqueFeedback threadId) = some .coveRewrite := rfl

@[simp] theorem kindOf_errorEvent (e : PyError) (threadId : String) :
    kindOf (errorEvent e threadId) = some .error := rfl

def starts (event : Dict) : Bool := decide (kindOf event = some .sessionStarted)

def entriesOf : Value → Dict
  | .dict entries => entries
  | _ => []

def payload (event : Dict) : Dict :=
  match kindOf event with
  | some .nodeCompleted => entriesOf (event.get "state_delta" .none)
  | some .stateSnapshot => entriesOf (event.get "state_snapshot" .none)
  | _ => []

def sinceStart (events : List Dict) : List Dict := events.rtakeWhile fun event => !starts event

def merge (payloads : List Dict) : Dict := payloads.foldl update []

def displayed (events : List Dict) : Dict := filterEntries (merge ((sinceStart events).map payload))

theorem filterEntries_eq (rawState : Dict) : filterEntries rawState =
    update [] (view (fun key => decide (key ∈ STATE_DISPLAY_FIELDS)) truncateValue rawState) := by
  rw [← foldl_setEntry]
  simp only [filterEntries, decide_eq_true_eq]

theorem mem_filterEntries {rawState : Dict} {entry : String × Value}
    (member : entry ∈ filterEntries rawState) : entry.1 ∈ STATE_DISPLAY_FIELDS ∧
      ∃ value, (entry.1, value) ∈ rawState ∧ entry.2 = truncateValue value := by
  rw [filterEntries_eq] at member
  obtain ⟨kept, raw⟩ := mem_view ((mem_update member).resolve_left List.not_mem_nil)
  exact ⟨of_decide_eq_true kept, raw⟩

theorem filterEntries_nodup (rawState : Dict) : (keys (filterEntries rawState)).Nodup := by
  rw [filterEntries_eq]
  exact update_nodup nodup_keys_nil _

theorem merge_nodup (payloads : List Dict) : (keys (merge payloads)).Nodup := by
  induction payloads using List.reverseRecOn with
  | nil => exact nodup_keys_nil
  | append_singleton payloads last ih =>
      rw [merge, List.foldl_append]
      exact update_nodup ih last

theorem filterEntries_update {d : Dict} (distinct : (keys d).Nodup) (e : Dict) :
    filterEntries (update d e) = update (filterEntries d) (filterEntries e) := by
  have kept : (keys (view (fun key => decide (key ∈ STATE_DISPLAY_FIELDS)) truncateValue d)).Nodup := by
    rw [keys_view]
    exact distinct.filter _
  rw [filterEntries_eq, view_update, update_assoc kept, ← filterEntries_eq, filterEntries_eq e,
    update_update_nil]

theorem displayed_append (events : List Dict) (event : Dict) :
    displayed (events ++ [event]) =
      if starts event then [] else update (displayed events) (filterEntries (payload event)) := by
  by_cases start : starts event
  · rw [displayed, sinceStart, List.rtakeWhile_concat_neg _ _ _ (by simp [start]), if_pos start]
    rfl
  · rw [displayed, sinceStart, List.rtakeWhile_concat_pos _ _ _ (by simp [start]), if_neg start,
      List.map_append, merge, List.foldl_append]
    exact filterEntries_update (merge_nodup _) _

theorem filterStateForDisplay_or {v : Value} {filtered : Dict}
    (read : filterStateForDisplay (v.orElse (.dict [])) = .ok filtered) :
    filtered = filterEntries (entriesOf v) := by
  by_cases truthy : v.truthy
  · rw [Value.orElse, if_pos truthy] at read
    unfold filterStateForDisplay at read
    rw [if_pos truthy] at read
    cases v <;> cases read
    rfl
  · rw [Value.orElse, if_neg truthy] at read
    cases read
    cases v with
    | dict entries =>
        cases entries with
        | nil => rfl
        | cons entry entries => exact absurd rfl truthy
    | _ => rfl

section
variable {str : Value → Except PyError String}

theorem render_snapshot {event : Dict} {chat : Chat} {snapshot : Dict} {shown : Rendered}
    (rendered : render str event chat snapshot = .ok shown) :
    shown.snapshot = if starts event then [] else update snapshot (filterEntries (payload event)) := by
  unfold render at rendered
  rw [starts, payload]
  split at rendered
  case h_1 kind =>
    obtain ⟨status, -, same⟩ := bind_eq_ok.mp rendered
    cases same
    simp [kind]
  case h_3 kind | h_4 kind =>
    obtain ⟨filtered, read, later⟩ := bind_eq_ok.mp rendered
    obtain ⟨status, -, same⟩ := bind_eq_ok.mp later
    cases same
    simp [kind, filterStateForDisplay_or read]
  case h_5 kind | h_9 kind =>
    obtain ⟨text, -, later⟩ := bind_eq_ok.mp rendered
    obtain ⟨status, -, same⟩ := bind_eq_ok.mp later
    cases same
    simp [kind, filterEntries]
  all_goals
    rename_i kind
    obtain ⟨status, -, same⟩ := bind_eq_ok.mp rendered
    cases same
    simp [kind, filterEntries]

end

def ShortText (v : Value) : Prop := ∀ s, v = .str s → s.length ≤ MAX_VALUE_LENGTH + 3

structure ShortValue (v : Value) : Prop where
  text : ShortText v
  items : ∀ items, v = .list items → ∀ item ∈ items, ShortText item
  fields : ∀ items, v = .list items → ∀ entries, .dict entries ∈ items → ∀ entry ∈ entries,
    ShortText entry.2

theorem shortText_truncateText (v : Value) : ShortText (truncateText v) := by
  intro s same
  cases v with
  | str text =>
      simp only [truncateText] at same
      split at same <;> cases same
      · have dots : "...".length = 3 := rfl
        rw [String.length_append, String.length_ofList, List.length_take, dots]
        omega
      · omega
  | _ => cases same

theorem truncateText_str (s : String) : ∃ text, truncateText (.str s) = .str text := by
  simp only [truncateText]
  split <;> exact ⟨_, rfl⟩

theorem shortText_truncateItem (item : Value) : ShortText (truncateItem item) := by
  cases item with
  | str s => exact shortText_truncateText (.str s)
  | _ => exact fun _ same => (by cases same)

theorem shortValue_truncateValue (v : Value) : ShortValue (truncateValue v) := by
  cases v with
  | list items =>
      refine ⟨fun _ same => (by cases same), ?_, ?_⟩
      · intro shown same item member
        cases same
        obtain ⟨raw, -, cut⟩ := List.mem_map.mp member
        exact cut ▸ shortText_truncateItem raw
      · intro shown same entries member entry inside
        cases same
        obtain ⟨raw, -, cut⟩ := List.mem_map.mp member
        cases raw with
        | dict rawEntries =>
            cases cut
            obtain ⟨field, -, same⟩ := List.mem_map.mp inside
            exact same ▸ shortText_truncateText field.2
        | str s =>
            obtain ⟨text, kept⟩ := truncateText_str s
            cases kept.symm.trans cut
        | _ => cases cut
  | str s =>
      obtain ⟨text, kept⟩ := truncateText_str s
      refine ⟨shortText_truncateText (.str s), ?_, ?_⟩
      · intro items same
        cases kept.symm.trans same
      · intro items same
        cases kept.symm.trans same
  | _ => exact ⟨fun _ same => (by cases same), fun _ same => (by cases same), fun _ same => (by cases same)⟩

theorem filterEntries_shown {rawState : Dict} {entry : String × Value}
    (member : entry ∈ filterEntries rawState) :
    entry.1 ∈ STATE_DISPLAY_FIELDS ∧ ShortValue entry.2 := by
  obtain ⟨kept, value, -, same⟩ := mem_filterEntries member
  exact ⟨kept, same ▸ shortValue_truncateValue value⟩

section
variable (str : Value → Except PyError String)

def HasText (v : Value) : Prop := ∃ text, format str v = .ok text

/--
The fields are of the types that the schema of the events gives them, or falsy, and what is put into a
text has one: the fields that the schema makes texts do, and so must the count of the rewrites.
-/
structure Documented (event : Dict) : Prop where
  kind : HasText str (event.get "kind" (.str ""))
  node : ∃ s, (event.get "node" (.str "")).orElse (.str "") = .str s
  stateDelta : ∃ entries, (event.get "state_delta" .none).orElse (.dict []) = .dict entries
  stateSnapshot : ∃ entries, (event.get "state_snapshot" .none).orElse (.dict []) = .dict entries
  critiqueFeedback : HasText str (event.get "critique_feedback" (.str ""))
  errorMessage : HasText str (event.get "error_message" (.str "Неизвестная ошибка"))
  rewriteCount : ∀ count, ("rewrite_count", count) ∈ payload event → HasText str (truncateValue count)

def Counted (snapshot : Dict) : Prop :=
  ∀ count, ("rewrite_count", count) ∈ snapshot → HasText str count

def renderAll : List Dict → Chat → Dict → Except PyError (Chat × Dict)
  | [], chat, snapshot => .ok (chat, snapshot)
  | event :: events, chat, snapshot => do
      let shown ← render str event chat snapshot
      renderAll events shown.chat shown.snapshot

variable {str}

theorem renderAll_snapshot {events : List Dict} (before : List Dict) {chat chat' : Chat} {snapshot : Dict}
    (rendered : renderAll str events chat (displayed before) = .ok (chat', snapshot)) :
    snapshot = displayed (before ++ events) := by
  induction events generalizing before chat with
  | nil =>
      cases rendered
      rw [List.append_nil]
  | cons event events ih =>
      obtain ⟨shown, first, later⟩ := bind_eq_ok.mp rendered
      rw [render_snapshot first, ← displayed_append] at later
      rw [ih (before ++ [event]) later, List.append_assoc, List.singleton_append]

theorem nodeDisplay_str {nodeName : Value} (named : ∃ s, nodeName.orElse (.str "") = .str s) :
    ∃ name, nodeDisplay nodeName = .ok (.str name) := by
  obtain ⟨s, read⟩ := named
  rw [nodeDisplay, read]
  exact ⟨_, rfl⟩

theorem filterStateForDisplay_dict {v : Value} (documented : ∃ entries, v = .dict entries) :
    ∃ filtered, filterStateForDisplay v = .ok filtered := by
  obtain ⟨entries, same⟩ := documented
  cases same
  cases entries <;> exact ⟨_, rfl⟩

theorem shownText_returns {v : Value} (printed : v.truthy → HasText str v) :
    ∃ text, shownText str v = .ok text := by
  unfold shownText
  split
  · rename_i truthy
    obtain ⟨text, formatted⟩ := printed truthy
    exact ⟨some text, by rw [formatted]; rfl⟩
  · exact ⟨none, rfl⟩

theorem formatStatus_returns (eventKind : EventKind) {nodeName rewriteCount : Value}
    (named : ∃ name, nodeDisplay nodeName = .ok (.str name))
    (counted : rewriteCount.truthy → HasText str rewriteCount) :
    ∃ status, formatStatus str eventKind nodeName rewriteCount = .ok status := by
  obtain ⟨name, display⟩ := named
  have printed : HasText str (.str name) := ⟨name, rfl⟩
  obtain ⟨node, shown⟩ := shownText_returns fun _ => printed
  obtain ⟨count, shownCount⟩ := shownText_returns counted
  exact ⟨_, bind_eq_ok.mpr ⟨.str name, display, bind_eq_ok.mpr ⟨node, shown,
    bind_eq_ok.mpr ⟨count, shownCount, rfl⟩⟩⟩⟩

theorem Counted.get {snapshot : Dict} (counted : Counted str snapshot)
    (truthy : (snapshot.get "rewrite_count" .none).truthy) :
    HasText str (snapshot.get "rewrite_count" .none) := by
  rw [Dict.get] at truthy ⊢
  cases found : snapshot.lookup "rewrite_count" with
  | none =>
      rw [found] at truthy
      cases truthy
  | some count =>
      obtain ⟨before, after, split, -⟩ := List.lookup_eq_some_iff.mp found
      exact counted count (split ▸ List.mem_append_right _ List.mem_cons_self)

theorem Counted.render {event : Dict} (documented : Documented str event) {chat : Chat} {snapshot : Dict}
    (counted : Counted str snapshot) {shown : Rendered}
    (rendered : render str event chat snapshot = .ok shown) : Counted str shown.snapshot := by
  intro count member
  rw [render_snapshot rendered] at member
  split at member
  · cases member
  · rcases mem_update member with old | new
    · exact counted count old
    · obtain ⟨-, raw, brought, same⟩ := mem_filterEntries new
      cases same
      exact documented.rewriteCount raw brought

theorem render_returns {event : Dict} (documented : Documented str event) (chat : Chat) {snapshot : Dict}
    (counted : Counted str snapshot) : ∃ shown, Presenter.render str event chat snapshot = .ok shown := by
  have unnamed : ∃ name, nodeDisplay .none = .ok (.str name) := ⟨_, rfl⟩
  have uncounted : Value.none.truthy → HasText str .none := fun truthy => by cases truthy
  have named := nodeDisplay_str documented.node
  unfold Presenter.render
  split
  case h_2 =>
    obtain ⟨status, formatted⟩ := formatStatus_returns .nodeStarted named uncounted
    exact ⟨_, bind_eq_ok.mpr ⟨status, formatted, rfl⟩⟩
  case h_3 =>
    obtain ⟨filtered, read⟩ := filterStateForDisplay_dict documented.stateDelta
    obtain ⟨status, formatted⟩ := formatStatus_returns .nodeCompleted named uncounted
    exact ⟨_, bind_eq_ok.mpr ⟨filtered, read, bind_eq_ok.mpr ⟨status, formatted, rfl⟩⟩⟩
  case h_4 =>
    obtain ⟨filtered, read⟩ := filterStateForDisplay_dict documented.stateSnapshot
    obtain ⟨status, formatted⟩ := formatStatus_returns .stateSnapshot named uncounted
    exact ⟨_, bind_eq_ok.mpr ⟨filtered, read, bind_eq_ok.mpr ⟨status, formatted, rfl⟩⟩⟩
  case h_5 =>
    obtain ⟨feedback, text⟩ := documented.critiqueFeedback
    obtain ⟨status, formatted⟩ := formatStatus_returns .coveRewrite unnamed counted.get
    exact ⟨_, bind_eq_ok.mpr ⟨feedback, text, bind_eq_ok.mpr ⟨status, formatted, rfl⟩⟩⟩
  case h_9 =>
    obtain ⟨message, text⟩ := documented.errorMessage
    obtain ⟨status, formatted⟩ := formatStatus_returns .error unnamed uncounted
    exact ⟨_, bind_eq_ok.mpr ⟨message, text, bind_eq_ok.mpr ⟨status, formatted, rfl⟩⟩⟩
  case h_10 =>
    obtain ⟨kind, text⟩ := documented.kind
    exact ⟨_, bind_eq_ok.mpr ⟨kind, text, rfl⟩⟩
  all_goals
    obtain ⟨status, formatted⟩ := formatStatus_returns _ unnamed uncounted
    exact ⟨_, bind_eq_ok.mpr ⟨status, formatted, rfl⟩⟩

theorem renderAll_returns {events : List Dict} (documented : ∀ event ∈ events, Documented str event)
    (chat : Chat) {snapshot : Dict} (counted : Counted str snapshot) :
    ∃ chat' snapshot', renderAll str events chat snapshot = .ok (chat', snapshot') := by
  induction events generalizing chat snapshot with
  | nil => exact ⟨chat, snapshot, rfl⟩
  | cons event events ih =>
      obtain ⟨first, later⟩ := List.forall_mem_cons.mp documented
      obtain ⟨shown, rendered⟩ := render_returns first chat counted
      obtain ⟨chat', snapshot', rest⟩ := ih later shown.chat (counted.render first rendered)
      exact ⟨chat', snapshot', bind_eq_ok.mpr ⟨shown, rendered, rest⟩⟩

theorem renderAll_displayed {events : List Dict} (documented : ∀ event ∈ events, Documented str event)
    (chat : Chat) : ∃ chat', renderAll str events chat [] = .ok (chat', displayed events) := by
  have counted : Counted str [] := fun _ member => absurd member List.not_mem_nil
  obtain ⟨chat', snapshot, rendered⟩ := renderAll_returns documented chat counted
  have same : snapshot = displayed ([] ++ events) := renderAll_snapshot [] rendered
  exact ⟨chat', same ▸ rendered⟩

end

theorem displayed_congr {events others : List Dict} (same : displayed events = displayed others)
    (later : List Dict) : displayed (events ++ later) = displayed (others ++ later) := by
  induction later using List.reverseRecOn with
  | nil => rwa [List.append_nil, List.append_nil]
  | append_singleton later event ih =>
      rw [← List.append_assoc, ← List.append_assoc, displayed_append, displayed_append, ih]

theorem displayed_repeated (before later : List Dict) (nodeId : String) (delta : Value) (threadId : String)
    {once : Dict} (either : once = nodeCompletedEvent nodeId delta threadId ∨
      once = stateSnapshotEvent nodeId delta threadId) :
    displayed (before ++ nodeCompletedEvent nodeId delta threadId ::
        stateSnapshotEvent nodeId delta threadId :: later) = displayed (before ++ once :: later) := by
  have silent : starts once = false := by rcases either with same | same <;> cases same <;> rfl
  have added : payload once = entriesOf delta := by rcases either with same | same <;> cases same <;> rfl
  have twice : displayed (before ++ [nodeCompletedEvent nodeId delta threadId] ++
      [stateSnapshotEvent nodeId delta threadId]) = displayed (before ++ [once]) := by
    rw [displayed_append, displayed_append, displayed_append, silent, added]
    exact update_update_self (filterEntries_nodup _) _
  have behind := displayed_congr twice later
  simpa only [List.append_assoc, List.cons_append, List.nil_append] using behind

section
variable {str : Value → Except PyError String}

theorem orElse_str (s : String) : ∃ text, (Value.str s).orElse (.str "") = .str text := by
  unfold Value.orElse
  split <;> exact ⟨_, rfl⟩

theorem orElse_dict (entries : Dict) :
    ∃ shown, (Value.dict entries).orElse (.dict []) = .dict shown := by
  unfold Value.orElse
  split <;> exact ⟨_, rfl⟩

theorem documented_payload {nodeId : String} {delta : Dict} {threadId : String} {event : Dict}
    (either : event = nodeCompletedEvent nodeId (.dict delta) threadId ∨
      event = stateSnapshotEvent nodeId (.dict delta) threadId) :
    Documented str event ↔
      ∀ count, ("rewrite_count", count) ∈ delta → HasText str (truncateValue count) := by
  rcases either with same | same
  · cases same
    exact ⟨Documented.rewriteCount, fun counted =>
      ⟨⟨_, rfl⟩, orElse_str nodeId, orElse_dict delta, ⟨[], rfl⟩, ⟨_, rfl⟩, ⟨_, rfl⟩, counted⟩⟩
  · cases same
    exact ⟨Documented.rewriteCount, fun counted =>
      ⟨⟨_, rfl⟩, orElse_str nodeId, ⟨[], rfl⟩, orElse_dict delta, ⟨_, rfl⟩, ⟨_, rfl⟩, counted⟩⟩

/-- The panel shows what the payloads since the last start come to. -/
theorem xray_refines {events : List Dict} (documented : ∀ event ∈ events, Documented str event)
    (chat : Chat) :
    (∃ chat', renderAll str events chat [] = .ok (chat', displayed events)) ∧
      (∀ entry ∈ displayed events, entry.1 ∈ STATE_DISPLAY_FIELDS ∧ ShortValue entry.2) ∧
      ∀ (before later : List Dict) (nodeId : String) (delta : Dict) (threadId : String) (once : Dict),
        once = nodeCompletedEvent nodeId (.dict delta) threadId ∨
            once = stateSnapshotEvent nodeId (.dict delta) threadId →
          events = before ++ once :: later →
            ∃ chat', renderAll str (before ++ nodeCompletedEvent nodeId (.dict delta) threadId ::
              stateSnapshotEvent nodeId (.dict delta) threadId :: later) chat [] =
                .ok (chat', displayed events) := by
  refine ⟨renderAll_displayed documented chat, fun _ member => filterEntries_shown member, ?_⟩
  intro before later nodeId delta threadId once either split
  cases split
  have counted := (documented_payload either).mp
    (documented once (List.mem_append_right _ List.mem_cons_self))
  rw [← displayed_repeated before later nodeId (.dict delta) threadId either]
  apply renderAll_displayed
  intro event member
  rcases List.mem_append.mp member with inside | behind
  · exact documented event (List.mem_append_left _ inside)
  · rcases List.mem_cons.mp behind with first | rest
    · exact (documented_payload (.inl first)).mpr counted
    · rcases List.mem_cons.mp rest with second | last
      · exact (documented_payload (.inr second)).mpr counted
      · exact documented event (List.mem_append_right _ (.tail _ last))

end

theorem xray_refines_restarted :
    (∀ event ∈ [nodeCompletedEvent "1" (.dict [("dilemma", .str "Rent?")]) "t1",
        Leg.start.startedEvent "t2",
        nodeCompletedEvent "2" (.dict [("draft", .str "No."), ("decision", .str "Buy.")]) "t2"],
      Documented (fun _ => .ok "") event) ∧
    ∃ chat', renderAll (fun _ => .ok "") [nodeCompletedEvent "1" (.dict [("dilemma", .str "Rent?")]) "t1",
        Leg.start.startedEvent "t2",
        nodeCompletedEvent "2" (.dict [("draft", .str "No."), ("decision", .str "Buy.")]) "t2"] [] [] =
      .ok (chat', [("decision", .str "Buy.")]) := by
  have documented : ∀ event ∈ [nodeCompletedEvent "1" (.dict [("dilemma", .str "Rent?")]) "t1",
      Leg.start.startedEvent "t2",
      nodeCompletedEvent "2" (.dict [("draft", .str "No."), ("decision", .str "Buy.")]) "t2"],
      Documented (fun _ => .ok "") event := by
    simp only [List.forall_mem_cons]
    refine ⟨(documented_payload (.inl rfl)).mpr ?_, ?_, (documented_payload (.inl rfl)).mpr ?_,
      fun _ member => absurd member List.not_mem_nil⟩
    · simp
    · exact ⟨⟨_, rfl⟩, ⟨"", rfl⟩, ⟨[], rfl⟩, ⟨[], rfl⟩, ⟨_, rfl⟩, ⟨_, rfl⟩,
        fun _ member => absurd member List.not_mem_nil⟩
    · simp
  exact ⟨documented, (xray_refines documented []).1⟩

end DecisionMaker.Ui.Presenter
