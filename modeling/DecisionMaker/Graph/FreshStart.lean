import DecisionMaker.Graph.Gate

namespace DecisionMaker.Graph

def Node.prompt (s : DecisionMakerState) : Node → Option Prompt
  | .contextAnalyzer => some (.contextAnalyzer (s.userInput.getD "") (s.toolFacts.getD []))
  | .toolNode => none
  | .weightQuestioner => some
      (.weightQuestioner (s.userInput.getD "") (getOr s.dilemma (.str "")) (s.toolFacts.getD []))
  | .weightParser => some
      (.weightParser (getOr s.lastQuestion (.str "")) (s.userAnswer.getD ""))
  | .draftGenerator => some
      (.draftGenerator (s.userInput.getD "") (getOr s.dilemma (.str "")) (getOr s.weights (.dict []))
        (s.toolFacts.getD []) (getOr s.critiqueFeedback (.str "")))
  | .coveCritique => some
      (.coveCritique (s.userInput.getD "") (getOr s.dilemma (.str "")) (getOr s.weights (.dict []))
        (s.toolFacts.getD []) (s.draftAnalysis.getD "") (s.rewriteCount.getD 0))
  | .finalSynthesizer => some
      (.finalSynthesizer (s.draftAnalysis.getD "") (s.userInput.getD "")
        (getOr s.dilemma (.str "")) (getOr s.weights (.dict [])))

def Node.finish (w : World) (s : DecisionMakerState) :
    Node → String → Except NodeError DecisionMakerState
  | .contextAnalyzer, raw => contextAnalyzer.stateWrite <$> w.safeJsonParse raw
  | .toolNode, _ => Graph.toolNode w s
  | .weightQuestioner, raw => weightQuestioner.stateWrite <$> w.safeJsonParse raw
  | .weightParser, raw => weightParser.stateWrite <$> w.safeJsonParse raw
  | .draftGenerator, raw => .ok { draftAnalysis := some raw }
  | .coveCritique, raw =>
      coveCritique.stateWrite (s.rewriteCount.getD 0) <$> w.safeJsonParse raw
  | .finalSynthesizer, raw => .ok { finalAnswer := some raw }

theorem Node.run_prompt {n : Node} {s : DecisionMakerState} {p : Prompt}
    (asks : n.prompt s = some p) (w : World) :
    n.run w s = w.invokeLlmAsync p >>= n.finish w s := by
  cases n <;> cases asks <;> rfl

structure NodeCall where
  node : Node
  prompt : Option Prompt
  output : Except NodeError DecisionMakerState

def nodeCall (w : World) (n : Node) (s : DecisionMakerState) : NodeCall :=
  ⟨n, n.prompt s, n.run w s⟩

/-- The calls of one leg, one for each execution and one for the attempt that raised. -/
def nodeCalls : List World → Checkpoint → List NodeCall
  | [], _ => []
  | w :: worlds, cp =>
      match cp.next with
      | none => []
      | some n =>
          nodeCall w n cp.values ::
            match cp.commit w n with
            | .error _ => []
            | .ok (_, cp') => if n ∈ interruptAfter then [] else nodeCalls worlds cp'

section
variable {cp cp' : Checkpoint} {w : World} {n : Node} {x : Exec} {e : NodeError}

theorem nodeCalls_finished (pending : cp.next = none) (worlds : List World) :
    nodeCalls worlds cp = [] := by
  cases worlds <;> simp [nodeCalls, pending]

theorem nodeCalls_raised (pending : cp.next = some n) (action : cp.commit w n = .error e)
    (worlds : List World) : nodeCalls (w :: worlds) cp = [nodeCall w n cp.values] := by
  simp [nodeCalls, pending, action]

theorem nodeCalls_interrupted (pending : cp.next = some n) (action : cp.commit w n = .ok (x, cp'))
    (gate : n ∈ interruptAfter) (worlds : List World) :
    nodeCalls (w :: worlds) cp = [nodeCall w n cp.values] := by
  simp only [nodeCalls, pending, action, if_pos gate]

theorem nodeCalls_committed (pending : cp.next = some n) (action : cp.commit w n = .ok (x, cp'))
    (through : n ∉ interruptAfter) (worlds : List World) :
    nodeCalls (w :: worlds) cp = nodeCall w n cp.values :: nodeCalls worlds cp' := by
  simp only [nodeCalls, pending, action, if_neg through]

theorem nodeCalls_head (pending : cp.next = some n) (worlds : List World) :
    (nodeCalls (w :: worlds) cp).head? = some (nodeCall w n cp.values) := by
  simp [nodeCalls, pending]

end

/-- A session under one deterministic LLM and search: a start of at most `starts` node executions,
then a resume of at most `resumes`. -/
def sessionCalls (stored : Option Checkpoint) (w : World) (userInput userAnswer : String)
    (starts resumes : Nat) : List NodeCall :=
  let entered := (Call.start userInput).entry stored
  let asked := (astream (List.replicate starts w) entered).checkpoint
  nodeCalls (List.replicate starts w) entered ++
    nodeCalls (List.replicate resumes w) ((Call.resume userAnswer).entry (some asked))

theorem DecisionMakerState.merge_assoc (s t u : DecisionMakerState) :
    (s.merge t).merge u = s.merge (t.merge u) := by
  simp only [merge, Option.or_assoc]

structure Covers (v : DecisionMakerState) (next : Option Node) : Prop where
  input : v.userInput.isSome
  facts : v.toolFacts.isSome
  count : v.rewriteCount.isSome
  analyzed : next ≠ some .contextAnalyzer →
    v.dilemma.isSome ∧ v.isDataSufficient.isSome ∧ v.searchQueries.isSome
  asked : ∀ n, next = some n → n.afterGate = true → v.lastQuestion.isSome
  weighed : ∀ n, next = some n → n.afterGate = true → n ≠ .weightParser → v.weights.isSome
  drafted : next = some .coveCritique ∨ next = some .finalSynthesizer → v.draftAnalysis.isSome

theorem isSome_or {α : Type*} {new old : Option α} (there : old.isSome) : (new.or old).isSome := by
  rw [Option.isSome_or, there, Bool.or_true]

theorem Node.afterGate_of_successor {n m : Node} (follows : some m ∈ n.successors)
    (behind : m.afterGate = true) (other : n ≠ .weightQuestioner) : n.afterGate = true := by
  cases n with
  | contextAnalyzer =>
      simp only [Node.successors, List.mem_cons, Option.some.injEq, List.not_mem_nil, or_false] at follows
      rcases follows with rfl | rfl <;> cases behind
  | toolNode =>
      cases List.mem_singleton.mp follows
      cases behind
  | weightQuestioner => exact absurd rfl other
  | _ => rfl

theorem Covers.merge {v u : DecisionMakerState} {n : Node} {next : Option Node} (covers : Covers v (some n))
    (writes : n.Writes v u) (follows : next ∈ n.successors) : Covers (v.merge u) next where
  input := isSome_or covers.input
  facts := isSome_or covers.facts
  count := isSome_or covers.count
  analyzed _ := by
    by_cases analyzes : n = .contextAnalyzer
    · subst analyzes
      obtain ⟨parsed, rfl⟩ := writes
      exact ⟨rfl, rfl, rfl⟩
    · obtain ⟨dilemma, sufficient, queries⟩ := covers.analyzed (mt Option.some.inj analyzes)
      exact ⟨isSome_or dilemma, isSome_or sufficient, isSome_or queries⟩
  asked m pending behind := by
    by_cases asks : n = .weightQuestioner
    · subst asks
      obtain ⟨parsed, rfl⟩ := writes
      rfl
    · exact isSome_or (covers.asked n rfl (Node.afterGate_of_successor (pending ▸ follows) behind asks))
  weighed m pending behind other := by
    by_cases weighs : n = .weightParser
    · subst weighs
      obtain ⟨parsed, rfl⟩ := writes
      rfl
    · have answered : n ≠ .weightQuestioner := by
        rintro rfl
        rw [pending, Node.successors, List.mem_singleton] at follows
        exact other (Option.some.inj follows)
      have behind' := Node.afterGate_of_successor (pending ▸ follows) behind answered
      exact isSome_or (covers.weighed n rfl behind' weighs)
  drafted judges := by
    by_cases drafts : n = .draftGenerator
    · subst drafts
      obtain ⟨raw, rfl⟩ := writes
      rfl
    · have critique : n = .coveCritique := by
        rcases judges with rfl | rfl <;> cases n <;> simp_all [Node.successors]
      exact isSome_or (covers.drafted (.inl (congrArg some critique)))

theorem Covers.commit {cp cp' : Checkpoint} {w : World} {n : Node} {x : Exec}
    (covers : Covers cp.values (some n)) (action : cp.commit w n = .ok (x, cp')) :
    Covers cp'.values cp'.next := by
  obtain ⟨-, -, ran, -, values⟩ := Checkpoint.commit_ok.mp action
  rw [values]
  exact covers.merge (Node.run_writes ran) (Checkpoint.commit_next action)

theorem getOr_or_falsy {old new : Option Value} (falsy : (old.getD .none).truthy = false) :
    getOr (new.or old) (.str "") = getOr new (.str "") := by
  cases new with
  | some v => rfl
  | none => simp [getOr, Value.orElse, falsy]

def Unseen (old v : DecisionMakerState) : Prop :=
  v.critiqueFeedback.isSome ∨ (old.critiqueFeedback.getD .none).truthy = false

section
variable {old v : DecisionMakerState} {n : Node} {w : World}

theorem Covers.prompt (covers : Covers v (some n)) (answered : n = .weightParser → v.userAnswer.isSome)
    (unseen : n = .draftGenerator → Unseen old v) : n.prompt (old.merge v) = n.prompt v := by
  obtain ⟨input, facts, count, analyzed, asked, weighed, drafted⟩ := covers
  cases n with
  | contextAnalyzer =>
      simp only [Node.prompt, DecisionMakerState.merge, Option.or_of_isSome, input, facts]
  | toolNode => rfl
  | weightQuestioner =>
      simp only [Node.prompt, DecisionMakerState.merge, Option.or_of_isSome, input, facts,
        analyzed (by simp)]
  | weightParser =>
      simp only [Node.prompt, DecisionMakerState.merge, Option.or_of_isSome, answered rfl,
        asked _ rfl rfl]
  | draftGenerator =>
      have feedback : getOr (v.critiqueFeedback.or old.critiqueFeedback) (.str "") =
          getOr v.critiqueFeedback (.str "") := by
        rcases unseen rfl with written | falsy
        · rw [Option.or_of_isSome written]
        · exact getOr_or_falsy falsy
      simp only [Node.prompt, DecisionMakerState.merge, Option.or_of_isSome, input, facts,
        analyzed (by simp), weighed _ rfl rfl (by simp), feedback]
  | coveCritique =>
      simp only [Node.prompt, DecisionMakerState.merge, Option.or_of_isSome, input, facts, count,
        analyzed (by simp), weighed _ rfl rfl (by simp), drafted (.inl rfl)]
  | finalSynthesizer =>
      simp only [Node.prompt, DecisionMakerState.merge, Option.or_of_isSome, input,
        analyzed (by simp), weighed _ rfl rfl (by simp), drafted (.inr rfl)]

theorem Covers.run (covers : Covers v (some n))
    (answered : n = .weightParser → v.userAnswer.isSome)
    (unseen : n = .draftGenerator → Unseen old v) : n.run w (old.merge v) = n.run w v := by
  have same := covers.prompt answered unseen
  obtain ⟨input, facts, count, analyzed, -⟩ := covers
  cases asks : n.prompt v with
  | none =>
      have tool : n = .toolNode := by cases n <;> simp_all [Node.prompt]
      subst tool
      simp only [Node.run, Graph.toolNode, DecisionMakerState.merge, Option.or_of_isSome, facts,
        analyzed (by simp)]
  | some p =>
      have finish : n.finish w (old.merge v) = n.finish w v := by
        cases n <;> try rfl
        · cases asks
        · funext raw
          simp only [Node.finish, DecisionMakerState.merge, Option.or_of_isSome, count]
      rw [Node.run_prompt asks, Node.run_prompt (same.trans asks), finish]

theorem outgoing_merge {u : DecisionMakerState} (ran : n.run w v = .ok u) :
    outgoing (some n) (old.merge (v.merge u)) = outgoing (some n) (v.merge u) := by
  have writes := Node.run_writes ran
  cases n <;> obtain ⟨_, rfl⟩ := writes <;> rfl

end

/-- The same checkpoint with the fields of an earlier session below those of the new one. -/
structure Shadows (old : DecisionMakerState) (cp shadow : Checkpoint) : Prop where
  values : shadow.values = old.merge cp.values
  next : shadow.next = cp.next

structure Fresh (cp : Checkpoint) : Prop where
  covers : Covers cp.values cp.next
  answered : cp.next = some .weightParser → cp.values.userAnswer.isSome

section
variable {old : DecisionMakerState} {cp cp' shadow : Checkpoint} {w : World} {n : Node} {x : Exec}

theorem Fresh.commit (fresh : Fresh cp) (pending : cp.next = some n)
    (action : cp.commit w n = .ok (x, cp')) (through : n ∉ interruptAfter) : Fresh cp' := by
  refine ⟨(pending ▸ fresh.covers).commit action, fun next => ?_⟩
  have follows := Checkpoint.commit_next action
  rw [next] at follows
  cases n <;> simp_all [Node.successors]

theorem Shadows.call (shadows : Shadows old cp shadow) (fresh : Fresh cp)
    (pending : cp.next = some n) (unseen : n = .draftGenerator → Unseen old cp.values) :
    nodeCall w n shadow.values = nodeCall w n cp.values := by
  have covers := pending ▸ fresh.covers
  have answered : n = .weightParser → cp.values.userAnswer.isSome :=
    fun parser => fresh.answered (pending.trans (congrArg some parser))
  rw [nodeCall, nodeCall, shadows.values, covers.prompt answered unseen,
    covers.run answered unseen]

theorem Shadows.commit (shadows : Shadows old cp shadow) (fresh : Fresh cp)
    (pending : cp.next = some n) (unseen : n = .draftGenerator → Unseen old cp.values)
    (action : cp.commit w n = .ok (x, cp')) :
    ∃ x' shadow', shadow.commit w n = .ok (x', shadow') ∧ Shadows old cp' shadow' := by
  obtain ⟨-, -, ran, writer, values⟩ := Checkpoint.commit_ok.mp action
  have same := congrArg NodeCall.output (shadows.call (w := w) fresh pending unseen)
  have merged : shadow.values.merge x.update = old.merge cp'.values := by
    rw [shadows.values, DecisionMakerState.merge_assoc, values]
  have routed : outgoing (some n) (shadow.values.merge x.update) = .ok cp'.next := by
    rw [merged, values, outgoing_merge ran, ← values, ← writer, cp'.routed]
  refine ⟨⟨n, shadow.values, x.update⟩, ⟨_, some n, cp'.next, routed⟩, ?_, merged, rfl⟩
  exact Checkpoint.commit_ok.mpr ⟨rfl, rfl, same.trans ran, rfl, rfl⟩

theorem Shadows.commit_error (shadows : Shadows old cp shadow) (fresh : Fresh cp)
    (pending : cp.next = some n) (unseen : n = .draftGenerator → Unseen old cp.values)
    {e : NodeError} (action : cp.commit w n = .error e) : ∃ e', shadow.commit w n = .error e' := by
  cases other : shadow.commit w n with
  | error e' => exact ⟨e', rfl⟩
  | ok result =>
      obtain ⟨x, shadow'⟩ := result
      obtain ⟨-, -, ran, writer, values⟩ := Checkpoint.commit_ok.mp other
      have same := congrArg NodeCall.output (shadows.call (w := w) fresh pending unseen)
      have ran : n.run w cp.values = .ok x.update := same.symm.trans ran
      have routed : outgoing (some n) (cp.values.merge x.update) = .ok shadow'.next := by
        have shadowed : outgoing (some n) (old.merge (cp.values.merge x.update)) =
            outgoing (some n) (cp.values.merge x.update) := outgoing_merge ran
        rw [← shadowed, ← DecisionMakerState.merge_assoc, ← shadows.values, ← values, ← writer,
          shadow'.routed]
      have committed : cp.commit w n = .ok (⟨n, cp.values, x.update⟩, ⟨_, some n, _, routed⟩) :=
        Checkpoint.commit_ok.mpr ⟨rfl, rfl, ran, rfl, rfl⟩
      rw [action] at committed
      cases committed

def Early (cp : Checkpoint) : Prop := ∃ n, cp.next = some n ∧ n.afterGate = false

theorem Early.commit (early : Early cp) (pending : cp.next = some n)
    (action : cp.commit w n = .ok (x, cp')) (through : n ∉ interruptAfter) : Early cp' := by
  obtain ⟨m, next, before⟩ := early
  obtain rfl : m = n := Option.some.inj (next.symm.trans pending)
  have follows := Checkpoint.commit_next action
  rw [mem_interruptAfter] at through
  cases m <;> simp_all [Early, Node.successors, Node.afterGate]
  rcases follows with next | next <;> simp [next]

theorem Shadows.leg (shadows : Shadows old cp shadow) (fresh : Fresh cp)
    {worlds : List World}
    (unseen : Unseen old cp.values ∨ ∀ call ∈ nodeCalls worlds cp, call.node ≠ .draftGenerator) :
    nodeCalls worlds shadow = nodeCalls worlds cp ∧
      Shadows old (astream worlds cp).checkpoint (astream worlds shadow).checkpoint := by
  induction worlds generalizing cp shadow with
  | nil => exact ⟨rfl, shadows⟩
  | cons w worlds ih =>
      cases pending : cp.next with
      | none =>
          have done : shadow.next = none := shadows.next.trans pending
          rw [nodeCalls_finished pending, nodeCalls_finished done, astream_finished pending,
            astream_finished done]
          exact ⟨rfl, shadows⟩
      | some n =>
          have next : shadow.next = some n := shadows.next.trans pending
          have sees : n = .draftGenerator → Unseen old cp.values := by
            intro draft
            rcases unseen with unseen | none
            · exact unseen
            · exact absurd draft (none _ (List.mem_of_mem_head? (nodeCalls_head pending worlds)))
          have call := shadows.call (w := w) fresh pending sees
          cases action : cp.commit w n with
          | error e =>
              obtain ⟨e', failed⟩ := shadows.commit_error fresh pending sees action
              rw [nodeCalls_raised pending action, nodeCalls_raised next failed, call,
                astream_raised pending action, astream_raised next failed]
              exact ⟨rfl, shadows⟩
          | ok result =>
              obtain ⟨x, cp'⟩ := result
              obtain ⟨x', shadow', committed, later⟩ := shadows.commit fresh pending sees action
              by_cases gate : n ∈ interruptAfter
              · rw [nodeCalls_interrupted pending action gate,
                  nodeCalls_interrupted next committed gate, call,
                  astream_interrupted pending action gate, astream_interrupted next committed gate]
                exact ⟨rfl, later⟩
              · have still : Unseen old cp'.values ∨
                    ∀ call ∈ nodeCalls worlds cp', call.node ≠ .draftGenerator := by
                  rcases unseen with (written | falsy) | none
                  · refine .inl (.inl ?_)
                    rw [(Checkpoint.commit_ok.mp action).2.2.2.2]
                    simp [DecisionMakerState.merge, written]
                  · exact .inl (.inr falsy)
                  · rw [nodeCalls_committed pending action gate] at none
                    exact .inr fun call member => none call (List.mem_cons_of_mem _ member)
                obtain ⟨calls, rest⟩ := ih later (fresh.commit pending action gate) still
                rw [nodeCalls_committed pending action gate,
                  nodeCalls_committed next committed gate, call, calls,
                  astream_committed pending action gate, astream_committed next committed gate]
                exact ⟨rfl, rest⟩

end

structure Undrafted (cp : Checkpoint) : Prop where
  silent : cp.values.critiqueFeedback = none
  before : ∀ n, cp.next = some n → n ≠ .coveCritique ∧ n ≠ .finalSynthesizer

section
variable {old : DecisionMakerState} {cp cp' shadow : Checkpoint} {w : World} {n : Node} {x : Exec}

theorem Undrafted.commit (undrafted : Undrafted cp) (pending : cp.next = some n)
    (action : cp.commit w n = .ok (x, cp')) (other : n ≠ .draftGenerator) : Undrafted cp' := by
  obtain ⟨silent, before⟩ := undrafted
  obtain ⟨critique, -⟩ := before n pending
  obtain ⟨-, -, ran, -, values⟩ := Checkpoint.commit_ok.mp action
  have follows := Checkpoint.commit_next action
  have writes := Node.run_writes ran
  constructor
  · rw [values]
    cases n <;> obtain ⟨_, wrote⟩ := writes <;> rw [wrote] <;>
      first | exact silent | exact absurd rfl critique
  · intro m next
    rw [next] at follows
    cases n <;> simp_all [Node.successors]
    rcases follows with rfl | rfl <;> simp

theorem Undrafted.leg (undrafted : Undrafted cp) (early : Early cp) (worlds : List World) :
    Undrafted (astream worlds cp).checkpoint ∧
      ∀ call ∈ nodeCalls worlds cp, call.node ≠ .draftGenerator := by
  induction worlds generalizing cp with
  | nil => exact ⟨undrafted, by simp [nodeCalls]⟩
  | cons w worlds ih =>
      obtain ⟨n, pending, before⟩ := early
      have other : n ≠ .draftGenerator := by
        intro draft
        rw [draft] at before
        cases before
      cases action : cp.commit w n with
      | error e =>
          rw [nodeCalls_raised pending action, astream_raised pending action]
          exact ⟨undrafted, by simpa [nodeCall] using other⟩
      | ok result =>
          obtain ⟨x, cp'⟩ := result
          have later := undrafted.commit pending action other
          by_cases gate : n ∈ interruptAfter
          · rw [nodeCalls_interrupted pending action gate, astream_interrupted pending action gate]
            exact ⟨later, by simpa [nodeCall] using other⟩
          · obtain ⟨after, none⟩ := ih later
              (Early.commit ⟨n, pending, before⟩ pending action gate)
            rw [nodeCalls_committed pending action gate, astream_committed pending action gate]
            refine ⟨after, fun call member => ?_⟩
            rcases List.mem_cons.mp member with rfl | member
            · exact other
            · exact none call member

theorem Shadows.draft_differs (shadows : Shadows old cp shadow) (fresh : Fresh cp)
    (undrafted : Undrafted cp) (left : (old.critiqueFeedback.getD .none).truthy = true)
    {worlds : List World} (same : nodeCalls worlds shadow = nodeCalls worlds cp) :
    ∀ call ∈ nodeCalls worlds cp, call.node ≠ .draftGenerator := by
  induction worlds generalizing cp shadow with
  | nil => simp [nodeCalls]
  | cons w worlds ih =>
      cases pending : cp.next with
      | none => simp [nodeCalls_finished pending]
      | some n =>
          have next : shadow.next = some n := shadows.next.trans pending
          have other : n ≠ .draftGenerator := by
            rintro rfl
            have heads := congrArg List.head? same
            rw [nodeCalls_head pending, nodeCalls_head next] at heads
            have prompts := congrArg NodeCall.prompt (Option.some.inj heads)
            simp only [nodeCall, Node.prompt, shadows.values, DecisionMakerState.merge,
              undrafted.silent, Option.none_or, Option.some.injEq, Prompt.draftGenerator.injEq]
              at prompts
            have feedback := congrArg Value.truthy prompts.2.2.2.2
            simp [left] at feedback
          cases action : cp.commit w n with
          | error e =>
              rw [nodeCalls_raised pending action]
              simpa [nodeCall] using other
          | ok result =>
              obtain ⟨x, cp'⟩ := result
              obtain ⟨x', shadow', committed, later⟩ :=
                shadows.commit fresh pending (fun draft => absurd draft other) action
              by_cases gate : n ∈ interruptAfter
              · rw [nodeCalls_interrupted pending action gate]
                simpa [nodeCall] using other
              · rw [nodeCalls_committed pending action gate,
                  nodeCalls_committed next committed gate] at same
                rw [nodeCalls_committed pending action gate]
                intro call member
                rcases List.mem_cons.mp member with rfl | member
                · exact other
                · exact ih later (fresh.commit pending action gate)
                    (undrafted.commit pending action other) (List.cons.inj same).2 call member

end

theorem Covers.leg {cp : Checkpoint} {r : LegResult} (leg : Leg cp r)
    (covers : Covers cp.values cp.next) : Covers r.checkpoint.values r.checkpoint.next := by
  induction leg with
  | finished | stopped => exact covers
  | interrupted pending action => exact (pending ▸ covers).commit action
  | committed pending action through rest ih => exact ih ((pending ▸ covers).commit action)

theorem Covers.answered {cp : Checkpoint} (covers : Covers cp.values cp.next) (a : String) :
    Fresh (cp.answered a) := by
  obtain ⟨input, facts, count, analyzed, asked, weighed, drafted⟩ := covers
  exact ⟨⟨input, facts, count, analyzed, asked, weighed, drafted⟩, fun _ => rfl⟩

theorem Shadows.answered {old : DecisionMakerState} {cp shadow : Checkpoint}
    (shadows : Shadows old cp shadow) (a : String) :
    Shadows old (cp.answered a) (shadow.answered a) := by
  refine ⟨?_, shadows.next⟩
  have same := congrArg (DecisionMakerState.merge · (.answer a)) shadows.values
  exact same.trans (DecisionMakerState.merge_assoc _ _ _)

theorem Undrafted.answered {cp : Checkpoint} (undrafted : Undrafted cp) (a : String) :
    Undrafted (cp.answered a) :=
  ⟨undrafted.silent, undrafted.before⟩

theorem Call.start_fresh (userInput : String) :
    Fresh ((Call.start userInput).entry none) ∧ Undrafted ((Call.start userInput).entry none) ∧
      Early ((Call.start userInput).entry none) := by
  refine ⟨⟨⟨rfl, rfl, rfl, ?_, ?_, ?_, ?_⟩, ?_⟩, ⟨rfl, ?_⟩, .contextAnalyzer, rfl, rfl⟩
  all_goals simp [Call.entry, Checkpoint.restart, Node.afterGate]

theorem Call.start_shadows (stored : Option Checkpoint) (userInput : String) :
    Shadows (stored.getD .empty).values ((Call.start userInput).entry none)
      ((Call.start userInput).entry stored) :=
  ⟨rfl, rfl⟩

theorem sessionCalls_eq_iff (stored : Option Checkpoint) (w : World) (userInput userAnswer : String)
    (starts resumes : Nat) :
    sessionCalls stored w userInput userAnswer starts resumes =
        sessionCalls none w userInput userAnswer starts resumes ↔
      ((stored.getD .empty).values.critiqueFeedback.getD .none).truthy = false ∨
        ∀ call ∈ sessionCalls none w userInput userAnswer starts resumes,
          call.node ≠ .draftGenerator := by
  obtain ⟨fresh, undrafted, early⟩ := Call.start_fresh userInput
  have shadows := Call.start_shadows stored userInput
  obtain ⟨still, none⟩ := undrafted.leg early (List.replicate starts w)
  obtain ⟨starting, asked⟩ := shadows.leg fresh (.inr none)
  have resuming := (fresh.covers.leg (astream_leg (List.replicate starts w) _)).answered userAnswer
  have answered := asked.answered userAnswer
  simp only [sessionCalls, starting, List.append_cancel_left_eq]
  constructor
  · intro same
    by_cases left : ((stored.getD .empty).values.critiqueFeedback.getD .none).truthy = true
    · refine .inr fun call member => ?_
      rcases List.mem_append.mp member with start | resume
      · exact none call start
      · exact answered.draft_differs resuming (still.answered userAnswer) left same call resume
    · exact .inl (by simpa using left)
  · intro isolated
    refine (answered.leg resuming ?_).1
    rcases isolated with falsy | never
    · exact .inl (.inr falsy)
    · exact .inr fun call member => never call (List.mem_append_right _ member)

/-- After whatever history of a thread, a new session on it makes the calls of a session on an
empty thread exactly when no feedback is left on the thread or the session reaches no draft. -/
theorem sessionCalls_fresh_iff (history : List Attempt) (w : World) (userInput userAnswer : String)
    (starts resumes : Nat) :
    sessionCalls (Thread.after history).checkpoint w userInput userAnswer starts resumes =
        sessionCalls none w userInput userAnswer starts resumes ↔
      (((Thread.after history).checkpoint.getD .empty).values.critiqueFeedback.getD .none).truthy =
          false ∨
        ∀ call ∈ sessionCalls none w userInput userAnswer starts resumes,
          call.node ≠ .draftGenerator :=
  sessionCalls_eq_iff _ _ _ _ _ _

def criticizedHistory : List Attempt :=
  [⟨.start "Buy or rent?", List.replicate 2 (.fixed "Rent." []), true⟩,
   ⟨.resume "Stability", List.replicate 6
      (.fixed "Rent." [("needs_rewrite", .bool true), ("critique_feedback", .str "Check the rates.")]),
    true⟩]

theorem feedback_crosses_sessions :
    ((Thread.after criticizedHistory).log.map fun record =>
      decide (record.status = .ended) && record.sentinel.isSome) = [true, true] ∧
    sessionCalls (Thread.after criticizedHistory).checkpoint (.fixed "Study." []) "Job or study?"
        "Income" 2 4 ≠
      sessionCalls none (.fixed "Study." []) "Job or study?" "Income" 2 4 := by
  apply And.intro rfl
  intro same
  have prompts := congrArg (fun calls => (calls.map NodeCall.prompt)[3]?) same
  have drafts : some (some (Prompt.draftGenerator "Job or study?" (.str "") (.dict []) []
      (.str "Check the rates."))) = some (some (Prompt.draftGenerator "Job or study?" (.str "")
      (.dict []) [] (.str ""))) := prompts
  simp at drafts

end DecisionMaker.Graph
