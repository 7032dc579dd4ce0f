import DecisionMaker.Graph.Gate

namespace DecisionMaker.Graph

open Library

/-- What the LLM and the search do at each pass of a start leg. The question is asked instead of
the search where the pass leaves the loop. -/
structure Analyst where
  reply : Nat → Except NodeError Dict
  search : Nat → Value → Except NodeError (List Value)
  question : Nat → Except NodeError Dict

namespace Analyst

def analysis (a : Analyst) (pass : Nat) : World where
  invokeLlmAsync _ := .ok ""
  safeJsonParse _ := a.reply pass
  searchFn _ := .ok []

def round (a : Analyst) (pass : Nat) : World where
  invokeLlmAsync _ := .ok ""
  safeJsonParse _ := a.question pass
  searchFn := a.search pass

def worlds (a : Analyst) : Nat → List World
  | 0 => []
  | passes + 1 => a.worlds passes ++ [a.analysis passes, a.round passes]

def queries (parsed : Dict) : Value := (parsed.get "search_queries" (.list [])).orElse (.list [])

def Loops (a : Analyst) (pass : Nat) : Prop :=
  ∃ parsed items, a.reply pass = .ok parsed ∧
    (parsed.get "needs_data" (.bool false)).truthy = true ∧
    (queries parsed).iter = .ok items ∧ items ≠ [] ∧
    ∀ query ∈ items, ∃ facts, a.search pass query = .ok facts

end Analyst

/-- The reply of Node 1 fails, or the router behind it does, at what it is asked to search. -/
def Analyst.Breaks (a : Analyst) (pass : Nat) : Prop :=
  ∀ parsed, a.reply pass = .ok parsed → (parsed.get "needs_data" (.bool false)).truthy = true ∧
    ∃ e, (queries parsed).len = .error e

def Analyst.world (a : Analyst) (step : Nat) : World :=
  if step % 2 = 0 then a.analysis (step / 2) else a.round (step / 2)

inductive StartOutcome
  | awaitingUser (lastQuestion : Value)
  | raised (e : NodeError)
  | graphRecursionError
  deriving Repr

/-- The default of the engine, which `graph.py` leaves as it is. -/
def recursionLimit : Nat := 25

def startSession (recursionLimit : Nat) (t : Thread) (userInput : String) (world : Nat → World) :
    StartOutcome :=
  let leg := streamWithin recursionLimit world ((Call.start userInput).entry t.checkpoint)
  match leg.status with
  | .ended => .awaitingUser (getOr leg.checkpoint.values.lastQuestion (.str ""))
  | .raised e => .raised e
  | .graphRecursionError => .graphRecursionError

def Returns (recursionLimit : Nat) (t : Thread) (userInput : String) (a : Analyst) : Prop :=
  (∃ question, startSession recursionLimit t userInput a.world = .awaitingUser question) ∨
    ∃ e, startSession recursionLimit t userInput a.world = .raised e

theorem toolNode_ok_iff {w : World} {s : DecisionMakerState} :
    (∃ u, toolNode w s = .ok u) ↔ ∃ items, (getOr s.searchQueries (.list [])).iter = .ok items ∧
      ∀ query ∈ items, ∃ facts, w.searchFn query = .ok facts := by
  simp only [toolNode, bind_eq_ok]
  constructor
  · intro ran
    obtain ⟨u, n, -, items, iterated, gathered, searched, -⟩ := ran
    exact ⟨items, iterated, mapM_ok_iff.mp ⟨gathered, searched⟩⟩
  · intro searches
    obtain ⟨items, iterated, each⟩ := searches
    obtain ⟨gathered, searched⟩ := mapM_ok_iff.mpr each
    exact ⟨_, _, Value.iter_len iterated, items, iterated, gathered, searched, rfl⟩

theorem routeFromContext_analyzed (s : DecisionMakerState) (parsed : Dict) :
    routeFromContext (s.merge (contextAnalyzer.stateWrite parsed)) =
      if (parsed.get "needs_data" (.bool false)).truthy then
        (fun n => if 0 < n then .tool else .questioner) <$> (Analyst.queries parsed).len
      else .ok .questioner := by
  cases needs : (parsed.get "needs_data" (.bool false)).truthy with
  | false =>
      simp [routeFromContext, DecisionMakerState.merge, contextAnalyzer.stateWrite, needs]
      rfl
  | true =>
      simp only [routeFromContext, DecisionMakerState.merge, contextAnalyzer.stateWrite, needs]
      simp [getOr, Analyst.queries]

theorem outgoing_tool_iff {s : DecisionMakerState} {parsed : Dict} :
    outgoing (some .contextAnalyzer) (s.merge (contextAnalyzer.stateWrite parsed)) =
        .ok (some .toolNode) ↔
      (parsed.get "needs_data" (.bool false)).truthy = true ∧
        ∃ items, (Analyst.queries parsed).iter = .ok items ∧ items ≠ [] := by
  have routed : outgoing (some .contextAnalyzer) (s.merge (contextAnalyzer.stateWrite parsed)) =
      .ok (some .toolNode) ↔
        routeFromContext (s.merge (contextAnalyzer.stateWrite parsed)) = .ok .tool := by
    rw [outgoing, bind_eq_ok]
    constructor
    · intro edge
      obtain ⟨route, taken, target⟩ := edge
      cases route with
      | tool => exact taken
      | questioner => cases target
    · exact fun taken => ⟨.tool, taken, rfl⟩
  rw [routed, routeFromContext_analyzed]
  cases needs : (parsed.get "needs_data" (.bool false)).truthy with
  | false => simp
  | true =>
      simp only [if_true, true_and]
      constructor
      · intro taken
        cases sized : (Analyst.queries parsed).len with
        | error e => rw [sized] at taken; cases taken
        | ok n =>
            obtain ⟨items, iterated, length⟩ := Value.len_iter sized
            refine ⟨items, iterated, fun empty => ?_⟩
            rw [sized, ← length, empty] at taken
            cases taken
      · intro asked
        obtain ⟨items, iterated, some⟩ := asked
        rw [Value.iter_len iterated]
        simp [Functor.map, Except.map, List.length_pos_iff.mpr some]

section
variable {cp : Checkpoint} {a : Analyst} {pass : Nat}

theorem astream_pass (pending : cp.next = some .contextAnalyzer) (loops : a.Loops pass) :
    (astream [a.analysis pass, a.round pass] cp).status = .cut ∧
      (astream [a.analysis pass, a.round pass] cp).checkpoint.next = some .contextAnalyzer := by
  obtain ⟨parsed, items, reply, needs, iterated, some, searches⟩ := loops
  have routed : outgoing (.some .contextAnalyzer)
      (cp.values.merge (contextAnalyzer.stateWrite parsed)) = .ok (.some .toolNode) :=
    outgoing_tool_iff.mpr ⟨needs, items, iterated, some⟩
  have analyzed : cp.commit (a.analysis pass) .contextAnalyzer =
      .ok (⟨.contextAnalyzer, cp.values, contextAnalyzer.stateWrite parsed⟩,
        ⟨_, .some .contextAnalyzer, .some .toolNode, routed⟩) :=
    Checkpoint.commit_ok.mpr ⟨rfl, rfl, by
      simp [Node.run, contextAnalyzer, Analyst.analysis, reply, bind, Except.bind, pure, Except.pure],
      rfl, rfl⟩
  have asked : getOr (cp.values.merge (contextAnalyzer.stateWrite parsed)).searchQueries (.list []) =
      Analyst.queries parsed := by
    simp [DecisionMakerState.merge, contextAnalyzer.stateWrite, needs, getOr, Analyst.queries]
  obtain ⟨u, searched⟩ : ∃ u, Graph.toolNode (a.round pass)
      (cp.values.merge (contextAnalyzer.stateWrite parsed)) = .ok u :=
    toolNode_ok_iff.mpr ⟨items, asked ▸ iterated, searches⟩
  have gathered : Checkpoint.commit ⟨_, .some .contextAnalyzer, .some .toolNode, routed⟩ (a.round pass)
      .toolNode = .ok (⟨.toolNode, _, u⟩,
        ⟨_, .some .toolNode, .some .contextAnalyzer, rfl⟩) :=
    Checkpoint.commit_ok.mpr ⟨rfl, rfl, searched, rfl, rfl⟩
  rw [astream_committed pending analyzed (by simp), astream_committed rfl gathered (by simp),
    astream_nil rfl]
  exact ⟨rfl, rfl⟩

theorem astream_leaves (pending : cp.next = some .contextAnalyzer)
    (running : (astream [a.analysis pass, a.round pass] cp).status = .cut) : a.Loops pass := by
  cases analyzed : cp.commit (a.analysis pass) .contextAnalyzer with
  | error e => rw [astream_raised pending analyzed] at running; cases running
  | ok result =>
      obtain ⟨x, cp'⟩ := result
      rw [astream_committed pending analyzed (by simp)] at running
      have follows := Checkpoint.commit_next analyzed
      obtain ⟨-, -, ran, writer, values⟩ := Checkpoint.commit_ok.mp analyzed
      obtain ⟨raw, -, read⟩ := bind_eq_ok.mp ran
      obtain ⟨parsed, reply, wrote⟩ := bind_eq_ok.mp read
      have reply : a.reply pass = .ok parsed := reply
      have wrote : contextAnalyzer.stateWrite parsed = x.update := Except.ok.inj wrote
      simp only [Node.successors, List.mem_cons, List.not_mem_nil, or_false] at follows
      rcases follows with next | next
      · have routed := cp'.routed
        rw [next, writer, values, ← wrote] at routed
        obtain ⟨needs, items, iterated, some⟩ := outgoing_tool_iff.mp routed
        cases gathered : cp'.commit (a.round pass) .toolNode with
        | error e =>
            rw [LegResult.cons_status, astream_raised next gathered] at running
            cases running
        | ok second =>
            obtain ⟨y, cp''⟩ := second
            obtain ⟨-, -, searched, -⟩ := Checkpoint.commit_ok.mp gathered
            have asked : getOr cp'.values.searchQueries (.list []) = Analyst.queries parsed := by
              simp [values, ← wrote, DecisionMakerState.merge, contextAnalyzer.stateWrite, needs,
                getOr, Analyst.queries]
            obtain ⟨items', iterated', searches⟩ := toolNode_ok_iff.mp ⟨_, searched⟩
            rw [asked, iterated] at iterated'
            cases iterated'
            exact ⟨parsed, items, reply, needs, iterated, some, searches⟩
      · cases asked : cp'.commit (a.round pass) .weightQuestioner with
        | error e =>
            rw [LegResult.cons_status, astream_raised next asked] at running
            cases running
        | ok second =>
            rw [LegResult.cons_status, astream_interrupted next asked (by simp)] at running
            cases running

end

section
variable {cp : Checkpoint} {a : Analyst} {passes : Nat}

theorem astream_loops (pending : cp.next = some .contextAnalyzer)
    (loops : ∀ pass < passes, a.Loops pass) :
    (astream (a.worlds passes) cp).status = .cut ∧
      (astream (a.worlds passes) cp).checkpoint.next = some .contextAnalyzer := by
  induction passes with
  | zero => simp [Analyst.worlds, astream_nil pending, pending]
  | succ passes ih =>
      obtain ⟨cut, next⟩ := ih fun pass before => loops pass (by omega)
      rw [Analyst.worlds, astream_append cut]
      exact astream_pass next (loops passes (by omega))

theorem loops_of_cut (pending : cp.next = some .contextAnalyzer)
    (cut : (astream (a.worlds passes) cp).status = .cut) : ∀ pass < passes, a.Loops pass := by
  induction passes with
  | zero => simp
  | succ passes ih =>
      rw [Analyst.worlds] at cut
      have before : (astream (a.worlds passes) cp).status = .cut := by
        by_contra done
        rw [astream_stable done] at cut
        exact done cut
      have loops := ih before
      rw [astream_append before] at cut
      intro pass bounded
      rcases Nat.lt_succ_iff_lt_or_eq.mp bounded with earlier | rfl
      · exact loops pass earlier
      · exact astream_leaves (astream_loops pending loops).2 cut

end

theorem Analyst.worlds_eq (a : Analyst) (passes : Nat) :
    (List.range (2 * passes)).map a.world = a.worlds passes := by
  induction passes with
  | zero => rfl
  | succ passes ih =>
      have even : a.world (2 * passes) = a.analysis passes := by simp [Analyst.world]
      have odd : a.world (2 * passes + 1) = a.round passes := by
        have half : (2 * passes + 1) / 2 = passes := by omega
        simp [Analyst.world, half]
      rw [Nat.mul_add, List.range_succ, List.range_succ, List.map_append, List.map_append, ih]
      simp only [List.map_cons, List.map_nil, even, odd, Analyst.worlds, List.append_assoc, List.singleton_append]

theorem Analyst.worlds_odd (a : Analyst) (passes : Nat) :
    (List.range (2 * passes + 1)).map a.world = a.worlds passes ++ [a.analysis passes] := by
  rw [List.range_succ, List.map_append, a.worlds_eq]
  simp [Analyst.world]

theorem commit_analysis_iff {cp : Checkpoint} {a : Analyst} {pass : Nat} :
    (∃ result, cp.commit (a.analysis pass) .contextAnalyzer = .ok result) ↔ ¬ a.Breaks pass := by
  constructor
  · intro analyzed breaks
    obtain ⟨⟨x, cp'⟩, analyzed⟩ := analyzed
    obtain ⟨-, -, ran, writer, values⟩ := Checkpoint.commit_ok.mp analyzed
    obtain ⟨raw, -, read⟩ := bind_eq_ok.mp ran
    obtain ⟨parsed, reply, wrote⟩ := bind_eq_ok.mp read
    have wrote : contextAnalyzer.stateWrite parsed = x.update := Except.ok.inj wrote
    obtain ⟨needs, e, sized⟩ := breaks parsed reply
    have routed := cp'.routed
    rw [writer, values, ← wrote, outgoing, routeFromContext_analyzed, needs, if_pos rfl, sized] at routed
    cases routed
  · intro whole
    obtain ⟨parsed, whole⟩ := not_forall.mp whole
    obtain ⟨reply, whole⟩ := Classical.not_imp.mp whole
    obtain ⟨next, routed⟩ : ∃ next, outgoing (some .contextAnalyzer)
        (cp.values.merge (contextAnalyzer.stateWrite parsed)) = .ok next := by
      rw [outgoing, routeFromContext_analyzed]
      cases needs : (parsed.get "needs_data" (.bool false)).truthy with
      | false => exact ⟨_, rfl⟩
      | true =>
          cases sized : (Analyst.queries parsed).len with
          | error e => exact absurd ⟨needs, e, sized⟩ whole
          | ok n =>
              rw [if_pos rfl]
              by_cases some : 0 < n
              · exact ⟨_, by simp [Functor.map, Except.map, some, bind, Except.bind]; rfl⟩
              · exact ⟨_, by simp [Functor.map, Except.map, some, bind, Except.bind]; rfl⟩
    refine ⟨(⟨.contextAnalyzer, cp.values, contextAnalyzer.stateWrite parsed⟩, ⟨_, _, next, routed⟩), ?_⟩
    refine Checkpoint.commit_ok.mpr ⟨rfl, rfl, ?_, rfl, rfl⟩
    simp [Node.run, contextAnalyzer, Analyst.analysis, reply, bind, Except.bind, pure, Except.pure]

theorem astream_analysis {cp : Checkpoint} {a : Analyst} {pass : Nat}
    (pending : cp.next = some .contextAnalyzer) :
    (astream [a.analysis pass] cp).status = .cut ↔ ¬ a.Breaks pass := by
  rw [← @commit_analysis_iff cp]
  cases analyzed : cp.commit (a.analysis pass) .contextAnalyzer with
  | error e => simp [astream_raised pending analyzed]
  | ok result =>
      obtain ⟨x, cp'⟩ := result
      obtain ⟨n, next⟩ : ∃ n, cp'.next = some n := by
        have follows := Checkpoint.commit_next analyzed
        simp only [Node.successors, List.mem_cons, List.not_mem_nil, or_false] at follows
        rcases follows with next | next
        · exact ⟨_, next⟩
        · exact ⟨_, next⟩
      rw [astream_committed pending analyzed (by simp), astream_nil next]
      simp

theorem Leg.waits {cp : Checkpoint} {r : LegResult} (leg : Leg cp r)
    (before : ∃ n, cp.next = some n ∧ n.afterGate = false) (ended : r.status = .ended) :
    r.checkpoint.next ≠ none := by
  induction leg with
  | finished pending =>
      obtain ⟨n, next, -⟩ := before
      rw [pending] at next
      cases next
  | stopped pending running => exact absurd ended running
  | interrupted pending action gate =>
      have follows := Checkpoint.commit_next action
      rw [mem_interruptAfter.mp gate, Node.successors, List.mem_singleton] at follows
      simp [follows]
  | @committed cp cp' w n x r pending action through leg ih =>
      obtain ⟨m, next, early⟩ := before
      obtain rfl : m = n := Option.some.inj (next.symm.trans pending)
      have follows := Checkpoint.commit_next action
      rw [mem_interruptAfter] at through
      refine ih ?_ ended
      cases m <;> simp_all [Node.successors, Node.afterGate]
      rcases follows with next | next <;> simp [next]

theorem returns_iff_status {recursionLimit : Nat} {t : Thread} {userInput : String} {a : Analyst} :
    Returns recursionLimit t userInput a ↔
      (astream ((List.range recursionLimit).map a.world)
        ((Call.start userInput).entry t.checkpoint)).status ≠ .cut := by
  have leg := astream_leg ((List.range recursionLimit).map a.world)
    ((Call.start userInput).entry t.checkpoint)
  have waits := leg.waits ⟨.contextAnalyzer, rfl, rfl⟩
  simp only [Returns, startSession, streamWithin_eq, LegResult.within]
  cases status : (astream ((List.range recursionLimit).map a.world)
    ((Call.start userInput).entry t.checkpoint)).status with
  | ended => simp [waits status]
  | cut => simp
  | raised e => simp

theorem cut_iff {cp : Checkpoint} {a : Analyst} (pending : cp.next = some .contextAnalyzer) (steps : Nat) :
    (astream ((List.range steps).map a.world) cp).status = .cut ↔
      (∀ pass, 2 * pass + 2 ≤ steps → a.Loops pass) ∧ ∀ pass, 2 * pass + 1 ≤ steps → ¬ a.Breaks pass := by
  have whole (pass : Nat) (loops : a.Loops pass) : ¬ a.Breaks pass := by
    obtain ⟨parsed, items, reply, -, iterated, -⟩ := loops
    intro breaks
    obtain ⟨-, e, sized⟩ := breaks parsed reply
    rw [Value.iter_len iterated] at sized
    cases sized
  obtain ⟨passes, rfl | rfl⟩ : ∃ passes, steps = 2 * passes ∨ steps = 2 * passes + 1 := ⟨steps / 2, by omega⟩
  · rw [a.worlds_eq]
    constructor
    · intro cut
      have loops := loops_of_cut pending cut
      exact ⟨fun pass bounded => loops pass (by omega), fun pass bounded => whole pass (loops pass (by omega))⟩
    · intro loops
      exact (astream_loops pending fun pass bounded => loops.1 pass (by omega)).1
  · rw [a.worlds_odd]
    constructor
    · intro cut
      have before : (astream (a.worlds passes) cp).status = .cut := by
        by_contra done
        rw [astream_stable done] at cut
        exact done cut
      have loops := loops_of_cut pending before
      have next := (astream_loops pending loops).2
      rw [astream_append before] at cut
      have last := (astream_analysis next).mp cut
      refine ⟨fun pass bounded => loops pass (by omega), fun pass bounded => ?_⟩
      rcases Nat.lt_or_eq_of_le (by omega : pass ≤ passes) with earlier | rfl
      · exact whole pass (loops pass earlier)
      · exact last
    · intro loops
      obtain ⟨cut, next⟩ := @astream_loops cp a passes pending fun pass bounded => loops.1 pass (by omega)
      rw [astream_append cut]
      exact (astream_analysis next).mpr (loops.2 passes (Nat.le_refl _))

/-- Under every recursion limit a start leg returns with its question, or a node raises, exactly when
one of the passes that the limit leaves whole does not loop, or Node 1 raises at a pass that it leaves begun. -/
theorem startSession_returns_iff (recursionLimit : Nat) (t : Thread) (userInput : String) (a : Analyst) :
    Returns recursionLimit t userInput a ↔
      (∃ pass, 2 * pass + 2 ≤ recursionLimit ∧ ¬ a.Loops pass) ∨
        ∃ pass, 2 * pass + 1 ≤ recursionLimit ∧ a.Breaks pass := by
  rw [returns_iff_status, ne_eq, cut_iff rfl, not_and_or]
  simp only [not_forall, not_not, exists_prop]

def askingAnalyst : Analyst where
  reply _ := .ok [("needs_data", .bool true), ("search_queries", .list [.str "mortgage rates"])]
  search _ _ := .ok [.str "Four percent."]
  question _ := .ok []

theorem asking_analyst_unanswered :
    startSession recursionLimit {} "Buy or rent?" askingAnalyst.world = .graphRecursionError ∧
      ∀ limit, ¬ Returns limit {} "Buy or rent?" askingAnalyst := by
  have loops (pass : Nat) : askingAnalyst.Loops pass :=
    ⟨_, [.str "mortgage rates"], rfl, rfl, rfl, by simp, fun _ _ => ⟨_, rfl⟩⟩
  have stays (limit : Nat) : ¬ Returns limit {} "Buy or rent?" askingAnalyst := by
    rw [returns_iff_status, not_not, cut_iff rfl]
    refine ⟨fun pass _ => loops pass, fun pass _ breaks => ?_⟩
    obtain ⟨-, e, sized⟩ := breaks _ rfl
    cases sized
  refine ⟨?_, stays⟩
  cases outcome : startSession recursionLimit {} "Buy or rent?" askingAnalyst.world with
  | awaitingUser question => exact absurd (.inl ⟨question, outcome⟩) (stays recursionLimit)
  | raised e => exact absurd (.inr ⟨e, outcome⟩) (stays recursionLimit)
  | graphRecursionError => rfl

end DecisionMaker.Graph
