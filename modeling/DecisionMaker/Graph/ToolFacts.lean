import DecisionMaker.Graph.Engine
import DecisionMaker.Library.Gather

namespace DecisionMaker.Graph

open Library

def searchFact (query result source : Value) : Value :=
  .dict [("query", query), ("result", result), ("source", source)]

def stubSearchAsync (query : Value) : Except NodeError (List Value) :=
  .ok [searchFact query (.str "<stubbed-fact>") (.str "stub")]

def normalizeResult (query : Value) : Value → Except NodeError Value
  | .dict item => .ok (searchFact query
      ((Dict.get item "content" .none).orElse
        ((Dict.get item "snippet" .none).orElse (.str "<empty>")))
      ((Dict.get item "url" .none).orElse (.str "tavily")))
  | _ => .error .typeError

def tavilyAdapter (client : Value → Except NodeError Value) (query : Value) :
    Except NodeError (List Value) := do
  let response ← client query
  let rawResults :=
    match response with
    | .dict entries => Dict.get entries "results" (.list [])
    | _ => .list []
  if rawResults.truthy then
    let items ← rawResults.iter
    items.mapM (normalizeResult query)
  else
    return [searchFact query (.str "<no-tavily-result>") (.str "tavily")]

def searchAsync (tavilyKey : Option String) (client : Value → Except NodeError Value)
    (query : Value) : Except NodeError (List Value) :=
  if tavilyKey.getD "" = "" then stubSearchAsync query else tavilyAdapter client query

theorem searchAsync_facts {tavilyKey : Option String} {client : Value → Except NodeError Value} {query : Value}
    {facts : List Value} (searched : searchAsync tavilyKey client query = .ok facts) :
    facts ≠ [] ∧ ∀ fact ∈ facts, ∃ result source, fact = searchFact query result source := by
  have single : ∀ result source, [searchFact query result source] ≠ [] ∧
      ∀ fact ∈ [searchFact query result source], ∃ result source, fact = searchFact query result source := by
    intro result source
    exact ⟨List.cons_ne_nil _ _, List.forall_mem_singleton.mpr ⟨result, source, rfl⟩⟩
  unfold searchAsync at searched
  split_ifs at searched
  · cases searched
    exact single _ _
  · obtain ⟨response, -, rest⟩ := bind_eq_ok.mp searched
    dsimp only at rest
    split_ifs at rest with some
    · obtain ⟨items, iterated, normalized⟩ := bind_eq_ok.mp rest
      constructor
      · rintro rfl
        exact Value.iter_ne_nil some iterated (List.map_eq_nil_iff.mp (map_of_mapM_ok normalized))
      · intro fact member
        obtain ⟨item, -, fact'⟩ := exists_of_mem_mapM_ok normalized member
        cases item with
        | dict entries =>
            cases fact'
            exact ⟨_, _, rfl⟩
        | none | bool | int | float | str | list => cases fact'
    · cases rest
      exact single _ _

structure Searching where
  search : Nat → Value → Except NodeError (List Value)
  order : List Nat

/-- `none` while a search has not returned and none has raised. -/
def toolNode.concurrent (c : Searching) (state : DecisionMakerState) :
    Option (Except NodeError DecisionMakerState) :=
  let queries := getOr state.searchQueries (.list [])
  match queries.len, queries.iter with
  | .ok _, .ok items =>
      let existingFacts := state.toolFacts.getD []
      (gather (items.mapIdx c.search) c.order).map fun gatheredResults =>
        gatheredResults.map fun results => { toolFacts := some (existingFacts ++ results.flatten) }
  | .error e, _ | _, .error e => some (.error e)

def Node.runConcurrent (n : Node) (w : World) (c : Searching) (state : DecisionMakerState) :
    Option (Except NodeError DecisionMakerState) :=
  match n with
  | .toolNode => toolNode.concurrent c state
  | n => some (n.run w state)

def Checkpoint.commitConcurrent (cp : Checkpoint) (w : World) (c : Searching) (n : Node) :
    Option (Except NodeError (Exec × Checkpoint)) :=
  (n.runConcurrent w c cp.values).map fun ran => do
    let update ← ran
    let committed ← Checkpoint.write (some n) (cp.values.merge update)
    return (⟨n, cp.values, update⟩, committed)

/-- A leg whose searches are in flight together. It is cut where a search never returns. -/
def astreamConcurrent : List (World × Searching) → Checkpoint → LegResult
  | [], cp => ⟨[], cp, if cp.next.isNone then .ended else .cut⟩
  | (w, c) :: rest, cp =>
      match cp.next with
      | none => ⟨[], cp, .ended⟩
      | some n =>
          match cp.commitConcurrent w c n with
          | none => ⟨[], cp, .cut⟩
          | some (.error e) => ⟨[], cp, .raised e⟩
          | some (.ok (x, cp')) =>
              if n ∈ interruptAfter then ⟨[x], cp', .ended⟩
              else (astreamConcurrent rest cp').cons x

def Searching.found (c : Searching) (state : DecisionMakerState) : List Value :=
  match (getOr state.searchQueries (.list [])).iter with
  | .ok items => (items.mapIdx c.search).flatMap fun outcome => outcome.toOption.getD []
  | .error _ => []

def Exec.newFacts (x : Exec) (c : Searching) : List Value :=
  if x.node = .toolNode then c.found x.read else []

structure ToolFactsInOrder : Prop where
  pass : ∀ (c : Searching) (state : DecisionMakerState) (queries : List Value)
    (results : List (List Value)), getOr state.searchQueries (.list []) = .list queries →
    c.order.Perm (List.range queries.length) → queries.mapIdx c.search = results.map .ok →
    toolNode.concurrent c state =
      some (.ok { toolFacts := some (state.toolFacts.getD [] ++ results.flatten) })
  leg : ∀ (stored : Option Checkpoint) (userInput : String) (worlds : List (World × Searching)),
    let r := astreamConcurrent worlds ((Call.start userInput).entry stored)
    r.checkpoint.values.toolFacts =
      some ((worlds.zip r.executed).flatMap fun p => p.2.newFacts p.1.2)
  raised : ∀ (cp : Checkpoint) (w : World) (c : Searching) (rest : List (World × Searching))
    (queries : List Value) (e : NodeError), cp.next = some .toolNode →
    getOr cp.values.searchQueries (.list []) = .list queries →
    c.order.Perm (List.range queries.length) → .error e ∈ queries.mapIdx c.search →
    ∃ first, .error first ∈ queries.mapIdx c.search ∧
      astreamConcurrent ((w, c) :: rest) cp = ⟨[], cp, .raised first⟩

section
variable {c : Searching} {state u : DecisionMakerState}

theorem toolNode.concurrent_list {queries : List Value}
    (asked : getOr state.searchQueries (.list []) = .list queries) :
    toolNode.concurrent c state =
      (gather (queries.mapIdx c.search) c.order).map fun gatheredResults =>
        gatheredResults.map fun results =>
          { toolFacts := some (state.toolFacts.getD [] ++ results.flatten) } := by
  simp only [toolNode.concurrent, asked, Value.len, Value.iter]

theorem Searching.found_of_outcomes {items : List Value} {results : List (List Value)}
    (iterated : (getOr state.searchQueries (.list [])).iter = .ok items)
    (outcomes : items.mapIdx c.search = results.map .ok) : c.found state = results.flatten := by
  have returned : (fun a => (Except.ok (ε := NodeError) a).toOption.getD ([] : List Value)) = id := rfl
  simp only [Searching.found, iterated, outcomes, List.flatMap_map]
  rw [returned, List.flatMap_id]

theorem Searching.found_queries {queries : List Value} {tavilyKey : Option String}
    (asked : getOr state.searchQueries (.list []) = .list queries)
    (tools : ∀ task, ∃ client, c.search task = searchAsync tavilyKey client) :
    ∀ fact ∈ c.found state, ∃ query ∈ queries, ∃ result source, fact = searchFact query result source := by
  intro fact member
  simp only [Searching.found, asked, Value.iter] at member
  obtain ⟨outcome, inside, returned⟩ := List.mem_flatMap.mp member
  obtain ⟨task, within, searched⟩ := List.mem_mapIdx.mp inside
  obtain ⟨client, same⟩ := tools task
  rw [same] at searched
  cases outcome with
  | error e => cases returned
  | ok facts =>
      obtain ⟨-, each⟩ := searchAsync_facts searched
      exact ⟨queries[task], List.getElem_mem within, each fact returned⟩

theorem toolNode.concurrent_ok (ran : toolNode.concurrent c state = some (.ok u)) :
    u = { toolFacts := some (state.toolFacts.getD [] ++ c.found state) } := by
  unfold toolNode.concurrent at ran
  dsimp only at ran
  split at ran
  · rename_i items _ iterated
    obtain ⟨gathered, collected, wrote⟩ := Option.map_eq_some_iff.mp ran
    cases gathered with
    | error e => cases wrote
    | ok results =>
        cases wrote
        rw [Searching.found_of_outcomes iterated (outcomes_of_gather collected)]
  · cases ran
  · cases ran

theorem toolNode.concurrent_raised {queries : List Value} {e : NodeError}
    (asked : getOr state.searchQueries (.list []) = .list queries)
    (all : c.order.Perm (List.range queries.length)) (raises : .error e ∈ queries.mapIdx c.search) :
    ∃ first, .error first ∈ queries.mapIdx c.search ∧
      toolNode.concurrent c state = some (.error first) := by
  obtain ⟨task, raised⟩ := List.mem_iff_getElem?.mp raises
  have counted : task ∈ c.order := by
    have within := (List.getElem?_eq_some_iff.mp raised).1
    rw [List.length_mapIdx] at within
    exact all.mem_iff.mpr (List.mem_range.mpr within)
  have some : (c.order.findSome? (raisedBy (queries.mapIdx c.search))).isSome := by
    rw [List.findSome?_isSome_iff]
    exact ⟨task, counted, by simp [raisedBy_eq_some.mpr raised]⟩
  obtain ⟨first, found⟩ := Option.isSome_iff_exists.mp some
  obtain ⟨earliest, -, outcome⟩ := List.exists_of_findSome?_eq_some found
  refine ⟨first, List.mem_of_getElem? (raisedBy_eq_some.mp outcome), ?_⟩
  rw [concurrent_list asked, gather_raised found]
  rfl

theorem toolNode_concurrent {w : World} {order : List Nat} (ran : toolNode w state = .ok u)
    (all : ∀ items, (getOr state.searchQueries (.list [])).iter = .ok items →
      order.Perm (List.range items.length)) :
    toolNode.concurrent ⟨fun _ => w.searchFn, order⟩ state = some (.ok u) := by
  obtain ⟨n, sized, rest⟩ := bind_eq_ok.mp ran
  obtain ⟨items, iterated, rest⟩ := bind_eq_ok.mp rest
  obtain ⟨results, searched, wrote⟩ := bind_eq_ok.mp rest
  have outcomes : items.mapIdx (fun _ => w.searchFn) = results.map .ok := by
    rw [← map_of_mapM_ok searched]
    exact List.ext_getElem? fun i => by simp [List.getElem?_mapIdx]
  have length : items.length = results.length := by
    simpa using congrArg List.length outcomes
  have returned := gather_returned (ε := NodeError) (length ▸ all items iterated)
  simp only [toolNode.concurrent, sized, iterated, outcomes, returned]
  exact congrArg some wrote

end

section
variable {cp cp' : Checkpoint} {w : World} {c : Searching} {n : Node} {x : Exec}

theorem Checkpoint.commitConcurrent_ok (action : cp.commitConcurrent w c n = some (.ok (x, cp'))) :
    x.node = n ∧ x.read = cp.values ∧ n.runConcurrent w c cp.values = some (.ok x.update) ∧
      cp'.values = cp.values.merge x.update := by
  obtain ⟨ran, outcome, committed⟩ := Option.map_eq_some_iff.mp action
  obtain ⟨update, wrote, rest⟩ := bind_eq_ok.mp committed
  obtain ⟨stored, written, same⟩ := bind_eq_ok.mp rest
  cases same
  cases wrote
  exact ⟨rfl, rfl, outcome, (write_ok.mp written).2⟩

theorem Node.Writes.toolFacts {s u : DecisionMakerState} (writes : n.Writes s u)
    (other : n ≠ .toolNode) : u.toolFacts = none := by
  cases n with
  | toolNode => exact absurd rfl other
  | _ => obtain ⟨_, rfl⟩ := writes; rfl

theorem Checkpoint.commitConcurrent_toolFacts {facts : List Value}
    (action : cp.commitConcurrent w c n = some (.ok (x, cp')))
    (existing : cp.values.toolFacts = some facts) :
    cp'.values.toolFacts = some (facts ++ x.newFacts c) := by
  obtain ⟨node, read, ran, values⟩ := commitConcurrent_ok action
  rw [values, DecisionMakerState.merge, existing, Exec.newFacts, node, read]
  by_cases tool : n = .toolNode
  · subst tool
    rw [toolNode.concurrent_ok ran, existing]
    simp
  · have silent : x.update.toolFacts = none := by
      have sequential : n.runConcurrent w c cp.values = some (n.run w cp.values) := by
        cases n with
        | toolNode => exact absurd rfl tool
        | _ => rfl
      rw [sequential] at ran
      exact (Node.run_writes (Option.some.inj ran)).toolFacts tool
    simp [silent, tool]

variable (rest : List (World × Searching))

theorem astreamConcurrent_finished (pending : cp.next = none) :
    astreamConcurrent ((w, c) :: rest) cp = ⟨[], cp, .ended⟩ := by
  simp only [astreamConcurrent, pending]

theorem astreamConcurrent_hanging (pending : cp.next = some n)
    (action : cp.commitConcurrent w c n = none) :
    astreamConcurrent ((w, c) :: rest) cp = ⟨[], cp, .cut⟩ := by
  simp only [astreamConcurrent, pending, action]

theorem astreamConcurrent_raised {e : NodeError} (pending : cp.next = some n)
    (action : cp.commitConcurrent w c n = some (.error e)) :
    astreamConcurrent ((w, c) :: rest) cp = ⟨[], cp, .raised e⟩ := by
  simp only [astreamConcurrent, pending, action]

theorem astreamConcurrent_interrupted (pending : cp.next = some n)
    (action : cp.commitConcurrent w c n = some (.ok (x, cp'))) (gate : n ∈ interruptAfter) :
    astreamConcurrent ((w, c) :: rest) cp = ⟨[x], cp', .ended⟩ := by
  simp only [astreamConcurrent, pending, action, if_pos gate]

theorem astreamConcurrent_committed (pending : cp.next = some n)
    (action : cp.commitConcurrent w c n = some (.ok (x, cp'))) (through : n ∉ interruptAfter) :
    astreamConcurrent ((w, c) :: rest) cp = (astreamConcurrent rest cp').cons x := by
  simp only [astreamConcurrent, pending, action, if_neg through]

end

theorem astreamConcurrent_toolFacts {worlds : List (World × Searching)} {cp : Checkpoint}
    {facts : List Value} (existing : cp.values.toolFacts = some facts) :
    (astreamConcurrent worlds cp).checkpoint.values.toolFacts =
      some (facts ++ (worlds.zip (astreamConcurrent worlds cp).executed).flatMap
        fun p => p.2.newFacts p.1.2) := by
  induction worlds generalizing cp facts with
  | nil => simp [astreamConcurrent, existing]
  | cons surrounding rest ih =>
      obtain ⟨w, c⟩ := surrounding
      cases pending : cp.next with
      | none => simp [astreamConcurrent_finished rest pending, existing]
      | some n =>
          cases action : cp.commitConcurrent w c n with
          | none => simp [astreamConcurrent_hanging rest pending action, existing]
          | some outcome =>
              cases outcome with
              | error e => simp [astreamConcurrent_raised rest pending action, existing]
              | ok committed =>
                  obtain ⟨x, cp'⟩ := committed
                  have stored := Checkpoint.commitConcurrent_toolFacts action existing
                  by_cases gate : n ∈ interruptAfter
                  · simp [astreamConcurrent_interrupted rest pending action gate, stored]
                  · simp [astreamConcurrent_committed rest pending action gate, ih stored]

/-- Whatever order the searches return in, a pass appends their results in the order of the
queries; the facts of a start leg are those of its passes one after the other; and where a search
raises the state is as it was. -/
theorem toolFacts_inOrder : ToolFactsInOrder where
  pass c state queries results asked all outcomes := by
    have length : queries.length = results.length := by
      simpa using congrArg List.length outcomes
    rw [toolNode.concurrent_list asked, outcomes, gather_returned (length ▸ all)]
    rfl
  leg stored userInput worlds := by
    have fresh : ((Call.start userInput).entry stored).values.toolFacts = some [] := rfl
    exact astreamConcurrent_toolFacts fresh
  raised cp w c rest queries e pending asked all raises := by
    obtain ⟨first, member, raised⟩ := toolNode.concurrent_raised asked all raises
    have failed : cp.commitConcurrent w c .toolNode = some (.error first) := by
      rw [Checkpoint.commitConcurrent, Node.runConcurrent, raised]
      rfl
    exact ⟨first, member, astreamConcurrent_raised rest pending failed⟩

end DecisionMaker.Graph
