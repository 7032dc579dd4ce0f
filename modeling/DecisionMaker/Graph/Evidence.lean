import DecisionMaker.Graph.Session
import DecisionMaker.Graph.ToolFacts

namespace DecisionMaker.Graph

open Library

def World.UsesTools (w : World) : Prop := ∃ tavilyKey client, w.searchFn = searchAsync tavilyKey client

structure SearchedFor (query : Value) (facts : List Value) : Prop where
  some : facts ≠ []
  each : ∀ fact ∈ facts, ∃ result source, result.truthy = true ∧ source.truthy = true ∧
    fact = searchFact query result source

theorem normalizeResult_ok {query item fact : Value} (normalized : normalizeResult query item = .ok fact) :
    ∃ result source, result.truthy = true ∧ source.truthy = true ∧ fact = searchFact query result source := by
  cases item with
  | dict entries =>
      cases normalized
      exact ⟨_, _, by simp [Value.truthy_orElse], by simp [Value.truthy_orElse], rfl⟩
  | none | bool | int | float | str | list => cases normalized

theorem searchAsync_searched {tavilyKey : Option String} {client : Value → Except NodeError Value}
    {query : Value} {facts : List Value} (returned : searchAsync tavilyKey client query = .ok facts) :
    SearchedFor query facts := by
  refine ⟨(searchAsync_facts returned).1, ?_⟩
  have single (result source : String) (named : result ≠ "" ∧ source ≠ "") :
      ∀ fact ∈ [searchFact query (.str result) (.str source)], ∃ result source, result.truthy = true ∧
        source.truthy = true ∧ fact = searchFact query result source := by
    intro fact member
    obtain rfl := List.mem_singleton.mp member
    exact ⟨_, _, by simpa using named.1, by simpa using named.2, rfl⟩
  unfold searchAsync at returned
  split_ifs at returned
  · cases returned
    exact single _ _ (by decide)
  · obtain ⟨response, -, rest⟩ := bind_eq_ok.mp returned
    dsimp only at rest
    split_ifs at rest
    · obtain ⟨items, -, normalized⟩ := bind_eq_ok.mp rest
      intro fact member
      obtain ⟨item, -, fact'⟩ := exists_of_mem_mapM_ok normalized member
      exact normalizeResult_ok fact'
    · cases rest
      exact single _ _ (by decide)

def Exec.queries (x : Exec) : List Value := (getOr x.read.searchQueries (.list [])).iter.toOption.getD []

def FactsOf (xs : List Exec) (facts : List Value) : Prop :=
  ∃ passes, facts = passes.flatten.flatten ∧
    List.Forall₂ (fun x blocks => List.Forall₂ SearchedFor (Exec.queries x) blocks)
      (xs.filter fun x => x.node = .toolNode) passes

theorem FactsOf.nil : FactsOf [] [] := ⟨[], rfl, .nil⟩

theorem FactsOf.other {xs : List Exec} {x : Exec} {facts : List Value} (of : FactsOf xs facts)
    (other : x.node ≠ .toolNode) : FactsOf (xs ++ [x]) facts := by
  obtain ⟨passes, same, searched⟩ := of
  exact ⟨passes, same, by simpa [other] using searched⟩

theorem FactsOf.pass {xs : List Exec} {x : Exec} {facts : List Value} {blocks : List (List Value)}
    (of : FactsOf xs facts) (tool : x.node = .toolNode)
    (searched : List.Forall₂ SearchedFor x.queries blocks) : FactsOf (xs ++ [x]) (facts ++ blocks.flatten) := by
  obtain ⟨passes, rfl, earlier⟩ := of
  refine ⟨passes ++ [blocks], by simp, ?_⟩
  rw [List.filter_append]
  exact List.rel_append earlier (by simpa [tool] using searched)

theorem toolNode_searched {w : World} {x : Exec} (tools : w.UsesTools) (ran : toolNode w x.read = .ok x.update) :
    ∃ blocks, List.Forall₂ SearchedFor x.queries blocks ∧
      x.update.toolFacts = some (x.read.toolFacts.getD [] ++ blocks.flatten) := by
  obtain ⟨tavilyKey, client, search⟩ := tools
  obtain ⟨n, -, rest⟩ := bind_eq_ok.mp ran
  obtain ⟨items, iterated, rest⟩ := bind_eq_ok.mp rest
  obtain ⟨blocks, gathered, wrote⟩ := bind_eq_ok.mp rest
  refine ⟨blocks, ?_, ?_⟩
  · rw [Exec.queries, iterated]
    refine (forall₂_of_mapM_ok gathered).imp fun query facts returned => ?_
    rw [search] at returned
    exact searchAsync_searched returned
  · rw [← Except.ok.inj wrote]

structure Evidence (xs : List Exec) (cp : Checkpoint) : Prop where
  stored : FactsOf xs (cp.values.toolFacts.getD [])
  read : ∀ front x back, xs = front ++ x :: back → FactsOf front (x.read.toolFacts.getD [])

namespace Evidence
variable {xs : List Exec} {cp cp' : Checkpoint}

theorem answered (evidence : Evidence xs cp) (a : String) : Evidence xs (cp.answered a) :=
  ⟨evidence.stored, evidence.read⟩

theorem commit (evidence : Evidence xs cp) {w : World} {n : Node} {x : Exec} (tools : w.UsesTools)
    (action : cp.commit w n = .ok (x, cp')) : Evidence (xs ++ [x]) cp' := by
  obtain ⟨node, read, ran, -, values⟩ := Checkpoint.commit_ok.mp action
  constructor
  · rw [values, ← read, DecisionMakerState.merge]
    have stored := evidence.stored
    rw [← read] at stored
    by_cases tool : n = .toolNode
    · subst tool
      obtain ⟨blocks, searched, wrote⟩ := toolNode_searched tools (read ▸ ran)
      rw [wrote]
      exact stored.pass node searched
    · rw [(Node.run_writes ran).toolFacts tool]
      exact stored.other (node ▸ tool)
  · intro front y back split
    rcases List.eq_nil_or_concat back with rfl | ⟨back, last, rfl⟩
    · obtain ⟨rfl, same⟩ := List.append_inj' split rfl
      obtain rfl : x = y := by simpa using same
      exact read ▸ evidence.stored
    · rw [List.concat_eq_append, ← List.cons_append, ← List.append_assoc] at split
      exact evidence.read front y back (List.append_inj' split rfl).1

theorem leg {worlds : List World} (tools : ∀ w ∈ worlds, w.UsesTools) (evidence : Evidence xs cp) :
    Evidence (xs ++ (astream worlds cp).executed) (astream worlds cp).checkpoint := by
  induction worlds generalizing cp xs with
  | nil => simpa [astream] using evidence
  | cons w worlds ih =>
      obtain ⟨here, later⟩ := List.forall_mem_cons.mp tools
      cases pending : cp.next with
      | none => simpa [astream_finished pending] using evidence
      | some n =>
          cases action : cp.commit w n with
          | error e => simpa [astream_raised pending action] using evidence
          | ok committed =>
              obtain ⟨x, cp'⟩ := committed
              have now := evidence.commit here action
              by_cases gate : n ∈ interruptAfter
              · rw [astream_interrupted pending action gate]
                exact now
              · rw [astream_committed pending action gate]
                simpa using ih later now

end Evidence

/-- Whatever the search backend returns: the facts of a session are those of its searches, pass by pass
and query by query, every search has left some, and every node has read all that were there. -/
theorem Thread.session_evidence (history : List Attempt)
    (tools : ∀ attempt ∈ history, ∀ w ∈ attempt.worlds, w.UsesTools) :
    Evidence (Thread.after history).session ((Thread.after history).checkpoint.getD .empty) := by
  induction history using List.reverseRecOn with
  | nil => exact ⟨.nil, by simp [Thread.after, Thread.session]⟩
  | append_singleton history attempt ih =>
      rw [Thread.after_concat, Thread.perform_session, Thread.perform_checkpoint, Option.getD_some]
      have latest := tools attempt (by simp)
      have before := ih fun earlier member => tools earlier (List.mem_append_left _ member)
      obtain ⟨call, worlds, delivered⟩ := attempt
      cases call with
      | start userInput =>
          -- a start empties the facts
          have fresh : Evidence [] ((Call.start userInput).entry (Thread.after history).checkpoint) :=
            ⟨.nil, by simp⟩
          exact fresh.leg latest
      | resume userAnswer => exact (before.answered userAnswer).leg latest

def offline (parsed : Dict) : World where
  invokeLlmAsync _ := .ok ""
  safeJsonParse _ := .ok parsed
  searchFn := searchAsync none fun _ => .error .searchError

def twoQueries : Dict :=
  [("needs_data", .bool true), ("search_queries", .list [.str "rents", .str "rates"])]

def searchingStart : Attempt :=
  ⟨.start "Buy or rent?", [offline twoQueries, offline [], offline [], offline []], true⟩

theorem Thread.session_evidence_offline :
    ((Thread.after [searchingStart]).checkpoint.getD .empty).values.toolFacts =
        some [searchFact (.str "rents") (.str "<stubbed-fact>") (.str "stub"),
          searchFact (.str "rates") (.str "<stubbed-fact>") (.str "stub")] ∧
      Evidence (Thread.after [searchingStart]).session
        ((Thread.after [searchingStart]).checkpoint.getD .empty) := by
  refine ⟨rfl, Thread.session_evidence [searchingStart] ?_⟩
  intro attempt member w among
  obtain rfl := List.mem_singleton.mp member
  simp only [searchingStart, List.mem_cons, List.not_mem_nil, or_false] at among
  rcases among with rfl | rfl | rfl | rfl <;>
    exact ⟨none, fun _ => .error .searchError, rfl⟩

end DecisionMaker.Graph
