import DecisionMaker.Graph.Answers

namespace DecisionMaker.Graph

open Library

def coveCritique.reply (w : World) (state : DecisionMakerState) : Except NodeError Dict := do
  let raw ← w.invokeLlmAsync
    (.coveCritique (state.userInput.getD "") (getOr state.dilemma (.str ""))
      (getOr state.weights (.dict [])) (state.toolFacts.getD [])
      (state.draftAnalysis.getD "") (state.rewriteCount.getD 0))
  w.safeJsonParse raw

theorem coveCritique_eq_ok {w : World} {s u : DecisionMakerState} :
    coveCritique w s = .ok u ↔ ∃ parsed, coveCritique.reply w s = .ok parsed ∧
      u = coveCritique.stateWrite (s.rewriteCount.getD 0) parsed := by
  simp only [coveCritique, coveCritique.reply, bind_eq_ok, pure, Except.pure, Except.ok.injEq]
  constructor
  · intro wrote
    obtain ⟨raw, invoked, parsed, read, rfl⟩ := wrote
    exact ⟨parsed, ⟨raw, invoked, read⟩, rfl⟩
  · intro wrote
    obtain ⟨parsed, ⟨raw, invoked, read⟩, rfl⟩ := wrote
    exact ⟨raw, invoked, parsed, read, rfl⟩

def Exec.route (x : Exec) : CritiqueRoute := routeFromCritique (x.read.merge x.update)

def wantsRewrite (parsed : Dict) : Bool := (parsed.get "needs_rewrite" (.bool false)).truthy

def leavesFeedback (parsed : Dict) : Bool := (parsed.get "critique_feedback" .none).truthy

def Exec.Refines (w : World) (x : Exec) : Prop :=
  ∀ parsed, coveCritique.reply w x.read = .ok parsed →
    (x.route = .rewrite ↔
      coveCritique.needsRewrite (x.read.rewriteCount.getD 0) parsed = true)

/-- Below the cap, the critic leaves feedback exactly when it asks, and asks at most once. -/
def Exec.Consistent (w : World) (x : Exec) : Prop :=
  ∀ parsed, coveCritique.reply w x.read = .ok parsed → x.read.rewriteCount.getD 0 < 2 →
    leavesFeedback parsed = wantsRewrite parsed ∧
      (wantsRewrite parsed = true → x.read.rewriteCount.getD 0 < 1)

theorem Exec.route_eq_rewrite {x : Exec} {parsed : Dict}
    (wrote : x.update = coveCritique.stateWrite (x.read.rewriteCount.getD 0) parsed) :
    x.route = .rewrite ↔ leavesFeedback parsed = true ∧
      x.update.rewriteCount.getD 0 < 2 := by
  rw [Exec.route, routeFromCritique_eq_rewrite, wrote]
  simp [DecisionMakerState.merge, coveCritique.stateWrite, leavesFeedback]

theorem needsRewrite_eq (count : Int) (parsed : Dict) :
    coveCritique.needsRewrite count parsed = (decide (count < 2) && wantsRewrite parsed) :=
  coveCritique.needsRewrite_capped count parsed

theorem stateWrite_rewriteCount (count : Int) (parsed : Dict) :
    (coveCritique.stateWrite count parsed).rewriteCount.getD 0 =
      if coveCritique.needsRewrite count parsed then count + 1 else count := rfl

theorem Exec.refines_iff_consistent {w : World} {x : Exec} (node : x.node = .coveCritique)
    (ran : x.node.run w x.read = .ok x.update) : x.Refines w ↔ x.Consistent w := by
  rw [node] at ran
  obtain ⟨parsed, reply, wrote⟩ := coveCritique_eq_ok.mp ran
  have only {P : Dict → Prop} :
      (∀ p, coveCritique.reply w x.read = .ok p → P p) ↔ P parsed := by
    simp only [reply, Except.ok.injEq, forall_eq']
  rw [Refines, Consistent, only, only, route_eq_rewrite wrote, wrote, stateWrite_rewriteCount,
    needsRewrite_eq]
  generalize x.read.rewriteCount.getD 0 = count
  by_cases capped : count < 2
  · cases wantsRewrite parsed <;> cases leavesFeedback parsed <;> simp [capped]
    omega
  · simp [capped]

def rewritesTaken (xs : List Exec) : Nat :=
  xs.countP fun x => x.node = .coveCritique ∧ x.route = .rewrite

def Checkpoint.rewriteCount (cp : Checkpoint) : Int := cp.values.rewriteCount.getD 0

theorem Checkpoint.commit_rewriteCount {cp cp' : Checkpoint} {w : World} {n : Node} {x : Exec}
    (action : cp.commit w n = .ok (x, cp')) :
    cp'.rewriteCount = (x.update.rewriteCount.or cp.values.rewriteCount).getD 0 := by
  obtain ⟨-, -, -, -, values⟩ := commit_ok.mp action
  rw [Checkpoint.rewriteCount, values, DecisionMakerState.merge]

theorem Checkpoint.commit_rewriteCount_other {cp cp' : Checkpoint} {w : World} {n : Node} {x : Exec}
    (action : cp.commit w n = .ok (x, cp')) (other : n ≠ .coveCritique) :
    cp'.rewriteCount = cp.rewriteCount := by
  obtain ⟨-, -, ran, -, -⟩ := commit_ok.mp action
  have silent : x.update.rewriteCount = none := by
    have writes := Node.run_writes ran
    cases n with
    | coveCritique => exact absurd rfl other
    | _ => exact writes.elim fun _ wrote => wrote ▸ rfl
  rw [commit_rewriteCount action, silent, Option.none_or, Checkpoint.rewriteCount]

theorem Checkpoint.commit_rewriteCount_critique {cp cp' : Checkpoint} {w : World} {x : Exec}
    (action : cp.commit w .coveCritique = .ok (x, cp')) :
    ∃ parsed, coveCritique.reply w x.read = .ok parsed ∧ cp'.rewriteCount =
      if coveCritique.needsRewrite cp.rewriteCount parsed then cp.rewriteCount + 1
        else cp.rewriteCount := by
  obtain ⟨-, read, ran, -, -⟩ := commit_ok.mp action
  obtain ⟨parsed, reply, wrote⟩ := coveCritique_eq_ok.mp ran
  refine ⟨parsed, read ▸ reply, ?_⟩
  rw [commit_rewriteCount action, wrote]
  rfl

/-- The edge, the counter and the number of rewrites tell the same in every state of the leg, and a
critic that always asks, with feedback, gets two rewrites. -/
structure CounterRefinesRoute (worlds : List World) (cp : Checkpoint) : Prop where
  route : ∀ p ∈ worlds.zip (astream worlds cp).executed, p.2.node = .coveCritique → p.2.Refines p.1
  counter : cp.rewriteCount = 0 → ∀ k,
    (astream (worlds.take k) cp).checkpoint.rewriteCount =
      rewritesTaken (astream (worlds.take k) cp).executed
  always : cp.rewriteCount = 0 → (∃ x ∈ (astream worlds cp).executed, x.node = .coveCritique) →
    (∀ p ∈ worlds.zip (astream worlds cp).executed, p.2.node = .coveCritique → ∀ parsed,
      coveCritique.reply p.1 p.2.read = .ok parsed →
        wantsRewrite parsed = true ∧ leavesFeedback parsed = true) →
    (astream worlds cp).status = .ended → rewritesTaken (astream worlds cp).executed = 2

theorem astream_zip_run {worlds : List World} {cp : Checkpoint} {p : World × Exec}
    (member : p ∈ worlds.zip (astream worlds cp).executed) :
    p.2.node.run p.1 p.2.read = .ok p.2.update := by
  induction worlds generalizing cp with
  | nil => simp at member
  | cons w worlds ih =>
      cases pending : cp.next with
      | none => simp [astream_finished pending] at member
      | some n =>
          cases action : cp.commit w n with
          | error e => simp [astream_raised pending action] at member
          | ok result =>
              obtain ⟨x, cp'⟩ := result
              obtain ⟨node, read, ran, -⟩ := Checkpoint.commit_ok.mp action
              have here : x.node.run w x.read = .ok x.update := by rw [node, read, ran]
              by_cases gate : n ∈ interruptAfter
              · rw [astream_interrupted pending action gate] at member
                simp only [List.zip_cons_cons, List.zip_nil_right, List.mem_singleton] at member
                rw [member]
                exact here
              · rw [astream_committed pending action gate] at member
                rcases List.mem_cons.mp member with rfl | later
                · exact here
                · exact ih later

theorem rewritesTaken_cons (x : Exec) (xs : List Exec) :
    (rewritesTaken (x :: xs) : Int) =
      (if x.node = .coveCritique ∧ x.route = .rewrite then 1 else 0) + rewritesTaken xs := by
  by_cases taken : x.node = .coveCritique ∧ x.route = .rewrite
  · simp [rewritesTaken, taken, Int.add_comm]
  · simp [rewritesTaken, taken]

theorem Checkpoint.commit_counts {cp cp' : Checkpoint} {w : World} {n : Node} {x : Exec}
    (action : cp.commit w n = .ok (x, cp')) (refines : x.node = .coveCritique → x.Refines w) :
    cp'.rewriteCount = cp.rewriteCount +
      if x.node = .coveCritique ∧ x.route = .rewrite then 1 else 0 := by
  obtain ⟨node, read, -⟩ := commit_ok.mp action
  by_cases critique : n = .coveCritique
  · subst critique
    obtain ⟨parsed, reply, count⟩ := commit_rewriteCount_critique action
    have agrees := refines node parsed reply
    rw [read] at agrees
    have same : cp.values.rewriteCount.getD 0 = cp.rewriteCount := rfl
    rw [same] at agrees
    rw [count]
    by_cases asks : coveCritique.needsRewrite cp.rewriteCount parsed = true
    · simp [asks, node, agrees.mpr asks]
    · simp [asks, agrees]
  · rw [commit_rewriteCount_other action critique, node]
    simp [critique]

theorem astream_counts {worlds : List World} {cp : Checkpoint}
    (refines : ∀ p ∈ worlds.zip (astream worlds cp).executed,
      p.2.node = .coveCritique → p.2.Refines p.1) (k : Nat) :
    (astream (worlds.take k) cp).checkpoint.rewriteCount =
      cp.rewriteCount + rewritesTaken (astream (worlds.take k) cp).executed := by
  induction worlds generalizing cp k with
  | nil =>
      cases pending : cp.next with
      | none => simp [astream_finished pending, rewritesTaken]
      | some n => simp [astream_nil pending, rewritesTaken]
  | cons w worlds ih =>
      cases pending : cp.next with
      | none => simp [astream_finished pending, rewritesTaken]
      | some n =>
          cases k with
          | zero => simp [astream_nil pending, rewritesTaken]
          | succ k =>
              rw [List.take_succ_cons]
              cases action : cp.commit w n with
              | error e => simp [astream_raised pending action, rewritesTaken]
              | ok result =>
                  obtain ⟨x, cp'⟩ := result
                  by_cases gate : n ∈ interruptAfter
                  · rw [astream_interrupted pending action gate] at refines ⊢
                    have here := refines (w, x) (by simp)
                    rw [Checkpoint.commit_counts action here, rewritesTaken_cons]
                    simp [rewritesTaken]
                  · rw [astream_committed pending action gate] at refines
                    have here := refines (w, x) (by simp)
                    have later := ih (fun p member => refines p (List.mem_cons_of_mem _ member)) k
                    rw [astream_committed pending action gate, LegResult.cons_checkpoint,
                      LegResult.cons_executed, rewritesTaken_cons, later,
                      Checkpoint.commit_counts action here, Int.add_assoc]

theorem Checkpoint.commit_capped {cp cp' : Checkpoint} {w : World} {n : Node} {x : Exec}
    (action : cp.commit w n = .ok (x, cp')) (capped : cp.rewriteCount ≤ 2) :
    cp'.rewriteCount ≤ 2 := by
  by_cases critique : n = .coveCritique
  · subst critique
    obtain ⟨parsed, -, count⟩ := commit_rewriteCount_critique action
    rw [count, needsRewrite_eq]
    split
    · rename_i asks
      simp only [Bool.and_eq_true, decide_eq_true_eq] at asks
      omega
    · exact capped
  · rwa [commit_rewriteCount_other action critique]

theorem Leg.capped {cp : Checkpoint} {r : LegResult} (leg : Leg cp r) (capped : cp.rewriteCount ≤ 2) :
    r.checkpoint.rewriteCount ≤ 2 := by
  induction leg with
  | finished | stopped => exact capped
  | interrupted pending action => exact Checkpoint.commit_capped action capped
  | committed pending action through rest ih => exact ih (Checkpoint.commit_capped action capped)

theorem astream_before {worlds : List World} {cp : Checkpoint} {front back : List Exec} {x : Exec}
    (executed : (astream worlds cp).executed = front ++ x :: back) :
    (∃ w, (w, x) ∈ worlds.zip (astream worlds cp).executed) ∧
      (astream (worlds.take front.length) cp).executed = front ∧
      (astream (worlds.take front.length) cp).checkpoint.values = x.read := by
  induction worlds generalizing cp front with
  | nil => simp [astream] at executed
  | cons w worlds ih =>
      cases pending : cp.next with
      | none => simp [astream_finished pending] at executed
      | some n =>
          cases action : cp.commit w n with
          | error e => simp [astream_raised pending action] at executed
          | ok result =>
              obtain ⟨y, cp'⟩ := result
              cases front with
              | nil =>
                  have first : y = x := by
                    by_cases gate : n ∈ interruptAfter
                    · rw [astream_interrupted pending action gate] at executed
                      exact (List.cons.inj executed).1
                    · rw [astream_committed pending action gate] at executed
                      exact (List.cons.inj executed).1
                  subst first
                  rw [executed]
                  refine ⟨⟨w, List.mem_cons_self⟩, ?_, ?_⟩
                  · simp [astream_nil pending]
                  · simpa [astream_nil pending] using (Checkpoint.commit_ok.mp action).2.1.symm
              | cons z front =>
                  by_cases gate : n ∈ interruptAfter
                  · rw [astream_interrupted pending action gate] at executed
                    simp at executed
                  · rw [astream_committed pending action gate] at executed ⊢
                    obtain ⟨rfl, rest⟩ := List.cons.inj executed
                    obtain ⟨⟨w', member⟩, same, values⟩ := ih rest
                    refine ⟨⟨w', List.mem_cons_of_mem _ member⟩, ?_, ?_⟩
                    · rw [List.length_cons, List.take_succ_cons,
                        astream_committed pending action gate, LegResult.cons_executed, same]
                    · rw [List.length_cons, List.take_succ_cons,
                        astream_committed pending action gate, LegResult.cons_checkpoint, values]

theorem Leg.critiques {cp : Checkpoint} {r : LegResult} (leg : Leg cp r)
    (pending : cp.next = some .draftGenerator) (ended : r.status = .ended) :
    ∃ x ∈ r.executed, x.node = .coveCritique := by
  cases leg with
  | finished done => simp [pending] at done
  | stopped _ running => exact absurd ended running
  | interrupted next action gate =>
      rw [pending] at next
      cases next
      simp at gate
  | committed next action through rest =>
      rw [pending] at next
      cases next
      have follows := Checkpoint.commit_next action
      obtain ⟨x, later, executed, critique, -⟩ := rest.first (List.mem_singleton.mp follows) ended
      exact ⟨x, by simp [executed], critique⟩

theorem Leg.finalizes {cp : Checkpoint} {r : LegResult} (leg : Leg cp r) (ended : r.status = .ended)
    (critiqued : ∃ x ∈ r.executed, x.node = .coveCritique) :
    ∃ front x back, r.executed = front ++ x :: back ∧ x.node = .coveCritique ∧
      x.route = .finalize ∧ ∀ y ∈ back, y.node ≠ .coveCritique := by
  induction leg with
  | finished => simp at critiqued
  | stopped => simp at critiqued
  | @interrupted cp cp' w n x pending action gate =>
      obtain ⟨y, member, critique⟩ := critiqued
      rw [List.mem_singleton.mp member, (Checkpoint.commit_ok.mp action).1,
        mem_interruptAfter.mp gate] at critique
      cases critique
  | @committed cp cp' w n x r pending action through rest ih =>
      by_cases later : ∃ y ∈ r.executed, y.node = .coveCritique
      · obtain ⟨front, y, back, executed, critique, route, none⟩ := ih ended later
        exact ⟨x :: front, y, back, by simp [executed], critique, route, none⟩
      · obtain ⟨y, member, critique⟩ := critiqued
        rcases List.mem_cons.mp member with rfl | member
        · refine ⟨[], y, r.executed, rfl, critique, ?_, fun z m c => later ⟨z, m, c⟩⟩
          obtain ⟨node, read, -, writer, values⟩ := Checkpoint.commit_ok.mp action
          have routed := cp'.routed
          rw [writer, ← node, critique, outgoing, values, ← read] at routed
          cases route : y.route with
          | finalize => rfl
          | rewrite =>
              rw [Exec.route] at route
              rw [route] at routed
              exact absurd (rest.critiques (Except.ok.inj routed).symm ended) later
        · exact absurd ⟨y, member, critique⟩ later

theorem rewritesTaken_split {front back : List Exec} {x : Exec} (route : x.route = .finalize)
    (none : ∀ y ∈ back, y.node ≠ .coveCritique) :
    rewritesTaken (front ++ x :: back) = rewritesTaken front := by
  have after : rewritesTaken back = 0 := by
    rw [rewritesTaken, List.countP_eq_zero]
    intro y member
    simp [none y member]
  rw [rewritesTaken] at after
  rw [rewritesTaken, List.countP_append, List.countP_cons, after]
  simp [route, rewritesTaken]

theorem astream_always {worlds : List World} {cp : Checkpoint} (fresh : cp.rewriteCount = 0)
    (refines : ∀ p ∈ worlds.zip (astream worlds cp).executed,
      p.2.node = .coveCritique → p.2.Refines p.1)
    (critiqued : ∃ x ∈ (astream worlds cp).executed, x.node = .coveCritique)
    (asks : ∀ p ∈ worlds.zip (astream worlds cp).executed, p.2.node = .coveCritique → ∀ parsed,
      coveCritique.reply p.1 p.2.read = .ok parsed → wantsRewrite parsed = true)
    (ended : (astream worlds cp).status = .ended) :
    rewritesTaken (astream worlds cp).executed = 2 := by
  obtain ⟨front, x, back, executed, critique, route, none⟩ :=
    (astream_leg worlds cp).finalizes ended critiqued
  obtain ⟨⟨w, member⟩, before, read⟩ := astream_before executed
  have ran := astream_zip_run member
  rw [critique] at ran
  obtain ⟨parsed, reply, -⟩ := coveCritique_eq_ok.mp ran
  have wants := asks (w, x) member critique parsed reply
  have decision := refines (w, x) member critique parsed reply
  simp only [route, reduceCtorEq, false_iff, needsRewrite_eq, wants, Bool.and_true,
    decide_eq_true_eq, Int.not_lt] at decision
  -- at the last critique the counter is at its cap, and it tells the rewrites taken until then
  have counted := astream_counts refines front.length
  rw [before, fresh, Int.zero_add] at counted
  have capped := (astream_leg (worlds.take front.length) cp).capped (by omega)
  have here : (astream (worlds.take front.length) cp).checkpoint.rewriteCount =
      x.read.rewriteCount.getD 0 := by
    rw [Checkpoint.rewriteCount, read]
  rw [executed, rewritesTaken_split route none]
  omega

/-- In every leg the counter refines the route exactly when, at every critique entered below the
cap, the critic leaves feedback if and only if it asks, and asks with no rewrite counted. -/
theorem counterRefinesRoute_iff (worlds : List World) (cp : Checkpoint) :
    CounterRefinesRoute worlds cp ↔ ∀ p ∈ worlds.zip (astream worlds cp).executed,
      p.2.node = .coveCritique → p.2.Consistent p.1 := by
  have each {p : World × Exec} (member : p ∈ worlds.zip (astream worlds cp).executed)
      (node : p.2.node = .coveCritique) : p.2.Refines p.1 ↔ p.2.Consistent p.1 :=
    Exec.refines_iff_consistent node (astream_zip_run member)
  constructor
  · intro refines p member node
    exact (each member node).mp (refines.route p member node)
  · intro consistent
    have refines : ∀ p ∈ worlds.zip (astream worlds cp).executed,
        p.2.node = .coveCritique → p.2.Refines p.1 :=
      fun p member node => (each member node).mpr (consistent p member node)
    refine ⟨refines, fun fresh k => ?_, fun fresh critiqued asks ended => ?_⟩
    · rw [astream_counts refines k, fresh, Int.zero_add]
    · exact astream_always fresh refines critiqued
        (fun p member node parsed reply => (asks p member node parsed reply).1) ended

def insistentReply : Dict :=
  [("needs_rewrite", .bool true), ("critique_feedback", .str "Compare the interest rates.")]

def draftedOnce : Checkpoint :=
  ⟨{ rewriteCount := some 0 }, some .weightParser, some .draftGenerator, rfl⟩

theorem insistent_critic_rewrites_once :
    rewritesTaken (astream (List.replicate 5 (.fixed "Rent." insistentReply)) draftedOnce).executed =
      1 ∧
    ¬ CounterRefinesRoute (List.replicate 5 (.fixed "Rent." insistentReply)) draftedOnce := by
  have once : rewritesTaken
      (astream (List.replicate 5 (.fixed "Rent." insistentReply)) draftedOnce).executed = 1 := rfl
  apply And.intro once
  intro refines
  have counted := refines.counter rfl 5
  rw [List.take_of_length_le (by simp), once] at counted
  cases counted

end DecisionMaker.Graph
