import DecisionMaker.Graph.Nodes
import DecisionMaker.Library.Except
import Mathlib.Data.List.Induction

/-!
# The compiled graph

What the repository asks of LangGraph: a node's update is committed atomically with the move to
its successor, `interrupt_after` stops a leg behind the named node, a new input restarts at
`START`, and `aupdate_state` merges as if written by the last executed node and evaluates that
node's outgoing edges again.
-/

namespace DecisionMaker.Graph

open Library

inductive Node
  | contextAnalyzer
  | toolNode
  | weightQuestioner
  | weightParser
  | draftGenerator
  | coveCritique
  | finalSynthesizer
  deriving DecidableEq, Repr

def Node.id : Node → String
  | .contextAnalyzer => "1_Context_Analyzer"
  | .toolNode => "2_Tool_Node"
  | .weightQuestioner => "3_Weight_Questioner"
  | .weightParser => "3.5_Weight_Parser"
  | .draftGenerator => "4_Draft_Generator"
  | .coveCritique => "5_CoVe_Critique"
  | .finalSynthesizer => "6_Final_Synthesizer"

def Node.run : Node → World → DecisionMakerState → Except NodeError DecisionMakerState
  | .contextAnalyzer => Graph.contextAnalyzer
  | .toolNode => Graph.toolNode
  | .weightQuestioner => Graph.weightQuestioner
  | .weightParser => Graph.weightParser
  | .draftGenerator => Graph.draftGenerator
  | .coveCritique => Graph.coveCritique
  | .finalSynthesizer => Graph.finalSynthesizer

/-- The edges of `build_graph`: the source `none` is `START`, the target `none` is `END`. -/
def outgoing : Option Node → DecisionMakerState → Except NodeError (Option Node)
  | none, _ => .ok (some .contextAnalyzer)
  | some .contextAnalyzer, s => do
      match ← routeFromContext s with
      | .tool => return some .toolNode
      | .questioner => return some .weightQuestioner
  | some .toolNode, _ => .ok (some .contextAnalyzer)
  | some .weightQuestioner, _ => .ok (some .weightParser)
  | some .weightParser, _ => .ok (some .draftGenerator)
  | some .draftGenerator, _ => .ok (some .coveCritique)
  | some .coveCritique, s =>
      match routeFromCritique s with
      | .rewrite => .ok (some .draftGenerator)
      | .finalize => .ok (some .finalSynthesizer)
  | some .finalSynthesizer, _ => .ok none

def interruptAfter : List Node := [.weightQuestioner]

@[simp] theorem mem_interruptAfter {n : Node} : n ∈ interruptAfter ↔ n = .weightQuestioner :=
  List.mem_singleton

def Node.successors : Node → List (Option Node)
  | .contextAnalyzer => [some .toolNode, some .weightQuestioner]
  | .toolNode => [some .contextAnalyzer]
  | .weightQuestioner => [some .weightParser]
  | .weightParser => [some .draftGenerator]
  | .draftGenerator => [some .coveCritique]
  | .coveCritique => [some .draftGenerator, some .finalSynthesizer]
  | .finalSynthesizer => [none]

theorem outgoing_mem {n : Node} {s : DecisionMakerState} {next : Option Node}
    (edge : outgoing (some n) s = .ok next) : next ∈ n.successors := by
  cases n with
  | contextAnalyzer =>
      obtain ⟨route, -, target⟩ := bind_eq_ok.mp edge
      cases route <;> cases target <;> simp [Node.successors]
  | coveCritique =>
      simp only [outgoing] at edge
      split at edge <;> cases edge <;> simp [Node.successors]
  | _ => cases edge; simp [Node.successors]

def Node.Writes : Node → DecisionMakerState → DecisionMakerState → Prop
  | .contextAnalyzer, _, u => ∃ parsed, u = contextAnalyzer.stateWrite parsed
  | .toolNode, s, u => ∃ newFacts, u = { toolFacts := some (s.toolFacts.getD [] ++ newFacts) }
  | .weightQuestioner, _, u => ∃ parsed, u = weightQuestioner.stateWrite parsed
  | .weightParser, _, u => ∃ parsed, u = weightParser.stateWrite parsed
  | .draftGenerator, _, u => ∃ raw, u = { draftAnalysis := some raw }
  | .coveCritique, s, u => ∃ parsed, u = coveCritique.stateWrite (s.rewriteCount.getD 0) parsed
  | .finalSynthesizer, _, u => ∃ raw, u = { finalAnswer := some raw }

theorem Node.run_writes {n : Node} {w : World} {s u : DecisionMakerState}
    (ran : n.run w s = .ok u) : n.Writes s u := by
  cases n with
  | contextAnalyzer =>
      obtain ⟨_, -, rest⟩ := bind_eq_ok.mp ran
      obtain ⟨parsed, -, rest⟩ := bind_eq_ok.mp rest
      exact ⟨parsed, (Except.ok.inj rest).symm⟩
  | toolNode =>
      obtain ⟨_, -, rest⟩ := bind_eq_ok.mp ran
      obtain ⟨_, -, rest⟩ := bind_eq_ok.mp rest
      obtain ⟨gathered, -, rest⟩ := bind_eq_ok.mp rest
      exact ⟨gathered.flatten, (Except.ok.inj rest).symm⟩
  | weightQuestioner =>
      obtain ⟨_, -, rest⟩ := bind_eq_ok.mp ran
      obtain ⟨parsed, -, rest⟩ := bind_eq_ok.mp rest
      exact ⟨parsed, (Except.ok.inj rest).symm⟩
  | weightParser =>
      obtain ⟨_, -, rest⟩ := bind_eq_ok.mp ran
      obtain ⟨parsed, -, rest⟩ := bind_eq_ok.mp rest
      exact ⟨parsed, (Except.ok.inj rest).symm⟩
  | draftGenerator =>
      obtain ⟨raw, -, rest⟩ := bind_eq_ok.mp ran
      exact ⟨raw, (Except.ok.inj rest).symm⟩
  | coveCritique =>
      obtain ⟨_, -, rest⟩ := bind_eq_ok.mp ran
      obtain ⟨parsed, -, rest⟩ := bind_eq_ok.mp rest
      exact ⟨parsed, (Except.ok.inj rest).symm⟩
  | finalSynthesizer =>
      obtain ⟨raw, -, rest⟩ := bind_eq_ok.mp ran
      exact ⟨raw, (Except.ok.inj rest).symm⟩

theorem Node.Writes.userAnswer {n : Node} {s u : DecisionMakerState} (writes : n.Writes s u) :
    u.userAnswer = none := by
  cases n <;> obtain ⟨_, rfl⟩ := writes <;> rfl

theorem Node.Writes.finalAnswer {n : Node} {s u : DecisionMakerState} (writes : n.Writes s u) :
    u.finalAnswer.isSome = decide (n = .finalSynthesizer) := by
  cases n <;> obtain ⟨_, rfl⟩ := writes <;> rfl

theorem Node.Writes.lastQuestion {n : Node} {s u : DecisionMakerState} (writes : n.Writes s u) :
    u.lastQuestion.isSome = decide (n = .weightQuestioner) := by
  cases n <;> obtain ⟨_, rfl⟩ := writes <;> rfl

/-- A stored checkpoint: its pending successor is the one its last writer's edges give. -/
@[ext] structure Checkpoint where
  values : DecisionMakerState
  writer : Option Node
  next : Option Node
  routed : outgoing writer values = .ok next

namespace Checkpoint

def write (writer : Option Node) (values : DecisionMakerState) : Except NodeError Checkpoint :=
  match routed : outgoing writer values with
  | .ok next => .ok ⟨values, writer, next, routed⟩
  | .error e => .error e

theorem write_ok {writer : Option Node} {values : DecisionMakerState} {cp : Checkpoint} :
    write writer values = .ok cp ↔ cp.writer = writer ∧ cp.values = values := by
  obtain ⟨cpValues, cpWriter, cpNext, cpRouted⟩ := cp
  unfold write
  split
  · rename_i next routed
    simp only [Except.ok.injEq, mk.injEq]
    constructor
    · intro same
      obtain ⟨rfl, rfl, rfl⟩ := same
      exact ⟨rfl, rfl⟩
    · intro same
      obtain ⟨rfl, rfl⟩ := same
      exact ⟨rfl, rfl, Except.ok.inj (routed.symm.trans cpRouted)⟩
  · rename_i e routed
    simp only [reduceCtorEq, false_iff]
    intro same
    obtain ⟨rfl, rfl⟩ := same
    cases routed.symm.trans cpRouted

theorem ext_of {c d : Checkpoint} (values : c.values = d.values) (writer : c.writer = d.writer) :
    c = d := by
  have h : write c.writer c.values = .ok d := write_ok.mpr ⟨writer.symm, values.symm⟩
  rw [write_ok.mpr ⟨rfl, rfl⟩] at h
  exact Except.ok.inj h

def empty : Checkpoint := ⟨{}, none, some .contextAnalyzer, rfl⟩

def restart (cp : Checkpoint) (userInput : String) : Checkpoint :=
  ⟨cp.values.merge (.initial userInput), none, some .contextAnalyzer, rfl⟩

def aupdateState (cp : Checkpoint) (userAnswer : String) : Except NodeError Checkpoint :=
  write cp.writer (cp.values.merge (.answer userAnswer))

theorem outgoing_answer (writer : Option Node) (s : DecisionMakerState) (a : String) :
    outgoing writer (s.merge (.answer a)) = outgoing writer s := by
  rcases writer with _ | writer
  · rfl
  · cases writer <;> simp only [outgoing]
    · rw [routeFromContext_congr (s.merge_answer_isDataSufficient a) (s.merge_answer_searchQueries a)]
    · rw [routeFromCritique_congr (s.merge_answer_critiqueFeedback a) (s.merge_answer_rewriteCount a)]

def answered (cp : Checkpoint) (userAnswer : String) : Checkpoint :=
  ⟨cp.values.merge (.answer userAnswer), cp.writer, cp.next,
    (outgoing_answer _ _ _).trans cp.routed⟩

@[simp] theorem aupdateState_eq (cp : Checkpoint) (a : String) :
    cp.aupdateState a = .ok (cp.answered a) :=
  write_ok.mpr ⟨rfl, rfl⟩

@[simp] theorem answered_next (cp : Checkpoint) (a : String) : (cp.answered a).next = cp.next := rfl
@[simp] theorem answered_writer (cp : Checkpoint) (a : String) :
    (cp.answered a).writer = cp.writer := rfl
@[simp] theorem answered_userAnswer (cp : Checkpoint) (a : String) :
    (cp.answered a).values.userAnswer = some a := rfl
@[simp] theorem answered_finalAnswer (cp : Checkpoint) (a : String) :
    (cp.answered a).values.finalAnswer = cp.values.finalAnswer := rfl

theorem answered_eq_self {cp : Checkpoint} {a : String} (given : cp.values.userAnswer = some a) :
    cp.answered a = cp :=
  ext_of (DecisionMakerState.merge_answer_eq given) rfl

end Checkpoint

structure Exec where
  node : Node
  read : DecisionMakerState
  update : DecisionMakerState

def Checkpoint.commit (cp : Checkpoint) (w : World) (n : Node) :
    Except NodeError (Exec × Checkpoint) := do
  let update ← n.run w cp.values
  -- the router belongs to the task of the node: where it raises nothing is committed
  let committed ← Checkpoint.write (some n) (cp.values.merge update)
  return (⟨n, cp.values, update⟩, committed)

theorem Checkpoint.commit_ok {cp cp' : Checkpoint} {w : World} {n : Node} {x : Exec} :
    cp.commit w n = .ok (x, cp') ↔ x.node = n ∧ x.read = cp.values ∧
      n.run w cp.values = .ok x.update ∧ cp'.writer = some n ∧
      cp'.values = cp.values.merge x.update := by
  obtain ⟨node, read, update⟩ := x
  simp only [Checkpoint.commit, bind_eq_ok, Checkpoint.write_ok, pure, Except.pure,
    Except.ok.injEq, Prod.mk.injEq, Exec.mk.injEq]
  constructor
  · intro committed
    obtain ⟨_, ran, _, ⟨writer, values⟩, ⟨rfl, rfl, rfl⟩, rfl⟩ := committed
    exact ⟨rfl, rfl, ran, writer, values⟩
  · intro committed
    obtain ⟨rfl, rfl, ran, writer, values⟩ := committed
    exact ⟨_, ran, _, ⟨writer, values⟩, ⟨rfl, rfl, rfl⟩, rfl⟩

theorem Checkpoint.commit_next {cp cp' : Checkpoint} {w : World} {n : Node} {x : Exec}
    (action : cp.commit w n = .ok (x, cp')) : cp'.next ∈ n.successors := by
  obtain ⟨-, -, -, writer, -⟩ := commit_ok.mp action
  exact outgoing_mem (writer ▸ cp'.routed)

inductive LegStatus
  | ended
  | cut
  | raised (e : NodeError)
  deriving DecidableEq, Repr

structure LegResult where
  executed : List Exec
  checkpoint : Checkpoint
  status : LegStatus

def LegResult.cons (x : Exec) (r : LegResult) : LegResult :=
  { r with executed := x :: r.executed }

/-- One leg, `graph.astream(...)` or `graph.ainvoke(...)`. The worlds are those of its successive
node executions; where they run out the leg is cut, by a timeout, a cancellation or the recursion limit,
which `streamWithin` tells apart. -/
def astream : List World → Checkpoint → LegResult
  | [], cp => ⟨[], cp, if cp.next.isNone then .ended else .cut⟩
  | w :: worlds, cp =>
      match cp.next with
      | none => ⟨[], cp, .ended⟩
      | some n =>
          match cp.commit w n with
          | .error e => ⟨[], cp, .raised e⟩
          | .ok (x, cp') =>
              if n ∈ interruptAfter then ⟨[x], cp', .ended⟩ else (astream worlds cp').cons x

def LegResult.then (r next : LegResult) : LegResult :=
  { next with executed := r.executed ++ next.executed }

@[simp] theorem LegResult.cons_then (x : Exec) (r next : LegResult) :
    (r.cons x).then next = (r.then next).cons x := rfl

@[simp] theorem LegResult.cons_status (x : Exec) (r : LegResult) : (r.cons x).status = r.status := rfl

@[simp] theorem LegResult.cons_checkpoint (x : Exec) (r : LegResult) :
    (r.cons x).checkpoint = r.checkpoint := rfl

@[simp] theorem LegResult.cons_executed (x : Exec) (r : LegResult) :
    (r.cons x).executed = x :: r.executed := rfl

section
variable {cp cp' : Checkpoint} {w : World} {n : Node} {x : Exec} {e : NodeError}

theorem astream_finished (pending : cp.next = none) (worlds : List World) :
    astream worlds cp = ⟨[], cp, .ended⟩ := by
  cases worlds <;> simp [astream, pending]

theorem astream_nil (pending : cp.next = some n) : astream [] cp = ⟨[], cp, .cut⟩ := by
  simp [astream, pending]

theorem astream_raised (pending : cp.next = some n) (action : cp.commit w n = .error e)
    (worlds : List World) : astream (w :: worlds) cp = ⟨[], cp, .raised e⟩ := by
  simp [astream, pending, action]

theorem astream_interrupted (pending : cp.next = some n) (action : cp.commit w n = .ok (x, cp'))
    (gate : n ∈ interruptAfter) (worlds : List World) :
    astream (w :: worlds) cp = ⟨[x], cp', .ended⟩ := by
  simp only [astream, pending, action, if_pos gate]

theorem astream_committed (pending : cp.next = some n) (action : cp.commit w n = .ok (x, cp'))
    (through : n ∉ interruptAfter) (worlds : List World) :
    astream (w :: worlds) cp = (astream worlds cp').cons x := by
  simp only [astream, pending, action, if_neg through]

end

theorem astream_append {worlds : List World} {cp : Checkpoint}
    (cut : (astream worlds cp).status = .cut) (more : List World) :
    astream (worlds ++ more) cp =
      (astream worlds cp).then (astream more (astream worlds cp).checkpoint) := by
  induction worlds generalizing cp with
  | nil => rfl
  | cons w worlds ih =>
      rw [List.cons_append]
      cases pending : cp.next with
      | none => rw [astream_finished pending] at cut; cases cut
      | some n =>
          cases action : cp.commit w n with
          | error e => rw [astream_raised pending action] at cut; cases cut
          | ok result =>
              by_cases gate : n ∈ interruptAfter
              · rw [astream_interrupted pending action gate] at cut; cases cut
              · simp only [astream_committed pending action gate, LegResult.cons_status] at cut ⊢
                rw [ih cut, LegResult.cons_then, LegResult.cons_checkpoint]

theorem astream_stable {worlds : List World} {cp : Checkpoint}
    (done : (astream worlds cp).status ≠ .cut) (more : List World) :
    astream (worlds ++ more) cp = astream worlds cp := by
  induction worlds generalizing cp with
  | nil =>
      cases pending : cp.next with
      | none => rw [astream_finished pending, astream_finished pending]
      | some n => rw [astream_nil pending] at done; exact absurd rfl done
  | cons w worlds ih =>
      rw [List.cons_append]
      cases pending : cp.next with
      | none => rw [astream_finished pending, astream_finished pending]
      | some n =>
          cases action : cp.commit w n with
          | error e => rw [astream_raised pending action, astream_raised pending action]
          | ok result =>
              by_cases gate : n ∈ interruptAfter
              · rw [astream_interrupted pending action gate, astream_interrupted pending action gate]
              · simp only [astream_committed pending action gate, LegResult.cons_status] at done ⊢
                rw [ih done]

inductive Leg : Checkpoint → LegResult → Prop
  | finished {cp : Checkpoint} (pending : cp.next = none) : Leg cp ⟨[], cp, .ended⟩
  | stopped {cp : Checkpoint} {status : LegStatus} (pending : cp.next ≠ none)
      (running : status ≠ .ended) : Leg cp ⟨[], cp, status⟩
  | interrupted {cp cp' : Checkpoint} {w : World} {n : Node} {x : Exec}
      (pending : cp.next = some n) (action : cp.commit w n = .ok (x, cp'))
      (gate : n ∈ interruptAfter) : Leg cp ⟨[x], cp', .ended⟩
  | committed {cp cp' : Checkpoint} {w : World} {n : Node} {x : Exec} {r : LegResult}
      (pending : cp.next = some n) (action : cp.commit w n = .ok (x, cp'))
      (through : n ∉ interruptAfter) (rest : Leg cp' r) : Leg cp (r.cons x)

theorem astream_leg (worlds : List World) (cp : Checkpoint) : Leg cp (astream worlds cp) := by
  induction worlds generalizing cp with
  | nil =>
      cases pending : cp.next with
      | none => rw [astream_finished pending]; exact .finished pending
      | some n => rw [astream_nil pending]; exact .stopped (by simp [pending]) (by simp)
  | cons w worlds ih =>
      cases pending : cp.next with
      | none => rw [astream_finished pending]; exact .finished pending
      | some n =>
          cases action : cp.commit w n with
          | error e =>
              rw [astream_raised pending action]
              exact .stopped (by simp [pending]) (by simp)
          | ok result =>
              by_cases gate : n ∈ interruptAfter
              · rw [astream_interrupted pending action gate]
                exact .interrupted pending action gate
              · rw [astream_committed pending action gate]
                exact .committed pending action gate (ih _)

inductive LoopStatus
  | ended
  | raised (e : NodeError)
  | graphRecursionError
  deriving DecidableEq, Repr

structure LoopResult where
  executed : List Exec
  checkpoint : Checkpoint
  status : LoopStatus

/-- The loop of the engine over a leg, `steps` of which its `recursion_limit` leaves it. The limit is
looked at before it is seen whether a node is pending, and behind the interrupt. -/
def streamWithin : Nat → (Nat → World) → Checkpoint → LoopResult
  | 0, _, cp => ⟨[], cp, .graphRecursionError⟩
  | steps + 1, world, cp =>
      match cp.next with
      | none => ⟨[], cp, .ended⟩
      | some n =>
          match cp.commit (world 0) n with
          | .error e => ⟨[], cp, .raised e⟩
          | .ok (x, cp') =>
              if n ∈ interruptAfter then ⟨[x], cp', .ended⟩
              else
                let rest := streamWithin steps (fun step => world (step + 1)) cp'
                { rest with executed := x :: rest.executed }

def LegResult.within (r : LegResult) (steps : Nat) : LoopStatus :=
  match r.status with
  | .cut => .graphRecursionError
  | .raised e => .raised e
  | .ended =>
      if r.checkpoint.next = none ∧ r.executed.length = steps then .graphRecursionError else .ended

theorem streamWithin_eq (steps : Nat) (world : Nat → World) (cp : Checkpoint) :
    streamWithin steps world cp =
      ⟨(astream ((List.range steps).map world) cp).executed,
        (astream ((List.range steps).map world) cp).checkpoint,
        (astream ((List.range steps).map world) cp).within steps⟩ := by
  induction steps generalizing world cp with
  | zero =>
      cases pending : cp.next with
      | none => simp [streamWithin, astream_finished pending, LegResult.within, pending]
      | some n => simp [streamWithin, astream_nil pending, LegResult.within]
  | succ steps ih =>
      have worlds : (List.range (steps + 1)).map world =
          world 0 :: (List.range steps).map fun step => world (step + 1) := by
        rw [List.range_succ_eq_map, List.map_cons, List.map_map]
        rfl
      rw [worlds]
      cases pending : cp.next with
      | none => simp [streamWithin, astream_finished pending, LegResult.within, pending]
      | some n =>
          cases action : cp.commit (world 0) n with
          | error e => simp [streamWithin, astream_raised pending action, LegResult.within, pending, action]
          | ok result =>
              obtain ⟨x, cp'⟩ := result
              by_cases gate : n ∈ interruptAfter
              · have waits : cp'.next ≠ none := by
                  have follows := Checkpoint.commit_next action
                  rw [mem_interruptAfter.mp gate, Node.successors, List.mem_singleton] at follows
                  simp [follows]
                simp only [streamWithin, astream_interrupted pending action gate, pending, action, gate,
                  if_true, LegResult.within, waits, false_and, if_false]
              · simp only [streamWithin, astream_committed pending action gate, pending, action, gate,
                  if_false, ih]
                simp [LegResult.within]

inductive Call
  | start (userInput : String)
  | resume (userAnswer : String)

inductive Sentinel
  | awaitingUser (lastQuestion : Value)
  | done (finalAnswer : String)

def Call.enter (c : Call) (stored : Option Checkpoint) : Except NodeError Checkpoint :=
  match c with
  | .start userInput => .ok ((stored.getD .empty).restart userInput)
  | .resume userAnswer => (stored.getD .empty).aupdateState userAnswer

def Call.sentinel (c : Call) (values : DecisionMakerState) : Sentinel :=
  match c with
  | .start _ => .awaitingUser (getOr values.lastQuestion (.str ""))
  | .resume _ => .done (values.finalAnswer.getD "")

structure CallRecord where
  call : Call
  executed : List Exec
  status : LegStatus
  sentinel : Option Sentinel

structure Thread where
  checkpoint : Option Checkpoint := none
  log : List CallRecord := []

/-- One call with the behaviour of the world during its leg. A call can also be cut after its leg,
before it has read the snapshot: then it delivers no sentinel. A call that fails before its first
write leaves the thread as it was. -/
structure Attempt where
  call : Call
  worlds : List World
  delivered : Bool := true

def Thread.perform (t : Thread) (attempt : Attempt) : Thread :=
  match attempt.call.enter t.checkpoint with
  | .error _ => t
  | .ok cp =>
      let leg := astream attempt.worlds cp
      let sentinel :=
        if leg.status = .ended ∧ attempt.delivered = true then
          some (attempt.call.sentinel leg.checkpoint.values)
        else none
      { checkpoint := some leg.checkpoint
        log := t.log ++ [⟨attempt.call, leg.executed, leg.status, sentinel⟩] }

def Thread.after (history : List Attempt) : Thread := history.foldl Thread.perform {}

def Call.entry (c : Call) (stored : Option Checkpoint) : Checkpoint :=
  match c with
  | .start userInput => (stored.getD .empty).restart userInput
  | .resume userAnswer => (stored.getD .empty).answered userAnswer

@[simp] theorem Call.enter_eq (c : Call) (stored : Option Checkpoint) :
    c.enter stored = .ok (c.entry stored) := by
  cases c with
  | start userInput => rfl
  | resume userAnswer => exact Checkpoint.aupdateState_eq _ _

theorem Thread.after_concat (history : List Attempt) (attempt : Attempt) :
    Thread.after (history ++ [attempt]) = (Thread.after history).perform attempt := by
  simp [Thread.after]

def Thread.record (t : Thread) (attempt : Attempt) : CallRecord :=
  let leg := astream attempt.worlds (attempt.call.entry t.checkpoint)
  ⟨attempt.call, leg.executed, leg.status,
    if leg.status = .ended ∧ attempt.delivered = true then
      some (attempt.call.sentinel leg.checkpoint.values)
    else none⟩

@[simp] theorem Thread.perform_checkpoint (t : Thread) (attempt : Attempt) :
    (t.perform attempt).checkpoint =
      some (astream attempt.worlds (attempt.call.entry t.checkpoint)).checkpoint := by
  simp [Thread.perform]

@[simp] theorem Thread.perform_log (t : Thread) (attempt : Attempt) :
    (t.perform attempt).log = t.log ++ [t.record attempt] := by
  simp [Thread.perform, Thread.record]

def Thread.executions (t : Thread) : List Exec := t.log.flatMap CallRecord.executed

theorem Thread.perform_executions (t : Thread) (attempt : Attempt) :
    (t.perform attempt).executions = t.executions ++ (t.record attempt).executed := by
  simp [Thread.executions]

theorem Thread.record_sentinel {t : Thread} {attempt : Attempt} {sentinel : Sentinel} :
    (t.record attempt).sentinel = some sentinel ↔
      (t.record attempt).status = .ended ∧ attempt.delivered = true ∧
        attempt.call.sentinel
          (astream attempt.worlds (attempt.call.entry t.checkpoint)).checkpoint.values = sentinel := by
  simp only [Thread.record, Option.ite_none_right_eq_some, Option.some.injEq, and_assoc]

theorem Thread.forall_log {P : CallRecord → Prop}
    (each : ∀ (t : Thread) (attempt : Attempt), P (t.record attempt)) (history : List Attempt) :
    ∀ record ∈ (Thread.after history).log, P record := by
  induction history using List.reverseRecOn with
  | nil => simp [Thread.after]
  | append_singleton history attempt ih =>
      rw [Thread.after_concat, Thread.perform_log]
      intro record member
      rcases List.mem_append.mp member with earlier | latest
      · exact ih record earlier
      · rw [List.mem_singleton.mp latest]
        exact each _ attempt

end DecisionMaker.Graph
