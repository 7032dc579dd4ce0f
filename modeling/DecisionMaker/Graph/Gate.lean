import DecisionMaker.Graph.Engine

namespace DecisionMaker.Graph

def Node.afterGate : Node → Bool
  | .weightParser | .draftGenerator | .coveCritique | .finalSynthesizer => true
  | .contextAnalyzer | .toolNode | .weightQuestioner => false

theorem Leg.before_gate {cp : Checkpoint} {r : LegResult} (leg : Leg cp r)
    (before : ∃ n, cp.next = some n ∧ n.afterGate = false) :
    (∀ x ∈ r.executed, x.node.afterGate = false) ∧
    (r.status = .ended → ∃ front x, r.executed = front ++ [x] ∧ x.node = .weightQuestioner ∧
      (∀ y ∈ front, y.node ≠ .weightQuestioner) ∧
      r.checkpoint.values.lastQuestion = x.update.lastQuestion) := by
  induction leg with
  | finished pending =>
      obtain ⟨n, next, -⟩ := before
      simp [pending] at next
  | stopped pending running => exact ⟨by simp, fun ended => absurd ended running⟩
  | @interrupted cp cp' w n x pending action gate =>
      obtain ⟨node, -, ran, -, values⟩ := Checkpoint.commit_ok.mp action
      rw [mem_interruptAfter] at gate
      subst gate
      refine ⟨by simp [node, Node.afterGate], fun _ => ⟨[], x, rfl, node, by simp, ?_⟩⟩
      have asked := (Node.run_writes ran).lastQuestion
      simp only [values, DecisionMakerState.merge]
      cases question : x.update.lastQuestion with
      | none => simp [question] at asked
      | some q => rfl
  | @committed cp cp' w n x r pending action through leg ih =>
      obtain ⟨m, next, early⟩ := before
      obtain ⟨node, -⟩ := Checkpoint.commit_ok.mp action
      obtain rfl : m = n := Option.some.inj (next.symm.trans pending)
      have follows := Checkpoint.commit_next action
      rw [mem_interruptAfter] at through
      have goes : ∃ n, cp'.next = some n ∧ n.afterGate = false := by
        cases m <;> simp_all [Node.successors, Node.afterGate]
        rcases follows with h | h <;> simp [h]
      obtain ⟨stays, ends⟩ := ih goes
      refine ⟨?_, fun ended => ?_⟩
      · intro y member
        rcases List.mem_cons.mp member with rfl | member
        · rwa [node]
        · exact stays y member
      · obtain ⟨front, last, executed, asked, once, question⟩ := ends ended
        refine ⟨x :: front, last, by simp [LegResult.cons, executed], asked, ?_, question⟩
        intro y member
        rcases List.mem_cons.mp member with rfl | member
        · rwa [node]
        · exact once y member

theorem Leg.parser_first {cp : Checkpoint} {r : LegResult} (leg : Leg cp r) {front back : List Exec}
    {x : Exec} (executed : r.executed = front ++ x :: back) (node : x.node = .weightParser) :
    front = [] ∧ cp.next = some .weightParser ∧ x.read = cp.values := by
  induction leg generalizing front with
  | finished => simp at executed
  | stopped => simp at executed
  | @interrupted cp cp' w n y pending action gate =>
      obtain ⟨ran, -⟩ := Checkpoint.commit_ok.mp action
      have member : x ∈ [y] := by
        have executed : [y] = front ++ x :: back := executed
        simp [executed]
      rw [mem_interruptAfter.mp gate, ← List.mem_singleton.mp member, node] at ran
      cases ran
  | @committed cp cp' w n y r pending action through leg ih =>
      obtain ⟨ran, read, -⟩ := Checkpoint.commit_ok.mp action
      have follows := Checkpoint.commit_next action
      rw [mem_interruptAfter] at through
      cases front with
      | nil =>
          obtain ⟨rfl, -⟩ := List.cons.inj executed
          exact ⟨rfl, by rw [pending, ← ran, node], read⟩
      | cons z front =>
          obtain ⟨-, rest⟩ := List.cons.inj executed
          obtain ⟨-, next, -⟩ := ih rest
          rw [next] at follows
          cases n <;> simp_all [Node.successors]

theorem Node.afterGate_successor {n m : Node} (behind : n.afterGate = true)
    (edge : some m ∈ n.successors) : m.afterGate = true := by
  cases n <;> simp_all [Node.successors, Node.afterGate]
  rcases edge with rfl | rfl <;> rfl

theorem Node.afterGate_through {n : Node} (behind : n.afterGate = true) : n ∉ interruptAfter := by
  intro gate
  rw [mem_interruptAfter.mp gate] at behind
  cases behind

def Checkpoint.Behind (cp : Checkpoint) : Prop := ∀ n, cp.next = some n → n.afterGate = true

theorem Checkpoint.behind_of_asked {cp : Checkpoint} (asked : cp.writer = some .weightQuestioner) :
    cp.next = some .weightParser ∧ cp.Behind := by
  have routed := cp.routed
  rw [asked] at routed
  have next : cp.next = some .weightParser := (Except.ok.inj routed).symm
  refine ⟨next, fun n pending => ?_⟩
  rw [next] at pending
  cases pending
  rfl

theorem Checkpoint.Behind.commit {cp cp' : Checkpoint} {w : World} {n : Node} {x : Exec}
    (behind : cp.Behind) (pending : cp.next = some n) (action : cp.commit w n = .ok (x, cp')) :
    cp'.Behind :=
  fun _ next => Node.afterGate_successor (behind n pending) (next ▸ commit_next action)

structure Checkpoint.Answering (cp : Checkpoint) (a : String) : Prop where
  given : cp.values.userAnswer = some a
  behind : cp.Behind

namespace Checkpoint.Answering
variable {cp cp' : Checkpoint} {a : String}

theorem answered (answering : cp.Answering a) : cp.answered a = cp :=
  answered_eq_self answering.given

theorem commit (answering : cp.Answering a) {w : World} {n : Node} {x : Exec}
    (pending : cp.next = some n) (action : cp.commit w n = .ok (x, cp')) : cp'.Answering a := by
  obtain ⟨-, -, ran, -, values⟩ := commit_ok.mp action
  refine ⟨?_, answering.behind.commit pending action⟩
  simp [values, DecisionMakerState.merge, (Node.run_writes ran).userAnswer, answering.given]

theorem leg (answering : cp.Answering a) {r : LegResult} (leg : Leg cp r) :
    r.checkpoint.Answering a ∧ (r.status = .ended → r.checkpoint.next = none) := by
  induction leg with
  | finished pending => exact ⟨answering, fun _ => pending⟩
  | stopped pending running => exact ⟨answering, fun ended => absurd ended running⟩
  | interrupted pending action gate => exact absurd gate (Node.afterGate_through (answering.behind _ pending))
  | committed pending action through leg ih => exact ih (answering.commit pending action)

end Checkpoint.Answering

structure Gated (record : CallRecord) : Prop where
  startLeg : ∀ userInput, record.call = .start userInput →
    ∀ x ∈ record.executed, x.node.afterGate = false
  parser : ∀ front x back, record.executed = front ++ x :: back → x.node = .weightParser →
    ∃ userAnswer, record.call = .resume userAnswer ∧ x.read.userAnswer = some userAnswer ∧
      ∀ y ∈ front, y.node ≠ .weightQuestioner
  question : ∀ userInput, record.call = .start userInput → record.status = .ended →
    ∃ front x, record.executed = front ++ [x] ∧ x.node = .weightQuestioner ∧
      (∀ y ∈ front, y.node ≠ .weightQuestioner) ∧
      ∀ sentinel, record.sentinel = some sentinel →
        sentinel = .awaitingUser (getOr x.update.lastQuestion (.str ""))

theorem record_gated (t : Thread) (attempt : Attempt) : Gated (t.record attempt) := by
  obtain ⟨call, worlds, delivered⟩ := attempt
  have restarted (userInput : String) : ∃ n, (Call.entry (.start userInput) t.checkpoint).next =
      some n ∧ n.afterGate = false := ⟨.contextAnalyzer, rfl, rfl⟩
  constructor
  case startLeg =>
    rintro userInput rfl
    exact ((astream_leg worlds _).before_gate (restarted userInput)).1
  case parser =>
    intro front x back executed node
    obtain ⟨rfl, next, read⟩ := (astream_leg worlds _).parser_first executed node
    cases call with
    | start userInput => simp [Call.entry, Checkpoint.restart] at next
    | resume userAnswer => exact ⟨userAnswer, rfl, by rw [read]; rfl, by simp⟩
  case question =>
    rintro userInput rfl ended
    obtain ⟨front, x, executed, node, once, question⟩ :=
      ((astream_leg worlds _).before_gate (restarted userInput)).2 ended
    refine ⟨front, x, executed, node, once, fun sentinel given => ?_⟩
    simp only [Thread.record] at given
    split at given
    · rw [← Option.some.inj given, Call.sentinel, question]
    · cases given

/-- Whatever the LLM and the search do in whatever history of calls, the nodes behind the gate
never run in a start leg; the parser runs only in a resume leg, on the answer injected when that
leg began, with no questioner in between; and a start leg that ends has run the questioner once,
as its last node, and hands out its question. -/
theorem hitl_gate (history : List Attempt) : ∀ record ∈ (Thread.after history).log, Gated record :=
  Thread.forall_log record_gated history

theorem hitl_gate_first_call :
    Gated (Thread.record {} ⟨.start "Buy or rent?",
      List.replicate 2 (.fixed "" [("last_question", .str "Is stability worth more?")]), true⟩) :=
  hitl_gate [⟨.start "Buy or rent?",
      List.replicate 2 (.fixed "" [("last_question", .str "Is stability worth more?")]), true⟩] _
    (by simp [Thread.after])

end DecisionMaker.Graph
