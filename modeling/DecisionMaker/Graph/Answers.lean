import DecisionMaker.Graph.Gate
import DecisionMaker.Library.History

namespace DecisionMaker.Graph

open Library

def latest (n : Node) (xs : List Exec) : Option Exec := (xs.filter fun x => x.node = n).getLast?

def ParsedLast (xs : List Exec) (a : String) : Prop :=
  ∃ p, latest .weightParser xs = some p ∧ p.read.userAnswer = some a

def SynthesizedFrom (xs : List Exec) (a : String) : Prop :=
  ∃ front x back, xs = front ++ x :: back ∧ x.node = .finalSynthesizer ∧
    (∀ y ∈ back, y.node ≠ .finalSynthesizer) ∧ ParsedLast front a

def Answers (xs : List Exec) (a f : String) : Prop :=
  ∃ front x back, xs = front ++ x :: back ∧ x.node = .finalSynthesizer ∧
    (∀ y ∈ back, y.node ≠ .finalSynthesizer) ∧ x.update.finalAnswer = some f ∧ ParsedLast front a

/-- The threads from which a resume with the answer `a` can only reply to `a`: the parser is
pending, or the parser that the pending nodes follow has read `a`, or nothing behind the gate is
pending and the final answer that is stored is one to `a`. -/
def Thread.ReadyFor (t : Thread) (a : String) : Prop :=
  match (t.checkpoint.getD .empty).writer with
  | some .weightQuestioner => True
  | some .weightParser | some .draftGenerator | some .coveCritique => ParsedLast t.executions a
  | some .finalSynthesizer | some .contextAnalyzer | some .toolNode | none =>
      SynthesizedFrom t.executions a

section
variable {xs ys : List Exec} {x : Exec} {n : Node} {a : String}

theorem latest_append : latest n (xs ++ ys) = (latest n ys).or (latest n xs) := by
  simp [latest, List.getLast?_append]

theorem latest_eq_none : latest n xs = none ↔ ∀ y ∈ xs, y.node ≠ n := by
  simp [latest]

theorem latest_concat_self (node : x.node = n) : latest n (xs ++ [x]) = some x := by
  simp [latest, node]

theorem latest_concat_other (node : x.node ≠ n) : latest n (xs ++ [x]) = latest n xs := by
  simp [latest, node]

theorem latest_split {front back : List Exec} (node : x.node = n) (none : ∀ y ∈ back, y.node ≠ n) :
    latest n (front ++ x :: back) = some x := by
  rw [List.append_cons, latest_append, latest_eq_none.mpr none, Option.none_or,
    latest_concat_self node]

theorem parsedLast_append (none : ∀ y ∈ ys, y.node ≠ .weightParser) :
    ParsedLast (xs ++ ys) a ↔ ParsedLast xs a := by
  simp only [ParsedLast, latest_append, latest_eq_none.mpr none, Option.none_or]

theorem synthesizedFrom_concat_self (node : x.node = .finalSynthesizer) :
    SynthesizedFrom (xs ++ [x]) a ↔ ParsedLast xs a := by
  simp only [SynthesizedFrom, concat_eq_append_cons]
  constructor
  · intro synthesized
    obtain ⟨front, y, back, ⟨rfl, rfl, -⟩ | ⟨rest, rfl, -⟩, -, none, parsed⟩ := synthesized
    · exact parsed
    · exact absurd node (none x (by simp))
  · exact fun parsed => ⟨xs, x, [], .inl ⟨rfl, rfl, rfl⟩, node, by simp, parsed⟩

theorem synthesizedFrom_concat_other (node : x.node ≠ .finalSynthesizer) :
    SynthesizedFrom (xs ++ [x]) a ↔ SynthesizedFrom xs a := by
  simp only [SynthesizedFrom, concat_eq_append_cons]
  constructor
  · intro synthesized
    obtain ⟨front, y, back, ⟨-, rfl, -⟩ | ⟨rest, rfl, rfl⟩, final, none, parsed⟩ := synthesized
    · exact absurd final node
    · exact ⟨front, y, rest, rfl, final, fun z member => none z (by simp [member]), parsed⟩
  · intro synthesized
    obtain ⟨front, y, back, rfl, final, none, parsed⟩ := synthesized
    refine ⟨front, y, back ++ [x], .inr ⟨back, rfl, rfl⟩, final, fun z member => ?_, parsed⟩
    rcases List.mem_append.mp member with earlier | last
    · exact none z earlier
    · rwa [List.mem_singleton.mp last]

theorem synthesizedFrom_append (none : ∀ y ∈ ys, y.node ≠ .finalSynthesizer) :
    SynthesizedFrom (xs ++ ys) a ↔ SynthesizedFrom xs a := by
  induction ys using List.reverseRecOn with
  | nil => rw [List.append_nil]
  | append_singleton ys y ih =>
      rw [← List.append_assoc, synthesizedFrom_concat_other (none y (by simp)),
        ih fun z member => none z (by simp [member])]

end

def StoresLatest (xs : List Exec) (values : DecisionMakerState) : Prop :=
  ∀ x, latest .finalSynthesizer xs = some x →
    ∃ f, x.update.finalAnswer = some f ∧ values.finalAnswer = some f

theorem StoresLatest.commit {xs : List Exec} {cp cp' : Checkpoint} {w : World} {n : Node} {x : Exec}
    (stores : StoresLatest xs cp.values) (action : cp.commit w n = .ok (x, cp')) :
    StoresLatest (xs ++ [x]) cp'.values := by
  obtain ⟨node, -, ran, -, values⟩ := Checkpoint.commit_ok.mp action
  have wrote := (Node.run_writes ran).finalAnswer
  simp only [StoresLatest, values, DecisionMakerState.merge]
  by_cases final : n = .finalSynthesizer
  · rw [latest_concat_self (node.trans final)]
    intro y same
    cases same
    simp only [final, decide_true, Option.isSome_iff_exists] at wrote
    obtain ⟨f, wrote⟩ := wrote
    exact ⟨f, wrote, by simp [wrote]⟩
  · rw [latest_concat_other (by rwa [node])]
    simp only [final, decide_false, Option.isSome_eq_false_iff, Option.isNone_iff_eq_none] at wrote
    simpa [wrote, StoresLatest] using stores

theorem StoresLatest.leg {xs : List Exec} {cp : Checkpoint} {r : LegResult}
    (stores : StoresLatest xs cp.values) (leg : Leg cp r) :
    StoresLatest (xs ++ r.executed) r.checkpoint.values := by
  induction leg generalizing xs with
  | finished pending => simpa using stores
  | stopped pending running => simpa using stores
  | interrupted pending action gate => exact stores.commit action
  | committed pending action through leg ih =>
      have later := ih (stores.commit action)
      rwa [List.append_assoc] at later

theorem Call.entry_finalAnswer (c : Call) (stored : Option Checkpoint) :
    (c.entry stored).values.finalAnswer = (stored.getD .empty).values.finalAnswer := by
  cases c <;> rfl

theorem Thread.storesLatest (history : List Attempt) :
    StoresLatest (Thread.after history).executions
      ((Thread.after history).checkpoint.getD .empty).values := by
  induction history using List.reverseRecOn with
  | nil => intro x none; cases none
  | append_singleton history attempt ih =>
      rw [Thread.after_concat, Thread.perform_executions, Thread.perform_checkpoint]
      apply StoresLatest.leg _ (astream_leg _ _)
      intro x last
      rw [Call.entry_finalAnswer]
      exact ih x last

theorem Leg.first {cp : Checkpoint} {r : LegResult} (leg : Leg cp r) {n : Node}
    (pending : cp.next = some n) (ended : r.status = .ended) :
    ∃ x rest, r.executed = x :: rest ∧ x.node = n ∧ x.read = cp.values := by
  cases leg with
  | finished done => simp [pending] at done
  | stopped _ running => exact absurd ended running
  | interrupted next action _ =>
      obtain ⟨node, read, -⟩ := Checkpoint.commit_ok.mp action
      exact ⟨_, [], rfl, node.trans (Option.some.inj (next.symm.trans pending)), read⟩
  | committed next action _ _ =>
      obtain ⟨node, read, -⟩ := Checkpoint.commit_ok.mp action
      exact ⟨_, _, rfl, node.trans (Option.some.inj (next.symm.trans pending)), read⟩

theorem Leg.last {cp : Checkpoint} {r : LegResult} (leg : Leg cp r)
    (behind : cp.Behind) (ended : r.status = .ended) (open' : cp.next ≠ none) :
    ∃ front x, r.executed = front ++ [x] ∧ x.node = .finalSynthesizer := by
  induction leg with
  | finished pending => exact absurd pending open'
  | stopped pending running => exact absurd ended running
  | interrupted pending action gate =>
      exact absurd gate (Node.afterGate_through (behind _ pending))
  | @committed cp cp' w n x r pending action through leg ih =>
      have follows := Checkpoint.commit_next action
      have node := (Checkpoint.commit_ok.mp action).1
      cases next : cp'.next with
      | none =>
          have final : n = .finalSynthesizer := by
            rw [next] at follows
            cases n <;> simp_all [Node.successors]
          have stops : r.executed = [] := by
            cases leg with
            | finished _ => rfl
            | stopped _ _ => rfl
            | interrupted pending => simp [next] at pending
            | committed pending => simp [next] at pending
          exact ⟨[], x, by simp [stops], node.trans final⟩
      | some m =>
          obtain ⟨front, last, executed, final⟩ := ih (behind.commit pending action) ended
            (by simp [next])
          exact ⟨x :: front, last, by simp [executed], final⟩

theorem StoresLatest.answers_iff {xs : List Exec} {values : DecisionMakerState} {a : String}
    (stores : StoresLatest xs values) :
    Answers xs a (values.finalAnswer.getD "") ↔ SynthesizedFrom xs a := by
  constructor
  · intro answers
    obtain ⟨front, x, back, split, node, last, -, parsed⟩ := answers
    exact ⟨front, x, back, split, node, last, parsed⟩
  · intro synthesized
    obtain ⟨front, x, back, rfl, node, last, parsed⟩ := synthesized
    obtain ⟨f, wrote, stored⟩ := stores x (latest_split node last)
    exact ⟨front, x, back, rfl, node, last, by rw [wrote, stored, Option.getD_some], parsed⟩

section
variable {xs : List Exec} {cp : Checkpoint} {r : LegResult} {a : String}

theorem Leg.synthesized_before (leg : Leg cp r)
    (before : ∃ n, cp.next = some n ∧ n.afterGate = false) :
    SynthesizedFrom (xs ++ r.executed) a ↔ SynthesizedFrom xs a := by
  apply synthesizedFrom_append
  intro y member final
  have early := (leg.before_gate before).1 y member
  rw [final] at early
  cases early

theorem Leg.synthesized_behind (leg : Leg cp r) (ended : r.status = .ended) {n : Node}
    (pending : cp.next = some n) (behind : n.afterGate = true) (beyond : n ≠ .weightParser) :
    SynthesizedFrom (xs ++ r.executed) a ↔ ParsedLast xs a := by
  obtain ⟨front, x, executed, final⟩ := leg.last
    (by intro m next; rw [pending] at next; cases next; exact behind) ended (by simp [pending])
  have none : ∀ y ∈ front, y.node ≠ .weightParser := by
    intro y member parser
    obtain ⟨before, after, rfl⟩ := List.append_of_mem member
    have split : r.executed = before ++ y :: (after ++ [x]) := by simp [executed]
    obtain ⟨-, next, -⟩ := leg.parser_first split parser
    exact beyond (Option.some.inj (pending.symm.trans next))
  rw [executed, ← List.append_assoc, synthesizedFrom_concat_self final, parsedLast_append none]

theorem Leg.synthesized_parser (leg : Leg cp r) (ended : r.status = .ended)
    (pending : cp.next = some .weightParser) (given : cp.values.userAnswer = some a) :
    SynthesizedFrom (xs ++ r.executed) a := by
  obtain ⟨front, x, executed, final⟩ := leg.last
    (by intro m next; rw [pending] at next; cases next; rfl) ended (by simp [pending])
  obtain ⟨p, rest, executed', parser, read⟩ := leg.first pending ended
  rw [executed, ← List.append_assoc, synthesizedFrom_concat_self final]
  cases front with
  | nil =>
      obtain ⟨rfl, -⟩ : x = p ∧ rest = [] := by simpa [executed] using executed'
      rw [final] at parser
      cases parser
  | cons q front =>
      obtain rfl : q = p := by simpa [executed] using congrArg List.head? executed'
      have none : ∀ y ∈ front, y.node ≠ .weightParser := by
        intro y member again
        obtain ⟨before, after, rfl⟩ := List.append_of_mem member
        have split : r.executed = (q :: before) ++ y :: (after ++ [x]) := by simp [executed]
        cases (leg.parser_first split again).1
      exact ⟨q, by rw [latest_split parser none], by rw [read, given]⟩

end

/-- After whatever history of calls, the reply of a resume with the answer `a` answers `a` exactly
if the thread was ready for it. -/
theorem done_answers_iff (history : List Attempt) (a f : String) (worlds : List World)
    (done : ((Thread.after history).record ⟨.resume a, worlds, true⟩).sentinel = some (.done f)) :
    Answers ((Thread.after history).perform ⟨.resume a, worlds, true⟩).executions a f ↔
      (Thread.after history).ReadyFor a := by
  obtain ⟨ended, -, reply⟩ := Thread.record_sentinel.mp done
  have stores := Thread.storesLatest (history ++ [⟨.resume a, worlds, true⟩])
  rw [Thread.after_concat, Thread.perform_checkpoint, Option.getD_some] at stores
  cases reply
  rw [stores.answers_iff, Thread.perform_executions]
  have leg := astream_leg worlds ((Call.resume a).entry (Thread.after history).checkpoint)
  have routed := ((Thread.after history).checkpoint.getD .empty).routed
  have before {n : Node} (early : n.afterGate = false)
      (next : ((Thread.after history).checkpoint.getD .empty).next = some n) :
      SynthesizedFrom ((Thread.after history).executions ++ _) a ↔
        SynthesizedFrom (Thread.after history).executions a :=
    leg.synthesized_before ⟨n, next, early⟩
  unfold Thread.ReadyFor
  cases writer : ((Thread.after history).checkpoint.getD .empty).writer with
  | none =>
      rw [writer] at routed
      exact before rfl (Except.ok.inj routed).symm
  | some n =>
      rw [writer] at routed
      cases n with
      | contextAnalyzer =>
          have next := outgoing_mem routed
          simp only [Node.successors, List.mem_cons, List.not_mem_nil, or_false] at next
          rcases next with next | next
          · exact before rfl next
          · exact before rfl next
      | toolNode => exact before rfl (Except.ok.inj routed).symm
      | weightQuestioner =>
          have synthesized : SynthesizedFrom ((Thread.after history).executions ++ _) a :=
            leg.synthesized_parser ended (Except.ok.inj routed).symm rfl
          exact iff_of_true synthesized True.intro
      | weightParser =>
          exact leg.synthesized_behind ended (Except.ok.inj routed).symm rfl (by simp)
      | draftGenerator =>
          exact leg.synthesized_behind ended (Except.ok.inj routed).symm rfl (by simp)
      | coveCritique =>
          have next := outgoing_mem routed
          simp only [Node.successors, List.mem_cons, List.not_mem_nil, or_false] at next
          rcases next with next | next
          · exact leg.synthesized_behind ended next rfl (by simp)
          · exact leg.synthesized_behind ended next rfl (by simp)
      | finalSynthesizer =>
          have finished : ((Call.resume a).entry (Thread.after history).checkpoint).next = none :=
            (Except.ok.inj routed).symm
          simp [Thread.record, astream_finished finished]

def settledHistory : List Attempt :=
  [⟨.start "Buy or rent?", List.replicate 2 (.fixed "Rent." []), true⟩,
   ⟨.resume "Yes", List.replicate 4 (.fixed "Rent." []), true⟩]

theorem done_answers_iff_settled :
    Answers ((Thread.after settledHistory).perform ⟨.resume "Yes", [], true⟩).executions "Yes" "Rent." ↔
      (Thread.after settledHistory).ReadyFor "Yes" :=
  done_answers_iff settledHistory "Yes" "Rent." [] rfl

theorem finished_thread_repeats_reply :
    ((Thread.after settledHistory).record ⟨.resume "No", [], true⟩).sentinel = some (.done "Rent.") ∧
    ¬ Answers ((Thread.after settledHistory).perform ⟨.resume "No", [], true⟩).executions
      "No" "Rent." := by
  apply And.intro rfl
  intro answers
  obtain ⟨front, x, back, split, node, last, -, parsed⟩ := answers
  have synthesized : SynthesizedFrom
      ((Thread.after settledHistory).perform ⟨.resume "No", [], true⟩).executions "No" :=
    ⟨front, x, back, split, node, last, parsed⟩
  obtain ⟨xs, final, executions, written, p, parser, answer⟩ : ∃ xs final,
      ((Thread.after settledHistory).perform ⟨.resume "No", [], true⟩).executions = xs ++ [final] ∧
      final.node = .finalSynthesizer ∧
      ∃ p, latest .weightParser xs = some p ∧ p.read.userAnswer = some "Yes" :=
    ⟨(Thread.after settledHistory).executions.take 5, ⟨.finalSynthesizer, _, _⟩, rfl, rfl,
      ⟨.weightParser, _, _⟩, rfl, rfl⟩
  rw [executions, synthesizedFrom_concat_self written] at synthesized
  obtain ⟨q, also, other⟩ := synthesized
  obtain rfl : p = q := Option.some.inj (parser.symm.trans also)
  rw [answer] at other
  simp at other

end DecisionMaker.Graph
