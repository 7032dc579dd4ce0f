import DecisionMaker.Graph.Gate

namespace DecisionMaker.Graph

/-- `w'` may fail where `w` answers, but never answers otherwise. The parser is code of the
repository and the same in both; the search is not used behind the gate. -/
structure World.Interrupts (w w' : World) : Prop where
  invokes : ∀ prompt, w'.invokeLlmAsync prompt = w.invokeLlmAsync prompt ∨
    ∃ e, w'.invokeLlmAsync prompt = .error e
  parses : w'.safeJsonParse = w.safeJsonParse

theorem World.Interrupts.refl (w : World) : w.Interrupts w := ⟨fun _ => .inl rfl, rfl⟩

structure Attempt.Repeats (attempt : Attempt) (w : World) (a : String) : Prop where
  call : attempt.call = .resume a
  worlds : ∀ w' ∈ attempt.worlds, w.Interrupts w'

def Attempt.once (w : World) (a : String) (n : Nat) : Attempt :=
  ⟨.resume a, List.replicate n w, true⟩

theorem Attempt.Repeats.once (w : World) (a : String) (n : Nat) : (Attempt.once w a n).Repeats w a := by
  refine ⟨rfl, fun w' member => ?_⟩
  rw [(List.mem_replicate.mp member).2]
  exact .refl w

section
variable {w w' : World} {cp : Checkpoint} {a : String}

theorem Node.run_interrupted {n : Node} (behind : n.afterGate = true) (interrupts : w.Interrupts w')
    (s : DecisionMakerState) : n.run w' s = n.run w s ∨ ∃ e, n.run w' s = .error e := by
  have llm {β : Type} (prompt : Prompt) (f : String → Except NodeError β) :
      (w'.invokeLlmAsync prompt >>= f) = (w.invokeLlmAsync prompt >>= f) ∨
        ∃ e, (w'.invokeLlmAsync prompt >>= f) = .error e := by
    rcases interrupts.invokes prompt with same | ⟨e, failed⟩
    · exact .inl (by rw [same])
    · exact .inr ⟨e, by rw [failed]; rfl⟩
  cases n with
  | contextAnalyzer | toolNode | weightQuestioner => cases behind
  | weightParser =>
      simp only [Node.run, Graph.weightParser, interrupts.parses]
      exact llm _ _
  | draftGenerator =>
      simp only [Node.run, Graph.draftGenerator]
      exact llm _ _
  | coveCritique =>
      simp only [Node.run, Graph.coveCritique, interrupts.parses]
      exact llm _ _
  | finalSynthesizer =>
      simp only [Node.run, Graph.finalSynthesizer]
      exact llm _ _

theorem Checkpoint.commit_interrupted {n : Node} (behind : n.afterGate = true)
    (interrupts : w.Interrupts w') :
    cp.commit w' n = cp.commit w n ∨ ∃ e, cp.commit w' n = .error e := by
  unfold Checkpoint.commit
  rcases Node.run_interrupted behind interrupts cp.values with same | ⟨e, failed⟩
  · exact .inl (by rw [same])
  · exact .inr ⟨e, by rw [failed]; rfl⟩

structure SameCommits (cut whole : LegResult) : Prop where
  executed : cut.executed = whole.executed
  checkpoint : cut.checkpoint = whole.checkpoint
  status : whole.status = if cut.status = .ended then .ended else .cut

theorem astream_interrupts {worlds : List World} (answering : cp.Answering a)
    (interrupts : ∀ w' ∈ worlds, w.Interrupts w') :
    ∃ k, SameCommits (astream worlds cp) (astream (List.replicate k w) cp) := by
  induction worlds generalizing cp with
  | nil =>
      refine ⟨0, rfl, rfl, ?_⟩
      cases pending : cp.next with
      | none => simp [astream_finished pending]
      | some n => simp [astream_nil pending]
  | cons w' worlds ih =>
      cases pending : cp.next with
      | none =>
          refine ⟨0, ?_⟩
          rw [astream_finished pending, astream_finished pending]
          exact ⟨rfl, rfl, rfl⟩
      | some n =>
          have behind := answering.behind n pending
          cases action : cp.commit w' n with
          | error e =>
              refine ⟨0, ?_⟩
              rw [astream_raised pending action, List.replicate_zero, astream_nil pending]
              exact ⟨rfl, rfl, rfl⟩
          | ok result =>
              obtain ⟨x, cp'⟩ := result
              have agrees : cp.commit w' n = cp.commit w n ∨ ∃ e, cp.commit w' n = .error e :=
                Checkpoint.commit_interrupted behind (interrupts w' (by simp))
              have whole : cp.commit w n = .ok (x, cp') := by
                rcases agrees with same | ⟨e, failed⟩
                · rw [← same, action]
                · rw [failed] at action
                  cases action
              obtain ⟨k, executed, checkpoint, status⟩ :=
                ih (answering.commit pending action) fun w'' member => interrupts w'' (by simp [member])
              refine ⟨k + 1, ?_⟩
              rw [astream_committed pending action (Node.afterGate_through behind), List.replicate_succ,
                astream_committed pending whole (Node.afterGate_through behind)]
              exact ⟨by simp [executed], checkpoint, status⟩

theorem astream_replicate_eq {n k : Nat} (ends : (astream (List.replicate n w) cp).status = .ended)
    (also : (astream (List.replicate k w) cp).status = .ended) :
    astream (List.replicate k w) cp = astream (List.replicate n w) cp := by
  rcases Nat.le_total n k with le | le
  · obtain ⟨d, rfl⟩ := Nat.exists_eq_add_of_le le
    rw [List.replicate_add, astream_stable (by simp [ends])]
  · obtain ⟨d, rfl⟩ := Nat.exists_eq_add_of_le le
    rw [List.replicate_add, astream_stable (by simp [also])]

end

section
variable {w : World} {a : String} {start : Checkpoint} {before t : Thread}

structure Along (w : World) (a : String) (start : Checkpoint) (before : Thread) (k : Nat)
    (t : Thread) : Prop where
  entry : (Call.resume a).entry t.checkpoint = (astream (List.replicate k w) start).checkpoint
  executions : t.executions = before.executions ++ (astream (List.replicate k w) start).executed
  settled : (astream (List.replicate k w) start).status ≠ .cut →
    (astream (List.replicate k w) start).status = .ended

theorem Along.perform {k : Nat} (along : Along w a start before k t) (answering : start.Answering a)
    {attempt : Attempt} (repeats : attempt.Repeats w a) :
    ∃ k', Along w a start before k' (t.perform attempt) ∧
      (t.perform attempt).checkpoint = some (astream (List.replicate k' w) start).checkpoint ∧
      ((t.record attempt).status = .ended ↔ (astream (List.replicate k' w) start).status = .ended) := by
  obtain ⟨call, worlds, delivered⟩ := attempt
  obtain ⟨rfl, interrupts⟩ := repeats
  have standing := answering.leg (astream_leg (List.replicate k w) start)
  obtain ⟨d, executed, checkpoint, status⟩ := astream_interrupts standing.1 interrupts
  by_cases cut : (astream (List.replicate k w) start).status = .cut
  · have joined := astream_append cut (List.replicate d w)
    rw [← List.replicate_add] at joined
    refine ⟨k + d, ⟨?_, ?_, ?_⟩, ?_, ?_⟩
    all_goals simp only [Thread.perform_executions, Thread.perform_checkpoint, Thread.record,
      along.entry, along.executions, joined, LegResult.then, executed, checkpoint, status]
    · have later := (standing.1.leg (astream_leg (List.replicate d w) _)).1
      exact later.answered
    · rw [List.append_assoc]
    · split <;> simp
    · split <;> simp_all
  · have ended := along.settled cut
    have finished := astream_finished (standing.2 ended)
    refine ⟨k, ⟨?_, ?_, along.settled⟩, ?_, ?_⟩
    all_goals simp only [Thread.perform_executions, Thread.perform_checkpoint, Thread.record,
      along.entry, along.executions, finished, ended]
    · exact standing.1.answered
    · rw [List.append_nil]

theorem Along.performAll {k : Nat} (along : Along w a start before k t)
    (answering : start.Answering a) {attempts : List Attempt}
    (repeats : ∀ attempt ∈ attempts, attempt.Repeats w a) :
    ∃ k', Along w a start before k' (attempts.foldl Thread.perform t) := by
  induction attempts generalizing t k with
  | nil => exact ⟨k, along⟩
  | cons attempt attempts ih =>
      obtain ⟨k', moved, -⟩ := along.perform answering (repeats attempt (by simp))
      exact ih moved fun later member => repeats later (by simp [member])

theorem Along.ends {k : Nat} (along : Along w a start before k t) (answering : start.Answering a)
    {n : Nat} (terminates : (astream (List.replicate n w) start).status = .ended) :
    (t.record (.once w a n)).status = .ended := by
  have standing := answering.leg (astream_leg (List.replicate k w) start)
  simp only [Thread.record, Attempt.once, along.entry]
  by_cases cut : (astream (List.replicate k w) start).status = .cut
  · have joined := astream_append cut (List.replicate n w)
    rw [← List.replicate_add, Nat.add_comm, List.replicate_add,
      astream_stable (by simp [terminates])] at joined
    rw [joined] at terminates
    exact terminates
  · rw [astream_finished (standing.2 (along.settled cut))]

end

/-- Repeating a resume with the same answer until it ends, whatever interrupts the attempts before,
leaves the same checkpoint, the same node executions and the same reply as one resume that is not
interrupted; and an attempt with the worlds of that one does end. -/
theorem retry_transparent (w : World) (a : String) (t : Thread) (cp : Checkpoint) (n : Nat)
    (stored : t.checkpoint = some cp) (interrupted : cp.writer = some .weightQuestioner)
    (terminates : (t.record (.once w a n)).status = .ended) (attempts : List Attempt)
    (repeats : ∀ attempt ∈ attempts, attempt.Repeats w a) :
    let retried := attempts.foldl Thread.perform t
    (retried.record (.once w a n)).status = .ended ∧
    ∀ last : Attempt, last.Repeats w a → (retried.record last).status = .ended →
      last.delivered = true →
      (retried.perform last).checkpoint = (t.perform (.once w a n)).checkpoint ∧
      (retried.perform last).executions = (t.perform (.once w a n)).executions ∧
      (retried.record last).sentinel = (t.record (.once w a n)).sentinel := by
  intro retried
  obtain ⟨pending, behind⟩ := Checkpoint.behind_of_asked interrupted
  have answering : (cp.answered a).Answering a := ⟨rfl, behind⟩
  have began : Along w a (cp.answered a) t 0 t := by
    have cut : astream [] (cp.answered a) = ⟨[], cp.answered a, .cut⟩ := astream_nil pending
    refine ⟨?_, ?_, ?_⟩ <;> simp [cut, Call.entry, stored]
  have once := Attempt.Repeats.once w a n
  have terminates' : (astream (List.replicate n w) (cp.answered a)).status = .ended := by
    simpa only [Thread.record, Attempt.once, Call.entry, stored, Option.getD_some] using terminates
  obtain ⟨k, along⟩ := began.performAll answering repeats
  refine ⟨along.ends answering terminates', fun last repeated ended delivered => ?_⟩
  obtain ⟨i, single, singleStored, singleEnds⟩ := began.perform answering once
  obtain ⟨j, final, finalStored, finalEnds⟩ := along.perform answering repeated
  have same := astream_replicate_eq (singleEnds.mp terminates) (finalEnds.mp ended)
  refine ⟨?_, ?_, ?_⟩
  · rw [finalStored, singleStored, same]
  · rw [final.executions, single.executions, same]
  · rw [Thread.perform_checkpoint, Option.some.injEq] at finalStored singleStored
    rw [Thread.record_sentinel.mpr ⟨ended, delivered, rfl⟩,
      Thread.record_sentinel.mpr ⟨terminates, rfl, rfl⟩, finalStored, singleStored, same,
      repeated.call, once.call]

def askedThread : Thread where
  checkpoint := some ⟨{ lastQuestion := some (.str "Do you want to stay flexible?") },
    some .weightQuestioner, some .weightParser, rfl⟩

theorem retry_transparent_failing_draft :
    let w := World.fixed "Rent." []
    let failing : World := { w with invokeLlmAsync := fun _ => .error .llmError }
    let retried := askedThread.perform ⟨.resume "Yes", [w, failing], true⟩
    let once := Attempt.once w "Yes" 4
    (retried.perform once).checkpoint = (askedThread.perform once).checkpoint ∧
    (retried.perform once).executions = (askedThread.perform once).executions ∧
    (retried.record once).sentinel = (askedThread.record once).sentinel := by
  intro w failing retried once
  have interrupts : ∀ w' ∈ [w, failing], w.Interrupts w' := by
    simp only [List.mem_cons, List.not_mem_nil, or_false]
    intro w' among
    rcases among with rfl | rfl
    · exact .refl w
    · exact ⟨fun _ => .inr ⟨.llmError, rfl⟩, rfl⟩
  exact (retry_transparent w "Yes" askedThread _ 4 rfl rfl rfl
    [⟨.resume "Yes", [w, failing], true⟩] (by simpa using ⟨rfl, interrupts⟩)).2
    once (.once w "Yes" 4) rfl rfl

end DecisionMaker.Graph
