import DecisionMaker.Graph.Concurrent

namespace DecisionMaker.Graph

open Library

section
variable {ι : Type*}

structure OfSchedule (userAnswer : ι → String) (es : List (ResumeEvent ι)) (attempt : Attempt) : Prop where
  call : ∃ i, attempt.call = .resume (userAnswer i)
  worlds : ∀ w ∈ attempt.worlds, ∃ i, .execute i w ∈ es

def Serial (userAnswer : ι → String) (es : List (ResumeEvent ι)) (t t' : Thread) : Prop :=
  ∃ history : List Attempt, (∀ attempt ∈ history, OfSchedule userAnswer es attempt) ∧
    t' = history.foldl Thread.perform t

def SerialCheckpoint (userAnswer : ι → String) (es : List (ResumeEvent ι)) (t : Thread) (cp : Checkpoint) :
    Prop :=
  ∃ t', Serial userAnswer es t t' ∧ t'.checkpoint = some cp

def SerialLeg (userAnswer : ι → String) (es : List (ResumeEvent ι)) (t : Thread) (xs : List Exec) : Prop :=
  ∃ t' attempt, Serial userAnswer es t t' ∧ OfSchedule userAnswer es attempt ∧
    (t'.record attempt).executed = xs

section
variable {userAnswer : ι → String} {es more : List (ResumeEvent ι)} {t t' : Thread} {attempt : Attempt}

theorem OfSchedule.mono (of : OfSchedule userAnswer es attempt) (more : List (ResumeEvent ι)) :
    OfSchedule userAnswer (es ++ more) attempt := by
  refine ⟨of.call, fun w member => ?_⟩
  obtain ⟨i, executed⟩ := of.worlds w member
  exact ⟨i, List.mem_append_left _ executed⟩

theorem OfSchedule.resume (userAnswer : ι → String) (es : List (ResumeEvent ι)) (i : ι) :
    OfSchedule userAnswer es ⟨.resume (userAnswer i), [], true⟩ :=
  ⟨⟨i, rfl⟩, by simp⟩

theorem OfSchedule.execute (of : OfSchedule userAnswer es attempt) (i : ι) (w : World) :
    OfSchedule userAnswer (es ++ [.execute i w]) { attempt with worlds := attempt.worlds ++ [w] } := by
  refine ⟨of.call, fun w' member => ?_⟩
  rcases List.mem_append.mp member with earlier | latest
  · exact (of.mono _).worlds w' earlier
  · obtain rfl := List.mem_singleton.mp latest
    exact ⟨i, by simp⟩

theorem Serial.mono (serial : Serial userAnswer es t t') (more : List (ResumeEvent ι)) :
    Serial userAnswer (es ++ more) t t' := by
  obtain ⟨history, all, same⟩ := serial
  exact ⟨history, fun attempt member => (all attempt member).mono more, same⟩

theorem Serial.refl (userAnswer : ι → String) (es : List (ResumeEvent ι)) (t : Thread) :
    Serial userAnswer es t t :=
  ⟨[], by simp, rfl⟩

theorem Serial.perform (serial : Serial userAnswer es t t') (of : OfSchedule userAnswer es attempt) :
    Serial userAnswer es t (t'.perform attempt) := by
  obtain ⟨history, all, rfl⟩ := serial
  refine ⟨history ++ [attempt], ?_, by simp⟩
  intro other member
  rcases List.mem_append.mp member with earlier | latest
  · exact all other earlier
  · exact List.mem_singleton.mp latest ▸ of

theorem SerialCheckpoint.mono {cp : Checkpoint} (serial : SerialCheckpoint userAnswer es t cp)
    (more : List (ResumeEvent ι)) : SerialCheckpoint userAnswer (es ++ more) t cp := by
  obtain ⟨t', serial, stored⟩ := serial
  exact ⟨t', serial.mono more, stored⟩

theorem SerialLeg.mono {xs : List Exec} (serial : SerialLeg userAnswer es t xs)
    (more : List (ResumeEvent ι)) : SerialLeg userAnswer (es ++ more) t xs := by
  obtain ⟨t', attempt, serial, of, executed⟩ := serial
  exact ⟨t', attempt, serial.mono more, of.mono more, executed⟩

end

structure Underway (userAnswer : ι → String) (es : List (ResumeEvent ι)) (t : Thread) (cp : Checkpoint)
    (xs : List Exec) (t' : Thread) (attempt : Attempt) : Prop where
  before : Serial userAnswer es t t'
  of : OfSchedule userAnswer es attempt
  leg : astream attempt.worlds (attempt.call.entry t'.checkpoint) = ⟨xs, cp, .cut⟩

namespace Underway
variable {userAnswer : ι → String} {es : List (ResumeEvent ι)} {t t' : Thread} {attempt : Attempt}
  {cp cp' : Checkpoint} {xs : List Exec}

theorem mono (underway : Underway userAnswer es t cp xs t' attempt) (more : List (ResumeEvent ι)) :
    Underway userAnswer (es ++ more) t cp xs t' attempt :=
  ⟨underway.before.mono more, underway.of.mono more, underway.leg⟩

theorem serialLeg (underway : Underway userAnswer es t cp xs t' attempt) : SerialLeg userAnswer es t xs :=
  ⟨t', attempt, underway.before, underway.of, congrArg LegResult.executed underway.leg⟩

theorem load (serial : SerialCheckpoint userAnswer es t cp) {k : ι}
    (given : cp.values.userAnswer = some (userAnswer k)) (goes : cp.next ≠ none) :
    ∃ t', Underway userAnswer es t cp [] t' ⟨.resume (userAnswer k), [], true⟩ := by
  obtain ⟨t', serial, stored⟩ := serial
  obtain ⟨n, pending⟩ := Option.ne_none_iff_exists'.mp goes
  have entry : (Call.resume (userAnswer k)).entry t'.checkpoint = cp := by
    rw [stored]
    exact Checkpoint.answered_eq_self given
  refine ⟨t', serial, .resume userAnswer es k, ?_⟩
  rw [entry]
  exact astream_nil pending

theorem execute (underway : Underway userAnswer es t cp xs t' attempt) {w : World} {n : Node}
    {x : Exec} (pending : cp.next = some n) (action : cp.commit w n = .ok (x, cp')) :
    ∃ status, astream (attempt.worlds ++ [w]) (attempt.call.entry t'.checkpoint) =
      ⟨xs ++ [x], cp', status⟩ ∧ (n ∉ interruptAfter → cp'.next ≠ none → status = .cut) := by
  have cut : (astream attempt.worlds (attempt.call.entry t'.checkpoint)).status = .cut := by
    rw [underway.leg]
  rw [astream_append cut, underway.leg]
  by_cases gate : n ∈ interruptAfter
  · rw [astream_interrupted pending action gate]
    exact ⟨.ended, rfl, fun through => absurd gate through⟩
  · rw [astream_committed pending action gate]
    cases goes : cp'.next with
    | none =>
        rw [astream_finished goes]
        exact ⟨.ended, rfl, fun _ some => absurd rfl some⟩
    | some m =>
        rw [astream_nil goes]
        exact ⟨.cut, rfl, fun _ _ => rfl⟩

end Underway

theorem SerialLeg.nil (userAnswer : ι → String) (es : List (ResumeEvent ι)) (t : Thread) (i : ι) :
    SerialLeg userAnswer es t [] :=
  ⟨t, _, .refl userAnswer es t, .resume userAnswer es i, rfl⟩

def Given (userAnswer : ι → String) (cp : Checkpoint) : Prop :=
  ∃ i, cp.values.userAnswer = some (userAnswer i)

theorem Given.commit {userAnswer : ι → String} {cp cp' : Checkpoint} {w : World} {n : Node} {x : Exec}
    (given : Given userAnswer cp) (action : cp.commit w n = .ok (x, cp')) : Given userAnswer cp' := by
  obtain ⟨i, given⟩ := given
  obtain ⟨-, -, ran, -, values⟩ := Checkpoint.commit_ok.mp action
  refine ⟨i, ?_⟩
  rw [values, DecisionMakerState.merge, (Node.run_writes ran).userAnswer]
  exact given

def Kept (userAnswer : ι → String) (es : List (ResumeEvent ι)) (t : Thread) (stored : Checkpoint)
    (xs : List Exec) : ResumePhase → Prop
  | .waiting => xs = []
  | .updating saved => xs = [] ∧ SerialCheckpoint userAnswer es t saved
  | .updated => xs = [] ∧ Given userAnswer stored
  | .streaming cp =>
      Given userAnswer cp ∧ cp.next ≠ none ∧ ∃ t' attempt, Underway userAnswer es t cp xs t' attempt
  | .streamed | .failed => SerialLeg userAnswer es t xs
  | .replied f =>
      SerialLeg userAnswer es t xs ∧
        ∃ cp, SerialCheckpoint userAnswer es t cp ∧ cp.values.finalAnswer.getD "" = f

section
variable {userAnswer : ι → String} {es : List (ResumeEvent ι)} {t : Thread} {stored stored' : Checkpoint}
  {xs : List Exec} {phase : ResumePhase}

theorem Kept.frame (kept : Kept userAnswer es t stored xs phase) (more : List (ResumeEvent ι))
    (given : Given userAnswer stored → Given userAnswer stored') :
    Kept userAnswer (es ++ more) t stored' xs phase := by
  cases phase with
  | waiting => exact kept
  | updating saved => exact ⟨kept.1, kept.2.mono more⟩
  | updated => exact ⟨kept.1, given kept.2⟩
  | streaming cp =>
      obtain ⟨answered, goes, t', attempt, underway⟩ := kept
      exact ⟨answered, goes, t', attempt, underway.mono more⟩
  | streamed => exact SerialLeg.mono kept more
  | failed => exact SerialLeg.mono kept more
  | replied f =>
      obtain ⟨leg, cp, serial, read⟩ := kept
      exact ⟨leg.mono more, cp, serial.mono more, read⟩

theorem Kept.serialLeg (kept : Kept userAnswer es t stored xs phase) (i : ι) :
    SerialLeg userAnswer es t xs := by
  cases phase with
  | waiting => exact (show xs = [] from kept) ▸ .nil userAnswer es t i
  | updating saved => exact kept.1 ▸ .nil userAnswer es t i
  | updated => exact kept.1 ▸ .nil userAnswer es t i
  | streaming cp =>
      obtain ⟨-, -, t', attempt, underway⟩ := kept
      exact underway.serialLeg
  | streamed => exact kept
  | failed => exact kept
  | replied f => exact kept.1

end

namespace Session
variable [DecidableEq ι] {userAnswer : ι → String} {es : List (ResumeEvent ι)} {t : Thread}
  {s s' : Session ι} {e : ResumeEvent ι}

structure Serialized (userAnswer : ι → String) (es : List (ResumeEvent ι)) (t : Thread)
    (s : Session ι) : Prop where
  stored : SerialCheckpoint userAnswer es t s.checkpoint
  kept : ∀ i, Kept userAnswer es t s.checkpoint (s.executedBy i) (s.phase i)

theorem Serialized.at (serialized : s.Serialized userAnswer es t) {i : ι} {phase : ResumePhase}
    (at' : s.phase i = phase) : Kept userAnswer es t s.checkpoint (s.executedBy i) phase :=
  at' ▸ serialized.kept i

theorem Serialized.executed (serialized : s.Serialized userAnswer es t) {i : ι} {w : World}
    {cp cp' : Checkpoint} {n : Node} {x : Exec} (at' : s.phase i = .streaming cp)
    (pending : cp.next = some n) (action : cp.commit w n = .ok (x, cp')) :
    Given userAnswer cp' ∧ SerialCheckpoint userAnswer (es ++ [.execute i w]) t cp' ∧
      SerialLeg userAnswer (es ++ [.execute i w]) t (s.executedBy i ++ [x]) ∧
      (n ∉ interruptAfter → cp'.next ≠ none → ∃ t' attempt,
        Underway userAnswer (es ++ [.execute i w]) t cp' (s.executedBy i ++ [x]) t' attempt) := by
  obtain ⟨given, -, t', attempt, underway⟩ := serialized.at at'
  obtain ⟨status, leg, running⟩ := underway.execute pending action
  have before := underway.before.mono [.execute i w]
  have of := underway.of.execute i w
  refine ⟨given.commit action, ⟨_, before.perform of, ?_⟩, ⟨t', _, before, of, ?_⟩, ?_⟩
  · rw [Thread.perform_checkpoint, leg]
  · rw [Thread.record, leg]
  · intro through goes
    exact ⟨t', _, before, of, running through goes ▸ leg⟩

theorem Serialized.given_step (serialized : s.Serialized userAnswer es t)
    (steps : Steps userAnswer s e s') : Given userAnswer s.checkpoint → Given userAnswer s'.checkpoint := by
  intro given
  cases steps with
  | read | loadFinished | load | raise | snapshot | cancel => exact given
  | @write i saved at' => exact ⟨i, rfl⟩
  | last at' pending action stops => exact (serialized.executed at' pending action).1
  | commit at' pending action goes => exact (serialized.executed at' pending action).1

theorem Serialized.stored_step (serialized : s.Serialized userAnswer es t)
    (steps : Steps userAnswer s e s') : SerialCheckpoint userAnswer (es ++ [e]) t s'.checkpoint := by
  cases steps with
  | read | loadFinished | load | raise | snapshot | cancel => exact serialized.stored.mono _
  | @write i saved at' =>
      -- the write is a call that is cut before its first node
      obtain ⟨-, t', before, stored⟩ := serialized.at at'
      refine ⟨_, (before.mono _).perform (.resume userAnswer _ i), ?_⟩
      rw [Thread.perform_checkpoint, stored]
      rfl
  | last at' pending action stops => exact (serialized.executed at' pending action).2.1
  | commit at' pending action goes => exact (serialized.executed at' pending action).2.1

theorem step_through {i : ι} {w : World} {cp cp' : Checkpoint} {n : Node} {x : Exec}
    (taken : s.step userAnswer (.execute i w) = some (s.commit i x cp' (.streaming cp')))
    (at' : s.phase i = .streaming cp) (pending : cp.next = some n)
    (action : cp.commit w n = .ok (x, cp')) : n ∉ interruptAfter := by
  intro gate
  simp only [Session.step, at', pending, action, gate, true_or, if_true, Option.some.injEq] at taken
  have phase := congrArg (fun s : Session ι => s.phase i) taken
  simp at phase

theorem Serialized.step (serialized : s.Serialized userAnswer es t)
    (taken : s.step userAnswer e = some s') : s'.Serialized userAnswer (es ++ [e]) t := by
  have steps := step_cases taken
  refine ⟨serialized.stored_step steps, fun i => ?_⟩
  by_cases other : e.request ≠ i
  · obtain ⟨phase, executed, -⟩ := steps.frame other
    rw [phase, executed]
    exact (serialized.kept i).frame [e] (serialized.given_step steps)
  obtain rfl := not_not.mp other
  have leg := ((serialized.kept e.request).serialLeg e.request).mono [e]
  cases steps with
  | @read j at' =>
      have none : s.executedBy j = [] := serialized.at at'
      simp only [ResumeEvent.request, move_phase_self]
      exact ⟨none, serialized.stored.mono _⟩
  | @write j saved at' =>
      have none : s.executedBy j = [] := (serialized.at at').1
      simp only [ResumeEvent.request, move_phase_self]
      exact ⟨none, j, rfl⟩
  | @loadFinished j at' next =>
      simp only [ResumeEvent.request, move_phase_self]
      exact leg
  | @load j at' next =>
      obtain ⟨none, k, given⟩ := serialized.at at'
      obtain ⟨t', underway⟩ := Underway.load (serialized.stored.mono [.load j]) given next
      have none : (s.move j (.streaming s.checkpoint)).executedBy j = [] := none
      simp only [ResumeEvent.request, move_phase_self, none]
      exact ⟨⟨k, given⟩, next, t', _, underway⟩
  | @last j w cp cp' n x at' pending action stops =>
      simp only [ResumeEvent.request, commit_phase_self, commit_executedBy_self]
      exact (serialized.executed at' pending action).2.2.1
  | @commit j w cp cp' n x at' pending action goes =>
      have through := step_through taken at' pending action
      obtain ⟨given, -, -, running⟩ := serialized.executed at' pending action
      simp only [ResumeEvent.request, commit_phase_self, commit_executedBy_self]
      exact ⟨given, goes, running through goes⟩
  | @raise j w cp at' =>
      simp only [ResumeEvent.request, move_phase_self]
      exact leg
  | @snapshot j at' =>
      simp only [ResumeEvent.request, move_phase_self]
      exact ⟨leg, _, serialized.stored.mono _, rfl⟩
  | @cancel j at' =>
      simp only [ResumeEvent.request, move_phase_self]
      exact leg

theorem serialized_of_run {cp : Checkpoint} (stored : t.checkpoint = some cp)
    (taken : run (Session.step userAnswer) { checkpoint := cp } es = some s) :
    s.Serialized userAnswer es t := by
  induction es using List.reverseRecOn generalizing s with
  | nil =>
      cases taken
      exact ⟨⟨t, .refl userAnswer [] t, stored⟩, fun i => rfl⟩
  | append_singleton es e ih =>
      obtain ⟨s₀, earlier, last⟩ := (run_concat _).mp taken
      exact (ih earlier).step last

end Session

/-- However resumes of one session interleave, the checkpoint that is stored is one that some of the
calls leave one at a time, each request has executed what the leg of one of these calls executes, and
it replies with the answer that is stored behind some of them. -/
theorem resumes_serial [DecidableEq ι] (userAnswer : ι → String) (t : Thread) (cp : Checkpoint)
    (stored : t.checkpoint = some cp) (es : List (ResumeEvent ι)) (s : Session ι)
    (taken : run (Session.step userAnswer) { checkpoint := cp } es = some s) :
    SerialCheckpoint userAnswer es t s.checkpoint ∧
      (∀ i, SerialLeg userAnswer es t (s.executedBy i)) ∧
      ∀ i f, s.phase i = .replied f →
        ∃ cp', SerialCheckpoint userAnswer es t cp' ∧ cp'.values.finalAnswer.getD "" = f := by
  have serialized := Session.serialized_of_run stored taken
  refine ⟨serialized.stored, fun i => (serialized.kept i).serialLeg i, fun i f replied => ?_⟩
  exact (serialized.at replied).2

theorem resumes_serial_overtaken :
    ∃ s, run (Session.step answerOf) { checkpoint := askedCheckpoint } overtakenResume = some s ∧
      SerialCheckpoint answerOf overtakenResume { checkpoint := some askedCheckpoint } s.checkpoint ∧
      (∀ i, SerialLeg answerOf overtakenResume { checkpoint := some askedCheckpoint } (s.executedBy i)) ∧
      ∀ i f, s.phase i = .replied f → ∃ cp',
        SerialCheckpoint answerOf overtakenResume { checkpoint := some askedCheckpoint } cp' ∧
          cp'.values.finalAnswer.getD "" = f :=
  ⟨_, rfl, resumes_serial answerOf { checkpoint := some askedCheckpoint } askedCheckpoint rfl
    overtakenResume _ rfl⟩

end

end DecisionMaker.Graph
