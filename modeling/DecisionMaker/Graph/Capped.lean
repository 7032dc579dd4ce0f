import DecisionMaker.Graph.Counter

namespace DecisionMaker.Graph

structure Advances (before later : Option Int) : Prop where
  grows : before.getD 0 ≤ later.getD 0
  capped : before.getD 0 ≤ 2 → later.getD 0 ≤ 2
  kept : before.isSome = true → later.isSome = true

theorem Advances.refl (counter : Option Int) : Advances counter counter :=
  ⟨Int.le_refl _, id, id⟩

theorem Advances.trans {a b c : Option Int} (first : Advances a b) (second : Advances b c) :
    Advances a c :=
  ⟨Int.le_trans first.grows second.grows, second.capped ∘ first.capped, second.kept ∘ first.kept⟩

def Exec.counter (x : Exec) : Option Int := (x.read.merge x.update).rewriteCount

/-- Every value that the counter takes in these legs: the one a leg is entered with, then one for
each node execution. -/
def Thread.counters (t : Thread) : List Attempt → List (Option Int)
  | [] => []
  | attempt :: attempts =>
      (attempt.call.entry t.checkpoint).values.rewriteCount ::
        (t.record attempt).executed.map Exec.counter ++ (t.perform attempt).counters attempts

def Attempt.resumes (attempt : Attempt) : Prop := ∃ userAnswer, attempt.call = .resume userAnswer

def Attempt.starts (attempt : Attempt) : Prop := ∃ userInput, attempt.call = .start userInput

structure CounterInvariant (history : List Attempt) : Prop where
  bounded : ∀ counter ∈ Thread.counters {} history, 0 ≤ counter.getD 0 ∧ counter.getD 0 ≤ 2
  written : ∀ before start legs after, history = before ++ start :: legs ++ after → start.starts →
    (∀ leg ∈ legs, leg.resumes) →
    ∀ counter ∈ (Thread.after before).counters (start :: legs), counter.isSome = true
  monotone : ∀ before first legs after, history = before ++ first :: legs ++ after →
    (∀ leg ∈ legs, leg.resumes) →
    ((Thread.after before).counters (first :: legs)).Pairwise fun earlier later =>
      earlier.getD 0 ≤ later.getD 0
  finalizes : ∀ x ∈ (Thread.after history).executions, x.node = .coveCritique →
    x.counter = some 2 → x.route = .finalize
  pending : ∀ cp, (Thread.after history).checkpoint = some cp → cp.writer = some .coveCritique →
    cp.values.rewriteCount = some 2 → cp.next = some .finalSynthesizer

theorem Checkpoint.commit_counter {cp cp' : Checkpoint} {w : World} {n : Node} {x : Exec}
    (action : cp.commit w n = .ok (x, cp')) : x.counter = cp'.values.rewriteCount := by
  obtain ⟨-, read, -, -, values⟩ := commit_ok.mp action
  rw [Exec.counter, read, values]

theorem Checkpoint.commit_advances {cp cp' : Checkpoint} {w : World} {n : Node} {x : Exec}
    (action : cp.commit w n = .ok (x, cp')) :
    Advances cp.values.rewriteCount cp'.values.rewriteCount where
  grows := by
    show cp.rewriteCount ≤ cp'.rewriteCount
    by_cases critique : n = .coveCritique
    · subst critique
      obtain ⟨parsed, -, count⟩ := commit_rewriteCount_critique action
      rw [count]
      split <;> omega
    · exact Int.le_of_eq (commit_rewriteCount_other action critique).symm
  capped := commit_capped action
  kept := by
    intro present
    obtain ⟨-, -, -, -, values⟩ := commit_ok.mp action
    rw [values, DecisionMakerState.merge]
    cases x.update.rewriteCount with
    | none => exact present
    | some n => rfl

theorem Leg.advances {cp : Checkpoint} {r : LegResult} (leg : Leg cp r) :
    (cp.values.rewriteCount :: r.executed.map Exec.counter).Pairwise Advances ∧
      ∀ counter ∈ cp.values.rewriteCount :: r.executed.map Exec.counter,
        Advances counter r.checkpoint.values.rewriteCount := by
  induction leg with
  | finished => simp [Advances.refl]
  | stopped => simp [Advances.refl]
  | interrupted pending action gate =>
      have step := Checkpoint.commit_advances action
      simp [Checkpoint.commit_counter action, step, Advances.refl]
  | @committed cp cp' w n x r pending action through rest ih =>
      have step := Checkpoint.commit_advances action
      obtain ⟨ordered, last⟩ := ih
      have here : (r.cons x).executed.map Exec.counter =
          cp'.values.rewriteCount :: r.executed.map Exec.counter := by
        simp [Checkpoint.commit_counter action]
      have first : ∀ counter ∈ cp'.values.rewriteCount :: r.executed.map Exec.counter,
          Advances cp.values.rewriteCount counter := by
        intro counter member
        rcases List.mem_cons.mp member with rfl | later
        · exact step
        · exact step.trans (List.rel_of_pairwise_cons ordered later)
      rw [here]
      refine ⟨List.pairwise_cons.mpr ⟨first, ordered⟩, ?_⟩
      intro counter member
      rcases List.mem_cons.mp member with rfl | later
      · exact step.trans (last _ List.mem_cons_self)
      · exact last counter later

def Thread.counter (t : Thread) : Option Int := (t.checkpoint.getD .empty).values.rewriteCount

theorem Thread.perform_counter (t : Thread) (attempt : Attempt) :
    (t.perform attempt).counter =
      (astream attempt.worlds (attempt.call.entry t.checkpoint)).checkpoint.values.rewriteCount := by
  rw [counter, perform_checkpoint, Option.getD_some]

theorem Attempt.resumes.entry {attempt : Attempt} (resumes : attempt.resumes)
    (stored : Option Checkpoint) : (attempt.call.entry stored).values.rewriteCount =
      (stored.getD .empty).values.rewriteCount := by
  obtain ⟨userAnswer, call⟩ := resumes
  rw [call]
  rfl

theorem Attempt.starts.entry {attempt : Attempt} (starts : attempt.starts)
    (stored : Option Checkpoint) : (attempt.call.entry stored).values.rewriteCount = some 0 := by
  obtain ⟨userInput, call⟩ := starts
  rw [call]
  rfl

theorem Thread.counters_advance (t : Thread) (first : Attempt) (legs : List Attempt)
    (resumes : ∀ leg ∈ legs, leg.resumes) :
    (t.counters (first :: legs)).Pairwise Advances ∧
      ∀ counter ∈ t.counters (first :: legs),
        Advances (first.call.entry t.checkpoint).values.rewriteCount counter := by
  induction legs generalizing t first with
  | nil =>
      obtain ⟨ordered, -⟩ := (astream_leg first.worlds (first.call.entry t.checkpoint)).advances
      rw [counters, counters, List.append_nil]
      refine ⟨ordered, fun counter member => ?_⟩
      rcases List.mem_cons.mp member with rfl | later
      · exact .refl _
      · exact List.rel_of_pairwise_cons ordered later
  | cons second legs ih =>
      obtain ⟨ordered, last⟩ :=
        (astream_leg first.worlds (first.call.entry t.checkpoint)).advances
      obtain ⟨onwards, entered⟩ :=
        ih (t.perform first) second fun leg member => resumes leg (List.mem_cons_of_mem _ member)
      have handed : (second.call.entry (t.perform first).checkpoint).values.rewriteCount =
          (astream first.worlds (first.call.entry t.checkpoint)).checkpoint.values.rewriteCount :=
        ((resumes second List.mem_cons_self).entry _).trans (t.perform_counter first)
      rw [handed] at entered
      have across : ∀ earlier ∈ (first.call.entry t.checkpoint).values.rewriteCount ::
            (t.record first).executed.map Exec.counter,
          ∀ later ∈ (t.perform first).counters (second :: legs), Advances earlier later :=
        fun earlier member later among => (last earlier member).trans (entered later among)
      rw [counters]
      refine ⟨List.pairwise_append.mpr ⟨ordered, onwards, across⟩, fun counter member => ?_⟩
      rcases List.mem_append.mp member with here | later
      · rcases List.mem_cons.mp here with rfl | after
        · exact .refl _
        · exact List.rel_of_pairwise_cons ordered after
      · exact across _ List.mem_cons_self counter later

def InRange (counter : Option Int) : Prop := 0 ≤ counter.getD 0 ∧ counter.getD 0 ≤ 2

theorem inRange_zero : InRange (some 0) := ⟨Int.le_refl 0, by decide⟩

theorem InRange.advance {before later : Option Int} (within : InRange before)
    (advances : Advances before later) : InRange later :=
  ⟨Int.le_trans within.1 advances.grows, advances.capped within.2⟩

theorem Call.entry_inRange {t : Thread} (within : InRange t.counter) (call : Call) :
    InRange (call.entry t.checkpoint).values.rewriteCount := by
  cases call with
  | start userInput =>
      show InRange (some 0)
      exact inRange_zero
  | resume userAnswer => exact within

theorem Thread.counters_inRange {t : Thread} (within : InRange t.counter) (attempts : List Attempt) :
    ∀ counter ∈ t.counters attempts, InRange counter := by
  induction attempts generalizing t with
  | nil => simp [counters]
  | cons attempt attempts ih =>
      have entered := Call.entry_inRange within attempt.call
      obtain ⟨ordered, last⟩ :=
        (astream_leg attempt.worlds (attempt.call.entry t.checkpoint)).advances
      have left : InRange (t.perform attempt).counter := by
        rw [perform_counter]
        exact entered.advance (last _ List.mem_cons_self)
      intro counter member
      rcases List.mem_append.mp member with here | later
      · rcases List.mem_cons.mp here with rfl | after
        · exact entered
        · exact entered.advance (List.rel_of_pairwise_cons ordered after)
      · exact ih left counter later

/-- Whatever the critic replies and wherever the legs fail, the counter of a thread stays between
zero and two, in a session it only grows, and behind a critique that leaves it at two there is
nothing but the final synthesizer. -/
theorem rewriteCounter_invariant (history : List Attempt) : CounterInvariant history where
  bounded :=
    have fresh : InRange (Thread.counter {}) := inRange_zero
    Thread.counters_inRange fresh history
  written before start legs after _ starts resumes counter member := by
    have advances := ((Thread.after before).counters_advance start legs resumes).2 counter member
    rw [starts.entry] at advances
    exact advances.kept rfl
  monotone before first legs after _ resumes :=
    ((Thread.after before).counters_advance first legs resumes).1.imp Advances.grows
  finalizes x _ _ capped := by
    apply routeFromCritique_eq_finalize.mpr
    intro _
    rw [← Exec.counter, capped]
    decide
  pending cp _ writer capped := by
    have route : routeFromCritique cp.values = .finalize := by
      apply routeFromCritique_eq_finalize.mpr
      intro _
      rw [capped]
      decide
    have routed := cp.routed
    rw [writer, outgoing, route] at routed
    exact (Except.ok.inj routed).symm

end DecisionMaker.Graph
