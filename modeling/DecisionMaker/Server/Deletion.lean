import DecisionMaker.Server.Storage

namespace DecisionMaker.Server

open Library

section
variable {ι : Type*} [DecidableEq ι]

def statementsOf (id : ι) (journal : List (ι × Statement)) : List Statement :=
  (journal.filter fun entry => entry.1 = id).map Prod.snd

def deletions (threadId : String) : List Statement :=
  [.deleteCheckpoints threadId, .deleteWrites threadId, .deleteMeta threadId]

def Action.statement : Action → Option Statement
  | .execute statement => some statement
  | .select _ | .commit => none

def SaverCall.executed (c : SaverCall) : List Statement :=
  (c.operation.program.take c.done).filterMap Action.statement

def SaverCall.Partway (c : SaverCall) : Prop :=
  c.operation.deletes = true ∧ (c.done = 1 ∨ c.done = 2)

namespace Store

def Commits (s : Store ι) (e : StoreEvent ι) : Prop :=
  ∃ id c, (e = .returns id ∨ e = .raises id true) ∧ s.calls id = some c ∧ c.status = .running ∧
    c.next = some .commit

def AllOrNothing (s : Store ι) : Prop :=
  ∀ id c threadId, s.calls id = some c → c.operation = .adeleteThread threadId →
    statementsOf id s.connection.committed = [] ∨
      statementsOf id s.connection.committed = deletions threadId

structure Traced (s : Store ι) : Prop where
  uncalled : ∀ id, s.calls id = none → statementsOf id s.connection.journal = []
  executed : ∀ id c, s.calls id = some c → statementsOf id s.connection.journal = c.executed

end Store

theorem statementsOf_append_self (id : ι) (journal : List (ι × Statement)) (statement : Statement) :
    statementsOf id (journal ++ [(id, statement)]) = statementsOf id journal ++ [statement] := by
  simp [statementsOf]

theorem statementsOf_append_other {id other : ι} (apart : other ≠ id)
    (journal : List (ι × Statement)) (statement : Statement) :
    statementsOf id (journal ++ [(other, statement)]) = statementsOf id journal := by
  simp [statementsOf, apart]

omit [DecidableEq ι] in
theorem Store.tables_act (s : Store ι) (id : ι) (a : Action) :
    tablesOf (s.act id a).journal = a.statement.elim s.tables fun statement =>
      statement.apply s.tables := by
  cases a with
  | select threadId => rfl
  | execute statement => simp [act, tablesOf, Action.statement, tables]
  | commit => simp [act, Action.statement, tables]

theorem Operation.program_pos (operation : Operation) : 0 < operation.program.length := by
  cases operation <;> simp [program]

theorem SaverCall.executed_advance {c : SaverCall} {a : Action} (next : c.next = some a) (t : Tables) :
    (c.advance t a).executed = c.executed ++ a.statement.toList := by
  have taken : c.operation.program.take (c.done + 1) = c.operation.program.take c.done ++ [a] := by
    rw [List.take_add_one, ← SaverCall.next, next, Option.toList_some]
  simp only [executed, advance, taken, List.filterMap_append]
  cases a <;> rfl

theorem SaverCall.executed_deletion {c : SaverCall} {threadId : String}
    (deletion : c.operation = .adeleteThread threadId) :
    c.executed = [] ∨ c.executed = deletions threadId ↔ ¬ c.Partway := by
  simp only [executed, Partway, deletion, Operation.program, Operation.deletes, deletions]
  match c.done with
  | 0 => simp
  | 1 => simp [Action.statement]
  | 2 => simp [Action.statement]
  | 3 => simp [Action.statement]
  | done + 4 => simp [Action.statement]

namespace Store
variable {s s' : Store ι} {e : StoreEvent ι}

theorem act_self (s : Store ι) (id : ι) (a : Action) :
    statementsOf id (s.act id a).journal =
      statementsOf id s.connection.journal ++ a.statement.toList := by
  cases a with
  | select threadId => simp [act, Action.statement]
  | execute statement =>
      simp [act, Action.statement, statementsOf_append_self]
  | commit => simp [act, Action.statement]

theorem act_other (s : Store ι) {id other : ι} (apart : other ≠ id) (a : Action) :
    statementsOf id (s.act other a).journal = statementsOf id s.connection.journal := by
  cases a with
  | select threadId => rfl
  | execute statement => simp [act, statementsOf_append_other apart]
  | commit => simp [act]

theorem Traced.setCall (traced : s.Traced) {connection : Connection (ι × Statement)} {id : ι}
    {c : SaverCall} (own : statementsOf id connection.journal = c.executed)
    (aside : ∀ other ≠ id, statementsOf other connection.journal = statementsOf other s.connection.journal) :
    ({ s with connection := connection }.setCall id c).Traced := by
  constructor
  · intro other uncalled
    by_cases same : other = id
    · rw [same, setCall_self] at uncalled
      cases uncalled
    · rw [setCall_other _ same] at uncalled
      exact (aside other same).trans (traced.uncalled other uncalled)
  · intro other d found
    by_cases same : other = id
    · subst same
      rw [setCall_self, Option.some.injEq] at found
      exact found ▸ own
    · rw [setCall_other _ same] at found
      exact (aside other same).trans (traced.executed other d found)

theorem Traced.act (traced : s.Traced) {id : ι} {c c' : SaverCall} {a : Action}
    (called : s.calls id = some c) (executed : c'.executed = c.executed ++ a.statement.toList) :
    ({ s with connection := s.act id a }.setCall id c').Traced := by
  refine traced.setCall ?_ fun other apart => s.act_other (Ne.symm apart) a
  rw [s.act_self, traced.executed id c called, executed]

theorem Traced.step (traced : s.Traced) (taken : s.step e = some s') : s'.Traced := by
  cases step_steps taken with
  | call id operation fresh => exact traced.setCall (traced.uncalled id fresh) fun _ _ => rfl
  | returns id c a called running next =>
      exact traced.act called (SaverCall.executed_advance next s.tables)
  | raisesAfter id c a called running next =>
      exact traced.act called (SaverCall.executed_advance next s.tables)
  | raisesBefore id c a called running next =>
      exact traced.setCall (traced.executed id c called) fun _ _ => rfl

theorem Commits.step (commits : s.Commits e) :
    ∃ s' id c c', s.step e = some s' ∧ s'.connection = s.connection.commit ∧
      s'.calls = Function.update s.calls id (some c') ∧ s.calls id = some c ∧
      c.next = some .commit ∧ c'.operation = c.operation := by
  obtain ⟨id, c, rfl | rfl, called, running, next⟩ := commits
  · refine ⟨{ s with connection := s.act id .commit }.setCall id (c.advance s.tables .commit), id, c,
      c.advance s.tables .commit, ?_, rfl, rfl, called, next, rfl⟩
    simp only [Store.step, called, running, next]
  · let c' : SaverCall := { c.advance s.tables .commit with status := .raised }
    refine ⟨{ s with connection := s.act id .commit }.setCall id c', id, c, c', ?_, rfl, rfl, called,
      next, rfl⟩
    simp only [Store.step, called, running, next, if_true, c']

end Store

theorem SaverCall.commit_not_partway {c : SaverCall} (next : c.next = some .commit) : ¬ c.Partway := by
  intro partway
  obtain ⟨deletes, midway⟩ := partway
  cases deletion : c.operation with
  | adeleteThread threadId =>
      rw [SaverCall.next, deletion, Operation.program] at next
      rcases midway with done | done <;> simp [done] at next
  | _ => simp [deletion, Operation.deletes] at deletes

namespace Store
variable {s s' : Store ι} {e : StoreEvent ι}

theorem Traced.allOrNothing_iff (traced : s.Traced) (commits : s.Commits e)
    (taken : s.step e = some s') :
    s'.AllOrNothing ↔ ∀ id c, s.calls id = some c → ¬ c.Partway := by
  obtain ⟨t, id, c, c', again, connection, calls, called, next, operation⟩ := commits.step
  rw [taken] at again
  cases again
  have committed (other : ι) : statementsOf other s'.connection.committed =
      statementsOf other s.connection.journal := by
    rw [connection, Connection.commit_committed]
  constructor
  · intro whole other d found partway
    cases deletion : d.operation with
    | adeleteThread threadId =>
        have same : other ≠ id := by
          rintro rfl
          rw [called] at found
          cases found
          exact SaverCall.commit_not_partway next partway
        have kept : s'.calls other = some d := by
          rw [calls, Function.update_of_ne same, found]
        have outcome := whole other d threadId kept deletion
        rw [committed, traced.executed other d found] at outcome
        exact (SaverCall.executed_deletion deletion).mp outcome partway
    | _ => simp [SaverCall.Partway, deletion, Operation.deletes] at partway
  · intro clear other d threadId found deletion
    rw [committed]
    by_cases same : other = id
    · subst same
      rw [calls, Function.update_self, Option.some.injEq] at found
      rw [← found, operation] at deletion
      rw [traced.executed other c called]
      exact (SaverCall.executed_deletion deletion).mpr (clear other c called)
    · rw [calls, Function.update_of_ne same] at found
      rw [traced.executed other d found]
      exact (SaverCall.executed_deletion deletion).mpr (clear other d found)

/-- In every run of the saver's operations each commit leaves every deletion whole or undone exactly
when, at each commit, no deletion stands between its first and its last statement, be it running
or failed. -/
theorem deletionsWhole_iff (es : List (StoreEvent ι)) :
    EachStep step (fun s e => s.Commits e → ∀ s', s.step e = some s' → s'.AllOrNothing) {} es ↔
      EachStep step (fun s e => s.Commits e → ∀ id c, s.calls id = some c → ¬ c.Partway)
        ({} : Store ι) es := by
  apply EachStep.congr (I := Traced) (fun s e s' traced taken => traced.step taken)
  · intro s e traced
    apply imp_congr_right
    intro commits
    obtain ⟨s', -, -, -, taken, -⟩ := commits.step
    constructor
    · intro whole
      exact (traced.allOrNothing_iff commits taken).mp (whole s' taken)
    · intro clear t again
      exact (traced.allOrNothing_iff commits again).mpr clear
  · exact ⟨fun _ _ => rfl, fun _ _ called => by cases called⟩

end Store

end

def interruptedDeletion : List (StoreEvent Nat) :=
  [.call 0 (.aput "s1" 100), .returns 0, .returns 0, .returns 0, .returns 0,
   .call 1 (.adeleteThread "s1"), .returns 1, .raises 1 false,
   .call 2 (.agetTuple "s2" 160), .returns 2, .returns 2]

theorem interrupted_deletion_committed :
    ¬ EachStep Store.step (fun s e => s.Commits e → ∀ s', s.step e = some s' → s'.AllOrNothing) {}
      (interruptedDeletion ++ [.returns 2]) := by
  intro whole
  have touching := whole.after rfl
  have partly := touching ⟨2, _, .inl rfl, rfl, rfl, rfl⟩ _ rfl 1 _ "s1" rfl rfl
  revert partly
  decide

end DecisionMaker.Server
