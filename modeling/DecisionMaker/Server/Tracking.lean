import DecisionMaker.Library.History
import DecisionMaker.Server.Deletion

namespace DecisionMaker.Server

open Library

section
variable {ι : Type*}

def Operation.statements (operation : Operation) : List Statement :=
  operation.program.filterMap Action.statement

structure Logged (ι : Type*) where
  store : Store ι := {}
  completed : List Operation := []

def Store.returned (s : Store ι) : StoreEvent ι → List Operation
  | .returns id =>
      match s.calls id with
      | some c => if c.status = .returned then [c.operation] else []
      | none => []
  | .call _ _ | .raises _ _ => []

namespace Logged

def step [DecidableEq ι] (l : Logged ι) (e : StoreEvent ι) : Option (Logged ι) :=
  (l.store.step e).map fun store => ⟨store, l.completed ++ store.returned e⟩

/-- A deletion begins when no call on its thread is running and none begins until it is done, and
what raises has sent no statement. -/
def Orderly (l : Logged ι) : StoreEvent ι → Prop
  | .call _ operation => ∀ id c, l.store.calls id = some c → c.status = .running →
      c.operation.threadId = operation.threadId →
        c.operation.deletes = false ∧ operation.deletes = false
  | .raises id tookEffect => ∀ c, l.store.calls id = some c → c.executed = [] ∧
      (tookEffect = true → ∀ statement, c.next ≠ some (.execute statement))
  | .returns _ => True

def Quiescent (l : Logged ι) : Prop :=
  ∀ id c, l.store.calls id = some c → c.status ≠ .running

def Accessed (l : Logged ι) (threadId : String) : Prop :=
  Since (fun operation => operation ≠ .adeleteThread threadId)
    (fun operation => operation.threadId = threadId ∧ operation.deletes = false) l.completed

def Put (l : Logged ι) (threadId : String) : Prop :=
  Since (fun operation => operation ≠ .adeleteThread threadId)
    (fun operation => ∃ nowUnix, operation = .aput threadId nowUnix) l.completed

end Logged

theorem SaverCall.executed_subset (c : SaverCall) {statement : Statement}
    (member : statement ∈ c.executed) : statement ∈ c.operation.statements := by
  obtain ⟨a, taken, same⟩ := List.mem_filterMap.mp member
  exact List.mem_filterMap.mpr ⟨a, List.mem_of_mem_take taken, same⟩

theorem SaverCall.executed_all {c : SaverCall} (done : c.done = c.operation.program.length) :
    c.executed = c.operation.statements := by
  rw [executed, done, List.take_length, Operation.statements]

theorem Operation.program_last (operation : Operation) (statement : Statement) :
    operation.program.getLast? ≠ some (.execute statement) := by
  cases operation <;> simp [program, touchIfNamed, touch] <;> split <;> simp

theorem SaverCall.execute_not_last {c : SaverCall} {statement : Statement}
    (next : c.next = some (.execute statement)) : c.done + 1 ≠ c.operation.program.length := by
  intro last
  apply c.operation.program_last statement
  rw [List.getLast?_eq_getElem?, ← last, Nat.add_sub_cancel]
  exact next

theorem SaverCall.executed_select {c : SaverCall} {threadId : String}
    (next : c.next = some (.select threadId)) : c.executed = [] := by
  cases done : c.done with
  | zero => simp [executed, done]
  | succ n =>
      have never (threadId' : String) (nowUnix : Int) :
          .select threadId ∉ touchIfNamed threadId' nowUnix := by
        unfold touchIfNamed
        split <;> simp [touch]
      have tail : .select threadId ∈ c.operation.program.tail := by
        rw [SaverCall.next, done, ← List.getElem?_tail] at next
        exact List.mem_of_getElem? next
      cases operation : c.operation <;>
        simp [operation, Operation.program, never] at tail

/-- A fact about one thread in one table, with the statements that establish and cancel it. -/
structure Effect (threadId : String) where
  sets : Statement → Prop
  cancels : Statement
  apart : ¬ sets cancels
  set_by : ∀ operation statement, statement ∈ Operation.statements operation → sets statement →
    operation.threadId = threadId ∧ operation.deletes = false
  cancelled_by : ∀ operation, cancels ∈ Operation.statements operation →
    operation = .adeleteThread threadId

theorem mem_touchIfNamed {threadId : String} {nowUnix : Int} {statement : Statement}
    (member : statement ∈ (touchIfNamed threadId nowUnix).filterMap Action.statement) :
    statement = .replaceMeta threadId nowUnix := by
  unfold touchIfNamed at member
  split at member
  · simp at member
  · simpa [touch, Action.statement] using member

theorem Operation.mem_statements {operation : Operation} {statement : Statement}
    (member : statement ∈ operation.statements) :
    (operation = .adeleteThread operation.threadId ∧ statement ∈ deletions operation.threadId) ∨
      operation.deletes = false ∧ ((∃ nowUnix, operation = .aput operation.threadId nowUnix ∧
          statement = .insertCheckpoint operation.threadId) ∨
        statement = .insertWrites operation.threadId ∨
        ∃ nowUnix, statement = .replaceMeta operation.threadId nowUnix) := by
  cases operation with
  | aget threadId nowUnix | agetTuple threadId nowUnix =>
      exact .inr ⟨rfl, .inr (.inr ⟨nowUnix, mem_touchIfNamed member⟩)⟩
  | aput threadId nowUnix =>
      rcases List.mem_cons.mp member with rfl | touched
      · exact .inr ⟨rfl, .inl ⟨nowUnix, rfl, rfl⟩⟩
      · exact .inr ⟨rfl, .inr (.inr ⟨nowUnix, mem_touchIfNamed touched⟩)⟩
  | aputWrites threadId nowUnix =>
      rcases List.mem_cons.mp member with rfl | touched
      · exact .inr ⟨rfl, .inr (.inl rfl)⟩
      · exact .inr ⟨rfl, .inr (.inr ⟨nowUnix, mem_touchIfNamed touched⟩)⟩
  | adeleteThread threadId => exact .inl ⟨rfl, member⟩

def Effect.stored (threadId : String) : Effect threadId where
  sets statement := statement = .insertCheckpoint threadId
  cancels := .deleteCheckpoints threadId
  apart := by simp
  set_by := by
    rintro operation statement member rfl
    rcases Operation.mem_statements member with ⟨-, sent⟩ | ⟨keeps, ⟨-, -, sent⟩ | sent | ⟨_, sent⟩⟩
    · simp [deletions] at sent
    · cases sent
      exact ⟨rfl, keeps⟩
    · cases sent
    · cases sent
  cancelled_by := by
    intro operation member
    rcases Operation.mem_statements member with ⟨deletion, sent⟩ | ⟨-, ⟨-, -, sent⟩ | sent | ⟨_, sent⟩⟩
    · simp only [deletions, List.mem_cons, Statement.deleteCheckpoints.injEq, reduceCtorEq,
        List.not_mem_nil, or_false] at sent
      rw [sent]
      exact deletion
    · cases sent
    · cases sent
    · cases sent

def Effect.tracked (threadId : String) : Effect threadId where
  sets statement := ∃ nowUnix, statement = .replaceMeta threadId nowUnix
  cancels := .deleteMeta threadId
  apart := by simp
  set_by := by
    rintro operation _ member ⟨nowUnix, rfl⟩
    rcases Operation.mem_statements member with ⟨-, sent⟩ | ⟨keeps, ⟨-, -, sent⟩ | sent | ⟨_, sent⟩⟩
    · simp [deletions] at sent
    · cases sent
    · cases sent
    · cases sent
      exact ⟨rfl, keeps⟩
  cancelled_by := by
    intro operation member
    rcases Operation.mem_statements member with ⟨deletion, sent⟩ | ⟨-, ⟨-, -, sent⟩ | sent | ⟨_, sent⟩⟩
    · simp only [deletions, List.mem_cons, Statement.deleteMeta.injEq, reduceCtorEq,
        List.not_mem_nil, or_false, false_or] at sent
      rw [sent]
      exact deletion
    · cases sent
    · cases sent
    · cases sent

namespace Effect
variable {threadId : String} (f : Effect threadId)

def InJournal (journal : List (ι × Statement)) : Prop :=
  Since (· ≠ f.cancels) f.sets (journal.map Prod.snd)

def Completed (completed : List Operation) : Prop :=
  Since (fun operation => f.cancels ∉ operation.statements)
    (fun operation => ∃ statement ∈ operation.statements, f.sets statement) completed

def Set (c : SaverCall) : Prop := ∃ statement ∈ c.executed, f.sets statement

def Cancelled (c : SaverCall) : Prop := f.cancels ∈ c.executed

end Effect

namespace Store

def Running (s : Store ι) (P : SaverCall → Prop) : Prop :=
  ∃ id c, s.calls id = some c ∧ c.status = .running ∧ P c

def Beside (s : Store ι) (id : ι) (P : SaverCall → Prop) : Prop :=
  ∃ other c, other ≠ id ∧ s.calls other = some c ∧ c.status = .running ∧ P c

theorem running_split {s : Store ι} {id : ι} {c : SaverCall} {P : SaverCall → Prop}
    (called : s.calls id = some c) :
    s.Running P ↔ (c.status = .running ∧ P c) ∨ s.Beside id P := by
  constructor
  · intro running
    obtain ⟨other, d, found, busy, holds⟩ := running
    by_cases same : other = id
    · subst same
      rw [called] at found
      cases found
      exact .inl ⟨busy, holds⟩
    · exact .inr ⟨other, d, same, found, busy, holds⟩
  · intro running
    rcases running with ⟨busy, holds⟩ | ⟨other, d, -, found, busy, holds⟩
    · exact ⟨id, c, called, busy, holds⟩
    · exact ⟨other, d, found, busy, holds⟩

theorem running_fresh {s : Store ι} {id : ι} {P : SaverCall → Prop} (fresh : s.calls id = none) :
    s.Running P ↔ s.Beside id P := by
  constructor
  · intro running
    obtain ⟨other, d, found, busy, holds⟩ := running
    refine ⟨other, d, ?_, found, busy, holds⟩
    rintro rfl
    rw [fresh] at found
    cases found
  · intro running
    obtain ⟨other, d, -, found, busy, holds⟩ := running
    exact ⟨other, d, found, busy, holds⟩

@[simp] theorem beside_mk (connection : Connection (ι × Statement)) (s : Store ι) {id : ι}
    {P : SaverCall → Prop} : Beside ⟨connection, s.calls⟩ id P ↔ s.Beside id P :=
  Iff.rfl

theorem running_setCall [DecidableEq ι] {s : Store ι} {id : ι} {c : SaverCall} {P : SaverCall → Prop} :
    (s.setCall id c).Running P ↔ (c.status = .running ∧ P c) ∨ s.Beside id P := by
  rw [running_split (s.setCall_self id c)]
  apply or_congr_right
  constructor
  · intro beside
    obtain ⟨other, d, apart, found, rest⟩ := beside
    rw [s.setCall_other apart] at found
    exact ⟨other, d, apart, found, rest⟩
  · intro beside
    obtain ⟨other, d, apart, found, rest⟩ := beside
    exact ⟨other, d, apart, (s.setCall_other apart c).trans found, rest⟩

end Store

namespace Logged

def Exclusive (l : Logged ι) : Prop :=
  ∀ id c other d, l.store.calls id = some c → c.status = .running → l.store.calls other = some d →
    d.status = .running → c.operation.threadId = d.operation.threadId →
      c.operation.deletes = true → id = other

structure Sound [DecidableEq ι] (l : Logged ι) : Prop where
  traced : l.store.Traced
  exclusive : l.Exclusive
  pending : ∀ entry ∈ l.store.connection.pending,
    ∃ c, l.store.calls entry.1 = some c ∧ c.status = .running

end Logged

def Effect.Settled {threadId : String} (f : Effect threadId) (l : Logged ι) : Prop :=
  f.InJournal l.store.connection.journal ↔
    l.store.Running f.Set ∨ f.Completed l.completed ∧ ¬ l.store.Running f.Cancelled

section
variable {threadId : String} (f : Effect threadId) {l l' : Logged ι} {e : StoreEvent ι} {id : ι}
  {c : SaverCall} {a : Action}

theorem Effect.set_operation (set : f.Set c) :
    c.operation.threadId = threadId ∧ c.operation.deletes = false := by
  obtain ⟨statement, sent, sets⟩ := set
  exact f.set_by _ _ (c.executed_subset sent) sets

theorem Effect.cancelled_operation (cancelled : f.Cancelled c) :
    c.operation = .adeleteThread threadId :=
  f.cancelled_by _ (c.executed_subset cancelled)

theorem Logged.Exclusive.deletion_alone (exclusive : l.Exclusive) (called : l.store.calls id = some c)
    (running : c.status = .running) (deletion : c.operation = .adeleteThread threadId) :
    ¬ l.store.Beside id f.Set ∧ ¬ l.store.Beside id f.Cancelled := by
  constructor
  · intro beside
    obtain ⟨other, d, apart, found, busy, set⟩ := beside
    have on := (f.set_operation set).1
    exact apart (exclusive id c other d called running found busy (by rw [on, deletion]; rfl)
      (by rw [deletion]; rfl)).symm
  · intro beside
    obtain ⟨other, d, apart, found, busy, cancelled⟩ := beside
    have same := f.cancelled_operation cancelled
    exact apart (exclusive id c other d called running found busy (by rw [same, deletion])
      (by rw [deletion]; rfl)).symm

theorem Logged.Exclusive.setter_alone (exclusive : l.Exclusive) (called : l.store.calls id = some c)
    (running : c.status = .running) (on : c.operation.threadId = threadId) :
    ¬ l.store.Beside id f.Cancelled := by
  intro beside
  obtain ⟨other, d, apart, found, busy, cancelled⟩ := beside
  have same := f.cancelled_operation cancelled
  exact apart (exclusive other d id c found busy called running (by rw [same, on]; rfl)
    (by rw [same]; rfl))

theorem Effect.inJournal_act (journal : List (ι × Statement)) (id : ι) (statement : Statement) :
    f.InJournal (journal ++ [(id, statement)]) ↔
      f.sets statement ∨ statement ≠ f.cancels ∧ f.InJournal journal := by
  simp [InJournal]

theorem Effect.inJournal_keep (s : Store ι) (id : ι) (silent : a.statement = none) :
    f.InJournal (s.act id a).journal ↔ f.InJournal s.connection.journal := by
  cases a with
  | select threadId => rfl
  | commit => simp [Store.act]
  | execute statement => cases silent

theorem Effect.set_advance (next : c.next = some a) (t : Tables) :
    f.Set (c.advance t a) ↔ f.Set c ∨ ∃ statement, a.statement = some statement ∧ f.sets statement := by
  simp only [Set, SaverCall.executed_advance next]
  constructor
  · intro set
    obtain ⟨statement, sent, sets⟩ := set
    rcases List.mem_append.mp sent with before | now
    · exact .inl ⟨statement, before, sets⟩
    · exact .inr ⟨statement, Option.mem_toList.mp now, sets⟩
  · intro set
    rcases set with ⟨statement, before, sets⟩ | ⟨statement, now, sets⟩
    · exact ⟨statement, List.mem_append_left _ before, sets⟩
    · exact ⟨statement, List.mem_append_right _ (Option.mem_toList.mpr now), sets⟩

theorem Effect.cancelled_advance (next : c.next = some a) (t : Tables) :
    f.Cancelled (c.advance t a) ↔ f.Cancelled c ∨ a.statement = some f.cancels := by
  simp only [Cancelled, SaverCall.executed_advance next, List.mem_append, Option.mem_toList]

theorem Effect.Settled.execute [DecidableEq ι] (exclusive : l.Exclusive) (settled : f.Settled l)
    (called : l.store.calls id = some c) (running : c.status = .running) {statement : Statement}
    (next : c.next = some (.execute statement)) :
    f.Settled ⟨{ l.store with connection := l.store.act id (.execute statement) }.setCall id
      (c.advance l.store.tables (.execute statement)), l.completed⟩ := by
  have sends : statement ∈ c.operation.statements :=
    List.mem_filterMap.mpr ⟨_, List.mem_of_getElem? next, rfl⟩
  have busy : (c.advance l.store.tables (.execute statement)).status = .running := by
    simp [SaverCall.advance, SaverCall.execute_not_last next]
  simp only [Effect.Settled, Store.running_setCall, busy, true_and, f.set_advance next,
    f.cancelled_advance next, Store.setCall_connection, Store.beside_mk, Store.act,
    Connection.execute_journal,
    f.inJournal_act, Action.statement, Option.some.injEq, exists_eq_left']
  rw [Effect.Settled, Store.running_split called, Store.running_split called] at settled
  simp only [running, true_and] at settled
  rw [settled]
  by_cases sets : f.sets statement
  · simp [sets]
  by_cases cancels : statement = f.cancels
  · have deletion := f.cancelled_by _ (cancels ▸ sends)
    obtain ⟨noSet, noCancel⟩ := exclusive.deletion_alone f called running deletion
    have unset : ¬ f.Set c := by
      intro set
      have keeps := (f.set_operation set).2
      rw [deletion] at keeps
      cases keeps
    simp [cancels, f.apart, noSet, unset]
  · simp [sets, cancels]

theorem Effect.Settled.silent [DecidableEq ι] (exclusive : l.Exclusive) (settled : f.Settled l)
    (called : l.store.calls id = some c) (running : c.status = .running) (next : c.next = some a)
    (silent : a.statement = none) :
    f.Settled ⟨{ l.store with connection := l.store.act id a }.setCall id
      (c.advance l.store.tables a), l.completed ++
        if (c.advance l.store.tables a).status = .returned then [c.operation] else []⟩ := by
  simp only [Effect.Settled, Store.running_setCall, f.set_advance next, f.cancelled_advance next,
    Store.setCall_connection, Store.beside_mk, f.inJournal_keep l.store id silent, silent,
    reduceCtorEq, false_and, exists_false, or_false]
  rw [Effect.Settled, Store.running_split called, Store.running_split called] at settled
  simp only [running, true_and] at settled
  by_cases last : c.done + 1 = c.operation.program.length
  · have status : (c.advance l.store.tables a).status = .returned := by
      simp [SaverCall.advance, last]
    have whole : c.executed = c.operation.statements := by
      have after := SaverCall.executed_advance next l.store.tables
      rw [silent, Option.toList_none, List.append_nil] at after
      rw [← after]
      exact SaverCall.executed_all last
    have sent : (∃ statement ∈ c.operation.statements, f.sets statement) ↔ f.Set c := by
      rw [Effect.Set, whole]
    have removed : f.cancels ∈ c.operation.statements ↔ f.Cancelled c := by
      rw [Effect.Cancelled, whole]
    simp only [status, reduceCtorEq, false_and, false_or, if_true, Effect.Completed, since_concat,
      sent, removed]
    rw [settled]
    by_cases set : f.Set c
    · have none := exclusive.setter_alone f called running (f.set_operation set).1
      simp [set, none]
    · simp only [set, false_or, not_or, Effect.Completed]
      tauto
  · have status : (c.advance l.store.tables a).status = .running := by
      simp [SaverCall.advance, last]
    simp only [status, true_and, reduceCtorEq, if_false, List.append_nil]
    exact settled

theorem Effect.Settled.raises [DecidableEq ι] (settled : f.Settled l)
    (called : l.store.calls id = some c) (nothing : c.executed = []) {c' : SaverCall}
    (failed : c'.status = .raised) {connection : Connection (ι × Statement)}
    (same : f.InJournal connection.journal ↔ f.InJournal l.store.connection.journal) :
    f.Settled ⟨Store.setCall ⟨connection, l.store.calls⟩ id c', l.completed⟩ := by
  have unset : ¬ f.Set c := by simp [Effect.Set, nothing]
  have uncancelled : ¬ f.Cancelled c := by simp [Effect.Cancelled, nothing]
  simp only [Effect.Settled, Store.running_setCall, Store.setCall_connection, Store.beside_mk, failed,
    reduceCtorEq, false_and, false_or, same]
  rw [Effect.Settled, Store.running_split called, Store.running_split called] at settled
  simp only [unset, uncancelled, and_false, false_or] at settled
  exact settled

theorem Effect.Settled.call [DecidableEq ι] (settled : f.Settled l) (fresh : l.store.calls id = none)
    (operation : Operation) : f.Settled ⟨l.store.setCall id { operation }, l.completed⟩ := by
  have unset : ¬ f.Set { operation } := by simp [Effect.Set, SaverCall.executed]
  have uncancelled : ¬ f.Cancelled { operation } := by simp [Effect.Cancelled, SaverCall.executed]
  simp only [Effect.Settled, Store.running_setCall, Store.setCall_connection, unset, uncancelled,
    and_false, false_or]
  rwa [Effect.Settled, Store.running_fresh fresh, Store.running_fresh fresh] at settled

theorem Logged.step_some [DecidableEq ι] (taken : l.step e = some l') :
    l.store.step e = some l'.store ∧ l'.completed = l.completed ++ l'.store.returned e := by
  obtain ⟨store, stepped, same⟩ := Option.map_eq_some_iff.mp taken
  rw [← same]
  exact ⟨stepped, rfl⟩

theorem Effect.Settled.step [DecidableEq ι] (exclusive : l.Exclusive) (settled : f.Settled l)
    (orderly : l.Orderly e) (taken : l.step e = some l') : f.Settled l' := by
  obtain ⟨stepped, completed⟩ := Logged.step_some taken
  obtain ⟨store, completed'⟩ := l'
  dsimp only at stepped completed
  subst completed
  cases Store.step_steps stepped with
  | call id operation fresh =>
      simp only [Store.returned, List.append_nil]
      exact settled.call f fresh operation
  | returns id c a called running next =>
      simp only [Store.returned, Store.setCall_self]
      cases silent : a.statement with
      | none => exact settled.silent f exclusive called running next silent
      | some statement =>
          have sends : a = .execute statement := by
            cases a <;> cases silent
            rfl
          subst sends
          have busy : (c.advance l.store.tables (.execute statement)).status = .running := by
            simp [SaverCall.advance, SaverCall.execute_not_last next]
          simp only [busy, reduceCtorEq, if_false, List.append_nil]
          exact settled.execute f exclusive called running next
  | raisesAfter id c a called running next =>
      obtain ⟨nothing, quiet⟩ := orderly c called
      have silent : a.statement = none := by
        cases a with
        | execute statement => exact absurd next (quiet rfl statement)
        | select threadId => rfl
        | commit => rfl
      simp only [Store.returned, List.append_nil]
      exact settled.raises f called nothing rfl (f.inJournal_keep l.store id silent)
  | raisesBefore id c a called running next =>
      simp only [Store.returned, List.append_nil]
      exact settled.raises f called (orderly c called).1 rfl Iff.rfl

end

section
variable [DecidableEq ι] {l l' : Logged ι} {e : StoreEvent ι}

theorem Store.Steps.running_before {s s' : Store ι} (steps : Steps s e s') {other : ι}
    {d : SaverCall} (found : s'.calls other = some d) (running : d.status = .running) :
    (e = .call other d.operation) ∨
      ∃ c, s.calls other = some c ∧ c.status = .running ∧ c.operation = d.operation := by
  cases steps with
  | call id operation fresh =>
      by_cases same : other = id
      · subst same
        rw [Store.setCall_self] at found
        cases found
        exact .inl rfl
      · rw [Store.setCall_other _ same] at found
        exact .inr ⟨d, found, running, rfl⟩
  | returns id c a called busy next | raisesAfter id c a called busy next
  | raisesBefore id c a called busy next =>
      by_cases same : other = id
      · subst same
        rw [Store.setCall_self] at found
        cases found
        exact .inr ⟨c, called, busy, rfl⟩
      · rw [Store.setCall_other _ same] at found
        exact .inr ⟨d, found, running, rfl⟩

theorem Logged.Exclusive.step (exclusive : l.Exclusive) (orderly : l.Orderly e)
    (taken : l.step e = some l') : l'.Exclusive := by
  have steps := Store.step_steps (Logged.step_some taken).1
  intro id c other d found running found' running' same deletes
  rcases steps.running_before found running with rfl | ⟨c₀, called, busy, operation⟩
  · rcases steps.running_before found' running' with began | ⟨d₀, called', busy', operation'⟩
    · exact (StoreEvent.call.inj began).1
    · obtain ⟨-, keeps⟩ := orderly other d₀ called' busy' (by rw [operation', same])
      rw [deletes] at keeps
      cases keeps
  · rcases steps.running_before found' running' with rfl | ⟨d₀, called', busy', operation'⟩
    · obtain ⟨keeps, -⟩ := orderly id c₀ called busy (by rw [operation, same])
      rw [operation, deletes] at keeps
      cases keeps
    · exact exclusive id c₀ other d₀ called busy called' busy' (by rw [operation, operation', same])
        (by rw [operation, deletes])

theorem Logged.Sound.step (sound : l.Sound) (orderly : l.Orderly e) (taken : l.step e = some l') :
    l'.Sound := by
  have stepped := (Logged.step_some taken).1
  obtain ⟨store, completed⟩ := l'
  dsimp only at stepped
  refine ⟨sound.traced.step stepped, sound.exclusive.step orderly taken, ?_⟩
  have silent {id : ι} {c : SaverCall} (called : l.store.calls id = some c) (nothing : c.executed = [])
      {entry : ι × Statement} (member : entry ∈ l.store.connection.pending) : entry.1 ≠ id := by
    rintro rfl
    have journal := sound.traced.executed entry.1 c called
    rw [nothing] at journal
    have sent : entry.2 ∈ statementsOf entry.1 l.store.connection.journal := by
      refine List.mem_map.mpr ⟨entry, List.mem_filter.mpr ⟨List.mem_append_right _ member, ?_⟩, rfl⟩
      simp
    rw [journal] at sent
    cases sent
  intro entry member
  cases Store.step_steps stepped with
  | call id operation fresh =>
      obtain ⟨c, called, running⟩ := sound.pending entry member
      have apart : entry.1 ≠ id := by
        rintro rfl
        rw [fresh] at called
        cases called
      exact ⟨c, by rw [Store.setCall_other _ apart, called], running⟩
  | returns id c a called running next =>
      cases a with
      | select threadId =>
          have apart := silent called (SaverCall.executed_select next) member
          obtain ⟨d, found, busy⟩ := sound.pending entry member
          exact ⟨d, by rw [Store.setCall_other _ apart, found], busy⟩
      | execute statement =>
          have busy : (c.advance l.store.tables (.execute statement)).status = .running := by
            simp [SaverCall.advance, SaverCall.execute_not_last next]
          by_cases same : entry.1 = id
          · exact ⟨_, by rw [same, Store.setCall_self], busy⟩
          · rcases List.mem_append.mp member with before | now
            · obtain ⟨d, found, busy⟩ := sound.pending entry before
              exact ⟨d, by rw [Store.setCall_other _ same, found], busy⟩
            · exact absurd (congrArg Prod.fst (List.mem_singleton.mp now)) same
      | commit => cases member
  | raisesAfter id c a called running next =>
      obtain ⟨nothing, quiet⟩ := orderly c called
      cases a with
      | select threadId =>
          have apart := silent called nothing member
          obtain ⟨d, found, busy⟩ := sound.pending entry member
          exact ⟨d, by rw [Store.setCall_other _ apart, found], busy⟩
      | execute statement => exact absurd next (quiet rfl statement)
      | commit => cases member
  | raisesBefore id c a called running next =>
      have apart := silent called (orderly c called).1 member
      obtain ⟨d, found, busy⟩ := sound.pending entry member
      exact ⟨d, by rw [Store.setCall_other _ apart, found], busy⟩

theorem Logged.Sound.initial : ({} : Logged ι).Sound where
  traced := ⟨fun _ _ => rfl, fun _ _ called => by cases called⟩
  exclusive := fun _ _ _ _ called => by cases called
  pending := fun _ member => by cases member

omit [DecidableEq ι] in
theorem Effect.Settled.initial {threadId : String} (f : Effect threadId) :
    f.Settled ({} : Logged ι) := by
  simp [Effect.Settled, Effect.InJournal, Effect.Completed, Store.Running]

theorem Logged.run_settled {threadId : String} (f : Effect threadId) {es : List (StoreEvent ι)}
    (orderly : EachStep Logged.step Logged.Orderly {} es) (taken : run Logged.step {} es = some l) :
    l.Sound ∧ f.Settled l := by
  apply run_invariant_of (I := fun l => l.Sound ∧ f.Settled l) _ ⟨.initial, .initial f⟩ orderly taken
  intro l e l' inv orderly taken
  exact ⟨inv.1.step orderly taken, inv.2.step f inv.1.exclusive orderly taken⟩

theorem Logged.Quiescent.durable (quiescent : l.Quiescent) (sound : l.Sound) :
    l.store.connection.committed = l.store.connection.journal := by
  have none : l.store.connection.pending = [] := by
    apply List.eq_nil_iff_forall_not_mem.mpr
    intro entry member
    obtain ⟨c, called, running⟩ := sound.pending entry member
    exact quiescent entry.1 c called running
  rw [Connection.journal, none, List.append_nil]

omit [DecidableEq ι] in
theorem Logged.Quiescent.inJournal_iff {threadId : String} {f : Effect threadId}
    (quiescent : l.Quiescent) (settled : f.Settled l) :
    f.InJournal l.store.connection.journal ↔ f.Completed l.completed := by
  have none (P : SaverCall → Prop) : ¬ l.store.Running P := by
    intro running
    obtain ⟨id, c, called, busy, -⟩ := running
    exact quiescent id c called busy
  rw [Effect.Settled] at settled
  rw [settled, or_iff_right (none _), and_iff_left (none _)]

end

section
variable (threadId : String) (journal : List (ι × Statement)) (operation : Operation)

theorem Store.mem_checkpoints :
    threadId ∈ (tablesOf journal).checkpoints ↔ (Effect.stored threadId).InJournal journal := by
  refine foldl_iff_since (P := fun t : Tables => threadId ∈ t.checkpoints) (by simp) ?_
  intro t statement
  cases statement <;> simp [Statement.apply, Effect.stored, eq_comm]

theorem Store.mem_brainstormMeta :
    threadId ∈ (tablesOf journal).brainstormMeta ↔ (Effect.tracked threadId).InJournal journal := by
  refine foldl_iff_since (P := fun t : Tables => threadId ∈ t.brainstormMeta) (by simp) ?_
  intro t statement
  cases statement <;> simp [Statement.apply, Effect.tracked, eq_comm, AList.mem_insert, AList.mem_erase]

theorem Effect.stored_sets :
    (∃ statement ∈ operation.statements, (Effect.stored threadId).sets statement) ↔
      ∃ nowUnix, operation = .aput threadId nowUnix := by
  constructor
  · intro set
    obtain ⟨statement, member, rfl⟩ := set
    rcases Operation.mem_statements member with
      ⟨-, sent⟩ | ⟨-, ⟨nowUnix, put, sent⟩ | sent | ⟨_, sent⟩⟩
    · simp [deletions] at sent
    · cases sent
      exact ⟨nowUnix, put⟩
    · cases sent
    · cases sent
  · intro put
    obtain ⟨nowUnix, rfl⟩ := put
    exact ⟨_, List.mem_cons_self, rfl⟩

theorem Effect.tracked_sets :
    (∃ statement ∈ operation.statements, (Effect.tracked threadId).sets statement) ↔
      threadId ≠ "" ∧ operation.threadId = threadId ∧ operation.deletes = false := by
  constructor
  · intro set
    obtain ⟨statement, member, sets⟩ := set
    obtain ⟨on, keeps⟩ := (Effect.tracked threadId).set_by operation statement member sets
    refine ⟨?_, on, keeps⟩
    rintro rfl
    obtain ⟨nowUnix, rfl⟩ := sets
    cases operation <;>
      simp_all [Operation.statements, Operation.program, Operation.threadId, touchIfNamed,
        Action.statement]
  · intro access
    obtain ⟨named, rfl, keeps⟩ := access
    cases operation with
    | adeleteThread threadId => cases keeps
    | aget threadId nowUnix | agetTuple threadId nowUnix | aput threadId nowUnix
    | aputWrites threadId nowUnix =>
        refine ⟨.replaceMeta threadId nowUnix, ?_, nowUnix, rfl⟩
        have named : threadId ≠ "" := named
        simp [Operation.statements, Operation.program, touchIfNamed, named, touch, Action.statement]

theorem Effect.stored_keeps :
    (Effect.stored threadId).cancels ∉ operation.statements ↔ operation ≠ .adeleteThread threadId := by
  constructor
  · rintro keeps rfl
    exact keeps (by simp [Effect.stored, Operation.statements, Operation.program, Action.statement])
  · exact fun other member => other ((Effect.stored threadId).cancelled_by operation member)

theorem Effect.tracked_keeps :
    (Effect.tracked threadId).cancels ∉ operation.statements ↔ operation ≠ .adeleteThread threadId := by
  constructor
  · rintro keeps rfl
    exact keeps (by simp [Effect.tracked, Operation.statements, Operation.program, Action.statement])
  · exact fun other member => other ((Effect.tracked threadId).cancelled_by operation member)

theorem Logged.put_iff (l : Logged ι) :
    (Effect.stored threadId).Completed l.completed ↔ l.Put threadId :=
  since_congr (Effect.stored_keeps threadId) (Effect.stored_sets threadId)

theorem Logged.accessed_iff (l : Logged ι) :
    (Effect.tracked threadId).Completed l.completed ↔ threadId ≠ "" ∧ l.Accessed threadId := by
  rw [Effect.Completed, since_congr (Effect.tracked_keeps threadId) (Effect.tracked_sets threadId)]
  by_cases named : threadId = ""
  · simp [named, Since]
  · simp [named, Logged.Accessed]

end

/-- In every quiescent state of an orderly run a thread is tracked exactly when it has been read or
written since its last deletion, and stored exactly when it has been put since then. So no thread
with checkpoints escapes the sweeper. -/
theorem tracked_and_stored [DecidableEq ι] (es : List (StoreEvent ι)) (l : Logged ι)
    (orderly : EachStep Logged.step Logged.Orderly {} es) (taken : run Logged.step {} es = some l)
    (quiescent : l.Quiescent) (threadId : String) :
    (threadId ∈ l.store.durable.brainstormMeta ↔ threadId ≠ "" ∧ l.Accessed threadId) ∧
    (threadId ∈ l.store.durable.checkpoints ↔ l.Put threadId) ∧
    (threadId ≠ "" → threadId ∈ l.store.durable.checkpoints →
      threadId ∈ l.store.durable.brainstormMeta) := by
  obtain ⟨sound, stored⟩ := Logged.run_settled (Effect.stored threadId) orderly taken
  obtain ⟨-, tracked⟩ := Logged.run_settled (Effect.tracked threadId) orderly taken
  have kept := quiescent.durable sound
  have checkpoints : threadId ∈ l.store.durable.checkpoints ↔ l.Put threadId := by
    rw [Store.durable, kept, Store.mem_checkpoints, quiescent.inJournal_iff stored, Logged.put_iff]
  have brainstormMeta : threadId ∈ l.store.durable.brainstormMeta ↔
      threadId ≠ "" ∧ l.Accessed threadId := by
    rw [Store.durable, kept, Store.mem_brainstormMeta, quiescent.inJournal_iff tracked,
      Logged.accessed_iff]
  refine ⟨brainstormMeta, checkpoints, fun named present => brainstormMeta.mpr ⟨named, ?_⟩⟩
  refine (checkpoints.mp present).mono (fun _ keeps => keeps) ?_
  rintro operation ⟨nowUnix, rfl⟩
  exact ⟨rfl, rfl⟩

end

def unknownRead : List (StoreEvent Nat) :=
  [.call 0 (.agetTuple "s9" 160), .returns 0, .returns 0, .returns 0]

def overlappedDeletion : List (StoreEvent Nat) :=
  [.call 0 (.adeleteThread "s1"), .returns 0, .returns 0,
   .call 1 (.aput "s1" 100), .returns 1, .returns 1, .returns 1, .returns 1,
   .returns 0, .returns 0]

def failedTouch : List (StoreEvent Nat) :=
  [.call 0 (.aput "s1" 100), .returns 0, .returns 0, .raises 0 false]

theorem unknownRead_quiescent {l : Logged Nat} (taken : run Logged.step {} unknownRead = some l) :
    l.Quiescent := by
  cases taken
  intro id c called
  cases id with
  | zero => cases called; decide
  | succ id => cases called

theorem tracked_and_stored_unknownRead :
    ∃ l, run Logged.step {} unknownRead = some l ∧
      ("s9" ∈ l.store.durable.brainstormMeta ↔ "s9" ≠ "" ∧ l.Accessed "s9") := by
  refine ⟨_, rfl, (tracked_and_stored unknownRead _ ?_ rfl (unknownRead_quiescent rfl) "s9").1⟩
  apply EachStep.cons rfl
  · intro id c called
    cases called
  · exact .cons rfl True.intro (.cons rfl True.intro (.cons rfl True.intro True.intro))

theorem unknown_read_tracked :
    (∃ l, run Logged.step {} unknownRead = some l ∧ l.Quiescent ∧
      "s9" ∈ l.store.durable.brainstormMeta ∧ "s9" ∉ l.store.durable.checkpoints) ∧
    (∃ l, run Logged.step {} overlappedDeletion = some l ∧ l.Quiescent ∧
      "s1" ∈ l.store.durable.checkpoints ∧ "s1" ∉ l.store.durable.brainstormMeta) ∧
    ∃ l, run Logged.step {} failedTouch = some l ∧ l.Quiescent ∧
      "s1" ∈ l.store.durable.checkpoints ∧ "s1" ∉ l.store.durable.brainstormMeta := by
  refine ⟨⟨_, rfl, unknownRead_quiescent rfl, by decide, by decide⟩,
    ⟨_, rfl, ?_, by decide, by decide⟩, ⟨_, rfl, ?_, by decide, by decide⟩⟩
  · intro id c called
    match id with
    | 0 => cases called; decide
    | 1 => cases called; decide
    | id + 2 => cases called
  · intro id c called
    match id with
    | 0 => cases called; decide
    | id + 1 => cases called

end DecisionMaker.Server
