import DecisionMaker.Server.Service

namespace DecisionMaker.Server

open Library

def Statement.threadId : Statement → String
  | .insertCheckpoint threadId | .insertWrites threadId | .replaceMeta threadId _
  | .deleteCheckpoints threadId | .deleteWrites threadId | .deleteMeta threadId => threadId

namespace Request

def on : Request → Option String
  | .lookingUp threadId | .streaming threadId _ _ | .checking threadId | .closing threadId
  | .sweeping _ threadId _ => some threadId
  | .acknowledged _ | .finished => none

def closes : Request → Bool
  | .checking _ | .closing _ | .sweeping _ _ _ => true
  | .lookingUp _ | .streaming _ _ _ | .acknowledged _ | .finished => false

def names : Request → List String
  | .lookingUp threadId | .streaming threadId _ _ | .checking threadId | .closing threadId
  | .acknowledged threadId => [threadId]
  | .sweeping _ threadId staleIds => threadId :: staleIds
  | .finished => []

def Owns : Request → Nat → Operation → Prop
  | .lookingUp threadId, n, operation | .checking threadId, n, operation =>
      n = 0 ∧ ∃ nowUnix, operation = .agetTuple threadId nowUnix
  | .streaming threadId _ calls, n, operation =>
      n < calls ∧ operation.threadId = threadId ∧ operation.deletes = false
  | .closing threadId, n, operation => n = 1 ∧ operation = .adeleteThread threadId
  | .sweeping calls threadId _, n, operation => n = calls ∧ operation = .adeleteThread threadId
  | .acknowledged _, _, _ | .finished, _, _ => False

theorem Owns.names {q : Request} {n : Nat} {operation : Operation} (owns : q.Owns n operation) :
    operation.threadId ∈ q.names := by
  cases q with
  | lookingUp threadId | checking threadId =>
      obtain ⟨-, nowUnix, rfl⟩ := owns
      exact List.mem_cons_self
  | streaming threadId isNewSession calls => exact List.mem_singleton.mpr owns.2.1
  | closing threadId | sweeping calls threadId staleIds =>
      obtain ⟨-, rfl⟩ := owns
      exact List.mem_cons_self
  | acknowledged threadId | finished => exact owns.elim

end Request

theorem Operation.statement_threadId {operation : Operation} {statement : Statement}
    (member : statement ∈ operation.statements) : statement.threadId = operation.threadId := by
  rcases mem_statements member with ⟨-, sent⟩ | ⟨-, ⟨-, -, rfl⟩ | rfl | ⟨nowUnix, rfl⟩⟩
  · simp only [deletions, List.mem_cons, List.not_mem_nil, or_false] at sent
    rcases sent with rfl | rfl | rfl <;> rfl
  · rfl
  · rfl
  · rfl

theorem execute_mem_touchIfNamed {threadId : String} {nowUnix : Int} {statement : Statement}
    (member : .execute statement ∈ touchIfNamed threadId nowUnix) :
    statement = .replaceMeta threadId nowUnix :=
  mem_touchIfNamed (List.mem_filterMap.mpr ⟨_, member, rfl⟩)

theorem SaverCall.next_execute {c : SaverCall} {statement : Statement}
    (next : c.next = some (.execute statement)) :
    (∃ threadId nowUnix, c.operation = .aput threadId nowUnix ∧ c.done = 0 ∧
      statement = .insertCheckpoint threadId) ∨
    (∃ threadId nowUnix, c.operation = .aputWrites threadId nowUnix ∧ c.done = 0 ∧
      statement = .insertWrites threadId) ∨
    (∃ threadId nowUnix, c.operation.threadId = threadId ∧ c.operation.deletes = false ∧ c.done ≠ 0 ∧
      statement = .replaceMeta threadId nowUnix) ∨
    (∃ threadId, c.operation = .adeleteThread threadId ∧
      (deletions threadId)[c.done]? = some statement) := by
  obtain ⟨operation, done, found, status⟩ := c
  simp only [SaverCall.next] at next ⊢
  cases operation with
  | aget threadId nowUnix | agetTuple threadId nowUnix =>
      cases done with
      | zero => simp [Operation.program] at next
      | succ n =>
          have touched := execute_mem_touchIfNamed (List.mem_of_getElem? next)
          exact .inr (.inr (.inl ⟨threadId, nowUnix, rfl, rfl, Nat.succ_ne_zero n, touched⟩))
  | aput threadId nowUnix =>
      rcases done with _ | _ | n
      · cases next
        exact .inl ⟨threadId, nowUnix, rfl, rfl, rfl⟩
      · cases next
      · have touched := execute_mem_touchIfNamed (List.mem_of_getElem? next)
        exact .inr (.inr (.inl ⟨threadId, nowUnix, rfl, rfl, Nat.succ_ne_zero _, touched⟩))
  | aputWrites threadId nowUnix =>
      rcases done with _ | _ | n
      · cases next
        exact .inr (.inl ⟨threadId, nowUnix, rfl, rfl, rfl⟩)
      · cases next
      · have touched := execute_mem_touchIfNamed (List.mem_of_getElem? next)
        exact .inr (.inr (.inl ⟨threadId, nowUnix, rfl, rfl, Nat.succ_ne_zero _, touched⟩))
  | adeleteThread threadId =>
      refine .inr (.inr (.inr ⟨threadId, rfl, ?_⟩))
      rcases done with _ | _ | _ | _ | n <;> cases next <;> rfl

theorem Effect.inJournal_mem {ι : Type*} {threadId : String} (f : Effect threadId)
    {journal : List (ι × Statement)} (since : f.InJournal journal) :
    ∃ entry ∈ journal, f.sets entry.2 := by
  obtain ⟨front, statement, back, split, sets, -⟩ := since
  have member : statement ∈ journal.map Prod.snd := by simp [split]
  obtain ⟨entry, among, rfl⟩ := List.mem_map.mp member
  exact ⟨entry, among, sets⟩

def SaverCall.put (c : SaverCall) : Bool := c.operation.isPut && decide (1 ≤ c.done)

namespace Service

section
variable {κ : Type} {s s' t : Service κ} {id : κ} {q : Request} {threadId : String}

structure Owned (s : Service κ) : Prop where
  owner : ∀ id n c, s.store.calls (id, n) = some c → c.status = .running →
    ∃ q, s.requests id = some q ∧ q.Owns n c.operation
  named : ∀ id q, s.requests id = some q → ∀ threadId ∈ q.names, threadId ∈ s.seen
  known : ∀ entry ∈ s.store.connection.journal, entry.2.threadId ∈ s.seen
  complete : ∀ call c, s.store.calls call = some c → c.status = .returned →
    c.done = c.operation.program.length

def Idle (s : Service κ) (id : κ) : Prop :=
  ∀ n c, s.store.calls (id, n) = some c → c.status ≠ .running

theorem Owned.idle (owned : s.Owned) (done : ∀ q, s.requests id = some q → ∀ n c,
    s.store.calls (id, n) = some c → c.status = .running → ¬ q.Owns n c.operation) : s.Idle id := by
  intro n c called running
  obtain ⟨q, request, owns⟩ := owned.owner id n c called running
  exact done q request n c called running owns

theorem Owned.idle_free (owned : s.Owned) (free : s.requests id = none) : s.Idle id :=
  owned.idle fun q request => by rw [free] at request; cases request

theorem Owned.idle_awaited (owned : s.Owned) (request : s.requests id = some q) {m : Nat}
    (awaits : ∀ n operation, q.Owns n operation → n = m) {c : SaverCall}
    (called : s.store.calls (id, m) = some c) (ended : c.status ≠ .running) : s.Idle id := by
  apply owned.idle
  intro q' request' n d called' running owns
  rw [request] at request'
  cases request'
  rw [awaits n _ owns, called] at called'
  cases called'
  exact ended running

theorem Owned.idle_settled (owned : s.Owned) {isNewSession : Bool} {calls : Nat}
    (request : s.requests id = some (.streaming threadId isNewSession calls))
    (settled : s.settled id calls = true) : s.Idle id := by
  apply owned.idle
  intro q' request' n c called running owns
  rw [request] at request'
  cases request'
  have done := List.all_eq_true.mp settled n (List.mem_range.mpr owns.1)
  simp [called, running] at done

theorem hasPut_iff {calls : Nat} : s.hasPut id calls = true ↔
    ∃ n < calls, ∃ c, s.store.calls (id, n) = some c ∧ c.put = true := by
  simp only [hasPut, List.any_eq_true, List.mem_range, Option.any_eq_true]
  rfl

def Deleting (s : Service κ) (id : κ) (n : Nat) (threadId : String) : Prop :=
  (s.requests id = some (.closing threadId) ∧ n = 1) ∨
    ∃ staleIds, s.requests id = some (.sweeping n threadId staleIds)

theorem Deleting.of_closing {n : Nat} {other threadId : String} (deleting : s.Deleting id n threadId)
    (request : s.requests id = some (.closing other)) : other = threadId ∧ n = 1 := by
  rcases deleting with ⟨closes, rfl⟩ | ⟨staleIds, sweeps⟩
  · rw [request] at closes
    cases closes
    exact ⟨rfl, rfl⟩
  · rw [request] at sweeps
    cases sweeps

theorem Deleting.of_sweeping {n calls : Nat} {other threadId : String} {staleIds : List String}
    (deleting : s.Deleting id n threadId) (request : s.requests id = some (.sweeping calls other staleIds)) :
    other = threadId ∧ n = calls := by
  rcases deleting with ⟨closes, -⟩ | ⟨_, sweeps⟩
  · rw [request] at closes
    cases closes
  · rw [request] at sweeps
    cases sweeps
    exact ⟨rfl, rfl⟩

variable [DecidableEq κ]

theorem startCall_called {n : Nat} {operation : Operation}
    (started : s.startCall (id, n) operation = some t) :
    t.store.calls (id, n) = some { operation } := by
  obtain ⟨-, rfl⟩ := startCall_some started
  exact s.store.setCall_self (id, n) { operation }

structure Moves (s s' : Service κ) (id : κ) (q : Request) : Prop where
  requests : s'.requests = Function.update s.requests id (some q)
  connection : s'.store.connection = s.store.connection
  kept : ∀ call c, s.store.calls call = some c → s'.store.calls call = some c
  begun : ∀ call c, s'.store.calls call = some c →
    s.store.calls call = some c ∨ call.1 = id ∧ c = { operation := c.operation }
  seen : s.seen ⊆ s'.seen

theorem Moves.setRequest (s : Service κ) (id : κ) (q : Request) : Moves s (s.setRequest id q) id q :=
  ⟨rfl, rfl, fun _ _ called => called, fun _ _ called => .inl called, List.Subset.refl _⟩

theorem Moves.setGauge (s : Service κ) (activeSessions : Int) (id : κ) (q : Request) :
    Moves s ({ s with activeSessions }.setRequest id q) id q :=
  ⟨rfl, rfl, fun _ _ called => called, fun _ _ called => .inl called, List.Subset.refl _⟩

theorem Moves.ofDec (moves : Moves s.decActiveSessions s' id q) : Moves s s' id q :=
  ⟨moves.requests, moves.connection, moves.kept, moves.begun, moves.seen⟩

theorem Moves.startCall {n : Nat} {operation : Operation}
    (started : s.startCall (id, n) operation = some t) (q : Request) :
    Moves s (t.setRequest id q) id q := by
  obtain ⟨fresh, rfl⟩ := startCall_some started
  refine ⟨rfl, rfl, fun call c called => ?_, fun call c called => ?_, List.Subset.refl _⟩
  · have apart : call ≠ (id, n) := by
      rintro rfl
      rw [fresh] at called
      cases called
    exact (s.store.setCall_other apart _).trans called
  · by_cases same : call = (id, n)
    · subst same
      have begun := (s.store.setCall_self (id, n) { operation }).symm.trans called
      cases begun
      exact .inr ⟨rfl, rfl⟩
    · exact .inl ((s.store.setCall_other same _).symm.trans called)

theorem Moves.named (moves : Moves s s' id q) (threadId : String) :
    Moves s { s' with seen := threadId :: s.seen } id q :=
  ⟨moves.requests, moves.connection, moves.kept, moves.begun, List.subset_cons_self _ _⟩

theorem startCall_begun {n : Nat} {operation : Operation}
    (started : s.startCall (id, n) operation = some t) {m : Nat} {c : SaverCall}
    (called : t.store.calls (id, m) = some c) :
    (m = n ∧ c = { operation }) ∨ s.store.calls (id, m) = some c := by
  obtain ⟨-, rfl⟩ := startCall_some started
  by_cases same : m = n
  · subst same
    have begun := (s.store.setCall_self (id, m) { operation }).symm.trans called
    exact .inl ⟨rfl, (Option.some.inj begun).symm⟩
  · exact .inr ((s.store.setCall_other (by simp [same]) { operation }).symm.trans called)

theorem Moves.request (moves : Moves s s' id q) : s'.requests id = some q := by
  rw [moves.requests, Function.update_self]

theorem Moves.request_other (moves : Moves s s' id q) {id' : κ} (apart : id' ≠ id) :
    s'.requests id' = s.requests id' := by
  rw [moves.requests, Function.update_of_ne apart]

theorem Moves.call_other (moves : Moves s s' id q) {id' : κ} (apart : id' ≠ id) (n : Nat) :
    s'.store.calls (id', n) = s.store.calls (id', n) := by
  cases before : s.store.calls (id', n) with
  | some c => exact moves.kept _ c before
  | none =>
      by_contra begun
      obtain ⟨c, called⟩ := Option.ne_none_iff_exists'.mp begun
      rcases moves.begun _ c called with same | ⟨same, -⟩
      · rw [before] at same
        cases same
      · exact apart same

theorem Moves.tables (moves : Moves s s' id q) : s'.store.tables = s.store.tables := by
  rw [Store.tables, Store.tables, moves.connection]

theorem Moves.durable (moves : Moves s s' id q) : s'.store.durable = s.store.durable := by
  rw [Store.durable, Store.durable, moves.connection]

theorem saverCall_hasPut {operation : Operation} {calls : Nat}
    (started : s.startCall (id, calls) operation = some t) (q : Request) :
    (t.setRequest id q).hasPut id (calls + 1) = s.hasPut id calls := by
  have moves := Moves.startCall started q
  rw [Bool.eq_iff_iff, hasPut_iff, hasPut_iff]
  constructor
  · intro has
    obtain ⟨n, within, c, called, put⟩ := has
    rcases startCall_begun started called with ⟨-, rfl⟩ | before
    · simp [SaverCall.put] at put
    · have fresh := (startCall_some started).1
      have apart : n ≠ calls := by
        rintro rfl
        rw [fresh] at before
        cases before
      exact ⟨n, by omega, c, before, put⟩
  · intro has
    obtain ⟨n, within, c, called, put⟩ := has
    exact ⟨n, by omega, c, moves.kept _ c called, put⟩

theorem Owned.moves (owned : s.Owned) (moves : Moves s s' id q)
    (owns : ∀ n c, s'.store.calls (id, n) = some c → c.status = .running → q.Owns n c.operation)
    (named : ∀ threadId ∈ q.names, threadId ∈ s'.seen) : s'.Owned := by
  refine ⟨fun id' n c called running => ?_, fun id' q' request => ?_, fun entry member => ?_,
    fun call c called returned => ?_⟩
  · by_cases same : id' = id
    · subst same
      exact ⟨q, moves.request, owns n c called running⟩
    · rcases moves.begun _ _ called with before | ⟨new, -⟩
      · rw [moves.request_other same]
        exact owned.owner id' n c before running
      · exact absurd new same
  · by_cases same : id' = id
    · subst same
      rw [moves.request] at request
      cases request
      exact named
    · rw [moves.request_other same] at request
      exact fun threadId member => moves.seen (owned.named id' q' request threadId member)
  · rw [moves.connection] at member
    exact moves.seen (owned.known entry member)
  · rcases moves.begun call c called with before | ⟨-, begun⟩
    · exact owned.complete call c before returned
    · rw [begun] at returned
      cases returned

theorem Owned.starts (owned : s.Owned) (idle : s.Idle id) {n : Nat} {operation : Operation}
    (started : s.startCall (id, n) operation = some t) (owns : q.Owns n operation)
    (named : ∀ threadId ∈ q.names, threadId ∈ s.seen) : (t.setRequest id q).Owned := by
  have moves := Moves.startCall started q
  refine owned.moves moves (fun m c called running => ?_) fun threadId member =>
    moves.seen (named threadId member)
  rcases startCall_begun started called with ⟨rfl, rfl⟩ | before
  · exact owns
  · exact absurd running (idle m c before)

theorem Owned.stays (owned : s.Owned) (idle : s.Idle id)
    (named : ∀ threadId ∈ q.names, threadId ∈ s.seen) : (s.setRequest id q).Owned :=
  owned.moves (.setRequest s id q) (fun n c called running => absurd running (idle n c called)) named

theorem Owned.arrives (owned : s.Owned) (free : s.requests id = none) {operation : Operation}
    (started : s.startCall (id, 0) operation = some t) (owns : q.Owns 0 operation)
    (named : q.names = [threadId]) :
    ({ t.setRequest id q with seen := threadId :: s.seen } : Service κ).Owned := by
  have moves := (Moves.startCall started q).named threadId
  refine owned.moves moves (fun m c called running => ?_) fun threadId' member => ?_
  · rcases startCall_begun started called with ⟨rfl, rfl⟩ | before
    · exact owns
    · exact absurd running (owned.idle_free free m c before)
  · rw [named, List.mem_singleton] at member
    rw [member]
    exact List.mem_cons_self

theorem sweepNext_some {calls : Nat} {staleIds : List String}
    (next : s.sweepNext id calls staleIds = some s') :
    (s' = s.setRequest id .finished) ∨ ∃ threadId rest t, staleIds = threadId :: rest ∧
      s.startCall (id, calls) (.adeleteThread threadId) = some t ∧
      s' = t.setRequest id (.sweeping calls threadId rest) := by
  cases staleIds with
  | nil => cases next; exact .inl rfl
  | cons threadId rest =>
      obtain ⟨t, started, rfl⟩ := Option.map_eq_some_iff.mp next
      exact .inr ⟨threadId, rest, t, rfl, started, rfl⟩

theorem Owned.sweepNext (owned : s.Owned) (idle : s.Idle id) {calls : Nat} {staleIds : List String}
    (named : ∀ threadId ∈ staleIds, threadId ∈ s.seen)
    (next : s.sweepNext id calls staleIds = some s') : s'.Owned := by
  rcases sweepNext_some next with rfl | ⟨threadId, rest, t, rfl, started, rfl⟩
  · exact owned.stays idle (by simp [Request.names])
  · exact owned.starts idle started ⟨rfl, rfl⟩ named

omit [DecidableEq κ] in
theorem Owned.decActiveSessions (owned : s.Owned) : s.decActiveSessions.Owned :=
  ⟨owned.owner, owned.named, owned.known, owned.complete⟩

theorem Owned.store (owned : s.Owned) {e : StoreEvent (κ × Nat)} {store : Store (κ × Nat)}
    (goesOn : ∀ call operation, e ≠ .call call operation) (steps : Store.Steps s.store e store) :
    ({ s with store } : Service κ).Owned := by
  have known {call : κ × Nat} {c : SaverCall} {a : Action} (called : s.store.calls call = some c)
      (running : c.status = .running) (next : c.next = some a) :
      ∀ entry ∈ (s.store.act call a).journal, entry.2.threadId ∈ s.seen := by
    intro entry member
    cases a with
    | select threadId => exact owned.known entry member
    | commit =>
        rw [Store.act, Connection.commit_journal] at member
        exact owned.known entry member
    | execute statement =>
        rw [Store.act, Connection.execute_journal, List.mem_append, List.mem_singleton] at member
        rcases member with before | rfl
        · exact owned.known entry before
        · obtain ⟨q, request, owns⟩ := owned.owner call.1 call.2 c called running
          have among : statement ∈ c.operation.statements :=
            List.mem_filterMap.mpr ⟨_, List.mem_of_getElem? next, rfl⟩
          rw [Operation.statement_threadId among]
          exact owned.named call.1 q request _ owns.names
  refine ⟨fun id n d called running => ?_, owned.named, ?_, ?_⟩
  · rcases steps.running_before called running with began | ⟨c, before, busy, same⟩
    · exact absurd began (goesOn _ _)
    · obtain ⟨q, request, owns⟩ := owned.owner id n c before busy
      exact ⟨q, request, same ▸ owns⟩
  · cases steps with
    | call call operation => exact absurd rfl (goesOn call operation)
    | returns call c a called running next => exact known called running next
    | raisesAfter call c a called running next => exact known called running next
    | raisesBefore call c a called running next => exact owned.known
  · have others {store' : Store (κ × Nat)} {call : κ × Nat} {d : SaverCall}
        (same : store'.calls = s.store.calls)
        (whole : d.status = .returned → d.done = d.operation.program.length) :
        ∀ call' c, (store'.setCall call d).calls call' = some c → c.status = .returned →
          c.done = c.operation.program.length := by
      intro call' c called returned
      by_cases this : call' = call
      · subst this
        rw [Store.setCall_self] at called
        cases called
        exact whole returned
      · rw [Store.setCall_other _ this, same] at called
        exact owned.complete call' c called returned
    cases steps with
    | call call operation => exact absurd rfl (goesOn call operation)
    | returns call c a called running next =>
        refine others rfl fun returned => ?_
        by_contra short
        simp [SaverCall.advance, show c.done + 1 ≠ c.operation.program.length from short] at returned
    | raisesAfter call c a called running next => exact others rfl (by simp)
    | raisesBefore call c a called running next => exact others rfl (by simp)

/-- A step in which an await of a running call is answered. It took the action or it took none. -/
structure Acts (s s' : Service κ) (e : ServiceEvent κ) (id : κ) (n : Nat) (c d : SaverCall)
    (took : Option Action) : Prop where
  requests : s'.requests = s.requests
  activeSessions : s'.activeSessions = s.activeSessions
  seen : s'.seen = s.seen
  called : s.store.calls (id, n) = some c
  running : c.status = .running
  calls : s'.store.calls = Function.update s.store.calls (id, n) (some d)
  operation : d.operation = c.operation
  next : ∀ a, took = some a → c.next = some a
  done : d.done = c.done + took.toList.length
  found : d.found = took.elim c.found fun a => (c.advance s.store.tables a).found
  connection : s'.store.connection = took.elim s.store.connection (s.store.act (id, n))
  answered : (e = .returns (id, n) ∧ took.isSome = true ∧ d.status ≠ .raised) ∨
    (e = .raises (id, n) took.isSome ∧ d.status = .raised)

theorem acts_of_returns {call : κ × Nat} {store : Store (κ × Nat)}
    (returned : s.store.step (.returns call) = some store) :
    ∃ id n c d took, Acts s { s with store } (.returns call) id n c d took := by
  cases Store.step_steps returned with
  | returns _ c a called running next =>
      refine ⟨call.1, call.2, c, c.advance s.store.tables a, some a, rfl, rfl, rfl, called, running,
        rfl, rfl, fun b same => (by cases same; exact next), rfl, rfl, rfl, .inl ⟨rfl, rfl, ?_⟩⟩
      simp only [SaverCall.advance]
      split <;> simp

theorem acts_of_raises {call : κ × Nat} {tookEffect : Bool} {store : Store (κ × Nat)}
    (raised : s.store.step (.raises call tookEffect) = some store) :
    ∃ id n c d took, Acts s { s with store } (.raises call tookEffect) id n c d took := by
  cases Store.step_steps raised with
  | raisesAfter _ c a called running next =>
      exact ⟨call.1, call.2, c, _, some a, rfl, rfl, rfl, called, running, rfl, rfl,
        fun b same => (by cases same; exact next), rfl, rfl, rfl, .inr ⟨rfl, rfl⟩⟩
  | raisesBefore _ c a called running next =>
      exact ⟨call.1, call.2, c, _, none, rfl, rfl, rfl, called, running, rfl, rfl,
        fun b same => (by cases same), rfl, rfl, rfl, .inr ⟨rfl, rfl⟩⟩

section
variable {e : ServiceEvent κ} {n : Nat} {c d : SaverCall} {took : Option Action}

theorem Acts.tables (acts : Acts s s' e id n c d took) :
    s'.store.tables = (took.bind Action.statement).elim s.store.tables fun statement =>
      statement.apply s.store.tables := by
  rw [Store.tables, acts.connection]
  cases took with
  | none => rfl
  | some a => exact s.store.tables_act (id, n) a

theorem Acts.call_self (acts : Acts s s' e id n c d took) : s'.store.calls (id, n) = some d := by
  rw [acts.calls, Function.update_self]

theorem Acts.call_other (acts : Acts s s' e id n c d took) {call : κ × Nat} (apart : call ≠ (id, n)) :
    s'.store.calls call = s.store.calls call := by
  rw [acts.calls, Function.update_of_ne apart]

theorem Acts.hasPut_mono (acts : Acts s s' e id n c d took) {id' : κ} {calls : Nat}
    (put : s.hasPut id' calls = true) : s'.hasPut id' calls = true := by
  obtain ⟨m, within, b, called, put⟩ := hasPut_iff.mp put
  apply hasPut_iff.mpr
  by_cases same : (id', m) = (id, n)
  · refine ⟨m, within, d, by rw [same]; exact acts.call_self, ?_⟩
    rw [same, acts.called] at called
    cases called
    simp only [SaverCall.put, acts.operation, acts.done, Bool.and_eq_true, decide_eq_true_eq] at put ⊢
    exact ⟨put.1, by omega⟩
  · exact ⟨m, within, b, (acts.call_other same).trans called, put⟩

theorem Acts.hasPut_same (acts : Acts s s' e id n c d took) (put : d.put = c.put) (id' : κ)
    (calls : Nat) :
    s'.hasPut id' calls = s.hasPut id' calls := by
  rw [Bool.eq_iff_iff]
  refine ⟨fun has => ?_, acts.hasPut_mono⟩
  obtain ⟨m, within, b, called, has⟩ := hasPut_iff.mp has
  apply hasPut_iff.mpr
  by_cases same : (id', m) = (id, n)
  · rw [same, acts.call_self] at called
    cases called
    exact ⟨m, within, c, by rw [same]; exact acts.called, put ▸ has⟩
  · exact ⟨m, within, b, (acts.call_other same).symm.trans called, has⟩

theorem Acts.checkpoints (acts : Acts s s' e id n c d took) :
    (∃ threadId nowUnix, c.operation = .aput threadId nowUnix ∧ c.done = 0 ∧
      took = some (.execute (.insertCheckpoint threadId)) ∧
      s'.store.tables.checkpoints = insert threadId s.store.tables.checkpoints) ∨
    (∃ threadId, c.operation = .adeleteThread threadId ∧ c.done = 0 ∧
      took = some (.execute (.deleteCheckpoints threadId)) ∧
      s'.store.tables.checkpoints = s.store.tables.checkpoints.erase threadId) ∨
    (s'.store.tables.checkpoints = s.store.tables.checkpoints ∧ (took.isSome = true → c.done = 0 →
      c.operation.isPut = false ∧ c.operation.deletes = false)) := by
  rw [acts.tables]
  cases took with
  | none => exact .inr (.inr ⟨rfl, fun took => by cases took⟩)
  | some a =>
      have next := acts.next a rfl
      cases a with
      | select threadId =>
          refine .inr (.inr ⟨rfl, fun _ first => ?_⟩)
          cases operation : c.operation <;>
            simp [SaverCall.next, first, operation, Operation.program] at next <;>
            exact ⟨rfl, rfl⟩
      | commit =>
          refine .inr (.inr ⟨rfl, fun _ first => ?_⟩)
          cases operation : c.operation <;>
            simp [SaverCall.next, first, operation, Operation.program] at next
      | execute statement =>
          rcases SaverCall.next_execute next with ⟨threadId, nowUnix, put, first, rfl⟩ |
            ⟨threadId, nowUnix, put, -, rfl⟩ | ⟨threadId, nowUnix, -, -, later, rfl⟩ |
            ⟨threadId, deletion, sent⟩
          · exact .inl ⟨threadId, nowUnix, put, first, rfl, rfl⟩
          · exact .inr (.inr ⟨rfl, fun _ _ => by rw [put]; exact ⟨rfl, rfl⟩⟩)
          · exact .inr (.inr ⟨rfl, fun _ first => absurd first later⟩)
          · rcases done : c.done with _ | _ | _ | m <;> rw [done] at sent <;> cases sent
            · exact .inr (.inl ⟨threadId, deletion, rfl, rfl, rfl⟩)
            · exact .inr (.inr ⟨rfl, fun _ first => by cases first⟩)
            · exact .inr (.inr ⟨rfl, fun _ first => by cases first⟩)

theorem Acts.put_same (acts : Acts s s' e id n c d took)
    (later : took.isSome = true → c.done = 0 → c.operation.isPut = false) : d.put = c.put := by
  simp only [SaverCall.put, acts.operation, acts.done]
  cases took with
  | none => rfl
  | some a =>
      by_cases first : c.done = 0
      · simp [later rfl first]
      · have started : 1 ≤ c.done := Nat.one_le_iff_ne_zero.mpr first
        simp [started]

end

omit [DecidableEq κ] in
theorem Owned.tracked_seen (owned : s.Owned) {threadId : String}
    (tracked : threadId ∈ s.store.tables.brainstormMeta) : threadId ∈ s.seen := by
  obtain ⟨entry, member, nowUnix, statement⟩ :=
    (Effect.tracked threadId).inJournal_mem ((Store.mem_brainstormMeta _ _).mp tracked)
  have known := owned.known entry member
  rwa [statement] at known

omit [DecidableEq κ] in
theorem Owned.stored_seen (owned : s.Owned) {threadId : String}
    (stored : threadId ∈ s.store.tables.checkpoints) : threadId ∈ s.seen := by
  obtain ⟨entry, member, statement⟩ :=
    (Effect.stored threadId).inJournal_mem ((Store.mem_checkpoints _ _).mp stored)
  have known := owned.known entry member
  rwa [statement] at known

omit [DecidableEq κ] in
theorem Owned.initial : ({} : Service κ).Owned :=
  ⟨fun id n c called => (by cases called), fun id q request => (by cases request),
    fun entry member => (by cases member), fun call c called => (by cases called)⟩

theorem Owned.step (owned : s.Owned) {e : ServiceEvent κ} (taken : s.step e = some s') :
    s'.Owned := by
  cases step_steps taken with
  | turn id threadId nowUnix t free started =>
      exact owned.arrives free started ⟨rfl, nowUnix, rfl⟩ rfl
  | newTurn id threadId free fresh =>
      have moves := (Moves.setRequest s id (.streaming threadId true 0)).named threadId
      refine owned.moves moves (fun n c called running => ?_) fun threadId' member => ?_
      · exact absurd running (owned.idle_free free n c called)
      · rw [List.mem_singleton.mp member]
        exact List.mem_cons_self
  | done id threadId nowUnix t free started =>
      exact owned.arrives free started ⟨rfl, nowUnix, rfl⟩ rfl
  | tick id nowUnix thresholdSec staleIds _ free listed next =>
      refine owned.sweepNext (owned.idle_free free) (fun threadId member => ?_) next
      obtain ⟨lastTouched, row, -⟩ := MetaTable.mem_listStale.mp (listed.subset member)
      apply owned.tracked_seen
      rw [← AList.lookup_isSome, row]
      rfl
  | saverCall id operation isNewSession calls t streams keeps ordered started =>
      have moves :=
        Moves.startCall started (.streaming operation.threadId isNewSession (calls + 1))
      refine owned.moves moves (fun n c called running => ?_) fun threadId member =>
        moves.seen (owned.named id _ streams threadId member)
      rcases startCall_begun started called with ⟨rfl, rfl⟩ | before
      · exact ⟨Nat.lt_succ_self n, rfl, keeps⟩
      · obtain ⟨q, request, owns⟩ := owned.owner id n c before running
        rw [streams] at request
        cases request
        exact ⟨Nat.lt_succ_of_lt owns.1, owns.2⟩
  | returns call store returned =>
      exact owned.store (by simp) (Store.step_steps returned)
  | raises call tookEffect store raised =>
      exact owned.store (by simp) (Store.step_steps raised)
  | accepted id threadId c looking called returned found =>
      have idle := owned.idle_awaited looking (fun n _ owns => owns.1) called (by simp [returned])
      have named := owned.named id _ looking
      exact owned.stays idle named
  | refused id threadId c waits called ended =>
      have idle : s.Idle id := by
        rcases waits with waits | waits
        · exact owned.idle_awaited waits (fun n _ owns => owns.1) called ended
        · exact owned.idle_awaited waits (fun n _ owns => owns.1) called ended
      exact owned.stays idle (by simp [Request.names])
  | confirmed id threadId c t checks called returned found started =>
      have idle := owned.idle_awaited checks (fun n _ owns => owns.1) called (by simp [returned])
      have named := owned.named id _ checks
      exact owned.starts idle started ⟨rfl, rfl⟩ named
  | missing id threadId c checks called returned unfound =>
      have idle := owned.idle_awaited checks (fun n _ owns => owns.1) called (by simp [returned])
      have named := owned.named id _ checks
      exact owned.stays idle named
  | closed id threadId c closes called returned =>
      have idle := owned.idle_awaited closes (fun n _ owns => owns.1) called (by simp [returned])
      have named := owned.named id _ closes
      exact owned.decActiveSessions.stays idle named
  | swallowed id threadId c closes called raised =>
      have idle := owned.idle_awaited closes (fun n _ owns => owns.1) called (by simp [raised])
      have named := owned.named id _ closes
      exact owned.stays idle named
  | swept id calls threadId staleIds c _ sweeps called returned next =>
      have idle := owned.idle_awaited sweeps (fun n _ owns => owns.1) called (by simp [returned])
      exact owned.decActiveSessions.sweepNext idle
        (fun threadId member => owned.named id _ sweeps threadId (.tail _ member)) next
  | sweepError id calls threadId staleIds c _ sweeps called raised next =>
      have idle := owned.idle_awaited sweeps (fun n _ owns => owns.1) called (by simp [raised])
      exact owned.sweepNext idle
        (fun threadId member => owned.named id _ sweeps threadId (.tail _ member)) next
  | finish id threadId isNewSession succeeded calls streams settled put =>
      have idle := owned.idle_settled streams settled
      exact owned.moves (.setGauge s _ id .finished)
        (fun n c called running => absurd running (idle n c called)) (by simp [Request.names])
  | restart =>
      refine ⟨fun id n c called => (by cases called), fun id q request => (by cases request), ?_,
        fun call c called => (by cases called)⟩
      intro entry member
      apply owned.known
      rw [Connection.rollback_journal] at member
      exact List.mem_append_left _ member

end

end Service

end DecisionMaker.Server
