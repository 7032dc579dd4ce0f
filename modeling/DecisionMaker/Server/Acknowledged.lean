import DecisionMaker.Server.Ownership
import Mathlib.Data.Fintype.Basic

namespace DecisionMaker.Server

open Library

def Tables.Absent (t : Tables) (threadId : String) : Prop :=
  threadId ∉ t.checkpoints ∧ threadId ∉ t.writes

instance (t : Tables) (threadId : String) : Decidable (t.Absent threadId) :=
  inferInstanceAs (Decidable (threadId ∉ t.checkpoints ∧ threadId ∉ t.writes))

theorem Tables.Absent.apply {t : Tables} {threadId : String} (absent : t.Absent threadId)
    {statement : Statement} (noCheckpoint : statement ≠ .insertCheckpoint threadId)
    (noWrites : statement ≠ .insertWrites threadId) : (statement.apply t).Absent threadId := by
  cases statement with
  | insertCheckpoint other =>
      refine ⟨fun stored => ?_, absent.2⟩
      rcases Finset.mem_insert.mp stored with rfl | before
      · exact noCheckpoint rfl
      · exact absent.1 before
  | insertWrites other =>
      refine ⟨absent.1, fun stored => ?_⟩
      rcases Finset.mem_insert.mp stored with rfl | before
      · exact noWrites rfl
      · exact absent.2 before
  | replaceMeta other lastTouched | deleteMeta other => exact absent
  | deleteCheckpoints other => exact ⟨fun stored => absent.1 (Finset.mem_of_mem_erase stored), absent.2⟩
  | deleteWrites other => exact ⟨absent.1, fun stored => absent.2 (Finset.mem_of_mem_erase stored)⟩

theorem Statement.apply_other (t : Tables) {statement : Statement} {threadId : String}
    (other : statement.threadId ≠ threadId) :
    (threadId ∈ (statement.apply t).checkpoints ↔ threadId ∈ t.checkpoints) ∧
      (threadId ∈ (statement.apply t).writes ↔ threadId ∈ t.writes) := by
  cases statement <;> simp only [Statement.threadId] at other <;>
    simp [Statement.apply, Ne.symm other]

namespace Service
variable {κ : Type} {s s' t : Service κ} {id : κ} {q : Request} {threadId : String}

/-- The thread of a turn that has been let in: it has found its session or it has drawn it. -/
def accepted (s : Service κ) (id : κ) : Option String :=
  match s.requests id with
  | some (.streaming threadId _ _) => some threadId
  | some (.lookingUp threadId) => if (s.store.calls (id, 0)).any SaverCall.found then some threadId else none
  | _ => none

def closing (s : Service κ) (id : κ) : Option String :=
  match s.requests id with
  | some (.checking threadId) | some (.closing threadId) | some (.sweeping _ threadId _) => some threadId
  | _ => none

/-- Whoever deletes the thread has it to itself. -/
def Alone (s : Service κ) (threadId : String) : Prop :=
  ∀ id, s.closing id = some threadId → ∀ id', id' ≠ id →
    s.closing id' ≠ some threadId ∧ s.accepted id' ≠ some threadId

def Undisturbed (threadId : String) (s : Service κ) (e : ServiceEvent κ) : Prop :=
  s.Alone threadId ∧
    match e with
    -- its deletions do not fail
    | .raises call _ => ∀ c ∈ s.store.calls call, c.operation ≠ .adeleteThread threadId
    -- the process is not killed while it is being deleted
    | .restart => ∀ id, s.closing id ≠ some threadId
    | _ => True

instance [Fintype κ] [DecidableEq κ] (s : Service κ) (threadId : String) : Decidable (s.Alone threadId) :=
  inferInstanceAs (Decidable (∀ id, s.closing id = some threadId → ∀ id', id' ≠ id →
    s.closing id' ≠ some threadId ∧ s.accepted id' ≠ some threadId))

instance [Fintype κ] [DecidableEq κ] (threadId : String) (s : Service κ) :
    ∀ e, Decidable (s.Undisturbed threadId e)
  | .raises call _ => inferInstanceAs (Decidable
      (s.Alone threadId ∧ ∀ c ∈ s.store.calls call, c.operation ≠ .adeleteThread threadId))
  | .restart => inferInstanceAs (Decidable (s.Alone threadId ∧ ∀ id, s.closing id ≠ some threadId))
  | .turn _ _ _ | .newTurn _ _ | .done _ _ _ | .tick _ _ _ _ | .saverCall _ _ | .returns _
  | .resume _ | .finish _ _ => inferInstanceAs (Decidable (s.Alone threadId ∧ True))

structure Gone (s : Service κ) (threadId : String) : Prop where
  tables : s.store.tables.Absent threadId
  durable : s.store.durable.Absent threadId
  seen : threadId ∈ s.seen
  shut : ∀ id, s.accepted id ≠ some threadId

theorem accepted_streaming {isNewSession : Bool} {calls : Nat}
    (streams : s.requests id = some (.streaming threadId isNewSession calls)) :
    s.accepted id = some threadId := by
  simp [accepted, streams]

theorem accepted_lookingUp {c : SaverCall} (looking : s.requests id = some (.lookingUp threadId))
    (called : s.store.calls (id, 0) = some c) (found : c.found = true) :
    s.accepted id = some threadId := by
  simp [accepted, looking, called, found]

theorem accepted_eq_some (accepted : s.accepted id = some threadId) :
    (∃ isNewSession calls, s.requests id = some (.streaming threadId isNewSession calls)) ∨
      s.requests id = some (.lookingUp threadId) ∧
        ∃ c, s.store.calls (id, 0) = some c ∧ c.found = true := by
  unfold Service.accepted at accepted
  split at accepted
  · rename_i threadId' isNewSession calls streams
    cases accepted
    exact .inl ⟨isNewSession, calls, streams⟩
  · rename_i threadId' looking
    split at accepted
    · rename_i found
      cases accepted
      exact .inr ⟨looking, (Option.any_eq_true _ _).mp found⟩
    · cases accepted
  · cases accepted

theorem accepted_congr (request : s'.requests id = s.requests id)
    (calls : ∀ n, s'.store.calls (id, n) = s.store.calls (id, n)) : s'.accepted id = s.accepted id := by
  simp only [accepted, request, calls]

variable [DecidableEq κ]

section
variable {e : ServiceEvent κ} {n : Nat} {c d : SaverCall} {took : Option Action}

theorem Acts.durable (acts : Acts s s' e id n c d took) :
    s'.store.durable = if took = some .commit then s'.store.tables else s.store.durable := by
  rw [Store.durable, Store.durable, acts.connection]
  cases took with
  | none => rfl
  | some a =>
      cases a with
      | select threadId | execute statement => rfl
      | commit =>
          rw [if_pos rfl, acts.tables]
          rfl

omit [DecidableEq κ] in
theorem Owned.streams (owned : s.Owned) (called : s.store.calls (id, n) = some c)
    (running : c.status = .running)
    (puts : c.operation.isPut = true ∨ c.operation.isPutWrites = true) :
    ∃ isNewSession calls, n < calls ∧
      s.requests id = some (.streaming c.operation.threadId isNewSession calls) := by
  obtain ⟨q, request, owns⟩ := owned.owner id n c called running
  cases q with
  | lookingUp threadId | checking threadId =>
      obtain ⟨-, nowUnix, operation⟩ := owns
      simp [operation, Operation.isPut, Operation.isPutWrites] at puts
  | streaming threadId isNewSession calls =>
      obtain ⟨within, rfl, -⟩ := owns
      exact ⟨isNewSession, calls, within, request⟩
  | closing threadId | sweeping calls threadId staleIds =>
      simp [owns.2, Operation.isPut, Operation.isPutWrites] at puts
  | acknowledged threadId | finished => exact owns.elim

omit [DecidableEq κ] in
theorem Owned.deletes (owned : s.Owned) (called : s.store.calls (id, n) = some c)
    (running : c.status = .running) (deletion : c.operation = .adeleteThread threadId) :
    s.Deleting id n threadId := by
  obtain ⟨q, request, owns⟩ := owned.owner id n c called running
  cases q with
  | lookingUp | checking =>
      obtain ⟨-, nowUnix, operation⟩ := owns
      rw [operation] at deletion
      cases deletion
  | streaming =>
      have keeps := owns.2.2
      rw [deletion] at keeps
      cases keeps
  | closing =>
      obtain ⟨first, operation⟩ := owns
      rw [operation] at deletion
      cases deletion
      exact .inl ⟨request, first⟩
  | sweeping calls _ staleIds =>
      obtain ⟨rfl, operation⟩ := owns
      rw [operation] at deletion
      cases deletion
      exact .inr ⟨staleIds, request⟩
  | acknowledged | finished => exact owns.elim

theorem Acts.effect (owned : s.Owned) (acts : Acts s s' e id n c d took) (threadId : String) :
    ((threadId ∈ s'.store.tables.checkpoints ↔ threadId ∈ s.store.tables.checkpoints) ∧
      (threadId ∈ s'.store.tables.writes ↔ threadId ∈ s.store.tables.writes)) ∨
    (∃ isNewSession calls, s.requests id = some (.streaming threadId isNewSession calls) ∧ n < calls ∧
      took ≠ some .commit ∧
      ((d.put = true ∧ threadId ∈ s'.store.tables.checkpoints) ∨
        (c.operation.isPutWrites = true ∧
          (threadId ∈ s'.store.tables.checkpoints ↔ threadId ∈ s.store.tables.checkpoints)))) ∨
    (s.Deleting id n threadId ∧
      (threadId ∈ s'.store.tables.checkpoints → threadId ∈ s.store.tables.checkpoints) ∧
      (threadId ∈ s'.store.tables.writes → threadId ∈ s.store.tables.writes)) := by
  rw [acts.tables]
  match took, acts with
  | none, _ | some (.select _), _ | some .commit, _ => exact .inl ⟨Iff.rfl, Iff.rfl⟩
  | some (.execute statement), acts =>
      by_cases same : statement.threadId = threadId
      swap
      · exact .inl (statement.apply_other _ same)
      rcases SaverCall.next_execute (acts.next _ rfl) with ⟨threadId', nowUnix, operation, -, rfl⟩ |
        ⟨threadId', nowUnix, operation, -, rfl⟩ | ⟨threadId', nowUnix, -, -, -, rfl⟩ |
        ⟨threadId', operation, sent⟩
      · obtain rfl : threadId' = threadId := same
        obtain ⟨isNewSession, calls, within, streams⟩ :=
          owned.streams acts.called acts.running (.inl (by rw [operation]; rfl))
        rw [operation] at streams
        have put : d.put = true := by
          simp [SaverCall.put, acts.operation, operation, acts.done, Operation.isPut]
        exact .inr (.inl ⟨isNewSession, calls, streams, within, by simp,
          .inl ⟨put, Finset.mem_insert_self _ _⟩⟩)
      · obtain rfl : threadId' = threadId := same
        have writes : c.operation.isPutWrites = true := by rw [operation]; rfl
        obtain ⟨isNewSession, calls, within, streams⟩ :=
          owned.streams acts.called acts.running (.inr writes)
        rw [operation] at streams
        exact .inr (.inl ⟨isNewSession, calls, streams, within, by simp, .inr ⟨writes, Iff.rfl⟩⟩)
      · exact .inl ⟨Iff.rfl, Iff.rfl⟩
      · have member := List.mem_of_getElem? sent
        have among : statement ∈ c.operation.statements := by
          rw [operation]
          exact member
        obtain rfl : threadId' = threadId := by
          rw [← same, Operation.statement_threadId among, operation]
          rfl
        refine .inr (.inr ⟨owned.deletes acts.called acts.running operation, ?_⟩)
        simp only [deletions, List.mem_cons, List.not_mem_nil, or_false] at member
        rcases member with rfl | rfl | rfl
        · exact ⟨Finset.mem_of_mem_erase, fun stored => stored⟩
        · exact ⟨fun stored => stored, Finset.mem_of_mem_erase⟩
        · exact ⟨fun stored => stored, fun stored => stored⟩

theorem Acts.reads (acts : Acts s s' e id n c d took) {nowUnix : Int}
    (operation : c.operation = .agetTuple threadId nowUnix) :
    (d.found = c.found ∧ (1 ≤ d.done → 1 ≤ c.done)) ∨
      d.found = decide (threadId ∈ s.store.tables.checkpoints) := by
  rw [acts.found, acts.done]
  cases took with
  | none => exact .inl ⟨rfl, fun some => some⟩
  | some a =>
      have next := acts.next a rfl
      rw [SaverCall.next, operation] at next
      cases done : c.done with
      | zero =>
          rw [done] at next
          cases next
          exact .inr rfl
      | succ m =>
          rw [done] at next
          have touched : a ∈ touchIfNamed threadId nowUnix := List.mem_of_getElem? next
          refine .inl ⟨?_, fun _ => Nat.succ_pos m⟩
          cases a with
          | select other =>
              unfold touchIfNamed at touched
              split at touched <;> simp [touch] at touched
          | execute statement | commit => rfl

theorem Gone.acts (owned : s.Owned) (gone : s.Gone threadId) (acts : Acts s s' e id n c d took) :
    s'.Gone threadId := by
  have tables : s'.store.tables.Absent threadId := by
    rcases acts.effect owned threadId with ⟨checkpoints, writes⟩ |
      ⟨isNewSession, calls, streams, -⟩ | ⟨-, checkpoints, writes⟩
    · exact ⟨fun stored => gone.tables.1 (checkpoints.mp stored),
        fun stored => gone.tables.2 (writes.mp stored)⟩
    · exact (gone.shut id (accepted_streaming streams)).elim
    · exact ⟨fun stored => gone.tables.1 (checkpoints stored),
        fun stored => gone.tables.2 (writes stored)⟩
  refine ⟨tables, ?_, acts.seen ▸ gone.seen, fun id' accepted => ?_⟩
  · rw [acts.durable]
    split
    · exact tables
    · exact gone.durable
  · rcases accepted_eq_some accepted with ⟨isNewSession, calls, streams⟩ | ⟨looking, b, called, found⟩
    · exact gone.shut id' (accepted_streaming (acts.requests ▸ streams))
    · rw [acts.requests] at looking
      by_cases same : (id', 0) = (id, n)
      · obtain ⟨rfl, rfl⟩ := Prod.mk.inj same
        rw [acts.call_self] at called
        cases called
        obtain ⟨q, request, owns⟩ := owned.owner id' 0 c acts.called acts.running
        rw [looking] at request
        cases request
        obtain ⟨-, nowUnix, operation⟩ := owns
        rcases acts.reads operation with ⟨before, -⟩ | read
        · exact gone.shut id' (accepted_lookingUp looking acts.called (before ▸ found))
        · rw [found] at read
          exact gone.tables.1 (of_decide_eq_true read.symm)
      · rw [acts.call_other same] at called
        exact gone.shut id' (accepted_lookingUp looking called found)

end

theorem Gone.moves (gone : s.Gone threadId) (moves : Moves s s' id q)
    (shut : s'.accepted id = some threadId → s.accepted id = some threadId) : s'.Gone threadId := by
  refine ⟨moves.tables ▸ gone.tables, moves.durable ▸ gone.durable, moves.seen gone.seen, ?_⟩
  intro id' accepted
  by_cases same : id' = id
  · subst same
    exact gone.shut id' (shut accepted)
  · rw [accepted_congr (moves.request_other same) (moves.call_other same)] at accepted
    exact gone.shut id' accepted

theorem sweepNext_accepted {calls : Nat} {staleIds : List String}
    (next : s.sweepNext id calls staleIds = some s') :
    (∃ q, Moves s s' id q) ∧ s'.accepted id = none := by
  rcases sweepNext_some next with rfl | ⟨threadId, rest, t, rfl, started, rfl⟩
  · exact ⟨⟨_, .setRequest s id .finished⟩, by simp [accepted, setRequest]⟩
  · exact ⟨⟨_, .startCall started _⟩, by simp [accepted, setRequest]⟩

theorem Gone.step (owned : s.Owned) (gone : s.Gone threadId) {e : ServiceEvent κ}
    (taken : s.step e = some s') : s'.Gone threadId := by
  cases step_steps taken with
  | turn id other nowUnix t free started =>
      apply gone.moves ((Moves.startCall started _).named other)
      intro accepted
      have begun := startCall_called started
      simp [Service.accepted, setRequest, begun] at accepted
  | newTurn id other free fresh =>
      apply gone.moves ((Moves.setRequest s id _).named other)
      intro accepted
      simp only [Service.accepted, setRequest, Function.update_self, Option.some.injEq] at accepted
      exact absurd (accepted ▸ gone.seen) fresh
  | done id other nowUnix t free started =>
      apply gone.moves ((Moves.startCall started _).named other)
      simp [accepted, setRequest]
  | tick id nowUnix thresholdSec staleIds _ free listed next =>
      obtain ⟨⟨q, moves⟩, none⟩ := sweepNext_accepted next
      exact gone.moves moves (by simp [none])
  | saverCall id operation isNewSession calls t streams keeps ordered started =>
      apply gone.moves (.startCall started _)
      simp [accepted, setRequest, streams]
  | returns call store returned =>
      obtain ⟨id, n, c, d, took, acts⟩ := acts_of_returns returned
      exact gone.acts owned acts
  | raises call tookEffect store raised =>
      obtain ⟨id, n, c, d, took, acts⟩ := acts_of_raises raised
      exact gone.acts owned acts
  | accepted id other c looking called returned found =>
      apply gone.moves (.setRequest s id _)
      simp [accepted, setRequest, looking, called, found]
  | refused id other c waits called ended =>
      apply gone.moves (.setRequest s id _)
      simp [accepted, setRequest]
  | confirmed id other c t checks called returned found started =>
      apply gone.moves (.startCall started _)
      simp [accepted, setRequest]
  | missing id other c checks called returned unfound =>
      apply gone.moves (.setRequest s id _)
      simp [accepted, setRequest]
  | closed id other c closes called returned =>
      apply gone.moves (.setGauge s _ id _)
      simp [accepted, setRequest]
  | swallowed id other c closes called raised =>
      apply gone.moves (.setRequest s id _)
      simp [accepted, setRequest]
  | swept id calls other staleIds c _ sweeps called returned next =>
      obtain ⟨⟨q, moves⟩, none⟩ := sweepNext_accepted next
      exact gone.moves moves.ofDec (by simp [none])
  | sweepError id calls other staleIds c _ sweeps called raised next =>
      obtain ⟨⟨q, moves⟩, none⟩ := sweepNext_accepted next
      exact gone.moves moves (by simp [none])
  | finish id other isNewSession succeeded calls streams settled put =>
      apply gone.moves (.setGauge s _ id .finished)
      simp [accepted, setRequest]
  | restart =>
      refine ⟨?_, gone.durable, gone.seen, fun id => (by simp [accepted])⟩
      have reopened := gone.durable
      rw [Store.durable, ← Connection.rollback_journal] at reopened
      exact reopened

def Progress (s : Service κ) (threadId : String) (call : κ × Nat) : Prop :=
  ∃ c, s.store.calls call = some c ∧ c.operation = .adeleteThread threadId ∧ c.status ≠ .raised ∧
    (1 ≤ c.done → threadId ∉ s.store.tables.checkpoints) ∧
    (2 ≤ c.done → threadId ∉ s.store.tables.writes) ∧
    (4 ≤ c.done → s.store.durable.Absent threadId)

def Watches (s : Service κ) (threadId : String) (id : κ) : Request → Prop
  | .lookingUp _ => ∀ c, s.store.calls (id, 0) = some c → c.found = true →
      threadId ∈ s.store.tables.checkpoints
  | .streaming _ isNewSession calls =>
      (isNewSession = false ∨ s.hasPut id calls = true → threadId ∈ s.store.tables.checkpoints) ∧
        ∀ n c, n < calls → s.store.calls (id, n) = some c → c.operation.isPutWrites = true →
          isNewSession = false ∨ s.hasPut id calls = true
  | .checking _ => ∀ c, s.store.calls (id, 0) = some c → 1 ≤ c.done → c.found = false →
      threadId ∉ s.store.tables.checkpoints
  | .closing _ => s.Progress threadId (id, 1)
  | .sweeping calls _ _ => s.Progress threadId (id, calls)
  | .acknowledged _ | .finished => True

structure Settled (s : Service κ) (threadId : String) : Prop where
  writes : threadId ∈ s.store.tables.writes → threadId ∈ s.store.tables.checkpoints
  kept : threadId ∈ s.store.durable.checkpoints → threadId ∈ s.store.tables.checkpoints
  durable : threadId ∈ s.store.durable.writes → threadId ∈ s.store.durable.checkpoints

structure Watched (s : Service κ) (threadId : String) : Prop where
  owned : s.Owned
  each : ∀ id q, s.requests id = some q → q.on = some threadId → s.Watches threadId id q
  settled : (∀ id n, ¬ s.Deleting id n threadId) → s.Settled threadId
  acknowledged : ∀ id, s.requests id = some (.acknowledged threadId) → s.Gone threadId

omit [DecidableEq κ] in
theorem Deleting.closing {n : Nat} (deleting : s.Deleting id n threadId) :
    s.closing id = some threadId := by
  rcases deleting with ⟨request, -⟩ | ⟨staleIds, request⟩ <;> simp [Service.closing, request]

omit [DecidableEq κ] in
theorem Deleting.unique {n m : Nat} (one : s.Deleting id n threadId)
    (two : s.Deleting id m threadId) : n = m := by
  rcases one with ⟨one, rfl⟩ | ⟨_, one⟩
  · rcases two with ⟨-, rfl⟩ | ⟨_, two⟩
    · rfl
    · rw [one] at two
      cases two
  · rcases two with ⟨two, -⟩ | ⟨_, two⟩ <;> rw [one] at two <;> cases two
    rfl

section
variable {e : ServiceEvent κ} {n : Nat} {c d : SaverCall} {took : Option Action}

theorem Acts.stored (owned : s.Owned) (acts : Acts s s' e id n c d took)
    (keeps : ¬ s.Deleting id n threadId) (stored : threadId ∈ s.store.tables.checkpoints) :
    threadId ∈ s'.store.tables.checkpoints := by
  rcases acts.effect owned threadId with ⟨same, -⟩ | ⟨_, _, -, -, -, ⟨-, put⟩ | ⟨-, same⟩⟩ | ⟨deletes, -⟩
  · exact same.mpr stored
  · exact put
  · exact same.mpr stored
  · exact (keeps deletes).elim

theorem Acts.same (owned : s.Owned) (acts : Acts s s' e id n c d took)
    (keeps : ¬ s.Deleting id n threadId)
    (shut : ∀ isNewSession calls, s.requests id ≠ some (.streaming threadId isNewSession calls)) :
    (threadId ∈ s'.store.tables.checkpoints ↔ threadId ∈ s.store.tables.checkpoints) ∧
      (threadId ∈ s'.store.tables.writes ↔ threadId ∈ s.store.tables.writes) := by
  rcases acts.effect owned threadId with same | ⟨isNewSession, calls, streams, -⟩ | ⟨deletes, -⟩
  · exact same
  · exact (shut isNewSession calls streams).elim
  · exact (keeps deletes).elim

theorem Acts.aside (owned : s.Owned) (acts : Acts s s' e id n c d took) (alone : s.Alone threadId)
    {id' : κ} (closing : s.closing id' = some threadId) (apart : id' ≠ id) :
    (threadId ∈ s'.store.tables.checkpoints ↔ threadId ∈ s.store.tables.checkpoints) ∧
      (threadId ∈ s'.store.tables.writes ↔ threadId ∈ s.store.tables.writes) := by
  obtain ⟨unclosed, shut⟩ := alone id' closing id (Ne.symm apart)
  exact acts.same owned (fun deleting => unclosed deleting.closing)
    fun isNewSession calls streams => shut (accepted_streaming streams)

theorem Progress.aside {call : κ × Nat} (progress : s.Progress threadId call)
    (acts : Acts s s' e id n c d took) (other : call ≠ (id, n))
    (checkpoints : threadId ∈ s'.store.tables.checkpoints ↔ threadId ∈ s.store.tables.checkpoints)
    (writes : threadId ∈ s'.store.tables.writes ↔ threadId ∈ s.store.tables.writes) :
    s'.Progress threadId call := by
  obtain ⟨b, called, deletion, status, first, second, last⟩ := progress
  refine ⟨b, (acts.call_other other).trans called, deletion, status, fun one => ?_, fun two => ?_,
    fun four => ?_⟩
  · rw [checkpoints]
    exact first one
  · rw [writes]
    exact second two
  · rw [acts.durable]
    split
    · exact ⟨checkpoints.not.mpr (first (by omega)), writes.not.mpr (second (by omega))⟩
    · exact last four

theorem Progress.acts (progress : s.Progress threadId (id, n))
    (acts : Acts s s' e id n c d took) (undisturbed : s.Undisturbed threadId e) :
    s'.Progress threadId (id, n) := by
  obtain ⟨b, called, deletion, status, first, second, last⟩ := progress
  rw [acts.called] at called
  cases called
  obtain ⟨a, rfl⟩ : ∃ a, took = some a := by
    rcases acts.answered with ⟨-, some, -⟩ | ⟨rfl, -⟩
    · exact Option.isSome_iff_exists.mp some
    · exact (undisturbed.2 c acts.called deletion).elim
  have returned : d.status ≠ .raised := by
    rcases acts.answered with ⟨-, -, status⟩ | ⟨rfl, -⟩
    · exact status
    · exact (undisturbed.2 c acts.called deletion).elim
  have done : d.done = c.done + 1 := acts.done
  have next := acts.next a rfl
  rw [SaverCall.next, deletion] at next
  have tables := acts.tables
  refine ⟨d, acts.call_self, acts.operation.trans deletion, returned, ?_⟩
  rw [done, acts.durable, tables]
  rcases step : c.done with _ | _ | _ | _ | m <;> rw [step] at next <;> cases next
  · exact ⟨fun _ => Finset.notMem_erase _ _, by omega, by omega⟩
  · exact ⟨fun _ => first (by omega), fun _ => Finset.notMem_erase _ _, by omega⟩
  · exact ⟨fun _ => first (by omega), fun _ => second (by omega), by omega⟩
  · rw [if_pos rfl]
    exact ⟨fun _ => first (by omega), fun _ => second (by omega), fun _ =>
      ⟨first (by omega), second (by omega)⟩⟩

theorem Watched.acts_self (watched : s.Watched threadId) (acts : Acts s s' e id n c d took)
    (undisturbed : s.Undisturbed threadId e) (request : s.requests id = some q)
    (on : q.on = some threadId) : s'.Watches threadId id q := by
  have watches := watched.each id q request on
  obtain ⟨q', request', owns⟩ := watched.owned.owner id n c acts.called acts.running
  rw [request] at request'
  cases request'
  cases q with
  | lookingUp other =>
      cases on
      obtain ⟨rfl, nowUnix, operation⟩ := owns
      have keeps : ¬ s.Deleting id 0 threadId := by simp [Deleting, request]
      intro b called found
      rw [acts.call_self] at called
      cases called
      apply acts.stored watched.owned keeps
      rcases acts.reads operation with ⟨before, -⟩ | read
      · exact watches c acts.called (before ▸ found)
      · rw [found] at read
        exact of_decide_eq_true read.symm
  | streaming other isNewSession calls =>
      cases on
      obtain ⟨within, on, keeps⟩ := owns
      have keeps' : ¬ s.Deleting id n threadId := by simp [Deleting, request]
      refine ⟨fun ready => ?_, fun m b within called writes => ?_⟩
      · by_cases before : isNewSession = false ∨ s.hasPut id calls = true
        · exact acts.stored watched.owned keeps' (watches.1 before)
        · -- this answer is the first put of the session
          rcases acts.checkpoints with ⟨other, nowUnix, operation, -, -, after⟩ |
            ⟨other, operation, -⟩ | ⟨-, later⟩
          · rw [operation] at on
            obtain rfl : other = threadId := on
            rw [after]
            exact Finset.mem_insert_self _ _
          · rw [operation] at keeps
            cases keeps
          · rw [acts.hasPut_same (acts.put_same fun took first => (later took first).1)] at ready
            exact (before ready).elim
      · have old : ∃ b', s.store.calls (id, m) = some b' ∧ b'.operation = b.operation := by
          by_cases same : (id, m) = (id, n)
          · rw [same, acts.call_self] at called
            cases called
            exact ⟨c, same ▸ acts.called, acts.operation.symm⟩
          · exact ⟨b, (acts.call_other same).symm.trans called, rfl⟩
        obtain ⟨b', called', same⟩ := old
        exact (watches.2 m b' within called' (same ▸ writes)).imp_right acts.hasPut_mono
  | checking other =>
      cases on
      obtain ⟨rfl, nowUnix, operation⟩ := owns
      intro b called started unfound
      rw [acts.call_self] at called
      cases called
      rw [(acts.same watched.owned (by simp [Deleting, request]) (by simp [request])).1]
      rcases acts.reads operation with ⟨before, begun⟩ | read
      · exact watches c acts.called (begun started) (before ▸ unfound)
      · rw [unfound] at read
        exact of_decide_eq_false read.symm
  | closing other =>
      cases on
      obtain ⟨rfl, -⟩ := owns
      exact Progress.acts watches acts undisturbed
  | sweeping calls other staleIds =>
      cases on
      obtain ⟨rfl, -⟩ := owns
      exact Progress.acts watches acts undisturbed
  | acknowledged other | finished => exact True.intro

theorem Watched.acts_other (watched : s.Watched threadId) (acts : Acts s s' e id n c d took)
    (alone : s.Alone threadId) {id' : κ} (apart : id' ≠ id) (request : s.requests id' = some q)
    (on : q.on = some threadId) : s'.Watches threadId id' q := by
  have watches := watched.each id' q request on
  have other (m : Nat) : (id', m) ≠ (id, n) := by simp [apart]
  have stored (accepted : s.accepted id' = some threadId)
      (before : threadId ∈ s.store.tables.checkpoints) : threadId ∈ s'.store.tables.checkpoints := by
    refine acts.stored watched.owned (fun deleting => ?_) before
    exact (alone id deleting.closing id' apart).2 accepted
  have aside (closing : s.closing id' = some threadId) :=
    acts.aside watched.owned alone closing apart
  cases q with
  | lookingUp other' =>
      cases on
      intro b called found
      rw [acts.call_other (other 0)] at called
      exact stored (accepted_lookingUp request called found) (watches b called found)
  | streaming other' isNewSession calls =>
      cases on
      have puts : s'.hasPut id' calls = s.hasPut id' calls := by
        simp only [hasPut, acts.call_other (other _)]
      refine ⟨fun ready => stored (accepted_streaming request) (watches.1 (puts ▸ ready)), ?_⟩
      intro m b within called writes
      rw [acts.call_other (other m)] at called
      rw [puts]
      exact watches.2 m b within called writes
  | checking other' =>
      cases on
      intro b called started unfound
      rw [acts.call_other (other 0)] at called
      rw [(aside (by simp [closing, request])).1]
      exact watches b called started unfound
  | closing other' =>
      cases on
      obtain ⟨checkpoints, writes⟩ := aside (by simp [closing, request])
      exact Progress.aside watches acts (other 1) checkpoints writes
  | sweeping calls other' staleIds =>
      cases on
      obtain ⟨checkpoints, writes⟩ := aside (by simp [closing, request])
      exact Progress.aside watches acts (other calls) checkpoints writes
  | acknowledged other' | finished => exact True.intro

theorem Watched.settled_acts (watched : s.Watched threadId) (acts : Acts s s' e id n c d took)
    (keeps : ∀ id n, ¬ s.Deleting id n threadId) : s'.Settled threadId := by
  have settled := watched.settled keeps
  have stored := acts.stored watched.owned (keeps id n)
  have writes : threadId ∈ s'.store.tables.writes → threadId ∈ s'.store.tables.checkpoints := by
    intro written
    rcases acts.effect watched.owned threadId with ⟨-, same⟩ |
      ⟨isNewSession, calls, streams, within, -, ⟨-, put⟩ | ⟨writes, same⟩⟩ | ⟨deletes, -⟩
    · exact stored (settled.writes (same.mp written))
    · exact put
    · have watches := watched.each id _ streams rfl
      exact stored (watches.1 (watches.2 n c within acts.called writes))
    · exact (keeps id n deletes).elim
  refine ⟨writes, ?_, ?_⟩ <;> rw [acts.durable] <;> split
  · exact fun stored => stored
  · exact fun kept => stored (settled.kept kept)
  · exact writes
  · exact settled.durable

theorem Watched.acts (watched : s.Watched threadId) (acts : Acts s s' e id n c d took)
    (owned : s'.Owned) (undisturbed : s.Undisturbed threadId e) : s'.Watched threadId := by
  refine ⟨owned, fun id' q request on => ?_, fun keeps => ?_, fun id' request => ?_⟩
  · rw [acts.requests] at request
    by_cases same : id' = id
    · subst same
      exact watched.acts_self acts undisturbed request on
    · exact watched.acts_other acts undisturbed.1 same request on
  · apply watched.settled_acts acts
    intro id' m deleting
    exact keeps id' m (by rwa [Deleting, acts.requests])
  · rw [acts.requests] at request
    exact (watched.acknowledged id' request).acts watched.owned acts

end

omit [DecidableEq κ] in
theorem Progress.not_raised {call : κ × Nat} {c : SaverCall} (progress : s.Progress threadId call)
    (called : s.store.calls call = some c) : c.status ≠ .raised := by
  obtain ⟨b, called', -, status, -⟩ := progress
  rw [called] at called'
  cases called'
  exact status

omit [DecidableEq κ] in
theorem Progress.whole {n : Nat} {c : SaverCall} (owned : s.Owned)
    (progress : s.Progress threadId (id, n)) (called : s.store.calls (id, n) = some c)
    (ended : c.status ≠ .running) :
    s.store.tables.Absent threadId ∧ s.store.durable.Absent threadId := by
  obtain ⟨b, called', deletion, status, first, second, last⟩ := progress
  rw [called] at called'
  cases called'
  have returned : c.status = .returned := by
    match h : c.status with
    | .running => exact (ended h).elim
    | .returned => rfl
    | .raised => exact (status h).elim
  have done : c.done = 4 := by
    rw [owned.complete _ c called returned, deletion]
    rfl
  exact ⟨⟨first (by omega), second (by omega)⟩, last (by omega)⟩

theorem progress_started {n : Nat} (started : s.startCall (id, n) (.adeleteThread threadId) = some t)
    (q : Request) : (t.setRequest id q).Progress threadId (id, n) := by
  have begun := startCall_called started
  exact ⟨_, begun, rfl, by simp, by simp, by simp, by simp⟩

theorem sweepNext_watches {calls : Nat} {staleIds : List String}
    (next : s.sweepNext id calls staleIds = some s') :
    ∃ q, Moves s s' id q ∧ (q.on = some threadId → s'.Watches threadId id q) ∧
      q ≠ .acknowledged threadId := by
  rcases sweepNext_some next with rfl | ⟨other, rest, t, rfl, started, rfl⟩
  · exact ⟨_, .setRequest s id .finished, by simp [Request.on], by simp⟩
  · refine ⟨_, .startCall started (.sweeping calls other rest), fun on => ?_, by simp⟩
    cases on
    exact progress_started started _

theorem Watched.moves (watched : s.Watched threadId) (moves : Moves s s' id q) (owned : s'.Owned)
    (still : s.Gone threadId → s'.Gone threadId)
    (each : q.on = some threadId → s'.Watches threadId id q)
    (ends : ∀ n, s.Deleting id n threadId →
      s.store.tables.Absent threadId ∧ s.store.durable.Absent threadId)
    (acknowledges : q = .acknowledged threadId → s'.Gone threadId) : s'.Watched threadId := by
  refine ⟨owned, fun id' q' request on => ?_, fun keeps => ?_, fun id' request => ?_⟩
  · by_cases same : id' = id
    · subst same
      rw [moves.request] at request
      cases request
      exact each on
    · rw [moves.request_other same] at request
      have watches := watched.each id' q' request on
      cases q' with
      | lookingUp | streaming | checking | closing | sweeping =>
          simpa only [Watches, Progress, hasPut, moves.tables, moves.durable, moves.call_other same]
            using watches
      | acknowledged | finished => exact True.intro
  · by_cases ending : ∃ n, s.Deleting id n threadId
    · obtain ⟨n, deleting⟩ := ending
      obtain ⟨tables, durable⟩ := ends n deleting
      rw [← moves.tables] at tables
      rw [← moves.durable] at durable
      exact ⟨fun written => (tables.2 written).elim, fun kept => (durable.1 kept).elim,
        fun written => (durable.2 written).elim⟩
    · have settled : s.Settled threadId := by
        apply watched.settled
        intro id' n deleting
        by_cases same : id' = id
        · subst same
          exact ending ⟨n, deleting⟩
        · apply keeps id' n
          rwa [Deleting, moves.request_other same]
      exact ⟨moves.tables ▸ settled.writes, moves.tables ▸ moves.durable ▸ settled.kept,
        moves.durable ▸ settled.durable⟩
  · by_cases same : id' = id
    · subst same
      rw [moves.request] at request
      cases request
      exact acknowledges rfl
    · rw [moves.request_other same] at request
      exact still (watched.acknowledged id' request)

theorem Alone.gone (alone : s.Alone threadId) (closing : s.closing id = some threadId)
    (moves : Moves s s' id (.acknowledged threadId)) (seen : threadId ∈ s.seen)
    (absent : s.store.tables.Absent threadId ∧ s.store.durable.Absent threadId) :
    s'.Gone threadId := by
  refine ⟨moves.tables ▸ absent.1, moves.durable ▸ absent.2, moves.seen seen, fun id' accepted => ?_⟩
  by_cases same : id' = id
  · subst same
    simp [Service.accepted, moves.request] at accepted
  · rw [accepted_congr (moves.request_other same) (moves.call_other same)] at accepted
    exact (alone id closing id' same).2 accepted

theorem Watched.unfound (watched : s.Watched threadId) (alone : s.Alone threadId) {c : SaverCall}
    (checks : s.requests id = some (.checking threadId)) (called : s.store.calls (id, 0) = some c)
    (returned : c.status = .returned) (unfound : c.found = false) :
    s.store.tables.Absent threadId ∧ s.store.durable.Absent threadId := by
  have closing : s.closing id = some threadId := by simp [Service.closing, checks]
  have started : 1 ≤ c.done := by
    rw [watched.owned.complete _ c called returned]
    cases c.operation <;> simp [Operation.program]
  have checkpoints := watched.each id _ checks rfl c called started unfound
  have settled : s.Settled threadId := by
    apply watched.settled
    intro id' n deleting
    by_cases same : id' = id
    · subst same
      simp [Deleting, checks] at deleting
    · exact (alone id closing id' same).1 deleting.closing
  have durable : threadId ∉ s.store.durable.checkpoints := fun kept => checkpoints (settled.kept kept)
  exact ⟨⟨checkpoints, fun written => checkpoints (settled.writes written)⟩,
    durable, fun written => durable (settled.durable written)⟩

omit [DecidableEq κ] in
theorem Settled.restarted (settled : s.Settled threadId) {requests : κ → Option Request}
    {gauge : Int} {seen : List String} :
    Settled (⟨⟨s.store.connection.rollback, fun _ => none⟩, requests, gauge, seen⟩ : Service κ)
      threadId := by
  have reopened : (⟨s.store.connection.rollback, fun _ => none⟩ : Store (κ × Nat)).tables =
      s.store.durable := by
    rw [Store.tables, Connection.rollback_journal]
    rfl
  refine ⟨?_, ?_, settled.durable⟩
  · rw [reopened]
    exact settled.durable
  · rw [reopened]
    exact fun kept => kept

theorem Watched.step (watched : s.Watched threadId) {e : ServiceEvent κ}
    (undisturbed : s.Undisturbed threadId e) (taken : s.step e = some s') : s'.Watched threadId := by
  have owned := watched.owned.step taken
  have still (gone : s.Gone threadId) : s'.Gone threadId := gone.step watched.owned taken
  cases step_steps taken with
  | turn id other nowUnix t free started =>
      refine watched.moves ((Moves.startCall started _).named other) owned still (fun on => ?_)
        (by simp [Deleting, free]) (by simp)
      intro c called found
      have begun := (startCall_called started).symm.trans called
      cases begun
      cases found
  | newTurn id other free fresh =>
      refine watched.moves ((Moves.setRequest s id _).named other) owned still (fun on => ?_)
        (by simp [Deleting, free]) (by simp)
      simp [Watches, hasPut]
  | done id other nowUnix t free started =>
      refine watched.moves ((Moves.startCall started _).named other) owned still (fun on => ?_)
        (by simp [Deleting, free]) (by simp)
      intro c called progressed
      have begun := (startCall_called started).symm.trans called
      cases begun
      cases progressed
  | tick id nowUnix thresholdSec staleIds _ free listed next =>
      obtain ⟨q, moves, each, other⟩ := sweepNext_watches next
      exact watched.moves moves owned still each (by simp [Deleting, free]) fun same => (other same).elim
  | saverCall id operation isNewSession calls t streams keeps ordered started =>
      refine watched.moves (.startCall started _) owned still (fun on => ?_)
        (by simp [Deleting, streams]) (by simp)
      obtain ⟨stored, wrote⟩ := watched.each id _ streams on
      have puts := saverCall_hasPut started (.streaming operation.threadId isNewSession (calls + 1))
      have tables := (Moves.startCall started
        (.streaming operation.threadId isNewSession (calls + 1))).tables
      rw [Watches, puts, tables]
      refine ⟨stored, fun n c within called writes => ?_⟩
      rcases startCall_begun started called with ⟨-, rfl⟩ | before
      · cases isNewSession with
        | false => exact .inl rfl
        | true => exact .inr (ordered writes rfl)
      · have apart : n ≠ calls := by
          rintro rfl
          rw [(startCall_some started).1] at before
          cases before
        exact wrote n c (by omega) before writes
  | returns call store returned =>
      obtain ⟨id, n, c, d, took, acts⟩ := acts_of_returns returned
      exact watched.acts acts owned undisturbed
  | raises call tookEffect store raised =>
      obtain ⟨id, n, c, d, took, acts⟩ := acts_of_raises raised
      exact watched.acts acts owned undisturbed
  | accepted id other c looking called returned found =>
      refine watched.moves (.setRequest s id _) owned still (fun on => ?_)
        (by simp [Deleting, looking]) (by simp)
      have stored := watched.each id _ looking on c called found
      exact ⟨fun _ => stored, fun _ _ _ _ _ => .inl rfl⟩
  | refused id other c waits called ended =>
      refine watched.moves (.setRequest s id .finished) owned still (by simp [Request.on]) ?_ (by simp)
      intro n deleting
      rcases waits with waits | waits <;> simp [Deleting, waits] at deleting
  | confirmed id other c t checks called returned found started =>
      refine watched.moves (.startCall started _) owned still (fun on => ?_)
        (by simp [Deleting, checks]) (by simp)
      cases on
      exact progress_started started _
  | missing id other c checks called returned unfound =>
      refine watched.moves (.setRequest s id _) owned still (by simp [Request.on])
        (by simp [Deleting, checks]) fun same => ?_
      cases same
      exact undisturbed.1.gone (by simp [Service.closing, checks]) (.setRequest s id _)
        (watched.owned.named id _ checks threadId List.mem_cons_self)
        (watched.unfound undisturbed.1 checks called returned unfound)
  | closed id other c closes called returned =>
      have whole (same : other = threadId) :
          s.store.tables.Absent threadId ∧ s.store.durable.Absent threadId := by
        subst same
        exact Progress.whole watched.owned (watched.each id _ closes rfl) called (by simp [returned])
      refine watched.moves (.setGauge s _ id _) owned still (by simp [Request.on]) (fun n deleting => ?_)
        fun same => ?_
      · exact whole (deleting.of_closing closes).1
      · cases same
        exact undisturbed.1.gone (by simp [Service.closing, closes]) (.setGauge s _ id _)
          (watched.owned.named id _ closes threadId List.mem_cons_self) (whole rfl)
  | swallowed id other c closes called raised =>
      have unfailing (same : other = threadId) : False := by
        subst same
        have progress : s.Progress other (id, 1) := watched.each id _ closes rfl
        exact progress.not_raised called raised
      refine watched.moves (.setRequest s id _) owned still (by simp [Request.on]) (fun n deleting => ?_)
        fun same => ?_
      · exact (unfailing (deleting.of_closing closes).1).elim
      · cases same
        exact (unfailing rfl).elim
  | swept id calls other staleIds c _ sweeps called returned next =>
      obtain ⟨q, moves, each, unacknowledged⟩ := sweepNext_watches next
      refine watched.moves moves.ofDec owned still each (fun n deleting => ?_)
        fun same => (unacknowledged same).elim
      obtain ⟨rfl, rfl⟩ := deleting.of_sweeping sweeps
      exact Progress.whole watched.owned (watched.each id _ sweeps rfl) called (by simp [returned])
  | sweepError id calls other staleIds c _ sweeps called raised next =>
      obtain ⟨q, moves, each, unacknowledged⟩ := sweepNext_watches next
      refine watched.moves moves owned still each (fun n deleting => ?_)
        fun same => (unacknowledged same).elim
      obtain ⟨rfl, rfl⟩ := deleting.of_sweeping sweeps
      have progress : s.Progress other (id, n) := watched.each id _ sweeps rfl
      exact (progress.not_raised called raised).elim
  | finish id other isNewSession succeeded calls streams settled put =>
      exact watched.moves (.setGauge s _ id .finished) owned still (by simp [Request.on])
        (by simp [Deleting, streams]) (by simp)
  | restart =>
      have settled := watched.settled fun id n deleting => undisturbed.2 id deleting.closing
      exact ⟨owned, fun id q request => (by cases request), fun _ => settled.restarted,
        fun id request => (by cases request)⟩

omit [DecidableEq κ] in
theorem Watched.initial : ({} : Service κ).Watched threadId :=
  ⟨.initial, fun id q request => (by cases request),
    fun _ => ⟨fun written => (by cases written), fun kept => (by cases kept), fun written => (by cases written)⟩,
    fun id request => (by cases request)⟩

end Service

end DecisionMaker.Server
