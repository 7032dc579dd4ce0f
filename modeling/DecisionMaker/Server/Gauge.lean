import DecisionMaker.Server.Ownership
import Mathlib.Algebra.BigOperators.Group.Finset.Basic
import Mathlib.Data.Finset.Card
import Mathlib.Data.Fintype.Basic

namespace DecisionMaker.Server

open Library

section
variable {κ : Type}

theorem exists_sum_change [DecidableEq κ] {f g : κ → Int} {support : Finset κ}
    (outside : ∀ x, x ∉ support → f x = 0) (x : κ) (others : ∀ y, y ≠ x → g y = f y) :
    ∃ support' : Finset κ, (∀ y, y ∉ support' → g y = 0) ∧
      ∑ y ∈ support', g y = ∑ y ∈ support, f y - f x + g x := by
  refine ⟨insert x support, fun y away => ?_, ?_⟩
  · rw [Finset.mem_insert, not_or] at away
    rw [others y away.1, outside y away.2]
  · have before : ∑ y ∈ support, f y = ∑ y ∈ insert x support, f y :=
      Finset.sum_subset (Finset.subset_insert _ _) fun y _ away => outside y away
    have member : x ∈ insert x support := Finset.mem_insert_self _ _
    rw [before, ← Finset.add_sum_erase _ f member, ← Finset.add_sum_erase _ g member]
    rw [Finset.sum_congr rfl fun y among => others y (Finset.ne_of_mem_erase among)]
    ring

end

def SaverCall.removed (c : SaverCall) : Bool := decide (1 ≤ c.done ∧ c.status ≠ .raised)

namespace Service
variable {κ : Type} {s s' t : Service κ} {id : κ} {q : Request} {threadId : String}

def Resting (s : Service κ) : Prop := ∀ id, (s.requests id).bind Request.on = none

instance [Fintype κ] (s : Service κ) : Decidable s.Resting :=
  inferInstanceAs (Decidable (∀ id, (s.requests id).bind Request.on = none))

def firstTurn (s : Service κ) (id : κ) : Option (String × Bool) :=
  match s.requests id with
  | some (.streaming threadId true calls) => some (threadId, s.hasPut id calls)
  | _ => none

def Counts (s : Service κ) (id : κ) : Statement → Prop
  -- only the first turn of a session stores a thread that is not stored
  | .insertCheckpoint threadId =>
      threadId ∈ s.store.tables.checkpoints ∨ s.firstTurn id = some (threadId, false)
  -- a deletion finds its thread stored
  | .deleteCheckpoints threadId => threadId ∈ s.store.tables.checkpoints
  | _ => True

def sends (s : Service κ) (call : κ × Nat) : Option Statement :=
  (s.store.calls call).bind fun c => c.next.bind Action.statement

/-- The step moves a thread in or out of the tables only where the gauge is moved for it. -/
def Accounted (s : Service κ) : ServiceEvent κ → Prop
  | .returns call => ∀ statement ∈ s.sends call, s.Counts call.1 statement
  -- a deletion that raises has removed nothing
  | .raises call tookEffect =>
      (tookEffect = true → ∀ statement ∈ s.sends call, s.Counts call.1 statement) ∧
        ∀ c ∈ s.store.calls call, c.operation.deletes = true → c.done = 0 ∧ tookEffect = false
  -- a first turn that fails has stored nothing
  | .finish id false => ∀ turn ∈ s.firstTurn id, turn.2 = false
  -- a new process finds no thread
  | .restart => s.store.durable.checkpoints = ∅
  | _ => True

instance (s : Service κ) (id : κ) : ∀ statement, Decidable (s.Counts id statement)
  | .insertCheckpoint threadId => inferInstanceAs (Decidable
      (threadId ∈ s.store.tables.checkpoints ∨ s.firstTurn id = some (threadId, false)))
  | .deleteCheckpoints threadId =>
      inferInstanceAs (Decidable (threadId ∈ s.store.tables.checkpoints))
  | .insertWrites _ | .replaceMeta _ _ | .deleteWrites _ | .deleteMeta _ => .isTrue True.intro

instance (s : Service κ) : ∀ e, Decidable (s.Accounted e)
  | .returns call =>
      inferInstanceAs (Decidable (∀ statement ∈ s.sends call, s.Counts call.1 statement))
  | .raises call tookEffect => inferInstanceAs (Decidable
      ((tookEffect = true → ∀ statement ∈ s.sends call, s.Counts call.1 statement) ∧
        ∀ c ∈ s.store.calls call, c.operation.deletes = true → c.done = 0 ∧ tookEffect = false))
  | .finish id false => inferInstanceAs (Decidable (∀ turn ∈ s.firstTurn id, turn.2 = false))
  | .restart => inferInstanceAs (Decidable (s.store.durable.checkpoints = ∅))
  | .turn _ _ _ | .newTurn _ _ | .done _ _ _ | .tick _ _ _ _ | .saverCall _ _ | .resume _
  | .finish _ true => .isTrue True.intro

def due (s : Service κ) (id : κ) : Int :=
  match s.requests id with
  | some (.streaming _ true calls) => if s.hasPut id calls then 1 else 0
  | some (.closing _) => if (s.store.calls (id, 1)).any SaverCall.removed then -1 else 0
  | some (.sweeping calls _ _) => if (s.store.calls (id, calls)).any SaverCall.removed then -1 else 0
  | some (.streaming _ false _) | some (.lookingUp _) | some (.checking _) | some (.acknowledged _)
  | some .finished | none => 0

def Balance (s : Service κ) : Prop :=
  ∃ inFlight : Finset κ, (∀ id, id ∉ inFlight → s.due id = 0) ∧
    s.activeSessions + ∑ id ∈ inFlight, s.due id = s.store.tables.checkpoints.card

structure Counted (s : Service κ) : Prop where
  owned : s.Owned
  unique : ∀ id id' threadId calls calls', s.requests id = some (.streaming threadId true calls) →
    s.requests id' = some (.streaming threadId true calls') → id = id'
  unput : ∀ id threadId calls, s.requests id = some (.streaming threadId true calls) →
    s.hasPut id calls = false → threadId ∉ s.store.tables.checkpoints
  balance : s.Balance

theorem Resting.due (resting : s.Resting) (id : κ) : s.due id = 0 := by
  cases request : s.requests id with
  | none => simp [Service.due, request]
  | some q =>
      have away := resting id
      rw [request] at away
      cases q with
      | lookingUp | streaming | checking | closing | sweeping => cases away
      | acknowledged | finished => simp [Service.due, request]

theorem Balance.resting (balance : s.Balance) (resting : s.Resting) :
    s.activeSessions = s.store.tables.checkpoints.card := by
  obtain ⟨inFlight, -, total⟩ := balance
  rwa [Finset.sum_eq_zero fun id _ => resting.due id, add_zero] at total

theorem due_congr (request : s'.requests id = s.requests id)
    (calls : ∀ n, s'.store.calls (id, n) = s.store.calls (id, n)) : s'.due id = s.due id := by
  have puts (n : Nat) : s'.hasPut id n = s.hasPut id n := by simp only [hasPut, calls]
  unfold due
  rw [request]
  split <;> simp only [puts, calls]

variable [DecidableEq κ]

theorem Balance.change (balance : s.Balance) (id : κ) (others : ∀ id', id' ≠ id → s'.due id' = s.due id')
    (change : s'.activeSessions + s'.due id - s'.store.tables.checkpoints.card =
      s.activeSessions + s.due id - s.store.tables.checkpoints.card) : s'.Balance := by
  obtain ⟨inFlight, outside, total⟩ := balance
  obtain ⟨inFlight', outside', sum⟩ := exists_sum_change outside id others
  refine ⟨inFlight', outside', ?_⟩
  rw [sum]
  linarith

theorem Counted.moves (counted : s.Counted) (moves : Moves s s' id q) (owned : s'.Owned)
    (gauge : s'.activeSessions + s'.due id = s.activeSessions + s.due id)
    (first : ∀ threadId calls, q = .streaming threadId true calls → threadId ∉ s.seen ∨
      ∃ calls', s.requests id = some (.streaming threadId true calls') ∧
        s'.hasPut id calls = s.hasPut id calls') : s'.Counted := by
  have earlier {id' : κ} {threadId : String} {calls calls' : Nat}
      (goes : q = .streaming threadId true calls) (apart : id' ≠ id)
      (streams : s'.requests id' = some (.streaming threadId true calls')) : False := by
    rw [moves.request_other apart] at streams
    rcases first threadId calls goes with fresh | ⟨before, same, -⟩
    · exact fresh (counted.owned.named id' _ streams threadId List.mem_cons_self)
    · exact apart (counted.unique id' id threadId _ _ streams same)
  refine ⟨owned, ?_, ?_, ?_⟩
  · intro id₁ id₂ threadId calls calls' one two
    by_cases same : id₁ = id
    · subst same
      by_contra apart
      exact earlier (Option.some.inj (moves.request.symm.trans one)) (Ne.symm apart) two
    · by_cases same' : id₂ = id
      · subst same'
        exact (earlier (Option.some.inj (moves.request.symm.trans two)) same one).elim
      · rw [moves.request_other same] at one
        rw [moves.request_other same'] at two
        exact counted.unique id₁ id₂ threadId calls calls' one two
  · intro id' threadId calls streams unput
    rw [moves.tables]
    by_cases same : id' = id
    · subst same
      rcases first threadId calls (Option.some.inj (moves.request.symm.trans streams)) with
        fresh | ⟨before, streamed, put⟩
      · exact fun stored => fresh (counted.owned.stored_seen stored)
      · exact counted.unput id' threadId before streamed (put ▸ unput)
    · rw [moves.request_other same] at streams
      apply counted.unput id' threadId calls streams
      simp only [hasPut, moves.call_other same] at unput
      exact unput
  · apply counted.balance.change id
    · exact fun id' apart => due_congr (moves.request_other apart) (moves.call_other apart)
    · rw [moves.tables, gauge]

section
variable {e : ServiceEvent κ} {n calls : Nat} {c d : SaverCall} {took : Option Action}

theorem Acts.counts (acts : Acts s s' e id n c d took) (accounted : s.Accounted e)
    {statement : Statement} (sent : took = some (.execute statement)) : s.Counts id statement := by
  have sends : statement ∈ s.sends (id, n) := by
    simp [Service.sends, acts.called, acts.next _ sent, Action.statement]
  rcases acts.answered with ⟨rfl, -⟩ | ⟨rfl, -⟩
  · exact accounted statement sends
  · exact accounted.1 (by rw [sent]; rfl) statement sends

theorem Acts.harmless (acts : Acts s s' e id n c d took) (accounted : s.Accounted e)
    (raised : d.status = .raised) (deletes : c.operation.deletes = true) :
    c.done = 0 ∧ took = none := by
  rcases acts.answered with ⟨-, -, status⟩ | ⟨rfl, -⟩
  · exact absurd raised status
  · have nothing := accounted.2 c acts.called deletes
    exact ⟨nothing.1, Option.isSome_eq_false_iff.mp nothing.2 |> Option.isNone_iff_eq_none.mp⟩

omit [DecidableEq κ] in
theorem firstTurn_eq_some {put : Bool} (turn : s.firstTurn id = some (threadId, put)) :
    ∃ calls, s.requests id = some (.streaming threadId true calls) ∧ s.hasPut id calls = put := by
  unfold firstTurn at turn
  split at turn
  · rename_i threadId' calls streams
    cases turn
    exact ⟨calls, streams, rfl⟩
  · cases turn

omit [DecidableEq κ] in
theorem Deleting.due (deleting : s.Deleting id n threadId) (called : s.store.calls (id, n) = some c) :
    s.due id = if c.removed then -1 else 0 := by
  rcases deleting with ⟨request, rfl⟩ | ⟨staleIds, request⟩ <;>
    simp [Service.due, request, called]

theorem Counted.streaming_acts (counted : s.Counted) (acts : Acts s s' e id n c d took)
    (accounted : s.Accounted e) {isNewSession : Bool}
    (request : s.requests id = some (.streaming threadId isNewSession calls)) (within : n < calls)
    (on : c.operation.threadId = threadId) (keeps : c.operation.deletes = false) :
    s'.due id - s'.store.tables.checkpoints.card = s.due id - s.store.tables.checkpoints.card := by
  have request' := acts.requests ▸ request
  rcases acts.checkpoints with ⟨threadId', nowUnix, put, first, sent, after⟩ |
    ⟨threadId', deletion, -⟩ | ⟨after, later⟩
  · obtain rfl : threadId' = threadId := by rw [← on, put]; rfl
    have begun : d.put = true := by
      simp [SaverCall.put, acts.operation, put, acts.done, sent, Operation.isPut]
    have has : s'.hasPut id calls = true := hasPut_iff.mpr ⟨n, within, d, acts.call_self, begun⟩
    rcases acts.counts accounted sent with stored | first
    · rw [after, Finset.insert_eq_of_mem stored]
      cases isNewSession with
      | false => simp [Service.due, request, request']
      | true =>
          have had : s.hasPut id calls = true := by
            by_contra unput
            exact counted.unput id threadId' calls request (Bool.eq_false_iff.mpr unput) stored
          simp [Service.due, request, request', has, had]
    · obtain ⟨calls', streams, unput⟩ := firstTurn_eq_some first
      rw [request] at streams
      cases streams
      rw [after, Finset.card_insert_of_notMem (counted.unput id threadId' calls request unput)]
      simp [Service.due, request, request', has, unput]
  · rw [deletion] at keeps
    cases keeps
  · have puts := acts.hasPut_same (acts.put_same fun took first => (later took first).1) id
      calls
    rw [after]
    cases isNewSession <;> simp [Service.due, request, request', puts]

theorem Acts.due_deleting (acts : Acts s s' e id n c d took)
    (accounted : s.Accounted e) (deleting : s.Deleting id n threadId)
    (deletion : c.operation = .adeleteThread threadId) :
    s'.due id - s'.store.tables.checkpoints.card = s.due id - s.store.tables.checkpoints.card := by
  have deleting' : s'.Deleting id n threadId := by
    rw [Deleting, acts.requests]
    exact deleting
  rw [deleting.due acts.called, deleting'.due acts.call_self]
  have deletes : c.operation.deletes = true := by rw [deletion]; rfl
  have kept : took.isSome = true → d.status ≠ .raised := by
    intro some raised
    rw [(acts.harmless accounted raised deletes).2] at some
    cases some
  rcases acts.checkpoints with ⟨_, _, put, -⟩ | ⟨threadId', deletion', first, sent, after⟩ |
    ⟨after, later⟩
  · rw [deletion] at put
    cases put
  · obtain rfl : threadId' = threadId := by
      rw [deletion] at deletion'
      cases deletion'
      rfl
    have stored : threadId' ∈ s.store.tables.checkpoints := acts.counts accounted sent
    have gone : d.removed = true := by
      simp [SaverCall.removed, acts.done, sent, kept (by rw [sent]; rfl)]
    have there : c.removed = false := by simp [SaverCall.removed, first]
    have size := Finset.card_erase_add_one stored
    rw [after, gone, there]
    simp only [if_true, Bool.false_eq_true, if_false]
    omega
  · rw [after]
    cases took with
    | none =>
        rcases acts.answered with ⟨-, some, -⟩ | ⟨-, status⟩
        · cases some
        · have nothing := (acts.harmless accounted status deletes).1
          simp [SaverCall.removed, nothing, status]
    | some a =>
        have started : c.done ≠ 0 := by
          intro first
          have keeps := (later rfl first).2
          rw [deletion] at keeps
          cases keeps
        have before : c.removed = true := by
          simp [SaverCall.removed, acts.running, Nat.one_le_iff_ne_zero.mpr started]
        have removed : d.removed = true := by
          simp [SaverCall.removed, acts.done, kept rfl]
        rw [before, removed]

theorem Counted.acts (counted : s.Counted) (acts : Acts s s' e id n c d took) (owned : s'.Owned)
    (accounted : s.Accounted e) : s'.Counted := by
  obtain ⟨q, request, owns⟩ := counted.owned.owner id n c acts.called acts.running
  refine ⟨owned, ?_, ?_, ?_⟩
  · rw [acts.requests]
    exact counted.unique
  · intro id' threadId calls streams unput stored
    rw [acts.requests] at streams
    have before : s.hasPut id' calls = false := by
      rw [Bool.eq_false_iff] at unput ⊢
      exact fun put => unput (acts.hasPut_mono put)
    have absent := counted.unput id' threadId calls streams before
    rcases acts.checkpoints with ⟨threadId', nowUnix, put, first, sent, after⟩ |
      ⟨threadId', -, -, -, after⟩ | ⟨after, -⟩
    · rw [after, Finset.mem_insert] at stored
      rcases stored with rfl | stored
      · rcases acts.counts accounted sent with there | first
        · exact absent there
        · obtain ⟨calls', streams', -⟩ := firstTurn_eq_some first
          -- the thread belongs to one new session only, and this is its put
          obtain rfl := counted.unique id' id threadId calls calls' streams streams'
          rw [request] at streams
          cases streams
          have begun : d.put = true := by
            simp [SaverCall.put, acts.operation, put, acts.done, sent, Operation.isPut]
          have has := hasPut_iff.mpr ⟨n, owns.1, d, acts.call_self, begun⟩
          rw [unput] at has
          cases has
      · exact absent stored
    · rw [after] at stored
      exact absent (Finset.mem_of_mem_erase stored)
    · rw [after] at stored
      exact absent stored
  · apply counted.balance.change id
    · intro id' apart
      exact due_congr (by rw [acts.requests]) fun m => acts.call_other (by simp [apart])
    · have change : s'.due id - s'.store.tables.checkpoints.card =
          s.due id - s.store.tables.checkpoints.card := by
        have request' := acts.requests ▸ request
        cases q with
        | lookingUp threadId | checking threadId =>
            obtain ⟨-, nowUnix, operation⟩ := owns
            rcases acts.checkpoints with ⟨_, _, put, -⟩ | ⟨_, deletion, -⟩ | ⟨after, -⟩
            · rw [operation] at put
              cases put
            · rw [operation] at deletion
              cases deletion
            · simp [Service.due, request, request', after]
        | streaming threadId isNewSession calls =>
            exact counted.streaming_acts acts accounted request owns.1 owns.2.1 owns.2.2
        | closing threadId =>
            exact acts.due_deleting accounted (.inl ⟨request, owns.1⟩) owns.2
        | sweeping calls threadId staleIds =>
            obtain ⟨rfl, deletion⟩ := owns
            exact acts.due_deleting accounted (.inr ⟨staleIds, request⟩) deletion
        | acknowledged threadId | finished => exact owns.elim
      rw [acts.activeSessions]
      linarith

end

omit [DecidableEq κ] in
theorem SaverCall.removed_of_returned (owned : s.Owned) {n : Nat} {c : SaverCall}
    (called : s.store.calls (id, n) = some c) (returned : c.status = .returned) :
    c.removed = true := by
  have whole := owned.complete _ c called returned
  have some : 1 ≤ c.operation.program.length := c.operation.program_pos
  simpa [SaverCall.removed, returned, whole] using some

omit [DecidableEq κ] in
theorem Deleting.due_returned (owned : s.Owned) {n : Nat} {c : SaverCall}
    (deleting : s.Deleting id n threadId) (called : s.store.calls (id, n) = some c)
    (returned : c.status = .returned) : s.due id = -1 := by
  rw [deleting.due called, SaverCall.removed_of_returned owned called returned, if_pos rfl]

theorem startCall_activeSessions {n : Nat} {operation : Operation}
    (started : s.startCall (id, n) operation = some t) : t.activeSessions = s.activeSessions := by
  obtain ⟨-, rfl⟩ := startCall_some started
  rfl

omit [DecidableEq κ] in
theorem due_streaming {isNewSession : Bool} {calls : Nat}
    (streams : s.requests id = some (.streaming threadId isNewSession calls)) :
    s.due id = if isNewSession && s.hasPut id calls then 1 else 0 := by
  cases isNewSession <;> simp [due, streams]

omit [DecidableEq κ] in
theorem due_free (free : s.requests id = none) : s.due id = 0 := by
  simp [due, free]

theorem sweepNext_moves {calls : Nat} {staleIds : List String}
    (next : s.sweepNext id calls staleIds = some s') :
    ∃ q, Moves s s' id q ∧ s'.activeSessions = s.activeSessions ∧ s'.due id = 0 ∧
      ∀ threadId calls, q ≠ .streaming threadId true calls := by
  rcases sweepNext_some next with rfl | ⟨threadId, rest, t, rfl, started, rfl⟩
  · refine ⟨.finished, .setRequest s id .finished, rfl, ?_, by simp⟩
    simp [due, setRequest]
  · have gauge := startCall_activeSessions started
    have begun := startCall_called started
    refine ⟨.sweeping calls threadId rest, .startCall started _, gauge, ?_, by simp⟩
    simp [due, setRequest, begun, SaverCall.removed]

omit [DecidableEq κ] in
theorem Counted.initial : ({} : Service κ).Counted :=
  ⟨.initial, fun _ _ _ _ _ streams => (by cases streams), fun _ _ _ streams => (by cases streams),
    ∅, fun _ _ => rfl, by simp [Store.tables, Store.tablesOf]⟩

theorem Counted.step (counted : s.Counted) {e : ServiceEvent κ} (accounted : s.Accounted e)
    (taken : s.step e = some s') : s'.Counted := by
  have owned := counted.owned.step taken
  cases step_steps taken with
  | turn id threadId nowUnix t free started =>
      refine counted.moves ((Moves.startCall started _).named threadId) owned ?_ (by simp)
      rw [due_free free]
      simp [startCall_activeSessions started, due, setRequest]
  | newTurn id threadId free fresh =>
      refine counted.moves ((Moves.setRequest s id _).named threadId) owned ?_ ?_
      · rw [due_free free]
        simp [due, setRequest, hasPut]
      · intro threadId' calls same
        cases same
        exact .inl fresh
  | done id threadId nowUnix t free started =>
      refine counted.moves ((Moves.startCall started _).named threadId) owned ?_ (by simp)
      rw [due_free free]
      simp [startCall_activeSessions started, due, setRequest]
  | tick id nowUnix thresholdSec staleIds _ free listed next =>
      obtain ⟨q, moves, gauge, nothing, other⟩ := sweepNext_moves next
      refine counted.moves moves owned ?_ fun threadId calls same => (other threadId calls same).elim
      rw [gauge, nothing, due_free free]
  | saverCall id operation isNewSession calls t streams keeps ordered started =>
      have puts := saverCall_hasPut started (.streaming operation.threadId isNewSession (calls + 1))
      refine counted.moves (.startCall started _) owned ?_ fun threadId calls' same => ?_
      · have gauge := startCall_activeSessions started
        rw [due_streaming streams, due_streaming (Function.update_self ..), puts, ← gauge]
        rfl
      · cases same
        exact .inr ⟨calls, streams, puts⟩
  | returns call store returned =>
      obtain ⟨id, n, c, d, took, acts⟩ := acts_of_returns returned
      exact counted.acts acts owned accounted
  | raises call tookEffect store raised =>
      obtain ⟨id, n, c, d, took, acts⟩ := acts_of_raises raised
      exact counted.acts acts owned accounted
  | accepted id threadId c looking called returned found =>
      refine counted.moves (.setRequest s id _) owned ?_ (by simp)
      simp [due, setRequest, looking]
  | refused id threadId c waits called ended =>
      refine counted.moves (.setRequest s id _) owned ?_ (by simp)
      rcases waits with waits | waits <;> simp [due, setRequest, waits]
  | confirmed id threadId c t checks called returned found started =>
      refine counted.moves (.startCall started _) owned ?_ (by simp)
      have begun := startCall_called started
      simp [due, setRequest, checks, begun, SaverCall.removed, startCall_activeSessions started]
  | missing id threadId c checks called returned unfound =>
      refine counted.moves (.setRequest s id _) owned ?_ (by simp)
      simp [due, setRequest, checks]
  | closed id threadId c closes called returned =>
      have before := Deleting.due_returned counted.owned (.inl ⟨closes, rfl⟩) called returned
      refine counted.moves (.setGauge s _ id _) owned ?_ (by simp)
      rw [before]
      simp [due, setRequest, decActiveSessions, Int.sub_eq_add_neg]
  | swallowed id threadId c closes called raised =>
      refine counted.moves (.setRequest s id _) owned ?_ (by simp)
      simp [due, setRequest, closes, called, SaverCall.removed, raised]
  | swept id calls threadId staleIds c _ sweeps called returned next =>
      have before := Deleting.due_returned counted.owned (.inr ⟨staleIds, sweeps⟩) called returned
      obtain ⟨q, moves, gauge, nothing, other⟩ := sweepNext_moves next
      refine counted.moves moves.ofDec owned ?_ fun threadId calls same =>
        (other threadId calls same).elim
      rw [gauge, nothing, before]
      simp [decActiveSessions, Int.sub_eq_add_neg]
  | sweepError id calls threadId staleIds c _ sweeps called raised next =>
      obtain ⟨q, moves, gauge, nothing, other⟩ := sweepNext_moves next
      refine counted.moves moves owned ?_ fun threadId calls same => (other threadId calls same).elim
      rw [gauge, nothing]
      simp [due, sweeps, called, SaverCall.removed, raised]
  | finish id threadId isNewSession succeeded calls streams settled put =>
      refine counted.moves (.setGauge s _ id .finished) owned ?_ (by simp)
      cases isNewSession with
      | false => simp [due, setRequest, streams]
      | true =>
          cases succeeded with
          | false =>
              have unput : s.hasPut id calls = false :=
                accounted (threadId, s.hasPut id calls) (by simp [firstTurn, streams])
              simp [due, setRequest, streams, unput]
          | true => simp [due, setRequest, streams, put rfl rfl]
  | restart =>
      have empty : s.store.durable.checkpoints = ∅ := accounted
      have none : ({ s with
          store := ⟨s.store.connection.rollback, fun _ => none⟩
          requests := fun _ => none
          activeSessions := 0 } : Service κ).store.tables.checkpoints = ∅ := by
        rw [← empty, Store.tables, Connection.rollback_journal]
        rfl
      refine ⟨owned, fun _ _ _ _ _ streams => (by cases streams), fun _ _ _ streams => (by cases streams),
        ∅, fun id _ => rfl, ?_⟩
      rw [none]
      simp

/-- Over any interleaving of turns, `/done` requests and ticks, restarts of the process included. -/
theorem activeSessions_eq_card (events : List (ServiceEvent κ))
    (accounted : EachStep step Accounted {} events) (taken : run step {} events = some s)
    (resting : s.Resting) : s.activeSessions = s.store.tables.checkpoints.card := by
  have counted : s.Counted := run_invariant_of (fun _ _ _ counted accounted taken =>
    Counted.step counted accounted taken) .initial accounted taken
  exact counted.balance.resting resting

end Service

def newSession (succeeded : Bool) : List (ServiceEvent (Fin 2)) :=
  [.newTurn 0 "s1", .saverCall 0 (.aput "s1" 100), .returns (0, 0), .returns (0, 0),
   .returns (0, 0), .returns (0, 0), .finish 0 succeeded]

def sweptPhantom : List (ServiceEvent (Fin 2)) :=
  [.turn 0 "s9" 100, .returns (0, 0), .returns (0, 0), .returns (0, 0), .resume 0,
   .tick 1 1000 600 ["s9"], .returns (1, 0), .returns (1, 0), .returns (1, 0), .returns (1, 0),
   .resume 1]

theorem activeSessions_eq_card_newSession :
    (Service.after (newSession true)).activeSessions =
      (Service.after (newSession true)).store.tables.checkpoints.card :=
  Service.activeSessions_eq_card (newSession true) (by decide +kernel) rfl (by decide +kernel)

theorem failed_first_turn_uncounted :
    (∃ s, run Service.step {} (newSession false) = some s ∧ s.Resting ∧ s.activeSessions = 0 ∧
      s.store.tables.checkpoints.card = 1) ∧
    ∃ s, run Service.step {} sweptPhantom = some s ∧ s.Resting ∧ s.activeSessions = -1 :=
  ⟨⟨Service.after (newSession false), rfl, by decide +kernel, rfl, by decide +kernel⟩,
    Service.after sweptPhantom, rfl, by decide +kernel, rfl⟩

end DecisionMaker.Server
