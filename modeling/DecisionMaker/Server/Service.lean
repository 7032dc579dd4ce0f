import DecisionMaker.Server.Tracking

/-!
# The handlers and the sweeper over one store

`handle_turn`, `handle_done` and `Sweeper._tick` between their awaits, on the operations of the
checkpointer and with the gauge they keep.
-/

namespace DecisionMaker.Server

open Library

/-- A request or a tick. It owns the calls of the saver that it has begun, counted from 0. -/
inductive Request
  -- `/turn` with a session id awaits its first `aget_tuple`
  | lookingUp (threadId : String)
  -- `/turn` past its routing: the second read, the cache and the stream of the graph
  | streaming (threadId : String) (isNewSession : Bool) (calls : Nat)
  -- `/done` awaits `aget_tuple`, then `adelete_thread`
  | checking (threadId : String)
  | closing (threadId : String)
  | acknowledged (threadId : String)
  -- a tick awaits `adelete_thread` for one thread and has the others before it
  | sweeping (calls : Nat) (threadId : String) (staleIds : List String)
  | finished

inductive ServiceEvent (κ : Type)
  | turn (id : κ) (sessionId : String) (nowUnix : Int)
  | newTurn (id : κ) (threadId : String)
  | done (id : κ) (sessionId : String) (nowUnix : Int)
  | tick (id : κ) (nowUnix thresholdSec : Int) (staleIds : List String)
  | saverCall (id : κ) (operation : Operation)
  | returns (call : κ × Nat)
  | raises (call : κ × Nat) (tookEffect : Bool)
  -- the handler goes on when its awaited call is over
  | resume (id : κ)
  -- the stream has ended, or it has been cut by a timeout or an exception
  | finish (id : κ) (succeeded : Bool)
  | restart

structure Service (κ : Type) where
  store : Store (κ × Nat) := {}
  requests : κ → Option Request := fun _ => none
  activeSessions : Int := 0
  -- the thread ids that a request has named or drawn
  seen : List String := []

def Operation.isPut : Operation → Bool
  | .aput _ _ => true
  | _ => false

def Operation.isPutWrites : Operation → Bool
  | .aputWrites _ _ => true
  | _ => false

namespace Service
variable {κ : Type} [DecidableEq κ]

def setRequest (s : Service κ) (id : κ) (q : Request) : Service κ :=
  { s with requests := Function.update s.requests id (some q) }

def decActiveSessions (s : Service κ) : Service κ :=
  { s with activeSessions := s.activeSessions - 1 }

def startCall (s : Service κ) (call : κ × Nat) (operation : Operation) : Option (Service κ) :=
  (s.store.step (.call call operation)).map fun store => { s with store }

def sweepNext (s : Service κ) (id : κ) (calls : Nat) : List String → Option (Service κ)
  | [] => some (s.setRequest id .finished)
  | threadId :: staleIds =>
      (s.startCall (id, calls) (.adeleteThread threadId)).map fun s =>
        s.setRequest id (.sweeping calls threadId staleIds)

def hasPut (s : Service κ) (id : κ) (calls : Nat) : Bool :=
  (List.range calls).any fun n =>
    (s.store.calls (id, n)).any fun c => c.operation.isPut && decide (1 ≤ c.done)

def settled (s : Service κ) (id : κ) (calls : Nat) : Bool :=
  (List.range calls).all fun n =>
    (s.store.calls (id, n)).all fun c => decide (c.status ≠ .running)

def resume (s : Service κ) (id : κ) : Option (Service κ) :=
  match s.requests id with
  | some (.lookingUp threadId) => do
      let c ← s.store.calls (id, 0)
      match c.status, c.found with
      | .running, _ => none
      | .returned, true => some (s.setRequest id (.streaming threadId false 1))
      -- 404, or 500 where the read raises
      | .returned, false | .raised, _ => some (s.setRequest id .finished)
  | some (.checking threadId) => do
      let c ← s.store.calls (id, 0)
      match c.status, c.found with
      | .running, _ => none
      | .returned, true =>
          (s.startCall (id, 1) (.adeleteThread threadId)).map fun s =>
            s.setRequest id (.closing threadId)
      | .returned, false => some (s.setRequest id (.acknowledged threadId))
      | .raised, _ => some (s.setRequest id .finished)
  | some (.closing threadId) => do
      let c ← s.store.calls (id, 1)
      match c.status with
      | .running => none
      | .returned =>
          some (s.decActiveSessions.setRequest id (.acknowledged threadId))
      -- logged and swallowed
      | .raised => some (s.setRequest id (.acknowledged threadId))
  | some (.sweeping calls _ staleIds) => do
      let c ← s.store.calls (id, calls)
      match c.status with
      | .running => none
      | .returned => s.decActiveSessions.sweepNext id (calls + 1) staleIds
      | .raised => s.sweepNext id (calls + 1) staleIds
  | some (.streaming _ _ _) | some (.acknowledged _) | some .finished | none => none

def step (s : Service κ) : ServiceEvent κ → Option (Service κ)
  | .turn id sessionId nowUnix =>
      match s.requests id with
      | none =>
          (s.startCall (id, 0) (.agetTuple sessionId nowUnix)).map fun s =>
            { s.setRequest id (.lookingUp sessionId) with seen := sessionId :: s.seen }
      | some _ => none
  | .newTurn id threadId =>
      match s.requests id with
      | none =>
          -- `uuid4().hex` is fresh
          if threadId ∈ s.seen then none
          else some
            { s.setRequest id (.streaming threadId true 0) with seen := threadId :: s.seen }
      | some _ => none
  | .done id sessionId nowUnix =>
      match s.requests id with
      | none =>
          (s.startCall (id, 0) (.agetTuple sessionId nowUnix)).map fun s =>
            { s.setRequest id (.checking sessionId) with seen := sessionId :: s.seen }
      | some _ => none
  | .tick id nowUnix thresholdSec staleIds =>
      match s.requests id with
      | none =>
          if staleIds.Perm (s.store.tables.brainstormMeta.listStale nowUnix thresholdSec) then
            s.sweepNext id 0 staleIds
          else none
      | some _ => none
  | .saverCall id operation =>
      match s.requests id with
      | some (.streaming threadId isNewSession calls) =>
          -- the first checkpoint of a run is inserted before any of its pending writes
          if operation.threadId = threadId ∧ operation.deletes = false ∧
              (operation.isPutWrites = true → isNewSession = true → s.hasPut id calls = true) then
            (s.startCall (id, calls) operation).map fun s =>
              s.setRequest id (.streaming threadId isNewSession (calls + 1))
          else none
      | _ => none
  | .returns call => (s.store.step (.returns call)).map fun store => { s with store }
  | .raises call tookEffect =>
      (s.store.step (.raises call tookEffect)).map fun store => { s with store }
  | .resume id => s.resume id
  | .finish id succeeded =>
      match s.requests id with
      | some (.streaming _ isNewSession calls) =>
          if s.settled id calls = true ∧
              (succeeded = true → isNewSession = true → s.hasPut id calls = true) then
            some ({ s with activeSessions := s.activeSessions +
              if succeeded && isNewSession then 1 else 0 }.setRequest id .finished)
          else none
      | _ => none
  | .restart => some
      { s with
        store := ⟨s.store.connection.rollback, fun _ => none⟩
        requests := fun _ => none
        activeSessions := 0 }

def after (events : List (ServiceEvent κ)) : Service κ := (run step {} events).getD {}

inductive Steps (s : Service κ) : ServiceEvent κ → Service κ → Prop
  | turn (id : κ) (threadId : String) (nowUnix : Int) (t : Service κ) (free : s.requests id = none)
      (started : s.startCall (id, 0) (.agetTuple threadId nowUnix) = some t) :
      Steps s (.turn id threadId nowUnix)
        { t.setRequest id (.lookingUp threadId) with seen := threadId :: s.seen }
  | newTurn (id : κ) (threadId : String) (free : s.requests id = none) (fresh : threadId ∉ s.seen) :
      Steps s (.newTurn id threadId)
        { s.setRequest id (.streaming threadId true 0) with seen := threadId :: s.seen }
  | done (id : κ) (threadId : String) (nowUnix : Int) (t : Service κ) (free : s.requests id = none)
      (started : s.startCall (id, 0) (.agetTuple threadId nowUnix) = some t) :
      Steps s (.done id threadId nowUnix)
        { t.setRequest id (.checking threadId) with seen := threadId :: s.seen }
  | tick (id : κ) (nowUnix thresholdSec : Int) (staleIds : List String) (s' : Service κ)
      (free : s.requests id = none)
      (listed : staleIds.Perm (s.store.tables.brainstormMeta.listStale nowUnix thresholdSec))
      (next : s.sweepNext id 0 staleIds = some s') :
      Steps s (.tick id nowUnix thresholdSec staleIds) s'
  | saverCall (id : κ) (operation : Operation) (isNewSession : Bool) (calls : Nat) (t : Service κ)
      (streams : s.requests id = some (.streaming operation.threadId isNewSession calls))
      (keeps : operation.deletes = false)
      (ordered : operation.isPutWrites = true → isNewSession = true → s.hasPut id calls = true)
      (started : s.startCall (id, calls) operation = some t) :
      Steps s (.saverCall id operation)
        (t.setRequest id (.streaming operation.threadId isNewSession (calls + 1)))
  | returns (call : κ × Nat) (store : Store (κ × Nat))
      (returned : s.store.step (.returns call) = some store) :
      Steps s (.returns call) { s with store }
  | raises (call : κ × Nat) (tookEffect : Bool) (store : Store (κ × Nat))
      (raised : s.store.step (.raises call tookEffect) = some store) :
      Steps s (.raises call tookEffect) { s with store }
  | accepted (id : κ) (threadId : String) (c : SaverCall)
      (looking : s.requests id = some (.lookingUp threadId)) (called : s.store.calls (id, 0) = some c)
      (returned : c.status = .returned) (found : c.found = true) :
      Steps s (.resume id) (s.setRequest id (.streaming threadId false 1))
  | refused (id : κ) (threadId : String) (c : SaverCall)
      (waits : s.requests id = some (.lookingUp threadId) ∨ s.requests id = some (.checking threadId))
      (called : s.store.calls (id, 0) = some c) (ended : c.status ≠ .running) :
      Steps s (.resume id) (s.setRequest id .finished)
  | confirmed (id : κ) (threadId : String) (c : SaverCall) (t : Service κ)
      (checks : s.requests id = some (.checking threadId)) (called : s.store.calls (id, 0) = some c)
      (returned : c.status = .returned) (found : c.found = true)
      (started : s.startCall (id, 1) (.adeleteThread threadId) = some t) :
      Steps s (.resume id) (t.setRequest id (.closing threadId))
  | missing (id : κ) (threadId : String) (c : SaverCall)
      (checks : s.requests id = some (.checking threadId)) (called : s.store.calls (id, 0) = some c)
      (returned : c.status = .returned) (unfound : c.found = false) :
      Steps s (.resume id) (s.setRequest id (.acknowledged threadId))
  | closed (id : κ) (threadId : String) (c : SaverCall)
      (closes : s.requests id = some (.closing threadId)) (called : s.store.calls (id, 1) = some c)
      (returned : c.status = .returned) :
      Steps s (.resume id) (s.decActiveSessions.setRequest id (.acknowledged threadId))
  | swallowed (id : κ) (threadId : String) (c : SaverCall)
      (closes : s.requests id = some (.closing threadId)) (called : s.store.calls (id, 1) = some c)
      (raised : c.status = .raised) :
      Steps s (.resume id) (s.setRequest id (.acknowledged threadId))
  | swept (id : κ) (calls : Nat) (threadId : String) (staleIds : List String) (c : SaverCall)
      (s' : Service κ) (sweeps : s.requests id = some (.sweeping calls threadId staleIds))
      (called : s.store.calls (id, calls) = some c) (returned : c.status = .returned)
      (next : s.decActiveSessions.sweepNext id (calls + 1) staleIds = some s') :
      Steps s (.resume id) s'
  | sweepError (id : κ) (calls : Nat) (threadId : String) (staleIds : List String) (c : SaverCall)
      (s' : Service κ) (sweeps : s.requests id = some (.sweeping calls threadId staleIds))
      (called : s.store.calls (id, calls) = some c) (raised : c.status = .raised)
      (next : s.sweepNext id (calls + 1) staleIds = some s') :
      Steps s (.resume id) s'
  | finish (id : κ) (threadId : String) (isNewSession succeeded : Bool) (calls : Nat)
      (streams : s.requests id = some (.streaming threadId isNewSession calls))
      (settled : s.settled id calls = true)
      (put : succeeded = true → isNewSession = true → s.hasPut id calls = true) :
      Steps s (.finish id succeeded) ({ s with activeSessions := s.activeSessions +
        if succeeded && isNewSession then 1 else 0 }.setRequest id .finished)
  | restart : Steps s .restart
      { s with
        store := ⟨s.store.connection.rollback, fun _ => none⟩
        requests := fun _ => none
        activeSessions := 0 }

theorem startCall_some {s t : Service κ} {call : κ × Nat} {operation : Operation}
    (started : s.startCall call operation = some t) :
    s.store.calls call = none ∧ t = { s with store := s.store.setCall call { operation } } := by
  obtain ⟨store, stepped, rfl⟩ := Option.map_eq_some_iff.mp started
  cases Store.step_steps stepped with
  | call _ _ fresh => exact ⟨fresh, rfl⟩

theorem startCall_seen {s t : Service κ} {call : κ × Nat} {operation : Operation}
    (started : s.startCall call operation = some t) : t.seen = s.seen := by
  obtain ⟨-, rfl⟩ := startCall_some started
  rfl

theorem resume_steps {s s' : Service κ} {id : κ} (taken : s.resume id = some s') :
    Steps s (.resume id) s' := by
  unfold resume at taken
  split at taken
  case h_1 threadId waits =>
    obtain ⟨c, called, taken⟩ := Option.bind_eq_some_iff.mp taken
    split at taken
    case h_1 => cases taken
    case h_2 _ returned found =>
      cases taken
      exact .accepted id threadId c waits called returned found
    case h_3 _ returned _ =>
      cases taken
      exact .refused id threadId c (.inl waits) called (by simp [returned])
    case h_4 _ raised =>
      cases taken
      exact .refused id threadId c (.inl waits) called (by simp [raised])
  case h_2 threadId waits =>
    obtain ⟨c, called, taken⟩ := Option.bind_eq_some_iff.mp taken
    split at taken
    case h_1 => cases taken
    case h_2 _ returned found =>
      obtain ⟨t, started, rfl⟩ := Option.map_eq_some_iff.mp taken
      exact .confirmed id threadId c t waits called returned found started
    case h_3 _ returned unfound =>
      cases taken
      exact .missing id threadId c waits called returned unfound
    case h_4 _ raised =>
      cases taken
      exact .refused id threadId c (.inr waits) called (by simp [raised])
  case h_3 threadId waits =>
    obtain ⟨c, called, taken⟩ := Option.bind_eq_some_iff.mp taken
    split at taken
    case h_1 => cases taken
    case h_2 returned => cases taken; exact .closed id threadId c waits called returned
    case h_3 raised => cases taken; exact .swallowed id threadId c waits called raised
  case h_4 calls threadId staleIds sweeps =>
    obtain ⟨c, called, taken⟩ := Option.bind_eq_some_iff.mp taken
    split at taken
    case h_1 => cases taken
    case h_2 returned => exact .swept id calls threadId staleIds c s' sweeps called returned taken
    case h_3 raised => exact .sweepError id calls threadId staleIds c s' sweeps called raised taken
  all_goals cases taken

theorem step_steps {s s' : Service κ} {e : ServiceEvent κ} (taken : s.step e = some s') :
    Steps s e s' := by
  cases e with
  | turn id threadId nowUnix =>
      simp only [step] at taken
      split at taken
      · rename_i free
        obtain ⟨t, started, rfl⟩ := Option.map_eq_some_iff.mp taken
        rw [startCall_seen started]
        exact .turn id threadId nowUnix t free started
      · cases taken
  | newTurn id threadId =>
      simp only [step] at taken
      split at taken
      · rename_i free
        split at taken
        · cases taken
        · rename_i fresh
          cases taken
          exact .newTurn id threadId free fresh
      · cases taken
  | done id threadId nowUnix =>
      simp only [step] at taken
      split at taken
      · rename_i free
        obtain ⟨t, started, rfl⟩ := Option.map_eq_some_iff.mp taken
        rw [startCall_seen started]
        exact .done id threadId nowUnix t free started
      · cases taken
  | tick id nowUnix thresholdSec staleIds =>
      simp only [step] at taken
      split at taken
      · rename_i free
        split at taken
        · rename_i listed
          exact .tick id nowUnix thresholdSec staleIds s' free listed taken
        · cases taken
      · cases taken
  | saverCall id operation =>
      simp only [step] at taken
      split at taken
      · rename_i threadId isNewSession calls streams
        split at taken
        · rename_i allowed
          obtain ⟨rfl, keeps, ordered⟩ := allowed
          obtain ⟨t, started, rfl⟩ := Option.map_eq_some_iff.mp taken
          exact .saverCall id operation isNewSession calls t streams keeps ordered started
        · cases taken
      · cases taken
  | returns call =>
      obtain ⟨store, returned, rfl⟩ := Option.map_eq_some_iff.mp taken
      exact .returns call store returned
  | raises call tookEffect =>
      obtain ⟨store, raised, rfl⟩ := Option.map_eq_some_iff.mp taken
      exact .raises call tookEffect store raised
  | resume id => exact resume_steps taken
  | finish id succeeded =>
      simp only [step] at taken
      split at taken
      · rename_i threadId isNewSession calls streams
        split at taken
        · rename_i allowed
          cases taken
          exact .finish id threadId isNewSession succeeded calls streams allowed.1 allowed.2
        · cases taken
      · cases taken
  | restart =>
      cases taken
      exact .restart

end Service

end DecisionMaker.Server
