import DecisionMaker.Library.Connection
import DecisionMaker.Library.Schedule
import DecisionMaker.Server.Sweeper
import Mathlib.Data.Finset.Basic
import Mathlib.Logic.Function.Basic

/-!
# The checkpointer and its connection

The operations of `TouchingCheckpointer` share one connection of `aiosqlite`. Between two awaits of
an operation any other operation can run, and its commit takes along whatever is pending. Of a
table the rows that matter here are those of a thread taken together.
-/

namespace DecisionMaker.Server

open Library

structure Tables where
  checkpoints : Finset String := ∅
  writes : Finset String := ∅
  brainstormMeta : MetaTable String := ∅

inductive Statement
  | insertCheckpoint (threadId : String)
  | insertWrites (threadId : String)
  | replaceMeta (threadId : String) (lastTouched : Int)
  | deleteCheckpoints (threadId : String)
  | deleteWrites (threadId : String)
  | deleteMeta (threadId : String)
  deriving DecidableEq

def Statement.apply (t : Tables) : Statement → Tables
  | .insertCheckpoint threadId => { t with checkpoints := insert threadId t.checkpoints }
  | .insertWrites threadId => { t with writes := insert threadId t.writes }
  | .replaceMeta threadId lastTouched =>
      { t with brainstormMeta := t.brainstormMeta.insert threadId lastTouched }
  | .deleteCheckpoints threadId => { t with checkpoints := t.checkpoints.erase threadId }
  | .deleteWrites threadId => { t with writes := t.writes.erase threadId }
  | .deleteMeta threadId => { t with brainstormMeta := t.brainstormMeta.erase threadId }

inductive Action
  | select (threadId : String)
  | execute (statement : Statement)
  | commit
  deriving DecidableEq

inductive Operation
  | aget (threadId : String) (nowUnix : Int)
  | agetTuple (threadId : String) (nowUnix : Int)
  | aput (threadId : String) (nowUnix : Int)
  | aputWrites (threadId : String) (nowUnix : Int)
  | adeleteThread (threadId : String)
  deriving DecidableEq

def Operation.threadId : Operation → String
  | .aget threadId _ | .agetTuple threadId _ | .aput threadId _ | .aputWrites threadId _ => threadId
  | .adeleteThread threadId => threadId

def Operation.deletes : Operation → Bool
  | .adeleteThread _ => true
  | _ => false

def touch (threadId : String) (nowUnix : Int) : List Action :=
  [.execute (.replaceMeta threadId nowUnix), .commit]

/-- `_extract_thread_id` takes an empty thread id for a missing one. -/
def touchIfNamed (threadId : String) (nowUnix : Int) : List Action :=
  if threadId = "" then [] else touch threadId nowUnix

/-- The awaits of an operation. The lock that the inner saver holds between an insert and its
commit excludes its own calls only, neither a touch nor a deletion. -/
def Operation.program : Operation → List Action
  | .aget threadId nowUnix => .select threadId :: touchIfNamed threadId nowUnix
  | .agetTuple threadId nowUnix => .select threadId :: touchIfNamed threadId nowUnix
  | .aput threadId nowUnix =>
      .execute (.insertCheckpoint threadId) :: .commit :: touchIfNamed threadId nowUnix
  | .aputWrites threadId nowUnix =>
      .execute (.insertWrites threadId) :: .commit :: touchIfNamed threadId nowUnix
  | .adeleteThread threadId =>
      [.execute (.deleteCheckpoints threadId), .execute (.deleteWrites threadId),
       .execute (.deleteMeta threadId), .commit]

inductive CallStatus
  | running
  | returned
  | raised
  deriving DecidableEq

structure SaverCall where
  operation : Operation
  -- the awaits that have taken effect
  done : Nat := 0
  found : Bool := false
  status : CallStatus := .running

def SaverCall.next (c : SaverCall) : Option Action := c.operation.program[c.done]?

def SaverCall.advance (c : SaverCall) (t : Tables) (a : Action) : SaverCall :=
  { c with
    done := c.done + 1
    found :=
      match a with
      | .select threadId => decide (threadId ∈ t.checkpoints)
      | .execute _ | .commit => c.found
    status := if c.done + 1 = c.operation.program.length then .returned else .running }

structure Store (ι : Type*) where
  connection : Connection (ι × Statement) := {}
  calls : ι → Option SaverCall := fun _ => none

/-- An await raises before its statement takes effect, or after (a cancellation reaches the
coroutine while the statement runs in the thread of the connection). -/
inductive StoreEvent (ι : Type*)
  | call (id : ι) (operation : Operation)
  | returns (id : ι)
  | raises (id : ι) (tookEffect : Bool)

namespace Store
variable {ι : Type*}

def tablesOf (journal : List (ι × Statement)) : Tables :=
  (journal.map Prod.snd).foldl Statement.apply {}

def tables (s : Store ι) : Tables := tablesOf s.connection.journal

def durable (s : Store ι) : Tables := tablesOf s.connection.committed

def act (s : Store ι) (id : ι) : Action → Connection (ι × Statement)
  | .select _ => s.connection
  | .execute statement => s.connection.execute (id, statement)
  | .commit => s.connection.commit

variable [DecidableEq ι]

def setCall (s : Store ι) (id : ι) (c : SaverCall) : Store ι :=
  { s with calls := Function.update s.calls id (some c) }

@[simp] theorem setCall_connection (s : Store ι) (id : ι) (c : SaverCall) :
    (s.setCall id c).connection = s.connection := rfl

@[simp] theorem setCall_self (s : Store ι) (id : ι) (c : SaverCall) :
    (s.setCall id c).calls id = some c :=
  Function.update_self ..

theorem setCall_other (s : Store ι) {id other : ι} (apart : other ≠ id) (c : SaverCall) :
    (s.setCall id c).calls other = s.calls other :=
  Function.update_of_ne apart ..

def step (s : Store ι) : StoreEvent ι → Option (Store ι)
  | .call id operation =>
      match s.calls id with
      | none => some (s.setCall id { operation })
      | some _ => none
  | .returns id =>
      match s.calls id with
      | some c =>
          match c.status, c.next with
          | .running, some a =>
              some ({ s with connection := s.act id a }.setCall id (c.advance s.tables a))
          | _, _ => none
      | none => none
  | .raises id tookEffect =>
      match s.calls id with
      | some c =>
          match c.status, c.next with
          | .running, some a =>
              if tookEffect then
                some ({ s with connection := s.act id a }.setCall id
                  { c.advance s.tables a with status := .raised })
              else some (s.setCall id { c with status := .raised })
          | _, _ => none
      | none => none

inductive Steps (s : Store ι) : StoreEvent ι → Store ι → Prop
  | call (id : ι) (operation : Operation) (fresh : s.calls id = none) :
      Steps s (.call id operation) (s.setCall id { operation })
  | returns (id : ι) (c : SaverCall) (a : Action) (called : s.calls id = some c)
      (running : c.status = .running) (next : c.next = some a) :
      Steps s (.returns id) ({ s with connection := s.act id a }.setCall id (c.advance s.tables a))
  | raisesAfter (id : ι) (c : SaverCall) (a : Action) (called : s.calls id = some c)
      (running : c.status = .running) (next : c.next = some a) :
      Steps s (.raises id true) ({ s with connection := s.act id a }.setCall id
        { c.advance s.tables a with status := .raised })
  | raisesBefore (id : ι) (c : SaverCall) (a : Action) (called : s.calls id = some c)
      (running : c.status = .running) (next : c.next = some a) :
      Steps s (.raises id false) (s.setCall id { c with status := .raised })

theorem step_steps {s s' : Store ι} {e : StoreEvent ι} (taken : s.step e = some s') :
    Steps s e s' := by
  cases e with
  | call id operation =>
      simp only [step] at taken
      split at taken
      · rename_i fresh
        cases taken
        exact .call id operation fresh
      · cases taken
  | returns id =>
      simp only [step] at taken
      split at taken
      · rename_i c called
        split at taken
        · rename_i a running next
          cases taken
          exact .returns id c a called running next
        · cases taken
      · cases taken
  | raises id tookEffect =>
      simp only [step] at taken
      split at taken
      · rename_i c called
        split at taken
        · rename_i a running next
          cases tookEffect with
          | true => cases taken; exact .raisesAfter id c a called running next
          | false => cases taken; exact .raisesBefore id c a called running next
        · cases taken
      · cases taken

end Store

end DecisionMaker.Server
