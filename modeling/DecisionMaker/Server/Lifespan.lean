import DecisionMaker.Library.Schedule
import Mathlib.Data.Finset.Lattice.Lemmas

/-!
# The life of the application

`lifespan` from its first statement to the end of its `finally`, with the context manager of
`build_checkpointer` and the task of the sweeper, which runs beside it. Every statement that can
raise may raise, and the task may end at any time.
-/

namespace DecisionMaker.Server

open Library

/-- What an `except Exception` catches, what `except asyncio.CancelledError` catches, and what
neither does: `KeyboardInterrupt` and `SystemExit`. -/
inductive Fault
  | exception (name : String)
  | cancelledError
  | exiting
  deriving DecidableEq

inductive Attribute
  | checkpointer | llmClient | registry | metrics | idempotencyCache | cfg | sweeperTask
  deriving DecidableEq

inductive Handler
  | turn | done | healthz | readyz | metrics

def Handler.reads : Handler → List Attribute
  | .turn => [.checkpointer, .metrics, .idempotencyCache, .llmClient, .registry, .cfg]
  | .done => [.checkpointer, .metrics]
  | .healthz => []
  | .readyz => [.checkpointer, .cfg, .metrics]
  | .metrics => [.registry]

inductive Handle
  | unopened
  | opened
  | closed
  -- the closing raised
  | failed
  deriving DecidableEq

/-- `Sweeper.run` never returns. -/
inductive SweeperRun
  | absent
  | running
  | gone (fault : Fault)
  deriving DecidableEq

inductive LifePhase
  | configuring
  | entering
  | settingUp
  | buildingClient
  | buildingMetrics
  | startingSweeper
  | announcing
  | serving
  -- the `finally`
  | cancelling
  | awaitingSweeper
  | disconnecting
  | finished
  deriving DecidableEq

structure Lifespan where
  phase : LifePhase := .configuring
  checkpointerKind : String := ""
  -- the two variables that the `finally` looks at
  checkpointer : Bool := false
  sweeperTask : Bool := false
  connection : Handle := .unopened
  sweeper : SweeperRun := .absent
  appState : Finset Attribute := ∅
  -- what ended the serving or the startup, and what `lifespan` raises in the end
  cause : Option Fault := none
  raised : Option Fault := none

inductive LifeEvent
  -- the injected `Config`, or that of `get_cfg`
  | configure (checkpointerKind : Except Fault String)
  | enter (imported : Bool) (connect : Option Fault)
  | setUp (fault : Option Fault)
  | buildClient (fault : Option Fault)
  | buildMetrics (fault : Option Fault)
  | startSweeper
  | announce (fault : Option Fault)
  | leave (fault : Option Fault)
  | cancelSweeper
  | sweeperAwaited
  | disconnect (fault : Option Fault)
  -- the task sends a statement over the connection, or it ends
  | sweep
  | sweeperEnds (fault : Fault)

/-- What entering the context manager raises: `__aenter__` runs the factory up to its `yield`. -/
def buildCheckpointer (kind : String) (imported : Bool) (connect : Option Fault) : Option Fault :=
  if kind = "sqlite" then connect
  else if kind = "postgres" then if imported then connect else some (.exception "ConfigError")
  else some (.exception "ConfigError")

theorem buildCheckpointer_eq_none {kind : String} {imported : Bool} {connect : Option Fault}
    (entered : buildCheckpointer kind imported connect = none) : kind = "sqlite" ∨ kind = "postgres" := by
  unfold buildCheckpointer at entered
  split at entered
  · exact .inl ‹_›
  · split at entered
    · exact .inr ‹_›
    · cases entered

namespace Lifespan

def during (s : Lifespan) (phase : LifePhase) (next : Lifespan) : Option Lifespan :=
  if s.phase = phase then some next else none

theorem during_some {s s' next : Lifespan} {phase : LifePhase} :
    s.during phase next = some s' ↔ s.phase = phase ∧ next = s' := by
  simp [during]

/-- The `finally` is entered, with an exception or without. -/
def unwind (s : Lifespan) (fault : Option Fault) : Lifespan :=
  { s with phase := .cancelling, cause := fault, raised := fault }

def orUnwind (s : Lifespan) (fault : Option Fault) (next : Lifespan) : Lifespan :=
  match fault with
  | some f => s.unwind (some f)
  | none => next

def provide (s : Lifespan) (attributes : Finset Attribute) (phase : LifePhase) : Lifespan :=
  { s with appState := s.appState ∪ attributes, phase := phase }

def step (s : Lifespan) : LifeEvent → Option Lifespan
  | .configure checkpointerKind => s.during .configuring <|
      match checkpointerKind with
      | .ok kind => { s with checkpointerKind := kind, phase := .entering }
      -- outside the `try`
      | .error f => { s with phase := .finished, cause := some f, raised := some f }
  | .enter imported connect => s.during .entering <|
      s.orUnwind (buildCheckpointer s.checkpointerKind imported connect)
        { s with checkpointer := true, connection := .opened, phase := .settingUp }
  | .setUp fault => s.during .settingUp <| s.orUnwind fault (s.provide {.checkpointer} .buildingClient)
  | .buildClient fault => s.during .buildingClient <|
      s.orUnwind fault (s.provide {.llmClient} .buildingMetrics)
  | .buildMetrics fault => s.during .buildingMetrics <|
      s.orUnwind fault (s.provide {.registry, .metrics, .idempotencyCache, .cfg} .startingSweeper)
  | .startSweeper => s.during .startingSweeper
      { s.provide {.sweeperTask} .announcing with sweeperTask := true, sweeper := .running }
  | .announce fault => s.during .announcing <| s.orUnwind fault { s with phase := .serving }
  | .leave fault => s.during .serving (s.unwind fault)
  | .cancelSweeper => s.during .cancelling
      { s with phase := if s.sweeperTask then .awaitingSweeper else .disconnecting }
  | .sweeperAwaited =>
      match s.sweeper with
      | .gone .exiting => s.during .awaitingSweeper { s with phase := .finished, raised := some .exiting }
      -- its other exceptions are swallowed, and so is a cancellation of the waiting
      | .gone _ => s.during .awaitingSweeper { s with phase := .disconnecting }
      | .absent | .running => none
  | .disconnect fault => s.during .disconnecting <|
      if s.checkpointer then
        match fault with
        | none => { s with connection := .closed, phase := .finished }
        | some (.exception _) => { s with connection := .failed, phase := .finished }
        | some f => { s with connection := .failed, phase := .finished, raised := some f }
      else { s with phase := .finished }
  | .sweep => if s.sweeper = .running then some s else none
  | .sweeperEnds fault => if s.sweeper = .running then some { s with sweeper := .gone fault } else none

structure Untouched (s : Lifespan) : Prop where
  checkpointer : s.checkpointer = false
  connection : s.connection = .unopened
  sweeperTask : s.sweeperTask = false
  sweeper : s.sweeper = .absent

structure Connected (s : Lifespan) (attributes : Finset Attribute) : Prop where
  checkpointer : s.checkpointer = true
  connection : s.connection = .opened
  kind : s.checkpointerKind = "sqlite" ∨ s.checkpointerKind = "postgres"
  appState : attributes ⊆ s.appState

structure Idle (s : Lifespan) (attributes : Finset Attribute) : Prop extends Connected s attributes where
  sweeperTask : s.sweeperTask = false
  sweeper : s.sweeper = .absent

structure Sweeping (s : Lifespan) (attributes : Finset Attribute) : Prop extends Connected s attributes where
  sweeperTask : s.sweeperTask = true
  sweeper : s.sweeper ≠ .absent

def built : Finset Attribute := {.checkpointer, .llmClient, .registry, .metrics, .idempotencyCache, .cfg}

def Holds (s : Lifespan) : Prop :=
  match s.phase with
  | .configuring | .entering => s.Untouched
  | .settingUp => s.Idle ∅
  | .buildingClient => s.Idle {.checkpointer}
  | .buildingMetrics => s.Idle {.checkpointer, .llmClient}
  | .startingSweeper => s.Idle built
  | .announcing | .serving => s.Sweeping built
  | .cancelling => s.raised = s.cause ∧ (s.Untouched ∨ s.Idle ∅ ∨ s.Sweeping ∅)
  | .awaitingSweeper => s.raised = s.cause ∧ s.Sweeping ∅
  | .disconnecting => s.raised = s.cause ∧ s.sweeper ≠ .running ∧ (s.Untouched ∨ s.Connected ∅)
  | .finished => s.sweeper ≠ .running ∧ (s.connection = .opened → s.raised = some .exiting) ∧
      (s.raised = s.cause ∨ s.raised = some .cancelledError ∨ s.raised = some .exiting)

theorem Connected.mono {s : Lifespan} {fewer more : Finset Attribute} (connected : s.Connected more)
    (subset : fewer ⊆ more) : s.Connected fewer :=
  { connected with appState := subset.trans connected.appState }

theorem Idle.mono {s : Lifespan} {fewer more : Finset Attribute} (idle : s.Idle more)
    (subset : fewer ⊆ more) : s.Idle fewer :=
  { idle with toConnected := idle.toConnected.mono subset }

theorem Sweeping.mono {s : Lifespan} {fewer more : Finset Attribute} (sweeping : s.Sweeping more)
    (subset : fewer ⊆ more) : s.Sweeping fewer :=
  { sweeping with toConnected := sweeping.toConnected.mono subset }

theorem holds_orUnwind {s next : Lifespan} {fault : Option Fault}
    (stands : s.Untouched ∨ s.Idle ∅ ∨ s.Sweeping ∅) (holds : fault = none → next.Holds) :
    (s.orUnwind fault next).Holds := by
  cases fault with
  | none => exact holds rfl
  | some f =>
      refine ⟨rfl, ?_⟩
      rcases stands with untouched | idle | sweeping
      · exact .inl { untouched with }
      · exact .inr (.inl { idle with })
      · exact .inr (.inr { sweeping with })

theorem Idle.provide {s : Lifespan} {held added : Finset Attribute} (idle : s.Idle held)
    (phase : LifePhase) : (s.provide added phase).Idle (held ∪ added) :=
  { idle with appState := Finset.union_subset_union_left idle.appState }

theorem Untouched.not_running {s : Lifespan} (untouched : s.Untouched) : s.sweeper ≠ .running := by
  simp [untouched.sweeper]

theorem Idle.not_running {s : Lifespan} {attributes : Finset Attribute} (idle : s.Idle attributes) :
    s.sweeper ≠ .running := by
  simp [idle.sweeper]

theorem Sweeping.ends {s : Lifespan} {attributes : Finset Attribute} (sweeping : s.Sweeping attributes)
    (fault : Fault) : { s with sweeper := .gone fault }.Sweeping attributes :=
  { sweeping with sweeper := by simp }

theorem Holds.sweeperEnds {s : Lifespan} {fault : Fault} (holds : s.Holds) (running : s.sweeper = .running) :
    { s with sweeper := .gone fault }.Holds := by
  cases phase : s.phase <;> simp only [Holds, phase] at holds ⊢
  case configuring | entering => exact absurd running holds.not_running
  case settingUp | buildingClient | buildingMetrics | startingSweeper =>
    exact absurd running holds.not_running
  case announcing | serving => exact { holds.ends fault with }
  case cancelling =>
    obtain ⟨same, untouched | idle | sweeping⟩ := holds
    · exact absurd running untouched.not_running
    · exact absurd running idle.not_running
    · exact ⟨same, .inr (.inr { sweeping.ends fault with })⟩
  case awaitingSweeper => exact ⟨holds.1, { holds.2.ends fault with }⟩
  case disconnecting => exact absurd running holds.2.1
  case finished => exact absurd running holds.1

theorem Holds.cancelSweeper {s s' : Lifespan} (holds : s.Holds) (taken : s.step .cancelSweeper = some s') :
    s'.Holds := by
  obtain ⟨phase, rfl⟩ := during_some.mp taken
  simp only [Holds, phase] at holds
  obtain ⟨same, untouched | idle | sweeping⟩ := holds
  · rw [if_neg (by simp [untouched.sweeperTask])]
    exact ⟨same, untouched.not_running, .inl { untouched with }⟩
  · rw [if_neg (by simp [idle.sweeperTask])]
    exact ⟨same, idle.not_running, .inr { idle.toConnected with }⟩
  · rw [if_pos sweeping.sweeperTask]
    exact ⟨same, { sweeping with }⟩

theorem Holds.sweeperAwaited {s s' : Lifespan} (holds : s.Holds) (taken : s.step .sweeperAwaited = some s') :
    s'.Holds := by
  obtain ⟨fault, gone⟩ : ∃ fault, s.sweeper = .gone fault := by
    cases sweeper : s.sweeper with
    | gone fault => exact ⟨fault, rfl⟩
    | absent | running => simp [step, sweeper] at taken
  simp only [step, gone] at taken
  cases fault with
  | exiting =>
      obtain ⟨phase, rfl⟩ := during_some.mp taken
      simp [Holds]
  | exception _ | cancelledError =>
      obtain ⟨phase, rfl⟩ := during_some.mp taken
      simp only [Holds, phase] at holds
      exact ⟨holds.1, by simp, .inr { holds.2.toConnected with }⟩

theorem Holds.disconnect {s s' : Lifespan} {fault : Option Fault} (holds : s.Holds)
    (taken : s.step (.disconnect fault) = some s') : s'.Holds := by
  obtain ⟨phase, rfl⟩ := during_some.mp taken
  simp only [Holds, phase] at holds
  obtain ⟨same, ended, untouched | connected⟩ := holds
  · rw [if_neg (by simp [untouched.checkpointer])]
    exact ⟨ended, by simp [untouched.connection], .inl same⟩
  · rw [if_pos connected.checkpointer]
    cases fault with
    | none => exact ⟨ended, by simp, .inl same⟩
    | some fault =>
        cases fault with
        | exception _ => exact ⟨ended, by simp, .inl same⟩
        | cancelledError => exact ⟨ended, by simp, .inr (.inl rfl)⟩
        | exiting => exact ⟨ended, by simp, .inr (.inr rfl)⟩

theorem holds_step {s s' : Lifespan} {e : LifeEvent} (holds : s.Holds) (taken : s.step e = some s') :
    s'.Holds := by
  cases e with
  | configure checkpointerKind =>
      obtain ⟨phase, rfl⟩ := during_some.mp taken
      simp only [Holds, phase] at holds
      cases checkpointerKind with
      | ok kind => exact { holds with }
      | error f => simp [Holds, holds.sweeper, holds.connection]
  | enter imported connect =>
      obtain ⟨phase, rfl⟩ := during_some.mp taken
      simp only [Holds, phase] at holds
      exact holds_orUnwind (.inl holds) fun entered =>
        { checkpointer := rfl, connection := rfl, kind := buildCheckpointer_eq_none entered
          appState := Finset.empty_subset _, sweeperTask := holds.sweeperTask, sweeper := holds.sweeper }
  | setUp fault =>
      obtain ⟨phase, rfl⟩ := during_some.mp taken
      simp only [Holds, phase] at holds
      exact holds_orUnwind (.inr (.inl holds)) fun _ => holds.provide .buildingClient
  | buildClient fault =>
      obtain ⟨phase, rfl⟩ := during_some.mp taken
      simp only [Holds, phase] at holds
      exact holds_orUnwind (.inr (.inl (holds.mono (Finset.empty_subset _)))) fun _ =>
        holds.provide .buildingMetrics
  | buildMetrics fault =>
      obtain ⟨phase, rfl⟩ := during_some.mp taken
      simp only [Holds, phase] at holds
      exact holds_orUnwind (.inr (.inl (holds.mono (Finset.empty_subset _)))) fun _ =>
        holds.provide .startingSweeper
  | startSweeper =>
      obtain ⟨phase, rfl⟩ := during_some.mp taken
      simp only [Holds, phase] at holds
      exact { holds with
        appState := holds.appState.trans Finset.subset_union_left, sweeperTask := rfl
        sweeper := by simp }
  | announce fault =>
      obtain ⟨phase, rfl⟩ := during_some.mp taken
      simp only [Holds, phase] at holds
      exact holds_orUnwind (.inr (.inr (holds.mono (Finset.empty_subset _)))) fun _ => { holds with }
  | leave fault =>
      obtain ⟨phase, rfl⟩ := during_some.mp taken
      simp only [Holds, phase] at holds
      exact ⟨rfl, .inr (.inr { holds.mono (Finset.empty_subset _) with })⟩
  | cancelSweeper => exact holds.cancelSweeper taken
  | sweeperAwaited => exact holds.sweeperAwaited taken
  | disconnect fault => exact holds.disconnect taken
  | sweep =>
      simp only [step, Option.ite_none_right_eq_some, Option.some.injEq] at taken
      exact taken.2 ▸ holds
  | sweeperEnds fault =>
      simp only [step, Option.ite_none_right_eq_some, Option.some.injEq] at taken
      obtain ⟨running, rfl⟩ := taken
      exact holds.sweeperEnds running

structure Safe (s : Lifespan) : Prop where
  /-- No sweep is sent over a connection that is not open yet, or not open any more. -/
  sweep : s.sweeper = .running → s.connection = .opened
  serve : s.phase = .serving →
    s.connection = .opened ∧ (s.checkpointerKind = "sqlite" ∨ s.checkpointerKind = "postgres") ∧
      ∀ handler : Handler, ∀ name ∈ handler.reads, name ∈ s.appState
  /-- Nothing is left behind, and what was raised is not lost. -/
  finish : s.phase = .finished →
    s.sweeper ≠ .running ∧ (s.connection = .opened → s.raised = some .exiting) ∧
      (s.raised = s.cause ∨ s.raised = some .cancelledError ∨ s.raised = some .exiting)

theorem reads_built (handler : Handler) {name : Attribute} (member : name ∈ handler.reads) :
    name ∈ built := by
  cases handler <;> revert name <;> decide

theorem Holds.opened {s : Lifespan} (holds : s.Holds) (running : s.sweeper = .running) :
    s.connection = .opened := by
  cases phase : s.phase <;> simp only [Holds, phase] at holds
  case configuring | entering => exact absurd running holds.not_running
  case settingUp | buildingClient | buildingMetrics | startingSweeper => exact holds.connection
  case announcing | serving => exact holds.connection
  case cancelling =>
    obtain ⟨same, untouched | idle | sweeping⟩ := holds
    · exact absurd running untouched.not_running
    · exact idle.connection
    · exact sweeping.connection
  case awaitingSweeper => exact holds.2.connection
  case disconnecting => exact absurd running holds.2.1
  case finished => exact absurd running holds.1

theorem Holds.safe {s : Lifespan} (holds : s.Holds) : s.Safe := by
  refine ⟨holds.opened, fun phase => ?_, fun phase => ?_⟩
  · simp only [Holds, phase] at holds
    exact ⟨holds.connection, holds.kind, fun handler name member =>
      holds.appState (reads_built handler member)⟩
  · simpa only [Holds, phase] using holds

/-- Whatever raises, and whenever the sweeper ends, `lifespan` closes what it opened in the reverse
order. -/
theorem lifespan_safe {s : Lifespan} {events : List LifeEvent} (taken : run step {} events = some s) :
    s.Safe := by
  have holds : s.Holds := by
    refine run_invariant (I := Holds) (fun _ _ _ => holds_step) ?_ taken
    exact { checkpointer := rfl, connection := rfl, sweeperTask := rfl, sweeper := rfl }
  exact holds.safe

def shutdown : List LifeEvent :=
  [.configure (.ok "sqlite"), .enter true none, .setUp none, .buildClient none, .buildMetrics none,
    .startSweeper, .announce none, .sweep, .leave none, .cancelSweeper, .sweeperEnds .cancelledError,
    .sweeperAwaited, .disconnect none]

theorem lifespan_safe_shutdown : ∃ s : Lifespan, run step {} shutdown = some s ∧ s.phase = .finished ∧
    s.connection = .closed ∧ s.raised = none ∧ s.Safe :=
  ⟨_, rfl, rfl, rfl, rfl, lifespan_safe (rfl : run step {} shutdown = some _)⟩

end Lifespan

end DecisionMaker.Server
