import DecisionMaker.Library.Text
import Mathlib.Data.List.Induction

namespace DecisionMaker.Server

open Library

inductive SweepError
  | storage
  | unicodeEncodeError
  deriving DecidableEq

/-- The outcomes a tick meets: of the listing, and of each deletion by its place in the list. -/
structure TickOutcome where
  listStale : Except SweepError (List Str)
  adeleteThread : Nat → Except SweepError Unit

structure SweeperMetrics where
  sweeperRunsTotal : Nat := 0
  sweeperDeletedTotal : Nat := 0
  activeSessions : Int := 0
  deriving DecidableEq

structure Tick where
  metrics : SweeperMetrics
  attempted : List Str := []
  deletedCount : Nat := 0
  raised : Option SweepError := none

def sweepFp (threadId : Str) : Except SweepError Unit :=
  match encodeUtf8 threadId with
  | none => .error .unicodeEncodeError
  | some _ => .ok ()

namespace Tick

def adelete (t : Tick) (threadId : Str) (deletion : Except SweepError Unit) : Tick :=
  match deletion with
  | .ok _ =>
      { t with
        metrics := { t.metrics with activeSessions := t.metrics.activeSessions - 1 }
        attempted := t.attempted ++ [threadId]
        deletedCount := t.deletedCount + 1 }
  | .error _ => { t with attempted := t.attempted ++ [threadId] }

/-- The fingerprint of a deleted session is taken inside the `try`, but its handler takes it again. -/
def delete (t : Tick) (threadId : Str) (deletion : Except SweepError Unit) : Tick :=
  match sweepFp threadId with
  | .ok _ => t.adelete threadId deletion
  | .error e => { t.adelete threadId deletion with raised := some e }

def deleteAll (adeleteThread : Nat → Except SweepError Unit) : Nat → List Str → Tick → Tick
  | _, [], t => t
  | place, threadId :: staleIds, t =>
      let t := t.delete threadId (adeleteThread place)
      if t.raised.isSome then t else deleteAll adeleteThread (place + 1) staleIds t

def summary (t : Tick) : Tick :=
  { t with metrics := { t.metrics with
      sweeperRunsTotal := t.metrics.sweeperRunsTotal + 1
      sweeperDeletedTotal := t.metrics.sweeperDeletedTotal +
        if 0 < t.deletedCount then t.deletedCount else 0 } }

/-- `_tick`: only the deletions are guarded. -/
def run (o : TickOutcome) (metrics : SweeperMetrics) : Tick :=
  match o.listStale with
  | .error e => { metrics, raised := some e }
  | .ok staleIds =>
      let t := deleteAll o.adeleteThread 0 staleIds { metrics }
      if t.raised.isSome then t else t.summary

end Tick

structure SweeperTask where
  metrics : SweeperMetrics := {}
  -- by tick
  attempted : List (List Str) := []
  raised : Option SweepError := none

namespace SweeperTask

def step (task : SweeperTask) (o : TickOutcome) : SweeperTask :=
  if task.raised.isSome then task
  else
    let t := Tick.run o task.metrics
    ⟨t.metrics, task.attempted ++ [t.attempted], t.raised⟩

def run (task : SweeperTask) (ticks : List TickOutcome) : SweeperTask := ticks.foldl step task

end SweeperTask

def TickOutcome.staleIds (o : TickOutcome) : List Str :=
  match o.listStale with
  | .ok staleIds => staleIds
  | .error _ => []

def TickOutcome.deletions (o : TickOutcome) : Nat :=
  (List.range o.staleIds.length).countP fun place => (o.adeleteThread place).toBool

structure Ticks (o : TickOutcome) (before after : SweeperTask) : Prop where
  survives : after.raised = none
  runs : after.metrics.sweeperRunsTotal = before.metrics.sweeperRunsTotal + 1
  attempted : after.attempted = before.attempted ++ [o.staleIds]
  deleted : after.metrics.sweeperDeletedTotal = before.metrics.sweeperDeletedTotal + o.deletions

def SurvivesAll (ticks : List TickOutcome) : Prop :=
  ∀ before o after, ticks = before ++ o :: after →
    Ticks o (SweeperTask.run {} before) (SweeperTask.run {} (before ++ [o]))

def TickOutcome.Clean (o : TickOutcome) : Prop :=
  ∃ staleIds, o.listStale = .ok staleIds ∧ ∀ threadId ∈ staleIds, Str.WellFormed threadId

theorem sweepFp_eq_ok {threadId : Str} : sweepFp threadId = .ok () ↔ threadId.WellFormed := by
  unfold sweepFp
  cases encoded : encodeUtf8 threadId with
  | none => exact iff_of_false (by simp) (encodeUtf8_eq_none_iff.mp encoded)
  | some bytes => exact iff_of_true rfl (encodeUtf8_eq_some_iff.mp encoded).1

def succeeded (adeleteThread : Nat → Except SweepError Unit) (place ids : Nat) : Nat :=
  (List.range ids).countP fun k => (adeleteThread (place + k)).toBool

theorem succeeded_succ (adeleteThread : Nat → Except SweepError Unit) (place ids : Nat) :
    succeeded adeleteThread place (ids + 1) =
      (if (adeleteThread place).toBool then 1 else 0) + succeeded adeleteThread (place + 1) ids := by
  have shifted : (fun k => (adeleteThread (place + (k + 1))).toBool) =
      fun k => (adeleteThread (place + 1 + k)).toBool := by
    funext k
    rw [Nat.add_assoc, Nat.add_comm 1 k]
  rw [succeeded, List.range_succ_eq_map, List.countP_cons, List.countP_map, Nat.add_comm]
  exact congrArg₂ _ rfl (congrArg (List.countP · _) shifted)

namespace Tick

structure Swept (t t' : Tick) (staleIds : List Str) (deletions : Nat) : Prop where
  raised : t'.raised = none
  attempted : t'.attempted = t.attempted ++ staleIds
  deletedCount : t'.deletedCount = t.deletedCount + deletions
  runs : t'.metrics.sweeperRunsTotal = t.metrics.sweeperRunsTotal
  deleted : t'.metrics.sweeperDeletedTotal = t.metrics.sweeperDeletedTotal

theorem delete_swept {t : Tick} (running : t.raised = none) {threadId : Str}
    (wellFormed : threadId.WellFormed) (deletion : Except SweepError Unit) :
    Swept t (t.delete threadId deletion) [threadId] (if deletion.toBool then 1 else 0) := by
  have deleted : t.delete threadId deletion = t.adelete threadId deletion := by
    simp only [delete, sweepFp_eq_ok.mpr wellFormed]
  rw [deleted]
  cases deletion with
  | ok => exact ⟨running, rfl, rfl, rfl, rfl⟩
  | error e => exact ⟨running, rfl, rfl, rfl, rfl⟩

theorem delete_raised (t : Tick) {threadId : Str} (lone : ¬ threadId.WellFormed)
    (deletion : Except SweepError Unit) : (t.delete threadId deletion).raised.isSome = true := by
  cases fp : sweepFp threadId with
  | ok => exact absurd (sweepFp_eq_ok.mp fp) lone
  | error e => simp only [delete, fp, Option.isSome_some]

theorem deleteAll_swept {adeleteThread : Nat → Except SweepError Unit} {staleIds : List Str}
    {t : Tick} (running : t.raised = none) (wellFormed : ∀ threadId ∈ staleIds, Str.WellFormed threadId)
    (place : Nat) : Swept t (deleteAll adeleteThread place staleIds t) staleIds
      (succeeded adeleteThread place staleIds.length) := by
  induction staleIds generalizing t place with
  | nil => exact ⟨running, by simp [deleteAll], by simp [deleteAll, succeeded], rfl, rfl⟩
  | cons threadId staleIds ih =>
      obtain ⟨here, later⟩ := List.forall_mem_cons.mp wellFormed
      have first := delete_swept running here (adeleteThread place)
      have rest := ih first.raised later (place + 1)
      have continued : deleteAll adeleteThread place (threadId :: staleIds) t =
          deleteAll adeleteThread (place + 1) staleIds (t.delete threadId (adeleteThread place)) := by
        simp [deleteAll, first.raised]
      rw [continued]
      refine ⟨rest.raised, ?_, ?_, rest.runs.trans first.runs, rest.deleted.trans first.deleted⟩
      · rw [rest.attempted, first.attempted, List.append_assoc, List.singleton_append]
      · rw [rest.deletedCount, first.deletedCount, List.length_cons, succeeded_succ, Nat.add_assoc]

theorem deleteAll_raised {adeleteThread : Nat → Except SweepError Unit} {staleIds : List Str}
    {t : Tick} (lone : ¬ ∀ threadId ∈ staleIds, Str.WellFormed threadId) (place : Nat) :
    (deleteAll adeleteThread place staleIds t).raised.isSome = true := by
  induction staleIds generalizing t place with
  | nil => simp at lone
  | cons threadId staleIds ih =>
      rw [deleteAll]
      by_cases raised : (t.delete threadId (adeleteThread place)).raised.isSome = true
      · simp only [raised, if_true]
      · simp only [raised]
        apply ih
        intro later
        apply lone
        rw [List.forall_mem_cons]
        refine ⟨?_, later⟩
        by_contra here
        exact raised (delete_raised t here (adeleteThread place))

theorem run_raised {o : TickOutcome} (unclean : ¬ o.Clean) (metrics : SweeperMetrics) :
    (run o metrics).raised.isSome = true := by
  rw [run]
  cases listed : o.listStale with
  | error e => rfl
  | ok staleIds =>
      have lone : ¬ ∀ threadId ∈ staleIds, Str.WellFormed threadId :=
        fun wellFormed => unclean ⟨staleIds, listed, wellFormed⟩
      have raised : (deleteAll o.adeleteThread 0 staleIds { metrics }).raised.isSome = true :=
        deleteAll_raised lone 0
      simp only [raised, if_true]

end Tick

theorem SweeperTask.step_ticks {task : SweeperTask} {o : TickOutcome} (running : task.raised = none)
    (clean : o.Clean) : Ticks o task (task.step o) := by
  obtain ⟨staleIds, listed, wellFormed⟩ := clean
  have swept : Tick.Swept { metrics := task.metrics }
      (Tick.deleteAll o.adeleteThread 0 staleIds { metrics := task.metrics }) staleIds
      (succeeded o.adeleteThread 0 staleIds.length) := Tick.deleteAll_swept rfl wellFormed 0
  have ran : Tick.run o task.metrics =
      (Tick.deleteAll o.adeleteThread 0 staleIds { metrics := task.metrics }).summary := by
    simp [Tick.run, listed, swept.raised]
  have next : task.step o = ⟨(Tick.run o task.metrics).metrics,
      task.attempted ++ [(Tick.run o task.metrics).attempted], (Tick.run o task.metrics).raised⟩ := by
    simp [step, running]
  have ids : o.staleIds = staleIds := by simp only [TickOutcome.staleIds, listed]
  rw [next, ran]
  refine ⟨swept.raised, ?_, ?_, ?_⟩
  · exact congrArg (· + 1) swept.runs
  · rw [ids]
    exact congrArg (fun attempted => task.attempted ++ [attempted]) swept.attempted
  · have counted : o.deletions = succeeded o.adeleteThread 0 staleIds.length := by
      simp [TickOutcome.deletions, succeeded, ids]
    have total := swept.deletedCount
    have before := swept.deleted
    dsimp only at total before
    simp only [Tick.summary, counted]
    split <;> omega

namespace SweeperTask

theorem run_concat (task : SweeperTask) (ticks : List TickOutcome) (o : TickOutcome) :
    task.run (ticks ++ [o]) = (task.run ticks).step o := by
  simp [run]

theorem run_running {ticks : List TickOutcome} (clean : ∀ o ∈ ticks, o.Clean) :
    (run {} ticks).raised = none := by
  induction ticks using List.reverseRecOn with
  | nil => rfl
  | append_singleton ticks o ih =>
      have before := ih fun o member => clean o (List.mem_append_left _ member)
      rw [run_concat]
      exact (step_ticks before (clean o (by simp))).survives

theorem step_raised (task : SweeperTask) {o : TickOutcome} (unclean : ¬ o.Clean) :
    (task.step o).raised.isSome = true := by
  by_cases raised : task.raised.isSome = true
  · rwa [step, if_pos raised]
  · rw [step, if_neg raised]
    exact Tick.run_raised unclean task.metrics

end SweeperTask

/-- The sweeper goes on, counts every tick, attempts every stale id once and counts the deletions that
succeed, whatever the deletions come to, exactly as long as no listing raises and no listed id has a
lone surrogate. -/
theorem survivesAll_iff (ticks : List TickOutcome) : SurvivesAll ticks ↔ ∀ o ∈ ticks, o.Clean := by
  constructor
  · intro survives o member
    obtain ⟨before, after, rfl⟩ := List.append_of_mem member
    by_contra unclean
    have raised := (SweeperTask.run {} before).step_raised unclean
    rw [← SweeperTask.run_concat, (survives before o after rfl).survives] at raised
    cases raised
  · intro clean before o after split
    subst split
    have earlier := SweeperTask.run_running fun o member => clean o (List.mem_append_left _ member)
    rw [SweeperTask.run_concat]
    exact SweeperTask.step_ticks earlier (clean o (by simp))

def lockedListing : TickOutcome := ⟨.error .storage, fun _ => .ok ()⟩

theorem locked_listing_ends_sweeper :
    (SweeperTask.run {} [lockedListing, ⟨.ok [], fun _ => .ok ()⟩]).raised = some .storage ∧
      (SweeperTask.run {} [lockedListing, ⟨.ok [], fun _ => .ok ()⟩]).metrics.sweeperRunsTotal = 0 ∧
      ¬ SurvivesAll [lockedListing, ⟨.ok [], fun _ => .ok ()⟩] := by
  refine ⟨rfl, rfl, fun survives => ?_⟩
  have ends := (survives [] lockedListing _ rfl).survives
  cases ends

end DecisionMaker.Server
