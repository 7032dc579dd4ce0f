import DecisionMaker.Server.Sweeper
import Mathlib.Tactic.NormNum

/-!
# The idle TTL

The sweeper that `lifespan` builds evicts by `sweep_threshold_secs`. The clock of a touch or of a tick
is read right before its statement is enqueued, and the worker thread of the connection takes the
statements in their order, so nothing is written between the two.
-/

namespace DecisionMaker.Server

open Library

structure ServerConfig extends Config where
  sessionTtlSec : Int := 1800
  sweepIntervalSec : Int := 60

structure SweeperSettings where
  thresholdSec : Int
  intervalSec : Int

def lifespanSweeper (cfg : ServerConfig) : SweeperSettings where
  thresholdSec := cfg.sweepThresholdSecs
  intervalSec := cfg.sweepIntervalSec

inductive MetaStatement (τ : Type*)
  | replaceMeta (thread : τ) (lastTouched : Int)
  | listStale (nowUnix thresholdSec : Int)
  | deleteMeta (thread : τ) (sweeping : Bool)

structure Enqueued (τ : Type*) where
  issued : ℚ
  statement : MetaStatement τ

/-- The phases of `Sweeper.run`. A tick whose listing raises ends the task. -/
inductive SweeperPhase (τ : Type*)
  | sleeping (wake : ℚ)
  | listing
  | deleting (tick : ℚ) (staleIds : List τ)
  | erasing (tick : ℚ) (thread : τ) (staleIds : List τ)
  | awaiting (tick : ℚ) (staleIds : List τ)
  | dead

/-- Every access of a checkpoint touches: the reads of a turn and of `/done`, and the writes of a
running graph. Of a deletion only its last statement matters here. -/
inductive IdleEvent (τ : Type*)
  | touch (thread : τ)
  | done (thread : τ)
  | tick
  | serve
  | listStale (staleIds : List τ)
  | serveError
  | adeleteThread
  | deleteMeta
  | deleteError
  | summary
  | advance (seconds : ℚ)

structure IdleHost (τ : Type*) where
  clock : ℚ
  table : MetaTable τ
  sweeper : SweeperPhase τ
  queue : List (Enqueued τ) := []
  -- for the statements: the touches that reached the table
  touched : List (τ × ℚ)

namespace IdleHost
variable {τ : Type*}

def enqueue (s : IdleHost τ) (statement : MetaStatement τ) : IdleHost τ :=
  { s with queue := s.queue ++ [⟨s.clock, statement⟩] }

def start (settings : SweeperSettings) (clock : ℚ) (table : MetaTable τ) : IdleHost τ where
  clock
  table
  sweeper := .sleeping (clock + settings.intervalSec)
  touched := table.entries.map fun row => (row.1, (row.2 : ℚ))

def doomed (s : IdleHost τ) : Option (ℚ × List τ) :=
  match s.sweeper with
  | .deleting tick staleIds | .erasing tick _ staleIds | .awaiting tick staleIds => some (tick, staleIds)
  | _ => none

variable [DecidableEq τ]

def step (settings : SweeperSettings) (s : IdleHost τ) : IdleEvent τ → Option (IdleHost τ)
  | .touch thread => some (s.enqueue (.replaceMeta thread ⌊s.clock⌋))
  | .done thread => some (s.enqueue (.deleteMeta thread false))
  | .tick =>
      match s.sweeper with
      | .sleeping wake =>
          if wake ≤ s.clock then
            some { s.enqueue (.listStale ⌊s.clock⌋ settings.thresholdSec) with sweeper := .listing }
          else none
      | _ => none
  | .serve =>
      match s.queue with
      | ⟨issued, .replaceMeta thread lastTouched⟩ :: queue =>
          some { s with
            queue
            table := s.table.insert thread lastTouched
            touched := (thread, issued) :: s.touched }
      | ⟨_, .deleteMeta thread false⟩ :: queue =>
          some { s with queue, table := s.table.erase thread }
      | ⟨_, .deleteMeta thread true⟩ :: queue =>
          match s.sweeper with
          | .awaiting tick staleIds =>
              some { s with queue, table := s.table.erase thread, sweeper := .deleting tick staleIds }
          | _ => none
      | _ => none
  | .listStale staleIds =>
      match s.queue, s.sweeper with
      | ⟨issued, .listStale nowUnix thresholdSec⟩ :: queue, .listing =>
          if staleIds.Perm (s.table.listStale nowUnix thresholdSec) then
            some { s with queue, sweeper := .deleting issued staleIds }
          else none
      | _, _ => none
  | .serveError =>
      match s.queue with
      | ⟨_, .listStale _ _⟩ :: queue => some { s with queue, sweeper := .dead }
      | ⟨_, .deleteMeta _ true⟩ :: queue =>
          match s.sweeper with
          | .awaiting tick staleIds => some { s with queue, sweeper := .deleting tick staleIds }
          | _ => none
      | _ :: queue => some { s with queue }
      | [] => none
  | .adeleteThread =>
      match s.sweeper with
      | .deleting tick (thread :: staleIds) => some { s with sweeper := .erasing tick thread staleIds }
      | _ => none
  | .deleteMeta =>
      match s.sweeper with
      | .erasing tick thread staleIds =>
          some { s.enqueue (.deleteMeta thread true) with sweeper := .awaiting tick staleIds }
      | _ => none
  | .deleteError =>
      -- one of the statements before the last raised
      match s.sweeper with
      | .erasing tick _ staleIds => some { s with sweeper := .deleting tick staleIds }
      | _ => none
  | .summary =>
      match s.sweeper with
      | .deleting _ [] => some { s with sweeper := .sleeping (s.clock + settings.intervalSec) }
      | _ => none
  | .advance seconds => if 0 ≤ seconds then some { s with clock := s.clock + seconds } else none

end IdleHost

/-- When the sweeper deletes a thread, every touch of it before the tick that selected it lies back
by the TTL. -/
def RespectsTtl {τ : Type*} (cfg : ServerConfig) (s : IdleHost τ) (e : IdleEvent τ) : Prop :=
  e = .adeleteThread → ∀ tick thread staleIds, s.sweeper = .deleting tick (thread :: staleIds) →
    ∀ t < tick, (thread, t) ∈ s.touched → cfg.sessionTtlSec ≤ tick - t

section
variable {τ : Type*} [DecidableEq τ]

structure IdleHost.Sound (settings : SweeperSettings) (s : IdleHost τ) : Prop where
  issued : ∀ q ∈ s.queue, q.issued ≤ s.clock
  sorted : s.queue.Pairwise fun q r => q.issued ≤ r.issued
  served : ∀ p ∈ s.touched, p.2 ≤ s.clock ∧ ∀ q ∈ s.queue, p.2 ≤ q.issued
  stamped : ∀ q ∈ s.queue, ∀ thread lastTouched,
    q.statement = .replaceMeta thread lastTouched → lastTouched = ⌊q.issued⌋
  listed : ∀ q ∈ s.queue, ∀ nowUnix thresholdSec, q.statement = .listStale nowUnix thresholdSec →
    nowUnix = ⌊q.issued⌋ ∧ thresholdSec = settings.thresholdSec
  rows : ∀ thread lastTouched, s.table.lookup thread = some lastTouched →
    ∀ t, (thread, t) ∈ s.touched → ⌊t⌋ ≤ lastTouched
  swept : ∀ tick staleIds, s.doomed = some (tick, staleIds) →
    tick ≤ s.clock ∧ (∀ q ∈ s.queue, tick ≤ q.issued) ∧
      ∀ thread ∈ staleIds, ∀ t < tick, (thread, t) ∈ s.touched → settings.thresholdSec < tick - t

namespace IdleHost
variable {settings : SweeperSettings} {s s' : IdleHost τ}

theorem start_sound {clock : ℚ} {table : MetaTable τ}
    (past : ∀ thread lastTouched, table.lookup thread = some lastTouched → (lastTouched : ℚ) ≤ clock) :
    (start settings clock table).Sound settings := by
  have row {thread : τ} {t : ℚ} (member : (thread, t) ∈ (start settings clock table).touched) :
      ∃ lastTouched : Int, table.lookup thread = some lastTouched ∧ t = lastTouched := by
    obtain ⟨⟨_, lastTouched⟩, entry, same⟩ := List.mem_map.mp member
    obtain ⟨rfl, rfl⟩ := Prod.mk.inj same
    exact ⟨lastTouched, AList.mem_lookup_iff.mpr entry, rfl⟩
  constructor
  case served =>
    rintro ⟨thread, t⟩ member
    obtain ⟨lastTouched, found, rfl⟩ := row member
    exact ⟨past thread lastTouched found, fun q none => (by cases none)⟩
  case rows =>
    intro thread lastTouched found t member
    obtain ⟨same, again, rfl⟩ := row member
    obtain rfl : lastTouched = same := Option.some.inj (found.symm.trans again)
    exact (Int.floor_intCast _).le
  case sorted => exact .nil
  case swept => intro tick staleIds none; cases none
  all_goals intro q none; cases none

theorem Sound.enqueue (sound : s.Sound settings) {statement : MetaStatement τ}
    (stamped : ∀ thread lastTouched, statement = .replaceMeta thread lastTouched →
      lastTouched = ⌊s.clock⌋)
    (listed : ∀ nowUnix thresholdSec, statement = .listStale nowUnix thresholdSec →
      nowUnix = ⌊s.clock⌋ ∧ thresholdSec = settings.thresholdSec) :
    (s.enqueue statement).Sound settings := by
  have cases' {P : Enqueued τ → Prop} (old : ∀ q ∈ s.queue, P q) (new : P ⟨s.clock, statement⟩) :
      ∀ q ∈ (s.enqueue statement).queue, P q := by
    intro q member
    rcases List.mem_append.mp member with earlier | latest
    · exact old q earlier
    · rw [List.mem_singleton.mp latest]
      exact new
  constructor
  case issued => exact cases' sound.issued le_rfl
  case sorted =>
    refine List.pairwise_append.mpr ⟨sound.sorted, List.pairwise_singleton _ _, ?_⟩
    intro q earlier r latest
    rw [List.mem_singleton.mp latest]
    exact sound.issued q earlier
  case served =>
    intro p member
    obtain ⟨past, before⟩ := sound.served p member
    exact ⟨past, cases' before past⟩
  case stamped => exact cases' sound.stamped stamped
  case listed => exact cases' sound.listed listed
  case rows => exact sound.rows
  case swept =>
    intro tick staleIds doomed
    obtain ⟨past, before, idle⟩ := sound.swept tick staleIds doomed
    exact ⟨past, cases' before past, idle⟩

theorem Sound.dequeue (sound : s.Sound settings) {q : Enqueued τ} {queue : List (Enqueued τ)}
    (head : s.queue = q :: queue) (sweeper : SweeperPhase τ)
    (fewer : ∀ tick staleIds, ({ s with sweeper } : IdleHost τ).doomed = some (tick, staleIds) →
      ∃ more, s.doomed = some (tick, more) ∧ staleIds ⊆ more) :
    ({ s with queue, sweeper } : IdleHost τ).Sound settings := by
  have within {r : Enqueued τ} (member : r ∈ queue) : r ∈ s.queue := by
    rw [head]
    exact List.mem_cons_of_mem _ member
  have sorted := sound.sorted
  rw [head] at sorted
  constructor
  case issued => exact fun r member => sound.issued r (within member)
  case sorted => exact sorted.of_cons
  case served =>
    intro p member
    obtain ⟨past, before⟩ := sound.served p member
    exact ⟨past, fun r member => before r (within member)⟩
  case stamped => exact fun r member => sound.stamped r (within member)
  case listed => exact fun r member => sound.listed r (within member)
  case rows => exact sound.rows
  case swept =>
    intro tick staleIds doomed
    obtain ⟨more, wider, subset⟩ := fewer tick staleIds doomed
    obtain ⟨past, before, idle⟩ := sound.swept tick more wider
    exact ⟨past, fun r member => before r (within member),
      fun thread among => idle thread (subset among)⟩

theorem Sound.erase (sound : s.Sound settings) (thread : τ) :
    ({ s with table := s.table.erase thread } : IdleHost τ).Sound settings := by
  refine { sound with rows := ?_ }
  intro other lastTouched found
  by_cases same : other = thread
  · subst same
    rw [AList.lookup_erase] at found
    cases found
  · exact sound.rows other lastTouched ((AList.lookup_erase_ne same).symm.trans found)

theorem Sound.replaceMeta (sound : s.Sound settings) {issued : ℚ} {thread : τ} {lastTouched : Int}
    {queue : List (Enqueued τ)} (head : s.queue = ⟨issued, .replaceMeta thread lastTouched⟩ :: queue) :
    ({ s with
      queue
      table := s.table.insert thread lastTouched
      touched := (thread, issued) :: s.touched } : IdleHost τ).Sound settings := by
  have first : (⟨issued, .replaceMeta thread lastTouched⟩ : Enqueued τ) ∈ s.queue := by
    rw [head]
    exact List.mem_cons_self
  have rest := sound.dequeue head s.sweeper fun tick staleIds doomed =>
    ⟨staleIds, doomed, List.Subset.refl _⟩
  have sorted := sound.sorted
  rw [head] at sorted
  refine { rest with served := ?_, rows := ?_, swept := ?_ }
  · intro p member
    rcases List.mem_cons.mp member with rfl | earlier
    · exact ⟨sound.issued _ first, fun q later => List.rel_of_pairwise_cons sorted later⟩
    · exact rest.served p earlier
  · intro other last found t member
    by_cases same : other = thread
    · subst same
      obtain rfl : lastTouched = last := by
        rw [AList.lookup_insert] at found
        exact Option.some.inj found
      rw [sound.stamped _ first other lastTouched rfl]
      rcases List.mem_cons.mp member with now | earlier
      · cases now
        exact le_rfl
      · exact Int.floor_le_floor ((sound.served _ earlier).2 _ first)
    · rcases List.mem_cons.mp member with now | earlier
      · cases now
        exact absurd rfl same
      · exact sound.rows other last ((AList.lookup_insert_ne same).symm.trans found) t earlier
  · intro tick staleIds doomed
    obtain ⟨past, before, idle⟩ := sound.swept tick staleIds doomed
    refine ⟨past, fun q member => (rest.swept tick staleIds doomed).2.1 q member, ?_⟩
    intro other among t earlier member
    rcases List.mem_cons.mp member with now | old
    · cases now
      exact absurd (before _ first) (not_le.mpr earlier)
    · exact idle other among t earlier old

theorem Sound.listStale (sound : s.Sound settings) {issued : ℚ} {nowUnix thresholdSec : Int}
    {queue : List (Enqueued τ)} {staleIds : List τ}
    (head : s.queue = ⟨issued, .listStale nowUnix thresholdSec⟩ :: queue)
    (selected : staleIds.Perm (s.table.listStale nowUnix thresholdSec)) :
    ({ s with queue, sweeper := .deleting issued staleIds } : IdleHost τ).Sound settings := by
  have first : (⟨issued, .listStale nowUnix thresholdSec⟩ : Enqueued τ) ∈ s.queue := by
    rw [head]
    exact List.mem_cons_self
  have rest := sound.dequeue head .dead fun _ _ none => (by cases none)
  have sorted := sound.sorted
  rw [head] at sorted
  refine { rest with swept := ?_ }
  rintro tick ids ⟨⟩
  refine ⟨sound.issued _ first, fun q later => List.rel_of_pairwise_cons sorted later, ?_⟩
  intro thread among t earlier member
  obtain ⟨lastTouched, found, stale⟩ := MetaTable.mem_listStale.mp (selected.subset among)
  obtain ⟨now, threshold⟩ := sound.listed _ first nowUnix thresholdSec rfl
  change nowUnix = ⌊issued⌋ at now
  rw [now, threshold] at stale
  have recorded := sound.rows thread lastTouched found t member
  have idle : ⌊t⌋ + 1 + settings.thresholdSec ≤ ⌊issued⌋ := by omega
  have idle : (⌊t⌋ : ℚ) + 1 + settings.thresholdSec ≤ ⌊issued⌋ := by exact_mod_cast idle
  linarith [Int.lt_floor_add_one t, Int.floor_le issued]

theorem Sound.phase (sound : s.Sound settings) {sweeper : SweeperPhase τ}
    (fewer : ∀ tick staleIds, ({ s with sweeper } : IdleHost τ).doomed = some (tick, staleIds) →
      ∃ more, s.doomed = some (tick, more) ∧ staleIds ⊆ more) :
    ({ s with sweeper } : IdleHost τ).Sound settings := by
  refine { sound with swept := ?_ }
  intro tick staleIds doomed
  obtain ⟨more, wider, subset⟩ := fewer tick staleIds doomed
  obtain ⟨past, before, idle⟩ := sound.swept tick more wider
  exact ⟨past, before, fun thread among => idle thread (subset among)⟩

theorem Sound.advance (sound : s.Sound settings) {seconds : ℚ} (forward : 0 ≤ seconds) :
    ({ s with clock := s.clock + seconds } : IdleHost τ).Sound settings := by
  have later : s.clock ≤ s.clock + seconds := le_add_of_nonneg_right forward
  refine { sound with issued := ?_, served := ?_, swept := ?_ }
  · exact fun q member => (sound.issued q member).trans later
  · exact fun p member => ⟨(sound.served p member).1.trans later, (sound.served p member).2⟩
  · intro tick staleIds doomed
    obtain ⟨past, rest⟩ := sound.swept tick staleIds doomed
    exact ⟨past.trans later, rest⟩

theorem Sound.step {e : IdleEvent τ} (sound : s.Sound settings)
    (taken : s.step settings e = some s') : s'.Sound settings := by
  cases e with
  | touch thread =>
      cases taken
      apply sound.enqueue
      · rintro _ _ ⟨⟩
        rfl
      · intro _ _ other
        cases other
  | done thread =>
      cases taken
      apply sound.enqueue <;> intro _ _ other <;> cases other
  | tick =>
      simp only [IdleHost.step] at taken
      split at taken
      · split at taken <;> cases taken
        refine Sound.phase (sound.enqueue ?_ ?_) fun _ _ none => (by cases none)
        · intro _ _ other
          cases other
        · rintro _ _ ⟨⟩
          exact ⟨rfl, rfl⟩
      · cases taken
  | serve =>
      simp only [IdleHost.step] at taken
      split at taken
      · cases taken
        exact sound.replaceMeta ‹_›
      · cases taken
        exact (sound.dequeue ‹_› s.sweeper fun tick staleIds doomed =>
          ⟨staleIds, doomed, List.Subset.refl _⟩).erase _
      · split at taken
        · rename_i tick staleIds awaiting
          cases taken
          refine (sound.dequeue ‹_› (.deleting tick staleIds) ?_).erase _
          rintro _ _ ⟨⟩
          exact ⟨staleIds, by simp [doomed, awaiting], List.Subset.refl _⟩
        · cases taken
      · cases taken
  | listStale staleIds =>
      simp only [IdleHost.step] at taken
      split at taken
      · split at taken <;> cases taken
        exact sound.listStale ‹_› ‹_›
      · cases taken
  | serveError =>
      simp only [IdleHost.step] at taken
      split at taken
      · cases taken
        exact sound.dequeue ‹_› _ fun _ _ none => (by cases none)
      · split at taken
        · rename_i tick staleIds awaiting
          cases taken
          refine sound.dequeue ‹_› _ ?_
          rintro _ _ ⟨⟩
          exact ⟨staleIds, by simp [doomed, awaiting], List.Subset.refl _⟩
        · cases taken
      · cases taken
        exact sound.dequeue ‹_› s.sweeper fun tick staleIds doomed =>
          ⟨staleIds, doomed, List.Subset.refl _⟩
      · cases taken
  | adeleteThread =>
      simp only [IdleHost.step] at taken
      split at taken
      · rename_i tick thread staleIds deleting
        cases taken
        apply sound.phase
        rintro _ _ ⟨⟩
        exact ⟨thread :: staleIds, by simp [doomed, deleting], List.subset_cons_self _ _⟩
      · cases taken
  | deleteMeta =>
      simp only [IdleHost.step] at taken
      split at taken
      · rename_i tick thread staleIds erasing
        cases taken
        refine Sound.phase (sound.enqueue ?_ ?_) ?_
        · intro _ _ other
          cases other
        · intro _ _ other
          cases other
        · rintro _ _ ⟨⟩
          exact ⟨staleIds, by simp [doomed, IdleHost.enqueue, erasing], List.Subset.refl _⟩
      · cases taken
  | deleteError =>
      simp only [IdleHost.step] at taken
      split at taken
      · rename_i tick thread staleIds erasing
        cases taken
        apply sound.phase
        rintro _ _ ⟨⟩
        exact ⟨staleIds, by simp [doomed, erasing], List.Subset.refl _⟩
      · cases taken
  | summary =>
      simp only [IdleHost.step] at taken
      split at taken
      · cases taken
        exact sound.phase fun _ _ none => (by cases none)
      · cases taken
  | advance seconds =>
      simp only [IdleHost.step] at taken
      split at taken <;> cases taken
      exact sound.advance ‹_›

theorem Sound.respectsTtl {cfg : ServerConfig} (sound : s.Sound (lifespanSweeper cfg))
    (covered : cfg.sessionTtlSec ≤ max cfg.sweepThresholdSecs 0) (e : IdleEvent τ) :
    RespectsTtl cfg s e := by
  rintro rfl tick thread staleIds deleting t earlier member
  obtain ⟨-, -, idle⟩ := sound.swept tick (thread :: staleIds) (by simp [doomed, deleting])
  have evicted : (cfg.sweepThresholdSecs : ℚ) < tick - t :=
    idle thread List.mem_cons_self t earlier member
  rcases le_max_iff.mp covered with threshold | zero
  · have threshold : (cfg.sessionTtlSec : ℚ) ≤ cfg.sweepThresholdSecs := by exact_mod_cast threshold
    exact threshold.trans evicted.le
  · have zero : (cfg.sessionTtlSec : ℚ) ≤ 0 := by exact_mod_cast zero
    exact zero.trans (sub_pos.mpr earlier).le

end IdleHost

end

section
variable (cfg : ServerConfig)

def touchTime : ℚ := (max cfg.sweepIntervalSec 0 : Int) + 1 / 2

def tickTime : ℚ := (max cfg.sweepIntervalSec 0 + max cfg.sweepThresholdSecs 0 + 1 : Int)

def earlySelection : List (IdleEvent String) :=
  [.advance (touchTime cfg), .touch "thread", .serve, .advance (tickTime cfg - touchTime cfg), .tick,
   .listStale ["thread"]]

def earlySweep : List (IdleEvent String) := earlySelection cfg ++ [.adeleteThread]

variable {cfg}

theorem touchTime_pos : 0 ≤ touchTime cfg := by
  have : (0 : ℚ) ≤ (max cfg.sweepIntervalSec 0 : Int) := by exact_mod_cast le_max_right _ _
  rw [touchTime]
  linarith

theorem tick_sub_touch : tickTime cfg - touchTime cfg = (max cfg.sweepThresholdSecs 0 : Int) + 1 / 2 := by
  rw [tickTime, touchTime]
  push_cast
  ring

theorem touch_lt_tick : touchTime cfg < tickTime cfg := by
  have : (0 : ℚ) ≤ (max cfg.sweepThresholdSecs 0 : Int) := by exact_mod_cast le_max_right _ _
  linarith [@tick_sub_touch cfg]

theorem floor_touchTime : ⌊touchTime cfg⌋ = max cfg.sweepIntervalSec 0 := by
  rw [touchTime, Int.floor_intCast_add]
  norm_num

theorem floor_tickTime :
    ⌊tickTime cfg⌋ = max cfg.sweepIntervalSec 0 + max cfg.sweepThresholdSecs 0 + 1 :=
  Int.floor_intCast _

theorem awake_at_tickTime : (cfg.sweepIntervalSec : ℚ) ≤ tickTime cfg := by
  have : cfg.sweepIntervalSec ≤ max cfg.sweepIntervalSec 0 + max cfg.sweepThresholdSecs 0 + 1 := by omega
  rw [tickTime]
  exact_mod_cast this

theorem listStale_early :
    MetaTable.listStale (AList.singleton "thread" ⌊touchTime cfg⌋) ⌊tickTime cfg⌋
      cfg.sweepThresholdSecs = ["thread"] := by
  have stale : ⌊touchTime cfg⌋ < ⌊tickTime cfg⌋ - cfg.sweepThresholdSecs := by
    rw [floor_touchTime, floor_tickTime]
    omega
  simp [MetaTable.listStale, stale]

theorem run_earlySelection :
    run (IdleHost.step (lifespanSweeper cfg)) (IdleHost.start (lifespanSweeper cfg) 0 ∅)
        (earlySelection cfg) =
      some {
        clock := tickTime cfg
        table := AList.singleton "thread" ⌊touchTime cfg⌋
        sweeper := .deleting (tickTime cfg) ["thread"]
        touched := [("thread", touchTime cfg)] } := by
  have forward := sub_nonneg.mpr (@touch_lt_tick cfg).le
  simp [earlySelection, run, IdleHost.step, IdleHost.start, IdleHost.enqueue, lifespanSweeper,
    touchTime_pos, forward, awake_at_tickTime, listStale_early]

theorem earlySweep_violates (short : max cfg.sweepThresholdSecs 0 < cfg.sessionTtlSec) :
    ¬ EachStep (IdleHost.step (lifespanSweeper cfg)) (RespectsTtl cfg)
      (IdleHost.start (lifespanSweeper cfg) 0 ∅) (earlySweep cfg) := by
  intro each
  have swept := EachStep.after each run_earlySelection
  have kept := swept rfl (tickTime cfg) "thread" [] rfl (touchTime cfg) touch_lt_tick
    List.mem_cons_self
  rw [tick_sub_touch] at kept
  have short : ((max cfg.sweepThresholdSecs 0 : Int) : ℚ) + 1 ≤ cfg.sessionTtlSec := by
    exact_mod_cast short
  linarith

end

/-- In every run under a configuration, from whatever table, the sweeper leaves the threads alone
for the TTL exactly when the threshold covers it. -/
theorem idleTtl_respected_iff (cfg : ServerConfig) :
    (∀ (clock : ℚ) (table : MetaTable String),
      (∀ thread lastTouched, table.lookup thread = some lastTouched → (lastTouched : ℚ) ≤ clock) →
        ∀ es, EachStep (IdleHost.step (lifespanSweeper cfg)) (RespectsTtl cfg)
          (IdleHost.start (lifespanSweeper cfg) clock table) es) ↔
      cfg.sessionTtlSec ≤ max cfg.sweepThresholdSecs 0 := by
  constructor
  · intro respected
    by_contra short
    refine earlySweep_violates (not_le.mp short) (respected 0 ∅ ?_ _)
    intro thread lastTouched found
    rw [AList.lookup_empty] at found
    cases found
  · intro covered clock table past es
    apply EachStep.imp (C := fun _ _ => True)
      (fun s e s' sound _ taken => IdleHost.Sound.step sound taken)
      (fun s e sound _ => sound.respectsTtl covered e) (IdleHost.start_sound past) .trivial

theorem default_ttl_not_kept :
    ¬ EachStep (IdleHost.step (lifespanSweeper {})) (RespectsTtl {})
      (IdleHost.start (lifespanSweeper {}) 0 ∅) (earlySweep {}) :=
  earlySweep_violates (by decide)

end DecisionMaker.Server
