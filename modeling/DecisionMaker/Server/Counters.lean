import DecisionMaker.Server.Auth
import DecisionMaker.Server.Turn

namespace DecisionMaker.Server

open Library

inductive KeySource
  | header
  | internal
  deriving DecidableEq, Repr

inductive TurnLabel
  | running
  | done
  | error
  deriving DecidableEq, Repr

structure Metrics where
  turnsTotal : TurnLabel → Nat := fun _ => 0
  doneTotal : Nat := 0
  tokenVerifyFailuresTotal : AuthReason → Nat := fun _ => 0
  idempotentHitsTotal : KeySource → Nat := fun _ => 0

def TurnState.label : TurnState → TurnLabel
  | .running => .running
  | .done => .done

def cacheSource (request : Incoming) : KeySource :=
  if (makeKeyFromHeader request.idempotencyKey).isSome then .header else .internal

/-- A place where a request has been decided: `/turn` requests are in `ι`, `/done` requests in `κ`. -/
inductive Exit (ι κ : Type*)
  | authError (request : ι ⊕ κ) (reason : AuthReason)
  | cacheHit (request : ι) (source : KeySource)
  | streamCollected (request : ι) (state : TurnState)
  -- by the timeout, an exception of the graph or a cancellation
  | streamAborted (request : ι)
  | acknowledged (request : κ)

namespace Exit
variable {ι κ : Type*}

def request : Exit ι κ → ι ⊕ κ
  | .authError request _ => request
  | .cacheHit request _ | .streamCollected request _ | .streamAborted request => .inl request
  | .acknowledged request => .inr request

def raised (reason : AuthReason) : Exit ι κ → Bool
  | .authError _ other => decide (other = reason)
  | _ => false

def ranGraph : Exit ι κ → Bool
  | .streamCollected _ _ | .streamAborted _ => true
  | _ => false

def fromCache : Exit ι κ → Bool
  | .cacheHit _ _ => true
  | _ => false

def isAcknowledged : Exit ι κ → Bool
  | .acknowledged _ => true
  | _ => false

def counted : Exit ι κ → Bool
  | .authError _ _ | .streamAborted _ => false
  | _ => true

end Exit

/-- What the code does to its collectors there. The dependency has none at hand. -/
def Metrics.count {ι κ : Type*} (m : Metrics) : Exit ι κ → Metrics
  | .authError _ _ => m
  | .cacheHit _ source =>
      { m with idempotentHitsTotal :=
          Function.update m.idempotentHitsTotal source (m.idempotentHitsTotal source + 1) }
  | .streamCollected _ state =>
      { m with turnsTotal :=
          Function.update m.turnsTotal state.label (m.turnsTotal state.label + 1) }
  | .streamAborted _ => m
  | .acknowledged _ => { m with doneTotal := m.doneTotal + 1 }

inductive AuthPhase
  | pending
  | admitted
  | refused
  deriving DecidableEq, Repr

inductive DonePhase
  | waiting
  | deleting (threadId : ThreadId)
  | acknowledged
  | failed

def TurnPhase.isWaiting {ι : Type*} : TurnPhase ι → Bool
  | .waiting => true
  | _ => false

def DonePhase.isWaiting : DonePhase → Bool
  | .waiting => true
  | _ => false

structure Deployment (ι κ : Type*) where
  py : Runtime
  secret : List Byte
  sha256Hex : String → String
  authorization : ι ⊕ κ → Option Str
  incoming : ι → Incoming
  sessionId : κ → String

inductive ServerEvent (ι κ : Type*)
  -- the body is no JSON, or does not validate after the dependency
  | invalid (request : ι ⊕ κ)
  | verify (request : ι ⊕ κ) (now : Int)
  | turn (event : TurnEvent ι)
  -- an await of the handler raises outside of the stream
  | turnError (request : ι)
  | find (request : κ)
  | findError (request : κ)
  | adeleteThread (request : κ) (raises : Bool)

structure ServerState (ι κ : Type*) where
  process : Process ι := {}
  auth : ι ⊕ κ → AuthPhase := fun _ => .pending
  done : κ → DonePhase := fun _ => .waiting
  metrics : Metrics := {}
  -- for the statements
  exits : List (Exit ι κ) := []

section
variable {ι κ : Type*} [DecidableEq ι] [DecidableEq κ]

namespace ServerState

def exit (s : ServerState ι κ) (x : Exit ι κ) : ServerState ι κ :=
  { s with metrics := s.metrics.count x, exits := s.exits ++ [x] }

def setAuth (s : ServerState ι κ) (r : ι ⊕ κ) (phase : AuthPhase) : ServerState ι κ :=
  { s with auth := Function.update s.auth r phase }

def setDone (s : ServerState ι κ) (k : κ) (phase : DonePhase) : ServerState ι κ :=
  { s with done := Function.update s.done k phase }

def untouched (s : ServerState ι κ) : ι ⊕ κ → Bool
  | .inl i => (s.process.phase i).isWaiting
  | .inr k => (s.done k).isWaiting

def turnExit (d : Deployment ι κ) (after : Process ι) : TurnEvent ι → Option (Exit ι κ)
  | .lookup i => match after.phase i with
      | .answered _ _ _ => some (.cacheHit i (cacheSource (d.incoming i)))
      | _ => none
  | .collect i sentinel => some (.streamCollected i (collectStream sentinel).2)
  | .abort i _ => some (.streamAborted i)
  | _ => none

def admits (s : ServerState ι κ) : TurnEvent ι → Bool
  | .arrive i _ => decide (s.auth (.inl i) = .admitted)
  | _ => true

def step (d : Deployment ι κ) (s : ServerState ι κ) : ServerEvent ι κ → Option (ServerState ι κ)
  | .invalid r =>
      if s.auth r ≠ .refused ∧ s.untouched r = true then some (s.setAuth r .refused) else none
  | .verify r now =>
      match s.auth r with
      | .pending =>
          match verifySessionToken d.py (d.authorization r) (Str.ofString "brainstorm") now d.secret with
          | .ok _ => some (s.setAuth r .admitted)
          | .error (.authError reason) => some ((s.setAuth r .refused).exit (.authError r reason))
          | .error (.escaped _) => some (s.setAuth r .refused)
      | _ => none
  | .turn e =>
      if s.admits e then
        (s.process.step d.sha256Hex d.incoming e).map fun process =>
          match turnExit d process e with
          | some x => { s with process }.exit x
          | none => { s with process }
      else none
  | .turnError i =>
      match s.auth (.inl i), s.process.phase i with
      | .admitted, .waiting | .admitted, .routed _ | .admitted, .keyed _ | .admitted, .collected _ _ =>
          some { s with process := s.process.move i (.failed .internal) }
      | _, _ => none
  | .find k =>
      match s.auth (.inr k), s.done k with
      | .admitted, .waiting =>
          match (ThreadId.ofString (d.sessionId k)).filter fun id => (s.process.threads id).isSome with
          | some threadId => some (s.setDone k (.deleting threadId))
          | none => some ((s.setDone k .acknowledged).exit (.acknowledged k))
      | _, _ => none
  | .findError k =>
      match s.auth (.inr k), s.done k with
      | .admitted, .waiting => some (s.setDone k .failed)
      | _, _ => none
  | .adeleteThread k raises =>
      match s.done k with
      | .deleting threadId =>
          let threads := if raises then s.process.threads
            else Function.update s.process.threads threadId none
          some (({ s with process := { s.process with threads } }.setDone k .acknowledged).exit
            (.acknowledged k))
      | _ => none

end ServerState

end

section
variable {ι κ : Type*}

structure CountersRefine (s : ServerState ι κ) : Prop where
  verifyFailures : ∀ reason, s.metrics.tokenVerifyFailuresTotal reason =
    s.exits.countP (Exit.raised reason)
  turns : s.metrics.turnsTotal .running + s.metrics.turnsTotal .done + s.metrics.turnsTotal .error =
    s.exits.countP Exit.ranGraph
  idempotentHits : s.metrics.idempotentHitsTotal .header + s.metrics.idempotentHitsTotal .internal =
    s.exits.countP Exit.fromCache
  done : s.metrics.doneTotal = s.exits.countP Exit.isAcknowledged

def CountedStep (d : Deployment ι κ) (s : ServerState ι κ) : ServerEvent ι κ → Prop
  | .verify r now => s.auth r = .pending → ∀ reason,
      verifySessionToken d.py (d.authorization r) (Str.ofString "brainstorm") now d.secret ≠
        .error (.authError reason)
  | .turn (.abort _ _) => False
  | _ => True

namespace ServerState
variable {d : Deployment ι κ} {s : ServerState ι κ}

theorem turnExit_counted {after : Process ι} {e : TurnEvent ι} {x : Exit ι κ}
    (exit : turnExit d after e = some x) : CountedStep d s (.turn e) ↔ x.counted = true := by
  unfold turnExit at exit
  split at exit
  · split at exit <;> cases exit
    exact iff_of_true True.intro rfl
  · cases exit
    exact iff_of_true True.intro rfl
  · cases exit
    exact iff_of_false id (by simp [Exit.counted])
  · cases exit

theorem turnExit_none {after : Process ι} {e : TurnEvent ι} (exit : turnExit d after e = none) :
    CountedStep d s (.turn e) := by
  cases e with
  | abort i error => cases exit
  | _ => exact True.intro

end ServerState

def tally (exits : List (Exit ι κ)) : Metrics := exits.foldl Metrics.count {}

theorem tally_concat (exits : List (Exit ι κ)) (x : Exit ι κ) :
    tally (exits ++ [x]) = (tally exits).count x := by
  simp [tally]

theorem tally_verifyFailures (exits : List (Exit ι κ)) (reason : AuthReason) :
    (tally exits).tokenVerifyFailuresTotal reason = 0 := by
  induction exits using List.reverseRecOn with
  | nil => rfl
  | append_singleton exits x ih =>
      rw [tally_concat]
      cases x <;> exact ih

theorem tally_turns (exits : List (Exit ι κ)) :
    (tally exits).turnsTotal .running + (tally exits).turnsTotal .done +
        (tally exits).turnsTotal .error =
      exits.countP fun x => x.ranGraph && x.counted := by
  induction exits using List.reverseRecOn with
  | nil => rfl
  | append_singleton exits x ih =>
      rw [tally_concat, List.countP_append, ← ih]
      cases x with
      | streamCollected i state =>
          cases state <;> simp [Metrics.count, TurnState.label, Exit.ranGraph, Exit.counted] <;> omega
      | _ => simp [Metrics.count, Exit.ranGraph, Exit.counted]

theorem tally_idempotentHits (exits : List (Exit ι κ)) :
    (tally exits).idempotentHitsTotal .header + (tally exits).idempotentHitsTotal .internal =
      exits.countP Exit.fromCache := by
  induction exits using List.reverseRecOn with
  | nil => rfl
  | append_singleton exits x ih =>
      rw [tally_concat, List.countP_append, ← ih]
      cases x with
      | cacheHit i source => cases source <;> simp [Metrics.count, Exit.fromCache] <;> omega
      | _ => simp [Metrics.count, Exit.fromCache]

theorem tally_done (exits : List (Exit ι κ)) :
    (tally exits).doneTotal = exits.countP Exit.isAcknowledged := by
  induction exits using List.reverseRecOn with
  | nil => rfl
  | append_singleton exits x ih =>
      rw [tally_concat, List.countP_append, ← ih]
      cases x <;> simp [Metrics.count, Exit.isAcknowledged]

theorem countersRefine_iff {s : ServerState ι κ} (tallied : s.metrics = tally s.exits) :
    CountersRefine s ↔ ∀ x ∈ s.exits, x.counted = true := by
  constructor
  · intro refine x member
    by_contra uncounted
    cases x with
    | authError r reason =>
        have none := refine.verifyFailures reason
        rw [tallied, tally_verifyFailures, eq_comm, List.countP_eq_zero] at none
        exact none _ member (by simp [Exit.raised])
    | streamAborted i =>
        have turns := refine.turns
        rw [tallied, tally_turns] at turns
        rw [List.countP_eq_countP_filter_add s.exits Exit.ranGraph Exit.counted, List.countP_filter,
          List.countP_filter, Nat.left_eq_add, List.countP_eq_zero] at turns
        exact turns _ member (by simp [Exit.ranGraph, Exit.counted])
    | _ => exact uncounted rfl
  · intro counted
    constructor
    · intro reason
      rw [tallied, tally_verifyFailures, eq_comm, List.countP_eq_zero]
      intro x member
      have here := counted x member
      cases x <;> simp_all [Exit.raised, Exit.counted]
    · rw [tallied, tally_turns]
      apply List.countP_congr
      intro x member
      simp [counted x member]
    · rw [tallied, tally_idempotentHits]
    · rw [tallied, tally_done]

namespace ServerState
variable {d : Deployment ι κ} {s s' : ServerState ι κ} {e : ServerEvent ι κ}

inductive Decides (d : Deployment ι κ) (s : ServerState ι κ) (e : ServerEvent ι κ) :
    ServerState ι κ → Prop
  | none {s' : ServerState ι κ} (metrics : s'.metrics = s.metrics) (exits : s'.exits = s.exits)
      (counted : CountedStep d s e) : Decides d s e s'
  | one {s' : ServerState ι κ} (x : Exit ι κ) (metrics : s'.metrics = s.metrics.count x)
      (exits : s'.exits = s.exits ++ [x]) (counted : CountedStep d s e ↔ x.counted = true) :
      Decides d s e s'

theorem Decides.tallied (decides : Decides d s e s') (tallied : s.metrics = tally s.exits) :
    s'.metrics = tally s'.exits := by
  cases decides with
  | none metrics exits => rw [metrics, exits, tallied]
  | one x metrics exits => rw [metrics, exits, tallied, tally_concat]

theorem Decides.counted_iff (decides : Decides d s e s') :
    (∀ x ∈ s'.exits, x.counted = true) ↔
      (∀ x ∈ s.exits, x.counted = true) ∧ CountedStep d s e := by
  cases decides with
  | none metrics exits counted => simp [exits, counted]
  | one x metrics exits counted =>
      rw [exits, counted]
      simp [or_imp, forall_and]

end ServerState

end

section
variable {ι κ : Type*} [DecidableEq ι] [DecidableEq κ]

namespace ServerState
variable {d : Deployment ι κ} {s s' : ServerState ι κ} {e : ServerEvent ι κ}

theorem step_decides (taken : s.step d e = some s') : Decides d s e s' := by
  cases e with
  | invalid r =>
      simp only [step] at taken
      split at taken <;> cases taken
      exact .none rfl rfl True.intro
  | verify r now =>
      simp only [step] at taken
      split at taken
      · rename_i pending
        split at taken <;> rename_i verified <;> cases taken
        · refine .none rfl rfl fun _ reason raised => ?_
          cases verified.symm.trans raised
        · refine .one (.authError r _) rfl rfl (iff_of_false ?_ (by simp [Exit.counted]))
          exact fun counted => counted pending _ verified
        · refine .none rfl rfl fun _ reason raised => ?_
          cases verified.symm.trans raised
      · cases taken
  | turn e =>
      simp only [step] at taken
      split at taken
      · obtain ⟨process, -, rfl⟩ := Option.map_eq_some_iff.mp taken
        cases exit : turnExit d process e with
        | none => exact .none rfl rfl (turnExit_none exit)
        | some x => exact .one x rfl rfl (turnExit_counted exit)
      · cases taken
  | turnError i =>
      simp only [step] at taken
      split at taken <;> cases taken <;> exact .none rfl rfl True.intro
  | find k =>
      simp only [step] at taken
      split at taken
      · split at taken <;> cases taken
        · exact .none rfl rfl True.intro
        · exact .one (.acknowledged k) rfl rfl (iff_of_true True.intro rfl)
      · cases taken
  | findError k =>
      simp only [step] at taken
      split at taken <;> cases taken
      exact .none rfl rfl True.intro
  | adeleteThread k raises =>
      simp only [step] at taken
      split at taken <;> cases taken
      exact .one (.acknowledged k) rfl rfl (iff_of_true True.intro rfl)

theorem run_counted_iff {es : List (ServerEvent ι κ)} (taken : run (step d) s es = some s') :
    (∀ x ∈ s'.exits, x.counted = true) ↔
      (∀ x ∈ s.exits, x.counted = true) ∧ EachStep (step d) (CountedStep d) s es := by
  induction es generalizing s with
  | nil => cases taken; exact (and_iff_left True.intro).symm
  | cons e es ih =>
      obtain ⟨t, first, rest⟩ := (run_cons _).mp taken
      rw [ih rest, (step_decides first).counted_iff, and_assoc]
      apply and_congr_right'
      constructor
      · exact fun both => EachStep.cons first both.1 both.2
      · exact fun each => ⟨each.1, each.2 t first⟩

end ServerState

end

section
variable {ι κ : Type*}

def TurnPhase.decided {α : Type*} : TurnPhase α → Bool
  | .collected _ _ | .answered _ _ _ | .failed _ => true
  | _ => false

namespace ServerState
variable {s : ServerState ι κ}

def Spent (s : ServerState ι κ) : ι ⊕ κ → Prop
  | .inl i => s.auth (.inl i) = .refused ∨ (s.process.phase i).decided = true
  | .inr k => s.auth (.inr k) = .refused ∨ s.done k = .acknowledged

structure Sound (s : ServerState ι κ) : Prop where
  untouched : ∀ r, s.auth r ≠ .admitted → s.untouched r = true
  spent : ∀ x ∈ s.exits, s.Spent x.request
  once : (s.exits.map Exit.request).Nodup

theorem not_spent {r : ι ⊕ κ} (untouched : s.untouched r = true) (auth : s.auth r ≠ .refused) :
    ¬ s.Spent r := by
  cases r with
  | inl i =>
      rintro (refused | decided)
      · exact auth refused
      · change (s.process.phase i).isWaiting = true at untouched
        cases phase : s.process.phase i <;>
          simp_all [TurnPhase.isWaiting, TurnPhase.decided]
  | inr k =>
      rintro (refused | decided)
      · exact auth refused
      · change (s.done k).isWaiting = true at untouched
        rw [decided] at untouched
        cases untouched

theorem Sound.exit (sound : s.Sound) {x : Exit ι κ} (spent : s.Spent x.request)
    (new : ∀ y ∈ s.exits, y.request ≠ x.request) : (s.exit x).Sound := by
  refine ⟨sound.untouched, fun y member => ?_, ?_⟩
  · rcases List.mem_append.mp member with earlier | latest
    · exact sound.spent y earlier
    · rw [List.mem_singleton.mp latest]
      exact spent
  · rw [ServerState.exit, List.map_append, List.nodup_append]
    refine ⟨sound.once, List.nodup_singleton _, ?_⟩
    intro r earlier r' latest
    obtain ⟨y, member, rfl⟩ := List.mem_map.mp earlier
    rw [List.map_singleton, List.mem_singleton] at latest
    rw [latest]
    exact new y member

theorem Sound.setProcess (sound : s.Sound) (process : Process ι)
    (decided : ∀ i, (s.process.phase i).decided = true → (process.phase i).decided = true)
    (waits : ∀ i, s.auth (.inl i) ≠ .admitted → (process.phase i).isWaiting = (s.process.phase i).isWaiting) :
    ({ s with process } : ServerState ι κ).Sound := by
  refine ⟨fun r refused => ?_, fun x member => ?_, sound.once⟩
  · have before := sound.untouched r refused
    cases r with
    | inl i => exact (waits i refused).trans before
    | inr k => exact before
  · have before := sound.spent x member
    revert before
    cases x.request with
    | inl i => exact fun spent => spent.imp id (decided i)
    | inr k => exact id

def start (clock : ℚ) (threads : ThreadId → Option ChannelValues) : ServerState ι κ where
  process := { clock, threads }

theorem start_sound (clock : ℚ) (threads : ThreadId → Option ChannelValues) :
    (start clock threads : ServerState ι κ).Sound := by
  refine ⟨fun r _ => ?_, fun x none => (by cases none), .nil⟩
  cases r <;> rfl

theorem Sound.setDone [DecidableEq κ] (sound : s.Sound) {k : κ} {phase : DonePhase}
    (admitted : s.auth (.inr k) = .admitted)
    (keeps : s.done k = .acknowledged → phase = .acknowledged) : (s.setDone k phase).Sound := by
  have done (other : κ) : (s.setDone k phase).done other = if other = k then phase else s.done other :=
    Function.update_apply ..
  refine ⟨fun r refused => ?_, fun x member => ?_, sound.once⟩
  · have before := sound.untouched r refused
    cases r with
    | inl i => exact before
    | inr other =>
        change ((s.setDone k phase).done other).isWaiting = true
        rw [done]
        split_ifs with same
        · exact absurd admitted (same ▸ refused)
        · exact before
  · have before := sound.spent x member
    revert before
    cases x.request with
    | inl i => exact id
    | inr other =>
        rintro (refused | acknowledged)
        · exact .inl refused
        · refine .inr ((done other).trans ?_)
          split_ifs with same
          · exact keeps (same ▸ acknowledged)
          · exact acknowledged

end ServerState

end

section
variable {ι κ : Type*} [DecidableEq ι]

namespace Process
variable {sha256Hex : String → String} {incoming : ι → Incoming} {p p' : Process ι} {e : TurnEvent ι}

theorem step_phase (taken : p.step sha256Hex incoming e = some p') :
    p'.phase = p.phase ∨ ∃ i phase, p'.phase = Function.update p.phase i phase ∧
      ((p.phase i).decided = true → phase.decided = true) ∧
      ((∃ uuid, e = .arrive i uuid) ∨ (p.phase i).isWaiting = false) := by
  rcases step_cases taken with _ | _ | _ | at' | at' | at' | _ | at' | at' | at' | at' | _ | _
  case arriveNew => exact .inr ⟨_, _, rfl, by simp_all [TurnPhase.decided], .inl ⟨_, rfl⟩⟩
  case arriveKnown => exact .inr ⟨_, _, rfl, by simp_all [TurnPhase.decided], .inl ⟨_, rfl⟩⟩
  case arriveUnknown => exact .inr ⟨_, _, rfl, fun _ => rfl, .inl ⟨_, rfl⟩⟩
  case count => exact .inr ⟨_, _, rfl, by simp [at', TurnPhase.decided], .inr (by rw [at']; rfl)⟩
  case hit => exact .inr ⟨_, _, rfl, fun _ => rfl, .inr (by rw [at']; rfl)⟩
  case miss => exact .inr ⟨_, _, rfl, by simp [at', TurnPhase.decided], .inr (by rw [at']; rfl)⟩
  case collect => exact .inr ⟨_, _, rfl, fun _ => rfl, .inr (by rw [at']; rfl)⟩
  case refuse => exact .inr ⟨_, _, rfl, fun _ => rfl, .inr (by rw [at']; rfl)⟩
  case store => exact .inr ⟨_, _, rfl, fun _ => rfl, .inr (by rw [at']; rfl)⟩
  case abort => exact .inr ⟨_, _, rfl, fun _ => rfl, .inr (by rw [at']; rfl)⟩
  all_goals exact .inl rfl

end Process

theorem ServerState.turnExit_decides {d : Deployment ι κ} {s : ServerState ι κ} {process : Process ι} {e : TurnEvent ι} {x : Exit ι κ}
    (taken : s.process.step d.sha256Hex d.incoming e = some process)
    (exit : turnExit d process e = some x) :
    ∃ i, x.request = .inl i ∧ (s.process.phase i).decided = false ∧
      (s.process.phase i).isWaiting = false ∧ (process.phase i).decided = true := by
  rcases Process.step_cases taken with _ | _ | _ | _ | at' | at' | _ | at' | at' | _ | at' | _ | _ <;>
    try cases exit
  case hit =>
    have exit := exit
    simp only [turnExit, Process.move, Function.update_self, Option.some.injEq] at exit
    subst exit
    exact ⟨_, rfl, by rw [at']; rfl, by rw [at']; rfl, by simp [Process.move, TurnPhase.decided]⟩
  case miss => simp [turnExit, Process.move] at exit
  case collect => exact ⟨_, rfl, by rw [at']; rfl, by rw [at']; rfl, by simp [Process.move, TurnPhase.decided]⟩
  case refuse => exact ⟨_, rfl, by rw [at']; rfl, by rw [at']; rfl, by simp [Process.move, TurnPhase.decided]⟩
  case abort => exact ⟨_, rfl, by rw [at']; rfl, by rw [at']; rfl, by simp [Process.move, TurnPhase.decided]⟩

namespace ServerState
variable {d : Deployment ι κ} {s : ServerState ι κ}

theorem Sound.turn (sound : s.Sound) {process : Process ι} {e : TurnEvent ι}
    (admits : s.admits e = true) (taken : s.process.step d.sha256Hex d.incoming e = some process) :
    ({ s with process } : ServerState ι κ).Sound := by
  rcases Process.step_phase taken with same | ⟨i, phase, moved, keeps, arrives⟩
  · apply sound.setProcess <;> intro j <;> rw [same] <;> simp
  · apply sound.setProcess <;> intro j <;> rw [moved, Function.update_apply] <;> split_ifs with same
    · exact same ▸ keeps
    · exact id
    · intro refused
      subst same
      rcases arrives with ⟨uuid, rfl⟩ | started
      · exact absurd (by simpa [ServerState.admits] using admits) refused
      · have waiting : (s.process.phase j).isWaiting = true := sound.untouched (.inl j) refused
        rw [waiting] at started
        cases started
    · exact fun _ => rfl

theorem Sound.turnError (sound : s.Sound) {i : ι} (admitted : s.auth (.inl i) = .admitted) :
    ({ s with process := s.process.move i (.failed .internal) } : ServerState ι κ).Sound := by
  have phase (j : ι) : (s.process.move i (.failed .internal)).phase j =
      if j = i then .failed .internal else s.process.phase j := Function.update_apply ..
  apply sound.setProcess <;> intro j <;> rw [phase] <;> split_ifs with same
  · exact fun _ => rfl
  · exact id
  · exact fun refused => absurd admitted (same ▸ refused)
  · exact fun _ => rfl

end ServerState

namespace ServerState
variable [DecidableEq κ] {d : Deployment ι κ} {s s' : ServerState ι κ} {e : ServerEvent ι κ}

theorem Sound.setAuth (sound : s.Sound) {r : ι ⊕ κ} {phase : AuthPhase}
    (untouched : s.untouched r = true) (keeps : s.Spent r → phase = .refused) :
    (s.setAuth r phase).Sound := by
  have auth (other : ι ⊕ κ) : (s.setAuth r phase).auth other =
      if other = r then phase else s.auth other := Function.update_apply ..
  refine ⟨fun other refused => ?_, fun x member => ?_, sound.once⟩
  · by_cases same : other = r
    · rw [same]
      cases r <;> exact untouched
    · rw [auth, if_neg same] at refused
      have here := sound.untouched other refused
      cases other <;> exact here
  · have before := sound.spent x member
    by_cases same : x.request = r
    · have refused := keeps (same ▸ before)
      rw [same]
      cases r <;> exact .inl ((auth _).trans (by rw [if_pos rfl, refused]))
    · revert before same
      cases x.request with
      | inl i =>
          rintro (refused | decided) same
          · exact .inl ((auth _).trans (by rw [if_neg same, refused]))
          · exact .inr decided
      | inr k =>
          rintro (refused | acknowledged) same
          · exact .inl ((auth _).trans (by rw [if_neg same, refused]))
          · exact .inr acknowledged

theorem Sound.step (sound : s.Sound) (taken : s.step d e = some s') : s'.Sound := by
  cases e with
  | invalid r =>
      simp only [ServerState.step] at taken
      split at taken <;> cases taken
      exact sound.setAuth (And.right ‹_›) fun _ => rfl
  | verify r now =>
      simp only [ServerState.step] at taken
      split at taken
      · rename_i pending
        have untouched := sound.untouched r (by simp [pending])
        have fresh : ¬ s.Spent r := not_spent untouched (by simp [pending])
        split at taken <;> cases taken
        · exact sound.setAuth untouched fun spent => absurd spent fresh
        · refine (sound.setAuth untouched fun _ => rfl).exit ?_ ?_
          · cases r <;> exact .inl (Function.update_self ..)
          · intro y member same
            have spent := sound.spent y member
            rw [same] at spent
            exact fresh spent
        · exact sound.setAuth untouched fun _ => rfl
      · cases taken
  | turn e =>
      simp only [ServerState.step] at taken
      split at taken
      · rename_i admits
        obtain ⟨process, stepped, rfl⟩ := Option.map_eq_some_iff.mp taken
        have moved := sound.turn admits stepped
        cases exit : turnExit d process e with
        | none => exact moved
        | some x =>
            obtain ⟨i, request, undecided, started, decided⟩ := turnExit_decides stepped exit
            refine moved.exit ?_ fun y member same => ?_
            · rw [request]
              exact .inr decided
            · have spent := sound.spent y member
              rw [same, request] at spent
              rcases spent with refused | decided
              · have waiting : (s.process.phase i).isWaiting = true :=
                  sound.untouched (.inl i) (by simp [refused])
                rw [waiting] at started
                cases started
              · rw [decided] at undecided
                cases undecided
      · cases taken
  | turnError i =>
      simp only [ServerState.step] at taken
      split at taken <;> cases taken <;> rename_i admitted _ <;> exact sound.turnError admitted
  | find k =>
      simp only [ServerState.step] at taken
      split at taken
      · rename_i admitted waiting
        have fresh : s.done k ≠ .acknowledged := by simp [waiting]
        split at taken <;> cases taken
        · exact sound.setDone admitted fun acknowledged => absurd acknowledged fresh
        · refine (sound.setDone admitted fun _ => rfl).exit (.inr (Function.update_self ..)) ?_
          intro y member same
          have spent := sound.spent y member
          rw [same] at spent
          rcases spent with refused | acknowledged
          · rw [admitted] at refused
            cases refused
          · exact fresh acknowledged
      · cases taken
  | findError k =>
      simp only [ServerState.step] at taken
      split at taken
      · rename_i admitted waiting
        cases taken
        exact sound.setDone admitted fun acknowledged => by rw [waiting] at acknowledged; cases acknowledged
      · cases taken
  | adeleteThread k raises =>
      simp only [ServerState.step] at taken
      split at taken
      · rename_i threadId deleting
        cases taken
        have fresh : s.done k ≠ .acknowledged := by simp [deleting]
        have admitted : s.auth (.inr k) = .admitted := by
          by_contra refused
          have waiting : (s.done k).isWaiting = true := sound.untouched (.inr k) refused
          rw [deleting] at waiting
          cases waiting
        have moved := sound.setProcess { s.process with
          threads := if raises then s.process.threads
            else Function.update s.process.threads threadId none }
          (fun _ => id) (fun _ _ => rfl)
        refine (moved.setDone admitted fun _ => rfl).exit (.inr (Function.update_self ..)) ?_
        intro y member same
        have spent := sound.spent y member
        rw [same] at spent
        rcases spent with refused | acknowledged
        · rw [admitted] at refused
          cases refused
        · exact fresh acknowledged
      · cases taken

theorem exits_once {clock : ℚ} {threads : ThreadId → Option ChannelValues}
    {es : List (ServerEvent ι κ)} (taken : run (step d) (start clock threads) es = some s) :
    (s.exits.map Exit.request).Nodup :=
  (run_invariant (fun _ _ _ sound taken => Sound.step sound taken) (start_sound clock threads) taken).once

end ServerState

/-- The counters refine the history of a run exactly when no verification in it raised an
`AuthError` and no graph run in it failed. -/
theorem countersRefine_run_iff [DecidableEq κ] (d : Deployment ι κ) (clock : ℚ)
    (threads : ThreadId → Option ChannelValues) (es : List (ServerEvent ι κ)) (s : ServerState ι κ)
    (taken : run (ServerState.step d) (.start clock threads) es = some s) :
    CountersRefine s ↔ EachStep (ServerState.step d) (CountedStep d) (.start clock threads) es := by
  have tallied : s.metrics = tally s.exits :=
    run_invariant (I := fun s => s.metrics = tally s.exits)
      (fun _ _ _ tallied taken => (ServerState.step_decides taken).tallied tallied) rfl taken
  rw [countersRefine_iff tallied, ServerState.run_counted_iff taken]
  apply and_iff_right
  intro x none
  cases none

def unauthenticated : Deployment Unit Empty where
  py := { hmacSha256 := fun _ _ => [], str := fun _ => .error .typeError, nesting := 1, nesting_pos := by decide }
  secret := []
  sha256Hex := id
  authorization _ := none
  incoming _ := { body := { message := "Hi", minLength := by decide, maxLength := by decide } }
  sessionId request := nomatch request

def refusedOnce : ServerState Unit Empty :=
  ((ServerState.start 0 fun _ => none).setAuth (.inl ()) .refused).exit (.authError (.inl ()) .malformed)

theorem countersRefine_run_unauthenticated :
    run (ServerState.step unauthenticated) (.start 0 fun _ => none) [.verify (.inl ()) 0] =
        some refusedOnce ∧
      (CountersRefine refusedOnce ↔ EachStep (ServerState.step unauthenticated)
        (CountedStep unauthenticated) (.start 0 fun _ => none) [.verify (.inl ()) 0]) :=
  ⟨rfl, countersRefine_run_iff unauthenticated 0 _ [.verify (.inl ()) 0] refusedOnce rfl⟩

theorem refused_request_uncounted :
    run (ServerState.step unauthenticated) (.start 0 fun _ => none) [.verify (.inl ()) 0] =
        some refusedOnce ∧
      refusedOnce.metrics.tokenVerifyFailuresTotal .malformed = 0 ∧ ¬ CountersRefine refusedOnce := by
  refine ⟨rfl, rfl, fun refine => ?_⟩
  have one := refine.verifyFailures .malformed
  cases one

end

end DecisionMaker.Server
