import DecisionMaker.Server.Dialogue
import DecisionMaker.Server.IdleTtl
import DecisionMaker.Server.Service

namespace DecisionMaker.Server

open Library DecisionMaker.Graph

namespace Store

/-- No call of the checkpointer is under way, and there is a name for the next one. -/
structure Idle (s : Store ℕ) : Prop where
  ended : ∀ id c, s.calls id = some c → c.status ≠ .running
  unused : ∃ next, ∀ id, next ≤ id → s.calls id = none

def after (t : Tables) (statements : List Statement) : Tables := statements.foldl Statement.apply t

variable {s : Store ℕ}

/-- The call has done its first awaits, and nothing else has happened. -/
structure Doing (s : Store ℕ) (operation : Operation) (done : ℕ) (id : ℕ) (t : Store ℕ) : Prop where
  called : ∃ c, t.calls id = some c ∧ c.operation = operation ∧ c.done = done ∧
    c.status = if done = operation.program.length then .returned else .running
  others : ∀ other, other ≠ id → t.calls other = s.calls other
  tables : t.tables = after s.tables ((operation.program.take done).filterMap Action.statement)

theorem Doing.next {operation : Operation} {done id : ℕ} {t : Store ℕ} (doing : s.Doing operation done id t)
    (more : done < operation.program.length) :
    ∃ t', Reaches step t t' ∧ s.Doing operation (done + 1) id t' := by
  obtain ⟨c, called, rfl, rfl, status⟩ := doing.called
  have running : c.status = .running := by rw [status, if_neg (Nat.ne_of_lt more)]
  obtain ⟨a, next⟩ : ∃ a, c.next = some a := ⟨_, List.getElem?_eq_getElem more⟩
  have taken : t.step (.returns id) =
      some ({ t with connection := t.act id a }.setCall id (c.advance t.tables a)) := by
    simp only [step, called, running, next]
  refine ⟨_, .single taken, ⟨c.advance t.tables a, setCall_self .., rfl, rfl, rfl⟩, ?_, ?_⟩
  · intro other apart
    exact (setCall_other _ apart _).trans (doing.others other apart)
  · have grown := SaverCall.executed_advance next t.tables
    simp only [SaverCall.executed, SaverCall.advance] at grown
    rw [grown, after, List.foldl_append]
    refine (tables_act t id a).trans ?_
    rw [doing.tables]
    cases a <;> rfl

theorem Doing.reach {id : ℕ} (operation : Operation) (fresh : s.calls id = none) :
    ∀ done ≤ operation.program.length, ∃ t, Reaches step s t ∧ s.Doing operation done id t
  | 0, _ => by
      have taken : s.step (.call id operation) = some (s.setCall id { operation }) := by
        simp only [step, fresh]
      have status : CallStatus.running = if 0 = operation.program.length then .returned else .running :=
        (if_neg (Nat.ne_of_lt operation.program_pos)).symm
      exact ⟨_, .single taken, ⟨_, setCall_self .., rfl, rfl, status⟩,
        fun _ apart => setCall_other _ apart _, rfl⟩
  | done + 1, le => by
      obtain ⟨t, reached, doing⟩ := reach operation fresh done (Nat.le_of_succ_le le)
      obtain ⟨t', further, next⟩ := doing.next le
      exact ⟨t', reached.trans further, next⟩

theorem Idle.of_call {t : Store ℕ} {id : ℕ} (idle : s.Idle) {c : SaverCall} (called : t.calls id = some c)
    (ended : c.status ≠ .running) (others : ∀ other, other ≠ id → t.calls other = s.calls other) :
    t.Idle := by
  obtain ⟨next, unused⟩ := idle.unused
  refine ⟨fun other d found => ?_, max next (id + 1), fun other late => ?_⟩
  · by_cases same : other = id
    · subst same
      obtain rfl := Option.some.inj (called.symm.trans found)
      exact ended
    · exact idle.ended other d (others other same ▸ found)
  · rw [others other (by omega)]
    exact unused other (by omega)

/-- A call that nothing runs beside, up to where it raises if it does not return. -/
theorem Idle.performs (idle : s.Idle) (operation : Operation) {done : ℕ}
    (le : done ≤ operation.program.length) : ∃ t, Reaches step s t ∧ t.Idle ∧
      t.tables = after s.tables ((operation.program.take done).filterMap Action.statement) := by
  obtain ⟨id, unused⟩ := idle.unused
  obtain ⟨t, reached, doing⟩ := Doing.reach operation (unused id (Nat.le_refl id)) done le
  obtain ⟨c, called, rfl, rfl, status⟩ := doing.called
  by_cases whole : c.done = c.operation.program.length
  · rw [if_pos whole] at status
    exact ⟨t, reached, idle.of_call called (by simp [status]) doing.others, doing.tables⟩
  · rw [if_neg whole] at status
    obtain ⟨a, next⟩ : ∃ a, c.next = some a := ⟨_, List.getElem?_eq_getElem (Nat.lt_of_le_of_ne le whole)⟩
    have taken : t.step (.raises id false) = some (t.setCall id { c with status := .raised }) := by
      simp only [step, called, status, next]
      rfl
    have others (other : ℕ) (apart : other ≠ id) :
        (t.setCall id { c with status := .raised }).calls other = s.calls other :=
      (setCall_other t apart _).trans (doing.others other apart)
    exact ⟨_, reached.trans (.single taken), idle.of_call (setCall_self ..) (by simp) others, doing.tables⟩

/-- Runs of calls, one after the other, that take the tables from `t` to `t'`. -/
def Leads (t t' : Tables) : Prop :=
  ∀ s : Store ℕ, s.Idle → s.tables = t → ∃ s', Reaches step s s' ∧ s'.Idle ∧ s'.tables = t'

theorem Leads.refl (t : Tables) : Leads t t := fun s idle same => ⟨s, .refl s, idle, same⟩

theorem Leads.trans {t u v : Tables} (first : Leads t u) (later : Leads u v) : Leads t v := by
  intro s idle same
  obtain ⟨s', reached, idle, same⟩ := first s idle same
  obtain ⟨s'', further, idle, same⟩ := later s' idle same
  exact ⟨s'', reached.trans further, idle, same⟩

theorem leads_call (t : Tables) (operation : Operation) (done : ℕ) (le : done ≤ operation.program.length) :
    Leads t (after t ((operation.program.take done).filterMap Action.statement)) := by
  rintro s idle rfl
  exact idle.performs operation le

theorem leads_touch (t : Tables) {threadId : String} (named : threadId ≠ "") (nowUnix : Int) :
    Leads t { t with brainstormMeta := t.brainstormMeta.insert threadId nowUnix } := by
  have called := leads_call t (.agetTuple threadId nowUnix) _ (Nat.le_refl _)
  rw [List.take_length, Operation.program, touchIfNamed, if_neg named] at called
  exact called

theorem leads_put (t : Tables) (threadId : String) :
    Leads t { t with checkpoints := insert threadId t.checkpoints } :=
  leads_call t (.aput threadId 0) 2 (by simp [Operation.program])

theorem leads_deletion (t : Tables) (threadId : String) (executed : ℕ) :
    Leads t (after t ((deletions threadId).take executed)) := by
  have called := leads_call t (.adeleteThread threadId) (min executed 4) (Nat.min_le_right ..)
  have same : ((Operation.adeleteThread threadId).program.take (min executed 4)).filterMap Action.statement =
      (deletions threadId).take executed := by
    rcases executed with _ | _ | _ | _ | executed <;> simp [Operation.program, deletions, Action.statement]
  rwa [same] at called

end Store

open Store

theorem Store.Idle.touched {t : Store ℕ} (idle : t.Idle) {threadId : String} (named : threadId ≠ "")
    (nowUnix : Int) : ∃ t', Reaches Store.step t t' ∧ t'.Idle ∧
      t'.tables.brainstormMeta = t.tables.brainstormMeta.insert threadId nowUnix := by
  obtain ⟨t', reached, idle, same⟩ := leads_touch t.tables named nowUnix t idle rfl
  exact ⟨t', reached, idle, congrArg Tables.brainstormMeta same⟩

theorem Store.Idle.deleted {t : Store ℕ} (idle : t.Idle) (threadId : String) :
    ∃ t', Reaches Store.step t t' ∧ t'.Idle ∧
      t'.tables.brainstormMeta = t.tables.brainstormMeta.erase threadId := by
  obtain ⟨t', reached, idle, same⟩ := leads_deletion t.tables threadId 3 t idle rfl
  exact ⟨t', reached, idle, congrArg Tables.brainstormMeta same⟩

section
variable {cfg : Config} {ι : Type*} [DecidableEq ι]

structure Host.Backed (s : Host ι String) (t : Store ℕ) : Prop where
  idle : t.Idle
  rows : t.tables.brainstormMeta = s.table
  named : ∀ u ∈ s.turns, u.thread ≠ ""

def SweepEvent.Named (e : SweepEvent ι String) : Prop := ∀ id thread, e = .start id thread → thread ≠ ""

theorem Host.Backed.step {s s' : Host ι String} {t : Store ℕ} {e : SweepEvent ι String} (backed : s.Backed t)
    (named : e.Named) (taken : s.step cfg e = some s') :
    ∃ t', Reaches Store.step t t' ∧ s'.Backed t' := by
  have replaced (u : Turn ι String) (thread : u.thread ≠ "") :
      ∀ v ∈ (s.replaceTurn u).turns, v.thread ≠ "" := by
    intro v member
    rcases mem_replaceTurn member with rfl | old
    · exact thread
    · exact backed.named v old
  cases step_cases taken with
  | start id thread =>
      refine ⟨t, .refl t, backed.idle, backed.rows, fun u member => ?_⟩
      rcases List.mem_cons.mp member with rfl | old
      · exact named id thread rfl
      · exact backed.named u old
  | access u member | stamp u member =>
      exact ⟨t, .refl t, backed.idle, backed.rows, replaced _ (backed.named u member)⟩
  | touch u nowUnix member =>
      obtain ⟨t', reached, idle, rows⟩ := backed.idle.touched (backed.named u member) nowUnix
      exact ⟨t', reached, idle, rows.trans (congrArg _ backed.rows), replaced _ (backed.named u member)⟩
  | finish id =>
      exact ⟨t, .refl t, backed.idle, backed.rows,
        fun u member => backed.named u (List.mem_filter.mp member).1⟩
  | adeleteThread thread =>
      obtain ⟨t', reached, idle, rows⟩ := backed.idle.deleted thread
      exact ⟨t', reached, idle, rows.trans (congrArg _ backed.rows), backed.named⟩
  | tick | listStale | deleteError | summary | advance =>
      exact ⟨t, .refl t, backed.idle, backed.rows, backed.named⟩

/-- Whatever a host does to the rows, calls of the checkpointer do. -/
theorem Host.backed_of_run {s s' : Host ι String} {t : Store ℕ} {es : List (SweepEvent ι String)}
    (backed : s.Backed t) (named : ∀ e ∈ es, e.Named) (taken : run (Host.step cfg) s es = some s') :
    ∃ t', Reaches Store.step t t' ∧ s'.Backed t' :=
  run_simulated (fun _ _ _ _ backed named taken => backed.step named taken) backed (.of_forall named) taken

end

section
variable {settings : SweeperSettings}

structure IdleHost.Backed (s : IdleHost String) (t : Store ℕ) : Prop where
  idle : t.Idle
  rows : t.tables.brainstormMeta = s.table
  named : ∀ q ∈ s.queue, ∀ thread lastTouched, q.statement = .replaceMeta thread lastTouched → thread ≠ ""

def IdleEvent.Named (e : IdleEvent String) : Prop := ∀ thread, e = .touch thread → thread ≠ ""

theorem IdleHost.Backed.enqueue {s : IdleHost String} {t : Store ℕ} (backed : s.Backed t)
    {statement : MetaStatement String} (named : ∀ thread lastTouched,
      statement = .replaceMeta thread lastTouched → thread ≠ "") : (s.enqueue statement).Backed t := by
  refine ⟨backed.idle, backed.rows, fun q member => ?_⟩
  rcases List.mem_append.mp member with earlier | latest
  · exact backed.named q earlier
  · rw [List.mem_singleton.mp latest]
    exact named

theorem IdleHost.Backed.dequeue {s : IdleHost String} {t : Store ℕ} (backed : s.Backed t)
    {q : Enqueued String} {queue : List (Enqueued String)} (head : s.queue = q :: queue) :
    ({ s with queue } : IdleHost String).Backed t :=
  ⟨backed.idle, backed.rows, fun r member => backed.named r (head ▸ List.mem_cons_of_mem _ member)⟩

theorem IdleHost.Backed.sweeper {s : IdleHost String} {t : Store ℕ} (backed : s.Backed t)
    (sweeper : SweeperPhase String) : ({ s with sweeper } : IdleHost String).Backed t :=
  ⟨backed.idle, backed.rows, backed.named⟩

theorem IdleHost.Backed.erase {s : IdleHost String} {t : Store ℕ} (backed : s.Backed t)
    (thread : String) : ∃ t', Reaches Store.step t t' ∧
      ({ s with table := s.table.erase thread } : IdleHost String).Backed t' := by
  obtain ⟨t', reached, idle, rows⟩ := backed.idle.deleted thread
  exact ⟨t', reached, idle, rows.trans (congrArg _ backed.rows), backed.named⟩

theorem IdleHost.Backed.step {s s' : IdleHost String} {t : Store ℕ} {e : IdleEvent String}
    (backed : s.Backed t) (named : e.Named) (taken : s.step settings e = some s') :
    ∃ t', Reaches Store.step t t' ∧ s'.Backed t' := by
  cases e with
  | touch thread =>
      cases taken
      refine ⟨t, .refl t, backed.enqueue ?_⟩
      rintro _ _ ⟨⟩
      exact named thread rfl
  | done thread =>
      cases taken
      exact ⟨t, .refl t, backed.enqueue fun _ _ asked => by cases asked⟩
  | tick =>
      simp only [IdleHost.step] at taken
      split at taken
      · split at taken <;> cases taken
        exact ⟨t, .refl t, (backed.enqueue fun _ _ asked => by cases asked).sweeper _⟩
      · cases taken
  | serve =>
      simp only [IdleHost.step] at taken
      split at taken
      · rename_i issued thread lastTouched queue head
        cases taken
        have first := backed.named _ (head ▸ List.mem_cons_self) thread lastTouched rfl
        obtain ⟨t', reached, idle, rows⟩ := backed.idle.touched first lastTouched
        exact ⟨t', reached, idle, rows.trans (congrArg _ backed.rows), (backed.dequeue head).named⟩
      · cases taken
        exact (backed.dequeue ‹_›).erase _
      · split at taken <;> cases taken
        exact ((backed.dequeue ‹_›).sweeper _).erase _
      · cases taken
  | listStale staleIds =>
      simp only [IdleHost.step] at taken
      split at taken
      · split at taken <;> cases taken
        exact ⟨t, .refl t, (backed.dequeue ‹_›).sweeper _⟩
      · cases taken
  | serveError =>
      simp only [IdleHost.step] at taken
      split at taken
      · cases taken
        exact ⟨t, .refl t, (backed.dequeue ‹_›).sweeper _⟩
      · split at taken <;> cases taken
        exact ⟨t, .refl t, (backed.dequeue ‹_›).sweeper _⟩
      · cases taken
        exact ⟨t, .refl t, backed.dequeue ‹_›⟩
      · cases taken
  | adeleteThread | deleteError | summary =>
      simp only [IdleHost.step] at taken
      split at taken <;> cases taken
      exact ⟨t, .refl t, backed.sweeper _⟩
  | deleteMeta =>
      simp only [IdleHost.step] at taken
      split at taken <;> cases taken
      exact ⟨t, .refl t, (backed.enqueue fun _ _ asked => by cases asked).sweeper _⟩
  | advance seconds =>
      simp only [IdleHost.step] at taken
      split at taken <;> cases taken
      exact ⟨t, .refl t, backed.idle, backed.rows, backed.named⟩

theorem IdleHost.backed_of_run {s s' : IdleHost String} {t : Store ℕ} {es : List (IdleEvent String)}
    (backed : s.Backed t) (named : ∀ e ∈ es, e.Named) (taken : run (IdleHost.step settings) s es = some s') :
    ∃ t', Reaches Store.step t t' ∧ s'.Backed t' :=
  run_simulated (fun _ _ _ _ backed named taken => backed.step named taken) backed (.of_forall named) taken

end

structure Reflects (t : Tables) (b : Backend) : Prop where
  checkpoints : ∀ threadId, threadId.id ∈ t.checkpoints ↔ (b.threads threadId).isSome = true
  rows : ∀ sessionId lastTouched,
    t.brainstormMeta.lookup sessionId = some lastTouched ↔ (sessionId, lastTouched) ∈ b.lastTouched

/-- What requests do to the tables of a server, calls of the checkpointer do. -/
def Persists (b b' : Backend) : Prop := ∀ t, Reflects t b → ∃ t', Leads t t' ∧ Reflects t' b'

section
variable {app : App} {b b' : Backend}

theorem Reflects.listStale {t : Tables} (reflects : Reflects t b) (now threshold : Int)
    (sessionId : String) :
    sessionId ∈ b.listStale now threshold ↔ sessionId ∈ t.brainstormMeta.listStale now threshold := by
  simp [MetaTable.mem_listStale, reflects.rows, Backend.listStale]

theorem Persists.trans {b'' : Backend} (first : Persists b b') (later : Persists b' b'') :
    Persists b b'' := by
  intro t reflects
  obtain ⟨t', reached, reflects⟩ := first t reflects
  obtain ⟨t'', further, reflects⟩ := later t' reflects
  exact ⟨t'', reached.trans further, reflects⟩

theorem Persists.of_same (threads : b'.threads = b.threads) (rows : b'.lastTouched = b.lastTouched) :
    Persists b b' := by
  intro t reflects
  refine ⟨t, .refl t, ?_, ?_⟩
  · rw [threads]
    exact reflects.checkpoints
  · rw [rows]
    exact reflects.rows

theorem persists_touch (b : Backend) (sessionId : String) (nowUnix : Option Int) :
    Persists b (b.touch sessionId nowUnix) := by
  cases nowUnix with
  | none => exact .of_same rfl rfl
  | some nowUnix =>
      by_cases unnamed : sessionId = ""
      · exact .of_same rfl (if_pos unnamed)
      intro t reflects
      refine ⟨_, leads_touch t unnamed nowUnix, reflects.checkpoints, fun other lastTouched => ?_⟩
      have rows : (b.touch sessionId (some nowUnix)).lastTouched =
          (sessionId, nowUnix) :: b.lastTouched.filter fun row => row.1 ≠ sessionId := if_neg unnamed
      rw [rows]
      by_cases same : other = sessionId
      · subst same
        simp [eq_comm]
      · simp [same, AList.lookup_insert_ne same, reflects.rows]

theorem persists_put (b : Backend) (threadId : ThreadId) (t : Thread) :
    Persists b { b with threads := Function.update b.threads threadId (some t) } := by
  intro tables reflects
  refine ⟨_, leads_put tables threadId.id, fun other => ?_, reflects.rows⟩
  by_cases same : other = threadId
  · subst same
    simp
  · have apart : other.id ≠ threadId.id := fun equal => same (ThreadId.ext equal)
    simp [apart, same, reflects.checkpoints]

theorem persists_adeleteThread (b : Backend) (sessionId : String) (executed : ℕ) :
    Persists b (b.adeleteThread sessionId executed) := by
  intro t reflects
  refine ⟨_, leads_deletion t sessionId executed, fun other => ?_, fun other lastTouched => ?_⟩
  · have erased : (after t ((deletions sessionId).take executed)).checkpoints =
        if 1 ≤ executed then t.checkpoints.erase sessionId else t.checkpoints := by
      rcases executed with _ | _ | _ | executed <;> simp [deletions, after, Statement.apply]
    rw [erased]
    by_cases executes : 1 ≤ executed <;> by_cases same : other.id = sessionId <;>
      simp [Backend.adeleteThread, executes, same, ← reflects.checkpoints]
  · have erased : (after t ((deletions sessionId).take executed)).brainstormMeta =
        if 3 ≤ executed then t.brainstormMeta.erase sessionId else t.brainstormMeta := by
      rcases executed with _ | _ | _ | executed <;> simp [deletions, after, Statement.apply]
    rw [erased]
    by_cases executes : 3 ≤ executed <;> by_cases same : other = sessionId
    · subst same
      simp [Backend.adeleteThread, executes]
    · simp [Backend.adeleteThread, executes, same, AList.lookup_erase_ne same, reflects.rows]
    all_goals simp [Backend.adeleteThread, executes, reflects.rows]

theorem persists_runLeg (b : Backend) (threadId : ThreadId) (body : TurnBody) (w : Surroundings) :
    Persists b (b.runLeg threadId body w) := by
  have touched : Persists b (b.touch threadId.id w.touched) := persists_touch b threadId.id w.touched
  by_cases written : w.written = true
  · have put := persists_put (b.touch threadId.id w.touched) threadId
      (((b.threads threadId).getD {}).perform (Backend.attemptOf body w))
    refine (touched.trans put).trans (.of_same ?_ rfl)
    simp [Backend.runLeg, written, Backend.touch]
  · refine touched.trans (.of_same ?_ rfl)
    simp [Backend.runLeg, written, Backend.touch]

theorem persists_takeTurn (app : App) (b : Backend) (body : TurnBody) (w : Surroundings)
    (threadId : ThreadId) : Persists b (b.takeTurn app body w threadId).2 := by
  unfold Backend.takeTurn
  dsimp only
  split
  · exact .of_same rfl rfl
  · split
    · exact .of_same rfl rfl
    · rename_i cache looked
      have cached : Persists b { b with cache } := .of_same rfl rfl
      have ran := cached.trans (persists_runLeg { b with cache } threadId body w)
      split
      · exact ran
      · split
        · exact ran
        · exact ran.trans (.of_same rfl rfl)

theorem persists_handleTurn (app : App) (b : Backend) (correlationId : String) (body : TurnBody)
    (w : Surroundings) : Persists b (b.handleTurn app correlationId body w).2 := by
  unfold Backend.handleTurn
  split
  · exact persists_takeTurn app b body w w.uuid
  · rename_i sessionId named
    have looked : Persists b (b.touch sessionId w.lookup.touched) := persists_touch b sessionId _
    dsimp only
    split
    · exact looked
    · exact looked
    · have counted := looked.trans (persists_touch _ sessionId w.count.touched)
      split
      · exact counted
      · exact counted.trans (persists_takeTurn app _ body w _)

theorem persists_step {e : HttpEvent} (taken : b.step app e = some b') : Persists b b' := by
  cases e with
  | turn request w =>
      obtain ⟨-, taken⟩ := Option.ite_none_left_eq_some.mp taken
      obtain rfl := Option.some.inj taken
      unfold Backend.postTurn Backend.turnEndpoint
      dsimp only
      split
      · exact .of_same rfl rfl
      · exact persists_handleTurn app b _ _ w
  | done request w =>
      obtain rfl := Option.some.inj taken
      unfold Backend.postDone Backend.handleDone
      split
      · exact .of_same rfl rfl
      · rename_i sessionId resolved
        have looked : Persists b (b.touch sessionId w.lookup.touched) := persists_touch b sessionId _
        dsimp only
        split
        · exact looked
        · split
          · exact looked.trans (persists_adeleteThread _ sessionId w.executed)
          · exact looked
  | list now =>
      obtain rfl := Backend.step_list taken
      exact .of_same rfl rfl
  | sweep executed =>
      obtain ⟨sessionId, stale, -, rfl⟩ := Backend.step_sweep taken
      exact (persists_adeleteThread b sessionId executed).trans (.of_same rfl rfl)
  | advance seconds forward =>
      obtain rfl := Option.some.inj taken
      exact .of_same rfl rfl

/-- Whatever requests a server answers one at a time, its tables are those that calls of the
checkpointer leave behind, a call that raises half way among them. -/
theorem backend_persists (app : App) (es : List HttpEvent) (b : Backend)
    (taken : run (Backend.step app) {} es = some b) :
    ∃ s : Store ℕ, Reaches Store.step {} s ∧ s.Idle ∧ Reflects s.tables b := by
  have idle : ({} : Store ℕ).Idle := ⟨nofun, 0, fun _ _ => rfl⟩
  have empty : Reflects ({} : Store ℕ).tables {} := by
    refine ⟨fun _ => by simp [tables, tablesOf], fun sessionId lastTouched => ?_⟩
    simp [tables, tablesOf, AList.lookup_empty]
  refine run_simulated (R := fun b (s : Store ℕ) => s.Idle ∧ Reflects s.tables b) ?_ ⟨idle, empty⟩
    .trivial taken
  intro b e b' s related _ taken
  obtain ⟨t', leads, reflects⟩ := persists_step taken s.tables related.2
  obtain ⟨s', reached, idle, rfl⟩ := leads s related.1 rfl
  exact ⟨s', reached, idle, reflects⟩

end

section
variable {κ : Type} [DecidableEq κ] {s s' : Service κ}

namespace Service

theorem startCall_reaches {call : κ × Nat} {operation : Operation}
    (started : s.startCall call operation = some s') : Reaches Store.step s.store s'.store := by
  obtain ⟨store, called, rfl⟩ := Option.map_eq_some_iff.mp started
  exact .single called

theorem sweepNext_reaches {id : κ} {calls : Nat} {staleIds : List String}
    (next : s.sweepNext id calls staleIds = some s') : Reaches Store.step s.store s'.store := by
  cases staleIds with
  | nil =>
      cases next
      exact .refl s.store
  | cons threadId staleIds =>
      obtain ⟨t, started, rfl⟩ := Option.map_eq_some_iff.mp next
      exact (startCall_reaches started :)

theorem step_reaches {e : ServiceEvent κ} (taken : s.step e = some s') (running : e ≠ .restart) :
    Reaches Store.step s.store s'.store := by
  cases step_steps taken with
  | turn _ _ _ _ _ started | done _ _ _ _ _ started => exact (startCall_reaches started :)
  | saverCall _ _ _ _ _ _ _ _ started | confirmed _ _ _ _ _ _ _ _ started =>
      exact (startCall_reaches started :)
  | tick _ _ _ _ _ _ _ next | swept _ _ _ _ _ _ _ _ _ next | sweepError _ _ _ _ _ _ _ _ _ next =>
      exact (sweepNext_reaches next :)
  | returns _ _ returned => exact .single returned
  | raises _ _ _ raised => exact .single raised
  | newTurn | accepted | refused | missing | closed | swallowed | finish => exact .refl s.store
  | restart => exact absurd rfl running

/-- As long as a server is up, its handlers and its sweeper only make calls of the checkpointer. -/
theorem store_of_run {es : List (ServiceEvent κ)} (taken : run Service.step s es = some s')
    (running : .restart ∉ es) : Reaches Store.step s.store s'.store := by
  have up : ∀ e ∈ es, e ≠ .restart := fun e member same => running (same ▸ member)
  exact run_projected (fun _ _ _ up taken => step_reaches taken up) (.of_forall up) taken

end Service

end

end DecisionMaker.Server
