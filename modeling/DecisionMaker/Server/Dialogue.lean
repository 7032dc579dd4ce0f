import DecisionMaker.Server.AtMostOnce
import DecisionMaker.Server.Http
import DecisionMaker.Server.ScriptTokens

namespace DecisionMaker.Server

open Library DecisionMaker.Graph

def Begun (turns : List Attempt) : Prop :=
  ∀ first later, turns = first :: later → first.starts ∧ ∀ attempt ∈ later, attempt.resumes

theorem Begun.single {attempt : Attempt} (starts : attempt.starts) : Begun [attempt] := by
  rintro first later ⟨⟩
  exact ⟨starts, by simp⟩

theorem Begun.concat {turns : List Attempt} {attempt : Attempt} (begun : Begun turns) (some : turns ≠ [])
    (resumes : attempt.resumes) : Begun (turns ++ [attempt]) := by
  obtain ⟨first, later, rfl⟩ := List.exists_cons_of_ne_nil some
  rintro _ _ ⟨⟩
  obtain ⟨starts, others⟩ := begun first later rfl
  refine ⟨starts, fun other member => ?_⟩
  rcases List.mem_append.mp member with earlier | latest
  · exact others other earlier
  · exact List.mem_singleton.mp latest ▸ resumes

theorem Begun.session {turns : List Attempt} (begun : Begun turns) :
    (Thread.after turns).session = (Thread.after turns).executions := by
  induction turns using List.reverseRecOn with
  | nil => rfl
  | append_singleton turns attempt ih =>
      rw [Thread.after_concat, Thread.perform_session, Thread.perform_executions]
      cases turns with
      | nil =>
          obtain ⟨userInput, call⟩ := (begun attempt [] rfl).1
          have call : ((Thread.after []).record attempt).call = .start userInput := call
          rw [CallRecord.continues, call]
          rfl
      | cons first later =>
          obtain ⟨starts, others⟩ := begun first (later ++ [attempt]) rfl
          obtain ⟨userAnswer, call⟩ := others attempt (by simp)
          have call : ((Thread.after (first :: later)).record attempt).call = .resume userAnswer := call
          have before : Begun (first :: later) := by
            rintro _ _ ⟨⟩
            exact ⟨starts, fun other member => others other (List.mem_append_left _ member)⟩
          rw [CallRecord.continues, call, ← ih before]

theorem TurnRequest.call_starts {request : TurnRequest} (new : request.sessionId = none) :
    request.call = .start request.message := by
  simp [TurnRequest.call, new]

theorem TurnRequest.call_resumes {request : TurnRequest} {sessionId : String}
    (known : request.sessionId = some sessionId) : request.call = .resume request.message := by
  simp [TurnRequest.call, known]

namespace Backend

variable {app : App} {b b' : Backend} {body : TurnBody} {w : Surroundings} {threadId : ThreadId}

/-- Apart from a leg, an event keeps the calls and can only take threads away. -/
inductive Moves (b : Backend) : HttpEvent → Backend → Prop
  | fades {e : HttpEvent} {b' : Backend}
      (threads : ∀ threadId, b'.threads threadId = b.threads threadId ∨ b'.threads threadId = none)
      (turns : b'.turns = b.turns) (issued : b'.issued = b.issued) : Moves b e b'
  | runs {request : HttpRequest TurnBody} {w : Surroundings} {body : TurnBody} {threadId : ThreadId}
      {cache : IdempotencyCache TurnResponse} {rows : List (String × Int)} (fresh : w.uuid ∉ b.issued)
      (routed : b.Routed body w threadId) :
      Moves b (.turn request w) { b.runLeg threadId body w with cache, lastTouched := rows }

theorem Moves.quiet {e : HttpEvent} (threads : b'.threads = b.threads) (turns : b'.turns = b.turns)
    (issued : b'.issued = b.issued) : b.Moves e b' :=
  .fades (fun threadId => .inl (congrFun threads threadId)) turns issued

theorem adeleteThread_threads (b : Backend) (sessionId : String) (executed : Nat) (threadId : ThreadId) :
    (b.adeleteThread sessionId executed).threads threadId = b.threads threadId ∨
      (b.adeleteThread sessionId executed).threads threadId = none := by
  dsimp only [adeleteThread]
  split
  · exact .inr rfl
  · exact .inl rfl

theorem handleTurn_moves (app : App) (correlationId : String) (body : TurnBody)
    (request : HttpRequest TurnBody) (fresh : w.uuid ∉ b.issued) :
    b.Moves (.turn request w) (b.handleTurn app correlationId body w).2 := by
  have handled := handleTurn_cases app b correlationId body w
  generalize (b.handleTurn app correlationId body w).1 = outcome at handled
  generalize (b.handleTurn app correlationId body w).2 = after at handled ⊢
  cases handled with
  | unknown named lost => exact .quiet rfl rfl rfl
  | unread => exact .quiet rfl rfl rfl
  | cached routed answer kept => exact .quiet rfl rfl rfl
  | ran routed failed replied kept => exact .runs fresh routed

theorem handleDone_moves (b : Backend) (sessionId : String) (w : DoneSurroundings) (e : HttpEvent) :
    b.Moves e (b.handleDone sessionId w).2 := by
  unfold handleDone
  dsimp only
  split
  · exact .quiet rfl rfl rfl
  · split
    · exact .fades (adeleteThread_threads b sessionId w.executed) rfl rfl
    · exact .quiet rfl rfl rfl

theorem step_list {now : Int} (taken : b.step app (.list now) = some b') :
    b' = { b with stale := b.listStale now app.sweepThresholdSecs } := by
  dsimp only [step] at taken
  split at taken
  · exact (Option.some.inj taken).symm
  · cases taken

theorem step_sweep {executed : Nat} (taken : b.step app (.sweep executed) = some b') :
    ∃ sessionId stale, b.stale = sessionId :: stale ∧
      b' = { b.adeleteThread sessionId executed with stale } := by
  dsimp only [step] at taken
  split at taken
  · cases taken
  · rename_i sessionId stale listed
    exact ⟨sessionId, stale, listed, (Option.some.inj taken).symm⟩

theorem step_moves {e : HttpEvent} (taken : b.step app e = some b') : b.Moves e b' := by
  cases e with
  | turn request w =>
      obtain ⟨fresh, taken⟩ := Option.ite_none_left_eq_some.mp taken
      obtain rfl := Option.some.inj taken
      unfold postTurn turnEndpoint
      dsimp only
      split
      · exact .quiet rfl rfl rfl
      · exact handleTurn_moves app _ _ request fresh
  | done request w =>
      obtain rfl := Option.some.inj taken
      unfold postDone
      split
      · exact .quiet rfl rfl rfl
      · exact handleDone_moves b _ w _
  | list now =>
      obtain rfl := step_list taken
      exact .quiet rfl rfl rfl
  | sweep executed =>
      obtain ⟨sessionId, stale, -, rfl⟩ := step_sweep taken
      exact .fades (adeleteThread_threads b sessionId executed) rfl rfl
  | advance seconds forward =>
      obtain rfl := Option.some.inj taken
      exact .quiet rfl rfl rfl

theorem runLeg_other (body : TurnBody) (w : Surroundings) {other : ThreadId} (apart : other ≠ threadId) :
    (b.runLeg threadId body w).threads other = b.threads other ∧
      (b.runLeg threadId body w).turns other = b.turns other := by
  unfold runLeg
  split
  · exact ⟨Function.update_of_ne apart _ _, Function.update_of_ne apart _ _⟩
  · exact ⟨rfl, rfl⟩

theorem runLeg_written (b : Backend) (threadId : ThreadId) (body : TurnBody) (written : w.written = true) :
    (b.runLeg threadId body w).threads threadId =
        some (((b.threads threadId).getD {}).perform (attemptOf body w)) ∧
      (b.runLeg threadId body w).turns threadId = b.turns threadId ++ [attemptOf body w] := by
  simp [runLeg, written]

theorem runLeg_unwritten (b : Backend) (threadId : ThreadId) (body : TurnBody) (unwritten : ¬w.written = true) :
    (b.runLeg threadId body w).threads = b.threads ∧ (b.runLeg threadId body w).turns = b.turns := by
  simp [runLeg, unwritten]

structure Sessions (b : Backend) : Prop where
  stored : ∀ threadId t, b.threads threadId = some t →
    b.turns threadId ≠ [] ∧ t = Thread.after (b.turns threadId)
  begun : ∀ threadId, Begun (b.turns threadId)
  issued : ∀ threadId, b.turns threadId ≠ [] → threadId ∈ b.issued

theorem Sessions.unknown (sessions : b.Sessions) (fresh : threadId ∉ b.issued) :
    b.turns threadId = [] ∧ b.threads threadId = none := by
  have none : b.turns threadId = [] := by
    by_contra some
    exact fresh (sessions.issued threadId some)
  refine ⟨none, Option.eq_none_iff_forall_ne_some.mpr fun t stored => ?_⟩
  exact (sessions.stored threadId t stored).1 none

theorem Sessions.routed (sessions : b.Sessions) (fresh : w.uuid ∉ b.issued)
    (routed : b.Routed body w threadId) :
    (b.threads threadId).getD {} = Thread.after (b.turns threadId) ∧
      (body.request.sessionId = none ∧ b.turns threadId = [] ∨
        body.request.sessionId = some threadId.id ∧ b.turns threadId ≠ []) := by
  rcases routed with ⟨new, rfl⟩ | ⟨known, t, stored⟩
  · obtain ⟨none, unknown⟩ := sessions.unknown fresh
    rw [unknown, none]
    exact ⟨rfl, .inl ⟨new, rfl⟩⟩
  · obtain ⟨some, rfl⟩ := sessions.stored threadId t stored
    rw [stored]
    exact ⟨rfl, .inr ⟨known, some⟩⟩

theorem Sessions.runLeg (sessions : b.Sessions) (fresh : w.uuid ∉ b.issued)
    (routed : b.Routed body w threadId) (cache : IdempotencyCache TurnResponse) (rows : List (String × Int)) :
    Sessions { b.runLeg threadId body w with cache, lastTouched := rows } := by
  by_cases written : w.written = true
  swap
  · obtain ⟨threads, turns⟩ := runLeg_unwritten b threadId body written
    refine ⟨?_, ?_, fun other some => .tail _ (sessions.issued other ?_)⟩
    · simpa only [threads, turns] using sessions.stored
    · simpa only [turns] using sessions.begun
    · simpa only [turns] using some
  obtain ⟨thread, earlier⟩ := sessions.routed fresh routed
  obtain ⟨threads, turns⟩ := runLeg_written b threadId body written
  refine ⟨fun other t stored => ?_, fun other => ?_, fun other some => ?_⟩
  · by_cases same : other = threadId
    · subst same
      have performed : t = (Thread.after (b.turns other)).perform (attemptOf body w) := by
        rw [← thread]
        exact (Option.some.inj (threads.symm.trans stored)).symm
      simp only [turns, performed, Thread.after_concat]
      exact ⟨List.append_ne_nil_of_right_ne_nil _ (List.cons_ne_nil _ _), trivial⟩
    · simp only [(runLeg_other body w same).1, (runLeg_other body w same).2] at stored ⊢
      exact sessions.stored other t stored
  · by_cases same : other = threadId
    · subst same
      simp only [turns]
      rcases earlier with ⟨new, none⟩ | ⟨known, some⟩
      · rw [none]
        exact .single ⟨_, TurnRequest.call_starts new⟩
      · exact (sessions.begun other).concat some ⟨_, TurnRequest.call_resumes known⟩
    · simp only [(runLeg_other body w same).2]
      exact sessions.begun other
  · by_cases same : other = threadId
    · exact same ▸ List.mem_cons_self
    · simp only [(runLeg_other body w same).2] at some
      exact .tail _ (sessions.issued other some)

theorem Sessions.step {e : HttpEvent} (sessions : b.Sessions) (taken : b.step app e = some b') :
    b'.Sessions := by
  cases step_moves taken with
  | fades threads turns issued =>
      refine ⟨fun threadId t stored => ?_, ?_, ?_⟩
      · rw [turns]
        rcases threads threadId with kept | gone
        · exact sessions.stored threadId t (kept ▸ stored)
        · rw [gone] at stored
          cases stored
      · rw [turns]
        exact sessions.begun
      · rw [turns, issued]
        exact sessions.issued
  | runs fresh routed => exact sessions.runLeg fresh routed _ _

theorem sessions_of_run {es : List HttpEvent} (taken : run (Backend.step app) {} es = some b) : b.Sessions := by
  have start : Sessions {} := ⟨by simp, by simp [Begun], by simp⟩
  exact run_invariant (fun _ _ _ sessions taken => sessions.step taken) start taken

structure Lives (t : Thread) : Prop where
  path : ∃ passes rewrites, t.executions.map Exec.node = waypoint passes rewrites (t.checkpoint.getD .empty).next
  audited : Audited t.executions
  weighed : Weighed t.executions

/-- Whatever requests a server answers one at a time: over all turns of a session, those that fail or
are cut among them, the nodes run in the order of one way through the graph, the final answer is written
from the draft the critic has just passed, and everything is weighed by what the parser read. -/
theorem session_lives (app : App) (es : List HttpEvent) (b : Backend)
    (taken : run (Backend.step app) {} es = some b) (threadId : ThreadId) (t : Thread)
    (stored : b.threads threadId = some t) : Lives t := by
  have sessions := sessions_of_run taken
  obtain ⟨-, rfl⟩ := sessions.stored threadId t stored
  have standing := Thread.session_standing (b.turns threadId)
  rw [(sessions.begun threadId).session] at standing
  exact ⟨standing.path, standing.audited, standing.weighed⟩

/-- The answer is what a call of the session it names has said. -/
def Said (turns : ThreadId → List Attempt) (answer : TurnResponse) : Prop :=
  ∃ threadId front attempt later sentinel, turns threadId = front ++ attempt :: later ∧
    answer.sessionId = threadId.id ∧ ((Thread.after front).record attempt).sentinel = some sentinel ∧
    collectStream sentinel = (.str answer.reply, answer.state)

def Truthful (b : Backend) : Prop :=
  ∀ t key answer, b.cache.peek t key = some answer → Said b.turns answer

theorem Said.runLeg {answer : TurnResponse} (said : Said b.turns answer) (threadId : ThreadId)
    (body : TurnBody) (w : Surroundings) : Said (b.runLeg threadId body w).turns answer := by
  by_cases written : w.written = true
  swap
  · rw [(runLeg_unwritten b threadId body written).2]
    exact said
  obtain ⟨named, front, other, later, sentinel, split, rest⟩ := said
  by_cases same : named = threadId
  · subst same
    refine ⟨named, front, other, later ++ [attemptOf body w], sentinel, ?_, rest⟩
    simp [(runLeg_written b named body written).2, split]
  · refine ⟨named, front, other, later, sentinel, ?_, rest⟩
    rw [(runLeg_other body w same).2, split]

theorem respond_eq_some {turnN : Nat} {elapsed : ℚ} {collected : Value × TurnState} {answer : TurnResponse}
    (built : respond threadId turnN elapsed collected = some answer) :
    answer.sessionId = threadId.id ∧ collected = (.str answer.reply, answer.state) := by
  unfold respond at built
  split at built
  · cases built
    exact ⟨rfl, rfl⟩
  · cases built

theorem awaitLeg_eq_ok {record : Option CallRecord} {stopped : Option String} {collected : Value × TurnState}
    (awaited : awaitLeg threadId record stopped = .ok collected) :
    ∃ made sentinel, record = some made ∧ made.sentinel = some sentinel ∧ collectStream sentinel = collected := by
  unfold awaitLeg at awaited
  split at awaited
  · cases awaited
  · rename_i made
    split at awaited
    · cases awaited
    · rename_i sentinel delivered running
      exact ⟨made, sentinel, rfl, delivered,
        (collectChunks_stream threadId.id delivered).symm.trans (Except.ok.inj awaited)⟩
    · cases awaited

theorem record_eq_some {made : CallRecord} (recorded : b.record threadId body w = some made) :
    w.written = true ∧ made = ((b.threads threadId).getD {}).record (attemptOf body w) := by
  unfold record at recorded
  split at recorded
  · exact ⟨‹_›, (Option.some.inj recorded).symm⟩
  · cases recorded

theorem Sessions.speaks (sessions : b.Sessions) (fresh : w.uuid ∉ b.issued)
    (routed : b.Routed body w threadId) {collected : Value × TurnState} {answer : TurnResponse}
    (awaited : awaitLeg threadId (b.record threadId body w) w.stopped = .ok collected)
    (built : respond threadId 0 w.elapsed collected = some answer) :
    w.written = true ∧ Said (b.runLeg threadId body w).turns answer ∧
      (answer.state = .running ↔ body.request.sessionId = none) := by
  obtain ⟨named, same⟩ := respond_eq_some built
  obtain ⟨made, sentinel, recorded, delivered, read⟩ := awaitLeg_eq_ok awaited
  obtain ⟨written, rfl⟩ := record_eq_some recorded
  obtain ⟨thread, turns⟩ := sessions.routed fresh routed
  rw [thread] at delivered
  refine ⟨written, ?_, ?_⟩
  · refine ⟨threadId, b.turns threadId, attemptOf body w, [], sentinel, ?_, named, delivered, read.trans same⟩
    rw [(runLeg_written b threadId body written).2]
  · obtain ⟨-, -, rfl⟩ := Thread.record_sentinel.mp delivered
    have state : answer.state = (collectStream ((attemptOf body w).call.sentinel _)).2 :=
      (congrArg Prod.snd (read.trans same)).symm
    rw [state, attemptOf]
    rcases turns with ⟨new, -⟩ | ⟨known, -⟩
    · simp [TurnRequest.call_starts new, new, Call.sentinel, collectStream]
    · simp [TurnRequest.call_resumes known, known, Call.sentinel, collectStream]

theorem Truthful.handleTurn (truthful : b.Truthful) (sessions : b.Sessions) (fresh : w.uuid ∉ b.issued)
    {correlationId : String} : (b.handleTurn app correlationId body w).2.Truthful := by
  have handled := handleTurn_cases app b correlationId body w
  generalize (b.handleTurn app correlationId body w).1 = outcome at handled
  generalize (b.handleTurn app correlationId body w).2 = after at handled ⊢
  cases handled with
  | unknown named lost => exact truthful
  | unread => exact truthful
  | cached routed answer kept =>
      intro t key said found
      exact truthful t key said ((kept t key).symm.trans found)
  | @ran threadId _ cache rows routed failed replied kept =>
      intro t key said found
      rcases kept t key said found with earlier | latest
      · exact (truthful t key said earlier).runLeg threadId body w
      · obtain ⟨collected, awaited, built⟩ := replied said latest
        exact (sessions.speaks fresh routed awaited built).2.1

theorem Truthful.step (truthful : b.Truthful) (sessions : b.Sessions) {e : HttpEvent}
    (taken : b.step app e = some b') : b'.Truthful := by
  cases e with
  | turn request w =>
      obtain ⟨fresh, taken⟩ := Option.ite_none_left_eq_some.mp taken
      obtain rfl := Option.some.inj taken
      unfold Backend.postTurn Backend.turnEndpoint
      dsimp only
      split
      · exact truthful
      · exact truthful.handleTurn sessions fresh
  | done request w =>
      obtain rfl := Option.some.inj taken
      unfold Backend.postDone Backend.handleDone
      dsimp only
      split
      · exact truthful
      · split
        · exact truthful
        · split <;> exact truthful
  | list now =>
      obtain rfl := Backend.step_list taken
      exact truthful
  | sweep executed =>
      obtain ⟨sessionId, stale, -, rfl⟩ := Backend.step_sweep taken
      exact truthful
  | advance seconds forward =>
      obtain rfl := Option.some.inj taken
      exact truthful

theorem truthful_of_run {es : List HttpEvent} (taken : run (Backend.step app) {} es = some b) :
    b.Sessions ∧ b.Truthful := by
  have start : Sessions {} ∧ Truthful {} :=
    ⟨⟨by simp, by simp [Begun], by simp⟩, by simp [Truthful]⟩
  exact run_invariant (I := fun b => b.Sessions ∧ b.Truthful)
    (fun _ _ _ both taken => ⟨both.1.step taken, both.2.step both.1 taken⟩) start taken

theorem createApp_statusCode {r : Rendering} {endpoint : Option String → Except HandlerException Response}
    {uuid4Hex : String} {rawCid : Option String} {exc : HandlerException}
    (raised : endpoint (some (correlationId uuid4Hex rawCid)) = .error exc)
    (plain : exc.Answered r ∨ exc.statusCode = 500) :
    (createApp r endpoint uuid4Hex rawCid).statusCode = exc.statusCode := by
  obtain ⟨answered, unanswered⟩ := @createApp_error r endpoint uuid4Hex rawCid exc raised
  by_cases known : exc.Answered r
  · exact answered known
  · rw [unanswered known, plain.resolve_left known]

theorem answered_texts (r : Rendering) (statusCode : Nat) (texts : List (String × String)) :
    (HandlerException.httpException statusCode
      (jsonObject (texts.map fun entry => (entry.1, jsonText entry.2))) []).Answered r := by
  intro allowed
  refine r.renders (renders_jsonObject fun entry listed => ?_)
  obtain rfl := List.mem_singleton.mp listed
  refine renders_jsonObject fun inner member => ?_
  obtain ⟨text, -, rfl⟩ := List.mem_map.mp member
  exact renders_jsonText 0 text.2

theorem authenticate_error {authorization : Option Str} {now : Int} {exc : HandlerException}
    (raised : app.authenticate authorization now = .error exc) :
    exc.statusCode ∈ [401, 403, 500] ∧ (exc.Answered app.rendering ∨ exc.statusCode = 500) := by
  unfold App.authenticate at raised
  split at raised
  · cases raised
  · rename_i statusCode reason answered
    cases raised
    refine ⟨?_, .inl (answered_texts app.rendering statusCode
      [("error", reason.text), ("message", app.message authorization reason)])⟩
    unfold requireService at answered
    split at answered
    · cases answered
    · cases answered
      dsimp only [HandlerException.statusCode]
      split <;> simp
    · cases answered
  · cases raised
    exact ⟨by simp [HandlerException.statusCode], .inr rfl⟩

theorem resolve_error {α : Type} {request : HttpRequest α} {now : Int} {exc : HandlerException}
    (raised : app.resolve request now = .error exc) : exc.statusCode ∈ [400, 401, 403, 422, 500] := by
  have denied (raised : app.authenticate request.authorization now = .error exc) :
      exc.statusCode ∈ [400, 401, 403, 422, 500] := by
    have status := (authenticate_error raised).1
    simp only [List.mem_cons] at status ⊢
    tauto
  unfold App.resolve at raised
  split at raised
  · cases raised
    simp [HandlerException.statusCode]
  · cases raised
    simp [HandlerException.statusCode]
  · rcases bind_eq_error.mp raised with refused | ⟨claims, -, invalid⟩
    · exact denied refused
    · cases invalid
      simp [HandlerException.statusCode]
  · rcases bind_eq_error.mp raised with refused | ⟨claims, -, valid⟩
    · exact denied refused
    · cases valid

theorem turnEndpoint_refused {request : HttpRequest TurnBody} {exc : HandlerException}
    (refused : app.resolve request w.now = .error exc) (stateId : Option String) :
    b.turnEndpoint app request w stateId = (.error exc, b) := by
  rw [turnEndpoint, refused]

theorem turnEndpoint_admitted {request : HttpRequest TurnBody} (admitted : app.resolve request w.now = .ok body)
    (stateId : Option String) : b.turnEndpoint app request w stateId =
      ((b.handleTurn app (stateId.getD "unknown") body w).1.map fun answer => okResponse answer.dump,
        (b.handleTurn app (stateId.getD "unknown") body w).2) := by
  rw [turnEndpoint, admitted]

section
variable {request : HttpRequest TurnBody}

theorem postTurn_refused {exc : HandlerException} (refused : app.resolve request w.now = .error exc) :
    (b.postTurn app request w).2 = b ∧
      ((b.postTurn app request w).1.statusCode = exc.statusCode ∨ (b.postTurn app request w).1.statusCode = 500) ∧
      (exc.Answered app.rendering → (b.postTurn app request w).1.statusCode = exc.statusCode) := by
  have endpoint := turnEndpoint_refused (b := b) refused (some (correlationId w.uuid4Hex request.correlationId))
  obtain ⟨answered, unanswered⟩ := @createApp_error app.rendering (fun stateId => (b.turnEndpoint app request w stateId).1)
    w.uuid4Hex request.correlationId exc (congrArg Prod.fst endpoint)
  refine ⟨congrArg Prod.snd endpoint, ?_, answered⟩
  by_cases known : exc.Answered app.rendering
  · exact .inl (answered known)
  · exact .inr (unanswered known)

theorem postTurn_snd (admitted : app.resolve request w.now = .ok body) : (b.postTurn app request w).2 =
    (b.handleTurn app (correlationId w.uuid4Hex request.correlationId) body w).2 :=
  congrArg Prod.snd
    (turnEndpoint_admitted (b := b) admitted (some (correlationId w.uuid4Hex request.correlationId)))

theorem postTurn_answered (admitted : app.resolve request w.now = .ok body) {answer : TurnResponse}
    (answered : (b.handleTurn app (correlationId w.uuid4Hex request.correlationId) body w).1 = .ok answer) :
    (b.postTurn app request w).1.statusCode = 200 ∧
      (b.postTurn app request w).1.content = .json answer.dump := by
  have endpoint := congrArg Prod.fst
    (turnEndpoint_admitted (b := b) admitted (some (correlationId w.uuid4Hex request.correlationId)))
  simp only [Option.getD_some, answered, Except.map] at endpoint
  have returned := @createApp_returned app.rendering (fun stateId => (b.turnEndpoint app request w stateId).1)
    w.uuid4Hex request.correlationId (okResponse answer.dump) endpoint
  rw [postTurn, returned]
  exact ⟨rfl, rfl⟩

end

section
variable {correlationId : String} {outcome : Except HandlerException TurnResponse}

theorem HandlesTurn.error (handled : HandlesTurn b app correlationId body w outcome b')
    {exc : HandlerException} (raised : outcome = .error exc) :
    exc.statusCode ∈ [404, 408, 500] ∧ (exc.Answered app.rendering ∨ exc.statusCode = 500) := by
  cases handled with
  | @unknown sessionId rows named lost =>
      cases raised
      exact ⟨List.mem_cons_self, .inl (answered_texts app.rendering 404 [("error", "session_not_found"),
        ("correlation_id", correlationId), ("session_fp", sessionFp app.sha256Hex sessionId)])⟩
  | unread =>
      cases raised
      exact ⟨by simp [HandlerException.statusCode], .inr rfl⟩
  | cached routed answer kept => cases raised
  | ran routed failed replied kept =>
      rcases failed exc raised with rfl | internal
      · exact ⟨by simp [HandlerException.statusCode], .inl trivial⟩
      · exact ⟨by simp [internal], .inr internal⟩

def Continues (b : Backend) (body : TurnBody) (w : Surroundings) (answer : TurnResponse) (b' : Backend) : Prop :=
  b'.threads = b.threads ∧ b'.turns = b.turns ∨
    ∃ threadId, answer.sessionId = threadId.id ∧
      b'.turns = Function.update b.turns threadId (b.turns threadId ++ [attemptOf body w]) ∧
      (answer.state = .running ↔ body.request.sessionId = none)

theorem HandlesTurn.ok (handled : HandlesTurn b app correlationId body w outcome b') (sessions : b.Sessions)
    (truthful : b.Truthful) (fresh : w.uuid ∉ b.issued) {answer : TurnResponse}
    (answered : outcome = .ok answer) : Said b'.turns answer ∧ Continues b body w answer b' := by
  cases handled with
  | unknown named lost => cases answered
  | unread => cases answered
  | cached routed found kept =>
      cases answered
      exact ⟨truthful _ _ answer found, .inl ⟨rfl, rfl⟩⟩
  | @ran threadId _ cache rows routed failed replied kept =>
      obtain ⟨collected, awaited, built⟩ := replied answer answered
      obtain ⟨written, said, running⟩ := sessions.speaks fresh routed awaited built
      exact ⟨said, .inr ⟨threadId, (respond_eq_some built).1, if_pos written, running⟩⟩

end

theorem postTurn_failed {request : HttpRequest TurnBody} (admitted : app.resolve request w.now = .ok body)
    {exc : HandlerException}
    (failed : (b.handleTurn app (correlationId w.uuid4Hex request.correlationId) body w).1 = .error exc) :
    (b.postTurn app request w).1.statusCode = exc.statusCode := by
  have endpoint := congrArg Prod.fst
    (turnEndpoint_admitted (b := b) admitted (some (correlationId w.uuid4Hex request.correlationId)))
  simp only [Option.getD_some, failed, Except.map] at endpoint
  exact createApp_statusCode endpoint
    ((handleTurn_cases app b (correlationId w.uuid4Hex request.correlationId) body w).error failed).2

structure TurnServed (app : App) (b : Backend) (request : HttpRequest TurnBody) (w : Surroundings)
    (response : Response) (b' : Backend) : Prop where
  refused : ∀ exc, app.resolve request w.now = .error exc →
    b' = b ∧ response.statusCode ∈ [400, 401, 403, 422, 500]
  spoken : response.statusCode = 200 → ∃ body answer, app.resolve request w.now = .ok body ∧
    response.content = .json answer.dump ∧ Said b'.turns answer ∧ Continues b body w answer b'

/-- Whatever a server has been asked before, one request at a time: a caller who is not let in changes
nothing, and an answer with 200 is what a call of the session that it names has said, at most one call
being made for it. -/
theorem turn_served (app : App) (es : List HttpEvent) (b : Backend)
    (taken : run (Backend.step app) {} es = some b) (request : HttpRequest TurnBody) (w : Surroundings)
    (fresh : w.uuid ∉ b.issued) :
    TurnServed app b request w (b.postTurn app request w).1 (b.postTurn app request w).2 := by
  obtain ⟨sessions, truthful⟩ := truthful_of_run taken
  cases admitted : app.resolve request w.now with
  | error exc =>
      obtain ⟨unchanged, answered, -⟩ := postTurn_refused (b := b) admitted
      have status : (b.postTurn app request w).1.statusCode ∈ [400, 401, 403, 422, 500] := by
        rcases answered with same | internal
        · rw [same]
          exact resolve_error admitted
        · simp [internal]
      refine ⟨fun other raised => ⟨unchanged, status⟩, fun ok => ?_⟩
      rw [ok] at status
      simp at status
  | ok body =>
      have handled := handleTurn_cases app b (correlationId w.uuid4Hex request.correlationId) body w
      refine ⟨fun exc raised => ?_, fun status => ?_⟩
      · rw [admitted] at raised
        cases raised
      cases outcome : (b.handleTurn app (correlationId w.uuid4Hex request.correlationId) body w).1 with
      | error exc =>
          have failed := (handled.error outcome).1
          rw [← postTurn_failed admitted outcome, status] at failed
          simp at failed
      | ok answer =>
          obtain ⟨said, continues⟩ := handled.ok sessions truthful fresh outcome
          rw [postTurn_snd admitted]
          exact ⟨body, answer, admitted, (postTurn_answered admitted outcome).2, said, continues⟩

structure Closed (b : Backend) (threadId : ThreadId) (turns : List Attempt) : Prop where
  issued : threadId ∈ b.issued
  gone : b.threads threadId = none
  same : b.turns threadId = turns

theorem Moves.closed {turns : List Attempt} {e : HttpEvent} (moves : b.Moves e b')
    (closed : b.Closed threadId turns) : b'.Closed threadId turns := by
  cases moves with
  | fades threads turns' issued =>
      refine ⟨issued ▸ closed.issued, ?_, turns' ▸ closed.same⟩
      rcases threads threadId with kept | gone
      · rw [kept, closed.gone]
      · exact gone
  | @runs request w body other cache rows fresh routed =>
      -- a new session has another id, and a known one is there
      have apart : threadId ≠ other := by
        rintro rfl
        rcases routed with ⟨-, rfl⟩ | ⟨-, t, stored⟩
        · exact fresh closed.issued
        · rw [closed.gone] at stored
          cases stored
      obtain ⟨threads, same⟩ := runLeg_other (b := b) body w apart
      exact ⟨.tail _ closed.issued, threads.trans closed.gone, same.trans closed.same⟩

theorem Closed.after_run {turns : List Attempt} {es : List HttpEvent} (closed : b.Closed threadId turns)
    (taken : run (Backend.step app) b es = some b') : b'.Closed threadId turns :=
  run_invariant (I := fun b => Closed b threadId turns)
    (fun _ _ _ closed taken => (step_moves taken).closed closed) closed taken

theorem handleTurn_gone {correlationId : String} (named : body.request.sessionId = some threadId.id)
    (gone : b.threads threadId = none) : b.handleTurn app correlationId body w =
      (.error (match w.lookup with
        | .returned _ => sessionNotFound app.sha256Hex correlationId threadId.id
        | .raised name _ => .other name), b.touch threadId.id w.lookup.touched) := by
  have lost : (b.touch threadId.id w.lookup.touched).find threadId.id = none := by
    simp [find, touch, Option.filter, gone]
  simp only [handleTurn, named, lost]
  cases w.lookup <;> rfl

/-- What `/done` or the sweeper has deleted never comes back: nothing is executed for the session any
more, and a turn that names it is answered with 404, or 500 where its read raises. All that such a turn
leaves behind is a row of `_brainstorm_meta`. -/
theorem closed_for_good (app : App) (b b' : Backend) (threadId : ThreadId) (issued : threadId ∈ b.issued)
    (gone : b.threads threadId = none) (es : List HttpEvent) (taken : run (Backend.step app) b es = some b') :
    b'.threads threadId = none ∧ b'.turns threadId = b.turns threadId ∧
      ∀ request body w, app.resolve request w.now = .ok body → body.request.sessionId = some threadId.id →
        (b'.postTurn app request w).1.statusCode =
            (match w.lookup with | .returned _ => 404 | .raised _ _ => 500) ∧
          (b'.postTurn app request w).2 = b'.touch threadId.id w.lookup.touched := by
  have closed : b'.Closed threadId (b.turns threadId) := Closed.after_run ⟨issued, gone, rfl⟩ taken
  refine ⟨closed.gone, closed.same, fun request body w admitted named => ?_⟩
  have handled := @handleTurn_gone app b' body w threadId (correlationId w.uuid4Hex request.correlationId) named
    closed.gone
  refine ⟨?_, (postTurn_snd admitted).trans (congrArg Prod.snd handled)⟩
  rw [postTurn_failed admitted (congrArg Prod.fst handled)]
  cases w.lookup <;> rfl

end Backend

theorem App.authenticate_minted (app : App) {sessionId : Str} {exp now : Int} (session : IsUuid4 sessionId)
    (started : 0 ≤ now) (fresh : now < exp) (formats : Formats exp) :
    ∃ bearer, app.authenticate (some bearer) now = .ok ⟨sampleService, sessionId, exp⟩ := by
  obtain ⟨token, payloadBytes, -, read, presents⟩ :=
    mintSessionToken_ok app.py app.secret sampleService_wellFormed session (Json.intRepr_isSome_iff.mp formats)
  refine ⟨Str.ofString "Bearer " ++ token, ?_⟩
  rw [App.authenticate, show Str.ofString "brainstorm" = sampleService from rfl,
    requireService_minted presents read session started fresh formats]

def sampleApp : App where
  py := lineFeedRuntime
  rendering := sampleRendering
  secret := lineFeedSecret
  sha256Hex := fun raw => raw
  message := fun _ reason => reason.text
  sweepThresholdSecs := 600
  internal := fun _ => []
  undeclared := fun _ => List.not_mem_nil

def openingBody : TurnBody := ⟨Process.hello, some "retry-0001"⟩

def answeringBody : TurnBody where
  request :=
    { sessionId := some Process.firstId.id, message := "Yes", minLength := by decide, maxLength := by decide }
  idempotencyKey := some "retry-0002"

def surroundingsOf (uuid : ThreadId) (worlds : List World) : Surroundings where
  uuid4Hex := "0f8fad5bd9cb469fa16570867728950e"
  uuid := uuid
  now := 1700000000
  lookup := .returned 1700000000
  count := .returned 1700000000
  worlds := worlds
  written := true
  delivered := true
  stopped := none
  touched := some 1700000001
  elapsed := 1
  forward := by decide

def firstSurroundings : Surroundings := surroundingsOf Process.firstId (List.replicate 2 (.fixed "" []))

def secondSurroundings : Surroundings := surroundingsOf Process.secondId (List.replicate 4 (.fixed "Rent." []))

theorem sampleApp_admits : ∃ bearer, ∀ body : TurnBody,
    sampleApp.resolve ⟨none, some bearer, .valid body⟩ 1700000000 = .ok body := by
  obtain ⟨bearer, admitted⟩ := sampleApp.authenticate_minted (by decide : IsUuid4 sampleSession)
    (by decide : (0 : Int) ≤ 1700000000) (by decide : (1700000000 : Int) < 2000000000)
    (Json.intRepr_isSome_iff.mpr (by decide +kernel))
  refine ⟨bearer, fun body => ?_⟩
  rw [App.resolve, admitted]
  rfl

theorem Backend.run_turn {app : App} {b : Backend} {body : TurnBody} {request : HttpRequest TurnBody}
    {w : Surroundings} (admitted : app.resolve request w.now = .ok body) (fresh : w.uuid ∉ b.issued) :
    run (Backend.step app) b [.turn request w] =
      some (b.handleTurn app (correlationId w.uuid4Hex request.correlationId) body w).2 := by
  refine (run_cons _).mpr ⟨_, ?_, rfl⟩
  rw [Backend.step, if_neg fresh, postTurn_snd admitted]

def openedBackend : Backend :=
  (Backend.handleTurn sampleApp {} (correlationId firstSurroundings.uuid4Hex none) openingBody
    firstSurroundings).2

theorem run_opening {bearer : Str} (admits : ∀ body : TurnBody,
    sampleApp.resolve ⟨none, some bearer, .valid body⟩ 1700000000 = .ok body) :
    run (Backend.step sampleApp) {} [.turn ⟨none, some bearer, .valid openingBody⟩ firstSurroundings] =
      some openedBackend :=
  Backend.run_turn (admits openingBody) List.not_mem_nil

theorem session_lives_opened : ∃ es b t, run (Backend.step sampleApp) {} es = some b ∧
    b.threads Process.firstId = some t ∧
    t.executions.map Exec.node = [.contextAnalyzer, .weightQuestioner] ∧ Backend.Lives t := by
  obtain ⟨bearer, admits⟩ := sampleApp_admits
  obtain ⟨t, stored, executed⟩ := Option.map_eq_some_iff.mp (by decide +kernel :
    (openedBackend.threads Process.firstId).map (fun t => t.executions.map Exec.node) =
      some [.contextAnalyzer, .weightQuestioner])
  have taken := run_opening admits
  exact ⟨_, _, t, taken, stored, executed,
    Backend.session_lives sampleApp _ _ taken Process.firstId t stored⟩

theorem turn_served_answering : ∃ es b request answer, run (Backend.step sampleApp) {} es = some b ∧
    (b.postTurn sampleApp request secondSurroundings).1.statusCode = 200 ∧
    (b.postTurn sampleApp request secondSurroundings).1.content = .json (TurnResponse.dump answer) ∧
    answer.reply = "Rent." ∧ answer.state = .done ∧
    Backend.TurnServed sampleApp b request secondSurroundings
      (b.postTurn sampleApp request secondSurroundings).1
      (b.postTurn sampleApp request secondSurroundings).2 := by
  obtain ⟨bearer, admits⟩ := sampleApp_admits
  obtain ⟨answer, answered, said⟩ := Option.map_eq_some_iff.mp (by decide +kernel :
    ((openedBackend.handleTurn sampleApp (correlationId secondSurroundings.uuid4Hex none) answeringBody
      secondSurroundings).1.toOption.map fun answer => (answer.reply, answer.state)) = some ("Rent.", .done))
  have outcome : (openedBackend.handleTurn sampleApp (correlationId secondSurroundings.uuid4Hex none)
      answeringBody secondSurroundings).1 = .ok answer := by
    generalize (openedBackend.handleTurn sampleApp (correlationId secondSurroundings.uuid4Hex none)
      answeringBody secondSurroundings).1 = outcome at answered
    cases outcome with
    | error exc => cases answered
    | ok other => exact congrArg _ (Option.some.inj answered)
  obtain ⟨status, content⟩ := @Backend.postTurn_answered sampleApp openedBackend answeringBody
    secondSurroundings ⟨none, some bearer, .valid answeringBody⟩ (admits answeringBody) answer outcome
  have fresh : secondSurroundings.uuid ∉ openedBackend.issued := by decide +kernel
  have taken := run_opening admits
  exact ⟨_, _, _, answer, taken, status, content, congrArg Prod.fst said, congrArg Prod.snd said,
    Backend.turn_served sampleApp _ _ taken _ _ fresh⟩

theorem closed_for_good_swept : ∃ es swept b', run (Backend.step sampleApp) {} es = some swept ∧
    (∃ opened, run (Backend.step sampleApp) {} (es.take 1) = some opened ∧
      (opened.threads Process.firstId).isSome = true) ∧
    .sweep 3 ∈ es ∧ Process.firstId ∈ swept.issued ∧ swept.threads Process.firstId = none ∧
    run (Backend.step sampleApp) swept [.advance 1 (by decide)] = some b' ∧
    b'.threads Process.firstId = none ∧ b'.turns Process.firstId = swept.turns Process.firstId ∧
    ∃ request, (b'.postTurn sampleApp request secondSurroundings).1.statusCode = 404 ∧
      (b'.postTurn sampleApp request secondSurroundings).2 = b'.touch Process.firstId.id (some 1700000000) := by
  obtain ⟨bearer, admits⟩ := sampleApp_admits
  have opening := run_opening admits
  let swept : Backend := { openedBackend.adeleteThread Process.firstId.id 3 with stale := [] }
  have sweeping : run (Backend.step sampleApp) openedBackend [.list 1700000700, .sweep 3] = some swept := rfl
  have issued : Process.firstId ∈ swept.issued := by decide +kernel
  have gone : swept.threads Process.firstId = none := rfl
  have stored : (openedBackend.threads Process.firstId).isSome = true := by decide +kernel
  obtain ⟨threads, turns, closed⟩ := Backend.closed_for_good sampleApp swept _ Process.firstId issued gone
    [.advance 1 (by decide)] rfl
  obtain ⟨status, left⟩ := closed ⟨none, some bearer, .valid answeringBody⟩ answeringBody secondSurroundings
    (admits answeringBody) rfl
  exact ⟨[.turn ⟨none, some bearer, .valid openingBody⟩ firstSurroundings, .list 1700000700, .sweep 3], swept, _,
    (run_append _).mpr ⟨_, opening, sweeping⟩, ⟨_, opening, stored⟩, by simp, issued, gone, rfl, threads, turns, _, status, left⟩

end DecisionMaker.Server
