import DecisionMaker.Server.Counters
import DecisionMaker.Server.Dialogue

namespace DecisionMaker.Server

open Library DecisionMaker.Graph Process

def App.values (app : App) (t : Thread) : ChannelValues :=
  ⟨(t.checkpoint.getD .empty).values, app.internal (t.checkpoint.getD .empty), app.undeclared _⟩

def TurnError.statusCode : TurnError → Nat
  | .sessionNotFound => 404
  | .llmTimeout => 408
  | .internal => 500

variable {ι : Type*}

/-- The handlers that run step by step stand where requests that are served whole have left the server. -/
structure Follows (app : App) (p : Process ι) (b : Backend) : Prop where
  clock : p.clock = b.clock
  cache : p.cache.map CachedTurn.response = b.cache
  threads : ∀ threadId, p.threads threadId = (b.threads threadId).map app.values

/-- Where a read of the session raises, the handler of the process takes no further step. -/
inductive Ends : Except HandlerException TurnResponse → TurnPhase ι → Prop
  | answered (ticket : Ticket) (response : TurnResponse) (servedBy : Option ι) :
      Ends (.ok response) (.answered ticket response servedBy)
  | failed {exc : HandlerException} {error : TurnError} (status : error.statusCode = exc.statusCode) :
      Ends (.error exc) (.failed error)
  | waiting (name : String) : Ends (.error (.other name)) .waiting
  | routed (name : String) (threadId : ThreadId) : Ends (.error (.other name)) (.routed threadId)

structure Aside (i : ι) (p p' : Process ι) : Prop where
  phase : ∀ j, j ≠ i → p'.phase j = p.phase j
  issued : p'.issued = p.issued

theorem Aside.trans {i : ι} {p q r : Process ι} (first : Aside i p q) (second : Aside i q r) : Aside i p r :=
  ⟨fun j apart => (second.phase j apart).trans (first.phase j apart), second.issued.trans first.issued⟩

section
variable [DecidableEq ι] {app : App} {request : ι → Incoming} {p : Process ι} {b : Backend} {body : TurnBody}
  {w : Surroundings} {threadId : ThreadId} {i : ι}

theorem Aside.of_move {q : Process ι} {phase : TurnPhase ι}
    (moved : q.phase = Function.update p.phase i phase) (issued : q.issued = p.issued) : Aside i p q :=
  ⟨fun _ apart => moved ▸ Function.update_of_ne apart _ _, issued⟩

theorem Ends.of_move {q : Process ι} {outcome : Except HandlerException TurnResponse} {phase : TurnPhase ι}
    (ends : Ends outcome phase) (moved : q.phase = Function.update p.phase i phase) :
    Ends outcome (q.phase i) := by
  rw [moved, Function.update_self]
  exact ends

theorem Process.phase_move (p : Process ι) (i : ι) (phase : TurnPhase ι) : (p.move i phase).phase i = phase :=
  Function.update_self ..

section
variable (app request)

theorem Process.step_store {ticket : Ticket} {response : TurnResponse}
    (collected : p.phase i = .collected ticket response) :
    p.step app.sha256Hex request (.store i) =
      some { p.move i (.answered ticket response none) with
        cache := p.cache.set p.clock ticket.cacheKey ⟨response, i⟩
        completed := p.completed ++ [i] } := by
  simp only [step, collected]

theorem Process.step_count {threadId : ThreadId} (routed : p.phase i = .routed threadId) :
    p.step app.sha256Hex request (.count i) =
      some (p.move i (.keyed ⟨threadId, 0, cacheKey app.sha256Hex (request i) threadId 0⟩)) := by
  simp only [step, routed, Incoming.turnNumber_eq]

theorem Process.step_miss {ticket : Ticket} (keyed : p.phase i = .keyed ticket)
    (missed : p.cache.peek p.clock ticket.cacheKey = none) :
    p.step app.sha256Hex request (.lookup i) =
      some { p.move i (.running ticket) with
        cache := (p.cache.get p.clock ticket.cacheKey).2
        runs := p.runs ++ [(i, ticket.cacheKey)] } := by
  rw [← TtlCache.get_fst] at missed
  simp only [step, keyed]
  split <;> rename_i got <;> rw [got] at missed <;> cases missed
  rw [got]

theorem Process.step_commit {ticket : Ticket} (running : p.phase i = .running ticket)
    (values : ChannelValues) :
    p.step app.sha256Hex request (.commit i values) =
      some { p with threads := Function.update p.threads ticket.threadId (some values) } := by
  simp only [step, running]

theorem Process.step_abort {ticket : Ticket} (running : p.phase i = .running ticket) (error : TurnError) :
    p.step app.sha256Hex request (.abort i error) = some (p.move i (.failed error)) := by
  simp only [step, running]

theorem Process.step_advance {seconds : ℚ} (forward : 0 ≤ seconds) :
    p.step app.sha256Hex request (.advance seconds) = some { p with clock := p.clock + seconds } :=
  if_pos forward

end

theorem Follows.runLeg {ticket : Ticket} (follows : Follows app p b) (running : p.phase i = .running ticket)
    (body : TurnBody) (w : Surroundings) : ∃ p', Reaches (Process.step app.sha256Hex request) p p' ∧
      Follows app p' (b.runLeg ticket.threadId body w) ∧ p'.phase = p.phase ∧ p'.startTime = p.startTime ∧
        p'.issued = p.issued := by
  have later (q : Process ι) : Reaches (Process.step app.sha256Hex request) q
      { q with clock := q.clock + w.elapsed } := .single (step_advance app request w.forward)
  by_cases written : w.written = true
  · obtain ⟨stored, -⟩ := Backend.runLeg_written b ticket.threadId body written
    let values := app.values (((b.threads ticket.threadId).getD {}).perform (Backend.attemptOf body w))
    refine ⟨_, (Reaches.single (step_commit app request running values)).trans (later _),
      ⟨?_, follows.cache, ?_⟩, rfl, rfl, rfl⟩
    · exact congrArg (· + w.elapsed) follows.clock
    · intro other
      by_cases same : other = ticket.threadId
      · subst same
        rw [stored]
        exact Function.update_self ..
      · rw [(Backend.runLeg_other body w same).1]
        exact (Function.update_of_ne same _ _).trans (follows.threads other)
  · refine ⟨_, later p, ⟨congrArg (· + w.elapsed) follows.clock, follows.cache, ?_⟩, rfl, rfl, rfl⟩
    rw [(Backend.runLeg_unwritten b ticket.threadId body written).1]
    exact follows.threads

/-- A turn that is served whole, step by step. -/
structure Serves (app : App) (request : ι → Incoming) (i : ι) (p : Process ι)
    (served : Except HandlerException TurnResponse × Backend) (p' : Process ι) : Prop where
  reached : Reaches (Process.step app.sha256Hex request) p p'
  follows : Follows app p' served.2
  ends : Ends served.1 (p'.phase i)
  aside : Aside i p p'

theorem Serves.after {q p' : Process ι} {served : Except HandlerException TurnResponse × Backend}
    (reached : Reaches (Process.step app.sha256Hex request) p q) (aside : Aside i p q)
    (serves : Serves app request i q served p') : Serves app request i p served p' :=
  ⟨reached.trans serves.reached, serves.follows, serves.ends, aside.trans serves.aside⟩

theorem Follows.fails {ticket : Ticket} {exc : HandlerException} (follows : Follows app p b)
    (running : p.phase i = .running ticket) (raised : exc = .llmTimeoutError ∨ exc.statusCode = 500) :
    ∃ p', Serves app request i p (.error exc, b) p' := by
  obtain ⟨error, status⟩ : ∃ error : TurnError, error.statusCode = exc.statusCode := by
    rcases raised with rfl | internal
    · exact ⟨.llmTimeout, rfl⟩
    · exact ⟨.internal, internal.symm⟩
  exact ⟨p.move i (.failed error), .single (step_abort app request running error),
    ⟨follows.clock, follows.cache, follows.threads⟩, (Ends.failed status).of_move rfl, .of_move rfl rfl⟩

theorem Follows.refuses {ticket : Ticket} {sentinel : Sentinel} (follows : Follows app p b)
    (running : p.phase i = .running ticket)
    (unbuilt : buildResponse ticket.threadId ticket.turnN sentinel (p.clock - p.startTime i) = none) :
    ∃ p', Serves app request i p (.error (.other "ValidationError"), b) p' := by
  have refused : p.step app.sha256Hex request (.collect i sentinel) = some (p.move i (.failed .internal)) := by
    simp only [step, running, unbuilt]
  exact ⟨p.move i (.failed .internal), .single refused, ⟨follows.clock, follows.cache, follows.threads⟩,
    (Ends.failed rfl).of_move rfl, .of_move rfl rfl⟩

omit [DecidableEq ι] in
theorem Follows.set (follows : Follows app p b) (key : String) (response : TurnResponse) :
    (p.cache.set p.clock key ⟨response, i⟩).map CachedTurn.response = b.cache.set b.clock key response := by
  rw [← follows.cache, ← follows.clock]
  exact TtlCache.set_map.symm

omit [DecidableEq ι] in
theorem Follows.recached {cache : IdempotencyCache (CachedTurn ι)} {cache' : IdempotencyCache TurnResponse}
    {phase : ι → TurnPhase ι} {runs : List (ι × String)} {completed : List ι} (follows : Follows app p b)
    (same : cache.map CachedTurn.response = cache') :
    Follows app { p with cache, phase, runs, completed } { b with cache := cache' } :=
  ⟨follows.clock, same, follows.threads⟩

theorem Follows.stores {ticket : Ticket} {response : TurnResponse} (follows : Follows app p b)
    (collected : p.phase i = .collected ticket response) :
    ∃ p', Serves app request i p
      (.ok response, { b with cache := b.cache.set b.clock ticket.cacheKey response }) p' :=
  ⟨_, .single (step_store app request collected), follows.recached (follows.set ticket.cacheKey response),
    (Ends.answered ticket response none).of_move rfl, .of_move rfl rfl⟩

theorem Follows.replies {ticket : Ticket} {sentinel : Sentinel} {response : TurnResponse}
    (follows : Follows app p b) (running : p.phase i = .running ticket)
    (built : buildResponse ticket.threadId ticket.turnN sentinel (p.clock - p.startTime i) = some response) :
    ∃ p', Serves app request i p
      (.ok response, { b with cache := b.cache.set b.clock ticket.cacheKey response }) p' := by
  have collected : p.step app.sha256Hex request (.collect i sentinel) =
      some (p.move i (.collected ticket response)) := by simp only [step, running, built]
  have kept : Follows app (p.move i (.collected ticket response)) b :=
    ⟨follows.clock, follows.cache, follows.threads⟩
  obtain ⟨p', serves⟩ := kept.stores (phase_move p i _)
  exact ⟨p', serves.after (.single collected) (.of_move rfl rfl)⟩

theorem Follows.takeTurn (follows : Follows app p b) (routed : p.phase i = .routed threadId)
    (started : p.startTime i = p.clock) (asked : request i = ⟨body.request, body.idempotencyKey⟩) :
    ∃ p', Serves app request i p (b.takeTurn app body w threadId) p' := by
  let ticket : Ticket :=
    ⟨threadId, 0, cacheKey app.sha256Hex ⟨body.request, body.idempotencyKey⟩ threadId 0⟩
  let q := p.move i (.keyed ticket)
  have counted : p.step app.sha256Hex request (.count i) = some q := by
    rw [step_count app request routed, asked]
  have keyed : q.phase i = .keyed ticket := phase_move p i _
  have cached : b.cache.get b.clock ticket.cacheKey =
      ((p.cache.get p.clock ticket.cacheKey).1.map CachedTurn.response,
        (p.cache.get p.clock ticket.cacheKey).2.map CachedTurn.response) := by
    rw [← follows.cache, ← follows.clock, TtlCache.get_map]
  have aside : Aside i p q := .of_move rfl rfl
  unfold Backend.takeTurn
  simp only [Incoming.turnNumber_eq]
  split
  · rename_i response cache looked
    obtain ⟨found, same⟩ := Prod.ext_iff.mp (cached.symm.trans looked)
    obtain ⟨hit, stored, rfl⟩ := Option.map_eq_some_iff.mp found
    have taken : q.step app.sha256Hex request (.lookup i) = some _ :=
      step_hit keyed (TtlCache.get_fst.symm.trans stored)
    exact ⟨_, (Reaches.single counted).trans (.single taken), follows.recached same,
      (Ends.answered ticket hit.response (some hit.owner)).of_move rfl, aside.trans (.of_move rfl rfl)⟩
  · rename_i cache looked
    obtain ⟨missed, same⟩ := Prod.ext_iff.mp (cached.symm.trans looked)
    have missed := TtlCache.get_fst.symm.trans (Option.map_eq_none_iff.mp missed)
    have taken : q.step app.sha256Hex request (.lookup i) = some _ := step_miss app request keyed missed
    have running : (q.move i (.running ticket)).phase i = .running ticket := phase_move q i _
    have missing : Follows app
        { q.move i (.running ticket) with
          cache := (p.cache.get p.clock ticket.cacheKey).2
          runs := p.runs ++ [(i, ticket.cacheKey)] } { b with cache } := follows.recached same
    obtain ⟨r, reached, kept, phase, startTime, issued⟩ := missing.runLeg running body w
    have reached := ((Reaches.single counted).trans (.single taken)).trans reached
    have aside : Aside i p r := aside.trans (.of_move phase issued)
    have running : r.phase i = .running ticket := (congrFun phase i).trans running
    have elapsed : r.clock - r.startTime i = w.elapsed := by
      have started : r.startTime i = p.clock := (congrFun startTime i).trans started
      rw [started, kept.clock, follows.clock]
      exact add_sub_cancel_left ..
    split
    · rename_i exc raised
      obtain ⟨p', serves⟩ := kept.fails running (Backend.awaitLeg_error raised)
      exact ⟨p', serves.after reached aside⟩
    · rename_i collected awaited
      obtain ⟨-, sentinel, -, -, rfl⟩ := Backend.awaitLeg_eq_ok awaited
      split
      · rename_i unbuilt
        obtain ⟨p', serves⟩ := kept.refuses running (elapsed ▸ unbuilt)
        exact ⟨p', serves.after reached aside⟩
      · rename_i response built
        obtain ⟨p', serves⟩ := kept.replies running (elapsed ▸ built)
        exact ⟨p', serves.after reached aside⟩

omit [DecidableEq ι] in
theorem Follows.rows (follows : Follows app p b) (rows : List (String × Int)) :
    Follows app p { b with lastTouched := rows } :=
  ⟨follows.clock, follows.cache, follows.threads⟩

omit [DecidableEq ι] in
theorem Follows.find (follows : Follows app p b) (sessionId : String) :
    ((ThreadId.ofString sessionId).filter fun threadId => (p.threads threadId).isSome) = b.find sessionId := by
  simp only [Backend.find, follows.threads, Option.isSome_map]

/-- A turn of `b` as one of the process; the id that a new session is given may be used up by it. -/
structure Handles (app : App) (request : ι → Incoming) (i : ι) (uuid : ThreadId) (p : Process ι)
    (served : Except HandlerException TurnResponse × Backend) (p' : Process ι) : Prop where
  reached : Reaches (Process.step app.sha256Hex request) p p'
  follows : Follows app p' served.2
  ends : Ends served.1 (p'.phase i)
  others : ∀ j, j ≠ i → p'.phase j = p.phase j
  issued : p'.issued ⊆ uuid :: p.issued

theorem Handles.of_serves {uuid : ThreadId} {q p' : Process ι}
    {served : Except HandlerException TurnResponse × Backend} {phase : TurnPhase ι}
    (reached : Reaches (Process.step app.sha256Hex request) p q)
    (moved : q.phase = Function.update p.phase i phase) (issued : q.issued ⊆ uuid :: p.issued)
    (serves : Serves app request i q served p') : Handles app request i uuid p served p' where
  reached := reached.trans serves.reached
  follows := serves.follows
  ends := serves.ends
  others j apart := by
    rw [serves.aside.phase j apart, moved]
    exact Function.update_of_ne apart _ _
  issued := serves.aside.issued ▸ issued

theorem Follows.handleTurn (follows : Follows app p b) (sessions : b.Sessions) (fresh : w.uuid ∉ b.issued)
    (unused : w.uuid ∉ p.issued) (waiting : p.phase i = .waiting)
    (asked : request i = ⟨body.request, body.idempotencyKey⟩) (correlationId : String) :
    ∃ p', Handles app request i w.uuid p (b.handleTurn app correlationId body w) p' := by
  have sessionId : (request i).body.sessionId = body.request.sessionId := congrArg (·.body.sessionId) asked
  unfold Backend.handleTurn
  split
  · rename_i new
    have unknown : p.threads w.uuid = none := by
      rw [follows.threads, (sessions.unknown fresh).2, Option.map_none]
    let q : Process ι :=
      { p.move i (.routed w.uuid) with
        startTime := Function.update p.startTime i p.clock
        issued := w.uuid :: p.issued }
    have arrived : p.step app.sha256Hex request (.arrive i w.uuid) = some q := by
      simp only [step, waiting, sessionId, new, unused, unknown, q]
      simp
    have kept : Follows app q b := ⟨follows.clock, follows.cache, follows.threads⟩
    obtain ⟨p', serves⟩ := kept.takeTurn (phase_move p i _) (Function.update_self ..) asked
    exact ⟨p', .of_serves (.single arrived) rfl (List.Subset.refl _) serves⟩
  · rename_i name named
    have found : ((ThreadId.ofString name).filter fun threadId => (p.threads threadId).isSome) = b.find name :=
      follows.find name
    have same : (b.touch name w.lookup.touched).find name = b.find name := rfl
    dsimp only
    rw [same]
    split
    · exact ⟨p, .refl p, follows.rows _, waiting ▸ .waiting _, fun _ _ => rfl, List.subset_cons_self ..⟩
    · rename_i none
      have arrived : p.step app.sha256Hex request (.arrive i w.uuid) =
          some (p.move i (.failed .sessionNotFound)) := by
        simp only [step, waiting, sessionId, named, found, none]
      have kept : Follows app (p.move i (.failed .sessionNotFound)) (b.touch name w.lookup.touched) :=
        ⟨follows.clock, follows.cache, follows.threads⟩
      exact ⟨_, .single arrived, kept, (Ends.failed rfl).of_move rfl,
        fun _ apart => Function.update_of_ne apart _ _, List.subset_cons_self ..⟩
    · rename_i threadId _ some
      let q : Process ι :=
        { p.move i (.routed threadId) with startTime := Function.update p.startTime i p.clock }
      have arrived : p.step app.sha256Hex request (.arrive i w.uuid) = .some q := by
        simp only [step, waiting, sessionId, named, found, some, q]
      have kept (rows : List (String × Int)) : Follows app q { b with lastTouched := rows } :=
        ⟨follows.clock, follows.cache, follows.threads⟩
      split
      · exact ⟨q, .single arrived, kept _, (Ends.routed _ threadId).of_move rfl,
          fun _ apart => Function.update_of_ne apart _ _, List.subset_cons_self ..⟩
      · obtain ⟨p', serves⟩ := (kept _).takeTurn (phase_move p i _) (Function.update_self ..) asked
        exact ⟨p', .of_serves (.single arrived) rfl (List.subset_cons_self ..) serves⟩

theorem Follows.adeleteThread (follows : Follows app p b) (request : ι → Incoming) (sessionId : String)
    (executed : Nat) : ∃ p', Reaches (Process.step app.sha256Hex request) p p' ∧
      Follows app p' (b.adeleteThread sessionId executed) ∧ p'.phase = p.phase ∧ p'.issued = p.issued := by
  have kept (none : ∀ threadId : ThreadId, ¬(threadId.id = sessionId ∧ 1 ≤ executed)) :
      Follows app p (b.adeleteThread sessionId executed) := by
    refine ⟨follows.clock, follows.cache, fun threadId => ?_⟩
    simp only [Backend.adeleteThread, if_neg (none threadId)]
    exact follows.threads threadId
  cases named : ThreadId.ofString sessionId with
  | none =>
      refine ⟨p, .refl p, kept fun threadId taken => ?_, rfl, rfl⟩
      rw [ThreadId.ofString_eq_some.mpr taken.1.symm] at named
      cases named
  | some threadId =>
      obtain rfl := ThreadId.ofString_eq_some.mp named
      by_cases executes : 1 ≤ executed
      swap
      · exact ⟨p, .refl p, kept fun _ taken => executes taken.2, rfl, rfl⟩
      have dropped : p.step app.sha256Hex request (.drop threadId) =
          some { p with threads := Function.update p.threads threadId none } := rfl
      refine ⟨_, .single dropped, ⟨follows.clock, follows.cache, fun other => ?_⟩, rfl, rfl⟩
      by_cases same : other = threadId
      · subst same
        simp [Backend.adeleteThread, executes]
      · have apart : other.id ≠ threadId.id := fun equal => same (ThreadId.ext equal)
        simp only [Backend.adeleteThread, apart, false_and, if_false, Function.update_of_ne same]
        exact follows.threads other

theorem Follows.postDone (follows : Follows app p b) (request : ι → Incoming) (r : HttpRequest String)
    (w : DoneSurroundings) : ∃ p', Reaches (Process.step app.sha256Hex request) p p' ∧
      Follows app p' (b.postDone app r w).2 ∧ p'.phase = p.phase ∧ p'.issued = p.issued := by
  unfold Backend.postDone Backend.handleDone
  split
  · exact ⟨p, .refl p, follows, rfl, rfl⟩
  · rename_i sessionId resolved
    have touched : Follows app p (b.touch sessionId w.lookup.touched) := follows.rows _
    dsimp only
    split
    · exact ⟨p, .refl p, touched, rfl, rfl⟩
    · split
      · exact touched.adeleteThread request sessionId w.executed
      · exact ⟨p, .refl p, touched, rfl, rfl⟩

end

def HttpEvent.uuid : HttpEvent → Option ThreadId
  | .turn _ w => some w.uuid
  | _ => none

/-- What the turns of a run come to, each at its position. -/
structure Tracks (app : App) (request : ℕ → Incoming) (es : List HttpEvent) (b : Backend) (p : Process ℕ) :
    Prop where
  reached : Reaches (Process.step app.sha256Hex request) {} p
  follows : Follows app p b
  ends : ∀ front r w later before body, es = front ++ .turn r w :: later →
    run (Backend.step app) {} front = some before → app.resolve r w.now = .ok body →
      Ends (before.handleTurn app (correlationId w.uuid4Hex r.correlationId) body w).1 (p.phase front.length)
  waiting : ∀ j, es.length ≤ j → p.phase j = .waiting
  issued : p.issued ⊆ es.filterMap HttpEvent.uuid

section
variable {app : App} {request : ℕ → Incoming} {es : List HttpEvent} {b b' : Backend} {p p' : Process ℕ}
  {e : HttpEvent}

theorem Tracks.concat (tracks : Tracks app request es b p) (ran : run (Backend.step app) {} es = some b)
    (reached : Reaches (Process.step app.sha256Hex request) p p') (follows : Follows app p' b')
    (others : ∀ j, j ≠ es.length → p'.phase j = p.phase j)
    (issued : p'.issued ⊆ e.uuid.toList ++ p.issued)
    (ends : ∀ r w body, e = .turn r w → app.resolve r w.now = .ok body →
      Ends (b.handleTurn app (correlationId w.uuid4Hex r.correlationId) body w).1 (p'.phase es.length)) :
    Tracks app request (es ++ [e]) b' p' where
  reached := tracks.reached.trans reached
  follows := follows
  ends front r w later before body split taken resolved := by
    rcases List.eq_nil_or_concat later with rfl | ⟨later, last, rfl⟩
    · obtain ⟨rfl, latest⟩ := List.append_inj' split rfl
      obtain rfl := Option.some.inj (ran.symm.trans taken)
      exact ends r w body (List.cons.inj latest).1 resolved
    · rw [List.concat_eq_append, ← List.cons_append, ← List.append_assoc] at split
      obtain ⟨rfl, -⟩ := List.append_inj' split rfl
      have earlier : front.length ≠ (front ++ .turn r w :: later).length := by simp
      rw [others _ earlier]
      exact tracks.ends front r w later before body rfl taken resolved
  waiting j late := by
    rw [List.length_append, List.length_singleton] at late
    rw [others j (by omega)]
    exact tracks.waiting j (by omega)
  issued threadId member := by
    rw [List.filterMap_append]
    rcases List.mem_append.mp (issued member) with drawn | earlier
    · have drawn := Option.mem_toList.mp drawn
      exact List.mem_append_right _ (List.mem_filterMap.mpr ⟨e, List.mem_singleton_self e, drawn⟩)
    · exact List.mem_append_left _ (tracks.issued earlier)

/-- Where nothing is asked of the turn handler. -/
theorem Tracks.concat_quiet (tracks : Tracks app request es b p) (ran : run (Backend.step app) {} es = some b)
    (reached : Reaches (Process.step app.sha256Hex request) p p') (follows : Follows app p' b')
    (phase : p'.phase = p.phase) (issued : p'.issued = p.issued)
    (refused : ∀ r w body, e = .turn r w → app.resolve r w.now ≠ .ok body) :
    Tracks app request (es ++ [e]) b' p' :=
  tracks.concat ran reached follows (fun _ _ => phase ▸ rfl) (issued ▸ List.subset_append_right ..)
    fun r w body asked resolved => absurd resolved (refused r w body asked)

theorem Tracks.step (tracks : Tracks app request es b p) (ran : run (Backend.step app) {} es = some b)
    (taken : b.step app e = some b') (distinct : ((es ++ [e]).filterMap HttpEvent.uuid).Nodup)
    (sends : ∀ r w body, e = .turn r w → app.resolve r w.now = .ok body →
      request es.length = ⟨body.request, body.idempotencyKey⟩) : ∃ p', Tracks app request (es ++ [e]) b' p' := by
  have follows := tracks.follows
  cases e with
  | turn r w =>
      obtain ⟨fresh, taken⟩ := Option.ite_none_left_eq_some.mp taken
      obtain rfl := Option.some.inj taken
      unfold Backend.postTurn Backend.turnEndpoint
      cases resolved : app.resolve r w.now with
      | error exc =>
          refine ⟨p, tracks.concat_quiet ran (.refl p) ?_ rfl rfl ?_⟩
          · simpa only [resolved] using follows
          · rintro _ _ body ⟨⟩ valid
            cases resolved.symm.trans valid
      | ok body =>
          have unused : w.uuid ∉ p.issued := by
            intro earlier
            rw [List.filterMap_append, List.nodup_append] at distinct
            exact distinct.2.2 _ (tracks.issued earlier) _ (List.mem_singleton_self _) rfl
          obtain ⟨p', handles⟩ := follows.handleTurn (Backend.sessions_of_run ran) fresh unused
            (tracks.waiting _ (Nat.le_refl _)) (sends r w body rfl resolved)
            (correlationId w.uuid4Hex r.correlationId)
          refine ⟨p', tracks.concat ran handles.reached ?_ handles.others handles.issued ?_⟩
          · exact handles.follows
          · rintro _ _ other ⟨⟩ valid
            cases resolved.symm.trans valid
            exact handles.ends
  | done r w =>
      obtain rfl := Option.some.inj taken
      obtain ⟨p', reached, after, kept⟩ := follows.postDone request r w
      exact ⟨p', tracks.concat_quiet ran reached after kept.1 kept.2 fun _ _ _ asked => nomatch asked⟩
  | list now =>
      obtain rfl := Backend.step_list taken
      have after : Follows app p { b with stale := b.listStale now app.sweepThresholdSecs } :=
        ⟨follows.clock, follows.cache, follows.threads⟩
      exact ⟨p, tracks.concat_quiet ran (.refl p) after rfl rfl fun _ _ _ asked => nomatch asked⟩
  | sweep executed =>
      obtain ⟨sessionId, stale, -, rfl⟩ := Backend.step_sweep taken
      obtain ⟨p', reached, gone, kept⟩ := follows.adeleteThread request sessionId executed
      have after : Follows app p' { b.adeleteThread sessionId executed with stale } :=
        ⟨gone.clock, gone.cache, gone.threads⟩
      exact ⟨p', tracks.concat_quiet ran reached after kept.1 kept.2 fun _ _ _ asked => nomatch asked⟩
  | advance seconds forward =>
      obtain rfl := Option.some.inj taken
      have after : Follows app { p with clock := p.clock + seconds } { b with clock := b.clock + seconds } :=
        ⟨congrArg (· + seconds) follows.clock, follows.cache, follows.threads⟩
      have later : Reaches (Process.step app.sha256Hex request) p { p with clock := p.clock + seconds } :=
        .single (step_advance app request forward)
      exact ⟨_, tracks.concat_quiet ran later after rfl rfl fun _ _ _ asked => nomatch asked⟩

/-- Requests served whole, one after the other, are one schedule of the handlers that run step by step. -/
theorem backend_scheduled (app : App) (request : ℕ → Incoming) (es : List HttpEvent) (b : Backend)
    (ran : run (Backend.step app) {} es = some b) (distinct : (es.filterMap HttpEvent.uuid).Nodup)
    (sends : ∀ n r w body, es[n]? = some (.turn r w) → app.resolve r w.now = .ok body →
      request n = ⟨body.request, body.idempotencyKey⟩) : ∃ p, Tracks app request es b p := by
  induction es using List.reverseRecOn generalizing b with
  | nil =>
      cases ran
      refine ⟨{}, .refl _, ⟨rfl, rfl, fun _ => rfl⟩, ?_, fun _ _ => rfl, List.nil_subset _⟩
      intro front r w later before body split
      simp at split
  | append_singleton es e ih =>
      obtain ⟨earlier, ran, taken⟩ := (run_concat _).mp ran
      have fewer : (es.filterMap HttpEvent.uuid).Nodup := by
        rw [List.filterMap_append] at distinct
        exact (List.nodup_append.mp distinct).1
      obtain ⟨p, tracks⟩ := ih earlier ran fewer fun n r w body at' => sends n r w body (by
        rw [List.getElem?_append_left (List.getElem?_eq_some_iff.mp at').1, at'])
      exact tracks.step ran taken distinct fun r w body latest => sends es.length r w body (by
        rw [List.getElem?_concat_length, latest])

end

namespace ServerState

section
variable {κ : Type*} [DecidableEq ι] [DecidableEq κ] {d : Deployment ι κ} {s s' : ServerState ι κ}

theorem step_reaches {e : ServerEvent ι κ} (taken : s.step d e = some s') (returns : ∀ i, e ≠ .turnError i) :
    Reaches (Process.step d.sha256Hex d.incoming) s.process s'.process := by
  cases e with
  | invalid r =>
      simp only [step] at taken
      split at taken <;> cases taken
      exact .refl _
  | verify r now =>
      simp only [step] at taken
      split at taken
      · split at taken <;> cases taken <;> exact .refl _
      · cases taken
  | turn e =>
      simp only [step] at taken
      split at taken
      · obtain ⟨process, moved, rfl⟩ := Option.map_eq_some_iff.mp taken
        split <;> exact .single moved
      · cases taken
  | turnError i => exact absurd rfl (returns i)
  | find k =>
      simp only [step] at taken
      split at taken
      · split at taken <;> cases taken <;> exact .refl _
      · cases taken
  | findError k =>
      simp only [step] at taken
      split at taken <;> cases taken
      exact .refl _
  | adeleteThread k raises =>
      simp only [step] at taken
      split at taken <;> cases taken
      rename_i threadId deleting
      have dropped : s.process.step d.sha256Hex d.incoming (.drop threadId) =
          some { s.process with threads := Function.update s.process.threads threadId none } := rfl
      cases raises with
      | true => exact .refl _
      | false => exact .single dropped

/-- Under the authentication and the counters run the same handlers, up to an await outside of the
stream that raises: there a handler of the process just goes no further. -/
theorem process_of_run {es : List (ServerEvent ι κ)} (taken : run (step d) s es = some s')
    (returns : ∀ e ∈ es, ∀ i, e ≠ .turnError i) :
    Reaches (Process.step d.sha256Hex d.incoming) s.process s'.process :=
  run_projected (fun _ _ _ returns taken => step_reaches taken returns) (.of_forall returns) taken

end

end ServerState

end DecisionMaker.Server
