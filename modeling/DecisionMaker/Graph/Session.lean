import DecisionMaker.Graph.Counter
import DecisionMaker.Graph.Gate
import Mathlib.Data.List.Chain

namespace DecisionMaker.Graph

def searches (passes : Nat) : List Node :=
  (List.replicate passes [.contextAnalyzer, .toolNode]).flatten

def rounds (rewrites : Nat) : List Node :=
  (List.replicate rewrites [.draftGenerator, .coveCritique]).flatten

def waypoint (passes rewrites : Nat) : Option Node → List Node
  | some .contextAnalyzer => searches passes
  | some .toolNode | some .weightQuestioner => searches passes ++ [.contextAnalyzer]
  | some .weightParser => searches passes ++ [.contextAnalyzer, .weightQuestioner]
  | some .draftGenerator =>
      searches passes ++ [.contextAnalyzer, .weightQuestioner, .weightParser] ++ rounds rewrites
  | some .coveCritique =>
      searches passes ++ [.contextAnalyzer, .weightQuestioner, .weightParser] ++ rounds rewrites ++
        [.draftGenerator]
  | some .finalSynthesizer =>
      searches passes ++ [.contextAnalyzer, .weightQuestioner, .weightParser] ++ rounds rewrites ++
        [.draftGenerator, .coveCritique]
  | none =>
      searches passes ++ [.contextAnalyzer, .weightQuestioner, .weightParser] ++ rounds rewrites ++
        [.draftGenerator, .coveCritique, .finalSynthesizer]

theorem searches_succ (passes : Nat) :
    searches (passes + 1) = searches passes ++ [.contextAnalyzer, .toolNode] := by
  simp [searches, List.replicate_succ']

theorem rounds_succ (rewrites : Nat) :
    rounds (rewrites + 1) = rounds rewrites ++ [.draftGenerator, .coveCritique] := by
  simp [rounds, List.replicate_succ']

theorem waypoint_step (passes rewrites : Nat) {n : Node} {next : Option Node} (edge : next ∈ n.successors) :
    ∃ passes' rewrites', waypoint passes rewrites (some n) ++ [n] = waypoint passes' rewrites' next := by
  cases n with
  | contextAnalyzer =>
      refine ⟨passes, rewrites, ?_⟩
      rcases List.mem_pair.mp edge with rfl | rfl <;> rfl
  | toolNode =>
      obtain rfl := List.mem_singleton.mp edge
      exact ⟨passes + 1, rewrites, by simp [waypoint, searches_succ]⟩
  | weightQuestioner =>
      obtain rfl := List.mem_singleton.mp edge
      exact ⟨passes, rewrites, by simp [waypoint]⟩
  | weightParser =>
      obtain rfl := List.mem_singleton.mp edge
      exact ⟨passes, 0, by simp [waypoint, rounds]⟩
  | draftGenerator =>
      obtain rfl := List.mem_singleton.mp edge
      exact ⟨passes, rewrites, rfl⟩
  | coveCritique =>
      rcases List.mem_pair.mp edge with rfl | rfl
      · exact ⟨passes, rewrites + 1, by simp [waypoint, rounds_succ]⟩
      · exact ⟨passes, rewrites, by simp [waypoint]⟩
  | finalSynthesizer =>
      obtain rfl := List.mem_singleton.mp edge
      exact ⟨passes, rewrites, by simp [waypoint]⟩

/-- `y` was routed to by `x` and read what `x` left; between the two a caller may have injected an
answer. -/
structure Exec.Precedes (x y : Exec) : Prop where
  routed : outgoing (some x.node) (x.read.merge x.update) = .ok (some y.node)
  read : y.read = { x.read.merge x.update with userAnswer := y.read.userAnswer }

structure Leaves (x : Exec) (cp : Checkpoint) : Prop where
  writer : cp.writer = some x.node
  values : cp.values = { x.read.merge x.update with userAnswer := cp.values.userAnswer }

structure Standing (xs : List Exec) (cp : Checkpoint) : Prop where
  path : ∃ passes rewrites, xs.map Exec.node = waypoint passes rewrites cp.next
  reached : ∀ front x back, xs = front ++ x :: back →
    ∃ passes rewrites, front.map Exec.node = waypoint passes rewrites (some x.node)
  chain : xs.IsChain Exec.Precedes
  last : ∀ x, xs.getLast? = some x → Leaves x cp
  wrote : ∀ x ∈ xs, x.node.Writes x.read x.update

theorem outgoing_userAnswer (writer : Option Node) (s : DecisionMakerState) (a : Option String) :
    outgoing writer { s with userAnswer := a } = outgoing writer s := by
  rcases writer with _ | writer
  · rfl
  · cases writer <;> rfl

theorem Leaves.answered {x : Exec} {cp : Checkpoint} (leaves : Leaves x cp) (a : String) :
    Leaves x (cp.answered a) := by
  refine ⟨leaves.writer, ?_⟩
  have values := leaves.values
  simp only [Checkpoint.answered, DecisionMakerState.merge, DecisionMakerState.answer, Option.none_or,
    Option.some_or] at values ⊢
  rw [values]

theorem Leaves.precedes {x y : Exec} {cp : Checkpoint} (leaves : Leaves x cp)
    (pending : cp.next = some y.node) (read : y.read = cp.values) : x.Precedes y := by
  refine ⟨?_, read ▸ leaves.values⟩
  have routed := cp.routed
  rw [leaves.writer, leaves.values, outgoing_userAnswer, pending] at routed
  exact routed

namespace Standing
variable {xs : List Exec} {cp cp' : Checkpoint}

theorem begin (pending : cp.next = some .contextAnalyzer) : Standing [] cp :=
  ⟨⟨0, 0, by rw [pending]; rfl⟩, by simp, List.isChain_nil, by simp, by simp⟩

theorem answered (standing : Standing xs cp) (a : String) : Standing xs (cp.answered a) :=
  { standing with last := fun x last => (standing.last x last).answered a }

theorem commit (standing : Standing xs cp) {w : World} {n : Node} {x : Exec}
    (pending : cp.next = some n) (action : cp.commit w n = .ok (x, cp')) : Standing (xs ++ [x]) cp' := by
  obtain ⟨node, read, ran, writer, values⟩ := Checkpoint.commit_ok.mp action
  obtain ⟨passes, rewrites, path⟩ := standing.path
  refine ⟨?_, ?_, ?_, ?_, ?_⟩
  · rw [List.map_append, path, pending, List.map_singleton, node]
    exact waypoint_step passes rewrites (Checkpoint.commit_next action)
  · intro front y back split
    rcases List.eq_nil_or_concat back with rfl | ⟨back, last, rfl⟩
    · obtain ⟨rfl, same⟩ := List.append_inj' split rfl
      obtain rfl : x = y := by simpa using same
      exact ⟨passes, rewrites, by rw [path, pending, node]⟩
    · rw [List.concat_eq_append, ← List.cons_append, ← List.append_assoc] at split
      exact standing.reached front y back (List.append_inj' split rfl).1
  · refine List.isChain_append.mpr ⟨standing.chain, List.isChain_singleton x, ?_⟩
    rintro before last _ ⟨rfl⟩
    exact (standing.last before last).precedes (node ▸ pending) read
  · intro y last
    obtain rfl : y = x := by simpa [eq_comm] using last
    exact ⟨node ▸ writer, by rw [values, read]⟩
  · intro y member
    rcases List.mem_append.mp member with earlier | latest
    · exact standing.wrote y earlier
    · obtain rfl := List.mem_singleton.mp latest
      rw [node, read]
      exact Node.run_writes ran

theorem leg {r : LegResult} (leg : Leg cp r) (standing : Standing xs cp) :
    Standing (xs ++ r.executed) r.checkpoint := by
  induction leg generalizing xs with
  | finished | stopped => simpa using standing
  | interrupted pending action gate => exact standing.commit pending action
  | committed pending action through rest ih => simpa using ih (standing.commit pending action)

end Standing

def CallRecord.continues (xs : List Exec) (record : CallRecord) : List Exec :=
  match record.call with
  | .start _ => record.executed
  | .resume _ => xs ++ record.executed

def Thread.session (t : Thread) : List Exec := t.log.foldl CallRecord.continues []

theorem Thread.perform_session (t : Thread) (attempt : Attempt) :
    (t.perform attempt).session = (t.record attempt).continues t.session := by
  simp [Thread.session]

theorem Thread.session_standing (history : List Attempt) :
    Standing (Thread.after history).session ((Thread.after history).checkpoint.getD .empty) := by
  induction history using List.reverseRecOn with
  | nil => exact Standing.begin rfl
  | append_singleton history attempt ih =>
      rw [Thread.after_concat, Thread.perform_session, Thread.perform_checkpoint, Option.getD_some]
      obtain ⟨call, worlds, delivered⟩ := attempt
      cases call with
      | start userInput => exact (Standing.begin rfl).leg (astream_leg worlds _)
      | resume userAnswer => exact (ih.answered userAnswer).leg (astream_leg worlds _)

/-- Whatever the nodes do and wherever the calls on a thread are cut, what a session has executed
is what leads from Node 1 to the node that is pending: nothing is left out and nothing repeated. -/
theorem Thread.session_path (history : List Attempt) :
    ∃ passes rewrites, (Thread.after history).session.map Exec.node =
      waypoint passes rewrites ((Thread.after history).checkpoint.getD .empty).next :=
  (Thread.session_standing history).path

end DecisionMaker.Graph
