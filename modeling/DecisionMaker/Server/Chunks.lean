import DecisionMaker.Server.Turn
import DecisionMaker.Ui.Legs
import Mathlib.Data.List.ReduceOption

namespace DecisionMaker.Server

open DecisionMaker.Graph

def isTrue : Value → Bool
  | .bool b => b
  | _ => false

def collectChunk (collected : Value × TurnState) (chunk : Dict) : Value × TurnState :=
  if isTrue (chunk.get "__awaiting_user__" .none) then (chunk.get "last_question" (.str ""), .running)
  else if isTrue (chunk.get "__done__" .none) then (chunk.get "final_answer" (.str ""), .done)
  else collected

def collectChunks (chunks : List Dict) : Value × TurnState :=
  chunks.foldl collectChunk (.str "", .running)

/-- Waits for a leg and reads the checkpoint that it leaves. An exception that comes from no node is
`none`. -/
def invoked (leg : LegResult) (delivered : Bool) (result : DecisionMakerState → Dict) :
    Except (Option NodeError) Dict :=
  match leg.status with
  | .raised e => .error (some e)
  | .cut => .error none
  | .ended => if delivered then .ok (result leg.checkpoint.values) else .error none

def startSession (userInput threadId : String) (t : Thread) (worlds : List World) (delivered : Bool) :
    Except (Option NodeError) Dict :=
  invoked (astream worlds ((t.checkpoint.getD .empty).restart userInput)) delivered fun values =>
    [("status", .str "awaiting_user"), ("question", getOr values.lastQuestion (.str "")),
      ("thread_id", .str threadId)]

def resumeSession (userAnswer threadId : String) (t : Thread) (worlds : List World) (delivered : Bool) :
    Except (Option NodeError) Dict :=
  match (t.checkpoint.getD .empty).aupdateState userAnswer with
  | .error e => .error (some e)
  | .ok cp =>
      invoked (astream worlds cp) delivered fun values =>
        [("status", .str "done"), ("final_answer", .str (values.finalAnswer.getD "")),
          ("thread_id", .str threadId)]

def invokeSession (threadId : String) (t : Thread) (attempt : Attempt) : Except (Option NodeError) Dict :=
  match attempt.call with
  | .start userInput => startSession userInput threadId t attempt.worlds attempt.delivered
  | .resume userAnswer => resumeSession userAnswer threadId t attempt.worlds attempt.delivered

def legOf : Call → Ui.Legs.Leg
  | .start _ => .start
  | .resume _ => .resume

def statusOf : TurnState → String
  | .running => "awaiting_user"
  | .done => "done"

section
variable (describe : NodeError → Ui.Legs.PyError) (threadId : String) (record : CallRecord)

def chunkStream : Ui.Legs.ChunkStream where
  chunks := (Ui.streamResumeSession threadId record).chunks
  raised := (Ui.streamResumeSession threadId record).raised.map describe

def legItems : List (String × Value) :=
  record.executed.map (fun x => (x.node.id, .dict x.update.channels)) ++
    (Ui.interruptChunk record.executed).flatten

end

structure ReadAlike (describe : NodeError → Ui.Legs.PyError) (threadId : String) (t : Thread)
    (attempt : Attempt) : Prop where
  delivered : ∀ sentinel, (t.record attempt).sentinel = some sentinel →
    ∃ text state blocks, collectStream sentinel = (text, state) ∧
      collectChunks (chunkStream describe threadId (t.record attempt)).chunks = (text, state) ∧
      invokeSession threadId t attempt = .ok [("status", .str (statusOf state)),
        ((legOf attempt.call).terminalField, text), ("thread_id", .str threadId)] ∧
      (legOf attempt.call).orchestrate threadId (chunkStream describe threadId (t.record attempt)) =
        ⟨(legOf attempt.call).startedEvent threadId :: blocks.flatten ++
          [(legOf attempt.call).terminalEvent text threadId], none⟩ ∧
      List.Forall₂ (fun item block => Ui.Legs.NodeEvents threadId item.1 item.2 block)
        (legItems (t.record attempt)) blocks
  raised : ∀ e, (t.record attempt).status = .raised e →
    invokeSession threadId t attempt = .error (some e) ∧
      ∃ blocks, (legOf attempt.call).orchestrate threadId (chunkStream describe threadId (t.record attempt)) =
          ⟨(legOf attempt.call).startedEvent threadId :: blocks.flatten ++
            [Ui.Legs.errorEvent (describe e) threadId], some (describe e)⟩ ∧
        List.Forall₂ (fun item block => Ui.Legs.NodeEvents threadId item.1 item.2 block)
          (legItems (t.record attempt)) blocks

section
variable {record : CallRecord}

theorem mem_legItems {name : String} {delta : Value} (member : (name, delta) ∈ legItems record) :
    (∃ x : Exec, name = x.node.id ∧ delta = .dict x.update.channels) ∨
      name = "__interrupt__" ∧ delta = .list [] := by
  rcases List.mem_append.mp member with executed | gate
  · obtain ⟨x, -, same⟩ := List.mem_map.mp executed
    cases same
    exact .inl ⟨x, rfl, rfl⟩
  · unfold Ui.interruptChunk at gate
    split at gate
    · cases List.mem_singleton.mp gate
      exact .inr ⟨rfl, rfl⟩
    · exact absurd gate List.not_mem_nil

theorem legItems_ne {name key : String} {delta : Value} (member : (name, delta) ∈ legItems record)
    (sentinel : key ∈ ["__awaiting_user__", "__done__"]) : name ≠ key := by
  rcases mem_legItems member with ⟨x, rfl, -⟩ | ⟨rfl, -⟩
  · rcases List.mem_pair.mp sentinel with rfl | rfl <;> cases x.node <;> decide
  · rcases List.mem_pair.mp sentinel with rfl | rfl <;> decide

theorem legItems_dict {delta : Value} (member : (Ui.COVE_NODE_ID, delta) ∈ legItems record) :
    ∃ entries, delta = .dict entries := by
  rcases mem_legItems member with ⟨x, -, written⟩ | ⟨other, -⟩
  · exact ⟨_, written⟩
  · exact absurd other (by decide)

theorem chunks_eq (threadId : String) (record : CallRecord) :
    (Ui.streamResumeSession threadId record).chunks =
      ((legItems record).map some).map Ui.Legs.itemChunk ++
        (record.sentinel.map (Ui.sentinelChunk threadId)).toList := by
  have gate : (Ui.interruptChunk record.executed).flatten.map (fun item => [item]) =
      Ui.interruptChunk record.executed := by
    unfold Ui.interruptChunk
    split <;> rfl
  have items : (legItems record).map (fun item => [item]) =
      record.executed.map Ui.nodeChunk ++ Ui.interruptChunk record.executed := by
    rw [legItems, List.map_append, gate, List.map_map]
    rfl
  rw [Ui.streamResumeSession, ← items, List.map_map]
  rfl

end

section
variable {collected : Value × TurnState}

theorem collectChunk_item {record : CallRecord} {item : String × Value} (member : item ∈ legItems record) :
    collectChunk collected [item] = collected := by
  obtain ⟨name, delta⟩ := item
  have other (key : String) (sentinel : key ∈ ["__awaiting_user__", "__done__"]) :
      Dict.get [(name, delta)] key .none = .none := by
    rw [Dict.get_cons, if_neg (legItems_ne member sentinel).symm, Dict.get_nil]
  rw [collectChunk, other "__awaiting_user__" (by simp), other "__done__" (by simp)]
  rfl

theorem collectChunk_sentinel (threadId : String) (sentinel : Sentinel) :
    collectChunk collected (Ui.sentinelChunk threadId sentinel) = collectStream sentinel := by
  cases sentinel with
  | awaitingUser lastQuestion => rfl
  | done finalAnswer => rfl

theorem collectChunks_items {record : CallRecord} {items : List (String × Value)}
    (within : ∀ item ∈ items, item ∈ legItems record) :
    ((items.map some).map Ui.Legs.itemChunk).foldl collectChunk collected = collected := by
  induction items with
  | nil => rfl
  | cons item items ih =>
      obtain ⟨here, later⟩ := List.forall_mem_cons.mp within
      rw [List.map_cons, List.map_cons, List.foldl_cons, Ui.Legs.itemChunk, collectChunk_item here]
      exact ih later

theorem collectChunks_stream (threadId : String) {record : CallRecord} {sentinel : Sentinel}
    (delivered : record.sentinel = some sentinel) :
    collectChunks (Ui.streamResumeSession threadId record).chunks = collectStream sentinel := by
  rw [collectChunks, chunks_eq, List.foldl_append, collectChunks_items fun _ member => member, delivered]
  exact collectChunk_sentinel threadId sentinel

end

theorem legOf_sentinelKey (call : Call) : (legOf call).sentinelKey ∈ ["__awaiting_user__", "__done__"] := by
  cases call <;> simp [legOf, Ui.Legs.Leg.start, Ui.Legs.Leg.resume, Ui.DONE_SENTINEL_KEY]

theorem reduceOption_items {α : Type} (items : List α) : (items.map some).reduceOption = items := by
  induction items with
  | nil => rfl
  | cons item items ih => rw [List.map_cons, List.reduceOption_cons_of_some, ih]

theorem orchestrate_chunks (threadId : String) (call : Call) (record : CallRecord)
    (raised : Option Ui.Legs.PyError) :
    ∃ blocks, (legOf call).orchestrate threadId ⟨(Ui.streamResumeSession threadId record).chunks, raised⟩ =
        Ui.Legs.Leg.emit ((legOf call).startedEvent threadId :: blocks.flatten)
          ((legOf call).loop threadId raised (record.sentinel.map (Ui.sentinelChunk threadId)).toList) ∧
      List.Forall₂ (fun item block => Ui.Legs.NodeEvents threadId item.1 item.2 block)
        (legItems record) blocks := by
  obtain ⟨blocks, items, grammatical⟩ := @Ui.Legs.Leg.loop_items (legOf call) threadId raised
    ((legItems record).map some)
    (fun node delta member => legItems_ne (by simpa using member) (legOf_sentinelKey call))
    (fun delta member => legItems_dict (by simpa using member))
    (record.sentinel.map (Ui.sentinelChunk threadId)).toList
  refine ⟨blocks, ?_, ?_⟩
  · rw [Ui.Legs.Leg.orchestrate, chunks_eq, items, Ui.Legs.Leg.emit_emit]
    rfl
  · rwa [reduceOption_items] at grammatical

theorem loop_sentinel (threadId : String) (call : Call) (values : DecisionMakerState)
    (raised : Option Ui.Legs.PyError) :
    (legOf call).loop threadId raised [Ui.sentinelChunk threadId (call.sentinel values)] =
      ⟨[(legOf call).terminalEvent (collectStream (call.sentinel values)).1 threadId], none⟩ := by
  cases call with
  | start userInput => rfl
  | resume userAnswer => rfl

theorem invokeSession_eq (threadId : String) (t : Thread) (attempt : Attempt) :
    invokeSession threadId t attempt =
      invoked (astream attempt.worlds (attempt.call.entry t.checkpoint)) attempt.delivered fun values =>
        [("status", .str (statusOf (collectStream (attempt.call.sentinel values)).2)),
          ((legOf attempt.call).terminalField, (collectStream (attempt.call.sentinel values)).1),
          ("thread_id", .str threadId)] := by
  obtain ⟨call, worlds, delivered⟩ := attempt
  cases call with
  | start userInput => rfl
  | resume userAnswer => simp only [invokeSession, resumeSession, Checkpoint.aupdateState_eq]; rfl

/-- Whatever a call on a thread does: if it delivers its sentinel, then the turn handler, the page and
the calls without a stream say the same text, and say alike whether the session is over; if a node
raises, none of them says anything but that. -/
theorem read_alike (describe : NodeError → Ui.Legs.PyError) (threadId : String) (t : Thread)
    (attempt : Attempt) : ReadAlike describe threadId t attempt := by
  constructor
  · intro sentinel delivered
    obtain ⟨ended, read, same⟩ := Thread.record_sentinel.mp delivered
    obtain ⟨blocks, events, grammatical⟩ := orchestrate_chunks threadId attempt.call (t.record attempt)
      (chunkStream describe threadId (t.record attempt)).raised
    refine ⟨(collectStream sentinel).1, (collectStream sentinel).2, blocks, rfl,
      collectChunks_stream threadId delivered, ?_, ?_, grammatical⟩
    · have leg : (astream attempt.worlds (attempt.call.entry t.checkpoint)).status = .ended := ended
      rw [invokeSession_eq, invoked, leg, read, ← same]
      rfl
    · have said := loop_sentinel threadId attempt.call
        (astream attempt.worlds (attempt.call.entry t.checkpoint)).checkpoint.values
        (chunkStream describe threadId (t.record attempt)).raised
      rw [same] at said
      rw [delivered] at events
      exact events.trans (congrArg _ said)
  · intro e status
    obtain ⟨blocks, events, grammatical⟩ := orchestrate_chunks threadId attempt.call (t.record attempt)
      (some (describe e))
    refine ⟨?_, blocks, ?_, grammatical⟩
    · have leg : (astream attempt.worlds (attempt.call.entry t.checkpoint)).status = .raised e := status
      rw [invokeSession_eq, invoked, leg]
    · have silent : (t.record attempt).sentinel = none := by
        rw [Option.eq_none_iff_forall_ne_some]
        intro sentinel delivered
        have ended := (Thread.record_sentinel.mp delivered).1
        rw [status] at ended
        cases ended
      have raised : (chunkStream describe threadId (t.record attempt)).raised = some (describe e) := by
        simp only [chunkStream, Ui.streamResumeSession, status, Option.map_some]
      rw [silent] at events
      calc _ = (legOf attempt.call).orchestrate threadId
              ⟨(Ui.streamResumeSession threadId (t.record attempt)).chunks, some (describe e)⟩ := by
            rw [← raised]
            rfl
        _ = _ := events

end DecisionMaker.Server
