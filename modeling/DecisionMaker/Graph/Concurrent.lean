import DecisionMaker.Graph.Gate
import DecisionMaker.Library.History
import DecisionMaker.Library.Schedule
import Mathlib.Logic.Function.Basic

/-!
# Concurrent resumes of one session

No lock spans `aupdate_state`, the load of the checkpoint that `astream` begins with, the commits of
its nodes and the snapshot behind it. Requests on one session interleave at all of them.
-/

namespace DecisionMaker.Graph

open Library

inductive ResumePhase
  | waiting
  | updating (saved : Checkpoint)
  | updated
  -- a leg works on the checkpoint it has loaded, not on the stored one
  | streaming (cp : Checkpoint)
  | streamed
  | replied (finalAnswer : String)
  | failed

/-- `aupdate_state` is a read and a write of the stored checkpoint, `astream` a load and the commits
of its nodes. -/
inductive ResumeEvent (ι : Type*)
  | readState (request : ι)
  | writeState (request : ι)
  | load (request : ι)
  | execute (request : ι) (w : World)
  | snapshot (request : ι)
  | cancel (request : ι)

structure Session (ι : Type*) where
  checkpoint : Checkpoint
  phase : ι → ResumePhase := fun _ => .waiting
  executed : List (ι × Exec) := []

section
variable {ι : Type*} [DecidableEq ι]

namespace Session

def move (s : Session ι) (i : ι) (phase : ResumePhase) : Session ι :=
  { s with phase := Function.update s.phase i phase }

def commit (s : Session ι) (i : ι) (x : Exec) (cp : Checkpoint) (phase : ResumePhase) : Session ι where
  checkpoint := cp
  phase := Function.update s.phase i phase
  executed := s.executed ++ [(i, x)]

def step (userAnswer : ι → String) (s : Session ι) : ResumeEvent ι → Option (Session ι)
  | .readState i =>
      match s.phase i with
      | .waiting => some (s.move i (.updating s.checkpoint))
      | _ => none
  | .writeState i =>
      match s.phase i with
      | .updating saved =>
          match saved.aupdateState (userAnswer i) with
          | .ok cp => some { s.move i .updated with checkpoint := cp }
          | .error _ => some (s.move i .failed)
      | _ => none
  | .load i =>
      match s.phase i with
      | .updated =>
          match s.checkpoint.next with
          | none => some (s.move i .streamed)
          | some _ => some (s.move i (.streaming s.checkpoint))
      | _ => none
  | .execute i w =>
      match s.phase i with
      | .streaming cp =>
          match cp.next with
          | none => none
          | some n =>
              match cp.commit w n with
              | .error _ => some (s.move i .failed)
              | .ok (x, cp') =>
                  if n ∈ interruptAfter ∨ cp'.next = none then some (s.commit i x cp' .streamed)
                  else some (s.commit i x cp' (.streaming cp'))
      | _ => none
  | .snapshot i =>
      match s.phase i with
      | .streamed => some (s.move i (.replied (s.checkpoint.values.finalAnswer.getD "")))
      | _ => none
  | .cancel i =>
      match s.phase i with
      | .replied _ => none
      | _ => some (s.move i .failed)

def executedBy (s : Session ι) (i : ι) : List Exec :=
  (s.executed.filter fun entry => entry.1 = i).map Prod.snd

theorem mem_executedBy {s : Session ι} {i : ι} {x : Exec} :
    x ∈ s.executedBy i ↔ (i, x) ∈ s.executed := by
  simp only [executedBy, List.mem_map, List.mem_filter, decide_eq_true_eq]
  constructor
  · rintro ⟨⟨_, _⟩, ⟨member, rfl⟩, rfl⟩
    exact member
  · exact fun member => ⟨(i, x), ⟨member, rfl⟩, rfl⟩

inductive Steps (userAnswer : ι → String) (s : Session ι) : ResumeEvent ι → Session ι → Prop
  | read {i : ι} (at' : s.phase i = .waiting) :
      Steps userAnswer s (.readState i) (s.move i (.updating s.checkpoint))
  | write {i : ι} {saved : Checkpoint} (at' : s.phase i = .updating saved) :
      Steps userAnswer s (.writeState i)
        { s.move i .updated with checkpoint := saved.answered (userAnswer i) }
  | loadFinished {i : ι} (at' : s.phase i = .updated) (next : s.checkpoint.next = none) :
      Steps userAnswer s (.load i) (s.move i .streamed)
  | load {i : ι} (at' : s.phase i = .updated) (next : s.checkpoint.next ≠ none) :
      Steps userAnswer s (.load i) (s.move i (.streaming s.checkpoint))
  | last {i : ι} {w : World} {cp cp' : Checkpoint} {n : Node} {x : Exec}
      (at' : s.phase i = .streaming cp) (pending : cp.next = some n)
      (action : cp.commit w n = .ok (x, cp')) (stops : n ∈ interruptAfter ∨ cp'.next = none) :
      Steps userAnswer s (.execute i w) (s.commit i x cp' .streamed)
  | commit {i : ι} {w : World} {cp cp' : Checkpoint} {n : Node} {x : Exec}
      (at' : s.phase i = .streaming cp) (pending : cp.next = some n)
      (action : cp.commit w n = .ok (x, cp')) (goes : cp'.next ≠ none) :
      Steps userAnswer s (.execute i w) (s.commit i x cp' (.streaming cp'))
  | raise {i : ι} {w : World} {cp : Checkpoint} (at' : s.phase i = .streaming cp) :
      Steps userAnswer s (.execute i w) (s.move i .failed)
  | snapshot {i : ι} (at' : s.phase i = .streamed) :
      Steps userAnswer s (.snapshot i)
        (s.move i (.replied (s.checkpoint.values.finalAnswer.getD "")))
  | cancel {i : ι} (at' : ∀ f, s.phase i ≠ .replied f) :
      Steps userAnswer s (.cancel i) (s.move i .failed)

theorem step_cases {userAnswer : ι → String} {s s' : Session ι} {e : ResumeEvent ι}
    (taken : s.step userAnswer e = some s') : Steps userAnswer s e s' := by
  cases e with
  | readState i =>
      simp only [step] at taken
      split at taken <;> cases taken
      exact .read ‹_›
  | writeState i =>
      simp only [step, Checkpoint.aupdateState_eq] at taken
      split at taken <;> cases taken
      exact .write ‹_›
  | load i =>
      simp only [step] at taken
      split at taken
      · split at taken <;> cases taken
        · exact .loadFinished ‹_› ‹_›
        · exact .load ‹_› (by simp [*])
      · cases taken
  | execute i w =>
      simp only [step] at taken
      split at taken
      · split at taken
        · cases taken
        · split at taken
          · cases taken
            exact .raise ‹_›
          · split at taken <;> cases taken
            · exact .last ‹_› ‹_› ‹_› ‹_›
            · exact .commit ‹_› ‹_› ‹_› (by simp_all)
      · cases taken
  | snapshot i =>
      simp only [step] at taken
      split at taken <;> cases taken
      exact .snapshot ‹_›
  | cancel i =>
      simp only [step] at taken
      split at taken <;> cases taken
      exact .cancel ‹_›

end Session

namespace ResumeEvent

def request : ResumeEvent ι → ι
  | .readState i | .writeState i | .load i | .execute i _ | .snapshot i | .cancel i => i

def Writes : ResumeEvent ι → Prop
  | .writeState _ | .execute _ _ => True
  | .readState _ | .load _ | .snapshot _ | .cancel _ => False

end ResumeEvent

def Alone (i : ι) (es : List (ResumeEvent ι)) : Prop :=
  Since (fun e => e.request ≠ i → ¬ e.Writes) (fun e => e = .writeState i) es

def LoadsOwn (i : ι) (es : List (ResumeEvent ι)) : Prop :=
  AtEach (fun front e => e = .load i → Alone i front) es

def SnapshotsOwn (i : ι) (es : List (ResumeEvent ι)) : Prop :=
  AtEach (fun front e => e = .snapshot i → Alone i front) es

def ParsersRead (a : String) (xs : List Exec) : Prop :=
  ∀ x ∈ xs, x.node = .weightParser → x.read.userAnswer = some a

def Synthesized (f : String) (xs : List Exec) : Prop :=
  ∃ x ∈ xs, x.node = .finalSynthesizer ∧ x.update.finalAnswer = some f

def parsers (xs : List Exec) : Nat := xs.countP fun x => x.node = .weightParser

def Upheld (a : String) (stored : Checkpoint) (xs : List Exec) (alone loadsOwn snapshotsOwn : Prop) :
    ResumePhase → Prop
  | .waiting => xs = []
  | .updating saved => xs = [] ∧ saved.Behind
  | .updated => xs = [] ∧ (alone → stored.values.userAnswer = some a)
  | .streaming cp =>
      cp.Behind ∧ cp.next ≠ none ∧ parsers xs ≤ 1 ∧ (cp.next = some .weightParser → parsers xs = 0) ∧
      (loadsOwn → cp.values.userAnswer = some a ∧ ParsersRead a xs)
  | .streamed =>
      parsers xs ≤ 1 ∧ (loadsOwn → ParsersRead a xs) ∧
      (alone → xs ≠ [] → ∃ f, Synthesized f xs ∧ stored.values.finalAnswer = some f)
  | .replied f =>
      parsers xs ≤ 1 ∧ (loadsOwn → ParsersRead a xs) ∧ (snapshotsOwn → xs ≠ [] → Synthesized f xs)
  | .failed => parsers xs ≤ 1 ∧ (loadsOwn → ParsersRead a xs)

theorem parsers_commit {cp cp' : Checkpoint} {w : World} {n : Node} {x : Exec} {xs : List Exec}
    (pending : cp.next = some n) (action : cp.commit w n = .ok (x, cp'))
    (behind : cp.Behind) (few : parsers xs ≤ 1)
    (none : cp.next = some .weightParser → parsers xs = 0) :
    parsers (xs ++ [x]) ≤ 1 ∧ cp'.next ≠ some .weightParser := by
  have node := (Checkpoint.commit_ok.mp action).1
  have follows := Checkpoint.commit_next action
  constructor
  · by_cases parser : n = .weightParser
    · have zero := none (by rw [pending, parser])
      simp only [parsers] at zero
      simp [parsers, zero, node, parser]
    · simpa [parsers, node, parser] using few
  · intro again
    rw [again] at follows
    have late := behind n pending
    cases n <;> simp_all [Node.successors, Node.afterGate]

theorem parsersRead_commit {cp cp' : Checkpoint} {w : World} {n : Node} {x : Exec} {xs : List Exec}
    {a : String} (action : cp.commit w n = .ok (x, cp')) (given : cp.values.userAnswer = some a)
    (read : ParsersRead a xs) : ParsersRead a (xs ++ [x]) := by
  intro y member parser
  rcases List.mem_append.mp member with earlier | latest
  · exact read y earlier parser
  · rw [List.mem_singleton.mp latest, (Checkpoint.commit_ok.mp action).2.1, given]

theorem synthesized_commit {cp cp' : Checkpoint} {w : World} {n : Node} {x : Exec} {xs : List Exec}
    (action : cp.commit w n = .ok (x, cp')) (ends : cp'.next = none) :
    ∃ f, Synthesized f (xs ++ [x]) ∧ cp'.values.finalAnswer = some f := by
  obtain ⟨node, -, ran, -, values⟩ := Checkpoint.commit_ok.mp action
  have follows := Checkpoint.commit_next action
  have final : n = .finalSynthesizer := by
    rw [ends] at follows
    cases n <;> simp_all [Node.successors]
  have wrote := (Node.run_writes ran).finalAnswer
  simp only [final, decide_true, Option.isSome_iff_exists] at wrote
  obtain ⟨f, wrote⟩ := wrote
  exact ⟨f, ⟨x, by simp, node.trans final, wrote⟩, by simp [values, DecisionMakerState.merge, wrote]⟩

theorem Upheld.frame {a : String} {stored stored' : Checkpoint} {xs : List Exec}
    {alone loads snaps alone' loads' snaps' : Prop} {phase : ResumePhase}
    (upheld : Upheld a stored xs alone loads snaps phase)
    (own : alone' → alone ∧ stored' = stored) (loaded : loads' → loads) (snapped : snaps' → snaps) :
    Upheld a stored' xs alone' loads' snaps' phase := by
  cases phase with
  | waiting => exact upheld
  | updating saved => exact upheld
  | updated =>
      refine ⟨upheld.1, fun still => ?_⟩
      obtain ⟨before, rfl⟩ := own still
      exact upheld.2 before
  | streaming cp =>
      obtain ⟨behind, goes, few, none, read⟩ := upheld
      exact ⟨behind, goes, few, none, fun h => read (loaded h)⟩
  | streamed =>
      obtain ⟨few, read, stores⟩ := upheld
      refine ⟨few, fun h => read (loaded h), fun still => ?_⟩
      obtain ⟨before, rfl⟩ := own still
      exact stores before
  | replied f =>
      obtain ⟨few, read, wrote⟩ := upheld
      exact ⟨few, fun h => read (loaded h), fun h => wrote (snapped h)⟩
  | failed => exact ⟨upheld.1, fun h => upheld.2 (loaded h)⟩

theorem Upheld.fail {a : String} {stored stored' : Checkpoint} {xs : List Exec}
    {alone loads snaps alone' loads' snaps' : Prop} {phase : ResumePhase}
    (upheld : Upheld a stored xs alone loads snaps phase) (loaded : loads' → loads) :
    Upheld a stored' xs alone' loads' snaps' .failed := by
  have nothing : parsers [] ≤ 1 ∧ (loads' → ParsersRead a []) :=
    ⟨by simp [parsers], fun _ => by simp [ParsersRead]⟩
  cases phase with
  | waiting => obtain rfl := upheld; exact nothing
  | updating saved => obtain rfl := upheld.1; exact nothing
  | updated => obtain rfl := upheld.1; exact nothing
  | streaming cp => exact ⟨upheld.2.2.1, fun h => (upheld.2.2.2.2 (loaded h)).2⟩
  | streamed => exact ⟨upheld.1, fun h => upheld.2.1 (loaded h)⟩
  | replied f => exact ⟨upheld.1, fun h => upheld.2.1 (loaded h)⟩
  | failed => exact ⟨upheld.1, fun h => upheld.2 (loaded h)⟩

namespace Session

@[simp] theorem move_phase_self (s : Session ι) (i : ι) (phase : ResumePhase) :
    (s.move i phase).phase i = phase := by simp [move]

@[simp] theorem commit_phase_self (s : Session ι) (i : ι) (x : Exec) (cp : Checkpoint)
    (phase : ResumePhase) : (s.commit i x cp phase).phase i = phase := by simp [commit]

@[simp] theorem commit_executedBy_self (s : Session ι) (i : ι) (x : Exec) (cp : Checkpoint)
    (phase : ResumePhase) : (s.commit i x cp phase).executedBy i = s.executedBy i ++ [x] := by
  simp [commit, executedBy]

theorem Steps.frame {userAnswer : ι → String} {s s' : Session ι} {e : ResumeEvent ι}
    (steps : Steps userAnswer s e s') {i : ι} (other : e.request ≠ i) :
    s'.phase i = s.phase i ∧ s'.executedBy i = s.executedBy i ∧
      (¬ e.Writes → s'.checkpoint = s.checkpoint) := by
  cases steps <;> refine ⟨Function.update_of_ne (Ne.symm other) _ _, ?_, fun silent => ?_⟩ <;>
    simp_all [ResumeEvent.request, ResumeEvent.Writes, executedBy, move, Session.commit]

structure Sound (userAnswer : ι → String) (es : List (ResumeEvent ι)) (s : Session ι) : Prop where
  behind : s.checkpoint.Behind
  upheld : ∀ i, Upheld (userAnswer i) s.checkpoint (s.executedBy i) (Alone i es) (LoadsOwn i es)
    (SnapshotsOwn i es) (s.phase i)

variable {userAnswer : ι → String} {es : List (ResumeEvent ι)} {s s' : Session ι} {e : ResumeEvent ι}

theorem Sound.behind_step (sound : s.Sound userAnswer es) (steps : Steps userAnswer s e s') :
    s'.checkpoint.Behind := by
  have upheld (i : ι) := sound.upheld i
  cases steps with
  | read | loadFinished | load | raise | snapshot | cancel => exact sound.behind
  | @write i saved at' =>
      have now := upheld i
      rw [at'] at now
      exact now.2
  | @last i w cp cp' n x at' pending action stops =>
      have now := upheld i
      rw [at'] at now
      exact now.1.commit pending action
  | @commit i w cp cp' n x at' pending action goes =>
      have now := upheld i
      rw [at'] at now
      exact now.1.commit pending action

theorem Sound.step (sound : s.Sound userAnswer es) (steps : Steps userAnswer s e s') :
    s'.Sound userAnswer (es ++ [e]) := by
  refine ⟨sound.behind_step steps, fun i => ?_⟩
  have upheld := sound.upheld i
  have loaded : LoadsOwn i (es ++ [e]) → LoadsOwn i es := fun h => (atEach_concat.mp h).1
  have snapped : SnapshotsOwn i (es ++ [e]) → SnapshotsOwn i es := fun h => (atEach_concat.mp h).1
  by_cases other : e.request ≠ i
  · obtain ⟨phase, executed, stored⟩ := steps.frame other
    rw [phase, executed]
    apply upheld.frame _ loaded snapped
    intro still
    rcases since_concat.mp still with rfl | ⟨silent, before⟩
    · exact absurd rfl other
    · exact ⟨before, stored (silent other)⟩
  have own : e.request = i := not_not.mp other
  cases steps with
  | @read j at' =>
      obtain rfl : j = i := own
      rw [at'] at upheld
      rw [move_phase_self]
      exact ⟨upheld, sound.behind⟩
  | @write j saved at' =>
      obtain rfl : j = i := own
      rw [at'] at upheld
      simp only [move_phase_self]
      exact ⟨upheld.1, fun _ => rfl⟩
  | @loadFinished j at' next =>
      obtain rfl : j = i := own
      rw [at'] at upheld
      obtain ⟨none, -⟩ := upheld
      have none : (s.move j .streamed).executedBy j = [] := none
      simp only [move_phase_self, none]
      exact ⟨by simp [parsers], fun _ => by simp [ParsersRead], fun _ some => absurd rfl some⟩
  | @load j at' next =>
      obtain rfl : j = i := own
      rw [at'] at upheld
      obtain ⟨none, given⟩ := upheld
      have none : (s.move j (.streaming s.checkpoint)).executedBy j = [] := none
      simp only [move_phase_self, none]
      refine ⟨sound.behind, next, by simp [parsers], fun _ => rfl, fun alone => ?_⟩
      exact ⟨given ((atEach_concat.mp alone).2 rfl), by simp [ParsersRead]⟩
  | @last j w cp cp' n x at' pending action stops =>
      obtain rfl : j = i := own
      rw [at'] at upheld
      obtain ⟨behind, -, few, early, read⟩ := upheld
      have ends : cp'.next = none :=
        stops.resolve_left (Node.afterGate_through (behind n pending))
      simp only [commit_phase_self, commit_executedBy_self]
      refine ⟨(parsers_commit pending action behind few early).1, fun alone => ?_, fun _ _ => ?_⟩
      · obtain ⟨given, read⟩ := read (loaded alone)
        exact parsersRead_commit action given read
      · exact synthesized_commit action ends
  | @commit j w cp cp' n x at' pending action goes =>
      obtain rfl : j = i := own
      rw [at'] at upheld
      obtain ⟨behind, -, few, early, read⟩ := upheld
      obtain ⟨few', done⟩ := parsers_commit pending action behind few early
      simp only [commit_phase_self, commit_executedBy_self]
      refine ⟨behind.commit pending action, goes, few', fun again => absurd again done, fun alone => ?_⟩
      obtain ⟨given, read⟩ := read (loaded alone)
      have answering := Checkpoint.Answering.commit ⟨given, behind⟩ pending action
      exact ⟨answering.given, parsersRead_commit action given read⟩
  | @raise j w cp at' =>
      obtain rfl : j = i := own
      simp only [move_phase_self]
      exact upheld.fail loaded
  | @snapshot j at' =>
      obtain rfl : j = i := own
      rw [at'] at upheld
      obtain ⟨few, read, stores⟩ := upheld
      simp only [move_phase_self]
      refine ⟨few, fun alone => read (loaded alone), fun alone some => ?_⟩
      obtain ⟨f, wrote, stored⟩ := stores ((atEach_concat.mp alone).2 rfl) some
      rwa [stored]
  | @cancel j at' =>
      obtain rfl : j = i := own
      simp only [move_phase_self]
      exact upheld.fail loaded

theorem sound_of_run {cp : Checkpoint} (behind : cp.Behind)
    (taken : run (Session.step userAnswer) { checkpoint := cp } es = some s) :
    s.Sound userAnswer es := by
  induction es using List.reverseRecOn generalizing s with
  | nil => cases taken; exact ⟨behind, fun i => rfl⟩
  | append_singleton es e ih =>
      obtain ⟨t, earlier, last⟩ := (run_concat _).mp taken
      exact (ih earlier).step (step_cases last)

end Session

theorem Upheld.leg {a : String} {stored : Checkpoint} {xs : List Exec} {alone loads snaps : Prop}
    {phase : ResumePhase} (upheld : Upheld a stored xs alone loads snaps phase) :
    parsers xs ≤ 1 ∧ (loads → ParsersRead a xs) :=
  (upheld.fail id : Upheld a stored xs alone loads snaps .failed)

theorem Session.Sound.read_once {userAnswer : ι → String} (distinct : Function.Injective userAnswer)
    {es : List (ResumeEvent ι)} {s : Session ι} (sound : s.Sound userAnswer es)
    (own : ∀ i, LoadsOwn i es) (a : String) :
    (s.executed.countP fun entry =>
      entry.2.node = .weightParser ∧ entry.2.read.userAnswer = some a) ≤ 1 := by
  have read (i : ι) := (sound.upheld i).leg
  by_cases some' : ∃ entry ∈ s.executed,
      entry.2.node = .weightParser ∧ entry.2.read.userAnswer = some a
  · obtain ⟨⟨i, x⟩, member, parser, answer⟩ := some'
    have given : userAnswer i = a := by
      have := (read i).2 (own i) x (mem_executedBy.mpr member) parser
      exact Option.some.inj (this.symm.trans answer)
    have only : ∀ entry ∈ s.executed,
        decide (entry.2.node = .weightParser ∧ entry.2.read.userAnswer = some a) = true →
        (decide (entry.2.node = .weightParser) && decide (entry.1 = i)) = true := by
      rintro ⟨j, y⟩ member' holds
      obtain ⟨parser', answer'⟩ := of_decide_eq_true holds
      have given' := (read j).2 (own j) y (mem_executedBy.mpr member') parser'
      have same : j = i := distinct ((Option.some.inj (given'.symm.trans answer')).trans given.symm)
      simpa [same] using parser'
    calc _ ≤ s.executed.countP fun entry =>
              decide (entry.2.node = .weightParser) && decide (entry.1 = i) :=
            List.countP_mono_left only
      _ = parsers (s.executedBy i) := by
            simp only [parsers, executedBy, List.countP_map, List.countP_filter, Function.comp_def]
      _ ≤ 1 := (read i).1
  · rw [List.countP_eq_zero.mpr]
    · omega
    · intro entry member holds
      exact some' ⟨entry, member, of_decide_eq_true holds⟩

/-- However the requests on an interrupted session interleave: a request that is alone from its
injection to the load of its leg has its own answer read; one that is alone until its snapshot, and
whose leg ran, replies with what that leg wrote; and if every request loads its own injection, each
answer is read by at most one parser. -/
theorem own_answer_read (userAnswer : ι → String) (distinct : Function.Injective userAnswer)
    (cp : Checkpoint) (interrupted : cp.writer = some .weightQuestioner) (es : List (ResumeEvent ι))
    (s : Session ι) (taken : run (Session.step userAnswer) { checkpoint := cp } es = some s) :
    (∀ i, LoadsOwn i es → ∀ x, (i, x) ∈ s.executed → x.node = .weightParser →
      x.read.userAnswer = some (userAnswer i)) ∧
    (∀ i f, SnapshotsOwn i es → s.phase i = .replied f → (∃ x, (i, x) ∈ s.executed) →
      ∃ x, (i, x) ∈ s.executed ∧ x.node = .finalSynthesizer ∧ x.update.finalAnswer = some f) ∧
    ((∀ i, LoadsOwn i es) → ∀ a, (s.executed.countP fun entry =>
      entry.2.node = .weightParser ∧ entry.2.read.userAnswer = some a) ≤ 1) := by
  have sound := Session.sound_of_run (Checkpoint.behind_of_asked interrupted).2 taken
  refine ⟨fun i own x member parser => ?_, fun i f own replied ran => ?_, fun own a => ?_⟩
  · exact (sound.upheld i).leg.2 own x (Session.mem_executedBy.mpr member) parser
  · obtain ⟨x, member⟩ := ran
    have upheld := sound.upheld i
    rw [replied] at upheld
    obtain ⟨y, written, final, wrote⟩ := upheld.2.2 own
      (List.ne_nil_of_mem (Session.mem_executedBy.mpr member))
    exact ⟨y, Session.mem_executedBy.mp written, final, wrote⟩
  · exact sound.read_once distinct own a

def askedCheckpoint : Checkpoint :=
  ⟨{ lastQuestion := some (.str "Is stability worth more?") }, some .weightQuestioner,
    some .weightParser, rfl⟩

def answerOf : Bool → String
  | false => "Yes"
  | true => "No"

def wholeLeg (request : Bool) : List (ResumeEvent Bool) :=
  List.replicate 4 (.execute request (.fixed "Rent." []))

def undisturbedResume : List (ResumeEvent Bool) :=
  [.readState false, .writeState false, .load false] ++ wholeLeg false ++ [.snapshot false]

theorem own_answer_read_undisturbed :
    ∃ s, run (Session.step answerOf) { checkpoint := askedCheckpoint } undisturbedResume = some s ∧
    (∀ i, LoadsOwn i undisturbedResume → ∀ x, (i, x) ∈ s.executed → x.node = .weightParser →
      x.read.userAnswer = some (answerOf i)) ∧
    (∀ i f, SnapshotsOwn i undisturbedResume → s.phase i = .replied f →
      (∃ x, (i, x) ∈ s.executed) →
      ∃ x, (i, x) ∈ s.executed ∧ x.node = .finalSynthesizer ∧ x.update.finalAnswer = some f) ∧
    ((∀ i, LoadsOwn i undisturbedResume) → ∀ a, (s.executed.countP fun entry =>
      entry.2.node = .weightParser ∧ entry.2.read.userAnswer = some a) ≤ 1) :=
  ⟨_, rfl, own_answer_read answerOf (by intro i j; cases i <;> cases j <;> simp [answerOf])
    askedCheckpoint rfl undisturbedResume _ rfl⟩

def overtakenResume : List (ResumeEvent Bool) :=
  [.readState false, .writeState false, .readState true, .writeState true, .load false, .load true] ++
    wholeLeg false ++ wholeLeg true ++ [.snapshot false, .snapshot true]

theorem overtaken_answer_lost :
    ∃ s, run (Session.step answerOf) { checkpoint := askedCheckpoint } overtakenResume = some s ∧
    s.phase false = .replied "Rent." ∧ s.phase true = .replied "Rent." ∧
    (¬ ∀ i x, (i, x) ∈ s.executed → x.node = .weightParser →
      x.read.userAnswer = some (answerOf i)) ∧
    ¬ ∀ a, (s.executed.countP fun entry =>
      entry.2.node = .weightParser ∧ entry.2.read.userAnswer = some a) ≤ 1 := by
  refine ⟨_, rfl, rfl, rfl, fun own => ?_, fun once => ?_⟩
  · have read := own false _ List.mem_cons_self rfl
    simp [answerOf, DecisionMakerState.merge, DecisionMakerState.answer] at read
  · exact absurd (once "No") (by decide)

end

end DecisionMaker.Graph
