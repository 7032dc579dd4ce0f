import DecisionMaker.Graph.Session

namespace DecisionMaker.Graph

structure Field (α : Type) where
  get : DecisionMakerState → Option α
  get_merge : ∀ s u, get (s.merge u) = (get u).or (get s)
  get_answer : ∀ s a, get { s with userAnswer := a } = get s

namespace Field

def draftAnalysis : Field String := ⟨DecisionMakerState.draftAnalysis, fun _ _ => rfl, fun _ _ => rfl⟩
def weights : Field Value := ⟨DecisionMakerState.weights, fun _ _ => rfl, fun _ _ => rfl⟩
def lastQuestion : Field Value := ⟨DecisionMakerState.lastQuestion, fun _ _ => rfl, fun _ _ => rfl⟩
def critiqueFeedback : Field Value :=
  ⟨DecisionMakerState.critiqueFeedback, fun _ _ => rfl, fun _ _ => rfl⟩

variable {α : Type} (field : Field α)

theorem get_precedes {x y : Exec} (precedes : x.Precedes y) :
    field.get y.read = (field.get x.update).or (field.get x.read) := by
  rw [precedes.read, field.get_answer, field.get_merge]

theorem get_of_last {p x : Exec} {later : List Exec} {v : α}
    (chain : (p :: (later ++ [x])).IsChain Exec.Precedes) (wrote : field.get p.update = some v)
    (silent : ∀ y ∈ later, field.get y.update = none) : field.get x.read = some v := by
  have holds : (field.get p.update).or (field.get p.read) = some v := by rw [wrote, Option.some_or]
  clear wrote
  induction later generalizing p with
  | nil =>
      rw [field.get_precedes (List.isChain_pair.mp chain), holds]
  | cons y later ih =>
      obtain ⟨precedes, chain⟩ := List.isChain_cons_cons.mp chain
      apply ih chain fun z member => silent z (List.mem_cons_of_mem _ member)
      rw [silent y List.mem_cons_self, Option.none_or, field.get_precedes precedes, holds]

end Field

theorem Node.Writes.draftAnalysis {n : Node} {s u : DecisionMakerState} (writes : n.Writes s u) :
    u.draftAnalysis.isSome = decide (n = .draftGenerator) := by
  cases n <;> obtain ⟨_, rfl⟩ := writes <;> rfl

theorem Node.Writes.weights {n : Node} {s u : DecisionMakerState} (writes : n.Writes s u) :
    u.weights.isSome = decide (n = .weightParser) := by
  cases n <;> obtain ⟨_, rfl⟩ := writes <;> rfl

theorem Node.Writes.critiqueFeedback {n : Node} {s u : DecisionMakerState} (writes : n.Writes s u) :
    u.critiqueFeedback.isSome = decide (n = .coveCritique) := by
  cases n <;> obtain ⟨_, rfl⟩ := writes <;> rfl

section
variable {xs : List Exec} {cp : Checkpoint}

theorem Standing.reads {α : Type} (standing : Standing xs cp) (field : Field α) (writer : Node)
    (writes : ∀ (n : Node) s u, n.Writes s u → (field.get u).isSome = decide (n = writer))
    {front later back : List Exec} {p x : Exec} (split : xs = front ++ p :: later ++ x :: back)
    (node : p.node = writer) (others : ∀ y ∈ later, y.node ≠ writer) :
    field.get x.read = field.get p.update := by
  have member : ∀ y ∈ p :: later, y ∈ xs := fun y inside => by
    rw [split]
    exact List.mem_append_left _ (List.mem_append_right _ inside)
  have wrote := writes _ _ _ (standing.wrote p (member p List.mem_cons_self))
  rw [decide_eq_true node] at wrote
  obtain ⟨v, given⟩ := Option.isSome_iff_exists.mp wrote
  rw [given]
  have part : p :: (later ++ [x]) <:+: xs := ⟨front, back, by rw [split]; simp⟩
  have chain := List.IsChain.infix standing.chain part
  apply field.get_of_last chain given
  intro y inside
  have silent := writes _ _ _ (standing.wrote y (member y (List.mem_cons_of_mem _ inside)))
  rw [decide_eq_false (others y inside)] at silent
  exact Option.isNone_iff_eq_none.mp (by simpa using silent)

theorem Standing.precedes (standing : Standing xs cp) {front back : List Exec} {x y : Exec}
    (split : xs = front ++ x :: y :: back) : x.Precedes y := by
  have inside : [x, y] <:+: xs := ⟨front, back, by rw [split]; simp⟩
  have pair := List.IsChain.infix standing.chain inside
  exact List.isChain_pair.mp pair

end

/-- No answer is packaged from a draft that was not audited: the synthesizer reads the draft that
the critic just before it read, which is the one the generator just before that wrote, and the
critic's reply was routed to the end. A draft written over another follows a critic that was routed
back and reads that critic's feedback. -/
structure Audited (session : List Exec) : Prop where
  final : ∀ front x back, session = front ++ x :: back → x.node = .finalSynthesizer →
    ∃ earlier d c, front = earlier ++ [d, c] ∧ d.node = .draftGenerator ∧ c.node = .coveCritique ∧
      c.read.draftAnalysis = d.update.draftAnalysis ∧ x.read.draftAnalysis = d.update.draftAnalysis ∧
      c.route = .finalize
  redraft : ∀ front d back, session = front ++ d :: back → d.node = .draftGenerator →
    (∃ y ∈ front, y.node = .draftGenerator) →
    ∃ earlier c, front = earlier ++ [c] ∧ c.node = .coveCritique ∧ c.route = .rewrite ∧
      d.read.critiqueFeedback = c.update.critiqueFeedback

theorem exists_pair {xs : List Exec} {before : List Node} {m n : Node}
    (path : xs.map Exec.node = before ++ [m, n]) :
    ∃ earlier d c, xs = earlier ++ [d, c] ∧ earlier.map Exec.node = before ∧ d.node = m ∧ c.node = n := by
  obtain ⟨earlier, pair, rfl, same, rest⟩ := List.map_eq_append_iff.mp path
  obtain ⟨d, tail, rfl, dNode, rest⟩ := List.map_eq_cons_iff.mp rest
  obtain ⟨c, tail, rfl, cNode, rest⟩ := List.map_eq_cons_iff.mp rest
  obtain rfl := List.map_eq_nil_iff.mp rest
  exact ⟨earlier, d, c, rfl, same, dNode, cNode⟩

theorem Exec.Precedes.route {c x : Exec} (precedes : c.Precedes x) (node : c.node = .coveCritique) :
    x.node = .draftGenerator ∧ c.route = .rewrite ∨ x.node = .finalSynthesizer ∧ c.route = .finalize := by
  have routed := precedes.routed
  rw [node, outgoing] at routed
  split at routed
  · rename_i rewrite
    exact .inl ⟨(Option.some.inj (Except.ok.inj routed)).symm, rewrite⟩
  · rename_i finalize
    exact .inr ⟨(Option.some.inj (Except.ok.inj routed)).symm, finalize⟩

theorem not_mem_searches {n : Node} (late : n ≠ .contextAnalyzer ∧ n ≠ .toolNode) (passes : Nat) :
    n ∉ searches passes := by
  simp only [searches, List.mem_flatten, List.mem_replicate, not_exists, not_and]
  rintro _ ⟨-, rfl⟩
  simpa using late

theorem mem_rounds {n : Node} {rewrites : Nat} (member : n ∈ rounds rewrites) :
    n = .draftGenerator ∨ n = .coveCritique := by
  obtain ⟨_, repeated, inside⟩ := List.mem_flatten.mp member
  obtain ⟨-, rfl⟩ := List.mem_replicate.mp repeated
  exact List.mem_pair.mp inside

theorem Standing.audited {xs : List Exec} {cp : Checkpoint} (standing : Standing xs cp) : Audited xs := by
  constructor
  case final =>
    intro front x back split node
    obtain ⟨passes, rewrites, path⟩ := standing.reached front x back split
    rw [node] at path
    obtain ⟨earlier, d, c, rfl, -, dNode, cNode⟩ := exists_pair path
    have whole : xs = earlier ++ d :: [c] ++ x :: back := split
    have upToCritic : xs = earlier ++ d :: [] ++ c :: x :: back := by simp [split]
    have audited : c.read.draftAnalysis = d.update.draftAnalysis :=
      standing.reads .draftAnalysis .draftGenerator (fun _ _ _ writes => writes.draftAnalysis) upToCritic
        dNode (by simp)
    have packaged : x.read.draftAnalysis = d.update.draftAnalysis :=
      standing.reads .draftAnalysis .draftGenerator (fun _ _ _ writes => writes.draftAnalysis) whole
        dNode (by simp [cNode])
    have precedes : c.Precedes x := standing.precedes upToCritic
    rcases precedes.route cNode with ⟨other, -⟩ | ⟨-, finalize⟩
    · rw [node] at other
      cases other
    · exact ⟨earlier, d, c, rfl, dNode, cNode, audited, packaged, finalize⟩
  case redraft =>
    rintro front d back split node ⟨y, member, drafted⟩
    obtain ⟨passes, rewrites, path⟩ := standing.reached front d back split
    rw [node] at path
    cases rewrites with
    | zero =>
        have inside := List.mem_map_of_mem (f := Exec.node) member
        rw [path, drafted] at inside
        simp [waypoint, rounds, not_mem_searches] at inside
    | succ rewrites =>
        rw [waypoint, rounds_succ, ← List.append_assoc] at path
        obtain ⟨earlier, d', c, rfl, -, -, cNode⟩ := exists_pair path
        have whole : xs = (earlier ++ [d']) ++ c :: [] ++ d :: back := by simp [split]
        have told : d.read.critiqueFeedback = c.update.critiqueFeedback :=
          standing.reads .critiqueFeedback .coveCritique (fun _ _ _ writes => writes.critiqueFeedback) whole
            cNode (by simp)
        have precedes : c.Precedes d := standing.precedes (whole.trans (List.append_assoc _ _ _))
        rcases precedes.route cNode with ⟨-, rewrite⟩ | ⟨other, -⟩
        · exact ⟨earlier ++ [d'], c, by simp, cNode, rewrite, told⟩
        · rw [node] at other
          cases other

/-- In every session of every history, whatever the nodes return and wherever its calls are cut. -/
theorem Thread.session_audited (history : List Attempt) : Audited (Thread.after history).session :=
  (Thread.session_standing history).audited

def Node.weighs : Node → Bool
  | .draftGenerator | .coveCritique | .finalSynthesizer => true
  | _ => false

/-- Every draft, audit and answer is made with the weights that the parser of the session wrote,
and the parser was given the question that the questioner just before it asked. -/
structure Weighed (session : List Exec) : Prop where
  weights : ∀ front x back, session = front ++ x :: back → x.node.weighs = true →
    ∃ earlier q p later, front = earlier ++ q :: p :: later ∧ q.node = .weightQuestioner ∧
      p.node = .weightParser ∧ p.read.lastQuestion = q.update.lastQuestion ∧
      x.read.weights = p.update.weights

theorem waypoint_weighs (passes rewrites : Nat) {n : Node} (weighs : n.weighs = true) :
    ∃ later, waypoint passes rewrites (some n) =
        searches passes ++ [.contextAnalyzer] ++ .weightQuestioner :: .weightParser :: later ∧
      ∀ m ∈ later, m ≠ .weightParser := by
  have drafting : ∀ m ∈ rounds rewrites, m ≠ .weightParser := by
    rintro m member rfl
    rcases mem_rounds member with other | other <;> cases other
  cases n with
  | draftGenerator => exact ⟨rounds rewrites, by simp [waypoint], drafting⟩
  | coveCritique =>
      refine ⟨rounds rewrites ++ [.draftGenerator], by simp [waypoint], ?_⟩
      simpa [or_imp, forall_and] using drafting
  | finalSynthesizer =>
      refine ⟨rounds rewrites ++ [.draftGenerator, .coveCritique], by simp [waypoint], ?_⟩
      simpa [or_imp, forall_and] using drafting
  | _ => cases weighs

theorem Standing.weighed {xs : List Exec} {cp : Checkpoint} (standing : Standing xs cp) : Weighed xs := by
  refine ⟨fun front x back split weighs => ?_⟩
  obtain ⟨passes, rewrites, path⟩ := standing.reached front x back split
  obtain ⟨nodes, shape, others⟩ := waypoint_weighs passes rewrites weighs
  obtain ⟨earlier, rest, rfl, -, rest'⟩ := List.map_eq_append_iff.mp (path.trans shape)
  obtain ⟨q, rest, rfl, qNode, rest'⟩ := List.map_eq_cons_iff.mp rest'
  obtain ⟨p, later, rfl, pNode, rfl⟩ := List.map_eq_cons_iff.mp rest'
  have upToParser : xs = earlier ++ q :: [] ++ p :: (later ++ x :: back) := by simp [split]
  have whole : xs = (earlier ++ [q]) ++ p :: later ++ x :: back := by simp [split]
  refine ⟨earlier, q, p, later, rfl, qNode, pNode, ?_, ?_⟩
  · exact standing.reads .lastQuestion .weightQuestioner (fun _ _ _ writes => writes.lastQuestion)
      upToParser qNode (by simp)
  · exact standing.reads .weights .weightParser (fun _ _ _ writes => writes.weights) whole pNode
      fun y member => others _ (List.mem_map_of_mem member)

theorem Thread.session_weighed (history : List Attempt) : Weighed (Thread.after history).session :=
  (Thread.session_standing history).weighed

end DecisionMaker.Graph
