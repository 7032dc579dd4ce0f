import DecisionMaker.Graph.Engine
import Mathlib.Data.Nat.Find
import Mathlib.Tactic.IntervalCases

namespace DecisionMaker.Graph

structure Critic where
  drafts : Nat → String
  replies : Nat → Dict

namespace Critic
variable (c : Critic)

def world (round : Nat) : World := .fixed (c.drafts round) (c.replies round)

def worlds : Nat → List World
  | 0 => []
  | rounds + 1 => worlds rounds ++ [c.world rounds, c.world rounds]

def wantsRewrite (round : Nat) : Bool :=
  ((c.replies round).get "needs_rewrite" (.bool false)).truthy

def leavesFeedback (round : Nat) : Bool :=
  ((c.replies round).get "critique_feedback" .none).truthy

def rewriteCount : Nat → Int
  | 0 => 0
  | rounds + 1 =>
      if coveCritique.needsRewrite (rewriteCount rounds) (c.replies rounds) then
        rewriteCount rounds + 1
      else rewriteCount rounds

def Finalizes (round : Nat) : Prop :=
  c.leavesFeedback round = true → 2 ≤ c.rewriteCount (round + 1)

end Critic

def roundNodes : List Node := [.draftGenerator, .coveCritique]

def RewritesBounded (cp : Checkpoint) (c : Critic) : Prop :=
  ∃ rewrites ≤ 2,
    (astream (c.worlds (rewrites + 1)) cp).executed.map Exec.node =
      (List.replicate (rewrites + 1) roundNodes).flatten ∧
    (astream (c.worlds (rewrites + 1)) cp).checkpoint.next = some .finalSynthesizer

theorem astream_round {cp : Checkpoint} (pending : cp.next = some .draftGenerator) (c : Critic)
    {round : Nat} (counted : cp.values.rewriteCount.getD 0 = c.rewriteCount round) :
    ∃ cp' executed, astream [c.world round, c.world round] cp = ⟨executed, cp', .cut⟩ ∧
      executed.map Exec.node = roundNodes ∧
      cp'.values.rewriteCount.getD 0 = c.rewriteCount (round + 1) ∧
      (c.Finalizes round → cp'.next = some .finalSynthesizer) ∧
      (¬ c.Finalizes round → cp'.next = some .draftGenerator) := by
  let draft : DecisionMakerState := { draftAnalysis := some (c.drafts round) }
  let drafted : Checkpoint := ⟨cp.values.merge draft, some .draftGenerator, some .coveCritique, rfl⟩
  have drafts : cp.commit (c.world round) .draftGenerator =
      .ok (⟨.draftGenerator, cp.values, draft⟩, drafted) :=
    Checkpoint.commit_ok.mpr ⟨rfl, rfl, rfl, rfl, rfl⟩
  let verdict := coveCritique.stateWrite (drafted.values.rewriteCount.getD 0) (c.replies round)
  obtain ⟨judged, writes⟩ : ∃ cp', Checkpoint.write (some .coveCritique)
      (drafted.values.merge verdict) = .ok cp' := by
    unfold Checkpoint.write
    split
    · exact ⟨_, rfl⟩
    · rename_i e routed
      simp only [outgoing] at routed
      split at routed <;> cases routed
  obtain ⟨writer, values⟩ := Checkpoint.write_ok.mp writes
  have judges : drafted.commit (c.world round) .coveCritique =
      .ok (⟨.coveCritique, drafted.values, verdict⟩, judged) :=
    Checkpoint.commit_ok.mpr ⟨rfl, rfl, rfl, writer, values⟩
  have routed := judged.routed
  have count : judged.values.rewriteCount.getD 0 = c.rewriteCount (round + 1) := by
    rw [values, Critic.rewriteCount, ← counted]
    rfl
  have feedback : (judged.values.critiqueFeedback.getD .none).truthy = c.leavesFeedback round := by
    rw [values]
    exact Value.orElse_empty_truthy _
  rw [writer, outgoing] at routed
  refine ⟨judged, [⟨.draftGenerator, cp.values, draft⟩, ⟨.coveCritique, drafted.values, verdict⟩],
    ?_, rfl, count, fun finalizes => ?_, fun stays => ?_⟩
  · rw [astream_committed pending drafts (by simp), astream_committed rfl judges (by simp)]
    cases next : judged.next with
    | none => rw [next] at routed; split at routed <;> cases routed
    | some n => rw [astream_nil next]; rfl
  · have finalize : routeFromCritique judged.values = .finalize := by
      rwa [routeFromCritique_eq_finalize, feedback, count]
    rw [finalize] at routed
    exact (Except.ok.inj routed).symm
  · have rewrite : routeFromCritique judged.values = .rewrite := by
      rw [routeFromCritique_eq_rewrite, feedback, count]
      simpa only [Critic.Finalizes, Classical.not_imp, Int.not_le] using stays
    rw [rewrite] at routed
    exact (Except.ok.inj routed).symm

section
variable {cp : Checkpoint} {c : Critic}

theorem astream_rounds (pending : cp.next = some .draftGenerator)
    (fresh : cp.values.rewriteCount.getD 0 = 0) {rounds : Nat}
    (stays : ∀ round < rounds, ¬ c.Finalizes round) :
    (astream (c.worlds rounds) cp).status = .cut ∧
    (astream (c.worlds rounds) cp).executed.map Exec.node =
      (List.replicate rounds roundNodes).flatten ∧
    (astream (c.worlds rounds) cp).checkpoint.next = some .draftGenerator ∧
    (astream (c.worlds rounds) cp).checkpoint.values.rewriteCount.getD 0 = c.rewriteCount rounds := by
  induction rounds with
  | zero => simp [Critic.worlds, astream_nil pending, pending, fresh, Critic.rewriteCount]
  | succ rounds ih =>
      obtain ⟨cut, nodes, next, counted⟩ := ih fun round before => stays round (by omega)
      obtain ⟨cp', executed, leg, once, count, -, back⟩ := astream_round next c counted
      rw [Critic.worlds, astream_append cut, leg]
      refine ⟨rfl, ?_, back (stays rounds (by omega)), count⟩
      simp [LegResult.then, nodes, once, List.replicate_succ']

theorem astream_finalizes (pending : cp.next = some .draftGenerator)
    (fresh : cp.values.rewriteCount.getD 0 = 0) {rounds : Nat}
    (stays : ∀ round < rounds, ¬ c.Finalizes round) (leaves : c.Finalizes rounds) :
    (astream (c.worlds (rounds + 1)) cp).executed.map Exec.node =
      (List.replicate (rounds + 1) roundNodes).flatten ∧
    (astream (c.worlds (rounds + 1)) cp).checkpoint.next = some .finalSynthesizer := by
  obtain ⟨cut, nodes, next, counted⟩ := astream_rounds pending fresh stays
  obtain ⟨cp', executed, leg, once, -, final, -⟩ := astream_round next c counted
  rw [Critic.worlds, astream_append cut, leg]
  apply And.intro _ (final leaves)
  simp [LegResult.then, nodes, once, List.replicate_succ']

theorem rewritesBounded_iff_finalizes (pending : cp.next = some .draftGenerator)
    (fresh : cp.values.rewriteCount.getD 0 = 0) :
    RewritesBounded cp c ↔ ∃ round < 3, c.Finalizes round := by
  classical
  constructor
  · intro rewritten
    obtain ⟨rewrites, bounded, -, final⟩ := rewritten
    by_contra none
    have stays : ∀ round < rewrites + 1, ¬ c.Finalizes round := fun round before leaves =>
      none ⟨round, by omega, leaves⟩
    rw [(astream_rounds pending fresh stays).2.2.1] at final
    cases final
  · rintro ⟨round, bounded, leaves⟩
    have some : ∃ round, c.Finalizes round := ⟨round, leaves⟩
    have first := Nat.find_min' some leaves
    exact ⟨Nat.find some, by omega, astream_finalizes pending fresh (fun _ => Nat.find_min some)
      (Nat.find_spec some)⟩

end

namespace Critic
variable (c : Critic)

def Capped : Prop :=
  (∃ round < 3, c.leavesFeedback round = false) ∨ 2 ≤ (List.range 3).countP c.wantsRewrite

theorem needsRewrite_eq (round : Nat) (count : Int) :
    coveCritique.needsRewrite count (c.replies round) =
      (decide (count < 2) && c.wantsRewrite round) :=
  coveCritique.needsRewrite_capped count (c.replies round)

theorem rewriteCount_mono {round later : Nat} (le : round ≤ later) :
    c.rewriteCount round ≤ c.rewriteCount later := by
  induction le with
  | refl => exact Int.le_refl _
  | step le ih =>
      apply Int.le_trans ih
      rw [rewriteCount]
      split <;> omega

theorem two_le_rewriteCount_three :
    2 ≤ c.rewriteCount 3 ↔ 2 ≤ (List.range 3).countP c.wantsRewrite := by
  simp only [rewriteCount, needsRewrite_eq, List.range_succ, List.range_zero, List.nil_append,
    List.countP_append, List.countP_singleton]
  cases c.wantsRewrite 0 <;> cases c.wantsRewrite 1 <;> cases c.wantsRewrite 2 <;> simp

theorem finalizes_iff_capped : (∃ round < 3, c.Finalizes round) ↔ c.Capped := by
  constructor
  · intro finalized
    obtain ⟨round, bounded, leaves⟩ := finalized
    by_cases feedback : c.leavesFeedback round = true
    · have counted : c.rewriteCount (round + 1) ≤ c.rewriteCount 3 := c.rewriteCount_mono (by omega)
      exact .inr (c.two_le_rewriteCount_three.mp ((leaves feedback).trans counted))
    · exact .inl ⟨round, bounded, by simpa using feedback⟩
  · intro capped
    rcases capped with ⟨round, bounded, silent⟩ | counted
    · exact ⟨round, bounded, fun feedback => by simp [silent] at feedback⟩
    · exact ⟨2, by omega, fun _ => c.two_le_rewriteCount_three.mpr counted⟩

end Critic

/-- A leg that enters Node 4 with no rewrite counted reaches the final synthesizer after at most
two rewrites exactly when the critic is silent, or asks for two rewrites, within three rounds. -/
theorem rewritesBounded_iff (cp : Checkpoint) (c : Critic)
    (pending : cp.next = some .draftGenerator) (fresh : cp.values.rewriteCount.getD 0 = 0) :
    RewritesBounded cp c ↔ c.Capped :=
  (rewritesBounded_iff_finalizes pending fresh).trans c.finalizes_iff_capped

theorem rewritesBounded_iff_silent :
    RewritesBounded ⟨{ rewriteCount := some 0 }, some .weightParser, some .draftGenerator, rfl⟩
        ⟨fun _ => "Rent for now.", fun _ => []⟩ ↔
      Critic.Capped ⟨fun _ => "Rent for now.", fun _ => []⟩ :=
  rewritesBounded_iff _ _ rfl rfl

theorem rewrites_forever {cp : Checkpoint} {c : Critic} (pending : cp.next = some .draftGenerator)
    (fresh : cp.values.rewriteCount.getD 0 = 0)
    (approves : ∀ round, c.wantsRewrite round = false)
    (comments : ∀ round, c.leavesFeedback round = true) (rounds : Nat) :
    (astream (c.worlds rounds) cp).checkpoint.next = some .draftGenerator := by
  have never (round : Nat) : c.rewriteCount round = 0 := by
    induction round with
    | zero => rfl
    | succ round ih => simp [Critic.rewriteCount, c.needsRewrite_eq, approves, ih]
  refine (astream_rounds pending fresh fun round _ leaves => ?_).2.2.1
  have counted := leaves (comments round)
  rw [never] at counted
  omega

def approvingCritic : Critic where
  drafts _ := "Rent for now."
  replies _ := [("needs_rewrite", .bool false), ("critique_feedback", .str "Well argued.")]

theorem approvingCritic_unbounded :
    ¬ RewritesBounded ⟨{ rewriteCount := some 0 }, some .weightParser, some .draftGenerator, rfl⟩
      approvingCritic := by
  intro rewritten
  obtain ⟨rewrites, -, -, final⟩ := rewritten
  rw [rewrites_forever rfl rfl (fun _ => rfl) (fun _ => rfl)] at final
  cases final

end DecisionMaker.Graph
