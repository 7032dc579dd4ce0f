import DecisionMaker.Graph.Engine
import DecisionMaker.Library.History
import DecisionMaker.Library.Schedule
import Mathlib.Logic.Function.Basic

namespace DecisionMaker.Graph

open Library

section
variable {ι κ : Type*}

inductive Llm (κ : Type*)
  | injected (client : κ)
  | built (reasoningEnabled : Bool)

def nodeReasoningPolicy : Node → Option Bool
  | .contextAnalyzer => some false
  | .toolNode => none
  | .weightQuestioner => some false
  | .weightParser => some false
  | .draftGenerator => some true
  | .coveCritique => some true
  | .finalSynthesizer => some true

def resolveLlm (llmFactory llmClientOverride : Option κ) (reasoningEnabled : Bool) : Llm κ :=
  match llmFactory with
  | some client => .injected client
  | none =>
      match llmClientOverride with
      | some client => .injected client
      | none => .built reasoningEnabled

inductive CallPhase
  | waiting
  | inside
  | left
  deriving DecidableEq

inductive CallEvent (ι : Type*)
  | enter (call : ι)
  | execute (call : ι) (n : Node)
  -- by completing, by raising or by being cancelled: the `finally` block is the same
  | leave (call : ι)

structure LlmUse (ι κ : Type*) where
  call : ι
  node : Node
  llm : Llm κ

structure Overrides (ι κ : Type*) where
  llmClientOverride : Option κ := none
  phase : ι → CallPhase := fun _ => .waiting
  used : List (LlmUse ι κ) := []

def Overrides.step [DecidableEq ι] (llmClient : ι → Option κ) (s : Overrides ι κ) :
    CallEvent ι → Option (Overrides ι κ)
  | .enter i =>
      if s.phase i = .waiting then
        some { s with
          llmClientOverride := (llmClient i).or s.llmClientOverride
          phase := Function.update s.phase i .inside }
      else none
  | .execute i n =>
      if s.phase i = .inside then
        match nodeReasoningPolicy n with
        | none => some s
        | some reasoningEnabled =>
            -- the compiled graph passes no `llm_factory` to its nodes
            some { s with
              used := s.used ++ [⟨i, n, resolveLlm none s.llmClientOverride reasoningEnabled⟩] }
      else none
  | .leave i =>
      if s.phase i = .inside then
        some { s with
          llmClientOverride := if (llmClient i).isSome then none else s.llmClientOverride
          phase := Function.update s.phase i .left }
      else none

def Overrides.Isolated (llmClient : ι → Option κ) (s : Overrides ι κ) : Prop :=
  ∀ use ∈ s.used, ∀ client, llmClient use.call = some client → use.llm = .injected client

def CallEvent.WritesOverride (llmClient : ι → Option κ) : CallEvent ι → Prop
  | .enter i | .leave i => (llmClient i).isSome = true
  | .execute _ _ => False

def EnteredLast (llmClient : ι → Option κ) (es : List (CallEvent ι)) (client : κ) : Prop :=
  Since (fun e => ¬ e.WritesOverride llmClient) (fun e => ∃ j, e = .enter j ∧ llmClient j = some client) es

def Undisturbed (llmClient : ι → Option κ) (es : List (CallEvent ι)) : Prop :=
  AtEach (fun front e => ∀ i n, e = .execute i n → (nodeReasoningPolicy n).isSome = true →
    ∀ client, llmClient i = some client → EnteredLast llmClient front client) es

section
variable [DecidableEq ι] {llmClient : ι → Option κ} {es : List (CallEvent ι)} {s : Overrides ι κ}

theorem override_eq_some (taken : run (Overrides.step llmClient) {} es = some s) (client : κ) :
    s.llmClientOverride = some client ↔ EnteredLast llmClient es client := by
  induction es using List.reverseRecOn generalizing s with
  | nil => cases taken; simp [EnteredLast]
  | append_singleton es e ih =>
      obtain ⟨t, earlier, last⟩ := (run_concat _).mp taken
      have before := ih earlier
      unfold EnteredLast at before ⊢
      rw [since_concat, ← before]
      cases e with
      | enter i =>
          simp only [Overrides.step, Option.ite_none_right_eq_some, Option.some.injEq] at last
          obtain ⟨-, rfl⟩ := last
          cases own : llmClient i <;> simp [CallEvent.WritesOverride, own]
      | leave i =>
          simp only [Overrides.step, Option.ite_none_right_eq_some, Option.some.injEq] at last
          obtain ⟨-, rfl⟩ := last
          cases own : llmClient i <;> simp [CallEvent.WritesOverride, own]
      | execute i n =>
          simp only [Overrides.step, Option.ite_none_right_eq_some] at last
          obtain ⟨-, last⟩ := last
          split at last <;> cases last <;> simp [CallEvent.WritesOverride]

theorem resolveLlm_eq_injected {slot : Option κ} {reasoningEnabled : Bool} {client : κ} :
    resolveLlm none slot reasoningEnabled = .injected client ↔ slot = some client := by
  cases slot <;> simp [resolveLlm]

/-- In whatever order calls enter, execute their nodes and leave, every LLM node uses the client
of its own call exactly if no other entry or exit disturbed the slot. -/
theorem isolated_iff_undisturbed (llmClient : ι → Option κ) (es : List (CallEvent ι))
    (s : Overrides ι κ) (taken : run (Overrides.step llmClient) {} es = some s) :
    s.Isolated llmClient ↔ Undisturbed llmClient es := by
  induction es using List.reverseRecOn generalizing s with
  | nil => cases taken; simp [Overrides.Isolated, Undisturbed]
  | append_singleton es e ih =>
      obtain ⟨t, earlier, last⟩ := (run_concat _).mp taken
      have before := ih t earlier
      unfold Undisturbed at before ⊢
      rw [atEach_concat, ← before]
      cases e with
      | enter i =>
          simp only [Overrides.step, Option.ite_none_right_eq_some, Option.some.injEq] at last
          obtain ⟨-, rfl⟩ := last
          simp [Overrides.Isolated]
      | leave i =>
          simp only [Overrides.step, Option.ite_none_right_eq_some, Option.some.injEq] at last
          obtain ⟨-, rfl⟩ := last
          simp [Overrides.Isolated]
      | execute i n =>
          simp only [Overrides.step, Option.ite_none_right_eq_some] at last
          obtain ⟨-, last⟩ := last
          simp only [← override_eq_some earlier]
          split at last
          · rename_i policy
            cases last
            simp [policy]
          · rename_i reasoningEnabled policy
            cases last
            simp [Overrides.Isolated, or_imp, forall_and, resolveLlm_eq_injected, policy]

theorem isolated_iff_undisturbed_alone :
    ∃ s, run (Overrides.step (some : Nat → Option Nat)) {} [.enter 0, .execute 0 .contextAnalyzer, .leave 0] =
        some s ∧
      (s.Isolated some ↔
        Undisturbed some [.enter 0, .execute 0 .contextAnalyzer, .leave 0]) :=
  ⟨_, rfl, isolated_iff_undisturbed _ _ _ rfl⟩

theorem overlapping_calls_not_isolated :
    ∃ s, run (Overrides.step (some : Nat → Option Nat)) {} [.enter 0, .enter 1, .execute 0 .contextAnalyzer,
        .leave 1, .execute 0 .weightQuestioner] = some s ∧
      s.used = [⟨0, .contextAnalyzer, .injected 1⟩, ⟨0, .weightQuestioner, .built false⟩] ∧
      ¬ s.Isolated some := by
  refine ⟨_, rfl, rfl, fun isolated => ?_⟩
  cases isolated ⟨0, .contextAnalyzer, .injected 1⟩ (by simp [resolveLlm]) 0 rfl

end

end

end DecisionMaker.Graph
