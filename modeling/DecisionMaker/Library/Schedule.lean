import Mathlib.Logic.Basic
import Mathlib.Data.List.Basic

/-!
# Schedules of a partial step function

A concurrent program is given by one function that takes the labelled atomic steps of all its
parties; a step that is not enabled is `none`. A schedule is any list of labels, so a statement
about every schedule is a statement about every interleaving.
-/

namespace DecisionMaker.Library

section
variable {σ ε : Type*} (step : σ → ε → Option σ)

def run : σ → List ε → Option σ
  | s, [] => some s
  | s, e :: es => (step s e).bind fun s' => run s' es

/-- `P` holds of every step the schedule takes, in the state it is taken from. -/
def EachStep (P : σ → ε → Prop) : σ → List ε → Prop
  | _, [] => True
  | s, e :: es => P s e ∧ ∀ s', step s e = some s' → EachStep P s' es

instance EachStep.decidable {P : σ → ε → Prop} [∀ s e, Decidable (P s e)] :
    ∀ s es, Decidable (EachStep step P s es)
  | _, [] => .isTrue True.intro
  | s, e :: es =>
      have (s' : σ) : Decidable (EachStep step P s' es) := decidable s' es
      inferInstanceAs (Decidable (P s e ∧ ∀ s' ∈ step s e, EachStep step P s' es))

@[simp] theorem run_nil (s : σ) : run step s [] = some s := rfl

theorem run_cons {s s' : σ} {e : ε} {es : List ε} :
    run step s (e :: es) = some s' ↔ ∃ t, step s e = some t ∧ run step t es = some s' := by
  simp only [run, Option.bind_eq_some_iff]

theorem run_append {s s' : σ} {es fs : List ε} :
    run step s (es ++ fs) = some s' ↔ ∃ t, run step s es = some t ∧ run step t fs = some s' := by
  induction es generalizing s with
  | nil => simp
  | cons e es ih =>
      simp only [List.cons_append, run_cons, ih]
      constructor
      · intro both
        obtain ⟨t, taken, u, first, second⟩ := both
        exact ⟨u, ⟨t, taken, first⟩, second⟩
      · intro both
        obtain ⟨u, ⟨t, taken, first⟩, second⟩ := both
        exact ⟨t, taken, u, first, second⟩

theorem run_concat {s s' : σ} {es : List ε} {e : ε} :
    run step s (es ++ [e]) = some s' ↔ ∃ t, run step s es = some t ∧ step t e = some s' := by
  simp [run_append, run_cons]

variable {step}

theorem run_invariant_of {I : σ → Prop} {C : σ → ε → Prop}
    (preserved : ∀ s e s', I s → C s e → step s e = some s' → I s')
    {s s' : σ} {es : List ε} (start : I s) (meets : EachStep step C s es)
    (taken : run step s es = some s') : I s' := by
  induction es generalizing s with
  | nil => cases taken; exact start
  | cons e es ih =>
      obtain ⟨t, first, rest⟩ := (run_cons step).mp taken
      exact ih (preserved s e t start meets.1 first) (meets.2 t first) rest

theorem EachStep.cons {P : σ → ε → Prop} {s t : σ} {e : ε} {es : List ε} (taken : step s e = some t)
    (here : P s e) (later : EachStep step P t es) : EachStep step P s (e :: es) := by
  apply And.intro here
  intro u again
  rw [taken] at again
  cases again
  exact later

theorem EachStep.trivial {s : σ} {es : List ε} : EachStep step (fun _ _ => True) s es := by
  induction es generalizing s with
  | nil => exact True.intro
  | cons e es ih => exact ⟨True.intro, fun _ _ => ih⟩

theorem EachStep.of_forall {Q : ε → Prop} {s : σ} {es : List ε} (all : ∀ e ∈ es, Q e) :
    EachStep step (fun _ => Q) s es := by
  induction es generalizing s with
  | nil => exact True.intro
  | cons e es ih =>
      exact ⟨all e List.mem_cons_self, fun _ _ => ih fun e member => all e (.tail _ member)⟩

theorem EachStep.after {P : σ → ε → Prop} {s t : σ} {es fs : List ε} {e : ε}
    (each : EachStep step P s (es ++ e :: fs)) (taken : run step s es = some t) : P t e := by
  induction es generalizing s with
  | nil => cases taken; exact each.1
  | cons x es ih =>
      obtain ⟨u, first, rest⟩ := (run_cons step).mp taken
      exact ih (each.2 u first) rest

theorem run_invariant {I : σ → Prop} (preserved : ∀ s e s', I s → step s e = some s' → I s')
    {s s' : σ} {es : List ε} (start : I s) (taken : run step s es = some s') : I s' :=
  run_invariant_of (C := fun _ _ => True) (fun s e s' inv _ => preserved s e s' inv) start .trivial taken

theorem EachStep.imp {I : σ → Prop} {C P : σ → ε → Prop}
    (preserved : ∀ s e s', I s → C s e → step s e = some s' → I s')
    (gives : ∀ s e, I s → C s e → P s e) {s : σ} {es : List ε} (start : I s)
    (meets : EachStep step C s es) : EachStep step P s es := by
  induction es generalizing s with
  | nil => exact True.intro
  | cons e es ih =>
      exact ⟨gives s e start meets.1, fun t taken =>
        ih (preserved s e t start meets.1 taken) (meets.2 t taken)⟩

theorem eachStep_congr {I : σ → Prop} {A P C : σ → ε → Prop}
    (preserved : ∀ s e s', I s → A s e → step s e = some s' → I s')
    (agree : ∀ s e s', I s → A s e → step s e = some s' → (P s e ↔ C s e))
    {s s' : σ} {es : List ε} (start : I s) (assumed : EachStep step A s es)
    (taken : run step s es = some s') : EachStep step P s es ↔ EachStep step C s es := by
  induction es generalizing s with
  | nil => exact Iff.rfl
  | cons e es ih =>
      obtain ⟨t, first, rest⟩ := (run_cons step).mp taken
      apply and_congr (agree s e t start assumed.1 first)
      apply forall₂_congr
      intro u again
      rw [first] at again
      cases again
      exact ih (preserved s e t start assumed.1 first) (assumed.2 t first) rest

theorem EachStep.congr_of {I : σ → Prop} {P C : σ → ε → Prop}
    (agree : ∀ s e, I s → (P s e ↔ C s e))
    (preserved : ∀ s e s', I s → C s e → step s e = some s' → I s') {s : σ} {es : List ε}
    (start : I s) : EachStep step P s es ↔ EachStep step C s es := by
  constructor
  · exact EachStep.imp (C := P) (fun s e s' inv holds => preserved s e s' inv ((agree s e inv).mp holds))
      (fun s e inv => (agree s e inv).mp) start
  · exact EachStep.imp (C := C) preserved (fun s e inv => (agree s e inv).mpr) start

theorem EachStep.congr {I : σ → Prop} {P C : σ → ε → Prop}
    (preserved : ∀ s e s', I s → step s e = some s' → I s')
    (agree : ∀ s e, I s → (P s e ↔ C s e)) {s : σ} {es : List ε} (start : I s) :
    EachStep step P s es ↔ EachStep step C s es :=
  EachStep.congr_of agree (fun s e s' inv _ => preserved s e s' inv) start

theorem run_lasting {P : σ → Prop} (lasting : ∀ s e s', step s e = some s' → P s' → P s)
    {s s' : σ} {es : List ε} (taken : run step s es = some s') (final : P s') : P s := by
  induction es generalizing s with
  | nil => cases taken; exact final
  | cons e es ih =>
      obtain ⟨t, first, rest⟩ := (run_cons step).mp taken
      exact lasting s e t first (ih rest)

theorem run_iff_eachStep {I P : σ → Prop} {A C : σ → ε → Prop}
    (preserved : ∀ s e s', I s → A s e → C s e → step s e = some s' → I s')
    (holds : ∀ s, I s → P s) (lasting : ∀ s e s', step s e = some s' → P s' → P s)
    (breaks : ∀ s e s', I s → A s e → ¬ C s e → step s e = some s' → ¬ P s')
    {s s' : σ} {es : List ε} (start : I s) (assumed : EachStep step A s es)
    (taken : run step s es = some s') : P s' ↔ EachStep step C s es := by
  induction es generalizing s with
  | nil => cases taken; exact iff_of_true (holds _ start) True.intro
  | cons e es ih =>
      obtain ⟨t, first, rest⟩ := (run_cons step).mp taken
      by_cases meets : C s e
      · rw [ih (preserved s e t start assumed.1 meets first) (assumed.2 t first) rest]
        exact ⟨EachStep.cons first meets, fun all => all.2 t first⟩
      · exact iff_of_false
          (fun final => breaks s e t start assumed.1 meets first (run_lasting lasting rest final))
          (fun all => meets all.1)

end

section
variable {σ ε τ δ : Type*} {step : σ → ε → Option σ} {step' : τ → δ → Option τ}

def Reaches (step : σ → ε → Option σ) (s t : σ) : Prop := ∃ es, run step s es = some t

theorem Reaches.refl (s : σ) : Reaches step s s := ⟨[], rfl⟩

theorem Reaches.trans {s t u : σ} (first : Reaches step s t) (second : Reaches step t u) : Reaches step s u := by
  obtain ⟨es, taken⟩ := first
  obtain ⟨fs, further⟩ := second
  exact ⟨es ++ fs, (run_append step).mpr ⟨t, taken, further⟩⟩

theorem Reaches.single {s t : σ} {e : ε} (taken : step s e = some t) : Reaches step s t :=
  ⟨[e], (run_cons step).mpr ⟨t, taken, rfl⟩⟩

/-- Where every step of the one system is matched by a run of the other, so is every run. -/
theorem run_simulated {R : σ → τ → Prop} {C : σ → ε → Prop}
    (matched : ∀ s e s' t, R s t → C s e → step s e = some s' → ∃ t', Reaches step' t t' ∧ R s' t')
    {s s' : σ} {t : τ} {es : List ε} (start : R s t) (meets : EachStep step C s es)
    (taken : run step s es = some s') : ∃ t', Reaches step' t t' ∧ R s' t' := by
  induction es generalizing s t with
  | nil =>
      cases taken
      exact ⟨t, .refl t, start⟩
  | cons e es ih =>
      obtain ⟨u, first, rest⟩ := (run_cons step).mp taken
      obtain ⟨v, reached, related⟩ := matched s e u t start meets.1 first
      obtain ⟨t', further, final⟩ := ih related (meets.2 u first) rest
      exact ⟨t', reached.trans further, final⟩

theorem run_projected {f : σ → τ} {C : σ → ε → Prop}
    (matched : ∀ s e s', C s e → step s e = some s' → Reaches step' (f s) (f s'))
    {s s' : σ} {es : List ε} (meets : EachStep step C s es) (taken : run step s es = some s') :
    Reaches step' (f s) (f s') := by
  have each (s : σ) (e : ε) (s' : σ) (t : τ) (same : f s = t) (holds : C s e) (taken : step s e = some s') :
      ∃ t', Reaches step' t t' ∧ f s' = t' := ⟨f s', same ▸ matched s e s' holds taken, rfl⟩
  obtain ⟨_, reached, rfl⟩ := run_simulated each rfl meets taken
  exact reached

end

end DecisionMaker.Library
