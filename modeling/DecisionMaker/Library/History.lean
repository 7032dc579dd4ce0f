import Mathlib.Data.List.Induction

namespace DecisionMaker.Library

section
variable {ε : Type*}

def Since (quiet began : ε → Prop) (es : List ε) : Prop :=
  ∃ before e between, es = before ++ e :: between ∧ began e ∧ ∀ e' ∈ between, quiet e'

def AtEach (H : List ε → ε → Prop) (es : List ε) : Prop :=
  ∀ front e back, es = front ++ e :: back → H front e

theorem concat_eq_append_cons {es front back : List ε} {e x : ε} :
    es ++ [e] = front ++ x :: back ↔
      (es = front ∧ e = x ∧ back = []) ∨ ∃ rest, back = rest ++ [e] ∧ es = front ++ x :: rest := by
  rcases List.eq_nil_or_concat back with rfl | ⟨rest, last, rfl⟩
  · simp
  · rw [List.concat_eq_append, ← List.cons_append, ← List.append_assoc, List.append_singleton_inj]
    constructor
    · intro same
      obtain ⟨rfl, rfl⟩ := same
      exact .inr ⟨rest, rfl, rfl⟩
    · intro splits
      rcases splits with ⟨-, -, none⟩ | ⟨rest', same, rfl⟩
      · simp at none
      · obtain ⟨rfl, rfl⟩ := List.append_singleton_inj.mp same
        exact ⟨rfl, rfl⟩

variable {quiet began : ε → Prop} {H : List ε → ε → Prop} {es : List ε} {e : ε}

@[simp] theorem since_nil : ¬ Since quiet began [] := by
  simp [Since]

@[simp] theorem since_concat :
    Since quiet began (es ++ [e]) ↔ began e ∨ quiet e ∧ Since quiet began es := by
  simp only [Since, concat_eq_append_cons]
  constructor
  · intro since
    obtain ⟨before, x, between, ⟨-, rfl, -⟩ | ⟨rest, rfl, rfl⟩, start, calm⟩ := since
    · exact .inl start
    · exact .inr ⟨calm e (by simp), before, x, rest, rfl, start, fun e' member =>
        calm e' (List.mem_append_left _ member)⟩
  · intro since
    rcases since with start | ⟨last, before, x, between, rfl, start, calm⟩
    · exact ⟨es, e, [], .inl ⟨rfl, rfl, rfl⟩, start, by simp⟩
    · refine ⟨before, x, between ++ [e], .inr ⟨between, rfl, rfl⟩, start, fun e' member => ?_⟩
      rcases List.mem_append.mp member with earlier | latest
      · exact calm e' earlier
      · rwa [List.mem_singleton.mp latest]

@[simp] theorem atEach_nil : AtEach H [] := by
  simp [AtEach]

@[simp] theorem atEach_concat : AtEach H (es ++ [e]) ↔ AtEach H es ∧ H es e := by
  simp only [AtEach, concat_eq_append_cons]
  constructor
  · intro all
    exact ⟨fun front x back split => all front x (back ++ [e]) (.inr ⟨back, rfl, split⟩),
      all es e [] (.inl ⟨rfl, rfl, rfl⟩)⟩
  · intro ⟨earlier, latest⟩ front x back splits
    rcases splits with ⟨rfl, rfl, -⟩ | ⟨rest, -, split⟩
    · exact latest
    · exact earlier front x rest split

theorem foldl_iff_since {σ : Type*} {apply : σ → ε → σ} {P : σ → Prop} {s : σ} (start : ¬ P s)
    (applied : ∀ s e, P (apply s e) ↔ began e ∨ quiet e ∧ P s) :
    P (es.foldl apply s) ↔ Since quiet began es := by
  induction es using List.reverseRecOn with
  | nil => simpa using start
  | append_singleton es e ih => rw [List.foldl_append, List.foldl_cons, List.foldl_nil, applied, ih, since_concat]

theorem Since.mono {quiet' began' : ε → Prop} (since : Since quiet began es)
    (calm : ∀ e, quiet e → quiet' e) (begins : ∀ e, began e → began' e) : Since quiet' began' es := by
  obtain ⟨before, e, between, rfl, start, still⟩ := since
  exact ⟨before, e, between, rfl, begins e start, fun e' member => calm e' (still e' member)⟩

theorem since_congr {quiet' began' : ε → Prop} (calm : ∀ e, quiet e ↔ quiet' e)
    (begins : ∀ e, began e ↔ began' e) : Since quiet began es ↔ Since quiet' began' es :=
  ⟨fun since => since.mono (fun e => (calm e).mp) (fun e => (begins e).mp),
    fun since => since.mono (fun e => (calm e).mpr) (fun e => (begins e).mpr)⟩

end

end DecisionMaker.Library
